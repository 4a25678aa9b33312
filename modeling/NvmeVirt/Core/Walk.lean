import Mathlib.Data.Finset.Card
import Mathlib.Logic.Relation

/-!
# Walks along a partial function

A walk follows a partial function until it is undefined.  It ends in one place
only, a change of the function off its path does not concern it, and it does
end when a rank grows along every step.
-/

namespace NvmeVirt.Walk

variable {ι : Type*} {step step' : ι → Option ι} {start last place : ι}

/-- The walk from `start` comes to `place`. -/
def Arrives (step : ι → Option ι) : ι → ι → Prop :=
  Relation.ReflTransGen fun p q => step p = some q

/-- The walk from `start` ends in `last`. -/
def Ends (step : ι → Option ι) (start last : ι) : Prop :=
  Arrives step start last ∧ step last = none

theorem Arrives.refl : Arrives step start start := Relation.ReflTransGen.refl

theorem Arrives.head {next : ι} (hstep : step start = some next)
    (h : Arrives step next last) : Arrives step start last :=
  Relation.ReflTransGen.head hstep h

theorem Arrives.tail {next : ι} (h : Arrives step start place)
    (hstep : step place = some next) : Arrives step start next :=
  Relation.ReflTransGen.tail h hstep

/-- What a walk comes to lies before its end. -/
theorem Ends.of_arrives (hends : Ends step start last)
    (h : Arrives step start place) : Ends step place last := by
  refine ⟨?_, hends.2⟩
  have hunique : Relator.RightUnique fun p q => step p = some q :=
    fun p q r hq hr => Option.some.inj (hq.symm.trans hr)
  obtain hforth | hback :=
    Relation.ReflTransGen.total_of_right_unique hunique h hends.1
  · exact hforth
  · obtain rfl | ⟨next, hnext, -⟩ := Relation.ReflTransGen.cases_head hback
    · exact Arrives.refl
    · rw [hends.2] at hnext
      cases hnext

theorem Ends.unique (hends : Ends step start last)
    (hends' : Ends step start place) : last = place := by
  obtain ⟨harrives, hlast⟩ := hends'.of_arrives hends.1
  obtain rfl | ⟨next, hnext, -⟩ := Relation.ReflTransGen.cases_head harrives
  · rfl
  · rw [hends.2] at hnext
    cases hnext

/-- A walk stays the same when the function stays the same where the walk goes
on. -/
theorem Arrives.congr (h : Arrives step start last)
    (hsame : ∀ p q, Arrives step start p → step p = some q →
      step' p = some q) : Arrives step' start last := by
  induction h with
  | refl => exact Arrives.refl
  | tail harrives hnext ih => exact ih.tail (hsame _ _ harrives hnext)

/-- A walk to a place does not depend on the step out of that place. -/
theorem Arrives.congr_off (h : Arrives step start place)
    (hsame : ∀ p, p ≠ place → step' p = step p) : Arrives step' start place := by
  induction h using Relation.ReflTransGen.head_induction_on with
  | refl => exact Arrives.refl
  | @head p next hnext _ ih =>
      by_cases hplace : p = place
      · rw [hplace]
        exact Arrives.refl
      · exact ih.head ((hsame p hplace).trans hnext)

/-- The number of places below `count` of a higher rank. -/
def above (count : ℕ) (rank : ℕ → ℕ) (p : ℕ) : ℕ :=
  ((Finset.range count).filter fun q => rank p < rank q).card

theorem above_le (count : ℕ) (rank : ℕ → ℕ) (p : ℕ) :
    above count rank p ≤ count :=
  (Finset.card_filter_le _ _).trans_eq (Finset.card_range count)

/-- A step to a higher rank leaves fewer places above. -/
theorem above_lt {count : ℕ} {rank : ℕ → ℕ} {p q : ℕ} (hq : q < count)
    (hrank : rank p < rank q) : above count rank q < above count rank p := by
  apply Finset.card_lt_card
  rw [Finset.ssubset_iff_of_subset]
  · refine ⟨q, ?_, ?_⟩
    · exact Finset.mem_filter.mpr ⟨Finset.mem_range.mpr hq, hrank⟩
    · exact fun hmem => lt_irrefl _ (Finset.mem_filter.mp hmem).2
  · intro r hr
    obtain ⟨hlt, habove⟩ := Finset.mem_filter.mp hr
    exact Finset.mem_filter.mpr ⟨hlt, hrank.trans habove⟩

theorem above_lt_count {count : ℕ} (rank : ℕ → ℕ) {p : ℕ} (hp : p < count) :
    above count rank p < count := by
  calc above count rank p < (Finset.range count).card := by
        apply Finset.card_lt_card
        rw [Finset.ssubset_iff_of_subset (Finset.filter_subset _ _)]
        exact ⟨p, Finset.mem_range.mpr hp,
          fun hmem => lt_irrefl _ (Finset.mem_filter.mp hmem).2⟩
    _ = count := Finset.card_range count

/-- Where the walk is after `count` steps, if it goes on that long. -/
def afterSteps (step : ι → Option ι) : ℕ → ι → Option ι
  | 0, p => some p
  | count + 1, p => (step p).bind (afterSteps step count)

/-- A walk whose height falls with every step is over after that many
steps and one more. -/
theorem afterSteps_eq_none (height : ι → ℕ)
    (hfalls : ∀ p q, step p = some q → height q < height p) {count : ℕ}
    (hcount : height start < count) : afterSteps step count start = none := by
  induction count generalizing start with
  | zero => exact absurd hcount (Nat.not_lt_zero _)
  | succ count ih =>
      cases hnext : step start with
      | none => rw [afterSteps, hnext, Option.bind_none]
      | some next =>
          have hlt := hfalls start next hnext
          rw [afterSteps, hnext, Option.bind_some]
          exact ih (by omega)

end NvmeVirt.Walk
