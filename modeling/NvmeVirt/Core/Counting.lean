import Mathlib.Algebra.BigOperators.Group.Finset.Basic
import Mathlib.Data.Finset.Card
import Mathlib.Logic.Function.Basic

/-!
# Counting the entries of a table

Many counters of a program cache how many entries of a table satisfy a
predicate.  `countOn` is the specification of such a counter, and the lemmas
say how it moves when one entry is overwritten.
-/

namespace NvmeVirt.Counting

variable {ι β : Type*}

/-- How many of the `keys` hold an entry satisfying `p`. -/
def countOn (keys : Finset ι) (p : β → Prop) [DecidablePred p]
    (table : ι → β) : ℕ :=
  (keys.filter fun key => p (table key)).card

theorem countOn_le_card (keys : Finset ι) (p : β → Prop) [DecidablePred p]
    (table : ι → β) : countOn keys p table ≤ keys.card :=
  Finset.card_filter_le _ _

theorem countOn_congr {keys : Finset ι} {p : β → Prop} [DecidablePred p]
    {left right : ι → β}
    (h : ∀ key ∈ keys, (p (left key) ↔ p (right key))) :
    countOn keys p left = countOn keys p right := by
  rw [countOn]
  congr 1
  exact Finset.filter_congr h

theorem countOn_eq_zero {keys : Finset ι} {p : β → Prop} [DecidablePred p]
    {table : ι → β} (h : ∀ key ∈ keys, ¬ p (table key)) :
    countOn keys p table = 0 := by
  rw [countOn, Finset.card_eq_zero, Finset.filter_eq_empty_iff]
  exact h

theorem countOn_eq_card {keys : Finset ι} {p : β → Prop} [DecidablePred p]
    {table : ι → β} (h : ∀ key ∈ keys, p (table key)) :
    countOn keys p table = keys.card := by
  rw [countOn, Finset.filter_true_of_mem h]

theorem countOn_pos {keys : Finset ι} {p : β → Prop} [DecidablePred p]
    {table : ι → β} {key : ι} (hkey : key ∈ keys) (hp : p (table key)) :
    0 < countOn keys p table :=
  Finset.card_pos.mpr ⟨key, Finset.mem_filter.mpr ⟨hkey, hp⟩⟩

theorem countOn_lt_card {keys : Finset ι} {p : β → Prop} [DecidablePred p]
    {table : ι → β} {key : ι} (hkey : key ∈ keys) (hp : ¬ p (table key)) :
    countOn keys p table < keys.card := by
  apply Finset.card_lt_card
  refine Finset.ssubset_iff_subset_ne.mpr ⟨Finset.filter_subset _ _, ?_⟩
  intro heq
  rw [Finset.filter_eq_self] at heq
  exact hp (heq key hkey)

/-- Two predicates that never hold together count at most every key. -/
theorem countOn_add_le {keys : Finset ι} {p q : β → Prop} [DecidablePred p]
    [DecidablePred q] {table : ι → β}
    (hdisjoint : ∀ key ∈ keys, p (table key) → ¬ q (table key)) :
    countOn keys p table + countOn keys q table ≤ keys.card := by
  classical
  unfold countOn
  rw [← Finset.card_union_of_disjoint]
  · exact Finset.card_le_card (Finset.union_subset (Finset.filter_subset _ _)
      (Finset.filter_subset _ _))
  · rw [Finset.disjoint_filter]
    exact hdisjoint

/-- A predicate that splits into two exclusive ones counts what they count. -/
theorem countOn_eq_add {keys : Finset ι} {p q r : β → Prop} [DecidablePred p]
    [DecidablePred q] [DecidablePred r] {table : ι → β}
    (hsplit : ∀ key ∈ keys, (r (table key) ↔ p (table key) ∨ q (table key)))
    (hdisjoint : ∀ key ∈ keys, p (table key) → ¬ q (table key)) :
    countOn keys r table = countOn keys p table + countOn keys q table := by
  classical
  unfold countOn
  rw [← Finset.card_union_of_disjoint]
  · rw [← Finset.filter_or, Finset.filter_congr hsplit]
  · rw [Finset.disjoint_filter]
    exact hdisjoint

/-- Two complementary predicates count every key. -/
theorem countOn_add_eq_card {keys : Finset ι} {p q : β → Prop}
    [DecidablePred p] [DecidablePred q] {table : ι → β}
    (h : ∀ key ∈ keys, (q (table key) ↔ ¬ p (table key))) :
    countOn keys p table + countOn keys q table = keys.card := by
  have hq : countOn keys q table =
      (keys.filter fun key => ¬ p (table key)).card := by
    rw [countOn]
    congr 1
    exact Finset.filter_congr h
  rw [hq]
  exact Finset.card_filter_add_card_filter_not _

/-- The keys counted part by part. -/
theorem countOn_eq_sum {κ : Type*} [DecidableEq κ] {keys : Finset ι}
    {p : β → Prop} [DecidablePred p] {table : ι → β} {part : ι → κ}
    {parts : Finset κ} (hpart : ∀ key ∈ keys, part key ∈ parts) :
    countOn keys p table =
      ∑ index ∈ parts,
        countOn (keys.filter fun key => part key = index) p table := by
  have hmaps : ∀ key ∈ keys.filter fun key => p (table key),
      part key ∈ parts := by
    intro key hkey
    exact hpart key (Finset.mem_filter.mp hkey).1
  unfold countOn
  rw [Finset.card_eq_sum_card_fiberwise hmaps]
  apply Finset.sum_congr rfl
  intro index _
  rw [Finset.filter_filter, Finset.filter_filter]
  congr 1
  apply Finset.filter_congr
  exact fun _ _ => and_comm

section Update

variable [DecidableEq ι]

theorem countOn_update_of_notMem {keys : Finset ι} {p : β → Prop}
    [DecidablePred p] {table : ι → β} {key : ι} (value : β)
    (hkey : key ∉ keys) :
    countOn keys p (Function.update table key value) =
      countOn keys p table := by
  apply countOn_congr
  intro other hother
  have hne : other ≠ key := fun heq => hkey (heq ▸ hother)
  rw [Function.update_of_ne hne]

/-- Overwriting one entry: what the old entry contributed leaves, what the new
one contributes arrives. -/
theorem countOn_update {keys : Finset ι} {p : β → Prop} [DecidablePred p]
    {table : ι → β} {key : ι} (value : β) (hkey : key ∈ keys) :
    countOn keys p (Function.update table key value) +
        (if p (table key) then 1 else 0) =
      countOn keys p table + (if p value then 1 else 0) := by
  have hsplit : ∀ current : ι → β, countOn keys p current =
      countOn (keys.erase key) p current +
        (if p (current key) then 1 else 0) := by
    intro current
    unfold countOn
    conv_lhs => rw [← Finset.insert_erase hkey]
    rw [Finset.filter_insert]
    by_cases hp : p (current key)
    · rw [if_pos hp, if_pos hp, Finset.card_insert_of_notMem]
      simp
    · rw [if_neg hp, if_neg hp, Nat.add_zero]
  rw [hsplit (Function.update table key value), hsplit table,
    Function.update_self,
    countOn_update_of_notMem value (Finset.notMem_erase key keys)]
  omega

end Update

end NvmeVirt.Counting
