import Mathlib.Data.List.Basic
import Mathlib.Order.Basic

/-!
# Loops that look for the latest time

A loop that takes the latest of some times never goes back and comes to each of
them, and does not go beyond what bounds them all.
-/

namespace NvmeVirt.Latest

variable {α σ τ : Type*} [Preorder τ] {step : σ → α → σ}

/-- A loop that never goes back, as long as it keeps `inv`, comes to the time of
each item. -/
theorem le_foldl_of (proj : σ → τ) (time : α → τ) {inv : σ → Prop}
    (hkeeps : ∀ state item, inv state → inv (step state item))
    (hgrows : ∀ state item, inv state → proj state ≤ proj (step state item))
    (htime : ∀ state item, inv state → time item ≤ proj (step state item))
    (items : List α) {start : σ} (hstart : inv start) :
    proj start ≤ proj (items.foldl step start) ∧
      ∀ item ∈ items, time item ≤ proj (items.foldl step start) := by
  induction items generalizing start with
  | nil => exact ⟨le_rfl, fun _ hmem => absurd hmem List.not_mem_nil⟩
  | cons first items ih =>
      obtain ⟨hfirst, hrest⟩ := ih (hkeeps start first hstart)
      refine ⟨(hgrows start first hstart).trans hfirst, ?_⟩
      refine List.forall_mem_cons.mpr ⟨?_, hrest⟩
      exact (htime start first hstart).trans hfirst

theorem le_foldl (proj : σ → τ) (time : α → τ)
    (hgrows : ∀ state item, proj state ≤ proj (step state item))
    (htime : ∀ state item, time item ≤ proj (step state item))
    (items : List α) (start : σ) :
    proj start ≤ proj (items.foldl step start) ∧
      ∀ item ∈ items, time item ≤ proj (items.foldl step start) :=
  @le_foldl_of _ _ _ _ step proj time (fun _ => True) (fun _ _ h => h)
    (fun state item _ => hgrows state item)
    (fun state item _ => htime state item) items start trivial

/-- What every round of a loop keeps, the loop keeps. -/
theorem foldl_keeps (inv : σ → Prop) {items : List α}
    (hstep : ∀ state, ∀ item ∈ items, inv state → inv (step state item))
    {start : σ} (hstart : inv start) : inv (items.foldl step start) := by
  induction items generalizing start with
  | nil => exact hstart
  | cons first items ih =>
      apply ih
      · intro state item hmem
        exact hstep state item (List.mem_cons_of_mem first hmem)
      · exact hstep start first List.mem_cons_self hstart

end NvmeVirt.Latest
