import Mathlib.Algebra.BigOperators.Group.List.Basic
import Mathlib.Algebra.Order.Ring.Nat

/-!
# Items served in batches

A loop over items often does not serve an item at once: it collects items that
belong together and serves them with one request.  `Served` says which items
each of the requests is for.
-/

namespace NvmeVirt.Batches

variable {ρ α : Type*} {unit : ℕ} {size : ρ → ℕ} {fits : ρ → α → Prop}

/-- A request of `unit` for each of its items, all of which fit it. -/
structure Serves (unit : ℕ) (size : ρ → ℕ) (fits : ρ → α → Prop)
    (request : ρ) (group : List α) : Prop where
  nonempty : group ≠ []
  size_eq : size request = unit * group.length
  fits : ∀ item ∈ group, fits request item

/-- The requests serve the items, each of them with one request. -/
def Served (unit : ℕ) (size : ρ → ℕ) (fits : ρ → α → Prop)
    (requests : List ρ) (items : List α) : Prop :=
  ∃ groups, List.Forall₂ (Serves unit size fits) requests groups ∧
    groups.flatten = items

theorem served_nil : Served unit size fits [] [] := ⟨[], .nil, rfl⟩

theorem Serves.served {request : ρ} {group : List α}
    (h : Serves unit size fits request group) :
    Served unit size fits [request] group :=
  ⟨[group], .cons h .nil, List.flatten_singleton⟩

theorem Served.append {requests others : List ρ} {items rest : List α}
    (h : Served unit size fits requests items)
    (hrest : Served unit size fits others rest) :
    Served unit size fits (requests ++ others) (items ++ rest) := by
  obtain ⟨groups, hgroups, rfl⟩ := h
  obtain ⟨more, hmore, rfl⟩ := hrest
  exact ⟨groups ++ more, List.rel_append hgroups hmore, List.flatten_append⟩

/-- The requests are for as much as there are items. -/
theorem Served.sum_size {requests : List ρ} {items : List α}
    (h : Served unit size fits requests items) :
    (requests.map size).sum = unit * items.length := by
  obtain ⟨groups, hgroups, rfl⟩ := h
  induction hgroups with
  | nil => rfl
  | cons hserves _ ih =>
      rw [List.map_cons, List.sum_cons, ih, hserves.size_eq,
        List.flatten_cons, List.length_append, Nat.mul_add]

end NvmeVirt.Batches
