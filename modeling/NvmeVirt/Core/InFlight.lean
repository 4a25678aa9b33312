import Mathlib.Algebra.BigOperators.Group.List.Basic
import Mathlib.Algebra.Order.Ring.Nat

/-!
# Amounts in flight

A list of items on their way, each with an amount for one receiver.  What is on
its way to a receiver is additive in the list, and an item that arrives takes
its amount with it.
-/

namespace NvmeVirt.InFlight

variable {ι κ : Type*} [DecidableEq κ] (receiver : ι → κ) (amount : ι → ℕ)

/-- What the items hold for the receiver `key`. -/
def inFlight (items : List ι) (key : κ) : ℕ :=
  (items.map fun item => if receiver item = key then amount item else 0).sum

@[simp]
theorem inFlight_nil (key : κ) : inFlight receiver amount [] key = 0 := rfl

theorem inFlight_cons (item : ι) (items : List ι) (key : κ) :
    inFlight receiver amount (item :: items) key =
      (if receiver item = key then amount item else 0) +
        inFlight receiver amount items key := List.sum_cons

theorem inFlight_append (left right : List ι) (key : κ) :
    inFlight receiver amount (left ++ right) key =
      inFlight receiver amount left key +
        inFlight receiver amount right key := by
  rw [inFlight, List.map_append, List.sum_append]
  rfl

variable {receiver amount}

/-- An item that arrives. -/
theorem inFlight_eraseIdx {items : List ι} {index : ℕ} {item : ι}
    (hitem : items[index]? = some item) (key : κ) :
    inFlight receiver amount (items.eraseIdx index) key +
        (if receiver item = key then amount item else 0) =
      inFlight receiver amount items key := by
  induction items generalizing index with
  | nil => cases hitem
  | cons head items ih =>
      cases index with
      | zero =>
          cases hitem
          rw [List.eraseIdx_cons_zero, inFlight_cons, Nat.add_comm]
      | succ index =>
          rw [List.getElem?_cons_succ] at hitem
          rw [List.eraseIdx_cons_succ, inFlight_cons, inFlight_cons,
            Nat.add_assoc, ih hitem]

/-- Items that are all for one receiver. -/
theorem inFlight_of_forall {items : List ι} {key : κ}
    (h : ∀ item ∈ items, receiver item = key) (other : κ) :
    inFlight receiver amount items other =
      if key = other then (items.map amount).sum else 0 := by
  induction items with
  | nil => rw [inFlight_nil, List.map_nil, List.sum_nil, ite_self]
  | cons item items ih =>
      rw [inFlight_cons, ih fun next hnext => h next (List.mem_cons_of_mem _ hnext),
        h item List.mem_cons_self, List.map_cons, List.sum_cons]
      split_ifs <;> rfl

/-- Nothing is on its way to a receiver without items. -/
theorem inFlight_of_forall_ne {items : List ι} {key : κ}
    (h : ∀ item ∈ items, receiver item ≠ key) :
    inFlight receiver amount items key = 0 := by
  induction items with
  | nil => rfl
  | cons item items ih =>
      rw [inFlight_cons, if_neg (h item List.mem_cons_self),
        ih fun next hnext => h next (List.mem_cons_of_mem _ hnext)]

end NvmeVirt.InFlight
