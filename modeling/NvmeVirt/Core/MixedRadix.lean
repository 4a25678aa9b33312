import Mathlib.Algebra.Order.Ring.Nat
import Mathlib.Tactic.Ring

/-!
# Mixed-radix digits

`high * radix + low` with `low < radix` appends one digit to a number.  A
page number, a zone offset or the position of an odometer is a chain of such
steps, and these lemmas handle one step at a time.
-/

namespace NvmeVirt.MixedRadix

variable {high high' low low' radix count : ℕ}

theorem digit_lt (hhigh : high < count) (hlow : low < radix) :
    high * radix + low < count * radix := by
  have hsucc : (high + 1) * radix ≤ count * radix :=
    Nat.mul_le_mul_right radix hhigh
  rw [Nat.succ_mul] at hsucc
  omega

theorem digit_div (hlow : low < radix) :
    (high * radix + low) / radix = high := by
  rw [Nat.mul_comm, Nat.mul_add_div (by omega), Nat.div_eq_of_lt hlow,
    Nat.add_zero]

theorem digit_mod (hlow : low < radix) :
    (high * radix + low) % radix = low := by
  rw [Nat.mul_add_mod', Nat.mod_eq_of_lt hlow]

theorem digit_inj (hlow : low < radix) (hlow' : low' < radix)
    (heq : high * radix + low = high' * radix + low') :
    high = high' ∧ low = low' := by
  constructor
  · calc high = (high * radix + low) / radix := (digit_div hlow).symm
      _ = high' := by rw [heq, digit_div hlow']
  · calc low = (high * radix + low) % radix := (digit_mod hlow).symm
      _ = low' := by rw [heq, digit_mod hlow']

/-- Every number below the product is a digit appended to another. -/
theorem exists_digit {value : ℕ} (hvalue : value < count * radix) :
    ∃ high low, high < count ∧ low < radix ∧ high * radix + low = value := by
  have hproduct : 0 < count * radix := (Nat.zero_le value).trans_lt hvalue
  have hradix : 0 < radix := Nat.pos_of_mul_pos_left hproduct
  have hhigh : value / radix < count := by
    rw [Nat.div_lt_iff_lt_mul hradix]
    exact hvalue
  exact ⟨value / radix, value % radix, hhigh, Nat.mod_lt value hradix,
    Nat.div_add_mod' value radix⟩

end NvmeVirt.MixedRadix
