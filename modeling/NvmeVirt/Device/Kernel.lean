import NvmeVirt.Core.Transition
import Mathlib.Algebra.Order.Ring.Nat

/-!
# The kernel the driver runs on

Faults of a kernel path, assertions, and the fixed-width unsigned arithmetic
of C.  A C integer is a natural number here; where a result can leave its
width, the wrap is written out with `u32` and `u64`.
-/

namespace NvmeVirt.Kernel

open NvmeVirt.Transition

/-- Ways a modelled path stops without returning. -/
inductive Fault
  /-- `NVMEV_ASSERT` and `BUG_ON`. -/
  | assertion
  | nullPointer
  /-- A pointer that nothing has set is followed. -/
  | unsetPointer
  | divideByZero
  /-- An array access past the end of the array. -/
  | outOfBounds
  /-- A loop that is still running after every iteration its bound allows. -/
  | divergence
  deriving DecidableEq, Repr

/-- `NVMEV_ASSERT(condition)`. -/
def nvmevAssert (condition : Prop) [Decidable condition] :
    Except Fault Unit :=
  if condition then .ok () else .error .assertion

theorem nvmevAssert_of {condition : Prop} [Decidable condition]
    (h : condition) : nvmevAssert condition = .ok () := if_pos h

theorem nvmevAssert_not {condition : Prop} [Decidable condition]
    (h : ¬ condition) : nvmevAssert condition = .error .assertion := if_neg h

theorem of_nvmevAssert {condition : Prop} [Decidable condition]
    (h : nvmevAssert condition = .ok ()) : condition := by
  by_contra hnot
  rw [nvmevAssert_not hnot] at h
  cases h

/-- Truncation to an `unsigned int`. -/
def u32 (value : ℕ) : ℕ := value % 2 ^ 32

/-- Truncation to an `unsigned long long`. -/
def u64 (value : ℕ) : ℕ := value % 2 ^ 64

/-- Subtraction of `unsigned int` values. -/
def sub32 (left right : ℕ) : ℕ := u32 (left + (2 ^ 32 - u32 right))

/-- Subtraction of `unsigned long long` values. -/
def sub64 (left right : ℕ) : ℕ := u64 (left + (2 ^ 64 - u64 right))

theorem u32_lt (value : ℕ) : u32 value < 2 ^ 32 :=
  Nat.mod_lt _ (by decide)

theorem u32_of_lt {value : ℕ} (h : value < 2 ^ 32) : u32 value = value :=
  Nat.mod_eq_of_lt h

theorem u64_of_lt {value : ℕ} (h : value < 2 ^ 64) : u64 value = value :=
  Nat.mod_eq_of_lt h

theorem sub32_of_le {left right : ℕ} (hle : right ≤ left)
    (hlt : left < 2 ^ 32) : sub32 left right = left - right := by
  have hright : right < 2 ^ 32 := by omega
  rw [sub32, u32_of_lt hright, u32]
  omega

theorem sub64_of_le {left right : ℕ} (hle : right ≤ left)
    (hlt : left < 2 ^ 64) : sub64 left right = left - right := by
  have hright : right < 2 ^ 64 := by omega
  rw [sub64, u64_of_lt hright, u64]
  omega

/-- `DIV_ROUND_UP`. -/
def divRoundUp (value unit : ℕ) : ℕ := (value + unit - 1) / unit

/-- `LBA_TO_BYTE`: logical blocks are 512 bytes. -/
def lbaToByte (lbas : ℕ) : ℕ := lbas * 2 ^ 9

/-- `BYTE_TO_LBA`. -/
def byteToLba (bytes : ℕ) : ℕ := bytes / 2 ^ 9

end NvmeVirt.Kernel
