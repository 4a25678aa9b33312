import Mathlib.Algebra.BigOperators.Group.List.Basic
import Mathlib.Algebra.Order.Ring.Nat

/-!
# Ranges laid end to end

Pieces of a line, each with a start and a length, that follow each other
without a gap: together they are one range, and no two of them overlap.
-/

namespace NvmeVirt.Tiling

/-- The pieces are laid end to end from `start` to `stop`. -/
def Tiled : ℕ → List (ℕ × ℕ) → ℕ → Prop
  | start, [], stop => start = stop
  | start, piece :: pieces, stop =>
      piece.1 = start ∧ Tiled (start + piece.2) pieces stop

/-- The place lies in a piece. -/
def Covers (pieces : List (ℕ × ℕ)) (place : ℕ) : Prop :=
  ∃ piece ∈ pieces, piece.1 ≤ place ∧ place < piece.1 + piece.2

variable {start stop : ℕ} {pieces : List (ℕ × ℕ)}

/-- One more piece, where the last one ends. -/
theorem Tiled.concat (h : Tiled start pieces stop) (length : ℕ) :
    Tiled start (pieces ++ [(stop, length)]) (stop + length) := by
  induction pieces generalizing start with
  | nil =>
      obtain rfl : start = stop := h
      exact ⟨rfl, rfl⟩
  | cons piece pieces ih => exact ⟨h.1, ih h.2⟩

theorem Tiled.stop_eq (h : Tiled start pieces stop) :
    stop = start + (pieces.map Prod.snd).sum := by
  induction pieces generalizing start with
  | nil => exact Eq.symm h
  | cons piece pieces ih =>
      rw [ih h.2, List.map_cons, List.sum_cons, Nat.add_assoc]

theorem Tiled.le (h : Tiled start pieces stop) : start ≤ stop := by
  rw [h.stop_eq]
  exact Nat.le_add_right _ _

theorem Tiled.start_le (h : Tiled start pieces stop) :
    ∀ piece ∈ pieces, start ≤ piece.1 := by
  induction pieces generalizing start with
  | nil => exact List.forall_mem_nil _
  | cons piece pieces ih =>
      refine List.forall_mem_cons.mpr ⟨h.1.ge, fun later hlater => ?_⟩
      exact (Nat.le_add_right _ _).trans (ih h.2 later hlater)

/-- An earlier piece ends where a later one begins, or before. -/
theorem Tiled.pairwise (h : Tiled start pieces stop) :
    pieces.Pairwise fun piece later => piece.1 + piece.2 ≤ later.1 := by
  induction pieces generalizing start with
  | nil => exact List.Pairwise.nil
  | cons piece pieces ih =>
      refine List.pairwise_cons.mpr ⟨fun later hlater => ?_, ih h.2⟩
      rw [h.1]
      exact h.2.start_le later hlater

/-- The pieces cover the range from `start` to `stop`. -/
theorem Tiled.covers_iff (h : Tiled start pieces stop) (place : ℕ) :
    Covers pieces place ↔ start ≤ place ∧ place < stop := by
  induction pieces generalizing start with
  | nil =>
      obtain rfl : start = stop := h
      refine iff_of_false ?_ (by omega)
      rintro ⟨piece, hpiece, -⟩
      exact List.not_mem_nil hpiece
  | cons piece pieces ih =>
      obtain ⟨rfl, hrest⟩ := h
      have hle := hrest.le
      have hsplit : Covers (piece :: pieces) place ↔
          (piece.1 ≤ place ∧ place < piece.1 + piece.2) ∨
            Covers pieces place := by
        simp only [Covers, List.mem_cons, exists_eq_or_imp]
      rw [hsplit, ih hrest]
      omega

end NvmeVirt.Tiling
