import Mathlib.Algebra.BigOperators.Group.List.Basic
import Mathlib.Algebra.Order.Ring.Nat

/-!
# Walking a range in aligned blocks

A loop over a range of positions often takes one aligned block of `unit`
positions at a time, so that only its first and its last chunk may be shorter
than a block.  It acts on the chunks that close, that is, on those whose end
is a multiple of `unit` or is closed for another reason.  The closed chunks
are one for each multiple of `unit` in the range, and perhaps the last chunk.
-/

namespace NvmeVirt.ChunkWalk

/-- The chunks of `remaining` positions from `pos` on whose end closes, each as
its start and its end. -/
def closedChunks (unit : ℕ) (closes : ℕ → Bool) : ℕ → ℕ → ℕ → List (ℕ × ℕ)
  | 0, _, _ => []
  | fuel + 1, pos, remaining =>
      if remaining = 0 then []
      else
        let step := min remaining (unit - pos % unit)
        let rest := closedChunks unit closes fuel (pos + step)
          (remaining - step)
        if closes (pos + step) then (pos, pos + step) :: rest else rest

section

variable {unit : ℕ} {closes : ℕ → Bool} {pos remaining : ℕ}

theorem closedChunks_zero (fuel : ℕ) :
    closedChunks unit closes fuel pos 0 = [] := by
  cases fuel <;> rfl

/-- The end of the block of a position. -/
theorem block_end (pos : ℕ) (hunit : 0 < unit) :
    pos + (unit - pos % unit) = (pos / unit + 1) * unit := by
  have hmod := Nat.mod_lt pos hunit
  have hsplit := Nat.div_add_mod' pos unit
  rw [Nat.succ_mul]
  omega

/-- A step within the block of `pos` ends the block exactly when it ends at a
multiple of `unit`. -/
theorem step_ends_block {step : ℕ} (hpos : 0 < step)
    (hle : step ≤ unit - pos % unit) :
    pos % unit + step = unit ↔ unit ∣ pos + step := by
  have hsplit : pos + step = unit * (pos / unit) + (pos % unit + step) := by
    rw [← Nat.add_assoc, Nat.div_add_mod]
  rw [hsplit, Nat.dvd_add_right (Nat.dvd_mul_right _ _)]
  constructor
  · intro heq
    rw [heq]
  · intro hdvd
    have hfull := Nat.le_of_dvd (by omega) hdvd
    omega

/-- The complete blocks that end in a range, with the start of the first cut
off at `pos`. -/
def wholeChunks (unit pos last : ℕ) : List (ℕ × ℕ) :=
  (List.range' (pos / unit) (last / unit - pos / unit)).map fun block =>
    (max pos (block * unit), (block + 1) * unit)

theorem wholeChunks_eq_nil (h : last / unit ≤ pos / unit) :
    wholeChunks unit pos last = [] := by
  rw [wholeChunks, Nat.sub_eq_zero_of_le h]
  rfl

/-- The first block, and the blocks behind it. -/
theorem wholeChunks_cons (hunit : 0 < unit) {last : ℕ}
    (hlast : (pos / unit + 1) * unit ≤ last) :
    wholeChunks unit pos last = (pos, (pos / unit + 1) * unit) ::
      wholeChunks unit ((pos / unit + 1) * unit) last := by
  have hblocks : pos / unit + 1 ≤ last / unit :=
    (Nat.le_div_iff_mul_le hunit).mpr hlast
  have hcount : last / unit - pos / unit =
      last / unit - (pos / unit + 1) + 1 := by omega
  have hfirst : max pos (pos / unit * unit) = pos :=
    max_eq_left (Nat.div_mul_le_self pos unit)
  rw [wholeChunks, wholeChunks, Nat.mul_div_cancel _ hunit, hcount,
    List.range'_succ, List.map_cons, hfirst]
  congr 1
  apply List.map_congr_left
  intro block hblock
  have hle : pos / unit + 1 ≤ block := (List.mem_range'_1.mp hblock).1
  have hstart : (pos / unit + 1) * unit ≤ block * unit :=
    Nat.mul_le_mul_right unit hle
  have hpos : pos ≤ (pos / unit + 1) * unit := by
    rw [← block_end pos hunit]
    exact Nat.le_add_right _ _
  rw [max_eq_right (hpos.trans hstart), max_eq_right hstart]

/-- The closed chunks of a range are the complete blocks, and behind them the
last chunk where it closes although the block goes on. -/
theorem closedChunks_eq (hunit : 0 < unit)
    (hcloses : ∀ stop, unit ∣ stop → closes stop = true) (pos : ℕ) {fuel : ℕ}
    (hfuel : remaining ≤ fuel) (hpos : 0 < remaining) :
    closedChunks unit closes fuel pos remaining =
      wholeChunks unit pos (pos + remaining) ++
        if closes (pos + remaining) = true ∧ ¬ unit ∣ pos + remaining then
          [(max pos ((pos + remaining) / unit * unit), pos + remaining)]
        else [] := by
  induction fuel generalizing pos remaining with
  | zero => omega
  | succ fuel ih =>
      have hmod := Nat.mod_lt pos hunit
      have hend := block_end pos hunit
      have hne : remaining ≠ 0 := hpos.ne'
      rw [closedChunks, if_neg hne]
      dsimp only
      by_cases hone : remaining ≤ unit - pos % unit
      · -- The range ends in the block it starts in.
        rw [min_eq_left hone, Nat.sub_self, closedChunks_zero]
        by_cases hfull : remaining = unit - pos % unit
        · have hdvd : unit ∣ pos + remaining := by
            rw [hfull, hend]
            exact Nat.dvd_mul_left _ _
          rw [if_pos (hcloses _ hdvd), if_neg (fun h => h.2 hdvd),
            List.append_nil, hfull, hend, wholeChunks_cons hunit le_rfl,
            wholeChunks_eq_nil le_rfl]
        · have hlt : pos + remaining < (pos / unit + 1) * unit := by omega
          have hdiv : (pos + remaining) / unit = pos / unit := by
            apply Nat.div_eq_of_lt_le
            · exact (Nat.div_mul_le_self pos unit).trans
                (Nat.le_add_right _ _)
            · exact hlt
          have hnot : ¬ unit ∣ pos + remaining := by
            intro hdvd
            have heq := Nat.div_mul_cancel hdvd
            rw [hdiv] at heq
            have hle := Nat.div_mul_le_self pos unit
            omega
          rw [wholeChunks_eq_nil hdiv.le, List.nil_append, hdiv,
            max_eq_left (Nat.div_mul_le_self pos unit)]
          by_cases hclosed : closes (pos + remaining) = true
          · rw [if_pos hclosed, if_pos ⟨hclosed, hnot⟩]
          · rw [if_neg hclosed, if_neg fun h => hclosed h.1]
      · -- The first chunk ends its block, and the walk goes on behind it.
        have hmore : unit - pos % unit < remaining := Nat.lt_of_not_le hone
        have hstep : min remaining (unit - pos % unit) = unit - pos % unit :=
          min_eq_right hmore.le
        have hlast : (pos / unit + 1) * unit +
            (remaining - (unit - pos % unit)) = pos + remaining := by omega
        have hbehind : (pos / unit + 1) * unit ≤
            (pos + remaining) / unit * unit := by
          apply Nat.mul_le_mul_right
          rw [Nat.le_div_iff_mul_le hunit]
          omega
        have hfirst : pos ≤ (pos / unit + 1) * unit := by omega
        have hcons : wholeChunks unit pos (pos + remaining) =
            (pos, (pos / unit + 1) * unit) ::
              wholeChunks unit ((pos / unit + 1) * unit) (pos + remaining) :=
          wholeChunks_cons hunit (by omega)
        rw [hstep, hend, if_pos (hcloses _ (Nat.dvd_mul_left _ _)),
          ih _ (by omega) (by omega), hlast, hcons, List.cons_append,
          max_eq_right hbehind, max_eq_right (hfirst.trans hbehind)]

/-- Where every chunk counts, there is one for each block the range touches:
the part of the block that lies in the range. -/
theorem closedChunks_always (hunit : 0 < unit) (pos : ℕ) {fuel : ℕ}
    (hfuel : remaining ≤ fuel) (hpos : 0 < remaining) :
    closedChunks unit (fun _ => true) fuel pos remaining =
      (List.range' (pos / unit)
        ((pos + remaining - 1) / unit + 1 - pos / unit)).map fun block =>
          (max pos (block * unit),
            min (pos + remaining) ((block + 1) * unit)) := by
  have hfirst : pos / unit ≤ (pos + remaining) / unit :=
    Nat.div_le_div_right (Nat.le_add_right _ _)
  have hlast : (pos + remaining) / unit = (pos + remaining - 1) / unit +
      if unit ∣ pos + remaining then 1 else 0 := by
    have hsucc : pos + remaining = pos + remaining - 1 + 1 := by omega
    rw [hsucc, Nat.succ_div, Nat.add_sub_cancel]
  have hwhole : wholeChunks unit pos (pos + remaining) =
      (List.range' (pos / unit)
        ((pos + remaining) / unit - pos / unit)).map fun block =>
          (max pos (block * unit),
            min (pos + remaining) ((block + 1) * unit)) := by
    apply List.map_congr_left
    intro block hblock
    have hbelow : block < (pos + remaining) / unit := by
      have hrange := List.mem_range'_1.mp hblock
      omega
    rw [min_eq_right ((Nat.le_div_iff_mul_le hunit).mp hbelow)]
  rw [closedChunks_eq hunit (fun _ _ => rfl) pos hfuel hpos, hwhole]
  by_cases hdvd : unit ∣ pos + remaining
  · rw [if_neg fun h => h.2 hdvd, List.append_nil, hlast, if_pos hdvd]
  · have hstop : pos + remaining < ((pos + remaining) / unit + 1) * unit := by
      rw [Nat.mul_comm]
      exact Nat.lt_mul_div_succ _ hunit
    have hcount : (pos + remaining - 1) / unit + 1 - pos / unit =
        (pos + remaining) / unit - pos / unit + 1 := by
      rw [if_neg hdvd] at hlast
      omega
    rw [if_pos ⟨rfl, hdvd⟩, hcount, List.range'_concat, List.map_append,
      List.map_singleton, Nat.one_mul, Nat.add_sub_cancel' hfirst,
      min_eq_left hstop.le]

/-- The number of the block of a complete chunk. -/
theorem map_start_wholeChunks (hunit : 0 < unit) (last : ℕ) :
    (wholeChunks unit pos last).map (fun chunk => chunk.1 / unit) =
      List.range' (pos / unit) (last / unit - pos / unit) := by
  have hstart : ∀ block ∈ List.range' (pos / unit) (last / unit - pos / unit),
      max pos (block * unit) / unit = block := by
    intro block hblock
    have hle : pos / unit ≤ block := (List.mem_range'_1.mp hblock).1
    have hlt : pos < (block + 1) * unit :=
      calc pos < unit * (pos / unit + 1) := Nat.lt_mul_div_succ pos hunit
        _ = (pos / unit + 1) * unit := Nat.mul_comm _ _
        _ ≤ (block + 1) * unit := Nat.mul_le_mul_right unit (by omega)
    apply Nat.div_eq_of_lt_le
    · exact le_max_right _ _
    · exact max_lt hlt (by rw [Nat.succ_mul]; omega)
  rw [wholeChunks, List.map_map]
  exact (List.map_congr_left hstart).trans (List.map_id' _)

/-- A quantity that is `size` on every complete chunk of the range. -/
theorem sum_wholeChunks (hunit : 0 < unit) {size last : ℕ} (weight : ℕ → ℕ)
    (hweight : ∀ stop, unit ∣ stop → pos < stop → stop ≤ last →
      weight stop = size) :
    ((wholeChunks unit pos last).map fun chunk => weight chunk.2).sum =
      size * (last / unit - pos / unit) := by
  have hconst : ∀ block ∈ List.range' (pos / unit)
      (last / unit - pos / unit), weight ((block + 1) * unit) = size := by
    intro block hblock
    obtain ⟨hfirst, hlast⟩ := List.mem_range'_1.mp hblock
    apply hweight _ (Nat.dvd_mul_left _ _)
    · calc pos < unit * (pos / unit + 1) := Nat.lt_mul_div_succ pos hunit
        _ = (pos / unit + 1) * unit := Nat.mul_comm _ _
        _ ≤ (block + 1) * unit := Nat.mul_le_mul_right unit (by omega)
    · rw [← Nat.le_div_iff_mul_le hunit]
      omega
  rw [wholeChunks, List.map_map]
  apply (congrArg List.sum (List.map_congr_left hconst)).trans
  simp [Nat.mul_comm]

end

end NvmeVirt.ChunkWalk
