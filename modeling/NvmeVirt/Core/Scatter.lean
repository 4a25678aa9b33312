import Mathlib.Algebra.Order.Ring.Nat
import Mathlib.Data.List.Nodup
import Mathlib.Data.Nat.ModEq

/-!
# Scattered ranges

A range is spread over pages: from each page it takes what lies between the
address of the page entry and the end of the page, until nothing remains.  A
walk that takes pages which follow each other in one piece pairs the same
bytes.  Addresses wrap at a modulus.
-/

namespace NvmeVirt.Scatter

/-- The pairs of bytes of a copy in one piece. -/
def extent (modulus left right size : ℕ) : List (ℕ × ℕ) :=
  (List.range size).map fun i => ((left + i) % modulus, (right + i) % modulus)

/-- The pairs of bytes of a range that is spread over `pages`. -/
def scatter (modulus unit : ℕ) : List ℕ → ℕ → ℕ → List (ℕ × ℕ)
  | [], _, _ => []
  | page :: pages, right, remaining =>
      let size := min remaining (unit - page % unit)
      extent modulus page right size ++
        scatter modulus unit pages (right + size) (remaining - size)

/-- The bytes for which there is room in the pages. -/
def capacity (unit : ℕ) (pages : List ℕ) : ℕ :=
  (pages.map fun page => unit - page % unit).sum

/-- Each page starts where the one before it ends. -/
def Contiguous (modulus unit : ℕ) : ℕ → List ℕ → Prop
  | _, [] => True
  | page, next :: pages =>
      next = (page + unit) % modulus ∧ Contiguous modulus unit next pages

section

variable {modulus unit left right remaining : ℕ} {pages : List ℕ}

@[simp]
theorem extent_zero : extent modulus left right 0 = [] := rfl

theorem extent_add (size more : ℕ) :
    extent modulus left right (size + more) =
      extent modulus left right size ++
        extent modulus (left + size) (right + size) more := by
  rw [extent, List.range_add, List.map_append, List.map_map]
  congr 1
  refine List.map_congr_left fun i _ => ?_
  rw [Function.comp_apply, Nat.add_assoc, Nat.add_assoc]

theorem extent_congr {left' right' : ℕ} (size : ℕ)
    (hleft : left % modulus = left' % modulus)
    (hright : right % modulus = right' % modulus) :
    extent modulus left right size = extent modulus left' right' size := by
  refine List.map_congr_left fun i _ => ?_
  rw [Nat.add_mod left, hleft, ← Nat.add_mod, Nat.add_mod right, hright,
    ← Nat.add_mod]

theorem map_snd_extent (size : ℕ) :
    (extent modulus left right size).map Prod.snd =
      (List.range size).map fun i => (right + i) % modulus := by
  rw [extent, List.map_map]
  rfl

@[simp]
theorem capacity_nil : capacity unit [] = 0 := rfl

theorem capacity_cons (page : ℕ) (pages : List ℕ) :
    capacity unit (page :: pages) =
      unit - page % unit + capacity unit pages := by
  rw [capacity, List.map_cons, List.sum_cons, capacity]

theorem capacity_append (pages others : List ℕ) :
    capacity unit (pages ++ others) =
      capacity unit pages + capacity unit others := by
  rw [capacity, List.map_append, List.sum_append, capacity, capacity]

/-- Aligned pages have room for a whole unit each. -/
theorem capacity_of_aligned (haligned : ∀ page ∈ pages, page % unit = 0) :
    capacity unit pages = pages.length * unit := by
  induction pages with
  | nil => exact (Nat.zero_mul _).symm
  | cons page pages ih =>
      obtain ⟨hpage, hpages⟩ := List.forall_mem_cons.mp haligned
      rw [capacity_cons, ih hpages, hpage, Nat.sub_zero, List.length_cons,
        Nat.succ_mul, Nat.add_comm]

@[simp]
theorem scatter_zero (pages : List ℕ) (right : ℕ) :
    scatter modulus unit pages right 0 = [] := by
  induction pages generalizing right with
  | nil => rfl
  | cons page pages ih =>
      rw [scatter, Nat.zero_min]
      exact ih _

theorem scatter_congr {right' : ℕ} (pages : List ℕ) (remaining : ℕ)
    (hright : right % modulus = right' % modulus) :
    scatter modulus unit pages right remaining =
      scatter modulus unit pages right' remaining := by
  induction pages generalizing right right' remaining with
  | nil => rfl
  | cons page pages ih =>
      rw [scatter, scatter]
      rw [extent_congr _ rfl hright, ih]
      rw [Nat.add_mod, hright, ← Nat.add_mod]

/-- The right side of the pairs is the whole range, byte after byte. -/
theorem map_snd_scatter (hroom : remaining ≤ capacity unit pages) :
    (scatter modulus unit pages right remaining).map Prod.snd =
      (List.range remaining).map fun i => (right + i) % modulus := by
  induction pages generalizing right remaining with
  | nil =>
      rw [Nat.le_zero.mp hroom]
      rfl
  | cons page pages ih =>
      rw [capacity_cons] at hroom
      rw [scatter]
      rw [List.map_append, map_snd_extent, ih (by omega)]
      obtain ⟨rest, hrest⟩ := Nat.exists_eq_add_of_le
        (Nat.min_le_left remaining (unit - page % unit))
      have hremain : remaining - min remaining (unit - page % unit) = rest := by
        omega
      rw [hremain]
      conv_rhs => rw [hrest, List.range_add, List.map_append, List.map_map]
      congr 1
      refine List.map_congr_left fun i _ => ?_
      rw [Function.comp_apply, Nat.add_assoc]

/-- The left side of the pairs does not depend on where the range starts. -/
theorem map_fst_scatter (pages : List ℕ) (right right' remaining : ℕ) :
    (scatter modulus unit pages right remaining).map Prod.fst =
      (scatter modulus unit pages right' remaining).map Prod.fst := by
  induction pages generalizing right right' remaining with
  | nil => rfl
  | cons page pages ih =>
      rw [scatter, scatter]
      rw [List.map_append, List.map_append, ih (right + _) (right' + _), extent,
        extent, List.map_map, List.map_map]
      rfl

/-- A range that is not longer than the modulus has no address twice. -/
theorem nodup_range_mod (start : ℕ) {size : ℕ} (hsize : size ≤ modulus) :
    ((List.range size).map fun i => (start + i) % modulus).Nodup := by
  refine List.Nodup.map_on ?_ List.nodup_range
  intro i hi j hj heq
  have hi := Nat.lt_of_lt_of_le (List.mem_range.mp hi) hsize
  have hj := Nat.lt_of_lt_of_le (List.mem_range.mp hj) hsize
  have hmod : i % modulus = j % modulus := Nat.ModEq.add_left_cancel' start heq
  rwa [Nat.mod_eq_of_lt hi, Nat.mod_eq_of_lt hj] at hmod

/-- Pages that follow each other pair the bytes of one piece. -/
theorem scatter_contiguous (hunit : unit ∣ modulus) {page : ℕ}
    {run rest : List ℕ} (hrun : Contiguous modulus unit page run)
    (haligned : ∀ next ∈ run, next % unit = 0) :
    scatter modulus unit (page :: (run ++ rest)) right remaining =
      extent modulus page right
          (min remaining (capacity unit (page :: run))) ++
        scatter modulus unit rest
          (right + min remaining (capacity unit (page :: run)))
          (remaining - min remaining (capacity unit (page :: run))) := by
  induction run generalizing page right remaining with
  | nil =>
      rw [capacity_cons, capacity_nil, Nat.add_zero, List.nil_append]
      rfl
  | cons next run ih =>
      obtain ⟨hnext, hrun⟩ := hrun
      obtain ⟨hfirst, haligned⟩ := List.forall_mem_cons.mp haligned
      have hpage : page % unit = 0 := by
        have hsum : (page + unit) % unit = 0 := by
          rw [← Nat.mod_mod_of_dvd _ hunit, ← hnext]
          exact hfirst
        rwa [Nat.add_mod_right] at hsum
      rw [List.cons_append, scatter]
      rw [ih hrun haligned, capacity_cons page, hpage, Nat.sub_zero]
      rcases Nat.le_total remaining unit with hless | hmore
      · have hall : min remaining (unit + capacity unit (next :: run)) =
            remaining := by omega
        rw [hall, Nat.min_eq_left hless, Nat.sub_self, Nat.zero_min,
          extent_zero, scatter_zero, scatter_zero, List.append_nil]
      · have hsplit : min remaining (unit + capacity unit (next :: run)) =
            unit + min (remaining - unit) (capacity unit (next :: run)) := by
          omega
        have hleft : next % modulus = (page + unit) % modulus := by
          rw [hnext, Nat.mod_mod]
        rw [hsplit, Nat.min_eq_right hmore, extent_add, List.append_assoc,
          extent_congr _ hleft rfl, Nat.add_assoc, Nat.sub_sub]

end

end NvmeVirt.Scatter
