import NvmeVirt.Conv.Bookkeeping

/-!
# The freshly initialised translation layer

`conv_init_ftl` succeeds exactly on devices with one plane per die and at least
two lines, and puts the first two lines under the write pointers.
-/

namespace NvmeVirt.Startup

open NvmeVirt.Bookkeeping
open NvmeVirt.Kernel
open NvmeVirt.Layout
open NvmeVirt.Mapping
open NvmeVirt.Superblock
open NvmeVirt.Timing
open NvmeVirt.Transition
open NvmeVirt.VictimQueue

/-- A write pointer at the first page of `line`. -/
def wpAt (line : ℕ) : WritePointer :=
  { curline := some line, ch := 0, lun := 0, pg := 0, blk := line, pl := 0 }

section

variable (g : Geometry)

/-- The state `conv_init_ftl` leaves. -/
def freshFtl : Ftl where
  maptbl := fun _ => none
  rmap := fun _ => none
  pg := fun _ => .free
  blk := fun _ => { ipc := 0, vpc := 0, eraseCnt := 0 }
  wp := wpAt 0
  gcWp := wpAt 1
  lm :=
    { ttLines := g.blksPerPl
      ipc := fun _ => 0
      vpc := fun _ => 0
      freeLineList := List.range' 2 (g.blksPerPl - 2)
      victimLinePq := pqueueInit 0
      fullLineList := []
      freeLineCnt := g.blksPerPl - 2
      victimLineCnt := 0
      fullLineCnt := 0 }
  wfc := { writeCredits := g.pgsPerLine, creditsToRefill := g.pgsPerLine }

/-- One plane per die, and a line for either write pointer. -/
def Initialisable : Prop := g.plsPerLun = 1 ∧ 2 ≤ g.blksPerPl

variable {g}

theorem blksPerPl_eq_ttLines_iff :
    g.blksPerPl = g.ttLines ↔ g.plsPerLun = 1 := by
  rw [g.ttLines_eq]
  exact ⟨fun h => Nat.eq_of_mul_eq_mul_left g.blksPerPl_pos
    (h.symm.trans (Nat.mul_one _).symm), fun h => by rw [h, Nat.mul_one]⟩

theorem convInitFtl_eq (h : Initialisable g) :
    convInitFtl g = .ok (freshFtl g) := by
  obtain ⟨hpls, htwo⟩ := h
  obtain ⟨rest, hrest⟩ := Nat.exists_eq_add_of_le htwo
  have hlines : List.range g.blksPerPl =
      0 :: 1 :: List.range' 2 (g.blksPerPl - 2) := by
    rw [List.range_eq_range', hrest, Nat.add_comm, List.range'_succ,
      List.range'_succ, Nat.add_sub_cancel]
  rw [convInitFtl, initLines,
    nvmevAssert_of (blksPerPl_eq_ttLines_iff.mpr hpls), ok_bind]
  simp only [pure, Except.pure, ok_bind, prepareWritePointer,
    getNextFreeLine, hlines, setWp]
  rfl

/-- A start that does not fault left the fresh state. -/
theorem of_convInitFtl {s : Ftl} (h : convInitFtl g = .ok s) :
    Initialisable g ∧ s = freshFtl g := by
  have hinit : Initialisable g := by
    by_contra hnot
    rw [convInitFtl, initLines] at h
    by_cases hpls : g.plsPerLun = 1
    · have hone : g.blksPerPl = 1 := by
        have hpos := g.blksPerPl_pos
        by_contra hne
        exact hnot ⟨hpls, by omega⟩
      rw [nvmevAssert_of (blksPerPl_eq_ttLines_iff.mpr hpls)] at h
      simp [hone, prepareWritePointer, getNextFreeLine, setWp, pure,
        Except.pure] at h
    · rw [nvmevAssert_not (mt blksPerPl_eq_ttLines_iff.mp hpls)] at h
      cases h
  refine ⟨hinit, ?_⟩
  rw [convInitFtl_eq hinit] at h
  cases h
  rfl

/-! ## The book-keeping of the fresh state -/

theorem freshFtl_lineCounted (line : ℕ) :
    LineCounted g (freshFtl g) line :=
  ⟨(lineCount_of_free (fun _ _ => rfl) (by decide)).symm,
    (lineCount_of_free (fun _ _ => rfl) (by decide)).symm⟩

theorem freshFtl_blkCounted (b : BlkAddr) : BlkCounted g (freshFtl g) b :=
  ⟨(blkCount_of_free (fun _ _ => rfl) (by decide)).symm,
    (blkCount_of_free (fun _ _ => rfl) (by decide)).symm⟩

theorem wpAt_inRange (line : ℕ) : WpInRange g (wpAt line) :=
  ⟨g.nchs_pos, g.lunsPerCh_pos, pgsPerBlk_pos g, rfl⟩

theorem rank_wpAt (line : ℕ) : rank g (wpPage (wpAt line)) = 0 := by
  simp [rank, wpPage, wpAt]

theorem freshFtl_openLine (line : ℕ) :
    OpenLine g (freshFtl g).pg (wpAt line) where
  curline_eq := rfl
  inRange := wpAt_inRange line
  free_iff _ _ := by
    rw [rank_wpAt]
    exact iff_of_true rfl (Nat.zero_le _)

theorem freshFtl_partitioned (htwo : 2 ≤ g.blksPerPl) :
    Partitioned g (freshFtl g) [] where
  size_pos := le_rfl
  one_place line hline := by
    simp only [places, freshFtl, elems_pqueueInit, List.count_nil, wpAt,
      List.count_singleton]
    rcases line with _ | _ | line
    · rw [List.count_eq_zero_of_not_mem (by simp)]
      rfl
    · rw [List.count_eq_zero_of_not_mem (by simp)]
      rfl
    · rw [List.count_eq_one_of_mem List.nodup_range'
        (List.mem_range'_1.mpr (by omega))]
      simp
  no_place line hline := by
    simp only [places, freshFtl, elems_pqueueInit, List.count_nil, wpAt,
      List.count_singleton]
    rw [List.count_eq_zero_of_not_mem
      (by rw [List.mem_range'_1]; omega)]
    have hzero : (0 == line) = false := by simp; omega
    have hone : (1 == line) = false := by simp; omega
    simp [hzero, hone]

end

end NvmeVirt.Startup
