import NvmeVirt.Conv.Startup
import NvmeVirt.Hybrid.Mapping

/-!
# The freshly initialised hybrid layer

`conv_init_ftl` sets up the tables of all dies, but no write pointer of a die:
`prepare_write_pointer_DA` is never called.  The per-die write pointers keep
what `kmalloc` returned.
-/

namespace NvmeVirt.HybridStartup

open NvmeVirt.Bookkeeping
open NvmeVirt.GarbageCollection
open NvmeVirt.HybridConfig
open NvmeVirt.HybridMapping
open NvmeVirt.Kernel
open NvmeVirt.Layout
open NvmeVirt.Mapping (LineMgmt WritePointer Ftl initLines)
open NvmeVirt.Startup
open NvmeVirt.Timing
open NvmeVirt.Transition
open NvmeVirt.VictimQueue

/-- The table `init_lines` sets up: every line is free. -/
def freshLines (g : Geometry) : LineMgmt where
  ttLines := g.blksPerPl
  ipc := fun _ => 0
  vpc := fun _ => 0
  freeLineList := List.range g.blksPerPl
  victimLinePq := pqueueInit 0
  fullLineList := []
  freeLineCnt := g.blksPerPl
  victimLineCnt := 0
  fullLineCnt := 0

section

variable {h : HybridGeometry}

/-- The tables of the dies below `count` are set up. -/
def withFreshLines (s : HybridFtl h) (count : ℕ) : HybridFtl h :=
  { s with lunlm := fun lun =>
      if lun < count then freshLines h.toGeometry else s.lunlm lun }

/-- The state `conv_init_ftl` leaves. -/
def freshHybrid (h : HybridGeometry) (ssd : Ssd) (lunlm : ℕ → LineMgmt)
    (lunwp : ℕ → WritePointer) : HybridFtl h :=
  withFreshLines
    { ftl := freshFtl h.toGeometry
      ssd := ssd
      lunlm := lunlm
      lunwp := lunwp
      lunpointer := 0
      hotnessTable := emptyTable h.hotnessTableSize
      lastMigrationCheck := 0
      currentMigrations := 0
      usedSlcPages := 0
      usedQlcPages := 0 }
    (luncount h)

theorem initLines_eq {g : Geometry} (hpls : g.plsPerLun = 1) :
    initLines g = .ok (freshLines g) := by
  rw [initLines, nvmevAssert_of (blksPerPl_eq_ttLines_iff.mpr hpls)]
  rfl

theorem withFreshLines_succ (s : HybridFtl h) (count : ℕ) :
    { withFreshLines s count with
      lunlm := Function.update (withFreshLines s count).lunlm count
        (freshLines h.toGeometry) } = withFreshLines s (count + 1) := by
  have hlunlm : Function.update (withFreshLines s count).lunlm count
      (freshLines h.toGeometry) = (withFreshLines s (count + 1)).lunlm := by
    funext lun
    by_cases heq : lun = count
    · rw [heq, Function.update_self]
      exact (if_pos (Nat.lt_succ_self count)).symm
    · rw [Function.update_of_ne heq]
      by_cases hlt : lun < count
      · exact (if_pos hlt).trans (if_pos (by omega)).symm
      · exact (if_neg hlt).trans (if_neg (by omega)).symm
  rw [hlunlm]
  rfl

theorem initLinesDA_eq (hpls : h.plsPerLun = 1) (s : HybridFtl h) :
    initLinesDA s = .ok (withFreshLines s (luncount h)) := by
  obtain ⟨final, hrun, hfinal⟩ :=
    @foldlM_range _ _ (initDie (h := h)) (luncount h)
      (fun count state => state = withFreshLines s count)
      (fun k _ state hstate => by
        refine ⟨withFreshLines s (k + 1), ?_, rfl⟩
        rw [hstate, initDie, initLines_eq hpls, ok_bind,
          ← withFreshLines_succ]
        rfl) s rfl
  rw [initLinesDA, hrun, hfinal]

theorem convInitFtl_eq (hinit : Initialisable h.toGeometry) (ssd : Ssd)
    (lunlm : ℕ → LineMgmt) (lunwp : ℕ → WritePointer) :
    convInitFtl h ssd lunlm lunwp = .ok (freshHybrid h ssd lunlm lunwp) := by
  rw [convInitFtl, Startup.convInitFtl_eq hinit, ok_bind,
    initLinesDA_eq hinit.1]
  rfl

/-- A start that does not fault left the fresh state. -/
theorem of_convInitFtl {ssd : Ssd} {lunlm : ℕ → LineMgmt}
    {lunwp : ℕ → WritePointer} {s : HybridFtl h}
    (hrun : convInitFtl h ssd lunlm lunwp = .ok s) :
    Initialisable h.toGeometry ∧ s = freshHybrid h ssd lunlm lunwp := by
  obtain ⟨ftl, hftl, -⟩ := bind_eq_ok hrun
  have hinit := (Startup.of_convInitFtl hftl).1
  rw [convInitFtl_eq hinit] at hrun
  cases hrun
  exact ⟨hinit, rfl⟩

theorem freshHybrid_lunlm (ssd : Ssd) (lunlm : ℕ → LineMgmt)
    (lunwp : ℕ → WritePointer) {lun : ℕ} (hlun : lun < luncount h) :
    (freshHybrid h ssd lunlm lunwp).lunlm lun = freshLines h.toGeometry :=
  if_pos hlun

theorem freshHybrid_free (ssd : Ssd) (lunlm : ℕ → LineMgmt)
    (lunwp : ℕ → WritePointer) {lun : ℕ} (hlun : lun < luncount h) :
    ((freshHybrid h ssd lunlm lunwp).lunlm lun).freeLineList =
      List.range h.blksPerPl := by
  rw [freshHybrid_lunlm ssd lunlm lunwp hlun]
  rfl

/-! ## The write pointers of the dies -/

/-- The write pointer of the die is at a line that belongs to it and is on
none of its lists, and the die counts its free lines. -/
structure DieReady (s : HybridFtl h) (lun : ℕ) : Prop where
  curline_eq : (s.lunwp lun).curline = some (s.lunwp lun).blk
  line_lt : (s.lunwp lun).blk < (s.lunlm lun).ttLines
  not_free : (s.lunwp lun).blk ∉ (s.lunlm lun).freeLineList
  not_full : (s.lunwp lun).blk ∉ (s.lunlm lun).fullLineList
  not_victim : (s.lunwp lun).blk ∉ elems (s.lunlm lun).victimLinePq
  pl_eq : (s.lunwp lun).pl = 0
  pg_lt : (s.lunwp lun).pg < h.slcPgsPerBlk
  freeLineCnt_eq : (s.lunlm lun).freeLineCnt =
    (s.lunlm lun).freeLineList.length

/-- All lines of a fresh die are free. -/
theorem freshHybrid_not_dieReady (ssd : Ssd) (lunlm : ℕ → LineMgmt)
    (lunwp : ℕ → WritePointer) {lun : ℕ} (hlun : lun < luncount h) :
    ¬ DieReady (freshHybrid h ssd lunlm lunwp) lun := by
  intro hready
  have hfree := hready.not_free
  have hlt := hready.line_lt
  rw [freshHybrid_lunlm ssd lunlm lunwp hlun] at hfree hlt
  exact hfree (List.mem_range.mpr hlt)

/-- Whatever the memory of the write pointers held, `conv_init_ftl` leaves no
die ready. -/
theorem not_dieReady_of_convInitFtl {ssd : Ssd} {lunlm : ℕ → LineMgmt}
    {lunwp : ℕ → WritePointer} {s : HybridFtl h}
    (hrun : convInitFtl h ssd lunlm lunwp = .ok s) {lun : ℕ}
    (hlun : lun < luncount h) : ¬ DieReady s lun := by
  rw [(of_convInitFtl hrun).2]
  exact freshHybrid_not_dieReady ssd lunlm lunwp hlun

end

/-- A write pointer in memory that is all zeros. -/
def zeroWp : WritePointer where
  curline := none
  ch := 0
  lun := 0
  pg := 0
  blk := 0
  pl := 0

/-- The full device after `conv_init_ftl`, over memory that was all zeros. -/
def fullStart : HybridFtl fullDevice :=
  freshHybrid fullDevice (idleSsd ⟨8191, lastBlk_lt⟩ ⟨1023, lastPg_lt⟩)
    (fun _ => freshLines fullDevice.toGeometry) (fun _ => zeroWp)

theorem fullDevice_init :
    convInitFtl fullDevice (idleSsd ⟨8191, lastBlk_lt⟩ ⟨1023, lastPg_lt⟩)
        (fun _ => freshLines fullDevice.toGeometry) (fun _ => zeroWp) =
      .ok fullStart :=
  convInitFtl_eq ⟨rfl, Nat.le_add_left 2 8190⟩ _ _ _

theorem not_dieReady_fullDevice : ¬ DieReady fullStart 0 :=
  not_dieReady_of_convInitFtl fullDevice_init (by decide)

/-- The first die is left at the `NULL` line. -/
theorem firstDie_unprepared :
    convInitFtl fullDevice (idleSsd ⟨8191, lastBlk_lt⟩ ⟨1023, lastPg_lt⟩)
        (fun _ => freshLines fullDevice.toGeometry) (fun _ => zeroWp) =
      .ok fullStart ∧ (0 < luncount fullDevice) ∧ ¬ DieReady fullStart 0 :=
  ⟨fullDevice_init, by decide, fun hready => nomatch hready.curline_eq⟩

end NvmeVirt.HybridStartup
