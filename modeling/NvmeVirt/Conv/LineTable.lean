import NvmeVirt.Conv.Startup

/-!
# The superblock line table over whole runs

A run of the line table interleaves, in any order, programming a page under
either write pointer, invalidating a page, taking a victim and giving a taken
line back.  `TableInv` holds in every state of every run; it fixes the one
place of each line, the three counters, the key and the position of every heap
entry, and what makes a line full.
-/

namespace NvmeVirt.LineTable

open NvmeVirt.Bookkeeping
open NvmeVirt.Kernel
open NvmeVirt.Layout
open NvmeVirt.Mapping
open NvmeVirt.Startup
open NvmeVirt.Superblock
open NvmeVirt.Timing
open NvmeVirt.Transition
open NvmeVirt.VictimQueue

/-- A mapping state with the tables of the dies, and the lines garbage
collection has taken and not yet given back. -/
structure LineRun where
  ftl : Ftl
  lunlm : ℕ → Option LineMgmt
  hand : List ℕ

inductive LineAction
  | program (io : IoType)
  | invalidate (ppa : Ppa)
  | select (force : Bool)
  | release (line : ℕ)
  deriving DecidableEq, Repr

section

variable (g : Geometry)

/-- The first page of every block of a line, in the order of `do_gc`. -/
def lineBlks (line : ℕ) : List Ppa :=
  (List.range g.nchs).flatMap fun ch =>
    (List.range g.lunsPerCh).map fun lun =>
      { ch := ch, lun := lun, pl := 0, blk := line, pg := 0 }

/-- `mark_block_free` for every block of a line. -/
def eraseLine (s : Ftl) (line : ℕ) : Ftl :=
  (lineBlks g line).foldl (markBlockFree g) s

/-- One step of a run.  A taken line is given back the way `do_gc` does it:
its blocks are erased, then it is marked free. -/
def lineStep (s : LineRun) : LineAction → Except Fault LineRun
  | .program io => do
      let (ftl, lunlm) ←
        markPageValid g s.ftl s.lunlm (getNewPage s.ftl io)
      let ftl ← advanceWritePointer g ftl io
      return { s with ftl := ftl, lunlm := lunlm }
  | .invalidate ppa => do
      let (ftl, lunlm) ← markPageInvalid g s.ftl s.lunlm ppa
      return { s with ftl := ftl, lunlm := lunlm }
  | .select force =>
      match selectVictimLine g s.ftl.lm force with
      | (none, _) => .ok s
      | (some victimLine, lm) =>
          .ok
            { s with
              ftl := { s.ftl with lm := lm }
              hand := victimLine :: s.hand }
  | .release line =>
      let ftl := eraseLine g s.ftl line
      .ok
        { s with
          ftl := { ftl with lm := markLineFree ftl.lm line }
          hand := s.hand.erase line }

/-- A page is programmed while a free line is available, and only a valid page
is invalidated. -/
def lineEnabled (s : LineRun) : LineAction → Prop
  | .program _ => s.ftl.lm.freeLineList ≠ []
  | .invalidate ppa => ValidPpa g ppa ∧ s.ftl.pg ppa = .valid
  | .select _ => True
  | .release line => line ∈ s.hand

instance (s : LineRun) (action : LineAction) :
    Decidable (lineEnabled g s action) := by
  unfold lineEnabled
  split <;> infer_instance

/-- What `mark_page_valid` asserts of the counters of a line. -/
def Validatable (vpc _ipc : ℕ) : Prop := vpc < g.pgsPerLine

/-- What `mark_page_invalid` asserts of the counters of a line. -/
def Invalidatable (vpc ipc : ℕ) : Prop :=
  0 < vpc ∧ vpc ≤ g.pgsPerLine ∧ ipc < g.pgsPerLine ∧
    (vpc = g.pgsPerLine → ipc = 0)

/-- The table of the die of a page is set up, and the counters of its line
there meet `cond`. -/
def DieLine (lunlm : ℕ → Option LineMgmt) (ppa : Ppa) (cond : ℕ → ℕ → Prop) :
    Prop :=
  ∃ lm, lunlm (getGlun g ppa) = some lm ∧
    cond (lm.vpc ppa.blk) (lm.ipc ppa.blk)

/-- The table of the die is ready for the page that a step programs or
invalidates. -/
def DieReady (s : LineRun) : LineAction → Prop
  | .program io => DieLine g s.lunlm (getNewPage s.ftl io) (Validatable g)
  | .invalidate ppa => DieLine g s.lunlm ppa (Invalidatable g)
  | .select _ | .release _ => True

/-- The runs of the line table from `init_lines` and the two prepared write
pointers, with any tables of the dies. -/
def lineMachine : Machine LineRun LineAction Fault where
  init s := convInitFtl g = .ok s.ftl ∧ s.hand = []
  enabled := lineEnabled g
  step := lineStep g

/-- The line manager in itself: its counters count its collections, the full
list holds the lines without an invalid or a free page, and the victim queue is
a heap that knows its lines. -/
structure LmInv (lm : LineMgmt) : Prop where
  freeCnt : lm.freeLineCnt = lm.freeLineList.length
  fullCnt : lm.fullLineCnt = lm.fullLineList.length
  full_iff : ∀ line, line < g.blksPerPl →
    (line ∈ lm.fullLineList ↔ lm.vpc line = g.pgsPerLine)
  queue : Queue lm.vpc lm.victimLinePq lm.victimLineCnt

/-- The invariant of the line table. -/
structure TableInv (s : LineRun) : Prop where
  planes : g.plsPerLun = 1
  partitioned : Partitioned g s.ftl s.hand
  openLine : ∀ io, OpenLine g s.ftl.pg (getWp s.ftl io)
  lineCounted : ∀ line, line < g.blksPerPl → LineCounted g s.ftl line
  blkCounted : ∀ b, ValidBlk g b → BlkCounted g s.ftl b
  freeLines : ∀ line ∈ s.ftl.lm.freeLineList, ∀ p ∈ linePages g line,
    s.ftl.pg p = .free
  lm : LmInv g s.ftl.lm

variable {g}

theorem TableInv.init {s : LineRun} (h : (lineMachine g).init s) :
    TableInv g s := by
  obtain ⟨hinit, hhand⟩ := h
  obtain ⟨⟨hpls, htwo⟩, hfresh⟩ := of_convInitFtl hinit
  obtain ⟨ftl, lunlm, hand⟩ := s
  dsimp only at hhand hfresh
  subst hhand hfresh
  exact {
    planes := hpls
    partitioned := freshFtl_partitioned htwo
    openLine := fun io => by
      cases io
      · exact freshFtl_openLine 0
      · exact freshFtl_openLine 1
    lineCounted := fun line _ => freshFtl_lineCounted line
    blkCounted := fun b _ => freshFtl_blkCounted b
    freeLines := fun _ _ _ _ => rfl
    lm :=
      { freeCnt := List.length_range'.symm
        fullCnt := rfl
        full_iff := fun _ _ =>
          iff_of_false List.not_mem_nil (pgsPerLine_pos g).ne
        queue := ⟨valid_pqueueInit _ _, fun _ _ => rfl, rfl⟩ } }

/-! ## Steps of the line manager -/

/-- A line in neither collection gains a valid page, and is not full yet. -/
theorem LmInv.setVpc {lm : LineMgmt} (h : LmInv g lm) {line vpc : ℕ}
    (hfull : line ∉ lm.fullLineList)
    (hvictim : line ∉ elems lm.victimLinePq) (hvpc : vpc ≠ g.pgsPerLine) :
    LmInv g { lm with vpc := Function.update lm.vpc line vpc } where
  freeCnt := h.freeCnt
  fullCnt := h.fullCnt
  full_iff other hother := by
    by_cases heq : other = line
    · subst heq
      dsimp only
      rw [Function.update_self]
      exact iff_of_false hfull hvpc
    · dsimp only
      rw [Function.update_of_ne heq]
      exact h.full_iff other hother
  queue := h.queue.setPri hvictim vpc

/-- The open line has received its last page and is closed; the next free line
takes its place. -/
theorem LmInv.close {lm : LineMgmt} (h : LmInv g lm) {line vpc next : ℕ}
    {rest : List ℕ} (hfull : line ∉ lm.fullLineList)
    (hvictim : line ∉ elems lm.victimLinePq)
    (hfree : lm.freeLineList = next :: rest) :
    LmInv g
      { lineClosed g { lm with vpc := Function.update lm.vpc line vpc }
          line with
        freeLineList := rest
        freeLineCnt := lm.freeLineCnt - 1 } := by
  have hqueue := h.queue.setPri hvictim vpc
  have hcnt : lm.freeLineCnt - 1 = rest.length := by
    rw [h.freeCnt, hfree]
    rfl
  rw [lineClosed]
  split_ifs with hself
  all_goals
    have hvpc := hself
    dsimp only at hvpc
    rw [Function.update_self] at hvpc
  · refine ⟨hcnt, ?_, fun other hother => ?_, hqueue⟩
    · dsimp only
      rw [h.fullCnt, List.length_append]
      rfl
    · dsimp only
      rw [List.mem_append, List.mem_singleton]
      by_cases heq : other = line
      · subst heq
        rw [Function.update_self]
        exact iff_of_true (.inr rfl) hvpc
      · rw [Function.update_of_ne heq, or_iff_left heq]
        exact h.full_iff other hother
  · refine ⟨hcnt, h.fullCnt, fun other hother => ?_,
      hqueue.insert hvictim⟩
    by_cases heq : other = line
    · subst heq
      dsimp only
      rw [Function.update_self]
      exact iff_of_false hfull hvpc
    · dsimp only
      rw [Function.update_of_ne heq]
      exact h.full_iff other hother

/-- Taking a victim. -/
theorem LmInv.select {lm : LineMgmt} (h : LmInv g lm)
    (hsize : lm.victimLinePq.size ≠ 1) : LmInv g (lineSelected lm) :=
  ⟨h.freeCnt, h.fullCnt, h.full_iff, h.queue.pop hsize⟩

/-- Giving a taken line back. -/
theorem LmInv.release {lm : LineMgmt} (h : LmInv g lm) {line : ℕ}
    (hfull : line ∉ lm.fullLineList)
    (hvictim : line ∉ elems lm.victimLinePq) :
    LmInv g (markLineFree lm line) := by
  have hvpc := h.setVpc hfull hvictim (pgsPerLine_pos g).ne
  refine ⟨?_, hvpc.fullCnt, hvpc.full_iff, hvpc.queue⟩
  simp [markLineFree, h.freeCnt]

/-! ## Invalidating a page -/

theorem decrementVpc_cases (lm : LineMgmt) (line : ℕ) :
    (lm.victimLinePq.pos line = 0 ∧
      decrementVpc lm line =
        { lm with
          vpc := Function.update lm.vpc line (lm.vpc line - 1) }) ∨
    (lm.victimLinePq.pos line ≠ 0 ∧
      decrementVpc lm line =
        { lm with
          vpc := Function.update lm.vpc line (lm.vpc line - 1)
          victimLinePq := (pqueueChangePriority lm.vpc lm.victimLinePq
            (lm.vpc line - 1) line).2 }) := by
  rw [decrementVpc]
  by_cases hpos : lm.victimLinePq.pos line = 0
  · simp [hpos]
  · refine .inr ⟨hpos, ?_⟩
    rw [if_pos hpos]
    rw [pqueueChangePriority]
    dsimp only
    split_ifs <;> rfl

/-- Lowering a priority keeps the queue, and permutes it. -/
theorem decrementVpc_queue {lm : LineMgmt}
    (h : Queue lm.vpc lm.victimLinePq lm.victimLineCnt) {line : ℕ}
    (hpos : 0 < lm.vpc line) :
    Queue (Function.update lm.vpc line (lm.vpc line - 1))
        (decrementVpc lm line).victimLinePq lm.victimLineCnt ∧
      (elems (decrementVpc lm line).victimLinePq).Perm
        (elems lm.victimLinePq) := by
  rcases decrementVpc_cases lm line with ⟨hzero, hrun⟩ | ⟨hnonzero, hrun⟩
  · rw [hrun]
    exact ⟨h.setPri (fun hmem => (h.pos_ne_zero_iff line).mpr hmem hzero) _,
      List.Perm.refl _⟩
  · rw [hrun]
    have hmem := (h.pos_ne_zero_iff line).mp hnonzero
    have hlower : lm.vpc line - 1 < lm.vpc line := Nat.sub_lt hpos one_pos
    exact ⟨h.lower hmem hlower,
      (pqueueChangePriority_valid h.valid hmem hlower).2.1⟩

/-- A page less in the counters of the line, before the line is moved. -/
def lineDecremented (lm : LineMgmt) (line : ℕ) : LineMgmt :=
  decrementVpc
    { lm with ipc := Function.update lm.ipc line (lm.ipc line + 1) } line

/-- The line table after a line went from the full list to the victim queue. -/
def lineReopened (lm : LineMgmt) (line : ℕ) : LineMgmt :=
  { listDelInit (lineDecremented lm line) line with
    fullLineCnt := sub32 (lineDecremented lm line).fullLineCnt 1
    victimLinePq := pqueueInsert (lineDecremented lm line).vpc
      (lineDecremented lm line).victimLinePq line
    victimLineCnt := (lineDecremented lm line).victimLineCnt + 1 }

/-- The line table `mark_page_invalid` leaves. -/
def lineInvalidated (g : Geometry) (lm : LineMgmt) (line : ℕ) : LineMgmt :=
  if lm.vpc line = g.pgsPerLine then lineReopened lm line
  else lineDecremented lm line

/-- The line half of `mark_page_invalid` ends exactly when its assertions
hold. -/
theorem lineInvalidate_meets (lm : LineMgmt) (line : ℕ) :
    Meets (Invalidatable g (lm.vpc line) (lm.ipc line))
      (fun lm' => lm' = lineInvalidated g lm line ∧
        Invalidatable g (lm.vpc line) (lm.ipc line))
      (lineInvalidate g lm line) := by
  rw [lineInvalidate]
  by_cases hipc : lm.ipc line < g.pgsPerLine
  swap
  · rw [nvmevAssert_not hipc]
    exact fun h => hipc h.2.2.1
  by_cases hfull : lm.vpc line = g.pgsPerLine → lm.ipc line = 0
  swap
  · rw [nvmevAssert_of hipc, ok_bind, nvmevAssert_not hfull]
    exact fun h => hfull h.2.2.2
  rw [nvmevAssert_of hipc, ok_bind, nvmevAssert_of hfull, ok_bind]
  dsimp only
  by_cases hrange : 0 < lm.vpc line ∧ lm.vpc line ≤ g.pgsPerLine
  swap
  · rw [nvmevAssert_not hrange]
    exact fun h => hrange ⟨h.1, h.2.1⟩
  have hready : Invalidatable g (lm.vpc line) (lm.ipc line) :=
    ⟨hrange.1, hrange.2, hipc, hfull⟩
  rw [nvmevAssert_of hrange, ok_bind, lineInvalidated]
  simp only [decide_eq_true_eq]
  split_ifs
  · exact ⟨rfl, hready⟩
  · exact ⟨rfl, hready⟩

theorem lineInvalidate_of {lm : LineMgmt} {line : ℕ}
    (h : Invalidatable g (lm.vpc line) (lm.ipc line)) :
    lineInvalidate g lm line = .ok (lineInvalidated g lm line) := by
  obtain ⟨lm', hrun, rfl, -⟩ :=
    ((lineInvalidate_meets lm line).exists_iff fun _ hpost => hpost.2).mpr h
  exact hrun

theorem lineInvalidate_eq_ok {lm lm' : LineMgmt} {line : ℕ}
    (hrun : lineInvalidate g lm line = .ok lm') :
    Invalidatable g (lm.vpc line) (lm.ipc line) ∧
      lm' = lineInvalidated g lm line := by
  have hmeets := lineInvalidate_meets (g := g) lm line
  rw [hrun] at hmeets
  exact ⟨hmeets.2, hmeets.1⟩

/-- A line with a valid page and exact counters meets the line assertions. -/
theorem invalidatable_of_valid (hpls : g.plsPerLun = 1) {s : Ftl} {p : Ppa}
    (hp : p ∈ linePages g p.blk) (hvalid : s.pg p = .valid)
    (h : LineCounted g s p.blk) :
    Invalidatable g (s.lm.vpc p.blk) (s.lm.ipc p.blk) := by
  have hpos := @lineCount_pos g s.pg p.blk p hp
  have hsum := lineCount_add_le hpls s.pg p.blk
  rw [hvalid, ← h.vpc_eq] at hpos
  rw [← h.vpc_eq, ← h.ipc_eq] at hsum
  exact ⟨hpos, by omega, by omega, by omega⟩

theorem lineDecremented_columns (lm : LineMgmt) (line : ℕ) :
    (lineDecremented lm line).vpc =
        Function.update lm.vpc line (lm.vpc line - 1) ∧
      (lineDecremented lm line).ipc =
        Function.update lm.ipc line (lm.ipc line + 1) ∧
      (lineDecremented lm line).freeLineList = lm.freeLineList ∧
      (lineDecremented lm line).freeLineCnt = lm.freeLineCnt ∧
      (lineDecremented lm line).fullLineList = lm.fullLineList ∧
      (lineDecremented lm line).fullLineCnt = lm.fullLineCnt ∧
      (lineDecremented lm line).victimLineCnt = lm.victimLineCnt := by
  rw [lineDecremented]
  rcases decrementVpc_cases
      { lm with ipc := Function.update lm.ipc line (lm.ipc line + 1) }
      line with ⟨-, hrun⟩ | ⟨-, hrun⟩ <;>
    rw [hrun] <;> exact ⟨rfl, rfl, rfl, rfl, rfl, rfl, rfl⟩

theorem lineDecremented_queue {lm : LineMgmt}
    (h : Queue lm.vpc lm.victimLinePq lm.victimLineCnt) {line : ℕ}
    (hpos : 0 < lm.vpc line) :
    Queue (lineDecremented lm line).vpc
        (lineDecremented lm line).victimLinePq
        (lineDecremented lm line).victimLineCnt ∧
      (elems (lineDecremented lm line).victimLinePq).Perm
        (elems lm.victimLinePq) := by
  obtain ⟨hvpc, -, -, -, -, -, hcnt⟩ := lineDecremented_columns lm line
  rw [hvpc, hcnt]
  let counted : LineMgmt :=
    { lm with ipc := Function.update lm.ipc line (lm.ipc line + 1) }
  have hcounted : Queue counted.vpc counted.victimLinePq
      counted.victimLineCnt := h
  exact decrementVpc_queue hcounted hpos

/-- The line manager after an invalidation: a full line moves to the victim
queue, a victim is sifted, any other line only changes its counters. -/
theorem LmInv.invalidate {lm : LineMgmt} (h : LmInv g lm) {line : ℕ}
    (hlt : line < g.blksPerPl) (hpos : 0 < lm.vpc line)
    (hle : lm.vpc line ≤ g.pgsPerLine)
    (hplace : line ∈ lm.fullLineList →
      line ∉ lm.freeLineList ∧ line ∉ elems lm.victimLinePq)
    (hnodup : lm.fullLineList.Nodup)
    (hlength : lm.fullLineList.length < 2 ^ 32) :
    LmInv g (lineInvalidated g lm line) := by
  obtain ⟨hvpc, -, hfree, hfreeCnt, hfull, hfullCnt, -⟩ :=
    lineDecremented_columns lm line
  obtain ⟨hqueue, hperm⟩ := lineDecremented_queue h.queue hpos
  have hself : Function.update lm.vpc line (lm.vpc line - 1) line ≠
      g.pgsPerLine := by
    rw [Function.update_self]
    omega
  have hother : ∀ other, other ≠ line → other < g.blksPerPl →
      (other ∈ lm.fullLineList ↔
        Function.update lm.vpc line (lm.vpc line - 1) other =
          g.pgsPerLine) := by
    intro other hne hlt'
    rw [Function.update_of_ne hne]
    exact h.full_iff other hlt'
  rw [lineInvalidated]
  split_ifs with hwasFull
  · have hmem : line ∈ lm.fullLineList := (h.full_iff line hlt).mpr hwasFull
    have hvictim : line ∉ elems (lineDecremented lm line).victimLinePq := by
      rw [hperm.mem_iff]
      exact (hplace hmem).2
    refine ⟨?_, ?_, fun other hlt' => ?_, hqueue.insert hvictim⟩ <;>
      simp only [lineReopened, listDelInit, hvpc, hfree, hfreeCnt, hfull,
        hfullCnt]
    · rw [List.erase_of_not_mem (hplace hmem).1, h.freeCnt]
    · rw [h.fullCnt, List.length_erase_of_mem hmem]
      exact sub32_of_le (List.length_pos_of_mem hmem) hlength
    · by_cases heq : other = line
      · subst heq
        exact iff_of_false (fun hin => (hnodup.mem_erase_iff.mp hin).1 rfl)
          hself
      · rw [List.mem_erase_of_ne heq]
        exact hother other heq hlt'
  · refine ⟨by rw [hfreeCnt, hfree, h.freeCnt],
      by rw [hfullCnt, hfull, h.fullCnt], fun other hlt' => ?_, hqueue⟩
    rw [hfull, hvpc]
    by_cases heq : other = line
    · subst heq
      exact iff_of_false (mt (h.full_iff other hlt).mp hwasFull) hself
    · exact hother other heq hlt'

theorem lineInvalidated_columns (lm : LineMgmt) (line : ℕ) :
    (lineInvalidated g lm line).vpc =
        Function.update lm.vpc line (lm.vpc line - 1) ∧
      (lineInvalidated g lm line).ipc =
        Function.update lm.ipc line (lm.ipc line + 1) := by
  obtain ⟨hvpc, hipc, -⟩ := lineDecremented_columns lm line
  rw [lineInvalidated]
  split_ifs <;> exact ⟨hvpc, hipc⟩

/-- A line that is not on the free list is not taken off it. -/
theorem lineInvalidated_freeLineList {lm : LineMgmt} {line : ℕ}
    (hfull : lm.vpc line = g.pgsPerLine → line ∉ lm.freeLineList) :
    (lineInvalidated g lm line).freeLineList = lm.freeLineList := by
  obtain ⟨-, -, hfree, -⟩ := lineDecremented_columns lm line
  rw [lineInvalidated]
  split_ifs with hwasFull
  · dsimp only [lineReopened, listDelInit]
    rw [hfree, List.erase_of_not_mem (hfull hwasFull)]
  · exact hfree

/-- An invalidation moves a line from the full list to the victim queue or
nowhere. -/
theorem LmInv.count_invalidated {lm : LineMgmt} (h : LmInv g lm) {line : ℕ}
    (hlt : line < g.blksPerPl) (hpos : 0 < lm.vpc line) (other : ℕ) :
    (lineInvalidated g lm line).fullLineList.count other +
        (elems (lineInvalidated g lm line).victimLinePq).count other =
      lm.fullLineList.count other +
        (elems lm.victimLinePq).count other := by
  obtain ⟨-, -, -, -, hfull, -⟩ := lineDecremented_columns lm line
  obtain ⟨hqueue, hperm⟩ := lineDecremented_queue h.queue hpos
  rw [lineInvalidated]
  split_ifs with hwasFull
  · have hcount : 0 < lm.fullLineList.count line :=
      List.count_pos_iff.mpr ((h.full_iff line hlt).mpr hwasFull)
    dsimp only [lineReopened, listDelInit]
    rw [(elems_pqueueInsert _ _ line hqueue.valid.size_pos).count_eq,
      List.count_append, hperm.count_eq, hfull, List.count_erase,
      List.count_singleton]
    by_cases heq : line = other
    · subst heq
      simp only [beq_self_eq_true, if_true]
      omega
    · have hbeq : (line == other) = false := by simpa using heq
      simp [hbeq]
  · rw [hperm.count_eq, hfull]

/-- The state `mark_page_invalid` leaves, without the tables of the dies. -/
def pageInvalidated (g : Geometry) (s : Ftl) (p : Ppa) : Ftl :=
  { s with
    pg := Function.update s.pg p .invalid
    blk := Function.update s.blk p.toBlkAddr
      { s.blk p.toBlkAddr with
        ipc := (s.blk p.toBlkAddr).ipc + 1
        vpc := (s.blk p.toBlkAddr).vpc - 1 }
    lm := lineInvalidated g s.lm p.blk }

/-- A valid page with exact counters meets every assertion. -/
theorem superblockInvalid_of (hpls : g.plsPerLun = 1) {s : Ftl} {p : Ppa}
    (hp : ValidPpa g p) (hvalid : s.pg p = .valid)
    (hline : LineCounted g s p.blk) (hblk : BlkCounted g s p.toBlkAddr) :
    superblockInvalid g s p = .ok (pageInvalidated g s p) := by
  have hmem : p ∈ blkPages g p.toBlkAddr :=
    mem_blkPages.mpr ⟨rfl, hp.2.2.2.2⟩
  have hipc : (s.blk p.toBlkAddr).ipc < g.pgsPerBlk := by
    rw [hblk.ipc_eq]
    exact blkCount_lt hp (by simp [hvalid])
  have hpos : 0 < (s.blk p.toBlkAddr).vpc := by
    rw [hblk.vpc_eq]
    exact Counting.countOn_pos hmem hvalid
  have hle : (s.blk p.toBlkAddr).vpc ≤ g.pgsPerBlk := by
    rw [hblk.vpc_eq, ← card_blkPages p.toBlkAddr]
    exact Counting.countOn_le_card _ _ _
  rw [superblockInvalid, nvmevAssert_of hvalid, ok_bind]
  dsimp only
  rw [nvmevAssert_of hipc, ok_bind, nvmevAssert_of ⟨hpos, hle⟩, ok_bind,
    lineInvalidate_of
      (invalidatable_of_valid hpls (mem_linePages_of_valid hp) hvalid hline)]
  rfl

theorem LineCounted.pageInvalidated {s : Ftl} {p : Ppa} (hp : ValidPpa g p)
    (hvalid : s.pg p = .valid) {line : ℕ} (h : LineCounted g s line) :
    LineCounted g (pageInvalidated g s p) line := by
  obtain ⟨hvpc, hipc⟩ := lineInvalidated_columns (g := g) s.lm p.blk
  by_cases hline : p.blk = line
  · subst hline
    have hless := @lineCount_update g s.pg p hp .invalid .valid
    have hmore := @lineCount_update g s.pg p hp .invalid .invalid
    simp only [hvalid, reduceCtorEq, if_false, if_true, Nat.add_zero]
      at hless hmore
    constructor
    · simp only [LineTable.pageInvalidated, hvpc, Function.update_self]
      rw [h.vpc_eq, ← hless, Nat.add_sub_cancel]
    · simp only [LineTable.pageInvalidated, hipc, Function.update_self]
      rw [h.ipc_eq, hmore]
  · constructor
    · simp only [LineTable.pageInvalidated, hvpc]
      rw [lineCount_update_of_ne hline,
        Function.update_of_ne (Ne.symm hline), h.vpc_eq]
    · simp only [LineTable.pageInvalidated, hipc]
      rw [lineCount_update_of_ne hline,
        Function.update_of_ne (Ne.symm hline), h.ipc_eq]

theorem BlkCounted.pageInvalidated {s : Ftl} {p : Ppa} (hp : ValidPpa g p)
    (hvalid : s.pg p = .valid) {b : BlkAddr} (h : BlkCounted g s b) :
    BlkCounted g (pageInvalidated g s p) b := by
  by_cases hb : p.toBlkAddr = b
  · subst hb
    have hless := @blkCount_update g s.pg p hp .invalid .valid
    have hmore := @blkCount_update g s.pg p hp .invalid .invalid
    simp only [hvalid, reduceCtorEq, if_false, if_true, Nat.add_zero]
      at hless hmore
    constructor
    · simp only [LineTable.pageInvalidated, Function.update_self]
      rw [h.vpc_eq, ← hless, Nat.add_sub_cancel]
    · simp only [LineTable.pageInvalidated, Function.update_self]
      rw [h.ipc_eq, hmore]
  · constructor
    · simp only [LineTable.pageInvalidated]
      rw [blkCount_update_of_ne hb, Function.update_of_ne (Ne.symm hb),
        h.vpc_eq]
    · simp only [LineTable.pageInvalidated]
      rw [blkCount_update_of_ne hb, Function.update_of_ne (Ne.symm hb),
        h.ipc_eq]

/-! ## The table of a die -/

/-- The table of the die changes when it is set up and the change ends. -/
theorem changeLineDA_meets {lunlm : ℕ → Option LineMgmt} {ppa : Ppa}
    {change : LineMgmt → ℕ → Except Fault LineMgmt} {cond : ℕ → ℕ → Prop}
    (hchange : ∀ lm, Meets (cond (lm.vpc ppa.blk) (lm.ipc ppa.blk))
      (fun _ => cond (lm.vpc ppa.blk) (lm.ipc ppa.blk))
      (change lm ppa.blk)) :
    Meets (DieLine g lunlm ppa cond) (fun _ => DieLine g lunlm ppa cond)
      (changeLineDA g lunlm ppa change) := by
  rw [changeLineDA]
  cases hlm : lunlm (getGlun g ppa) with
  | none =>
      rintro ⟨lm, hset, -⟩
      cases hlm.symm.trans hset
  | some lm =>
      refine ((hchange lm).of_imp ?_).bind fun _ hcond => ⟨lm, hlm, hcond⟩
      rintro ⟨other, hset, hcond⟩
      cases hlm.symm.trans hset
      exact hcond

theorem lineMarkValid_meets (lm : LineMgmt) (line : ℕ) :
    Meets (Validatable g (lm.vpc line) (lm.ipc line))
      (fun _ => Validatable g (lm.vpc line) (lm.ipc line))
      (lineMarkValid g lm line) := by
  rw [lineMarkValid]
  by_cases hlt : lm.vpc line < g.pgsPerLine
  · rw [nvmevAssert_of hlt]
    exact hlt
  · rw [nvmevAssert_not hlt]
    exact hlt

/-! ## Every step keeps the invariant -/

theorem TableInv.notMem_of_places {s : LineRun} (h : TableInv g s) {line : ℕ}
    (hplace : 0 < s.ftl.lm.freeLineList.count line +
      [s.ftl.wp.blk].count line + [s.ftl.gcWp.blk].count line +
      s.hand.count line) :
    line ∉ s.ftl.lm.fullLineList ∧
      line ∉ elems s.ftl.lm.victimLinePq := by
  have hle := h.partitioned.places_le line
  rw [places] at hle
  constructor <;> intro hmem
  · have hcount := List.count_pos_iff.mpr hmem
    omega
  · have hcount := List.count_pos_iff.mpr hmem
    omega

/-- A full line is on no other list. -/
theorem TableInv.full_notMem {s : LineRun} (h : TableInv g s) {line : ℕ}
    (hfull : line ∈ s.ftl.lm.fullLineList) :
    line ∉ s.ftl.lm.freeLineList ∧ line ∉ elems s.ftl.lm.victimLinePq := by
  have hone := List.count_pos_iff.mpr hfull
  have hle := h.partitioned.places_le line
  rw [places] at hle
  constructor <;> intro hmem
  · have hcount := List.count_pos_iff.mpr hmem
    omega
  · have hcount := List.count_pos_iff.mpr hmem
    omega

/-- Lines of the device, each once, are fewer than a counter can hold. -/
theorem length_lt_of_nodup {lines : List ℕ} (hnodup : lines.Nodup)
    (hlt : ∀ line ∈ lines, line < g.blksPerPl) : lines.length < 2 ^ 32 := by
  have hsub : lines ⊆ List.range g.blksPerPl := fun line hline =>
    List.mem_range.mpr (hlt line hline)
  have hlength := (hnodup.subperm hsub).length_le
  rw [List.length_range] at hlength
  calc lines.length ≤ 2 ^ blkBits := hlength.trans g.blksPerPl_le
    _ < 2 ^ 32 := by decide

theorem TableInv.fullLineList_short {s : LineRun} (h : TableInv g s) :
    s.ftl.lm.fullLineList.Nodup ∧ s.ftl.lm.fullLineList.length < 2 ^ 32 := by
  have hnodup : s.ftl.lm.fullLineList.Nodup := by
    refine List.nodup_iff_count_le_one.mpr fun line => ?_
    have hle := h.partitioned.places_le line
    rw [places] at hle
    omega
  refine ⟨hnodup, @length_lt_of_nodup g _ hnodup fun line hline => ?_⟩
  have hcount := List.count_pos_iff.mpr hline
  apply h.partitioned.lt
  rw [places]
  omega

/-- The line under a pointer is in neither collection. -/
theorem TableInv.wp_notMem {s : LineRun} (h : TableInv g s) (io : IoType) :
    (getWp s.ftl io).blk ∉ s.ftl.lm.fullLineList ∧
      (getWp s.ftl io).blk ∉ elems s.ftl.lm.victimLinePq := by
  apply h.notMem_of_places
  have hcount : [(getWp s.ftl io).blk].count (getWp s.ftl io).blk = 1 := by
    simp
  cases io <;> simp only [getWp] at hcount ⊢ <;> omega

theorem TableInv.writable {s : LineRun} (h : TableInv g s) (io : IoType) :
    Writable g s.ftl s.hand io where
  partitioned := h.partitioned
  openLine := h.openLine io
  lineCounted := h.lineCounted _ (h.partitioned.wp_lt io)
  blkCounted := by
    obtain ⟨hch, hlun, hpl, hblk, -⟩ :=
      (h.openLine io).inRange.validPpa (h.partitioned.wp_lt io)
    exact h.blkCounted _ ⟨hch, hlun, hpl, hblk⟩
  freeLines := h.freeLines

/-- A page that stays free keeps its line from being full. -/
theorem vpc_ne_of_free (hpls : g.plsPerLun = 1) {s : Ftl} {line : ℕ}
    (h : LineCounted g s line) {p : Ppa} (hp : p ∈ linePages g line)
    (hfree : s.pg p = .free) : s.lm.vpc line ≠ g.pgsPerLine := by
  rw [h.vpc_eq]
  exact (lineCount_lt hpls hp (by simp [hfree])).ne

/-- What a step leaves: the invariant, and the condition that let it end. -/
def StepDone (g : Geometry) (s : LineRun) (action : LineAction)
    (s' : LineRun) : Prop :=
  TableInv g s' ∧ DieReady g s action

theorem TableInv.program {s : LineRun} (h : TableInv g s) {io : IoType}
    (hspare : s.ftl.lm.freeLineList ≠ []) :
    Meets (DieReady g s (.program io)) (StepDone g s (.program io))
      (lineStep g s (.program io)) := by
  have hwritable := h.writable io
  obtain ⟨hmark, ftl, hrun, hadvanced⟩ :=
    hwritable.program h.planes fun _ => hspare
  have hfree := (h.openLine io).page_free
  have hlineCounted : ∀ line, line < g.blksPerPl → LineCounted g ftl line :=
    fun line hline => ((h.lineCounted line hline).pageValidated
      hwritable.validPpa hfree).advanced hadvanced
  have hopen := hwritable.openLine_self h.planes hadvanced
  rw [lineStep, markPageValid, hmark, ok_bind, bind_assoc]
  refine (changeLineDA_meets fun lm => lineMarkValid_meets lm _).bind
    fun lunlm hready => ?_
  change Meets _ _ (advanceWritePointer g _ io >>= _)
  rw [hrun]
  refine ⟨{
    planes := h.planes
    partitioned := (h.partitioned.pageValidated _).advanced hadvanced
    openLine := fun other => ?_
    lineCounted := hlineCounted
    blkCounted := fun b hb => ((h.blkCounted b hb).pageValidated
      hwritable.validPpa hfree).advanced hadvanced
    freeLines := hwritable.freeLines_after hadvanced
    lm := ?_ }, hready⟩
  · by_cases hother : other = io
    · rw [hother]
      exact hopen
    · exact hwritable.openLine_other hother (h.openLine other) hadvanced
  · obtain ⟨hfull, hvictim⟩ := h.wp_notMem io
    cases hadvanced with
    | within wpp hwpp hcurline hblk hrank =>
        rw [getWp_pageValidated] at hblk
        -- the page under the moved pointer is still free
        rw [getWp_setWp] at hopen
        have hlt : wpp.blk < g.blksPerPl := hblk ▸ h.partitioned.wp_lt io
        have hne := vpc_ne_of_free h.planes (hlineCounted _ hlt)
          hopen.inRange.mem_linePages hopen.page_free
        rw [hblk] at hne
        have hlm : (setWp (pageValidated s.ftl (wpPage (getWp s.ftl io))) wpp
            io).lm = { s.ftl.lm with
              vpc := Function.update s.ftl.lm.vpc (getWp s.ftl io).blk
                (s.ftl.lm.vpc (getWp s.ftl io).blk + 1) } := setWp_lm _ _ _
        dsimp only
        rw [hlm] at hne ⊢
        dsimp only at hne
        rw [Function.update_self] at hne
        exact h.lm.setVpc hfull hvictim hne
    | closed next rest hnext hlast =>
        rw [getWp_pageValidated]
        cases io <;> exact h.lm.close hfull hvictim hnext

theorem TableInv.invalidate {s : LineRun} (h : TableInv g s) {p : Ppa}
    (hp : ValidPpa g p) (hvalid : s.ftl.pg p = .valid) :
    Meets (DieReady g s (.invalidate p)) (StepDone g s (.invalidate p))
      (lineStep g s (.invalidate p)) := by
  have hline := h.lineCounted p.blk hp.2.2.2.1
  have hblk := h.blkCounted p.toBlkAddr
    ⟨hp.1, hp.2.1, hp.2.2.1, hp.2.2.2.1⟩
  have hmem := mem_linePages_of_valid hp
  have hpos : 0 < s.ftl.lm.vpc p.blk := by
    rw [hline.vpc_eq, ← hvalid]
    exact lineCount_pos hmem
  have hle : s.ftl.lm.vpc p.blk ≤ g.pgsPerLine := by
    rw [hline.vpc_eq]
    exact lineCount_le h.planes _ _ _
  have hfree : ∀ q, Function.update s.ftl.pg p .invalid q = .free ↔
      s.ftl.pg q = .free := by
    intro q
    by_cases hq : q = p
    · rw [hq, Function.update_self, hvalid]
      simp
    · rw [Function.update_of_ne hq]
  have hplaces := h.partitioned.places_le
  have hlm : LmInv g (lineInvalidated g s.ftl.lm p.blk) := by
    obtain ⟨hnodup, hlength⟩ := h.fullLineList_short
    exact h.lm.invalidate hp.2.2.2.1 hpos hle h.full_notMem hnodup hlength
  have hfreeList : (lineInvalidated g s.ftl.lm p.blk).freeLineList =
      s.ftl.lm.freeLineList :=
    lineInvalidated_freeLineList fun hwas =>
      (h.full_notMem ((h.lm.full_iff _ hp.2.2.2.1).mpr hwas)).1
  rw [lineStep, markPageInvalid,
    superblockInvalid_of h.planes hp hvalid hline hblk, ok_bind, bind_assoc]
  refine (changeLineDA_meets fun lm => (lineInvalidate_meets lm _).mono
    fun _ hpost => hpost.2).bind fun lunlm hready => ?_
  refine ⟨{
    planes := h.planes
    partitioned := ?_
    openLine := fun io => ?_
    lineCounted := fun line hlt =>
      LineCounted.pageInvalidated hp hvalid (h.lineCounted line hlt)
    blkCounted := fun b hb =>
      BlkCounted.pageInvalidated hp hvalid (h.blkCounted b hb)
    freeLines := fun line hmem q hq => ?_
    lm := hlm }, hready⟩
  · refine h.partitioned.of_places hlm.queue.valid.size_pos fun line => ?_
    have hcount := h.lm.count_invalidated hp.2.2.2.1 hpos line
    simp only [places, pageInvalidated, hfreeList]
    omega
  · have hopen := h.openLine io
    have hwp : getWp (pageInvalidated g s.ftl p) io = getWp s.ftl io := by
      cases io <;> rfl
    rw [hwp]
    exact ⟨hopen.curline_eq, hopen.inRange, fun q hq =>
      (hfree q).trans (hopen.free_iff q hq)⟩
  · change line ∈ (lineInvalidated g s.ftl.lm p.blk).freeLineList at hmem
    rw [hfreeList] at hmem
    exact (hfree q).mpr (h.freeLines line hmem q hq)

theorem TableInv.select {s : LineRun} (h : TableInv g s) (force : Bool) :
    Meets (DieReady g s (.select force)) (StepDone g s (.select force))
      (lineStep g s (.select force)) := by
  rw [lineStep]
  rcases selectVictimLine_cases (g := g) s.ftl.lm force with
    hnone | ⟨hsize, hsome⟩
  · rw [hnone]
    exact ⟨h, trivial⟩
  · rw [hsome]
    exact ⟨{
        planes := h.planes
        partitioned := h.partitioned.select hsize s.ftl.wfc
        openLine := fun io => by
          have hopen := h.openLine io
          cases io <;> exact hopen
        lineCounted := fun line hlt =>
          (h.lineCounted line hlt).congr rfl rfl fun _ _ => rfl
        blkCounted := fun b hb =>
          (h.blkCounted b hb).congr rfl fun _ _ => rfl
        freeLines := h.freeLines
        lm := h.lm.select hsize }, trivial⟩

/-- Erasing blocks touches pages and block counters only. -/
theorem foldl_markBlockFree_frame (blks : List Ppa) (s : Ftl) :
    (blks.foldl (markBlockFree g) s).wp = s.wp ∧
      (blks.foldl (markBlockFree g) s).gcWp = s.gcWp ∧
      (blks.foldl (markBlockFree g) s).lm = s.lm := by
  induction blks generalizing s with
  | nil => exact ⟨rfl, rfl, rfl⟩
  | cons blk blks ih => exact ih (markBlockFree g s blk)

theorem foldl_markBlockFree_pg {blks : List Ppa} {p : Ppa}
    (hpg : p.pg < g.pgsPerBlk) (s : Ftl) :
    (blks.foldl (markBlockFree g) s).pg p =
      if ∃ blk ∈ blks, blk.toBlkAddr = p.toBlkAddr then .free
      else s.pg p := by
  induction blks generalizing s with
  | nil => simp
  | cons blk blks ih =>
      rw [List.foldl_cons, ih]
      simp only [List.mem_cons, exists_eq_or_imp]
      by_cases hrest : ∃ other ∈ blks, other.toBlkAddr = p.toBlkAddr
      · rw [if_pos hrest, if_pos (.inr hrest)]
      · rw [if_neg hrest]
        by_cases hblk : blk.toBlkAddr = p.toBlkAddr
        · rw [if_pos (.inl hblk)]
          exact markBlockFree_pg_of_mem (mem_blkPages.mpr ⟨hblk.symm, hpg⟩)
        · rw [if_neg (not_or.mpr ⟨hblk, hrest⟩)]
          exact markBlockFree_pg_of_ne fun heq => hblk heq.symm

theorem foldl_markBlockFree_blkCounted (blks : List Ppa) {s : Ftl}
    {b : BlkAddr} (h : BlkCounted g s b) :
    BlkCounted g (blks.foldl (markBlockFree g) s) b := by
  induction blks generalizing s with
  | nil => exact h
  | cons blk blks ih => exact ih (h.markBlockFree blk)

/-- After `eraseLine` the pages of the line are free, all others are as they
were. -/
theorem eraseLine_pg (hpls : g.plsPerLun = 1) (s : Ftl) (line : ℕ) {p : Ppa}
    (hp : ValidPpa g p) :
    (eraseLine g s line).pg p = if p.blk = line then .free else s.pg p := by
  obtain ⟨hch, hlun, hpl, -, hpg⟩ := hp
  rw [eraseLine, foldl_markBlockFree_pg hpg]
  refine if_congr ⟨?_, fun hblk => ?_⟩ rfl rfl
  · rintro ⟨blk, hmem, heq⟩
    simp only [lineBlks, List.mem_flatMap, List.mem_map] at hmem
    obtain ⟨ch, -, lun, -, rfl⟩ := hmem
    rw [← heq]
  · refine ⟨{ ch := p.ch, lun := p.lun, pl := 0, blk := line, pg := 0 },
      ?_, ?_⟩
    · simp only [lineBlks, List.mem_flatMap, List.mem_map, List.mem_range]
      exact ⟨p.ch, hch, p.lun, hlun, rfl⟩
    · obtain ⟨⟨ch, lun, pl, blk⟩, pg⟩ := p
      have hzero : pl = 0 := by
        change pl < g.plsPerLun at hpl
        omega
      subst hblk hzero
      rfl

theorem TableInv.release {s : LineRun} (h : TableInv g s) {line : ℕ}
    (hhand : line ∈ s.hand) :
    Meets (DieReady g s (.release line)) (StepDone g s (.release line))
      (lineStep g s (.release line)) := by
  obtain ⟨hwp, hgcWp, hlm⟩ := foldl_markBlockFree_frame (g := g)
    (lineBlks g line) s.ftl
  have hcount := List.count_pos_iff.mpr hhand
  obtain ⟨hfull, hvictim⟩ := h.notMem_of_places
    (show 0 < s.ftl.lm.freeLineList.count line + [s.ftl.wp.blk].count line +
      [s.ftl.gcWp.blk].count line + s.hand.count line by omega)
  have hpage : ∀ other, other < g.blksPerPl → ∀ p ∈ linePages g other,
      (eraseLine g s.ftl line).pg p =
        if other = line then .free else s.ftl.pg p := by
    intro other hlt p hp
    rw [eraseLine_pg h.planes _ _ (validPpa_of_mem_linePages hlt hp),
      (mem_linePages.mp hp).2.2.2.1]
  have hlt : line < g.blksPerPl := by
    apply h.partitioned.lt
    rw [places]
    omega
  have hgetWp : ∀ io, getWp (eraseLine g s.ftl line) io = getWp s.ftl io := by
    intro io
    cases io
    · exact hwp
    · exact hgcWp
  have hpartitioned : Partitioned g (eraseLine g s.ftl line)
      (line :: s.hand.erase line) := by
    have hsize : 1 ≤ (eraseLine g s.ftl line).lm.victimLinePq.size := by
      rw [eraseLine, hlm]
      exact h.partitioned.size_pos
    refine h.partitioned.of_places hsize fun other => ?_
    have hsplit := (List.perm_cons_erase hhand).count_eq other
    simp only [places, eraseLine, hwp, hgcWp, hlm]
    omega
  refine ⟨{
    planes := h.planes
    partitioned := hpartitioned.markLineFree
    openLine := fun io => ?_
    lineCounted := fun other hother => ?_
    blkCounted := fun b hb => ?_
    freeLines := fun other hmem p hp => ?_
    lm := ?_ }, trivial⟩
  · have hopen := h.openLine io
    have hne : (getWp s.ftl io).blk ≠ line := by
      intro heq
      have hself : [(getWp s.ftl io).blk].count line = 1 := by simp [heq]
      have hle := h.partitioned.places_le line
      rw [places] at hle
      cases io <;> simp only [getWp] at hself <;> omega
    have hwpEq := hgetWp io
    suffices hopen' : OpenLine g (eraseLine g s.ftl line).pg
        (getWp s.ftl io) by
      rw [← hwpEq] at hopen'
      cases io <;> exact hopen'
    refine ⟨hopen.curline_eq, hopen.inRange, fun p hp => ?_⟩
    rw [hpage _ (h.partitioned.wp_lt io) p hp, if_neg hne]
    exact hopen.free_iff p hp
  · refine LineCounted.markLineFree
      (fun p hp => by rw [hpage line hlt p hp, if_pos rfl]) fun hne => ?_
    refine (h.lineCounted other hother).congr ?_ ?_ fun p hp => ?_
    · rw [eraseLine, hlm]
    · rw [eraseLine, hlm]
    · rw [hpage other hother p hp, if_neg hne]
  · exact (foldl_markBlockFree_blkCounted _ (h.blkCounted b hb)).congr rfl
      fun _ _ => rfl
  · change (eraseLine g s.ftl line).pg p = .free
    change other ∈ (eraseLine g s.ftl line).lm.freeLineList ++ [line] at hmem
    rw [eraseLine, hlm, List.mem_append, List.mem_singleton] at hmem
    rcases hmem with hold | rfl
    · rw [hpage other (h.partitioned.free_lt hold) p hp]
      split_ifs
      · rfl
      · exact h.freeLines other hold p hp
    · rw [hpage other hlt p hp, if_pos rfl]
  · change LmInv g (markLineFree (eraseLine g s.ftl line).lm line)
    rw [eraseLine, hlm]
    exact h.lm.release hfull hvictim

theorem TableInv.step {s : LineRun} (h : TableInv g s) {action : LineAction}
    (henabled : lineEnabled g s action) :
    Meets (DieReady g s action) (StepDone g s action)
      (lineStep g s action) := by
  cases action with
  | program io => exact h.program henabled
  | invalidate ppa => exact h.invalidate henabled.1 henabled.2
  | select force => exact h.select force
  | release line => exact h.release henabled

theorem tableInv_of_reachable {s : LineRun}
    (hreach : Reachable (lineMachine g) s) : TableInv g s := by
  refine hreach.invariant (TableInv g) (fun _ hinit => .init hinit)
    fun before action after h henabled hrun => ?_
  have hstep := h.step henabled
  change lineStep g before action = .ok after at hrun
  rw [hrun] at hstep
  exact hstep.1

/-! ## What every reachable state shows -/

/-- The line table of one state: one place for each line, counters that count,
a full list of the lines with only valid pages, positions that are heap slots,
and a forced selection that finds a line with the fewest valid pages. -/
structure LineTableOk (g : Geometry) (s : LineRun) : Prop where
  one_place : ∀ line, line < g.blksPerPl → places s.ftl s.hand line = 1
  freeLineCnt : s.ftl.lm.freeLineCnt = s.ftl.lm.freeLineList.length
  fullLineCnt : s.ftl.lm.fullLineCnt = s.ftl.lm.fullLineList.length
  victimLineCnt :
    s.ftl.lm.victimLineCnt = (elems s.ftl.lm.victimLinePq).length
  full_iff : ∀ line, line < g.blksPerPl →
    (line ∈ s.ftl.lm.fullLineList ↔ s.ftl.lm.vpc line = g.pgsPerLine)
  pos_iff : ∀ line, s.ftl.lm.victimLinePq.pos line ≠ 0 ↔
    line ∈ elems s.ftl.lm.victimLinePq
  pos_slot : ∀ line ∈ elems s.ftl.lm.victimLinePq,
    s.ftl.lm.victimLinePq.pos line < s.ftl.lm.victimLinePq.size ∧
      s.ftl.lm.victimLinePq.d (s.ftl.lm.victimLinePq.pos line) = line
  least_victim : elems s.ftl.lm.victimLinePq ≠ [] →
    ∃ victim ∈ elems s.ftl.lm.victimLinePq,
      (selectVictimLine g s.ftl.lm true).1 = some victim ∧
        ∀ line ∈ elems s.ftl.lm.victimLinePq,
          s.ftl.lm.vpc victim ≤ s.ftl.lm.vpc line

theorem TableInv.lineTableOk {s : LineRun} (h : TableInv g s) :
    LineTableOk g s where
  one_place := h.partitioned.one_place
  freeLineCnt := h.lm.freeCnt
  fullLineCnt := h.lm.fullCnt
  victimLineCnt := h.lm.queue.count_eq
  full_iff := h.lm.full_iff
  pos_iff := h.lm.queue.pos_ne_zero_iff
  pos_slot line hline := (h.lm.queue.valid.pos_of_mem hline).2
  least_victim hne := by
    have hsize : s.ftl.lm.victimLinePq.size ≠ 1 := by
      intro hone
      apply hne
      rw [← List.length_eq_zero_iff, length_elems, hone]
    have hroot : s.ftl.lm.victimLinePq.d 1 ∈ elems s.ftl.lm.victimLinePq :=
      (elems_lineSelected h.partitioned.size_pos hsize).subset
        List.mem_cons_self
    refine ⟨_, hroot, ?_, fun line hline =>
      h.lm.queue.valid.root_le hline⟩
    simp [selectVictimLine, pqueuePeek, hsize]

/-- In every state of a run the line table is in order, and a step that a run
may take there fails no assertion exactly when the table of the die is ready for
it. -/
theorem lineTable_reachable (g : Geometry) {s : LineRun}
    (hreach : Reachable (lineMachine g) s) :
    LineTableOk g s ∧
      ∀ action, lineEnabled g s action →
        ((∃ s', lineStep g s action = .ok s') ↔ DieReady g s action) := by
  have h := tableInv_of_reachable hreach
  refine ⟨h.lineTableOk, fun action henabled => ?_⟩
  have hstep := h.step henabled
  rw [← hstep.exists_iff fun _ hdone => hdone.2]
  refine exists_congr fun s' => (and_iff_left_of_imp fun hrun => ?_).symm
  rw [hrun] at hstep
  exact hstep

end

/-! ## Three lines of one page each -/

def threeLines : Geometry := oneDie ⟨2, two_lt_bits⟩ ⟨0, zero_lt_bits⟩

instance (s : LineRun) (action : LineAction) :
    Decidable ((lineMachine threeLines).enabled s action) :=
  inferInstanceAs (Decidable (lineEnabled threeLines s action))

def threeLinesStart (lunlm : ℕ → Option LineMgmt) : LineRun where
  ftl := freshFtl threeLines
  lunlm := lunlm
  hand := []

/-- The tables of the dies, as `init_lines_DA` sets them up. -/
def setUpTables (_die : ℕ) : Option LineMgmt := (initLines threeLines).toOption

def onlyPage (line : ℕ) : Ppa :=
  { ch := 0, lun := 0, pl := 0, blk := line, pg := 0 }

/-- A line is written, invalidated, and collected. -/
def lineRound (line : ℕ) : List LineAction :=
  [.program .user, .invalidate (onlyPage line), .select true, .release line]

/-- Two lines go around once, and the first of them is written again. -/
def threeLinesRun : List LineAction :=
  lineRound 0 ++ lineRound 2 ++ [.program .user]

theorem threeLinesStart_reachable (lunlm : ℕ → Option LineMgmt) :
    Reachable (lineMachine threeLines) (threeLinesStart lunlm) :=
  .start ⟨convInitFtl_eq ⟨rfl, by decide⟩, rfl⟩

theorem lineTable_reachable_threeLines : ∃ s,
    (lineMachine threeLines).run threeLinesRun
        (threeLinesStart setUpTables) = some s ∧
      LineTableOk threeLines s ∧
      ∀ action, lineEnabled threeLines s action →
        ((∃ s', lineStep threeLines s action = .ok s') ↔
          DieReady threeLines s action) := by
  have hsome : ((lineMachine threeLines).run threeLinesRun
      (threeLinesStart setUpTables)).isSome = true := by decide +kernel
  obtain ⟨s, hrun⟩ := Option.isSome_iff_exists.mp hsome
  exact ⟨s, hrun, lineTable_reachable threeLines
    ((threeLinesStart_reachable setUpTables).run hrun)⟩

/-- Where the tables of the dies are not set up, no page is programmed.  Where
they are, the table of the die still counts the invalid page that the erased
line had, and the second page of that line is not invalidated. -/
theorem threeLines_asserts :
    (lineEnabled threeLines (threeLinesStart fun _ => none)
          (.program .user) ∧
        lineStep threeLines (threeLinesStart fun _ => none) (.program .user) =
          .error .unsetPointer) ∧
      ∃ s, (lineMachine threeLines).run threeLinesRun
          (threeLinesStart setUpTables) = some s ∧
        lineEnabled threeLines s (.invalidate (onlyPage 0)) ∧
        lineStep threeLines s (.invalidate (onlyPage 0)) =
          .error .assertion := by
  refine ⟨⟨by decide, rfl⟩, _, rfl, by decide +kernel, rfl⟩

end NvmeVirt.LineTable
