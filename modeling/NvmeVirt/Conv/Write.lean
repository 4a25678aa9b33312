import NvmeVirt.Conv.GarbageCollection
import NvmeVirt.Conv.Startup

/-!
# Host writes

`conv_write` of the non-hybrid build with one partition, and what a run of
host writes leaves.  The write path maps pages and moves the write pointer,
and marks no page; so the line under the pointer is closed without a valid and
without an invalid page.
-/

namespace NvmeVirt.Write

open NvmeVirt.Bookkeeping
open NvmeVirt.GarbageCollection
open NvmeVirt.Kernel
open NvmeVirt.Layout
open NvmeVirt.Mapping
open NvmeVirt.Startup
open NvmeVirt.Superblock
open NvmeVirt.Timing
open NvmeVirt.Transition
open NvmeVirt.VictimQueue

/-- `struct nvme_rw_command`; `length` is a 16-bit zero-based count of logical
blocks. -/
structure RwCommand where
  slba : ℕ
  length : ℕ
  length_lt : length < 2 ^ 16

/-- The bytes a command transfers. -/
def RwCommand.bytes (cmd : RwCommand) : ℕ := lbaToByte (cmd.length + 1)

/-- The arguments of `enqueue_writeback_io_req`. -/
structure Writeback where
  sqid : ℕ
  nsecsTarget : ℕ
  buffsToRelease : ℕ
  deriving DecidableEq, Repr

/-- What `conv_write` returns in `ret`, with the writeback it requested. -/
structure WriteResult where
  nsecsTarget : ℕ
  writeback : Option Writeback
  deriving DecidableEq, Repr

section

variable (g : Geometry) (cp : ConvParams)

/-- `should_gc` and `should_gc_high`. -/
def shouldGc (s : Ftl) : Bool := s.lm.freeLineCnt ≤ cp.gcThresLines
def shouldGcHigh (s : Ftl) : Bool := s.lm.freeLineCnt ≤ cp.gcThresLinesHigh

/-- `forground_gc`. -/
def forgroundGc (s : ConvFtl) : Except Fault ConvFtl :=
  if shouldGcHigh cp s.ftl then do
    let (_, s) ← doGc g cp s true
    return s
  else .ok s

/-- `check_and_refill_write_credit`. -/
def checkAndRefillWriteCredit (s : ConvFtl) : Except Fault ConvFtl :=
  if s.ftl.wfc.writeCredits = 0 then do
    let s ← forgroundGc g cp s
    let wfc := s.ftl.wfc
    return { s with
      ftl := { s.ftl with
        wfc := { wfc with
          writeCredits := u32 (wfc.writeCredits + wfc.creditsToRefill) } } }
  else .ok s

/-- The loop body of `conv_write`: one page. -/
def writePage (state : ConvFtl × ℕ) (lpn : ℕ) :
    Except Fault (ConvFtl × ℕ) := do
  let (s, completedTime) := state
  let s ← checkAndRefillWriteCredit g cp s
  let ppa := getNewPage s.ftl .user
  let swr : NandCmd :=
    { type := .user, cmd := .write, xferSize := g.pgsz,
      stime := completedTime, interleavePciDma := true, ppa := some ppa }
  let (completedTime, ssd) := ssdAdvanceNand g.toSsdParams s.ssd swr
  let (completedTime, ssd) :=
    ssdAdvanceWriteBuffer g.toSsdParams ssd completedTime g.pgsz
  let ftl ← setMaptblEnt g s.ftl lpn ppa
  let ftl ← setRmapEnt g ftl lpn ppa
  let ftl ← advanceWritePointer g ftl .user
  return ({ s with ftl := ftl, ssd := ssd }, completedTime)

/-- `conv_write`. -/
def convWrite (sqid : ℕ) (s : ConvFtl) (cmd : RwCommand) :
    Except Fault (WriteResult × ConvFtl) := do
  let (nsecsStart, ssd) := getWallclock s.ssd
  let (granted, wbuf) := bufferAllocate ssd.writeBuffer cmd.bytes
  let s := { s with ssd := { ssd with writeBuffer := wbuf } }
  if granted = 0 then
    return ({ nsecsTarget := nsecsStart,
              writeback := some ⟨sqid, nsecsStart, 0⟩ }, s)
  let lpn := cmd.slba / g.secsPerPg
  let remainingLpns := cmd.bytes / g.pgsz
  let (s, completedTime) ←
    (List.range' lpn remainingLpns).foldlM (writePage g cp) (s, nsecsStart)
  let s ← if shouldGc cp s.ftl then do
      let (_, s) ← doGc g cp s false
      pure s
    else pure s
  return ({ nsecsTarget := completedTime, writeback := none }, s)

/-- A run of host writes, each with the submission queue it came from. -/
def convRun (s : ConvFtl) (cmds : List (ℕ × RwCommand)) :
    Except Fault ConvFtl :=
  cmds.foldlM
    (fun s cmd => do
      let (_, s) ← convWrite g cp cmd.1 s cmd.2
      return s)
    s

/-- A command on whole pages of a logical space of `lpns` pages. -/
structure Aligned (lpns : ℕ) (cmd : RwCommand) : Prop where
  slba_dvd : g.secsPerPg ∣ cmd.slba
  length_dvd : g.secsPerPg ∣ cmd.length + 1
  in_range : cmd.slba + (cmd.length + 1) ≤ lpns * g.secsPerPg

/-- The pages of those commands that find room in the write buffer. -/
def acceptedPages : ℕ → List (ℕ × RwCommand) → ℕ
  | _, [] => 0
  | remaining, (_, cmd) :: cmds =>
      if remaining < cmd.bytes then acceptedPages remaining cmds
      else cmd.bytes / g.pgsz + acceptedPages (remaining - cmd.bytes) cmds

/-- The five views of the mapping agree: a mapped page is valid and maps back,
a valid page is mapped once, and the line counters count. -/
structure MappingConsistent (s : Ftl) : Prop where
  mapped : ∀ lpn p, s.maptbl lpn = some p →
    s.rmap (pgidx g p) = some lpn ∧ s.pg p = .valid
  valid_mapped : ∀ p, ValidPpa g p → s.pg p = .valid →
    ∃! lpn, s.maptbl lpn = some p
  lineCounted : ∀ line, line < g.blksPerPl → LineCounted g s line

/-! ## The state after some pages -/

/-- What `pages` written pages leave of the fresh state: the maps have changed
and the host pointer has moved along line `0`, all else is as it was. -/
structure Writing (pages : ℕ) (s : Ftl) : Prop where
  pg_eq : s.pg = (freshFtl g).pg
  lm_eq : s.lm = (freshFtl g).lm
  wfc_eq : s.wfc = (freshFtl g).wfc
  wp_curline : s.wp.curline = some 0
  wp_blk : s.wp.blk = 0
  wp_inRange : WpInRange g s.wp
  wp_rank : rank g (wpPage s.wp) = pages
  unmapped : pages = 0 → s = freshFtl g
  mapped : pages ≠ 0 → ∃ lpn p, s.maptbl lpn = some p

variable {g}

theorem writing_freshFtl : Writing g 0 (freshFtl g) where
  pg_eq := rfl
  lm_eq := rfl
  wfc_eq := rfl
  wp_curline := rfl
  wp_blk := rfl
  wp_inRange := wpAt_inRange 0
  wp_rank := rank_wpAt 0
  unmapped _ := rfl
  mapped h := absurd rfl h

/-- No write consumes a credit, so none is ever refilled. -/
theorem Writing.checkAndRefill {pages : ℕ} {s : ConvFtl}
    (h : Writing g pages s.ftl) (cp : ConvParams) :
    checkAndRefillWriteCredit g cp s = .ok s := by
  refine if_neg ?_
  rw [h.wfc_eq]
  exact (pgsPerLine_pos g).ne'

/-- There is no victim to collect. -/
theorem Writing.doGc {pages : ℕ} {s : ConvFtl} (h : Writing g pages s.ftl)
    (cp : ConvParams) (force : Bool) :
    doGc g cp s force = .ok (-1, s) := by
  have hsize : s.ftl.lm.victimLinePq.size = 1 := by
    rw [h.lm_eq]
    rfl
  rw [GarbageCollection.doGc, selectVictimLine, pqueuePeek, if_pos hsize]

/-- Closing a line no page of which was marked fails an assertion. -/
theorem closeLine_unmarked {lm : LineMgmt} {line : ℕ}
    (hvpc : lm.vpc line = 0) (hipc : lm.ipc line = 0) :
    closeLine g lm line = .error .assertion := by
  have hpos := pgsPerLine_pos g
  rw [closeLine, if_neg (by omega), nvmevAssert_of (by omega), ok_bind,
    nvmevAssert_not (by omega)]
  rfl

/-- One more page: the pointer moves on, or the line is closed and an
assertion fails. -/
theorem Writing.writePage {pages : ℕ} {s : ConvFtl}
    (h : Writing g pages s.ftl) (cp : ConvParams) {lpn : ℕ}
    (hlpn : lpn < g.ttPgs) (time : ℕ) :
    (pages + 1 < g.pgsPerLine →
      ∃ s' time', writePage g cp (s, time) lpn = .ok (s', time') ∧
        Writing g (pages + 1) s'.ftl ∧
        s'.ssd.writeBuffer = s.ssd.writeBuffer ∧
        s'.ftl.maptbl = Function.update s.ftl.maptbl lpn
          (some (getNewPage s.ftl .user))) ∧
    (pages + 1 = g.pgsPerLine →
      writePage g cp (s, time) lpn = .error .assertion) := by
  have hblk : s.ftl.wp.blk < g.blksPerPl := by
    rw [h.wp_blk]
    exact g.blksPerPl_pos
  have hpage : ValidPpa g (wpPage s.ftl.wp) := h.wp_inRange.validPpa hblk
  have hnew : getNewPage s.ftl .user = wpPage s.ftl.wp := rfl
  obtain ⟨after, usedUp, hrun, hstep⟩ := stepWritePointer_spec h.wp_inRange
  rw [Write.writePage]
  dsimp only
  rw [h.checkAndRefill cp, ok_bind, hnew, setMaptblEnt_of hlpn, ok_bind,
    setRmapEnt_of lpn hpage, ok_bind]
  simp only [pure, Except.pure, ok_bind, advanceWritePointer, getWp, hrun]
  cases usedUp with
  | false =>
      have hrank := hstep.rank_eq rfl
      rw [h.wp_rank] at hrank
      have hlt := rank_lt_of_mem hstep.inRange.mem_linePages
      refine ⟨fun _ => ⟨_, _, rfl, ?_, ?_, rfl⟩, fun hlast => by omega⟩
      · exact {
          pg_eq := h.pg_eq
          lm_eq := h.lm_eq
          wfc_eq := h.wfc_eq
          wp_curline := hstep.curline_eq.trans h.wp_curline
          wp_blk := hstep.blk_eq.trans h.wp_blk
          wp_inRange := hstep.inRange
          wp_rank := hrank
          unmapped := fun hzero => absurd hzero (Nat.succ_ne_zero pages)
          mapped := fun _ =>
            ⟨lpn, wpPage s.ftl.wp, Function.update_self _ _ _⟩ }
      · simp
  | true =>
      have hlast := (hstep.rank_last rfl).1
      rw [h.wp_rank] at hlast
      refine ⟨fun hlt => by omega, fun _ => ?_⟩
      have hclose : closeLine g s.ftl.lm 0 = .error .assertion := by
        rw [h.lm_eq]
        exact closeLine_unmarked rfl rfl
      simp only [if_true, hstep.curline_eq, h.wp_curline, switchLine, hclose,
        error_bind]

theorem Writing.pages_lt {pages : ℕ} {s : Ftl} (h : Writing g pages s) :
    pages < g.pgsPerLine := by
  rw [← h.wp_rank]
  exact rank_lt_of_mem h.wp_inRange.mem_linePages

/-- The page loop of one command. -/
theorem Writing.writePages (cp : ConvParams) (count : ℕ) {pages : ℕ}
    {s : ConvFtl} (h : Writing g pages s.ftl) {lpn : ℕ}
    (hlpns : ∀ lpn' ∈ List.range' lpn count, lpn' < g.ttPgs) (time : ℕ) :
    (pages + count < g.pgsPerLine →
      ∃ s' time', (List.range' lpn count).foldlM (Write.writePage g cp)
          (s, time) = .ok (s', time') ∧
        Writing g (pages + count) s'.ftl ∧
        s'.ssd.writeBuffer = s.ssd.writeBuffer) ∧
    (g.pgsPerLine ≤ pages + count →
      (List.range' lpn count).foldlM (Write.writePage g cp) (s, time) =
        .error .assertion) := by
  induction count generalizing pages s lpn time with
  | zero =>
      refine ⟨fun _ => ⟨s, time, rfl, h, rfl⟩, fun hle => ?_⟩
      have hlt := h.pages_lt
      omega
  | succ count ih =>
      rw [List.range'_succ, List.forall_mem_cons] at hlpns
      obtain ⟨hnext, hlast⟩ := h.writePage cp hlpns.1 time
      rw [List.range'_succ, List.foldlM_cons]
      have hlt := h.pages_lt
      by_cases hend : pages + 1 = g.pgsPerLine
      · refine ⟨fun hbad => by omega, fun _ => ?_⟩
        rw [hlast hend, error_bind]
      · obtain ⟨s', time', hrun, hwriting, hbuffer, -⟩ := hnext (by omega)
        obtain ⟨hok, hfault⟩ := ih hwriting hlpns.2 time'
        rw [hrun, ok_bind]
        refine ⟨fun hfits => ?_, fun hle => hfault (by omega)⟩
        obtain ⟨s'', time'', hrun', hwriting', hbuffer'⟩ := hok (by omega)
        refine ⟨s'', time'', hrun', ?_, hbuffer'.trans hbuffer⟩
        rwa [Nat.add_right_comm, Nat.add_assoc] at hwriting'

/-! ## One command -/

theorem RwCommand.bytes_pos (cmd : RwCommand) : 0 < cmd.bytes := by
  rw [RwCommand.bytes, lbaToByte]
  omega

/-- `buffer_allocate` grants the whole command or nothing. -/
theorem bufferAllocate_bytes (buf : Buffer) (cmd : RwCommand) :
    bufferAllocate buf cmd.bytes =
      if buf.remaining < cmd.bytes then (0, buf)
      else (cmd.bytes,
        { buf with remaining := buf.remaining - cmd.bytes }) := by
  have hlt : cmd.bytes < 2 ^ 32 := by
    have hlength := cmd.length_lt
    rw [RwCommand.bytes, lbaToByte]
    omega
  unfold bufferAllocate
  split_ifs
  · rfl
  · dsimp only
    rw [u32_of_lt hlt]

/-- A command on whole pages stays inside the physical address space. -/
theorem Aligned.lpn_lt {lpns : ℕ} {cmd : RwCommand} (h : Aligned g lpns cmd)
    (hlpns : lpns ≤ g.ttPgs) :
    ∀ lpn ∈ List.range' (cmd.slba / g.secsPerPg) (cmd.bytes / g.pgsz),
      lpn < g.ttPgs := by
  intro lpn hlpn
  have hlast := (List.mem_range'_1.mp hlpn).2
  obtain ⟨⟨first, hfirst⟩, ⟨count, hcount⟩, hrange⟩ := h
  have hbytes : cmd.bytes / g.pgsz = count := by
    rw [RwCommand.bytes, lbaToByte, hcount, pgsz_eq_4096, g.secsPerPg_eq]
    omega
  rw [hbytes, hfirst] at hlast
  rw [hfirst, hcount] at hrange
  rw [g.secsPerPg_eq] at hrange hlast
  omega

/-- A command that finds no room changes nothing but the clock. -/
theorem Writing.convWrite_refused {pages : ℕ} {s : ConvFtl}
    (h : Writing g pages s.ftl) (cp : ConvParams) (sqid : ℕ) {cmd : RwCommand}
    (hfull : s.ssd.writeBuffer.remaining < cmd.bytes) :
    ∃ result s', convWrite g cp sqid s cmd = .ok (result, s') ∧
      Writing g pages s'.ftl ∧ s'.ssd.writeBuffer = s.ssd.writeBuffer := by
  rw [convWrite]
  simp only [getWallclock_writeBuffer, bufferAllocate_bytes, if_pos hfull]
  exact ⟨_, _, rfl, h, rfl⟩

/-- A command that finds room writes its pages, as far as the line goes. -/
theorem Writing.convWrite_accepted {pages : ℕ} {s : ConvFtl}
    (h : Writing g pages s.ftl) (cp : ConvParams) (sqid : ℕ) {cmd : RwCommand}
    (hlpns : ∀ lpn ∈ List.range' (cmd.slba / g.secsPerPg)
      (cmd.bytes / g.pgsz), lpn < g.ttPgs)
    (hroom : ¬ s.ssd.writeBuffer.remaining < cmd.bytes) :
    (pages + cmd.bytes / g.pgsz < g.pgsPerLine →
      ∃ result s', convWrite g cp sqid s cmd = .ok (result, s') ∧
        Writing g (pages + cmd.bytes / g.pgsz) s'.ftl ∧
        s'.ssd.writeBuffer.remaining =
          s.ssd.writeBuffer.remaining - cmd.bytes) ∧
    (g.pgsPerLine ≤ pages + cmd.bytes / g.pgsz →
      convWrite g cp sqid s cmd = .error .assertion) := by
  rw [convWrite]
  simp only [getWallclock_writeBuffer, bufferAllocate_bytes, if_neg hroom,
    cmd.bytes_pos.ne', if_false]
  obtain ⟨hok, hfault⟩ := Writing.writePages cp (cmd.bytes / g.pgsz)
    (s := { s with
      ssd := { (getWallclock s.ssd).2 with
        writeBuffer := { s.ssd.writeBuffer with
          remaining := s.ssd.writeBuffer.remaining - cmd.bytes } } })
    h hlpns (getWallclock s.ssd).1
  constructor
  · intro hfits
    obtain ⟨s', time', hrun, hwriting, hbuffer⟩ := hok hfits
    rw [hrun, ok_bind]
    dsimp only
    have hremaining : s'.ssd.writeBuffer.remaining =
        s.ssd.writeBuffer.remaining - cmd.bytes := by rw [hbuffer]
    split_ifs
    · rw [hwriting.doGc cp false]
      exact ⟨_, _, rfl, hwriting, hremaining⟩
    · exact ⟨_, _, rfl, hwriting, hremaining⟩
  · intro hle
    rw [hfault hle, error_bind]

/-! ## Runs -/

/-- A run faults exactly when the accepted pages fill the first line. -/
theorem Writing.convRun (cp : ConvParams) {lpns : ℕ} (hlpns : lpns ≤ g.ttPgs)
    (cmds : List (ℕ × RwCommand))
    (haligned : ∀ cmd ∈ cmds, Aligned g lpns cmd.2) {pages : ℕ} {s : ConvFtl}
    (h : Writing g pages s.ftl) :
    (pages + acceptedPages g s.ssd.writeBuffer.remaining cmds <
        g.pgsPerLine →
      ∃ s', Write.convRun g cp s cmds = .ok s' ∧
        Writing g (pages +
          acceptedPages g s.ssd.writeBuffer.remaining cmds) s'.ftl) ∧
    (g.pgsPerLine ≤
        pages + acceptedPages g s.ssd.writeBuffer.remaining cmds →
      Write.convRun g cp s cmds = .error .assertion) := by
  induction cmds generalizing pages s with
  | nil =>
      refine ⟨fun _ => ⟨s, rfl, h⟩, fun hle => ?_⟩
      have hlt := h.pages_lt
      simp only [acceptedPages] at hle
      omega
  | cons cmd cmds ih =>
      obtain ⟨sqid, cmd⟩ := cmd
      have hrest : ∀ other ∈ cmds, Aligned g lpns other.2 := fun other hother =>
        haligned other (List.mem_cons_of_mem _ hother)
      have hcmd : Aligned g lpns cmd :=
        haligned (sqid, cmd) List.mem_cons_self
      rw [Write.convRun, List.foldlM_cons, acceptedPages]
      dsimp only
      split_ifs with hfull
      · obtain ⟨result, s', hrun, hwriting, hbuffer⟩ :=
          h.convWrite_refused cp sqid hfull
        rw [hrun, ← hbuffer]
        exact ih hrest hwriting
      · obtain ⟨hok, hfault⟩ :=
          h.convWrite_accepted cp sqid (hcmd.lpn_lt hlpns) hfull
        by_cases hfits : pages + cmd.bytes / g.pgsz < g.pgsPerLine
        · obtain ⟨result, s', hrun, hwriting, hremaining⟩ := hok hfits
          rw [hrun, ← hremaining, ← Nat.add_assoc]
          exact ih hrest hwriting
        · refine ⟨fun hlt => by omega, fun _ => ?_⟩
          rw [hfault (by omega)]
          rfl

theorem freshFtl_consistent : MappingConsistent g (freshFtl g) where
  mapped lpn p hmap := by cases hmap
  valid_mapped p _ hvalid := by cases hvalid
  lineCounted line _ := freshFtl_lineCounted line

/-- A mapped page that nobody marked is no valid page. -/
theorem Writing.not_consistent {pages : ℕ} {s : Ftl} (h : Writing g pages s)
    (hpages : pages ≠ 0) : ¬ MappingConsistent g s := by
  intro hconsistent
  obtain ⟨lpn, p, hmap⟩ := h.mapped hpages
  have hvalid := (hconsistent.mapped lpn p hmap).2
  rw [h.pg_eq] at hvalid
  cases hvalid

/-- Three lines of two pages each. -/
def twoPageLines : Geometry := oneDie ⟨2, two_lt_bits⟩ ⟨1, one_lt_bits⟩

def twoPageSsd : Ssd :=
  ssdInit twoPageLines.toSsdParams (by decide) (by decide) ⟨fun _ => 0, 0⟩

def twoPageStart : ConvFtl where
  ftl := freshFtl twoPageLines
  ssd := twoPageSsd
  lunlm := fun _ => none

/-- A write of `pages` pages from logical block `0` on. -/
def writeFromZero (pages : ℕ) (h : pages * 8 - 1 < 2 ^ 16) : RwCommand :=
  ⟨0, pages * 8 - 1, h⟩

theorem twoPageLines_init :
    convInitFtl twoPageLines = .ok (freshFtl twoPageLines) :=
  convInitFtl_eq ⟨rfl, by decide⟩

theorem writeFromZero_one_aligned :
    Aligned twoPageLines 4 (writeFromZero 1 (by decide)) :=
  ⟨⟨0, rfl⟩, ⟨1, rfl⟩, by decide⟩

theorem writeFromZero_two_aligned :
    Aligned twoPageLines 4 (writeFromZero 2 (by decide)) :=
  ⟨⟨0, rfl⟩, ⟨2, rfl⟩, by decide⟩

/-- The mapping is consistent after a run exactly when the run has not written
a page. -/
theorem convRun_consistent_iff (cp : ConvParams) {ftl : Ftl} (ssd : Ssd)
    (lunlm : ℕ → Option LineMgmt) (hinit : convInitFtl g = .ok ftl) {lpns : ℕ}
    (hlpns : lpns ≤ g.ttPgs)
    {cmds : List (ℕ × RwCommand)}
    (haligned : ∀ cmd ∈ cmds, Aligned g lpns cmd.2) {s : ConvFtl}
    (hrun : convRun g cp ⟨ftl, ssd, lunlm⟩ cmds = .ok s) :
    MappingConsistent g s.ftl ↔
      acceptedPages g ssd.writeBuffer.remaining cmds = 0 := by
  obtain ⟨-, rfl⟩ := of_convInitFtl hinit
  have hstart : Writing g 0 (ConvFtl.mk (freshFtl g) ssd lunlm).ftl :=
    writing_freshFtl
  obtain ⟨hok, hfault⟩ := hstart.convRun cp hlpns cmds haligned
  by_cases hfits : 0 + acceptedPages g ssd.writeBuffer.remaining cmds <
      g.pgsPerLine
  · obtain ⟨s', hrun', hwriting⟩ := hok hfits
    rw [hrun] at hrun'
    cases hrun'
    rw [Nat.zero_add] at hwriting
    constructor
    · intro hconsistent
      by_contra hpages
      exact hwriting.not_consistent hpages hconsistent
    · intro hzero
      rw [hwriting.unmapped hzero]
      exact freshFtl_consistent
  · rw [hfault (Nat.le_of_not_lt hfits)] at hrun
    cases hrun

theorem convRun_consistent_iff_onePage :
    ∃ s, convRun twoPageLines ⟨2, 2, true⟩ twoPageStart
        [(1, writeFromZero 1 (by decide))] = .ok s ∧
      (MappingConsistent twoPageLines s.ftl ↔
        acceptedPages twoPageLines twoPageSsd.writeBuffer.remaining
          [(1, writeFromZero 1 (by decide))] = 0) := by
  have haligned : ∀ cmd ∈ [(1, writeFromZero 1 (by decide))],
      Aligned twoPageLines 4 cmd.2 :=
    List.forall_mem_singleton.mpr writeFromZero_one_aligned
  have hlpns : 4 ≤ twoPageLines.ttPgs := by decide
  obtain ⟨s, hrun, -⟩ := (Writing.convRun (s := twoPageStart) ⟨2, 2, true⟩
    hlpns _ haligned writing_freshFtl).1 (by decide)
  exact ⟨s, hrun, convRun_consistent_iff ⟨2, 2, true⟩ twoPageSsd
    (fun _ => none) twoPageLines_init hlpns haligned hrun⟩

/-- After one written page the mapping is inconsistent. -/
theorem convRun_inconsistent_onePage :
    Aligned twoPageLines 4 (writeFromZero 1 (by decide)) ∧
      convInitFtl twoPageLines = .ok twoPageStart.ftl ∧
      ∃ s, convRun twoPageLines ⟨2, 2, true⟩ twoPageStart
          [(1, writeFromZero 1 (by decide))] = .ok s ∧
        ¬ MappingConsistent twoPageLines s.ftl := by
  have haligned : ∀ cmd ∈ [(1, writeFromZero 1 (by decide))],
      Aligned twoPageLines 4 cmd.2 :=
    List.forall_mem_singleton.mpr writeFromZero_one_aligned
  have hlpns : 4 ≤ twoPageLines.ttPgs := by decide
  obtain ⟨s, hrun, hwriting⟩ := (Writing.convRun (s := twoPageStart)
    ⟨2, 2, true⟩ hlpns _ haligned writing_freshFtl).1 (by decide)
  exact ⟨writeFromZero_one_aligned, twoPageLines_init, s, hrun,
    hwriting.not_consistent (by decide)⟩

/-- A run meets no failing assertion, and no missing free line, exactly when it
writes fewer pages than a line has. -/
theorem convRun_ok_iff (cp : ConvParams) {ftl : Ftl} (ssd : Ssd)
    (lunlm : ℕ → Option LineMgmt) (hinit : convInitFtl g = .ok ftl) {lpns : ℕ}
    (hlpns : lpns < g.ttPgs)
    {cmds : List (ℕ × RwCommand)}
    (haligned : ∀ cmd ∈ cmds, Aligned g lpns cmd.2) :
    (∃ s, convRun g cp ⟨ftl, ssd, lunlm⟩ cmds = .ok s) ↔
      acceptedPages g ssd.writeBuffer.remaining cmds < g.pgsPerLine := by
  obtain ⟨-, rfl⟩ := of_convInitFtl hinit
  have hstart : Writing g 0 (ConvFtl.mk (freshFtl g) ssd lunlm).ftl :=
    writing_freshFtl
  obtain ⟨hok, hfault⟩ := hstart.convRun cp hlpns.le cmds haligned
  rw [Nat.zero_add] at hok hfault
  constructor
  · rintro ⟨s, hrun⟩
    by_contra hle
    rw [hfault (Nat.le_of_not_lt hle)] at hrun
    cases hrun
  · intro hfits
    obtain ⟨s, hrun, -⟩ := hok hfits
    exact ⟨s, hrun⟩

theorem convRun_ok_iff_onePage :
    (∃ s, convRun twoPageLines ⟨2, 2, true⟩ twoPageStart
        [(1, writeFromZero 1 (by decide))] = .ok s) ↔
      acceptedPages twoPageLines twoPageSsd.writeBuffer.remaining
        [(1, writeFromZero 1 (by decide))] < twoPageLines.pgsPerLine := by
  have hlpns : 4 < twoPageLines.ttPgs := by decide
  exact convRun_ok_iff ⟨2, 2, true⟩ twoPageSsd (fun _ => none)
    twoPageLines_init hlpns
    (List.forall_mem_singleton.mpr writeFromZero_one_aligned)

/-- Two pages fill the first line, and closing it fails an assertion. -/
theorem convRun_asserts_twoPages :
    4 < twoPageLines.ttPgs ∧
      Aligned twoPageLines 4 (writeFromZero 2 (by decide)) ∧
      convInitFtl twoPageLines = .ok twoPageStart.ftl ∧
      convRun twoPageLines ⟨2, 2, true⟩ twoPageStart
        [(1, writeFromZero 2 (by decide))] = .error .assertion := by
  have haligned : ∀ cmd ∈ [(1, writeFromZero 2 (by decide))],
      Aligned twoPageLines 4 cmd.2 :=
    List.forall_mem_singleton.mpr writeFromZero_two_aligned
  have hlpns : 4 ≤ twoPageLines.ttPgs := by decide
  exact ⟨by decide, writeFromZero_two_aligned, twoPageLines_init,
    (Writing.convRun (s := twoPageStart) ⟨2, 2, true⟩ hlpns _ haligned
      writing_freshFtl).2 (by decide)⟩

end

end NvmeVirt.Write
