import NvmeVirt.Conv.VictimQueue
import NvmeVirt.Device.Timing

/-!
# State and primitive operations of the conventional FTL

The page mapping of `conv_ftl.c` in the non-hybrid build: forward and reverse
map, page and block status, the superblock lines with their three collections,
and the two write pointers.  A pointer to a `struct line` is the line's index,
which is also its `id`.

`mark_page_valid` and `mark_page_invalid` update two line managers, the
superblock table `lm` and the table of the die in `lunlm`.  `Ftl` holds what
all builds share; the tables of the dies are passed along beside it.
-/

namespace NvmeVirt.Mapping

open NvmeVirt.Kernel
open NvmeVirt.Layout
open NvmeVirt.Timing
open NvmeVirt.Transition
open NvmeVirt.VictimQueue

/-- `PG_FREE`, `PG_INVALID` and `PG_VALID`. -/
inductive PgStatus
  | free
  | invalid
  | valid
  deriving DecidableEq, Repr

/-- The counters of a `struct nand_block`. -/
structure NandBlock where
  ipc : ℕ
  vpc : ℕ
  eraseCnt : ℕ
  deriving DecidableEq, Repr

/-- `struct write_pointer`. -/
structure WritePointer where
  curline : Option ℕ
  ch : ℕ
  lun : ℕ
  pg : ℕ
  blk : ℕ
  pl : ℕ
  deriving DecidableEq, Repr

/-- `struct line_mgmt`.  The fields of `struct line` are columns: `ipc` and
`vpc` here, `pos` in the victim queue that maintains it. -/
structure LineMgmt where
  ttLines : ℕ
  ipc : ℕ → ℕ
  vpc : ℕ → ℕ
  freeLineList : List ℕ
  victimLinePq : Pqueue ℕ
  fullLineList : List ℕ
  freeLineCnt : ℕ
  victimLineCnt : ℕ
  fullLineCnt : ℕ

/-- `struct write_flow_control`. -/
structure WriteFlowControl where
  writeCredits : ℕ
  creditsToRefill : ℕ
  deriving DecidableEq, Repr

/-- `struct convparams`, without the sizes only reported to the host. -/
structure ConvParams where
  gcThresLines : ℕ
  gcThresLinesHigh : ℕ
  enableGcDelay : Bool
  deriving DecidableEq, Repr

/-- The mapping state of a `struct conv_ftl` and of the NAND pages behind it.
`none` is `UNMAPPED_PPA` in `maptbl` and `INVALID_LPN` in `rmap`. -/
structure Ftl where
  maptbl : ℕ → Option Ppa
  rmap : ℕ → Option ℕ
  pg : Ppa → PgStatus
  blk : BlkAddr → NandBlock
  wp : WritePointer
  gcWp : WritePointer
  lm : LineMgmt
  wfc : WriteFlowControl

section

variable (g : Geometry)

/-! ## Mapping tables -/

/-- `set_maptbl_ent`. -/
def setMaptblEnt (s : Ftl) (lpn : ℕ) (ppa : Ppa) : Except Fault Ftl := do
  nvmevAssert (lpn < g.ttPgs)
  return { s with maptbl := Function.update s.maptbl lpn (some ppa) }

/-- `set_rmap_ent`. -/
def setRmapEnt (s : Ftl) (lpn : ℕ) (ppa : Ppa) : Except Fault Ftl := do
  let pgidx ← ppa2pgidx g ppa
  return { s with rmap := Function.update s.rmap pgidx (some lpn) }

section

variable {g}

theorem setMaptblEnt_of {s : Ftl} {lpn : ℕ} (hlpn : lpn < g.ttPgs)
    (ppa : Ppa) :
    setMaptblEnt g s lpn ppa =
      .ok { s with maptbl := Function.update s.maptbl lpn (some ppa) } := by
  rw [setMaptblEnt, nvmevAssert_of hlpn]
  rfl

theorem setRmapEnt_of {s : Ftl} (lpn : ℕ) {ppa : Ppa}
    (hppa : ValidPpa g ppa) :
    setRmapEnt g s lpn ppa =
      .ok { s with
        rmap := Function.update s.rmap (pgidx g ppa) (some lpn) } := by
  rw [setRmapEnt, ppa2pgidx_of_valid g hppa]
  rfl

theorem setMaptblEnt_eq_ok {ftl ftl' : Ftl} {lpn : ℕ} {ppa : Ppa}
    (hrun : setMaptblEnt g ftl lpn ppa = .ok ftl') :
    lpn < g.ttPgs ∧
      ftl' =
        { ftl with maptbl := Function.update ftl.maptbl lpn (some ppa) } := by
  obtain ⟨_, hassert, hrun⟩ := bind_eq_ok hrun
  cases hrun
  exact ⟨of_nvmevAssert hassert, rfl⟩

theorem setRmapEnt_eq_ok {ftl ftl' : Ftl} {lpn : ℕ} {ppa : Ppa}
    (hrun : setRmapEnt g ftl lpn ppa = .ok ftl') :
    ftl' = { ftl with
      rmap := Function.update ftl.rmap (pgidx g ppa) (some lpn) } := by
  obtain ⟨idx, hidx, hrun⟩ := bind_eq_ok hrun
  obtain ⟨_, -, hidx⟩ := bind_eq_ok hidx
  cases hidx
  cases hrun
  rfl

end

/-! ## Lines -/

/-- `init_lines`: every line is free, in the order of their ids. -/
def initLines : Except Fault LineMgmt := do
  nvmevAssert (g.blksPerPl = g.ttLines)
  return {
    ttLines := g.blksPerPl
    ipc := fun _ => 0
    vpc := fun _ => 0
    freeLineList := List.range g.blksPerPl
    victimLinePq := pqueueInit 0
    fullLineList := []
    freeLineCnt := g.blksPerPl
    victimLineCnt := 0
    fullLineCnt := 0 }

/-- `get_next_free_line`; `none` is its `NULL`. -/
def getNextFreeLine (lm : LineMgmt) : Option ℕ × LineMgmt :=
  match lm.freeLineList with
  | [] => (none, lm)
  | curline :: rest =>
      (some curline,
        { lm with freeLineList := rest, freeLineCnt := lm.freeLineCnt - 1 })

/-- The line part of `mark_page_valid`, which it runs on both tables too. -/
def lineMarkValid (lm : LineMgmt) (line : ℕ) : Except Fault LineMgmt := do
  nvmevAssert (lm.vpc line < g.pgsPerLine)
  return { lm with vpc := Function.update lm.vpc line (lm.vpc line + 1) }

/-- One valid page of `line` less: `pqueue_change_priority` for a line in the
victim queue, a plain decrement for any other. -/
def decrementVpc (lm : LineMgmt) (line : ℕ) : LineMgmt :=
  if lm.victimLinePq.pos line ≠ 0 then
    let (vpc, victimLinePq) := pqueueChangePriority lm.vpc lm.victimLinePq
      (lm.vpc line - 1) line
    { lm with vpc := vpc, victimLinePq := victimLinePq }
  else { lm with vpc := Function.update lm.vpc line (lm.vpc line - 1) }

/-- `list_del_init`, whichever list the line is on. -/
def listDelInit (lm : LineMgmt) (line : ℕ) : LineMgmt :=
  { lm with
    freeLineList := lm.freeLineList.erase line
    fullLineList := lm.fullLineList.erase line }

/-- The line part of `mark_page_invalid`, which it runs on the superblock
table and on that of the die. -/
def lineInvalidate (lm : LineMgmt) (line : ℕ) : Except Fault LineMgmt := do
  nvmevAssert (lm.ipc line < g.pgsPerLine)
  nvmevAssert (lm.vpc line = g.pgsPerLine → lm.ipc line = 0)
  let wasFullLine := decide (lm.vpc line = g.pgsPerLine)
  let lm :=
    { lm with ipc := Function.update lm.ipc line (lm.ipc line + 1) }
  nvmevAssert (0 < lm.vpc line ∧ lm.vpc line ≤ g.pgsPerLine)
  let lm := decrementVpc lm line
  if wasFullLine then
    let lm := listDelInit lm line
    return { lm with
      fullLineCnt := sub32 lm.fullLineCnt 1
      victimLinePq := pqueueInsert lm.vpc lm.victimLinePq line
      victimLineCnt := lm.victimLineCnt + 1 }
  else return lm

/-- The closing half of `advance_write_pointer`: a line whose pages are all
valid goes to the full list, any other to the victim queue. -/
def closeLine (lm : LineMgmt) (line : ℕ) : Except Fault LineMgmt :=
  if lm.vpc line = g.pgsPerLine then do
    nvmevAssert (lm.ipc line = 0)
    return { lm with
      fullLineList := lm.fullLineList ++ [line]
      fullLineCnt := lm.fullLineCnt + 1 }
  else do
    nvmevAssert (lm.vpc line < g.pgsPerLine)
    nvmevAssert (0 < lm.ipc line)
    return { lm with
      victimLinePq := pqueueInsert lm.vpc lm.victimLinePq line
      victimLineCnt := lm.victimLineCnt + 1 }

/-- `select_victim_line`. -/
def selectVictimLine (lm : LineMgmt) (force : Bool) : Option ℕ × LineMgmt :=
  match pqueuePeek lm.victimLinePq with
  | none => (none, lm)
  | some victimLine =>
      if ¬ force ∧ g.pgsPerLine / 8 < lm.vpc victimLine then (none, lm)
      else
        let pq := (pqueuePop lm.vpc lm.victimLinePq).2
        (some victimLine,
          { lm with
            victimLinePq :=
              { pq with pos := Function.update pq.pos victimLine 0 }
            victimLineCnt := lm.victimLineCnt - 1 })

/-- `mark_line_free`. -/
def markLineFree (lm : LineMgmt) (line : ℕ) : LineMgmt :=
  { lm with
    ipc := Function.update lm.ipc line 0
    vpc := Function.update lm.vpc line 0
    freeLineList := lm.freeLineList ++ [line]
    freeLineCnt := lm.freeLineCnt + 1 }

/-! ## Write pointers -/

/-- `__get_wp`. -/
def getWp (s : Ftl) : IoType → WritePointer
  | .user => s.wp
  | .gc => s.gcWp

def setWp (s : Ftl) (wpp : WritePointer) : IoType → Ftl
  | .user => { s with wp := wpp }
  | .gc => { s with gcWp := wpp }

theorem getWp_setWp (s : Ftl) (wpp : WritePointer) (io : IoType) :
    getWp (setWp s wpp io) io = wpp := by
  cases io <;> rfl

theorem setWp_lm (s : Ftl) (wpp : WritePointer) (io : IoType) :
    (setWp s wpp io).lm = s.lm := by
  cases io <;> rfl

/-- `prepare_write_pointer`. -/
def prepareWritePointer (s : Ftl) (io : IoType) : Except Fault Ftl :=
  match getNextFreeLine s.lm with
  | (none, _) => .error .assertion
  | (some curline, lm) =>
      .ok (setWp { s with lm := lm }
        { curline := some curline, ch := 0, lun := 0, pg := 0,
          blk := curline, pl := 0 } io)

/-- The stepping half of `advance_write_pointer`: page within the oneshot
page, then channel, then lun, then the next oneshot page of the block.  The
flag tells that the line is used up. -/
def stepWritePointer (wpp : WritePointer) :
    Except Fault (WritePointer × Bool) := do
  nvmevAssert (wpp.pg < g.pgsPerBlk)
  let wpp := { wpp with pg := wpp.pg + 1 }
  if wpp.pg % g.pgsPerOneshotpg ≠ 0 then
    return (wpp, false)
  let wpp := { wpp with pg := wpp.pg - g.pgsPerOneshotpg }
  nvmevAssert (wpp.ch < g.nchs)
  let wpp := { wpp with ch := wpp.ch + 1 }
  if wpp.ch ≠ g.nchs then
    return (wpp, false)
  let wpp := { wpp with ch := 0 }
  nvmevAssert (wpp.lun < g.lunsPerCh)
  let wpp := { wpp with lun := wpp.lun + 1 }
  if wpp.lun ≠ g.lunsPerCh then
    return (wpp, false)
  let wpp := { wpp with lun := 0, pg := wpp.pg + g.pgsPerOneshotpg }
  if wpp.pg ≠ g.pgsPerBlk then
    return (wpp, false)
  return ({ wpp with pg := 0 }, true)

/-- The line switch of `advance_write_pointer`.  Reading the id of the line
`get_next_free_line` returned dereferences its `NULL`. -/
def switchLine (s : Ftl) (io : IoType) (wpp : WritePointer) (line : ℕ) :
    Except Fault Ftl := do
  let lm ← closeLine g s.lm line
  nvmevAssert (wpp.blk < g.blksPerPl)
  match getNextFreeLine lm with
  | (none, _) => throw .nullPointer
  | (some next, lm) =>
      nvmevAssert (next < g.blksPerPl)
      nvmevAssert (wpp.pg = 0 ∧ wpp.lun = 0 ∧ wpp.ch = 0 ∧ wpp.pl = 0)
      return setWp { s with lm := lm }
        { wpp with curline := some next, blk := next } io

/-- `advance_write_pointer`. -/
def advanceWritePointer (s : Ftl) (io : IoType) : Except Fault Ftl := do
  let (wpp, usedUp) ← stepWritePointer g (getWp s io)
  if usedUp then
    match wpp.curline with
    | none => throw .nullPointer
    | some line => switchLine g s io wpp line
  else return setWp s wpp io

/-- `get_new_page`. -/
def getNewPage (s : Ftl) (io : IoType) : Ppa :=
  let wp := getWp s io
  { ch := wp.ch, lun := wp.lun, pl := wp.pl, blk := wp.blk, pg := wp.pg }

/-! ## Page status -/

/-- `get_glun`. -/
def getGlun (p : Ppa) : ℕ := p.lun * g.nchs + p.ch

/-- Change the line that `get_line_DA` finds, in the table of the die of the
page.  `lunlm` comes from `kmalloc`, and `lines` of a table points nowhere
before `init_lines_DA` has set it: such a table is `none`. -/
def changeLineDA (lunlm : ℕ → Option LineMgmt) (ppa : Ppa)
    (change : LineMgmt → ℕ → Except Fault LineMgmt) :
    Except Fault (ℕ → Option LineMgmt) :=
  match lunlm (getGlun g ppa) with
  | none => .error .unsetPointer
  | some lm => do
      let lm ← change lm ppa.blk
      return Function.update lunlm (getGlun g ppa) (some lm)

/-- `mark_page_invalid` up to the table of the die. -/
def superblockInvalid (s : Ftl) (ppa : Ppa) : Except Fault Ftl := do
  nvmevAssert (s.pg ppa = .valid)
  let block := s.blk ppa.toBlkAddr
  nvmevAssert (block.ipc < g.pgsPerBlk)
  nvmevAssert (0 < block.vpc ∧ block.vpc ≤ g.pgsPerBlk)
  let lm ← lineInvalidate g s.lm ppa.blk
  return { s with
    pg := Function.update s.pg ppa .invalid
    blk := Function.update s.blk ppa.toBlkAddr
      { block with ipc := block.ipc + 1, vpc := block.vpc - 1 }
    lm := lm }

/-- `mark_page_invalid`. -/
def markPageInvalid (s : Ftl) (lunlm : ℕ → Option LineMgmt) (ppa : Ppa) :
    Except Fault (Ftl × (ℕ → Option LineMgmt)) := do
  let s ← superblockInvalid g s ppa
  let lunlm ← changeLineDA g lunlm ppa (lineInvalidate g)
  return (s, lunlm)

/-- `mark_page_valid` up to the table of the die. -/
def superblockValid (s : Ftl) (ppa : Ppa) : Except Fault Ftl := do
  nvmevAssert (s.pg ppa = .free)
  let block := s.blk ppa.toBlkAddr
  nvmevAssert (block.vpc < g.pgsPerBlk)
  let lm ← lineMarkValid g s.lm ppa.blk
  return { s with
    pg := Function.update s.pg ppa .valid
    blk := Function.update s.blk ppa.toBlkAddr
      { block with vpc := block.vpc + 1 }
    lm := lm }

/-- `mark_page_valid`. -/
def markPageValid (s : Ftl) (lunlm : ℕ → Option LineMgmt) (ppa : Ppa) :
    Except Fault (Ftl × (ℕ → Option LineMgmt)) := do
  let s ← superblockValid g s ppa
  let lunlm ← changeLineDA g lunlm ppa (lineMarkValid g)
  return (s, lunlm)

/-- `mark_block_free`.  Its two assertions compare `nsecs` and `npgs` with the
counts that initialised them, which nothing writes again. -/
def markBlockFree (s : Ftl) (ppa : Ppa) : Ftl :=
  { s with
    pg := fun p =>
      if p.toBlkAddr = ppa.toBlkAddr ∧ p.pg < g.pgsPerBlk then .free
      else s.pg p
    blk := Function.update s.blk ppa.toBlkAddr
      { ipc := 0, vpc := 0,
        eraseCnt := (s.blk ppa.toBlkAddr).eraseCnt + 1 } }

/-! ## Initialisation -/

/-- `conv_init_ftl`, non-hybrid build, over the pages and blocks `ssd_init`
leaves. -/
def convInitFtl : Except Fault Ftl := do
  let lm ← initLines g
  let unset : WritePointer :=
    { curline := none, ch := 0, lun := 0, pg := 0, blk := 0, pl := 0 }
  let s : Ftl :=
    { maptbl := fun _ => none
      rmap := fun _ => none
      pg := fun _ => .free
      blk := fun _ => { ipc := 0, vpc := 0, eraseCnt := 0 }
      wp := unset
      gcWp := unset
      lm := lm
      wfc := { writeCredits := g.pgsPerLine,
               creditsToRefill := g.pgsPerLine } }
  let s ← prepareWritePointer s .user
  prepareWritePointer s .gc

end

end NvmeVirt.Mapping
