import NvmeVirt.Hybrid.Mapping

/-!
# Garbage collection of the hybrid build

`do_gc` is the one of the conventional build; what it calls books a page in
the superblock table and in the table of its die, takes new pages from the QLC
channels and is timed by the tier of the address.  The erase at its end books
the line in the superblock table alone.
-/

namespace NvmeVirt.HybridGc

open NvmeVirt.GarbageCollection (gcCmd lastPgInWordline flashpgPage countValid)
open NvmeVirt.HybridConfig
open NvmeVirt.HybridMapping
open NvmeVirt.Kernel
open NvmeVirt.Layout
open NvmeVirt.Mapping (ConvParams setMaptblEnt setRmapEnt advanceWritePointer
  selectVictimLine markBlockFree markLineFree)
open NvmeVirt.Timing

/-- `conv_init_params`. -/
def convInitParams : ConvParams where
  gcThresLines := 2
  gcThresLinesHigh := 2
  enableGcDelay := true

section

variable {h : HybridGeometry} (cp : ConvParams)

/-- `ssd_advance_nand`, when `enable_gc_delay` asks for it. -/
def gcDelay (s : HybridFtl h) (ncmd : NandCmd) : HybridFtl h :=
  if cp.enableGcDelay then
    { s with
      ssd := (advanceNand h.toHybridParams h.toSsdParams s.ssd ncmd).2 }
  else s

/-- The mapping half of `gc_write_page`. -/
def relocate (s : HybridFtl h) (oldPpa : Ppa) :
    Except Fault (Ppa × HybridFtl h) := do
  let pgidx ← ppa2pgidx h.toGeometry oldPpa
  match s.ftl.rmap pgidx with
  | none => throw .assertion
  | some lpn =>
      nvmevAssert (validLpn h.toGeometry lpn)
      let newPpa ← getNewPage h s.ftl .gc
      let ftl ← setMaptblEnt h.toGeometry s.ftl lpn newPpa
      let ftl ← setRmapEnt h.toGeometry ftl lpn newPpa
      let s ← markPageValid { s with ftl := ftl } newPpa
      let ftl ← advanceWritePointer h.toGeometry s.ftl .gc
      return (newPpa, { s with ftl := ftl })

/-- `gc_write_page`. -/
def gcWritePage (s : HybridFtl h) (oldPpa : Ppa) :
    Except Fault (HybridFtl h) := do
  let (newPpa, s) ← relocate s oldPpa
  return gcDelay cp s
    (if lastPgInWordline h.toGeometry newPpa then
      gcCmd .write (h.pgsz * h.pgsPerOneshotpg) newPpa
    else gcCmd .nop 0 newPpa)

/-- `clean_one_flashpg`. -/
def cleanOneFlashpg (s : HybridFtl h) (ppa : Ppa) :
    Except Fault (HybridFtl h) := do
  let cnt ← countValid h.toGeometry s.ftl ppa
  if cnt = 0 then
    return s
  let s := gcDelay cp s (gcCmd .read (h.pgsz * cnt) ppa)
  (List.range h.pgsPerFlashpg).foldlM
    (fun s i =>
      if s.ftl.pg (flashpgPage ppa i) = .valid then
        gcWritePage cp s (flashpgPage ppa i)
      else .ok s)
    s

/-- One round of the loops of `do_gc`. -/
def gcRound (victimLine flashpg ch : ℕ) (s : HybridFtl h) (lun : ℕ) :
    Except Fault (HybridFtl h) := do
  let ppa : Ppa :=
    { ch := ch, lun := lun, pl := 0, blk := victimLine,
      pg := flashpg * h.pgsPerFlashpg }
  let s ← cleanOneFlashpg cp s ppa
  if flashpg = h.flashpgsPerBlk - 1 then
    let s := { s with ftl := markBlockFree h.toGeometry s.ftl ppa }
    let s := gcDelay cp s (gcCmd .erase 0 ppa)
    return { s with ssd := setGcEndtime s.ssd ppa }
  else return s

/-- The two inner loops of `do_gc`, over the channels and their luns. -/
def gcFlashpg (victimLine : ℕ) (s : HybridFtl h) (flashpg : ℕ) :
    Except Fault (HybridFtl h) :=
  (List.range h.nchs).foldlM
    (fun s ch =>
      (List.range h.lunsPerCh).foldlM (gcRound cp victimLine flashpg ch) s)
    s

/-- `do_gc`. -/
def doGc (s : HybridFtl h) (force : Bool) :
    Except Fault (ℤ × HybridFtl h) :=
  match selectVictimLine h.toGeometry s.ftl.lm force with
  | (none, _) => .ok (-1, s)
  | (some victimLine, lm) => do
      let ftl :=
        { s.ftl with
          lm := lm
          wfc := { s.ftl.wfc with creditsToRefill := lm.ipc victimLine } }
      let s ← (List.range h.flashpgsPerBlk).foldlM
        (gcFlashpg cp victimLine) { s with ftl := ftl }
      return (0,
        { s with
          ftl := { s.ftl with lm := markLineFree s.ftl.lm victimLine } })

end

end NvmeVirt.HybridGc
