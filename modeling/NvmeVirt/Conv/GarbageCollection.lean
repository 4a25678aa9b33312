import NvmeVirt.Conv.Mapping

/-!
# Garbage collection

`do_gc` takes the best line out of the victim queue, copies its valid pages to
the line under the garbage collection pointer, erases its blocks and puts it
on the free list.  The pages are visited flash page by flash page, and for one
flash page number over all dies.
-/

namespace NvmeVirt.GarbageCollection

open NvmeVirt.Kernel
open NvmeVirt.Layout
open NvmeVirt.Mapping
open NvmeVirt.Timing
open NvmeVirt.Transition
open NvmeVirt.VictimQueue

/-- `struct conv_ftl` with the device it drives. -/
structure ConvFtl where
  ftl : Ftl
  ssd : Ssd
  lunlm : ℕ → Option LineMgmt

/-- The `struct nand_cmd` of a garbage collection step. -/
def gcCmd (cmd : NandOp) (xferSize : ℕ) (ppa : Ppa) : NandCmd :=
  { type := .gc, cmd := cmd, xferSize := xferSize, stime := 0,
    interleavePciDma := false, ppa := some ppa }

section

variable (g : Geometry) (cp : ConvParams)

/-- `ssd_advance_nand`, when `enable_gc_delay` asks for it. -/
def gcDelay (s : ConvFtl) (ncmd : NandCmd) : ConvFtl :=
  if cp.enableGcDelay then
    { s with ssd := (ssdAdvanceNand g.toSsdParams s.ssd ncmd).2 }
  else s

/-- `last_pg_in_wordline`. -/
def lastPgInWordline (ppa : Ppa) : Bool :=
  ppa.pg % g.pgsPerOneshotpg = g.pgsPerOneshotpg - 1

/-- The mapping half of `gc_write_page`: copy one page to the line under the
garbage collection pointer.  `INVALID_LPN` is no valid logical page. -/
def relocate (s : ConvFtl) (oldPpa : Ppa) : Except Fault (Ppa × ConvFtl) := do
  let pgidx ← ppa2pgidx g oldPpa
  match s.ftl.rmap pgidx with
  | none => throw .assertion
  | some lpn =>
      nvmevAssert (validLpn g lpn)
      let newPpa := getNewPage s.ftl .gc
      let ftl ← setMaptblEnt g s.ftl lpn newPpa
      let ftl ← setRmapEnt g ftl lpn newPpa
      let (ftl, lunlm) ← markPageValid g ftl s.lunlm newPpa
      let ftl ← advanceWritePointer g ftl .gc
      return (newPpa, { s with ftl := ftl, lunlm := lunlm })

/-- Copying a page in the tables leaves the device alone. -/
theorem relocate_ssd {s : ConvFtl} {oldPpa : Ppa} {result : Ppa × ConvFtl}
    (hrun : relocate g s oldPpa = .ok result) : result.2.ssd = s.ssd := by
  obtain ⟨pgidx, -, hrun⟩ := bind_eq_ok hrun
  split at hrun
  · cases hrun
  · obtain ⟨_, -, hrun⟩ := bind_eq_ok hrun
    obtain ⟨_, -, hrun⟩ := bind_eq_ok hrun
    obtain ⟨_, -, hrun⟩ := bind_eq_ok hrun
    obtain ⟨_, -, hrun⟩ := bind_eq_ok hrun
    obtain ⟨_, -, hrun⟩ := bind_eq_ok hrun
    cases hrun
    rfl

/-- `gc_write_page`. -/
def gcWritePage (s : ConvFtl) (oldPpa : Ppa) : Except Fault ConvFtl := do
  let (newPpa, s) ← relocate g s oldPpa
  return gcDelay g cp s
    (if lastPgInWordline g newPpa then
      gcCmd .write (g.pgsz * g.pgsPerOneshotpg) newPpa
    else gcCmd .nop 0 newPpa)

/-- Page `i` of the flash page that starts at `ppa`. -/
def flashpgPage (ppa : Ppa) (i : ℕ) : Ppa := { ppa with pg := ppa.pg + i }

/-- The first loop of `clean_one_flashpg`: count the valid pages; a victim
holds no free page. -/
def countValid (s : Ftl) (ppa : Ppa) : Except Fault ℕ :=
  (List.range g.pgsPerFlashpg).foldlM
    (fun cnt i => do
      nvmevAssert (s.pg (flashpgPage ppa i) ≠ .free)
      return if s.pg (flashpgPage ppa i) = .valid then cnt + 1 else cnt)
    0

/-- `clean_one_flashpg`. -/
def cleanOneFlashpg (s : ConvFtl) (ppa : Ppa) : Except Fault ConvFtl := do
  let cnt ← countValid g s.ftl ppa
  if cnt = 0 then
    return s
  let s := gcDelay g cp s (gcCmd .read (g.pgsz * cnt) ppa)
  (List.range g.pgsPerFlashpg).foldlM
    (fun s i =>
      if s.ftl.pg (flashpgPage ppa i) = .valid then
        gcWritePage g cp s (flashpgPage ppa i)
      else .ok s)
    s

/-- One round of the loops of `do_gc`: clean one flash page, and erase its
block when it was the last one. -/
def gcRound (victimLine flashpg ch : ℕ) (s : ConvFtl) (lun : ℕ) :
    Except Fault ConvFtl := do
  let ppa : Ppa :=
    { ch := ch, lun := lun, pl := 0, blk := victimLine,
      pg := flashpg * g.pgsPerFlashpg }
  let s ← cleanOneFlashpg g cp s ppa
  if flashpg = g.flashpgsPerBlk - 1 then
    let s := { s with ftl := markBlockFree g s.ftl ppa }
    let s := gcDelay g cp s (gcCmd .erase 0 ppa)
    return { s with ssd := setGcEndtime s.ssd ppa }
  else return s

/-- The two inner loops of `do_gc`, over the channels and their luns. -/
def gcFlashpg (victimLine : ℕ) (s : ConvFtl) (flashpg : ℕ) :
    Except Fault ConvFtl :=
  (List.range g.nchs).foldlM
    (fun s ch =>
      (List.range g.lunsPerCh).foldlM (gcRound g cp victimLine flashpg ch) s)
    s

/-- `do_gc`. -/
def doGc (s : ConvFtl) (force : Bool) : Except Fault (ℤ × ConvFtl) :=
  match selectVictimLine g s.ftl.lm force with
  | (none, _) => .ok (-1, s)
  | (some victimLine, lm) => do
      let ftl :=
        { s.ftl with
          lm := lm
          wfc := { s.ftl.wfc with creditsToRefill := lm.ipc victimLine } }
      let s ← (List.range g.flashpgsPerBlk).foldlM
        (gcFlashpg g cp victimLine) { s with ftl := ftl }
      return (0,
        { s with
          ftl := { s.ftl with lm := markLineFree s.ftl.lm victimLine } })

end

end NvmeVirt.GarbageCollection
