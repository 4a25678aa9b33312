import NvmeVirt.Zns.MgmtSend

/-!
# Writing to a zone

`zns_write` takes a zone without a random write area to `__zns_write` and one
with it to `__zns_write_zrwa`.  Either reserves bytes of a buffer, moves the
write pointer of the zone, and programs every oneshot page that became
complete; the bytes of a programmed page are released by the writeback that is
enqueued with it.  `programmed` keeps the first page of each program; no
function reads it.
-/

namespace NvmeVirt.ReadWrite

open NvmeVirt.Kernel
open NvmeVirt.Layout
open NvmeVirt.MgmtSend
open NvmeVirt.Timing
open NvmeVirt.Transition
open NvmeVirt.Zones

/-- `nvme_cmd_write` and `nvme_cmd_zone_append`. -/
inductive WriteOpcode
  | write
  | zoneAppend
  deriving DecidableEq, Repr

/-- A write or append request; `length` is a 16-bit zero-based count of logical
blocks and `fua` the bit `NVME_RW_FUA` of `control`. -/
structure RwRequest where
  sqid : ℕ
  nsecsStart : ℕ
  opcode : WriteOpcode
  slba : ℕ
  length : ℕ
  length_lt : length < 2 ^ 16
  fua : Bool

/-- `__nr_lbas_from_rw_cmd`. -/
def RwRequest.nrLba (req : RwRequest) : ℕ := req.length + 1

/-- `LBA_TO_BYTE(nr_lba)`. -/
def RwRequest.bytes (req : RwRequest) : ℕ := lbaToByte req.nrLba

/-- The arguments of `enqueue_writeback_io_req`. -/
structure Writeback where
  sqid : ℕ
  nsecsTarget : ℕ
  buffer : BufferId
  buffsToRelease : ℕ
  deriving DecidableEq, Repr

/-- What a write returns: whether the command is accepted, `ret`, the start LBA
the command has afterwards, and the writebacks it enqueued. -/
structure WriteOutcome where
  accepted : Bool
  ret : NvmevResult
  slba : ℕ
  writebacks : List Writeback
  programmed : List ℕ
  deriving DecidableEq, Repr

/-- The variables of the loop that programs oneshot pages. -/
structure Program where
  ssd : Ssd
  nsecsLatest : ℕ
  writebacks : List Writeback
  programmed : List ℕ

section

variable (ns : ZnsNamespace)

/-- `__check_boundary_error`: whether the blocks are in one zone. -/
def checkBoundaryError (slba nrLba : ℕ) : Bool :=
  lbaToZone ns slba = lbaToZone ns (lastLba slba nrLba)

/-- `__increase_write_ptr`; its `ASSERT` expands to nothing, and an overshoot
is only logged. -/
def increaseWritePtr (s : ZnsFtl) (zid nrLba : ℕ) : ZnsFtl :=
  let desc := s.zoneDescs zid
  let curWritePtr := u64 (desc.wp + u32 nrLba)
  let s := setWp s zid curWritePtr
  if curWritePtr = u64 (zoneToSlba ns zid + desc.zoneCapacity) then
    let s := releaseZoneResource s .openZone
    let s := releaseZoneResource s .activeZone
    changeZoneState s zid .full
  else s

/-- `__lpn_to_ppa`; the coordinates are cut to the bits of their fields. -/
def lpnToPpa (lpn : ℕ) : Ppa :=
  let zone := lpnToZone ns lpn
  let off := sub64 lpn (zoneToSlpn ns zone)
  let sdie := u32 (u64 (zone * ns.zp.diesPerZone) % ns.ttLuns)
  let die := u32 (sdie + off / ns.pgsPerOneshotpg % ns.zp.diesPerZone)
  { ch := dieToChannel ns die % 2 ^ chBits
    lun := dieToLun ns die % 2 ^ lunBits
    pl := 0
    blk := 0
    pg := off % ns.pgsPerOneshotpg % 2 ^ pageBits }

/-- The bytes of a oneshot page. -/
def oneshotSize : ℕ := ns.pgsPerOneshotpg * ns.pgsz

/-- `unalinged_space`: the bytes of the last oneshot page of a zone, when the
zone cuts it short. -/
def unalignedSpace : ℕ := ns.zp.zoneSize % oneshotSize ns

/-- Program the oneshot page of `lpn` and enqueue the writeback that releases
`bufsToRelease` bytes. -/
def programOneshot (req : RwRequest) (nsecsXferCompleted : ℕ)
    (writeBuffer : BufferId) (bufsToRelease lpn : ℕ) (p : Program) : Program :=
  let swr : NandCmd :=
    { type := .user, cmd := .write, xferSize := oneshotSize ns,
      stime := nsecsXferCompleted, interleavePciDma := false,
      ppa := some (lpnToPpa ns lpn) }
  let (nsecsCompleted, ssd) := ssdAdvanceNand ns.toSsdParams p.ssd swr
  { ssd := ssd
    nsecsLatest := max nsecsCompleted p.nsecsLatest
    writebacks := p.writebacks ++
      [⟨req.sqid, nsecsCompleted, writeBuffer, bufsToRelease⟩]
    programmed := p.programmed ++ [lpn] }

/-- The loop over `remaining` pages from `lpn` on, one oneshot page at a time.
In `__zns_write` it also programs a oneshot page that the last page of the
zone, `zoneElpn`, cuts short; `__zns_write_zrwa` has no such case. -/
def programPages (req : RwRequest) (nsecsXferCompleted : ℕ)
    (writeBuffer : BufferId) (zoneElpn : Option ℕ) :
    ℕ → ℕ → ℕ → Program → Program
  | 0, _, _, p => p
  | fuel + 1, lpn, remaining, p =>
      if remaining = 0 then p
      else
        let pgOff := (lpnToPpa ns lpn).pg % ns.pgsPerOneshotpg
        let pgs := min remaining (ns.pgsPerOneshotpg - pgOff)
        let atZoneEnd := zoneElpn = some (lpn + pgs - 1)
        let bufsToRelease :=
          if atZoneEnd ∧ 0 < unalignedSpace ns then unalignedSpace ns
          else oneshotSize ns
        let p :=
          if pgOff + pgs = ns.pgsPerOneshotpg ∨ atZoneEnd then
            programOneshot ns req nsecsXferCompleted writeBuffer bufsToRelease
              lpn p
          else p
        programPages req nsecsXferCompleted writeBuffer zoneElpn fuel
          (lpn + pgs) (remaining - pgs) p

/-- `ret` at the end of either write: a command that waits for the flash
completes with the last program. -/
def completeRet (req : RwRequest) (ret : NvmevResult)
    (status nsecsXferCompleted nsecsLatest : ℕ) : NvmevResult :=
  { ret with
    status := status
    nsecsTarget :=
      if req.fua || !ns.writeEarlyCompletion then nsecsLatest
      else nsecsXferCompleted }

/-- A write that went through, after the programs of `p`. -/
def writeOutcome (req : RwRequest) (ret : NvmevResult)
    (slba nsecsXferCompleted : ℕ) (p : Program) : WriteOutcome :=
  { accepted := true
    ret := completeRet ns req ret scSuccess nsecsXferCompleted p.nsecsLatest
    slba := slba
    writebacks := p.writebacks
    programmed := p.programmed }

/-- A write that ends with an error status, before any time has passed. -/
def refusedOutcome (req : RwRequest) (ret : NvmevResult) (slba status : ℕ) :
    WriteOutcome :=
  { accepted := true
    ret := completeRet ns req ret status req.nsecsStart req.nsecsStart
    slba := slba
    writebacks := []
    programmed := [] }

/-- A write that has to be submitted again. -/
def retryOutcome (ret : NvmevResult) (slba : ℕ) : WriteOutcome :=
  { accepted := false, ret := ret, slba := slba, writebacks := [],
    programmed := [] }

/-- The checks of `__zns_write` ahead of its switch: the status of the first
one that fails. -/
def znsWriteCheck (desc : ZoneDescriptor) (slba nrLba : ℕ) : ℕ :=
  if lbaToByte nrLba % ns.writeUnitSize ≠ 0 then scZnsInvalidWrite
  else if checkBoundaryError ns slba nrLba = false then scZnsErrBoundary
  else if slba ≠ desc.wp then scZnsInvalidWrite
  else scSuccess

/-- The switch of `__zns_write`.  The last three cases fall through to the
status of the last. -/
def znsWriteOpen (s : ZnsFtl) (zid slba : ℕ) : ℕ × ZnsFtl :=
  match (s.zoneDescs zid).state with
  | .empty =>
      if slba ≠ (s.zoneDescs zid).zslba then (scZnsInvalidWrite, s)
      else if isZoneResourceFull s .activeZone then (scZnsNoActiveZone, s)
      else if isZoneResourceFull s .openZone then (scZnsNoOpenZone, s)
      else openClosedZone (acquireZoneResource s .activeZone).2 zid .openedImpl
  | .closed => openClosedZone s zid .openedImpl
  | .openedImpl | .openedExpl => (scSuccess, s)
  | .full | .readOnly | .offline => (scZnsErrOffline, s)

/-- The buffer a write to a zone without a random write area takes bytes
from. -/
def writeBufferOf (zid : ℕ) : BufferId :=
  if ns.zp.zoneWbSize = 0 then .ssd else .zone zid

/-- Where a write starts: an append goes to the write pointer. -/
def startLba (req : RwRequest) (desc : ZoneDescriptor) : ℕ :=
  match req.opcode with
  | .zoneAppend => desc.wp
  | .write => req.slba

/-- `ret` of a write to a zone without a random write area: an append stores
its start LBA ahead of every check. -/
def appendRet (req : RwRequest) (desc : ZoneDescriptor) (ret : NvmevResult) :
    NvmevResult :=
  match req.opcode with
  | .zoneAppend => { ret with result := desc.wp }
  | .write => ret

/-- The end of `__zns_write`: the transfer, then the oneshot pages. -/
def writePages (ssd : Ssd) (req : RwRequest) (zid slba : ℕ) : ℕ × Program :=
  let (nsecsXferCompleted, ssd) :=
    ssdAdvanceWriteBuffer ns.toSsdParams ssd req.nsecsStart req.bytes
  let slpn := lbaToLpn ns slba
  let elpn := lbaToLpn ns (lastLba slba req.nrLba)
  (nsecsXferCompleted,
    programPages ns req nsecsXferCompleted (writeBufferOf ns zid)
      (some (zoneToElpn ns zid)) (elpn + 1 - slpn) slpn (elpn + 1 - slpn)
      { ssd := ssd, nsecsLatest := nsecsXferCompleted, writebacks := [],
        programmed := [] })

/-- `__zns_write`. -/
def znsWriteZone (s : ZnsFtl) (req : RwRequest) (ret : NvmevResult) :
    Except Fault (WriteOutcome × ZnsFtl) := do
  let zid := lbaToZone ns req.slba
  let desc ← zoneDesc ns s zid
  let slba := startLba req desc
  let ret := appendRet req desc ret
  let writeBuffer := writeBufferOf ns zid
  let (granted, buf) := bufferAllocate (s.buffer writeBuffer) req.bytes
  let s := s.setBuffer writeBuffer buf
  if granted < req.bytes then
    return (retryOutcome ret slba, s)
  let checked := znsWriteCheck ns desc slba req.nrLba
  if checked ≠ scSuccess then
    return (refusedOutcome ns req ret slba checked, s)
  let (opened, s) := znsWriteOpen s zid slba
  if opened ≠ scSuccess then
    return (refusedOutcome ns req ret slba opened, s)
  let s := increaseWritePtr ns s zid req.nrLba
  let (nsecsXferCompleted, p) := writePages ns s.ssd req zid slba
  return (writeOutcome ns req ret slba nsecsXferCompleted p,
    { s with ssd := p.ssd })

/-- The last block a write to a zone with write pointer `wp` may reach:
`zrwa_impl_end`. -/
def zrwaImplEnd (wp : ℕ) : ℕ :=
  sub64 (u64 (wp + u32 (2 * ns.zp.lbasPerZrwa))) 1

/-- The checks of `__zns_write_zrwa` ahead of its switch. -/
def znsWriteZrwaCheck (desc : ZoneDescriptor) (slba nrLba : ℕ) : ℕ :=
  if lbaToByte nrLba % ns.writeUnitSize ≠ 0 then scZnsInvalidWrite
  else if checkBoundaryError ns slba nrLba = false then scZnsErrBoundary
  else if slba < desc.wp ∨ zrwaImplEnd ns desc.wp < lastLba slba nrLba then
    scZnsInvalidWrite
  else scSuccess

/-- The cases `ZONE_STATE_CLOSED` and `ZONE_STATE_EMPTY` of the switch of
`__zns_write_zrwa`. -/
def openZrwaZone (s : ZnsFtl) (zid : ℕ) : Except Fault (ℕ × ZnsFtl) := do
  let (acquired, s) := acquireZoneResource s .openZone
  if acquired then do
    let (granted, buf) :=
      bufferAllocate (← zwraBufferAt ns s zid) ns.zp.zrwaSize
    nvmevAssert (granted ≠ 0)
    let s := s.setBuffer (.zrwa zid) buf
    return (scSuccess, changeZoneState s zid .openedImpl)
  else return (scZnsNoOpenZone, s)

/-- The switch of `__zns_write_zrwa`. -/
def znsWriteZrwaOpen (s : ZnsFtl) (zid : ℕ) : Except Fault (ℕ × ZnsFtl) :=
  match (s.zoneDescs zid).state with
  | .closed | .empty => openZrwaZone ns s zid
  | .openedImpl | .openedExpl => .ok (scSuccess, s)
  | .full => .ok (scZnsErrFull, s)
  | .readOnly => .ok (scZnsErrReadOnly, s)
  | .offline => .ok (scZnsErrOffline, s)

/-- `nr_lbas_flush`: how far a write up to `elba` moves the write pointer of a
zone with a random write area. -/
def nrLbasFlush (zid wp elba : ℕ) : Except Fault ℕ :=
  let zrwaImplStart := u64 (wp + ns.zp.lbasPerZrwa)
  if zrwaImplStart ≤ elba then
    if ns.zp.lbasPerZrwafg = 0 then .error .divideByZero
    else
      let span := u64 (elba - zrwaImplStart + 1)
      .ok (u64 (u64 (span + ns.zp.lbasPerZrwafg - 1) / ns.zp.lbasPerZrwafg *
        ns.zp.lbasPerZrwafg))
  else if elba = zoneToElba ns zid then .ok (u64 (sub64 elba wp + 1))
  else .ok 0

/-- Reserve the bytes of an implicit flush and move the write pointer over
it; `false` when the ZRWA buffer has no room. -/
def flushImplicit (s : ZnsFtl) (zid nrLbas : ℕ) :
    Except Fault (Bool × ZnsFtl) := do
  if nrLbas = 0 then return (true, s)
  let (granted, buf) :=
    bufferAllocate (← zwraBufferAt ns s zid) (lbaToByte nrLbas)
  let s := s.setBuffer (.zrwa zid) buf
  if granted = 0 then return (false, s)
  return (true, increaseWritePtr ns s zid nrLbas)

/-- The end of `__zns_write_zrwa`: the transfer, then the oneshot pages of the
`nrLbas` blocks flushed from `wp` on. -/
def flushPages (ssd : Ssd) (req : RwRequest) (zid wp nrLbas : ℕ) :
    ℕ × Program :=
  let (nsecsXferCompleted, ssd) :=
    ssdAdvanceWriteBuffer ns.toSsdParams ssd req.nsecsStart req.bytes
  let pages := nrLbas / ns.secsPerPg
  (nsecsXferCompleted,
    programPages ns req nsecsXferCompleted (.zrwa zid) none pages
      (lbaToLpn ns wp) pages
      { ssd := ssd, nsecsLatest := nsecsXferCompleted, writebacks := [],
        programmed := [] })

/-- `__zns_write_zrwa`. -/
def znsWriteZrwa (s : ZnsFtl) (req : RwRequest) (ret : NvmevResult) :
    Except Fault (WriteOutcome × ZnsFtl) := do
  let zid := lbaToZone ns req.slba
  let desc ← zoneDesc ns s zid
  let elba := lastLba req.slba req.nrLba
  let checked := znsWriteZrwaCheck ns desc req.slba req.nrLba
  if checked ≠ scSuccess then
    return (refusedOutcome ns req ret req.slba checked, s)
  let (opened, s) ← znsWriteZrwaOpen ns s zid
  if opened ≠ scSuccess then
    return (refusedOutcome ns req ret req.slba opened, s)
  let nrLbas ← nrLbasFlush ns zid desc.wp elba
  let (flushed, s) ← flushImplicit ns s zid nrLbas
  if flushed = false then
    return (retryOutcome ret req.slba, s)
  let (nsecsXferCompleted, p) :=
    flushPages ns s.ssd req zid desc.wp nrLbas
  return (writeOutcome ns req ret req.slba nsecsXferCompleted p,
    { s with ssd := p.ssd })

/-- `zns_write`. -/
def znsWrite (s : ZnsFtl) (req : RwRequest) (ret : NvmevResult) :
    Except Fault (WriteOutcome × ZnsFtl) := do
  let desc ← zoneDesc ns s (lpnToZone ns (lbaToLpn ns req.slba))
  if desc.zrwav then znsWriteZrwa ns s req ret
  else znsWriteZone ns s req ret

end

end NvmeVirt.ReadWrite
