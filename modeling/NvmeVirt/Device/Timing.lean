import NvmeVirt.Device.Bandwidth
import NvmeVirt.Device.Layout

/-!
# Write buffer and NAND timing

`Ssd` is the part of `struct ssd` that decides when a command completes: the
bandwidth models of the channels and of the PCIe link, the time at which each
die becomes idle, and the write buffer.  The state of the NAND pages is kept
by the translation layers.

The driver reads the CPU clock in many places; `Clock` is the sequence of the
values these reads return, so a statement about every `Clock` is a statement
about every passage of time.  `issued` records the commands handed to
`ssd_advance_nand`, oldest first; no function reads it.
-/

namespace NvmeVirt.Timing

open NvmeVirt.Kernel
open NvmeVirt.Layout
open NvmeVirt.Bandwidth

/-- `struct buffer`; sizes are in bytes. -/
structure Buffer where
  size : ℕ
  remaining : ℕ
  deriving DecidableEq, Repr

/-- `buffer_init`. -/
def bufferInit (size : ℕ) : Buffer := { size := size, remaining := size }

/-- `buffer_allocate`: take `size` bytes, or nothing when they do not fit. -/
def bufferAllocate (buf : Buffer) (size : ℕ) : ℕ × Buffer :=
  let size := if buf.remaining < size then 0 else size
  (u32 size, { buf with remaining := buf.remaining - size })

theorem bufferAllocate_of_le {buf : Buffer} {size : ℕ}
    (h : size ≤ buf.remaining) :
    bufferAllocate buf size =
      (u32 size, { buf with remaining := buf.remaining - size }) := by
  rw [bufferAllocate, if_neg (Nat.not_lt.mpr h)]

theorem bufferAllocate_of_lt {buf : Buffer} {size : ℕ}
    (h : buf.remaining < size) : bufferAllocate buf size = (0, buf) := by
  rw [bufferAllocate, if_pos h]
  rfl

/-- `buffer_release`. -/
def bufferRelease (buf : Buffer) (size : ℕ) : Buffer :=
  { buf with remaining := buf.remaining + size }

/-- `buffer_refill`. -/
def bufferRefill (buf : Buffer) : Buffer :=
  { buf with remaining := buf.size }

/-- The values successive reads of the CPU clock return. -/
structure Clock where
  readings : ℕ → ℕ
  reads : ℕ

/-- `cpu_clock`. -/
def Clock.read (clock : Clock) : ℕ × Clock :=
  (clock.readings clock.reads, { clock with reads := clock.reads + 1 })

/-- `USER_IO` and `GC_IO`. -/
inductive IoType
  | user
  | gc
  deriving DecidableEq, Repr

/-- `NAND_READ`, `NAND_WRITE`, `NAND_ERASE` and `NAND_NOP`. -/
inductive NandOp
  | read
  | write
  | erase
  | nop
  deriving DecidableEq, Repr

/-- `struct nand_cmd`; `ppa` is `none` for `UNMAPPED_PPA`. -/
structure NandCmd where
  type : IoType
  cmd : NandOp
  xferSize : ℕ
  stime : ℕ
  interleavePciDma : Bool
  ppa : Option Ppa
  deriving DecidableEq, Repr

/-- `struct nvmev_result`, what a translation layer reports for a command;
nothing reads `early_completion`. -/
structure NvmevResult where
  status : ℕ
  nsecsTarget : ℕ
  result : ℕ
  deriving DecidableEq, Repr

structure Ssd where
  ch : ℕ → Channel
  pcie : Channel
  nextLunAvailTime : ℕ → ℕ → ℕ
  gcEndtime : ℕ → ℕ → ℕ
  writeBuffer : Buffer
  clock : Clock
  issued : List NandCmd

/-- `ssd_init`: idle channels, dies and PCIe link, and an empty write
buffer. -/
def ssdInit (spp : SsdParams)
    (hch : 0 < u32 (bandwidthToMaxCredits spp.chBandwidth))
    (hpcie : 0 < u32 (bandwidthToMaxCredits spp.pcieBandwidth))
    (clock : Clock) : Ssd :=
  { ch := fun _ => (Channel.idle spp.chBandwidth hch).addLatency
      (spp.fwChXferLat * unitXferSize / 2 ^ 12)
    pcie := Channel.idle spp.pcieBandwidth hpcie
    nextLunAvailTime := fun _ _ => 0
    gcEndtime := fun _ _ => 0
    writeBuffer := bufferInit spp.writeBufferSize
    clock := clock
    issued := [] }

/-- `__get_wallclock` and `__get_ioclock`, which read the same clock. -/
def getWallclock (ssd : Ssd) : ℕ × Ssd :=
  let (time, clock) := ssd.clock.read
  (time, { ssd with clock := clock })

/-- `chmodel_request` on the channel `ch`. -/
def chRequest (ssd : Ssd) (ch requestTime length : ℕ) : ℕ × Ssd :=
  let (curTime, ssd) := getWallclock ssd
  let (time, channel) := (ssd.ch ch).request curTime requestTime length
  (time, { ssd with ch := Function.update ssd.ch ch channel })

/-- `ssd_advance_pcie`. -/
def ssdAdvancePcie (ssd : Ssd) (requestTime length : ℕ) : ℕ × Ssd :=
  let (curTime, ssd) := getWallclock ssd
  let (time, channel) := ssd.pcie.request curTime requestTime length
  (time, { ssd with pcie := channel })

/-- `ssd_advance_write_buffer`. -/
def ssdAdvanceWriteBuffer (spp : SsdParams) (ssd : Ssd)
    (requestTime length : ℕ) : ℕ × Ssd :=
  let nsecsLatest := u64 (requestTime + spp.fwWbufLat0)
  let nsecsLatest :=
    u64 (nsecsLatest + spp.fwWbufLat1 * divRoundUp length (2 ^ 12))
  ssdAdvancePcie ssd nsecsLatest length

def setNextLunAvailTime (ssd : Ssd) (p : Ppa) (time : ℕ) : Ssd :=
  { ssd with
    nextLunAvailTime := Function.update ssd.nextLunAvailTime p.ch
      (Function.update (ssd.nextLunAvailTime p.ch) p.lun time) }

/-- `lunp->gc_endtime = lunp->next_lun_avail_time`. -/
def setGcEndtime (ssd : Ssd) (p : Ppa) : Ssd :=
  { ssd with
    gcEndtime := Function.update ssd.gcEndtime p.ch
      (Function.update (ssd.gcEndtime p.ch) p.lun
        (ssd.nextLunAvailTime p.ch p.lun)) }

/-- The transfer loop of a `NAND_READ`: at most `max_ch_xfer_size` bytes at a
time, so `remaining` iterations suffice.  The result holds `chnl_etime` and
`completed_time`, which a read of no bytes would leave unset. -/
def readTransfer (spp : SsdParams) (ch : ℕ) (interleave : Bool) :
    ℕ → Ssd → ℕ → ℕ → ℕ → (ℕ × ℕ) × Ssd
  | 0, ssd, _, chnlTime, completedTime => ((chnlTime, completedTime), ssd)
  | fuel + 1, ssd, remaining, chnlTime, completedTime =>
      if remaining = 0 then ((chnlTime, completedTime), ssd)
      else
        let xferSize := min remaining spp.maxChXferSize
        let (chnlEtime, ssd) := chRequest ssd ch chnlTime xferSize
        let (completedTime, ssd) :=
          if interleave then ssdAdvancePcie ssd chnlEtime xferSize
          else (chnlEtime, ssd)
        readTransfer spp ch interleave fuel ssd (remaining - xferSize) chnlEtime
          completedTime

/-- `ssd_advance_nand`, non-hybrid build. -/
def ssdAdvanceNand (spp : SsdParams) (ssd : Ssd) (ncmd : NandCmd) : ℕ × Ssd :=
  let ssd := { ssd with issued := ssd.issued ++ [ncmd] }
  let (cmdStime, ssd) :=
    if ncmd.stime = 0 then getWallclock ssd else (ncmd.stime, ssd)
  match ncmd.ppa with
  | none => (cmdStime, ssd)
  | some p =>
      let stime := max (ssd.nextLunAvailTime p.ch p.lun) cmdStime
      match ncmd.cmd with
      | .read =>
          let nandEtime := u64 (stime + spp.slcReadLatency)
          let ((chnlEtime, completedTime), ssd) :=
            readTransfer spp p.ch ncmd.interleavePciDma ncmd.xferSize ssd
              ncmd.xferSize nandEtime nandEtime
          (completedTime, setNextLunAvailTime ssd p chnlEtime)
      | .write =>
          let (chnlEtime, ssd) := chRequest ssd p.ch stime ncmd.xferSize
          let nandEtime := u64 (chnlEtime + spp.pgWrLat)
          (nandEtime, setNextLunAvailTime ssd p nandEtime)
      | .erase =>
          let nandEtime := u64 (stime + spp.blkErLat)
          (nandEtime, setNextLunAvailTime ssd p nandEtime)
      | .nop => (stime, setNextLunAvailTime ssd p stime)

/-! ## The write buffer is touched by allocation and release only -/

@[simp]
theorem getWallclock_writeBuffer (ssd : Ssd) :
    (getWallclock ssd).2.writeBuffer = ssd.writeBuffer := rfl

@[simp]
theorem chRequest_writeBuffer (ssd : Ssd) (ch requestTime length : ℕ) :
    (chRequest ssd ch requestTime length).2.writeBuffer =
      ssd.writeBuffer := rfl

@[simp]
theorem ssdAdvancePcie_writeBuffer (ssd : Ssd) (requestTime length : ℕ) :
    (ssdAdvancePcie ssd requestTime length).2.writeBuffer =
      ssd.writeBuffer := rfl

@[simp]
theorem ssdAdvanceWriteBuffer_writeBuffer (spp : SsdParams) (ssd : Ssd)
    (requestTime length : ℕ) :
    (ssdAdvanceWriteBuffer spp ssd requestTime length).2.writeBuffer =
      ssd.writeBuffer := rfl

@[simp]
theorem setNextLunAvailTime_writeBuffer (ssd : Ssd) (p : Ppa) (time : ℕ) :
    (setNextLunAvailTime ssd p time).writeBuffer = ssd.writeBuffer := rfl

/-- A transfer keeps what the requests to its channel and to the PCIe link
keep. -/
theorem readTransfer_keeps {β : Type*} (proj : Ssd → β)
    (hch : ∀ ssd ch time length, proj (chRequest ssd ch time length).2 =
      proj ssd)
    (hpcie : ∀ ssd time length, proj (ssdAdvancePcie ssd time length).2 =
      proj ssd)
    (spp : SsdParams) (ch : ℕ) (interleave : Bool) (fuel : ℕ) (ssd : Ssd)
    (remaining chnlTime completedTime : ℕ) :
    proj (readTransfer spp ch interleave fuel ssd remaining chnlTime
      completedTime).2 = proj ssd := by
  induction fuel generalizing ssd remaining chnlTime completedTime with
  | zero => rfl
  | succ fuel ih =>
      rw [readTransfer]
      split_ifs
      · rfl
      · rw [ih]
        exact (hpcie ..).trans (hch ..)
      · rw [ih]
        exact hch ..

@[simp]
theorem readTransfer_writeBuffer (spp : SsdParams) (ch : ℕ) (interleave : Bool)
    (fuel : ℕ) (ssd : Ssd) (remaining chnlTime completedTime : ℕ) :
    (readTransfer spp ch interleave fuel ssd remaining chnlTime
      completedTime).2.writeBuffer = ssd.writeBuffer :=
  readTransfer_keeps Ssd.writeBuffer (fun _ _ _ _ => rfl) (fun _ _ _ => rfl)
    spp ch interleave fuel ssd remaining chnlTime completedTime

@[simp]
theorem ssdAdvanceNand_writeBuffer (spp : SsdParams) (ssd : Ssd)
    (ncmd : NandCmd) :
    (ssdAdvanceNand spp ssd ncmd).2.writeBuffer = ssd.writeBuffer := by
  rw [ssdAdvanceNand]
  split_ifs <;> cases ncmd.ppa <;> simp <;> cases ncmd.cmd <;> simp

/-! ## A command is recorded once -/

@[simp]
theorem readTransfer_issued (spp : SsdParams) (ch : ℕ) (interleave : Bool)
    (fuel : ℕ) (ssd : Ssd) (remaining chnlTime completedTime : ℕ) :
    (readTransfer spp ch interleave fuel ssd remaining chnlTime
      completedTime).2.issued = ssd.issued :=
  readTransfer_keeps Ssd.issued (fun _ _ _ _ => rfl) (fun _ _ _ => rfl)
    spp ch interleave fuel ssd remaining chnlTime completedTime

theorem ssdAdvanceNand_issued (spp : SsdParams) (ssd : Ssd) (ncmd : NandCmd) :
    (ssdAdvanceNand spp ssd ncmd).2.issued = ssd.issued ++ [ncmd] := by
  rw [ssdAdvanceNand]
  split_ifs <;> cases ncmd.ppa <;> try rfl
  all_goals
    cases ncmd.cmd <;> try rfl
    all_goals exact readTransfer_issued ..

end NvmeVirt.Timing
