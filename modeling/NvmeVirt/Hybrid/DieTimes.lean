import NvmeVirt.Device.BandwidthRange
import NvmeVirt.Hybrid.Config

/-!
# The time at which a die is available

`ssd_advance_nand` serialises the commands of a die: each one starts when the
die is available, and makes it available when it is done.  Reads and writes
pass through channels that other dies use too, which can only delay them.
A channel below 31 MB/s has no credits, and `chmodel_request` divides by them.

Times are 64-bit numbers.  What a command adds to them is written down here
before it is cut, so that the condition that nothing is cut can be stated.
-/

namespace NvmeVirt.DieTimes

open NvmeVirt.Bandwidth
open NvmeVirt.BandwidthRange
open NvmeVirt.CreditRing
open NvmeVirt.HybridConfig
open NvmeVirt.Kernel
open NvmeVirt.Layout
open NvmeVirt.Timing
open NvmeVirt.Transition

/-! ## Requests to a channel -/

/-- What `chmodel_request` adds to the time of a request. -/
def requestLatency (ch : ChannelModel) (curTime requestTime length : ℕ) : ℕ :=
  if requestTime < curTime ∨
      nrCreditEntries ≤ requestTimeOffs curTime requestTime then 0
  else ((consumeFor ch curTime requestTime length).map fun final =>
    latency ch length final.delay).getD 0

/-- A request that is completed within 64 bits. -/
def RequestFits (channel : Channel) (curTime requestTime length : ℕ) : Prop :=
  requestTime + requestLatency channel.model curTime requestTime length < 2 ^ 64

theorem request_time {channel : Channel} {curTime requestTime length : ℕ}
    (hfits : RequestFits channel curTime requestTime length) :
    (channel.request curTime requestTime length).1 = requestTime +
      requestLatency channel.model curTime requestTime length := by
  have hrun := channel.request_eq curTime requestTime length
  rw [RequestFits] at hfits
  by_cases hearly : requestTime < curTime ∨
      nrCreditEntries ≤ requestTimeOffs curTime requestTime
  · rw [requestLatency, if_pos hearly]
    rw [chmodelRequest_early channel.wf hearly] at hrun
    exact (congrArg Prod.fst (Except.ok.inj hrun)).symm
  · obtain ⟨hpast, hinside⟩ := not_or.mp hearly
    obtain ⟨final, hfinal, -, hlate⟩ := chmodelRequest_late channel.wf
      (Nat.le_of_not_lt hpast) (Nat.lt_of_not_le hinside) length
    have hlatency : requestLatency channel.model curTime requestTime length =
        latency channel.model length final.delay := by
      rw [requestLatency, if_neg hearly, hfinal]
      rfl
    rw [hlate] at hrun
    rw [hlatency] at hfits ⊢
    rw [← u64_of_lt hfits]
    exact (congrArg Prod.fst (Except.ok.inj hrun)).symm

/-- A request that fits is not completed before its time. -/
theorem le_request_time {channel : Channel} {curTime requestTime length : ℕ}
    (hfits : RequestFits channel curTime requestTime length) :
    requestTime ≤ (channel.request curTime requestTime length).1 := by
  rw [request_time hfits]
  exact Nat.le_add_right _ _

/-- A request to the channel `ch`, and one to the PCIe link, that fit. -/
def ChFits (ssd : Ssd) (ch requestTime length : ℕ) : Prop :=
  RequestFits (ssd.ch ch) (getWallclock ssd).1 requestTime length

def PcieFits (ssd : Ssd) (requestTime length : ℕ) : Prop :=
  RequestFits ssd.pcie (getWallclock ssd).1 requestTime length

theorem le_chRequest {ssd : Ssd} {ch requestTime length : ℕ}
    (hfits : ChFits ssd ch requestTime length) :
    requestTime ≤ (chRequest ssd ch requestTime length).1 :=
  le_request_time hfits

theorem le_ssdAdvancePcie {ssd : Ssd} {requestTime length : ℕ}
    (hfits : PcieFits ssd requestTime length) :
    requestTime ≤ (ssdAdvancePcie ssd requestTime length).1 :=
  le_request_time hfits

/-! ## The transfer of a read -/

/-- The PCIe transfer of a chunk, where it is interleaved. -/
def chunkDma (interleave : Bool) (ssd : Ssd) (chnlEtime xferSize : ℕ) :
    ℕ × Ssd :=
  if interleave then ssdAdvancePcie ssd chnlEtime xferSize else (chnlEtime, ssd)

section

variable (spp : SsdParams) (ch : ℕ) (interleave : Bool)

/-- The requests of a transfer all fit. -/
def TransferFits : ℕ → Ssd → ℕ → ℕ → Prop
  | 0, _, _, _ => True
  | fuel + 1, ssd, remaining, chnlTime =>
      remaining ≠ 0 →
        let xferSize := min remaining spp.maxChXferSize
        let (chnlEtime, next) := chRequest ssd ch chnlTime xferSize
        ChFits ssd ch chnlTime xferSize ∧
          (interleave → PcieFits next chnlEtime xferSize) ∧
          TransferFits fuel (chunkDma interleave next chnlEtime xferSize).2
            (remaining - xferSize) chnlEtime

variable {spp ch interleave}

theorem readTransfer_succ (fuel : ℕ) (ssd : Ssd)
    {remaining : ℕ} (hremaining : remaining ≠ 0) (chnlTime completedTime : ℕ) :
    readTransfer spp ch interleave (fuel + 1) ssd remaining chnlTime
        completedTime =
      readTransfer spp ch interleave fuel
        (chunkDma interleave
          (chRequest ssd ch chnlTime (min remaining spp.maxChXferSize)).2
          (chRequest ssd ch chnlTime (min remaining spp.maxChXferSize)).1
          (min remaining spp.maxChXferSize)).2
        (remaining - min remaining spp.maxChXferSize)
        (chRequest ssd ch chnlTime (min remaining spp.maxChXferSize)).1
        (chunkDma interleave
          (chRequest ssd ch chnlTime (min remaining spp.maxChXferSize)).2
          (chRequest ssd ch chnlTime (min remaining spp.maxChXferSize)).1
          (min remaining spp.maxChXferSize)).1 := by
  rw [readTransfer, if_neg hremaining]
  rfl

theorem readTransfer_done (fuel : ℕ) (ssd : Ssd) (chnlTime completedTime : ℕ) :
    readTransfer spp ch interleave fuel ssd 0 chnlTime completedTime =
      ((chnlTime, completedTime), ssd) := by
  cases fuel with
  | zero => rfl
  | succ fuel => rw [readTransfer, if_pos rfl]

/-- The chunks are transferred in order, each after the one before it, and the
transfer is completed after the last one. -/
theorem readTransfer_le {fuel : ℕ} {ssd : Ssd}
    {remaining chnlTime completedTime : ℕ} (hle : chnlTime ≤ completedTime)
    (hfits : TransferFits spp ch interleave fuel ssd remaining chnlTime) :
    chnlTime ≤ (readTransfer spp ch interleave fuel ssd remaining chnlTime
        completedTime).1.1 ∧
      (readTransfer spp ch interleave fuel ssd remaining chnlTime
        completedTime).1.1 ≤
      (readTransfer spp ch interleave fuel ssd remaining chnlTime
        completedTime).1.2 := by
  induction fuel generalizing ssd remaining chnlTime completedTime with
  | zero => exact ⟨le_refl _, hle⟩
  | succ fuel ih =>
      obtain rfl | hremaining := eq_or_ne remaining 0
      · rw [readTransfer_done]
        exact ⟨le_refl _, hle⟩
      · obtain ⟨hch, hpcie, hrest⟩ := hfits hremaining
        rw [readTransfer_succ fuel ssd hremaining]
        have hchunk : (chRequest ssd ch chnlTime
            (min remaining spp.maxChXferSize)).1 ≤
            (chunkDma interleave
              (chRequest ssd ch chnlTime (min remaining spp.maxChXferSize)).2
              (chRequest ssd ch chnlTime (min remaining spp.maxChXferSize)).1
              (min remaining spp.maxChXferSize)).1 := by
          rw [chunkDma]
          split_ifs with hinterleave
          · exact le_ssdAdvancePcie (hpcie hinterleave)
          · exact le_refl _
        obtain ⟨hchnl, hcompleted⟩ := ih hchunk hrest
        exact ⟨(le_chRequest hch).trans hchnl, hcompleted⟩

end

/-! ## Commands -/

/-- The start time of a command, which is the current time where it has
none. -/
def started (ssd : Ssd) (ncmd : NandCmd) : ℕ × Ssd :=
  let ssd := { ssd with issued := ssd.issued ++ [ncmd] }
  if ncmd.stime = 0 then getWallclock ssd else (ncmd.stime, ssd)

/-- The time at which the die of an address starts with a command. -/
def nandStime (ssd : Ssd) (ncmd : NandCmd) (p : Ppa) : ℕ :=
  max ((started ssd ncmd).2.nextLunAvailTime p.ch p.lun) (started ssd ncmd).1

/-- What `ssd_advance_nand` does from there on. -/
def advanceFrom (spp : SsdParams) (ssd : Ssd) (stime : ℕ) (ncmd : NandCmd)
    (p : Ppa) : ℕ × Ssd :=
  match ncmd.cmd with
  | .read =>
      let nandEtime := u64 (stime + spp.slcReadLatency)
      let ((chnlEtime, completedTime), ssd) :=
        readTransfer spp p.ch ncmd.interleavePciDma ncmd.xferSize ssd
          ncmd.xferSize nandEtime nandEtime
      (completedTime, setNextLunAvailTime ssd p chnlEtime)
  | .write =>
      let (chnlEtime, ssd) := chRequest ssd p.ch stime ncmd.xferSize
      let nandEtime := u64 (chnlEtime + spp.pgWrLat)
      (nandEtime, setNextLunAvailTime ssd p nandEtime)
  | .erase =>
      let nandEtime := u64 (stime + spp.blkErLat)
      (nandEtime, setNextLunAvailTime ssd p nandEtime)
  | .nop => (stime, setNextLunAvailTime ssd p stime)

/-- A command whose times stay within 64 bits; a read transfers something. -/
def NandFits (spp : SsdParams) (ssd : Ssd) (ncmd : NandCmd) (p : Ppa) : Prop :=
  let next := (started ssd ncmd).2
  let stime := nandStime ssd ncmd p
  match ncmd.cmd with
  | .read => 0 < ncmd.xferSize ∧ stime + spp.slcReadLatency < 2 ^ 64 ∧
      TransferFits spp p.ch ncmd.interleavePciDma ncmd.xferSize next
        ncmd.xferSize (stime + spp.slcReadLatency)
  | .write => ChFits next p.ch stime ncmd.xferSize ∧
      (chRequest next p.ch stime ncmd.xferSize).1 + spp.pgWrLat < 2 ^ 64
  | .erase => stime + spp.blkErLat < 2 ^ 64
  | .nop => True

section

variable {spp : SsdParams} {ssd : Ssd} {ncmd : NandCmd} {p : Ppa}

theorem started_nextLunAvailTime (ssd : Ssd) (ncmd : NandCmd) :
    (started ssd ncmd).2.nextLunAvailTime = ssd.nextLunAvailTime := by
  rw [started]
  split_ifs <;> rfl

theorem readTransfer_nextLunAvailTime (ch : ℕ) (interleave : Bool) (fuel : ℕ)
    (ssd : Ssd) (remaining chnlTime completedTime : ℕ) :
    (readTransfer spp ch interleave fuel ssd remaining chnlTime
      completedTime).2.nextLunAvailTime = ssd.nextLunAvailTime :=
  readTransfer_keeps Ssd.nextLunAvailTime (fun _ _ _ _ => rfl) (fun _ _ _ => rfl)
    spp ch interleave fuel ssd remaining chnlTime completedTime

/-- What a command returns, and when it makes its die available: the last two
times are the ones it leaves. -/
structure Advanced (ssd : Ssd) (p : Ppa) (stime : ℕ) (result : ℕ × Ssd)
    (avail : ℕ) : Prop where
  avail_eq : result.2.nextLunAvailTime = Function.update ssd.nextLunAvailTime
    p.ch (Function.update (ssd.nextLunAvailTime p.ch) p.lun avail)
  stime_le : stime ≤ avail
  avail_le : avail ≤ result.1

theorem nextLunAvailTime_set {ssd' : Ssd}
    (hkept : ssd'.nextLunAvailTime = ssd.nextLunAvailTime) (time : ℕ) :
    (setNextLunAvailTime ssd' p time).nextLunAvailTime =
      Function.update ssd.nextLunAvailTime p.ch
        (Function.update (ssd.nextLunAvailTime p.ch) p.lun time) := by
  rw [setNextLunAvailTime, hkept]

theorem ssdAdvanceNand_eq (hppa : ncmd.ppa = some p) :
    ssdAdvanceNand spp ssd ncmd =
      advanceFrom spp (started ssd ncmd).2 (nandStime ssd ncmd p) ncmd p := by
  rw [ssdAdvanceNand, hppa]
  rfl

/-- A command on a mapped address. -/
theorem ssdAdvanceNand_advanced (hppa : ncmd.ppa = some p)
    (hfits : NandFits spp ssd ncmd p) :
    ∃ avail, Advanced ssd p (nandStime ssd ncmd p)
      (ssdAdvanceNand spp ssd ncmd) avail := by
  have hkept := started_nextLunAvailTime ssd ncmd
  rw [ssdAdvanceNand_eq hppa, advanceFrom]
  rw [NandFits] at hfits
  cases hcmd : ncmd.cmd with
  | read =>
      rw [hcmd] at hfits
      obtain ⟨-, hlt, htransfer⟩ := hfits
      have hbounds := readTransfer_le (le_refl _) htransfer
      dsimp only
      rw [u64_of_lt hlt]
      refine ⟨_, ?_, (Nat.le_add_right _ _).trans hbounds.1, hbounds.2⟩
      exact nextLunAvailTime_set
        ((readTransfer_nextLunAvailTime ..).trans hkept) _
  | write =>
      rw [hcmd] at hfits
      obtain ⟨hch, hlt⟩ := hfits
      dsimp only
      rw [u64_of_lt hlt]
      exact ⟨_, nextLunAvailTime_set hkept _,
        (le_chRequest hch).trans (Nat.le_add_right _ _), le_refl _⟩
  | erase =>
      rw [hcmd] at hfits
      dsimp only
      rw [u64_of_lt hfits]
      exact ⟨_, nextLunAvailTime_set hkept _, Nat.le_add_right _ _, le_refl _⟩
  | nop => exact ⟨_, nextLunAvailTime_set hkept _, le_refl _, le_refl _⟩

end

/-! ## Runs of both builds -/

/-- The parameters `ssd_advance_nand` takes for an address: those of its tier
in the hybrid build, the same for all in the other one. -/
def nandParams (build : Option HybridParams) (spp : SsdParams) (p : Ppa) :
    SsdParams :=
  match build with
  | none => spp
  | some h => tierParams h spp p

/-- `ssd_advance_nand` of a build. -/
def advanceOf (build : Option HybridParams) (spp : SsdParams) (ssd : Ssd)
    (ncmd : NandCmd) : ℕ × Ssd :=
  match build with
  | none => ssdAdvanceNand spp ssd ncmd
  | some h => advanceNand h spp ssd ncmd

/-- A call of `ssd_advance_nand`. -/
structure NandCall where
  before : Ssd
  ncmd : NandCmd
  time : ℕ
  after : Ssd

/-- The calls for a sequence of commands. -/
def nandCalls (build : Option HybridParams) (spp : SsdParams) :
    Ssd → List NandCmd → List NandCall
  | _, [] => []
  | ssd, ncmd :: ncmds =>
      let (time, next) := advanceOf build spp ssd ncmd
      { before := ssd, ncmd := ncmd, time := time, after := next } ::
        nandCalls build spp next ncmds

/-- A call on a mapped address whose times stay within 64 bits. -/
def CallFits (build : Option HybridParams) (spp : SsdParams)
    (call : NandCall) : Prop :=
  ∃ p, call.ncmd.ppa = some p ∧
    NandFits (nandParams build spp p) call.before call.ncmd p

/-- A call is done no earlier than its start and the time its die was and
becomes available, which only grows; the other dies are left alone. -/
structure Serialised (call : NandCall) (p : Ppa) : Prop where
  start_le : (started call.before call.ncmd).1 ≤ call.time
  avail_le : call.before.nextLunAvailTime p.ch p.lun ≤
    call.after.nextLunAvailTime p.ch p.lun
  after_le : call.after.nextLunAvailTime p.ch p.lun ≤ call.time
  others : ∀ ch lun, (ch, lun) ≠ (p.ch, p.lun) →
    call.after.nextLunAvailTime ch lun = call.before.nextLunAvailTime ch lun

section

variable {build : Option HybridParams} {spp : SsdParams} {ssd : Ssd}
  {ncmd : NandCmd} {ncmds : List NandCmd} {p : Ppa}

/-- The latencies of tiers leave the other parameters, however addresses are
classified. -/
theorem maxChXferSize_of_tiers (storageType : HybridParams → Ppa → StorageType)
    (readLatency : HybridParams → Ppa → ℕ)
    (params : HybridParams → SsdParams → Ppa → SsdParams)
    (hparams : params = fun h spp p => match storageType h p with
      | .slc => { spp with pgWrLat := h.slcPgWrLat, blkErLat := h.slcBlkErLat }
      | .qlc =>
          { spp with
            slcReadLatency := readLatency h p
            pgWrLat := h.qlcPgWrLat
            blkErLat := h.qlcBlkErLat })
    (h : HybridParams) (spp : SsdParams) (p : Ppa) :
    (params h spp p).maxChXferSize = spp.maxChXferSize := by
  rw [hparams]
  dsimp only
  generalize storageType h p = tier
  cases tier <;> rfl

theorem maxChXferSize_nandParams (build : Option HybridParams)
    (spp : SsdParams) (p : Ppa) :
    (nandParams build spp p).maxChXferSize = spp.maxChXferSize := by
  cases build with
  | none => rfl
  | some h =>
      have hparams : nandParams (some h) spp p = tierParams h spp p := rfl
      rw [hparams]
      exact maxChXferSize_of_tiers getStorageType qlcReadLatency tierParams rfl h
        spp p

theorem advanceOf_eq (hppa : ncmd.ppa = some p) :
    advanceOf build spp ssd ncmd =
      ssdAdvanceNand (nandParams build spp p) ssd ncmd := by
  cases build with
  | none => rfl
  | some h =>
      rw [advanceOf, advanceNand, hppa]
      rfl

theorem call_serialised (hppa : ncmd.ppa = some p)
    (hfits : NandFits (nandParams build spp p) ssd ncmd p) :
    Serialised
      { before := ssd, ncmd := ncmd, time := (advanceOf build spp ssd ncmd).1
        after := (advanceOf build spp ssd ncmd).2 } p := by
  obtain ⟨avail, havail, hstart, htime⟩ := ssdAdvanceNand_advanced hppa hfits
  rw [← advanceOf_eq hppa] at havail htime
  rw [nandStime, started_nextLunAvailTime] at hstart
  have hnew : (advanceOf build spp ssd ncmd).2.nextLunAvailTime p.ch p.lun =
      avail := by
    rw [havail, Function.update_self, Function.update_self]
  constructor
  · exact ((Nat.le_max_right _ _).trans hstart).trans htime
  · exact ((Nat.le_max_left _ _).trans hstart).trans hnew.ge
  · exact hnew.le.trans htime
  · intro ch lun hother
    show (advanceOf build spp ssd ncmd).2.nextLunAvailTime ch lun =
      ssd.nextLunAvailTime ch lun
    rw [havail]
    obtain rfl | hch := eq_or_ne ch p.ch
    · have hlun : lun ≠ p.lun := fun h => hother (h ▸ rfl)
      rw [Function.update_self, Function.update_of_ne hlun]
    · rw [Function.update_of_ne hch]

/-- No call makes a die available earlier. -/
theorem Serialised.mono {call : NandCall} (h : Serialised call p)
    (ch lun : ℕ) : call.before.nextLunAvailTime ch lun ≤
      call.after.nextLunAvailTime ch lun := by
  by_cases hdie : (ch, lun) = (p.ch, p.lun)
  · cases hdie
    exact h.avail_le
  · exact (h.others ch lun hdie).ge

/-- In every sequence of commands on mapped addresses whose times stay within
64 bits, the commands of each die are serialised. -/
theorem nandCalls_serialised_of_fits
    (hfits : ∀ call ∈ nandCalls build spp ssd ncmds, CallFits build spp call) :
    (∀ call ∈ nandCalls build spp ssd ncmds, ∀ p, call.ncmd.ppa = some p →
      Serialised call p) ∧
    ∀ call ∈ nandCalls build spp ssd ncmds, ∀ ch lun,
      ssd.nextLunAvailTime ch lun ≤ call.before.nextLunAvailTime ch lun ∧
        call.before.nextLunAvailTime ch lun ≤
          call.after.nextLunAvailTime ch lun := by
  induction ncmds generalizing ssd with
  | nil => exact ⟨fun _ h => absurd h List.not_mem_nil,
      fun _ h => absurd h List.not_mem_nil⟩
  | cons ncmd ncmds ih =>
      rw [nandCalls, List.forall_mem_cons] at hfits
      obtain ⟨⟨p, hppa, hfirst⟩, hrest⟩ := hfits
      have hcall := call_serialised hppa hfirst
      obtain ⟨hlater, hgrows⟩ := ih hrest
      constructor
      · refine List.forall_mem_cons.mpr ⟨?_, hlater⟩
        intro other hother
        cases hppa.symm.trans hother
        exact hcall
      · refine List.forall_mem_cons.mpr ⟨?_, ?_⟩
        · exact fun ch lun => ⟨le_refl _, hcall.mono ch lun⟩
        · intro call hmem ch lun
          obtain ⟨hbefore, hafter⟩ := hgrows call hmem ch lun
          exact ⟨(hcall.mono ch lun).trans hbefore, hafter⟩

end

/-! ## Channels of any bandwidth -/

/-- The part of `struct ssd` that `ssd_advance_nand` uses, with the channels as
`chmodel_init` leaves them at any bandwidth. -/
structure Device where
  ch : ℕ → ChannelModel
  pcie : ChannelModel
  nextLunAvailTime : ℕ → ℕ → ℕ
  clock : Clock

/-- `ssd_init`, at bandwidths that `chmodel_init` does not divide by. -/
def deviceInit (spp : SsdParams) (clock : Clock) : Device :=
  let ch := idleModel spp.chBandwidth
  let xferLat := u32 (ch.xferLat + spp.fwChXferLat * unitXferSize / 2 ^ 12)
  { ch := fun _ => { ch with xferLat := xferLat }
    pcie := idleModel spp.pcieBandwidth
    nextLunAvailTime := fun _ _ => 0
    clock := clock }

def Device.setAvail (dev : Device) (p : Ppa) (time : ℕ) : Device :=
  { dev with
    nextLunAvailTime := Function.update dev.nextLunAvailTime p.ch
      (Function.update (dev.nextLunAvailTime p.ch) p.lun time) }

/-- `chmodel_request` on a channel and on the PCIe link. -/
def deviceChRequest (dev : Device) (ch requestTime length : ℕ) :
    Except Fault (ℕ × Device) := do
  let (curTime, clock) := dev.clock.read
  let (time, model) ← chmodelRequest (dev.ch ch) curTime requestTime length
  return (time,
    { dev with clock := clock, ch := Function.update dev.ch ch model })

def devicePcie (dev : Device) (requestTime length : ℕ) :
    Except Fault (ℕ × Device) := do
  let (curTime, clock) := dev.clock.read
  let (time, model) ← chmodelRequest dev.pcie curTime requestTime length
  return (time, { dev with clock := clock, pcie := model })

/-- The PCIe transfer of a chunk, where it is interleaved. -/
def deviceDma (interleave : Bool) (dev : Device) (chnlEtime xferSize : ℕ) :
    Except Fault (ℕ × Device) :=
  if interleave then devicePcie dev chnlEtime xferSize
  else .ok (chnlEtime, dev)

/-- The transfer loop of a read, which is still running after `fuel` rounds
where it diverges. -/
def deviceTransfer (spp : SsdParams) (ch : ℕ) (interleave : Bool) :
    ℕ → Device → ℕ → ℕ → ℕ → Except Fault ((ℕ × ℕ) × Device)
  | 0, dev, remaining, chnlTime, completedTime =>
      if remaining = 0 then .ok ((chnlTime, completedTime), dev)
      else .error .divergence
  | fuel + 1, dev, remaining, chnlTime, completedTime =>
      if remaining = 0 then .ok ((chnlTime, completedTime), dev)
      else do
        let xferSize := min remaining spp.maxChXferSize
        let (chnlEtime, dev) ← deviceChRequest dev ch chnlTime xferSize
        let (completedTime, dev) ← deviceDma interleave dev chnlEtime xferSize
        deviceTransfer spp ch interleave fuel dev (remaining - xferSize)
          chnlEtime completedTime

/-- `ssd_advance_nand`. -/
def deviceNand (build : Option HybridParams) (spp : SsdParams) (dev : Device)
    (ncmd : NandCmd) : Except Fault (ℕ × Device) :=
  let (cmdStime, dev) :=
    if ncmd.stime = 0 then
      (dev.clock.read.1, { dev with clock := dev.clock.read.2 })
    else (ncmd.stime, dev)
  match ncmd.ppa with
  | none => .ok (cmdStime, dev)
  | some p =>
      let spp := nandParams build spp p
      let stime := max (dev.nextLunAvailTime p.ch p.lun) cmdStime
      match ncmd.cmd with
      | .read => do
          let nandEtime := u64 (stime + spp.slcReadLatency)
          let ((chnlEtime, completedTime), dev) ←
            deviceTransfer spp p.ch ncmd.interleavePciDma ncmd.xferSize dev
              ncmd.xferSize nandEtime nandEtime
          return (completedTime, dev.setAvail p chnlEtime)
      | .write => do
          let (chnlEtime, dev) ←
            deviceChRequest dev p.ch stime ncmd.xferSize
          let nandEtime := u64 (chnlEtime + spp.pgWrLat)
          return (nandEtime, dev.setAvail p nandEtime)
      | .erase =>
          let nandEtime := u64 (stime + spp.blkErLat)
          .ok (nandEtime, dev.setAvail p nandEtime)
      | .nop => .ok (stime, dev.setAvail p stime)

/-- The times that the calls for a sequence of commands return, each with the
device it leaves. -/
def deviceRun (build : Option HybridParams) (spp : SsdParams) :
    Device → List NandCmd → Except Fault (List (ℕ × Device))
  | _, [] => .ok []
  | dev, ncmd :: ncmds => do
      let (time, dev) ← deviceNand build spp dev ncmd
      let rest ← deviceRun build spp dev ncmds
      return (time, dev) :: rest

/-- A channel in use has the credits of its bandwidth. -/
structure ModelWf (bandwidth : ℕ) (ch : ChannelModel) : Prop where
  head_lt : ch.head < nrCreditEntries
  validLen_le : ch.validLen ≤ nrCreditEntries
  maxCredits_eq : ch.maxCredits = (idleModel bandwidth).maxCredits

structure DeviceWf (spp : SsdParams) (dev : Device) : Prop where
  ch : ∀ c, ModelWf spp.chBandwidth (dev.ch c)
  pcie : ModelWf spp.pcieBandwidth dev.pcie

/-- A bandwidth with a credit in every interval, which 64 bits are enough to
compute. -/
def HasCredits (bandwidth : ℕ) : Prop :=
  31 ≤ bandwidth ∧ bandwidth * 2 ^ 20 * unitTimeInterval < 2 ^ 64

instance (bandwidth : ℕ) : Decidable (HasCredits bandwidth) :=
  inferInstanceAs (Decidable (_ ∧ _))

theorem deviceInit_wf (spp : SsdParams) (clock : Clock) :
    DeviceWf spp (deviceInit spp clock) where
  ch _ := ⟨nrCreditEntries_pos, Nat.zero_le _, rfl⟩
  pcie := by
    refine ⟨?_, Nat.zero_le _, rfl⟩
    exact nrCreditEntries_pos

theorem ModelWf.ringWf {bandwidth : ℕ} {ch : ChannelModel}
    (h : ModelWf bandwidth ch) (hcredits : HasCredits bandwidth) : RingWf ch :=
  ⟨h.head_lt, h.validLen_le,
    h.maxCredits_eq ▸ (maxCredits_pos_iff hcredits.2).mpr hcredits.1⟩

/-- The device below the layers that rely on channels with credits. -/
def deviceOf (ssd : Ssd) : Device :=
  { ch := fun c => (ssd.ch c).model
    pcie := ssd.pcie.model
    nextLunAvailTime := ssd.nextLunAvailTime
    clock := ssd.clock }

theorem DeviceWf.exists_ssd {spp : SsdParams} {dev : Device}
    (h : DeviceWf spp dev) (hch : HasCredits spp.chBandwidth)
    (hpcie : HasCredits spp.pcieBandwidth) : ∃ ssd, deviceOf ssd = dev :=
  ⟨{ ch := fun c => ⟨dev.ch c, (h.ch c).ringWf hch⟩
     pcie := ⟨dev.pcie, h.pcie.ringWf hpcie⟩
     nextLunAvailTime := dev.nextLunAvailTime
     gcEndtime := fun _ _ => 0
     writeBuffer := bufferInit spp.writeBufferSize
     clock := dev.clock
     issued := [] }, rfl⟩

section

variable {build : Option HybridParams} {spp : SsdParams}

theorem deviceChRequest_of (ssd : Ssd) (ch requestTime length : ℕ) :
    deviceChRequest (deviceOf ssd) ch requestTime length =
      .ok ((chRequest ssd ch requestTime length).1,
        deviceOf (chRequest ssd ch requestTime length).2) := by
  have hrun := (ssd.ch ch).request_eq ssd.clock.read.1 requestTime length
  have hmodels : Function.update (fun c => (ssd.ch c).model) ch
        ((ssd.ch ch).request ssd.clock.read.1 requestTime length).2.model =
      fun c => (Function.update ssd.ch ch
        ((ssd.ch ch).request ssd.clock.read.1 requestTime length).2 c).model := by
    funext c
    obtain rfl | hother := eq_or_ne c ch
    · rw [Function.update_self, Function.update_self]
    · rw [Function.update_of_ne hother, Function.update_of_ne hother]
  rw [deviceChRequest]
  simp only [deviceOf, hrun, ok_bind, hmodels]
  rfl

theorem devicePcie_of (ssd : Ssd) (requestTime length : ℕ) :
    devicePcie (deviceOf ssd) requestTime length =
      .ok ((ssdAdvancePcie ssd requestTime length).1,
        deviceOf (ssdAdvancePcie ssd requestTime length).2) := by
  have hrun := ssd.pcie.request_eq ssd.clock.read.1 requestTime length
  rw [devicePcie]
  simp only [deviceOf, hrun, ok_bind]
  rfl

theorem deviceDma_of (interleave : Bool) (ssd : Ssd) (chnlEtime xferSize : ℕ) :
    deviceDma interleave (deviceOf ssd) chnlEtime xferSize =
      .ok ((chunkDma interleave ssd chnlEtime xferSize).1,
        deviceOf (chunkDma interleave ssd chnlEtime xferSize).2) := by
  rw [deviceDma, chunkDma]
  split_ifs
  · exact devicePcie_of ssd chnlEtime xferSize
  · rfl

/-- The loop ends, with as many rounds as there are bytes. -/
theorem deviceTransfer_of (hmax : 0 < spp.maxChXferSize) (ch : ℕ)
    (interleave : Bool) {fuel : ℕ} (ssd : Ssd) {remaining : ℕ}
    (hfuel : remaining ≤ fuel) (chnlTime completedTime : ℕ) :
    deviceTransfer spp ch interleave fuel (deviceOf ssd) remaining chnlTime
        completedTime =
      .ok ((readTransfer spp ch interleave fuel ssd remaining chnlTime
          completedTime).1,
        deviceOf (readTransfer spp ch interleave fuel ssd remaining chnlTime
          completedTime).2) := by
  induction fuel generalizing ssd remaining chnlTime completedTime with
  | zero => rw [deviceTransfer, if_pos (Nat.le_zero.mp hfuel), readTransfer]
  | succ fuel ih =>
      obtain rfl | hremaining := eq_or_ne remaining 0
      · rw [deviceTransfer, if_pos rfl, readTransfer_done]
      · have hless : remaining - min remaining spp.maxChXferSize ≤ fuel := by
          omega
        rw [deviceTransfer, if_neg hremaining,
          readTransfer_succ fuel ssd hremaining]
        dsimp only
        rw [deviceChRequest_of, ok_bind]
        dsimp only
        rw [deviceDma_of, ok_bind]
        exact ih _ hless _ _

/-- With credits, `ssd_advance_nand` returns. -/
theorem deviceNand_of (hmax : 0 < spp.maxChXferSize) (ssd : Ssd)
    (ncmd : NandCmd) :
    deviceNand build spp (deviceOf ssd) ncmd =
      .ok ((advanceOf build spp ssd ncmd).1,
        deviceOf (advanceOf build spp ssd ncmd).2) := by
  have hstarted : (if ncmd.stime = 0 then
        ((deviceOf ssd).clock.read.1,
          { deviceOf ssd with clock := (deviceOf ssd).clock.read.2 })
      else (ncmd.stime, deviceOf ssd)) =
      ((started ssd ncmd).1, deviceOf (started ssd ncmd).2) := by
    rw [started]
    split_ifs <;> rfl
  rw [deviceNand, hstarted]
  cases hppa : ncmd.ppa with
  | none =>
      have hnone : advanceOf build spp ssd ncmd = started ssd ncmd := by
        cases build with
        | none => rw [advanceOf, ssdAdvanceNand, hppa]; rfl
        | some h => rw [advanceOf, advanceNand, hppa, ssdAdvanceNand, hppa]; rfl
      rw [hnone]
  | some p =>
      rw [advanceOf_eq hppa, ssdAdvanceNand_eq hppa, advanceFrom]
      cases hcmd : ncmd.cmd with
      | read =>
          have htransfer := deviceTransfer_of
            ((maxChXferSize_nandParams build spp p).symm ▸ hmax) p.ch
            ncmd.interleavePciDma (started ssd ncmd).2 (le_refl ncmd.xferSize)
            (u64 (nandStime ssd ncmd p +
              (nandParams build spp p).slcReadLatency))
            (u64 (nandStime ssd ncmd p +
              (nandParams build spp p).slcReadLatency))
          rw [nandStime] at htransfer ⊢
          dsimp only
          rw [show (deviceOf (started ssd ncmd).2).nextLunAvailTime =
            (started ssd ncmd).2.nextLunAvailTime from rfl, htransfer, ok_bind]
          rfl
      | write =>
          have hrequest := deviceChRequest_of (started ssd ncmd).2 p.ch
            (nandStime ssd ncmd p) ncmd.xferSize
          rw [nandStime] at hrequest ⊢
          dsimp only
          rw [show (deviceOf (started ssd ncmd).2).nextLunAvailTime =
            (started ssd ncmd).2.nextLunAvailTime from rfl, hrequest, ok_bind]
          rfl
      | erase => rfl
      | nop => rfl

theorem deviceRun_of (hmax : 0 < spp.maxChXferSize) (ssd : Ssd)
    (ncmds : List NandCmd) :
    deviceRun build spp (deviceOf ssd) ncmds =
      .ok ((nandCalls build spp ssd ncmds).map fun call =>
        (call.time, deviceOf call.after)) := by
  induction ncmds generalizing ssd with
  | nil => rfl
  | cons ncmd ncmds ih =>
      rw [deviceRun, deviceNand_of hmax, ok_bind]
      dsimp only
      rw [ih, ok_bind]
      rfl

/-- On a device with bandwidths of at least 31 MB/s every sequence of commands
is carried out, and where the commands are on mapped addresses and their times
stay within 64 bits, those of each die are serialised. -/
theorem nandCalls_serialised {dev : Device} (h : DeviceWf spp dev)
    (hch : HasCredits spp.chBandwidth) (hpcie : HasCredits spp.pcieBandwidth)
    (hmax : 0 < spp.maxChXferSize) :
    (∃ ssd, deviceOf ssd = dev) ∧ ∀ ssd ncmds, deviceOf ssd = dev →
      deviceRun build spp dev ncmds =
        .ok ((nandCalls build spp ssd ncmds).map fun call =>
          (call.time, deviceOf call.after)) ∧
      ((∀ call ∈ nandCalls build spp ssd ncmds, CallFits build spp call) →
        (∀ call ∈ nandCalls build spp ssd ncmds, ∀ p,
          call.ncmd.ppa = some p → Serialised call p) ∧
        ∀ call ∈ nandCalls build spp ssd ncmds, ∀ ch lun,
          dev.nextLunAvailTime ch lun ≤
              call.before.nextLunAvailTime ch lun ∧
            call.before.nextLunAvailTime ch lun ≤
              call.after.nextLunAvailTime ch lun) := by
  refine ⟨h.exists_ssd hch hpcie, ?_⟩
  rintro ssd ncmds rfl
  exact ⟨deviceRun_of hmax ssd ncmds, nandCalls_serialised_of_fits⟩

end

/-! ## A run -/

/-- A device of one die, and a write and an interleaved read of its first
page. -/
def oneDieParams : SsdParams :=
  (oneDie ⟨2, two_lt_bits⟩ ⟨1, one_lt_bits⟩).toSsdParams

def oneDieSsd : Ssd :=
  ssdInit oneDieParams (by decide) (by decide) ⟨fun _ => 0, 0⟩

def firstPage : Ppa := { ch := 0, lun := 0, pl := 0, blk := 0, pg := 0 }

def writeFirst : NandCmd :=
  { type := .user, cmd := .write, xferSize := 4096, stime := 0
    interleavePciDma := false, ppa := some firstPage }

def readFirst : NandCmd :=
  { type := .user, cmd := .read, xferSize := 4096, stime := 0
    interleavePciDma := true, ppa := some firstPage }

instance (channel : Channel) (curTime requestTime length : ℕ) :
    Decidable (RequestFits channel curTime requestTime length) := by
  unfold RequestFits
  infer_instance

instance (ssd : Ssd) (ch requestTime length : ℕ) :
    Decidable (ChFits ssd ch requestTime length) := by
  unfold ChFits
  infer_instance

instance (ssd : Ssd) (requestTime length : ℕ) :
    Decidable (PcieFits ssd requestTime length) := by
  unfold PcieFits
  infer_instance

theorem oneDieSsd_calls_fit : ∀ call ∈ nandCalls none oneDieParams oneDieSsd
    [writeFirst, readFirst], CallFits none oneDieParams call := by
  refine List.forall_mem_cons.mpr ⟨?_, List.forall_mem_singleton.mpr ?_⟩
  · exact ⟨firstPage, rfl, by decide +kernel, by decide +kernel⟩
  · refine ⟨firstPage, rfl, by decide, by decide +kernel, ?_⟩
    exact fun _ => ⟨by decide +kernel, fun _ => by decide +kernel,
      fun hmore => absurd rfl hmore⟩

theorem nandCalls_serialised_oneDie :
    deviceRun none oneDieParams (deviceInit oneDieParams ⟨fun _ => 0, 0⟩)
        [writeFirst, readFirst] =
      .ok ((nandCalls none oneDieParams oneDieSsd
        [writeFirst, readFirst]).map fun call =>
          (call.time, deviceOf call.after)) ∧
    (∀ call ∈ nandCalls none oneDieParams oneDieSsd [writeFirst, readFirst],
      ∀ p, call.ncmd.ppa = some p → Serialised call p) ∧
    ∀ call ∈ nandCalls none oneDieParams oneDieSsd [writeFirst, readFirst],
      ∀ ch lun, 0 ≤ call.before.nextLunAvailTime ch lun ∧
        call.before.nextLunAvailTime ch lun ≤
          call.after.nextLunAvailTime ch lun := by
  have hwf := deviceInit_wf oneDieParams ⟨fun _ => 0, 0⟩
  have hbandwidth : HasCredits oneDieParams.chBandwidth ∧
      HasCredits oneDieParams.pcieBandwidth := by decide
  obtain ⟨hrun, hserialised⟩ :=
    (@nandCalls_serialised none oneDieParams _ hwf hbandwidth.1 hbandwidth.2
      (by decide)).2 oneDieSsd [writeFirst, readFirst] rfl
  exact ⟨hrun, hserialised oneDieSsd_calls_fit⟩

/-- The same device at 30 MB/s. -/
def slowParams : SsdParams := { oneDieParams with chBandwidth := 30 }

def slowDevice : Device := deviceInit slowParams ⟨fun _ => 0, 0⟩

/-- The first write divides by zero. -/
theorem slowDevice_divides :
    DeviceWf slowParams slowDevice ∧ 0 < slowParams.maxChXferSize ∧
      deviceRun none slowParams slowDevice [writeFirst] =
        .error .divideByZero :=
  ⟨deviceInit_wf _ _, by decide, rfl⟩

end NvmeVirt.DieTimes
