import NvmeVirt.Core.Latest
import NvmeVirt.Hybrid.DieTimes

/-!
# When a device is idle

`ssd_next_idle_time` is the latest time at which a die becomes available.
Whatever else happens to a device, only `ssd_advance_nand` moves these times,
and never back, so that a device is not idle before the programs and erases it
was handed are done.
-/

namespace NvmeVirt.IdleTime

open NvmeVirt.DieTimes
open NvmeVirt.HybridConfig
open NvmeVirt.Kernel
open NvmeVirt.Latest
open NvmeVirt.Layout
open NvmeVirt.Timing

/-! ## The function -/

/-- The inner loop of `ssd_next_idle_time`, over the dies of a channel. -/
def channelIdleTime (spp : SsdParams) (avail : ℕ → ℕ) (latest : ℕ) : ℕ :=
  (List.range spp.lunsPerCh).foldl (fun latest j => max latest (avail j)) latest

/-- `ssd_next_idle_time`. -/
def ssdNextIdleTime (spp : SsdParams) (ssd : Ssd) : ℕ × Ssd :=
  let (latest, ssd) := getWallclock ssd
  ((List.range spp.nchs).foldl
    (fun latest i => channelIdleTime spp (ssd.nextLunAvailTime i) latest) latest,
    ssd)

variable {build : Option HybridParams} {spp : SsdParams} {ssd : Ssd}

theorem le_channelIdleTime (spp : SsdParams) (avail : ℕ → ℕ) (latest : ℕ) :
    latest ≤ channelIdleTime spp avail latest ∧
      ∀ lun < spp.lunsPerCh, avail lun ≤ channelIdleTime spp avail latest := by
  obtain ⟨hfirst, hdies⟩ := le_foldl id avail
    (fun latest j => Nat.le_max_left latest (avail j))
    (fun latest j => Nat.le_max_right latest (avail j))
    (List.range spp.lunsPerCh) latest
  exact ⟨hfirst, fun lun hlun => hdies lun (List.mem_range.mpr hlun)⟩

theorem channelIdleTime_le {avail : ℕ → ℕ} {latest bound : ℕ}
    (hlatest : latest ≤ bound)
    (hdies : ∀ lun < spp.lunsPerCh, avail lun ≤ bound) :
    channelIdleTime spp avail latest ≤ bound := by
  refine foldl_keeps (· ≤ bound) (fun latest lun hmem hle => ?_) hlatest
  exact Nat.max_le.mpr ⟨hle, hdies lun (List.mem_range.mp hmem)⟩

/-- A device is not idle before its dies are, nor in the past. -/
theorem le_ssdNextIdleTime (spp : SsdParams) (ssd : Ssd) :
    (getWallclock ssd).1 ≤ (ssdNextIdleTime spp ssd).1 ∧
      ∀ ch < spp.nchs, ∀ lun < spp.lunsPerCh,
        ssd.nextLunAvailTime ch lun ≤ (ssdNextIdleTime spp ssd).1 := by
  have hgrows : ∀ latest ch,
      latest ≤ channelIdleTime spp (ssd.nextLunAvailTime ch) latest :=
    fun latest ch => (le_channelIdleTime spp _ latest).1
  constructor
  · exact (le_foldl id (fun _ => 0) hgrows (fun _ _ => Nat.zero_le _)
      (List.range spp.nchs) _).1
  · intro ch hch lun hlun
    exact (le_foldl id (fun ch => ssd.nextLunAvailTime ch lun) hgrows
      (fun latest ch => (le_channelIdleTime spp _ latest).2 lun hlun)
      (List.range spp.nchs) _).2 ch (List.mem_range.mpr hch)

/-- It is idle as soon as they are. -/
theorem ssdNextIdleTime_le {bound : ℕ} (hclock : (getWallclock ssd).1 ≤ bound)
    (hdies : ∀ ch < spp.nchs, ∀ lun < spp.lunsPerCh,
      ssd.nextLunAvailTime ch lun ≤ bound) :
    (ssdNextIdleTime spp ssd).1 ≤ bound := by
  refine foldl_keeps (· ≤ bound) (fun latest ch hmem hle => ?_) hclock
  exact channelIdleTime_le hle (hdies ch (List.mem_range.mp hmem))

/-! ## Runs of a device -/

/-- A call of `ssd_advance_nand` on `ssd`. -/
def callOn (build : Option HybridParams) (spp : SsdParams) (ssd : Ssd)
    (ncmd : NandCmd) : NandCall :=
  { before := ssd, ncmd := ncmd, time := (advanceOf build spp ssd ncmd).1
    after := (advanceOf build spp ssd ncmd).2 }

/-- The device goes from `ssd` to another state with these calls of
`ssd_advance_nand`, oldest first.  In between anything may happen that leaves
the dies alone: transfers, the write buffer, other readers of the clock. -/
inductive DeviceRun (build : Option HybridParams) (spp : SsdParams)
    (ssd : Ssd) : List NandCall → Ssd → Prop
  | start : DeviceRun build spp ssd [] ssd
  | nand {calls : List NandCall} {mid : Ssd} (ncmd : NandCmd)
      (hrun : DeviceRun build spp ssd calls mid) :
      DeviceRun build spp ssd (calls ++ [callOn build spp mid ncmd])
        (advanceOf build spp mid ncmd).2
  | other {calls : List NandCall} {mid after : Ssd}
      (hrun : DeviceRun build spp ssd calls mid)
      (hdies : after.nextLunAvailTime = mid.nextLunAvailTime)
      (hissued : after.issued = mid.issued) :
      DeviceRun build spp ssd calls after

/-- No time of the calls leaves 64 bits. -/
def CallsFit (build : Option HybridParams) (spp : SsdParams)
    (calls : List NandCall) : Prop :=
  ∀ call ∈ calls, ∀ p, call.ncmd.ppa = some p →
    NandFits (nandParams build spp p) call.before call.ncmd p

variable {mid after : Ssd} {calls more : List NandCall}

theorem DeviceRun.trans (h : DeviceRun build spp ssd calls mid)
    (hmore : DeviceRun build spp mid more after) :
    DeviceRun build spp ssd (calls ++ more) after := by
  induction hmore with
  | start =>
      rw [List.append_nil]
      exact h
  | nand ncmd _ ih =>
      rw [← List.append_assoc]
      exact ih.nand ncmd
  | other _ hdies hissued ih => exact ih.other hdies hissued

/-- The calls are those for the commands that were issued. -/
theorem DeviceRun.issued_eq (h : DeviceRun build spp ssd calls after) :
    after.issued = ssd.issued ++ calls.map NandCall.ncmd := by
  induction h with
  | start => exact (List.append_nil _).symm
  | @nand calls mid ncmd _ ih =>
      have hissued : (advanceOf build spp mid ncmd).2.issued =
          mid.issued ++ [ncmd] := by
        cases hppa : ncmd.ppa with
        | none =>
            cases build with
            | none => exact ssdAdvanceNand_issued _ _ _
            | some h =>
                rw [advanceOf, advanceNand, hppa]
                exact ssdAdvanceNand_issued _ _ _
        | some p =>
            rw [advanceOf_eq hppa]
            exact ssdAdvanceNand_issued _ _ _
      rw [hissued, ih, List.map_append, List.append_assoc]
      rfl
  | other _ _ hissued ih => exact hissued.trans ih

theorem DeviceRun.call_eq (h : DeviceRun build spp ssd calls after) :
    ∀ call ∈ calls, call = callOn build spp call.before call.ncmd := by
  induction h with
  | start => exact fun _ hmem => absurd hmem List.not_mem_nil
  | nand ncmd _ ih =>
      intro call hmem
      obtain hold | hnew := List.mem_append.mp hmem
      · exact ih call hold
      · rw [List.mem_singleton.mp hnew]
        rfl
  | other _ _ _ ih => exact ih

/-! ## The dies in a run -/

theorem advanceOf_unmapped {ncmd : NandCmd} (hppa : ncmd.ppa = none) :
    (advanceOf build spp ssd ncmd).2.nextLunAvailTime =
      ssd.nextLunAvailTime := by
  have hplain : (ssdAdvanceNand spp ssd ncmd).2.nextLunAvailTime =
      ssd.nextLunAvailTime := by
    rw [ssdAdvanceNand, hppa]
    exact started_nextLunAvailTime ssd ncmd
  cases build with
  | none => exact hplain
  | some h =>
      rw [advanceOf, advanceNand, hppa]
      exact hplain

theorem CallsFit.of_append (h : CallsFit build spp (calls ++ more)) :
    CallsFit build spp calls ∧ CallsFit build spp more :=
  ⟨fun call hmem => h call (List.mem_append_left _ hmem),
    fun call hmem => h call (List.mem_append_right _ hmem)⟩

/-- A call that fits makes no die available earlier. -/
theorem callOn_mono {ncmd : NandCmd}
    (hfits : CallsFit build spp [callOn build spp ssd ncmd]) (ch lun : ℕ) :
    ssd.nextLunAvailTime ch lun ≤
      (advanceOf build spp ssd ncmd).2.nextLunAvailTime ch lun := by
  cases hppa : ncmd.ppa with
  | none => rw [advanceOf_unmapped hppa]
  | some p =>
      have hcall := hfits _ List.mem_cons_self p hppa
      exact (call_serialised hppa hcall).mono ch lun

/-- In a run, a die is available no earlier than any call on it left it. -/
theorem DeviceRun.avail_le
    (h : DeviceRun build spp ssd calls after)
    (hfit : CallsFit build spp calls) (ch lun : ℕ) :
    ∀ call ∈ calls, call.after.nextLunAvailTime ch lun ≤
      after.nextLunAvailTime ch lun := by
  induction h with
  | start => exact fun _ hmem => absurd hmem List.not_mem_nil
  | nand ncmd _ ih =>
      obtain ⟨hold, hnew⟩ := hfit.of_append
      intro call hmem
      obtain hearlier | hlast := List.mem_append.mp hmem
      · exact (ih hold call hearlier).trans (callOn_mono hnew ch lun)
      · rw [List.mem_singleton.mp hlast]
        rfl
  | other _ hdies _ ih =>
      rw [hdies]
      exact ih hfit

/-- The commands that are done when they release their die: all but the reads
whose PCIe transfers are interleaved. -/
def EndsOnDie (ncmd : NandCmd) : Prop :=
  ncmd.cmd = .read → ncmd.interleavePciDma = false

/-- Without PCIe transfers a read is completed with its last chunk. -/
theorem readTransfer_completed (ch fuel : ℕ) (ssd : Ssd)
    (remaining time : ℕ) :
    (readTransfer spp ch false fuel ssd remaining time time).1.2 =
      (readTransfer spp ch false fuel ssd remaining time time).1.1 := by
  induction fuel generalizing ssd remaining time with
  | zero => rfl
  | succ fuel ih =>
      by_cases hremaining : remaining = 0
      · rw [hremaining, readTransfer_done]
      · rw [readTransfer_succ fuel ssd hremaining]
        exact ih _ _ _

theorem time_eq_avail {ncmd : NandCmd} {p : Ppa} (hppa : ncmd.ppa = some p)
    (hends : EndsOnDie ncmd) :
    (advanceOf build spp ssd ncmd).1 =
      (advanceOf build spp ssd ncmd).2.nextLunAvailTime p.ch p.lun := by
  have hset (ssd : Ssd) (time : ℕ) :
      (setNextLunAvailTime ssd p time).nextLunAvailTime p.ch p.lun = time := by
    rw [setNextLunAvailTime]
    dsimp only
    rw [Function.update_self, Function.update_self]
  rw [advanceOf_eq hppa, ssdAdvanceNand_eq hppa, advanceFrom]
  cases hcmd : ncmd.cmd with
  | read =>
      dsimp only
      rw [hset, hends hcmd]
      exact readTransfer_completed _ _ _ _ _
  | write | erase | nop =>
      dsimp only
      rw [hset]

/-- The address is on a die of the device. -/
def OnDevice (spp : SsdParams) (p : Ppa) : Prop :=
  p.ch < spp.nchs ∧ p.lun < spp.lunsPerCh

/-- `time` is not before the call has released its die, and not before it is
done, if it ends there. -/
structure WaitsFor (spp : SsdParams) (time : ℕ) (call : NandCall) : Prop where
  released : ∀ p, call.ncmd.ppa = some p → OnDevice spp p →
    call.after.nextLunAvailTime p.ch p.lun ≤ time
  done : ∀ p, call.ncmd.ppa = some p → OnDevice spp p →
    EndsOnDie call.ncmd → call.time ≤ time

/-- A time at which the dies are available is not before any call of the
run. -/
theorem DeviceRun.waitsFor
    (h : DeviceRun build spp ssd calls after)
    (hfit : CallsFit build spp calls) {time : ℕ}
    (htime : ∀ ch lun, ch < spp.nchs → lun < spp.lunsPerCh →
      after.nextLunAvailTime ch lun ≤ time) :
    ∀ call ∈ calls, WaitsFor spp time call := by
  intro call hmem
  have hreleased : ∀ p, call.ncmd.ppa = some p → OnDevice spp p →
      call.after.nextLunAvailTime p.ch p.lun ≤ time := fun p _ hdevice =>
    (h.avail_le hfit p.ch p.lun call hmem).trans
      (htime p.ch p.lun hdevice.1 hdevice.2)
  refine ⟨hreleased, fun p hppa hdevice hends => ?_⟩
  have hcall := h.call_eq call hmem
  have hdone : call.time = call.after.nextLunAvailTime p.ch p.lun := by
    rw [hcall]
    exact time_eq_avail hppa hends
  rw [hdone]
  exact hreleased p hppa hdevice

/-! ## One state after another -/

/-- One state of a device follows another with some calls of
`ssd_advance_nand`. -/
def Follows (build : Option HybridParams) (spp : SsdParams)
    (ssd after : Ssd) : Prop :=
  ∃ calls, DeviceRun build spp ssd calls after

theorem Follows.refl (build : Option HybridParams) (spp : SsdParams)
    (ssd : Ssd) : Follows build spp ssd ssd :=
  ⟨[], .start⟩

theorem Follows.trans (h : Follows build spp ssd mid)
    (hmore : Follows build spp mid after) : Follows build spp ssd after := by
  obtain ⟨calls, hrun⟩ := h
  obtain ⟨more, hrest⟩ := hmore
  exact ⟨calls ++ more, hrun.trans hrest⟩

theorem follows_nand (spp : SsdParams) (ssd : Ssd) (ncmd : NandCmd) :
    Follows none spp ssd (ssdAdvanceNand spp ssd ncmd).2 :=
  ⟨_, DeviceRun.nand ncmd .start⟩

/-- What leaves the dies alone. -/
theorem follows_other (build : Option HybridParams) (spp : SsdParams)
    (hdies : after.nextLunAvailTime = ssd.nextLunAvailTime)
    (hissued : after.issued = ssd.issued) : Follows build spp ssd after :=
  ⟨_, DeviceRun.other .start hdies hissued⟩

end NvmeVirt.IdleTime
