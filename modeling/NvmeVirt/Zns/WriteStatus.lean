import NvmeVirt.Zns.FailedWrites
import NvmeVirt.Zns.Filling

/-!
# The status of a write

A write that is well placed and finds buffer space is decided by the state of
its zone and by the resources that are left.  The two write functions switch on
the state each for itself; the one for zones without a random write area lets
its last three cases fall through, and reports the status of the last.
-/

namespace NvmeVirt.WriteStatus

open NvmeVirt.Commands
open NvmeVirt.FailedWrites
open NvmeVirt.Filling
open NvmeVirt.Kernel
open NvmeVirt.MgmtSend
open NvmeVirt.ReadWrite
open NvmeVirt.Resources
open NvmeVirt.Timing
open NvmeVirt.Transition
open NvmeVirt.WriteCases
open NvmeVirt.Zones

/-- The status that names the cause: an empty zone needs an active and an open
resource, a closed one an open resource. -/
def expectedStatus (s : ZnsFtl) (zid : ℕ) : ℕ :=
  match (s.zoneDescs zid).state with
  | .empty =>
      if isZoneResourceAvail s .activeZone = false then scZnsNoActiveZone
      else if isZoneResourceAvail s .openZone = false then scZnsNoOpenZone
      else scSuccess
  | .closed =>
      if isZoneResourceAvail s .openZone = false then scZnsNoOpenZone
      else scSuccess
  | .openedImpl | .openedExpl => scSuccess
  | .full => scZnsErrFull
  | .readOnly => scZnsErrReadOnly
  | .offline => scZnsErrOffline

/-- The counters are within their totals, and an empty zone is at its start and
has no random write area. -/
structure Sound (ns : ZnsNamespace) (s : ZnsFtl) : Prop where
  le_total : ∀ type,
    (s.resInfos type).acquiredCnt ≤ (s.resInfos type).totalCnt
  of_empty : ∀ zid < ns.zp.nrZones, (s.zoneDescs zid).state = .empty →
    (s.zoneDescs zid).wp = (s.zoneDescs zid).zslba ∧
      (s.zoneDescs zid).zrwav = false

/-- A write, not an append, of whole units inside one zone, from its write
pointer on and within the window of its random write area. -/
structure WellPlaced (ns : ZnsNamespace) (s : ZnsFtl) (req : RwRequest) :
    Prop where
  opcode : req.opcode = .write
  aligned : lbaToByte req.nrLba % ns.writeUnitSize = 0
  inside : checkBoundaryError ns req.slba req.nrLba = true
  at_wp : req.slba = (s.zoneDescs (lbaToZone ns req.slba)).wp
  in_window : (s.zoneDescs (lbaToZone ns req.slba)).zrwav = true →
    lastLba req.slba req.nrLba ≤
      zrwaImplEnd ns (s.zoneDescs (lbaToZone ns req.slba)).wp

variable {ns : ZnsNamespace} {s s' : ZnsFtl} {req : RwRequest}
  {ret : NvmevResult} {outcome : WriteOutcome}

theorem reachable_sound {state : ZnsState}
    (hreach : Reachable (znsMachine ns) state) : Sound ns state.ftl := by
  obtain ⟨leak, haccounted⟩ := reachable_accounted hreach
  refine ⟨fun type => ?_, fun zid hzid hempty => ⟨?_, ?_⟩⟩
  · rw [haccounted.total type]
    exact haccounted.le_total type
  · exact (reachable_sited hreach zid hzid).of_empty hempty
  · apply Bool.eq_false_of_not_eq_true
    intro hzrwav
    exact haccounted.zrwav_ne_empty zid hzid hzrwav hempty

/-- Within the totals, a counter is full when no resource is left. -/
theorem Sound.isZoneResourceFull_eq (h : Sound ns s)
    (type : ZoneResourceType) :
    isZoneResourceFull s type = !isZoneResourceAvail s type := by
  have hle := h.le_total type
  rw [isZoneResourceFull, isZoneResourceAvail, ← decide_not, decide_eq_decide]
  omega

/-- The counters and the states decide. -/
theorem expectedStatus_congr (hdescs : s'.zoneDescs = s.zoneDescs)
    (hinfos : s'.resInfos = s.resInfos) (zid : ℕ) :
    expectedStatus s' zid = expectedStatus s zid := by
  have havail : isZoneResourceAvail s' = isZoneResourceAvail s := by
    funext type
    rw [isZoneResourceAvail, isZoneResourceAvail, hinfos]
  rw [expectedStatus, expectedStatus, hdescs, havail]

theorem Sound.congr (h : Sound ns s) (hdescs : s'.zoneDescs = s.zoneDescs)
    (hinfos : s'.resInfos = s.resInfos) : Sound ns s' where
  le_total := by
    rw [hinfos]
    exact h.le_total
  of_empty := by
    rw [hdescs]
    exact h.of_empty

theorem openClosedZone_status (zid : ℕ) (state : ZoneState) :
    (openClosedZone s zid state).1 =
      if isZoneResourceAvail s .openZone = false then scZnsNoOpenZone
      else scSuccess := by
  rw [openClosedZone, acquireZoneResource]
  cases isZoneResourceAvail s .openZone <;> rfl

/-! ## The two switches -/

/-- The states whose cases fall through to the one of `ZONE_STATE_OFFLINE`. -/
def FallsThrough (state : ZoneState) : Prop :=
  state = .full ∨ state = .readOnly

instance (state : ZoneState) : Decidable (FallsThrough state) :=
  inferInstanceAs (Decidable (_ ∨ _))

theorem znsWriteOpen_status {zid : ℕ} (h : Sound ns s)
    (hzid : zid < ns.zp.nrZones) :
    (znsWriteOpen s zid (s.zoneDescs zid).wp).1 =
      if FallsThrough (s.zoneDescs zid).state then scZnsErrOffline
      else expectedStatus s zid := by
  rw [znsWriteOpen, expectedStatus]
  cases hstate : (s.zoneDescs zid).state
  case empty =>
    dsimp only
    rw [if_neg (not_not.mpr (h.of_empty zid hzid hstate).1),
      h.isZoneResourceFull_eq, h.isZoneResourceFull_eq]
    cases hactive : isZoneResourceAvail s .activeZone
    · rfl
    cases hopen : isZoneResourceAvail s .openZone
    · rfl
    have hopen' : isZoneResourceAvail (acquireZoneResource s .activeZone).2
        .openZone = true := by
      rw [isZoneResourceAvail,
        acquireZoneResource_resInfos (by decide : .openZone ≠ .activeZone)]
      exact hopen
    exact (openClosedZone_status zid .openedImpl).trans (by rw [hopen']; rfl)
  case closed => exact openClosedZone_status zid .openedImpl
  all_goals rfl

theorem openZrwaZone_status {zid status : ℕ}
    (hopen : openZrwaZone ns s zid = .ok (status, s')) :
    status = if isZoneResourceAvail s .openZone = false then scZnsNoOpenZone
      else scSuccess := by
  rw [openZrwaZone, acquireZoneResource] at hopen
  cases havail : isZoneResourceAvail s .openZone <;>
    rw [havail] at hopen
  · cases hopen
    rfl
  · obtain ⟨buf, -, hopen⟩ := bind_eq_ok hopen
    obtain ⟨_, -, hopen⟩ := bind_eq_ok hopen
    cases hopen
    rfl

theorem znsWriteZrwaOpen_status {zid status : ℕ} (h : Sound ns s)
    (hzid : zid < ns.zp.nrZones) (hzrwav : (s.zoneDescs zid).zrwav = true)
    (hopen : znsWriteZrwaOpen ns s zid = .ok (status, s')) :
    status = expectedStatus s zid := by
  rw [znsWriteZrwaOpen] at hopen
  rw [expectedStatus]
  cases hstate : (s.zoneDescs zid).state <;> rw [hstate] at hopen
  case empty =>
    have hnone := (h.of_empty zid hzid hstate).2
    rw [hzrwav] at hnone
    cases hnone
  case closed => exact openZrwaZone_status hopen
  all_goals
    cases hopen
    rfl

/-! ## The status -/

theorem zoneWrite_status_iff (hsound : Sound ns s)
    (hplaced : WellPlaced ns s req)
    (hrun : znsWriteZone ns s req ret = .ok (outcome, s'))
    (haccepted : outcome.accepted = true) :
    outcome.ret.status = expectedStatus s (lbaToZone ns req.slba) ↔
      ¬ FallsThrough (s.zoneDescs (lbaToZone ns req.slba)).state := by
  obtain ⟨hzid, hcase⟩ := znsWriteZone_cases hrun
  have hstart : startLba req (s.zoneDescs (lbaToZone ns req.slba)) =
      (s.zoneDescs (lbaToZone ns req.slba)).wp := by
    rw [startLba, hplaced.opcode, ← hplaced.at_wp]
  -- the switch, which both of the remaining cases went through
  have hswitch : ∀ {status : ℕ} {s₁ : ZnsFtl}, znsWriteOpen (takeBytes s
      (writeBufferOf ns (lbaToZone ns req.slba)) req.bytes)
      (lbaToZone ns req.slba) (startLba req (s.zoneDescs
        (lbaToZone ns req.slba))) = (status, s₁) →
      (status = expectedStatus s (lbaToZone ns req.slba) ↔
        ¬ FallsThrough (s.zoneDescs (lbaToZone ns req.slba)).state) := by
    intro status s₁ hopen
    have hstatus := znsWriteOpen_status (hsound.congr
      (takeBytes_zoneDescs s (writeBufferOf ns (lbaToZone ns req.slba))
        req.bytes) (takeBytes_resInfos _ _ _)) hzid
    rw [hstart] at hopen
    rw [takeBytes_zoneDescs, hopen, expectedStatus_congr
      (takeBytes_zoneDescs _ _ _) (takeBytes_resInfos _ _ _)] at hstatus
    dsimp only at hstatus
    rw [hstatus]
    split_ifs with hfalls
    · apply iff_of_false _ (not_not.mpr hfalls)
      rw [expectedStatus]
      rcases hfalls with hstate | hstate <;> rw [hstate]
      · exact (by decide : scZnsErrOffline ≠ scZnsErrFull)
      · exact (by decide : scZnsErrOffline ≠ scZnsErrReadOnly)
    · exact iff_of_true rfl hfalls
  cases hcase with
  | retry => cases haccepted
  | refused hroom hcheck =>
      rw [hstart, ← hplaced.at_wp] at hcheck
      exact absurd (znsWriteCheck_eq_success.mpr
        ⟨hplaced.aligned, hplaced.inside, hplaced.at_wp⟩) hcheck
  | unopened hroom hcheck hopen hstatus => exact hswitch hopen
  | written hroom hcheck hopen hpages => exact hswitch hopen

theorem zrwaWrite_status (hsound : Sound ns s)
    (hplaced : WellPlaced ns s req)
    (hzrwav : (s.zoneDescs (lbaToZone ns req.slba)).zrwav = true)
    (hrun : znsWriteZrwa ns s req ret = .ok (outcome, s'))
    (haccepted : outcome.accepted = true) :
    outcome.ret.status = expectedStatus s (lbaToZone ns req.slba) := by
  obtain ⟨hzid, hcase⟩ := znsWriteZrwa_cases hrun
  cases hcase with
  | retry => cases haccepted
  | refused hcheck =>
      have hwindow : ¬ (req.slba < (s.zoneDescs (lbaToZone ns req.slba)).wp ∨
          zrwaImplEnd ns (s.zoneDescs (lbaToZone ns req.slba)).wp <
            lastLba req.slba req.nrLba) := by
        rw [not_or]
        exact ⟨Nat.not_lt.mpr hplaced.at_wp.ge,
          Nat.not_lt.mpr (hplaced.in_window hzrwav)⟩
      rw [znsWriteZrwaCheck, if_neg (not_not.mpr hplaced.aligned),
        hplaced.inside, if_neg Bool.true_eq_false.mp, if_neg hwindow] at hcheck
      exact absurd rfl hcheck
  | unopened hcheck hopen hstatus =>
      exact znsWriteZrwaOpen_status hsound hzid hzrwav hopen
  | written hcheck hopen hflush hmoved hpages =>
      exact znsWriteZrwaOpen_status hsound hzid hzrwav hopen

/-- A well-placed write that is not sent back for lack of buffer space reports
the status that names the cause, exactly when its zone has a random write area
or is neither full nor read-only. -/
theorem writeStatus_iff (hsound : Sound ns s) (hplaced : WellPlaced ns s req)
    (hrun : znsWrite ns s req ret = .ok (outcome, s'))
    (haccepted : outcome.accepted = true) :
    outcome.ret.status = expectedStatus s (lbaToZone ns req.slba) ↔
      (s.zoneDescs (lbaToZone ns req.slba)).zrwav = true ∨
        ((s.zoneDescs (lbaToZone ns req.slba)).state ≠ .full ∧
          (s.zoneDescs (lbaToZone ns req.slba)).state ≠ .readOnly) := by
  obtain ⟨-, ⟨hzrwav, hrun⟩ | ⟨hzrwav, hrun⟩⟩ := znsWrite_cases hrun
  · rw [zoneWrite_status_iff hsound hplaced hrun haccepted, hzrwav,
      or_iff_right Bool.false_ne_true]
    exact not_or
  · exact iff_of_true (zrwaWrite_status hsound hplaced hzrwav hrun haccepted)
      (.inl hzrwav)

/-- A write of the first zone whole, which a fresh zone accepts. -/
theorem wholeZone_status_iff :
    ∃ outcome s', Sound (twoZones 2) (twoZonesStart 2).ftl ∧
      WellPlaced (twoZones 2) (twoZonesStart 2).ftl wholeZone ∧
      znsWrite (twoZones 2) (twoZonesStart 2).ftl wholeZone ⟨0, 0, 0⟩ =
        .ok (outcome, s') ∧
      outcome.accepted = true ∧
      (outcome.ret.status = expectedStatus (twoZonesStart 2).ftl
          (lbaToZone (twoZones 2) wholeZone.slba) ↔
        ((twoZonesStart 2).ftl.zoneDescs
            (lbaToZone (twoZones 2) wholeZone.slba)).zrwav = true ∨
          (((twoZonesStart 2).ftl.zoneDescs
              (lbaToZone (twoZones 2) wholeZone.slba)).state ≠ .full ∧
            ((twoZonesStart 2).ftl.zoneDescs
              (lbaToZone (twoZones 2) wholeZone.slba)).state ≠ .readOnly)) := by
  have hvalues : (znsWrite (twoZones 2) (twoZonesStart 2).ftl wholeZone
      ⟨0, 0, 0⟩).toOption.map (fun result => result.1.accepted) =
        some true := by
    decide +kernel
  have hsound := reachable_sound (.start (twoZonesStart_init 2))
  have hplaced : WellPlaced (twoZones 2) (twoZonesStart 2).ftl wholeZone :=
    ⟨rfl, by decide, by decide, by decide, fun _ => by decide⟩
  generalize hrun : znsWrite _ _ _ _ = run at hvalues
  obtain _ | ⟨outcome, s'⟩ := run
  · cases hvalues
  · have haccepted : outcome.accepted = true := Option.some.inj hvalues
    exact ⟨outcome, s', hsound, hplaced, rfl, haccepted,
      writeStatus_iff hsound hplaced hrun haccepted⟩

/-- The host finishes the first zone. -/
def finishFirst : ZnsAction :=
  .mgmtSend ⟨0, .finishZone, false, false⟩ 0 0 ⟨0, 0, 0⟩

/-- The first zone is finished while it is empty.  A write at its write pointer
is then refused as if the zone were offline. -/
theorem finishedZone_reports_offline :
    ∃ state outcome s', Reachable (znsMachine (twoZones 2)) state ∧
      WellPlaced (twoZones 2) state.ftl wholeZone ∧
      (state.ftl.zoneDescs (lbaToZone (twoZones 2) wholeZone.slba)).state =
        .full ∧
      znsWrite (twoZones 2) state.ftl wholeZone ⟨0, 0, 0⟩ =
        .ok (outcome, s') ∧
      outcome.accepted = true ∧
      outcome.ret.status = scZnsErrOffline ∧
      expectedStatus state.ftl (lbaToZone (twoZones 2) wholeZone.slba) =
        scZnsErrFull := by
  have hvalues : ((znsMachine (twoZones 2)).run [finishFirst]
      (twoZonesStart 2)).bind (fun state =>
        (znsWrite (twoZones 2) state.ftl wholeZone ⟨0, 0, 0⟩).toOption.map
          fun result => (state.ftl.zoneDescs 0, result.1.accepted,
            result.1.ret.status)) =
      some (⟨.full, false, 16, 0, 0⟩, true, scZnsErrOffline) := by
    decide +kernel
  obtain ⟨state, ⟨outcome, s'⟩, hreach, hwrite, hvalue⟩ :=
    Reachable.run_then (.start (twoZonesStart_init 2)) hvalues
  simp only [Prod.mk.injEq] at hvalue
  obtain ⟨hdesc, haccepted, hstatus⟩ := hvalue
  have hzid : lbaToZone (twoZones 2) wholeZone.slba = 0 := by decide
  have hplaced : WellPlaced (twoZones 2) state.ftl wholeZone := by
    refine ⟨rfl, by decide, by decide, ?_, fun _ => ?_⟩ <;>
      rw [hzid, hdesc] <;> decide
  refine ⟨state, outcome, s', hreach, hplaced, ?_, hwrite, haccepted,
    hstatus, ?_⟩
  · rw [hzid, hdesc]
  · rw [expectedStatus, hzid, hdesc]

end NvmeVirt.WriteStatus
