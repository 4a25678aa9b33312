import NvmeVirt.Zns.Resources

/-!
# What a failed write leaves behind

`__zns_write` reserves its buffer space, and rewrites the start LBA of an
append, ahead of every check; an error gives nothing back.
`__zns_write_zrwa` checks first, but it opens the zone before the reservation
that can still send the write back.
-/

namespace NvmeVirt.FailedWrites

open NvmeVirt.Commands
open NvmeVirt.Kernel
open NvmeVirt.Layout
open NvmeVirt.MgmtSend
open NvmeVirt.ReadWrite
open NvmeVirt.Resources
open NvmeVirt.Timing
open NvmeVirt.Transition
open NvmeVirt.WriteCases
open NvmeVirt.ZoneMoves
open NvmeVirt.Zones

/-- The write is to be submitted again, or it ends with an error status. -/
def Fails (outcome : WriteOutcome) : Prop :=
  outcome.accepted = false ∨ outcome.ret.status ≠ scSuccess

instance (outcome : WriteOutcome) : Decidable (Fails outcome) :=
  inferInstanceAs (Decidable (_ ∨ _))

/-- The zones, the counters, the bytes of the buffer `id` and the command are
as before. -/
structure Unchanged (req : RwRequest) (id : BufferId) (outcome : WriteOutcome)
    (s s' : ZnsFtl) : Prop where
  zoneDescs : s'.zoneDescs = s.zoneDescs
  resInfos : s'.resInfos = s.resInfos
  remaining : (s'.buffer id).remaining = (s.buffer id).remaining
  command : outcome.slba = req.slba

variable {ns : ZnsNamespace} {s s' : ZnsFtl} {req : RwRequest}
  {ret : NvmevResult} {outcome : WriteOutcome}

/-! ## Zones without a random write area -/

/-- A zone that a write at `slba` finds open, or can open. -/
def Openable (s : ZnsFtl) (zid slba : ℕ) : Prop :=
  match (s.zoneDescs zid).state with
  | .empty => slba = (s.zoneDescs zid).zslba ∧
      (s.resInfos .activeZone).acquiredCnt ≠
        (s.resInfos .activeZone).totalCnt ∧
      (s.resInfos .openZone).acquiredCnt < (s.resInfos .openZone).totalCnt
  | .closed =>
      (s.resInfos .openZone).acquiredCnt < (s.resInfos .openZone).totalCnt
  | .openedImpl | .openedExpl => True
  | .full | .readOnly | .offline => False

/-- The write is unit-aligned, inside one zone and at the write pointer of a
zone that is open or can be opened. -/
structure Writable (ns : ZnsNamespace) (s : ZnsFtl) (req : RwRequest) :
    Prop where
  aligned : lbaToByte req.nrLba % ns.writeUnitSize = 0
  inside : checkBoundaryError ns
    (startLba req (s.zoneDescs (lbaToZone ns req.slba))) req.nrLba = true
  at_wp : startLba req (s.zoneDescs (lbaToZone ns req.slba)) =
    (s.zoneDescs (lbaToZone ns req.slba)).wp
  openable : Openable s (lbaToZone ns req.slba)
    (startLba req (s.zoneDescs (lbaToZone ns req.slba)))

/-- Where the buffer has room nothing is wrong with the write; where it has
none, the command is no append, or its start LBA is the write pointer
already. -/
def LosesNothing (ns : ZnsNamespace) (s : ZnsFtl) (req : RwRequest) : Prop :=
  (req.bytes ≤ (s.buffer
      (writeBufferOf ns (lbaToZone ns req.slba))).remaining →
    Writable ns s req) ∧
  ((s.buffer (writeBufferOf ns (lbaToZone ns req.slba))).remaining <
      req.bytes →
    req.opcode = .write ∨
      (s.zoneDescs (lbaToZone ns req.slba)).wp = req.slba)

theorem scZnsInvalidWrite_ne : scZnsInvalidWrite ≠ scSuccess := by decide

theorem scZnsNoActiveZone_ne : scZnsNoActiveZone ≠ scSuccess := by decide

theorem openClosedZone_fst (zid : ℕ) (state : ZoneState) :
    (openClosedZone s zid state).1 = scSuccess ↔
      (s.resInfos .openZone).acquiredCnt <
        (s.resInfos .openZone).totalCnt := by
  rw [openClosedZone]
  by_cases havail : (s.resInfos .openZone).acquiredCnt <
      (s.resInfos .openZone).totalCnt
  · rw [acquireZoneResource_of_lt havail]
    exact iff_of_true rfl havail
  · rw [acquireZoneResource_of_not_lt havail]
    exact iff_of_false scZnsNoOpenZone_ne havail

/-- Acquiring one resource leaves the others. -/
theorem acquireZoneResource_resInfos {type other : ZoneResourceType}
    (hne : other ≠ type) :
    (acquireZoneResource s type).2.resInfos other = s.resInfos other := by
  rw [acquireZoneResource]
  split_ifs
  · exact Function.update_of_ne hne _ _
  · rfl

/-- The switch of `__zns_write` succeeds on the zones that can be opened. -/
theorem znsWriteOpen_fst (zid slba : ℕ) :
    (znsWriteOpen s zid slba).1 = scSuccess ↔ Openable s zid slba := by
  rw [znsWriteOpen, Openable]
  cases hstate : (s.zoneDescs zid).state
  case empty =>
    dsimp only
    split_ifs with hslba hactive hopen
    · exact iff_of_false scZnsInvalidWrite_ne fun h => hslba h.1
    · exact iff_of_false scZnsNoActiveZone_ne fun h =>
        h.2.1 (of_decide_eq_true hactive)
    · exact iff_of_false scZnsNoOpenZone_ne fun h =>
        h.2.2.ne (of_decide_eq_true hopen)
    · rw [openClosedZone_fst,
        acquireZoneResource_resInfos (by decide : .openZone ≠ .activeZone)]
      have hactive : (s.resInfos .activeZone).acquiredCnt ≠
          (s.resInfos .activeZone).totalCnt := by
        simpa [isZoneResourceFull] using hactive
      rw [and_iff_right (not_not.mp hslba), and_iff_right hactive]
  case closed => exact openClosedZone_fst zid .openedImpl
  case openedImpl | openedExpl => exact iff_of_true rfl trivial
  all_goals exact iff_of_false scZnsErrOffline_ne id

/-- The reservation does not change which zones can be opened. -/
theorem znsWriteOpen_fst_taken (id : BufferId) (bytes zid slba : ℕ) :
    (znsWriteOpen (takeBytes s id bytes) zid slba).1 = scSuccess ↔
      Openable s zid slba := by
  rw [znsWriteOpen_fst, Openable, Openable, takeBytes_zoneDescs,
    takeBytes_resInfos]

theorem znsWriteCheck_eq_success {desc : ZoneDescriptor} {slba nrLba : ℕ} :
    znsWriteCheck ns desc slba nrLba = scSuccess ↔
      lbaToByte nrLba % ns.writeUnitSize = 0 ∧
        checkBoundaryError ns slba nrLba = true ∧ slba = desc.wp := by
  constructor
  · intro hcheck
    obtain ⟨hunit, hinside, hwp⟩ := of_znsWriteCheck hcheck
    exact ⟨Nat.mod_eq_zero_of_dvd hunit, hinside, hwp⟩
  · rintro ⟨hunit, hinside, hwp⟩
    rw [znsWriteCheck, if_neg (not_not.mpr hunit), hinside,
      if_neg Bool.true_eq_false.mp, if_neg (not_not.mpr hwp)]

/-- `__zns_write` returns for every zone of the namespace. -/
theorem znsWriteZone_returns (hzid : lbaToZone ns req.slba < ns.zp.nrZones) :
    ∃ outcome s', znsWriteZone ns s req ret = .ok (outcome, s') := by
  rw [znsWriteZone, zoneDesc, if_pos hzid, ok_bind]
  dsimp only
  split
  · exact ⟨_, _, rfl⟩
  · split
    · exact ⟨_, _, rfl⟩
    · split
      · exact ⟨_, _, rfl⟩
      · exact ⟨_, _, rfl⟩

/-- A write to a zone of the namespace without a random write area leaves
everything when it fails, exactly when it does not fail with its buffer space
reserved, and is no append sent back with another start LBA. -/
theorem failedZoneWrite_unchanged_iff (ret : NvmevResult)
    (hzid : lbaToZone ns req.slba < ns.zp.nrZones) :
    ∃ outcome s', znsWriteZone ns s req ret = .ok (outcome, s') ∧
      ((Fails outcome → Unchanged req (writeBufferOf ns
          (lbaToZone ns req.slba)) outcome s s') ↔
        LosesNothing ns s req) := by
  obtain ⟨outcome, s', hrun⟩ := @znsWriteZone_returns ns s req ret hzid
  refine ⟨outcome, s', hrun, ?_⟩
  obtain ⟨-, hcase⟩ := znsWriteZone_cases hrun
  have hpos := RwRequest.bytes_pos req
  -- an error status comes with the bytes taken
  have hlost : ∀ s₁ : ZnsFtl,
      s₁.buffer = (takeBytes s (writeBufferOf ns (lbaToZone ns req.slba))
        req.bytes).buffer →
      req.bytes ≤ (s.buffer
        (writeBufferOf ns (lbaToZone ns req.slba))).remaining →
      ¬ Unchanged req (writeBufferOf ns (lbaToZone ns req.slba)) outcome s
        s₁ := by
    intro s₁ hbuffer hroom hunchanged
    have hremaining := hunchanged.remaining
    rw [hbuffer, takeBytes, setBuffer_buffer, if_pos rfl] at hremaining
    dsimp only at hremaining
    omega
  cases hcase with
  | retry hfull =>
      constructor
      · intro hkeeps
        have hcommand := (hkeeps (.inl rfl)).command
        refine ⟨fun hroom => by omega, fun _ => ?_⟩
        cases hopcode : req.opcode with
        | write => exact .inl rfl
        | zoneAppend =>
            right
            rw [retryOutcome, startLba, hopcode] at hcommand
            exact hcommand
      · rintro ⟨-, hcommand⟩ -
        refine ⟨rfl, rfl, rfl, ?_⟩
        rw [retryOutcome, startLba]
        cases hopcode : req.opcode with
        | write => rfl
        | zoneAppend => exact (hcommand hfull).resolve_left (by simp [hopcode])
  | refused hroom hcheck =>
      apply iff_of_false
      · intro hkeeps
        exact hlost _ rfl hroom (hkeeps (.inr hcheck))
      · rintro ⟨hwritable, -⟩
        obtain ⟨haligned, hinside, hwp, -⟩ := hwritable hroom
        exact hcheck (znsWriteCheck_eq_success.mpr ⟨haligned, hinside, hwp⟩)
  | @unopened status s₁ hroom hcheck hopen hstatus =>
      apply iff_of_false
      · intro hkeeps
        have hbuffer := (znsWriteOpen_failed hopen hstatus).2
        exact hlost _ hbuffer hroom (hkeeps (.inr hstatus))
      · rintro ⟨hwritable, -⟩
        have hopens := (hwritable hroom).openable
        rw [← znsWriteOpen_fst_taken (writeBufferOf ns (lbaToZone ns req.slba))
          req.bytes, hopen] at hopens
        exact hstatus hopens
  | written hroom hcheck hopen hpages =>
      apply iff_of_true
      · rintro (haccepted | hstatus)
        · cases haccepted
        · exact absurd rfl hstatus
      · obtain ⟨haligned, hinside, hwp⟩ := znsWriteCheck_eq_success.mp hcheck
        have hopens := (znsWriteOpen_fst_taken _ _ _ _).mp
          (congrArg Prod.fst hopen)
        exact ⟨fun _ => ⟨haligned, hinside, hwp, hopens⟩,
          fun hfull => by omega⟩

/-- The first zone of the example, whole. -/
def wholeZone : RwRequest := ⟨1, 0, .write, 0, 15, fifteen_lt_bits, false⟩

/-- The host writes the first page of the first zone. -/
def writeFirstPage : ZnsAction :=
  .write ⟨1, 0, .write, 0, 7, seven_lt_bits, false⟩ ⟨0, 0, 0⟩

/-- Behind the first page a write of the whole zone fails. -/
theorem wholeZone_unchanged_iff :
    lbaToZone (twoZones 2) wholeZone.slba < (twoZones 2).zp.nrZones ∧
      ∃ state outcome s', Reachable (znsMachine (twoZones 2)) state ∧
        znsWriteZone (twoZones 2) state.ftl wholeZone ⟨0, 0, 0⟩ =
          .ok (outcome, s') ∧
        outcome.ret.status = scZnsInvalidWrite ∧
        ((Fails outcome → Unchanged wholeZone (writeBufferOf (twoZones 2)
            (lbaToZone (twoZones 2) wholeZone.slba)) outcome state.ftl s') ↔
          LosesNothing (twoZones 2) state.ftl wholeZone) := by
  have hvalues : ((znsMachine (twoZones 2)).run [writeFirstPage]
      (twoZonesStart 2)).bind (fun state =>
        (znsWriteZone (twoZones 2) state.ftl wholeZone ⟨0, 0, 0⟩).toOption.map
          fun result => result.1.ret.status) = some scZnsInvalidWrite := by
    decide +kernel
  obtain ⟨state, ⟨outcome, s'⟩, hreach, hwrite, hstatus⟩ :=
    Reachable.run_then (.start (twoZonesStart_init 2)) hvalues
  have hzid : lbaToZone (twoZones 2) wholeZone.slba <
    (twoZones 2).zp.nrZones := by decide
  obtain ⟨outcome', after, hrun, hiff⟩ :=
    @failedZoneWrite_unchanged_iff _ state.ftl wholeZone ⟨0, 0, 0⟩ hzid
  cases hwrite.symm.trans hrun
  exact ⟨hzid, state, outcome, s', hreach, hwrite, hstatus, hiff⟩

/-- The second page of the first zone. -/
def secondPage : RwRequest := ⟨1, 0, .write, 8, 7, seven_lt_bits, false⟩

/-- A write behind the write pointer of a fresh zone is an invalid write, and
costs its zone the bytes of the page. -/
theorem misplacedWrite_loses :
    ∃ outcome s', znsWriteZone (twoZones 2) (twoZonesStart 2).ftl secondPage
        ⟨0, 0, 0⟩ = .ok (outcome, s') ∧
      outcome.ret.status = scZnsInvalidWrite ∧
      ((twoZonesStart 2).ftl.zoneWriteBuffer 0).remaining = 16384 ∧
      (s'.zoneWriteBuffer 0).remaining = 12288 := by
  have hvalues : (znsWriteZone (twoZones 2) (twoZonesStart 2).ftl secondPage
      ⟨0, 0, 0⟩).toOption.map (fun result => (result.1.ret.status,
        (result.2.zoneWriteBuffer 0).remaining)) =
      some (scZnsInvalidWrite, 12288) := by
    decide +kernel
  generalize znsWriteZone _ _ _ _ = run at hvalues ⊢
  obtain _ | ⟨outcome, s'⟩ := run
  · cases hvalues
  · obtain ⟨hstatus, hremaining⟩ := Prod.mk.inj (Option.some.inj hvalues)
    exact ⟨outcome, s', rfl, hstatus, rfl, hremaining⟩

/-! ## Zones with a random write area -/

/-- The zones, the counters and the ZRWA buffer of the zone are as before. -/
structure ZrwaUnchanged (zid : ℕ) (s s' : ZnsFtl) : Prop where
  zoneDescs : s'.zoneDescs = s.zoneDescs
  resInfos : s'.resInfos = s.resInfos
  zwraBuffer : s'.zwraBuffer zid = s.zwraBuffer zid

/-- The switch of `__zns_write_zrwa` opens the zone: it is closed or empty, an
open resource is left, and its buffer has room for a random write area. -/
structure OpensZrwa (ns : ZnsNamespace) (s : ZnsFtl) (zid : ℕ) : Prop where
  unopened : (s.zoneDescs zid).state = .closed ∨
    (s.zoneDescs zid).state = .empty
  avail : (s.resInfos .openZone).acquiredCnt <
    (s.resInfos .openZone).totalCnt
  zrwaSize_pos : 0 < ns.zp.zrwaSize
  room : ns.zp.zrwaSize ≤ (s.zwraBuffer zid).remaining

/-- The write passes the checks, and has `nrLbas` blocks to flush. -/
structure Flushes (ns : ZnsNamespace) (s : ZnsFtl) (req : RwRequest)
    (nrLbas : ℕ) : Prop where
  check : znsWriteZrwaCheck ns (s.zoneDescs (lbaToZone ns req.slba)) req.slba
    req.nrLba = scSuccess
  buffered : ns.zp.zrwaBufferSize ≠ 0
  flush : nrLbasFlush ns (lbaToZone ns req.slba)
    (s.zoneDescs (lbaToZone ns req.slba)).wp
    (lastLba req.slba req.nrLba) = .ok nrLbas
  pos : nrLbas ≠ 0

/-- A write that opens its zone and then finds no room for its flush; or, in a
zone that was opened before, a flush that `buffer_allocate` grants with a
count of bytes that 32 bits do not hold. -/
def SentBackLate (ns : ZnsNamespace) (s : ZnsFtl) (req : RwRequest) : Prop :=
  ∃ nrLbas, Flushes ns s req nrLbas ∧
    ((OpensZrwa ns s (lbaToZone ns req.slba) ∧
        ((s.zwraBuffer (lbaToZone ns req.slba)).remaining <
            ns.zp.zrwaSize + lbaToByte nrLbas ∨
          u32 (lbaToByte nrLbas) = 0)) ∨
      (isOpened (s.zoneDescs (lbaToZone ns req.slba)).state = true ∧
        lbaToByte nrLbas ≤
          (s.zwraBuffer (lbaToZone ns req.slba)).remaining ∧
        u32 (lbaToByte nrLbas) = 0))

theorem zrwaSize_lt (ns : ZnsNamespace) : ns.zp.zrwaSize < 2 ^ 32 :=
  (of_znsInitParams ns.zp_eq).2.2.2.2.2.2.2.1

/-- A flush is refused where the buffer grants nothing. -/
theorem flushImplicit_refused {zid nrLbas : ℕ}
    (hbuffered : ns.zp.zrwaBufferSize ≠ 0) (hpos : nrLbas ≠ 0)
    (hnone : (bufferAllocate (s.zwraBuffer zid) (lbaToByte nrLbas)).1 = 0) :
    flushImplicit ns s zid nrLbas =
      .ok (false, s.setBuffer (.zrwa zid)
        (bufferAllocate (s.zwraBuffer zid) (lbaToByte nrLbas)).2) := by
  rw [flushImplicit, if_neg hpos, zwraBufferAt, if_neg hbuffered, ok_bind]
  dsimp only
  rw [if_pos hnone]
  rfl

theorem bufferAllocate_fst_eq_zero {buf : Buffer} {bytes : ℕ} :
    (bufferAllocate buf bytes).1 = 0 ↔
      buf.remaining < bytes ∨ u32 bytes = 0 := by
  by_cases hroom : bytes ≤ buf.remaining
  · rw [bufferAllocate_of_le hroom, or_iff_right (Nat.not_lt.mpr hroom)]
  · have hlt := Nat.lt_of_not_le hroom
    rw [bufferAllocate_of_lt hlt]
    exact iff_of_true rfl (.inl hlt)

theorem znsWriteZrwaOpen_unopened {zid : ℕ}
    (hunopened : (s.zoneDescs zid).state = .closed ∨
      (s.zoneDescs zid).state = .empty) :
    znsWriteZrwaOpen ns s zid = openZrwaZone ns s zid := by
  rw [znsWriteZrwaOpen]
  rcases hunopened with hstate | hstate <;> rw [hstate]

/-- The zone that the switch opens, with the bytes of its area taken. -/
theorem znsWriteZrwaOpen_of {zid : ℕ} (hopens : OpensZrwa ns s zid)
    (hbuffered : ns.zp.zrwaBufferSize ≠ 0) :
    znsWriteZrwaOpen ns s zid = .ok (scSuccess,
      changeZoneState (takeBytes (acquireZoneResource s .openZone).2
        (.zrwa zid) ns.zp.zrwaSize) zid .openedImpl) := by
  have hgranted : u32 ns.zp.zrwaSize ≠ 0 := by
    rw [u32_of_lt (zrwaSize_lt ns)]
    exact hopens.zrwaSize_pos.ne'
  have hacquire := acquireZoneResource_of_lt hopens.avail
  have hbuf : (setAcquiredCnt s .openZone
      (u32 ((s.resInfos .openZone).acquiredCnt + 1))).zwraBuffer zid =
        s.zwraBuffer zid := rfl
  rw [znsWriteZrwaOpen_unopened hopens.unopened, openZrwaZone, hacquire]
  dsimp only
  rw [if_pos rfl, zwraBufferAt, if_neg hbuffered, ok_bind, hbuf,
    bufferAllocate_of_le hopens.room]
  dsimp only
  rw [nvmevAssert_of hgranted]
  rfl

/-- The assertion of the switch refuses a random write area of no bytes. -/
theorem zrwaSize_pos_of_openZrwaZone {zid : ℕ}
    (hopen : openZrwaZone ns s zid = .ok (scSuccess, s')) :
    0 < ns.zp.zrwaSize := by
  by_contra hzero
  rw [openZrwaZone] at hopen
  dsimp only at hopen
  split_ifs at hopen
  · obtain ⟨buf, -, hopen⟩ := bind_eq_ok hopen
    obtain ⟨_, hgranted, -⟩ := bind_eq_ok hopen
    have hne := of_nvmevAssert hgranted
    rw [Nat.eq_zero_of_not_pos hzero] at hne
    exact hne (bufferAllocate_fst_eq_zero.mpr (.inr rfl))
  · exact not_success (Except.ok.inj hopen) scZnsNoOpenZone_ne

/-- A write that is sent back by its flush. -/
theorem znsWriteZrwa_retry {s₁ s₂ : ZnsFtl} {nrLbas : ℕ}
    (hzid : lbaToZone ns req.slba < ns.zp.nrZones)
    (hflushes : Flushes ns s req nrLbas)
    (hopen : znsWriteZrwaOpen ns s (lbaToZone ns req.slba) =
      .ok (scSuccess, s₁))
    (hnone : (bufferAllocate (s₁.zwraBuffer (lbaToZone ns req.slba))
      (lbaToByte nrLbas)).1 = 0)
    (hs₂ : s₂ = s₁.setBuffer (.zrwa (lbaToZone ns req.slba))
      (bufferAllocate (s₁.zwraBuffer (lbaToZone ns req.slba))
        (lbaToByte nrLbas)).2) :
    znsWriteZrwa ns s req ret = .ok (retryOutcome ret req.slba, s₂) := by
  rw [znsWriteZrwa, zoneDesc, if_pos hzid, ok_bind]
  dsimp only
  rw [if_neg (not_not.mpr hflushes.check), hopen, ok_bind]
  dsimp only
  rw [if_neg (not_not.mpr rfl), hflushes.flush, ok_bind,
    flushImplicit_refused hflushes.buffered hflushes.pos hnone, ok_bind, hs₂]
  rfl

/-- A write that is sent back late has opened its zone, or lost bytes of its
buffer. -/
theorem SentBackLate.changes (ret : NvmevResult)
    (hzid : lbaToZone ns req.slba < ns.zp.nrZones)
    (hlate : SentBackLate ns s req) :
    ∃ s', znsWriteZrwa ns s req ret = .ok (retryOutcome ret req.slba, s') ∧
      ¬ ZrwaUnchanged (lbaToZone ns req.slba) s s' := by
  obtain ⟨nrLbas, hflushes, ⟨hopens, hfull⟩ | ⟨hopened, hroom, hwraps⟩⟩ :=
    hlate
  · have hroom := hopens.room
    have hbuf : (changeZoneState (takeBytes
        (acquireZoneResource s .openZone).2
        (.zrwa (lbaToZone ns req.slba)) ns.zp.zrwaSize)
        (lbaToZone ns req.slba) .openedImpl).zwraBuffer
          (lbaToZone ns req.slba) =
        { s.zwraBuffer (lbaToZone ns req.slba) with
          remaining := (s.zwraBuffer (lbaToZone ns req.slba)).remaining -
            ns.zp.zrwaSize } := by
      rw [acquireZoneResource_of_lt hopens.avail]
      exact Function.update_self ..
    refine ⟨_, znsWriteZrwa_retry hzid hflushes
      (znsWriteZrwaOpen_of hopens hflushes.buffered) ?_ rfl, ?_⟩
    · rw [hbuf, bufferAllocate_fst_eq_zero]
      refine hfull.imp (fun hlt => ?_) id
      dsimp only
      omega
    · -- the zone is open now
      intro hunchanged
      have hstate := congrArg ZoneDescriptor.state
        (congrFun hunchanged.zoneDescs (lbaToZone ns req.slba))
      simp only [setBuffer_zoneDescs, changeZoneState_zoneDescs,
        Function.update_self] at hstate
      rcases hopens.unopened with hunopened | hunopened <;>
        rw [hunopened] at hstate <;> cases hstate
  · have hopen : znsWriteZrwaOpen ns s (lbaToZone ns req.slba) =
        .ok (scSuccess, s) := by
      rw [znsWriteZrwaOpen]
      cases hstate : (s.zoneDescs (lbaToZone ns req.slba)).state <;>
        rw [hstate] at hopened <;> first | rfl | cases hopened
    refine ⟨_, znsWriteZrwa_retry hzid hflushes hopen
      (bufferAllocate_fst_eq_zero.mpr (.inr hwraps)) rfl, ?_⟩
    -- the bytes are taken, and the count of none comes back
    intro hunchanged
    have hbuf := hunchanged.zwraBuffer
    rw [bufferAllocate_of_le hroom] at hbuf
    have hremaining := congrArg Buffer.remaining hbuf
    have hpos : 0 < lbaToByte nrLbas :=
      Nat.mul_pos (Nat.pos_of_ne_zero hflushes.pos) (by decide)
    simp only [ZnsFtl.setBuffer, Function.update_self] at hremaining
    omega

/-- Any other write that is sent back leaves everything. -/
theorem retry_unchanged {s₁ s₂ : ZnsFtl} {nrLbas : ℕ}
    (hcheck : znsWriteZrwaCheck ns (s.zoneDescs (lbaToZone ns req.slba))
      req.slba req.nrLba = scSuccess)
    (hopen : znsWriteZrwaOpen ns s (lbaToZone ns req.slba) =
      .ok (scSuccess, s₁))
    (hflush : nrLbasFlush ns (lbaToZone ns req.slba)
      (s.zoneDescs (lbaToZone ns req.slba)).wp
      (lastLba req.slba req.nrLba) = .ok nrLbas)
    (hfull : flushImplicit ns s₁ (lbaToZone ns req.slba) nrLbas =
      .ok (false, s₂))
    (hnot : ¬ SentBackLate ns s req) :
    ZrwaUnchanged (lbaToZone ns req.slba) s s₂ := by
  rcases flushImplicit_cases hfull with ⟨-, hmoved, -⟩ |
    ⟨hpos, hbuffered, granted, buf, halloc, ⟨hgranted, -, rfl⟩ |
      ⟨-, hmoved, -⟩⟩
  · cases hmoved
  · have hflushes : Flushes ns s req nrLbas := ⟨hcheck, hbuffered, hflush, hpos⟩
    have hnone := congrArg Prod.fst halloc
    rw [hgranted, bufferAllocate_fst_eq_zero] at hnone
    rcases znsWriteZrwaOpen_cases hopen with ⟨rfl, hopened⟩ |
      ⟨-, hunopened, havail, -, hroom, rfl⟩
    · by_cases hfits : lbaToByte nrLbas ≤
          (s₁.zwraBuffer (lbaToZone ns req.slba)).remaining
      · have hwraps := hnone.resolve_left (Nat.not_lt.mpr hfits)
        exact absurd ⟨nrLbas, hflushes,
          .inr ⟨hopened rfl, hfits, hwraps⟩⟩ hnot
      · rw [bufferAllocate_of_lt (Nat.lt_of_not_le hfits)] at halloc
        cases halloc
        have hsame := setBuffer_self s₁ (.zrwa (lbaToZone ns req.slba))
        rw [ZnsFtl.buffer] at hsame
        rw [hsame]
        exact ⟨rfl, rfl, rfl⟩
    · rw [znsWriteZrwaOpen_unopened hunopened] at hopen
      have hopens : OpensZrwa ns s (lbaToZone ns req.slba) :=
        ⟨hunopened, havail, zrwaSize_pos_of_openZrwaZone hopen, hroom⟩
      refine absurd ⟨nrLbas, hflushes, .inl ⟨hopens, ?_⟩⟩ hnot
      rw [acquireZoneResource_of_lt havail] at hnone
      refine hnone.imp (fun hlt => ?_) id
      simp only [changeZoneState, setZoneDesc, takeBytes, ZnsFtl.setBuffer,
        ZnsFtl.buffer, setAcquiredCnt, Function.update_self] at hlt
      omega
  · cases hmoved

/-- A write to a zone of the namespace with a random write area leaves the
zones, the counters and the buffer of the zone when it fails, exactly when it
is not sent back late. -/
theorem failedZrwaWrite_unchanged_iff (ret : NvmevResult)
    (hzid : lbaToZone ns req.slba < ns.zp.nrZones) :
    (∀ outcome s', znsWriteZrwa ns s req ret = .ok (outcome, s') →
      Fails outcome → ZrwaUnchanged (lbaToZone ns req.slba) s s') ↔
      ¬ SentBackLate ns s req := by
  constructor
  · intro hkeeps hlate
    obtain ⟨s', hrun, hchanged⟩ := hlate.changes ret hzid
    exact hchanged (hkeeps _ s' hrun (.inl rfl))
  · intro hnot outcome s' hrun hfails
    obtain ⟨-, hcase⟩ := znsWriteZrwa_cases hrun
    cases hcase with
    | refused => exact ⟨rfl, rfl, rfl⟩
    | unopened hcheck hopen hstatus =>
        rcases znsWriteZrwaOpen_cases hopen with ⟨rfl, -⟩ | ⟨hsuccess, -⟩
        · exact ⟨rfl, rfl, rfl⟩
        · exact absurd hsuccess hstatus
    | written =>
        rcases hfails with haccepted | hstatus
        · cases haccepted
        · exact absurd rfl hstatus
    | retry hcheck hopen hflush hfull =>
        exact retry_unchanged hcheck hopen hflush hfull hnot

/-- The host closes the first zone. -/
def closeFirst : ZnsAction :=
  .mgmtSend ⟨0, .closeZone, false, false⟩ 0 0 ⟨0, 0, 0⟩

/-- Two reopenings take the whole ZRWA buffer, and a write of the whole zone,
which has a random write area, is sent back. -/
theorem wholeZone_zrwaUnchanged_iff :
    lbaToZone (twoZones 2) wholeZone.slba < (twoZones 2).zp.nrZones ∧
      ∃ state outcome s', Reachable (znsMachine (twoZones 2)) state ∧
        (state.ftl.zoneDescs 0).zrwav = true ∧
        znsWriteZrwa (twoZones 2) state.ftl wholeZone ⟨0, 0, 0⟩ =
          .ok (outcome, s') ∧
        outcome.accepted = false ∧
        ((∀ outcome s', znsWriteZrwa (twoZones 2) state.ftl wholeZone
            ⟨0, 0, 0⟩ = .ok (outcome, s') → Fails outcome →
              ZrwaUnchanged (lbaToZone (twoZones 2) wholeZone.slba)
                state.ftl s') ↔
          ¬ SentBackLate (twoZones 2) state.ftl wholeZone) := by
  have hvalues : ((znsMachine (twoZones 2)).run
      [openZrwa (twoZones 2) 0, closeFirst, writeFirstPage, closeFirst,
        writeFirstPage] (twoZonesStart 2)).bind (fun state =>
        (znsWriteZrwa (twoZones 2) state.ftl wholeZone ⟨0, 0, 0⟩).toOption.map
          fun result => ((state.ftl.zoneDescs 0).zrwav, result.1.accepted)) =
      some (true, false) := by
    decide +kernel
  obtain ⟨state, ⟨outcome, s'⟩, hreach, hwrite, hvalue⟩ :=
    Reachable.run_then (.start (twoZonesStart_init 2)) hvalues
  obtain ⟨hzrwav, haccepted⟩ := Prod.mk.inj hvalue
  have hzid : lbaToZone (twoZones 2) wholeZone.slba <
    (twoZones 2).zp.nrZones := by decide
  exact ⟨hzid, state, outcome, s', hreach, hzrwav, hwrite, haccepted,
    @failedZrwaWrite_unchanged_iff _ state.ftl wholeZone ⟨0, 0, 0⟩ hzid⟩

/-- The first zone is opened with a random write area, and twice closed, with
a write between that reserves half of its buffer.  The next write reserves the
other half and has nothing left to flush with. -/
theorem lastPage_sentBackLate :
    ∃ state outcome s', Reachable (znsMachine (twoZones 2)) state ∧
      (state.ftl.zoneDescs 0).zrwav = true ∧
      znsWriteZrwa (twoZones 2) state.ftl secondPage ⟨0, 0, 0⟩ =
        .ok (outcome, s') ∧
      outcome.accepted = false ∧
      (state.ftl.zoneDescs 0).state = .closed ∧
      (s'.zoneDescs 0).state = .openedImpl ∧
      (state.ftl.zwraBuffer 0).remaining = 8192 ∧
      (s'.zwraBuffer 0).remaining = 0 := by
  have hvalues : ((znsMachine (twoZones 2)).run
      [openZrwa (twoZones 2) 0, closeFirst, writeFirstPage, closeFirst]
      (twoZonesStart 2)).bind (fun state =>
        (znsWriteZrwa (twoZones 2) state.ftl secondPage ⟨0, 0, 0⟩).toOption.map
          fun result => ((state.ftl.zoneDescs 0).zrwav, result.1.accepted,
            (state.ftl.zoneDescs 0).state, (result.2.zoneDescs 0).state,
            (state.ftl.zwraBuffer 0).remaining,
            (result.2.zwraBuffer 0).remaining)) =
      some (true, false, .closed, .openedImpl, 8192, 0) := by
    decide +kernel
  obtain ⟨state, ⟨outcome, s'⟩, hreach, hwrite, hvalue⟩ :=
    Reachable.run_then (.start (twoZonesStart_init 2)) hvalues
  simp only [Prod.mk.injEq] at hvalue
  obtain ⟨hzrwav, haccepted, hclosed, hopened, hbefore, hafter⟩ := hvalue
  exact ⟨state, outcome, s', hreach, hzrwav, hwrite, haccepted, hclosed,
    hopened, hbefore, hafter⟩

end NvmeVirt.FailedWrites
