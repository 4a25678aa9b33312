import NvmeVirt.Zns.ZoneMoves

/-!
# The ways a zone write ends

One inversion lemma for either write function: what it returns and which state
it leaves, with the checks that lead there.  From it, a write is a chain of
steps of its zone, and the only step that keeps a resource is the implicit
flush that fills a zone with a random write area.
-/

namespace NvmeVirt.WriteCases

open NvmeVirt.Kernel
open NvmeVirt.MgmtSend
open NvmeVirt.ReadWrite
open NvmeVirt.Timing
open NvmeVirt.Transition
open NvmeVirt.ZoneMoves
open NvmeVirt.Zones

/-- The state after `bytes` bytes were taken from a buffer. -/
def takeBytes (s : ZnsFtl) (id : BufferId) (bytes : ℕ) : ZnsFtl :=
  s.setBuffer id
    { s.buffer id with remaining := (s.buffer id).remaining - bytes }

@[simp]
theorem takeBytes_zoneDescs (s : ZnsFtl) (id : BufferId) (bytes : ℕ) :
    (takeBytes s id bytes).zoneDescs = s.zoneDescs :=
  setBuffer_zoneDescs s id _

@[simp]
theorem takeBytes_resInfos (s : ZnsFtl) (id : BufferId) (bytes : ℕ) :
    (takeBytes s id bytes).resInfos = s.resInfos :=
  setBuffer_resInfos s id _

theorem takeBytes_buffer {s : ZnsFtl} (id other : BufferId) (bytes : ℕ) :
    (takeBytes s id bytes).buffer other =
      if other = id then
        { s.buffer id with remaining := (s.buffer id).remaining - bytes }
      else s.buffer other := setBuffer_buffer id other _

section

variable (ns : ZnsNamespace)

/-- The ways `__zns_write` ends on the zone `zid` with descriptor `desc`. -/
inductive ZoneWrite (s : ZnsFtl) (req : RwRequest) (ret : NvmevResult)
    (zid : ℕ) (desc : ZoneDescriptor) : WriteOutcome → ZnsFtl → Prop
  | retry (hfull : (s.buffer (writeBufferOf ns zid)).remaining < req.bytes) :
      ZoneWrite s req ret zid desc
        (retryOutcome (appendRet req desc ret) (startLba req desc)) s
  | refused
      (hroom : req.bytes ≤ (s.buffer (writeBufferOf ns zid)).remaining)
      (hcheck : znsWriteCheck ns desc (startLba req desc) req.nrLba ≠
        scSuccess) :
      ZoneWrite s req ret zid desc
        (refusedOutcome ns req (appendRet req desc ret) (startLba req desc)
          (znsWriteCheck ns desc (startLba req desc) req.nrLba))
        (takeBytes s (writeBufferOf ns zid) req.bytes)
  | unopened {status : ℕ} {s₁ : ZnsFtl}
      (hroom : req.bytes ≤ (s.buffer (writeBufferOf ns zid)).remaining)
      (hcheck : znsWriteCheck ns desc (startLba req desc) req.nrLba =
        scSuccess)
      (hopen : znsWriteOpen (takeBytes s (writeBufferOf ns zid) req.bytes) zid
        (startLba req desc) = (status, s₁))
      (hstatus : status ≠ scSuccess) :
      ZoneWrite s req ret zid desc
        (refusedOutcome ns req (appendRet req desc ret) (startLba req desc)
          status) s₁
  | written {s₁ : ZnsFtl} {nsecsXferCompleted : ℕ} {p : Program}
      (hroom : req.bytes ≤ (s.buffer (writeBufferOf ns zid)).remaining)
      (hcheck : znsWriteCheck ns desc (startLba req desc) req.nrLba =
        scSuccess)
      (hopen : znsWriteOpen (takeBytes s (writeBufferOf ns zid) req.bytes) zid
        (startLba req desc) = (scSuccess, s₁))
      (hpages : writePages ns (increaseWritePtr ns s₁ zid req.nrLba).ssd req
        zid (startLba req desc) = (nsecsXferCompleted, p)) :
      ZoneWrite s req ret zid desc
        (writeOutcome ns req (appendRet req desc ret) (startLba req desc)
          nsecsXferCompleted p)
        { increaseWritePtr ns s₁ zid req.nrLba with ssd := p.ssd }

/-- The ways `__zns_write_zrwa` ends. -/
inductive ZrwaWrite (s : ZnsFtl) (req : RwRequest) (ret : NvmevResult)
    (zid : ℕ) (desc : ZoneDescriptor) : WriteOutcome → ZnsFtl → Prop
  | refused
      (hcheck : znsWriteZrwaCheck ns desc req.slba req.nrLba ≠ scSuccess) :
      ZrwaWrite s req ret zid desc
        (refusedOutcome ns req ret req.slba
          (znsWriteZrwaCheck ns desc req.slba req.nrLba)) s
  | unopened {status : ℕ} {s₁ : ZnsFtl}
      (hcheck : znsWriteZrwaCheck ns desc req.slba req.nrLba = scSuccess)
      (hopen : znsWriteZrwaOpen ns s zid = .ok (status, s₁))
      (hstatus : status ≠ scSuccess) :
      ZrwaWrite s req ret zid desc
        (refusedOutcome ns req ret req.slba status) s₁
  | retry {s₁ s₂ : ZnsFtl} {nrLbas : ℕ}
      (hcheck : znsWriteZrwaCheck ns desc req.slba req.nrLba = scSuccess)
      (hopen : znsWriteZrwaOpen ns s zid = .ok (scSuccess, s₁))
      (hflush : nrLbasFlush ns zid desc.wp (lastLba req.slba req.nrLba) =
        .ok nrLbas)
      (hfull : flushImplicit ns s₁ zid nrLbas = .ok (false, s₂)) :
      ZrwaWrite s req ret zid desc (retryOutcome ret req.slba) s₂
  | written {s₁ s₂ : ZnsFtl} {nrLbas nsecsXferCompleted : ℕ} {p : Program}
      (hcheck : znsWriteZrwaCheck ns desc req.slba req.nrLba = scSuccess)
      (hopen : znsWriteZrwaOpen ns s zid = .ok (scSuccess, s₁))
      (hflush : nrLbasFlush ns zid desc.wp (lastLba req.slba req.nrLba) =
        .ok nrLbas)
      (hmoved : flushImplicit ns s₁ zid nrLbas = .ok (true, s₂))
      (hpages : flushPages ns s₂.ssd req zid desc.wp nrLbas =
        (nsecsXferCompleted, p)) :
      ZrwaWrite s req ret zid desc
        (writeOutcome ns req ret req.slba nsecsXferCompleted p)
        { s₂ with ssd := p.ssd }

end

section

variable {ns : ZnsNamespace} {s s' : ZnsFtl} {req : RwRequest}
  {ret : NvmevResult} {outcome : WriteOutcome}

theorem RwRequest.nrLba_pos (req : RwRequest) : 0 < req.nrLba :=
  Nat.succ_pos _

theorem RwRequest.nrLba_le (req : RwRequest) : req.nrLba ≤ 2 ^ 16 :=
  req.length_lt

theorem RwRequest.bytes_pos (req : RwRequest) : 0 < req.bytes :=
  Nat.mul_pos (RwRequest.nrLba_pos req) (by decide)

theorem RwRequest.bytes_lt (req : RwRequest) : req.bytes < 2 ^ 32 := by
  have hle := RwRequest.nrLba_le req
  rw [RwRequest.bytes, lbaToByte]
  omega

theorem znsWriteZone_cases
    (hrun : znsWriteZone ns s req ret = .ok (outcome, s')) :
    lbaToZone ns req.slba < ns.zp.nrZones ∧
      ZoneWrite ns s req ret (lbaToZone ns req.slba)
        (s.zoneDescs (lbaToZone ns req.slba)) outcome s' := by
  obtain ⟨desc, hdesc, hrun⟩ := bind_eq_ok hrun
  obtain ⟨hzid, rfl⟩ := of_zoneDesc hdesc
  refine ⟨hzid, ?_⟩
  dsimp only at hrun
  have hpos := RwRequest.bytes_pos req
  by_cases hroom : req.bytes ≤ (s.buffer
      (writeBufferOf ns (lbaToZone ns req.slba))).remaining
  swap
  · rw [bufferAllocate_of_lt (by omega), if_pos hpos, setBuffer_self] at hrun
    cases hrun
    exact .retry (by omega)
  rw [bufferAllocate_of_le hroom, u32_of_lt (RwRequest.bytes_lt req),
    if_neg (lt_irrefl _)] at hrun
  by_cases hcheck : znsWriteCheck ns
      (s.zoneDescs (lbaToZone ns req.slba))
      (startLba req (s.zoneDescs (lbaToZone ns req.slba))) req.nrLba =
        scSuccess
  swap
  · rw [if_pos hcheck] at hrun
    cases hrun
    exact .refused hroom hcheck
  rw [if_neg (not_not.mpr hcheck)] at hrun
  generalize hopen : znsWriteOpen _ _ _ = opened at hrun
  obtain ⟨status, s₁⟩ := opened
  by_cases hstatus : status = scSuccess
  · dsimp only at hrun
    rw [if_neg (not_not.mpr hstatus)] at hrun
    generalize hpages : writePages _ _ _ _ _ = pages at hrun
    cases hrun
    rw [hstatus] at hopen
    exact .written hroom hcheck hopen hpages
  · dsimp only at hrun
    rw [if_pos hstatus] at hrun
    cases hrun
    exact .unopened hroom hcheck hopen hstatus

theorem znsWriteZrwa_cases
    (hrun : znsWriteZrwa ns s req ret = .ok (outcome, s')) :
    lbaToZone ns req.slba < ns.zp.nrZones ∧
      ZrwaWrite ns s req ret (lbaToZone ns req.slba)
        (s.zoneDescs (lbaToZone ns req.slba)) outcome s' := by
  obtain ⟨desc, hdesc, hrun⟩ := bind_eq_ok hrun
  obtain ⟨hzid, rfl⟩ := of_zoneDesc hdesc
  refine ⟨hzid, ?_⟩
  dsimp only at hrun
  by_cases hcheck : znsWriteZrwaCheck ns
      (s.zoneDescs (lbaToZone ns req.slba)) req.slba req.nrLba = scSuccess
  swap
  · rw [if_pos hcheck] at hrun
    cases hrun
    exact .refused hcheck
  rw [if_neg (not_not.mpr hcheck)] at hrun
  obtain ⟨⟨status, s₁⟩, hopen, hrun⟩ := bind_eq_ok hrun
  dsimp only at hrun
  by_cases hstatus : status = scSuccess
  swap
  · rw [if_pos hstatus] at hrun
    cases hrun
    exact .unopened hcheck hopen hstatus
  rw [if_neg (not_not.mpr hstatus)] at hrun
  rw [hstatus] at hopen
  obtain ⟨nrLbas, hflush, hrun⟩ := bind_eq_ok hrun
  obtain ⟨⟨flushed, s₂⟩, hmoved, hrun⟩ := bind_eq_ok hrun
  cases flushed with
  | false =>
      cases hrun
      exact .retry hcheck hopen hflush hmoved
  | true =>
      dsimp only at hrun
      rw [if_neg (by simp)] at hrun
      generalize hpages : flushPages _ _ _ _ _ _ = pages at hrun
      cases hrun
      exact .written hcheck hopen hflush hmoved hpages

/-- `zns_write` goes by the flag of the zone. -/
theorem znsWrite_cases (hrun : znsWrite ns s req ret = .ok (outcome, s')) :
    lbaToZone ns req.slba < ns.zp.nrZones ∧
      (((s.zoneDescs (lbaToZone ns req.slba)).zrwav = false ∧
          znsWriteZone ns s req ret = .ok (outcome, s')) ∨
        ((s.zoneDescs (lbaToZone ns req.slba)).zrwav = true ∧
          znsWriteZrwa ns s req ret = .ok (outcome, s'))) := by
  obtain ⟨desc, hdesc, hrun⟩ := bind_eq_ok hrun
  obtain ⟨hzid, rfl⟩ := of_zoneDesc hdesc
  rw [lpnToZone_lbaToLpn] at hzid hrun
  refine ⟨hzid, ?_⟩
  cases hzrwav : (s.zoneDescs (lbaToZone ns req.slba)).zrwav with
  | false =>
      rw [hzrwav, if_neg (by simp)] at hrun
      exact .inl ⟨rfl, hrun⟩
  | true =>
      rw [hzrwav, if_pos rfl] at hrun
      exact .inr ⟨rfl, hrun⟩

/-! ## The switches -/

theorem scZnsNoOpenZone_ne : scZnsNoOpenZone ≠ scSuccess := by decide

theorem scZnsErrOffline_ne : scZnsErrOffline ≠ scSuccess := by decide

/-- An error status is no success. -/
theorem not_success {status : ℕ} {s₁ : ZnsFtl} {goal : Prop}
    (h : (status, s) = (scSuccess, s₁)) (hne : status ≠ scSuccess) : goal :=
  absurd (congrArg Prod.fst h) hne

/-- Opening a closed zone with success. -/
theorem openClosedZone_success {zid : ℕ} {state : ZoneState} {s₁ : ZnsFtl}
    (hopen : openClosedZone s zid state = (scSuccess, s₁)) :
    s₁ = changeZoneState (acquireZoneResource s .openZone).2 zid state := by
  rw [openClosedZone] at hopen
  by_cases havail : (s.resInfos .openZone).acquiredCnt <
      (s.resInfos .openZone).totalCnt
  · rw [acquireZoneResource_of_lt havail] at hopen ⊢
    exact (congrArg Prod.snd hopen).symm
  · rw [acquireZoneResource_of_not_lt havail] at hopen
    exact not_success hopen scZnsNoOpenZone_ne

/-- The switch of `__zns_write` opens the zone, or leaves everything. -/
theorem znsWriteOpen_step {leak zid : ℕ} (h : Accounted ns leak s)
    (hzid : zid < ns.zp.nrZones) (slba : ℕ) :
    ZoneStep ns False zid s (znsWriteOpen s zid slba).2 := by
  have hstay := ZoneStep.unchanged h hzid
  rw [znsWriteOpen]
  cases hstate : (s.zoneDescs zid).state
  case empty =>
    dsimp only
    split_ifs with hslba hactive hopen
    · exact hstay
    · exact hstay
    · exact hstay
    · exact openEmptyZone_step h hzid hstate .openedImpl rfl false
        (by simpa using hactive) (by simpa using hopen) (by simp)
  case closed => exact openClosedZone_step h hzid hstate .openedImpl rfl
  all_goals exact hstay

/-- After a successful switch the zone is opened, and nothing else about it has
changed. -/
theorem znsWriteOpen_success {zid slba : ℕ} {s₁ : ZnsFtl}
    (hopen : znsWriteOpen s zid slba = (scSuccess, s₁)) :
    (∃ state, isOpened state = true ∧
      s₁.zoneDescs zid = { s.zoneDescs zid with state := state }) ∧
    (s.zoneDescs zid).state ≠ .full ∧ s₁.buffer = s.buffer ∧
    ∀ other, other ≠ zid → s₁.zoneDescs other = s.zoneDescs other := by
  rw [znsWriteOpen] at hopen
  cases hstate : (s.zoneDescs zid).state <;> rw [hstate] at hopen
  case empty =>
    dsimp only at hopen
    split_ifs at hopen with hslba hactive hfull
    · exact not_success hopen (by decide)
    · exact not_success hopen (by decide)
    · exact not_success hopen (by decide)
    · rw [openClosedZone_success hopen]
      refine ⟨⟨.openedImpl, rfl, by simp⟩, by simp, ?_, fun other hother => ?_⟩
      · exact (acquireZoneResource_buffer _ .openZone).trans
          (acquireZoneResource_buffer s .activeZone)
      · simp [Function.update_of_ne hother]
  case closed =>
    rw [openClosedZone_success hopen]
    refine ⟨⟨.openedImpl, rfl, by simp⟩, by simp,
      acquireZoneResource_buffer s .openZone, fun other hother => ?_⟩
    simp [Function.update_of_ne hother]
  case openedImpl | openedExpl =>
    cases hopen
    exact ⟨⟨(s.zoneDescs zid).state, by rw [hstate]; rfl, rfl⟩, by simp, rfl,
      fun _ _ => rfl⟩
  all_goals exact not_success hopen scZnsErrOffline_ne

/-- A switch of `__zns_write` that fails leaves zones and buffers. -/
theorem znsWriteOpen_failed {zid slba status : ℕ}
    (hopen : znsWriteOpen s zid slba = (status, s'))
    (hstatus : status ≠ scSuccess) :
    s'.zoneDescs = s.zoneDescs ∧ s'.buffer = s.buffer := by
  have hclosed : ∀ {s₁ : ZnsFtl}, openClosedZone s₁ zid .openedImpl =
      (status, s') → s' = s₁ := by
    intro s₁ hrun
    rw [openClosedZone] at hrun
    by_cases havail : (s₁.resInfos .openZone).acquiredCnt <
        (s₁.resInfos .openZone).totalCnt
    · rw [acquireZoneResource_of_lt havail] at hrun
      exact absurd (congrArg Prod.fst hrun).symm hstatus
    · rw [acquireZoneResource_of_not_lt havail] at hrun
      exact (congrArg Prod.snd hrun).symm
  rw [znsWriteOpen] at hopen
  cases hstate : (s.zoneDescs zid).state <;> rw [hstate] at hopen
  case empty =>
    dsimp only at hopen
    split_ifs at hopen
    · cases hopen
      exact ⟨rfl, rfl⟩
    · cases hopen
      exact ⟨rfl, rfl⟩
    · cases hopen
      exact ⟨rfl, rfl⟩
    · rw [hclosed hopen]
      exact ⟨acquireZoneResource_zoneDescs _ _, acquireZoneResource_buffer _ _⟩
  case closed =>
    rw [hclosed hopen]
    exact ⟨rfl, rfl⟩
  all_goals
    cases hopen
    exact ⟨rfl, rfl⟩

/-- Opening a zone takes the bytes of its random write area. -/
theorem openZrwaZone_cases {zid status : ℕ} {s₁ : ZnsFtl}
    (hopen : openZrwaZone ns s zid = .ok (status, s₁)) :
    (s₁ = s ∧ status ≠ scSuccess) ∨
    (status = scSuccess ∧
      (s.resInfos .openZone).acquiredCnt < (s.resInfos .openZone).totalCnt ∧
      ns.zp.zrwaBufferSize ≠ 0 ∧
      ns.zp.zrwaSize ≤ (s.zwraBuffer zid).remaining ∧
      s₁ = changeZoneState
        (takeBytes (acquireZoneResource s .openZone).2 (.zrwa zid)
          ns.zp.zrwaSize) zid .openedImpl) := by
  rw [openZrwaZone] at hopen
  by_cases havail : (s.resInfos .openZone).acquiredCnt <
      (s.resInfos .openZone).totalCnt
  swap
  · rw [acquireZoneResource_of_not_lt havail] at hopen
    cases hopen
    exact Or.inl ⟨rfl, scZnsNoOpenZone_ne⟩
  have hacquire := acquireZoneResource_of_lt havail
  rw [hacquire] at hopen
  obtain ⟨buf, hbuf, hopen⟩ := bind_eq_ok hopen
  rw [zwraBufferAt] at hbuf
  split_ifs at hbuf with hsize
  have hbuf : s.zwraBuffer zid = buf := Except.ok.inj hbuf
  subst hbuf
  by_cases hroom : ns.zp.zrwaSize ≤ (s.zwraBuffer zid).remaining
  swap
  · rw [bufferAllocate_of_lt (by omega)] at hopen
    cases hopen
  · rw [bufferAllocate_of_le hroom] at hopen
    obtain ⟨_, hgranted, hopen⟩ := bind_eq_ok hopen
    cases hopen
    exact Or.inr ⟨rfl, havail, hsize, hroom, by rw [hacquire]; rfl⟩

/-- The switch of `__zns_write_zrwa` leaves everything, or it opens the
zone. -/
theorem znsWriteZrwaOpen_cases {zid status : ℕ} {s₁ : ZnsFtl}
    (hopen : znsWriteZrwaOpen ns s zid = .ok (status, s₁)) :
    (s₁ = s ∧
      (status = scSuccess → isOpened (s.zoneDescs zid).state = true)) ∨
    (status = scSuccess ∧
      ((s.zoneDescs zid).state = .closed ∨
        (s.zoneDescs zid).state = .empty) ∧
      (s.resInfos .openZone).acquiredCnt < (s.resInfos .openZone).totalCnt ∧
      ns.zp.zrwaBufferSize ≠ 0 ∧
      ns.zp.zrwaSize ≤ (s.zwraBuffer zid).remaining ∧
      s₁ = changeZoneState
        (takeBytes (acquireZoneResource s .openZone).2 (.zrwa zid)
          ns.zp.zrwaSize) zid .openedImpl) := by
  rw [znsWriteZrwaOpen] at hopen
  cases hstate : (s.zoneDescs zid).state <;> rw [hstate] at hopen
  case empty | closed =>
    rcases openZrwaZone_cases hopen with ⟨rfl, hne⟩ | ⟨heq, hrest⟩
    · exact Or.inl ⟨rfl, fun heq => absurd heq hne⟩
    · exact Or.inr ⟨heq, by simp, hrest⟩
  all_goals
    cases hopen
    exact Or.inl ⟨rfl, by decide⟩

/-- A successful switch of `__zns_write_zrwa` ends with an opened zone. -/
theorem znsWriteZrwaOpen_success {zid : ℕ} {s₁ : ZnsFtl}
    (hopen : znsWriteZrwaOpen ns s zid = .ok (scSuccess, s₁)) :
    ∃ state, isOpened state = true ∧
      s₁.zoneDescs zid = { s.zoneDescs zid with state := state } := by
  rcases znsWriteZrwaOpen_cases hopen with ⟨rfl, hopened⟩ |
    ⟨-, -, -, -, -, rfl⟩
  · exact ⟨(s₁.zoneDescs zid).state, hopened rfl, rfl⟩
  · exact ⟨.openedImpl, rfl, by simp⟩

/-- The switch of `__zns_write_zrwa` as a step. -/
theorem znsWriteZrwaOpen_step {leak zid status : ℕ} {s₁ : ZnsFtl}
    (h : Accounted ns leak s) (hzid : zid < ns.zp.nrZones)
    (hzrwav : (s.zoneDescs zid).zrwav = true)
    (hopen : znsWriteZrwaOpen ns s zid = .ok (status, s₁)) :
    ZoneStep ns False zid s s₁ := by
  rcases znsWriteZrwaOpen_cases hopen with ⟨rfl, -⟩ |
    ⟨-, hclosed | hempty, havail, -, -, rfl⟩
  · exact .unchanged h hzid
  · have hstep := openClosedZone_step h hzid hclosed .openedImpl rfl
    rw [openClosedZone, acquireZoneResource_of_lt havail] at hstep
    rw [acquireZoneResource_of_lt havail]
    exact hstep.congr_right (by simp) (by simp)
  · exact absurd hempty (h.zrwav_ne_empty zid hzid hzrwav)

/-! ## Writes as chains of steps -/

/-- The zone `zid` with random write area becomes full when `nrLbas` more
blocks are behind its write pointer. -/
def FillsZrwa (ns : ZnsNamespace) (zid nrLbas : ℕ) (desc : ZoneDescriptor) :
    Prop :=
  desc.zrwav = true ∧
    u64 (desc.wp + u32 nrLbas) = u64 (zoneToSlba ns zid + desc.zoneCapacity)

theorem increaseWritePtr_zoneDescs (zid nrLba : ℕ) :
    (increaseWritePtr ns s zid nrLba).zoneDescs =
      Function.update s.zoneDescs zid
        (movedTo ns zid (s.zoneDescs zid)
          (u64 ((s.zoneDescs zid).wp + u32 nrLba))) := by
  rw [increaseWritePtr, movedTo]
  dsimp only
  split_ifs <;> simp

/-- `__increase_write_ptr` on an opened zone; it keeps the ZRWA resource of a
zone that it fills. -/
theorem increaseWritePtr_step {leak zid nrLba : ℕ} (h : Accounted ns leak s)
    (hzid : zid < ns.zp.nrZones)
    (hopened : isOpened (s.zoneDescs zid).state = true)
    (hmove : ZoneMove ns zid (s.zoneDescs zid)
      (movedTo ns zid (s.zoneDescs zid)
        (u64 ((s.zoneDescs zid).wp + u32 nrLba)))) :
    ZoneStep ns (FillsZrwa ns zid nrLba (s.zoneDescs zid)) zid s
      (increaseWritePtr ns s zid nrLba) := by
  by_cases hend : u64 ((s.zoneDescs zid).wp + u32 nrLba) =
      u64 (zoneToSlba ns zid + (s.zoneDescs zid).zoneCapacity)
  swap
  · rw [increaseWritePtr, if_neg hend]
    exact (ZoneStep.of_setWp h hzid hmove hend).mono False.elim
  have hdescs : (increaseWritePtr ns s zid nrLba).zoneDescs = _ :=
    increaseWritePtr_zoneDescs zid nrLba
  have hinfos : (increaseWritePtr ns s zid nrLba).resInfos =
      (releaseZoneResource (releaseZoneResource s .openZone)
        .activeZone).resInfos := by
    rw [increaseWritePtr, if_pos hend]
    simp
  rw [movedTo_of_eq hend] at hdescs hmove
  have hopenRel := h.release hzid .openZone hopened
  have hactiveRel := h.release hzid .activeZone
    (isActive_of_isOpened hopened)
  have hactive := isActive_of_isOpened hopened
  have hopenLe : sub32 (s.resInfos .openZone).acquiredCnt 1 ≤ ns.zp.nrZones :=
    calc sub32 (s.resInfos .openZone).acquiredCnt 1
        ≤ sub32 (s.resInfos .openZone).acquiredCnt 1 + 1 := Nat.le_succ _
      _ = (s.resInfos .openZone).acquiredCnt := hopenRel
      _ ≤ ns.zp.nrZones := h.le_total .openZone
  have hactiveLe :
      sub32 (s.resInfos .activeZone).acquiredCnt 1 ≤ ns.zp.nrZones :=
    calc sub32 (s.resInfos .activeZone).acquiredCnt 1
        ≤ sub32 (s.resInfos .activeZone).acquiredCnt 1 + 1 := Nat.le_succ _
      _ = (s.resInfos .activeZone).acquiredCnt := hactiveRel
      _ ≤ ns.zp.nrZones := h.le_total .activeZone
  exact {
    zid_lt := hzid
    move := by
      rw [hdescs, Function.update_self]
      exact hmove
    others := fun other hne => by rw [hdescs, Function.update_of_ne hne]
    total := fun type => by
      rw [hinfos]
      cases type <;> simp
    le_total := fun type => by
      rw [hinfos]
      cases type with
      | activeZone => simpa using hactiveLe
      | openZone => simpa using hopenLe
      | zrwaZone => simpa using h.le_total .zrwaZone
    settled := fun type => by
      rw [hdescs, Function.update_self, hinfos]
      cases type with
      | activeZone =>
          left
          simp [held, hactive, hactiveRel]
      | openZone =>
          left
          simp [held, hopened, hopenRel]
      | zrwaZone =>
          cases hzrwav : (s.zoneDescs zid).zrwav
          · left
            simp [held, hzrwav]
          · right
            refine ⟨rfl, ⟨hzrwav, hend⟩, ?_⟩
            simp [held, hzrwav, hactive] }

/-- Replacing the timing state leaves the zones. -/
theorem ZoneSteps.withSsd {leaks : Prop} {leak zid : ℕ} {s₁ : ZnsFtl}
    (hzid : zid < ns.zp.nrZones) (h : Accounted ns leak s)
    (hsteps : ZoneSteps ns leaks s s₁) (ssd : Ssd) :
    ZoneSteps ns leaks s { s₁ with ssd := ssd } := by
  obtain ⟨leak', hafter, -, -⟩ := hsteps.accounted h
  have hstep : ZoneStep ns False zid s₁ { s₁ with ssd := ssd } :=
    .of_eq hafter hzid rfl rfl
  exact hsteps.tail ⟨zid, hstep.mono False.elim⟩

/-- What the checks of `__zns_write` establish. -/
theorem of_znsWriteCheck {desc : ZoneDescriptor} {slba nrLba : ℕ}
    (hcheck : znsWriteCheck ns desc slba nrLba = scSuccess) :
    ns.writeUnitSize ∣ lbaToByte nrLba ∧
      checkBoundaryError ns slba nrLba = true ∧ slba = desc.wp := by
  rw [znsWriteCheck] at hcheck
  split_ifs at hcheck with hunit hboundary hwp
  · exact absurd hcheck (by decide)
  · exact absurd hcheck (by decide)
  · exact absurd hcheck (by decide)
  · exact ⟨Nat.dvd_of_mod_eq_zero (not_not.mp hunit),
      Bool.eq_true_of_not_eq_false hboundary, not_not.mp hwp⟩

/-- A write to a zone without a random write area. -/
theorem znsWriteZone_steps {leak : ℕ} (h : Accounted ns leak s)
    (hzrwav : (s.zoneDescs (lbaToZone ns req.slba)).zrwav = false)
    (hrun : znsWriteZone ns s req ret = .ok (outcome, s')) :
    ZoneSteps ns False s s' := by
  obtain ⟨hzid, hcase⟩ := znsWriteZone_cases hrun
  have htake : ZoneStep ns False (lbaToZone ns req.slba) s
      (takeBytes s (writeBufferOf ns (lbaToZone ns req.slba)) req.bytes) :=
    .of_eq h hzid (takeBytes_zoneDescs _ _ _) (takeBytes_resInfos _ _ _)
  obtain ⟨leak₁, htaken, -, -⟩ := htake.accounted h
  cases hcase with
  | retry => exact .refl
  | refused => exact .single ⟨_, htake⟩
  | unopened hroom hcheck hopen =>
      have hstep := znsWriteOpen_step htaken hzid
        (startLba req (s.zoneDescs (lbaToZone ns req.slba)))
      rw [hopen] at hstep
      exact .tail (.single ⟨_, htake⟩) ⟨_, hstep⟩
  | @written s₁ _ p hroom hcheck hopen =>
      have hstep := znsWriteOpen_step htaken hzid
        (startLba req (s.zoneDescs (lbaToZone ns req.slba)))
      rw [hopen] at hstep
      obtain ⟨leak₂, hopened, -, -⟩ := hstep.accounted htaken
      obtain ⟨⟨state, hisOpened, hdesc⟩, -, -⟩ := znsWriteOpen_success hopen
      obtain ⟨-, hboundary, hwp⟩ := of_znsWriteCheck hcheck
      rw [takeBytes_zoneDescs] at hdesc
      have hmove : ZoneMove ns (lbaToZone ns req.slba)
          (s₁.zoneDescs (lbaToZone ns req.slba))
          (movedTo ns (lbaToZone ns req.slba)
            (s₁.zoneDescs (lbaToZone ns req.slba))
            (u64 ((s₁.zoneDescs (lbaToZone ns req.slba)).wp +
              u32 req.nrLba))) := by
        rw [hwp] at hboundary
        refine .write req.nrLba ?_ ?_ (RwRequest.nrLba_pos req)
          (RwRequest.nrLba_le req) ?_ <;> rw [hdesc]
        · exact hisOpened
        · exact hzrwav
        · exact hboundary
      have hadvance := increaseWritePtr_step hopened hzid
        (by rw [hdesc]; exact hisOpened) hmove
      have hnoLeak : ¬ FillsZrwa ns (lbaToZone ns req.slba) req.nrLba
          (s₁.zoneDescs (lbaToZone ns req.slba)) := by
        rw [hdesc, FillsZrwa, hzrwav]
        simp
      refine ZoneSteps.withSsd hzid h ?_ p.ssd
      exact .tail (.tail (.single ⟨_, htake⟩) ⟨_, hstep⟩)
        ⟨_, hadvance.mono hnoLeak⟩

/-- What `flushImplicit` does: nothing, a refused reservation, or a reservation
and a move of the write pointer. -/
theorem flushImplicit_cases {zid nrLbas : ℕ} {moved : Bool} {s₁ : ZnsFtl}
    (hrun : flushImplicit ns s zid nrLbas = .ok (moved, s₁)) :
    (nrLbas = 0 ∧ moved = true ∧ s₁ = s) ∨
    (nrLbas ≠ 0 ∧ ns.zp.zrwaBufferSize ≠ 0 ∧ ∃ granted buf,
      bufferAllocate (s.zwraBuffer zid) (lbaToByte nrLbas) = (granted, buf) ∧
      ((granted = 0 ∧ moved = false ∧ s₁ = s.setBuffer (.zrwa zid) buf) ∨
       (granted ≠ 0 ∧ moved = true ∧
        s₁ = increaseWritePtr ns (s.setBuffer (.zrwa zid) buf) zid
          nrLbas))) := by
  rw [flushImplicit] at hrun
  by_cases hzero : nrLbas = 0
  · rw [if_pos hzero] at hrun
    cases hrun
    exact Or.inl ⟨hzero, rfl, rfl⟩
  · rw [if_neg hzero] at hrun
    obtain ⟨buf₀, hbuf, hrun⟩ := bind_eq_ok hrun
    rw [zwraBufferAt] at hbuf
    split_ifs at hbuf with hsize
    cases hbuf
    refine Or.inr ⟨hzero, hsize, ?_⟩
    generalize bufferAllocate (s.zwraBuffer zid) (lbaToByte nrLbas) =
      allocated at hrun ⊢
    obtain ⟨granted, buf⟩ := allocated
    refine ⟨granted, buf, rfl, ?_⟩
    dsimp only at hrun
    by_cases hgranted : granted = 0
    · rw [if_pos hgranted] at hrun
      cases hrun
      exact Or.inl ⟨hgranted, rfl, rfl⟩
    · rw [if_neg hgranted] at hrun
      cases hrun
      exact Or.inr ⟨hgranted, rfl, rfl⟩

/-- What the switch of `__zns_write_zrwa` takes from the ZRWA buffer of a zone
on the way to the flush. -/
def reopenBytes (ns : ZnsNamespace) (desc : ZoneDescriptor) : ℕ :=
  if desc.state = .closed then ns.zp.zrwaSize else 0

/-- The write that keeps a ZRWA resource: it passes the checks on an active
zone with a random write area, its implicit flush ends at the end of the zone,
and the ZRWA buffer has room for it. -/
def FillsByWrite (ns : ZnsNamespace) (s : ZnsFtl) (req : RwRequest) : Prop :=
  znsWriteZrwaCheck ns (s.zoneDescs (lbaToZone ns req.slba)) req.slba
      req.nrLba = scSuccess ∧
    isActive (s.zoneDescs (lbaToZone ns req.slba)).state = true ∧
    ∃ nrLbas, nrLbas ≠ 0 ∧
      nrLbasFlush ns (lbaToZone ns req.slba)
        (s.zoneDescs (lbaToZone ns req.slba)).wp
        (lastLba req.slba req.nrLba) = .ok nrLbas ∧
      FillsZrwa ns (lbaToZone ns req.slba) nrLbas
        (s.zoneDescs (lbaToZone ns req.slba)) ∧
      u32 (lbaToByte nrLbas) ≠ 0 ∧
      reopenBytes ns (s.zoneDescs (lbaToZone ns req.slba)) +
          lbaToByte nrLbas ≤
        (s.zwraBuffer (lbaToZone ns req.slba)).remaining

/-- A reservation that grants bytes fits. -/
theorem of_bufferAllocate {buf buf' : Buffer} {size granted : ℕ}
    (h : bufferAllocate buf size = (granted, buf')) (hne : granted ≠ 0) :
    size ≤ buf.remaining ∧ u32 size ≠ 0 := by
  by_cases hfits : size ≤ buf.remaining
  · rw [bufferAllocate_of_le hfits] at h
    cases h
    exact ⟨hfits, hne⟩
  · rw [bufferAllocate_of_lt (Nat.lt_of_not_le hfits)] at h
    cases h
    exact absurd rfl hne

/-- The ZRWA buffer after a successful switch. -/
theorem znsWriteZrwaOpen_remaining {zid : ℕ} {s₁ : ZnsFtl}
    (hne : (s.zoneDescs zid).state ≠ .empty)
    (hopen : znsWriteZrwaOpen ns s zid = .ok (scSuccess, s₁)) :
    (s₁.zwraBuffer zid).remaining + reopenBytes ns (s.zoneDescs zid) =
      (s.zwraBuffer zid).remaining := by
  rcases znsWriteZrwaOpen_cases hopen with ⟨rfl, hopened⟩ |
    ⟨-, hclosed | hempty, havail, -, hroom, rfl⟩
  · have hnot : (s₁.zoneDescs zid).state ≠ .closed := by
      intro hclosed
      have htrue := hopened rfl
      rw [hclosed] at htrue
      cases htrue
    rw [reopenBytes, if_neg hnot, Nat.add_zero]
  · rw [reopenBytes, if_pos hclosed, acquireZoneResource_of_lt havail]
    have hbuf : ((changeZoneState (takeBytes (setAcquiredCnt s .openZone
        (u32 ((s.resInfos .openZone).acquiredCnt + 1))) (.zrwa zid)
        ns.zp.zrwaSize) zid .openedImpl).zwraBuffer zid).remaining =
          (s.zwraBuffer zid).remaining - ns.zp.zrwaSize := by
      simp [takeBytes, ZnsFtl.setBuffer, ZnsFtl.buffer, changeZoneState,
        setZoneDesc, setAcquiredCnt]
    rw [hbuf, Nat.sub_add_cancel hroom]
  · exact absurd hempty hne

/-- A write to a zone with a random write area. -/
theorem znsWriteZrwa_steps {leak : ℕ} (h : Accounted ns leak s)
    (hzrwav : (s.zoneDescs (lbaToZone ns req.slba)).zrwav = true)
    (hrun : znsWriteZrwa ns s req ret = .ok (outcome, s')) :
    ZoneSteps ns (FillsByWrite ns s req) s s' := by
  obtain ⟨hzid, hcase⟩ := znsWriteZrwa_cases hrun
  -- An opened zone, with the implicit flush still to come.
  have hflushed : ∀ {s₁ s₂ : ZnsFtl} {nrLbas : ℕ} {moved : Bool},
      znsWriteZrwaCheck ns (s.zoneDescs (lbaToZone ns req.slba)) req.slba
        req.nrLba = scSuccess →
      znsWriteZrwaOpen ns s (lbaToZone ns req.slba) = .ok (scSuccess, s₁) →
      nrLbasFlush ns (lbaToZone ns req.slba)
        (s.zoneDescs (lbaToZone ns req.slba)).wp
        (lastLba req.slba req.nrLba) = .ok nrLbas →
      flushImplicit ns s₁ (lbaToZone ns req.slba) nrLbas = .ok (moved, s₂) →
      ZoneSteps ns (FillsByWrite ns s req) s s₂ := by
    intro s₁ s₂ nrLbas moved hcheck hopen hflush hmoved
    have hstep := znsWriteZrwaOpen_step h hzid hzrwav hopen
    obtain ⟨leak₁, hopened, -, -⟩ := hstep.accounted h
    obtain ⟨state, hisOpened, hdesc⟩ := znsWriteZrwaOpen_success hopen
    have hfirst : ZoneSteps ns (FillsByWrite ns s req) s s₁ :=
      .single ⟨_, hstep.mono False.elim⟩
    rcases flushImplicit_cases hmoved with ⟨-, -, rfl⟩ |
      ⟨hpos, -, granted, buf, halloc, ⟨-, -, rfl⟩ | ⟨hgranted, -, rfl⟩⟩
    · exact hfirst
    · have hbuffer : ZoneStep ns False (lbaToZone ns req.slba) s₁
          (s₁.setBuffer (.zrwa (lbaToZone ns req.slba)) buf) :=
        .of_eq hopened hzid (setBuffer_zoneDescs _ _ _)
          (setBuffer_resInfos _ _ _)
      exact hfirst.tail ⟨_, hbuffer.mono False.elim⟩
    · have hbuffer : ZoneStep ns False (lbaToZone ns req.slba) s₁
          (s₁.setBuffer (.zrwa (lbaToZone ns req.slba)) buf) :=
        .of_eq hopened hzid (setBuffer_zoneDescs _ _ _)
          (setBuffer_resInfos _ _ _)
      obtain ⟨leak₂, hreserved, -, -⟩ := hbuffer.accounted hopened
      have hactive : isActive (s.zoneDescs (lbaToZone ns req.slba)).state =
          true := by
        rcases znsWriteZrwaOpen_cases hopen with ⟨-, hisOpened⟩ |
          ⟨-, hclosed | hempty, -⟩
        · exact isActive_of_isOpened (hisOpened rfl)
        · rw [hclosed]
          rfl
        · exact absurd hempty (h.zrwav_ne_empty _ hzid hzrwav)
      have hmove : ZoneMove ns (lbaToZone ns req.slba)
          (s₁.zoneDescs (lbaToZone ns req.slba))
          (movedTo ns (lbaToZone ns req.slba)
            (s₁.zoneDescs (lbaToZone ns req.slba))
            (u64 ((s₁.zoneDescs (lbaToZone ns req.slba)).wp +
              u32 nrLbas))) := by
        refine .writeZrwa req.slba req.nrLba nrLbas ?_ ?_ rfl
          (RwRequest.nrLba_pos req) (RwRequest.nrLba_le req) ?_ ?_ hpos <;>
          rw [hdesc]
        · exact hisOpened
        · exact hzrwav
        · exact hcheck
        · exact hflush
      rw [← setBuffer_zoneDescs s₁ (.zrwa (lbaToZone ns req.slba)) buf]
        at hmove hdesc
      have hadvance := increaseWritePtr_step hreserved hzid
        (by rw [hdesc]; exact hisOpened) hmove
      refine (hfirst.tail ⟨_, hbuffer.mono False.elim⟩).tail
        ⟨_, hadvance.mono fun hfills => ?_⟩
      rw [hdesc] at hfills
      have hroom := of_bufferAllocate halloc hgranted
      have hremaining := znsWriteZrwaOpen_remaining
        (h.zrwav_ne_empty _ hzid hzrwav) hopen
      exact ⟨hcheck, hactive, nrLbas, hpos, hflush, hfills, hroom.2,
        by omega⟩
  cases hcase with
  | refused => exact .refl
  | unopened hcheck hopen =>
      exact .single
        ⟨_, (znsWriteZrwaOpen_step h hzid hzrwav hopen).mono False.elim⟩
  | retry hcheck hopen hflush hfull =>
      exact hflushed hcheck hopen hflush hfull
  | @written s₁ s₂ _ _ p hcheck hopen hflush hmoved =>
      exact ZoneSteps.withSsd hzid h (hflushed hcheck hopen hflush hmoved)
        p.ssd

end

end NvmeVirt.WriteCases
