import NvmeVirt.Zns.Buffers
import NvmeVirt.Zns.FailedWrites

/-!
# What a reset restores

`__reset_zone` rewrites the descriptor of a zone, clears its storage and refills
its ZRWA buffer.  It has no line about the write buffer of the zone, so what
earlier writes took from there and never gave back stays taken.  The buffers
keep their sizes over whole runs, which is what makes a refilled buffer a fresh
one.
-/

namespace NvmeVirt.Resets

open NvmeVirt.Buffers
open NvmeVirt.Commands
open NvmeVirt.FailedWrites
open NvmeVirt.Filling
open NvmeVirt.Kernel
open NvmeVirt.MgmtSend
open NvmeVirt.ReadWrite
open NvmeVirt.Resources
open NvmeVirt.Timing
open NvmeVirt.Transition
open NvmeVirt.WriteCases
open NvmeVirt.WritePointers
open NvmeVirt.ZoneMoves
open NvmeVirt.Zones

variable {ns : ZnsNamespace} {s s' : ZnsFtl} {zid : ℕ}

/-! ## What commands do to the buffers -/

theorem openClosedZone_buffer (state : ZoneState) :
    (openClosedZone s zid state).2.buffer = s.buffer := by
  rw [openClosedZone]
  by_cases havail : (s.resInfos .openZone).acquiredCnt <
      (s.resInfos .openZone).totalCnt
  · rw [acquireZoneResource_of_lt havail]
    rfl
  · rw [acquireZoneResource_of_not_lt havail]
    rfl

theorem openZone_buffer {status : ℕ} {zrwa : Bool}
    (hrun : zmgmtSendOpenZone ns s zid zrwa = .ok (status, s')) :
    s'.buffer = s.buffer := by
  obtain ⟨desc, hdesc, hrun⟩ := bind_eq_ok hrun
  obtain ⟨-, rfl⟩ := of_zoneDesc hdesc
  cases hstate : (s.zoneDescs zid).state <;> rw [hstate] at hrun
  case empty =>
    dsimp only at hrun
    split_ifs at hrun
    · cases hrun
      rfl
    · cases hrun
      rfl
    · cases hrun
      rfl
    · obtain rfl : _ = s' := congrArg Prod.snd (Except.ok.inj hrun)
      rw [openClosedZone_buffer, acquireZoneResource_buffer]
      exact acquireZoneResource_buffer s .zrwaZone
    · obtain rfl : _ = s' := congrArg Prod.snd (Except.ok.inj hrun)
      rw [openClosedZone_buffer, acquireZoneResource_buffer]
  case closed =>
    obtain rfl : _ = s' := congrArg Prod.snd (Except.ok.inj hrun)
    exact openClosedZone_buffer .openedExpl
  all_goals
    cases hrun
    rfl

theorem flushExplicitZrwa_buffer {slba status : ℕ}
    (hrun : zmgmtSendFlushExplicitZrwa ns s slba = .ok (status, s')) :
    s'.buffer = s.buffer := by
  obtain ⟨-, rfl | ⟨-, -, -, -, hafter⟩⟩ := flushExplicitZrwa_cases hrun
  · rfl
  split_ifs at hafter <;> rw [hafter] <;> rfl

/-- Only a reset touches a buffer. -/
theorem zmgmtSend_buffer {uninit slba status : ℕ} {action : ZoneSendAction}
    {option : Bool} (hne : action ≠ .resetZone)
    (hrun : zmgmtSend ns uninit s slba action option = .ok (status, s')) :
    s'.buffer = s.buffer := by
  cases action with
  | resetZone => exact absurd rfl hne
  | openZone => exact openZone_buffer hrun
  | flushExplZrwa => exact flushExplicitZrwa_buffer hrun
  | setZoneDescExt | reserved =>
      cases hrun
      rfl
  | closeZone =>
      have h := closeZone_settled hrun
      funext id
      exact (h.buffer id).resolve_right fun hreset => hreset.1
  | finishZone =>
      have h := finishZone_settled hrun
      funext id
      exact (h.buffer id).resolve_right fun hreset => hreset.1
  | offlineZone =>
      have h := offlineZone_settled hrun
      funext id
      exact (h.buffer id).resolve_right fun hreset => hreset.1

/-- A zone that can be reset is reset after its resources are given back. -/
theorem resetZone_cases {status : ℕ}
    (hrun : zmgmtSendResetZone ns s zid = .ok (status, s')) :
    zid < ns.zp.nrZones ∧
      ((status = scSuccess ∧
          (s.zoneDescs zid).state ≠ .readOnly ∧
          (s.zoneDescs zid).state ≠ .offline ∧
          ∃ resInfos, s' = resetZone ns
            (changeZoneState { s with resInfos := resInfos } zid .empty) zid) ∨
        (status ≠ scSuccess ∧ s' = s ∧
          ((s.zoneDescs zid).state = .readOnly ∨
            (s.zoneDescs zid).state = .offline))) := by
  obtain ⟨desc, hdesc, hrun⟩ := bind_eq_ok hrun
  obtain ⟨hzid, rfl⟩ := of_zoneDesc hdesc
  refine ⟨hzid, ?_⟩
  have hactive : ∀ s₁ : ZnsFtl, ∀ resInfos,
      s₁ = { s with resInfos := resInfos } →
      ∃ resInfos', releaseActiveZone s₁ (s.zoneDescs zid).zrwav =
        { s with resInfos := resInfos' } := by
    rintro s₁ resInfos rfl
    cases (s.zoneDescs zid).zrwav <;> exact ⟨_, rfl⟩
  cases hstate : (s.zoneDescs zid).state <;> rw [hstate] at hrun <;>
    cases hrun
  case readOnly => exact .inr ⟨by decide, rfl, .inl rfl⟩
  case offline => exact .inr ⟨by decide, rfl, .inr rfl⟩
  case openedImpl | openedExpl =>
    obtain ⟨resInfos, hresInfos⟩ :=
      hactive (releaseZoneResource s .openZone) _ rfl
    exact .inl ⟨rfl, by simp, by simp, resInfos, by rw [hresInfos]⟩
  case closed =>
    obtain ⟨resInfos, hresInfos⟩ := hactive s s.resInfos rfl
    exact .inl ⟨rfl, by simp, by simp, resInfos, by rw [hresInfos]⟩
  case full | empty => exact .inl ⟨rfl, by simp, by simp, s.resInfos, rfl⟩

/-- Bytes move in the buffer `target` alone; the device's own buffer is left
out. -/
structure TakesFrom (target : BufferId) (s s' : ZnsFtl) : Prop where
  others : ∀ id, id ≠ .ssd → id ≠ target → s'.buffer id = s.buffer id
  size : target ≠ .ssd → (s'.buffer target).size = (s.buffer target).size

theorem TakesFrom.of_buffer {target : BufferId}
    (h : ∀ id, id ≠ .ssd → s'.buffer id = s.buffer id) :
    TakesFrom target s s' :=
  ⟨fun id hid _ => h id hid, fun hid => by rw [h target hid]⟩

theorem TakesFrom.setBuffer {target : BufferId} {buf : Buffer}
    (hsize : buf.size = (s.buffer target).size) :
    TakesFrom target s (s.setBuffer target buf) := by
  constructor
  · intro id _ hne
    rw [setBuffer_buffer, if_neg hne]
  · intro _
    rw [setBuffer_buffer, if_pos rfl, hsize]

theorem TakesFrom.trans {target : BufferId} {s'' : ZnsFtl}
    (h : TakesFrom target s s') (h' : TakesFrom target s' s'') :
    TakesFrom target s s'' where
  others id hid hne := (h'.others id hid hne).trans (h.others id hid hne)
  size hid := (h'.size hid).trans (h.size hid)

section

variable {req : RwRequest} {ret : NvmevResult} {outcome : WriteOutcome}

theorem znsWriteZone_takesFrom
    (hrun : znsWriteZone ns s req ret = .ok (outcome, s')) :
    TakesFrom (writeBufferOf ns (lbaToZone ns req.slba)) s s' := by
  obtain ⟨-, hcase⟩ := znsWriteZone_cases hrun
  have htaken : TakesFrom (writeBufferOf ns (lbaToZone ns req.slba)) s
      (takeBytes s (writeBufferOf ns (lbaToZone ns req.slba)) req.bytes) :=
    .setBuffer rfl
  cases hcase with
  | retry => exact .of_buffer fun _ _ => rfl
  | refused => exact htaken
  | unopened hroom hcheck hopen hstatus =>
      have hbuffer := (znsWriteOpen_failed hopen hstatus).2
      exact htaken.trans (.of_buffer fun id _ => congrFun hbuffer id)
  | written hroom hcheck hopen hpages =>
      have hbuffer := (znsWriteOpen_success hopen).2.2.1
      apply htaken.trans
      apply TakesFrom.of_buffer
      intro id hid
      rw [withSsd_buffer hid, increaseWritePtr_buffer]
      exact congrFun hbuffer id

/-- The switch of `__zns_write_zrwa` takes a random write area, or nothing. -/
theorem znsWriteZrwaOpen_buffer {status : ℕ}
    (hopen : znsWriteZrwaOpen ns s zid = .ok (status, s')) :
    s'.buffer = s.buffer ∨
      s'.buffer = (takeBytes s (.zrwa zid) ns.zp.zrwaSize).buffer := by
  rcases znsWriteZrwaOpen_cases hopen with ⟨rfl, -⟩ |
    ⟨-, -, havail, -, -, rfl⟩
  · exact .inl rfl
  · right
    rw [acquireZoneResource_of_lt havail, changeZoneState_buffer]
    funext id
    rw [takeBytes_buffer, takeBytes_buffer]
    rfl

/-- The implicit flush takes its bytes when they fit, whatever it returns. -/
theorem flushImplicit_buffer {nrLbas : ℕ} {moved : Bool}
    (hrun : flushImplicit ns s zid nrLbas = .ok (moved, s')) :
    s'.buffer = (s.setBuffer (.zrwa zid)
      (bufferAllocate (s.buffer (.zrwa zid))
        (lbaToByte nrLbas)).2).buffer := by
  rcases flushImplicit_cases hrun with ⟨rfl, -, rfl⟩ |
    ⟨-, -, granted, buf, halloc, ⟨-, -, rfl⟩ | ⟨-, -, rfl⟩⟩
  · have hnone : (bufferAllocate (s'.buffer (.zrwa zid)) (lbaToByte 0)).2 =
        s'.buffer (.zrwa zid) := by
      rw [lbaToByte, Nat.zero_mul, bufferAllocate_of_le (Nat.zero_le _)]
      rfl
    rw [hnone, setBuffer_self]
  · rw [ZnsFtl.buffer, halloc]
  · rw [increaseWritePtr_buffer, ZnsFtl.buffer, halloc]

theorem znsWriteZrwa_takesFrom
    (hrun : znsWriteZrwa ns s req ret = .ok (outcome, s')) :
    TakesFrom (.zrwa (lbaToZone ns req.slba)) s s' := by
  obtain ⟨-, hcase⟩ := znsWriteZrwa_cases hrun
  have hopened : ∀ {status : ℕ} {s₁ : ZnsFtl},
      znsWriteZrwaOpen ns s (lbaToZone ns req.slba) = .ok (status, s₁) →
      TakesFrom (.zrwa (lbaToZone ns req.slba)) s s₁ := by
    intro status s₁ hopen
    rcases znsWriteZrwaOpen_buffer hopen with hsame | htaken
    · exact .of_buffer fun id _ => congrFun hsame id
    · have harea : TakesFrom (.zrwa (lbaToZone ns req.slba)) s
          (takeBytes s (.zrwa (lbaToZone ns req.slba)) ns.zp.zrwaSize) :=
        .setBuffer rfl
      exact harea.trans (.of_buffer fun id _ => congrFun htaken id)
  have hflushed : ∀ {s₁ s₂ : ZnsFtl} {nrLbas : ℕ} {moved : Bool},
      flushImplicit ns s₁ (lbaToZone ns req.slba) nrLbas = .ok (moved, s₂) →
      TakesFrom (.zrwa (lbaToZone ns req.slba)) s₁ s₂ := by
    intro s₁ s₂ nrLbas moved hmoved
    have hreserved : TakesFrom (.zrwa (lbaToZone ns req.slba)) s₁
        (s₁.setBuffer (.zrwa (lbaToZone ns req.slba)) (bufferAllocate
          (s₁.buffer (.zrwa (lbaToZone ns req.slba)))
          (lbaToByte nrLbas)).2) := .setBuffer rfl
    exact hreserved.trans
      (.of_buffer fun id _ => congrFun (flushImplicit_buffer hmoved) id)
  cases hcase with
  | refused => exact .of_buffer fun _ _ => rfl
  | unopened hcheck hopen => exact hopened hopen
  | retry hcheck hopen hflush hfull =>
      exact (hopened hopen).trans (hflushed hfull)
  | written hcheck hopen hflush hmoved =>
      apply ((hopened hopen).trans (hflushed hmoved)).trans
      exact .of_buffer fun id hid => withSsd_buffer hid _

end

/-! ## The sizes of the buffers -/

/-- The sizes of the write buffers and of the ZRWA buffers of the zones. -/
def bufferSizes (s : ZnsFtl) : (ℕ → ℕ) × (ℕ → ℕ) :=
  (fun zid => (s.zoneWriteBuffer zid).size, fun zid => (s.zwraBuffer zid).size)

theorem bufferSizes_congr
    (h : ∀ id, id ≠ .ssd → (s'.buffer id).size = (s.buffer id).size) :
    bufferSizes s' = bufferSizes s := by
  apply Prod.ext
  · funext zid
    exact h (.zone zid) (by simp)
  · funext zid
    exact h (.zrwa zid) (by simp)

theorem bufferSizes_of_buffer (h : s'.buffer = s.buffer) :
    bufferSizes s' = bufferSizes s :=
  bufferSizes_congr fun id _ => by rw [h]

theorem TakesFrom.bufferSizes_eq {target : BufferId}
    (h : TakesFrom target s s') : bufferSizes s' = bufferSizes s := by
  apply bufferSizes_congr
  intro id hid
  by_cases heq : id = target
  · subst heq
    exact h.size hid
  · rw [h.others id hid heq]

theorem zmgmtSend_bufferSizes {uninit slba status : ℕ}
    {action : ZoneSendAction} {option : Bool}
    (hrun : zmgmtSend ns uninit s slba action option = .ok (status, s')) :
    bufferSizes s' = bufferSizes s := by
  by_cases hreset : action = .resetZone
  swap
  · exact bufferSizes_of_buffer (zmgmtSend_buffer hreset hrun)
  subst hreset
  obtain ⟨-, ⟨-, -, -, resInfos, rfl⟩ | ⟨-, rfl, -⟩⟩ := resetZone_cases hrun
  swap
  · rfl
  apply bufferSizes_congr
  intro id _
  have hbefore : (changeZoneState { s with resInfos := resInfos }
      (lbaToZone ns slba) .empty).buffer = s.buffer := by
    funext other
    cases other <;> rfl
  obtain hsame | ⟨-, hrefill⟩ := @resetZone_buffer ns (changeZoneState
    { s with resInfos := resInfos } (lbaToZone ns slba) .empty)
    (lbaToZone ns slba) id
  · rw [hsame, hbefore]
  · rw [hrefill, hbefore]
    rfl

theorem znsZmgmtSend_bufferSizes {uninit nsecsStart : ℕ} {cmd : ZoneMgmtSend}
    {ret ret' : NvmevResult}
    (hrun : znsZmgmtSend ns uninit nsecsStart s cmd ret = .ok (ret', s')) :
    bufferSizes s' = bufferSizes s := by
  rw [znsZmgmtSend] at hrun
  cases hall : cmd.selectAll with
  | false =>
      rw [hall, if_neg Bool.false_ne_true] at hrun
      obtain ⟨⟨status, _⟩, hsend, hret⟩ := bind_eq_ok hrun
      cases hret
      exact zmgmtSend_bufferSizes hsend
  | true =>
      rw [hall, if_pos rfl] at hrun
      obtain ⟨_, hloop, hret⟩ := bind_eq_ok hrun
      cases hret
      apply foldlM_keeps bufferSizes _ hloop
      intro before zid after hone
      obtain ⟨⟨status, _⟩, hsend, hret⟩ := bind_eq_ok hone
      cases hret
      exact zmgmtSend_bufferSizes hsend

theorem znsWrite_bufferSizes {req : RwRequest} {ret : NvmevResult}
    {outcome : WriteOutcome}
    (hrun : znsWrite ns s req ret = .ok (outcome, s')) :
    bufferSizes s' = bufferSizes s := by
  obtain ⟨-, ⟨-, hrun⟩ | ⟨-, hrun⟩⟩ := znsWrite_cases hrun
  · exact (znsWriteZone_takesFrom hrun).bufferSizes_eq
  · exact (znsWriteZrwa_takesFrom hrun).bufferSizes_eq

/-- Every reachable state has the buffers of `zns_init_ftl`. -/
theorem reachable_bufferSizes {state : ZnsState}
    (hreach : Reachable (znsMachine ns) state) :
    bufferSizes state.ftl =
      (fun _ => ns.zp.zoneWbSize, fun _ => ns.zp.zrwaBufferSize) := by
  apply hreach.invariant fun s => bufferSizes s.ftl =
    (fun _ => ns.zp.zoneWbSize, fun _ => ns.zp.zrwaBufferSize)
  · rintro start ⟨hch, hpcie, clock, storage, rfl⟩
    rfl
  · intro before action after hbefore _ hstep
    rw [← hbefore]
    cases action with
    | write req ret =>
        obtain ⟨⟨outcome, ftl⟩, hrun, hafter⟩ := bind_eq_ok hstep
        cases hafter
        exact znsWrite_bufferSizes hrun
    | mgmtSend cmd nsecsStart uninit ret =>
        obtain ⟨⟨ret', ftl⟩, hrun, hafter⟩ := bind_eq_ok hstep
        cases hafter
        exact znsZmgmtSend_bufferSizes hrun
    | complete index =>
        rw [znsMachine] at hstep
        dsimp only [znsStep] at hstep
        cases hwb : before.pending[index]? with
        | none =>
            rw [hwb] at hstep
            cases hstep
            rfl
        | some wb =>
            rw [hwb] at hstep
            cases hstep
            have hreleased : TakesFrom wb.buffer before.ftl
                (releaseWriteback before.ftl wb) := .setBuffer rfl
            exact hreleased.bufferSizes_eq

/-! ## The zone after a reset -/

/-- The bytes of the zone in the storage area. -/
def InZoneStorage (ns : ZnsNamespace) (zid addr : ℕ) : Prop :=
  zid * ns.zp.zoneSize ≤ addr ∧
    addr < zid * ns.zp.zoneSize + ns.zp.zoneSize

instance (addr : ℕ) : Decidable (InZoneStorage ns zid addr) :=
  inferInstanceAs (Decidable (_ ∧ _))

/-- The zone is as `zns_init_ftl` sets it up, with its storage cleared, and
every other zone is as before. -/
structure FreshlyReset (ns : ZnsNamespace) (zid : ℕ) (s s' : ZnsFtl) :
    Prop where
  desc : s'.zoneDescs zid = initDescriptor ns zid
  zwraBuffer : ns.zp.zrwaBufferSize ≠ 0 →
    s'.zwraBuffer zid = bufferInit ns.zp.zrwaBufferSize
  zoneWriteBuffer : ns.zp.zoneWbSize ≠ 0 →
    s'.zoneWriteBuffer zid = bufferInit ns.zp.zoneWbSize
  storage : ∀ addr, s'.storage addr =
    if InZoneStorage ns zid addr then 0 else s.storage addr
  others : ∀ other, other ≠ zid →
    s'.zoneDescs other = s.zoneDescs other ∧
      s'.zwraBuffer other = s.zwraBuffer other ∧
      s'.zoneWriteBuffer other = s.zoneWriteBuffer other

/-- `get_storage_addr_from_zid` does not wrap. -/
theorem zone_bytes_lt (hzid : zid < ns.zp.nrZones) :
    zid * ns.zp.zoneSize < 2 ^ 64 := by
  have hzones := hzid.trans (nrZones_lt ns)
  have hsize := zoneSize_lt ns
  calc zid * ns.zp.zoneSize
      ≤ zid * 2 ^ 32 := Nat.mul_le_mul_left _ hsize.le
    _ < 2 ^ 32 * 2 ^ 32 := Nat.mul_lt_mul_of_pos_right hzones (by decide)
    _ = 2 ^ 64 := rfl

theorem resetZone_storage (hzid : zid < ns.zp.nrZones) (addr : ℕ) :
    (resetZone ns s zid).storage addr =
      if InZoneStorage ns zid addr then 0 else s.storage addr := by
  rw [resetZone, u64_of_lt (zone_bytes_lt hzid)]
  by_cases hsize : ns.zp.zrwaBufferSize = 0
  · exact congrArg (ZnsFtl.storage · addr) (if_pos hsize)
  · exact congrArg (ZnsFtl.storage · addr) (if_neg hsize)

/-- The write buffers of the zones are not touched. -/
theorem resetZone_zoneWriteBuffer :
    (resetZone ns s zid).zoneWriteBuffer = s.zoneWriteBuffer := by
  rw [resetZone]
  split_ifs <;> rfl

theorem resetZone_zwraBuffer :
    (resetZone ns s zid).zwraBuffer =
      if ns.zp.zrwaBufferSize = 0 then s.zwraBuffer
      else Function.update s.zwraBuffer zid
        (bufferRefill (s.zwraBuffer zid)) := by
  rw [resetZone]
  split_ifs <;> rfl

/-- A successful reset in a reachable state leaves the zone as a fresh one
exactly when the zone has no write buffer, or the buffer was free before. -/
theorem freshlyReset_iff {state : ZnsState}
    (hreach : Reachable (znsMachine ns) state)
    (hrun : zmgmtSendResetZone ns state.ftl zid = .ok (scSuccess, s')) :
    FreshlyReset ns zid state.ftl s' ↔
      ns.zp.zoneWbSize = 0 ∨
        (state.ftl.zoneWriteBuffer zid).remaining = ns.zp.zoneWbSize := by
  obtain ⟨hzid, ⟨-, -, -, resInfos, rfl⟩ | ⟨hne, -⟩⟩ := resetZone_cases hrun
  swap
  · exact absurd rfl hne
  obtain ⟨hzoneSizes, hzrwaSizes⟩ :=
    Prod.mk.inj (reachable_bufferSizes hreach)
  have hzoneSize : (state.ftl.zoneWriteBuffer zid).size = ns.zp.zoneWbSize :=
    congrFun hzoneSizes zid
  have hzrwaSize : (state.ftl.zwraBuffer zid).size = ns.zp.zrwaBufferSize :=
    congrFun hzrwaSizes zid
  constructor
  · intro hfresh
    by_cases hnone : ns.zp.zoneWbSize = 0
    · exact .inl hnone
    · right
      have hbuffer := hfresh.zoneWriteBuffer hnone
      rw [resetZone_zoneWriteBuffer] at hbuffer
      exact congrArg Buffer.remaining hbuffer
  · intro hfree
    have hsited := reachable_sited hreach zid hzid
    have hinit := @initDescriptor_placed ns zid
    have hzslba := hsited.zslba_eq.trans hinit.zslba_eq.symm
    have hcapacity := hsited.capacity_eq.trans hinit.capacity_eq.symm
    refine ⟨?_, fun hsize => ?_, fun hsize => ?_, fun addr => ?_,
      fun other hother => ⟨?_, ?_, ?_⟩⟩
    · rw [resetZone_zoneDescs, Function.update_self]
      simp only [changeZoneState_zoneDescs, Function.update_self, hzslba,
        hcapacity]
      rfl
    · rw [resetZone_zwraBuffer, if_neg hsize, Function.update_self, bufferInit,
        ← hzrwaSize]
      rfl
    · rw [resetZone_zoneWriteBuffer]
      calc state.ftl.zoneWriteBuffer zid
          = ⟨(state.ftl.zoneWriteBuffer zid).size,
              (state.ftl.zoneWriteBuffer zid).remaining⟩ := rfl
        _ = bufferInit ns.zp.zoneWbSize := by
            rw [hzoneSize, hfree.resolve_left hsize, bufferInit]
    · exact resetZone_storage hzid addr
    · rw [resetZone_zoneDescs, Function.update_of_ne hother]
      exact Function.update_of_ne hother _ _
    · rw [resetZone_zwraBuffer]
      split_ifs
      · rfl
      · exact Function.update_of_ne hother _ _
    · rw [resetZone_zoneWriteBuffer]
      rfl

/-- The host resets the first zone. -/
def resetFirst (state : ZnsState) : Except Fault (ℕ × ZnsFtl) :=
  zmgmtSendResetZone (twoZones 2) state.ftl 0

/-- A reset of the first zone, whose first page was written. -/
theorem freshlyReset_iff_written :
    ∃ state s', Reachable (znsMachine (twoZones 2)) state ∧
      (state.ftl.zoneDescs 0).wp = 8 ∧
      (state.ftl.zoneWriteBuffer 0).remaining = 12288 ∧
      resetFirst state = .ok (scSuccess, s') ∧
      (FreshlyReset (twoZones 2) 0 state.ftl s' ↔
        (twoZones 2).zp.zoneWbSize = 0 ∨
          (state.ftl.zoneWriteBuffer 0).remaining =
            (twoZones 2).zp.zoneWbSize) := by
  have hvalues : ((znsMachine (twoZones 2)).run [writeFirstPage]
      (twoZonesStart 2)).bind (fun state =>
        (resetFirst state).toOption.map fun result =>
          ((state.ftl.zoneDescs 0).wp,
            (state.ftl.zoneWriteBuffer 0).remaining, result.1)) =
      some (8, 12288, scSuccess) := by
    decide +kernel
  obtain ⟨state, ⟨status, s'⟩, hreach, hreset, hvalue⟩ :=
    Reachable.run_then (.start (twoZonesStart_init 2)) hvalues
  simp only [Prod.mk.injEq] at hvalue
  obtain ⟨hwp, hremaining, rfl⟩ := hvalue
  exact ⟨state, s', hreach, hwp, hremaining, hreset,
    freshlyReset_iff hreach hreset⟩

/-- A rejected write takes a page from the write buffer of the first zone, and
the reset does not give it back. -/
theorem rejectedWrite_not_reset :
    ∃ state s', Reachable (znsMachine (twoZones 2)) state ∧
      state.pending = [] ∧ resetFirst state = .ok (scSuccess, s') ∧
      (s'.zoneWriteBuffer 0).remaining = 12288 ∧
      ¬ FreshlyReset (twoZones 2) 0 state.ftl s' := by
  have hvalues : ((znsMachine (twoZones 2)).run
      [.write secondPage ⟨0, 0, 0⟩] (twoZonesStart 2)).bind (fun state =>
        (resetFirst state).toOption.map fun result => (state.pending,
          result.1, (result.2.zoneWriteBuffer 0).remaining)) =
      some ([], scSuccess, 12288) := by
    decide +kernel
  obtain ⟨state, ⟨status, s'⟩, hreach, hreset, hvalue⟩ :=
    Reachable.run_then (.start (twoZonesStart_init 2)) hvalues
  simp only [Prod.mk.injEq] at hvalue
  obtain ⟨hpending, rfl, hremaining⟩ := hvalue
  refine ⟨state, s', hreach, hpending, hreset, hremaining, fun hfresh => ?_⟩
  have hwhole := congrArg Buffer.remaining
    (hfresh.zoneWriteBuffer (by decide))
  rw [hremaining] at hwhole
  exact absurd hwhole (by decide)

end NvmeVirt.Resets
