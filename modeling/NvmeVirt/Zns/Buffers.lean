import NvmeVirt.Core.InFlight
import NvmeVirt.Zns.Filling

/-!
# The buffers of the zones

A write takes its bytes from the buffer of its zone, or of the random write
area of the zone, and the writebacks of the oneshot pages it programs give them
back later.  What a zone still owes to its buffer are the blocks behind its
last programmed oneshot page.  A write that ends inside the last page of a
oneshot page gives back more than was taken, and so do a reset ahead of the
writebacks of the zone and an explicit flush, which takes nothing, into the
middle of a oneshot page.
-/

namespace NvmeVirt.Buffers

open NvmeVirt.Commands
open NvmeVirt.Filling
open NvmeVirt.InFlight
open NvmeVirt.Kernel
open NvmeVirt.Layout
open NvmeVirt.MgmtSend
open NvmeVirt.OneshotPages
open NvmeVirt.ReadWrite
open NvmeVirt.Resources
open NvmeVirt.Timing
open NvmeVirt.Transition
open NvmeVirt.WriteCases
open NvmeVirt.WritePointers
open NvmeVirt.ZoneMoves
open NvmeVirt.Zones

section

variable (ns : ZnsNamespace)

/-- The bytes of an active zone behind its last complete oneshot page. -/
def unprogrammed (desc : ZoneDescriptor) : ℕ :=
  if isActive desc.state = true then
    512 * ((desc.wp - desc.zslba) % (8 * ns.pgsPerOneshotpg))
  else 0

/-- What the zone of a buffer took from it and enqueued no writeback for. -/
def owed (s : ZnsFtl) : BufferId → ℕ
  | .ssd => 0
  | .zone zid =>
      if ns.zp.zoneWbSize = 0 ∨ (s.zoneDescs zid).zrwav = true then 0
      else unprogrammed ns (s.zoneDescs zid)
  | .zrwa zid =>
      if (s.zoneDescs zid).zrwav = true then unprogrammed ns (s.zoneDescs zid)
      else 0

/-- What the pending writebacks give back to a buffer. -/
def pendingOf (pending : List Writeback) (id : BufferId) : ℕ :=
  inFlight Writeback.buffer Writeback.buffsToRelease pending id

/-- The bytes of every buffer of a zone are there, on their way back, or owed
by the zone. -/
def Covered (s : ZnsFtl) (pending : List Writeback) : Prop :=
  ∀ id, id ≠ .ssd → (s.buffer id).remaining + pendingOf pending id +
    owed ns s id ≤ (s.buffer id).size

/-! ### The steps that give back too much -/

/-- A write that goes through and ends inside the last page of a oneshot page
or of the zone. -/
def EndsInClosingPage (s : ZnsFtl) (req : RwRequest) : Prop :=
  ns.zp.zoneWbSize ≠ 0 ∧
    (s.zoneDescs (lbaToZone ns req.slba)).zrwav = false ∧
    req.bytes ≤ (s.zoneWriteBuffer (lbaToZone ns req.slba)).remaining ∧
    znsWriteCheck ns (s.zoneDescs (lbaToZone ns req.slba))
      (startLba req (s.zoneDescs (lbaToZone ns req.slba))) req.nrLba =
        scSuccess ∧
    (isActive (s.zoneDescs (lbaToZone ns req.slba)).state = true ∨
      (s.zoneDescs (lbaToZone ns req.slba)).state = .empty) ∧
    ¬ 8 ∣ (s.zoneDescs (lbaToZone ns req.slba)).wp + req.nrLba ∧
    ClosingPage ns (lbaToZone ns req.slba)
      (((s.zoneDescs (lbaToZone ns req.slba)).wp + req.nrLba) / 8)

/-- A reset of a zone that still has writebacks of its random write area. -/
def ResetsPending (s : ZnsFtl) (pending : List Writeback) (slba : ℕ) : Prop :=
  (s.zoneDescs (lbaToZone ns slba)).state ≠ .readOnly ∧
    (s.zoneDescs (lbaToZone ns slba)).state ≠ .offline ∧
    ∃ wb ∈ pending, wb.buffer = .zrwa (lbaToZone ns slba)

/-- An explicit flush up to `slba` that leaves the write pointer further inside
a oneshot page than it was. -/
def FlushesInside (s : ZnsFtl) (slba : ℕ) : Prop :=
  (s.zoneDescs (lbaToZone ns slba)).zrwav = true ∧
    isActive (s.zoneDescs (lbaToZone ns slba)).state = true ∧
    (s.zoneDescs (lbaToZone ns slba)).wp ≤ slba ∧
    slba ≤ zrwaEnd ns (lbaToZone ns slba)
      (s.zoneDescs (lbaToZone ns slba)) ∧
    ns.zp.lbasPerZrwafg ∣ slba - (s.zoneDescs (lbaToZone ns slba)).wp + 1 ∧
    slba + 1 ≠ (s.zoneDescs (lbaToZone ns slba)).zslba +
      (s.zoneDescs (lbaToZone ns slba)).zoneCapacity ∧
    ((s.zoneDescs (lbaToZone ns slba)).wp -
        (s.zoneDescs (lbaToZone ns slba)).zslba) % (8 * ns.pgsPerOneshotpg) <
      (slba + 1 - (s.zoneDescs (lbaToZone ns slba)).zslba) %
        (8 * ns.pgsPerOneshotpg)

/-- A Zone Management Send action on one zone that gives back too much. -/
def SendOverfills (s : ZnsFtl) (pending : List Writeback) (slba : ℕ) :
    ZoneSendAction → Prop
  | .resetZone => ResetsPending ns s pending slba
  | .flushExplZrwa => FlushesInside ns s slba
  | _ => False

/-- A step that gives back too much. -/
def Overfills (state : ZnsState) : ZnsAction → Prop
  | .write req _ => EndsInClosingPage ns state.ftl req
  | .mgmtSend cmd _ _ _ =>
      if cmd.selectAll = true then
        ∃ zid < ns.zp.nrZones, SendOverfills ns state.ftl state.pending
          (zoneToSlba ns zid) cmd.zsa
      else SendOverfills ns state.ftl state.pending cmd.slba cmd.zsa
  | .complete _ => False

/-- The runs without such a step. -/
def measuredMachine : Machine ZnsState ZnsAction Fault where
  init := ZnsInit ns
  enabled state action :=
    (znsMachine ns).enabled state action ∧ ¬ Overfills ns state action
  step := znsStep ns

end

/-! ## What a zone owes -/

section

variable {ns : ZnsNamespace} {s s' : ZnsFtl} {zid : ℕ}

theorem unprogrammed_of_idle {desc : ZoneDescriptor}
    (hidle : isActive desc.state = false) : unprogrammed ns desc = 0 := by
  rw [unprogrammed, hidle]
  rfl

theorem unprogrammed_of_start {desc : ZoneDescriptor}
    (hstart : desc.wp = desc.zslba) : unprogrammed ns desc = 0 := by
  rw [unprogrammed, hstart, Nat.sub_self, Nat.zero_mod, Nat.mul_zero, ite_self]

/-- A zone that owes less, to the same buffer, or nothing. -/
theorem owed_le_of_update {desc : ZoneDescriptor}
    (hdescs : s'.zoneDescs = Function.update s.zoneDescs zid desc)
    (h : unprogrammed ns desc = 0 ∨
      unprogrammed ns desc ≤ unprogrammed ns (s.zoneDescs zid) ∧
        desc.zrwav = (s.zoneDescs zid).zrwav) (id : BufferId) :
    owed ns s' id ≤ owed ns s id := by
  have hzone : ∀ other, s'.zoneDescs other = s.zoneDescs other ∨
      unprogrammed ns (s'.zoneDescs other) = 0 ∨
        unprogrammed ns (s'.zoneDescs other) ≤
            unprogrammed ns (s.zoneDescs other) ∧
          (s'.zoneDescs other).zrwav = (s.zoneDescs other).zrwav := by
    intro other
    rw [hdescs]
    by_cases heq : other = zid
    · subst heq
      rw [Function.update_self]
      exact Or.inr h
    · exact Or.inl (Function.update_of_ne heq _ _)
  cases id with
  | ssd => exact le_rfl
  | zone other =>
      rcases hzone other with heq | hzero | ⟨hle, heq⟩
      · rw [owed, owed, heq]
      · rw [owed, hzero, ite_self]
        exact Nat.zero_le _
      · rw [owed, owed, heq]
        split_ifs
        · exact le_rfl
        · exact hle
  | zrwa other =>
      rcases hzone other with heq | hzero | ⟨hle, heq⟩
      · rw [owed, owed, heq]
      · rw [owed, hzero, ite_self]
        exact Nat.zero_le _
      · rw [owed, owed, heq]
        split_ifs
        · exact hle
        · exact le_rfl

theorem owed_congr (h : s'.zoneDescs = s.zoneDescs) (id : BufferId) :
    owed ns s' id = owed ns s id := by
  cases id <;> rw [owed, owed] <;> rw [h]

/-! ## Management actions -/

/-- A management action on the zone `zid`: it takes nothing and gives nothing
back, unless it resets the zone and refills its ZRWA buffer. -/
structure Settled (ns : ZnsNamespace) (resets : Prop) (zid : ℕ)
    (s s' : ZnsFtl) : Prop where
  others : ∀ other, other ≠ zid → s'.zoneDescs other = s.zoneDescs other
  owed_le : ∀ id, owed ns s' id ≤ owed ns s id
  buffer : ∀ id, s'.buffer id = s.buffer id ∨
    resets ∧ id = .zrwa zid ∧ s'.buffer id = bufferRefill (s.buffer id) ∧
      owed ns s' id = 0

theorem Settled.unchanged {resets : Prop} : Settled ns resets zid s s :=
  ⟨fun _ _ => rfl, fun _ => le_rfl, fun _ => Or.inl rfl⟩

theorem Settled.of_update {resets : Prop} (desc : ZoneDescriptor)
    (hdescs : s'.zoneDescs = Function.update s.zoneDescs zid desc)
    (howed : unprogrammed ns desc = 0 ∨
      unprogrammed ns desc ≤ unprogrammed ns (s.zoneDescs zid) ∧
        desc.zrwav = (s.zoneDescs zid).zrwav)
    (hbuffer : s'.buffer = s.buffer) : Settled ns resets zid s s' := by
  refine ⟨fun other hother => ?_, owed_le_of_update hdescs howed,
    fun id => Or.inl (congrFun hbuffer id)⟩
  rw [hdescs, Function.update_of_ne hother]

theorem Settled.trans {s'' : ZnsFtl} (h : Settled ns False zid s s')
    (h' : Settled ns False zid s' s'') : Settled ns False zid s s'' := by
  refine ⟨fun other hother => ?_, fun id => ?_, fun id => Or.inl ?_⟩
  · exact (h'.others other hother).trans (h.others other hother)
  · exact (h'.owed_le id).trans (h.owed_le id)
  · exact ((h'.buffer id).resolve_right fun h => h.1).trans
      ((h.buffer id).resolve_right fun h => h.1)

theorem unprogrammed_le_of_active {desc : ZoneDescriptor}
    (hactive : isActive desc.state = true) (state : ZoneState) :
    unprogrammed ns { desc with state := state } ≤ unprogrammed ns desc := by
  rw [unprogrammed, unprogrammed, if_pos hactive]
  split_ifs
  · exact le_rfl
  · exact Nat.zero_le _

theorem closeZone_settled {status : ℕ}
    (hrun : zmgmtSendCloseZone ns s zid = .ok (status, s')) :
    Settled ns False zid s s' := by
  obtain ⟨desc, hdesc, hrun⟩ := bind_eq_ok hrun
  obtain ⟨-, rfl⟩ := of_zoneDesc hdesc
  cases hstate : (s.zoneDescs zid).state <;> rw [hstate] at hrun <;> cases hrun
  case openedImpl | openedExpl =>
    refine .of_update _ rfl ?_ rfl
    refine Or.inr ⟨unprogrammed_le_of_active ?_ _, rfl⟩
    rw [hstate]
    rfl
  all_goals exact .unchanged

theorem releaseActiveZone_buffer (isZrwaZone : Bool) :
    (releaseActiveZone s isZrwaZone).buffer = s.buffer := by
  cases isZrwaZone <;> rfl

theorem finishZone_settled {status : ℕ}
    (hrun : zmgmtSendFinishZone ns s zid = .ok (status, s')) :
    Settled ns False zid s s' := by
  obtain ⟨desc, hdesc, hrun⟩ := bind_eq_ok hrun
  obtain ⟨-, rfl⟩ := of_zoneDesc hdesc
  cases hstate : (s.zoneDescs zid).state <;> rw [hstate] at hrun <;> cases hrun
  case full | readOnly | offline => exact .unchanged
  all_goals
    refine .of_update { s.zoneDescs zid with state := .full } ?_
      (Or.inl (unprogrammed_of_idle rfl)) ?_
    · simp
    · cases (s.zoneDescs zid).zrwav <;> rfl

theorem offlineZone_settled {status : ℕ}
    (hrun : zmgmtSendOfflineZone ns s zid = .ok (status, s')) :
    Settled ns False zid s s' := by
  obtain ⟨desc, hdesc, hrun⟩ := bind_eq_ok hrun
  obtain ⟨-, rfl⟩ := of_zoneDesc hdesc
  cases hstate : (s.zoneDescs zid).state <;> rw [hstate] at hrun <;> cases hrun
  case readOnly =>
    exact .of_update _ rfl (Or.inl (unprogrammed_of_idle rfl)) rfl
  all_goals exact .unchanged

theorem openClosedZone_settled (state : ZoneState)
    (h : isActive (s.zoneDescs zid).state = true ∨
      (s.zoneDescs zid).wp = (s.zoneDescs zid).zslba) :
    Settled ns False zid s (openClosedZone s zid state).2 := by
  rw [openClosedZone]
  by_cases havail : (s.resInfos .openZone).acquiredCnt <
      (s.resInfos .openZone).totalCnt
  · rw [acquireZoneResource_of_lt havail]
    refine .of_update _ rfl ?_ rfl
    rcases h with hactive | hstart
    · exact Or.inr ⟨unprogrammed_le_of_active hactive state, rfl⟩
    · exact Or.inl (unprogrammed_of_start hstart)
  · rw [acquireZoneResource_of_not_lt havail]
    exact .unchanged

theorem openZone_settled {status : ℕ} {zrwa : Bool}
    (hempty : (s.zoneDescs zid).state = .empty →
      (s.zoneDescs zid).wp = (s.zoneDescs zid).zslba)
    (hrun : zmgmtSendOpenZone ns s zid zrwa = .ok (status, s')) :
    Settled ns False zid s s' := by
  obtain ⟨desc, hdesc, hrun⟩ := bind_eq_ok hrun
  obtain ⟨-, rfl⟩ := of_zoneDesc hdesc
  cases hstate : (s.zoneDescs zid).state <;> rw [hstate] at hrun
  case empty =>
    dsimp only at hrun
    have hstart := hempty hstate
    split_ifs at hrun
    · cases hrun
      exact .unchanged
    · cases hrun
      exact .unchanged
    · cases hrun
      exact .unchanged
    · -- The zone gets its random write area first.
      obtain rfl : _ = s' := congrArg Prod.snd (Except.ok.inj hrun)
      have hzrwa : Settled ns False zid s
          (acquireZoneResource (setZrwav (acquireZoneResource s .zrwaZone).2 zid
            true) .activeZone).2 := by
        refine .of_update { s.zoneDescs zid with zrwav := true } ?_
          (Or.inl (unprogrammed_of_start hstart)) ?_
        · simp
        · exact (acquireZoneResource_buffer _ _).trans
            (acquireZoneResource_buffer _ _)
      refine hzrwa.trans (openClosedZone_settled _ (Or.inr ?_))
      simp [hstart]
    · obtain rfl : _ = s' := congrArg Prod.snd (Except.ok.inj hrun)
      have hactive : Settled ns False zid s
          (acquireZoneResource s .activeZone).2 := by
        refine .of_update (s.zoneDescs zid) ?_
          (Or.inr ⟨le_rfl, rfl⟩) (acquireZoneResource_buffer _ _)
        simp
      refine hactive.trans (openClosedZone_settled _ (Or.inr ?_))
      simp [hstart]
  case closed =>
    obtain rfl : _ = s' := congrArg Prod.snd (Except.ok.inj hrun)
    exact openClosedZone_settled _ (Or.inl (by rw [hstate]; rfl))
  case openedImpl =>
    cases hrun
    refine .of_update _ rfl ?_ rfl
    exact Or.inr ⟨unprogrammed_le_of_active (by rw [hstate]; rfl) _, rfl⟩
  all_goals
    cases hrun
    exact .unchanged

theorem resetZone_buffer (id : BufferId) :
    (resetZone ns s zid).buffer id = s.buffer id ∨
      id = .zrwa zid ∧
        (resetZone ns s zid).buffer id = bufferRefill (s.buffer id) := by
  rw [resetZone]
  split_ifs
  · exact Or.inl rfl
  · cases id with
    | ssd | zone other => exact Or.inl rfl
    | zrwa other =>
        by_cases heq : other = zid
        · subst heq
          exact Or.inr ⟨rfl, Function.update_self _ _ _⟩
        · exact Or.inl (Function.update_of_ne heq _ _)

theorem resetZone_settled {status : ℕ}
    (hrun : zmgmtSendResetZone ns s zid = .ok (status, s')) :
    Settled ns ((s.zoneDescs zid).state ≠ .readOnly ∧
      (s.zoneDescs zid).state ≠ .offline) zid s s' := by
  obtain ⟨desc, hdesc, hrun⟩ := bind_eq_ok hrun
  obtain ⟨-, rfl⟩ := of_zoneDesc hdesc
  -- Every case that resets the zone starts it again.
  have hreset : ∀ {s₁ : ZnsFtl}, s₁.zoneDescs = s.zoneDescs →
      s₁.buffer = s.buffer →
      (s.zoneDescs zid).state ≠ .readOnly ∧
        (s.zoneDescs zid).state ≠ .offline →
      Settled ns ((s.zoneDescs zid).state ≠ .readOnly ∧
        (s.zoneDescs zid).state ≠ .offline) zid s
        (resetZone ns (changeZoneState s₁ zid .empty) zid) := by
    intro s₁ hdescs hbuffer hresets
    have hafter : (resetZone ns (changeZoneState s₁ zid .empty) zid).zoneDescs =
        Function.update s.zoneDescs zid
          { s.zoneDescs zid with
            state := .empty, wp := (s.zoneDescs zid).zslba, zrwav := false } := by
      simp [resetZone_zoneDescs, hdescs]
    refine ⟨fun other hother => ?_, owed_le_of_update hafter
      (Or.inl (unprogrammed_of_idle rfl)), fun id => ?_⟩
    · rw [hafter, Function.update_of_ne hother]
    · rcases @resetZone_buffer ns (changeZoneState s₁ zid .empty) zid id with
        hsame | ⟨heq, hrefill⟩
      · exact Or.inl (hsame.trans (congrFun hbuffer id))
      · refine Or.inr ⟨hresets, heq, ?_, ?_⟩
        · rw [hrefill]
          exact congrArg bufferRefill (congrFun hbuffer id)
        · rw [heq, owed, hafter, Function.update_self]
          rfl
  cases hstate : (s.zoneDescs zid).state <;> rw [hstate] at hrun hreset <;>
    cases hrun
  case readOnly | offline => exact .unchanged
  case openedImpl | openedExpl | closed =>
    exact hreset (releaseActiveZone_zoneDescs _ _)
      (releaseActiveZone_buffer _) (by simp)
  all_goals exact hreset rfl rfl (by simp)

/-- An explicit flush that does not leave the write pointer further inside a
oneshot page. -/
theorem flushExplicitZrwa_settled {slba status : ℕ}
    (hlbas : ns.zp.nrZones * lbasPerZone ns < 2 ^ 32)
    (hplaced : lbaToZone ns slba < ns.zp.nrZones →
      Placed ns (lbaToZone ns slba) (s.zoneDescs (lbaToZone ns slba)))
    (hinside : ¬ FlushesInside ns s slba)
    (hrun : zmgmtSendFlushExplicitZrwa ns s slba = .ok (status, s')) :
    Settled ns False (lbaToZone ns slba) s s' := by
  obtain ⟨hzid, rfl | ⟨hzrwav, hactive, hwindow, hunit, hafter⟩⟩ :=
    flushExplicitZrwa_cases hrun
  · exact .unchanged
  have h := hplaced hzid
  have hlt := zone_end_lt hlbas hzid
  have hzslba := h.zslba_eq
  have hcapacity := h.capacity_eq
  have hbehind := h.le_zrwaEnd hlbas hzid hwindow.2
  have hnext : u64 (slba + 1) = slba + 1 := u64_of_lt (by omega)
  have hflushed : u64 (sub64 slba
      (s.zoneDescs (lbaToZone ns slba)).wp + 1) =
        slba - (s.zoneDescs (lbaToZone ns slba)).wp + 1 := by
    rw [sub64_of_le hwindow.1 (by omega)]
    exact u64_of_lt (by omega)
  rw [hflushed] at hunit
  rw [hnext, h.end_eq hlbas hzid] at hafter
  by_cases hend : slba + 1 = (s.zoneDescs (lbaToZone ns slba)).zslba +
      (s.zoneDescs (lbaToZone ns slba)).zoneCapacity
  · rw [if_pos hend] at hafter
    rw [hafter]
    refine .of_update { s.zoneDescs (lbaToZone ns slba) with
      wp := slba + 1, state := .full } ?_ (Or.inl (unprogrammed_of_idle rfl)) ?_
    · split_ifs <;> simp
    · split_ifs <;> rfl
  · rw [if_neg hend] at hafter
    rw [hafter]
    refine .of_update _ rfl (Or.inr ⟨?_, rfl⟩) rfl
    rw [unprogrammed, unprogrammed, if_pos hactive]
    dsimp only
    rw [if_pos hactive]
    apply Nat.mul_le_mul_left
    by_contra hgrows
    exact hinside ⟨hzrwav, hactive, hwindow.1, hwindow.2,
      Nat.dvd_of_mod_eq_zero hunit, hend, Nat.lt_of_not_le hgrows⟩

theorem Settled.covered {resets : Prop} {pending : List Writeback}
    (h : Settled ns resets zid s s') (hcovered : Covered ns s pending)
    (hpending : resets → ∀ wb ∈ pending, wb.buffer ≠ .zrwa zid) :
    Covered ns s' pending := by
  intro id hid
  have hbefore := hcovered id hid
  have howed := h.owed_le id
  rcases h.buffer id with hsame | ⟨hresets, rfl, hrefill, hzero⟩
  · rw [hsame]
    omega
  · have hnone : pendingOf pending (.zrwa zid) = 0 :=
      inFlight_of_forall_ne (hpending hresets)
    rw [hrefill, hnone, hzero]
    exact le_rfl

/-- A management action that does not overfill keeps the buffers covered. -/
theorem zmgmtSend_covered {uninit slba status : ℕ} {action : ZoneSendAction}
    {option : Bool} {pending : List Writeback}
    (hlbas : ns.zp.nrZones * lbasPerZone ns < 2 ^ 32)
    (hplaced : lbaToZone ns slba < ns.zp.nrZones →
      Placed ns (lbaToZone ns slba) (s.zoneDescs (lbaToZone ns slba)))
    (hcovered : Covered ns s pending)
    (hsend : ¬ SendOverfills ns s pending slba action)
    (hrun : zmgmtSend ns uninit s slba action option = .ok (status, s')) :
    Covered ns s' pending ∧ ∀ other, other ≠ lbaToZone ns slba →
      s'.zoneDescs other = s.zoneDescs other := by
  have hplain : Settled ns False (lbaToZone ns slba) s s' →
      Covered ns s' pending ∧ ∀ other, other ≠ lbaToZone ns slba →
        s'.zoneDescs other = s.zoneDescs other :=
    fun h => ⟨h.covered hcovered False.elim, h.others⟩
  cases action with
  | closeZone => exact hplain (closeZone_settled hrun)
  | finishZone => exact hplain (finishZone_settled hrun)
  | openZone =>
      obtain ⟨desc, hdesc, -⟩ := bind_eq_ok hrun
      have hempty := (hplaced (of_zoneDesc hdesc).1).of_empty
      exact hplain (openZone_settled (fun h => (hempty h).1) hrun)
  | resetZone =>
      have h := resetZone_settled hrun
      refine ⟨h.covered hcovered fun hresets wb hwb heq => ?_, h.others⟩
      exact hsend ⟨hresets.1, hresets.2, wb, hwb, heq⟩
  | offlineZone => exact hplain (offlineZone_settled hrun)
  | flushExplZrwa =>
      exact hplain (flushExplicitZrwa_settled hlbas hplaced hsend hrun)
  | setZoneDescExt | reserved =>
      cases hrun
      exact hplain .unchanged

/-- Whether an action overfills depends on its zone only. -/
theorem sendOverfills_congr {pending : List Writeback} {slba : ℕ}
    {action : ZoneSendAction}
    (h : s'.zoneDescs (lbaToZone ns slba) =
      s.zoneDescs (lbaToZone ns slba)) :
    SendOverfills ns s' pending slba action ↔
      SendOverfills ns s pending slba action := by
  cases action with
  | resetZone => simp only [SendOverfills, ResetsPending, h]
  | flushExplZrwa => simp only [SendOverfills, FlushesInside, h]
  | closeZone | finishZone | openZone | offlineZone | setZoneDescExt
  | reserved => exact Iff.rfl

/-- With `select_all` the action goes to zone after zone, and each finds its
zone as it was. -/
theorem selectAll_covered {uninit : ℕ} {cmd : ZoneMgmtSend}
    {pending : List Writeback} {start : ZnsFtl}
    (hlbas : ns.zp.nrZones * lbasPerZone ns < 2 ^ 32)
    (hplaced : ∀ zid < ns.zp.nrZones, Placed ns zid (start.zoneDescs zid))
    (hsend : ∀ zid < ns.zp.nrZones, ¬ SendOverfills ns start pending
      (zoneToSlba ns zid) cmd.zsa) {zids : List ℕ} (hnodup : zids.Nodup)
    (hzids : ∀ zid ∈ zids, zid < ns.zp.nrZones ∧
      s.zoneDescs zid = start.zoneDescs zid)
    (hcovered : Covered ns s pending)
    (hrun : zids.foldlM
      (fun s zid => do
        let (_, s) ← zmgmtSend ns uninit s (zoneToSlba ns zid) cmd.zsa
          cmd.zsaso
        return s)
      s = (.ok s' : Except Fault ZnsFtl)) : Covered ns s' pending := by
  induction zids generalizing s with
  | nil =>
      cases hrun
      exact hcovered
  | cons zid zids ih =>
      rw [List.foldlM_cons] at hrun
      obtain ⟨middle, hfirst, hrest⟩ := bind_eq_ok hrun
      obtain ⟨⟨status, _⟩, hone, hmiddle⟩ := bind_eq_ok hfirst
      cases hmiddle
      obtain ⟨hzid, hsame⟩ := hzids zid List.mem_cons_self
      have hlt := zone_end_lt hlbas hzid
      have hpos := eight_le_lbasPerZone ns
      have hself : lbaToZone ns (zoneToSlba ns zid) = zid := by
        rw [zoneToSlba_eq (by omega)]
        exact lbaToZone_of_mem hzid le_rfl (by omega)
      have hagrees : s.zoneDescs (lbaToZone ns (zoneToSlba ns zid)) =
          start.zoneDescs (lbaToZone ns (zoneToSlba ns zid)) := by
        rw [hself]
        exact hsame
      obtain ⟨hafter, hothers⟩ := zmgmtSend_covered hlbas
        (fun h => hagrees ▸ hplaced _ h) hcovered
        (fun h => hsend zid hzid ((sendOverfills_congr hagrees).mp h)) hone
      rw [List.nodup_cons] at hnodup
      refine ih hnodup.2 (fun other hother => ?_) hafter hrest
      have hne : other ≠ zid := fun heq => hnodup.1 (heq ▸ hother)
      obtain ⟨hlt', hother'⟩ := hzids other (List.mem_cons_of_mem _ hother)
      refine ⟨hlt', ?_⟩
      rw [hothers other (by rw [hself]; exact hne)]
      exact hother'

/-! ## Writes -/

/-- The buffer the writes to a zone take their bytes from. -/
def homeBuffer (ns : ZnsNamespace) (zid : ℕ) (zrwav : Bool) : BufferId :=
  if zrwav = true then .zrwa zid else writeBufferOf ns zid

theorem owed_home (hne : homeBuffer ns zid (s.zoneDescs zid).zrwav ≠ .ssd) :
    owed ns s (homeBuffer ns zid (s.zoneDescs zid).zrwav) =
      unprogrammed ns (s.zoneDescs zid) := by
  unfold homeBuffer writeBufferOf at *
  split_ifs at hne ⊢ with hzrwav hsize
  · rw [owed, if_pos hzrwav]
  · exact absurd rfl hne
  · rw [owed, if_neg (not_or.mpr ⟨hsize, hzrwav⟩)]

/-- A zone owes to its home buffer only. -/
theorem owed_of_ne {desc : ZoneDescriptor} {id : BufferId}
    (hdescs : s'.zoneDescs = Function.update s.zoneDescs zid desc)
    (hzrwav : desc.zrwav = (s.zoneDescs zid).zrwav)
    (hne : id ≠ homeBuffer ns zid (s.zoneDescs zid).zrwav) :
    owed ns s' id = owed ns s id := by
  cases id with
  | ssd => rfl
  | zone other =>
      by_cases heq : other = zid
      · subst heq
        rw [owed, owed, hdescs, Function.update_self, hzrwav]
        by_cases hfree : ns.zp.zoneWbSize = 0 ∨
            (s.zoneDescs other).zrwav = true
        · rw [if_pos hfree, if_pos hfree]
        · rw [not_or] at hfree
          rw [homeBuffer, if_neg hfree.2, writeBufferOf, if_neg hfree.1] at hne
          exact absurd rfl hne
      · rw [owed, owed, hdescs, Function.update_of_ne heq]
  | zrwa other =>
      by_cases heq : other = zid
      · subst heq
        rw [owed, owed, hdescs, Function.update_self, hzrwav]
        rw [homeBuffer] at hne
        split_ifs at hne ⊢
        · exact absurd rfl hne
        · rfl
      · rw [owed, owed, hdescs, Function.update_of_ne heq]

/-- Bytes are taken from a buffer ahead of the writebacks that give them
back. -/
def Taken (ns : ZnsNamespace) (s s' : ZnsFtl) (writebacks : List Writeback) :
    Prop :=
  ∀ id, id ≠ .ssd → (s'.buffer id).size = (s.buffer id).size ∧
    (s'.buffer id).remaining + pendingOf writebacks id + owed ns s' id ≤
      (s.buffer id).remaining + owed ns s id

theorem Covered.take {pending writebacks : List Writeback}
    (h : Covered ns s pending) (htaken : Taken ns s s' writebacks) :
    Covered ns s' (pending ++ writebacks) := by
  intro id hid
  obtain ⟨hsize, hle⟩ := htaken id hid
  have hbefore := h id hid
  have happend : pendingOf (pending ++ writebacks) id =
      pendingOf pending id + pendingOf writebacks id := inFlight_append _ _ _ _ _
  rw [happend, hsize]
  omega

/-- A step that changes one zone and its home buffer. -/
theorem Taken.of_home (zid : ℕ) {writebacks : List Writeback}
    (desc : ZoneDescriptor)
    (hdescs : s'.zoneDescs = Function.update s.zoneDescs zid desc)
    (hzrwav : desc.zrwav = (s.zoneDescs zid).zrwav)
    (hothers : ∀ id, id ≠ .ssd →
      id ≠ homeBuffer ns zid (s.zoneDescs zid).zrwav →
        s'.buffer id = s.buffer id)
    (hwritebacks : ∀ wb ∈ writebacks,
      wb.buffer = homeBuffer ns zid (s.zoneDescs zid).zrwav)
    (hhome : homeBuffer ns zid (s.zoneDescs zid).zrwav ≠ .ssd →
      (s'.buffer (homeBuffer ns zid (s.zoneDescs zid).zrwav)).size =
        (s.buffer (homeBuffer ns zid (s.zoneDescs zid).zrwav)).size ∧
      (s'.buffer (homeBuffer ns zid (s.zoneDescs zid).zrwav)).remaining +
          released writebacks + unprogrammed ns desc ≤
        (s.buffer (homeBuffer ns zid (s.zoneDescs zid).zrwav)).remaining +
          unprogrammed ns (s.zoneDescs zid)) : Taken ns s s' writebacks := by
  intro id hid
  have hpending : pendingOf writebacks id =
      if homeBuffer ns zid (s.zoneDescs zid).zrwav = id then
        released writebacks
      else 0 := inFlight_of_forall hwritebacks id
  by_cases heq : homeBuffer ns zid (s.zoneDescs zid).zrwav = id
  · have hdesc : s'.zoneDescs zid = desc := by
      rw [hdescs, Function.update_self]
    have hbefore := @owed_home ns s zid
      (by rw [heq]; exact hid)
    have hafter := @owed_home ns s' zid
      (by rw [hdesc, hzrwav, heq]; exact hid)
    rw [hdesc, hzrwav] at hafter
    rw [hpending, if_pos heq, ← heq, hbefore, hafter]
    exact hhome (by rw [heq]; exact hid)
  · have hne : id ≠ homeBuffer ns zid (s.zoneDescs zid).zrwav :=
      fun h => heq h.symm
    rw [hothers id hid hne, hpending, if_neg heq,
      owed_of_ne hdescs hzrwav hne]
    exact ⟨rfl, le_rfl⟩

/-! ### Buffers under the updates -/

theorem withSsd_buffer {id : BufferId} (hid : id ≠ .ssd) (ssd : Ssd) :
    ({ s with ssd := ssd } : ZnsFtl).buffer id = s.buffer id := by
  cases id with
  | ssd => exact absurd rfl hid
  | zone _ | zrwa _ => rfl

theorem changeZoneState_buffer (state : ZoneState) :
    (changeZoneState s zid state).buffer = s.buffer := rfl

theorem increaseWritePtr_buffer (nrLba : ℕ) :
    (increaseWritePtr ns s zid nrLba).buffer = s.buffer := by
  rw [increaseWritePtr]
  dsimp only
  split_ifs <;> rfl

theorem of_znsWriteOpen {slba : ℕ}
    (hopen : znsWriteOpen s zid slba = (scSuccess, s')) :
    isActive (s.zoneDescs zid).state = true ∨
      (s.zoneDescs zid).state = .empty := by
  rw [znsWriteOpen] at hopen
  cases hstate : (s.zoneDescs zid).state <;> rw [hstate] at hopen
  case empty => exact Or.inr rfl
  case closed | openedImpl | openedExpl => exact Or.inl rfl
  all_goals exact not_success hopen scZnsErrOffline_ne

/-- A zone that is opened stays placed. -/
theorem placed_opened {desc : ZoneDescriptor} (h : Placed ns zid desc)
    (hstate : isActive desc.state = true ∨ desc.state = .empty)
    {state : ZoneState} (hopened : isOpened state = true) :
    Placed ns zid { desc with state := state } := by
  refine ⟨h.zslba_eq, h.capacity_eq, h.zslba_le, h.wp_le, fun hend => ?_, ?_⟩
  · rw [h.full_of_end hend] at hstate
    rcases hstate with hactive | hempty
    · cases hactive
    · cases hempty
  · rintro rfl
    cases hopened

/-! ### What a write gives back -/

/-- The blocks of a zone are those of its complete oneshot pages and the ones
behind them. -/
theorem blocks_eq (hlow : LowZone ns zid) (lba : ℕ) :
    512 * ((lba - zid * lbasPerZone ns) % (8 * ns.pgsPerOneshotpg)) +
        oneshotSize ns * (startOffset ns zid lba / ns.pgsPerOneshotpg) =
      512 * (lba - zid * lbasPerZone ns) := by
  have hoffset : startOffset ns zid lba = (lba - zid * lbasPerZone ns) / 8 := by
    rw [startOffset, hlow.zoneToSlpn_eq, lbasPerZone_mul]
    omega
  have hsplit := Nat.mod_add_div (lba - zid * lbasPerZone ns)
    (8 * ns.pgsPerOneshotpg)
  rw [hoffset, Nat.div_div_eq_div_mul, oneshotSize_eq]
  calc 512 * ((lba - zid * lbasPerZone ns) % (8 * ns.pgsPerOneshotpg)) +
        4096 * ns.pgsPerOneshotpg *
          ((lba - zid * lbasPerZone ns) / (8 * ns.pgsPerOneshotpg))
      = 512 * ((lba - zid * lbasPerZone ns) % (8 * ns.pgsPerOneshotpg) +
          8 * ns.pgsPerOneshotpg *
            ((lba - zid * lbasPerZone ns) / (8 * ns.pgsPerOneshotpg))) := by ring
    _ = 512 * (lba - zid * lbasPerZone ns) := by rw [hsplit]

/-- What a zone owes with its write pointer at `wp`, not at its end. -/
theorem unprogrammed_movedTo {desc : ZoneDescriptor} (h : Placed ns zid desc)
    (hlbas : ns.zp.nrZones * lbasPerZone ns < 2 ^ 32)
    (hzid : zid < ns.zp.nrZones) (wp : ℕ) :
    unprogrammed ns (movedTo ns zid desc wp) ≤
      if wp = zid * lbasPerZone ns + lbasPerZone ns then 0
      else 512 * ((wp - zid * lbasPerZone ns) % (8 * ns.pgsPerOneshotpg)) := by
  have hend := h.end_eq hlbas hzid
  rw [h.zslba_eq, h.capacity_eq] at hend
  by_cases heq : wp = zid * lbasPerZone ns + lbasPerZone ns
  · have hzoneEnd : wp = u64 (zoneToSlba ns zid + desc.zoneCapacity) := by
      rw [h.capacity_eq]
      exact heq.trans hend.symm
    rw [if_pos heq, movedTo_of_eq hzoneEnd]
    exact (unprogrammed_of_idle rfl).le
  · rw [if_neg heq, movedTo_of_ne (by rw [h.capacity_eq, hend]; exact heq)]
    rw [unprogrammed]
    split_ifs
    · rw [h.zslba_eq]
    · exact Nat.zero_le _

theorem unprogrammed_of_active {desc : ZoneDescriptor}
    (h : Placed ns zid desc)
    (hactive : isActive desc.state = true ∨ desc.state = .empty) :
    unprogrammed ns desc =
      512 * ((desc.wp - zid * lbasPerZone ns) % (8 * ns.pgsPerOneshotpg)) := by
  rcases hactive with hactive | hempty
  · rw [unprogrammed, if_pos hactive, h.zslba_eq]
  · have hstart := (h.of_empty hempty).1
    rw [unprogrammed_of_start hstart, hstart, h.zslba_eq, Nat.sub_self,
      Nat.zero_mod, Nat.mul_zero]

/-- A write that does not end inside the last page of a oneshot page gives back
what the complete oneshot pages took. -/
theorem released_write_le (ssd : Ssd) {req : RwRequest} {wp : ℕ}
    (hlbas : ns.zp.nrZones * lbasPerZone ns < 2 ^ 32)
    (hzid : zid < ns.zp.nrZones) (hle : zid * lbasPerZone ns ≤ wp)
    (hend : wp + req.nrLba ≤ zid * lbasPerZone ns + lbasPerZone ns)
    (hgood : 8 ∣ wp + req.nrLba ∨
      ¬ ClosingPage ns zid ((wp + req.nrLba) / 8)) :
    released (writePages ns ssd req zid wp).2.writebacks +
        (if wp + req.nrLba = zid * lbasPerZone ns + lbasPerZone ns then 0
        else 512 * ((wp + req.nrLba - zid * lbasPerZone ns) %
          (8 * ns.pgsPerOneshotpg))) =
      req.bytes +
        512 * ((wp - zid * lbasPerZone ns) % (8 * ns.pgsPerOneshotpg)) := by
  have hlow : LowZone ns zid := zone_end_lt hlbas hzid
  have hwrite := @released_writePages ns zid ssd req wp hzid hle hend
  have hbefore := blocks_eq hlow wp
  have hafter := blocks_eq hlow (wp + req.nrLba)
  have hbytes : req.bytes = 512 * req.nrLba := Nat.mul_comm _ _
  by_cases hfull : wp + req.nrLba = zid * lbasPerZone ns + lbasPerZone ns
  · have hstop : endOffset ns zid (wp + req.nrLba) = zoneStop ns zid := by
      rw [hfull, endOffset, zoneStop, lbasPerZone_mul, lbasPerZone_eq]
      omega
    rw [hstop, closedBytes_zoneStop (Or.inl hlow), zoneStop_of_low hlow]
      at hwrite
    have hzone := @lbasPerZone_eq ns
    rw [if_pos hfull]
    omega
  · rw [closedBytes_of_not_closing (hle.trans (Nat.le_add_right wp req.nrLba))
      (by omega) hgood] at hwrite
    rw [if_neg hfull]
    omega

/-- An implicit flush gives back no more than it took. -/
theorem released_flush_le (ssd : Ssd) (req : RwRequest) {wp nrLbas : ℕ}
    (hlbas : ns.zp.nrZones * lbasPerZone ns < 2 ^ 32)
    (hzid : zid < ns.zp.nrZones) (hle : zid * lbasPerZone ns ≤ wp)
    (hend : wp + nrLbas ≤ zid * lbasPerZone ns + lbasPerZone ns) :
    released (flushPages ns ssd req zid wp nrLbas).2.writebacks +
        512 * ((wp + nrLbas - zid * lbasPerZone ns) %
          (8 * ns.pgsPerOneshotpg)) ≤
      512 * nrLbas +
        512 * ((wp - zid * lbasPerZone ns) % (8 * ns.pgsPerOneshotpg)) := by
  have hlow : LowZone ns zid := zone_end_lt hlbas hzid
  have hflush := @released_flushPages ns zid ssd req wp nrLbas hzid hle hend
  have hbefore := blocks_eq hlow wp
  have hafter := blocks_eq hlow (wp + nrLbas)
  have hstop : startOffset ns zid wp + nrLbas / 8 ≤
      startOffset ns zid (wp + nrLbas) := by
    rw [startOffset, startOffset, hlow.zoneToSlpn_eq]
    rw [lbasPerZone_mul] at hle
    omega
  have hpages := Nat.mul_le_mul_left (oneshotSize ns)
    (Nat.div_le_div_right (c := ns.pgsPerOneshotpg) hstop)
  omega

/-! ### Both writes -/

variable {req : RwRequest} {ret : NvmevResult} {outcome : WriteOutcome}

/-- The buffer of a zone without a random write area. -/
theorem homeBuffer_of_unset (hzrwav : (s.zoneDescs zid).zrwav = false) :
    homeBuffer ns zid (s.zoneDescs zid).zrwav = writeBufferOf ns zid := by
  rw [homeBuffer, hzrwav]
  rfl

/-- Bytes taken from the write buffer for a write that moves no zone. -/
theorem Taken.lost {bytes : ℕ} (hzrwav : (s.zoneDescs zid).zrwav = false)
    (hdescs : s'.zoneDescs = s.zoneDescs)
    (hbuffer : s'.buffer =
      (takeBytes s (writeBufferOf ns zid) bytes).buffer) :
    Taken ns s s' [] := by
  have hhome := @homeBuffer_of_unset ns s zid hzrwav
  refine Taken.of_home zid (s.zoneDescs zid) ?_ rfl ?_ ?_ ?_
  · rw [hdescs, Function.update_eq_self]
  · intro id _ hne
    rw [hhome] at hne
    rw [hbuffer, takeBytes_buffer, if_neg hne]
  · intro wb hwb
    cases hwb
  · intro _
    rw [hhome, hbuffer, takeBytes_buffer, if_pos rfl]
    exact ⟨rfl, Nat.add_le_add_right (Nat.sub_le _ _) _⟩

/-- A write to a zone without a random write area that does not end inside the
last page of a oneshot page. -/
theorem znsWriteZone_taken
    (hlbas : ns.zp.nrZones * lbasPerZone ns < 2 ^ 32)
    (hplaced : ∀ zid < ns.zp.nrZones, Placed ns zid (s.zoneDescs zid))
    (hzrwav : (s.zoneDescs (lbaToZone ns req.slba)).zrwav = false)
    (hgood : ¬ EndsInClosingPage ns s req)
    (hrun : znsWriteZone ns s req ret = .ok (outcome, s')) :
    Taken ns s s' outcome.writebacks := by
  obtain ⟨hzid, hcase⟩ := znsWriteZone_cases hrun
  have h := hplaced _ hzid
  rw [EndsInClosingPage] at hgood
  generalize lbaToZone ns req.slba = zid at *
  have hhome := @homeBuffer_of_unset ns s zid hzrwav
  cases hcase with
  | retry =>
      intro id _
      exact ⟨rfl, le_rfl⟩
  | refused => exact Taken.lost hzrwav (takeBytes_zoneDescs _ _ _) rfl
  | unopened hroom hcheck hopen hstatus =>
      obtain ⟨hdescs, hbuffer⟩ := znsWriteOpen_failed hopen hstatus
      exact Taken.lost hzrwav (hdescs.trans (takeBytes_zoneDescs _ _ _)) hbuffer
  | @written s₁ _ p hroom hcheck hopen hpages =>
      have hstate := of_znsWriteOpen hopen
      rw [takeBytes_zoneDescs] at hstate
      obtain ⟨-, hboundary, hwp⟩ := of_znsWriteCheck hcheck
      obtain ⟨⟨state, hopened, hdesc⟩, -, hbuffer, hothers⟩ :=
        znsWriteOpen_success hopen
      rw [takeBytes_zoneDescs] at hdesc hothers
      have hopenPlaced : Placed ns zid (s₁.zoneDescs zid) := by
        rw [hdesc]
        exact placed_opened h hstate hopened
      have hwpEq : (s₁.zoneDescs zid).wp = (s.zoneDescs zid).wp := by rw [hdesc]
      have hle := h.start_le
      have hend : (s.zoneDescs zid).wp + req.nrLba ≤
          zid * lbasPerZone ns + lbasPerZone ns := by
        have hwrite := hopenPlaced.write_le hzid
          (by rw [hdesc]; exact isActive_of_isOpened hopened)
          (RwRequest.nrLba_pos req) (RwRequest.nrLba_le req)
          (by rw [hwpEq, ← hwp]; exact hboundary)
        rwa [hopenPlaced.zslba_eq, hopenPlaced.capacity_eq, hwpEq] at hwrite
      have hlt := zone_end_lt hlbas hzid
      have hmove : u64 ((s₁.zoneDescs zid).wp + u32 req.nrLba) =
          (s.zoneDescs zid).wp + req.nrLba := by
        rw [hwpEq]
        exact u64_add_u32 (by omega) (by omega)
      have hdescs := @increaseWritePtr_zoneDescs ns s₁ zid req.nrLba
      rw [hmove] at hdescs
      rw [hwp] at hpages
      have hp : (writePages ns (increaseWritePtr ns s₁ zid req.nrLba).ssd req zid
          (s.zoneDescs zid).wp).2 = p := congrArg Prod.snd hpages
      have hbuffers : ∀ id, id ≠ .ssd →
          ({ increaseWritePtr ns s₁ zid req.nrLba with
            ssd := p.ssd } : ZnsFtl).buffer id =
          (takeBytes s (writeBufferOf ns zid) req.bytes).buffer id := by
        intro id hid
        rw [withSsd_buffer hid, increaseWritePtr_buffer, hbuffer]
      refine Taken.of_home zid (movedTo ns zid (s₁.zoneDescs zid)
        ((s.zoneDescs zid).wp + req.nrLba)) ?_ ?_ ?_ ?_ ?_
      · funext other
        by_cases heq : other = zid
        · subst heq
          rw [Function.update_self, hdescs, Function.update_self]
        · rw [Function.update_of_ne heq, ← hothers other heq]
          exact (congrFun hdescs other).trans (Function.update_of_ne heq _ _)
      · rw [movedTo, hdesc]
      · intro id hid hne
        rw [hhome] at hne
        rw [hbuffers id hid, takeBytes_buffer, if_neg hne]
      · rw [hhome]
        intro wb hwb
        apply buffer_writePages hzid hle hend
        rw [hp]
        exact hwb
      · rw [hhome]
        intro hne
        have hsize : ns.zp.zoneWbSize ≠ 0 :=
          fun hzero => hne (if_pos hzero)
        have hclosing : 8 ∣ (s.zoneDescs zid).wp + req.nrLba ∨
            ¬ ClosingPage ns zid (((s.zoneDescs zid).wp + req.nrLba) / 8) := by
          by_contra hnot
          rw [not_or, not_not] at hnot
          rw [writeBufferOf, if_neg hsize] at hroom
          exact hgood ⟨hsize, hzrwav, hroom, hcheck, hstate, hnot.1, hnot.2⟩
        have hreleased := released_write_le
          (increaseWritePtr ns s₁ zid req.nrLba).ssd hlbas hzid hle hend
          hclosing
        rw [hp] at hreleased
        have hafter := unprogrammed_movedTo hopenPlaced hlbas hzid
          ((s.zoneDescs zid).wp + req.nrLba)
        have hbefore := unprogrammed_of_active h hstate
        rw [hbuffers _ hne, takeBytes_buffer, if_pos rfl]
        refine ⟨rfl, ?_⟩
        dsimp only [writeOutcome]
        omega

/-- An allocation never adds to a buffer. -/
theorem bufferAllocate_le {buf buf' : Buffer} {size granted : ℕ}
    (h : bufferAllocate buf size = (granted, buf')) :
    buf'.size = buf.size ∧ buf'.remaining ≤ buf.remaining := by
  obtain rfl : _ = buf' := congrArg Prod.snd h
  exact ⟨rfl, Nat.sub_le _ _⟩

/-- The switch of `__zns_write_zrwa` gives nothing back. -/
theorem znsWriteZrwaOpen_taken {status : ℕ}
    (h : Placed ns zid (s.zoneDescs zid))
    (hzrwav : (s.zoneDescs zid).zrwav = true)
    (hopen : znsWriteZrwaOpen ns s zid = .ok (status, s')) :
    Taken ns s s' [] ∧ Placed ns zid (s'.zoneDescs zid) ∧
      (s'.zoneDescs zid).zrwav = true ∧
      (s'.zoneDescs zid).wp = (s.zoneDescs zid).wp ∧
      (status = scSuccess → isActive (s.zoneDescs zid).state = true ∧
        isActive (s'.zoneDescs zid).state = true) := by
  rcases znsWriteZrwaOpen_cases hopen with ⟨rfl, hopened⟩ |
    ⟨-, hclosed | hempty, havail, -, hroom, rfl⟩
  · refine ⟨fun id _ => ⟨rfl, le_rfl⟩, h, hzrwav, rfl, fun hstatus => ?_⟩
    have hactive := isActive_of_isOpened (hopened hstatus)
    exact ⟨hactive, hactive⟩
  · have hactive : isActive (s.zoneDescs zid).state = true := by
      rw [hclosed]
      rfl
    rw [acquireZoneResource_of_lt havail]
    have hdesc : (changeZoneState (takeBytes (setAcquiredCnt s .openZone
        (u32 ((s.resInfos .openZone).acquiredCnt + 1))) (.zrwa zid)
        ns.zp.zrwaSize) zid .openedImpl).zoneDescs =
          Function.update s.zoneDescs zid
            { s.zoneDescs zid with state := .openedImpl } := rfl
    have hhome : homeBuffer ns zid (s.zoneDescs zid).zrwav = .zrwa zid := by
      rw [homeBuffer, if_pos hzrwav]
    refine ⟨Taken.of_home zid _ hdesc rfl ?_ ?_ ?_, ?_, ?_, ?_, ?_⟩
    · intro id _ hne
      rw [hhome] at hne
      rw [changeZoneState_buffer, takeBytes_buffer, if_neg hne]
      rfl
    · intro wb hwb
      cases hwb
    · intro _
      rw [hhome, changeZoneState_buffer, takeBytes_buffer, if_pos rfl]
      exact ⟨rfl, Nat.add_le_add (Nat.sub_le _ _)
        (unprogrammed_le_of_active hactive _)⟩
    all_goals rw [hdesc, Function.update_self]
    · exact placed_opened h (Or.inl hactive) rfl
    · exact hzrwav
    · exact fun _ => ⟨hactive, rfl⟩
  · exact absurd (h.of_empty hempty).2 (by rw [hzrwav]; decide)

theorem Taken.trans {s'' : ZnsFtl} {writebacks : List Writeback}
    (h : Taken ns s s' []) (h' : Taken ns s' s'' writebacks) :
    Taken ns s s'' writebacks := by
  intro id hid
  obtain ⟨hsize, hle⟩ := h id hid
  obtain ⟨hsize', hle'⟩ := h' id hid
  have hnone : pendingOf [] id = 0 := rfl
  exact ⟨hsize'.trans hsize, by omega⟩

/-- A flush that finds no room in the ZRWA buffer takes what there is. -/
theorem flushRefused_taken {nrLbas : ℕ}
    (hrun : flushImplicit ns s zid nrLbas = .ok (false, s')) :
    Taken ns s s' [] := by
  rcases flushImplicit_cases hrun with ⟨-, hmoved, -⟩ |
    ⟨-, -, granted, buf, halloc, ⟨-, -, rfl⟩ | ⟨-, hmoved, -⟩⟩
  · cases hmoved
  · obtain ⟨hsize, hle⟩ := bufferAllocate_le halloc
    intro id _
    rw [setBuffer_buffer, owed_congr (setBuffer_zoneDescs _ _ _)]
    by_cases heq : id = .zrwa zid
    · rw [if_pos heq, heq]
      exact ⟨hsize, Nat.add_le_add_right hle _⟩
    · rw [if_neg heq]
      exact ⟨rfl, le_rfl⟩
  · cases hmoved

/-- A flush takes its bytes from the ZRWA buffer of the zone, and its pages
release them. -/
theorem flushed_taken {nrLbas : ℕ} {p : Program}
    (hlbas : ns.zp.nrZones * lbasPerZone ns < 2 ^ 32)
    (hzid : zid < ns.zp.nrZones) (h : Placed ns zid (s.zoneDescs zid))
    (hzrwav : (s.zoneDescs zid).zrwav = true)
    (hactive : isActive (s.zoneDescs zid).state = true)
    (hend : (s.zoneDescs zid).wp + nrLbas ≤
      zid * lbasPerZone ns + lbasPerZone ns)
    (hmoved : flushImplicit ns s zid nrLbas = .ok (true, s'))
    (hpages : (flushPages ns s'.ssd req zid (s.zoneDescs zid).wp nrLbas).2 =
      p) : Taken ns s { s' with ssd := p.ssd } p.writebacks := by
  have hhome : homeBuffer ns zid (s.zoneDescs zid).zrwav = .zrwa zid := by
    rw [homeBuffer, if_pos hzrwav]
  have hle := h.start_le
  have hreleased := released_flush_le s'.ssd req hlbas hzid hle hend
  rw [hpages] at hreleased
  have hwritebacks : ∀ wb ∈ p.writebacks, wb.buffer = .zrwa zid := by
    rw [← hpages]
    exact buffer_flushPages hzid hle hend
  have hbefore := unprogrammed_of_active h (Or.inl hactive)
  rcases flushImplicit_cases hmoved with ⟨rfl, -, rfl⟩ |
    ⟨-, -, granted, buf, halloc, ⟨-, hfalse, -⟩ | ⟨hgranted, -, rfl⟩⟩
  · refine Taken.of_home zid (s'.zoneDescs zid) ?_ rfl ?_ ?_ ?_
    · exact (Function.update_eq_self _ _).symm
    · exact fun id hid _ => withSsd_buffer hid _
    · rw [hhome]
      exact hwritebacks
    · rw [hhome]
      intro hne
      rw [withSsd_buffer hne]
      rw [Nat.add_zero, Nat.mul_zero] at hreleased
      refine ⟨rfl, ?_⟩
      omega
  · cases hfalse
  · have hlt := zone_end_lt hlbas hzid
    have hdescs := @increaseWritePtr_zoneDescs ns
      (s.setBuffer (.zrwa zid) buf) zid nrLbas
    rw [setBuffer_zoneDescs, u64_add_u32 (by omega) (by omega)] at hdescs
    have hroom := (of_bufferAllocate halloc hgranted).1
    rw [bufferAllocate_of_le hroom] at halloc
    obtain rfl : _ = buf := congrArg Prod.snd halloc
    have hbytes : lbaToByte nrLbas = 512 * nrLbas := Nat.mul_comm _ _
    have hafter := unprogrammed_movedTo h hlbas hzid
      ((s.zoneDescs zid).wp + nrLbas)
    have hcut : (if (s.zoneDescs zid).wp + nrLbas =
        zid * lbasPerZone ns + lbasPerZone ns then 0
      else 512 * (((s.zoneDescs zid).wp + nrLbas - zid * lbasPerZone ns) %
        (8 * ns.pgsPerOneshotpg))) ≤
        512 * (((s.zoneDescs zid).wp + nrLbas - zid * lbasPerZone ns) %
          (8 * ns.pgsPerOneshotpg)) := by
      split_ifs
      · exact Nat.zero_le _
      · exact le_rfl
    refine Taken.of_home zid _ hdescs rfl ?_ ?_ ?_
    · intro id hid hne
      rw [hhome] at hne
      rw [withSsd_buffer hid, increaseWritePtr_buffer, setBuffer_buffer,
        if_neg hne]
    · rw [hhome]
      exact hwritebacks
    · rw [hhome]
      intro hne
      rw [withSsd_buffer hne, increaseWritePtr_buffer, setBuffer_buffer,
        if_pos rfl]
      refine ⟨rfl, ?_⟩
      dsimp only [ZnsFtl.buffer]
      omega

/-- A write to a zone with a random write area. -/
theorem znsWriteZrwa_taken
    (hlbas : ns.zp.nrZones * lbasPerZone ns < 2 ^ 32)
    (hzrwa : ns.zp.lbasPerZrwafg ≤ ns.zp.lbasPerZrwa)
    (hplaced : ∀ zid < ns.zp.nrZones, Placed ns zid (s.zoneDescs zid))
    (hzrwav : (s.zoneDescs (lbaToZone ns req.slba)).zrwav = true)
    (hrun : znsWriteZrwa ns s req ret = .ok (outcome, s')) :
    Taken ns s s' outcome.writebacks := by
  obtain ⟨hzid, hcase⟩ := znsWriteZrwa_cases hrun
  obtain ⟨zid, hzone⟩ : ∃ zid, lbaToZone ns req.slba = zid := ⟨_, rfl⟩
  rw [hzone] at hzid hzrwav hcase
  have h := hplaced _ hzid
  cases hcase with
  | refused => exact fun id _ => ⟨rfl, le_rfl⟩
  | unopened hcheck hopen =>
      exact (znsWriteZrwaOpen_taken h hzrwav hopen).1
  | @retry s₁ s₂ nrLbas hcheck hopen hflush hfull =>
      exact (znsWriteZrwaOpen_taken h hzrwav hopen).1.trans
        (flushRefused_taken hfull)
  | @written s₁ s₂ nrLbas _ p hcheck hopen hflush hmoved hpages =>
      obtain ⟨htaken, hopened, hzrwav₁, hwp, hactive⟩ :=
        znsWriteZrwaOpen_taken h hzrwav hopen
      obtain ⟨hactiveBefore, hactive⟩ := hactive rfl
      have hend := h.flush_le hlbas hzrwa hzid hactiveBefore hzone hcheck
        hflush
      rw [h.zslba_eq, h.capacity_eq] at hend
      rw [← hwp] at hend hpages
      exact htaken.trans (flushed_taken hlbas hzid hopened hzrwav₁ hactive hend
        hmoved (congrArg Prod.snd hpages))

/-! ## Runs -/

theorem znsWrite_taken (hlbas : ns.zp.nrZones * lbasPerZone ns < 2 ^ 32)
    (hzrwa : ns.zp.lbasPerZrwafg ≤ ns.zp.lbasPerZrwa)
    (hplaced : ∀ zid < ns.zp.nrZones, Placed ns zid (s.zoneDescs zid))
    (hgood : ¬ EndsInClosingPage ns s req)
    (hrun : znsWrite ns s req ret = .ok (outcome, s')) :
    Taken ns s s' outcome.writebacks := by
  obtain ⟨-, ⟨hzrwav, hrun⟩ | ⟨hzrwav, hrun⟩⟩ := znsWrite_cases hrun
  · exact znsWriteZone_taken hlbas hplaced hzrwav hgood hrun
  · exact znsWriteZrwa_taken hlbas hzrwa hplaced hzrwav hrun

/-- A writeback that is completed moves its bytes into its buffer. -/
theorem Covered.complete {pending : List Writeback} {index : ℕ}
    {wb : Writeback} (h : Covered ns s pending)
    (hwb : pending[index]? = some wb) :
    Covered ns (releaseWriteback s wb) (pending.eraseIdx index) := by
  intro id hid
  have hbefore := h id hid
  have herase : pendingOf (pending.eraseIdx index) id +
      (if wb.buffer = id then wb.buffsToRelease else 0) =
        pendingOf pending id := inFlight_eraseIdx hwb id
  rw [releaseWriteback, owed_congr (setBuffer_zoneDescs _ _ _), setBuffer_buffer]
  by_cases heq : id = wb.buffer
  · subst heq
    rw [if_pos rfl] at herase ⊢
    dsimp only [bufferRelease]
    omega
  · rw [if_neg fun h => heq h.symm] at herase
    rw [if_neg heq]
    omega

theorem znsInitFtl_covered (ssd : Ssd) (storage : ℕ → ℕ) :
    Covered ns (znsInitFtl ns ssd storage) [] := by
  have hidle : ∀ zid, unprogrammed ns (initDescriptor ns zid) = 0 :=
    fun zid => unprogrammed_of_idle rfl
  intro id hid
  cases id with
  | ssd => exact absurd rfl hid
  | zone zid =>
      have howed : owed ns (znsInitFtl ns ssd storage) (.zone zid) = 0 := by
        rw [owed]
        split_ifs
        · rfl
        · exact hidle zid
      rw [howed]
      exact le_rfl
  | zrwa zid =>
      have howed : owed ns (znsInitFtl ns ssd storage) (.zrwa zid) = 0 := by
        rw [owed]
        exact if_neg Bool.false_ne_true
      rw [howed]
      exact le_rfl

theorem measured_reachable {state : ZnsState}
    (hreach : Reachable (measuredMachine ns) state) :
    Reachable (znsMachine ns) state := by
  induction hreach with
  | start hinit => exact .start hinit
  | next _ henabled hstep ih => exact ih.next henabled.1 hstep

theorem reachable_covered (hlbas : ns.zp.nrZones * lbasPerZone ns < 2 ^ 32)
    (hzrwa : ns.zp.lbasPerZrwafg ≤ ns.zp.lbasPerZrwa) {state : ZnsState}
    (hreach : Reachable (measuredMachine ns) state) :
    Covered ns state.ftl state.pending := by
  induction hreach with
  | start hinit =>
      obtain ⟨hch, hpcie, clock, storage, rfl⟩ := hinit
      exact znsInitFtl_covered _ _
  | @next before after action hbefore henabled hstep ih =>
      have hplaced := reachable_placed hlbas hzrwa (measured_reachable hbefore)
      obtain ⟨-, hmeasured⟩ := henabled
      cases action with
      | write req ret =>
          obtain ⟨⟨outcome, ftl⟩, hrun, hafter⟩ := bind_eq_ok hstep
          cases hafter
          exact ih.take (znsWrite_taken hlbas hzrwa hplaced hmeasured hrun)
      | mgmtSend cmd nsecsStart uninit ret =>
          obtain ⟨⟨ret', ftl⟩, hrun, hafter⟩ := bind_eq_ok hstep
          cases hafter
          rw [Overfills] at hmeasured
          rw [znsZmgmtSend] at hrun
          cases hall : cmd.selectAll with
          | false =>
              rw [hall, if_neg (by simp)] at hmeasured hrun
              obtain ⟨⟨status, _⟩, hsend, hret⟩ := bind_eq_ok hrun
              cases hret
              exact (zmgmtSend_covered hlbas (hplaced _) ih hmeasured hsend).1
          | true =>
              rw [hall, if_pos rfl] at hmeasured hrun
              obtain ⟨_, hloop, hret⟩ := bind_eq_ok hrun
              cases hret
              exact selectAll_covered hlbas hplaced
                (fun zid hzid hsend => hmeasured ⟨zid, hzid, hsend⟩)
                List.nodup_range (fun zid hzid => ⟨List.mem_range.mp hzid, rfl⟩)
                ih hloop
      | complete index =>
          rw [measuredMachine] at hstep
          dsimp only [znsStep] at hstep
          cases hwb : before.pending[index]? with
          | none =>
              rw [hwb] at hstep
              cases hstep
              exact ih
          | some wb =>
              rw [hwb] at hstep
              cases hstep
              exact ih.complete hwb

/-- In every run without a step that gives back too much, no buffer of a zone
has more bytes than its size. -/
theorem remaining_le_size (hlbas : ns.zp.nrZones * lbasPerZone ns < 2 ^ 32)
    (hzrwa : ns.zp.lbasPerZrwafg ≤ ns.zp.lbasPerZrwa) {state : ZnsState}
    (hreach : Reachable (measuredMachine ns) state) (zid : ℕ) :
    (state.ftl.zoneWriteBuffer zid).remaining ≤
        (state.ftl.zoneWriteBuffer zid).size ∧
      (state.ftl.zwraBuffer zid).remaining ≤
        (state.ftl.zwraBuffer zid).size := by
  have hcovered := reachable_covered hlbas hzrwa hreach
  have hzone : (state.ftl.zoneWriteBuffer zid).remaining +
      pendingOf state.pending (.zone zid) + owed ns state.ftl (.zone zid) ≤
        (state.ftl.zoneWriteBuffer zid).size := hcovered (.zone zid) (by simp)
  have hzwra : (state.ftl.zwraBuffer zid).remaining +
      pendingOf state.pending (.zrwa zid) + owed ns state.ftl (.zrwa zid) ≤
        (state.ftl.zwraBuffer zid).size := hcovered (.zrwa zid) (by simp)
  omega

/-- A write of a whole zone is measured. -/
theorem remaining_le_size_whole :
    ∃ state, Reachable (measuredMachine (twoZones 2)) state ∧
      (state.ftl.zoneDescs 0).state = .full ∧
      (state.ftl.zoneWriteBuffer 0).remaining ≤
        (state.ftl.zoneWriteBuffer 0).size := by
  have hrun : ((znsStep (twoZones 2) (twoZonesStart 2)
      writeFirstWhole).toOption.map fun s =>
        (s.ftl.zoneDescs 0).state) = some .full := by
    decide +kernel
  obtain ⟨state, hstate, hfull⟩ := Option.map_eq_some_iff.mp hrun
  have hstep : znsStep (twoZones 2) (twoZonesStart 2) writeFirstWhole =
      .ok state := by
    cases hresult : znsStep (twoZones 2) (twoZonesStart 2) writeFirstWhole with
    | error fault =>
        rw [hresult] at hstate
        cases hstate
    | ok after =>
        rw [hresult] at hstate
        exact congrArg Except.ok (Option.some.inj hstate)
  have henabled : (measuredMachine (twoZones 2)).enabled (twoZonesStart 2)
      writeFirstWhole := by
    refine ⟨trivial, fun hends => ?_⟩
    obtain ⟨-, -, -, -, -, hinside, -⟩ := hends
    exact hinside (by decide)
  have hreach : Reachable (measuredMachine (twoZones 2)) state :=
    .next (.start (twoZonesStart_init 2)) henabled hstep
  exact ⟨state, hreach, hfull,
    (remaining_le_size (by decide) (by decide) hreach 0).1⟩

/-- One block of the first page: its writeback gives back the whole page. -/
theorem one_block_overfills :
    ∃ state, Reachable (znsMachine (twoZones 2)) state ∧
      (state.ftl.zoneWriteBuffer 0).size <
        (state.ftl.zoneWriteBuffer 0).remaining := by
  have hrun : (((znsMachine (twoZones 2)).run
      [.write (writeBlocks 0 ⟨0, zero_lt_bits⟩) ⟨0, 0, 0⟩, .complete 0]
      (twoZonesStart 2)).map fun s => ((s.ftl.zoneWriteBuffer 0).size,
        (s.ftl.zoneWriteBuffer 0).remaining)) = some (16384, 19968) := by
    decide +kernel
  obtain ⟨state, hstate, hvalues⟩ := Option.map_eq_some_iff.mp hrun
  obtain ⟨hsize, hremaining⟩ : _ ∧ _ := by
    simpa only [Prod.mk.injEq] using hvalues
  refine ⟨state, Reachable.run (.start (twoZonesStart_init 2)) hstate, ?_⟩
  rw [hsize, hremaining]
  decide

end

end NvmeVirt.Buffers
