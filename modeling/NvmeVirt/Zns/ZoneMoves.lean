import NvmeVirt.Core.Counting
import NvmeVirt.Zns.ReadWrite
import Mathlib.Logic.Relation

/-!
# What a command does to a zone

Every zone command is a chain of elementary steps, each of which moves the
descriptor of one zone and settles the resource counters with that zone.
`ZoneMove` lists the moves, with the checks of the code that come before them;
`Accounted` says that a counter is the number of zones that hold the resource.
-/

namespace NvmeVirt.ZoneMoves

open NvmeVirt.Counting
open NvmeVirt.Kernel
open NvmeVirt.MgmtSend
open NvmeVirt.ReadWrite
open NvmeVirt.Timing
open NvmeVirt.Transition
open NvmeVirt.Zones

/-- `ZONE_STATE_OPENED_IMPL` and `ZONE_STATE_OPENED_EXPL`. -/
def isOpened : ZoneState → Bool
  | .openedImpl | .openedExpl => true
  | .empty | .closed | .readOnly | .full | .offline => false

/-- The opened states and `ZONE_STATE_CLOSED`. -/
def isActive : ZoneState → Bool
  | .openedImpl | .openedExpl | .closed => true
  | .empty | .readOnly | .full | .offline => false

@[simp]
theorem isOpened_values :
    isOpened .openedImpl = true ∧ isOpened .openedExpl = true ∧
      isOpened .closed = false ∧ isOpened .empty = false ∧
      isOpened .full = false ∧ isOpened .readOnly = false ∧
      isOpened .offline = false :=
  ⟨rfl, rfl, rfl, rfl, rfl, rfl, rfl⟩

@[simp]
theorem isActive_values :
    isActive .openedImpl = true ∧ isActive .openedExpl = true ∧
      isActive .closed = true ∧ isActive .empty = false ∧
      isActive .full = false ∧ isActive .readOnly = false ∧
      isActive .offline = false :=
  ⟨rfl, rfl, rfl, rfl, rfl, rfl, rfl⟩

theorem isActive_of_isOpened {state : ZoneState} (h : isOpened state = true) :
    isActive state = true := by
  cases state <;> first | rfl | cases h

/-- Whether a zone counts towards a resource. -/
@[simp]
def holds : ZoneResourceType → ZoneDescriptor → Bool
  | .activeZone, desc => isActive desc.state
  | .openZone, desc => isOpened desc.state
  | .zrwaZone, desc => desc.zrwav && isActive desc.state

/-- The number of zones that count towards a resource. -/
def holders (ns : ZnsNamespace) (s : ZnsFtl) (type : ZoneResourceType) : ℕ :=
  countOn (Finset.range ns.zp.nrZones) (fun desc => holds type desc = true)
    s.zoneDescs

/-- What one zone contributes to a counter. -/
def held (type : ZoneResourceType) (desc : ZoneDescriptor) : ℕ :=
  if holds type desc = true then 1 else 0

/-- The ZRWA resources that no zone holds any more. -/
def leakOf (leak : ℕ) : ZoneResourceType → ℕ
  | .zrwaZone => leak
  | .activeZone | .openZone => 0

/-- The counters are the numbers of holders, up to `leak` ZRWA resources. -/
structure Accounted (ns : ZnsNamespace) (leak : ℕ) (s : ZnsFtl) : Prop where
  total : ∀ type, (s.resInfos type).totalCnt = ns.zp.nrZones
  count : ∀ type, (s.resInfos type).acquiredCnt =
    holders ns s type + leakOf leak type
  le_total : ∀ type, (s.resInfos type).acquiredCnt ≤ ns.zp.nrZones
  zrwav_ne_empty : ∀ zid < ns.zp.nrZones, (s.zoneDescs zid).zrwav = true →
    (s.zoneDescs zid).state ≠ .empty

/-- A zone whose write pointer moved to `wp`: it is full when that is its
end. -/
def movedTo (ns : ZnsNamespace) (zid : ℕ) (desc : ZoneDescriptor) (wp : ℕ) :
    ZoneDescriptor :=
  { desc with
    wp := wp
    state :=
      if wp = u64 (zoneToSlba ns zid + desc.zoneCapacity) then .full
      else desc.state }

/-- The moves of a zone descriptor. -/
inductive ZoneMove (ns : ZnsNamespace) (zid : ℕ) :
    ZoneDescriptor → ZoneDescriptor → Prop
  | stay (desc) : ZoneMove ns zid desc desc
  | close {desc} (hstate : isOpened desc.state = true) :
      ZoneMove ns zid desc { desc with state := .closed }
  | finish {desc} (hstate : isActive desc.state = true ∨ desc.state = .empty) :
      ZoneMove ns zid desc { desc with state := .full }
  | openEmpty {desc} (state : ZoneState) (zrwav : Bool)
      (hempty : desc.state = .empty) (hopened : isOpened state = true) :
      ZoneMove ns zid desc { desc with state := state, zrwav := zrwav }
  | openActive {desc} (state : ZoneState) (hactive : isActive desc.state = true)
      (hopened : isOpened state = true) :
      ZoneMove ns zid desc { desc with state := state }
  | reset {desc} (hstate : desc.state ≠ .readOnly ∧ desc.state ≠ .offline) :
      ZoneMove ns zid desc
        { desc with state := .empty, wp := desc.zslba, zrwav := false }
  | offline {desc} (hstate : desc.state = .readOnly) :
      ZoneMove ns zid desc { desc with state := .offline }
  /-- An explicit flush up to `slba`. -/
  | flush {desc} (slba : ℕ) (hactive : isActive desc.state = true)
      (hzrwav : desc.zrwav = true) (hle : desc.wp ≤ slba)
      (hend : slba ≤ zrwaEnd ns zid desc) :
      ZoneMove ns zid desc (movedTo ns zid desc (u64 (slba + 1)))
  /-- A write of `nrLba` blocks at the write pointer. -/
  | write {desc} (nrLba : ℕ) (hopened : isOpened desc.state = true)
      (hzrwav : desc.zrwav = false) (hpos : 0 < nrLba)
      (hle : nrLba ≤ 2 ^ 16)
      (hzone : checkBoundaryError ns desc.wp nrLba = true) :
      ZoneMove ns zid desc (movedTo ns zid desc (u64 (desc.wp + u32 nrLba)))
  /-- The implicit flush of a write from `slba` on. -/
  | writeZrwa {desc} (slba nrLba nrLbas : ℕ)
      (hopened : isOpened desc.state = true) (hzrwav : desc.zrwav = true)
      (hzid : lbaToZone ns slba = zid) (hpos : 0 < nrLba)
      (hle : nrLba ≤ 2 ^ 16)
      (hcheck : znsWriteZrwaCheck ns desc slba nrLba = scSuccess)
      (hflush : nrLbasFlush ns zid desc.wp (lastLba slba nrLba) = .ok nrLbas)
      (hflush_pos : nrLbas ≠ 0) :
      ZoneMove ns zid desc (movedTo ns zid desc (u64 (desc.wp + u32 nrLbas)))

/-- An elementary step on the zone `zid`.  Where `leak` allows it, the ZRWA
resource of the zone may be kept. -/
structure ZoneStep (ns : ZnsNamespace) (leak : Prop) (zid : ℕ)
    (s s' : ZnsFtl) : Prop where
  zid_lt : zid < ns.zp.nrZones
  move : ZoneMove ns zid (s.zoneDescs zid) (s'.zoneDescs zid)
  others : ∀ other, other ≠ zid → s'.zoneDescs other = s.zoneDescs other
  total : ∀ type, (s'.resInfos type).totalCnt = (s.resInfos type).totalCnt
  le_total : ∀ type, (s'.resInfos type).acquiredCnt ≤ ns.zp.nrZones
  settled : ∀ type, (s'.resInfos type).acquiredCnt +
      held type (s.zoneDescs zid) =
    (s.resInfos type).acquiredCnt + held type (s'.zoneDescs zid) ∨
    (type = .zrwaZone ∧ leak ∧ (s'.resInfos type).acquiredCnt +
      held type (s.zoneDescs zid) =
    (s.resInfos type).acquiredCnt + held type (s'.zoneDescs zid) + 1)

/-- A chain of elementary steps. -/
def ZoneSteps (ns : ZnsNamespace) (leak : Prop) : ZnsFtl → ZnsFtl → Prop :=
  Relation.ReflTransGen fun s s' => ∃ zid, ZoneStep ns leak zid s s'

/-! ## Accounting -/

section

variable {ns : ZnsNamespace} {leak : ℕ} {s s' : ZnsFtl}

theorem Accounted.held_le (h : Accounted ns leak s) {zid : ℕ}
    (hzid : zid < ns.zp.nrZones) (type : ZoneResourceType) :
    held type (s.zoneDescs zid) ≤ (s.resInfos type).acquiredCnt := by
  rw [h.count type, held]
  split_ifs with hholds
  · have hpos : 0 < holders ns s type :=
      countOn_pos (Finset.mem_range.mpr hzid) hholds
    omega
  · exact Nat.zero_le _

/-- The accounts are about the descriptors and the counters only. -/
theorem Accounted.congr {leak : ℕ} (h : Accounted ns leak s)
    (hdescs : s'.zoneDescs = s.zoneDescs)
    (hinfos : s'.resInfos = s.resInfos) : Accounted ns leak s' where
  total := by
    rw [hinfos]
    exact h.total
  count type := by
    rw [hinfos, holders, hdescs]
    exact h.count type
  le_total := by
    rw [hinfos]
    exact h.le_total
  zrwav_ne_empty := by
    rw [hdescs]
    exact h.zrwav_ne_empty

/-- How the number of holders moves with one descriptor. -/
theorem holders_of_others {zid : ℕ} (hzid : zid < ns.zp.nrZones)
    (hothers : ∀ other, other ≠ zid →
      s'.zoneDescs other = s.zoneDescs other)
    (type : ZoneResourceType) :
    holders ns s' type + held type (s.zoneDescs zid) =
      holders ns s type + held type (s'.zoneDescs zid) := by
  have hupdate : s'.zoneDescs =
      Function.update s.zoneDescs zid (s'.zoneDescs zid) := by
    funext other
    by_cases heq : other = zid
    · rw [heq, Function.update_self]
    · rw [Function.update_of_ne heq, hothers other heq]
  rw [holders, hupdate, Function.update_self]
  exact countOn_update (s'.zoneDescs zid) (Finset.mem_range.mpr hzid)

/-- No move ends in an empty zone with a random write area. -/
theorem ZoneMove.zrwav_ne_empty {zid : ℕ} {desc desc' : ZoneDescriptor}
    (hmove : ZoneMove ns zid desc desc')
    (h : desc.zrwav = true → desc.state ≠ .empty) :
    desc'.zrwav = true → desc'.state ≠ .empty := by
  cases hmove with
  | stay => exact h
  | close | finish | offline => exact fun _ => by simp
  | openEmpty state zrwav hempty hopened =>
      rintro - rfl
      cases hopened
  | openActive state hactive hopened =>
      rintro - rfl
      cases hopened
  | reset => exact fun hzrwav => by cases hzrwav
  | flush slba hactive hzrwav hle hend =>
      intro _
      unfold movedTo
      dsimp only
      split_ifs
      · simp
      · exact h hzrwav
  | write nrLba hopened hzrwav =>
      intro htrue
      rw [movedTo] at htrue
      rw [hzrwav] at htrue
      cases htrue
  | writeZrwa slba nrLba nrLbas hopened hzrwav =>
      intro _
      unfold movedTo
      dsimp only
      split_ifs
      · simp
      · exact h hzrwav

/-- One step keeps the accounts, and adds at most one leaked resource. -/
theorem ZoneStep.accounted {leaks : Prop} {zid : ℕ}
    (hstep : ZoneStep ns leaks zid s s') (h : Accounted ns leak s) :
    ∃ leak', Accounted ns leak' s' ∧ leak ≤ leak' ∧ (¬ leaks → leak' = leak) := by
  have hcount : ∀ type, type ≠ .zrwaZone →
      (s'.resInfos type).acquiredCnt = holders ns s' type := by
    intro type hne
    have hmoved := holders_of_others hstep.zid_lt hstep.others type
    have hbefore := h.count type
    have hzero : leakOf leak type = 0 := by
      cases type <;> first | rfl | exact absurd rfl hne
    rcases hstep.settled type with hsettled | ⟨heq, -, -⟩
    · omega
    · exact absurd heq hne
  have hzrwav : ∀ zid < ns.zp.nrZones, (s'.zoneDescs zid).zrwav = true →
      (s'.zoneDescs zid).state ≠ .empty := by
    intro other hother
    by_cases heq : other = zid
    · subst heq
      exact hstep.move.zrwav_ne_empty (h.zrwav_ne_empty other hother)
    · rw [hstep.others other heq]
      exact h.zrwav_ne_empty other hother
  have hbuild : ∀ leak', (s'.resInfos .zrwaZone).acquiredCnt =
      holders ns s' .zrwaZone + leak' → Accounted ns leak' s' := by
    intro leak' hzrwa
    exact {
      total := fun type => (hstep.total type).trans (h.total type)
      count := fun type => by
        cases type with
        | zrwaZone => exact hzrwa
        | activeZone => exact hcount .activeZone (by decide)
        | openZone => exact hcount .openZone (by decide)
      le_total := hstep.le_total
      zrwav_ne_empty := hzrwav }
  have hmoved := holders_of_others hstep.zid_lt hstep.others .zrwaZone
  have hbefore : _ = _ + leak := h.count .zrwaZone
  rcases hstep.settled .zrwaZone with hsettled | ⟨-, hleaks, hsettled⟩
  · exact ⟨leak, hbuild leak (by omega), le_rfl, fun _ => rfl⟩
  · exact ⟨leak + 1, hbuild (leak + 1) (by omega), Nat.le_succ leak,
      fun hnot => absurd hleaks hnot⟩

/-- Any chain keeps the accounts. -/
theorem ZoneSteps.accounted {leaks : Prop} (hsteps : ZoneSteps ns leaks s s')
    (h : Accounted ns leak s) :
    ∃ leak', Accounted ns leak' s' ∧ leak ≤ leak' ∧ (¬ leaks → leak' = leak) := by
  induction hsteps with
  | refl => exact ⟨leak, h, le_rfl, fun _ => rfl⟩
  | tail _ hstep ih =>
      obtain ⟨zid, hstep⟩ := hstep
      obtain ⟨middle, hmiddle, hle, heq⟩ := ih
      obtain ⟨leak', hleak', hle', heq'⟩ := hstep.accounted hmiddle
      exact ⟨leak', hleak', hle.trans hle',
        fun hnot => (heq' hnot).trans (heq hnot)⟩

/-! ## Management actions -/

theorem of_zoneDesc {zid : ℕ} {desc : ZoneDescriptor}
    (h : zoneDesc ns s zid = .ok desc) :
    zid < ns.zp.nrZones ∧ desc = s.zoneDescs zid := by
  unfold zoneDesc at h
  split_ifs at h with hzid
  cases h
  exact ⟨hzid, rfl⟩

/-- Releasing a resource that a zone holds takes one off the counter. -/
theorem Accounted.release {zid : ℕ} (h : Accounted ns leak s)
    (hzid : zid < ns.zp.nrZones) (type : ZoneResourceType)
    (hholds : holds type (s.zoneDescs zid) = true) :
    sub32 (s.resInfos type).acquiredCnt 1 + 1 =
      (s.resInfos type).acquiredCnt := by
  have hheld := h.held_le hzid type
  rw [held, if_pos hholds] at hheld
  have hle := h.le_total type
  have hlt : ns.zp.nrZones < 2 ^ 32 := nrZones_lt ns
  rw [sub32_of_le hheld (by omega)]
  omega

/-- Acquiring an available resource adds one to the counter. -/
theorem Accounted.acquire (h : Accounted ns leak s) {type : ZoneResourceType}
    (havail : (s.resInfos type).acquiredCnt < (s.resInfos type).totalCnt) :
    u32 ((s.resInfos type).acquiredCnt + 1) =
      (s.resInfos type).acquiredCnt + 1 := by
  have hlt : ns.zp.nrZones < 2 ^ 32 := nrZones_lt ns
  rw [h.total type] at havail
  exact u32_of_lt (by omega)

/-- Leaving every descriptor and every counter as it is. -/
theorem ZoneStep.of_eq (h : Accounted ns leak s) {zid : ℕ}
    (hzid : zid < ns.zp.nrZones) (hdescs : s'.zoneDescs = s.zoneDescs)
    (hinfos : s'.resInfos = s.resInfos) : ZoneStep ns False zid s s' where
  zid_lt := hzid
  move := by
    rw [hdescs]
    exact .stay _
  others other _ := by rw [hdescs]
  total type := by rw [hinfos]
  le_total type := by
    rw [hinfos]
    exact h.le_total type
  settled type := by
    rw [hdescs, hinfos]
    exact Or.inl rfl

/-- Leaving everything as it is. -/
theorem ZoneStep.unchanged (h : Accounted ns leak s) {zid : ℕ}
    (hzid : zid < ns.zp.nrZones) : ZoneStep ns False zid s s :=
  .of_eq h hzid rfl rfl

/-- A step is about the descriptors and the counters only. -/
theorem ZoneStep.congr_right {leaks : Prop} {zid : ℕ} {s'' : ZnsFtl}
    (hstep : ZoneStep ns leaks zid s s')
    (hdescs : s''.zoneDescs = s'.zoneDescs)
    (hinfos : s''.resInfos = s'.resInfos) : ZoneStep ns leaks zid s s'' where
  zid_lt := hstep.zid_lt
  move := by
    rw [hdescs]
    exact hstep.move
  others := by
    rw [hdescs]
    exact hstep.others
  total := by
    rw [hinfos]
    exact hstep.total
  le_total := by
    rw [hinfos]
    exact hstep.le_total
  settled := by
    rw [hinfos, hdescs]
    exact hstep.settled

theorem ZoneStep.mono {leaks leaks' : Prop} {zid : ℕ}
    (hstep : ZoneStep ns leaks zid s s') (himp : leaks → leaks') :
    ZoneStep ns leaks' zid s s' :=
  { hstep with
    settled := fun type => (hstep.settled type).imp id
      fun hkept => ⟨hkept.1, himp hkept.2.1, hkept.2.2⟩ }

theorem ZoneSteps.mono {leaks leaks' : Prop} (himp : leaks → leaks')
    (hsteps : ZoneSteps ns leaks s s') : ZoneSteps ns leaks' s s' := by
  induction hsteps with
  | refl => exact .refl
  | tail _ hstep ih =>
      obtain ⟨zid, hstep⟩ := hstep
      exact ih.tail ⟨zid, hstep.mono himp⟩

/-- A step that rewrites one descriptor and settles every counter. -/
theorem ZoneStep.of_update {zid : ℕ} {desc : ZoneDescriptor}
    (h : Accounted ns leak s) (hzid : zid < ns.zp.nrZones)
    (hmove : ZoneMove ns zid (s.zoneDescs zid) desc)
    (hdescs : s'.zoneDescs = Function.update s.zoneDescs zid desc)
    (htotal : ∀ type, (s'.resInfos type).totalCnt =
      (s.resInfos type).totalCnt)
    (hsettled : ∀ type, (s'.resInfos type).acquiredCnt +
        held type (s.zoneDescs zid) =
      (s.resInfos type).acquiredCnt + held type desc)
    (hle : ∀ type, (s'.resInfos type).acquiredCnt ≤
      max (s.resInfos type).acquiredCnt (s.resInfos type).totalCnt) :
    ZoneStep ns False zid s s' where
  zid_lt := hzid
  move := by rwa [hdescs, Function.update_self]
  others other hne := by rw [hdescs, Function.update_of_ne hne]
  total := htotal
  le_total type := by
    have hmax := hle type
    rw [h.total type, max_eq_right (h.le_total type)] at hmax
    exact hmax
  settled type := by
    rw [hdescs, Function.update_self]
    exact Or.inl (hsettled type)

/-- Giving back what the zone held, on the way to a state without it. -/
theorem ZoneStep.of_release {zid : ℕ} {desc : ZoneDescriptor}
    (h : Accounted ns leak s) (hzid : zid < ns.zp.nrZones)
    (hmove : ZoneMove ns zid (s.zoneDescs zid) desc)
    (hdescs : s'.zoneDescs = Function.update s.zoneDescs zid desc)
    (hinfos : ∀ type, s'.resInfos type =
      if holds type (s.zoneDescs zid) = true ∧ holds type desc = false then
        { s.resInfos type with
          acquiredCnt := sub32 (s.resInfos type).acquiredCnt 1 }
      else s.resInfos type)
    (hkeeps : ∀ type, holds type desc = true →
      holds type (s.zoneDescs zid) = true) :
    ZoneStep ns False zid s s' := by
  have hcount : ∀ type, (s'.resInfos type).acquiredCnt +
      held type (s.zoneDescs zid) =
        (s.resInfos type).acquiredCnt + held type desc := by
    intro type
    have hrelease := h.release hzid type
    have hkeep := hkeeps type
    rw [hinfos type, held, held]
    cases hbefore : holds type (s.zoneDescs zid) <;>
      cases hafter : holds type desc <;> simp_all
  have hle : ∀ type, held type desc ≤ held type (s.zoneDescs zid) := by
    intro type
    have hkeep := hkeeps type
    unfold held
    split_ifs <;> simp_all
  refine .of_update h hzid hmove hdescs ?_ hcount ?_
  · intro type
    rw [hinfos type]
    split_ifs <;> rfl
  · intro type
    have heq := hcount type
    have hheld := hle type
    exact le_max_of_le_left (by omega)

/-- `__zmgmt_send_close_zone` moves the zone to `CLOSED` or leaves it. -/
theorem closeZone_step (h : Accounted ns leak s) {zid status : ℕ}
    (hrun : zmgmtSendCloseZone ns s zid = .ok (status, s')) :
    ZoneStep ns False zid s s' := by
  obtain ⟨desc, hdesc, hrun⟩ := bind_eq_ok hrun
  obtain ⟨hzid, rfl⟩ := of_zoneDesc hdesc
  have hstay := ZoneStep.unchanged h hzid
  have hclose : isOpened (s.zoneDescs zid).state = true →
      ZoneStep ns False zid s
        (releaseZoneResource (changeZoneState s zid .closed) .openZone) := by
    intro hopened
    have hactive := isActive_of_isOpened hopened
    refine .of_release h hzid (.close hopened) rfl ?_ ?_
    · intro type
      cases type <;> simp [hopened, hactive]
    · intro type
      cases type <;> simp [hopened, hactive]
  cases hstate : (s.zoneDescs zid).state <;> rw [hstate] at hrun <;> cases hrun
  all_goals first | exact hstay | exact hclose (by rw [hstate]; rfl)

/-- The resources after a zone gave everything back. -/
theorem releaseActiveZone_resInfos (isZrwaZone : Bool)
    (type : ZoneResourceType) :
    (releaseActiveZone s isZrwaZone).resInfos type =
      if type = .activeZone ∨ type = .zrwaZone ∧ isZrwaZone = true then
        { s.resInfos type with
          acquiredCnt := sub32 (s.resInfos type).acquiredCnt 1 }
      else s.resInfos type := by
  cases isZrwaZone <;> cases type <;> rfl

/-- A zone that holds nothing afterwards gave back what it held. -/
theorem ZoneStep.of_releaseAll {zid : ℕ} {desc : ZoneDescriptor}
    (h : Accounted ns leak s) (hzid : zid < ns.zp.nrZones)
    (hmove : ZoneMove ns zid (s.zoneDescs zid) desc)
    (hidle : isActive desc.state = false)
    (hdescs : s'.zoneDescs = Function.update s.zoneDescs zid desc)
    (hinfos : s'.resInfos =
      if isOpened (s.zoneDescs zid).state = true then
        (releaseActiveZone (releaseZoneResource s .openZone)
          (s.zoneDescs zid).zrwav).resInfos
      else if isActive (s.zoneDescs zid).state = true then
        (releaseActiveZone s (s.zoneDescs zid).zrwav).resInfos
      else s.resInfos) :
    ZoneStep ns False zid s s' := by
  have hclosed : isOpened desc.state = false := by
    cases hopened : isOpened desc.state
    · rfl
    · rw [isActive_of_isOpened hopened] at hidle
      cases hidle
  refine .of_release h hzid hmove hdescs ?_ ?_
  · intro type
    rw [hinfos]
    by_cases hopened : isOpened (s.zoneDescs zid).state = true
    · have hactive := isActive_of_isOpened hopened
      rw [if_pos hopened, releaseActiveZone_resInfos]
      cases type <;> simp [hopened, hactive, hidle, hclosed]
    · rw [if_neg hopened]
      by_cases hactive : isActive (s.zoneDescs zid).state = true
      · rw [if_pos hactive, releaseActiveZone_resInfos]
        cases type <;> simp [hopened, hactive, hidle]
      · rw [if_neg hactive]
        cases type <;> simp [hopened, hactive]
  · intro type
    cases type <;> simp [hidle, hclosed]

/-- `__zmgmt_send_finish_zone` moves the zone to `FULL` or leaves it. -/
theorem finishZone_step (h : Accounted ns leak s) {zid status : ℕ}
    (hrun : zmgmtSendFinishZone ns s zid = .ok (status, s')) :
    ZoneStep ns False zid s s' := by
  obtain ⟨desc, hdesc, hrun⟩ := bind_eq_ok hrun
  obtain ⟨hzid, rfl⟩ := of_zoneDesc hdesc
  have hstay := ZoneStep.unchanged h hzid
  cases hstate : (s.zoneDescs zid).state <;> rw [hstate] at hrun <;> cases hrun
  case full | readOnly | offline => exact hstay
  all_goals
    refine .of_releaseAll h hzid (.finish ?_) (by rfl) ?_ ?_
    all_goals simp [hstate]

/-- `__zmgmt_send_reset_zone` moves the zone to `EMPTY` or leaves it. -/
theorem resetZone_step (h : Accounted ns leak s) {zid status : ℕ}
    (hrun : zmgmtSendResetZone ns s zid = .ok (status, s')) :
    ZoneStep ns False zid s s' := by
  obtain ⟨desc, hdesc, hrun⟩ := bind_eq_ok hrun
  obtain ⟨hzid, rfl⟩ := of_zoneDesc hdesc
  have hstay := ZoneStep.unchanged h hzid
  cases hstate : (s.zoneDescs zid).state <;> rw [hstate] at hrun <;> cases hrun
  case readOnly | offline => exact hstay
  all_goals
    refine .of_releaseAll h hzid (.reset ?_) (by rfl) ?_ ?_
    all_goals simp [hstate, resetZone_zoneDescs, resetZone_resInfos]

/-- `__zmgmt_send_offline_zone` moves a read-only zone to `OFFLINE`. -/
theorem offlineZone_step (h : Accounted ns leak s) {zid status : ℕ}
    (hrun : zmgmtSendOfflineZone ns s zid = .ok (status, s')) :
    ZoneStep ns False zid s s' := by
  obtain ⟨desc, hdesc, hrun⟩ := bind_eq_ok hrun
  obtain ⟨hzid, rfl⟩ := of_zoneDesc hdesc
  have hstay := ZoneStep.unchanged h hzid
  cases hstate : (s.zoneDescs zid).state <;> rw [hstate] at hrun <;> cases hrun
  case readOnly =>
    refine .of_releaseAll h hzid (.offline hstate) (by rfl) rfl ?_
    simp [hstate]
  all_goals exact hstay

/-- Taking what the zone did not hold, on the way to a state with it. -/
theorem ZoneStep.of_acquire {zid : ℕ} {desc : ZoneDescriptor}
    (h : Accounted ns leak s) (hzid : zid < ns.zp.nrZones)
    (hmove : ZoneMove ns zid (s.zoneDescs zid) desc)
    (hdescs : s'.zoneDescs = Function.update s.zoneDescs zid desc)
    (hinfos : ∀ type, s'.resInfos type =
      if holds type (s.zoneDescs zid) = false ∧ holds type desc = true then
        { s.resInfos type with
          acquiredCnt := u32 ((s.resInfos type).acquiredCnt + 1) }
      else s.resInfos type)
    (hkeeps : ∀ type, holds type (s.zoneDescs zid) = true →
      holds type desc = true)
    (havail : ∀ type, holds type (s.zoneDescs zid) = false →
      holds type desc = true →
        (s.resInfos type).acquiredCnt < (s.resInfos type).totalCnt) :
    ZoneStep ns False zid s s' := by
  refine .of_update h hzid hmove hdescs ?_ ?_ ?_
  · intro type
    rw [hinfos type]
    split_ifs <;> rfl
  · intro type
    have hkeep := hkeeps type
    have hacquire := fun hbefore hafter =>
      h.acquire (havail type hbefore hafter)
    rw [hinfos type, held, held]
    cases hbefore : holds type (s.zoneDescs zid) <;>
      cases hafter : holds type desc <;> simp_all
  · intro type
    rw [hinfos type]
    split_ifs with htakes
    · have hlt := havail type htakes.1 htakes.2
      rw [h.acquire hlt]
      exact le_max_of_le_right hlt
    · exact le_max_left _ _

/-- Opening a closed zone. -/
theorem openClosedZone_step (h : Accounted ns leak s) {zid : ℕ}
    (hzid : zid < ns.zp.nrZones) (hclosed : (s.zoneDescs zid).state = .closed)
    (state : ZoneState) (hopened : isOpened state = true) :
    ZoneStep ns False zid s (openClosedZone s zid state).2 := by
  rw [openClosedZone]
  by_cases havail : (s.resInfos .openZone).acquiredCnt <
      (s.resInfos .openZone).totalCnt
  · rw [acquireZoneResource_of_lt havail]
    have hactive := isActive_of_isOpened hopened
    refine .of_acquire h hzid (.openActive state (by rw [hclosed]; rfl) hopened)
      rfl ?_ ?_ ?_
    · intro type
      cases type <;> simp [hclosed, hopened, hactive, setAcquiredCnt]
    · intro type
      cases type <;> simp [hclosed, hactive]
    · intro type hbefore hafter
      cases type <;> simp_all
  · rw [acquireZoneResource_of_not_lt havail]
    exact .unchanged h hzid

/-- A resource that is not full has a unit left. -/
theorem Accounted.avail_of_not_full (h : Accounted ns leak s)
    {type : ZoneResourceType} (hnot : isZoneResourceFull s type = false) :
    (s.resInfos type).acquiredCnt < (s.resInfos type).totalCnt := by
  have hne := of_decide_eq_false hnot
  have hle := h.le_total type
  have htotal := h.total type
  omega

/-- Opening an empty zone, with or without a random write area. -/
theorem openEmptyZone_step (h : Accounted ns leak s) {zid : ℕ}
    (hzid : zid < ns.zp.nrZones) (hempty : (s.zoneDescs zid).state = .empty)
    (state : ZoneState) (hopened : isOpened state = true) (zrwa : Bool)
    (hactive : isZoneResourceFull s .activeZone = false)
    (hopen : isZoneResourceFull s .openZone = false)
    (hzrwa : zrwa = true → isZoneResourceFull s .zrwaZone = false) :
    ZoneStep ns False zid s
      (openClosedZone (acquireZoneResource
        (if zrwa = true then
          setZrwav (acquireZoneResource s .zrwaZone).2 zid true
        else s) .activeZone).2 zid state).2 := by
  have hzrwav : (s.zoneDescs zid).zrwav = false := by
    by_contra htrue
    exact h.zrwav_ne_empty zid hzid (Bool.eq_true_of_not_eq_false htrue) hempty
  have hisActive := isActive_of_isOpened hopened
  have hopenLt := h.avail_of_not_full hopen
  have hactiveLt := h.avail_of_not_full hactive
  cases zrwa with
  | false =>
      rw [if_neg (by simp), acquireZoneResource_of_lt hactiveLt,
        openClosedZone, acquireZoneResource_of_lt
          (by simpa [setAcquiredCnt] using hopenLt)]
      refine .of_acquire h hzid (.openEmpty state false hempty hopened) ?_ ?_
        ?_ ?_
      · simp [setAcquiredCnt, hzrwav]
      all_goals
        intro type
        cases type <;>
          simp [hempty, hopened, hisActive, hzrwav, setAcquiredCnt, hopenLt,
            hactiveLt]
  | true =>
      have hzrwaLt := h.avail_of_not_full (hzrwa rfl)
      rw [if_pos rfl, acquireZoneResource_of_lt hzrwaLt,
        acquireZoneResource_of_lt
          (by simpa [setAcquiredCnt] using hactiveLt),
        openClosedZone, acquireZoneResource_of_lt
          (by simpa [setAcquiredCnt] using hopenLt)]
      refine .of_acquire h hzid (.openEmpty state true hempty hopened) ?_ ?_
        ?_ ?_
      · simp [setAcquiredCnt]
      all_goals
        intro type
        cases type <;>
          simp [hempty, hopened, hisActive, hzrwav, setAcquiredCnt, hopenLt,
            hactiveLt, hzrwaLt]

/-- `__zmgmt_send_open_zone` opens an empty, closed or implicitly opened
zone. -/
theorem openZone_step (h : Accounted ns leak s) {zid status : ℕ} {zrwa : Bool}
    (hrun : zmgmtSendOpenZone ns s zid zrwa = .ok (status, s')) :
    ZoneStep ns False zid s s' := by
  obtain ⟨desc, hdesc, hrun⟩ := bind_eq_ok hrun
  obtain ⟨hzid, rfl⟩ := of_zoneDesc hdesc
  have hstay := ZoneStep.unchanged h hzid
  cases hstate : (s.zoneDescs zid).state <;> rw [hstate] at hrun
  case empty =>
    dsimp only at hrun
    by_cases hactive : isZoneResourceFull s .activeZone = true
    · rw [if_pos hactive] at hrun
      cases hrun
      exact hstay
    by_cases hopen : isZoneResourceFull s .openZone = true
    · rw [if_neg hactive, if_pos hopen] at hrun
      cases hrun
      exact hstay
    by_cases hzrwa : (zrwa && isZoneResourceFull s .zrwaZone) = true
    · rw [if_neg hactive, if_neg hopen, if_pos hzrwa] at hrun
      cases hrun
      exact hstay
    rw [if_neg hactive, if_neg hopen, if_neg hzrwa] at hrun
    have hstep := openEmptyZone_step h hzid hstate .openedExpl rfl
      zrwa (by simpa using hactive) (by simpa using hopen)
      (by simpa using hzrwa)
    rw [Except.ok.inj hrun] at hstep
    exact hstep
  case closed =>
    have hstep := openClosedZone_step h hzid hstate .openedExpl rfl
    rw [Except.ok.inj hrun] at hstep
    exact hstep
  case openedImpl =>
    cases hrun
    refine .of_acquire h hzid (.openActive .openedExpl (by rw [hstate]; rfl) rfl)
      rfl ?_ ?_ ?_
    · intro type
      cases type <;> simp [hstate]
    · intro type
      cases type <;> simp [hstate]
    · intro type hbefore hafter
      cases type <;> simp_all
  all_goals
    cases hrun
    exact hstay

theorem movedTo_of_ne {zid wp : ℕ} {desc : ZoneDescriptor}
    (hne : wp ≠ u64 (zoneToSlba ns zid + desc.zoneCapacity)) :
    movedTo ns zid desc wp = { desc with wp := wp } := by
  rw [movedTo, if_neg hne]

theorem movedTo_of_eq {zid wp : ℕ} {desc : ZoneDescriptor}
    (heq : wp = u64 (zoneToSlba ns zid + desc.zoneCapacity)) :
    movedTo ns zid desc wp = { desc with wp := wp, state := .full } := by
  rw [movedTo, if_pos heq]

/-- A move of the write pointer that leaves the state of the zone. -/
theorem ZoneStep.of_setWp {zid wp : ℕ} (h : Accounted ns leak s)
    (hzid : zid < ns.zp.nrZones)
    (hmove : ZoneMove ns zid (s.zoneDescs zid)
      (movedTo ns zid (s.zoneDescs zid) wp))
    (hne : wp ≠ u64 (zoneToSlba ns zid + (s.zoneDescs zid).zoneCapacity)) :
    ZoneStep ns False zid s (setWp s zid wp) := by
  rw [movedTo_of_ne hne] at hmove
  refine .of_release h hzid hmove rfl ?_ ?_
  · intro type
    cases type <;> simp
  · intro type
    cases type <;> simp

/-- `__zmgmt_send_flush_explicit_zrwa` leaves everything, or it moves the write
pointer of an active zone behind `slba`. -/
theorem flushExplicitZrwa_cases {slba status : ℕ}
    (hrun : zmgmtSendFlushExplicitZrwa ns s slba = .ok (status, s')) :
    lbaToZone ns slba < ns.zp.nrZones ∧ (s' = s ∨
      (s.zoneDescs (lbaToZone ns slba)).zrwav = true ∧
      isActive (s.zoneDescs (lbaToZone ns slba)).state = true ∧
      ((s.zoneDescs (lbaToZone ns slba)).wp ≤ slba ∧
        slba ≤ zrwaEnd ns (lbaToZone ns slba)
          (s.zoneDescs (lbaToZone ns slba))) ∧
      u64 (sub64 slba (s.zoneDescs (lbaToZone ns slba)).wp + 1) %
        ns.zp.lbasPerZrwafg = 0 ∧
      if u64 (slba + 1) = u64 (zoneToSlba ns (lbaToZone ns slba) +
          (s.zoneDescs (lbaToZone ns slba)).zoneCapacity) then
        s' = changeZoneState (releaseActiveZone
          (if (s.zoneDescs (lbaToZone ns slba)).state ≠ .closed then
            releaseZoneResource
              (setWp s (lbaToZone ns slba) (u64 (slba + 1))) .openZone
          else setWp s (lbaToZone ns slba) (u64 (slba + 1))) true)
          (lbaToZone ns slba) .full
      else s' = setWp s (lbaToZone ns slba) (u64 (slba + 1))) := by
  obtain ⟨desc, hdesc, hrun⟩ := bind_eq_ok hrun
  obtain ⟨hzid, rfl⟩ := of_zoneDesc hdesc
  refine ⟨hzid, ?_⟩
  dsimp only at hrun
  by_cases hzrwav : (s.zoneDescs (lbaToZone ns slba)).zrwav = false
  · rw [if_pos hzrwav] at hrun
    cases hrun
    exact Or.inl rfl
  by_cases hwindow : (s.zoneDescs (lbaToZone ns slba)).wp ≤ slba ∧
      slba ≤ zrwaEnd ns (lbaToZone ns slba)
        (s.zoneDescs (lbaToZone ns slba))
  swap
  · rw [if_neg hzrwav, if_pos hwindow] at hrun
    cases hrun
    exact Or.inl rfl
  rw [if_neg hzrwav, if_neg (not_not.mpr hwindow)] at hrun
  by_cases hzero : ns.zp.lbasPerZrwafg = 0
  · rw [if_pos hzero] at hrun
    cases hrun
  by_cases hunit : u64 (sub64 slba
      (s.zoneDescs (lbaToZone ns slba)).wp + 1) % ns.zp.lbasPerZrwafg = 0
  swap
  · rw [if_neg hzero, if_pos hunit] at hrun
    cases hrun
    exact Or.inl rfl
  rw [if_neg hzero, if_neg (not_not.mpr hunit)] at hrun
  have hzrwav := Bool.eq_true_of_not_eq_false hzrwav
  cases hstate : (s.zoneDescs (lbaToZone ns slba)).state <;>
    rw [hstate] at hrun
  case openedImpl | openedExpl | closed =>
    refine Or.inr ⟨hzrwav, rfl, hwindow, hunit, ?_⟩
    dsimp only at hrun
    split_ifs at hrun ⊢ with hend
    all_goals
      cases hrun
      rfl
  all_goals
    cases hrun
    exact Or.inl rfl

/-- `__zmgmt_send_flush_explicit_zrwa` as a step. -/
theorem flushExplicitZrwa_step (h : Accounted ns leak s) {slba status : ℕ}
    (hrun : zmgmtSendFlushExplicitZrwa ns s slba = .ok (status, s')) :
    ZoneStep ns False (lbaToZone ns slba) s s' := by
  obtain ⟨hzid, rfl | ⟨hzrwav, hactive, hwindow, -, hafter⟩⟩ :=
    flushExplicitZrwa_cases hrun
  · exact .unchanged h hzid
  have hmove : ZoneMove ns (lbaToZone ns slba)
      (s.zoneDescs (lbaToZone ns slba))
      (movedTo ns (lbaToZone ns slba) (s.zoneDescs (lbaToZone ns slba))
        (u64 (slba + 1))) := .flush slba hactive hzrwav hwindow.1 hwindow.2
  split_ifs at hafter with hend hopened
  · rw [movedTo_of_eq hend] at hmove
    rw [hafter]
    refine .of_releaseAll h hzid hmove rfl ?_ ?_
    · simp
    · have hisOpened : isOpened (s.zoneDescs (lbaToZone ns slba)).state = true := by
        cases hstate : (s.zoneDescs (lbaToZone ns slba)).state <;>
          rw [hstate] at hactive hopened <;> first | rfl | cases hactive
        exact absurd rfl hopened
      rw [if_pos hisOpened, hzrwav]
      rfl
  · rw [movedTo_of_eq hend] at hmove
    rw [hafter]
    refine .of_releaseAll h hzid hmove rfl ?_ ?_
    · simp
    · have hclosed : (s.zoneDescs (lbaToZone ns slba)).state = .closed := by
        simpa using hopened
      rw [hclosed, hzrwav]
      rfl
  · rw [hafter]
    exact .of_setWp h hzid hmove hend

/-- Any action of a Zone Management Send command on one zone. -/
theorem zmgmtSend_step (h : Accounted ns leak s) {uninit slba status : ℕ}
    {action : ZoneSendAction} {option : Bool}
    (hrun : zmgmtSend ns uninit s slba action option = .ok (status, s')) :
    s' = s ∨ ZoneStep ns False (lbaToZone ns slba) s s' := by
  cases action with
  | closeZone => exact Or.inr (closeZone_step h hrun)
  | finishZone => exact Or.inr (finishZone_step h hrun)
  | openZone => exact Or.inr (openZone_step h hrun)
  | resetZone => exact Or.inr (resetZone_step h hrun)
  | offlineZone => exact Or.inr (offlineZone_step h hrun)
  | flushExplZrwa => exact Or.inr (flushExplicitZrwa_step h hrun)
  | setZoneDescExt | reserved =>
      cases hrun
      exact Or.inl rfl

/-- A Zone Management Send command is a chain of steps. -/
theorem znsZmgmtSend_steps (h : Accounted ns leak s) {uninit nsecsStart : ℕ}
    {cmd : ZoneMgmtSend} {ret ret' : NvmevResult}
    (hrun : znsZmgmtSend ns uninit nsecsStart s cmd ret = .ok (ret', s')) :
    ZoneSteps ns False s s' := by
  have hone : ∀ {slba status : ℕ} {before after : ZnsFtl},
      Accounted ns leak before →
      zmgmtSend ns uninit before slba cmd.zsa cmd.zsaso =
        .ok (status, after) → ZoneSteps ns False before after := by
    intro slba status before after hbefore hsend
    rcases zmgmtSend_step hbefore hsend with rfl | hstep
    · exact .refl
    · exact .single ⟨_, hstep⟩
  rw [znsZmgmtSend] at hrun
  cases hall : cmd.selectAll with
  | false =>
      rw [hall, if_neg (by simp)] at hrun
      obtain ⟨⟨status, after⟩, hsend, hret⟩ := bind_eq_ok hrun
      cases hret
      exact hone h hsend
  | true =>
      rw [hall, if_pos rfl] at hrun
      obtain ⟨after, hloop, hret⟩ := bind_eq_ok hrun
      cases hret
      -- The chain grows by one zone in each iteration.
      clear hrun
      generalize List.range ns.zp.nrZones = zids at hloop
      induction zids generalizing s with
      | nil =>
          cases hloop
          exact .refl
      | cons zid zids ih =>
          rw [List.foldlM_cons] at hloop
          obtain ⟨middle, hfirst, hrest⟩ := bind_eq_ok hloop
          obtain ⟨⟨status, _⟩, hsend, hmiddle⟩ := bind_eq_ok hfirst
          cases hmiddle
          have hsteps := hone h hsend
          obtain ⟨leak', haccounted, -, heq⟩ := ZoneSteps.accounted hsteps h
          rw [heq not_false] at haccounted
          exact hsteps.trans (ih haccounted hrest)

end

end NvmeVirt.ZoneMoves
