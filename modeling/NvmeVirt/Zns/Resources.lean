import NvmeVirt.Zns.Commands
import NvmeVirt.Zns.WriteCases
import Mathlib.Tactic.IntervalCases

/-!
# Zone resources over whole runs

The counters of active and open zones are exact in every reachable state.  The
counter of random write areas is exact as long as no write fills a zone with a
random write area: `__increase_write_ptr` gives back the open and the active
resource of a zone it fills, and keeps the third.  The totals are the number of
zones, whatever number of random write areas the namespace advertises.
-/

namespace NvmeVirt.Resources

open NvmeVirt.Commands
open NvmeVirt.Counting
open NvmeVirt.Kernel
open NvmeVirt.Layout
open NvmeVirt.MgmtSend
open NvmeVirt.ReadWrite
open NvmeVirt.Timing
open NvmeVirt.Transition
open NvmeVirt.WriteCases
open NvmeVirt.ZoneMoves
open NvmeVirt.Zones

section

variable {ns : ZnsNamespace} {s s' : ZnsFtl}

/-- A write or append is a chain of steps; it leaks only where it fills a zone
with a random write area. -/
theorem znsWrite_steps {leak : ℕ} (h : Accounted ns leak s) {req : RwRequest}
    {ret : NvmevResult} {outcome : WriteOutcome}
    (hrun : znsWrite ns s req ret = .ok (outcome, s')) :
    ZoneSteps ns
      ((s.zoneDescs (lbaToZone ns req.slba)).zrwav = true ∧
        FillsByWrite ns s req) s s' := by
  obtain ⟨-, ⟨hzrwav, hrun⟩ | ⟨hzrwav, hrun⟩⟩ := znsWrite_cases hrun
  · exact (znsWriteZone_steps h hzrwav hrun).mono False.elim
  · exact (znsWriteZrwa_steps h hzrwav hrun).mono fun hfills =>
      ⟨hzrwav, hfills⟩

/-- A write that fills a zone with a random write area. -/
def Leaks (ns : ZnsNamespace) (s : ZnsFtl) : ZnsAction → Prop
  | .write req _ => (s.zoneDescs (lbaToZone ns req.slba)).zrwav = true ∧
      FillsByWrite ns s req
  | _ => False

/-- The zones after any action come out of a chain of steps. -/
theorem znsStep_steps {leak : ℕ} {state state' : ZnsState}
    (h : Accounted ns leak state.ftl) {action : ZnsAction}
    (hstep : znsStep ns state action = .ok state') :
    (∃ middle, ZoneSteps ns (Leaks ns state.ftl action) state.ftl middle ∧
      state'.ftl.zoneDescs = middle.zoneDescs ∧
      state'.ftl.resInfos = middle.resInfos) := by
  cases action with
  | write req ret =>
      obtain ⟨⟨outcome, ftl⟩, hrun, hafter⟩ := bind_eq_ok hstep
      cases hafter
      exact ⟨ftl, znsWrite_steps h hrun, rfl, rfl⟩
  | mgmtSend cmd nsecsStart uninit ret =>
      obtain ⟨⟨ret', ftl⟩, hrun, hafter⟩ := bind_eq_ok hstep
      cases hafter
      exact ⟨ftl, (znsZmgmtSend_steps h hrun).mono False.elim, rfl, rfl⟩
  | complete index =>
      refine ⟨state.ftl, .refl, ?_⟩
      rw [znsStep] at hstep
      cases hwb : state.pending[index]? with
      | none =>
          rw [hwb] at hstep
          cases hstep
          exact ⟨rfl, rfl⟩
      | some wb =>
          rw [hwb] at hstep
          cases hstep
          exact ⟨setBuffer_zoneDescs _ _ _, setBuffer_resInfos _ _ _⟩

theorem znsStep_accounted {leak : ℕ} {state state' : ZnsState}
    (h : Accounted ns leak state.ftl) {action : ZnsAction}
    (hstep : znsStep ns state action = .ok state') :
    ∃ leak', Accounted ns leak' state'.ftl ∧ leak ≤ leak' ∧
      (¬ Leaks ns state.ftl action → leak' = leak) := by
  obtain ⟨middle, hsteps, hdescs, hinfos⟩ := znsStep_steps h hstep
  obtain ⟨leak', hmiddle, hle, heq⟩ := hsteps.accounted h
  exact ⟨leak', hmiddle.congr hdescs hinfos, hle, heq⟩

/-- Every zone is empty, and nothing is acquired. -/
theorem znsInitFtl_accounted (ssd : Ssd) (storage : ℕ → ℕ) :
    Accounted ns 0 (znsInitFtl ns ssd storage) where
  total _ := rfl
  count type := by
    have hzero : holders ns (znsInitFtl ns ssd storage) type = 0 := by
      apply countOn_eq_zero
      intro zid _
      cases type <;> simp [znsInitFtl, initDescriptor]
    rw [hzero]
    cases type <;> rfl
  le_total _ := Nat.zero_le _
  zrwav_ne_empty _ _ hzrwav := by cases hzrwav

theorem reachable_accounted {state : ZnsState}
    (hreach : Reachable (znsMachine ns) state) :
    ∃ leak, Accounted ns leak state.ftl := by
  refine hreach.invariant (fun s => ∃ leak, Accounted ns leak s.ftl) ?_ ?_
  · rintro start ⟨hch, hpcie, clock, storage, rfl⟩
    exact ⟨0, znsInitFtl_accounted _ _⟩
  · rintro before action after ⟨leak, hbefore⟩ - hstep
    obtain ⟨leak', hafter, -, -⟩ := znsStep_accounted hbefore hstep
    exact ⟨leak', hafter⟩

/-- What holds of every zone at the start and survives every move of its
descriptor holds in every reachable state. -/
theorem reachable_zones (inv : ℕ → ZoneDescriptor → Prop)
    (hinit : ∀ zid < ns.zp.nrZones, inv zid (initDescriptor ns zid))
    (hmove : ∀ zid < ns.zp.nrZones, ∀ desc desc', inv zid desc →
      ZoneMove ns zid desc desc' → inv zid desc')
    {state : ZnsState} (hreach : Reachable (znsMachine ns) state) :
    ∀ zid < ns.zp.nrZones, inv zid (state.ftl.zoneDescs zid) := by
  have hsteps : ∀ {leaks : Prop} {before after : ZnsFtl},
      ZoneSteps ns leaks before after →
      (∀ zid < ns.zp.nrZones, inv zid (before.zoneDescs zid)) →
      ∀ zid < ns.zp.nrZones, inv zid (after.zoneDescs zid) := by
    intro leaks before after hchain hbefore
    induction hchain with
    | refl => exact hbefore
    | tail _ hstep ih =>
        obtain ⟨zid, hstep⟩ := hstep
        intro other hother
        by_cases heq : other = zid
        · subst heq
          exact hmove other hother _ _ (ih other hother) hstep.move
        · rw [hstep.others other heq]
          exact ih other hother
  suffices h : (∃ leak, Accounted ns leak state.ftl) ∧
      ∀ zid < ns.zp.nrZones, inv zid (state.ftl.zoneDescs zid) from h.2
  refine hreach.invariant (fun s => (∃ leak, Accounted ns leak s.ftl) ∧
    ∀ zid < ns.zp.nrZones, inv zid (s.ftl.zoneDescs zid)) ?_ ?_
  · rintro start ⟨hch, hpcie, clock, storage, rfl⟩
    exact ⟨⟨0, znsInitFtl_accounted _ _⟩, hinit⟩
  · rintro before action after ⟨⟨leak, haccounted⟩, hzones⟩ - hstep
    obtain ⟨leak', hafter, -, -⟩ := znsStep_accounted haccounted hstep
    obtain ⟨middle, hchain, hdescs, -⟩ := znsStep_steps haccounted hstep
    refine ⟨⟨leak', hafter⟩, ?_⟩
    rw [hdescs]
    exact hsteps hchain hzones

/-! ## The results -/

/-- In every reachable state the counters of open and of active zones are the
numbers of opened zones and of opened or closed zones, and within their
totals. -/
theorem open_active_counted {state : ZnsState}
    (hreach : Reachable (znsMachine ns) state) :
    (state.ftl.resInfos .openZone).acquiredCnt =
        countOn (Finset.range ns.zp.nrZones)
          (fun desc => isOpened desc.state = true) state.ftl.zoneDescs ∧
      (state.ftl.resInfos .activeZone).acquiredCnt =
        countOn (Finset.range ns.zp.nrZones)
            (fun desc => isOpened desc.state = true) state.ftl.zoneDescs +
          countOn (Finset.range ns.zp.nrZones)
            (fun desc => desc.state = .closed) state.ftl.zoneDescs ∧
      (state.ftl.resInfos .openZone).acquiredCnt ≤
        (state.ftl.resInfos .openZone).totalCnt ∧
      (state.ftl.resInfos .activeZone).acquiredCnt ≤
        (state.ftl.resInfos .activeZone).totalCnt := by
  obtain ⟨leak, h⟩ := reachable_accounted hreach
  refine ⟨h.count .openZone, (h.count .activeZone).trans ?_, ?_, ?_⟩
  · rw [leakOf, Nat.add_zero, holders]
    apply countOn_eq_add
    · intro zid _
      cases hstate : (state.ftl.zoneDescs zid).state <;> simp [hstate]
    · intro zid _ hopened hclosed
      rw [hclosed] at hopened
      cases hopened
  · rw [h.total]
    exact h.le_total .openZone
  · rw [h.total]
    exact h.le_total .activeZone

/-- The host opens a zone with a random write area. -/
def openZrwa (ns : ZnsNamespace) (zid : ℕ) : ZnsAction :=
  .mgmtSend ⟨zid * lbasPerZone ns, .openZone, false, true⟩ 0 0 ⟨0, 0, 0⟩

/-- The host writes zone `0` of sixteen blocks whole. -/
def writeFirstWhole : ZnsAction :=
  .write ⟨1, 0, .write, 0, 15, fifteen_lt_bits, false⟩ ⟨0, 0, 0⟩

theorem opened_reachable :
    ∃ state, Reachable (znsMachine (twoZones 2)) state ∧
      (state.ftl.resInfos .openZone).acquiredCnt = 1 := by
  have hrun : (((znsMachine (twoZones 2)).run
      [openZrwa (twoZones 2) 0] (twoZonesStart 2)).map fun s =>
        (s.ftl.resInfos .openZone).acquiredCnt) = some 1 := by
    decide +kernel
  obtain ⟨state, hstate, hcount⟩ := Option.map_eq_some_iff.mp hrun
  exact ⟨state, Reachable.run (.start (twoZonesStart_init 2)) hstate, hcount⟩

theorem open_active_counted_opened :
    ∃ state : ZnsState, (state.ftl.resInfos .openZone).acquiredCnt = 1 ∧
      (state.ftl.resInfos .openZone).acquiredCnt =
        countOn (Finset.range (twoZones 2).zp.nrZones)
          (fun desc => isOpened desc.state = true) state.ftl.zoneDescs := by
  obtain ⟨state, hreach, hone⟩ := opened_reachable
  exact ⟨state, hone, (open_active_counted hreach).1⟩

/-- The runs in which no write fills a zone with a random write area. -/
def unfilledMachine (ns : ZnsNamespace) : Machine ZnsState ZnsAction Fault :=
  { znsMachine ns with
    enabled := fun s action =>
      (znsMachine ns).enabled s action ∧ ¬ Leaks ns s.ftl action }

theorem unfilled_accounted {state : ZnsState}
    (hreach : Reachable (unfilledMachine ns) state) :
    Accounted ns 0 state.ftl := by
  apply hreach.invariant fun s => Accounted ns 0 s.ftl
  · rintro start ⟨hch, hpcie, clock, storage, rfl⟩
    exact znsInitFtl_accounted _ _
  · intro before action after hbefore henabled hstep
    obtain ⟨leak', hafter, -, hsame⟩ := znsStep_accounted hbefore hstep
    rw [hsame henabled.2] at hafter
    exact hafter

/-- In every state reached without a write that fills a zone with a random
write area, the counter of these areas is the number of active zones that have
one. -/
theorem zrwa_counted {state : ZnsState}
    (hreach : Reachable (unfilledMachine ns) state) :
    (state.ftl.resInfos .zrwaZone).acquiredCnt =
      countOn (Finset.range ns.zp.nrZones)
        (fun desc => desc.zrwav = true ∧ isActive desc.state = true)
        state.ftl.zoneDescs := by
  apply ((unfilled_accounted hreach).count .zrwaZone).trans
  rw [leakOf, Nat.add_zero, holders, countOn, countOn]
  congr 1
  apply Finset.filter_congr
  intro zid _
  simp

/-- The host writes the first half of zone `0`, and flushes it. -/
def writeFirstHalf : ZnsAction :=
  .write ⟨1, 0, .write, 0, 7, seven_lt_bits, false⟩ ⟨0, 0, 0⟩

def flushFirstHalf : ZnsAction :=
  .mgmtSend ⟨7, .flushExplZrwa, false, false⟩ 0 0 ⟨0, 0, 0⟩

/-- The half does not reach past the random write area or to the end of the
zone, so no implicit flush follows. -/
theorem writeFirstHalf_fills_not {s : ZnsFtl}
    (hdesc : s.zoneDescs 0 = ⟨.openedExpl, true, 16, 0, 0⟩) :
    ¬ Leaks (twoZones 2) s writeFirstHalf := by
  rintro ⟨-, -, -, nrLbas, hne, hflush, -⟩
  have hzid : lbaToZone (twoZones 2) 0 = 0 := rfl
  rw [hzid, hdesc] at hflush
  have hnone : nrLbasFlush (twoZones 2) 0 0 (lastLba 0 8) = .ok 0 := by
    decide +kernel
  cases hnone.symm.trans hflush
  exact hne rfl

theorem zrwa_counted_flushed :
    ∃ state : ZnsState,
      state.ftl.zoneDescs 0 = ⟨.openedExpl, true, 16, 0, 8⟩ ∧
      (state.ftl.resInfos .zrwaZone).acquiredCnt = 2 ∧
      (state.ftl.resInfos .zrwaZone).acquiredCnt =
        countOn (Finset.range (twoZones 2).zp.nrZones)
          (fun desc => desc.zrwav = true ∧ isActive desc.state = true)
          state.ftl.zoneDescs := by
  have hruns : (do
      let s₁ ← znsStep (twoZones 2) (twoZonesStart 2) (openZrwa (twoZones 2) 0)
      let s₂ ← znsStep (twoZones 2) s₁ writeFirstHalf
      let s₃ ← znsStep (twoZones 2) s₂ (openZrwa (twoZones 2) 1)
      let s₄ ← znsStep (twoZones 2) s₃ flushFirstHalf
      return (s₁.ftl.zoneDescs 0, s₄.ftl.zoneDescs 0,
        (s₄.ftl.resInfos .zrwaZone).acquiredCnt)) =
        .ok (⟨.openedExpl, true, 16, 0, 0⟩, ⟨.openedExpl, true, 16, 0, 8⟩,
          2) := by
    decide +kernel
  obtain ⟨s₁, hfirst, hruns⟩ := bind_eq_ok hruns
  obtain ⟨s₂, hwrite, hruns⟩ := bind_eq_ok hruns
  obtain ⟨s₃, hsecond, hruns⟩ := bind_eq_ok hruns
  obtain ⟨s₄, hflush, hvalues⟩ := bind_eq_ok hruns
  obtain ⟨hopened, hflushed, hcount⟩ :
      s₁.ftl.zoneDescs 0 = _ ∧ s₄.ftl.zoneDescs 0 = _ ∧
        (s₄.ftl.resInfos .zrwaZone).acquiredCnt = _ := by
    simpa only [Prod.mk.injEq] using Except.ok.inj hvalues
  have hmay (s : ZnsState) (zid : ℕ) :
      (unfilledMachine (twoZones 2)).enabled s (openZrwa (twoZones 2) zid) :=
    ⟨trivial, id⟩
  have hmayWrite :
      (unfilledMachine (twoZones 2)).enabled s₁ writeFirstHalf :=
    ⟨trivial, writeFirstHalf_fills_not hopened⟩
  have hmayFlush : (unfilledMachine (twoZones 2)).enabled s₃ flushFirstHalf :=
    ⟨trivial, id⟩
  have hreach : Reachable (unfilledMachine (twoZones 2)) s₂ :=
    .next (.next (.start (twoZonesStart_init 2)) (hmay _ 0) hfirst)
      hmayWrite hwrite
  exact ⟨s₄, hflushed, hcount,
    zrwa_counted (.next (.next hreach (hmay _ 1) hsecond) hmayFlush hflush)⟩

/-- A zone that a write fills keeps its random write area: no zone is active
any more, and one resource is still taken. -/
theorem zrwa_kept_by_write :
    ∃ state, Reachable (znsMachine (twoZones 2)) state ∧
      (state.ftl.resInfos .zrwaZone).acquiredCnt ≠
        countOn (Finset.range (twoZones 2).zp.nrZones)
          (fun desc => desc.zrwav = true ∧ isActive desc.state = true)
          state.ftl.zoneDescs := by
  have hrun : (((znsMachine (twoZones 2)).run
      [openZrwa (twoZones 2) 0, writeFirstWhole] (twoZonesStart 2)).map fun s =>
        ((s.ftl.resInfos .zrwaZone).acquiredCnt, (s.ftl.zoneDescs 0).state,
          (s.ftl.zoneDescs 1).state)) = some (1, .full, .empty) := by
    decide +kernel
  obtain ⟨state, hstate, hvalues⟩ := Option.map_eq_some_iff.mp hrun
  obtain ⟨hcount, hfirst, hsecond⟩ : _ ∧ _ ∧ _ := by
    simpa only [Prod.mk.injEq] using hvalues
  refine ⟨state, Reachable.run (.start (twoZonesStart_init 2)) hstate, ?_⟩
  have hzero : countOn (Finset.range (twoZones 2).zp.nrZones)
      (fun desc => desc.zrwav = true ∧ isActive desc.state = true)
      state.ftl.zoneDescs = 0 := by
    apply countOn_eq_zero
    intro zid hzid
    have hlt : zid < 2 := Finset.mem_range.mp hzid
    interval_cases zid
    · simp [hfirst]
    · simp [hsecond]
  rw [hcount, hzero]
  exact one_ne_zero

/-! ### What the namespace advertises -/

/-- The zones stay within the counts of the identify data. -/
structure WithinLimits (ns : ZnsNamespace) (s : ZnsFtl) : Prop where
  active : countOn (Finset.range ns.zp.nrZones)
    (fun desc => isActive desc.state = true) s.zoneDescs ≤
      (identifyZnsNamespace ns).mar + 1
  opened : countOn (Finset.range ns.zp.nrZones)
    (fun desc => isOpened desc.state = true) s.zoneDescs ≤
      (identifyZnsNamespace ns).mor + 1
  zrwa : countOn (Finset.range ns.zp.nrZones)
    (fun desc => desc.zrwav = true ∧ isActive desc.state = true)
      s.zoneDescs ≤
      if (identifyZnsNamespace ns).ozcs = ozcsZrwa then
        (identifyZnsNamespace ns).numzrwa + 1
      else 0

/-- A zero-based count of all zones. -/
theorem nrZones_le_sub32 :
    ns.zp.nrZones ≤ sub32 ns.zp.nrZones 1 + 1 := by
  by_cases hzero : ns.zp.nrZones = 0
  · rw [hzero]
    exact Nat.zero_le _
  · rw [sub32_of_le (Nat.pos_of_ne_zero hzero) (nrZones_lt ns)]
    omega

/-- The number of random write areas the identify data allows. -/
theorem numzrwa_eq :
    (if (identifyZnsNamespace ns).ozcs = ozcsZrwa then
      (identifyZnsNamespace ns).numzrwa + 1 else 0) = ns.zp.nrZrwaZones := by
  rw [identifyZnsNamespace]
  by_cases hzrwa : 0 < ns.zp.nrZrwaZones
  · simp only [if_pos hzrwa]
    rw [if_pos trivial, sub32_of_le hzrwa (nrZrwaZones_lt ns),
      Nat.sub_add_cancel hzrwa]
  · simp only [if_neg hzrwa]
    rw [if_neg (by decide)]
    omega

theorem countOn_zones_le (p : ZoneDescriptor → Prop) [DecidablePred p] :
    countOn (Finset.range ns.zp.nrZones) p s.zoneDescs ≤ ns.zp.nrZones := by
  calc countOn (Finset.range ns.zp.nrZones) p s.zoneDescs
      ≤ (Finset.range ns.zp.nrZones).card := countOn_le_card _ _ _
    _ = ns.zp.nrZones := Finset.card_range _

/-- The first `count` zones are open with a random write area, the others are
empty. -/
structure OpenedUpTo (ns : ZnsNamespace) (count : ℕ) (s : ZnsFtl) : Prop where
  opened : ∀ zid < count, (s.zoneDescs zid).zrwav = true ∧
    (s.zoneDescs zid).state = .openedExpl
  empty : ∀ zid, count ≤ zid → (s.zoneDescs zid).state = .empty
  infos : ∀ type, s.resInfos type =
    { acquiredCnt := count, totalCnt := ns.zp.nrZones }

/-- Opening an empty zone with a random write area, while every resource has a
unit left. -/
theorem OpenedUpTo.next {count : ℕ} (h : OpenedUpTo ns count s)
    (hlt : count < ns.zp.nrZones) :
    ∃ s', zmgmtSendOpenZone ns s count true = .ok (scSuccess, s') ∧
      OpenedUpTo ns (count + 1) s' := by
  have hnotFull : ∀ type, isZoneResourceFull s type = false := by
    intro type
    rw [isZoneResourceFull, h.infos type]
    exact decide_eq_false hlt.ne
  have hsucc : u32 (count + 1) = count + 1 := by
    have hbound := nrZones_lt ns
    exact u32_of_lt (by omega)
  have havail : ∀ type,
      (s.resInfos type).acquiredCnt < (s.resInfos type).totalCnt := by
    intro type
    rw [h.infos type]
    exact hlt
  have hrun : zmgmtSendOpenZone ns s count true =
      .ok (openClosedZone (acquireZoneResource
        (setZrwav (acquireZoneResource s .zrwaZone).2 count true)
        .activeZone).2 count .openedExpl) := by
    rw [zmgmtSendOpenZone, zoneDesc, if_pos hlt, ok_bind,
      h.empty count le_rfl]
    dsimp only
    rw [hnotFull, hnotFull, hnotFull, if_neg (by simp), if_neg (by simp),
      if_neg (by simp), if_pos rfl]
    rfl
  rw [acquireZoneResource_of_lt (havail _),
    acquireZoneResource_of_lt (by simpa [setAcquiredCnt] using havail _),
    openClosedZone,
    acquireZoneResource_of_lt (by simpa [setAcquiredCnt] using havail _)]
    at hrun
  refine ⟨_, hrun, ?_, ?_, ?_⟩
  · intro zid hzid
    by_cases heq : zid = count
    · simp [heq, setAcquiredCnt]
    · have hopened := h.opened zid (by omega)
      simpa [heq, setAcquiredCnt] using hopened
  · intro zid hzid
    have hne : zid ≠ count := by omega
    have hempty := h.empty zid (by omega)
    simpa [hne, setAcquiredCnt] using hempty
  · intro type
    cases type <;> simp [setAcquiredCnt, h.infos, hsucc]

theorem lbaToZone_mul {zid : ℕ} (hzid : zid < ns.zp.nrZones) :
    lbaToZone ns (zid * lbasPerZone ns) = zid := by
  have hpos : 0 < lbasPerZone ns := by
    have hpages := pgsPerZone_pos ns
    rw [lbasPerZone_eq]
    omega
  rw [lbaToZone, Nat.mul_div_cancel _ hpos]
  exact u32_of_lt (hzid.trans (nrZones_lt ns))

/-- A host can open any number of zones with a random write area, one after
the other. -/
theorem openedUpTo_reachable {start : ZnsState} (hstart : ZnsInit ns start)
    {count : ℕ} (hle : count ≤ ns.zp.nrZones) :
    ∃ state, Reachable (znsMachine ns) state ∧
      OpenedUpTo ns count state.ftl := by
  induction count with
  | zero =>
      refine ⟨start, .start hstart, ?_⟩
      obtain ⟨hch, hpcie, clock, storage, rfl⟩ := hstart
      exact ⟨fun _ hlt => absurd hlt (Nat.not_lt_zero _), fun _ _ => rfl,
        fun _ => rfl⟩
  | succ count ih =>
      obtain ⟨state, hreach, hopened⟩ := ih (Nat.le_of_succ_le hle)
      obtain ⟨ftl, hopen, hnext⟩ := hopened.next hle
      have henabled : (znsMachine ns).enabled state (openZrwa ns count) :=
        trivial
      have hstep : znsStep ns state (openZrwa ns count) =
          .ok { state with ftl := ftl } := by
        have hsend : zmgmtSend ns 0 state.ftl (count * lbasPerZone ns)
            .openZone true = .ok (scSuccess, ftl) := by
          rw [zmgmtSend, lbaToZone_mul hle]
          exact hopen
        rw [openZrwa, znsStep, znsZmgmtSend, if_neg (by simp), hsend]
        rfl
      exact ⟨_, hreach.next henabled hstep, hnext⟩

/-- Every reachable state stays within the advertised limits exactly when the
namespace advertises a random write area for each of its zones. -/
theorem withinLimits_iff {start : ZnsState} (hstart : ZnsInit ns start) :
    (∀ state, Reachable (znsMachine ns) state → WithinLimits ns state.ftl) ↔
      ns.zp.nrZones ≤ ns.zp.nrZrwaZones := by
  have hparams := of_znsInitParams ns.zp_eq
  constructor
  · intro hwithin
    by_contra hfewer
    have hle : ns.zp.nrZrwaZones + 1 ≤ ns.zp.nrZones := by omega
    obtain ⟨state, hreach, hopened⟩ := openedUpTo_reachable hstart hle
    have hzrwa := (hwithin state hreach).zrwa
    rw [numzrwa_eq] at hzrwa
    have hsubset : Finset.range (ns.zp.nrZrwaZones + 1) ⊆
        (Finset.range ns.zp.nrZones).filter fun zid =>
          (state.ftl.zoneDescs zid).zrwav = true ∧
            isActive (state.ftl.zoneDescs zid).state = true := by
      intro zid hzid
      rw [Finset.mem_range] at hzid
      obtain ⟨hzrwav, hstate⟩ := hopened.opened zid hzid
      rw [Finset.mem_filter, Finset.mem_range, hstate]
      exact ⟨by omega, hzrwav, rfl⟩
    have hcard := Finset.card_le_card hsubset
    rw [Finset.card_range] at hcard
    exact absurd (hcard.trans hzrwa) (by omega)
  · intro hadvertised state _
    exact {
      active := by
        have hmar : (identifyZnsNamespace ns).mar = sub32 ns.zp.nrZones 1 := by
          rw [identifyZnsNamespace, hparams.2.2.2.2.1]
        rw [hmar]
        exact (countOn_zones_le _).trans nrZones_le_sub32
      opened := by
        have hmor : (identifyZnsNamespace ns).mor = sub32 ns.zp.nrZones 1 := by
          rw [identifyZnsNamespace, hparams.2.2.2.2.2.1]
        rw [hmor]
        exact (countOn_zones_le _).trans nrZones_le_sub32
      zrwa := by
        rw [numzrwa_eq]
        exact (countOn_zones_le _).trans hadvertised }

theorem withinLimits_iff_two :
    (∀ state, Reachable (znsMachine (twoZones 2)) state →
      WithinLimits (twoZones 2) state.ftl) ↔
      (twoZones 2).zp.nrZones ≤ (twoZones 2).zp.nrZrwaZones :=
  withinLimits_iff (twoZonesStart_init 2)

/-- A namespace that advertises one random write area hands out two. -/
theorem more_zrwa_than_advertised :
    ∃ state, Reachable (znsMachine (twoZones 1)) state ∧
      ¬ WithinLimits (twoZones 1) state.ftl := by
  have hrun : (((znsMachine (twoZones 1)).run
      [openZrwa (twoZones 1) 0, openZrwa (twoZones 1) 1]
      (twoZonesStart 1)).map fun s =>
        (s.ftl.zoneDescs 0, s.ftl.zoneDescs 1)) =
      some (⟨.openedExpl, true, 16, 0, 0⟩, ⟨.openedExpl, true, 16, 16, 16⟩) := by
    decide +kernel
  obtain ⟨state, hstate, hvalues⟩ := Option.map_eq_some_iff.mp hrun
  obtain ⟨hfirst, hsecond⟩ := Prod.mk.inj hvalues
  refine ⟨state, Reachable.run (.start (twoZonesStart_init 1)) hstate, ?_⟩
  intro hwithin
  have hcount : countOn (Finset.range (twoZones 1).zp.nrZones)
      (fun desc => desc.zrwav = true ∧ isActive desc.state = true)
      state.ftl.zoneDescs = (Finset.range (twoZones 1).zp.nrZones).card := by
    apply countOn_eq_card
    intro zid hzid
    have hlt : zid < 2 := Finset.mem_range.mp hzid
    interval_cases zid
    · simp [hfirst]
    · simp [hsecond]
  have hzrwa := hwithin.zrwa
  rw [hcount, numzrwa_eq] at hzrwa
  exact absurd hzrwa (by decide)

end

end NvmeVirt.Resources
