import NvmeVirt.Zns.FailedWrites
import NvmeVirt.Zns.Filling
import Mathlib.Order.Bounds.Basic

/-!
# The window of a random write area

A write behind the random write area moves the write pointer by whole flush
units, and no further than it has to.  A write inside the area leaves it, but
for one that ends on the last block of the zone.  The last block comes from
`zone_to_elba`, whose product has 32 bits, so a zone that reaches LBA `2 ^ 32`
has none.
-/

namespace NvmeVirt.ZrwaWindow

open NvmeVirt.Commands
open NvmeVirt.FailedWrites
open NvmeVirt.Filling
open NvmeVirt.Kernel
open NvmeVirt.Layout
open NvmeVirt.MgmtSend
open NvmeVirt.OneshotPages
open NvmeVirt.ReadWrite
open NvmeVirt.Resources
open NvmeVirt.Timing
open NvmeVirt.Transition
open NvmeVirt.WriteCases
open NvmeVirt.WritePointers
open NvmeVirt.ZoneMoves
open NvmeVirt.Zones

/-- The block behind the zone. -/
def zoneEnd (ns : ZnsNamespace) (zid : ℕ) : ℕ :=
  zid * lbasPerZone ns + lbasPerZone ns

/-- A write up to `elba` moves a write pointer `wp` to `wp'`: to the first
flush unit whose random write area reaches `elba`, when the one of `wp` does
not. -/
def WindowMoved (ns : ZnsNamespace) (zid wp elba wp' : ℕ) : Prop :=
  if wp + ns.zp.lbasPerZrwa ≤ elba then
    IsLeast {next | wp < next ∧ ns.zp.lbasPerZrwafg ∣ next - wp ∧
      elba < next + ns.zp.lbasPerZrwa} wp' ∧ wp' ≤ elba
  else wp' = if elba + 1 = zoneEnd ns zid then zoneEnd ns zid else wp

/-- Rounding up gives the least multiple. -/
theorem roundUp_isLeast (span : ℕ) {unit : ℕ} (hunit : 0 < unit) :
    IsLeast {length | unit ∣ length ∧ span ≤ length}
      ((span + unit - 1) / unit * unit) := by
  constructor
  · have hsplit := Nat.div_add_mod (span + unit - 1) unit
    have hmod := Nat.mod_lt (span + unit - 1) hunit
    rw [Nat.mul_comm] at hsplit
    exact ⟨Nat.dvd_mul_left _ _, by omega⟩
  · rintro length ⟨⟨count, rfl⟩, hle⟩
    rw [Nat.mul_comm unit]
    apply Nat.mul_le_mul_right
    rw [Nat.div_le_iff_le_mul_add_pred hunit]
    omega

section

variable {ns : ZnsNamespace} {zid : ℕ} {desc desc' : ZoneDescriptor}

/-! ## Where the write pointer is -/

theorem zoneToSlba_le (ns : ZnsNamespace) (zid : ℕ) :
    zoneToSlba ns zid ≤ zid * lbasPerZone ns :=
  (Nat.mod_le _ _).trans (Nat.mul_le_mul_right _ (Nat.mod_le _ _))

/-- The write pointer of a zone with a random write area is in the zone, or at
its end, however many blocks the namespace has. -/
structure InZone (ns : ZnsNamespace) (zid : ℕ) (desc : ZoneDescriptor) :
    Prop where
  sited : Sited ns zid desc
  wp_mem : desc.zrwav = true →
    zid * lbasPerZone ns ≤ desc.wp ∧ desc.wp ≤ zoneEnd ns zid

/-- The last block of an admitted write is in the zone. -/
theorem lastLba_mem {slba nrLba : ℕ} (hzrwa : 1 ≤ ns.zp.lbasPerZrwa)
    (hzid : zid < ns.zp.nrZones) (hwp : desc.wp ≤ zoneEnd ns zid)
    (hzone : lbaToZone ns slba = zid)
    (hcheck : znsWriteZrwaCheck ns desc slba nrLba = scSuccess) :
    zid * lbasPerZone ns ≤ lastLba slba nrLba ∧
      lastLba slba nrLba < zoneEnd ns zid := by
  obtain ⟨-, hboundary, -, hend⟩ := of_znsWriteZrwaCheck hcheck
  have hbound := zone_lbas_lt hzid
  have hsize := lbasPerZrwa_lt ns
  have hsame := of_decide_eq_true hboundary
  rw [hzone] at hsame
  rw [zoneEnd] at hwp ⊢
  rw [zrwaImplEnd_eq hzrwa (by omega)] at hend
  exact of_lbaToZone_near hzid (by omega) hsame.symm

theorem InZone.flush_le (h : InZone ns zid desc) {slba : ℕ}
    (hend : slba ≤ zrwaEnd ns zid desc) : slba < zoneEnd ns zid := by
  have hstart := zoneToSlba_le ns zid
  have hlt : zoneToSlba ns zid < 2 ^ 32 := u32_lt _
  have hsize := lbasPerZone_le ns
  have hpos := eight_le_lbasPerZone ns
  have hlast := hend.trans (min_le_right _ _)
  rw [h.sited.capacity_eq, u64_of_lt (by omega),
    sub64_of_le (by omega) (by omega)] at hlast
  rw [zoneEnd]
  omega

/-- An implicit flush ends ahead of the last block written, or at the end of
the zone. -/
theorem InZone.flushed_le (h : InZone ns zid desc)
    (hfg : 1 ≤ ns.zp.lbasPerZrwafg)
    (hzrwa : ns.zp.lbasPerZrwafg ≤ ns.zp.lbasPerZrwa)
    (hzid : zid < ns.zp.nrZones) (hzrwav : desc.zrwav = true)
    {slba nrLba nrLbas : ℕ} (hzone : lbaToZone ns slba = zid)
    (hcheck : znsWriteZrwaCheck ns desc slba nrLba = scSuccess)
    (hflush : nrLbasFlush ns zid desc.wp (lastLba slba nrLba) = .ok nrLbas) :
    nrLbas < 2 ^ 32 ∧ desc.wp + nrLbas ≤ zoneEnd ns zid := by
  obtain ⟨hstart, hwp⟩ := h.wp_mem hzrwav
  obtain ⟨hle, hlt⟩ := lastLba_mem (by omega) hzid hwp hzone hcheck
  have hbound := zone_lbas_lt hzid
  have hlow := lbasPerZone_le ns
  rw [zoneEnd] at *
  rcases nrLbasFlush_exact (by omega) (by omega) hzrwa hflush with
    ⟨hbehind, hunit, hrounded⟩ | ⟨-, hlast, hrest⟩ | ⟨-, -, hnone⟩
  · have hround := roundUp_lt (lastLba slba nrLba -
      (desc.wp + ns.zp.lbasPerZrwa) + 1) hunit
    omega
  · by_cases hisLow : LowZone ns zid
    swap
    · exact absurd hlast.symm (zoneToElba_of_not_low hzid hisLow hle hlt)
    rw [zoneToElba_eq hisLow] at hlast
    rw [sub64, u64, u64] at hrest
    rw [u64] at hrest
    omega
  · omega

theorem InZone.movedTo (h : InZone ns zid desc)
    (hactive : isActive desc.state = true) {wp : ℕ}
    (hwp : desc.zrwav = true →
      zid * lbasPerZone ns ≤ wp ∧ wp ≤ zoneEnd ns zid) :
    InZone ns zid (movedTo ns zid desc wp) :=
  ⟨h.sited.movedTo hactive wp, hwp⟩

theorem InZone.move (h : InZone ns zid desc)
    (hfg : 1 ≤ ns.zp.lbasPerZrwafg)
    (hzrwa : ns.zp.lbasPerZrwafg ≤ ns.zp.lbasPerZrwa)
    (hzid : zid < ns.zp.nrZones) (hmove : ZoneMove ns zid desc desc') :
    InZone ns zid desc' := by
  have hsited := h.sited.move hmove
  have hbound := zone_lbas_lt hzid
  cases hmove with
  | stay => exact h
  | close | finish | openActive | offline => exact ⟨hsited, h.wp_mem⟩
  | openEmpty state zrwav hempty =>
      refine ⟨hsited, fun _ => ?_⟩
      have hwp := (h.sited.of_empty hempty).trans h.sited.zslba_eq
      dsimp only
      rw [hwp, zoneEnd]
      omega
  | reset => exact ⟨hsited, fun hzrwav => by cases hzrwav⟩
  | flush slba hactive hzrwav hle hend =>
      have hlt := h.flush_le hend
      obtain ⟨hstart, -⟩ := h.wp_mem hzrwav
      refine h.movedTo hactive fun _ => ?_
      rw [zoneEnd] at *
      rw [u64_of_lt (by omega)]
      omega
  | write nrLba hopened hzrwav =>
      refine h.movedTo (isActive_of_isOpened hopened) fun htrue => ?_
      rw [hzrwav] at htrue
      cases htrue
  | writeZrwa slba nrLba nrLbas hopened hzrwav hzone hpos hle hcheck hflush =>
      obtain ⟨hlt, hend⟩ :=
        h.flushed_le hfg hzrwa hzid hzrwav hzone hcheck hflush
      obtain ⟨hstart, -⟩ := h.wp_mem hzrwav
      refine h.movedTo (isActive_of_isOpened hopened) fun _ => ?_
      rw [zoneEnd] at *
      rw [u32_of_lt hlt, u64_of_lt (by omega)]
      omega

theorem reachable_inZone (hfg : 1 ≤ ns.zp.lbasPerZrwafg)
    (hzrwa : ns.zp.lbasPerZrwafg ≤ ns.zp.lbasPerZrwa) {state : ZnsState}
    (hreach : Reachable (znsMachine ns) state) :
    ∀ zid < ns.zp.nrZones, InZone ns zid (state.ftl.zoneDescs zid) := by
  apply reachable_zones (InZone ns) _
    (fun _ hzid _ _ h => h.move hfg hzrwa hzid) hreach
  intro zid _
  have hplaced := @initDescriptor_placed ns zid
  exact ⟨⟨hplaced.zslba_eq, hplaced.capacity_eq, fun _ => rfl⟩,
    fun hzrwav => by cases hzrwav⟩

/-! ## The write pointer after a write -/

/-- A `uint64_t` start LBA behind a write pointer does not wrap on the way to
the last block. -/
theorem wp_le_lastLba {req : RwRequest} (hzrwa : 1 ≤ ns.zp.lbasPerZrwa)
    (hzid : zid < ns.zp.nrZones) (hwp : desc.wp ≤ zoneEnd ns zid)
    (hslba : req.slba < 2 ^ 64) (hzone : lbaToZone ns req.slba = zid)
    (hcheck : znsWriteZrwaCheck ns desc req.slba req.nrLba = scSuccess) :
    desc.wp ≤ lastLba req.slba req.nrLba := by
  obtain ⟨hstart, -⟩ := lastLba_mem hzrwa hzid hwp hzone hcheck
  obtain ⟨-, -, hbehind, -⟩ := of_znsWriteZrwaCheck hcheck
  have hnrLba_pos := RwRequest.nrLba_pos req
  have hnrLba_le := RwRequest.nrLba_le req
  have hlast : lastLba req.slba req.nrLba =
      (req.slba + req.nrLba - 1) % 2 ^ 64 := by
    rw [lastLba, sub64, u64, u64]
    omega
  by_cases hwraps : req.slba + req.nrLba - 1 < 2 ^ 64
  · rw [hlast, Nat.mod_eq_of_lt hwraps]
    omega
  -- the last block is one of the first, and no zone has both
  have hlow := lbasPerZone_le ns
  have hpos := eight_le_lbasPerZone ns
  rw [lbaToZone, u32] at hzone
  have hsplit := Nat.div_add_mod req.slba (lbasPerZone ns)
  have hmod := Nat.mod_lt req.slba (Nat.lt_of_lt_of_le (by decide) hpos)
  generalize hquotient : req.slba / lbasPerZone ns = quotient at *
  have hzones := Nat.div_add_mod quotient (2 ^ 32)
  rw [hzone] at hzones
  rw [← hzones, Nat.mul_add, Nat.mul_left_comm, Nat.mul_comm _ zid] at hsplit
  generalize lbasPerZone ns * (quotient / 2 ^ 32) = wraps at hsplit
  omega

/-- What an accepted write to a zone with a random write area does to its write
pointer. -/
theorem znsWriteZrwa_wp {s s' : ZnsFtl} {req : RwRequest} {ret : NvmevResult}
    {outcome : WriteOutcome}
    (hrun : znsWriteZrwa ns s req ret = .ok (outcome, s'))
    (hzone : lbaToZone ns req.slba = zid)
    (haccepted : outcome.accepted = true)
    (hstatus : outcome.ret.status = scSuccess) :
    znsWriteZrwaCheck ns (s.zoneDescs zid) req.slba req.nrLba = scSuccess ∧
      ∃ nrLbas, nrLbasFlush ns zid (s.zoneDescs zid).wp
          (lastLba req.slba req.nrLba) = .ok nrLbas ∧
        (s'.zoneDescs zid).wp = if nrLbas = 0 then (s.zoneDescs zid).wp
          else u64 ((s.zoneDescs zid).wp + u32 nrLbas) := by
  obtain ⟨-, hcase⟩ := znsWriteZrwa_cases hrun
  rw [hzone] at hcase
  cases hcase with
  | retry => cases haccepted
  | refused hcheck => exact absurd hstatus hcheck
  | unopened hcheck hopen hne => exact absurd hstatus hne
  | @written s₁ s₂ nrLbas _ p hcheck hopen hflush hmoved =>
      refine ⟨hcheck, nrLbas, hflush, ?_⟩
      obtain ⟨state, -, hdesc⟩ := znsWriteZrwaOpen_success hopen
      have hwp : (s₁.zoneDescs zid).wp = (s.zoneDescs zid).wp := by rw [hdesc]
      dsimp only
      rcases flushImplicit_cases hmoved with ⟨hzero, -, rfl⟩ |
        ⟨hpos, -, granted, buf, -, ⟨-, hfalse, -⟩ | ⟨-, -, rfl⟩⟩
      · rw [if_pos hzero, hwp]
      · cases hfalse
      · rw [if_neg hpos, increaseWritePtr_zoneDescs, setBuffer_zoneDescs,
          Function.update_self, ← hwp]
        rfl

/-- A write that starts in a zone of a reachable state, on or behind the write
pointer of its random write area, moves it as the window says exactly when it
does not end inside the window on the last block of a zone that reaches LBA
`2 ^ 32`. -/
theorem windowMoved_iff (hfg : 1 ≤ ns.zp.lbasPerZrwafg)
    (hzrwa : ns.zp.lbasPerZrwafg ≤ ns.zp.lbasPerZrwa) {state : ZnsState}
    (hreach : Reachable (znsMachine ns) state) {req : RwRequest}
    (hslba : req.slba < 2 ^ 64) (hzone : lbaToZone ns req.slba = zid)
    (hzrwav : (state.ftl.zoneDescs zid).zrwav = true) {ret : NvmevResult}
    {outcome : WriteOutcome} {s' : ZnsFtl}
    (hrun : znsWrite ns state.ftl req ret = .ok (outcome, s'))
    (haccepted : outcome.accepted = true)
    (hstatus : outcome.ret.status = scSuccess) :
    WindowMoved ns zid (state.ftl.zoneDescs zid).wp
        (lastLba req.slba req.nrLba) (s'.zoneDescs zid).wp ↔
      (state.ftl.zoneDescs zid).wp + ns.zp.lbasPerZrwa ≤
          lastLba req.slba req.nrLba ∨
        lastLba req.slba req.nrLba + 1 ≠ zoneEnd ns zid ∨
        LowZone ns zid := by
  obtain ⟨hzid, hcase⟩ := znsWrite_cases hrun
  rw [hzone] at hzid hcase
  obtain ⟨hnone, -⟩ | ⟨-, hrun⟩ := hcase
  · rw [hzrwav] at hnone
    cases hnone
  have hinZone := reachable_inZone hfg hzrwa hreach zid hzid
  obtain ⟨hstart, hwp⟩ := hinZone.wp_mem hzrwav
  obtain ⟨hcheck, nrLbas, hflush, hafter⟩ :=
    znsWriteZrwa_wp hrun hzone haccepted hstatus
  obtain ⟨hflushed, hend⟩ :=
    hinZone.flushed_le hfg hzrwa hzid hzrwav hzone hcheck hflush
  obtain ⟨helba, hlast⟩ := lastLba_mem (by omega) hzid hwp hzone hcheck
  have hle := wp_le_lastLba (by omega) hzid hwp hslba hzone hcheck
  have hbound := zone_lbas_lt hzid
  rw [WindowMoved, hafter]
  generalize lastLba req.slba req.nrLba = elba at *
  generalize (state.ftl.zoneDescs zid).wp = wp at *
  rw [zoneEnd] at *
  rcases nrLbasFlush_exact (by omega) (by omega) hzrwa hflush with
    ⟨hbehind, hunit, hrounded⟩ | ⟨hinside, hlastLba, hrest⟩ |
      ⟨hinside, hlastLba, hnone⟩
  · have hround := roundUp_lt (elba - (wp + ns.zp.lbasPerZrwa) + 1) hunit
    have hleast := roundUp_isLeast (elba - (wp + ns.zp.lbasPerZrwa) + 1) hunit
    rw [← hrounded] at hleast hround
    have hpos := hleast.1.2
    rw [if_pos hbehind, if_neg (by omega), u32_of_lt hflushed,
      u64_of_lt (by omega)]
    apply iff_of_true _ (.inl hbehind)
    refine ⟨⟨⟨by omega, ?_, by omega⟩, ?_⟩, by omega⟩
    · rw [Nat.add_sub_cancel_left]
      exact hleast.1.1
    · rintro next ⟨hlt, hdvd, hreaches⟩
      have hmin := hleast.2 ⟨hdvd, by omega⟩
      omega
  · rw [if_neg (Nat.not_le.mpr hinside)]
    by_cases hlow : LowZone ns zid
    swap
    · exact absurd hlastLba.symm
        (zoneToElba_of_not_low hzid hlow helba hlast)
    rw [zoneToElba_eq hlow] at hlastLba
    rw [sub64_of_le hle (by omega), u64_of_lt (by omega)] at hrest
    rw [if_neg (by omega), if_pos (by omega), u32_of_lt hflushed,
      u64_of_lt (by omega)]
    exact iff_of_true (by omega) (.inr (.inr hlow))
  · rw [if_neg (Nat.not_le.mpr hinside), if_pos hnone,
      or_iff_right (Nat.not_le.mpr hinside)]
    by_cases hlow : LowZone ns zid
    · rw [zoneToElba_eq hlow] at hlastLba
      rw [if_neg (by omega)]
      exact iff_of_true rfl (.inr hlow)
    · rw [or_iff_left hlow]
      split_ifs with hlastBlock
      · exact iff_of_false (by omega) (not_not.mpr hlastBlock)
      · exact iff_of_true rfl hlastBlock

end

/-! ### Runs -/

/-- The first zone of the example is opened with a random write area and
written whole. -/
theorem wholeZone_windowMoved_iff :
    ∃ state outcome s', Reachable (znsMachine (twoZones 2)) state ∧
      (state.ftl.zoneDescs 0).zrwav = true ∧
      znsWrite (twoZones 2) state.ftl wholeZone ⟨0, 0, 0⟩ =
        .ok (outcome, s') ∧
      (WindowMoved (twoZones 2) 0 (state.ftl.zoneDescs 0).wp
          (lastLba wholeZone.slba wholeZone.nrLba) (s'.zoneDescs 0).wp ↔
        (state.ftl.zoneDescs 0).wp + (twoZones 2).zp.lbasPerZrwa ≤
            lastLba wholeZone.slba wholeZone.nrLba ∨
          lastLba wholeZone.slba wholeZone.nrLba + 1 ≠
            zoneEnd (twoZones 2) 0 ∨
          LowZone (twoZones 2) 0) := by
  have hvalues : ((znsMachine (twoZones 2)).run [openZrwa (twoZones 2) 0]
      (twoZonesStart 2)).bind (fun state =>
        (znsWrite (twoZones 2) state.ftl wholeZone ⟨0, 0, 0⟩).toOption.map
          fun result => ((state.ftl.zoneDescs 0).zrwav, result.1.accepted,
            result.1.ret.status)) = some (true, true, scSuccess) := by
    decide +kernel
  obtain ⟨state, ⟨outcome, s'⟩, hreach, hwrite, hvalue⟩ :=
    Reachable.run_then (.start (twoZonesStart_init 2)) hvalues
  simp only [Prod.mk.injEq] at hvalue
  obtain ⟨hzrwav, haccepted, hstatus⟩ := hvalue
  exact ⟨state, outcome, s', hreach, hzrwav, hwrite,
    windowMoved_iff (by decide) (by decide) hreach (by decide) (by decide)
      hzrwav hwrite haccepted hstatus⟩

theorem manyZones_pages : 8191 < 2 ^ 16 := by decide

theorem manyZones_capacity : 2 ^ 41 % u32 (2 ^ 31) = 0 := by decide +kernel

theorem manyZones_pgsz : u32 (2 ^ 31) % 4096 = 0 := by decide +kernel

/-- The device below the zones of the example. -/
def manyZonesDie : Geometry := gigaDie ⟨8191, manyZones_pages⟩

/-- The zones of the example, up to LBA `2 ^ 32`. -/
def manyZones : ZnsNamespace where
  toGeometry := manyZonesDie
  config := gigaZoneConfig
  capacity := 2 ^ 41
  zp := znsParamsOf gigaZoneConfig manyZonesDie.toSsdParams (2 ^ 41)
  zp_eq := znsInitParams_of gigaZoneConfig_pos manyZones_capacity
    manyZones_pgsz
  diesPerZone_pos := twoZoneConfig_dies
  writeUnitSize_pos := twoZoneDie_unit

def manyZonesStart : ZnsState where
  ftl := znsInitFtl manyZones
    (ssdInit manyZonesDie.toSsdParams (by decide) (by decide)
      ⟨fun _ => 0, 0⟩) fun _ => 0
  pending := []

/-- The last page of the namespace. -/
def lastPage : RwRequest :=
  ⟨1, 0, .write, 2 ^ 32 - 8, 7, seven_lt_bits, false⟩

/-- The last zone is opened with a random write area and its last page is
written.  Its write pointer stays at its start. -/
theorem lastZone_not_moved :
    ∃ state outcome s', Reachable (znsMachine manyZones) state ∧
      (state.ftl.zoneDescs 1023).zrwav = true ∧
      znsWrite manyZones state.ftl lastPage ⟨0, 0, 0⟩ = .ok (outcome, s') ∧
      outcome.accepted = true ∧ outcome.ret.status = scSuccess ∧
      lastLba lastPage.slba lastPage.nrLba + 1 = zoneEnd manyZones 1023 ∧
      ¬ WindowMoved manyZones 1023 (state.ftl.zoneDescs 1023).wp
        (lastLba lastPage.slba lastPage.nrLba) (s'.zoneDescs 1023).wp := by
  have hvalues : ((znsMachine manyZones).run
      [openZrwa manyZones 1023] manyZonesStart).bind (fun state =>
        (znsWrite manyZones state.ftl lastPage ⟨0, 0, 0⟩).toOption.map
          fun result => (state.ftl.zoneDescs 1023, result.1.accepted,
            result.1.ret.status, (result.2.zoneDescs 1023).wp)) =
      some (⟨.openedExpl, true, 4194304, 4290772992, 4290772992⟩, true,
        scSuccess, 4290772992) := by
    decide +kernel
  have hinit : ZnsInit manyZones manyZonesStart := ⟨_, _, _, _, rfl⟩
  obtain ⟨state, ⟨outcome, s'⟩, hreach, hwrite, hvalue⟩ :=
    Reachable.run_then (.start hinit) hvalues
  simp only [Prod.mk.injEq] at hvalue
  obtain ⟨hdesc, haccepted, hstatus, hafter⟩ := hvalue
  have hlast : lastLba lastPage.slba lastPage.nrLba + 1 =
      zoneEnd manyZones 1023 := by decide +kernel
  refine ⟨state, outcome, s', hreach, ?_, hwrite, haccepted, hstatus, hlast,
    ?_⟩
  · rw [hdesc]
  · have hinside : ¬ 4290772992 + manyZones.zp.lbasPerZrwa ≤
        lastLba lastPage.slba lastPage.nrLba := by decide +kernel
    have hends : ¬ 4290772992 = zoneEnd manyZones 1023 := by
      decide +kernel
    rw [WindowMoved, hdesc, hafter, if_neg hinside, if_pos hlast]
    exact hends

end NvmeVirt.ZrwaWindow
