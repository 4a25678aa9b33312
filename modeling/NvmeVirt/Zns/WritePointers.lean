import NvmeVirt.Zns.Resources

/-!
# Where the write pointers are

In a namespace of fewer than `2 ^ 32` logical blocks every conversion between
zones and blocks is exact.  The write pointer of a zone then never leaves the
zone, reaches its end only together with the state `FULL`, and is at the start
of an empty zone.  An implicit flush rounds its length up to flush units, but
it starts behind the random write area, which is at least one unit long; so it
ends ahead of the last block written.
-/

namespace NvmeVirt.WritePointers

open NvmeVirt.Commands
open NvmeVirt.Kernel
open NvmeVirt.Layout
open NvmeVirt.MgmtSend
open NvmeVirt.ReadWrite
open NvmeVirt.Resources
open NvmeVirt.Timing
open NvmeVirt.Transition
open NvmeVirt.WriteCases
open NvmeVirt.ZoneMoves
open NvmeVirt.Zones

/-! ## Exact addresses -/

section

variable {ns : ZnsNamespace} {zid : ℕ}

theorem eight_le_lbasPerZone (ns : ZnsNamespace) : 8 ≤ lbasPerZone ns := by
  have hpages := pgsPerZone_pos ns
  rw [lbasPerZone_eq]
  omega

theorem lbasPerZrwa_lt (ns : ZnsNamespace) : ns.zp.lbasPerZrwa < 2 ^ 23 := by
  obtain ⟨-, -, -, -, -, -, hzrwa, hlt, -⟩ := of_znsInitParams ns.zp_eq
  rw [hzrwa, ns.secsz_eq]
  omega

theorem zone_end_lt (hlbas : ns.zp.nrZones * lbasPerZone ns < 2 ^ 32)
    (hzid : zid < ns.zp.nrZones) :
    zid * lbasPerZone ns + lbasPerZone ns < 2 ^ 32 :=
  calc zid * lbasPerZone ns + lbasPerZone ns
      = (zid + 1) * lbasPerZone ns := (Nat.succ_mul _ _).symm
    _ ≤ ns.zp.nrZones * lbasPerZone ns := Nat.mul_le_mul_right _ hzid
    _ < 2 ^ 32 := hlbas

theorem zoneToSlba_eq (hlt : zid * lbasPerZone ns < 2 ^ 32) :
    zoneToSlba ns zid = zid * lbasPerZone ns := by
  have hpos := eight_le_lbasPerZone ns
  have hzid : zid < 2 ^ 32 :=
    calc zid ≤ zid * lbasPerZone ns := Nat.le_mul_of_pos_right _ (by omega)
      _ < 2 ^ 32 := hlt
  rw [zoneToSlba, u32_of_lt hzid, u32_of_lt hlt]

theorem zoneToElba_eq
    (hlt : zid * lbasPerZone ns + lbasPerZone ns < 2 ^ 32) :
    zoneToElba ns zid = zid * lbasPerZone ns + lbasPerZone ns - 1 := by
  have hpos := eight_le_lbasPerZone ns
  have hnext : (zid + 1) * lbasPerZone ns =
      zid * lbasPerZone ns + lbasPerZone ns := Nat.succ_mul _ _
  rw [zoneToElba, zoneToSlba_eq (hnext ▸ hlt), hnext]
  exact sub64_of_le (by omega) (by omega)

/-- A block that is counted to a zone is in the zone. -/
theorem of_lbaToZone {lba : ℕ} (hlba : lba < 2 ^ 34)
    (hzone : lbaToZone ns lba = zid) :
    zid * lbasPerZone ns ≤ lba ∧
      lba < zid * lbasPerZone ns + lbasPerZone ns := by
  have hpos := eight_le_lbasPerZone ns
  have hquotient : lba / lbasPerZone ns < 2 ^ 32 :=
    calc lba / lbasPerZone ns ≤ lba / 8 := Nat.div_le_div_left hpos (by decide)
      _ < 2 ^ 32 := by omega
  rw [lbaToZone, u32_of_lt hquotient] at hzone
  rw [← hzone, Nat.mul_comm]
  have hmod := Nat.mod_lt lba (Nat.lt_of_lt_of_le (by decide) hpos)
  have hsplit := Nat.div_add_mod lba (lbasPerZone ns)
  omega

theorem lbaToZone_of_mem {lba : ℕ}
    (hzid : zid < ns.zp.nrZones) (hle : zid * lbasPerZone ns ≤ lba)
    (hlt : lba < zid * lbasPerZone ns + lbasPerZone ns) :
    lbaToZone ns lba = zid := by
  have hquotient : lba / lbasPerZone ns = zid := by
    apply Nat.div_eq_of_lt_le
    · exact hle
    · rw [Nat.succ_mul]
      exact hlt
  rw [lbaToZone, hquotient]
  exact u32_of_lt (hzid.trans (nrZones_lt ns))

theorem lbasPerZone_le (ns : ZnsNamespace) : lbasPerZone ns ≤ 2 ^ 23 := by
  have hbytes := zoneSize_lt ns
  rw [lbasPerZone, ns.secsz_eq]
  omega

/-- A block that is counted to a zone is in the zone, unless it is `2 ^ 32`
blocks behind it. -/
theorem of_lbaToZone_near {lba : ℕ} (hzid : zid < ns.zp.nrZones)
    (hnear : lba < zid * lbasPerZone ns + lbasPerZone ns + 2 ^ 32)
    (hzone : lbaToZone ns lba = zid) :
    zid * lbasPerZone ns ≤ lba ∧
      lba < zid * lbasPerZone ns + lbasPerZone ns := by
  have hpos := eight_le_lbasPerZone ns
  have hzones := nrZones_lt ns
  rw [lbaToZone, u32] at hzone
  -- the quotient is less than `2 ^ 32` zones away, so it does not wrap
  have hupper : lba / lbasPerZone ns < zid + 1 + 2 ^ 29 := by
    rw [Nat.div_lt_iff_lt_mul (by omega), Nat.add_mul, Nat.add_mul, one_mul]
    have hunits : 2 ^ 29 * 8 ≤ 2 ^ 29 * lbasPerZone ns :=
      Nat.mul_le_mul_left _ hpos
    omega
  have hsplit := Nat.div_add_mod lba (lbasPerZone ns)
  have hmod := Nat.mod_lt lba (Nat.lt_of_lt_of_le (by decide) hpos)
  generalize lba / lbasPerZone ns = quotient at hzone hupper hsplit
  have hquotient : quotient = zid := by omega
  rw [hquotient, Nat.mul_comm] at hsplit
  omega

/-- Blocks that start in a zone and pass the boundary check end in it. -/
theorem of_checkBoundaryError {slba nrLba : ℕ} (hzid : zid < ns.zp.nrZones)
    (hle : zid * lbasPerZone ns ≤ slba)
    (hlt : slba < zid * lbasPerZone ns + lbasPerZone ns) (hpos : 0 < nrLba)
    (hnr : nrLba ≤ 2 ^ 16) (hzone : checkBoundaryError ns slba nrLba = true) :
    slba + nrLba ≤ zid * lbasPerZone ns + lbasPerZone ns := by
  have hzones := nrZones_lt ns
  have hsize := lbasPerZone_le ns
  have hstart : zid * lbasPerZone ns ≤ 2 ^ 32 * 2 ^ 23 :=
    Nat.mul_le_mul (by omega) hsize
  have hlast : lastLba slba nrLba = slba + nrLba - 1 :=
    sub64_of_le (by omega) (by omega)
  have hsame := of_decide_eq_true hzone
  rw [lbaToZone_of_mem hzid hle hlt, hlast] at hsame
  have hmem := of_lbaToZone_near hzid (by omega) hsame.symm
  omega

end

/-! ## The invariant -/

/-- The write pointer of the zone `zid` is where the state of the zone says. -/
structure Placed (ns : ZnsNamespace) (zid : ℕ) (desc : ZoneDescriptor) :
    Prop where
  zslba_eq : desc.zslba = zid * lbasPerZone ns
  capacity_eq : desc.zoneCapacity = lbasPerZone ns
  zslba_le : desc.zslba ≤ desc.wp
  wp_le : desc.wp ≤ desc.zslba + desc.zoneCapacity
  full_of_end : desc.wp = desc.zslba + desc.zoneCapacity → desc.state = .full
  of_empty : desc.state = .empty → desc.wp = desc.zslba ∧ desc.zrwav = false

section

variable {ns : ZnsNamespace} {zid : ℕ} {desc desc' : ZoneDescriptor}

theorem Placed.start_le (h : Placed ns zid desc) :
    zid * lbasPerZone ns ≤ desc.wp := by
  rw [← h.zslba_eq]
  exact h.zslba_le

theorem Placed.wp_lt (h : Placed ns zid desc)
    (hactive : isActive desc.state = true) :
    desc.wp < zid * lbasPerZone ns + lbasPerZone ns := by
  have hne : desc.wp ≠ desc.zslba + desc.zoneCapacity := by
    intro hend
    rw [h.full_of_end hend] at hactive
    cases hactive
  have hle := h.wp_le
  have hslba := h.zslba_eq
  have hcapacity := h.capacity_eq
  omega

/-- The end of the zone, as the code computes it. -/
theorem Placed.end_eq (h : Placed ns zid desc)
    (hlbas : ns.zp.nrZones * lbasPerZone ns < 2 ^ 32)
    (hzid : zid < ns.zp.nrZones) :
    u64 (zoneToSlba ns zid + desc.zoneCapacity) =
      desc.zslba + desc.zoneCapacity := by
  have hlt := zone_end_lt hlbas hzid
  rw [zoneToSlba_eq (by omega), h.zslba_eq, h.capacity_eq]
  exact u64_of_lt (by omega)

/-- A write pointer that moves within its zone. -/
theorem Placed.movedTo (h : Placed ns zid desc)
    (hlbas : ns.zp.nrZones * lbasPerZone ns < 2 ^ 32)
    (hzid : zid < ns.zp.nrZones) (hactive : isActive desc.state = true)
    {wp : ℕ} (hle : desc.zslba ≤ wp)
    (hend : wp ≤ desc.zslba + desc.zoneCapacity) :
    Placed ns zid (movedTo ns zid desc wp) := by
  by_cases heq : wp = u64 (zoneToSlba ns zid + desc.zoneCapacity)
  · rw [movedTo_of_eq heq]
    exact ⟨h.zslba_eq, h.capacity_eq, hle, hend, fun _ => rfl,
      fun hempty => by cases hempty⟩
  · rw [movedTo_of_ne heq]
    rw [h.end_eq hlbas hzid] at heq
    refine ⟨h.zslba_eq, h.capacity_eq, hle, hend,
      fun habs => absurd habs heq, fun hempty => ?_⟩
    rw [show desc.state = .empty from hempty] at hactive
    cases hactive

/-- The end of an explicit flush. -/
theorem Placed.le_zrwaEnd (h : Placed ns zid desc)
    (hlbas : ns.zp.nrZones * lbasPerZone ns < 2 ^ 32)
    (hzid : zid < ns.zp.nrZones) {slba : ℕ} (hle : slba ≤ zrwaEnd ns zid desc) :
    slba < desc.zslba + desc.zoneCapacity := by
  have hlt := zone_end_lt hlbas hzid
  have hpos := eight_le_lbasPerZone ns
  have hzslba := h.zslba_eq
  have hcapacity := h.capacity_eq
  have hlast : sub64 (u64 (zoneToSlba ns zid + desc.zoneCapacity)) 1 =
      desc.zslba + desc.zoneCapacity - 1 := by
    rw [h.end_eq hlbas hzid]
    exact sub64_of_le (by omega) (by omega)
  have hmin := hle.trans (min_le_right _ _)
  rw [hlast] at hmin
  omega

/-- A write of blocks that stay in the zone of the write pointer. -/
theorem Placed.write_le (h : Placed ns zid desc)
    (hzid : zid < ns.zp.nrZones) (hactive : isActive desc.state = true)
    {nrLba : ℕ} (hpos : 0 < nrLba) (hle : nrLba ≤ 2 ^ 16)
    (hzone : checkBoundaryError ns desc.wp nrLba = true) :
    desc.wp + nrLba ≤ desc.zslba + desc.zoneCapacity := by
  rw [h.zslba_eq, h.capacity_eq]
  exact of_checkBoundaryError hzid h.start_le (h.wp_lt hactive)
    hpos hle hzone

/-- What the checks of `__zns_write_zrwa` establish. -/
theorem of_znsWriteZrwaCheck {slba nrLba : ℕ}
    (hcheck : znsWriteZrwaCheck ns desc slba nrLba = scSuccess) :
    ns.writeUnitSize ∣ lbaToByte nrLba ∧
      checkBoundaryError ns slba nrLba = true ∧ desc.wp ≤ slba ∧
      lastLba slba nrLba ≤ zrwaImplEnd ns desc.wp := by
  rw [znsWriteZrwaCheck] at hcheck
  split_ifs at hcheck with hunit hboundary hwindow
  · exact absurd hcheck (by decide)
  · exact absurd hcheck (by decide)
  · exact absurd hcheck (by decide)
  · rw [not_or, Nat.not_lt, Nat.not_lt] at hwindow
    exact ⟨Nat.dvd_of_mod_eq_zero (not_not.mp hunit),
      Bool.eq_true_of_not_eq_false hboundary, hwindow⟩

/-- Rounding up to a unit adds less than a unit. -/
theorem roundUp_lt (span : ℕ) {unit : ℕ} (hunit : 0 < unit) :
    (span + unit - 1) / unit * unit < span + unit := by
  have hle := Nat.div_mul_le_self (span + unit - 1) unit
  omega

/-- The write pointer of a zone does not wrap. -/
theorem u64_add_u32 {wp nrLbas : ℕ} (hwp : wp < 2 ^ 60)
    (hnr : nrLbas < 2 ^ 32) : u64 (wp + u32 nrLbas) = wp + nrLbas := by
  rw [u32_of_lt hnr, u64_of_lt (by omega)]

theorem zrwaImplEnd_eq {wp : ℕ} (hzrwa : 1 ≤ ns.zp.lbasPerZrwa)
    (hwp : wp < 2 ^ 60) :
    zrwaImplEnd ns wp = wp + 2 * ns.zp.lbasPerZrwa - 1 := by
  have hlt := lbasPerZrwa_lt ns
  rw [zrwaImplEnd, u32_of_lt (by omega), u64_of_lt (by omega)]
  exact sub64_of_le (by omega) (by omega)

/-- How many blocks an implicit flush covers: the blocks behind the random
write area, rounded up to units; or the rest of the zone; or none. -/
theorem nrLbasFlush_exact {wp elba nrLbas : ℕ} (hwp : wp < 2 ^ 60)
    (helba : elba < 2 ^ 60) (hzrwa : ns.zp.lbasPerZrwafg ≤ ns.zp.lbasPerZrwa)
    (hflush : nrLbasFlush ns zid wp elba = .ok nrLbas) :
    (wp + ns.zp.lbasPerZrwa ≤ elba ∧ 0 < ns.zp.lbasPerZrwafg ∧
      nrLbas = (elba - (wp + ns.zp.lbasPerZrwa) + 1 + ns.zp.lbasPerZrwafg -
        1) / ns.zp.lbasPerZrwafg * ns.zp.lbasPerZrwafg) ∨
    (elba < wp + ns.zp.lbasPerZrwa ∧ elba = zoneToElba ns zid ∧
      nrLbas = u64 (sub64 elba wp + 1)) ∨
    (elba < wp + ns.zp.lbasPerZrwa ∧ elba ≠ zoneToElba ns zid ∧
      nrLbas = 0) := by
  have hsize := lbasPerZrwa_lt ns
  have hstart : u64 (wp + ns.zp.lbasPerZrwa) = wp + ns.zp.lbasPerZrwa :=
    u64_of_lt (by omega)
  rw [nrLbasFlush, hstart] at hflush
  split_ifs at hflush with hbehind hzero hlast
  · left
    have hspan : u64 (elba - (wp + ns.zp.lbasPerZrwa) + 1) =
        elba - (wp + ns.zp.lbasPerZrwa) + 1 := u64_of_lt (by omega)
    rw [hspan] at hflush
    generalize hlen : elba - (wp + ns.zp.lbasPerZrwa) + 1 = span at hflush ⊢
    have hround := roundUp_lt span (Nat.pos_of_ne_zero hzero)
    have hsum : u64 (span + ns.zp.lbasPerZrwafg - 1) =
        span + ns.zp.lbasPerZrwafg - 1 := u64_of_lt (by omega)
    have hrounded : u64 ((span + ns.zp.lbasPerZrwafg - 1) /
        ns.zp.lbasPerZrwafg * ns.zp.lbasPerZrwafg) =
          (span + ns.zp.lbasPerZrwafg - 1) / ns.zp.lbasPerZrwafg *
            ns.zp.lbasPerZrwafg := u64_of_lt (by omega)
    dsimp only at hflush
    rw [hsum, hrounded] at hflush
    exact ⟨hbehind, Nat.pos_of_ne_zero hzero, (Except.ok.inj hflush).symm⟩
  · exact .inr (.inl
      ⟨Nat.lt_of_not_le hbehind, hlast, (Except.ok.inj hflush).symm⟩)
  · exact .inr (.inr
      ⟨Nat.lt_of_not_le hbehind, hlast, (Except.ok.inj hflush).symm⟩)

section

variable {slba nrLba nrLbas : ℕ}
  (hlbas : ns.zp.nrZones * lbasPerZone ns < 2 ^ 32)
  (hzrwa : ns.zp.lbasPerZrwafg ≤ ns.zp.lbasPerZrwa)
  (hzid : zid < ns.zp.nrZones) (hactive : isActive desc.state = true)
  (hzone : lbaToZone ns slba = zid)
  (hcheck : znsWriteZrwaCheck ns desc slba nrLba = scSuccess)
  (hflush : nrLbasFlush ns zid desc.wp (lastLba slba nrLba) = .ok nrLbas)
include hlbas hzrwa hzid hactive hzone hcheck hflush

/-- The last block of an admitted write to a zone with a random write area is
in the zone. -/
theorem Placed.lastLba_mem (h : Placed ns zid desc) :
    zid * lbasPerZone ns ≤ lastLba slba nrLba ∧
      lastLba slba nrLba < zid * lbasPerZone ns + lbasPerZone ns := by
  obtain ⟨-, hboundary, -, hend⟩ := of_znsWriteZrwaCheck hcheck
  have hlt := zone_end_lt hlbas hzid
  have hwp := h.wp_lt hactive
  have hsize := lbasPerZrwa_lt ns
  have hmem := of_decide_eq_true hboundary
  rw [hzone] at hmem
  refine of_lbaToZone ?_ hmem.symm
  rcases Nat.eq_zero_or_pos ns.zp.lbasPerZrwa with hnone | hsome
  · -- Without a random write area the flush would divide by zero.
    have hfg : ns.zp.lbasPerZrwafg = 0 := by omega
    rw [nrLbasFlush, hnone, Nat.add_zero, u64_of_lt (by omega)] at hflush
    by_cases hbehind : desc.wp ≤ lastLba slba nrLba
    · rw [if_pos hbehind, if_pos hfg] at hflush
      cases hflush
    · omega
  · rw [zrwaImplEnd_eq hsome (by omega)] at hend
    omega

/-- An implicit flush ends ahead of the last block written, or it flushes the
zone to its end. -/
theorem Placed.nrLbasFlush_cases (h : Placed ns zid desc) :
    (ns.zp.lbasPerZrwafg ∣ nrLbas ∧
      desc.wp + nrLbas ≤ lastLba slba nrLba) ∨
    desc.wp + nrLbas = desc.zslba + desc.zoneCapacity ∨ nrLbas = 0 := by
  have hlt := zone_end_lt hlbas hzid
  have hwp := h.wp_lt hactive
  have hslba := h.zslba_le
  have hzslba := h.zslba_eq
  have hcapacity := h.capacity_eq
  have hmem := h.lastLba_mem hlbas hzrwa hzid hactive hzone hcheck hflush
  rcases nrLbasFlush_exact (by omega) (by omega) hzrwa hflush with
    ⟨hbehind, hunit, hrounded⟩ | ⟨-, hlast, hrest⟩ | ⟨-, -, hnone⟩
  · left
    have hround := roundUp_lt (lastLba slba nrLba -
      (desc.wp + ns.zp.lbasPerZrwa) + 1) hunit
    rw [hrounded]
    exact ⟨Nat.dvd_mul_left _ _, by omega⟩
  · right
    left
    rw [zoneToElba_eq hlt] at hlast
    have hsub : sub64 (lastLba slba nrLba) desc.wp =
        lastLba slba nrLba - desc.wp := sub64_of_le (by omega) (by omega)
    rw [hsub, u64_of_lt (by omega)] at hrest
    omega
  · right
    right
    exact hnone

/-- An implicit flush stays in the zone. -/
theorem Placed.flush_le (h : Placed ns zid desc) :
    desc.wp + nrLbas ≤ desc.zslba + desc.zoneCapacity := by
  have hmem := h.lastLba_mem hlbas hzrwa hzid hactive hzone hcheck hflush
  have hwp := h.wp_lt hactive
  have hzslba := h.zslba_eq
  have hcapacity := h.capacity_eq
  rcases h.nrLbasFlush_cases hlbas hzrwa hzid hactive hzone hcheck hflush with
    ⟨-, hbehind⟩ | hfull | hzero <;> omega

end

/-- Any move keeps the invariant. -/
theorem Placed.move (h : Placed ns zid desc)
    (hlbas : ns.zp.nrZones * lbasPerZone ns < 2 ^ 32)
    (hzrwa : ns.zp.lbasPerZrwafg ≤ ns.zp.lbasPerZrwa)
    (hzid : zid < ns.zp.nrZones) (hmove : ZoneMove ns zid desc desc') :
    Placed ns zid desc' := by
  have hlt := zone_end_lt hlbas hzid
  have hzslba := h.zslba_eq
  have hcapacity := h.capacity_eq
  have hslba := h.zslba_le
  have hnotEnd : desc.state ≠ .full →
      desc.wp ≠ desc.zslba + desc.zoneCapacity :=
    fun hstate hend => hstate (h.full_of_end hend)
  -- A move to an active state that leaves the write pointer.
  have hopen : ∀ state zrwav, isOpened state = true → desc.state ≠ .full →
      Placed ns zid { desc with state := state, zrwav := zrwav } := by
    intro state zrwav hopened hstate
    refine ⟨hzslba, hcapacity, hslba, h.wp_le,
      fun hend => absurd hend (hnotEnd hstate), ?_⟩
    rintro rfl
    cases hopened
  cases hmove with
  | stay => exact h
  | close hstate =>
      refine ⟨hzslba, hcapacity, hslba, h.wp_le, fun hend => ?_,
        fun hempty => by cases hempty⟩
      rw [h.full_of_end hend] at hstate
      cases hstate
  | finish hstate =>
      exact ⟨hzslba, hcapacity, hslba, h.wp_le, fun _ => rfl,
        fun hempty => by cases hempty⟩
  | openEmpty state zrwav hempty hopened =>
      exact hopen state zrwav hopened (by simp [hempty])
  | openActive state hactive hopened =>
      apply hopen state desc.zrwav hopened
      intro hfull
      rw [hfull] at hactive
      cases hactive
  | reset hstate =>
      have hpos := eight_le_lbasPerZone ns
      refine ⟨hzslba, hcapacity, le_rfl, Nat.le_add_right _ _, ?_,
        fun _ => ⟨rfl, rfl⟩⟩
      dsimp only
      omega
  | offline hstate =>
      refine ⟨hzslba, hcapacity, hslba, h.wp_le, fun hend => ?_,
        fun hempty => by cases hempty⟩
      rw [h.full_of_end hend] at hstate
      cases hstate
  | flush slba hactive hzrwav hle hend =>
      have hbehind := h.le_zrwaEnd hlbas hzid hend
      have hwp : u64 (slba + 1) = slba + 1 := u64_of_lt (by omega)
      rw [hwp]
      exact h.movedTo hlbas hzid hactive (by omega) (by omega)
  | write nrLba hopened hzrwav hpos hle hzone =>
      have hactive := isActive_of_isOpened hopened
      have hend := h.write_le hzid hactive hpos hle hzone
      rw [u64_add_u32 (by omega) (by omega)]
      exact h.movedTo hlbas hzid hactive (by omega) hend
  | writeZrwa slba nrLba nrLbas hopened hzrwav hzone hpos hle hcheck hflush =>
      have hactive := isActive_of_isOpened hopened
      have hend := h.flush_le hlbas hzrwa hzid hactive hzone hcheck hflush
      rw [u64_add_u32 (by omega) (by omega)]
      exact h.movedTo hlbas hzid hactive (by omega) hend

end

/-! ## Runs -/

section

variable {ns : ZnsNamespace}

theorem initDescriptor_placed (zid : ℕ) :
    Placed ns zid (initDescriptor ns zid) := by
  have hpos := eight_le_lbasPerZone ns
  have hbytes : byteToLba ns.zp.zoneSize = lbasPerZone ns := by
    rw [lbasPerZone, ns.secsz_eq]
    rfl
  refine ⟨congrArg (zid * ·) hbytes, hbytes, le_rfl, Nat.le_add_right _ _, ?_,
    fun _ => ⟨rfl, rfl⟩⟩
  rw [← hbytes] at hpos
  intro hend
  have hzero : byteToLba ns.zp.zoneSize = 0 :=
    Nat.left_eq_add.mp hend
  omega

/-- In a namespace of fewer than `2 ^ 32` blocks whose flush unit is no longer
than its random write area, every zone of every reachable state is placed. -/
theorem reachable_placed
    (hlbas : ns.zp.nrZones * lbasPerZone ns < 2 ^ 32)
    (hzrwa : ns.zp.lbasPerZrwafg ≤ ns.zp.lbasPerZrwa) {state : ZnsState}
    (hreach : Reachable (znsMachine ns) state) :
    ∀ zid < ns.zp.nrZones, Placed ns zid (state.ftl.zoneDescs zid) :=
  reachable_zones (Placed ns) (fun zid _ => initDescriptor_placed zid)
    (fun _ hzid _ _ h hmove => h.move hlbas hzrwa hzid hmove) hreach

/-- The write pointer of a zone stays in the zone, reaches its end only in the
state `FULL`, and is at the start of an empty zone, which has no random write
area. -/
theorem wp_placed (hlbas : ns.zp.nrZones * lbasPerZone ns < 2 ^ 32)
    (_hfg : 1 ≤ ns.zp.lbasPerZrwafg)
    (hzrwa : ns.zp.lbasPerZrwafg ≤ ns.zp.lbasPerZrwa) {state : ZnsState}
    (hreach : Reachable (znsMachine ns) state) :
    ∀ zid < ns.zp.nrZones,
      (state.ftl.zoneDescs zid).zslba ≤ (state.ftl.zoneDescs zid).wp ∧
      (state.ftl.zoneDescs zid).wp ≤ (state.ftl.zoneDescs zid).zslba +
        (state.ftl.zoneDescs zid).zoneCapacity ∧
      ((state.ftl.zoneDescs zid).wp = (state.ftl.zoneDescs zid).zslba +
        (state.ftl.zoneDescs zid).zoneCapacity →
          (state.ftl.zoneDescs zid).state = .full) ∧
      ((state.ftl.zoneDescs zid).state = .empty →
        (state.ftl.zoneDescs zid).wp = (state.ftl.zoneDescs zid).zslba ∧
          (state.ftl.zoneDescs zid).zrwav = false) := by
  intro zid hzid
  have h := reachable_placed hlbas hzrwa hreach zid hzid
  exact ⟨h.zslba_le, h.wp_le, h.full_of_end, h.of_empty⟩

/-- The host writes the first half of zone `1`, which has no random write
area. -/
def writeSecondZone : ZnsAction :=
  .write ⟨1, 0, .write, 16, 7, seven_lt_bits, false⟩ ⟨0, 0, 0⟩

theorem wp_placed_written :
    ∃ state : ZnsState, ∀ zid < (twoZones 2).zp.nrZones,
      (state.ftl.zoneDescs zid).wp = zid * 16 + 8 ∧
      (state.ftl.zoneDescs zid).zslba ≤ (state.ftl.zoneDescs zid).wp ∧
      (state.ftl.zoneDescs zid).wp ≤ (state.ftl.zoneDescs zid).zslba +
        (state.ftl.zoneDescs zid).zoneCapacity ∧
      ((state.ftl.zoneDescs zid).wp = (state.ftl.zoneDescs zid).zslba +
        (state.ftl.zoneDescs zid).zoneCapacity →
          (state.ftl.zoneDescs zid).state = .full) ∧
      ((state.ftl.zoneDescs zid).state = .empty →
        (state.ftl.zoneDescs zid).wp = (state.ftl.zoneDescs zid).zslba ∧
          (state.ftl.zoneDescs zid).zrwav = false) := by
  have hrun : (((znsMachine (twoZones 2)).run
      [openZrwa (twoZones 2) 0, writeFirstHalf, writeSecondZone,
        flushFirstHalf] (twoZonesStart 2)).map fun s =>
        ((s.ftl.zoneDescs 0).wp, (s.ftl.zoneDescs 1).wp)) =
      some (8, 24) := by
    decide +kernel
  obtain ⟨state, hstate, hvalues⟩ := Option.map_eq_some_iff.mp hrun
  obtain ⟨hfirst, hsecond⟩ := Prod.mk.inj hvalues
  have hreach : Reachable (znsMachine (twoZones 2)) state :=
    .run (.start (twoZonesStart_init 2)) hstate
  refine ⟨state, fun zid hzid => ⟨?_, wp_placed (by decide) (by decide)
    (by decide) hreach zid hzid⟩⟩
  have hlt : zid < 2 := hzid
  interval_cases zid
  · exact hfirst
  · exact hsecond

end

end NvmeVirt.WritePointers
