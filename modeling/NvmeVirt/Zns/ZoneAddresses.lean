import NvmeVirt.Zns.OneshotPages

/-!
# The addresses of a zone

The zone of a block is found by division, the first block of a zone by a
product of 32 bits, and `__init_descriptor` adds the lengths of the zones up in
64 bits.  All three agree exactly for the zones that end below LBA `2 ^ 32`.
-/

namespace NvmeVirt.ZoneAddresses

open NvmeVirt.Kernel
open NvmeVirt.Layout
open NvmeVirt.OneshotPages
open NvmeVirt.Transition
open NvmeVirt.WritePointers
open NvmeVirt.Zones

section

variable (ns : ZnsNamespace)

/-- `zslba` in the loop of `__init_descriptor`, ahead of round `zid`. -/
def storedZslba : ℕ → ℕ
  | 0 => 0
  | zid + 1 => u64 (storedZslba zid + byteToLba ns.zp.zoneSize)

/-- The block is counted to the zone, and so is its page. -/
def CountedTo (zid lba : ℕ) : Prop :=
  lbaToZone ns lba = zid ∧ lpnToZone ns (lbaToLpn ns lba) = zid

/-- The helpers agree on a zone: it starts where its descriptor says, its first
and last block and those in between are counted to it, and no other block of
the namespace is. -/
structure ZoneAgrees (zid : ℕ) : Prop where
  slba_eq : zoneToSlba ns zid = storedZslba ns zid
  inside : ∀ lba, lba < 2 ^ 64 → zoneToSlba ns zid ≤ lba →
    lba ≤ zoneToElba ns zid → CountedTo ns zid lba
  only : ∀ lba, lba < byteToLba ns.capacity → CountedTo ns zid lba →
    zoneToSlba ns zid ≤ lba ∧ lba ≤ zoneToElba ns zid

variable {ns} {zid lba : ℕ}

theorem countedTo_iff : CountedTo ns zid lba ↔ lbaToZone ns lba = zid := by
  rw [CountedTo, lpnToZone_lbaToLpn, and_self]

theorem byteToLba_zoneSize (ns : ZnsNamespace) :
    byteToLba ns.zp.zoneSize = lbasPerZone ns := by
  rw [byteToLba, lbasPerZone, ns.secsz_eq]
  rfl

/-- What `znsInitParams` computes, and the assertion on the capacity. -/
theorem zp_eq_znsParamsOf (ns : ZnsNamespace) :
    ns.zp = znsParamsOf ns.config ns.toSsdParams ns.capacity ∧
      ns.zp.zoneSize ∣ ns.capacity := by
  have h := ns.zp_eq
  rw [znsInitParams] at h
  split_ifs at h
  · cases h
  · obtain ⟨_, hcapacity, h⟩ := bind_eq_ok h
    obtain ⟨_, -, h⟩ := bind_eq_ok h
    have hzp : znsParamsOf ns.config ns.toSsdParams ns.capacity = ns.zp :=
      Except.ok.inj h
    rw [hzp] at hcapacity
    exact ⟨hzp.symm, Nat.dvd_of_mod_eq_zero (of_nvmevAssert hcapacity)⟩

/-- The zones lie within the capacity. -/
theorem nrZones_le (ns : ZnsNamespace) :
    ns.zp.nrZones ≤ ns.capacity / ns.zp.zoneSize := by
  have hzp := (zp_eq_znsParamsOf ns).1
  have hpos := zoneSize_pos ns
  rw [hzp] at hpos ⊢
  exact (Nat.mod_le _ _).trans
    (Nat.div_le_div_left (Nat.mod_le ns.config.zoneSize _) hpos)

/-- The blocks of the namespace, zone by zone. -/
theorem byteToLba_capacity (ns : ZnsNamespace) :
    byteToLba ns.capacity =
      ns.capacity / ns.zp.zoneSize * lbasPerZone ns := by
  obtain ⟨zones, hzones⟩ := (zp_eq_znsParamsOf ns).2
  have hbytes : ns.zp.zoneSize = lbasPerZone ns * 512 := by
    rw [zoneSize_eq, lbasPerZone_eq]
    ring
  rw [hzones, Nat.mul_div_cancel_left _ (zoneSize_pos ns), hbytes, byteToLba,
    Nat.mul_right_comm]
  exact (Nat.mul_div_cancel _ (by decide)).trans (Nat.mul_comm _ _)

/-- The loop stores the exact start of every zone. -/
theorem storedZslba_eq (hzid : zid ≤ ns.zp.nrZones) :
    storedZslba ns zid = zid * lbasPerZone ns := by
  have hsize := lbasPerZone_le ns
  have hzones := nrZones_lt ns
  induction zid with
  | zero => exact (Nat.zero_mul _).symm
  | succ zid ih =>
      have hfits : (zid + 1) * lbasPerZone ns < 2 ^ 64 :=
        calc (zid + 1) * lbasPerZone ns ≤ 2 ^ 32 * 2 ^ 23 :=
              Nat.mul_le_mul (hzid.trans hzones.le) hsize
          _ < 2 ^ 64 := by decide
      rw [storedZslba, ih (Nat.le_of_succ_le hzid), byteToLba_zoneSize,
        ← Nat.succ_mul]
      exact u64_of_lt hfits

/-- It is the start that the descriptors are set up with. -/
theorem storedZslba_eq_zslba (hzid : zid < ns.zp.nrZones) :
    storedZslba ns zid = (initDescriptor ns zid).zslba := by
  rw [storedZslba_eq hzid.le, initDescriptor, byteToLba_zoneSize]

/-- A block of the namespace is counted to the zone it lies in. -/
theorem countedTo_iff_mem (hzones : ns.capacity / ns.zp.zoneSize < 2 ^ 32)
    (hlba : lba < byteToLba ns.capacity) :
    CountedTo ns zid lba ↔ zid * lbasPerZone ns ≤ lba ∧
      lba < zid * lbasPerZone ns + lbasPerZone ns := by
  have hpos : 0 < lbasPerZone ns :=
    Nat.lt_of_lt_of_le (by decide) (eight_le_lbasPerZone ns)
  have hquotient : lba / lbasPerZone ns < 2 ^ 32 := by
    rw [byteToLba_capacity] at hlba
    exact (Nat.div_lt_of_lt_mul (by rwa [Nat.mul_comm])).trans hzones
  rw [countedTo_iff, lbaToZone, u32_of_lt hquotient, Nat.div_eq_iff hpos,
    Nat.le_sub_one_iff_lt (by omega)]

theorem LowZone.agrees (hzones : ns.capacity / ns.zp.zoneSize < 2 ^ 32)
    (hzid : zid < ns.zp.nrZones) (hlow : LowZone ns zid) :
    ZoneAgrees ns zid := by
  have hpos := eight_le_lbasPerZone ns
  have hslba : zoneToSlba ns zid = zid * lbasPerZone ns :=
    zoneToSlba_eq (lt_of_le_of_lt (Nat.le_add_right _ _) hlow)
  have helba := zoneToElba_eq hlow
  refine ⟨hslba.trans (storedZslba_eq hzid.le).symm, ?_, ?_⟩
  · intro lba _ hle hge
    rw [hslba] at hle
    rw [helba] at hge
    exact countedTo_iff.mpr (lbaToZone_of_mem hzid hle (by omega))
  · intro lba hlba hcounted
    obtain ⟨hle, hlt⟩ := (countedTo_iff_mem hzones hlba).mp hcounted
    rw [hslba, helba]
    exact ⟨hle, by omega⟩

/-- A zone that ends behind LBA `2 ^ 32` ends elsewhere for `zone_to_elba`. -/
theorem ZoneAgrees.low (hzones : ns.capacity / ns.zp.zoneSize < 2 ^ 32)
    (hzid : zid < ns.zp.nrZones) (hagrees : ZoneAgrees ns zid) :
    LowZone ns zid := by
  by_contra hhigh
  have hpos := eight_le_lbasPerZone ns
  have hbound := zone_lbas_lt hzid
  have hslba := hagrees.slba_eq.trans (storedZslba_eq hzid.le)
  have hinside : zid * lbasPerZone ns < byteToLba ns.capacity := by
    rw [byteToLba_capacity]
    exact Nat.mul_lt_mul_of_pos_right (hzid.trans_le (nrZones_le ns))
      (by omega)
  have hself : CountedTo ns zid (zid * lbasPerZone ns) :=
    (countedTo_iff_mem hzones hinside).mpr ⟨le_rfl, by omega⟩
  have hend := (hagrees.only _ hinside hself).2
  -- the last block is none of the zone, so the next zone is counted to it
  have hbehind : zid * lbasPerZone ns + lbasPerZone ns ≤
      zoneToElba ns zid := by
    by_contra hnot
    exact zoneToElba_of_not_low hzid hhigh hend (Nat.lt_of_not_le hnot) rfl
  have hnext := countedTo_iff.mp (hagrees.inside
    (zid * lbasPerZone ns + lbasPerZone ns) (by omega)
    (by rw [hslba]; omega) hbehind)
  rw [lbaToZone, ← Nat.succ_mul, Nat.mul_div_cancel _ (by omega)] at hnext
  have hlt := hzid.trans (nrZones_lt ns)
  rw [u32] at hnext
  omega

end

/-- The helpers agree on exactly the zones that end below LBA `2 ^ 32`. -/
theorem zoneAgrees_iff {ns : ZnsNamespace} {zid : ℕ}
    (hzones : ns.capacity / ns.zp.zoneSize < 2 ^ 32)
    (hzid : zid < ns.zp.nrZones) : ZoneAgrees ns zid ↔ LowZone ns zid :=
  ⟨ZoneAgrees.low hzones hzid, LowZone.agrees hzones hzid⟩

/-! ## A namespace of four terabytes -/

theorem fourTerabytes_pages : 16383 < 2 ^ 16 := by decide

theorem fourTerabytes_capacity : 2 ^ 42 % u32 (2 ^ 31) = 0 := by
  decide +kernel

theorem fourTerabytes_pgsz : u32 (2 ^ 31) % 4096 = 0 := by decide +kernel

/-- Zones of two gigabytes. -/
def fourTerabytes : ZnsNamespace where
  toGeometry := gigaDie ⟨16383, fourTerabytes_pages⟩
  config := gigaZoneConfig
  capacity := 2 ^ 42
  zp := znsParamsOf gigaZoneConfig
    (gigaDie ⟨16383, fourTerabytes_pages⟩).toSsdParams (2 ^ 42)
  zp_eq := znsInitParams_of gigaZoneConfig_pos fourTerabytes_capacity
    fourTerabytes_pgsz
  diesPerZone_pos := twoZoneConfig_dies
  writeUnitSize_pos := twoZoneDie_unit

theorem zoneAgrees_iff_first : ZoneAgrees fourTerabytes 0 :=
  (zoneAgrees_iff (by decide +kernel) (by decide +kernel)).mpr
    (by decide +kernel)

/-- The zone that starts at LBA `2 ^ 32` starts at LBA 0 for
`zone_to_slba`. -/
theorem middle_zone_at_zero :
    fourTerabytes.capacity / fourTerabytes.zp.zoneSize < 2 ^ 32 ∧
      2 ^ 10 < fourTerabytes.zp.nrZones ∧
      storedZslba fourTerabytes (2 ^ 10) = 2 ^ 32 ∧
      zoneToSlba fourTerabytes (2 ^ 10) = 0 ∧
      ¬ ZoneAgrees fourTerabytes (2 ^ 10) := by
  have hzid : 2 ^ 10 < fourTerabytes.zp.nrZones := by decide +kernel
  have hslba : zoneToSlba fourTerabytes (2 ^ 10) = 0 := by decide +kernel
  have hstored : storedZslba fourTerabytes (2 ^ 10) = 2 ^ 32 := by
    rw [storedZslba_eq hzid.le]
    decide +kernel
  refine ⟨by decide +kernel, hzid, hstored, hslba, fun hagrees => ?_⟩
  have hsame := hagrees.slba_eq
  rw [hslba, hstored] at hsame
  exact absurd hsame (by decide)

end NvmeVirt.ZoneAddresses
