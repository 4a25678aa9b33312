import Mathlib.Data.Nat.ModEq
import Mathlib.Data.Set.Image
import NvmeVirt.Zns.ZoneAddresses

/-!
# The dies of a zone

The pages of a zone go round `dies_per_zone` consecutive dies, a oneshot page
at a time.  Where the dies of a zone divide the dies of the device, the dies
fall into stripes and every zone lies on one of them.
-/

namespace NvmeVirt.Stripes

open NvmeVirt.Kernel
open NvmeVirt.Layout
open NvmeVirt.MixedRadix
open NvmeVirt.OneshotPages
open NvmeVirt.ReadWrite
open NvmeVirt.ZoneAddresses
open NvmeVirt.Zones

section

variable (ns : ZnsNamespace)

/-- Pages of the namespace. -/
def nrPages : ℕ := ns.capacity / ns.pgsz

/-- The number of a page's oneshot page within its zone. -/
def oneshotIndex (lpn : ℕ) : ℕ := lpn % pgsPerZone ns / ns.pgsPerOneshotpg

/-- The channel and the lun of a page. -/
def dieOf (lpn : ℕ) : ℕ × ℕ := ((lpnToPpa ns lpn).ch, (lpnToPpa ns lpn).lun)

/-- The dies that hold the pages of a zone. -/
def zoneDies (zid : ℕ) : Set (ℕ × ℕ) :=
  Set.image (dieOf ns) {lpn | lpn < nrPages ns ∧ lpnToZone ns lpn = zid}

/-- Every page has a die, a zone goes round its dies by oneshot pages, and two
zones share all of their dies or none. -/
structure Striped : Prop where
  die_lt : ∀ lpn, lpn < nrPages ns →
    (lpnToPpa ns lpn).ch < ns.nchs ∧ (lpnToPpa ns lpn).lun < ns.lunsPerCh
  die_eq_iff : ∀ lpn lpn', lpn < nrPages ns → lpn' < nrPages ns →
    lpnToZone ns lpn = lpnToZone ns lpn' →
    (dieOf ns lpn = dieOf ns lpn' ↔ Nat.ModEq ns.zp.diesPerZone
      (oneshotIndex ns lpn) (oneshotIndex ns lpn'))
  zones : ∀ zid zid', zoneDies ns zid = zoneDies ns zid' ∨
    zoneDies ns zid ∩ zoneDies ns zid' = ∅

/-- The stripe of a zone, and the number of a page's die. -/
def stripeOf (zid : ℕ) : ℕ := zid % (ns.ttLuns / ns.zp.diesPerZone)

def dieNr (lpn : ℕ) : ℕ :=
  stripeOf ns (lpnToZone ns lpn) * ns.zp.diesPerZone +
    oneshotIndex ns lpn % ns.zp.diesPerZone

variable {ns} {zid zid' lpn lpn' : ℕ}

theorem lpnToZone_eq (hlpn : lpn < 2 ^ 32) :
    lpnToZone ns lpn = lpn / pgsPerZone ns :=
  u32_of_lt ((Nat.div_le_self _ _).trans_lt hlpn)

/-- The offset `__lpn_to_ppa` computes. -/
theorem off_eq (hlpn : lpn < 2 ^ 32) :
    sub64 lpn (zoneToSlpn ns (lpnToZone ns lpn)) = lpn % pgsPerZone ns := by
  have hzone : lpn / pgsPerZone ns < 2 ^ 32 :=
    (Nat.div_le_self _ _).trans_lt hlpn
  have hbase : lpn / pgsPerZone ns * pgsPerZone ns ≤ lpn := Nat.div_mul_le_self _ _
  rw [lpnToZone_eq hlpn, zoneToSlpn, u32_of_lt hzone,
    u32_of_lt (hbase.trans_lt hlpn), sub64_of_le hbase (by omega)]
  have hsplit := Nat.div_add_mod' lpn (pgsPerZone ns)
  omega

theorem ttLuns_pos (ns : ZnsNamespace) : 0 < ns.ttLuns := by
  rw [ns.ttLuns_eq]
  exact Nat.mul_pos ns.lunsPerCh_pos ns.nchs_pos

theorem ttLuns_le (ns : ZnsNamespace) : ns.ttLuns ≤ 2 ^ 16 := by
  calc ns.ttLuns = ns.lunsPerCh * ns.nchs := ns.ttLuns_eq
    _ ≤ 2 ^ lunBits * 2 ^ chBits := Nat.mul_le_mul ns.lunsPerCh_le ns.nchs_le
    _ = 2 ^ 16 := by decide

section

variable (hdvd : ns.zp.diesPerZone ∣ ns.ttLuns)
include hdvd

theorem stripeOf_lt (zid : ℕ) :
    stripeOf ns zid < ns.ttLuns / ns.zp.diesPerZone :=
  Nat.mod_lt _ (Nat.div_pos (Nat.le_of_dvd (ttLuns_pos ns) hdvd)
    ns.diesPerZone_pos)

theorem dieNr_lt (lpn : ℕ) : dieNr ns lpn < ns.ttLuns :=
  calc dieNr ns lpn < ns.ttLuns / ns.zp.diesPerZone * ns.zp.diesPerZone :=
        digit_lt (stripeOf_lt hdvd _) (Nat.mod_lt _ ns.diesPerZone_pos)
    _ = ns.ttLuns := Nat.div_mul_cancel hdvd

/-- The first die of a zone. -/
theorem sdie_eq (hzid : zid < 2 ^ 32) :
    u32 (u64 (zid * ns.zp.diesPerZone) % ns.ttLuns) =
      stripeOf ns zid * ns.zp.diesPerZone := by
  have hdies : ns.zp.diesPerZone ≤ 2 ^ 16 :=
    (Nat.le_of_dvd (ttLuns_pos ns) hdvd).trans (ttLuns_le ns)
  have hfits : zid * ns.zp.diesPerZone < 2 ^ 64 :=
    calc zid * ns.zp.diesPerZone ≤ 2 ^ 32 * 2 ^ 16 :=
          Nat.mul_le_mul hzid.le hdies
      _ < 2 ^ 64 := by decide
  have hmod := Nat.mod_lt (zid * ns.zp.diesPerZone) (ttLuns_pos ns)
  have hluns := ttLuns_le ns
  rw [u64_of_lt hfits, u32_of_lt (by omega), ← Nat.div_mul_cancel hdvd]
  exact Nat.mul_mod_mul_right _ _ _

/-- The die of a page, split into channel and lun. -/
theorem dieOf_eq (hlpn : lpn < 2 ^ 32) :
    dieOf ns lpn = (dieNr ns lpn % ns.nchs, dieNr ns lpn / ns.nchs) := by
  have hdie := dieNr_lt hdvd lpn
  have hluns := ttLuns_le ns
  have hch : dieNr ns lpn % ns.nchs < 2 ^ chBits :=
    (Nat.mod_lt _ ns.nchs_pos).trans_le ns.nchs_le
  have hlun : dieNr ns lpn / ns.nchs < 2 ^ lunBits := by
    rw [ns.ttLuns_eq, Nat.mul_comm] at hdie
    exact (Nat.div_lt_of_lt_mul hdie).trans_le ns.lunsPerCh_le
  have hzone : lpnToZone ns lpn < 2 ^ 32 := u32_lt _
  rw [dieOf, lpnToPpa]
  dsimp only
  rw [off_eq hlpn, sdie_eq hdvd hzone]
  change (dieToChannel ns (u32 (dieNr ns lpn)) % 2 ^ chBits,
    dieToLun ns (u32 (dieNr ns lpn)) % 2 ^ lunBits) = _
  rw [u32_of_lt (by omega), dieToChannel, dieToLun, Nat.mod_eq_of_lt hch,
    Nat.mod_eq_of_lt hlun]

theorem dieOf_eq_iff_dieNr (hlpn : lpn < 2 ^ 32) (hlpn' : lpn' < 2 ^ 32) :
    dieOf ns lpn = dieOf ns lpn' ↔ dieNr ns lpn = dieNr ns lpn' := by
  rw [dieOf_eq hdvd hlpn, dieOf_eq hdvd hlpn', Prod.mk.injEq]
  constructor
  · rintro ⟨hch, hlun⟩
    rw [← Nat.div_add_mod' (dieNr ns lpn) ns.nchs, hch, hlun,
      Nat.div_add_mod']
  · intro heq
    rw [heq]
    exact ⟨rfl, rfl⟩

/-- A die is on one stripe, at one place of it. -/
theorem dieOf_eq_iff (hlpn : lpn < 2 ^ 32) (hlpn' : lpn' < 2 ^ 32) :
    dieOf ns lpn = dieOf ns lpn' ↔
      stripeOf ns (lpnToZone ns lpn) = stripeOf ns (lpnToZone ns lpn') ∧
      Nat.ModEq ns.zp.diesPerZone (oneshotIndex ns lpn)
        (oneshotIndex ns lpn') := by
  have hslot := Nat.mod_lt (oneshotIndex ns lpn) ns.diesPerZone_pos
  have hslot' := Nat.mod_lt (oneshotIndex ns lpn') ns.diesPerZone_pos
  rw [dieOf_eq_iff_dieNr hdvd hlpn hlpn', dieNr, dieNr]
  constructor
  · exact digit_inj hslot hslot'
  · rintro ⟨hstripe, hmod⟩
    rw [hstripe, hmod]

/-- A page is on a die of the device, whatever its number. -/
theorem die_lt (lpn : ℕ) :
    (lpnToPpa ns lpn).ch < ns.nchs ∧ (lpnToPpa ns lpn).lun < ns.lunsPerCh := by
  generalize hslot : sub64 lpn (zoneToSlpn ns (lpnToZone ns lpn)) /
    ns.pgsPerOneshotpg % ns.zp.diesPerZone = slot
  have hlt : slot < ns.zp.diesPerZone := by
    rw [← hslot]
    exact Nat.mod_lt _ ns.diesPerZone_pos
  have hdie : stripeOf ns (lpnToZone ns lpn) * ns.zp.diesPerZone + slot <
      ns.ttLuns :=
    (digit_lt (stripeOf_lt hdvd _) hlt).trans_eq (Nat.div_mul_cancel hdvd)
  generalize hnr : stripeOf ns (lpnToZone ns lpn) * ns.zp.diesPerZone + slot =
    die at hdie
  have hzone : lpnToZone ns lpn < 2 ^ 32 := u32_lt _
  have hluns := ttLuns_le ns
  have hch : die % ns.nchs < ns.nchs := Nat.mod_lt _ ns.nchs_pos
  have hlun : die / ns.nchs < ns.lunsPerCh := by
    rw [ns.ttLuns_eq, Nat.mul_comm] at hdie
    exact Nat.div_lt_of_lt_mul hdie
  rw [lpnToPpa]
  dsimp only
  rw [hslot, sdie_eq hdvd hzone, hnr, u32_of_lt (by omega), dieToChannel,
    dieToLun]
  exact ⟨(Nat.mod_le _ _).trans_lt hch, (Nat.mod_le _ _).trans_lt hlun⟩

end

/-- The namespace is a number of whole zones. -/
theorem nrPages_eq (ns : ZnsNamespace) :
    nrPages ns = ns.capacity / ns.zp.zoneSize * pgsPerZone ns := by
  obtain ⟨zones, hzones⟩ := (zp_eq_znsParamsOf ns).2
  rw [nrPages, pgsz_eq_4096, hzones, Nat.mul_div_cancel_left _ (zoneSize_pos ns),
    zoneSize_eq, Nat.mul_assoc, Nat.mul_div_cancel_left _ (by decide),
    Nat.mul_comm]

/-- The page of another zone of the namespace at the same offset. -/
theorem exists_same_offset (hpages : nrPages ns < 2 ^ 32) (lpn : ℕ)
    (hlpn' : lpn' < nrPages ns) :
    ∃ page, page < nrPages ns ∧ lpnToZone ns page = lpnToZone ns lpn' ∧
      oneshotIndex ns page = oneshotIndex ns lpn := by
  have hoff := Nat.mod_lt lpn (pgsPerZone_pos ns)
  have hzone : lpn' / pgsPerZone ns < ns.capacity / ns.zp.zoneSize := by
    rw [nrPages_eq, Nat.mul_comm] at hlpn'
    exact Nat.div_lt_of_lt_mul hlpn'
  have hpage : lpn' / pgsPerZone ns * pgsPerZone ns + lpn % pgsPerZone ns <
      nrPages ns := by
    rw [nrPages_eq]
    exact digit_lt hzone hoff
  refine ⟨lpn' / pgsPerZone ns * pgsPerZone ns + lpn % pgsPerZone ns,
    hpage, ?_, ?_⟩
  · rw [lpnToZone_eq (hpage.trans hpages), lpnToZone_eq (hlpn'.trans hpages),
      digit_div hoff]
  · rw [oneshotIndex, digit_mod hoff]
    rfl

/-- Zones on one stripe share their dies. -/
theorem zoneDies_subset (hdvd : ns.zp.diesPerZone ∣ ns.ttLuns)
    (hpages : nrPages ns < 2 ^ 32)
    (hstripe : stripeOf ns zid = stripeOf ns zid')
    (hmem : (zoneDies ns zid').Nonempty) :
    zoneDies ns zid ⊆ zoneDies ns zid' := by
  rintro die ⟨lpn, ⟨hlpn, hzone⟩, rfl⟩
  obtain ⟨_, lpn', ⟨hlpn', hzone'⟩, rfl⟩ := hmem
  obtain ⟨page, hpage, hpageZone, hindex⟩ :=
    exists_same_offset hpages lpn hlpn'
  refine ⟨page, ⟨hpage, hpageZone.trans hzone'⟩, ?_⟩
  rw [dieOf_eq_iff hdvd (hpage.trans hpages) (hlpn.trans hpages), hpageZone,
    hzone', hzone, hindex]
  exact ⟨hstripe.symm, rfl⟩

/-- Zones on different stripes share none. -/
theorem zoneDies_disjoint (hdvd : ns.zp.diesPerZone ∣ ns.ttLuns)
    (hpages : nrPages ns < 2 ^ 32)
    (hstripe : stripeOf ns zid ≠ stripeOf ns zid') :
    zoneDies ns zid ∩ zoneDies ns zid' = ∅ := by
  rw [Set.eq_empty_iff_forall_notMem]
  rintro _ ⟨⟨lpn, ⟨hlpn, hzone⟩, rfl⟩, lpn', ⟨hlpn', hzone'⟩, heq⟩
  have hsame := ((dieOf_eq_iff hdvd (hlpn'.trans hpages)
    (hlpn.trans hpages)).mp heq).1
  rw [hzone, hzone'] at hsame
  exact hstripe hsame.symm

theorem zoneDies_eq_or_disjoint (hdvd : ns.zp.diesPerZone ∣ ns.ttLuns)
    (hpages : nrPages ns < 2 ^ 32) (zid zid' : ℕ) :
    zoneDies ns zid = zoneDies ns zid' ∨
      zoneDies ns zid ∩ zoneDies ns zid' = ∅ := by
  by_cases hstripe : stripeOf ns zid = stripeOf ns zid'
  · rcases Set.eq_empty_or_nonempty (zoneDies ns zid) with hnone | hsome
    · rw [hnone]
      exact Or.inr (Set.empty_inter _)
    rcases Set.eq_empty_or_nonempty (zoneDies ns zid') with hnone' | hsome'
    · rw [hnone']
      exact Or.inr (Set.inter_empty _)
    exact Or.inl (Set.Subset.antisymm
      (zoneDies_subset hdvd hpages hstripe hsome')
      (zoneDies_subset hdvd hpages hstripe.symm hsome))
  · exact Or.inr (zoneDies_disjoint hdvd hpages hstripe)

end

/-- The zones of a namespace of fewer than `2 ^ 32` pages are striped over its
dies. -/
theorem striped_of_dvd {ns : ZnsNamespace}
    (hdvd : ns.zp.diesPerZone ∣ ns.ttLuns) (hpages : nrPages ns < 2 ^ 32) :
    Striped ns where
  die_lt := fun lpn _ => die_lt hdvd lpn
  die_eq_iff := by
    intro lpn lpn' hlpn hlpn' hzone
    rw [dieOf_eq_iff hdvd (hlpn.trans hpages) (hlpn'.trans hpages), hzone]
    exact and_iff_right rfl
  zones := zoneDies_eq_or_disjoint hdvd hpages

/-- Four zones of sixteen pages, each on two of the four dies. -/
def stripedConfig : ZnsConfig where
  zoneSize := 65536
  diesPerZone := 2
  maxZrwaZones := 0
  zoneWbSize := 65536
  zrwaSize := 0
  zrwafgSize := 0
  zrwaBufferSize := 0

theorem stripedConfig_pos : u32 65536 ≠ 0 := by decide +kernel

theorem stripedConfig_capacity : 262144 % u32 65536 = 0 := by decide +kernel

theorem stripedConfig_pgsz : u32 65536 % 4096 = 0 := by decide +kernel

theorem stripedConfig_dies : 0 < u32 2 := by decide

def stripedZones : ZnsNamespace where
  toGeometry := fourDies
  config := stripedConfig
  capacity := 262144
  zp := znsParamsOf stripedConfig fourDies.toSsdParams 262144
  zp_eq := znsInitParams_of stripedConfig_pos stripedConfig_capacity
    stripedConfig_pgsz
  diesPerZone_pos := stripedConfig_dies
  writeUnitSize_pos := twoZoneDie_unit

theorem striped_stripedZones : Striped stripedZones :=
  striped_of_dvd (by decide) (by decide)

/-- The dies of the first oneshot pages of the first two zones. -/
example : ([0, 2, 4, 16, 18, 20].map (dieOf stripedZones)) =
    [(0, 0), (1, 0), (0, 0), (0, 1), (1, 1), (0, 1)] := by
  decide

end NvmeVirt.Stripes
