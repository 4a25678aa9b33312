import NvmeVirt.Hybrid.DerivedCounts

/-!
# The block shapes and the NAND blocks

The write pointers follow the block shapes of the macros, while the NAND
blocks, `maptbl` and `rmap` have the shape that `ssd_init_params` calculates
from the capacity.  The former stays inside the latter on large partitions
only.
-/

namespace NvmeVirt.Shapes

open NvmeVirt.DerivedCounts
open NvmeVirt.HybridConfig
open NvmeVirt.InitParams
open NvmeVirt.Kernel
open NvmeVirt.Layout

/-- A coordinate is below a count that is kept in an `int`.  A count whose
sign bit is set is negative, and nothing is below it. -/
def Below (coordinate count : ℕ) : Prop := coordinate < count ∧ count < 2 ^ 31

instance (coordinate count : ℕ) : Decidable (Below coordinate count) :=
  inferInstanceAs (Decidable (_ ∧ _))

/-- `valid_ppa`, for any parameters. -/
def ValidIn (spp : SsdParams) (p : Ppa) : Prop :=
  p.ch < spp.nchs ∧ p.lun < spp.lunsPerCh ∧ p.pl < spp.plsPerLun ∧
    Below p.blk spp.blksPerPl ∧ Below p.pg spp.pgsPerBlk

/-- The page number `ppa2pgidx` computes, for any parameters: only the block
and `pgs_per_blk` are multiplied as `int` values. -/
def pageIndex (spp : SsdParams) (p : Ppa) : ℕ :=
  u64 (p.ch * spp.pgsPerCh + p.lun * spp.pgsPerLun + p.pl * spp.pgsPerPl +
    intBits (p.blk * spp.pgsPerBlk) + p.pg)

/-- The pages the write pointers of the SLC dies may reach. -/
def SlcPage (hp : HybridParams) (p : Ppa) : Prop :=
  p.ch < hp.slcChannels ∧ p.lun < hp.slcLunsPerCh ∧ p.pl = 0 ∧
    p.blk < hp.slcBlksPerPl ∧ p.pg < hp.slcPgsPerBlk

/-- The pages the QLC write pointer may reach. -/
def QlcPage (hp : HybridParams) (p : Ppa) : Prop :=
  (hp.slcChannels ≤ p.ch ∧ p.ch < hp.slcChannels + hp.qlcChannels) ∧
    p.lun < hp.qlcLunsPerCh ∧ p.pl = 0 ∧ p.blk < hp.qlcBlksPerPl ∧
    p.pg < hp.qlcPgsPerBlk

def Reached (hp : HybridParams) (p : Ppa) : Prop :=
  SlcPage hp p ∨ QlcPage hp p

/-- Every page that a write pointer may reach exists and has a page number of
its own. -/
structure Compatible (spp : SsdParams) (hp : HybridParams) : Prop where
  valid : ∀ p, Reached hp p → ValidIn spp p
  index_lt : ∀ p, Reached hp p → pageIndex spp p < spp.ttPgs
  index_inj : ∀ p q, Reached hp p → Reached hp q →
    pageIndex spp p = pageIndex spp q → p = q

/-- How many oneshot pages hold the 1024 pages of a QLC block. -/
def neededOneshotpgs (m : SsdMacros) : ℕ :=
  divRoundUp 1024 (m.oneshotPageSize / (512 * 8))

/-- Every partition has the channels and the luns of both tiers, and its
planes have blocks enough, of pages enough.  The last line of either case
keeps a rounded division of 64-bit values from wrapping around. -/
def LargeEnough (m : SsdMacros) (capacity nparts : ℕ) : Prop :=
  8 * nparts ≤ m.nandChannels ∧ 2 ≤ m.lunsPerNandCh ∧
    if 0 < m.blksPerPln then
      8192 ≤ m.blksPerPln ∧
        (neededOneshotpgs m - 1) * m.oneshotPageSize *
          shapeUnit m nparts m.blksPerPln < capacity / nparts ∧
        capacity / nparts + shapeUnit m nparts m.blksPerPln ≤ 2 ^ 64
    else
      (neededOneshotpgs m - 1) * m.oneshotPageSize < m.blkSize ∧
        8191 * u64 (shapeUnit m nparts m.blkSize) < capacity / nparts ∧
        capacity / nparts + u64 (shapeUnit m nparts m.blkSize) ≤ 2 ^ 64

/-- The blocks that the write pointers may reach, and their pages. -/
def TierBlock (b : BlkAddr) : Prop :=
  b.ch < 8 ∧ b.lun < 2 ∧ b.pl = 0 ∧ b.blk < 8192
def tierPgsPerBlk (b : BlkAddr) : ℕ := if b.ch < 2 then 256 else 1024

section

variable (m : SsdMacros) (capacity nparts : ℕ)

/-- Where a block starts, with the products cut off. -/
def blockStart (b : BlkAddr) : ℕ :=
  u64 (b.ch * pgsPerChBits m capacity nparts +
    b.lun * pgsPerLunBits m capacity nparts +
    intBits (b.blk * pgsPerBlkBits m capacity nparts))

/-- The counts that are left after something was cut off leave room for both
tiers, and the blocks of the tiers end below `tt_pgs` and do not overlap. -/
structure StillApart : Prop where
  channels : 8 * nparts ≤ m.nandChannels
  luns : 2 ≤ m.lunsPerNandCh
  blocks : Below 8191 (blksPerPlBits m capacity nparts)
  pages : Below 1023 (pgsPerBlkBits m capacity nparts)
  ends : ∀ b, TierBlock b →
    blockStart m capacity nparts b + tierPgsPerBlk b ≤
      ttPgsBits m capacity nparts
  apart : ∀ b b', TierBlock b → TierBlock b' →
    blockStart m capacity nparts b ≤ blockStart m capacity nparts b' →
    b ≠ b' → blockStart m capacity nparts b + tierPgsPerBlk b ≤
      blockStart m capacity nparts b'

end

/-! ## Rounded division -/

theorem divRoundUp_le_iff {value unit bound : ℕ} (hunit : 0 < unit) :
    divRoundUp value unit ≤ bound ↔ value ≤ unit * bound := by
  rw [divRoundUp, ← Nat.lt_succ_iff, Nat.div_lt_iff_lt_mul hunit,
    Nat.succ_mul, Nat.mul_comm bound unit]
  omega

/-- A rounded division of 64-bit values reaches a positive bound when the sum
in its numerator does not wrap around. -/
theorem le_divRoundUp64_iff {value unit bound : ℕ} (hbound : 0 < bound)
    (hunit : 0 < unit) (hvalue : value < 2 ^ 64) :
    bound ≤ divRoundUp64 value unit ↔
      (bound - 1) * unit < value ∧ value + unit ≤ 2 ^ 64 := by
  obtain ⟨less, rfl⟩ := Nat.exists_eq_succ_of_ne_zero
    (Nat.pos_iff_ne_zero.mp hbound)
  rw [divRoundUp64, Nat.le_div_iff_mul_le hunit, Nat.succ_sub_one,
    Nat.succ_mul]
  by_cases hwrap : value + unit ≤ 2 ^ 64
  · rw [u64_of_lt (by omega), and_iff_left hwrap]
    omega
  · -- past 64 bits the numerator is less than the unit
    refine iff_of_false (fun hle => ?_) fun hboth => hwrap hboth.2
    have hsmall : u64 (value + unit - 1) < unit := by
      rw [u64]
      by_cases hlarge : unit ≤ 2 ^ 64
      · have hmod : (value + unit - 1) % 2 ^ 64 =
            value + unit - 1 - 2 ^ 64 := by
          rw [Nat.mod_eq_sub_mod (by omega), Nat.mod_eq_of_lt (by omega)]
        omega
      · exact (Nat.mod_lt _ (Nat.two_pow_pos 64)).trans (by omega)
    have hpositive := Nat.le_add_left unit (less * unit)
    omega

section

variable {m : SsdMacros} {flashpgsPerBlk capacity nparts : ℕ}

/-! ## Page numbers -/

section

variable (hfits : Fits m capacity nparts)
include hfits

/-- Where every count fits, a page number is in mixed radix. -/
theorem pageIndex_eq {p : Ppa}
    (hvalid : ValidIn (sppOf m flashpgsPerBlk capacity nparts) p) :
    pageIndex (sppOf m flashpgsPerBlk capacity nparts) p =
      (((p.ch * m.lunsPerNandCh + p.lun) * m.plnsPerLun + p.pl) *
        blksPerPlOf m capacity nparts + p.blk) *
        pgsPerBlkOf m capacity nparts + p.pg ∧
    pageIndex (sppOf m flashpgsPerBlk capacity nparts) p <
      (sppOf m flashpgsPerBlk capacity nparts).ttPgs := by
  obtain ⟨hch, hlun, hpl, ⟨hblk, -⟩, hpg, -⟩ := hvalid
  have hlt := digits_lt ⟨hch, hlun, hpl, hblk, hpg⟩
  dsimp only [sppOf] at hblk hpg hlt
  have hint : p.blk * pgsPerBlkOf m capacity nparts < 2 ^ 31 := by
    refine lt_of_le_of_lt ?_ hfits.pgsPerPl
    rw [Nat.mul_comm]
    exact Nat.mul_le_mul_left _ hblk.le
  have hpages : pgsPerBlkOf m capacity nparts * blksPerPlOf m capacity nparts *
      m.plnsPerLun * m.lunsPerNandCh * (m.nandChannels / nparts) =
      m.nandChannels / nparts * m.lunsPerNandCh * m.plnsPerLun *
        blksPerPlOf m capacity nparts * pgsPerBlkOf m capacity nparts := by
    ring
  have hdigits : p.ch * (pgsPerBlkOf m capacity nparts *
        blksPerPlOf m capacity nparts * m.plnsPerLun * m.lunsPerNandCh) +
      p.lun * (pgsPerBlkOf m capacity nparts *
        blksPerPlOf m capacity nparts * m.plnsPerLun) +
      p.pl * (pgsPerBlkOf m capacity nparts * blksPerPlOf m capacity nparts) +
      p.blk * pgsPerBlkOf m capacity nparts + p.pg =
      (((p.ch * m.lunsPerNandCh + p.lun) * m.plnsPerLun + p.pl) *
        blksPerPlOf m capacity nparts + p.blk) *
        pgsPerBlkOf m capacity nparts + p.pg := by ring
  have htt := hfits.ttPgs
  rw [hpages] at htt
  dsimp only [pageIndex, sppOf]
  rw [intBits_of_lt hint, hdigits, u64_of_lt (hlt.trans htt), hpages]
  exact ⟨rfl, hlt⟩

theorem pageIndex_inj {p q : Ppa}
    (hvalid : ValidIn (sppOf m flashpgsPerBlk capacity nparts) p)
    (hvalid' : ValidIn (sppOf m flashpgsPerBlk capacity nparts) q)
    (heq : pageIndex (sppOf m flashpgsPerBlk capacity nparts) p =
      pageIndex (sppOf m flashpgsPerBlk capacity nparts) q) : p = q := by
  rw [(pageIndex_eq hfits hvalid).1, (pageIndex_eq hfits hvalid').1] at heq
  obtain ⟨-, hlun, hpl, ⟨hblk, -⟩, hpg, -⟩ := hvalid
  obtain ⟨-, hlun', hpl', ⟨hblk', -⟩, hpg', -⟩ := hvalid'
  exact ppa_eq_of_digits ⟨hlun, hpl, hblk, hpg⟩ ⟨hlun', hpl', hblk', hpg'⟩ heq

end

/-! ## The pages that are reached -/

theorem reached_iff {p : Ppa} :
    Reached (hpBits m capacity nparts) p ↔
      TierBlock p.toBlkAddr ∧ p.pg < tierPgsPerBlk p.toBlkAddr := by
  simp only [Reached, SlcPage, QlcPage, hpBits, hybridMacros, TierBlock,
    tierPgsPerBlk]
  split_ifs <;> omega

/-- The last page that the QLC write pointer may reach. -/
theorem last_reached : Reached (hpBits m capacity nparts)
    { ch := 7, lun := 1, pl := 0, blk := 8191, pg := 1023 } := by
  rw [reached_iff]
  exact ⟨⟨Nat.le_of_ble_eq_true rfl, Nat.le_of_ble_eq_true rfl, rfl,
    Nat.le_of_ble_eq_true rfl⟩, Nat.le_of_ble_eq_true rfl⟩

/-- The block shapes stay valid when both tiers find their channels, luns,
blocks and pages. -/
theorem valid_iff_shape : (∀ p, Reached (hpBits m capacity nparts) p →
      ValidIn (sppBits m flashpgsPerBlk capacity nparts) p) ↔
    8 ≤ m.nandChannels / nparts ∧ 2 ≤ m.lunsPerNandCh ∧
      Below 8191 (blksPerPlBits m capacity nparts) ∧
      Below 1023 (pgsPerBlkBits m capacity nparts) := by
  constructor
  · intro hvalid
    obtain ⟨hch, hlun, -, hblk, hpg⟩ := hvalid _ last_reached
    exact ⟨hch, hlun, hblk, hpg⟩
  · rintro ⟨hch, hlun, ⟨hblk, hblkInt⟩, hpg, hpgInt⟩ p hreached
    obtain ⟨⟨hpch, hplun, hppl, hpblk⟩, hppg⟩ := reached_iff.mp hreached
    have hpages : tierPgsPerBlk p.toBlkAddr ≤ 1024 := by
      rw [tierPgsPerBlk]
      split_ifs <;> omega
    refine ⟨hpch.trans_le hch, hplun.trans_le hlun, ?_, ⟨?_, hblkInt⟩,
      ?_, hpgInt⟩
    · rw [hppl]
      exact m.plnsPerLun_pos
    · exact hpblk.trans_le hblk
    · exact hppg.trans_le (hpages.trans hpg)

theorem channels_iff (hasserts : Asserts m nparts) :
    8 ≤ m.nandChannels / nparts ↔ 8 * nparts ≤ m.nandChannels :=
  Nat.le_div_iff_mul_le hasserts.nparts_pos

/-! ## The shape and the capacity -/

theorem le_shapeUnit (hasserts : Asserts m nparts) (size : ℕ) :
    size ≤ shapeUnit m nparts size := by
  have hothers := Nat.mul_pos (Nat.mul_pos m.plnsPerLun_pos
    m.lunsPerNandCh_pos) (nchs_pos hasserts)
  rw [shapeUnit, Nat.mul_assoc, Nat.mul_assoc, ← Nat.mul_assoc m.plnsPerLun]
  exact Nat.le_mul_of_pos_right size hothers

/-- A block has 1024 pages when it is larger than what one oneshot page less
than they need would hold. -/
theorem pages_iff_size (hasserts : Asserts m nparts)
    (hsize : blkSizeOf m capacity nparts + m.oneshotPageSize ≤ 2 ^ 64) :
    1024 ≤ pgsPerBlkOf m capacity nparts ↔
      (neededOneshotpgs m - 1) * m.oneshotPageSize <
        blkSizeOf m capacity nparts := by
  have honeshot : 0 < m.oneshotPageSize / (512 * 8) :=
    Nat.div_pos (Nat.le_of_dvd m.oneshotPageSize_pos
      (Nat.dvd_of_mod_eq_zero hasserts.aligned.1)) (by omega)
  have hneeded : 0 < neededOneshotpgs m :=
    Nat.div_pos (by omega) honeshot
  have hpositive := m.oneshotPageSize_pos
  rw [pgsPerBlkOf, ← divRoundUp_le_iff honeshot, oneshotpgsPerBlkOf]
  change neededOneshotpgs m ≤ _ ↔ _
  rw [le_divRoundUp64_iff hneeded hpositive (by omega)]
  exact and_iff_left hsize

/-- The shape has room for both tiers when the partition is large enough. -/
theorem shape_iff_large (hasserts : Asserts m nparts)
    (hfits : Fits m capacity nparts) (hcapacity : capacity < 2 ^ 64) :
    (8 ≤ m.nandChannels / nparts ∧ 2 ≤ m.lunsPerNandCh ∧
      8192 ≤ blksPerPlOf m capacity nparts ∧
      1024 ≤ pgsPerBlkOf m capacity nparts) ↔
      LargeEnough m capacity nparts := by
  have hshare : capacity / nparts < 2 ^ 64 :=
    (Nat.div_le_self capacity nparts).trans_lt hcapacity
  have honeshot := m.oneshotPageSize_lt
  have hunitFits := hfits.unit
  rw [UnitFits] at hunitFits
  rw [LargeEnough]
  refine and_congr (channels_iff hasserts) (and_congr_right fun _ => ?_)
  by_cases hblks : 0 < m.blksPerPln
  · have hcount : blksPerPlOf m capacity nparts = m.blksPerPln :=
      if_pos hblks
    have hsize : blkSizeOf m capacity nparts = divRoundUp64 (capacity / nparts)
        (shapeUnit m nparts m.blksPerPln) := if_pos hblks
    have hunit := le_shapeUnit hasserts m.blksPerPln
    rw [if_pos hblks, hcount]
    refine and_congr_right fun hmany => ?_
    -- with this many blocks, a block is far from 64 bits large
    have hsmall : blkSizeOf m capacity nparts ≤ 2 ^ 51 := by
      rw [hsize, divRoundUp64]
      calc u64 _ / shapeUnit m nparts m.blksPerPln
          ≤ u64 _ / 8192 := Nat.div_le_div_left (hmany.trans hunit) (by omega)
        _ ≤ 2 ^ 64 / 8192 :=
            Nat.div_le_div_right (Nat.mod_lt _ (Nat.two_pow_pos 64)).le
        _ ≤ 2 ^ 51 := by norm_num
    rw [pages_iff_size hasserts (by omega), hsize, ← Nat.succ_le_iff,
      le_divRoundUp64_iff (Nat.succ_pos _) (by omega) hshare,
      Nat.succ_sub_one]
  · have hcount : blksPerPlOf m capacity nparts =
        divRoundUp64 (capacity / nparts) (u64 (shapeUnit m nparts m.blkSize)) :=
      if_neg hblks
    have hsize : blkSizeOf m capacity nparts = m.blkSize := if_neg hblks
    have hblkSize := m.blkSize_lt
    rw [if_neg hblks] at hunitFits
    rw [if_neg hblks, pages_iff_size hasserts (by omega), hcount, hsize,
      le_divRoundUp64_iff (by omega) (Nat.pos_of_ne_zero hunitFits) hshare]
    exact and_comm

/-- Where every count fits, the block shapes fit when the partition is large
enough. -/
theorem compatible_of_fits (hasserts : Asserts m nparts)
    (hfits : Fits m capacity nparts) (hcapacity : capacity < 2 ^ 64) :
    Compatible (sppBits m flashpgsPerBlk capacity nparts)
      (hpBits m capacity nparts) ↔ LargeEnough m capacity nparts := by
  have hblks : Below 8191 (blksPerPlBits m capacity nparts) ↔
      8192 ≤ blksPerPlOf m capacity nparts := by
    rw [blksPerPlBits_eq hfits]
    exact and_iff_left hfits.blksPerPl
  have hpgs : Below 1023 (pgsPerBlkBits m capacity nparts) ↔
      1024 ≤ pgsPerBlkOf m capacity nparts := by
    rw [pgsPerBlkBits_eq hfits]
    exact and_iff_left hfits.pgsPerBlk
  rw [← shape_iff_large hasserts hfits hcapacity, ← hblks, ← hpgs,
    ← valid_iff_shape]
  refine ⟨Compatible.valid, fun hvalid => ⟨hvalid, ?_, ?_⟩⟩
  · intro p hreached
    have hp := hvalid p hreached
    rw [sppBits_eq hfits] at hp ⊢
    exact (pageIndex_eq hfits hp).2
  · intro p q hreached hreached' heq
    have hp := hvalid p hreached
    have hq := hvalid q hreached'
    rw [sppBits_eq hfits] at hp hq heq
    exact pageIndex_inj hfits hp hq heq

/-! ## Counts that were cut off -/

theorem tierPgsPerBlk_pos (b : BlkAddr) : 0 < tierPgsPerBlk b := by
  rw [tierPgsPerBlk]
  split_ifs <;> omega

theorem ttPgsBits_lt (m : SsdMacros) (capacity nparts : ℕ) :
    ttPgsBits m capacity nparts < 2 ^ 64 :=
  Nat.mod_lt _ (Nat.two_pow_pos 64)

theorem u64_add (value more : ℕ) : u64 (value + more) = u64 (u64 value + more) :=
  (Nat.mod_add_mod value (2 ^ 64) more).symm

/-- A page on the first plane is found behind the start of its block. -/
theorem pageIndex_eq_start {p : Ppa} (hpl : p.pl = 0) :
    pageIndex (sppBits m flashpgsPerBlk capacity nparts) p =
      u64 (blockStart m capacity nparts p.toBlkAddr + p.pg) := by
  rw [pageIndex, u64_add, hpl, Nat.zero_mul, Nat.add_zero]
  rfl

/-- Page `pg` of a block of a tier. -/
theorem reached_page {b : BlkAddr} {pg : ℕ} (hblock : TierBlock b)
    (hpg : pg < tierPgsPerBlk b) :
    Reached (hpBits m capacity nparts) { b with pg := pg } :=
  reached_iff.mpr ⟨hblock, hpg⟩

/-- The blocks end below `tt_pgs` when all their pages are below it. -/
theorem ends_of_index_lt
    (hlt : ∀ p, Reached (hpBits m capacity nparts) p →
      pageIndex (sppBits m flashpgsPerBlk capacity nparts) p <
        ttPgsBits m capacity nparts) {b : BlkAddr} (hblock : TierBlock b) :
    blockStart m capacity nparts b + tierPgsPerBlk b ≤
      ttPgsBits m capacity nparts := by
  have hpage : ∀ pg < tierPgsPerBlk b,
      u64 (blockStart m capacity nparts b + pg) <
        ttPgsBits m capacity nparts := by
    intro pg hpg
    have hreached : Reached (hpBits m capacity nparts) { b with pg := pg } :=
      reached_page hblock hpg
    have hindex := hlt _ hreached
    rwa [pageIndex_eq_start hblock.2.2.1] at hindex
  have hstart : blockStart m capacity nparts b < 2 ^ 64 :=
    Nat.mod_lt _ (Nat.two_pow_pos 64)
  have htt := ttPgsBits_lt m capacity nparts
  have hfirst := hpage 0 (tierPgsPerBlk_pos b)
  rw [Nat.add_zero, u64_of_lt hstart] at hfirst
  -- a block that ends behind `tt_pgs` has a page with that number
  by_contra hbehind
  have hpast := hpage
    (ttPgsBits m capacity nparts - blockStart m capacity nparts b) (by omega)
  rw [Nat.add_sub_cancel' hfirst.le, u64_of_lt htt] at hpast
  exact lt_irrefl _ hpast

/-- The blocks do not overlap when no two pages share a number. -/
theorem apart_of_index_inj
    (hinj : ∀ p q, Reached (hpBits m capacity nparts) p →
      Reached (hpBits m capacity nparts) q →
      pageIndex (sppBits m flashpgsPerBlk capacity nparts) p =
        pageIndex (sppBits m flashpgsPerBlk capacity nparts) q → p = q)
    {b b' : BlkAddr} (hblock : TierBlock b) (hblock' : TierBlock b')
    (hle : blockStart m capacity nparts b ≤ blockStart m capacity nparts b')
    (hne : b ≠ b') :
    blockStart m capacity nparts b + tierPgsPerBlk b ≤
      blockStart m capacity nparts b' := by
  by_contra hoverlap
  obtain ⟨pg, hpg⟩ := Nat.exists_eq_add_of_le hle
  -- the first page of the later block is page `pg` of the earlier one
  have hsame := hinj _ _
    (reached_page hblock (show pg < tierPgsPerBlk b by omega))
    (reached_page hblock' (tierPgsPerBlk_pos b')) (by
      rw [pageIndex_eq_start hblock.2.2.1, pageIndex_eq_start hblock'.2.2.1]
      exact congrArg u64 hpg.symm)
  exact hne (congrArg Ppa.toBlkAddr hsame)

/-- The block shapes fit when there is room for both tiers and their blocks
lie apart. -/
theorem compatible_iff_apart (hasserts : Asserts m nparts) :
    Compatible (sppBits m flashpgsPerBlk capacity nparts)
      (hpBits m capacity nparts) ↔ StillApart m capacity nparts := by
  constructor
  · intro hcompatible
    obtain ⟨hch, hlun, hblks, hpgs⟩ := valid_iff_shape.mp hcompatible.valid
    exact
      { channels := (channels_iff hasserts).mp hch
        luns := hlun
        blocks := hblks
        pages := hpgs
        ends := fun _ => ends_of_index_lt hcompatible.index_lt
        apart := fun _ _ => apart_of_index_inj hcompatible.index_inj }
  · intro happart
    have hindex : ∀ p, Reached (hpBits m capacity nparts) p →
        pageIndex (sppBits m flashpgsPerBlk capacity nparts) p =
          blockStart m capacity nparts p.toBlkAddr + p.pg ∧
        pageIndex (sppBits m flashpgsPerBlk capacity nparts) p <
          ttPgsBits m capacity nparts := by
      intro p hreached
      obtain ⟨hblock, hpg⟩ := reached_iff.mp hreached
      have hends := happart.ends _ hblock
      have htt := ttPgsBits_lt m capacity nparts
      rw [pageIndex_eq_start hblock.2.2.1, u64_of_lt (by omega)]
      exact ⟨rfl, by omega⟩
    refine ⟨valid_iff_shape.mpr ⟨(channels_iff hasserts).mpr happart.channels,
      happart.luns, happart.blocks, happart.pages⟩,
      fun p hreached => (hindex p hreached).2, fun p q hp hq heq => ?_⟩
    rw [(hindex p hp).1, (hindex q hq).1] at heq
    obtain ⟨hblock, hpg⟩ := reached_iff.mp hp
    obtain ⟨hblock', hpg'⟩ := reached_iff.mp hq
    by_cases hsame : p.toBlkAddr = q.toBlkAddr
    · rw [hsame] at heq
      obtain ⟨_, pg⟩ := p
      obtain ⟨_, pg'⟩ := q
      exact congrArg₂ Ppa.mk hsame (Nat.add_left_cancel heq)
    · rcases le_total (blockStart m capacity nparts p.toBlkAddr)
        (blockStart m capacity nparts q.toBlkAddr) with hle | hle
      · have hbefore := happart.apart _ _ hblock hblock' hle hsame
        omega
      · have hbefore := happart.apart _ _ hblock' hblock hle (Ne.symm hsame)
        omega

end

theorem eight_pos : 0 < 8 := Nat.succ_pos 7

/-- Eight channels of two luns, with pages of 16 KiB and 8192 blocks on every
plane. -/
def smallPages : SsdMacros where
  nandChannels := 8
  plnsPerLun := 1
  lunsPerNandCh := 2
  blksPerPln := 8192
  blkSize := 0
  oneshotPageSize := 16384
  flashPageSize := 16384
  writeUnitSize := 512
  writeEarlyCompletion := true
  nandProgLatency := 185000
  nandEraseLatency := 0
  maxChXferSize := 16384
  fwChXferLatency := 0
  fwWbufLatency0 := 4000
  fwWbufLatency1 := 460
  nandChannelBandwidth := 800
  pcieBandwidth := 3360
  globalWbSize := 8192
  nandChannels_pos := eight_pos
  plnsPerLun_pos := Nat.one_pos
  lunsPerNandCh_pos := Nat.two_pos
  oneshotPageSize_pos := Nat.succ_pos _
  flashPageSize_pos := Nat.succ_pos _
  blkSize_lt := Nat.two_pow_pos 63
  oneshotPageSize_lt := Nat.le_of_ble_eq_true rfl

theorem smallPages_fits_gigabyte : Fits smallPages (2 ^ 30) 1 where
  unit := by
    rw [UnitFits]
    decide
  blksPerPl := by decide
  oneshotpgsPerBlk := by decide
  pgsPerBlk := by decide
  pgsPerPl := by decide
  pgsPerLun := by decide
  pgsPerCh := by decide
  ttPgs := by decide
  ttLuns := by decide
  pgsPerLine := by decide
  ttLines := by decide
  pgsPerLunLine := by decide

theorem smallPages_fits_terabyte : Fits smallPages (2 ^ 40) 1 where
  unit := by
    rw [UnitFits]
    decide
  blksPerPl := by decide
  oneshotpgsPerBlk := by decide
  pgsPerBlk := by decide
  pgsPerPl := by decide
  pgsPerLun := by decide
  pgsPerCh := by decide
  ttPgs := by decide
  ttLuns := by decide
  pgsPerLine := by decide
  ttLines := by decide
  pgsPerLunLine := by decide

end NvmeVirt.Shapes
