import Mathlib.Data.Set.Function
import NvmeVirt.Conv.Partitions
import NvmeVirt.Hybrid.Shapes

/-!
# Page numbers and block numbers

`rmap` finds the slot of a page by the number `ppa2pgidx` computes from the
counts of the device.  `h.blk_in_ssd` is a second number, which the bit fields
of the address make of its block.
-/

namespace NvmeVirt.PageNumbers

open NvmeVirt.DerivedCounts
open NvmeVirt.HybridConfig
open NvmeVirt.InitParams
open NvmeVirt.Kernel
open NvmeVirt.Layout
open NvmeVirt.MixedRadix
open NvmeVirt.Partitions
open NvmeVirt.Shapes

/-- `ppa2pgidx`, for any parameters, with its assertion. -/
def ppa2pgidx (spp : SsdParams) (p : Ppa) : Except Fault ℕ := do
  let pgidx := pageIndex spp p
  nvmevAssert (pgidx < spp.ttPgs)
  return pgidx

/-- `h.blk_in_ssd`, the bits of the address above its page. -/
def blkInSsd (p : Ppa) : ℕ :=
  rawPpa p / 2 ^ pageBits % 2 ^ (blkBits + plBits + lunBits + chBits)

/-- The coordinates of every address fit the bit fields of `struct ppa`. -/
structure FitsBits (spp : SsdParams) : Prop where
  nchs_le : spp.nchs ≤ 2 ^ chBits
  lunsPerCh_le : spp.lunsPerCh ≤ 2 ^ lunBits
  plsPerLun_le : spp.plsPerLun ≤ 2 ^ plBits
  blksPerPl_le : spp.blksPerPl ≤ 2 ^ blkBits
  pgsPerBlk_le : spp.pgsPerBlk ≤ 2 ^ pageBits

/-- The pages are numbered through, and the bit fields tell the blocks
apart. -/
structure Numbered (spp : SsdParams) : Prop where
  pages : Set.BijOn (ppa2pgidx spp) {p | ValidIn spp p}
    (Set.image Except.ok {idx | idx < spp.ttPgs})
  blocks : ∀ p q, ValidIn spp p → ValidIn spp q →
    (blkInSsd p = blkInSsd q ↔ p.toBlkAddr = q.toBlkAddr)

section

variable {m : SsdMacros} {flashpgsPerBlk capacity nparts : ℕ} {p : Ppa}

/-! ## Page numbers -/

section

variable (hfits : Fits m capacity nparts)
include hfits

/-- The assertion of `ppa2pgidx` holds for a valid address. -/
theorem ppa2pgidx_of_valid
    (hvalid : ValidIn (sppOf m flashpgsPerBlk capacity nparts) p) :
    ppa2pgidx (sppOf m flashpgsPerBlk capacity nparts) p =
      .ok (pageIndex (sppOf m flashpgsPerBlk capacity nparts) p) := by
  rw [ppa2pgidx, nvmevAssert_of (pageIndex_eq hfits hvalid).2]
  rfl

/-- The digits of a page number are the coordinates of a page. -/
theorem exists_pageIndex {idx : ℕ}
    (hidx : idx < (sppOf m flashpgsPerBlk capacity nparts).ttPgs) :
    ∃ p, ValidIn (sppOf m flashpgsPerBlk capacity nparts) p ∧
      pageIndex (sppOf m flashpgsPerBlk capacity nparts) p = idx := by
  have hpages : (sppOf m flashpgsPerBlk capacity nparts).ttPgs =
      m.nandChannels / nparts * m.lunsPerNandCh * m.plnsPerLun *
        blksPerPlOf m capacity nparts * pgsPerBlkOf m capacity nparts := by
    dsimp only [sppOf]
    ring
  rw [hpages] at hidx
  obtain ⟨_, pg, hblkIdx, hpg, rfl⟩ := exists_digit hidx
  obtain ⟨_, blk, hplIdx, hblk, rfl⟩ := exists_digit hblkIdx
  obtain ⟨_, pl, hlunIdx, hpl, rfl⟩ := exists_digit hplIdx
  obtain ⟨ch, lun, hch, hlun, rfl⟩ := exists_digit hlunIdx
  have hvalid : ValidIn (sppOf m flashpgsPerBlk capacity nparts)
      { ch := ch, lun := lun, pl := pl, blk := blk, pg := pg } :=
    ⟨hch, hlun, hpl, ⟨hblk, hfits.blksPerPl⟩, hpg, hfits.pgsPerBlk⟩
  exact ⟨_, hvalid, (pageIndex_eq hfits hvalid).1⟩

theorem ppa2pgidx_bijOn :
    Set.BijOn (ppa2pgidx (sppOf m flashpgsPerBlk capacity nparts))
      {p | ValidIn (sppOf m flashpgsPerBlk capacity nparts) p}
      (Set.image Except.ok
        {idx | idx < (sppOf m flashpgsPerBlk capacity nparts).ttPgs}) := by
  refine ⟨?_, ?_, ?_⟩
  · intro p hvalid
    rw [ppa2pgidx_of_valid hfits hvalid]
    exact Set.mem_image_of_mem _ (pageIndex_eq hfits hvalid).2
  · intro p hvalid q hvalid' heq
    rw [ppa2pgidx_of_valid hfits hvalid, ppa2pgidx_of_valid hfits hvalid',
      Except.ok.injEq] at heq
    exact pageIndex_inj hfits hvalid hvalid' heq
  · rintro _ ⟨idx, hidx, rfl⟩
    obtain ⟨p, hvalid, rfl⟩ := exists_pageIndex hfits hidx
    exact ⟨p, hvalid, ppa2pgidx_of_valid hfits hvalid⟩

end

end

section

variable {spp : SsdParams} {p q : Ppa}

/-! ## Block numbers -/

theorem blkInSsd_of_valid (hbits : FitsBits spp) (hvalid : ValidIn spp p) :
    blkInSsd p = ((p.ch * 2 ^ lunBits + p.lun) * 2 ^ plBits + p.pl) *
      2 ^ blkBits + p.blk := by
  obtain ⟨hch, hlun, hpl, ⟨hblk, -⟩, hpg, -⟩ := hvalid
  have hraw : rawPpa p = (((p.ch * 2 ^ lunBits + p.lun) * 2 ^ plBits + p.pl) *
      2 ^ blkBits + p.blk) * 2 ^ pageBits + p.pg := by
    rw [rawPpa]
    ring
  have hlt := digit_lt (digit_lt (digit_lt (hch.trans_le hbits.nchs_le)
    (hlun.trans_le hbits.lunsPerCh_le)) (hpl.trans_le hbits.plsPerLun_le))
    (hblk.trans_le hbits.blksPerPl_le)
  rw [blkInSsd, hraw, digit_div (hpg.trans_le hbits.pgsPerBlk_le)]
  exact Nat.mod_eq_of_lt hlt

/-- The bit fields of a block keep its coordinates apart. -/
theorem blkInSsd_eq_iff (hbits : FitsBits spp) (hvalid : ValidIn spp p)
    (hvalid' : ValidIn spp q) :
    blkInSsd p = blkInSsd q ↔ p.toBlkAddr = q.toBlkAddr := by
  rw [blkInSsd_of_valid hbits hvalid, blkInSsd_of_valid hbits hvalid']
  obtain ⟨-, hlun, hpl, ⟨hblk, -⟩, -⟩ := hvalid
  obtain ⟨-, hlun', hpl', ⟨hblk', -⟩, -⟩ := hvalid'
  constructor
  · intro heq
    obtain ⟨heq, hsameBlk⟩ := digit_inj (hblk.trans_le hbits.blksPerPl_le)
      (hblk'.trans_le hbits.blksPerPl_le) heq
    obtain ⟨heq, hsamePl⟩ := digit_inj (hpl.trans_le hbits.plsPerLun_le)
      (hpl'.trans_le hbits.plsPerLun_le) heq
    obtain ⟨hsameCh, hsameLun⟩ := digit_inj (hlun.trans_le hbits.lunsPerCh_le)
      (hlun'.trans_le hbits.lunsPerCh_le) heq
    rw [BlkAddr.mk.injEq]
    exact ⟨hsameCh, hsameLun, hsamePl, hsameBlk⟩
  · intro heq
    rw [heq]

theorem validIn_of_validPpa {g : Geometry} (hvalid : ValidPpa g p) :
    ValidIn g.toSsdParams p := by
  obtain ⟨hch, hlun, hpl, hblk, hpg⟩ := hvalid
  have hblks : 2 ^ blkBits < 2 ^ 31 := by decide
  have hpages : 2 ^ pageBits < 2 ^ 31 := by decide
  exact ⟨hch, hlun, hpl, ⟨hblk, g.blksPerPl_le.trans_lt hblks⟩,
    hpg, g.pgsPerBlk_le.trans_lt hpages⟩

/-- `is_same_flash_page` compares the block numbers. -/
theorem isSameFlashPage_eq {g : Geometry} (hp : ValidPpa g p)
    (hq : ValidPpa g q) :
    isSameFlashPage g p q = decide (blkInSsd p = blkInSsd q ∧
      p.pg / g.pgsPerFlashpg = q.pg / g.pgsPerFlashpg) := by
  have hbits : FitsBits g.toSsdParams :=
    ⟨g.nchs_le, g.lunsPerCh_le, g.plsPerLun_le, g.blksPerPl_le, g.pgsPerBlk_le⟩
  rw [isSameFlashPage]
  exact decide_eq_decide.mpr
    (and_congr_left' (blkInSsd_eq_iff hbits (validIn_of_validPpa hp)
      (validIn_of_validPpa hq)).symm)

end

/-- The geometry that `ssd_init_params` computes numbers its pages through,
when its products do not overflow and the coordinates fit the bit fields. -/
theorem numbered_of_run {m : SsdMacros}
    {flashpgsPerBlk capacity nparts : ℕ} {spp : SsdParams} {hp : HybridParams}
    (hrun : ssdInitParams m flashpgsPerBlk capacity nparts = .ok (spp, hp))
    (hfits : Fits m capacity nparts) (hbits : FitsBits spp) :
    Numbered spp := by
  obtain ⟨-, rfl, -⟩ := of_ssdInitParams_fits hrun hfits
  exact ⟨ppa2pgidx_bijOn hfits, fun p q => blkInSsd_eq_iff hbits⟩

theorem numbered_gigabyte :
    ∃ spp hp, ssdInitParams smallPages 0 (2 ^ 30) 1 = .ok (spp, hp) ∧
      Numbered spp := by
  refine ⟨_, _, rfl, numbered_of_run
    (show ssdInitParams smallPages 0 (2 ^ 30) 1 = _ from rfl)
    smallPages_fits_gigabyte ?_⟩
  exact ⟨by decide, by decide, by decide, by decide, by decide⟩

end NvmeVirt.PageNumbers
