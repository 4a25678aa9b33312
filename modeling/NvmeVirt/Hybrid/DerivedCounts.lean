import NvmeVirt.Hybrid.InitParams

/-!
# The counts of a device in closed form

`ssd_init_params` calculates the counts of the device one from another, and
keeps each in an `int` or an `unsigned long`, which cut off what does not fit.
Where every count fits, they are products of the macros and of the size that
the capacity gives a block or the number it gives of them.
-/

namespace NvmeVirt.DerivedCounts

open NvmeVirt.HybridConfig
open NvmeVirt.InitParams
open NvmeVirt.Kernel
open NvmeVirt.Layout
open NvmeVirt.Transition

/-- The blocks of one partition that `blks_per_pl` stands for, or the bytes of
one block on every plane. -/
def shapeUnit (m : SsdMacros) (nparts size : ℕ) : ℕ :=
  size * m.plnsPerLun * m.lunsPerNandCh * (m.nandChannels / nparts)

section

variable (m : SsdMacros) (flashpgsPerBlk capacity nparts : ℕ)

/-! ## Counts that fit -/

/-- `blk_size`. -/
def blkSizeOf : ℕ :=
  if 0 < m.blksPerPln then
    divRoundUp64 (capacity / nparts) (shapeUnit m nparts m.blksPerPln)
  else m.blkSize

/-- `blks_per_pl`. -/
def blksPerPlOf : ℕ :=
  if 0 < m.blksPerPln then m.blksPerPln
  else divRoundUp64 (capacity / nparts) (u64 (shapeUnit m nparts m.blkSize))

/-- The divisor that the capacity is divided by: an `int`, or 64 bits that
must not be 0. -/
def UnitFits : Prop :=
  if 0 < m.blksPerPln then shapeUnit m nparts m.blksPerPln < 2 ^ 31
  else u64 (shapeUnit m nparts m.blkSize) ≠ 0

/-- `oneshotpgs_per_blk` and `pgs_per_blk`. -/
def oneshotpgsPerBlkOf : ℕ :=
  divRoundUp64 (blkSizeOf m capacity nparts) m.oneshotPageSize
def pgsPerBlkOf : ℕ :=
  m.oneshotPageSize / (512 * 8) * oneshotpgsPerBlkOf m capacity nparts

/-- The assertions. -/
structure Asserts : Prop where
  nparts_pos : 0 < nparts
  channels : m.nandChannels % nparts = 0
  blkSize_pos : ¬ 0 < m.blksPerPln → 0 < m.blkSize
  aligned : m.oneshotPageSize % (512 * 8) = 0 ∧
    m.flashPageSize % (512 * 8) = 0
  oneshot : m.oneshotPageSize % m.flashPageSize = 0

/-- Every count fits the `int` or the `unsigned long` it is kept in. -/
structure Fits : Prop where
  unit : UnitFits m nparts
  blksPerPl : blksPerPlOf m capacity nparts < 2 ^ 31
  oneshotpgsPerBlk : oneshotpgsPerBlkOf m capacity nparts < 2 ^ 31
  pgsPerBlk : pgsPerBlkOf m capacity nparts < 2 ^ 31
  pgsPerPl : pgsPerBlkOf m capacity nparts * blksPerPlOf m capacity nparts <
    2 ^ 31
  pgsPerLun : pgsPerBlkOf m capacity nparts * blksPerPlOf m capacity nparts *
    m.plnsPerLun < 2 ^ 64
  pgsPerCh : pgsPerBlkOf m capacity nparts * blksPerPlOf m capacity nparts *
    m.plnsPerLun * m.lunsPerNandCh < 2 ^ 64
  ttPgs : pgsPerBlkOf m capacity nparts * blksPerPlOf m capacity nparts *
    m.plnsPerLun * m.lunsPerNandCh * (m.nandChannels / nparts) < 2 ^ 64
  ttLuns : m.lunsPerNandCh * (m.nandChannels / nparts) < 2 ^ 31
  pgsPerLine : m.lunsPerNandCh * (m.nandChannels / nparts) *
    pgsPerBlkOf m capacity nparts < 2 ^ 64
  ttLines : blksPerPlOf m capacity nparts * m.plnsPerLun < 2 ^ 31
  pgsPerLunLine : m.plnsPerLun * pgsPerBlkOf m capacity nparts < 2 ^ 64

/-- The parameters in closed form. -/
def sppOf : SsdParams where
  secsz := 512
  secsPerPg := 8
  pgsz := 512 * 8
  pgsPerFlashpg := m.flashPageSize / (512 * 8)
  flashpgsPerBlk := flashpgsPerBlk
  pgsPerOneshotpg := m.oneshotPageSize / (512 * 8)
  oneshotpgsPerBlk := oneshotpgsPerBlkOf m capacity nparts
  pgsPerBlk := pgsPerBlkOf m capacity nparts
  blksPerPl := blksPerPlOf m capacity nparts
  plsPerLun := m.plnsPerLun
  lunsPerCh := m.lunsPerNandCh
  nchs := m.nandChannels / nparts
  writeUnitSize := m.writeUnitSize
  writeEarlyCompletion := m.writeEarlyCompletion
  slcReadLatency := 30000
  pgWrLat := m.nandProgLatency
  blkErLat := m.nandEraseLatency
  maxChXferSize := m.maxChXferSize
  fwWbufLat0 := m.fwWbufLatency0
  fwWbufLat1 := m.fwWbufLatency1
  fwChXferLat := m.fwChXferLatency
  chBandwidth := m.nandChannelBandwidth
  pcieBandwidth := m.pcieBandwidth
  writeBufferSize := m.globalWbSize
  pgsPerPl := pgsPerBlkOf m capacity nparts * blksPerPlOf m capacity nparts
  pgsPerLun := pgsPerBlkOf m capacity nparts * blksPerPlOf m capacity nparts *
    m.plnsPerLun
  pgsPerCh := pgsPerBlkOf m capacity nparts * blksPerPlOf m capacity nparts *
    m.plnsPerLun * m.lunsPerNandCh
  ttPgs := pgsPerBlkOf m capacity nparts * blksPerPlOf m capacity nparts *
    m.plnsPerLun * m.lunsPerNandCh * (m.nandChannels / nparts)
  pgsPerLine := m.lunsPerNandCh * (m.nandChannels / nparts) *
    pgsPerBlkOf m capacity nparts
  ttLines := blksPerPlOf m capacity nparts * m.plnsPerLun
  ttLuns := m.lunsPerNandCh * (m.nandChannels / nparts)

/-- The parameters of the tiers. -/
def hpOf : HybridParams :=
  hybridMacros (slcPages (capacity / nparts)) (qlcPages (capacity / nparts))
    (m.plnsPerLun * pgsPerBlkOf m capacity nparts)

/-! ## Counts as they are kept -/

/-- The divisor of the capacity. -/
def unitBits : ℕ :=
  if 0 < m.blksPerPln then
    intBits (shapeUnit m nparts (intBits m.blksPerPln))
  else u64 (shapeUnit m nparts m.blkSize)

/-- `blk_size` and `blks_per_pl`. -/
def blkSizeBits : ℕ :=
  if 0 < m.blksPerPln then
    divRoundUp64 (capacity / nparts) (unitBits m nparts)
  else m.blkSize
def blksPerPlBits : ℕ :=
  intBits (if 0 < m.blksPerPln then m.blksPerPln
    else divRoundUp64 (capacity / nparts) (unitBits m nparts))

/-- `oneshotpgs_per_blk` and `pgs_per_blk`. -/
def oneshotpgsPerBlkBits : ℕ :=
  intBits (divRoundUp64 (blkSizeBits m capacity nparts) m.oneshotPageSize)
def pgsPerBlkBits : ℕ :=
  intBits (m.oneshotPageSize / (512 * 8) *
    oneshotpgsPerBlkBits m capacity nparts)

/-- `pgs_per_pl`, `pgs_per_lun`, `pgs_per_ch` and `tt_pgs`. -/
def pgsPerPlBits : ℕ :=
  intBits (pgsPerBlkBits m capacity nparts * blksPerPlBits m capacity nparts)
def pgsPerLunBits : ℕ := u64 (pgsPerPlBits m capacity nparts * m.plnsPerLun)
def pgsPerChBits : ℕ :=
  u64 (pgsPerLunBits m capacity nparts * m.lunsPerNandCh)
def ttPgsBits : ℕ :=
  u64 (pgsPerChBits m capacity nparts * (m.nandChannels / nparts))

/-- `tt_luns` and `tt_lines`. -/
def ttLunsBits : ℕ := intBits (m.lunsPerNandCh * (m.nandChannels / nparts))
def ttLinesBits : ℕ :=
  intBits (blksPerPlBits m capacity nparts * m.plnsPerLun)

/-- The parameters that `ssd_init_params` leaves. -/
def sppBits : SsdParams :=
  { sppOf m flashpgsPerBlk capacity nparts with
    oneshotpgsPerBlk := oneshotpgsPerBlkBits m capacity nparts
    pgsPerBlk := pgsPerBlkBits m capacity nparts
    blksPerPl := blksPerPlBits m capacity nparts
    pgsPerPl := pgsPerPlBits m capacity nparts
    pgsPerLun := pgsPerLunBits m capacity nparts
    pgsPerCh := pgsPerChBits m capacity nparts
    ttPgs := ttPgsBits m capacity nparts
    pgsPerLine :=
      u64 (ttLunsBits m nparts * pgsPerBlkBits m capacity nparts)
    ttLines := ttLinesBits m capacity nparts
    ttLuns := ttLunsBits m nparts }

/-- The parameters of the tiers that it leaves. -/
def hpBits : HybridParams :=
  hybridMacros (slcPages (capacity / nparts)) (qlcPages (capacity / nparts))
    (u64 (m.plnsPerLun * pgsPerBlkBits m capacity nparts))

end

section

variable {m : SsdMacros} {flashpgsPerBlk capacity nparts : ℕ}
  {spp : SsdParams} {hp : HybridParams}

theorem blockShape_eq_ok {blksPerPl blkSize : ℕ} :
    blockShape m (m.nandChannels / nparts) (capacity / nparts) =
        .ok (blksPerPl, blkSize) ↔
      (¬ 0 < m.blksPerPln → 0 < m.blkSize) ∧ unitBits m nparts ≠ 0 ∧
        blksPerPl = blksPerPlBits m capacity nparts ∧
        blkSize = blkSizeBits m capacity nparts := by
  simp only [blockShape, unitBits, blksPerPlBits, blkSizeBits, shapeUnit]
  by_cases hblks : 0 < m.blksPerPln
  · simp only [if_pos hblks]
    constructor
    · intro hrun
      split at hrun
      · cases hrun
      · rename_i hunit
        obtain ⟨rfl, rfl⟩ := Prod.mk.inj (Except.ok.inj hrun)
        exact ⟨fun hnot => absurd hblks hnot, hunit, rfl, rfl⟩
    · rintro ⟨-, hunit, rfl, rfl⟩
      rw [if_neg hunit]
      rfl
  · simp only [if_neg hblks]
    constructor
    · intro hrun
      obtain ⟨_, hassert, hrun⟩ := bind_eq_ok hrun
      split at hrun
      · cases hrun
      · rename_i hunit
        obtain ⟨rfl, rfl⟩ := Prod.mk.inj (Except.ok.inj hrun)
        exact ⟨fun _ => of_initAssert hassert, hunit, rfl, rfl⟩
    · rintro ⟨hassert, hunit, rfl, rfl⟩
      rw [initAssert_of (hassert hblks), ok_bind, if_neg hunit]
      rfl

/-- The function gets through when its assertions hold and it does not divide
by 0. -/
theorem ssdInitParams_of (hasserts : Asserts m nparts)
    (hunit : unitBits m nparts ≠ 0) :
    ssdInitParams m flashpgsPerBlk capacity nparts =
      .ok (sppBits m flashpgsPerBlk capacity nparts,
        hpBits m capacity nparts) := by
  have hshape : blockShape m (m.nandChannels / nparts) (capacity / nparts) =
      .ok (blksPerPlBits m capacity nparts, blkSizeBits m capacity nparts) :=
    blockShape_eq_ok.mpr ⟨hasserts.blkSize_pos, hunit, rfl, rfl⟩
  rw [ssdInitParams, if_neg hasserts.nparts_pos.ne']
  refine bind_eq_ok_of (initAssert_of hasserts.channels) ?_
  refine bind_eq_ok_of hshape ?_
  refine bind_eq_ok_of (initAssert_of hasserts.aligned) ?_
  exact bind_eq_ok_of (initAssert_of hasserts.oneshot) rfl

/-- A run that gets through leaves these parameters. -/
theorem of_ssdInitParams
    (hrun : ssdInitParams m flashpgsPerBlk capacity nparts = .ok (spp, hp)) :
    Asserts m nparts ∧ unitBits m nparts ≠ 0 ∧
      spp = sppBits m flashpgsPerBlk capacity nparts ∧
      hp = hpBits m capacity nparts := by
  rw [ssdInitParams] at hrun
  split_ifs at hrun with hzero
  · cases hrun
  obtain ⟨_, hchannels, hrun⟩ := bind_eq_ok hrun
  obtain ⟨⟨blksPerPl, blkSize⟩, hshape, hrun⟩ := bind_eq_ok hrun
  obtain ⟨hblkSize, hunit, rfl, rfl⟩ := blockShape_eq_ok.mp hshape
  obtain ⟨_, haligned, hrun⟩ := bind_eq_ok hrun
  obtain ⟨_, honeshot, hrun⟩ := bind_eq_ok hrun
  obtain ⟨rfl, rfl⟩ := Prod.mk.inj (Except.ok.inj hrun)
  refine ⟨?_, hunit, rfl, rfl⟩
  exact
    { nparts_pos := Nat.pos_of_ne_zero hzero
      channels := of_initAssert hchannels
      blkSize_pos := hblkSize
      aligned := of_initAssert haligned
      oneshot := of_initAssert honeshot }

/-! ## Nothing is cut off -/

section

variable (hfits : Fits m capacity nparts)
include hfits

theorem blkSizeBits_eq :
    blkSizeBits m capacity nparts = blkSizeOf m capacity nparts := by
  have hunit := hfits.unit
  have hcount := hfits.blksPerPl
  rw [UnitFits] at hunit
  rw [blksPerPlOf] at hcount
  rw [blkSizeBits, blkSizeOf, unitBits]
  split_ifs at hunit hcount ⊢
  · rw [intBits_of_lt hcount, intBits_of_lt hunit]
  · rfl

theorem blksPerPlBits_eq :
    blksPerPlBits m capacity nparts = blksPerPlOf m capacity nparts := by
  have hcount := hfits.blksPerPl
  rw [blksPerPlOf] at hcount
  rw [blksPerPlBits, blksPerPlOf, unitBits]
  split_ifs at hcount ⊢
  · exact intBits_of_lt hcount
  · exact intBits_of_lt hcount

theorem oneshotpgsPerBlkBits_eq : oneshotpgsPerBlkBits m capacity nparts =
    oneshotpgsPerBlkOf m capacity nparts := by
  rw [oneshotpgsPerBlkBits, blkSizeBits_eq hfits]
  exact intBits_of_lt hfits.oneshotpgsPerBlk

theorem pgsPerBlkBits_eq :
    pgsPerBlkBits m capacity nparts = pgsPerBlkOf m capacity nparts := by
  rw [pgsPerBlkBits, oneshotpgsPerBlkBits_eq hfits]
  exact intBits_of_lt hfits.pgsPerBlk

/-- Where every count fits, the parameters have their closed form. -/
theorem sppBits_eq : sppBits m flashpgsPerBlk capacity nparts =
    sppOf m flashpgsPerBlk capacity nparts := by
  have hblks := blksPerPlBits_eq hfits
  have hpgs := pgsPerBlkBits_eq hfits
  have hpl : pgsPerPlBits m capacity nparts =
      pgsPerBlkOf m capacity nparts * blksPerPlOf m capacity nparts := by
    rw [pgsPerPlBits, hpgs, hblks]
    exact intBits_of_lt hfits.pgsPerPl
  have hlun : pgsPerLunBits m capacity nparts =
      pgsPerBlkOf m capacity nparts * blksPerPlOf m capacity nparts *
        m.plnsPerLun := by
    rw [pgsPerLunBits, hpl]
    exact u64_of_lt hfits.pgsPerLun
  have hch : pgsPerChBits m capacity nparts =
      pgsPerBlkOf m capacity nparts * blksPerPlOf m capacity nparts *
        m.plnsPerLun * m.lunsPerNandCh := by
    rw [pgsPerChBits, hlun]
    exact u64_of_lt hfits.pgsPerCh
  have htt : ttPgsBits m capacity nparts =
      pgsPerBlkOf m capacity nparts * blksPerPlOf m capacity nparts *
        m.plnsPerLun * m.lunsPerNandCh * (m.nandChannels / nparts) := by
    rw [ttPgsBits, hch]
    exact u64_of_lt hfits.ttPgs
  have hluns : ttLunsBits m nparts =
      m.lunsPerNandCh * (m.nandChannels / nparts) :=
    intBits_of_lt hfits.ttLuns
  have hline : u64 (ttLunsBits m nparts * pgsPerBlkBits m capacity nparts) =
      m.lunsPerNandCh * (m.nandChannels / nparts) *
        pgsPerBlkOf m capacity nparts := by
    rw [hluns, hpgs]
    exact u64_of_lt hfits.pgsPerLine
  have hlines : ttLinesBits m capacity nparts =
      blksPerPlOf m capacity nparts * m.plnsPerLun := by
    rw [ttLinesBits, hblks]
    exact intBits_of_lt hfits.ttLines
  rw [sppBits, oneshotpgsPerBlkBits_eq hfits, hpgs, hblks, hpl, hlun, hch, htt,
    ← hpgs, hline, hlines, hluns, hpgs]
  rfl

theorem hpBits_eq : hpBits m capacity nparts = hpOf m capacity nparts := by
  rw [hpBits, pgsPerBlkBits_eq hfits, u64_of_lt hfits.pgsPerLunLine]
  rfl

end

/-- A run whose counts all fit leaves the closed form. -/
theorem of_ssdInitParams_fits
    (hrun : ssdInitParams m flashpgsPerBlk capacity nparts = .ok (spp, hp))
    (hfits : Fits m capacity nparts) :
    Asserts m nparts ∧ spp = sppOf m flashpgsPerBlk capacity nparts ∧
      hp = hpOf m capacity nparts := by
  obtain ⟨hasserts, -, rfl, rfl⟩ := of_ssdInitParams hrun
  exact ⟨hasserts, sppBits_eq hfits, hpBits_eq hfits⟩

theorem nchs_pos (hasserts : Asserts m nparts) :
    0 < m.nandChannels / nparts :=
  Nat.div_pos (Nat.le_of_dvd m.nandChannels_pos
    (Nat.dvd_of_mod_eq_zero hasserts.channels)) hasserts.nparts_pos

end

end NvmeVirt.DerivedCounts
