import NvmeVirt.Conv.Partitions
import NvmeVirt.Hybrid.Shapes

/-!
# The advertised size and the pages behind it

`conv_init_namespace` advertises less than the capacity, and `ssd_init_params`
rounds the blocks and the oneshot pages up, so that the pages of a partition
hold its share of the capacity.  What the division by the partitions cuts off
is less than a logical block.  A sum that wraps around in a rounded division
leaves no blocks, and a partition without blocks is never initialised.
-/

namespace NvmeVirt.AdvertisedSize

open NvmeVirt.DerivedCounts
open NvmeVirt.HybridConfig
open NvmeVirt.InitParams
open NvmeVirt.Kernel
open NvmeVirt.Layout
open NvmeVirt.Mapping
open NvmeVirt.Partitions
open NvmeVirt.Shapes
open NvmeVirt.Timing
open NvmeVirt.Transition
open NvmeVirt.Write

/-- `ns->size`, as `conv_init_namespace` sets it. -/
def advertisedSize (size pbaPcent : ℕ) : ℕ := u64 (size * 100) / pbaPcent

/-- `init_lines`: the lines, which are all free. -/
def initLines (spp : SsdParams) : Except InitFault (List ℕ) := do
  let ttLines := u32 spp.blksPerPl
  initAssert (ttLines = spp.ttLines)
  return List.range ttLines

/-- `prepare_write_pointer`, as far as it takes a line of the free ones. -/
def prepareWritePointer (freeLines : List ℕ) :
    Except InitFault (List ℕ) := do
  initAssert (freeLines ≠ [])
  return freeLines.tail

/-- `conv_init_ftl`, as far as it may fail: a line is taken for the host and
one for garbage collection. -/
def convInitFtl (spp : SsdParams) : Except InitFault Unit := do
  let freeLines ← initLines spp
  let freeLines ← prepareWritePointer freeLines
  let _ ← prepareWritePointer freeLines

/-- `conv_init_namespace`: the parameters and the size of the namespace. -/
def convInitNamespace (m : SsdMacros)
    (flashpgsPerBlk size nparts pbaPcent : ℕ) :
    Except InitFault (SsdParams × ℕ) := do
  let (spp, _) ← ssdInitParams m flashpgsPerBlk size nparts
  (List.range nparts).forM fun _ => convInitFtl spp
  return (spp, advertisedSize size pbaPcent)

/-- The blocks of the command lie within the namespace. -/
def Inside (nsSize : ℕ) (cmd : RwCommand) : Prop :=
  lbaToByte (cmd.slba + cmd.length + 1) ≤ nsSize

/-- The command passes the range check of `conv_read`. -/
def InRange (spp : SsdParams) (nrParts : ℕ) (cmd : RwCommand) : Prop :=
  u64 (cmd.slba + cmd.length) / spp.secsPerPg / nrParts < spp.ttPgs

/-- `conv_read` fails on the commands that do not pass. -/
theorem convRead_eq_none_iff {g : Geometry} {lat : ReadLatency}
    {nrParts nsecsStart : ℕ} {s : ConvNs} {cmd : RwCommand} :
    convRead g lat nrParts s nsecsStart cmd = none ↔
      ¬ InRange g.toSsdParams nrParts cmd := by
  rw [convRead, InRange, not_lt]
  by_cases hout :
      g.ttPgs ≤ u64 (cmd.slba + cmd.length) / g.secsPerPg / nrParts
  · exact iff_of_true (if_pos hout) hout
  · refine iff_of_false ?_ hout
    dsimp only
    rw [if_neg hout]
    exact Option.some_ne_none _

section

variable {m : SsdMacros} {flashpgsPerBlk size nparts pbaPcent nsSize : ℕ}
  {spp : SsdParams} {cmd : RwCommand}

/-! ## Initialisation -/

theorem blksPerPl_pos_of_initFtl (hrun : convInitFtl spp = .ok ()) :
    0 < spp.blksPerPl := by
  rw [convInitFtl] at hrun
  obtain ⟨_, hlines, hrun⟩ := bind_eq_ok hrun
  obtain ⟨_, hfirst, -⟩ := bind_eq_ok hrun
  obtain ⟨_, -, hlines⟩ := bind_eq_ok hlines
  cases hlines
  obtain ⟨_, hfree, -⟩ := bind_eq_ok hfirst
  by_contra hnone
  rw [Nat.eq_zero_of_not_pos hnone] at hfree
  exact of_initAssert hfree rfl

/-- What `conv_init_namespace` leaves, of partitions that have blocks. -/
theorem of_convInitNamespace
    (hinit : convInitNamespace m flashpgsPerBlk size nparts pbaPcent =
      .ok (spp, nsSize)) :
    (∃ hp, ssdInitParams m flashpgsPerBlk size nparts = .ok (spp, hp)) ∧
      0 < spp.blksPerPl ∧ nsSize = advertisedSize size pbaPcent := by
  obtain ⟨⟨spp', hp⟩, hparams, hinit⟩ := bind_eq_ok hinit
  obtain ⟨_, hftls, hinit⟩ := bind_eq_ok hinit
  obtain ⟨rfl, rfl⟩ := Prod.mk.inj (Except.ok.inj hinit)
  refine ⟨⟨hp, hparams⟩, ?_, rfl⟩
  -- there is at least one partition
  obtain ⟨less, hless⟩ := Nat.exists_eq_add_one_of_ne_zero
    (of_ssdInitParams hparams).1.nparts_pos.ne'
  rw [hless, List.range_succ_eq_map] at hftls
  obtain ⟨_, hfirst, -⟩ := bind_eq_ok
    (show (convInitFtl spp' >>= fun _ => _) = _ from hftls)
  exact blksPerPl_pos_of_initFtl hfirst

/-! ## Rounded division -/

theorem le_mul_divRoundUp64 {value unit : ℕ} (hunit : 0 < unit)
    (hsum : value + unit ≤ 2 ^ 64) : value ≤ unit * divRoundUp64 value unit := by
  rw [divRoundUp64, u64_of_lt (by omega)]
  exact (divRoundUp_le_iff hunit).mp le_rfl

/-- The planes of a partition, with `size` units on each of them. -/
theorem shapeUnit_eq (m : SsdMacros) (nparts unit : ℕ) :
    shapeUnit m nparts unit = unit * shapeUnit m nparts 1 := by
  rw [shapeUnit, shapeUnit]
  ring

/-- The blocks of a partition hold its share of the capacity. -/
theorem share_le_blocks (hasserts : Asserts m nparts)
    (hfits : Fits m size nparts) (hsize : size * 100 < 2 ^ 64)
    (hproduct : ¬ 0 < m.blksPerPln → shapeUnit m nparts m.blkSize < 2 ^ 64)
    (hsome : 0 < blksPerPlOf m size nparts) :
    size / nparts ≤ blkSizeOf m size nparts *
      shapeUnit m nparts (blksPerPlOf m size nparts) := by
  have hshare : size / nparts ≤ size := Nat.div_le_self _ _
  have hplanes : 0 < shapeUnit m nparts 1 := by
    rw [shapeUnit, Nat.one_mul]
    exact Nat.mul_pos (Nat.mul_pos m.plnsPerLun_pos m.lunsPerNandCh_pos)
      (nchs_pos hasserts)
  have hunitFits := hfits.unit
  rw [UnitFits] at hunitFits
  rw [blksPerPlOf] at hsome
  rw [blkSizeOf, blksPerPlOf]
  by_cases hblks : 0 < m.blksPerPln
  · rw [if_pos hblks] at hunitFits
    rw [if_pos hblks, if_pos hblks, Nat.mul_comm]
    refine le_mul_divRoundUp64 ?_ (by omega)
    rw [shapeUnit_eq]
    exact Nat.mul_pos hblks hplanes
  · have hunit : 0 < shapeUnit m nparts m.blkSize := by
      rw [shapeUnit_eq]
      exact Nat.mul_pos (hasserts.blkSize_pos hblks) hplanes
    rw [if_neg hblks, u64_of_lt (hproduct hblks)] at hsome
    -- blocks there are, so that the sum of the rounded division is in range
    have hsum := ((le_divRoundUp64_iff Nat.one_pos hunit (by omega)).mp
      hsome).2
    rw [if_neg hblks, if_neg hblks, u64_of_lt (hproduct hblks),
      shapeUnit_eq m nparts (divRoundUp64 _ _), Nat.mul_left_comm,
      Nat.mul_comm _ (m.blkSize * _), ← shapeUnit_eq]
    exact le_mul_divRoundUp64 hunit hsum

/-- No block comes near 64 bits of bytes. -/
theorem blkSizeOf_lt (hfits : Fits m size nparts)
    (hsize : size * 100 < 2 ^ 64) : blkSizeOf m size nparts < 2 ^ 63 := by
  have hshare : size / nparts ≤ size := Nat.div_le_self _ _
  have hunitFits := hfits.unit
  rw [UnitFits] at hunitFits
  rw [blkSizeOf]
  by_cases hblks : 0 < m.blksPerPln
  · rw [if_pos hblks] at hunitFits ⊢
    rw [divRoundUp64, u64_of_lt (by omega)]
    exact (Nat.div_le_self _ _).trans_lt (by omega)
  · rw [if_neg hblks]
    exact m.blkSize_lt

/-- The pages of a block hold its bytes. -/
theorem blkSize_le_pages (hasserts : Asserts m nparts)
    (hfits : Fits m size nparts) (hsize : size * 100 < 2 ^ 64) :
    blkSizeOf m size nparts ≤ pgsPerBlkOf m size nparts * 4096 := by
  have honeshot := m.oneshotPageSize_lt
  have hblkSize := blkSizeOf_lt hfits hsize
  have hpages : m.oneshotPageSize / (512 * 8) * (512 * 8) =
      m.oneshotPageSize :=
    Nat.div_mul_cancel (Nat.dvd_of_mod_eq_zero hasserts.aligned.1)
  calc blkSizeOf m size nparts
      ≤ m.oneshotPageSize * oneshotpgsPerBlkOf m size nparts :=
        le_mul_divRoundUp64 m.oneshotPageSize_pos (by omega)
    _ = m.oneshotPageSize / (512 * 8) * (512 * 8) *
          oneshotpgsPerBlkOf m size nparts := by rw [hpages]
    _ = pgsPerBlkOf m size nparts * 4096 := by
        rw [pgsPerBlkOf]
        ring

/-- The pages of a partition hold its share of the capacity. -/
theorem share_le_pages (hasserts : Asserts m nparts)
    (hfits : Fits m size nparts) (hsize : size * 100 < 2 ^ 64)
    (hproduct : ¬ 0 < m.blksPerPln → shapeUnit m nparts m.blkSize < 2 ^ 64)
    (hsome : 0 < blksPerPlOf m size nparts) :
    size / nparts ≤ (sppOf m flashpgsPerBlk size nparts).ttPgs * 4096 := by
  calc size / nparts
      ≤ blkSizeOf m size nparts *
          shapeUnit m nparts (blksPerPlOf m size nparts) :=
        share_le_blocks hasserts hfits hsize hproduct hsome
    _ ≤ pgsPerBlkOf m size nparts * 4096 *
          shapeUnit m nparts (blksPerPlOf m size nparts) :=
        Nat.mul_le_mul_right _ (blkSize_le_pages hasserts hfits hsize)
    _ = (sppOf m flashpgsPerBlk size nparts).ttPgs * 4096 := by
        dsimp only [sppOf]
        rw [shapeUnit]
        ring

/-- A page of the advertised size has a place in its partition. -/
theorem lpn_lt (hpages : size / nparts ≤ spp.ttPgs * 4096)
    (hparts : 0 < nparts) (hfew : nparts ≤ 256) {lba : ℕ}
    (hlba : (lba + 1) * 512 ≤ size) : lba / 8 / nparts < spp.ttPgs := by
  have hshare : size < (size / nparts + 1) * nparts :=
    (Nat.div_lt_iff_lt_mul hparts).mp (Nat.lt_succ_self _)
  have hparted : (size / nparts + 1) * nparts ≤
      (spp.ttPgs * 4096 + 1) * nparts :=
    Nat.mul_le_mul_right _ (by omega)
  have hbytes : (spp.ttPgs * 4096 + 1) * nparts =
      spp.ttPgs * nparts * 4096 + nparts := by ring
  rw [Nat.div_lt_iff_lt_mul hparts]
  -- the partitions cut off less than the 512 bytes of the last block
  omega

end

/-- Every command within the advertised size passes the range check. -/
theorem inRange_of_inside {m : SsdMacros}
    {flashpgsPerBlk size nparts pbaPcent nsSize : ℕ} {spp : SsdParams}
    (hinit : convInitNamespace m flashpgsPerBlk size nparts pbaPcent =
      .ok (spp, nsSize))
    (hfits : Fits m size nparts)
    (hproduct : ¬ 0 < m.blksPerPln → shapeUnit m nparts m.blkSize < 2 ^ 64)
    (hchannels : m.nandChannels ≤ 256) (hpba : 100 ≤ pbaPcent)
    (hsize : size * 100 < 2 ^ 64) :
    ∀ cmd, Inside nsSize cmd → InRange spp nparts cmd := by
  intro cmd hinside
  obtain ⟨⟨hp, hparams⟩, hsome, rfl⟩ := of_convInitNamespace hinit
  obtain ⟨hasserts, rfl, -⟩ := of_ssdInitParams_fits hparams hfits
  have hpages : size / nparts ≤
      (sppOf m flashpgsPerBlk size nparts).ttPgs * 4096 :=
    share_le_pages hasserts hfits hsize hproduct hsome
  have hfew : nparts ≤ 256 :=
    (Nat.le_of_dvd m.nandChannels_pos
      (Nat.dvd_of_mod_eq_zero hasserts.channels)).trans hchannels
  have hpercent : size * 100 ≤ pbaPcent * size := by
    rw [Nat.mul_comm]
    exact Nat.mul_le_mul_right size hpba
  have hadvertised : advertisedSize size pbaPcent ≤ size := by
    rw [advertisedSize, u64_of_lt hsize]
    exact Nat.div_le_of_le_mul hpercent
  have hbytes : (cmd.slba + cmd.length + 1) * 512 ≤ size :=
    le_trans hinside hadvertised
  rw [InRange, u64_of_lt (by omega)]
  exact lpn_lt hpages hasserts.nparts_pos hfew hbytes

theorem inRange_of_inside_gigabyte :
    ∃ spp nsSize,
      convInitNamespace smallPages 0 (2 ^ 30) 1 107 = .ok (spp, nsSize) ∧
      ∀ cmd, Inside nsSize cmd → InRange spp 1 cmd := by
  have hinit : (convInitNamespace smallPages 0 (2 ^ 30) 1 107).isOk = true := by
    decide +kernel
  obtain ⟨⟨spp, nsSize⟩, hinit⟩ := exists_of_isOk hinit
  exact ⟨spp, nsSize, hinit, inRange_of_inside hinit smallPages_fits_gigabyte
    (fun hnot => absurd (by decide) hnot) (by decide) (by decide) (by decide)⟩

end NvmeVirt.AdvertisedSize
