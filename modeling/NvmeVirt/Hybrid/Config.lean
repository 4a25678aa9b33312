import NvmeVirt.Device.Timing

/-!
# The hybrid device

Parameters, addresses and timing of the `HYBRID_SSD` build.  The first
channels of the device are written as SLC and the next ones as QLC, each with
a block shape of its own.  These shapes are fixed by macros; the NAND blocks
themselves are laid out by the `Geometry`, which depends on the capacity.
-/

namespace NvmeVirt.HybridConfig

open NvmeVirt.Bandwidth
open NvmeVirt.Kernel
open NvmeVirt.Layout
open NvmeVirt.Timing

/-- `STORAGE_TYPE_SLC` and `STORAGE_TYPE_QLC`. -/
inductive StorageType
  | slc
  | qlc
  deriving DecidableEq, Repr

/-- What the hybrid build adds to `struct ssdparams`.  `slcPgWrLat`,
`qlcPgWrLat`, `slcBlkErLat` and `qlcBlkErLat` are read by `ssd_advance_nand`
and declared nowhere. -/
structure HybridParams where
  slcChannels : ℕ
  slcLunsPerCh : ℕ
  qlcChannels : ℕ
  qlcLunsPerCh : ℕ
  hotnessTableSize : ℕ
  coldThreshold : ℕ
  migrationInterval : ℕ
  maxMigrationsPerCheck : ℕ
  slcPgsPerBlk : ℕ
  slcBlksPerPl : ℕ
  slcPgsPerOneshotpg : ℕ
  slcOneshotpgsPerBlk : ℕ
  qlcPgsPerBlk : ℕ
  qlcBlksPerPl : ℕ
  qlcPgsPerOneshotpg : ℕ
  qlcOneshotpgsPerBlk : ℕ
  qlcQ1ReadLatency : ℕ
  qlcQ2ReadLatency : ℕ
  qlcQ3ReadLatency : ℕ
  qlcQ4ReadLatency : ℕ
  slcPgWrLat : ℕ
  qlcPgWrLat : ℕ
  slcBlkErLat : ℕ
  qlcBlkErLat : ℕ
  slcTtPgs : ℕ
  qlcTtPgs : ℕ
  pgsPerLunLine : ℕ

/-- A hybrid parameter set as `ssd_init_params` leaves it. -/
structure HybridGeometry extends Geometry, HybridParams where
  slcChannels_pos : 0 < slcChannels
  slcLunsPerCh_pos : 0 < slcLunsPerCh
  qlcChannels_pos : 0 < qlcChannels
  qlcLunsPerCh_pos : 0 < qlcLunsPerCh
  hotnessTableSize_pos : 0 < hotnessTableSize
  hotnessTableSize_lt : hotnessTableSize < 2 ^ 31
  slcBlksPerPl_pos : 0 < slcBlksPerPl
  slcPgsPerOneshotpg_pos : 0 < slcPgsPerOneshotpg
  slcOneshotpgsPerBlk_pos : 0 < slcOneshotpgsPerBlk
  slcPgsPerBlk_eq : slcPgsPerBlk = slcPgsPerOneshotpg * slcOneshotpgsPerBlk
  qlcBlksPerPl_pos : 0 < qlcBlksPerPl
  qlcPgsPerOneshotpg_pos : 0 < qlcPgsPerOneshotpg
  qlcOneshotpgsPerBlk_pos : 0 < qlcOneshotpgsPerBlk
  qlcPgsPerBlk_eq : qlcPgsPerBlk = qlcPgsPerOneshotpg * qlcOneshotpgsPerBlk
  pgsPerLunLine_eq : pgsPerLunLine = plsPerLun * pgsPerBlk
  channels_le : slcChannels + qlcChannels ≤ 2 ^ chBits
  slcLunsPerCh_le : slcLunsPerCh ≤ 2 ^ lunBits
  qlcLunsPerCh_le : qlcLunsPerCh ≤ 2 ^ lunBits
  slcBlksPerPl_le : slcBlksPerPl ≤ 2 ^ blkBits
  qlcBlksPerPl_le : qlcBlksPerPl ≤ 2 ^ blkBits
  slcPgsPerBlk_le : slcPgsPerBlk ≤ 2 ^ pageBits
  qlcPgsPerBlk_le : qlcPgsPerBlk ≤ 2 ^ pageBits

/-- The `HYBRID_` macros of `ssd_config.h`, with what is calculated from the
capacity. -/
def hybridMacros (slcTtPgs qlcTtPgs pgsPerLunLine : ℕ) : HybridParams where
  slcChannels := 2
  slcLunsPerCh := 2
  qlcChannels := 6
  qlcLunsPerCh := 2
  hotnessTableSize := 1024 * 1024
  coldThreshold := 2
  migrationInterval := 1000000000
  maxMigrationsPerCheck := 100
  slcPgsPerBlk := 256
  slcBlksPerPl := 8192
  slcPgsPerOneshotpg := 1
  slcOneshotpgsPerBlk := 256
  qlcPgsPerBlk := 1024
  qlcBlksPerPl := 8192
  qlcPgsPerOneshotpg := 4
  qlcOneshotpgsPerBlk := 256
  qlcQ1ReadLatency := 75000
  qlcQ2ReadLatency := 95000
  qlcQ3ReadLatency := 130000
  qlcQ4ReadLatency := 205000
  slcPgWrLat := 80000
  qlcPgWrLat := 561000
  slcBlkErLat := 0
  qlcBlkErLat := 0
  slcTtPgs := slcTtPgs
  qlcTtPgs := qlcTtPgs
  pgsPerLunLine := pgsPerLunLine

theorem macros_fit_bits :
    2 + 6 ≤ 2 ^ chBits ∧ 2 ≤ 2 ^ lunBits ∧ 8192 ≤ 2 ^ blkBits ∧
      256 ≤ 2 ^ pageBits ∧ 1024 ≤ 2 ^ pageBits := by decide

theorem hotnessTableSize_pos : 0 < 1024 * 1024 := by decide

theorem hotnessTableSize_lt : 1024 * 1024 < 2 ^ 31 := by decide

theorem macros_blocks : 256 = 1 * 256 ∧ 1024 = 4 * 256 := by decide

/-- Any layout of the NAND blocks, with the `HYBRID_` macros. -/
def withMacros (g : Geometry) (slcTtPgs qlcTtPgs : ℕ) : HybridGeometry where
  toGeometry := g
  toHybridParams := hybridMacros slcTtPgs qlcTtPgs (g.plsPerLun * g.pgsPerBlk)
  slcChannels_pos := Nat.succ_pos _
  slcLunsPerCh_pos := Nat.succ_pos _
  qlcChannels_pos := Nat.succ_pos _
  qlcLunsPerCh_pos := Nat.succ_pos _
  hotnessTableSize_pos := hotnessTableSize_pos
  hotnessTableSize_lt := hotnessTableSize_lt
  slcBlksPerPl_pos := Nat.succ_pos _
  slcPgsPerOneshotpg_pos := Nat.succ_pos _
  slcOneshotpgsPerBlk_pos := Nat.succ_pos _
  slcPgsPerBlk_eq := macros_blocks.1
  qlcBlksPerPl_pos := Nat.succ_pos _
  qlcPgsPerOneshotpg_pos := Nat.succ_pos _
  qlcOneshotpgsPerBlk_pos := Nat.succ_pos _
  qlcPgsPerBlk_eq := macros_blocks.2
  pgsPerLunLine_eq := rfl
  channels_le := macros_fit_bits.1
  slcLunsPerCh_le := macros_fit_bits.2.1
  qlcLunsPerCh_le := macros_fit_bits.2.1
  slcBlksPerPl_le := macros_fit_bits.2.2.1
  qlcBlksPerPl_le := macros_fit_bits.2.2.1
  slcPgsPerBlk_le := macros_fit_bits.2.2.2.1
  qlcPgsPerBlk_le := macros_fit_bits.2.2.2.2

/-- A device of eight channels with two dies each, the smallest the macros
allow, whose last block is `lastBlk` and whose blocks end with page `lastPg`.
-/
def eightChannels (lastBlk : Fin (2 ^ blkBits)) (lastPg : Fin (2 ^ pageBits)) :
    Geometry where
  toSsdParams :=
    { (oneDie lastBlk lastPg).toSsdParams with
      lunsPerCh := 2
      nchs := 8
      pgsPerCh := (lastPg + 1) * (lastBlk + 1) * 2
      ttPgs := (lastPg + 1) * (lastBlk + 1) * 2 * 8
      pgsPerLine := 16 * (lastPg + 1)
      ttLuns := 16 }
  secsz_eq := rfl
  secsPerPg_eq := rfl
  pgsz_eq := rfl
  nchs_pos := Nat.succ_pos _
  lunsPerCh_pos := Nat.succ_pos _
  plsPerLun_pos := Nat.one_pos
  blksPerPl_pos := (oneDie lastBlk lastPg).blksPerPl_pos
  pgsPerOneshotpg_pos := Nat.one_pos
  oneshotpgsPerBlk_pos := (oneDie lastBlk lastPg).oneshotpgsPerBlk_pos
  pgsPerFlashpg_pos := Nat.one_pos
  maxChXferSize_pos := (oneDie lastBlk lastPg).maxChXferSize_pos
  pgsPerBlk_eq := (Nat.one_mul _).symm
  pgsPerPl_eq := rfl
  pgsPerLun_eq := (Nat.mul_one _).symm
  pgsPerCh_eq := rfl
  ttPgs_eq := rfl
  ttLuns_eq := rfl
  pgsPerLine_eq := rfl
  ttLines_eq := (Nat.mul_one _).symm
  nchs_le := Nat.le_trans (Nat.le_add_left _ _) macros_fit_bits.1
  lunsPerCh_le := macros_fit_bits.2.1
  plsPerLun_le := (oneDie lastBlk lastPg).plsPerLun_le
  blksPerPl_le := (oneDie lastBlk lastPg).blksPerPl_le
  pgsPerBlk_le := (oneDie lastBlk lastPg).pgsPerBlk_le

/-- The hybrid device over these blocks. -/
def hybridDevice (lastBlk : Fin (2 ^ blkBits)) (lastPg : Fin (2 ^ pageBits)) :
    HybridGeometry :=
  withMacros (eightChannels lastBlk lastPg) (4 * ((lastBlk + 1) * (lastPg + 1)))
    (12 * ((lastBlk + 1) * (lastPg + 1)))

theorem lastBlk_lt : 8191 < 2 ^ blkBits := by decide

theorem lastPg_lt : 1023 < 2 ^ pageBits := by decide

/-- A device whose blocks have room for both block shapes. -/
def fullDevice : HybridGeometry :=
  hybridDevice ⟨8191, lastBlk_lt⟩ ⟨1023, lastPg_lt⟩

theorem bandwidths_pos :
    0 < u32 (bandwidthToMaxCredits 800) ∧
      0 < u32 (bandwidthToMaxCredits 3360) := by decide

/-- The device `ssd_init` sets up, with a clock that stands still. -/
def idleSsd (lastBlk : Fin (2 ^ blkBits)) (lastPg : Fin (2 ^ pageBits)) : Ssd :=
  ssdInit (eightChannels lastBlk lastPg).toSsdParams bandwidths_pos.1
    bandwidths_pos.2 ⟨fun _ => 0, 0⟩

/-! ## Addresses -/

/-- An address made of these coordinates, each cut to its bit field. -/
def packPpa (ch lun pl blk pg : ℕ) : Ppa where
  ch := ch % 2 ^ chBits
  lun := lun % 2 ^ lunBits
  pl := pl % 2 ^ plBits
  blk := blk % 2 ^ blkBits
  pg := pg % 2 ^ pageBits

theorem packPpa_of_lt {ch lun pl blk pg : ℕ} (hch : ch < 2 ^ chBits)
    (hlun : lun < 2 ^ lunBits) (hpl : pl < 2 ^ plBits)
    (hblk : blk < 2 ^ blkBits) (hpg : pg < 2 ^ pageBits) :
    packPpa ch lun pl blk pg =
      { ch := ch, lun := lun, pl := pl, blk := blk, pg := pg } := by
  rw [packPpa, Nat.mod_eq_of_lt hch, Nat.mod_eq_of_lt hlun,
    Nat.mod_eq_of_lt hpl, Nat.mod_eq_of_lt hblk, Nat.mod_eq_of_lt hpg]

/-- `ppa->ppa`, the address as one word. -/
def rawPpa (p : Ppa) : ℕ :=
  p.pg + p.blk * 2 ^ pageBits + p.pl * 2 ^ (pageBits + blkBits) +
    p.lun * 2 ^ (pageBits + blkBits + plBits) +
    p.ch * 2 ^ (pageBits + blkBits + plBits + lunBits)

section

variable (h : HybridParams)

/-- `get_storage_type`. -/
def getStorageType (p : Ppa) : StorageType :=
  if rawPpa p < h.slcTtPgs then .slc else .qlc

/-- `get_qlc_region`. -/
def getQlcRegion (p : Ppa) : ℕ :=
  let qlcPageOffset := sub64 (rawPpa p) h.slcTtPgs
  let regionSize := h.qlcTtPgs / 4
  if qlcPageOffset < regionSize then 0
  else if qlcPageOffset < regionSize * 2 then 1
  else if qlcPageOffset < regionSize * 3 then 2
  else 3

/-- The latency `ssd_advance_nand` takes for a QLC read. -/
def qlcReadLatency (p : Ppa) : ℕ :=
  match getQlcRegion h p with
  | 0 => h.qlcQ1ReadLatency
  | 1 => h.qlcQ2ReadLatency
  | 2 => h.qlcQ3ReadLatency
  | 3 => h.qlcQ4ReadLatency
  | _ => h.qlcQ1ReadLatency

/-- The parameters with the latencies of the tier `get_storage_type` puts the
address in. -/
def tierParams (spp : SsdParams) (p : Ppa) : SsdParams :=
  match getStorageType h p with
  | .slc => { spp with pgWrLat := h.slcPgWrLat, blkErLat := h.slcBlkErLat }
  | .qlc =>
      { spp with
        slcReadLatency := qlcReadLatency h p
        pgWrLat := h.qlcPgWrLat
        blkErLat := h.qlcBlkErLat }

/-- `ssd_advance_nand`, hybrid build. -/
def advanceNand (spp : SsdParams) (ssd : Ssd) (ncmd : NandCmd) : ℕ × Ssd :=
  match ncmd.ppa with
  | none => ssdAdvanceNand spp ssd ncmd
  | some p => ssdAdvanceNand (tierParams h spp p) ssd ncmd

end

end NvmeVirt.HybridConfig
