import NvmeVirt.Hybrid.Config

/-!
# The parameters of a hybrid device

`ssd_init_params` shares the channels and the capacity out to the partitions
and calculates the shape of the NAND blocks from them; the shapes of the SLC
and of the QLC blocks are macros.  The macros of the NAND are not defined in
this tree and may be any.
-/

namespace NvmeVirt.InitParams

open NvmeVirt.HybridConfig
open NvmeVirt.Kernel
open NvmeVirt.Layout
open NvmeVirt.Transition

/-- The macros that `ssd_init_params` reads and `ssd_config.h` leaves to the
configuration: counts and sizes that are each an `int`, and a `BLK_SIZE` that
may be a `long`.  A `BLKS_PER_PLN` of 0 asks for `BLK_SIZE`. -/
structure SsdMacros where
  nandChannels : ℕ
  plnsPerLun : ℕ
  lunsPerNandCh : ℕ
  blksPerPln : ℕ
  blkSize : ℕ
  oneshotPageSize : ℕ
  flashPageSize : ℕ
  writeUnitSize : ℕ
  writeEarlyCompletion : Bool
  nandProgLatency : ℕ
  nandEraseLatency : ℕ
  maxChXferSize : ℕ
  fwChXferLatency : ℕ
  fwWbufLatency0 : ℕ
  fwWbufLatency1 : ℕ
  nandChannelBandwidth : ℕ
  pcieBandwidth : ℕ
  globalWbSize : ℕ
  nandChannels_pos : 0 < nandChannels
  plnsPerLun_pos : 0 < plnsPerLun
  lunsPerNandCh_pos : 0 < lunsPerNandCh
  oneshotPageSize_pos : 0 < oneshotPageSize
  flashPageSize_pos : 0 < flashPageSize
  blkSize_lt : blkSize < 2 ^ 63
  oneshotPageSize_lt : oneshotPageSize < 2 ^ 31

/-- Ways in which `ssd_init_params` leaves no parameters. -/
inductive InitFault
  | assertion
  | divideByZero
  deriving DecidableEq, Repr

def initAssert (condition : Prop) [Decidable condition] :
    Except InitFault Unit :=
  if condition then .ok () else .error .assertion

/-- What is left of a value that is kept in an `int`, as the 64 bits that the
`int` is extended to: a negative one is `2 ^ 63` and more. -/
def intBits (value : ℕ) : ℕ :=
  if u32 value < 2 ^ 31 then u32 value else u32 value + (2 ^ 64 - 2 ^ 32)

/-- `DIV_ROUND_UP` of `uint64_t` values. -/
def divRoundUp64 (value unit : ℕ) : ℕ := u64 (value + unit - 1) / unit

section

variable (m : SsdMacros)

/-- `blks_per_pl` and `blk_size`, for a partition of `nchs` channels and
`capacity` bytes. -/
def blockShape (nchs capacity : ℕ) : Except InitFault (ℕ × ℕ) :=
  if 0 < m.blksPerPln then do
    let blksPerPl := intBits m.blksPerPln
    let unit := intBits (blksPerPl * m.plnsPerLun * m.lunsPerNandCh * nchs)
    if unit = 0 then
      throw .divideByZero
    return (blksPerPl, divRoundUp64 capacity unit)
  else do
    initAssert (0 < m.blkSize)
    let unit := u64 (m.blkSize * m.plnsPerLun * m.lunsPerNandCh * nchs)
    if unit = 0 then
      throw .divideByZero
    return (intBits (divRoundUp64 capacity unit), m.blkSize)

/-- The number of pages of a tier: `channels` of `total` channels get their
share of the capacity, divided by the luns and rounded down to pages. -/
def tierPages (capacity channels lunsPerCh total pgsz : ℕ) : ℕ :=
  channels * lunsPerCh *
    (u64 (capacity * channels) / total / channels / lunsPerCh / pgsz)

/-- `slc_tt_pgs`. -/
def slcPages (capacity : ℕ) : ℕ := tierPages capacity 2 2 (2 + 6) (512 * 8)

/-- `qlc_tt_pgs`. -/
def qlcPages (capacity : ℕ) : ℕ := tierPages capacity 6 2 (2 + 6) (512 * 8)

/-- `ssd_init_params`.  `flashpgsPerBlk` is what the structure held, since
`flashpgs_per_blk` is not assigned. -/
def ssdInitParams (flashpgsPerBlk capacity nparts : ℕ) :
    Except InitFault (SsdParams × HybridParams) := do
  if nparts = 0 then
    throw .divideByZero
  initAssert (m.nandChannels % nparts = 0)
  let nchs := m.nandChannels / nparts
  let capacity := capacity / nparts
  let (blksPerPl, blkSize) ← blockShape m nchs capacity
  initAssert (m.oneshotPageSize % (512 * 8) = 0 ∧
    m.flashPageSize % (512 * 8) = 0)
  initAssert (m.oneshotPageSize % m.flashPageSize = 0)
  let pgsPerOneshotpg := m.oneshotPageSize / (512 * 8)
  let oneshotpgsPerBlk := intBits (divRoundUp64 blkSize m.oneshotPageSize)
  let pgsPerBlk := intBits (pgsPerOneshotpg * oneshotpgsPerBlk)
  -- the products of `int` values are cut to 32 bits, the others to 64
  let pgsPerPl := intBits (pgsPerBlk * blksPerPl)
  let pgsPerLun := u64 (pgsPerPl * m.plnsPerLun)
  let pgsPerCh := u64 (pgsPerLun * m.lunsPerNandCh)
  let ttPgs := u64 (pgsPerCh * nchs)
  let ttLuns := intBits (m.lunsPerNandCh * nchs)
  let pgsPerLine := u64 (ttLuns * pgsPerBlk)
  let ttLines := intBits (blksPerPl * m.plnsPerLun)
  let pgsPerLunLine := u64 (m.plnsPerLun * pgsPerBlk)
  return (
    { secsz := 512
      secsPerPg := 8
      pgsz := 512 * 8
      pgsPerFlashpg := m.flashPageSize / (512 * 8)
      flashpgsPerBlk := flashpgsPerBlk
      pgsPerOneshotpg := pgsPerOneshotpg
      oneshotpgsPerBlk := oneshotpgsPerBlk
      pgsPerBlk := pgsPerBlk
      blksPerPl := blksPerPl
      plsPerLun := m.plnsPerLun
      lunsPerCh := m.lunsPerNandCh
      nchs := nchs
      writeUnitSize := m.writeUnitSize
      writeEarlyCompletion := m.writeEarlyCompletion
      slcReadLatency := 30000
      pgWrLat := m.nandProgLatency
      blkErLat := m.nandEraseLatency
      maxChXferSize := m.maxChXferSize
      fwWbufLat0 := m.fwWbufLatency0
      fwWbufLat1 := m.fwWbufLatency1
      fwChXferLat := m.fwChXferLatency
      chBandwidth := m.nandChannelBandwidth
      pcieBandwidth := m.pcieBandwidth
      writeBufferSize := m.globalWbSize
      pgsPerPl := pgsPerPl
      pgsPerLun := pgsPerLun
      pgsPerCh := pgsPerCh
      ttPgs := ttPgs
      pgsPerLine := pgsPerLine
      ttLines := ttLines
      ttLuns := ttLuns },
    hybridMacros (slcPages capacity) (qlcPages capacity) pgsPerLunLine)

end

/-! ## Values that fit -/

theorem of_initAssert {condition : Prop} [Decidable condition]
    (hrun : initAssert condition = .ok ()) : condition := by
  by_contra hnot
  rw [initAssert, if_neg hnot] at hrun
  cases hrun

theorem initAssert_of {condition : Prop} [Decidable condition]
    (h : condition) : initAssert condition = .ok () := if_pos h

theorem intBits_of_lt {value : ℕ} (h : value < 2 ^ 31) :
    intBits value = value := by
  have hbits : u32 value = value := u32_of_lt (by omega)
  rw [intBits, hbits, if_pos h]

/-- An `int` is kept as it is. -/
theorem intBits_intBits (value : ℕ) : intBits (intBits value) =
    intBits value := by
  have hbits := u32_lt value
  have hsame : u32 (intBits value) = u32 value := by
    rw [intBits]
    split_ifs
    · exact u32_of_lt hbits
    · rw [u32]
      omega
  rw [intBits, hsame, ← intBits]

end NvmeVirt.InitParams
