import NvmeVirt.Core.MixedRadix
import NvmeVirt.Device.Kernel

/-!
# Device geometry and physical page addresses

`SsdParams` is the part of `struct ssdparams` that the flash translation
layers read.  A `Geometry` is a parameter set as `ssd_init_params` leaves it:
every derived count is the product it is documented to be, and every
coordinate fits its bit field of `struct ppa`, so that storing a coordinate in
an address loses nothing.  `flashpgs_per_blk` is not among the derived counts
because `ssd_init_params` never assigns it.
-/

namespace NvmeVirt.Layout

open NvmeVirt.Kernel
open NvmeVirt.MixedRadix

/-- `struct ssdparams`. -/
structure SsdParams where
  secsz : ℕ
  secsPerPg : ℕ
  pgsz : ℕ
  pgsPerFlashpg : ℕ
  flashpgsPerBlk : ℕ
  pgsPerOneshotpg : ℕ
  oneshotpgsPerBlk : ℕ
  pgsPerBlk : ℕ
  blksPerPl : ℕ
  plsPerLun : ℕ
  lunsPerCh : ℕ
  nchs : ℕ
  writeUnitSize : ℕ
  writeEarlyCompletion : Bool
  slcReadLatency : ℕ
  pgWrLat : ℕ
  blkErLat : ℕ
  maxChXferSize : ℕ
  fwWbufLat0 : ℕ
  fwWbufLat1 : ℕ
  fwChXferLat : ℕ
  chBandwidth : ℕ
  pcieBandwidth : ℕ
  writeBufferSize : ℕ
  pgsPerPl : ℕ
  pgsPerLun : ℕ
  pgsPerCh : ℕ
  ttPgs : ℕ
  pgsPerLine : ℕ
  ttLines : ℕ
  ttLuns : ℕ

/-- `BLK_BITS`, `PAGE_BITS`, `PL_BITS`, `LUN_BITS` and `CH_BITS`. -/
def blkBits : ℕ := 16
def pageBits : ℕ := 16
def plBits : ℕ := 8
def lunBits : ℕ := 8
def chBits : ℕ := 8

/-- A parameter set with the counts `ssd_init_params` computes. -/
structure Geometry extends SsdParams where
  secsz_eq : secsz = 512
  secsPerPg_eq : secsPerPg = 8
  pgsz_eq : pgsz = secsz * secsPerPg
  nchs_pos : 0 < nchs
  lunsPerCh_pos : 0 < lunsPerCh
  plsPerLun_pos : 0 < plsPerLun
  blksPerPl_pos : 0 < blksPerPl
  pgsPerOneshotpg_pos : 0 < pgsPerOneshotpg
  oneshotpgsPerBlk_pos : 0 < oneshotpgsPerBlk
  pgsPerFlashpg_pos : 0 < pgsPerFlashpg
  maxChXferSize_pos : 0 < maxChXferSize
  pgsPerBlk_eq : pgsPerBlk = pgsPerOneshotpg * oneshotpgsPerBlk
  pgsPerPl_eq : pgsPerPl = pgsPerBlk * blksPerPl
  pgsPerLun_eq : pgsPerLun = pgsPerPl * plsPerLun
  pgsPerCh_eq : pgsPerCh = pgsPerLun * lunsPerCh
  ttPgs_eq : ttPgs = pgsPerCh * nchs
  ttLuns_eq : ttLuns = lunsPerCh * nchs
  pgsPerLine_eq : pgsPerLine = ttLuns * pgsPerBlk
  ttLines_eq : ttLines = blksPerPl * plsPerLun
  nchs_le : nchs ≤ 2 ^ chBits
  lunsPerCh_le : lunsPerCh ≤ 2 ^ lunBits
  plsPerLun_le : plsPerLun ≤ 2 ^ plBits
  blksPerPl_le : blksPerPl ≤ 2 ^ blkBits
  pgsPerBlk_le : pgsPerBlk ≤ 2 ^ pageBits

theorem zero_lt_bits : 0 < 2 ^ 16 := by decide

theorem one_lt_bits : 1 < 2 ^ 16 := by decide

theorem two_lt_bits : 2 < 2 ^ 16 := by decide

theorem three_lt_bits : 3 < 2 ^ 16 := by decide

theorem fourteen_lt_bits : 14 < 2 ^ 16 := by decide

theorem seven_lt_bits : 7 < 2 ^ 16 := by decide

theorem fifteen_lt_bits : 15 < 2 ^ 16 := by decide

/-- A device of one channel with one die, whose last block is `lastBlk` and
whose blocks end with page `lastPg`.  Every page is a flash page and a oneshot
page of its own. -/
def oneDie (lastBlk : Fin (2 ^ blkBits)) (lastPg : Fin (2 ^ pageBits)) :
    Geometry where
  secsz := 512
  secsPerPg := 8
  pgsz := 4096
  pgsPerFlashpg := 1
  flashpgsPerBlk := lastPg + 1
  pgsPerOneshotpg := 1
  oneshotpgsPerBlk := lastPg + 1
  pgsPerBlk := lastPg + 1
  blksPerPl := lastBlk + 1
  plsPerLun := 1
  lunsPerCh := 1
  nchs := 1
  writeUnitSize := 512
  writeEarlyCompletion := true
  slcReadLatency := 35760
  pgWrLat := 185000
  blkErLat := 0
  maxChXferSize := 16384
  fwWbufLat0 := 5600
  fwWbufLat1 := 600
  fwChXferLat := 0
  chBandwidth := 800
  pcieBandwidth := 3360
  writeBufferSize := 65536
  pgsPerPl := (lastPg + 1) * (lastBlk + 1)
  pgsPerLun := (lastPg + 1) * (lastBlk + 1)
  pgsPerCh := (lastPg + 1) * (lastBlk + 1)
  ttPgs := (lastPg + 1) * (lastBlk + 1)
  pgsPerLine := lastPg + 1
  ttLines := lastBlk + 1
  ttLuns := 1
  secsz_eq := rfl
  secsPerPg_eq := rfl
  pgsz_eq := rfl
  nchs_pos := one_pos
  lunsPerCh_pos := one_pos
  plsPerLun_pos := one_pos
  blksPerPl_pos := Nat.succ_pos _
  pgsPerOneshotpg_pos := one_pos
  oneshotpgsPerBlk_pos := Nat.succ_pos _
  pgsPerFlashpg_pos := one_pos
  maxChXferSize_pos := by decide
  pgsPerBlk_eq := (Nat.one_mul _).symm
  pgsPerPl_eq := rfl
  pgsPerLun_eq := (Nat.mul_one _).symm
  pgsPerCh_eq := (Nat.mul_one _).symm
  ttPgs_eq := (Nat.mul_one _).symm
  ttLuns_eq := rfl
  pgsPerLine_eq := (Nat.one_mul _).symm
  ttLines_eq := (Nat.mul_one _).symm
  nchs_le := by decide
  lunsPerCh_le := by decide
  plsPerLun_le := by decide
  blksPerPl_le := lastBlk.isLt
  pgsPerBlk_le := lastPg.isLt

theorem two_le_chBits : 2 ≤ 2 ^ chBits := by decide

theorem two_le_lunBits : 2 ≤ 2 ^ lunBits := by decide

/-- A device of two channels with two dies each, whose blocks hold two oneshot
pages of two pages. -/
def fourDies : Geometry :=
  { oneDie ⟨2, two_lt_bits⟩ ⟨3, three_lt_bits⟩ with
    pgsPerOneshotpg := 2
    oneshotpgsPerBlk := 2
    lunsPerCh := 2
    nchs := 2
    pgsPerCh := 24
    ttPgs := 48
    pgsPerLine := 16
    ttLuns := 4
    nchs_pos := two_pos
    lunsPerCh_pos := two_pos
    pgsPerOneshotpg_pos := two_pos
    oneshotpgsPerBlk_pos := two_pos
    pgsPerBlk_eq := rfl
    pgsPerCh_eq := rfl
    ttPgs_eq := rfl
    ttLuns_eq := rfl
    pgsPerLine_eq := rfl
    nchs_le := two_le_chBits
    lunsPerCh_le := two_le_lunBits }

/-- The block part of an address: the fields `ch`, `lun`, `pl` and `blk`. -/
structure BlkAddr where
  ch : ℕ
  lun : ℕ
  pl : ℕ
  blk : ℕ
  deriving DecidableEq, Repr

/-- `struct ppa`, without the reserved bits.  The word `UNMAPPED_PPA` has all
of them set, no address built by the driver has any; a possibly unmapped
address is an `Option Ppa`. -/
structure Ppa extends BlkAddr where
  pg : ℕ
  deriving DecidableEq, Repr

section

variable {chs luns pls blks pgs : ℕ} {p q : Ppa}

/-- Coordinates below their bounds make a page number below their product. -/
theorem digits_lt (hp : p.ch < chs ∧ p.lun < luns ∧ p.pl < pls ∧
      p.blk < blks ∧ p.pg < pgs) :
    (((p.ch * luns + p.lun) * pls + p.pl) * blks + p.blk) * pgs + p.pg <
      chs * luns * pls * blks * pgs := by
  obtain ⟨hch, hlun, hpl, hblk, hpg⟩ := hp
  exact digit_lt (digit_lt (digit_lt (digit_lt hch hlun) hpl) hblk) hpg

/-- Coordinates below their bounds can be read off the page number. -/
theorem ppa_eq_of_digits
    (hp : p.lun < luns ∧ p.pl < pls ∧ p.blk < blks ∧ p.pg < pgs)
    (hq : q.lun < luns ∧ q.pl < pls ∧ q.blk < blks ∧ q.pg < pgs)
    (heq : (((p.ch * luns + p.lun) * pls + p.pl) * blks + p.blk) * pgs + p.pg =
      (((q.ch * luns + q.lun) * pls + q.pl) * blks + q.blk) * pgs + q.pg) :
    p = q := by
  obtain ⟨hblkIdx, hpg⟩ := digit_inj hp.2.2.2 hq.2.2.2 heq
  obtain ⟨hplIdx, hblk⟩ := digit_inj hp.2.2.1 hq.2.2.1 hblkIdx
  obtain ⟨hlunIdx, hpl⟩ := digit_inj hp.2.1 hq.2.1 hplIdx
  obtain ⟨hch, hlun⟩ := digit_inj hp.1 hq.1 hlunIdx
  obtain ⟨⟨ch, lun, pl, blk⟩, pg⟩ := p
  obtain ⟨⟨ch', lun', pl', blk'⟩, pg'⟩ := q
  cases hch
  cases hlun
  cases hpl
  cases hblk
  cases hpg
  rfl

end

section

variable (g : Geometry)

theorem pgsPerBlk_pos : 0 < g.pgsPerBlk := by
  rw [g.pgsPerBlk_eq]
  exact Nat.mul_pos g.pgsPerOneshotpg_pos g.oneshotpgsPerBlk_pos

theorem pgsPerLine_pos : 0 < g.pgsPerLine := by
  rw [g.pgsPerLine_eq, g.ttLuns_eq]
  exact Nat.mul_pos (Nat.mul_pos g.lunsPerCh_pos g.nchs_pos)
    (pgsPerBlk_pos g)

theorem pgsz_eq_4096 : g.pgsz = 4096 := by
  rw [g.pgsz_eq, g.secsz_eq, g.secsPerPg_eq]

/-- `valid_ppa`. -/
def ValidPpa (p : Ppa) : Prop :=
  p.ch < g.nchs ∧ p.lun < g.lunsPerCh ∧ p.pl < g.plsPerLun ∧
    p.blk < g.blksPerPl ∧ p.pg < g.pgsPerBlk

instance (p : Ppa) : Decidable (ValidPpa g p) := by
  unfold ValidPpa
  infer_instance

/-- The block coordinates of a valid address. -/
def ValidBlk (b : BlkAddr) : Prop :=
  b.ch < g.nchs ∧ b.lun < g.lunsPerCh ∧ b.pl < g.plsPerLun ∧
    b.blk < g.blksPerPl

/-- `valid_lpn`. -/
def validLpn (lpn : ℕ) : Prop := lpn < g.ttPgs

instance (lpn : ℕ) : Decidable (validLpn g lpn) :=
  inferInstanceAs (Decidable (lpn < g.ttPgs))

/-- The page number `ppa2pgidx` computes. -/
def pgidx (p : Ppa) : ℕ :=
  p.ch * g.pgsPerCh + p.lun * g.pgsPerLun + p.pl * g.pgsPerPl +
    p.blk * g.pgsPerBlk + p.pg

/-- `ppa2pgidx`, with its assertion. -/
def ppa2pgidx (p : Ppa) : Except Fault ℕ := do
  nvmevAssert (pgidx g p < g.ttPgs)
  return pgidx g p

/-- The page number in mixed radix, most significant digit first. -/
theorem pgidx_eq (p : Ppa) :
    pgidx g p =
      (((p.ch * g.lunsPerCh + p.lun) * g.plsPerLun + p.pl) * g.blksPerPl +
        p.blk) * g.pgsPerBlk + p.pg := by
  rw [pgidx, g.pgsPerCh_eq, g.pgsPerLun_eq, g.pgsPerPl_eq]
  ring

/-- The coordinates bound the number of pages. -/
theorem ttPgs_le (g : Geometry) : g.ttPgs ≤ 2 ^ 56 := by
  rw [g.ttPgs_eq, g.pgsPerCh_eq, g.pgsPerLun_eq, g.pgsPerPl_eq]
  calc
    g.pgsPerBlk * g.blksPerPl * g.plsPerLun * g.lunsPerCh * g.nchs ≤
        2 ^ pageBits * 2 ^ blkBits * 2 ^ plBits * 2 ^ lunBits * 2 ^ chBits :=
      Nat.mul_le_mul (Nat.mul_le_mul (Nat.mul_le_mul
        (Nat.mul_le_mul g.pgsPerBlk_le g.blksPerPl_le) g.plsPerLun_le)
        g.lunsPerCh_le) g.nchs_le
    _ = 2 ^ 56 := by decide

theorem pgidx_lt {p : Ppa} (hp : ValidPpa g p) : pgidx g p < g.ttPgs := by
  have hbound : g.ttPgs = g.nchs * g.lunsPerCh * g.plsPerLun * g.blksPerPl *
      g.pgsPerBlk := by
    rw [g.ttPgs_eq, g.pgsPerCh_eq, g.pgsPerLun_eq, g.pgsPerPl_eq]
    ring
  rw [pgidx_eq, hbound]
  exact digits_lt hp

theorem ppa2pgidx_of_valid {p : Ppa} (hp : ValidPpa g p) :
    ppa2pgidx g p = .ok (pgidx g p) := by
  simp [ppa2pgidx, nvmevAssert_of (pgidx_lt g hp), pure, Except.pure]

/-- Distinct valid addresses have distinct page numbers. -/
theorem pgidx_inj {p q : Ppa} (hp : ValidPpa g p) (hq : ValidPpa g q)
    (heq : pgidx g p = pgidx g q) : p = q := by
  rw [pgidx_eq, pgidx_eq] at heq
  exact ppa_eq_of_digits hp.2 hq.2 heq

end

end NvmeVirt.Layout
