import NvmeVirt.Conv.Mapping
import Mathlib.Data.Finset.Prod

/-!
# The pages of a superblock line

A line is the set of all pages with one block number.  The write pointer
visits the pages of its line in a fixed order: within the oneshot page, then
over the channels, then over the luns, then to the next oneshot page.  `rank`
is the position of a page in this order, and one step of the pointer is the
successor of a mixed-radix number.
-/

namespace NvmeVirt.Superblock

open NvmeVirt.Kernel
open NvmeVirt.Layout
open NvmeVirt.Mapping
open NvmeVirt.MixedRadix
open NvmeVirt.Timing
open NvmeVirt.Transition

section

variable (g : Geometry)

/-! ## Pages of a line, pages of a block -/

/-- The pages of line `line`. -/
def linePages (line : ℕ) : Finset Ppa :=
  ((Finset.range g.nchs ×ˢ Finset.range g.lunsPerCh) ×ˢ
      (Finset.range g.plsPerLun ×ˢ Finset.range g.pgsPerBlk)).image
    fun coord =>
      { ch := coord.1.1, lun := coord.1.2, pl := coord.2.1, blk := line,
        pg := coord.2.2 }

/-- The pages of a block. -/
def blkPages (b : BlkAddr) : Finset Ppa :=
  (Finset.range g.pgsPerBlk).image fun pg => { b with pg := pg }

variable {g}

theorem mem_linePages {line : ℕ} {p : Ppa} :
    p ∈ linePages g line ↔
      p.ch < g.nchs ∧ p.lun < g.lunsPerCh ∧ p.pl < g.plsPerLun ∧
        p.blk = line ∧ p.pg < g.pgsPerBlk := by
  simp only [linePages, Finset.mem_image, Finset.mem_product,
    Finset.mem_range]
  constructor
  · rintro ⟨⟨⟨ch, lun⟩, pl, pg⟩, ⟨⟨hch, hlun⟩, hpl, hpg⟩, rfl⟩
    exact ⟨hch, hlun, hpl, rfl, hpg⟩
  · rintro ⟨hch, hlun, hpl, rfl, hpg⟩
    exact ⟨((p.ch, p.lun), p.pl, p.pg), ⟨⟨hch, hlun⟩, hpl, hpg⟩, rfl⟩

theorem mem_linePages_of_valid {p : Ppa} (hp : ValidPpa g p) :
    p ∈ linePages g p.blk :=
  mem_linePages.mpr ⟨hp.1, hp.2.1, hp.2.2.1, rfl, hp.2.2.2.2⟩

theorem validPpa_of_mem_linePages {line : ℕ} (hline : line < g.blksPerPl)
    {p : Ppa} (hp : p ∈ linePages g line) : ValidPpa g p := by
  obtain ⟨hch, hlun, hpl, rfl, hpg⟩ := mem_linePages.mp hp
  exact ⟨hch, hlun, hpl, hline, hpg⟩

theorem mem_blkPages {b : BlkAddr} {p : Ppa} :
    p ∈ blkPages g b ↔ p.toBlkAddr = b ∧ p.pg < g.pgsPerBlk := by
  simp only [blkPages, Finset.mem_image, Finset.mem_range]
  constructor
  · rintro ⟨pg, hpg, rfl⟩
    exact ⟨rfl, hpg⟩
  · rintro ⟨rfl, hpg⟩
    exact ⟨p.pg, hpg, rfl⟩

theorem card_linePages (hpls : g.plsPerLun = 1) (line : ℕ) :
    (linePages g line).card = g.pgsPerLine := by
  rw [linePages, Finset.card_image_of_injOn, Finset.card_product,
    Finset.card_product, Finset.card_product]
  · simp only [Finset.card_range, hpls, g.pgsPerLine_eq, g.ttLuns_eq]
    ring
  · rintro ⟨⟨ch, lun⟩, pl, pg⟩ _ ⟨⟨ch', lun'⟩, pl', pg'⟩ _ heq
    simp only [Ppa.mk.injEq, BlkAddr.mk.injEq] at heq
    simp [heq]

theorem card_blkPages (b : BlkAddr) :
    (blkPages g b).card = g.pgsPerBlk := by
  rw [blkPages, Finset.card_image_of_injective, Finset.card_range]
  intro pg pg' heq
  simpa using heq

/-! ## The order of programming -/

variable (g)

/-- The position of a page among the pages of its line. -/
def rank (p : Ppa) : ℕ :=
  ((p.pg / g.pgsPerOneshotpg * g.lunsPerCh + p.lun) * g.nchs + p.ch) *
    g.pgsPerOneshotpg + p.pg % g.pgsPerOneshotpg

/-- The address a write pointer names. -/
def wpPage (wpp : WritePointer) : Ppa :=
  { ch := wpp.ch, lun := wpp.lun, pl := wpp.pl, blk := wpp.blk, pg := wpp.pg }

/-- A write pointer at a page of its line, on the only plane. -/
structure WpInRange (wpp : WritePointer) : Prop where
  ch_lt : wpp.ch < g.nchs
  lun_lt : wpp.lun < g.lunsPerCh
  pg_lt : wpp.pg < g.pgsPerBlk
  pl_eq : wpp.pl = 0

variable {g}

theorem WpInRange.mem_linePages {wpp : WritePointer} (h : WpInRange g wpp) :
    wpPage wpp ∈ linePages g wpp.blk := by
  refine Superblock.mem_linePages.mpr ⟨h.ch_lt, h.lun_lt, ?_, rfl, h.pg_lt⟩
  rw [wpPage, h.pl_eq]
  exact g.plsPerLun_pos

theorem rank_lt {p : Ppa} (hch : p.ch < g.nchs) (hlun : p.lun < g.lunsPerCh)
    (hpg : p.pg < g.pgsPerBlk) : rank g p < g.pgsPerLine := by
  have hwordline : p.pg / g.pgsPerOneshotpg < g.oneshotpgsPerBlk :=
    Nat.div_lt_of_lt_mul (by rw [← g.pgsPerBlk_eq]; exact hpg)
  have htotal : g.pgsPerLine =
      g.oneshotpgsPerBlk * g.lunsPerCh * g.nchs * g.pgsPerOneshotpg := by
    rw [g.pgsPerLine_eq, g.ttLuns_eq, g.pgsPerBlk_eq]
    ring
  rw [htotal]
  exact digit_lt (digit_lt (digit_lt hwordline hlun) hch)
    (Nat.mod_lt _ g.pgsPerOneshotpg_pos)

theorem rank_lt_of_mem {line : ℕ} {p : Ppa} (hp : p ∈ linePages g line) :
    rank g p < g.pgsPerLine := by
  obtain ⟨hch, hlun, _, _, hpg⟩ := mem_linePages.mp hp
  exact rank_lt hch hlun hpg

/-- The order visits no page of a line twice. -/
theorem rank_inj (hpls : g.plsPerLun = 1) {line : ℕ} {p q : Ppa}
    (hp : p ∈ linePages g line) (hq : q ∈ linePages g line)
    (heq : rank g p = rank g q) : p = q := by
  obtain ⟨hch, hlun, hpl, hblk, hpg⟩ := mem_linePages.mp hp
  obtain ⟨hch', hlun', hpl', hblk', hpg'⟩ := mem_linePages.mp hq
  obtain ⟨houter, hlow⟩ := digit_inj (Nat.mod_lt _ g.pgsPerOneshotpg_pos)
    (Nat.mod_lt _ g.pgsPerOneshotpg_pos) heq
  obtain ⟨houter, hchEq⟩ := digit_inj hch hch' houter
  obtain ⟨hwordline, hlunEq⟩ := digit_inj hlun hlun' houter
  have hpgEq : p.pg = q.pg := by
    rw [← Nat.div_add_mod p.pg g.pgsPerOneshotpg, hwordline, hlow,
      Nat.div_add_mod]
  have hplEq : p.pl = q.pl := by omega
  obtain ⟨⟨ch, lun, pl, blk⟩, pg⟩ := p
  obtain ⟨⟨ch', lun', pl', blk'⟩, pg'⟩ := q
  simp_all

theorem WpInRange.validPpa {wpp : WritePointer} (h : WpInRange g wpp)
    (hblk : wpp.blk < g.blksPerPl) : ValidPpa g (wpPage wpp) :=
  validPpa_of_mem_linePages hblk h.mem_linePages

/-- One step of the pointer: the next page in the order, or the end of the
line after its last page. -/
structure WpStep (g : Geometry) (before after : WritePointer)
    (usedUp : Bool) : Prop where
  curline_eq : after.curline = before.curline
  blk_eq : after.blk = before.blk
  inRange : WpInRange g after
  rank_eq : usedUp = false →
    rank g (wpPage after) = rank g (wpPage before) + 1
  rank_last : usedUp = true →
    rank g (wpPage before) + 1 = g.pgsPerLine ∧
      after = { before with ch := 0, lun := 0, pg := 0 }

/-- A pointer in the middle of a oneshot page moves to its next page. -/
theorem stepWritePointer_page {wpp : WritePointer} (h : WpInRange g wpp)
    (hpage : wpp.pg % g.pgsPerOneshotpg + 1 < g.pgsPerOneshotpg) :
    stepWritePointer g wpp = .ok ({ wpp with pg := wpp.pg + 1 }, false) ∧
      WpStep g wpp { wpp with pg := wpp.pg + 1 } false := by
  have hpos := g.pgsPerOneshotpg_pos
  have hmod : (wpp.pg + 1) % g.pgsPerOneshotpg =
      wpp.pg % g.pgsPerOneshotpg + 1 := by
    rw [Nat.add_mod, Nat.mod_eq_of_lt (a := 1) (by omega),
      Nat.mod_eq_of_lt hpage]
  have hdiv : (wpp.pg + 1) / g.pgsPerOneshotpg =
      wpp.pg / g.pgsPerOneshotpg := by
    rw [Nat.succ_div, if_neg, Nat.add_zero]
    intro hdvd
    rw [Nat.dvd_iff_mod_eq_zero, hmod] at hdvd
    omega
  refine ⟨?_, ⟨rfl, rfl, ⟨h.ch_lt, h.lun_lt, ?_, h.pl_eq⟩, ?_, by simp⟩⟩
  · rw [stepWritePointer, nvmevAssert_of h.pg_lt, ok_bind]
    dsimp only
    rw [hmod, if_pos (by omega)]
    rfl
  · refine lt_of_le_of_ne h.pg_lt ?_
    intro heq
    change wpp.pg + 1 = g.pgsPerBlk at heq
    rw [heq, g.pgsPerBlk_eq, Nat.mul_mod_right] at hmod
    omega
  · intro _
    simp only [rank, wpPage, hmod, hdiv]
    omega

/-- The first page of the oneshot page that holds page `pg`. -/
theorem wordline_start {pg : ℕ}
    (hlast : pg % g.pgsPerOneshotpg + 1 = g.pgsPerOneshotpg) :
    (pg + 1) % g.pgsPerOneshotpg = 0 ∧
      pg + 1 - g.pgsPerOneshotpg =
        g.pgsPerOneshotpg * (pg / g.pgsPerOneshotpg) := by
  have hsplit := Nat.div_add_mod pg g.pgsPerOneshotpg
  have hnext : pg + 1 =
      g.pgsPerOneshotpg * (pg / g.pgsPerOneshotpg) + g.pgsPerOneshotpg := by
    omega
  refine ⟨?_, by omega⟩
  rw [hnext, Nat.add_mod_right, Nat.mul_mod_right]

/-- The rank of a page that is the first of its oneshot page. -/
theorem rank_wordline_start (ch lun pl blk wordline : ℕ) :
    rank g
        { ch := ch, lun := lun, pl := pl, blk := blk,
          pg := g.pgsPerOneshotpg * wordline } =
      ((wordline * g.lunsPerCh + lun) * g.nchs + ch) *
        g.pgsPerOneshotpg := by
  rw [rank]
  simp only [Nat.mul_mod_right, Nat.mul_div_cancel_left _ g.pgsPerOneshotpg_pos,
    Nat.add_zero]

/-- `advance_write_pointer` moves to the page of the next rank, and reports
the line used up exactly at its last page. -/
theorem stepWritePointer_spec {wpp : WritePointer} (h : WpInRange g wpp) :
    ∃ after usedUp, stepWritePointer g wpp = .ok (after, usedUp) ∧
      WpStep g wpp after usedUp := by
  have hlow := Nat.mod_lt wpp.pg g.pgsPerOneshotpg_pos
  by_cases hpage : wpp.pg % g.pgsPerOneshotpg + 1 < g.pgsPerOneshotpg
  · exact ⟨_, _, stepWritePointer_page h hpage⟩
  have hlast : wpp.pg % g.pgsPerOneshotpg + 1 = g.pgsPerOneshotpg := by omega
  obtain ⟨hmod, hstart⟩ := wordline_start hlast
  have hwordline : wpp.pg / g.pgsPerOneshotpg < g.oneshotpgsPerBlk :=
    Nat.div_lt_of_lt_mul (by rw [← g.pgsPerBlk_eq]; exact h.pg_lt)
  have hstartLt : g.pgsPerOneshotpg * (wpp.pg / g.pgsPerOneshotpg) <
      g.pgsPerBlk := by
    rw [g.pgsPerBlk_eq]
    exact Nat.mul_lt_mul_of_pos_left hwordline g.pgsPerOneshotpg_pos
  have hrank : rank g (wpPage wpp) + 1 =
      ((wpp.pg / g.pgsPerOneshotpg * g.lunsPerCh + wpp.lun) * g.nchs +
        wpp.ch + 1) * g.pgsPerOneshotpg := by
    simp only [rank, wpPage]
    rw [Nat.add_assoc, hlast, Nat.succ_mul]
  rw [stepWritePointer, nvmevAssert_of h.pg_lt, ok_bind]
  dsimp only
  rw [hmod, if_neg (by simp), nvmevAssert_of h.ch_lt, ok_bind, hstart]
  by_cases hch : wpp.ch + 1 ≠ g.nchs
  · rw [if_pos hch]
    refine ⟨_, _, rfl, rfl, rfl, ⟨?_, h.lun_lt, hstartLt, h.pl_eq⟩, ?_,
      by simp⟩
    · exact lt_of_le_of_ne h.ch_lt hch
    · intro _
      rw [hrank, wpPage, rank_wordline_start]
      ring
  rw [if_neg hch, nvmevAssert_of h.lun_lt, ok_bind]
  rw [not_not] at hch
  by_cases hlun : wpp.lun + 1 ≠ g.lunsPerCh
  · rw [if_pos hlun]
    refine ⟨_, _, rfl, rfl, rfl,
      ⟨g.nchs_pos, lt_of_le_of_ne h.lun_lt hlun, hstartLt, h.pl_eq⟩, ?_,
      by simp⟩
    intro _
    rw [hrank, wpPage, rank_wordline_start, Nat.add_assoc _ wpp.ch, hch]
    ring
  rw [if_neg hlun]
  rw [not_not] at hlun
  rw [← Nat.mul_add_one]
  have hcarry : rank g (wpPage wpp) + 1 =
      (wpp.pg / g.pgsPerOneshotpg + 1) * g.lunsPerCh * g.nchs *
        g.pgsPerOneshotpg := by
    rw [hrank, Nat.add_assoc _ wpp.ch, hch, ← Nat.succ_mul, Nat.succ_eq_add_one,
      Nat.add_assoc _ wpp.lun, hlun]
    ring
  by_cases hpg : g.pgsPerOneshotpg * (wpp.pg / g.pgsPerOneshotpg + 1) ≠
      g.pgsPerBlk
  · rw [if_pos hpg]
    refine ⟨_, _, rfl, rfl, rfl,
      ⟨g.nchs_pos, g.lunsPerCh_pos, ?_, h.pl_eq⟩, ?_, by simp⟩
    · refine lt_of_le_of_ne ?_ hpg
      rw [g.pgsPerBlk_eq]
      exact Nat.mul_le_mul_left _ hwordline
    · intro _
      rw [hcarry, wpPage, rank_wordline_start]
      ring
  · rw [if_neg hpg]
    refine ⟨_, _, rfl, rfl, rfl,
      ⟨g.nchs_pos, g.lunsPerCh_pos, pgsPerBlk_pos g, h.pl_eq⟩, by simp, ?_⟩
    intro _
    rw [not_not] at hpg
    refine ⟨?_, rfl⟩
    rw [hcarry, g.pgsPerLine_eq, g.ttLuns_eq, ← hpg]
    ring

end

end NvmeVirt.Superblock
