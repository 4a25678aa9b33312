import NvmeVirt.Conv.GarbageCollection
import NvmeVirt.Hybrid.Shapes

/-!
# The counts that garbage collection relies on

`do_gc` goes through its victim by flash pages, and takes their number from
`flashpgs_per_blk`.  `ssd_init_params` assigns every other count of a block but
not this one, so that it is what the structure held before.
-/

namespace NvmeVirt.GcGeometry

open NvmeVirt.DerivedCounts
open NvmeVirt.GarbageCollection
open NvmeVirt.HybridConfig
open NvmeVirt.InitParams
open NvmeVirt.Kernel
open NvmeVirt.Layout
open NvmeVirt.Mapping
open NvmeVirt.MixedRadix
open NvmeVirt.Shapes
open NvmeVirt.Transition

section

variable (spp : SsdParams)

/-- The rounds of the loops of `do_gc`: flash page, channel and lun. -/
def gcRounds : List (ℕ × ℕ × ℕ) :=
  List.range spp.flashpgsPerBlk ×ˢ List.range spp.nchs ×ˢ
    List.range spp.lunsPerCh

/-- Page `i` of a round, as `clean_one_flashpg` comes to it. -/
def gcPage (line : ℕ) (step : (ℕ × ℕ × ℕ) × ℕ) : Ppa :=
  packPpa step.1.2.1 step.1.2.2 0 line
    (step.1.1 * spp.pgsPerFlashpg + step.2)

/-- The pages that `do_gc` visits, in its order. -/
def gcPages (line : ℕ) : List Ppa :=
  (gcRounds spp ×ˢ List.range spp.pgsPerFlashpg).map (gcPage spp line)

/-- The pages of a line. -/
def LinePage (line : ℕ) (p : Ppa) : Prop :=
  p.ch < spp.nchs ∧ p.lun < spp.lunsPerCh ∧ p.pl = 0 ∧ p.blk = line ∧
    p.pg < spp.pgsPerBlk

/-- The counts agree, none of them is a negative number of pages, and `do_gc`
visits every page of a line once. -/
structure Consistent : Prop where
  pages : spp.pgsPerBlk < 2 ^ 31
  flash : spp.pgsPerBlk = spp.pgsPerFlashpg * spp.flashpgsPerBlk
  oneshot : spp.pgsPerBlk = spp.pgsPerOneshotpg * spp.oneshotpgsPerBlk
  line : spp.pgsPerLine = spp.ttLuns * spp.pgsPerBlk
  total : spp.plsPerLun = 1 → spp.ttLines * spp.pgsPerLine = spp.ttPgs
  visits : ∀ line < spp.ttLines, (gcPages spp line).Nodup ∧
    ∀ p, p ∈ gcPages spp line ↔ LinePage spp line p

/-- The coordinates of the pages of a line fit their bit fields. -/
structure LineFits : Prop where
  nchs_le : spp.nchs ≤ 2 ^ chBits
  lunsPerCh_le : spp.lunsPerCh ≤ 2 ^ lunBits
  ttLines_le : spp.ttLines ≤ 2 ^ blkBits
  pgsPerBlk_le : spp.pgsPerBlk ≤ 2 ^ pageBits

variable {spp}

/-! ## The pages that are visited -/

theorem mem_gcPages {line : ℕ} {p : Ppa} :
    p ∈ gcPages spp line ↔ ∃ flashpg ch lun i, flashpg < spp.flashpgsPerBlk ∧
      ch < spp.nchs ∧ lun < spp.lunsPerCh ∧ i < spp.pgsPerFlashpg ∧
      packPpa ch lun 0 line (flashpg * spp.pgsPerFlashpg + i) = p := by
  rw [gcPages, List.mem_map]
  constructor
  · rintro ⟨⟨⟨flashpg, ch, lun⟩, i⟩, hstep, heq⟩
    simp only [gcRounds, List.mem_product, List.mem_range] at hstep
    obtain ⟨⟨hflashpg, hch, hlun⟩, hi⟩ := hstep
    exact ⟨flashpg, ch, lun, i, hflashpg, hch, hlun, hi, heq⟩
  · rintro ⟨flashpg, ch, lun, i, hflashpg, hch, hlun, hi, heq⟩
    refine ⟨((flashpg, ch, lun), i), ?_, heq⟩
    simp only [gcRounds, List.mem_product, List.mem_range]
    exact ⟨⟨hflashpg, hch, hlun⟩, hi⟩

/-- No address leaves the bit fields. -/
theorem bits_of_mem {line : ℕ} {p : Ppa} (hp : p ∈ gcPages spp line) :
    p.ch < 2 ^ chBits ∧ p.lun < 2 ^ lunBits ∧ p.blk < 2 ^ blkBits ∧
      p.pg < 2 ^ pageBits := by
  obtain ⟨flashpg, ch, lun, i, -, -, -, -, rfl⟩ := mem_gcPages.mp hp
  exact ⟨Nat.mod_lt _ (Nat.two_pow_pos _), Nat.mod_lt _ (Nat.two_pow_pos _),
    Nat.mod_lt _ (Nat.two_pow_pos _), Nat.mod_lt _ (Nat.two_pow_pos _)⟩

theorem page_lt {flashpg i : ℕ}
    (hflash : spp.pgsPerBlk = spp.pgsPerFlashpg * spp.flashpgsPerBlk)
    (hflashpg : flashpg < spp.flashpgsPerBlk) (hi : i < spp.pgsPerFlashpg) :
    flashpg * spp.pgsPerFlashpg + i < spp.pgsPerBlk := by
  rw [hflash, Nat.mul_comm spp.pgsPerFlashpg]
  exact digit_lt hflashpg hi

/-- A block without pages has no flash page, or flash pages without pages. -/
theorem gcPages_eq_nil
    (hflash : spp.pgsPerBlk = spp.pgsPerFlashpg * spp.flashpgsPerBlk)
    (hnone : spp.pgsPerBlk = 0) (line : ℕ) : gcPages spp line = [] := by
  refine List.eq_nil_iff_forall_not_mem.mpr fun p hp => ?_
  obtain ⟨flashpg, ch, lun, i, hflashpg, -, -, hi, -⟩ := mem_gcPages.mp hp
  have hlt := page_lt hflash hflashpg hi
  omega

section

variable (hfits : LineFits spp)
  (hflash : spp.pgsPerBlk = spp.pgsPerFlashpg * spp.flashpgsPerBlk)
include hfits hflash

/-- Where the coordinates fit, an address keeps them. -/
theorem gcPage_eq {line flashpg ch lun i : ℕ} (hline : line < spp.ttLines)
    (hflashpg : flashpg < spp.flashpgsPerBlk) (hch : ch < spp.nchs)
    (hlun : lun < spp.lunsPerCh) (hi : i < spp.pgsPerFlashpg) :
    packPpa ch lun 0 line (flashpg * spp.pgsPerFlashpg + i) =
      { ch := ch, lun := lun, pl := 0, blk := line,
        pg := flashpg * spp.pgsPerFlashpg + i } :=
  packPpa_of_lt (hch.trans_le hfits.nchs_le)
    (hlun.trans_le hfits.lunsPerCh_le) (Nat.two_pow_pos _)
    (hline.trans_le hfits.ttLines_le)
    ((page_lt hflash hflashpg hi).trans_le hfits.pgsPerBlk_le)

theorem gcPages_nodup {line : ℕ} (hline : line < spp.ttLines) :
    (gcPages spp line).Nodup := by
  have hrounds : (gcRounds spp).Nodup :=
    List.nodup_range.product (List.nodup_range.product List.nodup_range)
  refine List.Nodup.map_on ?_ (hrounds.product List.nodup_range)
  rintro ⟨⟨flashpg, ch, lun⟩, i⟩ hstep ⟨⟨flashpg', ch', lun'⟩, i'⟩ hstep' heq
  simp only [gcRounds, List.mem_product, List.mem_range] at hstep hstep'
  obtain ⟨⟨hflashpg, hch, hlun⟩, hi⟩ := hstep
  obtain ⟨⟨hflashpg', hch', hlun'⟩, hi'⟩ := hstep'
  rw [gcPage, gcPage, gcPage_eq hfits hflash hline hflashpg hch hlun hi,
    gcPage_eq hfits hflash hline hflashpg' hch' hlun' hi', Ppa.mk.injEq,
    BlkAddr.mk.injEq] at heq
  obtain ⟨⟨rfl, rfl, -, -⟩, hpg⟩ := heq
  obtain ⟨rfl, rfl⟩ := digit_inj hi hi' hpg
  rfl

theorem mem_gcPages_iff {line : ℕ} (hline : line < spp.ttLines) (p : Ppa) :
    p ∈ gcPages spp line ↔ LinePage spp line p := by
  rw [mem_gcPages]
  constructor
  · rintro ⟨flashpg, ch, lun, i, hflashpg, hch, hlun, hi, rfl⟩
    rw [gcPage_eq hfits hflash hline hflashpg hch hlun hi]
    exact ⟨hch, hlun, rfl, rfl, page_lt hflash hflashpg hi⟩
  · rintro ⟨hch, hlun, hpl, hblk, hpg⟩
    rw [hflash, Nat.mul_comm] at hpg
    obtain ⟨flashpg, i, hflashpg, hi, heq⟩ := exists_digit hpg
    refine ⟨flashpg, p.ch, p.lun, i, hflashpg, hch, hlun, hi, ?_⟩
    rw [gcPage_eq hfits hflash hline hflashpg hch hlun hi, heq, ← hpl, ← hblk]

end

/-! ## The loops of the model -/

/-- The loops of `do_gc` are one loop over the rounds. -/
theorem gcLoops_eq (g : Geometry) (cp : ConvParams) (victimLine : ℕ)
    (s : ConvFtl) :
    (List.range g.flashpgsPerBlk).foldlM (gcFlashpg g cp victimLine) s =
      (gcRounds g.toSsdParams).foldlM
        (fun s round => gcRound g cp victimLine round.1 round.2.1 s round.2.2)
        s := by
  have hinner : ∀ flashpg s, gcFlashpg g cp victimLine s flashpg =
      (List.range g.nchs ×ˢ List.range g.lunsPerCh).foldlM
        (fun s die => gcRound g cp victimLine flashpg die.1 s die.2) s :=
    fun flashpg s => (foldlM_product _ _
      (fun s ch lun => gcRound g cp victimLine flashpg ch s lun) s).symm
  have houter := foldlM_product (List.range g.flashpgsPerBlk)
    (List.range g.nchs ×ˢ List.range g.lunsPerCh)
    (fun s flashpg die => gcRound g cp victimLine flashpg die.1 s die.2) s
  rw [gcRounds, houter]
  congr 1
  funext s flashpg
  exact hinner flashpg s

theorem lineFits_geometry {g : Geometry} (hpls : g.plsPerLun = 1) :
    LineFits g.toSsdParams where
  nchs_le := g.nchs_le
  lunsPerCh_le := g.lunsPerCh_le
  ttLines_le := by
    rw [g.ttLines_eq, hpls, Nat.mul_one]
    exact g.blksPerPl_le
  pgsPerBlk_le := g.pgsPerBlk_le

/-- Page `i` of a round is page `i` of the flash page that the round cleans. -/
theorem flashpgPage_eq {g : Geometry} (hpls : g.plsPerLun = 1)
    (hflash : g.pgsPerBlk = g.pgsPerFlashpg * g.flashpgsPerBlk)
    {line flashpg ch lun i : ℕ} (hline : line < g.ttLines)
    (hround : (flashpg, ch, lun) ∈ gcRounds g.toSsdParams)
    (hi : i < g.pgsPerFlashpg) :
    gcPage g.toSsdParams line ((flashpg, ch, lun), i) =
      flashpgPage
        { ch := ch, lun := lun, pl := 0, blk := line,
          pg := flashpg * g.pgsPerFlashpg } i := by
  simp only [gcRounds, List.mem_product, List.mem_range] at hround
  obtain ⟨hflashpg, hch, hlun⟩ := hround
  exact gcPage_eq (lineFits_geometry hpls) hflash hline hflashpg hch hlun hi

/-- A geometry with one plane is what garbage collection relies on as soon as
it has the right number of flash pages. -/
theorem consistent_geometry_iff {g : Geometry} (hpls : g.plsPerLun = 1) :
    Consistent g.toSsdParams ↔
      g.pgsPerBlk = g.pgsPerFlashpg * g.flashpgsPerBlk := by
  refine ⟨Consistent.flash, fun hflash => ?_⟩
  have htotal : g.ttLines * g.pgsPerLine = g.ttPgs := by
    rw [g.ttLines_eq, g.pgsPerLine_eq, g.ttLuns_eq, g.ttPgs_eq, g.pgsPerCh_eq,
      g.pgsPerLun_eq, g.pgsPerPl_eq]
    ring
  have hpages : 2 ^ pageBits < 2 ^ 31 := by decide
  exact
    { pages := g.pgsPerBlk_le.trans_lt hpages
      flash := hflash
      oneshot := g.pgsPerBlk_eq
      line := g.pgsPerLine_eq
      total := fun _ => htotal
      visits := fun line hline =>
        ⟨gcPages_nodup (lineFits_geometry hpls) hflash hline,
          mem_gcPages_iff (lineFits_geometry hpls) hflash hline⟩ }

/-! ## The condition -/

/-- The last page of the last line has all coordinates at their largest. -/
theorem lineFits_of_visits (hnchs : 0 < spp.nchs) (hluns : 0 < spp.lunsPerCh)
    (hpages : 0 < spp.pgsPerBlk)
    (hvisits : ∀ p, LinePage spp (spp.ttLines - 1) p →
      p ∈ gcPages spp (spp.ttLines - 1)) : LineFits spp := by
  have hlast := hvisits
    { ch := spp.nchs - 1, lun := spp.lunsPerCh - 1, pl := 0,
      blk := spp.ttLines - 1, pg := spp.pgsPerBlk - 1 }
    ⟨Nat.sub_one_lt hnchs.ne', Nat.sub_one_lt hluns.ne', rfl, rfl,
      Nat.sub_one_lt hpages.ne'⟩
  obtain ⟨hch, hlun, hblk, hpg⟩ := bits_of_mem hlast
  exact ⟨Nat.le_of_pred_lt hch, Nat.le_of_pred_lt hlun,
    Nat.le_of_pred_lt hblk, Nat.le_of_pred_lt hpg⟩

end

section

variable (m : SsdMacros) (flashpgsPerBlk capacity nparts : ℕ)

/-- `LineFits`, for the counts that the macros and the capacity give. -/
structure FieldsFit : Prop where
  channels : m.nandChannels / nparts ≤ 2 ^ chBits
  luns : m.lunsPerNandCh ≤ 2 ^ lunBits
  blocks : ttLinesBits m capacity nparts ≤ 2 ^ blkBits
  pages : pgsPerBlkBits m capacity nparts ≤ 2 ^ pageBits

/-- What is cut off the counts does not matter, and `flashpgs_per_blk` held
the right number. -/
structure CountsAgree : Prop where
  oneshot : m.oneshotPageSize / (512 * 8) *
    oneshotpgsPerBlkBits m capacity nparts < 2 ^ 31
  flash : m.flashPageSize / (512 * 8) * flashpgsPerBlk =
    pgsPerBlkBits m capacity nparts
  line : ttLunsBits m nparts * pgsPerBlkBits m capacity nparts < 2 ^ 64
  fields : 0 < pgsPerBlkBits m capacity nparts →
    0 < ttLinesBits m capacity nparts → FieldsFit m capacity nparts
  plane : m.plnsPerLun = 1 →
    pgsPerBlkBits m capacity nparts * blksPerPlBits m capacity nparts < 2 ^ 31

end

section

variable {m : SsdMacros} {flashpgsPerBlk capacity nparts : ℕ}

/-! ## All pages of a device with one plane -/

theorem u64_mul (value factor : ℕ) :
    u64 (u64 value * factor) = u64 (value * factor) :=
  Nat.mod_mul_mod _ _ _

/-- The cuts in between do not change what is left of `tt_pgs`. -/
theorem ttPgsBits_eq (hpls : m.plnsPerLun = 1) :
    ttPgsBits m capacity nparts = u64 (pgsPerPlBits m capacity nparts *
      (m.lunsPerNandCh * (m.nandChannels / nparts))) := by
  rw [ttPgsBits, pgsPerChBits, pgsPerLunBits, hpls, Nat.mul_one, u64_mul,
    Nat.mul_assoc, u64_mul]

theorem ttLinesBits_eq (hpls : m.plnsPerLun = 1) :
    ttLinesBits m capacity nparts = blksPerPlBits m capacity nparts := by
  rw [ttLinesBits, hpls, Nat.mul_one, blksPerPlBits, intBits_intBits]

/-- A product of 2 GiB and more that is kept in an `int` is 0 or negative, and
is not made good by the number of dies. -/
theorem cut_product_ne {pages dies : ℕ} (hlarge : 2 ^ 31 ≤ pages)
    (hsmall : pages ≤ 2 ^ 32) (hdies : 0 < dies) (hfew : dies ≤ 2 ^ 16) :
    u64 (intBits pages * dies) ≠ pages * dies := by
  have hproduct : 0 < pages * dies := Nat.mul_pos (by omega) hdies
  have hbound : pages * dies ≤ 2 ^ 32 * 2 ^ 16 :=
    Nat.mul_le_mul hsmall hfew
  rcases eq_or_lt_of_le hsmall with rfl | hlt
  · have hzero : intBits (2 ^ 32) = 0 := by decide
    rw [hzero, Nat.zero_mul]
    exact hproduct.ne
  · have hbits : intBits pages = pages + (2 ^ 64 - 2 ^ 32) := by
      rw [intBits, u32_of_lt hlt, if_neg (by omega)]
    have hwhole : intBits pages * dies + 2 ^ 32 * dies =
        pages * dies + 2 ^ 64 * dies := by
      have hsum : pages + (2 ^ 64 - 2 ^ 32) + 2 ^ 32 = pages + 2 ^ 64 := by
        omega
      rw [hbits, ← Nat.add_mul, ← Nat.add_mul, hsum]
    have hless : pages * dies < 2 ^ 32 * dies :=
      Nat.mul_lt_mul_of_pos_right hlt hdies
    rw [u64]
    omega

/-- The lines of a device with one plane have all its pages exactly when the
pages of a plane fit their `int`. -/
theorem total_iff (hpls : m.plnsPerLun = 1) (hasserts : Asserts m nparts)
    (hfields : 0 < pgsPerBlkBits m capacity nparts →
      0 < ttLinesBits m capacity nparts → FieldsFit m capacity nparts) :
    ttLinesBits m capacity nparts *
        (ttLunsBits m nparts * pgsPerBlkBits m capacity nparts) =
        ttPgsBits m capacity nparts ↔
      pgsPerBlkBits m capacity nparts * blksPerPlBits m capacity nparts <
        2 ^ 31 := by
  rw [ttLinesBits_eq hpls] at hfields ⊢
  rw [ttPgsBits_eq hpls, pgsPerPlBits]
  rcases Nat.eq_zero_or_pos (pgsPerBlkBits m capacity nparts *
    blksPerPlBits m capacity nparts) with hnone | hsome
  · rw [hnone, Nat.mul_left_comm, Nat.mul_comm (blksPerPlBits _ _ _), hnone]
    exact iff_of_true (by rw [intBits_of_lt (Nat.two_pow_pos 31),
      Nat.mul_zero, Nat.zero_mul]; rfl) (Nat.two_pow_pos 31)
  · obtain ⟨hchannels, hluns, hblocks, hpages⟩ := hfields
      (Nat.pos_of_mul_pos_right hsome) (Nat.pos_of_mul_pos_left hsome)
    rw [ttLinesBits_eq hpls] at hblocks
    have hdies : 0 < m.lunsPerNandCh * (m.nandChannels / nparts) :=
      Nat.mul_pos m.lunsPerNandCh_pos (nchs_pos hasserts)
    have hfew : m.lunsPerNandCh * (m.nandChannels / nparts) ≤ 2 ^ 8 * 2 ^ 8 :=
      Nat.mul_le_mul hluns hchannels
    have hmany : pgsPerBlkBits m capacity nparts *
        blksPerPlBits m capacity nparts ≤ 2 ^ 16 * 2 ^ 16 :=
      Nat.mul_le_mul hpages hblocks
    rw [ttLunsBits, intBits_of_lt (by omega),
      Nat.mul_left_comm (blksPerPlBits m capacity nparts),
      Nat.mul_comm (blksPerPlBits m capacity nparts), Nat.mul_comm _ (_ * _)]
    constructor
    · intro heq
      by_contra hlarge
      exact cut_product_ne (Nat.le_of_not_lt hlarge) hmany hdies hfew heq.symm
    · intro hlt
      have hall := Nat.mul_le_mul hlt.le hfew
      rw [intBits_of_lt hlt, u64_of_lt (by omega)]

/-! ## The counts that `ssd_init_params` leaves -/

theorem consistent_of_agree (hasserts : Asserts m nparts)
    (hagree : CountsAgree m flashpgsPerBlk capacity nparts) :
    Consistent (sppBits m flashpgsPerBlk capacity nparts) := by
  have hline := u64_of_lt hagree.line
  have honeshot := intBits_of_lt hagree.oneshot
  exact
    { pages := by
        dsimp only [sppBits]
        rw [pgsPerBlkBits, honeshot]
        exact hagree.oneshot
      flash := hagree.flash.symm
      oneshot := honeshot
      line := hline
      total := fun hpls => by
        dsimp only [sppBits]
        rw [hline]
        exact (total_iff hpls hasserts hagree.fields).mpr
          (hagree.plane hpls)
      visits := fun line hlt => by
        rcases Nat.eq_zero_or_pos (pgsPerBlkBits m capacity nparts) with
          hnone | hpages
        · rw [gcPages_eq_nil hagree.flash.symm hnone]
          refine ⟨List.nodup_nil, fun p => iff_of_false List.not_mem_nil ?_⟩
          rintro ⟨-, -, -, -, hpg⟩
          change p.pg < pgsPerBlkBits m capacity nparts at hpg
          omega
        · have hfields := hagree.fields hpages (Nat.zero_lt_of_lt hlt)
          have hfits : LineFits (sppBits m flashpgsPerBlk capacity nparts) :=
            ⟨hfields.channels, hfields.luns, hfields.blocks, hfields.pages⟩
          exact ⟨gcPages_nodup hfits hagree.flash.symm hlt,
            mem_gcPages_iff hfits hagree.flash.symm hlt⟩ }

theorem agree_of_consistent (hasserts : Asserts m nparts)
    (hconsistent :
      Consistent (sppBits m flashpgsPerBlk capacity nparts)) :
    CountsAgree m flashpgsPerBlk capacity nparts := by
  have hline : ttLunsBits m nparts * pgsPerBlkBits m capacity nparts <
      2 ^ 64 := by
    have heq : u64 _ = ttLunsBits m nparts * pgsPerBlkBits m capacity nparts :=
      hconsistent.line
    rw [← heq]
    exact Nat.mod_lt _ (Nat.two_pow_pos 64)
  have hfields : 0 < pgsPerBlkBits m capacity nparts →
      0 < ttLinesBits m capacity nparts → FieldsFit m capacity nparts := by
    intro hpages hlines
    have hvisits := (hconsistent.visits _ (Nat.sub_one_lt hlines.ne')).2
    have hfits := lineFits_of_visits (nchs_pos hasserts) m.lunsPerNandCh_pos
      hpages fun p => (hvisits p).mpr
    exact ⟨hfits.nchs_le, hfits.lunsPerCh_le, hfits.ttLines_le,
      hfits.pgsPerBlk_le⟩
  have honeshot : pgsPerBlkBits m capacity nparts =
      m.oneshotPageSize / (512 * 8) *
        oneshotpgsPerBlkBits m capacity nparts := hconsistent.oneshot
  exact
    { oneshot := honeshot ▸ hconsistent.pages
      flash := hconsistent.flash.symm
      line := hline
      fields := hfields
      plane := fun hpls => by
        have htotal := hconsistent.total hpls
        dsimp only [sppBits] at htotal
        rw [u64_of_lt hline] at htotal
        exact (total_iff hpls hasserts hfields).mp htotal }

end

/-- `ssd_init_params` leaves what garbage collection relies on exactly when
nothing that matters is cut off the counts and `flashpgs_per_blk` held the
right number before. -/
theorem consistent_iff {m : SsdMacros} {flashpgsPerBlk capacity nparts : ℕ}
    (hasserts : Asserts m nparts) :
    (∃ spp hp, ssdInitParams m flashpgsPerBlk capacity nparts =
        .ok (spp, hp) ∧ Consistent spp) ↔
      unitBits m nparts ≠ 0 ∧
        CountsAgree m flashpgsPerBlk capacity nparts := by
  constructor
  · rintro ⟨spp, hp, hrun, hconsistent⟩
    obtain ⟨-, hunit, rfl, -⟩ := of_ssdInitParams hrun
    exact ⟨hunit, agree_of_consistent hasserts hconsistent⟩
  · rintro ⟨hunit, hagree⟩
    exact ⟨_, _, ssdInitParams_of hasserts hunit,
      consistent_of_agree hasserts hagree⟩

theorem smallPages_asserts : Asserts smallPages 1 where
  nparts_pos := Nat.one_pos
  channels := by decide
  blkSize_pos := fun hnot => absurd (by decide) hnot
  aligned := by decide
  oneshot := by decide

/-- With blocks of one flash page, a 1 left over from before is right. -/
theorem consistent_iff_gigabyte :
    ∃ spp hp, ssdInitParams smallPages 1 (2 ^ 30) 1 = .ok (spp, hp) ∧
      Consistent spp :=
  (consistent_iff smallPages_asserts).mpr ⟨by decide, by decide, by decide,
    by decide, fun _ _ => ⟨by decide, by decide, by decide, by decide⟩,
    fun _ => by decide⟩

/-- A 0 left over from before makes garbage collection skip every page. -/
theorem zero_flashpgs_visits_nothing :
    Asserts smallPages 1 ∧ Fits smallPages (2 ^ 30) 1 ∧
      (∃ spp hp, ssdInitParams smallPages 0 (2 ^ 30) 1 = .ok (spp, hp) ∧
        0 < spp.ttLines ∧ gcPages spp 0 = [] ∧
        LinePage spp 0 { ch := 0, lun := 0, pl := 0, blk := 0, pg := 0 }) ∧
      ¬ ∃ spp hp, ssdInitParams smallPages 0 (2 ^ 30) 1 = .ok (spp, hp) ∧
        Consistent spp := by
  refine ⟨smallPages_asserts, smallPages_fits_gigabyte, ⟨_, _, rfl, ?_, rfl, ?_⟩, ?_⟩
  · decide
  · rw [LinePage]
    decide
  · rintro ⟨spp, hp, hrun, hconsistent⟩
    obtain ⟨-, -, rfl, -⟩ := of_ssdInitParams hrun
    exact absurd hconsistent.flash (by decide)

end NvmeVirt.GcGeometry
