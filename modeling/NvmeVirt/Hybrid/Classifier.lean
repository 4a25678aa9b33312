import NvmeVirt.Hybrid.Shapes
import Mathlib.Data.Finset.Prod

/-!
# Storage types and QLC regions

`get_storage_type` and `get_qlc_region` compare the word of an address with
page counts.  The channel takes the highest bits of that word, so one channel
is already further from the next than any page count, and the channel alone
decides the region of most QLC pages.
-/

namespace NvmeVirt.Classifier

open NvmeVirt.DerivedCounts
open NvmeVirt.HybridConfig
open NvmeVirt.InitParams
open NvmeVirt.Kernel
open NvmeVirt.Layout
open NvmeVirt.Shapes

/-- The pages the QLC write pointer may reach. -/
def qlcPageSet (hp : HybridParams) : Finset Ppa :=
  (Finset.range hp.qlcChannels ×ˢ Finset.range hp.qlcLunsPerCh ×ˢ
    Finset.range hp.qlcBlksPerPl ×ˢ Finset.range hp.qlcPgsPerBlk).image
    fun place =>
      { ch := hp.slcChannels + place.1
        lun := place.2.1
        pl := 0
        blk := place.2.2.1
        pg := place.2.2.2 }

/-- The QLC pages that `get_qlc_region` assigns to a region. -/
def regionPages (hp : HybridParams) (region : ℕ) : Finset Ppa :=
  (qlcPageSet hp).filter fun p => getQlcRegion hp p = region

/-- The storage type follows the channel, and the four regions share the QLC
pages out evenly, up to the pages that a division by four leaves over. -/
structure ClassifiesRight (hp : HybridParams) : Prop where
  storage : ∀ p, Reached hp p →
    (getStorageType hp p = .slc ↔ p.ch < hp.slcChannels)
  regions : ∀ left right, left < 4 → right < 4 →
    (regionPages hp left).card ≤ (regionPages hp right).card + 3

theorem mem_qlcPageSet {hp : HybridParams} {p : Ppa} :
    p ∈ qlcPageSet hp ↔ QlcPage hp p := by
  simp only [qlcPageSet, Finset.mem_image, Finset.mem_product,
    Finset.mem_range, Prod.exists]
  constructor
  · rintro ⟨ch, lun, blk, pg, ⟨hch, hlun, hblk, hpg⟩, rfl⟩
    exact ⟨⟨Nat.le_add_right _ _, Nat.add_lt_add_left hch _⟩, hlun, rfl, hblk,
      hpg⟩
  · rintro ⟨⟨hfirst, hch⟩, hlun, hpl, hblk, hpg⟩
    refine ⟨p.ch - hp.slcChannels, p.lun, p.blk, p.pg,
      ⟨by omega, hlun, hblk, hpg⟩, ?_⟩
    rw [Nat.add_sub_cancel' hfirst, ← hpl]

theorem mem_regionPages {hp : HybridParams} {region : ℕ} {p : Ppa} :
    p ∈ regionPages hp region ↔
      QlcPage hp p ∧ getQlcRegion hp p = region := by
  rw [regionPages, Finset.mem_filter, mem_qlcPageSet]

/-! ## Page counts and words -/

theorem slcPages_lt (capacity : ℕ) : slcPages capacity < 2 ^ 49 := by
  have hcapacity : u64 (capacity * 2) < 2 ^ 64 :=
    Nat.mod_lt _ (Nat.two_pow_pos 64)
  rw [slcPages, tierPages]
  omega

theorem qlcPages_le (capacity : ℕ) : qlcPages capacity ≤ 2 ^ 49 := by
  have hcapacity : u64 (capacity * 6) < 2 ^ 64 :=
    Nat.mod_lt _ (Nat.two_pow_pos 64)
  rw [qlcPages, tierPages]
  omega

theorem channel_le_rawPpa (p : Ppa) : p.ch * 2 ^ 48 ≤ rawPpa p := by
  rw [rawPpa, pageBits, blkBits, plBits, lunBits]
  omega

theorem rawPpa_lt {p : Ppa} (hpg : p.pg < 2 ^ 16) (hblk : p.blk < 2 ^ 16)
    (hpl : p.pl < 2 ^ 8) (hlun : p.lun < 2 ^ 8) :
    rawPpa p < (p.ch + 1) * 2 ^ 48 := by
  rw [rawPpa, pageBits, blkBits, plBits, lunBits]
  omega

/-- A page behind three quarters of the QLC page count is in the last region.
-/
theorem getQlcRegion_of_far {hp : HybridParams} {p : Ppa}
    (hslc : hp.slcTtPgs ≤ rawPpa p) (hraw : rawPpa p < 2 ^ 64)
    (hfar : hp.qlcTtPgs / 4 * 3 ≤ rawPpa p - hp.slcTtPgs) :
    getQlcRegion hp p = 3 := by
  have hoffset := sub64_of_le hslc hraw
  unfold getQlcRegion
  dsimp only
  rw [hoffset, if_neg (by omega), if_neg (by omega), if_neg (by omega)]

section

variable {slcTtPgs qlcTtPgs pgsPerLunLine : ℕ} {p : Ppa}

theorem rawPpa_lt_of_qlc
    (hpage : QlcPage (hybridMacros slcTtPgs qlcTtPgs pgsPerLunLine) p) :
    rawPpa p < 2 ^ 51 := by
  obtain ⟨⟨-, hch⟩, hlun, hpl, hblk, hpg⟩ := hpage
  dsimp only [hybridMacros] at hch hlun hblk hpg
  have hraw := rawPpa_lt (p := p) (by omega) (by omega) (by omega) (by omega)
  omega

/-- QLC pages are never taken for SLC pages. -/
theorem getStorageType_of_qlc (hslc : slcTtPgs < 2 ^ 49)
    (hpage : QlcPage (hybridMacros slcTtPgs qlcTtPgs pgsPerLunLine) p) :
    getStorageType (hybridMacros slcTtPgs qlcTtPgs pgsPerLunLine) p =
      .qlc := by
  have hch : 2 ≤ p.ch := hpage.1.1
  have hraw := channel_le_rawPpa p
  exact if_neg (by dsimp only [hybridMacros]; omega)

/-- The page with the largest word among the SLC pages. -/
def lastSlcPage : Ppa := { ch := 1, lun := 1, pl := 0, blk := 8191, pg := 255 }

theorem rawPpa_le_last
    (hpage : SlcPage (hybridMacros slcTtPgs qlcTtPgs pgsPerLunLine) p) :
    rawPpa p ≤ rawPpa lastSlcPage := by
  obtain ⟨hch, hlun, hpl, hblk, hpg⟩ := hpage
  dsimp only [hybridMacros] at hch hlun hblk hpg
  unfold lastSlcPage rawPpa pageBits blkBits plBits lunBits
  dsimp only
  omega

/-- The storage types are right when the SLC page count is larger than the
word of the last SLC page, 2 ^ 48 and more. -/
theorem storage_right_iff (hslc : slcTtPgs < 2 ^ 49) :
    (∀ p, Reached (hybridMacros slcTtPgs qlcTtPgs pgsPerLunLine) p →
      (getStorageType (hybridMacros slcTtPgs qlcTtPgs pgsPerLunLine) p = .slc ↔
        p.ch < 2)) ↔ rawPpa lastSlcPage < slcTtPgs := by
  constructor
  · intro hright
    have hlast := (hright lastSlcPage (Or.inl ⟨Nat.lt_succ_self 1,
      Nat.lt_succ_self 1, rfl, Nat.lt_succ_self 8191, Nat.lt_succ_self 255⟩)).mpr
        (Nat.lt_succ_self 1)
    by_contra hlarge
    cases (if_neg hlarge).symm.trans hlast
  · rintro hlast p (hpage | hpage)
    · have hraw := (rawPpa_le_last hpage).trans_lt hlast
      exact iff_of_true (if_pos hraw) hpage.1
    · have hch : 2 ≤ p.ch := hpage.1.1
      rw [getStorageType_of_qlc hslc hpage]
      exact iff_of_false (fun heq => nomatch heq) (Nat.not_lt.mpr hch)

/-- Of the six QLC channels, the last four are in the last region. -/
theorem getQlcRegion_of_channel (hslc : slcTtPgs < 2 ^ 49)
    (hqlc : qlcTtPgs ≤ 2 ^ 49)
    (hpage : QlcPage (hybridMacros slcTtPgs qlcTtPgs pgsPerLunLine) p)
    (hch : 4 ≤ p.ch) :
    getQlcRegion (hybridMacros slcTtPgs qlcTtPgs pgsPerLunLine) p = 3 := by
  have hraw := channel_le_rawPpa p
  have hlt := rawPpa_lt_of_qlc hpage
  exact getQlcRegion_of_far (show slcTtPgs ≤ _ by omega) (by omega)
    (show qlcTtPgs / 4 * 3 ≤ _ - slcTtPgs by omega)

end

/-! ## Counting the pages of a region -/

/-- The same page two channels further. -/
def shiftChannel (p : Ppa) : Ppa := { p with ch := p.ch + 2 }

theorem shiftChannel_injective : Function.Injective shiftChannel := by
  rintro ⟨⟨ch, lun, pl, blk⟩, pg⟩ ⟨⟨ch', lun', pl', blk'⟩, pg'⟩ heq
  simpa only [shiftChannel, Ppa.mk.injEq, BlkAddr.mk.injEq,
    Nat.add_right_cancel_iff] using heq

/-- The first pages of channel 6. -/
def channelSix (count : ℕ) : Finset Ppa :=
  (Finset.range count).image fun pg =>
    { ch := 6, lun := 0, pl := 0, blk := 0, pg := pg }

theorem card_channelSix (count : ℕ) : (channelSix count).card = count := by
  rw [channelSix, Finset.card_image_of_injective, Finset.card_range]
  intro left right heq
  exact congrArg Ppa.pg heq

/-- When the last region takes every page of the last four channels, it has
more than the first region can have. -/
theorem card_first_lt_last {hp : HybridParams} (hslc : hp.slcChannels = 2)
    (hqlc : hp.qlcChannels = 6) (hluns : 0 < hp.qlcLunsPerCh)
    (hblks : 0 < hp.qlcBlksPerPl) (hpgs : 4 ≤ hp.qlcPgsPerBlk)
    (hlast : ∀ p, QlcPage hp p → 4 ≤ p.ch → getQlcRegion hp p = 3) :
    (regionPages hp 0).card + 4 ≤ (regionPages hp 3).card := by
  have hlow : ∀ p ∈ regionPages hp 0,
      QlcPage hp p ∧ 2 ≤ p.ch ∧ p.ch < 4 := by
    intro p hmem
    obtain ⟨hpage, hregion⟩ := mem_regionPages.mp hmem
    refine ⟨hpage, hslc ▸ hpage.1.1, ?_⟩
    by_contra hhigh
    have hthree := hlast p hpage (Nat.le_of_not_lt hhigh)
    omega
  have hdisjoint : Disjoint ((regionPages hp 0).image shiftChannel)
      (channelSix 4) := by
    rw [Finset.disjoint_left]
    intro p hshifted hsix
    obtain ⟨q, hq, rfl⟩ := Finset.mem_image.mp hshifted
    obtain ⟨pg, -, heq⟩ := Finset.mem_image.mp hsix
    have hch : 6 = q.ch + 2 := congrArg (fun p : Ppa => p.ch) heq
    have hfour := (hlow q hq).2.2
    omega
  have hsubset : (regionPages hp 0).image shiftChannel ∪ channelSix 4 ⊆
      regionPages hp 3 := by
    intro p hmem
    rw [mem_regionPages]
    rcases Finset.mem_union.mp hmem with hshifted | hsix
    · obtain ⟨q, hq, rfl⟩ := Finset.mem_image.mp hshifted
      obtain ⟨⟨-, hrest⟩, htwo, hfour⟩ := hlow q hq
      have hpage : QlcPage hp (shiftChannel q) :=
        ⟨show _ ≤ q.ch + 2 ∧ q.ch + 2 < _ by omega, hrest⟩
      exact ⟨hpage, hlast _ hpage (show 4 ≤ q.ch + 2 by omega)⟩
    · obtain ⟨pg, hpg, rfl⟩ := Finset.mem_image.mp hsix
      have hfour := Finset.mem_range.mp hpg
      have hpage : QlcPage hp
          { ch := 6, lun := 0, pl := 0, blk := 0, pg := pg } :=
        ⟨show _ ≤ 6 ∧ 6 < _ by omega, hluns, rfl, hblks, hfour.trans_le hpgs⟩
      exact ⟨hpage, hlast _ hpage (show 4 ≤ 6 by omega)⟩
  calc (regionPages hp 0).card + 4
      = ((regionPages hp 0).image shiftChannel).card + (channelSix 4).card := by
        rw [Finset.card_image_of_injective _ shiftChannel_injective,
          card_channelSix]
    _ = ((regionPages hp 0).image shiftChannel ∪ channelSix 4).card :=
        (Finset.card_union_of_disjoint hdisjoint).symm
    _ ≤ (regionPages hp 3).card := Finset.card_le_card hsubset

/-- No capacity and no macros of the NAND make the words agree with the page
counts. -/
theorem not_classifiesRight {m : SsdMacros}
    {flashpgsPerBlk capacity nparts : ℕ} {spp : SsdParams} {hp : HybridParams}
    (hrun : ssdInitParams m flashpgsPerBlk capacity nparts = .ok (spp, hp)) :
    ¬ ClassifiesRight hp := by
  intro hright
  obtain ⟨-, -, -, rfl⟩ := of_ssdInitParams hrun
  have hbalanced := hright.regions 3 0 (by omega) (by omega)
  have hlast : ∀ p, QlcPage (hpBits m capacity nparts) p → 4 ≤ p.ch →
      getQlcRegion (hpBits m capacity nparts) p = 3 := fun p =>
    getQlcRegion_of_channel (slcPages_lt (capacity / nparts))
      (qlcPages_le (capacity / nparts))
  have hunbalanced := card_first_lt_last rfl rfl (Nat.succ_pos 1)
    (Nat.succ_pos 8191) (Nat.le_add_left 4 1020) hlast
  omega

theorem not_classifiesRight_terabyte :
    ∃ spp hp, ssdInitParams smallPages 0 (2 ^ 40) 1 = .ok (spp, hp) ∧
      ¬ ClassifiesRight hp :=
  ⟨_, _, rfl, not_classifiesRight
    (show ssdInitParams smallPages 0 (2 ^ 40) 1 = _ from rfl)⟩

/-- On a terabyte, the first page of the second SLC channel is charged as a
QLC page. -/
theorem secondChannel_charged_qlc :
    ∃ spp hp, ssdInitParams smallPages 0 (2 ^ 40) 1 = .ok (spp, hp) ∧
      ∃ p, SlcPage hp p ∧ p.ch < hp.slcChannels ∧
        getStorageType hp p = .qlc := by
  refine ⟨_, _, rfl, { ch := 1, lun := 0, pl := 0, blk := 0, pg := 0 }, ?_,
    ?_, rfl⟩
  · rw [SlcPage]
    decide
  · decide

end NvmeVirt.Classifier
