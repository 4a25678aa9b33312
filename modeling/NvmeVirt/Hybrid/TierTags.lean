import NvmeVirt.Hybrid.Startup
import NvmeVirt.Hybrid.Tiers

/-!
# The tag of a page and its channel

A migration sets the tag of the page it moves.  A page write places the page
in an SLC channel and leaves the tag, which is right only when the tag is not
QLC.
-/

namespace NvmeVirt.TierTags

open NvmeVirt.HybridConfig
open NvmeVirt.HybridMapping
open NvmeVirt.HybridStartup
open NvmeVirt.Kernel
open NvmeVirt.Layout
open NvmeVirt.Migration
open NvmeVirt.Probing
open NvmeVirt.Tiers
open NvmeVirt.Timing

variable {h : HybridGeometry}

/-- A page that is tracked and mapped is tagged SLC exactly when it lies in an
SLC channel. -/
def Tagged (s : HybridFtl h) : Prop :=
  ∀ idx < h.hotnessTableSize, ∀ lpn ppa,
    s.hotnessTable.lpn idx = some lpn → s.ftl.maptbl lpn = some ppa →
      ((s.hotnessTable.entry idx).storageType = .slc ↔
        ppa.ch < h.slcChannels)

/-- The page is tracked with the tag QLC. -/
def TaggedQlc (s : HybridFtl h) (lpn : ℕ) : Prop :=
  ∃ idx < h.hotnessTableSize, s.hotnessTable.lpn idx = some lpn ∧
    (s.hotnessTable.entry idx).storageType = .qlc

/-- The tag of one page agrees with its channel. -/
def Fits (slcChannels : ℕ) (view : TierView) (lpn : ℕ) : Prop :=
  ∀ tag (ppa : Ppa), view.tag lpn = some tag → view.maptbl lpn = some ppa →
    (tag = .slc ↔ ppa.ch < slcChannels)

theorem tagged_iff_fits (s : HybridFtl h) :
    Tagged s ↔ ∀ lpn, Fits h.slcChannels (tierView s) lpn := by
  constructor
  · intro htagged lpn tag ppa htag hmapped
    obtain ⟨idx, hlt, hlpn, rfl⟩ := tagOf_eq_some.mp htag
    exact htagged idx hlt lpn ppa hlpn hmapped
  · intro hfits idx hlt lpn ppa hlpn hmapped
    exact hfits lpn _ ppa (tagOf_of_entry hlt hlpn) hmapped

theorem taggedQlc_iff (s : HybridFtl h) (lpn : ℕ) :
    TaggedQlc s lpn ↔ (tierView s).tag lpn = some .qlc :=
  tagOf_eq_some.symm

/-! ## The steps -/

theorem trackTag_of_ne {tag : ℕ → Option StorageType} {lpn other : ℕ}
    (hother : other ≠ lpn) : trackTag tag lpn other = tag other := by
  rw [trackTag]
  split_ifs
  · rw [Function.update_of_ne hother]
  · rfl

theorem trackTag_self_qlc {tag : ℕ → Option StorageType} {lpn : ℕ} :
    trackTag tag lpn lpn = some .qlc ↔ tag lpn = some .qlc := by
  rw [trackTag]
  split_ifs with hnone
  · rw [Function.update_self, hnone]
    constructor <;> intro hqlc <;> cases hqlc
  · rfl

theorem Fits.track_of_ne {slcChannels lpn other : ℕ} {view : TierView}
    (hother : other ≠ lpn) (hfits : Fits slcChannels view other) :
    Fits slcChannels (view.track lpn) other := by
  intro tag ppa htag
  have hsame : trackTag view.tag lpn other = some tag := htag
  rw [trackTag_of_ne hother] at hsame
  exact hfits tag ppa hsame

theorem Fits.move {slcChannels lpn other : ℕ} {view : TierView} {ppa : Ppa}
    (hppa : slcChannels ≤ ppa.ch)
    (hfits : other ≠ lpn → Fits slcChannels view other) :
    Fits slcChannels (view.move lpn ppa) other := by
  intro tag current htag hmapped
  dsimp only [TierView.move] at htag hmapped
  by_cases hother : other = lpn
  · rw [hother, Function.update_self] at htag hmapped
    cases htag
    cases hmapped
    exact iff_of_false (fun hqlc => nomatch hqlc) (Nat.not_lt.mpr hppa)
  · rw [Function.update_of_ne hother] at htag hmapped
    exact hfits hother tag current htag hmapped

/-- A page placed in SLC fits unless its tag is QLC. -/
theorem fits_place_iff {slcChannels lpn : ℕ} {view : TierView} {ppa : Ppa}
    (hppa : ppa.ch < slcChannels)
    (hfits : ∀ other, other ≠ lpn → Fits slcChannels view other) :
    (∀ other, Fits slcChannels (view.place lpn ppa) other) ↔
      view.tag lpn ≠ some .qlc := by
  constructor
  · intro hall htag
    have hslc := (hall lpn .qlc ppa htag (Function.update_self ..)).mpr hppa
    cases hslc
  · intro hne other tag current htag hmapped
    dsimp only [TierView.place] at htag hmapped
    by_cases hother : other = lpn
    · rw [hother, Function.update_self] at hmapped
      rw [hother] at htag
      cases hmapped
      cases tag with
      | slc => exact iff_of_true rfl hppa
      | qlc => exact absurd htag hne
    · rw [Function.update_of_ne hother] at hmapped
      exact hfits other hother tag current htag hmapped

/-- Before its page is placed, a write keeps the other tags right, and the
page is tagged QLC when it was before or when the check moved it. -/
structure CheckInv (s : HybridFtl h) (lpn : ℕ) (moved : List Move)
    (view : TierView) : Prop where
  fits : ∀ other, other ≠ lpn → Fits h.slcChannels view other
  qlc_iff : view.tag lpn = some .qlc ↔
    (tierView s).tag lpn = some .qlc ∨ ∃ oldPpa, Move.mk lpn oldPpa ∈ moved

theorem CheckInv.access {s : HybridFtl h}
    (hfits : ∀ other, Fits h.slcChannels (tierView s) other) (lpn : ℕ) :
    CheckInv s lpn [] (tierView (updatePageHotness s lpn)) := by
  have hnone : ∀ p : Prop, p ↔ p ∨ ∃ oldPpa, Move.mk lpn oldPpa ∈ [] := by
    intro p
    constructor
    · exact .inl
    · exact fun hor => hor.resolve_right fun ⟨_, hmem⟩ =>
        absurd hmem List.not_mem_nil
  obtain htrack | ⟨heq, -⟩ := updatePageHotness_tier s lpn
  · rw [htrack]
    refine ⟨fun other hother => (hfits other).track_of_ne hother, ?_⟩
    rw [← hnone]
    exact trackTag_self_qlc
  · rw [heq]
    exact ⟨fun other _ => hfits other, hnone _⟩

theorem CheckInv.move {s : HybridFtl h} {lpn other : ℕ} {moved : List Move}
    {view : TierView} (hinv : CheckInv s lpn moved view) {oldPpa newPpa : Ppa}
    (hnew : h.slcChannels ≤ newPpa.ch) :
    CheckInv s lpn (moved ++ [{ lpn := other, old := oldPpa }])
      (view.move other newPpa) := by
  refine ⟨fun third hthird => Fits.move hnew fun _ => hinv.fits third hthird,
    ?_⟩
  dsimp only [TierView.move]
  by_cases heq : lpn = other
  · rw [heq, Function.update_self]
    refine iff_of_true rfl (.inr ⟨oldPpa, ?_⟩)
    exact List.mem_append_right _ List.mem_cons_self
  · rw [Function.update_of_ne heq, hinv.qlc_iff]
    refine or_congr_right (exists_congr fun ppa => ?_)
    rw [List.mem_append, List.mem_singleton]
    constructor
    · exact .inl
    · rintro (hmem | hlast)
      · exact hmem
      · cases hlast
        exact absurd rfl heq

theorem migratePage_tagged {dma : ℕ → Bool} {s : HybridFtl h} {lpn : ℕ}
    {out : Migrated h} (htagged : Tagged s)
    (hrun : migratePage dma s lpn = .ok out) : Tagged out.state := by
  have hfits := (tagged_iff_fits s).mp htagged
  rw [tagged_iff_fits]
  obtain ⟨-, -, hstate, hstays⟩ | ⟨oldPpa, idx, hmoves⟩ :=
    migratePage_cases hrun
  · rw [hstate]
    obtain ⟨hfull, -⟩ | ⟨idx, -, hfound, -, htag⟩ :=
      getHotnessEntry_cases s.hotnessTable lpn
    · rw [hfull]
      exact hfits
    · -- a page that is tracked and not migrated is not mapped
      rw [hfound] at hstays
      have hunmapped := hstays.resolve_left (Option.some_ne_none idx)
      intro other
      by_cases hother : other = lpn
      · intro tag ppa _ hmapped
        rw [hother] at hmapped
        exact nomatch hunmapped.symm.trans hmapped
      · have htracked := (hfits other).track_of_ne hother
        rw [TierView.track] at htracked
        dsimp only [tierView] at htracked ⊢
        rw [htag]
        exact htracked
  · obtain ⟨newPpa, hlow, -, htier⟩ := hmoves.tier
    rw [htier]
    exact fun other => Fits.move hlow fun _ => hfits other

theorem writePage_tagged {dma : ℕ → Bool} {s : HybridFtl h}
    {lpn completedTime : ℕ} {out : PageWritten h} (htagged : Tagged s)
    (hrun : writePage dma s lpn completedTime = .ok out) :
    Tagged out.state ↔
      ¬ TaggedQlc s lpn ∧ ∀ oldPpa, Move.mk lpn oldPpa ∉ out.moved := by
  have hfits := (tagged_iff_fits s).mp htagged
  obtain ⟨checked, hcheck, hmoved, -, ppa, hppa, htier⟩ := writePage_cases hrun
  have hinv := check_tier (CheckInv s lpn) hcheck
    (CheckInv.access hfits lpn)
    fun _ _ _ _ _ hinv _ _ _ hnew _ => hinv.move hnew
  rw [tagged_iff_fits, htier, fits_place_iff hppa hinv.fits, Ne,
    hinv.qlc_iff, not_or, ← taggedQlc_iff, not_exists, hmoved]

/-- A migration keeps the tags right.  A page write does so exactly when its
page is not tagged QLC and not among the pages its check migrates. -/
theorem tagged_iff {s : HybridFtl h} (htagged : Tagged s) (dma : ℕ → Bool)
    (lpn : ℕ) :
    (∀ out, migratePage dma s lpn = .ok out → Tagged out.state) ∧
      ∀ completedTime out, writePage dma s lpn completedTime = .ok out →
        (Tagged out.state ↔ ¬ TaggedQlc s lpn ∧
          ∀ oldPpa, ¬ Picked dma (updatePageHotness s lpn) lpn oldPpa) := by
  refine ⟨fun out hrun => migratePage_tagged htagged hrun,
    fun completedTime out hrun => ?_⟩
  rw [writePage_tagged htagged hrun]
  refine and_congr_right fun _ => forall_congr' fun oldPpa => ?_
  rw [(writePage_moved hrun).2]

/-! ## A page that was migrated before -/

theorem probe_empty {size : ℕ} (hsize : 0 < size) (lpn : ℕ) :
    probe (emptyTable size).lpn size (lpnHash size) lpn =
      some (lpnHash size lpn % size) :=
  probe_first hsize (.inl rfl)

/-- A table that tracks the page 0 only, with the tag QLC. -/
def demotedTable (size : ℕ) (hsize : 0 < size) : HotnessTable size :=
  ((emptyTable size).track (probe_empty hsize 0)).set (lpnHash size 0 % size)
    { freshHotness with storageType := .qlc }

/-- The page 0 was migrated to the first page of the first QLC channel. -/
def demoted : HybridFtl fullDevice :=
  { fullStart with
    ftl := { fullStart.ftl with
      maptbl := Function.update fullStart.ftl.maptbl 0
        (some { ch := 2, lun := 0, pl := 0, blk := 0, pg := 0 }) }
    hotnessTable := demotedTable _ fullDevice.hotnessTableSize_pos }

theorem demotedTable_tag {size : ℕ} (hsize : 0 < size) :
    tagOf (demotedTable size hsize) =
      Function.update (tagOf (emptyTable size)) 0 (some .qlc) := by
  have hprobe := probe_empty hsize 0
  have hlpn : ((emptyTable size).track hprobe).lpn (lpnHash size 0 % size) =
      some 0 := by
    rw [HotnessTable.track_lpn, Function.update_self]
  rw [demotedTable, tagOf_set (lt_of_probe hprobe) hlpn,
    tagOf_track hprobe rfl, Function.update_idem]

theorem tagOf_emptyTable (size lpn : ℕ) : tagOf (emptyTable size) lpn = none := by
  cases htag : tagOf (emptyTable size) lpn with
  | none => rfl
  | some tag =>
      obtain ⟨idx, -, hlpn, -⟩ := tagOf_eq_some.mp htag
      cases hlpn

theorem demoted_tagged : Tagged demoted := by
  rw [tagged_iff_fits]
  intro lpn tag ppa htag hmapped
  dsimp only [tierView, demoted] at htag hmapped
  rw [demotedTable_tag] at htag
  by_cases hlpn : lpn = 0
  · subst hlpn
    rw [Function.update_self] at htag hmapped
    cases htag
    cases hmapped
    decide
  · rw [Function.update_of_ne hlpn, tagOf_emptyTable] at htag
    cases htag

theorem demoted_taggedQlc : TaggedQlc demoted 0 := by
  rw [taggedQlc_iff]
  dsimp only [tierView, demoted]
  rw [demotedTable_tag, Function.update_self]

/-- The first page of a device whose memory was all zeros. -/
theorem zeroWp_page {s : HybridFtl fullDevice}
    (hlunwp : s.lunwp = fun _ => zeroWp) (lun : ℕ) :
    getNewPageDA { s with lunpointer := lun } .user =
      .ok { ch := 0, lun := 0, pl := 0, blk := 0, pg := 0 } := by
  apply getNewPageDA_of
  · dsimp only [getWpDA]
    rw [hlunwp]
    rfl
  · decide
  · rfl

/-- Writing the page 0 goes through on a device whose memory was all zeros. -/
theorem zeroWp_write {s : HybridFtl fullDevice}
    (hlunwp : s.lunwp = fun _ => zeroWp) (hssd : s.ssd = fullStart.ssd)
    (hlast : s.lastMigrationCheck = 0) (dma : ℕ → Bool) :
    ¬ Due (updatePageHotness s 0) ∧ ∃ out, writePage dma s 0 0 = .ok out := by
  have hclock : ∀ n, s.ssd.clock.readings n = 0 := by
    intro n
    rw [hssd]
    rfl
  apply writePage_within hclock hlast (by decide) (zeroWp_page hlunwp _)
    (by decide) (by decide)
  rw [hlunwp]
  decide

theorem tagged_iff_fullDevice :
    ∃ out, Tagged fullStart ∧ writePage (fun _ => true) fullStart 0 0 = .ok out ∧
      Tagged out.state := by
  have htagged : Tagged fullStart := fun _ _ _ _ hlpn => nomatch hlpn
  obtain ⟨hidle, out, hrun⟩ :=
    zeroWp_write (s := fullStart) rfl rfl rfl fun _ => true
  refine ⟨out, htagged, hrun,
    ((tagged_iff htagged _ 0).2 0 out hrun).mpr ⟨?_, ?_⟩⟩
  · exact fun ⟨_, _, hlpn, _⟩ => nomatch hlpn
  · exact fun _ hpicked => hidle hpicked.due

/-- Writing a migrated page again leaves the tag QLC on a page in SLC. -/
theorem demoted_rewritten :
    ∃ out, Tagged demoted ∧ writePage (fun _ => true) demoted 0 0 = .ok out ∧
      ¬ Tagged out.state := by
  obtain ⟨-, out, hrun⟩ := zeroWp_write (s := demoted) rfl rfl rfl fun _ => true
  refine ⟨out, demoted_tagged, hrun, fun htagged => ?_⟩
  exact ((writePage_tagged demoted_tagged hrun).mp htagged).1 demoted_taggedQlc

end NvmeVirt.TierTags
