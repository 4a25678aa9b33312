import NvmeVirt.Core.Counting
import NvmeVirt.Hybrid.DieWrites
import NvmeVirt.Hybrid.Migration

/-!
# The records of the tiers

Which tier a page is in is recorded three times: by the channel of its
address, by the tag of its hotness entry, and in the number of used pages of
the tier.  This module says what tracking, moving and placing a page do to the
three, and which pages the check of a page write moves.
-/

namespace NvmeVirt.Tiers

open NvmeVirt.Counting
open NvmeVirt.DieWrites (advance_within)
open NvmeVirt.HybridConfig
open NvmeVirt.HybridMapping
open NvmeVirt.Kernel
open NvmeVirt.Layout
open NvmeVirt.Mapping (Ftl WritePointer setMaptblEnt_eq_ok setMaptblEnt_of
  setRmapEnt_eq_ok setRmapEnt_of)
open NvmeVirt.Migration
open NvmeVirt.Probing
open NvmeVirt.Timing
open NvmeVirt.Transition

/-! ## Tags -/

section

variable {size : ℕ}

/-- The `storage_type` of a tracked page. -/
def tagOf (table : HotnessTable size) (lpn : ℕ) : Option StorageType :=
  (probe table.lpn size (lpnHash size) lpn).bind fun idx =>
    if table.lpn idx = some lpn then some (table.entry idx).storageType
    else none

theorem tagOf_eq_some {table : HotnessTable size} {lpn : ℕ}
    {tag : StorageType} :
    tagOf table lpn = some tag ↔
      ∃ idx < size, table.lpn idx = some lpn ∧
        (table.entry idx).storageType = tag := by
  rw [tagOf, Option.bind_eq_some_iff]
  constructor
  · rintro ⟨idx, hprobe, htag⟩
    split_ifs at htag with hlpn
    exact ⟨idx, lt_of_probe hprobe, hlpn, Option.some.inj htag⟩
  · rintro ⟨idx, hlt, hlpn, htag⟩
    refine ⟨idx, table.reached idx lpn hlt hlpn, ?_⟩
    rw [if_pos hlpn, htag]

theorem tagOf_of_entry {table : HotnessTable size} {lpn idx : ℕ}
    (hlt : idx < size) (hlpn : table.lpn idx = some lpn) :
    tagOf table lpn = some (table.entry idx).storageType :=
  tagOf_eq_some.mpr ⟨idx, hlt, hlpn, rfl⟩

/-- Overwriting the entry of a tracked page changes the tag of that page. -/
theorem tagOf_set {table : HotnessTable size} {lpn idx : ℕ} (hlt : idx < size)
    (hlpn : table.lpn idx = some lpn) (hotness : PageHotness) :
    tagOf (table.set idx hotness) =
      Function.update (tagOf table) lpn (some hotness.storageType) := by
  funext other
  by_cases hother : other = lpn
  · subst hother
    have htag : tagOf (table.set idx hotness) other = some _ :=
      tagOf_of_entry hlt hlpn
    rw [htag, HotnessTable.set_entry, Function.update_self,
      Function.update_self]
  · rw [Function.update_of_ne hother]
    have hne : ∀ slot, table.lpn slot = some other → slot ≠ idx := by
      rintro slot hslot rfl
      exact hother (Option.some.inj (hslot.symm.trans hlpn))
    ext tag
    rw [tagOf_eq_some, tagOf_eq_some]
    refine exists_congr fun slot => and_congr_right fun _ =>
      and_congr_right fun hslot => ?_
    rw [HotnessTable.set_entry, Function.update_of_ne (hne slot hslot)]

theorem tagOf_track {table : HotnessTable size} {lpn idx : ℕ}
    (hprobe : probe table.lpn size (lpnHash size) lpn = some idx)
    (hempty : table.lpn idx = none) :
    tagOf (table.track hprobe) =
      Function.update (tagOf table) lpn (some .slc) := by
  funext other
  by_cases hother : other = lpn
  · subst hother
    have htag : tagOf (table.track hprobe) other = some _ :=
      tagOf_of_entry (lt_of_probe hprobe) (Function.update_self ..)
    rw [htag, HotnessTable.track_entry, Function.update_self,
      Function.update_self]
    rfl
  · rw [Function.update_of_ne hother]
    ext tag
    rw [tagOf_eq_some, tagOf_eq_some]
    refine exists_congr fun slot => and_congr_right fun _ => ?_
    rw [HotnessTable.track_lpn, HotnessTable.track_entry]
    by_cases hslot : slot = idx
    · subst hslot
      rw [Function.update_self, hempty]
      constructor
      · rintro ⟨hsame, -⟩
        exact absurd (Option.some.inj hsame).symm hother
      · rintro ⟨hsame, -⟩
        cases hsame
    · rw [Function.update_of_ne hslot, Function.update_of_ne hslot]

/-- The tags after `get_hotness_entry`: a page that is not tracked starts in
SLC. -/
def trackTag (tag : ℕ → Option StorageType) (lpn : ℕ) :
    ℕ → Option StorageType :=
  if tag lpn = none then Function.update tag lpn (some .slc) else tag

/-- `get_hotness_entry` finds the entry of the page, or the table is full of
other pages. -/
theorem getHotnessEntry_cases (table : HotnessTable size) (lpn : ℕ) :
    (getHotnessEntry table lpn = (none, table) ∧ tagOf table lpn = none) ∨
      ∃ idx < size, (getHotnessEntry table lpn).1 = some idx ∧
        (getHotnessEntry table lpn).2.lpn idx = some lpn ∧
        tagOf (getHotnessEntry table lpn).2 = trackTag (tagOf table) lpn := by
  rw [getHotnessEntry]
  split
  next hprobe =>
    left
    rw [tagOf, hprobe]
    exact ⟨rfl, rfl⟩
  next idx hprobe =>
    right
    refine ⟨idx, lt_of_probe hprobe, rfl, ?_⟩
    dsimp only
    split_ifs with hempty
    · have huntracked : tagOf table lpn = none := by
        rw [tagOf, hprobe, Option.bind_some, hempty]
        rfl
      rw [trackTag, if_pos huntracked]
      exact ⟨Function.update_self .., tagOf_track hprobe hempty⟩
    · have hlpn := (hits_of_probe hprobe).resolve_left hempty
      rw [trackTag, tagOf_of_entry (lt_of_probe hprobe) hlpn,
        if_neg (Option.some_ne_none _)]
      exact ⟨hlpn, rfl⟩

/-- A tracked page keeps its entry. -/
theorem getHotnessEntry_of_tracked {table : HotnessTable size} {lpn idx : ℕ}
    (hlt : idx < size) (hlpn : table.lpn idx = some lpn) :
    getHotnessEntry table lpn = (some idx, table) := by
  have hreached := table.reached idx lpn hlt hlpn
  rw [getHotnessEntry]
  split
  next hprobe =>
    rw [hreached] at hprobe
    cases hprobe
  next slot hprobe =>
    rw [hreached] at hprobe
    cases hprobe
    rw [hlpn, if_neg (Option.some_ne_none _)]

end

variable {h : HybridGeometry}

/-! ## The view -/

/-- The three records. -/
@[ext]
structure TierView where
  tag : ℕ → Option StorageType
  maptbl : ℕ → Option Ppa
  usedSlcPages : ℕ
  usedQlcPages : ℕ

def tierView (s : HybridFtl h) : TierView where
  tag := tagOf s.hotnessTable
  maptbl := s.ftl.maptbl
  usedSlcPages := s.usedSlcPages
  usedQlcPages := s.usedQlcPages

/-- Start to track a page that is not tracked. -/
def TierView.track (view : TierView) (lpn : ℕ) : TierView :=
  { view with tag := trackTag view.tag lpn }

/-- A migration to the page `ppa`. -/
def TierView.move (view : TierView) (lpn : ℕ) (ppa : Ppa) : TierView where
  tag := Function.update view.tag lpn (some .qlc)
  maptbl := Function.update view.maptbl lpn (some ppa)
  usedSlcPages := sub64 view.usedSlcPages 1
  usedQlcPages := u64 (view.usedQlcPages + 1)

/-- A write to the page `ppa`. -/
def TierView.place (view : TierView) (lpn : ℕ) (ppa : Ppa) : TierView :=
  { view with maptbl := Function.update view.maptbl lpn (some ppa) }

theorem TierView.move_track (view : TierView) (lpn : ℕ) (ppa : Ppa) :
    (view.track lpn).move lpn ppa = view.move lpn ppa := by
  unfold TierView.track TierView.move trackTag
  split_ifs
  · rw [Function.update_idem]
  · rfl

/-! ## Placing a page -/

theorem advanceWritePointerDA_tier {s s' : HybridFtl h}
    (hrun : advanceWritePointerDA s .user = .ok s') :
    tierView s' = tierView s := by
  cases DieWrites.advanceWritePointerDA_cases hrun with
  | within => rfl
  | switched => rfl

/-- A page is placed in an SLC channel, and no other record changes. -/
theorem placePage_tier {s : HybridFtl h} {lpn completedTime : ℕ}
    {placed : ℕ × HybridFtl h}
    (hrun : placePage s lpn completedTime = .ok placed) :
    lpn < h.ttPgs ∧ ∃ ppa, ppa.ch < h.slcChannels ∧
      tierView placed.2 = (tierView s).place lpn ppa := by
  rw [placePage] at hrun
  obtain ⟨ppa, hpage, hrun⟩ := bind_eq_ok hrun
  split at hrun
  split at hrun
  obtain ⟨ftl, hmap, hrun⟩ := bind_eq_ok hrun
  obtain ⟨ftl', hrmap, hrun⟩ := bind_eq_ok hrun
  obtain ⟨after, hadvance, hrun⟩ := bind_eq_ok hrun
  cases hrun
  obtain ⟨hlpn, rfl⟩ := setMaptblEnt_eq_ok hmap
  obtain rfl := setRmapEnt_eq_ok hrmap
  obtain ⟨_, hassert, hpage⟩ := bind_eq_ok hpage
  obtain ⟨-, -, hpage⟩ := bind_eq_ok hpage
  cases hpage
  refine ⟨hlpn, _, of_nvmevAssert hassert, ?_⟩
  rw [advanceWritePointerDA_tier hadvance]
  rfl

/-! ## Moving a page -/

theorem advanceWritePointerQLC_frame {s s' : HybridFtl h}
    (hrun : advanceWritePointerQLC s .gc = .ok s') :
    ∃ wpp, s' = { s with ftl := Mapping.setWp s.ftl wpp .gc } := by
  rw [advanceWritePointerQLC] at hrun
  obtain ⟨-, -, hrun⟩ := bind_eq_ok hrun
  dsimp only at hrun
  split at hrun
  · cases hrun
    exact ⟨_, rfl⟩
  split at hrun
  · cases hrun
    exact ⟨_, rfl⟩
  -- past its range check the block is never the last one
  obtain ⟨_, hblk, hrun⟩ := bind_eq_ok hrun
  have hne := Nat.ne_of_lt (of_nvmevAssert hblk)
  rw [if_pos hne] at hrun
  cases hrun
  exact ⟨_, rfl⟩

/-- What is the same before and after a change of the mapping state. -/
structure SameTracking (s s' : HybridFtl h) : Prop where
  hotnessTable_eq : s'.hotnessTable = s.hotnessTable
  currentMigrations_eq : s'.currentMigrations = s.currentMigrations
  usedQlcPages_eq : s'.usedQlcPages = s.usedQlcPages

theorem markPageInvalid_frame {s s' : HybridFtl h} {ppa : Ppa}
    (hrun : markPageInvalid s ppa = .ok s') :
    SameTracking s s' ∧ s'.ftl.maptbl = s.ftl.maptbl ∧
      s'.usedSlcPages = s.usedSlcPages := by
  obtain ⟨-, lm, lunlm, -, -, rfl⟩ := markPageInvalid_eq_ok hrun
  exact ⟨⟨rfl, rfl, rfl⟩, rfl, rfl⟩

/-- What `remap` does: it maps the page to its new address, moves the QLC
pointer, and takes the old page out. -/
theorem remap_eq_ok {s s' : HybridFtl h} {lpn : ℕ} {oldPpa newPpa : Ppa}
    (hrun : remap s lpn oldPpa newPpa = .ok s') :
    lpn < h.ttPgs ∧ ∃ wpp marked,
      markPageInvalid
        { s with
          ftl := Mapping.setWp { s.ftl with
            maptbl := Function.update s.ftl.maptbl lpn (some newPpa)
            rmap := Function.update s.ftl.rmap (pgidx h.toGeometry newPpa)
              (some lpn) } wpp .gc } oldPpa = .ok marked ∧
      s' = { marked with usedSlcPages := sub64 marked.usedSlcPages 1 } := by
  rw [remap] at hrun
  obtain ⟨ftl, hmap, hrun⟩ := bind_eq_ok hrun
  obtain ⟨ftl', hrmap, hrun⟩ := bind_eq_ok hrun
  obtain ⟨advanced, hadvance, hrun⟩ := bind_eq_ok hrun
  obtain ⟨marked, hmark, hrun⟩ := bind_eq_ok hrun
  cases hrun
  obtain ⟨hlpn, rfl⟩ := setMaptblEnt_eq_ok hmap
  obtain rfl := setRmapEnt_eq_ok hrmap
  obtain ⟨wpp, rfl⟩ := advanceWritePointerQLC_frame hadvance
  exact ⟨hlpn, wpp, marked, hmark, rfl⟩

theorem remap_frame {s s' : HybridFtl h} {lpn : ℕ} {oldPpa newPpa : Ppa}
    (hrun : remap s lpn oldPpa newPpa = .ok s') :
    lpn < h.ttPgs ∧ SameTracking s s' ∧
      s'.ftl.maptbl = Function.update s.ftl.maptbl lpn (some newPpa) ∧
      s'.usedSlcPages = sub64 s.usedSlcPages 1 := by
  obtain ⟨hlpn, wpp, marked, hmark, rfl⟩ := remap_eq_ok hrun
  obtain ⟨⟨htable, hcount, hqlc⟩, hmap, hslc⟩ := markPageInvalid_frame hmark
  refine ⟨hlpn, ⟨htable, hcount, hqlc⟩, hmap, ?_⟩
  rw [hslc]

/-- What a migration of `lpn` from `oldPpa` leaves; `idx` is the entry of the
page. -/
structure Moves (s : HybridFtl h) (lpn : ℕ) (oldPpa : Ppa) (idx : ℕ)
    (out : Migrated h) : Prop where
  found : (getHotnessEntry s.hotnessTable lpn).1 = some idx
  mapped : s.ftl.maptbl lpn = some oldPpa
  lpn_lt : lpn < h.ttPgs
  moved_eq : out.moved = [{ lpn := lpn, old := oldPpa }]
  hotnessTable_eq : ∃ hotness : PageHotness, hotness.storageType = .qlc ∧
    out.state.hotnessTable =
      (getHotnessEntry s.hotnessTable lpn).2.set idx hotness
  currentMigrations_eq : out.state.currentMigrations = s.currentMigrations
  records : ∃ newPpa : Ppa, h.slcChannels ≤ newPpa.ch ∧
    newPpa.ch < h.slcChannels + h.qlcChannels ∧
    out.state.ftl.maptbl = Function.update s.ftl.maptbl lpn (some newPpa) ∧
    out.state.usedSlcPages = sub64 s.usedSlcPages 1 ∧
    out.state.usedQlcPages = u64 (s.usedQlcPages + 1)

/-- `migrate_page` finds no entry or no mapping, or it moves the page. -/
theorem migratePage_cases {dma : ℕ → Bool} {s : HybridFtl h} {lpn : ℕ}
    {out : Migrated h} (hrun : migratePage dma s lpn = .ok out) :
    (out.migrationTime = 0 ∧ out.moved = [] ∧
        out.state = { s with
          hotnessTable := (getHotnessEntry s.hotnessTable lpn).2 } ∧
        ((getHotnessEntry s.hotnessTable lpn).1 = none ∨
          s.ftl.maptbl lpn = none)) ∨
      ∃ oldPpa idx, Moves s lpn oldPpa idx out := by
  rw [migratePage] at hrun
  dsimp only at hrun
  split at hrun
  next hnone =>
    cases hrun
    left
    obtain ⟨hfull, -⟩ | ⟨idx, -, hfound, -⟩ :=
      getHotnessEntry_cases s.hotnessTable lpn
    · rw [hfull]
      exact ⟨rfl, rfl, rfl, .inl rfl⟩
    · rw [hfound] at hnone
      cases hnone
  next idx hfound =>
    split at hrun
    next hunmapped =>
      cases hrun
      exact .inl ⟨rfl, rfl, rfl, .inr hunmapped⟩
    next oldPpa hmapped =>
      right
      obtain ⟨newPpa, hpage, hrun⟩ := bind_eq_ok hrun
      obtain ⟨after, hremap, hrun⟩ := bind_eq_ok hrun
      cases hrun
      obtain ⟨hlpn, ⟨htable, hcount, hqlc⟩, hmap, hslc⟩ := remap_frame hremap
      obtain ⟨_, hlow, hpage⟩ := bind_eq_ok hpage
      obtain ⟨_, hhigh, hpage⟩ := bind_eq_ok hpage
      cases hpage
      refine ⟨oldPpa, idx,
        { found := hfound
          mapped := hmapped
          lpn_lt := hlpn
          moved_eq := rfl
          hotnessTable_eq :=
            ⟨{ (getHotnessEntry s.hotnessTable lpn).2.entry idx with
                isMigrating := false, storageType := .qlc }, rfl, ?_⟩
          currentMigrations_eq := hcount
          records := ⟨_, of_nvmevAssert hlow, of_nvmevAssert hhigh, hmap, hslc,
            hqlc⟩ }⟩
      dsimp only [setHotness]
      rw [htable]
      dsimp only [setHotness]
      rw [HotnessTable.set_set, HotnessTable.set_set]

theorem Moves.tier {s : HybridFtl h} {lpn idx : ℕ} {oldPpa : Ppa}
    {out : Migrated h} (hmoves : Moves s lpn oldPpa idx out) :
    ∃ newPpa : Ppa, h.slcChannels ≤ newPpa.ch ∧
      newPpa.ch < h.slcChannels + h.qlcChannels ∧
      tierView out.state = (tierView s).move lpn newPpa := by
  obtain ⟨newPpa, hlow, hhigh, hmap, hslc, hqlc⟩ := hmoves.records
  obtain ⟨hotness, htype, htable⟩ := hmoves.hotnessTable_eq
  refine ⟨newPpa, hlow, hhigh, ?_⟩
  obtain ⟨hfull, -⟩ | ⟨slot, hlt, hfound, hlpn, htag⟩ :=
    getHotnessEntry_cases s.hotnessTable lpn
  · have hnone := hmoves.found
    rw [hfull] at hnone
    cases hnone
  · rw [← TierView.move_track]
    have hslot : slot = idx := Option.some.inj (hfound.symm.trans hmoves.found)
    rw [hslot] at hlt hlpn
    ext1
    · dsimp only [tierView, TierView.move, TierView.track]
      rw [htable, tagOf_set hlt hlpn, htag, htype]
    · exact hmap
    · exact hslc
    · exact hqlc

/-! ## The access -/

theorem accessed_storageType (hotness : PageHotness) (currentTime : ℕ) :
    (accessed hotness currentTime).storageType = hotness.storageType := by
  rw [accessed]
  dsimp only
  split_ifs <;> rfl

/-- The access that a page write notes changes no tag. -/
theorem updatePageHotness_tier (s : HybridFtl h) (lpn : ℕ) :
    tierView (updatePageHotness s lpn) = (tierView s).track lpn ∨
      (updatePageHotness s lpn = s ∧ (tierView s).tag lpn = none) := by
  rw [updatePageHotness]
  obtain ⟨hfull, huntracked⟩ | ⟨idx, hlt, hfound, hlpn, htag⟩ :=
    getHotnessEntry_cases s.hotnessTable lpn
  · right
    rw [hfull]
    exact ⟨rfl, huntracked⟩
  · left
    dsimp only
    rw [hfound]
    unfold tierView TierView.track setHotness
    dsimp only
    rw [tagOf_set hlt hlpn, accessed_storageType, ← htag]
    congr 1
    rw [Function.update_eq_self_iff]
    exact (tagOf_of_entry hlt hlpn).symm

/-! ## The check -/

/-- The round `i` finds a cold page to move. -/
structure Picks (s : HybridFtl h) (i lpn : ℕ) (oldPpa : Ppa) : Prop where
  tracked : s.hotnessTable.lpn i = some lpn
  cold : shouldMigratePage h (s.hotnessTable.entry i) = true
  mapped : s.ftl.maptbl lpn = some oldPpa

/-- What a round that moves a page leaves. -/
structure RoundMoves (state state' : List Move × HybridFtl h) (i lpn : ℕ)
    (oldPpa : Ppa) : Prop where
  lpn_lt : lpn < h.ttPgs
  moved_eq : state'.1 = state.1 ++ [{ lpn := lpn, old := oldPpa }]
  hotnessTable_eq : ∃ hotness,
    state'.2.hotnessTable = state.2.hotnessTable.set i hotness
  tier : ∃ newPpa : Ppa, h.slcChannels ≤ newPpa.ch ∧
    newPpa.ch < h.slcChannels + h.qlcChannels ∧
    tierView state'.2 = (tierView state.2).move lpn newPpa

/-- A round moves the page it picks while the limit is not reached, and
otherwise does nothing. -/
theorem migrationRound_cases {dma : ℕ → Bool}
    {state state' : List Move × HybridFtl h} {i : ℕ}
    (hi : i < h.hotnessTableSize)
    (hrun : migrationRound dma state i = .ok state') :
    (state' = state ∧ ∀ lpn oldPpa, Picks state.2 i lpn oldPpa →
        h.maxMigrationsPerCheck ≤ state.2.currentMigrations) ∨
      ∃ lpn oldPpa, state.2.currentMigrations < h.maxMigrationsPerCheck ∧
        Picks state.2 i lpn oldPpa ∧
        RoundMoves state state' i lpn oldPpa := by
  rw [migrationRound] at hrun
  dsimp only at hrun
  split at hrun
  next hlimit =>
    cases hrun
    exact .inl ⟨rfl, fun _ _ _ => hlimit⟩
  next hlimit =>
  split at hrun
  next hempty =>
    cases hrun
    refine .inl ⟨rfl, fun lpn oldPpa hpicks => ?_⟩
    have htracked := hpicks.tracked
    rw [hempty] at htracked
    cases htracked
  next lpn hlpn =>
  split at hrun
  next hcold =>
    obtain ⟨out, hmigrate, hrun⟩ := bind_eq_ok hrun
    have hentry := getHotnessEntry_of_tracked hi hlpn
    obtain ⟨htime, hmoved, hstate, hstays⟩ | ⟨oldPpa, idx, hmoves⟩ :=
      migratePage_cases hmigrate
    · left
      rw [hentry] at hstate hstays
      cases hrun
      rw [htime, hmoved, hstate, List.append_nil]
      refine ⟨rfl, fun lpn' oldPpa hpicks => ?_⟩
      have hsame := Option.some.inj (hlpn.symm.trans hpicks.tracked)
      have hmapped := hpicks.mapped
      rw [← hsame, hstays.resolve_left (Option.some_ne_none i)] at hmapped
      cases hmapped
    · right
      have hidx := hmoves.found
      rw [hentry] at hidx
      cases hidx
      obtain ⟨hotness, -, htable⟩ := hmoves.hotnessTable_eq
      obtain ⟨newPpa, hlow, hhigh, htier⟩ := hmoves.tier
      rw [hentry] at htable
      cases hrun
      refine ⟨lpn, oldPpa, Nat.lt_of_not_le hlimit,
        ⟨hlpn, hcold, hmoves.mapped⟩, hmoves.lpn_lt, ?_, ⟨hotness, ?_⟩,
        newPpa, hlow, hhigh, ?_⟩
      · rw [hmoves.moved_eq]
      · rw [← htable]
        split_ifs <;> rfl
      · rw [← htier]
        dsimp only
        split_ifs <;> rfl
  next hwarm =>
    cases hrun
    refine .inl ⟨rfl, fun lpn oldPpa hpicks => ?_⟩
    exact absurd hpicks.cold hwarm

/-- The state in which the rounds of a check start. -/
def roundsStart (s : HybridFtl h) : HybridFtl h :=
  { s with
    ssd := (getWallclock s.ssd).2
    lastMigrationCheck := (getWallclock s.ssd).1
    currentMigrations := 0 }

/-- The interval since the last check is over. -/
def Due (s : HybridFtl h) : Prop :=
  h.migrationInterval ≤ sub64 (getWallclock s.ssd).1 s.lastMigrationCheck

/-- The entries before `i` use up what one check may migrate. -/
def LimitReached (dma : ℕ → Bool) (s : HybridFtl h) (i : ℕ) : Prop :=
  ∃ state, (List.range i).foldlM (migrationRound dma) ([], roundsStart s) =
      .ok state ∧
    h.maxMigrationsPerCheck ≤ state.2.currentMigrations

/-- A check made now migrates the page `lpn` away from `oldPpa`. -/
structure Picked (dma : ℕ → Bool) (s : HybridFtl h) (lpn : ℕ)
    (oldPpa : Ppa) : Prop where
  due : Due s
  picks : ∃ i < h.hotnessTableSize, Picks s i lpn oldPpa ∧
    ¬ LimitReached dma s i

theorem checkAndPerformMigrations_cases {dma : ℕ → Bool} {s : HybridFtl h}
    {out : List Move × HybridFtl h}
    (hrun : checkAndPerformMigrations dma s = .ok out) :
    (¬ Due s ∧ out.1 = [] ∧ tierView out.2 = tierView s) ∨
      (Due s ∧ (List.range h.hotnessTableSize).foldlM (migrationRound dma)
        ([], roundsStart s) = .ok out) := by
  rw [checkAndPerformMigrations] at hrun
  dsimp only at hrun
  split_ifs at hrun with hdue
  · cases hrun
    exact .inl ⟨Nat.not_le.mpr hdue, rfl, rfl⟩
  · exact .inr ⟨Nat.le_of_not_lt hdue, hrun⟩

/-- The rounds before `k` touched the entries before `k` and their pages. -/
structure RoundInv (dma : ℕ → Bool) (s : HybridFtl h) (k : ℕ)
    (state : List Move × HybridFtl h) : Prop where
  tracked_eq : state.2.hotnessTable.lpn = s.hotnessTable.lpn
  entry_eq : ∀ i, k ≤ i →
    state.2.hotnessTable.entry i = s.hotnessTable.entry i
  maptbl_eq : ∀ lpn, (∀ i < k, s.hotnessTable.lpn i ≠ some lpn) →
    state.2.ftl.maptbl lpn = s.ftl.maptbl lpn
  length_le : state.1.length ≤ k
  mem_iff : ∀ lpn oldPpa, Move.mk lpn oldPpa ∈ state.1 ↔
    ∃ i < k, Picks s i lpn oldPpa ∧ ¬ LimitReached dma s i

/-- What the round `k` picks, it would have picked at the start. -/
theorem RoundInv.picks_iff {dma : ℕ → Bool} {s : HybridFtl h} {k : ℕ}
    {state : List Move × HybridFtl h} (hinv : RoundInv dma s k state)
    (hk : k < h.hotnessTableSize) (lpn : ℕ) (oldPpa : Ppa) :
    Picks state.2 k lpn oldPpa ↔ Picks s k lpn oldPpa := by
  have hmap : s.hotnessTable.lpn k = some lpn →
      state.2.ftl.maptbl lpn = s.ftl.maptbl lpn := by
    intro hlpn
    apply hinv.maptbl_eq
    intro i hi hsame
    have hunique := s.hotnessTable.reached.unique (hi.trans hk) hk hsame hlpn
    exact absurd hunique (Nat.ne_of_lt hi)
  constructor
  · rintro ⟨htracked, hcold, hmapped⟩
    rw [hinv.tracked_eq] at htracked
    rw [hinv.entry_eq k le_rfl] at hcold
    rw [hmap htracked] at hmapped
    exact ⟨htracked, hcold, hmapped⟩
  · rintro ⟨htracked, hcold, hmapped⟩
    rw [← hmap htracked] at hmapped
    rw [← hinv.entry_eq k le_rfl] at hcold
    rw [← hinv.tracked_eq] at htracked
    exact ⟨htracked, hcold, hmapped⟩

theorem RoundInv.step {dma : ℕ → Bool} {s : HybridFtl h} {k : ℕ}
    {state state' : List Move × HybridFtl h} (hinv : RoundInv dma s k state)
    (hk : k < h.hotnessTableSize)
    (hearlier : (List.range k).foldlM (migrationRound dma)
      ([], roundsStart s) = .ok state)
    (hrun : migrationRound dma state k = .ok state') :
    RoundInv dma s (k + 1) state' := by
  have hlimit : LimitReached dma s k ↔
      h.maxMigrationsPerCheck ≤ state.2.currentMigrations := by
    constructor
    · rintro ⟨other, hother, hle⟩
      rw [hearlier] at hother
      cases hother
      exact hle
    · exact fun hle => ⟨state, hearlier, hle⟩
  have hmem : ∀ lpn oldPpa,
      (∃ i < k + 1, Picks s i lpn oldPpa ∧ ¬ LimitReached dma s i) ↔
        Move.mk lpn oldPpa ∈ state.1 ∨
          (Picks state.2 k lpn oldPpa ∧
            state.2.currentMigrations < h.maxMigrationsPerCheck) := by
    intro lpn oldPpa
    rw [hinv.mem_iff, hinv.picks_iff hk, ← Nat.not_le, ← hlimit]
    constructor
    · rintro ⟨i, hi, hpicked⟩
      obtain hlt | rfl := Nat.lt_succ_iff_lt_or_eq.mp hi
      · exact .inl ⟨i, hlt, hpicked⟩
      · exact .inr hpicked
    · rintro (⟨i, hi, hpicked⟩ | hpicked)
      · exact ⟨i, Nat.lt_succ_of_lt hi, hpicked⟩
      · exact ⟨k, Nat.lt_succ_self k, hpicked⟩
  obtain ⟨rfl, hnone⟩ | ⟨lpn, oldPpa, hbelow, hpicks, hmoves⟩ :=
    migrationRound_cases hk hrun
  · refine ⟨hinv.tracked_eq, fun i hi => hinv.entry_eq i (by omega), ?_,
      hinv.length_le.trans (Nat.le_succ k), fun lpn oldPpa => ?_⟩
    · exact fun lpn hlpn =>
        hinv.maptbl_eq lpn fun i hi => hlpn i (Nat.lt_succ_of_lt hi)
    · rw [hmem]
      refine ⟨.inl, fun hpicked => hpicked.resolve_right ?_⟩
      rintro ⟨hpicks, hbelow⟩
      exact absurd (hnone lpn oldPpa hpicks) (Nat.not_le.mpr hbelow)
  · obtain ⟨hotness, htable⟩ := hmoves.hotnessTable_eq
    obtain ⟨newPpa, -, -, htier⟩ := hmoves.tier
    refine ⟨?_, fun i hi => ?_, fun other hother => ?_, ?_,
      fun other oldPpa' => ?_⟩
    · rw [htable, HotnessTable.set_lpn, hinv.tracked_eq]
    · rw [htable, HotnessTable.set_entry, Function.update_of_ne (by omega)]
      exact hinv.entry_eq i (by omega)
    · have hne : other ≠ lpn := by
        rintro rfl
        have htracked := hpicks.tracked
        rw [hinv.tracked_eq] at htracked
        exact hother k (Nat.lt_succ_self k) htracked
      have hmaptbl := congrFun (congrArg TierView.maptbl htier) other
      refine hmaptbl.trans ?_
      dsimp only [tierView, TierView.move]
      rw [Function.update_of_ne hne]
      exact hinv.maptbl_eq other fun i hi => hother i (Nat.lt_succ_of_lt hi)
    · rw [hmoves.moved_eq, List.length_append]
      exact Nat.succ_le_succ hinv.length_le
    · rw [hmem, hmoves.moved_eq, List.mem_append, List.mem_singleton]
      refine or_congr_right ⟨?_, ?_⟩
      · rintro ⟨⟩
        exact ⟨hpicks, hbelow⟩
      · rintro ⟨hpicks', -⟩
        have hlpn := Option.some.inj (hpicks'.tracked.symm.trans hpicks.tracked)
        subst hlpn
        have hold := Option.some.inj (hpicks'.mapped.symm.trans hpicks.mapped)
        rw [hold]

/-- The pages that a check moves. -/
theorem mem_moved_iff {dma : ℕ → Bool} {s : HybridFtl h}
    {out : List Move × HybridFtl h}
    (hrun : checkAndPerformMigrations dma s = .ok out) :
    out.1.length ≤ h.hotnessTableSize ∧
      ∀ lpn oldPpa, Move.mk lpn oldPpa ∈ out.1 ↔ Picked dma s lpn oldPpa := by
  obtain ⟨hearly, hmoved, -⟩ | ⟨hdue, hrounds⟩ :=
    checkAndPerformMigrations_cases hrun
  · rw [hmoved]
    refine ⟨Nat.zero_le _, fun lpn oldPpa => ?_⟩
    constructor
    · exact fun hmem => absurd hmem List.not_mem_nil
    · exact fun hpicked => absurd hpicked.due hearly
  · have hstart : RoundInv dma s 0 ([], roundsStart s) :=
      { tracked_eq := rfl
        entry_eq := fun _ _ => rfl
        maptbl_eq := fun _ _ => rfl
        length_le := Nat.zero_le 0
        mem_iff := fun lpn oldPpa => by
          constructor
          · exact fun hmem => absurd hmem List.not_mem_nil
          · rintro ⟨i, hi, -⟩
            exact absurd hi (Nat.not_lt_zero i) }
    have hinv := foldlM_range_of_ok (RoundInv dma s) hrounds hstart
      fun k hk state state' hearlier hround hinv => hinv.step hk hearlier hround
    refine ⟨hinv.length_le, fun lpn oldPpa => ?_⟩
    rw [hinv.mem_iff]
    exact ⟨fun hpicks => ⟨hdue, hpicks⟩, fun hpicked => hpicked.picks⟩

/-- Loop rule for a check: what holds of the records and survives every move
of a page tagged SLC holds after the check. -/
theorem check_tier (inv : List Move → TierView → Prop) {dma : ℕ → Bool}
    {s : HybridFtl h} {out : List Move × HybridFtl h}
    (hrun : checkAndPerformMigrations dma s = .ok out)
    (hstart : inv [] (tierView s))
    (hmove : ∀ moved view lpn oldPpa (newPpa : Ppa), inv moved view →
      view.tag lpn = some .slc → view.maptbl lpn = some oldPpa →
      lpn < h.ttPgs → h.slcChannels ≤ newPpa.ch →
      newPpa.ch < h.slcChannels + h.qlcChannels →
      inv (moved ++ [{ lpn := lpn, old := oldPpa }])
        (view.move lpn newPpa)) :
    inv out.1 (tierView out.2) := by
  obtain ⟨-, hmoved, htier⟩ | ⟨-, hrounds⟩ :=
    checkAndPerformMigrations_cases hrun
  · rw [hmoved, htier]
    exact hstart
  · refine foldlM_range_of_ok (fun _ state => inv state.1 (tierView state.2))
      hrounds hstart fun k hk state state' _ hround hinv => ?_
    obtain ⟨rfl, -⟩ | ⟨lpn, oldPpa, -, hpicks, hmoves⟩ :=
      migrationRound_cases hk hround
    · exact hinv
    · obtain ⟨newPpa, hlow, hhigh, htier⟩ := hmoves.tier
      have htag : (tierView state.2).tag lpn = some .slc := by
        have hcold := hpicks.cold
        rw [shouldMigratePage, decide_eq_true_iff] at hcold
        rw [← hcold.2.1]
        exact tagOf_of_entry hk hpicks.tracked
      rw [htier, hmoves.moved_eq]
      exact hmove _ _ lpn oldPpa newPpa hinv htag hpicks.mapped hmoves.lpn_lt
        hlow hhigh

/-! ## A page write -/

/-- What a page write does: it notes the access, checks, and places the page
in an SLC channel. -/
theorem writePage_cases {dma : ℕ → Bool} {s : HybridFtl h}
    {lpn completedTime : ℕ} {out : PageWritten h}
    (hrun : writePage dma s lpn completedTime = .ok out) :
    ∃ checked, checkAndPerformMigrations dma (updatePageHotness s lpn) =
        .ok checked ∧ out.moved = checked.1 ∧ lpn < h.ttPgs ∧
      ∃ ppa, ppa.ch < h.slcChannels ∧
        tierView out.state = (tierView checked.2).place lpn ppa := by
  obtain ⟨checked, hcheck, hrun⟩ := bind_eq_ok hrun
  obtain ⟨placed, hplace, hrun⟩ := bind_eq_ok hrun
  cases hrun
  exact ⟨checked, hcheck, rfl, placePage_tier hplace⟩

/-- The pages that the check of a page write moves. -/
theorem writePage_moved {dma : ℕ → Bool} {s : HybridFtl h}
    {lpn completedTime : ℕ} {out : PageWritten h}
    (hrun : writePage dma s lpn completedTime = .ok out) :
    out.moved.length ≤ h.hotnessTableSize ∧
      ∀ other oldPpa, Move.mk other oldPpa ∈ out.moved ↔
        Picked dma (updatePageHotness s lpn) other oldPpa := by
  obtain ⟨checked, hcheck, hmoved, -⟩ := writePage_cases hrun
  rw [hmoved]
  exact mem_moved_iff hcheck

theorem updatePageHotness_eq (s : HybridFtl h) (lpn : ℕ) :
    ∃ table ssd, updatePageHotness s lpn =
        { s with hotnessTable := table, ssd := ssd } ∧
      ssd.clock.readings = s.ssd.clock.readings := by
  rw [updatePageHotness]
  dsimp only
  split
  · exact ⟨_, _, rfl, rfl⟩
  · exact ⟨_, _, rfl, rfl⟩

/-- While the clock stands still at the last check, no check is due. -/
theorem not_due {s : HybridFtl h} (hclock : ∀ n, s.ssd.clock.readings n = 0)
    (hlast : s.lastMigrationCheck = 0) (hinterval : 0 < h.migrationInterval) :
    ¬ Due s := by
  have htime : (getWallclock s.ssd).1 = 0 := hclock _
  rw [Due, htime, hlast]
  exact Nat.not_le.mpr hinterval

theorem placePage_within {s : HybridFtl h} {lpn : ℕ} {ppa : Ppa}
    (hpage : getNewPageDA { s with
      lunpointer := lpn % (h.slcChannels * h.slcLunsPerCh) } .user = .ok ppa)
    (hvalid : ValidPpa h.toGeometry ppa) (hlpn : lpn < h.ttPgs)
    (hpg : (s.lunwp (lpn % (h.slcChannels * h.slcLunsPerCh))).pg + 1 <
      h.slcPgsPerBlk) (completedTime : ℕ) :
    ∃ placed, placePage s lpn completedTime = .ok placed := by
  rw [placePage]
  dsimp only
  rw [hpage, ok_bind, setMaptblEnt_of hlpn, ok_bind, setRmapEnt_of lpn hvalid,
    ok_bind]
  generalize advanceNand h.toHybridParams h.toSsdParams s.ssd _ = nand
  obtain ⟨after, hafter, -⟩ := @advance_within h { s with
    lunpointer := lpn % (h.slcChannels * h.slcLunsPerCh)
    ftl := _
    ssd := _ } hpg
  rw [hafter]
  exact ⟨_, rfl⟩

/-- A page write within a block goes through when no check is due. -/
theorem writePage_within {s : HybridFtl h} {lpn : ℕ} {ppa : Ppa}
    (hclock : ∀ n, s.ssd.clock.readings n = 0)
    (hlast : s.lastMigrationCheck = 0) (hinterval : 0 < h.migrationInterval)
    (hpage : getNewPageDA { s with
      lunpointer := lpn % (h.slcChannels * h.slcLunsPerCh) } .user = .ok ppa)
    (hvalid : ValidPpa h.toGeometry ppa) (hlpn : lpn < h.ttPgs)
    (hpg : (s.lunwp (lpn % (h.slcChannels * h.slcLunsPerCh))).pg + 1 <
      h.slcPgsPerBlk) (dma : ℕ → Bool) (completedTime : ℕ) :
    ¬ Due (updatePageHotness s lpn) ∧
      ∃ out, writePage dma s lpn completedTime = .ok out := by
  obtain ⟨table, ssd, heq, hreadings⟩ := updatePageHotness_eq s lpn
  have hidle : ¬ Due (updatePageHotness s lpn) := by
    rw [heq]
    exact not_due (fun n => (congrFun hreadings n).trans (hclock n)) hlast
      hinterval
  refine ⟨hidle, ?_⟩
  rw [writePage, checkAndPerformMigrations]
  dsimp only
  rw [if_pos (Nat.not_le.mp hidle), ok_bind, heq]
  obtain ⟨placed, hplaced⟩ := @placePage_within h { s with
    hotnessTable := table, ssd := (getWallclock ssd).2 } lpn ppa hpage hvalid
    hlpn hpg completedTime
  rw [hplaced]
  exact ⟨_, rfl⟩

end NvmeVirt.Tiers
