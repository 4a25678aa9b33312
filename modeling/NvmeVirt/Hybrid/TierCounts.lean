import NvmeVirt.Hybrid.TierTags

/-!
# The numbers of used pages

Only a migration changes `used_slc_pages` and `used_qlc_pages`: it takes the
page it moves off the one and adds it to the other.  A page write changes
neither, so a page that enters SLC, or leaves QLC by being written again, is
never counted.
-/

namespace NvmeVirt.TierCounts

open NvmeVirt.Counting
open NvmeVirt.HybridConfig
open NvmeVirt.HybridMapping
open NvmeVirt.HybridStartup
open NvmeVirt.Kernel
open NvmeVirt.Layout
open NvmeVirt.Mapping (LineMgmt WritePointer)
open NvmeVirt.Migration
open NvmeVirt.TierTags
open NvmeVirt.Tiers
open NvmeVirt.Timing

variable {h : HybridGeometry}

/-- The page is mapped to an SLC channel. -/
def InSlc (h : HybridParams) : Option Ppa → Prop
  | none => False
  | some ppa => ppa.ch < h.slcChannels

/-- The page is mapped to a QLC channel. -/
def InQlc (h : HybridParams) : Option Ppa → Prop
  | none => False
  | some ppa =>
      h.slcChannels ≤ ppa.ch ∧ ppa.ch < h.slcChannels + h.qlcChannels

instance (h : HybridParams) : DecidablePred (InSlc h)
  | none => inferInstanceAs (Decidable False)
  | some _ => inferInstanceAs (Decidable (_ < _))

instance (h : HybridParams) : DecidablePred (InQlc h)
  | none => inferInstanceAs (Decidable False)
  | some _ => inferInstanceAs (Decidable (_ ∧ _))

/-- How many logical pages are mapped to SLC channels. -/
def slcCount (h : HybridGeometry) (maptbl : ℕ → Option Ppa) : ℕ :=
  countOn (Finset.range h.ttPgs) (InSlc h.toHybridParams) maptbl

/-- How many logical pages are mapped to QLC channels. -/
def qlcCount (h : HybridGeometry) (maptbl : ℕ → Option Ppa) : ℕ :=
  countOn (Finset.range h.ttPgs) (InQlc h.toHybridParams) maptbl

theorem not_inSlc_none (h : HybridParams) : ¬ InSlc h none := id

theorem not_inQlc_none (h : HybridParams) : ¬ InQlc h none := id

theorem slcCount_unmapped (h : HybridGeometry) :
    slcCount h (fun _ => none) = 0 :=
  countOn_eq_zero fun _ _ => not_inSlc_none _

theorem qlcCount_unmapped (h : HybridGeometry) :
    qlcCount h (fun _ => none) = 0 :=
  countOn_eq_zero fun _ _ => not_inQlc_none _

/-- The driver's numbers are those of the mapped pages. -/
structure Counted (s : HybridFtl h) : Prop where
  slc_eq : s.usedSlcPages = slcCount h s.ftl.maptbl
  qlc_eq : s.usedQlcPages = qlcCount h s.ftl.maptbl

theorem slcCount_lt (h : HybridGeometry) (maptbl : ℕ → Option Ppa) :
    slcCount h maptbl < 2 ^ 63 := by
  have hle := countOn_le_card (Finset.range h.ttPgs) (InSlc h.toHybridParams)
    maptbl
  have hpages := ttPgs_le h.toGeometry
  rw [Finset.card_range] at hle
  rw [slcCount]
  omega

theorem qlcCount_lt (h : HybridGeometry) (maptbl : ℕ → Option Ppa) :
    qlcCount h maptbl < 2 ^ 63 := by
  have hle := countOn_le_card (Finset.range h.ttPgs) (InQlc h.toHybridParams)
    maptbl
  have hpages := ttPgs_le h.toGeometry
  rw [Finset.card_range] at hle
  rw [qlcCount]
  omega

/-! ## Drift -/

/-- `used_slc_pages` is `k` less than it should be, in the arithmetic of 64
bits, and without drift both numbers are right. -/
structure Drift (h : HybridGeometry) (k : ℕ) (view : TierView) : Prop where
  slc_add : (view.usedSlcPages + k) % 2 ^ 64 = slcCount h view.maptbl
  slc_lt : view.usedSlcPages < 2 ^ 64
  qlc_eq : k = 0 → view.usedQlcPages = qlcCount h view.maptbl

theorem Drift.of_counted {s : HybridFtl h} (hcounted : Counted s) :
    Drift h 0 (tierView s) := by
  have hlt := slcCount_lt h s.ftl.maptbl
  have hslc : (tierView s).usedSlcPages = slcCount h s.ftl.maptbl :=
    hcounted.slc_eq
  refine ⟨?_, ?_, fun _ => hcounted.qlc_eq⟩
  · rw [Nat.add_zero, hslc]
    exact Nat.mod_eq_of_lt (by omega)
  · omega

theorem Drift.counted_iff {k : ℕ} {s : HybridFtl h}
    (hdrift : Drift h k (tierView s)) (hk : k < 2 ^ 64) :
    Counted s ↔ k = 0 := by
  have hadd := hdrift.slc_add
  have hlt := hdrift.slc_lt
  constructor
  · intro hcounted
    have hslc : (tierView s).usedSlcPages = slcCount h (tierView s).maptbl :=
      hcounted.slc_eq
    omega
  · intro hzero
    refine ⟨?_, hdrift.qlc_eq hzero⟩
    rw [hzero, Nat.add_zero, Nat.mod_eq_of_lt hlt] at hadd
    exact hadd

/-- A page that is placed where it was not counted adds to the drift. -/
def drift (h : HybridParams) (entry : Option Ppa) : ℕ :=
  if InSlc h entry then 0 else 1

theorem not_inQlc_of_inSlc {entry : Option Ppa}
    (hslc : InSlc h.toHybridParams entry) : ¬ InQlc h.toHybridParams entry := by
  cases entry with
  | none => exact hslc.elim
  | some ppa => exact fun hqlc => Nat.not_le.mpr hslc hqlc.1

theorem Drift.move {k lpn : ℕ} {view : TierView} (hdrift : Drift h k view)
    {oldPpa newPpa : Ppa} (hmapped : view.maptbl lpn = some oldPpa)
    (hlpn : lpn < h.ttPgs) (hlow : h.slcChannels ≤ newPpa.ch)
    (hhigh : newPpa.ch < h.slcChannels + h.qlcChannels) :
    Drift h (k + drift h.toHybridParams (some oldPpa))
      (view.move lpn newPpa) := by
  have hmem := Finset.mem_range.mpr hlpn
  have hnewSlc : ¬ InSlc h.toHybridParams (some newPpa) :=
    Nat.not_lt.mpr hlow
  have hnewQlc : InQlc h.toHybridParams (some newPpa) := ⟨hlow, hhigh⟩
  have hslc := @countOn_update _ _ _ _ (InSlc h.toHybridParams) _
    view.maptbl _ (some newPpa) hmem
  have hqlc := @countOn_update _ _ _ _ (InQlc h.toHybridParams) _
    view.maptbl _ (some newPpa) hmem
  rw [hmapped, if_neg hnewSlc] at hslc
  rw [hmapped, if_pos hnewQlc] at hqlc
  have hadd := hdrift.slc_add
  have hlt := hdrift.slc_lt
  have hbound := slcCount_lt h view.maptbl
  have hbound' := qlcCount_lt h view.maptbl
  refine ⟨?_, ?_, ?_⟩
  · dsimp only [TierView.move, drift]
    rw [slcCount] at hadd hbound ⊢
    unfold sub64 u64
    split_ifs at hslc ⊢ <;> omega
  · exact Nat.mod_lt _ (by decide)
  · intro hzero
    dsimp only [TierView.move]
    have hold : InSlc h.toHybridParams (some oldPpa) := by
      by_contra hold
      rw [drift, if_neg hold] at hzero
      exact absurd hzero (Nat.succ_ne_zero k)
    rw [if_neg (not_inQlc_of_inSlc hold)] at hqlc
    rw [hdrift.qlc_eq (Nat.eq_zero_of_add_eq_zero hzero).1, u64_of_lt (by omega)]
    exact hqlc.symm

theorem Drift.place {k lpn : ℕ} {view : TierView} (hdrift : Drift h k view)
    (hlpn : lpn < h.ttPgs) {ppa : Ppa} (hppa : ppa.ch < h.slcChannels) :
    Drift h (k + drift h.toHybridParams (view.maptbl lpn))
      (view.place lpn ppa) := by
  have hmem := Finset.mem_range.mpr hlpn
  have hnewSlc : InSlc h.toHybridParams (some ppa) := hppa
  have hslc := @countOn_update _ _ _ _ (InSlc h.toHybridParams) _
    view.maptbl _ (some ppa) hmem
  have hqlc := @countOn_update _ _ _ _ (InQlc h.toHybridParams) _
    view.maptbl _ (some ppa) hmem
  rw [if_pos hnewSlc] at hslc
  rw [if_neg (not_inQlc_of_inSlc hnewSlc)] at hqlc
  have hadd := hdrift.slc_add
  have hbound := slcCount_lt h (view.place lpn ppa).maptbl
  refine ⟨?_, hdrift.slc_lt, ?_⟩
  · dsimp only [TierView.place, drift] at hbound ⊢
    rw [slcCount] at hadd hbound ⊢
    split_ifs at hslc ⊢ <;> omega
  · intro hzero
    dsimp only [TierView.place]
    have hold : InSlc h.toHybridParams (view.maptbl lpn) := by
      by_contra hold
      rw [drift, if_neg hold] at hzero
      exact absurd hzero (Nat.succ_ne_zero k)
    rw [if_neg (not_inQlc_of_inSlc hold)] at hqlc
    rw [hdrift.qlc_eq (Nat.eq_zero_of_add_eq_zero hzero).1]
    exact hqlc.symm

/-! ## The steps -/

/-- The moves of a check drift by the pages that were not in SLC. -/
structure CheckInv (s : HybridFtl h) (lpn : ℕ) (moved : List Move)
    (view : TierView) : Prop where
  drift : Drift h
    (moved.countP fun move => ¬ move.old.ch < h.slcChannels) view
  inSlc_iff : InSlc h.toHybridParams (view.maptbl lpn) ↔
    InSlc h.toHybridParams (s.ftl.maptbl lpn) ∧
      ∀ oldPpa, Move.mk lpn oldPpa ∉ moved

theorem drift_some (ppa : Ppa) :
    drift h.toHybridParams (some ppa) =
      if decide (¬ ppa.ch < h.slcChannels) = true then 1 else 0 := by
  by_cases hppa : ppa.ch < h.slcChannels
  · rw [if_neg (by simpa using hppa)]
    exact if_pos hppa
  · rw [if_pos (by simpa using hppa)]
    exact if_neg hppa

theorem CheckInv.move {s : HybridFtl h} {lpn other : ℕ} {moved : List Move}
    {view : TierView} (hinv : CheckInv s lpn moved view) {oldPpa newPpa : Ppa}
    (hmapped : view.maptbl other = some oldPpa) (hlpn : other < h.ttPgs)
    (hlow : h.slcChannels ≤ newPpa.ch)
    (hhigh : newPpa.ch < h.slcChannels + h.qlcChannels) :
    CheckInv s lpn (moved ++ [{ lpn := other, old := oldPpa }])
      (view.move other newPpa) := by
  refine ⟨?_, ?_⟩
  · rw [List.countP_append, List.countP_singleton, ← drift_some]
    exact hinv.drift.move hmapped hlpn hlow hhigh
  · dsimp only [TierView.move]
    by_cases heq : lpn = other
    · rw [heq, Function.update_self]
      refine iff_of_false (Nat.not_lt.mpr hlow) fun hboth => ?_
      exact hboth.2 oldPpa (List.mem_append_right _ List.mem_cons_self)
    · rw [Function.update_of_ne heq, hinv.inSlc_iff]
      refine and_congr_right fun _ => forall_congr' fun ppa => ?_
      rw [List.mem_append, List.mem_singleton, not_or]
      refine ⟨fun hmem => ⟨hmem, fun hlast => ?_⟩, And.left⟩
      cases hlast
      exact heq rfl

theorem migratePage_counted {dma : ℕ → Bool} {s : HybridFtl h} {lpn : ℕ}
    {out : Migrated h} (hcounted : Counted s)
    (hrun : migratePage dma s lpn = .ok out) :
    Counted out.state ↔ ((getHotnessEntry s.hotnessTable lpn).1 ≠ none →
      ∀ ppa, s.ftl.maptbl lpn = some ppa → ppa.ch < h.slcChannels) := by
  obtain ⟨-, -, hstate, hstays⟩ | ⟨oldPpa, idx, hmoves⟩ :=
    migratePage_cases hrun
  · rw [hstate]
    refine iff_of_true ⟨hcounted.slc_eq, hcounted.qlc_eq⟩ ?_
    intro hfound ppa hmapped
    rw [hstays.resolve_left hfound] at hmapped
    cases hmapped
  · obtain ⟨newPpa, hlow, hhigh, htier⟩ := hmoves.tier
    have hdrift := (Drift.of_counted hcounted).move hmoves.mapped
      hmoves.lpn_lt hlow hhigh
    rw [← htier, Nat.zero_add] at hdrift
    have hle : drift h.toHybridParams (some oldPpa) < 2 ^ 64 := by
      rw [drift]
      split_ifs <;> decide
    rw [hdrift.counted_iff hle, hmoves.found, hmoves.mapped]
    constructor
    · intro hzero _ ppa hppa
      cases hppa
      by_contra hnot
      exact absurd ((if_neg hnot).symm.trans hzero) one_ne_zero
    · intro hslc
      exact if_pos (hslc (Option.some_ne_none idx) oldPpa rfl)

theorem writePage_counted {dma : ℕ → Bool} {s : HybridFtl h}
    {lpn completedTime : ℕ} {out : PageWritten h} (hcounted : Counted s)
    (hrun : writePage dma s lpn completedTime = .ok out) :
    Counted out.state ↔
      (InSlc h.toHybridParams (s.ftl.maptbl lpn) ∧
        ∀ oldPpa, Move.mk lpn oldPpa ∉ out.moved) ∧
      ∀ move ∈ out.moved, move.old.ch < h.slcChannels := by
  obtain ⟨checked, hcheck, hmoved, hlpn, ppa, hppa, htier⟩ :=
    writePage_cases hrun
  have haccess : Drift h 0 (tierView (updatePageHotness s lpn)) ∧
      (updatePageHotness s lpn).ftl = s.ftl := by
    obtain ⟨table, ssd, heq, -⟩ := updatePageHotness_eq s lpn
    have hdrift := Drift.of_counted hcounted
    rw [heq]
    exact ⟨⟨hdrift.slc_add, hdrift.slc_lt, hdrift.qlc_eq⟩, rfl⟩
  have hstart : CheckInv s lpn [] (tierView (updatePageHotness s lpn)) := by
    refine ⟨haccess.1, ?_⟩
    dsimp only [tierView]
    rw [haccess.2]
    exact (and_iff_left fun _ => List.not_mem_nil).symm
  have hinv := check_tier (CheckInv s lpn) hcheck hstart
    fun _ _ _ _ _ hinv _ hmapped hlt hlow hhigh =>
      hinv.move hmapped hlt hlow hhigh
  have hdrift := hinv.drift.place hlpn hppa
  rw [← htier] at hdrift
  have hlength : (checked.1.countP fun move =>
      ¬ move.old.ch < h.slcChannels) ≤ h.hotnessTableSize :=
    List.countP_le_length.trans (mem_moved_iff hcheck).1
  have hsize := h.hotnessTableSize_lt
  have hlast : drift h.toHybridParams ((tierView checked.2).maptbl lpn) ≤ 1 := by
    rw [drift]
    split_ifs <;> decide
  rw [hdrift.counted_iff (by omega), Nat.add_eq_zero_iff, and_comm, hmoved,
    ← hinv.inSlc_iff, List.countP_eq_zero]
  refine and_congr ?_ (forall₂_congr fun move _ => ?_)
  · by_cases hslc : InSlc h.toHybridParams ((tierView checked.2).maptbl lpn)
    · rw [drift, if_pos hslc]
      exact iff_of_true rfl hslc
    · rw [drift, if_neg hslc]
      exact iff_of_false one_ne_zero hslc
  · rw [decide_eq_true_iff, not_not]

theorem freshHybrid_counted (ssd : Ssd) (lunlm : ℕ → LineMgmt)
    (lunwp : ℕ → WritePointer) : Counted (freshHybrid h ssd lunlm lunwp) where
  slc_eq := (slcCount_unmapped h).symm
  qlc_eq := (qlcCount_unmapped h).symm

/-- The numbers are right after the start.  A migration keeps them right
exactly when the page it moves was in SLC.  A page write does so exactly when
its page was in SLC and is not migrated by the check, and every page that the
check migrates was in SLC. -/
theorem tiersCounted_iff :
    (∀ ssd lunlm lunwp (s : HybridFtl h),
        convInitFtl h ssd lunlm lunwp = .ok s → Counted s) ∧
      ∀ s : HybridFtl h, Counted s → ∀ dma lpn,
        (∀ out, migratePage dma s lpn = .ok out →
          (Counted out.state ↔
            ((getHotnessEntry s.hotnessTable lpn).1 ≠ none →
              ∀ ppa, s.ftl.maptbl lpn = some ppa →
                ppa.ch < h.slcChannels))) ∧
        ∀ completedTime out, writePage dma s lpn completedTime = .ok out →
          (Counted out.state ↔
            (InSlc h.toHybridParams (s.ftl.maptbl lpn) ∧
              ∀ oldPpa, ¬ Picked dma (updatePageHotness s lpn) lpn oldPpa) ∧
            ∀ other oldPpa,
              Picked dma (updatePageHotness s lpn) other oldPpa →
                oldPpa.ch < h.slcChannels) := by
  refine ⟨fun ssd lunlm lunwp s hinit => ?_, fun s hcounted dma lpn =>
    ⟨fun out hrun => migratePage_counted hcounted hrun,
      fun completedTime out hrun => ?_⟩⟩
  · rw [(of_convInitFtl hinit).2]
    exact freshHybrid_counted ssd lunlm lunwp
  · have hmem := (writePage_moved hrun).2
    rw [writePage_counted hcounted hrun]
    refine and_congr (and_congr_right fun _ => forall_congr' fun oldPpa => ?_) ?_
    · rw [hmem]
    · constructor
      · intro hall other oldPpa hpicked
        exact hall { lpn := other, old := oldPpa } ((hmem _ _).mpr hpicked)
      · intro hall move hmove
        exact hall move.lpn move.old ((hmem _ _).mp hmove)

/-! ## A page that is counted, and a page that is not -/

/-- The page 0 is mapped to the first page of the device, and counted. -/
def onePage : HybridFtl fullDevice :=
  { fullStart with
    ftl := { fullStart.ftl with
      maptbl := Function.update (fun _ => none) 0
        (some { ch := 0, lun := 0, pl := 0, blk := 0, pg := 0 }) }
    usedSlcPages := 1 }

/-- One page, in SLC. -/
theorem count_one {lpn : ℕ} (hlpn : lpn < h.ttPgs) {ppa : Ppa}
    (hppa : ppa.ch < h.slcChannels) :
    slcCount h (Function.update (fun _ => none) lpn (some ppa)) = 1 ∧
      qlcCount h (Function.update (fun _ => none) lpn (some ppa)) = 0 := by
  have hmem := Finset.mem_range.mpr hlpn
  have hin : InSlc h.toHybridParams (some ppa) := hppa
  have hslc := @countOn_update _ _ _ _ (InSlc h.toHybridParams) _
    (fun _ => none) _ (some ppa) hmem
  have hqlc := @countOn_update _ _ _ _ (InQlc h.toHybridParams) _
    (fun _ => none) _ (some ppa) hmem
  rw [if_neg (not_inSlc_none _), if_pos hin] at hslc
  rw [if_neg (not_inQlc_none _), if_neg (not_inQlc_of_inSlc hin)] at hqlc
  exact ⟨hslc.trans (congrArg (· + 1) (slcCount_unmapped h)),
    hqlc.trans (qlcCount_unmapped h)⟩

theorem onePage_counted : Counted onePage := by
  have hcount := @count_one fullDevice 0 (by decide)
    { ch := 0, lun := 0, pl := 0, blk := 0, pg := 0 } (by decide)
  exact ⟨hcount.1.symm, hcount.2.symm⟩

theorem tiersCounted_iff_fullDevice :
    ∃ out, Counted onePage ∧ writePage (fun _ => true) onePage 0 0 = .ok out ∧
      Counted out.state := by
  obtain ⟨hidle, out, hrun⟩ := zeroWp_write (s := onePage) rfl rfl rfl
    fun _ => true
  have hcounted := (tiersCounted_iff (h := fullDevice)).2 onePage onePage_counted
    (fun _ => true) 0
  refine ⟨out, onePage_counted, hrun, (hcounted.2 0 out hrun).mpr
    ⟨⟨?_, ?_⟩, ?_⟩⟩
  · exact (by decide : 0 < fullDevice.slcChannels)
  · exact fun _ hpicked => hidle hpicked.due
  · exact fun _ _ hpicked => absurd hpicked.due hidle

/-- The first page write of a fresh device is not counted. -/
theorem firstWrite_uncounted :
    ∃ out, convInitFtl fullDevice (idleSsd ⟨8191, lastBlk_lt⟩
          ⟨1023, lastPg_lt⟩) (fun _ => freshLines fullDevice.toGeometry)
          (fun _ => zeroWp) = .ok fullStart ∧
      Counted fullStart ∧ writePage (fun _ => true) fullStart 0 0 = .ok out ∧
      ¬ Counted out.state := by
  obtain ⟨-, out, hrun⟩ := zeroWp_write (s := fullStart) rfl rfl rfl
    fun _ => true
  have hcounted : Counted fullStart := freshHybrid_counted _ _ _
  refine ⟨out, fullDevice_init, hcounted, hrun, fun hafter => ?_⟩
  exact ((writePage_counted hcounted hrun).mp hafter).1.1

end NvmeVirt.TierCounts
