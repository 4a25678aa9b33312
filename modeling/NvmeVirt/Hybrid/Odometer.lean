import NvmeVirt.Hybrid.Startup

/-!
# The migration pointer

`advance_write_pointer_QLC` is an odometer over page, block, plane, lun and
channel.  It checks a coordinate after raising it, and only then compares it
with its bound, so a coordinate that reaches the bound fails the check before
it can be carried.  From the first block on, the pointer therefore takes every
round but the one that would leave the first plane.
-/

namespace NvmeVirt.Odometer

open NvmeVirt.HybridConfig
open NvmeVirt.HybridMapping
open NvmeVirt.HybridStartup
open NvmeVirt.Kernel
open NvmeVirt.Layout
open NvmeVirt.Mapping (WritePointer getWp setWp)
open NvmeVirt.MixedRadix
open NvmeVirt.Timing
open NvmeVirt.Transition

variable {h : HybridGeometry}

/-- `get_new_page(GC_IO)` and `advance_write_pointer_QLC(GC_IO)`, `rounds`
times, with the pages that were taken. -/
def qlcRounds : ℕ → HybridFtl h → Except Fault (List Ppa × HybridFtl h)
  | 0, s => .ok ([], s)
  | rounds + 1, s => do
      let ppa ← getNewPage h s.ftl .gc
      let s ← advanceWritePointerQLC s .gc
      let rest ← qlcRounds rounds s
      return (ppa :: rest.1, rest.2)

/-- The rounds do not fault, and take distinct pages of QLC channels. -/
def TakesQlcPages (rounds : ℕ) (s : HybridFtl h) : Prop :=
  ∃ pages s', qlcRounds rounds s = .ok (pages, s') ∧ pages.Nodup ∧
    ∀ p ∈ pages, h.slcChannels ≤ p.ch ∧ p.ch < h.slcChannels + h.qlcChannels

/-- A pointer at the first page of the first die. -/
def AtOrigin (wpp : WritePointer) : Prop :=
  wpp.ch = 0 ∧ wpp.lun = 0 ∧ wpp.blk = 0 ∧ wpp.pg = 0

instance (wpp : WritePointer) : Decidable (AtOrigin wpp) :=
  inferInstanceAs (Decidable (_ ∧ _))

/-- The pointer after `k` rounds within the first plane. -/
def afterRounds (h : HybridGeometry) (wpp : WritePointer) (k : ℕ) :
    WritePointer :=
  { wpp with
    ch := 0, lun := 0, blk := k / h.qlcPgsPerBlk, pg := k % h.qlcPgsPerBlk }

/-- The state with the garbage collection pointer `k` rounds on. -/
def stateAfter (s : HybridFtl h) (k : ℕ) : HybridFtl h :=
  { s with ftl := { s.ftl with gcWp := afterRounds h s.ftl.gcWp k } }

/-- The page of round `k`. -/
def pageOfRound (h : HybridGeometry) (wpp : WritePointer) (k : ℕ) : Ppa :=
  packPpa h.slcChannels 0 wpp.pl (k / h.qlcPgsPerBlk) (k % h.qlcPgsPerBlk)

theorem qlcPgsPerBlk_pos (h : HybridGeometry) : 0 < h.qlcPgsPerBlk := by
  rw [h.qlcPgsPerBlk_eq]
  exact Nat.mul_pos h.qlcPgsPerOneshotpg_pos h.qlcOneshotpgsPerBlk_pos

theorem afterRounds_zero {wpp : WritePointer} (horigin : AtOrigin wpp) :
    afterRounds h wpp 0 = wpp := by
  obtain ⟨curline, ch, lun, pg, blk, pl⟩ := wpp
  simp only [AtOrigin] at horigin
  obtain ⟨rfl, rfl, rfl, rfl⟩ := horigin
  rw [afterRounds, Nat.zero_div, Nat.zero_mod]

theorem stateAfter_zero {s : HybridFtl h} (horigin : AtOrigin s.ftl.gcWp) :
    stateAfter s 0 = s := by
  rw [stateAfter, afterRounds_zero horigin]

/-! ## One round -/

theorem getNewPage_stateAfter (s : HybridFtl h) (k : ℕ) :
    getNewPage h (stateAfter s k).ftl .gc =
      .ok (pageOfRound h s.ftl.gcWp k) := by
  rw [getNewPage_eq]
  simp only [getWp, stateAfter, afterRounds, Nat.zero_mod, Nat.add_zero]
  rfl

/-- A round within a block. -/
theorem advance_within {wpp : WritePointer} {s : HybridFtl h}
    (hwpp : s.ftl.gcWp = wpp) (hpg : wpp.pg + 1 < h.qlcPgsPerBlk) :
    advanceWritePointerQLC s .gc =
      .ok { s with ftl := { s.ftl with gcWp :=
        { wpp with pg := wpp.pg + 1 } } } := by
  rw [advanceWritePointerQLC]
  simp only [getWp, setWp, hwpp]
  rw [nvmevAssert_of (by omega), ok_bind]
  by_cases honeshot : (wpp.pg + 1) % h.qlcPgsPerOneshotpg = 0
  · rw [if_neg (not_not.mpr honeshot), if_pos (by omega)]
    rfl
  · rw [if_pos honeshot]
    rfl

/-- A round that completes a block. -/
theorem advance_block {wpp : WritePointer} {s : HybridFtl h}
    (hwpp : s.ftl.gcWp = wpp) (hpg : wpp.pg + 1 = h.qlcPgsPerBlk) :
    advanceWritePointerQLC s .gc =
      if wpp.blk + 1 < h.qlcBlksPerPl then
        .ok { s with ftl := { s.ftl with gcWp :=
          { wpp with blk := wpp.blk + 1, pg := 0 } } }
      else .error .assertion := by
  have hmod : (wpp.pg + 1) % h.qlcPgsPerOneshotpg = 0 := by
    rw [hpg, h.qlcPgsPerBlk_eq, Nat.mul_mod_right]
  rw [advanceWritePointerQLC]
  simp only [getWp, setWp, hwpp]
  rw [nvmevAssert_of (by omega), ok_bind, if_neg (not_not.mpr hmod),
    if_neg (not_not.mpr hpg)]
  by_cases hblk : wpp.blk + 1 < h.qlcBlksPerPl
  · rw [if_pos hblk, nvmevAssert_of hblk, ok_bind, if_pos (by omega)]
    rfl
  · rw [if_neg hblk, nvmevAssert_not hblk, error_bind]

/-- Position `k + 1` in terms of position `k`. -/
theorem div_mod_succ {pgs k : ℕ} (hpgs : 0 < pgs) :
    (k % pgs + 1 < pgs ∧ (k + 1) / pgs = k / pgs ∧
        (k + 1) % pgs = k % pgs + 1) ∨
      (k % pgs + 1 = pgs ∧ (k + 1) / pgs = k / pgs + 1 ∧
        (k + 1) % pgs = 0) := by
  have hlt := Nat.mod_lt k hpgs
  have hsplit : k / pgs * pgs + k % pgs = k := Nat.div_add_mod' k pgs
  obtain hwithin | hlast := Nat.lt_or_ge (k % pgs + 1) pgs
  · left
    have hsucc : k + 1 = k / pgs * pgs + (k % pgs + 1) := by omega
    refine ⟨hwithin, ?_, ?_⟩
    · rw [hsucc, digit_div hwithin]
    · rw [hsucc, digit_mod hwithin]
  · right
    have hsucc : k + 1 = (k / pgs + 1) * pgs + 0 := by
      rw [Nat.succ_mul]
      omega
    refine ⟨by omega, ?_, ?_⟩
    · rw [hsucc, digit_div hpgs]
    · rw [hsucc, digit_mod hpgs]

theorem advance_stateAfter (s : HybridFtl h) {k : ℕ}
    (hk : k < h.qlcBlksPerPl * h.qlcPgsPerBlk) :
    advanceWritePointerQLC (stateAfter s k) .gc =
      if k + 1 < h.qlcBlksPerPl * h.qlcPgsPerBlk then
        .ok (stateAfter s (k + 1))
      else .error .assertion := by
  have hpos := qlcPgsPerBlk_pos h
  have hblk : k / h.qlcPgsPerBlk < h.qlcBlksPerPl :=
    Nat.div_lt_of_lt_mul (by rwa [Nat.mul_comm])
  have hroom : k + 1 < h.qlcBlksPerPl * h.qlcPgsPerBlk ↔
      (k + 1) / h.qlcPgsPerBlk < h.qlcBlksPerPl := by
    rw [Nat.div_lt_iff_lt_mul hpos]
  obtain ⟨hpg, hdiv, hmod⟩ | ⟨hpg, hdiv, hmod⟩ := @div_mod_succ _ k hpos
  · rw [if_pos (hroom.mpr (hdiv ▸ hblk)), advance_within rfl hpg,
      stateAfter.eq_def s (k + 1), afterRounds, hdiv, hmod]
    rfl
  · rw [advance_block rfl hpg]
    by_cases hlast : k / h.qlcPgsPerBlk + 1 < h.qlcBlksPerPl
    · rw [if_pos (hroom.mpr (hdiv ▸ hlast)), stateAfter.eq_def s (k + 1),
        afterRounds, hdiv, hmod]
      exact if_pos hlast
    · rw [if_neg (fun hlt => hlast (hdiv ▸ hroom.mp hlt))]
      exact if_neg hlast

/-! ## Runs -/

/-- Rounds `k` to `k + rounds` all go through when they stay in the plane. -/
theorem qlcRounds_stateAfter (s : HybridFtl h) (rounds : ℕ) {k : ℕ}
    (hroom : k + rounds < h.qlcBlksPerPl * h.qlcPgsPerBlk) :
    qlcRounds rounds (stateAfter s k) =
      .ok ((List.range' k rounds).map (pageOfRound h s.ftl.gcWp),
        stateAfter s (k + rounds)) := by
  induction rounds generalizing k with
  | zero => rfl
  | succ rounds ih =>
      rw [qlcRounds, getNewPage_stateAfter, ok_bind,
        advance_stateAfter s (by omega), if_pos (by omega), ok_bind,
        ih (by omega), ok_bind, List.range'_succ, List.map_cons,
        Nat.add_right_comm, ← Nat.add_assoc]
      rfl

/-- The rounds do not get past the last page of the plane. -/
theorem qlcRounds_last (s : HybridFtl h) (rounds : ℕ) {k : ℕ}
    (hk : k < h.qlcBlksPerPl * h.qlcPgsPerBlk)
    (hroom : h.qlcBlksPerPl * h.qlcPgsPerBlk ≤ k + rounds) :
    qlcRounds rounds (stateAfter s k) = .error .assertion := by
  induction rounds generalizing k with
  | zero => omega
  | succ rounds ih =>
      rw [qlcRounds, getNewPage_stateAfter, ok_bind, advance_stateAfter s hk]
      split_ifs with hnext
      · rw [ok_bind, ih hnext (by omega), error_bind]
      · rw [error_bind]

theorem pageOfRound_inj {wpp : WritePointer} {k l : ℕ}
    (hk : k < h.qlcBlksPerPl * h.qlcPgsPerBlk)
    (hl : l < h.qlcBlksPerPl * h.qlcPgsPerBlk)
    (heq : pageOfRound h wpp k = pageOfRound h wpp l) : k = l := by
  have hpos := qlcPgsPerBlk_pos h
  have hblk : ∀ m, m < h.qlcBlksPerPl * h.qlcPgsPerBlk →
      m / h.qlcPgsPerBlk < 2 ^ blkBits := fun m hm =>
    (Nat.div_lt_of_lt_mul (by rwa [Nat.mul_comm])).trans_le h.qlcBlksPerPl_le
  have hpg : ∀ m, m % h.qlcPgsPerBlk < 2 ^ pageBits := fun m =>
    (Nat.mod_lt m hpos).trans_le h.qlcPgsPerBlk_le
  have hdiv : k / h.qlcPgsPerBlk = l / h.qlcPgsPerBlk := by
    have hfield := congrArg (fun p : Ppa => p.blk) heq
    simp only [pageOfRound, packPpa] at hfield
    rwa [Nat.mod_eq_of_lt (hblk k hk), Nat.mod_eq_of_lt (hblk l hl)] at hfield
  have hmod : k % h.qlcPgsPerBlk = l % h.qlcPgsPerBlk := by
    have hfield := congrArg Ppa.pg heq
    simp only [pageOfRound, packPpa] at hfield
    rwa [Nat.mod_eq_of_lt (hpg k), Nat.mod_eq_of_lt (hpg l)] at hfield
  rw [← Nat.div_add_mod k h.qlcPgsPerBlk, hdiv, hmod, Nat.div_add_mod]

/-- Exactly the rounds before the last page of the plane go through. -/
theorem takesQlcPages_iff {s : HybridFtl h} (horigin : AtOrigin s.ftl.gcWp)
    (rounds : ℕ) :
    TakesQlcPages rounds s ↔
      rounds < h.qlcBlksPerPl * h.qlcPgsPerBlk := by
  have hpos : 0 < h.qlcBlksPerPl * h.qlcPgsPerBlk :=
    Nat.mul_pos h.qlcBlksPerPl_pos (qlcPgsPerBlk_pos h)
  have hstart := stateAfter_zero horigin
  constructor
  · rintro ⟨pages, s', hrun, -⟩
    by_contra hlong
    rw [← hstart, qlcRounds_last s rounds hpos (by omega)] at hrun
    cases hrun
  · intro hroom
    have hrun := qlcRounds_stateAfter s rounds
      (show 0 + rounds < h.qlcBlksPerPl * h.qlcPgsPerBlk by omega)
    rw [hstart] at hrun
    refine ⟨_, _, hrun, ?_, ?_⟩
    · rw [List.nodup_map_iff_inj_on List.nodup_range']
      intro k hk l hl heq
      rw [List.mem_range'_1] at hk hl
      exact pageOfRound_inj (by omega) (by omega) heq
    · intro p hp
      obtain ⟨k, -, rfl⟩ := List.mem_map.mp hp
      have hch : (pageOfRound h s.ftl.gcWp k).ch = h.slcChannels :=
        Nat.mod_eq_of_lt (lt_of_lt_of_le
          (Nat.lt_add_of_pos_right h.qlcChannels_pos) h.channels_le)
      rw [hch]
      exact ⟨le_rfl, Nat.lt_add_of_pos_right h.qlcChannels_pos⟩

/-- The number of pages of the QLC channels. -/
def qlcPages (h : HybridGeometry) : ℕ :=
  h.qlcChannels * h.qlcLunsPerCh * h.plsPerLun * h.qlcBlksPerPl *
    h.qlcPgsPerBlk

/-- On no device does the pointer come around once. -/
theorem not_takesQlcPages {s : HybridFtl h} (horigin : AtOrigin s.ftl.gcWp) :
    ¬ TakesQlcPages (qlcPages h) s := by
  rw [takesQlcPages_iff horigin, Nat.not_lt, qlcPages, Nat.mul_assoc]
  apply Nat.le_mul_of_pos_left
  exact Nat.mul_pos (Nat.mul_pos h.qlcChannels_pos h.qlcLunsPerCh_pos)
    h.plsPerLun_pos

/-- The full device with the migration pointer sent to the first block. -/
def originState : HybridFtl fullDevice :=
  stateAfter fullStart 0

theorem not_takesQlcPages_fullDevice :
    ¬ TakesQlcPages (qlcPages fullDevice) originState :=
  not_takesQlcPages (by decide)

/-- The rounds that fill the first plane of the first die. -/
theorem qlcRounds_asserts_fullDevice :
    AtOrigin originState.ftl.gcWp ∧ 8192 * 1024 ≤ qlcPages fullDevice ∧
      qlcRounds (8192 * 1024) originState = .error .assertion :=
  ⟨by decide, by decide,
    qlcRounds_last fullStart (8192 * 1024) (by decide) (by decide)⟩

end NvmeVirt.Odometer
