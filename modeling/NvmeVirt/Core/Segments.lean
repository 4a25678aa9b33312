import Mathlib.Data.List.Basic
import Mathlib.Data.List.Range
import Mathlib.Order.Basic

/-!
# Scans in segments

A scan over positions that stops and resumes: each segment starts where the one
before it stopped, and keeps the positions its own filter lets through.
-/

namespace NvmeVirt.Segments

/-- The positions from `start` up to `stop`, and which of them are kept. -/
structure Segment where
  start : ℕ
  stop : ℕ
  keeps : ℕ → Bool

/-- The positions that are kept. -/
def Segment.picks (segment : Segment) : List ℕ :=
  (List.range' segment.start (segment.stop - segment.start)).filter segment.keeps

/-- Each segment starts where the one before it stopped, the first at `pos`. -/
def Adjoining : ℕ → List Segment → Prop
  | _, [] => True
  | pos, segment :: rest =>
      segment.start = pos ∧ pos ≤ segment.stop ∧ Adjoining segment.stop rest

/-- Where the last segment stops. -/
def stopOf : ℕ → List Segment → ℕ
  | pos, [] => pos
  | _, segment :: rest => stopOf segment.stop rest

variable {pos slot : ℕ} {segment : Segment} {segments : List Segment}

theorem Segment.mem_picks :
    slot ∈ segment.picks ↔
      (segment.start ≤ slot ∧ slot < segment.stop) ∧ segment.keeps slot := by
  rw [Segment.picks, List.mem_filter, List.mem_range'_1]
  apply and_congr_left'
  constructor
  · rintro ⟨hle, hlt⟩
    exact ⟨hle, by omega⟩
  · rintro ⟨hle, hlt⟩
    exact ⟨hle, by omega⟩

theorem Segment.pairwise_picks (segment : Segment) :
    segment.picks.Pairwise (· < ·) :=
  List.Pairwise.filter _ List.pairwise_lt_range'

/-- One position longer. -/
theorem picks_succ {start stop : ℕ} {keeps : ℕ → Bool} (hle : start ≤ stop) :
    ({ start := start, stop := stop + 1, keeps := keeps } : Segment).picks =
      ({ start := start, stop := stop, keeps := keeps } : Segment).picks ++
        if keeps stop then [stop] else [] := by
  rw [Segment.picks, Segment.picks]
  dsimp only
  rw [Nat.succ_sub hle, List.range'_1_concat, List.filter_append,
    Nat.add_sub_cancel' hle]
  apply congrArg
  by_cases hkeeps : keeps stop
  · rw [if_pos hkeeps, List.filter_cons_of_pos hkeeps, List.filter_nil]
  · rw [if_neg hkeeps, List.filter_cons_of_neg hkeeps, List.filter_nil]

theorem Adjoining.le_stopOf (h : Adjoining pos segments) :
    pos ≤ stopOf pos segments := by
  induction segments generalizing pos with
  | nil => exact le_refl pos
  | cons segment rest ih => exact le_trans h.2.1 (ih h.2.2)

/-- What is kept lies between the start and the end of the scan. -/
theorem Adjoining.mem_bounds (h : Adjoining pos segments)
    (hslot : slot ∈ segments.flatMap Segment.picks) :
    pos ≤ slot ∧ slot < stopOf pos segments := by
  induction segments generalizing pos with
  | nil => exact absurd hslot List.not_mem_nil
  | cons segment rest ih =>
      obtain ⟨hstart, hle, hrest⟩ := h
      rw [List.flatMap_cons, List.mem_append] at hslot
      obtain hhere | hlater := hslot
      · have hbounds := (Segment.mem_picks.mp hhere).1
        exact ⟨hstart ▸ hbounds.1, lt_of_lt_of_le hbounds.2 hrest.le_stopOf⟩
      · have hbounds := ih hrest hlater
        exact ⟨le_trans hle hbounds.1, hbounds.2⟩

/-- Positions are kept in order, and none twice. -/
theorem Adjoining.pairwise (h : Adjoining pos segments) :
    (segments.flatMap Segment.picks).Pairwise (· < ·) := by
  induction segments generalizing pos with
  | nil => exact List.Pairwise.nil
  | cons segment rest ih =>
      obtain ⟨-, -, hrest⟩ := h
      rw [List.flatMap_cons, List.pairwise_append]
      refine ⟨segment.pairwise_picks, ih hrest, ?_⟩
      intro slot hslot later hlater
      exact lt_of_lt_of_le (Segment.mem_picks.mp hslot).1.2
        (hrest.mem_bounds hlater).1

/-- A position that every segment would keep is kept. -/
theorem Adjoining.mem_picks (h : Adjoining pos segments) (hpos : pos ≤ slot)
    (hstop : slot < stopOf pos segments)
    (hkeeps : ∀ segment ∈ segments, segment.keeps slot) :
    slot ∈ segments.flatMap Segment.picks := by
  induction segments generalizing pos with
  | nil => exact absurd hstop (Nat.not_lt.mpr hpos)
  | cons segment rest ih =>
      obtain ⟨hstart, -, hrest⟩ := h
      rw [List.flatMap_cons, List.mem_append]
      by_cases hlt : slot < segment.stop
      · have hhere := hkeeps segment List.mem_cons_self
        exact .inl (Segment.mem_picks.mpr ⟨⟨hstart.le.trans hpos, hlt⟩, hhere⟩)
      · exact .inr (ih hrest (Nat.not_lt.mp hlt) hstop
          fun later hlater => hkeeps later (List.mem_cons_of_mem _ hlater))

/-- A scan that moves in every segment has no more segments than positions. -/
theorem Adjoining.length_le (h : Adjoining pos segments)
    (hmoves : ∀ segment ∈ segments, segment.start < segment.stop) :
    pos + segments.length ≤ stopOf pos segments := by
  induction segments generalizing pos with
  | nil => exact le_refl pos
  | cons segment rest ih =>
      obtain ⟨hstart, -, hrest⟩ := h
      have hfirst := hmoves segment List.mem_cons_self
      have hlater := ih hrest
        fun later hlater => hmoves later (List.mem_cons_of_mem _ hlater)
      rw [stopOf, List.length_cons]
      omega

theorem stopOf_of_getLast? {last : Segment}
    (hlast : segments.getLast? = some last) :
    stopOf pos segments = last.stop := by
  induction segments generalizing pos with
  | nil => cases hlast
  | cons segment rest ih =>
      cases rest with
      | nil =>
          cases hlast
          rfl
      | cons next rest =>
          show stopOf segment.stop (next :: rest) = last.stop
          exact ih (List.getLast?_cons_cons ▸ hlast)

/-- In a list that is ordered by its first components, a first component stands
in one pair only. -/
theorem filter_fst_eq {α : Type*} {pairs : List (ℕ × α)} {value : α}
    (hordered : (pairs.map Prod.fst).Pairwise (· < ·))
    (hmem : (slot, value) ∈ pairs) :
    pairs.filter (fun pair => pair.1 = slot) = [(slot, value)] := by
  induction pairs with
  | nil => exact absurd hmem List.not_mem_nil
  | cons pair rest ih =>
      rw [List.map_cons, List.pairwise_cons] at hordered
      obtain ⟨hfirst, hrest⟩ := hordered
      obtain heq | hlater := List.mem_cons.mp hmem
      · have hnone : rest.filter (fun pair => pair.1 = slot) = [] := by
          apply List.filter_eq_nil_iff.mpr
          intro other hother heq'
          have hlt := hfirst other.1 (List.mem_map_of_mem hother)
          rw [← heq] at hlt
          exact absurd (of_decide_eq_true heq') (Nat.ne_of_gt hlt)
        rw [← heq, List.filter_cons, if_pos (decide_eq_true rfl), hnone]
      · have hlt := hfirst slot (List.mem_map_of_mem hlater)
        rw [List.filter_cons_of_neg (by simpa using Nat.ne_of_lt hlt)]
        exact ih hrest hlater

end NvmeVirt.Segments
