import Mathlib.Data.List.Nodup

/-!
# Lists linked through an array

Cells are indices into an array and each cell names the following one, or
nothing.  `Seg next head cells stop` says that following `next` from `head`
runs through `cells` and leaves at `stop`; `Back prev before cells` says that
`prev` leads back along the same cells.  Neither asks the cells to be
distinct: a list that ends in `none` cannot repeat a cell, and two lists in
one array are kept apart by their owner.
-/

namespace NvmeVirt.LinkedArray

variable {ι : Type*}

def Seg (next : ι → Option ι) : Option ι → List ι → Option ι → Prop
  | head, [], stop => head = stop
  | head, cell :: cells, stop =>
      head = some cell ∧ Seg next (next cell) cells stop

def Back (prev : ι → Option ι) : Option ι → List ι → Prop
  | _, [] => True
  | before, cell :: cells => prev cell = before ∧ Back prev (some cell) cells

variable {next next' prev prev' : ι → Option ι}

/-! ## Forward links -/

/-- Only the links of the cells themselves matter. -/
theorem Seg.congr {head stop : Option ι} {cells : List ι}
    (hseg : Seg next head cells stop)
    (hsame : ∀ cell ∈ cells, next' cell = next cell) :
    Seg next' head cells stop := by
  induction cells generalizing head with
  | nil => exact hseg
  | cons cell cells ih =>
      refine ⟨hseg.1, ?_⟩
      rw [hsame cell List.mem_cons_self]
      exact ih hseg.2 fun other hother =>
        hsame other (List.mem_cons_of_mem _ hother)

theorem seg_append {head stop : Option ι} {front rest : List ι} :
    Seg next head (front ++ rest) stop ↔
      ∃ middle, Seg next head front middle ∧ Seg next middle rest stop := by
  induction front generalizing head with
  | nil =>
      constructor
      · intro h
        exact ⟨head, rfl, h⟩
      · rintro ⟨middle, hfront, hrest⟩
        cases hfront
        exact hrest
  | cons cell front ih =>
      simp only [List.cons_append, Seg, ih]
      constructor
      · rintro ⟨hhead, middle, hfront, hrest⟩
        exact ⟨middle, ⟨hhead, hfront⟩, hrest⟩
      · rintro ⟨middle, ⟨hhead, hfront⟩, hrest⟩
        exact ⟨hhead, middle, hfront, hrest⟩

theorem seg_concat {head stop : Option ι} {front : List ι} {last : ι} :
    Seg next head (front ++ [last]) stop ↔
      Seg next head front (some last) ∧ next last = stop := by
  rw [seg_append]
  constructor
  · rintro ⟨middle, hfront, rfl, hstop⟩
    exact ⟨hfront, hstop⟩
  · rintro ⟨hfront, hstop⟩
    exact ⟨some last, hfront, rfl, hstop⟩

theorem Seg.head_eq {head : Option ι} {cells : List ι}
    (hseg : Seg next head cells none) : head = cells.head? := by
  cases cells with
  | nil => exact hseg
  | cons cell cells => exact hseg.1

/-- The cells are determined by where the list starts. -/
theorem Seg.unique {head : Option ι} {left right : List ι}
    (hleft : Seg next head left none) (hright : Seg next head right none) :
    left = right := by
  induction left generalizing head right with
  | nil =>
      cases right with
      | nil => rfl
      | cons cell right =>
          cases hleft
          cases hright.1
  | cons cell left ih =>
      obtain ⟨rfl, hleft⟩ := hleft
      cases right with
      | nil => cases hright
      | cons other right =>
          obtain ⟨hsame, hright⟩ := hright
          cases hsame
          rw [ih hleft hright]

theorem Seg.next_eq {head : Option ι} {front rest : List ι} {cell : ι}
    (hseg : Seg next head (front ++ cell :: rest) none) :
    next cell = rest.head? := by
  obtain ⟨_, _, _, hrest⟩ := seg_append.mp hseg
  exact hrest.head_eq

/-- Following the link of a cell stays in the list or leaves it at its end. -/
theorem Seg.next_mem {head : Option ι} {cells : List ι}
    (hseg : Seg next head cells none) {cell after : ι} (hcell : cell ∈ cells)
    (hafter : next cell = some after) : after ∈ cells := by
  obtain ⟨front, rest, rfl⟩ := List.append_of_mem hcell
  rw [hseg.next_eq] at hafter
  obtain ⟨rest, rfl⟩ := List.head?_eq_some_iff.mp hafter
  simp

/-- Relinking the last cell of a list keeps what is in front of it and
continues with what the new link leads to. -/
theorem Seg.relink {head stop stop' : Option ι} {front rest : List ι} {last : ι}
    (hseg : Seg next head (front ++ [last]) stop)
    (hsame : ∀ cell ∈ front, next' cell = next cell)
    (hrest : Seg next' (next' last) rest stop') :
    Seg next' head (front ++ last :: rest) stop' :=
  seg_append.mpr
    ⟨some last, (seg_concat.mp hseg).1.congr hsame, rfl, hrest⟩

/-- A new cell between `front` and `rest`. -/
theorem Seg.insert {head : Option ι} {front rest : List ι} {cell : ι}
    (hseg : Seg next head (front ++ rest) none)
    (hcell : next' cell = rest.head?)
    (hlast : ∀ last, front.getLast? = some last → next' last = some cell)
    (hfront : ∀ other ∈ front, front.getLast? ≠ some other →
      next' other = next other)
    (hrest : ∀ other ∈ rest, next' other = next other)
    (hnodup : front.Nodup) :
    Seg next' (front ++ cell :: rest).head? (front ++ cell :: rest) none := by
  obtain ⟨middle, hleft, hright⟩ := seg_append.mp hseg
  have htail : Seg next' (some cell) (cell :: rest) none := by
    refine ⟨rfl, ?_⟩
    rw [hcell, ← hright.head_eq]
    exact hright.congr hrest
  obtain rfl | ⟨front, last, rfl⟩ := List.eq_nil_or_concat' front
  · exact htail
  · have hhead : head = (front ++ last :: cell :: rest).head? := by
      rw [hseg.head_eq]
      cases front <;> rfl
    rw [List.append_assoc, List.singleton_append, ← hhead]
    refine hleft.relink (fun other hother => ?_) ?_
    · refine hfront other (List.mem_append_left _ hother) ?_
      rw [List.getLast?_concat]
      rintro ⟨⟩
      exact (List.nodup_append.mp hnodup).2.2 _ hother _
        List.mem_cons_self rfl
    · rw [hlast last List.getLast?_concat]
      exact htail

/-! ## Backward links -/

theorem Back.congr {before : Option ι} {cells : List ι}
    (hback : Back prev before cells)
    (hsame : ∀ cell ∈ cells, prev' cell = prev cell) :
    Back prev' before cells := by
  induction cells generalizing before with
  | nil => trivial
  | cons cell cells ih =>
      refine ⟨?_, ih hback.2 fun other hother =>
        hsame other (List.mem_cons_of_mem _ hother)⟩
      rw [hsame cell List.mem_cons_self]
      exact hback.1

theorem back_append {before : Option ι} {front rest : List ι} :
    Back prev before (front ++ rest) ↔
      Back prev before front ∧ Back prev (front.getLast?.or before) rest := by
  induction front generalizing before with
  | nil => simp [Back]
  | cons cell front ih =>
      simp only [List.cons_append, Back, ih, and_assoc]
      rw [List.getLast?_cons]
      cases front.getLast? with
      | none => simp
      | some last => simp

/-- The backward link of a cell names the cell in front of it. -/
theorem Back.prev_eq {before : Option ι} {front rest : List ι} {cell : ι}
    (hback : Back prev before (front ++ cell :: rest)) :
    prev cell = front.getLast?.or before :=
  (back_append.mp hback).2.1

theorem Back.insert {front rest : List ι} {cell : ι}
    (hback : Back prev none (front ++ rest))
    (hcell : prev' cell = front.getLast?)
    (hfirst : ∀ first, rest.head? = some first → prev' first = some cell)
    (hfront : ∀ other ∈ front, prev' other = prev other)
    (hrest : ∀ other ∈ rest.tail, prev' other = prev other) :
    Back prev' none (front ++ cell :: rest) := by
  obtain ⟨hleft, hright⟩ := back_append.mp hback
  refine back_append.mpr ⟨hleft.congr hfront, ?_, ?_⟩
  · rw [hcell, Option.or_none]
  · cases rest with
    | nil => trivial
    | cons first rest => exact ⟨hfirst first rfl, hright.2.congr hrest⟩

/-- Along one list, backward links undo forward links. -/
theorem prev_eq_iff_next_eq {head : Option ι} {cells : List ι}
    (hseg : Seg next head cells none) (hback : Back prev none cells)
    {left right : ι} (hright : right ∈ cells) :
    prev right = some left ↔ left ∈ cells ∧ next left = some right := by
  constructor
  · intro h
    obtain ⟨front, rest, rfl⟩ := List.append_of_mem hright
    rw [hback.prev_eq, Option.or_none] at h
    obtain ⟨front, rfl⟩ := List.getLast?_eq_some_iff.mp h
    rw [List.append_assoc, List.singleton_append] at hseg
    exact ⟨by simp, hseg.next_eq⟩
  · rintro ⟨hleft, h⟩
    obtain ⟨front, rest, rfl⟩ := List.append_of_mem hleft
    rw [hseg.next_eq] at h
    obtain ⟨rest, rfl⟩ := List.head?_eq_some_iff.mp h
    rw [← List.singleton_append, ← List.append_assoc] at hback
    rw [hback.prev_eq, Option.or_none, List.getLast?_concat]

end NvmeVirt.LinkedArray
