import Mathlib.Data.List.Basic
import Mathlib.Order.MinMax

/-!
# Queues ordered by due time

A queue of items with due times, kept by insertion from the back against a
clock that moves on.  An insertion also stops behind an item that is due
already, so only what is due later than the clock is sorted, and an item can
stand behind a later one as long as both are due.  Items that are due at one
time in the future stand in the order of their arrival.
-/

namespace NvmeVirt.DueOrder

variable {ι T A : Type*} [LinearOrder T] [LT A]

/-- `left` may stand in front of `right` at the time `now`. -/
def Precedes (now : T) (due : ι → T) (arrival : ι → A) (left right : ι) :
    Prop :=
  due left ≤ max (due right) now ∧
    (due left = due right → now < due left → arrival left < arrival right)

def InDueOrder (now : T) (due : ι → T) (arrival : ι → A) (items : List ι) :
    Prop :=
  items.Pairwise (Precedes now due arrival)

variable {now now' : T} {due due' : ι → T} {arrival arrival' : ι → A}
variable {items front back : List ι} {item : ι}

theorem Precedes.later {left right : ι}
    (h : Precedes now due arrival left right) (hle : now ≤ now') :
    Precedes now' due arrival left right :=
  ⟨h.1.trans (max_le_max_left _ hle),
    fun heq hlt => h.2 heq (hle.trans_lt hlt)⟩

namespace InDueOrder

/-- The clock moves on. -/
theorem later (h : InDueOrder now due arrival items) (hle : now ≤ now') :
    InDueOrder now' due arrival items :=
  List.Pairwise.imp (fun hprecedes => hprecedes.later hle) h

/-- Only the items of the queue matter. -/
theorem congr (h : InDueOrder now due arrival items)
    (hdue : ∀ item ∈ items, due' item = due item)
    (harrival : ∀ item ∈ items, arrival' item = arrival item) :
    InDueOrder now due' arrival' items := by
  refine List.Pairwise.imp_of_mem ?_ h
  intro left right hleft hright hprecedes
  rw [Precedes, hdue left hleft, hdue right hright, harrival left hleft,
    harrival right hright]
  exact hprecedes

theorem sublist {others : List ι} (h : InDueOrder now due arrival items)
    (hsub : others.Sublist items) : InDueOrder now due arrival others :=
  List.Pairwise.sublist hsub h

/-- What bounds the last item bounds all of them. -/
theorem due_le_max (h : InDueOrder now due arrival front) {bound : T}
    (hlast : ∀ last, front.getLast? = some last → due last ≤ max bound now)
    {other : ι} (hother : other ∈ front) : due other ≤ max bound now := by
  obtain rfl | ⟨others, last, rfl⟩ := List.eq_nil_or_concat' front
  · cases hother
  have hlast := hlast last List.getLast?_concat
  rcases List.mem_append.mp hother with hmem | hmem
  · have hprecedes := (List.pairwise_append.mp h).2.2 other hmem last
      List.mem_cons_self
    exact hprecedes.1.trans (max_le hlast (le_max_right _ _))
  · rw [List.mem_singleton.mp hmem]
    exact hlast

/-- The newest item goes behind an item that is due not after it or is due
already, and in front of items that are due after it. -/
theorem insert (h : InDueOrder now due arrival (front ++ back))
    (hfront : ∀ last, front.getLast? = some last →
      due last ≤ max (due item) now)
    (hback : ∀ other ∈ back, due item < due other)
    (hnewest : ∀ other ∈ front ++ back, arrival other < arrival item) :
    InDueOrder now due arrival (front ++ item :: back) := by
  obtain ⟨hleft, hright, hapart⟩ := List.pairwise_append.mp h
  have hitem : ∀ other ∈ back, Precedes now due arrival item other :=
    fun other hother =>
      ⟨le_max_of_le_left (hback other hother).le,
        fun heq => absurd heq (hback other hother).ne⟩
  refine List.pairwise_append.mpr
    ⟨hleft, List.pairwise_cons.mpr ⟨hitem, hright⟩, ?_⟩
  intro earlier hearlier later hlater
  rcases List.mem_cons.mp hlater with rfl | hlater
  · exact ⟨due_le_max hleft hfront hearlier,
      fun _ _ => hnewest earlier (List.mem_append_left _ hearlier)⟩
  · exact hapart earlier hearlier later hlater

end InDueOrder

end NvmeVirt.DueOrder
