import NvmeVirt.Io.ProcTable
import Mathlib.Data.List.Perm.Basic
import Mathlib.Data.List.Range

/-!
# The two lists of a request table

Every entry of the table is on exactly one of the two lists, the free list is
never empty, and the list of requests can be walked both ways.  The worker's
marks do not touch links, so this holds under every interleaving.
-/

namespace NvmeVirt.Lists

open NvmeVirt.Kernel
open NvmeVirt.Transition
open NvmeVirt.LinkedArray
open NvmeVirt.ProcTable

/-- `free` and `io` are the entries of the two lists, in order. -/
structure WellLinked (pi : ProcInfo) (free io : List ℕ) : Prop where
  free_seg : Seg pi.next (some pi.freeSeq) free none
  free_end : free.getLast? = some pi.freeSeqEnd
  io_seg : Seg pi.next pi.ioSeq io none
  /-- When `io` is empty, `io_seq_end` is stale. -/
  io_end : io ≠ [] → pi.ioSeqEnd = io.getLast?
  io_back : Back pi.prev none io
  perm : (free ++ io).Perm (List.range nrMaxParallelIo)

variable {pi pi' : ProcInfo} {free io : List ℕ} {worker : Schedule}

namespace WellLinked

theorem nodup (hwell : WellLinked pi free io) : (free ++ io).Nodup :=
  hwell.perm.nodup_iff.mpr List.nodup_range

theorem mem_iff (hwell : WellLinked pi free io) (entry : ℕ) :
    entry ∈ free ∨ entry ∈ io ↔ entry < nrMaxParallelIo := by
  rw [← List.mem_append, hwell.perm.mem_iff, List.mem_range]

theorem apart (hwell : WellLinked pi free io) {entry : ℕ}
    (hfree : entry ∈ free) : entry ∉ io :=
  fun hio => (List.nodup_append.mp hwell.nodup).2.2 _ hfree _ hio rfl

theorem free_ne_nil (hwell : WellLinked pi free io) : free ≠ [] := by
  rintro rfl
  cases hwell.free_end

theorem length_eq (hwell : WellLinked pi free io) :
    free.length + io.length = nrMaxParallelIo := by
  rw [← List.length_append, hwell.perm.length_eq, List.length_range]

theorem io_length_lt (hwell : WellLinked pi free io) :
    io.length < nrMaxParallelIo := by
  have hlength := hwell.length_eq
  have hfree := List.length_pos_of_ne_nil hwell.free_ne_nil
  omega

theorem freeSeq_eq (hwell : WellLinked pi free io) :
    free.head? = some pi.freeSeq := hwell.free_seg.head_eq.symm

/-- Only the links and the four ends matter. -/
theorem congr (hwell : WellLinked pi free io) (hnext : pi'.next = pi.next)
    (hprev : pi'.prev = pi.prev) (hfree : pi'.freeSeq = pi.freeSeq)
    (hfreeEnd : pi'.freeSeqEnd = pi.freeSeqEnd) (hio : pi'.ioSeq = pi.ioSeq)
    (hioEnd : pi'.ioSeqEnd = pi.ioSeqEnd) : WellLinked pi' free io where
  free_seg := by
    rw [hnext, hfree]
    exact hwell.free_seg
  free_end := by
    rw [hfreeEnd]
    exact hwell.free_end
  io_seg := by
    rw [hnext, hio]
    exact hwell.io_seg
  io_end := by
    rw [hioEnd]
    exact hwell.io_end
  io_back := by
    rw [hprev]
    exact hwell.io_back
  perm := hwell.perm

end WellLinked

/-! ## Single stores -/

section Stores

variable (pi) (entry : ℕ) (link : Option ℕ) (pe : ProcEntry)

theorem next_setEntry : (pi.setEntry entry pe).next =
    Function.update pi.next entry pe.next := by
  funext other
  by_cases h : other = entry
  · subst h
    simp [ProcInfo.next, ProcInfo.setEntry]
  · simp [ProcInfo.next, ProcInfo.setEntry, h]

theorem prev_setEntry : (pi.setEntry entry pe).prev =
    Function.update pi.prev entry pe.prev := by
  funext other
  by_cases h : other = entry
  · subst h
    simp [ProcInfo.prev, ProcInfo.setEntry]
  · simp [ProcInfo.prev, ProcInfo.setEntry, h]

@[simp]
theorem next_setNext : (pi.setNext entry link).next =
    Function.update pi.next entry link := next_setEntry ..

@[simp]
theorem prev_setNext : (pi.setNext entry link).prev = pi.prev := by
  rw [ProcInfo.setNext, prev_setEntry]
  exact Function.update_eq_self entry pi.prev

@[simp]
theorem prev_setPrev : (pi.setPrev entry link).prev =
    Function.update pi.prev entry link := prev_setEntry ..

@[simp]
theorem next_setPrev : (pi.setPrev entry link).next = pi.next := by
  rw [ProcInfo.setPrev, next_setEntry]
  exact Function.update_eq_self entry pi.next

/-- What the entries hold, links apart. -/
def bodies (pi : ProcInfo) (entry : ℕ) : ProcEntry :=
  (pi.procTable entry).body

theorem bodies_setEntry : bodies (pi.setEntry entry pe) =
    Function.update (bodies pi) entry pe.body := by
  funext other
  by_cases h : other = entry
  · subst h
    simp [bodies, ProcInfo.setEntry]
  · simp [bodies, ProcInfo.setEntry, h]

@[simp]
theorem bodies_setNext : bodies (pi.setNext entry link) = bodies pi := by
  rw [ProcInfo.setNext, bodies_setEntry]
  exact Function.update_eq_self entry (bodies pi)

@[simp]
theorem bodies_setPrev : bodies (pi.setPrev entry link) = bodies pi := by
  rw [ProcInfo.setPrev, bodies_setEntry]
  exact Function.update_eq_self entry (bodies pi)

end Stores

/-! ## The worker's marks -/

@[simp]
theorem next_mark (m : Mark) : (pi.mark m).next = pi.next := by
  cases m with
  | procIoNsecs time => rfl
  | copied entry =>
      exact (next_setEntry ..).trans (Function.update_eq_self entry pi.next)
  | completed entry =>
      exact (next_setEntry ..).trans (Function.update_eq_self entry pi.next)
  | performed entry result0 status =>
      exact (next_setEntry ..).trans (Function.update_eq_self entry pi.next)

@[simp]
theorem prev_mark (m : Mark) : (pi.mark m).prev = pi.prev := by
  cases m with
  | procIoNsecs time => rfl
  | copied entry =>
      exact (prev_setEntry ..).trans (Function.update_eq_self entry pi.prev)
  | completed entry =>
      exact (prev_setEntry ..).trans (Function.update_eq_self entry pi.prev)
  | performed entry result0 status =>
      exact (prev_setEntry ..).trans (Function.update_eq_self entry pi.prev)

@[simp]
theorem prev_marked (marks : List Mark) :
    (pi.marked marks).prev = pi.prev := by
  induction marks generalizing pi with
  | nil => rfl
  | cons m marks ih => exact ih.trans (prev_mark m)

@[simp]
theorem next_marked (marks : List Mark) :
    (pi.marked marks).next = pi.next := by
  induction marks generalizing pi with
  | nil => rfl
  | cons m marks ih => exact ih.trans (next_mark m)

/-- The worker's marks leave every link and every end alone. -/
theorem WellLinked.mark (hwell : WellLinked pi free io) (m : Mark) :
    WellLinked (pi.mark m) free io := by
  apply hwell.congr (next_mark m) (prev_mark m) <;> cases m <;> rfl

theorem WellLinked.marked (hwell : WellLinked pi free io)
    (marks : List Mark) : WellLinked (pi.marked marks) free io := by
  induction marks generalizing pi with
  | nil => exact hwell
  | cons m marks ih => exact ih (hwell.mark m)

/-- The target times of the entries. -/
def due (pi : ProcInfo) (entry : ℕ) : ℕ := (bodies pi entry).nsecsTarget

theorem due_eq_of_bodies (h : bodies pi' = bodies pi) : due pi' = due pi := by
  funext entry
  rw [due, h, due]

theorem due_setEntry (entry : ℕ) (pe : ProcEntry) :
    due (pi.setEntry entry pe) =
      Function.update (due pi) entry pe.nsecsTarget := by
  funext other
  rw [due, bodies_setEntry]
  by_cases h : other = entry
  · rw [h, Function.update_self, Function.update_self]
    rfl
  · rw [Function.update_of_ne h, Function.update_of_ne h, due]

@[simp]
theorem due_mark (m : Mark) : due (pi.mark m) = due pi := by
  cases m with
  | procIoNsecs time => rfl
  | copied entry =>
      exact (due_setEntry ..).trans (Function.update_eq_self entry (due pi))
  | completed entry =>
      exact (due_setEntry ..).trans (Function.update_eq_self entry (due pi))
  | performed entry result0 status =>
      exact (due_setEntry ..).trans (Function.update_eq_self entry (due pi))

@[simp]
theorem due_marked (marks : List Mark) : due (pi.marked marks) = due pi := by
  induction marks generalizing pi with
  | nil => rfl
  | cons m marks ih => exact ih.trans (due_mark m)

theorem marked_append (left right : List Mark) :
    pi.marked (left ++ right) = (pi.marked left).marked right :=
  List.foldl_append

/-- The marks made during one operation are among those of its schedule. -/
def Scheduled (worker : Schedule) (marks : List Mark) : Prop :=
  ∀ m ∈ marks, ∃ turn, m ∈ worker turn

/-- The marks of a loop with `fuel` iterations, in their order. -/
def marksOf (worker : Schedule) (fuel : ℕ) : List Mark :=
  (List.range fuel).reverse.flatMap worker

theorem marksOf_succ (worker : Schedule) (fuel : ℕ) :
    marksOf worker (fuel + 1) = worker fuel ++ marksOf worker fuel := by
  rw [marksOf, List.range_succ, List.reverse_concat, List.flatMap_cons,
    marksOf]

/-- A loop that stops early has seen the first of its marks. -/
theorem scheduled_of_initial {fuel : ℕ} {marks : List Mark}
    (hmarks : marks <+: marksOf worker fuel) : Scheduled worker marks := by
  intro m hm
  obtain ⟨turn, _, hturn⟩ := List.mem_flatMap.mp (hmarks.subset hm)
  exact ⟨turn, hturn⟩

theorem Scheduled.eq_nil {marks : List Mark}
    (h : Scheduled quiet marks) : marks = [] := by
  apply List.eq_nil_iff_forall_not_mem.mpr
  intro m hm
  obtain ⟨_, hmem⟩ := h m hm
  cases hmem

/-! ## Enqueueing -/

/-- A table one of whose entries, `entry`, is on neither list. -/
structure Detached (pi : ProcInfo) (entry : ℕ) (free io : List ℕ) :
    Prop where
  free_seg : Seg pi.next (some pi.freeSeq) free none
  free_end : free.getLast? = some pi.freeSeqEnd
  io_seg : Seg pi.next pi.ioSeq io none
  io_end : io ≠ [] → pi.ioSeqEnd = io.getLast?
  io_back : Back pi.prev none io
  next_eq : pi.next entry = none
  prev_eq : pi.prev entry = none
  perm : (free ++ entry :: io).Perm (List.range nrMaxParallelIo)

namespace Detached

variable {entry : ℕ}

theorem nodup (hdet : Detached pi entry free io) :
    (free ++ entry :: io).Nodup :=
  hdet.perm.nodup_iff.mpr List.nodup_range

theorem not_mem_free (hdet : Detached pi entry free io) : entry ∉ free :=
  fun h => (List.nodup_append.mp hdet.nodup).2.2 _ h _ List.mem_cons_self rfl

theorem not_mem_io (hdet : Detached pi entry free io) : entry ∉ io :=
  (List.nodup_cons.mp (List.nodup_append.mp hdet.nodup).2.1).1

theorem io_nodup (hdet : Detached pi entry free io) : io.Nodup :=
  (List.nodup_cons.mp (List.nodup_append.mp hdet.nodup).2.1).2

theorem apart (hdet : Detached pi entry free io) {other : ℕ}
    (hio : other ∈ io) : other ∉ free :=
  fun h => (List.nodup_append.mp hdet.nodup).2.2 _ h _
    (List.mem_cons_of_mem _ hio) rfl

theorem io_length_le (hdet : Detached pi entry free io) :
    io.length ≤ nrMaxParallelIo := by
  have hlength := hdet.perm.length_eq
  rw [List.length_append, List.length_cons, List.length_range] at hlength
  omega

theorem mark (hdet : Detached pi entry free io) (m : Mark) :
    Detached (pi.mark m) entry free io := by
  obtain ⟨hfree, hend, hio, hioEnd, hback, hnext, hprev, hperm⟩ := hdet
  constructor <;> (try rw [next_mark]) <;> (try rw [prev_mark]) <;>
    first
      | assumption
      | (cases m <;> assumption)

theorem marked (hdet : Detached pi entry free io) (marks : List Mark) :
    Detached (pi.marked marks) entry free io := by
  induction marks generalizing pi with
  | nil => exact hdet
  | cons m marks ih => exact ih (hdet.mark m)

/-- The detached entry joins the requests between `front` and `rest`. -/
theorem insert {front rest : List ℕ}
    (hdet : Detached pi entry free (front ++ rest))
    (hnext : pi'.next entry = rest.head?)
    (hlast : ∀ last, front.getLast? = some last →
      pi'.next last = some entry)
    (hnextOther : ∀ other, other ≠ entry → front.getLast? ≠ some other →
      pi'.next other = pi.next other)
    (hprev : pi'.prev entry = front.getLast?)
    (hfirst : ∀ first, rest.head? = some first →
      pi'.prev first = some entry)
    (hprevOther : ∀ other, other ≠ entry → rest.head? ≠ some other →
      pi'.prev other = pi.prev other)
    (hfreeSeq : pi'.freeSeq = pi.freeSeq)
    (hfreeSeqEnd : pi'.freeSeqEnd = pi.freeSeqEnd)
    (hioSeq : pi'.ioSeq = (front ++ entry :: rest).head?)
    (hioSeqEnd : pi'.ioSeqEnd = (front ++ entry :: rest).getLast?) :
    WellLinked pi' free (front ++ entry :: rest) := by
  have hne : ∀ other ∈ front ++ rest, other ≠ entry := fun other hother =>
    ne_of_mem_of_not_mem hother hdet.not_mem_io
  have hnodup := List.nodup_append.mp hdet.io_nodup
  have hapart : ∀ other ∈ front, rest.head? ≠ some other := fun other ho h =>
    hnodup.2.2 _ ho _ (List.mem_of_head? h) rfl
  have hapart' : ∀ other ∈ rest, front.getLast? ≠ some other :=
    fun other ho h => hnodup.2.2 _ (List.mem_of_getLast? h) _ ho rfl
  constructor
  · rw [hfreeSeq]
    apply hdet.free_seg.congr
    intro other hother
    apply hnextOther other (ne_of_mem_of_not_mem hother hdet.not_mem_free)
    intro h
    exact hdet.apart (List.mem_append_left _ (List.mem_of_getLast? h)) hother
  · rw [hfreeSeqEnd]
    exact hdet.free_end
  · rw [hioSeq]
    apply hdet.io_seg.insert hnext hlast _ _ hnodup.1
    · intro other hother
      exact hnextOther other (hne other (List.mem_append_left _ hother))
    · intro other hother
      exact hnextOther other (hne other (List.mem_append_right _ hother))
        (hapart' other hother)
  · exact fun _ => hioSeqEnd
  · apply hdet.io_back.insert hprev hfirst
    · intro other hother
      exact hprevOther other (hne other (List.mem_append_left _ hother))
        (hapart other hother)
    · intro other hother
      have hmem := List.mem_of_mem_tail hother
      apply hprevOther other (hne other (List.mem_append_right _ hmem))
      intro h
      obtain ⟨tail, rfl⟩ := List.head?_eq_some_iff.mp h
      exact (List.nodup_cons.mp hnodup.2.1).1 hother
  · apply List.Perm.trans _ hdet.perm
    exact List.Perm.append_left free List.perm_middle

end Detached

/-- The search stops behind a prefix of the requests: it passes those that are
due after `target`, and stops at one that is not, or that is due already. -/
theorem seekInsert_spec (worker : Schedule) (target fuel : ℕ)
    {front rest : List ℕ} (hback : Back pi.prev none (front ++ rest))
    (hfuel : front.length ≤ fuel) :
    ∃ left passed marks, front = left ++ passed ∧
      marks <+: marksOf worker fuel ∧
      seekInsert worker target fuel pi front.getLast? =
        .ok (left.getLast?, pi.marked marks) ∧
      (∀ last, left.getLast? = some last →
        due pi last ≤ max target (pi.marked marks).procIoNsecs) ∧
      ∀ entry ∈ passed, target < due pi entry := by
  induction fuel generalizing pi front rest with
  | zero =>
      obtain rfl := List.length_eq_zero_iff.mp (Nat.le_zero.mp hfuel)
      refine ⟨[], [], [], rfl, List.nil_prefix, ?_, by simp, by simp⟩
      simp [seekInsert]
      rfl
  | succ fuel ih =>
      obtain rfl | ⟨front, curr, rfl⟩ := List.eq_nil_or_concat' front
      · exact ⟨[], [], [], rfl, List.nil_prefix, rfl, by simp, by simp⟩
      · have hcurr : ((pi.marked (worker fuel)).procTable curr).nsecsTarget =
            due pi curr := congrFun (due_marked (worker fuel)) curr
        rw [List.getLast?_concat, seekInsert, marksOf_succ, hcurr]
        split_ifs with hpast hdue
        · refine ⟨front ++ [curr], [], worker fuel, by simp,
            List.prefix_append .., by simp, ?_, by simp⟩
          intro last hlast
          rw [List.getLast?_concat] at hlast
          cases hlast
          exact hpast.trans (Nat.le_max_right ..)
        · refine ⟨front ++ [curr], [], worker fuel, by simp,
            List.prefix_append .., by simp, ?_, by simp⟩
          intro last hlast
          rw [List.getLast?_concat] at hlast
          cases hlast
          exact hdue.trans (Nat.le_max_left ..)
        · rw [List.append_assoc, List.singleton_append,
            ← prev_marked (worker fuel)] at hback
          rw [hback.prev_eq, Option.or_none]
          obtain ⟨left, passed, marks, hsplit, hmarks, hrun, hstop, hpassed⟩ :=
            ih hback (by simpa using hfuel)
          rw [due_marked, ← marked_append] at hstop
          refine ⟨left, passed ++ [curr], worker fuel ++ marks, ?_,
            (List.prefix_append_right_inj _).mpr hmarks, ?_, hstop, ?_⟩
          · rw [hsplit, List.append_assoc]
          · rw [hrun, marked_append]
          · intro entry hentry
            rcases List.mem_append.mp hentry with hmem | hmem
            · rw [due_marked] at hpassed
              exact hpassed entry hmem
            · rw [List.mem_singleton.mp hmem]
              exact Nat.lt_of_not_le hdue

section Link

variable {entry first curr after : ℕ} {front rest : List ℕ}

theorem linkIoReq_head
    (hdet : Detached pi entry free (first :: rest)) :
    WellLinked (linkIoReq pi entry first none) free
      (entry :: first :: rest) := by
  have hnext : (linkIoReq pi entry first none).next =
      Function.update pi.next entry (some first) :=
    (next_setNext ..).trans (by rw [next_setPrev])
  have hprev : (linkIoReq pi entry first none).prev =
      Function.update pi.prev first (some entry) :=
    (prev_setNext ..).trans (prev_setPrev ..)
  have hne : entry ≠ first := fun h => hdet.not_mem_io (by simp [h])
  have hend := hdet.io_end (List.cons_ne_nil _ _)
  rw [← List.nil_append (first :: rest)] at hdet
  rw [← List.nil_append (entry :: first :: rest)]
  apply hdet.insert
  · rw [hnext, Function.update_self, List.head?_cons]
  · intro last hlast
    cases hlast
  · intro other hother _
    rw [hnext, Function.update_of_ne hother]
  · rw [hprev, Function.update_of_ne hne, hdet.prev_eq]
    rfl
  · rintro _ ⟨⟩
    rw [hprev, Function.update_self]
  · intro other _ hother
    have hother : other ≠ first := fun h => hother (by simp [h])
    rw [hprev, Function.update_of_ne hother]
  · rfl
  · rfl
  · rfl
  · exact hend.trans (by simp [List.getLast?_cons_cons])

theorem linkIoReq_tail
    (hdet : Detached pi entry free (front ++ [curr])) :
    WellLinked (linkIoReq pi entry first (some curr)) free
      (front ++ [curr] ++ [entry]) := by
  have hcurr : pi.next curr = none := (seg_concat.mp hdet.io_seg).2
  have hlink : linkIoReq pi entry first (some curr) =
      ({ pi.setPrev entry (some curr) with
        ioSeqEnd := some entry } : ProcInfo).setNext curr (some entry) := by
    rw [linkIoReq]
    dsimp only
    rw [hcurr]
  have hnext : (linkIoReq pi entry first (some curr)).next =
      Function.update pi.next curr (some entry) := by
    rw [hlink, next_setNext]
    exact congrArg (Function.update · curr (some entry)) (next_setPrev ..)
  have hprev : (linkIoReq pi entry first (some curr)).prev =
      Function.update pi.prev entry (some curr) := by
    rw [hlink, prev_setNext]
    exact prev_setPrev ..
  have hne : entry ≠ curr := fun h => hdet.not_mem_io (by simp [h])
  have hhead : pi.ioSeq = (front ++ [curr]).head? := hdet.io_seg.head_eq
  rw [← List.append_nil (front ++ [curr])] at hdet
  apply hdet.insert
  · rw [hnext, Function.update_of_ne hne, hdet.next_eq]
    rfl
  · intro last hlast
    rw [List.getLast?_concat] at hlast
    cases hlast
    rw [hnext, Function.update_self]
  · intro other _ hother
    rw [List.getLast?_concat] at hother
    have hother : other ≠ curr := fun h => hother (by rw [h])
    rw [hnext, Function.update_of_ne hother]
  · rw [hprev, Function.update_self, List.getLast?_concat]
  · intro last hlast
    cases hlast
  · intro other hother _
    rw [hprev, Function.update_of_ne hother]
  · rw [hlink]
    rfl
  · rw [hlink]
    rfl
  · have hsame : (linkIoReq pi entry first (some curr)).ioSeq = pi.ioSeq := by
      rw [hlink]
      rfl
    rw [hsame, hhead]
    cases front <;> rfl
  · rw [hlink, List.getLast?_concat]
    rfl

theorem linkIoReq_between
    (hdet : Detached pi entry free (front ++ curr :: after :: rest)) :
    WellLinked (linkIoReq pi entry first (some curr)) free
      (front ++ curr :: entry :: after :: rest) := by
  have hcurr : pi.next curr = some after := hdet.io_seg.next_eq
  have hlink : linkIoReq pi entry first (some curr) =
      (((pi.setPrev entry (some curr)).setNext entry (some after)).setPrev
        after (some entry)).setNext curr (some entry) := by
    rw [linkIoReq]
    dsimp only
    rw [hcurr]
  have hnext : (linkIoReq pi entry first (some curr)).next =
      Function.update (Function.update pi.next entry (some after)) curr
        (some entry) := by
    rw [hlink, next_setNext, next_setPrev, next_setNext, next_setPrev]
  have hprev : (linkIoReq pi entry first (some curr)).prev =
      Function.update (Function.update pi.prev entry (some curr)) after
        (some entry) := by
    rw [hlink, prev_setNext, prev_setPrev, prev_setNext, prev_setPrev]
  have hne : entry ≠ curr := fun h => hdet.not_mem_io (by simp [h])
  have hne' : entry ≠ after := fun h => hdet.not_mem_io (by simp [h])
  have hhead := hdet.io_seg.head_eq
  have hend := hdet.io_end (by simp)
  have hcells : front ++ curr :: after :: rest =
      (front ++ [curr]) ++ after :: rest := by simp
  have hcells' : front ++ curr :: entry :: after :: rest =
      (front ++ [curr]) ++ entry :: after :: rest := by simp
  rw [hcells] at hdet
  rw [hcells']
  apply hdet.insert
  · rw [hnext, Function.update_of_ne hne, Function.update_self]
    rfl
  · intro last hlast
    rw [List.getLast?_concat] at hlast
    cases hlast
    rw [hnext, Function.update_self]
  · intro other hentry hother
    rw [List.getLast?_concat] at hother
    have hother : other ≠ curr := fun h => hother (by rw [h])
    rw [hnext, Function.update_of_ne hother, Function.update_of_ne hentry]
  · rw [hprev, Function.update_of_ne hne', Function.update_self,
      List.getLast?_concat]
  · rintro _ ⟨⟩
    rw [hprev, Function.update_self]
  · intro other hentry hother
    have hother : other ≠ after := fun h => hother (by simp [h])
    rw [hprev, Function.update_of_ne hother, Function.update_of_ne hentry]
  · rw [hlink]
    rfl
  · rw [hlink]
    rfl
  · have hsame : (linkIoReq pi entry first (some curr)).ioSeq = pi.ioSeq := by
      rw [hlink]
      rfl
    rw [hsame, hhead]
    cases front <;> rfl
  · have hsame : (linkIoReq pi entry first (some curr)).ioSeqEnd =
        pi.ioSeqEnd := by
      rw [hlink]
      rfl
    rw [hsame, hend]
    simp [List.getLast?_append, List.getLast?_cons]

/-- A detached entry is linked in behind any prefix of the requests. -/
theorem linkIoReq_spec
    (hdet : Detached pi entry free (front ++ rest))
    (hfirst : pi.ioSeq = some first) :
    WellLinked (linkIoReq pi entry first front.getLast?) free
      (front ++ entry :: rest) := by
  obtain rfl | ⟨front, curr, rfl⟩ := List.eq_nil_or_concat' front
  · obtain ⟨rest, rfl⟩ := List.head?_eq_some_iff.mp
      (hdet.io_seg.head_eq.symm.trans hfirst)
    exact linkIoReq_head hdet
  · rw [List.getLast?_concat]
    cases rest with
    | nil => exact linkIoReq_tail (by simpa using hdet)
    | cons after rest =>
        rw [List.append_assoc] at hdet ⊢
        exact linkIoReq_between hdet

theorem bodies_linkIoReq (link : Option ℕ) :
    bodies (linkIoReq pi entry first link) = bodies pi := by
  cases link with
  | none =>
      exact (bodies_setNext (pi.setPrev first _) entry _).trans
        (bodies_setPrev ..)
  | some curr =>
      rw [linkIoReq]
      cases pi.next curr with
      | none =>
          exact (bodies_setNext { pi.setPrev entry _ with
            ioSeqEnd := some entry } curr _).trans (bodies_setPrev pi entry _)
      | some after => simp

theorem procIoNsecs_linkIoReq (link : Option ℕ) :
    (linkIoReq pi entry first link).procIoNsecs = pi.procIoNsecs := by
  cases link with
  | none => rfl
  | some curr =>
      rw [linkIoReq]
      cases pi.next curr <;> rfl

end Link

/-- An operation that changes no target time, while the worker makes the first
of its marks. -/
structure Ticked (worker : Schedule) (pi pi' : ProcInfo) : Prop where
  due_eq : due pi' = due pi
  clock_eq : ∃ marks, marks <+: marksOf worker nrMaxParallelIo ∧
    pi'.procIoNsecs = (pi.marked marks).procIoNsecs

/-- An insertion with the time `target` between `front` and `back`. -/
structure Inserted (worker : Schedule) (target : ℕ) (pi pi' : ProcInfo)
    (front back : List ℕ) : Prop extends Ticked worker pi pi' where
  front_le : ∀ last, front.getLast? = some last →
    due pi last ≤ max target pi'.procIoNsecs
  back_gt : ∀ entry ∈ back, target < due pi entry

/-- A detached entry joins the requests at some place. -/
theorem insertIoReq_spec (worker : Schedule) (target : ℕ) {entry : ℕ}
    (hdet : Detached pi entry free io) :
    ∃ front rest pi', io = front ++ rest ∧
      insertIoReq worker pi entry target = .ok pi' ∧
      WellLinked pi' free (front ++ entry :: rest) ∧
      (worker = quiet →
        bodies pi' = bodies pi ∧ pi'.procIoNsecs = pi.procIoNsecs) ∧
      Inserted worker target pi pi' front rest := by
  cases hseq : pi.ioSeq with
  | none =>
      obtain rfl : io = [] :=
        List.head?_eq_none_iff.mp (hdet.io_seg.head_eq.symm.trans hseq)
      refine ⟨[], [], { pi with ioSeq := some entry, ioSeqEnd := some entry },
        rfl, ?_, ?_, fun _ => ⟨rfl, rfl⟩, ?_⟩
      · rw [insertIoReq, hseq]
      · exact ⟨hdet.free_seg, hdet.free_end, ⟨rfl, hdet.next_eq⟩,
          fun _ => rfl, ⟨hdet.prev_eq, trivial⟩, hdet.perm⟩
      · exact ⟨⟨rfl, [], List.nil_prefix, rfl⟩, by simp, by simp⟩
  | some first =>
      obtain ⟨others, rfl⟩ := List.head?_eq_some_iff.mp
        (hdet.io_seg.head_eq.symm.trans hseq)
      have hback := hdet.io_back
      rw [← List.append_nil (first :: others)] at hback
      obtain ⟨front, rest, marks, hsplit, hmarks, hseek, hstop, hpassed⟩ :=
        seekInsert_spec worker target nrMaxParallelIo hback hdet.io_length_le
      have hmarked := hdet.marked marks
      rw [hsplit] at hmarked
      let linked := linkIoReq (pi.marked marks) entry first front.getLast?
      have hbodies : bodies linked = bodies (pi.marked marks) :=
        bodies_linkIoReq _
      have hclock : linked.procIoNsecs = (pi.marked marks).procIoNsecs :=
        procIoNsecs_linkIoReq _
      refine ⟨front, rest, linked, hsplit, ?_,
        linkIoReq_spec hmarked ?_, ?_,
        ⟨(due_eq_of_bodies hbodies).trans (due_marked marks), marks, hmarks,
          hclock⟩, hclock.symm ▸ hstop, hpassed⟩
      · rw [insertIoReq, hseq]
        dsimp only
        rw [hdet.io_end (List.cons_ne_nil _ _), hseek, ok_bind]
      · rw [hmarked.io_seg.head_eq, ← hsplit, List.head?_cons]
      · rintro rfl
        obtain rfl := (scheduled_of_initial hmarks).eq_nil
        exact ⟨hbodies, hclock⟩

/-- Taking the first free entry for a request, when it is not the last one. -/
theorem WellLinked.detach {entry after : ℕ} {rest : List ℕ}
    (hwell : WellLinked pi (entry :: after :: rest) io) (pe : ProcEntry) :
    Detached ({ pi with freeSeq := after }.setEntry entry
      { pe with next := none, prev := none }) entry (after :: rest) io := by
  have hnext := next_setEntry { pi with freeSeq := after } entry
    { pe with next := none, prev := none }
  have hprev := prev_setEntry { pi with freeSeq := after } entry
    { pe with next := none, prev := none }
  have hseg := hwell.free_seg.2
  rw [hseg.1] at hseg
  have hnodup := List.nodup_cons.mp (List.cons_append .. ▸ hwell.nodup)
  have hfree : entry ∉ after :: rest := fun h =>
    hnodup.1 (List.mem_append_left _ h)
  have hio : entry ∉ io := hwell.apart List.mem_cons_self
  constructor
  · rw [hnext]
    exact hseg.congr fun other hother =>
      Function.update_of_ne (ne_of_mem_of_not_mem hother hfree) ..
  · exact hwell.free_end
  · rw [hnext]
    exact hwell.io_seg.congr fun other hother =>
      Function.update_of_ne (ne_of_mem_of_not_mem hother hio) ..
  · exact hwell.io_end
  · rw [hprev]
    exact hwell.io_back.congr fun other hother =>
      Function.update_of_ne (ne_of_mem_of_not_mem hother hio) ..
  · rw [hnext, Function.update_self]
  · rw [hprev, Function.update_self]
  · apply List.Perm.trans _ hwell.perm
    exact List.perm_middle

theorem WellLinked.hasRoom_iff (hwell : WellLinked pi free io) :
    HasRoom pi ↔ ∃ after rest, free = pi.freeSeq :: after :: rest := by
  obtain ⟨others, rfl⟩ := List.head?_eq_some_iff.mp hwell.freeSeq_eq
  have hnext := hwell.free_seg.2.head_eq
  constructor
  · rintro ⟨after, hafter, _⟩
    rw [hnext] at hafter
    obtain ⟨rest, rfl⟩ := List.head?_eq_some_iff.mp hafter
    exact ⟨after, rest, rfl⟩
  · rintro ⟨after, rest, h⟩
    cases h
    exact ⟨after, hnext, (hwell.mem_iff after).mp (.inl (by simp))⟩

/-- There is room while two entries are free. -/
theorem WellLinked.hasRoom_iff_length (hwell : WellLinked pi free io) :
    HasRoom pi ↔ io.length + 1 < nrMaxParallelIo := by
  have hlength := hwell.length_eq
  obtain ⟨others, rfl⟩ := List.head?_eq_some_iff.mp hwell.freeSeq_eq
  rw [hwell.hasRoom_iff]
  rw [List.length_cons] at hlength
  constructor
  · rintro ⟨after, rest, h⟩
    obtain rfl := (List.cons.inj h).2
    rw [List.length_cons] at hlength
    omega
  · intro h
    cases others with
    | nil =>
        rw [List.length_nil] at hlength
        omega
    | cons after rest => exact ⟨after, rest, rfl⟩

/-- The first free entry of `pi` has become a request of `pi'`, behind `front`
and in front of `back`. -/
structure Enqueued (worker : Schedule) (fill : ProcEntry → ProcEntry)
    (pi pi' : ProcInfo) (free front back : List ℕ) : Prop where
  linked : WellLinked pi' free (front ++ pi.freeSeq :: back)
  bodies_eq : worker = quiet → bodies pi' =
    Function.update (bodies pi) pi.freeSeq
      (fill (pi.procTable pi.freeSeq)).body
  procIoNsecs_eq : worker = quiet → pi'.procIoNsecs = pi.procIoNsecs

theorem enqueueEntry_full (hfull : ¬ HasRoom pi) (target : ℕ)
    (fill : ProcEntry → ProcEntry) :
    enqueueEntry worker pi target fill = .ok pi := by
  rw [enqueueEntry]
  cases hnext : pi.next pi.freeSeq with
  | none => rfl
  | some after =>
      have hafter : nrMaxParallelIo ≤ after :=
        Nat.not_lt.mp fun hlt => hfull ⟨after, hnext, hlt⟩
      dsimp only
      rw [if_pos hafter]

/-- An enqueue inserts the request into the table `taken`, in which it has been
filled in. -/
theorem enqueueEntry_inserted (hwell : WellLinked pi free io)
    (hroom : HasRoom pi) (worker : Schedule) (target : ℕ)
    (fill : ProcEntry → ProcEntry) :
    ∃ rest front back pi' taken, free = pi.freeSeq :: rest ∧
      io = front ++ back ∧ enqueueEntry worker pi target fill = .ok pi' ∧
      Enqueued worker fill pi pi' rest front back ∧
      due taken = Function.update (due pi) pi.freeSeq
        (fill (pi.procTable pi.freeSeq)).nsecsTarget ∧
      taken.procIoNsecs = pi.procIoNsecs ∧
      Inserted worker target taken pi' front back := by
  obtain ⟨after, rest, rfl⟩ := hwell.hasRoom_iff.mp hroom
  have hnext : pi.next pi.freeSeq = some after := hwell.free_seg.2.head_eq
  have hafter : after < nrMaxParallelIo :=
    (hwell.mem_iff after).mp (.inl (by simp))
  have hdet := hwell.detach (fill (pi.procTable pi.freeSeq))
  obtain ⟨front, back, pi', hsplit, hrun, hlinked, hquiet, hinserted⟩ :=
    insertIoReq_spec worker target hdet
  refine ⟨after :: rest, front, back, pi', _, rfl, hsplit, ?_,
    ⟨hlinked, ?_, ?_⟩, ?_, ?_, hinserted⟩
  · rw [enqueueEntry, hnext]
    dsimp only
    rw [if_neg (Nat.not_le.mpr hafter), nvmevAssert_of hafter, ok_bind, hrun]
  · intro h
    rw [(hquiet h).1]
    exact bodies_setEntry ..
  · intro h
    exact (hquiet h).2
  · exact due_setEntry ..
  · rfl

theorem enqueueEntry_room (hwell : WellLinked pi free io)
    (hroom : HasRoom pi) (worker : Schedule) (target : ℕ)
    (fill : ProcEntry → ProcEntry) :
    ∃ rest front back pi', free = pi.freeSeq :: rest ∧ io = front ++ back ∧
      enqueueEntry worker pi target fill = .ok pi' ∧
      Enqueued worker fill pi pi' rest front back := by
  obtain ⟨rest, front, back, pi', _, hfree, hio, hrun, henqueued, _⟩ :=
    enqueueEntry_inserted hwell hroom worker target fill
  exact ⟨rest, front, back, pi', hfree, hio, hrun, henqueued⟩

/-! ## Reclaiming -/

/-- The requests the scan passes are a prefix of the list; seen without
interruption, all of them are done. -/
theorem reclaimScan_spec (worker : Schedule) (fuel : ℕ) {head : Option ℕ}
    (hseg : Seg pi.next head io none) (hfuel : io.length ≤ fuel) :
    ∃ passed rest marks, io = passed ++ rest ∧
      marks <+: marksOf worker fuel ∧
      reclaimScan worker fuel pi head = .ok (passed, pi.marked marks) ∧
      (worker = quiet → ∀ entry ∈ passed,
        (pi.procTable entry).isCompleted = true ∧
        (pi.procTable entry).isCopied = true ∧
        (pi.procTable entry).nsecsTarget ≤ pi.procIoNsecs) := by
  induction fuel generalizing pi head io with
  | zero =>
      obtain rfl := List.length_eq_zero_iff.mp (Nat.le_zero.mp hfuel)
      obtain rfl : head = none := hseg
      refine ⟨[], [], [], rfl, List.nil_prefix, ?_, by simp⟩
      simp [reclaimScan]
      rfl
  | succ fuel ih =>
      cases io with
      | nil =>
          obtain rfl : head = none := hseg
          exact ⟨[], [], [], rfl, List.nil_prefix, rfl, by simp⟩
      | cons curr io =>
          obtain ⟨rfl, hseg⟩ := hseg
          rw [reclaimScan, marksOf_succ]
          split_ifs with hdone
          · rw [← next_marked (worker fuel)] at hseg
            obtain ⟨passed, rest, marks, rfl, hmarks, hrun, hquiet⟩ :=
              ih hseg (by simpa using hfuel)
            refine ⟨curr :: passed, rest, worker fuel ++ marks, rfl,
              (List.prefix_append_right_inj _).mpr hmarks, ?_, ?_⟩
            · have hnext : (pi.marked (worker fuel)).next curr =
                  ((pi.marked (worker fuel)).procTable curr).next := rfl
              rw [← hnext, hrun, ok_bind, marked_append]
            · rintro rfl entry hentry
              cases hentry with
              | head => exact hdone
              | tail _ hentry => exact hquiet rfl entry hentry
          · exact ⟨[], curr :: io, worker fuel, rfl, List.prefix_append ..,
              rfl, by simp⟩

/-- Splicing a prefix of the requests behind the last free entry. -/
theorem WellLinked.splice {free front rest : List ℕ} {last : ℕ}
    (hwell : WellLinked pi free (front ++ last :: rest))
    (hnextLast : pi'.next last = none)
    (hnextEnd : pi'.next pi.freeSeqEnd = pi.ioSeq)
    (hnextOther : ∀ other, other ≠ last → other ≠ pi.freeSeqEnd →
      pi'.next other = pi.next other)
    (hprevHead : ∀ head, rest.head? = some head → pi'.prev head = none)
    (hprevOther : ∀ other ∈ rest, rest.head? ≠ some other →
      pi'.prev other = pi.prev other)
    (hfreeSeq : pi'.freeSeq = pi.freeSeq) (hfreeSeqEnd : pi'.freeSeqEnd = last)
    (hioSeq : pi'.ioSeq = rest.head?) (hioSeqEnd : pi'.ioSeqEnd = pi.ioSeqEnd) :
    WellLinked pi' (free ++ (front ++ [last])) rest := by
  obtain ⟨others, hfree⟩ := List.getLast?_eq_some_iff.mp hwell.free_end
  have hfreeNodup := (List.nodup_append.mp hwell.nodup).1
  have hioNodup := List.nodup_append.mp (List.nodup_append.mp hwell.nodup).2.1
  have hlastRest := (List.nodup_cons.mp hioNodup.2.1).1
  have hendMem : pi.freeSeqEnd ∈ free := List.mem_of_getLast? hwell.free_end
  have hapart : ∀ {entry}, entry ∈ free → entry ∉ front ++ last :: rest :=
    fun h => hwell.apart h
  have hlastMem : last ∈ front ++ last :: rest := by simp
  obtain ⟨middle, hfront, rfl, hrest⟩ := seg_append.mp hwell.io_seg
  constructor
  · have hcells : free ++ (front ++ [last]) =
        others ++ pi.freeSeqEnd :: (front ++ [last]) := by simp [hfree]
    have hseg := hwell.free_seg
    rw [hfree] at hseg hfreeNodup
    have hdistinct := (List.nodup_append.mp hfreeNodup).2.2
    rw [hfreeSeq, hcells]
    apply hseg.relink
    · intro other hother
      have hmem : other ∈ free := by
        rw [hfree]
        exact List.mem_append_left _ hother
      apply hnextOther other
      · exact (ne_of_mem_of_not_mem hlastMem (hapart hmem)).symm
      · exact hdistinct other hother _ List.mem_cons_self
    · rw [hnextEnd, seg_concat]
      refine ⟨hfront.congr fun other hother => ?_, hnextLast⟩
      apply hnextOther other
      · exact hioNodup.2.2 other hother _ List.mem_cons_self
      · exact ne_of_mem_of_not_mem (List.mem_append_left _ hother)
          (hapart hendMem)
  · rw [hfreeSeqEnd, ← List.append_assoc, List.getLast?_concat]
  · rw [hioSeq, ← hrest.head_eq]
    refine hrest.congr fun other hother => ?_
    apply hnextOther other (ne_of_mem_of_not_mem hother hlastRest)
    exact ne_of_mem_of_not_mem (by simp [hother]) (hapart hendMem)
  · intro hne
    obtain ⟨head, tail, rfl⟩ := List.exists_cons_of_ne_nil hne
    rw [hioSeqEnd, hwell.io_end (by simp)]
    simp [List.getLast?_append, List.getLast?_cons]
  · have hback := (back_append.mp hwell.io_back).2.2
    cases rest with
    | nil => trivial
    | cons head tail =>
        refine ⟨hprevHead head rfl, hback.2.congr fun other hother => ?_⟩
        apply hprevOther other (List.mem_cons_of_mem _ hother)
        rintro ⟨⟩
        exact (List.nodup_cons.mp (List.nodup_cons.mp hioNodup.2.1).2).1 hother
  · have hcells : free ++ (front ++ [last]) ++ rest =
        free ++ (front ++ last :: rest) := by simp
    rw [hcells]
    exact hwell.perm

theorem next_spliceFree (first last : ℕ) :
    (spliceFree pi first last).next = Function.update
      (Function.update pi.next last none) pi.freeSeqEnd (some first) := by
  rw [spliceFree]
  cases hafter : pi.next last with
  | none =>
      exact (next_setNext ..).trans (congrArg (Function.update · _ _)
        ((next_setPrev ..).trans (next_setNext ..)))
  | some head =>
      exact (next_setNext ..).trans (congrArg (Function.update · _ _)
        ((next_setPrev ..).trans ((next_setNext ..).trans
          (congrArg (Function.update · _ _) (next_setPrev ..)))))

theorem prev_spliceFree (first last : ℕ) :
    (spliceFree pi first last).prev = Function.update
      (match pi.next last with
        | some head => Function.update pi.prev head none
        | none => pi.prev) first (some pi.freeSeqEnd) := by
  rw [spliceFree]
  cases hafter : pi.next last with
  | none =>
      exact (prev_setNext ..).trans ((prev_setPrev ..).trans
        (congrArg (Function.update · _ _) (prev_setNext ..)))
  | some head =>
      exact (prev_setNext ..).trans ((prev_setPrev ..).trans
        (congrArg (Function.update · _ _) ((prev_setNext ..).trans
          (prev_setPrev ..))))

theorem bodies_spliceFree (first last : ℕ) :
    bodies (spliceFree pi first last) = bodies pi := by
  rw [spliceFree]
  cases hafter : pi.next last with
  | none =>
      exact (bodies_setNext ..).trans ((bodies_setPrev ..).trans
        (bodies_setNext ..))
  | some head =>
      exact (bodies_setNext ..).trans ((bodies_setPrev ..).trans
        ((bodies_setNext ..).trans (bodies_setPrev ..)))

/-- What else `spliceFree` stores. -/
theorem ends_spliceFree (pi : ProcInfo) (first last : ℕ) :
    (spliceFree pi first last).freeSeq = pi.freeSeq ∧
      (spliceFree pi first last).freeSeqEnd = last ∧
      (spliceFree pi first last).ioSeq = pi.next last ∧
      (spliceFree pi first last).ioSeqEnd = pi.ioSeqEnd ∧
      (spliceFree pi first last).procIoNsecs = pi.procIoNsecs := by
  rw [spliceFree]
  cases pi.next last <;> exact ⟨rfl, rfl, rfl, rfl, rfl⟩

theorem spliceFree_spec {first last : ℕ} {front rest : List ℕ}
    (hwell : WellLinked pi free (front ++ last :: rest))
    (hfirst : pi.ioSeq = some first) :
    WellLinked (spliceFree pi first last) (free ++ (front ++ [last])) rest := by
  obtain ⟨hfreeSeq, hfreeSeqEnd, hioSeq, hioSeqEnd, _⟩ :=
    ends_spliceFree pi first last
  have hafter : pi.next last = rest.head? := hwell.io_seg.next_eq
  have hendMem := List.mem_of_getLast? hwell.free_end
  have hlast : last ≠ pi.freeSeqEnd := fun h =>
    hwell.apart hendMem (by simp [h])
  have hfirstMem : first ∉ rest := by
    have hnodup := List.nodup_append.mp (List.nodup_append.mp hwell.nodup).2.1
    have hhead := hwell.io_seg.head_eq.symm.trans hfirst
    cases front with
    | nil =>
        cases hhead
        exact (List.nodup_cons.mp hnodup.2.1).1
    | cons other front =>
        cases hhead
        exact fun h => hnodup.2.2 _ List.mem_cons_self _
          (List.mem_cons_of_mem _ h) rfl
  apply hwell.splice
  · rw [next_spliceFree, Function.update_of_ne hlast, Function.update_self]
  · rw [next_spliceFree, Function.update_self, hfirst]
  · intro other hother hend
    rw [next_spliceFree, Function.update_of_ne hend,
      Function.update_of_ne hother]
  · intro head hhead
    have hmem := List.mem_of_head? hhead
    rw [prev_spliceFree, hafter, hhead,
      Function.update_of_ne (ne_of_mem_of_not_mem hmem hfirstMem)]
    exact Function.update_self ..
  · intro other hother hhead
    rw [prev_spliceFree,
      Function.update_of_ne (ne_of_mem_of_not_mem hother hfirstMem), hafter]
    cases hrest : rest.head? with
    | none => rfl
    | some head =>
        have hne : other ≠ head := by
          rintro rfl
          exact hhead hrest
        exact Function.update_of_ne hne ..
  · exact hfreeSeq
  · exact hfreeSeqEnd
  · rw [hioSeq, hafter]
  · exact hioSeqEnd

/-- The requests `front` have moved to the end of the free list. -/
structure Reclaimed (worker : Schedule) (pi pi' : ProcInfo)
    (free front rest : List ℕ) : Prop where
  linked : WellLinked pi' (free ++ front) rest
  bodies_eq : worker = quiet → bodies pi' = bodies pi
  procIoNsecs_eq : worker = quiet → pi'.procIoNsecs = pi.procIoNsecs
  done : worker = quiet → ∀ entry ∈ front,
    (pi.procTable entry).isCompleted = true ∧
    (pi.procTable entry).isCopied = true ∧
    (pi.procTable entry).nsecsTarget ≤ pi.procIoNsecs

theorem reclaimCompletedReqs_ticked (hwell : WellLinked pi free io)
    (worker : Schedule) :
    ∃ front rest pi', io = front ++ rest ∧
      reclaimCompletedReqs worker pi = .ok pi' ∧
      Reclaimed worker pi pi' free front rest ∧ Ticked worker pi pi' := by
  obtain ⟨passed, rest, marks, rfl, hmarks, hscan, hdone⟩ :=
    reclaimScan_spec worker nrMaxParallelIo hwell.io_seg
      hwell.io_length_lt.le
  have hmarked := hwell.marked marks
  rw [reclaimCompletedReqs]
  dsimp only
  rw [hscan, ok_bind]
  dsimp only
  obtain rfl | ⟨front, last, rfl⟩ := List.eq_nil_or_concat' passed
  · refine ⟨[], rest, pi.marked marks, rfl, ?_, ⟨?_, ?_, ?_, hdone⟩,
      due_marked marks, marks, hmarks, rfl⟩
    · cases pi.ioSeq <;> rfl
    · simpa using hmarked
    · rintro rfl
      rw [(scheduled_of_initial hmarks).eq_nil]
      rfl
    · rintro rfl
      rw [(scheduled_of_initial hmarks).eq_nil]
      rfl
  · rw [List.append_assoc, List.singleton_append] at hmarked
    obtain ⟨first, hfirst⟩ : ∃ first, pi.ioSeq = some first := by
      rw [hwell.io_seg.head_eq]
      cases front with
      | nil => exact ⟨last, rfl⟩
      | cons first front => exact ⟨first, rfl⟩
    refine ⟨front ++ [last], rest, spliceFree (pi.marked marks) first last,
      rfl, ?_, ⟨spliceFree_spec hmarked ?_, ?_, ?_, hdone⟩,
      (due_eq_of_bodies (bodies_spliceFree first last)).trans
        (due_marked marks), marks, hmarks,
      (ends_spliceFree _ first last).2.2.2.2⟩
    · rw [hfirst, List.getLast?_concat]
    · rw [hmarked.io_seg.head_eq, ← hfirst, hwell.io_seg.head_eq]
      simp
    · rintro rfl
      rw [bodies_spliceFree, (scheduled_of_initial hmarks).eq_nil]
      rfl
    · rintro rfl
      rw [(ends_spliceFree _ first last).2.2.2.2,
        (scheduled_of_initial hmarks).eq_nil]
      rfl

theorem reclaimCompletedReqs_spec (hwell : WellLinked pi free io)
    (worker : Schedule) :
    ∃ front rest pi', io = front ++ rest ∧
      reclaimCompletedReqs worker pi = .ok pi' ∧
      Reclaimed worker pi pi' free front rest := by
  obtain ⟨front, rest, pi', hio, hrun, hreclaimed, _⟩ :=
    reclaimCompletedReqs_ticked hwell worker
  exact ⟨front, rest, pi', hio, hrun, hreclaimed⟩

/-! ## Start -/

theorem seg_range' {next : ℕ → Option ℕ} {top : ℕ}
    (hnext : ∀ i, next i = if i = top - 1 then none else some (i + 1))
    (count start : ℕ) (htop : start + count = top) :
    Seg next (if start < top then some start else none)
      (List.range' start count) none := by
  induction count generalizing start with
  | zero => exact if_neg (by omega)
  | succ count ih =>
      refine ⟨if_pos (by omega), ?_⟩
      have hhead : next start =
          if start + 1 < top then some (start + 1) else none := by
        rw [hnext]
        split_ifs <;> first | rfl | omega
      rw [hhead]
      exact ih (start + 1) (by omega)

theorem nvmevIoProcInit_wellLinked :
    WellLinked nvmevIoProcInit (List.range nrMaxParallelIo) [] := by
  have hseg := @seg_range' nvmevIoProcInit.next nrMaxParallelIo
    (fun _ => rfl) nrMaxParallelIo 0 (Nat.zero_add _)
  have hfree : nvmevIoProcInit.freeSeq = 0 := rfl
  have hend : nvmevIoProcInit.freeSeqEnd = nrMaxParallelIo - 1 := rfl
  rw [if_pos nrMaxParallelIo_pos, ← List.range_eq_range', ← hfree] at hseg
  constructor
  · exact hseg
  · rw [hend, List.getLast?_range, if_neg nrMaxParallelIo_pos.ne']
  · exact rfl
  · exact fun h => absurd rfl h
  · trivial
  · rw [List.append_nil]

/-! ## Runs -/

/-- What happens to a table: an operation of the dispatcher, with what the
worker does in the middle of it, or a store of the worker. -/
inductive TableAction
  | enqueue (worker : Schedule) (req : IoReq)
  | writeback (worker : Schedule) (wb : Writeback)
  | reclaim (worker : Schedule)
  | mark (m : Mark)

def tableStep (pi : ProcInfo) : TableAction → Except Fault ProcInfo
  | .enqueue worker req => enqueueIoReq worker pi req
  | .writeback worker wb => enqueueWritebackIoReq worker pi wb
  | .reclaim worker => reclaimCompletedReqs worker pi
  | .mark m => .ok (pi.mark m)

def tableMachine : Machine ProcInfo TableAction Fault where
  init pi := pi = nvmevIoProcInit
  enabled _ _ := True
  step := tableStep

theorem enqueueEntry_wellLinked (hwell : WellLinked pi free io)
    (worker : Schedule) (target : ℕ) (fill : ProcEntry → ProcEntry) :
    ∃ pi', enqueueEntry worker pi target fill = .ok pi' ∧
      ∃ free io, WellLinked pi' free io := by
  by_cases hroom : HasRoom pi
  · obtain ⟨rest, front, back, pi', _, _, hrun, henqueued⟩ :=
      enqueueEntry_room hwell hroom worker target fill
    exact ⟨pi', hrun, _, _, henqueued.linked⟩
  · exact ⟨pi, enqueueEntry_full hroom target fill, _, _, hwell⟩

theorem wellLinked_inductive :
    Inductive tableMachine fun pi => ∃ free io, WellLinked pi free io where
  init := by
    rintro _ rfl
    exact ⟨_, _, nvmevIoProcInit_wellLinked⟩
  step := by
    rintro pi action ⟨free, io, hwell⟩ _
    cases action with
    | enqueue worker req => exact enqueueEntry_wellLinked hwell worker _ _
    | writeback worker wb => exact enqueueEntry_wellLinked hwell worker _ _
    | reclaim worker =>
        obtain ⟨front, rest, pi', _, hrun, hreclaimed⟩ :=
          reclaimCompletedReqs_spec hwell worker
        exact ⟨pi', hrun, _, _, hreclaimed.linked⟩
    | mark m => exact ⟨pi.mark m, rfl, free, io, hwell.mark m⟩

/-- `free` and `io` are all entries of the table, each of them once; `free` is
what the free list runs through, and `io` what the list of requests runs
through in both directions. -/
structure TwoLists (pi : ProcInfo) (free io : List ℕ) : Prop where
  free_seg : Seg pi.next (some pi.freeSeq) free none
  free_end : free.getLast? = some pi.freeSeqEnd
  free_ne_nil : free ≠ []
  io_seg : Seg pi.next pi.ioSeq io none
  io_end : pi.ioSeq ≠ none → io.getLast? = pi.ioSeqEnd
  prev_head : ∀ first, pi.ioSeq = some first → pi.prev first = none
  prev_inverse : ∀ right ∈ io, ∀ left,
    pi.prev right = some left ↔ left ∈ io ∧ pi.next left = some right
  nodup : (free ++ io).Nodup
  cover : ∀ entry, entry ∈ free ∨ entry ∈ io ↔ entry < nrMaxParallelIo

theorem WellLinked.twoLists (hwell : WellLinked pi free io) :
    TwoLists pi free io where
  free_seg := hwell.free_seg
  free_end := hwell.free_end
  free_ne_nil := hwell.free_ne_nil
  io_seg := hwell.io_seg
  io_end := by
    intro hne
    refine (hwell.io_end ?_).symm
    rintro rfl
    exact hne hwell.io_seg
  prev_head := by
    intro first hfirst
    obtain ⟨rest, rfl⟩ := List.head?_eq_some_iff.mp
      (hwell.io_seg.head_eq.symm.trans hfirst)
    exact hwell.io_back.1
  prev_inverse := fun right hright left =>
    prev_eq_iff_next_eq hwell.io_seg hwell.io_back hright
  nodup := hwell.nodup
  cover := hwell.mem_iff

theorem TwoLists.unique {free' io' : List ℕ} (hlists : TwoLists pi free io)
    (hlists' : TwoLists pi free' io') : free = free' ∧ io = io' :=
  ⟨hlists.free_seg.unique hlists'.free_seg,
    hlists.io_seg.unique hlists'.io_seg⟩

/-- In every reachable table the two lists are well formed, and no operation
on it hits an assertion or runs on without end. -/
theorem twoLists_reachable (hreach : Reachable tableMachine pi) :
    (∃ free io, TwoLists pi free io) ∧
      ∀ action, ∃ pi', tableStep pi action = .ok pi' := by
  obtain ⟨free, io, hwell⟩ := wellLinked_inductive.reachable hreach
  exact ⟨⟨free, io, hwell.twoLists⟩, fun action =>
    wellLinked_inductive.progress hreach trivial⟩

/-- A request with a target time. -/
def requestAt (nsecsTarget : ℕ) : TableAction :=
  .enqueue quiet
    { sqid := 1, cqid := 1, sqEntry := 0, commandId := 0, nsecsStart := 0
      nsecsEnqueue := 0
      ret := { status := 0, nsecsTarget := nsecsTarget, result := 0 } }

/-- Requests at the tail, in the middle and at the head of the list; the head
is reclaimed, and then a writeback comes in while the worker copies. -/
def sixActions : List TableAction :=
  [requestAt 10, requestAt 30, requestAt 20, requestAt 5,
    .reclaim fun _ => [.procIoNsecs 7, .copied 3, .completed 3],
    .writeback (fun _ => [.copied 0])
      { sqid := 1, nsecsStart := 0, nsecsEnqueue := 0, nsecsTarget := 25
        writeBuffer := 1, buffsToRelease := 2 }]

instance : ∀ pi action, Decidable (tableMachine.enabled pi action) :=
  fun _ _ => isTrue trivial

/-- The links of a table that the four requests in flight run through. -/
def linksOf (pi : ProcInfo) : List (Option ℕ) × ℕ :=
  ([pi.ioSeq, pi.next 0, pi.next 2, pi.next 4, pi.next 1], pi.freeSeqEnd)

theorem twoLists_reachable_six :
    ∃ pi, tableMachine.run sixActions nvmevIoProcInit = some pi ∧
      (∃ free, TwoLists pi free [0, 2, 4, 1] ∧ free.getLast? = some 3) ∧
      ∀ action, ∃ pi', tableStep pi action = .ok pi' := by
  have hlinks : (tableMachine.run sixActions nvmevIoProcInit).map linksOf =
      some ([some 0, some 2, some 4, some 1, none], 3) := by decide +kernel
  obtain ⟨pi, hrun, hlinks⟩ := Option.map_eq_some_iff.mp hlinks
  have hreach : Reachable tableMachine pi :=
    Reachable.run (.start rfl) hrun
  obtain ⟨⟨free, io, hlists⟩, hsteps⟩ := twoLists_reachable hreach
  simp only [linksOf, Prod.mk.injEq, List.cons.injEq] at hlinks
  obtain ⟨⟨hfirst, h0, h2, h4, h1, -⟩, hend⟩ := hlinks
  have hseg : Seg pi.next pi.ioSeq [0, 2, 4, 1] none :=
    ⟨hfirst, h0, h2, h4, h1⟩
  obtain rfl := hlists.io_seg.unique hseg
  exact ⟨pi, hrun, ⟨free, hlists, hend ▸ hlists.free_end⟩, hsteps⟩

end NvmeVirt.Lists
