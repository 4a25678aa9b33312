import NvmeVirt.Core.DueOrder
import NvmeVirt.Io.Worker

/-!
# The order of the requests

`__enqueue_io_req` and `enqueue_writeback_io_req` look for the place of a
request from the end of the list.  They pass what is due after the request,
but nothing that is due already, so the list is sorted only as far as
`proc_io_nsecs` does not reach.  The worker moves that clock on between two
insertions and also in the middle of one.
-/

namespace NvmeVirt.IoOrder

open NvmeVirt.Kernel
open NvmeVirt.Transition
open NvmeVirt.ProcTable
open NvmeVirt.Lists
open NvmeVirt.Worker
open NvmeVirt.DueOrder

/-! ## The clock -/

/-- `proc_io_nsecs` after a store of the worker. -/
def clockAfter (now : ℕ) : Mark → ℕ
  | .procIoNsecs time => time
  | _ => now

/-- None of the stores turns the clock back. -/
def Rising : ℕ → List Mark → Prop
  | _, [] => True
  | now, m :: marks => now ≤ clockAfter now m ∧ Rising (clockAfter now m) marks

section

variable {pi pi' : ProcInfo} {now : ℕ} {marks : List Mark} {worker : Schedule}

theorem procIoNsecs_mark (pi : ProcInfo) (m : Mark) :
    (pi.mark m).procIoNsecs = clockAfter pi.procIoNsecs m := by
  cases m <;> rfl

theorem Rising.of_initial {all : List Mark} (hall : Rising now all)
    (hinit : marks <+: all) : Rising now marks := by
  induction marks generalizing now all with
  | nil => trivial
  | cons m marks ih =>
      obtain ⟨rest, rfl⟩ := hinit
      exact ⟨hall.1, ih hall.2 (List.prefix_append ..)⟩

theorem Rising.le (hrising : Rising pi.procIoNsecs marks) :
    pi.procIoNsecs ≤ (pi.marked marks).procIoNsecs := by
  induction marks generalizing pi with
  | nil => exact Nat.le_refl _
  | cons m marks ih =>
      obtain ⟨hle, hrest⟩ := hrising
      rw [← procIoNsecs_mark] at hle hrest
      exact hle.trans (ih hrest)

/-- The clock has gone on during an operation. -/
theorem clock_le (hticked : Ticked worker pi pi')
    (hrising : Rising pi.procIoNsecs (marksOf worker nrMaxParallelIo)) :
    pi.procIoNsecs ≤ pi'.procIoNsecs := by
  obtain ⟨marks, hinit, hclock⟩ := hticked.clock_eq
  rw [hclock]
  exact (hrising.of_initial hinit).le

end

/-! ## Runs -/

/-- A table with the history of its requests: how many were accepted, and as
which one each entry was last. -/
structure ArrivalState where
  pi : ProcInfo
  accepted : ℕ
  arrival : ℕ → ℕ

/-- The table takes a request. -/
def Accepts (pi : ProcInfo) : TableAction → Prop
  | .enqueue _ _ => HasRoom pi
  | .writeback _ _ => HasRoom pi
  | .reclaim _ => False
  | .mark _ => False

instance (pi : ProcInfo) (action : TableAction) :
    Decidable (Accepts pi action) :=
  match action with
  | .enqueue _ _ => inferInstanceAs (Decidable (HasRoom pi))
  | .writeback _ _ => inferInstanceAs (Decidable (HasRoom pi))
  | .reclaim _ => isFalse id
  | .mark _ => isFalse id

/-- The history of an action after which the table is `pi`. -/
def ArrivalState.after (s : ArrivalState) (action : TableAction)
    (pi : ProcInfo) : ArrivalState :=
  if Accepts s.pi action then
    { pi := pi, accepted := s.accepted + 1
      arrival := Function.update s.arrival s.pi.freeSeq s.accepted }
  else { s with pi := pi }

def arrivalStep (s : ArrivalState) (action : TableAction) :
    Except Fault ArrivalState := do
  let pi ← tableStep s.pi action
  .ok (s.after action pi)

/-- The worker does not turn its clock back, also not while the dispatcher is
in a loop. -/
def NeverDecreases (now : ℕ) : TableAction → Prop
  | .enqueue worker _ => Rising now (marksOf worker nrMaxParallelIo)
  | .writeback worker _ => Rising now (marksOf worker nrMaxParallelIo)
  | .reclaim worker => Rising now (marksOf worker nrMaxParallelIo)
  | .mark m => Rising now [m]

def arrivalMachine : Machine ArrivalState TableAction Fault where
  init s := s = { pi := nvmevIoProcInit, accepted := 0, arrival := fun _ => 0 }
  enabled s action := NeverDecreases s.pi.procIoNsecs action
  step := arrivalStep

/-- `io` is the list of requests, and in order. -/
structure Ordered (s : ArrivalState) (free io : List ℕ) : Prop where
  linked : WellLinked s.pi free io
  arrived : ∀ entry ∈ io, s.arrival entry < s.accepted
  ordered : InDueOrder s.pi.procIoNsecs (due s.pi) s.arrival io

section

variable {s : ArrivalState} {pi' : ProcInfo} {free io : List ℕ}
variable {worker : Schedule}

/-- An operation that takes no request, and leaves `rest` of them. -/
theorem Ordered.ticked {free' rest : List ℕ} (hordered : Ordered s free io)
    (hlinked : WellLinked pi' free' rest) (hrest : rest.Sublist io)
    (hdue : due pi' = due s.pi) (hclock : s.pi.procIoNsecs ≤ pi'.procIoNsecs) :
    Ordered { s with pi := pi' } free' rest where
  linked := hlinked
  arrived := fun entry hentry => hordered.arrived entry (hrest.subset hentry)
  ordered := by
    rw [hdue]
    exact (hordered.ordered.later hclock).sublist hrest

/-- A request that is taken. -/
theorem Ordered.inserted {taken : ProcInfo} {target : ℕ}
    {rest front back : List ℕ} (hordered : Ordered s free (front ++ back))
    (hfree : free = s.pi.freeSeq :: rest)
    (hlinked : WellLinked pi' rest (front ++ s.pi.freeSeq :: back))
    (hdue : due taken = Function.update (due s.pi) s.pi.freeSeq target)
    (hinserted : Inserted worker target taken pi' front back)
    (hclock : s.pi.procIoNsecs ≤ pi'.procIoNsecs) :
    Ordered
      { pi := pi', accepted := s.accepted + 1
        arrival := Function.update s.arrival s.pi.freeSeq s.accepted }
      rest (front ++ s.pi.freeSeq :: back) := by
  have hne : ∀ entry ∈ front ++ back, entry ≠ s.pi.freeSeq := by
    rintro entry hentry rfl
    exact hordered.linked.apart (hfree ▸ List.mem_cons_self) hentry
  have hdue' : due pi' = Function.update (due s.pi) s.pi.freeSeq target :=
    hinserted.due_eq.trans hdue
  have hnew : due pi' s.pi.freeSeq = target := by
    rw [hdue', Function.update_self]
  constructor
  · exact hlinked
  · intro entry hentry
    dsimp only
    by_cases heq : entry = s.pi.freeSeq
    · rw [heq, Function.update_self]
      exact Nat.lt_add_one _
    · have hold : entry ∈ front ++ back := by
        simpa [heq] using hentry
      rw [Function.update_of_ne heq]
      exact Nat.lt_add_right 1 (hordered.arrived entry hold)
  · have hkept : InDueOrder pi'.procIoNsecs (due pi')
        (Function.update s.arrival s.pi.freeSeq s.accepted) (front ++ back) := by
      refine (hordered.ordered.later hclock).congr ?_ ?_
      · intro entry hentry
        rw [hdue', Function.update_of_ne (hne entry hentry)]
      · intro entry hentry
        exact Function.update_of_ne (hne entry hentry) ..
    refine hkept.insert ?_ ?_ ?_
    · rw [hnew, hinserted.due_eq]
      exact hinserted.front_le
    · rw [hnew, hinserted.due_eq]
      exact hinserted.back_gt
    · intro entry hentry
      rw [Function.update_self, Function.update_of_ne (hne entry hentry)]
      exact hordered.arrived entry hentry

/-- Both ways to enqueue keep the order. -/
theorem Ordered.enqueue (hordered : Ordered s free io)
    (hrising : Rising s.pi.procIoNsecs (marksOf worker nrMaxParallelIo))
    (action : TableAction) (haccepts : Accepts s.pi action ↔ HasRoom s.pi)
    {target : ℕ} (fill : ProcEntry → ProcEntry)
    (hfill : ∀ pe, (fill pe).nsecsTarget = target) :
    ∃ pi', enqueueEntry worker s.pi target fill = .ok pi' ∧
      ∃ free io, Ordered (s.after action pi') free io := by
  by_cases hroom : HasRoom s.pi
  · obtain ⟨rest, front, back, pi', taken, hfree, rfl, hrun, henqueued, hdue,
      htaken, hinserted⟩ :=
      enqueueEntry_inserted hordered.linked hroom worker target fill
    rw [hfill] at hdue
    rw [← htaken] at hrising
    have hclock := clock_le hinserted.toTicked hrising
    rw [htaken] at hclock
    refine ⟨pi', hrun, rest, front ++ s.pi.freeSeq :: back, ?_⟩
    rw [ArrivalState.after, if_pos (haccepts.mpr hroom)]
    exact hordered.inserted hfree henqueued.linked hdue hinserted hclock
  · refine ⟨s.pi, enqueueEntry_full hroom target fill, free, io, ?_⟩
    rw [ArrivalState.after, if_neg fun h => hroom (haccepts.mp h)]
    exact hordered

theorem ordered_inductive :
    Inductive arrivalMachine fun s => ∃ free io, Ordered s free io where
  init := by
    rintro _ rfl
    exact ⟨_, _, nvmevIoProcInit_wellLinked, by simp, List.Pairwise.nil⟩
  step := by
    rintro s action ⟨free, io, hordered⟩ henabled
    cases action with
    | enqueue worker req =>
        obtain ⟨pi', hrun, hafter⟩ := hordered.enqueue henabled
          (.enqueue worker req) Iff.rfl req.fill fun _ => rfl
        exact ⟨_, congrArg (· >>= _) hrun, hafter⟩
    | writeback worker wb =>
        obtain ⟨pi', hrun, hafter⟩ := hordered.enqueue henabled
          (.writeback worker wb) Iff.rfl wb.fill fun _ => rfl
        exact ⟨_, congrArg (· >>= _) hrun, hafter⟩
    | reclaim worker =>
        obtain ⟨front, rest, pi', rfl, hrun, hreclaimed, hticked⟩ :=
          reclaimCompletedReqs_ticked hordered.linked worker
        exact ⟨_, congrArg (· >>= _) hrun, _, _,
          hordered.ticked hreclaimed.linked (List.sublist_append_right ..)
            hticked.due_eq (clock_le hticked henabled)⟩
    | mark m =>
        exact ⟨_, rfl, free, io,
          hordered.ticked (hordered.linked.mark m) (List.Sublist.refl _)
            (due_mark m) henabled.le⟩

/-- In every run whose clock is never turned back: what stands in front of a
request is due not after it, or due already, and of two requests that are due
at one time in the future the first to arrive stands in front. -/
theorem requests_in_due_order (hreach : Reachable arrivalMachine s)
    (hlists : TwoLists s.pi free io) :
    io.Pairwise fun left right =>
      due s.pi left ≤ max (due s.pi right) s.pi.procIoNsecs ∧
        (due s.pi left = due s.pi right →
          s.pi.procIoNsecs < due s.pi left →
            s.arrival left < s.arrival right) := by
  obtain ⟨free', io', hordered⟩ := ordered_inductive.reachable hreach
  obtain ⟨-, rfl⟩ := hlists.unique hordered.linked.twoLists
  exact hordered.ordered

/-- A request that is due at time 7. -/
def dueAtSeven : IoReq :=
  { sqid := 1, cqid := 1, sqEntry := 0, commandId := 0, nsecsStart := 0
    nsecsEnqueue := 0, ret := { status := 0, nsecsTarget := 7, result := 0 } }

theorem rising_quiet (now fuel : ℕ) : Rising now (marksOf quiet fuel) := by
  rw [(scheduled_of_initial (List.prefix_refl (marksOf quiet fuel))).eq_nil]
  trivial

/-- The table fills up with requests that are due at one time. -/
theorem exists_reachable (count : ℕ) (hcount : count < nrMaxParallelIo) :
    ∃ s free io, Reachable arrivalMachine s ∧ WellLinked s.pi free io ∧
      io.length = count := by
  induction count with
  | zero => exact ⟨_, _, _, .start rfl, nvmevIoProcInit_wellLinked, rfl⟩
  | succ count ih =>
      obtain ⟨s, free, io, hreach, hwell, hlength⟩ := ih (by omega)
      have hroom : HasRoom s.pi :=
        hwell.hasRoom_iff_length.mpr (hlength ▸ hcount)
      obtain ⟨rest, front, back, pi', hfree, rfl, hrun, henqueued⟩ :=
        enqueueEntry_room hwell hroom quiet 7 dueAtSeven.fill
      have hstep : arrivalStep s (.enqueue quiet dueAtSeven) =
          .ok (s.after (.enqueue quiet dueAtSeven) pi') :=
        congrArg (· >>= _) hrun
      have henabled : arrivalMachine.enabled s (.enqueue quiet dueAtSeven) :=
        rising_quiet ..
      have haccepts : Accepts s.pi (.enqueue quiet dueAtSeven) := hroom
      refine ⟨_, rest, front ++ s.pi.freeSeq :: back,
        hreach.next henabled hstep, ?_, ?_⟩
      · rw [ArrivalState.after, if_pos haccepts]
        exact henqueued.linked
      · rw [List.length_append, List.length_cons, ← Nat.add_assoc,
          ← List.length_append, hlength]

theorem requests_in_due_order_two : ∃ s : ArrivalState, ∃ io : List ℕ,
    io.length = 2 ∧ io.Pairwise fun left right =>
      due s.pi left ≤ max (due s.pi right) s.pi.procIoNsecs ∧
        (due s.pi left = due s.pi right →
          s.pi.procIoNsecs < due s.pi left →
            s.arrival left < s.arrival right) := by
  have htwo : 2 < nrMaxParallelIo := by
    rw [nrMaxParallelIo]
    decide
  obtain ⟨s, free, io, hreach, hwell, hlength⟩ := exists_reachable 2 htwo
  exact ⟨s, io, hlength, requests_in_due_order hreach hwell.twoLists⟩

/-! ## Visits -/

theorem reachable_mark (hreach : Reachable arrivalMachine s) (m : Mark)
    (hclock : s.pi.procIoNsecs ≤ clockAfter s.pi.procIoNsecs m) :
    Reachable arrivalMachine { s with pi := s.pi.mark m } := by
  have henabled : arrivalMachine.enabled s (.mark m) := ⟨hclock, trivial⟩
  exact hreach.next henabled rfl

theorem reachable_copyData (hreach : Reachable arrivalMachine s)
    (build : Build) (answer : Option (ℕ × ℕ)) (curr : ℕ) :
    Reachable arrivalMachine
      { s with pi := copyData build answer s.pi curr } := by
  rw [copyData]
  split_ifs
  · exact hreach
  · cases performed build answer (s.pi.procTable curr) with
    | none => exact reachable_mark hreach (.copied curr) (Nat.le_refl _)
    | some result =>
        exact reachable_mark (reachable_mark hreach
          (.performed curr result.1 result.2) (Nat.le_refl _)) (.copied curr)
          (Nat.le_refl _)

/-- A visit of the worker is a run of its own: it sets the clock, and marks
entries. -/
theorem reachable_visit (hreach : Reachable arrivalMachine s) (build : Build)
    (out : Outputs) (curr : ℕ) {currNsecs : ℕ} (answer : Option (ℕ × ℕ))
    (hclock : s.pi.procIoNsecs ≤ currNsecs) :
    Reachable arrivalMachine
      { s with pi := (visit build s.pi out curr currNsecs answer).pi } := by
  have hstart := reachable_mark hreach (.procIoNsecs currNsecs) hclock
  have hcopied := reachable_copyData hstart build answer curr
  rw [visit]
  dsimp only
  split_ifs
  · exact hstart
  · exact reachable_mark hcopied (.completed curr) (Nat.le_refl _)
  · exact hcopied

end

end NvmeVirt.IoOrder
