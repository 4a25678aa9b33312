import NvmeVirt.Io.Posting

/-!
# A pass of the worker posts everything that is due

That a request is posted at most once says nothing about requests that are
never posted.  An accepted request that has not been posted is in the list of
requests, in one entry of its own.  So a pass of the worker through that list,
at times when all of it is due, leaves every accepted request posted.
-/

namespace NvmeVirt.Drain

open NvmeVirt.Kernel
open NvmeVirt.Lists
open NvmeVirt.Posting
open NvmeVirt.ProcTable
open NvmeVirt.Transition
open NvmeVirt.Worker

variable {build : Build} {s s' : IoState} {fresh recl io : List ℕ}

/-! ## No request gets lost -/

/-- The number of the request in `slot`. -/
def heldId (s : IoState) (slot : ℕ) : Option ℕ := (s.holder slot).map Holder.id

/-- Every accepted request has been posted or is in the list. -/
def Accounted (s : IoState) (io : List ℕ) : Prop :=
  ∀ id < s.accepted, some id ∈ postedIds s ∨ ∃ slot ∈ io, heldId s slot = some id

theorem accounted_start (out : Outputs) : Accounted (.start out) [] :=
  fun _ h => absurd h (Nat.not_lt_zero _)

theorem heldId_accept_self (pi' : ProcInfo) (request : Request) :
    heldId (s.accept pi' request) s.pi.freeSeq = some s.accepted := by
  rw [heldId, accept_holder_self]
  rfl

theorem heldId_accept_of_ne (pi' : ProcInfo) (request : Request) {slot : ℕ}
    (hslot : slot ≠ s.pi.freeSeq) :
    heldId (s.accept pi' request) slot = heldId s slot := by
  rw [heldId, accept_holder_of_ne _ _ hslot, heldId]

/-- The slot of a new request was free, so no waiting request loses its own. -/
theorem Accounted.accept {front back : List ℕ} (pi' : ProcInfo)
    (request : Request) (haccounted : Accounted s (front ++ back))
    (hslot : s.pi.freeSeq ∉ front ++ back) :
    Accounted (s.accept pi' request) (front ++ s.pi.freeSeq :: back) := by
  intro id hid
  obtain hlt | rfl := Nat.lt_succ_iff_lt_or_eq.mp hid
  · refine (haccounted id hlt).imp_right ?_
    rintro ⟨slot, hmem, hheld⟩
    have hne : slot ≠ s.pi.freeSeq := ne_of_mem_of_not_mem hmem hslot
    refine ⟨slot, ?_, (heldId_accept_of_ne pi' request hne).trans hheld⟩
    simp only [List.mem_append, List.mem_cons] at hmem ⊢
    tauto
  · exact .inr ⟨s.pi.freeSeq, by simp, heldId_accept_self pi' request⟩

/-- What a reclaim takes out of the list has been posted. -/
theorem Accounted.reclaim {front rest : List ℕ} {pi' : ProcInfo}
    (htracked : Tracked s fresh recl (front ++ rest))
    (haccounted : Accounted s (front ++ rest))
    (hreclaimed : Reclaimed quiet s.pi pi' (fresh ++ recl) front rest) :
    Accounted { s with pi := pi' } rest := by
  intro id hid
  obtain hposted | ⟨slot, hmem, hheld⟩ := haccounted id hid
  · exact .inl hposted
  · obtain hfront | hrest := List.mem_append.mp hmem
    · obtain ⟨h, hh, -, hiff⟩ := htracked.held slot hmem
      rw [heldId, hh, Option.map_some, Option.some_inj] at hheld
      rw [← hheld]
      exact .inl (hiff.mp (hreclaimed.done rfl slot hfront).1)
    · exact .inr ⟨slot, hrest, hheld⟩

theorem heldId_visited (curr currNsecs : ℕ) (answer : Option (ℕ × ℕ))
    (slot : ℕ) :
    heldId (s.visited build curr currNsecs answer) slot = heldId s slot :=
  visited_holder_id build s curr currNsecs answer slot

theorem mem_postedIds_visited {curr currNsecs : ℕ}
    {answer : Option (ℕ × ℕ)} {id : Option ℕ} (hid : id ∈ postedIds s) :
    id ∈ postedIds (s.visited build curr currNsecs answer) := by
  rw [visited_postedIds]
  split_ifs
  · exact List.mem_append_left _ hid
  · exact hid

theorem Accounted.visit (haccounted : Accounted s io) (curr currNsecs : ℕ)
    (answer : Option (ℕ × ℕ)) :
    Accounted (s.visited build curr currNsecs answer) io := by
  intro id hid
  obtain hposted | ⟨slot, hmem, hheld⟩ := haccounted id hid
  · exact .inl (mem_postedIds_visited hposted)
  · exact .inr ⟨slot, hmem, (heldId_visited ..).trans hheld⟩

theorem accounted_inductive (build : Build) :
    Inductive (ioMachine build) fun s =>
      ∃ fresh recl io, Tracked s fresh recl io ∧ Accounted s io where
  init := by
    rintro _ ⟨out, rfl⟩
    exact ⟨_, _, _, tracked_start out, accounted_start out⟩
  step := by
    rintro s action ⟨fresh, recl, io, htracked, haccounted⟩ henabled
    obtain ⟨s', hrun, hmoved⟩ := htracked.moves build henabled
    refine ⟨s', hrun, ?_⟩
    cases hmoved with
    | @accepted request pi' rest front back hfree hio henqueued =>
        obtain ⟨fresh', recl', htracked'⟩ :=
          htracked.accept hfree hio henqueued
        subst hio
        have hslot : s.pi.freeSeq ∉ front ++ back :=
          htracked.linked.apart (by simp [hfree])
        exact ⟨_, _, _, htracked', haccounted.accept pi' request hslot⟩
    | dropped => exact ⟨_, _, _, htracked, haccounted⟩
    | reclaimed hio hreclaimed =>
        subst hio
        exact ⟨_, _, _, htracked.reclaim hreclaimed,
          haccounted.reclaim htracked hreclaimed⟩
    | restarted => exact ⟨_, _, _, htracked.restart, haccounted⟩
    | @visited curr currNsecs answer hcursor =>
        exact ⟨_, _, _, htracked.visit hcursor currNsecs answer,
          haccounted.visit curr currNsecs answer⟩

/-! ## A pass -/

/-- A pass of the worker: it starts over, and visits entry after entry with
the clock readings and the answers of `perform_io_cmd` in `visits`. -/
def pass (visits : List (ℕ × Option (ℕ × ℕ))) : List IoAction :=
  .restart :: visits.map fun v => .visit v.1 v.2

/-- The visits of the entries `rest` lie ahead, and all other requests are
completed. -/
structure Passing (s : IoState) (fresh recl io rest : List ℕ) : Prop where
  tracked : Tracked s fresh recl io
  cursor : s.cursor = rest.head?
  suffix : rest <:+ io
  done : ∀ slot ∈ io, slot ∉ rest →
    (s.pi.procTable slot).isCompleted = true

/-- One visit of an entry that is due. -/
theorem Passing.visit {slot : ℕ} {rest : List ℕ}
    (hpassing : Passing s fresh recl io (slot :: rest)) {currNsecs : ℕ}
    (hdue : (s.pi.procTable slot).nsecsTarget ≤ currNsecs)
    (answer : Option (ℕ × ℕ)) :
    Passing (s.visited build slot currNsecs answer) fresh recl io rest := by
  have hcursor : s.cursor = some slot := hpassing.cursor
  obtain ⟨front, rfl⟩ := hpassing.suffix
  refine ⟨hpassing.tracked.visit hcursor currNsecs answer, ?_, ?_, ?_⟩
  · rw [visited_cursor]
    exact hpassing.tracked.linked.io_seg.next_eq
  · exact ⟨front ++ [slot], by simp⟩
  · intro other hmem hrest
    have hbody := congrFun
      (visited_bodies build s slot currNsecs answer) other
    by_cases hother : other = slot
    · subst hother
      rw [Function.update_self] at hbody
      refine (congrArg ProcEntry.isCompleted hbody).trans ?_
      exact (afterVisit_isCompleted ..).mpr (.inr hdue)
    · rw [Function.update_of_ne hother] at hbody
      refine (congrArg ProcEntry.isCompleted hbody).trans ?_
      exact hpassing.done other hmem (by simp [hother, hrest])

theorem visited_nsecsTarget (curr currNsecs : ℕ) (answer : Option (ℕ × ℕ))
    (slot : ℕ) :
    ((s.visited build curr currNsecs answer).pi.procTable slot).nsecsTarget =
      (s.pi.procTable slot).nsecsTarget := by
  have hbody := congrFun (visited_bodies build s curr currNsecs answer) slot
  refine (congrArg ProcEntry.nsecsTarget hbody).trans ?_
  by_cases hslot : slot = curr
  · subst hslot
    rw [Function.update_self]
    change (afterVisit build answer currNsecs _).nsecsTarget = _
    rw [afterVisit]
    split_ifs <;> simp
  · rw [Function.update_of_ne hslot]
    rfl

/-- The visits of a pass, one for each entry that lies ahead. -/
theorem Passing.visits {rest : List ℕ}
    (hpassing : Passing s fresh recl io rest)
    {visits : List (ℕ × Option (ℕ × ℕ))} (hlength : visits.length = rest.length)
    (hdue : ∀ v ∈ visits, ∀ slot ∈ rest,
      (s.pi.procTable slot).nsecsTarget ≤ v.1) :
    ∃ s', (ioMachine build).run (visits.map fun v => .visit v.1 v.2) s =
        some s' ∧
      Passing s' fresh recl io [] ∧ s'.accepted = s.accepted := by
  induction visits generalizing s rest with
  | nil =>
      obtain rfl := List.length_eq_zero_iff.mp hlength.symm
      exact ⟨s, rfl, hpassing, rfl⟩
  | cons v visits ih =>
      cases rest with
      | nil => cases hlength
      | cons slot rest =>
          obtain ⟨currNsecs, answer⟩ := v
          have hcursor : s.cursor = some slot := hpassing.cursor
          have hnext : Passing (s.visited build slot currNsecs answer) fresh
              recl io rest :=
            hpassing.visit (hdue _ List.mem_cons_self slot
              List.mem_cons_self) answer
          have hlater : ∀ v ∈ visits, ∀ other ∈ rest,
              ((s.visited build slot currNsecs answer).pi.procTable
                other).nsecsTarget ≤ v.1 := by
            intro v hv other hother
            rw [visited_nsecsTarget]
            exact hdue v (List.mem_cons_of_mem _ hv) other
              (List.mem_cons_of_mem _ hother)
          obtain ⟨s', hrun, hend, haccepted⟩ :=
            ih hnext (Nat.succ.inj hlength) hlater
          refine ⟨s', ?_, hend, haccepted⟩
          have henabled : (ioMachine build).enabled s
              (.visit currNsecs answer) := by
            change s.cursor ≠ none
            simp [hcursor]
          have hstep : ioStep build s (.visit currNsecs answer) =
              .ok (s.visited build slot currNsecs answer) := by
            rw [ioStep, hcursor]
          exact (Machine.run_cons_of henabled hstep _).trans hrun

/-! ## Every accepted request is posted once -/

theorem count_postedIds_le (htracked : Tracked s fresh recl io) (id : ℕ) :
    (postedIds s).count (some id) ≤ 1 :=
  List.nodup_iff_count_le_one.mp htracked.posted_nodup (some id)

/-- At the end of a pass the postings are the accepted requests. -/
theorem Passing.count_eq (hpassing : Passing s fresh recl io [])
    (haccounted : Accounted s io) (id : ℕ) :
    (postedIds s).count (some id) = if id < s.accepted then 1 else 0 := by
  have htracked := hpassing.tracked
  split_ifs with hid
  · have hmem : some id ∈ postedIds s := by
      obtain hposted | ⟨slot, hslot, hheld⟩ := haccounted id hid
      · exact hposted
      · obtain ⟨h, hh, -, hiff⟩ := htracked.held slot hslot
        rw [heldId, hh, Option.map_some, Option.some_inj] at hheld
        rw [← hheld]
        exact hiff.mp (hpassing.done slot hslot List.not_mem_nil)
    have hpos := List.count_pos_iff.mpr hmem
    have hle := count_postedIds_le htracked id
    omega
  · refine List.count_eq_zero.mpr fun hmem => ?_
    obtain ⟨n, hn, heq⟩ := htracked.posted_lt _ hmem
    cases heq
    exact hid hn

/-- A request that is accepted and not posted waits in exactly one entry of
the list, which is not completed. -/
theorem waits_in_one_slot (htracked : Tracked s fresh recl io)
    (haccounted : Accounted s io) {id : ℕ} (hid : id < s.accepted)
    (hopen : some id ∉ postedIds s) :
    ∃! slot, slot ∈ io ∧ heldId s slot = some id ∧
      (s.pi.procTable slot).isCompleted = false := by
  obtain ⟨slot, hslot, hheld⟩ := (haccounted id hid).resolve_left hopen
  refine ⟨slot, ⟨hslot, hheld, ?_⟩, ?_⟩
  · obtain ⟨h, hh, -, hiff⟩ := htracked.held slot hslot
    rw [heldId, hh, Option.map_some, Option.some_inj] at hheld
    rw [hheld] at hiff
    exact Bool.eq_false_iff.mpr fun hdone => hopen (hiff.mp hdone)
  · rintro other ⟨hother, hotherHeld, -⟩
    exact htracked.distinct other hother slot hslot
      (hotherHeld.trans hheld.symm)

/-- In every reachable state an accepted request that has not been posted
waits in one open entry of the list.  When the worker is at the end of the list
and starts over, one visit for each entry, none before an entry's target, posts
every accepted request that has not been posted: after the pass each has been
posted exactly once. -/
theorem pass_posts_each_once (hreach : Reachable (ioMachine build) s) :
    ∃ free io, TwoLists s.pi free io ∧
      (∀ id < s.accepted, some id ∉ postedIds s →
        ∃! slot, slot ∈ io ∧ heldId s slot = some id ∧
          (s.pi.procTable slot).isCompleted = false) ∧
      (s.cursor = none →
        ∀ visits : List (ℕ × Option (ℕ × ℕ)), visits.length = io.length →
          (∀ v ∈ visits, ∀ slot ∈ io,
            (s.pi.procTable slot).nsecsTarget ≤ v.1) →
          ∃ s', (ioMachine build).run (pass visits) s = some s' ∧
            s'.cursor = none ∧ s'.accepted = s.accepted ∧
            ∀ id, (postedIds s').count (some id) =
              if id < s.accepted then 1 else 0) := by
  obtain ⟨fresh, recl, io, htracked, haccounted⟩ :=
    (accounted_inductive build).reachable hreach
  refine ⟨_, io, htracked.linked.twoLists,
    fun id hid hopen => waits_in_one_slot htracked haccounted hid hopen, ?_⟩
  intro hidle visits hlength hdue
  have hstart : Passing { s with cursor := s.pi.ioSeq } fresh recl io io :=
    { tracked := htracked.restart
      cursor := htracked.linked.io_seg.head_eq
      suffix := List.suffix_refl io
      done := fun slot hmem hnot => absurd hmem hnot }
  obtain ⟨s', hvisits, hend, haccepted⟩ :=
    hstart.visits hlength hdue
  have henabled : (ioMachine build).enabled s .restart := hidle
  have hrun : (ioMachine build).run (pass visits) s = some s' :=
    (Machine.run_cons_of henabled rfl _).trans hvisits
  refine ⟨s', hrun, hend.cursor, haccepted, fun id => ?_⟩
  obtain ⟨_, _, io', htracked', haccounted'⟩ :=
    (accounted_inductive build).reachable (hreach.run hrun)
  obtain ⟨-, rfl⟩ :=
    htracked'.linked.twoLists.unique hend.tracked.linked.twoLists
  rw [hend.count_eq haccounted' id, haccepted]

/-- A read that is due at once. -/
def dueRead : IoReq :=
  { sqid := 1, cqid := 1, sqEntry := 0, commandId := 7, nsecsStart := 0
    nsecsEnqueue := 0, ret := { status := 0, nsecsTarget := 1, result := 0 } }

/-- A worker that has been given one request posts it in one visit. -/
theorem pass_posts_each_once_one :
    ∃ s s', s.accepted = 1 ∧ postedIds s = [] ∧
      (ioMachine ⟨false, false⟩).run (pass [(1, none)]) s = some s' ∧
      (postedIds s').count (some 0) = 1 := by
  have hwell := nvmevIoProcInit_wellLinked
  have hroom : HasRoom nvmevIoProcInit := by
    rw [hwell.hasRoom_iff_length, nrMaxParallelIo]
    decide
  obtain ⟨rest, front, back, pi', -, hio, hrun, henqueued⟩ :=
    enqueue_room hwell hroom (.io dueRead)
  obtain ⟨rfl, rfl⟩ := List.append_eq_nil_iff.mp hio.symm
  let s : IoState := IoState.start (.initial 1024)
  have hstep : ioStep ⟨false, false⟩ s (.enqueue (.io dueRead)) =
      .ok (s.accept pi' (.io dueRead)) := by
    have hroom' : HasRoom s.pi := hroom
    have hrun' : (Request.io dueRead).enqueue s.pi = .ok pi' := hrun
    rw [ioStep, hrun', ok_bind, if_pos hroom']
  have hreach : Reachable (ioMachine ⟨false, false⟩)
      (s.accept pi' (.io dueRead)) := by
    have henabled : (ioMachine ⟨false, false⟩).enabled s
        (.enqueue (.io dueRead)) := trivial
    exact Reachable.next (.start ⟨_, rfl⟩) henabled hstep
  obtain ⟨free, io, hlists, -, hpass⟩ := pass_posts_each_once hreach
  obtain ⟨-, rfl⟩ := hlists.unique henqueued.linked.twoLists
  have hbody := congrFun (henqueued.bodies_eq rfl) nvmevIoProcInit.freeSeq
  rw [Function.update_self] at hbody
  obtain ⟨s', hrun', -, -, hcount⟩ := hpass rfl [(1, none)] rfl <| by
    intro v hv slot hslot
    obtain rfl := List.mem_singleton.mp hv
    obtain rfl := List.mem_singleton.mp hslot
    exact (congrArg ProcEntry.nsecsTarget hbody).le
  exact ⟨_, s', rfl, rfl, hrun', hcount 0⟩

end NvmeVirt.Drain
