import NvmeVirt.Io.Worker

/-!
# A request is posted at most once

A reclaimed entry goes behind all free entries, so the entries that were never
used stay in front, and a reclaimed one is only reused when none of them is
left.  The links from a reclaimed entry lead to reclaimed entries, and the
worker's cursor never meets an entry that was never used.  Reclaimed entries
are completed, so a visit passes them without effect; an entry in the list of
requests is completed exactly when its own request has been posted.
-/

namespace NvmeVirt.Posting

open NvmeVirt.Kernel
open NvmeVirt.Transition
open NvmeVirt.LinkedArray
open NvmeVirt.ProcTable
open NvmeVirt.Lists
open NvmeVirt.Timing
open NvmeVirt.Worker

/-! ## What a visit does -/

section Visit

variable (build : Build) (answer : Option (ℕ × ℕ))

/-- An entry once its data are copied. -/
def copied (pe : ProcEntry) : ProcEntry :=
  if pe.isCopied then pe
  else match performed build answer pe with
    | some (result0, status) =>
        { pe with result0 := result0, status := status, isCopied := true }
    | none => { pe with isCopied := true }

/-- An entry after a visit at the time `currNsecs`. -/
def afterVisit (currNsecs : ℕ) (pe : ProcEntry) : ProcEntry :=
  if pe.isCompleted then pe
  else if pe.nsecsTarget ≤ currNsecs then
    { copied build answer pe with isCompleted := true }
  else copied build answer pe

theorem copyData_eq (pi : ProcInfo) (curr : ℕ) :
    copyData build answer pi curr =
      pi.setEntry curr (copied build answer (pi.procTable curr)) := by
  rw [copyData, copied]
  dsimp only
  split_ifs with hcopied
  · simp [ProcInfo.setEntry]
  · cases performed build answer (pi.procTable curr) with
    | none => rfl
    | some result => simp [ProcInfo.mark, ProcInfo.setEntry]

@[simp]
theorem copied_nsecsTarget (pe : ProcEntry) :
    (copied build answer pe).nsecsTarget = pe.nsecsTarget := by
  rw [copied]
  split_ifs
  · rfl
  · cases performed build answer pe <;> rfl

@[simp]
theorem copied_next (pe : ProcEntry) :
    (copied build answer pe).next = pe.next := by
  rw [copied]
  split_ifs
  · rfl
  · cases performed build answer pe <;> rfl

@[simp]
theorem copied_prev (pe : ProcEntry) :
    (copied build answer pe).prev = pe.prev := by
  rw [copied]
  split_ifs
  · rfl
  · cases performed build answer pe <;> rfl

@[simp]
theorem copied_isCompleted (pe : ProcEntry) :
    (copied build answer pe).isCompleted = pe.isCompleted := by
  rw [copied]
  split_ifs
  · rfl
  · cases performed build answer pe <;> rfl

theorem afterVisit_next (currNsecs : ℕ) (pe : ProcEntry) :
    (afterVisit build answer currNsecs pe).next = pe.next := by
  rw [afterVisit]
  split_ifs <;> simp

theorem afterVisit_prev (currNsecs : ℕ) (pe : ProcEntry) :
    (afterVisit build answer currNsecs pe).prev = pe.prev := by
  rw [afterVisit]
  split_ifs <;> simp

/-- A visit completes an entry when it is due. -/
theorem afterVisit_isCompleted (currNsecs : ℕ) (pe : ProcEntry) :
    (afterVisit build answer currNsecs pe).isCompleted = true ↔
      pe.isCompleted = true ∨ pe.nsecsTarget ≤ currNsecs := by
  by_cases hdone : pe.isCompleted = true
  · simp [afterVisit, hdone]
  · by_cases hdue : pe.nsecsTarget ≤ currNsecs <;>
      simp [afterVisit, hdone, hdue]

/-- What a visit posts for an entry. -/
def postOf (out : Outputs) (currNsecs : ℕ) (pe : ProcEntry) : Option Post :=
  if pe.isCompleted then none
  else if pe.nsecsTarget ≤ currNsecs then
    some (complete out (copied build answer pe)).1
  else none

theorem postOf_isSome (out : Outputs) (currNsecs : ℕ) (pe : ProcEntry) :
    (postOf build answer out currNsecs pe).isSome = true ↔
      pe.isCompleted = false ∧ pe.nsecsTarget ≤ currNsecs := by
  by_cases hdone : pe.isCompleted = true
  · simp [postOf, hdone]
  · by_cases hdue : pe.nsecsTarget ≤ currNsecs <;>
      simp [postOf, hdone, hdue]

theorem visit_eq (pi : ProcInfo) (out : Outputs) (curr currNsecs : ℕ) :
    ∃ out', visit build pi out curr currNsecs answer =
      { pi := { pi.setEntry curr (afterVisit build answer currNsecs
          (pi.procTable curr)) with procIoNsecs := currNsecs }
        out := out'
        post := postOf build answer out currNsecs (pi.procTable curr)
        cursor := pi.next curr } := by
  by_cases hdone : (pi.procTable curr).isCompleted = true
  · refine ⟨out, ?_⟩
    simp [visit, afterVisit, postOf, hdone, ProcInfo.setEntry,
      ProcInfo.mark, ProcInfo.next]
  · by_cases hdue : (pi.procTable curr).nsecsTarget ≤ currNsecs
    · refine ⟨(complete out
        (copied build answer (pi.procTable curr))).2, ?_⟩
      simp [visit, afterVisit, postOf, copyData_eq, hdone, hdue,
        ProcInfo.setEntry, ProcInfo.mark, ProcInfo.next]
    · refine ⟨out, ?_⟩
      simp [visit, afterVisit, postOf, copyData_eq, hdone, hdue,
        ProcInfo.setEntry, ProcInfo.mark, ProcInfo.next]

end Visit

/-! ## What a posting writes -/

/-- A completion queue with `cqe` in its next entry. -/
def CompletionQueue.put (cq : CompletionQueue) (cqe : Completion) :
    CompletionQueue :=
  let wraps := cq.cqHead + 1 = cq.queueSize
  { cq with
    entries := Function.update cq.entries cq.cqHead cqe
    cqHead := if wraps then 0 else cq.cqHead + 1
    phase := if wraps then !cq.phase else cq.phase
    interruptReady := true }

/-- A posting is one entry of a completion queue, or one release of a
buffer. -/
def written (out : Outputs) : Post → Outputs
  | .completion cqid cqe =>
      { out with
        cqes := Function.update out.cqes cqid
          (CompletionQueue.put (out.cqes cqid) cqe) }
  | .release writeBuffer buffs =>
      { out with
        buffers := Function.update out.buffers writeBuffer
          (bufferRelease (out.buffers writeBuffer) buffs) }

theorem complete_written (out : Outputs) (pe : ProcEntry) :
    (complete out pe).2 = written out (complete out pe).1 := by
  rw [complete]
  split_ifs <;> rfl

/-! ## The invariant -/

/-- The requests posted so far. -/
def postedIds (s : IoState) : List (Option ℕ) := s.posted.map Posting.id

/-- `fresh` are the free entries never used, `recl` the reclaimed ones and `io`
the requests. -/
structure Tracked (s : IoState) (fresh recl io : List ℕ) : Prop where
  linked : WellLinked s.pi (fresh ++ recl) io
  recl_done : ∀ e ∈ recl, (bodies s.pi e).isCompleted = true
  cursor : ∀ e, s.cursor = some e → e ∈ recl ∨ e ∈ io
  held : ∀ e ∈ io, ∃ h, s.holder e = some h ∧ h.id < s.accepted ∧
    ((bodies s.pi e).isCompleted = true ↔ some h.id ∈ postedIds s)
  distinct : ∀ e ∈ io, ∀ e' ∈ io,
    (s.holder e).map Holder.id = (s.holder e').map Holder.id → e = e'
  posted_lt : ∀ id ∈ postedIds s, ∃ n < s.accepted, id = some n
  posted_nodup : (postedIds s).Nodup

variable {build : Build} {s s' : IoState} {fresh recl io : List ℕ}

theorem tracked_start (out : Outputs) :
    Tracked (.start out) (List.range nrMaxParallelIo) [] [] where
  linked := by
    rw [List.append_nil]
    exact nvmevIoProcInit_wellLinked
  recl_done := by simp
  cursor := fun _ h => by cases h
  held := by simp
  distinct := by simp
  posted_lt := fun _ h => by cases h
  posted_nodup := List.nodup_nil

theorem enqueue_full {pi : ProcInfo} (hfull : ¬ HasRoom pi)
    (request : Request) : request.enqueue pi = .ok pi := by
  cases request <;> exact enqueueEntry_full hfull _ _

theorem enqueue_room {pi : ProcInfo} {free io : List ℕ}
    (hwell : WellLinked pi free io) (hroom : HasRoom pi)
    (request : Request) :
    ∃ rest front back pi', free = pi.freeSeq :: rest ∧ io = front ++ back ∧
      request.enqueue pi = .ok pi' ∧
      Enqueued quiet request.fill pi pi' rest front back := by
  cases request <;> exact enqueueEntry_room hwell hroom _ _ _

theorem fill_isCompleted (request : Request) (pe : ProcEntry) :
    (request.fill pe).isCompleted = false := by
  cases request <;> rfl

/-! ## Steps keep the invariant -/

/-- The entry taken for a request is the first one never used, or the one
reclaimed longest ago. -/
theorem split_free {slot : ℕ} {rest : List ℕ}
    (h : fresh ++ recl = slot :: rest) :
    ∃ fresh' recl', rest = fresh' ++ recl' ∧
      (∀ e ∈ recl, e = slot ∨ e ∈ recl') ∧ (∀ e ∈ recl', e ∈ recl) := by
  cases fresh with
  | nil =>
      cases h
      exact ⟨[], rest, rfl, fun e he => List.mem_cons.mp he,
        fun e he => List.mem_cons_of_mem _ he⟩
  | cons first fresh =>
      cases h
      exact ⟨fresh, recl, rfl, fun e he => .inr he, fun e he => he⟩

theorem accept_holder_self (pi' : ProcInfo) (request : Request) :
    (s.accept pi' request).holder s.pi.freeSeq = some
      { id := s.accepted, request := request
        leftover0 := (s.pi.procTable s.pi.freeSeq).result0
        leftover1 := (s.pi.procTable s.pi.freeSeq).result1
        performed := none } := Function.update_self ..

theorem accept_holder_of_ne (pi' : ProcInfo) (request : Request) {e : ℕ}
    (he : e ≠ s.pi.freeSeq) :
    (s.accept pi' request).holder e = s.holder e :=
  Function.update_of_ne he ..

theorem Tracked.accept (htracked : Tracked s fresh recl io)
    {request : Request} {pi' : ProcInfo} {rest front back : List ℕ}
    (hfree : fresh ++ recl = s.pi.freeSeq :: rest) (hio : io = front ++ back)
    (henqueued : Enqueued quiet request.fill s.pi pi' rest front back) :
    ∃ fresh' recl', Tracked (s.accept pi' request) fresh' recl'
      (front ++ s.pi.freeSeq :: back) := by
  obtain ⟨fresh', recl', rfl, hrecl, hrecl'⟩ := split_free hfree
  have hwell := htracked.linked
  have hslotFree : s.pi.freeSeq ∈ fresh ++ recl := by simp [hfree]
  have hslotIo : s.pi.freeSeq ∉ io := hwell.apart hslotFree
  have hslotRecl : s.pi.freeSeq ∉ recl' := by
    have hnodup := (List.nodup_append.mp hwell.nodup).1
    rw [hfree] at hnodup
    exact fun h => (List.nodup_cons.mp hnodup).1 (List.mem_append_right _ h)
  have hmem : ∀ e, e ∈ front ++ s.pi.freeSeq :: back ↔
      e = s.pi.freeSeq ∨ e ∈ io := by
    intro e
    simp only [hio, List.mem_append, List.mem_cons]
    tauto
  have hbody : ∀ e, e ≠ s.pi.freeSeq → bodies pi' e = bodies s.pi e := by
    intro e he
    rw [henqueued.bodies_eq rfl, Function.update_of_ne he]
  have hholder : ∀ e, e ≠ s.pi.freeSeq →
      (s.accept pi' request).holder e = s.holder e := fun e he =>
    accept_holder_of_ne pi' request he
  have hlt : ∀ id ∈ postedIds s, id ≠ some s.accepted := by
    intro id hid heq
    obtain ⟨n, hn, rfl⟩ := htracked.posted_lt id hid
    cases heq
    exact lt_irrefl _ hn
  refine ⟨fresh', recl', henqueued.linked, ?_, ?_, ?_, ?_, ?_, ?_⟩
  · intro e he
    have hne : e ≠ s.pi.freeSeq := ne_of_mem_of_not_mem he hslotRecl
    exact (congrArg ProcEntry.isCompleted (hbody e hne)).trans
      (htracked.recl_done e (hrecl' e he))
  · intro e he
    rw [hmem]
    cases htracked.cursor e he with
    | inl h =>
        cases hrecl e h with
        | inl h => exact .inr (.inl h)
        | inr h => exact .inl h
    | inr h => exact .inr (.inr h)
  · intro e he
    by_cases hslot : e = s.pi.freeSeq
    · -- the new request: not completed, and its number is a new one
      subst hslot
      refine ⟨_, accept_holder_self pi' request, Nat.lt_succ_self _, ?_⟩
      have hfalse : (bodies pi' s.pi.freeSeq).isCompleted = false := by
        rw [henqueued.bodies_eq rfl, Function.update_self]
        exact fill_isCompleted request _
      constructor
      · intro h
        exact absurd (hfalse.symm.trans h) Bool.false_ne_true
      · intro h
        exact absurd rfl (hlt _ h)
    · obtain ⟨h, hh, hid, hposted⟩ :=
        htracked.held e (((hmem e).mp he).resolve_left hslot)
      refine ⟨h, (hholder e hslot).trans hh, Nat.lt_succ_of_lt hid, ?_⟩
      have hsame := congrArg ProcEntry.isCompleted (hbody e hslot)
      exact Iff.trans (by rw [← hsame]; rfl) hposted
  · -- a request that was there before has a smaller number
    have hold : ∀ e ∈ io, ((s.accept pi' request).holder e).map Holder.id ≠
        some s.accepted := by
      intro e he
      obtain ⟨h, hh, hid, _⟩ := htracked.held e he
      rw [hholder e (ne_of_mem_of_not_mem he hslotIo), hh]
      intro heq
      exact hid.ne (Option.some_inj.mp heq)
    have hnew : ((s.accept pi' request).holder s.pi.freeSeq).map Holder.id =
        some s.accepted := by
      rw [accept_holder_self]
      rfl
    intro e he e' he' heq
    cases (hmem e).mp he with
    | inl h =>
        subst h
        refine ((hmem e').mp he').elim Eq.symm fun h => ?_
        exact absurd (heq.symm.trans hnew) (hold e' h)
    | inr h =>
        cases (hmem e').mp he' with
        | inl h' =>
            subst h'
            exact absurd (heq.trans hnew) (hold e h)
        | inr h' =>
            rw [hholder e (ne_of_mem_of_not_mem h hslotIo),
              hholder e' (ne_of_mem_of_not_mem h' hslotIo)] at heq
            exact htracked.distinct e h e' h' heq
  · intro id hid
    obtain ⟨n, hn, h⟩ := htracked.posted_lt id hid
    exact ⟨n, Nat.lt_succ_of_lt hn, h⟩
  · exact htracked.posted_nodup

theorem Tracked.reclaim {front rest : List ℕ} {pi' : ProcInfo}
    (htracked : Tracked s fresh recl (front ++ rest))
    (hreclaimed : Reclaimed quiet s.pi pi' (fresh ++ recl) front rest) :
    Tracked { s with pi := pi' } fresh (recl ++ front) rest := by
  have hbody := hreclaimed.bodies_eq rfl
  constructor
  · rw [← List.append_assoc]
    exact hreclaimed.linked
  · intro e he
    dsimp only
    rw [hbody]
    cases List.mem_append.mp he with
    | inl h => exact htracked.recl_done e h
    | inr h => exact (hreclaimed.done rfl e h).1
  · intro e he
    cases htracked.cursor e he with
    | inl h => exact .inl (List.mem_append_left _ h)
    | inr h =>
        cases List.mem_append.mp h with
        | inl h => exact .inl (List.mem_append_right _ h)
        | inr h => exact .inr h
  · intro e he
    obtain ⟨h, hh, hid, hposted⟩ :=
      htracked.held e (List.mem_append_right _ he)
    refine ⟨h, hh, hid, ?_⟩
    dsimp only
    rw [hbody]
    exact hposted
  · intro e he e' he'
    exact htracked.distinct e (List.mem_append_right _ he) e'
      (List.mem_append_right _ he')
  · exact htracked.posted_lt
  · exact htracked.posted_nodup

theorem Tracked.restart (htracked : Tracked s fresh recl io) :
    Tracked { s with cursor := s.pi.ioSeq } fresh recl io := by
  refine { htracked with cursor := ?_ }
  intro e he
  have hhead := htracked.linked.io_seg.head_eq
  exact .inr (List.mem_of_head? (hhead.symm.trans he))

section VisitStep

variable (build s) (curr currNsecs : ℕ) (answer : Option (ℕ × ℕ))

theorem visited_pi : (s.visited build curr currNsecs answer).pi =
    { s.pi.setEntry curr (afterVisit build answer currNsecs
        (s.pi.procTable curr)) with procIoNsecs := currNsecs } := by
  obtain ⟨out', hvisit⟩ := visit_eq build answer s.pi s.out curr currNsecs
  rw [IoState.visited, hvisit]

theorem visited_cursor : (s.visited build curr currNsecs answer).cursor =
    s.pi.next curr := by
  obtain ⟨out', hvisit⟩ := visit_eq build answer s.pi s.out curr currNsecs
  rw [IoState.visited, hvisit]

theorem visited_posted : (s.visited build curr currNsecs answer).posted =
    s.posted ++ (postOf build answer s.out currNsecs
      (s.pi.procTable curr)).toList.map fun post =>
        { slot := curr, holder := s.holderAfter build curr answer
          post := post } := by
  obtain ⟨out', hvisit⟩ := visit_eq build answer s.pi s.out curr currNsecs
  rw [IoState.visited, hvisit]

/-- A visit writes what it posts, and nothing else. -/
theorem visited_out : (s.visited build curr currNsecs answer).out =
    (postOf build answer s.out currNsecs
      (s.pi.procTable curr)).toList.foldl written s.out := by
  rw [IoState.visited]
  dsimp only
  by_cases hdone : (s.pi.procTable curr).isCompleted = true
  · simp [visit, postOf, hdone, ProcInfo.mark]
  · by_cases hdue : (s.pi.procTable curr).nsecsTarget ≤ currNsecs
    · simp [visit, postOf, copyData_eq, hdone, hdue, ProcInfo.setEntry,
        ProcInfo.mark, complete_written]
    · simp [visit, postOf, copyData_eq, hdone, hdue, ProcInfo.setEntry,
        ProcInfo.mark]

theorem visited_bodies : bodies (s.visited build curr currNsecs answer).pi =
    Function.update (bodies s.pi) curr
      (afterVisit build answer currNsecs (s.pi.procTable curr)).body := by
  rw [visited_pi]
  exact bodies_setEntry ..

theorem visited_linked {free : List ℕ} (hwell : WellLinked s.pi free io) :
    WellLinked (s.visited build curr currNsecs answer).pi free io := by
  rw [visited_pi]
  apply hwell.congr
  · refine (next_setEntry ..).trans ?_
    rw [afterVisit_next]
    exact Function.update_eq_self curr s.pi.next
  · refine (prev_setEntry ..).trans ?_
    rw [afterVisit_prev]
    exact Function.update_eq_self curr s.pi.prev
  all_goals rfl

theorem holderAfter_id : (s.holderAfter build curr answer).map Holder.id =
    (s.holder curr).map Holder.id := by
  rw [IoState.holderAfter]
  split_ifs
  · rfl
  · rw [Option.map_map]
    apply congrArg (Option.map · (s.holder curr))
    funext h
    cases performed build answer (s.pi.procTable curr) <;> rfl

theorem visited_holder_self :
    (s.visited build curr currNsecs answer).holder curr =
      s.holderAfter build curr answer := Function.update_self ..

theorem visited_holder_of_ne {e : ℕ} (he : e ≠ curr) :
    (s.visited build curr currNsecs answer).holder e = s.holder e :=
  Function.update_of_ne he ..

theorem visited_holder_id (e : ℕ) :
    ((s.visited build curr currNsecs answer).holder e).map Holder.id =
      (s.holder e).map Holder.id := by
  by_cases he : e = curr
  · subst he
    rw [visited_holder_self, holderAfter_id]
  · rw [visited_holder_of_ne _ _ _ _ _ he]

/-- A visit posts for its entry when that is due and not completed. -/
theorem visited_postedIds :
    postedIds (s.visited build curr currNsecs answer) =
      if (s.pi.procTable curr).isCompleted = false ∧
          (s.pi.procTable curr).nsecsTarget ≤ currNsecs then
        postedIds s ++ [(s.holder curr).map Holder.id]
      else postedIds s := by
  rw [postedIds, visited_posted]
  split_ifs with hdue
  · obtain ⟨post, hpost⟩ := Option.isSome_iff_exists.mp
      ((postOf_isSome build answer s.out currNsecs _).mpr hdue)
    rw [hpost, Option.toList_some, List.map_singleton, List.map_append,
      List.map_singleton, ← holderAfter_id build s curr answer]
    rfl
  · have hnone : postOf build answer s.out currNsecs
        (s.pi.procTable curr) = none := by
      rw [← Option.not_isSome_iff_eq_none, postOf_isSome]
      exact hdue
    rw [hnone, Option.toList_none, List.map_nil, List.append_nil]
    rfl

end VisitStep

/-- The cursor reaches open entries only in the list of requests. -/
theorem Tracked.cursor_open (htracked : Tracked s fresh recl io) {curr : ℕ}
    (hcursor : s.cursor = some curr)
    (hopen : (s.pi.procTable curr).isCompleted = false) :
    curr ∈ io ∧ ∃ h, s.holder curr = some h ∧ h.id < s.accepted ∧
      some h.id ∉ postedIds s := by
  have hio : curr ∈ io := by
    refine (htracked.cursor curr hcursor).resolve_left fun h => ?_
    exact absurd (hopen.symm.trans (htracked.recl_done curr h))
      Bool.false_ne_true
  obtain ⟨h, hh, hid, hposted⟩ := htracked.held curr hio
  refine ⟨hio, h, hh, hid, fun hmem => ?_⟩
  exact absurd (hopen.symm.trans (hposted.mpr hmem)) Bool.false_ne_true

theorem Tracked.visit (htracked : Tracked s fresh recl io) {curr : ℕ}
    (hcursor : s.cursor = some curr) (currNsecs : ℕ)
    (answer : Option (ℕ × ℕ)) :
    Tracked (s.visited build curr currNsecs answer) fresh recl io := by
  have hplace := htracked.cursor curr hcursor
  have hwell := htracked.linked
  have hids := visited_postedIds build s curr currNsecs answer
  have hbodies := visited_bodies build s curr currNsecs answer
  have hbody : ∀ e, e ≠ curr →
      bodies (s.visited build curr currNsecs answer).pi e =
        bodies s.pi e := by
    intro e he
    rw [hbodies, Function.update_of_ne he]
  constructor
  · exact visited_linked build s curr currNsecs answer hwell
  · intro e he
    by_cases hcurr : e = curr
    · subst hcurr
      rw [hbodies, Function.update_self]
      exact (afterVisit_isCompleted ..).mpr (.inl (htracked.recl_done e he))
    · rw [hbody e hcurr]
      exact htracked.recl_done e he
  · intro e he
    rw [visited_cursor] at he
    cases hplace with
    | inl h =>
        obtain ⟨front, rest, rfl⟩ := List.append_of_mem h
        have hseg := hwell.free_seg
        rw [← List.append_assoc] at hseg
        rw [hseg.next_eq] at he
        exact .inl (by simp [List.mem_of_head? he])
    | inr h => exact .inr (hwell.io_seg.next_mem h he)
  · intro e he
    obtain ⟨h, hh, hid, hposted⟩ := htracked.held e he
    have hsame := visited_holder_id build s curr currNsecs answer e
    rw [hh, Option.map_some, Option.map_eq_some_iff] at hsame
    obtain ⟨h', hh', hid'⟩ := hsame
    refine ⟨h', hh', hid'.symm ▸ hid, ?_⟩
    rw [hid', hids]
    by_cases hcurr : e = curr
    · subst hcurr
      have hdone := afterVisit_isCompleted build answer currNsecs
        (s.pi.procTable e)
      rw [hbodies, Function.update_self]
      refine hdone.trans ?_
      split_ifs with hdue
      · simp [hdue, hh]
      · rw [← hposted]
        constructor
        · rintro (h | h)
          · exact h
          · by_contra hopen
            exact hdue ⟨Bool.eq_false_iff.mpr hopen, h⟩
        · exact fun h => .inl h
    · rw [hbody e hcurr, hposted]
      split_ifs with hdue
      · -- another request than the one of `e` was posted
        obtain ⟨hcurrIo, _⟩ := htracked.cursor_open hcursor hdue.1
        have hne : (s.holder curr).map Holder.id ≠ some h.id := by
          intro heq
          refine hcurr (htracked.distinct e he curr hcurrIo ?_)
          rw [hh, heq]
          rfl
        simp [hne.symm]
      · rfl
  · intro e he e' he' heq
    rw [visited_holder_id, visited_holder_id] at heq
    exact htracked.distinct e he e' he' heq
  · intro id hid
    rw [hids] at hid
    split_ifs at hid with hdue
    · cases List.mem_append.mp hid with
      | inl hid => exact htracked.posted_lt id hid
      | inr hid =>
          obtain ⟨_, h, hh, hlt, _⟩ :=
            htracked.cursor_open hcursor hdue.1
          rw [hh] at hid
          exact ⟨h.id, hlt, List.mem_singleton.mp hid⟩
    · exact htracked.posted_lt id hid
  · rw [hids]
    split_ifs with hdue
    · obtain ⟨_, h, hh, _, hnew⟩ := htracked.cursor_open hcursor hdue.1
      rw [hh]
      rw [Option.map_some, ← List.concat_eq_append]
      exact htracked.posted_nodup.concat hnew
    · exact htracked.posted_nodup

/-! ## Every run -/

/-- What a step can do. -/
inductive Moved (build : Build) (s : IoState) (fresh recl io : List ℕ) :
    IoAction → IoState → Prop
  | accepted {request : Request} {pi' : ProcInfo} {rest front back : List ℕ}
      (hfree : fresh ++ recl = s.pi.freeSeq :: rest) (hio : io = front ++ back)
      (henqueued : Enqueued quiet request.fill s.pi pi' rest front back) :
      Moved build s fresh recl io (.enqueue request) (s.accept pi' request)
  | dropped {request : Request} :
      Moved build s fresh recl io (.enqueue request) s
  | reclaimed {pi' : ProcInfo} {front rest : List ℕ} (hio : io = front ++ rest)
      (hreclaimed : Reclaimed quiet s.pi pi' (fresh ++ recl) front rest) :
      Moved build s fresh recl io .reclaim { s with pi := pi' }
  | restarted :
      Moved build s fresh recl io .restart { s with cursor := s.pi.ioSeq }
  | visited {curr currNsecs : ℕ} {answer : Option (ℕ × ℕ)}
      (hcursor : s.cursor = some curr) :
      Moved build s fresh recl io (.visit currNsecs answer)
        (s.visited build curr currNsecs answer)

theorem Tracked.moves (htracked : Tracked s fresh recl io) (build : Build)
    {action : IoAction} (henabled : Enabled s action) :
    ∃ s', ioStep build s action = .ok s' ∧
      Moved build s fresh recl io action s' := by
  cases action with
  | enqueue request =>
      by_cases hroom : HasRoom s.pi
      · obtain ⟨rest, front, back, pi', hfree, hio, hrun, henqueued⟩ :=
          enqueue_room htracked.linked hroom request
        refine ⟨s.accept pi' request, ?_, .accepted hfree hio henqueued⟩
        rw [ioStep, hrun, ok_bind, if_pos hroom]
      · refine ⟨s, ?_, .dropped⟩
        rw [ioStep, enqueue_full hroom, ok_bind, if_neg hroom]
  | reclaim =>
      obtain ⟨front, rest, pi', hio, hrun, hreclaimed⟩ :=
        reclaimCompletedReqs_spec htracked.linked quiet
      refine ⟨{ s with pi := pi' }, ?_, .reclaimed hio hreclaimed⟩
      rw [ioStep, hrun, ok_bind]
  | restart => exact ⟨_, rfl, .restarted⟩
  | visit currNsecs answer =>
      obtain ⟨curr, hcurr⟩ := Option.ne_none_iff_exists'.mp henabled
      exact ⟨_, by rw [ioStep, hcurr], .visited hcurr⟩

/-- The requests after a step: those before it, and perhaps one more. -/
theorem Tracked.moved (htracked : Tracked s fresh recl io) {action : IoAction}
    (hmoved : Moved build s fresh recl io action s') :
    ∃ fresh' recl' io', Tracked s' fresh' recl' io' := by
  cases hmoved with
  | accepted hfree hio henqueued =>
      obtain ⟨fresh', recl', h⟩ := htracked.accept hfree hio henqueued
      exact ⟨_, _, _, h⟩
  | dropped => exact ⟨_, _, _, htracked⟩
  | reclaimed hio hreclaimed =>
      subst hio
      exact ⟨_, _, _, htracked.reclaim hreclaimed⟩
  | restarted => exact ⟨_, _, _, htracked.restart⟩
  | visited hcursor => exact ⟨_, _, _, htracked.visit hcursor _ _⟩

/-- `slot` holds an accepted request that has not been posted. -/
def HoldsOpen (s : IoState) (slot : ℕ) : Prop :=
  (∃ free io, TwoLists s.pi free io ∧ slot ∈ io) ∧
  (s.pi.procTable slot).isCompleted = false ∧
  ∃ h, s.holder slot = some h ∧ h.id < s.accepted ∧
    some h.id ∉ postedIds s

/-- `slot` holds an accepted request that has been posted. -/
def HoldsPosted (s : IoState) (slot : ℕ) : Prop :=
  ∃ h, s.holder slot = some h ∧ h.id < s.accepted ∧ some h.id ∈ postedIds s

/-- A visit writes nothing, or posts for the request its entry holds. -/
theorem Tracked.visit_posts (htracked : Tracked s fresh recl io)
    (build : Build) {curr : ℕ} (hcursor : s.cursor = some curr) (currNsecs : ℕ)
    (answer : Option (ℕ × ℕ)) :
    ((s.visited build curr currNsecs answer).posted = s.posted ∧
      (s.visited build curr currNsecs answer).out = s.out) ∨
    ∃ posting h, posting.slot = curr ∧ HoldsOpen s curr ∧
      s.holder curr = some h ∧ posting.id = some h.id ∧
      (s.visited build curr currNsecs answer).posted =
        s.posted ++ [posting] ∧
      (s.visited build curr currNsecs answer).out =
        written s.out posting.post := by
  rw [visited_posted, visited_out]
  cases hpost : postOf build answer s.out currNsecs
      (s.pi.procTable curr) with
  | none => exact .inl ⟨List.append_nil _, rfl⟩
  | some post =>
      right
      have hdue := (postOf_isSome build answer s.out currNsecs
        (s.pi.procTable curr)).mp (by rw [hpost]; rfl)
      obtain ⟨hio, h, hh, hid, hnew⟩ := htracked.cursor_open hcursor hdue.1
      have hopen : HoldsOpen s curr :=
        ⟨⟨_, io, htracked.linked.twoLists, hio⟩, hdue.1, h, hh, hid, hnew⟩
      refine ⟨{ slot := curr, holder := s.holderAfter build curr answer
                post := post }, h, rfl, hopen, hh, ?_, rfl, rfl⟩
      rw [Posting.id, holderAfter_id, hh]
      rfl

theorem Tracked.reclaim_frees {front rest : List ℕ} {pi' : ProcInfo}
    (htracked : Tracked s fresh recl (front ++ rest))
    (hreclaimed : Reclaimed quiet s.pi pi' (fresh ++ recl) front rest)
    {free io free' io' : List ℕ} (hlists : TwoLists s.pi free io)
    (hlists' : TwoLists pi' free' io') {slot : ℕ} (hio : slot ∈ io)
    (hfree' : slot ∈ free') : HoldsPosted s slot := by
  obtain ⟨_, rfl⟩ := hlists.unique htracked.linked.twoLists
  obtain ⟨rfl, rfl⟩ := hlists'.unique hreclaimed.linked.twoLists
  have hfront : slot ∈ front := by
    cases List.mem_append.mp hfree' with
    | inl h => exact absurd hio (htracked.linked.apart h)
    | inr h => exact h
  obtain ⟨h, hh, hid, hposted⟩ := htracked.held slot hio
  exact ⟨h, hh, hid, hposted.mp (hreclaimed.done rfl slot hfront).1⟩

/-- The outputs of a run are what its postings have written. -/
theorem ioStep_out {action : IoAction}
    (hstep : ioStep build s action = .ok s') :
    ∃ more, s'.posted = s.posted ++ more ∧
      s'.out = (more.map Posting.post).foldl written s.out := by
  cases action with
  | enqueue request =>
      obtain ⟨pi', -, hnext⟩ := bind_eq_ok hstep
      split_ifs at hnext <;> cases hnext <;>
        exact ⟨[], (List.append_nil _).symm, rfl⟩
  | reclaim =>
      obtain ⟨pi', -, hnext⟩ := bind_eq_ok hstep
      cases hnext
      exact ⟨[], (List.append_nil _).symm, rfl⟩
  | restart =>
      cases hstep
      exact ⟨[], (List.append_nil _).symm, rfl⟩
  | visit currNsecs answer =>
      rw [ioStep] at hstep
      cases hcursor : s.cursor with
      | none =>
          rw [hcursor] at hstep
          cases hstep
          exact ⟨[], (List.append_nil _).symm, rfl⟩
      | some curr =>
          rw [hcursor] at hstep
          cases hstep
          refine ⟨_, visited_posted build s curr currNsecs answer, ?_⟩
          rw [visited_out, List.map_map]
          exact congrArg (List.foldl written s.out) (List.map_id _).symm

theorem run_out {actions : List IoAction}
    (hrun : (ioMachine build).run actions s = some s') :
    ∃ more, s'.posted = s.posted ++ more ∧
      s'.out = (more.map Posting.post).foldl written s.out := by
  induction actions generalizing s with
  | nil =>
      cases hrun
      exact ⟨[], (List.append_nil _).symm, rfl⟩
  | cons action actions ih =>
      obtain ⟨after, -, hstep, hrest⟩ := Machine.of_run_cons hrun
      obtain ⟨more, hposted, hout⟩ := ioStep_out hstep
      obtain ⟨later, hlater, hlaterOut⟩ := ih hrest
      refine ⟨more ++ later, ?_, ?_⟩
      · rw [hlater, hposted, List.append_assoc]
      · rw [hlaterOut, hout, List.map_append, List.foldl_append]

end NvmeVirt.Posting
