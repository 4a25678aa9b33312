import NvmeVirt.Io.Posting

/-!
# What a completion carries

A completion names its own command and carries its status.  Its result dwords
are a different matter.  `__enqueue_io_req` neither copies `ret.result` nor
clears `result0` and `result1`, and the worker stores a result only when
`perform_io_cmd` returns one.  Otherwise the entry still has what it had
before the request came.
-/

namespace NvmeVirt.Results

open NvmeVirt.Kernel
open NvmeVirt.Transition
open NvmeVirt.Timing
open NvmeVirt.ProcTable
open NvmeVirt.Lists
open NvmeVirt.Worker
open NvmeVirt.Posting

/-- The status of a request: the one `perform_io_cmd` stored, where it was
called, and the one of the translation layer otherwise. -/
def ownStatus (h : Holder) (req : IoReq) : ℕ :=
  match h.performed with
  | some (_, status) => status
  | none => req.ret.status

/-- `ret.result` as two dwords.  It is the assigned start LBA of an accepted
zone append; a command that fails or computes no result has none. -/
def ftlResult (ret : NvmevResult) : ℕ × ℕ :=
  if ret.status = 0 then (u32 ret.result, u32 (ret.result / 2 ^ 32))
  else (0, 0)

/-- The result dwords of a request: what `perform_io_cmd` returned, where it
was called, and `ret.result` otherwise. -/
def dueResult (h : Holder) (req : IoReq) : ℕ × ℕ :=
  match h.performed with
  | some (result0, _) => (result0, 0)
  | none => ftlResult req.ret

/-- The result dwords the code posts. -/
def postedResult (h : Holder) : ℕ × ℕ :=
  match h.performed with
  | some (result0, _) => (result0, h.leftover1)
  | none => (h.leftover0, h.leftover1)

/-- The completion `cqe` in queue `cqid` names the command of `req` and carries
the status. -/
structure Names (req : IoReq) (status cqid : ℕ) (cqe : Completion) :
    Prop where
  cqid_eq : cqid = req.cqid
  commandId_eq : cqe.commandId = u16 req.commandId
  sqId_eq : cqe.sqId = u16 req.sqid
  sqHead_eq : cqe.sqHead = u16 req.sqEntry
  status_eq : ∃ phase : Bool, cqe.status = u16 (phase.toNat ||| status <<< 1)

/-- A posting is for an accepted request.  A completion names the request's
command, carries its status, and has the result dwords `result` gives. -/
def PostedWith (result : Holder → IoReq → ℕ × ℕ) (posting : Posting) : Prop :=
  ∃ h, posting.holder = some h ∧
    match h.request, posting.post with
    | .io req, .completion cqid cqe =>
        Names req (ownStatus h req) cqid cqe ∧
        (cqe.result0, cqe.result1) = result h req
    | .writeback wb, .release writeBuffer buffs =>
        writeBuffer = wb.writeBuffer ∧ buffs = wb.buffsToRelease
    | _, _ => False

/-- The worker performs the command, or its entry already had the right result
dwords when the request was accepted. -/
def ResultReady (posting : Posting) : Prop :=
  ∀ h req, posting.holder = some h → h.request = .io req →
    h.performed ≠ none ∨ (h.leftover0, h.leftover1) = ftlResult req.ret

/-! ## The invariant -/

/-- The entry `pe` holds the request of `h`. -/
def HoldsRequest (pe : ProcEntry) (h : Holder) : Prop :=
  match h.request with
  | .io req => pe.writebackCmd = false ∧ pe.cqid = req.cqid ∧
      pe.commandId = req.commandId ∧ pe.sqid = req.sqid ∧
      pe.sqEntry = req.sqEntry ∧ pe.status = ownStatus h req
  | .writeback wb => pe.writebackCmd = true ∧
      pe.writeBuffer = wb.writeBuffer ∧ pe.buffsToRelease = wb.buffsToRelease

structure Holds (build : Build) (pe : ProcEntry) (h : Holder) : Prop where
  request : HoldsRequest pe h
  result_eq : (pe.result0, pe.result1) = postedResult h
  not_performed : pe.isCopied = false → h.performed = none
  leftover1_eq : h.leftover1 = 0
  leftover0_eq : build.kvPrototype = false → h.leftover0 = 0
  performed_eq : build.kvPrototype = false → h.performed = none

structure Carried (build : Build) (s : IoState) : Prop where
  holds : ∀ e h, s.holder e = some h → Holds build (bodies s.pi e) h
  result1_eq : ∀ e, (bodies s.pi e).result1 = 0
  result0_eq : build.kvPrototype = false →
    ∀ e, (bodies s.pi e).result0 = 0
  posted : ∀ posting ∈ s.posted,
    PostedWith (fun h _ => postedResult h) posting ∧
      ∀ h, posting.holder = some h → ∃ pe, Holds build pe h

variable {build : Build} {s s' : IoState} {fresh recl io : List ℕ}

theorem carried_start (build : Build) (out : Outputs) :
    Carried build (.start out) where
  holds := fun _ _ h => by cases h
  result1_eq := fun _ => rfl
  result0_eq := fun _ _ => rfl
  posted := fun _ h => by cases h

theorem fill_results (request : Request) (pe : ProcEntry) :
    (request.fill pe).result0 = pe.result0 ∧
      (request.fill pe).result1 = pe.result1 := by
  cases request <;> exact ⟨rfl, rfl⟩

theorem Carried.accept (hcarried : Carried build s) {request : Request}
    {pi' : ProcInfo} {free front back : List ℕ}
    (henqueued : Enqueued quiet request.fill s.pi pi' free front back) :
    Carried build (s.accept pi' request) := by
  have hbodies := henqueued.bodies_eq rfl
  have hfill := fill_results request (s.pi.procTable s.pi.freeSeq)
  have hresults : ∀ e, (bodies pi' e).result0 = (bodies s.pi e).result0 ∧
      (bodies pi' e).result1 = (bodies s.pi e).result1 := by
    intro e
    by_cases he : e = s.pi.freeSeq
    · subst he
      rw [hbodies, Function.update_self]
      exact hfill
    · rw [hbodies, Function.update_of_ne he]
      exact ⟨rfl, rfl⟩
  constructor
  · intro e h hh
    by_cases he : e = s.pi.freeSeq
    · subst he
      rw [accept_holder_self] at hh
      obtain rfl := Option.some_inj.mp hh
      constructor
      · have hself : bodies (s.accept pi' request).pi s.pi.freeSeq =
            (request.fill (s.pi.procTable s.pi.freeSeq)).body :=
          (congrFun hbodies _).trans (Function.update_self ..)
        rw [hself]
        cases request with
        | io req => exact ⟨rfl, rfl, rfl, rfl, rfl, rfl⟩
        | writeback wb => exact ⟨rfl, rfl, rfl⟩
      · exact Prod.ext (hresults _).1 (hresults _).2
      · exact fun _ => rfl
      · exact hcarried.result1_eq _
      · exact fun hkv => hcarried.result0_eq hkv _
      · exact fun _ => rfl
    · rw [accept_holder_of_ne _ _ he] at hh
      have hsame : bodies (s.accept pi' request).pi e = bodies s.pi e :=
        (congrFun hbodies e).trans (Function.update_of_ne he ..)
      rw [hsame]
      exact hcarried.holds e h hh
  · intro e
    exact (hresults e).2.trans (hcarried.result1_eq e)
  · intro hkv e
    exact (hresults e).1.trans (hcarried.result0_eq hkv e)
  · exact hcarried.posted

theorem Carried.congr (hcarried : Carried build s) {pi' : ProcInfo}
    (hbodies : bodies pi' = bodies s.pi) :
    Carried build { s with pi := pi' } where
  holds := by
    dsimp only
    rw [hbodies]
    exact hcarried.holds
  result1_eq := by
    dsimp only
    rw [hbodies]
    exact hcarried.result1_eq
  result0_eq := by
    dsimp only
    rw [hbodies]
    exact hcarried.result0_eq
  posted := hcarried.posted

theorem performed_eq_none {pe : ProcEntry} {answer : Option (ℕ × ℕ)}
    (h : pe.isCopied = true ∨ pe.writebackCmd = true ∨
      build.kvPrototype = false) : performed build answer pe = none := by
  rw [performed]
  split_ifs with hcopied hwriteback _ hkv
  all_goals first | rfl | simp_all

theorem Holds.copied {pe : ProcEntry} {h : Holder}
    (hholds : Holds build pe.body h) (answer : Option (ℕ × ℕ)) :
    Holds build (Posting.copied build answer pe).body
      (h.answered (performed build answer pe)) := by
  rw [Posting.copied]
  split_ifs with hcopied
  · rw [performed_eq_none (.inl hcopied)]
    exact hholds
  · cases hperformed : performed build answer pe with
    | none =>
        exact { hholds with not_performed := fun h => by cases h }
    | some result =>
        have hkv : build.kvPrototype ≠ false := by
          intro hkv
          rw [performed_eq_none (.inr (.inr hkv))] at hperformed
          cases hperformed
        have hio : pe.writebackCmd ≠ true := by
          intro hio
          rw [performed_eq_none (.inr (.inl hio))] at hperformed
          cases hperformed
        have hresult1 := congrArg Prod.snd hholds.result_eq
        rw [postedResult,
          hholds.not_performed (Bool.eq_false_iff.mpr hcopied)] at hresult1
        have hrequest := hholds.request
        constructor
        · rw [HoldsRequest] at hrequest ⊢
          cases hkind : h.request with
          | io req =>
              rw [hkind] at hrequest
              rw [Holder.answered]
              dsimp only
              rw [hkind]
              obtain ⟨h1, h2, h3, h4, h5, _⟩ := hrequest
              exact ⟨h1, h2, h3, h4, h5, rfl⟩
          | writeback wb =>
              rw [hkind] at hrequest
              exact absurd hrequest.1 hio
        · exact Prod.ext rfl hresult1
        · exact fun h => by cases h
        · exact hholds.leftover1_eq
        · exact hholds.leftover0_eq
        · exact fun h => absurd h hkv

theorem Holds.afterVisit {pe : ProcEntry} {h : Holder}
    (hholds : Holds build pe.body h) (answer : Option (ℕ × ℕ))
    (currNsecs : ℕ) (hopen : pe.isCompleted = false) :
    Holds build (Posting.afterVisit build answer currNsecs pe).body
      (h.answered (performed build answer pe)) := by
  have hcopied := hholds.copied answer
  rw [Posting.afterVisit]
  split_ifs with hdone
  · exact absurd (hopen.symm.trans hdone) Bool.false_ne_true
  · exact { hcopied with }
  · exact hcopied

/-- What `complete` posts for an entry is the posting of its request. -/
theorem Holds.complete {pe : ProcEntry} {h : Holder}
    (hholds : Holds build pe.body h) (out : Outputs) (slot : ℕ) :
    PostedWith (fun h _ => postedResult h)
      { slot := slot, holder := some h, post := (complete out pe).1 } := by
  have hrequest := hholds.request
  rw [HoldsRequest] at hrequest
  refine ⟨h, rfl, ?_⟩
  cases hkind : h.request with
  | io req =>
      rw [hkind] at hrequest
      obtain ⟨hwriteback, hcqid, hcommandId, hsqid, hsqEntry, hstatus⟩ :=
        hrequest
      have hpost : (Worker.complete out pe).1 = .completion pe.cqid
          (completionOf (out.cqes pe.cqid).phase pe) := by
        have hio : ¬ pe.writebackCmd = true := Bool.eq_false_iff.mp hwriteback
        rw [Worker.complete, if_neg hio]
      rw [hpost]
      refine ⟨⟨hcqid, congrArg u16 hcommandId, congrArg u16 hsqid,
        congrArg u16 hsqEntry, (out.cqes pe.cqid).phase, ?_⟩,
        hholds.result_eq⟩
      rw [← hstatus]
      rfl
  | writeback wb =>
      rw [hkind] at hrequest
      have hpost : (Worker.complete out pe).1 =
          .release pe.writeBuffer pe.buffsToRelease := by
        have hwriteback : pe.writebackCmd = true := hrequest.1
        rw [Worker.complete, if_pos hwriteback]
      rw [hpost]
      exact hrequest.2

theorem afterVisit_result1 (answer : Option (ℕ × ℕ)) (currNsecs : ℕ)
    (pe : ProcEntry) :
    (Posting.afterVisit build answer currNsecs pe).result1 = pe.result1 := by
  have hcopied : (Posting.copied build answer pe).result1 = pe.result1 := by
    rw [Posting.copied]
    split_ifs
    · rfl
    · cases performed build answer pe <;> rfl
  rw [Posting.afterVisit]
  split_ifs
  · rfl
  · exact hcopied
  · exact hcopied

/-- Only `perform_io_cmd` changes a result. -/
theorem afterVisit_result0 (hkv : build.kvPrototype = false)
    (answer : Option (ℕ × ℕ)) (currNsecs : ℕ) (pe : ProcEntry) :
    (Posting.afterVisit build answer currNsecs pe).result0 = pe.result0 := by
  have hcopied : (Posting.copied build answer pe).result0 = pe.result0 := by
    rw [Posting.copied, performed_eq_none (.inr (.inr hkv))]
    split_ifs <;> rfl
  rw [Posting.afterVisit]
  split_ifs
  · rfl
  · exact hcopied
  · exact hcopied

theorem Carried.visit (htracked : Tracked s fresh recl io)
    (hcarried : Carried build s) {curr : ℕ} (hcursor : s.cursor = some curr)
    (currNsecs : ℕ) (answer : Option (ℕ × ℕ)) :
    Carried build (s.visited build curr currNsecs answer) := by
  have hbodies := visited_bodies build s curr currNsecs answer
  have hother : ∀ e, e ≠ curr →
      bodies (s.visited build curr currNsecs answer).pi e =
        bodies s.pi e := by
    intro e he
    rw [hbodies, Function.update_of_ne he]
  have hself : bodies (s.visited build curr currNsecs answer).pi curr =
      (Posting.afterVisit build answer currNsecs
        (s.pi.procTable curr)).body := by
    rw [hbodies, Function.update_self]
  have hafter : ∀ h, s.holderAfter build curr answer = some h →
      Holds build (Posting.afterVisit build answer currNsecs
        (s.pi.procTable curr)).body h := by
    intro h hh
    rw [IoState.holderAfter] at hh
    split_ifs at hh with hdone
    · rw [Posting.afterVisit, if_pos hdone]
      exact hcarried.holds curr h hh
    · obtain ⟨h, hbefore, rfl⟩ := Option.map_eq_some_iff.mp hh
      exact (hcarried.holds curr h hbefore).afterVisit answer currNsecs
        (Bool.eq_false_iff.mpr hdone)
  have hposted : ∀ post, postOf build answer s.out currNsecs
      (s.pi.procTable curr) = some post →
      ∃ h pe, s.holderAfter build curr answer = some h ∧ Holds build pe h ∧
        PostedWith (fun h _ => postedResult h)
          { slot := curr, holder := some h, post := post } := by
    intro post hpost
    rw [postOf] at hpost
    split_ifs at hpost with hdone hdue
    cases hpost
    have hopen := Bool.eq_false_iff.mpr hdone
    obtain ⟨_, h, hh, _, _⟩ := htracked.cursor_open hcursor hopen
    have hcopied := (hcarried.holds curr h hh).copied answer
    refine ⟨_, _, ?_, hcopied, hcopied.complete s.out curr⟩
    rw [IoState.holderAfter, if_neg hdone, hh]
    rfl
  constructor
  · intro e h hh
    by_cases he : e = curr
    · subst he
      rw [visited_holder_self] at hh
      rw [hself]
      exact hafter h hh
    · rw [visited_holder_of_ne _ _ _ _ _ he] at hh
      rw [hother e he]
      exact hcarried.holds e h hh
  · intro e
    by_cases he : e = curr
    · subst he
      rw [hself]
      exact (afterVisit_result1 ..).trans (hcarried.result1_eq e)
    · rw [hother e he]
      exact hcarried.result1_eq e
  · intro hkv e
    by_cases he : e = curr
    · subst he
      rw [hself]
      exact (afterVisit_result0 hkv ..).trans (hcarried.result0_eq hkv e)
    · rw [hother e he]
      exact hcarried.result0_eq hkv e
  · intro posting hmem
    rw [visited_posted] at hmem
    cases hpost : postOf build answer s.out currNsecs
        (s.pi.procTable curr) with
    | none =>
        rw [hpost, Option.toList_none, List.map_nil, List.append_nil] at hmem
        exact hcarried.posted posting hmem
    | some post =>
        rw [hpost, Option.toList_some, List.map_singleton] at hmem
        obtain ⟨h, pe, hh, hholds, hwith⟩ := hposted post hpost
        rw [hh] at hmem
        cases List.mem_append.mp hmem with
        | inl hmem => exact hcarried.posted posting hmem
        | inr hmem =>
            obtain rfl := List.mem_singleton.mp hmem
            refine ⟨hwith, fun h' hh' => ⟨pe, ?_⟩⟩
            cases hh'
            exact hholds

/-! ## Every run -/

theorem carried_inductive (build : Build) :
    Inductive (ioMachine build) fun s =>
      (∃ fresh recl io, Tracked s fresh recl io) ∧ Carried build s where
  init := by
    rintro _ ⟨out, rfl⟩
    exact ⟨⟨_, _, _, tracked_start out⟩, carried_start build out⟩
  step := by
    rintro s action ⟨⟨fresh, recl, io, htracked⟩, hcarried⟩ henabled
    obtain ⟨s', hrun, hmoved⟩ := htracked.moves build henabled
    refine ⟨s', hrun, htracked.moved hmoved, ?_⟩
    cases hmoved with
    | accepted hfree hio henqueued => exact hcarried.accept henqueued
    | dropped => exact hcarried
    | reclaimed hio hreclaimed =>
        exact hcarried.congr (hreclaimed.bodies_eq rfl)
    | restarted => exact { hcarried with }
    | visited hcursor => exact hcarried.visit htracked hcursor _ _

/-- The posting of a request carries the result dwords the request is due. -/
def OwnCompletion : Posting → Prop := PostedWith dueResult

/-- A request gets its own result exactly when that was ready. -/
theorem postedResult_eq_iff {h : Holder} {req : IoReq}
    (hleftover : h.leftover1 = 0) :
    postedResult h = dueResult h req ↔
      h.performed ≠ none ∨ (h.leftover0, h.leftover1) = ftlResult req.ret := by
  rw [postedResult, dueResult]
  cases h.performed with
  | none => simp
  | some result => simp [hleftover]

theorem ownCompletion_iff {posting : Posting}
    (hposted : PostedWith (fun h _ => postedResult h) posting)
    (hholds : ∀ h, posting.holder = some h → ∃ pe, Holds build pe h) :
    OwnCompletion posting ↔ ResultReady posting := by
  obtain ⟨h, hh, hpost⟩ := hposted
  obtain ⟨pe, hpe⟩ := hholds h hh
  constructor
  · rintro ⟨h', hh', hown⟩ h'' req hh'' hreq
    obtain rfl := Option.some_inj.mp (hh'.symm.trans hh'')
    obtain rfl := Option.some_inj.mp (hh.symm.trans hh'')
    apply (postedResult_eq_iff hpe.leftover1_eq).mp
    rw [hreq] at hpost hown
    cases hkind : posting.post with
    | completion cqid cqe =>
        rw [hkind] at hpost hown
        exact hpost.2.symm.trans hown.2
    | release writeBuffer buffs =>
        rw [hkind] at hpost
        exact hpost.elim
  · intro hready
    refine ⟨h, hh, ?_⟩
    cases hreq : h.request with
    | writeback wb =>
        rw [hreq] at hpost
        cases hkind : posting.post with
        | completion cqid cqe =>
            rw [hkind] at hpost
            exact hpost.elim
        | release writeBuffer buffs =>
            rw [hkind] at hpost
            exact hpost
    | io req =>
        rw [hreq] at hpost
        cases hkind : posting.post with
        | completion cqid cqe =>
            rw [hkind] at hpost
            refine ⟨hpost.1, hpost.2.trans ?_⟩
            exact (postedResult_eq_iff hpe.leftover1_eq).mpr
              (hready h req hh hreq)
        | release writeBuffer buffs =>
            rw [hkind] at hpost
            exact hpost.elim

/-- Where `perform_io_cmd` is never called, every entry keeps the zeros it
started with, and only a result of zero is ready. -/
theorem resultReady_iff {posting : Posting}
    (hholds : ∀ h, posting.holder = some h → ∃ pe, Holds build pe h)
    (hkv : build.kvPrototype = false) :
    ResultReady posting ↔ ∀ h req, posting.holder = some h →
      h.request = .io req → ftlResult req.ret = (0, 0) := by
  have hzero : ∀ h, posting.holder = some h → h.performed = none ∧
      (h.leftover0, h.leftover1) = (0, 0) := by
    intro h hh
    obtain ⟨pe, hpe⟩ := hholds h hh
    exact ⟨hpe.performed_eq hkv,
      Prod.ext (hpe.leftover0_eq hkv) hpe.leftover1_eq⟩
  constructor
  · intro hready h req hh hreq
    obtain ⟨hnone, hleftover⟩ := hzero h hh
    have hresult := (hready h req hh hreq).resolve_left (not_not.mpr hnone)
    rw [← hresult, hleftover]
  · intro hresult h req hh hreq
    rw [(hzero h hh).2, hresult h req hh hreq]
    exact .inr rfl

/-- In every reachable state, a posting names its own request and carries its
status.  It carries the request's own result exactly when that was ready,
which without `perform_io_cmd` means that the result is zero. -/
theorem ownCompletion_iff_resultReady
    (hreach : Reachable (ioMachine build) s) :
    ∀ posting ∈ s.posted,
      PostedWith (fun h _ => postedResult h) posting ∧
      (OwnCompletion posting ↔ ResultReady posting) ∧
      (build.kvPrototype = false →
        (ResultReady posting ↔ ∀ h req, posting.holder = some h →
          h.request = .io req → ftlResult req.ret = (0, 0))) := by
  obtain ⟨_, hcarried⟩ := (carried_inductive build).reachable hreach
  intro posting hmem
  obtain ⟨hposted, hholds⟩ := hcarried.posted posting hmem
  exact ⟨hposted, ownCompletion_iff hposted hholds,
    resultReady_iff hholds⟩

/-! ## At most one completion -/

/-- In every run, what was written to the completion queues and the buffers is
what was posted, in order.  Each posting is for an accepted request, goes to
its completion queue or releases its buffer, and no request has two.  A visit
that writes posts for the entry under the cursor, which holds a request
accepted and not posted yet; a reclaim writes nothing, and an entry that it
frees holds a posted request. -/
theorem posted_at_most_once {first : Outputs} {actions : List IoAction}
    (hrun : (ioMachine build).run actions (.start first) = some s) :
    s.out = (s.posted.map Posting.post).foldl written first ∧
    (∀ posting ∈ s.posted, PostedWith (fun h _ => postedResult h) posting ∧
      ∃ id < s.accepted, posting.id = some id) ∧
    (∀ id, (postedIds s).count (some id) ≤ 1) ∧
    (∀ currNsecs answer, s.cursor ≠ none →
      ∃ s', ioStep build s (.visit currNsecs answer) = .ok s' ∧
        ((s'.posted = s.posted ∧ s'.out = s.out) ∨
          ∃ posting h, s.cursor = some posting.slot ∧
            HoldsOpen s posting.slot ∧ s.holder posting.slot = some h ∧
            posting.id = some h.id ∧
            s'.posted = s.posted ++ [posting] ∧
            s'.out = written s.out posting.post)) ∧
    (∃ s', ioStep build s .reclaim = .ok s' ∧ s'.posted = s.posted ∧
      s'.out = s.out ∧
      ∀ free io free' io', TwoLists s.pi free io → TwoLists s'.pi free' io' →
        ∀ slot ∈ io, slot ∈ free' → HoldsPosted s slot) := by
  have hreach : Reachable (ioMachine build) s :=
    Reachable.run (.start ⟨first, rfl⟩) hrun
  obtain ⟨⟨fresh, recl, io, htracked⟩, hcarried⟩ :=
    (carried_inductive build).reachable hreach
  refine ⟨?_, ?_, ?_, ?_, ?_⟩
  · obtain ⟨more, hposted, hout⟩ := run_out hrun
    have hmore : s.posted = more := hposted
    rw [hmore]
    exact hout
  · intro posting hmem
    obtain ⟨id, hid, heq⟩ := htracked.posted_lt _
      (List.mem_map_of_mem (f := Posting.id) hmem)
    exact ⟨(hcarried.posted posting hmem).1, id, hid, heq⟩
  · intro id
    exact List.nodup_iff_count_le_one.mp htracked.posted_nodup (some id)
  · intro currNsecs answer hcursor
    have henabled : Enabled s (.visit currNsecs answer) := hcursor
    obtain ⟨s', hstep, hmoved⟩ := htracked.moves build henabled
    refine ⟨s', hstep, ?_⟩
    cases hmoved with
    | visited hcurr =>
        obtain hquiet | hposts :=
          htracked.visit_posts build hcurr currNsecs answer
        · exact .inl hquiet
        · obtain ⟨posting, h, rfl, hopen, hh, hid, hposted, hout⟩ := hposts
          exact .inr ⟨posting, h, hcurr, hopen, hh, hid, hposted, hout⟩
  · have henabled : Enabled s .reclaim := trivial
    obtain ⟨s', hstep, hmoved⟩ := htracked.moves build henabled
    refine ⟨s', hstep, ?_⟩
    cases hmoved with
    | reclaimed hio hreclaimed =>
        subst hio
        refine ⟨rfl, rfl, ?_⟩
        intro free io free' io' hlists hlists' slot hslot hfree'
        exact htracked.reclaim_frees hreclaimed hlists hlists' hslot hfree'

/-- A read that is due at `nsecsTarget`, and a write back after some of
them. -/
def readAt (commandId nsecsTarget : ℕ) : IoReq :=
  { sqid := 1, cqid := 1, sqEntry := 0, commandId := commandId
    nsecsStart := 0, nsecsEnqueue := 0
    ret := { status := 0, nsecsTarget := nsecsTarget, result := 0 } }

def lateWriteback : Writeback :=
  { sqid := 1, nsecsStart := 0, nsecsEnqueue := 0, nsecsTarget := 9
    writeBuffer := 0, buffsToRelease := 4096 }

/-- The first read is posted and its entry reclaimed; the second one is posted,
and the worker is at the write back. -/
def postingActions : List IoAction :=
  [.enqueue (.io (readAt 7 1)), .restart, .visit 1 none, .reclaim,
    .enqueue (.io (readAt 8 2)), .enqueue (.writeback lateWriteback),
    .restart, .visit 2 none]

theorem posted_at_most_once_twoReads : ∃ s,
    (ioMachine ⟨false, false⟩).run postingActions
        (.start (.initial 1024)) = some s ∧
      postedIds s = [some 0, some 1] ∧ s.cursor = some 2 ∧
      s.out = (s.posted.map Posting.post).foldl written (.initial 1024) ∧
      (∃ s', ioStep ⟨false, false⟩ s (.visit 9 none) = .ok s' ∧
        ((s'.posted = s.posted ∧ s'.out = s.out) ∨
          ∃ posting h, s.cursor = some posting.slot ∧
            HoldsOpen s posting.slot ∧ s.holder posting.slot = some h ∧
            posting.id = some h.id ∧
            s'.posted = s.posted ++ [posting] ∧
            s'.out = written s.out posting.post)) ∧
      ∃ s', ioStep ⟨false, false⟩ s .reclaim = .ok s' ∧
        s'.posted = s.posted ∧ s'.out = s.out ∧
        ∀ free io free' io', TwoLists s.pi free io →
          TwoLists s'.pi free' io' →
          ∀ slot ∈ io, slot ∈ free' → HoldsPosted s slot := by
  have hstates : ((ioMachine ⟨false, false⟩).run postingActions
      (.start (.initial 1024))).map (fun s => (postedIds s, s.cursor)) =
        some ([some 0, some 1], some 2) := by
    decide +kernel
  obtain ⟨s, hrun, hs⟩ := Option.map_eq_some_iff.mp hstates
  obtain ⟨hids, hcursor⟩ := Prod.mk.inj hs
  obtain ⟨hout, -, -, hvisit, hreclaim⟩ := posted_at_most_once hrun
  exact ⟨s, hrun, hids, hcursor, hout,
    hvisit 9 none (by rw [hcursor]; exact Option.some_ne_none 2), hreclaim⟩

/-! ## An append -/

/-- A zone append that was assigned the start LBA `0x80000`. -/
def appendReq : IoReq :=
  { sqid := 1, cqid := 1, sqEntry := 0, commandId := 7, nsecsStart := 0
    nsecsEnqueue := 0
    ret := { status := 0, nsecsTarget := 0, result := 0x80000 } }

/-- Its completion on a device that has just started. -/
def appendPosting : Posting :=
  { slot := 0
    holder := some { id := 0, request := .io appendReq, leftover0 := 0
                     leftover1 := 0, performed := none }
    post := .completion 1 { result0 := 0, result1 := 0, sqHead := 0, sqId := 1
                            commandId := 7, status := 1 } }

theorem append_posted :
    ∃ s, Reachable (ioMachine ⟨false, false⟩) s ∧
      s.posted = [appendPosting] := by
  have hrun : ((ioMachine ⟨false, false⟩).run
      [.enqueue (.io appendReq), .restart, .visit 0 none]
      (.start (.initial 1024))).map IoState.posted =
        some [appendPosting] := by
    decide +kernel
  obtain ⟨s, hs, hposted⟩ := Option.map_eq_some_iff.mp hrun
  exact ⟨s, Reachable.run (.start ⟨_, rfl⟩) hs, hposted⟩

/-- The append is completed with the result `0`. -/
theorem append_result_lost :
    ∃ s, Reachable (ioMachine ⟨false, false⟩) s ∧
      ∃ posting ∈ s.posted, ¬ OwnCompletion posting := by
  obtain ⟨s, hreach, hposted⟩ := append_posted
  refine ⟨s, hreach, appendPosting, by simp [hposted], ?_⟩
  rintro ⟨h, hh, hown⟩
  cases hh
  exact absurd hown.2 (by decide)

theorem ownCompletion_iff_resultReady_append :
    ∃ s, Reachable (ioMachine ⟨false, false⟩) s ∧ appendPosting ∈ s.posted ∧
      (OwnCompletion appendPosting ↔ ResultReady appendPosting) := by
  obtain ⟨s, hreach, hposted⟩ := append_posted
  have hmem : appendPosting ∈ s.posted := by simp [hposted]
  exact ⟨s, hreach, hmem,
    (ownCompletion_iff_resultReady hreach appendPosting hmem).2.1⟩

end NvmeVirt.Results
