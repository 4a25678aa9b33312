import NvmeVirt.Core.Ring
import NvmeVirt.Io.Drain
import NvmeVirt.Io.Doorbells
import NvmeVirt.Io.Results

/-!
# From the doorbell to the completion

The host, the dispatcher and all workers in one machine.  A step of the
dispatcher is what it does between two points where a worker can see its work:
a call of `proc_io_cmd`, one enqueue, or the reclaim on one worker.  A step of
a worker is one visit, and the host writes commands at any time.

A ticket is the history of one command the translation layer accepted: the
request made of it, the worker that serves it, and the number that worker gave
it.  A command for which the worker's table has no room gets no number.
-/

namespace NvmeVirt.EndToEnd

open NvmeVirt.Dispatch
open NvmeVirt.Doorbells
open NvmeVirt.Drain
open NvmeVirt.Kernel
open NvmeVirt.Lists
open NvmeVirt.Posting
open NvmeVirt.ProcTable
open NvmeVirt.Results
open NvmeVirt.Ring
open NvmeVirt.Timing
open NvmeVirt.Transition
open NvmeVirt.Worker

/-! ## The requests of one worker -/

section Thread

variable {build : Build} {th th' : IoState} {book : List (ℕ × IoReq)}

/-- A request has a number in the book exactly when it is a command. -/
def Agrees (book : List (ℕ × IoReq)) (h : Holder) : Prop :=
  ∀ req, h.request = .io req ↔ (h.id, req) ∈ book

/-- The commands the worker has accepted are those in the book. -/
structure Booked (th : IoState) (book : List (ℕ × IoReq)) : Prop where
  lt : ∀ entry ∈ book, entry.1 < th.accepted
  nodup : (book.map Prod.fst).Nodup
  holder_lt : ∀ slot h, th.holder slot = some h → h.id < th.accepted
  holder : ∀ slot h, th.holder slot = some h → Agrees book h
  posted : ∀ posting ∈ th.posted, ∀ h, posting.holder = some h →
    Agrees book h

/-- The book after a step of the dispatcher or the worker. -/
def bookAfter (th : IoState) (book : List (ℕ × IoReq)) :
    IoAction → List (ℕ × IoReq)
  | .enqueue (.io req) =>
      if HasRoom th.pi then book ++ [(th.accepted, req)] else book
  | _ => book

theorem booked_start (out : Outputs) : Booked (.start out) [] where
  lt := by simp
  nodup := List.nodup_nil
  holder_lt := fun _ _ h => by cases h
  holder := fun _ _ h => by cases h
  posted := fun _ h => by cases h

/-- An old request has none of the new numbers. -/
theorem Agrees.append {h : Holder} (hagrees : Agrees book h) {id : ℕ}
    (hid : h.id < id) (req : IoReq) : Agrees (book ++ [(id, req)]) h := by
  intro other
  rw [hagrees other, List.mem_append, List.mem_singleton, Prod.mk.injEq]
  constructor
  · exact .inl
  · rintro (hmem | ⟨heq, -⟩)
    · exact hmem
    · omega

theorem posting_lt {fresh recl io : List ℕ}
    (htracked : Tracked th fresh recl io) {posting : Posting}
    (hmem : posting ∈ th.posted) {h : Holder} (hh : posting.holder = some h) :
    h.id < th.accepted := by
  obtain ⟨n, hn, heq⟩ := htracked.posted_lt posting.id
    (List.mem_map_of_mem hmem)
  rw [Posting.id, hh, Option.map_some, Option.some_inj] at heq
  exact heq ▸ hn

theorem Booked.accept (hbooked : Booked th book) {fresh recl io : List ℕ}
    (htracked : Tracked th fresh recl io) (pi : ProcInfo)
    {request : Request} (hroom : HasRoom th.pi) :
    Booked (th.accept pi request)
      (bookAfter th book (.enqueue request)) := by
  have hnew : ∀ slot h, (th.accept pi request).holder slot = some h →
      h.id < th.accepted ∧ th.holder slot = some h ∨
        h.id = th.accepted ∧ h.request = request := by
    intro slot h hh
    by_cases hslot : slot = th.pi.freeSeq
    · rw [hslot, accept_holder_self] at hh
      cases hh
      exact .inr ⟨rfl, rfl⟩
    · rw [accept_holder_of_ne _ _ hslot] at hh
      exact .inl ⟨hbooked.holder_lt slot h hh, hh⟩
  have hholder_lt : ∀ slot h, (th.accept pi request).holder slot = some h →
      h.id < th.accepted + 1 := by
    intro slot h hh
    obtain ⟨hlt, -⟩ | ⟨heq, -⟩ := hnew slot h hh <;> omega
  have hfresh : ∀ req, (th.accepted, req) ∉ book := fun req hmem =>
    absurd (hbooked.lt _ hmem) (lt_irrefl _)
  cases request with
  | writeback wb =>
      refine ⟨fun entry hentry => (hbooked.lt entry hentry).trans
        (Nat.lt_succ_self _), hbooked.nodup, hholder_lt, ?_,
        hbooked.posted⟩
      intro slot h hh
      obtain ⟨-, hold⟩ | ⟨hid, hrequest⟩ := hnew slot h hh
      · exact hbooked.holder slot h hold
      · intro req
        rw [hrequest, hid]
        exact iff_of_false (by simp) (hfresh req)
  | io req =>
      rw [bookAfter, if_pos hroom]
      refine ⟨?_, ?_, hholder_lt, ?_, ?_⟩
      · intro entry hentry
        obtain hold | hlast := List.mem_append.mp hentry
        · exact (hbooked.lt entry hold).trans (Nat.lt_succ_self _)
        · rw [List.mem_singleton.mp hlast]
          exact Nat.lt_succ_self _
      · rw [List.map_append, List.map_singleton, ← List.concat_eq_append]
        refine hbooked.nodup.concat fun hmem => ?_
        obtain ⟨entry, hentry, heq⟩ := List.mem_map.mp hmem
        have hlt := hbooked.lt entry hentry
        omega
      · intro slot h hh
        obtain ⟨hlt, hold⟩ | ⟨hid, hrequest⟩ := hnew slot h hh
        · exact (hbooked.holder slot h hold).append hlt req
        · intro other
          rw [hrequest, hid, List.mem_append, List.mem_singleton]
          simp [hfresh other, eq_comm]
      · intro posting hmem h hh
        exact (hbooked.posted posting hmem h hh).append
          (posting_lt htracked hmem hh) req

/-- A visit leaves the request and the number of every holder alone. -/
theorem visited_holder {curr currNsecs : ℕ} {answer : Option (ℕ × ℕ)}
    {slot : ℕ} {h : Holder}
    (hh : (th.visited build curr currNsecs answer).holder slot = some h) :
    ∃ before, th.holder slot = some before ∧ h.id = before.id ∧
      h.request = before.request := by
  by_cases hslot : slot = curr
  · rw [hslot, visited_holder_self, IoState.holderAfter] at hh
    split_ifs at hh
    · exact ⟨h, hslot ▸ hh, rfl, rfl⟩
    · obtain ⟨before, hbefore, rfl⟩ := Option.map_eq_some_iff.mp hh
      refine ⟨before, hslot ▸ hbefore, ?_⟩
      cases performed build answer (th.pi.procTable curr) <;> exact ⟨rfl, rfl⟩
  · rw [visited_holder_of_ne _ _ _ _ _ hslot] at hh
    exact ⟨h, hh, rfl, rfl⟩

theorem Booked.visit (hbooked : Booked th book) (curr currNsecs : ℕ)
    (answer : Option (ℕ × ℕ)) :
    Booked (th.visited build curr currNsecs answer) book := by
  have hholder : ∀ slot h,
      (th.visited build curr currNsecs answer).holder slot = some h →
        Agrees book h := by
    intro slot h hh
    obtain ⟨before, hbefore, hid, hrequest⟩ := visited_holder hh
    have hagrees := hbooked.holder slot before hbefore
    rw [Agrees, ← hid, ← hrequest] at hagrees
    exact hagrees
  refine ⟨hbooked.lt, hbooked.nodup, ?_, hholder, ?_⟩
  · intro slot h hh
    obtain ⟨before, hbefore, hid, -⟩ := visited_holder hh
    exact hid ▸ hbooked.holder_lt slot before hbefore
  · intro posting hmem h hh
    rw [visited_posted] at hmem
    obtain hold | hnew := List.mem_append.mp hmem
    · exact hbooked.posted posting hold h hh
    · obtain ⟨post, -, rfl⟩ := List.mem_map.mp hnew
      exact hholder curr h ((visited_holder_self ..).trans hh)

/-- What every worker of a run satisfies. -/
structure Sound (build : Build) (th : IoState) (book : List (ℕ × IoReq)) :
    Prop where
  accounted : ∃ fresh recl io, Tracked th fresh recl io ∧ Accounted th io
  carried : Carried build th
  booked : Booked th book

theorem sound_start (build : Build) (out : Outputs) :
    Sound build (.start out) [] where
  accounted := ⟨_, _, _, tracked_start out, accounted_start out⟩
  carried := carried_start build out
  booked := booked_start out

/-- Where completions go is no part of it. -/
theorem Sound.withOut (h : Sound build th book) (out : Outputs) :
    Sound build { th with out := out } book := by
  obtain ⟨⟨fresh, recl, io, htracked, haccounted⟩, hcarried, hbooked⟩ := h
  exact ⟨⟨fresh, recl, io, { htracked with }, haccounted⟩, { hcarried with },
    { hbooked with }⟩

theorem Sound.step (h : Sound build th book) {action : IoAction}
    (henabled : Enabled th action) :
    ∃ th', ioStep build th action = .ok th' ∧
      Sound build th' (bookAfter th book action) := by
  obtain ⟨fresh, recl, io, htracked, haccounted⟩ := h.accounted
  obtain ⟨th', hrun, haccounted'⟩ := (accounted_inductive build).step th action
    h.accounted henabled
  obtain ⟨after, hrun', -, hcarried'⟩ := (carried_inductive build).step th
    action ⟨⟨fresh, recl, io, htracked⟩, h.carried⟩ henabled
  obtain rfl := Except.ok.inj (hrun.symm.trans hrun')
  refine ⟨th', hrun, haccounted', hcarried', ?_⟩
  cases action with
  | enqueue request =>
      by_cases hroom : HasRoom th.pi
      · obtain ⟨-, -, -, pi', -, -, henqueue, -⟩ :=
          enqueue_room htracked.linked hroom request
        have hstep : ioStep build th (.enqueue request) =
            .ok (th.accept pi' request) := by
          rw [ioStep, henqueue, ok_bind, if_pos hroom]
        obtain rfl := Except.ok.inj (hrun.symm.trans hstep)
        exact h.booked.accept htracked pi' hroom
      · have hstep : ioStep build th (.enqueue request) = .ok th := by
          rw [ioStep, enqueue_full hroom, ok_bind, if_neg hroom]
        obtain rfl := Except.ok.inj (hrun.symm.trans hstep)
        cases request with
        | io req =>
            rw [bookAfter, if_neg hroom]
            exact h.booked
        | writeback wb => exact h.booked
  | reclaim =>
      obtain ⟨pi', -, hlast⟩ := bind_eq_ok hrun
      cases hlast
      exact { h.booked with }
  | restart =>
      cases hrun
      exact { h.booked with }
  | visit currNsecs answer =>
      obtain ⟨curr, hcurr⟩ := Option.ne_none_iff_exists'.mp henabled
      have hstep : ioStep build th (.visit currNsecs answer) =
          .ok (th.visited build curr currNsecs answer) := by
        rw [ioStep, hcurr]
      obtain rfl := Except.ok.inj (hrun.symm.trans hstep)
      exact h.booked.visit curr currNsecs answer

/-- The postings for request number `id`. -/
def postingsOf (th : IoState) (id : ℕ) : List Posting :=
  th.posted.filter fun posting => posting.id = some id

/-- A completion of the command of `req`, in its own completion queue. -/
def Completes (posting : Posting) (req : IoReq) : Prop :=
  ∃ h cqid cqe, posting.holder = some h ∧
    posting.post = .completion cqid cqe ∧
    Names req (ownStatus h req) cqid cqe

/-- The request number `id` is in one entry of the list, which is open. -/
def WaitsFor (th : IoState) (id : ℕ) : Prop :=
  ∃! slot, InIo th.pi slot ∧ heldId th slot = some id ∧
    (th.pi.procTable slot).isCompleted = false

theorem length_postingsOf (th : IoState) (id : ℕ) :
    (postingsOf th id).length = (postedIds th).count (some id) := by
  rw [postingsOf, postedIds, List.count, List.countP_map,
    List.countP_eq_length_filter]
  congr 1
  refine List.filter_congr fun posting _ => ?_
  simp [beq_eq_decide]

/-- A posted command has one completion, its own. -/
theorem Sound.completes (h : Sound build th book) {id : ℕ} {req : IoReq}
    (hentry : (id, req) ∈ book) (hposted : some id ∈ postedIds th) :
    ∃ posting, postingsOf th id = [posting] ∧ Completes posting req := by
  obtain ⟨fresh, recl, io, htracked, -⟩ := h.accounted
  have hlength : (postingsOf th id).length = 1 := by
    have hle := count_postedIds_le htracked id
    have hpos := List.count_pos_iff.mpr hposted
    rw [length_postingsOf]
    omega
  obtain ⟨posting, hone⟩ := List.length_eq_one_iff.mp hlength
  refine ⟨posting, hone, ?_⟩
  have hmem : posting ∈ postingsOf th id := by simp [hone]
  obtain ⟨hmem, hid⟩ := List.mem_filter.mp hmem
  obtain ⟨⟨holder, hh, hpost⟩, -⟩ := h.carried.posted posting hmem
  rw [decide_eq_true_iff, Posting.id, hh, Option.map_some,
    Option.some_inj] at hid
  have hrequest := (h.booked.posted posting hmem holder hh req).mpr
    (hid.symm ▸ hentry)
  rw [hrequest] at hpost
  cases hkind : posting.post with
  | completion cqid cqe =>
      rw [hkind] at hpost
      exact ⟨holder, cqid, cqe, hh, hkind, hpost.1⟩
  | release writeBuffer buffs =>
      rw [hkind] at hpost
      exact hpost.elim

theorem Sound.waits (h : Sound build th book) {id : ℕ} {req : IoReq}
    (hentry : (id, req) ∈ book) (hopen : some id ∉ postedIds th) :
    postingsOf th id = [] ∧ WaitsFor th id := by
  obtain ⟨fresh, recl, io, htracked, haccounted⟩ := h.accounted
  constructor
  · rw [← List.length_eq_zero_iff, length_postingsOf]
    exact List.count_eq_zero.mpr hopen
  · have hwaits := waits_in_one_slot htracked haccounted
      (h.booked.lt _ hentry) hopen
    rw [WaitsFor]
    simp only [inIo_iff htracked.linked]
    exact hwaits

/-- A completion belongs to a command in the book. -/
theorem Sound.completion_booked (h : Sound build th book) {posting : Posting}
    (hmem : posting ∈ th.posted) {cqid : ℕ} {cqe : Completion}
    (hpost : posting.post = .completion cqid cqe) :
    ∃ id req, posting.id = some id ∧ (id, req) ∈ book := by
  obtain ⟨⟨holder, hh, hmatch⟩, -⟩ := h.carried.posted posting hmem
  cases hrequest : holder.request with
  | io req =>
      refine ⟨holder.id, req, by rw [Posting.id, hh, Option.map_some], ?_⟩
      exact (h.booked.posted posting hmem holder hh req).mp hrequest
  | writeback wb =>
      rw [hrequest, hpost] at hmatch
      exact hmatch.elim

end Thread

/-! ## The machine -/

/-- Where `__nvmev_proc_io` is with the command at hand: before the call of
`proc_io_cmd`, handing over the writebacks and then the command, or reclaiming
on worker after worker. -/
inductive Stage
  | command
  | writebacks (todo : List Writeback) (nsecsStart : ℕ)
      (verdict : Option NvmevResult)
  | reclaim (turn ioSize : ℕ)

/-- The locals of `nvmev_proc_io_sq`; `seq` commands have been dispatched, and
`left` more are to go. -/
structure Job where
  sqid : ℕ
  oldDb : ℕ
  seq : ℕ
  left : ℕ
  sqEntry : ℕ
  stage : Stage

structure Ticket (κ : Type) where
  sqid : ℕ
  command : Command κ
  req : IoReq
  turn : ℕ
  id : Option ℕ

/-- The workers share the completion queues, so `out` counts, and not the
`out` of a thread.  `submitted` and `tickets` are history. -/
structure System (φ κ : Type) where
  sqes : ℕ → Option (SubmissionQueue κ)
  dbs : ℕ → ℕ
  oldDbs : ℕ → ℕ
  nrIoCpu : ℕ
  threads : ℕ → IoState
  out : Outputs
  clock : Clock
  ftl : φ
  job : Option Job
  submitted : ℕ → List (Command κ)
  tickets : List (Ticket κ)

inductive SysAction (κ : Type)
  /-- The host writes commands into the ring and rings the doorbell. -/
  | submit (sqid : ℕ) (cmds : List (Command κ))
  /-- Completions and the completion queue doorbells change the statistics. -/
  | completions (stats : ℕ → SqStat)
  /-- `nvmev_proc_dbs` looks at a doorbell. -/
  | poll (sqid : ℕ)
  | dispatch
  | worker (turn : ℕ) (action : IoAction)

variable {φ κ : Type}

/-- The tables the dispatcher sees. -/
def System.workers (s : System φ κ) : Workers :=
  { nrIoCpu := s.nrIoCpu, procInfo := fun turn => (s.threads turn).pi }

def System.withThread (s : System φ κ) (turn : ℕ) (th : IoState) :
    System φ κ :=
  { s with threads := Function.update s.threads turn th, out := th.out }

/-- A step on the table of worker `turn`. -/
def System.onThread (build : Build) (s : System φ κ) (turn : ℕ)
    (action : IoAction) : Except Fault (System φ κ) := do
  let th ← ioStep build { s.threads turn with out := s.out } action
  .ok (s.withThread turn th)

/-- The end of `nvmev_proc_io_sq`, and the doorbell it returns. -/
def System.finish (s : System φ κ) (j : Job) (sq : SubmissionQueue κ) :
    Except Fault (System φ κ) :=
  if sq.queueSize = 0 then .error .divideByZero
  else .ok
    { s with
      sqes := Function.update s.sqes j.sqid
        (some { sq with stat := sq.stat.dispatch })
      oldDbs := Function.update s.oldDbs (j.sqid * 2)
        ((j.oldDb + j.seq) % sq.queueSize)
      job := none }

/-- The call of `proc_io_cmd`. -/
def System.call (procIoCmd : ProcIoCmd φ κ) (s : System φ κ) (j : Job)
    (sq : SubmissionQueue κ) : System φ κ :=
  let (nsecsStart, clock) := s.clock.read
  let ret := { status := 0, nsecsTarget := nsecsStart, result := 0 }
  let reply := procIoCmd s.ftl (sq.entries j.sqEntry) j.sqid nsecsStart ret
  { s with
    clock := clock
    ftl := reply.ftl
    job := some { j with
      stage := .writebacks reply.writebacks nsecsStart
        (if reply.accepted then some reply.ret else none) } }

/-- `__enqueue_io_req` on the worker `turn`, with the ticket of the command. -/
def System.enqueue (build : Build) (s : System φ κ) (j : Job)
    (sq : SubmissionQueue κ) (nsecsStart : ℕ) (ret : NvmevResult)
    (turn : ℕ) : Except Fault (System φ κ) := do
  let cmd := sq.entries j.sqEntry
  let (nsecsEnqueue, clock) := s.clock.read
  let req : IoReq :=
    { sqid := j.sqid, cqid := sq.cqid, sqEntry := j.sqEntry
      commandId := cmd.commandId, nsecsStart := nsecsStart
      nsecsEnqueue := nsecsEnqueue, ret := ret }
  let ticket : Ticket κ :=
    { sqid := j.sqid, command := cmd, req := req, turn := turn
      id := if HasRoom (s.threads turn).pi then some (s.threads turn).accepted
        else none }
  let s ← { s with clock := clock }.onThread build turn (.enqueue (.io req))
  .ok { s with
    job := some { j with
      stage := .reclaim 0 (lbaToByte (cmd.length + 1)) }
    tickets := s.tickets ++ [ticket] }

/-- One step of the dispatcher in `nvmev_proc_io_sq`. -/
def System.dispatch (procIoCmd : ProcIoCmd φ κ) (build : Build)
    (s : System φ κ) (j : Job) (sq : SubmissionQueue κ) :
    Except Fault (System φ κ) :=
  match j.stage with
  | .command =>
      if j.left = 0 then s.finish j sq else .ok (s.call procIoCmd j sq)
  | .writebacks (wb :: todo) nsecsStart verdict => do
      let turn ← getIoWorker s.workers wb.sqid
      let s ← s.onThread build turn (.enqueue (.writeback wb))
      .ok { s with
        job := some { j with stage := .writebacks todo nsecsStart verdict } }
  | .writebacks [] _ none => s.finish j sq
  | .writebacks [] nsecsStart (some ret) => do
      let turn ← getIoWorker s.workers j.sqid
      s.enqueue build j sq nsecsStart ret turn
  | .reclaim turn ioSize =>
      if turn < s.nrIoCpu then do
        let s ← s.onThread build turn .reclaim
        .ok { s with
          job := some { j with stage := .reclaim (turn + 1) ioSize } }
      else .ok
        { s with
          sqes := Function.update s.sqes j.sqid
            (some { sq with stat := sq.stat.dispatched ioSize })
          job := some { j with
            seq := j.seq + 1
            left := j.left - 1
            sqEntry := nextEntry sq.queueSize j.sqEntry
            stage := .command } }

/-- The tickets of a queue, oldest first: the entries they came from and their
commands. -/
def accepted (tickets : List (Ticket κ)) (sqid : ℕ) : List (ℕ × Command κ) :=
  (tickets.filter fun ticket => ticket.sqid = sqid).map fun ticket =>
    (ticket.req.sqEntry, ticket.command)

def sysStep (procIoCmd : ProcIoCmd φ κ) (build : Build) (s : System φ κ) :
    SysAction κ → Except Fault (System φ κ)
  | .submit sqid cmds =>
      match s.sqes sqid with
      | none => .ok s
      | some sq =>
          let written := (s.submitted sqid).length
          .ok { s with
            sqes := Function.update s.sqes sqid (some { sq with
              entries := writeRing sq.queueSize sq.entries written cmds })
            dbs := Function.update s.dbs (sqid * 2)
              ((written + cmds.length) % sq.queueSize)
            submitted := Function.update s.submitted sqid
              (s.submitted sqid ++ cmds) }
  | .completions stats => .ok { s with sqes := withStat stats s.sqes }
  | .poll sqid =>
      match s.sqes sqid with
      | none => .ok s
      | some sq =>
          let newDb := s.dbs (sqid * 2)
          let oldDb := s.oldDbs (sqid * 2)
          if newDb ≠ oldDb then
            .ok { s with
              job := some
                { sqid := sqid, oldDb := oldDb, seq := 0
                  left := numProc newDb oldDb sq.queueSize, sqEntry := oldDb
                  stage := .command } }
          else .ok s
  | .dispatch =>
      match s.job with
      | none => .ok s
      | some j =>
          match s.sqes j.sqid with
          | none => .ok s
          | some sq => s.dispatch procIoCmd build j sq
  | .worker turn action => s.onThread build turn action

/-- The host keeps fewer than `queue_size` commands outstanding. -/
def SysEnabled (s : System φ κ) : SysAction κ → Prop
  | .submit sqid cmds => ∀ sq, s.sqes sqid = some sq →
      (s.submitted sqid).length + cmds.length <
        (accepted s.tickets sqid).length + sq.queueSize
  | .completions _ => True
  | .poll _ => s.job = none
  | .dispatch => s.job ≠ none
  | .worker turn .restart => (s.threads turn).cursor = none
  | .worker turn (.visit _ _) => (s.threads turn).cursor ≠ none
  | .worker _ _ => False

/-- The queues have just been created, and no command has been submitted. -/
structure SysInit (s : System φ κ) : Prop where
  queueSize_pos : ∀ sqid sq, s.sqes sqid = some sq → 0 < sq.queueSize
  dbs_eq : ∀ place, s.dbs place = 0
  oldDbs_eq : ∀ place, s.oldDbs place = 0
  nr_ne : s.nrIoCpu ≠ 0
  threads_eq : ∀ turn, ∃ out, s.threads turn = .start out
  job_eq : s.job = none
  submitted_eq : ∀ sqid, s.submitted sqid = []
  tickets_eq : s.tickets = []

def sysMachine (procIoCmd : ProcIoCmd φ κ) (build : Build) :
    Machine (System φ κ) (SysAction κ) Fault where
  init := SysInit
  enabled := SysEnabled
  step := sysStep procIoCmd build

/-! ## What every step keeps -/

/-- The numbers worker `turn` gave, with the requests that have them. -/
def bookOf (tickets : List (Ticket κ)) (turn : ℕ) : List (ℕ × IoReq) :=
  tickets.filterMap fun ticket =>
    if ticket.turn = turn then ticket.id.map fun id => (id, ticket.req)
    else none

def historyOf (submitted : ℕ → List (Command κ)) (tickets : List (Ticket κ))
    (sqid : ℕ) : QueueHistory κ :=
  { submitted := submitted sqid, accepted := accepted tickets sqid
    calls := [] }

/-- The entry behind the last command with a ticket. -/
def Job.place (j : Job) (queueSize : ℕ) : ℕ :=
  match j.stage with
  | .reclaim _ _ => nextEntry queueSize j.sqEntry
  | _ => j.sqEntry

/-- The tickets of this call. -/
def Job.count (j : Job) : ℕ :=
  match j.stage with
  | .reclaim _ _ => j.seq + 1
  | _ => j.seq

/-- The commands that have no ticket yet. -/
def Job.rest (j : Job) : ℕ :=
  match j.stage with
  | .reclaim _ _ => j.left - 1
  | _ => j.left

/-- The place a queue has been served up to. -/
def placeOf (job : Option Job) (oldDbs : ℕ → ℕ) (sqid queueSize : ℕ) : ℕ :=
  match job with
  | some j => if j.sqid = sqid then j.place queueSize else oldDbs (sqid * 2)
  | none => oldDbs (sqid * 2)

/-- A call that is under way has a queue, and the commands it has left to
serve have been submitted. -/
structure JobOk (sqes : ℕ → Option (SubmissionQueue κ))
    (submitted : ℕ → List (Command κ)) (tickets : List (Ticket κ))
    (j : Job) : Prop where
  queue : ∃ sq, sqes j.sqid = some sq ∧
    (j.oldDb + j.count) % sq.queueSize =
      (accepted tickets j.sqid).length % sq.queueSize
  rest_le : (accepted tickets j.sqid).length + j.rest ≤
    (submitted j.sqid).length
  rest_pos : ∀ todo nsecsStart verdict,
    j.stage = .writebacks todo nsecsStart verdict → 0 < j.rest

/-- A ticket is for the command in the entry it names. -/
structure Issued (sqes : ℕ → Option (SubmissionQueue κ)) (ticket : Ticket κ) :
    Prop where
  sqid_eq : ticket.req.sqid = ticket.sqid
  commandId_eq : ticket.req.commandId = ticket.command.commandId
  cqid_eq : ∃ sq, sqes ticket.sqid = some sq ∧ ticket.req.cqid = sq.cqid

structure SysInv (build : Build) (s : System φ κ) : Prop where
  nr_ne : s.nrIoCpu ≠ 0
  sound : ∀ turn, Sound build (s.threads turn) (bookOf s.tickets turn)
  issued : ∀ ticket ∈ s.tickets, Issued s.sqes ticket
  served : ∀ sqid sq, s.sqes sqid = some sq →
    Served (s.dbs (sqid * 2)) (placeOf s.job s.oldDbs sqid sq.queueSize)
      (historyOf s.submitted s.tickets sqid) sq
  job : ∀ j, s.job = some j → JobOk s.sqes s.submitted s.tickets j

section

variable {build : Build} {s s' : System φ κ} {procIoCmd : ProcIoCmd φ κ}

theorem sysInv_init (hinit : SysInit s) : SysInv build s where
  nr_ne := hinit.nr_ne
  sound turn := by
    obtain ⟨out, hstart⟩ := hinit.threads_eq turn
    rw [hstart, hinit.tickets_eq]
    exact sound_start build out
  issued := by simp [hinit.tickets_eq]
  served sqid sq hsq := by
    have hpos := hinit.queueSize_pos sqid sq hsq
    rw [hinit.job_eq, historyOf, hinit.tickets_eq, hinit.submitted_eq,
      hinit.dbs_eq]
    change Served 0 (s.oldDbs (sqid * 2)) _ _
    rw [hinit.oldDbs_eq]
    exact
      { newDb_eq := (Nat.zero_mod _).symm
        oldDb_eq := (Nat.zero_mod _).symm
        accepted_eq := rfl
        length_le := le_rfl
        room := by simpa [accepted] using hpos
        holds := holdsFrom_nil _ _ _ }
  job j hj := by simp [hinit.job_eq] at hj

@[simp]
theorem withThread_threads_self (s : System φ κ) (turn : ℕ) (th : IoState) :
    (s.withThread turn th).threads turn = th :=
  Function.update_self ..

theorem withThread_threads_of_ne (s : System φ κ) {turn other : ℕ}
    (hother : other ≠ turn) (th : IoState) :
    (s.withThread turn th).threads other = s.threads other :=
  Function.update_of_ne hother ..

/-- A step on one worker, whatever it is. -/
theorem onThread_sound {turn : ℕ} {action : IoAction}
    {book : List (ℕ × IoReq)} (hsound : Sound build (s.threads turn) book)
    (henabled : Enabled (s.threads turn) action) :
    ∃ th, s.onThread build turn action = .ok (s.withThread turn th) ∧
      Sound build th (bookAfter (s.threads turn) book action) := by
  have henabled' : Enabled { s.threads turn with out := s.out } action := by
    cases action <;> exact henabled
  obtain ⟨th, hrun, hnext⟩ := (hsound.withOut s.out).step henabled'
  refine ⟨th, by rw [System.onThread, hrun, ok_bind], ?_⟩
  cases action with
  | enqueue request => cases request <;> exact hnext
  | reclaim => exact hnext
  | restart => exact hnext
  | visit currNsecs answer => exact hnext

theorem withThread_sound {turn : ℕ} {th : IoState}
    {tickets : List (Ticket κ)} (hself : Sound build th (bookOf tickets turn))
    (hother : ∀ other, other ≠ turn →
      Sound build (s.threads other) (bookOf tickets other)) (other : ℕ) :
    Sound build ((s.withThread turn th).threads other)
      (bookOf tickets other) := by
  by_cases heq : other = turn
  · rw [heq, withThread_threads_self]
    exact hself
  · rw [withThread_threads_of_ne s heq]
    exact hother other heq

/-- A step on one worker that gives no command a number. -/
theorem SysInv.onThread (h : SysInv build s) (turn : ℕ) (action : IoAction)
    (henabled : Enabled (s.threads turn) action)
    (hbook : ∀ book, bookAfter (s.threads turn) book action = book) :
    ∃ th, s.onThread build turn action = .ok (s.withThread turn th) ∧
      SysInv build (s.withThread turn th) := by
  obtain ⟨th, hrun, hsound⟩ := onThread_sound (h.sound turn) henabled
  rw [hbook] at hsound
  exact ⟨th, hrun, { h with
    sound := withThread_sound hsound fun other _ => h.sound other }⟩

/-- What a queue is created with, and what the host has written into it. -/
def queueSetup (sq : SubmissionQueue κ) :
    ℕ × ℕ × (ℕ → Command κ) :=
  (sq.cqid, sq.queueSize, sq.entries)

/-- The statistics are nobody's business here. -/
theorem SysInv.withSqes (h : SysInv build s)
    {sqes : ℕ → Option (SubmissionQueue κ)}
    (hsame : ∀ sqid, (sqes sqid).map queueSetup =
      (s.sqes sqid).map queueSetup) :
    SysInv build { s with sqes := sqes } := by
  have hlater : ∀ sqid sq, s.sqes sqid = some sq → ∃ sq',
      sqes sqid = some sq' ∧ queueSetup sq' =
        queueSetup sq := by
    intro sqid sq hsq
    have heq := hsame sqid
    rw [hsq, Option.map_some, Option.map_eq_some_iff] at heq
    exact heq
  refine { h with issued := ?_, served := ?_, job := ?_ }
  · intro ticket hticket
    obtain ⟨hsqid, hcommand, sq, hsq, hcqid⟩ := h.issued ticket hticket
    obtain ⟨sq', hsq', heq⟩ := hlater _ sq hsq
    exact ⟨hsqid, hcommand, sq', hsq', hcqid.trans (congrArg Prod.fst heq).symm⟩
  · intro sqid sq' hsq'
    have heq := hsame sqid
    change sqes sqid = some sq' at hsq'
    rw [hsq', Option.map_some, eq_comm, Option.map_eq_some_iff] at heq
    obtain ⟨sq, hsq, heq⟩ := heq
    have hsize : sq.queueSize = sq'.queueSize :=
      congrArg (fun fields => fields.2.1) heq
    have hentries : sq.entries = sq'.entries :=
      congrArg (fun fields => fields.2.2) heq
    obtain ⟨hnew, hold, haccepted, hle, hroom, hholds⟩ := h.served sqid sq hsq
    rw [hsize] at hnew hold haccepted hroom hholds
    rw [hentries] at hholds
    exact ⟨hnew, hold, haccepted, hle, hroom, hholds⟩
  · intro j hj
    obtain ⟨⟨sq, hsq, hmod⟩, hrest, hpos⟩ := h.job j hj
    obtain ⟨sq', hsq', heq⟩ := hlater _ sq hsq
    have hsize : sq'.queueSize = sq.queueSize :=
      congrArg (fun fields => fields.2.1) heq
    exact ⟨⟨sq', hsq', by rw [hsize]; exact hmod⟩, hrest, hpos⟩

theorem update_queueSetup {sqid : ℕ} {sq sq' : SubmissionQueue κ}
    {sqes : ℕ → Option (SubmissionQueue κ)} (hsq : sqes sqid = some sq)
    (heq : queueSetup sq' = queueSetup sq)
    (other : ℕ) :
    (Function.update sqes sqid (some sq') other).map queueSetup =
      (sqes other).map queueSetup := by
  by_cases hother : other = sqid
  · rw [hother, Function.update_self, hsq, Option.map_some, Option.map_some,
      heq]
  · rw [Function.update_of_ne hother]

/-- A call under way that goes on, with no new ticket. -/
theorem SysInv.withJob (h : SysInv build s) {j k : Job}
    (hj : s.job = some j) (hsqid : k.sqid = j.sqid)
    (hplace : ∀ sq, s.sqes j.sqid = some sq →
      k.place sq.queueSize = j.place sq.queueSize)
    (hcount : k.oldDb + k.count = j.oldDb + j.count)
    (hrest : k.rest = j.rest)
    (hpos : ∀ todo nsecsStart verdict,
      k.stage = .writebacks todo nsecsStart verdict → 0 < k.rest) :
    SysInv build { s with job := some k } := by
  refine { h with served := ?_, job := ?_ }
  · intro sqid sq hsq
    have hserved := h.served sqid sq hsq
    have hsame : placeOf (some k) s.oldDbs sqid sq.queueSize =
        placeOf s.job s.oldDbs sqid sq.queueSize := by
      rw [hj]
      simp only [placeOf, hsqid]
      split_ifs with heq
      · exact hplace sq (heq ▸ hsq)
      · rfl
    change Served _ (placeOf (some k) s.oldDbs sqid sq.queueSize) _ _
    rw [hsame]
    exact hserved
  · intro other hother
    obtain rfl := Option.some.inj hother
    obtain ⟨⟨sq, hsq, hmod⟩, hle, -⟩ := h.job j hj
    refine ⟨⟨sq, hsqid ▸ hsq, ?_⟩, ?_, hpos⟩
    · rw [hcount, hsqid]
      exact hmod
    · rw [hrest, hsqid]
      exact hle

/-- The end of a call: the doorbell it returns is the place it has reached. -/
theorem SysInv.finish (h : SysInv build s) {j : Job} (hj : s.job = some j)
    {sq : SubmissionQueue κ} (hsq : s.sqes j.sqid = some sq)
    (hcount : j.count = j.seq) :
    ∃ s', s.finish j sq = .ok s' ∧ SysInv build s' := by
  have hserved := h.served j.sqid sq hsq
  have hpositive := hserved.queueSize_pos
  refine ⟨_, by rw [System.finish, if_neg hpositive.ne'], ?_⟩
  obtain ⟨⟨other, hother, hmod⟩, -⟩ := h.job j hj
  obtain rfl := Option.some.inj (hsq.symm.trans hother)
  have hplaceOf : ∀ sqid sq', s.sqes sqid = some sq' →
      placeOf none (Function.update s.oldDbs (j.sqid * 2)
        ((j.oldDb + j.seq) % sq.queueSize)) sqid sq'.queueSize =
      placeOf s.job s.oldDbs sqid sq'.queueSize := by
    intro sqid sq' hsq'
    rw [hj]
    simp only [placeOf]
    split_ifs with heq
    · obtain rfl : sq = sq' := Option.some.inj
        (hsq.symm.trans (heq ▸ hsq'))
      have hold := hserved.oldDb_eq
      rw [hj] at hold
      simp only [placeOf, if_true] at hold
      rw [← heq, Function.update_self, hold, ← hcount, hmod]
      rfl
    · rw [Function.update_of_ne (double_ne (Ne.symm heq))]
  have hclosed : SysInv build
      { s with
        oldDbs := Function.update s.oldDbs (j.sqid * 2)
          ((j.oldDb + j.seq) % sq.queueSize)
        job := none } := by
    refine { h with served := fun sqid sq' hsq' => ?_, job := ?_ }
    · have hnext := h.served sqid sq' hsq'
      rw [← hplaceOf sqid sq' hsq'] at hnext
      exact hnext
    · intro other hother
      cases hother
  exact hclosed.withSqes (update_queueSetup hsq rfl)

/-- The next submitted command is accepted. -/
theorem served_accept {newDb oldDb : ℕ} {history : QueueHistory κ}
    {sq : SubmissionQueue κ} (hserved : Served newDb oldDb history sq)
    (hlt : history.accepted.length < history.submitted.length) :
    Served newDb (nextEntry sq.queueSize oldDb)
      { history with
        accepted := history.accepted ++ [(oldDb, sq.entries oldDb)] } sq := by
  have hroom : history.accepted.length + 1 ≤ history.submitted.length := hlt
  have hread := hserved.holds.read hroom
  rw [← hserved.accepted_eq] at hread
  have hone : (List.range 1).map (fun step =>
      ((history.accepted.length + step) % sq.queueSize,
        sq.entries ((history.accepted.length + step) % sq.queueSize))) =
      [(oldDb, sq.entries oldDb)] := by
    simp [hserved.oldDb_eq]
  rw [hone] at hread
  exact
    { newDb_eq := hserved.newDb_eq
      oldDb_eq := by
        rw [List.length_append, hserved.oldDb_eq,
          nextEntry_mod hserved.queueSize_pos]
        rfl
      accepted_eq := by
        rw [List.length_append]
        exact hread
      length_le := by
        rw [List.length_append]
        exact hlt
      room := by
        have hroom := hserved.room
        simp only [List.length_append, List.length_singleton]
        omega
      holds := hserved.holds.later (by simp) }

theorem accepted_append (tickets : List (Ticket κ)) (ticket : Ticket κ)
    (sqid : ℕ) :
    accepted (tickets ++ [ticket]) sqid =
      if ticket.sqid = sqid then
        accepted tickets sqid ++ [(ticket.req.sqEntry, ticket.command)]
      else accepted tickets sqid := by
  rw [accepted, accepted, List.filter_append, List.map_append]
  split_ifs with heq <;> simp [heq]

theorem bookOf_append (tickets : List (Ticket κ)) (ticket : Ticket κ)
    (turn : ℕ) :
    bookOf (tickets ++ [ticket]) turn =
      bookOf tickets turn ++
        (if ticket.turn = turn then ticket.id.map fun id => (id, ticket.req)
          else none).toList := by
  rw [bookOf, bookOf, List.filterMap_append]
  congr 1

/-- The command at hand gets its ticket. -/
theorem SysInv.enqueue (h : SysInv build s) {j : Job} (hj : s.job = some j)
    {sq : SubmissionQueue κ} (hsq : s.sqes j.sqid = some sq)
    {nsecsStart : ℕ} {verdict : Option NvmevResult}
    (hstage : j.stage = .writebacks [] nsecsStart verdict)
    (ret : NvmevResult) (turn : ℕ) :
    ∃ s', s.enqueue build j sq nsecsStart ret turn = .ok s' ∧
      SysInv build s' := by
  let req : IoReq :=
    { sqid := j.sqid, cqid := sq.cqid, sqEntry := j.sqEntry
      commandId := (sq.entries j.sqEntry).commandId
      nsecsStart := nsecsStart, nsecsEnqueue := s.clock.read.1, ret := ret }
  let ticket : Ticket κ :=
    { sqid := j.sqid, command := sq.entries j.sqEntry, req := req
      turn := turn
      id := if HasRoom (s.threads turn).pi then some (s.threads turn).accepted
        else none }
  have henabled : Enabled
      (({ s with clock := s.clock.read.2 } : System φ κ).threads turn)
      (.enqueue (.io req)) := trivial
  obtain ⟨th, hrun, hsound⟩ := onThread_sound
    (s := { s with clock := s.clock.read.2 }) (h.sound turn) henabled
  have hbook : bookAfter (s.threads turn) (bookOf s.tickets turn)
      (.enqueue (.io req)) = bookOf (s.tickets ++ [ticket]) turn := by
    rw [bookOf_append, if_pos rfl, bookAfter]
    split_ifs with hroom <;> simp [ticket, hroom]
  have hother : ∀ other, other ≠ turn →
      Sound build (s.threads other) (bookOf (s.tickets ++ [ticket]) other) := by
    intro other hne
    rw [bookOf_append, if_neg (Ne.symm hne), Option.toList_none,
      List.append_nil]
    exact h.sound other
  obtain ⟨⟨sq', hsq', hmod⟩, hle, hpos⟩ := h.job j hj
  obtain rfl := Option.some.inj (hsq.symm.trans hsq')
  have hrest := hpos [] nsecsStart verdict hstage
  have hstart : placeOf s.job s.oldDbs j.sqid sq.queueSize = j.sqEntry := by
    rw [hj]
    simp only [placeOf, if_true, Job.place, hstage]
  refine ⟨_, by rw [System.enqueue]; dsimp only; rw [hrun, ok_bind], ?_⟩
  refine { nr_ne := h.nr_ne, sound := withThread_sound (hbook ▸ hsound) hother,
           issued := ?_, served := ?_, job := ?_ }
  · intro other hmem
    obtain hold | hnew := List.mem_append.mp hmem
    · exact h.issued other hold
    · rw [List.mem_singleton.mp hnew]
      exact ⟨rfl, rfl, sq, hsq, rfl⟩
  · intro sqid sq' hsq'
    have hserved := h.served sqid sq' hsq'
    by_cases hself : j.sqid = sqid
    · subst hself
      obtain rfl := Option.some.inj (hsq.symm.trans hsq')
      rw [hstart] at hserved
      have hlt : (accepted s.tickets j.sqid).length <
          (s.submitted j.sqid).length := by omega
      have hnext := served_accept hserved hlt
      simp only [placeOf, if_true, Job.place, historyOf, accepted_append]
      exact hnext
    · rw [hj] at hserved
      simp only [placeOf, if_neg hself, historyOf] at hserved
      simp only [placeOf, if_neg hself, historyOf, accepted_append]
      exact hserved
  · intro other hjob
    obtain rfl := Option.some.inj hjob
    have hlength : (accepted (s.tickets ++ [ticket]) j.sqid).length =
        (accepted s.tickets j.sqid).length + 1 := by
      rw [accepted_append, if_pos rfl, List.length_append]
      rfl
    simp only [Job.count, Job.rest, hstage] at hmod hle hrest
    have hdone : (j.oldDb + (j.seq + 1)) % sq.queueSize =
        (accepted (s.tickets ++ [ticket]) j.sqid).length % sq.queueSize := by
      rw [hlength, ← Nat.add_assoc, Nat.add_mod, hmod, ← Nat.add_mod]
    have hleft : (accepted (s.tickets ++ [ticket]) j.sqid).length +
        (j.left - 1) ≤ (s.submitted j.sqid).length := by omega
    exact ⟨⟨sq, hsq, hdone⟩, hleft, fun _ _ _ hbad => by cases hbad⟩

theorem SysInv.call (h : SysInv build s) {j : Job} (hj : s.job = some j)
    (hstage : j.stage = .command) (hleft : j.left ≠ 0)
    (procIoCmd : ProcIoCmd φ κ) (sq : SubmissionQueue κ) :
    SysInv build (s.call procIoCmd j sq) := by
  have hclock : SysInv build
      { s with
        clock := s.clock.read.2
        ftl := (s.call procIoCmd j sq).ftl } := { h with }
  refine hclock.withJob hj rfl (fun _ _ => ?_) ?_ ?_ fun _ _ _ _ => ?_
  · simp only [Job.place, hstage]
  · simp only [Job.count, hstage]
  · simp only [Job.rest, hstage]
  · exact Nat.pos_of_ne_zero hleft

/-- The dispatcher neither faults nor breaks the invariant. -/
theorem SysInv.dispatch (h : SysInv build s) {j : Job} (hj : s.job = some j)
    {sq : SubmissionQueue κ} (hsq : s.sqes j.sqid = some sq)
    (procIoCmd : ProcIoCmd φ κ) :
    ∃ s', s.dispatch procIoCmd build j sq = .ok s' ∧ SysInv build s' := by
  have hworker : ∀ sqid, ∃ turn, getIoWorker s.workers sqid = .ok turn :=
    fun sqid => ⟨_, getIoWorker_of h.nr_ne sqid⟩
  rw [System.dispatch]
  cases hstage : j.stage with
  | command =>
      dsimp only
      split_ifs with hleft
      · exact h.finish hj hsq (by simp only [Job.count, hstage])
      · exact ⟨_, rfl, h.call hj hstage hleft procIoCmd sq⟩
  | writebacks todo nsecsStart verdict =>
      cases todo with
      | cons wb todo =>
          obtain ⟨turn, hturn⟩ := hworker wb.sqid
          obtain ⟨th, hrun, hnext⟩ := h.onThread turn
            (.enqueue (.writeback wb)) trivial fun _ => rfl
          have hpos := (h.job j hj).rest_pos _ _ _ hstage
          dsimp only
          rw [hturn, ok_bind, hrun, ok_bind]
          refine ⟨_, rfl, hnext.withJob hj rfl (fun _ _ => ?_) ?_ ?_
            fun _ _ _ _ => ?_⟩
          · simp only [Job.place, hstage]
          · simp only [Job.count, hstage]
          · simp only [Job.rest, hstage]
          · simpa only [Job.rest, hstage] using hpos
      | nil =>
          cases verdict with
          | none => exact h.finish hj hsq (by simp only [Job.count, hstage])
          | some ret =>
              obtain ⟨turn, hturn⟩ := hworker j.sqid
              dsimp only
              rw [hturn, ok_bind]
              exact h.enqueue hj hsq hstage ret turn
  | reclaim turn ioSize =>
      dsimp only
      split_ifs with hturn
      · obtain ⟨th, hrun, hnext⟩ := h.onThread turn .reclaim
          trivial fun _ => rfl
        rw [hrun, ok_bind]
        refine ⟨_, rfl, hnext.withJob hj rfl (fun _ _ => ?_) ?_ ?_
          fun _ _ _ hbad => by cases hbad⟩
        · simp only [Job.place, hstage]
        · simp only [Job.count, hstage]
        · simp only [Job.rest, hstage]
      · have hnext := h.withJob (k := { j with
            seq := j.seq + 1
            left := j.left - 1
            sqEntry := nextEntry sq.queueSize j.sqEntry
            stage := .command }) hj rfl (fun sq' hsq' => by
          obtain rfl := Option.some.inj (hsq.symm.trans hsq')
          simp only [Job.place, hstage]) (by simp only [Job.count, hstage])
          (by simp only [Job.rest, hstage]) fun _ _ _ hbad => by cases hbad
        exact ⟨_, rfl, hnext.withSqes (update_queueSetup hsq rfl)⟩

theorem SysInv.submit (h : SysInv build s) {sqid : ℕ}
    {sq : SubmissionQueue κ} (hsq : s.sqes sqid = some sq)
    {cmds : List (Command κ)}
    (hroom : (s.submitted sqid).length + cmds.length <
      (accepted s.tickets sqid).length + sq.queueSize) :
    SysInv build
      { s with
        sqes := Function.update s.sqes sqid (some { sq with
          entries := writeRing sq.queueSize sq.entries
            (s.submitted sqid).length cmds })
        dbs := Function.update s.dbs (sqid * 2)
          (((s.submitted sqid).length + cmds.length) % sq.queueSize)
        submitted := Function.update s.submitted sqid
          (s.submitted sqid ++ cmds) } := by
  have hkept : ∀ other sq', s.sqes other = some sq' → ∃ sq'',
      Function.update s.sqes sqid (some { sq with
        entries := writeRing sq.queueSize sq.entries
          (s.submitted sqid).length cmds }) other = some sq'' ∧
        sq''.cqid = sq'.cqid ∧ sq''.queueSize = sq'.queueSize := by
    intro other sq' hsq'
    by_cases hother : other = sqid
    · subst hother
      obtain rfl := Option.some.inj (hsq.symm.trans hsq')
      exact ⟨_, Function.update_self .., rfl, rfl⟩
    · exact ⟨sq', (Function.update_of_ne hother ..).trans hsq', rfl, rfl⟩
  refine { h with issued := ?_, served := ?_, job := ?_ }
  · intro ticket hticket
    obtain ⟨hsqid, hcommand, sq', hsq', hcqid⟩ := h.issued ticket hticket
    obtain ⟨sq'', hsq'', heq, -⟩ := hkept _ sq' hsq'
    exact ⟨hsqid, hcommand, sq'', hsq'', hcqid.trans heq.symm⟩
  · intro other sq' hsq'
    by_cases hother : other = sqid
    · subst hother
      have hserved := (h.served other sq hsq).submit hroom
      dsimp only at hsq' ⊢
      rw [Function.update_self] at hsq'
      obtain rfl := Option.some.inj hsq'
      rw [Function.update_self, historyOf, Function.update_self]
      exact hserved
    · dsimp only at hsq' ⊢
      rw [Function.update_of_ne hother] at hsq'
      rw [Function.update_of_ne (double_ne hother), historyOf,
        Function.update_of_ne hother]
      exact h.served other sq' hsq'
  · intro j hj
    obtain ⟨⟨sq', hsq', hmod⟩, hle, hpos⟩ := h.job j hj
    obtain ⟨sq'', hsq'', -, hsize⟩ := hkept _ sq' hsq'
    refine ⟨⟨sq'', hsq'', by rw [hsize]; exact hmod⟩, ?_, hpos⟩
    dsimp only
    by_cases hother : j.sqid = sqid
    · rw [hother] at hle
      rw [hother, Function.update_self, List.length_append]
      omega
    · rw [Function.update_of_ne hother]
      exact hle

theorem SysInv.poll (h : SysInv build s) (hidle : s.job = none) {sqid : ℕ}
    {sq : SubmissionQueue κ} (hsq : s.sqes sqid = some sq) :
    SysInv build
      { s with
        job := some
          { sqid := sqid, oldDb := s.oldDbs (sqid * 2), seq := 0
            left := numProc (s.dbs (sqid * 2)) (s.oldDbs (sqid * 2))
              sq.queueSize
            sqEntry := s.oldDbs (sqid * 2), stage := .command } } := by
  have hserved := h.served sqid sq hsq
  rw [hidle] at hserved
  refine { h with served := ?_, job := ?_ }
  · intro other sq' hsq'
    have hother := h.served other sq' hsq'
    rw [hidle] at hother
    simp only [placeOf, Job.place]
    split_ifs with heq
    · rw [heq]
      exact hother
    · exact hother
  · intro j hj
    obtain rfl := Option.some.inj hj
    have hold : s.oldDbs (sqid * 2) =
        (accepted s.tickets sqid).length % sq.queueSize := hserved.oldDb_eq
    have hnum : numProc (s.dbs (sqid * 2)) (s.oldDbs (sqid * 2))
        sq.queueSize = (s.submitted sqid).length -
          (accepted s.tickets sqid).length := hserved.numProc_eq
    have hle : (accepted s.tickets sqid).length ≤
        (s.submitted sqid).length := hserved.length_le
    refine ⟨⟨sq, hsq, ?_⟩, ?_, fun _ _ _ hbad => by cases hbad⟩
    · simp only [Job.count, Nat.add_zero]
      rw [hold, Nat.mod_mod]
    · simp only [Job.rest]
      omega

theorem sysInv_inductive (procIoCmd : ProcIoCmd φ κ) (build : Build) :
    Inductive (sysMachine procIoCmd build) (SysInv build) where
  init _ hinit := sysInv_init hinit
  step s action h henabled := by
    change ∃ s', sysStep procIoCmd build s action = .ok s' ∧ SysInv build s'
    cases action with
    | submit sqid cmds =>
        rw [sysStep]
        cases hsq : s.sqes sqid with
        | none => exact ⟨s, rfl, h⟩
        | some sq => exact ⟨_, rfl, h.submit hsq (henabled sq hsq)⟩
    | completions stats =>
        refine ⟨_, rfl, h.withSqes fun sqid => ?_⟩
        rw [withStat, Option.map_map]
        rfl
    | poll sqid =>
        rw [sysStep]
        cases hsq : s.sqes sqid with
        | none => exact ⟨s, rfl, h⟩
        | some sq =>
            dsimp only
            split_ifs
            · exact ⟨_, rfl, h.poll henabled hsq⟩
            · exact ⟨s, rfl, h⟩
    | dispatch =>
        obtain ⟨j, hj⟩ := Option.ne_none_iff_exists'.mp henabled
        obtain ⟨⟨sq, hsq, -⟩, -⟩ := h.job j hj
        rw [sysStep, hj]
        dsimp only
        rw [hsq]
        exact h.dispatch hj hsq procIoCmd
    | worker turn action =>
        rw [sysStep]
        cases action with
        | enqueue request => exact henabled.elim
        | reclaim => exact henabled.elim
        | restart =>
            obtain ⟨th, hrun, hnext⟩ := h.onThread turn .restart
              henabled fun _ => rfl
            exact ⟨_, hrun, hnext⟩
        | visit currNsecs answer =>
            obtain ⟨th, hrun, hnext⟩ := h.onThread turn
              (.visit currNsecs answer) henabled fun _ => rfl
            exact ⟨_, hrun, hnext⟩

/-! ## Every command completes once -/

theorem mem_bookOf {tickets : List (Ticket κ)} {ticket : Ticket κ}
    (hticket : ticket ∈ tickets) {id : ℕ} (hid : ticket.id = some id) :
    (id, ticket.req) ∈ bookOf tickets ticket.turn :=
  List.mem_filterMap.mpr ⟨ticket, hticket, by rw [if_pos rfl, hid]; rfl⟩

/-- The tickets of one worker and one number. -/
def ticketsOf (tickets : List (Ticket κ)) (turn id : ℕ) : List (Ticket κ) :=
  tickets.filter fun ticket => ticket.turn = turn ∧ ticket.id = some id

theorem length_ticketsOf (tickets : List (Ticket κ)) (turn id : ℕ) :
    (ticketsOf tickets turn id).length =
      ((bookOf tickets turn).map Prod.fst).count id := by
  induction tickets with
  | nil => rfl
  | cons ticket tickets ih =>
      simp only [ticketsOf, bookOf, Bool.decide_and] at ih ⊢
      by_cases hturn : ticket.turn = turn
      · cases hid : ticket.id with
        | none => simp [hturn, hid, ih]
        | some number =>
            by_cases hnumber : number = id
            · simp [hturn, hid, hnumber, ih]
            · simp [hturn, hid, hnumber, ih]
      · simp [hturn, ih]

theorem SysInv.one_ticket (h : SysInv build s) {turn id : ℕ} {req : IoReq}
    (hentry : (id, req) ∈ bookOf s.tickets turn) :
    ∃ ticket, ticketsOf s.tickets turn id = [ticket] := by
  have hmem : id ∈ (bookOf s.tickets turn).map Prod.fst :=
    List.mem_map_of_mem hentry
  have hle := List.nodup_iff_count_le_one.mp (h.sound turn).booked.nodup id
  have hpos := List.count_pos_iff.mpr hmem
  rw [← length_ticketsOf] at hle hpos
  exact List.length_eq_one_iff.mp (by omega)

end

/-- One worker, and one queue that has just been created. -/
def oneQueue : System Unit Unit where
  sqes sqid := if sqid = 1 then some oneCommand else none
  dbs _ := 0
  oldDbs _ := 0
  nrIoCpu := 1
  threads _ := .start (.initial 1024)
  out := .initial 1024
  clock := { readings := fun _ => 0, reads := 0 }
  ftl := ()
  job := none
  submitted _ := []
  tickets := []

theorem sysInit_oneQueue : SysInit oneQueue where
  queueSize_pos sqid sq hsq := by
    simp only [oneQueue] at hsq
    split_ifs at hsq
    cases hsq
    exact (by decide : 0 < 1024)
  dbs_eq _ := rfl
  oldDbs_eq _ := rfl
  nr_ne := one_ne_zero
  threads_eq _ := ⟨_, rfl⟩
  job_eq := rfl
  submitted_eq _ := rfl
  tickets_eq := rfl

/-- The steps up to the enqueue of the first command. -/
def firstSteps : List (SysAction Unit) :=
  [.submit 1 [{ commandId := 7, length := 0, rest := () }], .poll 1,
    .dispatch]

def stateAfter (count : ℕ) : System Unit Unit :=
  match (firstSteps.take count).foldlM (sysStep acceptAll ⟨false, false⟩)
    oneQueue with
  | .ok s => s
  | .error _ => oneQueue

theorem reachable_stateAfter :
    Reachable (sysMachine acceptAll ⟨false, false⟩) (stateAfter 3) := by
  have hstart : Reachable (sysMachine acceptAll ⟨false, false⟩)
      (stateAfter 0) := .start sysInit_oneQueue
  have hsubmit : (sysMachine acceptAll ⟨false, false⟩).enabled (stateAfter 0)
      (.submit 1 [{ commandId := 7, length := 0, rest := () }]) := by
    intro sq hsq
    cases hsq
    exact (by decide : 0 + 1 < 0 + 1024)
  have hpoll : (sysMachine acceptAll ⟨false, false⟩).enabled (stateAfter 1)
      (.poll 1) := rfl
  have hcall : (sysMachine acceptAll ⟨false, false⟩).enabled (stateAfter 2)
      .dispatch := Option.some_ne_none _
  have hsubmitted : Reachable (sysMachine acceptAll ⟨false, false⟩)
      (stateAfter 1) := hstart.next hsubmit rfl
  have hpolled : Reachable (sysMachine acceptAll ⟨false, false⟩)
      (stateAfter 2) := hsubmitted.next hpoll rfl
  exact hpolled.next hcall rfl

/-- The enqueue gives the command the number `0`. -/
theorem stateAfter_enqueue {s : System Unit Unit}
    (hstep : (sysMachine acceptAll ⟨false, false⟩).step (stateAfter 3)
      .dispatch = .ok s) :
    ∃ ticket, s.tickets = [ticket] ∧ ticket.req.commandId = 7 ∧
      ticket.id = some 0 := by
  have hroom : HasRoom nvmevIoProcInit := by
    rw [nvmevIoProcInit_wellLinked.hasRoom_iff_length, nrMaxParallelIo]
    decide
  obtain ⟨turn, hturn, henqueue⟩ := bind_eq_ok hstep
  obtain ⟨s', hthread, hlast⟩ := bind_eq_ok henqueue
  obtain ⟨th, -, hs'⟩ := bind_eq_ok hthread
  cases hlast
  cases hs'
  exact ⟨_, rfl, rfl, if_pos hroom⟩

end NvmeVirt.EndToEnd
