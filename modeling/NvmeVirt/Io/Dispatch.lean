import NvmeVirt.Io.Lists

/-!
# The dispatcher's side of a submission queue

`nvmev_proc_io_sq` hands the commands between two doorbell values to the
translation layer and the accepted ones to a worker.  It stops at the first
command the translation layer refuses.  That the worker's table may be full is
not reported back to it: `__enqueue_io_req` returns nothing.

The translation layer is a parameter, so what is proved here holds for all of
them.
-/

namespace NvmeVirt.Dispatch

open NvmeVirt.Kernel
open NvmeVirt.Transition
open NvmeVirt.LinkedArray
open NvmeVirt.Timing
open NvmeVirt.ProcTable
open NvmeVirt.Lists

/-! ## The workers' tables -/

/-- `nr_io_cpu` and `proc_info`. -/
structure Workers where
  nrIoCpu : ℕ
  procInfo : ℕ → ProcInfo

/-- `__get_io_worker` with `CONFIG_NVMEV_IO_WORKER_BY_SQ`. -/
def getIoWorker (workers : Workers) (sqid : ℕ) : Except Fault ℕ :=
  if workers.nrIoCpu = 0 then .error .divideByZero
  else .ok (sub32 sqid 1 % workers.nrIoCpu)

/-- An operation on the table of the worker `turn`. -/
def onTurn (workers : Workers) (turn : ℕ)
    (operation : ProcInfo → Except Fault ProcInfo) : Except Fault Workers := do
  let pi ← operation (workers.procInfo turn)
  .ok { workers with procInfo := Function.update workers.procInfo turn pi }

/-- An operation on the table of the worker that serves `sqid`. -/
def onWorker (workers : Workers) (sqid : ℕ)
    (operation : ProcInfo → Except Fault ProcInfo) : Except Fault Workers := do
  let turn ← getIoWorker workers sqid
  onTurn workers turn operation

/-- `__reclaim_completed_reqs`. -/
def reclaimAll (workers : Workers) : Except Fault Workers :=
  (List.range workers.nrIoCpu).foldlM
    (fun workers turn => onTurn workers turn (reclaimCompletedReqs quiet))
    workers

/-- What the workers store before the dispatcher turns to a command. -/
def meanwhile (workers : Workers) (marks : ℕ → List Mark) : Workers :=
  { workers with procInfo := fun turn =>
      (workers.procInfo turn).marked (marks turn) }

/-! ## Commands -/

/-- What the dispatcher reads of a `struct nvme_command`; the translation
layer also reads `rest`. -/
structure Command (κ : Type) where
  commandId : ℕ
  length : ℕ
  rest : κ

/-- `struct nvmev_sq_stat`. -/
structure SqStat where
  nrDispatched : ℕ
  nrDispatch : ℕ
  nrInFlight : ℕ
  maxNrInFlight : ℕ
  totalIo : ℕ
  deriving DecidableEq, Repr

/-- `struct nvmev_submission_queue`. -/
structure SubmissionQueue (κ : Type) where
  cqid : ℕ
  queueSize : ℕ
  entries : ℕ → Command κ
  stat : SqStat

/-- The answer of `proc_io_cmd`: its verdict, what it left in `ret`, and the
writebacks it enqueued on the way. -/
structure FtlReply (φ : Type) where
  accepted : Bool
  ret : NvmevResult
  writebacks : List Writeback
  ftl : φ

/-- `ns->proc_io_cmd`; the arguments after the command are `sq_id`,
`nsecs_start` and `ret`. -/
abbrev ProcIoCmd (φ κ : Type) :=
  φ → Command κ → ℕ → ℕ → NvmevResult → FtlReply φ

/-- One command taken from the submission queue: its entry, and the workers'
tables right before and right after `__enqueue_io_req`.  This is history. -/
structure Consumed where
  sqEntry : ℕ
  before : ℕ → ProcInfo
  after : ℕ → ProcInfo

/-- One call of `proc_io_cmd`: the queue, the entry, the command it was given
and the verdict. -/
structure FtlCall (κ : Type) where
  sqid : ℕ
  sqEntry : ℕ
  cmd : Command κ
  accepted : Bool

/-- The state of the dispatcher.  `calls` is history. -/
structure Device (φ κ : Type) where
  workers : Workers
  clock : Clock
  ftl : φ
  calls : List (FtlCall κ)

variable {φ κ : Type}

/-- Call `proc_io_cmd` for the command in entry `sqEntry`. -/
def callFtl (procIoCmd : ProcIoCmd φ κ) (dev : Device φ κ) (cmd : Command κ)
    (sqid sqEntry nsecsStart : ℕ) (ret : NvmevResult) :
    FtlReply φ × Device φ κ :=
  let reply := procIoCmd dev.ftl cmd sqid nsecsStart ret
  (reply,
    { dev with
      ftl := reply.ftl
      calls := dev.calls ++ [{ sqid := sqid, sqEntry := sqEntry, cmd := cmd
                               accepted := reply.accepted }] })

/-- `__nvmev_proc_io`: `none` when the translation layer refuses the command,
and its `io_size` otherwise. -/
def nvmevProcIo (procIoCmd : ProcIoCmd φ κ) (dev : Device φ κ)
    (sq : SubmissionQueue κ) (sqid sqEntry : ℕ) :
    Except Fault (Option (ℕ × Consumed) × Device φ κ) := do
  let (nsecsStart, clock) := dev.clock.read
  let cmd := sq.entries sqEntry
  let ret := { status := 0, nsecsTarget := nsecsStart, result := 0 }
  let (reply, dev) := callFtl procIoCmd dev cmd sqid sqEntry nsecsStart ret
  let workers ← reply.writebacks.foldlM (fun workers wb =>
    onWorker workers wb.sqid fun pi => enqueueWritebackIoReq quiet pi wb)
    dev.workers
  if reply.accepted then
    let ioSize := lbaToByte (cmd.length + 1)
    let (nsecsEnqueue, clock) := clock.read
    let req : IoReq :=
      { sqid := sqid, cqid := sq.cqid, sqEntry := sqEntry
        commandId := cmd.commandId, nsecsStart := nsecsStart
        nsecsEnqueue := nsecsEnqueue, ret := reply.ret }
    let after ← onWorker workers sqid fun pi => enqueueIoReq quiet pi req
    let consumed : Consumed :=
      { sqEntry := sqEntry, before := workers.procInfo
        after := after.procInfo }
    let workers ← reclaimAll after
    .ok (some (ioSize, consumed),
      { dev with workers := workers, clock := clock })
  else
    .ok (none, { dev with workers := workers, clock := clock })

/-- The `int` with the bits of an `unsigned int`. -/
def toInt (value : ℕ) : ℤ :=
  if value < 2 ^ 31 then value else value - 2 ^ 32

/-- The statistics after one more command. -/
def SqStat.dispatched (stat : SqStat) (ioSize : ℕ) : SqStat :=
  { stat with
    nrDispatched := u32 (stat.nrDispatched + 1)
    nrInFlight := u32 (stat.nrInFlight + 1)
    totalIo := u64 (stat.totalIo + ioSize) }

/-- The statistics after one more call. -/
def SqStat.dispatch (stat : SqStat) : SqStat :=
  { stat with
    nrDispatch := u32 (stat.nrDispatch + 1)
    maxNrInFlight := if toInt stat.maxNrInFlight < toInt stat.nrInFlight then
        stat.nrInFlight else stat.maxNrInFlight }

/-- The submission queue entry after `sqEntry`. -/
def nextEntry (queueSize sqEntry : ℕ) : ℕ :=
  if sqEntry + 1 = queueSize then 0 else sqEntry + 1

/-- What `nvmev_proc_io_sq` leaves behind. -/
structure Dispatched (φ κ : Type) where
  dev : Device φ κ
  sq : SubmissionQueue κ
  consumed : List Consumed

/-- The loop of `nvmev_proc_io_sq`, with `count` commands to go.  `marks` says
what each worker stores before each of them. -/
def procLoop (procIoCmd : ProcIoCmd φ κ) (marks : ℕ → ℕ → List Mark)
    (sqid : ℕ) : ℕ → Device φ κ → SubmissionQueue κ → ℕ →
      Except Fault (Dispatched φ κ)
  | 0, dev, sq, _ => .ok { dev := dev, sq := sq, consumed := [] }
  | count + 1, dev, sq, sqEntry => do
      let dev := { dev with workers := meanwhile dev.workers (marks count) }
      let (outcome, dev) ← nvmevProcIo procIoCmd dev sq sqid sqEntry
      match outcome with
      | none => .ok { dev := dev, sq := sq, consumed := [] }
      | some (ioSize, consumed) =>
          let sqEntry := nextEntry sq.queueSize sqEntry
          let sq := { sq with stat := sq.stat.dispatched ioSize }
          let rest ← procLoop procIoCmd marks sqid count dev sq sqEntry
          .ok { rest with consumed := consumed :: rest.consumed }

/-- `nvmev_proc_io_sq`, with the doorbell it returns; its caller has checked
that the queue exists. -/
def nvmevProcIoSq (procIoCmd : ProcIoCmd φ κ) (marks : ℕ → ℕ → List Mark)
    (dev : Device φ κ) (sq : SubmissionQueue κ) (sqid newDb oldDb : ℕ) :
    Except Fault (ℕ × Dispatched φ κ) := do
  let numProc : ℤ := newDb - oldDb
  let numProc := if numProc < 0 then numProc + sq.queueSize else numProc
  let out ← procLoop procIoCmd marks sqid numProc.toNat dev sq oldDb
  let sq : SubmissionQueue κ := { out.sq with stat := out.sq.stat.dispatch }
  if sq.queueSize = 0 then .error .divideByZero
  else .ok ((oldDb + out.consumed.length) % sq.queueSize, { out with sq := sq })

/-! ## Every command taken is placed, or the table was full -/

/-- The requests of `pi` include the entry `slot`. -/
def InIo (pi : ProcInfo) (slot : ℕ) : Prop :=
  ∃ free io, TwoLists pi free io ∧ slot ∈ io

/-- The command is new in the list of requests of exactly one of `nr` workers,
in exactly one entry. -/
def Placed (nr sqid : ℕ) (consumed : Consumed) : Prop :=
  ∃! place : ℕ × ℕ, place.1 < nr ∧
    InIo (consumed.after place.1) place.2 ∧
    ¬ InIo (consumed.before place.1) place.2 ∧
    ((consumed.after place.1).procTable place.2).sqid = sqid ∧
    ((consumed.after place.1).procTable place.2).sqEntry = consumed.sqEntry

/-- Every worker's table is well linked. -/
def WorkersLinked (workers : Workers) : Prop :=
  ∀ turn, ∃ free io, WellLinked (workers.procInfo turn) free io

theorem inIo_iff {pi : ProcInfo} {free io : List ℕ}
    (hwell : WellLinked pi free io) (slot : ℕ) : InIo pi slot ↔ slot ∈ io := by
  constructor
  · rintro ⟨free', io', hlists, hslot⟩
    rw [(hlists.unique hwell.twoLists).2] at hslot
    exact hslot
  · intro hslot
    exact ⟨free, io, hwell.twoLists, hslot⟩

theorem getIoWorker_of {workers : Workers} (hnr : workers.nrIoCpu ≠ 0)
    (sqid : ℕ) :
    getIoWorker workers sqid = .ok (sub32 sqid 1 % workers.nrIoCpu) :=
  if_neg hnr

theorem onTurn_linked {workers : Workers}
    {operation : ProcInfo → Except Fault ProcInfo}
    (hlinked : WorkersLinked workers) (turn : ℕ)
    (hoperation : ∀ pi free io, WellLinked pi free io →
      ∃ pi', operation pi = .ok pi' ∧ ∃ free io, WellLinked pi' free io) :
    ∃ workers', onTurn workers turn operation = .ok workers' ∧
      WorkersLinked workers' ∧ workers'.nrIoCpu = workers.nrIoCpu ∧
      ∀ other, other ≠ turn →
        workers'.procInfo other = workers.procInfo other := by
  obtain ⟨free, io, hwell⟩ := hlinked turn
  obtain ⟨pi', hrun, hwell'⟩ := hoperation _ free io hwell
  refine ⟨{ workers with
    procInfo := Function.update workers.procInfo turn pi' }, ?_, ?_, rfl, ?_⟩
  · rw [onTurn, hrun, ok_bind]
  · intro other
    by_cases hother : other = turn
    · subst hother
      dsimp only
      rw [Function.update_self]
      exact hwell'
    · dsimp only
      rw [Function.update_of_ne hother]
      exact hlinked other
  · intro other hother
    exact Function.update_of_ne hother ..

theorem reclaimAll_linked {workers : Workers}
    (hlinked : WorkersLinked workers) :
    ∃ workers', reclaimAll workers = .ok workers' ∧
      WorkersLinked workers' ∧ workers'.nrIoCpu = workers.nrIoCpu := by
  refine foldlM_range
    (fun _ state => WorkersLinked state ∧ state.nrIoCpu = workers.nrIoCpu)
    ?_ ⟨hlinked, rfl⟩
  rintro turn _ state ⟨hstate, hnr⟩
  obtain ⟨state', hrun, hstate', hnr', _⟩ :=
    onTurn_linked hstate turn fun pi free io hwell => by
      obtain ⟨front, rest, pi', _, hrun, hreclaimed⟩ :=
        reclaimCompletedReqs_spec hwell quiet
      exact ⟨pi', hrun, _, _, hreclaimed.linked⟩
  exact ⟨state', hrun, hstate', hnr'.trans hnr⟩

theorem writebacks_linked {workers : Workers}
    (hlinked : WorkersLinked workers) (hnr : workers.nrIoCpu ≠ 0)
    (writebacks : List Writeback) :
    ∃ workers', writebacks.foldlM (fun workers wb =>
        onWorker workers wb.sqid fun pi => enqueueWritebackIoReq quiet pi wb)
        workers = .ok workers' ∧
      WorkersLinked workers' ∧ workers'.nrIoCpu = workers.nrIoCpu := by
  refine foldlM_invariant
    (fun _ state => WorkersLinked state ∧ state.nrIoCpu = workers.nrIoCpu)
    ?_ ⟨hlinked, rfl⟩
  rintro _ wb _ state _ ⟨hstate, hnr'⟩
  obtain ⟨state', hrun, hstate', hnr'', _⟩ :=
    onTurn_linked hstate (sub32 wb.sqid 1 % state.nrIoCpu)
      fun pi free io hwell => enqueueEntry_wellLinked hwell quiet _ wb.fill
  refine ⟨state', ?_, hstate', hnr''.trans hnr'⟩
  rw [onWorker, getIoWorker_of (hnr'.symm ▸ hnr), ok_bind]
  exact hrun

section Enqueue

variable {workers : Workers} {turn : ℕ} {pi' : ProcInfo} {req : IoReq}
  {free io rest front back : List ℕ}

/-- A table with room takes the command in, in one place. -/
theorem placed_of_enqueued (hwell : WellLinked (workers.procInfo turn) free io)
    (hturn : turn < workers.nrIoCpu)
    (hfree : free = (workers.procInfo turn).freeSeq :: rest)
    (hio : io = front ++ back)
    (henqueued : Enqueued quiet req.fill (workers.procInfo turn) pi' rest front
      back) :
    Placed workers.nrIoCpu req.sqid
      { sqEntry := req.sqEntry, before := workers.procInfo
        after := Function.update workers.procInfo turn pi' } := by
  have hslot : (workers.procInfo turn).freeSeq ∉ io :=
    hwell.apart (by simp [hfree])
  have hself := congrFun (henqueued.bodies_eq rfl)
    (workers.procInfo turn).freeSeq
  rw [Function.update_self] at hself
  refine ⟨(turn, (workers.procInfo turn).freeSeq), ⟨hturn, ?_, ?_, ?_, ?_⟩, ?_⟩
  · dsimp only
    rw [Function.update_self, inIo_iff henqueued.linked]
    simp
  · exact (inIo_iff hwell _).not.mpr hslot
  · dsimp only
    rw [Function.update_self]
    exact congrArg ProcEntry.sqid hself
  · dsimp only
    rw [Function.update_self]
    exact congrArg ProcEntry.sqEntry hself
  · rintro ⟨other, slot⟩ ⟨_, hin, hout, _⟩
    dsimp only at hin hout
    by_cases hother : other = turn
    · subst hother
      rw [Function.update_self, inIo_iff henqueued.linked] at hin
      rw [inIo_iff hwell, hio] at hout
      have heq : slot = (workers.procInfo other).freeSeq := by
        simp only [List.mem_append, List.mem_cons] at hin hout
        tauto
      rw [heq]
    · rw [Function.update_of_ne hother] at hin
      exact absurd hin hout

theorem onWorker_enqueue (hlinked : WorkersLinked workers)
    (hnr : workers.nrIoCpu ≠ 0) (req : IoReq) :
    ∃ after, onWorker workers req.sqid
        (fun pi => enqueueIoReq quiet pi req) = .ok after ∧
      WorkersLinked after ∧ after.nrIoCpu = workers.nrIoCpu ∧
      (Placed workers.nrIoCpu req.sqid
          { sqEntry := req.sqEntry, before := workers.procInfo
            after := after.procInfo } ↔
        HasRoom (workers.procInfo
          (sub32 req.sqid 1 % workers.nrIoCpu))) := by
  have hturn := Nat.mod_lt (sub32 req.sqid 1) (Nat.pos_of_ne_zero hnr)
  rw [onWorker, getIoWorker_of hnr, ok_bind]
  generalize sub32 req.sqid 1 % workers.nrIoCpu = turn at hturn ⊢
  obtain ⟨after, hafter, hlinked', hnr', _⟩ :=
    onTurn_linked hlinked turn fun pi free io hwell =>
      enqueueEntry_wellLinked hwell quiet req.ret.nsecsTarget req.fill
  refine ⟨after, hafter, hlinked', hnr', ?_⟩
  obtain ⟨free, io, hwell⟩ := hlinked turn
  by_cases hroom : HasRoom (workers.procInfo turn)
  · obtain ⟨rest, front, back, pi', hfree, hio, hrun, henqueued⟩ :=
      enqueueEntry_room hwell hroom quiet req.ret.nsecsTarget req.fill
    rw [onTurn, hrun, ok_bind] at hafter
    cases hafter
    exact iff_of_true (placed_of_enqueued hwell hturn hfree hio henqueued)
      hroom
  · -- the request is dropped, and no table has changed
    rw [onTurn, enqueueEntry_full hroom, ok_bind,
      Function.update_eq_self] at hafter
    cases hafter
    refine iff_of_false ?_ hroom
    rintro ⟨place, ⟨_, hin, hout, _⟩, _⟩
    exact hout hin

end Enqueue

/-! ## Whole calls -/

theorem nvmevProcIo_spec {dev : Device φ κ} (hlinked : WorkersLinked dev.workers)
    (hnr : dev.workers.nrIoCpu ≠ 0) (procIoCmd : ProcIoCmd φ κ)
    (sq : SubmissionQueue κ) (sqid sqEntry : ℕ) :
    ∃ outcome dev', nvmevProcIo procIoCmd dev sq sqid sqEntry =
        .ok (outcome, dev') ∧
      WorkersLinked dev'.workers ∧
      dev'.workers.nrIoCpu = dev.workers.nrIoCpu ∧
      ∀ ioSize consumed, outcome = some (ioSize, consumed) →
        consumed.sqEntry = sqEntry ∧
        (Placed dev.workers.nrIoCpu sqid consumed ↔
          HasRoom (consumed.before
            (sub32 sqid 1 % dev.workers.nrIoCpu))) := by
  rw [nvmevProcIo]
  dsimp only [callFtl]
  generalize procIoCmd dev.ftl _ sqid _ _ = reply
  obtain ⟨workers, hwritebacks, hworkers, hnr'⟩ :=
    writebacks_linked hlinked hnr reply.writebacks
  rw [hwritebacks, ok_bind]
  split_ifs with haccepted
  · generalize hreq : (IoReq.mk sqid _ _ _ _ _ _) = req
    have hsqid : sqid = req.sqid := by rw [← hreq]
    have hsqEntry : sqEntry = req.sqEntry := by rw [← hreq]
    obtain ⟨after, hrun, hafter, hnrAfter, hplaced⟩ :=
      onWorker_enqueue hworkers (hnr'.symm ▸ hnr) req
    obtain ⟨final, hreclaim, hfinal, hnrFinal⟩ := reclaimAll_linked hafter
    rw [hsqid, hrun, ok_bind, hreclaim, ok_bind]
    refine ⟨_, _, rfl, hfinal, hnrFinal.trans (hnrAfter.trans hnr'), ?_⟩
    intro ioSize consumed heq
    cases heq
    rw [hnr', ← hsqEntry] at hplaced
    exact ⟨rfl, hplaced⟩
  · exact ⟨_, _, rfl, hworkers, hnr', fun _ _ h => by cases h⟩

/-- What holds of the commands one call has taken, starting at `sqEntry`. -/
structure Taken (nr sqid sqEntry : ℕ) (sq : SubmissionQueue κ)
    (out : Dispatched φ κ) : Prop where
  queueSize_eq : out.sq.queueSize = sq.queueSize
  nrDispatched_eq : u32 out.sq.stat.nrDispatched =
    u32 (sq.stat.nrDispatched + out.consumed.length)
  sqEntries : out.consumed.map Consumed.sqEntry =
    List.iterate (nextEntry sq.queueSize) sqEntry out.consumed.length
  placed : ∀ consumed ∈ out.consumed, Placed nr sqid consumed ↔
    HasRoom (consumed.before (sub32 sqid 1 % nr))

theorem taken_nil (nr sqid sqEntry : ℕ) (sq : SubmissionQueue κ)
    (dev : Device φ κ) :
    Taken nr sqid sqEntry sq { dev := dev, sq := sq, consumed := [] } where
  queueSize_eq := rfl
  nrDispatched_eq := rfl
  sqEntries := rfl
  placed := fun _ h => by cases h

theorem Taken.cons {nr sqid sqEntry ioSize : ℕ} {sq : SubmissionQueue κ}
    {out : Dispatched φ κ} {consumed : Consumed}
    (htaken : Taken nr sqid (nextEntry sq.queueSize sqEntry)
      { sq with stat := sq.stat.dispatched ioSize } out)
    (hentry : consumed.sqEntry = sqEntry)
    (hplaced : Placed nr sqid consumed ↔
      HasRoom (consumed.before (sub32 sqid 1 % nr))) :
    Taken nr sqid sqEntry sq
      { out with consumed := consumed :: out.consumed } where
  queueSize_eq := htaken.queueSize_eq
  nrDispatched_eq := by
    rw [htaken.nrDispatched_eq]
    dsimp only [SqStat.dispatched, List.length_cons]
    rw [u32, u32, u32, Nat.mod_add_mod]
    congr 1
    omega
  sqEntries := by
    rw [List.map_cons, htaken.sqEntries, hentry]
    rfl
  placed := by
    intro other hother
    cases hother with
    | head => exact hplaced
    | tail _ hother => exact htaken.placed other hother

theorem meanwhile_linked {workers : Workers} (hlinked : WorkersLinked workers)
    (marks : ℕ → List Mark) : WorkersLinked (meanwhile workers marks) := by
  intro turn
  obtain ⟨free, io, hwell⟩ := hlinked turn
  exact ⟨free, io, hwell.marked (marks turn)⟩

theorem procLoop_spec (procIoCmd : ProcIoCmd φ κ) (marks : ℕ → ℕ → List Mark)
    (sqid count : ℕ) {dev : Device φ κ} (hlinked : WorkersLinked dev.workers)
    (hnr : dev.workers.nrIoCpu ≠ 0) (sq : SubmissionQueue κ) (sqEntry : ℕ) :
    ∃ out, procLoop procIoCmd marks sqid count dev sq sqEntry = .ok out ∧
      Taken dev.workers.nrIoCpu sqid sqEntry sq out := by
  induction count generalizing dev sq sqEntry with
  | zero => exact ⟨_, rfl, taken_nil ..⟩
  | succ count ih =>
      have hmeanwhile : WorkersLinked ({ dev with
          workers := meanwhile dev.workers (marks count) } :
            Device φ κ).workers := meanwhile_linked hlinked _
      obtain ⟨outcome, dev', hrun, hlinked', hnr', hplaced⟩ :=
        nvmevProcIo_spec hmeanwhile hnr procIoCmd sq sqid sqEntry
      rw [procLoop]
      dsimp only
      rw [hrun, ok_bind]
      cases outcome with
      | none => exact ⟨_, rfl, taken_nil ..⟩
      | some outcome =>
          obtain ⟨ioSize, consumed⟩ := outcome
          obtain ⟨hentry, hplaced⟩ := hplaced ioSize consumed rfl
          have hnrEq : dev'.workers.nrIoCpu = dev.workers.nrIoCpu := hnr'
          obtain ⟨out, hout, htaken⟩ := ih hlinked' (hnrEq ▸ hnr)
            { sq with stat := sq.stat.dispatched ioSize }
            (nextEntry sq.queueSize sqEntry)
          rw [hnrEq] at htaken
          refine ⟨{ out with consumed := consumed :: out.consumed }, ?_,
            htaken.cons hentry hplaced⟩
          dsimp only
          rw [hout, ok_bind]

/-! A device without workers takes no command. -/

theorem onWorker_ok {workers workers' : Workers} {sqid : ℕ}
    {operation : ProcInfo → Except Fault ProcInfo}
    (h : onWorker workers sqid operation = .ok workers') :
    workers.nrIoCpu ≠ 0 := by
  obtain ⟨turn, hturn, _⟩ := bind_eq_ok h
  rw [getIoWorker] at hturn
  split_ifs at hturn with hnr
  exact hnr

theorem nvmevProcIo_none {dev dev' : Device φ κ} {procIoCmd : ProcIoCmd φ κ}
    {sq : SubmissionQueue κ} {sqid sqEntry : ℕ}
    {outcome : Option (ℕ × Consumed)} (hnr : dev.workers.nrIoCpu = 0)
    (h : nvmevProcIo procIoCmd dev sq sqid sqEntry = .ok (outcome, dev')) :
    outcome = none := by
  rw [nvmevProcIo] at h
  dsimp only [callFtl] at h
  generalize procIoCmd dev.ftl _ sqid _ _ = reply at h
  obtain ⟨workers, hwritebacks, h⟩ := bind_eq_ok h
  have hworkers : workers.nrIoCpu = 0 := by
    cases hlist : reply.writebacks with
    | nil =>
        rw [hlist] at hwritebacks
        cases hwritebacks
        exact hnr
    | cons wb writebacks =>
        rw [hlist, List.foldlM_cons] at hwritebacks
        obtain ⟨_, hfirst, _⟩ := bind_eq_ok hwritebacks
        exact absurd hnr (onWorker_ok hfirst)
  split_ifs at h with haccepted
  · obtain ⟨_, hrun, _⟩ := bind_eq_ok h
    exact absurd hworkers (onWorker_ok hrun)
  · cases h
    rfl

theorem procLoop_none {procIoCmd : ProcIoCmd φ κ} {marks : ℕ → ℕ → List Mark}
    {sqid count : ℕ} {dev : Device φ κ} (hnr : dev.workers.nrIoCpu = 0)
    {sq : SubmissionQueue κ} {sqEntry : ℕ} {out : Dispatched φ κ}
    (h : procLoop procIoCmd marks sqid count dev sq sqEntry = .ok out) :
    Taken dev.workers.nrIoCpu sqid sqEntry sq out := by
  cases count with
  | zero =>
      cases h
      exact taken_nil ..
  | succ count =>
      obtain ⟨⟨outcome, dev'⟩, hrun, h⟩ := bind_eq_ok h
      have hmeanwhile : ({ dev with
          workers := meanwhile dev.workers (marks count) } :
            Device φ κ).workers.nrIoCpu = 0 := hnr
      obtain rfl := nvmevProcIo_none hmeanwhile hrun
      cases h
      exact taken_nil ..

/-- For every state of the workers' tables and every doorbell update, the call
ends, and the commands it counts as dispatched are the ones the returned
doorbell skips.  Such a command is placed with exactly one worker if and only
if that worker's table had room when the translation layer had accepted it. -/
theorem consumed_placed_iff (procIoCmd : ProcIoCmd φ κ)
    (marks : ℕ → ℕ → List Mark) (dev : Device φ κ) (sq : SubmissionQueue κ)
    (sqid newDb oldDb : ℕ)
    (hreach : ∀ turn, Reachable tableMachine (dev.workers.procInfo turn)) :
    (dev.workers.nrIoCpu ≠ 0 → sq.queueSize ≠ 0 →
      ∃ result, nvmevProcIoSq procIoCmd marks dev sq sqid newDb oldDb =
        .ok result) ∧
    ∀ latestDb out, nvmevProcIoSq procIoCmd marks dev sq sqid newDb oldDb =
        .ok (latestDb, out) →
      latestDb = (oldDb + out.consumed.length) % sq.queueSize ∧
      u32 out.sq.stat.nrDispatched =
        u32 (sq.stat.nrDispatched + out.consumed.length) ∧
      out.consumed.map Consumed.sqEntry =
        List.iterate (nextEntry sq.queueSize) oldDb out.consumed.length ∧
      ∀ consumed ∈ out.consumed,
        Placed dev.workers.nrIoCpu sqid consumed ↔
          HasRoom (consumed.before
            (sub32 sqid 1 % dev.workers.nrIoCpu)) := by
  have hlinked : WorkersLinked dev.workers := fun turn =>
    wellLinked_inductive.reachable (hreach turn)
  generalize hcount : ((if (newDb : ℤ) - oldDb < 0 then
    (newDb : ℤ) - oldDb + sq.queueSize else (newDb : ℤ) - oldDb).toNat) = count
  constructor
  · intro hnr hsize
    obtain ⟨out, hrun, htaken⟩ := procLoop_spec procIoCmd marks sqid count
      hlinked hnr sq oldDb
    have hsize' : out.sq.queueSize ≠ 0 := htaken.queueSize_eq.symm ▸ hsize
    rw [nvmevProcIoSq]
    dsimp only
    rw [hcount, hrun, ok_bind, if_neg hsize']
    exact ⟨_, rfl⟩
  · intro latestDb out h
    rw [nvmevProcIoSq] at h
    dsimp only at h
    rw [hcount] at h
    obtain ⟨after, hrun, h⟩ := bind_eq_ok h
    have htaken : Taken dev.workers.nrIoCpu sqid oldDb sq after := by
      by_cases hnr : dev.workers.nrIoCpu = 0
      · exact procLoop_none hnr hrun
      · obtain ⟨after', hrun', htaken⟩ := procLoop_spec procIoCmd marks sqid
          count hlinked hnr sq oldDb
        rw [hrun] at hrun'
        cases hrun'
        exact htaken
    split_ifs at h with hsize
    cases h
    exact ⟨by rw [htaken.queueSize_eq], htaken.nrDispatched_eq,
      htaken.sqEntries, htaken.placed⟩

/-! ## A full table -/

/-- A write the way the translation layers hand it over. -/
def plainReq : IoReq :=
  { sqid := 1, cqid := 1, sqEntry := 0, commandId := 0, nsecsStart := 0
    nsecsEnqueue := 0, ret := { status := 0, nsecsTarget := 1, result := 0 } }

/-- A table that has taken `count` requests, none of them completed. -/
def tableAfter : ℕ → ProcInfo
  | 0 => nvmevIoProcInit
  | count + 1 =>
      match enqueueIoReq quiet (tableAfter count) plainReq with
      | .ok pi => pi
      | .error _ => tableAfter count

theorem tableAfter_spec (count : ℕ) (hcount : count < nrMaxParallelIo) :
    Reachable tableMachine (tableAfter count) ∧
      ∃ free io, WellLinked (tableAfter count) free io ∧
        io.length = count := by
  induction count with
  | zero => exact ⟨.start rfl, _, _, nvmevIoProcInit_wellLinked, rfl⟩
  | succ count ih =>
      obtain ⟨hreach, free, io, hwell, hlength⟩ := ih (by omega)
      have hroom : HasRoom (tableAfter count) :=
        hwell.hasRoom_iff_length.mpr (hlength ▸ hcount)
      obtain ⟨rest, front, back, pi', hfree, hio, hrun, henqueued⟩ :=
        enqueueEntry_room hwell hroom quiet 1 plainReq.fill
      have hstep : enqueueIoReq quiet (tableAfter count) plainReq =
          .ok pi' := hrun
      have hnext : tableAfter (count + 1) = pi' := by
        rw [tableAfter, hstep]
      rw [hnext]
      have henabled : tableMachine.enabled (tableAfter count)
          (.enqueue quiet plainReq) := trivial
      refine ⟨hreach.next henabled hstep, rest, _, henqueued.linked, ?_⟩
      rw [hio, List.length_append] at hlength
      rw [List.length_append, List.length_cons, ← hlength]
      rfl

/-- One worker with the table `pi`. -/
def deviceWith (pi : ProcInfo) : Device Unit Unit :=
  { workers := { nrIoCpu := 1, procInfo := fun _ => pi }
    clock := { readings := fun _ => 0, reads := 0 }
    ftl := ()
    calls := [] }

/-- A queue with one new command. -/
def oneCommand : SubmissionQueue Unit :=
  { cqid := 1, queueSize := 1024
    entries := fun _ => { commandId := 7, length := 7, rest := () }
    stat := { nrDispatched := 0, nrDispatch := 0, nrInFlight := 0
              maxNrInFlight := 0, totalIo := 0 } }

/-- A translation layer that accepts everything. -/
def acceptAll : ProcIoCmd Unit Unit := fun _ _ _ _ ret =>
  { accepted := true, ret := ret, writebacks := [], ftl := () }

section Full

variable {pi : ProcInfo} {free io : List ℕ}

/-- A full table takes no request. -/
theorem deviceWith_enqueue (hfull : ¬ HasRoom pi) (req : IoReq) :
    onWorker (deviceWith pi).workers 1 (fun pi => enqueueIoReq quiet pi req) =
      .ok (deviceWith pi).workers := by
  have hworker : getIoWorker (deviceWith pi).workers 1 = .ok 0 := rfl
  have hdropped : enqueueIoReq quiet ((deviceWith pi).workers.procInfo 0) req =
      .ok ((deviceWith pi).workers.procInfo 0) := enqueueEntry_full hfull _ _
  rw [onWorker, hworker, ok_bind, onTurn, hdropped, ok_bind,
    Function.update_eq_self]

/-- The history of the dropped command. -/
def droppedCommand (pi : ProcInfo) : Consumed :=
  { sqEntry := 0, before := fun _ => pi, after := fun _ => pi }

theorem deviceWith_procIo (hwell : WellLinked pi free io)
    (hfull : ¬ HasRoom pi) :
    ∃ dev', nvmevProcIo acceptAll (deviceWith pi) oneCommand 1 0 =
      .ok (some (4096, droppedCommand pi), dev') := by
  have hlinked : WorkersLinked (deviceWith pi).workers := fun _ =>
    ⟨free, io, hwell⟩
  obtain ⟨workers, hreclaim, _⟩ := reclaimAll_linked hlinked
  have hnil : ([] : List Writeback).foldlM (fun workers wb =>
      onWorker workers wb.sqid fun pi => enqueueWritebackIoReq quiet pi wb)
      (deviceWith pi).workers = .ok (deviceWith pi).workers := rfl
  rw [nvmevProcIo]
  dsimp only [callFtl, acceptAll]
  rw [hnil, ok_bind, if_pos rfl, deviceWith_enqueue hfull, ok_bind, hreclaim,
    ok_bind]
  exact ⟨_, rfl⟩

theorem deviceWith_procIoSq (hwell : WellLinked pi free io)
    (hfull : ¬ HasRoom pi) :
    ∃ out, nvmevProcIoSq acceptAll (fun _ _ => []) (deviceWith pi) oneCommand
        1 1 0 = .ok (1, out) ∧
      out.sq.stat.nrDispatched = 1 ∧ out.consumed = [droppedCommand pi] := by
  obtain ⟨dev', hrun⟩ := deviceWith_procIo hwell hfull
  have hmeanwhile : meanwhile (deviceWith pi).workers (fun _ => []) =
      (deviceWith pi).workers := rfl
  have hloop : procLoop acceptAll (fun _ _ => []) 1 1 (deviceWith pi)
      oneCommand 0 = .ok { dev := dev'
                           sq := { oneCommand with
                             stat := oneCommand.stat.dispatched 4096 }
                           consumed := [droppedCommand pi] } := by
    rw [procLoop]
    dsimp only
    rw [hmeanwhile, hrun, ok_bind]
    rfl
  have hcount : ((if ((1 : ℕ) : ℤ) - (0 : ℕ) < 0 then
      ((1 : ℕ) : ℤ) - (0 : ℕ) + oneCommand.queueSize
    else ((1 : ℕ) : ℤ) - (0 : ℕ)).toNat) = 1 := by decide
  refine ⟨{ dev := dev'
            sq := { oneCommand with
              stat := (oneCommand.stat.dispatched 4096).dispatch }
            consumed := [droppedCommand pi] }, ?_, rfl, rfl⟩
  rw [nvmevProcIoSq]
  dsimp only
  rw [hcount, hloop, ok_bind]
  rfl

end Full

/-- The worker's table is full: all but one of its entries hold requests that
have not completed. -/
def fullTable : ProcInfo := tableAfter (nrMaxParallelIo - 1)

theorem fullTable_spec :
    Reachable tableMachine fullTable ∧ ¬ HasRoom fullTable := by
  obtain ⟨hreach, free, io, hwell, hlength⟩ :=
    tableAfter_spec (nrMaxParallelIo - 1)
      (Nat.sub_lt nrMaxParallelIo_pos Nat.one_pos)
  refine ⟨hreach, ?_⟩
  rw [fullTable, hwell.hasRoom_iff_length, hlength]
  omega

/-- The command is dropped, yet it counts as dispatched and the doorbell moves
past it. -/
theorem full_table_drops :
    (∀ turn, Reachable tableMachine
      ((deviceWith fullTable).workers.procInfo turn)) ∧
    ∃ out, nvmevProcIoSq acceptAll (fun _ _ => []) (deviceWith fullTable)
        oneCommand 1 1 0 = .ok (1, out) ∧
      out.sq.stat.nrDispatched = 1 ∧
      ∃ consumed, out.consumed = [consumed] ∧ ¬ Placed 1 1 consumed := by
  obtain ⟨hreach, hfull⟩ := fullTable_spec
  obtain ⟨free, io, hwell⟩ := wellLinked_inductive.reachable hreach
  obtain ⟨out, hrun, hcount, hconsumed⟩ := deviceWith_procIoSq hwell hfull
  refine ⟨fun _ => hreach, out, hrun, hcount, _, hconsumed, ?_⟩
  rintro ⟨place, ⟨_, hin, hout, _⟩, _⟩
  exact hout hin

theorem consumed_placed_iff_full :
    ∃ out, nvmevProcIoSq acceptAll (fun _ _ => []) (deviceWith fullTable)
        oneCommand 1 1 0 = .ok out ∧
      ∀ consumed ∈ out.2.consumed, Placed 1 1 consumed ↔
        HasRoom (consumed.before (sub32 1 1 % 1)) := by
  obtain ⟨hend, htaken⟩ := consumed_placed_iff acceptAll (fun _ _ => [])
    (deviceWith fullTable) oneCommand 1 1 0 fun _ => fullTable_spec.1
  obtain ⟨⟨latestDb, out⟩, hrun⟩ := hend Nat.one_ne_zero (by decide)
  exact ⟨_, hrun, (htaken latestDb out hrun).2.2.2⟩

end NvmeVirt.Dispatch
