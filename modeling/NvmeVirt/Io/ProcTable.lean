import NvmeVirt.Core.LinkedArray
import NvmeVirt.Device.Timing

/-!
# The request table of an I/O worker

`struct nvmev_proc_info` holds a table of `NR_MAX_PARALLEL_IO` requests and
two lists linked through it: the free entries, and the requests in flight in
the order of their target times.  The dispatcher moves entries between the
lists; the worker never touches a link, and only marks requests as copied and
completed.

Links are indices, and `-1` is `none`.  The dispatcher and the worker run on
different CPUs, so a loop of the dispatcher takes a `Schedule` that says which
marks the worker makes before each of its iterations.
-/

namespace NvmeVirt.ProcTable

open NvmeVirt.Kernel
open NvmeVirt.Timing
open NvmeVirt.Transition
open NvmeVirt.LinkedArray

/-- `NR_MAX_PARALLEL_IO`.  Irreducible, so that no proof unfolds a list of
this length. -/
@[irreducible]
def nrMaxParallelIo : ℕ := 16384

theorem nrMaxParallelIo_pos : 0 < nrMaxParallelIo := by
  rw [nrMaxParallelIo]
  decide

/-- `struct nvmev_proc_table`; the times that only `PERF_DEBUG` builds store
are left out.  `writeBuffer` names a buffer. -/
structure ProcEntry where
  sqid : ℕ
  cqid : ℕ
  sqEntry : ℕ
  commandId : ℕ
  nsecsStart : ℕ
  nsecsTarget : ℕ
  nsecsEnqueue : ℕ
  isCopied : Bool
  isCompleted : Bool
  status : ℕ
  result0 : ℕ
  result1 : ℕ
  writebackCmd : Bool
  writeBuffer : ℕ
  buffsToRelease : ℕ
  next : Option ℕ
  prev : Option ℕ
  deriving DecidableEq, Repr

/-- An entry as `kzalloc` leaves it, before it is linked. -/
def ProcEntry.zeroed : ProcEntry :=
  { sqid := 0, cqid := 0, sqEntry := 0, commandId := 0, nsecsStart := 0
    nsecsTarget := 0, nsecsEnqueue := 0, isCopied := false
    isCompleted := false, status := 0, result0 := 0, result1 := 0
    writebackCmd := false, writeBuffer := 0, buffsToRelease := 0
    next := some 0, prev := some 0 }

/-- What an entry holds, its links apart. -/
def ProcEntry.body (pe : ProcEntry) : ProcEntry :=
  { pe with next := none, prev := none }

/-- `struct nvmev_proc_info`. -/
structure ProcInfo where
  procTable : ℕ → ProcEntry
  freeSeq : ℕ
  freeSeqEnd : ℕ
  ioSeq : Option ℕ
  ioSeqEnd : Option ℕ
  procIoNsecs : ℕ

namespace ProcInfo

def next (pi : ProcInfo) (entry : ℕ) : Option ℕ := (pi.procTable entry).next

def prev (pi : ProcInfo) (entry : ℕ) : Option ℕ := (pi.procTable entry).prev

def setEntry (pi : ProcInfo) (entry : ℕ) (pe : ProcEntry) : ProcInfo :=
  { pi with procTable := Function.update pi.procTable entry pe }

def setNext (pi : ProcInfo) (entry : ℕ) (link : Option ℕ) : ProcInfo :=
  pi.setEntry entry { pi.procTable entry with next := link }

def setPrev (pi : ProcInfo) (entry : ℕ) (link : Option ℕ) : ProcInfo :=
  pi.setEntry entry { pi.procTable entry with prev := link }

end ProcInfo

/-- The table `NVMEV_IO_PROC_INIT` sets up: every entry is free. -/
def nvmevIoProcInit : ProcInfo :=
  { procTable := fun i =>
      { ProcEntry.zeroed with
        next := if i = nrMaxParallelIo - 1 then none else some (i + 1)
        prev := if i = 0 then none else some (i - 1) }
    freeSeq := 0
    freeSeqEnd := nrMaxParallelIo - 1
    ioSeq := none
    ioSeqEnd := none
    procIoNsecs := 0 }

/-! ## What the worker writes -/

/-- One store of the worker into the table it shares with the dispatcher. -/
inductive Mark
  | procIoNsecs (time : ℕ)
  | copied (entry : ℕ)
  | completed (entry : ℕ)
  /-- `perform_io_cmd` returned `result0` and stored `status`. -/
  | performed (entry result0 status : ℕ)
  deriving DecidableEq, Repr

namespace ProcInfo

def mark (pi : ProcInfo) : Mark → ProcInfo
  | .procIoNsecs time => { pi with procIoNsecs := time }
  | .copied entry =>
      pi.setEntry entry { pi.procTable entry with isCopied := true }
  | .completed entry =>
      pi.setEntry entry { pi.procTable entry with isCompleted := true }
  | .performed entry result0 status =>
      pi.setEntry entry
        { pi.procTable entry with result0 := result0, status := status }

def marked (pi : ProcInfo) (marks : List Mark) : ProcInfo :=
  marks.foldl mark pi

end ProcInfo

/-- What the worker does before each iteration of a dispatcher loop; the
iterations are numbered downwards. -/
abbrev Schedule := ℕ → List Mark

/-- The worker does nothing meanwhile. -/
def quiet : Schedule := fun _ => []

/-! ## Enqueueing -/

/-- The search for the request behind which a new one with time `target` goes:
from the last request towards the first one. -/
def seekInsert (worker : Schedule) (target : ℕ) :
    ℕ → ProcInfo → Option ℕ → Except Fault (Option ℕ × ProcInfo)
  | _, pi, none => .ok (none, pi)
  | 0, _, some _ => .error .divergence
  | fuel + 1, pi, some curr =>
      let pi := pi.marked (worker fuel)
      if (pi.procTable curr).nsecsTarget ≤ pi.procIoNsecs then
        .ok (some curr, pi)
      else if (pi.procTable curr).nsecsTarget ≤ target then
        .ok (some curr, pi)
      else seekInsert worker target fuel pi (pi.prev curr)

/-- Link `entry`, which is linked to nothing yet, in behind the request `curr`
or, when there is none, in front of `first`. -/
def linkIoReq (pi : ProcInfo) (entry first : ℕ) (curr : Option ℕ) :
    ProcInfo :=
  match curr with
  | none =>
      let pi := pi.setPrev first (some entry)
      let pi := pi.setNext entry (some first)
      { pi with ioSeq := some entry }
  | some curr =>
      match pi.next curr with
      | none =>
          let pi := pi.setPrev entry (some curr)
          let pi := { pi with ioSeqEnd := some entry }
          pi.setNext curr (some entry)
      | some after =>
          let pi := pi.setPrev entry (some curr)
          let pi := pi.setNext entry (some after)
          let pi := pi.setPrev after (some entry)
          pi.setNext curr (some entry)

/-- Insert `entry` into the list of requests. -/
def insertIoReq (worker : Schedule) (pi : ProcInfo) (entry target : ℕ) :
    Except Fault ProcInfo :=
  match pi.ioSeq with
  | none => .ok { pi with ioSeq := some entry, ioSeqEnd := some entry }
  | some first => do
      let (curr, pi) ← seekInsert worker target nrMaxParallelIo pi pi.ioSeqEnd
      .ok (linkIoReq pi entry first curr)

/-- The table accepts a request: the link of the first free entry leads to a
second one. -/
def HasRoom (pi : ProcInfo) : Prop :=
  ∃ after, pi.next pi.freeSeq = some after ∧ after < nrMaxParallelIo

instance (pi : ProcInfo) : Decidable (HasRoom pi) :=
  match h : pi.next pi.freeSeq with
  | none => isFalse (by simp [HasRoom, h])
  | some after => decidable_of_iff (after < nrMaxParallelIo)
      (by simp [HasRoom, h])

/-- The part that `__enqueue_io_req` and `enqueue_writeback_io_req` share.
The first free entry is taken only while it is not the last one; otherwise
the request is dropped with a warning.  `fill` stores the request. -/
def enqueueEntry (worker : Schedule) (pi : ProcInfo) (target : ℕ)
    (fill : ProcEntry → ProcEntry) : Except Fault ProcInfo :=
  let entry := pi.freeSeq
  match pi.next entry with
  | none => .ok pi
  | some after =>
      if nrMaxParallelIo ≤ after then .ok pi
      else do
        let pi := { pi with freeSeq := after }
        nvmevAssert (pi.freeSeq < nrMaxParallelIo)
        let pe := { fill (pi.procTable entry) with next := none, prev := none }
        insertIoReq worker (pi.setEntry entry pe) entry target

/-- The arguments of `__enqueue_io_req`, with the `command_id` it reads from
the submission queue entry and the clock reading it takes. -/
structure IoReq where
  sqid : ℕ
  cqid : ℕ
  sqEntry : ℕ
  commandId : ℕ
  nsecsStart : ℕ
  nsecsEnqueue : ℕ
  ret : NvmevResult
  deriving DecidableEq, Repr

/-- What `__enqueue_io_req` stores; `ret.result` is not among it. -/
def IoReq.fill (req : IoReq) (pe : ProcEntry) : ProcEntry :=
  { pe with
    sqid := req.sqid
    cqid := req.cqid
    sqEntry := req.sqEntry
    commandId := req.commandId
    nsecsStart := req.nsecsStart
    nsecsEnqueue := req.nsecsEnqueue
    nsecsTarget := req.ret.nsecsTarget
    status := req.ret.status
    isCompleted := false
    isCopied := false
    writebackCmd := false }

/-- `__enqueue_io_req`. -/
def enqueueIoReq (worker : Schedule) (pi : ProcInfo) (req : IoReq) :
    Except Fault ProcInfo :=
  enqueueEntry worker pi req.ret.nsecsTarget req.fill

/-- The arguments of `enqueue_writeback_io_req` and its clock readings. -/
structure Writeback where
  sqid : ℕ
  nsecsStart : ℕ
  nsecsEnqueue : ℕ
  nsecsTarget : ℕ
  writeBuffer : ℕ
  buffsToRelease : ℕ
  deriving DecidableEq, Repr

def Writeback.fill (wb : Writeback) (pe : ProcEntry) : ProcEntry :=
  { pe with
    sqid := wb.sqid
    nsecsStart := wb.nsecsStart
    nsecsEnqueue := wb.nsecsEnqueue
    nsecsTarget := wb.nsecsTarget
    isCompleted := false
    isCopied := true
    writebackCmd := true
    buffsToRelease := wb.buffsToRelease
    writeBuffer := wb.writeBuffer }

/-- `enqueue_writeback_io_req`. -/
def enqueueWritebackIoReq (worker : Schedule) (pi : ProcInfo)
    (wb : Writeback) : Except Fault ProcInfo :=
  enqueueEntry worker pi wb.nsecsTarget wb.fill

/-! ## Reclaiming -/

/-- The loop of `__reclaim_completed_reqs`: the requests it passes, first to
last.  `last_entry` is the last of them and `nr_reclaimed` their number. -/
def reclaimScan (worker : Schedule) :
    ℕ → ProcInfo → Option ℕ → Except Fault (List ℕ × ProcInfo)
  | _, pi, none => .ok ([], pi)
  | 0, _, some _ => .error .divergence
  | fuel + 1, pi, some curr =>
      let pi := pi.marked (worker fuel)
      let pe := pi.procTable curr
      if pe.isCompleted = true ∧ pe.isCopied = true ∧
          pe.nsecsTarget ≤ pi.procIoNsecs then do
        let (passed, pi) ← reclaimScan worker fuel pi pe.next
        .ok (curr :: passed, pi)
      else .ok ([], pi)

/-- Move the requests from `first`, the first of all, to `last` behind the last
free entry.  `io_seq_end` stays as it is, also when no request is left. -/
def spliceFree (pi : ProcInfo) (first last : ℕ) : ProcInfo :=
  let after := pi.next last
  let pi := { pi with ioSeq := after }
  let pi := match after with
    | some head => pi.setPrev head none
    | none => pi
  let pi := pi.setNext last none
  let pi := pi.setPrev first (some pi.freeSeqEnd)
  let pi := pi.setNext pi.freeSeqEnd (some first)
  { pi with freeSeqEnd := last }

/-- One turn of `__reclaim_completed_reqs`, for one worker. -/
def reclaimCompletedReqs (worker : Schedule) (pi : ProcInfo) :
    Except Fault ProcInfo := do
  let firstEntry := pi.ioSeq
  let (passed, pi) ← reclaimScan worker nrMaxParallelIo pi firstEntry
  match firstEntry, passed.getLast? with
  | some first, some last => .ok (spliceFree pi first last)
  | _, _ => .ok pi

end NvmeVirt.ProcTable
