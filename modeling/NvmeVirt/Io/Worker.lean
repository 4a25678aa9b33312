import NvmeVirt.Io.Lists

/-!
# The I/O worker

`nvmev_kthread_io` walks the list of requests again and again.  It keeps its
cursor while the dispatcher reclaims and reuses entries, so it can stand on an
entry that is free by now, or that holds another request.

One step of the dispatcher is one enqueue or one reclaim, and one step of the
worker is the visit of the entry under its cursor.  What a step does to the
completion queues and the write buffers is recorded as a posting, together
with the request its entry was last accepted for.
-/

namespace NvmeVirt.Worker

open NvmeVirt.Kernel
open NvmeVirt.Transition
open NvmeVirt.LinkedArray
open NvmeVirt.Timing
open NvmeVirt.ProcTable
open NvmeVirt.Lists

/-! ## Completions -/

/-- `struct nvme_completion`. -/
structure Completion where
  result0 : ℕ
  result1 : ℕ
  sqHead : ℕ
  sqId : ℕ
  commandId : ℕ
  status : ℕ
  deriving DecidableEq, Repr

/-- `struct nvmev_completion_queue`, as far as the worker fills it. -/
structure CompletionQueue where
  queueSize : ℕ
  phase : Bool
  cqHead : ℕ
  entries : ℕ → Completion
  interruptReady : Bool

/-- Truncation to a 16-bit field. -/
def u16 (value : ℕ) : ℕ := value % 2 ^ 16

/-- The entry `__fill_cq_result` writes. -/
def completionOf (phase : Bool) (pe : ProcEntry) : Completion :=
  { commandId := u16 pe.commandId
    sqId := u16 pe.sqid
    sqHead := u16 pe.sqEntry
    status := u16 (phase.toNat ||| pe.status <<< 1)
    result0 := pe.result0
    result1 := pe.result1 }

/-- `__fill_cq_result`. -/
def fillCqResult (cq : CompletionQueue) (pe : ProcEntry) : CompletionQueue :=
  let wraps := cq.cqHead + 1 = cq.queueSize
  { cq with
    entries := Function.update cq.entries cq.cqHead
      (completionOf cq.phase pe)
    cqHead := if wraps then 0 else cq.cqHead + 1
    phase := if wraps then !cq.phase else cq.phase
    interruptReady := true }

/-- What the worker writes apart from its table. -/
structure Outputs where
  cqes : ℕ → CompletionQueue
  buffers : ℕ → Buffer

/-- Completion queues as they are created, and buffers of no size. -/
def Outputs.initial (queueSize : ℕ) : Outputs :=
  { cqes := fun _ =>
      { queueSize := queueSize, phase := true, cqHead := 0
        entries := fun _ =>
          { result0 := 0, result1 := 0, sqHead := 0, sqId := 0
            commandId := 0, status := 0 }
        interruptReady := false }
    buffers := fun _ => bufferInit 0 }

inductive Post
  /-- `__fill_cq_result` wrote `cqe` into the queue `cqid`. -/
  | completion (cqid : ℕ) (cqe : Completion)
  /-- `buffer_release` gave `buffs` back. -/
  | release (writeBuffer buffs : ℕ)
  deriving DecidableEq, Repr

/-- The end of a request that is due. -/
def complete (out : Outputs) (pe : ProcEntry) : Post × Outputs :=
  if pe.writebackCmd then
    (.release pe.writeBuffer pe.buffsToRelease,
      { out with
        buffers := Function.update out.buffers pe.writeBuffer
          (bufferRelease (out.buffers pe.writeBuffer) pe.buffsToRelease) })
  else
    let cq := out.cqes pe.cqid
    (.completion pe.cqid (completionOf cq.phase pe),
      { out with
        cqes := Function.update out.cqes pe.cqid (fillCqResult cq pe) })

/-! ## A visit -/

/-- `BASE_SSD == KV_PROTOTYPE`, and the module parameter `io_using_dma`. -/
structure Build where
  kvPrototype : Bool
  ioUsingDma : Bool
  deriving DecidableEq, Repr

/-- The result and status of `perform_io_cmd`, where the worker calls it.
`answer` is `none` when `identify_io_cmd` does not know the command. -/
def performed (build : Build) (answer : Option (ℕ × ℕ)) (pe : ProcEntry) :
    Option (ℕ × ℕ) :=
  if pe.isCopied then none
  else if pe.writebackCmd then none
  else if build.ioUsingDma then none
  else if build.kvPrototype then answer
  else none

/-- Copying the data of a request, once. -/
def copyData (build : Build) (answer : Option (ℕ × ℕ)) (pi : ProcInfo)
    (curr : ℕ) : ProcInfo :=
  let pe := pi.procTable curr
  if pe.isCopied then pi
  else
    let pi := match performed build answer pe with
      | some (result0, status) => pi.mark (.performed curr result0 status)
      | none => pi
    pi.mark (.copied curr)

structure Visited where
  pi : ProcInfo
  out : Outputs
  post : Option Post
  cursor : Option ℕ

/-- One iteration of the inner loop of `nvmev_kthread_io`, at the time
`currNsecs`. -/
def visit (build : Build) (pi : ProcInfo) (out : Outputs)
    (curr currNsecs : ℕ) (answer : Option (ℕ × ℕ)) : Visited :=
  let pi := pi.mark (.procIoNsecs currNsecs)
  if (pi.procTable curr).isCompleted then
    { pi := pi, out := out, post := none, cursor := pi.next curr }
  else
    let pi := copyData build answer pi curr
    let pe := pi.procTable curr
    if pe.nsecsTarget ≤ currNsecs then
      let (post, out) := complete out pe
      let pi := pi.mark (.completed curr)
      { pi := pi, out := out, post := some post, cursor := pi.next curr }
    else { pi := pi, out := out, post := none, cursor := pi.next curr }

/-! ## The system -/

inductive Request
  | io (req : IoReq)
  | writeback (wb : Writeback)
  deriving DecidableEq, Repr

def Request.fill : Request → ProcEntry → ProcEntry
  | .io req => req.fill
  | .writeback wb => wb.fill

def Request.enqueue (pi : ProcInfo) : Request → Except Fault ProcInfo
  | .io req => enqueueIoReq quiet pi req
  | .writeback wb => enqueueWritebackIoReq quiet pi wb

/-- An accepted request: its number, the result dwords its entry had when it
was accepted, and what `perform_io_cmd` has answered for it. -/
structure Holder where
  id : ℕ
  request : Request
  leftover0 : ℕ
  leftover1 : ℕ
  performed : Option (ℕ × ℕ)
  deriving DecidableEq, Repr

/-- A request for which `perform_io_cmd` has answered `result`. -/
def Holder.answered (h : Holder) : Option (ℕ × ℕ) → Holder
  | some result => { h with performed := some result }
  | none => h

structure Posting where
  slot : ℕ
  holder : Option Holder
  post : Post
  deriving DecidableEq, Repr

/-- The number of the request a posting is for. -/
def Posting.id (posting : Posting) : Option ℕ := posting.holder.map Holder.id

/-- A worker and its table.  `accepted`, `holder` and `posted` are history: how
many requests were accepted, which one each entry was last accepted for, and
what was posted. -/
structure IoState where
  pi : ProcInfo
  cursor : Option ℕ
  out : Outputs
  accepted : ℕ
  holder : ℕ → Option Holder
  posted : List Posting

namespace IoState

def start (out : Outputs) : IoState :=
  { pi := nvmevIoProcInit, cursor := none, out := out, accepted := 0
    holder := fun _ => none, posted := [] }

/-- The request went into the first free entry, and the table became `pi`. -/
def accept (s : IoState) (pi : ProcInfo) (request : Request) : IoState :=
  let pe := s.pi.procTable s.pi.freeSeq
  { s with
    pi := pi
    accepted := s.accepted + 1
    holder := Function.update s.holder s.pi.freeSeq (some
      { id := s.accepted, request := request, leftover0 := pe.result0
        leftover1 := pe.result1, performed := none }) }

/-- The history of a visit at `curr`: `perform_io_cmd` may have answered. -/
def holderAfter (build : Build) (s : IoState) (curr : ℕ)
    (answer : Option (ℕ × ℕ)) : Option Holder :=
  let pe := s.pi.procTable curr
  if pe.isCompleted then s.holder curr
  else (s.holder curr).map (·.answered (performed build answer pe))

def visited (build : Build) (s : IoState) (curr currNsecs : ℕ)
    (answer : Option (ℕ × ℕ)) : IoState :=
  let after := visit build s.pi s.out curr currNsecs answer
  let holder := s.holderAfter build curr answer
  { s with
    pi := after.pi
    cursor := after.cursor
    out := after.out
    holder := Function.update s.holder curr holder
    posted := s.posted ++ after.post.toList.map fun post =>
      { slot := curr, holder := holder, post := post } }

end IoState

inductive IoAction
  | enqueue (request : Request)
  | reclaim
  | restart
  | visit (currNsecs : ℕ) (answer : Option (ℕ × ℕ))

def ioStep (build : Build) (s : IoState) : IoAction → Except Fault IoState
  | .enqueue request => do
      let pi ← request.enqueue s.pi
      .ok (if HasRoom s.pi then s.accept pi request else { s with pi := pi })
  | .reclaim => do
      let pi ← reclaimCompletedReqs quiet s.pi
      .ok { s with pi := pi }
  | .restart => .ok { s with cursor := s.pi.ioSeq }
  | .visit currNsecs answer =>
      match s.cursor with
      | some curr => .ok (s.visited build curr currNsecs answer)
      | none => .ok s

/-- The worker starts over when its cursor has reached the end, and visits an
entry when it has not. -/
def Enabled (s : IoState) : IoAction → Prop
  | .enqueue _ => True
  | .reclaim => True
  | .restart => s.cursor = none
  | .visit _ _ => s.cursor ≠ none

instance (s : IoState) (action : IoAction) : Decidable (Enabled s action) :=
  match action with
  | .enqueue _ => isTrue trivial
  | .reclaim => isTrue trivial
  | .restart => inferInstanceAs (Decidable (s.cursor = none))
  | .visit _ _ => inferInstanceAs (Decidable (s.cursor ≠ none))

def ioMachine (build : Build) : Machine IoState IoAction Fault where
  init s := ∃ out, s = IoState.start out
  enabled := Enabled
  step := ioStep build

instance (build : Build) (s : IoState) (action : IoAction) :
    Decidable ((ioMachine build).enabled s action) :=
  inferInstanceAs (Decidable (Enabled s action))

end NvmeVirt.Worker
