import NvmeVirt.Admin.Requests
import NvmeVirt.Core.PhaseRing

/-!
# Completion queues

The worker posts to a completion queue, and the host finds its completions by
their phase tags alone.  A run starts when the queue is created in memory of
the host.  To post one completion is one step, between looks of the host.
-/

namespace NvmeVirt.CompletionRing

open NvmeVirt.AdminRequests
open NvmeVirt.Kernel
open NvmeVirt.PhaseRing
open NvmeVirt.ProcTable
open NvmeVirt.Ring
open NvmeVirt.Transition
open NvmeVirt.Worker

/-! ## Runs -/

/-- The queue that `__nvmev_admin_create_cq` has set up over `memory`. -/
def queueOf (cq : CqInfo) (memory : ℕ → Completion) : CompletionQueue where
  queueSize := cq.queueSize
  phase := cq.phase
  cqHead := cq.cqHead
  entries := memory
  interruptReady := false

/-- A run of a queue.  All but the first field is history: the requests that
were posted, the places and entries that were written for them, the host, and
whether the host has never been more than one lap behind. -/
structure CqRun where
  cq : CompletionQueue
  posted : List ProcEntry
  written : List (ℕ × Completion)
  host : Reader Completion
  keptUp : Bool

/-- The host looks at its completion entry `count` times. -/
def CqRun.polled (s : CqRun) (count : ℕ) : CqRun :=
  { s with
    host := (Reader.poll s.cq.queueSize phaseTag s.cq.entries)^[count] s.host }

/-- `__fill_cq_result`, with its history. -/
def CqRun.filled (s : CqRun) (pe : ProcEntry) : CqRun :=
  let cq := fillCqResult s.cq pe
  { cq := cq
    posted := s.posted ++ [pe]
    written := s.written ++ [(s.cq.cqHead, cq.entries s.cq.cqHead)]
    host := s.host
    keptUp := s.keptUp &&
      decide (s.posted.length + 1 ≤ s.host.seen.length + cq.queueSize) }

inductive CqAction
  | post (pe : ProcEntry)
  | poll (count : ℕ)

def cqStep (s : CqRun) : CqAction → Except Fault CqRun
  | .post pe => .ok (s.filled pe)
  | .poll count => .ok (s.polled count)

/-- The state in which an admin command that creates the queue `qid` leaves
it. -/
def CreatedIn (memory : ℕ → Completion) (s : CqRun) : Prop :=
  ∃ ctrl eid cqHead ctrl' cq,
    createCq ctrl eid cqHead = .ok ctrl' ∧
    ctrl'.cqes (u16 (ctrl.queue.nvmeSq eid).dword10) = some cq ∧
    s = { cq := queueOf cq memory, posted := [], written := []
          host := Reader.initial, keptUp := true }

def cqMachine (memory : ℕ → Completion) : Machine CqRun CqAction Fault where
  init := CreatedIn memory
  enabled _ _ := True
  step := cqStep

/-! ## The head and the phase -/

theorem phaseTag_completionOf (phase : Bool) (pe : ProcEntry) :
    phaseTag (completionOf phase pe) = phase :=
  phaseTag_status phase pe.status

theorem createCq_spec {ctrl ctrl' : Controller} {eid cqHead : ℕ}
    (hrun : createCq ctrl eid cqHead = .ok ctrl') :
    ∃ cq, ctrl'.cqes (u16 (ctrl.queue.nvmeSq eid).dword10) = some cq ∧
      cq.queueSize = highWord (ctrl.queue.nvmeSq eid).dword10 + 1 ∧
      cq.phase = true ∧ cq.cqHead = 0 := by
  obtain ⟨_, _, hrun⟩ := bind_eq_ok hrun
  cases hrun
  exact ⟨_, Function.update_self .., rfl, rfl, rfl⟩

/-- What holds along every run.  In memory with no phase tags set, the queue
is a ring with phase tags that the host follows. -/
structure RingInv (memory : ℕ → Completion) (s : CqRun) : Prop where
  queueSize_pos : 0 < s.cq.queueSize
  cqHead_eq : s.cq.cqHead = s.posted.length % s.cq.queueSize
  phase_eq : s.cq.phase = lapPhase s.cq.queueSize s.posted.length
  written_eq : s.written = s.posted.zipIdx.map fun entry =>
    (entry.2 % s.cq.queueSize,
      completionOf (lapPhase s.cq.queueSize entry.2) entry.1)
  ring : (∀ place < s.cq.queueSize, phaseTag (memory place) = false) →
    Posted s.cq.queueSize phaseTag s.cq.entries (s.written.map Prod.snd)
  follows : (∀ place < s.cq.queueSize, phaseTag (memory place) = false) →
    s.keptUp = true →
    Follows s.cq.queueSize (s.written.map Prod.snd) s.host ∧
      s.posted.length ≤ s.host.seen.length + s.cq.queueSize

section

variable {memory : ℕ → Completion} {s : CqRun}

theorem RingInv.length_written (hinv : RingInv memory s) :
    (s.written.map Prod.snd).length = s.posted.length := by
  rw [hinv.written_eq, List.length_map, List.length_map, List.length_zipIdx]

theorem ringInv_created (hcreated : CreatedIn memory s) : RingInv memory s := by
  obtain ⟨ctrl, eid, cqHead, ctrl', cq, hrun, hcq, rfl⟩ := hcreated
  obtain ⟨cq', hcq', hsize, hphase, hhead⟩ := createCq_spec hrun
  cases hcq.symm.trans hcq'
  have hpos : 0 < cq.queueSize := by
    rw [hsize]
    exact Nat.succ_pos _
  exact
    { queueSize_pos := hpos
      cqHead_eq := hhead.trans (Nat.zero_mod _).symm
      phase_eq := hphase.trans (lapPhase_of_lt hpos).symm
      written_eq := rfl
      ring := posted_nil
      follows := fun _ _ => ⟨follows_initial, Nat.zero_le _⟩ }

/-- A completion is written to the place of its number, with the phase tag of
its lap. -/
theorem RingInv.filled (hinv : RingInv memory s) (pe : ProcEntry) :
    RingInv memory (s.filled pe) := by
  have hentry : (fillCqResult s.cq pe).entries s.cq.cqHead =
      completionOf (lapPhase s.cq.queueSize s.posted.length) pe := by
    rw [← hinv.phase_eq]
    exact Function.update_self ..
  have hlength : (s.posted ++ [pe]).length = s.posted.length + 1 := by
    rw [List.length_append, List.length_singleton]
  have hwritten : (s.filled pe).written.map Prod.snd =
      s.written.map Prod.snd ++
        [completionOf (lapPhase s.cq.queueSize s.posted.length) pe] := by
    rw [CqRun.filled, List.map_append, ← hentry]
    rfl
  refine ⟨hinv.queueSize_pos, ?_, ?_, ?_, fun hclear => ?_,
    fun hclear hkept => ?_⟩
  · have hnext := next_place hinv.queueSize_pos s.posted.length
    rw [← hlength, ← hinv.cqHead_eq] at hnext
    exact hnext.symm
  · have hflip := lapPhase_succ hinv.queueSize_pos s.posted.length
    rw [← hlength, ← hinv.cqHead_eq, ← hinv.phase_eq] at hflip
    exact hflip.symm
  · dsimp only [CqRun.filled]
    rw [hentry, hinv.written_eq, hinv.cqHead_eq, List.zipIdx_append,
      List.map_append, Nat.zero_add]
    rfl
  · rw [hwritten]
    have htag :
        phaseTag (completionOf (lapPhase s.cq.queueSize s.posted.length) pe) =
          lapPhase s.cq.queueSize (s.written.map Prod.snd).length := by
      rw [phaseTag_completionOf, hinv.length_written]
    have hring := (hinv.ring hclear).post hinv.queueSize_pos htag
    rw [hinv.length_written, ← hinv.cqHead_eq, ← hinv.phase_eq] at hring
    rw [← hinv.phase_eq]
    exact hring
  · obtain ⟨hbefore, hbehind⟩ := Bool.and_eq_true_iff.mp hkept
    rw [hwritten]
    refine ⟨(hinv.follows hclear hbefore).1.append _, ?_⟩
    dsimp only [CqRun.filled]
    rw [hlength]
    exact of_decide_eq_true hbehind

theorem RingInv.polled (hinv : RingInv memory s) (count : ℕ) :
    RingInv memory (s.polled count) := by
  refine ⟨hinv.queueSize_pos, hinv.cqHead_eq, hinv.phase_eq, hinv.written_eq,
    hinv.ring, fun hclear hkept => ?_⟩
  obtain ⟨hreader, hbehind⟩ := hinv.follows hclear hkept
  have hring := hinv.ring hclear
  rw [← hinv.length_written] at hbehind
  refine ⟨(hreader.polls hring hinv.queueSize_pos hbehind count).1, ?_⟩
  have hkeeps := hreader.polls_behind hring hinv.queueSize_pos hbehind count
  rw [hinv.length_written] at hkeeps
  exact hkeeps

theorem ringInv_inductive (memory : ℕ → Completion) :
    Inductive (cqMachine memory) (RingInv memory) where
  init := fun _ => ringInv_created
  step := by
    intro s action hinv _
    cases action with
    | post pe => exact ⟨_, rfl, hinv.filled pe⟩
    | poll count => exact ⟨_, rfl, hinv.polled count⟩

/-- Completion `number` of a queue is written to the place `number` modulo the
size of the queue, with a phase tag that is set on every other lap.  A host
that has cleared the phase tags and is never more than one lap behind sees the
completions in order, each once and nothing else, however often it looks. -/
theorem completions_in_order (hreach : Reachable (cqMachine memory) s) :
    (s.written.length = s.posted.length ∧
      ∀ number place entry, s.written[number]? = some (place, entry) →
        place = number % s.cq.queueSize ∧
        (phaseTag entry = true ↔ Even (number / s.cq.queueSize)) ∧
        ∃ pe, s.posted[number]? = some pe ∧
          entry = completionOf (phaseTag entry) pe) ∧
    ((∀ place < s.cq.queueSize, phaseTag (memory place) = false) →
      s.keptUp = true → ∀ count,
        (s.polled count).host.seen =
          (s.written.map Prod.snd).take (s.host.seen.length + count)) := by
  have hinv := (ringInv_inductive memory).reachable hreach
  have hlength := hinv.length_written
  refine ⟨⟨List.length_map Prod.snd ▸ hlength, ?_⟩, fun hclear hkept count => ?_⟩
  · intro number place entry hentry
    rw [hinv.written_eq, List.getElem?_map, List.getElem?_zipIdx,
      Option.map_map, Option.map_eq_some_iff] at hentry
    obtain ⟨pe, hpe, heq⟩ := hentry
    rw [Function.comp_apply, Nat.zero_add] at heq
    cases heq
    rw [phaseTag_completionOf]
    refine ⟨rfl, ?_, pe, hpe, rfl⟩
    rw [lapPhase, beq_iff_eq, Nat.even_iff]
  · obtain ⟨hfollows, hbehind⟩ := hinv.follows hclear hkept
    rw [← hlength] at hbehind
    exact (hfollows.polls (hinv.ring hclear) hinv.queueSize_pos hbehind
      count).2

end

/-! ## A queue of two entries -/

section

variable {memory : ℕ → Completion} {s : CqRun}

theorem CqRun.reachable_filled (hreach : Reachable (cqMachine memory) s)
    (pe : ProcEntry) : Reachable (cqMachine memory) (s.filled pe) :=
  hreach.next (show (cqMachine memory).enabled s (.post pe) from trivial) rfl

theorem CqRun.reachable_polled (hreach : Reachable (cqMachine memory) s)
    (count : ℕ) : Reachable (cqMachine memory) (s.polled count) :=
  hreach.next (show (cqMachine memory).enabled s (.poll count) from trivial) rfl

end

/-- Cleared memory. -/
def blankMemory : ℕ → Completion := fun _ =>
  { result0 := 0, result1 := 0, sqHead := 0, sqId := 0, commandId := 0
    status := 0 }

/-- A controller that has been asked for queue 1 with two entries. -/
def askedForTwo : Controller where
  queue :=
    { phase := true, sqDepth := 2, cqDepth := 2, cqHead := 0
      nvmeSq := fun _ =>
        { opcode := 0x05, commandId := 0, nsid := 0, prp1 := 0
          dword10 := 0x10001, dword11 := 1 }
      nvmeCq := blankMemory }
  nrSq := 0
  nrCq := 0
  sqes := fun _ => none
  cqes := fun _ => none
  dbs := fun _ => 0
  oldDbs := fun _ => 0
  nrNs := 1
  csi := fun _ => 0

/-- Its queue. -/
def twoEntries : CqRun where
  cq := queueOf
    { qid := 1, irqVector := 0, irqEnabled := false, physContig := true
      queueSize := 2, phase := true, cqHead := 0, cqTail := -1, prp1 := 0 }
    blankMemory
  posted := []
  written := []
  host := Reader.initial
  keptUp := true

/-- Three completions, with a look of the host in between. -/
def threePosted : CqRun :=
  (((twoEntries.filled .zeroed).filled .zeroed).polled 1).filled .zeroed

theorem threePosted_reachable :
    Reachable (cqMachine blankMemory) threePosted := by
  have hstart : Reachable (cqMachine blankMemory) twoEntries :=
    .start ⟨askedForTwo, 0, 0, _, _, rfl, rfl, rfl⟩
  exact CqRun.reachable_filled (CqRun.reachable_polled
    (CqRun.reachable_filled (CqRun.reachable_filled hstart _) _) _) _

theorem completions_in_order_three : threePosted.posted.length = 3 ∧
    (threePosted.polled 2).host.seen = threePosted.written.map Prod.snd := by
  have hclear : phaseTag (blankMemory 0) = false := by decide
  have hseen := (completions_in_order threePosted_reachable).2
    (fun _ _ => hclear) (by decide) 2
  exact ⟨rfl, hseen.trans (List.take_of_length_le (by decide))⟩

end NvmeVirt.CompletionRing
