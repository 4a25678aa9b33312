import NvmeVirt.Io.CompletionRing
import NvmeVirt.Io.Dispatch

/-!
# Completion queues shared by workers

Several workers can post to one completion queue, and one of them turns
completions into interrupts.  They meet in `entry_lock`, in `irq_lock` and in
the flag `interrupt_ready`, which none of the locks protects.  Here one step
of a worker is one of its accesses to the queue: `__fill_cq_result` reads
`cq_head` before it takes `entry_lock`, writes the entry and then sets the
flag; the loop over the queues at the end of `nvmev_kthread_io` tries
`irq_lock`, reads the flag, clears it and only then sends the interrupt.
-/

namespace NvmeVirt.Interrupts

open NvmeVirt.CompletionRing
open NvmeVirt.Dispatch
open NvmeVirt.Kernel
open NvmeVirt.ProcTable
open NvmeVirt.Transition
open NvmeVirt.Worker

/-! ## The accesses -/

/-- What a worker is doing with the queue. -/
inductive Phase
  | elsewhere
  /-- `cq_head` is read, `entry_lock` not yet taken. -/
  | headRead (pe : ProcEntry) (cqHead : ℕ)
  | entryLocked (pe : ProcEntry) (cqHead : ℕ)
  /-- The entry is written, the flag not yet set. -/
  | entryWritten
  | irqLocked
  /-- The flag was found set. -/
  | readySeen
  /-- The flag is cleared, the interrupt not yet sent. -/
  | readyCleared
  | irqChecked
  deriving DecidableEq

/-- The queue and its workers.  `written`, `signals` and `covered` are
history: the places and entries that were written, the interrupts sent, and
how many entries were there at the last one. -/
structure SharedCq where
  cq : CompletionQueue
  entryLock : Option ℕ
  irqLock : Option ℕ
  phase : ℕ → Phase
  written : List (ℕ × Completion)
  signals : ℕ
  covered : ℕ

namespace SharedCq

def start (cq : CompletionQueue) : SharedCq where
  cq := cq
  entryLock := none
  irqLock := none
  phase := fun _ => .elsewhere
  written := []
  signals := 0
  covered := 0

def goto (s : SharedCq) (worker : ℕ) (phase : Phase) : SharedCq :=
  { s with phase := Function.update s.phase worker phase }

def withReady (s : SharedCq) (ready : Bool) : SharedCq :=
  { s with cq := { s.cq with interruptReady := ready } }

end SharedCq

/-- The entry, the head and the phase, as `__fill_cq_result` stores them once
it has the lock; `cqHead` is its local variable. -/
def storeCompletion (cq : CompletionQueue) (cqHead : ℕ) (pe : ProcEntry) :
    CompletionQueue :=
  let wraps := cqHead + 1 = cq.queueSize
  { cq with
    entries := Function.update cq.entries cqHead (completionOf cq.phase pe)
    cqHead := if wraps then 0 else cqHead + 1
    phase := if wraps then !cq.phase else cq.phase }

/-- With the head as it is in the queue, the accesses together are
`__fill_cq_result`. -/
theorem storeCompletion_head (cq : CompletionQueue) (pe : ProcEntry) :
    { storeCompletion cq cq.cqHead pe with interruptReady := true } =
      fillCqResult cq pe := rfl

/-- The next access of a worker. -/
def SharedCq.advance (s : SharedCq) (worker : ℕ) : SharedCq :=
  match s.phase worker with
  | .elsewhere => s
  | .headRead pe cqHead =>
      { s.goto worker (.entryLocked pe cqHead) with entryLock := some worker }
  | .entryLocked pe cqHead =>
      let cq := storeCompletion s.cq cqHead pe
      { s.goto worker .entryWritten with
        cq := cq
        written := s.written ++ [(cqHead, cq.entries cqHead)] }
  | .entryWritten =>
      { (s.goto worker .elsewhere).withReady true with entryLock := none }
  | .irqLocked =>
      if s.cq.interruptReady then s.goto worker .readySeen
      else s.goto worker .irqChecked
  | .readySeen => (s.goto worker .readyCleared).withReady false
  | .readyCleared =>
      { s.goto worker .irqChecked with
        signals := s.signals + 1
        covered := s.written.length }
  | .irqChecked => { s.goto worker .elsewhere with irqLock := none }

/-- `spin_trylock`: a worker that does not get the lock goes on. -/
def SharedCq.tryIrq (s : SharedCq) (worker : ℕ) : SharedCq :=
  match s.irqLock with
  | none => { s.goto worker .irqLocked with irqLock := some worker }
  | some _ => s

/-! ## Runs -/

/-- The worker of a queue, with `CONFIG_NVMEV_IO_WORKER_BY_SQ`. -/
def workerOf (nrIoCpu qid : ℕ) : ℕ := sub32 qid 1 % nrIoCpu

theorem getIoWorker_eq {workers : Workers} (hnr : workers.nrIoCpu ≠ 0)
    (qid : ℕ) :
    getIoWorker workers qid = .ok (workerOf workers.nrIoCpu qid) :=
  getIoWorker_of hnr qid

/-- The completion queue `cqid`, and the submission queues whose completions it
takes. -/
structure Sharing where
  nrIoCpu : ℕ
  cqid : ℕ
  irqEnabled : Bool
  sqids : List ℕ

inductive CqMove
  /-- A worker begins `__fill_cq_result` for `pe`. -/
  | readHead (worker : ℕ) (pe : ProcEntry)
  | tryIrq (worker : ℕ)
  | advance (worker : ℕ)

/-- A worker at the queue can go on; `spin_lock` waits for the lock. -/
def Phase.CanAdvance (entryLock : Option ℕ) : Phase → Prop
  | .elsewhere => False
  | .headRead _ _ => entryLock = none
  | _ => True

instance (entryLock : Option ℕ) (phase : Phase) :
    Decidable (phase.CanAdvance entryLock) :=
  match phase with
  | .elsewhere => isFalse id
  | .headRead _ _ => inferInstanceAs (Decidable (entryLock = none))
  | .entryLocked _ _ | .entryWritten | .irqLocked | .readySeen
  | .readyCleared | .irqChecked => isTrue trivial

/-- A worker posts for its own submission queues, and sends the interrupts of
the completion queues with such a number. -/
def Possible (sharing : Sharing) (s : SharedCq) : CqMove → Prop
  | .readHead worker pe => s.phase worker = .elsewhere ∧
      pe.sqid ∈ sharing.sqids ∧ worker = workerOf sharing.nrIoCpu pe.sqid
  | .tryIrq worker => s.phase worker = .elsewhere ∧
      sharing.irqEnabled = true ∧
      worker = workerOf sharing.nrIoCpu sharing.cqid
  | .advance worker => (s.phase worker).CanAdvance s.entryLock

instance (sharing : Sharing) (s : SharedCq) (move : CqMove) :
    Decidable (Possible sharing s move) :=
  match move with
  | .readHead _ _ => inferInstanceAs (Decidable (_ ∧ _ ∧ _))
  | .tryIrq _ => inferInstanceAs (Decidable (_ ∧ _ ∧ _))
  | .advance worker =>
      inferInstanceAs (Decidable ((s.phase worker).CanAdvance s.entryLock))

def moved (s : SharedCq) : CqMove → SharedCq
  | .readHead worker pe => s.goto worker (.headRead pe s.cq.cqHead)
  | .tryIrq worker => s.tryIrq worker
  | .advance worker => s.advance worker

def sharedMachine (memory : ℕ → Completion) (sharing : Sharing) :
    Machine SharedCq CqMove Fault where
  init s := ∃ run, CreatedIn memory run ∧ s = .start run.cq
  enabled := Possible sharing
  step s move := .ok (moved s move)

instance (memory : ℕ → Completion) (sharing : Sharing) (s : SharedCq)
    (move : CqMove) :
    Decidable ((sharedMachine memory sharing).enabled s move) :=
  inferInstanceAs (Decidable (Possible sharing s move))

/-! ## No completion stays without an interrupt -/

/-- The phases in which a worker holds `entry_lock`, and those in which it
holds `irq_lock`. -/
def Phase.inEntry : Phase → Bool
  | .entryLocked _ _ | .entryWritten => true
  | _ => false

def Phase.inIrq : Phase → Bool
  | .irqLocked | .readySeen | .readyCleared | .irqChecked => true
  | _ => false

/-- Whether the holder of a lock is at `place`. -/
def holderAt (lock : Option ℕ) (phase : ℕ → Phase) (place : Phase) : ℕ :=
  match lock with
  | some worker => if phase worker = place then 1 else 0
  | none => 0

/-- The interrupts that are on their way: one for a worker about to set the
flag, one for the flag, and one for a worker about to send. -/
def owed (s : SharedCq) : ℕ :=
  holderAt s.entryLock s.phase .entryWritten + s.cq.interruptReady.toNat +
    holderAt s.irqLock s.phase .readyCleared

/-- What holds between the accesses. -/
structure Served (s : SharedCq) : Prop where
  entry_iff : ∀ worker,
    (s.phase worker).inEntry = true ↔ s.entryLock = some worker
  irq_iff : ∀ worker,
    (s.phase worker).inIrq = true ↔ s.irqLock = some worker
  seen : ∀ worker, s.phase worker = .readySeen → s.cq.interruptReady = true
  covered_le : s.covered ≤ s.written.length
  pending : s.covered < s.written.length → s.cq.interruptReady = true ∨
    ∃ worker, s.phase worker = .entryWritten ∨ s.phase worker = .readyCleared
  paid : s.signals + owed s ≤ s.written.length

section Locks

variable {inLock : Phase → Bool} {lock : Option ℕ} {phase : ℕ → Phase}
  {worker : ℕ} {next place : Phase}

/-- A step of a worker that neither takes nor frees the lock. -/
theorem lock_iff_stay
    (h : ∀ other, inLock (phase other) = true ↔ lock = some other)
    (hsame : inLock next = inLock (phase worker)) (other : ℕ) :
    inLock (Function.update phase worker next other) = true ↔
      lock = some other := by
  by_cases hother : other = worker
  · subst hother
    rw [Function.update_self, hsame, h]
  · rw [Function.update_of_ne hother, h]

theorem lock_iff_take
    (h : ∀ other, inLock (phase other) = true ↔ lock = some other)
    (hfree : lock = none) (hin : inLock next = true) (other : ℕ) :
    inLock (Function.update phase worker next other) = true ↔
      some worker = some other := by
  by_cases hother : other = worker
  · subst hother
    rw [Function.update_self]
    exact iff_of_true hin rfl
  · rw [Function.update_of_ne hother, h, hfree, Option.some_inj]
    exact iff_of_false (Option.some_ne_none _).symm (Ne.symm hother)

theorem lock_iff_free
    (h : ∀ other, inLock (phase other) = true ↔ lock = some other)
    (hheld : inLock (phase worker) = true) (hout : inLock next = false)
    (other : ℕ) :
    inLock (Function.update phase worker next other) = true ↔
      none = some other := by
  refine iff_of_false ?_ (Option.some_ne_none _).symm
  by_cases hother : other = worker
  · subst hother
    rw [Function.update_self, hout]
    exact Bool.false_ne_true
  · rw [Function.update_of_ne hother, h, (h worker).mp hheld, Option.some_inj]
    exact Ne.symm hother

theorem holderAt_self (hlock : lock = some worker) :
    holderAt lock (Function.update phase worker next) place =
      if next = place then 1 else 0 := by
  rw [hlock, holderAt, Function.update_self]

/-- The step of a worker that does not hold the lock, or is not at `place`
before or after it. -/
theorem holderAt_stay (h : lock = some worker →
      next ≠ place ∧ phase worker ≠ place) :
    holderAt lock (Function.update phase worker next) place =
      holderAt lock phase place := by
  cases lock with
  | none => rfl
  | some other =>
      by_cases hother : other = worker
      · subst hother
        obtain ⟨hnext, hbefore⟩ := h rfl
        rw [holderAt_self rfl, if_neg hnext, holderAt, if_neg hbefore]
      · rw [holderAt, holderAt, Function.update_of_ne hother]

end Locks

theorem served_start (cq : CompletionQueue)
    (hready : cq.interruptReady = false) : Served (.start cq) where
  entry_iff _ := iff_of_false Bool.false_ne_true (Option.some_ne_none _).symm
  irq_iff _ := iff_of_false Bool.false_ne_true (Option.some_ne_none _).symm
  seen _ h := Phase.noConfusion h
  covered_le := le_refl 0
  pending h := absurd h (lt_irrefl 0)
  paid := by
    change 0 + (0 + cq.interruptReady.toNat + 0) ≤ 0
    rw [hready]
    exact le_refl 0

/-- A worker has an interrupt of its own under way. -/
def Phase.owes (phase : Phase) : Prop :=
  phase = .entryWritten ∨ phase = .readyCleared

/-- A step of a worker that owes no interrupt leaves the others' as they
are. -/
theorem owes_goto {s : SharedCq} {worker : ℕ} {next : Phase}
    (hworker : ¬ (s.phase worker).owes) {other : ℕ}
    (hother : (s.phase other).owes) :
    (Function.update s.phase worker next other).owes := by
  have hne : other ≠ worker := by
    rintro rfl
    exact hworker hother
  rwa [Function.update_of_ne hne]

section Steps

variable {s : SharedCq} {worker : ℕ}

/-- A step that takes or frees no lock and leaves the queue as it is. -/
theorem Served.goto (hserved : Served s) {next : Phase}
    (hentry : next.inEntry = (s.phase worker).inEntry)
    (hirq : next.inIrq = (s.phase worker).inIrq)
    (hseen : next = .readySeen → s.cq.interruptReady = true)
    (hbefore : ¬ (s.phase worker).owes) (hafter : ¬ next.owes) :
    Served (s.goto worker next) where
  entry_iff := lock_iff_stay hserved.entry_iff hentry
  irq_iff := lock_iff_stay hserved.irq_iff hirq
  seen other hother := by
    by_cases hne : other = worker
    · subst hne
      exact hseen ((Function.update_self ..).symm.trans hother)
    · exact hserved.seen other ((Function.update_of_ne hne ..).symm.trans hother)
  covered_le := hserved.covered_le
  pending hbehind := (hserved.pending hbehind).imp_right fun ⟨other, hother⟩ =>
    ⟨other, owes_goto hbefore hother⟩
  paid := by
    have howed : owed (s.goto worker next) = owed s := by
      rw [owed, owed]
      congr 1
      · congr 1
        exact holderAt_stay fun _ =>
          ⟨fun h => hafter (.inl h), fun h => hbefore (.inl h)⟩
      · exact holderAt_stay fun _ =>
          ⟨fun h => hafter (.inr h), fun h => hbefore (.inr h)⟩
    rw [howed]
    exact hserved.paid

/-- A worker that does not write its entry. -/
theorem holderAt_entry (s : SharedCq) (worker : ℕ) (next : Phase)
    (hnext : next ≠ .entryWritten)
    (hbefore : s.phase worker ≠ .entryWritten) :
    holderAt s.entryLock (Function.update s.phase worker next) .entryWritten =
      holderAt s.entryLock s.phase .entryWritten :=
  holderAt_stay fun _ => ⟨hnext, hbefore⟩

/-- A worker that does not clear the flag. -/
theorem holderAt_irq (s : SharedCq) (worker : ℕ) (next : Phase)
    (hnext : next ≠ .readyCleared)
    (hbefore : s.phase worker ≠ .readyCleared) :
    holderAt s.irqLock (Function.update s.phase worker next) .readyCleared =
      holderAt s.irqLock s.phase .readyCleared :=
  holderAt_stay fun _ => ⟨hnext, hbefore⟩

/-- What a step leaves of `pending` when it adds no entry and does not clear
the flag. -/
theorem Served.pending_goto (hserved : Served s) {next : Phase}
    (hbefore : ¬ (s.phase worker).owes)
    (hbehind : s.covered < s.written.length) :
    s.cq.interruptReady = true ∨
      ∃ other, (Function.update s.phase worker next other).owes :=
  (hserved.pending hbehind).imp_right fun ⟨other, hother⟩ =>
    ⟨other, owes_goto hbefore hother⟩

theorem Served.seen_goto (hserved : Served s) {next : Phase}
    (hnext : next ≠ .readySeen) (other : ℕ)
    (hother : Function.update s.phase worker next other = .readySeen) :
    s.cq.interruptReady = true := by
  by_cases hne : other = worker
  · subst hne
    exact absurd ((Function.update_self ..).symm.trans hother) hnext
  · exact hserved.seen other ((Function.update_of_ne hne ..).symm.trans hother)

theorem Served.lockEntries (hserved : Served s) {pe : ProcEntry} {cqHead : ℕ}
    (hphase : s.phase worker = .headRead pe cqHead)
    (hfree : s.entryLock = none) : Served (s.advance worker) := by
  have hbefore : ¬ (s.phase worker).owes := by
    rw [hphase]
    exact fun h => h.elim Phase.noConfusion Phase.noConfusion
  rw [SharedCq.advance, hphase]
  refine ⟨lock_iff_take hserved.entry_iff hfree rfl,
    lock_iff_stay hserved.irq_iff (by rw [hphase]; rfl),
    hserved.seen_goto Phase.noConfusion, hserved.covered_le,
    hserved.pending_goto hbefore, ?_⟩
  have hpaid := hserved.paid
  rw [owed, hfree, holderAt] at hpaid
  have hirq := holderAt_irq s worker (.entryLocked pe cqHead) Phase.noConfusion
    fun h => hbefore (.inr h)
  rw [owed]
  dsimp only [SharedCq.goto]
  rw [hirq, holderAt_self rfl, if_neg Phase.noConfusion]
  exact hpaid

theorem Served.tryIrq (hserved : Served s)
    (hphase : s.phase worker = .elsewhere) : Served (s.tryIrq worker) := by
  have hbefore : ¬ (s.phase worker).owes := by
    rw [hphase]
    exact fun h => h.elim Phase.noConfusion Phase.noConfusion
  rw [SharedCq.tryIrq]
  cases hfree : s.irqLock with
  | some other => exact hserved
  | none =>
      refine ⟨lock_iff_stay hserved.entry_iff (by rw [hphase]; rfl),
        lock_iff_take hserved.irq_iff hfree rfl,
        hserved.seen_goto Phase.noConfusion, hserved.covered_le,
        hserved.pending_goto hbefore, ?_⟩
      have hpaid := hserved.paid
      rw [owed, hfree, holderAt.eq_2] at hpaid
      have hentry := holderAt_entry s worker .irqLocked Phase.noConfusion
        fun h => hbefore (.inl h)
      rw [owed]
      dsimp only [SharedCq.goto]
      rw [hentry, holderAt_self rfl, if_neg Phase.noConfusion]
      exact hpaid

/-- A new entry, and the worker about to set the flag for it. -/
theorem Served.fill (hserved : Served s) {pe : ProcEntry} {cqHead : ℕ}
    (hphase : s.phase worker = .entryLocked pe cqHead) :
    Served (s.advance worker) := by
  have hlock : s.entryLock = some worker := by
    rw [← hserved.entry_iff, hphase]
    rfl
  rw [SharedCq.advance, hphase]
  dsimp only
  refine ⟨lock_iff_stay hserved.entry_iff (by rw [hphase]; rfl),
    lock_iff_stay hserved.irq_iff (by rw [hphase]; rfl),
    hserved.seen_goto Phase.noConfusion, ?_, fun _ => .inr ⟨worker, .inl ?_⟩,
    ?_⟩
  · dsimp only [SharedCq.goto]
    rw [List.length_append]
    exact Nat.le_add_right_of_le hserved.covered_le
  · exact Function.update_self ..
  · have hpaid := hserved.paid
    have hirq := holderAt_irq s worker .entryWritten Phase.noConfusion
      fun h => by rw [hphase] at h; cases h
    rw [owed] at hpaid ⊢
    dsimp only [SharedCq.goto, storeCompletion]
    rw [hirq, holderAt_self hlock, if_pos rfl, List.length_append,
      List.length_singleton]
    omega

theorem Served.announce (hserved : Served s)
    (hphase : s.phase worker = .entryWritten) : Served (s.advance worker) := by
  have hlock : s.entryLock = some worker := by
    rw [← hserved.entry_iff, hphase]
    rfl
  rw [SharedCq.advance, hphase]
  refine ⟨lock_iff_free hserved.entry_iff (by rw [hphase]; rfl) rfl,
    lock_iff_stay hserved.irq_iff (by rw [hphase]; rfl), fun _ _ => rfl,
    hserved.covered_le, fun _ => .inl rfl, ?_⟩
  have hpaid := hserved.paid
  rw [owed, hlock, holderAt, if_pos hphase] at hpaid
  have hirq := holderAt_irq s worker .elsewhere Phase.noConfusion
    fun h => by rw [hphase] at h; cases h
  rw [owed]
  dsimp only [SharedCq.goto, SharedCq.withReady]
  rw [hirq, holderAt, Bool.toNat_true]
  omega

/-- The flag is cleared, and the worker that cleared it is about to send. -/
theorem Served.clear (hserved : Served s)
    (hphase : s.phase worker = .readySeen) : Served (s.advance worker) := by
  have hlock : s.irqLock = some worker := by
    rw [← hserved.irq_iff, hphase]
    rfl
  have hready := hserved.seen worker hphase
  rw [SharedCq.advance, hphase]
  refine ⟨lock_iff_stay hserved.entry_iff (by rw [hphase]; rfl),
    lock_iff_stay hserved.irq_iff (by rw [hphase]; rfl), ?_,
    hserved.covered_le, fun _ => .inr ⟨worker, .inr ?_⟩, ?_⟩
  · -- only the holder of `irq_lock` can have seen the flag
    intro other hother
    have hne : other ≠ worker := by
      rintro rfl
      exact absurd ((Function.update_self ..).symm.trans hother)
        Phase.noConfusion
    have hseen : s.phase other = .readySeen :=
      (Function.update_of_ne hne ..).symm.trans hother
    have hheld : s.irqLock = some other := by
      rw [← hserved.irq_iff, hseen]
      rfl
    exact absurd (Option.some_inj.mp (hheld.symm.trans hlock)) hne
  · exact Function.update_self ..
  · have hpaid := hserved.paid
    rw [owed, hlock, holderAt.eq_1 s.phase, hready, Bool.toNat_true] at hpaid
    have hentry := holderAt_entry s worker .readyCleared Phase.noConfusion
      fun h => by rw [hphase] at h; cases h
    rw [owed]
    dsimp only [SharedCq.goto, SharedCq.withReady]
    rw [hentry, holderAt_self hlock, if_pos rfl, Bool.toNat_false]
    omega

/-- The interrupt is sent, for all entries that are there. -/
theorem Served.signal (hserved : Served s)
    (hphase : s.phase worker = .readyCleared) : Served (s.advance worker) := by
  have hlock : s.irqLock = some worker := by
    rw [← hserved.irq_iff, hphase]
    rfl
  rw [SharedCq.advance, hphase]
  refine ⟨lock_iff_stay hserved.entry_iff (by rw [hphase]; rfl),
    lock_iff_stay hserved.irq_iff (by rw [hphase]; rfl),
    hserved.seen_goto Phase.noConfusion, le_refl _,
    fun hbehind => absurd hbehind (lt_irrefl _), ?_⟩
  have hpaid := hserved.paid
  rw [owed, hlock, holderAt.eq_1 s.phase, if_pos hphase] at hpaid
  have hentry := holderAt_entry s worker .irqChecked Phase.noConfusion
    fun h => by rw [hphase] at h; cases h
  rw [owed]
  dsimp only [SharedCq.goto]
  rw [hentry, holderAt_self hlock, if_neg Phase.noConfusion]
  omega

theorem Served.unlockIrq (hserved : Served s)
    (hphase : s.phase worker = .irqChecked) : Served (s.advance worker) := by
  have hlock : s.irqLock = some worker := by
    rw [← hserved.irq_iff, hphase]
    rfl
  have hbefore : ¬ (s.phase worker).owes := by
    rw [hphase]
    exact fun h => h.elim Phase.noConfusion Phase.noConfusion
  rw [SharedCq.advance, hphase]
  refine ⟨lock_iff_stay hserved.entry_iff (by rw [hphase]; rfl),
    lock_iff_free hserved.irq_iff (by rw [hphase]; rfl) rfl,
    hserved.seen_goto Phase.noConfusion, hserved.covered_le,
    hserved.pending_goto hbefore, ?_⟩
  have hpaid := hserved.paid
  have hentry := holderAt_entry s worker .elsewhere Phase.noConfusion
    fun h => hbefore (.inl h)
  rw [owed] at hpaid ⊢
  dsimp only [SharedCq.goto]
  rw [hentry, holderAt]
  omega

theorem Served.advance (hserved : Served s)
    (hcan : (s.phase worker).CanAdvance s.entryLock) :
    Served (s.advance worker) := by
  cases hphase : s.phase worker with
  | elsewhere =>
      rw [hphase] at hcan
      exact absurd hcan id
  | headRead pe cqHead =>
      rw [hphase] at hcan
      exact hserved.lockEntries hphase hcan
  | entryLocked pe cqHead => exact hserved.fill hphase
  | entryWritten => exact hserved.announce hphase
  | irqLocked =>
      have hbefore : ¬ (s.phase worker).owes := by
        rw [hphase]
        exact fun h => h.elim Phase.noConfusion Phase.noConfusion
      rw [SharedCq.advance, hphase]
      dsimp only
      split_ifs with hready
      · exact hserved.goto (by rw [hphase]; rfl) (by rw [hphase]; rfl)
          (fun _ => hready) hbefore
          fun h => h.elim Phase.noConfusion Phase.noConfusion
      · exact hserved.goto (by rw [hphase]; rfl) (by rw [hphase]; rfl)
          Phase.noConfusion hbefore
          fun h => h.elim Phase.noConfusion Phase.noConfusion
  | readySeen => exact hserved.clear hphase
  | readyCleared => exact hserved.signal hphase
  | irqChecked => exact hserved.unlockIrq hphase

end Steps

theorem served_inductive (memory : ℕ → Completion) (sharing : Sharing) :
    Inductive (sharedMachine memory sharing) Served where
  init := by
    rintro _ ⟨run, ⟨ctrl, eid, cqHead, ctrl', cq, -, -, rfl⟩, rfl⟩
    exact served_start _ rfl
  step := by
    intro s move hserved hpossible
    refine ⟨_, rfl, ?_⟩
    cases move with
    | readHead worker pe =>
        obtain ⟨hphase, -⟩ := hpossible
        refine hserved.goto (by rw [hphase]; rfl) (by rw [hphase]; rfl)
          Phase.noConfusion ?_ fun h =>
            h.elim Phase.noConfusion Phase.noConfusion
        rw [hphase]
        exact fun h => h.elim Phase.noConfusion Phase.noConfusion
    | tryIrq worker => exact hserved.tryIrq hpossible.1
    | advance worker => exact hserved.advance hpossible

/-- The turn of a worker at the queue when nobody else is at it. -/
def irqTurn (ready : Bool) (worker : ℕ) : List CqMove :=
  if ready then
    [.tryIrq worker, .advance worker, .advance worker, .advance worker,
      .advance worker]
  else [.tryIrq worker, .advance worker, .advance worker]

/-- The queue after such a turn. -/
def afterTurn (s : SharedCq) : SharedCq :=
  if s.cq.interruptReady then
    { s.withReady false with
      signals := s.signals + 1
      covered := s.written.length }
  else s

section Turn

variable {memory : ℕ → Completion} {sharing : Sharing} {s : SharedCq}
  {worker : ℕ}

/-- One access of a worker that can go on. -/
theorem run_advance (phase : Phase) (hphase : s.phase worker = phase)
    (hcan : phase.CanAdvance s.entryLock) (moves : List CqMove) :
    (sharedMachine memory sharing).run (.advance worker :: moves) s =
      (sharedMachine memory sharing).run moves (s.advance worker) := by
  have henabled : (sharedMachine memory sharing).enabled s
      (.advance worker) := by
    change (s.phase worker).CanAdvance s.entryLock
    rw [hphase]
    exact hcan
  exact Machine.run_cons_of henabled rfl moves

/-- The turn of the worker that serves the queue. -/
theorem run_irqTurn (hphase : s.phase worker = .elsewhere)
    (hfree : s.irqLock = none) (hirq : sharing.irqEnabled = true)
    (hworker : worker = workerOf sharing.nrIoCpu sharing.cqid) :
    (sharedMachine memory sharing).run
      (irqTurn s.cq.interruptReady worker) s = some (afterTurn s) := by
  have henabled : (sharedMachine memory sharing).enabled s (.tryIrq worker) :=
    ⟨hphase, hirq, hworker⟩
  have htry : moved s (.tryIrq worker) =
      { s.goto worker .irqLocked with irqLock := some worker } := by
    rw [moved, SharedCq.tryIrq, hfree]
  have hback : Function.update s.phase worker .elsewhere = s.phase := by
    rw [← hphase, Function.update_eq_self]
  rw [irqTurn]
  cases hready : s.cq.interruptReady with
  | true =>
      rw [afterTurn, if_pos hready, if_pos rfl,
        Machine.run_cons_of henabled rfl, htry,
        run_advance .irqLocked (Function.update_self ..) trivial]
      simp only [SharedCq.advance, SharedCq.goto, Function.update_self, hready,
        if_true]
      rw [run_advance .readySeen (Function.update_self ..) trivial]
      simp only [SharedCq.advance, SharedCq.goto, SharedCq.withReady,
        Function.update_self]
      rw [run_advance .readyCleared (Function.update_self ..) trivial]
      simp only [SharedCq.advance, SharedCq.goto, Function.update_self]
      rw [run_advance .irqChecked (Function.update_self ..) trivial]
      simp only [SharedCq.advance, SharedCq.goto, Function.update_self,
        Function.update_idem, hback]
      rw [Machine.run, hfree]
  | false =>
      rw [afterTurn, if_neg (Bool.eq_false_iff.mp hready),
        if_neg Bool.false_ne_true, Machine.run_cons_of henabled rfl, htry,
        run_advance .irqLocked (Function.update_self ..) trivial]
      simp only [SharedCq.advance, SharedCq.goto, Function.update_self, hready,
        Bool.false_eq_true, if_false]
      rw [run_advance .irqChecked (Function.update_self ..) trivial]
      simp only [SharedCq.advance, SharedCq.goto, Function.update_self,
        Function.update_idem, hback]
      rw [Machine.run, ← hfree]

/-- In every reachable state, a completion written since the last interrupt is
announced by the flag, or a worker is about to set the flag or to send; no more
interrupts are sent than completions are written; and when no worker is at the
queue, one turn of the worker that serves it sends an interrupt if there are
completions that have had none. -/
theorem completions_announced (hreach : Reachable
      (sharedMachine memory sharing) s) :
    (s.covered < s.written.length → s.cq.interruptReady = true ∨
      ∃ worker, s.phase worker = .entryWritten ∨
        s.phase worker = .readyCleared) ∧
    s.signals ≤ s.written.length ∧
    ((∀ worker, s.phase worker = .elsewhere) → sharing.irqEnabled = true →
      ∃ s', (sharedMachine memory sharing).run
          (irqTurn s.cq.interruptReady
            (workerOf sharing.nrIoCpu sharing.cqid)) s = some s' ∧
        s'.written = s.written ∧ s'.covered = s.written.length ∧
        (s.covered < s.written.length → s'.signals = s.signals + 1)) := by
  have hserved := (served_inductive memory sharing).reachable hreach
  have hpaid := hserved.paid
  refine ⟨hserved.pending, by omega, fun hidle hirq => ?_⟩
  have hfree : s.irqLock = none := by
    refine Option.eq_none_iff_forall_ne_some.mpr fun worker hlock => ?_
    have hin := (hserved.irq_iff worker).mpr hlock
    rw [hidle worker] at hin
    exact Bool.false_ne_true hin
  refine ⟨afterTurn s, run_irqTurn (hidle _) hfree hirq rfl, ?_⟩
  have hpending : s.covered < s.written.length →
      s.cq.interruptReady = true := fun hbehind =>
    (hserved.pending hbehind).resolve_right fun ⟨worker, howes⟩ => by
      rw [hidle worker] at howes
      exact howes.elim Phase.noConfusion Phase.noConfusion
  have hle := hserved.covered_le
  rw [afterTurn]
  split_ifs with hready
  · exact ⟨rfl, rfl, fun _ => rfl⟩
  · have hcovered : s.covered = s.written.length := by
      by_contra hne
      exact hready (hpending (lt_of_le_of_ne hle hne))
    exact ⟨rfl, hcovered, fun hbehind => by omega⟩

end Turn

/-- Two workers; the first serves submission queue 1 and completion queue 1. -/
def twoWorkers : Sharing :=
  { nrIoCpu := 2, cqid := 1, irqEnabled := true, sqids := [1] }

def firstEntry : ProcEntry := { ProcEntry.zeroed with sqid := 1 }

/-- One completion, written and announced. -/
def announcedOne : SharedCq :=
  (((((SharedCq.start twoEntries.cq).goto 0 (.headRead firstEntry 0)).advance
    0).advance 0).advance 0)

theorem announcedOne_reachable :
    Reachable (sharedMachine blankMemory twoWorkers) announcedOne := by
  have hstart : Reachable (sharedMachine blankMemory twoWorkers)
      (SharedCq.start twoEntries.cq) :=
    .start ⟨twoEntries, ⟨askedForTwo, 0, 0, _, _, rfl, rfl, rfl⟩, rfl⟩
  have hrun : (sharedMachine blankMemory twoWorkers).run
      [.readHead 0 firstEntry, .advance 0, .advance 0, .advance 0]
      (SharedCq.start twoEntries.cq) = some announcedOne := rfl
  exact hstart.run hrun

theorem completions_announced_one :
    announcedOne.covered < announcedOne.written.length ∧
      ∃ s', (sharedMachine blankMemory twoWorkers).run (irqTurn true 0)
          announcedOne = some s' ∧ s'.signals = 1 := by
  obtain ⟨-, -, hturn⟩ := completions_announced announcedOne_reachable
  have hidle : ∀ worker, announcedOne.phase worker = .elsewhere := by
    intro worker
    by_cases hworker : worker = 0
    · subst hworker
      rfl
    · exact (Function.update_of_ne hworker ..).trans <|
        (Function.update_of_ne hworker ..).trans <|
        (Function.update_of_ne hworker ..).trans <|
        Function.update_of_ne hworker ..
  obtain ⟨s', hrun, -, -, hsignals⟩ := hturn hidle rfl
  exact ⟨Nat.one_pos, s', hrun, hsignals Nat.one_pos⟩

/-! ## The head is read without the lock -/

section Sharing

variable {memory : ℕ → Completion} {sharing : Sharing} {s : SharedCq}

/-- One worker posts all completions of the queue. -/
def OneWorker (sharing : Sharing) : Prop :=
  ∀ sqid ∈ sharing.sqids, ∀ sqid' ∈ sharing.sqids,
    workerOf sharing.nrIoCpu sqid = workerOf sharing.nrIoCpu sqid'

/-- The queue is, its flag apart, as in a run of whole completions. -/
def Simulates (run : CqRun) (s : SharedCq) : Prop :=
  run.written = s.written ∧
    run.cq = { s.cq with interruptReady := run.cq.interruptReady }

/-- A worker that has read the head posts for a queue of its own, and the head
has not moved since. -/
def HeadCurrent (sharing : Sharing) (phase : ℕ → Phase) (current : ℕ) : Prop :=
  ∀ worker pe cqHead, phase worker = .headRead pe cqHead ∨
      phase worker = .entryLocked pe cqHead →
    pe.sqid ∈ sharing.sqids ∧ worker = workerOf sharing.nrIoCpu pe.sqid ∧
      cqHead = current

section Current

variable {phase : ℕ → Phase} {current worker : ℕ}

/-- A step to a phase without a head. -/
theorem HeadCurrent.goto (hcurrent : HeadCurrent sharing phase current)
    {next : Phase} (hread : ∀ pe cqHead, next ≠ .headRead pe cqHead)
    (hlocked : ∀ pe cqHead, next ≠ .entryLocked pe cqHead) :
    HeadCurrent sharing (Function.update phase worker next) current := by
  intro other pe cqHead hother
  by_cases hne : other = worker
  · subst hne
    rw [Function.update_self] at hother
    exact hother.elim (fun h => absurd h (hread pe cqHead))
      fun h => absurd h (hlocked pe cqHead)
  · rw [Function.update_of_ne hne] at hother
    exact hcurrent other pe cqHead hother

/-- A step to a phase with the present head, of a worker that may post. -/
theorem HeadCurrent.take (hcurrent : HeadCurrent sharing phase current)
    {pe : ProcEntry} {next : Phase} (hnext : next = .headRead pe current ∨
      next = .entryLocked pe current) (hmem : pe.sqid ∈ sharing.sqids)
    (hworker : worker = workerOf sharing.nrIoCpu pe.sqid) :
    HeadCurrent sharing (Function.update phase worker next) current := by
  intro other pe' cqHead hother
  by_cases hne : other = worker
  · subst hne
    rw [Function.update_self] at hother
    obtain rfl | rfl := hnext
    · obtain hother | hother := hother
      · cases hother
        exact ⟨hmem, hworker, rfl⟩
      · cases hother
    · obtain hother | hother := hother
      · cases hother
      · cases hother
        exact ⟨hmem, hworker, rfl⟩
  · rw [Function.update_of_ne hne] at hother
    exact hcurrent other pe' cqHead hother

/-- When one worker posts everything, nobody else has read a head that its
entry makes stale. -/
theorem HeadCurrent.alone (hcurrent : HeadCurrent sharing phase current)
    (hone : OneWorker sharing) {pe : ProcEntry} {cqHead : ℕ}
    (hphase : phase worker = .entryLocked pe cqHead) (current' : ℕ) :
    HeadCurrent sharing (Function.update phase worker .entryWritten)
      current' := by
  obtain ⟨hmem, hworker, -⟩ := hcurrent worker pe cqHead (.inr hphase)
  intro other pe' cqHead' hother
  by_cases hne : other = worker
  · subst hne
    rw [Function.update_self] at hother
    exact hother.elim Phase.noConfusion Phase.noConfusion
  · rw [Function.update_of_ne hne] at hother
    obtain ⟨hmem', hworker', -⟩ := hcurrent other pe' cqHead' hother
    have heq := hone _ hmem' _ hmem
    exact absurd (hworker'.trans (heq.trans hworker.symm)) hne

end Current

/-- A whole completion, when the head has not moved. -/
theorem Simulates.fill {run : CqRun} (hsim : Simulates run s) {worker : ℕ}
    {pe : ProcEntry} {cqHead : ℕ} (hhead : cqHead = s.cq.cqHead)
    (hphase : s.phase worker = .entryLocked pe cqHead) :
    Simulates (run.filled pe) (s.advance worker) := by
  obtain ⟨hwritten, hcq⟩ := hsim
  subst hhead
  rw [SharedCq.advance, hphase]
  constructor
  · rw [CqRun.filled, hwritten, hcq]
    rfl
  · rw [CqRun.filled, hcq]
    rfl

/-- The queue is as in some run of whole completions, and every head that has
been read is the present one. -/
def Faithful (memory : ℕ → Completion) (sharing : Sharing) (s : SharedCq) :
    Prop :=
  (∃ run, Reachable (cqMachine memory) run ∧ Simulates run s) ∧
    HeadCurrent sharing s.phase s.cq.cqHead

theorem Faithful.advance (hfaithful : Faithful memory sharing s)
    (hone : OneWorker sharing) (worker : ℕ) :
    Faithful memory sharing (s.advance worker) := by
  obtain ⟨⟨run, hreach, hsim⟩, hcurrent⟩ := hfaithful
  cases hphase : s.phase worker with
  | elsewhere =>
      rw [SharedCq.advance, hphase]
      exact ⟨⟨run, hreach, hsim⟩, hcurrent⟩
  | headRead pe cqHead =>
      obtain ⟨hmem, hworker, rfl⟩ := hcurrent worker pe cqHead (.inl hphase)
      rw [SharedCq.advance, hphase]
      exact ⟨⟨run, hreach, hsim⟩, hcurrent.take (.inr rfl) hmem hworker⟩
  | entryLocked pe cqHead =>
      obtain ⟨-, -, hhead⟩ := hcurrent worker pe cqHead (.inr hphase)
      refine ⟨⟨_, CqRun.reachable_filled hreach pe, hsim.fill hhead hphase⟩, ?_⟩
      rw [SharedCq.advance, hphase]
      exact hcurrent.alone hone hphase _
  | entryWritten =>
      rw [SharedCq.advance, hphase]
      exact ⟨⟨run, hreach, hsim⟩, hcurrent.goto (fun _ _ => Phase.noConfusion)
        fun _ _ => Phase.noConfusion⟩
  | irqLocked =>
      rw [SharedCq.advance, hphase]
      dsimp only
      split_ifs
      all_goals
        exact ⟨⟨run, hreach, hsim⟩, hcurrent.goto
          (fun _ _ => Phase.noConfusion) fun _ _ => Phase.noConfusion⟩
  | readySeen =>
      rw [SharedCq.advance, hphase]
      exact ⟨⟨run, hreach, hsim⟩, hcurrent.goto (fun _ _ => Phase.noConfusion)
        fun _ _ => Phase.noConfusion⟩
  | readyCleared =>
      rw [SharedCq.advance, hphase]
      exact ⟨⟨run, hreach, hsim⟩, hcurrent.goto (fun _ _ => Phase.noConfusion)
        fun _ _ => Phase.noConfusion⟩
  | irqChecked =>
      rw [SharedCq.advance, hphase]
      exact ⟨⟨run, hreach, hsim⟩, hcurrent.goto (fun _ _ => Phase.noConfusion)
        fun _ _ => Phase.noConfusion⟩

theorem faithful_inductive (memory : ℕ → Completion)
    (hone : OneWorker sharing) :
    Inductive (sharedMachine memory sharing) (Faithful memory sharing) where
  init := by
    rintro _ ⟨run, hcreated, rfl⟩
    have hwritten : run.written = [] := by
      obtain ⟨_, _, _, _, _, -, -, rfl⟩ := hcreated
      rfl
    exact ⟨⟨run, .start hcreated, hwritten, rfl⟩, fun _ _ _ h =>
      h.elim Phase.noConfusion Phase.noConfusion⟩
  step := by
    intro s move hfaithful hpossible
    refine ⟨_, rfl, ?_⟩
    cases move with
    | readHead worker pe =>
        exact ⟨hfaithful.1,
          hfaithful.2.take (.inl rfl) hpossible.2.1 hpossible.2.2⟩
    | tryIrq worker =>
        rw [moved, SharedCq.tryIrq]
        split
        · exact ⟨hfaithful.1, hfaithful.2.goto
            (fun _ _ => Phase.noConfusion) fun _ _ => Phase.noConfusion⟩
        · exact hfaithful
    | advance worker => exact hfaithful.advance hone worker

theorem reachable_advance
    (hreach : Reachable (sharedMachine memory sharing) s) {worker : ℕ}
    {phase : Phase} (hphase : s.phase worker = phase)
    (hcan : phase.CanAdvance s.entryLock) :
    Reachable (sharedMachine memory sharing) (s.advance worker) := by
  have henabled : (sharedMachine memory sharing).enabled s
      (.advance worker) := by
    change (s.phase worker).CanAdvance s.entryLock
    rw [hphase]
    exact hcan
  exact hreach.next henabled rfl

/-- A worker that has read the head and finds the lock free finishes. -/
theorem reachable_fill (hreach : Reachable (sharedMachine memory sharing) s)
    {worker : ℕ} {pe : ProcEntry} {cqHead : ℕ}
    (hphase : s.phase worker = .headRead pe cqHead)
    (hfree : s.entryLock = none) :
    ∃ s', Reachable (sharedMachine memory sharing) s' ∧
      s'.cq.queueSize = s.cq.queueSize ∧ s'.entryLock = none ∧
      s'.written.map Prod.fst = s.written.map Prod.fst ++ [cqHead] ∧
      ∀ other, other ≠ worker → s'.phase other = s.phase other := by
  have hlocked := reachable_advance hreach hphase hfree
  rw [SharedCq.advance, hphase] at hlocked
  have hwritten := reachable_advance hlocked (Function.update_self ..) trivial
  simp only [SharedCq.advance, SharedCq.goto, Function.update_self] at hwritten
  have hdone := reachable_advance hwritten (Function.update_self ..) trivial
  simp only [SharedCq.advance, SharedCq.goto, SharedCq.withReady,
    Function.update_self] at hdone
  refine ⟨_, hdone, rfl, rfl, ?_, fun other hother => ?_⟩
  · rw [List.map_append]
    rfl
  · dsimp only
    rw [Function.update_of_ne hother, Function.update_of_ne hother,
      Function.update_of_ne hother]

/-- Two workers that have both read the head before either writes its entry
write them to the same place. -/
theorem overlapping_fills {cq : CompletionQueue} {worker worker' : ℕ}
    (pe pe' : ProcEntry) (hne : worker ≠ worker')
    (hstart : Reachable (sharedMachine memory sharing) (.start cq))
    (hmem : pe.sqid ∈ sharing.sqids)
    (hworker : worker = workerOf sharing.nrIoCpu pe.sqid)
    (hmem' : pe'.sqid ∈ sharing.sqids)
    (hworker' : worker' = workerOf sharing.nrIoCpu pe'.sqid) :
    ∃ s, Reachable (sharedMachine memory sharing) s ∧
      s.cq.queueSize = cq.queueSize ∧
      s.written.map Prod.fst = [cq.cqHead, cq.cqHead] := by
  have hfirst : (sharedMachine memory sharing).enabled (SharedCq.start cq)
      (.readHead worker pe) := ⟨rfl, hmem, hworker⟩
  have hsecond : (sharedMachine memory sharing).enabled
      ((SharedCq.start cq).goto worker (.headRead pe cq.cqHead))
      (.readHead worker' pe') :=
    ⟨Function.update_of_ne hne.symm .., hmem', hworker'⟩
  have hread := (hstart.next hfirst rfl).next hsecond rfl
  obtain ⟨s, hreach, hsize, hfree, hwritten, hothers⟩ := reachable_fill hread
    ((Function.update_of_ne hne ..).trans (Function.update_self ..)) rfl
  have hphase' := (hothers worker' hne.symm).trans (Function.update_self ..)
  obtain ⟨s', hreach', hsize', -, hwritten', -⟩ :=
    reachable_fill hreach hphase' hfree
  refine ⟨s', hreach', hsize'.trans hsize, ?_⟩
  rw [hwritten', hwritten]
  rfl

/-- For every number of workers and every set of submission queues bound to a
completion queue: reading `cq_head` before taking `entry_lock` does no harm,
in any interleaving, exactly when one worker serves all of these submission
queues.  Then every state of the queue is one that whole completions, one after
the other, lead to; otherwise two completions can be written to one place. -/
theorem refines_iff_oneWorker (memory : ℕ → Completion) (sharing : Sharing) :
    (∀ s, Reachable (sharedMachine memory sharing) s →
      ∃ run, Reachable (cqMachine memory) run ∧ Simulates run s) ↔
    OneWorker sharing := by
  constructor
  · intro hrefines sqid hmem sqid' hmem'
    by_contra hne
    let cq : CompletionQueue := { twoEntries.cq with entries := memory }
    have hstart : Reachable (sharedMachine memory sharing) (.start cq) :=
      .start ⟨{ twoEntries with cq := cq },
        ⟨askedForTwo, 0, 0, _, _, rfl, rfl, rfl⟩, rfl⟩
    obtain ⟨s, hreach, hsize, hwritten⟩ :=
      overlapping_fills { ProcEntry.zeroed with sqid := sqid }
        { ProcEntry.zeroed with sqid := sqid' } hne hstart hmem rfl hmem' rfl
    obtain ⟨run, hrun, hsame, hcq⟩ := hrefines s hreach
    rw [← hsame] at hwritten
    obtain ⟨first, rest, hcons, -, hrest⟩ := List.map_eq_cons_iff.mp hwritten
    obtain ⟨second, last, rfl, hplace, -⟩ := List.map_eq_cons_iff.mp hrest
    have hsecond : run.written[1]? = some (second.1, second.2) := by
      rw [hcons]
      rfl
    have hplaces :=
      ((completions_in_order hrun).1.2 1 second.1 second.2 hsecond).1
    have hqueue : run.cq.queueSize = 2 := by
      rw [hcq]
      exact hsize
    rw [hqueue, hplace] at hplaces
    exact Nat.zero_ne_one hplaces
  · intro hone s hreach
    exact ((faithful_inductive memory hone).reachable hreach).1

end Sharing

end NvmeVirt.Interrupts
