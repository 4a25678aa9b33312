import NvmeVirt.Core.Ring
import NvmeVirt.Io.Dispatch

/-!
# The doorbells of the submission queues

The host writes commands into the ring of a submission queue and then stores
the place behind the last one in the doorbell.  `nvmev_proc_dbs` compares each
doorbell with the place it has reached, and `nvmev_proc_io_sq` goes on from
there until the translation layer refuses a command.  Whatever the translation
layer refuses, the commands it accepts are the submitted ones, in order.
-/

namespace NvmeVirt.Doorbells

open NvmeVirt.Dispatch
open NvmeVirt.Kernel
open NvmeVirt.Lists
open NvmeVirt.ProcTable
open NvmeVirt.Ring
open NvmeVirt.Timing
open NvmeVirt.Transition

variable {φ κ : Type}

/-- What has happened on one submission queue since it was created: the
commands up to the doorbell, the entries and the commands for which
`proc_io_cmd` has succeeded, and the calls of `proc_io_cmd` in the last
poll. -/
structure QueueHistory (κ : Type) where
  submitted : List (Command κ)
  accepted : List (ℕ × Command κ)
  calls : List (FtlCall κ)

/-- The history after a call of `nvmev_proc_io_sq` that made the calls
`calls`. -/
def QueueHistory.take (history : QueueHistory κ) (calls : List (FtlCall κ)) :
    QueueHistory κ where
  submitted := history.submitted
  accepted := history.accepted ++ (calls.filter FtlCall.accepted).map
    fun call => (call.sqEntry, call.cmd)
  calls := calls

/-- What `nvmev_proc_dbs` reads of `struct nvmev_dev`, with the history of
every queue. -/
structure Vdev (φ κ : Type) where
  nrSq : ℕ
  sqes : ℕ → Option (SubmissionQueue κ)
  dbs : ℕ → ℕ
  oldDbs : ℕ → ℕ
  dev : Device φ κ
  history : ℕ → QueueHistory κ

/-- The device after the poll of a queue. -/
def Vdev.polled (vdev : Vdev φ κ) (qid latestDb : ℕ) (out : Dispatched φ κ)
    (after : QueueHistory κ) : Vdev φ κ :=
  { vdev with
    sqes := Function.update vdev.sqes qid (some out.sq)
    oldDbs := Function.update vdev.oldDbs (qid * 2) latestDb
    dev := out.dev
    history := Function.update vdev.history qid after }

/-- How many commands `nvmev_proc_io_sq` finds between the doorbells. -/
def numProc (newDb oldDb queueSize : ℕ) : ℕ :=
  (if (newDb : ℤ) - oldDb < 0 then (newDb : ℤ) - oldDb + queueSize
    else (newDb : ℤ) - oldDb).toNat

section

variable (procIoCmd : ProcIoCmd φ κ)

/-- The submission queue `qid` in the loop of `nvmev_proc_dbs`. -/
def procSqDb (marks : ℕ → ℕ → List Mark) (vdev : Vdev φ κ) (qid : ℕ) :
    Except Fault (Vdev φ κ) :=
  match vdev.sqes qid with
  | none => .ok vdev
  | some sq =>
      let newDb := vdev.dbs (qid * 2)
      let oldDb := vdev.oldDbs (qid * 2)
      let before := vdev.history qid
      if newDb ≠ oldDb then do
        let (latestDb, out) ←
          nvmevProcIoSq procIoCmd marks vdev.dev sq qid newDb oldDb
        let calls := out.dev.calls.drop vdev.dev.calls.length
        .ok (vdev.polled qid latestDb out (before.take calls))
      else
        .ok { vdev with
          history := Function.update vdev.history qid (before.take []) }

/-- `nvmev_proc_dbs`, the submission queues. -/
def nvmevProcDbs (marks : ℕ → ℕ → ℕ → List Mark) (vdev : Vdev φ κ) :
    Except Fault (Vdev φ κ) :=
  (List.range vdev.nrSq).foldlM
    (fun vdev k => procSqDb procIoCmd (marks (k + 1)) vdev (k + 1)) vdev

end

/-! ## Runs -/

/-- `__nvmev_admin_create_sq`, for a queue in host memory `entries`. -/
def createSq (vdev : Vdev φ κ) (qid cqid qsize : ℕ)
    (entries : ℕ → Command κ) : Vdev φ κ :=
  let sq : SubmissionQueue κ :=
    { cqid := cqid, queueSize := qsize + 1, entries := entries
      stat := { nrDispatched := 0, nrDispatch := 0, nrInFlight := 0
                maxNrInFlight := 0, totalIo := 0 } }
  { vdev with
    sqes := Function.update vdev.sqes qid (some sq)
    dbs := Function.update vdev.dbs (qid * 2) 0
    oldDbs := Function.update vdev.oldDbs (qid * 2) 0
    history := Function.update vdev.history qid
      { submitted := [], accepted := [], calls := [] } }

/-- The host writes commands into the ring and rings the doorbell. -/
def submit (vdev : Vdev φ κ) (qid : ℕ) (sq : SubmissionQueue κ)
    (cmds : List (Command κ)) : Vdev φ κ :=
  let before := vdev.history qid
  let written := before.submitted.length
  let sq : SubmissionQueue κ :=
    { sq with entries := writeRing sq.queueSize sq.entries written cmds }
  { vdev with
    sqes := Function.update vdev.sqes qid (some sq)
    dbs := Function.update vdev.dbs (qid * 2)
      ((written + cmds.length) % sq.queueSize)
    history := Function.update vdev.history qid
      { before with submitted := before.submitted ++ cmds } }

inductive DbAction (κ : Type)
  | createSq (qid cqid qsize : ℕ) (entries : ℕ → Command κ)
  | deleteSq (qid : ℕ)
  | submit (qid : ℕ) (cmds : List (Command κ))
  /-- Completions and the completion queue doorbells change the statistics. -/
  | completions (stats : ℕ → SqStat)
  | poll (qid : ℕ) (marks : ℕ → ℕ → List Mark)

def withStat (stats : ℕ → SqStat) (sqes : ℕ → Option (SubmissionQueue κ))
    (qid : ℕ) : Option (SubmissionQueue κ) :=
  (sqes qid).map fun sq => { sq with stat := stats qid }

def dbStep (procIoCmd : ProcIoCmd φ κ) (vdev : Vdev φ κ) :
    DbAction κ → Except Fault (Vdev φ κ)
  | .createSq qid cqid qsize entries =>
      .ok (createSq vdev qid cqid qsize entries)
  | .deleteSq qid =>
      .ok { vdev with sqes := Function.update vdev.sqes qid none }
  | .submit qid cmds =>
      match vdev.sqes qid with
      | none => .ok vdev
      | some sq => .ok (submit vdev qid sq cmds)
  | .completions stats =>
      .ok { vdev with sqes := withStat stats vdev.sqes }
  | .poll qid marks => procSqDb procIoCmd marks vdev qid

/-- Fewer than `queue_size` of the submitted commands, `count` new ones
included, have not been accepted. -/
def HostHasRoom (vdev : Vdev φ κ) (qid count : ℕ) : Prop :=
  ∀ sq, vdev.sqes qid = some sq →
    (vdev.history qid).submitted.length + count <
      (vdev.history qid).accepted.length + sq.queueSize

instance (vdev : Vdev φ κ) (qid count : ℕ) :
    Decidable (HostHasRoom vdev qid count) :=
  match h : vdev.sqes qid with
  | none => isTrue fun _ hsq => by simp [h] at hsq
  | some sq => decidable_of_iff
      ((vdev.history qid).submitted.length + count <
        (vdev.history qid).accepted.length + sq.queueSize)
      (by simp [HostHasRoom, h])

/-- The device starts without queues.  Hosts and polls take turns in any
order; `nvmev_proc_dbs` looks at the queues up to `nr_sq`. -/
def dbMachine (procIoCmd : ProcIoCmd φ κ) :
    Machine (Vdev φ κ) (DbAction κ) Fault where
  init vdev := (∀ qid, vdev.sqes qid = none) ∧
    ∀ turn, vdev.dev.workers.procInfo turn = nvmevIoProcInit
  enabled vdev action :=
    match action with
    | .submit qid cmds => HostHasRoom vdev qid cmds.length
    | .poll qid _ => 1 ≤ qid ∧ qid ≤ vdev.nrSq
    | _ => True
  step := dbStep procIoCmd

instance (procIoCmd : ProcIoCmd φ κ) (vdev : Vdev φ κ) (action : DbAction κ) :
    Decidable ((dbMachine procIoCmd).enabled vdev action) :=
  match action with
  | .submit qid cmds =>
      inferInstanceAs (Decidable (HostHasRoom vdev qid cmds.length))
  | .poll qid _ => inferInstanceAs (Decidable (1 ≤ qid ∧ qid ≤ vdev.nrSq))
  | .createSq .. | .deleteSq _ | .completions _ => isTrue trivial

/-! ## The loop -/

section

variable {procIoCmd : ProcIoCmd φ κ} {dev dev' : Device φ κ}
  {sq : SubmissionQueue κ} {sqid sqEntry : ℕ}

theorem onWorker_nr {workers workers' : Workers}
    {operation : ProcInfo → Except Fault ProcInfo}
    (hrun : onWorker workers sqid operation = .ok workers') :
    workers'.nrIoCpu = workers.nrIoCpu := by
  obtain ⟨turn, _, hrun⟩ := bind_eq_ok hrun
  obtain ⟨pi, _, hrun⟩ := bind_eq_ok hrun
  cases hrun
  rfl

theorem reclaimAll_nr {workers workers' : Workers}
    (hrun : reclaimAll workers = .ok workers') :
    workers'.nrIoCpu = workers.nrIoCpu := by
  refine foldlM_keeps Workers.nrIoCpu (fun state turn state' hstep => ?_) hrun
  obtain ⟨pi, _, hstep⟩ := bind_eq_ok hstep
  cases hstep
  rfl

/-- A call of `__nvmev_proc_io` calls the translation layer once, and takes the
command when it is accepted. -/
theorem nvmevProcIo_ok {outcome : Option (ℕ × Consumed)}
    (hrun : nvmevProcIo procIoCmd dev sq sqid sqEntry = .ok (outcome, dev')) :
    dev'.workers.nrIoCpu = dev.workers.nrIoCpu ∧
      dev'.calls = dev.calls ++ [{ sqid := sqid, sqEntry := sqEntry
                                   cmd := sq.entries sqEntry
                                   accepted := outcome.isSome }] := by
  rw [nvmevProcIo] at hrun
  dsimp only [callFtl] at hrun
  generalize procIoCmd dev.ftl _ sqid _ _ = reply at hrun
  obtain ⟨workers, hwritebacks, hrun⟩ := bind_eq_ok hrun
  have hnr : workers.nrIoCpu = dev.workers.nrIoCpu :=
    foldlM_keeps Workers.nrIoCpu (fun _ _ _ => onWorker_nr) hwritebacks
  split_ifs at hrun with haccepted
  · obtain ⟨after, hafter, hrun⟩ := bind_eq_ok hrun
    obtain ⟨final, hfinal, hrun⟩ := bind_eq_ok hrun
    cases hrun
    refine ⟨(reclaimAll_nr hfinal).trans ((onWorker_nr hafter).trans hnr), ?_⟩
    rw [haccepted]
    rfl
  · cases hrun
    refine ⟨hnr, ?_⟩
    rw [Bool.eq_false_iff.mpr haccepted]
    rfl

/-- What `nvmev_proc_io_sq` takes with `count` commands to go, by the calls
`calls`: an initial part of them, all when there is no refusal. -/
structure LoopOk (calls : List (FtlCall κ)) (count : ℕ) (dev : Device φ κ)
    (sq : SubmissionQueue κ) (sqEntry : ℕ) (out : Dispatched φ κ) : Prop where
  nr_eq : out.dev.workers.nrIoCpu = dev.workers.nrIoCpu
  calls_eq : out.dev.calls = dev.calls ++ calls
  queueSize_eq : out.sq.queueSize = sq.queueSize
  entries_eq : out.sq.entries = sq.entries
  accepted_eq : ((calls.filter FtlCall.accepted).map
    fun call => (call.sqEntry, call.cmd)) =
      (List.iterate (nextEntry sq.queueSize) sqEntry
        out.consumed.length).map fun place => (place, sq.entries place)
  length_le : out.consumed.length ≤ count
  all_taken : (∀ call ∈ calls, call.accepted = true) →
    out.consumed.length = count

theorem procLoop_ok {marks : ℕ → ℕ → List Mark} {count : ℕ}
    {out : Dispatched φ κ}
    (hrun : procLoop procIoCmd marks sqid count dev sq sqEntry = .ok out) :
    ∃ calls, LoopOk calls count dev sq sqEntry out := by
  induction count generalizing dev sq sqEntry out with
  | zero =>
      cases hrun
      exact ⟨[],
        { nr_eq := rfl
          calls_eq := (List.append_nil _).symm
          queueSize_eq := rfl
          entries_eq := rfl
          accepted_eq := rfl
          length_le := le_refl 0
          all_taken := fun _ => rfl }⟩
  | succ count ih =>
      obtain ⟨⟨outcome, dev'⟩, hcall, hrun⟩ := bind_eq_ok hrun
      obtain ⟨hnr, hcalls⟩ := nvmevProcIo_ok hcall
      cases outcome with
      | none =>
          cases hrun
          exact ⟨_,
            { nr_eq := hnr
              calls_eq := hcalls
              queueSize_eq := rfl
              entries_eq := rfl
              accepted_eq := rfl
              length_le := Nat.zero_le _
              all_taken := fun hall =>
                nomatch hall _ (List.mem_singleton.mpr rfl) }⟩
      | some taken =>
          obtain ⟨ioSize, consumed⟩ := taken
          obtain ⟨rest, hrest, hrun⟩ := bind_eq_ok hrun
          cases hrun
          obtain ⟨calls, hok⟩ := ih hrest
          refine ⟨{ sqid := sqid, sqEntry := sqEntry
                    cmd := sq.entries sqEntry, accepted := true } :: calls, ?_⟩
          exact
            { nr_eq := hok.nr_eq.trans hnr
              calls_eq := by
                rw [hok.calls_eq, hcalls, List.append_assoc]
                rfl
              queueSize_eq := hok.queueSize_eq
              entries_eq := hok.entries_eq
              accepted_eq := by
                rw [List.filter_cons_of_pos rfl, List.map_cons,
                  hok.accepted_eq]
                rfl
              length_le := Nat.succ_le_succ hok.length_le
              all_taken := fun hall => congrArg Nat.succ
                (hok.all_taken fun call hmem =>
                  hall call (List.mem_cons_of_mem _ hmem)) }

theorem nvmevProcIoSq_ok {marks : ℕ → ℕ → List Mark} {newDb oldDb : ℕ}
    {latestDb : ℕ} {out : Dispatched φ κ}
    (hrun : nvmevProcIoSq procIoCmd marks dev sq sqid newDb oldDb =
      .ok (latestDb, out)) :
    latestDb = (oldDb + out.consumed.length) % out.sq.queueSize ∧
      ∃ calls, LoopOk calls (numProc newDb oldDb sq.queueSize) dev sq oldDb
        out := by
  rw [nvmevProcIoSq] at hrun
  obtain ⟨after, hloop, hrun⟩ := bind_eq_ok hrun
  obtain ⟨calls, hok⟩ := procLoop_ok hloop
  dsimp only at hrun
  split_ifs at hrun with hzero
  cases hrun
  exact ⟨rfl, calls, { hok with }⟩

/-- With well-linked tables the loop ends. -/
theorem procLoop_linked (marks : ℕ → ℕ → List Mark) (count : ℕ)
    (hlinked : WorkersLinked dev.workers) (hnr : dev.workers.nrIoCpu ≠ 0) :
    ∃ out, procLoop procIoCmd marks sqid count dev sq sqEntry = .ok out ∧
      WorkersLinked out.dev.workers := by
  induction count generalizing dev sq sqEntry with
  | zero => exact ⟨_, rfl, hlinked⟩
  | succ count ih =>
      have hmeanwhile : WorkersLinked ({ dev with
          workers := meanwhile dev.workers (marks count) } :
            Device φ κ).workers := meanwhile_linked hlinked _
      obtain ⟨outcome, dev', hrun, hlinked', hnr', -⟩ :=
        nvmevProcIo_spec hmeanwhile hnr procIoCmd sq sqid sqEntry
      rw [procLoop]
      dsimp only
      rw [hrun, ok_bind]
      cases outcome with
      | none => exact ⟨_, rfl, hlinked'⟩
      | some taken =>
          obtain ⟨ioSize, consumed⟩ := taken
          have hnrEq : dev'.workers.nrIoCpu = dev.workers.nrIoCpu := hnr'
          obtain ⟨out, hout, hfinal⟩ := ih hlinked' (hnrEq ▸ hnr)
          dsimp only
          rw [hout, ok_bind]
          exact ⟨_, rfl, hfinal⟩

end

/-! ## One queue -/

theorem nextEntry_mod {size : ℕ} (hsize : 0 < size) (number : ℕ) :
    nextEntry size (number % size) = (number + 1) % size :=
  (next_place hsize number).symm

theorem iterate_nextEntry {size : ℕ} (hsize : 0 < size) (number count : ℕ) :
    List.iterate (nextEntry size) (number % size) count =
      (List.range count).map fun step => (number + step) % size := by
  induction count generalizing number with
  | zero => rfl
  | succ count ih =>
      rw [List.iterate, nextEntry_mod hsize, ih, List.range_succ_eq_map,
        List.map_cons, List.map_map]
      congr 1
      apply List.map_congr_left
      intro step _
      rw [Function.comp_apply, Nat.succ_eq_add_one, Nat.add_assoc,
        Nat.add_comm 1 step]

/-- The doorbells say how much has been submitted and accepted, and what has
been submitted and not accepted is in the ring. -/
structure Served (newDb oldDb : ℕ) (history : QueueHistory κ)
    (sq : SubmissionQueue κ) : Prop where
  newDb_eq : newDb = history.submitted.length % sq.queueSize
  oldDb_eq : oldDb = history.accepted.length % sq.queueSize
  accepted_eq : history.accepted =
    (places sq.queueSize history.submitted).take history.accepted.length
  length_le : history.accepted.length ≤ history.submitted.length
  room : history.submitted.length <
    history.accepted.length + sq.queueSize
  holds : HoldsFrom sq.queueSize sq.entries history.submitted
    history.accepted.length

/-- Nothing is left to do after a poll without a refusal. -/
def Drained (history : QueueHistory κ) (queueSize : ℕ) : Prop :=
  (∀ call ∈ history.calls, call.accepted = true) →
    history.accepted = places queueSize history.submitted

section

variable {newDb oldDb : ℕ} {history : QueueHistory κ}
  {dev : Device φ κ} {sq : SubmissionQueue κ}

theorem Served.queueSize_pos (hserved : Served newDb oldDb history sq) :
    0 < sq.queueSize := by
  have hle := hserved.length_le
  have hroom := hserved.room
  omega

theorem Served.numProc_eq (hserved : Served newDb oldDb history sq) :
    numProc newDb oldDb sq.queueSize =
      history.submitted.length - history.accepted.length := by
  rw [numProc, hserved.newDb_eq, hserved.oldDb_eq]
  exact distance_eq hserved.length_le hserved.room

theorem drained_of_length (hserved : Served newDb oldDb history sq)
    (hlength : history.accepted.length = history.submitted.length) :
    history.accepted = places sq.queueSize history.submitted := by
  have haccepted := hserved.accepted_eq
  rw [hlength, ← length_places, List.take_length] at haccepted
  exact haccepted

/-- Equal doorbells mean that everything has been accepted. -/
theorem Served.length_eq (hserved : Served newDb oldDb history sq)
    (hdb : newDb = oldDb) :
    history.accepted.length = history.submitted.length := by
  by_contra hne
  rw [hserved.newDb_eq, hserved.oldDb_eq] at hdb
  exact mod_ne_of_lt (lt_of_le_of_ne hserved.length_le hne) hserved.room
    hdb.symm

theorem Served.take (hserved : Served newDb oldDb history sq)
    {calls : List (FtlCall κ)} {out : Dispatched φ κ}
    (hok : LoopOk calls (numProc newDb oldDb sq.queueSize) dev sq oldDb
      out) :
    Served newDb ((oldDb + out.consumed.length) % out.sq.queueSize)
        (history.take calls) out.sq ∧
      Drained (history.take calls) out.sq.queueSize := by
  have hle := hok.length_le
  have hserve := hserved.length_le
  rw [hserved.numProc_eq] at hle
  have hcalls := hok.accepted_eq
  rw [hserved.oldDb_eq, iterate_nextEntry hserved.queueSize_pos] at hcalls
  have hlength : (history.take calls).accepted.length =
      history.accepted.length + out.consumed.length := by
    have hcount := congrArg List.length hcalls
    rw [List.length_map, List.length_map, List.length_map,
      List.length_range] at hcount
    rw [QueueHistory.take, List.length_append, List.length_map, hcount]
  have haccepted : (history.take calls).accepted =
      (places sq.queueSize history.submitted).take
        (history.accepted.length + out.consumed.length) := by
    rw [List.map_map] at hcalls
    rw [← hserved.holds.read (by omega), ← hserved.accepted_eq]
    rw [QueueHistory.take, hcalls]
    rfl
  have hserved' : Served newDb ((oldDb + out.consumed.length) %
      out.sq.queueSize) (history.take calls) out.sq :=
    { newDb_eq := by
        rw [hok.queueSize_eq]
        exact hserved.newDb_eq
      oldDb_eq := by
        rw [hlength, hok.queueSize_eq, hserved.oldDb_eq, Nat.mod_add_mod]
      accepted_eq := by
        rw [hlength, hok.queueSize_eq]
        exact haccepted
      length_le := by
        rw [hlength]
        exact (show _ + _ ≤ history.submitted.length by omega)
      room := by
        rw [hlength, hok.queueSize_eq]
        have hroom := hserved.room
        exact (show history.submitted.length < _ by omega)
      holds := by
        rw [hlength, hok.queueSize_eq, hok.entries_eq]
        exact hserved.holds.later (Nat.le_add_right _ _) }
  refine ⟨hserved', fun hnone => ?_⟩
  have hall := hok.all_taken hnone
  rw [hserved.numProc_eq] at hall
  apply drained_of_length hserved'
  rw [hlength, hall]
  exact Nat.add_sub_cancel' hserve

/-- The host writes over accepted entries only. -/
theorem Served.submit (hserved : Served newDb oldDb history sq)
    {cmds : List (Command κ)}
    (hroom : history.submitted.length + cmds.length <
      history.accepted.length + sq.queueSize) :
    Served ((history.submitted.length + cmds.length) % sq.queueSize) oldDb
      { history with submitted := history.submitted ++ cmds }
      { sq with entries := writeRing sq.queueSize sq.entries
                  history.submitted.length cmds } where
  newDb_eq := by rw [List.length_append]
  oldDb_eq := hserved.oldDb_eq
  accepted_eq := by
    have hinitial : history.accepted <+: places sq.queueSize history.submitted :=
      List.prefix_iff_eq_take.mpr hserved.accepted_eq
    exact List.prefix_iff_eq_take.mp (hinitial.trans (places_append _ _))
  length_le := by
    rw [List.length_append]
    exact hserved.length_le.trans (Nat.le_add_right _ _)
  room := by
    rw [List.length_append]
    exact hroom
  holds := hserved.holds.write hroom

end

/-! ## All queues -/

/-- Every queue is served. -/
def AllServed (vdev : Vdev φ κ) : Prop :=
  ∀ qid sq, vdev.sqes qid = some sq →
    Served (vdev.dbs (qid * 2)) (vdev.oldDbs (qid * 2)) (vdev.history qid) sq

/-- The poll of one queue leaves the others alone. -/
structure Polled (qid : ℕ) (vdev vdev' : Vdev φ κ) : Prop where
  nrSq_eq : vdev'.nrSq = vdev.nrSq
  nr_eq : vdev'.dev.workers.nrIoCpu = vdev.dev.workers.nrIoCpu
  queueSize_eq : ∀ other, (vdev'.sqes other).map SubmissionQueue.queueSize =
    (vdev.sqes other).map SubmissionQueue.queueSize
  submitted_eq : ∀ other,
    (vdev'.history other).submitted = (vdev.history other).submitted
  history_eq : ∀ other, other ≠ qid → vdev'.history other = vdev.history other

section

variable {procIoCmd : ProcIoCmd φ κ} {vdev vdev' : Vdev φ κ} {qid : ℕ}

theorem AllServed.update (hserved : AllServed vdev) (qid : ℕ)
    (hnew : ∀ sq, vdev'.sqes qid = some sq →
      Served (vdev'.dbs (qid * 2)) (vdev'.oldDbs (qid * 2))
        (vdev'.history qid) sq)
    (hother : ∀ other, other ≠ qid → vdev'.sqes other = vdev.sqes other ∧
      vdev'.dbs (other * 2) = vdev.dbs (other * 2) ∧
      vdev'.oldDbs (other * 2) = vdev.oldDbs (other * 2) ∧
      vdev'.history other = vdev.history other) : AllServed vdev' := by
  intro other sq hsq
  by_cases hself : other = qid
  · subst hself
    exact hnew sq hsq
  · obtain ⟨hsqes, hdbs, holdDbs, hhistory⟩ := hother other hself
    rw [hdbs, holdDbs, hhistory]
    exact hserved other sq (hsqes ▸ hsq)

theorem double_ne {other : ℕ} (hother : other ≠ qid) :
    other * 2 ≠ qid * 2 := by omega

theorem polled_ok (hserved : AllServed vdev) {sq : SubmissionQueue κ}
    (hsq : vdev.sqes qid = some sq) {latestDb : ℕ} {out : Dispatched φ κ}
    {after : QueueHistory κ}
    (hqueue : Served (vdev.dbs (qid * 2)) latestDb after out.sq)
    (hnr : out.dev.workers.nrIoCpu = vdev.dev.workers.nrIoCpu)
    (hsize : out.sq.queueSize = sq.queueSize)
    (hsubmitted : after.submitted = (vdev.history qid).submitted) :
    AllServed (vdev.polled qid latestDb out after) ∧
      Polled qid vdev (vdev.polled qid latestDb out after) := by
  rw [Vdev.polled]
  constructor
  · refine hserved.update qid (fun sq' heq => ?_) fun other hother =>
      ⟨Function.update_of_ne hother .., rfl,
        Function.update_of_ne (double_ne hother) ..,
        Function.update_of_ne hother ..⟩
    dsimp only at heq ⊢
    rw [Function.update_self] at heq
    cases heq
    rw [Function.update_self, Function.update_self]
    exact hqueue
  · refine ⟨rfl, hnr, fun other => ?_, fun other => ?_, fun other hother =>
      Function.update_of_ne hother ..⟩
    all_goals
      dsimp only
      by_cases hother : other = qid
    · rw [hother, Function.update_self, hsq]
      exact congrArg some hsize
    · rw [Function.update_of_ne hother]
    · rw [hother, Function.update_self]
      exact hsubmitted
    · rw [Function.update_of_ne hother]

theorem procSqDb_ok {marks : ℕ → ℕ → List Mark} (hserved : AllServed vdev)
    (hrun : procSqDb procIoCmd marks vdev qid = .ok vdev') :
    AllServed vdev' ∧ Polled qid vdev vdev' ∧
      ∀ sq, vdev'.sqes qid = some sq →
        Drained (vdev'.history qid) sq.queueSize := by
  rw [procSqDb] at hrun
  cases hsq : vdev.sqes qid with
  | none =>
      rw [hsq] at hrun
      cases hrun
      refine ⟨hserved, ⟨rfl, rfl, fun _ => rfl, fun _ => rfl, fun _ _ => rfl⟩,
        fun sq heq => ?_⟩
      rw [hsq] at heq
      cases heq
  | some sq =>
      have hqueue := hserved qid sq hsq
      rw [hsq] at hrun
      dsimp only at hrun
      suffices hpolled : ∃ latestDb out after,
          vdev' = vdev.polled qid latestDb out after ∧
          Served (vdev.dbs (qid * 2)) latestDb after out.sq ∧
          Drained after out.sq.queueSize ∧
          out.dev.workers.nrIoCpu = vdev.dev.workers.nrIoCpu ∧
          out.sq.queueSize = sq.queueSize ∧
          after.submitted = (vdev.history qid).submitted by
        obtain ⟨latestDb, out, after, rfl, hafter, hdrained, hnr, hsize,
          hsubmitted⟩ := hpolled
        obtain ⟨hserved', hpolled⟩ :=
          polled_ok hserved hsq hafter hnr hsize hsubmitted
        refine ⟨hserved', hpolled, fun sq' heq => ?_⟩
        dsimp only [Vdev.polled] at heq ⊢
        rw [Function.update_self] at heq
        cases heq
        rw [Function.update_self]
        exact hdrained
      split_ifs at hrun with hdb
      · obtain ⟨⟨latestDb, out⟩, hcall, hrun⟩ := bind_eq_ok hrun
        cases hrun
        obtain ⟨rfl, calls, hok⟩ := nvmevProcIoSq_ok hcall
        rw [hok.calls_eq, List.drop_left]
        obtain ⟨hafter, hdrained⟩ := hqueue.take hok
        exact ⟨_, out, _, rfl, hafter, hdrained, hok.nr_eq, hok.queueSize_eq,
          rfl⟩
      · -- equal doorbells: nothing to take
        cases hrun
        have hdb' := not_not.mp hdb
        have hlength := hqueue.length_eq hdb'
        have htake : (vdev.history qid).take [] =
            { vdev.history qid with calls := [] } := by
          rw [QueueHistory.take, List.filter_nil, List.map_nil,
            List.append_nil]
        have hafter : Served (vdev.dbs (qid * 2)) (vdev.oldDbs (qid * 2))
            ((vdev.history qid).take []) sq := by
          obtain ⟨hnew, hold, haccepted, hle, hroom, hholds⟩ := hqueue
          rw [htake]
          exact ⟨hnew, hold, haccepted, hle, hroom, hholds⟩
        refine ⟨vdev.oldDbs (qid * 2),
          { dev := vdev.dev, sq := sq, consumed := [] },
          (vdev.history qid).take [], ?_, hafter, ?_, rfl, rfl, rfl⟩
        · rw [Vdev.polled, ← hsq, Function.update_eq_self qid,
            Function.update_eq_self (qid * 2)]
        · rw [htake] at hafter ⊢
          exact fun _ => drained_of_length hafter hlength

theorem procSqDb_linked (procIoCmd : ProcIoCmd φ κ)
    (marks : ℕ → ℕ → List Mark) (qid : ℕ) (hserved : AllServed vdev)
    (hlinked : WorkersLinked vdev.dev.workers)
    (hnr : vdev.dev.workers.nrIoCpu ≠ 0) :
    ∃ vdev', procSqDb procIoCmd marks vdev qid = .ok vdev' ∧
      WorkersLinked vdev'.dev.workers := by
  rw [procSqDb]
  cases hsq : vdev.sqes qid with
  | none => exact ⟨vdev, rfl, hlinked⟩
  | some sq =>
      have hpositive := (hserved qid sq hsq).queueSize_pos
      dsimp only
      split_ifs with hdb
      · have hends : ∃ out, procLoop procIoCmd marks qid
            (numProc (vdev.dbs (qid * 2)) (vdev.oldDbs (qid * 2)) sq.queueSize)
            vdev.dev sq (vdev.oldDbs (qid * 2)) = .ok out ∧
            WorkersLinked out.dev.workers :=
          procLoop_linked marks _ hlinked hnr
        obtain ⟨out, hloop, hlinked'⟩ := hends
        obtain ⟨calls, hok⟩ := procLoop_ok hloop
        have hsize := hok.queueSize_eq
        rw [numProc] at hloop
        rw [nvmevProcIoSq]
        dsimp only
        rw [hloop, ok_bind, if_neg (hsize ▸ hpositive.ne'), ok_bind]
        exact ⟨_, rfl, hlinked'⟩
      · exact ⟨_, rfl, hlinked⟩

theorem AllServed.createSq (hserved : AllServed vdev) (cqid qsize : ℕ)
    (entries : ℕ → Command κ) :
    AllServed (createSq vdev qid cqid qsize entries) := by
  refine hserved.update qid (fun sq heq => ?_) fun other hother =>
    ⟨Function.update_of_ne hother .., Function.update_of_ne
      (double_ne hother) .., Function.update_of_ne (double_ne hother) ..,
      Function.update_of_ne hother ..⟩
  dsimp only [Doorbells.createSq] at heq ⊢
  rw [Function.update_self] at heq
  cases heq
  rw [Function.update_self, Function.update_self, Function.update_self]
  exact
    { newDb_eq := (Nat.zero_mod _).symm
      oldDb_eq := (Nat.zero_mod _).symm
      accepted_eq := rfl
      length_le := le_refl 0
      room := Nat.succ_pos _
      holds := holdsFrom_nil _ _ _ }

theorem AllServed.submit (hserved : AllServed vdev)
    {sq : SubmissionQueue κ} (hsq : vdev.sqes qid = some sq)
    {cmds : List (Command κ)} (hroom : HostHasRoom vdev qid cmds.length) :
    AllServed (submit vdev qid sq cmds) := by
  have hqueue := (hserved qid sq hsq).submit (hroom sq hsq)
  refine hserved.update qid (fun sq' heq => ?_) fun other hother =>
    ⟨Function.update_of_ne hother .., Function.update_of_ne
      (double_ne hother) .., rfl, Function.update_of_ne hother ..⟩
  dsimp only [Doorbells.submit] at heq ⊢
  rw [Function.update_self] at heq
  cases heq
  rw [Function.update_self, Function.update_self]
  exact hqueue

/-- What holds in every reachable state: the queues are served, and with a
worker the tables are well linked. -/
structure DbInv (vdev : Vdev φ κ) : Prop where
  served : AllServed vdev
  linked : vdev.dev.workers.nrIoCpu ≠ 0 → WorkersLinked vdev.dev.workers

theorem dbInv_step {action : DbAction κ} (hinv : DbInv vdev)
    (henabled : (dbMachine procIoCmd).enabled vdev action)
    (hrun : (dbMachine procIoCmd).step vdev action = .ok vdev') :
    DbInv vdev' := by
  cases action with
  | createSq qid cqid qsize entries =>
      cases hrun
      exact ⟨hinv.served.createSq cqid qsize entries, hinv.linked⟩
  | deleteSq qid =>
      cases hrun
      refine ⟨hinv.served.update qid (fun sq heq => ?_)
        fun other hother =>
          ⟨Function.update_of_ne hother .., rfl, rfl, rfl⟩, hinv.linked⟩
      dsimp only at heq
      rw [Function.update_self] at heq
      cases heq
  | submit qid cmds =>
      cases hsq : vdev.sqes qid with
      | none =>
          have hstay : (dbMachine procIoCmd).step vdev (.submit qid cmds) =
              .ok vdev := by
            change dbStep procIoCmd vdev (.submit qid cmds) = _
            rw [dbStep, hsq]
          rw [hstay] at hrun
          cases hrun
          exact hinv
      | some sq =>
          have hsubmit : (dbMachine procIoCmd).step vdev (.submit qid cmds) =
              .ok (submit vdev qid sq cmds) := by
            change dbStep procIoCmd vdev (.submit qid cmds) = _
            rw [dbStep, hsq]
          rw [hsubmit] at hrun
          cases hrun
          exact ⟨hinv.served.submit hsq henabled, hinv.linked⟩
  | completions stats =>
      cases hrun
      refine ⟨fun qid sq heq => ?_, hinv.linked⟩
      obtain ⟨before, hbefore, rfl⟩ := Option.map_eq_some_iff.mp heq
      obtain ⟨hnew, hold, haccepted, hle, hroom, hholds⟩ :=
        hinv.served qid before hbefore
      exact ⟨hnew, hold, haccepted, hle, hroom, hholds⟩
  | poll qid marks =>
      obtain ⟨hserved, hpolled, -⟩ := procSqDb_ok hinv.served hrun
      refine ⟨hserved, fun hnr => ?_⟩
      rw [hpolled.nr_eq] at hnr
      obtain ⟨after, hafter, hlinked⟩ := procSqDb_linked procIoCmd marks qid
        hinv.served (hinv.linked hnr) hnr
      have heq : procSqDb procIoCmd marks vdev qid = .ok vdev' := hrun
      rw [heq] at hafter
      cases hafter
      exact hlinked

theorem dbInv_of_reachable (hreach : Reachable (dbMachine procIoCmd) vdev) :
    DbInv vdev := by
  refine hreach.invariant DbInv (fun start hinit => ?_)
    fun _ _ _ => dbInv_step
  refine ⟨fun qid sq heq => ?_, fun _ turn => ?_⟩
  · rw [hinit.1 qid] at heq
    cases heq
  · rw [hinit.2 turn]
    exact ⟨_, _, nvmevIoProcInit_wellLinked⟩

/-- What `nvmev_proc_dbs` has done after its first `count` queues. -/
structure DbsPolled (procIoCmd : ProcIoCmd φ κ) (vdev : Vdev φ κ) (count : ℕ)
    (state : Vdev φ κ) : Prop where
  reachable : Reachable (dbMachine procIoCmd) state
  nrSq_eq : state.nrSq = vdev.nrSq
  nr_eq : state.dev.workers.nrIoCpu = vdev.dev.workers.nrIoCpu
  queueSize_eq : ∀ qid, (state.sqes qid).map SubmissionQueue.queueSize =
    (vdev.sqes qid).map SubmissionQueue.queueSize
  submitted_eq : ∀ qid,
    (state.history qid).submitted = (vdev.history qid).submitted
  drained : ∀ qid sq, 1 ≤ qid → qid ≤ count → state.sqes qid = some sq →
    Drained (state.history qid) sq.queueSize

theorem DbsPolled.next {count : ℕ} {state state' : Vdev φ κ}
    {marks : ℕ → ℕ → List Mark} (hpolled : DbsPolled procIoCmd vdev count state)
    (hcount : count < vdev.nrSq)
    (hrun : procSqDb procIoCmd marks state (count + 1) = .ok state') :
    DbsPolled procIoCmd vdev (count + 1) state' := by
  have hinv := dbInv_of_reachable hpolled.reachable
  obtain ⟨hserved, hqueue, hdrained⟩ := procSqDb_ok hinv.served hrun
  have henabled : (dbMachine procIoCmd).enabled state
      (.poll (count + 1) marks) :=
    ⟨Nat.le_add_left 1 count, hpolled.nrSq_eq.symm ▸ hcount⟩
  exact
    { reachable := hpolled.reachable.next henabled hrun
      nrSq_eq := hqueue.nrSq_eq.trans hpolled.nrSq_eq
      nr_eq := hqueue.nr_eq.trans hpolled.nr_eq
      queueSize_eq := fun qid =>
        (hqueue.queueSize_eq qid).trans (hpolled.queueSize_eq qid)
      submitted_eq := fun qid =>
        (hqueue.submitted_eq qid).trans (hpolled.submitted_eq qid)
      drained := by
        intro qid sq hfirst hlast hsq
        by_cases hself : qid = count + 1
        · subst hself
          exact hdrained sq hsq
        · -- an earlier queue, which this poll has not touched
          have hsize := hqueue.queueSize_eq qid
          rw [hsq] at hsize
          obtain ⟨before, hbefore, hsame⟩ :=
            Option.map_eq_some_iff.mp hsize.symm
          rw [hqueue.history_eq qid hself, ← hsame]
          exact hpolled.drained qid before hfirst (by omega) hbefore }

theorem nvmevProcDbs_ok {marks : ℕ → ℕ → ℕ → List Mark}
    (hreach : Reachable (dbMachine procIoCmd) vdev)
    (hrun : nvmevProcDbs procIoCmd marks vdev = .ok vdev') :
    DbsPolled procIoCmd vdev vdev.nrSq vdev' := by
  refine foldlM_range_of_ok (DbsPolled procIoCmd vdev) hrun
    ⟨hreach, rfl, rfl, fun _ => rfl, fun _ => rfl, ?_⟩
    fun k hk state state' _ hstep hpolled => hpolled.next hk hstep
  intro qid sq hfirst hlast
  omega

theorem nvmevProcDbs_ends (marks : ℕ → ℕ → ℕ → List Mark)
    (hreach : Reachable (dbMachine procIoCmd) vdev)
    (hnr : vdev.dev.workers.nrIoCpu ≠ 0) :
    ∃ vdev', nvmevProcDbs procIoCmd marks vdev = .ok vdev' := by
  have hstart : DbsPolled procIoCmd vdev 0 vdev :=
    ⟨hreach, rfl, rfl, fun _ => rfl, fun _ => rfl, fun _ _ _ _ => by omega⟩
  have hends : ∃ vdev', nvmevProcDbs procIoCmd marks vdev = .ok vdev' ∧
      DbsPolled procIoCmd vdev vdev.nrSq vdev' := by
    refine foldlM_range _ (fun k hk state hpolled => ?_) hstart
    have hinv := dbInv_of_reachable hpolled.reachable
    have hnr' := hpolled.nr_eq.symm ▸ hnr
    obtain ⟨state', hstep, -⟩ := procSqDb_linked procIoCmd (marks (k + 1))
      (k + 1) hinv.served (hinv.linked hnr') hnr'
    exact ⟨state', hstep, hpolled.next hk hstep⟩
  obtain ⟨vdev', hrun, -⟩ := hends
  exact ⟨vdev', hrun⟩

end

/-- In every run of hosts and polls, what the translation layer has accepted
of a queue is an initial part of what was submitted, each command in its place
of the ring, and `nvmev_proc_dbs` leaves nothing of a queue on which it meets
no refusal. -/
theorem accepted_in_order (procIoCmd : ProcIoCmd φ κ) {vdev : Vdev φ κ}
    (hreach : Reachable (dbMachine procIoCmd) vdev) :
    (∀ qid sq, vdev.sqes qid = some sq →
      (vdev.history qid).accepted <+:
        places sq.queueSize (vdev.history qid).submitted) ∧
    ∀ marks,
      (vdev.dev.workers.nrIoCpu ≠ 0 →
        ∃ vdev', nvmevProcDbs procIoCmd marks vdev = .ok vdev') ∧
      ∀ vdev', nvmevProcDbs procIoCmd marks vdev = .ok vdev' →
        Reachable (dbMachine procIoCmd) vdev' ∧
        ∀ qid sq, 1 ≤ qid → qid ≤ vdev.nrSq → vdev.sqes qid = some sq →
          (vdev'.history qid).accepted <+:
            places sq.queueSize (vdev.history qid).submitted ∧
          ((∀ call ∈ (vdev'.history qid).calls, call.accepted = true) →
            (vdev'.history qid).accepted =
              places sq.queueSize (vdev.history qid).submitted) := by
  have hinitial : ∀ {vdev : Vdev φ κ}, Reachable (dbMachine procIoCmd) vdev →
      ∀ qid sq, vdev.sqes qid = some sq → (vdev.history qid).accepted <+:
        places sq.queueSize (vdev.history qid).submitted := by
    intro vdev hreach qid sq hsq
    exact List.prefix_iff_eq_take.mpr
      ((dbInv_of_reachable hreach).served qid sq hsq).accepted_eq
  refine ⟨hinitial hreach, fun marks => ⟨nvmevProcDbs_ends marks hreach,
    fun vdev' hrun => ?_⟩⟩
  have hpolled := nvmevProcDbs_ok hreach hrun
  refine ⟨hpolled.reachable, fun qid sq hfirst hlast hsq => ?_⟩
  have hsize := hpolled.queueSize_eq qid
  rw [hsq] at hsize
  obtain ⟨sq', hsq', hsame⟩ := Option.map_eq_some_iff.mp hsize
  rw [← hsame, ← hpolled.submitted_eq qid]
  exact ⟨hinitial hpolled.reachable qid sq' hsq',
    hpolled.drained qid sq' hfirst hlast hsq'⟩

/-- A translation layer that refuses its second call. -/
def refuseSecond : ProcIoCmd ℕ Unit := fun calls _ _ _ ret =>
  { accepted := calls ≠ 1, ret := ret, writebacks := [], ftl := calls + 1 }

/-- A device with one worker, before any queue is created. -/
def emptyVdev : Vdev ℕ Unit where
  nrSq := 1
  sqes := fun _ => none
  dbs := fun _ => 0
  oldDbs := fun _ => 0
  dev :=
    { workers := { nrIoCpu := 1, procInfo := fun _ => nvmevIoProcInit }
      clock := { readings := fun _ => 0, reads := 0 }
      ftl := 0
      calls := [] }
  history := fun _ => { submitted := [], accepted := [], calls := [] }

def command (commandId : ℕ) : Command Unit :=
  { commandId := commandId, length := 7, rest := () }

/-- A queue of three entries.  The second of two commands is refused at first,
and the doorbell wraps around with the third one. -/
def wrapActions : List (DbAction Unit) :=
  [.createSq 1 1 2 fun _ => command 0, .submit 1 [command 7, command 8],
    .poll 1 fun _ _ => [], .submit 1 [command 9], .poll 1 fun _ _ => [],
    .submit 1 [command 10]]

theorem accepted_in_order_wrap : ∃ vdev vdev',
    (dbMachine refuseSecond).run wrapActions emptyVdev = some vdev ∧
      vdev.dev.calls.map (fun call => (call.sqEntry, call.accepted)) =
        [(0, true), (1, false), (1, true), (2, true)] ∧
      (vdev.history 1).accepted.map (fun pair => (pair.1, pair.2.commandId)) =
        [(0, 7), (1, 8), (2, 9)] ∧
      nvmevProcDbs refuseSecond (fun _ _ _ => []) vdev = .ok vdev' ∧
      (vdev'.history 1).accepted <+:
        places 3 (vdev.history 1).submitted ∧
      ((∀ call ∈ (vdev'.history 1).calls, call.accepted = true) →
        (vdev'.history 1).accepted =
          places 3 (vdev.history 1).submitted) := by
  have hstates : ((dbMachine refuseSecond).run wrapActions emptyVdev).map
      (fun vdev =>
        (vdev.dev.calls.map (fun call => (call.sqEntry, call.accepted)),
          (vdev.history 1).accepted.map
            fun pair => (pair.1, pair.2.commandId),
          (vdev.sqes 1).map SubmissionQueue.queueSize,
          vdev.nrSq, vdev.dev.workers.nrIoCpu)) =
      some ([(0, true), (1, false), (1, true), (2, true)],
        [(0, 7), (1, 8), (2, 9)], some 3, 1, 1) := by
    decide +kernel
  obtain ⟨vdev, hrun, hvdev⟩ := Option.map_eq_some_iff.mp hstates
  obtain ⟨hcalls, haccepted, hsize, hnrSq, hnr⟩ := by
    simpa only [Prod.mk.injEq] using hvdev
  obtain ⟨sq, hsq, hthree⟩ := Option.map_eq_some_iff.mp hsize
  have hreach : Reachable (dbMachine refuseSecond) vdev :=
    Reachable.run (.start ⟨fun _ => rfl, fun _ => rfl⟩) hrun
  obtain ⟨hends, hpolled⟩ :=
    (accepted_in_order refuseSecond hreach).2 fun _ _ _ => []
  obtain ⟨vdev', hpoll⟩ := hends (by rw [hnr]; exact Nat.one_ne_zero)
  obtain ⟨hextends, hdrained⟩ :=
    (hpolled vdev' hpoll).2 1 sq (le_refl 1) hnrSq.ge hsq
  rw [hthree] at hextends hdrained
  exact ⟨vdev, vdev', hrun, hcalls, haccepted, hpoll, hextends, hdrained⟩

end NvmeVirt.Doorbells
