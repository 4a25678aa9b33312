import NvmeVirt.Admin.Requests
import NvmeVirt.Core.PhaseRing
import NvmeVirt.Io.Doorbells

/-!
# Completions of admin commands

The host clears the memory of the admin completion queue and then waits for
entries with the phase tag of its lap.  It sees one completion for every
command exactly when every command has a handler that fills its entry, and
names a queue or a namespace that is there.  The head moves on for a command
without a handler too, past an entry of the lap before; a handler that leaves
an array, or fails an assertion, stops the driver.
-/

namespace NvmeVirt.AdminCompletions

open NvmeVirt.AdminRequests
open NvmeVirt.Dispatch
open NvmeVirt.Doorbells
open NvmeVirt.Kernel
open NvmeVirt.PhaseRing
open NvmeVirt.Ring
open NvmeVirt.Transition
open NvmeVirt.Worker

/-! ## Runs -/

/-- A run of the admin queue.  `stopped` says that the last command has brought
the driver down.  The other fields but the first are history: the commands
with their submission entries, the entry the head has moved past right after
each of them, the host, and whether the host has never been more than one lap
behind. -/
structure AdminRun where
  ctrl : Controller
  stopped : Bool
  processed : List (ℕ × AdminCommand)
  posted : List Completion
  host : Reader Completion
  keptUp : Bool

section

variable (s : AdminRun)

/-- The host looks at its completion entry `count` times. -/
def hostPolls (count : ℕ) : AdminRun :=
  { s with
    host := (Reader.poll s.ctrl.queue.cqDepth phaseTag
      s.ctrl.queue.nvmeCq)^[count] s.host }

/-- `__nvmev_proc_admin_req`, with its history. -/
def adminReq (entryId : ℕ) : AdminRun :=
  let cqHead := s.ctrl.queue.cqHead
  let processed :=
    s.processed ++ [(entryId, s.ctrl.queue.nvmeSq entryId)]
  match procAdminReq s.ctrl entryId with
  | .error _ => { s with stopped := true, processed := processed }
  | .ok ctrl =>
      let posted := s.posted ++ [ctrl.queue.nvmeCq cqHead]
      { ctrl := ctrl
        stopped := s.stopped
        processed := processed
        posted := posted
        host := s.host
        keptUp := s.keptUp &&
          decide (posted.length ≤ s.host.seen.length + ctrl.queue.cqDepth) }

end

/-- The loop of `nvmev_proc_admin_sq`, with `count` commands to go.  `polls`
says how often the host looks at its entry before each of them. -/
def adminLoop (polls : ℕ → ℕ) : ℕ → AdminRun → ℕ → AdminRun
  | 0, s, _ => s
  | count + 1, s, curr =>
      let s := adminReq (hostPolls s (polls count)) curr
      if s.stopped then s
      else adminLoop polls count s (nextEntry s.ctrl.queue.sqDepth curr)

/-- `nvmev_proc_admin_sq`. -/
def nvmevProcAdminSq (polls : ℕ → ℕ) (s : AdminRun) (newDb oldDb : ℕ) :
    AdminRun :=
  adminLoop polls (numProc newDb oldDb s.ctrl.queue.sqDepth) s oldDb

inductive AdminAction
  /-- The host writes to the memory of the submission queue. -/
  | write (nvmeSq : ℕ → AdminCommand)
  | poll (count : ℕ)
  | procSq (polls : ℕ → ℕ) (newDb oldDb : ℕ)

def adminStep (s : AdminRun) : AdminAction → Except Fault AdminRun
  | .write nvmeSq =>
      .ok { s with
        ctrl := { s.ctrl with
          queue := { s.ctrl.queue with nvmeSq := nvmeSq } } }
  | .poll count => .ok (hostPolls s count)
  | .procSq polls newDb oldDb => .ok (nvmevProcAdminSq polls s newDb oldDb)

/-- The admin queue starts with the depths of `AQA`, 12-bit fields counted
from 0, and the host has cleared the phase tags. -/
structure StartsClear (s : AdminRun) : Prop where
  phase_eq : s.ctrl.queue.phase = true
  cqHead_eq : s.ctrl.queue.cqHead = 0
  sqDepth_pos : 0 < s.ctrl.queue.sqDepth
  sqDepth_le : s.ctrl.queue.sqDepth ≤ 2 ^ 12
  cqDepth_pos : 0 < s.ctrl.queue.cqDepth
  clear : ∀ place, phaseTag (s.ctrl.queue.nvmeCq place) = false
  running : s.stopped = false
  processed_eq : s.processed = []
  posted_eq : s.posted = []
  host_eq : s.host = Reader.initial
  keptUp_eq : s.keptUp = true

def adminMachine : Machine AdminRun AdminAction Fault where
  init := StartsClear
  enabled s action :=
    s.stopped = false ∧
      match action with
      | .procSq _ newDb oldDb =>
          newDb < s.ctrl.queue.sqDepth ∧ oldDb < s.ctrl.queue.sqDepth
      | _ => True
  step := adminStep

instance (s : AdminRun) (action : AdminAction) :
    Decidable (adminMachine.enabled s action) :=
  match action with
  | .procSq _ newDb oldDb => inferInstanceAs (Decidable (s.stopped = false ∧
      newDb < s.ctrl.queue.sqDepth ∧ oldDb < s.ctrl.queue.sqDepth))
  | .write _ | .poll _ =>
      inferInstanceAs (Decidable (s.stopped = false ∧ True))

/-- Every command has an entry with its identifier, its submission entry and
the phase tag of its lap. -/
def Answered (s : AdminRun) : Prop :=
  ∀ number eid cmd, s.processed[number]? = some (eid, cmd) →
    ∃ entry, s.posted[number]? = some entry ∧
      Answers (lapPhase s.ctrl.queue.cqDepth number) eid cmd entry

/-- The driver is up, every command is answered by one entry, and the host sees
the answers in order, each once, however often it looks. -/
structure Completed (s : AdminRun) : Prop where
  running : s.stopped = false
  length_eq : s.posted.length = s.processed.length
  answered : Answered s
  seen_once : s.keptUp = true → ∀ count,
    (hostPolls s count).host.seen =
      s.posted.take (s.host.seen.length + count)

/-- The commands with a handler that fills the completion entry, where what
they name is there. -/
def Answerable (ctrl : Controller) (cmd : AdminCommand) : Prop :=
  Completes cmd ∧ InRange ctrl.nrNs ctrl.csi cmd

instance (ctrl : Controller) (cmd : AdminCommand) :
    Decidable (Answerable ctrl cmd) :=
  inferInstanceAs (Decidable (_ ∧ _))

def AllAnswerable (s : AdminRun) : Prop :=
  ∀ call ∈ s.processed, Answerable s.ctrl call.2

/-! ## One command -/

section

variable {queue : AdminQueue} {cqHead : ℕ}

@[simp]
theorem advanceHead_sqDepth :
    (advanceHead queue cqHead).sqDepth = queue.sqDepth := by
  rw [advanceHead]
  split_ifs <;> rfl

@[simp]
theorem advanceHead_cqDepth :
    (advanceHead queue cqHead).cqDepth = queue.cqDepth := by
  rw [advanceHead]
  split_ifs <;> rfl

@[simp]
theorem advanceHead_nvmeCq :
    (advanceHead queue cqHead).nvmeCq = queue.nvmeCq := by
  rw [advanceHead]
  split_ifs <;> rfl

theorem advanceHead_cqHead : (advanceHead queue cqHead).cqHead =
    if cqHead + 1 = queue.cqDepth then 0 else cqHead + 1 := by
  rw [advanceHead]
  split_ifs <;> rfl

theorem advanceHead_phase : (advanceHead queue cqHead).phase =
    if cqHead + 1 = queue.cqDepth then !queue.phase else queue.phase := by
  rw [advanceHead]
  split_ifs <;> rfl

end

/-- The entry the head moves past is filled for the commands that complete,
and as it was for the others. -/
structure Passed (queue : AdminQueue) (eid : ℕ) (entry : Completion)
    (queue' : AdminQueue) : Prop where
  queue_eq : queue' = advanceHead
    { queue with nvmeCq := Function.update queue.nvmeCq queue.cqHead entry }
    queue.cqHead
  answers : Completes (queue.nvmeSq eid) →
    Answers queue.phase eid (queue.nvmeSq eid) entry
  stale : ¬ Completes (queue.nvmeSq eid) → entry = queue.nvmeCq queue.cqHead

theorem procAdminReq_passed {ctrl ctrl' : Controller} {eid : ℕ}
    (heid : eid < 2 ^ 16) (hrun : procAdminReq ctrl eid = .ok ctrl') :
    (∃ entry, Passed ctrl.queue eid entry ctrl'.queue) ∧
      InRange ctrl.nrNs ctrl.csi (ctrl.queue.nvmeSq eid) ∧
      ctrl'.nrNs = ctrl.nrNs ∧ ctrl'.csi = ctrl.csi := by
  obtain ⟨handled, hhandle, hrun⟩ := bind_eq_ok hrun
  cases hrun
  obtain ⟨hnrNs, hcsi⟩ := handle_keeps hhandle
  refine ⟨?_, handle_ok_iff.mp ⟨handled, hhandle⟩, hnrNs, hcsi⟩
  by_cases hcompletes : Completes (ctrl.queue.nvmeSq eid)
  · obtain ⟨entry, hanswers, hqueue⟩ :=
      handle_filled heid hcompletes hhandle
    refine ⟨entry, ?_, fun _ => hanswers, fun hnot => absurd hcompletes hnot⟩
    rw [← hqueue]
  · rw [handle_not_completes hcompletes] at hhandle
    cases hhandle
    refine ⟨ctrl.queue.nvmeCq ctrl.queue.cqHead, ?_,
      fun hyes => absurd hyes hcompletes, fun _ => rfl⟩
    rw [Function.update_eq_self]

/-- The commands that bring the driver down name what is not there. -/
theorem procAdminReq_fault {ctrl : Controller} {eid : ℕ} {fault : Fault}
    (hrun : procAdminReq ctrl eid = .error fault) :
    ¬ Answerable ctrl (ctrl.queue.nvmeSq eid) := by
  rintro ⟨-, hrange⟩
  obtain ⟨handled, hhandle⟩ :=
    (@handle_ok_iff ctrl eid ctrl.queue.cqHead).mpr hrange
  rw [procAdminReq, hhandle] at hrun
  cases hrun

section

variable {queue queue' : AdminQueue} {eid : ℕ} {entry : Completion}

theorem Passed.sqDepth_eq (hpassed : Passed queue eid entry queue') :
    queue'.sqDepth = queue.sqDepth := by
  rw [hpassed.queue_eq, advanceHead_sqDepth]

theorem Passed.cqDepth_eq (hpassed : Passed queue eid entry queue') :
    queue'.cqDepth = queue.cqDepth := by
  rw [hpassed.queue_eq, advanceHead_cqDepth]

theorem Passed.nvmeCq_eq (hpassed : Passed queue eid entry queue') :
    queue'.nvmeCq = Function.update queue.nvmeCq queue.cqHead entry := by
  rw [hpassed.queue_eq, advanceHead_nvmeCq]

/-- The entry that was passed is what the queue now holds there. -/
theorem Passed.nvmeCq_head (hpassed : Passed queue eid entry queue') :
    queue'.nvmeCq queue.cqHead = entry := by
  rw [hpassed.nvmeCq_eq, Function.update_self]

/-- The head after `number` entries moves to where it is after one more. -/
theorem Passed.cqHead_eq (hpassed : Passed queue eid entry queue')
    {number : ℕ} (hpos : 0 < queue.cqDepth)
    (hhead : queue.cqHead = number % queue.cqDepth) :
    queue'.cqHead = (number + 1) % queue.cqDepth := by
  rw [hpassed.queue_eq, advanceHead_cqHead, next_place hpos, ← hhead]

theorem Passed.phase_eq (hpassed : Passed queue eid entry queue') :
    queue'.phase =
      if queue.cqHead + 1 = queue.cqDepth then !queue.phase
      else queue.phase := by
  rw [hpassed.queue_eq, advanceHead_phase]

end

/-- What holds along every run while the driver is up.  As long as every
command can be answered, the completion queue is a ring with phase tags; the
first one that cannot leaves an entry of the lap before. -/
structure RunInv (s : AdminRun) : Prop where
  sqDepth_pos : 0 < s.ctrl.queue.sqDepth
  sqDepth_le : s.ctrl.queue.sqDepth ≤ 2 ^ 12
  cqDepth_pos : 0 < s.ctrl.queue.cqDepth
  length_eq : s.posted.length = s.processed.length
  cqHead_eq : s.ctrl.queue.cqHead = s.posted.length % s.ctrl.queue.cqDepth
  phase_eq : s.ctrl.queue.phase =
    lapPhase s.ctrl.queue.cqDepth s.posted.length
  posted : AllAnswerable s →
    Posted s.ctrl.queue.cqDepth phaseTag s.ctrl.queue.nvmeCq s.posted
  answered : AllAnswerable s ↔ Answered s
  follows : AllAnswerable s → s.keptUp = true →
    Follows s.ctrl.queue.cqDepth s.posted s.host ∧
      s.posted.length ≤ s.host.seen.length + s.ctrl.queue.cqDepth

/-- A command that brings the driver down cannot be answered. -/
structure AdminInv (s : AdminRun) : Prop where
  up : s.stopped = false → RunInv s
  down : s.stopped = true → ¬ AllAnswerable s

section

variable {s s' : AdminRun}

theorem allAnswerable_concat {call : ℕ × AdminCommand}
    (hcalls : s'.processed = s.processed ++ [call])
    (hnrNs : s'.ctrl.nrNs = s.ctrl.nrNs) (hcsi : s'.ctrl.csi = s.ctrl.csi) :
    AllAnswerable s' ↔ AllAnswerable s ∧ Answerable s.ctrl call.2 := by
  unfold AllAnswerable Answerable
  rw [hcalls, hnrNs, hcsi, List.forall_mem_append, List.forall_mem_singleton]

/-- The answers to one more command. -/
theorem answered_concat {eid : ℕ} {cmd : AdminCommand} {entry : Completion}
    (hlength : s.posted.length = s.processed.length)
    (hcalls : s'.processed = s.processed ++ [(eid, cmd)])
    (hposted : s'.posted = s.posted ++ [entry])
    (hdepth : s'.ctrl.queue.cqDepth = s.ctrl.queue.cqDepth) :
    Answered s' ↔ Answered s ∧ Answers
      (lapPhase s.ctrl.queue.cqDepth s.posted.length) eid cmd entry := by
  unfold Answered
  rw [hcalls, hposted, hdepth]
  constructor
  · intro hall
    refine ⟨fun number eid cmd hcall => ?_, ?_⟩
    · have hlt := (List.getElem?_eq_some_iff.mp hcall).1
      obtain ⟨entry, hentry, hanswers⟩ := hall number eid cmd (by
        rw [List.getElem?_append_left hlt, hcall])
      rw [List.getElem?_append_left (hlength ▸ hlt)] at hentry
      exact ⟨entry, hentry, hanswers⟩
    · obtain ⟨last, hlast, hanswers⟩ := hall s.posted.length eid cmd (by
        rw [hlength, List.getElem?_concat_length])
      rw [List.getElem?_concat_length] at hlast
      cases hlast
      exact hanswers
  · rintro ⟨hall, hlast⟩ number eid' cmd' hcall
    rcases getElem?_concat hcall with hold | ⟨hnumber, hnew⟩
    · have hlt := (List.getElem?_eq_some_iff.mp hold).1
      rw [List.getElem?_append_left (hlength ▸ hlt)]
      exact hall number eid' cmd' hold
    · cases hnew
      rw [hnumber, ← hlength, List.getElem?_concat_length]
      exact ⟨entry, rfl, hlast⟩

theorem adminReq_inv {eid : ℕ} (hinv : RunInv s)
    (hup : s.stopped = false) (heid : eid < s.ctrl.queue.sqDepth) :
    AdminInv (adminReq s eid) ∧
      (adminReq s eid).ctrl.queue.sqDepth = s.ctrl.queue.sqDepth := by
  have hfits : eid < 2 ^ 16 := by
    have hle := hinv.sqDepth_le
    omega
  rw [adminReq]
  dsimp only
  cases hreq : procAdminReq s.ctrl eid with
  | error fault =>
      dsimp only
      refine ⟨⟨nofun, fun _ hall => procAdminReq_fault hreq ?_⟩, rfl⟩
      exact hall (eid, s.ctrl.queue.nvmeSq eid) (List.mem_concat_self ..)
  | ok ctrl =>
  obtain ⟨⟨entry, hpassed⟩, hrange, hnrNs, hcsi⟩ :=
    procAdminReq_passed hfits hreq
  have hanswers := hpassed.answers
  have hsqDepth := hpassed.sqDepth_eq
  have hcqDepth := hpassed.cqDepth_eq
  have hlength : (s.posted ++ [entry]).length = s.posted.length + 1 := by
    rw [List.length_append, List.length_singleton]
  rw [hinv.phase_eq] at hanswers
  dsimp only
  rw [hpassed.nvmeCq_head]
  refine ⟨⟨fun _ => ?_, fun hdown => ?_⟩, hsqDepth⟩
  · exact
      { sqDepth_pos := hsqDepth.symm ▸ hinv.sqDepth_pos
        sqDepth_le := hsqDepth.symm ▸ hinv.sqDepth_le
        cqDepth_pos := hcqDepth.symm ▸ hinv.cqDepth_pos
        length_eq := by
          rw [hlength, hinv.length_eq, List.length_append,
            List.length_singleton]
        cqHead_eq := by
          dsimp only
          rw [hlength, hcqDepth]
          exact hpassed.cqHead_eq hinv.cqDepth_pos hinv.cqHead_eq
        phase_eq := by
          dsimp only
          rw [hlength, hcqDepth, lapPhase_succ hinv.cqDepth_pos,
            ← hinv.cqHead_eq, ← hinv.phase_eq, hpassed.phase_eq]
        posted := by
          intro hall
          obtain ⟨hold, hnew⟩ := (allAnswerable_concat rfl hnrNs hcsi).mp hall
          dsimp only
          rw [hcqDepth, hpassed.nvmeCq_eq, hinv.cqHead_eq]
          exact (hinv.posted hold).post hinv.cqDepth_pos
            (hanswers hnew.1).phase_eq
        answered := by
          rw [allAnswerable_concat rfl hnrNs hcsi,
            answered_concat hinv.length_eq rfl rfl hcqDepth, hinv.answered]
          refine and_congr_right fun hold =>
            ⟨fun hnew => hanswers hnew.1, fun hlast => ⟨?_, hrange⟩⟩
          -- an entry that has not been filled has the tag of the lap before
          by_contra hnot
          have htag := hlast.phase_eq
          rw [hpassed.stale hnot, hinv.cqHead_eq,
            (hinv.posted (hinv.answered.mpr hold)).ahead _ (le_refl _)
              (Nat.lt_add_of_pos_right hinv.cqDepth_pos)] at htag
          exact Bool.not_ne_self _ htag
        follows := by
          intro hall hkept
          obtain ⟨hold, -⟩ := (allAnswerable_concat rfl hnrNs hcsi).mp hall
          obtain ⟨hbefore, hbehind⟩ := Bool.and_eq_true_iff.mp hkept
          dsimp only
          rw [hcqDepth]
          rw [hcqDepth] at hbehind
          exact ⟨(hinv.follows hold hbefore).1.append _,
            of_decide_eq_true hbehind⟩ }
  · exact absurd (hup.symm.trans hdown) Bool.false_ne_true

theorem hostPolls_inv (hinv : RunInv s) (count : ℕ) :
    RunInv (hostPolls s count) := by
  obtain ⟨hsqPos, hsqLe, hcqPos, hlength, hhead, hphase, hposted, hanswered,
    hfollows⟩ := hinv
  refine ⟨hsqPos, hsqLe, hcqPos, hlength, hhead, hphase, hposted, hanswered,
    fun hall hkept => ?_⟩
  obtain ⟨hreader, hbehind⟩ := hfollows hall hkept
  exact ⟨(hreader.polls (hposted hall) hcqPos hbehind count).1,
    hreader.polls_behind (hposted hall) hcqPos hbehind count⟩

theorem adminLoop_inv (polls : ℕ → ℕ) (count : ℕ) {curr : ℕ}
    (hinv : RunInv s) (hup : s.stopped = false)
    (hcurr : curr < s.ctrl.queue.sqDepth) :
    AdminInv (adminLoop polls count s curr) := by
  induction count generalizing s curr with
  | zero =>
      exact ⟨fun _ => hinv,
        fun hdown => absurd (hup.symm.trans hdown) Bool.false_ne_true⟩
  | succ count ih =>
      obtain ⟨hnext, hdepth⟩ :=
        adminReq_inv (hostPolls_inv hinv (polls count)) hup hcurr
      rw [adminLoop]
      split_ifs with hstopped
      · exact hnext
      · have hup' := Bool.eq_false_iff.mpr hstopped
        refine ih (hnext.up hup') hup' ?_
        have hsame : (hostPolls s (polls count)).ctrl.queue.sqDepth =
            s.ctrl.queue.sqDepth := rfl
        rw [hdepth, hsame, nextEntry]
        split_ifs with hwrap
        · exact hinv.sqDepth_pos
        · omega

theorem adminInv_of_reachable (hreach : Reachable adminMachine s) :
    AdminInv s := by
  refine hreach.invariant AdminInv (fun start hinit => ?_)
    fun before action after hinv henabled hrun => ?_
  · obtain ⟨hphase, hhead, hsqPos, hsqLe, hcqPos, hclear, hup, hprocessed,
      hposted, hhost, -⟩ := hinit
    refine ⟨fun _ => ?_,
      fun hdown => absurd (hup.symm.trans hdown) Bool.false_ne_true⟩
    have hnone : AllAnswerable start := by
      intro call hcall
      rw [hprocessed] at hcall
      cases hcall
    refine ⟨hsqPos, hsqLe, hcqPos, ?_, ?_, ?_, fun _ => ?_,
      iff_of_true hnone ?_, fun _ _ => ?_⟩
    · rw [hposted, hprocessed]
      rfl
    · rw [hposted, hhead]
      exact (Nat.zero_mod _).symm
    · rw [hposted, hphase]
      exact (lapPhase_of_lt hcqPos).symm
    · rw [hposted]
      exact posted_nil fun place _ => hclear place
    · intro number eid cmd hcall
      rw [hprocessed] at hcall
      cases hcall
    · rw [hhost, hposted]
      exact ⟨follows_initial, Nat.zero_le _⟩
  · obtain ⟨hup, henabled⟩ := henabled
    have hrunning := hinv.up hup
    cases action with
    | write nvmeSq =>
        cases hrun
        refine ⟨fun _ => ?_, hinv.down⟩
        obtain ⟨hsqPos, hsqLe, hcqPos, hlength, hhead, hphase, hposted,
          hanswered, hfollows⟩ := hrunning
        exact ⟨hsqPos, hsqLe, hcqPos, hlength, hhead, hphase, hposted,
          hanswered, hfollows⟩
    | poll count =>
        cases hrun
        exact ⟨fun _ => hostPolls_inv hrunning count, hinv.down⟩
    | procSq polls newDb oldDb =>
        cases hrun
        exact adminLoop_inv polls _ hrunning hup henabled.2

end

def blankEntry : Completion :=
  { result0 := 0, result1 := 0, sqHead := 0, sqId := 0, commandId := 0
    status := 0 }

theorem blankEntry_tag : phaseTag blankEntry = false := by decide

/-- A queue of two entries whose submission queue is full of `cmd`. -/
def freshQueue (cmd : AdminCommand) : AdminQueue where
  phase := true
  sqDepth := 2
  cqDepth := 2
  cqHead := 0
  nvmeSq := fun _ => cmd
  nvmeCq := fun _ => blankEntry

def freshRun (cmd : AdminCommand) : AdminRun where
  ctrl :=
    { queue := freshQueue cmd, nrSq := 0, nrCq := 0, sqes := fun _ => none
      cqes := fun _ => none, dbs := fun _ => 0, oldDbs := fun _ => 0
      nrNs := 1, csi := fun _ => 0 }
  stopped := false
  processed := []
  posted := []
  host := Reader.initial
  keptUp := true

theorem freshRun_startsClear (cmd : AdminCommand) :
    StartsClear (freshRun cmd) where
  phase_eq := rfl
  cqHead_eq := rfl
  sqDepth_pos := Nat.succ_pos 1
  sqDepth_le := Nat.le_of_ble_eq_true rfl
  cqDepth_pos := Nat.succ_pos 1
  clear := fun _ => blankEntry_tag
  running := rfl
  processed_eq := rfl
  posted_eq := rfl
  host_eq := rfl
  keptUp_eq := rfl

/-- An identify command for the controller. -/
def identifyCommand : AdminCommand :=
  { opcode := 0x06, commandId := 7, nsid := 0, prp1 := 0, dword10 := 1
    dword11 := 0 }

/-- An abort command. -/
def abortCommand : AdminCommand :=
  { opcode := 0x08, commandId := 7, nsid := 0, prp1 := 0, dword10 := 0
    dword11 := 0 }

/-- An identify command for a zoned namespace, on a device that has none. -/
def identifyZnsCommand : AdminCommand :=
  { opcode := 0x06, commandId := 8, nsid := 1, prp1 := 0, dword10 := 5
    dword11 := 0 }

/-- One command, and two looks of the host before each command. -/
def oneRequest (newDb oldDb : ℕ) : AdminAction :=
  .procSq (fun _ => 2) newDb oldDb

/-- The completion of an identify command in the first and the second lap. -/
def identified (entry : ℕ) (phase : Bool) : Completion :=
  { result0 := 0, result1 := 0, sqHead := entry, sqId := 0, commandId := 7
    status := phase.toNat }

end NvmeVirt.AdminCompletions
