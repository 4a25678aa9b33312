import NvmeVirt.Admin.Completions

/-!
# The registers of the controller

`nvmev_proc_bars` looks for registers that the host has changed.  It allocates
the admin queue, finds its memory, and answers a shutdown.  The head of the
admin completion queue goes back to the first entry in three places, the phase
to 1 in the first of them only.
-/

namespace NvmeVirt.Registers

open NvmeVirt.AdminCompletions
open NvmeVirt.AdminRequests
open NvmeVirt.Dispatch
open NvmeVirt.Doorbells
open NvmeVirt.Kernel
open NvmeVirt.PhaseRing
open NvmeVirt.Ring
open NvmeVirt.Transition
open NvmeVirt.Worker

/-! ## The registers -/

/-- The fields of `struct nvme_ctrl_regs` that the host writes to set up and
shut down the controller. -/
structure CtrlRegs where
  aqa : ℕ
  asq : ℕ
  acq : ℕ
  cc : ℕ
  deriving DecidableEq, Repr

namespace CtrlRegs

variable (bar : CtrlRegs)

def asqs : ℕ := bar.aqa % 2 ^ 12

def acqs : ℕ := bar.aqa / 2 ^ 16 % 2 ^ 12

def en : ℕ := bar.cc % 2

def shn : ℕ := bar.cc / 2 ^ 14 % 2 ^ 2

end CtrlRegs

/-- The registers as the four parts of `nvmev_proc_bars` find them.  The host
may write to them at any time. -/
structure SeenRegs where
  atAqa : CtrlRegs
  atAsq : CtrlRegs
  atAcq : CtrlRegs
  atCc : CtrlRegs

/-- Registers that do not change meanwhile. -/
def CtrlRegs.seen (bar : CtrlRegs) : SeenRegs :=
  { atAqa := bar, atAsq := bar, atAcq := bar, atCc := bar }

/-- What the host keeps in the pages from a page frame on, read as an admin
submission queue and as an admin completion queue. -/
structure HostMemory where
  commands : ℕ → ℕ → AdminCommand
  entries : ℕ → ℕ → Completion

/-- The controller with its registers.  `hasQueue`, `hasSq` and `hasCq` say
that `admin_q`, `admin_q->nvme_sq` and `admin_q->nvme_cq` are not null.  The
last three fields are the history since the head of the completion queue was
last set to 0: the phase it was set to 0 with, the commands, and the entries
that have been filled for them. -/
structure BarRun where
  ctrl : Controller
  oldBar : CtrlRegs
  rdy : ℕ
  shst : ℕ
  hasQueue : Bool
  hasSq : Bool
  hasCq : Bool
  resetPhase : Bool
  processed : List AdminCommand
  posted : List Completion

/-- `dbs[index] = old_dbs[index] = 0`. -/
def zeroDb (ctrl : Controller) (index : ℕ) : Controller :=
  { ctrl with
    dbs := Function.update ctrl.dbs index 0
    oldDbs := Function.update ctrl.oldDbs index 0 }

/-! ## `nvmev_proc_bars` -/

section

variable (memory : HostMemory) (bar : CtrlRegs) (s : BarRun)

/-- `queue->cq_head = 0`, where a new history begins. -/
def resetHead : BarRun :=
  { s with
    ctrl := { s.ctrl with queue := { s.ctrl.queue with cqHead := 0 } }
    resetPhase := s.ctrl.queue.phase
    processed := []
    posted := [] }

/-- The part about `AQA`. -/
def procAqa : BarRun :=
  if s.oldBar.aqa ≠ bar.aqa then
    let changed := { s with oldBar := { s.oldBar with aqa := bar.aqa } }
    if s.hasQueue then changed
    else
      let queue : AdminQueue :=
        { s.ctrl.queue with
          phase := true
          sqDepth := bar.asqs + 1
          cqDepth := bar.acqs + 1 }
      resetHead
        { changed with
          ctrl := zeroDb (zeroDb { s.ctrl with queue := queue } 0) 1
          hasQueue := true
          hasSq := false
          hasCq := false }
  else s

/-- The part about `ASQ`, once there is a queue. -/
def procAsq : BarRun :=
  if s.oldBar.asq ≠ bar.asq then
    let queue : AdminQueue :=
      { s.ctrl.queue with
        sqDepth := bar.asqs + 1
        nvmeSq := memory.commands (bar.asq / 2 ^ 12) }
    { s with
      oldBar := { s.oldBar with asq := bar.asq }
      ctrl := zeroDb { s.ctrl with queue := queue } 0
      hasSq := true }
  else s

/-- The part about `ACQ`, once there is a queue. -/
def procAcq : BarRun :=
  if s.oldBar.acq ≠ bar.acq then
    let queue : AdminQueue :=
      { s.ctrl.queue with
        cqDepth := bar.acqs + 1
        nvmeCq := memory.entries (bar.acq / 2 ^ 12) }
    resetHead
      { s with
        oldBar := { s.oldBar with acq := bar.acq }
        ctrl := zeroDb { s.ctrl with queue := queue } 1
        hasCq := true }
  else s

/-- The answer to a shutdown. -/
def procShn : Except Fault BarRun :=
  if bar.shn = 1 then
    let stopped :=
      { s with shst := 2, ctrl := zeroDb (zeroDb s.ctrl 0) 1 }
    if s.hasQueue then .ok (resetHead stopped) else .error .nullPointer
  else .ok s

/-- The part about `CC`. -/
def procCc : Except Fault BarRun :=
  if s.oldBar.cc ≠ bar.cc then
    if bar.en = 1 ∧ s.hasQueue = false then .ok s
    else do
      let s ← procShn bar { s with rdy := if bar.en = 1 then 1 else 0 }
      .ok { s with oldBar := { s.oldBar with cc := bar.cc } }
  else .ok s

/-- `nvmev_proc_bars`.  It returns early where a queue address has changed and
there is no queue yet. -/
def nvmevProcBars (seen : SeenRegs) : Except Fault BarRun :=
  let s := procAqa seen.atAqa s
  if s.oldBar.asq ≠ seen.atAsq.asq ∧ s.hasQueue = false then .ok s
  else
    let s := procAsq memory seen.atAsq s
    if s.oldBar.acq ≠ seen.atAcq.acq ∧ s.hasQueue = false then .ok s
    else procCc seen.atCc (procAcq memory seen.atAcq s)

end

/-! ## Commands -/

/-- A pointer is followed. -/
def follow (notNull : Bool) : Except Fault Unit :=
  if notNull then .ok () else .error .nullPointer

/-- `__nvmev_proc_admin_req`, with its history.  Only a handler that fills an
entry touches the completion queue. -/
def procReq (s : BarRun) (entryId : ℕ) : Except Fault BarRun := do
  follow (s.hasQueue && s.hasSq)
  let cqHead := s.ctrl.queue.cqHead
  let cmd := s.ctrl.queue.nvmeSq entryId
  follow (s.hasCq || !decide (Completes cmd))
  let ctrl ← procAdminReq s.ctrl entryId
  .ok
    { s with
      ctrl := ctrl
      processed := s.processed ++ [cmd]
      posted := if Completes cmd then
        s.posted ++ [ctrl.queue.nvmeCq cqHead] else s.posted }

/-- The loop of `nvmev_proc_admin_sq`, with `count` commands to go. -/
def reqLoop : ℕ → BarRun → ℕ → Except Fault BarRun
  | 0, s, _ => .ok s
  | count + 1, s, curr => do
      let s ← procReq s curr
      reqLoop count s (nextEntry s.ctrl.queue.sqDepth curr)

/-- `nvmev_proc_dbs` after the host has stored `newDb` in the doorbell of the
admin submission queue. -/
def procAdminDb (s : BarRun) (newDb : ℕ) : Except Fault BarRun :=
  let oldDb := s.ctrl.oldDbs 0
  let rung :=
    { s with
      ctrl := { s.ctrl with dbs := Function.update s.ctrl.dbs 0 newDb } }
  if newDb ≠ oldDb then do
    follow s.hasQueue
    let s ← reqLoop (numProc newDb oldDb s.ctrl.queue.sqDepth) rung oldDb
    .ok { s with
      ctrl := { s.ctrl with
        oldDbs := Function.update s.ctrl.oldDbs 0 newDb } }
  else .ok rung

/-! ## Runs -/

inductive BarAction
  /-- The host writes to the memory of the queues. -/
  | write (nvmeSq : ℕ → AdminCommand) (nvmeCq : ℕ → Completion)
  | procBars (memory : HostMemory) (seen : SeenRegs)
  | ring (newDb : ℕ)

def barStep (s : BarRun) : BarAction → Except Fault BarRun
  | .write nvmeSq nvmeCq =>
      .ok { s with
        ctrl := { s.ctrl with
          queue := { s.ctrl.queue with nvmeSq := nvmeSq, nvmeCq := nvmeCq } } }
  | .procBars memory seen => nvmevProcBars memory s seen
  | .ring newDb => procAdminDb s newDb

/-- `VDEV_INIT` leaves no admin queue. -/
structure NoQueue (s : BarRun) : Prop where
  hasQueue_eq : s.hasQueue = false
  processed_eq : s.processed = []
  posted_eq : s.posted = []

/-- The host rings with a place of its queue. -/
def barMachine : Machine BarRun BarAction Fault where
  init := NoQueue
  enabled s action :=
    match action with
    | .ring newDb => newDb < s.ctrl.queue.sqDepth
    | _ => True
  step := barStep

instance (s : BarRun) (action : BarAction) :
    Decidable (barMachine.enabled s action) :=
  match action with
  | .write _ _ => isTrue trivial
  | .procBars _ _ => isTrue trivial
  | .ring newDb => inferInstanceAs (Decidable (newDb < s.ctrl.queue.sqDepth))

/-- The entries that have been filled since the head was set to 0 carry the
phase tags of a completion queue that has just been created. -/
def TagsRight (s : BarRun) : Prop :=
  ∀ number entry, s.posted[number]? = some entry →
    phaseTag entry = lapPhase s.ctrl.queue.cqDepth number

/-! ## What holds of the queue -/

/-- Every command since the head was set to 0 has had its entry filled. -/
def AllFilled (s : BarRun) : Prop := ∀ cmd ∈ s.processed, Completes cmd

/-- The head and the phase count laps from the phase at the reset on. -/
structure Lapped (s : BarRun) : Prop where
  cqHead_eq : s.ctrl.queue.cqHead = s.posted.length % s.ctrl.queue.cqDepth
  phase_eq : s.ctrl.queue.phase =
    (lapPhase s.ctrl.queue.cqDepth s.posted.length == s.resetPhase)
  tags : ∀ number entry, s.posted[number]? = some entry →
    phaseTag entry = (lapPhase s.ctrl.queue.cqDepth number == s.resetPhase)

/-- The depths come from 12-bit fields that count from 0. -/
structure QueueInv (s : BarRun) : Prop where
  sqDepth_pos : 0 < s.ctrl.queue.sqDepth
  sqDepth_le : s.ctrl.queue.sqDepth ≤ 2 ^ 12
  cqDepth_pos : 0 < s.ctrl.queue.cqDepth
  lapped : AllFilled s → Lapped s

/-- What holds along every run. -/
structure BarInv (s : BarRun) : Prop where
  unset : s.hasQueue = false → s.posted = []
  set : s.hasQueue = true →
    QueueInv s ∧ s.ctrl.oldDbs 0 < s.ctrl.queue.sqDepth

section

variable {memory : HostMemory} {bar : CtrlRegs} {s s' : BarRun}

theorem asqs_lt : bar.asqs < 2 ^ 12 := Nat.mod_lt _ (Nat.two_pow_pos 12)

/-- Right after the head has been set to 0, nothing has been posted. -/
theorem lapped_resetHead (hdepth : 0 < s.ctrl.queue.cqDepth) :
    Lapped (resetHead s) where
  cqHead_eq := (Nat.zero_mod _).symm
  phase_eq := by
    have hfirst : lapPhase s.ctrl.queue.cqDepth 0 = true :=
      lapPhase_of_lt hdepth
    dsimp only [resetHead]
    rw [List.length_nil, hfirst]
    exact (Bool.true_beq _).symm
  tags := fun _ _ hentry => nomatch hentry

theorem queueInv_resetHead (hpos : 0 < s.ctrl.queue.sqDepth)
    (hle : s.ctrl.queue.sqDepth ≤ 2 ^ 12)
    (hdepth : 0 < s.ctrl.queue.cqDepth) : QueueInv (resetHead s) where
  sqDepth_pos := hpos
  sqDepth_le := hle
  cqDepth_pos := hdepth
  lapped := fun _ => lapped_resetHead hdepth

theorem zeroDb_oldDbs (ctrl : Controller) (index : ℕ) :
    (zeroDb ctrl index).oldDbs index = 0 := Function.update_self ..

theorem zeroDb_oldDbs_of_ne {index other : ℕ} (ctrl : Controller)
    (hne : other ≠ index) :
    (zeroDb ctrl index).oldDbs other = ctrl.oldDbs other :=
  Function.update_of_ne hne ..

/-- The registers `csts` and `old_bar` do not matter for the queue. -/
theorem BarInv.withRegs (hinv : BarInv s) (oldBar : CtrlRegs) (rdy : ℕ) :
    BarInv { s with oldBar := oldBar, rdy := rdy } := by
  refine ⟨hinv.unset, fun hqueue => ?_⟩
  obtain ⟨⟨hpos, hle, hdepth, hlapped⟩, hold⟩ := hinv.set hqueue
  refine ⟨⟨hpos, hle, hdepth, fun hall => ?_⟩, hold⟩
  obtain ⟨hhead, hphase, htags⟩ := hlapped hall
  exact ⟨hhead, hphase, htags⟩

theorem procAqa_inv (hinv : BarInv s) : BarInv (procAqa bar s) := by
  rw [procAqa]
  split_ifs with hchanged hqueue
  · exact hinv.withRegs _ s.rdy
  · refine ⟨fun _ => rfl, fun _ => ⟨?_, ?_⟩⟩
    · apply queueInv_resetHead
      · exact Nat.succ_pos _
      · exact asqs_lt
      · exact Nat.succ_pos _
    · dsimp only [resetHead]
      rw [zeroDb_oldDbs_of_ne _ Nat.zero_ne_one, zeroDb_oldDbs]
      exact Nat.succ_pos _
  · exact hinv

theorem procAsq_inv (hinv : BarInv s) : BarInv (procAsq memory bar s) := by
  rw [procAsq]
  split_ifs with hchanged
  · refine ⟨hinv.unset, fun hqueue => ?_⟩
    obtain ⟨⟨-, -, hdepth, hlapped⟩, -⟩ := hinv.set hqueue
    refine ⟨⟨Nat.succ_pos _, asqs_lt, hdepth, fun hall => ?_⟩, ?_⟩
    · obtain ⟨hhead, hphase, htags⟩ := hlapped hall
      exact ⟨hhead, hphase, htags⟩
    · dsimp only
      rw [zeroDb_oldDbs]
      exact Nat.succ_pos _
  · exact hinv

theorem procAcq_inv (hinv : BarInv s) : BarInv (procAcq memory bar s) := by
  rw [procAcq]
  split_ifs with hchanged
  · refine ⟨fun _ => rfl, fun hqueue => ?_⟩
    obtain ⟨⟨hpos, hle, -, -⟩, hold⟩ := hinv.set hqueue
    refine ⟨queueInv_resetHead hpos hle (Nat.succ_pos _), ?_⟩
    dsimp only [resetHead]
    rw [zeroDb_oldDbs_of_ne _ Nat.zero_ne_one]
    exact hold
  · exact hinv

theorem procShn_inv (hinv : BarInv s) (hrun : procShn bar s = .ok s') :
    BarInv s' := by
  dsimp only [procShn] at hrun
  split_ifs at hrun with hshn hqueue
  · cases hrun
    obtain ⟨⟨hpos, hle, hdepth, -⟩, -⟩ := hinv.set hqueue
    refine ⟨fun _ => rfl, fun _ => ?_⟩
    refine ⟨queueInv_resetHead hpos hle hdepth, ?_⟩
    dsimp only [resetHead]
    rw [zeroDb_oldDbs_of_ne _ Nat.zero_ne_one, zeroDb_oldDbs]
    exact hpos
  · cases hrun
    exact hinv

theorem procCc_inv (hinv : BarInv s) (hrun : procCc bar s = .ok s') :
    BarInv s' := by
  rw [procCc] at hrun
  split at hrun
  · split at hrun
    · cases hrun
      exact hinv
    · obtain ⟨after, hafter, hrun⟩ := bind_eq_ok hrun
      cases hrun
      have hready := hinv.withRegs s.oldBar (if bar.en = 1 then 1 else 0)
      exact (procShn_inv hready hafter).withRegs _ after.rdy
  · cases hrun
    exact hinv

theorem nvmevProcBars_inv {seen : SeenRegs} (hinv : BarInv s)
    (hrun : nvmevProcBars memory s seen = .ok s') : BarInv s' := by
  have haqa : BarInv (procAqa seen.atAqa s) := procAqa_inv hinv
  dsimp only [nvmevProcBars] at hrun
  split at hrun
  · cases hrun
    exact haqa
  · split at hrun
    · cases hrun
      exact procAsq_inv haqa
    · exact procCc_inv (procAcq_inv (procAsq_inv haqa)) hrun

/-! ## What a command leaves -/

theorem beq_not_left (left right : Bool) :
    ((!left) == right) = !(left == right) := by
  cases left <;> cases right <;> rfl

theorem procReq_inv {eid : ℕ} (hinv : QueueInv s)
    (heid : eid < s.ctrl.queue.sqDepth) (hrun : procReq s eid = .ok s') :
    QueueInv s' ∧ s'.ctrl.queue.sqDepth = s.ctrl.queue.sqDepth ∧
      s'.hasQueue = s.hasQueue := by
  obtain ⟨_, _, hrun⟩ := bind_eq_ok hrun
  obtain ⟨_, _, hrun⟩ := bind_eq_ok hrun
  obtain ⟨ctrl, hreq, hrun⟩ := bind_eq_ok hrun
  cases hrun
  have hfits : eid < 2 ^ 16 := by
    have hle := hinv.sqDepth_le
    omega
  obtain ⟨⟨entry, hpassed⟩, -⟩ := procAdminReq_passed hfits hreq
  have hsqDepth := hpassed.sqDepth_eq
  have hcqDepth := hpassed.cqDepth_eq
  refine ⟨?_, hsqDepth, rfl⟩
  refine ⟨hsqDepth.symm ▸ hinv.sqDepth_pos,
    hsqDepth.symm ▸ hinv.sqDepth_le, hcqDepth.symm ▸ hinv.cqDepth_pos,
    fun hall => ?_⟩
  -- a run of filled entries: the new one is at the head, with its phase
  obtain ⟨hearlier, hlast⟩ := List.forall_mem_append.mp hall
  have hcompletes := List.forall_mem_singleton.mp hlast
  obtain ⟨hhead, hphase, htags⟩ := hinv.lapped hearlier
  have htag : phaseTag entry = s.ctrl.queue.phase :=
    (hpassed.answers hcompletes).phase_eq
  have hlength : (s.posted ++ [entry]).length = s.posted.length + 1 := by
    rw [List.length_append, List.length_singleton]
  rw [if_pos hcompletes, hpassed.nvmeCq_head]
  exact
    { cqHead_eq := by
        dsimp only
        rw [hlength, hcqDepth]
        exact hpassed.cqHead_eq hinv.cqDepth_pos hhead
      phase_eq := by
        dsimp only
        rw [hlength, hcqDepth, lapPhase_succ hinv.cqDepth_pos, ← hhead,
          hpassed.phase_eq, hphase]
        split_ifs
        · rw [beq_not_left]
        · rfl
      tags := by
        intro number other hother
        dsimp only
        rw [hcqDepth]
        rcases getElem?_concat hother with hold | ⟨rfl, rfl⟩
        · exact htags number other hold
        · rw [htag, hphase] }

theorem reqLoop_inv {count curr : ℕ} (hinv : QueueInv s)
    (hcurr : curr < s.ctrl.queue.sqDepth)
    (hrun : reqLoop count s curr = .ok s') :
    QueueInv s' ∧ s'.ctrl.queue.sqDepth = s.ctrl.queue.sqDepth ∧
      s'.hasQueue = s.hasQueue := by
  induction count generalizing s curr with
  | zero =>
      cases hrun
      exact ⟨hinv, rfl, rfl⟩
  | succ count ih =>
      obtain ⟨after, hreq, hrun⟩ := bind_eq_ok hrun
      obtain ⟨hinv', hdepth, hqueue⟩ := procReq_inv hinv hcurr hreq
      have hnext : nextEntry after.ctrl.queue.sqDepth curr <
          after.ctrl.queue.sqDepth := by
        rw [hdepth, nextEntry]
        split_ifs with hwrap
        · exact hinv.sqDepth_pos
        · omega
      obtain ⟨hinv'', hdepth', hqueue'⟩ := ih hinv' hnext hrun
      exact ⟨hinv'', hdepth'.trans hdepth, hqueue'.trans hqueue⟩

/-- The doorbells do not matter for the queue. -/
theorem QueueInv.withDbs (hinv : QueueInv s) (dbs oldDbs : ℕ → ℕ) :
    QueueInv
      { s with ctrl := { s.ctrl with dbs := dbs, oldDbs := oldDbs } } := by
  obtain ⟨hpos, hle, hdepth, hlapped⟩ := hinv
  refine ⟨hpos, hle, hdepth, fun hall => ?_⟩
  obtain ⟨hhead, hphase, htags⟩ := hlapped hall
  exact ⟨hhead, hphase, htags⟩

theorem procAdminDb_inv {newDb : ℕ} (hinv : BarInv s)
    (hnew : newDb < s.ctrl.queue.sqDepth)
    (hrun : procAdminDb s newDb = .ok s') : BarInv s' := by
  dsimp only [procAdminDb] at hrun
  split at hrun
  · obtain ⟨_, hfollow, hrun⟩ := bind_eq_ok hrun
    obtain ⟨after, hloop, hrun⟩ := bind_eq_ok hrun
    cases hrun
    rw [follow] at hfollow
    split_ifs at hfollow with hqueue
    obtain ⟨hset, hold⟩ := hinv.set hqueue
    obtain ⟨hset', hdepth, hqueue'⟩ :=
      reqLoop_inv (hset.withDbs (Function.update s.ctrl.dbs 0 newDb)
        s.ctrl.oldDbs) hold hloop
    refine ⟨fun hnone => ?_, fun _ => ⟨hset'.withDbs _ _, ?_⟩⟩
    · cases hqueue.symm.trans (hqueue'.symm.trans hnone)
    · dsimp only
      rw [Function.update_self, hdepth]
      exact hnew
  · cases hrun
    refine ⟨hinv.unset, fun hqueue => ?_⟩
    obtain ⟨hset, hold⟩ := hinv.set hqueue
    exact ⟨hset.withDbs _ _, hold⟩

theorem barInv_of_reachable (hreach : Reachable barMachine s) : BarInv s := by
  refine hreach.invariant BarInv (fun start hinit => ?_)
    fun before action after hinv henabled hrun => ?_
  · refine ⟨fun _ => hinit.posted_eq, fun hqueue => ?_⟩
    cases hqueue.symm.trans hinit.hasQueue_eq
  · cases action with
    | write nvmeSq nvmeCq =>
        cases hrun
        refine ⟨hinv.unset, fun hqueue => ?_⟩
        obtain ⟨⟨hpos, hle, hdepth, hlapped⟩, hold⟩ := hinv.set hqueue
        refine ⟨⟨hpos, hle, hdepth, fun hall => ?_⟩, hold⟩
        obtain ⟨hhead, hphase, htags⟩ := hlapped hall
        exact ⟨hhead, hphase, htags⟩
    | procBars memory seen => exact nvmevProcBars_inv hinv hrun
    | ring newDb => exact procAdminDb_inv hinv henabled hrun

end

/-- In every run, when every command since the head was set to 0 has had its
entry filled: the entries carry the phase tags of a fresh completion queue if
and only if the phase was 1 when the head was set to 0, or nothing has been
posted since. -/
theorem tagsRight_iff {s : BarRun} (hreach : Reachable barMachine s)
    (hall : ∀ cmd ∈ s.processed, Completes cmd) :
    TagsRight s ↔ s.posted = [] ∨ s.resetPhase = true := by
  have hinv := barInv_of_reachable hreach
  cases hqueue : s.hasQueue with
  | false =>
      have hnone := hinv.unset hqueue
      refine iff_of_true (fun number entry hentry => ?_) (Or.inl hnone)
      rw [hnone] at hentry
      cases hentry
  | true =>
      obtain ⟨hset, -⟩ := hinv.set hqueue
      obtain ⟨-, -, htags⟩ := hset.lapped hall
      constructor
      · intro hright
        rw [or_iff_not_imp_left]
        intro hsome
        have hpos := List.length_pos_iff.mpr hsome
        have hfirst := List.getElem?_eq_getElem hpos
        -- the first entry carries the phase of the reset itself
        have htag := (hright 0 _ hfirst).symm.trans (htags 0 _ hfirst)
        rw [lapPhase_of_lt hset.cqDepth_pos, Bool.true_beq] at htag
        exact htag.symm
      · rintro (hnone | hphase) number entry hentry
        · rw [hnone] at hentry
          cases hentry
        · rw [htags number entry hentry, hphase, beq_true]

/-! ## A shutdown after one lap -/

/-- Queues of two entries. -/
def bootRegs : CtrlRegs :=
  { aqa := 0x10001, asq := 0x1000, acq := 0x2000, cc := 1 }

/-- The same registers with a shutdown announced. -/
def downRegs : CtrlRegs := { bootRegs with cc := 0x4001 }

def hostPages : HostMemory where
  commands := fun _ _ => identifyCommand
  entries := fun _ _ => blankEntry

/-- A controller that the host has not touched yet. -/
def powerOn : BarRun where
  ctrl := (freshRun identifyCommand).ctrl
  oldBar := { aqa := 0, asq := 0, acq := 0, cc := 0 }
  rdy := 0
  shst := 0
  hasQueue := false
  hasSq := false
  hasCq := false
  resetPhase := false
  processed := []
  posted := []

theorem powerOn_noQueue : NoQueue powerOn := ⟨rfl, rfl, rfl⟩

/-- The host sets up the controller and sends the commands of `first`.  Then it
shuts the controller down, sets it up again and sends one more command. -/
def reboot (first : List BarAction) : List BarAction :=
  .procBars hostPages bootRegs.seen :: first ++
    [.procBars hostPages downRegs.seen, .procBars hostPages bootRegs.seen,
      .ring 1]

/-- After one command before the shutdown, the phase is still 1. -/
theorem tagsRight_iff_reboot :
    ∃ s, Reachable barMachine s ∧ s.processed = [identifyCommand] ∧
      s.posted ≠ [] ∧ TagsRight s := by
  have hrun : ((barMachine.run (reboot [.ring 1]) powerOn).map fun s =>
      (s.processed, s.resetPhase, s.posted.length)) =
        some ([identifyCommand], true, 1) := by
    decide
  obtain ⟨s, hs, hshape⟩ := Option.map_eq_some_iff.mp hrun
  obtain ⟨hprocessed, hshape⟩ := Prod.mk.inj hshape
  obtain ⟨hphase, hlength⟩ := Prod.mk.inj hshape
  have hreach := (Reachable.start powerOn_noQueue).run hs
  refine ⟨s, hreach, hprocessed, ?_, (tagsRight_iff hreach ?_).mpr
    (Or.inr hphase)⟩
  · exact List.ne_nil_of_length_pos (hlength ▸ Nat.one_pos)
  · rw [hprocessed]
    decide

/-- After two commands the head has gone round once.  The first entry after
the shutdown carries the phase tag 0. -/
theorem phase_survives_shutdown :
    ∃ s, Reachable barMachine s ∧ s.ctrl.queue.cqDepth = 2 ∧
      s.processed = [identifyCommand] ∧ s.posted.map phaseTag = [false] ∧
      ¬ TagsRight s := by
  have hrun : ((barMachine.run (reboot [.ring 1, .ring 0]) powerOn).map fun s =>
      (s.ctrl.queue.cqDepth, s.processed, s.posted.map phaseTag)) =
        some (2, [identifyCommand], [false]) := by
    decide
  obtain ⟨s, hs, hshape⟩ := Option.map_eq_some_iff.mp hrun
  obtain ⟨hdepth, hshape⟩ := Prod.mk.inj hshape
  obtain ⟨hprocessed, htags⟩ := Prod.mk.inj hshape
  refine ⟨s, (Reachable.start powerOn_noQueue).run hs, hdepth, hprocessed,
    htags, fun hright => ?_⟩
  obtain ⟨entry, hposted, htag⟩ := List.map_eq_singleton_iff.mp htags
  have hfirst := hright 0 entry (by rw [hposted]; rfl)
  rw [htag, hdepth] at hfirst
  cases hfirst

end NvmeVirt.Registers
