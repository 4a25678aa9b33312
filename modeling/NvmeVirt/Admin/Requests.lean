import NvmeVirt.Io.Worker

/-!
# Admin commands

`__nvmev_proc_admin_req` looks at the opcode of a submitted command and calls
its handler.  Each handler fills the completion entry at the head of the admin
completion queue by itself; afterwards the head moves on, whichever handler
has run.

What a handler puts into the pages of the host is left out.
-/

namespace NvmeVirt.AdminRequests

open NvmeVirt.Kernel
open NvmeVirt.Transition
open NvmeVirt.Worker

/-! ## The state -/

/-- `struct nvme_command`, as the admin handlers read it.  The commands share
the places of `dword10` and `dword11`. -/
structure AdminCommand where
  opcode : ℕ
  commandId : ℕ
  nsid : ℕ
  prp1 : ℕ
  dword10 : ℕ
  dword11 : ℕ
  deriving DecidableEq, Repr

/-- `struct nvmev_admin_queue`.  A phase of 1 is `true`. -/
structure AdminQueue where
  phase : Bool
  sqDepth : ℕ
  cqDepth : ℕ
  cqHead : ℕ
  nvmeSq : ℕ → AdminCommand
  nvmeCq : ℕ → Completion

/-- `struct nvmev_submission_queue`, as it is created. -/
structure SqInfo where
  qid : ℕ
  cqid : ℕ
  sqPriority : ℕ
  physContig : Bool
  queueSize : ℕ
  prp1 : ℕ
  deriving DecidableEq, Repr

/-- `struct nvmev_completion_queue`, as it is created. -/
structure CqInfo where
  qid : ℕ
  irqVector : ℕ
  irqEnabled : Bool
  physContig : Bool
  queueSize : ℕ
  phase : Bool
  cqHead : ℕ
  cqTail : ℤ
  prp1 : ℕ
  deriving DecidableEq, Repr

/-- What the admin handlers use of `struct nvmev_dev`.  `csi` is the command
set of every namespace. -/
structure Controller where
  queue : AdminQueue
  nrSq : ℕ
  nrCq : ℕ
  sqes : ℕ → Option SqInfo
  cqes : ℕ → Option CqInfo
  dbs : ℕ → ℕ
  oldDbs : ℕ → ℕ
  nrNs : ℕ
  csi : ℕ → ℕ

/-- `NR_MAX_IO_QUEUE`. -/
def nrMaxIoQueue : ℕ := 72

/-- `NVME_SC_SUCCESS`. -/
def scSuccess : ℕ := 0x0

/-- `NVME_SC_ASYNC_LIMIT`. -/
def scAsyncLimit : ℕ := 0x105

/-- `NVME_FEAT_NUM_QUEUES`. -/
def featNumQueues : ℕ := 0x07

/-- `NVME_CSI_ZNS`. -/
def csiZns : ℕ := 0x2

/-- The second of two 16-bit fields. -/
def highWord (dword : ℕ) : ℕ := u16 (dword / 2 ^ 16)

/-- The cases of the switch on `common.opcode`. -/
inductive AdminOpcode
  | deleteSq
  | createSq
  | getLogPage
  | deleteCq
  | createCq
  | identify
  | abortCmd
  | setFeatures
  | getFeatures
  | asyncEvent
  | unhandled
  deriving DecidableEq, Repr

def adminOpcode : ℕ → AdminOpcode
  | 0x00 => .deleteSq
  | 0x01 => .createSq
  | 0x02 => .getLogPage
  | 0x04 => .deleteCq
  | 0x05 => .createCq
  | 0x06 => .identify
  | 0x08 => .abortCmd
  | 0x09 => .setFeatures
  | 0x0a => .getFeatures
  | 0x0c => .asyncEvent
  | _ => .unhandled

section

variable (ctrl : Controller) (eid cqHead : ℕ)

/-- The end of a handler: the assignments to `cq_entry(cq_head)`. -/
def fillEntry (status : ℕ) : Controller :=
  let queue := ctrl.queue
  let entry : Completion :=
    { queue.nvmeCq cqHead with
      commandId := (queue.nvmeSq eid).commandId
      sqId := 0
      sqHead := u16 eid
      status := u16 (queue.phase.toNat ||| status <<< 1) }
  { ctrl with
    queue := { queue with
      nvmeCq := Function.update queue.nvmeCq cqHead entry } }

/-- The assignment to `cq_entry(cq_head).result0`. -/
def setResult0 (result0 : ℕ) : Controller :=
  let queue := ctrl.queue
  { ctrl with
    queue := { queue with
      nvmeCq := Function.update queue.nvmeCq cqHead
        { queue.nvmeCq cqHead with result0 := result0 } } }

/-- An access to `sqes[qid]` or `cqes[qid]`. -/
def checkQid (qid : ℕ) : Except Fault Unit :=
  if qid ≤ nrMaxIoQueue then .ok () else .error .outOfBounds

/-- An access to `ns[nsid - 1]`. -/
def checkNsid (nsid : ℕ) : Except Fault Unit :=
  if sub32 nsid 1 < ctrl.nrNs then .ok () else .error .outOfBounds

/-! ## The handlers -/

/-- `__nvmev_admin_create_cq`. -/
def createCq : Except Fault Controller := do
  let cmd := ctrl.queue.nvmeSq eid
  let qid := u16 cmd.dword10
  let cqFlags := u16 cmd.dword11
  let cq : CqInfo :=
    { qid := qid
      irqVector := if cqFlags.testBit 1 then highWord cmd.dword11 else 0
      irqEnabled := cqFlags.testBit 1
      physContig := cqFlags.testBit 0
      queueSize := highWord cmd.dword10 + 1
      phase := true
      cqHead := 0
      cqTail := -1
      prp1 := cmd.prp1 }
  checkQid qid
  let created : Controller :=
    { ctrl with
      cqes := Function.update ctrl.cqes qid (some cq)
      dbs := Function.update ctrl.dbs (qid * 2 + 1) 0
      oldDbs := Function.update ctrl.oldDbs (qid * 2 + 1) 0 }
  return fillEntry created eid cqHead scSuccess

/-- `__nvmev_admin_delete_cq`. -/
def deleteCq : Except Fault Controller := do
  let qid := u16 (ctrl.queue.nvmeSq eid).dword10
  checkQid qid
  let deleted : Controller :=
    { ctrl with cqes := Function.update ctrl.cqes qid none }
  return fillEntry deleted eid cqHead scSuccess

/-- `__nvmev_admin_create_sq`. -/
def createSq : Except Fault Controller := do
  let cmd := ctrl.queue.nvmeSq eid
  let qid := u16 cmd.dword10
  let sqFlags := u16 cmd.dword11
  let sq : SqInfo :=
    { qid := qid
      cqid := highWord cmd.dword11
      sqPriority := sqFlags &&& 0xFFFE
      physContig := sqFlags.testBit 0
      queueSize := highWord cmd.dword10 + 1
      prp1 := cmd.prp1 }
  checkQid qid
  let created : Controller :=
    { ctrl with
      sqes := Function.update ctrl.sqes qid (some sq)
      dbs := Function.update ctrl.dbs (qid * 2) 0
      oldDbs := Function.update ctrl.oldDbs (qid * 2) 0 }
  return fillEntry created eid cqHead scSuccess

/-- `__nvmev_admin_delete_sq`. -/
def deleteSq : Except Fault Controller := do
  let qid := u16 (ctrl.queue.nvmeSq eid).dword10
  checkQid qid
  let deleted : Controller :=
    { ctrl with sqes := Function.update ctrl.sqes qid none }
  return fillEntry deleted eid cqHead scSuccess

/-- `__nvmev_admin_get_log_page`. -/
def getLogPage : Except Fault Controller :=
  .ok (fillEntry ctrl eid cqHead scSuccess)

/-- `__nvmev_admin_identify_ctrl`. -/
def identifyCtrl : Except Fault Controller :=
  .ok (fillEntry ctrl eid cqHead scSuccess)

/-- `__nvmev_admin_identify_namespace`. -/
def identifyNamespace : Except Fault Controller := do
  checkNsid ctrl (ctrl.queue.nvmeSq eid).nsid
  return fillEntry ctrl eid cqHead scSuccess

/-- `__nvmev_admin_identify_namespaces`. -/
def identifyNamespaces : Except Fault Controller :=
  .ok (fillEntry ctrl eid cqHead scSuccess)

/-- `__nvmev_admin_identify_namespace_desc`. -/
def identifyNamespaceDesc : Except Fault Controller := do
  checkNsid ctrl (ctrl.queue.nvmeSq eid).nsid
  return fillEntry ctrl eid cqHead scSuccess

/-- `__nvmev_admin_identify_zns_namespace`. -/
def identifyZnsNamespace : Except Fault Controller := do
  let nsid := (ctrl.queue.nvmeSq eid).nsid
  checkNsid ctrl nsid
  nvmevAssert (ctrl.csi (sub32 nsid 1) = csiZns)
  return fillEntry ctrl eid cqHead scSuccess

/-- `__nvmev_admin_identify_zns_ctrl`. -/
def identifyZnsCtrl : Except Fault Controller :=
  .ok (fillEntry ctrl eid cqHead scSuccess)

/-- `__nvmev_admin_set_features`. -/
def setFeatures : Except Fault Controller :=
  let cmd := ctrl.queue.nvmeSq eid
  if cmd.dword10 = featNumQueues then
    let nrSq := min (u16 cmd.dword11 + 1) nrMaxIoQueue
    let nrCq := min (highWord cmd.dword11 + 1) nrMaxIoQueue
    let counted : Controller :=
      setResult0 { ctrl with nrSq := nrSq, nrCq := nrCq } cqHead
        ((nrCq - 1) <<< 16 ||| (nrSq - 1))
    .ok (fillEntry counted eid cqHead scSuccess)
  else
    .ok (fillEntry ctrl eid cqHead scSuccess)

/-- `__nvmev_admin_get_features`, which is empty. -/
def getFeatures : Except Fault Controller := .ok ctrl

/-- The case `nvme_admin_async_event`. -/
def asyncEvent : Except Fault Controller :=
  .ok (fillEntry (setResult0 ctrl cqHead 0) eid cqHead scAsyncLimit)

/-- The switch on `identify.cns`. -/
def identify : Except Fault Controller :=
  match (ctrl.queue.nvmeSq eid).dword10 with
  | 0x00 => identifyNamespace ctrl eid cqHead
  | 0x01 => identifyCtrl ctrl eid cqHead
  | 0x02 => identifyNamespaces ctrl eid cqHead
  | 0x03 => identifyNamespaceDesc ctrl eid cqHead
  | 0x05 => identifyZnsNamespace ctrl eid cqHead
  | 0x06 => identifyZnsCtrl ctrl eid cqHead
  | _ => .ok ctrl

/-- The switch on `common.opcode`. -/
def handle : Except Fault Controller :=
  match adminOpcode (ctrl.queue.nvmeSq eid).opcode with
  | .deleteSq => deleteSq ctrl eid cqHead
  | .createSq => createSq ctrl eid cqHead
  | .getLogPage => getLogPage ctrl eid cqHead
  | .deleteCq => deleteCq ctrl eid cqHead
  | .createCq => createCq ctrl eid cqHead
  | .identify => identify ctrl eid cqHead
  | .abortCmd => .ok ctrl
  | .setFeatures => setFeatures ctrl eid cqHead
  | .getFeatures => getFeatures ctrl
  | .asyncEvent => asyncEvent ctrl eid cqHead
  | .unhandled => .ok ctrl

end

/-- The head of the completion queue moves on. -/
def advanceHead (queue : AdminQueue) (cqHead : ℕ) : AdminQueue :=
  if cqHead + 1 = queue.cqDepth then
    { queue with cqHead := 0, phase := !queue.phase }
  else
    { queue with cqHead := cqHead + 1 }

/-- `__nvmev_proc_admin_req`. -/
def procAdminReq (ctrl : Controller) (entryId : ℕ) :
    Except Fault Controller := do
  let cqHead := ctrl.queue.cqHead
  let ctrl ← handle ctrl entryId cqHead
  return { ctrl with queue := advanceHead ctrl.queue cqHead }

/-! ## What a handler leaves -/

/-- The phase tag of a completion entry. -/
def phaseTag (entry : Completion) : Bool := entry.status.testBit 0

/-- The commands that have a handler which fills the completion entry. -/
def Completes (cmd : AdminCommand) : Prop :=
  match adminOpcode cmd.opcode with
  | .abortCmd | .getFeatures | .unhandled => False
  | .identify => cmd.dword10 ≤ 6 ∧ cmd.dword10 ≠ 4
  | _ => True

instance (cmd : AdminCommand) : Decidable (Completes cmd) := by
  unfold Completes
  split <;> infer_instance

/-- The queue or the namespace that a command names exists, and is of the
command set whose data are asked for. -/
def InRange (nrNs : ℕ) (csi : ℕ → ℕ) (cmd : AdminCommand) : Prop :=
  match adminOpcode cmd.opcode with
  | .deleteSq | .createSq | .deleteCq | .createCq =>
      u16 cmd.dword10 ≤ nrMaxIoQueue
  | .identify =>
      (cmd.dword10 = 0 ∨ cmd.dword10 = 3 ∨ cmd.dword10 = 5 →
        sub32 cmd.nsid 1 < nrNs) ∧
      (cmd.dword10 = 5 → csi (sub32 cmd.nsid 1) = csiZns)
  | _ => True

instance (nrNs : ℕ) (csi : ℕ → ℕ) (cmd : AdminCommand) :
    Decidable (InRange nrNs csi cmd) := by
  unfold InRange
  split <;> infer_instance

/-- The entry answers the command in `eid` with this phase tag. -/
structure Answers (phase : Bool) (eid : ℕ) (cmd : AdminCommand)
    (entry : Completion) : Prop where
  commandId_eq : entry.commandId = cmd.commandId
  sqId_eq : entry.sqId = 0
  sqHead_eq : entry.sqHead = eid
  phase_eq : phaseTag entry = phase

/-- The queue after the entry at the head has been filled. -/
def Filled (queue : AdminQueue) (eid cqHead : ℕ) (queue' : AdminQueue) :
    Prop :=
  ∃ entry, Answers queue.phase eid (queue.nvmeSq eid) entry ∧
    queue' = { queue with
      nvmeCq := Function.update queue.nvmeCq cqHead entry }

theorem phaseTag_status (phase : Bool) (status : ℕ) :
    (u16 (phase.toNat ||| status <<< 1)).testBit 0 = phase := by
  rw [u16, Nat.testBit_mod_two_pow, Nat.testBit_or, Nat.testBit_shiftLeft]
  cases phase <;> rfl

section

variable {ctrl ctrl' : Controller} {eid cqHead : ℕ}

theorem fillEntry_filled (heid : eid < 2 ^ 16) (status : ℕ) :
    Filled ctrl.queue eid cqHead
      (fillEntry ctrl eid cqHead status).queue := by
  refine ⟨_, ?_, rfl⟩
  exact
    { commandId_eq := rfl
      sqId_eq := rfl
      sqHead_eq := Nat.mod_eq_of_lt heid
      phase_eq := phaseTag_status ctrl.queue.phase status }

theorem setResult0_filled {result0 : ℕ} {queue' : AdminQueue}
    (hfilled : Filled (setResult0 ctrl cqHead result0).queue eid cqHead
      queue') : Filled ctrl.queue eid cqHead queue' := by
  obtain ⟨entry, hanswers, rfl⟩ := hfilled
  refine ⟨entry, hanswers, ?_⟩
  dsimp only [setResult0]
  rw [Function.update_idem]

theorem bind_check {check : Except Fault Unit} {next : Controller} :
    (∃ ctrl', (check >>= fun _ => pure next) = .ok ctrl') ↔ check = .ok () := by
  cases check with
  | error fault => exact iff_of_false (fun ⟨_, h⟩ => nomatch h) nofun
  | ok value => exact iff_of_true ⟨next, rfl⟩ rfl

theorem checkQid_iff (qid : ℕ) : checkQid qid = .ok () ↔ qid ≤ nrMaxIoQueue := by
  rw [checkQid]
  split_ifs with hqid <;> simp [hqid]

theorem checkNsid_iff (ctrl : Controller) (nsid : ℕ) :
    checkNsid ctrl nsid = .ok () ↔ sub32 nsid 1 < ctrl.nrNs := by
  rw [checkNsid]
  split_ifs with hnsid <;> simp [hnsid]

/-- The handlers of identify end for the namespaces of the device, and for its
zoned ones. -/
theorem identify_ok_iff :
    (∃ ctrl', identify ctrl eid cqHead = .ok ctrl') ↔
      ((ctrl.queue.nvmeSq eid).dword10 = 0 ∨
          (ctrl.queue.nvmeSq eid).dword10 = 3 ∨
          (ctrl.queue.nvmeSq eid).dword10 = 5 →
        sub32 (ctrl.queue.nvmeSq eid).nsid 1 < ctrl.nrNs) ∧
      ((ctrl.queue.nvmeSq eid).dword10 = 5 →
        ctrl.csi (sub32 (ctrl.queue.nvmeSq eid).nsid 1) = csiZns) := by
  rw [identify]
  split <;> rename_i hcns
  · rw [hcns, identifyNamespace, bind_check, checkNsid_iff]
    simp
  · rw [hcns]
    exact iff_of_true ⟨_, rfl⟩ (by simp)
  · rw [hcns]
    exact iff_of_true ⟨_, rfl⟩ (by simp)
  · rw [hcns, identifyNamespaceDesc, bind_check, checkNsid_iff]
    simp
  · rw [hcns, identifyZnsNamespace]
    by_cases hnsid : sub32 (ctrl.queue.nvmeSq eid).nsid 1 < ctrl.nrNs
    · rw [(checkNsid_iff ctrl _).mpr hnsid, ok_bind, bind_check, nvmevAssert]
      simp [hnsid]
    · rw [checkNsid, if_neg hnsid]
      simp [hnsid]
  · rw [hcns]
    exact iff_of_true ⟨_, rfl⟩ (by simp)
  · exact iff_of_true ⟨_, rfl⟩ (by simp_all)

/-- A command is handled when what it names is there; the accesses of the
other ones are out of bounds, or an assertion fails. -/
theorem handle_ok_iff :
    (∃ ctrl', handle ctrl eid cqHead = .ok ctrl') ↔
      InRange ctrl.nrNs ctrl.csi (ctrl.queue.nvmeSq eid) := by
  rw [handle, InRange]
  cases adminOpcode (ctrl.queue.nvmeSq eid).opcode with
  | deleteSq => exact bind_check.trans (checkQid_iff _)
  | createSq => exact bind_check.trans (checkQid_iff _)
  | deleteCq => exact bind_check.trans (checkQid_iff _)
  | createCq => exact bind_check.trans (checkQid_iff _)
  | identify => exact identify_ok_iff
  | setFeatures =>
      dsimp only [setFeatures]
      split_ifs <;> simp
  | getLogPage | abortCmd | getFeatures | asyncEvent | unhandled =>
      exact iff_of_true ⟨_, rfl⟩ trivial

/-- No handler changes the namespaces. -/
theorem handle_keeps (hrun : handle ctrl eid cqHead = .ok ctrl') :
    ctrl'.nrNs = ctrl.nrNs ∧ ctrl'.csi = ctrl.csi := by
  rw [handle] at hrun
  cases hopcode : adminOpcode (ctrl.queue.nvmeSq eid).opcode <;>
    rw [hopcode] at hrun
  case deleteSq | createSq | deleteCq | createCq =>
    obtain ⟨_, _, hrun⟩ := bind_eq_ok hrun
    cases hrun
    exact ⟨rfl, rfl⟩
  case identify =>
    dsimp only at hrun
    rw [identify] at hrun
    split at hrun
    case h_1 | h_4 =>
      obtain ⟨_, _, hrun⟩ := bind_eq_ok hrun
      cases hrun
      exact ⟨rfl, rfl⟩
    case h_5 =>
      obtain ⟨_, _, hrun⟩ := bind_eq_ok hrun
      obtain ⟨_, _, hrun⟩ := bind_eq_ok hrun
      cases hrun
      exact ⟨rfl, rfl⟩
    all_goals
      cases hrun
      exact ⟨rfl, rfl⟩
  case setFeatures =>
    dsimp only [setFeatures] at hrun
    split_ifs at hrun <;> cases hrun <;> exact ⟨rfl, rfl⟩
  all_goals
    cases hrun
    exact ⟨rfl, rfl⟩

/-- A command that is not handled leaves everything as it is. -/
theorem handle_not_completes
    (hnot : ¬ Completes (ctrl.queue.nvmeSq eid)) :
    handle ctrl eid cqHead = .ok ctrl := by
  rw [handle]
  rw [Completes] at hnot
  cases hopcode : adminOpcode (ctrl.queue.nvmeSq eid).opcode <;>
    rw [hopcode] at hnot
  case getFeatures => rfl
  case identify =>
    dsimp only at hnot ⊢
    rw [identify]
    split <;> first | rfl | omega
  all_goals exact absurd trivial hnot

theorem identify_filled (heid : eid < 2 ^ 16)
    (hcns : (ctrl.queue.nvmeSq eid).dword10 ≤ 6 ∧
      (ctrl.queue.nvmeSq eid).dword10 ≠ 4)
    (hrun : identify ctrl eid cqHead = .ok ctrl') :
    Filled ctrl.queue eid cqHead ctrl'.queue := by
  rw [identify] at hrun
  generalize (ctrl.queue.nvmeSq eid).dword10 = cns at hcns hrun
  obtain rfl | rfl | rfl | rfl | rfl | rfl : cns = 0 ∨ cns = 1 ∨ cns = 2 ∨
      cns = 3 ∨ cns = 5 ∨ cns = 6 := by omega
  · obtain ⟨_, _, hrun⟩ := bind_eq_ok hrun
    cases hrun
    exact fillEntry_filled heid _
  · cases hrun
    exact fillEntry_filled heid _
  · cases hrun
    exact fillEntry_filled heid _
  · obtain ⟨_, _, hrun⟩ := bind_eq_ok hrun
    cases hrun
    exact fillEntry_filled heid _
  · obtain ⟨_, _, hrun⟩ := bind_eq_ok hrun
    obtain ⟨_, _, hrun⟩ := bind_eq_ok hrun
    cases hrun
    exact fillEntry_filled heid _
  · cases hrun
    exact fillEntry_filled heid _

/-- Every handler that is called for a command fills the entry at the head. -/
theorem handle_filled (heid : eid < 2 ^ 16)
    (hcompletes : Completes (ctrl.queue.nvmeSq eid))
    (hrun : handle ctrl eid cqHead = .ok ctrl') :
    Filled ctrl.queue eid cqHead ctrl'.queue := by
  rw [handle] at hrun
  rw [Completes] at hcompletes
  cases hopcode : adminOpcode (ctrl.queue.nvmeSq eid).opcode <;>
    rw [hopcode] at hcompletes hrun
  case deleteSq =>
    obtain ⟨_, _, hrun⟩ := bind_eq_ok hrun
    cases hrun
    exact fillEntry_filled heid _
  case createSq =>
    obtain ⟨_, _, hrun⟩ := bind_eq_ok hrun
    cases hrun
    exact fillEntry_filled heid _
  case getLogPage =>
    cases hrun
    exact fillEntry_filled heid _
  case deleteCq =>
    obtain ⟨_, _, hrun⟩ := bind_eq_ok hrun
    cases hrun
    exact fillEntry_filled heid _
  case createCq =>
    obtain ⟨_, _, hrun⟩ := bind_eq_ok hrun
    cases hrun
    exact fillEntry_filled heid _
  case identify => exact identify_filled heid hcompletes hrun
  case setFeatures =>
    dsimp only [setFeatures] at hrun
    split_ifs at hrun
    · cases hrun
      exact setResult0_filled (fillEntry_filled heid _)
    · cases hrun
      exact fillEntry_filled heid _
  case asyncEvent =>
    cases hrun
    exact setResult0_filled (fillEntry_filled heid _)
  all_goals exact hcompletes.elim

end

end NvmeVirt.AdminRequests
