import NvmeVirt.Zns.MgmtRecv
import NvmeVirt.Zns.Reads
import NvmeVirt.Zns.WriteCases

/-!
# Flushes of a zoned namespace

A flush completes when the device of the namespace is idle.  Every command of
the namespace reaches the dies through `ssd_advance_nand` only, with the
address of a page of a zone, and every writeback that waits for its time was
given the one of such a call.  So a flush waits for all of them.
-/

namespace NvmeVirt.ZnsFlush

open NvmeVirt.Commands
open NvmeVirt.DieTimes
open NvmeVirt.IdleTime
open NvmeVirt.Kernel
open NvmeVirt.Layout
open NvmeVirt.MgmtRecv
open NvmeVirt.MgmtSend
open NvmeVirt.Partitions
open NvmeVirt.ReadWrite
open NvmeVirt.Stripes
open NvmeVirt.Timing
open NvmeVirt.Transition
open NvmeVirt.WriteCases
open NvmeVirt.ZnsReads
open NvmeVirt.ZoneMoves
open NvmeVirt.Zones

/-! ## The commands -/

/-- A command, as `zns_proc_nvme_io_cmd` tells them apart; writes and appends
share a case. -/
inductive ZnsIo
  | write (req : RwRequest)
  | read (req : ReadRequest)
  | flush
  | mgmtSend (cmd : ZoneMgmtSend) (nsecsStart uninit : ℕ)
  | mgmtRecv (cmd : ZoneMgmtRecv) (nsecsStart : ℕ)
  | unimplemented

/-- What a command gives back to the dispatcher: whether it is accepted, `ret`,
and the writebacks it enqueued. -/
structure ZnsReply where
  accepted : Bool
  ret : NvmevResult
  writebacks : List Writeback

/-- The namespace with its report buffer. -/
structure IoState where
  zns : ZnsState
  report : ZoneReport

/-- The dispatcher hands on a command, or a worker completes a writeback. -/
inductive IoAction
  | command (io : ZnsIo) (ret : NvmevResult)
  | complete (index : ℕ)

section

variable (ns : ZnsNamespace) (lat : ReadLatency)

/-- The call of `ssd_next_idle_time` for the one part of the namespace, after
the clock was read. -/
def partIdleTime (ssd : Ssd) : ℕ × Ssd :=
  ssdNextIdleTime ns.toSsdParams (getWallclock ssd).2

/-- `zns_flush`: `latest`, and the namespace. -/
def znsFlush (s : ZnsFtl) : ℕ × ZnsFtl :=
  (max (getWallclock s.ssd).1 (partIdleTime ns s.ssd).1,
    { s with ssd := (partIdleTime ns s.ssd).2 })

/-- `zns_proc_nvme_io_cmd`.  Its assertions hold: the namespace is a zoned one
of a single part. -/
def znsProcNvmeIoCmd (s : ZnsFtl) (report : ZoneReport) (ret : NvmevResult) :
    ZnsIo → Except Fault (ZnsReply × ZnsFtl × ZoneReport)
  | .write req => do
      let (outcome, s) ← znsWrite ns s req ret
      return (⟨outcome.accepted, outcome.ret, outcome.writebacks⟩, s, report)
  | .read req => do
      let (ret, s) ← znsRead ns lat s req ret
      return (⟨true, ret, []⟩, s, report)
  | .flush =>
      .ok (⟨true, { ret with
          status := scSuccess, nsecsTarget := (znsFlush ns s).1 }, []⟩,
        (znsFlush ns s).2, report)
  | .mgmtSend cmd nsecsStart uninit => do
      let (ret, s) ← znsZmgmtSend ns uninit nsecsStart s cmd ret
      return (⟨true, ret, []⟩, s, report)
  | .mgmtRecv cmd nsecsStart => do
      let outcome ← znsZmgmtRecv ns s nsecsStart cmd report ret
      return (⟨true, outcome.ret, []⟩, s, outcome.report)
  | .unimplemented => .ok (⟨true, ret, []⟩, s, report)

def ioStep (s : IoState) : IoAction → Except Fault IoState
  | .command io ret => do
      let (reply, ftl, report) ←
        znsProcNvmeIoCmd ns lat s.zns.ftl s.report ret io
      return {
        zns := { ftl := ftl, pending := s.zns.pending ++ reply.writebacks }
        report := report }
  | .complete index => do
      let zns ← znsStep ns s.zns (.complete index)
      return { s with zns := zns }

/-- All runs of the namespace with every command it knows. -/
def ioMachine : Machine IoState IoAction Fault where
  init s := ZnsInit ns s.zns
  enabled s
    | .complete index => index < s.zns.pending.length
    | .command _ _ => True
  step := ioStep ns lat

instance (s : IoState) (action : IoAction) :
    Decidable ((ioMachine ns lat).enabled s action) :=
  match action with
  | .complete index =>
      inferInstanceAs (Decidable (index < s.zns.pending.length))
  | .command _ _ => isTrue trivial

end

/-! ## What a command does to the device -/

section

variable (ns : ZnsNamespace)

/-- A call on a page of a zone, done when it releases its die. -/
def OnPage (call : NandCall) : Prop :=
  ∃ lpn, call.ncmd.ppa = some (lpnToPpa ns lpn) ∧ EndsOnDie call.ncmd

/-- The device goes from `ssd` to `after` with these calls, and what is pending
then was pending before or waits for one of them. -/
structure Hands (ssd : Ssd) (pending : List Writeback) (calls : List NandCall)
    (after : Ssd) (pending' : List Writeback) : Prop where
  run : DeviceRun none ns.toSsdParams ssd calls after
  pages : ∀ call ∈ calls, OnPage ns call
  targets : ∀ wb ∈ pending', wb ∈ pending ∨
    ∃ call ∈ calls, call.time = wb.nsecsTarget

def Leads (ssd : Ssd) (pending : List Writeback) (after : Ssd)
    (pending' : List Writeback) : Prop :=
  ∃ calls, Hands ns ssd pending calls after pending'

end

variable {ns : ZnsNamespace} {lat : ReadLatency} {ssd mid after : Ssd}
  {pending pending' pending'' : List Writeback}

/-- What leaves the dies alone and adds no writeback. -/
theorem leads_other (hdies : after.nextLunAvailTime = ssd.nextLunAvailTime)
    (hissued : after.issued = ssd.issued)
    (hpending : ∀ wb ∈ pending', wb ∈ pending) :
    Leads ns ssd pending after pending' :=
  ⟨[], .other .start hdies hissued, List.forall_mem_nil _,
    fun wb hmem => .inl (hpending wb hmem)⟩

theorem Leads.refl (ns : ZnsNamespace) (ssd : Ssd) (pending : List Writeback) :
    Leads ns ssd pending ssd pending :=
  leads_other rfl rfl fun _ hmem => hmem

theorem Leads.trans (h : Leads ns ssd pending mid pending')
    (hmore : Leads ns mid pending' after pending'') :
    Leads ns ssd pending after pending'' := by
  obtain ⟨calls, hcalls⟩ := h
  obtain ⟨more, hrest⟩ := hmore
  refine ⟨calls ++ more, hcalls.run.trans hrest.run, ?_, fun wb hmem => ?_⟩
  · exact List.forall_mem_append.mpr ⟨hcalls.pages, hrest.pages⟩
  · obtain hold | ⟨call, hcall, htime⟩ := hrest.targets wb hmem
    · obtain hold | ⟨call, hcall, htime⟩ := hcalls.targets wb hold
      · exact .inl hold
      · exact .inr ⟨call, List.mem_append_left _ hcall, htime⟩
    · exact .inr ⟨call, List.mem_append_right _ hcall, htime⟩

/-- What waited before waits on. -/
theorem Leads.append (h : Leads ns ssd [] after pending')
    (pending : List Writeback) :
    Leads ns ssd pending after (pending ++ pending') := by
  obtain ⟨calls, hcalls⟩ := h
  refine ⟨calls, hcalls.run, hcalls.pages, fun wb hmem => ?_⟩
  obtain hold | hnew := List.mem_append.mp hmem
  · exact .inl hold
  · exact .inr ((hcalls.targets wb hnew).resolve_left List.not_mem_nil)

/-- One call, and a writeback for its time. -/
theorem leads_nand {ncmd : NandCmd} {lpn : ℕ}
    (hppa : ncmd.ppa = some (lpnToPpa ns lpn)) (hends : EndsOnDie ncmd)
    (hpending : ∀ wb ∈ pending', wb ∈ pending ∨
      (ssdAdvanceNand ns.toSsdParams ssd ncmd).1 = wb.nsecsTarget) :
    Leads ns ssd pending (ssdAdvanceNand ns.toSsdParams ssd ncmd).2
      pending' := by
  refine ⟨_, DeviceRun.nand ncmd .start, ?_, fun wb hmem => ?_⟩
  · exact List.forall_mem_singleton.mpr ⟨lpn, hppa, hends⟩
  · exact (hpending wb hmem).imp_right fun htime =>
      ⟨_, List.mem_singleton_self _, htime⟩

/-! ### Reads and programs -/

theorem leads_readPages (stime fuel lpn remaining : ℕ) (ssd : Ssd)
    (nsecsLatest : ℕ) (pending : List Writeback) :
    Leads ns ssd pending
      (readPages ns stime fuel lpn remaining ssd nsecsLatest).1 pending := by
  induction fuel generalizing lpn remaining ssd nsecsLatest with
  | zero => exact .refl _ _ _
  | succ fuel ih =>
      rw [readPages]
      split_ifs
      · exact .refl _ _ _
      · refine Leads.trans ?_ (ih _ _ _ _)
        exact @leads_nand ns ssd pending pending (pageRead ns stime lpn _) lpn
          rfl (fun _ => rfl) fun wb hmem => .inl hmem

theorem leads_programOneshot (req : RwRequest) (nsecsXferCompleted : ℕ)
    (writeBuffer : BufferId) (bufsToRelease lpn : ℕ) (p : Program) :
    Leads ns p.ssd p.writebacks
      (programOneshot ns req nsecsXferCompleted writeBuffer bufsToRelease lpn
        p).ssd
      (programOneshot ns req nsecsXferCompleted writeBuffer bufsToRelease lpn
        p).writebacks := by
  rw [programOneshot]
  apply leads_nand
  · rfl
  · intro hread
    cases hread
  · intro wb hmem
    refine (List.mem_append.mp hmem).imp_right fun hnew => ?_
    rw [List.mem_singleton.mp hnew]

theorem leads_programPages (req : RwRequest) (nsecsXferCompleted : ℕ)
    (writeBuffer : BufferId) (zoneElpn : Option ℕ) (fuel lpn remaining : ℕ)
    (p : Program) :
    Leads ns p.ssd p.writebacks
      (programPages ns req nsecsXferCompleted writeBuffer zoneElpn fuel lpn
        remaining p).ssd
      (programPages ns req nsecsXferCompleted writeBuffer zoneElpn fuel lpn
        remaining p).writebacks := by
  induction fuel generalizing lpn remaining p with
  | zero => exact .refl _ _ _
  | succ fuel ih =>
      rw [programPages]
      split_ifs
      · exact .refl _ _ _
      · -- A round that completes no oneshot page leaves the device alone.
        dsimp only
        refine Leads.trans ?_ (ih _ _ _)
        split_ifs
        · exact leads_programOneshot _ _ _ _ _ _
        · exact leads_programOneshot _ _ _ _ _ _
        · exact .refl _ _ _

/-! ### Zone management -/

section

variable {s s' : ZnsFtl} {zid status : ℕ}

theorem acquireZoneResource_ssd (s : ZnsFtl) (type : ZoneResourceType) :
    (acquireZoneResource s type).2.ssd = s.ssd := by
  rw [acquireZoneResource]
  split_ifs <;> rfl

theorem releaseActiveZone_ssd (s : ZnsFtl) (isZrwaZone : Bool) :
    (releaseActiveZone s isZrwaZone).ssd = s.ssd := by
  cases isZrwaZone <;> rfl

theorem openClosedZone_ssd (s : ZnsFtl) (zid : ℕ) (state : ZoneState) :
    (openClosedZone s zid state).2.ssd = s.ssd := by
  rw [openClosedZone]
  by_cases havail : (s.resInfos .openZone).acquiredCnt <
      (s.resInfos .openZone).totalCnt
  · rw [acquireZoneResource_of_lt havail]
    rfl
  · rw [acquireZoneResource_of_not_lt havail]
    rfl

theorem closeZone_ssd (hrun : zmgmtSendCloseZone ns s zid = .ok (status, s')) :
    s'.ssd = s.ssd := by
  obtain ⟨desc, -, hrun⟩ := bind_eq_ok hrun
  cases hstate : desc.state <;> rw [hstate] at hrun <;> cases hrun <;> rfl

theorem finishZone_ssd
    (hrun : zmgmtSendFinishZone ns s zid = .ok (status, s')) :
    s'.ssd = s.ssd := by
  obtain ⟨desc, -, hrun⟩ := bind_eq_ok hrun
  cases hstate : desc.state <;> rw [hstate] at hrun <;> cases hrun
  case openedImpl | openedExpl | closed => exact releaseActiveZone_ssd _ _
  all_goals rfl

theorem openZone_ssd {zrwa : Bool}
    (hrun : zmgmtSendOpenZone ns s zid zrwa = .ok (status, s')) :
    s'.ssd = s.ssd := by
  obtain ⟨desc, -, hrun⟩ := bind_eq_ok hrun
  cases hstate : desc.state <;> rw [hstate] at hrun
  case empty =>
    dsimp only at hrun
    split_ifs at hrun
    · cases hrun
      rfl
    · cases hrun
      rfl
    · cases hrun
      rfl
    · obtain rfl : _ = s' := congrArg Prod.snd (Except.ok.inj hrun)
      rw [openClosedZone_ssd, acquireZoneResource_ssd]
      exact acquireZoneResource_ssd s .zrwaZone
    · obtain rfl : _ = s' := congrArg Prod.snd (Except.ok.inj hrun)
      rw [openClosedZone_ssd, acquireZoneResource_ssd]
  case closed =>
    obtain rfl : _ = s' := congrArg Prod.snd (Except.ok.inj hrun)
    exact openClosedZone_ssd _ _ _
  all_goals
    cases hrun
    rfl

theorem resetZone_ssd (ns : ZnsNamespace) (s : ZnsFtl) (zid : ℕ) :
    (resetZone ns s zid).ssd = s.ssd := by
  rw [resetZone]
  split_ifs <;> rfl

theorem sendResetZone_ssd
    (hrun : zmgmtSendResetZone ns s zid = .ok (status, s')) :
    s'.ssd = s.ssd := by
  obtain ⟨desc, -, hrun⟩ := bind_eq_ok hrun
  cases hstate : desc.state <;> rw [hstate] at hrun <;> cases hrun
  case openedImpl | openedExpl | closed =>
    exact (resetZone_ssd _ _ _).trans (releaseActiveZone_ssd _ _)
  case full | empty => exact resetZone_ssd _ _ _
  all_goals rfl

theorem offlineZone_ssd
    (hrun : zmgmtSendOfflineZone ns s zid = .ok (status, s')) :
    s'.ssd = s.ssd := by
  obtain ⟨desc, -, hrun⟩ := bind_eq_ok hrun
  cases hstate : desc.state <;> rw [hstate] at hrun <;> cases hrun <;> rfl

theorem flushExplicitZrwa_ssd {slba : ℕ}
    (hrun : zmgmtSendFlushExplicitZrwa ns s slba = .ok (status, s')) :
    s'.ssd = s.ssd := by
  obtain ⟨-, rfl | ⟨-, -, -, -, hafter⟩⟩ := flushExplicitZrwa_cases hrun
  · rfl
  · split_ifs at hafter
    all_goals
      rw [hafter]
      rfl

theorem zmgmtSend_ssd {uninit slba : ℕ} {action : ZoneSendAction}
    {option : Bool}
    (hrun : zmgmtSend ns uninit s slba action option = .ok (status, s')) :
    s'.ssd = s.ssd := by
  cases action with
  | closeZone => exact closeZone_ssd hrun
  | finishZone => exact finishZone_ssd hrun
  | openZone => exact openZone_ssd hrun
  | resetZone => exact sendResetZone_ssd hrun
  | offlineZone => exact offlineZone_ssd hrun
  | flushExplZrwa => exact flushExplicitZrwa_ssd hrun
  | setZoneDescExt | reserved =>
      cases hrun
      rfl

/-- No zone management command touches the device. -/
theorem znsZmgmtSend_ssd {uninit nsecsStart : ℕ} {cmd : ZoneMgmtSend}
    {ret ret' : NvmevResult}
    (hrun : znsZmgmtSend ns uninit nsecsStart s cmd ret = .ok (ret', s')) :
    s'.ssd = s.ssd := by
  rw [znsZmgmtSend] at hrun
  cases hall : cmd.selectAll with
  | false =>
      rw [hall, if_neg (by simp)] at hrun
      obtain ⟨⟨status, after⟩, hsend, hret⟩ := bind_eq_ok hrun
      cases hret
      exact zmgmtSend_ssd hsend
  | true =>
      rw [hall, if_pos rfl] at hrun
      obtain ⟨after, hloop, hret⟩ := bind_eq_ok hrun
      cases hret
      refine foldlM_keeps ZnsFtl.ssd (fun state zid state' hstep => ?_) hloop
      obtain ⟨⟨status, after⟩, hone, hafter⟩ := bind_eq_ok hstep
      cases hafter
      exact zmgmtSend_ssd hone

end

/-! ### Writes -/

section

variable {s s' : ZnsFtl} {zid : ℕ} {req : RwRequest} {ret : NvmevResult}
  {outcome : WriteOutcome}

/-- The buffer of the device is not a die of it. -/
theorem leads_setBuffer (ns : ZnsNamespace) (s : ZnsFtl) (id : BufferId)
    (buf : Buffer) (pending : List Writeback) :
    Leads ns s.ssd pending (s.setBuffer id buf).ssd pending := by
  cases id <;> exact leads_other rfl rfl fun _ hmem => hmem

theorem leads_of_ssd (hssd : s'.ssd = s.ssd) (pending : List Writeback) :
    Leads ns s.ssd pending s'.ssd pending := by
  rw [hssd]
  exact .refl _ _ _

theorem increaseWritePtr_ssd (s : ZnsFtl) (zid nrLba : ℕ) :
    (increaseWritePtr ns s zid nrLba).ssd = s.ssd := by
  rw [increaseWritePtr]
  dsimp only
  split_ifs <;> rfl

theorem znsWriteOpen_ssd (s : ZnsFtl) (zid slba : ℕ) :
    (znsWriteOpen s zid slba).2.ssd = s.ssd := by
  rw [znsWriteOpen]
  cases (s.zoneDescs zid).state
  case empty =>
    dsimp only
    split_ifs
    · rfl
    · rfl
    · rfl
    · rw [openClosedZone_ssd, acquireZoneResource_ssd]
  case closed => exact openClosedZone_ssd _ _ _
  all_goals rfl

/-- A transfer is no work for a die. -/
theorem leads_pcie (ns : ZnsNamespace) (ssd : Ssd) (requestTime length : ℕ) :
    Leads ns ssd [] (ssdAdvancePcie ssd requestTime length).2 [] :=
  leads_other rfl rfl fun _ hmem => hmem

theorem leads_sent {requestTime length : ℕ} {sent : ℕ × Ssd}
    (hsent : ssdAdvanceWriteBuffer ns.toSsdParams ssd requestTime length =
      sent) : Leads ns ssd [] sent.2 [] := by
  rw [← hsent, ssdAdvanceWriteBuffer]
  exact leads_pcie _ _ _ _

theorem leads_writePages {nsecsXferCompleted slba : ℕ} {p : Program}
    (hpages : writePages ns ssd req zid slba = (nsecsXferCompleted, p)) :
    Leads ns ssd [] p.ssd p.writebacks := by
  rw [writePages] at hpages
  generalize hsent : ssdAdvanceWriteBuffer _ _ _ _ = sent at hpages
  obtain ⟨-, rfl⟩ := Prod.mk.inj hpages
  exact (leads_sent hsent).trans (leads_programPages _ _ _ _ _ _ _
    { ssd := sent.2, nsecsLatest := sent.1, writebacks := [], programmed := [] })

theorem leads_flushPages {nsecsXferCompleted wp nrLbas : ℕ} {p : Program}
    (hpages : flushPages ns ssd req zid wp nrLbas = (nsecsXferCompleted, p)) :
    Leads ns ssd [] p.ssd p.writebacks := by
  rw [flushPages] at hpages
  generalize hsent : ssdAdvanceWriteBuffer _ _ _ _ = sent at hpages
  obtain ⟨-, rfl⟩ := Prod.mk.inj hpages
  exact (leads_sent hsent).trans (leads_programPages _ _ _ _ _ _ _
    { ssd := sent.2, nsecsLatest := sent.1, writebacks := [], programmed := [] })

/-- The switch of `__zns_write`, after the bytes were taken. -/
theorem leads_znsWriteOpen {id : BufferId} {bytes slba status : ℕ}
    (hopen : znsWriteOpen (takeBytes s id bytes) zid slba = (status, s')) :
    Leads ns s.ssd [] s'.ssd [] := by
  have hssd := znsWriteOpen_ssd (takeBytes s id bytes) zid slba
  rw [hopen] at hssd
  exact (leads_setBuffer ns s id _ []).trans (leads_of_ssd hssd [])

theorem leads_znsWriteZone
    (hrun : znsWriteZone ns s req ret = .ok (outcome, s')) :
    Leads ns s.ssd [] s'.ssd outcome.writebacks := by
  obtain ⟨-, hcase⟩ := znsWriteZone_cases hrun
  cases hcase with
  | retry => exact .refl _ _ _
  | refused => exact leads_setBuffer _ _ _ _ _
  | unopened hroom hcheck hopen => exact leads_znsWriteOpen hopen
  | written hroom hcheck hopen hpages =>
      exact ((leads_znsWriteOpen hopen).trans
        (leads_of_ssd (increaseWritePtr_ssd _ _ _) [])).trans
          (leads_writePages hpages)

theorem leads_znsWriteZrwaOpen {status : ℕ}
    (hopen : znsWriteZrwaOpen ns s zid = .ok (status, s')) :
    Leads ns s.ssd [] s'.ssd [] := by
  rcases znsWriteZrwaOpen_cases hopen with ⟨rfl, -⟩ | ⟨-, -, -, -, -, rfl⟩
  · exact .refl _ _ _
  · exact leads_of_ssd (acquireZoneResource_ssd s .openZone) []

theorem leads_flushImplicit {nrLbas : ℕ} {moved : Bool}
    (hflush : flushImplicit ns s zid nrLbas = .ok (moved, s')) :
    Leads ns s.ssd [] s'.ssd [] := by
  rcases flushImplicit_cases hflush with ⟨-, -, rfl⟩ |
    ⟨-, -, granted, buf, -, ⟨-, -, rfl⟩ | ⟨-, -, rfl⟩⟩
  · exact .refl _ _ _
  · exact leads_setBuffer _ _ _ _ _
  · exact (leads_setBuffer ns s _ _ []).trans
      (leads_of_ssd (increaseWritePtr_ssd _ _ _) [])

theorem leads_znsWriteZrwa
    (hrun : znsWriteZrwa ns s req ret = .ok (outcome, s')) :
    Leads ns s.ssd [] s'.ssd outcome.writebacks := by
  obtain ⟨-, hcase⟩ := znsWriteZrwa_cases hrun
  cases hcase with
  | refused => exact .refl _ _ _
  | unopened hcheck hopen => exact leads_znsWriteZrwaOpen hopen
  | retry hcheck hopen hflush hfull =>
      exact (leads_znsWriteZrwaOpen hopen).trans (leads_flushImplicit hfull)
  | written hcheck hopen hflush hmoved hpages =>
      exact ((leads_znsWriteZrwaOpen hopen).trans
        (leads_flushImplicit hmoved)).trans (leads_flushPages hpages)

theorem leads_znsWrite (hrun : znsWrite ns s req ret = .ok (outcome, s')) :
    Leads ns s.ssd [] s'.ssd outcome.writebacks := by
  obtain ⟨-, ⟨-, hzone⟩ | ⟨-, hzrwa⟩⟩ := znsWrite_cases hrun
  · exact leads_znsWriteZone hzone
  · exact leads_znsWriteZrwa hzrwa

end

/-! ### Commands -/

theorem leads_znsRead {s s' : ZnsFtl} {req : ReadRequest}
    {ret ret' : NvmevResult}
    (hrun : znsRead ns lat s req ret = .ok (ret', s')) :
    Leads ns s.ssd [] s'.ssd [] := by
  obtain ⟨-, -, hssd, -⟩ := of_znsRead rfl rfl hrun
  rw [hssd]
  exact Leads.trans (leads_readPages _ _ _ _ _ _ _) (leads_pcie _ _ _ _)

theorem leads_znsFlush (ns : ZnsNamespace) (s : ZnsFtl) :
    Leads ns s.ssd [] (znsFlush ns s).2.ssd [] :=
  leads_other rfl rfl fun _ hmem => hmem

/-- The step lemma for the commands. -/
theorem leads_znsProcNvmeIoCmd {s s' : ZnsFtl} {report report' : ZoneReport}
    {ret : NvmevResult} {io : ZnsIo} {reply : ZnsReply}
    (hrun : znsProcNvmeIoCmd ns lat s report ret io =
      .ok (reply, s', report')) :
    Leads ns s.ssd [] s'.ssd reply.writebacks := by
  cases io with
  | write req =>
      obtain ⟨⟨outcome, written⟩, hwrite, hdone⟩ := bind_eq_ok hrun
      cases hdone
      exact leads_znsWrite hwrite
  | read req =>
      obtain ⟨⟨ret', after⟩, hread, hdone⟩ := bind_eq_ok hrun
      cases hdone
      exact leads_znsRead hread
  | flush =>
      cases hrun
      exact leads_znsFlush ns s
  | mgmtSend cmd nsecsStart uninit =>
      obtain ⟨⟨ret', after⟩, hsend, hdone⟩ := bind_eq_ok hrun
      cases hdone
      exact leads_of_ssd (znsZmgmtSend_ssd hsend) []
  | mgmtRecv cmd nsecsStart =>
      obtain ⟨outcome, -, hdone⟩ := bind_eq_ok hrun
      cases hdone
      exact .refl _ _ _
  | unimplemented =>
      cases hrun
      exact .refl _ _ _

/-! ## What a flush waits for -/

/-- The calls since the namespace was made, by what is pending. -/
def Handed (ns : ZnsNamespace) (s : IoState) : Prop :=
  ∃ hch hpcie clock, Leads ns (ssdInit ns.toSsdParams hch hpcie clock) []
    s.zns.ftl.ssd s.zns.pending

/-- A worker gives bytes back, and leaves the dies alone. -/
theorem leads_releaseWriteback (ns : ZnsNamespace) (s : ZnsFtl)
    (wb : Writeback) (pending : List Writeback) :
    Leads ns s.ssd pending (releaseWriteback s wb).ssd pending :=
  leads_setBuffer ns s wb.buffer _ pending

/-- The step lemma. -/
theorem Handed.step {s s' : IoState} {action : IoAction} (h : Handed ns s)
    (hstep : ioStep ns lat s action = .ok s') : Handed ns s' := by
  obtain ⟨hch, hpcie, clock, hleads⟩ := h
  refine ⟨hch, hpcie, clock, hleads.trans ?_⟩
  cases action with
  | command io ret =>
      obtain ⟨⟨reply, ftl, report⟩, hcmd, hdone⟩ := bind_eq_ok hstep
      cases hdone
      exact (leads_znsProcNvmeIoCmd hcmd).append s.zns.pending
  | complete index =>
      obtain ⟨zns, hcomplete, hdone⟩ := bind_eq_ok hstep
      cases hdone
      rw [znsStep] at hcomplete
      cases hwb : s.zns.pending[index]? with
      | none =>
          rw [hwb] at hcomplete
          cases hcomplete
          exact .refl _ _ _
      | some wb =>
          rw [hwb] at hcomplete
          cases hcomplete
          refine (leads_releaseWriteback ns s.zns.ftl wb _).trans ?_
          exact leads_other rfl rfl fun wb hmem => List.mem_of_mem_eraseIdx hmem

/-- The run lemma. -/
theorem reachable_handed {s : IoState}
    (hreach : Reachable (ioMachine ns lat) s) : Handed ns s := by
  refine hreach.invariant (Handed ns) (fun start hstart => ?_)
    fun before action after h _ hstep => h.step hstep
  obtain ⟨hch, hpcie, clock, storage, hzns⟩ := hstart
  refine ⟨hch, hpcie, clock, ?_⟩
  rw [hzns]
  exact .refl _ _ _

/-- A flush does not complete before every die is available. -/
theorem le_znsFlush (ns : ZnsNamespace) (s : ZnsFtl) {ch lun : ℕ}
    (hch : ch < ns.nchs) (hlun : lun < ns.lunsPerCh) :
    s.ssd.nextLunAvailTime ch lun ≤ (znsFlush ns s).1 :=
  ((le_ssdNextIdleTime ns.toSsdParams (getWallclock s.ssd).2).2 ch hch lun
    hlun).trans (Nat.le_max_right _ _)

/-- It completes as soon as they are. -/
theorem znsFlush_le {s : ZnsFtl} {bound : ℕ}
    (hclock : ∀ n, s.ssd.clock.readings n ≤ bound)
    (hdies : ∀ ch < ns.nchs, ∀ lun < ns.lunsPerCh,
      s.ssd.nextLunAvailTime ch lun ≤ bound) : (znsFlush ns s).1 ≤ bound :=
  Nat.max_le.mpr ⟨hclock _, ssdNextIdleTime_le (hclock _) hdies⟩

/-- What a flush at `s` waits for. -/
structure FlushWaits (ns : ZnsNamespace) (s : IoState) : Prop where
  /-- The calls since the start, and the writebacks that wait for one. -/
  waits : ∃ hch hpcie clock calls,
    DeviceRun none ns.toSsdParams (ssdInit ns.toSsdParams hch hpcie clock)
      calls s.zns.ftl.ssd ∧
    s.zns.ftl.ssd.issued = calls.map NandCall.ncmd ∧
    (CallsFit none ns.toSsdParams calls →
      (∀ call ∈ calls, call.time ≤ (znsFlush ns s.zns.ftl).1) ∧
      ∀ wb ∈ s.zns.pending, wb.nsecsTarget ≤ (znsFlush ns s.zns.ftl).1)
  /-- Nothing else but the clock. -/
  only : ∀ bound, (∀ n, s.zns.ftl.ssd.clock.readings n ≤ bound) →
    (∀ ch < ns.nchs, ∀ lun < ns.lunsPerCh,
      s.zns.ftl.ssd.nextLunAvailTime ch lun ≤ bound) →
    (znsFlush ns s.zns.ftl).1 ≤ bound

/-- In every run of commands and completions, a flush waits for every call of
`ssd_advance_nand` the run made and for every writeback that is pending, if no
time left 64 bits. -/
theorem flush_waits_for_zones (hdvd : ns.zp.diesPerZone ∣ ns.ttLuns)
    {s : IoState} (hreach : Reachable (ioMachine ns lat) s) :
    FlushWaits ns s := by
  refine ⟨?_, fun bound hclock hdies => znsFlush_le hclock hdies⟩
  obtain ⟨hch, hpcie, clock, calls, hrun, hpages, htargets⟩ :=
    reachable_handed hreach
  refine ⟨hch, hpcie, clock, calls, hrun, hrun.issued_eq, fun hfit => ?_⟩
  have htimes : ∀ call ∈ calls, call.time ≤ (znsFlush ns s.zns.ftl).1 := by
    intro call hmem
    obtain ⟨lpn, hppa, hends⟩ := hpages call hmem
    have hwaits := hrun.waitsFor hfit
      (fun ch lun hch hlun => le_znsFlush ns s.zns.ftl hch hlun) call hmem
    exact hwaits.done _ hppa (die_lt hdvd lpn) hends
  refine ⟨htimes, fun wb hmem => ?_⟩
  obtain ⟨call, hcall, htime⟩ :=
    (htargets wb hmem).resolve_left List.not_mem_nil
  rw [← htime]
  exact htimes call hcall

/-- A write of the first zone, and a flush. -/
def firstZoneWrite : RwRequest where
  sqid := 1
  nsecsStart := 1000
  opcode := .write
  slba := 0
  length := 15
  length_lt := by decide
  fua := false

def writeThenFlush : List IoAction :=
  [.command (.write firstZoneWrite) ⟨0, 0, 0⟩, .command .flush ⟨0, 0, 0⟩]

def twoZonesIo : IoState where
  zns := twoZonesStart 2
  report := emptyReport

theorem flush_waits_for_zones_write : ∃ s,
    (ioMachine (twoZones 2) ⟨0, 0⟩).run writeThenFlush twoZonesIo = some s ∧
      s.zns.pending ≠ [] ∧ FlushWaits (twoZones 2) s := by
  have hsome : ((ioMachine (twoZones 2) ⟨0, 0⟩).run writeThenFlush
      twoZonesIo).map (fun s => s.zns.pending.isEmpty) = some false := by
    decide +kernel
  obtain ⟨s, hrun, hpending⟩ := Option.map_eq_some_iff.mp hsome
  have hstart : Reachable (ioMachine (twoZones 2) ⟨0, 0⟩) twoZonesIo :=
    .start (twoZonesStart_init 2)
  have hdvd : (twoZones 2).zp.diesPerZone ∣ (twoZones 2).ttLuns := by decide
  refine ⟨s, hrun, ?_, flush_waits_for_zones hdvd (hstart.run hrun)⟩
  intro hnil
  rw [hnil] at hpending
  cases hpending

end NvmeVirt.ZnsFlush
