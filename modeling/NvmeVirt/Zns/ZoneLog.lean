import NvmeVirt.Core.Tiling
import NvmeVirt.Zns.WritePointers

/-!
# A zone is a log

The host knows of a zone which writes to it were accepted and where they
start: a write says so itself, and an append learns it from its result.  As
long as a zone has no random write area, the writes since it was last empty
lie end to end from its start to its write pointer, in the order in which they
were accepted.
-/

namespace NvmeVirt.ZoneLog

open NvmeVirt.Commands
open NvmeVirt.Kernel
open NvmeVirt.MgmtSend
open NvmeVirt.ReadWrite
open NvmeVirt.Resources
open NvmeVirt.Tiling
open NvmeVirt.Timing
open NvmeVirt.Transition
open NvmeVirt.WriteCases
open NvmeVirt.WritePointers
open NvmeVirt.ZoneMoves
open NvmeVirt.Zones

/-! ## The log -/

/-- The namespace, and the accepted writes of each zone since it was empty,
oldest first, each with its start and its number of blocks. -/
structure LoggedState where
  zns : ZnsState
  log : ℕ → List (ℕ × ℕ)

/-- Where the host takes a write to start. -/
def hostStart (req : RwRequest) (outcome : WriteOutcome) : ℕ :=
  match req.opcode with
  | .zoneAppend => outcome.ret.result
  | .write => req.slba

/-- The blocks of a write that ended with success. -/
def pieceOf (req : RwRequest) (outcome : WriteOutcome) : List (ℕ × ℕ) :=
  if outcome.accepted = true ∧ outcome.ret.status = scSuccess then
    [(hostStart req outcome, req.nrLba)]
  else []

/-- An empty zone has no log. -/
def keptLog (s : ZnsFtl) (log : ℕ → List (ℕ × ℕ)) (zid : ℕ) : List (ℕ × ℕ) :=
  if (s.zoneDescs zid).state = .empty then [] else log zid

section

variable (ns : ZnsNamespace)

/-- The log after a write. -/
def writeLog (log : ℕ → List (ℕ × ℕ)) (req : RwRequest)
    (outcome : WriteOutcome) : ℕ → List (ℕ × ℕ) :=
  Function.update log (lbaToZone ns req.slba)
    (log (lbaToZone ns req.slba) ++ pieceOf req outcome)

/-- A step of the namespace, with the log kept. -/
def loggedStep (s : LoggedState) : ZnsAction → Except Fault LoggedState
  | .write req ret => do
      let (outcome, ftl) ← znsWrite ns s.zns.ftl req ret
      return {
        zns := { ftl := ftl, pending := s.zns.pending ++ outcome.writebacks }
        log := keptLog ftl (writeLog ns s.log req outcome) }
  | action => do
      let zns ← znsStep ns s.zns action
      return { zns := zns, log := keptLog zns.ftl s.log }

/-- All runs, with their logs. -/
def loggedMachine : Machine LoggedState ZnsAction Fault where
  init s := (znsMachine ns).init s.zns ∧ s.log = fun _ => []
  enabled s := (znsMachine ns).enabled s.zns
  step := loggedStep ns

end

section

variable {ns : ZnsNamespace} {s s' : LoggedState} {action : ZnsAction}

/-- The log does not change what the namespace does. -/
theorem of_loggedStep (hstep : loggedStep ns s action = .ok s') :
    znsStep ns s.zns action = .ok s'.zns := by
  cases action with
  | write req ret =>
      obtain ⟨⟨outcome, ftl⟩, hrun, hafter⟩ := bind_eq_ok hstep
      cases hafter
      rw [znsStep, hrun]
      rfl
  | mgmtSend | complete =>
      obtain ⟨zns, hrun, hafter⟩ := bind_eq_ok hstep
      cases hafter
      exact hrun

theorem reachable_zns (hreach : Reachable (loggedMachine ns) s) :
    Reachable (znsMachine ns) s.zns := by
  induction hreach with
  | start hinit => exact .start hinit.1
  | next _ henabled hstep ih => exact ih.next henabled (of_loggedStep hstep)

/-- Every run has its log. -/
theorem exists_log {zns : ZnsState} (hreach : Reachable (znsMachine ns) zns) :
    ∃ log, Reachable (loggedMachine ns) { zns := zns, log := log } := by
  induction hreach with
  | start hinit => exact ⟨_, .start ⟨hinit, rfl⟩⟩
  | @next before after action _ henabled hstep ih =>
      obtain ⟨log, hlog⟩ := ih
      suffices h : ∃ log', loggedStep ns { zns := before, log := log } action =
          .ok { zns := after, log := log' } by
        obtain ⟨log', hrun⟩ := h
        exact ⟨log', hlog.next henabled hrun⟩
      cases action with
      | write req ret =>
          obtain ⟨⟨outcome, ftl⟩, hrun, hafter⟩ := bind_eq_ok hstep
          cases hafter
          exact ⟨_, bind_eq_ok_of hrun rfl⟩
      | mgmtSend | complete => exact ⟨_, bind_eq_ok_of hstep rfl⟩

end

/-! ## Management commands -/

/-- What a command does to a descriptor, as far as the log goes: a reset
empties the zone or leaves it; any other action leaves the write pointer, unless
the zone has a random write area. -/
def Effect (action : ZoneSendAction) (desc desc' : ZoneDescriptor) : Prop :=
  match action with
  | .resetZone => desc' = desc ∨ desc'.state = .empty
  | _ => desc'.zrwav = true ∨ desc.zrwav = false ∧ desc'.wp = desc.wp

theorem Effect.refl (action : ZoneSendAction) (desc : ZoneDescriptor) :
    Effect action desc desc := by
  cases action
  case resetZone => exact .inl rfl
  all_goals
    cases hzrwav : desc.zrwav with
    | true => exact .inl hzrwav
    | false => exact .inr ⟨hzrwav, rfl⟩

theorem Effect.trans {action : ZoneSendAction}
    {desc desc' desc'' : ZoneDescriptor} (h : Effect action desc desc')
    (h' : Effect action desc' desc'') : Effect action desc desc'' := by
  cases action
  case resetZone =>
    obtain rfl | hempty := h'
    · exact h
    · exact .inr hempty
  all_goals
    obtain hzrwav | ⟨hzrwav, hwp⟩ := h'
    · exact .inl hzrwav
    · obtain hbefore | ⟨hbefore, hmiddle⟩ := h
      · rw [hzrwav] at hbefore
        cases hbefore
      · exact .inr ⟨hbefore, hwp.trans hmiddle⟩

section

variable {ns : ZnsNamespace} {s s' : ZnsFtl} {zid : ℕ}
  {action : ZoneSendAction}

/-- A command that rewrites one descriptor. -/
theorem effect_of_update {desc : ZoneDescriptor}
    (hdescs : s'.zoneDescs = Function.update s.zoneDescs zid desc)
    (heffect : Effect action (s.zoneDescs zid) desc) (other : ℕ) :
    Effect action (s.zoneDescs other) (s'.zoneDescs other) := by
  rw [hdescs]
  by_cases heq : other = zid
  · subst heq
    rw [Function.update_self]
    exact heffect
  · rw [Function.update_of_ne heq]
    exact .refl action _

/-- A change of state alone. -/
theorem effect_of_state (haction : action ≠ .resetZone) {state : ZoneState}
    (hdescs : s'.zoneDescs = Function.update s.zoneDescs zid
      { s.zoneDescs zid with state := state }) (other : ℕ) :
    Effect action (s.zoneDescs other) (s'.zoneDescs other) := by
  refine effect_of_update hdescs ?_ other
  cases action
  case resetZone => exact absurd rfl haction
  all_goals exact Effect.refl .closeZone (s.zoneDescs zid)

theorem openClosedZone_effect (state : ZoneState) (other : ℕ) :
    Effect .openZone (s.zoneDescs other)
      ((openClosedZone s zid state).2.zoneDescs other) := by
  rw [openClosedZone]
  by_cases havail : (s.resInfos .openZone).acquiredCnt <
      (s.resInfos .openZone).totalCnt
  · rw [acquireZoneResource_of_lt havail]
    exact effect_of_state (by decide) rfl other
  · rw [acquireZoneResource_of_not_lt havail]
    exact .refl _ _

/-- A change of a zone with a random write area. -/
theorem effect_of_zrwav (haction : action ≠ .resetZone) {desc : ZoneDescriptor}
    (hzrwav : desc.zrwav = true)
    (hdescs : s'.zoneDescs = Function.update s.zoneDescs zid desc)
    (other : ℕ) : Effect action (s.zoneDescs other) (s'.zoneDescs other) := by
  refine effect_of_update hdescs ?_ other
  cases action
  case resetZone => exact absurd rfl haction
  all_goals exact Or.inl hzrwav

/-- A reset. -/
theorem effect_of_empty {desc : ZoneDescriptor} (hempty : desc.state = .empty)
    (hdescs : s'.zoneDescs = Function.update s.zoneDescs zid desc)
    (other : ℕ) :
    Effect .resetZone (s.zoneDescs other) (s'.zoneDescs other) := by
  refine effect_of_update hdescs ?_ other
  exact Or.inr hempty

theorem closeZone_effect {status : ℕ}
    (hrun : zmgmtSendCloseZone ns s zid = .ok (status, s')) (other : ℕ) :
    Effect .closeZone (s.zoneDescs other) (s'.zoneDescs other) := by
  obtain ⟨desc, hdesc, hrun⟩ := bind_eq_ok hrun
  obtain ⟨-, rfl⟩ := of_zoneDesc hdesc
  cases hstate : (s.zoneDescs zid).state <;> rw [hstate] at hrun <;> cases hrun
  case openedImpl | openedExpl => exact effect_of_state (by decide) rfl other
  all_goals exact .refl _ _

theorem finishZone_effect {status : ℕ}
    (hrun : zmgmtSendFinishZone ns s zid = .ok (status, s')) (other : ℕ) :
    Effect .finishZone (s.zoneDescs other) (s'.zoneDescs other) := by
  obtain ⟨desc, hdesc, hrun⟩ := bind_eq_ok hrun
  obtain ⟨-, rfl⟩ := of_zoneDesc hdesc
  cases hstate : (s.zoneDescs zid).state <;> rw [hstate] at hrun <;> cases hrun
  case full | readOnly | offline => exact .refl _ _
  all_goals
    refine @effect_of_state s _ zid _ (by decide) .full ?_ other
    simp

theorem openZone_effect {status : ℕ} {zrwa : Bool}
    (hrun : zmgmtSendOpenZone ns s zid zrwa = .ok (status, s')) (other : ℕ) :
    Effect .openZone (s.zoneDescs other) (s'.zoneDescs other) := by
  obtain ⟨desc, hdesc, hrun⟩ := bind_eq_ok hrun
  obtain ⟨-, rfl⟩ := of_zoneDesc hdesc
  cases hstate : (s.zoneDescs zid).state <;> rw [hstate] at hrun
  case empty =>
    dsimp only at hrun
    split_ifs at hrun
    · cases hrun
      exact .refl _ _
    · cases hrun
      exact .refl _ _
    · cases hrun
      exact .refl _ _
    · -- The zone gets its random write area first.
      obtain rfl : _ = s' := congrArg Prod.snd (Except.ok.inj hrun)
      refine Effect.trans ?_ (openClosedZone_effect .openedExpl other)
      rw [acquireZoneResource_zoneDescs]
      refine @effect_of_zrwav s _ zid _ (by decide)
        { s.zoneDescs zid with zrwav := true } rfl ?_ other
      simp
    · obtain rfl : _ = s' := congrArg Prod.snd (Except.ok.inj hrun)
      refine Effect.trans ?_ (openClosedZone_effect .openedExpl other)
      rw [acquireZoneResource_zoneDescs]
      exact .refl _ _
  case closed =>
    obtain rfl : _ = s' := congrArg Prod.snd (Except.ok.inj hrun)
    exact openClosedZone_effect .openedExpl other
  case openedImpl =>
    cases hrun
    exact effect_of_state (by decide) rfl other
  all_goals
    cases hrun
    exact .refl _ _

theorem resetZone_effect {status : ℕ}
    (hrun : zmgmtSendResetZone ns s zid = .ok (status, s')) (other : ℕ) :
    Effect .resetZone (s.zoneDescs other) (s'.zoneDescs other) := by
  obtain ⟨desc, hdesc, hrun⟩ := bind_eq_ok hrun
  obtain ⟨-, rfl⟩ := of_zoneDesc hdesc
  cases hstate : (s.zoneDescs zid).state <;> rw [hstate] at hrun <;> cases hrun
  case readOnly | offline => exact .refl _ _
  all_goals
    refine @effect_of_empty s _ zid { s.zoneDescs zid with
      state := .empty, wp := (s.zoneDescs zid).zslba, zrwav := false } rfl ?_
      other
    rw [resetZone_zoneDescs]
    simp

theorem offlineZone_effect {status : ℕ}
    (hrun : zmgmtSendOfflineZone ns s zid = .ok (status, s')) (other : ℕ) :
    Effect .offlineZone (s.zoneDescs other) (s'.zoneDescs other) := by
  obtain ⟨desc, hdesc, hrun⟩ := bind_eq_ok hrun
  obtain ⟨-, rfl⟩ := of_zoneDesc hdesc
  cases hstate : (s.zoneDescs zid).state <;> rw [hstate] at hrun <;> cases hrun
  case readOnly => exact effect_of_state (by decide) rfl other
  all_goals exact .refl _ _

theorem flushExplicitZrwa_effect {slba status : ℕ}
    (hrun : zmgmtSendFlushExplicitZrwa ns s slba = .ok (status, s'))
    (other : ℕ) :
    Effect .flushExplZrwa (s.zoneDescs other) (s'.zoneDescs other) := by
  obtain ⟨-, rfl | ⟨hzrwav, -, -, -, hafter⟩⟩ := flushExplicitZrwa_cases hrun
  · exact .refl _ _
  · generalize lbaToZone ns slba = zid at *
    have hdescs : ∃ state, s'.zoneDescs = Function.update s.zoneDescs zid
        { s.zoneDescs zid with wp := u64 (slba + 1), state := state } := by
      split_ifs at hafter
      · exact ⟨.full, by rw [hafter]; simp⟩
      · exact ⟨.full, by rw [hafter]; simp⟩
      · exact ⟨(s.zoneDescs zid).state, by rw [hafter]; rfl⟩
    obtain ⟨state, hdescs⟩ := hdescs
    refine effect_of_zrwav (by decide) ?_ hdescs other
    exact hzrwav

theorem zmgmtSend_effect {uninit slba status : ℕ} {option : Bool}
    (hrun : zmgmtSend ns uninit s slba action option = .ok (status, s'))
    (other : ℕ) : Effect action (s.zoneDescs other) (s'.zoneDescs other) := by
  cases action with
  | closeZone => exact closeZone_effect hrun other
  | finishZone => exact finishZone_effect hrun other
  | openZone => exact openZone_effect hrun other
  | resetZone => exact resetZone_effect hrun other
  | offlineZone => exact offlineZone_effect hrun other
  | flushExplZrwa => exact flushExplicitZrwa_effect hrun other
  | setZoneDescExt | reserved =>
      cases hrun
      exact .refl _ _

/-- Any Zone Management Send command, on one zone or on all. -/
theorem znsZmgmtSend_effect {uninit nsecsStart : ℕ} {cmd : ZoneMgmtSend}
    {ret ret' : NvmevResult}
    (hrun : znsZmgmtSend ns uninit nsecsStart s cmd ret = .ok (ret', s'))
    (other : ℕ) :
    Effect cmd.zsa (s.zoneDescs other) (s'.zoneDescs other) := by
  rw [znsZmgmtSend] at hrun
  cases hall : cmd.selectAll with
  | false =>
      rw [hall, if_neg (by simp)] at hrun
      obtain ⟨⟨status, after⟩, hsend, hret⟩ := bind_eq_ok hrun
      cases hret
      exact zmgmtSend_effect hsend other
  | true =>
      rw [hall, if_pos rfl] at hrun
      obtain ⟨after, hloop, hret⟩ := bind_eq_ok hrun
      cases hret
      clear hrun
      generalize List.range ns.zp.nrZones = zids at hloop
      induction zids generalizing s with
      | nil =>
          cases hloop
          exact .refl _ _
      | cons zid zids ih =>
          rw [List.foldlM_cons] at hloop
          obtain ⟨middle, hfirst, hrest⟩ := bind_eq_ok hloop
          obtain ⟨⟨status, _⟩, hone, hmiddle⟩ := bind_eq_ok hfirst
          cases hmiddle
          exact (zmgmtSend_effect hone other).trans (ih hrest)

end

/-! ## Writes -/

section

variable {ns : ZnsNamespace} {s s' : ZnsFtl} {zid : ℕ} {req : RwRequest}
  {ret : NvmevResult} {outcome : WriteOutcome}

/-- Only one zone changes, and whether it has a random write area does not. -/
structure Local (zid : ℕ) (s s' : ZnsFtl) : Prop where
  others : ∀ other, other ≠ zid → s'.zoneDescs other = s.zoneDescs other
  zrwav : (s'.zoneDescs zid).zrwav = (s.zoneDescs zid).zrwav

theorem Local.of_eq (hdescs : s'.zoneDescs = s.zoneDescs) : Local zid s s' :=
  ⟨fun _ _ => by rw [hdescs], by rw [hdescs]⟩

theorem Local.of_update {desc : ZoneDescriptor}
    (hdescs : s'.zoneDescs = Function.update s.zoneDescs zid desc)
    (hzrwav : desc.zrwav = (s.zoneDescs zid).zrwav) : Local zid s s' := by
  refine ⟨fun other hother => ?_, ?_⟩
  · rw [hdescs, Function.update_of_ne hother]
  · rw [hdescs, Function.update_self, hzrwav]

theorem Local.trans {s'' : ZnsFtl} (h : Local zid s s')
    (h' : Local zid s' s'') : Local zid s s'' :=
  ⟨fun other hother => (h'.others other hother).trans (h.others other hother),
    h'.zrwav.trans h.zrwav⟩

theorem increaseWritePtr_local (s : ZnsFtl) (zid nrLba : ℕ) :
    Local zid s (increaseWritePtr ns s zid nrLba) :=
  .of_update (increaseWritePtr_zoneDescs zid nrLba) rfl

theorem znsWriteZrwaOpen_local {status : ℕ}
    (hopen : znsWriteZrwaOpen ns s zid = .ok (status, s')) :
    Local zid s s' := by
  rcases znsWriteZrwaOpen_cases hopen with ⟨rfl, -⟩ | ⟨-, -, havail, -, -, rfl⟩
  · exact .of_eq rfl
  · rw [acquireZoneResource_of_lt havail]
    exact .of_update rfl rfl

theorem flushImplicit_local {nrLbas : ℕ} {moved : Bool}
    (hflush : flushImplicit ns s zid nrLbas = .ok (moved, s')) :
    Local zid s s' := by
  rcases flushImplicit_cases hflush with ⟨-, -, rfl⟩ |
    ⟨-, -, granted, buf, -, ⟨-, -, rfl⟩ | ⟨-, -, rfl⟩⟩
  · exact .of_eq rfl
  · exact .of_eq (setBuffer_zoneDescs _ _ _)
  · exact Local.trans (.of_eq (setBuffer_zoneDescs _ _ _))
      (increaseWritePtr_local _ _ _)

theorem znsWriteZrwa_local
    (hrun : znsWriteZrwa ns s req ret = .ok (outcome, s')) :
    Local (lbaToZone ns req.slba) s s' := by
  obtain ⟨-, hcase⟩ := znsWriteZrwa_cases hrun
  cases hcase with
  | refused => exact .of_eq rfl
  | unopened hcheck hopen => exact znsWriteZrwaOpen_local hopen
  | retry hcheck hopen hflush hfull =>
      exact (znsWriteZrwaOpen_local hopen).trans (flushImplicit_local hfull)
  | written hcheck hopen hflush hmoved =>
      exact ((znsWriteZrwaOpen_local hopen).trans
        (flushImplicit_local hmoved)).trans (.of_eq rfl)

/-- The host learns the start of a write that went through. -/
theorem hostStart_writeOutcome {desc : ZoneDescriptor}
    (hwp : startLba req desc = desc.wp) (nsecsXferCompleted : ℕ)
    (p : Program) :
    hostStart req (writeOutcome ns req (appendRet req desc ret)
      (startLba req desc) nsecsXferCompleted p) = desc.wp := by
  rw [startLba] at hwp
  rw [hostStart, writeOutcome, completeRet, appendRet]
  cases hopcode : req.opcode with
  | write =>
      rw [hopcode] at hwp
      exact hwp
  | zoneAppend => rfl

/-- A write to a zone without a random write area leaves all zones and adds
nothing to the log, or it adds its blocks at the write pointer. -/
theorem znsWriteZone_piece
    (hrun : znsWriteZone ns s req ret = .ok (outcome, s')) :
    (s'.zoneDescs = s.zoneDescs ∧ pieceOf req outcome = []) ∨
    (Local (lbaToZone ns req.slba) s s' ∧
      pieceOf req outcome =
        [((s.zoneDescs (lbaToZone ns req.slba)).wp, req.nrLba)] ∧
      (s'.zoneDescs (lbaToZone ns req.slba)).wp =
        u64 ((s.zoneDescs (lbaToZone ns req.slba)).wp + u32 req.nrLba)) := by
  obtain ⟨-, hcase⟩ := znsWriteZone_cases hrun
  generalize lbaToZone ns req.slba = zid at *
  cases hcase with
  | retry => exact .inl ⟨rfl, rfl⟩
  | refused hroom hcheck =>
      refine .inl ⟨takeBytes_zoneDescs _ _ _, if_neg ?_⟩
      rintro ⟨-, hstatus⟩
      exact hcheck hstatus
  | unopened hroom hcheck hopen hstatus =>
      obtain ⟨hdescs, -⟩ := znsWriteOpen_failed hopen hstatus
      refine .inl ⟨hdescs.trans (takeBytes_zoneDescs _ _ _), if_neg ?_⟩
      rintro ⟨-, hsuccess⟩
      exact hstatus hsuccess
  | @written s₁ _ p hroom hcheck hopen hpages =>
      right
      obtain ⟨-, -, hwp⟩ := of_znsWriteCheck hcheck
      obtain ⟨⟨state, -, hdesc⟩, -, -, hothers⟩ := znsWriteOpen_success hopen
      rw [takeBytes_zoneDescs] at hdesc hothers
      have hopened : Local zid s s₁ := ⟨hothers, by rw [hdesc]⟩
      refine ⟨(hopened.trans (increaseWritePtr_local s₁ zid req.nrLba)).trans
        (.of_eq rfl), ?_, ?_⟩
      · rw [pieceOf, if_pos ⟨rfl, rfl⟩, hostStart_writeOutcome hwp]
      · show ((increaseWritePtr ns s₁ zid req.nrLba).zoneDescs zid).wp = _
        rw [increaseWritePtr_zoneDescs, Function.update_self, movedTo, hdesc]

end

/-! ## Runs -/

section

variable {ns : ZnsNamespace} {s s' : LoggedState} {action : ZnsAction}

/-- The log of a zone without a random write area ends at its write pointer. -/
def Logged (desc : ZoneDescriptor) (log : List (ℕ × ℕ)) : Prop :=
  desc.zrwav = false → Tiled desc.zslba log desc.wp

/-- What a management command does to the log of a zone. -/
theorem Logged.effect {action : ZoneSendAction} {desc desc' : ZoneDescriptor}
    {log : List (ℕ × ℕ)} (h : Logged desc log)
    (heffect : Effect action desc desc') (hzslba : desc'.zslba = desc.zslba)
    (hempty : desc'.state ≠ .empty) : Logged desc' log := by
  intro hzrwav
  rw [hzslba]
  cases action
  case resetZone =>
    obtain rfl | hreset := heffect
    · exact h hzrwav
    · exact absurd hreset hempty
  all_goals
    obtain htrue | ⟨hbefore, hwp⟩ := heffect
    · rw [hzrwav] at htrue
      cases htrue
    · rw [hwp]
      exact h hbefore

theorem keptLog_of_ne {ftl : ZnsFtl} {log : ℕ → List (ℕ × ℕ)} {zid : ℕ}
    (hne : (ftl.zoneDescs zid).state ≠ .empty) :
    keptLog ftl log zid = log zid := if_neg hne

theorem log_of_empty (hstep : loggedStep ns s action = .ok s') {zid : ℕ}
    (hempty : (s'.zns.ftl.zoneDescs zid).state = .empty) :
    s'.log zid = [] := by
  cases action with
  | write req ret =>
      obtain ⟨⟨outcome, ftl⟩, hrun, hafter⟩ := bind_eq_ok hstep
      cases hafter
      exact if_pos hempty
  | mgmtSend | complete =>
      obtain ⟨zns, hrun, hafter⟩ := bind_eq_ok hstep
      cases hafter
      exact if_pos hempty

/-- What a write does to the log of a zone. -/
theorem Logged.write {ftl ftl' : ZnsFtl} {log : ℕ → List (ℕ × ℕ)}
    {req : RwRequest} {ret : NvmevResult} {outcome : WriteOutcome} {zid : ℕ}
    (h : Logged (ftl.zoneDescs zid) (log zid))
    (hwp : (ftl.zoneDescs zid).wp < 2 ^ 60)
    (hzslba : (ftl'.zoneDescs zid).zslba = (ftl.zoneDescs zid).zslba)
    (hrun : znsWrite ns ftl req ret = .ok (outcome, ftl')) :
    Logged (ftl'.zoneDescs zid) (writeLog ns log req outcome zid) := by
  obtain ⟨-, hcase⟩ := znsWrite_cases hrun
  by_cases hself : zid = lbaToZone ns req.slba
  · subst hself
    rw [writeLog, Function.update_self]
    rcases hcase with ⟨hzrwav, hwrite⟩ | ⟨hzrwav, hwrite⟩
    · rcases znsWriteZone_piece hwrite with ⟨hdescs, hpiece⟩ |
        ⟨hlocal, hpiece, hmoved⟩
      · rw [hdescs, hpiece, List.append_nil]
        exact h
      · intro _
        have hnr := RwRequest.nrLba_le req
        rw [u64_add_u32 hwp (by omega)] at hmoved
        rw [hpiece, hmoved, hzslba]
        exact (h hzrwav).concat req.nrLba
    · intro hafter
      rw [(znsWriteZrwa_local hwrite).zrwav, hzrwav] at hafter
      cases hafter
  · rw [writeLog, Function.update_of_ne hself]
    have hother : ftl'.zoneDescs zid = ftl.zoneDescs zid := by
      rcases hcase with ⟨-, hwrite⟩ | ⟨-, hwrite⟩
      · rcases znsWriteZone_piece hwrite with ⟨hdescs, -⟩ | ⟨hlocal, -⟩
        · rw [hdescs]
        · exact hlocal.others zid hself
      · exact (znsWriteZrwa_local hwrite).others zid hself
    rw [hother]
    exact h

/-- One step keeps the logs. -/
theorem Logged.step (hlbas : ns.zp.nrZones * lbasPerZone ns < 2 ^ 32)
    {zid : ℕ} (hzid : zid < ns.zp.nrZones)
    (hplaced : Placed ns zid (s.zns.ftl.zoneDescs zid))
    (hplaced' : Placed ns zid (s'.zns.ftl.zoneDescs zid))
    (h : Logged (s.zns.ftl.zoneDescs zid) (s.log zid))
    (hstep : loggedStep ns s action = .ok s') :
    Logged (s'.zns.ftl.zoneDescs zid) (s'.log zid) := by
  have hzslba : (s'.zns.ftl.zoneDescs zid).zslba =
      (s.zns.ftl.zoneDescs zid).zslba :=
    hplaced'.zslba_eq.trans hplaced.zslba_eq.symm
  by_cases hempty : (s'.zns.ftl.zoneDescs zid).state = .empty
  · -- The write pointer of an empty zone is at its start.
    intro _
    rw [log_of_empty hstep hempty]
    exact (hplaced'.of_empty hempty).1.symm
  cases action with
  | write req ret =>
      obtain ⟨⟨outcome, ftl⟩, hrun, hafter⟩ := bind_eq_ok hstep
      cases hafter
      have hle := hplaced.wp_le
      have hslba := hplaced.zslba_eq
      have hcapacity := hplaced.capacity_eq
      have hlt := zone_end_lt hlbas hzid
      show Logged _ (keptLog _ _ zid)
      rw [keptLog_of_ne hempty]
      exact h.write (by omega) hzslba hrun
  | mgmtSend cmd nsecsStart uninit ret =>
      obtain ⟨zns, hrun, hafter⟩ := bind_eq_ok hstep
      cases hafter
      obtain ⟨⟨ret', ftl⟩, hsend, hdone⟩ := bind_eq_ok hrun
      cases hdone
      show Logged _ (keptLog _ _ zid)
      rw [keptLog_of_ne hempty]
      exact h.effect (znsZmgmtSend_effect hsend zid) hzslba hempty
  | complete index =>
      obtain ⟨zns, hrun, hafter⟩ := bind_eq_ok hstep
      cases hafter
      have hsame : zns.ftl.zoneDescs = s.zns.ftl.zoneDescs := by
        rw [znsStep] at hrun
        cases hwb : s.zns.pending[index]? with
        | none =>
            rw [hwb] at hrun
            cases hrun
            rfl
        | some wb =>
            rw [hwb] at hrun
            cases hrun
            exact setBuffer_zoneDescs _ _ _
      show Logged _ (keptLog _ _ zid)
      rw [keptLog_of_ne hempty, hsame]
      exact h

/-- In every run of fewer than `2 ^ 32` blocks, the accepted writes to a zone
without a random write area, since the zone was last empty, lie end to end from
its start to its write pointer: later writes lie behind earlier ones, and each
block ahead of the write pointer, and no other, is in one of them. -/
theorem zone_is_log (hlbas : ns.zp.nrZones * lbasPerZone ns < 2 ^ 32)
    (hzrwa : ns.zp.lbasPerZrwafg ≤ ns.zp.lbasPerZrwa)
    (hreach : Reachable (loggedMachine ns) s) :
    ∀ zid < ns.zp.nrZones, (s.zns.ftl.zoneDescs zid).zrwav = false →
      Tiled (s.zns.ftl.zoneDescs zid).zslba (s.log zid)
        (s.zns.ftl.zoneDescs zid).wp ∧
      (s.log zid).Pairwise
        (fun piece later => piece.1 + piece.2 ≤ later.1) ∧
      ∀ lba, Covers (s.log zid) lba ↔
        (s.zns.ftl.zoneDescs zid).zslba ≤ lba ∧
          lba < (s.zns.ftl.zoneDescs zid).wp := by
  have hlogged : ∀ zid < ns.zp.nrZones,
      Logged (s.zns.ftl.zoneDescs zid) (s.log zid) := by
    induction hreach with
    | start hinit =>
        obtain ⟨⟨hch, hpcie, clock, storage, hzns⟩, hlog⟩ := hinit
        intro zid _ _
        rw [hzns, hlog]
        rfl
    | next hreach henabled hstep ih =>
        have hbefore := reachable_zns hreach
        have hafter := hbefore.next henabled (of_loggedStep hstep)
        intro zid hzid
        exact (ih zid hzid).step hlbas hzid
          (reachable_placed hlbas hzrwa hbefore zid hzid)
          (reachable_placed hlbas hzrwa hafter zid hzid) hstep
  intro zid hzid hzrwav
  have htiled := hlogged zid hzid hzrwav
  exact ⟨htiled, htiled.pairwise, htiled.covers_iff⟩

end

instance (ns : ZnsNamespace) (s : LoggedState) (action : ZnsAction) :
    Decidable ((loggedMachine ns).enabled s action) :=
  inferInstanceAs (Decidable ((znsMachine ns).enabled s.zns action))

/-- An append of a page to the first zone. -/
def appendPage : RwRequest where
  sqid := 1
  nsecsStart := 1
  opcode := .zoneAppend
  slba := 0
  length := 7
  length_lt := by decide
  fua := false

def twoAppends : List ZnsAction :=
  [.write appendPage ⟨0, 0, 0⟩, .write appendPage ⟨0, 0, 0⟩]

def twoZonesLogged : LoggedState where
  zns := twoZonesStart 2
  log := fun _ => []

theorem twoAppends_run :
    ((loggedMachine (twoZones 2)).run twoAppends twoZonesLogged).map
      (fun s => (s.log 0, (s.zns.ftl.zoneDescs 0).zrwav)) =
      some ([(0, 8), (8, 8)], false) := by
  decide +kernel

/-- Two appends fill the zone. -/
theorem zone_is_log_appends : ∃ s,
    (loggedMachine (twoZones 2)).run twoAppends twoZonesLogged = some s ∧
      s.log 0 = [(0, 8), (8, 8)] ∧ Covers (s.log 0) 9 := by
  obtain ⟨s, hrun, hlog⟩ := Option.map_eq_some_iff.mp twoAppends_run
  obtain ⟨hlog, hzrwav⟩ := Prod.mk.inj hlog
  have hstart : Reachable (loggedMachine (twoZones 2)) twoZonesLogged :=
    .start ⟨twoZonesStart_init 2, rfl⟩
  obtain ⟨htiled, -, hcovers⟩ := zone_is_log (by decide) (by decide)
    (hstart.run hrun) 0 (by decide) hzrwav
  rw [hlog] at htiled
  obtain ⟨hslba, -, hend⟩ := htiled
  have hwp : _ + 8 + 8 = (s.zns.ftl.zoneDescs 0).wp := hend
  refine ⟨s, hrun, hlog, (hcovers 9).mpr ?_⟩
  omega

end NvmeVirt.ZoneLog
