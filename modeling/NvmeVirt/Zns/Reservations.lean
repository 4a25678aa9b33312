import NvmeVirt.Zns.Resets
import NvmeVirt.Zns.WriteStatus

/-!
# The account of a ZRWA buffer

A write that opens a closed zone reserves another random write area in the ZRWA
buffer of the zone, and asserts that it fits.  Closing the zone gives nothing
back, and neither does a later flush: only a reset refills the buffer.  The
account of a zone keeps what happened since its last reset.  It is no part of
the program, and in every run it tells exactly how many bytes the buffer has
left.
-/

namespace NvmeVirt.Reservations

open NvmeVirt.Buffers
open NvmeVirt.Commands
open NvmeVirt.FailedWrites
open NvmeVirt.Kernel
open NvmeVirt.Layout
open NvmeVirt.MgmtSend
open NvmeVirt.ReadWrite
open NvmeVirt.Resets
open NvmeVirt.Resources
open NvmeVirt.Timing
open NvmeVirt.Transition
open NvmeVirt.WriteCases
open NvmeVirt.WriteStatus
open NvmeVirt.ZoneMoves
open NvmeVirt.Zones

/-! ## Accounts -/

/-- What happened to the ZRWA buffer of a zone since its last reset: how often
a write opened the zone, the bytes its implicit flushes reserved, and the bytes
completed writebacks gave back. -/
structure ZrwaAccount where
  reopened : ℕ
  flushed : ℕ
  released : ℕ
  deriving DecidableEq, Repr

/-- The account of a buffer that is completely free. -/
def freshAccount : ZrwaAccount := ⟨0, 0, 0⟩

section

variable (ns : ZnsNamespace)

/-- What was reserved, together with `bytes` more, is within the buffer and
what came back. -/
def Fits (account : ZrwaAccount) (bytes : ℕ) : Prop :=
  account.reopened * ns.zp.zrwaSize + account.flushed + bytes ≤
    ns.zp.zrwaBufferSize + account.released

instance (account : ZrwaAccount) (bytes : ℕ) :
    Decidable (Fits ns account bytes) := inferInstanceAs (Decidable (_ ≤ _))

/-- An implicit flush reserves all of its bytes, or none. -/
def reserveFlush (account : ZrwaAccount) (bytes : ℕ) : ZrwaAccount :=
  if Fits ns account bytes then
    { account with flushed := account.flushed + bytes }
  else account

/-- The bytes of the implicit flush of a write. -/
def flushBytes (s : ZnsFtl) (req : RwRequest) : ℕ :=
  match nrLbasFlush ns (lbaToZone ns req.slba)
    (s.zoneDescs (lbaToZone ns req.slba)).wp
    (lastLba req.slba req.nrLba) with
  | .ok nrLbas => lbaToByte nrLbas
  | .error _ => 0

/-- The write passes the checks on a zone with a random write area. -/
def Admitted (s : ZnsFtl) (req : RwRequest) : Prop :=
  (s.zoneDescs (lbaToZone ns req.slba)).zrwav = true ∧
    znsWriteZrwaCheck ns (s.zoneDescs (lbaToZone ns req.slba)) req.slba
      req.nrLba = scSuccess

instance (s : ZnsFtl) (req : RwRequest) : Decidable (Admitted ns s req) :=
  inferInstanceAs (Decidable (_ ∧ _))

/-- The account of the zone after a write. -/
def accountWrite (s : ZnsFtl) (req : RwRequest) (account : ZrwaAccount) :
    ZrwaAccount :=
  if Admitted ns s req then
    match (s.zoneDescs (lbaToZone ns req.slba)).state with
    | .openedImpl | .openedExpl =>
        reserveFlush ns account (flushBytes ns s req)
    | .closed =>
        if isZoneResourceAvail s .openZone = true then
          reserveFlush ns { account with reopened := account.reopened + 1 }
            (flushBytes ns s req)
        else account
    | .empty | .readOnly | .full | .offline => account
  else account

/-- The command resets the zone. -/
def ResetsZone (cmd : ZoneMgmtSend) (zid : ℕ) : Prop :=
  cmd.zsa = .resetZone ∧
    if cmd.selectAll = true then
      ∃ other ∈ List.range ns.zp.nrZones,
        lbaToZone ns (zoneToSlba ns other) = zid
    else lbaToZone ns cmd.slba = zid

instance (cmd : ZoneMgmtSend) (zid : ℕ) :
    Decidable (ResetsZone ns cmd zid) :=
  inferInstanceAs (Decidable (_ ∧ _))

/-- The accounts after an action. -/
def accountAction (state : ZnsState) (accounts : ℕ → ZrwaAccount) :
    ZnsAction → ℕ → ZrwaAccount
  | .write req _ =>
      Function.update accounts (lbaToZone ns req.slba)
        (accountWrite ns state.ftl req (accounts (lbaToZone ns req.slba)))
  | .mgmtSend cmd _ _ _ =>
      fun zid => if ResetsZone ns cmd zid then freshAccount else accounts zid
  | .complete index =>
      match state.pending[index]? with
      | some ⟨_, _, .zrwa zid, bytes⟩ =>
          Function.update accounts zid
            { accounts zid with released := (accounts zid).released + bytes }
      | _ => accounts

/-- The namespace together with the accounts of its zones. -/
structure LedgerState where
  zns : ZnsState
  accounts : ℕ → ZrwaAccount

/-- All runs, with the accounts kept beside them. -/
def ledgerMachine : Machine LedgerState ZnsAction Fault where
  init state := ZnsInit ns state.zns ∧ state.accounts = fun _ => freshAccount
  enabled state := (znsMachine ns).enabled state.zns
  step state action := do
    let zns ← znsStep ns state.zns action
    return ⟨zns, accountAction ns state.zns state.accounts action⟩

end

section

variable {ns : ZnsNamespace}

/-- The accounts do not change the runs. -/
theorem ledger_reachable {state : LedgerState}
    (hreach : Reachable (ledgerMachine ns) state) :
    Reachable (znsMachine ns) state.zns := by
  induction hreach with
  | start hinit => exact .start hinit.1
  | next _ henabled hstep ih =>
      obtain ⟨zns, hrun, hafter⟩ := bind_eq_ok hstep
      cases hafter
      exact ih.next henabled hrun

/-- Every run has its accounts. -/
theorem reachable_ledger {state : ZnsState}
    (hreach : Reachable (znsMachine ns) state) :
    ∃ accounts, Reachable (ledgerMachine ns) ⟨state, accounts⟩ := by
  induction hreach with
  | start hinit => exact ⟨_, .start ⟨hinit, rfl⟩⟩
  | @next before after action _ henabled hstep ih =>
      obtain ⟨accounts, hledger⟩ := ih
      refine ⟨accountAction ns before accounts action,
        hledger.next henabled ?_⟩
      rw [ledgerMachine]
      dsimp only
      rw [show znsStep ns before action = .ok after from hstep]
      rfl

/-! ## Balances -/

/-- The account tells how many bytes the buffer has left. -/
def Balanced (ns : ZnsNamespace) (buf : Buffer) (account : ZrwaAccount) :
    Prop :=
  buf.remaining + (account.reopened * ns.zp.zrwaSize + account.flushed) =
    ns.zp.zrwaBufferSize + account.released

variable {buf : Buffer} {account : ZrwaAccount}

theorem Balanced.fits_iff (h : Balanced ns buf account) {bytes : ℕ} :
    Fits ns account bytes ↔ bytes ≤ buf.remaining := by
  rw [Balanced] at h
  rw [Fits]
  omega

theorem Balanced.reserve (h : Balanced ns buf account) (bytes : ℕ) :
    Balanced ns (bufferAllocate buf bytes).2
      (reserveFlush ns account bytes) := by
  rw [reserveFlush]
  split_ifs with hfits
  · have hroom := h.fits_iff.mp hfits
    rw [bufferAllocate_of_le hroom]
    rw [Balanced] at h ⊢
    dsimp only
    omega
  · have hroom : ¬ bytes ≤ buf.remaining := fun hle =>
      hfits (h.fits_iff.mpr hle)
    rw [bufferAllocate_of_lt (Nat.lt_of_not_le hroom)]
    exact h

theorem Balanced.reopen (h : Balanced ns buf account)
    (hroom : ns.zp.zrwaSize ≤ buf.remaining) :
    Balanced ns { buf with remaining := buf.remaining - ns.zp.zrwaSize }
      { account with reopened := account.reopened + 1 } := by
  rw [Balanced] at h ⊢
  dsimp only
  rw [Nat.succ_mul]
  omega

theorem Balanced.release (h : Balanced ns buf account) (bytes : ℕ) :
    Balanced ns (bufferRelease buf bytes)
      { account with released := account.released + bytes } := by
  rw [Balanced] at h ⊢
  rw [bufferRelease]
  dsimp only
  omega

theorem Balanced.refill (hsize : buf.size = ns.zp.zrwaBufferSize) :
    Balanced ns (bufferRefill buf) freshAccount := by
  rw [Balanced, bufferRefill, freshAccount]
  dsimp only
  omega

end

/-! ## Writes -/

section

variable {ns : ZnsNamespace} {s s' : ZnsFtl} {req : RwRequest}
  {ret : NvmevResult} {outcome : WriteOutcome} {account : ZrwaAccount}

/-- What the switch of `__zns_write_zrwa` does to the account. -/
def accountOpen (s : ZnsFtl) (zid : ℕ) (account : ZrwaAccount) :
    ZrwaAccount :=
  if (s.zoneDescs zid).state = .closed then
    { account with reopened := account.reopened + 1 }
  else account

theorem znsWriteZrwaOpen_balanced {zid : ℕ}
    (hempty : (s.zoneDescs zid).state ≠ .empty)
    (hbalanced : Balanced ns (s.buffer (.zrwa zid)) account)
    (hopen : znsWriteZrwaOpen ns s zid = .ok (scSuccess, s')) :
    Balanced ns (s'.buffer (.zrwa zid)) (accountOpen s zid account) := by
  rw [accountOpen]
  rcases znsWriteZrwaOpen_cases hopen with ⟨rfl, hopened⟩ |
    ⟨-, hclosed | hstate, havail, -, hroom, rfl⟩
  · have hopened := hopened rfl
    rw [if_neg fun hclosed => by rw [hclosed] at hopened; cases hopened]
    exact hbalanced
  · rw [if_pos hclosed, changeZoneState_buffer, takeBytes_buffer, if_pos rfl,
      acquireZoneResource_buffer]
    exact hbalanced.reopen hroom
  · exact absurd hstate hempty

theorem accountWrite_of_opens {zid : ℕ} (hzone : lbaToZone ns req.slba = zid)
    (hadmitted : Admitted ns s req)
    (hopen : znsWriteZrwaOpen ns s zid = .ok (scSuccess, s'))
    (hempty : (s.zoneDescs zid).state ≠ .empty) {nrLbas : ℕ}
    (hflush : nrLbasFlush ns zid (s.zoneDescs zid).wp
      (lastLba req.slba req.nrLba) = .ok nrLbas) :
    accountWrite ns s req account =
      reserveFlush ns (accountOpen s zid account) (lbaToByte nrLbas) := by
  have hbytes : flushBytes ns s req = lbaToByte nrLbas := by
    rw [flushBytes, hzone, hflush]
  rw [accountWrite, if_pos hadmitted, hzone, hbytes, accountOpen]
  rcases znsWriteZrwaOpen_cases hopen with ⟨rfl, hopened⟩ |
    ⟨-, hclosed | hstate, havail, -⟩
  · have hopened := hopened rfl
    cases hstate : (s'.zoneDescs zid).state <;> rw [hstate] at hopened <;>
      first | rfl | cases hopened
  · rw [hclosed]
    exact if_pos (decide_eq_true havail)
  · exact absurd hstate hempty

/-- A write that is turned down by the switch reserves nothing. -/
theorem accountWrite_of_unopened {zid status : ℕ}
    (hzone : lbaToZone ns req.slba = zid)
    (hopen : znsWriteZrwaOpen ns s zid = .ok (status, s'))
    (hstatus : status ≠ scSuccess) :
    accountWrite ns s req account = account := by
  by_cases hadmitted : Admitted ns s req
  swap
  · exact if_neg hadmitted
  rw [accountWrite, if_pos hadmitted, hzone]
  cases hstate : (s.zoneDescs zid).state
  case closed =>
    rw [znsWriteZrwaOpen, hstate] at hopen
    have heq := openZrwaZone_status hopen
    have havail : ¬ isZoneResourceAvail s .openZone = true := by
      intro htrue
      rw [htrue] at heq
      exact hstatus heq
    exact if_neg havail
  case openedImpl | openedExpl =>
    rw [znsWriteZrwaOpen, hstate] at hopen
    cases hopen
    exact absurd rfl hstatus
  all_goals rfl

theorem znsWriteZrwa_balanced {zid : ℕ} (hzone : lbaToZone ns req.slba = zid)
    (hzrwav : (s.zoneDescs zid).zrwav = true)
    (hempty : (s.zoneDescs zid).state ≠ .empty)
    (hbalanced : Balanced ns (s.buffer (.zrwa zid)) account)
    (hrun : znsWriteZrwa ns s req ret = .ok (outcome, s')) :
    Balanced ns (s'.buffer (.zrwa zid)) (accountWrite ns s req account) := by
  obtain ⟨-, hcase⟩ := znsWriteZrwa_cases hrun
  rw [hzone] at hcase
  have hadmitted : znsWriteZrwaCheck ns (s.zoneDescs zid) req.slba req.nrLba =
      scSuccess → Admitted ns s req := by
    intro hcheck
    rw [Admitted, hzone]
    exact ⟨hzrwav, hcheck⟩
  -- an opened zone, with the implicit flush still to come
  have hflushed : ∀ {s₁ s₂ : ZnsFtl} {nrLbas : ℕ} {moved : Bool},
      znsWriteZrwaCheck ns (s.zoneDescs zid) req.slba req.nrLba = scSuccess →
      znsWriteZrwaOpen ns s zid = .ok (scSuccess, s₁) →
      nrLbasFlush ns zid (s.zoneDescs zid).wp (lastLba req.slba req.nrLba) =
        .ok nrLbas →
      flushImplicit ns s₁ zid nrLbas = .ok (moved, s₂) →
      Balanced ns (s₂.buffer (.zrwa zid)) (accountWrite ns s req account) := by
    intro s₁ s₂ nrLbas moved hcheck hopen hflush hmoved
    rw [accountWrite_of_opens hzone (hadmitted hcheck) hopen hempty hflush]
    have hafter := congrFun (flushImplicit_buffer hmoved) (.zrwa zid)
    rw [setBuffer_buffer, if_pos rfl] at hafter
    have hopened := znsWriteZrwaOpen_balanced hempty hbalanced hopen
    rw [hafter]
    exact hopened.reserve (lbaToByte nrLbas)
  cases hcase with
  | refused hcheck =>
      rw [accountWrite, if_neg]
      · exact hbalanced
      · rintro ⟨-, hsuccess⟩
        rw [hzone] at hsuccess
        exact hcheck hsuccess
  | unopened hcheck hopen hstatus =>
      rw [accountWrite_of_unopened hzone hopen hstatus]
      rcases znsWriteZrwaOpen_cases hopen with ⟨rfl, -⟩ | ⟨hsuccess, -⟩
      · exact hbalanced
      · exact absurd hsuccess hstatus
  | retry hcheck hopen hflush hfull =>
      exact hflushed hcheck hopen hflush hfull
  | written hcheck hopen hflush hmoved =>
      have hzrwa : (.zrwa zid : BufferId) ≠ .ssd := by simp
      rw [withSsd_buffer hzrwa]
      exact hflushed hcheck hopen hflush hmoved

/-- Every account is kept by a write. -/
theorem znsWrite_balanced {accounts : ℕ → ZrwaAccount}
    (hempty : ∀ zid < ns.zp.nrZones, (s.zoneDescs zid).zrwav = true →
      (s.zoneDescs zid).state ≠ .empty)
    (hbalanced : ∀ zid, Balanced ns (s.buffer (.zrwa zid)) (accounts zid))
    (hrun : znsWrite ns s req ret = .ok (outcome, s')) (zid : ℕ) :
    Balanced ns (s'.buffer (.zrwa zid))
      (Function.update accounts (lbaToZone ns req.slba)
        (accountWrite ns s req (accounts (lbaToZone ns req.slba))) zid) := by
  obtain ⟨hzid, ⟨hzrwav, hrun⟩ | ⟨hzrwav, hrun⟩⟩ := znsWrite_cases hrun
  · have hsame : accountWrite ns s req (accounts (lbaToZone ns req.slba)) =
        accounts (lbaToZone ns req.slba) := by
      rw [accountWrite, if_neg]
      rintro ⟨htrue, -⟩
      rw [hzrwav] at htrue
      cases htrue
    have hne : (.zrwa zid : BufferId) ≠
        writeBufferOf ns (lbaToZone ns req.slba) := by
      rw [writeBufferOf]
      split_ifs <;> simp
    have hbuf := (znsWriteZone_takesFrom hrun).others (.zrwa zid) (by simp) hne
    rw [hsame, Function.update_eq_self, hbuf]
    exact hbalanced zid
  · by_cases heq : zid = lbaToZone ns req.slba
    · subst heq
      rw [Function.update_self]
      exact znsWriteZrwa_balanced rfl hzrwav (hempty _ hzid hzrwav)
        (hbalanced _) hrun
    · have hne : (.zrwa zid : BufferId) ≠ .zrwa (lbaToZone ns req.slba) :=
        fun h => heq (BufferId.zrwa.inj h)
      have hbuf := (znsWriteZrwa_takesFrom hrun).others (.zrwa zid) (by simp) hne
      rw [Function.update_of_ne heq, hbuf]
      exact hbalanced zid

end

/-! ## Management actions and completions -/

section

variable {ns : ZnsNamespace} {s s' : ZnsFtl}

/-- No zone is in a state that a reset refuses. -/
def Resettable (ns : ZnsNamespace) (s : ZnsFtl) : Prop :=
  ∀ zid < ns.zp.nrZones, (s.zoneDescs zid).state ≠ .readOnly ∧
    (s.zoneDescs zid).state ≠ .offline

/-- Nothing makes a zone read-only, and only a read-only zone goes offline. -/
theorem reachable_resettable {state : ZnsState}
    (hreach : Reachable (znsMachine ns) state) : Resettable ns state.ftl := by
  apply reachable_zones (fun _ desc => desc.state ≠ .readOnly ∧
    desc.state ≠ .offline) _ _ hreach
  · intro zid _
    exact ⟨by rintro ⟨⟩, by rintro ⟨⟩⟩
  · intro zid _ desc desc' h hmove
    have hmoved : ∀ wp, (movedTo ns zid desc wp).state ≠ .readOnly ∧
        (movedTo ns zid desc wp).state ≠ .offline := by
      intro wp
      rw [movedTo]
      dsimp only
      split_ifs
      · exact ⟨by simp, by simp⟩
      · exact h
    have hopened : ∀ state, isOpened state = true →
        state ≠ .readOnly ∧ state ≠ .offline := by
      intro state hstate
      constructor <;> rintro rfl <;> cases hstate
    cases hmove with
    | stay => exact h
    | close | finish | reset => exact ⟨by simp, by simp⟩
    | openEmpty state _ _ hstate | openActive state _ hstate =>
        exact hopened state hstate
    | offline hstate => exact absurd hstate h.1
    | flush | write | writeZrwa => exact hmoved _

/-- A reset refills the ZRWA buffer of the zone. -/
theorem resetZone_zwra {zid status : ℕ} (hsize : ns.zp.zrwaBufferSize ≠ 0)
    (hresettable : Resettable ns s)
    (hrun : zmgmtSendResetZone ns s zid = .ok (status, s')) :
    s'.zwraBuffer =
        Function.update s.zwraBuffer zid (bufferRefill (s.zwraBuffer zid)) ∧
      Resettable ns s' := by
  obtain ⟨hzid, ⟨-, -, -, resInfos, rfl⟩ | ⟨-, -, hrefused⟩⟩ :=
    resetZone_cases hrun
  · rw [resetZone_zwraBuffer, if_neg hsize]
    refine ⟨rfl, fun other hother => ?_⟩
    rw [resetZone_zoneDescs]
    by_cases heq : other = zid
    · subst heq
      simp
    · rw [Function.update_of_ne heq, changeZoneState_zoneDescs,
        Function.update_of_ne heq]
      exact hresettable other hother
  · obtain ⟨hreadOnly, hoffline⟩ := hresettable zid hzid
    exact (hrefused.elim hreadOnly hoffline).elim

/-- Refilling the buffers of several zones. -/
theorem resetZones_zwra {uninit : ℕ} {option : Bool} {zids : List ℕ}
    (hsize : ns.zp.zrwaBufferSize ≠ 0) (hresettable : Resettable ns s)
    (hrun : zids.foldlM
      (fun s zid => do
        let (_, s) ← zmgmtSend ns uninit s (zoneToSlba ns zid) .resetZone
          option
        return s)
      s = (.ok s' : Except Fault ZnsFtl)) (zid : ℕ) :
    s'.zwraBuffer zid =
      if ∃ other ∈ zids, lbaToZone ns (zoneToSlba ns other) = zid then
        bufferRefill (s.zwraBuffer zid)
      else s.zwraBuffer zid := by
  induction zids generalizing s with
  | nil =>
      cases hrun
      simp
  | cons first zids ih =>
      rw [List.foldlM_cons] at hrun
      obtain ⟨middle, hfirst, hrest⟩ := bind_eq_ok hrun
      obtain ⟨⟨status, _⟩, hone, hmiddle⟩ := bind_eq_ok hfirst
      cases hmiddle
      obtain ⟨hupdate, hmiddle⟩ := resetZone_zwra hsize hresettable hone
      rw [ih hmiddle hrest, hupdate]
      by_cases heq : lbaToZone ns (zoneToSlba ns first) = zid
      · subst heq
        have hfirst : ∃ other ∈ first :: zids,
            lbaToZone ns (zoneToSlba ns other) =
              lbaToZone ns (zoneToSlba ns first) :=
          ⟨first, List.mem_cons_self, rfl⟩
        rw [Function.update_self, if_pos hfirst]
        split_ifs <;> rfl
      · rw [Function.update_of_ne fun h => heq h.symm]
        simp [heq]

/-- A command refills the ZRWA buffers of the zones it resets. -/
theorem znsZmgmtSend_zwra {uninit nsecsStart : ℕ} {cmd : ZoneMgmtSend}
    {ret ret' : NvmevResult} (hsize : ns.zp.zrwaBufferSize ≠ 0)
    (hresettable : Resettable ns s)
    (hrun : znsZmgmtSend ns uninit nsecsStart s cmd ret = .ok (ret', s'))
    (zid : ℕ) :
    s'.zwraBuffer zid =
      if ResetsZone ns cmd zid then bufferRefill (s.zwraBuffer zid)
      else s.zwraBuffer zid := by
  rw [znsZmgmtSend] at hrun
  by_cases hreset : cmd.zsa = .resetZone
  · have hresets : ResetsZone ns cmd zid ↔ if cmd.selectAll = true then
        ∃ other ∈ List.range ns.zp.nrZones,
          lbaToZone ns (zoneToSlba ns other) = zid
      else lbaToZone ns cmd.slba = zid := and_iff_right hreset
    simp only [hresets]
    cases hall : cmd.selectAll with
    | false =>
        rw [hall, if_neg Bool.false_ne_true, hreset] at hrun
        obtain ⟨⟨status, _⟩, hsend, hret⟩ := bind_eq_ok hrun
        cases hret
        obtain ⟨hupdate, -⟩ := resetZone_zwra hsize hresettable hsend
        rw [hupdate, Function.update_apply]
        simp only [if_neg Bool.false_ne_true, eq_comm]
        split_ifs with heq
        · rw [heq]
        · rfl
    | true =>
        rw [hall, if_pos rfl, hreset] at hrun
        obtain ⟨_, hloop, hret⟩ := bind_eq_ok hrun
        cases hret
        simp only [if_pos]
        exact resetZones_zwra hsize hresettable hloop zid
  · rw [if_neg fun hresets : ResetsZone ns cmd zid => hreset hresets.1]
    have hbuffer : s'.buffer = s.buffer := by
      cases hall : cmd.selectAll with
      | false =>
          rw [hall, if_neg Bool.false_ne_true] at hrun
          obtain ⟨⟨status, _⟩, hsend, hret⟩ := bind_eq_ok hrun
          cases hret
          exact zmgmtSend_buffer hreset hsend
      | true =>
          rw [hall, if_pos rfl] at hrun
          obtain ⟨_, hloop, hret⟩ := bind_eq_ok hrun
          cases hret
          apply foldlM_keeps ZnsFtl.buffer _ hloop
          intro before other after hone
          obtain ⟨⟨status, _⟩, hsend, hret⟩ := bind_eq_ok hone
          cases hret
          exact zmgmtSend_buffer hreset hsend
    exact congrFun hbuffer (.zrwa zid)

/-- A completed writeback is entered in the account of its buffer. -/
theorem complete_balanced {state : ZnsState} {accounts : ℕ → ZrwaAccount}
    {index : ℕ} {wb : Writeback} (hwb : state.pending[index]? = some wb)
    (hbalanced : ∀ zid,
      Balanced ns (state.ftl.buffer (.zrwa zid)) (accounts zid)) (zid : ℕ) :
    Balanced ns ((releaseWriteback state.ftl wb).buffer (.zrwa zid))
      (accountAction ns state accounts (.complete index) zid) := by
  rw [accountAction, hwb, releaseWriteback, setBuffer_buffer]
  obtain ⟨sqid, nsecsTarget, id, bytes⟩ := wb
  cases id with
  | ssd | zone other => exact hbalanced zid
  | zrwa other =>
      dsimp only
      by_cases heq : zid = other
      · subst heq
        rw [if_pos rfl, Function.update_self]
        exact (hbalanced zid).release bytes
      · rw [if_neg fun h => heq (BufferId.zrwa.inj h),
          Function.update_of_ne heq]
        exact hbalanced zid

end

/-! ## Runs -/

section

variable {ns : ZnsNamespace} {s : ZnsFtl} {req : RwRequest}

/-- In every run the account of a zone is exact. -/
theorem reachable_balanced (hsize : ns.zp.zrwaBufferSize ≠ 0)
    {state : LedgerState} (hreach : Reachable (ledgerMachine ns) state)
    (zid : ℕ) :
    Balanced ns (state.zns.ftl.buffer (.zrwa zid)) (state.accounts zid) := by
  induction hreach generalizing zid with
  | start hinit =>
      obtain ⟨⟨hch, hpcie, clock, storage, hstart⟩, haccounts⟩ := hinit
      rw [hstart, haccounts]
      have hsize : (bufferInit ns.zp.zrwaBufferSize).size =
          ns.zp.zrwaBufferSize := rfl
      exact Balanced.refill hsize
  | @next before after action hbefore _ hstep ih =>
      obtain ⟨zns, hrun, hafter⟩ := bind_eq_ok hstep
      cases hafter
      have hreach := ledger_reachable hbefore
      dsimp only
      cases action with
      | write req ret =>
          obtain ⟨⟨outcome, ftl⟩, hwrite, hzns⟩ := bind_eq_ok hrun
          cases hzns
          obtain ⟨leak, haccounted⟩ := reachable_accounted hreach
          exact znsWrite_balanced haccounted.zrwav_ne_empty ih hwrite zid
      | mgmtSend cmd nsecsStart uninit ret =>
          obtain ⟨⟨ret', ftl⟩, hsend, hzns⟩ := bind_eq_ok hrun
          cases hzns
          have hafter : ftl.buffer (.zrwa zid) = _ := znsZmgmtSend_zwra hsize
            (reachable_resettable hreach) hsend zid
          have hwhole := congrFun
            (Prod.mk.inj (reachable_bufferSizes hreach)).2 zid
          rw [hafter, accountAction]
          by_cases hresets : ResetsZone ns cmd zid
          · simp only [if_pos hresets]
            exact Balanced.refill hwhole
          · simp only [if_neg hresets]
            exact ih zid
      | complete index =>
          dsimp only [znsStep] at hrun
          cases hwb : before.zns.pending[index]? with
          | none =>
              rw [hwb] at hrun
              cases hrun
              rw [accountAction, hwb]
              exact ih zid
          | some wb =>
              rw [hwb] at hrun
              cases hrun
              exact complete_balanced hwb ih zid

/-! ## The assertion -/

/-- A write that opens a closed zone whose account has no room for another
random write area. -/
structure Overdraws (ns : ZnsNamespace) (state : LedgerState)
    (req : RwRequest) : Prop where
  zid_lt : lbaToZone ns req.slba < ns.zp.nrZones
  admitted : Admitted ns state.zns.ftl req
  closed : (state.zns.ftl.zoneDescs (lbaToZone ns req.slba)).state = .closed
  avail : isZoneResourceAvail state.zns.ftl .openZone = true
  no_room : ¬ Fits ns (state.accounts (lbaToZone ns req.slba)) ns.zp.zrwaSize

theorem openZrwaZone_assertion_iff {zid : ℕ} (hpos : 0 < ns.zp.zrwaSize)
    (hsize : ns.zp.zrwaBufferSize ≠ 0) :
    openZrwaZone ns s zid = .error .assertion ↔
      isZoneResourceAvail s .openZone = true ∧
        (s.zwraBuffer zid).remaining < ns.zp.zrwaSize := by
  rw [openZrwaZone]
  by_cases havail : (s.resInfos .openZone).acquiredCnt <
      (s.resInfos .openZone).totalCnt
  swap
  · rw [acquireZoneResource_of_not_lt havail]
    apply iff_of_false (by rintro ⟨⟩)
    rintro ⟨htrue, -⟩
    exact havail (of_decide_eq_true htrue)
  have hgranted : u32 ns.zp.zrwaSize ≠ 0 := by
    rw [u32_of_lt (zrwaSize_lt ns)]
    exact hpos.ne'
  have hbuf : (setAcquiredCnt s .openZone
      (u32 ((s.resInfos .openZone).acquiredCnt + 1))).zwraBuffer zid =
        s.zwraBuffer zid := rfl
  have htrue : isZoneResourceAvail s .openZone = true :=
    decide_eq_true havail
  rw [acquireZoneResource_of_lt havail, and_iff_right htrue]
  dsimp only
  rw [if_pos rfl, zwraBufferAt, if_neg hsize, ok_bind, hbuf]
  by_cases hroom : ns.zp.zrwaSize ≤ (s.zwraBuffer zid).remaining
  · rw [bufferAllocate_of_le hroom]
    dsimp only
    rw [nvmevAssert_of hgranted]
    exact iff_of_false (by simp) (Nat.not_lt.mpr hroom)
  · rw [bufferAllocate_of_lt (Nat.lt_of_not_le hroom)]
    exact iff_of_true rfl (Nat.lt_of_not_le hroom)

theorem nrLbasFlush_ne_assertion {zid wp elba : ℕ} :
    nrLbasFlush ns zid wp elba ≠ .error .assertion := by
  rw [nrLbasFlush]
  dsimp only
  split_ifs <;> simp

theorem flushImplicit_ne_assertion {zid nrLbas : ℕ} :
    flushImplicit ns s zid nrLbas ≠ .error .assertion := by
  rw [flushImplicit, zwraBufferAt]
  split_ifs
  · rintro ⟨⟩
  · simp
  · rw [ok_bind]
    dsimp only
    split_ifs <;> rintro ⟨⟩

/-- The assertion fails in the switch, or not at all. -/
theorem znsWriteZrwa_assertion_iff {ret : NvmevResult}
    (hzid : lbaToZone ns req.slba < ns.zp.nrZones) :
    znsWriteZrwa ns s req ret = .error .assertion ↔
      znsWriteZrwaCheck ns (s.zoneDescs (lbaToZone ns req.slba)) req.slba
          req.nrLba = scSuccess ∧
        znsWriteZrwaOpen ns s (lbaToZone ns req.slba) =
          .error .assertion := by
  rw [znsWriteZrwa, zoneDesc, if_pos hzid, ok_bind]
  dsimp only
  by_cases hcheck : znsWriteZrwaCheck ns
      (s.zoneDescs (lbaToZone ns req.slba)) req.slba req.nrLba = scSuccess
  swap
  · rw [if_pos hcheck]
    exact iff_of_false (by rintro ⟨⟩) fun h => hcheck h.1
  rw [if_neg (not_not.mpr hcheck), and_iff_right hcheck]
  constructor
  · intro hrun
    obtain hopen | ⟨⟨status, s₁⟩, -, hrun⟩ := bind_eq_error hrun
    · exact hopen
    dsimp only at hrun
    split at hrun
    · cases hrun
    obtain hflush | ⟨nrLbas, -, hrun⟩ := bind_eq_error hrun
    · exact absurd hflush nrLbasFlush_ne_assertion
    obtain hmoved | ⟨⟨moved, s₂⟩, -, hrun⟩ := bind_eq_error hrun
    · exact absurd hmoved flushImplicit_ne_assertion
    dsimp only at hrun
    split at hrun <;> cases hrun
  · intro hopen
    rw [hopen]
    rfl

/-- In every state of every run, the assertion on the reservation fails for
exactly the writes that overdraw the account of their zone. -/
theorem assertion_iff (hpos : 0 < ns.zp.zrwaSize)
    (hsize : ns.zp.zrwaSize ≤ ns.zp.zrwaBufferSize) {state : LedgerState}
    (hreach : Reachable (ledgerMachine ns) state) (req : RwRequest)
    (ret : NvmevResult) :
    znsWrite ns state.zns.ftl req ret = .error .assertion ↔
      Overdraws ns state req := by
  by_cases hzid : lbaToZone ns req.slba < ns.zp.nrZones
  swap
  · rw [znsWrite, lpnToZone_lbaToLpn, zoneDesc, if_neg hzid]
    exact iff_of_false (by simp) fun h => hzid h.zid_lt
  have hbuffered : ns.zp.zrwaBufferSize ≠ 0 := by omega
  have hbalanced :=
    reachable_balanced hbuffered hreach (lbaToZone ns req.slba)
  obtain ⟨leak, haccounted⟩ := reachable_accounted (ledger_reachable hreach)
  rw [znsWrite, lpnToZone_lbaToLpn, zoneDesc, if_pos hzid, ok_bind]
  cases hzrwav : (state.zns.ftl.zoneDescs (lbaToZone ns req.slba)).zrwav with
  | false =>
      rw [if_neg Bool.false_ne_true]
      obtain ⟨outcome, s', hrun⟩ :=
        @znsWriteZone_returns ns state.zns.ftl req ret hzid
      rw [hrun]
      apply iff_of_false (by simp)
      intro h
      rw [h.admitted.1] at hzrwav
      cases hzrwav
  | true =>
      rw [if_pos rfl, znsWriteZrwa_assertion_iff hzid]
      have hroom : ¬ Fits ns (state.accounts (lbaToZone ns req.slba))
          ns.zp.zrwaSize ↔ (state.zns.ftl.zwraBuffer
            (lbaToZone ns req.slba)).remaining < ns.zp.zrwaSize := by
        rw [hbalanced.fits_iff, Nat.not_le]
        rfl
      constructor
      · rintro ⟨hcheck, hopen⟩
        rw [znsWriteZrwaOpen] at hopen
        cases hstate : (state.zns.ftl.zoneDescs
            (lbaToZone ns req.slba)).state <;> rw [hstate] at hopen
        case empty =>
          exact absurd hstate (haccounted.zrwav_ne_empty _ hzid hzrwav)
        case closed =>
          obtain ⟨havail, hfull⟩ :=
            (openZrwaZone_assertion_iff hpos hbuffered).mp hopen
          exact ⟨hzid, ⟨hzrwav, hcheck⟩, hstate, havail, hroom.mpr hfull⟩
        all_goals cases hopen
      · intro h
        refine ⟨h.admitted.2, ?_⟩
        rw [znsWriteZrwaOpen, h.closed]
        exact (openZrwaZone_assertion_iff hpos hbuffered).mpr
          ⟨h.avail, hroom.mp h.no_room⟩

end

/-- The first zone, which has a random write area, is closed after two
reopenings; the next write is the third. -/
theorem assertion_iff_reopened :
    0 < (twoZones 2).zp.zrwaSize ∧
      (twoZones 2).zp.zrwaSize ≤ (twoZones 2).zp.zrwaBufferSize ∧
      ∃ state accounts,
        Reachable (ledgerMachine (twoZones 2)) ⟨state, accounts⟩ ∧
        (state.ftl.zoneDescs 0).state = .closed ∧
        (state.ftl.zoneDescs 0).zrwav = true ∧
        (state.ftl.zwraBuffer 0).remaining = 0 ∧
        (znsWrite (twoZones 2) state.ftl wholeZone ⟨0, 0, 0⟩ =
            .error .assertion ↔
          Overdraws (twoZones 2) ⟨state, accounts⟩ wholeZone) := by
  have hvalues : ((znsMachine (twoZones 2)).run
      [openZrwa (twoZones 2) 0, closeFirst, writeFirstPage, closeFirst,
        writeFirstPage, closeFirst] (twoZonesStart 2)).map (fun state =>
        ((state.ftl.zoneDescs 0).state, (state.ftl.zoneDescs 0).zrwav,
          (state.ftl.zwraBuffer 0).remaining)) = some (.closed, true, 0) := by
    decide +kernel
  obtain ⟨state, hstate, hvalues⟩ := Option.map_eq_some_iff.mp hvalues
  obtain ⟨hclosed, hzrwav, hremaining⟩ : _ ∧ _ ∧ _ := by
    simpa only [Prod.mk.injEq] using hvalues
  have hreach := Reachable.run (.start (twoZonesStart_init 2)) hstate
  obtain ⟨accounts, hledger⟩ := reachable_ledger hreach
  have hpos : 0 < (twoZones 2).zp.zrwaSize := by decide
  have hsize : (twoZones 2).zp.zrwaSize ≤ (twoZones 2).zp.zrwaBufferSize := by
    decide
  exact ⟨hpos, hsize, state, accounts, hledger, hclosed, hzrwav, hremaining,
    assertion_iff hpos hsize hledger wholeZone ⟨0, 0, 0⟩⟩

/-- The third write to a zone that is closed after each finds the two areas of
its buffer reserved. -/
theorem thirdReopening_asserts :
    ∃ state, Reachable (znsMachine (twoZones 2)) state ∧
      0 < (twoZones 2).zp.zrwaSize ∧
      (twoZones 2).zp.zrwaSize ≤ (twoZones 2).zp.zrwaBufferSize ∧
      znsStep (twoZones 2) state writeFirstPage = .error .assertion := by
  have hvalues : ((znsMachine (twoZones 2)).run
      [openZrwa (twoZones 2) 0, closeFirst, writeFirstPage, closeFirst,
        writeFirstPage, closeFirst] (twoZonesStart 2)).map (fun state =>
      match znsStep (twoZones 2) state writeFirstPage with
      | .error fault => some fault
      | .ok _ => none) = some (some .assertion) := by
    decide +kernel
  obtain ⟨state, hstate, hfault⟩ := Option.map_eq_some_iff.mp hvalues
  refine ⟨state, Reachable.run (.start (twoZonesStart_init 2)) hstate,
    by decide, by decide, ?_⟩
  cases hstep : znsStep (twoZones 2) state writeFirstPage with
  | ok after =>
      rw [hstep] at hfault
      cases hfault
  | error fault =>
      rw [hstep] at hfault
      rw [Option.some.inj hfault]

end NvmeVirt.Reservations
