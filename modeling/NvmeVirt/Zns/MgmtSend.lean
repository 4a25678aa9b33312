import NvmeVirt.Zns.Zones

/-!
# Zone management

The actions of a Zone Management Send command.  A `switch` of the source falls
through from an opened zone to a closed one; each case here says what the whole
chain below it does.
-/

namespace NvmeVirt.MgmtSend

open NvmeVirt.Kernel
open NvmeVirt.Timing
open NvmeVirt.Transition
open NvmeVirt.Zones

/-- `enum zone_send_action`; `reserved` stands for the codes without a name. -/
inductive ZoneSendAction
  | closeZone
  | finishZone
  | openZone
  | resetZone
  | offlineZone
  | setZoneDescExt
  | flushExplZrwa
  | reserved
  deriving DecidableEq, Repr

/-- `struct nvme_zone_mgmt_send`. -/
structure ZoneMgmtSend where
  slba : ℕ
  zsa : ZoneSendAction
  selectAll : Bool
  zsaso : Bool
  deriving DecidableEq, Repr

/-- Give back what a closed zone holds. -/
def releaseActiveZone (s : ZnsFtl) (isZrwaZone : Bool) : ZnsFtl :=
  let s := releaseZoneResource s .activeZone
  if isZrwaZone then releaseZoneResource s .zrwaZone else s

@[simp]
theorem releaseActiveZone_zoneDescs (s : ZnsFtl) (isZrwaZone : Bool) :
    (releaseActiveZone s isZrwaZone).zoneDescs = s.zoneDescs := by
  cases isZrwaZone <;> rfl

/-- Open a closed zone: the case `ZONE_STATE_CLOSED` of the switches that
do. -/
def openClosedZone (s : ZnsFtl) (zid : ℕ) (state : ZoneState) : ℕ × ZnsFtl :=
  let (acquired, s) := acquireZoneResource s .openZone
  if acquired then (scSuccess, changeZoneState s zid state)
  else (scZnsNoOpenZone, s)

section

variable (ns : ZnsNamespace)

/-- `__zmgmt_send_close_zone`. -/
def zmgmtSendCloseZone (s : ZnsFtl) (zid : ℕ) : Except Fault (ℕ × ZnsFtl) := do
  let desc ← zoneDesc ns s zid
  match desc.state with
  | .openedImpl | .openedExpl =>
      let s := changeZoneState s zid .closed
      return (scSuccess, releaseZoneResource s .openZone)
  | .closed => return (scSuccess, s)
  | _ => return (scZnsInvalidTransition, s)

/-- `__zmgmt_send_finish_zone`. -/
def zmgmtSendFinishZone (s : ZnsFtl) (zid : ℕ) :
    Except Fault (ℕ × ZnsFtl) := do
  let desc ← zoneDesc ns s zid
  match desc.state with
  | .openedImpl | .openedExpl =>
      let s := releaseZoneResource s .openZone
      let s := releaseActiveZone s desc.zrwav
      return (scSuccess, changeZoneState s zid .full)
  | .closed =>
      let s := releaseActiveZone s desc.zrwav
      return (scSuccess, changeZoneState s zid .full)
  | .empty => return (scSuccess, changeZoneState s zid .full)
  | .full => return (scSuccess, s)
  | _ => return (scZnsInvalidTransition, s)

/-- `__zmgmt_send_open_zone`. -/
def zmgmtSendOpenZone (s : ZnsFtl) (zid : ℕ) (zrwa : Bool) :
    Except Fault (ℕ × ZnsFtl) := do
  let desc ← zoneDesc ns s zid
  match desc.state with
  | .empty =>
      if isZoneResourceFull s .activeZone then
        return (scZnsNoActiveZone, s)
      else if isZoneResourceFull s .openZone then
        return (scZnsNoOpenZone, s)
      else if zrwa && isZoneResourceFull s .zrwaZone then
        return (scZnsZrwaRsrcUnavail, s)
      else
        let s := if zrwa then
            setZrwav (acquireZoneResource s .zrwaZone).2 zid true
          else s
        let s := (acquireZoneResource s .activeZone).2
        return openClosedZone s zid .openedExpl
  | .closed => return openClosedZone s zid .openedExpl
  | .openedImpl => return (scSuccess, changeZoneState s zid .openedExpl)
  | .openedExpl => return (scSuccess, s)
  | _ => return (scZnsInvalidTransition, s)

/-- `__reset_zone`. -/
def resetZone (s : ZnsFtl) (zid : ℕ) : ZnsFtl :=
  let start := u64 (zid * ns.zp.zoneSize)
  let s := { s with
    storage := fun addr =>
      if start ≤ addr ∧ addr < start + ns.zp.zoneSize then 0
      else s.storage addr }
  let s := setWp s zid (s.zoneDescs zid).zslba
  let s := setZrwav s zid false
  if ns.zp.zrwaBufferSize = 0 then s
  else s.setBuffer (.zrwa zid) (bufferRefill (s.zwraBuffer zid))

theorem resetZone_zoneDescs (s : ZnsFtl) (zid : ℕ) :
    (resetZone ns s zid).zoneDescs =
      Function.update s.zoneDescs zid
        { s.zoneDescs zid with
          wp := (s.zoneDescs zid).zslba, zrwav := false } := by
  rw [resetZone]
  split_ifs <;> simp

theorem resetZone_resInfos (s : ZnsFtl) (zid : ℕ) :
    (resetZone ns s zid).resInfos = s.resInfos := by
  rw [resetZone]
  split_ifs <;> simp

/-- `__zmgmt_send_reset_zone`. -/
def zmgmtSendResetZone (s : ZnsFtl) (zid : ℕ) : Except Fault (ℕ × ZnsFtl) := do
  let desc ← zoneDesc ns s zid
  match desc.state with
  | .openedImpl | .openedExpl =>
      let s := releaseZoneResource s .openZone
      let s := releaseActiveZone s desc.zrwav
      return (scSuccess, resetZone ns (changeZoneState s zid .empty) zid)
  | .closed =>
      let s := releaseActiveZone s desc.zrwav
      return (scSuccess, resetZone ns (changeZoneState s zid .empty) zid)
  | .full | .empty =>
      return (scSuccess, resetZone ns (changeZoneState s zid .empty) zid)
  | _ => return (scZnsInvalidTransition, s)

/-- `__zmgmt_send_offline_zone`. -/
def zmgmtSendOfflineZone (s : ZnsFtl) (zid : ℕ) :
    Except Fault (ℕ × ZnsFtl) := do
  let desc ← zoneDesc ns s zid
  match desc.state with
  | .readOnly => return (scSuccess, changeZoneState s zid .offline)
  | .offline => return (scSuccess, s)
  | _ => return (scZnsInvalidTransition, s)

/-- The last block of the random write area of a zone. -/
def zrwaEnd (zid : ℕ) (desc : ZoneDescriptor) : ℕ :=
  min (sub64 (u64 (desc.wp + ns.zp.lbasPerZrwa)) 1)
    (sub64 (u64 (zoneToSlba ns zid + desc.zoneCapacity)) 1)

/-- `__zmgmt_send_flush_explicit_zrwa`. -/
def zmgmtSendFlushExplicitZrwa (s : ZnsFtl) (slba : ℕ) :
    Except Fault (ℕ × ZnsFtl) := do
  let zid := lbaToZone ns slba
  let desc ← zoneDesc ns s zid
  let nrLbasFlush := u64 (sub64 slba desc.wp + 1)
  if desc.zrwav = false then
    return (scZnsInvalidZoneOperation, s)
  else if ¬ (desc.wp ≤ slba ∧ slba ≤ zrwaEnd ns zid desc) then
    return (scZnsInvalidZoneOperation, s)
  else if ns.zp.lbasPerZrwafg = 0 then
    throw .divideByZero
  else if nrLbasFlush % ns.zp.lbasPerZrwafg ≠ 0 then
    return (scInvalidField, s)
  else
    match desc.state with
    | .openedImpl | .openedExpl | .closed =>
        let s := setWp s zid (u64 (slba + 1))
        if u64 (slba + 1) = u64 (zoneToSlba ns zid + desc.zoneCapacity) then
          let s := if desc.state ≠ .closed then
              releaseZoneResource s .openZone
            else s
          let s := releaseActiveZone s true
          return (scSuccess, changeZoneState s zid .full)
        else
          return (scSuccess, s)
    | _ => return (scZnsInvalidZoneOperation, s)

/-- `__zmgmt_send`; no case assigns the status of an action it does not know,
which is then the value `uninit` found on the stack. -/
def zmgmtSend (uninit : ℕ) (s : ZnsFtl) (slba : ℕ) (action : ZoneSendAction)
    (option : Bool) : Except Fault (ℕ × ZnsFtl) :=
  let zid := lbaToZone ns slba
  match action with
  | .closeZone => zmgmtSendCloseZone ns s zid
  | .finishZone => zmgmtSendFinishZone ns s zid
  | .openZone => zmgmtSendOpenZone ns s zid option
  | .resetZone => zmgmtSendResetZone ns s zid
  | .offlineZone => zmgmtSendOfflineZone ns s zid
  | .flushExplZrwa => zmgmtSendFlushExplicitZrwa ns s slba
  | .setZoneDescExt | .reserved => .ok (uninit, s)

/-- `zns_zmgmt_send`.  With `select_all` the statuses of the zones are
dropped. -/
def znsZmgmtSend (uninit nsecsStart : ℕ) (s : ZnsFtl) (cmd : ZoneMgmtSend)
    (ret : NvmevResult) : Except Fault (NvmevResult × ZnsFtl) := do
  let (status, s) ←
    if cmd.selectAll then do
      let s ← (List.range ns.zp.nrZones).foldlM
        (fun s zid => do
          let (_, s) ← zmgmtSend ns uninit s (zoneToSlba ns zid) cmd.zsa
            cmd.zsaso
          return s)
        s
      pure (scSuccess, s)
    else zmgmtSend ns uninit s cmd.slba cmd.zsa cmd.zsaso
  return ({ ret with nsecsTarget := nsecsStart, status := status }, s)

end

end NvmeVirt.MgmtSend
