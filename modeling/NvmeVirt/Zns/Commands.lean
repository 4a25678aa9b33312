import NvmeVirt.Zns.ReadWrite

/-!
# Runs of a zoned namespace

The dispatcher hands the namespace writes, appends and Zone Management Send
commands in any order, and the I/O workers complete the writebacks the writes
enqueued, in any order too.  A start LBA outside the namespace reaches past the
descriptor array, which ends a run with a fault.
-/

namespace NvmeVirt.Commands

open NvmeVirt.Bandwidth
open NvmeVirt.Kernel
open NvmeVirt.MgmtSend
open NvmeVirt.ReadWrite
open NvmeVirt.Timing
open NvmeVirt.Transition
open NvmeVirt.Zones

/-- The namespace, and the writebacks that are not completed yet. -/
structure ZnsState where
  ftl : ZnsFtl
  pending : List Writeback

/-- What can happen next: a write or append, a Zone Management Send command, or
the completion of a pending writeback.  `ret` and `uninit` are what the
dispatcher's stack holds before the call. -/
inductive ZnsAction
  | write (req : RwRequest) (ret : NvmevResult)
  | mgmtSend (cmd : ZoneMgmtSend) (nsecsStart uninit : ℕ) (ret : NvmevResult)
  | complete (index : ℕ)

/-- The worker's `buffer_release` for a completed writeback. -/
def releaseWriteback (s : ZnsFtl) (wb : Writeback) : ZnsFtl :=
  s.setBuffer wb.buffer
    (bufferRelease (s.buffer wb.buffer) wb.buffsToRelease)

variable (ns : ZnsNamespace)

/-- `zns_proc_nvme_io_cmd` for the commands that change zones, and the
worker. -/
def znsStep (s : ZnsState) : ZnsAction → Except Fault ZnsState
  | .write req ret => do
      let (outcome, ftl) ← znsWrite ns s.ftl req ret
      return { ftl := ftl, pending := s.pending ++ outcome.writebacks }
  | .mgmtSend cmd nsecsStart uninit ret => do
      let (_, ftl) ← znsZmgmtSend ns uninit nsecsStart s.ftl cmd ret
      return { s with ftl := ftl }
  | .complete index =>
      match s.pending[index]? with
      | some wb => .ok
          { ftl := releaseWriteback s.ftl wb
            pending := s.pending.eraseIdx index }
      | none => .ok s

/-- The state `zns_init_namespace` leaves. -/
def ZnsInit (s : ZnsState) : Prop :=
  ∃ hch hpcie clock storage,
    s = { ftl := znsInitFtl ns (ssdInit ns.toSsdParams hch hpcie clock) storage
          pending := [] }

/-- All runs. -/
def znsMachine : Machine ZnsState ZnsAction Fault where
  init := ZnsInit ns
  enabled s
    | .complete index => index < s.pending.length
    | _ => True
  step := znsStep ns

variable {ns} in
/-- A write that returns is a step of the machine. -/
theorem reachable_write {s : ZnsState} {req : RwRequest} {ret : NvmevResult}
    {outcome : WriteOutcome} {ftl : ZnsFtl}
    (hreach : Reachable (znsMachine ns) s)
    (hrun : znsWrite ns s.ftl req ret = .ok (outcome, ftl)) :
    Reachable (znsMachine ns)
      { ftl := ftl, pending := s.pending ++ outcome.writebacks } := by
  have henabled : (znsMachine ns).enabled s (.write req ret) := trivial
  have hstep : znsStep ns s (.write req ret) =
      .ok { ftl := ftl, pending := s.pending ++ outcome.writebacks } := by
    rw [znsStep, hrun]
    rfl
  exact hreach.next henabled hstep

instance (s : ZnsState) (action : ZnsAction) :
    Decidable ((znsMachine ns).enabled s action) :=
  match action with
  | .complete index => inferInstanceAs (Decidable (index < s.pending.length))
  | .write _ _ | .mgmtSend _ _ _ _ => isTrue trivial

/-- The two zones of the examples, as they start. -/
def twoZonesSsd : Ssd :=
  ssdInit twoZoneDie.toSsdParams (by decide) (by decide) ⟨fun _ => 0, 0⟩

def twoZonesStart (maxZrwaZones : ℕ) : ZnsState where
  ftl := znsInitFtl (twoZones maxZrwaZones) twoZonesSsd fun _ => 0
  pending := []

theorem twoZonesStart_init (maxZrwaZones : ℕ) :
    ZnsInit (twoZones maxZrwaZones) (twoZonesStart maxZrwaZones) :=
  ⟨_, _, _, _, rfl⟩

end NvmeVirt.Commands
