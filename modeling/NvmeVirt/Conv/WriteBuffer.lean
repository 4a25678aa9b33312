import NvmeVirt.Conv.Write
import NvmeVirt.Core.InFlight

/-!
# The write buffer of a conventional namespace

`conv_write` takes the bytes of a command from the write buffer, and a worker
gives back what a writeback holds when the writeback is completed.  Only the
refused commands enqueue a writeback, and it holds nothing.
-/

namespace NvmeVirt.WriteBuffer

open NvmeVirt.GarbageCollection
open NvmeVirt.Kernel
open NvmeVirt.Layout
open NvmeVirt.Mapping
open NvmeVirt.Startup
open NvmeVirt.Superblock
open NvmeVirt.Timing
open NvmeVirt.Transition
open NvmeVirt.Write

/-- What `conv_write` works on.  The hybrid build pages a command out in
another way than the other builds; in both `buffer_allocate` alone changes the
write buffer. -/
structure WritePath (σ : Type) where
  wbuf : σ → Buffer
  setWbuf : σ → Buffer → σ
  getWallclock : σ → ℕ × σ
  /-- The page loop and the collection after it. -/
  writePages : σ → ℕ → RwCommand → Except Fault (ℕ × σ)
  wbuf_setWbuf : ∀ s buf, wbuf (setWbuf s buf) = buf
  wbuf_getWallclock : ∀ s, wbuf (getWallclock s).2 = wbuf s
  wbuf_writePages : ∀ s nsecsStart cmd completedTime s',
    writePages s nsecsStart cmd = .ok (completedTime, s') → wbuf s' = wbuf s

/-- The instance, and the writebacks that are not completed yet. -/
structure ConvState (σ : Type) where
  ftl : σ
  pending : List Writeback

/-- What can happen next: a write, or the completion of a pending writeback.
`queueFull` tells whether `enqueue_writeback_io_req` finds the table of the
worker almost full, and gives up. -/
inductive ConvAction
  | write (sqid : ℕ) (cmd : RwCommand) (queueFull : Bool)
  | complete (index : ℕ)

section

variable {σ : Type} (path : WritePath σ)

/-- `conv_write`. -/
def convWriteOn (sqid : ℕ) (s : σ) (cmd : RwCommand) :
    Except Fault (WriteResult × σ) := do
  let (nsecsStart, s) := path.getWallclock s
  let (granted, wbuf) := bufferAllocate (path.wbuf s) cmd.bytes
  let s := path.setWbuf s wbuf
  if granted = 0 then
    return ({ nsecsTarget := nsecsStart,
              writeback := some ⟨sqid, nsecsStart, 0⟩ }, s)
  let (completedTime, s) ← path.writePages s nsecsStart cmd
  return ({ nsecsTarget := completedTime, writeback := none }, s)

/-- The worker's `buffer_release` for a completed writeback. -/
def releaseWriteback (s : σ) (wb : Writeback) : σ :=
  path.setWbuf s (bufferRelease (path.wbuf s) wb.buffsToRelease)

def convStep (s : ConvState σ) : ConvAction → Except Fault (ConvState σ)
  | .write sqid cmd queueFull => do
      let (result, ftl) ← convWriteOn path sqid s.ftl cmd
      let enqueued := if queueFull then [] else result.writeback.toList
      return { ftl := ftl, pending := s.pending ++ enqueued }
  | .complete index =>
      match s.pending[index]? with
      | some wb => .ok
          { ftl := releaseWriteback path s.ftl wb
            pending := s.pending.eraseIdx index }
      | none => .ok s

/-- The buffer is empty and nothing is enqueued. -/
structure ConvInit (s : ConvState σ) : Prop where
  remaining_eq : (path.wbuf s.ftl).remaining = (path.wbuf s.ftl).size
  pending_eq : s.pending = []

/-- All runs. -/
def convMachine : Machine (ConvState σ) ConvAction Fault where
  init := ConvInit path
  enabled s
    | .complete index => index < s.pending.length
    | .write _ _ _ => True
  step := convStep path

instance (s : ConvState σ) (action : ConvAction) :
    Decidable ((convMachine path).enabled s action) :=
  match action with
  | .complete index => inferInstanceAs (Decidable (index < s.pending.length))
  | .write _ _ _ => isTrue trivial

/-- The commands of a run. -/
def commands : List ConvAction → List RwCommand
  | [] => []
  | .write _ cmd _ :: actions => cmd :: commands actions
  | .complete _ :: actions => commands actions

/-- The bytes of those commands that find room. -/
def acceptedBytes : ℕ → List RwCommand → ℕ
  | _, [] => 0
  | remaining, cmd :: cmds =>
      if remaining < cmd.bytes then acceptedBytes remaining cmds
      else cmd.bytes + acceptedBytes (remaining - cmd.bytes) cmds

/-- Every byte of the buffer is free, or a pending writeback gives it back. -/
def Conserved (s : ConvState σ) : Prop :=
  (path.wbuf s.ftl).remaining + (s.pending.map Writeback.buffsToRelease).sum =
    (path.wbuf s.ftl).size

end

/-! ## Runs -/

section

variable {σ : Type} {path : WritePath σ}

/-- A write takes its bytes or nothing, and what it enqueues gives back
nothing. -/
theorem convWriteOn_spec {sqid : ℕ} {s s' : σ} {cmd : RwCommand}
    {result : WriteResult}
    (hrun : convWriteOn path sqid s cmd = .ok (result, s')) :
    (path.wbuf s').size = (path.wbuf s).size ∧
      (path.wbuf s').remaining =
        (if (path.wbuf s).remaining < cmd.bytes then (path.wbuf s).remaining
        else (path.wbuf s).remaining - cmd.bytes) ∧
      ∀ wb ∈ result.writeback, wb.buffsToRelease = 0 := by
  rw [convWriteOn] at hrun
  simp only [path.wbuf_getWallclock, bufferAllocate_bytes] at hrun
  by_cases hfull : (path.wbuf s).remaining < cmd.bytes
  · simp only [if_pos hfull, if_true] at hrun ⊢
    cases hrun
    rw [path.wbuf_setWbuf]
    refine ⟨rfl, rfl, fun wb hwb => ?_⟩
    cases hwb
    rfl
  · simp only [if_neg hfull, cmd.bytes_pos.ne', if_false] at hrun ⊢
    obtain ⟨⟨completedTime, after⟩, hpages, hdone⟩ := bind_eq_ok hrun
    cases hdone
    rw [path.wbuf_writePages _ _ _ _ _ hpages, path.wbuf_setWbuf]
    exact ⟨rfl, rfl, fun wb hwb => absurd hwb (Option.not_mem_none wb)⟩

/-- No pending writeback gives a byte back. -/
def NothingOwed (s : ConvState σ) : Prop :=
  ∀ wb ∈ s.pending, wb.buffsToRelease = 0

/-- Completing a writeback that gives nothing back. -/
theorem wbuf_releaseWriteback {s : σ} {wb : Writeback}
    (hzero : wb.buffsToRelease = 0) :
    path.wbuf (releaseWriteback path s wb) = path.wbuf s := by
  rw [releaseWriteback, path.wbuf_setWbuf, bufferRelease, hzero, Nat.add_zero]

/-- One step: a write may take bytes, and no step gives one back. -/
theorem convStep_spec {s s' : ConvState σ} {action : ConvAction}
    (howed : NothingOwed s) (hstep : convStep path s action = .ok s') :
    NothingOwed s' ∧ (path.wbuf s'.ftl).size = (path.wbuf s.ftl).size ∧
      (path.wbuf s'.ftl).remaining +
          acceptedBytes (path.wbuf s.ftl).remaining (commands [action]) =
        (path.wbuf s.ftl).remaining := by
  cases action with
  | write sqid cmd queueFull =>
      obtain ⟨⟨result, ftl⟩, hwrite, hdone⟩ := bind_eq_ok hstep
      obtain ⟨hsize, hremaining, hzero⟩ := convWriteOn_spec hwrite
      cases hdone
      refine ⟨?_, hsize, ?_⟩
      · intro wb hwb
        obtain hold | hnew := List.mem_append.mp hwb
        · exact howed wb hold
        · cases queueFull with
          | true => exact absurd hnew List.not_mem_nil
          | false => exact hzero wb (Option.mem_toList.mp hnew)
      · dsimp only
        rw [hremaining, commands, commands, acceptedBytes, acceptedBytes,
          acceptedBytes]
        split_ifs with hfull
        · rw [Nat.add_zero]
        · rw [Nat.add_zero]
          exact Nat.sub_add_cancel (Nat.le_of_not_lt hfull)
  | complete index =>
      rw [convStep] at hstep
      cases hget : s.pending[index]? with
      | none =>
          rw [hget] at hstep
          cases hstep
          exact ⟨howed, rfl, Nat.add_zero _⟩
      | some wb =>
          rw [hget] at hstep
          cases hstep
          have hwbuf := @wbuf_releaseWriteback σ path s.ftl wb
            (howed wb (List.mem_of_getElem? hget))
          dsimp only
          rw [hwbuf]
          refine ⟨?_, rfl, Nat.add_zero _⟩
          intro other hother
          exact howed other (List.mem_of_mem_eraseIdx hother)

theorem acceptedBytes_cons (remaining : ℕ) (action : ConvAction)
    (actions : List ConvAction) :
    acceptedBytes remaining (commands (action :: actions)) =
      acceptedBytes remaining (commands [action]) +
        acceptedBytes
          (remaining - acceptedBytes remaining (commands [action]))
          (commands actions) := by
  cases action with
  | write sqid cmd queueFull =>
      simp only [commands, acceptedBytes]
      split_ifs
      · rw [Nat.zero_add, Nat.sub_zero]
      · rw [Nat.add_zero]
  | complete index => exact (Nat.zero_add _).symm

/-- A run: the bytes that were taken stay taken. -/
theorem run_spec {s s' : ConvState σ} {actions : List ConvAction}
    (howed : NothingOwed s)
    (hrun : (convMachine path).run actions s = some s') :
    NothingOwed s' ∧ (path.wbuf s'.ftl).size = (path.wbuf s.ftl).size ∧
      (path.wbuf s'.ftl).remaining +
          acceptedBytes (path.wbuf s.ftl).remaining (commands actions) =
        (path.wbuf s.ftl).remaining := by
  induction actions generalizing s with
  | nil =>
      cases hrun
      exact ⟨howed, rfl, Nat.add_zero _⟩
  | cons action actions ih =>
      obtain ⟨next, -, hstep, hrest⟩ := Machine.of_run_cons hrun
      obtain ⟨hnext, hsize, hremaining⟩ := convStep_spec howed hstep
      obtain ⟨hafter, hsize', hremaining'⟩ := ih hnext hrest
      refine ⟨hafter, hsize'.trans hsize, ?_⟩
      have htaken : (path.wbuf next.ftl).remaining =
          (path.wbuf s.ftl).remaining -
            acceptedBytes (path.wbuf s.ftl).remaining (commands [action]) :=
        Nat.eq_sub_of_add_eq hremaining
      rw [acceptedBytes_cons, ← htaken]
      omega

/-- Nothing is taken when no command fits. -/
theorem acceptedBytes_eq_zero_iff (remaining : ℕ) (cmds : List RwCommand) :
    acceptedBytes remaining cmds = 0 ↔ ∀ cmd ∈ cmds, remaining < cmd.bytes := by
  induction cmds with
  | nil => simp [acceptedBytes]
  | cons cmd cmds ih =>
      rw [acceptedBytes, List.forall_mem_cons]
      split_ifs with hfull
      · rw [ih, and_iff_right hfull]
      · have hpos := cmd.bytes_pos
        constructor
        · intro hzero
          omega
        · rintro ⟨hlt, -⟩
          exact absurd hlt hfull

theorem NothingOwed.sum_eq_zero {s : ConvState σ} (h : NothingOwed s) :
    (s.pending.map Writeback.buffsToRelease).sum = 0 := by
  apply List.sum_eq_zero
  intro amount hamount
  obtain ⟨wb, hwb, rfl⟩ := List.mem_map.mp hamount
  exact h wb hwb

/-- The bytes that were taken come back, and the buffer is empty whenever
nothing is pending, exactly when every command of the run is larger than the
buffer and nothing is taken. -/
theorem conserved_iff (path : WritePath σ) {s s' : ConvState σ}
    {actions : List ConvAction} (hinit : (convMachine path).init s)
    (hrun : (convMachine path).run actions s = some s') :
    (Conserved path s' ↔
        ∀ cmd ∈ commands actions, (path.wbuf s.ftl).size < cmd.bytes) ∧
      (s'.pending = [] →
        ((path.wbuf s'.ftl).remaining = (path.wbuf s'.ftl).size ↔
          ∀ cmd ∈ commands actions, (path.wbuf s.ftl).size < cmd.bytes)) := by
  have howed : NothingOwed s := by
    rw [NothingOwed, hinit.pending_eq]
    exact fun wb hwb => absurd hwb List.not_mem_nil
  obtain ⟨hafter, hsize, hremaining⟩ := run_spec howed hrun
  have hiff : (path.wbuf s'.ftl).remaining = (path.wbuf s'.ftl).size ↔
      ∀ cmd ∈ commands actions, (path.wbuf s.ftl).size < cmd.bytes := by
    rw [← acceptedBytes_eq_zero_iff, ← hinit.remaining_eq, hsize,
      ← hinit.remaining_eq]
    constructor <;> intro h <;> omega
  refine ⟨?_, fun _ => hiff⟩
  rw [Conserved, hafter.sum_eq_zero, Nat.add_zero]
  exact hiff

end

/-! ## The builds without hybrid storage -/

section

variable {g : Geometry} {cp : ConvParams}

theorem gcDelay_writeBuffer (s : ConvFtl) (ncmd : NandCmd) :
    (gcDelay g cp s ncmd).ssd.writeBuffer = s.ssd.writeBuffer := by
  rw [gcDelay]
  split_ifs
  · exact ssdAdvanceNand_writeBuffer _ _ _
  · rfl

theorem gcWritePage_writeBuffer {s s' : ConvFtl} {oldPpa : Ppa}
    (hrun : gcWritePage g cp s oldPpa = .ok s') :
    s'.ssd.writeBuffer = s.ssd.writeBuffer := by
  obtain ⟨⟨newPpa, mid⟩, hmid, hdone⟩ := bind_eq_ok hrun
  cases hdone
  rw [gcDelay_writeBuffer, relocate_ssd g hmid]

theorem cleanOneFlashpg_writeBuffer {s s' : ConvFtl} {ppa : Ppa}
    (hrun : cleanOneFlashpg g cp s ppa = .ok s') :
    s'.ssd.writeBuffer = s.ssd.writeBuffer := by
  obtain ⟨cnt, -, hclean⟩ := bind_eq_ok hrun
  dsimp only at hclean
  split_ifs at hclean
  · cases hclean
    rfl
  · have hpages := foldlM_keeps (fun s : ConvFtl => s.ssd.writeBuffer)
      (fun state i state' hstep => ?_) hclean
    · exact hpages.trans (gcDelay_writeBuffer _ _)
    · split_ifs at hstep
      · exact gcWritePage_writeBuffer hstep
      · cases hstep
        rfl

theorem gcRound_writeBuffer {victimLine flashpg ch lun : ℕ} {s s' : ConvFtl}
    (hrun : gcRound g cp victimLine flashpg ch s lun = .ok s') :
    s'.ssd.writeBuffer = s.ssd.writeBuffer := by
  obtain ⟨after, hclean, hdone⟩ := bind_eq_ok hrun
  have hafter := cleanOneFlashpg_writeBuffer hclean
  split_ifs at hdone
  · cases hdone
    exact (gcDelay_writeBuffer _ _).trans hafter
  · cases hdone
    exact hafter

theorem gcFlashpg_writeBuffer {victimLine flashpg : ℕ} {s s' : ConvFtl}
    (hrun : gcFlashpg g cp victimLine s flashpg = .ok s') :
    s'.ssd.writeBuffer = s.ssd.writeBuffer := by
  refine foldlM_keeps (fun s : ConvFtl => s.ssd.writeBuffer) ?_ hrun
  intro s ch s' hluns
  refine foldlM_keeps (fun s : ConvFtl => s.ssd.writeBuffer) ?_ hluns
  intro s lun s' hround
  exact gcRound_writeBuffer hround

theorem doGc_writeBuffer {s s' : ConvFtl} {force : Bool} {ret : ℤ}
    (hrun : doGc g cp s force = .ok (ret, s')) :
    s'.ssd.writeBuffer = s.ssd.writeBuffer := by
  rw [doGc] at hrun
  split at hrun
  · cases hrun
    rfl
  · obtain ⟨after, hrounds, hdone⟩ := bind_eq_ok hrun
    have hafter := foldlM_keeps (fun s : ConvFtl => s.ssd.writeBuffer)
      (fun _ _ _ hflashpg => gcFlashpg_writeBuffer hflashpg) hrounds
    cases hdone
    exact hafter

theorem checkAndRefill_writeBuffer {s s' : ConvFtl}
    (hrun : checkAndRefillWriteCredit g cp s = .ok s') :
    s'.ssd.writeBuffer = s.ssd.writeBuffer := by
  rw [checkAndRefillWriteCredit] at hrun
  split_ifs at hrun
  · obtain ⟨after, hgc, hdone⟩ := bind_eq_ok hrun
    have hafter : after.ssd.writeBuffer = s.ssd.writeBuffer := by
      rw [forgroundGc] at hgc
      split_ifs at hgc
      · obtain ⟨⟨ret, collected⟩, hdoGc, hcollected⟩ := bind_eq_ok hgc
        cases hcollected
        exact doGc_writeBuffer hdoGc
      · cases hgc
        rfl
    cases hdone
    exact hafter
  · cases hrun
    rfl

theorem writePage_writeBuffer {state state' : ConvFtl × ℕ} {lpn : ℕ}
    (hrun : writePage g cp state lpn = .ok state') :
    state'.1.ssd.writeBuffer = state.1.ssd.writeBuffer := by
  obtain ⟨after, hrefill, hpage⟩ := bind_eq_ok hrun
  obtain ⟨ftl₁, -, hpage⟩ := bind_eq_ok hpage
  obtain ⟨ftl₂, -, hpage⟩ := bind_eq_ok hpage
  obtain ⟨ftl₃, -, hpage⟩ := bind_eq_ok hpage
  cases hpage
  have hssd := ssdAdvanceNand_writeBuffer g.toSsdParams after.ssd
    { type := .user, cmd := .write, xferSize := g.pgsz, stime := state.2,
      interleavePciDma := true, ppa := some (getNewPage after.ftl .user) }
  exact hssd.trans (checkAndRefill_writeBuffer hrefill)

end

/-- The collection after the page loop of `conv_write`. -/
def backgroundGc (g : Geometry) (cp : ConvParams) (s : ConvFtl) :
    Except Fault ConvFtl :=
  if shouldGc cp s.ftl then do
    let (_, s) ← doGc g cp s false
    return s
  else .ok s

theorem backgroundGc_writeBuffer {g : Geometry} {cp : ConvParams}
    {s s' : ConvFtl} (hrun : backgroundGc g cp s = .ok s') :
    s'.ssd.writeBuffer = s.ssd.writeBuffer := by
  rw [backgroundGc] at hrun
  split_ifs at hrun
  · obtain ⟨⟨ret, collected⟩, hdoGc, hcollected⟩ := bind_eq_ok hrun
    cases hcollected
    exact doGc_writeBuffer hdoGc
  · cases hrun
    rfl

/-- What `conv_write` does with a command that found room. -/
def plainPages (g : Geometry) (cp : ConvParams) (s : ConvFtl) (nsecsStart : ℕ)
    (cmd : RwCommand) : Except Fault (ℕ × ConvFtl) := do
  let (s, completedTime) ←
    (List.range' (cmd.slba / g.secsPerPg) (cmd.bytes / g.pgsz)).foldlM
      (writePage g cp) (s, nsecsStart)
  let s ← backgroundGc g cp s
  return (completedTime, s)

theorem plainPages_writeBuffer (g : Geometry) (cp : ConvParams) (s : ConvFtl)
    (nsecsStart : ℕ) (cmd : RwCommand) (completedTime : ℕ) (s' : ConvFtl)
    (hrun : plainPages g cp s nsecsStart cmd = .ok (completedTime, s')) :
    s'.ssd.writeBuffer = s.ssd.writeBuffer := by
  obtain ⟨⟨after, time⟩, hpages, hrest⟩ := bind_eq_ok hrun
  have hafter := foldlM_keeps (fun state : ConvFtl × ℕ => state.1.ssd.writeBuffer)
    (fun _ _ _ hpage => writePage_writeBuffer hpage) hpages
  dsimp only at hrest
  obtain ⟨collected, hgc, hdone⟩ := bind_eq_ok hrest
  cases hdone
  exact (backgroundGc_writeBuffer hgc).trans hafter

def plainPath (g : Geometry) (cp : ConvParams) : WritePath ConvFtl where
  wbuf s := s.ssd.writeBuffer
  setWbuf s buf := { s with ssd := { s.ssd with writeBuffer := buf } }
  getWallclock s :=
    ((Timing.getWallclock s.ssd).1, { s with ssd := (Timing.getWallclock s.ssd).2 })
  writePages := plainPages g cp
  wbuf_setWbuf _ _ := rfl
  wbuf_getWallclock s := getWallclock_writeBuffer s.ssd
  wbuf_writePages := plainPages_writeBuffer g cp

/-- The two-part `conv_write` is the one of the model. -/
theorem convWriteOn_plainPath (g : Geometry) (cp : ConvParams) :
    convWriteOn (plainPath g cp) = convWrite g cp := by
  funext sqid s cmd
  rw [convWriteOn, convWrite]
  dsimp only [plainPath]
  split_ifs
  · rfl
  · rw [plainPages]
    rw [bind_assoc]
    apply bind_congr
    rintro ⟨after, time⟩
    dsimp only
    rw [bind_assoc, backgroundGc]
    split_ifs
    · rw [bind_assoc]
      rfl
    · rfl

/-! ## Small runs -/

theorem maxLength_lt : 2 ^ 16 - 1 < 2 ^ 16 := by decide

/-- A command of `2 ^ 16` blocks. -/
def largest : RwCommand := ⟨0, 2 ^ 16 - 1, maxLength_lt⟩

def twoPagePath : WritePath ConvFtl := plainPath twoPageLines ⟨2, 2, true⟩

def twoPageState : ConvState ConvFtl := ⟨twoPageStart, []⟩

theorem twoPageState_init : (convMachine twoPagePath).init twoPageState :=
  ⟨rfl, rfl⟩

/-- A command larger than the buffer is refused, and its writeback completed. -/
theorem conserved_iff_refused : ∃ s',
    (convMachine twoPagePath).run
        [.write 1 largest false, .complete 0] twoPageState = some s' ∧
      (Conserved twoPagePath s' ↔
          ∀ cmd ∈ commands [.write 1 largest false, .complete 0],
            (twoPagePath.wbuf twoPageState.ftl).size < cmd.bytes) ∧
      (s'.pending = [] →
        ((twoPagePath.wbuf s'.ftl).remaining =
            (twoPagePath.wbuf s'.ftl).size ↔
          ∀ cmd ∈ commands [.write 1 largest false, .complete 0],
            (twoPagePath.wbuf twoPageState.ftl).size < cmd.bytes)) := by
  have hsome : ((convMachine twoPagePath).run
      [.write 1 largest false, .complete 0] twoPageState).isSome = true := by
    decide +kernel
  obtain ⟨s', hrun⟩ := Option.isSome_iff_exists.mp hsome
  exact ⟨s', hrun, conserved_iff twoPagePath twoPageState_init hrun⟩

/-- After one page was written nothing is pending, and its bytes are gone. -/
theorem one_page_leaks : (convMachine twoPagePath).init twoPageState ∧
    ∃ s', (convMachine twoPagePath).run
        [.write 1 (writeFromZero 1 (by decide)) false] twoPageState =
          some s' ∧
      s'.pending = [] ∧ (twoPagePath.wbuf s'.ftl).remaining = 61440 ∧
      (twoPagePath.wbuf s'.ftl).size = 65536 := by
  have hrun : ((convMachine twoPagePath).run
      [.write 1 (writeFromZero 1 (by decide)) false] twoPageState).map
        (fun s => (s.pending, twoPagePath.wbuf s.ftl)) =
      some ([], ⟨65536, 61440⟩) := by
    decide +kernel
  obtain ⟨s', hsome, hproj⟩ := Option.map_eq_some_iff.mp hrun
  have hbuffer : twoPagePath.wbuf s'.ftl = ⟨65536, 61440⟩ :=
    congrArg Prod.snd hproj
  refine ⟨twoPageState_init, s', hsome, congrArg Prod.fst hproj, ?_, ?_⟩
  · rw [hbuffer]
  · rw [hbuffer]

end NvmeVirt.WriteBuffer
