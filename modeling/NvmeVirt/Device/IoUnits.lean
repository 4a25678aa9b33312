import NvmeVirt.Core.Ring
import NvmeVirt.Device.Kernel

/-!
# The I/O units

The simple and the key-value translation layer do not model NAND.  Each I/O
unit has a time until which it is busy; `__schedule_io_units` spreads a request
over the units it spans, and `__schedule_flush` waits for all of them.

A request starts when its first unit is free, and then sets the times of the
other units without looking at them.  A unit that was busy for longer moves
backwards, and a later flush does not wait for what it was busy with.
-/

namespace NvmeVirt.IoUnits

open NvmeVirt.Kernel
open NvmeVirt.Ring
open NvmeVirt.Transition

/-! ## The configuration -/

/-- The fields of `struct nvmev_config` for the I/O units.  `1 << io_unit_shift`
is only defined for shifts below the width of an `int`. -/
structure IoConfig where
  nrIoUnits : ℕ
  ioUnitShift : ℕ
  readDelay : ℕ
  readTime : ℕ
  readTrailing : ℕ
  writeDelay : ℕ
  writeTime : ℕ
  writeTrailing : ℕ
  nrIoUnits_pos : 0 < nrIoUnits
  ioUnitShift_ge : 9 ≤ ioUnitShift
  ioUnitShift_lt : ioUnitShift < 32

/-- `delay`, `latency` and `trailing` of a request. -/
structure Cost where
  delay : ℕ
  latency : ℕ
  trailing : ℕ

def nvmeCmdWrite : ℕ := 0x01

def nvmeCmdRead : ℕ := 0x02

def nvmeCmdKvStore : ℕ := 0x81

def nvmeCmdKvBatch : ℕ := 0x85

def nvmeCmdKvRetrieve : ℕ := 0x90

/-- The two files with a `__schedule_io_units`. -/
inductive IoFtl
  | simple
  | kv
  deriving DecidableEq, Repr

namespace IoConfig

variable (cfg : IoConfig)

/-- `io_unit_size`. -/
def ioUnitSize : ℕ := 2 ^ cfg.ioUnitShift

def writeCost : Cost :=
  { delay := cfg.writeDelay, latency := cfg.writeTime
    trailing := cfg.writeTrailing }

def readCost : Cost :=
  { delay := cfg.readDelay, latency := cfg.readTime
    trailing := cfg.readTrailing }

def noCost : Cost := { delay := 0, latency := 0, trailing := 0 }

/-- The branches on the opcode. -/
def cost (opcode : ℕ) : IoFtl → Cost
  | .simple =>
      if opcode = nvmeCmdWrite then cfg.writeCost
      else if opcode = nvmeCmdRead then cfg.readCost
      else noCost
  | .kv =>
      if opcode = nvmeCmdWrite ∨ opcode = nvmeCmdKvStore ∨
          opcode = nvmeCmdKvBatch then cfg.writeCost
      else if opcode = nvmeCmdRead ∨ opcode = nvmeCmdKvRetrieve then
        cfg.readCost
      else noCost

end IoConfig

/-! ## `__schedule_io_units` -/

/-- The arguments of `__schedule_io_units`. -/
structure IoUnitReq where
  opcode : ℕ
  lba : ℕ
  length : ℕ
  nsecsStart : ℕ
  deriving DecidableEq, Repr

/-- The variables of its loop. -/
structure UnitLoop where
  latest : ℕ
  ioUnitStat : ℕ → ℕ
  nrIoUnits : ℤ
  length : ℕ
  ioUnit : ℕ

section

variable (cfg : IoConfig) (cost : Cost)

/-- The body of the loop. -/
def unitRound (st : UnitLoop) : UnitLoop :=
  let latest := u64 (st.latest + cost.latency)
  let stat := Function.update st.ioUnitStat st.ioUnit latest
  { latest := latest
    ioUnitStat := if 0 < st.nrIoUnits then
        Function.update stat st.ioUnit
          (u64 (stat st.ioUnit + cost.trailing))
      else stat
    nrIoUnits := st.nrIoUnits - 1
    length := st.length - min st.length cfg.ioUnitSize
    ioUnit :=
      if cfg.nrIoUnits ≤ st.ioUnit + 1 then 0 else st.ioUnit + 1 }

/-- The loop.  A round takes at least one byte from a length that is left. -/
def unitLoop : ℕ → UnitLoop → Except Fault UnitLoop
  | 0, _ => .error .divergence
  | fuel + 1, st =>
      let st := unitRound cfg cost st
      if 0 < st.length then unitLoop fuel st else .ok st

variable (ioUnitStat : ℕ → ℕ) (req : IoUnitReq)

/-- The first unit of a request. -/
def firstUnit : ℕ := req.lba / 2 ^ (cfg.ioUnitShift - 9) % cfg.nrIoUnits

/-- `min(nr_io_units, DIV_ROUND_UP(length, io_unit_size))`, in 32 bits. -/
def nrTrailing : ℕ :=
  min cfg.nrIoUnits (u32 (req.length + cfg.ioUnitSize - 1) / cfg.ioUnitSize)

/-- `__schedule_io_units`.  The result is `latest`. -/
def scheduleIoUnits : Except Fault UnitLoop :=
  let ioUnit := firstUnit cfg req
  unitLoop cfg cost (req.length + 1)
    { latest := u64 (max req.nsecsStart (ioUnitStat ioUnit) + cost.delay)
      ioUnitStat := ioUnitStat
      nrIoUnits := nrTrailing cfg req
      length := req.length
      ioUnit := ioUnit }

/-- `__schedule_flush`. -/
def scheduleFlush : ℕ :=
  (List.range cfg.nrIoUnits).foldl (fun latest i => max latest (ioUnitStat i)) 0

end

/-! ## What the loop leaves -/

section

variable {cfg : IoConfig} {cost : Cost}

/-- How often the loop runs. -/
def visits (cfg : IoConfig) (length : ℕ) : ℕ :=
  max 1 (divRoundUp length cfg.ioUnitSize)

/-- The time that visit `step` leaves in its unit. -/
def mark (cost : Cost) (latest : ℕ) (nrIoUnits : ℤ) (step : ℕ) : ℕ :=
  latest + (step + 1) * cost.latency +
    if (step : ℤ) < nrIoUnits then cost.trailing else 0

def marks (cost : Cost) (latest : ℕ) (nrIoUnits : ℤ) (count : ℕ) : List ℕ :=
  (List.range count).map fun step => u64 (mark cost latest nrIoUnits step)

theorem ioUnitSize_pos (cfg : IoConfig) : 0 < cfg.ioUnitSize := Nat.two_pow_pos _

theorem visits_of_le {length : ℕ} (hle : length ≤ cfg.ioUnitSize) :
    visits cfg length = 1 := by
  have hsize := ioUnitSize_pos cfg
  rw [visits, divRoundUp]
  refine Nat.max_eq_left (Nat.le_of_lt_succ ?_)
  rw [Nat.div_lt_iff_lt_mul hsize]
  omega

theorem visits_of_lt {length : ℕ} (hlt : cfg.ioUnitSize < length) :
    visits cfg length = visits cfg (length - cfg.ioUnitSize) + 1 := by
  have hsize := ioUnitSize_pos cfg
  have hrest : 1 ≤ divRoundUp (length - cfg.ioUnitSize) cfg.ioUnitSize := by
    rw [divRoundUp, Nat.le_div_iff_mul_le hsize]
    omega
  have hsplit : length + cfg.ioUnitSize - 1 =
      length - cfg.ioUnitSize + cfg.ioUnitSize - 1 + cfg.ioUnitSize := by
    omega
  have hround : divRoundUp length cfg.ioUnitSize =
      divRoundUp (length - cfg.ioUnitSize) cfg.ioUnitSize + 1 := by
    rw [divRoundUp, divRoundUp, hsplit, Nat.add_div_right _ hsize]
  rw [visits, visits, hround]
  omega

theorem u64_add_u64 (left right : ℕ) : u64 (u64 left + right) =
    u64 (left + right) := Nat.mod_add_mod ..

/-- The first visit, and the others as the loop goes on. -/
theorem marks_succ (latest : ℕ) (nrIoUnits : ℤ) (count : ℕ) :
    marks cost latest nrIoUnits (count + 1) =
      u64 (mark cost latest nrIoUnits 0) ::
        marks cost (u64 (latest + cost.latency)) (nrIoUnits - 1) count := by
  rw [marks, List.range_succ_eq_map, List.map_cons, List.map_map]
  congr 1
  refine List.map_congr_left fun step _ => ?_
  have hcount : ((step + 1 : ℕ) : ℤ) < nrIoUnits ↔
      (step : ℤ) < nrIoUnits - 1 := by
    omega
  have htime : latest + (step + 1 + 1) * cost.latency =
      latest + cost.latency + (step + 1) * cost.latency := by
    rw [Nat.succ_mul (step + 1)]
    omega
  rw [Function.comp_apply, mark, mark, Nat.add_assoc (u64 _), u64_add_u64,
    ← Nat.add_assoc, ← htime]
  simp only [Nat.succ_eq_add_one, hcount]

/-- What one round does to the units. -/
theorem unitRound_stat (cfg : IoConfig) (cost : Cost) (st : UnitLoop) :
    (unitRound cfg cost st).ioUnitStat =
      Function.update st.ioUnitStat st.ioUnit
        (u64 (mark cost st.latest st.nrIoUnits 0)) := by
  dsimp only [unitRound]
  rw [mark, Nat.zero_add, Nat.one_mul, Nat.cast_zero]
  split_ifs with htrailing
  · rw [Function.update_self, Function.update_idem, u64_add_u64]
  · rw [Nat.add_zero]

theorem unitLoop_spec {fuel count : ℕ} {st : UnitLoop}
    (hfuel : st.length < fuel) (hunit : st.ioUnit = count % cfg.nrIoUnits) :
    ∃ st', unitLoop cfg cost fuel st = .ok st' ∧
      st'.latest =
        u64 (st.latest + visits cfg st.length * cost.latency) ∧
      st'.ioUnitStat = writeRing cfg.nrIoUnits st.ioUnitStat count
        (marks cost st.latest st.nrIoUnits (visits cfg st.length)) := by
  induction fuel generalizing st count with
  | zero => exact absurd hfuel (Nat.not_lt_zero _)
  | succ fuel ih =>
      have hsize := ioUnitSize_pos cfg
      have hstat := unitRound_stat cfg cost st
      rw [hunit] at hstat
      rw [unitLoop]
      rcases Nat.lt_or_ge cfg.ioUnitSize st.length with hmore | hlast
      · have hlength : (unitRound cfg cost st).length =
            st.length - cfg.ioUnitSize := by
          dsimp only [unitRound]
          rw [Nat.min_eq_right (Nat.le_of_lt hmore)]
        have hnext : (unitRound cfg cost st).ioUnit =
            (count + 1) % cfg.nrIoUnits := by
          have hplace := Nat.mod_lt count cfg.nrIoUnits_pos
          dsimp only [unitRound]
          rw [next_place cfg.nrIoUnits_pos, ← hunit]
          rw [← hunit] at hplace
          split_ifs <;> omega
        rw [if_pos (by rw [hlength]; omega)]
        obtain ⟨st', hrun, hlatest, hunits⟩ :=
          ih (show (unitRound cfg cost st).length < fuel by
            rw [hlength]; omega) hnext
        refine ⟨st', hrun, ?_, ?_⟩
        · rw [hlatest, hlength, visits_of_lt hmore, Nat.succ_mul]
          dsimp only [unitRound]
          rw [u64_add_u64]
          congr 1
          omega
        · rw [hunits, hlength, visits_of_lt hmore, marks_succ, writeRing,
            hstat]
          rfl
      · have hlength : (unitRound cfg cost st).length = 0 := by
          dsimp only [unitRound]
          rw [Nat.min_eq_left hlast, Nat.sub_self]
        rw [if_neg (by rw [hlength]; exact Nat.lt_irrefl 0)]
        refine ⟨_, rfl, ?_, ?_⟩
        · rw [visits_of_le hlast, Nat.one_mul]
          rfl
        · rw [visits_of_le hlast, marks_succ, writeRing, hstat]
          rfl

end

/-! ## Requests -/

/-- The time from which a request takes its units. -/
def startTime (cfg : IoConfig) (cost : Cost) (ioUnitStat : ℕ → ℕ)
    (req : IoUnitReq) : ℕ :=
  max req.nsecsStart (ioUnitStat (firstUnit cfg req)) + cost.delay

/-- No time of the request leaves 64 bits. -/
def Fits (cfg : IoConfig) (cost : Cost) (ioUnitStat : ℕ → ℕ)
    (req : IoUnitReq) : Prop :=
  startTime cfg cost ioUnitStat req +
    visits cfg req.length * cost.latency + cost.trailing < 2 ^ 64

/-- No unit that the request spans is busy for longer than the request will
be busy with it.  The last lap over the units decides. -/
def Clear (cfg : IoConfig) (cost : Cost) (ioUnitStat : ℕ → ℕ)
    (req : IoUnitReq) : Prop :=
  ∀ step < visits cfg req.length,
    visits cfg req.length ≤ step + cfg.nrIoUnits →
      ioUnitStat ((firstUnit cfg req + step) % cfg.nrIoUnits) ≤
        mark cost (startTime cfg cost ioUnitStat req) (nrTrailing cfg req) step

section

variable {cfg : IoConfig} {cost : Cost} {ioUnitStat : ℕ → ℕ} {req : IoUnitReq}

/-- A request ends after its visits, and each unit has the time of its last
visit. -/
theorem scheduleIoUnits_spec (hfits : Fits cfg cost ioUnitStat req) :
    ∃ st, scheduleIoUnits cfg cost ioUnitStat req = .ok st ∧
      st.latest = startTime cfg cost ioUnitStat req +
        visits cfg req.length * cost.latency ∧
      st.ioUnitStat = writeRing cfg.nrIoUnits ioUnitStat (firstUnit cfg req)
        ((List.range (visits cfg req.length)).map
          (mark cost (startTime cfg cost ioUnitStat req)
            (nrTrailing cfg req))) := by
  have hstart : startTime cfg cost ioUnitStat req < 2 ^ 64 := by
    rw [Fits] at hfits
    omega
  let first : UnitLoop :=
    { latest := u64 (startTime cfg cost ioUnitStat req)
      ioUnitStat := ioUnitStat
      nrIoUnits := nrTrailing cfg req
      length := req.length
      ioUnit := firstUnit cfg req }
  have hunit : first.ioUnit = firstUnit cfg req % cfg.nrIoUnits :=
    (Nat.mod_mod _ _).symm
  obtain ⟨st, hrun, hlatest, hstat⟩ :
      ∃ st, unitLoop cfg cost (req.length + 1) first = .ok st ∧ _ :=
    unitLoop_spec (Nat.lt_succ_self _) hunit
  dsimp only [first] at hlatest hstat
  rw [Fits] at hfits
  refine ⟨st, hrun, ?_, ?_⟩
  · rw [hlatest, u64_of_lt hstart]
    apply u64_of_lt
    omega
  · rw [hstat, u64_of_lt hstart, marks]
    congr 1
    refine List.map_congr_left fun step hstep => u64_of_lt ?_
    have hcount : step + 1 ≤ visits cfg req.length := List.mem_range.mp hstep
    have hvisit := Nat.mul_le_mul_right cost.latency hcount
    rw [mark]
    split_ifs <;> omega

/-- Every visit of a unit is followed by one in the last lap. -/
theorem exists_last_visit {size step count : ℕ} (first : ℕ)
    (hsize : 0 < size) (hstep : step < count) :
    ∃ last < count, count ≤ last + size ∧
      (first + last) % size = (first + step) % size := by
  have hsplit := Nat.div_add_mod (count - 1 - step) size
  have hrest := Nat.mod_lt (count - 1 - step) hsize
  refine ⟨step + size * ((count - 1 - step) / size), by omega, by omega, ?_⟩
  rw [← Nat.add_assoc, Nat.add_mul_mod_self_left]

theorem forward_iff {st : UnitLoop} (hfits : Fits cfg cost ioUnitStat req)
    (hrun : scheduleIoUnits cfg cost ioUnitStat req = .ok st) :
    (∀ i < cfg.nrIoUnits, ioUnitStat i ≤ st.ioUnitStat i) ↔
      Clear cfg cost ioUnitStat req := by
  obtain ⟨_, hrun', -, hstat⟩ := scheduleIoUnits_spec hfits
  cases hrun.symm.trans hrun'
  have hlast : ∀ step < visits cfg req.length,
      visits cfg req.length ≤ step + cfg.nrIoUnits →
      st.ioUnitStat ((firstUnit cfg req + step) % cfg.nrIoUnits) =
        mark cost (startTime cfg cost ioUnitStat req) (nrTrailing cfg req)
          step := by
    intro step hstep hlap
    rw [hstat]
    apply writeRing_recent
    · rw [List.getElem?_map, List.getElem?_range hstep]
      rfl
    · rw [List.length_map, List.length_range]
      exact hlap
  constructor
  · intro hforward step hstep hlap
    rw [← hlast step hstep hlap]
    exact hforward _ (Nat.mod_lt _ cfg.nrIoUnits_pos)
  · intro hclear i hi
    by_cases hvisited : ∃ step < visits cfg req.length,
        i = (firstUnit cfg req + step) % cfg.nrIoUnits
    · obtain ⟨step, hstep, rfl⟩ := hvisited
      obtain ⟨last, hlt, hlap, hsame⟩ :=
        exists_last_visit (firstUnit cfg req) cfg.nrIoUnits_pos hstep
      rw [← hsame, hlast last hlt hlap]
      exact hclear last hlt hlap
    · rw [hstat, writeRing_of_ne]
      intro step hstep heq
      rw [List.length_map, List.length_range] at hstep
      exact hvisited ⟨step, hstep, heq⟩

/-- The unit that a request visits last is busy until its target at least. -/
theorem target_le {st : UnitLoop} (hfits : Fits cfg cost ioUnitStat req)
    (hrun : scheduleIoUnits cfg cost ioUnitStat req = .ok st) :
    ∃ i < cfg.nrIoUnits, st.latest ≤ st.ioUnitStat i := by
  obtain ⟨_, hrun', hlatest, hstat⟩ := scheduleIoUnits_spec hfits
  cases hrun.symm.trans hrun'
  obtain ⟨step, hstep⟩ : ∃ step, visits cfg req.length = step + 1 :=
    ⟨_, (Nat.sub_add_cancel (Nat.le_max_left 1 _)).symm⟩
  refine ⟨(firstUnit cfg req + step) % cfg.nrIoUnits,
    Nat.mod_lt _ cfg.nrIoUnits_pos, ?_⟩
  have hpos := cfg.nrIoUnits_pos
  have hlast : st.ioUnitStat ((firstUnit cfg req + step) % cfg.nrIoUnits) =
      mark cost (startTime cfg cost ioUnitStat req) (nrTrailing cfg req)
        step := by
    rw [hstat, hstep]
    apply writeRing_recent
    · rw [List.getElem?_map, List.getElem?_range (Nat.lt_succ_self step)]
      rfl
    · rw [List.length_map, List.length_range]
      omega
  rw [hlatest, hlast, hstep]
  exact Nat.le_add_right _ _

theorem le_foldl_max (indices : List ℕ) (first : ℕ) :
    first ≤ indices.foldl (fun latest i => max latest (ioUnitStat i)) first ∧
      ∀ i ∈ indices, ioUnitStat i ≤
        indices.foldl (fun latest i => max latest (ioUnitStat i)) first := by
  induction indices generalizing first with
  | nil => exact ⟨Nat.le_refl _, fun _ hmem => nomatch hmem⟩
  | cons index indices ih =>
      obtain ⟨hfirst, hrest⟩ := ih (max first (ioUnitStat index))
      rw [List.foldl_cons]
      refine ⟨(Nat.le_max_left _ _).trans hfirst, fun i hmem => ?_⟩
      rcases List.mem_cons.mp hmem with rfl | hmem
      · exact (Nat.le_max_right _ _).trans hfirst
      · exact hrest i hmem

theorem le_scheduleFlush {i : ℕ} (hi : i < cfg.nrIoUnits) :
    ioUnitStat i ≤ scheduleFlush cfg ioUnitStat :=
  (le_foldl_max (List.range cfg.nrIoUnits) 0).2 i (List.mem_range.mpr hi)

end

/-! ## Runs -/

/-- The units, the start time of the last request, and the target times that
have been returned. -/
structure UnitRun where
  ioUnitStat : ℕ → ℕ
  nsecsLast : ℕ
  targets : List ℕ

inductive UnitAction
  | schedule (req : IoUnitReq)
  | flush

def unitStep (cfg : IoConfig) (ftl : IoFtl) (s : UnitRun) :
    UnitAction → Except Fault UnitRun
  | .schedule req => do
      let st ← scheduleIoUnits cfg (cfg.cost req.opcode ftl) s.ioUnitStat req
      .ok
        { ioUnitStat := st.ioUnitStat
          nsecsLast := req.nsecsStart
          targets := s.targets ++ [st.latest] }
  | .flush => .ok s

/-- Requests come in the order of their start times.  Each of them meets
`condition`. -/
def unitMachine (cfg : IoConfig) (ftl : IoFtl)
    (condition : Cost → (ℕ → ℕ) → IoUnitReq → Prop) :
    Machine UnitRun UnitAction Fault where
  init s := (∀ i, s.ioUnitStat i = 0) ∧ s.targets = []
  enabled s action :=
    match action with
    | .schedule req => s.nsecsLast ≤ req.nsecsStart ∧
        condition (cfg.cost req.opcode ftl) s.ioUnitStat req
    | .flush => True
  step := unitStep cfg ftl

instance (cfg : IoConfig) (ftl : IoFtl)
    (condition : Cost → (ℕ → ℕ) → IoUnitReq → Prop)
    [∀ cost stat req, Decidable (condition cost stat req)] (s : UnitRun)
    (action : UnitAction) :
    Decidable ((unitMachine cfg ftl condition).enabled s action) :=
  match action with
  | .schedule req => inferInstanceAs (Decidable
      (s.nsecsLast ≤ req.nsecsStart ∧
        condition (cfg.cost req.opcode ftl) s.ioUnitStat req))
  | .flush => isTrue trivial

/-- The condition under which no unit moves backwards. -/
def Steady (cfg : IoConfig) (cost : Cost) (ioUnitStat : ℕ → ℕ)
    (req : IoUnitReq) : Prop :=
  Fits cfg cost ioUnitStat req ∧ Clear cfg cost ioUnitStat req

/-- In every run whose requests are all steady, a flush waits for every
request before it; and a request moves no unit backwards if and only if no
unit it spans is busy for longer than the request will be busy with it. -/
theorem units_forward_iff {cfg : IoConfig} {ftl : IoFtl} {s : UnitRun}
    (hreach : Reachable (unitMachine cfg ftl (Steady cfg)) s) :
    (∀ target ∈ s.targets, target ≤ scheduleFlush cfg s.ioUnitStat) ∧
      ∀ req, Fits cfg (cfg.cost req.opcode ftl) s.ioUnitStat req →
        ∃ st, scheduleIoUnits cfg (cfg.cost req.opcode ftl) s.ioUnitStat req =
            .ok st ∧
          ((∀ i < cfg.nrIoUnits, s.ioUnitStat i ≤ st.ioUnitStat i) ↔
            Clear cfg (cfg.cost req.opcode ftl) s.ioUnitStat req) := by
  constructor
  · have hinv : ∀ target ∈ s.targets,
        ∃ i < cfg.nrIoUnits, target ≤ s.ioUnitStat i := by
      refine hreach.invariant (fun s => ∀ target ∈ s.targets,
        ∃ i < cfg.nrIoUnits, target ≤ s.ioUnitStat i) (fun start hinit => ?_)
        fun before action after hinv henabled hrun => ?_
      · intro target hmem
        rw [hinit.2] at hmem
        cases hmem
      · cases action with
        | flush =>
            cases hrun
            exact hinv
        | schedule req =>
            obtain ⟨st, hschedule, hrun⟩ := bind_eq_ok hrun
            cases hrun
            obtain ⟨-, hfits, hclear⟩ := henabled
            have hforward := (forward_iff hfits hschedule).mpr hclear
            intro target hmem
            rcases List.mem_append.mp hmem with hold | hnew
            · obtain ⟨i, hi, hle⟩ := hinv target hold
              exact ⟨i, hi, hle.trans (hforward i hi)⟩
            · cases List.mem_singleton.mp hnew
              exact target_le hfits hschedule
    intro target hmem
    obtain ⟨i, hi, hle⟩ := hinv target hmem
    exact hle.trans (le_scheduleFlush hi)
  · intro req hfits
    obtain ⟨st, hrun, -, -⟩ := scheduleIoUnits_spec hfits
    exact ⟨st, hrun, forward_iff hfits hrun⟩

/-! ## Two units of the default configuration -/

theorem defaultUnits_pos : 0 < 8 := Nat.succ_pos 7

/-- The defaults of the module parameters. -/
def defaultUnits : IoConfig where
  nrIoUnits := 8
  ioUnitShift := 12
  readDelay := 1
  readTime := 1
  readTrailing := 0
  writeDelay := 1
  writeTime := 1
  writeTrailing := 0
  nrIoUnits_pos := defaultUnits_pos
  ioUnitShift_ge := Nat.le_of_ble_eq_true rfl
  ioUnitShift_lt := Nat.le_of_ble_eq_true rfl

/-- A write of 4 KiB to the second unit. -/
def secondUnitWrite : IoUnitReq :=
  { opcode := nvmeCmdWrite, lba := 8, length := 4096, nsecsStart := 0 }

/-- A write of 8 KiB to the first two units. -/
def bothUnitsWrite : IoUnitReq :=
  { opcode := nvmeCmdWrite, lba := 0, length := 8192, nsecsStart := 0 }

def idleUnits : UnitRun :=
  { ioUnitStat := fun _ => 0, nsecsLast := 0, targets := [] }

instance (cost : Cost) (ioUnitStat : ℕ → ℕ) (req : IoUnitReq) :
    Decidable (Steady defaultUnits cost ioUnitStat req) := by
  unfold Steady Fits Clear
  infer_instance

theorem units_forward_iff_default :
    ∃ s, Reachable (unitMachine defaultUnits .simple (Steady defaultUnits)) s ∧
      s.targets = [2] ∧ 2 ≤ scheduleFlush defaultUnits s.ioUnitStat ∧
      ∃ st, scheduleIoUnits defaultUnits defaultUnits.writeCost s.ioUnitStat
          bothUnitsWrite = .ok st ∧
        ∀ i < 8, s.ioUnitStat i ≤ st.ioUnitStat i := by
  have hrun : (((unitMachine defaultUnits .simple (Steady defaultUnits)).run
      [.schedule secondUnitWrite] idleUnits).map fun s =>
        (s.targets, decide (Steady defaultUnits defaultUnits.writeCost
          s.ioUnitStat bothUnitsWrite))) = some ([2], true) := by
    decide
  obtain ⟨s, hs, hshape⟩ := Option.map_eq_some_iff.mp hrun
  obtain ⟨htargets, hsteady⟩ := Prod.mk.inj hshape
  obtain ⟨hfits, hclear⟩ := of_decide_eq_true hsteady
  have hstart : (unitMachine defaultUnits .simple (Steady defaultUnits)).init
      idleUnits := ⟨fun _ => rfl, rfl⟩
  have hreach := (Reachable.start hstart).run hs
  obtain ⟨hflush, hforward⟩ := units_forward_iff hreach
  obtain ⟨st, hst, hiff⟩ := hforward bothUnitsWrite hfits
  refine ⟨s, hreach, htargets, hflush 2 ?_, st, hst, hiff.mpr hclear⟩
  rw [htargets]
  exact List.mem_singleton_self 2

/-- After three writes to the second unit, a write to both moves the second
unit backwards, and a flush no longer waits for the third write. -/
theorem second_unit_backwards :
    ∃ s s', Reachable (unitMachine defaultUnits .simple fun _ _ _ => True) s ∧
      s.nsecsLast ≤ bothUnitsWrite.nsecsStart ∧
      unitStep defaultUnits .simple s (.schedule bothUnitsWrite) = .ok s' ∧
      s'.ioUnitStat 1 < s.ioUnitStat 1 ∧
      ∃ target ∈ s'.targets,
        scheduleFlush defaultUnits s'.ioUnitStat < target := by
  have hstart : (unitMachine defaultUnits .simple fun _ _ _ => True).init
      idleUnits := ⟨fun _ => rfl, rfl⟩
  have hwrite : ∀ s : UnitRun, s.nsecsLast ≤ 0 →
      (unitMachine defaultUnits .simple fun _ _ _ => True).enabled s
        (.schedule secondUnitWrite) := fun _ hlast => ⟨hlast, trivial⟩
  refine ⟨_, _, (((Reachable.start hstart).next
    (hwrite _ (Nat.le_refl 0)) rfl).next (hwrite _ (Nat.le_refl 0)) rfl).next
    (hwrite _ (Nat.le_refl 0)) rfl, Nat.le_refl 0, rfl, ?_, 6, ?_, ?_⟩
  · decide
  · decide
  · decide

end NvmeVirt.IoUnits
