import NvmeVirt.Conv.WriteBuffer
import NvmeVirt.Conv.Partitions
import NvmeVirt.Hybrid.IdleTime

/-!
# Flushes of a conventional namespace

A flush completes when every instance is idle.  Reads, writes and garbage
collection reach the dies through `ssd_advance_nand` only, so that a flush
waits for whatever any run of commands before it had the dies do.
-/

namespace NvmeVirt.ConvFlush

open NvmeVirt.DieTimes
open NvmeVirt.GarbageCollection
open NvmeVirt.IdleTime
open NvmeVirt.Kernel
open NvmeVirt.Latest
open NvmeVirt.Layout
open NvmeVirt.Mapping
open NvmeVirt.Partitions
open NvmeVirt.Timing
open NvmeVirt.Transition
open NvmeVirt.Write
open NvmeVirt.WriteBuffer

/-- A command, as `conv_proc_nvme_io_cmd` tells them apart. -/
inductive ConvIo
  | write (sqid : ℕ) (cmd : RwCommand)
  | read (cmd : RwCommand)
  | flush
  | unimplemented

section

variable (g : Geometry) (cp : ConvParams) (lat : ReadLatency) (nrParts : ℕ)

/-- The loop body of `conv_flush`. -/
def flushPart (state : ℕ × ConvNs) (i : ℕ) : ℕ × ConvNs :=
  let (latest, s) := state
  let (time, ssd) := ssdNextIdleTime g.toSsdParams (s.ssds i)
  (max latest time, s.setSsd i ssd)

/-- `conv_flush`: `latest`, and the namespace. -/
def convFlush (s : ConvNs) : ℕ × ConvNs :=
  let (start, ssd) := getWallclock (s.ssds 0)
  (List.range nrParts).foldl (flushPart g) (start, s.setSsd 0 ssd)

/-- `conv_proc_nvme_io_cmd`, with `ret` and the `nsecs_start` of the request;
`none` where it returns `false`. -/
def convProcNvmeIoCmd (nsecsStart : ℕ) (ret : NvmevResult) (s : ConvNs) :
    ConvIo → Except Fault (Option NvmevResult × ConvNs)
  | .write sqid cmd => do
      let (result, s) ← nsWrite g cp sqid s cmd
      return (some { ret with nsecsTarget := result.nsecsTarget }, s)
  | .read cmd =>
      match convRead g lat nrParts s nsecsStart cmd with
      | none => .ok (none, s)
      | some (result, s) =>
          .ok (some { ret with
            nsecsTarget := result.nsecsTarget, status := result.status }, s)
  | .flush =>
      let (latest, s) := convFlush g nrParts s
      .ok (some { ret with status := 0, nsecsTarget := latest }, s)
  | .unimplemented => .ok (some ret, s)

/-- Commands one after the other, each with the time it was fetched at, as
`__nvmev_proc_io` hands them on. -/
def convIoRun (s : ConvNs) (cmds : List (ℕ × ConvIo)) : Except Fault ConvNs :=
  cmds.foldlM
    (fun s cmd => do
      let (_, s) ← convProcNvmeIoCmd g cp lat nrParts cmd.1
        { status := 0, nsecsTarget := cmd.1, result := 0 } s cmd.2
      return s)
    s

end

/-! ## What the commands do to a device -/

variable {g : Geometry} {cp : ConvParams} {lat : ReadLatency} {nrParts : ℕ}
  {spp : SsdParams} {ssd mid after : Ssd}

/-! ### Garbage collection -/

theorem follows_gcDelay {s : ConvFtl} (hssd : s.ssd = ssd) (ncmd : NandCmd) :
    Follows none g.toSsdParams ssd (gcDelay g cp s ncmd).ssd := by
  rw [← hssd, gcDelay]
  split_ifs
  · exact follows_nand _ _ _
  · exact .refl _ _ _

theorem follows_setGcEndtime (h : Follows none spp ssd mid) (p : Ppa) :
    Follows none spp ssd (setGcEndtime mid p) :=
  h.trans (follows_other _ spp rfl rfl)

theorem foldlM_follows {α : Type*} {step : ConvFtl → α → Except Fault ConvFtl}
    (hstep : ∀ s item s', step s item = .ok s' →
      Follows none g.toSsdParams s.ssd s'.ssd)
    {items : List α} {s s' : ConvFtl}
    (hrun : items.foldlM step s = .ok s') :
    Follows none g.toSsdParams s.ssd s'.ssd :=
  foldlM_rel (fun s s' : ConvFtl => Follows none g.toSsdParams s.ssd s'.ssd)
    (fun s => .refl _ _ s.ssd) (fun _ _ _ h hmore => h.trans hmore) hstep hrun

theorem follows_gcWritePage {s s' : ConvFtl} {oldPpa : Ppa}
    (hrun : gcWritePage g cp s oldPpa = .ok s') :
    Follows none g.toSsdParams s.ssd s'.ssd := by
  obtain ⟨⟨newPpa, mid⟩, hmid, hdone⟩ := bind_eq_ok hrun
  cases hdone
  exact follows_gcDelay (relocate_ssd g hmid) _

theorem follows_cleanOneFlashpg {s s' : ConvFtl} {ppa : Ppa}
    (hrun : cleanOneFlashpg g cp s ppa = .ok s') :
    Follows none g.toSsdParams s.ssd s'.ssd := by
  obtain ⟨cnt, -, hclean⟩ := bind_eq_ok hrun
  dsimp only at hclean
  split_ifs at hclean
  · cases hclean
    exact .refl _ _ _
  · refine (follows_gcDelay rfl _).trans (foldlM_follows ?_ hclean)
    intro s i s' hstep
    split_ifs at hstep
    · exact follows_gcWritePage hstep
    · cases hstep
      exact .refl _ _ _

theorem follows_gcRound {victimLine flashpg ch lun : ℕ} {s s' : ConvFtl}
    (hrun : gcRound g cp victimLine flashpg ch s lun = .ok s') :
    Follows none g.toSsdParams s.ssd s'.ssd := by
  obtain ⟨cleaned, hclean, hdone⟩ := bind_eq_ok hrun
  have hcleaned := follows_cleanOneFlashpg hclean
  split_ifs at hdone
  · cases hdone
    have herase (ftl : Ftl) (ppa : Ppa) : Follows none g.toSsdParams cleaned.ssd
        (setGcEndtime (gcDelay g cp { cleaned with ftl := ftl }
          (gcCmd .erase 0 ppa)).ssd ppa) :=
      follows_setGcEndtime (@follows_gcDelay g cp cleaned.ssd
        { cleaned with ftl := ftl } rfl _) ppa
    exact hcleaned.trans (herase _ _)
  · cases hdone
    exact hcleaned

theorem follows_doGc {s s' : ConvFtl} {force : Bool} {ret : ℤ}
    (hrun : doGc g cp s force = .ok (ret, s')) :
    Follows none g.toSsdParams s.ssd s'.ssd := by
  rw [doGc] at hrun
  split at hrun
  · cases hrun
    exact .refl _ _ _
  · obtain ⟨collected, hrounds, hdone⟩ := bind_eq_ok hrun
    have hcollected := foldlM_follows (fun s flashpg s' hflashpg =>
      foldlM_follows (fun s ch s' hluns =>
        foldlM_follows (fun s lun s' hround => follows_gcRound hround) hluns)
        hflashpg) hrounds
    cases hdone
    exact hcollected

/-! ### Writes -/

theorem follows_checkAndRefill {s s' : ConvFtl}
    (hrun : checkAndRefillWriteCredit g cp s = .ok s') :
    Follows none g.toSsdParams s.ssd s'.ssd := by
  rw [checkAndRefillWriteCredit] at hrun
  split_ifs at hrun
  · obtain ⟨collected, hgc, hdone⟩ := bind_eq_ok hrun
    have hcollected : Follows none g.toSsdParams s.ssd collected.ssd := by
      rw [forgroundGc] at hgc
      split_ifs at hgc
      · obtain ⟨⟨ret, s₁⟩, hdoGc, hgc⟩ := bind_eq_ok hgc
        cases hgc
        exact follows_doGc hdoGc
      · cases hgc
        exact .refl _ _ _
    cases hdone
    exact hcollected
  · cases hrun
    exact .refl _ _ _

theorem follows_writePage {state state' : ConvFtl × ℕ} {lpn : ℕ}
    (hrun : writePage g cp state lpn = .ok state') :
    Follows none g.toSsdParams state.1.ssd state'.1.ssd := by
  obtain ⟨refilled, hrefill, hpage⟩ := bind_eq_ok hrun
  obtain ⟨ftl₁, -, hpage⟩ := bind_eq_ok hpage
  obtain ⟨ftl₂, -, hpage⟩ := bind_eq_ok hpage
  obtain ⟨ftl₃, -, hpage⟩ := bind_eq_ok hpage
  cases hpage
  have hprogram := follows_nand g.toSsdParams refilled.ssd
    { type := .user, cmd := .write, xferSize := g.pgsz, stime := state.2,
      interleavePciDma := true, ppa := some (getNewPage refilled.ftl .user) }
  refine ((follows_checkAndRefill hrefill).trans hprogram).trans ?_
  exact follows_other _ _ rfl rfl

theorem follows_convWrite {sqid : ℕ} {s s' : ConvFtl} {cmd : RwCommand}
    {result : WriteResult}
    (hrun : convWrite g cp sqid s cmd = .ok (result, s')) :
    Follows none g.toSsdParams s.ssd s'.ssd := by
  rw [convWrite] at hrun
  dsimp only at hrun
  split_ifs at hrun
  · cases hrun
    exact follows_other _ _ rfl rfl
  · obtain ⟨⟨written, time⟩, hpages, hrest⟩ := bind_eq_ok hrun
    have hwritten := foldlM_rel
      (fun state state' : ConvFtl × ℕ =>
        Follows none g.toSsdParams state.1.ssd state'.1.ssd)
      (fun state => Follows.refl _ _ state.1.ssd)
      (fun _ _ _ h hmore => Follows.trans h hmore)
      (fun _ _ _ hpage => follows_writePage hpage) hpages
    have hstart : Follows none g.toSsdParams s.ssd
        { (getWallclock s.ssd).2 with
          writeBuffer := (bufferAllocate (getWallclock s.ssd).2.writeBuffer
            cmd.bytes).2 } := follows_other _ _ rfl rfl
    have hpages := hstart.trans hwritten
    dsimp only at hrest
    split_ifs at hrest
    · obtain ⟨⟨ret, collected⟩, hdoGc, hdone⟩ := bind_eq_ok hrest
      cases hdone
      exact hpages.trans (follows_doGc hdoGc)
    · cases hrest
      exact hpages

/-! ### Namespaces -/

/-- The devices of one state follow those of another. -/
def NsFollows (g : Geometry) (s s' : ConvNs) : Prop :=
  ∀ i, Follows none g.toSsdParams (s.ssds i) (s'.ssds i)

variable {s s' : ConvNs}

theorem NsFollows.refl (g : Geometry) (s : ConvNs) : NsFollows g s s :=
  fun _ => .refl _ _ _

theorem NsFollows.trans {first second third : ConvNs}
    (h : NsFollows g first second) (hmore : NsFollows g second third) :
    NsFollows g first third :=
  fun i => (h i).trans (hmore i)

/-- The other instances see the clock, the link and the buffer only. -/
theorem nsFollows_setSsd {i : ℕ} (h : Follows none g.toSsdParams (s.ssds i) ssd) :
    NsFollows g s (s.setSsd i ssd) := by
  intro j
  rw [ConvNs.setSsd]
  dsimp only
  split_ifs with hj
  · rw [hj]
    exact h
  · exact follows_other _ _ rfl rfl

theorem follows_issueRead (stime : ℕ) (loop : ReadLoop) :
    Follows none g.toSsdParams loop.ssd (issueRead g stime loop).ssd := by
  rw [issueRead]
  split_ifs
  · exact follows_nand _ _ _
  · exact .refl _ _ _

theorem follows_readPage (maptbl : ℕ → Option Ppa) (stime : ℕ)
    (loop : ReadLoop) (lpn : ℕ) :
    Follows none g.toSsdParams loop.ssd
      (readPage g nrParts maptbl stime loop lpn).ssd := by
  rw [readPage]
  cases maptbl (lpn / nrParts) with
  | none => exact .refl _ _ _
  | some ppa =>
      dsimp only
      split_ifs
      · exact .refl _ _ _
      · exact @follows_issueRead g stime
          { loop with consulted := loop.consulted ++ [(lpn, some ppa)] }
      · exact .refl _ _ _

theorem nsFollows_readPart (stime endLpn : ℕ)
    (state : ConvNs × ℕ × List (ℕ × Option Ppa)) (startLpn : ℕ) :
    NsFollows g state.1 (readPart g nrParts stime endLpn state startLpn).1 := by
  refine nsFollows_setSsd (.trans ?_ (follows_issueRead _ _))
  refine foldl_keeps (fun loop : ReadLoop => Follows none g.toSsdParams
    (state.1.ssds (startLpn % nrParts)) loop.ssd) (fun loop lpn _ h => ?_) ?_
  · exact h.trans (follows_readPage _ _ _ _)
  · exact .refl _ _ _

theorem nsFollows_convRead {nsecsStart : ℕ} {cmd : RwCommand}
    {result : ReadResult}
    (hread : convRead g lat nrParts s nsecsStart cmd = some (result, s')) :
    NsFollows g s s' := by
  rw [convRead] at hread
  dsimp only at hread
  split_ifs at hread
  all_goals
    cases hread
    refine foldl_keeps
      (fun state : ConvNs × ℕ × List (ℕ × Option Ppa) => NsFollows g s state.1)
      (fun state startLpn _ h => ?_) ?_
    · exact h.trans (nsFollows_readPart _ _ _ _)
    · exact .refl _ _

theorem nsFollows_nsWrite {sqid : ℕ} {cmd : RwCommand} {result : WriteResult}
    (hwrite : nsWrite g cp sqid s cmd = .ok (result, s')) :
    NsFollows g s s' := by
  obtain ⟨⟨result', part⟩, hpart, hdone⟩ := bind_eq_ok hwrite
  cases hdone
  have hfollows : Follows none g.toSsdParams (s.part 0).ssd part.ssd :=
    follows_convWrite hpart
  exact nsFollows_setSsd hfollows

theorem nsFollows_flushPart (state : ℕ × ConvNs) (i : ℕ) :
    NsFollows g state.2 (flushPart g state i).2 :=
  nsFollows_setSsd (follows_other _ _ rfl rfl)

theorem nsFollows_convFlush (g : Geometry) (nrParts : ℕ) (s : ConvNs) :
    NsFollows g s (convFlush g nrParts s).2 := by
  refine foldl_keeps (fun state : ℕ × ConvNs => NsFollows g s state.2)
    (fun state i _ h => ?_) ?_
  · exact h.trans (nsFollows_flushPart _ _)
  · exact nsFollows_setSsd (follows_other _ _ rfl rfl)

/-- The step lemma: every command reaches the dies by `ssd_advance_nand`
only. -/
theorem nsFollows_convProcNvmeIoCmd {nsecsStart : ℕ} {ret : NvmevResult}
    {io : ConvIo} {reply : Option NvmevResult}
    (hrun : convProcNvmeIoCmd g cp lat nrParts nsecsStart ret s io =
      .ok (reply, s')) : NsFollows g s s' := by
  cases io with
  | write sqid cmd =>
      obtain ⟨⟨result, written⟩, hwrite, hdone⟩ := bind_eq_ok hrun
      cases hdone
      exact nsFollows_nsWrite hwrite
  | read cmd =>
      rw [convProcNvmeIoCmd] at hrun
      cases hread : convRead g lat nrParts s nsecsStart cmd with
      | none =>
          rw [hread] at hrun
          cases hrun
          exact .refl _ _
      | some pair =>
          rw [hread] at hrun
          cases hrun
          exact nsFollows_convRead hread
  | flush =>
      cases hrun
      exact nsFollows_convFlush _ _ _
  | unimplemented =>
      cases hrun
      exact .refl _ _

/-- The run lemma. -/
theorem nsFollows_convIoRun {cmds : List (ℕ × ConvIo)}
    (hrun : convIoRun g cp lat nrParts s cmds = .ok s') : NsFollows g s s' := by
  refine foldlM_rel (NsFollows g) (NsFollows.refl g)
    (fun _ _ _ h hmore => h.trans hmore) (fun s cmd s' hstep => ?_) hrun
  obtain ⟨⟨reply, after⟩, hcmd, hdone⟩ := bind_eq_ok hstep
  cases hdone
  exact nsFollows_convProcNvmeIoCmd hcmd

/-! ## What a flush waits for -/

/-- The dies are those of `s`, and the clock the one of its first instance. -/
structure SameDies (s : ConvNs) (state : ℕ × ConvNs) : Prop where
  avail : ∀ i, (state.2.ssds i).nextLunAvailTime =
    (s.ssds i).nextLunAvailTime
  readings : ∀ i, (state.2.ssds i).clock.readings = (s.ssds 0).clock.readings

theorem sameDies_setSsd {t : ConvNs} {i latest : ℕ}
    (havail : ∀ i, (t.ssds i).nextLunAvailTime = (s.ssds i).nextLunAvailTime)
    (hreadings : (t.ssds i).clock.readings = (s.ssds 0).clock.readings) :
    SameDies s (latest, t.setSsd i (getWallclock (t.ssds i)).2) := by
  constructor
  · intro j
    rw [ConvNs.setSsd]
    dsimp only
    split_ifs with hj
    · rw [hj]
      exact havail i
    · exact havail j
  · intro j
    rw [ConvNs.setSsd]
    dsimp only
    split_ifs
    · exact hreadings
    · exact hreadings

theorem SameDies.flushPart {state : ℕ × ConvNs} (h : SameDies s state) (i : ℕ) :
    SameDies s (flushPart g state i) :=
  sameDies_setSsd h.avail (h.readings i)

theorem sameDies_start (s : ConvNs) (latest : ℕ) :
    SameDies s (latest, s.setSsd 0 (getWallclock (s.ssds 0)).2) :=
  sameDies_setSsd (fun _ => rfl) rfl

/-- A flush does not complete before the dies of every instance are
available. -/
theorem le_convFlush (g : Geometry) (nrParts : ℕ) (s : ConvNs) {i ch lun : ℕ}
    (hi : i < nrParts) (hch : ch < g.nchs) (hlun : lun < g.lunsPerCh) :
    (s.ssds i).nextLunAvailTime ch lun ≤ (convFlush g nrParts s).1 := by
  refine (@le_foldl_of _ _ _ _ (flushPart g) Prod.fst
    (fun i => (s.ssds i).nextLunAvailTime ch lun) (SameDies s)
    (fun _ i h => h.flushPart i) (fun state i _ => Nat.le_max_left _ _)
    (fun state i h => ?_) (List.range nrParts) _
    (sameDies_start s (getWallclock (s.ssds 0)).1)).2 i (List.mem_range.mpr hi)
  rw [← h.avail i]
  exact ((le_ssdNextIdleTime g.toSsdParams (state.2.ssds i)).2 ch hch lun
    hlun).trans (Nat.le_max_right _ _)

/-- It completes as soon as they are. -/
theorem convFlush_le {g : Geometry} {s : ConvNs} {bound : ℕ}
    (hclock : ∀ n, (s.ssds 0).clock.readings n ≤ bound)
    (hdies : ∀ i < nrParts, ∀ ch < g.nchs, ∀ lun < g.lunsPerCh,
      (s.ssds i).nextLunAvailTime ch lun ≤ bound) :
    (convFlush g nrParts s).1 ≤ bound := by
  refine (foldl_keeps
    (fun state : ℕ × ConvNs => state.1 ≤ bound ∧ SameDies s state)
    (fun state i hmem h => ⟨?_, h.2.flushPart i⟩)
    ⟨hclock _, sameDies_start s _⟩).1
  refine Nat.max_le.mpr ⟨h.1, ssdNextIdleTime_le ?_ ?_⟩
  · rw [getWallclock, Clock.read]
    dsimp only
    rw [h.2.readings]
    exact hclock _
  · rw [h.2.avail]
    exact hdies i (List.mem_range.mp hmem)

/-- After any run of commands, a flush waits for the calls of
`ssd_advance_nand` that the run made, if no time left 64 bits, and for nothing
else. -/
theorem flush_waits_for_calls {cmds : List (ℕ × ConvIo)}
    (hrun : convIoRun g cp lat nrParts s cmds = .ok s') :
    (∃ calls : ℕ → List NandCall,
      (∀ i, DeviceRun none g.toSsdParams (s.ssds i) (calls i) (s'.ssds i)) ∧
      ∀ i < nrParts, CallsFit none g.toSsdParams (calls i) →
        ∀ call ∈ calls i,
          WaitsFor g.toSsdParams (convFlush g nrParts s').1 call) ∧
    ∀ bound, (∀ n, (s'.ssds 0).clock.readings n ≤ bound) →
      (∀ i < nrParts, ∀ ch < g.nchs, ∀ lun < g.lunsPerCh,
        (s'.ssds i).nextLunAvailTime ch lun ≤ bound) →
      (convFlush g nrParts s').1 ≤ bound := by
  refine ⟨?_, fun bound hclock hdies => convFlush_le hclock hdies⟩
  obtain ⟨calls, hcalls⟩ := Classical.skolem.mp (nsFollows_convIoRun hrun)
  refine ⟨calls, hcalls, fun i hi hfit call hmem => ?_⟩
  have hidle : ∀ ch lun, ch < g.nchs → lun < g.lunsPerCh →
      (s'.ssds i).nextLunAvailTime ch lun ≤ (convFlush g nrParts s').1 :=
    fun ch lun hch hlun => le_convFlush g nrParts s' hi hch hlun
  exact (hcalls i).waitsFor hfit hidle call hmem

/-- A write and a read of the first page, and a flush. -/
def writeAndFlush : List (ℕ × ConvIo) :=
  [(0, .write 1 (onePage 0)), (0, .read (onePage 0)), (0, .flush)]

theorem flush_waits_for_calls_page : ∃ s',
    convIoRun twoPageLines ⟨2, 2, true⟩ ⟨0, 0⟩ 2 twoPageNs writeAndFlush =
        .ok s' ∧
      (∃ calls : ℕ → List NandCall,
        (∀ i, DeviceRun none twoPageLines.toSsdParams (twoPageNs.ssds i)
          (calls i) (s'.ssds i)) ∧
        ∀ i < 2, CallsFit none twoPageLines.toSsdParams (calls i) →
          ∀ call ∈ calls i, WaitsFor twoPageLines.toSsdParams
            (convFlush twoPageLines 2 s').1 call) ∧
      ∀ bound, (∀ n, (s'.ssds 0).clock.readings n ≤ bound) →
        (∀ i < 2, ∀ ch < twoPageLines.nchs, ∀ lun < twoPageLines.lunsPerCh,
          (s'.ssds i).nextLunAvailTime ch lun ≤ bound) →
        (convFlush twoPageLines 2 s').1 ≤ bound := by
  have hok : (convIoRun twoPageLines ⟨2, 2, true⟩ ⟨0, 0⟩ 2 twoPageNs
      writeAndFlush).isOk = true := by decide +kernel
  obtain ⟨s', hrun⟩ := exists_of_isOk hok
  exact ⟨s', hrun, flush_waits_for_calls hrun⟩

end NvmeVirt.ConvFlush
