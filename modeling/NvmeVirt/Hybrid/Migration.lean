import NvmeVirt.Hybrid.Mapping

/-!
# Hotness and migration

Every page write counts as an access.  Once in a `migration_interval` the
write also looks through the hotness table for SLC pages that are rarely
accessed and moves them to QLC channels; then it places the page itself in an
SLC channel.
-/

namespace NvmeVirt.Migration

open NvmeVirt.HybridConfig
open NvmeVirt.HybridMapping
open NvmeVirt.Kernel
open NvmeVirt.Layout
open NvmeVirt.Mapping (setMaptblEnt setRmapEnt)
open NvmeVirt.Timing

/-- A page that `migrate_page` moved, and where from.  This is history. -/
structure Move where
  lpn : ℕ
  old : Ppa
  deriving DecidableEq, Repr

/-- What `migrate_page` returns and leaves. -/
structure Migrated (h : HybridGeometry) where
  migrationTime : ℕ
  moved : List Move
  state : HybridFtl h

/-- What a page write returns and leaves. -/
structure PageWritten (h : HybridGeometry) where
  completedTime : ℕ
  moved : List Move
  state : HybridFtl h

section

variable {h : HybridGeometry}

/-- Overwrite the hotness entry `idx`. -/
def setHotness (s : HybridFtl h) (idx : ℕ) (hotness : PageHotness) :
    HybridFtl h :=
  { s with hotnessTable := s.hotnessTable.set idx hotness }

/-- The access that `update_page_hotness` notes.  The entry's time is the
current one when its age is looked at. -/
def accessed (hotness : PageHotness) (currentTime : ℕ) : PageHotness :=
  let hotness :=
    { hotness with
      accessCount := u32 (hotness.accessCount + 1)
      recentAccess := u32 (hotness.recentAccess + 1)
      lastAccessTime := currentTime }
  if 1000000000 < sub64 currentTime hotness.lastAccessTime then
    { hotness with recentAccess := hotness.recentAccess - 1 }
  else hotness

/-- `update_page_hotness`. -/
def updatePageHotness (s : HybridFtl h) (lpn : ℕ) : HybridFtl h :=
  let found := getHotnessEntry s.hotnessTable lpn
  match found.1 with
  | none => s
  | some idx =>
      let (currentTime, ssd) := getWallclock s.ssd
      setHotness { s with hotnessTable := found.2, ssd := ssd } idx
        (accessed (found.2.entry idx) currentTime)

/-- `should_migrate_page`, for the entry of a tracked page. -/
def shouldMigratePage (h : HybridGeometry) (hotness : PageHotness) : Bool :=
  ¬ hotness.isMigrating ∧ hotness.storageType = .slc ∧
    hotness.recentAccess ≤ h.coldThreshold

/-- The half of `migrate_page` that changes the mapping: from the page it
allocates to the old page it invalidates. -/
def remap (s : HybridFtl h) (lpn : ℕ) (oldPpa newPpa : Ppa) :
    Except Fault (HybridFtl h) := do
  let ftl ← setMaptblEnt h.toGeometry s.ftl lpn newPpa
  let ftl ← setRmapEnt h.toGeometry ftl lpn newPpa
  let s ← advanceWritePointerQLC { s with ftl := ftl } .gc
  let s ← markPageInvalid s oldPpa
  return { s with usedSlcPages := sub64 s.usedSlcPages 1 }

/-- `migrate_page`.  Its commands leave `interleave_pci_dma` unset; `dma` is
what the stack held. -/
def migratePage (dma : ℕ → Bool) (s : HybridFtl h) (lpn : ℕ) :
    Except Fault (Migrated h) := do
  let found := getHotnessEntry s.hotnessTable lpn
  match found.1 with
  | none => return { migrationTime := 0, moved := [], state := s }
  | some idx =>
      let s := { s with hotnessTable := found.2 }
      match s.ftl.maptbl lpn with
      | none => return { migrationTime := 0, moved := [], state := s }
      | some oldPpa =>
          let hotness := found.2.entry idx
          let s := setHotness s idx { hotness with isMigrating := true }
          let (stime, ssd) := getWallclock s.ssd
          let (readTime, ssd) := advanceNand h.toHybridParams h.toSsdParams ssd
            { type := .gc, cmd := .read, xferSize := h.pgsz, stime := stime,
              interleavePciDma := dma lpn, ppa := some oldPpa }
          let newPpa ← getNewPage h s.ftl .gc
          let s := setHotness
            { s with usedQlcPages := u64 (s.usedQlcPages + 1) } idx
            { hotness with isMigrating := true, storageType := .qlc }
          let (migrationTime, ssd) :=
            advanceNand h.toHybridParams h.toSsdParams ssd
              { type := .gc, cmd := .write, xferSize := h.pgsz,
                stime := readTime, interleavePciDma := dma lpn,
                ppa := some newPpa }
          let s ← remap { s with ssd := ssd } lpn oldPpa newPpa
          return {
            migrationTime := migrationTime
            moved := [{ lpn := lpn, old := oldPpa }]
            state := setHotness s idx
              { hotness with isMigrating := false, storageType := .qlc } }

/-- One round of the loop of `check_and_perform_migrations`, with the pages
moved so far.  The loop ends when `max_migrations_per_check` is reached, which
later rounds find reached again. -/
def migrationRound (dma : ℕ → Bool) (state : List Move × HybridFtl h)
    (i : ℕ) : Except Fault (List Move × HybridFtl h) :=
  let s := state.2
  if h.maxMigrationsPerCheck ≤ s.currentMigrations then .ok state
  else
    match s.hotnessTable.lpn i with
    | none => .ok state
    | some lpn =>
        if shouldMigratePage h (s.hotnessTable.entry i) then do
          let out ← migratePage dma s lpn
          let s := out.state
          return (state.1 ++ out.moved,
            if 0 < out.migrationTime then
              { s with currentMigrations := u32 (s.currentMigrations + 1) }
            else s)
        else .ok state

/-- `check_and_perform_migrations`. -/
def checkAndPerformMigrations (dma : ℕ → Bool) (s : HybridFtl h) :
    Except Fault (List Move × HybridFtl h) :=
  let (currentTime, ssd) := getWallclock s.ssd
  let s := { s with ssd := ssd }
  if sub64 currentTime s.lastMigrationCheck < h.migrationInterval then
    .ok ([], s)
  else
    (List.range h.hotnessTableSize).foldlM (migrationRound dma)
      ([], { s with
        lastMigrationCheck := currentTime, currentMigrations := 0 })

/-- The placing half of a page write of `conv_write`: from the page it
allocates to the advance of the write pointer. -/
def placePage (s : HybridFtl h) (lpn completedTime : ℕ) :
    Except Fault (ℕ × HybridFtl h) := do
  let s :=
    { s with lunpointer := lpn % (h.slcChannels * h.slcLunsPerCh) }
  let ppa ← getNewPageDA s .user
  let (completedTime, ssd) := advanceNand h.toHybridParams h.toSsdParams s.ssd
    { type := .user, cmd := .write, xferSize := h.pgsz,
      stime := completedTime, interleavePciDma := true, ppa := some ppa }
  let (completedTime, ssd) :=
    ssdAdvanceWriteBuffer h.toSsdParams ssd completedTime h.pgsz
  let ftl ← setMaptblEnt h.toGeometry s.ftl lpn ppa
  let ftl ← setRmapEnt h.toGeometry ftl lpn ppa
  let s ← advanceWritePointerDA { s with ftl := ftl, ssd := ssd } .user
  return (completedTime, s)

/-- One page write of `conv_write`.  The credit check before it finds the
credits of `init_write_flow_control`, which nothing consumes. -/
def writePage (dma : ℕ → Bool) (s : HybridFtl h) (lpn completedTime : ℕ) :
    Except Fault (PageWritten h) := do
  let s := updatePageHotness s lpn
  let checked ← checkAndPerformMigrations dma s
  let placed ← placePage checked.2 lpn completedTime
  return {
    completedTime := placed.1, moved := checked.1, state := placed.2 }

end

end NvmeVirt.Migration
