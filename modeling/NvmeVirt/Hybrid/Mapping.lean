import NvmeVirt.Conv.GarbageCollection
import NvmeVirt.Core.Probing
import NvmeVirt.Hybrid.Config

/-!
# State and primitive operations of the hybrid FTL

The hybrid build keeps, beside the superblock table `lm`, a table `lunlm` and
a write pointer `lunwp` for every die, and it tracks how hot a page is.  A
page that the host writes goes to the die `lunpointer`; garbage collection and
migration take their pages from the garbage collection pointer.
-/

namespace NvmeVirt.HybridMapping

open NvmeVirt.GarbageCollection
open NvmeVirt.HybridConfig
open NvmeVirt.Kernel
open NvmeVirt.Layout
open NvmeVirt.Mapping
open NvmeVirt.Probing
open NvmeVirt.Timing
open NvmeVirt.Transition
open NvmeVirt.VictimQueue

/-! ## The hotness table -/

/-- `struct page_hotness`, without `lpn`. -/
structure PageHotness where
  accessCount : ℕ
  recentAccess : ℕ
  lastAccessTime : ℕ
  storageType : StorageType
  isMigrating : Bool
  deriving DecidableEq, Repr

/-- The entry of a page that is tracked from now on. -/
def freshHotness : PageHotness where
  accessCount := 0
  recentAccess := 0
  lastAccessTime := 0
  storageType := .slc
  isMigrating := false

/-- The hash of `get_hotness_entry`. -/
def lpnHash (size lpn : ℕ) : ℕ := lpn % size

/-- `hotness_table`: the column `lpn`, with `none` for `INVALID_LPN`, and the
others.  Entries are only ever filled in by `get_hotness_entry`, so every
tracked page is found by probing. -/
structure HotnessTable (size : ℕ) where
  lpn : ℕ → Option ℕ
  entry : ℕ → PageHotness
  reached : Reached lpn size (lpnHash size)

/-- The table `init_hotness_tracking` sets up. -/
def emptyTable (size : ℕ) : HotnessTable size where
  lpn := fun _ => none
  entry := fun _ => freshHotness
  reached := fun _ _ _ hkey => nomatch hkey

section

variable {size : ℕ}

/-- Start to track a page in the entry that probing came to. -/
def HotnessTable.track (table : HotnessTable size) {lpn idx : ℕ}
    (hprobe : probe table.lpn size (lpnHash size) lpn = some idx) :
    HotnessTable size where
  lpn := Function.update table.lpn idx (some lpn)
  entry := Function.update table.entry idx freshHotness
  reached := table.reached.fill hprobe

/-- `get_hotness_entry`, with the index of the entry; `none` is its `NULL`. -/
def getHotnessEntry (table : HotnessTable size) (lpn : ℕ) :
    Option ℕ × HotnessTable size :=
  match hprobe : probe table.lpn size (lpnHash size) lpn with
  | none => (none, table)
  | some idx =>
      (some idx, if table.lpn idx = none then table.track hprobe else table)

/-- Overwrite the entry `idx`. -/
def HotnessTable.set (table : HotnessTable size) (idx : ℕ)
    (hotness : PageHotness) : HotnessTable size :=
  { table with entry := Function.update table.entry idx hotness }

@[simp]
theorem HotnessTable.set_lpn (table : HotnessTable size) (idx : ℕ)
    (hotness : PageHotness) : (table.set idx hotness).lpn = table.lpn := rfl

@[simp]
theorem HotnessTable.set_entry (table : HotnessTable size) (idx : ℕ)
    (hotness : PageHotness) : (table.set idx hotness).entry =
      Function.update table.entry idx hotness := rfl

@[simp]
theorem HotnessTable.set_set (table : HotnessTable size) (idx : ℕ)
    (hotness hotness' : PageHotness) :
    (table.set idx hotness).set idx hotness' = table.set idx hotness' := by
  simp [HotnessTable.set]

@[simp]
theorem HotnessTable.track_lpn (table : HotnessTable size) {lpn idx : ℕ}
    (hprobe : probe table.lpn size (lpnHash size) lpn = some idx) :
    (table.track hprobe).lpn = Function.update table.lpn idx (some lpn) := rfl

@[simp]
theorem HotnessTable.track_entry (table : HotnessTable size) {lpn idx : ℕ}
    (hprobe : probe table.lpn size (lpnHash size) lpn = some idx) :
    (table.track hprobe).entry =
      Function.update table.entry idx freshHotness := rfl

end

/-! ## State -/

/-- `struct conv_ftl` of the hybrid build with the device it drives.  What
`migration_mgmt` copies from the parameters stays there. -/
structure HybridFtl (h : HybridGeometry) where
  ftl : Ftl
  ssd : Ssd
  lunlm : ℕ → LineMgmt
  lunwp : ℕ → WritePointer
  lunpointer : ℕ
  hotnessTable : HotnessTable h.hotnessTableSize
  lastMigrationCheck : ℕ
  currentMigrations : ℕ
  usedSlcPages : ℕ
  usedQlcPages : ℕ

section

variable {h : HybridGeometry}

/-- The number of dies the tables of the driver have. -/
def luncount (h : HybridGeometry) : ℕ := h.lunsPerCh * h.nchs

/-! ## Lines -/

/-- The closing half of `advance_write_pointer_DA`. -/
def closeLineDA (h : HybridGeometry) (lm : LineMgmt) (line : ℕ) :
    Except Fault LineMgmt :=
  if lm.vpc line = h.pgsPerLunLine then do
    nvmevAssert (lm.ipc line = 0)
    return { lm with
      fullLineList := lm.fullLineList ++ [line]
      fullLineCnt := lm.fullLineCnt + 1 }
  else do
    nvmevAssert (lm.vpc line < h.pgsPerLunLine)
    nvmevAssert (0 < lm.ipc line)
    return { lm with
      victimLinePq := pqueueInsert lm.vpc lm.victimLinePq line
      victimLineCnt := lm.victimLineCnt + 1 }

/-! ## Page status -/

/-- `mark_page_invalid`. -/
def markPageInvalid (s : HybridFtl h) (ppa : Ppa) :
    Except Fault (HybridFtl h) := do
  let glun := getGlun h.toGeometry ppa
  let ftl ← superblockInvalid h.toGeometry s.ftl ppa
  let lunlm ← lineInvalidate h.toGeometry (s.lunlm glun) ppa.blk
  return { s with
    ftl := ftl, lunlm := Function.update s.lunlm glun lunlm }

/-- All that `mark_page_invalid` checks of the page, and all it does. -/
theorem markPageInvalid_eq_ok {s s' : HybridFtl h} {ppa : Ppa}
    (hrun : markPageInvalid s ppa = .ok s') :
    s.ftl.pg ppa = .valid ∧ ∃ lm lunlm,
      lineInvalidate h.toGeometry s.ftl.lm ppa.blk = .ok lm ∧
      lineInvalidate h.toGeometry (s.lunlm (getGlun h.toGeometry ppa))
          ppa.blk = .ok lunlm ∧
      s' = { s with
        ftl := { s.ftl with
          pg := Function.update s.ftl.pg ppa .invalid
          blk := Function.update s.ftl.blk ppa.toBlkAddr
            { s.ftl.blk ppa.toBlkAddr with
              ipc := (s.ftl.blk ppa.toBlkAddr).ipc + 1
              vpc := (s.ftl.blk ppa.toBlkAddr).vpc - 1 }
          lm := lm }
        lunlm := Function.update s.lunlm (getGlun h.toGeometry ppa)
          lunlm } := by
  rw [markPageInvalid] at hrun
  obtain ⟨ftl, hftl, hrun⟩ := bind_eq_ok hrun
  obtain ⟨lunlm, hlunlm, hrun⟩ := bind_eq_ok hrun
  obtain ⟨_, hvalid, hftl⟩ := bind_eq_ok hftl
  obtain ⟨-, -, hftl⟩ := bind_eq_ok hftl
  obtain ⟨-, -, hftl⟩ := bind_eq_ok hftl
  obtain ⟨lm, hlm, hftl⟩ := bind_eq_ok hftl
  cases hftl
  cases hrun
  exact ⟨of_nvmevAssert hvalid, lm, lunlm, hlm, hlunlm, rfl⟩

/-- `mark_page_valid`. -/
def markPageValid (s : HybridFtl h) (ppa : Ppa) :
    Except Fault (HybridFtl h) := do
  let glun := getGlun h.toGeometry ppa
  let ftl ← superblockValid h.toGeometry s.ftl ppa
  let lunlm ← lineMarkValid h.toGeometry (s.lunlm glun) ppa.blk
  return { s with
    ftl := ftl, lunlm := Function.update s.lunlm glun lunlm }

/-- A page that is marked was free, and its die counts one more. -/
theorem markPageValid_eq_ok {s s' : HybridFtl h} {p : Ppa}
    (hrun : markPageValid s p = .ok s') :
    s.ftl.pg p = .free ∧ s'.ftl.pg = Function.update s.ftl.pg p .valid ∧
      s'.lunwp = s.lunwp ∧ s'.lunpointer = s.lunpointer ∧
      s'.lunlm = Function.update s.lunlm (getGlun h.toGeometry p)
        { s.lunlm (getGlun h.toGeometry p) with
          vpc := Function.update (s.lunlm (getGlun h.toGeometry p)).vpc p.blk
            ((s.lunlm (getGlun h.toGeometry p)).vpc p.blk + 1) } := by
  rw [markPageValid] at hrun
  obtain ⟨ftl, hmark, hrun⟩ := bind_eq_ok hrun
  obtain ⟨lm, hlm, hrun⟩ := bind_eq_ok hrun
  obtain ⟨_, hfree, hmark⟩ := bind_eq_ok hmark
  obtain ⟨-, -, hmark⟩ := bind_eq_ok hmark
  obtain ⟨_, _, hmark⟩ := bind_eq_ok hmark
  obtain ⟨-, -, hlm⟩ := bind_eq_ok hlm
  cases hmark
  cases hlm
  cases hrun
  exact ⟨of_nvmevAssert hfree, rfl, rfl, rfl, rfl⟩

/-! ## Write pointers -/

/-- `__get_wp_DA`. -/
def getWpDA (s : HybridFtl h) (io : IoType) (lun : ℕ) : WritePointer :=
  match io with
  | .user => s.lunwp lun
  | .gc => s.ftl.gcWp

def setWpDA (s : HybridFtl h) (wpp : WritePointer) (io : IoType) (lun : ℕ) :
    HybridFtl h :=
  match io with
  | .user => { s with lunwp := Function.update s.lunwp lun wpp }
  | .gc => { s with ftl := { s.ftl with gcWp := wpp } }

/-- One round of `prepare_write_pointer_DA`. -/
def prepareDie (io : IoType) (s : HybridFtl h) (lun : ℕ) :
    Except Fault (HybridFtl h) :=
  match getNextFreeLine (s.lunlm lun) with
  | (none, _) => .error .assertion
  | (some curline, lm) =>
      .ok (setWpDA { s with lunlm := Function.update s.lunlm lun lm }
        { curline := some curline, ch := lun % h.nchs, lun := lun / h.nchs,
          pg := 0, blk := curline, pl := 0 } io lun)

/-- `prepare_write_pointer_DA`, which nothing calls. -/
def prepareWritePointerDA (s : HybridFtl h) (io : IoType) :
    Except Fault (HybridFtl h) :=
  (List.range (luncount h)).foldlM (prepareDie io) s

/-- The block switch of `advance_write_pointer_DA`. -/
def switchLineDA (s : HybridFtl h) (io : IoType) (wpp : WritePointer)
    (line : ℕ) : Except Fault (HybridFtl h) := do
  let glun := s.lunpointer
  let lm ← closeLineDA h (s.lunlm glun) line
  nvmevAssert (wpp.blk < h.slcBlksPerPl)
  match getNextFreeLine lm with
  | (none, _) => throw .nullPointer
  | (some next, lm) =>
      nvmevAssert (next < h.slcBlksPerPl)
      return setWpDA { s with lunlm := Function.update s.lunlm glun lm }
        { wpp with curline := some next, blk := next, pg := 0 } io glun

/-- The die after `glun`, among the SLC dies. -/
def nextLun (h : HybridGeometry) (glun : ℕ) : ℕ :=
  if glun + 1 ≠ h.slcChannels * h.slcLunsPerCh then glun + 1 else 0

/-- `advance_write_pointer_DA`. -/
def advanceWritePointerDA (s : HybridFtl h) (io : IoType) :
    Except Fault (HybridFtl h) := do
  let glun := s.lunpointer
  let wpp := getWpDA s io glun
  nvmevAssert (wpp.pg < h.slcPgsPerBlk)
  let wpp := { wpp with pg := wpp.pg + 1 }
  if wpp.pg % h.slcPgsPerOneshotpg ≠ 0 then
    return setWpDA s wpp io glun
  let s ←
    if wpp.pg = h.slcPgsPerBlk then
      match wpp.curline with
      | none => throw .nullPointer
      | some line => switchLineDA s io wpp line
    else pure (setWpDA s wpp io glun)
  return { s with lunpointer := nextLun h glun }

/-- `advance_write_pointer_QLC`.  The range checks of `blk`, `pl` and `lun`
come after the increment. -/
def advanceWritePointerQLC (s : HybridFtl h) (io : IoType) :
    Except Fault (HybridFtl h) := do
  let put := fun wpp => { s with ftl := setWp s.ftl wpp io }
  let wpp := getWp s.ftl io
  nvmevAssert (wpp.pg < h.qlcPgsPerBlk)
  let wpp := { wpp with pg := wpp.pg + 1 }
  if wpp.pg % h.qlcPgsPerOneshotpg ≠ 0 then
    return put wpp
  if wpp.pg ≠ h.qlcPgsPerBlk then
    return put wpp
  let wpp := { wpp with blk := wpp.blk + 1 }
  nvmevAssert (wpp.blk < h.qlcBlksPerPl)
  let wpp := { wpp with pg := 0 }
  if wpp.blk ≠ h.qlcBlksPerPl then
    return put wpp
  let wpp := { wpp with blk := 0, pl := wpp.pl + 1 }
  nvmevAssert (wpp.pl < h.plsPerLun)
  if wpp.pl ≠ h.plsPerLun then
    return put wpp
  let wpp := { wpp with pl := 0, lun := wpp.lun + 1 }
  nvmevAssert (wpp.lun < h.qlcLunsPerCh)
  if wpp.lun ≠ h.qlcLunsPerCh then
    return put wpp
  let wpp := { wpp with lun := 0, ch := wpp.ch + 1 }
  if h.slcChannels + h.qlcChannels ≤ wpp.ch then
    return put { wpp with ch := h.slcChannels }
  return put wpp

/-- `get_new_page`, hybrid build. -/
def getNewPage (h : HybridGeometry) (s : Ftl) (io : IoType) :
    Except Fault Ppa := do
  let wp := getWp s io
  let ppa := packPpa (h.slcChannels + wp.ch % h.qlcChannels)
    (wp.lun % h.qlcLunsPerCh) wp.pl wp.blk wp.pg
  nvmevAssert (h.slcChannels ≤ ppa.ch)
  nvmevAssert (ppa.ch < h.slcChannels + h.qlcChannels)
  return ppa

/-- The channel that a garbage collection pointer is sent to. -/
theorem qlcCh_lt (h : HybridGeometry) (ch : ℕ) :
    h.slcChannels + ch % h.qlcChannels < h.slcChannels + h.qlcChannels :=
  Nat.add_lt_add_left (Nat.mod_lt ch h.qlcChannels_pos) _

/-- Both assertions of `get_new_page` always hold. -/
theorem getNewPage_eq (s : Ftl) (io : IoType) :
    getNewPage h s io =
      .ok (packPpa (h.slcChannels + (getWp s io).ch % h.qlcChannels)
        ((getWp s io).lun % h.qlcLunsPerCh) (getWp s io).pl (getWp s io).blk
        (getWp s io).pg) := by
  have hlt := qlcCh_lt h (getWp s io).ch
  have hch : (packPpa (h.slcChannels + (getWp s io).ch % h.qlcChannels)
      ((getWp s io).lun % h.qlcLunsPerCh) (getWp s io).pl (getWp s io).blk
      (getWp s io).pg).ch = h.slcChannels + (getWp s io).ch % h.qlcChannels :=
    Nat.mod_eq_of_lt (hlt.trans_le h.channels_le)
  rw [getNewPage,
    nvmevAssert_of (le_of_le_of_eq (Nat.le_add_right _ _) hch.symm), ok_bind,
    nvmevAssert_of (lt_of_eq_of_lt hch hlt)]
  rfl

/-- `get_new_page_DA`. -/
def getNewPageDA (s : HybridFtl h) (io : IoType) : Except Fault Ppa := do
  let wp := getWpDA s io s.lunpointer
  let ppa := packPpa (wp.ch % h.slcChannels) (wp.lun % h.slcLunsPerCh) wp.pl
    wp.blk wp.pg
  nvmevAssert (ppa.ch < h.slcChannels)
  nvmevAssert (ppa.pl = 0)
  return ppa

theorem getNewPageDA_of {s : HybridFtl h} {io : IoType} {ppa : Ppa}
    (hpack : packPpa ((getWpDA s io s.lunpointer).ch % h.slcChannels)
      ((getWpDA s io s.lunpointer).lun % h.slcLunsPerCh)
      (getWpDA s io s.lunpointer).pl (getWpDA s io s.lunpointer).blk
      (getWpDA s io s.lunpointer).pg = ppa)
    (hch : ppa.ch < h.slcChannels) (hpl : ppa.pl = 0) :
    getNewPageDA s io = .ok ppa := by
  subst hpack
  rw [getNewPageDA, nvmevAssert_of hch, ok_bind, nvmevAssert_of hpl]
  rfl

/-! ## Initialisation -/

/-- One round of `init_lines_DA`. -/
def initDie (s : HybridFtl h) (lun : ℕ) : Except Fault (HybridFtl h) := do
  let lm ← initLines h.toGeometry
  return { s with lunlm := Function.update s.lunlm lun lm }

/-- `init_lines_DA`. -/
def initLinesDA (s : HybridFtl h) : Except Fault (HybridFtl h) :=
  (List.range (luncount h)).foldlM initDie s

/-- `conv_init_ftl`, hybrid build.  `lunlm` and `lunwp` are what `kmalloc`
returned.  The per-die tables and the state of the conventional build are set
up apart from each other. -/
def convInitFtl (h : HybridGeometry) (ssd : Ssd) (lunlm : ℕ → LineMgmt)
    (lunwp : ℕ → WritePointer) : Except Fault (HybridFtl h) := do
  let ftl ← Mapping.convInitFtl h.toGeometry
  initLinesDA {
    ftl := ftl
    ssd := ssd
    lunlm := lunlm
    lunwp := lunwp
    lunpointer := 0
    hotnessTable := emptyTable h.hotnessTableSize
    lastMigrationCheck := 0
    currentMigrations := 0
    usedSlcPages := 0
    usedQlcPages := 0 }

end

end NvmeVirt.HybridMapping
