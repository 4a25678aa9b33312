import NvmeVirt.Hybrid.DieWrites
import NvmeVirt.Hybrid.TwoTables

/-!
# The full lines of a die

`advance_write_pointer_DA` puts a line on the full list of its die when all its
`pgs_per_lun_line` pages are valid.  `mark_page_invalid` takes a line off the
list when it has `pgs_per_line` valid pages, which is what a line of the whole
device has.  A die keeps its lists in order as long as the two agree on the
line of every page that is invalidated.
-/

namespace NvmeVirt.DieLines

open NvmeVirt.DieWrites
open NvmeVirt.HybridConfig
open NvmeVirt.HybridMapping
open NvmeVirt.HybridStartup
open NvmeVirt.Kernel
open NvmeVirt.Layout
open NvmeVirt.LineTable (length_lt_of_nodup lineDecremented
  lineDecremented_columns lineDecremented_queue lineInvalidate_eq_ok
  lineInvalidated lineReopened)
open NvmeVirt.Mapping (LineMgmt WritePointer getGlun getNextFreeLine
  lineInvalidate listDelInit)
open NvmeVirt.Startup
open NvmeVirt.Timing
open NvmeVirt.Transition
open NvmeVirt.TwoTables
open NvmeVirt.VictimQueue

variable {h : HybridGeometry}

/-! ## The table of a die -/

/-- How often `line` occurs on the lists and under the write pointer at
`cur`. -/
def linePlaces (lm : LineMgmt) (cur line : ℕ) : ℕ :=
  lm.freeLineList.count line + lm.fullLineList.count line +
    (elems lm.victimLinePq).count line + [cur].count line

/-- The table of a die whose write pointer is at the line `cur`: every line has
one place, the lines on the full list have all their pages, the victims do not,
and the counters count. -/
structure DieTable (h : HybridGeometry) (lm : LineMgmt) (cur : ℕ) : Prop where
  one_place : ∀ line,
    linePlaces lm cur line = if line < h.blksPerPl then 1 else 0
  full_vpc : ∀ line ∈ lm.fullLineList, lm.vpc line = h.pgsPerLunLine
  victim_vpc : ∀ line ∈ elems lm.victimLinePq, lm.vpc line < h.pgsPerLunLine
  fullCnt : lm.fullLineCnt = lm.fullLineList.length
  queue : Queue lm.vpc lm.victimLinePq lm.victimLineCnt

section

variable {lm lm' : LineMgmt} {cur line : ℕ}

theorem DieTable.places_le (ht : DieTable h lm cur) (line : ℕ) :
    linePlaces lm cur line ≤ 1 := by
  rw [ht.one_place]
  split_ifs <;> simp

/-- The line under the write pointer is on no list. -/
theorem DieTable.cur_notMem (ht : DieTable h lm cur) :
    cur ∉ lm.freeLineList ∧ cur ∉ lm.fullLineList ∧
      cur ∉ elems lm.victimLinePq := by
  have hle := ht.places_le cur
  rw [linePlaces, List.count_singleton_self] at hle
  simp only [← List.count_eq_zero]
  omega

/-- A line on the full list is on no other list, and occurs once. -/
theorem DieTable.full_notMem (ht : DieTable h lm cur)
    (hfull : line ∈ lm.fullLineList) :
    line ∉ lm.freeLineList ∧ line ∉ elems lm.victimLinePq := by
  have hle := ht.places_le line
  have hpos := List.count_pos_iff.mpr hfull
  rw [linePlaces] at hle
  simp only [← List.count_eq_zero]
  omega

theorem DieTable.full_nodup (ht : DieTable h lm cur) :
    lm.fullLineList.Nodup := by
  rw [List.nodup_iff_count_le_one]
  intro line
  have hle := ht.places_le line
  rw [linePlaces] at hle
  omega

theorem DieTable.full_lt (ht : DieTable h lm cur)
    (hfull : line ∈ lm.fullLineList) : line < h.blksPerPl := by
  have hplace := ht.one_place line
  have hpos := List.count_pos_iff.mpr hfull
  rw [linePlaces] at hplace
  by_contra hge
  rw [if_neg hge] at hplace
  omega

/-- The counter of the full list does not wrap. -/
theorem DieTable.fullCnt_lt (ht : DieTable h lm cur) :
    lm.fullLineCnt < 2 ^ 32 := by
  rw [ht.fullCnt]
  exact @length_lt_of_nodup h.toGeometry _ ht.full_nodup fun _ => ht.full_lt

/-- A closed line is on one of the two lists. -/
theorem DieTable.closed_iff (ht : DieTable h lm cur)
    (hline : line < h.blksPerPl) (hfree : line ∉ lm.freeLineList)
    (hne : line ≠ cur) :
    line ∈ elems lm.victimLinePq ↔ line ∉ lm.fullLineList := by
  have hplace := ht.one_place line
  have hcur : [cur].count line = 0 :=
    List.count_eq_zero.mpr (by simpa using hne)
  rw [if_pos hline, linePlaces, List.count_eq_zero.mpr hfree, hcur] at hplace
  rw [← List.count_pos_iff, ← List.count_eq_zero]
  omega

/-! ## What the steps do to it -/

/-- The page under the write pointer becomes valid. -/
theorem DieTable.setVpc (ht : DieTable h lm cur) (vpc : ℕ) :
    DieTable h { lm with vpc := Function.update lm.vpc cur vpc } cur where
  one_place := ht.one_place
  full_vpc line hline := by
    have hne : line ≠ cur := fun heq => ht.cur_notMem.2.1 (heq ▸ hline)
    dsimp only
    rw [Function.update_of_ne hne]
    exact ht.full_vpc line hline
  victim_vpc line hline := by
    have hne : line ≠ cur := fun heq => ht.cur_notMem.2.2 (heq ▸ hline)
    dsimp only
    rw [Function.update_of_ne hne]
    exact ht.victim_vpc line hline
  fullCnt := ht.fullCnt
  queue := ht.queue.setPri ht.cur_notMem.2.2 vpc

theorem count_cons_singleton (first : ℕ) (lines : List ℕ) (other : ℕ) :
    (first :: lines).count other = lines.count other + [first].count other := by
  rw [List.count_cons, List.count_singleton]

/-- The places of the other lines, when the next free line becomes the one
under the write pointer. -/
theorem DieTable.places_next (ht : DieTable h lm cur) {next : ℕ}
    {rest : List ℕ} (hrest : lm.freeLineList = next :: rest) (line : ℕ) :
    rest.count line + (lm.fullLineList.count line +
        (elems lm.victimLinePq).count line + [cur].count line) +
        [next].count line = if line < h.blksPerPl then 1 else 0 := by
  rw [← ht.one_place line, linePlaces, hrest, count_cons_singleton next rest]
  omega

/-- The line under the write pointer is closed, and the next free line takes
its place. -/
theorem DieTable.close (ht : DieTable h lm cur)
    (hclose : closeLineDA h lm cur = .ok lm') {next : ℕ} {rest : List ℕ}
    (hrest : lm'.freeLineList = next :: rest) :
    DieTable h
      { lm' with freeLineList := rest, freeLineCnt := lm'.freeLineCnt - 1 }
      next := by
  rw [closeLineDA_freeLineList hclose] at hrest
  have hplaces := ht.places_next hrest
  rw [closeLineDA] at hclose
  split_ifs at hclose with hfull
  · obtain ⟨-, -, hclose⟩ := bind_eq_ok hclose
    cases hclose
    refine ⟨fun line => ?_, fun line hline => ?_, ht.victim_vpc, ?_, ht.queue⟩
    · rw [← hplaces line, linePlaces, List.count_append]
      dsimp only
      omega
    · obtain hold | hnew := List.mem_append.mp hline
      · exact ht.full_vpc line hold
      · rw [List.mem_singleton.mp hnew]
        exact hfull
    · dsimp only
      rw [ht.fullCnt, List.length_append, List.length_singleton]
  · obtain ⟨_, hlt, hclose⟩ := bind_eq_ok hclose
    obtain ⟨-, -, hclose⟩ := bind_eq_ok hclose
    have hperm := elems_pqueueInsert lm.vpc lm.victimLinePq cur
      ht.queue.valid.size_pos
    cases hclose
    refine ⟨fun line => ?_, ht.full_vpc, fun line hline => ?_, ht.fullCnt,
      ht.queue.insert ht.cur_notMem.2.2⟩
    · rw [← hplaces line, linePlaces, hperm.count_eq, List.count_append]
      dsimp only
      omega
    · dsimp only at hline
      rw [hperm.mem_iff, List.mem_append, List.mem_singleton] at hline
      obtain hold | rfl := hline
      · exact ht.victim_vpc line hold
      · exact of_nvmevAssert hlt

/-- What `mark_page_invalid` does to the table of a die. -/
theorem lineInvalidate_cases
    (hrun : lineInvalidate h.toGeometry lm line = .ok lm') :
    0 < lm.vpc line ∧
      (lm.vpc line = h.pgsPerLine ∧ lm' = lineReopened lm line ∨
        lm.vpc line ≠ h.pgsPerLine ∧ lm' = lineDecremented lm line) := by
  obtain ⟨hready, rfl⟩ := lineInvalidate_eq_ok hrun
  refine ⟨hready.1, ?_⟩
  rw [lineInvalidated]
  split_ifs with hwas
  · exact .inl ⟨hwas, rfl⟩
  · exact .inr ⟨hwas, rfl⟩

/-- A list with an entry taken out and put back. -/
theorem count_erase_add {lines : List ℕ} (hmem : line ∈ lines) (other : ℕ) :
    (lines.erase line).count other + [line].count other =
      lines.count other := by
  rw [← count_cons_singleton]
  exact ((List.perm_cons_erase hmem).count_eq other).symm

/-- A victim with a page less is a victim still. -/
theorem DieTable.decremented_victim (ht : DieTable h lm cur) (line : ℕ) :
    ∀ other ∈ elems lm.victimLinePq,
      Function.update lm.vpc line (lm.vpc line - 1) other <
        h.pgsPerLunLine := by
  intro other hother
  have hlt := ht.victim_vpc other hother
  by_cases heq : other = line
  · subst heq
    rw [Function.update_self]
    omega
  · rw [Function.update_of_ne heq]
    exact hlt

/-- A page of a line that is not on the full list is invalidated. -/
theorem DieTable.decrement (ht : DieTable h lm cur) (hpos : 0 < lm.vpc line)
    (hfull : line ∉ lm.fullLineList) :
    DieTable h (lineDecremented lm line) cur := by
  obtain ⟨hvpc, -, hfree, -, hfullList, hfullCnt, -⟩ :=
    lineDecremented_columns lm line
  obtain ⟨hqueue, hperm⟩ := lineDecremented_queue ht.queue hpos
  refine ⟨fun other => ?_, fun other hother => ?_, fun other hother => ?_,
    ?_, hqueue⟩
  · rw [linePlaces, hfree, hfullList, hperm.count_eq]
    exact ht.one_place other
  · rw [hfullList] at hother
    have hne : other ≠ line := fun heq => hfull (heq ▸ hother)
    rw [hvpc, Function.update_of_ne hne]
    exact ht.full_vpc other hother
  · rw [hperm.mem_iff] at hother
    rw [hvpc]
    exact ht.decremented_victim line other hother
  · rw [hfullCnt, hfullList]
    exact ht.fullCnt

/-- A page of a line on the full list is invalidated, and the line becomes a
victim. -/
theorem DieTable.reopen (ht : DieTable h lm cur) (hpos : 0 < lm.vpc line)
    (hfull : line ∈ lm.fullLineList) :
    DieTable h (lineReopened lm line) cur := by
  obtain ⟨hvpc, -, hfree, -, hfullList, hfullCnt, -⟩ :=
    lineDecremented_columns lm line
  obtain ⟨hqueue, hperm⟩ := lineDecremented_queue ht.queue hpos
  obtain ⟨hnotFree, hnotVictim⟩ := ht.full_notMem hfull
  have hnew : line ∉ elems (lineDecremented lm line).victimLinePq := by
    rwa [hperm.mem_iff]
  have hinsert := elems_pqueueInsert (lineDecremented lm line).vpc
    (lineDecremented lm line).victimLinePq line hqueue.valid.size_pos
  have hcount := List.length_pos_of_mem hfull
  have hself := ht.full_vpc line hfull
  refine ⟨fun other => ?_, fun other hother => ?_, fun other hother => ?_,
    ?_, hqueue.insert hnew⟩
  · dsimp only [linePlaces, lineReopened, listDelInit]
    rw [← ht.one_place other, linePlaces, hfree, hfullList,
      List.erase_of_not_mem hnotFree, hinsert.count_eq, List.count_append,
      hperm.count_eq, ← count_erase_add hfull other]
    omega
  · dsimp only [lineReopened, listDelInit] at hother ⊢
    rw [hfullList, ht.full_nodup.mem_erase_iff] at hother
    rw [hvpc, Function.update_of_ne hother.1]
    exact ht.full_vpc other hother.2
  · dsimp only [lineReopened, listDelInit] at hother ⊢
    rw [hinsert.mem_iff, List.mem_append, List.mem_singleton,
      hperm.mem_iff] at hother
    rw [hvpc]
    obtain hold | rfl := hother
    · exact ht.decremented_victim line other hold
    · rw [Function.update_self]
      omega
  · dsimp only [lineReopened, listDelInit]
    rw [hfullCnt, hfullList, List.length_erase_of_mem hfull, ← ht.fullCnt]
    apply sub32_of_le _ ht.fullCnt_lt
    rw [ht.fullCnt]
    exact hcount

/-- A page of the line is invalidated, and the test of `mark_page_invalid` is
right about the full list. -/
theorem DieTable.invalidate (ht : DieTable h lm cur)
    (hrun : lineInvalidate h.toGeometry lm line = .ok lm')
    (hagree : lm.vpc line = h.pgsPerLine ↔ line ∈ lm.fullLineList) :
    DieTable h lm' cur := by
  obtain ⟨hpos, ⟨hwas, rfl⟩ | ⟨hwas, rfl⟩⟩ := lineInvalidate_cases hrun
  · exact ht.reopen hpos (hagree.mp hwas)
  · exact ht.decrement hpos (mt hagree.mpr hwas)

end

/-! ## The runs of a die -/

inductive PageAction
  | program
  | invalidate (p : Ppa)

/-- One step of the die `die`: the page under its write pointer is programmed,
or a page is invalidated. -/
def pageStep (die : ℕ) (s : HybridFtl h) :
    PageAction → Except Fault (HybridFtl h)
  | .program => do
      let s := { s with lunpointer := die }
      let ppa ← getNewPageDA s .user
      let s ← markPageValid s ppa
      advanceWritePointerDA s .user
  | .invalidate p => markPageInvalid s p

/-- The page exists, and is one of the die. -/
def PageOn (h : HybridGeometry) (die : ℕ) (p : Ppa) : Prop :=
  ValidPpa h.toGeometry p ∧ getGlun h.toGeometry p = die

/-- The steps are about pages of the die. -/
def pageEnabled (die : ℕ) (s : HybridFtl h) : PageAction → Prop
  | .program => PageOn h die (pageOf h die (s.lunwp die))
  | .invalidate p => PageOn h die p

/-- `mark_page_invalid` finds the number of valid pages it takes for a full
line on the lines of the full list, and on no other. -/
def FullKnown (die : ℕ) (s : HybridFtl h) : PageAction → Prop
  | .program => True
  | .invalidate p => (s.lunlm die).vpc p.blk = h.pgsPerLine ↔
      p.blk ∈ (s.lunlm die).fullLineList

/-- Runs of one die, from the tables of `init_lines_DA` and a write pointer as
`prepare_write_pointer_DA` sets it, in which every step satisfies
`condition`. -/
def pageMachine (h : HybridGeometry) (die : ℕ)
    (condition : HybridFtl h → PageAction → Prop) :
    Machine (HybridFtl h) PageAction Fault where
  init s := ∃ ssd lunlm lunwp s₀, convInitFtl h ssd lunlm lunwp = .ok s₀ ∧
    prepareWritePointerDA s₀ .user = .ok s
  enabled s action := pageEnabled die s action ∧ condition s action
  step := pageStep die

/-- The line is neither free nor under the write pointer. -/
def Closed (s : HybridFtl h) (die line : ℕ) : Prop :=
  line < h.blksPerPl ∧ line ∉ (s.lunlm die).freeLineList ∧
    (s.lunwp die).curline ≠ some line

/-- The number of valid pages of a line of the die. -/
def validPages (s : HybridFtl h) (die line : ℕ) : ℕ :=
  dieCount h s.ftl.pg die line .valid

/-- The lists of a die: a closed line with all its pages valid is on the full
list, any other in the victim queue, and the counters count. -/
structure ClosedLines (die : ℕ) (s : HybridFtl h) : Prop where
  full_iff : ∀ line, Closed s die line →
    (line ∈ (s.lunlm die).fullLineList ↔
      validPages s die line = h.pgsPerLunLine)
  victim_iff : ∀ line, Closed s die line →
    (line ∈ elems (s.lunlm die).victimLinePq ↔
      validPages s die line ≠ h.pgsPerLunLine)
  not_both : ∀ line, ¬ (line ∈ (s.lunlm die).fullLineList ∧
    line ∈ elems (s.lunlm die).victimLinePq)
  fullLineCnt_eq :
    (s.lunlm die).fullLineCnt = (s.lunlm die).fullLineList.length
  victimLineCnt_eq :
    (s.lunlm die).victimLineCnt = (elems (s.lunlm die).victimLinePq).length

/-- What holds along a run. -/
structure DieInv (die : ℕ) (s : HybridFtl h) : Prop where
  planes : h.plsPerLun = 1
  tables : TableInv s
  dieAt : DieAt h die (dieView s die)
  curline_eq : (s.lunwp die).curline = some (s.lunwp die).blk
  table : DieTable h (s.lunlm die) (s.lunwp die).blk

section

variable {s s' : HybridFtl h} {die : ℕ}

/-- A closed line is on one of the two lists. -/
theorem DieInv.victim_iff (hinv : DieInv die s) {line : ℕ}
    (hclosed : Closed s die line) :
    line ∈ elems (s.lunlm die).victimLinePq ↔
      line ∉ (s.lunlm die).fullLineList := by
  obtain ⟨hline, hfree, hcur⟩ := hclosed
  apply hinv.table.closed_iff hline hfree
  rintro rfl
  exact hcur hinv.curline_eq

theorem DieInv.full_iff (hinv : DieInv die s) (hdie : die < luncount h)
    {line : ℕ} (hclosed : Closed s die line) :
    line ∈ (s.lunlm die).fullLineList ↔
      validPages s die line = h.pgsPerLunLine := by
  rw [validPages, ← hinv.tables.die_vpc die hdie line]
  constructor
  · exact hinv.table.full_vpc line
  · intro hvpc
    by_contra hnot
    have hvictim := (hinv.victim_iff hclosed).mpr hnot
    exact (hinv.table.victim_vpc line hvictim).ne hvpc

theorem DieInv.closedLines (hinv : DieInv die s) (hdie : die < luncount h) :
    ClosedLines die s where
  full_iff _ hclosed := hinv.full_iff hdie hclosed
  victim_iff _ hclosed := by
    rw [hinv.victim_iff hclosed, hinv.full_iff hdie hclosed]
  not_both _ hboth := (hinv.table.full_notMem hboth.1).2 hboth.2
  fullLineCnt_eq := hinv.table.fullCnt
  victimLineCnt_eq := hinv.table.queue.count_eq

/-! ## Programming a page -/

theorem closeLineDA_columns {lm lm' : LineMgmt} {line : ℕ}
    (hrun : closeLineDA h lm line = .ok lm') :
    lm'.vpc = lm.vpc ∧ lm'.ipc = lm.ipc := by
  rw [closeLineDA] at hrun
  split_ifs at hrun
  · obtain ⟨-, -, hrun⟩ := bind_eq_ok hrun
    cases hrun
    exact ⟨rfl, rfl⟩
  · obtain ⟨-, -, hrun⟩ := bind_eq_ok hrun
    obtain ⟨-, -, hrun⟩ := bind_eq_ok hrun
    cases hrun
    exact ⟨rfl, rfl⟩

/-- The tables count the pages as long as the pages and the counters stay. -/
theorem tableInv_congr (hinv : TableInv s) (hftl : s'.ftl = s.ftl)
    (hcolumns : ∀ die < luncount h,
      (s'.lunlm die).vpc = (s.lunlm die).vpc ∧
        (s'.lunlm die).ipc = (s.lunlm die).ipc) : TableInv s' where
  die_vpc die hdie line := by
    rw [(hcolumns die hdie).1, hftl]
    exact hinv.die_vpc die hdie line
  die_ipc die hdie line := by
    rw [(hcolumns die hdie).2, hftl]
    exact hinv.die_ipc die hdie line
  lineCounted line := by
    rw [hftl]
    exact hinv.lineCounted line
  blkCounted b := by
    rw [hftl]
    exact hinv.blkCounted b

/-- An advance changes no counter of a line. -/
theorem advancedDA_columns (hadvanced : AdvancedDA s s') (other : ℕ) :
    (s'.lunlm other).vpc = (s.lunlm other).vpc ∧
      (s'.lunlm other).ipc = (s.lunlm other).ipc := by
  cases hadvanced with
  | within => exact ⟨rfl, rfl⟩
  | switched lunpointer line next rest lm _ hclose =>
      dsimp only
      by_cases heq : other = s.lunpointer
      · obtain ⟨hvpc, hipc⟩ := closeLineDA_columns hclose
        rw [heq, Function.update_self]
        exact ⟨hvpc, hipc⟩
      · rw [Function.update_of_ne heq]
        exact ⟨rfl, rfl⟩

/-- The line under the write pointer stays, or it is closed. -/
theorem advancedDA_table (hadvanced : AdvancedDA s s')
    (hpointer : s.lunpointer = die)
    (hcurline : (s.lunwp die).curline = some (s.lunwp die).blk)
    (ht : DieTable h (s.lunlm die) (s.lunwp die).blk) :
    (s'.lunwp die).curline = some (s'.lunwp die).blk ∧
      DieTable h (s'.lunlm die) (s'.lunwp die).blk := by
  subst hpointer
  cases hadvanced with
  | within =>
      dsimp only
      rw [Function.update_self]
      exact ⟨hcurline, ht⟩
  | switched lunpointer line next rest lm hline hclose hfree =>
      rw [hcurline, Option.some.injEq] at hline
      subst hline
      dsimp only
      rw [Function.update_self, Function.update_self]
      exact ⟨rfl, ht.close hclose hfree⟩

theorem DieInv.program (hinv : DieInv die s)
    (hon : PageOn h die (pageOf h die (s.lunwp die)))
    (hrun : pageStep die s .program = .ok s') : DieInv die s' := by
  obtain ⟨ppa, hpage, hrun⟩ := bind_eq_ok hrun
  rw [hinv.dieAt.newPage] at hpage
  cases hpage
  obtain ⟨s₁, hmark, hadvance⟩ := bind_eq_ok hrun
  obtain ⟨hfree, -, hlunwp, hlunpointer, hlunlm⟩ := markPageValid_eq_ok hmark
  have hsent : TableInv { s with lunpointer := die } :=
    tableInv_congr hinv.tables rfl fun _ _ => ⟨rfl, rfl⟩
  obtain ⟨marked, hmarked, htables⟩ :=
    hsent.markValid hinv.planes hon.1 hfree
  obtain rfl : marked = s₁ := Except.ok.inj (hmarked.symm.trans hmark)
  have hframe := markPageValid_frame hmark die
  have hat := hinv.dieAt.sublist hframe.1 hframe.2
  have htable : DieTable h (marked.lunlm die) (marked.lunwp die).blk := by
    rw [hlunwp, hlunlm, hon.2, Function.update_self]
    exact hinv.table.setVpc _
  have hcurline : (marked.lunwp die).curline = some (marked.lunwp die).blk := by
    rw [hlunwp]
    exact hinv.curline_eq
  have hadvanced := advanceWritePointerDA_cases hadvance
  have hftl : s'.ftl = marked.ftl := by cases hadvanced <;> rfl
  obtain ⟨view, hstep, hview⟩ := advance_view hadvance
  rw [hlunpointer] at hstep hview
  obtain ⟨hcurline', htable'⟩ :=
    advancedDA_table hadvanced hlunpointer hcurline htable
  refine ⟨hinv.planes, tableInv_congr htables hftl fun other _ =>
    advancedDA_columns hadvanced other, ?_, hcurline', htable'⟩
  rw [hview, Function.update_self]
  exact hat.step hstep

/-! ## Invalidating a page -/

/-- What an invalidation on the die leaves: both tables count, and the table
of the die is the one of `lineInvalidate`. -/
theorem DieInv.invalidated (hinv : DieInv die s) {p : Ppa}
    (hon : PageOn h die p) (hrun : markPageInvalid s p = .ok s') :
    TableInv s' ∧ s'.lunwp = s.lunwp ∧
      lineInvalidate h.toGeometry (s.lunlm die) p.blk = .ok (s'.lunlm die) := by
  obtain ⟨hvalid, lm, lunlm, -, hlunlm, heq⟩ := markPageInvalid_eq_ok hrun
  obtain ⟨marked, hmarked, htables⟩ :=
    hinv.tables.markInvalid hinv.planes hon.1 hvalid
  obtain rfl : marked = s' := Except.ok.inj (hmarked.symm.trans hrun)
  rw [hon.2] at hlunlm heq
  refine ⟨htables, by rw [heq], ?_⟩
  rw [hlunlm, heq]
  dsimp only
  rw [Function.update_self]

theorem DieInv.invalidate (hinv : DieInv die s) {p : Ppa}
    (hon : PageOn h die p) (hknown : FullKnown die s (.invalidate p))
    (hrun : markPageInvalid s p = .ok s') : DieInv die s' := by
  obtain ⟨htables, hlunwp, hlunlm⟩ := hinv.invalidated hon hrun
  have hframe := markPageInvalid_frame hrun die
  refine ⟨hinv.planes, htables, hinv.dieAt.sublist hframe.1 hframe.2, ?_, ?_⟩
  · rw [hlunwp]
    exact hinv.curline_eq
  · rw [hlunwp]
    exact hinv.table.invalidate hlunlm hknown

/-! ## The start of a run -/

/-- The table of a die whose first line is under its write pointer. -/
def preparedLines (g : Geometry) : LineMgmt :=
  { freshLines g with
    freeLineList := List.range' 1 (g.blksPerPl - 1)
    freeLineCnt := g.blksPerPl - 1 }

theorem preparedLines_dieTable : DieTable h (preparedLines h.toGeometry) 0 where
  one_place line := by
    calc linePlaces (preparedLines h.toGeometry) 0 line
      _ = (List.range h.blksPerPl).count line := by
        rw [range_eq_cons, count_cons_singleton]
        rfl
      _ = if line < h.blksPerPl then 1 else 0 := by
        rw [List.nodup_range.count]
        simp only [List.mem_range]
  full_vpc _ hline := absurd hline List.not_mem_nil
  victim_vpc _ hline := absurd hline List.not_mem_nil
  fullCnt := rfl
  queue := ⟨valid_pqueueInit _ _, fun _ _ => rfl, rfl⟩

theorem getNextFreeLine_fresh (g : Geometry) :
    getNextFreeLine (freshLines g) = (some 0, preparedLines g) := by
  rw [getNextFreeLine, freshLines, range_eq_cons]
  rfl

/-- `prepare_write_pointer_DA` takes the first line of every die. -/
theorem prepareWritePointerDA_lines {s₀ : HybridFtl h}
    (hfresh : ∀ die < luncount h, s.lunlm die = freshLines h.toGeometry)
    (hrun : prepareWritePointerDA s .user = .ok s₀) :
    s₀.ftl = s.ftl ∧
      ∀ die < luncount h, s₀.lunlm die = preparedLines h.toGeometry := by
  obtain ⟨final, hfinal, hftl, hlines⟩ :=
    @foldlM_range _ _ (prepareDie (h := h) .user) (luncount h)
      (fun count state => state.ftl = s.ftl ∧ ∀ other, state.lunlm other =
        if other < count then preparedLines h.toGeometry else s.lunlm other)
      (fun k hk state hstate => by
        obtain ⟨hftl, hlines⟩ := hstate
        have hline := hlines k
        rw [if_neg (Nat.lt_irrefl k), hfresh k hk] at hline
        rw [prepareDie, hline, getNextFreeLine_fresh]
        refine ⟨_, rfl, hftl, fun other => ?_⟩
        dsimp only [setWpDA]
        by_cases hother : other = k
        · rw [hother, Function.update_self, if_pos (Nat.lt_succ_self k)]
        · rw [Function.update_of_ne hother, hlines other]
          exact if_congr (by omega) rfl rfl)
      s ⟨rfl, fun other => (if_neg (Nat.not_lt_zero other)).symm⟩
  obtain rfl : final = s₀ := Except.ok.inj (hfinal.symm.trans hrun)
  refine ⟨hftl, fun die hdie => ?_⟩
  rw [hlines die, if_pos hdie]

theorem DieInv.start {ssd : Ssd} {lunlm : ℕ → LineMgmt}
    {lunwp : ℕ → WritePointer} {s₀ : HybridFtl h}
    (hinit : convInitFtl h ssd lunlm lunwp = .ok s₀)
    (hprepared : prepareWritePointerDA s₀ .user = .ok s)
    (hdie : die < luncount h) : DieInv die s := by
  obtain ⟨hinitialisable, rfl⟩ := of_convInitFtl hinit
  have hfresh : ∀ die < luncount h,
      (freshHybrid h ssd lunlm lunwp).lunlm die = freshLines h.toGeometry :=
    fun _ => freshHybrid_lunlm ssd lunlm lunwp
  obtain ⟨hftl, hlines⟩ := prepareWritePointerDA_lines hfresh hprepared
  obtain ⟨final, hfinal, hviews⟩ :=
    freshHybrid_prepared (h := h) ssd lunlm lunwp
  obtain rfl : final = s := Except.ok.inj (hfinal.symm.trans hprepared)
  have hwp : (final.lunwp die) = (preparedView h die).wp :=
    congrArg DieView.wp (hviews die hdie)
  refine ⟨hinitialisable.1, ?_, ?_, ?_, ?_⟩
  · apply tableInv_congr (TableInv.fresh ssd lunlm lunwp) hftl
    intro other hother
    rw [hlines other hother, hfresh other hother]
    exact ⟨rfl, rfl⟩
  · rw [hviews die hdie]
    exact preparedView_dieAt h die
  · rw [hwp]
    rfl
  · rw [hwp, hlines die hdie]
    exact preparedLines_dieTable

theorem DieInv.reachable (hdie : die < luncount h)
    (hreach : Reachable (pageMachine h die (FullKnown die)) s) :
    DieInv die s := by
  refine hreach.invariant (DieInv die) ?_ ?_
  · rintro start ⟨ssd, lunlm, lunwp, s₀, hinit, hprepared⟩
    exact DieInv.start hinit hprepared hdie
  · rintro before action after hinv ⟨henabled, hknown⟩ hrun
    cases action with
    | program => exact hinv.program henabled hrun
    | invalidate p => exact hinv.invalidate henabled hknown hrun

/-! ## The test and the full list -/

/-- An invalidation on which the test and the full list do not agree puts the
lists out of order: a line stays full although a page of it is invalid, or one
that is not full is counted out. -/
theorem DieInv.not_closedLines (hinv : DieInv die s) (hdie : die < luncount h)
    {p : Ppa} (hon : PageOn h die p)
    (hunknown : ¬ FullKnown die s (.invalidate p))
    (hrun : markPageInvalid s p = .ok s') : ¬ ClosedLines die s' := by
  obtain ⟨htables, hlunwp, hlunlm⟩ := hinv.invalidated hon hrun
  obtain ⟨hvpc, -, hfree, -, hfullList, hfullCnt, -⟩ :=
    lineDecremented_columns (s.lunlm die) p.blk
  obtain ⟨hpos, ⟨hwas, htable⟩ | ⟨hwas, htable⟩⟩ :=
    lineInvalidate_cases hlunlm
  · -- a line that is not on the full list is counted out
    have hnot : p.blk ∉ (s.lunlm die).fullLineList := fun hmem =>
      hunknown (iff_of_true hwas hmem)
    have hlt := hinv.table.fullCnt_lt
    intro hclosed
    have hcnt := hclosed.fullLineCnt_eq
    rw [htable] at hcnt
    dsimp only [lineReopened, listDelInit] at hcnt
    rw [hfullCnt, hfullList, List.erase_of_not_mem hnot,
      ← hinv.table.fullCnt, sub32, u32_of_lt (show 1 < 2 ^ 32 by decide),
      u32] at hcnt
    omega
  · -- a line of the full list stays there
    have hmem : p.blk ∈ (s.lunlm die).fullLineList := by
      by_contra hnot
      exact hunknown (iff_of_false hwas hnot)
    have hclosedLine : Closed s' die p.blk := by
      refine ⟨hinv.table.full_lt hmem, ?_, ?_⟩
      · rw [htable, hfree]
        exact (hinv.table.full_notMem hmem).1
      · rw [hlunwp, hinv.curline_eq, Ne, Option.some.injEq]
        intro heq
        exact hinv.table.cur_notMem.2.1 (heq ▸ hmem)
    have hvalidPages : validPages s' die p.blk = h.pgsPerLunLine - 1 := by
      rw [validPages, ← htables.die_vpc die hdie, htable, hvpc,
        Function.update_self, hinv.table.full_vpc _ hmem]
    have hstays : p.blk ∈ (s'.lunlm die).fullLineList := by
      rw [htable, hfullList]
      exact hmem
    intro hclosed
    have hall := (hclosed.full_iff p.blk hclosedLine).mp hstays
    rw [hinv.table.full_vpc _ hmem] at hpos
    omega

/-- In every state of a run whose invalidations meet lines that the test knows,
the lists are in order; an invalidation keeps them in order exactly when it is
one of these. -/
theorem closedLines_iff_fullKnown (hdie : die < luncount h)
    (hreach : Reachable (pageMachine h die (FullKnown die)) s) :
    ClosedLines die s ∧ ∀ p s', PageOn h die p →
      pageStep die s (.invalidate p) = .ok s' →
      (ClosedLines die s' ↔ FullKnown die s (.invalidate p)) := by
  have hinv := DieInv.reachable hdie hreach
  refine ⟨hinv.closedLines hdie, fun p s' hon hrun => ⟨?_, fun hknown => ?_⟩⟩
  · intro hclosed
    by_contra hunknown
    exact hinv.not_closedLines hdie hon hunknown hrun hclosed
  · exact (hinv.invalidate hon hknown hrun).closedLines hdie


/-! ## A line that is full -/

theorem pageOf_on (hunfolded : Unfolded h die) (hdie : die < luncount h)
    {wpp : WritePointer} (hblk : wpp.blk < h.blksPerPl)
    (hpg : wpp.pg < h.pgsPerBlk) : PageOn h die (pageOf h die wpp) := by
  have hglun := (@getGlun_eq_iff h die (pageOf h die wpp) ⟨rfl, rfl⟩).mpr
    hunfolded
  refine ⟨⟨?_, ?_, h.plsPerLun_pos, hblk, hpg⟩, hglun⟩
  · exact (Nat.mod_le _ _).trans_lt (Nat.mod_lt die h.nchs_pos)
  · apply (Nat.mod_le _ _).trans_lt
    apply Nat.div_lt_of_lt_mul
    rw [Nat.mul_comm]
    exact hdie

/-- The line under the write pointer is programmed up to the page `count`, no
page of it is invalid, and there is a free line behind it. -/
structure Filling (die : ℕ) (s : HybridFtl h) (count : ℕ) : Prop where
  inv : DieInv die s
  pg_eq : (s.lunwp die).pg = count
  vpc_eq : (s.lunlm die).vpc (s.lunwp die).blk = count
  ipc_eq : (s.lunlm die).ipc (s.lunwp die).blk = 0
  pg_free : ∀ pg, count ≤ pg →
    s.ftl.pg { pageOf h die (s.lunwp die) with pg := pg } = .free
  spare : (s.lunlm die).freeLineList ≠ []

/-- The page under the write pointer has been programmed, and the pointer is to
be advanced. -/
structure Marked (die : ℕ) (s s₁ : HybridFtl h) (count : ℕ) : Prop where
  run : ∀ s', advanceWritePointerDA s₁ .user = .ok s' →
    pageStep die s .program = .ok s'
  lunwp_eq : s₁.lunwp = s.lunwp
  lunpointer_eq : s₁.lunpointer = die
  vpc_eq : (s₁.lunlm die).vpc (s.lunwp die).blk = count + 1
  ipc_eq : (s₁.lunlm die).ipc (s.lunwp die).blk = 0
  free_eq : (s₁.lunlm die).freeLineList = (s.lunlm die).freeLineList
  pg_free : ∀ pg, count + 1 ≤ pg →
    s₁.ftl.pg { pageOf h die (s.lunwp die) with pg := pg } = .free
  pg_valid : s₁.ftl.pg (pageOf h die (s.lunwp die)) = .valid

theorem Filling.marked {count : ℕ} (hfilling : Filling die s count)
    (hon : PageOn h die (pageOf h die (s.lunwp die))) :
    ∃ s₁, Marked die s s₁ count := by
  have hself : { pageOf h die (s.lunwp die) with pg := count } =
      pageOf h die (s.lunwp die) := by
    rw [← hfilling.pg_eq]
    rfl
  have hfree := hfilling.pg_free count le_rfl
  rw [hself] at hfree
  have hsent : TableInv { s with lunpointer := die } :=
    tableInv_congr hfilling.inv.tables rfl fun _ _ => ⟨rfl, rfl⟩
  obtain ⟨s₁, hmark, -⟩ :=
    hsent.markValid hfilling.inv.planes hon.1 hfree
  obtain ⟨-, hpg, hlunwp, hlunpointer, hlunlm⟩ := markPageValid_eq_ok hmark
  rw [hon.2] at hlunlm
  have hlm : s₁.lunlm die = { s.lunlm die with
      vpc := Function.update (s.lunlm die).vpc (s.lunwp die).blk
        ((s.lunlm die).vpc (s.lunwp die).blk + 1) } := by
    rw [hlunlm]
    exact Function.update_self _ _ _
  refine ⟨s₁, fun s' hadvance => ?_, hlunwp, hlunpointer, ?_, ?_, ?_,
    fun pg hle => ?_, ?_⟩
  · rw [pageStep, hfilling.inv.dieAt.newPage, ok_bind, hmark, ok_bind]
    exact hadvance
  · rw [hlm]
    dsimp only
    rw [Function.update_self, hfilling.vpc_eq]
  · rw [hlm]
    exact hfilling.ipc_eq
  · rw [hlm]
  · rw [hpg, Function.update_of_ne]
    · exact hfilling.pg_free pg (Nat.le_of_succ_le hle)
    · rw [← hself]
      intro heq
      have heq' : pg = count := congrArg Ppa.pg heq
      omega
  · rw [hpg, Function.update_self]

theorem Filling.next {count : ℕ} (hfilling : Filling die s count)
    (hon : PageOn h die (pageOf h die (s.lunwp die)))
    (hlt : count + 1 < h.slcPgsPerBlk) :
    ∃ s', pageStep die s .program = .ok s' ∧ Filling die s' (count + 1) := by
  obtain ⟨s₁, hmarked⟩ := hfilling.marked hon
  have hpg : (s₁.lunwp s₁.lunpointer).pg + 1 < h.slcPgsPerBlk := by
    rw [hmarked.lunpointer_eq, hmarked.lunwp_eq, hfilling.pg_eq]
    exact hlt
  obtain ⟨s', hadvance, hftl, hlunlm, hlunwp⟩ := advance_page hpg
  have hrun := hmarked.run s' hadvance
  rw [hmarked.lunpointer_eq, hmarked.lunwp_eq] at hlunwp
  have hwp : s'.lunwp die =
      { s.lunwp die with pg := (s.lunwp die).pg + 1 } := by
    rw [hlunwp, Function.update_self]
  refine ⟨s', hrun, hfilling.inv.program hon hrun, ?_, ?_, ?_, ?_, ?_⟩
  · rw [hwp, ← hfilling.pg_eq]
  · rw [hlunlm, hwp]
    exact hmarked.vpc_eq
  · rw [hlunlm, hwp]
    exact hmarked.ipc_eq
  · rw [hftl, hwp]
    exact hmarked.pg_free
  · rw [hlunlm, hmarked.free_eq]
    exact hfilling.spare

/-- The last page of a line closes it, and all its pages are valid. -/
theorem Filling.last {count : ℕ} (hfilling : Filling die s count)
    (hon : PageOn h die (pageOf h die (s.lunwp die)))
    (hlast : count + 1 = h.slcPgsPerBlk)
    (hpages : h.slcPgsPerBlk = h.pgsPerLunLine)
    (hblks : h.blksPerPl ≤ h.slcBlksPerPl) :
    ∃ s', pageStep die s .program = .ok s' ∧
      (s.lunwp die).blk ∈ (s'.lunlm die).fullLineList ∧
      s'.ftl.pg (pageOf h die (s.lunwp die)) = .valid := by
  obtain ⟨s₁, hmarked⟩ := hfilling.marked hon
  have hat := hfilling.inv.dieAt
  have hblk : (s.lunwp die).blk < h.slcBlksPerPl := hat.blk_lt.trans_le hblks
  obtain ⟨next, rest, hfree⟩ := List.exists_cons_of_ne_nil hfilling.spare
  have hnext : next < h.slcBlksPerPl := by
    apply (hat.free_lt next _).trans_le hblks
    exact (congrArg (next ∈ ·) hfree).mpr List.mem_cons_self
  have hclose : closeLineDA h (s₁.lunlm die) (s.lunwp die).blk =
      .ok { s₁.lunlm die with
        fullLineList := (s₁.lunlm die).fullLineList ++ [(s.lunwp die).blk]
        fullLineCnt := (s₁.lunlm die).fullLineCnt + 1 } := by
    have hall : (s₁.lunlm die).vpc (s.lunwp die).blk = h.pgsPerLunLine := by
      rw [hmarked.vpc_eq, hlast, hpages]
    rw [closeLineDA, if_pos hall, nvmevAssert_of hmarked.ipc_eq]
    rfl
  have hwp : getWpDA s₁ .user s₁.lunpointer = s.lunwp die := by
    rw [hmarked.lunpointer_eq]
    exact congrFun hmarked.lunwp_eq die
  have hpg : (s.lunwp die).pg + 1 = h.slcPgsPerBlk := by
    rw [hfilling.pg_eq]
    exact hlast
  have honeshot : ((s.lunwp die).pg + 1) % h.slcPgsPerOneshotpg = 0 := by
    rw [hpg, h.slcPgsPerBlk_eq, Nat.mul_mod_right]
  have hswitch : ∃ s₂, switchLineDA s₁ .user
      { s.lunwp die with
        curline := some (s.lunwp die).blk, pg := (s.lunwp die).pg + 1 }
      (s.lunwp die).blk = .ok s₂ ∧ s₂.ftl = s₁.ftl ∧
      (s₂.lunlm die).fullLineList =
        (s₁.lunlm die).fullLineList ++ [(s.lunwp die).blk] := by
    rw [switchLineDA, hmarked.lunpointer_eq, hclose, ok_bind,
      nvmevAssert_of hblk, ok_bind, getNextFreeLine]
    dsimp only
    rw [hmarked.free_eq, hfree]
    dsimp only
    rw [nvmevAssert_of hnext, ok_bind]
    refine ⟨_, rfl, rfl, ?_⟩
    dsimp only [setWpDA]
    rw [Function.update_self]
  obtain ⟨s₂, hswitched, hftl, hfull⟩ := hswitch
  have hlt : (s.lunwp die).pg < h.slcPgsPerBlk := by omega
  have hadvance : advanceWritePointerDA s₁ .user =
      .ok { s₂ with lunpointer := nextLun h s₁.lunpointer } := by
    rw [advanceWritePointerDA]
    dsimp only
    rw [hwp, nvmevAssert_of hlt, ok_bind, if_neg (not_not.mpr honeshot),
      if_pos hpg, hfilling.inv.curline_eq]
    exact congrArg (· >>= _) hswitched
  refine ⟨_, hmarked.run _ hadvance, ?_, ?_⟩
  · dsimp only
    rw [hfull]
    exact List.mem_append_right _ List.mem_cons_self
  · dsimp only
    rw [hftl]
    exact hmarked.pg_valid

theorem Filling.start (hinit : Initialisable h.toGeometry)
    (hdie : die < luncount h) (ssd : Ssd) (lunlm : ℕ → LineMgmt)
    (lunwp : ℕ → WritePointer) :
    ∃ s, Reachable (pageMachine h die (FullKnown die)) s ∧
      Filling die s 0 := by
  obtain ⟨s, hprepared, hviews⟩ :=
    freshHybrid_prepared (h := h) ssd lunlm lunwp
  have hconv := convInitFtl_eq hinit ssd lunlm lunwp
  have hfresh : ∀ die < luncount h,
      (freshHybrid h ssd lunlm lunwp).lunlm die = freshLines h.toGeometry :=
    fun _ => freshHybrid_lunlm ssd lunlm lunwp
  obtain ⟨hftl, hlines⟩ := prepareWritePointerDA_lines hfresh hprepared
  have hwp : s.lunwp die = (preparedView h die).wp :=
    congrArg DieView.wp (hviews die hdie)
  have hspare : List.range' 1 (h.blksPerPl - 1) ≠ [] := by
    have htwo := hinit.2
    rw [Ne, List.range'_eq_nil_iff]
    omega
  refine ⟨s, .start ⟨ssd, lunlm, lunwp, _, hconv, hprepared⟩, ?_⟩
  refine ⟨DieInv.start hconv hprepared hdie, ?_, ?_, ?_, fun pg _ => ?_, ?_⟩
  · rw [hwp]
    rfl
  · rw [hlines die hdie]
    rfl
  · rw [hlines die hdie]
    rfl
  · rw [hftl]
    rfl
  · rw [hlines die hdie]
    exact hspare

/-- A line is filled page after page. -/
theorem Filling.exists (hinit : Initialisable h.toGeometry)
    (hunfolded : Unfolded h die) (hdie : die < luncount h)
    (hpages : h.slcPgsPerBlk ≤ h.pgsPerBlk) {count : ℕ}
    (hlt : count < h.slcPgsPerBlk) :
    ∃ s, Reachable (pageMachine h die (FullKnown die)) s ∧
      Filling die s count := by
  induction count with
  | zero =>
      exact Filling.start hinit hdie
        (idleSsd ⟨2, two_lt_bits⟩ ⟨0, zero_lt_bits⟩)
        (fun _ => freshLines h.toGeometry) fun _ => zeroWp
  | succ count ih =>
      obtain ⟨s, hreach, hfilling⟩ := ih ((Nat.lt_succ_self _).trans hlt)
      have hpg : (s.lunwp die).pg < h.pgsPerBlk := by
        rw [hfilling.pg_eq]
        omega
      have hon : PageOn h die (pageOf h die (s.lunwp die)) :=
        pageOf_on hunfolded hdie hfilling.inv.dieAt.blk_lt hpg
      have henabled : (pageMachine h die (FullKnown die)).enabled s
          .program := ⟨hon, trivial⟩
      obtain ⟨s', hrun, hfilling'⟩ := hfilling.next hon hlt
      exact ⟨s', hreach.next henabled hrun, hfilling'⟩

/-- A run is one without the condition, too. -/
theorem reachable_any {condition : HybridFtl h → PageAction → Prop}
    (hreach : Reachable (pageMachine h die condition) s) :
    Reachable (pageMachine h die fun _ _ => True) s := by
  induction hreach with
  | start hinit => exact .start hinit
  | next _ henabled hrun ih => exact ih.next ⟨henabled.1, trivial⟩ hrun

/-- Where the blocks of the SLC macros are the blocks of the device, a device
of several dies fills a line, invalidates a page of it, and keeps the line on
the full list of its die. -/
theorem exists_not_closedLines (hinit : Initialisable h.toGeometry)
    (hunfolded : Unfolded h die) (hdie : die < luncount h)
    (hpages : h.slcPgsPerBlk = h.pgsPerLunLine)
    (hdies : h.pgsPerLunLine < h.pgsPerLine)
    (hblks : h.blksPerPl ≤ h.slcBlksPerPl) :
    ∃ s, Reachable (pageMachine h die fun _ _ => True) s ∧
      ¬ ClosedLines die s := by
  have hpos := slcPgsPerBlk_pos h
  have hshape : h.slcPgsPerBlk = h.pgsPerBlk := by
    rw [hpages, h.pgsPerLunLine_eq, hinit.1, Nat.one_mul]
  obtain ⟨s, hreach, hfilling⟩ := Filling.exists hinit hunfolded hdie
    hshape.le (Nat.sub_lt hpos one_pos)
  have hlast : h.slcPgsPerBlk - 1 + 1 = h.slcPgsPerBlk :=
    Nat.sub_add_cancel hpos
  have hpg : (s.lunwp die).pg < h.pgsPerBlk := by
    rw [hfilling.pg_eq]
    omega
  have hon : PageOn h die (pageOf h die (s.lunwp die)) :=
    pageOf_on hunfolded hdie hfilling.inv.dieAt.blk_lt hpg
  have hprogram : (pageMachine h die (FullKnown die)).enabled s .program :=
    ⟨hon, trivial⟩
  obtain ⟨closed, hrun, hfull, hvalid⟩ :=
    hfilling.last hon hlast hpages hblks
  have hreach' := hreach.next hprogram hrun
  have hinv := DieInv.reachable hdie hreach'
  have hunknown : ¬ FullKnown die closed
      (.invalidate (pageOf h die (s.lunwp die))) := by
    intro hknown
    have hvpc : (closed.lunlm die).vpc (s.lunwp die).blk = h.pgsPerLine :=
      hknown.mpr hfull
    rw [hinv.table.full_vpc _ hfull] at hvpc
    omega
  obtain ⟨after, hinvalid, -⟩ :=
    hinv.tables.markInvalid hinv.planes hon.1 hvalid
  have henabled : (pageMachine h die fun _ _ => True).enabled closed
      (.invalidate (pageOf h die (s.lunwp die))) := ⟨hon, trivial⟩
  exact ⟨after, (reachable_any hreach').next henabled hinvalid,
    hinv.not_closedLines hdie hon hunknown hinvalid⟩

end

theorem slcLastPg_lt : 255 < 2 ^ pageBits := by decide

/-- Three lines, and 256 pages in every block, as the macros have it for the
SLC blocks. -/
def slcDevice : HybridGeometry :=
  hybridDevice ⟨2, two_lt_bits⟩ ⟨255, slcLastPg_lt⟩

/-- Die 0 fills its first line, and a page of the line is invalidated. -/
theorem slcDevice_not_closedLines :
    ∃ s, Reachable (pageMachine slcDevice 0 fun _ _ => True) s ∧
      ¬ ClosedLines 0 s := by
  apply exists_not_closedLines ⟨rfl, by decide⟩ ⟨by decide, by decide⟩ <;>
    decide

/-- The state of the device with 255 pages of the first line programmed. -/
theorem closedLines_iff_fullKnown_slcDevice :
    0 < luncount slcDevice ∧ ∃ s,
      Reachable (pageMachine slcDevice 0 (FullKnown 0)) s ∧
        ClosedLines 0 s := by
  have hdie : 0 < luncount slcDevice := by decide
  obtain ⟨s, hreach, -⟩ := Filling.exists ⟨rfl, by decide⟩
    ⟨by decide, by decide⟩ hdie (by decide)
    (show 255 < slcDevice.slcPgsPerBlk by decide)
  exact ⟨hdie, s, hreach, (closedLines_iff_fullKnown hdie hreach).1⟩

end NvmeVirt.DieLines
