import NvmeVirt.Conv.Superblock
import NvmeVirt.Core.Counting

/-!
# Book-keeping of pages and lines

The status of the NAND pages is the truth; the counters of blocks and lines,
the collections of lines and the write pointers are views of it.  This module
states what each view must show, and what the primitive operations do to
it.
-/

namespace NvmeVirt.Bookkeeping

open NvmeVirt.Counting
open NvmeVirt.Kernel
open NvmeVirt.Layout
open NvmeVirt.Mapping
open NvmeVirt.Superblock
open NvmeVirt.Timing
open NvmeVirt.Transition
open NvmeVirt.VictimQueue

section

variable (g : Geometry)

/-! ## Counters -/

/-- How many pages of line `line` have this status. -/
def lineCount (pg : Ppa → PgStatus) (line : ℕ) (status : PgStatus) : ℕ :=
  countOn (linePages g line) (· = status) pg

/-- How many pages of block `b` have this status. -/
def blkCount (pg : Ppa → PgStatus) (b : BlkAddr) (status : PgStatus) : ℕ :=
  countOn (blkPages g b) (· = status) pg

/-- The counters of a line count its valid and its invalid pages. -/
structure LineCounted (s : Ftl) (line : ℕ) : Prop where
  vpc_eq : s.lm.vpc line = lineCount g s.pg line .valid
  ipc_eq : s.lm.ipc line = lineCount g s.pg line .invalid

/-- The counters of a block count its valid and its invalid pages. -/
structure BlkCounted (s : Ftl) (b : BlkAddr) : Prop where
  vpc_eq : (s.blk b).vpc = blkCount g s.pg b .valid
  ipc_eq : (s.blk b).ipc = blkCount g s.pg b .invalid

/-! ## Where a line is -/

/-- How often `line` occurs on the free list, on the full list, in the victim
queue, under a write pointer, and among the lines `hand` that garbage
collection holds. -/
def places (s : Ftl) (hand : List ℕ) (line : ℕ) : ℕ :=
  s.lm.freeLineList.count line + s.lm.fullLineList.count line +
    (elems s.lm.victimLinePq).count line + [s.wp.blk].count line +
    [s.gcWp.blk].count line + hand.count line

/-- Every line of the device is in exactly one place. -/
structure Partitioned (s : Ftl) (hand : List ℕ) : Prop where
  size_pos : 1 ≤ s.lm.victimLinePq.size
  one_place : ∀ line, line < g.blksPerPl → places s hand line = 1
  no_place : ∀ line, ¬ line < g.blksPerPl → places s hand line = 0

/-- The line under a write pointer is programmed up to the pointer, and free
from the pointer on. -/
structure OpenLine (pg : Ppa → PgStatus) (wpp : WritePointer) : Prop where
  curline_eq : wpp.curline = some wpp.blk
  inRange : WpInRange g wpp
  free_iff : ∀ p ∈ linePages g wpp.blk,
    (pg p = .free ↔ rank g (wpPage wpp) ≤ rank g p)

variable {g}

theorem lineCount_update_of_ne {pg : Ppa → PgStatus} {p : Ppa} {line : ℕ}
    (hne : p.blk ≠ line) (new status : PgStatus) :
    lineCount g (Function.update pg p new) line status =
      lineCount g pg line status := by
  apply countOn_update_of_notMem
  intro hmem
  exact hne (mem_linePages.mp hmem).2.2.2.1

theorem lineCount_update {pg : Ppa → PgStatus} {p : Ppa}
    (hp : ValidPpa g p) (new status : PgStatus) :
    lineCount g (Function.update pg p new) p.blk status +
        (if pg p = status then 1 else 0) =
      lineCount g pg p.blk status + (if new = status then 1 else 0) :=
  countOn_update new (mem_linePages_of_valid hp)

theorem blkCount_update_of_ne {pg : Ppa → PgStatus} {p : Ppa} {b : BlkAddr}
    (hne : p.toBlkAddr ≠ b) (new status : PgStatus) :
    blkCount g (Function.update pg p new) b status =
      blkCount g pg b status := by
  apply countOn_update_of_notMem
  intro hmem
  exact hne (mem_blkPages.mp hmem).1

theorem blkCount_update {pg : Ppa → PgStatus} {p : Ppa}
    (hp : ValidPpa g p) (new status : PgStatus) :
    blkCount g (Function.update pg p new) p.toBlkAddr status +
        (if pg p = status then 1 else 0) =
      blkCount g pg p.toBlkAddr status + (if new = status then 1 else 0) :=
  countOn_update new (mem_blkPages.mpr ⟨rfl, hp.2.2.2.2⟩)

theorem lineCount_congr {pg pg' : Ppa → PgStatus} {line : ℕ}
    (h : ∀ p ∈ linePages g line, pg p = pg' p) (status : PgStatus) :
    lineCount g pg line status = lineCount g pg' line status :=
  countOn_congr fun p hp => by rw [h p hp]

theorem blkCount_congr {pg pg' : Ppa → PgStatus} {b : BlkAddr}
    (h : ∀ p ∈ blkPages g b, pg p = pg' p) (status : PgStatus) :
    blkCount g pg b status = blkCount g pg' b status :=
  countOn_congr fun p hp => by rw [h p hp]

theorem lineCount_le (hpls : g.plsPerLun = 1) (pg : Ppa → PgStatus)
    (line : ℕ) (status : PgStatus) :
    lineCount g pg line status ≤ g.pgsPerLine := by
  rw [← card_linePages hpls line]
  exact countOn_le_card _ _ _

theorem lineCount_lt (hpls : g.plsPerLun = 1) {pg : Ppa → PgStatus}
    {line : ℕ} {p : Ppa} (hp : p ∈ linePages g line) {status : PgStatus}
    (hne : pg p ≠ status) : lineCount g pg line status < g.pgsPerLine := by
  rw [← card_linePages hpls line]
  exact countOn_lt_card hp hne

theorem blkCount_lt {pg : Ppa → PgStatus} {p : Ppa} (hp : ValidPpa g p)
    {status : PgStatus} (hne : pg p ≠ status) :
    blkCount g pg p.toBlkAddr status < g.pgsPerBlk := by
  rw [← card_blkPages p.toBlkAddr]
  exact countOn_lt_card (mem_blkPages.mpr ⟨rfl, hp.2.2.2.2⟩) hne

theorem lineCount_pos {pg : Ppa → PgStatus} {line : ℕ} {p : Ppa}
    (hp : p ∈ linePages g line) : 0 < lineCount g pg line (pg p) :=
  countOn_pos hp rfl

/-- A line without a free page is accounted for by its two counters. -/
theorem lineCount_add_of_programmed (hpls : g.plsPerLun = 1)
    {pg : Ppa → PgStatus} {line : ℕ}
    (h : ∀ p ∈ linePages g line, pg p ≠ .free) :
    lineCount g pg line .valid + lineCount g pg line .invalid =
      g.pgsPerLine := by
  rw [← card_linePages hpls line]
  apply countOn_add_eq_card
  intro p hp
  have hprogrammed := h p hp
  cases hstatus : pg p <;> simp_all

theorem lineCount_add_le (hpls : g.plsPerLun = 1) (pg : Ppa → PgStatus)
    (line : ℕ) :
    lineCount g pg line .valid + lineCount g pg line .invalid ≤
      g.pgsPerLine := by
  rw [← card_linePages hpls line]
  apply countOn_add_le
  intro p _ hvalid
  simp [hvalid]

theorem lineCount_of_free {pg : Ppa → PgStatus} {line : ℕ}
    (h : ∀ p ∈ linePages g line, pg p = .free) {status : PgStatus}
    (hstatus : status ≠ .free) : lineCount g pg line status = 0 :=
  countOn_eq_zero fun p hp heq => hstatus (heq.symm.trans (h p hp))

theorem blkCount_of_free {pg : Ppa → PgStatus} {b : BlkAddr}
    (h : ∀ p ∈ blkPages g b, pg p = .free) {status : PgStatus}
    (hstatus : status ≠ .free) : blkCount g pg b status = 0 :=
  countOn_eq_zero fun p hp heq => hstatus (heq.symm.trans (h p hp))

/-! ## `mark_page_valid` -/

/-- The state `mark_page_valid` leaves, without the tables of the dies. -/
def pageValidated (s : Ftl) (p : Ppa) : Ftl :=
  { s with
    pg := Function.update s.pg p .valid
    blk := Function.update s.blk p.toBlkAddr
      { s.blk p.toBlkAddr with vpc := (s.blk p.toBlkAddr).vpc + 1 }
    lm :=
      { s.lm with
        vpc := Function.update s.lm.vpc p.blk (s.lm.vpc p.blk + 1) } }

/-- A free page with exact counters meets every assertion. -/
theorem superblockValid_of (hpls : g.plsPerLun = 1) {s : Ftl} {p : Ppa}
    (hp : ValidPpa g p) (hfree : s.pg p = .free)
    (hline : LineCounted g s p.blk) (hblk : BlkCounted g s p.toBlkAddr) :
    superblockValid g s p = .ok (pageValidated s p) := by
  have hne : s.pg p ≠ .valid := by simp [hfree]
  have hblkLt : (s.blk p.toBlkAddr).vpc < g.pgsPerBlk := by
    rw [hblk.vpc_eq]
    exact blkCount_lt hp hne
  have hlineLt : s.lm.vpc p.blk < g.pgsPerLine := by
    rw [hline.vpc_eq]
    exact lineCount_lt hpls (mem_linePages_of_valid hp) hne
  rw [superblockValid, nvmevAssert_of hfree, ok_bind]
  dsimp only
  rw [nvmevAssert_of hblkLt, ok_bind, lineMarkValid, nvmevAssert_of hlineLt]
  rfl

theorem LineCounted.pageValidated {s : Ftl} {p : Ppa} (hp : ValidPpa g p)
    (hfree : s.pg p = .free) {line : ℕ} (h : LineCounted g s line) :
    LineCounted g (pageValidated s p) line := by
  by_cases hline : p.blk = line
  · subst hline
    have hvalid := @lineCount_update g s.pg p hp .valid .valid
    have hinvalid := @lineCount_update g s.pg p hp .valid .invalid
    simp only [hfree, reduceCtorEq, if_false, if_true, Nat.add_zero]
      at hvalid hinvalid
    constructor
    · simp only [Bookkeeping.pageValidated, Function.update_self]
      rw [h.vpc_eq, hvalid]
    · simp only [Bookkeeping.pageValidated]
      rw [h.ipc_eq, hinvalid]
  · constructor
    · simp only [Bookkeeping.pageValidated]
      rw [lineCount_update_of_ne hline, Function.update_of_ne (Ne.symm hline),
        h.vpc_eq]
    · simp only [Bookkeeping.pageValidated]
      rw [lineCount_update_of_ne hline, h.ipc_eq]

theorem BlkCounted.pageValidated {s : Ftl} {p : Ppa} (hp : ValidPpa g p)
    (hfree : s.pg p = .free) {b : BlkAddr} (h : BlkCounted g s b) :
    BlkCounted g (pageValidated s p) b := by
  by_cases hb : p.toBlkAddr = b
  · subst hb
    have hvalid := @blkCount_update g s.pg p hp .valid .valid
    have hinvalid := @blkCount_update g s.pg p hp .valid .invalid
    simp only [hfree, reduceCtorEq, if_false, if_true, Nat.add_zero]
      at hvalid hinvalid
    constructor
    · simp only [Bookkeeping.pageValidated, Function.update_self]
      rw [h.vpc_eq, hvalid]
    · simp only [Bookkeeping.pageValidated, Function.update_self]
      rw [h.ipc_eq, hinvalid]
  · constructor
    · simp only [Bookkeeping.pageValidated]
      rw [blkCount_update_of_ne hb, Function.update_of_ne (Ne.symm hb),
        h.vpc_eq]
    · simp only [Bookkeeping.pageValidated]
      rw [blkCount_update_of_ne hb, Function.update_of_ne (Ne.symm hb),
        h.ipc_eq]

/-! ## `advance_write_pointer` -/

/-- The line table after a line whose last page was programmed is closed. -/
def lineClosed (g : Geometry) (lm : LineMgmt) (line : ℕ) : LineMgmt :=
  if lm.vpc line = g.pgsPerLine then
    { lm with
      fullLineList := lm.fullLineList ++ [line]
      fullLineCnt := lm.fullLineCnt + 1 }
  else
    { lm with
      victimLinePq := pqueueInsert lm.vpc lm.victimLinePq line
      victimLineCnt := lm.victimLineCnt + 1 }

/-- A fully programmed line with exact counters meets the assertions of the
branch that closes it. -/
theorem closeLine_of (hpls : g.plsPerLun = 1) {s : Ftl} {line : ℕ}
    (hcounted : LineCounted g s line)
    (hprogrammed : ∀ p ∈ linePages g line, s.pg p ≠ .free) :
    closeLine g s.lm line = .ok (lineClosed g s.lm line) := by
  have hsum := lineCount_add_of_programmed hpls hprogrammed
  rw [← hcounted.vpc_eq, ← hcounted.ipc_eq] at hsum
  rw [closeLine, lineClosed]
  split_ifs with hfull
  · rw [nvmevAssert_of (by omega)]
    rfl
  · rw [nvmevAssert_of (by omega), ok_bind, nvmevAssert_of (by omega)]
    rfl

/-- What `advance_write_pointer` leaves of the state `s` whose page under the
pointer `io` has just been programmed. -/
inductive Advanced (g : Geometry) (s : Ftl) (io : IoType) : Ftl → Prop
  | within (wpp : WritePointer) (hwpp : WpInRange g wpp)
      (hcurline : wpp.curline = (getWp s io).curline)
      (hblk : wpp.blk = (getWp s io).blk)
      (hrank : rank g (wpPage wpp) = rank g (wpPage (getWp s io)) + 1) :
      Advanced g s io (setWp s wpp io)
  | closed (next : ℕ) (rest : List ℕ)
      (hfree : s.lm.freeLineList = next :: rest)
      (hlast : rank g (wpPage (getWp s io)) + 1 = g.pgsPerLine) :
      Advanced g s io
        (setWp
          { s with
            lm :=
              { lineClosed g s.lm (getWp s io).blk with
                freeLineList := rest
                freeLineCnt := s.lm.freeLineCnt - 1 } }
          { curline := some next, ch := 0, lun := 0, pg := 0, blk := next,
            pl := 0 } io)

@[simp]
theorem lineClosed_freeLineList (lm : LineMgmt) (line : ℕ) :
    (lineClosed g lm line).freeLineList = lm.freeLineList := by
  rw [lineClosed]
  split_ifs <;> rfl

@[simp]
theorem lineClosed_freeLineCnt (lm : LineMgmt) (line : ℕ) :
    (lineClosed g lm line).freeLineCnt = lm.freeLineCnt := by
  rw [lineClosed]
  split_ifs <;> rfl

@[simp]
theorem lineClosed_vpc (lm : LineMgmt) (line : ℕ) :
    (lineClosed g lm line).vpc = lm.vpc := by
  rw [lineClosed]
  split_ifs <;> rfl

@[simp]
theorem lineClosed_ipc (lm : LineMgmt) (line : ℕ) :
    (lineClosed g lm line).ipc = lm.ipc := by
  rw [lineClosed]
  split_ifs <;> rfl

/-- With a spare line for the last page of a line, the pointer always
advances. -/
theorem advanceWritePointer_of (hpls : g.plsPerLun = 1) {s : Ftl}
    {io : IoType} (hcurline : (getWp s io).curline = some (getWp s io).blk)
    (hrange : WpInRange g (getWp s io)) (hblk : (getWp s io).blk < g.blksPerPl)
    (hcounted : LineCounted g s (getWp s io).blk)
    (hprogrammed : ∀ p ∈ linePages g (getWp s io).blk,
      rank g p ≤ rank g (wpPage (getWp s io)) → s.pg p ≠ .free)
    (hspare : rank g (wpPage (getWp s io)) + 1 = g.pgsPerLine →
      s.lm.freeLineList ≠ [])
    (hlines : ∀ line ∈ s.lm.freeLineList, line < g.blksPerPl) :
    ∃ s', advanceWritePointer g s io = .ok s' ∧ Advanced g s io s' := by
  obtain ⟨after, usedUp, hrun, hstep⟩ := stepWritePointer_spec hrange
  rw [advanceWritePointer, hrun, ok_bind]
  cases usedUp with
  | false =>
      exact ⟨_, rfl, .within after hstep.inRange hstep.curline_eq hstep.blk_eq
        (hstep.rank_eq rfl)⟩
  | true =>
      obtain ⟨hlast, hafter⟩ := hstep.rank_last rfl
      obtain ⟨next, rest, hfree⟩ := List.exists_cons_of_ne_nil (hspare hlast)
      have hnext : next < g.blksPerPl := hlines next (by simp [hfree])
      have hall : ∀ p ∈ linePages g (getWp s io).blk, s.pg p ≠ .free := by
        intro p hp
        have hrank := rank_lt_of_mem hp
        exact hprogrammed p hp (by omega)
      subst hafter
      refine ⟨_, ?_, .closed next rest hfree hlast⟩
      simp only [if_true, hcurline]
      rw [switchLine, closeLine_of hpls hcounted hall, ok_bind,
        nvmevAssert_of hblk, ok_bind]
      rw [getNextFreeLine, lineClosed_freeLineList, hfree]
      dsimp only
      rw [nvmevAssert_of hnext, ok_bind,
        nvmevAssert_of ⟨rfl, rfl, rfl, hrange.pl_eq⟩, ok_bind,
        lineClosed_freeLineCnt, hrange.pl_eq]
      rfl

/-! ## Lines stay in one place -/

theorem Partitioned.lt {s : Ftl} {hand : List ℕ} (h : Partitioned g s hand)
    {line : ℕ} (hplace : 0 < places s hand line) : line < g.blksPerPl := by
  by_contra hlt
  rw [h.no_place line hlt] at hplace
  exact lt_irrefl 0 hplace

theorem Partitioned.places_le {s : Ftl} {hand : List ℕ}
    (h : Partitioned g s hand) (line : ℕ) : places s hand line ≤ 1 := by
  by_cases hlt : line < g.blksPerPl
  · exact (h.one_place line hlt).le
  · rw [h.no_place line hlt]
    exact Nat.zero_le 1

/-- A state with the same lines in the same places. -/
theorem Partitioned.of_places {s s' : Ftl} {hand hand' : List ℕ}
    (h : Partitioned g s hand) (hsize : 1 ≤ s'.lm.victimLinePq.size)
    (hplaces : ∀ line, places s' hand' line = places s hand line) :
    Partitioned g s' hand' where
  size_pos := hsize
  one_place line hlt := (hplaces line).trans (h.one_place line hlt)
  no_place line hlt := (hplaces line).trans (h.no_place line hlt)

theorem Partitioned.free_lt {s : Ftl} {hand : List ℕ}
    (h : Partitioned g s hand) {line : ℕ}
    (hline : line ∈ s.lm.freeLineList) : line < g.blksPerPl := by
  apply h.lt
  have hcount := List.count_pos_iff.mpr hline
  rw [places]
  omega

theorem Partitioned.wp_lt {s : Ftl} {hand : List ℕ}
    (h : Partitioned g s hand) (io : IoType) :
    (getWp s io).blk < g.blksPerPl := by
  apply h.lt
  have hcount : [(getWp s io).blk].count (getWp s io).blk = 1 := by simp
  cases io <;> simp only [getWp] at hcount ⊢ <;> unfold places <;> omega

theorem Partitioned.free_ne_wp {s : Ftl} {hand : List ℕ}
    (h : Partitioned g s hand) {line : ℕ}
    (hline : line ∈ s.lm.freeLineList) (io : IoType) :
    (getWp s io).blk ≠ line := by
  rintro rfl
  have hfree := List.count_pos_iff.mpr hline
  have hcount : [(getWp s io).blk].count (getWp s io).blk = 1 := by simp
  have hle := h.places_le (getWp s io).blk
  rw [places] at hle
  cases io <;> simp only [getWp] at hfree hcount hle <;> omega

theorem count_lineClosed {lm : LineMgmt} (hsize : 1 ≤ lm.victimLinePq.size)
    (line other : ℕ) :
    (lineClosed g lm line).fullLineList.count other +
        (elems (lineClosed g lm line).victimLinePq).count other =
      lm.fullLineList.count other + (elems lm.victimLinePq).count other +
        [line].count other := by
  rw [lineClosed]
  split_ifs with hfull
  · rw [List.count_append, Nat.add_right_comm]
  · have hperm := elems_pqueueInsert lm.vpc lm.victimLinePq line hsize
    rw [hperm.count_eq, List.count_append, Nat.add_assoc]

theorem lineClosed_size_pos {lm : LineMgmt}
    (hsize : 1 ≤ lm.victimLinePq.size) (line : ℕ) :
    1 ≤ (lineClosed g lm line).victimLinePq.size := by
  rw [lineClosed]
  split_ifs
  · exact hsize
  · rw [pqueueInsert_size _ _ _ hsize]
    omega

theorem Partitioned.advanced {s s' : Ftl} {io : IoType} {hand : List ℕ}
    (h : Partitioned g s hand) (hadvanced : Advanced g s io s') :
    Partitioned g s' hand := by
  cases hadvanced with
  | within wpp hwpp hcurline hblk hrank =>
      refine h.of_places ?_ ?_
      · cases io <;> exact h.size_pos
      · intro line
        cases io <;> simp only [getWp] at hblk <;>
          simp only [places, setWp, hblk]
  | closed next rest hfree hlast =>
      refine h.of_places ?_ ?_
      · cases io <;> exact lineClosed_size_pos h.size_pos _
      · intro line
        have hclosed := count_lineClosed (g := g) h.size_pos
          (getWp s io).blk line
        have hcount : s.lm.freeLineList.count line =
            [next].count line + rest.count line := by
          rw [hfree, ← List.singleton_append, List.count_append]
        cases io <;> simp only [getWp] at hclosed <;>
          simp only [places, setWp, getWp, hcount] <;> omega

/-! ## What programming a page keeps -/

theorem LineCounted.congr {s s' : Ftl} {line : ℕ} (h : LineCounted g s line)
    (hvpc : s'.lm.vpc line = s.lm.vpc line)
    (hipc : s'.lm.ipc line = s.lm.ipc line)
    (hpg : ∀ p ∈ linePages g line, s'.pg p = s.pg p) :
    LineCounted g s' line where
  vpc_eq := by rw [hvpc, h.vpc_eq, lineCount_congr hpg]
  ipc_eq := by rw [hipc, h.ipc_eq, lineCount_congr hpg]

theorem BlkCounted.congr {s s' : Ftl} {b : BlkAddr} (h : BlkCounted g s b)
    (hblk : s'.blk b = s.blk b) (hpg : ∀ p ∈ blkPages g b, s'.pg p = s.pg p) :
    BlkCounted g s' b where
  vpc_eq := by rw [hblk, h.vpc_eq, blkCount_congr hpg]
  ipc_eq := by rw [hblk, h.ipc_eq, blkCount_congr hpg]

/-- Moving the pointer changes no page, no counter and no mapping. -/
theorem Advanced.frame {s s' : Ftl} {io : IoType}
    (h : Advanced g s io s') :
    s'.maptbl = s.maptbl ∧ s'.rmap = s.rmap ∧ s'.pg = s.pg ∧
      s'.blk = s.blk ∧ s'.lm.vpc = s.lm.vpc ∧ s'.lm.ipc = s.lm.ipc ∧
      s'.lm.ttLines = s.lm.ttLines ∧ s'.wfc = s.wfc := by
  cases h <;> cases io <;> simp [setWp, lineClosed] <;> split_ifs <;> simp

@[simp]
theorem getWp_pageValidated (s : Ftl) (p : Ppa) (io : IoType) :
    getWp (pageValidated s p) io = getWp s io := by
  cases io <;> rfl

/-- Programming the page under the pointer moves the boundary between the
programmed and the free part of the line past it. -/
theorem OpenLine.program (hpls : g.plsPerLun = 1) {pg : Ppa → PgStatus}
    {wpp : WritePointer} (h : OpenLine g pg wpp) {p : Ppa}
    (hp : p ∈ linePages g wpp.blk) :
    Function.update pg (wpPage wpp) .valid p = .free ↔
      rank g (wpPage wpp) + 1 ≤ rank g p := by
  by_cases heq : p = wpPage wpp
  · subst heq
    simp
  · rw [Function.update_of_ne heq, h.free_iff p hp]
    have hne : rank g p ≠ rank g (wpPage wpp) := fun hrank =>
      heq (rank_inj hpls hp h.inRange.mem_linePages hrank)
    omega

/-- The page under the pointer is the next one to program. -/
theorem OpenLine.page_free {pg : Ppa → PgStatus} {wpp : WritePointer}
    (h : OpenLine g pg wpp) : pg (wpPage wpp) = .free :=
  (h.free_iff _ h.inRange.mem_linePages).mpr le_rfl

/-- Book-keeping that lets a pointer program its line: one open line, exact
counters where the page goes, and a line in exactly one place. -/
structure Writable (g : Geometry) (s : Ftl) (hand : List ℕ)
    (io : IoType) : Prop where
  partitioned : Partitioned g s hand
  openLine : OpenLine g s.pg (getWp s io)
  lineCounted : LineCounted g s (getWp s io).blk
  blkCounted : BlkCounted g s (wpPage (getWp s io)).toBlkAddr
  freeLines : ∀ line ∈ s.lm.freeLineList, ∀ p ∈ linePages g line,
    s.pg p = .free

theorem Writable.validPpa {s : Ftl} {hand : List ℕ} {io : IoType}
    (h : Writable g s hand io) : ValidPpa g (wpPage (getWp s io)) :=
  h.openLine.inRange.validPpa (h.partitioned.wp_lt io)

/-- `mark_page_valid` on the new page, then `advance_write_pointer`. -/
theorem Writable.program (hpls : g.plsPerLun = 1) {s : Ftl}
    {hand : List ℕ} {io : IoType} (h : Writable g s hand io)
    (hspare : rank g (wpPage (getWp s io)) + 1 = g.pgsPerLine →
      s.lm.freeLineList ≠ []) :
    superblockValid g s (getNewPage s io) =
        .ok (pageValidated s (wpPage (getWp s io))) ∧
      ∃ s', advanceWritePointer g (pageValidated s (wpPage (getWp s io))) io =
          .ok s' ∧
        Advanced g (pageValidated s (wpPage (getWp s io))) io s' := by
  have hfree := h.openLine.page_free
  refine ⟨superblockValid_of hpls h.validPpa hfree h.lineCounted h.blkCounted,
    advanceWritePointer_of hpls ?_ ?_ ?_ ?_ ?_ ?_ ?_⟩
  · rw [getWp_pageValidated]
    exact h.openLine.curline_eq
  · rw [getWp_pageValidated]
    exact h.openLine.inRange
  · rw [getWp_pageValidated]
    exact h.partitioned.wp_lt io
  · rw [getWp_pageValidated]
    exact h.lineCounted.pageValidated h.validPpa hfree
  · rw [getWp_pageValidated]
    intro p hp hrank hpage
    have hafter := (h.openLine.program hpls hp).mp hpage
    omega
  · rw [getWp_pageValidated]
    exact hspare
  · exact fun line hline => h.partitioned.free_lt hline

theorem Partitioned.pageValidated {s : Ftl} {hand : List ℕ}
    (h : Partitioned g s hand) (p : Ppa) :
    Partitioned g (pageValidated s p) hand :=
  h.of_places h.size_pos fun _ => rfl

/-- The pointer that programmed stands on an open line again. -/
theorem Writable.openLine_self (hpls : g.plsPerLun = 1) {s s' : Ftl}
    {hand : List ℕ} {io : IoType} (h : Writable g s hand io)
    (hadvanced : Advanced g (pageValidated s (wpPage (getWp s io))) io s') :
    OpenLine g s'.pg (getWp s' io) := by
  have hpg : s'.pg = Function.update s.pg (wpPage (getWp s io)) .valid :=
    hadvanced.frame.2.2.1
  rw [hpg]
  cases hadvanced with
  | within wpp hwpp hcurline hblk hrank =>
      rw [getWp_pageValidated] at hcurline hblk hrank
      rw [getWp_setWp]
      refine ⟨by rw [hcurline, hblk, h.openLine.curline_eq], hwpp, ?_⟩
      intro p hp
      rw [hblk] at hp
      rw [hrank]
      exact h.openLine.program hpls hp
  | closed next rest hfree hlast =>
      have hnext : next ∈ s.lm.freeLineList := by
        change s.lm.freeLineList = _ at hfree
        simp [hfree]
      have hne := h.partitioned.free_ne_wp hnext io
      suffices hopen : OpenLine g
          (Function.update s.pg (wpPage (getWp s io)) .valid)
          { curline := some next, ch := 0, lun := 0, pg := 0, blk := next,
            pl := 0 } by
        cases io <;> exact hopen
      refine ⟨rfl, ⟨g.nchs_pos, g.lunsPerCh_pos, pgsPerBlk_pos g, rfl⟩, ?_⟩
      intro p hp
      have hpage : p ≠ wpPage (getWp s io) := by
        rintro rfl
        exact hne (mem_linePages.mp hp).2.2.2.1
      rw [Function.update_of_ne hpage, h.freeLines next hnext p hp]
      simp [rank, wpPage]

/-- The other pointer and its line are not concerned. -/
theorem Advanced.getWp_of_ne {s s' : Ftl} {io other : IoType}
    (hadvanced : Advanced g s io s') (hne : other ≠ io) :
    getWp s' other = getWp s other := by
  cases hadvanced <;> cases io <;> cases other <;> simp_all [getWp, setWp]

theorem Partitioned.wp_ne {s : Ftl} {hand : List ℕ}
    (h : Partitioned g s hand) {io other : IoType} (hne : other ≠ io) :
    (getWp s other).blk ≠ (getWp s io).blk := by
  intro heq
  have hself : [s.gcWp.blk].count s.gcWp.blk = 1 := by simp
  have hsame : s.wp.blk = s.gcWp.blk := by
    cases io <;> cases other <;> simp_all [getWp]
  have hle := h.places_le s.gcWp.blk
  rw [places, hsame] at hle
  omega

theorem Writable.openLine_other {s s' : Ftl} {hand : List ℕ}
    {io other : IoType} (h : Writable g s hand io) (hne : other ≠ io)
    (hopen : OpenLine g s.pg (getWp s other))
    (hadvanced : Advanced g (pageValidated s (wpPage (getWp s io))) io s') :
    OpenLine g s'.pg (getWp s' other) := by
  have hpg : s'.pg = Function.update s.pg (wpPage (getWp s io)) .valid :=
    hadvanced.frame.2.2.1
  rw [hpg, hadvanced.getWp_of_ne hne, getWp_pageValidated]
  refine ⟨hopen.curline_eq, hopen.inRange, ?_⟩
  intro p hp
  have hpage : p ≠ wpPage (getWp s io) := by
    rintro rfl
    exact h.partitioned.wp_ne hne (mem_linePages.mp hp).2.2.2.1.symm
  rw [Function.update_of_ne hpage]
  exact hopen.free_iff p hp

/-- The free list only loses lines, and their pages stay free. -/
theorem Writable.freeLines_after {s s' : Ftl} {hand : List ℕ}
    {io : IoType} (h : Writable g s hand io)
    (hadvanced : Advanced g (pageValidated s (wpPage (getWp s io))) io s') :
    ∀ line ∈ s'.lm.freeLineList, ∀ p ∈ linePages g line,
      s'.pg p = .free := by
  have hpg : s'.pg = Function.update s.pg (wpPage (getWp s io)) .valid :=
    hadvanced.frame.2.2.1
  have hsub : ∀ line ∈ s'.lm.freeLineList, line ∈ s.lm.freeLineList := by
    intro line hline
    cases hadvanced with
    | within wpp hwpp hcurline hblk hrank => cases io <;> exact hline
    | closed next rest hfree hlast =>
        change s.lm.freeLineList = _ at hfree
        rw [hfree]
        cases io <;> exact List.mem_cons_of_mem next hline
  intro line hline p hp
  have hpage : p ≠ wpPage (getWp s io) := by
    rintro rfl
    exact h.partitioned.free_ne_wp (hsub line hline) io
      (mem_linePages.mp hp).2.2.2.1
  rw [hpg, Function.update_of_ne hpage]
  exact h.freeLines line (hsub line hline) p hp

theorem LineCounted.advanced {s s' : Ftl} {io : IoType} {line : ℕ}
    (h : LineCounted g s line) (hadvanced : Advanced g s io s') :
    LineCounted g s' line := by
  obtain ⟨-, -, hpg, -, hvpc, hipc, -⟩ := hadvanced.frame
  exact h.congr (by rw [hvpc]) (by rw [hipc]) fun p _ => by rw [hpg]

theorem BlkCounted.advanced {s s' : Ftl} {io : IoType} {b : BlkAddr}
    (h : BlkCounted g s b) (hadvanced : Advanced g s io s') :
    BlkCounted g s' b := by
  obtain ⟨-, -, hpg, hblk, -⟩ := hadvanced.frame
  exact h.congr (by rw [hblk]) fun p _ => by rw [hpg]

/-- The victim queue gains at most the line that was closed. -/
theorem Advanced.mem_victims {s s' : Ftl} {io : IoType}
    (hadvanced : Advanced g s io s') (hsize : 1 ≤ s.lm.victimLinePq.size)
    {line : ℕ} (hline : line ∈ elems s'.lm.victimLinePq) :
    line ∈ elems s.lm.victimLinePq ∨
      line = (getWp s io).blk ∧
        rank g (wpPage (getWp s io)) + 1 = g.pgsPerLine := by
  cases hadvanced with
  | within wpp hwpp hcurline hblk hrank => cases io <;> exact .inl hline
  | closed next rest hfree hlast =>
      have hmem : line ∈
          elems (lineClosed g s.lm (getWp s io).blk).victimLinePq := by
        cases io <;> exact hline
      rw [lineClosed] at hmem
      split_ifs at hmem
      · exact .inl hmem
      · rw [(elems_pqueueInsert s.lm.vpc s.lm.victimLinePq _ hsize).mem_iff,
          List.mem_append, List.mem_singleton] at hmem
        exact hmem.imp_right fun heq => ⟨heq, hlast⟩

theorem Writable.victims_after (hpls : g.plsPerLun = 1) {s s' : Ftl}
    {hand : List ℕ} {io : IoType} (h : Writable g s hand io)
    (hvictims : ∀ line ∈ elems s.lm.victimLinePq, ∀ p ∈ linePages g line,
      s.pg p ≠ .free)
    (hadvanced : Advanced g (pageValidated s (wpPage (getWp s io))) io s') :
    ∀ line ∈ elems s'.lm.victimLinePq, ∀ p ∈ linePages g line,
      s'.pg p ≠ .free := by
  have hpg : s'.pg = Function.update s.pg (wpPage (getWp s io)) .valid :=
    hadvanced.frame.2.2.1
  intro line hline p hp
  rw [hpg]
  rcases hadvanced.mem_victims h.partitioned.size_pos hline with
    hold | ⟨rfl, hlast⟩
  · by_cases hpage : p = wpPage (getWp s io)
    · rw [hpage, Function.update_self]
      simp
    · rw [Function.update_of_ne hpage]
      exact hvictims line hold p hp
  · rw [getWp_pageValidated] at hp hlast
    rw [Ne, h.openLine.program hpls hp]
    have hlt := rank_lt_of_mem hp
    omega

/-- The maps are not looked at. -/
theorem Writable.withMaps {s : Ftl} {hand : List ℕ} {io : IoType}
    (h : Writable g s hand io) (maptbl : ℕ → Option Ppa)
    (rmap : ℕ → Option ℕ) :
    Writable g { s with maptbl := maptbl, rmap := rmap } hand io := by
  cases io <;>
    exact ⟨h.partitioned.of_places h.partitioned.size_pos fun _ => rfl,
      h.openLine, h.lineCounted.congr rfl rfl fun _ _ => rfl,
      h.blkCounted.congr rfl fun _ _ => rfl, h.freeLines⟩

/-- How many pages the pointer `io` can still program before it needs a line
that is not there. -/
def spare (g : Geometry) (s : Ftl) (io : IoType) : ℕ :=
  g.pgsPerLine - rank g (wpPage (getWp s io)) +
    g.pgsPerLine * s.lm.freeLineList.length

theorem Advanced.spare_succ {s s' : Ftl} {io : IoType}
    (hrange : WpInRange g (getWp s io)) (h : Advanced g s io s') :
    spare g s' io + 1 = spare g s io := by
  have hlt := rank_lt_of_mem hrange.mem_linePages
  cases h with
  | within wpp hwpp hcurline hblk hrank =>
      have hlt' := rank_lt_of_mem hwpp.mem_linePages
      rw [spare, spare, getWp_setWp, setWp_lm]
      omega
  | closed next rest hfree hlast =>
      have hzero : rank g (wpPage
          { curline := some next, ch := 0, lun := 0, pg := 0, blk := next,
            pl := 0 }) = 0 := by
        simp [rank, wpPage]
      have hcount : g.pgsPerLine * (rest.length + 1) =
          g.pgsPerLine * rest.length + g.pgsPerLine := Nat.mul_succ _ _
      cases io <;>
        simp only [spare, getWp, setWp, hfree, hzero, List.length_cons,
          hcount] at hlast ⊢ <;>
        omega

/-! ## `mark_block_free` -/

theorem markBlockFree_pg_of_ne {s : Ftl} {ppa p : Ppa}
    (hne : p.toBlkAddr ≠ ppa.toBlkAddr) :
    (markBlockFree g s ppa).pg p = s.pg p :=
  if_neg fun h => hne h.1

theorem markBlockFree_pg_of_mem {s : Ftl} {ppa p : Ppa}
    (hp : p ∈ blkPages g ppa.toBlkAddr) :
    (markBlockFree g s ppa).pg p = .free :=
  if_pos (mem_blkPages.mp hp)

theorem BlkCounted.markBlockFree {s : Ftl} {b : BlkAddr}
    (h : BlkCounted g s b) (ppa : Ppa) :
    BlkCounted g (markBlockFree g s ppa) b := by
  by_cases hb : b = ppa.toBlkAddr
  · subst hb
    have hfree : ∀ p ∈ blkPages g ppa.toBlkAddr,
        (Mapping.markBlockFree g s ppa).pg p = .free :=
      fun p hp => markBlockFree_pg_of_mem hp
    constructor
    · rw [blkCount_of_free hfree (by decide)]
      simp [Mapping.markBlockFree]
    · rw [blkCount_of_free hfree (by decide)]
      simp [Mapping.markBlockFree]
  · refine h.congr (Function.update_of_ne hb _ _) fun p hp => ?_
    apply markBlockFree_pg_of_ne
    rw [(mem_blkPages.mp hp).1]
    exact hb

/-! ## `select_victim_line` and `mark_line_free` -/

/-- The line table after the best victim has been taken. -/
def lineSelected (lm : LineMgmt) : LineMgmt :=
  { lm with
    victimLinePq :=
      { (pqueuePop lm.vpc lm.victimLinePq).2 with
        pos := Function.update (pqueuePop lm.vpc lm.victimLinePq).2.pos
          (lm.victimLinePq.d 1) 0 }
    victimLineCnt := lm.victimLineCnt - 1 }

/-- Either nothing is selected and nothing changes, or the root of the queue
is taken. -/
theorem selectVictimLine_cases (lm : LineMgmt) (force : Bool) :
    selectVictimLine g lm force = (none, lm) ∨
      lm.victimLinePq.size ≠ 1 ∧
        selectVictimLine g lm force =
          (some (lm.victimLinePq.d 1), lineSelected lm) := by
  rw [selectVictimLine, pqueuePeek]
  by_cases hsize : lm.victimLinePq.size = 1
  · simp [hsize]
  · simp only [hsize, if_false]
    split_ifs with hskip
    · exact .inl rfl
    · exact .inr ⟨hsize, rfl⟩

theorem elems_lineSelected {lm : LineMgmt} (hpos : 1 ≤ lm.victimLinePq.size)
    (hsize : lm.victimLinePq.size ≠ 1) :
    (lm.victimLinePq.d 1 :: elems (lineSelected lm).victimLinePq).Perm
      (elems lm.victimLinePq) :=
  elems_pqueuePop lm.vpc lm.victimLinePq (by omega)

/-- Taking a victim puts it in hand. -/
theorem Partitioned.select {s : Ftl} {hand : List ℕ}
    (h : Partitioned g s hand) (hsize : s.lm.victimLinePq.size ≠ 1)
    (wfc : WriteFlowControl) :
    Partitioned g { s with lm := lineSelected s.lm, wfc := wfc }
      (s.lm.victimLinePq.d 1 :: hand) := by
  have hpos := h.size_pos
  have hperm := elems_lineSelected hpos hsize
  refine h.of_places ?_ fun line => ?_
  · have hlength := hperm.length_eq
    rw [List.length_cons, length_elems, length_elems] at hlength
    dsimp only
    by_contra hzero
    have hpop := pqueuePop_size s.lm.vpc s.lm.victimLinePq (by omega)
    change (lineSelected s.lm).victimLinePq.size = _ at hpop
    omega
  · have hcount := hperm.count_eq line
    rw [← List.singleton_append, List.count_append] at hcount
    have hhand : (s.lm.victimLinePq.d 1 :: hand).count line =
        [s.lm.victimLinePq.d 1].count line + hand.count line := by
      rw [← List.singleton_append, List.count_append]
    simp only [places, hhand]
    change s.lm.freeLineList.count line + s.lm.fullLineList.count line + _ +
      _ + _ + _ = _
    omega

/-- Erased lines leave the hand for the free list. -/
theorem Partitioned.markLineFree {s : Ftl} {hand : List ℕ} {line : ℕ}
    (h : Partitioned g s (line :: hand)) :
    Partitioned g { s with lm := markLineFree s.lm line } hand := by
  refine h.of_places h.size_pos fun other => ?_
  have hhand : (line :: hand).count other =
      [line].count other + hand.count other := by
    rw [← List.singleton_append, List.count_append]
  simp only [places, hhand, Mapping.markLineFree, List.count_append]
  omega

/-- A line without programmed pages is booked with zero counters. -/
theorem LineCounted.markLineFree {s : Ftl} {line victim : ℕ}
    (hfree : ∀ p ∈ linePages g victim, s.pg p = .free)
    (h : line ≠ victim → LineCounted g s line) :
    LineCounted g { s with lm := markLineFree s.lm victim } line := by
  by_cases hline : line = victim
  · subst hline
    exact ⟨(Function.update_self _ _ _).trans
        (lineCount_of_free hfree (by decide)).symm,
      (Function.update_self _ _ _).trans
        (lineCount_of_free hfree (by decide)).symm⟩
  · exact (h hline).congr (Function.update_of_ne hline _ _)
      (Function.update_of_ne hline _ _) fun _ _ => rfl

end

end NvmeVirt.Bookkeeping
