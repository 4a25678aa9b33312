import NvmeVirt.Conv.DieRoom
import Mathlib.Tactic.IntervalCases

/-!
# Garbage collection loses no page

A collection visits the pages of its victim in a fixed order.  `Collecting` is
what holds after the first `visited` pages: visited pages have moved to the
line under the garbage collection pointer, the others are as they were, and
the pointer has room for all that are left.
-/

namespace NvmeVirt.GcConsistency

open NvmeVirt.Bookkeeping
open NvmeVirt.Counting
open NvmeVirt.DieRoom
open NvmeVirt.GarbageCollection
open NvmeVirt.Kernel
open NvmeVirt.Layout
open NvmeVirt.Mapping
open NvmeVirt.MixedRadix
open NvmeVirt.Superblock
open NvmeVirt.Timing
open NvmeVirt.Transition
open NvmeVirt.VictimQueue

section

variable (g : Geometry)

/-! ## Consistent mapping states -/

/-- The forward and the reverse map are inverse on the valid pages. -/
structure MapsAgree (s : Ftl) : Prop where
  mapped : ∀ lpn p, s.maptbl lpn = some p →
    lpn < g.ttPgs ∧ ValidPpa g p ∧ s.rmap (pgidx g p) = some lpn ∧
      s.pg p = .valid
  valid_mapped : ∀ p, ValidPpa g p → s.pg p = .valid →
    ∃ lpn, s.maptbl lpn = some p

/-- A state garbage collection may start from.  The pages of its line that the
pointer has passed are written, the others free. -/
structure Consistent (s : Ftl) : Prop where
  maps : MapsAgree g s
  lineCounted : ∀ line, line < g.blksPerPl → LineCounted g s line
  blkCounted : ∀ b, ValidBlk g b → BlkCounted g s b
  partitioned : Partitioned g s []
  wp_curline : s.wp.curline = some s.wp.blk
  gcWp_curline : s.gcWp.curline = some s.gcWp.blk
  gcWp_inRange : WpInRange g s.gcWp
  freeLines : ∀ line ∈ s.lm.freeLineList, ∀ p ∈ linePages g line,
    s.pg p = .free
  gcWp_unwritten : ∀ p ∈ linePages g s.gcWp.blk,
    rank g (wpPage s.gcWp) ≤ rank g p → s.pg p = .free
  gcWp_written : ∀ p ∈ linePages g s.gcWp.blk,
    rank g p < rank g (wpPage s.gcWp) → s.pg p ≠ .free
  victims : ∀ line ∈ elems s.lm.victimLinePq, ∀ p ∈ linePages g line,
    s.pg p ≠ .free
  spareLine : s.lm.freeLineList ≠ []

/-! ## The order of the collection -/

/-- The position of a page in the order in which `do_gc` visits a line. -/
def gcRank (p : Ppa) : ℕ :=
  ((p.pg / g.pgsPerFlashpg * g.nchs + p.ch) * g.lunsPerCh + p.lun) *
    g.pgsPerFlashpg + p.pg % g.pgsPerFlashpg

/-- The round in which `do_gc` erases the block of a page. -/
def eraseRound (p : Ppa) : ℕ :=
  ((g.flashpgsPerBlk - 1) * g.nchs + p.ch) * g.lunsPerCh + p.lun

variable {g}

theorem gcRank_lt (hflash : g.flashpgsPerBlk * g.pgsPerFlashpg = g.pgsPerBlk)
    {line : ℕ} {p : Ppa} (hp : p ∈ linePages g line) :
    gcRank g p < g.pgsPerLine := by
  obtain ⟨hch, hlun, _, _, hpg⟩ := mem_linePages.mp hp
  have hflashpg : p.pg / g.pgsPerFlashpg < g.flashpgsPerBlk :=
    Nat.div_lt_of_lt_mul (by rw [Nat.mul_comm, hflash]; exact hpg)
  have htotal : g.pgsPerLine =
      g.flashpgsPerBlk * g.nchs * g.lunsPerCh * g.pgsPerFlashpg := by
    rw [g.pgsPerLine_eq, g.ttLuns_eq, ← hflash]
    ring
  rw [htotal]
  exact digit_lt (digit_lt (digit_lt hflashpg hch) hlun)
    (Nat.mod_lt _ g.pgsPerFlashpg_pos)

theorem gcRank_inj (hpls : g.plsPerLun = 1) {line : ℕ} {p q : Ppa}
    (hp : p ∈ linePages g line) (hq : q ∈ linePages g line)
    (heq : gcRank g p = gcRank g q) : p = q := by
  obtain ⟨hch, hlun, hpl, hblk, hpg⟩ := mem_linePages.mp hp
  obtain ⟨hch', hlun', hpl', hblk', hpg'⟩ := mem_linePages.mp hq
  obtain ⟨houter, hlow⟩ := digit_inj (Nat.mod_lt _ g.pgsPerFlashpg_pos)
    (Nat.mod_lt _ g.pgsPerFlashpg_pos) heq
  obtain ⟨houter, hlunEq⟩ := digit_inj hlun hlun' houter
  obtain ⟨hflashpg, hchEq⟩ := digit_inj hch hch' houter
  have hpgEq : p.pg = q.pg := by
    rw [← Nat.div_add_mod p.pg g.pgsPerFlashpg, hflashpg, hlow,
      Nat.div_add_mod]
  have hplEq : p.pl = q.pl := by omega
  obtain ⟨⟨ch, lun, pl, blk⟩, pg⟩ := p
  obtain ⟨⟨ch', lun', pl', blk'⟩, pg'⟩ := q
  simp_all

/-- A page of the block erased in round `round` has been visited by the end of
that round. -/
theorem gcRank_lt_of_eraseRound
    (hflash : g.flashpgsPerBlk * g.pgsPerFlashpg = g.pgsPerBlk) {p : Ppa}
    (hpg : p.pg < g.pgsPerBlk) :
    gcRank g p < (eraseRound g p + 1) * g.pgsPerFlashpg := by
  have hflashpg : p.pg / g.pgsPerFlashpg < g.flashpgsPerBlk :=
    Nat.div_lt_of_lt_mul (by rw [Nat.mul_comm, hflash]; exact hpg)
  refine digit_lt (Nat.lt_succ_of_le ?_) (Nat.mod_lt _ g.pgsPerFlashpg_pos)
  exact Nat.add_le_add_right (Nat.mul_le_mul_right _ (Nat.add_le_add_right
    (Nat.mul_le_mul_right _ (by omega)) _)) _

/-- The position of page `i` of a flash page. -/
theorem gcRank_flashpgPage (ch lun pl blk flashpg : ℕ) {i : ℕ}
    (hi : i < g.pgsPerFlashpg) :
    gcRank g
        (flashpgPage
          { ch := ch, lun := lun, pl := pl, blk := blk,
            pg := flashpg * g.pgsPerFlashpg } i) =
      ((flashpg * g.nchs + ch) * g.lunsPerCh + lun) * g.pgsPerFlashpg + i := by
  rw [gcRank, flashpgPage]
  simp only [digit_div hi, digit_mod hi]

/-! ## What holds while a victim is being collected -/

/-- The state after `visited` pages of the victim line have been visited and
`erased` rounds are over, starting from `start` with the victim in hand. -/
structure Collecting (g : Geometry) (start : Ftl)
    (victim visited erased : ℕ) (s : Ftl) : Prop where
  partitioned : Partitioned g s [victim]
  gcOpen : OpenLine g s.pg s.gcWp
  wp_eq : s.wp = start.wp
  freeLines : ∀ line ∈ s.lm.freeLineList, ∀ p ∈ linePages g line,
    s.pg p = .free
  victims : ∀ line ∈ elems s.lm.victimLinePq, ∀ p ∈ linePages g line,
    s.pg p ≠ .free
  lineCounted : ∀ line, line < g.blksPerPl → line ≠ victim →
    LineCounted g s line
  blkCounted : ∀ b, ValidBlk g b → BlkCounted g s b
  mapped : ∀ lpn p, s.maptbl lpn = some p →
    lpn < g.ttPgs ∧ ValidPpa g p ∧ s.rmap (pgidx g p) = some lpn ∧
      s.pg p = .valid ∧ (p.blk = victim → visited ≤ gcRank g p)
  valid_mapped : ∀ p, ValidPpa g p → s.pg p = .valid →
    (p.blk = victim → visited ≤ gcRank g p) → ∃ lpn, s.maptbl lpn = some p
  pending : ∀ p ∈ linePages g victim, visited ≤ gcRank g p →
    s.pg p = start.pg p
  programmed : ∀ p, p.blk ≠ victim → start.pg p ≠ .free →
    s.pg p = start.pg p
  kept : ∀ lpn, (∀ p, start.maptbl lpn = some p → p.blk = victim →
      visited ≤ gcRank g p) → s.maptbl lpn = start.maptbl lpn
  moved : ∀ lpn p, start.maptbl lpn = some p → p.blk = victim →
    gcRank g p < visited →
      ∃ q, s.maptbl lpn = some q ∧ ValidPpa g q ∧ q.blk ≠ victim ∧
        start.pg q = .free
  room : g.pgsPerLine < spare g s .gc + visited
  erasedFree : ∀ p ∈ linePages g victim, eraseRound g p < erased →
    s.pg p = .free

/-- Pages that are not valid need no visit. -/
theorem Collecting.skip {start s : Ftl} {victim visited erased : ℕ}
    (h : Collecting g start victim visited erased s)
    (hstart : MapsAgree g start) {count : ℕ}
    (hskip : ∀ p ∈ linePages g victim, visited ≤ gcRank g p →
      gcRank g p < visited + count → s.pg p ≠ .valid) :
    Collecting g start victim (visited + count) erased s where
  partitioned := h.partitioned
  gcOpen := h.gcOpen
  wp_eq := h.wp_eq
  freeLines := h.freeLines
  victims := h.victims
  lineCounted := h.lineCounted
  blkCounted := h.blkCounted
  mapped lpn p hmap := by
    obtain ⟨hlpn, hp, hrmap, hvalid, hrank⟩ := h.mapped lpn p hmap
    refine ⟨hlpn, hp, hrmap, hvalid, fun hblk => ?_⟩
    by_contra hlt
    have hmem : p ∈ linePages g victim := hblk ▸ mem_linePages_of_valid hp
    exact hskip p hmem (hrank hblk) (by omega) hvalid
  valid_mapped p hp hvalid hrank :=
    h.valid_mapped p hp hvalid fun hblk => by
      have := hrank hblk
      omega
  pending p hp hrank := h.pending p hp (by omega)
  programmed := h.programmed
  kept lpn hlpn := h.kept lpn fun p hmap hblk => by
    have := hlpn p hmap hblk
    omega
  moved lpn p hmap hblk hrank := by
    by_cases hvisited : gcRank g p < visited
    · exact h.moved lpn p hmap hblk hvisited
    · obtain ⟨-, hp, -, hvalid⟩ := hstart.mapped lpn p hmap
      have hmem : p ∈ linePages g victim := hblk ▸ mem_linePages_of_valid hp
      have hpending := h.pending p hmem (by omega)
      exact absurd (hpending.trans hvalid) (hskip p hmem (by omega) hrank)
  room := by
    have := h.room
    omega
  erasedFree := h.erasedFree

/-- A logical page still mapped into the victim has been mapped there from the
start. -/
theorem Collecting.start_maps {start s : Ftl} {victim visited erased : ℕ}
    (h : Collecting g start victim visited erased s) {lpn : ℕ} {p : Ppa}
    (hmap : s.maptbl lpn = some p) (hblk : p.blk = victim) :
    start.maptbl lpn = some p := by
  by_cases hkept : ∀ q, start.maptbl lpn = some q → q.blk = victim →
      visited ≤ gcRank g q
  · rw [← h.kept lpn hkept, hmap]
  · push Not at hkept
    obtain ⟨q, hq, hqblk, hvisited⟩ := hkept
    obtain ⟨new, hnew, -, hne, -⟩ := h.moved lpn q hq hqblk hvisited
    rw [hmap] at hnew
    cases hnew
    exact absurd hblk hne

theorem Collecting.victim_lt {start s : Ftl} {victim visited erased : ℕ}
    (h : Collecting g start victim visited erased s) :
    victim < g.blksPerPl := by
  apply h.partitioned.lt
  have hcount : [victim].count victim = 1 := by simp
  rw [places]
  omega

theorem Collecting.gcWp_ne {start s : Ftl} {victim visited erased : ℕ}
    (h : Collecting g start victim visited erased s) :
    s.gcWp.blk ≠ victim := by
  intro heq
  have hle := h.partitioned.places_le victim
  have hcount : [victim].count victim = 1 := by simp
  rw [places, heq] at hle
  omega

theorem Collecting.writable {start s : Ftl} {victim visited erased : ℕ}
    (h : Collecting g start victim visited erased s) :
    Writable g s [victim] .gc where
  partitioned := h.partitioned
  openLine := h.gcOpen
  lineCounted := h.lineCounted _ (h.partitioned.wp_lt .gc) h.gcWp_ne
  blkCounted := by
    obtain ⟨hch, hlun, hpl, hblk, -⟩ :=
      h.gcOpen.inRange.validPpa (h.partitioned.wp_lt .gc)
    exact h.blkCounted _ ⟨hch, hlun, hpl, hblk⟩
  freeLines := h.freeLines

/-- Room for one more page means a spare line when the open one is about to be
used up. -/
theorem Collecting.spareLine {start s : Ftl} {victim visited erased : ℕ}
    (h : Collecting g start victim visited erased s)
    (hvisited : visited < g.pgsPerLine)
    (hlast : rank g (wpPage (getWp s .gc)) + 1 = g.pgsPerLine) :
    s.lm.freeLineList ≠ [] := by
  intro hnil
  have hroom := h.room
  rw [spare, hnil, List.length_nil, Nat.mul_zero] at hroom
  omega

/-- The mapping state between `set_rmap_ent` and `mark_page_valid`. -/
def remapped (g : Geometry) (s : Ftl) (lpn : ℕ) (ppa : Ppa) : Ftl :=
  { s with
    maptbl := Function.update s.maptbl lpn (some ppa)
    rmap := Function.update s.rmap (pgidx g ppa) (some lpn) }

/-- `gc_write_page` of a valid page meets all its assertions but one: the table
of the die needs room for the new page. -/
theorem Collecting.relocate_meets (hpls : g.plsPerLun = 1)
    (hflash : g.flashpgsPerBlk * g.pgsPerFlashpg = g.pgsPerBlk)
    {start s : ConvFtl} {victim visited erased count : ℕ}
    (h : Collecting g start.ftl victim visited erased s.ftl)
    (hready : PointerReady g start.ftl) (hbooked : Booked g start count s)
    (hcount : count < g.pgsPerLine) {p : Ppa}
    (hp : p ∈ linePages g victim) (hrank : gcRank g p = visited) {lpn : ℕ}
    (hmap : s.ftl.maptbl lpn = some p) :
    Meets (HasRoom g start (count + 1))
      (fun result => Booked g start (count + 1) result.2 ∧
        Advanced g
          (pageValidated (remapped g s.ftl lpn (wpPage s.ftl.gcWp))
            (wpPage s.ftl.gcWp)) .gc result.2.ftl)
      (relocate g s p) := by
  obtain ⟨hlpn, hpValid, hrmap, -, -⟩ := h.mapped lpn p hmap
  have hwritable :
      Writable g (remapped g s.ftl lpn (wpPage s.ftl.gcWp)) [victim] .gc :=
    h.writable.withMaps _ _
  have hvisited : visited < g.pgsPerLine := hrank ▸ gcRank_lt hflash hp
  obtain ⟨hmark, ftl, hrun, hadvanced⟩ :=
    hwritable.program hpls (h.spareLine hvisited)
  have hpage : getNewPage s.ftl .gc = wpPage s.ftl.gcWp := rfl
  have hvalid : ValidPpa g (wpPage s.ftl.gcWp) := h.writable.validPpa
  rw [relocate, ppa2pgidx_of_valid g hpValid, ok_bind, hrmap]
  dsimp only
  rw [nvmevAssert_of (show validLpn g lpn from hlpn), ok_bind,
    setMaptblEnt_of hlpn, ok_bind, hpage, setRmapEnt_of lpn hvalid, ok_bind,
    markPageValid]
  change Meets _ _ ((superblockValid g (remapped g s.ftl lpn
    (wpPage s.ftl.gcWp)) (getNewPage (remapped g s.ftl lpn
      (wpPage s.ftl.gcWp)) .gc) >>= _) >>= _)
  rw [hmark, ok_bind, bind_assoc]
  refine (hbooked.mark hpls h.gcOpen.inRange hready).bind fun lunlm htables =>
    ?_
  change Meets _ _ ((advanceWritePointer g _ .gc) >>= _)
  rw [hrun, ok_bind]
  exact ⟨⟨htables, hbooked.pointer.advanced hready hcount hadvanced rfl rfl⟩,
    hadvanced⟩

/-- The new page is free from the start, and outside the victim. -/
theorem Collecting.newPage {start s : Ftl} {victim visited erased : ℕ}
    (h : Collecting g start victim visited erased s) :
    s.pg (wpPage s.gcWp) = .free ∧ start.pg (wpPage s.gcWp) = .free := by
  have hfree := h.gcOpen.page_free
  refine ⟨hfree, ?_⟩
  by_contra hstart
  rw [h.programmed _ h.gcWp_ne hstart] at hfree
  exact hstart hfree

/-- The next page of the victim is the only one at its position. -/
theorem Collecting.rank_succ (hpls : g.plsPerLun = 1) {victim visited : ℕ}
    {p q : Ppa} (hp : p ∈ linePages g victim) (hrank : gcRank g p = visited)
    (hq : ValidPpa g q) (hblk : q.blk = victim) (hne : q ≠ p)
    (hle : visited ≤ gcRank g q) : visited + 1 ≤ gcRank g q := by
  have hmem : q ∈ linePages g victim := hblk ▸ mem_linePages_of_valid hq
  have hneRank : gcRank g q ≠ gcRank g p := fun heq =>
    hne (gcRank_inj hpls hmem hp heq)
  omega

/-- One relocation, with the page and the logical page named. -/
structure Relocated (g : Geometry) (s : Ftl) (victim visited lpn : ℕ)
    (p : Ppa) (s' : Ftl) : Prop where
  page_mem : p ∈ linePages g victim
  page_rank : gcRank g p = visited
  page_map : s.maptbl lpn = some p
  advanced : Advanced g
    (pageValidated (remapped g s lpn (wpPage s.gcWp)) (wpPage s.gcWp)) .gc s'

theorem Relocated.maptbl_eq {s s' : Ftl} {victim visited lpn : ℕ} {p : Ppa}
    (h : Relocated g s victim visited lpn p s') :
    s'.maptbl = Function.update s.maptbl lpn (some (wpPage s.gcWp)) :=
  h.advanced.frame.1

theorem Relocated.rmap_eq {s s' : Ftl} {victim visited lpn : ℕ} {p : Ppa}
    (h : Relocated g s victim visited lpn p s') :
    s'.rmap = Function.update s.rmap (pgidx g (wpPage s.gcWp)) (some lpn) :=
  h.advanced.frame.2.1

theorem Relocated.pg_eq {s s' : Ftl} {victim visited lpn : ℕ} {p : Ppa}
    (h : Relocated g s victim visited lpn p s') :
    s'.pg = Function.update s.pg (wpPage s.gcWp) .valid :=
  h.advanced.frame.2.2.1

/-- The forward and the reverse map after a relocation. -/
theorem Collecting.mapped_after (hpls : g.plsPerLun = 1) {start s s' : Ftl}
    {victim visited erased lpn : ℕ} {p : Ppa}
    (h : Collecting g start victim visited erased s)
    (hmove : Relocated g s victim visited lpn p s') {other : ℕ} {q : Ppa}
    (hmap : s'.maptbl other = some q) :
    other < g.ttPgs ∧ ValidPpa g q ∧ s'.rmap (pgidx g q) = some other ∧
      s'.pg q = .valid ∧ (q.blk = victim → visited + 1 ≤ gcRank g q) := by
  obtain ⟨hlpn, -, hrmap, -, -⟩ := h.mapped lpn p hmove.page_map
  rw [hmove.maptbl_eq] at hmap
  rw [hmove.rmap_eq, hmove.pg_eq]
  by_cases hother : other = lpn
  · subst hother
    rw [Function.update_self, Option.some.injEq] at hmap
    subst hmap
    rw [Function.update_self, Function.update_self]
    exact ⟨hlpn, h.writable.validPpa, rfl, rfl,
      fun hblk => absurd hblk h.gcWp_ne⟩
  · rw [Function.update_of_ne hother] at hmap
    obtain ⟨hotherLt, hq, hqrmap, hqvalid, hqrank⟩ := h.mapped other q hmap
    have hnew : q ≠ wpPage s.gcWp := by
      rintro rfl
      rw [h.newPage.1] at hqvalid
      cases hqvalid
    have hidx : pgidx g q ≠ pgidx g (wpPage s.gcWp) := fun heq =>
      hnew (pgidx_inj g hq h.writable.validPpa heq)
    have hold : q ≠ p := by
      rintro rfl
      rw [hrmap, Option.some.injEq] at hqrmap
      exact hother hqrmap.symm
    rw [Function.update_of_ne hidx, Function.update_of_ne hnew]
    exact ⟨hotherLt, hq, hqrmap, hqvalid, fun hblk =>
      Collecting.rank_succ hpls hmove.page_mem hmove.page_rank hq hblk hold
        (hqrank hblk)⟩

theorem Collecting.valid_mapped_after {start s s' : Ftl}
    {victim visited erased lpn : ℕ} {p : Ppa}
    (h : Collecting g start victim visited erased s)
    (hmove : Relocated g s victim visited lpn p s') {q : Ppa}
    (hq : ValidPpa g q) (hvalid : s'.pg q = .valid)
    (hrank : q.blk = victim → visited + 1 ≤ gcRank g q) :
    ∃ other, s'.maptbl other = some q := by
  rw [hmove.maptbl_eq]
  by_cases hnew : q = wpPage s.gcWp
  · exact ⟨lpn, by rw [Function.update_self, hnew]⟩
  · rw [hmove.pg_eq, Function.update_of_ne hnew] at hvalid
    obtain ⟨other, hmap⟩ := h.valid_mapped q hq hvalid fun hblk => by
      have := hrank hblk
      omega
    refine ⟨other, ?_⟩
    rw [Function.update_of_ne, hmap]
    rintro rfl
    rw [hmove.page_map, Option.some.injEq] at hmap
    subst hmap
    have hblk : p.blk = victim := (mem_linePages.mp hmove.page_mem).2.2.2.1
    have hle := hrank hblk
    rw [hmove.page_rank] at hle
    omega

theorem Collecting.kept_after {start s s' : Ftl}
    {victim visited erased lpn : ℕ} {p : Ppa}
    (h : Collecting g start victim visited erased s)
    (hmove : Relocated g s victim visited lpn p s') {other : ℕ}
    (hother : ∀ q, start.maptbl other = some q → q.blk = victim →
      visited + 1 ≤ gcRank g q) :
    s'.maptbl other = start.maptbl other := by
  have hblk : p.blk = victim := (mem_linePages.mp hmove.page_mem).2.2.2.1
  have hne : other ≠ lpn := by
    rintro rfl
    have hle := hother p (h.start_maps hmove.page_map hblk) hblk
    rw [hmove.page_rank] at hle
    omega
  rw [hmove.maptbl_eq, Function.update_of_ne hne]
  exact h.kept other fun q hmap hq => by
    have := hother q hmap hq
    omega

theorem Collecting.moved_after (hpls : g.plsPerLun = 1) {start s s' : Ftl}
    {victim visited erased lpn : ℕ} {p : Ppa}
    (h : Collecting g start victim visited erased s)
    (hstart : MapsAgree g start)
    (hmove : Relocated g s victim visited lpn p s') {other : ℕ} {q : Ppa}
    (hmap : start.maptbl other = some q) (hq : q.blk = victim)
    (hrank : gcRank g q < visited + 1) :
    ∃ new, s'.maptbl other = some new ∧ ValidPpa g new ∧
      new.blk ≠ victim ∧ start.pg new = .free := by
  have hblk : p.blk = victim := (mem_linePages.mp hmove.page_mem).2.2.2.1
  rw [hmove.maptbl_eq]
  by_cases hother : other = lpn
  · subst hother
    exact ⟨wpPage s.gcWp, Function.update_self _ _ _, h.writable.validPpa,
      h.gcWp_ne, h.newPage.2⟩
  · rw [Function.update_of_ne hother]
    obtain ⟨-, hqValid, hqrmap, -⟩ := hstart.mapped other q hmap
    have hne : q ≠ p := by
      rintro rfl
      obtain ⟨-, -, hprmap, -⟩ :=
        hstart.mapped lpn q (h.start_maps hmove.page_map hblk)
      rw [hqrmap, Option.some.injEq] at hprmap
      exact hother hprmap
    apply h.moved other q hmap hq
    by_contra hle
    have hsucc := Collecting.rank_succ hpls hmove.page_mem hmove.page_rank
      hqValid hq hne (by omega)
    omega

/-- A relocation makes one page of the victim a visited one. -/
theorem Collecting.relocated (hpls : g.plsPerLun = 1) {start s s' : Ftl}
    {victim visited erased lpn : ℕ} {p : Ppa}
    (h : Collecting g start victim visited erased s)
    (hstart : MapsAgree g start)
    (hmove : Relocated g s victim visited lpn p s') :
    Collecting g start victim (visited + 1) erased s' := by
  have hwritable : Writable g (remapped g s lpn (wpPage s.gcWp)) [victim] .gc :=
    h.writable.withMaps _ _
  have hadvanced := hmove.advanced
  have hvalid : ValidPpa g (wpPage s.gcWp) := h.writable.validPpa
  have hfree : (remapped g s lpn (wpPage s.gcWp)).pg (wpPage s.gcWp) = .free :=
    h.newPage.1
  have hne : ∀ q ∈ linePages g victim, q ≠ wpPage s.gcWp := by
    rintro q hq rfl
    exact h.gcWp_ne (mem_linePages.mp hq).2.2.2.1
  exact {
    partitioned :=
      (hwritable.partitioned.pageValidated _).advanced hadvanced
    gcOpen := hwritable.openLine_self hpls hadvanced
    wp_eq := (hadvanced.getWp_of_ne (show IoType.user ≠ .gc by decide)).trans
      h.wp_eq
    freeLines := hwritable.freeLines_after hadvanced
    victims := hwritable.victims_after hpls h.victims hadvanced
    lineCounted := fun line hline hvictim => by
      have hcounted : LineCounted g (remapped g s lpn (wpPage s.gcWp)) line :=
        (h.lineCounted line hline hvictim).congr rfl rfl fun _ _ => rfl
      exact (hcounted.pageValidated hvalid hfree).advanced hadvanced
    blkCounted := fun b hb => by
      have hcounted : BlkCounted g (remapped g s lpn (wpPage s.gcWp)) b :=
        (h.blkCounted b hb).congr rfl fun _ _ => rfl
      exact (hcounted.pageValidated hvalid hfree).advanced hadvanced
    mapped := fun other q hmap => h.mapped_after hpls hmove hmap
    valid_mapped := fun q hq hqvalid hrank =>
      h.valid_mapped_after hmove hq hqvalid hrank
    pending := fun q hq hrank => by
      rw [hmove.pg_eq, Function.update_of_ne (hne q hq)]
      exact h.pending q hq (by omega)
    programmed := fun q hblk hprogrammed => by
      have hnew : q ≠ wpPage s.gcWp := by
        rintro rfl
        exact hprogrammed h.newPage.2
      rw [hmove.pg_eq, Function.update_of_ne hnew]
      exact h.programmed q hblk hprogrammed
    kept := fun other hother => h.kept_after hmove hother
    moved := fun other q hmap hq hrank =>
      h.moved_after hpls hstart hmove hmap hq hrank
    room := by
      have hspare := hadvanced.spare_succ h.gcOpen.inRange
      have hroom := h.room
      change spare g s' .gc + 1 = spare g s .gc at hspare
      omega
    erasedFree := fun q hq hround => by
      rw [hmove.pg_eq, Function.update_of_ne (hne q hq)]
      exact h.erasedFree q hq hround }

/-! ## How many pages have moved -/

/-- How many of the first `visited` pages of the victim have been valid. -/
def movedCount (g : Geometry) (start : Ftl) (victim visited : ℕ) : ℕ :=
  ((linePages g victim).filter fun p =>
    start.pg p = .valid ∧ gcRank g p < visited).card

theorem movedCount_congr {start : Ftl} {victim visited visited' : ℕ}
    (h : ∀ p ∈ linePages g victim, start.pg p = .valid →
      (gcRank g p < visited ↔ gcRank g p < visited')) :
    movedCount g start victim visited = movedCount g start victim visited' := by
  rw [movedCount, movedCount]
  congr 1
  exact Finset.filter_congr fun p hp => and_congr_right (h p hp)

theorem movedCount_succ (hpls : g.plsPerLun = 1) {start : Ftl}
    {victim visited : ℕ} {p : Ppa} (hp : p ∈ linePages g victim)
    (hrank : gcRank g p = visited) (hvalid : start.pg p = .valid) :
    movedCount g start victim (visited + 1) =
      movedCount g start victim visited + 1 := by
  have hinsert : ((linePages g victim).filter fun q =>
      start.pg q = .valid ∧ gcRank g q < visited + 1) =
      insert p ((linePages g victim).filter fun q =>
        start.pg q = .valid ∧ gcRank g q < visited) := by
    ext q
    simp only [Finset.mem_filter, Finset.mem_insert]
    constructor
    · rintro ⟨hq, hqvalid, hlt⟩
      by_cases hlast : gcRank g q = visited
      · exact .inl (gcRank_inj hpls hq hp (hlast.trans hrank.symm))
      · exact .inr ⟨hq, hqvalid, by omega⟩
    · rintro (rfl | ⟨hq, hqvalid, hlt⟩)
      · exact ⟨hp, hvalid, by omega⟩
      · exact ⟨hq, hqvalid, by omega⟩
  rw [movedCount, hinsert, Finset.card_insert_of_notMem, movedCount]
  intro hmem
  have hlt := (Finset.mem_filter.mp hmem).2.2
  omega

theorem movedCount_le (start : Ftl) (victim visited : ℕ) :
    movedCount g start victim visited ≤ lineCount g start.pg victim .valid :=
  Finset.card_le_card (Finset.monotone_filter_right _ fun _ _ h => h.1)

/-- At the end of a collection every valid page has moved. -/
theorem movedCount_all {start : Ftl} {victim visited : ℕ}
    (h : ∀ p ∈ linePages g victim, gcRank g p < visited) :
    movedCount g start victim visited = lineCount g start.pg victim .valid := by
  rw [movedCount, lineCount, countOn]
  congr 1
  exact Finset.filter_congr fun p hp => and_iff_left (h p hp)

theorem movedCount_zero (start : Ftl) (victim : ℕ) :
    movedCount g start victim 0 = 0 := by
  rw [movedCount, Finset.card_eq_zero, Finset.filter_eq_empty_iff]
  exact fun _ _ h => Nat.not_lt_zero _ h.2

/-- A collection from `start` on, with the tables of the dies. -/
structure Tracked (g : Geometry) (start : ConvFtl)
    (victim visited erased : ℕ) (s : ConvFtl) : Prop where
  collecting : Collecting g start.ftl victim visited erased s.ftl
  booked : Booked g start (movedCount g start.ftl victim visited) s

/-- The valid pages of the victim have room in the tables of the dies. -/
def VictimRoom (g : Geometry) (start : ConvFtl) (victim : ℕ) : Prop :=
  HasRoom g start (lineCount g start.ftl.pg victim .valid)

/-- What a collection starts from. -/
structure GcStart (g : Geometry) (start : Ftl) (victim : ℕ) : Prop where
  maps : MapsAgree g start
  pointer : PointerReady g start
  programmed : ∀ p ∈ linePages g victim, start.pg p ≠ .free

/-- Pages that are not valid move nothing. -/
theorem Tracked.skip {start s : ConvFtl} {victim visited erased : ℕ}
    (h : Tracked g start victim visited erased s)
    (hstart : MapsAgree g start.ftl) {count : ℕ}
    (hskip : ∀ p ∈ linePages g victim, visited ≤ gcRank g p →
      gcRank g p < visited + count → s.ftl.pg p ≠ .valid) :
    Tracked g start victim (visited + count) erased s where
  collecting := h.collecting.skip hstart hskip
  booked := by
    have hsame : movedCount g start.ftl victim (visited + count) =
        movedCount g start.ftl victim visited := by
      refine movedCount_congr fun p hp hvalid => ⟨fun hlt => ?_, fun hlt => ?_⟩
      · by_contra hle
        have hpending := h.collecting.pending p hp (Nat.le_of_not_lt hle)
        exact hskip p hp (Nat.le_of_not_lt hle) hlt (hpending.trans hvalid)
      · omega
    rw [hsame]
    exact h.booked

/-! ## One round -/

@[simp]
theorem gcDelay_ftl (cp : ConvParams) (s : ConvFtl) (ncmd : NandCmd) :
    (gcDelay g cp s ncmd).ftl = s.ftl := by
  rw [gcDelay]
  split_ifs <;> rfl

@[simp]
theorem gcDelay_lunlm (cp : ConvParams) (s : ConvFtl) (ncmd : NandCmd) :
    (gcDelay g cp s ncmd).lunlm = s.lunlm := by
  rw [gcDelay]
  split_ifs <;> rfl

/-- The counting loop passes its assertion, and counts nothing only when there
is nothing to count. -/
theorem countValid_of {s : Ftl} {ppa : Ppa}
    (hprogrammed : ∀ i, i < g.pgsPerFlashpg →
      s.pg (flashpgPage ppa i) ≠ .free) :
    ∃ cnt, countValid g s ppa = .ok cnt ∧
      (cnt = 0 → ∀ i, i < g.pgsPerFlashpg →
        s.pg (flashpgPage ppa i) ≠ .valid) := by
  refine foldlM_range
    (fun k cnt => cnt = 0 → ∀ i, i < k → s.pg (flashpgPage ppa i) ≠ .valid)
    ?_ (fun _ i hi => absurd hi (Nat.not_lt_zero i))
  intro k hk cnt hcnt
  refine ⟨_, by rw [nvmevAssert_of (hprogrammed k hk), ok_bind]; rfl, ?_⟩
  split_ifs with hvalid
  · exact False.elim
  · intro hzero i hi
    rcases Nat.lt_succ_iff_lt_or_eq.mp hi with hlt | rfl
    · exact hcnt hzero i hlt
    · exact hvalid

/-- A flash page whose pages are the next ones in the order. -/
structure NextFlashpg (g : Geometry) (victim visited : ℕ) (ppa : Ppa) :
    Prop where
  mem : ∀ i, i < g.pgsPerFlashpg → flashpgPage ppa i ∈ linePages g victim
  rank_eq : ∀ i, i < g.pgsPerFlashpg →
    gcRank g (flashpgPage ppa i) = visited + i

/-- The second loop of `clean_one_flashpg` visits one page after the other. -/
theorem Tracked.visit (hpls : g.plsPerLun = 1)
    (hflash : g.flashpgsPerBlk * g.pgsPerFlashpg = g.pgsPerBlk)
    (cp : ConvParams) {start s : ConvFtl} {victim visited erased : ℕ}
    (h : Tracked g start victim visited erased s)
    (hstart : GcStart g start.ftl victim) {p : Ppa}
    (hp : p ∈ linePages g victim) (hrank : gcRank g p = visited) :
    Meets (VictimRoom g start victim)
      (Tracked g start victim (visited + 1) erased)
      (if s.ftl.pg p = .valid then gcWritePage g cp s p else .ok s) := by
  split_ifs with hvalid
  · have hpValid := validPpa_of_mem_linePages h.collecting.victim_lt hp
    obtain ⟨lpn, hmap⟩ :=
      h.collecting.valid_mapped p hpValid hvalid fun _ => hrank.ge
    have hsucc : movedCount g start.ftl victim (visited + 1) =
        movedCount g start.ftl victim visited + 1 :=
      movedCount_succ hpls hp hrank
        ((h.collecting.pending p hp hrank.ge).symm.trans hvalid)
    have hle := @movedCount_le g start.ftl victim (visited + 1)
    have htotal := lineCount_le hpls start.ftl.pg victim .valid
    rw [gcWritePage]
    refine ((h.collecting.relocate_meets hpls hflash hstart.pointer h.booked
      (by omega) hp hrank hmap).of_imp fun hroom => ?_).bind ?_
    · rw [← hsucc]
      exact hroom.mono hle
    · rintro ⟨newPpa, s'⟩ ⟨hbooked, hadvanced⟩
      refine ⟨?_, ?_⟩
      · rw [gcDelay_ftl]
        exact h.collecting.relocated hpls hstart.maps
          ⟨hp, hrank, hmap, hadvanced⟩
      · rw [hsucc]
        exact hbooked.congr (gcDelay_lunlm ..) (by rw [gcDelay_ftl])
          (by rw [gcDelay_ftl])
  · refine h.skip hstart.maps fun q hq hle hlt => ?_
    rwa [gcRank_inj hpls hq hp (by omega)]

/-- `clean_one_flashpg` visits the pages of one flash page. -/
theorem Tracked.clean (hpls : g.plsPerLun = 1)
    (hflash : g.flashpgsPerBlk * g.pgsPerFlashpg = g.pgsPerBlk)
    (cp : ConvParams) {start s : ConvFtl} {victim visited erased : ℕ}
    (h : Tracked g start victim visited erased s)
    (hstart : GcStart g start.ftl victim) {ppa : Ppa}
    (hnext : NextFlashpg g victim visited ppa) :
    Meets (VictimRoom g start victim)
      (Tracked g start victim (visited + g.pgsPerFlashpg) erased)
      (cleanOneFlashpg g cp s ppa) := by
  have hpages : ∀ i, i < g.pgsPerFlashpg →
      s.ftl.pg (flashpgPage ppa i) ≠ .free := by
    intro i hi
    have hrank := hnext.rank_eq i hi
    rw [h.collecting.pending _ (hnext.mem i hi) (by omega)]
    exact hstart.programmed _ (hnext.mem i hi)
  obtain ⟨cnt, hcount, hzero⟩ := countValid_of hpages
  rw [cleanOneFlashpg, hcount, ok_bind]
  split_ifs with hcnt
  · refine h.skip hstart.maps fun q hq hle hlt => ?_
    have hi : gcRank g q - visited < g.pgsPerFlashpg := by omega
    have hrank := hnext.rank_eq _ hi
    rw [gcRank_inj hpls hq (hnext.mem _ hi) (by omega)]
    exact hzero hcnt _ hi
  · refine Meets.foldlM_range
      (fun i (s : ConvFtl) => Tracked g start victim (visited + i) erased s)
      (fun i hi s hs => ?_) ⟨?_, ?_⟩
    · exact hs.visit hpls hflash cp hstart (hnext.mem i hi)
        (hnext.rank_eq i hi)
    · rw [gcDelay_ftl]
      exact h.collecting
    · exact h.booked.congr (gcDelay_lunlm ..) (by rw [gcDelay_ftl])
        (by rw [gcDelay_ftl])

/-- Erasing a block leaves the pages that are still to be visited. -/
theorem markBlockFree_pg_of_pending
    (hflash : g.flashpgsPerBlk * g.pgsPerFlashpg = g.pgsPerBlk) (s : Ftl)
    {ppa p : Ppa} (hpg : p.pg < g.pgsPerBlk)
    (hrank : (eraseRound g ppa + 1) * g.pgsPerFlashpg ≤ gcRank g p) :
    (markBlockFree g s ppa).pg p = s.pg p := by
  apply markBlockFree_pg_of_ne
  intro heq
  have hsame : eraseRound g p = eraseRound g ppa := by
    rw [eraseRound, eraseRound, heq]
  have hlt := gcRank_lt_of_eraseRound hflash hpg
  rw [hsame] at hlt
  exact absurd hrank (Nat.not_le_of_lt hlt)

/-- The blocks of a line are erased in different rounds. -/
theorem toBlkAddr_eq_of_eraseRound (hpls : g.plsPerLun = 1) {victim : ℕ}
    {p p' : Ppa} (hp : p ∈ linePages g victim) (hp' : p' ∈ linePages g victim)
    (hround : eraseRound g p = eraseRound g p') :
    p.toBlkAddr = p'.toBlkAddr := by
  obtain ⟨hch, hlun, hpl, hblk, -⟩ := mem_linePages.mp hp
  obtain ⟨hch', hlun', hpl', hblk', -⟩ := mem_linePages.mp hp'
  obtain ⟨houter, hlunEq⟩ := digit_inj hlun hlun' hround
  have hchEq : p.ch = p'.ch := Nat.add_left_cancel houter
  have hplEq : p.pl = p'.pl := by omega
  have hblkEq : p.blk = p'.blk := hblk.trans hblk'.symm
  obtain ⟨⟨ch, lun, pl, blk⟩, pg⟩ := p
  obtain ⟨⟨ch', lun', pl', blk'⟩, pg'⟩ := p'
  exact (BlkAddr.mk.injEq ..).mpr ⟨hchEq, hlunEq, hplEq, hblkEq⟩

/-- A line that is neither free nor a victim in the queue, since it is held. -/
theorem Collecting.held {start s : Ftl} {victim visited erased : ℕ}
    (h : Collecting g start victim visited erased s) :
    victim ∉ s.lm.freeLineList ∧ victim ∉ elems s.lm.victimLinePq := by
  have hplaces := h.partitioned.places_le victim
  have hhand : [victim].count victim = 1 := by simp
  rw [places] at hplaces
  constructor
  · apply List.count_eq_zero.mp
    omega
  · apply List.count_eq_zero.mp
    omega

/-- Erasing a block whose pages have all been visited. -/
theorem Collecting.erase
    (hflash : g.flashpgsPerBlk * g.pgsPerFlashpg = g.pgsPerBlk)
    (hpls : g.plsPerLun = 1) {start s : Ftl} {victim round : ℕ}
    (h : Collecting g start victim ((round + 1) * g.pgsPerFlashpg) round s)
    {ppa : Ppa} (hppa : ppa ∈ linePages g victim)
    (hround : eraseRound g ppa = round) :
    Collecting g start victim ((round + 1) * g.pgsPerFlashpg) (round + 1)
      (markBlockFree g s ppa) := by
  have hblk : ppa.blk = victim := (mem_linePages.mp hppa).2.2.2.1
  obtain ⟨hnotFree, hnotVictim⟩ := h.held
  have hother : ∀ p : Ppa, p.blk ≠ victim →
      (markBlockFree g s ppa).pg p = s.pg p := by
    intro p hp
    apply markBlockFree_pg_of_ne
    intro heq
    have hblkEq : p.blk = ppa.blk := congrArg BlkAddr.blk heq
    exact hp (hblkEq.trans hblk)
  have hpending : ∀ p : Ppa, p.pg < g.pgsPerBlk →
      (round + 1) * g.pgsPerFlashpg ≤ gcRank g p →
        (markBlockFree g s ppa).pg p = s.pg p := by
    intro p hpg hrank
    rw [← hround] at hrank
    exact markBlockFree_pg_of_pending hflash s hpg hrank
  have hkeep : ∀ p : Ppa, ValidPpa g p →
      (p.blk = victim → (round + 1) * g.pgsPerFlashpg ≤ gcRank g p) →
        (markBlockFree g s ppa).pg p = s.pg p := by
    intro p hp hrank
    by_cases hv : p.blk = victim
    · exact hpending p hp.2.2.2.2 (hrank hv)
    · exact hother p hv
  have hline : ∀ line, line ≠ victim → ∀ p ∈ linePages g line,
      (markBlockFree g s ppa).pg p = s.pg p := by
    intro line hne p hp
    exact hother p ((mem_linePages.mp hp).2.2.2.1.trans_ne hne)
  exact {
    partitioned := h.partitioned.of_places h.partitioned.size_pos fun _ => rfl
    gcOpen := ⟨h.gcOpen.curline_eq, h.gcOpen.inRange, fun p hp => by
      rw [hline _ h.gcWp_ne p hp]
      exact h.gcOpen.free_iff p hp⟩
    wp_eq := h.wp_eq
    freeLines := fun line hmem p hp => by
      rw [hline line (ne_of_mem_of_not_mem hmem hnotFree) p hp]
      exact h.freeLines line hmem p hp
    victims := fun line hmem p hp => by
      rw [hline line (ne_of_mem_of_not_mem hmem hnotVictim) p hp]
      exact h.victims line hmem p hp
    lineCounted := fun line hlt hne =>
      (h.lineCounted line hlt hne).congr rfl rfl (hline line hne)
    blkCounted := fun b hb => BlkCounted.markBlockFree (h.blkCounted b hb) ppa
    mapped := fun lpn p hmap => by
      obtain ⟨hlpn, hp, hrmap, hvalid, hrank⟩ := h.mapped lpn p hmap
      exact ⟨hlpn, hp, hrmap, by rw [hkeep p hp hrank, hvalid], hrank⟩
    valid_mapped := fun p hp hvalid hrank => by
      rw [hkeep p hp hrank] at hvalid
      exact h.valid_mapped p hp hvalid hrank
    pending := fun p hp hrank => by
      rw [hpending p (mem_linePages.mp hp).2.2.2.2 hrank]
      exact h.pending p hp hrank
    programmed := fun p hne hprogrammed => by
      rw [hother p hne]
      exact h.programmed p hne hprogrammed
    kept := h.kept
    moved := h.moved
    room := h.room
    erasedFree := fun p hp hlt => by
      by_cases hb : p.toBlkAddr = ppa.toBlkAddr
      · apply markBlockFree_pg_of_mem
        exact mem_blkPages.mpr ⟨hb, (mem_linePages.mp hp).2.2.2.2⟩
      · rw [markBlockFree_pg_of_ne hb]
        apply h.erasedFree p hp
        refine lt_of_le_of_ne (Nat.le_of_lt_succ hlt) fun heq => hb ?_
        exact toBlkAddr_eq_of_eraseRound hpls hp hppa (heq.trans hround.symm) }

/-- One round of `do_gc`. -/
theorem Tracked.round (hpls : g.plsPerLun = 1)
    (hflash : g.flashpgsPerBlk * g.pgsPerFlashpg = g.pgsPerBlk)
    (cp : ConvParams) {start s : ConvFtl} {victim flashpg ch lun : ℕ}
    (hflashpg : flashpg < g.flashpgsPerBlk)
    (hch : ch < g.nchs) (hlun : lun < g.lunsPerCh)
    (h : Tracked g start victim
      (((flashpg * g.nchs + ch) * g.lunsPerCh + lun) * g.pgsPerFlashpg)
      ((flashpg * g.nchs + ch) * g.lunsPerCh + lun) s)
    (hstart : GcStart g start.ftl victim) :
    Meets (VictimRoom g start victim)
      (Tracked g start victim
        (((flashpg * g.nchs + ch) * g.lunsPerCh + lun + 1) * g.pgsPerFlashpg)
        ((flashpg * g.nchs + ch) * g.lunsPerCh + lun + 1))
      (gcRound g cp victim flashpg ch s lun) := by
  have hpage : ∀ i, i < g.pgsPerFlashpg →
      flashpg * g.pgsPerFlashpg + i < g.pgsPerBlk := by
    intro i hi
    rw [← hflash]
    exact digit_lt hflashpg hi
  have hnext : NextFlashpg g victim
      (((flashpg * g.nchs + ch) * g.lunsPerCh + lun) * g.pgsPerFlashpg)
      { ch := ch, lun := lun, pl := 0, blk := victim,
        pg := flashpg * g.pgsPerFlashpg } :=
    ⟨fun i hi => mem_linePages.mpr
        ⟨hch, hlun, g.plsPerLun_pos, rfl, hpage i hi⟩,
      fun i hi => gcRank_flashpgPage ch lun 0 victim flashpg hi⟩
  have hclean := h.clean hpls hflash cp hstart hnext
  rw [← Nat.succ_mul] at hclean
  rw [gcRound]
  dsimp only
  refine hclean.bind fun s' hs' => ?_
  split_ifs with hlast
  · refine ⟨?_, hs'.booked.congr (gcDelay_lunlm ..) ?_ ?_⟩
    · dsimp only
      rw [gcDelay_ftl]
      apply hs'.collecting.erase hflash hpls
      · exact hnext.mem 0 g.pgsPerFlashpg_pos
      · rw [eraseRound, hlast]
    · dsimp only
      rw [gcDelay_ftl]
      rfl
    · dsimp only
      rw [gcDelay_ftl]
      rfl
  · refine ⟨{ hs'.collecting with erasedFree := ?_ }, hs'.booked⟩
    intro p hp hlt
    have hbefore : flashpg + 1 ≤ g.flashpgsPerBlk - 1 := by omega
    obtain ⟨hpch, hplun, -⟩ := mem_linePages.mp hp
    have hround := digit_lt (digit_lt hbefore hch) hlun
    rw [Nat.mul_assoc] at hround
    rw [eraseRound] at hlt
    have hle : (g.flashpgsPerBlk - 1) * (g.nchs * g.lunsPerCh) ≤
        ((g.flashpgsPerBlk - 1) * g.nchs + p.ch) * g.lunsPerCh + p.lun := by
      rw [← Nat.mul_assoc, Nat.add_mul]
      omega
    omega

/-! ## The whole collection -/

/-- The rounds of the three nested loops follow each other in the order of
`eraseRound`. -/
theorem Tracked.loops (hpls : g.plsPerLun = 1)
    (hflash : g.flashpgsPerBlk * g.pgsPerFlashpg = g.pgsPerBlk)
    (cp : ConvParams) {start s : ConvFtl} {victim : ℕ}
    (h : Tracked g start victim 0 0 s)
    (hstart : GcStart g start.ftl victim) :
    Meets (VictimRoom g start victim)
      (Tracked g start victim
        (g.flashpgsPerBlk * g.nchs * g.lunsPerCh * g.pgsPerFlashpg)
        (g.flashpgsPerBlk * g.nchs * g.lunsPerCh))
      ((List.range g.flashpgsPerBlk).foldlM (gcFlashpg g cp victim) s) := by
  let after (round : ℕ) (s : ConvFtl) : Prop :=
    Tracked g start victim (round * g.pgsPerFlashpg) round s
  refine Meets.foldlM_range
    (fun flashpg s => after (flashpg * g.nchs * g.lunsPerCh) s)
    (fun flashpg hflashpg s hs => ?_) (by simpa [after] using h)
  rw [Nat.succ_mul]
  refine Meets.foldlM_range
    (fun ch s => after ((flashpg * g.nchs + ch) * g.lunsPerCh) s)
    (fun ch hch s hs => ?_) hs
  rw [← Nat.add_assoc, Nat.succ_mul]
  exact Meets.foldlM_range
    (fun lun s => after ((flashpg * g.nchs + ch) * g.lunsPerCh + lun) s)
    (fun lun hlun s hs =>
      hs.round hpls hflash cp hflashpg hch hlun hstart)
    hs

/-- A consistent state starts the collection of the line at the root of its
victim queue. -/
theorem Consistent.collecting {s : Ftl} (h : Consistent g s)
    (hsize : s.lm.victimLinePq.size ≠ 1)
    (wfc : WriteFlowControl) :
    Collecting g { s with lm := lineSelected s.lm, wfc := wfc }
      (s.lm.victimLinePq.d 1) 0 0
      { s with lm := lineSelected s.lm, wfc := wfc } where
  partitioned := h.partitioned.select hsize wfc
  gcOpen := ⟨h.gcWp_curline, h.gcWp_inRange, fun p hp => by
    refine ⟨fun hfree => ?_, h.gcWp_unwritten p hp⟩
    by_contra hlt
    exact h.gcWp_written p hp (Nat.lt_of_not_le hlt) hfree⟩
  wp_eq := rfl
  freeLines := h.freeLines
  victims line hline p hp := by
    have hperm := elems_lineSelected h.partitioned.size_pos hsize
    exact h.victims line (hperm.subset (List.mem_cons_of_mem _ hline)) p hp
  lineCounted line hline _ :=
    (h.lineCounted line hline).congr rfl rfl fun _ _ => rfl
  blkCounted b hb := (h.blkCounted b hb).congr rfl fun _ _ => rfl
  mapped lpn p hmap := by
    obtain ⟨hlpn, hp, hrmap, hvalid⟩ := h.maps.mapped lpn p hmap
    exact ⟨hlpn, hp, hrmap, hvalid, fun _ => Nat.zero_le _⟩
  valid_mapped p hp hvalid _ := h.maps.valid_mapped p hp hvalid
  pending _ _ _ := rfl
  programmed _ _ _ := rfl
  kept _ _ := rfl
  moved _ _ _ _ hrank := absurd hrank (Nat.not_lt_zero _)
  room := by
    have hrank := rank_lt_of_mem h.gcWp_inRange.mem_linePages
    have hlength := List.length_pos_of_ne_nil h.spareLine
    have hline : g.pgsPerLine ≤ g.pgsPerLine * s.lm.freeLineList.length :=
      Nat.le_mul_of_pos_right _ hlength
    change g.pgsPerLine < g.pgsPerLine - rank g (wpPage s.gcWp) +
      g.pgsPerLine * s.lm.freeLineList.length + 0
    omega
  erasedFree _ _ hround := absurd hround (Nat.not_lt_zero _)

/-- What one collection does to the mapping and to its victim. -/
structure Collected (g : Geometry) (before after : Ftl) (victim : ℕ) :
    Prop where
  mapped_iff : ∀ lpn, after.maptbl lpn = none ↔ before.maptbl lpn = none
  moved : ∀ lpn p, before.maptbl lpn = some p → p.blk = victim →
    ∃ q, after.maptbl lpn = some q ∧ ValidPpa g q ∧ q.blk ≠ victim ∧
      before.pg q = .free
  distinct : ∀ lpn lpn' q, after.maptbl lpn = some q →
    after.maptbl lpn' = some q → lpn = lpn'
  kept : ∀ lpn, (∀ p, before.maptbl lpn = some p → p.blk ≠ victim) →
    after.maptbl lpn = before.maptbl lpn
  victim_free : ∀ p ∈ linePages g victim, after.pg p = .free
  victim_vpc : after.lm.vpc victim = 0
  victim_ipc : after.lm.ipc victim = 0
  victim_once : after.lm.freeLineList.count victim = 1

section Finish

variable {start s : Ftl} {victim : ℕ}

theorem eraseRound_lt
    (hflash : g.flashpgsPerBlk * g.pgsPerFlashpg = g.pgsPerBlk) {p : Ppa}
    (hp : p ∈ linePages g victim) :
    eraseRound g p < g.flashpgsPerBlk * g.nchs * g.lunsPerCh := by
  obtain ⟨hch, hlun, -⟩ := mem_linePages.mp hp
  have hpos : 0 < g.flashpgsPerBlk := by
    by_contra hzero
    have hblk := pgsPerBlk_pos g
    rw [← hflash, Nat.eq_zero_of_not_pos hzero, Nat.zero_mul] at hblk
    exact lt_irrefl 0 hblk
  exact digit_lt (digit_lt (by omega) hch) hlun

/-- After its last round the victim is free, and booking it so leaves a
consistent state. -/
theorem Collecting.finish
    (hflash : g.flashpgsPerBlk * g.pgsPerFlashpg = g.pgsPerBlk)
    (h : Collecting g start victim
      (g.flashpgsPerBlk * g.nchs * g.lunsPerCh * g.pgsPerFlashpg)
      (g.flashpgsPerBlk * g.nchs * g.lunsPerCh) s)
    (hcurline : start.wp.curline = some start.wp.blk) :
    Consistent g { s with lm := markLineFree s.lm victim } := by
  have hfree : ∀ p ∈ linePages g victim, s.pg p = .free := fun p hp =>
    h.erasedFree p hp (eraseRound_lt hflash hp)
  refine {
    maps := ⟨fun lpn p hmap => ?_, fun p hp hvalid => ?_⟩
    lineCounted := fun line hline =>
      LineCounted.markLineFree hfree (h.lineCounted line hline)
    blkCounted := fun b hb => (h.blkCounted b hb).congr rfl fun _ _ => rfl
    partitioned := h.partitioned.markLineFree
    wp_curline := by
      change s.wp.curline = some s.wp.blk
      rw [h.wp_eq, hcurline]
    gcWp_curline := h.gcOpen.curline_eq
    gcWp_inRange := h.gcOpen.inRange
    freeLines := fun line hline p hp => ?_
    gcWp_unwritten := fun p hp => (h.gcOpen.free_iff p hp).mpr
    gcWp_written := fun p hp hlt hpage => ?_
    victims := h.victims
    spareLine := by simp [markLineFree] }
  · obtain ⟨hlpn, hp, hrmap, hvalid, -⟩ := h.mapped lpn p hmap
    exact ⟨hlpn, hp, hrmap, hvalid⟩
  · apply h.valid_mapped p hp hvalid
    intro hblk
    have hpage := hfree p (hblk ▸ mem_linePages_of_valid hp)
    exact absurd (hvalid.symm.trans hpage) (by decide)
  · change line ∈ s.lm.freeLineList ++ [victim] at hline
    rcases List.mem_append.mp hline with hold | hnew
    · exact h.freeLines line hold p hp
    · rw [List.mem_singleton.mp hnew] at hp
      exact hfree p hp
  · have hle := (h.gcOpen.free_iff p hp).mp hpage
    change rank g p < rank g (wpPage s.gcWp) at hlt
    omega

/-- The loops visit every page of the victim. -/
theorem gcRank_lt_end
    (hflash : g.flashpgsPerBlk * g.pgsPerFlashpg = g.pgsPerBlk) {p : Ppa}
    (hp : p ∈ linePages g victim) : gcRank g p <
      g.flashpgsPerBlk * g.nchs * g.lunsPerCh * g.pgsPerFlashpg := by
  have hrank := gcRank_lt hflash hp
  rw [g.pgsPerLine_eq, g.ttLuns_eq, ← hflash] at hrank
  calc gcRank g p < _ := hrank
    _ = _ := by ring

theorem Collecting.collected
    (hflash : g.flashpgsPerBlk * g.pgsPerFlashpg = g.pgsPerBlk)
    (h : Collecting g start victim
      (g.flashpgsPerBlk * g.nchs * g.lunsPerCh * g.pgsPerFlashpg)
      (g.flashpgsPerBlk * g.nchs * g.lunsPerCh) s)
    (hstart : MapsAgree g start) :
    Collected g start { s with lm := markLineFree s.lm victim } victim := by
  have hmoved : ∀ lpn p, start.maptbl lpn = some p → p.blk = victim →
      ∃ q, s.maptbl lpn = some q ∧ ValidPpa g q ∧ q.blk ≠ victim ∧
        start.pg q = .free := by
    intro lpn p hmap hblk
    obtain ⟨-, hp, -⟩ := hstart.mapped lpn p hmap
    exact h.moved lpn p hmap hblk
      (gcRank_lt_end hflash (hblk ▸ mem_linePages_of_valid hp))
  have hkept : ∀ lpn, (∀ p, start.maptbl lpn = some p → p.blk ≠ victim) →
      s.maptbl lpn = start.maptbl lpn := by
    intro lpn hlpn
    exact h.kept lpn fun p hmap hblk => absurd hblk (hlpn p hmap)
  exact {
    mapped_iff := fun lpn => by
      change s.maptbl lpn = none ↔ start.maptbl lpn = none
      cases hmap : start.maptbl lpn with
      | none => rw [hkept lpn (by simp [hmap]), hmap]
      | some p =>
          by_cases hblk : p.blk = victim
          · obtain ⟨q, hq, -⟩ := hmoved lpn p hmap hblk
            simp [hq]
          · rw [hkept lpn fun p' hp' => by
              rw [hmap, Option.some.injEq] at hp'
              exact hp' ▸ hblk, hmap]
    moved := hmoved
    distinct := fun lpn lpn' q hlpn hlpn' => by
      obtain ⟨-, -, hrmap, -⟩ := h.mapped lpn q hlpn
      obtain ⟨-, -, hrmap', -⟩ := h.mapped lpn' q hlpn'
      rw [hrmap, Option.some.injEq] at hrmap'
      exact hrmap'
    kept := hkept
    victim_free := fun p hp => h.erasedFree p hp (eraseRound_lt hflash hp)
    victim_vpc := Function.update_self _ _ _
    victim_ipc := Function.update_self _ _ _
    victim_once := by
      have hle := h.partitioned.places_le victim
      have hhand : [victim].count victim = 1 := by simp
      change (s.lm.freeLineList ++ [victim]).count victim = 1
      rw [List.count_append]
      rw [places] at hle
      omega }

end Finish

/-- `do_gc` returns `-1` and changes nothing, or it moves every mapped page out
of the line it selects, frees that line and leaves a consistent state. -/
def GcKeeps (g : Geometry) (cp : ConvParams) (s : ConvFtl) (force : Bool) :
    Prop :=
  doGc g cp s force = .ok (-1, s) ∨
    ∃ s' victim, doGc g cp s force = .ok (0, s') ∧
      (selectVictimLine g s.ftl.lm force).1 = some victim ∧
      Consistent g s'.ftl ∧ Collected g s.ftl s'.ftl victim

/-- One call of `do_gc` in a consistent state keeps the mapping exactly when
the tables of the dies have room for the valid pages of the line it selects. -/
theorem doGc_keeps_iff (hpls : g.plsPerLun = 1)
    (hflash : g.flashpgsPerBlk * g.pgsPerFlashpg = g.pgsPerBlk)
    (cp : ConvParams) (force : Bool) {s : ConvFtl}
    (h : Consistent g s.ftl) :
    GcKeeps g cp s force ↔
      ∀ victim, (selectVictimLine g s.ftl.lm force).1 = some victim →
        HasRoom g s (s.ftl.lm.vpc victim) := by
  rcases selectVictimLine_cases (g := g) s.ftl.lm force with
    hnone | ⟨hsize, hsome⟩
  · refine iff_of_true (.inl ?_) fun victim hvictim => ?_
    · rw [doGc, hnone]
    · rw [hnone] at hvictim
      cases hvictim
  have hroot : s.ftl.lm.victimLinePq.d 1 ∈ elems s.ftl.lm.victimLinePq :=
    (elems_lineSelected h.partitioned.size_pos hsize).subset
      List.mem_cons_self
  let victim := s.ftl.lm.victimLinePq.d 1
  let start : ConvFtl :=
    { s with
      ftl := { s.ftl with
        lm := lineSelected s.ftl.lm
        wfc := { s.ftl.wfc with
          creditsToRefill := s.ftl.lm.ipc victim } } }
  have hcollecting : Collecting g start.ftl victim 0 0 start.ftl :=
    h.collecting hsize _
  have hstart : GcStart g start.ftl victim :=
    { maps := ⟨h.maps.mapped, h.maps.valid_mapped⟩
      pointer := ⟨h.gcWp_inRange, fun hfree =>
        h.partitioned.free_ne_wp hfree .gc rfl⟩
      programmed := h.victims _ hroot }
  have hbooked : Booked g start (movedCount g start.ftl victim 0) start := by
    rw [movedCount_zero]
    exact .start hstart.pointer
  have hloops := Tracked.loops hpls hflash cp ⟨hcollecting, hbooked⟩ hstart
  have hselected : (selectVictimLine g s.ftl.lm force).1 = some victim := by
    rw [hsome]
  have hvpc : s.ftl.lm.vpc victim = lineCount g start.ftl.pg victim .valid :=
    (h.lineCounted victim hcollecting.victim_lt).vpc_eq
  have hroom : (∀ victim', (selectVictimLine g s.ftl.lm force).1 =
      some victim' → HasRoom g s (s.ftl.lm.vpc victim')) ↔
        VictimRoom g start victim := by
    rw [VictimRoom, ← hvpc, hselected]
    exact ⟨fun hall => hall victim rfl, fun hhas victim' heq => by
      cases heq
      exact hhas⟩
  have hgc : doGc g cp s force =
      ((List.range g.flashpgsPerBlk).foldlM (gcFlashpg g cp victim) start >>=
        fun s' => .ok (0, { s' with
          ftl := { s'.ftl with lm := markLineFree s'.ftl.lm victim } })) := by
    rw [doGc, hsome]
    rfl
  rw [hroom, GcKeeps, hgc]
  cases hrun : (List.range g.flashpgsPerBlk).foldlM (gcFlashpg g cp victim)
      start with
  | error fault =>
      rw [hrun] at hloops
      exact iff_of_false (by rintro (hnone | ⟨_, _, hdone, -⟩) <;> cases ‹_›)
        hloops
  | ok s' =>
      rw [hrun] at hloops
      obtain ⟨hend, htables⟩ := hloops
      refine iff_of_true (.inr ⟨_, victim, rfl, hselected,
        hend.finish hflash h.wp_curline, ?_⟩) ?_
      · obtain ⟨hmapped, hmoved, hdistinct, hkept, hfree, hvpc, hipc, honce⟩ :=
          hend.collected hflash hstart.maps
        exact ⟨hmapped, hmoved, hdistinct, hkept, hfree, hvpc, hipc, honce⟩
      · have hroom := htables.room
        rw [movedCount_all fun p hp => gcRank_lt_end hflash hp] at hroom
        exact hroom

end

/-! ## A collection that closes the line of the pointer -/

/-- Four lines of two pages.  Line `0` is under the garbage collection pointer
at its last page, line `1` is a victim with one valid page, line `2` is under
the host pointer and line `3` is free. -/
def fourLines : Geometry := oneDie ⟨3, three_lt_bits⟩ ⟨1, one_lt_bits⟩

def fourLinesSsd : Ssd :=
  ssdInit fourLines.toSsdParams (by decide) (by decide) ⟨fun _ => 0, 0⟩

def dieBlk (blk : ℕ) : BlkAddr := { ch := 0, lun := 0, pl := 0, blk := blk }

/-- The mapping state; the page behind the pointer is invalid. -/
def fourLinesFtl : Ftl where
  maptbl lpn := if lpn = 0 then some { dieBlk 1 with pg := 0 } else none
  rmap idx := if idx = 2 then some 0 else none
  pg p :=
    if p = { dieBlk 1 with pg := 0 } then .valid
    else if p = { dieBlk 1 with pg := 1 } then .invalid
    else if p = { dieBlk 0 with pg := 0 } then .invalid
    else .free
  blk b :=
    { ipc := if b = dieBlk 1 ∨ b = dieBlk 0 then 1 else 0
      vpc := if b = dieBlk 1 then 1 else 0
      eraseCnt := 0 }
  wp := { curline := some 2, ch := 0, lun := 0, pg := 0, blk := 2, pl := 0 }
  gcWp := { curline := some 0, ch := 0, lun := 0, pg := 1, blk := 0, pl := 0 }
  lm :=
    { ttLines := 4
      ipc := fun line => if line = 1 ∨ line = 0 then 1 else 0
      vpc := fun line => if line = 1 then 1 else 0
      freeLineList := [3]
      victimLinePq :=
        { d := fun _ => 1, size := 2, pos := fun line =>
            if line = 1 then 1 else 0 }
      fullLineList := []
      freeLineCnt := 1
      victimLineCnt := 1
      fullLineCnt := 0 }
  wfc := { writeCredits := 2, creditsToRefill := 2 }

theorem fourLinesFtl_valid {p : Ppa} (hvalid : fourLinesFtl.pg p = .valid) :
    p = { dieBlk 1 with pg := 0 } := by
  simp only [fourLinesFtl] at hvalid
  split_ifs at hvalid with hp
  exact hp

theorem fourLinesFtl_counted {line : ℕ} (hline : line < 4) :
    LineCounted fourLines fourLinesFtl line := by
  interval_cases line <;> exact ⟨by decide, by decide⟩

theorem fourLinesFtl_blkCounted {b : BlkAddr} (hb : ValidBlk fourLines b) :
    BlkCounted fourLines fourLinesFtl b := by
  obtain ⟨hch, hlun, hpl, hblk⟩ := hb
  obtain ⟨ch, lun, pl, blk⟩ := b
  change ch < 1 at hch
  change lun < 1 at hlun
  change pl < 1 at hpl
  change blk < 4 at hblk
  interval_cases ch
  interval_cases lun
  interval_cases pl
  interval_cases blk <;> exact ⟨by decide, by decide⟩

theorem fourLinesFtl_partitioned :
    Partitioned fourLines fourLinesFtl [] where
  size_pos := one_le_two
  one_place line hline := by
    change line < 4 at hline
    interval_cases line <;> rfl
  no_place line hline := by
    change ¬ line < 4 at hline
    have hne : ∀ other : ℕ, other < 4 → [other].count line = 0 := by
      intro other hother
      rw [List.count_eq_zero, List.mem_singleton]
      omega
    change [3].count line + [].count line + [1].count line +
      [2].count line + [0].count line + [].count line = 0
    simp [hne]

theorem fourLinesFtl_consistent : Consistent fourLines fourLinesFtl where
  maps :=
    { mapped := fun lpn p hmap => by
        simp only [fourLinesFtl] at hmap
        split_ifs at hmap with hlpn
        rw [Option.some.injEq] at hmap
        subst hlpn hmap
        exact ⟨by decide, by decide, rfl, by simp [fourLinesFtl]⟩
      valid_mapped := fun p _ hvalid =>
        ⟨0, by rw [fourLinesFtl_valid hvalid]; rfl⟩ }
  lineCounted _ hline := fourLinesFtl_counted hline
  blkCounted _ hb := fourLinesFtl_blkCounted hb
  partitioned := fourLinesFtl_partitioned
  wp_curline := rfl
  gcWp_curline := rfl
  gcWp_inRange := ⟨one_pos, one_pos, one_lt_two, rfl⟩
  freeLines := by decide
  gcWp_unwritten := by decide
  gcWp_written := by decide
  victims := by decide
  spareLine := List.cons_ne_nil _ _

/-- The table of a die, as `init_lines_DA` sets it up. -/
def dieTable : LineMgmt where
  ttLines := 4
  ipc := fun _ => 0
  vpc := fun _ => 0
  freeLineList := [0, 1, 2, 3]
  victimLinePq := pqueueInit 0
  fullLineList := []
  freeLineCnt := 4
  victimLineCnt := 0
  fullLineCnt := 0

def fourLinesState (lunlm : ℕ → Option LineMgmt) : ConvFtl where
  ftl := fourLinesFtl
  ssd := fourLinesSsd
  lunlm := lunlm

/-- With the tables of the dies set up, the page moves and the pointer goes on
to the next line. -/
theorem doGc_keeps_fourLines :
    initLines fourLines = .ok dieTable ∧
      GcKeeps fourLines ⟨2, 2, true⟩ (fourLinesState fun _ => some dieTable)
        true ∧
      (selectVictimLine fourLines fourLinesFtl.lm true).1 = some 1 := by
  have hflash : fourLines.flashpgsPerBlk * fourLines.pgsPerFlashpg =
      fourLines.pgsPerBlk := rfl
  refine ⟨rfl, (doGc_keeps_iff rfl hflash ⟨2, 2, true⟩ true
    fourLinesFtl_consistent).mpr fun victim hvictim => ?_, rfl⟩
  cases hvictim
  have hshares : ∀ p ∈ gcTargets fourLines fourLinesFtl 1,
      0 + dieShare fourLines fourLinesFtl 1 (getGlun fourLines p) p.blk ≤
        fourLines.pgsPerLine := by decide
  exact fun p hp => ⟨dieTable, rfl, hshares p hp⟩

/-- Without tables of the dies, and with a block there that has been filled
before, the collection stops at the page it moves. -/
theorem doGc_stops_fourLines :
    fourLines.plsPerLun = 1 ∧
      fourLines.flashpgsPerBlk * fourLines.pgsPerFlashpg =
        fourLines.pgsPerBlk ∧
      Consistent fourLines fourLinesFtl ∧
      doGc fourLines ⟨2, 2, true⟩ (fourLinesState fun _ => none) true =
        .error .unsetPointer ∧
      ¬ GcKeeps fourLines ⟨2, 2, true⟩ (fourLinesState fun _ => none) true ∧
      doGc fourLines ⟨2, 2, true⟩
          (fourLinesState fun _ => some { dieTable with vpc := fun _ => 2 })
          true =
        .error .assertion := by
  have hstop : doGc fourLines ⟨2, 2, true⟩ (fourLinesState fun _ => none)
      true = .error .unsetPointer := rfl
  refine ⟨rfl, rfl, fourLinesFtl_consistent, hstop, ?_, rfl⟩
  rintro (hnone | ⟨s', victim, hdone, -⟩)
  · cases hstop.symm.trans hnone
  · cases hstop.symm.trans hdone

end NvmeVirt.GcConsistency
