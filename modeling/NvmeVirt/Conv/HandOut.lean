import NvmeVirt.Conv.Startup

/-!
# The order in which a line is handed out

A write takes a page by `get_new_page` and moves the pointer on by
`advance_write_pointer`.  From the first page of a line on, the pages that are
taken have the ranks `0`, `1` and so on, so that a line is handed out as a
whole before the pointer moves to another one.
-/

namespace NvmeVirt.HandOut

open NvmeVirt.Kernel
open NvmeVirt.Layout
open NvmeVirt.Mapping
open NvmeVirt.MixedRadix
open NvmeVirt.Startup
open NvmeVirt.Superblock
open NvmeVirt.Timing
open NvmeVirt.Transition

section

variable (g : Geometry) (io : IoType)

/-- The next pages: `get_new_page`, with `advance_write_pointer` between one
and the next. -/
def handOut : ℕ → Ftl → Except Fault (List Ppa)
  | 0, _ => .ok []
  | 1, s => .ok [getNewPage s io]
  | n + 2, s => do
      let ppa := getNewPage s io
      let s ← advanceWritePointer g s io
      let rest ← handOut (n + 1) s
      return ppa :: rest

/-- The write pointer as `prepare_write_pointer` leaves it for a line. -/
structure AtStart (s : Ftl) (line : ℕ) : Prop where
  ch_eq : (getWp s io).ch = 0
  lun_eq : (getWp s io).lun = 0
  pg_eq : (getWp s io).pg = 0
  blk_eq : (getWp s io).blk = line
  pl_eq : (getWp s io).pl = 0

/-- Both pages lie in one oneshot page. -/
def SameOneshotpg (p q : Ppa) : Prop :=
  p.toBlkAddr = q.toBlkAddr ∧
    p.pg / g.pgsPerOneshotpg = q.pg / g.pgsPerOneshotpg

/-- A list of all pages of a line, each of them once, with the pages of a block
in their order and those of a oneshot page next to each other. -/
structure LineOrder (line : ℕ) (pages : List Ppa) : Prop where
  nodup : pages.Nodup
  mem_iff : ∀ p, p ∈ pages ↔ p ∈ linePages g line
  inOrder : pages.Pairwise fun p q => p.toBlkAddr = q.toBlkAddr → p.pg < q.pg
  together : ∀ (i j k : ℕ) (p q r : Ppa), i < j → j < k →
    pages[i]? = some p → pages[j]? = some q → pages[k]? = some r →
    SameOneshotpg g p r → SameOneshotpg g p q

variable {g} {io}

/-! ## Ranks -/

/-- Within a block, the ranks are in the order of the pages. -/
theorem rank_le_of_pg_le {p q : Ppa} (hblk : p.toBlkAddr = q.toBlkAddr)
    (hpg : p.pg ≤ q.pg) : rank g p ≤ rank g q := by
  have hch : p.ch = q.ch := congrArg BlkAddr.ch hblk
  have hlun : p.lun = q.lun := congrArg BlkAddr.lun hblk
  have hsplit := Nat.div_add_mod p.pg g.pgsPerOneshotpg
  have hsplit' := Nat.div_add_mod q.pg g.pgsPerOneshotpg
  have hoff := Nat.mod_lt p.pg g.pgsPerOneshotpg_pos
  rw [rank, rank, hch, hlun]
  rcases (Nat.div_le_div_right (c := g.pgsPerOneshotpg) hpg).eq_or_lt with
    hsame | hless
  · rw [hsame] at hsplit ⊢
    omega
  · have hdie : (p.pg / g.pgsPerOneshotpg * g.lunsPerCh + q.lun) * g.nchs +
        q.ch < (q.pg / g.pgsPerOneshotpg * g.lunsPerCh + q.lun) * g.nchs +
        q.ch := by
      apply Nat.add_lt_add_right
      apply Nat.mul_lt_mul_of_pos_right _ g.nchs_pos
      apply Nat.add_lt_add_right
      exact Nat.mul_lt_mul_of_pos_right hless g.lunsPerCh_pos
    exact (digit_lt hdie hoff).le.trans (Nat.le_add_right _ _)

/-- The rank without its last digit is the number of a oneshot page. -/
theorem sameOneshotpg_iff (hpls : g.plsPerLun = 1) {line : ℕ} {p q : Ppa}
    (hp : p ∈ linePages g line) (hq : q ∈ linePages g line) :
    SameOneshotpg g p q ↔
      rank g p / g.pgsPerOneshotpg = rank g q / g.pgsPerOneshotpg := by
  obtain ⟨hch, hlun, hpl, hblk, -⟩ := mem_linePages.mp hp
  obtain ⟨hch', hlun', hpl', hblk', -⟩ := mem_linePages.mp hq
  rw [rank, rank, digit_div (Nat.mod_lt _ g.pgsPerOneshotpg_pos),
    digit_div (Nat.mod_lt _ g.pgsPerOneshotpg_pos)]
  constructor
  · rintro ⟨hsame, hpage⟩
    have hsameCh : p.ch = q.ch := congrArg BlkAddr.ch hsame
    have hsameLun : p.lun = q.lun := congrArg BlkAddr.lun hsame
    rw [hpage, hsameCh, hsameLun]
  · intro heq
    obtain ⟨heq, hsameCh⟩ := digit_inj hch hch' heq
    obtain ⟨hpage, hsameLun⟩ := digit_inj hlun hlun' heq
    have hsamePl : p.pl = q.pl := by omega
    refine ⟨?_, hpage⟩
    rw [BlkAddr.mk.injEq]
    exact ⟨hsameCh, hsameLun, hsamePl, hblk.trans hblk'.symm⟩

/-! ## The run -/

theorem atStart_of_prepare {s s' : Ftl}
    (hrun : prepareWritePointer s io = .ok s') :
    ∃ line, AtStart io s' line := by
  rw [prepareWritePointer] at hrun
  split at hrun
  · cases hrun
  · rename_i curline lm hnext
    cases hrun
    refine ⟨curline, ?_⟩
    constructor <;> rw [getWp_setWp]

/-- Ahead of the last page of its line, the pointer moves to the next rank. -/
theorem advanceWritePointer_of_rank {s : Ftl}
    (h : WpInRange g (getWp s io))
    (hroom : rank g (wpPage (getWp s io)) + 1 < g.pgsPerLine) :
    ∃ after, advanceWritePointer g s io = .ok (setWp s after io) ∧
      WpInRange g after ∧ after.blk = (getWp s io).blk ∧
      rank g (wpPage after) = rank g (wpPage (getWp s io)) + 1 := by
  obtain ⟨after, usedUp, hstep, hspec⟩ := stepWritePointer_spec h
  cases usedUp with
  | true =>
      have hlast := (hspec.rank_last rfl).1
      omega
  | false =>
      refine ⟨after, ?_, hspec.inRange, hspec.blk_eq, hspec.rank_eq rfl⟩
      rw [advanceWritePointer, hstep]
      rfl

/-- The pages that are handed out have consecutive ranks. -/
theorem handOut_ranks {n : ℕ} {s : Ftl} (h : WpInRange g (getWp s io))
    (hroom : rank g (wpPage (getWp s io)) + (n + 1) ≤ g.pgsPerLine) :
    ∃ pages, handOut g io (n + 1) s = .ok pages ∧
      pages.map (rank g) =
        List.range' (rank g (wpPage (getWp s io))) (n + 1) ∧
      ∀ p ∈ pages, p ∈ linePages g (getWp s io).blk := by
  induction n generalizing s with
  | zero =>
      refine ⟨[wpPage (getWp s io)], rfl, rfl, ?_⟩
      intro p hp
      rw [List.mem_singleton.mp hp]
      exact h.mem_linePages
  | succ n ih =>
      obtain ⟨after, hstep, hrange, hblk, hrank⟩ :=
        advanceWritePointer_of_rank h (by omega)
      rw [← getWp_setWp s after io] at hrange hblk hrank
      obtain ⟨pages, hrun, hranks, hmem⟩ := ih hrange (by omega)
      refine ⟨wpPage (getWp s io) :: pages, ?_, ?_, ?_⟩
      · rw [handOut, hstep, ok_bind, hrun]
        rfl
      · rw [List.map_cons, hranks, hrank, ← List.range'_succ]
      · intro p hp
        rcases List.mem_cons.mp hp with rfl | hp
        · exact h.mem_linePages
        · rw [← hblk]
          exact hmem p hp

/-- A list of the pages of a line by their ranks. -/
theorem lineOrder_of_ranks (hpls : g.plsPerLun = 1) {line : ℕ}
    {pages : List Ppa} (hranks : pages.map (rank g) = List.range g.pgsPerLine)
    (hmem : ∀ p ∈ pages, p ∈ linePages g line) : LineOrder g line pages where
  nodup := by
    apply List.Nodup.of_map (rank g)
    rw [hranks]
    exact List.nodup_range
  mem_iff := by
    intro p
    refine ⟨hmem p, fun hp => ?_⟩
    have hrank : rank g p ∈ pages.map (rank g) := by
      rw [hranks, List.mem_range]
      exact rank_lt_of_mem hp
    obtain ⟨q, hq, heq⟩ := List.mem_map.mp hrank
    rwa [← rank_inj hpls (hmem q hq) hp heq]
  inOrder := by
    have hsorted : (pages.map (rank g)).Pairwise (· < ·) := by
      rw [hranks]
      exact List.pairwise_lt_range
    refine (List.pairwise_map.mp hsorted).imp ?_
    intro p q hlt hblk
    by_contra hnot
    exact hlt.not_ge (rank_le_of_pg_le hblk.symm (Nat.le_of_not_lt hnot))
  together := by
    have hposition : ∀ i p, pages[i]? = some p → rank g p = i := by
      intro i p hp
      have hget : (pages.map (rank g))[i]? = some (rank g p) := by
        rw [List.getElem?_map, hp]
        rfl
      rw [hranks] at hget
      obtain ⟨hlt, heq⟩ := List.getElem?_eq_some_iff.mp hget
      rw [← heq, List.getElem_range]
    intro i j k p q r hij hjk hp hq hr hsame
    have hmemP := hmem p (List.mem_of_getElem? hp)
    have hmemQ := hmem q (List.mem_of_getElem? hq)
    have hmemR := hmem r (List.mem_of_getElem? hr)
    rw [sameOneshotpg_iff hpls hmemP hmemR, hposition i p hp,
      hposition k r hr] at hsame
    rw [sameOneshotpg_iff hpls hmemP hmemQ, hposition i p hp,
      hposition j q hq]
    -- the quotients of `i` and `k` agree, and that of `j` is between them
    apply Nat.le_antisymm
    · exact Nat.div_le_div_right hij.le
    · rw [hsame]
      exact Nat.div_le_div_right hjk.le

end

/-- From the first page of a line on, the next `pgs_per_line` pages are the
pages of the line, each of them once, in an order in which a block is
programmed upwards and a oneshot page at a time. -/
theorem handOut_line {g : Geometry} {io : IoType} {s : Ftl} {line : ℕ}
    (hpls : g.plsPerLun = 1) (hstart : AtStart io s line) :
    ∃ pages, handOut g io g.pgsPerLine s = .ok pages ∧
      pages.length = g.pgsPerLine ∧ LineOrder g line pages := by
  have hrange : WpInRange g (getWp s io) :=
    { ch_lt := by rw [hstart.ch_eq]; exact g.nchs_pos
      lun_lt := by rw [hstart.lun_eq]; exact g.lunsPerCh_pos
      pg_lt := by rw [hstart.pg_eq]; exact pgsPerBlk_pos g
      pl_eq := hstart.pl_eq }
  have hrank : rank g (wpPage (getWp s io)) = 0 := by
    rw [rank, wpPage]
    simp only [hstart.ch_eq, hstart.lun_eq, hstart.pg_eq, Nat.zero_div,
      Nat.zero_mod, Nat.zero_mul, Nat.zero_add]
  obtain ⟨last, hlast⟩ := Nat.exists_eq_add_one_of_ne_zero
    (pgsPerLine_pos g).ne'
  obtain ⟨pages, hrun, hranks, hmem⟩ :=
    handOut_ranks (n := last) hrange (by omega)
  rw [← hlast] at hrun hranks
  rw [hrank, ← List.range_eq_range'] at hranks
  rw [hstart.blk_eq] at hmem
  refine ⟨pages, hrun, ?_, lineOrder_of_ranks hpls hranks hmem⟩
  have hlength := congrArg List.length hranks
  rwa [List.length_map, List.length_range] at hlength

theorem handOut_line_fourDies :
    ∃ pages, handOut fourDies .gc 16 (freshFtl fourDies) = .ok pages ∧
      pages.length = 16 ∧ LineOrder fourDies 1 pages :=
  handOut_line rfl ⟨rfl, rfl, rfl, rfl, rfl⟩

/-- The first oneshot page, and where the next ones begin. -/
example : (handOut fourDies .gc 9 (freshFtl fourDies)).map
    (fun pages => pages.map fun p => (p.ch, p.lun, p.pg)) =
    .ok [(0, 0, 0), (0, 0, 1), (1, 0, 0), (1, 0, 1), (0, 1, 0), (0, 1, 1),
      (1, 1, 0), (1, 1, 1), (0, 0, 2)] := by
  decide +kernel

end NvmeVirt.HandOut
