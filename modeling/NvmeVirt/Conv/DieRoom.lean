import NvmeVirt.Conv.Bookkeeping
import NvmeVirt.Conv.GarbageCollection

/-!
# Room in the tables of the dies

A page that is copied is counted in the table of its die too, where
`mark_page_valid` asserts that the block has room.  Which pages garbage
collection writes is known beforehand: those that the pointer comes to, in its
line and then in the first free one.
-/

namespace NvmeVirt.DieRoom

open NvmeVirt.Bookkeeping
open NvmeVirt.GarbageCollection
open NvmeVirt.Kernel
open NvmeVirt.Layout
open NvmeVirt.Mapping
open NvmeVirt.Superblock
open NvmeVirt.Timing
open NvmeVirt.Transition

section

variable (g : Geometry)

/-- The next `count` pages under the garbage collection pointer, when they end
in the first free line at the latest. -/
def gcTargets (s : Ftl) (count : ℕ) : Finset Ppa :=
  ((linePages g s.gcWp.blk).filter fun p =>
    rank g (wpPage s.gcWp) ≤ rank g p ∧
      rank g p < rank g (wpPage s.gcWp) + count) ∪
  ((s.lm.freeLineList.head?.elim ∅ (linePages g)).filter fun p =>
    g.pgsPerLine + rank g p < rank g (wpPage s.gcWp) + count)

/-- How many of them lie in one block of a die. -/
def dieShare (s : Ftl) (count die blk : ℕ) : ℕ :=
  ((gcTargets g s count).filter fun p =>
    getGlun g p = die ∧ p.blk = blk).card

/-- The tables of the dies are set up, and have room for the next `count` pages
under the garbage collection pointer. -/
def HasRoom (s : ConvFtl) (count : ℕ) : Prop :=
  ∀ p ∈ gcTargets g s.ftl count, ∃ lm, s.lunlm (getGlun g p) = some lm ∧
    lm.vpc p.blk + dieShare g s.ftl count (getGlun g p) p.blk ≤ g.pgsPerLine

/-- The garbage collection pointer stands in its line, which is not free. -/
structure PointerReady (s : Ftl) : Prop where
  inRange : WpInRange g s.gcWp
  notFree : s.gcWp.blk ∉ s.lm.freeLineList

/-- The garbage collection pointer after `count` pages. -/
def PointerAt (start s : Ftl) (count : ℕ) : Prop :=
  (s.gcWp.blk = start.gcWp.blk ∧ s.lm.freeLineList = start.lm.freeLineList ∧
    rank g (wpPage s.gcWp) = rank g (wpPage start.gcWp) + count) ∨
  ∃ rest, start.lm.freeLineList = s.gcWp.blk :: rest ∧
    s.lm.freeLineList = rest ∧
    g.pgsPerLine + rank g (wpPage s.gcWp) =
      rank g (wpPage start.gcWp) + count

/-- The tables after `count` pages. -/
def diesBooked (start : ConvFtl) (count die : ℕ) : Option LineMgmt :=
  (start.lunlm die).map fun lm =>
    { lm with
      vpc := fun blk => lm.vpc blk + dieShare g start.ftl count die blk }

/-- What `count` pages leave in the tables of the dies, which had room for
them. -/
structure TablesAt (start : ConvFtl) (count : ℕ)
    (lunlm : ℕ → Option LineMgmt) : Prop where
  tables : lunlm = diesBooked g start count
  room : HasRoom g start count

/-- The state after `count` pages, as far as it concerns the pointer and the
tables of the dies. -/
structure Booked (start : ConvFtl) (count : ℕ) (s : ConvFtl) : Prop
    extends TablesAt g start count s.lunlm where
  pointer : PointerAt g start.ftl s.ftl count

variable {g}

/-! ## The pages under the pointer -/

theorem gcTargets_mono (s : Ftl) {count more : ℕ} (hle : count ≤ more) :
    gcTargets g s count ⊆ gcTargets g s more := by
  intro p hp
  simp only [gcTargets, Finset.mem_union, Finset.mem_filter] at hp ⊢
  rcases hp with ⟨hline, hfrom, hlt⟩ | ⟨hline, hlt⟩
  · exact .inl ⟨hline, hfrom, by omega⟩
  · exact .inr ⟨hline, by omega⟩

theorem dieShare_mono (s : Ftl) {count more : ℕ} (hle : count ≤ more)
    (die blk : ℕ) : dieShare g s count die blk ≤ dieShare g s more die blk :=
  Finset.card_le_card (Finset.filter_subset_filter _ (gcTargets_mono s hle))

theorem HasRoom.mono {s : ConvFtl} {count more : ℕ} (h : HasRoom g s more)
    (hle : count ≤ more) : HasRoom g s count := by
  intro p hp
  obtain ⟨lm, hlm, hroom⟩ := h p (gcTargets_mono s.ftl hle hp)
  have hshare := @dieShare_mono g s.ftl count more hle (getGlun g p) p.blk
  exact ⟨lm, hlm, by omega⟩

theorem gcTargets_zero (s : Ftl) (hrange : WpInRange g s.gcWp) :
    gcTargets g s 0 = ∅ := by
  have hlt := rank_lt_of_mem hrange.mem_linePages
  refine Finset.eq_empty_of_forall_notMem fun p hp => ?_
  simp only [gcTargets, Finset.mem_union, Finset.mem_filter] at hp
  rcases hp with ⟨-, hfrom, hbefore⟩ | ⟨-, hbefore⟩
  · omega
  · omega

section

variable {start s : Ftl} {count : ℕ}

/-- The pages already written, and the one under the pointer. -/
theorem PointerAt.mem_succ (hpls : g.plsPerLun = 1)
    (h : PointerAt g start s count) (hrange : WpInRange g s.gcWp)
    (hstart : PointerReady g start) (p : Ppa) :
    p ∈ gcTargets g start (count + 1) ↔
      p = wpPage s.gcWp ∨ p ∈ gcTargets g start count := by
  have hstartLt := rank_lt_of_mem hstart.inRange.mem_linePages
  have hlt := rank_lt_of_mem hrange.mem_linePages
  have hself := hrange.mem_linePages
  simp only [gcTargets, Finset.mem_union, Finset.mem_filter]
  rcases h with ⟨hblk, -, hrank⟩ | ⟨rest, hfree, -, hrank⟩
  · -- the pointer is still in its line
    rw [hblk] at hself
    constructor
    · rintro (⟨hmem, hfrom, hbefore⟩ | ⟨-, hbefore⟩)
      · by_cases hlast : rank g p = rank g (wpPage s.gcWp)
        · exact .inl (rank_inj hpls hmem hself hlast)
        · exact .inr (.inl ⟨hmem, hfrom, by omega⟩)
      · omega
    · rintro (rfl | ⟨hmem, hfrom, hbefore⟩ | ⟨-, hbefore⟩)
      · exact .inl ⟨hself, by omega, by omega⟩
      · exact .inl ⟨hmem, hfrom, by omega⟩
      · omega
  · -- the pointer has gone on to the first free line
    rw [hfree, List.head?_cons, Option.elim_some]
    constructor
    · rintro (⟨hmem, hfrom, -⟩ | ⟨hmem, hbefore⟩)
      · have hbound := rank_lt_of_mem hmem
        exact .inr (.inl ⟨hmem, hfrom, by omega⟩)
      · by_cases hlast : rank g p = rank g (wpPage s.gcWp)
        · exact .inl (rank_inj hpls hmem hself hlast)
        · exact .inr (.inr ⟨hmem, by omega⟩)
    · rintro (rfl | ⟨hmem, hfrom, hbefore⟩ | ⟨hmem, hbefore⟩)
      · exact .inr ⟨hself, by omega⟩
      · exact .inl ⟨hmem, hfrom, by omega⟩
      · exact .inr ⟨hmem, by omega⟩

theorem PointerAt.notMem (h : PointerAt g start s count)
    (hrange : WpInRange g s.gcWp) (hstart : PointerReady g start) :
    wpPage s.gcWp ∉ gcTargets g start count := by
  have hstartLt := rank_lt_of_mem hstart.inRange.mem_linePages
  have hlt := rank_lt_of_mem hrange.mem_linePages
  intro hmem
  simp only [gcTargets, Finset.mem_union, Finset.mem_filter] at hmem
  rcases h with ⟨-, -, hrank⟩ | ⟨rest, hfree, -, hrank⟩
  · rcases hmem with ⟨-, -, hbefore⟩ | ⟨-, hbefore⟩
    · omega
    · omega
  · rcases hmem with ⟨hline, -⟩ | ⟨-, hbefore⟩
    · have hsame : s.gcWp.blk = start.gcWp.blk :=
        (mem_linePages.mp hline).2.2.2.1
      have hnotFree := hstart.notFree
      rw [hfree, ← hsame] at hnotFree
      exact hnotFree List.mem_cons_self
    · omega

/-- One more page in the block of the page under the pointer, and in no
other. -/
theorem PointerAt.dieShare_succ (hpls : g.plsPerLun = 1)
    (h : PointerAt g start s count) (hrange : WpInRange g s.gcWp)
    (hstart : PointerReady g start) (die blk : ℕ) :
    dieShare g start (count + 1) die blk = dieShare g start count die blk +
      if getGlun g (wpPage s.gcWp) = die ∧ s.gcWp.blk = blk then 1 else 0 := by
  have hinsert : gcTargets g start (count + 1) =
      insert (wpPage s.gcWp) (gcTargets g start count) := by
    ext p
    rw [Finset.mem_insert]
    exact h.mem_succ hpls hrange hstart p
  have hnew := h.notMem hrange hstart
  rw [dieShare, dieShare, hinsert, Finset.filter_insert]
  change (if getGlun g (wpPage s.gcWp) = die ∧ s.gcWp.blk = blk then _
    else _ : Finset Ppa).card = _
  split_ifs
  · rw [Finset.card_insert_of_notMem]
    exact fun hmem => hnew (Finset.mem_of_mem_filter _ hmem)
  · rfl

/-- The pointer goes on by one page, after `mid` has left it where it was. -/
theorem PointerAt.advanced {mid s' : Ftl} (h : PointerAt g start s count)
    (hstart : PointerReady g start) (hcount : count < g.pgsPerLine)
    (hadvanced : Advanced g mid .gc s') (hgcWp : mid.gcWp = s.gcWp)
    (hfree : mid.lm.freeLineList = s.lm.freeLineList) :
    PointerAt g start s' (count + 1) := by
  have hstartLt := rank_lt_of_mem hstart.inRange.mem_linePages
  cases hadvanced with
  | within wpp hwpp hcurline hblk hrank =>
      change wpp.blk = mid.gcWp.blk at hblk
      change rank g (wpPage wpp) = rank g (wpPage mid.gcWp) + 1 at hrank
      rw [hgcWp] at hblk hrank
      rcases h with ⟨hline, hlist, hat⟩ | ⟨rest, hfirst, hlist, hat⟩
      · refine .inl ⟨hblk.trans hline, hfree.trans hlist, ?_⟩
        change rank g (wpPage wpp) = _
        omega
      · refine .inr ⟨rest, ?_, hfree.trans hlist, ?_⟩
        · change _ = wpp.blk :: rest
          rw [hblk, hfirst]
        · change g.pgsPerLine + rank g (wpPage wpp) = _
          omega
  | closed next rest hnext hlast =>
      change rank g (wpPage mid.gcWp) + 1 = g.pgsPerLine at hlast
      rw [hgcWp] at hlast
      rw [hfree] at hnext
      rcases h with ⟨-, hlist, hat⟩ | ⟨-, -, -, hat⟩
      · refine .inr ⟨rest, hlist.symm.trans hnext, rfl, ?_⟩
        have hzero : rank g (wpPage
            { curline := some next, ch := 0, lun := 0, pg := 0, blk := next,
              pl := 0 }) = 0 := by
          simp [rank, wpPage]
        change g.pgsPerLine + rank g (wpPage
            { curline := some next, ch := 0, lun := 0, pg := 0, blk := next,
              pl := 0 }) = _
        omega
      · -- a line and the rest of the first one are more than `count` pages
        omega

end

/-! ## One page -/

/-- One more page in block `blk` of `die`, in the tables. -/
theorem diesBooked_succ {start : ConvFtl} {count die blk : ℕ}
    (hshare : ∀ die' blk', dieShare g start.ftl (count + 1) die' blk' =
      dieShare g start.ftl count die' blk' +
        if die = die' ∧ blk = blk' then 1 else 0)
    {lm : LineMgmt} (hlm : diesBooked g start count die = some lm) :
    Function.update (diesBooked g start count) die
        (some { lm with vpc := Function.update lm.vpc blk (lm.vpc blk + 1) }) =
      diesBooked g start (count + 1) := by
  obtain ⟨first, hfirst, rfl⟩ := Option.map_eq_some_iff.mp hlm
  funext other
  by_cases hother : other = die
  · subst hother
    rw [Function.update_self, diesBooked, hfirst, Option.map_some,
      Option.some.injEq, LineMgmt.mk.injEq]
    refine ⟨rfl, rfl, funext fun blk' => ?_, rfl, rfl, rfl, rfl, rfl, rfl⟩
    dsimp only
    rw [hshare]
    by_cases hblk : blk' = blk
    · subst hblk
      rw [Function.update_self, if_pos ⟨rfl, rfl⟩, Nat.add_assoc]
    · rw [Function.update_of_ne hblk, if_neg fun hsame => hblk hsame.2.symm,
        Nat.add_zero]
  · rw [Function.update_of_ne hother, diesBooked, diesBooked]
    have hnone : ∀ blk', ¬ (die = other ∧ blk = blk') := fun _ hsame =>
      hother hsame.1.symm
    simp only [hshare, if_neg (hnone _), Nat.add_zero]

/-- Nothing is booked at the start. -/
theorem Booked.start {s : ConvFtl} (hready : PointerReady g s.ftl) :
    Booked g s 0 s := by
  have hnone := gcTargets_zero s.ftl hready.inRange
  refine ⟨⟨funext fun die => ?_, fun p hp => ?_⟩, .inl ⟨rfl, rfl, rfl⟩⟩
  · rw [diesBooked]
    cases s.lunlm die with
    | none => rfl
    | some lm => simp [dieShare, hnone]
  · rw [hnone] at hp
    cases hp

theorem Booked.congr {start s s' : ConvFtl} {count : ℕ}
    (h : Booked g start count s) (hlunlm : s'.lunlm = s.lunlm)
    (hgcWp : s'.ftl.gcWp = s.ftl.gcWp)
    (hfree : s'.ftl.lm.freeLineList = s.ftl.lm.freeLineList) :
    Booked g start count s' where
  tables := hlunlm.trans h.tables
  room := h.room
  pointer := by
    have hpointer := h.pointer
    rw [PointerAt, ← hgcWp, ← hfree] at hpointer
    exact hpointer

/-- The page under the pointer is booked in the table of its die exactly when
that table has room. -/
theorem Booked.mark {start s : ConvFtl} {count : ℕ} (hpls : g.plsPerLun = 1)
    (h : Booked g start count s) (hrange : WpInRange g s.ftl.gcWp)
    (hstart : PointerReady g start.ftl) :
    Meets (HasRoom g start (count + 1)) (TablesAt g start (count + 1))
      (changeLineDA g s.lunlm (wpPage s.ftl.gcWp) (lineMarkValid g)) := by
  have hpage : (wpPage s.ftl.gcWp).blk = s.ftl.gcWp.blk := rfl
  have hshare := h.pointer.dieShare_succ hpls hrange hstart
  have hself := (h.pointer.mem_succ hpls hrange hstart _).mpr (.inl rfl)
  rw [changeLineDA, h.tables, hpage]
  cases hlm : diesBooked g start count (getGlun g (wpPage s.ftl.gcWp)) with
  | none =>
      rw [diesBooked, Option.map_eq_none_iff] at hlm
      intro hroom
      obtain ⟨lm, hset, -⟩ := hroom _ hself
      cases hlm.symm.trans hset
  | some lm =>
      obtain ⟨first, hset, hbooked⟩ := Option.map_eq_some_iff.mp hlm
      have hone := hshare (getGlun g (wpPage s.ftl.gcWp)) s.ftl.gcWp.blk
      rw [if_pos ⟨rfl, rfl⟩] at hone
      have hvpc : lm.vpc s.ftl.gcWp.blk = first.vpc s.ftl.gcWp.blk +
          dieShare g start.ftl count (getGlun g (wpPage s.ftl.gcWp))
            s.ftl.gcWp.blk := by rw [← hbooked]
      dsimp only
      rw [lineMarkValid]
      by_cases hlt : lm.vpc s.ftl.gcWp.blk < g.pgsPerLine
      · rw [nvmevAssert_of hlt]
        refine ⟨diesBooked_succ hshare hlm, fun p hp => ?_⟩
        rw [hshare]
        by_cases hsame : getGlun g (wpPage s.ftl.gcWp) = getGlun g p ∧
            s.ftl.gcWp.blk = p.blk
        · rw [if_pos hsame, ← hsame.1, ← hsame.2]
          exact ⟨first, hset, by omega⟩
        · rw [if_neg hsame]
          rcases (h.pointer.mem_succ hpls hrange hstart p).mp hp with
            rfl | hbefore
          · exact absurd ⟨rfl, rfl⟩ hsame
          · exact h.room p hbefore
      · rw [nvmevAssert_not hlt]
        intro hroom
        obtain ⟨other, hother, hfits⟩ := hroom _ hself
        cases hset.symm.trans hother
        rw [hpage] at hfits
        omega

end

end NvmeVirt.DieRoom
