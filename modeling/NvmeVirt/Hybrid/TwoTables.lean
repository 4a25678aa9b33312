import NvmeVirt.Conv.LineTable
import NvmeVirt.Hybrid.GarbageCollection
import NvmeVirt.Hybrid.Startup

/-!
# The superblock table and the tables of the dies

A page is booked twice, in its superblock and in its block on the die.
Validating and invalidating a page change both tables.  `mark_line_free`
clears the superblock alone, so the tables agree until garbage collection
erases a line.
-/

namespace NvmeVirt.TwoTables

open NvmeVirt.Bookkeeping
open NvmeVirt.Counting
open NvmeVirt.HybridConfig
open NvmeVirt.HybridGc
open NvmeVirt.HybridMapping
open NvmeVirt.HybridStartup
open NvmeVirt.Kernel
open NvmeVirt.Layout
open NvmeVirt.LineTable (lineInvalidated lineInvalidated_columns
  pageInvalidated superblockInvalid_of)
open NvmeVirt.Mapping (ConvParams LineMgmt NandBlock PgStatus WritePointer
  getGlun lineInvalidate lineMarkValid selectVictimLine)
open NvmeVirt.Startup
open NvmeVirt.Superblock
open NvmeVirt.Timing
open NvmeVirt.Transition

variable {h : HybridGeometry}

/-! ## The runs -/

inductive TableAction
  | markValid (p : Ppa)
  | markInvalid (p : Ppa)
  | doGc (force : Bool)

def tableStep (cp : ConvParams) (s : HybridFtl h) :
    TableAction → Except Fault (HybridFtl h)
  | .markValid p => markPageValid s p
  | .markInvalid p => markPageInvalid s p
  | .doGc force => do
      let out ← doGc cp s force
      return out.2

/-- A page is marked when its status allows it. -/
def tableEnabled (s : HybridFtl h) : TableAction → Prop
  | .markValid p => ValidPpa h.toGeometry p ∧ s.ftl.pg p = .free
  | .markInvalid p => ValidPpa h.toGeometry p ∧ s.ftl.pg p = .valid
  | .doGc _ => True

instance (s : HybridFtl h) (action : TableAction) :
    Decidable (tableEnabled s action) := by
  cases action <;> unfold tableEnabled <;> infer_instance

/-- Garbage collection finds no victim. -/
def Quiet (s : HybridFtl h) : TableAction → Prop
  | .doGc force => (selectVictimLine h.toGeometry s.ftl.lm force).1 = none
  | _ => True

/-- Runs from `conv_init_ftl` in which every step satisfies `condition`. -/
def tableMachine (h : HybridGeometry) (cp : ConvParams)
    (condition : HybridFtl h → TableAction → Prop) :
    Machine (HybridFtl h) TableAction Fault where
  init s := ∃ ssd lunlm lunwp, convInitFtl h ssd lunlm lunwp = .ok s
  enabled s action := tableEnabled s action ∧ condition s action
  step := tableStep cp

instance (cp : ConvParams) (condition : HybridFtl h → TableAction → Prop)
    [∀ s action, Decidable (condition s action)] (s : HybridFtl h)
    (action : TableAction) :
    Decidable ((tableMachine h cp condition).enabled s action) :=
  inferInstanceAs (Decidable (_ ∧ _))

/-- How many pages of block `line` on the die `die` have this status. -/
def dieCount (h : HybridGeometry) (pg : Ppa → PgStatus) (die line : ℕ)
    (status : PgStatus) : ℕ :=
  countOn
    ((linePages h.toGeometry line).filter fun p => getGlun h.toGeometry p = die)
    (· = status) pg

/-- The tables of the dies count the pages, and the superblock table sums
them up. -/
structure TablesAgree (s : HybridFtl h) : Prop where
  die_vpc : ∀ die < luncount h, ∀ line < h.blksPerPl,
    (s.lunlm die).vpc line = dieCount h s.ftl.pg die line .valid
  die_ipc : ∀ die < luncount h, ∀ line < h.blksPerPl,
    (s.lunlm die).ipc line = dieCount h s.ftl.pg die line .invalid
  vpc_sum : ∀ line < h.blksPerPl, s.ftl.lm.vpc line =
    ∑ die ∈ Finset.range (luncount h), (s.lunlm die).vpc line
  ipc_sum : ∀ line < h.blksPerPl, s.ftl.lm.ipc line =
    ∑ die ∈ Finset.range (luncount h), (s.lunlm die).ipc line

/-! ## Counting by dies -/

theorem getGlun_lt {p : Ppa} (hch : p.ch < h.nchs) (hlun : p.lun < h.lunsPerCh) :
    getGlun h.toGeometry p < luncount h :=
  MixedRadix.digit_lt hlun hch

theorem lineCount_eq_sum (pg : Ppa → PgStatus) (line : ℕ)
    (status : PgStatus) :
    lineCount h.toGeometry pg line status =
      ∑ die ∈ Finset.range (luncount h), dieCount h pg die line status := by
  apply countOn_eq_sum
  intro p hp
  obtain ⟨hch, hlun, -⟩ := mem_linePages.mp hp
  exact Finset.mem_range.mpr (getGlun_lt hch hlun)

theorem dieCount_le (pg : Ppa → PgStatus) (die line : ℕ) (status : PgStatus) :
    dieCount h pg die line status ≤ lineCount h.toGeometry pg line status := by
  apply Finset.card_le_card
  apply Finset.filter_subset_filter
  exact Finset.filter_subset _ _

theorem dieCount_update_of_ne {pg : Ppa → PgStatus} {p : Ppa} {die line : ℕ}
    (hne : ¬ (getGlun h.toGeometry p = die ∧ p.blk = line))
    (new status : PgStatus) :
    dieCount h (Function.update pg p new) die line status =
      dieCount h pg die line status := by
  apply countOn_update_of_notMem
  intro hmem
  obtain ⟨hline, hdie⟩ := Finset.mem_filter.mp hmem
  exact hne ⟨hdie, (mem_linePages.mp hline).2.2.2.1⟩

theorem mem_diePages {p : Ppa} (hp : ValidPpa h.toGeometry p) :
    p ∈ (linePages h.toGeometry p.blk).filter
      fun q => getGlun h.toGeometry q = getGlun h.toGeometry p :=
  Finset.mem_filter.mpr ⟨mem_linePages_of_valid hp, rfl⟩

theorem dieCount_update {pg : Ppa → PgStatus} {p : Ppa}
    (hp : ValidPpa h.toGeometry p) (new status : PgStatus) :
    dieCount h (Function.update pg p new) (getGlun h.toGeometry p) p.blk
        status +
        (if pg p = status then 1 else 0) =
      dieCount h pg (getGlun h.toGeometry p) p.blk status +
        (if new = status then 1 else 0) :=
  countOn_update new (mem_diePages hp)

/-! ## The steps -/

/-- A line with room in its counters meets the assertions. -/
theorem lineInvalidate_room {lm : LineMgmt} {line : ℕ}
    (hsum : lm.vpc line + lm.ipc line ≤ h.pgsPerLine)
    (hpos : 0 < lm.vpc line) :
    lineInvalidate h.toGeometry lm line =
      .ok (lineInvalidated h.toGeometry lm line) :=
  LineTable.lineInvalidate_of ⟨hpos, by omega, by omega, by omega⟩

/-- What holds along a run: both tables, and the blocks, count the pages. -/
structure TableInv (s : HybridFtl h) : Prop where
  die_vpc : ∀ die < luncount h, ∀ line,
    (s.lunlm die).vpc line = dieCount h s.ftl.pg die line .valid
  die_ipc : ∀ die < luncount h, ∀ line,
    (s.lunlm die).ipc line = dieCount h s.ftl.pg die line .invalid
  lineCounted : ∀ line, LineCounted h.toGeometry s.ftl line
  blkCounted : ∀ b, BlkCounted h.toGeometry s.ftl b

theorem TableInv.agree {s : HybridFtl h} (hinv : TableInv s) :
    TablesAgree s where
  die_vpc die hdie line _ := hinv.die_vpc die hdie line
  die_ipc die hdie line _ := hinv.die_ipc die hdie line
  vpc_sum line _ := by
    rw [(hinv.lineCounted line).vpc_eq, lineCount_eq_sum]
    apply Finset.sum_congr rfl
    intro die hdie
    exact (hinv.die_vpc die (Finset.mem_range.mp hdie) line).symm
  ipc_sum line _ := by
    rw [(hinv.lineCounted line).ipc_eq, lineCount_eq_sum]
    apply Finset.sum_congr rfl
    intro die hdie
    exact (hinv.die_ipc die (Finset.mem_range.mp hdie) line).symm

/-- Booking a page in the table of its die: `column` is the counter of the
pages with the status `status`. -/
theorem die_booked {s s' : HybridFtl h} {p : Ppa}
    (hp : ValidPpa h.toGeometry p) {new status : PgStatus} {lm : LineMgmt}
    (hpg : s'.ftl.pg = Function.update s.ftl.pg p new)
    (hlunlm : s'.lunlm = Function.update s.lunlm (getGlun h.toGeometry p) lm)
    (column : LineMgmt → ℕ → ℕ) (value : ℕ)
    (hcolumn : column lm =
      Function.update (column (s.lunlm (getGlun h.toGeometry p))) p.blk value)
    (hvalue : value + (if s.ftl.pg p = status then 1 else 0) =
      column (s.lunlm (getGlun h.toGeometry p)) p.blk +
        (if new = status then 1 else 0))
    (hcounted : ∀ die < luncount h, ∀ line,
      column (s.lunlm die) line = dieCount h s.ftl.pg die line status) :
    ∀ die < luncount h, ∀ line,
      column (s'.lunlm die) line = dieCount h s'.ftl.pg die line status := by
  intro die hdie line
  rw [hpg, hlunlm]
  by_cases heq : die = getGlun h.toGeometry p
  · subst heq
    rw [Function.update_self, hcolumn]
    by_cases hline : line = p.blk
    · subst hline
      have hcount := @dieCount_update h s.ftl.pg p hp new status
      rw [Function.update_self]
      rw [hcounted _ hdie p.blk] at hvalue
      omega
    · rw [Function.update_of_ne hline, hcounted _ hdie line,
        dieCount_update_of_ne fun hboth => hline hboth.2.symm]
  · rw [Function.update_of_ne heq, hcounted die hdie line,
      dieCount_update_of_ne fun hboth => heq hboth.1.symm]

theorem TableInv.die_lt {s : HybridFtl h} (hinv : TableInv s)
    (hpls : h.plsPerLun = 1) {p : Ppa} (hp : ValidPpa h.toGeometry p) :
    (s.lunlm (getGlun h.toGeometry p)).vpc p.blk +
      (s.lunlm (getGlun h.toGeometry p)).ipc p.blk ≤ h.pgsPerLine := by
  have hdie := getGlun_lt hp.1 hp.2.1
  rw [hinv.die_vpc _ hdie, hinv.die_ipc _ hdie]
  exact (Nat.add_le_add (dieCount_le _ _ _ _) (dieCount_le _ _ _ _)).trans
    (lineCount_add_le hpls s.ftl.pg p.blk)

theorem TableInv.markValid {s : HybridFtl h} (hinv : TableInv s)
    (hpls : h.plsPerLun = 1) {p : Ppa} (hp : ValidPpa h.toGeometry p)
    (hfree : s.ftl.pg p = .free) :
    ∃ s', markPageValid s p = .ok s' ∧ TableInv s' := by
  have hdie := getGlun_lt hp.1 hp.2.1
  have hroom : (s.lunlm (getGlun h.toGeometry p)).vpc p.blk < h.pgsPerLine := by
    rw [hinv.die_vpc _ hdie]
    exact (dieCount_le _ _ _ _).trans_lt
      (lineCount_lt hpls (mem_linePages_of_valid hp) (by simp [hfree]))
  rw [markPageValid, superblockValid_of hpls hp hfree (hinv.lineCounted _)
    (hinv.blkCounted _), ok_bind, lineMarkValid, nvmevAssert_of hroom, ok_bind]
  refine ⟨_, rfl, ?_, ?_, fun line => (hinv.lineCounted line).pageValidated hp
    hfree, fun b => (hinv.blkCounted b).pageValidated hp hfree⟩
  · exact die_booked hp rfl rfl LineMgmt.vpc _ rfl (by simp [hfree])
      hinv.die_vpc
  · refine die_booked hp rfl rfl LineMgmt.ipc
      ((s.lunlm (getGlun h.toGeometry p)).ipc p.blk) ?_ (by simp [hfree])
      hinv.die_ipc
    exact (Function.update_eq_self _ _).symm

theorem TableInv.markInvalid {s : HybridFtl h} (hinv : TableInv s)
    (hpls : h.plsPerLun = 1) {p : Ppa} (hp : ValidPpa h.toGeometry p)
    (hvalid : s.ftl.pg p = .valid) :
    ∃ s', markPageInvalid s p = .ok s' ∧ TableInv s' := by
  have hdie := getGlun_lt hp.1 hp.2.1
  have hdiePos : 0 < (s.lunlm (getGlun h.toGeometry p)).vpc p.blk := by
    rw [hinv.die_vpc _ hdie]
    exact countOn_pos (mem_diePages hp) hvalid
  obtain ⟨hvpc, hipc⟩ := @lineInvalidated_columns h.toGeometry
    (s.lunlm (getGlun h.toGeometry p)) p.blk
  rw [markPageInvalid, superblockInvalid_of hpls hp hvalid
    (hinv.lineCounted _) (hinv.blkCounted _), ok_bind,
    lineInvalidate_room (hinv.die_lt hpls hp) hdiePos, ok_bind]
  refine ⟨_, rfl, ?_, ?_, fun line => LineTable.LineCounted.pageInvalidated hp
    hvalid (hinv.lineCounted line), fun b =>
      LineTable.BlkCounted.pageInvalidated hp hvalid (hinv.blkCounted b)⟩
  · exact die_booked hp rfl rfl LineMgmt.vpc _ hvpc
      (by simp [hvalid]; omega) hinv.die_vpc
  · exact die_booked hp rfl rfl LineMgmt.ipc _ hipc (by simp [hvalid])
      hinv.die_ipc

theorem doGc_quiet {cp : ConvParams} {s : HybridFtl h} {force : Bool}
    (hquiet : (selectVictimLine h.toGeometry s.ftl.lm force).1 = none) :
    doGc cp s force = .ok (-1, s) := by
  rw [doGc]
  split
  · rfl
  next victim lm hselect =>
    rw [hselect] at hquiet
    cases hquiet

theorem TableInv.fresh (ssd : Ssd) (lunlm : ℕ → LineMgmt)
    (lunwp : ℕ → WritePointer) :
    TableInv (freshHybrid h ssd lunlm lunwp) := by
  have hdie : ∀ die line status, status ≠ PgStatus.free →
      0 = dieCount h (fun _ => .free) die line status := by
    intro die line status hstatus
    exact (countOn_eq_zero fun _ _ heq => hstatus heq.symm).symm
  refine ⟨fun die hlt line => ?_, fun die hlt line => ?_,
    freshFtl_lineCounted, freshFtl_blkCounted⟩
  · rw [freshHybrid_lunlm ssd lunlm lunwp hlt]
    exact hdie die line .valid (by decide)
  · rw [freshHybrid_lunlm ssd lunlm lunwp hlt]
    exact hdie die line .invalid (by decide)

/-- The runs in which garbage collection finds no victim keep the tables. -/
theorem tableInv_inductive (cp : ConvParams) :
    Inductive (tableMachine h cp Quiet)
      (fun s => h.plsPerLun = 1 ∧ TableInv s) where
  init s := by
    rintro ⟨ssd, lunlm, lunwp, hinit⟩
    obtain ⟨hinitialisable, rfl⟩ := of_convInitFtl hinit
    exact ⟨hinitialisable.1, TableInv.fresh ssd lunlm lunwp⟩
  step s action := by
    rintro ⟨hpls, hinv⟩ ⟨henabled, hquiet⟩
    cases action with
    | markValid p =>
        obtain ⟨s', hrun, hinv'⟩ := hinv.markValid hpls henabled.1 henabled.2
        exact ⟨s', hrun, hpls, hinv'⟩
    | markInvalid p =>
        obtain ⟨s', hrun, hinv'⟩ := hinv.markInvalid hpls henabled.1 henabled.2
        exact ⟨s', hrun, hpls, hinv'⟩
    | doGc force =>
        have hrun : tableStep cp s (.doGc force) = .ok s := by
          rw [tableStep, doGc_quiet hquiet]
          rfl
        exact ⟨s, hrun, hpls, hinv⟩

/-- In every state of a run in which garbage collection finds no victim, the
two tables agree, and a page whose status allows it is marked without a
failing assertion. -/
theorem tablesAgree_of_quiet (cp : ConvParams) {s : HybridFtl h}
    (hreach : Reachable (tableMachine h cp Quiet) s) :
    TablesAgree s ∧ ∀ action, tableEnabled s action → Quiet s action →
      ∃ s', tableStep cp s action = .ok s' :=
  ⟨((tableInv_inductive cp).reachable hreach).2.agree,
    fun _ henabled hquiet =>
      (tableInv_inductive cp).progress hreach ⟨henabled, hquiet⟩⟩

/-! ## A line that is erased -/

/-- Three lines of one page in every block. -/
def shortDevice : HybridGeometry :=
  hybridDevice ⟨2, two_lt_bits⟩ ⟨0, zero_lt_bits⟩

/-- The short device after `conv_init_ftl`, over memory that was all zeros. -/
def shortStart : HybridFtl shortDevice :=
  freshHybrid shortDevice (idleSsd ⟨2, two_lt_bits⟩ ⟨0, zero_lt_bits⟩)
    (fun _ => freshLines shortDevice.toGeometry) (fun _ => zeroWp)

theorem shortDevice_init :
    convInitFtl shortDevice (idleSsd ⟨2, two_lt_bits⟩ ⟨0, zero_lt_bits⟩)
        (fun _ => freshLines shortDevice.toGeometry) (fun _ => zeroWp) =
      .ok shortStart :=
  convInitFtl_eq ⟨rfl, Nat.le_add_left 2 1⟩ _ _ _

/-- The pages of the line 2, die by die. -/
def lineTwo : List Ppa :=
  (List.range 16).map fun die =>
    { ch := die % 8, lun := die / 8, pl := 0, blk := 2, pg := 0 }

instance (s : HybridFtl shortDevice) (action : TableAction) :
    Decidable (Quiet s action) := by
  cases action <;> unfold Quiet <;> infer_instance

/-- Every page of the line is written, three of them are overwritten, and a
collection finds no line worth it. -/
def markLineTwo : List TableAction :=
  lineTwo.map .markValid ++ (lineTwo.take 3).map .markInvalid ++ [.doGc false]

theorem tablesAgree_shortDevice :
    ∃ s, Reachable (tableMachine shortDevice convInitParams Quiet) s ∧
      (s.ftl.lm.ipc 2, s.ftl.lm.vpc 2, (s.lunlm 0).ipc 2,
        (s.lunlm 0).vpc 2) = (3, 13, 1, 0) ∧
      TablesAgree s ∧
      ∀ action, tableEnabled s action → Quiet s action →
        ∃ s', tableStep convInitParams s action = .ok s' := by
  have hrun : ((tableMachine shortDevice convInitParams Quiet).run markLineTwo
      shortStart).map (fun s => (s.ftl.lm.ipc 2, s.ftl.lm.vpc 2,
        (s.lunlm 0).ipc 2, (s.lunlm 0).vpc 2)) = some (3, 13, 1, 0) := by
    decide +kernel
  obtain ⟨s, hstate, hvalues⟩ := Option.map_eq_some_iff.mp hrun
  have hstart : (tableMachine shortDevice convInitParams Quiet).init
      shortStart := ⟨_, _, _, shortDevice_init⟩
  have hreach := (Reachable.start hstart).run hstate
  exact ⟨s, hreach, hvalues, tablesAgree_of_quiet convInitParams hreach⟩

/-- Every page of the line is written and overwritten, and the line is
collected. -/
def eraseLineTwo : List TableAction :=
  lineTwo.map .markValid ++ lineTwo.map .markInvalid ++ [.doGc false]

theorem eraseLineTwo_ipc :
    ((tableMachine shortDevice convInitParams fun _ _ => True).run eraseLineTwo
        shortStart).map (fun s => (s.ftl.lm.ipc 2, (s.lunlm 0).ipc 2)) =
      some (0, 1) := by decide +kernel

/-- After the collection the superblock counts no invalid page and the die
still counts one. -/
theorem eraseLineTwo_disagrees :
    ∃ s, Reachable (tableMachine shortDevice convInitParams fun _ _ => True) s ∧
      ¬ TablesAgree s := by
  obtain ⟨s, hrun, hipc⟩ := Option.map_eq_some_iff.mp eraseLineTwo_ipc
  have hstart : (tableMachine shortDevice convInitParams
      fun _ _ => True).init shortStart := ⟨_, _, _, shortDevice_init⟩
  refine ⟨s, (Reachable.start hstart).run hrun, fun hagree => ?_⟩
  have hsum := hagree.ipc_sum 2 (by decide)
  have hdie := Finset.add_sum_erase (Finset.range (luncount shortDevice))
    (fun die => (s.lunlm die).ipc 2)
    (Finset.mem_range.mpr (by decide : 0 < luncount shortDevice))
  rw [Prod.mk.injEq] at hipc
  rw [← hsum] at hdie
  omega

end NvmeVirt.TwoTables
