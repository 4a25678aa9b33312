import NvmeVirt.Conv.Partitions
import NvmeVirt.Core.Batches
import NvmeVirt.Core.Ring
import Mathlib.Order.Interval.Finset.Nat

/-!
# The flash pages of a read

`conv_read` walks the logical pages of a command partition by partition.  It
adds up pages that lie on one flash page, and reads them with one NAND command
as soon as a page of another flash page follows, or the partition ends.
-/

namespace NvmeVirt.ReadMerge

open NvmeVirt.Batches
open NvmeVirt.Kernel
open NvmeVirt.Layout
open NvmeVirt.Mapping
open NvmeVirt.Partitions
open NvmeVirt.Ring
open NvmeVirt.Startup
open NvmeVirt.Timing
open NvmeVirt.Transition
open NvmeVirt.Write

/-! ## The accesses to the table -/

section

variable (g : Geometry) (lat : ReadLatency) (nrParts : ℕ)

/-- `get_maptbl_ent`; `maptbl` has `tt_pgs` entries. -/
def getMaptblEnt (s : Ftl) (lpn : ℕ) : Except Fault (Option Ppa) :=
  if lpn < g.ttPgs then .ok (s.maptbl lpn) else .error .outOfBounds

/-- `readPage`, with the access checked. -/
def readPageAt (s : Ftl) (stime : ℕ) (loop : ReadLoop) (lpn : ℕ) :
    Except Fault ReadLoop := do
  let curPpa ← getMaptblEnt g s (lpn / nrParts)
  .ok (readPage g nrParts (fun _ => curPpa) stime loop lpn)

/-- `readPart`, with the accesses checked. -/
def readPartAt (stime endLpn : ℕ)
    (state : ConvNs × ℕ × List (ℕ × Option Ppa)) (startLpn : ℕ) :
    Except Fault (ConvNs × ℕ × List (ℕ × Option Ppa)) := do
  let (s, nsecsLatest, consulted) := state
  let i := startLpn % nrParts
  let prevPpa ← getMaptblEnt g (s.ftls i) (startLpn / nrParts)
  let loop ← (partLpns nrParts endLpn startLpn).foldlM
    (readPageAt g nrParts (s.ftls i) stime)
    { ssd := s.ssds i, nsecsLatest := nsecsLatest, xferSize := 0,
      prevPpa := prevPpa, consulted := consulted }
  let loop := issueRead g stime loop
  .ok (s.setSsd i loop.ssd, loop.nsecsLatest, loop.consulted)

/-- `conv_read`, with the accesses to `maptbl` checked. -/
def convReadAt (s : ConvNs) (nsecsStart : ℕ) (cmd : RwCommand) :
    Except Fault (Option (ReadResult × ConvNs)) :=
  let nrLba := cmd.length + 1
  let startLpn := cmd.slba / g.secsPerPg
  let endLpn := u64 (cmd.slba + cmd.length) / g.secsPerPg
  if g.ttPgs ≤ endLpn / nrParts then .ok none
  else do
    let stime :=
      if lbaToByte nrLba ≤ 4096 * nrParts then u64 (nsecsStart + lat.fw4kbRdLat)
      else u64 (nsecsStart + lat.fwRdLat)
    let (s, nsecsLatest, consulted) ←
      (List.range' startLpn (min nrParts (endLpn + 1 - startLpn))).foldlM
        (readPartAt g nrParts stime endLpn) (s, nsecsStart, [])
    .ok (some
      ({ nsecsTarget := nsecsLatest, status := 0, consulted := consulted }, s))

end

section

variable {g : Geometry} {lat : ReadLatency} {nrParts : ℕ}

/-- The pages of a partition, and no others, are visited for it. -/
theorem mem_partLpns_iff (hn : 1 ≤ nrParts) {startLpn endLpn lpn : ℕ}
    (hstart : startLpn ≤ endLpn) :
    lpn ∈ partLpns nrParts endLpn startLpn ↔
      startLpn ≤ lpn ∧ lpn ≤ endLpn ∧ lpn % nrParts = startLpn % nrParts := by
  rw [partLpns, List.mem_range']
  constructor
  · rintro ⟨k, hk, rfl⟩
    have hle : nrParts * k ≤ endLpn - startLpn := by
      rw [Nat.mul_comm]
      exact (Nat.le_div_iff_mul_le hn).mp (Nat.le_of_lt_succ hk)
    exact ⟨Nat.le_add_right _ _, by omega, Nat.add_mul_mod_self_left ..⟩
  · rintro ⟨hfirst, hlast, hmod⟩
    obtain ⟨k, hk⟩ : nrParts ∣ lpn - startLpn :=
      (Nat.modEq_iff_dvd' hfirst).mp hmod.symm
    refine ⟨k, ?_, by omega⟩
    rw [Nat.lt_succ_iff, Nat.le_div_iff_mul_le hn, Nat.mul_comm, ← hk]
    omega

theorem readPartAt_eq (hn : 1 ≤ nrParts) {endLpn startLpn : ℕ}
    (hstart : startLpn ≤ endLpn) (hrange : endLpn / nrParts < g.ttPgs)
    (stime : ℕ) (state : ConvNs × ℕ × List (ℕ × Option Ppa)) :
    readPartAt g nrParts stime endLpn state startLpn =
      .ok (readPart g nrParts stime endLpn state startLpn) := by
  have hlookup : ∀ lpn, lpn ≤ endLpn → ∀ s : Ftl,
      getMaptblEnt g s (lpn / nrParts) = .ok (s.maptbl (lpn / nrParts)) :=
    fun lpn hlpn s => if_pos
      (Nat.lt_of_le_of_lt (Nat.div_le_div_right hlpn) hrange)
  have hpages : ∀ (s : Ftl), ∀ lpn ∈ partLpns nrParts endLpn startLpn,
      ∀ loop, readPageAt g nrParts s stime loop lpn =
        .ok (readPage g nrParts s.maptbl stime loop lpn) := by
    intro s lpn hlpn loop
    have hle := ((mem_partLpns_iff hn hstart).mp hlpn).2.1
    rw [readPageAt, hlookup lpn hle]
    rfl
  obtain ⟨s, nsecsLatest, consulted⟩ := state
  rw [readPartAt]
  dsimp only
  rw [hlookup startLpn hstart, ok_bind, foldlM_eq_ok (hpages _), ok_bind]
  rfl

/-- No command makes a read look past the end of a table. -/
theorem convReadAt_eq (lat : ReadLatency) (hn : 1 ≤ nrParts) (s : ConvNs)
    (nsecsStart : ℕ) (cmd : RwCommand) :
    convReadAt g lat nrParts s nsecsStart cmd =
      .ok (convRead g lat nrParts s nsecsStart cmd) := by
  rw [convReadAt, convRead]
  dsimp only
  by_cases hrange : g.ttPgs ≤
      u64 (cmd.slba + cmd.length) / g.secsPerPg / nrParts
  · rw [if_pos hrange, if_pos hrange]
  · rw [if_neg hrange, if_neg hrange, foldlM_eq_ok, ok_bind]
    intro startLpn hstart state
    apply readPartAt_eq hn
    · obtain ⟨hge, hlt⟩ := List.mem_range'_1.mp hstart
      omega
    · exact Nat.lt_of_not_le hrange

end

/-! ## The commands -/

/-- The page of a read lies on the flash page that `entry` gives for `lpn`. -/
def OnFlashPage (g : Geometry) (entry : ℕ → Option Ppa) (srd : NandCmd)
    (lpn : ℕ) : Prop :=
  ∃ ppa prev, entry lpn = some ppa ∧ srd.ppa = some prev ∧
    isSameFlashPage g ppa prev = true

/-- Reads that serve the pages `lpns`. -/
def ReadsServe (g : Geometry) (entry : ℕ → Option Ppa) (reads : List NandCmd)
    (lpns : List ℕ) : Prop :=
  (∀ srd ∈ reads, srd.cmd = .read) ∧
    Served g.pgsz NandCmd.xferSize (OnFlashPage g entry) reads lpns

/-- The pages `group` are added up and not read yet. -/
structure Pending (g : Geometry) (entry : ℕ → Option Ppa) (loop : ReadLoop)
    (group : List ℕ) : Prop where
  xferSize_eq : loop.xferSize = g.pgsz * group.length
  same : ∀ lpn ∈ group, ∃ ppa prev, entry lpn = some ppa ∧
    loop.prevPpa = some prev ∧ isSameFlashPage g ppa prev = true

section

variable {g : Geometry} {lat : ReadLatency} {nrParts : ℕ}
variable {entry : ℕ → Option Ppa}

theorem pgsz_pos (g : Geometry) : 0 < g.pgsz := by
  rw [pgsz_eq_4096]
  decide

theorem readsServe_nil : ReadsServe g entry [] [] :=
  ⟨fun _ h => absurd h List.not_mem_nil, served_nil⟩

theorem ReadsServe.append {reads others : List NandCmd} {lpns rest : List ℕ}
    (h : ReadsServe g entry reads lpns)
    (hrest : ReadsServe g entry others rest) :
    ReadsServe g entry (reads ++ others) (lpns ++ rest) :=
  ⟨List.forall_mem_append.mpr ⟨h.1, hrest.1⟩, h.2.append hrest.2⟩

theorem isSameFlashPage_self (ppa : Ppa) :
    isSameFlashPage g ppa ppa = true := by
  rw [isSameFlashPage, decide_eq_true_iff]
  exact ⟨rfl, rfl⟩

/-- What is left over is read with one command, if anything is. -/
theorem Pending.issueRead {loop : ReadLoop} {group : List ℕ}
    (h : Pending g entry loop group) (stime : ℕ) :
    ∃ reads, (Partitions.issueRead g stime loop).ssd.issued =
        loop.ssd.issued ++ reads ∧
      ReadsServe g entry reads group := by
  rw [Partitions.issueRead]
  by_cases hgroup : group = []
  · have hnone : ¬ 0 < loop.xferSize := by
      rw [h.xferSize_eq, hgroup]
      exact Nat.lt_irrefl 0
    rw [if_neg hnone, hgroup]
    exact ⟨[], (List.append_nil _).symm, readsServe_nil⟩
  · have hsome : 0 < loop.xferSize := by
      rw [h.xferSize_eq]
      exact Nat.mul_pos (pgsz_pos g) (List.length_pos_of_ne_nil hgroup)
    rw [if_pos hsome]
    refine ⟨_, ssdAdvanceNand_issued .., ?_, Serves.served ?_⟩
    · exact List.forall_mem_singleton.mpr rfl
    · exact ⟨hgroup, h.xferSize_eq, h.same⟩

/-- One page is added to those that are pending, or is the first of the next
ones. -/
theorem Pending.readPage {loop : ReadLoop} {group : List ℕ}
    (h : Pending g entry loop group) {maptbl : ℕ → Option Ppa} {lpn : ℕ}
    (hentry : entry lpn = maptbl (lpn / nrParts))
    (hvalid : ∀ ppa, maptbl (lpn / nrParts) = some ppa → ValidPpa g ppa)
    (stime : ℕ) :
    ∃ reads served left,
      (Partitions.readPage g nrParts maptbl stime loop lpn).ssd.issued =
        loop.ssd.issued ++ reads ∧
      ReadsServe g entry reads served ∧
      Pending g entry (Partitions.readPage g nrParts maptbl stime loop lpn)
        left ∧
      served ++ left =
        group ++ [lpn].filter fun lpn => (entry lpn).isSome := by
  rw [Partitions.readPage]
  cases hmap : maptbl (lpn / nrParts) with
  | none =>
      rw [hmap] at hentry
      refine ⟨[], [], group, (List.append_nil _).symm, readsServe_nil,
        ⟨h.xferSize_eq, h.same⟩, ?_⟩
      simp [hentry]
  | some ppa =>
      rw [hmap] at hentry
      have hkept : [lpn].filter (fun lpn => (entry lpn).isSome) = [lpn] := by
        simp [hentry]
      dsimp only
      rw [if_neg (not_not_intro (hvalid ppa hmap)), hkept]
      split_ifs with hsame
      · obtain ⟨prev, hprev, hprevSame⟩ := (Option.any_eq_true ..).mp hsame
        refine ⟨[], [], group ++ [lpn], (List.append_nil _).symm,
          readsServe_nil, ⟨?_, ?_⟩, rfl⟩
        · rw [List.length_append, List.length_singleton, Nat.mul_succ]
          exact congrArg (· + g.pgsz) h.xferSize_eq
        · rw [List.forall_mem_append, List.forall_mem_singleton]
          exact ⟨h.same, ppa, prev, hentry, hprev, hprevSame⟩
      · have hlooked : Pending g entry { loop with
            consulted := loop.consulted ++ [(lpn, some ppa)] } group :=
          ⟨h.xferSize_eq, h.same⟩
        obtain ⟨reads, hissued, hserve⟩ := hlooked.issueRead stime
        refine ⟨reads, group, [lpn], hissued, hserve, ⟨?_, ?_⟩, rfl⟩
        · exact (Nat.mul_one _).symm
        · rw [List.forall_mem_singleton]
          exact ⟨ppa, ppa, hentry, rfl, isSameFlashPage_self ppa⟩

/-- The pages of a partition. -/
theorem Pending.readPages {maptbl : ℕ → Option Ppa} (stime : ℕ)
    (lpns : List ℕ) (hentry : ∀ lpn ∈ lpns, entry lpn = maptbl (lpn / nrParts))
    (hvalid : ∀ lpn ∈ lpns, ∀ ppa, maptbl (lpn / nrParts) = some ppa →
      ValidPpa g ppa) {loop : ReadLoop} {group : List ℕ}
    (h : Pending g entry loop group) :
    ∃ reads,
      (Partitions.issueRead g stime (lpns.foldl
        (Partitions.readPage g nrParts maptbl stime) loop)).ssd.issued =
          loop.ssd.issued ++ reads ∧
      ReadsServe g entry reads
        (group ++ lpns.filter fun lpn => (entry lpn).isSome) := by
  induction lpns generalizing loop group with
  | nil =>
      rw [List.filter_nil, List.append_nil]
      exact h.issueRead stime
  | cons lpn lpns ih =>
      obtain ⟨hfirst, hothers⟩ := List.forall_mem_cons.mp hentry
      obtain ⟨hvalidFirst, hvalidOthers⟩ := List.forall_mem_cons.mp hvalid
      obtain ⟨reads, served, left, hissued, hserve, hpending, hsplit⟩ :=
        h.readPage hfirst hvalidFirst stime
      obtain ⟨more, hmore, hserveMore⟩ := ih hothers hvalidOthers hpending
      refine ⟨reads ++ more, ?_, ?_⟩
      · rw [List.foldl_cons, hmore, hissued, List.append_assoc]
      · have hcons : (lpn :: lpns).filter (fun lpn => (entry lpn).isSome) =
            [lpn].filter (fun lpn => (entry lpn).isSome) ++
              lpns.filter fun lpn => (entry lpn).isSome := by
          rw [← List.filter_append]
          rfl
        rw [hcons, ← List.append_assoc, ← hsplit, List.append_assoc]
        exact hserve.append hserveMore

/-! ## The partitions -/

/-- The mapped pages that a partition visits behind `startLpn`. -/
def mappedLpns (nrParts endLpn : ℕ) (ftls : ℕ → Ftl) (i startLpn : ℕ) :
    List ℕ :=
  if startLpn % nrParts = i then
    (partLpns nrParts endLpn startLpn).filter fun lpn =>
      (readEntry nrParts ftls lpn).isSome
  else []

/-- A partition reads its own pages, and records commands of its own. -/
theorem readPart_issued (hn : 1 ≤ nrParts) {endLpn startLpn : ℕ}
    (hstart : startLpn ≤ endLpn) (hrange : endLpn / nrParts < g.ttPgs)
    {state : ConvNs × ℕ × List (ℕ × Option Ppa)}
    (hvalid : ∀ i lpn ppa, lpn < g.ttPgs →
      (state.1.ftls i).maptbl lpn = some ppa → ValidPpa g ppa)
    (stime i : ℕ) :
    ∃ reads,
      ((readPart g nrParts stime endLpn state startLpn).1.ssds i).issued =
        (state.1.ssds i).issued ++ reads ∧
      ReadsServe g (readEntry nrParts state.1.ftls) reads
        (mappedLpns nrParts endLpn state.1.ftls i startLpn) := by
  obtain ⟨s, nsecsLatest, consulted⟩ := state
  rw [mappedLpns]
  by_cases hpart : startLpn % nrParts = i
  · have hmem : ∀ lpn ∈ partLpns nrParts endLpn startLpn,
        lpn ≤ endLpn ∧ lpn % nrParts = i :=
      fun lpn hlpn => hpart ▸ ((mem_partLpns_iff hn hstart).mp hlpn).2
    have hentry : ∀ lpn ∈ partLpns nrParts endLpn startLpn,
        readEntry nrParts s.ftls lpn = (s.ftls i).maptbl (lpn / nrParts) := by
      intro lpn hlpn
      rw [readEntry, (hmem lpn hlpn).2]
    have hpages : ∀ lpn ∈ partLpns nrParts endLpn startLpn, ∀ ppa,
        (s.ftls i).maptbl (lpn / nrParts) = some ppa → ValidPpa g ppa :=
      fun lpn hlpn ppa => hvalid i _ ppa
        ((Nat.div_le_div_right (hmem lpn hlpn).1).trans_lt hrange)
    have hnone : Pending g (readEntry nrParts s.ftls)
        { ssd := s.ssds i, nsecsLatest := nsecsLatest, xferSize := 0
          prevPpa := (s.ftls i).maptbl (startLpn / nrParts)
          consulted := consulted } [] :=
      ⟨rfl, fun _ h => absurd h List.not_mem_nil⟩
    obtain ⟨reads, hissued, hserve⟩ := hnone.readPages stime _ hentry hpages
    rw [if_pos hpart]
    refine ⟨reads, ?_, hserve⟩
    rw [readPart, hpart, ConvNs.setSsd]
    dsimp only
    rw [if_pos rfl]
    exact hissued
  · rw [if_neg hpart]
    refine ⟨[], ?_, readsServe_nil⟩
    rw [List.append_nil, readPart, ConvNs.setSsd]
    dsimp only
    rw [if_neg fun h => hpart h.symm]

theorem readParts_issued (hn : 1 ≤ nrParts) {endLpn : ℕ} {starts : List ℕ}
    (hstarts : ∀ startLpn ∈ starts, startLpn ≤ endLpn)
    (hrange : endLpn / nrParts < g.ttPgs)
    (state : ConvNs × ℕ × List (ℕ × Option Ppa))
    (hvalid : ∀ i lpn ppa, lpn < g.ttPgs →
      (state.1.ftls i).maptbl lpn = some ppa → ValidPpa g ppa)
    (stime i : ℕ) :
    ∃ reads,
      ((starts.foldl (readPart g nrParts stime endLpn) state).1.ssds i).issued =
        (state.1.ssds i).issued ++ reads ∧
      ReadsServe g (readEntry nrParts state.1.ftls) reads
        (starts.flatMap (mappedLpns nrParts endLpn state.1.ftls i)) := by
  induction starts generalizing state with
  | nil => exact ⟨[], (List.append_nil _).symm, readsServe_nil⟩
  | cons startLpn starts ih =>
      obtain ⟨hfirst, hothers⟩ := List.forall_mem_cons.mp hstarts
      obtain ⟨reads, hissued, hserve⟩ :=
        readPart_issued hn hfirst hrange hvalid stime i
      have hftls : (readPart g nrParts stime endLpn state startLpn).1.ftls =
          state.1.ftls := rfl
      rw [← hftls] at hvalid
      obtain ⟨more, hmore, hserveMore⟩ := ih hothers _ hvalid
      rw [hftls] at hserveMore
      refine ⟨reads ++ more, ?_, ?_⟩
      · rw [List.foldl_cons, hmore, hissued, List.append_assoc]
      · rw [List.flatMap_cons]
        exact hserve.append hserveMore

/-- The starts of the partitions of a read. -/
def partStarts (nrParts startLpn endLpn : ℕ) : List ℕ :=
  List.range' startLpn (min nrParts (endLpn + 1 - startLpn))

theorem partStarts_le {startLpn endLpn : ℕ} :
    ∀ start ∈ partStarts nrParts startLpn endLpn,
      startLpn ≤ start ∧ start ≤ endLpn := by
  intro start hstart
  obtain ⟨hge, hlt⟩ := List.mem_range'_1.mp hstart
  exact ⟨hge, by omega⟩

theorem mem_mappedLpns (hn : 1 ≤ nrParts) {ftls : ℕ → Ftl}
    {i endLpn startLpn lpn : ℕ} (hstart : startLpn ≤ endLpn) :
    lpn ∈ mappedLpns nrParts endLpn ftls i startLpn ↔
      startLpn % nrParts = i ∧ startLpn ≤ lpn ∧ lpn ≤ endLpn ∧
        lpn % nrParts = i ∧ readEntry nrParts ftls lpn ≠ none := by
  rw [mappedLpns]
  split_ifs with hpart
  · rw [List.mem_filter, mem_partLpns_iff hn hstart, hpart,
      Option.isSome_iff_ne_none]
    simp only [true_and, and_assoc]
  · exact iff_of_false List.not_mem_nil fun h => hpart h.1

/-- Together the partitions visit each mapped page of the range once. -/
theorem mem_flatMap_mappedLpns (hn : 1 ≤ nrParts) (ftls : ℕ → Ftl)
    (i startLpn endLpn lpn : ℕ) :
    lpn ∈ (partStarts nrParts startLpn endLpn).flatMap
        (mappedLpns nrParts endLpn ftls i) ↔
      startLpn ≤ lpn ∧ lpn ≤ endLpn ∧ lpn % nrParts = i ∧
        readEntry nrParts ftls lpn ≠ none := by
  rw [List.mem_flatMap]
  constructor
  · rintro ⟨start, hstart, hlpn⟩
    obtain ⟨hge, hle⟩ := partStarts_le start hstart
    obtain ⟨-, hfirst, hrest⟩ := (mem_mappedLpns hn hle).mp hlpn
    exact ⟨hge.trans hfirst, hrest⟩
  · rintro ⟨hfirst, hlast, hpart, hmapped⟩
    obtain ⟨start, hstart, hlpn⟩ :=
      List.mem_flatMap.mp (mem_partLpns hn hfirst hlast)
    have hle := (partStarts_le start hstart).2
    obtain ⟨hge, -, hmod⟩ := (mem_partLpns_iff hn hle).mp hlpn
    refine ⟨start, hstart, (mem_mappedLpns hn hle).mpr ?_⟩
    exact ⟨hmod.symm.trans hpart, hge, hlast, hpart, hmapped⟩

theorem nodup_flatMap_mappedLpns (hn : 1 ≤ nrParts) (ftls : ℕ → Ftl)
    (i startLpn endLpn : ℕ) :
    ((partStarts nrParts startLpn endLpn).flatMap
      (mappedLpns nrParts endLpn ftls i)).Nodup := by
  rw [List.nodup_flatMap]
  constructor
  · intro start _
    rw [mappedLpns]
    split_ifs
    · exact (List.nodup_range' nrParts hn).filter _
    · exact List.nodup_nil
  · -- two starts less than `nr_parts` apart are in different partitions
    rw [partStarts]
    apply List.Pairwise.imp_of_mem _ List.pairwise_lt_range'
    intro left right hleft hright hlt lpn hlpn hlpn'
    have hle := (partStarts_le left hleft).2
    have hle' := (partStarts_le right hright).2
    have hpart := ((mem_mappedLpns hn hle).mp hlpn).1
    have hpart' := ((mem_mappedLpns hn hle').mp hlpn').1
    have hnear := (List.mem_range'_1.mp hright).2
    have hfirst := (List.mem_range'_1.mp hleft).1
    exact mod_ne_of_lt hlt (by omega) (hpart.trans hpart'.symm)

/-- A command covers at most `2 ^ 13 + 1` pages. -/
theorem length_lpns_le {cmd : RwCommand} {lpns : List ℕ} (hnodup : lpns.Nodup)
    (hmem : ∀ lpn ∈ lpns, cmd.slba / g.secsPerPg ≤ lpn ∧
      lpn ≤ u64 (cmd.slba + cmd.length) / g.secsPerPg) :
    lpns.length ≤ 2 ^ 13 + 1 := by
  have hsub : lpns ⊆ List.range' (cmd.slba / g.secsPerPg) (2 ^ 13 + 1) := by
    intro lpn hlpn
    obtain ⟨hfirst, hlast⟩ := hmem lpn hlpn
    have hwrap : u64 (cmd.slba + cmd.length) ≤ cmd.slba + cmd.length :=
      Nat.mod_le _ _
    have hlength := cmd.length_lt
    rw [List.mem_range'_1]
    rw [g.secsPerPg_eq] at hfirst hlast ⊢
    omega
  exact (hnodup.subperm hsub).length_le.trans_eq List.length_range'

/-- No read looks past the end of a table.  The commands that an accepted read
gives to a partition serve the mapped pages of the range in that partition,
each with exactly one command for its flash page, and transfer as many bytes
as those pages have; a transfer size of 32 bits holds them. -/
theorem convRead_serves_mapped (lat : ReadLatency) (hn : 1 ≤ nrParts)
    (s : ConvNs)
    (hvalid : ∀ i lpn ppa, lpn < g.ttPgs →
      (s.ftls i).maptbl lpn = some ppa → ValidPpa g ppa)
    (nsecsStart : ℕ) (cmd : RwCommand) :
    convReadAt g lat nrParts s nsecsStart cmd =
        .ok (convRead g lat nrParts s nsecsStart cmd) ∧
      ∀ out s', convRead g lat nrParts s nsecsStart cmd = some (out, s') →
        ∀ i, ∃ reads lpns,
          (s'.ssds i).issued = (s.ssds i).issued ++ reads ∧
          (∀ srd ∈ reads, srd.cmd = .read) ∧
          Served g.pgsz NandCmd.xferSize
            (OnFlashPage g (readEntry nrParts s.ftls)) reads lpns ∧
          lpns.Nodup ∧
          (∀ lpn, lpn ∈ lpns ↔ cmd.slba / g.secsPerPg ≤ lpn ∧
            lpn ≤ u64 (cmd.slba + cmd.length) / g.secsPerPg ∧
            lpn % nrParts = i ∧ readEntry nrParts s.ftls lpn ≠ none) ∧
          (reads.map NandCmd.xferSize).sum = g.pgsz * lpns.length ∧
          g.pgsz * lpns.length < 2 ^ 32 := by
  refine ⟨convReadAt_eq lat hn s nsecsStart cmd, fun out s' hread i => ?_⟩
  obtain ⟨hrange, stime, hloop⟩ := convRead_eq_some hread
  obtain ⟨reads, hissued, hreads, hserved⟩ := readParts_issued hn
    (fun start hstart => (partStarts_le start hstart).2) hrange
    (s, nsecsStart, []) hvalid stime i
  rw [partStarts, hloop] at hissued
  have hmem := mem_flatMap_mappedLpns hn s.ftls i (cmd.slba / g.secsPerPg)
    (u64 (cmd.slba + cmd.length) / g.secsPerPg)
  have hnodup := nodup_flatMap_mappedLpns hn s.ftls i
    (cmd.slba / g.secsPerPg) (u64 (cmd.slba + cmd.length) / g.secsPerPg)
  have hlength := length_lpns_le hnodup fun lpn hlpn =>
    ⟨((hmem lpn).mp hlpn).1, ((hmem lpn).mp hlpn).2.1⟩
  refine ⟨reads, _, hissued, hreads, hserved, hnodup, hmem,
    hserved.sum_size, ?_⟩
  rw [pgsz_eq_4096]
  exact (Nat.mul_le_mul_left 4096 hlength).trans_lt (by decide)

/-- Two instances, each of which maps its page `0` and no other. -/
def holedNs : ConvNs where
  ftls _ :=
    { freshFtl twoPageLines with
      maptbl := Function.update (fun _ => none) 0
        (some ⟨⟨0, 0, 0, 0⟩, 0⟩) }
  ssds _ := twoPageSsd
  lunlms _ _ := none

theorem holedNs_valid : ∀ i lpn ppa, lpn < twoPageLines.ttPgs →
    (holedNs.ftls i).maptbl lpn = some ppa → ValidPpa twoPageLines ppa := by
  intro i lpn ppa _ hmap
  have hfirst : (holedNs.ftls i).maptbl lpn =
      if lpn = 0 then some ⟨⟨0, 0, 0, 0⟩, 0⟩ else none := by
    rw [holedNs]
    dsimp only
    rw [Function.update_apply]
  rw [hfirst] at hmap
  split_ifs at hmap
  cases hmap
  decide

theorem twentyThree_lt : 23 < 2 ^ 16 := by decide

/-- A read of three pages, the last of which is not mapped. -/
theorem convRead_serves_mapped_holes :
    ∃ out s', convRead twoPageLines ⟨0, 0⟩ 2 holedNs 0
        ⟨0, 23, twentyThree_lt⟩ = some (out, s') ∧
      ∃ (reads : List NandCmd) (lpns : List ℕ),
        (s'.ssds 0).issued = twoPageSsd.issued ++ reads ∧
        (∀ lpn, lpn ∈ lpns ↔ 0 / twoPageLines.secsPerPg ≤ lpn ∧
          lpn ≤ u64 (0 + 23) / twoPageLines.secsPerPg ∧ lpn % 2 = 0 ∧
          readEntry 2 holedNs.ftls lpn ≠ none) ∧
        (reads.map NandCmd.xferSize).sum =
          twoPageLines.pgsz * lpns.length := by
  have haccepted : (convRead twoPageLines ⟨0, 0⟩ 2 holedNs 0
      ⟨0, 23, twentyThree_lt⟩).isSome = true := by
    rw [convRead]
    dsimp only
    rw [if_neg (by decide)]
    rfl
  obtain ⟨⟨out, s'⟩, hread⟩ := Option.isSome_iff_exists.mp haccepted
  obtain ⟨reads, lpns, hissued, -, -, -, hmem, hsum, -⟩ :=
    (convRead_serves_mapped ⟨0, 0⟩ (by decide) holedNs holedNs_valid 0
      ⟨0, 23, twentyThree_lt⟩).2 out s' hread 0
  exact ⟨out, s', hread, reads, lpns, hissued, hmem, hsum⟩

end

end NvmeVirt.ReadMerge
