import NvmeVirt.Zns.OneshotPages

/-!
# Filling a zone

An empty zone without a random write area is filled by sequential writes and
appends, split in any way.  A page that two writes share is walked by both, and
when it is the last page of a oneshot page, or of the zone, either write
programs the oneshot page and releases its bytes.  So a zone is programmed once
exactly when no write starts inside such a page.
-/

namespace NvmeVirt.Filling

open NvmeVirt.Commands
open NvmeVirt.Kernel
open NvmeVirt.Layout
open NvmeVirt.MgmtSend
open NvmeVirt.OneshotPages
open NvmeVirt.ReadWrite
open NvmeVirt.Resources
open NvmeVirt.Timing
open NvmeVirt.Transition
open NvmeVirt.WriteCases
open NvmeVirt.WritePointers
open NvmeVirt.ZoneMoves
open NvmeVirt.Zones

/-- A run in which the accepted writes `reqs` go to the zone `zid`, which was
empty, with the outcomes `outcomes`.  In between the run may do anything that
leaves the write pointer of the zone. -/
inductive Fill (ns : ZnsNamespace) (zid : ℕ) :
    List RwRequest → List WriteOutcome → ZnsState → Prop
  | empty {state : ZnsState} (hreach : Reachable (znsMachine ns) state)
      (hzid : zid < ns.zp.nrZones)
      (hempty : (state.ftl.zoneDescs zid).state = .empty)
      (hzrwav : (state.ftl.zoneDescs zid).zrwav = false) :
      Fill ns zid [] [] state
  | other {reqs : List RwRequest} {outcomes : List WriteOutcome}
      {state state' : ZnsState} {action : ZnsAction}
      (hfill : Fill ns zid reqs outcomes state)
      (henabled : (znsMachine ns).enabled state action)
      (hstep : znsStep ns state action = .ok state')
      (hwp : (state'.ftl.zoneDescs zid).wp = (state.ftl.zoneDescs zid).wp)
      (hzrwav : (state'.ftl.zoneDescs zid).zrwav = false) :
      Fill ns zid reqs outcomes state'
  | write {reqs : List RwRequest} {outcomes : List WriteOutcome}
      {state : ZnsState} {req : RwRequest} {ret : NvmevResult}
      {outcome : WriteOutcome} {ftl : ZnsFtl}
      (hfill : Fill ns zid reqs outcomes state)
      (hroom : (state.ftl.zoneDescs zid).wp <
        (state.ftl.zoneDescs zid).zslba +
          (state.ftl.zoneDescs zid).zoneCapacity)
      (hzone : lbaToZone ns req.slba = zid)
      (hrun : znsWrite ns state.ftl req ret = .ok (outcome, ftl))
      (haccepted : outcome.accepted = true)
      (hstatus : outcome.ret.status = scSuccess) :
      Fill ns zid (reqs ++ [req]) (outcomes ++ [outcome])
        { ftl := ftl, pending := state.pending ++ outcome.writebacks }

/-- The oneshot page of a page of the zone, as `__lpn_to_ppa` counts them. -/
def oneshotOf (ns : ZnsNamespace) (zid lpn : ℕ) : ℕ :=
  (lpn - zoneToSlpn ns zid) / ns.pgsPerOneshotpg

/-- Every oneshot page of the zone is programmed once. -/
def ProgrammedOnce (ns : ZnsNamespace) (zid : ℕ)
    (outcomes : List WriteOutcome) : Prop :=
  ∀ page < pgsPerZone ns,
    (outcomes.flatMap WriteOutcome.programmed).countP (fun lpn =>
      oneshotOf ns zid lpn = oneshotOf ns zid (zid * pgsPerZone ns + page)) = 1

/-- The last page of a oneshot page or of the zone. -/
def ClosingPage (ns : ZnsNamespace) (zid lpn : ℕ) : Prop :=
  ns.pgsPerOneshotpg ∣ lpn - zoneToSlpn ns zid + 1 ∨
    lpn + 1 = zid * pgsPerZone ns + pgsPerZone ns

/-- Either `zone_to_elpn` finds the end of the zone, or the zone is made of
whole oneshot pages. -/
def EndsClosed (ns : ZnsNamespace) (zid : ℕ) : Prop :=
  LowZone ns zid ∨ ns.pgsPerOneshotpg ∣ pgsPerZone ns ∧
    ns.pgsPerOneshotpg ∣ zid * pgsPerZone ns - zoneToSlpn ns zid

/-! ## One write -/

section

variable {ns : ZnsNamespace} {zid : ℕ}

/-- Where a zone starts and how long it is. -/
structure Sited (ns : ZnsNamespace) (zid : ℕ) (desc : ZoneDescriptor) :
    Prop where
  zslba_eq : desc.zslba = zid * lbasPerZone ns
  capacity_eq : desc.zoneCapacity = lbasPerZone ns
  of_empty : desc.state = .empty → desc.wp = desc.zslba

theorem Sited.movedTo {desc : ZoneDescriptor} (h : Sited ns zid desc)
    (hactive : isActive desc.state = true) (wp : ℕ) :
    Sited ns zid (movedTo ns zid desc wp) := by
  refine ⟨h.zslba_eq, h.capacity_eq, fun hempty => ?_⟩
  rw [ZoneMoves.movedTo] at hempty
  dsimp only at hempty
  split_ifs at hempty
  rw [hempty] at hactive
  cases hactive

theorem Sited.move {desc desc' : ZoneDescriptor} (h : Sited ns zid desc)
    (hmove : ZoneMove ns zid desc desc') : Sited ns zid desc' := by
  have hopen : ∀ state zrwav, isOpened state = true →
      Sited ns zid { desc with state := state, zrwav := zrwav } := by
    intro state zrwav hopened
    refine ⟨h.zslba_eq, h.capacity_eq, ?_⟩
    rintro rfl
    cases hopened
  cases hmove with
  | stay => exact h
  | close | finish | offline =>
      exact ⟨h.zslba_eq, h.capacity_eq, fun hempty => by cases hempty⟩
  | openEmpty state zrwav hempty hopened => exact hopen state zrwav hopened
  | openActive state hactive hopened => exact hopen state desc.zrwav hopened
  | reset => exact ⟨h.zslba_eq, h.capacity_eq, fun _ => rfl⟩
  | flush slba hactive => exact h.movedTo hactive _
  | write nrLba hopened => exact h.movedTo (isActive_of_isOpened hopened) _
  | writeZrwa slba nrLba nrLbas hopened =>
      exact h.movedTo (isActive_of_isOpened hopened) _

theorem reachable_sited {state : ZnsState}
    (hreach : Reachable (znsMachine ns) state) :
    ∀ zid < ns.zp.nrZones, Sited ns zid (state.ftl.zoneDescs zid) := by
  apply reachable_zones (Sited ns) _ (fun _ _ _ _ h => h.move) hreach
  intro zid _
  have hplaced := @initDescriptor_placed ns zid
  exact ⟨hplaced.zslba_eq, hplaced.capacity_eq, fun _ => rfl⟩

/-- What an accepted write to a zone without a random write area does. -/
theorem znsWrite_accepted {s s' : ZnsFtl} {req : RwRequest}
    {ret : NvmevResult} {outcome : WriteOutcome}
    (hrun : znsWrite ns s req ret = .ok (outcome, s'))
    (hzone : lbaToZone ns req.slba = zid)
    (hzrwav : (s.zoneDescs zid).zrwav = false)
    (haccepted : outcome.accepted = true)
    (hstatus : outcome.ret.status = scSuccess) :
    outcome.slba = (s.zoneDescs zid).wp ∧
      checkBoundaryError ns (s.zoneDescs zid).wp req.nrLba = true ∧
      (s'.zoneDescs zid).wp = u64 ((s.zoneDescs zid).wp + u32 req.nrLba) ∧
      (s'.zoneDescs zid).zrwav = false ∧
      ∃ ssd, outcome.programmed =
          (writePages ns ssd req zid (s.zoneDescs zid).wp).2.programmed ∧
        outcome.writebacks =
          (writePages ns ssd req zid (s.zoneDescs zid).wp).2.writebacks := by
  obtain ⟨-, ⟨-, hrun⟩ | ⟨hzrwa, -⟩⟩ := znsWrite_cases hrun
  swap
  · rw [hzone, hzrwav] at hzrwa
    cases hzrwa
  obtain ⟨-, hcase⟩ := znsWriteZone_cases hrun
  rw [hzone] at hcase
  cases hcase with
  | retry => cases haccepted
  | refused hroom hcheck => exact absurd hstatus hcheck
  | unopened hroom hcheck hopen hne => exact absurd hstatus hne
  | @written s₁ xfer p hroom hcheck hopen hpages =>
      obtain ⟨-, hboundary, hwp⟩ := of_znsWriteCheck hcheck
      obtain ⟨⟨state, -, hdesc'⟩, -, -⟩ := znsWriteOpen_success hopen
      rw [takeBytes_zoneDescs] at hdesc'
      have hafter := congrFun (@increaseWritePtr_zoneDescs ns s₁
        zid req.nrLba) zid
      rw [Function.update_self, hdesc'] at hafter
      rw [hwp] at hboundary hpages
      refine ⟨hwp, hboundary, congrArg ZoneDescriptor.wp hafter,
        (congrArg ZoneDescriptor.zrwav hafter).trans hzrwav,
        (increaseWritePtr ns s₁ zid req.nrLba).ssd, ?_, ?_⟩
      · rw [hpages]
        rfl
      · rw [hpages]
        rfl

/-! ## Which oneshot pages a write programs -/

/-- The offset behind the last page of the zone. -/
def zoneStop (ns : ZnsNamespace) (zid : ℕ) : ℕ :=
  zid * pgsPerZone ns + pgsPerZone ns - zoneToSlpn ns zid

/-- The offset behind the last page of a oneshot page that has to be written
for the oneshot page to be programmed. -/
def closingStop (ns : ZnsNamespace) (zid oneshot : ℕ) : ℕ :=
  if LowZone ns zid then min ((oneshot + 1) * ns.pgsPerOneshotpg) (pgsPerZone ns)
  else (oneshot + 1) * ns.pgsPerOneshotpg

theorem zoneStop_of_low (h : LowZone ns zid) :
    zoneStop ns zid = pgsPerZone ns := by
  rw [zoneStop, h.zoneToSlpn_eq]
  exact Nat.add_sub_cancel_left _ _

theorem lt_closedOneshots_iff {oneshot stop : ℕ}
    (honeshot : oneshot * ns.pgsPerOneshotpg < zoneStop ns zid)
    (hstop : stop ≤ zoneStop ns zid) :
    oneshot < closedOneshots ns zid stop ↔ closingStop ns zid oneshot ≤ stop := by
  have hdiv : oneshot < stop / ns.pgsPerOneshotpg ↔
      (oneshot + 1) * ns.pgsPerOneshotpg ≤ stop :=
    Nat.le_div_iff_mul_le ns.pgsPerOneshotpg_pos
  rw [closedOneshots, closingStop]
  by_cases hlow : LowZone ns zid
  swap
  · rw [if_neg fun h : CutAt ns zid stop => hlow h.1, if_neg hlow, Nat.add_zero,
      hdiv]
  rw [zoneStop_of_low hlow] at *
  rw [if_pos hlow, min_le_iff]
  by_cases hend : stop = pgsPerZone ns
  swap
  · rw [if_neg fun h : CutAt ns zid stop => hend h.2.1, Nat.add_zero, hdiv]
    omega
  constructor
  · exact fun _ => Or.inr hend.ge
  · intro _
    by_cases hdvd : ns.pgsPerOneshotpg ∣ stop
    · rw [if_neg fun h : CutAt ns zid stop => h.2.2 hdvd, Nat.add_zero,
        Nat.lt_div_iff_mul_lt_of_dvd ns.pgsPerOneshotpg_pos.ne' hdvd]
      omega
    · rw [if_pos ⟨hlow, hend, hdvd⟩, Nat.lt_succ_iff,
        Nat.le_div_iff_mul_le ns.pgsPerOneshotpg_pos]
      omega

theorem startOffset_le_iff {oneshot start : ℕ} (hstart : start < zoneStop ns zid) :
    start / ns.pgsPerOneshotpg ≤ oneshot ↔ start < closingStop ns zid oneshot := by
  rw [← Nat.lt_succ_iff, Nat.div_lt_iff_lt_mul ns.pgsPerOneshotpg_pos,
    closingStop]
  by_cases hlow : LowZone ns zid
  · rw [zoneStop_of_low hlow] at hstart
    rw [if_pos hlow, lt_min_iff]
    exact ⟨fun h => ⟨h, hstart⟩, And.left⟩
  · rw [if_neg hlow]

/-- The block behind the last page of a oneshot page. -/
def closingLba (ns : ZnsNamespace) (zid oneshot : ℕ) : ℕ :=
  8 * (zoneToSlpn ns zid + closingStop ns zid oneshot)

/-- A write programs a oneshot page when it writes into its last page, once. -/
theorem countP_writePages {ssd : Ssd} {req : RwRequest} {slba oneshot : ℕ}
    (hzid : zid < ns.zp.nrZones) (hle : zid * lbasPerZone ns ≤ slba)
    (hend : slba + req.nrLba ≤ zid * lbasPerZone ns + lbasPerZone ns)
    (honeshot : oneshot * ns.pgsPerOneshotpg < zoneStop ns zid) :
    (writePages ns ssd req zid slba).2.programmed.countP
        (fun lpn => oneshotOf ns zid lpn = oneshot) =
      if slba < closingLba ns zid oneshot ∧
        closingLba ns zid oneshot < slba + req.nrLba + 8 then 1 else 0 := by
  have hpos : 0 < req.nrLba := Nat.succ_pos _
  obtain ⟨hlt, hstop, hstopLe⟩ := endOffset_mem hle hend hpos
  have hbase := zoneToSlpn_le ns zid
  have hmem := pages_mem hle hend hpos
  have hids : (writePages ns ssd req zid slba).2.programmed.map
      (oneshotOf ns zid) = List.range'
        (startOffset ns zid slba / ns.pgsPerOneshotpg)
        (closedOneshots ns zid (endOffset ns zid (slba + req.nrLba)) -
          startOffset ns zid slba / ns.pgsPerOneshotpg) := by
    rw [(writePages_eq hzid hle hend).1, List.map_map,
      ← map_oneshot_writeChunks hzid hle hend hpos]
    apply List.map_congr_left
    intro chunk _
    simp [oneshotOf]
  have hcount : (writePages ns ssd req zid slba).2.programmed.countP
      (fun lpn => oneshotOf ns zid lpn = oneshot) =
        (List.range' (startOffset ns zid slba / ns.pgsPerOneshotpg)
          (closedOneshots ns zid (endOffset ns zid (slba + req.nrLba)) -
            startOffset ns zid slba / ns.pgsPerOneshotpg)).count oneshot := by
    rw [← hids, List.count, List.countP_map]
    congr 1
  have hstartLt : startOffset ns zid slba < zoneStop ns zid := by
    rw [zoneStop]
    omega
  have hstopZone : endOffset ns zid (slba + req.nrLba) ≤ zoneStop ns zid := by
    rw [zoneStop]
    omega
  have hfirst : startOffset ns zid slba / ns.pgsPerOneshotpg ≤ oneshot ↔
      slba < closingLba ns zid oneshot := by
    rw [startOffset_le_iff hstartLt, closingLba, startOffset]
    omega
  have hlast : oneshot <
      closedOneshots ns zid (endOffset ns zid (slba + req.nrLba)) ↔
        closingLba ns zid oneshot < slba + req.nrLba + 8 := by
    rw [lt_closedOneshots_iff honeshot hstopZone, closingLba, endOffset]
    omega
  rw [hcount, List.count_range_1']
  apply if_congr _ rfl rfl
  rw [← hfirst, ← hlast]
  omega

/-! ## The writes of a filling -/

/-- One write of a filling at the write pointer `wp`. -/
structure WrittenAt (ns : ZnsNamespace) (zid wp : ℕ) (req : RwRequest)
    (outcome : WriteOutcome) : Prop where
  le : zid * lbasPerZone ns ≤ wp
  end_le : wp + req.nrLba ≤ zid * lbasPerZone ns + lbasPerZone ns
  slba_eq : outcome.slba = wp
  pages : ∃ ssd,
    outcome.programmed = (writePages ns ssd req zid wp).2.programmed ∧
      outcome.writebacks = (writePages ns ssd req zid wp).2.writebacks

theorem Fill.reachable {reqs : List RwRequest} {outcomes : List WriteOutcome}
    {state : ZnsState} (hfill : Fill ns zid reqs outcomes state) :
    Reachable (znsMachine ns) state ∧ zid < ns.zp.nrZones ∧
      (state.ftl.zoneDescs zid).zrwav = false := by
  induction hfill with
  | empty hreach hzid _ hzrwav => exact ⟨hreach, hzid, hzrwav⟩
  | other _ henabled hstep _ hzrwav ih =>
      exact ⟨ih.1.next henabled hstep, ih.2.1, hzrwav⟩
  | write _ _ hzone hrun haccepted hstatus ih =>
      obtain ⟨-, -, -, hzrwav, -⟩ :=
        znsWrite_accepted hrun hzone ih.2.2 haccepted hstatus
      exact ⟨reachable_write ih.1 hrun, ih.2.1, hzrwav⟩

/-- What holds at the start of the zone and is kept by every write holds of a
filling and its write pointer. -/
theorem Fill.induction
    {motive : List RwRequest → List WriteOutcome → ℕ → Prop}
    (hstart : motive [] [] (zid * lbasPerZone ns))
    (hwrite : ∀ reqs outcomes wp req outcome, motive reqs outcomes wp →
      WrittenAt ns zid wp req outcome →
      motive (reqs ++ [req]) (outcomes ++ [outcome]) (wp + req.nrLba))
    {reqs : List RwRequest} {outcomes : List WriteOutcome} {state : ZnsState}
    (hfill : Fill ns zid reqs outcomes state) :
    motive reqs outcomes (state.ftl.zoneDescs zid).wp := by
  suffices h : motive reqs outcomes (state.ftl.zoneDescs zid).wp ∧
      zid * lbasPerZone ns ≤ (state.ftl.zoneDescs zid).wp from h.1
  induction hfill with
  | empty hreach hzid hempty =>
      have hsited := reachable_sited hreach zid hzid
      have hwp := (hsited.of_empty hempty).trans hsited.zslba_eq
      rw [hwp]
      exact ⟨hstart, le_rfl⟩
  | other _ _ _ hwp _ ih =>
      rw [hwp]
      exact ih
  | @write reqs outcomes state req ret outcome ftl hfill hroom hzone hrun
      haccepted hstatus ih =>
      obtain ⟨hmotive, hle⟩ := ih
      obtain ⟨hreach, hzid, hzrwav⟩ := hfill.reachable
      have hsited := reachable_sited hreach zid hzid
      rw [hsited.zslba_eq, hsited.capacity_eq] at hroom
      obtain ⟨hslba, hboundary, hwp, -, hpages⟩ :=
        znsWrite_accepted hrun hzone hzrwav haccepted hstatus
      have hnr : req.nrLba ≤ 2 ^ 16 := req.length_lt
      have hend := of_checkBoundaryError hzid hle hroom (Nat.succ_pos _) hnr
        hboundary
      have hmove : u64 ((state.ftl.zoneDescs zid).wp + u32 req.nrLba) =
          (state.ftl.zoneDescs zid).wp + req.nrLba := by
        have hbound := zone_pages_lt hzid
        have hlbas := hend
        rw [lbasPerZone_mul, lbasPerZone_eq] at hlbas
        exact u64_add_u32 (by omega) (by omega)
      rw [hwp, hmove]
      exact ⟨hwrite _ _ _ _ _ hmotive ⟨hle, hend, hslba, hpages⟩,
        hle.trans (Nat.le_add_right _ _)⟩

variable {reqs : List RwRequest} {outcomes : List WriteOutcome}
  {state : ZnsState}

/-- The writes start where the ones before them ended. -/
theorem Fill.slba_lt (hfill : Fill ns zid reqs outcomes state) :
    ∀ outcome ∈ outcomes, zid * lbasPerZone ns ≤ outcome.slba ∧
      outcome.slba < (state.ftl.zoneDescs zid).wp := by
  refine Fill.induction (motive := fun _ outcomes wp => ∀ outcome ∈ outcomes,
    zid * lbasPerZone ns ≤ outcome.slba ∧ outcome.slba < wp) ?_ ?_ hfill
  · intro outcome hmem
    cases hmem
  · intro reqs outcomes wp req outcome ih hwritten other hmem
    have hpos : 0 < req.nrLba := Nat.succ_pos _
    have hle := hwritten.le
    rcases List.mem_append.mp hmem with hold | hnew
    · have hother := ih other hold
      omega
    · obtain rfl := List.mem_singleton.mp hnew
      rw [hwritten.slba_eq]
      omega

/-- The bytes the writes of a filling reserved. -/
theorem Fill.bytes_eq (hfill : Fill ns zid reqs outcomes state) :
    lbaToByte (zid * lbasPerZone ns) + (reqs.map RwRequest.bytes).sum =
      lbaToByte (state.ftl.zoneDescs zid).wp := by
  refine Fill.induction (motive := fun reqs _ wp =>
    lbaToByte (zid * lbasPerZone ns) + (reqs.map RwRequest.bytes).sum =
      lbaToByte wp) ?_ ?_ hfill
  · exact Nat.add_zero _
  · intro reqs outcomes wp req outcome ih _
    rw [List.map_append, List.sum_append, List.map_singleton,
      List.sum_singleton, ← Nat.add_assoc, ih]
    exact (Nat.add_mul _ _ _).symm

/-- How often a oneshot page is programmed: once as soon as its last page is
written to, and once more for each write that starts inside that page. -/
theorem Fill.countP_eq (hfill : Fill ns zid reqs outcomes state) {oneshot : ℕ}
    (honeshot : oneshot * ns.pgsPerOneshotpg < zoneStop ns zid)
    (hfirst : zid * lbasPerZone ns + 8 ≤ closingLba ns zid oneshot) :
    (outcomes.flatMap WriteOutcome.programmed).countP
        (fun lpn => oneshotOf ns zid lpn = oneshot) =
      (if closingLba ns zid oneshot < (state.ftl.zoneDescs zid).wp + 8 then 1
        else 0) +
      outcomes.countP fun outcome =>
        outcome.slba < closingLba ns zid oneshot ∧
          closingLba ns zid oneshot < outcome.slba + 8 := by
  have hzid := hfill.reachable.2.1
  refine Fill.induction (motive := fun _ outcomes wp =>
    (outcomes.flatMap WriteOutcome.programmed).countP
        (fun lpn => oneshotOf ns zid lpn = oneshot) =
      (if closingLba ns zid oneshot < wp + 8 then 1 else 0) +
      outcomes.countP fun outcome =>
        outcome.slba < closingLba ns zid oneshot ∧
          closingLba ns zid oneshot < outcome.slba + 8) ?_ ?_ hfill
  · rw [if_neg (by omega)]
    rfl
  · intro reqs outcomes wp req outcome ih hwritten
    obtain ⟨ssd, hprogrammed, -⟩ := hwritten.pages
    have hpos : 0 < req.nrLba := Nat.succ_pos _
    rw [List.flatMap_append, List.countP_append, ih, List.countP_append,
      List.flatMap_singleton, hprogrammed,
      countP_writePages hzid hwritten.le hwritten.end_le honeshot,
      List.countP_singleton, hwritten.slba_eq]
    simp only [decide_eq_true_eq]
    split_ifs <;> omega

/-! ## The bytes a filling releases -/

theorem not_cutAt_of_lt {stop : ℕ} (hstop : stop < zoneStop ns zid) :
    ¬ CutAt ns zid stop := by
  rintro ⟨hlow, heq, -⟩
  rw [zoneStop_of_low hlow] at hstop
  omega

/-- A write that starts outside the last page of a oneshot page finds the
complete oneshot pages released. -/
theorem closedBytes_of_not_closing {wp : ℕ}
    (hle : zid * lbasPerZone ns ≤ wp)
    (hlt : wp < zid * lbasPerZone ns + lbasPerZone ns)
    (hgood : 8 ∣ wp ∨ ¬ ClosingPage ns zid (wp / 8)) :
    closedBytes ns zid (endOffset ns zid wp) =
      oneshotSize ns * (startOffset ns zid wp / ns.pgsPerOneshotpg) := by
  have hbase := zoneToSlpn_le ns zid
  rw [lbasPerZone_mul] at hle hlt
  rw [lbasPerZone_eq] at hlt
  by_cases hdvd : 8 ∣ wp
  · have heq : endOffset ns zid wp = startOffset ns zid wp := by
      rw [endOffset, startOffset]
      omega
    have hstop : startOffset ns zid wp < zoneStop ns zid := by
      rw [startOffset, zoneStop]
      omega
    rw [heq, closedBytes, if_neg (not_cutAt_of_lt hstop), Nat.add_zero]
  · have hclosing := hgood.resolve_left hdvd
    rw [ClosingPage, not_or] at hclosing
    have heq : endOffset ns zid wp = startOffset ns zid wp + 1 := by
      rw [endOffset, startOffset]
      omega
    have hstop : startOffset ns zid wp + 1 < zoneStop ns zid := by
      have hne := hclosing.2
      rw [startOffset, zoneStop]
      omega
    have hdiv : (startOffset ns zid wp + 1) / ns.pgsPerOneshotpg =
        startOffset ns zid wp / ns.pgsPerOneshotpg :=
      Nat.succ_div_of_not_dvd hclosing.1
    rw [heq, closedBytes, if_neg (not_cutAt_of_lt hstop), Nat.add_zero, hdiv]

theorem released_append (left right : List Writeback) :
    released (left ++ right) = released left + released right := by
  rw [released, List.map_append, List.sum_append]
  rfl

/-- Where no write starts inside the last page of a oneshot page, the bytes
released are those of the complete oneshot pages. -/
theorem Fill.released_eq (hfill : Fill ns zid reqs outcomes state)
    (hgood : ∀ outcome ∈ outcomes, 8 ∣ outcome.slba ∨
      ¬ ClosingPage ns zid (outcome.slba / 8)) :
    released (outcomes.flatMap WriteOutcome.writebacks) +
        oneshotSize ns * (startOffset ns zid (zid * lbasPerZone ns) /
          ns.pgsPerOneshotpg) =
      closedBytes ns zid (endOffset ns zid (state.ftl.zoneDescs zid).wp) := by
  have hzid := hfill.reachable.2.1
  revert hgood
  refine Fill.induction (motive := fun _ outcomes wp =>
    (∀ outcome ∈ outcomes, 8 ∣ outcome.slba ∨
      ¬ ClosingPage ns zid (outcome.slba / 8)) →
    released (outcomes.flatMap WriteOutcome.writebacks) +
        oneshotSize ns * (startOffset ns zid (zid * lbasPerZone ns) /
          ns.pgsPerOneshotpg) =
      closedBytes ns zid (endOffset ns zid wp)) ?_ ?_ hfill
  · intro _
    have hpos := eight_le_lbasPerZone ns
    have haligned : 8 ∣ zid * lbasPerZone ns := by
      rw [lbasPerZone_mul]
      exact Nat.dvd_mul_right _ _
    rw [closedBytes_of_not_closing le_rfl (by omega) (Or.inl haligned)]
    exact Nat.zero_add _
  · intro reqs outcomes wp req outcome ih hwritten hgood
    obtain ⟨ssd, -, hwritebacks⟩ := hwritten.pages
    have hpos : 0 < req.nrLba := Nat.succ_pos _
    have hend := hwritten.end_le
    have hlast := hgood outcome (by simp)
    rw [hwritten.slba_eq] at hlast
    have hbefore := ih fun other hother => hgood other (by simp [hother])
    rw [closedBytes_of_not_closing hwritten.le (by omega) hlast] at hbefore
    have hwrite := @released_writePages ns zid ssd _ _ hzid hwritten.le hend
    rw [List.flatMap_append, released_append, List.flatMap_singleton,
      hwritebacks]
    omega

/-- The bytes of the whole zone. -/
theorem closedBytes_zoneStop
    (hend : LowZone ns zid ∨ ns.pgsPerOneshotpg ∣ zoneStop ns zid) :
    closedBytes ns zid (zoneStop ns zid) = 4096 * zoneStop ns zid := by
  have hwhole : ns.pgsPerOneshotpg ∣ zoneStop ns zid →
      oneshotSize ns * (zoneStop ns zid / ns.pgsPerOneshotpg) =
        4096 * zoneStop ns zid := by
    intro hdvd
    rw [oneshotSize_eq, Nat.mul_assoc, Nat.mul_div_cancel' hdvd]
  rw [closedBytes]
  by_cases hdvd : ns.pgsPerOneshotpg ∣ zoneStop ns zid
  · rw [if_neg fun h : CutAt ns zid _ => h.2.2 hdvd, Nat.add_zero, hwhole hdvd]
  · have hlow := hend.resolve_right hdvd
    rw [if_pos ⟨hlow, zoneStop_of_low hlow, hdvd⟩, unalignedSpace_eq,
      oneshotSize_eq, zoneStop_of_low hlow, Nat.mul_assoc, ← Nat.mul_add,
      Nat.div_add_mod]

/-! ## The result -/

/-- A write that starts inside the last page of a oneshot page. -/
theorem closing_iff {lba oneshot : ℕ} (hle : zid * lbasPerZone ns ≤ lba)
    (h : lba < closingLba ns zid oneshot ∧
      closingLba ns zid oneshot < lba + 8) :
    ¬ 8 ∣ lba ∧ ClosingPage ns zid (lba / 8) := by
  have hbase := zoneToSlpn_le ns zid
  rw [lbasPerZone_mul] at hle
  rw [closingLba] at h
  refine ⟨by omega, ?_⟩
  have hstop : closingStop ns zid oneshot =
      lba / 8 - zoneToSlpn ns zid + 1 := by omega
  rw [closingStop] at hstop
  by_cases hlow : LowZone ns zid
  · rw [if_pos hlow] at hstop
    rcases min_choice ((oneshot + 1) * ns.pgsPerOneshotpg)
      (pgsPerZone ns) with heq | heq
    · rw [heq] at hstop
      exact Or.inl ⟨oneshot + 1, by rw [← hstop, Nat.mul_comm]⟩
    · rw [heq, hlow.zoneToSlpn_eq] at hstop
      exact Or.inr (by omega)
  · rw [if_neg hlow] at hstop
    exact Or.inl ⟨oneshot + 1, by rw [← hstop, Nat.mul_comm]⟩

/-- The closing page of a oneshot page, where the zone ends closed. -/
theorem closing_of {lba : ℕ} (hle : zid * lbasPerZone ns ≤ lba)
    (hlt : lba < zid * lbasPerZone ns + lbasPerZone ns)
    (hend : LowZone ns zid ∨ ns.pgsPerOneshotpg ∣ zoneStop ns zid)
    (hdvd : ¬ 8 ∣ lba) (hclosing : ClosingPage ns zid (lba / 8)) :
    lba < closingLba ns zid (oneshotOf ns zid (lba / 8)) ∧
      closingLba ns zid (oneshotOf ns zid (lba / 8)) < lba + 8 := by
  have hbase := zoneToSlpn_le ns zid
  rw [lbasPerZone_mul] at hle hlt
  rw [lbasPerZone_eq] at hlt
  have hblock : lba / 8 - zoneToSlpn ns zid + 1 ≤
      (oneshotOf ns zid (lba / 8) + 1) * ns.pgsPerOneshotpg := by
    rw [oneshotOf, Nat.mul_comm]
    exact Nat.lt_mul_div_succ _ ns.pgsPerOneshotpg_pos
  have hwhole : ns.pgsPerOneshotpg ∣ lba / 8 - zoneToSlpn ns zid + 1 →
      (oneshotOf ns zid (lba / 8) + 1) * ns.pgsPerOneshotpg =
        lba / 8 - zoneToSlpn ns zid + 1 := by
    intro hmul
    rw [oneshotOf, ← Nat.succ_div_of_dvd hmul, Nat.div_mul_cancel hmul]
  have hstop : closingStop ns zid (oneshotOf ns zid (lba / 8)) =
      lba / 8 - zoneToSlpn ns zid + 1 := by
    rw [closingStop]
    by_cases hlow : LowZone ns zid
    · have hslpn := hlow.zoneToSlpn_eq
      rw [if_pos hlow]
      rcases hclosing with hmul | hlast
      · rw [hwhole hmul]
        exact min_eq_left (by omega)
      · rw [min_eq_right (by omega)]
        omega
    · rw [if_neg hlow]
      apply hwhole
      rcases hclosing with hmul | hlast
      · exact hmul
      · have hzone := hend.resolve_left hlow
        rw [zoneStop, ← hlast] at hzone
        rwa [show lba / 8 - zoneToSlpn ns zid + 1 =
          lba / 8 + 1 - zoneToSlpn ns zid by omega]
  rw [closingLba, hstop]
  omega

/-- The oneshot page of a page of the zone starts within the zone. -/
theorem oneshotOf_mul_lt {lpn : ℕ}
    (hlt : lpn < zid * pgsPerZone ns + pgsPerZone ns) :
    oneshotOf ns zid lpn * ns.pgsPerOneshotpg < zoneStop ns zid := by
  have hbase := zoneToSlpn_le ns zid
  have hpages := pgsPerZone_pos ns
  have hdown := Nat.div_mul_le_self (lpn - zoneToSlpn ns zid)
    ns.pgsPerOneshotpg
  rw [oneshotOf, zoneStop]
  omega

/-- In a full zone, how often the oneshot page of a page was programmed. -/
theorem Fill.countP_full (hfill : Fill ns zid reqs outcomes state)
    (hfull : (state.ftl.zoneDescs zid).wp =
      zid * lbasPerZone ns + lbasPerZone ns) {lpn : ℕ}
    (hle : zid * pgsPerZone ns ≤ lpn)
    (hlt : lpn < zid * pgsPerZone ns + pgsPerZone ns) :
    (outcomes.flatMap WriteOutcome.programmed).countP
        (fun other => oneshotOf ns zid other = oneshotOf ns zid lpn) =
      (if closingStop ns zid (oneshotOf ns zid lpn) ≤ zoneStop ns zid then 1
        else 0) +
      outcomes.countP fun outcome =>
        outcome.slba < closingLba ns zid (oneshotOf ns zid lpn) ∧
          closingLba ns zid (oneshotOf ns zid lpn) < outcome.slba + 8 := by
  have hbase := zoneToSlpn_le ns zid
  have hblock : lpn - zoneToSlpn ns zid <
      (oneshotOf ns zid lpn + 1) * ns.pgsPerOneshotpg := by
    rw [oneshotOf, Nat.mul_comm]
    exact Nat.lt_mul_div_succ _ ns.pgsPerOneshotpg_pos
  have honeshot := oneshotOf_mul_lt hlt
  have hfirst : zid * lbasPerZone ns + 8 ≤
      closingLba ns zid (oneshotOf ns zid lpn) := by
    have hpages := pgsPerZone_pos ns
    rw [closingLba, closingStop, lbasPerZone_mul]
    split_ifs with hlow
    · rw [hlow.zoneToSlpn_eq] at *
      have hmin : 1 ≤ min ((oneshotOf ns zid lpn + 1) * ns.pgsPerOneshotpg)
          (pgsPerZone ns) := le_min (by omega) hpages
      omega
    · omega
  rw [hfill.countP_eq honeshot hfirst, hfull]
  congr 1
  apply if_congr _ rfl rfl
  rw [closingLba, zoneStop, lbasPerZone_mul, lbasPerZone_eq]
  omega

/-- The oneshot pages of a zone end within the zone. -/
theorem closingStop_le {oneshot : ℕ}
    (hend : LowZone ns zid ∨ ns.pgsPerOneshotpg ∣ zoneStop ns zid)
    (honeshot : oneshot * ns.pgsPerOneshotpg < zoneStop ns zid) :
    closingStop ns zid oneshot ≤ zoneStop ns zid := by
  rw [closingStop]
  by_cases hlow : LowZone ns zid
  · rw [if_pos hlow, zoneStop_of_low hlow]
    exact min_le_right _ _
  · obtain ⟨oneshots, heq⟩ := hend.resolve_left hlow
    rw [if_neg hlow]
    rw [heq, Nat.mul_comm] at honeshot ⊢
    exact Nat.mul_le_mul_left _ (Nat.lt_of_mul_lt_mul_left honeshot)

/-- A zone that is programmed once ends with a closing page: the last oneshot
page of another zone goes on behind it. -/
theorem Fill.ends_of_programmedOnce
    (hfill : Fill ns zid reqs outcomes state)
    (hfull : (state.ftl.zoneDescs zid).wp =
      zid * lbasPerZone ns + lbasPerZone ns)
    (honce : ProgrammedOnce ns zid outcomes) :
    LowZone ns zid ∨ ns.pgsPerOneshotpg ∣ zoneStop ns zid := by
  have hbase := zoneToSlpn_le ns zid
  have hpages := pgsPerZone_pos ns
  by_contra hnot
  rw [not_or] at hnot
  have hlast := honce (pgsPerZone ns - 1) (by omega)
  rw [hfill.countP_full hfull (by omega) (by omega)] at hlast
  have hlong : zoneStop ns zid < closingStop ns zid
      (oneshotOf ns zid (zid * pgsPerZone ns + (pgsPerZone ns - 1))) := by
    have hblock := Nat.lt_mul_div_succ (zid * pgsPerZone ns +
      (pgsPerZone ns - 1) - zoneToSlpn ns zid) ns.pgsPerOneshotpg_pos
    rw [closingStop, if_neg hnot.1, oneshotOf]
    rw [Nat.mul_comm ns.pgsPerOneshotpg] at hblock
    apply lt_of_le_of_ne
    · rw [zoneStop]
      omega
    · intro heq
      exact hnot.2 ⟨_, heq.trans (Nat.mul_comm _ _)⟩
  rw [if_neg (by omega), Nat.zero_add] at hlast
  obtain ⟨outcome, hmem, hinside⟩ := List.countP_pos_iff.mp
    (Nat.lt_of_lt_of_eq Nat.one_pos hlast.symm)
  obtain ⟨-, hlt⟩ := hfill.slba_lt outcome hmem
  rw [decide_eq_true_iff, closingLba] at hinside
  rw [hfull, lbasPerZone_mul, lbasPerZone_eq] at hlt
  rw [zoneStop] at hlong
  omega

/-- No write of a zone that is programmed once starts inside a closing page:
the page would be programmed by it and by the write before. -/
theorem Fill.not_inside_of_programmedOnce
    (hfill : Fill ns zid reqs outcomes state)
    (hfull : (state.ftl.zoneDescs zid).wp =
      zid * lbasPerZone ns + lbasPerZone ns)
    (hend : LowZone ns zid ∨ ns.pgsPerOneshotpg ∣ zoneStop ns zid)
    (honce : ProgrammedOnce ns zid outcomes) {outcome : WriteOutcome}
    (hmem : outcome ∈ outcomes) :
    8 ∣ outcome.slba ∨ ¬ ClosingPage ns zid (outcome.slba / 8) := by
  by_contra hbad
  rw [not_or, not_not] at hbad
  obtain ⟨hle, hlt⟩ := hfill.slba_lt outcome hmem
  rw [hfull] at hlt
  have hinside := closing_of hle hlt hend hbad.1 hbad.2
  rw [lbasPerZone_mul] at hle hlt
  rw [lbasPerZone_eq] at hlt
  have hpage := honce (outcome.slba / 8 - zid * pgsPerZone ns) (by omega)
  have hlpn : zid * pgsPerZone ns +
      (outcome.slba / 8 - zid * pgsPerZone ns) = outcome.slba / 8 := by omega
  rw [hlpn, hfill.countP_full hfull (by omega) (by omega)] at hpage
  have hstop : closingStop ns zid (oneshotOf ns zid (outcome.slba / 8)) ≤
      zoneStop ns zid :=
    closingStop_le hend (oneshotOf_mul_lt (by omega))
  have hcount : 0 < outcomes.countP fun outcome' =>
      outcome'.slba < closingLba ns zid
        (oneshotOf ns zid (outcome.slba / 8)) ∧
      closingLba ns zid (oneshotOf ns zid (outcome.slba / 8)) <
        outcome'.slba + 8 :=
    List.countP_pos_iff.mpr ⟨outcome, hmem, decide_eq_true hinside⟩
  rw [if_pos hstop] at hpage
  omega

/-- Every oneshot page of a full zone is programmed once exactly when the zone
ends with a closing page and no write starts inside a closing page. -/
theorem Fill.programmedOnce_iff (hfill : Fill ns zid reqs outcomes state)
    (hfull : (state.ftl.zoneDescs zid).wp =
      zid * lbasPerZone ns + lbasPerZone ns) :
    ProgrammedOnce ns zid outcomes ↔
      (LowZone ns zid ∨ ns.pgsPerOneshotpg ∣ zoneStop ns zid) ∧
      ∀ outcome ∈ outcomes, 8 ∣ outcome.slba ∨
        ¬ ClosingPage ns zid (outcome.slba / 8) := by
  constructor
  · intro honce
    have hend := hfill.ends_of_programmedOnce hfull honce
    exact ⟨hend, fun outcome hmem =>
      hfill.not_inside_of_programmedOnce hfull hend honce hmem⟩
  · rintro ⟨hend, hgood⟩ page hpage
    have honeshot : oneshotOf ns zid (zid * pgsPerZone ns + page) *
        ns.pgsPerOneshotpg < zoneStop ns zid :=
      oneshotOf_mul_lt (Nat.add_lt_add_left hpage _)
    rw [hfill.countP_full hfull (by omega) (by omega),
      if_pos (closingStop_le hend honeshot), Nat.add_eq_left,
      List.countP_eq_zero]
    intro outcome hmem hinside
    rw [decide_eq_true_iff] at hinside
    obtain ⟨hnot, hclosing⟩ :=
      closing_iff (hfill.slba_lt outcome hmem).1 hinside
    exact (hgood outcome hmem).elim hnot fun h => h hclosing

/-- What the writes of a full zone release in all, where they are all well
placed. -/
theorem Fill.released_full (hfill : Fill ns zid reqs outcomes state)
    (hfull : (state.ftl.zoneDescs zid).wp =
      zid * lbasPerZone ns + lbasPerZone ns)
    (hend : LowZone ns zid ∨ ns.pgsPerOneshotpg ∣ zoneStop ns zid)
    (hgood : ∀ outcome ∈ outcomes, 8 ∣ outcome.slba ∨
      ¬ ClosingPage ns zid (outcome.slba / 8)) :
    released (outcomes.flatMap WriteOutcome.writebacks) +
        4096 * (ns.pgsPerOneshotpg * ((zid * pgsPerZone ns -
          zoneToSlpn ns zid) / ns.pgsPerOneshotpg)) =
      4096 * zoneStop ns zid := by
  have hbase := zoneToSlpn_le ns zid
  have hreleased := hfill.released_eq hgood
  have hstart : startOffset ns zid (zid * lbasPerZone ns) =
      zid * pgsPerZone ns - zoneToSlpn ns zid := by
    rw [startOffset, lbasPerZone_mul, Nat.mul_div_cancel_left _ (by decide)]
  have hstop : endOffset ns zid (state.ftl.zoneDescs zid).wp =
      zoneStop ns zid := by
    rw [hfull, endOffset, zoneStop, lbasPerZone_mul, lbasPerZone_eq]
    omega
  rwa [hstart, hstop, closedBytes_zoneStop hend, oneshotSize_eq,
    Nat.mul_assoc] at hreleased

/-- A full zone is programmed once and releases what was reserved exactly when
it ends closed and no write starts inside the last page of a oneshot page or of
the zone. -/
theorem filled_once_iff (hfill : Fill ns zid reqs outcomes state)
    (hfull : (state.ftl.zoneDescs zid).wp =
      (state.ftl.zoneDescs zid).zslba +
        (state.ftl.zoneDescs zid).zoneCapacity) :
    (ProgrammedOnce ns zid outcomes ∧
        released (outcomes.flatMap WriteOutcome.writebacks) =
          ns.zp.zoneSize ∧
        (reqs.map RwRequest.bytes).sum = ns.zp.zoneSize) ↔
      EndsClosed ns zid ∧ ∀ outcome ∈ outcomes, 8 ∣ outcome.slba ∨
        ¬ ClosingPage ns zid (outcome.slba / 8) := by
  have hzid := hfill.reachable.2.1
  have hsited := reachable_sited hfill.reachable.1 zid hzid
  rw [hsited.zslba_eq, hsited.capacity_eq] at hfull
  have hbase := zoneToSlpn_le ns zid
  have hbytes : (reqs.map RwRequest.bytes).sum = ns.zp.zoneSize := by
    have hsum := hfill.bytes_eq
    rw [hfull, lbaToByte, lbaToByte, lbasPerZone_eq] at hsum
    rw [zoneSize_eq]
    omega
  have hzoneStop : zoneStop ns zid =
      zid * pgsPerZone ns - zoneToSlpn ns zid + pgsPerZone ns := by
    rw [zoneStop]
    omega
  rw [hfill.programmedOnce_iff hfull, zoneSize_eq]
  constructor
  · rintro ⟨⟨hend, hgood⟩, hreleased, -⟩
    refine ⟨?_, hgood⟩
    by_cases hlow : LowZone ns zid
    · exact Or.inl hlow
    · have hsum := hfill.released_full hfull hend hgood
      have hdvd : ns.pgsPerOneshotpg ∣
          zid * pgsPerZone ns - zoneToSlpn ns zid :=
        ⟨(zid * pgsPerZone ns - zoneToSlpn ns zid) / ns.pgsPerOneshotpg,
          by omega⟩
      have hzone := hend.resolve_left hlow
      rw [hzoneStop] at hzone
      exact Or.inr ⟨(Nat.dvd_add_right hdvd).mp hzone, hdvd⟩
  · rintro ⟨hends, hgood⟩
    have hend : LowZone ns zid ∨ ns.pgsPerOneshotpg ∣ zoneStop ns zid := by
      rcases hends with hlow | ⟨hpages, hshift⟩
      · exact Or.inl hlow
      · rw [hzoneStop]
        exact Or.inr (Nat.dvd_add hshift hpages)
    have hsum := hfill.released_full hfull hend hgood
    have hshift : ns.pgsPerOneshotpg * ((zid * pgsPerZone ns -
        zoneToSlpn ns zid) / ns.pgsPerOneshotpg) =
          zid * pgsPerZone ns - zoneToSlpn ns zid := by
      rcases hends with hlow | ⟨-, hdvd⟩
      · rw [hlow.zoneToSlpn_eq, Nat.sub_self, Nat.zero_div, Nat.mul_zero]
      · exact Nat.mul_div_cancel' hdvd
    exact ⟨⟨hend, hgood⟩, by omega, by rw [hbytes, zoneSize_eq]⟩

end

/-! ### Two fillings of a zone of two pages -/

/-- Write `reqs` one after the other, as long as each goes to the zone and is
accepted. -/
def writeAll (ns : ZnsNamespace) (zid : ℕ) :
    List RwRequest → ZnsState → Option (List WriteOutcome × ZnsState)
  | [], state => some ([], state)
  | req :: reqs, state =>
      match znsWrite ns state.ftl req ⟨0, 0, 0⟩ with
      | .error _ => none
      | .ok (outcome, ftl) =>
          if (state.ftl.zoneDescs zid).wp < (state.ftl.zoneDescs zid).zslba +
              (state.ftl.zoneDescs zid).zoneCapacity ∧
              lbaToZone ns req.slba = zid ∧ outcome.accepted = true ∧
              outcome.ret.status = scSuccess then
            (writeAll ns zid reqs
              { ftl := ftl
                pending := state.pending ++ outcome.writebacks }).map
              fun rest => (outcome :: rest.1, rest.2)
          else none

theorem Fill.of_writeAll {ns : ZnsNamespace} {zid : ℕ}
    {done reqs : List RwRequest} {before outcomes : List WriteOutcome}
    {state state' : ZnsState} (hfill : Fill ns zid done before state)
    (hrun : writeAll ns zid reqs state = some (outcomes, state')) :
    Fill ns zid (done ++ reqs) (before ++ outcomes) state' := by
  induction reqs generalizing done before outcomes state with
  | nil =>
      cases hrun
      rwa [List.append_nil, List.append_nil]
  | cons req reqs ih =>
      rw [writeAll] at hrun
      cases hwrite : znsWrite ns state.ftl req ⟨0, 0, 0⟩ with
      | error fault =>
          rw [hwrite] at hrun
          cases hrun
      | ok result =>
          obtain ⟨outcome, ftl⟩ := result
          rw [hwrite] at hrun
          dsimp only at hrun
          split_ifs at hrun with hchecks
          obtain ⟨hroom, hzone, haccepted, hstatus⟩ := hchecks
          obtain ⟨⟨rest, final⟩, hrest, heq⟩ := Option.map_eq_some_iff.mp hrun
          cases heq
          have hnext := ih (.write hfill hroom hzone hwrite haccepted hstatus)
            hrest
          rwa [List.append_assoc, List.append_assoc] at hnext

/-- `count` blocks from the block `slba` on. -/
def writeBlocks (slba : ℕ) (last : Fin (2 ^ 16)) : RwRequest :=
  ⟨1, 0, .write, slba, last, last.isLt, false⟩

theorem fill_twoZones :
    Fill (twoZones 2) 0 [] [] (twoZonesStart 2) :=
  .empty (.start (twoZonesStart_init 2)) (by decide) rfl rfl

theorem filled_once_iff_whole :
    ∃ outcomes state, Fill (twoZones 2) 0 [writeBlocks 0 ⟨15, fifteen_lt_bits⟩]
        outcomes state ∧
      ((ProgrammedOnce (twoZones 2) 0 outcomes ∧
        released (outcomes.flatMap WriteOutcome.writebacks) =
          (twoZones 2).zp.zoneSize ∧
        ([writeBlocks 0 ⟨15, fifteen_lt_bits⟩].map RwRequest.bytes).sum =
          (twoZones 2).zp.zoneSize) ↔
      EndsClosed (twoZones 2) 0 ∧ ∀ outcome ∈ outcomes, 8 ∣ outcome.slba ∨
        ¬ ClosingPage (twoZones 2) 0 (outcome.slba / 8)) := by
  have hrun : ((writeAll (twoZones 2) 0
      [writeBlocks 0 ⟨15, fifteen_lt_bits⟩] (twoZonesStart 2)).map fun r =>
        decide ((r.2.ftl.zoneDescs 0).wp = (r.2.ftl.zoneDescs 0).zslba +
          (r.2.ftl.zoneDescs 0).zoneCapacity)) = some true := by
    decide +kernel
  obtain ⟨⟨outcomes, state⟩, hwrites, hfull⟩ :=
    Option.map_eq_some_iff.mp hrun
  have hfill := fill_twoZones.of_writeAll hwrites
  exact ⟨outcomes, state, hfill,
    filled_once_iff hfill (of_decide_eq_true hfull)⟩

/-- One block, then the other fifteen: the first page is programmed twice, and
more bytes are released than were reserved. -/
theorem released_twice :
    ∃ reqs outcomes state, Fill (twoZones 2) 0 reqs outcomes state ∧
      (state.ftl.zoneDescs 0).wp = (state.ftl.zoneDescs 0).zslba +
        (state.ftl.zoneDescs 0).zoneCapacity ∧
      outcomes.flatMap WriteOutcome.programmed = [0, 0, 1] ∧
      ¬ (ProgrammedOnce (twoZones 2) 0 outcomes ∧
        released (outcomes.flatMap WriteOutcome.writebacks) =
          (twoZones 2).zp.zoneSize) := by
  have hrun : ((writeAll (twoZones 2) 0 [writeBlocks 0 ⟨0, zero_lt_bits⟩,
      writeBlocks 1 ⟨14, fourteen_lt_bits⟩] (twoZonesStart 2)).map fun r =>
        (decide ((r.2.ftl.zoneDescs 0).wp = (r.2.ftl.zoneDescs 0).zslba +
          (r.2.ftl.zoneDescs 0).zoneCapacity),
        r.1.flatMap WriteOutcome.programmed,
        released (r.1.flatMap WriteOutcome.writebacks))) =
      some (true, [0, 0, 1], 12288) := by
    decide +kernel
  obtain ⟨⟨outcomes, state⟩, hwrites, hvalues⟩ :=
    Option.map_eq_some_iff.mp hrun
  obtain ⟨hfull, hprogrammed, hreleased⟩ : _ ∧ _ ∧ _ := by
    simpa only [Prod.mk.injEq] using hvalues
  have hmore : released (outcomes.flatMap WriteOutcome.writebacks) ≠
      (twoZones 2).zp.zoneSize := by
    rw [hreleased]
    decide
  exact ⟨_, outcomes, state, fill_twoZones.of_writeAll hwrites,
    of_decide_eq_true hfull, hprogrammed, fun h => absurd h.2 hmore⟩

end NvmeVirt.Filling
