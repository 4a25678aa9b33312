import NvmeVirt.Io.Transfers
import NvmeVirt.Zns.Commands

/-!
# Reporting zones

A Zone Management Receive command fills the report buffer of the namespace and
copies it into the pages of the host.  The number of descriptors is taken from
the start LBA, or from the length of the transfer, and the number of bytes
from the length alone; nothing relates the three to the number of zones.  Every
copy of memory is checked here against the array it reads and the one it
writes.
-/

namespace NvmeVirt.MgmtRecv

open NvmeVirt.Commands
open NvmeVirt.Kernel
open NvmeVirt.Timing
open NvmeVirt.Transfers
open NvmeVirt.Transition
open NvmeVirt.Zones

/-! ## The command and the report -/

/-- `struct nvme_zone_mgmt_recv`, with the words of the list at `prp2`. -/
structure ZoneMgmtRecv where
  nsid : ℕ
  prp1 : ℕ
  prp2 : ℕ
  slba : ℕ
  nrDw : ℕ
  zra : ℕ
  zraSpecificField : ℕ
  zraSpecificFeatures : Bool
  prpList : ℕ → ℕ

/-- `(nr_dw + 1)`, of type `unsigned int`. -/
def ZoneMgmtRecv.dwords (cmd : ZoneMgmtRecv) : ℕ := u32 (cmd.nrDw + 1)

/-- `(nr_dw + 1) * sizeof(uint32_t)`. -/
def ZoneMgmtRecv.bytes (cmd : ZoneMgmtRecv) : ℕ := cmd.dwords * 4

/-- The same words as a `struct nvme_rw_command`, whose entries `nextPrp`
reads.  The low half of `nr_dw` is where its length is. -/
def ZoneMgmtRecv.asRw (cmd : ZoneMgmtRecv) : PrpCommand where
  opcode := 0x7a
  nsid := cmd.nsid
  prp1 := cmd.prp1
  prp2 := cmd.prp2
  slba := cmd.slba
  length := cmd.nrDw % 2 ^ 16
  prpList := cmd.prpList
  length_lt := Nat.mod_lt _ (Nat.two_pow_pos 16)

/-- The command with other pages of the host. -/
def ZoneMgmtRecv.withPages (cmd : ZoneMgmtRecv) (prp1 prp2 : ℕ)
    (prpList : ℕ → ℕ) : ZoneMgmtRecv :=
  { cmd with prp1 := prp1, prp2 := prp2, prpList := prpList }

/-- `struct zone_report`, in the buffer of `__init_descriptor`. -/
structure ZoneReport where
  nrZones : ℕ
  zd : ℕ → ZoneDescriptor

/-- `sizeof(struct zone_report)` and `sizeof(struct zone_descriptor)`. -/
def zoneReportSize : ℕ := 64
def zoneDescriptorSize : ℕ := 64

section

variable (ns : ZnsNamespace)

/-- The size `__init_descriptor` allocates. -/
def reportBufferSize : ℕ :=
  zoneReportSize + zoneDescriptorSize * ns.zp.nrZones

/-- The `memcpy` of `size` bytes of descriptors, from the one of zone `start`
on, to the first place of the report. -/
def copyDescriptors (s : ZnsFtl) (start size : ℕ) (report : ZoneReport) :
    Except Fault ZoneReport :=
  if size = 0 then .ok report
  else if start * zoneDescriptorSize + size ≤
      zoneDescriptorSize * ns.zp.nrZones ∧
      zoneReportSize + size ≤ reportBufferSize ns then
    .ok
      { report with
        zd := fun i =>
          if i < size / zoneDescriptorSize then s.zoneDescs (start + i)
          else report.zd i }
  else .error .outOfBounds

/-- `nr_zone_to_report`. -/
def nrZoneToReport (cmd : ZoneMgmtRecv) : ℕ :=
  if cmd.zraSpecificFeatures = false then
    sub64 ns.zp.nrZones (lbaToZone ns cmd.slba)
  else sub64 (cmd.bytes / zoneDescriptorSize) 1

/-- `__fill_zone_report`. -/
def fillZoneReport (s : ZnsFtl) (cmd : ZoneMgmtRecv) (report : ZoneReport) :
    Except Fault ZoneReport :=
  let startZid := lbaToZone ns cmd.slba
  let report := { report with nrZones := nrZoneToReport ns cmd }
  copyDescriptors ns s startZid
    (u64 (zoneDescriptorSize * nrZoneToReport ns cmd)) report

/-! ## The transfer -/

/-- The `memcpy` of a page: the address of the host, the offset in the buffer,
and the number of bytes. -/
structure BufferCopy where
  direction : Direction
  host : ℕ
  offset : ℕ
  size : ℕ
  deriving DecidableEq, Repr

/-- The variables of the loop of `__prp_transfer_data`. -/
structure PrpLoop where
  cursor : PrpCursor
  offset : ℕ
  remaining : ℕ
  copies : List BufferCopy

/-- The body of the loop, over a buffer of `bufferSize` bytes. -/
def prpRound (cmd : PrpCommand) (bufferSize io : ℕ) (st : PrpLoop) :
    Except Fault PrpLoop := do
  let entry ← nextPrp cmd st.cursor st.remaining
  let ioSize := sizeInPage entry.1 st.remaining
  if st.offset + ioSize ≤ bufferSize then
    .ok
      { cursor := entry.2
        offset := st.offset + ioSize
        remaining := st.remaining - ioSize
        copies := st.copies ++
          [{ direction := if io = 0 then .toHost else .toStorage
             host := entry.1
             offset := st.offset
             size := ioSize }] }
  else .error .outOfBounds

/-- The loop.  Every round copies at least a byte. -/
def prpLoop (cmd : PrpCommand) (bufferSize io : ℕ) :
    ℕ → PrpLoop → Except Fault PrpLoop
  | 0, _ => .error .divergence
  | fuel + 1, st =>
      if st.remaining = 0 then .ok st
      else do
        let st ← prpRound cmd bufferSize io st
        prpLoop cmd bufferSize io fuel st

/-- `__prp_transfer_data`: the number of bytes it returns, and its copies. -/
def prpTransferData (cmd : PrpCommand) (bufferSize length io : ℕ) :
    Except Fault (ℕ × List BufferCopy) := do
  let st ← prpLoop cmd bufferSize io (length + 1)
    { cursor := .initial, offset := 0, remaining := length, copies := [] }
  .ok (length, st.copies)

/-! ## The command -/

/-- `__check_zmgmt_rcv_option_supported`.  A start LBA past the last zone is
written to the log, and nothing else. -/
def checkZmgmtRcvOptionSupported (cmd : ZoneMgmtRecv) : Bool :=
  if cmd.zra ≠ 0 then false
  else if cmd.zraSpecificField ≠ 0 then false
  else true

/-- What a command leaves: its result, the report buffer, and what has been
copied to the host. -/
structure RecvOutcome where
  ret : NvmevResult
  report : ZoneReport
  copies : List BufferCopy

/-- `zns_zmgmt_recv`. -/
def znsZmgmtRecv (s : ZnsFtl) (nsecsStart : ℕ) (cmd : ZoneMgmtRecv)
    (report : ZoneReport) (ret : NvmevResult) : Except Fault RecvOutcome := do
  if checkZmgmtRcvOptionSupported cmd then
    let report ← fillZoneReport ns s cmd report
    let sent ← prpTransferData cmd.asRw (reportBufferSize ns) cmd.bytes 0
    return {
      ret := { ret with nsecsTarget := nsecsStart, status := scSuccess }
      report := report
      copies := sent.2 }
  else
    return {
      ret := { ret with nsecsTarget := nsecsStart, status := scInvalidField }
      report := report
      copies := [] }

end

/-! ## What is copied to the host -/

section

variable {cmd : PrpCommand} {bufferSize io : ℕ}

theorem nextPrp_ne_outOfBounds {cursor : PrpCursor} {remaining : ℕ} :
    nextPrp cmd cursor remaining ≠ .error .outOfBounds := by
  dsimp only [nextPrp]
  split_ifs <;> simp

/-- A transfer that fits stays in the buffer, whatever the pages are. -/
theorem prpLoop_ne_outOfBounds {fuel : ℕ} {st : PrpLoop}
    (hfits : st.offset + st.remaining ≤ bufferSize) :
    prpLoop cmd bufferSize io fuel st ≠ .error .outOfBounds := by
  induction fuel generalizing st with
  | zero => simp [prpLoop]
  | succ fuel ih =>
      rw [prpLoop]
      split_ifs with hdone
      · simp
      intro hrun
      obtain hround | ⟨st', hround, hrest⟩ := bind_eq_error hrun
      · obtain hnext | ⟨entry, _, hcopy⟩ := bind_eq_error hround
        · exact nextPrp_ne_outOfBounds hnext
        · have hsize : sizeInPage entry.1 st.remaining ≤ st.remaining := by
            rw [sizeInPage_eq]
            exact min_le_left _ _
          dsimp only at hcopy
          rw [if_pos (by omega)] at hcopy
          cases hcopy
      · obtain ⟨entry, _, hcopy⟩ := bind_eq_ok hround
        have hsize : sizeInPage entry.1 st.remaining ≤ st.remaining := by
          rw [sizeInPage_eq]
          exact min_le_left _ _
        dsimp only at hcopy
        rw [if_pos (by omega)] at hcopy
        cases hcopy
        apply ih _ hrest
        dsimp only
        omega

/-- Behind the second page, the list is found. -/
def ListFound (cursor : PrpCursor) : Prop :=
  cursor.prpOffs ≤ 1 ∨ cursor.listMapped = true

/-- A command all of whose pages are the first one of the host. -/
structure FirstPageOnly (cmd : PrpCommand) : Prop where
  prp1_eq : cmd.prp1 = 0
  prp2_eq : cmd.prp2 = 0
  prpList_eq : cmd.prpList = fun _ => 0

theorem nextPrp_of_firstPage (hpages : FirstPageOnly cmd) {cursor : PrpCursor}
    (hfound : ListFound cursor) (remaining : ℕ) :
    ∃ cursor', nextPrp cmd cursor remaining = .ok (0, cursor') ∧
      (ListFound cursor' ∨ remaining ≤ pageSize) := by
  obtain ⟨hprp1, hprp2, hlist⟩ := hpages
  rw [nextPrp, hprp1, hprp2, hlist]
  dsimp only
  split_ifs with hfirst hsecond hlong hmapped
  · exact ⟨_, rfl, .inl (.inl hfirst.le)⟩
  · exact ⟨_, rfl, .inl (.inr rfl)⟩
  · exact ⟨_, rfl, .inr (Nat.le_of_not_lt hlong)⟩
  · exact ⟨_, rfl, .inl (.inr hmapped)⟩
  · obtain hle | hmap := hfound
    · omega
    · exact absurd hmap hmapped

/-- A transfer that does not fit runs past the end of the buffer. -/
theorem prpLoop_outOfBounds (hpages : FirstPageOnly cmd) {fuel : ℕ}
    {st : PrpLoop} (hfuel : st.remaining < fuel) (hfound : ListFound st.cursor)
    (hin : st.offset ≤ bufferSize)
    (hlong : bufferSize < st.offset + st.remaining) :
    prpLoop cmd bufferSize io fuel st = .error .outOfBounds := by
  induction fuel generalizing st with
  | zero => omega
  | succ fuel ih =>
      have hsize : sizeInPage 0 st.remaining = min st.remaining pageSize := by
        rw [sizeInPage_eq, Nat.zero_mod, Nat.sub_zero]
      obtain ⟨cursor', hnext, hfound'⟩ :=
        nextPrp_of_firstPage hpages hfound st.remaining
      have hpos : 0 < pageSize := by decide
      rw [prpLoop, if_neg (by omega), prpRound, hnext, ok_bind]
      dsimp only
      rw [hsize]
      by_cases hroom : st.offset + min st.remaining pageSize ≤ bufferSize
      · have hmore : pageSize < st.remaining := by omega
        rw [if_pos hroom, ok_bind]
        apply ih
        · dsimp only
          omega
        · exact hfound'.resolve_right (Nat.not_le.mpr hmore)
        · exact hroom
        · dsimp only
          omega
      · rw [if_neg hroom]
        rfl

theorem prpTransferData_ne_outOfBounds {length : ℕ}
    (hfits : length ≤ bufferSize) :
    prpTransferData cmd bufferSize length io ≠ .error .outOfBounds := by
  intro hrun
  obtain hloop | ⟨st, _, hdone⟩ := bind_eq_error hrun
  · apply prpLoop_ne_outOfBounds _ hloop
    dsimp only
    omega
  · cases hdone

theorem prpTransferData_outOfBounds (hpages : FirstPageOnly cmd) {length : ℕ}
    (hlong : bufferSize < length) :
    prpTransferData cmd bufferSize length io = .error .outOfBounds := by
  rw [prpTransferData, prpLoop_outOfBounds hpages (Nat.lt_succ_self length)
    (.inl (Nat.zero_le 1)) (Nat.zero_le bufferSize)]
  · rfl
  · dsimp only
    omega

end

/-! ## What is reported -/

section

variable (ns : ZnsNamespace)

/-- What a report has to say: all zones from the start zone on, or as many of
them as have room behind the header. -/
def zonesReported (cmd : ZoneMgmtRecv) : ℕ :=
  if cmd.zraSpecificFeatures = false then
    ns.zp.nrZones - lbaToZone ns cmd.slba
  else
    min ((cmd.bytes - zoneReportSize) / zoneDescriptorSize)
      (ns.zp.nrZones - lbaToZone ns cmd.slba)

/-- The report has the descriptors of zones that exist, as many as it has to,
and no copy leaves its array. -/
structure ReportInBounds (s : ZnsFtl) (cmd : ZoneMgmtRecv)
    (report : ZoneReport) : Prop where
  filled : ∃ filled, fillZoneReport ns s cmd report = .ok filled ∧
    lbaToZone ns cmd.slba + filled.nrZones ≤ ns.zp.nrZones ∧
    filled.nrZones = zonesReported ns cmd ∧
    ∀ i < filled.nrZones,
      filled.zd i = s.zoneDescs (lbaToZone ns cmd.slba + i)
  in_bounds : ∀ nsecsStart ret,
    znsZmgmtRecv ns s nsecsStart cmd report ret ≠ .error .outOfBounds

/-- The start zone is at most one past the last, the transfer is no longer than
the report buffer, and a partial report has the header and no more descriptors
than there are zones left. -/
structure Reportable (cmd : ZoneMgmtRecv) : Prop where
  start_le : lbaToZone ns cmd.slba ≤ ns.zp.nrZones
  dwords_le : cmd.dwords ≤ 16 * (ns.zp.nrZones + 1)
  header_le : cmd.zraSpecificFeatures = true → 16 ≤ cmd.dwords
  descriptors_le : cmd.zraSpecificFeatures = true →
    lbaToZone ns cmd.slba + cmd.dwords / 16 ≤ ns.zp.nrZones + 1

variable {ns} {s : ZnsFtl} {cmd : ZoneMgmtRecv} {report : ZoneReport}

theorem dwords_lt (cmd : ZoneMgmtRecv) : cmd.dwords < 2 ^ 32 := u32_lt _

theorem slots_eq (cmd : ZoneMgmtRecv) :
    cmd.bytes / zoneDescriptorSize = cmd.dwords / 16 := by
  rw [ZoneMgmtRecv.bytes, zoneDescriptorSize]
  omega

theorem slots_behind_header (cmd : ZoneMgmtRecv) :
    (cmd.bytes - zoneReportSize) / zoneDescriptorSize =
      cmd.dwords / 16 - 1 := by
  rw [ZoneMgmtRecv.bytes, zoneReportSize, zoneDescriptorSize]
  omega

theorem bytes_le_iff : cmd.bytes ≤ reportBufferSize ns ↔
    cmd.dwords ≤ 16 * (ns.zp.nrZones + 1) := by
  rw [ZoneMgmtRecv.bytes, reportBufferSize, zoneReportSize,
    zoneDescriptorSize]
  omega

/-- A difference that wraps is too large for a number of zones. -/
theorem le_of_sub64_lt {left right : ℕ} (hright : right < 2 ^ 32)
    (hlt : sub64 left right < 2 ^ 32) : right ≤ left := by
  have hsmall : u64 right = right := u64_of_lt (by omega)
  rw [sub64, hsmall, u64] at hlt
  omega

/-- A report of zones that exist was asked for with a start zone and a length
that allow it. -/
theorem of_start_add_le (hle : lbaToZone ns cmd.slba + nrZoneToReport ns cmd ≤
      ns.zp.nrZones) :
    lbaToZone ns cmd.slba ≤ ns.zp.nrZones ∧
      (cmd.zraSpecificFeatures = true → 16 ≤ cmd.dwords ∧
        lbaToZone ns cmd.slba + cmd.dwords / 16 ≤ ns.zp.nrZones + 1) := by
  have hzones := nrZones_lt ns
  have hdwords := dwords_lt cmd
  refine ⟨by omega, fun hpart => ?_⟩
  have hlt : sub64 (cmd.dwords / 16) 1 < 2 ^ 32 := by
    rw [nrZoneToReport, if_neg (by simp [hpart]), slots_eq] at hle
    omega
  have hheader := le_of_sub64_lt (by decide) hlt
  rw [nrZoneToReport, if_neg (by simp [hpart]), slots_eq,
    sub64_of_le hheader (by omega)] at hle
  omega

/-- Where the command allows it, the differences do not wrap. -/
theorem nrZoneToReport_eq (h : Reportable ns cmd) :
    nrZoneToReport ns cmd = zonesReported ns cmd := by
  have hzones := nrZones_lt ns
  have hdwords := dwords_lt cmd
  rw [nrZoneToReport, zonesReported]
  split_ifs with hfull
  · exact sub64_of_le h.start_le (by omega)
  · rw [Bool.not_eq_false] at hfull
    have hheader := h.header_le hfull
    have hslots := h.descriptors_le hfull
    rw [slots_eq, slots_behind_header, sub64_of_le (by omega) (by omega)]
    omega

theorem start_add_le (h : Reportable ns cmd) :
    lbaToZone ns cmd.slba + nrZoneToReport ns cmd ≤ ns.zp.nrZones := by
  have hstart := h.start_le
  rw [nrZoneToReport_eq h, zonesReported]
  split_ifs <;> omega

/-- The descriptors of zones that exist fit in the report. -/
theorem fillZoneReport_of_le (hle : lbaToZone ns cmd.slba +
      nrZoneToReport ns cmd ≤ ns.zp.nrZones) :
    ∃ filled, fillZoneReport ns s cmd report = .ok filled ∧
      filled.nrZones = nrZoneToReport ns cmd ∧
      ∀ i < filled.nrZones,
        filled.zd i = s.zoneDescs (lbaToZone ns cmd.slba + i) := by
  have hzones := nrZones_lt ns
  have hsize : u64 (zoneDescriptorSize * nrZoneToReport ns cmd) =
      zoneDescriptorSize * nrZoneToReport ns cmd := by
    apply u64_of_lt
    rw [zoneDescriptorSize]
    omega
  rw [fillZoneReport, hsize, copyDescriptors]
  generalize nrZoneToReport ns cmd = count at hle
  split_ifs with hnone hroom
  · refine ⟨_, rfl, rfl, fun i hi => ?_⟩
    rw [zoneDescriptorSize] at hnone
    dsimp only at hi
    omega
  · refine ⟨_, rfl, rfl, fun i hi => if_pos ?_⟩
    rwa [Nat.mul_div_cancel_left _ (by decide)]
  · apply absurd _ hroom
    rw [reportBufferSize, zoneDescriptorSize, zoneReportSize]
    omega

/-- A report that is filled goes to the host without leaving the buffer when it
is no longer than the buffer, and on some pages only then. -/
theorem znsZmgmtRecv_outOfBounds {filled : ZoneReport} {nsecsStart : ℕ}
    {ret : NvmevResult} (haccepted : checkZmgmtRcvOptionSupported cmd = true)
    (hfill : fillZoneReport ns s cmd report = .ok filled)
    (hpages : FirstPageOnly cmd.asRw)
    (hlong : reportBufferSize ns < cmd.bytes) :
    znsZmgmtRecv ns s nsecsStart cmd report ret = .error .outOfBounds := by
  rw [znsZmgmtRecv, if_pos haccepted, hfill, ok_bind,
    prpTransferData_outOfBounds hpages hlong]
  rfl

theorem znsZmgmtRecv_ne_outOfBounds {filled : ZoneReport} {nsecsStart : ℕ}
    {ret : NvmevResult} (haccepted : checkZmgmtRcvOptionSupported cmd = true)
    (hfill : fillZoneReport ns s cmd report = .ok filled)
    (hfits : cmd.bytes ≤ reportBufferSize ns) :
    znsZmgmtRecv ns s nsecsStart cmd report ret ≠ .error .outOfBounds := by
  rw [znsZmgmtRecv, if_pos haccepted, hfill, ok_bind]
  intro hrun
  obtain hsent | ⟨sent, _, hdone⟩ := bind_eq_error hrun
  · exact prpTransferData_ne_outOfBounds hfits hsent
  · cases hdone

/-- On every assignment of pages, an accepted command stays in bounds and
reports what it has to exactly when its start zone and its length allow it. -/
theorem report_inBounds_iff (s : ZnsFtl) (report : ZoneReport)
    (haccepted : checkZmgmtRcvOptionSupported cmd = true) :
    (∀ prp1 prp2 prpList,
      ReportInBounds ns s (cmd.withPages prp1 prp2 prpList) report) ↔
      Reportable ns cmd := by
  constructor
  · intro h
    obtain ⟨⟨filled, hfill, hle, -, -⟩, hbounds⟩ := h 0 0 fun _ => 0
    have hcount : filled.nrZones = nrZoneToReport ns cmd := by
      have hdone := hfill
      rw [fillZoneReport, copyDescriptors] at hdone
      split_ifs at hdone <;> cases hdone <;> rfl
    rw [hcount] at hle
    obtain ⟨hstart, hpart⟩ := of_start_add_le hle
    refine ⟨hstart, ?_, fun hp => (hpart hp).1, fun hp => (hpart hp).2⟩
    rw [← bytes_le_iff]
    by_contra hlong
    exact hbounds 0 ⟨0, 0, 0⟩ (znsZmgmtRecv_outOfBounds haccepted hfill
      ⟨rfl, rfl, rfl⟩ (Nat.lt_of_not_le hlong))
  · intro h prp1 prp2 prpList
    have hle := start_add_le h
    obtain ⟨filled, hfill, hcount, hdescs⟩ :=
      @fillZoneReport_of_le ns s cmd report hle
    have hfits := bytes_le_iff.mpr h.dwords_le
    refine ⟨⟨filled, hfill, ?_, ?_, hdescs⟩, fun nsecsStart ret => ?_⟩
    · rw [hcount]
      exact hle
    · rw [hcount]
      exact nrZoneToReport_eq h
    · exact znsZmgmtRecv_ne_outOfBounds haccepted hfill hfits

/-- A report buffer as it is allocated, and a command for zone 0. -/
def emptyReport : ZoneReport where
  nrZones := 0
  zd := fun _ => initDescriptor (twoZones 0) 0

def reportZones (nrDw : ℕ) (zraSpecificFeatures : Bool) : ZoneMgmtRecv where
  nsid := 1
  prp1 := 0
  prp2 := 0
  slba := 0
  nrDw := nrDw
  zra := 0
  zraSpecificField := 0
  zraSpecificFeatures := zraSpecificFeatures
  prpList := fun _ => 0

/-- A full report of two zones, in a transfer of 192 bytes. -/
theorem fullReport_inBounds :
    checkZmgmtRcvOptionSupported (reportZones 47 false) = true ∧
      ((∀ prp1 prp2 prpList,
        ReportInBounds (twoZones 0) (twoZonesStart 0).ftl
          ((reportZones 47 false).withPages prp1 prp2 prpList) emptyReport) ↔
        Reportable (twoZones 0) (reportZones 47 false)) ∧
      Reportable (twoZones 0) (reportZones 47 false) := by
  refine ⟨rfl, report_inBounds_iff _ _ rfl, ?_⟩
  exact ⟨by decide, by decide, by decide, by decide⟩

/-- A partial report in a page of the host has room for 63 descriptors, and all
of them are copied from the two that exist. -/
theorem partialReport_outOfBounds :
    checkZmgmtRcvOptionSupported (reportZones 1023 true) = true ∧
      znsZmgmtRecv (twoZones 0) (twoZonesStart 0).ftl 0
        (reportZones 1023 true) emptyReport ⟨0, 0, 0⟩ =
        .error .outOfBounds ∧
      ¬ ReportInBounds (twoZones 0) (twoZonesStart 0).ftl
        (reportZones 1023 true) emptyReport := by
  have hrun : znsZmgmtRecv (twoZones 0) (twoZonesStart 0).ftl 0
      (reportZones 1023 true) emptyReport ⟨0, 0, 0⟩ =
      .error .outOfBounds := rfl
  exact ⟨rfl, hrun, fun h => h.in_bounds 0 ⟨0, 0, 0⟩ hrun⟩

end

end NvmeVirt.MgmtRecv
