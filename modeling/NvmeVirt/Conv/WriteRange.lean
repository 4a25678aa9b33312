import NvmeVirt.Conv.ReadMerge

/-!
# The range of a write

`conv_read` looks up every page that a sector of the command lies on, and
refuses the command when the last of them is beyond the table.  `conv_write`
starts at the page of the first sector, counts the pages that the bytes of the
command fill, and refuses nothing.
-/

namespace NvmeVirt.WriteRange

open NvmeVirt.GarbageCollection
open NvmeVirt.Kernel
open NvmeVirt.Layout
open NvmeVirt.Mapping
open NvmeVirt.Partitions
open NvmeVirt.ReadMerge
open NvmeVirt.Startup
open NvmeVirt.Timing
open NvmeVirt.Transition
open NvmeVirt.Write
open NvmeVirt.WriteLog

/-! ## The pages -/

/-- The first page of a command. -/
def startLpn (g : Geometry) (cmd : RwCommand) : ℕ := cmd.slba / g.secsPerPg

/-- The last page `conv_read` looks up. -/
def endLpn (g : Geometry) (cmd : RwCommand) : ℕ :=
  u64 (cmd.slba + cmd.length) / g.secsPerPg

/-- What a write of the pages of `cmd` is to do: each of them is mapped to a
page that `get_new_page` gave to this write, and that it gave to none of the
writes `calls` before; every other page keeps its entry.  These are the pages
that a read of the same range looks up. -/
structure UpdatesRange (g : Geometry) (cp : ConvParams) (lat : ReadLatency)
    (calls : List (ℕ × Ppa)) (s s' : ConvNs) (cmd : RwCommand) : Prop where
  updated : ∀ lpn, startLpn g cmd ≤ lpn → lpn ≤ endLpn g cmd →
    ∃ ppa, (lpn, ppa) ∈ writeCalls g cp (s.part 0) cmd ∧
      (s'.ftls 0).maptbl lpn = some ppa ∧ ∀ call ∈ calls, call.2 ≠ ppa
  distinct : ∀ lpn lpn' ppa, (s'.ftls 0).maptbl lpn = some ppa →
    (s'.ftls 0).maptbl lpn' = some ppa → lpn = lpn'
  kept : ∀ lpn, ¬ (startLpn g cmd ≤ lpn ∧ lpn ≤ endLpn g cmd) →
    (s'.ftls 0).maptbl lpn = (s.ftls 0).maptbl lpn
  lookedUp : ∀ nsecsStart out after,
    convRead g lat 1 s' nsecsStart cmd = some (out, after) →
    ∀ lpn, lpn ∈ out.consulted.map Prod.fst ↔
      startLpn g cmd ≤ lpn ∧ lpn ≤ endLpn g cmd

section

variable {g : Geometry} {cp : ConvParams} {lat : ReadLatency} {nrParts : ℕ}

/-- The pages that a read looks up, for any number of partitions. -/
theorem convRead_lookedUp {buf : Buffer} {s s' : ConvNs}
    (hshared : Shared s buf) (hn : 1 ≤ nrParts) {nsecsStart : ℕ}
    {cmd : RwCommand} {out : ReadResult}
    (hread : convRead g lat nrParts s nsecsStart cmd = some (out, s'))
    (lpn : ℕ) :
    lpn ∈ out.consulted.map Prod.fst ↔
      startLpn g cmd ≤ lpn ∧ lpn ≤ endLpn g cmd := by
  constructor
  · intro hlpn
    obtain ⟨-, stime, hloop⟩ := convRead_eq_some hread
    obtain ⟨-, -, hconsulted⟩ := readParts_spec (g := g) nrParts stime
      (endLpn g cmd) (partStarts nrParts (startLpn g cmd) (endLpn g cmd))
      (s, nsecsStart, []) hshared
    rw [partStarts, startLpn, endLpn, hloop, List.nil_append] at hconsulted
    dsimp only at hconsulted
    obtain ⟨pair, hpair, rfl⟩ := List.mem_map.mp hlpn
    have hpage := hconsulted ▸ hpair
    obtain ⟨page, hmem, rfl⟩ := List.mem_map.mp hpage
    obtain ⟨start, hstart, hpart⟩ := List.mem_flatMap.mp hmem
    obtain ⟨hge, hle⟩ := partStarts_le start hstart
    obtain ⟨hfirst, hlast, -⟩ := (mem_partLpns_iff hn hle).mp hpart
    exact ⟨hge.trans hfirst, hlast⟩
  · rintro ⟨hfirst, hlast⟩
    obtain ⟨-, -, -, hcovers⟩ := convRead_spec hshared hn hread
    exact List.mem_map.mpr ⟨_, hcovers lpn hfirst hlast, rfl⟩

/-- The pages the bytes of a write fill are those that its sectors lie on. -/
def SameRange (g : Geometry) (cmd : RwCommand) : Prop :=
  ∀ lpn, startLpn g cmd ≤ lpn →
    (lpn ≤ endLpn g cmd ↔ lpn < startLpn g cmd + cmd.bytes / g.pgsz)

/-- A write that completes maps the pages its bytes fill and no others, so it
is right exactly when these are the pages its sectors lie on. -/
theorem updatesRange_iff {calls : List (ℕ × Ppa)} {s s' : ConvNs}
    (h : NsTraced g calls s) {sqid : ℕ} {cmd : RwCommand}
    {result : WriteResult}
    (hroom : cmd.bytes ≤ (s.ssds 0).writeBuffer.remaining)
    (hwrite : nsWrite g cp sqid s cmd = .ok (result, s')) :
    UpdatesRange g cp lat calls s s' cmd ↔ SameRange g cmd := by
  obtain ⟨hafter, hlpns, -⟩ := h.nsWrite hwrite
  rw [if_neg (Nat.not_lt.mpr hroom)] at hlpns
  have hwritten : ∀ lpn, lpn ∈ (writeCalls g cp (s.part 0) cmd).map Prod.fst ↔
      startLpn g cmd ≤ lpn ∧
        lpn < startLpn g cmd + cmd.bytes / g.pgsz := by
    intro lpn
    rw [hlpns, List.mem_range'_1]
    rfl
  have hentry : ∀ lpn, (s'.ftls 0).maptbl lpn =
      (lastWrite (writeCalls g cp (s.part 0) cmd) lpn).or
        ((s.ftls 0).maptbl lpn) := by
    intro lpn
    rw [hafter.first.maptbl_eq, h.first.maptbl_eq, lastWrite_append_list]
  have hpages := hafter.first.nodup_pages
  rw [List.map_append, List.nodup_append] at hpages
  have hnew : ∀ call ∈ calls, ∀ pair ∈ writeCalls g cp (s.part 0) cmd,
      call.2 ≠ pair.2 := fun call hcall pair hpair =>
    hpages.2.2 _ (List.mem_map_of_mem hcall) _ (List.mem_map_of_mem hpair)
  constructor
  · intro hupdates lpn hfirst
    constructor
    · intro hlast
      obtain ⟨ppa, hpair, -⟩ := hupdates.updated lpn hfirst hlast
      exact ((hwritten lpn).mp (List.mem_map_of_mem hpair)).2
    · intro hlast
      by_contra hbeyond
      -- the page is mapped anew, and was not to be
      obtain ⟨ppa, hset⟩ :=
        exists_lastWrite ((hwritten lpn).mpr ⟨hfirst, hlast⟩)
      have hkept := hupdates.kept lpn fun hin => hbeyond hin.2
      rw [hentry, hset, h.first.maptbl_eq] at hkept
      have hold : lastWrite calls lpn = some ppa := hkept.symm
      exact hnew _ (mem_of_lastWrite hold) _ (mem_of_lastWrite hset) rfl
  · intro hsame
    refine ⟨?_, ?_, ?_, ?_⟩
    · intro lpn hfirst hlast
      obtain ⟨ppa, hset⟩ := exists_lastWrite
        ((hwritten lpn).mpr ⟨hfirst, (hsame lpn hfirst).mp hlast⟩)
      have hpair := mem_of_lastWrite hset
      refine ⟨ppa, hpair, ?_, fun call hcall => hnew call hcall _ hpair⟩
      rw [hentry, hset]
      rfl
    · intro lpn lpn' ppa hmap hmap'
      rw [hafter.first.maptbl_eq] at hmap hmap'
      exact hafter.first.inj hmap hmap'
    · intro lpn hout
      rw [hentry, lastWrite_eq_none]
      · rfl
      · intro hmem
        obtain ⟨hfirst, hlast⟩ := (hwritten lpn).mp hmem
        exact hout ⟨hfirst, (hsame lpn hfirst).mpr hlast⟩
    · intro nsecsStart out after hread
      exact convRead_lookedUp hafter.shared le_rfl hread

/-- The two ranges agree for whole pages only, and where the read of a part of
a page wraps and looks up nothing. -/
theorem sameRange_iff {cmd : RwCommand} (hslba : cmd.slba < 2 ^ 64)
    (hfits : cmd.bytes / g.pgsz = 0 ∨
      startLpn g cmd + cmd.bytes / g.pgsz ≤ g.ttPgs) :
    SameRange g cmd ↔
      (g.secsPerPg ∣ cmd.slba ∧ g.secsPerPg ∣ cmd.length + 1) ∨
        (cmd.length + 1 < g.secsPerPg ∧ 2 ^ 64 ≤ cmd.slba + cmd.length) := by
  have hmax := ttPgs_le g
  have hlength := cmd.length_lt
  have hcount : cmd.bytes / g.pgsz = (cmd.length + 1) / 8 := by
    rw [RwCommand.bytes, lbaToByte, pgsz_eq_4096]
    omega
  rw [SameRange, hcount, startLpn, endLpn, g.secsPerPg_eq]
  rw [hcount, startLpn, g.secsPerPg_eq] at hfits
  by_cases hwrap : cmd.slba + cmd.length < 2 ^ 64
  · rw [u64_of_lt hwrap]
    constructor
    · intro hsame
      have hlast := (hsame ((cmd.slba + cmd.length) / 8) (by omega)).mp le_rfl
      have hnext := mt (hsame ((cmd.slba + cmd.length) / 8 + 1)
        (by omega)).mpr (by omega)
      left
      omega
    · rintro (haligned | hbad)
      · intro lpn hfirst
        omega
      · omega
  · have hend : u64 (cmd.slba + cmd.length) =
        cmd.slba + cmd.length - 2 ^ 64 := by
      rw [u64]
      omega
    rw [hend]
    constructor
    · intro hsame
      have hnone := mt (hsame (cmd.slba / 8) le_rfl).mpr (by omega)
      right
      omega
    · intro hcase lpn hfirst
      omega

/-- A write that finds room and completes has written into the table, in
whatever state. -/
theorem writes_fit {s s' : ConvNs} {sqid : ℕ} {cmd : RwCommand}
    {result : WriteResult}
    (hroom : cmd.bytes ≤ (s.ssds 0).writeBuffer.remaining)
    (hwrite : nsWrite g cp sqid s cmd = .ok (result, s')) :
    cmd.bytes / g.pgsz = 0 ∨
      startLpn g cmd + cmd.bytes / g.pgsz ≤ g.ttPgs := by
  obtain ⟨⟨result', part⟩, hpart, -⟩ := bind_eq_ok hwrite
  have hbuffer : (s.part 0).ssd.writeBuffer = (s.ssds 0).writeBuffer := rfl
  rw [convWrite] at hpart
  simp only [getWallclock_writeBuffer, bufferAllocate_bytes, hbuffer,
    if_neg (Nat.not_lt.mpr hroom), cmd.bytes_pos.ne', if_false] at hpart
  obtain ⟨state, hpages, -⟩ := bind_eq_ok hpart
  obtain hzero | hpos := Nat.eq_zero_or_pos (cmd.bytes / g.pgsz)
  · exact .inl hzero
  · right
    have hlast : startLpn g cmd + (cmd.bytes / g.pgsz - 1) ∈
        List.range' (cmd.slba / g.secsPerPg) (cmd.bytes / g.pgsz) :=
      List.mem_range'_1.mpr
        ⟨Nat.le_add_right _ _, Nat.add_lt_add_left (by omega) _⟩
    obtain ⟨before, after, hpage⟩ := foldlM_item_ok hpages hlast
    have hlt := lpn_lt_of_writePage hpage
    omega

/-- With one instance, a write that finds room and completes updates the pages
that a read of its range looks up exactly when it starts and ends with a page,
or covers a part of a page only, so that it maps nothing, and the range wraps,
so that a read looks up nothing. -/
theorem write_updates_read_range_iff {start s s' : ConvNs}
    {cmds : List ConvCmd} (hinit : NsInit g start)
    (hrun : nsRun g cp lat 1 start cmds = .ok s) {sqid : ℕ} {cmd : RwCommand}
    (hslba : cmd.slba < 2 ^ 64)
    (hroom : cmd.bytes ≤ (s.ssds 0).writeBuffer.remaining)
    {result : WriteResult}
    (hwrite : nsWrite g cp sqid s cmd = .ok (result, s')) :
    UpdatesRange g cp lat (nsCalls g cp lat 1 start cmds) s s' cmd ↔
      (g.secsPerPg ∣ cmd.slba ∧ g.secsPerPg ∣ cmd.length + 1) ∨
        (cmd.length + 1 < g.secsPerPg ∧ 2 ^ 64 ≤ cmd.slba + cmd.length) := by
  obtain ⟨htraced, -⟩ := hinit.traced.nsRun le_rfl hrun
  rw [List.nil_append] at htraced
  calc
    UpdatesRange g cp lat (nsCalls g cp lat 1 start cmds) s s' cmd ↔
        SameRange g cmd := updatesRange_iff htraced hroom hwrite
    _ ↔ _ := sameRange_iff hslba (writes_fit hroom hwrite)

/-- A write of the first page. -/
theorem nsWrite_pageZero : ∃ result s',
    nsWrite twoPageLines ⟨2, 2, true⟩ 1 twoPageNs (onePage 0) =
      .ok (result, s') := by
  have hok : (nsWrite twoPageLines ⟨2, 2, true⟩ 1 twoPageNs
      (onePage 0)).isOk = true := by decide +kernel
  obtain ⟨⟨result, s'⟩, hwrite⟩ := exists_of_isOk hok
  exact ⟨result, s', hwrite⟩

theorem write_updates_read_range_iff_pageZero : ∃ result s',
    nsWrite twoPageLines ⟨2, 2, true⟩ 1 twoPageNs (onePage 0) =
        .ok (result, s') ∧
      (UpdatesRange twoPageLines ⟨2, 2, true⟩ ⟨0, 0⟩
          (nsCalls twoPageLines ⟨2, 2, true⟩ ⟨0, 0⟩ 1 twoPageNs [])
          twoPageNs s' (onePage 0) ↔
        (8 ∣ 8 * 0 ∧ 8 ∣ 7 + 1) ∨ (7 + 1 < 8 ∧ 2 ^ 64 ≤ 8 * 0 + 7)) := by
  obtain ⟨result, s', hwrite⟩ := nsWrite_pageZero
  have hrun : nsRun twoPageLines ⟨2, 2, true⟩ ⟨0, 0⟩ 1 twoPageNs [] =
      .ok twoPageNs := rfl
  exact ⟨result, s', hwrite, write_updates_read_range_iff twoPageNs_init hrun
    (by decide) (by decide) hwrite⟩

/-- A command on the first sector alone. -/
def firstSector : RwCommand := ⟨0, 0, zero_lt_bits⟩

/-- A write of one sector maps no page. -/
theorem firstSector_not_updated :
    NsInit twoPageLines twoPageNs ∧
      firstSector.bytes ≤ (twoPageNs.ssds 0).writeBuffer.remaining ∧
      ∃ result s', nsWrite twoPageLines ⟨2, 2, true⟩ 1 twoPageNs firstSector =
          .ok (result, s') ∧
        ¬ UpdatesRange twoPageLines ⟨2, 2, true⟩ ⟨0, 0⟩ [] twoPageNs s'
          firstSector := by
  have hok : (nsWrite twoPageLines ⟨2, 2, true⟩ 1 twoPageNs
      firstSector).isOk = true := by decide +kernel
  have hroom : firstSector.bytes ≤
      (twoPageNs.ssds 0).writeBuffer.remaining := by decide
  obtain ⟨⟨result, s'⟩, hwrite⟩ := exists_of_isOk hok
  refine ⟨twoPageNs_init, hroom, result, s', hwrite, fun hupdates => ?_⟩
  have hsame :=
    (updatesRange_iff twoPageNs_init.traced hroom hwrite).mp hupdates
  have hbad := (hsame 0 (by decide)).mp (by decide)
  exact absurd hbad (by decide)

end

/-! ## The commands beyond the table -/

/-- `conv_write` with the value it returns, which is `true` in both of its
returns. -/
def convWriteReturn (g : Geometry) (cp : ConvParams) (sqid : ℕ) (s : ConvNs)
    (cmd : RwCommand) : Except Fault (Bool × WriteResult × ConvNs) := do
  let (result, s) ← nsWrite g cp sqid s cmd
  return (true, result, s)

/-- The pages a write maps. -/
def writtenLpns (g : Geometry) (cmd : RwCommand) : List ℕ :=
  List.range' (startLpn g cmd) (cmd.bytes / g.pgsz)

/-- A write is refused when the read of its range is, and then changes neither
the translation layers nor the write buffer; every other write is accepted,
and neither fails an assertion. -/
structure RefusedAsRead (g : Geometry) (cp : ConvParams) (lat : ReadLatency)
    (nrParts sqid nsecsStart : ℕ) (s : ConvNs) (cmd : RwCommand) : Prop where
  refused : convRead g lat nrParts s nsecsStart cmd = none →
    ∃ result s', convWriteReturn g cp sqid s cmd = .ok (false, result, s') ∧
      ∀ i, s'.ftls i = s.ftls i ∧
        (s'.ssds i).writeBuffer = (s.ssds i).writeBuffer
  accepted : convRead g lat nrParts s nsecsStart cmd ≠ none →
    ∃ result s', convWriteReturn g cp sqid s cmd = .ok (true, result, s')

section

variable {g : Geometry} {cp : ConvParams} {lat : ReadLatency} {nrParts : ℕ}

theorem convRead_eq_none_iff {s : ConvNs} {nsecsStart : ℕ} {cmd : RwCommand} :
    convRead g lat nrParts s nsecsStart cmd = none ↔
      g.ttPgs ≤ endLpn g cmd / nrParts := by
  rw [convRead, endLpn]
  dsimp only
  by_cases hrange : g.ttPgs ≤
      u64 (cmd.slba + cmd.length) / g.secsPerPg / nrParts
  · rw [if_pos hrange]
    exact iff_of_true rfl hrange
  · rw [if_neg hrange]
    exact iff_of_false (Option.some_ne_none _) hrange

theorem convWriteReturn_true {sqid : ℕ} {s s' : ConvNs} {cmd : RwCommand}
    {returned : Bool} {result : WriteResult}
    (hrun : convWriteReturn g cp sqid s cmd = .ok (returned, result, s')) :
    returned = true := by
  obtain ⟨out, -, hreturn⟩ := bind_eq_ok hrun
  cases hreturn
  rfl

/-- A write completes exactly when it finds no room, or maps only pages of the
table and leaves a page of the line under the write pointer. -/
theorem convWriteReturn_ok_iff (cp : ConvParams) {calls : List (ℕ × Ppa)}
    {s : ConvNs} (h : NsTraced g calls s) (sqid : ℕ) (cmd : RwCommand) :
    (∃ result s', convWriteReturn g cp sqid s cmd =
        .ok (true, result, s')) ↔
      (s.ssds 0).writeBuffer.remaining < cmd.bytes ∨
        ((∀ lpn ∈ writtenLpns g cmd, lpn < g.ttPgs) ∧
          calls.length + (writtenLpns g cmd).length < g.pgsPerLine) := by
  have hwriting : Writing g calls.length (s.part 0).ftl := h.first.writing
  have hreturn : ∀ result part,
      convWrite g cp sqid (s.part 0) cmd = .ok (result, part) →
        convWriteReturn g cp sqid s cmd =
          .ok (true, result, s.setPart 0 part) := by
    intro result part hwrite
    rw [convWriteReturn, nsWrite, hwrite]
    rfl
  rw [writtenLpns, List.length_range']
  constructor
  · rintro ⟨result, s', hrun⟩
    obtain ⟨⟨result', after⟩, hwrite, -⟩ := bind_eq_ok hrun
    by_cases hroom : (s.ssds 0).writeBuffer.remaining < cmd.bytes
    · exact .inl hroom
    have hlpns : ∀ lpn ∈ List.range' (startLpn g cmd) (cmd.bytes / g.pgsz),
        lpn < g.ttPgs := by
      intro lpn hlpn
      have hlast := (List.mem_range'_1.mp hlpn).2
      obtain hnone | hfits := writes_fit (Nat.not_lt.mp hroom) hwrite
      · rw [hnone] at hlpn
        exact absurd hlpn List.not_mem_nil
      · exact hlast.trans_le hfits
    refine .inr ⟨hlpns, ?_⟩
    by_contra hfull
    obtain ⟨⟨result'', part⟩, hpart, -⟩ := bind_eq_ok hwrite
    rw [(hwriting.convWrite_accepted cp sqid hlpns hroom).2
      (Nat.not_lt.mp hfull)] at hpart
    cases hpart
  · intro hcase
    by_cases hroom : (s.ssds 0).writeBuffer.remaining < cmd.bytes
    · obtain ⟨result, part, hwrite, -⟩ :=
        hwriting.convWrite_refused cp sqid hroom
      exact ⟨result, _, hreturn result part hwrite⟩
    · obtain ⟨hlpns, hfits⟩ := hcase.resolve_left hroom
      obtain ⟨result, part, hwrite, -⟩ :=
        (hwriting.convWrite_accepted cp sqid hlpns hroom).1 hfits
      exact ⟨result, _, hreturn result part hwrite⟩

/-- No write is refused.  So, after any run, a write does as it should exactly
when a read of its range is accepted and the write either finds no room, or
maps only pages of the table, and not the last page of the line. -/
theorem write_refused_as_read_iff {start s : ConvNs} {cmds : List ConvCmd}
    (hinit : NsInit g start) (hn : 1 ≤ nrParts)
    (hrun : nsRun g cp lat nrParts start cmds = .ok s) (sqid nsecsStart : ℕ)
    (cmd : RwCommand) :
    RefusedAsRead g cp lat nrParts sqid nsecsStart s cmd ↔
      endLpn g cmd / nrParts < g.ttPgs ∧
        ((s.ssds 0).writeBuffer.remaining < cmd.bytes ∨
          ((∀ lpn ∈ writtenLpns g cmd, lpn < g.ttPgs) ∧
            (acceptedLpns g (start.ssds 0).writeBuffer.remaining
              cmds).length + (writtenLpns g cmd).length < g.pgsPerLine)) := by
  obtain ⟨htraced, hlpns⟩ := hinit.traced.nsRun hn hrun
  have hok := convWriteReturn_ok_iff cp htraced sqid cmd
  rw [List.nil_append, ← List.length_map, hlpns] at hok
  rw [← hok]
  constructor
  · intro hrefused
    have hrange : endLpn g cmd / nrParts < g.ttPgs := by
      by_contra hbeyond
      obtain ⟨result, s', hreturn, -⟩ := hrefused.refused
        (convRead_eq_none_iff.mpr (Nat.not_lt.mp hbeyond))
      have hbad := convWriteReturn_true hreturn
      cases hbad
    refine ⟨hrange, hrefused.accepted fun hnone => ?_⟩
    have hbeyond := convRead_eq_none_iff.mp hnone
    exact absurd hrange (Nat.not_lt.mpr hbeyond)
  · rintro ⟨hrange, haccepted⟩
    refine ⟨fun hnone => ?_, fun _ => haccepted⟩
    have hbeyond := convRead_eq_none_iff.mp hnone
    exact absurd hrange (Nat.not_lt.mpr hbeyond)

/-- The last page of the device, after the write of a part of a page and a
read. -/
theorem write_refused_as_read_iff_pageFive : ∃ s,
    nsRun twoPageLines ⟨2, 2, true⟩ ⟨0, 0⟩ 2 twoPageNs
        [.write 1 firstSector, .read 0 (onePage 0)] = .ok s ∧
      (RefusedAsRead twoPageLines ⟨2, 2, true⟩ ⟨0, 0⟩ 2 1 0 s (onePage 5) ↔
        endLpn twoPageLines (onePage 5) / 2 < twoPageLines.ttPgs ∧
          ((s.ssds 0).writeBuffer.remaining < (onePage 5).bytes ∨
            ((∀ lpn ∈ writtenLpns twoPageLines (onePage 5),
                lpn < twoPageLines.ttPgs) ∧
              (acceptedLpns twoPageLines
                  (twoPageNs.ssds 0).writeBuffer.remaining
                  [.write 1 firstSector, .read 0 (onePage 0)]).length +
                (writtenLpns twoPageLines (onePage 5)).length <
                  twoPageLines.pgsPerLine))) ∧
      (∀ lpn ∈ writtenLpns twoPageLines (onePage 5),
        lpn < twoPageLines.ttPgs) := by
  have hok : (nsRun twoPageLines ⟨2, 2, true⟩ ⟨0, 0⟩ 2 twoPageNs
      [.write 1 firstSector, .read 0 (onePage 0)]).isOk = true := by
    decide +kernel
  obtain ⟨s, hrun⟩ := exists_of_isOk hok
  exact ⟨s, hrun, write_refused_as_read_iff twoPageNs_init (by decide) hrun 1
    0 (onePage 5), by decide⟩

/-- The page loop fails an assertion wherever it leaves the table. -/
theorem writePages_beyond (cp : ConvParams) (count : ℕ) {pages : ℕ}
    {s : ConvFtl} (h : Writing g pages s.ftl) {lpn : ℕ} (hcount : count ≠ 0)
    (hbeyond : g.ttPgs < lpn + count) (time : ℕ) :
    (List.range' lpn count).foldlM (writePage g cp) (s, time) =
      .error .assertion := by
  induction count generalizing pages s lpn time with
  | zero => exact absurd rfl hcount
  | succ count ih =>
      rw [List.range'_succ, List.foldlM_cons]
      by_cases hlpn : lpn < g.ttPgs
      · obtain ⟨hnext, hlast⟩ := h.writePage cp hlpn time
        have hlt := h.pages_lt
        by_cases hend : pages + 1 = g.pgsPerLine
        · rw [hlast hend, error_bind]
        · obtain ⟨s', time', hrun, hwriting, -⟩ := hnext (by omega)
          rw [hrun, ok_bind]
          exact ih hwriting (by omega) (by omega) time'
      · rw [writePage]
        dsimp only
        rw [h.checkAndRefill cp, ok_bind, setMaptblEnt,
          nvmevAssert_not hlpn]
        rfl

/-- What a write that leaves the table does instead of being refused, after
any run of commands. -/
theorem write_beyond {calls : List (ℕ × Ppa)} {s : ConvNs}
    (h : NsTraced g calls s) (cp : ConvParams) (sqid : ℕ) {cmd : RwCommand}
    (hroom : cmd.bytes ≤ (s.ssds 0).writeBuffer.remaining)
    (hpages : cmd.bytes / g.pgsz ≠ 0)
    (hbeyond : g.ttPgs < startLpn g cmd + cmd.bytes / g.pgsz) :
    convWriteReturn g cp sqid s cmd = .error .assertion := by
  have hbuffer : (s.part 0).ssd.writeBuffer = (s.ssds 0).writeBuffer := rfl
  rw [startLpn] at hbeyond
  rw [convWriteReturn, nsWrite, convWrite]
  simp only [getWallclock_writeBuffer, bufferAllocate_bytes, hbuffer,
    if_neg (Nat.not_lt.mpr hroom), cmd.bytes_pos.ne', if_false]
  rw [ConvNs.part, writePages_beyond cp _ h.first.writing hpages hbeyond,
    error_bind, error_bind, error_bind]

/-- The page behind the table.  With one instance its read is refused, with
two it is accepted; the write of it fails an assertion. -/
theorem pageSix_asserts :
    twoPageLines.ttPgs = 6 ∧ NsInit twoPageLines twoPageNs ∧
      convRead twoPageLines ⟨0, 0⟩ 1 twoPageNs 0 (onePage 6) = none ∧
      convRead twoPageLines ⟨0, 0⟩ 2 twoPageNs 0 (onePage 6) ≠ none ∧
      convWriteReturn twoPageLines ⟨2, 2, true⟩ 1 twoPageNs (onePage 6) =
        .error .assertion ∧
      ∀ nrParts, ¬ RefusedAsRead twoPageLines ⟨2, 2, true⟩ ⟨0, 0⟩ nrParts 1 0
        twoPageNs (onePage 6) := by
  have hread : convRead twoPageLines ⟨0, 0⟩ 1 twoPageNs 0 (onePage 6) =
      none := convRead_eq_none_iff.mpr (by decide)
  have hread' : convRead twoPageLines ⟨0, 0⟩ 2 twoPageNs 0 (onePage 6) ≠
      none := mt convRead_eq_none_iff.mp (by decide)
  have hwrite : convWriteReturn twoPageLines ⟨2, 2, true⟩ 1 twoPageNs
      (onePage 6) = .error .assertion :=
    write_beyond twoPageNs_init.traced ⟨2, 2, true⟩ 1 (by decide) (by decide)
      (by decide)
  refine ⟨rfl, twoPageNs_init, hread, hread', hwrite, ?_⟩
  intro nrParts hrefused
  cases hcase : convRead twoPageLines ⟨0, 0⟩ nrParts twoPageNs 0
      (onePage 6) with
  | none =>
      obtain ⟨result, s', hrun, -⟩ := hrefused.refused hcase
      rw [hwrite] at hrun
      cases hrun
  | some out =>
      obtain ⟨result, s', hrun⟩ := hrefused.accepted (by simp [hcase])
      rw [hwrite] at hrun
      cases hrun

end

end NvmeVirt.WriteRange
