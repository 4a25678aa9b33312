import NvmeVirt.Conv.Write
import NvmeVirt.Core.WriteLog

/-!
# A namespace of several partitions

`conv_init_namespace` makes `nr_parts` translation layers, which share the PCIe
link and the write buffer.  `conv_read` looks for the logical page `lpn` in the
instance `lpn % nr_parts`, at the entry `lpn / nr_parts`; `conv_write` maps
every page in the first instance, at the entry `lpn`.
-/

namespace NvmeVirt.Partitions

open NvmeVirt.GarbageCollection
open NvmeVirt.Kernel
open NvmeVirt.Layout
open NvmeVirt.Mapping
open NvmeVirt.Startup
open NvmeVirt.Superblock
open NvmeVirt.Timing
open NvmeVirt.Transition
open NvmeVirt.Write
open NvmeVirt.WriteLog

/-- `fw_4kb_rd_lat` and `fw_rd_lat` of `struct ssdparams`. -/
structure ReadLatency where
  fw4kbRdLat : ℕ
  fwRdLat : ℕ

/-- The instances of a namespace. -/
structure ConvNs where
  ftls : ℕ → Ftl
  ssds : ℕ → Ssd
  lunlms : ℕ → ℕ → Option LineMgmt

def ConvNs.part (s : ConvNs) (i : ℕ) : ConvFtl :=
  ⟨s.ftls i, s.ssds i, s.lunlms i⟩

/-- The device of the instance `i` after a step; the PCIe link, the write
buffer and the clock are those of every instance. -/
def ConvNs.setSsd (s : ConvNs) (i : ℕ) (ssd : Ssd) : ConvNs :=
  { s with
    ssds := fun j =>
      if j = i then ssd
      else { s.ssds j with
        pcie := ssd.pcie, writeBuffer := ssd.writeBuffer, clock := ssd.clock } }

def ConvNs.setPart (s : ConvNs) (i : ℕ) (part : ConvFtl) : ConvNs :=
  { s.setSsd i part.ssd with
    ftls := Function.update s.ftls i part.ftl
    lunlms := Function.update s.lunlms i part.lunlm }

/-- The variables of the loops of `conv_read`.  `consulted` keeps the pages
that were looked up, with the entries found; no function reads it. -/
structure ReadLoop where
  ssd : Ssd
  nsecsLatest : ℕ
  xferSize : ℕ
  prevPpa : Option Ppa
  consulted : List (ℕ × Option Ppa)

/-- What `conv_read` returns in `ret`, with the entries it looked up. -/
structure ReadResult where
  nsecsTarget : ℕ
  status : ℕ
  consulted : List (ℕ × Option Ppa)

/-- A command to the namespace. -/
inductive ConvCmd
  | write (sqid : ℕ) (cmd : RwCommand)
  | read (nsecsStart : ℕ) (cmd : RwCommand)

section

variable (g : Geometry) (cp : ConvParams) (lat : ReadLatency) (nrParts : ℕ)

/-- `is_same_flash_page`. -/
def isSameFlashPage (ppa1 ppa2 : Ppa) : Bool :=
  ppa1.toBlkAddr = ppa2.toBlkAddr ∧
    ppa1.pg / g.pgsPerFlashpg = ppa2.pg / g.pgsPerFlashpg

/-- Read what is left over of the pages before. -/
def issueRead (stime : ℕ) (loop : ReadLoop) : ReadLoop :=
  if 0 < loop.xferSize then
    let srd : NandCmd :=
      { type := .user, cmd := .read, xferSize := loop.xferSize, stime := stime,
        interleavePciDma := true, ppa := loop.prevPpa }
    let (nsecsCompleted, ssd) := ssdAdvanceNand g.toSsdParams loop.ssd srd
    { loop with
      ssd := ssd, nsecsLatest := max nsecsCompleted loop.nsecsLatest }
  else loop

/-- The inner loop of `conv_read`: one page of an instance. -/
def readPage (maptbl : ℕ → Option Ppa) (stime : ℕ) (loop : ReadLoop)
    (lpn : ℕ) : ReadLoop :=
  let curPpa := maptbl (lpn / nrParts)
  let loop := { loop with consulted := loop.consulted ++ [(lpn, curPpa)] }
  match curPpa with
  | none => loop
  | some ppa =>
      if ¬ ValidPpa g ppa then loop
      else if loop.prevPpa.any (isSameFlashPage g ppa) then
        { loop with xferSize := loop.xferSize + g.pgsz }
      else
        { issueRead g stime loop with
          xferSize := g.pgsz, prevPpa := some ppa }

/-- The outer loop of `conv_read`: the pages of the instance of `startLpn`, up
to `endLpn`. -/
def readPart (stime endLpn : ℕ)
    (state : ConvNs × ℕ × List (ℕ × Option Ppa)) (startLpn : ℕ) :
    ConvNs × ℕ × List (ℕ × Option Ppa) :=
  let (s, nsecsLatest, consulted) := state
  let i := startLpn % nrParts
  let maptbl := (s.ftls i).maptbl
  let lpns := List.range' startLpn ((endLpn - startLpn) / nrParts + 1) nrParts
  let loop := lpns.foldl (readPage g nrParts maptbl stime)
    { ssd := s.ssds i, nsecsLatest := nsecsLatest, xferSize := 0,
      prevPpa := maptbl (startLpn / nrParts), consulted := consulted }
  let loop := issueRead g stime loop
  (s.setSsd i loop.ssd, loop.nsecsLatest, loop.consulted)

/-- `conv_read`; `none` where it returns `false`. -/
def convRead (s : ConvNs) (nsecsStart : ℕ) (cmd : RwCommand) :
    Option (ReadResult × ConvNs) :=
  let nrLba := cmd.length + 1
  let startLpn := cmd.slba / g.secsPerPg
  let endLpn := u64 (cmd.slba + cmd.length) / g.secsPerPg
  if g.ttPgs ≤ endLpn / nrParts then none
  else
    let stime :=
      if lbaToByte nrLba ≤ 4096 * nrParts then u64 (nsecsStart + lat.fw4kbRdLat)
      else u64 (nsecsStart + lat.fwRdLat)
    let (s, nsecsLatest, consulted) :=
      (List.range' startLpn (min nrParts (endLpn + 1 - startLpn))).foldl
        (readPart g nrParts stime endLpn) (s, nsecsStart, [])
    some ({ nsecsTarget := nsecsLatest, status := 0, consulted := consulted }, s)

/-- `conv_write` works on `conv_ftls[0]`. -/
def nsWrite (sqid : ℕ) (s : ConvNs) (cmd : RwCommand) :
    Except Fault (WriteResult × ConvNs) := do
  let (result, part) ← convWrite g cp sqid (s.part 0) cmd
  return (result, s.setPart 0 part)

/-- `conv_proc_nvme_io_cmd`. -/
def nsStep (s : ConvNs) : ConvCmd → Except Fault ConvNs
  | .write sqid cmd => do
      let (_, s) ← nsWrite g cp sqid s cmd
      return s
  | .read nsecsStart cmd =>
      match convRead g lat nrParts s nsecsStart cmd with
      | none => .ok s
      | some (_, s) => .ok s

def nsRun (s : ConvNs) (cmds : List ConvCmd) : Except Fault ConvNs :=
  cmds.foldlM (nsStep g cp lat nrParts) s

/-! ## The calls of `set_maptbl_ent` -/

/-- Those of the page loop of `conv_write`, as far as it gets. -/
def pageCalls : ConvFtl × ℕ → List ℕ → List (ℕ × Ppa)
  | _, [] => []
  | state, lpn :: lpns =>
      match checkAndRefillWriteCredit g cp state.1,
        writePage g cp state lpn with
      | .ok s, .ok next => (lpn, getNewPage s.ftl .user) :: pageCalls next lpns
      | _, _ => []

/-- Those of one write. -/
def writeCalls (s : ConvFtl) (cmd : RwCommand) : List (ℕ × Ppa) :=
  let (nsecsStart, ssd) := getWallclock s.ssd
  let (granted, wbuf) := bufferAllocate ssd.writeBuffer cmd.bytes
  if granted = 0 then []
  else
    pageCalls g cp
      ({ s with ssd := { ssd with writeBuffer := wbuf } }, nsecsStart)
      (List.range' (cmd.slba / g.secsPerPg) (cmd.bytes / g.pgsz))

/-- Those of a run, oldest first. -/
def nsCalls (s : ConvNs) : List ConvCmd → List (ℕ × Ppa)
  | [] => []
  | cmd :: cmds =>
      (match cmd with
        | .write _ cmd => writeCalls g cp (s.part 0) cmd
        | .read _ _ => []) ++
      match nsStep g cp lat nrParts s cmd with
      | .ok next => nsCalls next cmds
      | .error _ => []

/-- The pages of those writes that find room in the write buffer, oldest
first. -/
def acceptedLpns : ℕ → List ConvCmd → List ℕ
  | _, [] => []
  | remaining, .read _ _ :: cmds => acceptedLpns remaining cmds
  | remaining, .write _ cmd :: cmds =>
      if remaining < cmd.bytes then acceptedLpns remaining cmds
      else
        List.range' (cmd.slba / g.secsPerPg) (cmd.bytes / g.pgsz) ++
          acceptedLpns (remaining - cmd.bytes) cmds

end

/-! ## What a read looks up -/

section

variable {g : Geometry} {cp : ConvParams} {lat : ReadLatency} {nrParts : ℕ}

/-- The entry `conv_read` reads for a page. -/
def readEntry (nrParts : ℕ) (ftls : ℕ → Ftl) (lpn : ℕ) : Option Ppa :=
  (ftls (lpn % nrParts)).maptbl (lpn / nrParts)

theorem issueRead_consulted (stime : ℕ) (loop : ReadLoop) :
    (issueRead g stime loop).consulted = loop.consulted := by
  rw [issueRead]
  split_ifs <;> rfl

theorem issueRead_writeBuffer (stime : ℕ) (loop : ReadLoop) :
    (issueRead g stime loop).ssd.writeBuffer = loop.ssd.writeBuffer := by
  rw [issueRead]
  split_ifs
  · exact ssdAdvanceNand_writeBuffer _ _ _
  · rfl

/-- A page of the inner loop is looked up, and no buffer changes. -/
theorem readPage_spec (nrParts : ℕ) (maptbl : ℕ → Option Ppa) (stime : ℕ)
    (loop : ReadLoop) (lpn : ℕ) :
    (readPage g nrParts maptbl stime loop lpn).consulted =
        loop.consulted ++ [(lpn, maptbl (lpn / nrParts))] ∧
      (readPage g nrParts maptbl stime loop lpn).ssd.writeBuffer =
        loop.ssd.writeBuffer := by
  rw [readPage]
  cases maptbl (lpn / nrParts) with
  | none => exact ⟨rfl, rfl⟩
  | some ppa =>
      dsimp only
      split_ifs
      · exact ⟨rfl, rfl⟩
      · exact ⟨issueRead_consulted _ _, issueRead_writeBuffer _ _⟩
      · exact ⟨rfl, rfl⟩

theorem readPages_spec (nrParts : ℕ) (maptbl : ℕ → Option Ppa) (stime : ℕ)
    (lpns : List ℕ) (loop : ReadLoop) :
    (lpns.foldl (readPage g nrParts maptbl stime) loop).consulted =
        loop.consulted ++ lpns.map (fun lpn => (lpn, maptbl (lpn / nrParts))) ∧
      (lpns.foldl (readPage g nrParts maptbl stime) loop).ssd.writeBuffer =
        loop.ssd.writeBuffer := by
  induction lpns generalizing loop with
  | nil => exact ⟨(List.append_nil _).symm, rfl⟩
  | cons lpn lpns ih =>
      obtain ⟨hpage, hpageBuffer⟩ :=
        readPage_spec (g := g) nrParts maptbl stime loop lpn
      obtain ⟨hrest, hrestBuffer⟩ :=
        ih (readPage g nrParts maptbl stime loop lpn)
      rw [List.foldl_cons, hrest, hpage, hrestBuffer, hpageBuffer]
      refine ⟨?_, rfl⟩
      rw [List.append_assoc, List.map_cons, List.singleton_append]

/-- Every instance has the write buffer `buf`. -/
def Shared (s : ConvNs) (buf : Buffer) : Prop :=
  ∀ i, (s.ssds i).writeBuffer = buf

theorem setSsd_shared (s : ConvNs) (i : ℕ) (ssd : Ssd) :
    Shared (s.setSsd i ssd) ssd.writeBuffer := by
  intro j
  rw [ConvNs.setSsd]
  dsimp only
  split_ifs <;> rfl

/-- The pages `readPart` looks up. -/
def partLpns (nrParts endLpn startLpn : ℕ) : List ℕ :=
  List.range' startLpn ((endLpn - startLpn) / nrParts + 1) nrParts

/-- The pages of one instance. -/
theorem readPart_spec {buf : Buffer} (nrParts stime endLpn : ℕ)
    {state : ConvNs × ℕ × List (ℕ × Option Ppa)}
    (hshared : Shared state.1 buf) (startLpn : ℕ) :
    (readPart g nrParts stime endLpn state startLpn).1.ftls = state.1.ftls ∧
      Shared (readPart g nrParts stime endLpn state startLpn).1 buf ∧
      (readPart g nrParts stime endLpn state startLpn).2.2 = state.2.2 ++
        (partLpns nrParts endLpn startLpn).map fun lpn =>
          (lpn, readEntry nrParts state.1.ftls lpn) := by
  obtain ⟨s, nsecsLatest, consulted⟩ := state
  obtain ⟨hconsulted, hbuffer⟩ := readPages_spec (g := g) nrParts
    (s.ftls (startLpn % nrParts)).maptbl stime (partLpns nrParts endLpn startLpn)
    { ssd := s.ssds (startLpn % nrParts), nsecsLatest := nsecsLatest,
      xferSize := 0,
      prevPpa := (s.ftls (startLpn % nrParts)).maptbl (startLpn / nrParts),
      consulted := consulted }
  have hentries : (partLpns nrParts endLpn startLpn).map (fun lpn =>
        (lpn, (s.ftls (startLpn % nrParts)).maptbl (lpn / nrParts))) =
      (partLpns nrParts endLpn startLpn).map
        fun lpn => (lpn, readEntry nrParts s.ftls lpn) := by
    apply List.map_congr_left
    intro lpn hlpn
    obtain ⟨k, -, rfl⟩ := List.mem_range'.mp hlpn
    rw [readEntry, Nat.add_mul_mod_self_left]
  rw [hentries] at hconsulted
  refine ⟨rfl, ?_, ?_⟩
  · have hpart := setSsd_shared s (startLpn % nrParts)
      (issueRead g stime
        ((partLpns nrParts endLpn startLpn).foldl
          (readPage g nrParts (s.ftls (startLpn % nrParts)).maptbl stime)
          { ssd := s.ssds (startLpn % nrParts), nsecsLatest := nsecsLatest,
            xferSize := 0,
            prevPpa :=
              (s.ftls (startLpn % nrParts)).maptbl (startLpn / nrParts),
            consulted := consulted })).ssd
    rw [issueRead_writeBuffer, hbuffer] at hpart
    exact fun i => (hpart i).trans (hshared _)
  · exact (issueRead_consulted _ _).trans hconsulted

theorem readParts_spec {buf : Buffer} (nrParts stime endLpn : ℕ)
    (starts : List ℕ) (state : ConvNs × ℕ × List (ℕ × Option Ppa))
    (hshared : Shared state.1 buf) :
    (starts.foldl (readPart g nrParts stime endLpn) state).1.ftls =
        state.1.ftls ∧
      Shared (starts.foldl (readPart g nrParts stime endLpn) state).1 buf ∧
      (starts.foldl (readPart g nrParts stime endLpn) state).2.2 =
        state.2.2 ++ (starts.flatMap (partLpns nrParts endLpn)).map fun lpn =>
          (lpn, readEntry nrParts state.1.ftls lpn) := by
  induction starts generalizing state with
  | nil => exact ⟨rfl, hshared, (List.append_nil _).symm⟩
  | cons start starts ih =>
      obtain ⟨hftls, hbuffers, hconsulted⟩ :=
        readPart_spec (g := g) nrParts stime endLpn hshared start
      obtain ⟨hrest, hrestBuffers, hrestConsulted⟩ := ih _ hbuffers
      rw [List.foldl_cons]
      refine ⟨hrest.trans hftls, hrestBuffers, ?_⟩
      rw [hrestConsulted, hconsulted, hftls, List.append_assoc,
        List.flatMap_cons, List.map_append]

/-- Both loops together visit every page of the command. -/
theorem mem_partLpns (hn : 1 ≤ nrParts) {startLpn endLpn lpn : ℕ}
    (hstart : startLpn ≤ lpn) (hend : lpn ≤ endLpn) :
    lpn ∈ (List.range' startLpn (min nrParts (endLpn + 1 - startLpn))).flatMap
      (partLpns nrParts endLpn) := by
  have hmod := Nat.mod_lt (lpn - startLpn) hn
  have hle := Nat.mod_le (lpn - startLpn) nrParts
  have hsplit := Nat.mod_add_div (lpn - startLpn) nrParts
  rw [List.mem_flatMap]
  refine ⟨startLpn + (lpn - startLpn) % nrParts, ?_, ?_⟩
  · exact List.mem_range'_1.mpr ⟨Nat.le_add_right _ _, by omega⟩
  · apply List.mem_range'.mpr
    refine ⟨(lpn - startLpn) / nrParts, ?_, by omega⟩
    rw [Nat.lt_succ_iff, Nat.le_div_iff_mul_le hn, Nat.mul_comm]
    omega

/-- An accepted read is in range, and returns what its outer loop leaves. -/
theorem convRead_eq_some {s s' : ConvNs} {nsecsStart : ℕ} {cmd : RwCommand}
    {out : ReadResult}
    (hread : convRead g lat nrParts s nsecsStart cmd = some (out, s')) :
    u64 (cmd.slba + cmd.length) / g.secsPerPg / nrParts < g.ttPgs ∧
      ∃ stime,
        (List.range' (cmd.slba / g.secsPerPg) (min nrParts
            (u64 (cmd.slba + cmd.length) / g.secsPerPg + 1 -
              cmd.slba / g.secsPerPg))).foldl
          (readPart g nrParts stime
            (u64 (cmd.slba + cmd.length) / g.secsPerPg))
          (s, nsecsStart, []) = (s', out.nsecsTarget, out.consulted) := by
  rw [convRead] at hread
  dsimp only at hread
  by_cases hrange : g.ttPgs ≤
      u64 (cmd.slba + cmd.length) / g.secsPerPg / nrParts
  · rw [if_pos hrange] at hread
    cases hread
  · rw [if_neg hrange] at hread
    cases hread
    exact ⟨Nat.lt_of_not_le hrange, _, rfl⟩

/-- A read looks up the pages it covers, each at the entry `readEntry`, and
leaves the mapping and the write buffer. -/
theorem convRead_spec {buf : Buffer} {s s' : ConvNs} (hshared : Shared s buf)
    (hn : 1 ≤ nrParts) {nsecsStart : ℕ} {cmd : RwCommand} {out : ReadResult}
    (hread : convRead g lat nrParts s nsecsStart cmd = some (out, s')) :
    s'.ftls = s.ftls ∧ Shared s' buf ∧
      (∀ pair ∈ out.consulted, pair.2 = readEntry nrParts s.ftls pair.1) ∧
      ∀ lpn, cmd.slba / g.secsPerPg ≤ lpn →
        lpn ≤ u64 (cmd.slba + cmd.length) / g.secsPerPg →
        (lpn, readEntry nrParts s.ftls lpn) ∈ out.consulted := by
  obtain ⟨-, stime, hloop⟩ := convRead_eq_some hread
  obtain ⟨hftls, hbuffers, hconsulted⟩ :=
    readParts_spec (g := g) nrParts stime _ _ (s, nsecsStart, []) hshared
  rw [hloop] at hftls hbuffers hconsulted
  rw [List.nil_append] at hconsulted
  dsimp only at hconsulted
  refine ⟨hftls, hbuffers, ?_, ?_⟩
  · intro pair hpair
    rw [hconsulted] at hpair
    obtain ⟨lpn, -, rfl⟩ := List.mem_map.mp hpair
    rfl
  · intro lpn hstart hend
    rw [hconsulted]
    exact List.mem_map.mpr ⟨lpn, mem_partLpns hn hstart hend, rfl⟩

/-! ## What the writes set -/

/-- The first instance after the calls `calls`: its table is what they set, and
each took the next page of the line under the write pointer. -/
structure Traced (g : Geometry) (calls : List (ℕ × Ppa)) (s : Ftl) :
    Prop where
  writing : Writing g calls.length s
  maptbl_eq : s.maptbl = lastWrite calls
  rank_eq : ∀ i (h : i < calls.length), rank g calls[i].2 = i
  lpn_lt : ∀ call ∈ calls, call.1 < g.ttPgs

theorem traced_freshFtl : Traced g [] (freshFtl g) where
  writing := writing_freshFtl
  maptbl_eq := rfl
  rank_eq i h := absurd h (Nat.not_lt_zero i)
  lpn_lt _ h := absurd h List.not_mem_nil

/-- No two pages were given the same address. -/
theorem Traced.inj {calls : List (ℕ × Ppa)} {s : Ftl} (h : Traced g calls s)
    {lpn lpn' : ℕ} {ppa : Ppa} (hset : lastWrite calls lpn = some ppa)
    (hset' : lastWrite calls lpn' = some ppa) : lpn = lpn' := by
  obtain ⟨i, hi, hcall⟩ := List.mem_iff_getElem.mp (mem_of_lastWrite hset)
  obtain ⟨j, hj, hcall'⟩ := List.mem_iff_getElem.mp (mem_of_lastWrite hset')
  have hrank := h.rank_eq i hi
  have hrank' := h.rank_eq j hj
  rw [hcall] at hrank
  rw [hcall'] at hrank'
  have hij : i = j := hrank.symm.trans hrank'
  subst hij
  exact congrArg Prod.fst (hcall.symm.trans hcall')

/-- No page was given to two of the calls. -/
theorem Traced.nodup_pages {calls : List (ℕ × Ppa)} {s : Ftl}
    (h : Traced g calls s) : (calls.map Prod.snd).Nodup := by
  have hranks : (calls.map Prod.snd).map (rank g) =
      List.range calls.length := by
    apply List.ext_getElem
    · rw [List.length_map, List.length_map, List.length_range]
    · intro i hi _
      rw [List.getElem_map, List.getElem_map, List.getElem_range]
      rw [List.length_map, List.length_map] at hi
      exact h.rank_eq i hi
  exact List.Nodup.of_map (rank g) (hranks ▸ List.nodup_range)

/-- A page that is written without a failing assertion is in range. -/
theorem lpn_lt_of_writePage {state state' : ConvFtl × ℕ} {lpn : ℕ}
    (hrun : writePage g cp state lpn = .ok state') : lpn < g.ttPgs := by
  obtain ⟨s, time⟩ := state
  obtain ⟨after, _, hpage⟩ := bind_eq_ok hrun
  obtain ⟨ftl, hset, -⟩ := bind_eq_ok hpage
  exact (setMaptblEnt_eq_ok hset).1

/-- One page. -/
theorem Traced.writePage {calls : List (ℕ × Ppa)} {s s' : ConvFtl}
    {lpn time time' : ℕ} (h : Traced g calls s.ftl)
    (hrun : writePage g cp (s, time) lpn = .ok (s', time')) :
    Traced g (calls ++ [(lpn, getNewPage s.ftl .user)]) s'.ftl ∧
      s'.ssd.writeBuffer = s.ssd.writeBuffer := by
  obtain ⟨hnext, hlast⟩ := h.writing.writePage cp
    (lpn_lt_of_writePage hrun) time
  have hlt := h.writing.pages_lt
  by_cases hend : calls.length + 1 = g.pgsPerLine
  · rw [hlast hend] at hrun
    cases hrun
  obtain ⟨after, time'', hafter, hwriting, hbuffer, hmaptbl⟩ :=
    hnext (by omega)
  rw [hrun] at hafter
  cases hafter
  refine ⟨⟨?_, ?_, ?_, ?_⟩, hbuffer⟩
  · rw [List.length_append]
    exact hwriting
  · rw [hmaptbl, h.maptbl_eq, lastWrite_append]
  · intro i hi
    rw [List.getElem_append]
    split_ifs with hold
    · exact h.rank_eq i hold
    · rw [List.length_append, List.length_singleton] at hi
      rw [List.getElem_singleton]
      exact h.writing.wp_rank.trans (by omega)
  · rw [List.forall_mem_append]
    exact ⟨h.lpn_lt, List.forall_mem_singleton.mpr
      (lpn_lt_of_writePage hrun)⟩

/-- The page loop of a write. -/
theorem Traced.writePages {calls : List (ℕ × Ppa)} {s s' : ConvFtl}
    {lpns : List ℕ} {time time' : ℕ} (h : Traced g calls s.ftl)
    (hrun : lpns.foldlM (Write.writePage g cp) (s, time) = .ok (s', time')) :
    Traced g (calls ++ pageCalls g cp (s, time) lpns) s'.ftl ∧
      (pageCalls g cp (s, time) lpns).map Prod.fst = lpns ∧
      s'.ssd.writeBuffer = s.ssd.writeBuffer := by
  induction lpns generalizing calls s time with
  | nil =>
      cases hrun
      rw [pageCalls, List.append_nil]
      exact ⟨h, rfl, rfl⟩
  | cons lpn lpns ih =>
      rw [List.foldlM_cons] at hrun
      obtain ⟨⟨next, nextTime⟩, hpage, hrest⟩ := bind_eq_ok hrun
      obtain ⟨hnext, hbuffer⟩ := h.writePage hpage
      obtain ⟨hafter, hlpns, hbuffer'⟩ := ih hnext hrest
      have hcalls : pageCalls g cp (s, time) (lpn :: lpns) =
          (lpn, getNewPage s.ftl .user) ::
            pageCalls g cp (next, nextTime) lpns := by
        rw [pageCalls, h.writing.checkAndRefill cp, hpage]
      rw [hcalls, List.map_cons, hlpns, List.append_cons]
      exact ⟨hafter, rfl, hbuffer'.trans hbuffer⟩

/-- One write, refused or accepted. -/
theorem Traced.convWrite {calls : List (ℕ × Ppa)} {s s' : ConvFtl}
    {sqid : ℕ} {cmd : RwCommand} {result : WriteResult}
    (h : Traced g calls s.ftl)
    (hrun : convWrite g cp sqid s cmd = .ok (result, s')) :
    Traced g (calls ++ writeCalls g cp s cmd) s'.ftl ∧
      (writeCalls g cp s cmd).map Prod.fst =
        (if s.ssd.writeBuffer.remaining < cmd.bytes then []
        else List.range' (cmd.slba / g.secsPerPg) (cmd.bytes / g.pgsz)) ∧
      s'.ssd.writeBuffer.remaining =
        if s.ssd.writeBuffer.remaining < cmd.bytes then
          s.ssd.writeBuffer.remaining
        else s.ssd.writeBuffer.remaining - cmd.bytes := by
  rw [Write.convWrite] at hrun
  rw [writeCalls]
  by_cases hfull : s.ssd.writeBuffer.remaining < cmd.bytes
  · simp only [getWallclock_writeBuffer, bufferAllocate_bytes, if_pos hfull,
      if_true] at hrun ⊢
    cases hrun
    rw [List.append_nil]
    exact ⟨h, rfl, rfl⟩
  · simp only [getWallclock_writeBuffer, bufferAllocate_bytes, if_neg hfull,
      cmd.bytes_pos.ne', if_false] at hrun ⊢
    obtain ⟨⟨after, time⟩, hpages, hgc⟩ := bind_eq_ok hrun
    obtain ⟨hafter, hlpns, hbuffer⟩ := Traced.writePages
      (s := { s with
        ssd := { (getWallclock s.ssd).2 with
          writeBuffer := { s.ssd.writeBuffer with
            remaining := s.ssd.writeBuffer.remaining - cmd.bytes } } })
      h hpages
    have hdone : s' = after := by
      dsimp only at hgc
      split_ifs at hgc
      · rw [hafter.writing.doGc cp false] at hgc
        cases hgc
        rfl
      · cases hgc
        rfl
    rw [hdone, hbuffer]
    exact ⟨hafter, hlpns, rfl⟩

/-! ## Runs -/

/-- The namespace as `conv_init_namespace` leaves it. -/
structure NsInit (g : Geometry) (s : ConvNs) : Prop where
  init : ∀ i, convInitFtl g = .ok (s.ftls i)
  shared : Shared s (s.ssds 0).writeBuffer

/-- The namespace after the calls `calls`. -/
structure NsTraced (g : Geometry) (calls : List (ℕ × Ppa)) (s : ConvNs) :
    Prop where
  first : Traced g calls (s.ftls 0)
  others : ∀ i, i ≠ 0 → s.ftls i = freshFtl g
  shared : Shared s (s.ssds 0).writeBuffer

theorem NsInit.traced {s : ConvNs} (h : NsInit g s) : NsTraced g [] s := by
  have hfresh := fun i => (of_convInitFtl (h.init i)).2
  refine ⟨?_, fun i _ => hfresh i, h.shared⟩
  rw [hfresh 0]
  exact traced_freshFtl

/-- One write, which works on the first instance. -/
theorem NsTraced.nsWrite {calls : List (ℕ × Ppa)} {s s' : ConvNs} {sqid : ℕ}
    {cmd : RwCommand} {result : WriteResult} (h : NsTraced g calls s)
    (hrun : nsWrite g cp sqid s cmd = .ok (result, s')) :
    NsTraced g (calls ++ writeCalls g cp (s.part 0) cmd) s' ∧
      (writeCalls g cp (s.part 0) cmd).map Prod.fst =
        (if (s.ssds 0).writeBuffer.remaining < cmd.bytes then []
        else List.range' (cmd.slba / g.secsPerPg) (cmd.bytes / g.pgsz)) ∧
      (s'.ssds 0).writeBuffer.remaining =
        if (s.ssds 0).writeBuffer.remaining < cmd.bytes then
          (s.ssds 0).writeBuffer.remaining
        else (s.ssds 0).writeBuffer.remaining - cmd.bytes := by
  obtain ⟨⟨result', part⟩, hpart, hset⟩ := bind_eq_ok hrun
  cases hset
  obtain ⟨htraced, hlpns, hremaining⟩ :=
    Traced.convWrite (s := s.part 0) h.first hpart
  have hbuffers : Shared (s.setPart 0 part) part.ssd.writeBuffer :=
    setSsd_shared s 0 part.ssd
  have hsame : (s.part 0).ssd = s.ssds 0 := rfl
  rw [hsame] at hlpns hremaining
  refine ⟨⟨?_, fun i hi => ?_, ?_⟩, hlpns, ?_⟩
  · rw [ConvNs.setPart]
    dsimp only
    rw [Function.update_self]
    exact htraced
  · rw [← h.others i hi]
    exact Function.update_of_ne hi _ _
  · rw [hbuffers 0]
    exact hbuffers
  · rw [hbuffers 0]
    exact hremaining

/-- A run of commands that does not stop at a failing assertion. -/
theorem NsTraced.nsRun {calls : List (ℕ × Ppa)} {s s' : ConvNs}
    {cmds : List ConvCmd} (hn : 1 ≤ nrParts) (h : NsTraced g calls s)
    (hrun : nsRun g cp lat nrParts s cmds = .ok s') :
    NsTraced g (calls ++ nsCalls g cp lat nrParts s cmds) s' ∧
      (nsCalls g cp lat nrParts s cmds).map Prod.fst =
        acceptedLpns g (s.ssds 0).writeBuffer.remaining cmds := by
  induction cmds generalizing calls s with
  | nil =>
      cases hrun
      rw [nsCalls, List.append_nil]
      exact ⟨h, rfl⟩
  | cons cmd cmds ih =>
      rw [Partitions.nsRun, List.foldlM_cons] at hrun
      obtain ⟨next, hstep, hrest⟩ := bind_eq_ok hrun
      cases cmd with
      | write sqid cmd =>
          obtain ⟨⟨result, _⟩, hwrite, hnext⟩ := bind_eq_ok hstep
          cases hnext
          obtain ⟨hafter, hlpns, hremaining⟩ := h.nsWrite hwrite
          obtain ⟨hfinal, hfinalLpns⟩ := ih hafter hrest
          have hcalls : nsCalls g cp lat nrParts s (.write sqid cmd :: cmds) =
              writeCalls g cp (s.part 0) cmd ++
                nsCalls g cp lat nrParts next cmds := by
            rw [nsCalls, hstep]
          rw [hcalls, List.map_append, hlpns, hfinalLpns, ← List.append_assoc,
            hremaining, acceptedLpns]
          refine ⟨hfinal, ?_⟩
          split_ifs <;> rfl
      | read nsecsStart cmd =>
          have hcalls : nsCalls g cp lat nrParts s (.read nsecsStart cmd :: cmds) =
              nsCalls g cp lat nrParts next cmds := by
            rw [nsCalls, hstep, List.nil_append]
          have hnext : next.ftls = s.ftls ∧
              Shared next (s.ssds 0).writeBuffer := by
            rw [nsStep] at hstep
            cases hread : convRead g lat nrParts s nsecsStart cmd with
            | none =>
                rw [hread] at hstep
                cases hstep
                exact ⟨rfl, h.shared⟩
            | some result =>
                rw [hread] at hstep
                obtain ⟨out, after⟩ := result
                cases hstep
                obtain ⟨hftls, hbuffers, -, -⟩ :=
                  convRead_spec h.shared hn hread
                exact ⟨hftls, hbuffers⟩
          obtain ⟨hftls, hbuffers⟩ := hnext
          have hafter : NsTraced g calls next := by
            refine ⟨?_, fun i hi => ?_, ?_⟩
            · rw [hftls]
              exact h.first
            · rw [hftls]
              exact h.others i hi
            · rw [hbuffers 0]
              exact hbuffers
          rw [hcalls, acceptedLpns, ← hbuffers 0]
          exact ih hafter hrest

/-! ## The result -/

/-- Whatever a read looks up, it finds what was set last. -/
def ReadsLastSet (g : Geometry) (lat : ReadLatency) (nrParts : ℕ) (s : ConvNs)
    (calls : List (ℕ × Ppa)) : Prop :=
  ∀ nsecsStart cmd out s',
    convRead g lat nrParts s nsecsStart cmd = some (out, s') →
    ∀ pair ∈ out.consulted, ∀ ppa, lastWrite calls pair.1 = some ppa →
      pair.2 = some ppa

/-- The entries reads look up are different for different pages. -/
theorem readEntry_inj (nrParts : ℕ) :
    Function.Injective fun lpn => (lpn % nrParts, lpn / nrParts) := by
  intro lpn lpn' heq
  obtain ⟨hmod, hdiv⟩ := Prod.mk.inj heq
  calc
    lpn = lpn % nrParts + nrParts * (lpn / nrParts) :=
      (Nat.mod_add_div lpn nrParts).symm
    _ = lpn' % nrParts + nrParts * (lpn' / nrParts) := by rw [hmod, hdiv]
    _ = lpn' := Nat.mod_add_div lpn' nrParts

theorem seven_lt : 7 < 2 ^ 16 := by decide

/-- A command on the page `lpn` alone. -/
def onePage (lpn : ℕ) : RwCommand := ⟨8 * lpn, 7, seven_lt⟩

/-- Every page of the device can be read. -/
theorem convRead_onePage (lat : ReadLatency) {s : ConvNs}
    (hshared : Shared s (s.ssds 0).writeBuffer)
    (hn : 1 ≤ nrParts) {lpn : ℕ} (hlpn : lpn < g.ttPgs) (nsecsStart : ℕ) :
    ∃ out s', convRead g lat nrParts s nsecsStart (onePage lpn) =
        some (out, s') ∧
      (lpn, readEntry nrParts s.ftls lpn) ∈ out.consulted := by
  have hslba : (onePage lpn).slba / g.secsPerPg = lpn := by
    rw [g.secsPerPg_eq]
    exact Nat.mul_div_cancel_left lpn (by decide)
  have hend : u64 ((onePage lpn).slba + (onePage lpn).length) / g.secsPerPg =
      lpn := by
    have hmax := ttPgs_le g
    have hlt : u64 (8 * lpn + 7) = 8 * lpn + 7 := u64_of_lt (by omega)
    rw [g.secsPerPg_eq]
    exact (congrArg (· / 8) hlt).trans (by omega)
  cases hread : convRead g lat nrParts s nsecsStart (onePage lpn) with
  | none =>
      have hle := Nat.div_le_self lpn nrParts
      rw [convRead, hend, if_neg (by omega)] at hread
      cases hread
  | some result =>
      obtain ⟨out, s'⟩ := result
      obtain ⟨-, -, -, hcovers⟩ := convRead_spec hshared hn hread
      exact ⟨out, s', rfl, hcovers lpn hslba.le hend.ge⟩

/-- With several instances, the entry a read finds for a page other than `0`
is not the one that was set. -/
theorem NsTraced.readEntry_ne {calls : List (ℕ × Ppa)} {s : ConvNs}
    (h : NsTraced g calls s) {lpn : ℕ} {ppa : Ppa} (hn : 1 ≤ nrParts)
    (hparts : nrParts ≠ 1) (hlpn : lpn ≠ 0)
    (hset : lastWrite calls lpn = some ppa) :
    readEntry nrParts s.ftls lpn ≠ some ppa := by
  intro hentry
  rw [readEntry] at hentry
  by_cases hfirst : lpn % nrParts = 0
  · rw [hfirst, h.first.maptbl_eq] at hentry
    have hsame : lpn / nrParts = lpn := h.first.inj hentry hset
    have hlt : lpn / nrParts < lpn :=
      Nat.div_lt_self (Nat.pos_of_ne_zero hlpn) (by omega)
    omega
  · rw [h.others _ hfirst] at hentry
    cases hentry

/-- The entry a read finds for a page that was set is the one that was set, if
there is one instance or the page is page `0`. -/
theorem NsTraced.readEntry_eq {calls : List (ℕ × Ppa)} {s : ConvNs}
    (h : NsTraced g calls s) {lpn : ℕ} (hlpn : nrParts = 1 ∨ lpn = 0) :
    readEntry nrParts s.ftls lpn = lastWrite calls lpn := by
  rw [readEntry, ← h.first.maptbl_eq]
  obtain rfl | rfl := hlpn
  · rw [Nat.mod_one, Nat.div_one]
  · rw [Nat.zero_mod, Nat.zero_div]

/-- Reads find what the last write set, exactly when there is one instance or
only page `0` was written. -/
theorem reads_last_set_iff (hn : 1 ≤ nrParts) {s s' : ConvNs}
    {cmds : List ConvCmd} (hinit : NsInit g s)
    (hrun : nsRun g cp lat nrParts s cmds = .ok s') :
    (ReadsLastSet g lat nrParts s' (nsCalls g cp lat nrParts s cmds) ∧
        Function.Injective fun lpn => (lpn % nrParts, lpn / nrParts)) ↔
      nrParts = 1 ∨
        ∀ lpn ∈ acceptedLpns g (s.ssds 0).writeBuffer.remaining cmds,
          lpn = 0 := by
  obtain ⟨hafter, hlpns⟩ := hinit.traced.nsRun hn hrun
  rw [List.nil_append] at hafter
  constructor
  · rintro ⟨hreads, -⟩
    by_contra hbad
    push Not at hbad
    obtain ⟨hparts, lpn, hwritten, hlpn⟩ := hbad
    rw [← hlpns] at hwritten
    obtain ⟨ppa, hset⟩ := exists_lastWrite hwritten
    have hlt : lpn < g.ttPgs := hafter.first.lpn_lt _ (mem_of_lastWrite hset)
    obtain ⟨out, after, hread, hconsulted⟩ :=
      convRead_onePage lat hafter.shared hn hlt 0
    have hentry := hreads 0 (onePage lpn) out after hread _ hconsulted ppa hset
    exact hafter.readEntry_ne hn hparts hlpn hset hentry
  · intro honly
    refine ⟨?_, readEntry_inj nrParts⟩
    intro nsecsStart cmd out after hread pair hpair ppa hset
    obtain ⟨-, -, hentries, -⟩ := convRead_spec hafter.shared hn hread
    have hlpn : nrParts = 1 ∨ pair.1 = 0 := by
      refine honly.imp_right fun hzero => hzero _ ?_
      rw [← hlpns]
      exact List.mem_map.mpr ⟨_, mem_of_lastWrite hset, rfl⟩
    rw [hentries pair hpair, hafter.readEntry_eq hlpn, hset]

/-- A namespace on small instances. -/
def twoPageNs : ConvNs where
  ftls := fun _ => freshFtl twoPageLines
  ssds := fun _ => twoPageSsd
  lunlms := fun _ _ => none

theorem twoPageNs_init : NsInit twoPageLines twoPageNs :=
  ⟨fun _ => twoPageLines_init, fun _ => rfl⟩

/-- A write of page `0` or of page `1` fits into the first line. -/
theorem nsRun_onePage (lpn : Fin 2) : ∃ s',
    nsRun twoPageLines ⟨2, 2, true⟩ ⟨0, 0⟩ 2 twoPageNs
      [.write 1 (onePage lpn)] = .ok s' := by
  have hok : ∀ lpn : Fin 2, (nsRun twoPageLines ⟨2, 2, true⟩ ⟨0, 0⟩ 2
      twoPageNs [.write 1 (onePage lpn)]).isOk = true := by decide +kernel
  exact exists_of_isOk (hok lpn)

theorem reads_last_set_iff_pageZero : ∃ s',
    nsRun twoPageLines ⟨2, 2, true⟩ ⟨0, 0⟩ 2 twoPageNs
        [.write 1 (onePage 0)] = .ok s' ∧
      ((ReadsLastSet twoPageLines ⟨0, 0⟩ 2 s'
            (nsCalls twoPageLines ⟨2, 2, true⟩ ⟨0, 0⟩ 2 twoPageNs
              [.write 1 (onePage 0)]) ∧
          Function.Injective fun lpn => (lpn % 2, lpn / 2)) ↔
        2 = 1 ∨ ∀ lpn ∈ acceptedLpns twoPageLines
          (twoPageNs.ssds 0).writeBuffer.remaining
          [.write 1 (onePage 0)], lpn = 0) := by
  obtain ⟨s', hrun⟩ := nsRun_onePage ⟨0, by decide⟩
  exact ⟨s', hrun, reads_last_set_iff (by decide) twoPageNs_init hrun⟩

/-- Page `1` of two instances is mapped, and the read of it finds no page. -/
theorem page_one_lost : NsInit twoPageLines twoPageNs ∧
    ∃ s' ppa out s'', nsRun twoPageLines ⟨2, 2, true⟩ ⟨0, 0⟩ 2 twoPageNs
        [.write 1 (onePage 1)] = .ok s' ∧
      lastWrite (nsCalls twoPageLines ⟨2, 2, true⟩ ⟨0, 0⟩ 2 twoPageNs
        [.write 1 (onePage 1)]) 1 = some ppa ∧
      convRead twoPageLines ⟨0, 0⟩ 2 s' 0 (onePage 1) = some (out, s'') ∧
      (1, none) ∈ out.consulted := by
  obtain ⟨s', hrun⟩ := nsRun_onePage ⟨1, by decide⟩
  have hn : 1 ≤ 2 := by decide
  have hcalls : nsCalls twoPageLines ⟨2, 2, true⟩ ⟨0, 0⟩ 2 twoPageNs
      [.write 1 (onePage 1)] = [(1, ⟨⟨0, 0, 0, 0⟩, 0⟩)] := by decide +kernel
  have hafter := (twoPageNs_init.traced.nsRun hn hrun).1
  obtain ⟨out, s'', hread, hconsulted⟩ :=
    convRead_onePage ⟨0, 0⟩ hafter.shared hn
      (show 1 < twoPageLines.ttPgs by decide) 0
  have hfresh : readEntry 2 s'.ftls 1 = none :=
    congrArg (fun ftl : Ftl => ftl.maptbl 0) (hafter.others 1 one_ne_zero)
  rw [hfresh] at hconsulted
  exact ⟨twoPageNs_init, s', ⟨⟨0, 0, 0, 0⟩, 0⟩, out, s'', hrun,
    congrArg (lastWrite · 1) hcalls, hread, hconsulted⟩

end

end NvmeVirt.Partitions
