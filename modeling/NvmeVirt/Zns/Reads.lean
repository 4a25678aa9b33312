import NvmeVirt.Conv.Partitions
import NvmeVirt.Core.ChunkWalk
import NvmeVirt.Hybrid.IdleTime
import NvmeVirt.Zns.Commands
import NvmeVirt.Zns.Stripes

/-!
# Reading from a zone

`zns_read` looks at the zone of the first block, and then reads the flash pages
of the command one after the other, whatever the zone says.  A flash page is
read once, for the pages of the command that lie on it, and the command
completes after all of them and after the transfer to the host.
-/

namespace NvmeVirt.ZnsReads

open NvmeVirt.ChunkWalk
open NvmeVirt.Commands
open NvmeVirt.DieTimes
open NvmeVirt.IdleTime
open NvmeVirt.Kernel
open NvmeVirt.Layout
open NvmeVirt.MixedRadix
open NvmeVirt.OneshotPages
open NvmeVirt.Partitions
open NvmeVirt.ReadWrite
open NvmeVirt.Stripes
open NvmeVirt.Timing
open NvmeVirt.Transition
open NvmeVirt.ZoneMoves
open NvmeVirt.Zones

/-! ## The function -/

/-- A read request; `length` is a 16-bit zero-based count of logical blocks. -/
structure ReadRequest where
  nsecsStart : ℕ
  slba : ℕ
  length : ℕ
  length_lt : length < 2 ^ 16

/-- `__nr_lbas_from_rw_cmd`. -/
def ReadRequest.nrLba (req : ReadRequest) : ℕ := req.length + 1

section

variable (ns : ZnsNamespace) (lat : ReadLatency)

/-- `swr` for `pgs` pages from `lpn` on. -/
def pageRead (stime lpn pgs : ℕ) : NandCmd where
  type := .user
  cmd := .read
  xferSize := pgs * ns.pgsz
  stime := stime
  interleavePciDma := false
  ppa := some (lpnToPpa ns lpn)

/-- The loop of `zns_read` over `remaining` pages from `lpn` on, with
`nsecs_latest`. -/
def readPages (stime : ℕ) : ℕ → ℕ → ℕ → Ssd → ℕ → Ssd × ℕ
  | 0, _, _, ssd, nsecsLatest => (ssd, nsecsLatest)
  | fuel + 1, lpn, remaining, ssd, nsecsLatest =>
      if remaining = 0 then (ssd, nsecsLatest)
      else
        let pgOff := (lpnToPpa ns lpn).pg % ns.pgsPerFlashpg
        let pgs := min remaining (ns.pgsPerFlashpg - pgOff)
        let (nsecsCompleted, ssd) :=
          ssdAdvanceNand ns.toSsdParams ssd (pageRead ns stime lpn pgs)
        readPages stime fuel (lpn + pgs) (remaining - pgs) ssd
          (max nsecsCompleted nsecsLatest)

/-- `status`, which does not keep the command from being served. -/
def readStatus (desc : ZoneDescriptor) (slba nrLba : ℕ) : ℕ :=
  if desc.state = .offline then scZnsErrOffline
  else if checkBoundaryError ns slba nrLba = false then scZnsErrBoundary
  else scSuccess

/-- The time the NAND reads of a command start at. -/
def readStime (req : ReadRequest) : ℕ :=
  if lbaToByte req.nrLba ≤ 4096 then u64 (req.nsecsStart + lat.fw4kbRdLat)
  else u64 (req.nsecsStart + lat.fwRdLat)

/-- The first page of a command, and the number of its pages. -/
def firstPage (req : ReadRequest) : ℕ := lbaToLpn ns req.slba

def pageCount (req : ReadRequest) : ℕ :=
  lbaToLpn ns (lastLba req.slba req.nrLba) + 1 - firstPage ns req

/-- The device and `nsecs_latest` after the loop. -/
def afterPages (ssd : Ssd) (req : ReadRequest) : Ssd × ℕ :=
  readPages ns (readStime lat req) (pageCount ns req) (firstPage ns req)
    (pageCount ns req) ssd (readStime lat req)

/-- `zns_read`. -/
def znsRead (s : ZnsFtl) (req : ReadRequest) (ret : NvmevResult) :
    Except Fault (NvmevResult × ZnsFtl) := do
  let desc ← zoneDesc ns s (lpnToZone ns (firstPage ns req))
  let pages := afterPages ns lat s.ssd req
  let sent := ssdAdvancePcie pages.1 pages.2 (req.nrLba * ns.secsz)
  return ({ ret with
    status := readStatus ns desc req.slba req.nrLba
    nsecsTarget := max sent.1 pages.2 }, { s with ssd := sent.2 })

end

/-! ## The flash pages of a read -/

section

variable (ns : ZnsNamespace)

/-- The device makes these NAND calls, and `time` is not before any of them,
nor before `nsecsLatest`. -/
structure Serves (ssd : Ssd) (nsecsLatest : ℕ) (cmds : List NandCmd)
    (after : Ssd) (time : ℕ) : Prop where
  latest_le : nsecsLatest ≤ time
  calls : ∃ calls, DeviceRun none ns.toSsdParams ssd calls after ∧
    calls.map NandCall.ncmd = cmds ∧ ∀ call ∈ calls, call.time ≤ time

/-- The NAND read of a chunk of pages, given as offsets in a zone. -/
def chunkRead (stime base : ℕ) (chunk : ℕ × ℕ) : NandCmd :=
  pageRead ns stime (base + chunk.1) (chunk.2 - chunk.1)

/-- The flash pages of a zone that `count` pages from `slpn` on lie on. -/
def flashBlocks (slpn count : ℕ) : List ℕ :=
  let off := slpn % pgsPerZone ns
  List.range' (off / ns.pgsPerFlashpg)
    ((off + count - 1) / ns.pgsPerFlashpg + 1 - off / ns.pgsPerFlashpg)

/-- The part of the flash page `block` that these pages cover. -/
def flashChunk (slpn count block : ℕ) : ℕ × ℕ :=
  let off := slpn % pgsPerZone ns
  (max off (block * ns.pgsPerFlashpg),
    min (off + count) ((block + 1) * ns.pgsPerFlashpg))

/-- One NAND read for each of the flash pages. -/
def flashReads (stime slpn count : ℕ) : List NandCmd :=
  (flashBlocks ns slpn count).map fun block =>
    chunkRead ns stime (slpn - slpn % pgsPerZone ns)
      (flashChunk ns slpn count block)

/-- The page `lpn` is among those read from the flash page `block`. -/
structure ReadFrom (slpn count block lpn : ℕ) : Prop where
  mem : block ∈ flashBlocks ns slpn count
  first_le : slpn - slpn % pgsPerZone ns + (flashChunk ns slpn count block).1 ≤
    lpn
  lt_last : lpn < slpn - slpn % pgsPerZone ns +
    (flashChunk ns slpn count block).2

end

variable {ns : ZnsNamespace} {lat : ReadLatency}

theorem serves_nil (ns : ZnsNamespace) (ssd : Ssd) (nsecsLatest : ℕ) :
    Serves ns ssd nsecsLatest [] ssd nsecsLatest where
  latest_le := le_rfl
  calls := ⟨[], .start, rfl, List.forall_mem_nil _⟩

/-- One NAND command, and the others after it. -/
theorem Serves.cons {ssd after : Ssd} {nsecsLatest time : ℕ} {ncmd : NandCmd}
    {cmds : List NandCmd}
    (h : Serves ns (ssdAdvanceNand ns.toSsdParams ssd ncmd).2
      (max (ssdAdvanceNand ns.toSsdParams ssd ncmd).1 nsecsLatest) cmds after
      time) : Serves ns ssd nsecsLatest (ncmd :: cmds) after time := by
  obtain ⟨hlatest, calls, hrun, hcmds, htimes⟩ := h
  have hfirst : DeviceRun none ns.toSsdParams ssd
      [callOn none ns.toSsdParams ssd ncmd]
      (ssdAdvanceNand ns.toSsdParams ssd ncmd).2 := DeviceRun.nand ncmd .start
  refine ⟨(le_max_right _ _).trans hlatest, _, hfirst.trans hrun, ?_, ?_⟩
  · rw [← hcmds]
    rfl
  · refine List.forall_mem_cons.mpr ⟨?_, htimes⟩
    exact (le_max_left _ _).trans hlatest

/-- The transfer to the host comes after all of them. -/
theorem Serves.transfer {ssd after : Ssd} {nsecsLatest time : ℕ}
    {cmds : List NandCmd} (h : Serves ns ssd nsecsLatest cmds after time)
    (length : ℕ) :
    Serves ns ssd nsecsLatest cmds (ssdAdvancePcie after time length).2
      (max (ssdAdvancePcie after time length).1 time) := by
  obtain ⟨hlatest, calls, hrun, hcmds, htimes⟩ := h
  refine ⟨hlatest.trans (le_max_right _ _), calls, hrun.other rfl rfl, hcmds,
    fun call hmem => ?_⟩
  exact (htimes call hmem).trans (le_max_right _ _)

/-- The place of a page in its flash page. -/
theorem lpnToPpa_pgOff {zone off : ℕ}
    (hflash : ns.pgsPerFlashpg ∣ ns.pgsPerOneshotpg)
    (hoff : off < pgsPerZone ns)
    (hlpn : zone * pgsPerZone ns + off < 2 ^ 32) :
    (lpnToPpa ns (zone * pgsPerZone ns + off)).pg % ns.pgsPerFlashpg =
      off % ns.pgsPerFlashpg := by
  have hmod : (zone * pgsPerZone ns + off) % pgsPerZone ns = off := by
    rw [Nat.mul_comm, Nat.mul_add_mod, Nat.mod_eq_of_lt hoff]
  have hpg : off % ns.pgsPerOneshotpg < 2 ^ pageBits :=
    (Nat.mod_lt _ ns.pgsPerOneshotpg_pos).trans_le
      (pgsPerOneshotpg_le ns)
  rw [lpnToPpa]
  dsimp only
  rw [off_eq hlpn, hmod, Nat.mod_eq_of_lt hpg, Nat.mod_mod_of_dvd _ hflash]

/-- The loop reads the chunks that the flash pages cut the range into. -/
theorem readPages_serves (stime : ℕ) {fuel zone off remaining : ℕ}
    (hflash : ns.pgsPerFlashpg ∣ ns.pgsPerOneshotpg)
    (hzone : off + remaining ≤ pgsPerZone ns)
    (hpages : zone * pgsPerZone ns + off + remaining ≤ 2 ^ 32)
    (ssd : Ssd) (nsecsLatest : ℕ) :
    Serves ns ssd nsecsLatest
      ((closedChunks ns.pgsPerFlashpg (fun _ => true) fuel off remaining).map
        (chunkRead ns stime (zone * pgsPerZone ns)))
      (readPages ns stime fuel (zone * pgsPerZone ns + off) remaining ssd
        nsecsLatest).1
      (readPages ns stime fuel (zone * pgsPerZone ns + off) remaining ssd
        nsecsLatest).2 := by
  induction fuel generalizing off remaining ssd nsecsLatest with
  | zero => exact serves_nil ns ssd nsecsLatest
  | succ fuel ih =>
      obtain rfl | hremaining := Nat.eq_zero_or_pos remaining
      · rw [readPages, if_pos rfl, closedChunks_zero]
        exact serves_nil ns ssd nsecsLatest
      rw [readPages, if_neg hremaining.ne', closedChunks,
        if_neg hremaining.ne', lpnToPpa_pgOff hflash (by omega) (by omega)]
      dsimp only
      generalize hstep : min remaining
        (ns.pgsPerFlashpg - off % ns.pgsPerFlashpg) = step
      have hle : step ≤ remaining := by
        rw [← hstep]
        exact min_le_left _ _
      have hread : chunkRead ns stime (zone * pgsPerZone ns)
          (off, off + step) =
            pageRead ns stime (zone * pgsPerZone ns + off) step := by
        rw [chunkRead, Nat.add_sub_cancel_left]
      rw [if_pos rfl, List.map_cons, hread, Nat.add_assoc]
      exact .cons (ih (by omega) (by omega) _ _)

section

variable {slpn count : ℕ}

/-- A page of the command is read from its own flash page. -/
theorem readFrom_iff {block lpn : ℕ} :
    ReadFrom ns slpn count block lpn ↔
      (slpn ≤ lpn ∧ lpn < slpn + count) ∧
        block = (lpn - (slpn - slpn % pgsPerZone ns)) / ns.pgsPerFlashpg := by
  have hoff : slpn % pgsPerZone ns ≤ slpn := Nat.mod_le _ _
  have hflash := ns.pgsPerFlashpg_pos
  constructor
  · rintro ⟨-, hfirst, hlast⟩
    rw [flashChunk] at hfirst hlast
    dsimp only at hfirst hlast
    have hblock : (lpn - (slpn - slpn % pgsPerZone ns)) / ns.pgsPerFlashpg =
        block := by
      apply Nat.div_eq_of_lt_le <;> omega
    exact ⟨by omega, hblock.symm⟩
  · rintro ⟨⟨hfirst, hlast⟩, rfl⟩
    generalize hpage : lpn - (slpn - slpn % pgsPerZone ns) = page
    have hle : page / ns.pgsPerFlashpg * ns.pgsPerFlashpg ≤ page :=
      Nat.div_mul_le_self _ _
    have hlt : page < (page / ns.pgsPerFlashpg + 1) * ns.pgsPerFlashpg := by
      rw [Nat.mul_comm]
      exact Nat.lt_mul_div_succ _ hflash
    refine ⟨?_, ?_, ?_⟩
    · rw [flashBlocks, List.mem_range'_1]
      have hlow : slpn % pgsPerZone ns / ns.pgsPerFlashpg ≤
          page / ns.pgsPerFlashpg := Nat.div_le_div_right (by omega)
      have hhigh : page / ns.pgsPerFlashpg ≤
          (slpn % pgsPerZone ns + count - 1) / ns.pgsPerFlashpg :=
        Nat.div_le_div_right (by omega)
      omega
    · rw [flashChunk]
      dsimp only
      omega
    · rw [flashChunk]
      dsimp only
      omega

theorem readFrom_unique {lpn : ℕ} (hfirst : slpn ≤ lpn)
    (hlast : lpn < slpn + count) :
    ∃! block, ReadFrom ns slpn count block lpn := by
  refine ⟨(lpn - (slpn - slpn % pgsPerZone ns)) / ns.pgsPerFlashpg, ?_, ?_⟩
  · exact readFrom_iff.mpr ⟨⟨hfirst, hlast⟩, rfl⟩
  · intro block hread
    exact (readFrom_iff.mp hread).2

/-- The zone of a page and its oneshot page, from the first page of the
zone. -/
theorem zone_oneshot_eq {page : ℕ} (hpage : page < pgsPerZone ns)
    (hlpn : slpn - slpn % pgsPerZone ns + page < 2 ^ 32) :
    lpnToZone ns (slpn - slpn % pgsPerZone ns + page) = slpn / pgsPerZone ns ∧
      oneshotIndex ns (slpn - slpn % pgsPerZone ns + page) =
        page / ns.pgsPerOneshotpg := by
  have hbase : slpn - slpn % pgsPerZone ns =
      slpn / pgsPerZone ns * pgsPerZone ns := by
    have hsplit := Nat.div_add_mod' slpn (pgsPerZone ns)
    omega
  rw [lpnToZone_eq hlpn, oneshotIndex, hbase, digit_div hpage,
    digit_mod hpage]
  exact ⟨rfl, rfl⟩

/-- The pages read with one NAND read lie on one die. -/
theorem dieOf_chunk (hflash : ns.pgsPerFlashpg ∣ ns.pgsPerOneshotpg)
    (hdvd : ns.zp.diesPerZone ∣ ns.ttLuns)
    (hzone : slpn % pgsPerZone ns + count ≤ pgsPerZone ns)
    (hpages : slpn + count ≤ 2 ^ 32) {block lpn : ℕ}
    (hread : ReadFrom ns slpn count block lpn) :
    dieOf ns (slpn - slpn % pgsPerZone ns +
      (flashChunk ns slpn count block).1) = dieOf ns lpn := by
  have hoff : slpn % pgsPerZone ns ≤ slpn := Nat.mod_le _ _
  obtain ⟨⟨hfirst, hlast⟩, hblock⟩ := readFrom_iff.mp hread
  have hle := hread.first_le
  obtain ⟨page, rfl⟩ := Nat.exists_eq_add_of_le
    (show slpn - slpn % pgsPerZone ns ≤ lpn by omega)
  rw [Nat.add_sub_cancel_left] at hblock
  generalize hstart : (flashChunk ns slpn count block).1 = start at hle ⊢
  have hsame : start / ns.pgsPerOneshotpg = page / ns.pgsPerOneshotpg := by
    have hflashes : start / ns.pgsPerFlashpg = page / ns.pgsPerFlashpg := by
      apply le_antisymm
      · exact Nat.div_le_div_right (by omega)
      · rw [← hblock, Nat.le_div_iff_mul_le ns.pgsPerFlashpg_pos, ← hstart]
        exact le_max_right _ _
    obtain ⟨flashes, hflashes'⟩ := hflash
    rw [hflashes', ← Nat.div_div_eq_div_mul, ← Nat.div_div_eq_div_mul,
      hflashes]
  obtain ⟨hzone₁, hindex₁⟩ :=
    @zone_oneshot_eq ns slpn start (by omega) (by omega)
  obtain ⟨hzone₂, hindex₂⟩ :=
    @zone_oneshot_eq ns slpn page (by omega) (by omega)
  rw [dieOf_eq_iff hdvd (by omega) (by omega), hzone₁, hzone₂, hindex₁,
    hindex₂, hsame]
  exact ⟨rfl, Nat.ModEq.refl _⟩

end

/-! ## Commands -/

section

variable {s s' : ZnsFtl} {req : ReadRequest} {ret ret' : NvmevResult}

/-- The blocks of the command are in the namespace. -/
def InNamespace (ns : ZnsNamespace) (req : ReadRequest) : Prop :=
  req.slba + req.nrLba ≤ nrPages ns * ns.secsPerPg

theorem lastLba_eq (hpages : nrPages ns < 2 ^ 32) (hin : InNamespace ns req) :
    lastLba req.slba req.nrLba = req.slba + req.length := by
  rw [InNamespace, ns.secsPerPg_eq, ReadRequest.nrLba] at hin
  rw [lastLba, ReadRequest.nrLba, sub64_of_le (by omega) (by omega)]
  rfl

theorem pages_lt (hpages : nrPages ns < 2 ^ 32) (hin : InNamespace ns req) :
    0 < pageCount ns req ∧ firstPage ns req + pageCount ns req ≤ nrPages ns := by
  have hlast := lastLba_eq hpages hin
  rw [InNamespace, ReadRequest.nrLba, ns.secsPerPg_eq] at hin
  rw [pageCount, firstPage, hlast, lbaToLpn, lbaToLpn, ns.secsPerPg_eq]
  omega

/-- The blocks of one zone are on pages of one zone. -/
theorem pages_in_zone (hpages : nrPages ns < 2 ^ 32)
    (hin : InNamespace ns req)
    (hboundary : checkBoundaryError ns req.slba req.nrLba = true) :
    firstPage ns req % pgsPerZone ns + pageCount ns req ≤ pgsPerZone ns := by
  obtain ⟨hpos, hle⟩ := pages_lt hpages hin
  rw [checkBoundaryError, decide_eq_true_iff, ← lpnToZone_lbaToLpn,
    ← lpnToZone_lbaToLpn] at hboundary
  change lpnToZone ns (firstPage ns req) = _ at hboundary
  have hlast : lbaToLpn ns (lastLba req.slba req.nrLba) =
      firstPage ns req + pageCount ns req - 1 := by
    rw [pageCount] at hpos ⊢
    omega
  rw [hlast, lpnToZone_eq (by omega), lpnToZone_eq (by omega)] at hboundary
  have hfirst := Nat.div_add_mod' (firstPage ns req) (pgsPerZone ns)
  have hend := Nat.div_add_mod' (firstPage ns req + pageCount ns req - 1)
    (pgsPerZone ns)
  have hmod := Nat.mod_lt (firstPage ns req + pageCount ns req - 1)
    (pgsPerZone_pos ns)
  rw [← hboundary] at hend
  omega

/-- What `zns_read` returns, by the device and the time after the reads and
after the transfer. -/
theorem of_znsRead {pages : Ssd × ℕ} {sent : ℕ × Ssd}
    (hpages : afterPages ns lat s.ssd req = pages)
    (hsent : ssdAdvancePcie pages.1 pages.2 (req.nrLba * ns.secsz) = sent)
    (hrun : znsRead ns lat s req ret = .ok (ret', s')) :
    ret'.status = readStatus ns (s.zoneDescs (lbaToZone ns req.slba)) req.slba
        req.nrLba ∧
      ret'.nsecsTarget = max sent.1 pages.2 ∧
      s'.ssd = sent.2 ∧ ∃ ssd, s' = { s with ssd := ssd } := by
  rw [← lpnToZone_lbaToLpn]
  obtain ⟨desc, hdesc, hdone⟩ := bind_eq_ok hrun
  obtain ⟨-, rfl⟩ := of_zoneDesc hdesc
  dsimp only at hdone
  rw [hpages, hsent] at hdone
  obtain ⟨rfl, rfl⟩ := Prod.mk.inj (Except.ok.inj hdone)
  exact ⟨rfl, rfl, rfl, _, rfl⟩

/-- What a read leaves behind. -/
structure ReadsOnce (ns : ZnsNamespace) (lat : ReadLatency) (s : ZnsFtl)
    (req : ReadRequest) (ret' : NvmevResult) (s' : ZnsFtl) : Prop where
  serves : Serves ns s.ssd (readStime lat req)
    (flashReads ns (readStime lat req) (firstPage ns req) (pageCount ns req))
    s'.ssd ret'.nsecsTarget
  once : ∀ lpn, firstPage ns req ≤ lpn →
    lpn < firstPage ns req + pageCount ns req →
    ∃! block, ReadFrom ns (firstPage ns req) (pageCount ns req) block lpn
  die_eq : ∀ block lpn,
    ReadFrom ns (firstPage ns req) (pageCount ns req) block lpn →
    dieOf ns (firstPage ns req - firstPage ns req % pgsPerZone ns +
      (flashChunk ns (firstPage ns req) (pageCount ns req) block).1) =
        dieOf ns lpn
  status_eq : ret'.status = readStatus ns
    (s.zoneDescs (lbaToZone ns req.slba)) req.slba req.nrLba
  state_eq : ∃ ssd, s' = { s with ssd := ssd }

/-- The loop makes the NAND reads of the flash pages. -/
theorem afterPages_serves (hflash : ns.pgsPerFlashpg ∣ ns.pgsPerOneshotpg)
    (hpages : nrPages ns < 2 ^ 32) (hin : InNamespace ns req)
    (hboundary : checkBoundaryError ns req.slba req.nrLba = true)
    (ssd : Ssd) :
    Serves ns ssd (readStime lat req)
      (flashReads ns (readStime lat req) (firstPage ns req)
        (pageCount ns req))
      (afterPages ns lat ssd req).1 (afterPages ns lat ssd req).2 := by
  obtain ⟨hpos, hle⟩ := pages_lt hpages hin
  have hzone := pages_in_zone hpages hin hboundary
  have hsplit := Nat.div_add_mod' (firstPage ns req) (pgsPerZone ns)
  have hbase : firstPage ns req / pgsPerZone ns * pgsPerZone ns =
      firstPage ns req - firstPage ns req % pgsPerZone ns := by omega
  have hloop := @readPages_serves ns (readStime lat req) (pageCount ns req)
    (firstPage ns req / pgsPerZone ns) _ _ hflash hzone (by omega) ssd
    (readStime lat req)
  rw [hsplit, closedChunks_always ns.pgsPerFlashpg_pos _ le_rfl hpos,
    List.map_map, hbase] at hloop
  rw [afterPages]
  exact hloop

/-- A read inside a zone reads every flash page it touches once, for exactly
the pages it asks for, whatever state the zone is in, and completes after all
of these reads. -/
theorem znsRead_reads_once (hflash : ns.pgsPerFlashpg ∣ ns.pgsPerOneshotpg)
    (hdvd : ns.zp.diesPerZone ∣ ns.ttLuns) (hpages : nrPages ns < 2 ^ 32)
    (hin : InNamespace ns req)
    (hboundary : checkBoundaryError ns req.slba req.nrLba = true)
    (hrun : znsRead ns lat s req ret = .ok (ret', s')) :
    ReadsOnce ns lat s req ret' s' := by
  obtain ⟨hstatus, htime, hssd, hstate⟩ := of_znsRead rfl rfl hrun
  have hle := (pages_lt hpages hin).2.trans hpages.le
  have hzone := pages_in_zone hpages hin hboundary
  have hserves := (@afterPages_serves ns lat req hflash hpages hin hboundary
    s.ssd).transfer (req.nrLba * ns.secsz)
  rw [← htime, ← hssd] at hserves
  exact
    { serves := hserves
      once := fun lpn hfirst hlast => readFrom_unique hfirst hlast
      die_eq := fun block lpn hread =>
        dieOf_chunk hflash hdvd hzone hle hread
      status_eq := hstatus
      state_eq := hstate }

/-- The two blocks in the middle of the first zone. -/
def middleBlocks : ReadRequest where
  nsecsStart := 1000
  slba := 7
  length := 1
  length_lt := by decide

theorem znsRead_reads_once_middle : ∃ ret' s',
    znsRead (twoZones 2) ⟨0, 0⟩ (twoZonesStart 2).ftl middleBlocks
        { status := 0, nsecsTarget := 1000, result := 0 } = .ok (ret', s') ∧
      InNamespace (twoZones 2) middleBlocks ∧
      ReadsOnce (twoZones 2) ⟨0, 0⟩ (twoZonesStart 2).ftl middleBlocks ret'
        s' := by
  have hok : (znsRead (twoZones 2) ⟨0, 0⟩ (twoZonesStart 2).ftl middleBlocks
      { status := 0, nsecsTarget := 1000, result := 0 }).isOk = true := by
    decide +kernel
  obtain ⟨⟨ret', s'⟩, hrun⟩ := exists_of_isOk hok
  have hflash : (twoZones 2).pgsPerFlashpg ∣ (twoZones 2).pgsPerOneshotpg :=
    one_dvd _
  have hdvd : (twoZones 2).zp.diesPerZone ∣ (twoZones 2).ttLuns := by decide
  have hpages : nrPages (twoZones 2) < 2 ^ 32 := by decide
  have hin : InNamespace (twoZones 2) middleBlocks := by
    unfold InNamespace
    decide
  have hboundary : checkBoundaryError (twoZones 2) middleBlocks.slba
      middleBlocks.nrLba = true := by decide
  exact ⟨ret', s', hrun, hin,
    znsRead_reads_once hflash hdvd hpages hin hboundary hrun⟩

end

end NvmeVirt.ZnsReads
