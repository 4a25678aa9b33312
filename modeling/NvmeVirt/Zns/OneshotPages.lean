import NvmeVirt.Core.ChunkWalk
import NvmeVirt.Zns.WritePointers

/-!
# The oneshot pages of a write

Both write functions walk their pages one oneshot page at a time, and program
the chunks that close.  The chunks are cut at the multiples of
`pgs_per_oneshotpg` of the offset `__lpn_to_ppa` computes, which is the offset
in the zone as long as `zone_to_slpn` does not wrap.
-/

namespace NvmeVirt.OneshotPages

open NvmeVirt.ChunkWalk
open NvmeVirt.Kernel
open NvmeVirt.Layout
open NvmeVirt.ReadWrite
open NvmeVirt.Timing
open NvmeVirt.WritePointers
open NvmeVirt.Zones

section

variable {ns : ZnsNamespace} {zid : ℕ}

theorem pgsPerOneshotpg_le (ns : ZnsNamespace) :
    ns.pgsPerOneshotpg ≤ 2 ^ pageBits :=
  calc ns.pgsPerOneshotpg
      ≤ ns.pgsPerOneshotpg * ns.oneshotpgsPerBlk :=
        Nat.le_mul_of_pos_right _ ns.oneshotpgsPerBlk_pos
    _ = ns.pgsPerBlk := ns.pgsPerBlk_eq.symm
    _ ≤ 2 ^ pageBits := ns.pgsPerBlk_le

theorem pgsPerZone_lt (ns : ZnsNamespace) : pgsPerZone ns < 2 ^ 20 := by
  have hlt := zoneSize_lt ns
  rw [pgsPerZone, pgsz_eq_4096]
  omega

theorem zoneSize_eq (ns : ZnsNamespace) :
    ns.zp.zoneSize = 4096 * pgsPerZone ns := by
  have hdvd := pgsz_dvd_zoneSize ns
  rw [pgsPerZone, pgsz_eq_4096] at *
  exact (Nat.mul_div_cancel' hdvd).symm

theorem oneshotSize_eq (ns : ZnsNamespace) :
    oneshotSize ns = 4096 * ns.pgsPerOneshotpg := by
  rw [oneshotSize, pgsz_eq_4096, Nat.mul_comm]

/-- What the zone cuts off its last oneshot page. -/
theorem unalignedSpace_eq (ns : ZnsNamespace) :
    unalignedSpace ns = 4096 * (pgsPerZone ns % ns.pgsPerOneshotpg) := by
  rw [unalignedSpace, zoneSize_eq, oneshotSize_eq, Nat.mul_mod_mul_left]

/-- Pages are numbered below `2 ^ 52`. -/
theorem zone_pages_lt (hzid : zid < ns.zp.nrZones) :
    zid * pgsPerZone ns + pgsPerZone ns < 2 ^ 53 := by
  have hpages := pgsPerZone_lt ns
  have hzones := hzid.trans (nrZones_lt ns)
  have hmul : (zid + 1) * pgsPerZone ns ≤ 2 ^ 32 * 2 ^ 20 :=
    Nat.mul_le_mul (by omega) hpages.le
  rw [Nat.succ_mul] at hmul
  omega

theorem zoneToSlpn_le (ns : ZnsNamespace) (zid : ℕ) :
    zoneToSlpn ns zid ≤ zid * pgsPerZone ns :=
  (Nat.mod_le _ _).trans (Nat.mul_le_mul_right _ (Nat.mod_le _ _))

theorem lpnToZone_of_mem {lpn : ℕ} (hzid : zid < ns.zp.nrZones)
    (hle : zid * pgsPerZone ns ≤ lpn)
    (hlt : lpn < zid * pgsPerZone ns + pgsPerZone ns) :
    lpnToZone ns lpn = zid := by
  have hquotient : lpn / pgsPerZone ns = zid := by
    apply Nat.div_eq_of_lt_le
    · exact hle
    · rw [Nat.succ_mul]
      exact hlt
  rw [lpnToZone, hquotient]
  exact u32_of_lt (hzid.trans (nrZones_lt ns))

/-- The page of a oneshot page that `__lpn_to_ppa` computes. -/
theorem lpnToPpa_pg {lpn : ℕ} (hzid : zid < ns.zp.nrZones)
    (hle : zid * pgsPerZone ns ≤ lpn)
    (hlt : lpn < zid * pgsPerZone ns + pgsPerZone ns) :
    (lpnToPpa ns lpn).pg % ns.pgsPerOneshotpg =
      (lpn - zoneToSlpn ns zid) % ns.pgsPerOneshotpg := by
  have hbound := zone_pages_lt hzid
  have hbase := (zoneToSlpn_le ns zid).trans hle
  have hoff : sub64 lpn (zoneToSlpn ns zid) = lpn - zoneToSlpn ns zid :=
    sub64_of_le hbase (by omega)
  have hmod := Nat.mod_lt (lpn - zoneToSlpn ns zid) ns.pgsPerOneshotpg_pos
  have hfits := hmod.trans_le (pgsPerOneshotpg_le ns)
  rw [lpnToPpa, lpnToZone_of_mem hzid hle hlt, hoff]
  dsimp only
  rw [Nat.mod_eq_of_lt hfits, Nat.mod_mod]

variable (ns) (zid)

/-- Whether the loop programs a chunk that ends ahead of the offset `stop`. -/
def closesAt (zoneElpn : Option ℕ) (stop : ℕ) : Bool :=
  decide (ns.pgsPerOneshotpg ∣ stop) ||
    decide (zoneElpn = some (zoneToSlpn ns zid + stop - 1))

/-- What the writeback of such a chunk releases. -/
def releaseAt (zoneElpn : Option ℕ) (stop : ℕ) : ℕ :=
  if zoneElpn = some (zoneToSlpn ns zid + stop - 1) ∧ 0 < unalignedSpace ns then
    unalignedSpace ns
  else oneshotSize ns

variable {ns} {zid}

theorem closesAt_of_dvd {zoneElpn : Option ℕ} {stop : ℕ}
    (h : ns.pgsPerOneshotpg ∣ stop) : closesAt ns zid zoneElpn stop = true := by
  rw [closesAt, decide_eq_true h, Bool.true_or]

/-- The chunk at the head of the walk. -/
theorem closedChunks_head {zoneElpn : Option ℕ} {fuel lpn remaining : ℕ}
    (hpos : 0 < remaining) {step : ℕ}
    (hstep : step = min remaining (ns.pgsPerOneshotpg -
      (lpn - zoneToSlpn ns zid) % ns.pgsPerOneshotpg)) :
    closedChunks ns.pgsPerOneshotpg (closesAt ns zid zoneElpn) (fuel + 1)
        (lpn - zoneToSlpn ns zid) remaining =
      (if closesAt ns zid zoneElpn (lpn - zoneToSlpn ns zid + step) then
        [(lpn - zoneToSlpn ns zid, lpn - zoneToSlpn ns zid + step)]
      else []) ++
        closedChunks ns.pgsPerOneshotpg (closesAt ns zid zoneElpn) fuel
          (lpn - zoneToSlpn ns zid + step) (remaining - step) := by
  rw [closedChunks, if_neg hpos.ne', hstep]
  dsimp only
  split_ifs <;> rfl

/-- The loop programs the chunks that close, and enqueues a writeback for each
of them. -/
theorem programPages_eq {req : RwRequest} {nsecsXferCompleted : ℕ}
    {writeBuffer : BufferId} {zoneElpn : Option ℕ} {fuel lpn remaining : ℕ}
    {p : Program} (hzid : zid < ns.zp.nrZones)
    (hle : zid * pgsPerZone ns ≤ lpn)
    (hend : lpn + remaining ≤ zid * pgsPerZone ns + pgsPerZone ns) :
    (programPages ns req nsecsXferCompleted writeBuffer zoneElpn fuel lpn
        remaining p).programmed = p.programmed ++
      (closedChunks ns.pgsPerOneshotpg (closesAt ns zid zoneElpn) fuel
        (lpn - zoneToSlpn ns zid) remaining).map
          (fun chunk => zoneToSlpn ns zid + chunk.1) ∧
    (programPages ns req nsecsXferCompleted writeBuffer zoneElpn fuel lpn
        remaining p).writebacks.map (fun wb => (wb.buffer, wb.buffsToRelease)) =
      p.writebacks.map (fun wb => (wb.buffer, wb.buffsToRelease)) ++
      (closedChunks ns.pgsPerOneshotpg (closesAt ns zid zoneElpn) fuel
        (lpn - zoneToSlpn ns zid) remaining).map
          (fun chunk => (writeBuffer, releaseAt ns zid zoneElpn chunk.2)) := by
  induction fuel generalizing lpn remaining p with
  | zero => simp [programPages, closedChunks]
  | succ fuel ih =>
      by_cases hzero : remaining = 0
      · simp [programPages, hzero, closedChunks_zero]
      have hpos := Nat.pos_of_ne_zero hzero
      have hbase := (zoneToSlpn_le ns zid).trans hle
      have hmod := Nat.mod_lt (lpn - zoneToSlpn ns zid) ns.pgsPerOneshotpg_pos
      rw [programPages, if_neg hzero]
      dsimp only
      rw [lpnToPpa_pg hzid hle (by omega)]
      obtain ⟨step, hstep⟩ : ∃ step, step = min remaining
          (ns.pgsPerOneshotpg -
            (lpn - zoneToSlpn ns zid) % ns.pgsPerOneshotpg) := ⟨_, rfl⟩
      have hstepLe : step ≤ ns.pgsPerOneshotpg -
          (lpn - zoneToSlpn ns zid) % ns.pgsPerOneshotpg := by
        rw [hstep]
        exact min_le_right _ _
      have hstepPos : 0 < step := by
        rw [hstep]
        exact lt_min hpos (by omega)
      have hstepRem : step ≤ remaining := by
        rw [hstep]
        exact min_le_left _ _
      have hoffset : lpn + step - zoneToSlpn ns zid =
          lpn - zoneToSlpn ns zid + step := by omega
      have hlast : lpn + step - 1 =
          zoneToSlpn ns zid + (lpn - zoneToSlpn ns zid + step) - 1 := by omega
      have htest : (lpn - zoneToSlpn ns zid) % ns.pgsPerOneshotpg + step =
          ns.pgsPerOneshotpg ∨ zoneElpn = some (zoneToSlpn ns zid +
            (lpn - zoneToSlpn ns zid + step) - 1) ↔
          closesAt ns zid zoneElpn (lpn - zoneToSlpn ns zid + step) = true := by
        rw [closesAt, Bool.or_eq_true, decide_eq_true_iff, decide_eq_true_iff,
          step_ends_block hstepPos hstepLe]
      have hih := fun q : Program =>
        @ih (lpn + step) (remaining - step) q (by omega) (by omega)
      rw [hoffset] at hih
      rw [← hstep, closedChunks_head hpos hstep, hlast]
      by_cases hcloses : closesAt ns zid zoneElpn
          (lpn - zoneToSlpn ns zid + step) = true
      · rw [if_pos (htest.mpr hcloses), if_pos hcloses, (hih _).1, (hih _).2]
        simp [programOneshot, releaseAt, Nat.add_sub_cancel' hbase]
      · rw [if_neg (fun h => hcloses (htest.mp h)), if_neg hcloses,
          List.nil_append]
        exact hih p

/-! ## Sequential writes -/

/-- The zone ends below LBA `2 ^ 32`, so that `zone_to_elpn` does not wrap. -/
def LowZone (ns : ZnsNamespace) (zid : ℕ) : Prop :=
  zid * lbasPerZone ns + lbasPerZone ns < 2 ^ 32

instance : Decidable (LowZone ns zid) :=
  inferInstanceAs (Decidable
    (zid * lbasPerZone ns + lbasPerZone ns < 2 ^ 32))

theorem lbasPerZone_mul (zid : ℕ) :
    zid * lbasPerZone ns = 8 * (zid * pgsPerZone ns) := by
  rw [lbasPerZone_eq]
  ring

theorem LowZone.zoneToSlpn_eq (h : LowZone ns zid) :
    zoneToSlpn ns zid = zid * pgsPerZone ns := by
  have hpages := pgsPerZone_pos ns
  rw [LowZone, lbasPerZone_mul, lbasPerZone_eq] at h
  have hzid : zid < 2 ^ 32 :=
    calc zid ≤ zid * pgsPerZone ns := Nat.le_mul_of_pos_right _ hpages
      _ < 2 ^ 32 := by omega
  rw [zoneToSlpn, u32_of_lt hzid, u32_of_lt (by omega)]

theorem LowZone.zoneToElpn_eq (h : LowZone ns zid) :
    zoneToElpn ns zid = zid * pgsPerZone ns + pgsPerZone ns - 1 := by
  have hpages := pgsPerZone_pos ns
  rw [zoneToElpn, zoneToElba_eq h, ns.secsPerPg_eq, lbasPerZone_mul,
    lbasPerZone_eq]
  omega

/-- Blocks are numbered below `2 ^ 56`. -/
theorem zone_lbas_lt (hzid : zid < ns.zp.nrZones) :
    zid * lbasPerZone ns + lbasPerZone ns < 2 ^ 56 := by
  have hpages := zone_pages_lt hzid
  rw [lbasPerZone_mul, lbasPerZone_eq]
  omega

/-- Where `zone_to_elba` wraps, it is no block of the zone. -/
theorem zoneToElba_of_not_low (hzid : zid < ns.zp.nrZones)
    (h : ¬ LowZone ns zid) {lba : ℕ} (hle : zid * lbasPerZone ns ≤ lba)
    (hlt : lba < zid * lbasPerZone ns + lbasPerZone ns) :
    zoneToElba ns zid ≠ lba := by
  have hbound := zone_lbas_lt hzid
  have hsize := lbasPerZone_le ns
  have hzones := nrZones_lt ns
  have hzidNext : u32 (zid + 1) = zid + 1 := u32_of_lt (by omega)
  rw [LowZone] at h
  rw [zoneToElba, zoneToSlba, hzidNext, Nat.succ_mul, u32]
  generalize hend : zid * lbasPerZone ns + lbasPerZone ns = stop at *
  by_cases hzero : stop % 2 ^ 32 = 0
  · have hwrap : sub64 0 1 = 2 ^ 64 - 1 := by decide
    rw [hzero, hwrap]
    omega
  · rw [sub64_of_le (Nat.pos_of_ne_zero hzero) (by omega)]
    omega

/-- Where `zone_to_elpn` wraps, it is no page of the zone. -/
theorem zoneToElpn_of_not_low (hzid : zid < ns.zp.nrZones)
    (h : ¬ LowZone ns zid) {lpn : ℕ} (hle : zid * pgsPerZone ns ≤ lpn)
    (hlt : lpn < zid * pgsPerZone ns + pgsPerZone ns) :
    zoneToElpn ns zid ≠ lpn := by
  intro heq
  rw [zoneToElpn, ns.secsPerPg_eq] at heq
  refine zoneToElba_of_not_low hzid h ?_ ?_ rfl <;>
    rw [lbasPerZone_mul] <;> try rw [lbasPerZone_eq]
  · omega
  · omega

/-- The bytes a list of writebacks releases. -/
def released (writebacks : List Writeback) : ℕ :=
  (writebacks.map fun wb => wb.buffsToRelease).sum

/-- The chunks a sequential write of `nrLba` blocks programs. -/
def writeChunks (ns : ZnsNamespace) (zid slba nrLba : ℕ) : List (ℕ × ℕ) :=
  closedChunks ns.pgsPerOneshotpg (closesAt ns zid (some (zoneToElpn ns zid)))
    ((slba + nrLba + 7) / 8 - slba / 8) (slba / 8 - zoneToSlpn ns zid)
    ((slba + nrLba + 7) / 8 - slba / 8)

/-- The pages of a zone that hold its blocks from `slba` on. -/
theorem pages_mem {slba nrLba : ℕ} (hle : zid * lbasPerZone ns ≤ slba)
    (hend : slba + nrLba ≤ zid * lbasPerZone ns + lbasPerZone ns)
    (hpos : 0 < nrLba) :
    zid * pgsPerZone ns ≤ slba / 8 ∧ slba / 8 < (slba + nrLba + 7) / 8 ∧
      (slba + nrLba + 7) / 8 ≤ zid * pgsPerZone ns + pgsPerZone ns := by
  rw [lbasPerZone_mul, lbasPerZone_eq] at *
  omega

theorem writePages_eq {ssd : Ssd} {req : RwRequest} {slba : ℕ}
    (hzid : zid < ns.zp.nrZones) (hle : zid * lbasPerZone ns ≤ slba)
    (hend : slba + req.nrLba ≤ zid * lbasPerZone ns + lbasPerZone ns) :
    (writePages ns ssd req zid slba).2.programmed =
      (writeChunks ns zid slba req.nrLba).map
        (fun chunk => zoneToSlpn ns zid + chunk.1) ∧
    (writePages ns ssd req zid slba).2.writebacks.map
        (fun wb => (wb.buffer, wb.buffsToRelease)) =
      (writeChunks ns zid slba req.nrLba).map (fun chunk =>
        (writeBufferOf ns zid,
          releaseAt ns zid (some (zoneToElpn ns zid)) chunk.2)) := by
  have hpos : 0 < req.nrLba := Nat.succ_pos _
  obtain ⟨hfirst, hlt, hlast⟩ := pages_mem hle hend hpos
  have hbound := zone_pages_lt hzid
  have helba : lastLba slba req.nrLba = slba + req.nrLba - 1 :=
    sub64_of_le (by omega) (by omega)
  have hcount : lbaToLpn ns (lastLba slba req.nrLba) + 1 - lbaToLpn ns slba =
      (slba + req.nrLba + 7) / 8 - slba / 8 := by
    rw [lbaToLpn, lbaToLpn, helba, ns.secsPerPg_eq]
    omega
  have hslpn : lbaToLpn ns slba = slba / 8 := by
    rw [lbaToLpn, ns.secsPerPg_eq]
  rw [writePages]
  dsimp only
  rw [hcount, hslpn]
  exact programPages_eq hzid hfirst (by omega)

/-- The offset of the page behind a write. -/
def endOffset (ns : ZnsNamespace) (zid lba : ℕ) : ℕ :=
  (lba + 7) / 8 - zoneToSlpn ns zid

def startOffset (ns : ZnsNamespace) (zid lba : ℕ) : ℕ :=
  lba / 8 - zoneToSlpn ns zid

/-- Whether the zone cuts its last oneshot page short at the offset `stop`. -/
def CutAt (ns : ZnsNamespace) (zid stop : ℕ) : Prop :=
  LowZone ns zid ∧ stop = pgsPerZone ns ∧ ¬ ns.pgsPerOneshotpg ∣ stop

theorem closesAt_iff {stop : ℕ} (hzid : zid < ns.zp.nrZones)
    (hpos : zid * pgsPerZone ns < zoneToSlpn ns zid + stop)
    (hle : zoneToSlpn ns zid + stop ≤ zid * pgsPerZone ns + pgsPerZone ns) :
    closesAt ns zid (some (zoneToElpn ns zid)) stop = true ∧
        ¬ ns.pgsPerOneshotpg ∣ stop ↔ CutAt ns zid stop := by
  rw [closesAt, Bool.or_eq_true, decide_eq_true_iff, decide_eq_true_iff,
    Option.some_inj, CutAt]
  by_cases hlow : LowZone ns zid
  · rw [hlow.zoneToElpn_eq, hlow.zoneToSlpn_eq] at *
    constructor
    · rintro ⟨hdvd | hend, hnot⟩
      · exact absurd hdvd hnot
      · exact ⟨hlow, by omega, hnot⟩
    · rintro ⟨-, rfl, hnot⟩
      exact ⟨Or.inr (by omega), hnot⟩
  · constructor
    · rintro ⟨hdvd | hend, hnot⟩
      · exact absurd hdvd hnot
      · exact absurd hend (zoneToElpn_of_not_low hzid hlow (by omega)
          (by omega))
    · exact fun h => absurd h.1 hlow

/-- A whole oneshot page releases its size. -/
theorem releaseAt_of_dvd {stop : ℕ} (hzid : zid < ns.zp.nrZones)
    (hpos : zid * pgsPerZone ns < zoneToSlpn ns zid + stop)
    (hle : zoneToSlpn ns zid + stop ≤ zid * pgsPerZone ns + pgsPerZone ns)
    (hdvd : ns.pgsPerOneshotpg ∣ stop) :
    releaseAt ns zid (some (zoneToElpn ns zid)) stop = oneshotSize ns := by
  apply if_neg
  rintro ⟨hend, hspace⟩
  rw [Option.some_inj] at hend
  by_cases hlow : LowZone ns zid
  · rw [hlow.zoneToElpn_eq, hlow.zoneToSlpn_eq] at *
    have hstop : stop = pgsPerZone ns := by omega
    rw [unalignedSpace_eq, ← hstop, Nat.mod_eq_zero_of_dvd hdvd] at hspace
    exact absurd hspace (Nat.lt_irrefl 0)
  · exact absurd hend
      (zoneToElpn_of_not_low hzid hlow (by omega) (by omega))

theorem releaseAt_of_cut {stop : ℕ} (hcut : CutAt ns zid stop) :
    releaseAt ns zid (some (zoneToElpn ns zid)) stop = unalignedSpace ns := by
  obtain ⟨hlow, rfl, hnot⟩ := hcut
  apply if_pos
  constructor
  · rw [hlow.zoneToElpn_eq, hlow.zoneToSlpn_eq]
  · rw [unalignedSpace_eq]
    have hmod := Nat.pos_of_ne_zero
      (mt Nat.dvd_of_mod_eq_zero hnot)
    omega

instance (stop : ℕ) : Decidable (CutAt ns zid stop) :=
  inferInstanceAs (Decidable
    (LowZone ns zid ∧ stop = pgsPerZone ns ∧ ¬ ns.pgsPerOneshotpg ∣ stop))

/-- The oneshot pages that are programmed once all pages ahead of the offset
`stop` are written. -/
def closedOneshots (ns : ZnsNamespace) (zid stop : ℕ) : ℕ :=
  stop / ns.pgsPerOneshotpg + if CutAt ns zid stop then 1 else 0

/-- The bytes that are released by then. -/
def closedBytes (ns : ZnsNamespace) (zid stop : ℕ) : ℕ :=
  oneshotSize ns * (stop / ns.pgsPerOneshotpg) +
    if CutAt ns zid stop then unalignedSpace ns else 0

theorem endOffset_mem {slba nrLba : ℕ} (hle : zid * lbasPerZone ns ≤ slba)
    (hend : slba + nrLba ≤ zid * lbasPerZone ns + lbasPerZone ns)
    (hpos : 0 < nrLba) :
    startOffset ns zid slba < endOffset ns zid (slba + nrLba) ∧
      zid * pgsPerZone ns <
        zoneToSlpn ns zid + endOffset ns zid (slba + nrLba) ∧
      zoneToSlpn ns zid + endOffset ns zid (slba + nrLba) ≤
        zid * pgsPerZone ns + pgsPerZone ns := by
  obtain ⟨hfirst, hlt, hlast⟩ := pages_mem hle hend hpos
  have hbase := zoneToSlpn_le ns zid
  rw [startOffset, endOffset]
  omega

/-- The chunks of a sequential write. -/
theorem writeChunks_eq {slba nrLba : ℕ} (hzid : zid < ns.zp.nrZones)
    (hle : zid * lbasPerZone ns ≤ slba)
    (hend : slba + nrLba ≤ zid * lbasPerZone ns + lbasPerZone ns)
    (hpos : 0 < nrLba) :
    writeChunks ns zid slba nrLba =
      wholeChunks ns.pgsPerOneshotpg (startOffset ns zid slba)
        (endOffset ns zid (slba + nrLba)) ++
      if CutAt ns zid (endOffset ns zid (slba + nrLba)) then
        [(max (startOffset ns zid slba)
          (endOffset ns zid (slba + nrLba) / ns.pgsPerOneshotpg *
            ns.pgsPerOneshotpg), endOffset ns zid (slba + nrLba))]
      else [] := by
  obtain ⟨hfirst, hlt, hlast⟩ := pages_mem hle hend hpos
  obtain ⟨-, hstop, hstopLe⟩ := endOffset_mem hle hend hpos
  have hbase := zoneToSlpn_le ns zid
  have hspan : startOffset ns zid slba +
      ((slba + nrLba + 7) / 8 - slba / 8) =
        endOffset ns zid (slba + nrLba) := by
    rw [startOffset, endOffset]
    omega
  have hcut := closesAt_iff hzid hstop hstopLe
  have hcloses : ∀ stop, ns.pgsPerOneshotpg ∣ stop →
      closesAt ns zid (some (zoneToElpn ns zid)) stop = true :=
    fun stop => closesAt_of_dvd
  have hchunks := closedChunks_eq ns.pgsPerOneshotpg_pos hcloses
    (startOffset ns zid slba) (le_refl ((slba + nrLba + 7) / 8 - slba / 8))
    (by omega)
  rw [hspan] at hchunks
  apply hchunks.trans
  congr 1
  by_cases hat : CutAt ns zid (endOffset ns zid (slba + nrLba))
  · rw [if_pos hat, if_pos (hcut.mpr hat)]
  · rw [if_neg hat, if_neg fun h => hat (hcut.mp h)]

/-- The oneshot pages of the zone a sequential write programs. -/
theorem map_oneshot_writeChunks {slba nrLba : ℕ} (hzid : zid < ns.zp.nrZones)
    (hle : zid * lbasPerZone ns ≤ slba)
    (hend : slba + nrLba ≤ zid * lbasPerZone ns + lbasPerZone ns)
    (hpos : 0 < nrLba) :
    (writeChunks ns zid slba nrLba).map
        (fun chunk => chunk.1 / ns.pgsPerOneshotpg) =
      List.range' (startOffset ns zid slba / ns.pgsPerOneshotpg)
        (closedOneshots ns zid (endOffset ns zid (slba + nrLba)) -
          startOffset ns zid slba / ns.pgsPerOneshotpg) := by
  obtain ⟨hlt, -, -⟩ := endOffset_mem hle hend hpos
  rw [writeChunks_eq hzid hle hend hpos, List.map_append,
    map_start_wholeChunks ns.pgsPerOneshotpg_pos, closedOneshots]
  generalize startOffset ns zid slba = first at *
  generalize endOffset ns zid (slba + nrLba) = last at *
  have hdiv : first / ns.pgsPerOneshotpg ≤ last / ns.pgsPerOneshotpg :=
    Nat.div_le_div_right hlt.le
  by_cases hcut : CutAt ns zid last
  · have hlastBlock : max first (last / ns.pgsPerOneshotpg *
        ns.pgsPerOneshotpg) / ns.pgsPerOneshotpg =
          last / ns.pgsPerOneshotpg := by
      apply le_antisymm
      · exact Nat.div_le_div_right
          (max_le hlt.le (Nat.div_mul_le_self _ _))
      · rw [Nat.le_div_iff_mul_le ns.pgsPerOneshotpg_pos]
        exact le_max_right _ _
    rw [if_pos hcut, if_pos hcut, List.map_singleton, hlastBlock,
      Nat.sub_add_comm hdiv, List.range'_1_concat, Nat.add_sub_cancel' hdiv]
  · rw [if_neg hcut, if_neg hcut, List.map_nil, List.append_nil, Nat.add_zero]

/-- What a sequential write releases, together with the oneshot pages that were
complete before it. -/
theorem released_writePages {ssd : Ssd} {req : RwRequest} {slba : ℕ}
    (hzid : zid < ns.zp.nrZones) (hle : zid * lbasPerZone ns ≤ slba)
    (hend : slba + req.nrLba ≤ zid * lbasPerZone ns + lbasPerZone ns) :
    released (writePages ns ssd req zid slba).2.writebacks +
        oneshotSize ns * (startOffset ns zid slba / ns.pgsPerOneshotpg) =
      closedBytes ns zid (endOffset ns zid (slba + req.nrLba)) := by
  have hpos : 0 < req.nrLba := Nat.succ_pos _
  obtain ⟨hlt, hstop, hstopLe⟩ := endOffset_mem hle hend hpos
  have hsum : released (writePages ns ssd req zid slba).2.writebacks =
      ((writeChunks ns zid slba req.nrLba).map fun chunk =>
        releaseAt ns zid (some (zoneToElpn ns zid)) chunk.2).sum := by
    have hwritebacks := congrArg (List.map Prod.snd)
      (@writePages_eq ns zid ssd req slba hzid hle hend).2
    rw [List.map_map, List.map_map] at hwritebacks
    exact congrArg List.sum hwritebacks
  have hbase := zoneToSlpn_le ns zid
  have hweight : ∀ stop, ns.pgsPerOneshotpg ∣ stop →
      startOffset ns zid slba < stop →
      stop ≤ endOffset ns zid (slba + req.nrLba) →
      releaseAt ns zid (some (zoneToElpn ns zid)) stop = oneshotSize ns := by
    intro stop hdvd hfirst hle'
    have hmem := (pages_mem hle hend hpos).1
    rw [startOffset] at hfirst
    exact releaseAt_of_dvd hzid (by omega) (by omega) hdvd
  have hwhole := sum_wholeChunks ns.pgsPerOneshotpg_pos _ hweight
  rw [hsum, writeChunks_eq hzid hle hend hpos, List.map_append,
    List.sum_append, hwhole, closedBytes]
  generalize startOffset ns zid slba = first at *
  generalize endOffset ns zid (slba + req.nrLba) = last at *
  have hdiv : first / ns.pgsPerOneshotpg ≤ last / ns.pgsPerOneshotpg :=
    Nat.div_le_div_right hlt.le
  have hsplit : oneshotSize ns * (last / ns.pgsPerOneshotpg -
      first / ns.pgsPerOneshotpg) +
        oneshotSize ns * (first / ns.pgsPerOneshotpg) =
      oneshotSize ns * (last / ns.pgsPerOneshotpg) := by
    rw [← Nat.mul_add, Nat.sub_add_cancel hdiv]
  by_cases hcut : CutAt ns zid last
  · rw [if_pos hcut, if_pos hcut, List.map_singleton, List.sum_singleton,
      releaseAt_of_cut hcut]
    omega
  · rw [if_neg hcut, if_neg hcut]
    simpa using hsplit

/-- Every writeback of a sequential write is for the buffer of the write. -/
theorem buffer_writePages {ssd : Ssd} {req : RwRequest} {slba : ℕ}
    (hzid : zid < ns.zp.nrZones) (hle : zid * lbasPerZone ns ≤ slba)
    (hend : slba + req.nrLba ≤ zid * lbasPerZone ns + lbasPerZone ns) :
    ∀ wb ∈ (writePages ns ssd req zid slba).2.writebacks,
      wb.buffer = writeBufferOf ns zid := by
  intro wb hwb
  have hmem := List.mem_map_of_mem
    (f := fun wb : Writeback => (wb.buffer, wb.buffsToRelease)) hwb
  rw [(writePages_eq hzid hle hend).2] at hmem
  obtain ⟨chunk, -, heq⟩ := List.mem_map.mp hmem
  exact (congrArg Prod.fst heq).symm

/-! ## Implicit flushes -/

/-- The chunks an implicit flush of `pages` pages programs. -/
def flushChunks (ns : ZnsNamespace) (zid wp pages : ℕ) : List (ℕ × ℕ) :=
  closedChunks ns.pgsPerOneshotpg (closesAt ns zid none) pages
    (startOffset ns zid wp) pages

theorem flushPages_eq {ssd : Ssd} {req : RwRequest} {wp nrLbas : ℕ}
    (hzid : zid < ns.zp.nrZones) (hle : zid * lbasPerZone ns ≤ wp)
    (hend : wp + nrLbas ≤ zid * lbasPerZone ns + lbasPerZone ns) :
    (flushPages ns ssd req zid wp nrLbas).2.writebacks.map
        (fun wb => (wb.buffer, wb.buffsToRelease)) =
      (flushChunks ns zid wp (nrLbas / 8)).map
        (fun _ => (BufferId.zrwa zid, oneshotSize ns)) := by
  rw [lbasPerZone_mul] at hle hend
  rw [lbasPerZone_eq] at hend
  rw [flushPages]
  dsimp only
  rw [lbaToLpn, ns.secsPerPg_eq]
  apply (programPages_eq hzid (by omega) (by omega)).2.trans
  rw [List.map_nil, List.nil_append]
  apply List.map_congr_left
  intro chunk _
  rw [releaseAt, if_neg fun h => by cases h.1]

/-- What an implicit flush releases, together with the oneshot pages that were
complete before it. -/
theorem released_flushPages {ssd : Ssd} {req : RwRequest} {wp nrLbas : ℕ}
    (hzid : zid < ns.zp.nrZones) (hle : zid * lbasPerZone ns ≤ wp)
    (hend : wp + nrLbas ≤ zid * lbasPerZone ns + lbasPerZone ns) :
    released (flushPages ns ssd req zid wp nrLbas).2.writebacks +
        oneshotSize ns * (startOffset ns zid wp / ns.pgsPerOneshotpg) =
      oneshotSize ns *
        ((startOffset ns zid wp + nrLbas / 8) / ns.pgsPerOneshotpg) := by
  have hwritebacks := congrArg (List.map Prod.snd)
    (@flushPages_eq ns zid ssd req wp nrLbas hzid hle hend)
  rw [List.map_map, List.map_map] at hwritebacks
  have hsum : released (flushPages ns ssd req zid wp nrLbas).2.writebacks =
      ((flushChunks ns zid wp (nrLbas / 8)).map fun _ =>
        oneshotSize ns).sum := congrArg List.sum hwritebacks
  rw [hsum, flushChunks]
  generalize startOffset ns zid wp = first
  by_cases hzero : nrLbas / 8 = 0
  · rw [hzero, closedChunks_zero]
    simp
  have hclosed : ∀ stop, closesAt ns zid none stop = true →
      ns.pgsPerOneshotpg ∣ stop := by
    intro stop h
    rw [closesAt, Bool.or_eq_true, decide_eq_true_iff, decide_eq_true_iff] at h
    exact h.resolve_right fun h => by cases h
  have hdiv : first / ns.pgsPerOneshotpg ≤
      (first + nrLbas / 8) / ns.pgsPerOneshotpg :=
    Nat.div_le_div_right (Nat.le_add_right _ _)
  have hcloses : ∀ stop, ns.pgsPerOneshotpg ∣ stop →
      closesAt ns zid none stop = true := fun stop => closesAt_of_dvd
  rw [closedChunks_eq ns.pgsPerOneshotpg_pos hcloses first le_rfl
      (Nat.pos_of_ne_zero hzero),
    if_neg fun h => h.2 (hclosed _ h.1), List.append_nil,
    sum_wholeChunks ns.pgsPerOneshotpg_pos (fun _ => oneshotSize ns)
      (fun _ _ _ _ => rfl),
    ← Nat.mul_add, Nat.sub_add_cancel hdiv]

theorem buffer_flushPages {ssd : Ssd} {req : RwRequest} {wp nrLbas : ℕ}
    (hzid : zid < ns.zp.nrZones) (hle : zid * lbasPerZone ns ≤ wp)
    (hend : wp + nrLbas ≤ zid * lbasPerZone ns + lbasPerZone ns) :
    ∀ wb ∈ (flushPages ns ssd req zid wp nrLbas).2.writebacks,
      wb.buffer = .zrwa zid := by
  intro wb hwb
  have hmem := List.mem_map_of_mem
    (f := fun wb : Writeback => (wb.buffer, wb.buffsToRelease)) hwb
  rw [flushPages_eq hzid hle hend] at hmem
  obtain ⟨chunk, -, heq⟩ := List.mem_map.mp hmem
  exact (congrArg Prod.fst heq).symm

end

end NvmeVirt.OneshotPages
