import NvmeVirt.Core.Scatter
import NvmeVirt.Device.Kernel

/-!
# Copying the data of a command

The host gives the pages of a command as physical region pages: the first two
in the command, more in a list.  `__do_perform_io` copies page after page;
`__do_perform_io_using_dma` first collects the pages and then submits one
transfer for each run of pages that follow each other.  Both pair the same
bytes.
-/

namespace NvmeVirt.Transfers

open NvmeVirt.Kernel
open NvmeVirt.Scatter
open NvmeVirt.Transition

/-! ## Commands -/

/-- `PAGE_SIZE`. -/
def pageSize : ℕ := 4096

/-- The two ways a transfer can go. -/
inductive Direction
  | toStorage
  | toHost
  deriving DecidableEq, Repr

/-- `struct nvme_rw_command`, with the words of the list at `prp2`.  The list
is not in a page that the command writes to. -/
structure PrpCommand where
  opcode : ℕ
  nsid : ℕ
  prp1 : ℕ
  prp2 : ℕ
  slba : ℕ
  length : ℕ
  prpList : ℕ → ℕ
  length_lt : length < 2 ^ 16

/-- Where the namespaces and the storage are mapped. -/
structure StorageMap where
  nrNs : ℕ
  mapped : ℕ → ℕ
  storageStart : ℕ

/-- A copy or a submitted transfer. -/
structure Transfer where
  direction : Direction
  host : ℕ
  storage : ℕ
  size : ℕ
  deriving DecidableEq, Repr

/-- The branches on the opcode: `nvme_cmd_write`, `nvme_cmd_zone_append` and
`nvme_cmd_read`. -/
def directionOf (opcode : ℕ) : Option Direction :=
  if opcode = 0x01 ∨ opcode = 0x7d then some .toStorage
  else if opcode = 0x02 then some .toHost
  else none

/-- `(length + 1) << 9`. -/
def PrpCommand.bytes (cmd : PrpCommand) : ℕ := (cmd.length + 1) * 2 ^ 9

/-- `slba << 9`. -/
def PrpCommand.start (cmd : PrpCommand) : ℕ := u64 (cmd.slba * 2 ^ 9)

/-- How far the entries have been read.  `listMapped` says that the list has
been found. -/
structure PrpCursor where
  prpOffs : ℕ
  prp2Offs : ℕ
  listMapped : Bool

def PrpCursor.initial : PrpCursor :=
  { prpOffs := 0, prp2Offs := 0, listMapped := false }

/-- The next entry, with `remaining` bytes to go. -/
def nextPrp (cmd : PrpCommand) (cursor : PrpCursor) (remaining : ℕ) :
    Except Fault (ℕ × PrpCursor) :=
  let prpOffs := cursor.prpOffs + 1
  if prpOffs = 1 then .ok (cmd.prp1, { cursor with prpOffs := prpOffs })
  else if prpOffs = 2 then
    if pageSize < remaining then
      .ok (cmd.prpList cursor.prp2Offs,
        { prpOffs := prpOffs, prp2Offs := cursor.prp2Offs + 1
          listMapped := true })
    else .ok (cmd.prp2, { cursor with prpOffs := prpOffs })
  else if cursor.listMapped then
    .ok (cmd.prpList cursor.prp2Offs,
      { cursor with prpOffs := prpOffs, prp2Offs := cursor.prp2Offs + 1 })
  else .error .nullPointer

/-- At most a page, and not past the end of the page of `paddr`. -/
def sizeInPage (paddr remaining : ℕ) : ℕ :=
  let ioSize := min remaining pageSize
  let memOffs := paddr % pageSize
  if memOffs ≠ 0 then
    if pageSize < ioSize + memOffs then pageSize - memOffs else ioSize
  else ioSize

/-! ## `__do_perform_io` -/

/-- The variables of a transfer loop. -/
structure IoLoop where
  cursor : PrpCursor
  offset : ℕ
  remaining : ℕ
  transfers : List Transfer

section

variable (dev : StorageMap) (cmd : PrpCommand)

/-- The `memcpy` of a page, if the opcode asks for one. -/
def copyPage (paddr offset size : ℕ) : Except Fault (List Transfer) :=
  match directionOf cmd.opcode with
  | none => .ok []
  | some direction =>
      let nsid := sub32 cmd.nsid 1
      if nsid < dev.nrNs then
        .ok [{ direction := direction
               host := paddr / pageSize * pageSize + paddr % pageSize
               storage := u64 (dev.mapped nsid + offset)
               size := size }]
      else .error .outOfBounds

/-- The body of the loop. -/
def copyRound (st : IoLoop) : Except Fault IoLoop := do
  let entry ← nextPrp cmd st.cursor st.remaining
  let size := sizeInPage entry.1 st.remaining
  let copied ← copyPage dev cmd entry.1 st.offset size
  .ok
    { cursor := entry.2
      offset := u64 (st.offset + size)
      remaining := st.remaining - size
      transfers := st.transfers ++ copied }

/-- The loop.  Every round copies at least a byte. -/
def copyLoop : ℕ → IoLoop → Except Fault IoLoop
  | 0, _ => .error .divergence
  | fuel + 1, st =>
      if st.remaining = 0 then .ok st
      else do
        let st ← copyRound dev cmd st
        copyLoop fuel st

/-- `__do_perform_io`: the number of bytes it returns, and its copies. -/
def doPerformIo : Except Fault (ℕ × List Transfer) := do
  let st ← copyLoop dev cmd (cmd.bytes + 1)
    { cursor := .initial, offset := cmd.start, remaining := cmd.bytes
      transfers := [] }
  .ok (cmd.bytes, st.transfers)

/-! ## `__do_perform_io_using_dma` -/

/-- The entries of `paddr_list`; entry 0 is not used. -/
def paddrListSize : ℕ := 513

/-- The first loop: collect the entries. -/
def collectLoop : ℕ → PrpCursor → (ℕ → ℕ) → ℕ →
    Except Fault (ℕ × (ℕ → ℕ))
  | 0, _, _, _ => .error .divergence
  | fuel + 1, cursor, paddrList, remaining =>
      if remaining = 0 then .ok (cursor.prpOffs, paddrList)
      else do
        let entry ← nextPrp cmd cursor remaining
        if entry.2.prpOffs < paddrListSize then
          collectLoop fuel entry.2
            (Function.update paddrList entry.2.prpOffs entry.1)
            (remaining - sizeInPage entry.1 remaining)
        else .error .outOfBounds

/-- The loop that adds the pages which follow the one before, with `left`
entries to go: the entry it stops at, and the size of the run. -/
def mergeLoop (paddrList : ℕ → ℕ) : ℕ → ℕ → ℕ → ℕ × ℕ
  | 0, prpOffs, size => (prpOffs, size)
  | left + 1, prpOffs, size =>
      if paddrList prpOffs = u64 (paddrList (prpOffs - 1) + pageSize) then
        mergeLoop paddrList left (prpOffs + 1) (size + pageSize)
      else (prpOffs, size)

/-- `ioat_dma_submit`, if the opcode asks for it. -/
def submitDma (paddr offset size : ℕ) : List Transfer :=
  match directionOf cmd.opcode with
  | none => []
  | some direction =>
      [{ direction := direction, host := paddr
         storage := u64 (dev.storageStart + offset), size := size }]

/-- The second loop: submit the transfers. -/
def submitLoop (numPrps : ℕ) (paddrList : ℕ → ℕ) :
    ℕ → ℕ → ℕ → ℕ → List Transfer → Except Fault (List Transfer)
  | 0, _, _, _, _ => .error .divergence
  | fuel + 1, prpOffs, offset, remaining, transfers =>
      if remaining = 0 then .ok transfers
      else if prpOffs < paddrListSize then
        let paddr := paddrList prpOffs
        let run := mergeLoop paddrList (numPrps - prpOffs) (prpOffs + 1)
          (sizeInPage paddr remaining)
        let size := min remaining run.2
        submitLoop numPrps paddrList fuel run.1 (u64 (offset + size))
          (remaining - size) (transfers ++ submitDma dev cmd paddr offset size)
      else .error .outOfBounds

/-- `__do_perform_io_using_dma`: the number of bytes it returns, and the
transfers it submits. -/
def doPerformIoUsingDma : Except Fault (ℕ × List Transfer) := do
  let collected ← collectLoop cmd (cmd.bytes + 1) .initial (fun _ => 0)
    cmd.bytes
  let transfers ← submitLoop dev cmd collected.1 collected.2 (cmd.bytes + 1) 1
    cmd.start cmd.bytes []
  .ok (cmd.bytes, transfers)

end

/-! ## The entries of a command -/

/-- The bytes a transfer pairs: those of the host with those of the storage. -/
def Transfer.bytes (transfer : Transfer) : List (Direction × ℕ × ℕ) :=
  (extent (2 ^ 64) transfer.host transfer.storage transfer.size).map fun pair =>
    (transfer.direction, pair)

namespace PrpCommand

variable (cmd : PrpCommand)

/-- What is left behind the first entry. -/
def restBytes : ℕ := cmd.bytes - sizeInPage cmd.prp1 cmd.bytes

/-- The entries a command needs, one for each page of the rest. -/
def nrPrps : ℕ := 1 + divRoundUp cmd.restBytes pageSize

/-- Entry `number`, counted from 1. -/
def entry (number : ℕ) : ℕ :=
  if number = 1 then cmd.prp1
  else if pageSize < cmd.restBytes then cmd.prpList (number - 2)
  else cmd.prp2

/-- All entries but the first are aligned to pages. -/
def LaterAligned : Prop :=
  ∀ number, 2 ≤ number → number ≤ cmd.nrPrps → cmd.entry number % pageSize = 0

/-- The entries behind the first `count`. -/
def entriesFrom (count : ℕ) : List ℕ :=
  (List.range' (count + 1) (cmd.nrPrps - count)).map cmd.entry

/-- The bytes to go behind the first `count` entries. -/
def bytesLeft : ℕ → ℕ
  | 0 => cmd.bytes
  | count + 1 => cmd.restBytes - count * pageSize

/-- What the entry behind the first `count` takes. -/
def sizeAt (count : ℕ) : ℕ :=
  sizeInPage (cmd.entry (count + 1)) (cmd.bytesLeft count)

/-- The cursor behind the first `count` entries. -/
def cursorAt (count : ℕ) : PrpCursor where
  prpOffs := count
  prp2Offs :=
    if pageSize < cmd.restBytes ∧ 2 ≤ count then count - 1 else 0
  listMapped := decide (pageSize < cmd.restBytes ∧ 2 ≤ count)

end PrpCommand

section

variable {cmd : PrpCommand} {count : ℕ}

theorem sizeInPage_eq (paddr remaining : ℕ) :
    sizeInPage paddr remaining =
      min remaining (pageSize - paddr % pageSize) := by
  have hoffs := Nat.mod_lt paddr (show 0 < pageSize by decide)
  dsimp only [sizeInPage]
  split_ifs <;> omega

theorem sizeInPage_pos {paddr remaining : ℕ} (hpos : 0 < remaining) :
    0 < sizeInPage paddr remaining := by
  have hoffs := Nat.mod_lt paddr (show 0 < pageSize by decide)
  rw [sizeInPage_eq]
  omega

/-- The entries that are needed are those up to where nothing is left. -/
theorem lt_nrPrps_iff : count < cmd.nrPrps ↔ 0 < cmd.bytesLeft count := by
  cases count with
  | zero =>
      refine iff_of_true (Nat.lt_add_right _ Nat.one_pos) ?_
      exact Nat.mul_pos (Nat.succ_pos _) (Nat.two_pow_pos 9)
  | succ count =>
      have hround : count < divRoundUp cmd.restBytes pageSize ↔
          count * pageSize < cmd.restBytes := by
        rw [divRoundUp, Nat.lt_iff_add_one_le,
          Nat.le_div_iff_mul_le (show 0 < pageSize by decide), Nat.succ_mul]
        rw [pageSize]
        omega
      rw [PrpCommand.nrPrps, PrpCommand.bytesLeft, Nat.add_comm 1,
        Nat.add_lt_add_iff_right, hround, Nat.sub_pos_iff_lt]

theorem entriesFrom_of_lt (hlt : count < cmd.nrPrps) :
    cmd.entriesFrom count =
      cmd.entry (count + 1) :: cmd.entriesFrom (count + 1) := by
  have hsplit : cmd.nrPrps - count = cmd.nrPrps - (count + 1) + 1 := by omega
  rw [PrpCommand.entriesFrom, hsplit, List.range'_succ, List.map_cons,
    PrpCommand.entriesFrom]

theorem entriesFrom_nil (hge : cmd.nrPrps ≤ count) :
    cmd.entriesFrom count = [] := by
  rw [PrpCommand.entriesFrom, Nat.sub_eq_zero_of_le hge]
  rfl

/-- Each entry takes what its page has room for. -/
theorem bytesLeft_succ (haligned : cmd.LaterAligned)
    (hlt : count < cmd.nrPrps) :
    cmd.bytesLeft count - cmd.sizeAt count = cmd.bytesLeft (count + 1) := by
  rw [PrpCommand.sizeAt]
  cases count with
  | zero =>
      rw [PrpCommand.bytesLeft, PrpCommand.bytesLeft, Nat.zero_mul,
        Nat.sub_zero]
      rfl
  | succ count =>
      rw [sizeInPage_eq, haligned _ (by omega) hlt, PrpCommand.bytesLeft,
        PrpCommand.bytesLeft, Nat.succ_mul]
      omega

/-- The entries are read one after the other. -/
theorem nextPrp_cursorAt (hlt : count < cmd.nrPrps) :
    nextPrp cmd (cmd.cursorAt count) (cmd.bytesLeft count) =
      .ok (cmd.entry (count + 1), cmd.cursorAt (count + 1)) := by
  have hleft := lt_nrPrps_iff.mp hlt
  match count with
  | 0 =>
      rw [nextPrp, PrpCommand.entry, PrpCommand.cursorAt, PrpCommand.cursorAt]
      simp
  | 1 =>
      rw [nextPrp, PrpCommand.bytesLeft, Nat.zero_mul, Nat.sub_zero,
        PrpCommand.entry, PrpCommand.cursorAt, PrpCommand.cursorAt]
      by_cases hlist : pageSize < cmd.restBytes
      · simp [hlist]
      · simp [hlist]
  | count + 2 =>
      have hlist : pageSize < cmd.restBytes := by
        rw [PrpCommand.bytesLeft, Nat.succ_mul] at hleft
        omega
      rw [nextPrp, PrpCommand.entry, PrpCommand.cursorAt, PrpCommand.cursorAt]
      simp [hlist]

end

/-! ## The copies -/

section

variable {dev : StorageMap} {cmd : PrpCommand} {direction : Direction}
variable {count : ℕ}

/-- The bytes that the entries behind the first `count` pair with the storage
at `storage`. -/
def PrpCommand.pairsFrom (cmd : PrpCommand) (count storage : ℕ) :
    List (ℕ × ℕ) :=
  scatter (2 ^ 64) pageSize (cmd.entriesFrom count) storage
    (cmd.bytesLeft count)

/-- One entry pairs what it takes, and the others the rest. -/
theorem pairsFrom_of_lt (haligned : cmd.LaterAligned)
    (hlt : count < cmd.nrPrps) (storage : ℕ) :
    cmd.pairsFrom count storage =
      extent (2 ^ 64) (cmd.entry (count + 1)) storage (cmd.sizeAt count) ++
        cmd.pairsFrom (count + 1) (storage + cmd.sizeAt count) := by
  rw [PrpCommand.pairsFrom, entriesFrom_of_lt hlt, scatter, ← sizeInPage_eq,
    ← PrpCommand.sizeAt, bytesLeft_succ haligned hlt, PrpCommand.pairsFrom]

theorem pairsFrom_nil (hnone : cmd.bytesLeft count = 0) (storage : ℕ) :
    cmd.pairsFrom count storage = [] := by
  rw [PrpCommand.pairsFrom, hnone, scatter_zero]

theorem pairsFrom_congr {storage storage' : ℕ}
    (heq : storage % 2 ^ 64 = storage' % 2 ^ 64) :
    cmd.pairsFrom count storage = cmd.pairsFrom count storage' :=
  scatter_congr _ _ heq

/-- There is less to go behind each entry. -/
theorem bytesLeft_lt (haligned : cmd.LaterAligned) (hlt : count < cmd.nrPrps) :
    cmd.bytesLeft (count + 1) < cmd.bytesLeft count := by
  have hleft := lt_nrPrps_iff.mp hlt
  rw [← bytesLeft_succ haligned hlt]
  exact Nat.sub_lt hleft (sizeInPage_pos hleft)

/-- The storage address behind a transfer, with the wrap of its offset. -/
theorem storage_after (base offset size : ℕ) :
    (base + u64 (offset + size)) % 2 ^ 64 =
      (base + offset + size) % 2 ^ 64 := by
  rw [u64, Nat.add_mod_mod, Nat.add_assoc]

/-- The bytes of a transfer to or from `base + offset`. -/
theorem bytes_mk (host base offset size : ℕ) :
    Transfer.bytes
        { direction := direction, host := host
          storage := u64 (base + offset), size := size } =
      (extent (2 ^ 64) host (base + offset) size).map (direction, ·) := by
  have hwrap : u64 (base + offset) % 2 ^ 64 = (base + offset) % 2 ^ 64 :=
    Nat.mod_mod _ _
  exact congrArg (List.map (direction, ·)) (extent_congr size rfl hwrap)

/-- The copies of a page. -/
theorem copyPage_spec (hdirection : directionOf cmd.opcode = some direction)
    (hnsid : sub32 cmd.nsid 1 < dev.nrNs) (paddr offset size : ℕ) :
    ∃ copied, copyPage dev cmd paddr offset size = .ok copied ∧
      copied.flatMap Transfer.bytes =
        (extent (2 ^ 64) paddr (dev.mapped (sub32 cmd.nsid 1) + offset)
          size).map (direction, ·) := by
  rw [copyPage, hdirection]
  refine ⟨_, if_pos hnsid, ?_⟩
  rw [List.flatMap_singleton, bytes_mk, Nat.mul_comm, Nat.div_add_mod]

/-- A round takes the entry behind the first `count`. -/
theorem copyRound_spec (hdirection : directionOf cmd.opcode = some direction)
    (hnsid : sub32 cmd.nsid 1 < dev.nrNs) (haligned : cmd.LaterAligned)
    (hlt : count < cmd.nrPrps) (offset : ℕ) (transfers : List Transfer) :
    ∃ copied,
      copyRound dev cmd
          { cursor := cmd.cursorAt count, offset := offset
            remaining := cmd.bytesLeft count, transfers := transfers } =
        .ok
          { cursor := cmd.cursorAt (count + 1)
            offset := u64 (offset + cmd.sizeAt count)
            remaining := cmd.bytesLeft (count + 1)
            transfers := transfers ++ copied } ∧
      copied.flatMap Transfer.bytes =
        (extent (2 ^ 64) (cmd.entry (count + 1))
          (dev.mapped (sub32 cmd.nsid 1) + offset) (cmd.sizeAt count)).map
            (direction, ·) := by
  obtain ⟨copied, hcopied, hbytes⟩ := copyPage_spec hdirection hnsid
    (cmd.entry (count + 1)) offset (cmd.sizeAt count)
  refine ⟨copied, ?_, hbytes⟩
  rw [copyRound]
  dsimp only
  rw [nextPrp_cursorAt hlt, ok_bind, ← PrpCommand.sizeAt, hcopied, ok_bind,
    bytesLeft_succ haligned hlt]

/-- The loop, from the entry behind the first `count` on. -/
theorem copyLoop_spec (hdirection : directionOf cmd.opcode = some direction)
    (hnsid : sub32 cmd.nsid 1 < dev.nrNs) (haligned : cmd.LaterAligned)
    (fuel count offset : ℕ) (transfers : List Transfer)
    (hfuel : cmd.bytesLeft count < fuel) :
    ∃ final,
      copyLoop dev cmd fuel
          { cursor := cmd.cursorAt count, offset := offset
            remaining := cmd.bytesLeft count, transfers := transfers } =
        .ok final ∧
      final.transfers.flatMap Transfer.bytes =
        transfers.flatMap Transfer.bytes ++
          (cmd.pairsFrom count
            (dev.mapped (sub32 cmd.nsid 1) + offset)).map (direction, ·) := by
  induction fuel generalizing count offset transfers with
  | zero => exact absurd hfuel (Nat.not_lt_zero _)
  | succ fuel ih =>
      rw [copyLoop]
      by_cases hnone : cmd.bytesLeft count = 0
      · refine ⟨_, if_pos hnone, ?_⟩
        rw [pairsFrom_nil hnone, List.map_nil, List.append_nil]
      · have hlt : count < cmd.nrPrps :=
          lt_nrPrps_iff.mpr (Nat.pos_of_ne_zero hnone)
        obtain ⟨copied, hround, hcopied⟩ :=
          copyRound_spec hdirection hnsid haligned hlt offset transfers
        have hless := bytesLeft_lt haligned hlt
        rw [if_neg hnone, hround, ok_bind]
        obtain ⟨final, hfinal, hbytes⟩ :=
          ih (count + 1) (u64 (offset + cmd.sizeAt count))
            (transfers ++ copied) (by omega)
        refine ⟨final, hfinal, ?_⟩
        rw [hbytes, pairsFrom_of_lt haligned hlt, List.flatMap_append, hcopied,
          List.map_append, List.append_assoc,
          pairsFrom_congr (storage_after _ _ _)]

end

/-! ## The transfers -/

section

variable {dev : StorageMap} {cmd : PrpCommand} {direction : Direction}
variable {paddrList : ℕ → ℕ}

/-- The entries are collected in their order. -/
theorem collectLoop_spec (haligned : cmd.LaterAligned)
    (hnrPrps : cmd.nrPrps < paddrListSize) (fuel count : ℕ)
    (paddrList : ℕ → ℕ) (hcount : count ≤ cmd.nrPrps)
    (hlist : ∀ number, 1 ≤ number → number ≤ count →
      paddrList number = cmd.entry number)
    (hfuel : cmd.bytesLeft count < fuel) :
    ∃ collected,
      collectLoop cmd fuel (cmd.cursorAt count) paddrList
        (cmd.bytesLeft count) = .ok (cmd.nrPrps, collected) ∧
      ∀ number, 1 ≤ number → number ≤ cmd.nrPrps →
        collected number = cmd.entry number := by
  induction fuel generalizing count paddrList with
  | zero => exact absurd hfuel (Nat.not_lt_zero _)
  | succ fuel ih =>
      rw [collectLoop]
      by_cases hnone : cmd.bytesLeft count = 0
      · have hge : cmd.nrPrps ≤ count := by
          rw [← Nat.not_lt, lt_nrPrps_iff, hnone]
          exact Nat.lt_irrefl 0
        have hall : count = cmd.nrPrps := Nat.le_antisymm hcount hge
        refine ⟨paddrList, ?_, hall ▸ hlist⟩
        rw [if_pos hnone, ← hall]
        rfl
      · have hlt : count < cmd.nrPrps :=
          lt_nrPrps_iff.mpr (Nat.pos_of_ne_zero hnone)
        have hless := bytesLeft_lt haligned hlt
        have hroom : (cmd.cursorAt (count + 1)).prpOffs < paddrListSize :=
          Nat.lt_of_le_of_lt hlt hnrPrps
        rw [if_neg hnone, nextPrp_cursorAt hlt, ok_bind]
        dsimp only
        rw [if_pos hroom, ← PrpCommand.sizeAt, bytesLeft_succ haligned hlt]
        apply ih (count + 1) _ hlt _ (by omega)
        intro number hpos hle
        rcases Nat.lt_or_eq_of_le hle with hold | rfl
        · have hne : number ≠ (cmd.cursorAt (count + 1)).prpOffs :=
            Nat.ne_of_lt hold
          rw [Function.update_of_ne hne]
          exact hlist number hpos (Nat.le_of_lt_succ hold)
        · exact Function.update_self _ _ _

/-- The pages that are added follow each other. -/
theorem mergeLoop_spec (paddrList : ℕ → ℕ) (left prpOffs size : ℕ) :
    ∃ count ≤ left,
      mergeLoop paddrList left (prpOffs + 1) size =
        (prpOffs + 1 + count, size + count * pageSize) ∧
      Contiguous (2 ^ 64) pageSize (paddrList prpOffs)
        ((List.range' (prpOffs + 1) count).map paddrList) := by
  induction left generalizing prpOffs size with
  | zero =>
      refine ⟨0, Nat.le_refl _, ?_, trivial⟩
      rw [mergeLoop, Nat.zero_mul]
      rfl
  | succ left ih =>
      rw [mergeLoop, Nat.add_sub_cancel]
      by_cases hnext :
          paddrList (prpOffs + 1) = u64 (paddrList prpOffs + pageSize)
      · obtain ⟨count, hle, hrest, hrun⟩ := ih (prpOffs + 1) (size + pageSize)
        refine ⟨count + 1, Nat.succ_le_succ hle, ?_, hnext, hrun⟩
        rw [if_pos hnext, hrest, Nat.succ_mul, Nat.add_assoc size,
          Nat.add_comm pageSize, Nat.add_assoc (prpOffs + 1), Nat.add_comm 1]
      · refine ⟨0, Nat.zero_le _, ?_, trivial⟩
        rw [if_neg hnext, Nat.zero_mul]
        rfl

/-- The entries split into a page, a run behind it and the others. -/
theorem entriesFrom_run {count run : ℕ} (hrun : count + 1 + run ≤ cmd.nrPrps) :
    cmd.entriesFrom count =
      cmd.entry (count + 1) ::
        ((List.range' (count + 2) run).map cmd.entry ++
          cmd.entriesFrom (count + 1 + run)) := by
  have hsplit : cmd.nrPrps - (count + 1) =
      run + (cmd.nrPrps - (count + 1 + run)) := by omega
  have hrest : count + 1 + run + 1 = count + 2 + run := by omega
  rw [entriesFrom_of_lt (by omega), PrpCommand.entriesFrom, hsplit,
    ← List.range'_append_1, List.map_append, PrpCommand.entriesFrom, hrest]

theorem aligned_of_mem (haligned : cmd.LaterAligned) {first run : ℕ}
    (hfirst : 2 ≤ first) (hlast : first + run ≤ cmd.nrPrps + 1) :
    ∀ page ∈ (List.range' first run).map cmd.entry, page % pageSize = 0 := by
  intro page hpage
  obtain ⟨number, hnumber, rfl⟩ := List.mem_map.mp hpage
  obtain ⟨hge, hlt⟩ := List.mem_range'_1.mp hnumber
  exact haligned number (by omega) (by omega)

/-- The entries have room for the bytes of the command. -/
theorem bytes_le_capacity (haligned : cmd.LaterAligned) :
    cmd.bytes ≤ capacity pageSize (cmd.entriesFrom 0) := by
  have hlater : cmd.nrPrps = 1 + divRoundUp cmd.restBytes pageSize := rfl
  have hround : cmd.restBytes ≤ divRoundUp cmd.restBytes pageSize * pageSize := by
    rw [divRoundUp]
    rw [pageSize]
    omega
  have hrest : cmd.restBytes =
      cmd.bytes - min cmd.bytes (pageSize - cmd.prp1 % pageSize) := by
    rw [PrpCommand.restBytes, sizeInPage_eq]
  have hfirst : cmd.entry 1 = cmd.prp1 := rfl
  rw [entriesFrom_of_lt (by omega), capacity_cons, PrpCommand.entriesFrom,
    capacity_of_aligned (aligned_of_mem haligned (by omega) (by omega)),
    List.length_map, List.length_range', hlater, Nat.zero_add,
    Nat.add_sub_cancel_left, hfirst]
  omega

/-- What is submitted, if the opcode asks for it. -/
theorem submitDma_bytes (hdirection : directionOf cmd.opcode = some direction)
    (paddr offset size : ℕ) :
    (submitDma dev cmd paddr offset size).flatMap Transfer.bytes =
      (extent (2 ^ 64) paddr (dev.storageStart + offset) size).map
        (direction, ·) := by
  rw [submitDma, hdirection]
  exact (List.flatMap_singleton _ _).trans (bytes_mk _ _ _ _)

/-- One round of the transfers takes a page and the run behind it. -/
theorem mergeLoop_entries (haligned : cmd.LaterAligned)
    (hlist : ∀ number, 1 ≤ number → number ≤ cmd.nrPrps →
      paddrList number = cmd.entry number)
    {count : ℕ} (hlt : count < cmd.nrPrps) (remaining : ℕ) :
    ∃ run size, count + 1 + run ≤ cmd.nrPrps ∧
      mergeLoop paddrList (cmd.nrPrps - (count + 1)) (count + 1 + 1)
        (sizeInPage (paddrList (count + 1)) remaining) =
          (count + 1 + run + 1, size) ∧
      min remaining size =
        min remaining (capacity pageSize (cmd.entry (count + 1) ::
          (List.range' (count + 2) run).map cmd.entry)) ∧
      Contiguous (2 ^ 64) pageSize (cmd.entry (count + 1))
        ((List.range' (count + 2) run).map cmd.entry) := by
  obtain ⟨run, hrun, hmerge, hcontiguous⟩ := mergeLoop_spec paddrList
    (cmd.nrPrps - (count + 1)) (count + 1)
    (sizeInPage (paddrList (count + 1)) remaining)
  have hpages : (List.range' (count + 1 + 1) run).map paddrList =
      (List.range' (count + 2) run).map cmd.entry := by
    refine List.map_congr_left fun number hnumber => ?_
    obtain ⟨hge, hle⟩ := List.mem_range'_1.mp hnumber
    exact hlist number (by omega) (by omega)
  have hpage : paddrList (count + 1) = cmd.entry (count + 1) :=
    hlist _ (Nat.succ_pos _) hlt
  rw [hpage, hpages] at hcontiguous
  rw [Nat.add_right_comm (count + 1) 1 run] at hmerge
  refine ⟨run, _, by omega, hmerge, ?_, hcontiguous⟩
  rw [capacity_cons, capacity_of_aligned
    (aligned_of_mem haligned (Nat.le_add_left 2 count) (by omega)),
    List.length_map, List.length_range', hpage, sizeInPage_eq]
  omega

/-- The loop, from the entry behind the first `count` on. -/
theorem submitLoop_spec (hdirection : directionOf cmd.opcode = some direction)
    (haligned : cmd.LaterAligned) (hnrPrps : cmd.nrPrps < paddrListSize)
    (hlist : ∀ number, 1 ≤ number → number ≤ cmd.nrPrps →
      paddrList number = cmd.entry number)
    (fuel count offset remaining : ℕ) (transfers : List Transfer)
    (hroom : remaining ≤ capacity pageSize (cmd.entriesFrom count))
    (hfuel : remaining < fuel) :
    ∃ final,
      submitLoop dev cmd cmd.nrPrps paddrList fuel (count + 1) offset remaining
        transfers = .ok final ∧
      final.flatMap Transfer.bytes =
        transfers.flatMap Transfer.bytes ++
          (scatter (2 ^ 64) pageSize (cmd.entriesFrom count)
            (dev.storageStart + offset) remaining).map (direction, ·) := by
  induction fuel generalizing count offset remaining transfers with
  | zero => exact absurd hfuel (Nat.not_lt_zero _)
  | succ fuel ih =>
      rw [submitLoop]
      by_cases hnone : remaining = 0
      · refine ⟨transfers, if_pos hnone, ?_⟩
        rw [hnone, scatter_zero, List.map_nil, List.append_nil]
      have hlt : count < cmd.nrPrps := by
        by_contra hge
        rw [entriesFrom_nil (Nat.le_of_not_lt hge), capacity_nil] at hroom
        exact hnone (Nat.le_zero.mp hroom)
      obtain ⟨run, size, hrun, hmerge, hsize, hcontiguous⟩ :=
        mergeLoop_entries haligned hlist hlt remaining
      have hrunAligned := aligned_of_mem haligned (Nat.le_add_left 2 count)
        (show count + 2 + run ≤ cmd.nrPrps + 1 by omega)
      have hpositive : 0 < min remaining size := by
        have hoffs := Nat.mod_lt (cmd.entry (count + 1))
          (show 0 < pageSize by decide)
        rw [hsize, capacity_cons]
        omega
      rw [entriesFrom_run hrun, ← List.cons_append, capacity_append] at hroom
      obtain ⟨final, hfinal, hbytes⟩ := ih (count + 1 + run)
        (u64 (offset + min remaining size)) (remaining - min remaining size)
        (transfers ++ submitDma dev cmd (cmd.entry (count + 1)) offset
          (min remaining size)) (by omega) (by omega)
      rw [if_neg hnone, if_pos (Nat.lt_of_le_of_lt hlt hnrPrps)]
      dsimp only
      rw [hmerge, hlist _ (Nat.succ_pos _) hlt]
      refine ⟨final, hfinal, ?_⟩
      rw [hbytes, List.flatMap_append, submitDma_bytes hdirection,
        List.append_assoc, ← List.map_append, entriesFrom_run hrun,
        scatter_contiguous (by decide) hcontiguous hrunAligned, ← hsize,
        scatter_congr _ _ (storage_after _ _ _)]

end

/-! ## Both paths -/

section

variable {cmd : PrpCommand} {direction : Direction}

theorem doPerformIo_spec (dev : StorageMap)
    (hdirection : directionOf cmd.opcode = some direction)
    (hnsid : sub32 cmd.nsid 1 < dev.nrNs) (haligned : cmd.LaterAligned) :
    ∃ copies, doPerformIo dev cmd = .ok (cmd.bytes, copies) ∧
      copies.flatMap Transfer.bytes =
        (cmd.pairsFrom 0 (dev.mapped (sub32 cmd.nsid 1) + cmd.start)).map
          (direction, ·) := by
  obtain ⟨final, hfinal, hbytes⟩ := copyLoop_spec hdirection hnsid haligned
    (cmd.bytes + 1) 0 cmd.start [] (Nat.lt_add_one _)
  have hinitial : cmd.cursorAt 0 = .initial := by
    rw [PrpCommand.cursorAt, PrpCursor.initial]
    simp
  rw [hinitial] at hfinal
  refine ⟨final.transfers, ?_, hbytes⟩
  rw [doPerformIo]
  exact congrArg (· >>= _) hfinal

theorem doPerformIoUsingDma_spec (dev : StorageMap)
    (hdirection : directionOf cmd.opcode = some direction)
    (hnrPrps : cmd.nrPrps < paddrListSize) (haligned : cmd.LaterAligned) :
    ∃ transfers, doPerformIoUsingDma dev cmd = .ok (cmd.bytes, transfers) ∧
      transfers.flatMap Transfer.bytes =
        (cmd.pairsFrom 0 (dev.storageStart + cmd.start)).map
          (direction, ·) := by
  obtain ⟨paddrList, hcollect, hlist⟩ := collectLoop_spec haligned hnrPrps
    (cmd.bytes + 1) 0 (fun _ => 0) (Nat.zero_le _)
    (fun number hpos hle => absurd (hpos.trans hle) (by decide))
    (Nat.lt_add_one _)
  obtain ⟨transfers, hsubmit, hbytes⟩ := submitLoop_spec hdirection haligned
    hnrPrps hlist (cmd.bytes + 1) 0 cmd.start cmd.bytes []
    (bytes_le_capacity haligned) (Nat.lt_add_one _)
  have hinitial : cmd.cursorAt 0 = .initial := by
    rw [PrpCommand.cursorAt, PrpCursor.initial]
    simp
  have hbytesLeft : cmd.bytesLeft 0 = cmd.bytes := rfl
  rw [hinitial, hbytesLeft] at hcollect
  refine ⟨transfers, ?_, hbytes⟩
  rw [doPerformIoUsingDma, hcollect, ok_bind]
  exact congrArg (· >>= _) hsubmit

/-- The storage side of the pairs is the range of the command. -/
theorem storage_pairsFrom (haligned : cmd.LaterAligned) (storage : ℕ) :
    ((cmd.pairsFrom 0 storage).map (direction, ·)).map (fun pair => pair.2.2) =
      (List.range cmd.bytes).map fun i => u64 (storage + i) := by
  rw [List.map_map]
  exact map_snd_scatter (bytes_le_capacity haligned)

/-- The transfers pair the bytes that the copies pair, the same way, and both
reach each byte of the range of the command once. -/
theorem dma_pairs_same_bytes (dev : StorageMap) (cmd : PrpCommand)
    (direction : Direction) (hnrNs : dev.nrNs = 1)
    (hmapped : dev.mapped 0 = dev.storageStart) (hnsid : cmd.nsid = 1)
    (hdirection : directionOf cmd.opcode = some direction)
    (hnrPrps : cmd.nrPrps ≤ 512) (haligned : cmd.LaterAligned) :
    ∃ copies transfers,
      doPerformIo dev cmd = .ok (cmd.bytes, copies) ∧
      doPerformIoUsingDma dev cmd = .ok (cmd.bytes, transfers) ∧
      transfers.flatMap Transfer.bytes = copies.flatMap Transfer.bytes ∧
      (∀ paired ∈ copies.flatMap Transfer.bytes, paired.1 = direction) ∧
      (copies.flatMap Transfer.bytes).map (fun paired => paired.2.2) =
        (List.range cmd.bytes).map
          (fun i => u64 (dev.storageStart + cmd.start + i)) ∧
      ((copies.flatMap Transfer.bytes).map
        fun paired => paired.2.2).Nodup := by
  have hzero : sub32 cmd.nsid 1 = 0 := by
    rw [hnsid]
    rfl
  have hbound : sub32 cmd.nsid 1 < dev.nrNs := by
    rw [hzero, hnrNs]
    exact Nat.one_pos
  have hsize : cmd.bytes ≤ 2 ^ 64 := by
    have hlength := cmd.length_lt
    rw [PrpCommand.bytes]
    omega
  obtain ⟨copies, hcopies, hcopied⟩ :=
    doPerformIo_spec dev hdirection hbound haligned
  obtain ⟨transfers, htransfers, hsubmitted⟩ :=
    doPerformIoUsingDma_spec dev hdirection (Nat.lt_succ_of_le hnrPrps)
      haligned
  rw [hzero, hmapped] at hcopied
  refine ⟨copies, transfers, hcopies, htransfers,
    hsubmitted.trans hcopied.symm, ?_, ?_, ?_⟩
  · intro paired hpaired
    rw [hcopied] at hpaired
    obtain ⟨pair, -, rfl⟩ := List.mem_map.mp hpaired
    rfl
  · rw [hcopied, storage_pairsFrom haligned]
  · rw [hcopied, storage_pairsFrom haligned]
    exact nodup_range_mod _ hsize

/-- A write of 21 sectors from the middle of a page. -/
def unalignedWrite : PrpCommand where
  opcode := 0x01
  nsid := 1
  prp1 := 0x1200
  prp2 := 0x8000
  slba := 3
  length := 20
  prpList := fun index => 0x20000 + index * 0x1000
  length_lt := by decide

theorem unalignedWrite_aligned : unalignedWrite.LaterAligned := by
  intro number hge _
  have hlist : unalignedWrite.entry number =
      0x20000 + (number - 2) * 0x1000 := by
    rw [PrpCommand.entry, if_neg (Nat.ne_of_gt hge)]
    exact if_pos (by decide)
  rw [hlist]
  rw [pageSize]
  omega

/-- A map with one namespace. -/
def oneNamespace : StorageMap where
  nrNs := 1
  mapped := fun _ => 0x100000
  storageStart := 0x100000

theorem dma_pairs_same_bytes_unaligned :
    ∃ copies transfers,
      doPerformIo oneNamespace unalignedWrite =
        .ok (unalignedWrite.bytes, copies) ∧
      doPerformIoUsingDma oneNamespace unalignedWrite =
        .ok (unalignedWrite.bytes, transfers) ∧
      transfers.flatMap Transfer.bytes = copies.flatMap Transfer.bytes := by
  obtain ⟨copies, transfers, hcopies, htransfers, hsame, _⟩ :=
    dma_pairs_same_bytes oneNamespace unalignedWrite .toStorage rfl rfl rfl rfl
      (by decide) unalignedWrite_aligned
  exact ⟨copies, transfers, hcopies, htransfers, hsame⟩

end

end NvmeVirt.Transfers
