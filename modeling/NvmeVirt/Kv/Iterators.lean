import NvmeVirt.Core.Segments
import NvmeVirt.Kv.Extents
import NvmeVirt.Kv.Payload

/-!
# Iterators over the keys

An iterator is opened with a prefix and a bitmask.  Its reads walk through the
slots of the mapping table, 1024 bytes of keys a read, and keep the slot where
they stopped; other commands change the table between two reads.
-/

namespace NvmeVirt.KvIterators

open NvmeVirt.ByteMap
open NvmeVirt.Kernel
open NvmeVirt.KvAllocators
open NvmeVirt.KvCommands
open NvmeVirt.KvExtents
open NvmeVirt.KvMapping
open NvmeVirt.KvPayload
open NvmeVirt.KvTableChanges
open NvmeVirt.Segments
open NvmeVirt.Transition

/-- `struct kv_iter_context`. -/
structure KvIterContext where
  keyPrefix : ℕ
  bitmask : ℕ
  currentPos : ℕ
  buf : ℕ → UInt8

/-- `struct kv_ftl` with its iterators; `NULL` is `none`. -/
structure KvIterFtl where
  ftl : KvFtl
  iterHandle : ℕ → Option KvIterContext

/-- The opcodes of iterator commands. -/
inductive KvIterOpcode
  | iterReq
  | iterRead
  deriving DecidableEq

/-- An iterator command; `buf` is the memory that an open gets from
`kmalloc`. -/
structure KvIterCommand where
  opcode : KvIterOpcode
  iterHandle : ℕ
  option : ℕ
  iterVal : ℕ
  iterBitmask : ℕ
  buf : ℕ → UInt8

/-- `ITER_OPTION_OPEN` and `ITER_OPTION_CLOSE`. -/
def iterOptionOpen : ℕ := 1
def iterOptionClose : ℕ := 2

/-- The status of a read that comes to the end of the table. -/
def iterEnd : ℕ := 0x393

/-- What a read fills of its buffer at most. -/
def iterBufferSize : ℕ := 1024

/-- The length of a key in the buffer. -/
def iterKeyLen : ℕ := 16

/-- `memcpy` out of the key of an entry. -/
def entryBytes (entry : MappingEntry) (size : ℕ) : List UInt8 :=
  readBytes (fun i => entry.key.getD i 0) 0 size

/-- An entry in use whose key matches under the bitmask. -/
def iterMatches (keyPrefix bitmask : ℕ) (entry : MappingEntry) : Bool :=
  entry.memOffset ≠ none ∧
    ofLittleEndian (entryBytes entry 4) &&& bitmask = keyPrefix &&& bitmask

/-- The variables of the loop of `kv_iter_read`. -/
structure IterScan where
  pos : ℕ
  buf : ℕ → UInt8
  bufOffset : ℕ
  nrKeys : ℕ

/-- The two copies of `kv_iter_read` for an entry. -/
def packKey (s : IterScan) (entry : MappingEntry) : IterScan :=
  { s with
    buf := writeBytes (writeBytes s.buf s.bufOffset (littleEndian 4 iterKeyLen))
      (s.bufOffset + 4) (entryBytes entry iterKeyLen)
    bufOffset := s.bufOffset + 4 + iterKeyLen
    nrKeys := s.nrKeys + 1 }

section

variable (cfg : KvConfig) (search : ZeroAreaSearch)

/-- The loop of `kv_iter_read`, with the slots that are left, and whether it
set `end`. -/
def iterLoop (table : Table) (handle : KvIterContext) :
    ℕ → IterScan → IterScan × Bool
  | 0, s => (s, false)
  | left + 1, s =>
      let found := iterMatches handle.keyPrefix handle.bitmask (table s.pos)
      if found ∧ iterBufferSize < s.bufOffset + 4 + iterKeyLen then (s, false)
      else
        let s := if found then packKey s (table s.pos) else s
        let s := { s with pos := s.pos + 1 }
        if s.pos = cfg.hashSlots then (s, true)
        else iterLoop table handle left s

/-- The loop of `kv_iter_read` from the saved position on. -/
def iterScan (table : Table) (handle : KvIterContext) : IterScan × Bool :=
  iterLoop cfg table handle (cfg.hashSlots - handle.currentPos)
    { pos := handle.currentPos, buf := handle.buf, bufOffset := 4, nrKeys := 0 }

/-- `kv_iter_open`. -/
def kvIterOpen (s : KvIterFtl) (cmd : KvIterCommand) : KvOutcome × KvIterFtl :=
  match (List.range' 1 16).find? fun iter => (s.iterHandle iter).isNone with
  | none => ({ result := 1, status := none, data := [] }, s)
  | some iter =>
      ({ result := iter, status := some 0, data := [] },
        { s with
          iterHandle := Function.update s.iterHandle iter (some
            { keyPrefix := cmd.iterVal, bitmask := cmd.iterBitmask
              currentPos := 0, buf := cmd.buf }) })

/-- `kv_iter_close`. -/
def kvIterClose (s : KvIterFtl) (cmd : KvIterCommand) :
    Except Fault (KvOutcome × KvIterFtl) :=
  if 17 ≤ cmd.iterHandle then .error .outOfBounds
  else .ok ({ result := 0, status := some 0, data := [] },
    { s with iterHandle := Function.update s.iterHandle cmd.iterHandle none })

/-- `kv_iter_read`. -/
def kvIterRead (s : KvIterFtl) (cmd : KvIterCommand) :
    Except Fault (KvOutcome × KvIterFtl) :=
  if 17 ≤ cmd.iterHandle then .error .outOfBounds
  else match s.iterHandle cmd.iterHandle with
    | none => .ok (.silent, s)
    | some handle =>
        let (scan, atEnd) := iterScan cfg s.ftl.table handle
        let buf := writeBytes scan.buf 0 (littleEndian 4 scan.nrKeys)
        .ok ({ result := scan.bufOffset
               status := some (if atEnd then iterEnd else 0)
               data := readBytes buf 0 scan.bufOffset },
          { s with
            iterHandle := Function.update s.iterHandle cmd.iterHandle (some
              { handle with currentPos := scan.pos, buf := buf }) })

/-- `__do_perform_kv_iter_io`. -/
def doPerformKvIterIo (s : KvIterFtl) (cmd : KvIterCommand) :
    Except Fault (KvOutcome × KvIterFtl) :=
  match cmd.opcode with
  | .iterReq =>
      if cmd.option &&& iterOptionOpen ≠ 0 then .ok (kvIterOpen s cmd)
      else if cmd.option &&& iterOptionClose ≠ 0 then kvIterClose s cmd
      else .ok (.silent, s)
  | .iterRead => kvIterRead cfg s cmd

/-- What happens between two reads of an iterator. -/
inductive IterAction
  | kv (action : KvAction)
  | iter (cmd : KvIterCommand)

/-- One command of `kv_perform_nvme_io_cmd`. -/
def iterStep (s : KvIterFtl) : IterAction → Except Fault KvIterFtl
  | .kv action => do
      let ftl ← kvStep cfg search s.ftl action
      return { s with ftl := ftl }
  | .iter cmd => do
      let (_, s) ← doPerformKvIterIo cfg s cmd
      return s

/-- A read, with the namespace before and after it. -/
structure IterRead where
  before : KvIterFtl
  outcome : KvOutcome
  after : KvIterFtl

/-- The reads of an iterator, each after the commands of its round. -/
def iterReads (read : KvIterCommand) : KvIterFtl → List (List IterAction) →
    Except Fault (List IterRead)
  | _, [] => .ok []
  | s, actions :: rounds => do
      let before ← actions.foldlM (iterStep cfg search) s
      let (outcome, after) ← kvIterRead cfg before read
      let reads ← iterReads read after rounds
      return { before := before, outcome := outcome, after := after } :: reads

end

/-- A key in the buffer, after its length. -/
def iterRecord (key : List UInt8) : List UInt8 :=
  littleEndian 4 iterKeyLen ++ key

/-- A buffer of keys: their number, then each with its length. -/
def iterPage (keys : List (List UInt8)) : List UInt8 :=
  littleEndian 4 keys.length ++ keys.flatMap iterRecord

/-- The saved position of an iterator. -/
def posOf (s : KvIterFtl) (iter : ℕ) : ℕ :=
  ((s.iterHandle iter).map KvIterContext.currentPos).getD 0

/-- The command is none of the iterator's own: it is an open, or names another
handle. -/
def IterAction.Leaves (iter : ℕ) : IterAction → Prop
  | .kv _ => True
  | .iter cmd => cmd.opcode = .iterReq ∧ cmd.option &&& iterOptionOpen ≠ 0 ∨
      cmd.iterHandle ≠ iter

/-- The read reports the end. -/
def IterRead.Ends (read : IterRead) : Prop := read.outcome.status = some iterEnd

section

variable (cfg : KvConfig) (opened : KvIterCommand) (iter : ℕ)

/-- The slots that a read of the iterator walks through, and those of them
with a key to return. -/
def IterRead.segment (read : IterRead) : Segment where
  start := posOf read.before iter
  stop := posOf read.after iter
  keeps slot := iterMatches opened.iterVal opened.iterBitmask
    (read.before.ftl.table slot)

/-- The keys that a read returns, with their slots. -/
def IterRead.packed (read : IterRead) : List (ℕ × List UInt8) :=
  (read.segment opened iter).picks.map fun slot =>
    (slot, entryBytes (read.before.ftl.table slot) iterKeyLen)

/-- The keys that the reads return, with their slots. -/
def returned (reads : List IterRead) : List (ℕ × List UInt8) :=
  reads.flatMap (IterRead.packed opened iter)

/-- At the time of the read the slot has an entry in use with this key, which
matches. -/
def IterRead.Lists (read : IterRead) (slot : ℕ) (key : List UInt8) : Prop :=
  iterMatches opened.iterVal opened.iterBitmask (read.before.ftl.table slot) ∧
    entryBytes (read.before.ftl.table slot) iterKeyLen = key

/-- The read fills its buffer with the keys that it walks over. -/
structure IterRead.FillsPage (read : IterRead) : Prop where
  data_eq : read.outcome.data = iterPage ((read.packed opened iter).map Prod.snd)
  result_eq : read.outcome.result = read.outcome.data.length
  length_le : read.outcome.data.length ≤ iterBufferSize
  count_eq : ofLittleEndian (read.outcome.data.take 4) =
    (read.packed opened iter).length

/-- The reads move on, end, and return the matching keys in the order of their
slots.  A key that stays in its slot is returned for that slot, once, and for
no other slot that does not hold it too. -/
structure ReadsReturn (reads : List IterRead) : Prop where
  fills : ∀ read ∈ reads, read.FillsPage opened iter
  moves : ∀ read ∈ reads.dropLast, posOf read.before iter < posOf read.after iter
  length_lt : (∀ read ∈ reads, ¬ read.Ends) → reads.length < cfg.hashSlots
  ordered : ((returned opened iter reads).map Prod.fst).Pairwise (· < ·)
  once : ∀ last, reads.getLast? = some last → last.Ends →
    ∀ slot key, slot < cfg.hashSlots →
      (∀ read ∈ reads, read.Lists opened slot key) →
      (returned opened iter reads).filter (fun pair => pair.1 = slot) =
        [(slot, key)]
  key_once : ∀ last, reads.getLast? = some last → last.Ends →
    ∀ slot key, slot < cfg.hashSlots →
      (∀ read ∈ reads, read.Lists opened slot key) →
      (∀ read ∈ reads, ∀ other, other < cfg.hashSlots →
        read.Lists opened other key → other = slot) →
      (returned opened iter reads).filter (fun pair => pair.2 = key) =
        [(slot, key)]

end

variable {cfg : KvConfig} {search : ZeroAreaSearch} {table : Table}
  {handle : KvIterContext} {s : IterScan} {start : ℕ}

/-! ## The loop -/

theorem length_entryBytes (entry : MappingEntry) (size : ℕ) :
    (entryBytes entry size).length = size :=
  length_readBytes _ _ _

/-- The slots that the loop walked through. -/
def walked (table : Table) (handle : KvIterContext) (start stop : ℕ) : Segment where
  start := start
  stop := stop
  keeps slot := iterMatches handle.keyPrefix handle.bitmask (table slot)

/-- The buffer holds the keys of the slots from `start` up to the position. -/
structure PackedFrom (table : Table) (handle : KvIterContext) (start : ℕ)
    (s : IterScan) : Prop where
  start_le : start ≤ s.pos
  nrKeys_eq : s.nrKeys = (walked table handle start s.pos).picks.length
  bufOffset_eq : s.bufOffset = 4 + 20 * s.nrKeys
  bytes_eq : readBytes s.buf 4 (20 * s.nrKeys) =
    (walked table handle start s.pos).picks.flatMap fun slot =>
      iterRecord (entryBytes (table slot) iterKeyLen)

theorem packedFrom_start (table : Table) (handle : KvIterContext)
    (buf : ℕ → UInt8) (start : ℕ) :
    PackedFrom table handle start
      { pos := start, buf := buf, bufOffset := 4, nrKeys := 0 } := by
  have hnone : (walked table handle start start).picks = [] := by
    rw [Segment.picks, walked]
    dsimp only
    rw [Nat.sub_self]
    rfl
  constructor
  · exact le_refl start
  · rw [hnone]
    rfl
  · rfl
  · rw [hnone]
    rfl

/-- A slot without a key to return. -/
theorem PackedFrom.pass (h : PackedFrom table handle start s)
    (hfound : ¬ iterMatches handle.keyPrefix handle.bitmask (table s.pos)) :
    PackedFrom table handle start { s with pos := s.pos + 1 } := by
  have hpicks : (walked table handle start (s.pos + 1)).picks =
      (walked table handle start s.pos).picks := by
    rw [walked, picks_succ h.start_le, if_neg hfound, List.append_nil]
    rfl
  constructor
  · exact Nat.le_succ_of_le h.start_le
  · rw [hpicks]
    exact h.nrKeys_eq
  · exact h.bufOffset_eq
  · rw [hpicks]
    exact h.bytes_eq

/-- The key that is packed stands after those that were. -/
theorem readBytes_packKey (s : IterScan) (entry : MappingEntry) {size : ℕ}
    (hoffset : s.bufOffset = 4 + size) :
    readBytes (packKey s entry).buf 4 (size + 20) =
      readBytes s.buf 4 size ++ iterRecord (entryBytes entry iterKeyLen) := by
  have hlen : (littleEndian 4 iterKeyLen).length = 4 := length_littleEndian _ _
  have hkey := length_entryBytes entry iterKeyLen
  have hbefore : readBytes (packKey s entry).buf 4 size = readBytes s.buf 4 size := by
    rw [packKey]
    dsimp only
    rw [readBytes_writeBytes_of_apart (.inr (by omega)),
      readBytes_writeBytes_of_apart (.inr (by omega))]
  have hlength : readBytes (packKey s entry).buf (4 + size) 4 =
      littleEndian 4 iterKeyLen := by
    rw [packKey]
    dsimp only
    rw [readBytes_writeBytes_of_apart (.inr (by omega)), ← hoffset]
    conv_lhs => rw [← hlen]
    rw [hlen]
    exact readBytes_writeBytes_self s.buf s.bufOffset (littleEndian 4 iterKeyLen)
  have hbytes : readBytes (packKey s entry).buf (4 + size + 4) 16 =
      entryBytes entry iterKeyLen := by
    rw [packKey]
    dsimp only
    rw [hoffset]
    have hself := readBytes_writeBytes_self
      (writeBytes s.buf (4 + size) (littleEndian 4 iterKeyLen)) (4 + size + 4)
      (entryBytes entry iterKeyLen)
    rwa [hkey] at hself
  calc readBytes (packKey s entry).buf 4 (size + 20)
      = readBytes (packKey s entry).buf 4 size ++
          (readBytes (packKey s entry).buf (4 + size) 4 ++
            readBytes (packKey s entry).buf (4 + size + 4) 16) := by
        rw [readBytes_add, ← readBytes_add _ (4 + size) 4 16]
    _ = readBytes s.buf 4 size ++ iterRecord (entryBytes entry iterKeyLen) := by
        rw [hbefore, hlength, hbytes]
        rfl

/-- A slot whose key is packed. -/
theorem PackedFrom.pack (h : PackedFrom table handle start s)
    (hfound : iterMatches handle.keyPrefix handle.bitmask (table s.pos)) :
    PackedFrom table handle start
      { packKey s (table s.pos) with pos := s.pos + 1 } := by
  have hpicks : (walked table handle start (s.pos + 1)).picks =
      (walked table handle start s.pos).picks ++ [s.pos] := by
    rw [walked, picks_succ h.start_le, if_pos hfound]
    rfl
  constructor
  · exact Nat.le_succ_of_le h.start_le
  · rw [hpicks, List.length_append, ← h.nrKeys_eq]
    rfl
  · show s.bufOffset + 4 + iterKeyLen = 4 + 20 * (s.nrKeys + 1)
    rw [h.bufOffset_eq, iterKeyLen]
    omega
  · show readBytes (packKey s (table s.pos)).buf 4 (20 * (s.nrKeys + 1)) = _
    rw [hpicks, List.flatMap_append, ← h.bytes_eq, Nat.mul_succ,
      readBytes_packKey s _ h.bufOffset_eq]
    rw [List.flatMap_cons, List.flatMap_nil, List.append_nil]

/-- How the loop stops: behind the last slot, or at one whose key no longer
fits. -/
structure Scanned (cfg : KvConfig) (table : Table) (handle : KvIterContext)
    (start : ℕ) (result : IterScan × Bool) : Prop where
  packed : PackedFrom table handle start result.1
  bufOffset_le : result.1.bufOffset ≤ iterBufferSize
  at_end : result.2 = true → result.1.pos = cfg.hashSlots
  full : result.2 = false → result.1.pos < cfg.hashSlots ∧
    iterBufferSize < result.1.bufOffset + 4 + iterKeyLen

/-- A round that does not stop at a full buffer walks over its slot. -/
theorem PackedFrom.walk (h : PackedFrom table handle start s)
    (hsize : s.bufOffset ≤ iterBufferSize) {found : Bool}
    (hfound : iterMatches handle.keyPrefix handle.bitmask (table s.pos) = found)
    (hroom : ¬ (found ∧ iterBufferSize < s.bufOffset + 4 + iterKeyLen)) :
    PackedFrom table handle start
        { (if found then packKey s (table s.pos) else s) with pos := s.pos + 1 } ∧
      (if found then packKey s (table s.pos) else s).bufOffset ≤
        iterBufferSize := by
  cases found with
  | true => exact ⟨h.pack hfound, not_lt.mp fun hfull => hroom ⟨rfl, hfull⟩⟩
  | false =>
      rw [if_neg Bool.false_ne_true]
      exact ⟨h.pass (ne_true_of_eq_false hfound), hsize⟩

theorem iterLoop_scanned {left : ℕ} (hleft : s.pos + left = cfg.hashSlots)
    (hpos : s.pos < cfg.hashSlots) (hpacked : PackedFrom table handle start s)
    (hsize : s.bufOffset ≤ iterBufferSize) :
    Scanned cfg table handle start (iterLoop cfg table handle left s) := by
  induction left generalizing s with
  | zero => exact absurd hleft (Nat.ne_of_lt hpos)
  | succ left ih =>
      rw [iterLoop]
      generalize hfound :
        iterMatches handle.keyPrefix handle.bitmask (table s.pos) = found
      dsimp only
      by_cases hfull : found ∧ iterBufferSize < s.bufOffset + 4 + iterKeyLen
      · rw [if_pos hfull]
        exact ⟨hpacked, hsize, fun h => absurd h Bool.false_ne_true,
          fun _ => ⟨hpos, hfull.2⟩⟩
      · rw [if_neg hfull]
        have hkept : (if found then packKey s (table s.pos) else s).pos = s.pos := by
          cases found <;> rfl
        obtain ⟨hnext, hnextSize⟩ := hpacked.walk hsize hfound hfull
        rw [hkept]
        by_cases hend : s.pos + 1 = cfg.hashSlots
        · rw [if_pos hend]
          exact ⟨hnext, hnextSize, fun _ => hend,
            fun h => absurd h.symm Bool.false_ne_true⟩
        · rw [if_neg hend]
          apply ih _ _ hnext hnextSize
          · show s.pos + 1 + left = cfg.hashSlots
            rw [← hleft, Nat.add_right_comm]
            rfl
          · exact lt_of_le_of_ne hpos hend

theorem iterScan_scanned (hpos : handle.currentPos < cfg.hashSlots) :
    Scanned cfg table handle handle.currentPos (iterScan cfg table handle) := by
  apply iterLoop_scanned
  · exact Nat.add_sub_cancel' hpos.le
  · exact hpos
  · exact packedFrom_start table handle handle.buf handle.currentPos
  · show 4 ≤ iterBufferSize
    rw [iterBufferSize]
    omega

/-- A full buffer holds a key, so that the loop has moved on. -/
theorem Scanned.moves {result : IterScan × Bool}
    (h : Scanned cfg table handle start result) (hend : result.2 = false) :
    start < result.1.pos := by
  obtain ⟨-, hfull⟩ := h.full hend
  rw [h.packed.bufOffset_eq, h.packed.nrKeys_eq, iterBufferSize,
    iterKeyLen] at hfull
  have hkey : (walked table handle start result.1.pos).picks ≠ [] := by
    intro hnone
    rw [hnone, List.length_nil] at hfull
    omega
  obtain ⟨slot, hslot⟩ := List.exists_mem_of_ne_nil _ hkey
  have hbounds := (Segment.mem_picks.mp hslot).1
  exact lt_of_le_of_lt hbounds.1 hbounds.2

/-- The bytes that a read copies out of its buffer. -/
theorem PackedFrom.page (h : PackedFrom table handle start s) :
    readBytes (writeBytes s.buf 0 (littleEndian 4 s.nrKeys)) 0 s.bufOffset =
      iterPage ((walked table handle start s.pos).picks.map fun slot =>
        entryBytes (table slot) iterKeyLen) := by
  have hlen : (littleEndian 4 s.nrKeys).length = 4 := length_littleEndian _ _
  have hcount := readBytes_writeBytes_self s.buf 0 (littleEndian 4 s.nrKeys)
  rw [hlen] at hcount
  rw [iterPage, h.bufOffset_eq, readBytes_add, hcount,
    readBytes_writeBytes_of_apart (.inl (by omega)), Nat.zero_add, h.bytes_eq,
    List.length_map, h.nrKeys_eq, List.flatMap_map]

/-! ## A read -/

/-- The iterator of the open, with its saved position. -/
def HandleAt (opened : KvIterCommand) (iter pos : ℕ) (s : KvIterFtl) : Prop :=
  iter < 17 ∧ ∃ buf, s.iterHandle iter = some
    { keyPrefix := opened.iterVal, bitmask := opened.iterBitmask
      currentPos := pos, buf := buf }

theorem HandleAt.posOf_eq {opened : KvIterCommand} {iter pos : ℕ}
    {s : KvIterFtl} (h : HandleAt opened iter pos s) : posOf s iter = pos := by
  obtain ⟨-, buf, hhandle⟩ := h
  rw [posOf, hhandle]
  rfl

theorem posOf_update (s : KvIterFtl) (iter : ℕ) (handle : KvIterContext) :
    posOf { s with
      iterHandle := Function.update s.iterHandle iter (some handle) } iter =
      handle.currentPos := by
  rw [posOf]
  dsimp only
  rw [Function.update_self]
  rfl

/-- What holds of a read: its page, and where it leaves the iterator. -/
structure IterRead.Steps (cfg : KvConfig) (opened : KvIterCommand) (iter : ℕ)
    (read : IterRead) : Prop where
  fills : read.FillsPage opened iter
  le : posOf read.before iter ≤ posOf read.after iter
  at_end : read.Ends → posOf read.after iter = cfg.hashSlots
  moves : ¬ read.Ends → posOf read.before iter < posOf read.after iter ∧
    posOf read.after iter < cfg.hashSlots
  handle : HandleAt opened iter (posOf read.after iter) read.after

section

variable {opened cmd : KvIterCommand} {pos : ℕ} {before after : KvIterFtl}
  {outcome : KvOutcome}

theorem kvIterRead_eq {handle : KvIterContext} {scan : IterScan} {atEnd : Bool}
    (hlt : cmd.iterHandle < 17)
    (hhandle : before.iterHandle cmd.iterHandle = some handle)
    (hscan : iterScan cfg before.ftl.table handle = (scan, atEnd)) :
    kvIterRead cfg before cmd = .ok
      ({ result := scan.bufOffset
         status := some (if atEnd then iterEnd else 0)
         data := readBytes
           (writeBytes scan.buf 0 (littleEndian 4 scan.nrKeys)) 0
           scan.bufOffset },
        { before with
          iterHandle := Function.update before.iterHandle cmd.iterHandle
            (some { handle with
              currentPos := scan.pos
              buf := writeBytes scan.buf 0 (littleEndian 4 scan.nrKeys) }) }) := by
  rw [kvIterRead, if_neg (Nat.not_le.mpr hlt), hhandle]
  dsimp only
  rw [hscan]

/-- The page of a read that walked through the slots of its segment. -/
theorem fillsPage_of_packed {iter : ℕ} {read : IterRead}
    (hsegment : read.segment opened iter =
      walked read.before.ftl.table handle start s.pos)
    (hpacked : PackedFrom read.before.ftl.table handle start s)
    (hsize : s.bufOffset ≤ iterBufferSize)
    (hresult : read.outcome.result = s.bufOffset)
    (hdata : read.outcome.data = readBytes
      (writeBytes s.buf 0 (littleEndian 4 s.nrKeys)) 0 s.bufOffset) :
    read.FillsPage opened iter := by
  have hkeys : (read.packed opened iter).map Prod.snd =
      (walked read.before.ftl.table handle start s.pos).picks.map fun slot =>
        entryBytes (read.before.ftl.table slot) iterKeyLen := by
    rw [IterRead.packed, hsegment, List.map_map]
    rfl
  have hcount : (read.packed opened iter).length = s.nrKeys := by
    rw [IterRead.packed, List.length_map, hsegment, hpacked.nrKeys_eq]
  have hpage := hdata.trans hpacked.page
  have hlength : read.outcome.data.length = s.bufOffset := by
    rw [hdata, length_readBytes]
  constructor
  · rw [hkeys, hpage]
  · rw [hresult, hlength]
  · rw [hlength]
    exact hsize
  · have hlt : s.nrKeys < 256 ^ 4 := by
      rw [hpacked.bufOffset_eq, iterBufferSize] at hsize
      omega
    rw [hpage, ← hkeys, iterPage, List.take_left' (length_littleEndian _ _),
      List.length_map, hcount, ofLittleEndian_littleEndian hlt]

/-- A read of an iterator whose position is in the table. -/
theorem kvIterRead_steps (h : HandleAt opened cmd.iterHandle pos before)
    (hpos : pos < cfg.hashSlots)
    (hread : kvIterRead cfg before cmd = .ok (outcome, after)) :
    IterRead.Steps cfg opened cmd.iterHandle
      { before := before, outcome := outcome, after := after } := by
  have hbefore := h.posOf_eq
  obtain ⟨hlt, buf, hhandle⟩ := h
  generalize hopened : ({ keyPrefix := opened.iterVal
                          bitmask := opened.iterBitmask
                          currentPos := pos, buf := buf } : KvIterContext) =
    handle at hhandle
  generalize hscan : iterScan cfg before.ftl.table handle = result
  obtain ⟨scan, atEnd⟩ := result
  have hscanned : Scanned cfg before.ftl.table handle pos (scan, atEnd) := by
    have hcurrent : handle.currentPos = pos := hopened ▸ rfl
    rw [← hscan, ← hcurrent]
    exact iterScan_scanned (hcurrent ▸ hpos)
  cases (kvIterRead_eq hlt hhandle hscan).symm.trans hread
  constructor
  · apply fillsPage_of_packed _ hscanned.packed hscanned.bufOffset_le rfl rfl
    rw [IterRead.segment, posOf_update, hbefore, ← hopened]
    rfl
  · rw [posOf_update, hbefore]
    exact hscanned.packed.start_le
  · intro hends
    rw [posOf_update]
    cases atEnd with
    | true => exact hscanned.at_end rfl
    | false => cases hends
  · intro hends
    rw [posOf_update, hbefore]
    cases atEnd with
    | true => exact absurd rfl hends
    | false => exact ⟨hscanned.moves rfl, (hscanned.full rfl).1⟩
  · rw [posOf_update]
    refine ⟨hlt, writeBytes scan.buf 0 (littleEndian 4 scan.nrKeys), ?_⟩
    rw [← hopened]
    exact Function.update_self _ _ _

end

/-! ## A run -/

section

variable {opened read : KvIterCommand} {iter pos : ℕ} {s s' : KvIterFtl}
  {action : IterAction} {rounds : List (List IterAction)}
  {reads : List IterRead}

theorem HandleAt.of_eq (h : HandleAt opened iter pos s)
    (heq : s'.iterHandle iter = s.iterHandle iter) :
    HandleAt opened iter pos s' := by
  obtain ⟨hlt, buf, hhandle⟩ := h
  exact ⟨hlt, buf, heq.trans hhandle⟩

/-- An open takes a handle that was not in use. -/
theorem kvIterOpen_keeps {handle : KvIterContext} (cmd : KvIterCommand)
    (hhandle : s.iterHandle iter = some handle) :
    (kvIterOpen s cmd).2.iterHandle iter = s.iterHandle iter := by
  rw [kvIterOpen]
  generalize hfree : (List.range' 1 16).find?
    (fun iter => (s.iterHandle iter).isNone) = free
  cases free with
  | none => rfl
  | some other =>
      have hnone := List.find?_some hfree
      apply Function.update_of_ne
      rintro rfl
      rw [hhandle] at hnone
      cases hnone

/-- A close or a read changes the handle that it names only. -/
theorem kvIterClose_keeps {cmd : KvIterCommand} {outcome : KvOutcome}
    (hother : cmd.iterHandle ≠ iter)
    (h : kvIterClose s cmd = .ok (outcome, s')) :
    s'.iterHandle iter = s.iterHandle iter := by
  rw [kvIterClose] at h
  split_ifs at h
  cases h
  exact Function.update_of_ne hother.symm _ _

theorem kvIterRead_keeps {cmd : KvIterCommand} {outcome : KvOutcome}
    (hother : cmd.iterHandle ≠ iter)
    (h : kvIterRead cfg s cmd = .ok (outcome, s')) :
    s'.iterHandle iter = s.iterHandle iter := by
  rw [kvIterRead] at h
  split_ifs at h
  cases hhandle : s.iterHandle cmd.iterHandle with
  | none =>
      rw [hhandle] at h
      cases h
      rfl
  | some handle =>
      rw [hhandle] at h
      cases h
      exact Function.update_of_ne hother.symm _ _

/-- A command that is none of the iterator's own keeps it. -/
theorem HandleAt.step (h : HandleAt opened iter pos s)
    (hleaves : action.Leaves iter)
    (hstep : iterStep cfg search s action = .ok s') :
    HandleAt opened iter pos s' := by
  apply h.of_eq
  cases action with
  | kv action =>
      obtain ⟨ftl, -, hdone⟩ := bind_eq_ok hstep
      cases hdone
      rfl
  | iter cmd =>
      obtain ⟨⟨outcome, next⟩, hio, hdone⟩ := bind_eq_ok hstep
      cases hdone
      rw [doPerformKvIterIo] at hio
      cases hopcode : cmd.opcode with
      | iterReq =>
          rw [hopcode] at hio
          dsimp only at hio
          split_ifs at hio with hopen hclose
          · obtain ⟨-, buf, hhandle⟩ := h
            have hopened : (kvIterOpen s cmd).2 = s' :=
              congrArg Prod.snd (Except.ok.inj hio)
            rw [← hopened]
            exact kvIterOpen_keeps cmd hhandle
          · exact kvIterClose_keeps
              (hleaves.resolve_left fun hleft => hopen hleft.2) hio
          · cases hio
            rfl
      | iterRead =>
          rw [hopcode] at hio
          apply kvIterRead_keeps (hleaves.resolve_left _) hio
          rw [hopcode]
          exact fun hleft => absurd hleft.1 KvIterOpcode.noConfusion

theorem HandleAt.steps {actions : List IterAction}
    (h : HandleAt opened iter pos s)
    (hleaves : ∀ action ∈ actions, action.Leaves iter)
    (hsteps : actions.foldlM (iterStep cfg search) s = .ok s') :
    HandleAt opened iter pos s' := by
  induction actions generalizing s with
  | nil =>
      cases hsteps
      exact h
  | cons action rest ih =>
      rw [List.foldlM_cons] at hsteps
      obtain ⟨next, hstep, hrest⟩ := bind_eq_ok hsteps
      exact ih (h.step (hleaves action List.mem_cons_self) hstep)
        (fun other hother => hleaves other (List.mem_cons_of_mem _ hother)) hrest

/-- The reads of a run take steps, one from where the other stopped. -/
theorem iterReads_steps (h : HandleAt opened read.iterHandle pos s)
    (hpos : pos < cfg.hashSlots)
    (hleaves : ∀ actions ∈ rounds, ∀ action ∈ actions,
      action.Leaves read.iterHandle)
    (hrun : iterReads cfg search read s rounds = .ok reads)
    (hends : ∀ taken ∈ reads.dropLast, ¬ taken.Ends) :
    (∀ taken ∈ reads, taken.Steps cfg opened read.iterHandle) ∧
      Adjoining pos
        (reads.map (IterRead.segment opened read.iterHandle)) := by
  induction rounds generalizing s pos reads with
  | nil =>
      cases hrun
      exact ⟨fun taken htaken => absurd htaken List.not_mem_nil, trivial⟩
  | cons actions rounds ih =>
      rw [iterReads] at hrun
      obtain ⟨before, hbefore, hrun⟩ := bind_eq_ok hrun
      obtain ⟨⟨outcome, after⟩, hread, hrun⟩ := bind_eq_ok hrun
      obtain ⟨later, hlater, hdone⟩ := bind_eq_ok hrun
      cases hdone
      have hhandle := h.steps (hleaves actions List.mem_cons_self) hbefore
      have hsteps := kvIterRead_steps hhandle hpos hread
      cases later with
      | nil =>
          refine ⟨?_, hhandle.posOf_eq, hhandle.posOf_eq ▸ hsteps.le, trivial⟩
          intro taken htaken
          rwa [List.mem_singleton.mp htaken]
      | cons next rest =>
          rw [List.dropLast_cons_cons, List.forall_mem_cons] at hends
          obtain ⟨hgoes, hends⟩ := hends
          obtain ⟨hall, hadjoining⟩ := ih hsteps.handle (hsteps.moves hgoes).2
            (fun actions hactions =>
              hleaves actions (List.mem_cons_of_mem _ hactions))
            hlater hends
          exact ⟨List.forall_mem_cons.mpr ⟨hsteps, hall⟩, hhandle.posOf_eq,
            hhandle.posOf_eq ▸ hsteps.le, hadjoining⟩

/-! ## What the reads return -/

/-- An open that succeeds leaves its iterator at the first slot. -/
theorem handleAt_of_open {outcome : KvOutcome}
    (hopen : kvIterOpen s opened = (outcome, s'))
    (hstatus : outcome.status = some 0) :
    HandleAt opened outcome.result 0 s' := by
  rw [kvIterOpen] at hopen
  generalize hfree : (List.range' 1 16).find?
    (fun iter => (s.iterHandle iter).isNone) = free at hopen
  cases free with
  | none =>
      cases hopen
      cases hstatus
  | some iter =>
      cases hopen
      have hlt := List.mem_range'_1.mp (List.mem_of_find?_eq_some hfree)
      exact ⟨hlt.2, opened.buf, Function.update_self _ _ _⟩

theorem map_fst_packed (taken : IterRead) :
    (taken.packed opened iter).map Prod.fst =
      (taken.segment opened iter).picks := by
  rw [IterRead.packed, List.map_map]
  exact List.map_id _

theorem map_fst_returned (reads : List IterRead) :
    (returned opened iter reads).map Prod.fst =
      (reads.map (IterRead.segment opened iter)).flatMap Segment.picks := by
  rw [returned, List.map_flatMap, List.flatMap_map]
  apply List.flatMap_congr
  intro taken _
  exact map_fst_packed taken

/-- What is returned was listed at the time of its read. -/
theorem lists_of_mem_returned {slot : ℕ} {key : List UInt8}
    (h : (slot, key) ∈ returned opened iter reads) :
    ∃ taken ∈ reads, taken.Lists opened slot key ∧
      slot < posOf taken.after iter := by
  obtain ⟨taken, htaken, hpacked⟩ := List.mem_flatMap.mp h
  obtain ⟨_, hslot, heq⟩ := List.mem_map.mp hpacked
  cases heq
  obtain ⟨hbounds, hkeeps⟩ := Segment.mem_picks.mp hslot
  exact ⟨taken, htaken, ⟨hkeeps, rfl⟩, hbounds.2⟩

/-- A key that stays in its slot for all reads is returned. -/
theorem mem_returned {slot : ℕ} {key : List UInt8}
    (hadjoining : Adjoining pos (reads.map (IterRead.segment opened iter)))
    (hpos : pos ≤ slot)
    (hstop : slot < stopOf pos (reads.map (IterRead.segment opened iter)))
    (hlists : ∀ taken ∈ reads, taken.Lists opened slot key) :
    (slot, key) ∈ returned opened iter reads := by
  have hpicked : slot ∈ (returned opened iter reads).map Prod.fst := by
    rw [map_fst_returned]
    apply hadjoining.mem_picks hpos hstop
    intro segment hsegment
    obtain ⟨taken, htaken, rfl⟩ := List.mem_map.mp hsegment
    exact (hlists taken htaken).1
  obtain ⟨⟨_, other⟩, hmem, rfl⟩ := List.mem_map.mp hpicked
  obtain ⟨taken, htaken, hother, -⟩ := lists_of_mem_returned hmem
  have hsame : other = key := hother.2.symm.trans (hlists taken htaken).2
  rwa [← hsame]

theorem IterRead.Steps.after_le {taken : IterRead}
    (h : taken.Steps cfg opened iter) :
    posOf taken.after iter ≤ cfg.hashSlots := by
  by_cases hends : taken.Ends
  · exact (h.at_end hends).le
  · exact (h.moves hends).2.le

theorem stopOf_reads {last : IterRead} (hlast : reads.getLast? = some last) :
    stopOf pos (reads.map (IterRead.segment opened iter)) =
      posOf last.after iter := by
  have hmap : (reads.map (IterRead.segment opened iter)).getLast? =
      some (last.segment opened iter) := by
    rw [List.getLast?_map, hlast]
    rfl
  exact stopOf_of_getLast? hmap

/-- The slots of what is returned only go up. -/
theorem returned_pairwise
    (hadjoining : Adjoining pos (reads.map (IterRead.segment opened iter))) :
    ((returned opened iter reads).map Prod.fst).Pairwise (· < ·) := by
  rw [map_fst_returned]
  exact hadjoining.pairwise

/-- When the last read reports the end, a key that stays in its slot for all
reads is what is returned of the slot. -/
theorem returned_of_slot {slot : ℕ} {key : List UInt8} {last : IterRead}
    (hsteps : ∀ taken ∈ reads, taken.Steps cfg opened iter)
    (hadjoining : Adjoining 0 (reads.map (IterRead.segment opened iter)))
    (hlast : reads.getLast? = some last) (hend : last.Ends)
    (hslot : slot < cfg.hashSlots)
    (hlists : ∀ taken ∈ reads, taken.Lists opened slot key) :
    (returned opened iter reads).filter (fun pair => pair.1 = slot) =
      [(slot, key)] := by
  apply filter_fst_eq (returned_pairwise hadjoining)
  apply mem_returned hadjoining (Nat.zero_le slot) _ hlists
  rwa [stopOf_reads hlast,
    (hsteps last (List.mem_of_getLast? hlast)).at_end hend]

theorem readsReturn_of_steps
    (hsteps : ∀ taken ∈ reads, taken.Steps cfg opened iter)
    (hadjoining : Adjoining 0 (reads.map (IterRead.segment opened iter)))
    (hends : ∀ taken ∈ reads.dropLast, ¬ taken.Ends) :
    ReadsReturn cfg opened iter reads := by
  refine ⟨fun taken htaken => (hsteps taken htaken).fills, ?_, ?_,
    returned_pairwise hadjoining, ?_, ?_⟩
  · intro taken htaken
    have hmem := List.mem_of_mem_dropLast htaken
    exact ((hsteps taken hmem).moves (hends taken htaken)).1
  · intro hnone
    cases hlast : reads.getLast? with
    | none =>
        rw [List.getLast?_eq_none_iff.mp hlast]
        exact cfg.hashSlots_pos
    | some last =>
        have hmem := List.mem_of_getLast? hlast
        have hlength := hadjoining.length_le (by
          intro segment hsegment
          obtain ⟨taken, htaken, rfl⟩ := List.mem_map.mp hsegment
          exact ((hsteps taken htaken).moves (hnone taken htaken)).1)
        rw [stopOf_reads hlast, List.length_map, Nat.zero_add] at hlength
        exact lt_of_le_of_lt hlength
          ((hsteps last hmem).moves (hnone last hmem)).2
  · exact fun _ hlast hend _ _ hslot hlists =>
      returned_of_slot hsteps hadjoining hlast hend hslot hlists
  · intro last hlast hend slot key hslot hlists hunique
    rw [← returned_of_slot hsteps hadjoining hlast hend hslot hlists]
    apply List.filter_congr
    rintro ⟨other, found⟩ hmem
    obtain ⟨taken, htaken, hother, hlt⟩ := lists_of_mem_returned hmem
    apply decide_eq_decide.mpr
    constructor
    · rintro rfl
      exact hunique taken htaken other
        (lt_of_lt_of_le hlt (hsteps taken htaken).after_le) hother
    · rintro rfl
      exact hother.2.symm.trans (hlists taken htaken).2

/-- From an open up to the first read that reports the end, whatever other
commands come between the reads, the keys that stay in their slots are
returned once, in the order of the slots. -/
theorem reads_return {outcome : KvOutcome}
    (hopen : kvIterOpen s opened = (outcome, s'))
    (hstatus : outcome.status = some 0)
    (hread : read.iterHandle = outcome.result)
    (hleaves : ∀ actions ∈ rounds, ∀ action ∈ actions,
      action.Leaves outcome.result)
    (hrun : iterReads cfg search read s' rounds = .ok reads)
    (hends : ∀ taken ∈ reads.dropLast, ¬ taken.Ends) :
    ReadsReturn cfg opened outcome.result reads := by
  have hhandle := handleAt_of_open hopen hstatus
  rw [← hread] at hhandle hleaves ⊢
  obtain ⟨hsteps, hadjoining⟩ :=
    iterReads_steps hhandle cfg.hashSlots_pos hleaves hrun hends
  exact readsReturn_of_steps hsteps hadjoining hends

end

theorem sixty_pos : 0 < 60 := by decide

theorem sixty_slots_lt : 60 < 2 ^ 31 := by decide

def sixtySlots : KvConfig :=
  ⟨60, 4096, sixty_pos, sixty_slots_lt, storage_lt⟩

theorem two_bytes_le (byte : UInt8) : [97, byte].length ≤ 16 :=
  Nat.le_add_left 2 14

/-- A namespace with keys in its first 55 slots, more than one read returns. -/
def manyKeys : KvIterFtl where
  ftl :=
    { table := fun slot =>
        if slot < 55 then
          fillEntry initEntry ⟨[97, slot.toUInt8], two_bytes_le _⟩ 4 (4 * slot)
        else initEntry
      allocator := .appendOnly (appendOnlyAllocatorInit 4096)
      storage := fun _ => 0, writes := [] }
  iterHandle _ := none

/-- The open of an iterator over the keys that start with the byte 97, and its
read. -/
def openCmd : KvIterCommand :=
  { opcode := .iterReq, iterHandle := 0, option := iterOptionOpen, iterVal := 97
    iterBitmask := 255, buf := fun _ => 0 }

def readCmd : KvIterCommand :=
  { opcode := .iterRead, iterHandle := 1, option := 0, iterVal := 0
    iterBitmask := 0, buf := fun _ => 0 }

/-- A delete of another key. -/
def deleteOther : IterAction := .kv (.single
  { opcode := .delete, key := oneByte 98, valueLen := 0, value := fun _ => 0 })

/-- Two reads, with a command between them, return all keys. -/
theorem reads_return_manyKeys : ∃ reads,
    iterReads sixtySlots firstZero readCmd (kvIterOpen manyKeys openCmd).2
      [[], [deleteOther]] = .ok reads ∧
    ReadsReturn sixtySlots openCmd 1 reads ∧
    reads.map (posOf ·.after 1) = [51, 60] ∧
    (returned openCmd 1 reads).map Prod.fst = List.range 55 := by
  have hleaves : ∀ actions ∈ [[], [deleteOther]], ∀ action ∈ actions,
      action.Leaves 1 := by
    intro actions hactions action haction
    simp only [List.mem_cons, List.not_mem_nil, or_false] at hactions
    obtain rfl | rfl := hactions
    · cases haction
    · rw [List.mem_singleton.mp haction]
      trivial
  have hopen : kvIterOpen manyKeys openCmd =
      ({ result := 1, status := some 0, data := [] },
        (kvIterOpen manyKeys openCmd).2) := rfl
  have hvalues : (iterReads sixtySlots firstZero readCmd
      (kvIterOpen manyKeys openCmd).2 [[], [deleteOther]]).toOption.map
        (fun reads => (reads.map (·.outcome.status),
          reads.map (posOf ·.after 1),
          (returned openCmd 1 reads).map Prod.fst)) =
      some ([some 0, some iterEnd], [51, 60], List.range 55) := by
    decide +kernel
  cases hrun : iterReads sixtySlots firstZero readCmd
      (kvIterOpen manyKeys openCmd).2 [[], [deleteOther]] with
  | error fault =>
      rw [hrun] at hvalues
      cases hvalues
  | ok reads =>
      rw [hrun] at hvalues
      obtain ⟨hstatus, hpositions, hreturned⟩ : _ ∧ _ ∧ _ := by
        simpa only [Except.toOption, Option.map_some, Option.some.injEq,
          Prod.mk.injEq] using hvalues
      refine ⟨reads, rfl, reads_return hopen rfl rfl hleaves hrun ?_,
        hpositions, hreturned⟩
      intro taken htaken hends
      have hbefore : reads.dropLast.map (·.outcome.status) = [some 0] := by
        rw [List.map_dropLast, hstatus]
        rfl
      have hmem : taken.outcome.status ∈ [some 0] := by
        rw [← hbefore]
        exact List.mem_map.mpr ⟨taken, htaken, rfl⟩
      rw [hends] at hmem
      cases List.mem_singleton.mp hmem

end NvmeVirt.KvIterators
