import NvmeVirt.Core.Replies
import NvmeVirt.Kv.ReadBack

/-!
# The store as a finite map

Clients see a map from keys to values: a store sets the value of its key, a
retrieve returns it, a delete removes it.  The driver replies like the map as
long as updates stay in the bytes and keep the length of their entries,
insertions find room and a free slot, and neither insertions nor deletions come
between a lookup and its entry.
-/

namespace NvmeVirt.KvFiniteMap

open NvmeVirt.ByteMap
open NvmeVirt.Kernel
open NvmeVirt.KvAllocators
open NvmeVirt.KvChains
open NvmeVirt.KvCommands
open NvmeVirt.KvExtents
open NvmeVirt.KvLookup
open NvmeVirt.KvMapping
open NvmeVirt.KvReadBack
open NvmeVirt.KvStores
open NvmeVirt.KvTableChanges
open NvmeVirt.Replies
open NvmeVirt.Transition
open NvmeVirt.Walk

/-! ## The map -/

/-- The value of each key. -/
abbrev KvMap := Key → Option (List UInt8)

/-- A retrieve with a buffer of `valueLen` words. -/
def KvMap.retrieve (m : KvMap) (key : Key) (valueLen : ℕ) : KvOutcome :=
  match m key with
  | none => .missing
  | some bytes =>
      let length := min bytes.length (u32 (valueLen * 4))
      { result := length, status := none, data := bytes.take length }

/-- What the map does for a command. -/
def mapStep (m : KvMap) : KvAction → KvOutcome × KvMap
  | .single cmd =>
      match cmd.opcode with
      | .store => (.silent, Function.update m cmd.key (some (storedBytes cmd)))
      | .append => (.silent, m)
      | .retrieve => (m.retrieve cmd.key cmd.valueLen, m)
      | .exist => (if m cmd.key = none then .missing else .silent, m)
      | .delete =>
          if m cmd.key = none then (.missing, m)
          else (.silent, Function.update m cmd.key none)
  | .sub cmd =>
      if cmd.opcode = kvStoreOpcode then
        (.silent, Function.update m cmd.key (some cmd.value))
      else (.silent, m)

/-- The map before the first command. -/
def emptyMap : KvMap := fun _ => none

/-! ## The driver -/

def keyOf : KvAction → Key
  | .single cmd => cmd.key
  | .sub cmd => cmd.key

/-- Single commands resize entries, sub-commands do not. -/
def Resizes : KvAction → Prop
  | .single _ => True
  | .sub _ => False

def Deletes : KvAction → Prop
  | .single cmd => cmd.opcode = .delete
  | .sub _ => False

section

variable (cfg : KvConfig) (search : ZeroAreaSearch)

/-- A command, with its outcome; a sub-command reports nothing. -/
def kvServe (s : KvFtl) : KvAction → Except Fault (KvOutcome × KvFtl)
  | .single cmd => doPerformKvIo cfg search s cmd
  | .sub cmd => do
      let s ← doPerformKvBatchedIo cfg search s cmd
      return (.silent, s)

/-- The same, with the bytes that are set aside. -/
def runServe (r : KvRun) (action : KvAction) :
    Except Fault (KvOutcome × KvRun) := do
  let (outcome, ftl) ← kvServe cfg search r.ftl action
  match action.stored? with
  | none => return (outcome, { r with ftl := ftl })
  | some (_, bytes) =>
      return (outcome,
        { ftl := ftl, reserved := reservedAfter r bytes.length })

end

/-- An update of the entry in `slot` stays in the bytes that were set aside and
keeps the length of the entry, or may set it; no other key is found there. -/
structure UpdateServes (cfg : KvConfig) (keys : Set Key) (r : KvRun)
    (action : KvAction) (length slot : ℕ) : Prop where
  length_le : length ≤ r.reserved slot
  kept : length = (r.ftl.table slot).length ∨ Resizes action ∧
    length ≤ smallLength ∧ (r.ftl.table slot).length ≤ smallLength
  own : ∀ other ∈ keys, other ≠ keyOf action →
    ¬ FoundAt cfg r.ftl.table other slot

/-- An insertion finds room and an empty slot, cuts no lookup off, and no other
key comes to the new entry and matches it. -/
structure InsertServes (cfg : KvConfig) (keys : Set Key) (r : KvRun)
    (key : Key) (length : ℕ) : Prop where
  pos : 0 < length
  room : r.ftl.allocator.HasRoom length
  length_le : length ≤ r.ftl.allocator.granted length
  free : HasFree cfg r.ftl.table
  uncut : ∀ other ∈ keys, ∀ offset length,
    Found cfg r.ftl.table other offset length →
    ¬ GoesOn cfg r.ftl.table other (getHashSlot cfg key)
  own : ∀ other ∈ keys, other ≠ key → ∀ slot,
    NewSlot cfg r.ftl.table key slot →
    keyMatches { r.ftl.table slot with
      key := copyKey (r.ftl.table slot).key key } other →
    ¬ Visits cfg r.ftl.table other slot ∧
      ¬ GoesOn cfg r.ftl.table other (getHashSlot cfg key)

/-- The condition on a command of a run that uses the keys in `keys`. -/
structure Serves (cfg : KvConfig) (keys : Set Key) (r : KvRun)
    (action : KvAction) : Prop where
  key_mem : keyOf action ∈ keys
  update : ∀ bytes, action.stored? = some (keyOf action, bytes) →
    ∀ slot, findSlot cfg r.ftl.table (keyOf action) = .ok (some slot) →
    UpdateServes cfg keys r action bytes.length slot
  insert : ∀ bytes, action.stored? = some (keyOf action, bytes) →
    findSlot cfg r.ftl.table (keyOf action) = .ok none →
    InsertServes cfg keys r (keyOf action) bytes.length
  delete : Deletes action →
    ∀ slot, findSlot cfg r.ftl.table (keyOf action) = .ok (some slot) →
    ∀ other ∈ keys, other ≠ keyOf action → ∀ offset length,
      Found cfg r.ftl.table other offset length →
      ¬ Visits cfg r.ftl.table other slot

/-- The lookup of the key ends with its value. -/
def Holds (cfg : KvConfig) (s : KvFtl) (key : Key) :
    Option (List UInt8) → Prop
  | none => findSlot cfg s.table key = .ok none
  | some bytes => ∃ slot offset,
      findSlot cfg s.table key = .ok (some slot) ∧
        (s.table slot).memOffset = some offset ∧
        (s.table slot).length = bytes.length ∧
        readBytes s.storage offset bytes.length = bytes

/-- The driver holds the map, as far as the keys are in `keys`. -/
structure Shows (cfg : KvConfig) (keys : Set Key) (r : KvRun) (m : KvMap) :
    Prop where
  extents : Extents cfg r
  holds : ∀ key ∈ keys, Holds cfg r.ftl key (m key)

variable {cfg : KvConfig} {search : ZeroAreaSearch} {keys : Set Key}
  {r : KvRun} {m : KvMap} {action : KvAction}

/-! ## Replies -/

theorem stored_key {key : Key} {bytes : List UInt8}
    (h : action.stored? = some (key, bytes)) : key = keyOf action := by
  cases action with
  | single cmd =>
      rw [KvAction.stored?] at h
      split_ifs at h
      cases h
      rfl
  | sub cmd =>
      rw [KvAction.stored?] at h
      split_ifs at h
      cases h
      rfl

/-- What is read of the start of an extent. -/
theorem readBytes_take (mem : ℕ → UInt8) (offset : ℕ) {size count : ℕ}
    (hle : count ≤ size) :
    readBytes mem offset count = (readBytes mem offset size).take count := by
  obtain ⟨more, rfl⟩ := Nat.exists_eq_add_of_le hle
  rw [readBytes_add, List.take_left']
  exact length_readBytes mem offset count

/-- A key that is kept holds what it held. -/
theorem Holds.kept {s s' : KvFtl} {key : Key} {value : Option (List UInt8)}
    (h : Holds cfg s key value) (hkept : Kept cfg s s' key) :
    Holds cfg s' key value := by
  cases value with
  | none => exact hkept.missing h
  | some bytes =>
      obtain ⟨slot, offset, hfind, hoffset, hlength, hread⟩ := h
      obtain ⟨hfind', hoffset', hlength', hbytes⟩ :=
        hkept.found slot offset hfind hoffset
      refine ⟨slot, offset, hfind', hoffset', hlength'.trans hlength, ?_⟩
      rw [hbytes _ hlength.ge, hread]

/-- The entry a command looks up. -/
theorem Holds.entry_eq {s : KvFtl} {key : Key} {value : Option (List UInt8)}
    (h : Holds cfg s key value) :
    ∃ entry, getMappingEntryByKey cfg s.table key = .ok entry ∧
      (entry.memOffset = none ↔ value = none) := by
  cases value with
  | none =>
      refine ⟨clearedEntry, getMappingEntryByKey_of_none h, ?_⟩
      rw [clearedEntry]
      exact iff_of_true rfl rfl
  | some bytes =>
      obtain ⟨slot, offset, hfind, hoffset, -⟩ := h
      refine ⟨_, getMappingEntryByKey_of_some hfind, ?_⟩
      dsimp only
      rw [hoffset]
      exact iff_of_false (Option.some_ne_none _) (Option.some_ne_none _)

/-- A retrieve command returns what the map holds. -/
theorem Holds.kvRetrieve_eq {s : KvFtl} {cmd : KvCommand}
    {entry : MappingEntry} (h : Holds cfg s cmd.key (m cmd.key))
    (hget : getMappingEntryByKey cfg s.table cmd.key = .ok entry) :
    kvRetrieve s cmd entry = m.retrieve cmd.key cmd.valueLen := by
  rw [KvMap.retrieve]
  cases hvalue : m cmd.key with
  | none =>
      rw [hvalue] at h
      rw [getMappingEntryByKey_of_none h] at hget
      cases hget
      rfl
  | some bytes =>
      rw [hvalue] at h
      obtain ⟨slot, offset, hfind, hoffset, hlength, hread⟩ := h
      rw [getMappingEntryByKey_of_some hfind] at hget
      cases hget
      rw [kvRetrieve]
      dsimp only
      rw [hoffset, hlength, cmdValueLength]
      dsimp only
      rw [readBytes_take _ _ (Nat.min_le_left bytes.length _), hread]

/-! ## Stores -/

theorem mapStep_stored {key : Key} {bytes : List UInt8}
    (hstored : action.stored? = some (key, bytes)) (m : KvMap) :
    mapStep m action = (.silent, Function.update m key (some bytes)) := by
  cases action with
  | single cmd =>
      rw [KvAction.stored?] at hstored
      split_ifs at hstored with hopcode
      cases hstored
      rw [mapStep, hopcode]
  | sub cmd =>
      rw [KvAction.stored?] at hstored
      split_ifs at hstored with hopcode
      cases hstored
      rw [mapStep, if_pos hopcode]

theorem kvServe_insert {s : KvFtl} {key : Key} {bytes : List UInt8}
    {offset : ℕ} {allocator : Allocator} {table : Table}
    (hstored : action.stored? = some (key, bytes))
    (hfind : findSlot cfg s.table key = .ok none)
    (halloc : allocateMemOffsetByLength search s.allocator bytes.length =
      .ok (offset, allocator))
    (hnew : newMappingEntryByKey cfg s.table key bytes.length offset =
      .ok table) :
    kvServe cfg search s action = .ok (.silent,
      { storeBytes { s with allocator := allocator } offset bytes with
        table := table }) := by
  have hinsert : insertValue cfg search s key bytes = .ok
      { storeBytes { s with allocator := allocator } offset bytes with
        table := table } := by
    rw [insertValue, halloc, ok_bind]
    dsimp only
    rw [hnew]
    rfl
  cases action with
  | single cmd =>
      rw [KvAction.stored?] at hstored
      split_ifs at hstored with hopcode
      cases hstored
      rw [kvServe, doPerformKvIo_insert hopcode hfind, hinsert]
      rfl
  | sub cmd =>
      rw [KvAction.stored?] at hstored
      split_ifs at hstored with hopcode
      cases hstored
      rw [kvServe, doPerformKvBatchedIo_insert hopcode hfind, hinsert]
      rfl

/-- An update sets the length of the entry when the entry has another one and
the length may be set. -/
theorem kvServe_update (search : ZeroAreaSearch) {s : KvFtl} {key : Key} {bytes : List UInt8}
    {slot offset : ℕ} (hstored : action.stored? = some (key, bytes))
    (hfind : findSlot cfg s.table key = .ok (some slot))
    (hoffset : (s.table slot).memOffset = some offset)
    (hkept : bytes.length = (s.table slot).length ∨ Resizes action ∧
      bytes.length ≤ smallLength ∧ (s.table slot).length ≤ smallLength) :
    ∃ table, (table = s.table ∨ table = resize s.table slot bytes.length) ∧
      (table slot).length = bytes.length ∧
      kvServe cfg search s action =
        .ok (.silent, { storeBytes s offset bytes with table := table }) := by
  cases action with
  | single cmd =>
      rw [KvAction.stored?] at hstored
      split_ifs at hstored with hopcode
      cases hstored
      rw [length_storedBytes] at hkept ⊢
      rw [kvServe, doPerformKvIo_update hopcode hfind hoffset]
      split_ifs with hresize
      · refine ⟨_, .inr rfl, ?_, rfl⟩
        rw [resize, Function.update_self]
      · refine ⟨_, .inl rfl, ?_, rfl⟩
        by_contra hne
        obtain hsame | ⟨-, hsmall⟩ := hkept
        · exact hne hsame.symm
        · exact hresize ⟨fun heq => hne heq.symm, hsmall⟩
  | sub cmd =>
      rw [KvAction.stored?] at hstored
      split_ifs at hstored with hopcode
      cases hstored
      obtain hsame | ⟨hresizes, -⟩ := hkept
      · refine ⟨_, .inl rfl, hsame.symm, ?_⟩
        rw [kvServe, doPerformKvBatchedIo_update hopcode hfind hoffset]
        rfl
      · exact absurd hresizes not_false

theorem runServe_stored {key : Key} {bytes : List UInt8} {outcome : KvOutcome}
    {ftl : KvFtl} (hstored : action.stored? = some (key, bytes))
    (hserve : kvServe cfg search r.ftl action = .ok (outcome, ftl)) :
    runServe cfg search r action = .ok (outcome,
      { ftl := ftl, reserved := reservedAfter r bytes.length }) := by
  rw [runServe, hserve, ok_bind, hstored]
  rfl

theorem runServe_other {outcome : KvOutcome} {ftl : KvFtl}
    (hother : action.stored? = none)
    (hserve : kvServe cfg search r.ftl action = .ok (outcome, ftl)) :
    runServe cfg search r action = .ok (outcome, { r with ftl := ftl }) := by
  rw [runServe, hserve, ok_bind, hother]
  rfl

/-- After a store the key holds its value, and the others what they held. -/
theorem holds_update {s s' : KvFtl} {key : Key} {bytes : List UInt8}
    (hkey : Holds cfg s' key (some bytes))
    (hothers : ∀ other ∈ keys, other ≠ key → Kept cfg s s' other)
    (h : ∀ other ∈ keys, Holds cfg s other (m other)) :
    ∀ other ∈ keys,
      Holds cfg s' other (Function.update m key (some bytes) other) := by
  intro other hmem
  by_cases hother : other = key
  · rw [hother, Function.update_self]
    exact hkey
  · rw [Function.update_of_ne hother]
    exact (h other hmem).kept (hothers other hmem hother)

theorem Shows.insert {bytes : List UInt8} (h : Shows cfg keys r m)
    (hstored : action.stored? = some (keyOf action, bytes))
    (hfind : findSlot cfg r.ftl.table (keyOf action) = .ok none)
    (hserves : InsertServes cfg keys r (keyOf action) bytes.length) :
    ∃ r', runServe cfg search r action = .ok (.silent, r') ∧
      Shows cfg keys r'
        (Function.update m (keyOf action) (some bytes)) := by
  have hsize := cfg.storageSize_lt
  obtain ⟨offset, allocator, halloc, hoffset⟩ :=
    allocateMemOffset_of_room search h.extents.for_size hserves.room
      (by rw [sizeMax]; omega) hserves.pos
  obtain ⟨table, hnew⟩ := newMappingEntryByKey_ok hoffset hserves.free
    (keyOf action) bytes.length
  obtain ⟨hspec, slot, hins⟩ := h.extents.insert_spec hserves.room halloc hnew
  refine ⟨_, runServe_stored hstored
    (kvServe_insert hstored hfind halloc hnew), ?_, ?_⟩
  · exact h.extents.insert hserves.length_le hspec hins
  · refine holds_update ?_ ?_ h.holds
    · have hlinked := hins.linked h.extents.linked
      have hfound := hins.foundAt h.extents.linked
        (getMappingEntryByKey_of_none hfind)
      refine ⟨slot, offset, hlinked.findSlot_of_foundAt hfound, ?_, ?_,
        readBytes_writeBytes_self _ _ _⟩
      · dsimp only
        rw [hins.filled]
        rfl
      · dsimp only
        rw [hins.filled]
        rfl
    · intro other hmem hother
      exact h.extents.insert_keeps hserves.length_le hspec hins
        (hserves.uncut other hmem) (hserves.own other hmem hother)

theorem Shows.update {bytes : List UInt8} {slot : ℕ} (h : Shows cfg keys r m)
    (hstored : action.stored? = some (keyOf action, bytes))
    (hfind : findSlot cfg r.ftl.table (keyOf action) = .ok (some slot))
    (hserves : UpdateServes cfg keys r action bytes.length slot) :
    ∃ r', runServe cfg search r action = .ok (.silent, r') ∧
      Shows cfg keys r'
        (Function.update m (keyOf action) (some bytes)) := by
  obtain ⟨offset, hoffset⟩ :=
    Option.ne_none_iff_exists'.mp (foundAt_of_findSlot hfind).2.1
  obtain ⟨table, htable, hlength, hserve⟩ :=
    kvServe_update search hstored hfind hoffset hserves.kept
  have hlinks := (update_table htable).1
  refine ⟨_, runServe_stored hstored hserve, ?_, ?_⟩
  · exact h.extents.update hoffset hserves.length_le htable
  · refine holds_update ?_ ?_ h.holds
    · exact ⟨slot, offset, (hlinks.findSlot_eq _).trans hfind,
        (hlinks slot).2.1.trans hoffset, hlength,
        readBytes_writeBytes_self _ _ _⟩
    · intro other hmem hother
      exact h.extents.update_keeps hoffset hserves.length_le htable
        (hserves.own other hmem hother)

/-! ## The other commands -/

/-- A lookup that found nothing finds nothing after a deletion. -/
theorem not_foundAt_of_deleted {table table' : Table} {slot : ℕ} {other : Key}
    (hdeleted : Deleted table slot table')
    (hmiss : ∀ p, ¬ FoundAt cfg table other p) (p : ℕ) :
    ¬ FoundAt cfg table' other p := by
  rintro ⟨hvisits, hhits⟩
  have hp : p ≠ slot := by
    rintro rfl
    rw [Hits, hdeleted.cleared] at hhits
    exact hhits.1 rfl
  refine hmiss p ⟨Arrives.congr hvisits fun q next _ hnext => ?_, ?_⟩
  · rw [hdeleted.hop_eq] at hnext
    split_ifs at hnext
    exact hnext
  · rw [Hits, hdeleted.others p hp] at hhits
    exact hhits

/-- A deletion keeps the keys whose lookups do not visit the entry. -/
theorem kept_of_deleted {s : KvFtl} {table : Table} {slot : ℕ} {other : Key}
    (hlinked : Linked cfg s.table) (hdeleted : Deleted s.table slot table)
    (hvisits : ∀ offset length, Found cfg s.table other offset length →
      ¬ Visits cfg s.table other slot) :
    Kept cfg s { s with table := table } other := by
  have hlinked' := hdeleted.linked hlinked
  constructor
  · intro hmissing
    apply hlinked'.findSlot_of_not_foundAt
    exact not_foundAt_of_deleted hdeleted (not_foundAt_of_findSlot hmissing)
  · intro q offset hfind hq
    have hfoundAt := foundAt_of_findSlot hfind
    have hfound : Found cfg s.table other offset (s.table q).length :=
      (hlinked.found_iff _ _ _).mpr ⟨q, hfoundAt, hq, rfl⟩
    have hnot := hvisits _ _ hfound
    have hne : q ≠ slot := fun heq => hnot (heq ▸ hfoundAt.1)
    dsimp only
    rw [hdeleted.others q hne]
    exact ⟨hlinked'.findSlot_of_foundAt
      (hdeleted.foundAt_of_not_visits hfoundAt hnot), hq, rfl,
      fun _ _ => rfl⟩

/-- The table after the entry in `slot` was deleted. -/
theorem deleted_update (table : Table) (slot : ℕ) :
    Deleted table slot (Function.update table slot clearedEntry) :=
  ⟨Function.update_self _ _ _, fun _ hp => Function.update_of_ne hp _ _⟩

theorem kvServe_delete {s : KvFtl} {cmd : KvCommand} {slot : ℕ}
    (hopcode : cmd.opcode = .delete)
    (hfind : findSlot cfg s.table cmd.key = .ok (some slot)) :
    kvServe cfg search s (.single cmd) = .ok (.silent,
      { s with table := Function.update s.table slot clearedEntry }) := by
  have hfilled := (foundAt_of_findSlot hfind).2.1
  have hdelete : deleteMappingEntry cfg s.table cmd.key =
      .ok (clearedEntry, Function.update s.table slot clearedEntry) := by
    rw [deleteMappingEntry, hfind]
    rfl
  rw [kvServe, doPerformKvIo, getMappingEntry,
    getMappingEntryByKey_of_some hfind, ok_bind, hopcode]
  dsimp only
  rw [if_neg hfilled, hdelete]
  rfl

theorem kvServe_delete_missing {s : KvFtl} {cmd : KvCommand}
    (hopcode : cmd.opcode = .delete)
    (hfind : findSlot cfg s.table cmd.key = .ok none) :
    kvServe cfg search s (.single cmd) = .ok (.missing, s) := by
  rw [kvServe, doPerformKvIo, getMappingEntry,
    getMappingEntryByKey_of_none hfind, ok_bind, hopcode]
  rfl

/-- After a deletion the key holds nothing, and the others what they held. -/
theorem holds_delete {s : KvFtl} {key : Key} {slot : ℕ}
    (hlinked : Linked cfg s.table)
    (hfind : findSlot cfg s.table key = .ok (some slot))
    (hvisits : ∀ other ∈ keys, other ≠ key → ∀ offset length,
      Found cfg s.table other offset length →
      ¬ Visits cfg s.table other slot)
    (h : ∀ other ∈ keys, Holds cfg s other (m other)) :
    ∀ other ∈ keys,
      Holds cfg
        { s with table := Function.update s.table slot clearedEntry }
        other (Function.update m key none other) := by
  have hdeleted := deleted_update s.table slot
  have hlinked' := hdeleted.linked hlinked
  intro other hmem
  by_cases hother : other = key
  · have hmissing := hdeleted.notFound_of_visits hlinked
      (foundAt_of_findSlot hfind).1
    rw [hother, Function.update_self]
    exact hlinked'.findSlot_of_not_foundAt
      ((hlinked'.notFound_iff key).mp hmissing)
  · rw [Function.update_of_ne hother]
    exact (h other hmem).kept
      (kept_of_deleted hlinked hdeleted (hvisits other hmem hother))

theorem Shows.delete {cmd : KvCommand} (h : Shows cfg keys r m)
    (hopcode : cmd.opcode = .delete) (hserves : Serves cfg keys r (.single cmd)) :
    ∃ r', runServe cfg search r (.single cmd) =
        .ok ((mapStep m (.single cmd)).1, r') ∧
      Shows cfg keys r' (mapStep m (.single cmd)).2 := by
  have hother : (KvAction.single cmd).stored? = none := by
    rw [KvAction.stored?, hopcode]
    rfl
  have hholds := h.holds cmd.key hserves.key_mem
  rw [mapStep, hopcode]
  dsimp only
  cases hvalue : m cmd.key with
  | none =>
      rw [hvalue] at hholds
      rw [if_pos rfl]
      exact ⟨_, runServe_other hother (kvServe_delete_missing hopcode hholds), h⟩
  | some bytes =>
      rw [hvalue] at hholds
      obtain ⟨slot, offset, hfind, -⟩ := hholds
      rw [if_neg (Option.some_ne_none bytes)]
      refine ⟨_, runServe_other hother (kvServe_delete hopcode hfind), ?_, ?_⟩
      · exact h.extents.other rfl rfl (.inr ⟨slot, deleted_update _ _⟩)
      · exact holds_delete h.extents.linked hfind
          (hserves.delete hopcode slot hfind) h.holds

/-- What neither stores nor deletes leaves everything as it is. -/
theorem kvServe_still {s : KvFtl} (hother : action.stored? = none)
    (hstays : ¬ Deletes action)
    (hholds : Holds cfg s (keyOf action) (m (keyOf action))) :
    kvServe cfg search s action = .ok ((mapStep m action).1, s) ∧
      (mapStep m action).2 = m := by
  cases action with
  | single cmd =>
      obtain ⟨entry, hget, hentry⟩ := hholds.entry_eq
      rw [keyOf] at hget hentry
      rw [kvServe, doPerformKvIo, getMappingEntry, hget, ok_bind, mapStep]
      cases hopcode : cmd.opcode with
      | store =>
          rw [KvAction.stored?, if_pos hopcode] at hother
          cases hother
      | append => exact ⟨rfl, rfl⟩
      | retrieve =>
          have hreply := hholds.kvRetrieve_eq hget
          dsimp only
          rw [hreply]
          exact ⟨rfl, rfl⟩
      | delete => exact absurd hopcode hstays
      | exist =>
          dsimp only
          rw [if_congr hentry rfl rfl]
          exact ⟨rfl, rfl⟩
  | sub cmd =>
      obtain ⟨entry, hget, -⟩ := hholds.entry_eq
      rw [KvAction.stored?] at hother
      split_ifs at hother with hopcode
      rw [keyOf] at hget
      rw [kvServe, doPerformKvBatchedIo, hget, ok_bind, if_neg hopcode,
        mapStep, if_neg hopcode]
      exact ⟨rfl, rfl⟩

/-! ## Runs -/

/-- The step lemma. -/
theorem runServe_refines : Refines (runServe cfg search) mapStep
    (fun r _ action => Serves cfg keys r action) (Shows cfg keys) := by
  intro r m action h hserves
  have hholds := h.holds (keyOf action) hserves.key_mem
  cases hstored : action.stored? with
  | some pair =>
      obtain ⟨key, bytes⟩ := pair
      obtain rfl := stored_key hstored
      rw [mapStep_stored hstored]
      cases hvalue : m (keyOf action) with
      | none =>
          rw [hvalue] at hholds
          exact h.insert hstored hholds (hserves.insert bytes hstored hholds)
      | some old =>
          rw [hvalue] at hholds
          obtain ⟨slot, offset, hfind, -⟩ := hholds
          exact h.update hstored hfind (hserves.update bytes hstored slot hfind)
  | none =>
      by_cases hdeletes : Deletes action
      · cases action with
        | single cmd => exact h.delete hdeletes hserves
        | sub cmd => exact absurd hdeletes not_false
      · obtain ⟨hserve, hmap⟩ := kvServe_still hstored hdeletes hholds
        refine ⟨_, runServe_other hstored hserve, ?_⟩
        rw [hmap]
        exact h

theorem shows_emptyMap {type : AllocatorType} {storage : ℕ → UInt8}
    (hinit : kvInitNamespace cfg type storage = .ok r.ftl) :
    Shows cfg keys r emptyMap := by
  refine ⟨extents_of_init hinit, fun key _ => ?_⟩
  obtain ⟨allocator, -, hdone⟩ := bind_eq_ok hinit
  have htable : r.ftl.table = initTable :=
    (congrArg KvFtl.table (Except.ok.inj hdone)).symm
  change findSlot cfg r.ftl.table key = .ok none
  rw [htable]
  exact linked_initTable.findSlot_of_not_foundAt fun p hfound =>
    hfound.2.1 rfl

/-- From a new namespace on, in a run whose commands all meet the condition, no
command faults and every outcome is that of the map. -/
theorem outcomes_are_the_maps {type : AllocatorType} {storage : ℕ → UInt8}
    {actions : List KvAction}
    (hinit : kvInitNamespace cfg type storage = .ok r.ftl)
    (hserves : AllMeet (runServe cfg search) mapStep
      (fun r _ action => Serves cfg keys r action) r emptyMap actions) :
    ∃ r', serve (runServe cfg search) r actions =
      .ok ((answer mapStep emptyMap actions).1, r') := by
  obtain ⟨r', hserve, -⟩ :=
    runServe_refines.serve_eq (shows_emptyMap hinit) hserves
  exact ⟨r', hserve⟩

/-- A retrieve command with a buffer of `words` words. -/
def retrieveOf (key : Key) (words : ℕ) : KvAction :=
  .single { opcode := .retrieve, key := key, valueLen := words,
            value := fun _ => 0 }

/-- A command that neither stores nor deletes always meets the condition. -/
theorem serves_of_neither (hmem : keyOf action ∈ keys)
    (hother : action.stored? = none) (hstays : ¬ Deletes action) :
    Serves cfg keys r action where
  key_mem := hmem
  update bytes hstored := by
    rw [hother] at hstored
    cases hstored
  insert bytes hstored := by
    rw [hother] at hstored
    cases hstored
  delete hdeletes := absurd hdeletes hstays

def storedKeys : Set Key := {oneByte 100, oneByte 120}

/-- An insertion that fits serves. -/
theorem insertServes_of_fits {key : Key} {length : ℕ}
    (hfits : InsertFits cfg r key length) (hpos : 0 < length)
    (hfree : HasFree cfg r.ftl.table) : InsertServes cfg keys r key length where
  pos := hpos
  room := hfits.room
  length_le := hfits.length_le
  free := hfree
  uncut other _ := hfits.uncut other
  own other _ := hfits.own other

/-- A store under a key that has no value. -/
theorem serves_insert {key : Key} {bytes : List UInt8} (hmem : key ∈ keys)
    (hstored : action.stored? = some (key, bytes))
    (hfind : findSlot cfg r.ftl.table key = .ok none)
    (hserves : InsertServes cfg keys r key bytes.length)
    (hstays : ¬ Deletes action) : Serves cfg keys r action := by
  obtain rfl := stored_key hstored
  constructor
  · exact hmem
  · intro _ _ slot hfound
    cases hfind.symm.trans hfound
  · intro _ hbytes _
    cases hstored.symm.trans hbytes
    exact hserves
  · intro hdeletes
    exact absurd hdeletes hstays

/-- A store under a key that has a value. -/
theorem serves_update {key : Key} {bytes : List UInt8} {slot : ℕ}
    (hmem : key ∈ keys) (hstored : action.stored? = some (key, bytes))
    (hfind : findSlot cfg r.ftl.table key = .ok (some slot))
    (hserves : UpdateServes cfg keys r action bytes.length slot)
    (hstays : ¬ Deletes action) : Serves cfg keys r action := by
  obtain rfl := stored_key hstored
  constructor
  · exact hmem
  · intro _ hbytes _ hfound
    cases hstored.symm.trans hbytes
    cases hfind.symm.trans hfound
    exact hserves
  · intro _ _ hmissing
    cases hfind.symm.trans hmissing
  · intro hdeletes
    exact absurd hdeletes hstays

theorem runStep_of_runServe {outcome : KvOutcome} {r' : KvRun}
    (h : runServe cfg search r action = .ok (outcome, r')) :
    runStep cfg search r action = .ok r' := by
  obtain ⟨⟨reply, ftl⟩, hserve, hdone⟩ := bind_eq_ok h
  have hstep : kvStep cfg search r.ftl action = .ok ftl := by
    cases action with
    | single cmd =>
        rw [kvServe] at hserve
        rw [kvStep, hserve]
        rfl
    | sub cmd =>
        obtain ⟨after, hbatched, hreply⟩ := bind_eq_ok hserve
        cases hreply
        exact hbatched
  rw [runStep, hstep, ok_bind]
  dsimp only at hdone
  cases hstored : action.stored? with
  | none =>
      rw [hstored] at hdone
      cases hdone
      rfl
  | some pair =>
      rw [hstored] at hdone
      cases hdone
      rfl

theorem afterStore_of_runServe {outcome : KvOutcome} {r' : KvRun}
    (h : runServe sevenSlots firstZero r action = .ok (outcome, r')) :
    r' = afterStore r action := by
  rw [afterStore, runStep_of_runServe h]

/-- The second value in the first one's place is shorter. -/
def updated : KvRun := afterStore twoStored (storeOf (oneByte 100) 1 9)

theorem updated_unlinked (p : ℕ) : (updated.ftl.table p).nextSlot = none := by
  have htable : updated.ftl.table =
      Function.update twoStored.ftl.table 6
        { twoStored.ftl.table 6 with length := 4 } := rfl
  rw [htable, Function.update_apply]
  split_ifs
  · exact (twoStored_unlinked 6).2
  · exact (twoStored_unlinked p).2

theorem not_deletes_storeOf (key : Key) (words : ℕ) (byte : UInt8) :
    ¬ Deletes (storeOf key words byte) := by
  rintro ⟨⟩

theorem serves_first : Serves sevenSlots storedKeys firstRun
    (storeOf (oneByte 100) 2 7) := by
  have hstored : (storeOf (oneByte 100) 2 7).stored? =
      some (oneByte 100, [7, 7, 7, 7, 7, 7, 7, 7]) := by decide +kernel
  have hfits : InsertFits sevenSlots firstRun (oneByte 100) 8 :=
    insertFits_of_unlinked (by decide) (fun _ => rfl) rfl
      (show 0 + 8 ≤ 4096 by decide) le_rfl
  have hmem : oneByte 100 ∈ storedKeys := .inl rfl
  exact serves_insert hmem hstored rfl
    (insertServes_of_fits hfits (by decide) ⟨0, by decide, rfl⟩)
    (not_deletes_storeOf _ _ _)

theorem serves_second : Serves sevenSlots storedKeys oneStored
    (storeOf (oneByte 120) 1 8) := by
  have hstored : (storeOf (oneByte 120) 1 8).stored? =
      some (oneByte 120, [8, 8, 8, 8]) := by decide +kernel
  have hfits : InsertFits sevenSlots oneStored (oneByte 120) 4 :=
    insertFits_of_unlinked (by decide) (fun p => (twoStored_unlinked p).1) rfl
      (show 8 + 4 ≤ 4096 by decide) le_rfl
  have hmem : oneByte 120 ∈ storedKeys := .inr rfl
  exact serves_insert hmem hstored rfl
    (insertServes_of_fits hfits (by decide) ⟨0, by decide, rfl⟩)
    (not_deletes_storeOf _ _ _)

theorem serves_third : Serves sevenSlots storedKeys twoStored
    (storeOf (oneByte 100) 1 9) := by
  have hstored : (storeOf (oneByte 100) 1 9).stored? =
      some (oneByte 100, [9, 9, 9, 9]) := by decide +kernel
  have hfind : findSlot sevenSlots twoStored.ftl.table (oneByte 100) =
      .ok (some (getHashSlot sevenSlots (oneByte 100))) := by
    decide +kernel
  have hfits : UpdateFits sevenSlots twoStored (oneByte 100) 4
      (getHashSlot sevenSlots (oneByte 100)) :=
    updateFits_of_unlinked (by decide) (fun p => (twoStored_unlinked p).2)
      (by decide +kernel) (by decide +kernel)
  have hmem : oneByte 100 ∈ storedKeys := .inl rfl
  exact serves_update hmem hstored hfind
    { length_le := hfits.length_le
      kept := .inr ⟨trivial, by decide, by decide +kernel⟩
      own := fun other _ => hfits.own other }
    (not_deletes_storeOf _ _ _)

/-- A delete command. -/
def deleteOf (key : Key) : KvAction :=
  .single { opcode := .delete, key := key, valueLen := 0,
            value := fun _ => 0 }

theorem serves_delete :
    Serves sevenSlots storedKeys updated (deleteOf (oneByte 100)) where
  key_mem := .inl rfl
  update _ hstored := by cases hstored
  insert _ hstored := by cases hstored
  delete _ slot hfind := by
    have hslot := visits_of_unlinked updated_unlinked
      (foundAt_of_findSlot hfind).1
    rintro other (rfl | rfl) hother _ _ _ hvisits
    · exact hother rfl
    · have hdiffer : getHashSlot sevenSlots (oneByte 100) ≠
          getHashSlot sevenSlots (oneByte 120) := by decide +kernel
      exact hdiffer (hslot.symm.trans
        (visits_of_unlinked updated_unlinked hvisits))

/-- Two keys get values, the first one a shorter value and then none. -/
def twoKeyRun : List KvAction :=
  [storeOf (oneByte 100) 2 7, storeOf (oneByte 120) 1 8,
    storeOf (oneByte 100) 1 9, deleteOf (oneByte 100),
    retrieveOf (oneByte 100) 2, retrieveOf (oneByte 120) 2]

theorem outcomes_are_the_maps_twoKeys :
    ∃ r', serve (runServe sevenSlots firstZero) firstRun twoKeyRun =
      .ok ([.silent, .silent, .silent, .silent, .missing,
        { result := 4, status := none, data := [8, 8, 8, 8] }], r') := by
  have hinit : kvInitNamespace sevenSlots .appendOnly (fun _ => 0) =
      .ok firstRun.ftl := rfl
  have hanswer : (answer mapStep emptyMap twoKeyRun).1 =
      [.silent, .silent, .silent, .silent, .missing,
        { result := 4, status := none, data := [8, 8, 8, 8] }] := by
    decide +kernel
  have hretrieve (r : KvRun) (key : Key) (hmem : key ∈ storedKeys) :
      Serves sevenSlots storedKeys r (retrieveOf key 2) := by
    refine serves_of_neither hmem rfl ?_
    rintro ⟨⟩
  rw [← hanswer]
  apply outcomes_are_the_maps hinit
  refine ⟨serves_first, fun _ r₁ hfirst => ?_⟩
  obtain rfl := afterStore_of_runServe hfirst
  refine ⟨serves_second, fun _ r₂ hsecond => ?_⟩
  obtain rfl := afterStore_of_runServe hsecond
  refine ⟨serves_third, fun _ r₃ hthird => ?_⟩
  obtain rfl := afterStore_of_runServe hthird
  refine ⟨serves_delete, fun _ r₄ _ => ?_⟩
  exact ⟨hretrieve r₄ _ (.inl rfl), fun _ r₅ _ =>
    ⟨hretrieve r₅ _ (.inr rfl), fun _ _ _ => trivial⟩⟩

end NvmeVirt.KvFiniteMap
