import NvmeVirt.Core.Transition
import NvmeVirt.Core.Walk
import NvmeVirt.Device.Kernel

/-!
# The mapping table of the key-value translation layer

A key is looked up from its hash slot on along `next_slot`.  A new key goes to
its hash slot, or to the first free slot after it; in the second case the hash
slot is made to point to the new one, whatever it pointed to before.  A deleted
entry is overwritten with `-1`.

`none` stands for `-1` in `mem_offset` and in `next_slot`.  Keys have at most
`KVCMD_INLINE_KEY_MAX` bytes; the bytes of an entry after the end of its key
are those of earlier entries.
-/

namespace NvmeVirt.KvMapping

open NvmeVirt.Kernel
open NvmeVirt.Transition
open NvmeVirt.Walk

/-- The key of a command, `KVCMD_INLINE_KEY_MAX` bytes at most. -/
structure Key where
  bytes : List UInt8
  length_le : bytes.length ≤ 16
  deriving DecidableEq

/-- `struct mapping_entry`; `key` has 18 bytes. -/
structure MappingEntry where
  key : List UInt8
  memOffset : Option ℕ
  length : ℕ
  nextSlot : Option ℕ
  deriving DecidableEq

/-- `kv_mapping_table`. -/
abbrev Table := ℕ → MappingEntry

/-- The sizes of a namespace.  `kv_init_namespace` counts the slots in an
`int`, and the storage area starts 1 MiB after the start of the memory that is
set aside. -/
structure KvConfig where
  hashSlots : ℕ
  storageSize : ℕ
  hashSlots_pos : 0 < hashSlots
  hashSlots_lt : hashSlots < 2 ^ 31
  storageSize_lt : storageSize + 2 ^ 20 < 2 ^ 64

/-- `(size_t)-1`. -/
def sizeMax : ℕ := 2 ^ 64 - 1

/-- An entry of `kv_init_namespace`. -/
def initEntry : MappingEntry :=
  { key := List.replicate 18 0, memOffset := none, length := sizeMax,
    nextSlot := none }

/-- An entry after `memset` with `-1`. -/
def clearedEntry : MappingEntry :=
  { key := List.replicate 18 255, memOffset := none, length := sizeMax,
    nextSlot := none }

/-- The table of `kv_init_namespace`. -/
def initTable : Table := fun _ => initEntry

/-- `hash_function`. -/
def hashFunction (key : Key) : ℕ :=
  key.bytes.foldl (fun h byte => u32 (h * 16777619) ^^^ byte.toNat) 2166136261

/-- `memcmp` of the key of a command with the one of an entry. -/
def keyMatches (entry : MappingEntry) (key : Key) : Bool :=
  entry.key.take key.bytes.length = key.bytes

/-- `memcpy` of the key of a command into an entry. -/
def copyKey (dest : List UInt8) (key : Key) : List UInt8 :=
  key.bytes ++ dest.drop key.bytes.length

/-- `chain_mapping`. -/
def chainMapping (table : Table) (prev slot : ℕ) : Table :=
  Function.update table prev { table prev with nextSlot := some slot }

/-- The entry a new mapping leaves in a slot; its `next_slot` is not set. -/
def fillEntry (entry : MappingEntry) (key : Key) (valLen valOffset : ℕ) :
    MappingEntry :=
  { entry with
    key := copyKey entry.key key
    memOffset := some valOffset
    length := valLen }

/-- The loop by which all four lookups follow `next_slot`. -/
def searchFrom (table : Table) (key : Key) : ℕ → ℕ → Except Fault (Option ℕ)
  | 0, _ => .error .divergence
  | fuel + 1, slot =>
      if (table slot).memOffset = none then .ok none
      else if keyMatches (table slot) key then .ok (some slot)
      else match (table slot).nextSlot with
        | none => .ok none
        | some next => searchFrom table key fuel next

section

variable (cfg : KvConfig)

/-- `get_hash_slot`. -/
def getHashSlot (key : Key) : ℕ := hashFunction key % cfg.hashSlots

/-- The slot a lookup stops at, if it finds the key. -/
def findSlot (table : Table) (key : Key) : Except Fault (Option ℕ) :=
  searchFrom table key (cfg.hashSlots + 1) (getHashSlot cfg key)

/-- The loop of `find_next_slot`. -/
def freeSlotFrom (table : Table) : ℕ → ℕ → Except Fault ℕ
  | 0, _ => .error .divergence
  | fuel + 1, retSlot =>
      if (table retSlot).memOffset = none then .ok retSlot
      else freeSlotFrom table fuel
        (if cfg.hashSlots ≤ retSlot + 1 then 0 else retSlot + 1)

/-- `find_next_slot`: the new slot, and what it returns in `prev_slot`. -/
def findNextSlot (table : Table) (originalSlot : ℕ) :
    Except Fault (ℕ × ℕ) := do
  let retSlot ← freeSlotFrom cfg table cfg.hashSlots originalSlot
  return (retSlot, originalSlot)

/-- `new_mapping_entry_by_key`.  `new_mapping_entry` is the same, with the key
and the value length of its command. -/
def newMappingEntryByKey (table : Table) (key : Key) (valLen valOffset : ℕ) :
    Except Fault Table := do
  nvmevAssert (valOffset < cfg.storageSize)
  let slot := getHashSlot cfg key
  if (table slot).memOffset = none then
    return Function.update table slot
      (fillEntry (table slot) key valLen valOffset)
  let (slot, prevSlot) ← findNextSlot cfg table slot
  let table := Function.update table slot
    (fillEntry (table slot) key valLen valOffset)
  return chainMapping table prevSlot slot

/-- `update_mapping_entry`: its return code and the table. -/
def updateMappingEntry (table : Table) (key : Key) (valLen : ℕ) :
    Except Fault (ℕ × Table) := do
  match ← findSlot cfg table key with
  | none => return (1, table)
  | some slot =>
      return (0, Function.update table slot
        { table slot with length := valLen })

/-- `get_mapping_entry_by_key`.  `get_mapping_entry` is the same, with the key
of its command. -/
def getMappingEntryByKey (table : Table) (key : Key) :
    Except Fault MappingEntry := do
  match ← findSlot cfg table key with
  | none => return clearedEntry
  | some slot =>
      return { table slot with key := copyKey clearedEntry.key key }

/-- `delete_mapping_entry`; the entry it returns is the cleared one. -/
def deleteMappingEntry (table : Table) (key : Key) :
    Except Fault (MappingEntry × Table) := do
  match ← findSlot cfg table key with
  | none => return (clearedEntry, table)
  | some slot =>
      return (clearedEntry, Function.update table slot clearedEntry)

/-! ## Runs -/

/-- The lookup of the key reports that there is none. -/
def NotFound (table : Table) (key : Key) : Prop :=
  getMappingEntryByKey cfg table key = .ok clearedEntry

/-- The lookup of the key finds an entry with this offset and length. -/
def Found (table : Table) (key : Key) (offset length : ℕ) : Prop :=
  ∃ entry, getMappingEntryByKey cfg table key = .ok entry ∧
    entry.memOffset = some offset ∧ entry.length = length

/-- What the store and delete commands do with the table. -/
inductive TableAction
  | insert (key : Key) (valLen valOffset : ℕ)
  | update (key : Key) (valLen : ℕ)
  | delete (key : Key)

def tableStep (table : Table) : TableAction → Except Fault Table
  | .insert key valLen valOffset =>
      newMappingEntryByKey cfg table key valLen valOffset
  | .update key valLen => do
      let (_, table) ← updateMappingEntry cfg table key valLen
      return table
  | .delete key => do
      let (_, table) ← deleteMappingEntry cfg table key
      return table

/-- All runs.  A key is inserted after a lookup that did not find it. -/
def tableMachine : Machine Table TableAction Fault where
  init table := table = initTable
  enabled table
    | .insert key _ _ => NotFound cfg table key
    | _ => True
  step := tableStep cfg

instance (table : Table) (action : TableAction) :
    Decidable ((tableMachine cfg).enabled table action) :=
  match action with
  | .insert key _ _ => inferInstanceAs (Decidable
      (getMappingEntryByKey cfg table key = .ok clearedEntry))
  | .update _ _ | .delete _ => isTrue trivial

end

end NvmeVirt.KvMapping
