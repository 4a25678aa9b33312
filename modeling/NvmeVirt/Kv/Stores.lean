import NvmeVirt.Kv.Commands
import NvmeVirt.Kv.TableChanges

/-!
# Stores

A store command and a store sub-command of a batch look their key up, copy the
value to the offset of the entry or to a new one, and then insert a new entry
or resize the old one.  Only the store command resizes.
-/

namespace NvmeVirt.KvStores

open NvmeVirt.ByteMap
open NvmeVirt.Kernel
open NvmeVirt.KvAllocators
open NvmeVirt.KvCommands
open NvmeVirt.KvLookup
open NvmeVirt.KvMapping
open NvmeVirt.KvTableChanges
open NvmeVirt.Transition

variable {cfg : KvConfig} {search : ZeroAreaSearch} {s : KvFtl}

/-- A store of a key that is not there, by either path. -/
def insertValue (cfg : KvConfig) (search : ZeroAreaSearch) (s : KvFtl)
    (key : Key) (bytes : List UInt8) : Except Fault KvFtl := do
  let (newOffset, allocator) ←
    allocateMemOffsetByLength search s.allocator bytes.length
  let table ← newMappingEntryByKey cfg s.table key bytes.length newOffset
  return { storeBytes { s with allocator := allocator } newOffset bytes with
    table := table }

/-- The bytes a store command copies. -/
def storedBytes (cmd : KvCommand) : List UInt8 :=
  readBytes cmd.value 0 (cmdValueLength cmd)

theorem length_storedBytes (cmd : KvCommand) :
    (storedBytes cmd).length = cmdValueLength cmd := length_readBytes _ _ _

theorem doPerformKvIo_insert {cmd : KvCommand} (hstore : cmd.opcode = .store)
    (hfind : findSlot cfg s.table cmd.key = .ok none) :
    doPerformKvIo cfg search s cmd = (do
      let s ← insertValue cfg search s cmd.key (storedBytes cmd)
      return (.silent, s)) := by
  rw [doPerformKvIo, getMappingEntry, getMappingEntryByKey_of_none hfind,
    ok_bind, hstore]
  dsimp only
  rw [kvStore, insertValue, length_storedBytes, allocateMemOffset,
    if_pos hstore]
  rfl

theorem doPerformKvIo_update {cmd : KvCommand} {slot offset : ℕ}
    (hstore : cmd.opcode = .store)
    (hfind : findSlot cfg s.table cmd.key = .ok (some slot))
    (hoffset : (s.table slot).memOffset = some offset) :
    doPerformKvIo cfg search s cmd = .ok (.silent,
      { storeBytes s offset (storedBytes cmd) with
        table :=
          if cmdValueLength cmd ≠ (s.table slot).length ∧
              cmdValueLength cmd ≤ smallLength ∧
              (s.table slot).length ≤ smallLength then
            resize s.table slot (cmdValueLength cmd)
          else s.table }) := by
  have hupdate : updateMappingEntry cfg s.table cmd.key (cmdValueLength cmd) =
      .ok (0, resize s.table slot (cmdValueLength cmd)) := by
    rw [updateMappingEntry, hfind]
    rfl
  rw [doPerformKvIo, getMappingEntry, getMappingEntryByKey_of_some hfind,
    ok_bind, hstore]
  dsimp only
  rw [kvStore]
  dsimp only
  rw [hoffset]
  dsimp only
  by_cases hresize : cmdValueLength cmd ≠ (s.table slot).length ∧
      cmdValueLength cmd ≤ smallLength ∧ (s.table slot).length ≤ smallLength
  · rw [if_pos hresize, if_pos hresize, storeBytes, hupdate]
    rfl
  · rw [if_neg hresize, if_neg hresize]
    rfl

theorem doPerformKvBatchedIo_insert {sub : SubCmd}
    (hstore : sub.opcode = kvStoreOpcode)
    (hfind : findSlot cfg s.table sub.key = .ok none) :
    doPerformKvBatchedIo cfg search s sub =
      insertValue cfg search s sub.key sub.value := by
  rw [doPerformKvBatchedIo, getMappingEntryByKey_of_none hfind, ok_bind,
    if_pos hstore]
  rfl

theorem doPerformKvBatchedIo_update {sub : SubCmd} {slot offset : ℕ}
    (hstore : sub.opcode = kvStoreOpcode)
    (hfind : findSlot cfg s.table sub.key = .ok (some slot))
    (hoffset : (s.table slot).memOffset = some offset) :
    doPerformKvBatchedIo cfg search s sub =
      .ok (storeBytes s offset sub.value) := by
  rw [doPerformKvBatchedIo, getMappingEntryByKey_of_some hfind, ok_bind,
    if_pos hstore]
  dsimp only
  rw [hoffset]
  rfl

/-- What a store does, by either path. -/
inductive Stored (cfg : KvConfig) (search : ZeroAreaSearch) (s : KvFtl)
    (key : Key) (bytes : List UInt8) : KvFtl → Prop
  | update {slot offset : ℕ} {table : Table}
      (hfind : findSlot cfg s.table key = .ok (some slot))
      (hoffset : (s.table slot).memOffset = some offset)
      (htable : table = s.table ∨ table = resize s.table slot bytes.length) :
      Stored cfg search s key bytes
        { storeBytes s offset bytes with table := table }
  | insert {offset : ℕ} {allocator : Allocator} {table : Table}
      (hfind : findSlot cfg s.table key = .ok none)
      (halloc : allocateMemOffsetByLength search s.allocator bytes.length =
        .ok (offset, allocator))
      (hnew : newMappingEntryByKey cfg s.table key bytes.length offset =
        .ok table) :
      Stored cfg search s key bytes
        { storeBytes { s with allocator := allocator } offset bytes with
          table := table }

theorem stored_of_insertValue {s' : KvFtl} {key : Key} {bytes : List UInt8}
    (hfind : findSlot cfg s.table key = .ok none)
    (hrun : insertValue cfg search s key bytes = .ok s') :
    Stored cfg search s key bytes s' := by
  obtain ⟨⟨offset, allocator⟩, halloc, hrest⟩ := bind_eq_ok hrun
  obtain ⟨table, hnew, hdone⟩ := bind_eq_ok hrest
  cases hdone
  exact .insert hfind halloc hnew

/-- A lookup that ends, and finds nothing or an entry. -/
theorem findSlot_cases {table : Table} {key : Key} {entry : MappingEntry}
    (hget : getMappingEntryByKey cfg table key = .ok entry) :
    findSlot cfg table key = .ok none ∨
      ∃ slot offset, findSlot cfg table key = .ok (some slot) ∧
        (table slot).memOffset = some offset := by
  obtain ⟨found, hfind, -⟩ := bind_eq_ok hget
  cases found with
  | none => exact .inl hfind
  | some slot =>
      have hhits := (foundAt_of_findSlot hfind).2.1
      obtain ⟨offset, hoffset⟩ := Option.ne_none_iff_exists'.mp hhits
      exact .inr ⟨slot, offset, hfind, hoffset⟩

theorem stored_of_doPerformKvIo {s' : KvFtl} {cmd : KvCommand}
    {outcome : KvOutcome} (hstore : cmd.opcode = .store)
    (hrun : doPerformKvIo cfg search s cmd = .ok (outcome, s')) :
    Stored cfg search s cmd.key (storedBytes cmd) s' := by
  obtain ⟨entry, hget, -⟩ := bind_eq_ok hrun
  obtain hfind | ⟨slot, offset, hfind, hoffset⟩ := findSlot_cases hget
  · rw [doPerformKvIo_insert hstore hfind] at hrun
    obtain ⟨after, hinsert, hdone⟩ := bind_eq_ok hrun
    cases hdone
    exact stored_of_insertValue hfind hinsert
  · rw [doPerformKvIo_update hstore hfind hoffset] at hrun
    cases hrun
    apply Stored.update hfind hoffset
    rw [length_storedBytes]
    split_ifs
    · exact .inr rfl
    · exact .inl rfl

theorem stored_of_doPerformKvBatchedIo {s' : KvFtl} {sub : SubCmd}
    (hstore : sub.opcode = kvStoreOpcode)
    (hrun : doPerformKvBatchedIo cfg search s sub = .ok s') :
    Stored cfg search s sub.key sub.value s' := by
  obtain ⟨entry, hget, -⟩ := bind_eq_ok hrun
  obtain hfind | ⟨slot, offset, hfind, hoffset⟩ := findSlot_cases hget
  · rw [doPerformKvBatchedIo_insert hstore hfind] at hrun
    exact stored_of_insertValue hfind hrun
  · rw [doPerformKvBatchedIo_update hstore hfind hoffset] at hrun
    cases hrun
    exact .update hfind hoffset (.inl rfl)

end NvmeVirt.KvStores
