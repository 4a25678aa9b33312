import NvmeVirt.Kv.Allocators
import NvmeVirt.Kv.Mapping

/-!
# Key-value commands

Single commands, and batches of stores.  A value is copied to the offset that
was handed out when its key was inserted, with the length of the command.

`value` is what the value pointers of a command lead to, byte by byte.
`writes` keeps the extents that values were copied to, oldest first; no
function reads it.
-/

namespace NvmeVirt.KvCommands

open NvmeVirt.ByteMap
open NvmeVirt.Kernel
open NvmeVirt.KvAllocators
open NvmeVirt.KvMapping
open NvmeVirt.Transition

/-- The opcodes of single commands. -/
inductive KvOpcode
  | store
  | append
  | retrieve
  | delete
  | exist
  deriving DecidableEq

/-- `nvme_cmd_kv_store`. -/
def kvStoreOpcode : ℕ := 0x81

/-- `KV_ERR_KEY_NOT_EXIST`. -/
def keyNotExist : ℕ := 0x310

/-- `struct nvme_kv_command` of a single command; `valueLen` counts words. -/
structure KvCommand where
  opcode : KvOpcode
  key : Key
  valueLen : ℕ
  value : ℕ → UInt8

/-- A sub-command of a batch, after it was copied out of the payload. -/
structure SubCmd where
  opcode : ℕ
  key : Key
  value : List UInt8
  deriving DecidableEq

/-- `struct kv_ftl`, with its allocator and the storage area. -/
structure KvFtl where
  table : Table
  allocator : Allocator
  storage : ℕ → UInt8
  writes : List (ℕ × ℕ)

/-- What a single command returns: its result, what it stores in `status`, and
the bytes it copies to the value buffer. -/
structure KvOutcome where
  result : ℕ
  status : Option ℕ
  data : List UInt8
  deriving DecidableEq

/-- The outcome of a command that reports nothing. -/
def KvOutcome.silent : KvOutcome := { result := 0, status := none, data := [] }

/-- The outcome for a key that does not exist. -/
def KvOutcome.missing : KvOutcome :=
  { result := 0, status := some keyNotExist, data := [] }

/-- `cmd_value_length`. -/
def cmdValueLength (cmd : KvCommand) : ℕ := u32 (cmd.valueLen * 4)

/-- Copy a value into the storage area. -/
def storeBytes (s : KvFtl) (offset : ℕ) (bytes : List UInt8) : KvFtl :=
  { s with
    storage := writeBytes s.storage offset bytes
    writes := s.writes ++ [(offset, bytes.length)] }

section

variable (cfg : KvConfig) (search : ZeroAreaSearch)

/-- `kv_init_namespace`. -/
def kvInitNamespace (type : AllocatorType) (storage : ℕ → UInt8) :
    Except Fault KvFtl := do
  let allocator ← allocatorInit type cfg.storageSize
  return { table := initTable, allocator := allocator, storage := storage,
           writes := [] }

/-- `allocate_mem_offset_by_length`. -/
def allocateMemOffsetByLength (allocator : Allocator) (valLen : ℕ) :
    Except Fault (ℕ × Allocator) := do
  let (offset, allocator) ← allocate search valLen allocator
  return (if offset = sizeMax then 0 else offset, allocator)

/-- `allocate_mem_offset`. -/
def allocateMemOffset (allocator : Allocator) (cmd : KvCommand) :
    Except Fault (ℕ × Allocator) :=
  if cmd.opcode = .store then
    allocateMemOffsetByLength search allocator (cmdValueLength cmd)
  else .ok (0, allocator)

/-- `get_mapping_entry`. -/
def getMappingEntry (table : Table) (cmd : KvCommand) :
    Except Fault MappingEntry :=
  getMappingEntryByKey cfg table cmd.key

/-- `new_mapping_entry`. -/
def newMappingEntry (table : Table) (cmd : KvCommand) (valOffset : ℕ) :
    Except Fault Table :=
  newMappingEntryByKey cfg table cmd.key (cmdValueLength cmd) valOffset

/-- The store command of `__do_perform_kv_io`. -/
def kvStore (s : KvFtl) (cmd : KvCommand) (entry : MappingEntry) :
    Except Fault KvFtl :=
  let length := cmdValueLength cmd
  match entry.memOffset with
  | none => do
      let (newOffset, allocator) ← allocateMemOffset search s.allocator cmd
      let s := storeBytes { s with allocator := allocator } newOffset
        (readBytes cmd.value 0 length)
      let table ← newMappingEntry cfg s.table cmd newOffset
      return { s with table := table }
  | some offset =>
      let s := storeBytes s offset (readBytes cmd.value 0 length)
      if length ≠ entry.length ∧ length ≤ smallLength ∧
          entry.length ≤ smallLength then do
        let (_, table) ← updateMappingEntry cfg s.table cmd.key length
        return { s with table := table }
      else .ok s

/-- The retrieve command of `__do_perform_kv_io`. -/
def kvRetrieve (s : KvFtl) (cmd : KvCommand) (entry : MappingEntry) :
    KvOutcome :=
  match entry.memOffset with
  | none => .missing
  | some offset =>
      let length := min entry.length (cmdValueLength cmd)
      { result := length, status := none
        data := readBytes s.storage offset length }

/-- `__do_perform_kv_io`. -/
def doPerformKvIo (s : KvFtl) (cmd : KvCommand) :
    Except Fault (KvOutcome × KvFtl) := do
  let entry ← getMappingEntry cfg s.table cmd
  match cmd.opcode with
  | .store => do
      let s ← kvStore cfg search s cmd entry
      return (.silent, s)
  | .retrieve => return (kvRetrieve s cmd entry, s)
  | .exist =>
      return (if entry.memOffset = none then .missing else .silent, s)
  | .delete =>
      if entry.memOffset = none then return (.missing, s)
      else
        let (_, table) ← deleteMappingEntry cfg s.table cmd.key
        return (.silent, { s with table := table })
  | .append => return (.silent, s)

/-- `__do_perform_kv_batched_io`.  The length of an entry that exists is not
updated. -/
def doPerformKvBatchedIo (s : KvFtl) (sub : SubCmd) : Except Fault KvFtl := do
  let entry ← getMappingEntryByKey cfg s.table sub.key
  if sub.opcode = kvStoreOpcode then
    match entry.memOffset with
    | none => do
        let (newOffset, allocator) ←
          allocateMemOffsetByLength search s.allocator sub.value.length
        let s := storeBytes { s with allocator := allocator } newOffset sub.value
        let table ← newMappingEntryByKey cfg s.table sub.key sub.value.length
          newOffset
        return { s with table := table }
    | some offset => return storeBytes s offset sub.value
  else return s

end

/-! ## The payload of a batch -/

/-- `ALIGN_LEN`, and the sizes of `struct sub_cmd_attribute` and of
`struct batch_cmd_head`. -/
def alignLen : ℕ := 64
def attrSize : ℕ := 16
def batchHeadSize : ℕ := 512

/-- What a key or a value takes in the payload. -/
def alignedLength (length : ℕ) : ℕ := ((length - 1) / alignLen + 1) * alignLen

/-- `memcpy` out of the payload buffer. -/
def bytesAt (buffer : List UInt8) (offset length : ℕ) :
    Except Fault (List UInt8) :=
  if buffer.length < offset + length then .error .outOfBounds
  else .ok ((buffer.drop offset).take length)

/-- A little-endian number. -/
def ofLittleEndian (bytes : List UInt8) : ℕ :=
  bytes.foldr (fun byte number => byte.toNat + 256 * number) 0

/-- A number of the payload buffer. -/
def numberAt (buffer : List UInt8) (offset length : ℕ) : Except Fault ℕ := do
  let bytes ← bytesAt buffer offset length
  return ofLittleEndian bytes

/-- One sub-command of `__do_perform_kv_batch`, and the offset of the next one.
The value is copied into a buffer of 4097 bytes.  Keys of 17 and more bytes are
outside the model. -/
def subCmdAt (buffer : List UInt8) (i payloadOffset : ℕ) :
    Except Fault (SubCmd × ℕ) := do
  let opcode ← numberAt buffer (attrSize * i) 1
  let keyLen ← numberAt buffer (attrSize * i + 1) 1
  let valLen ← numberAt buffer (attrSize * i + 4) 4
  let key ← bytesAt buffer (batchHeadSize + payloadOffset) keyLen
  if 4097 < valLen then throw .outOfBounds
  let value ← bytesAt buffer
    (batchHeadSize + payloadOffset + alignedLength keyLen) valLen
  if h : key.length ≤ 16 then
    return ({ opcode := opcode, key := ⟨key, h⟩, value := value },
      payloadOffset + (alignedLength keyLen + alignedLength valLen + alignLen))
  else throw .outOfBounds

/-- `__do_perform_kv_batch`: `subCmdCnt` sub-commands of the payload. -/
def doPerformKvBatch (cfg : KvConfig) (search : ZeroAreaSearch) (s : KvFtl)
    (buffer : List UInt8) (subCmdCnt : ℕ) : Except Fault KvFtl := do
  let (s, _) ← (List.range subCmdCnt).foldlM
    (fun state i => do
      let (s, payloadOffset) := state
      let (sub, payloadOffset) ← subCmdAt buffer i payloadOffset
      let s ← doPerformKvBatchedIo cfg search s sub
      return (s, payloadOffset))
    (s, alignLen)
  return s

end NvmeVirt.KvCommands
