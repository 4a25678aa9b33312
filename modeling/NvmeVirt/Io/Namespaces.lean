import Mathlib.Data.List.Zip
import NvmeVirt.Core.ByteMap
import NvmeVirt.Hybrid.AdvertisedSize
import NvmeVirt.Io.Transfers

/-!
# Namespaces that share the storage

`NVMEV_NAMESPACE_INIT` cuts the storage into namespaces, one behind the other,
and the copies of a command go to the part of its namespace.  Over any run of
commands each namespace is a disk of its own: a command changes no other disk,
and reads what was last written.  The host gives no pages inside the reserved
memory, so its memory and the storage are kept apart here.
-/

namespace NvmeVirt.Namespaces

open NvmeVirt.AdvertisedSize
open NvmeVirt.ByteMap
open NvmeVirt.Kernel
open NvmeVirt.Scatter
open NvmeVirt.Transfers
open NvmeVirt.Transition

/-! ## `NVMEV_NAMESPACE_INIT` -/

/-- `NS_SSD_TYPE(i)`. -/
inductive SsdType
  | nvm
  | conv
  | zns
  | kv

/-- What is configured for a namespace; the capacity is `NS_CAPACITY(i)`. -/
structure NsConfig where
  ssdType : SsdType
  capacity : ℕ

/-- `struct nvmev_ns`, as far as it says where the data are. -/
structure Ns where
  mapped : ℕ
  size : ℕ

/-- `storage_mapped`, `config.storage_start` and `config.storage_size`: the
storage has a physical address and one in the kernel. -/
structure Storage where
  mapped : ℕ
  start : ℕ
  size : ℕ
  mapped_fits : mapped + size < 2 ^ 64
  start_fits : start + size < 2 ^ 64

/-- `ns->size`, as the init function of the type sets it. -/
def nsSize (ssdType : SsdType) (size pbaPcent : ℕ) : ℕ :=
  match ssdType with
  | .nvm => size
  | .conv => advertisedSize size pbaPcent
  | .zns => size
  | .kv => size

/-- The loop over the namespaces. -/
def namespaceInitLoop (pbaPcent : ℕ) : List NsConfig → ℕ → ℕ → List Ns
  | [], _, _ => []
  | config :: configs, remainingCapacity, nsAddr =>
      let size :=
        if config.capacity = 0 then remainingCapacity
        else min config.capacity remainingCapacity
      { mapped := nsAddr, size := nsSize config.ssdType size pbaPcent } ::
        namespaceInitLoop pbaPcent configs (remainingCapacity - size)
          (u64 (nsAddr + size))

/-- `NVMEV_NAMESPACE_INIT`. -/
def namespaceInit (pbaPcent : ℕ) (configs : List NsConfig)
    (storage : Storage) : List Ns :=
  namespaceInitLoop pbaPcent configs storage.size storage.mapped

/-- The namespaces lie in `size` bytes from `start` on, one behind the
other. -/
structure Carved (start size : ℕ) (nss : List Ns) : Prop where
  inside : ∀ ns ∈ nss, start ≤ ns.mapped ∧ ns.mapped + ns.size ≤ start + size
  ordered : nss.Pairwise fun ns later => ns.mapped + ns.size ≤ later.mapped

theorem nsSize_le {pbaPcent : ℕ} (hpcent : 100 ≤ pbaPcent) (ssdType : SsdType)
    (size : ℕ) : nsSize ssdType size pbaPcent ≤ size := by
  cases ssdType with
  | nvm => exact le_rfl
  | conv =>
      rw [nsSize, advertisedSize]
      calc u64 (size * 100) / pbaPcent
          ≤ size * 100 / 100 :=
            Nat.div_le_div (Nat.mod_le _ _) hpcent (by decide)
        _ = size := Nat.mul_div_cancel size (by decide)
  | zns => exact le_rfl
  | kv => exact le_rfl

theorem namespaceInitLoop_carved {pbaPcent : ℕ} (hpcent : 100 ≤ pbaPcent)
    (configs : List NsConfig) (remainingCapacity nsAddr : ℕ)
    (hfits : nsAddr + remainingCapacity < 2 ^ 64) :
    Carved nsAddr remainingCapacity
      (namespaceInitLoop pbaPcent configs remainingCapacity nsAddr) := by
  induction configs generalizing remainingCapacity nsAddr with
  | nil => exact ⟨List.forall_mem_nil _, List.Pairwise.nil⟩
  | cons config configs ih =>
      rw [namespaceInitLoop]
      set size := if config.capacity = 0 then remainingCapacity
        else min config.capacity remainingCapacity with hsize
      have hle : size ≤ remainingCapacity := by
        rw [hsize]
        split_ifs
        · exact le_rfl
        · exact min_le_right _ _
      have hadvertised := nsSize_le hpcent config.ssdType size
      have hnext : u64 (nsAddr + size) = nsAddr + size :=
        u64_of_lt (by omega)
      have hrest := ih (remainingCapacity - size) (nsAddr + size) (by omega)
      rw [hnext]
      constructor
      · rw [List.forall_mem_cons]
        refine ⟨⟨le_rfl, by dsimp only; omega⟩, fun ns hns => ?_⟩
        have hinside := hrest.inside ns hns
        omega
      · rw [List.pairwise_cons]
        refine ⟨fun ns hns => ?_, hrest.ordered⟩
        have hinside := hrest.inside ns hns
        dsimp only
        omega

/-- Different namespaces have no byte in common. -/
theorem Carved.apart {start size : ℕ} {nss : List Ns}
    (h : Carved start size nss) {number other : ℕ} (hne : number ≠ other)
    {ns ns' : Ns} (hns : nss[number]? = some ns)
    (hns' : nss[other]? = some ns') :
    Apart ns.mapped ns.size ns'.mapped ns'.size := by
  obtain ⟨hlt, rfl⟩ := List.getElem?_eq_some_iff.mp hns
  obtain ⟨hlt', rfl⟩ := List.getElem?_eq_some_iff.mp hns'
  have hordered := List.pairwise_iff_getElem.mp h.ordered
  rcases Nat.lt_or_gt_of_ne hne with hbefore | hafter
  · exact .inl (hordered number other hlt hlt' hbefore)
  · exact .inr (hordered other number hlt' hlt hafter)

/-! ## The memories -/

/-- The memory of the host, and the storage by the distance from its start. -/
structure Memories where
  host : ℕ → UInt8
  storage : ℕ → UInt8

/-- One byte of a copy, with the storage at `base`. -/
def copyByte (base size : ℕ) (mem : Memories) (paired : Direction × ℕ × ℕ) :
    Except Fault Memories :=
  let (direction, host, storage) := paired
  if base ≤ storage ∧ storage < base + size then
    match direction with
    | .toStorage =>
        .ok { mem with
          storage := Function.update mem.storage (storage - base)
            (mem.host host) }
    | .toHost =>
        .ok { mem with
          host := Function.update mem.host host
            (mem.storage (storage - base)) }
  else .error .outOfBounds

/-- A copy or a transfer, byte after byte. -/
def performTransfer (base size : ℕ) (mem : Memories) (transfer : Transfer) :
    Except Fault Memories :=
  transfer.bytes.foldlM (copyByte base size) mem

/-- The copies of a command, as `__do_perform_io` or
`__do_perform_io_using_dma` makes them. -/
def perform (base size : ℕ) (mem : Memories)
    (copies : Except Fault (ℕ × List Transfer)) : Except Fault Memories := do
  let done ← copies
  done.2.foldlM (performTransfer base size) mem

/-- The host stores a byte, or a worker performs a command. -/
inductive Action
  | store (address : ℕ) (byte : UInt8)
  | command (cmd : PrpCommand)

/-- The map `__do_perform_io` uses. -/
def storageMap (nss : List Ns) (storage : Storage) : StorageMap where
  nrNs := nss.length
  mapped := fun nsid => (nss[nsid]?).elim 0 Ns.mapped
  storageStart := storage.start

/-- One action, with or without `io_using_dma`. -/
def memoryStep (nss : List Ns) (storage : Storage) (ioUsingDma : Bool)
    (mem : Memories) : Action → Except Fault Memories
  | .store address byte =>
      .ok { mem with host := Function.update mem.host address byte }
  | .command cmd =>
      if ioUsingDma then
        perform storage.start storage.size mem
          (doPerformIoUsingDma (storageMap nss storage) cmd)
      else
        perform storage.mapped storage.size mem
          (doPerformIo (storageMap nss storage) cmd)

/-- A read, a write or an append inside its namespace. -/
structure Inside (nss : List Ns) (cmd : PrpCommand) : Prop where
  opcode : (directionOf cmd.opcode).isSome
  nsid_pos : 1 ≤ cmd.nsid
  nsid_lt : cmd.nsid < 2 ^ 32
  range : ∃ ns, nss[cmd.nsid - 1]? = some ns ∧
    cmd.slba * 2 ^ 9 + cmd.bytes ≤ ns.size
  aligned : cmd.LaterAligned
  /-- As many entries as one page of the list holds, and the first. -/
  entries : cmd.nrPrps ≤ 512

/-- The host keeps to its namespaces. -/
def Allowed (nss : List Ns) : Action → Prop
  | .store _ _ => True
  | .command cmd => Inside nss cmd

/-! ## The disks -/

/-- A host that has a disk for every namespace. -/
structure Disks where
  host : ℕ → UInt8
  disk : ℕ → ℕ → UInt8

/-- The addresses of the bytes that the entries of a command stand for. -/
def buffer (cmd : PrpCommand) : List ℕ := (cmd.pairsFrom 0 0).map Prod.fst

/-- A write copies the buffer to the disk, a read the disk to the buffer. -/
def diskStep (s : Disks) : Action → Disks
  | .store address byte =>
      { s with host := Function.update s.host address byte }
  | .command cmd =>
      let number := cmd.nsid - 1
      let offset := cmd.slba * 2 ^ 9
      match directionOf cmd.opcode with
      | none => s
      | some .toStorage =>
          { s with
            disk := Function.update s.disk number
              (writeBytes (s.disk number) offset
                ((buffer cmd).map s.host)) }
      | some .toHost =>
          { s with
            host := storeAll s.host ((buffer cmd).zip
              (readBytes (s.disk number) offset cmd.bytes)) }

/-- Each disk is what its namespace shows. -/
structure Shows (nss : List Ns) (storage : Storage) (mem : Memories)
    (s : Disks) : Prop where
  host : mem.host = s.host
  disk : ∀ number ns, nss[number]? = some ns → ∀ offset, offset < ns.size →
    mem.storage (ns.mapped - storage.mapped + offset) = s.disk number offset

/-! ## One command -/

section

variable {base size part : ℕ} {mem : Memories} {cmd : PrpCommand}
variable {direction : Direction}

theorem length_buffer (haligned : cmd.LaterAligned) :
    (buffer cmd).length = cmd.bytes := by
  have hsnd := congrArg List.length
    (@map_snd_scatter (2 ^ 64) pageSize 0 cmd.bytes (cmd.entriesFrom 0)
      (bytes_le_capacity haligned))
  rw [List.length_map, List.length_map, List.length_range] at hsnd
  rw [buffer, List.length_map]
  exact hsnd

/-- The pairs of a range that does not wrap. -/
theorem pairsFrom_eq_zip (haligned : cmd.LaterAligned) {storage : ℕ}
    (hfits : storage + cmd.bytes ≤ 2 ^ 64) :
    cmd.pairsFrom 0 storage =
      (buffer cmd).zip (List.range' storage cmd.bytes) := by
  refine List.zip_of_prod (map_fst_scatter _ _ _ _) ?_
  refine (map_snd_scatter (bytes_le_capacity haligned)).trans ?_
  rw [List.range'_eq_map_range]
  refine List.map_congr_left fun i hi => ?_
  have hlt := List.mem_range.mp hi
  exact Nat.mod_eq_of_lt (by omega)

/-- The bytes of a write are stored one after the other. -/
theorem foldlM_toStorage (pairs : List (ℕ × ℕ))
    (hinside : ∀ pair ∈ pairs, base ≤ pair.2 ∧ pair.2 < base + size)
    (mem : Memories) :
    (pairs.map (Direction.toStorage, ·)).foldlM (copyByte base size) mem =
      .ok { mem with
        storage := storeAll mem.storage
          (pairs.map fun pair => (pair.2 - base, mem.host pair.1)) } := by
  induction pairs generalizing mem with
  | nil => rfl
  | cons pair pairs ih =>
      obtain ⟨hpair, hpairs⟩ := List.forall_mem_cons.mp hinside
      rw [List.map_cons, List.foldlM_cons, copyByte, if_pos hpair, ok_bind,
        ih hpairs]
      rfl

/-- So are those of a read. -/
theorem foldlM_toHost (pairs : List (ℕ × ℕ))
    (hinside : ∀ pair ∈ pairs, base ≤ pair.2 ∧ pair.2 < base + size)
    (mem : Memories) :
    (pairs.map (Direction.toHost, ·)).foldlM (copyByte base size) mem =
      .ok { mem with
        host := storeAll mem.host
          (pairs.map fun pair => (pair.1, mem.storage (pair.2 - base))) } := by
  induction pairs generalizing mem with
  | nil => rfl
  | cons pair pairs ih =>
      obtain ⟨hpair, hpairs⟩ := List.forall_mem_cons.mp hinside
      rw [List.map_cons, List.foldlM_cons, copyByte, if_pos hpair, ok_bind,
        ih hpairs]
      rfl

/-- The copies of a command are those of its bytes. -/
theorem perform_eq {copies : Except Fault (ℕ × List Transfer)}
    {transfers : List Transfer} (hcopies : copies = .ok (cmd.bytes, transfers))
    (mem : Memories) :
    perform base size mem copies =
      (transfers.flatMap Transfer.bytes).foldlM (copyByte base size) mem := by
  rw [perform, hcopies, ok_bind]
  clear hcopies
  induction transfers generalizing mem with
  | nil => rfl
  | cons transfer transfers ih =>
      rw [List.flatMap_cons, List.foldlM_append, List.foldlM_cons]
      exact bind_congr_ok fun next _ => ih next

/-- Addresses that follow each other, from another start. -/
theorem range'_sub (base offset count : ℕ) :
    (List.range' (base + offset) count).map (· - base) =
      List.range' offset count := by
  rw [List.range'_eq_map_range, List.range'_eq_map_range, List.map_map]
  refine List.map_congr_left fun i _ => ?_
  rw [Function.comp_apply, Nat.add_assoc, Nat.add_sub_cancel_left]

/-- A write, `offset` bytes behind the start of the storage. -/
theorem perform_toStorage {copies : Except Fault (ℕ × List Transfer)}
    {transfers : List Transfer} {offset : ℕ} (haligned : cmd.LaterAligned)
    (hfits : base + size < 2 ^ 64) (hroom : offset + cmd.bytes ≤ size)
    (hcopies : copies = .ok (cmd.bytes, transfers))
    (hbytes : transfers.flatMap Transfer.bytes =
      (cmd.pairsFrom 0 (base + offset)).map (Direction.toStorage, ·))
    (mem : Memories) :
    perform base size mem copies =
      .ok { mem with
        storage := writeBytes mem.storage offset
          ((buffer cmd).map mem.host) } := by
  have hstores : ((buffer cmd).zip
        (List.range' (base + offset) cmd.bytes)).map
          (fun pair => (pair.2 - base, mem.host pair.1)) =
      (List.range' offset ((buffer cmd).map mem.host).length).zip
        ((buffer cmd).map mem.host) := by
    rw [List.length_map, length_buffer haligned, ← range'_sub base offset,
      List.zip_map,
      ← List.zip_swap (buffer cmd) (List.range' (base + offset) cmd.bytes),
      List.map_map]
    rfl
  rw [perform_eq hcopies, hbytes, pairsFrom_eq_zip haligned (by omega),
    foldlM_toStorage, hstores, storeAll_range']
  intro pair hpair
  have haddress := List.mem_range'_1.mp (List.of_mem_zip hpair).2
  omega

/-- A read, `offset` bytes behind the start of the storage. -/
theorem perform_toHost {copies : Except Fault (ℕ × List Transfer)}
    {transfers : List Transfer} {offset : ℕ} (haligned : cmd.LaterAligned)
    (hfits : base + size < 2 ^ 64) (hroom : offset + cmd.bytes ≤ size)
    (hcopies : copies = .ok (cmd.bytes, transfers))
    (hbytes : transfers.flatMap Transfer.bytes =
      (cmd.pairsFrom 0 (base + offset)).map (Direction.toHost, ·))
    (mem : Memories) :
    perform base size mem copies =
      .ok { mem with
        host := storeAll mem.host ((buffer cmd).zip
          (readBytes mem.storage offset cmd.bytes)) } := by
  have hread : readBytes mem.storage offset cmd.bytes =
      (List.range' (base + offset) cmd.bytes).map
        fun address => mem.storage (address - base) := by
    rw [readBytes, List.range'_eq_map_range, List.map_map]
    refine List.map_congr_left fun i _ => ?_
    rw [Function.comp_apply, Nat.add_assoc, Nat.add_sub_cancel_left]
  rw [perform_eq hcopies, hbytes, pairsFrom_eq_zip haligned (by omega),
    foldlM_toHost, hread, List.zip_map_right]
  · rfl
  · intro pair hpair
    have haddress := List.mem_range'_1.mp (List.of_mem_zip hpair).2
    omega

end

/-! ## Runs -/

section

variable {nss : List Ns} {storage : Storage} {mem : Memories} {s : Disks}
variable {cmd : PrpCommand} {direction : Direction}

/-- The map and the command agree on the range of a command. -/
theorem Inside.start_eq (hinside : Inside nss cmd) {ns : Ns}
    (hns : nss[cmd.nsid - 1]? = some ns)
    (hcarved : Carved storage.mapped storage.size nss) :
    cmd.start = cmd.slba * 2 ^ 9 ∧ sub32 cmd.nsid 1 = cmd.nsid - 1 ∧
      cmd.nsid - 1 < nss.length ∧
      (storageMap nss storage).mapped (cmd.nsid - 1) = ns.mapped ∧
      ns.mapped - storage.mapped + (cmd.slba * 2 ^ 9 + cmd.bytes) ≤
        storage.size := by
  obtain ⟨ns', hns', hrange⟩ := hinside.range
  obtain rfl := Option.some.inj (hns.symm.trans hns')
  obtain ⟨hlt, hget⟩ := List.getElem?_eq_some_iff.mp hns
  have hpart := hcarved.inside ns (hget ▸ List.getElem_mem hlt)
  have hmapped := storage.mapped_fits
  refine ⟨u64_of_lt (by omega), sub32_of_le hinside.nsid_pos hinside.nsid_lt,
    hlt, ?_, by omega⟩
  exact congrArg (fun found => found.elim 0 Ns.mapped) hns

/-- A command whose bytes go to the part of its namespace acts on its disk. -/
theorem Shows.perform (h : Shows nss storage mem s)
    (hcarved : Carved storage.mapped storage.size nss)
    (hinside : Inside nss cmd) {ns : Ns}
    (hns : nss[cmd.nsid - 1]? = some ns) {base : ℕ}
    (hbase : base + storage.size < 2 ^ 64)
    {copies : Except Fault (ℕ × List Transfer)} {transfers : List Transfer}
    (hdirection : directionOf cmd.opcode = some direction)
    (hcopies : copies = .ok (cmd.bytes, transfers))
    (hbytes : transfers.flatMap Transfer.bytes =
      (cmd.pairsFrom 0
        (base + (ns.mapped - storage.mapped + cmd.slba * 2 ^ 9))).map
          (direction, ·)) :
    ∃ mem', Namespaces.perform base storage.size mem copies = .ok mem' ∧
      Shows nss storage mem' (diskStep s (.command cmd)) := by
  obtain ⟨-, -, -, -, hroom⟩ := hinside.start_eq hns hcarved
  rw [← Nat.add_assoc] at hroom
  have hrange : cmd.slba * 2 ^ 9 + cmd.bytes ≤ ns.size := by
    obtain ⟨ns', hns', hrange⟩ := hinside.range
    rwa [Option.some.inj (hns.symm.trans hns')]
  cases direction with
  | toStorage =>
      refine ⟨_, perform_toStorage hinside.aligned hbase hroom hcopies hbytes
        mem, ?_⟩
      rw [diskStep, hdirection]
      refine ⟨h.host, fun number ns' hns' offset hoffset => ?_⟩
      dsimp only
      rw [h.host]
      by_cases hsame : number = cmd.nsid - 1
      · subst hsame
        obtain rfl := Option.some.inj (hns.symm.trans hns')
        rw [Function.update_self, writeBytes_window]
        exact writeBytes_congr (h.disk _ _ hns offset hoffset) _ _
      · -- The write stays in the part of its namespace.
        rw [Function.update_of_ne hsame, ← h.disk number ns' hns' offset hoffset]
        have hapart := hcarved.apart hsame hns' hns
        have hpart := hcarved.inside ns (List.mem_of_getElem? hns)
        have hpart' := hcarved.inside ns' (List.mem_of_getElem? hns')
        apply writeBytes_outside
        rw [List.length_map, length_buffer hinside.aligned]
        obtain hbefore | hafter := hapart
        · exact .inl (by omega)
        · exact .inr (by omega)
  | toHost =>
      refine ⟨_, perform_toHost hinside.aligned hbase hroom hcopies hbytes mem,
        ?_⟩
      rw [diskStep, hdirection]
      refine ⟨?_, h.disk⟩
      have hread : readBytes mem.storage
            (ns.mapped - storage.mapped + cmd.slba * 2 ^ 9) cmd.bytes =
          readBytes (s.disk (cmd.nsid - 1)) (cmd.slba * 2 ^ 9) cmd.bytes := by
        refine readBytes_congr fun i hi => ?_
        rw [Nat.add_assoc]
        exact h.disk _ _ hns _ (by omega)
      dsimp only
      rw [hread, h.host]

theorem Shows.store (h : Shows nss storage mem s) (address : ℕ)
    (byte : UInt8) :
    Shows nss storage
      { mem with host := Function.update mem.host address byte }
      (diskStep s (.store address byte)) := by
  refine ⟨?_, h.disk⟩
  rw [diskStep, ← h.host]

/-- The copies of a worker act on the disks. -/
theorem Shows.copy_step (h : Shows nss storage mem s)
    (hcarved : Carved storage.mapped storage.size nss) {action : Action}
    (hallowed : Allowed nss action) :
    ∃ mem', memoryStep nss storage false mem action = .ok mem' ∧
      Shows nss storage mem' (diskStep s action) := by
  cases action with
  | store address byte => exact ⟨_, rfl, h.store address byte⟩
  | command cmd =>
      obtain ⟨ns, hns, -⟩ := hallowed.range
      obtain ⟨hstart, hnsid, hlt, hmapped, -⟩ :=
        hallowed.start_eq hns hcarved
      obtain ⟨direction, hdirection⟩ := Option.isSome_iff_exists.mp
        hallowed.opcode
      obtain ⟨transfers, hcopies, hbytes⟩ := doPerformIo_spec
        (storageMap nss storage) hdirection (hnsid ▸ hlt) hallowed.aligned
      have hpart := hcarved.inside ns (List.mem_of_getElem? hns)
      rw [hnsid, hmapped, hstart, ← Nat.add_sub_of_le hpart.1,
        Nat.add_assoc] at hbytes
      exact h.perform hcarved hallowed hns storage.mapped_fits hdirection
        hcopies hbytes

/-- So do the transfers, where the namespace is at the start of the
storage. -/
theorem Shows.dma_step (h : Shows nss storage mem s)
    (hcarved : Carved storage.mapped storage.size nss)
    (hfirst : ∀ ns ∈ nss, 512 ≤ ns.size → ns.mapped = storage.mapped)
    {action : Action} (hallowed : Allowed nss action) :
    ∃ mem', memoryStep nss storage true mem action = .ok mem' ∧
      Shows nss storage mem' (diskStep s action) := by
  cases action with
  | store address byte => exact ⟨_, rfl, h.store address byte⟩
  | command cmd =>
      obtain ⟨ns, hns, hrange⟩ := hallowed.range
      obtain ⟨hstart, -⟩ := hallowed.start_eq hns hcarved
      obtain ⟨direction, hdirection⟩ := Option.isSome_iff_exists.mp
        hallowed.opcode
      obtain ⟨transfers, hcopies, hbytes⟩ := doPerformIoUsingDma_spec
        (storageMap nss storage) hdirection
        (Nat.lt_succ_of_le hallowed.entries) hallowed.aligned
      have hblock : 512 ≤ cmd.bytes :=
        Nat.le_mul_of_pos_left _ (Nat.succ_pos _)
      have hzero : ns.mapped - storage.mapped = 0 := by
        rw [hfirst ns (List.mem_of_getElem? hns) (by omega), Nat.sub_self]
      refine h.perform hcarved hallowed hns storage.start_fits hdirection
        hcopies ?_
      rw [hzero, Nat.zero_add, ← hstart]
      exact hbytes

/-- What every step keeps, a run keeps. -/
theorem Shows.run {ioUsingDma : Bool} {actions : List Action}
    (hstep : ∀ action ∈ actions, ∀ mem s, Shows nss storage mem s →
      ∃ mem', memoryStep nss storage ioUsingDma mem action = .ok mem' ∧
        Shows nss storage mem' (diskStep s action))
    (h : Shows nss storage mem s) :
    ∃ mem', actions.foldlM (memoryStep nss storage ioUsingDma) mem = .ok mem' ∧
      Shows nss storage mem' (actions.foldl diskStep s) := by
  induction actions generalizing mem s with
  | nil => exact ⟨mem, rfl, h⟩
  | cons action actions ih =>
      obtain ⟨hfirst, hrest⟩ := List.forall_mem_cons.mp hstep
      obtain ⟨next, hrun, hnext⟩ := hfirst mem s h
      rw [List.foldlM_cons, hrun, ok_bind]
      exact ih hrest hnext

end

/-- Over any run of host stores and of commands inside their namespaces no copy
leaves the storage, and host and namespaces are as if each namespace were a
disk of its own. -/
def ActsOnDisks (nss : List Ns) (storage : Storage) (ioUsingDma : Bool) :
    Prop :=
  ∀ (mem : Memories) (s : Disks) (actions : List Action),
    Shows nss storage mem s → (∀ action ∈ actions, Allowed nss action) →
    ∃ mem', actions.foldlM (memoryStep nss storage ioUsingDma) mem = .ok mem' ∧
      Shows nss storage mem' (actions.foldl diskStep s)

/-- Whatever the namespaces are configured to be, the copies act on disks. -/
theorem copies_act_on_disks (pbaPcent : ℕ) (hpcent : 100 ≤ pbaPcent)
    (configs : List NsConfig) (storage : Storage) :
    ActsOnDisks (namespaceInit pbaPcent configs storage) storage false := by
  intro mem s actions hshows hallowed
  have hcarved := namespaceInitLoop_carved hpcent configs storage.size
    storage.mapped storage.mapped_fits
  exact hshows.run fun action haction _ _ h =>
    h.copy_step hcarved (hallowed action haction)

/-- Two namespaces with a block each. -/
def twoNamespaces : List NsConfig :=
  [{ ssdType := .nvm, capacity := 1024 }, { ssdType := .zns, capacity := 0 }]

def smallStorage : Storage where
  mapped := 0x1000
  start := 0x2000
  size := 2048
  mapped_fits := by decide
  start_fits := by decide

/-- One block, to or from the page at address 0. -/
def oneBlock (opcode nsid : ℕ) : PrpCommand where
  opcode := opcode
  nsid := nsid
  prp1 := 0
  prp2 := 0
  slba := 0
  length := 0
  prpList := fun _ => 0
  length_lt := by decide

theorem oneBlock_bytes (opcode nsid : ℕ) :
    (oneBlock opcode nsid).bytes = 512 := by
  simp [PrpCommand.bytes, oneBlock]

theorem oneBlock_nrPrps (opcode nsid : ℕ) :
    (oneBlock opcode nsid).nrPrps = 1 := by
  have hrest : (oneBlock opcode nsid).restBytes = 0 := by
    have hpage : (oneBlock opcode nsid).prp1 = 0 := rfl
    rw [PrpCommand.restBytes, oneBlock_bytes, hpage]
    decide
  rw [PrpCommand.nrPrps, hrest]
  decide

theorem oneBlock_inside {opcode : ℕ} (hopcode : (directionOf opcode).isSome)
    {number : ℕ} (hnumber : number + 1 < 2 ^ 32) {nss : List Ns} {ns : Ns}
    (hns : nss[number]? = some ns) (hblock : 512 ≤ ns.size) :
    Inside nss (oneBlock opcode (number + 1)) where
  opcode := hopcode
  nsid_pos := Nat.succ_pos number
  nsid_lt := hnumber
  range := by
    refine ⟨ns, hns, ?_⟩
    rw [oneBlock_bytes, oneBlock, Nat.zero_mul, Nat.zero_add]
    exact hblock
  aligned := by
    intro number hge hle
    rw [oneBlock_nrPrps] at hle
    exact absurd (hge.trans hle) (by decide)
  entries := by
    rw [oneBlock_nrPrps]
    decide

/-- The host has ones in all its memory, and the storage is blank. -/
def onesAtHost : Memories where
  host := fun _ => 1
  storage := fun _ => 0

def blankDisks : Disks where
  host := fun _ => 1
  disk := fun _ _ => 0

theorem blank_shows (nss : List Ns) (storage : Storage) :
    Shows nss storage onesAtHost blankDisks :=
  ⟨rfl, fun _ _ _ _ _ => rfl⟩

/-- The second namespace is written, and the first is read back unchanged. -/
theorem copies_act_on_disks_apart :
    ∃ mem', [Action.command (oneBlock 0x01 2),
          .command (oneBlock 0x02 1)].foldlM
        (memoryStep (namespaceInit 107 twoNamespaces smallStorage)
          smallStorage false) onesAtHost = .ok mem' ∧
      mem'.host 511 = 0 := by
  obtain ⟨mem', hrun, hshows⟩ := copies_act_on_disks 107 (by decide)
    twoNamespaces smallStorage onesAtHost blankDisks
    [.command (oneBlock 0x01 2), .command (oneBlock 0x02 1)]
    (blank_shows _ _) (by
      rw [List.forall_mem_cons, List.forall_mem_singleton]
      exact ⟨oneBlock_inside rfl (by decide) rfl (by decide),
        oneBlock_inside rfl (by decide) rfl (by decide)⟩)
  refine ⟨mem', hrun, ?_⟩
  rw [hshows.host]
  decide +kernel

/-! ## With DMA -/

@[simp]
theorem length_namespaceInitLoop (pbaPcent : ℕ) (configs : List NsConfig)
    (remainingCapacity nsAddr : ℕ) :
    (namespaceInitLoop pbaPcent configs remainingCapacity nsAddr).length =
      configs.length := by
  induction configs generalizing remainingCapacity nsAddr with
  | nil => rfl
  | cons config configs ih => exact congrArg Nat.succ (ih _ _)

/-- The block is on its disk. -/
theorem diskStep_oneBlock {number : ℕ}
    (haligned : (oneBlock 0x01 (number + 1)).LaterAligned) :
    (diskStep blankDisks (.command (oneBlock 0x01 (number + 1)))).disk number
      511 = 1 := by
  have hdirection : directionOf (oneBlock 0x01 (number + 1)).opcode =
      some .toStorage := rfl
  have hnumber : (oneBlock 0x01 (number + 1)).nsid - 1 = number :=
    Nat.add_sub_cancel number 1
  have hoffset : (oneBlock 0x01 (number + 1)).slba * 2 ^ 9 = 0 :=
    Nat.zero_mul _
  rw [diskStep, hdirection, hnumber, hoffset]
  dsimp only
  rw [Function.update_self, writeBytes, if_pos (Nat.zero_le _), Nat.sub_zero,
    List.getElem?_map, List.getElem?_eq_getElem]
  · rfl
  · rw [length_buffer haligned, oneBlock_bytes]
    decide

/-- A block written with DMA to a namespace behind the start of the storage is
not where the namespace shows it. -/
theorem not_actsOnDisks_dma {nss : List Ns} {storage : Storage} {number : ℕ}
    (hnumber : number + 1 < 2 ^ 32)
    (hcarved : Carved storage.mapped storage.size nss) {ns : Ns}
    (hns : nss[number]? = some ns) (hblock : 512 ≤ ns.size)
    (hmapped : ns.mapped ≠ storage.mapped) :
    ¬ ActsOnDisks nss storage true := by
  intro hacts
  have hinside : Inside nss (oneBlock 0x01 (number + 1)) :=
    oneBlock_inside rfl hnumber hns hblock
  have hpart := hcarved.inside ns (List.mem_of_getElem? hns)
  have hdirection : directionOf (oneBlock 0x01 (number + 1)).opcode =
      some .toStorage := rfl
  have hstart : (oneBlock 0x01 (number + 1)).start = 0 := by
    simp [PrpCommand.start, oneBlock, u64]
  have hroom : 0 + (oneBlock 0x01 (number + 1)).bytes ≤ storage.size := by
    rw [oneBlock_bytes]
    omega
  obtain ⟨transfers, hcopies, hbytes⟩ := doPerformIoUsingDma_spec
    (storageMap nss storage) hdirection (Nat.lt_succ_of_le hinside.entries)
    hinside.aligned
  rw [hstart] at hbytes
  have hrun := perform_toStorage hinside.aligned storage.start_fits hroom
    hcopies hbytes onesAtHost
  obtain ⟨mem', hsame, hshows⟩ := hacts onesAtHost blankDisks
    [.command (oneBlock 0x01 (number + 1))] (blank_shows nss storage)
    (List.forall_mem_singleton.mpr hinside)
  rw [List.foldlM_cons, memoryStep, if_pos rfl, hrun, ok_bind] at hsame
  obtain rfl := Except.ok.inj hsame
  -- The last byte of the block is behind what the transfer has reached.
  have hlast := hshows.disk number ns hns 511 (by omega)
  have hreached : ((buffer (oneBlock 0x01 (number + 1))).map
      onesAtHost.host).length = 512 := by
    rw [List.length_map, length_buffer hinside.aligned, oneBlock_bytes]
  dsimp only at hlast
  rw [writeBytes_outside (.inr (by omega)), List.foldl_cons, List.foldl_nil,
    diskStep_oneBlock hinside.aligned] at hlast
  exact absurd hlast (show (0 : UInt8) ≠ 1 by decide)

/-- The transfers do not look at the namespace: they act on disks exactly when
each namespace with a block is at the start of the storage. -/
theorem dma_acts_on_disks_iff (pbaPcent : ℕ) (hpcent : 100 ≤ pbaPcent)
    (configs : List NsConfig) (hcount : configs.length < 2 ^ 31)
    (storage : Storage) :
    ActsOnDisks (namespaceInit pbaPcent configs storage) storage true ↔
      ∀ ns ∈ namespaceInit pbaPcent configs storage, 512 ≤ ns.size →
        ns.mapped = storage.mapped := by
  have hcarved := namespaceInitLoop_carved hpcent configs storage.size
    storage.mapped storage.mapped_fits
  constructor
  · intro hacts ns hmem hblock
    by_contra hmapped
    obtain ⟨number, hns⟩ := List.mem_iff_getElem?.mp hmem
    obtain ⟨hlt, -⟩ := List.getElem?_eq_some_iff.mp hns
    rw [namespaceInit, length_namespaceInitLoop] at hlt
    exact not_actsOnDisks_dma (by omega) hcarved hns hblock hmapped hacts
  · intro hfirst mem s actions hshows hallowed
    exact hshows.run fun action haction _ _ h =>
      h.dma_step hcarved hfirst (hallowed action haction)

/-- With the two namespaces above, a block of the second one is lost. -/
theorem dma_acts_on_disks_iff_two :
    ¬ ActsOnDisks (namespaceInit 107 twoNamespaces smallStorage) smallStorage
      true := by
  intro hacts
  have hfirst := (dma_acts_on_disks_iff 107 (by decide) twoNamespaces
    (by decide) smallStorage).mp hacts
  exact absurd (hfirst { mapped := 0x1400, size := 1024 }
    (List.mem_cons_of_mem _ List.mem_cons_self) (by decide)) (by decide)

end NvmeVirt.Namespaces
