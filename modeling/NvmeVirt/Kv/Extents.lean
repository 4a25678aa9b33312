import NvmeVirt.Kv.Stores

/-!
# The extents of the values

The entries of the table hold extents of the storage area that lie apart.  An
update with more bytes than were set aside, an insertion without room, an
insertion that cuts a lookup off and a key that matches the entry of another
key break this; a run without them keeps it.
-/

namespace NvmeVirt.KvExtents

open NvmeVirt.ByteMap
open NvmeVirt.Kernel
open NvmeVirt.KvAllocators
open NvmeVirt.KvCommands
open NvmeVirt.KvLookup
open NvmeVirt.KvMapping
open NvmeVirt.KvStores
open NvmeVirt.KvTableChanges
open NvmeVirt.Transition

/-- The namespace, with the bytes that were set aside for the entry of each
slot; no function reads `reserved`. -/
structure KvRun where
  ftl : KvFtl
  reserved : ℕ → ℕ

/-- A single command, or a sub-command of a batch. -/
inductive KvAction
  | single (cmd : KvCommand)
  | sub (cmd : SubCmd)

/-- The key and the value of a store. -/
def KvAction.stored? : KvAction → Option (Key × List UInt8)
  | .single cmd =>
      if cmd.opcode = .store then some (cmd.key, storedBytes cmd) else none
  | .sub cmd =>
      if cmd.opcode = kvStoreOpcode then some (cmd.key, cmd.value) else none

/-- The slot an insertion of the key goes to. -/
def NewSlot (cfg : KvConfig) (table : Table) (key : Key) (slot : ℕ) : Prop :=
  if (table (getHashSlot cfg key)).memOffset = none then
    slot = getHashSlot cfg key
  else findNextSlot cfg table (getHashSlot cfg key) =
    .ok (slot, getHashSlot cfg key)

/-- An update of the key in `slot` stays in the bytes that were set aside, and
no other key matches the entry. -/
structure UpdateFits (cfg : KvConfig) (r : KvRun) (key : Key) (length slot : ℕ) :
    Prop where
  length_le : length ≤ r.reserved slot
  own : ∀ other, other ≠ key → ¬ FoundAt cfg r.ftl.table other slot

/-- An insertion finds room, no lookup is cut off, and no other key comes to
the new entry and matches it. -/
structure InsertFits (cfg : KvConfig) (r : KvRun) (key : Key) (length : ℕ) :
    Prop where
  room : r.ftl.allocator.HasRoom length
  length_le : length ≤ r.ftl.allocator.granted length
  uncut : ∀ other offset length, Found cfg r.ftl.table other offset length →
    ¬ GoesOn cfg r.ftl.table other (getHashSlot cfg key)
  own : ∀ other, other ≠ key → ∀ slot, NewSlot cfg r.ftl.table key slot →
    keyMatches { r.ftl.table slot with
      key := copyKey (r.ftl.table slot).key key } other →
    ¬ Visits cfg r.ftl.table other slot ∧
      ¬ GoesOn cfg r.ftl.table other (getHashSlot cfg key)

/-- The condition on a store. -/
structure StoreFits (cfg : KvConfig) (r : KvRun) (key : Key) (length : ℕ) :
    Prop where
  update : ∀ slot, findSlot cfg r.ftl.table key = .ok (some slot) →
    UpdateFits cfg r key length slot
  insert : findSlot cfg r.ftl.table key = .ok none →
    InsertFits cfg r key length

section

variable (cfg : KvConfig) (search : ZeroAreaSearch)

/-- `kv_perform_nvme_io_cmd` for a single command, or one round of the loop of
`__do_perform_kv_batch`. -/
def kvStep (s : KvFtl) : KvAction → Except Fault KvFtl
  | .single cmd => do
      let (_, s) ← doPerformKvIo cfg search s cmd
      return s
  | .sub cmd => doPerformKvBatchedIo cfg search s cmd

/-- What is set aside after a store of `length` bytes, which may have filled a
free slot. -/
def reservedAfter (r : KvRun) (length : ℕ) : ℕ → ℕ := fun p =>
  if (r.ftl.table p).memOffset = none then r.ftl.allocator.granted length
  else r.reserved p

def runStep (r : KvRun) (action : KvAction) : Except Fault KvRun := do
  let ftl ← kvStep cfg search r.ftl action
  match action.stored? with
  | none => return { r with ftl := ftl }
  | some (_, bytes) =>
      return { ftl := ftl, reserved := reservedAfter r bytes.length }

/-- The runs whose stores all meet the condition. -/
def fittingMachine (type : AllocatorType) : Machine KvRun KvAction Fault where
  init r := ∃ storage, kvInitNamespace cfg type storage = .ok r.ftl
  enabled r action := ∀ key bytes, action.stored? = some (key, bytes) →
    StoreFits cfg r key bytes.length
  step := runStep cfg search

/-- What a retrieve command of the key with a buffer of `valueLen` words
returns. -/
def retrieve (s : KvFtl) (key : Key) (valueLen : ℕ) :
    Except Fault KvOutcome := do
  let (outcome, _) ← doPerformKvIo cfg search s
    { opcode := .retrieve, key := key, valueLen := valueLen
      value := fun _ => 0 }
  return outcome

end

/-- The entries hold extents that were handed out, lie apart, and contain the
bytes a retrieve returns. -/
structure Extents (cfg : KvConfig) (r : KvRun) : Prop where
  linked : Linked cfg r.ftl.table
  for_size : r.ftl.allocator.For cfg.storageSize
  owned : ∀ p offset, (r.ftl.table p).memOffset = some offset →
    r.ftl.allocator.Owns offset (r.reserved p)
  inside : ∀ p offset, (r.ftl.table p).memOffset = some offset →
    offset + r.reserved p ≤ cfg.storageSize
  length_le : ∀ p offset, (r.ftl.table p).memOffset = some offset →
    (r.ftl.table p).length ≤ r.reserved p
  apart : ∀ p q offset offset', p ≠ q →
    (r.ftl.table p).memOffset = some offset →
    (r.ftl.table q).memOffset = some offset' →
    Apart offset (r.reserved p) offset' (r.reserved q)
  written : ∀ extent ∈ r.ftl.writes, extent.1 + extent.2 ≤ cfg.storageSize

variable {cfg : KvConfig} {search : ZeroAreaSearch} {type : AllocatorType}

/-! ## Retrieves -/

theorem retrieve_of_missing {s : KvFtl} {key : Key}
    (hfind : findSlot cfg s.table key = .ok none) (valueLen : ℕ) :
    retrieve cfg search s key valueLen = .ok .missing := by
  rw [retrieve, doPerformKvIo, getMappingEntry,
    getMappingEntryByKey_of_none hfind]
  rfl

theorem retrieve_of_found {s : KvFtl} {key : Key} {slot offset : ℕ}
    (hfind : findSlot cfg s.table key = .ok (some slot))
    (hoffset : (s.table slot).memOffset = some offset) (valueLen : ℕ) :
    retrieve cfg search s key valueLen = .ok
      { result := min (s.table slot).length (u32 (valueLen * 4))
        status := none
        data := readBytes s.storage offset
          (min (s.table slot).length (u32 (valueLen * 4))) } := by
  rw [retrieve, doPerformKvIo, getMappingEntry,
    getMappingEntryByKey_of_some hfind, ok_bind]
  dsimp only
  rw [kvRetrieve]
  dsimp only
  rw [hoffset]
  rfl

/-- The lookup of the key ends alike in both states, at an entry with the same
offset, length and bytes. -/
structure Kept (cfg : KvConfig) (s s' : KvFtl) (key : Key) : Prop where
  missing : findSlot cfg s.table key = .ok none →
    findSlot cfg s'.table key = .ok none
  found : ∀ slot offset, findSlot cfg s.table key = .ok (some slot) →
    (s.table slot).memOffset = some offset →
    findSlot cfg s'.table key = .ok (some slot) ∧
      (s'.table slot).memOffset = some offset ∧
      (s'.table slot).length = (s.table slot).length ∧
      ∀ size, size ≤ (s.table slot).length →
        readBytes s'.storage offset size = readBytes s.storage offset size

theorem retrieve_congr {s s' : KvFtl} {key : Key} (hlinked : Linked cfg s.table)
    (hkept : Kept cfg s s' key) (valueLen : ℕ) :
    retrieve cfg search s' key valueLen = retrieve cfg search s key valueLen := by
  obtain ⟨found, hfind⟩ := hlinked.findSlot_ok key
  cases found with
  | none =>
      rw [retrieve_of_missing hfind, retrieve_of_missing (hkept.missing hfind)]
  | some slot =>
      obtain ⟨offset, hoffset⟩ :=
        Option.ne_none_iff_exists'.mp (foundAt_of_findSlot hfind).2.1
      obtain ⟨hfind', hoffset', hlength, hbytes⟩ :=
        hkept.found slot offset hfind hoffset
      rw [retrieve_of_found hfind hoffset, retrieve_of_found hfind' hoffset',
        hlength, hbytes _ (Nat.min_le_left _ _)]

/-! ## Updates -/

/-- After an update the table has the same links, and only the entry that was
updated may have another length. -/
theorem update_table {table table' : Table} {slot length : ℕ}
    (h : table' = table ∨ table' = resize table slot length) :
    SameLinks table table' ∧ (∀ p, p ≠ slot → table' p = table p) ∧
      ((table' slot).length = (table slot).length ∨
        (table' slot).length = length) := by
  obtain rfl | rfl := h
  · exact ⟨fun _ => ⟨rfl, rfl, rfl⟩, fun _ _ => rfl, .inl rfl⟩
  · refine ⟨sameLinks_resize table slot length,
      fun p hp => Function.update_of_ne hp _ _, .inr ?_⟩
    rw [resize, Function.update_self]

theorem reservedAfter_of_some {r : KvRun} {p offset : ℕ} (length : ℕ)
    (h : (r.ftl.table p).memOffset = some offset) :
    reservedAfter r length p = r.reserved p := by
  rw [reservedAfter, if_neg]
  rw [h]
  exact Option.some_ne_none offset

section

variable {r : KvRun} {key : Key} {bytes : List UInt8}

/-- An update that stays in what was set aside keeps the extents. -/
theorem Extents.update {slot offset : ℕ} {table : Table} (h : Extents cfg r)
    (hoffset : (r.ftl.table slot).memOffset = some offset)
    (hlength_le : bytes.length ≤ r.reserved slot)
    (htable : table = r.ftl.table ∨
      table = resize r.ftl.table slot bytes.length) :
    Extents cfg
      { ftl := { storeBytes r.ftl offset bytes with table := table }
        reserved := reservedAfter r bytes.length } := by
  obtain ⟨hlinks, hothers, hlength⟩ := update_table htable
  have hback : ∀ {p offset}, (table p).memOffset = some offset →
      (r.ftl.table p).memOffset = some offset :=
    fun {p offset} hp => (hlinks p).2.1 ▸ hp
  exact {
    linked := linked_of_sameLinks h.linked hlinks
    for_size := h.for_size
    owned := fun p offset hp => by
      dsimp only at hp ⊢
      rw [reservedAfter_of_some _ (hback hp)]
      exact h.owned p offset (hback hp)
    inside := fun p offset hp => by
      dsimp only at hp ⊢
      rw [reservedAfter_of_some _ (hback hp)]
      exact h.inside p offset (hback hp)
    length_le := fun p offset hp => by
      dsimp only at hp ⊢
      rw [reservedAfter_of_some _ (hback hp)]
      by_cases hslot : p = slot
      · rw [hslot] at hp ⊢
        obtain hsame | hnew := hlength
        · rw [hsame]
          exact h.length_le slot offset (hback hp)
        · rw [hnew]
          exact hlength_le
      · rw [hothers p hslot]
        exact h.length_le p offset (hback hp)
    apart := fun p q offset offset' hne hp hq => by
      dsimp only at hp hq ⊢
      rw [reservedAfter_of_some _ (hback hp),
        reservedAfter_of_some _ (hback hq)]
      exact h.apart p q offset offset' hne (hback hp) (hback hq)
    written := fun extent hextent => by
      obtain hold | hnew := List.mem_append.mp hextent
      · exact h.written extent hold
      · rw [List.mem_singleton.mp hnew]
        have hinside := h.inside slot offset hoffset
        dsimp only
        omega }

/-- Such an update keeps the keys that are found elsewhere. -/
theorem Extents.update_keeps {slot offset : ℕ} {table : Table}
    (h : Extents cfg r)
    (hoffset : (r.ftl.table slot).memOffset = some offset)
    (hlength_le : bytes.length ≤ r.reserved slot)
    (htable : table = r.ftl.table ∨
      table = resize r.ftl.table slot bytes.length)
    {other : Key} (hown : ¬ FoundAt cfg r.ftl.table other slot) :
    Kept cfg r.ftl { storeBytes r.ftl offset bytes with table := table }
      other := by
  obtain ⟨hlinks, hothers, -⟩ := update_table htable
  constructor
  · intro hmissing
    exact (hlinks.findSlot_eq other).trans hmissing
  · intro q offset' hfind hq
    have hne : q ≠ slot := by
      rintro rfl
      exact hown (foundAt_of_findSlot hfind)
    refine ⟨(hlinks.findSlot_eq other).trans hfind, ?_, ?_, ?_⟩
    · exact (hlinks q).2.1.trans hq
    · exact congrArg MappingEntry.length (hothers q hne)
    · intro size hsize
      apply readBytes_writeBytes_of_apart
      exact (h.apart slot q offset offset' hne.symm hoffset hq).mono
        hlength_le (hsize.trans (h.length_le q offset' hq))

/-! ## Insertions -/

/-- An insertion with room: the new extent and the new table. -/
theorem Extents.insert_spec {offset : ℕ} {allocator : Allocator} {table : Table}
    (h : Extents cfg r) (hroom : r.ftl.allocator.HasRoom bytes.length)
    (halloc : allocateMemOffsetByLength search r.ftl.allocator bytes.length =
      .ok (offset, allocator))
    (hnew : newMappingEntryByKey cfg r.ftl.table key bytes.length offset =
      .ok table) :
    Allocated cfg.storageSize r.ftl.allocator offset
        (r.ftl.allocator.granted bytes.length) allocator ∧
      ∃ slot, Inserted cfg r.ftl.table key bytes.length offset slot table := by
  refine ⟨?_, newMappingEntryByKey_cases hnew⟩
  have hsize := cfg.storageSize_lt
  obtain ⟨⟨off, allocator'⟩, hallocate, hdone⟩ := bind_eq_ok halloc
  have hspec := allocate_spec h.for_size (by omega) hroom hallocate
  have hne : off ≠ sizeMax := by
    have hle := hspec.le_size
    rw [sizeMax]
    omega
  dsimp only at hdone
  rw [if_neg hne] at hdone
  cases hdone
  exact hspec

/-- An insertion of what was granted keeps the extents. -/
theorem Extents.insert {offset slot : ℕ} {allocator : Allocator} {table : Table}
    (h : Extents cfg r)
    (hlength_le : bytes.length ≤ r.ftl.allocator.granted bytes.length)
    (hspec : Allocated cfg.storageSize r.ftl.allocator offset
      (r.ftl.allocator.granted bytes.length) allocator)
    (hins : Inserted cfg r.ftl.table key bytes.length offset slot table) :
    Extents cfg
      { ftl := { storeBytes { r.ftl with allocator := allocator } offset bytes
          with table := table }
        reserved := reservedAfter r bytes.length } := by
  have hslot : reservedAfter r bytes.length slot =
      r.ftl.allocator.granted bytes.length := if_pos hins.free
  have hfilled : (table slot).memOffset = some offset := by
    rw [hins.filled]
    rfl
  have hback : ∀ {p offset}, p ≠ slot → (table p).memOffset = some offset →
      (r.ftl.table p).memOffset = some offset :=
    fun {p offset} hp hsome => (hins.entry_eq hp).2.1 ▸ hsome
  have hapart : ∀ p offset', p ≠ slot → (table p).memOffset = some offset' →
      Apart offset' (reservedAfter r bytes.length p) offset
        (reservedAfter r bytes.length slot) := by
    intro p offset' hp hsome
    rw [hslot, reservedAfter_of_some _ (hback hp hsome)]
    exact (hspec.keeps _ _ (h.owned p offset' (hback hp hsome))).2
  exact {
    linked := hins.linked h.linked
    for_size := hspec.for_size
    owned := fun p offset' hp => by
      dsimp only at hp ⊢
      by_cases heq : p = slot
      · rw [heq, hfilled] at hp
        cases hp
        rw [heq, hslot]
        exact hspec.owns
      · rw [reservedAfter_of_some _ (hback heq hp)]
        exact (hspec.keeps _ _ (h.owned p offset' (hback heq hp))).1
    inside := fun p offset' hp => by
      dsimp only at hp ⊢
      by_cases heq : p = slot
      · rw [heq, hfilled] at hp
        cases hp
        rw [heq, hslot]
        exact hspec.le_size
      · rw [reservedAfter_of_some _ (hback heq hp)]
        exact h.inside p offset' (hback heq hp)
    length_le := fun p offset' hp => by
      dsimp only at hp ⊢
      by_cases heq : p = slot
      · rw [heq, hslot, hins.filled]
        exact hlength_le
      · rw [reservedAfter_of_some _ (hback heq hp), (hins.entry_eq heq).2.2]
        exact h.length_le p offset' (hback heq hp)
    apart := fun p q offset₁ offset₂ hne hp hq => by
      dsimp only at hp hq ⊢
      by_cases hpslot : p = slot
      · have hqslot : q ≠ slot := fun heq => hne (hpslot.trans heq.symm)
        rw [hpslot, hfilled] at hp
        cases hp
        rw [hpslot]
        exact (hapart q offset₂ hqslot hq).symm
      · by_cases hqslot : q = slot
        · rw [hqslot, hfilled] at hq
          cases hq
          rw [hqslot]
          exact hapart p offset₁ hpslot hp
        · rw [reservedAfter_of_some _ (hback hpslot hp),
            reservedAfter_of_some _ (hback hqslot hq)]
          exact h.apart p q offset₁ offset₂ hne (hback hpslot hp)
            (hback hqslot hq)
    written := fun extent hextent => by
      obtain hold | hnew := List.mem_append.mp hextent
      · exact h.written extent hold
      · rw [List.mem_singleton.mp hnew]
        exact (Nat.add_le_add_left hlength_le offset).trans hspec.le_size }

/-- An insertion keeps a key whose lookup is not cut off and does not come to
a new entry that matches. -/
theorem Extents.insert_keeps {offset slot : ℕ} {allocator : Allocator}
    {table : Table} (h : Extents cfg r)
    (hlength_le : bytes.length ≤ r.ftl.allocator.granted bytes.length)
    (hspec : Allocated cfg.storageSize r.ftl.allocator offset
      (r.ftl.allocator.granted bytes.length) allocator)
    (hins : Inserted cfg r.ftl.table key bytes.length offset slot table)
    {other : Key}
    (huncut : ∀ offset length, Found cfg r.ftl.table other offset length →
      ¬ GoesOn cfg r.ftl.table other (getHashSlot cfg key))
    (hown : ∀ slot, NewSlot cfg r.ftl.table key slot →
      keyMatches { r.ftl.table slot with
        key := copyKey (r.ftl.table slot).key key } other →
      ¬ Visits cfg r.ftl.table other slot ∧
        ¬ GoesOn cfg r.ftl.table other (getHashSlot cfg key)) :
    Kept cfg r.ftl
      { storeBytes { r.ftl with allocator := allocator } offset bytes with
        table := table } other := by
  have hlinked := hins.linked h.linked
  have hnewSlot : NewSlot cfg r.ftl.table key slot := by
    rw [NewSlot]
    split_ifs with hhome
    · exact hins.home hhome
    · exact hins.next hhome
  constructor
  · intro hmissing
    apply hlinked.findSlot_of_not_foundAt
    apply hins.not_foundAt h.linked (not_foundAt_of_findSlot hmissing)
    exact hown slot hnewSlot
  · intro q offset' hfind hq
    have hfoundAt := foundAt_of_findSlot hfind
    have hne : q ≠ slot := fun heq => hfoundAt.2.1 (heq ▸ hins.free)
    have hfound : Found cfg r.ftl.table other offset'
        (r.ftl.table q).length :=
      (h.linked.found_iff _ _ _).mpr ⟨q, hfoundAt, hq, rfl⟩
    obtain ⟨-, hoffset, hlength⟩ := hins.entry_eq hne
    refine ⟨?_, hoffset.trans hq, hlength, ?_⟩
    · exact hlinked.findSlot_of_foundAt (hins.foundAt_of_not_goesOn h.linked
        hfoundAt (huncut offset' _ hfound))
    · intro size hsize
      apply readBytes_writeBytes_of_apart
      have hapart := (hspec.keeps _ _ (h.owned q offset' hq)).2.symm
      exact hapart.mono hlength_le (hsize.trans (h.length_le q offset' hq))

end

/-! ## Runs -/

/-- A command that stores nothing copies no value, and at most clears an
entry. -/
theorem kvStep_other {s s' : KvFtl} {action : KvAction}
    (hother : action.stored? = none)
    (hstep : kvStep cfg search s action = .ok s') :
    s'.allocator = s.allocator ∧ s'.writes = s.writes ∧
      (s'.table = s.table ∨ ∃ slot, Deleted s.table slot s'.table) := by
  cases action with
  | single cmd =>
      obtain ⟨⟨outcome, after⟩, hrun, hdone⟩ := bind_eq_ok hstep
      cases hdone
      obtain ⟨entry, hget, hrun⟩ := bind_eq_ok hrun
      cases hopcode : cmd.opcode with
      | store =>
          rw [KvAction.stored?, if_pos hopcode] at hother
          cases hother
      | append | retrieve | exist =>
          rw [hopcode] at hrun
          cases hrun
          exact ⟨rfl, rfl, .inl rfl⟩
      | delete =>
          rw [hopcode] at hrun
          dsimp only at hrun
          split_ifs at hrun
          · cases hrun
            exact ⟨rfl, rfl, .inl rfl⟩
          · obtain ⟨⟨cleared, table⟩, hdelete, hdone⟩ := bind_eq_ok hrun
            cases hdone
            refine ⟨rfl, rfl, ?_⟩
            obtain ⟨-, hsame⟩ | ⟨slot, -, hdeleted⟩ :=
              deleteMappingEntry_cases hdelete
            · exact .inl hsame
            · exact .inr ⟨slot, hdeleted⟩
  | sub cmd =>
      obtain ⟨entry, hget, hrun⟩ := bind_eq_ok hstep
      by_cases hopcode : cmd.opcode = kvStoreOpcode
      · rw [KvAction.stored?, if_pos hopcode] at hother
        cases hother
      · rw [if_neg hopcode] at hrun
        cases hrun
        exact ⟨rfl, rfl, .inl rfl⟩

/-- A store, by either path. -/
theorem kvStep_stored {s s' : KvFtl} {action : KvAction} {key : Key}
    {bytes : List UInt8} (hstored : action.stored? = some (key, bytes))
    (hstep : kvStep cfg search s action = .ok s') :
    Stored cfg search s key bytes s' := by
  cases action with
  | single cmd =>
      obtain ⟨⟨outcome, after⟩, hrun, hdone⟩ := bind_eq_ok hstep
      cases hdone
      rw [KvAction.stored?] at hstored
      split_ifs at hstored with hopcode
      cases hstored
      exact stored_of_doPerformKvIo hopcode hrun
  | sub cmd =>
      rw [KvAction.stored?] at hstored
      split_ifs at hstored with hopcode
      cases hstored
      exact stored_of_doPerformKvBatchedIo hopcode hstep

/-- Commands that store nothing keep the extents. -/
theorem Extents.other {r : KvRun} {ftl : KvFtl} (h : Extents cfg r)
    (hallocator : ftl.allocator = r.ftl.allocator)
    (hwrites : ftl.writes = r.ftl.writes)
    (htable : ftl.table = r.ftl.table ∨
      ∃ slot, Deleted r.ftl.table slot ftl.table) :
    Extents cfg { r with ftl := ftl } := by
  have hlinked : Linked cfg ftl.table := by
    obtain hsame | ⟨slot, hdeleted⟩ := htable
    · rw [hsame]
      exact h.linked
    · exact hdeleted.linked h.linked
  have hback : ∀ {p offset}, (ftl.table p).memOffset = some offset →
      ftl.table p = r.ftl.table p := by
    intro p offset hp
    obtain hsame | ⟨slot, hdeleted⟩ := htable
    · rw [hsame]
    · apply hdeleted.others
      rintro rfl
      rw [hdeleted.cleared] at hp
      cases hp
  exact {
    linked := hlinked
    for_size := hallocator ▸ h.for_size
    owned := fun p offset hp => by
      dsimp only at hp ⊢
      rw [hallocator]
      exact h.owned p offset (hback hp ▸ hp)
    inside := fun p offset hp => h.inside p offset (hback hp ▸ hp)
    length_le := fun p offset hp => by
      have hsame := hback hp
      dsimp only at hp ⊢
      rw [hsame] at hp ⊢
      exact h.length_le p offset hp
    apart := fun p q offset offset' hne hp hq =>
      h.apart p q offset offset' hne (hback hp ▸ hp) (hback hq ▸ hq)
    written := hwrites ▸ h.written }

/-- A store that fits keeps the extents and what other keys return. -/
theorem Extents.stored {r : KvRun} {ftl : KvFtl} {key : Key}
    {bytes : List UInt8} (h : Extents cfg r)
    (hfits : StoreFits cfg r key bytes.length)
    (hstored : Stored cfg search r.ftl key bytes ftl) :
    Extents cfg { ftl := ftl, reserved := reservedAfter r bytes.length } ∧
      ∀ other, other ≠ key → ∀ valueLen,
        retrieve cfg search ftl other valueLen =
          retrieve cfg search r.ftl other valueLen := by
  cases hstored with
  | @update slot offset table hfind hoffset htable =>
      have hupdate := hfits.update slot hfind
      exact ⟨h.update hoffset hupdate.length_le htable,
        fun other hother => retrieve_congr h.linked
          (h.update_keeps hoffset hupdate.length_le htable
            (hupdate.own other hother))⟩
  | insert hfind halloc hnew =>
      have hinsert := hfits.insert hfind
      obtain ⟨hspec, slot, hins⟩ := h.insert_spec hinsert.room halloc hnew
      exact ⟨h.insert hinsert.length_le hspec hins,
        fun other hother => retrieve_congr h.linked
          (h.insert_keeps hinsert.length_le hspec hins (hinsert.uncut other)
            (hinsert.own other hother))⟩

/-- One step of a run whose stores fit. -/
theorem Extents.step {r r' : KvRun} {action : KvAction} (h : Extents cfg r)
    (hfits : ∀ key bytes, action.stored? = some (key, bytes) →
      StoreFits cfg r key bytes.length)
    (hstep : runStep cfg search r action = .ok r') : Extents cfg r' := by
  obtain ⟨ftl, hkv, hdone⟩ := bind_eq_ok hstep
  cases hstored : action.stored? with
  | none =>
      rw [hstored] at hdone
      cases hdone
      obtain ⟨hallocator, hwrites, htable⟩ := kvStep_other hstored hkv
      exact h.other hallocator hwrites htable
  | some pair =>
      obtain ⟨key, bytes⟩ := pair
      rw [hstored] at hdone
      cases hdone
      exact (h.stored (hfits key bytes hstored)
        (kvStep_stored hstored hkv)).1

theorem extents_of_init {r : KvRun} {storage : ℕ → UInt8}
    (hinit : kvInitNamespace cfg type storage = .ok r.ftl) :
    Extents cfg r := by
  obtain ⟨ftl, reserved⟩ := r
  obtain ⟨allocator, halloc, hdone⟩ := bind_eq_ok hinit
  cases hdone
  exact {
    linked := linked_initTable
    for_size := allocatorInit_for halloc
    owned := fun p offset hp => absurd hp.symm (Option.some_ne_none offset)
    inside := fun p offset hp => absurd hp.symm (Option.some_ne_none offset)
    length_le := fun p offset hp => absurd hp.symm (Option.some_ne_none offset)
    apart := fun p q offset offset' _ hp =>
      absurd hp.symm (Option.some_ne_none offset)
    written := fun extent hextent => absurd hextent List.not_mem_nil }

theorem reachable_extents {r : KvRun}
    (hreach : Reachable (fittingMachine cfg search type) r) :
    Extents cfg r := by
  apply hreach.invariant (Extents cfg)
  · rintro start ⟨storage, hinit⟩
    exact extents_of_init hinit
  · intro before action after hbefore henabled hstep
    exact hbefore.step henabled hstep

/-- In a run whose stores fit, a store leaves what a retrieve of any other key
returns, and all values were copied into the storage area. -/
theorem store_spares_others {r r' : KvRun} {action : KvAction} {key : Key}
    {bytes : List UInt8}
    (hreach : Reachable (fittingMachine cfg search type) r)
    (hstored : action.stored? = some (key, bytes))
    (hfits : StoreFits cfg r key bytes.length)
    (hstep : runStep cfg search r action = .ok r') :
    (∀ other, other ≠ key → ∀ valueLen,
        retrieve cfg search r'.ftl other valueLen =
          retrieve cfg search r.ftl other valueLen) ∧
      ∀ extent ∈ r'.ftl.writes, extent.1 + extent.2 ≤ cfg.storageSize := by
  have hextents := reachable_extents hreach
  obtain ⟨ftl, hkv, hdone⟩ := bind_eq_ok hstep
  rw [hstored] at hdone
  cases hdone
  obtain ⟨hafter, hspares⟩ :=
    hextents.stored hfits (kvStep_stored hstored hkv)
  exact ⟨hspares, hafter.written⟩

theorem seven_pos : 0 < 7 := by decide

theorem seven_slots_lt : 7 < 2 ^ 31 := by decide

def sevenSlots : KvConfig := ⟨7, 4096, seven_pos, seven_slots_lt, storage_lt⟩

/-- A store command of `words` words that hold the same byte. -/
def storeOf (key : Key) (words : ℕ) (byte : UInt8) : KvAction :=
  .single { opcode := .store, key := key, valueLen := words, value := fun _ => byte }

/-- Without links a lookup stays in the hash slot of its key. -/
theorem visits_of_unlinked {cfg : KvConfig} {table : Table} {key : Key}
    {slot : ℕ} (hlinks : ∀ p, (table p).nextSlot = none)
    (h : Visits cfg table key slot) : slot = getHashSlot cfg key := by
  obtain rfl | ⟨next, hnext, -⟩ := Relation.ReflTransGen.cases_head h
  · rfl
  · rw [hop, hlinks] at hnext
    split_ifs at hnext

/-- The other keys that match an entry of one of these keys have other hash
slots. -/
theorem prefix_slots : ∀ byte ∈ [100, 120], ∀ n : Fin 17,
    (copyKey initEntry.key (oneByte byte)).take n ≠ (oneByte byte).bytes →
    ((copyKey initEntry.key (oneByte byte)).take n).foldl
        (fun h byte => u32 (h * 16777619) ^^^ byte.toNat) 2166136261 % 7 ≠
      getHashSlot sevenSlots (oneByte byte) := by
  decide +kernel

theorem hash_ne_of_keyMatches {byte : UInt8} {other : Key} {entry : MappingEntry}
    (hbyte : byte ∈ [100, 120])
    (hentry : entry.key = copyKey initEntry.key (oneByte byte))
    (hother : other ≠ oneByte byte) (hmatch : keyMatches entry other) :
    getHashSlot sevenSlots (oneByte byte) ≠ getHashSlot sevenSlots other := by
  obtain ⟨bytes, hle⟩ := other
  rw [keyMatches, hentry] at hmatch
  have hbytes : (copyKey initEntry.key (oneByte byte)).take bytes.length =
      bytes := of_decide_eq_true hmatch
  intro hslot
  apply prefix_slots byte hbyte ⟨bytes.length, Nat.lt_succ_of_le hle⟩
  · intro heq
    apply hother
    rw [oneByte, Key.mk.injEq]
    exact hbytes.symm.trans heq
  · dsimp only
    rw [hbytes, hslot]
    rfl

section

variable {r : KvRun} {byte : UInt8} {length : ℕ}

theorem insertFits_of_unlinked (hbyte : byte ∈ [100, 120])
    (hlinks : ∀ p, (r.ftl.table p).nextSlot = none)
    (hhome : r.ftl.table (getHashSlot sevenSlots (oneByte byte)) = initEntry)
    (hroom : r.ftl.allocator.HasRoom length)
    (hgranted : length ≤ r.ftl.allocator.granted length) :
    InsertFits sevenSlots r (oneByte byte) length where
  room := hroom
  length_le := hgranted
  uncut other _ _ _ hgoes := by
    have hfree := hgoes.2.1
    rw [hhome] at hfree
    exact hfree rfl
  own other hother slot hslot hmatch := by
    have hfree : (r.ftl.table
        (getHashSlot sevenSlots (oneByte byte))).memOffset = none := by
      rw [hhome]
      rfl
    rw [NewSlot, if_pos hfree] at hslot
    rw [hslot, hhome] at hmatch
    refine ⟨fun hvisits => ?_, fun hgoes => hgoes.2.1 hfree⟩
    have hne := hash_ne_of_keyMatches hbyte rfl hother hmatch
    exact hne (hslot.symm.trans (visits_of_unlinked hlinks hvisits))

theorem updateFits_of_unlinked (hbyte : byte ∈ [100, 120])
    (hlinks : ∀ p, (r.ftl.table p).nextSlot = none)
    (hhome : (r.ftl.table (getHashSlot sevenSlots (oneByte byte))).key =
      copyKey initEntry.key (oneByte byte))
    (hreserved : length ≤
      r.reserved (getHashSlot sevenSlots (oneByte byte))) :
    UpdateFits sevenSlots r (oneByte byte) length
      (getHashSlot sevenSlots (oneByte byte)) where
  length_le := hreserved
  own other hother hfound := by
    have hne := hash_ne_of_keyMatches hbyte hhome hother hfound.2.2
    exact hne (visits_of_unlinked hlinks hfound.1)

end

/-- The namespace before its first command. -/
def firstRun : KvRun :=
  { ftl :=
      { table := initTable
        allocator := .appendOnly (appendOnlyAllocatorInit 4096)
        storage := fun _ => 0
        writes := [] }
    reserved := fun _ => 0 }

/-- The namespace after a command. -/
def afterStore (r : KvRun) (action : KvAction) : KvRun :=
  match runStep sevenSlots firstZero r action with
  | .ok r' => r'
  | .error _ => r

theorem runStep_afterStore {r : KvRun} {action : KvAction}
    (hok : (runStep sevenSlots firstZero r action).isOk) :
    runStep sevenSlots firstZero r action = .ok (afterStore r action) := by
  obtain ⟨r', hstep⟩ := exists_of_isOk hok
  rw [afterStore, hstep]

/-- Eight bytes for one key. -/
def oneStored : KvRun := afterStore firstRun (storeOf (oneByte 100) 2 7)

/-- Four bytes for another one. -/
def twoStored : KvRun := afterStore oneStored (storeOf (oneByte 120) 1 8)

theorem oneStored_table : oneStored.ftl.table =
    Function.update initTable (getHashSlot sevenSlots (oneByte 100))
      (fillEntry initEntry (oneByte 100) 8 0) := rfl

theorem twoStored_table : twoStored.ftl.table =
    Function.update oneStored.ftl.table (getHashSlot sevenSlots (oneByte 120))
      (fillEntry initEntry (oneByte 120) 4 8) := rfl

theorem twoStored_unlinked (p : ℕ) :
    (oneStored.ftl.table p).nextSlot = none ∧
      (twoStored.ftl.table p).nextSlot = none := by
  have hone : (oneStored.ftl.table p).nextSlot = none := by
    rw [oneStored_table, Function.update_apply]
    split_ifs <;> rfl
  refine ⟨hone, ?_⟩
  rw [twoStored_table, Function.update_apply]
  split_ifs
  · rfl
  · exact hone

theorem reachable_twoStored :
    Reachable (fittingMachine sevenSlots firstZero .appendOnly) twoStored := by
  have hfirst : Reachable (fittingMachine sevenSlots firstZero .appendOnly)
      firstRun := .start ⟨fun _ => 0, rfl⟩
  have hone : Reachable (fittingMachine sevenSlots firstZero .appendOnly)
      oneStored := by
    refine hfirst.next ?_ (runStep_afterStore (by decide +kernel))
    intro key bytes hstored
    have hvalue : (storeOf (oneByte 100) 2 7).stored? =
      some (oneByte 100, [7, 7, 7, 7, 7, 7, 7, 7]) := by decide +kernel
    rw [hvalue] at hstored
    cases hstored
    exact {
      update := fun slot hfind => by cases hfind
      insert := fun _ => insertFits_of_unlinked (by decide) (fun _ => rfl) rfl
        (show 0 + 8 ≤ 4096 by decide) le_rfl }
  refine hone.next ?_ (runStep_afterStore (by decide +kernel))
  intro key bytes hstored
  have hvalue : (storeOf (oneByte 120) 1 8).stored? =
    some (oneByte 120, [8, 8, 8, 8]) := by decide +kernel
  rw [hvalue] at hstored
  cases hstored
  exact {
    update := fun slot hfind => by cases hfind
    insert := fun _ => insertFits_of_unlinked (by decide)
      (fun p => (twoStored_unlinked p).1) rfl
      (show 8 + 4 ≤ 4096 by decide) le_rfl }

/-- A shorter value for the first key leaves that of the second one. -/
theorem store_spares_others_update :
    ∃ r', runStep sevenSlots firstZero twoStored (storeOf (oneByte 100) 1 9) =
        .ok r' ∧
      retrieve sevenSlots firstZero twoStored.ftl (oneByte 120) 1 =
        .ok { result := 4, status := none, data := [8, 8, 8, 8] } ∧
      (∀ other, other ≠ oneByte 100 → ∀ valueLen,
        retrieve sevenSlots firstZero r'.ftl other valueLen =
          retrieve sevenSlots firstZero twoStored.ftl other valueLen) ∧
      ∀ extent ∈ r'.ftl.writes, extent.1 + extent.2 ≤ sevenSlots.storageSize := by
  have hstored : (storeOf (oneByte 100) 1 9).stored? =
      some (oneByte 100, [9, 9, 9, 9]) := by decide +kernel
  have hfits : StoreFits sevenSlots twoStored (oneByte 100) 4 := {
    update := fun slot hfind => by
      have hfound : findSlot sevenSlots twoStored.ftl.table (oneByte 100) =
          .ok (some (getHashSlot sevenSlots (oneByte 100))) := by
        decide +kernel
      cases hfound.symm.trans hfind
      exact updateFits_of_unlinked (by decide)
        (fun p => (twoStored_unlinked p).2) (by decide +kernel)
        (by decide +kernel)
    insert := fun hfind => by
      have hfound : findSlot sevenSlots twoStored.ftl.table (oneByte 100) =
          .ok (some (getHashSlot sevenSlots (oneByte 100))) := by
        decide +kernel
      cases hfound.symm.trans hfind }
  have hstep : runStep sevenSlots firstZero twoStored
      (storeOf (oneByte 100) 1 9) = .ok _ :=
    runStep_afterStore (by decide +kernel)
  exact ⟨_, hstep, by decide +kernel,
    store_spares_others reachable_twoStored hstored hfits hstep⟩

/-- An update that is longer than the value that was inserted overwrites the
next value. -/
theorem longer_update_overwrites_next :
    ∃ s₀ s₁ s₂ s₃, kvInitNamespace threeSlots .appendOnly (fun _ => 0) = .ok s₀ ∧
      kvStep threeSlots firstZero s₀ (storeOf (oneByte 97) 1 1) = .ok s₁ ∧
      kvStep threeSlots firstZero s₁ (storeOf (oneByte 99) 1 2) = .ok s₂ ∧
      kvStep threeSlots firstZero s₂ (storeOf (oneByte 97) 2 3) = .ok s₃ ∧
      retrieve threeSlots firstZero s₂ (oneByte 99) 1 =
        .ok { result := 4, status := none, data := [2, 2, 2, 2] } ∧
      retrieve threeSlots firstZero s₃ (oneByte 99) 1 =
        .ok { result := 4, status := none, data := [3, 3, 3, 3] } := by
  have hruns : (do
      let s₀ ← kvInitNamespace threeSlots .appendOnly fun _ => 0
      let s₁ ← kvStep threeSlots firstZero s₀ (storeOf (oneByte 97) 1 1)
      let s₂ ← kvStep threeSlots firstZero s₁ (storeOf (oneByte 99) 1 2)
      let s₃ ← kvStep threeSlots firstZero s₂ (storeOf (oneByte 97) 2 3)
      let before ← retrieve threeSlots firstZero s₂ (oneByte 99) 1
      let after ← retrieve threeSlots firstZero s₃ (oneByte 99) 1
      return (before, after)) =
        .ok ({ result := 4, status := none, data := [2, 2, 2, 2] },
          { result := 4, status := none, data := [3, 3, 3, 3] }) := by
    decide +kernel
  obtain ⟨s₀, hinit, hruns⟩ := bind_eq_ok hruns
  obtain ⟨s₁, hfirst, hruns⟩ := bind_eq_ok hruns
  obtain ⟨s₂, hsecond, hruns⟩ := bind_eq_ok hruns
  obtain ⟨s₃, hupdate, hruns⟩ := bind_eq_ok hruns
  obtain ⟨before, hbefore, hruns⟩ := bind_eq_ok hruns
  obtain ⟨after, hafter, hdone⟩ := bind_eq_ok hruns
  cases hdone
  exact ⟨s₀, s₁, s₂, s₃, hinit, hfirst, hsecond, hupdate, hbefore, hafter⟩

end NvmeVirt.KvExtents
