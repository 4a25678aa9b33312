import NvmeVirt.Core.WriteLog
import NvmeVirt.Kv.Extents
import NvmeVirt.Kv.Payload

/-!
# Batches and single commands

A batch of stores does what the single store commands do, one after the other,
apart from the lengths of entries: it does not call `update_mapping_entry`.  So
the states agree exactly when the last resize of every entry, done by the
single commands, gives back the length the entry has.
-/

namespace NvmeVirt.KvBatches

open NvmeVirt.ByteMap
open NvmeVirt.Kernel
open NvmeVirt.KvAllocators
open NvmeVirt.KvCommands
open NvmeVirt.KvExtents
open NvmeVirt.KvLookup
open NvmeVirt.KvMapping
open NvmeVirt.KvPayload
open NvmeVirt.KvStores
open NvmeVirt.KvTableChanges
open NvmeVirt.Transition
open NvmeVirt.WriteLog

/-- The single command that stores what a sub-command stores. -/
def asStore (sub : SubCmd) : KvCommand :=
  { opcode := .store
    key := sub.key
    valueLen := sub.value.length / 4
    value := fun i => sub.value.getD i 0 }

section

variable (cfg : KvConfig) (search : ZeroAreaSearch)

/-- The stores as single commands, in order. -/
def storeEach (s : KvFtl) (subs : List SubCmd) : Except Fault KvFtl :=
  subs.foldlM (fun s sub => kvStep cfg search s (.single (asStore sub))) s

/-- An update of at most `SMALL_LENGTH` bytes of an entry of at most
`SMALL_LENGTH` bytes: the slot, the length of the entry and the one of the
update. -/
def smallUpdate (table : Table) (sub : SubCmd) : List (ℕ × ℕ × ℕ) :=
  match findSlot cfg table sub.key with
  | .ok (some slot) =>
      if sub.value.length ≤ smallLength ∧ (table slot).length ≤ smallLength then
        [(slot, (table slot).length, sub.value.length)]
      else []
  | _ => []

/-- The small updates of a batch, in order. -/
def smallUpdates : KvFtl → List SubCmd → List (ℕ × ℕ × ℕ)
  | _, [] => []
  | s, sub :: subs =>
      smallUpdate cfg s.table sub ++
        match doPerformKvBatchedIo cfg search s sub with
        | .ok s' => smallUpdates s' subs
        | .error _ => []

end

variable {cfg : KvConfig} {search : ZeroAreaSearch}

/-! ## Other lengths -/

/-- The table with other lengths. -/
def relength (table : Table) (lengths : ℕ → ℕ) : Table :=
  fun p => { table p with length := lengths p }

theorem sameLinks_relength (table : Table) (lengths : ℕ → ℕ) :
    SameLinks table (relength table lengths) := fun _ => ⟨rfl, rfl, rfl⟩

theorem findSlot_relength (table : Table) (lengths : ℕ → ℕ) (key : Key) :
    findSlot cfg (relength table lengths) key = findSlot cfg table key :=
  (sameLinks_relength table lengths).findSlot_eq key

theorem freeSlotFrom_relength (table : Table) (lengths : ℕ → ℕ)
    (fuel slot : ℕ) :
    freeSlotFrom cfg (relength table lengths) fuel slot =
      freeSlotFrom cfg table fuel slot := by
  induction fuel generalizing slot with
  | zero => rfl
  | succ fuel ih => rw [freeSlotFrom, freeSlotFrom, ih]; rfl

theorem findNextSlot_relength (table : Table) (lengths : ℕ → ℕ) (slot : ℕ) :
    findNextSlot cfg (relength table lengths) slot =
      findNextSlot cfg table slot := by
  rw [findNextSlot, findNextSlot, freeSlotFrom_relength]

/-- The lengths after an insertion: filled slots have their new lengths. -/
def keptLengths (table : Table) (lengths : ℕ → ℕ) (table' : Table) : ℕ → ℕ :=
  fun p => if (table p).memOffset = none then (table' p).length else lengths p

theorem fill_relength {table : Table} {lengths : ℕ → ℕ} {slot : ℕ}
    (hfree : ∀ p, (table p).memOffset = none → lengths p = (table p).length)
    (hslot : (table slot).memOffset = none) (key : Key)
    (valLen valOffset : ℕ) :
    Function.update (relength table lengths) slot
        (fillEntry (relength table lengths slot) key valLen valOffset) =
      relength (Function.update table slot
          (fillEntry (table slot) key valLen valOffset))
        (keptLengths table lengths (Function.update table slot
          (fillEntry (table slot) key valLen valOffset))) := by
  funext p
  by_cases hp : p = slot
  · subst hp
    rw [Function.update_self, relength, relength, keptLengths, if_pos hslot,
      Function.update_self]
    rfl
  · rw [Function.update_of_ne hp, relength, relength, keptLengths,
      Function.update_of_ne hp]
    by_cases hnone : (table p).memOffset = none
    · rw [if_pos hnone, hfree p hnone]
    · rw [if_neg hnone]

theorem chainMapping_relength (table before : Table) (lengths : ℕ → ℕ)
    (prev slot : ℕ) :
    chainMapping (relength table (keptLengths before lengths table)) prev slot =
      relength (chainMapping table prev slot)
        (keptLengths before lengths (chainMapping table prev slot)) := by
  funext p
  by_cases hp : p = prev
  · subst hp
    rw [chainMapping, Function.update_self, relength, relength, keptLengths,
      keptLengths, chainMapping, Function.update_self]
  · rw [chainMapping, Function.update_of_ne hp, relength, relength,
      keptLengths, keptLengths, chainMapping, Function.update_of_ne hp]

/-- An insertion does not look at lengths, and leaves those of the entries that
are there. -/
theorem newMappingEntryByKey_relength {table : Table} {lengths : ℕ → ℕ}
    (hfree : ∀ p, (table p).memOffset = none → lengths p = (table p).length)
    (key : Key) (valLen valOffset : ℕ) :
    newMappingEntryByKey cfg (relength table lengths) key valLen valOffset =
      (do
        let table' ← newMappingEntryByKey cfg table key valLen valOffset
        return relength table' (keptLengths table lengths table')) := by
  rw [newMappingEntryByKey, newMappingEntryByKey, bind_assoc]
  apply bind_congr
  intro _
  have hoffset : (relength table lengths (getHashSlot cfg key)).memOffset =
      (table (getHashSlot cfg key)).memOffset := rfl
  dsimp only
  rw [hoffset, findNextSlot_relength]
  by_cases hhome : (table (getHashSlot cfg key)).memOffset = none
  · rw [if_pos hhome, if_pos hhome, fill_relength hfree hhome]
    rfl
  · rw [if_neg hhome, if_neg hhome, bind_assoc]
    apply bind_congr_ok
    rintro ⟨slot, prevSlot⟩ hnext
    obtain ⟨retSlot, hret, hdone⟩ := bind_eq_ok hnext
    cases hdone
    have hslot := (freeSlotFrom_spec (getHashSlot_lt cfg key) hret).2
    dsimp only
    rw [fill_relength hfree hslot, chainMapping_relength]
    rfl

/-! ## The lengths the single commands leave -/

variable {log : List (ℕ × ℕ × ℕ)} {table : Table} {s : KvFtl}

/-- The small updates of entries that are there, with the lengths they have. -/
def Based (log : List (ℕ × ℕ × ℕ)) (table : Table) : Prop :=
  ∀ p base length, lastWrite log p = some (base, length) →
    (table p).memOffset ≠ none ∧ (table p).length = base ∧
      base ≤ smallLength ∧ length ≤ smallLength

/-- The length the last small update gave an entry. -/
def resized (log : List (ℕ × ℕ × ℕ)) (table : Table) (p : ℕ) : ℕ :=
  match lastWrite log p with
  | some (_, length) => length
  | none => (table p).length

/-- The state of the single commands, from the one of the batch. -/
def afterSingles (log : List (ℕ × ℕ × ℕ)) (s : KvFtl) : KvFtl :=
  { s with table := relength s.table (resized log s.table) }

theorem based_nil (table : Table) : Based [] table := by
  intro p base length h
  cases h

theorem resized_of_none {p : ℕ} (h : lastWrite log p = none) :
    resized log table p = (table p).length := by
  rw [resized, h]

theorem resized_of_some {p base length : ℕ}
    (h : lastWrite log p = some (base, length)) :
    resized log table p = length := by
  rw [resized, h]

/-- A free slot was not updated. -/
theorem Based.lastWrite_of_free (h : Based log table) {p : ℕ}
    (hfree : (table p).memOffset = none) : lastWrite log p = none := by
  cases hlast : lastWrite log p with
  | none => rfl
  | some pair => exact absurd hfree (h p pair.1 pair.2 hlast).1

theorem Based.resized_le_iff (h : Based log table) (p : ℕ) :
    resized log table p ≤ smallLength ↔ (table p).length ≤ smallLength := by
  cases hlast : lastWrite log p with
  | none => rw [resized_of_none hlast]
  | some pair =>
      obtain ⟨-, hbase, hbaseLe, hle⟩ := h p pair.1 pair.2 hlast
      rw [resized_of_some hlast, hbase]
      exact ⟨fun _ => hbaseLe, fun _ => hle⟩

section

variable {key : Key} {bytes : List UInt8}

/-- An insertion leaves the entries that were updated. -/
theorem Based.inserted (h : Based log table) {table' : Table}
    {valLen valOffset slot : ℕ}
    (hins : Inserted cfg table key valLen valOffset slot table') :
    Based log table' ∧
      keptLengths table (resized log table) table' = resized log table' := by
  have hslot := h.lastWrite_of_free hins.free
  constructor
  · intro p base length hlast
    have hp : p ≠ slot := by
      rintro rfl
      rw [hslot] at hlast
      cases hlast
    obtain ⟨-, hoffset, hlength⟩ := hins.entry_eq hp
    rw [hoffset, hlength]
    exact h p base length hlast
  · funext p
    rw [keptLengths]
    by_cases hnone : (table p).memOffset = none
    · rw [if_pos hnone, resized_of_none (h.lastWrite_of_free hnone)]
    · have hp : p ≠ slot := fun heq => hnone (heq ▸ hins.free)
      obtain ⟨-, -, hlength⟩ := hins.entry_eq hp
      rw [if_neg hnone, resized, resized, hlength]

theorem insertValue_afterSingles (h : Based log s.table) :
    insertValue cfg search (afterSingles log s) key bytes = (do
      let s' ← insertValue cfg search s key bytes
      return afterSingles log s') := by
  have hfree : ∀ p, (s.table p).memOffset = none →
      resized log s.table p = (s.table p).length :=
    fun p hp => resized_of_none (h.lastWrite_of_free hp)
  rw [insertValue, insertValue, bind_assoc]
  apply bind_congr
  rintro ⟨newOffset, allocator⟩
  dsimp only
  rw [afterSingles, newMappingEntryByKey_relength hfree, bind_assoc,
    bind_assoc]
  apply bind_congr_ok
  intro table' hnew
  obtain ⟨slot, hins⟩ := newMappingEntryByKey_cases hnew
  rw [(h.inserted hins).2]
  rfl

theorem based_insertValue (h : Based log s.table) {s' : KvFtl}
    (hrun : insertValue cfg search s key bytes = .ok s') :
    Based log s'.table := by
  obtain ⟨⟨newOffset, allocator⟩, -, hrest⟩ := bind_eq_ok hrun
  obtain ⟨table, hnew, hdone⟩ := bind_eq_ok hrest
  cases hdone
  obtain ⟨slot, hins⟩ := newMappingEntryByKey_cases hnew
  exact (h.inserted hins).1

end

/-! ## One store -/

section

variable {sub : SubCmd}

theorem cmdValueLength_asStore (hsub : Storable sub) :
    cmdValueLength (asStore sub) = sub.value.length := by
  have hle := hsub.length_le
  rw [cmdValueLength, asStore, Nat.div_mul_cancel hsub.four_dvd]
  exact u32_of_lt (by omega)

theorem storedBytes_asStore (hsub : Storable sub) :
    storedBytes (asStore sub) = sub.value := by
  rw [storedBytes, cmdValueLength_asStore hsub, readBytes]
  apply List.ext_getElem
  · rw [List.length_map, List.length_range]
  · intro i _ hi
    rw [List.getElem_map, List.getElem_range, Nat.zero_add]
    change sub.value.getD i 0 = sub.value[i]
    rw [List.getD_eq_getElem?_getD, List.getElem?_eq_getElem hi]
    rfl

theorem smallUpdate_of_none (hfind : findSlot cfg table sub.key = .ok none) :
    smallUpdate cfg table sub = [] := by
  rw [smallUpdate, hfind]

theorem smallUpdate_of_some {slot : ℕ}
    (hfind : findSlot cfg table sub.key = .ok (some slot)) :
    smallUpdate cfg table sub =
      if sub.value.length ≤ smallLength ∧ (table slot).length ≤ smallLength then
        [(slot, (table slot).length, sub.value.length)]
      else [] := by
  rw [smallUpdate, hfind]

/-- The single command resizes an entry to what the log of small updates
says. -/
theorem resize_relength (h : Based log table) (slot length : ℕ) :
    (if length ≠ resized log table slot ∧ length ≤ smallLength ∧
        resized log table slot ≤ smallLength then
      resize (relength table (resized log table)) slot length
    else relength table (resized log table)) =
      relength table (resized (log ++
        if length ≤ smallLength ∧ (table slot).length ≤ smallLength then
          [(slot, (table slot).length, length)]
        else []) table) := by
  have hle := h.resized_le_iff slot
  by_cases hsmall : length ≤ smallLength ∧ (table slot).length ≤ smallLength
  · have hothers : ∀ p, p ≠ slot →
        resized (log ++ [(slot, (table slot).length, length)]) table p =
          resized log table p := by
      intro p hp
      rw [resized, lastWrite_append, Function.update_of_ne hp, resized]
    have hslot : resized (log ++ [(slot, (table slot).length, length)]) table
        slot = length := by
      rw [resized, lastWrite_append, Function.update_self]
    rw [if_pos hsmall]
    funext p
    by_cases hp : p = slot
    · subst hp
      by_cases hsame : length = resized log table p
      · rw [if_neg fun hne => hne.1 hsame, relength, relength, hslot, ← hsame]
      · rw [if_pos ⟨hsame, hsmall.1, hle.mpr hsmall.2⟩, resize,
          Function.update_self, relength, relength, hslot]
    · rw [relength, hothers p hp]
      split_ifs
      · rw [resize, Function.update_of_ne hp, relength]
      · rfl
  · rw [if_neg fun hne => hsmall ⟨hne.2.1, hle.mp hne.2.2⟩, if_neg hsmall,
      List.append_nil]

theorem single_afterSingles (hsub : Storable sub) (h : Based log s.table) :
    kvStep cfg search (afterSingles log s) (.single (asStore sub)) = (do
      let s' ← doPerformKvBatchedIo cfg search s sub
      return afterSingles (log ++ smallUpdate cfg s.table sub) s') := by
  have hstore : (asStore sub).opcode = .store := rfl
  have hlook : findSlot cfg (afterSingles log s).table (asStore sub).key =
      findSlot cfg s.table sub.key := findSlot_relength _ _ _
  cases hfind : findSlot cfg s.table sub.key with
  | error fault =>
      rw [kvStep, doPerformKvIo, getMappingEntry, getMappingEntryByKey, hlook,
        hfind, doPerformKvBatchedIo, getMappingEntryByKey, hfind]
      rfl
  | ok found =>
      rw [hfind] at hlook
      cases found with
      | none =>
          rw [kvStep, doPerformKvIo_insert hstore hlook,
            doPerformKvBatchedIo_insert hsub.opcode_eq hfind,
            storedBytes_asStore hsub, smallUpdate_of_none hfind,
            List.append_nil, bind_assoc]
          exact (bind_pure _).trans (insertValue_afterSingles h)
      | some slot =>
          obtain ⟨offset, hoffset⟩ :=
            Option.ne_none_iff_exists'.mp (foundAt_of_findSlot hfind).2.1
          have hoffset' : ((afterSingles log s).table slot).memOffset =
              some offset := hoffset
          rw [kvStep, doPerformKvIo_update hstore hlook hoffset',
            doPerformKvBatchedIo_update hsub.opcode_eq hfind hoffset,
            storedBytes_asStore hsub, cmdValueLength_asStore hsub,
            smallUpdate_of_some hfind, ok_bind, ok_bind]
          exact congrArg (fun table' => Except.ok
            { storeBytes s offset sub.value with table := table' })
            (resize_relength h slot sub.value.length)

/-- The log of small updates after one store of the batch. -/
theorem based_batched (hsub : Storable sub) (h : Based log s.table) {s' : KvFtl}
    (hrun : doPerformKvBatchedIo cfg search s sub = .ok s') :
    Based (log ++ smallUpdate cfg s.table sub) s'.table := by
  obtain ⟨entry, hget, -⟩ := bind_eq_ok hrun
  obtain hfind | ⟨slot, offset, hfind, hoffset⟩ := findSlot_cases hget
  · rw [doPerformKvBatchedIo_insert hsub.opcode_eq hfind] at hrun
    rw [smallUpdate_of_none hfind, List.append_nil]
    exact based_insertValue h hrun
  · rw [doPerformKvBatchedIo_update hsub.opcode_eq hfind hoffset] at hrun
    cases hrun
    rw [smallUpdate_of_some hfind]
    split_ifs with hsmall
    · intro p base length hlast
      rw [lastWrite_append] at hlast
      by_cases hp : p = slot
      · subst hp
        rw [Function.update_self] at hlast
        cases hlast
        have hne : (s.table p).memOffset ≠ none := by
          rw [hoffset]
          exact Option.some_ne_none offset
        exact ⟨hne, rfl, hsmall.2, hsmall.1⟩
      · rw [Function.update_of_ne hp] at hlast
        exact h p base length hlast
    · rw [List.append_nil]
      exact h

end

/-! ## Lists of stores -/

/-- The single commands fault as the batch does, or leave its state with the
lengths of the last small updates. -/
theorem storeEach_afterSingles {subs : List SubCmd}
    (hsubs : ∀ sub ∈ subs, Storable sub) (h : Based log s.table) :
    storeEach cfg search (afterSingles log s) subs = (do
      let s' ← subs.foldlM (doPerformKvBatchedIo cfg search) s
      return afterSingles (log ++ smallUpdates cfg search s subs) s') := by
  induction subs generalizing log s with
  | nil =>
      rw [smallUpdates, List.append_nil]
      rfl
  | cons sub subs ih =>
      have hsub := hsubs sub List.mem_cons_self
      have hrest : ∀ other ∈ subs, Storable other :=
        fun other hother => hsubs other (List.mem_cons_of_mem sub hother)
      rw [storeEach, List.foldlM_cons, List.foldlM_cons,
        single_afterSingles hsub h, bind_assoc, bind_assoc]
      apply bind_congr_ok
      intro s' hrun
      have hlog : smallUpdates cfg search s (sub :: subs) =
          smallUpdate cfg s.table sub ++ smallUpdates cfg search s' subs := by
        rw [smallUpdates, hrun]
      rw [hlog, ← List.append_assoc]
      exact ih hrest (based_batched hsub h hrun)

theorem based_smallUpdates {subs : List SubCmd}
    (hsubs : ∀ sub ∈ subs, Storable sub) (h : Based log s.table) {s' : KvFtl}
    (hrun : subs.foldlM (doPerformKvBatchedIo cfg search) s = .ok s') :
    Based (log ++ smallUpdates cfg search s subs) s'.table := by
  induction subs generalizing log s with
  | nil =>
      cases hrun
      rw [smallUpdates, List.append_nil]
      exact h
  | cons sub subs ih =>
      obtain ⟨next, hnext, hrest⟩ := bind_eq_ok hrun
      rw [smallUpdates, hnext, ← List.append_assoc]
      exact ih (fun other hother => hsubs other (List.mem_cons_of_mem sub hother))
        (based_batched (hsubs sub List.mem_cons_self) h hnext) hrest

/-- The lengths agree when every last small update has the length of its
entry. -/
theorem afterSingles_table_iff (h : Based log s.table) :
    (afterSingles log s).table = s.table ↔
      ∀ slot base length, lastWrite log slot = some (base, length) →
        length = base := by
  constructor
  · intro hsame slot base length hlast
    have hlength := congrArg MappingEntry.length (congrFun hsame slot)
    calc length
        = resized log s.table slot := (resized_of_some hlast).symm
      _ = (s.table slot).length := hlength
      _ = base := (h slot base length hlast).2.1
  · intro hall
    funext p
    have hlength : resized log s.table p = (s.table p).length := by
      cases hlast : lastWrite log p with
      | none => exact resized_of_none hlast
      | some pair =>
          rw [resized_of_some hlast, (h p pair.1 pair.2 hlast).2.1]
          exact hall p pair.1 pair.2 hlast
    change { s.table p with length := resized log s.table p } = s.table p
    rw [hlength]

/-- Every list of stores has a payload.  A batch of it faults as the single
commands do; otherwise it leaves their table and values exactly when, for every
entry of at most `SMALL_LENGTH` bytes, the last update of at most
`SMALL_LENGTH` bytes has the length of the entry. -/
theorem batch_eq_singles_iff {subs : List SubCmd}
    (hcount : subs.length ≤ maxSubCmd) (hsubs : ∀ sub ∈ subs, Storable sub)
    (s : KvFtl) :
    (∃ buffer, Carries buffer subs) ∧ ∀ buffer, Carries buffer subs →
      (∀ fault, doPerformKvBatch cfg search s buffer subs.length =
          .error fault →
        storeEach cfg search s subs = .error fault) ∧
      ∀ batched, doPerformKvBatch cfg search s buffer subs.length =
          .ok batched →
        ∃ single, storeEach cfg search s subs = .ok single ∧
          ((single.table = batched.table ∧ single.storage = batched.storage ∧
              ∀ key valueLen, retrieve cfg search single key valueLen =
                retrieve cfg search batched key valueLen) ↔
            ∀ slot base length,
              lastWrite (smallUpdates cfg search s subs) slot =
                some (base, length) → length = base) := by
  have hbased := based_nil s.table
  have hsingles : storeEach cfg search s subs = (do
      let s' ← subs.foldlM (doPerformKvBatchedIo cfg search) s
      return afterSingles (smallUpdates cfg search s subs) s') :=
    storeEach_afterSingles hsubs hbased
  refine ⟨⟨payload subs, carries_payload hsubs hcount⟩, ?_⟩
  intro buffer hcarries
  rw [doPerformKvBatch_eq hcarries, hsingles]
  constructor
  · intro fault hrun
    rw [hrun, error_bind]
  · intro batched hrun
    have hafter : Based (smallUpdates cfg search s subs) batched.table :=
      based_smallUpdates hsubs hbased hrun
    refine ⟨afterSingles (smallUpdates cfg search s subs) batched, ?_, ?_⟩
    · rw [hrun]
      rfl
    · rw [← afterSingles_table_iff hafter]
      constructor
      · exact fun hsame => hsame.1
      · intro htable
        have hstate : afterSingles (smallUpdates cfg search s subs) batched =
            batched :=
          congrArg (fun table => { batched with table := table }) htable
        rw [hstate]
        exact ⟨rfl, rfl, fun _ _ => rfl⟩

/-- A store of the same byte, repeated. -/
def subOf (key : Key) (length : ℕ) (byte : UInt8) : SubCmd :=
  { opcode := kvStoreOpcode, key := key, value := List.replicate length byte }

theorem storable_subOf (key : Key) {length : ℕ} (byte : UInt8)
    (hdvd : 4 ∣ length) (hle : length ≤ 4096) :
    Storable (subOf key length byte) where
  opcode_eq := rfl
  four_dvd := by
    rwa [subOf, List.length_replicate]
  length_le := by
    rwa [subOf, List.length_replicate]

/-- A key that is stored with 4 bytes, with 8 bytes, and with 4 bytes again. -/
def thereAndBack : List SubCmd :=
  [subOf (oneByte 97) 4 1, subOf (oneByte 97) 8 2, subOf (oneByte 97) 4 3]

theorem storable_thereAndBack : ∀ sub ∈ thereAndBack, Storable sub := by
  intro sub hsub
  simp only [thereAndBack, List.mem_cons, List.not_mem_nil, or_false] at hsub
  obtain rfl | rfl | rfl := hsub
  · exact storable_subOf _ _ (by decide) (by decide)
  · exact storable_subOf _ _ (by decide) (by decide)
  · exact storable_subOf _ _ (by decide) (by decide)

theorem batch_eq_singles_iff_thereAndBack :
    (∃ buffer, Carries buffer thereAndBack) ∧
      ∀ buffer, Carries buffer thereAndBack →
        (∀ fault, doPerformKvBatch sevenSlots firstZero firstRun.ftl buffer 3 =
            .error fault →
          storeEach sevenSlots firstZero firstRun.ftl thereAndBack =
            .error fault) ∧
        ∀ batched, doPerformKvBatch sevenSlots firstZero firstRun.ftl buffer 3 =
            .ok batched →
          ∃ single, storeEach sevenSlots firstZero firstRun.ftl thereAndBack =
              .ok single ∧
            ((single.table = batched.table ∧
                single.storage = batched.storage ∧
                ∀ key valueLen, retrieve sevenSlots firstZero single key
                    valueLen =
                  retrieve sevenSlots firstZero batched key valueLen) ↔
              ∀ slot base length,
                lastWrite (smallUpdates sevenSlots firstZero firstRun.ftl
                  thereAndBack) slot = some (base, length) →
                length = base) :=
  batch_eq_singles_iff (by decide) storable_thereAndBack firstRun.ftl

/-- A key that is stored with 4 bytes and then with 8 bytes: after the batch a
retrieve returns 4 bytes, after the single commands 8 bytes. -/
theorem longer_update_lost_in_batch :
    ∃ subs batched single, subs.length ≤ maxSubCmd ∧
      (∀ sub ∈ subs, Storable sub) ∧
      doPerformKvBatch sevenSlots firstZero firstRun.ftl (payload subs)
        subs.length = .ok batched ∧
      storeEach sevenSlots firstZero firstRun.ftl subs = .ok single ∧
      retrieve sevenSlots firstZero batched (oneByte 97) 2 =
        .ok { result := 4, status := none, data := [2, 2, 2, 2] } ∧
      retrieve sevenSlots firstZero single (oneByte 97) 2 =
        .ok { result := 8, status := none, data := [2, 2, 2, 2, 2, 2, 2, 2] } := by
  have hruns : (do
      let batched ← doPerformKvBatch sevenSlots firstZero firstRun.ftl
        (payload (thereAndBack.take 2)) 2
      let single ← storeEach sevenSlots firstZero firstRun.ftl
        (thereAndBack.take 2)
      let first ← retrieve sevenSlots firstZero batched (oneByte 97) 2
      let second ← retrieve sevenSlots firstZero single (oneByte 97) 2
      return (first, second)) =
        .ok ({ result := 4, status := none, data := [2, 2, 2, 2] },
          { result := 8, status := none
            data := [2, 2, 2, 2, 2, 2, 2, 2] }) := by
    decide +kernel
  obtain ⟨batched, hbatched, hruns⟩ := bind_eq_ok hruns
  obtain ⟨single, hsingle, hruns⟩ := bind_eq_ok hruns
  obtain ⟨first, hfirst, hruns⟩ := bind_eq_ok hruns
  obtain ⟨second, hsecond, hdone⟩ := bind_eq_ok hruns
  cases hdone
  exact ⟨thereAndBack.take 2, batched, single, by decide,
    fun sub hsub => storable_thereAndBack sub (List.mem_of_mem_take hsub),
    hbatched, hsingle, hfirst, hsecond⟩

end NvmeVirt.KvBatches
