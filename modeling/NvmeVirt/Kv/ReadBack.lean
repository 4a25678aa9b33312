import NvmeVirt.Kv.BitmapRuns
import NvmeVirt.Kv.Chains
import NvmeVirt.Kv.Extents

/-!
# Reading a value back

A value is read back from the entry it was stored under, with the length of
that entry.  An update with another length sets the length only if both are
small; otherwise the driver reports an invalid size to its log, and stores the
value all the same.
-/

namespace NvmeVirt.KvReadBack

open NvmeVirt.ByteMap
open NvmeVirt.Kernel
open NvmeVirt.KvAllocators
open NvmeVirt.KvBitmapRuns
open NvmeVirt.KvChains
open NvmeVirt.KvCommands
open NvmeVirt.KvExtents
open NvmeVirt.KvLookup
open NvmeVirt.KvMapping
open NvmeVirt.KvStores
open NvmeVirt.KvTableChanges
open NvmeVirt.Transition

/-- All runs of single commands and sub-commands of batches. -/
def kvMachine (cfg : KvConfig) (search : ZeroAreaSearch)
    (type : AllocatorType) : Machine KvFtl KvAction Fault where
  init s := ∃ storage, kvInitNamespace cfg type storage = .ok s
  enabled _ _ := True
  step := kvStep cfg search

/-- A value of `length` bytes fits into what is free. -/
def HasSpace (length : ℕ) : Allocator → Prop
  | .appendOnly state => state.latest + length ≤ state.devSize
  | .bitmap state => ¬ Exhausted (areaOf state (sizeClass length))

/-- The store ends, and a retrieve with a buffer that is large enough returns
the value that was stored. -/
def ReadsBack (cfg : KvConfig) (search : ZeroAreaSearch) (s : KvFtl)
    (cmd : KvCommand) : Prop :=
  ∃ s', doPerformKvIo cfg search s cmd = .ok (.silent, s') ∧
    ∀ valueLen, cmdValueLength cmd ≤ u32 (valueLen * 4) →
      retrieve cfg search s' cmd.key valueLen = .ok
        { result := cmdValueLength cmd, status := none,
          data := storedBytes cmd }

/-- An update keeps the length of the entry, or both lengths are small.  An
insertion has an empty slot. -/
structure StoreKept (cfg : KvConfig) (s : KvFtl) (cmd : KvCommand) : Prop where
  update : ∀ slot, findSlot cfg s.table cmd.key = .ok (some slot) →
    cmdValueLength cmd = (s.table slot).length ∨
      cmdValueLength cmd ≤ smallLength ∧ (s.table slot).length ≤ smallLength
  insert : findSlot cfg s.table cmd.key = .ok none → HasFree cfg s.table

/-! ## The allocator in any run -/

/-- No slot in front of the next search is free. -/
def Packed (area : BitArea) : Prop :=
  ∀ i < area.nbits, area.bits i = false → area.lastPos ≤ i

/-- What every allocator of a run is, also when nothing is left. -/
def Ready (size : ℕ) : Allocator → Prop
  | .appendOnly state => state.devSize = size
  | .bitmap state => (Allocator.bitmap state).For size ∧
      ∀ c, Packed (areaOf state c)

variable {cfg : KvConfig} {search : ZeroAreaSearch} {type : AllocatorType}
  {s : KvFtl}

theorem takeBit_packed {area area' : BitArea} {capacity off : ℕ}
    (hpacked : Packed area)
    (hrun : takeBit search capacity area = .ok (off, area')) :
    area'.nbits = area.nbits ∧ Packed area' := by
  rw [takeBit] at hrun
  by_cases hbound : capacity ≤ search.find area.bits area.nbits area.lastPos
  · rw [if_pos hbound] at hrun
    cases hrun
  rw [if_neg hbound] at hrun
  cases hrun
  refine ⟨rfl, fun i hi hclear => ?_⟩
  dsimp only at hi hclear ⊢
  have hne : i ≠ search.find area.bits area.nbits area.lastPos := by
    rintro rfl
    rw [Function.update_self] at hclear
    cases hclear
  rw [Function.update_of_ne hne] at hclear
  obtain ⟨-, hle, -⟩ := search.found area.bits area.nbits area.lastPos i
    (hpacked i hi hclear) hi hclear
  split_ifs <;> omega

theorem allocatorInit_ready {size : ℕ} {allocator : Allocator}
    (hrun : allocatorInit type size = .ok allocator) :
    Ready size allocator := by
  have hfor := allocatorInit_for hrun
  cases type with
  | appendOnly =>
      cases hrun
      rfl
  | bitmap =>
      obtain ⟨state, hinit, hdone⟩ := bind_eq_ok hrun
      cases hdone
      refine ⟨hfor, fun c i _ _ => ?_⟩
      rw [((progress_init hinit).taken c).lastPos_eq]
      exact Nat.zero_le i

theorem allocate_ready {size length offset : ℕ}
    {allocator allocator' : Allocator} (hready : Ready size allocator)
    (hrun : allocate search length allocator = .ok (offset, allocator')) :
    Ready size allocator' := by
  cases allocator with
  | appendOnly state =>
      cases hrun
      exact hready
  | bitmap state =>
      obtain ⟨⟨off, state'⟩, hallocate, hdone⟩ := bind_eq_ok hrun
      cases hdone
      rw [bitmapAllocate_eq] at hallocate
      obtain ⟨⟨off, area⟩, htake, hstate⟩ := bind_eq_ok hallocate
      cases hstate
      obtain ⟨⟨hdev, hsmall, hlarge, hsmallFits, hlargeFits⟩, hpacked⟩ := hready
      obtain ⟨hnbits, harea⟩ := takeBit_packed (hpacked _) htake
      refine ⟨?_, fun c => ?_⟩
      · generalize sizeClass length = c at hnbits
        cases c with
        | small =>
            exact ⟨hdev, hnbits.trans hsmall, hlarge, hnbits.trans_le hsmallFits,
              hlargeFits⟩
        | large =>
            exact ⟨hdev, hsmall, hnbits.trans hlarge, hsmallFits,
              hnbits.trans_le hlargeFits⟩
      · rw [areaOf_setArea]
        split_ifs
        · exact harea
        · exact hpacked c

/-- With space left, the allocation is one with room. -/
theorem Ready.room {size length : ℕ} {allocator : Allocator}
    (hready : Ready size allocator) (hspace : HasSpace length allocator) :
    allocator.For size ∧ allocator.HasRoom length := by
  cases allocator with
  | appendOnly state =>
      have hfits : state.latest + length ≤ state.devSize := hspace
      exact ⟨⟨hready, by rw [← hready]; omega⟩, hfits⟩
  | bitmap state =>
      obtain ⟨hfor, hpacked⟩ := hready
      refine ⟨hfor, ?_⟩
      rw [HasSpace, Exhausted] at hspace
      push Not at hspace
      obtain ⟨i, hi, hbit⟩ := hspace
      have hclear := Bool.eq_false_iff.mpr hbit
      have hroom : (areaOf state (sizeClass length)).HasRoom :=
        ⟨i, hpacked _ i hi hclear, hi, hclear⟩
      rw [Allocator.HasRoom]
      rw [sizeClass] at hroom
      split_ifs at hroom ⊢
      · exact hroom
      · exact hroom

/-- With room there is a slot inside the bitmap. -/
theorem takeBit_ok (search : ZeroAreaSearch) {area : BitArea} {capacity : ℕ}
    (hroom : area.HasRoom) (hcapacity : area.nbits ≤ capacity) :
    ∃ off area', takeBit search capacity area = .ok (off, area') := by
  obtain ⟨i, hlow, hhigh, hclear⟩ := hroom
  obtain ⟨-, hle, -⟩ :=
    search.found area.bits area.nbits area.lastPos i hlow hhigh hclear
  rw [takeBit, if_neg (by omega)]
  exact ⟨_, _, rfl⟩

theorem allocate_ok (search : ZeroAreaSearch) {size length : ℕ}
    {allocator : Allocator}
    (hfor : allocator.For size) (hroom : allocator.HasRoom length) :
    ∃ offset allocator',
      allocate search length allocator = .ok (offset, allocator') := by
  cases allocator with
  | appendOnly state => exact ⟨_, _, rfl⟩
  | bitmap state =>
      obtain ⟨-, -, -, hsmallFits, hlargeFits⟩ := hfor
      have harea : (areaOf state (sizeClass length)).HasRoom := by
        rw [Allocator.HasRoom] at hroom
        rw [sizeClass]
        split_ifs at hroom ⊢
        · exact hroom
        · exact hroom
      have hcapacity : (areaOf state (sizeClass length)).nbits ≤
          (sizeClass length).capacity := by
        cases sizeClass length with
        | small => exact hsmallFits
        | large => exact hlargeFits
      obtain ⟨off, area, htake⟩ := takeBit_ok search harea hcapacity
      rw [allocate, bitmapAllocate_eq, htake]
      exact ⟨_, _, rfl⟩

theorem granted_pos {length : ℕ} (allocator : Allocator) (hpos : 0 < length) :
    0 < allocator.granted length := by
  cases allocator with
  | appendOnly state => exact hpos
  | bitmap state =>
      rw [Allocator.granted]
      split_ifs
      · exact unit_pos .large
      · exact unit_pos .small

/-- With room, an offset inside the storage area is handed out. -/
theorem allocateMemOffset_of_room (search : ZeroAreaSearch) {size length : ℕ}
    {allocator : Allocator}
    (hfor : allocator.For size) (hroom : allocator.HasRoom length)
    (hsize : size < sizeMax) (hpos : 0 < length) :
    ∃ offset allocator', allocateMemOffsetByLength search allocator length =
      .ok (offset, allocator') ∧ offset < size := by
  obtain ⟨offset, allocator', hrun⟩ := allocate_ok search hfor hroom
  have hle := (allocate_spec hfor (by rw [sizeMax] at hsize; omega) hroom
    hrun).le_size
  have hgranted := granted_pos allocator hpos
  refine ⟨offset, allocator', ?_, by omega⟩
  rw [allocateMemOffsetByLength, hrun, ok_bind]
  dsimp only
  rw [if_neg (by omega)]
  rfl

/-- A value that fits is given an offset inside the storage area. -/
theorem allocateMemOffset_ok (search : ZeroAreaSearch) {size length : ℕ}
    {allocator : Allocator}
    (hready : Ready size allocator) (hspace : HasSpace length allocator)
    (hsize : size < sizeMax) (hpos : 0 < length) :
    ∃ offset allocator', allocateMemOffsetByLength search allocator length =
      .ok (offset, allocator') ∧ offset < size := by
  obtain ⟨hfor, hroom⟩ := hready.room hspace
  exact allocateMemOffset_of_room search hfor hroom hsize hpos

/-! ## Runs -/

/-- What every state of a run keeps. -/
structure Usable (cfg : KvConfig) (s : KvFtl) : Prop where
  linked : Linked cfg s.table
  ready : Ready cfg.storageSize s.allocator

theorem usable_stored {key : Key} {bytes : List UInt8} {s' : KvFtl}
    (h : Usable cfg s) (hstored : Stored cfg search s key bytes s') :
    Usable cfg s' := by
  cases hstored with
  | update hfind hoffset htable =>
      exact ⟨linked_of_sameLinks h.linked (update_table htable).1, h.ready⟩
  | insert hfind halloc hnew =>
      obtain ⟨slot, hins⟩ := newMappingEntryByKey_cases hnew
      obtain ⟨⟨off, allocator'⟩, hallocate, hdone⟩ := bind_eq_ok halloc
      cases hdone
      exact ⟨hins.linked h.linked, allocate_ready h.ready hallocate⟩

theorem usable_step {s' : KvFtl} {action : KvAction} (h : Usable cfg s)
    (hstep : kvStep cfg search s action = .ok s') : Usable cfg s' := by
  cases hstored : action.stored? with
  | none =>
      obtain ⟨hallocator, -, htable⟩ := kvStep_other hstored hstep
      refine ⟨?_, hallocator ▸ h.ready⟩
      obtain hsame | ⟨slot, hdeleted⟩ := htable
      · rw [hsame]
        exact h.linked
      · exact hdeleted.linked h.linked
  | some pair => exact usable_stored h (kvStep_stored hstored hstep)

theorem reachable_usable (hreach : Reachable (kvMachine cfg search type) s) :
    Usable cfg s := by
  apply hreach.invariant (Usable cfg)
  · rintro start ⟨storage, hinit⟩
    obtain ⟨allocator, halloc, hdone⟩ := bind_eq_ok hinit
    cases hdone
    exact ⟨linked_initTable, allocatorInit_ready halloc⟩
  · intro before action after hbefore _ hstep
    exact usable_step hbefore hstep

/-! ## A store and a retrieve -/

variable {cmd : KvCommand}

/-- A retrieve of an entry that holds the value. -/
theorem retrieve_stored {s' : KvFtl} {slot offset : ℕ}
    (hfind : findSlot cfg s'.table cmd.key = .ok (some slot))
    (hoffset : (s'.table slot).memOffset = some offset)
    (hlength : (s'.table slot).length = cmdValueLength cmd)
    (hstorage : s'.storage = writeBytes s.storage offset (storedBytes cmd))
    {valueLen : ℕ} (hle : cmdValueLength cmd ≤ u32 (valueLen * 4)) :
    retrieve cfg search s' cmd.key valueLen = .ok
      { result := cmdValueLength cmd, status := none,
        data := storedBytes cmd } := by
  have hread : readBytes s'.storage offset (cmdValueLength cmd) =
      storedBytes cmd := by
    rw [hstorage, ← length_storedBytes cmd]
    exact readBytes_writeBytes_self _ _ _
  rw [retrieve_of_found hfind hoffset, hlength, Nat.min_eq_left hle, hread]

theorem readsBack_insert (h : Usable cfg s) (hstore : cmd.opcode = .store)
    (hpos : 0 < cmdValueLength cmd)
    (hspace : HasSpace (cmdValueLength cmd) s.allocator)
    (hfind : findSlot cfg s.table cmd.key = .ok none) :
    ReadsBack cfg search s cmd ↔ HasFree cfg s.table := by
  have hsize := cfg.storageSize_lt
  obtain ⟨offset, allocator, halloc, hoffset⟩ :=
    allocateMemOffset_ok search h.ready hspace
      (by rw [sizeMax]; omega) hpos
  have hrun : doPerformKvIo cfg search s cmd = (do
      let table ← newMappingEntryByKey cfg s.table cmd.key
        (cmdValueLength cmd) offset
      return (.silent, { storeBytes { s with allocator := allocator } offset
        (storedBytes cmd) with table := table })) := by
    rw [doPerformKvIo_insert hstore hfind, insertValue, length_storedBytes,
      halloc, ok_bind]
    dsimp only
    cases newMappingEntryByKey cfg s.table cmd.key (cmdValueLength cmd)
      offset <;> rfl
  rw [ReadsBack, hrun]
  constructor
  · rintro ⟨s', hend, -⟩
    by_contra hfull
    rw [newMappingEntryByKey_full hfull hoffset] at hend
    cases hend
  · intro hfree
    obtain ⟨table, hnew⟩ := newMappingEntryByKey_ok hoffset hfree cmd.key
      (cmdValueLength cmd)
    obtain ⟨slot, hins⟩ := newMappingEntryByKey_cases hnew
    have hmissing : NotFound cfg s.table cmd.key :=
      getMappingEntryByKey_of_none hfind
    have hfound := (hins.linked h.linked).findSlot_of_foundAt
      (hins.foundAt h.linked hmissing)
    rw [hnew]
    refine ⟨_, rfl, fun valueLen hle => ?_⟩
    refine retrieve_stored hfound ?_ ?_ rfl hle
    · dsimp only
      rw [hins.filled]
      rfl
    · dsimp only
      rw [hins.filled]
      rfl

theorem readsBack_update (hstore : cmd.opcode = .store)
    (hpos : 0 < cmd.valueLen) (hle : cmd.valueLen ≤ 1024) {slot : ℕ}
    (hfind : findSlot cfg s.table cmd.key = .ok (some slot)) :
    ReadsBack cfg search s cmd ↔
      cmdValueLength cmd = (s.table slot).length ∨
        cmdValueLength cmd ≤ smallLength ∧
          (s.table slot).length ≤ smallLength := by
  obtain ⟨offset, hoffset⟩ :=
    Option.ne_none_iff_exists'.mp (foundAt_of_findSlot hfind).2.1
  rw [ReadsBack, doPerformKvIo_update hstore hfind hoffset]
  have hbytes : cmdValueLength cmd = cmd.valueLen * 4 := u32_of_lt (by omega)
  split_ifs with hresize
  · refine iff_of_true ⟨_, rfl, fun valueLen hlarge => ?_⟩ (.inr hresize.2)
    have hlinks := sameLinks_resize s.table slot (cmdValueLength cmd)
    refine retrieve_stored ((hlinks.findSlot_eq cmd.key).trans hfind)
      ((hlinks slot).2.1.trans hoffset) ?_ rfl hlarge
    dsimp only
    rw [resize, Function.update_self]
  · constructor
    · rintro ⟨s', hend, hread⟩
      cases hend
      left
      by_contra hne
      -- a buffer of one more word shows more than was stored, if there is more
      have hafter : findSlot cfg (storeBytes s offset (storedBytes cmd)).table
          cmd.key = .ok (some slot) := hfind
      have hresult : ∀ valueLen, cmdValueLength cmd ≤ u32 (valueLen * 4) →
          min (s.table slot).length (u32 (valueLen * 4)) =
            cmdValueLength cmd := fun valueLen hlarge =>
        congrArg KvOutcome.result (Except.ok.inj
          ((retrieve_of_found hafter hoffset valueLen).symm.trans
            (hread valueLen hlarge)))
      have hsame := hresult cmd.valueLen (by rw [hbytes, u32]; omega)
      have hmore := hresult (cmd.valueLen + 1) (by rw [hbytes, u32]; omega)
      rw [u32_of_lt (by omega)] at hsame hmore
      omega
    · intro hkept
      have hlength : (s.table slot).length = cmdValueLength cmd := by
        by_contra hne
        obtain hsame | hsmall := hkept
        · exact hne hsame.symm
        · exact hresize ⟨fun heq => hne heq.symm, hsmall⟩
      refine ⟨_, rfl, fun valueLen hlarge => ?_⟩
      refine @retrieve_stored _ _ _ _ _ slot offset ?_ ?_ ?_ rfl _ hlarge
      · exact hfind
      · exact hoffset
      · exact hlength

/-- A value that is stored is read back exactly when an update keeps the length
of the entry or both lengths are small, and an insertion has an empty slot. -/
theorem readsBack_iff (hreach : Reachable (kvMachine cfg search type) s)
    (hstore : cmd.opcode = .store) (hpos : 0 < cmd.valueLen)
    (hle : cmd.valueLen ≤ 1024)
    (hspace : HasSpace (cmdValueLength cmd) s.allocator) :
    ReadsBack cfg search s cmd ↔ StoreKept cfg s cmd := by
  have husable := reachable_usable hreach
  have hbytes : cmdValueLength cmd = cmd.valueLen * 4 := u32_of_lt (by omega)
  obtain ⟨found, hfind⟩ := husable.linked.findSlot_ok cmd.key
  cases found with
  | none =>
      rw [readsBack_insert husable hstore (by omega) hspace hfind]
      constructor
      · intro hfree
        refine ⟨fun slot hslot => ?_, fun _ => hfree⟩
        rw [hfind] at hslot
        cases hslot
      · exact fun hkept => hkept.insert hfind
  | some slot =>
      rw [readsBack_update hstore hpos hle hfind]
      constructor
      · intro hlengths
        refine ⟨fun slot' hslot => ?_, fun hnone => ?_⟩
        · rw [hfind] at hslot
          cases hslot
          exact hlengths
        · rw [hfind] at hnone
          cases hnone
      · exact fun hkept => hkept.update slot hfind

/-- The store command of a value of `words` equal words. -/
def storeCmd (key : Key) (words : ℕ) (byte : UInt8) : KvCommand :=
  { opcode := .store, key := key, valueLen := words, value := fun _ => byte }

/-- A new namespace with the append-only allocator. -/
def freshFtl : KvFtl :=
  { table := initTable, allocator := .appendOnly (appendOnlyAllocatorInit 4096),
    storage := fun _ => 0, writes := [] }

theorem freshFtl_reachable :
    Reachable (kvMachine threeSlots firstZero .appendOnly) freshFtl :=
  .start ⟨fun _ => 0, rfl⟩

/-- The namespace with a value of 1200 bytes. -/
def storedFtl : KvFtl :=
  { storeBytes { freshFtl with allocator := .appendOnly ⟨1200, 4096⟩ } 0
      (storedBytes (storeCmd (oneByte 97) 300 7)) with
    table := Function.update initTable (getHashSlot threeSlots (oneByte 97))
      (fillEntry initEntry (oneByte 97) 1200 0) }

theorem store_storedFtl :
    kvStep threeSlots firstZero freshFtl
      (.single (storeCmd (oneByte 97) 300 7)) = .ok storedFtl := by
  have hfind : findSlot threeSlots freshFtl.table (oneByte 97) = .ok none := by
    decide +kernel
  have hnew : newMappingEntryByKey threeSlots freshFtl.table (oneByte 97)
      1200 0 = .ok storedFtl.table := insert_home (by decide) rfl
  have halloc : allocateMemOffsetByLength firstZero freshFtl.allocator 1200 =
      .ok (0, .appendOnly ⟨1200, 4096⟩) := rfl
  have hlength : cmdValueLength (storeCmd (oneByte 97) 300 7) = 1200 := rfl
  rw [kvStep, doPerformKvIo_insert rfl hfind, insertValue, length_storedBytes,
    hlength, halloc, ok_bind]
  dsimp only
  have hkey : (storeCmd (oneByte 97) 300 7).key = oneByte 97 := rfl
  rw [hkey, hnew]
  rfl

theorem storedFtl_reachable :
    Reachable (kvMachine threeSlots firstZero .appendOnly) storedFtl := by
  have henabled : (kvMachine threeSlots firstZero .appendOnly).enabled freshFtl
      (.single (storeCmd (oneByte 97) 300 7)) := trivial
  exact freshFtl_reachable.next henabled store_storedFtl

/-- An insertion, and an update of another length. -/
theorem readsBack_iff_stored :
    (ReadsBack threeSlots firstZero freshFtl (storeCmd (oneByte 97) 300 7) ↔
        StoreKept threeSlots freshFtl (storeCmd (oneByte 97) 300 7)) ∧
      (ReadsBack threeSlots firstZero storedFtl (storeCmd (oneByte 97) 2 8) ↔
        StoreKept threeSlots storedFtl (storeCmd (oneByte 97) 2 8)) := by
  have hfresh : HasSpace (cmdValueLength (storeCmd (oneByte 97) 300 7))
      freshFtl.allocator := by
    change 0 + 1200 ≤ 4096
    decide
  have hstored : HasSpace (cmdValueLength (storeCmd (oneByte 97) 2 8))
      storedFtl.allocator := by
    change 1200 + 8 ≤ 4096
    decide
  constructor
  · exact readsBack_iff freshFtl_reachable rfl (by decide) (by decide) hfresh
  · exact readsBack_iff storedFtl_reachable rfl (by decide) (by decide) hstored

/-- Four bytes stored over a value of 1200 bytes are read back as 1200
bytes. -/
theorem shorter_update_keeps_length :
    Reachable (kvMachine threeSlots firstZero .appendOnly) storedFtl ∧
      HasSpace 4 storedFtl.allocator ∧
      ¬ ReadsBack threeSlots firstZero storedFtl
        (storeCmd (oneByte 97) 1 9) := by
  have hspace : HasSpace 4 storedFtl.allocator := by
    change 1200 + 4 ≤ 4096
    decide
  refine ⟨storedFtl_reachable, hspace, ?_⟩
  have hfind : findSlot threeSlots storedFtl.table (oneByte 97) =
      .ok (some (getHashSlot threeSlots (oneByte 97))) := by
    decide +kernel
  rw [readsBack_update rfl (by decide) (by decide) hfind]
  decide +kernel

end NvmeVirt.KvReadBack
