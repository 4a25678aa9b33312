import NvmeVirt.Kv.FiniteMap

/-!
# What clients may rely on

Clients that use keys with different hash slots, keep the length of a value
when they update it and keep an account of the bytes they inserted see a map:
whether a command is admissible depends on the map and the account alone.
Deletes give nothing back to the account.
-/

namespace NvmeVirt.KvClients

open NvmeVirt.ByteMap
open NvmeVirt.Kernel
open NvmeVirt.KvAllocators
open NvmeVirt.KvBitmapRuns
open NvmeVirt.KvChains
open NvmeVirt.KvCommands
open NvmeVirt.KvExtents
open NvmeVirt.KvFiniteMap
open NvmeVirt.KvLookup
open NvmeVirt.KvMapping
open NvmeVirt.KvStores
open NvmeVirt.KvTableChanges
open NvmeVirt.Replies
open NvmeVirt.Transition
open NvmeVirt.Walk

/-! ## The contract -/

/-- The map of the clients, and the lengths of the values they inserted. -/
structure Client where
  map : KvMap
  inserted : List ℕ

def newClient : Client := { map := emptyMap, inserted := [] }

/-- The lengths after a command; only what has no value is inserted. -/
def insertedAfter (c : Client) (action : KvAction) : List ℕ :=
  match action.stored? with
  | none => c.inserted
  | some (key, bytes) =>
      if c.map key = none then c.inserted ++ [bytes.length] else c.inserted

def clientStep (c : Client) (action : KvAction) : KvOutcome × Client :=
  let (outcome, map) := mapStep c.map action
  (outcome, { map := map, inserted := insertedAfter c action })

/-- There is room for values of these lengths. -/
def Fit (cfg : KvConfig) (type : AllocatorType) (lengths : List ℕ) : Prop :=
  match type with
  | .appendOnly => lengths.sum ≤ cfg.storageSize
  | .bitmap =>
      demand lengths .small ≤ SizeClass.small.slots cfg.storageSize ∧
        demand lengths .large ≤ SizeClass.large.slots cfg.storageSize

/-- The lengths a value may be given in place of one of `old` bytes. -/
def MayUpdate (type : AllocatorType) (action : KvAction) (length old : ℕ) :
    Prop :=
  length = old ∨ type = .bitmap ∧ Resizes action ∧ length ≤ smallLength ∧
    old ≤ smallLength

/-- A value of this length may be inserted. -/
structure MayInsert (cfg : KvConfig) (type : AllocatorType) (c : Client)
    (length : ℕ) : Prop where
  pos : 0 < length
  length_le : type = .bitmap → length ≤ largeLength
  fit : Fit cfg type (c.inserted ++ [length])

/-- The condition on a command. -/
structure Admissible (cfg : KvConfig) (type : AllocatorType) (keys : Set Key)
    (c : Client) (action : KvAction) : Prop where
  key_mem : keyOf action ∈ keys
  update : ∀ bytes old, action.stored? = some (keyOf action, bytes) →
    c.map (keyOf action) = some old →
    MayUpdate type action bytes.length old.length
  insert : ∀ bytes, action.stored? = some (keyOf action, bytes) →
    c.map (keyOf action) = none → MayInsert cfg type c bytes.length

/-- No two of the keys have the same hash slot. -/
def OwnSlots (cfg : KvConfig) (keys : Set Key) : Prop :=
  ∀ key ∈ keys, ∀ other ∈ keys,
    getHashSlot cfg key = getHashSlot cfg other → key = other

/-! ## The state of the driver -/

/-- Nothing is linked, and every entry is that of a key in its hash slot. -/
structure Homes (cfg : KvConfig) (keys : Set Key) (table : Table) : Prop where
  unlinked : ∀ p, (table p).nextSlot = none
  owner : ∀ p, (table p).memOffset ≠ none →
    ∃ key ∈ keys, getHashSlot cfg key = p ∧ keyMatches (table p) key

/-- The allocator has handed out values of these lengths. -/
def Account (cfg : KvConfig) (type : AllocatorType) (lengths : List ℕ) :
    Allocator → Prop
  | .appendOnly state => type = .appendOnly ∧
      state.devSize = cfg.storageSize ∧ state.latest = lengths.sum
  | .bitmap state => type = .bitmap ∧
      Progress cfg.storageSize state (demand lengths)

/-- The driver holds the map, and the account is right. -/
structure Keeps (cfg : KvConfig) (type : AllocatorType) (keys : Set Key)
    (r : KvRun) (c : Client) : Prop where
  shows : Shows cfg keys r c.map
  homes : Homes cfg keys r.ftl.table
  account : Account cfg type c.inserted r.ftl.allocator

variable {cfg : KvConfig} {search : ZeroAreaSearch} {type : AllocatorType}
  {keys : Set Key} {table table' : Table} {key other : Key}

/-! ## Lookups in a table without links -/

theorem Homes.visits_iff (h : Homes cfg keys table) {p : ℕ} :
    Visits cfg table other p ↔ p = getHashSlot cfg other := by
  constructor
  · exact visits_of_unlinked h.unlinked
  · rintro rfl
    exact Arrives.refl

/-- Lookups of different keys visit different slots. -/
theorem Homes.not_visits (h : Homes cfg keys table)
    (hkeys : OwnSlots cfg keys) (hkey : key ∈ keys) (hother : other ∈ keys)
    (hne : other ≠ key) : ¬ Visits cfg table other (getHashSlot cfg key) := by
  intro hvisits
  exact hne (hkeys key hkey other hother (h.visits_iff.mp hvisits)).symm

/-- A key that is not found has an empty hash slot. -/
theorem Homes.free_of_missing (h : Homes cfg keys table)
    (hkeys : OwnSlots cfg keys) (hkey : key ∈ keys)
    (hfind : findSlot cfg table key = .ok none) :
    (table (getHashSlot cfg key)).memOffset = none := by
  by_contra hfilled
  obtain ⟨owner, howner, hslot, hmatch⟩ := h.owner _ hfilled
  obtain rfl := hkeys owner howner key hkey hslot
  exact not_foundAt_of_findSlot hfind _ ⟨Arrives.refl, hfilled, hmatch⟩

theorem Homes.slot_eq (h : Homes cfg keys table) {slot : ℕ}
    (hfind : findSlot cfg table key = .ok (some slot)) :
    slot = getHashSlot cfg key :=
  h.visits_iff.mp (foundAt_of_findSlot hfind).1

/-! ## The table after a command -/

theorem homes_initTable : Homes cfg keys initTable where
  unlinked _ := rfl
  owner _ hfilled := absurd rfl hfilled

theorem Homes.insert {length offset slot : ℕ} (h : Homes cfg keys table)
    (hins : Inserted cfg table key length offset slot table')
    (hkey : key ∈ keys)
    (hfree : (table (getHashSlot cfg key)).memOffset = none) :
    Homes cfg keys table' := by
  have hslot := hins.home hfree
  have hsame : ∀ p, p ≠ slot → table' p = table p := fun p hp =>
    hins.others p hp fun hhome => hp (hhome.trans hslot.symm)
  constructor
  · intro p
    by_cases hp : p = slot
    · rw [hp, hins.filled]
      exact h.unlinked slot
    · rw [hsame p hp]
      exact h.unlinked p
  · intro p hfilled
    by_cases hp : p = slot
    · refine ⟨key, hkey, (hp.trans hslot).symm, ?_⟩
      rw [hp, hins.filled]
      exact keyMatches_fillEntry _ _ _ _
    · rw [hsame p hp] at hfilled ⊢
      exact h.owner p hfilled

theorem Homes.sameLinks (h : Homes cfg keys table)
    (hlinks : SameLinks table table') : Homes cfg keys table' := by
  constructor
  · intro p
    exact (hlinks p).2.2.trans (h.unlinked p)
  · intro p hfilled
    rw [(hlinks p).2.1] at hfilled
    obtain ⟨key, hkey, hslot, hmatch⟩ := h.owner p hfilled
    refine ⟨key, hkey, hslot, ?_⟩
    rw [keyMatches, (hlinks p).1]
    exact hmatch

theorem Homes.deleted {slot : ℕ} (h : Homes cfg keys table)
    (hdeleted : Deleted table slot table') : Homes cfg keys table' := by
  constructor
  · intro p
    by_cases hp : p = slot
    · rw [hp, hdeleted.cleared]
      rfl
    · rw [hdeleted.others p hp]
      exact h.unlinked p
  · intro p hfilled
    have hp : p ≠ slot := by
      rintro rfl
      rw [hdeleted.cleared] at hfilled
      exact hfilled rfl
    rw [hdeleted.others p hp] at hfilled ⊢
    exact h.owner p hfilled

/-! ## The account -/

theorem demand_append (lengths : List ℕ) (length : ℕ) :
    demand (lengths ++ [length]) =
      bump (demand lengths) (sizeClass length) := by
  funext c
  rw [bump, demand, demand, List.countP_append, List.countP_singleton]
  congr 1
  exact if_congr (by rw [decide_eq_true_iff]; exact eq_comm) rfl rfl

/-- There is a slot left for a length that fits. -/
theorem demand_lt {lengths : List ℕ} {length : ℕ}
    (hfit : Fit cfg .bitmap (lengths ++ [length])) :
    demand lengths (sizeClass length) <
      (sizeClass length).slots cfg.storageSize := by
  have hle : ∀ c, demand (lengths ++ [length]) c ≤ c.slots cfg.storageSize := by
    intro c
    cases c with
    | small => exact hfit.1
    | large => exact hfit.2
  have hclass := hle (sizeClass length)
  rw [demand_append, bump, if_pos rfl] at hclass
  exact hclass

theorem Account.hasRoom {lengths : List ℕ} {length : ℕ}
    {allocator : Allocator} (h : Account cfg type lengths allocator)
    (hfit : Fit cfg type (lengths ++ [length])) :
    allocator.HasRoom length := by
  cases allocator with
  | appendOnly state =>
      obtain ⟨rfl, hsize, hlatest⟩ := h
      rw [Fit, List.sum_append, List.sum_singleton] at hfit
      change state.latest + length ≤ state.devSize
      omega
  | bitmap state =>
      obtain ⟨rfl, hprogress⟩ := h
      have hlt := demand_lt hfit
      have htaken := hprogress.taken (sizeClass length)
      have harea : (areaOf state (sizeClass length)).HasRoom := by
        refine ⟨demand lengths (sizeClass length), ?_, ?_, ?_⟩
        · rw [htaken.lastPos_eq]
        · rw [htaken.nbits_eq]
          exact hlt
        · exact htaken.bits_of_le le_rfl
      rw [sizeClass] at harea
      rw [Allocator.HasRoom]
      split_ifs at harea ⊢
      · exact harea
      · exact harea

theorem Account.granted_ge {lengths : List ℕ} {length : ℕ}
    {allocator : Allocator} (h : Account cfg type lengths allocator)
    (hle : type = .bitmap → length ≤ largeLength) :
    length ≤ allocator.granted length := by
  cases allocator with
  | appendOnly state => exact le_rfl
  | bitmap state =>
      rw [Allocator.granted]
      split_ifs with hlarge
      · exact hle h.1
      · exact Nat.le_of_not_lt hlarge

/-- An allocation that fits. -/
theorem Account.allocate {lengths : List ℕ} {length offset : ℕ}
    {allocator allocator' : Allocator} (h : Account cfg type lengths allocator)
    (hfit : Fit cfg type (lengths ++ [length]))
    (hrun : allocateMemOffsetByLength search allocator length =
      .ok (offset, allocator')) :
    Account cfg type (lengths ++ [length]) allocator' := by
  have hsize := cfg.storageSize_lt
  obtain ⟨⟨off, after⟩, hallocate, hdone⟩ := bind_eq_ok hrun
  cases hdone
  cases allocator with
  | appendOnly state =>
      obtain ⟨rfl, hdev, hlatest⟩ := h
      rw [Fit, List.sum_append, List.sum_singleton] at hfit
      cases hallocate
      refine ⟨rfl, hdev, ?_⟩
      rw [List.sum_append, List.sum_singleton]
      dsimp only
      rw [u64_of_lt (by omega), hlatest]
  | bitmap state =>
      obtain ⟨rfl, hprogress⟩ := h
      obtain ⟨state', hbitmap, hnext⟩ :=
        hprogress.allocate search (by omega) (demand_lt hfit)
      rw [KvAllocators.allocate, hbitmap] at hallocate
      cases hallocate
      refine ⟨rfl, ?_⟩
      rw [demand_append]
      exact hnext

theorem account_init {allocator : Allocator}
    (hinit : allocatorInit type cfg.storageSize = .ok allocator) :
    Account cfg type [] allocator := by
  cases type with
  | appendOnly =>
      cases hinit
      exact ⟨rfl, rfl, rfl⟩
  | bitmap =>
      obtain ⟨state, hbitmap, hdone⟩ := bind_eq_ok hinit
      cases hdone
      exact ⟨rfl, progress_init hbitmap⟩

/-- The bitmap sets at least a small slot aside. -/
theorem reserved_ge {r : KvRun} {lengths : List ℕ} {p offset : ℕ}
    (h : Account cfg .bitmap lengths r.ftl.allocator)
    (howns : r.ftl.allocator.Owns offset (r.reserved p)) :
    smallLength ≤ r.reserved p := by
  cases hallocator : r.ftl.allocator with
  | appendOnly state =>
      rw [hallocator] at h
      cases h.1
  | bitmap state =>
      rw [hallocator] at howns
      obtain ⟨-, -, -, -, heq⟩ | ⟨-, -, -, -, heq⟩ := howns
      · exact heq.ge
      · rw [heq]
        decide

/-! ## Admissible commands -/

variable {r : KvRun} {c : Client} {action : KvAction}

theorem Keeps.map_eq_none (h : Keeps cfg type keys r c) (hkey : key ∈ keys)
    (hfind : findSlot cfg r.ftl.table key = .ok none) : c.map key = none := by
  have hholds := h.shows.holds key hkey
  cases hvalue : c.map key with
  | none => rfl
  | some bytes =>
      rw [hvalue] at hholds
      obtain ⟨slot, offset, hfound, -⟩ := hholds
      rw [hfind] at hfound
      cases hfound

theorem Keeps.map_eq_some (h : Keeps cfg type keys r c) (hkey : key ∈ keys)
    {slot : ℕ} (hfind : findSlot cfg r.ftl.table key = .ok (some slot)) :
    ∃ bytes offset, c.map key = some bytes ∧
      (r.ftl.table slot).memOffset = some offset ∧
      (r.ftl.table slot).length = bytes.length := by
  have hholds := h.shows.holds key hkey
  cases hvalue : c.map key with
  | none =>
      rw [hvalue] at hholds
      cases hfind.symm.trans hholds
  | some bytes =>
      rw [hvalue] at hholds
      obtain ⟨slot', offset, hfound, hoffset, hlength, -⟩ := hholds
      cases hfind.symm.trans hfound
      exact ⟨bytes, offset, rfl, hoffset, hlength⟩

theorem Keeps.updateServes (h : Keeps cfg type keys r c)
    (hkeys : OwnSlots cfg keys) (hadmissible : Admissible cfg type keys c action)
    {bytes : List UInt8} {slot : ℕ}
    (hstored : action.stored? = some (keyOf action, bytes))
    (hfind : findSlot cfg r.ftl.table (keyOf action) = .ok (some slot)) :
    UpdateServes cfg keys r action bytes.length slot := by
  obtain ⟨old, offset, hvalue, hoffset, hlength⟩ :=
    h.map_eq_some hadmissible.key_mem hfind
  have hmay := hadmissible.update bytes old hstored hvalue
  constructor
  · obtain hsame | ⟨rfl, -, hsmall, -⟩ := hmay
    · rw [hsame, ← hlength]
      exact h.shows.extents.length_le slot offset hoffset
    · exact hsmall.trans
        (reserved_ge h.account (h.shows.extents.owned slot offset hoffset))
  · rw [hlength]
    obtain hsame | ⟨-, hresizes, hsmall⟩ := hmay
    · exact .inl hsame
    · exact .inr ⟨hresizes, hsmall⟩
  · intro other hother hne hfound
    apply h.homes.not_visits hkeys hadmissible.key_mem hother hne
    rw [← h.homes.slot_eq hfind]
    exact hfound.1

theorem Keeps.insertServes (h : Keeps cfg type keys r c)
    (hkeys : OwnSlots cfg keys) (hadmissible : Admissible cfg type keys c action)
    {bytes : List UInt8}
    (hstored : action.stored? = some (keyOf action, bytes))
    (hfind : findSlot cfg r.ftl.table (keyOf action) = .ok none) :
    InsertServes cfg keys r (keyOf action) bytes.length := by
  have hkey := hadmissible.key_mem
  have hmay := hadmissible.insert bytes hstored (h.map_eq_none hkey hfind)
  have hfree := h.homes.free_of_missing hkeys hkey hfind
  exact {
    pos := hmay.pos
    room := h.account.hasRoom hmay.fit
    length_le := h.account.granted_ge hmay.length_le
    free := ⟨_, getHashSlot_lt cfg _, hfree⟩
    uncut := fun _ _ _ _ _ hgoes => hgoes.2.1 hfree
    own := fun other hother hne slot hslot _ => by
      rw [NewSlot, if_pos hfree] at hslot
      rw [hslot]
      exact ⟨h.homes.not_visits hkeys hkey hother hne,
        fun hgoes => hgoes.2.1 hfree⟩ }

/-- An admissible command meets the condition under which the driver replies
like the map. -/
theorem Keeps.serves (h : Keeps cfg type keys r c) (hkeys : OwnSlots cfg keys)
    (hadmissible : Admissible cfg type keys c action) :
    Serves cfg keys r action where
  key_mem := hadmissible.key_mem
  update _ hstored _ hfind := h.updateServes hkeys hadmissible hstored hfind
  insert _ hstored hfind := h.insertServes hkeys hadmissible hstored hfind
  delete _ slot hfind other hother hne _ _ _ := by
    rw [h.homes.slot_eq hfind]
    exact h.homes.not_visits hkeys hadmissible.key_mem hother hne

/-! ## Runs -/

theorem kvStep_of_kvServe {s s' : KvFtl} {outcome : KvOutcome}
    (h : kvServe cfg search s action = .ok (outcome, s')) :
    kvStep cfg search s action = .ok s' := by
  cases action with
  | single cmd => exact bind_eq_ok_of h rfl
  | sub cmd =>
      obtain ⟨after, hrun, hdone⟩ := bind_eq_ok h
      cases hdone
      exact hrun

theorem kvServe_of_runServe {r' : KvRun} {outcome : KvOutcome}
    (h : runServe cfg search r action = .ok (outcome, r')) :
    kvServe cfg search r.ftl action = .ok (outcome, r'.ftl) := by
  obtain ⟨⟨outcome', ftl⟩, hserve, hdone⟩ := bind_eq_ok h
  cases hstored : action.stored? with
  | none =>
      rw [hstored] at hdone
      cases hdone
      exact hserve
  | some pair =>
      rw [hstored] at hdone
      cases hdone
      exact hserve

/-- What a store does to the table and to the allocator. -/
theorem Keeps.stored {s' : KvFtl} {bytes : List UInt8}
    (h : Keeps cfg type keys r c) (hkeys : OwnSlots cfg keys)
    (hadmissible : Admissible cfg type keys c action)
    (hstored : action.stored? = some (keyOf action, bytes))
    (hstep : Stored cfg search r.ftl (keyOf action) bytes s') :
    Homes cfg keys s'.table ∧
      Account cfg type (insertedAfter c action) s'.allocator := by
  have hkey := hadmissible.key_mem
  rw [insertedAfter, hstored]
  dsimp only
  cases hstep with
  | update hfind hoffset htable =>
      obtain ⟨old, -, hvalue, -⟩ := h.map_eq_some hkey hfind
      rw [hvalue, if_neg (Option.some_ne_none old)]
      exact ⟨h.homes.sameLinks (update_table htable).1, h.account⟩
  | insert hfind halloc hnew =>
      have hvalue := h.map_eq_none hkey hfind
      have hmay := hadmissible.insert bytes hstored hvalue
      obtain ⟨slot, hins⟩ := newMappingEntryByKey_cases hnew
      rw [if_pos hvalue]
      exact ⟨h.homes.insert hins hkey
          (h.homes.free_of_missing hkeys hkey hfind),
        h.account.allocate hmay.fit halloc⟩

theorem Keeps.step {s' : KvFtl} (h : Keeps cfg type keys r c)
    (hkeys : OwnSlots cfg keys) (hadmissible : Admissible cfg type keys c action)
    (hstep : kvStep cfg search r.ftl action = .ok s') :
    Homes cfg keys s'.table ∧
      Account cfg type (insertedAfter c action) s'.allocator := by
  cases hstored : action.stored? with
  | none =>
      obtain ⟨hallocator, -, htable⟩ := kvStep_other hstored hstep
      rw [insertedAfter, hstored, hallocator]
      refine ⟨?_, h.account⟩
      obtain hsame | ⟨slot, hdeleted⟩ := htable
      · rw [hsame]
        exact h.homes
      · exact h.homes.deleted hdeleted
  | some pair =>
      obtain ⟨key, bytes⟩ := pair
      obtain rfl := stored_key hstored
      exact h.stored hkeys hadmissible hstored (kvStep_stored hstored hstep)

/-- The step lemma: some number of bytes is set aside for each entry. -/
theorem kvServe_refines (hkeys : OwnSlots cfg keys) :
    Refines (kvServe cfg search) clientStep
      (fun _ c action => Admissible cfg type keys c action)
      (fun s c => ∃ reserved, Keeps cfg type keys ⟨s, reserved⟩ c) := by
  rintro s c action ⟨reserved, h⟩ hadmissible
  obtain ⟨r', hrun, hshows⟩ :=
    runServe_refines ⟨s, reserved⟩ c.map action h.shows
      (h.serves hkeys hadmissible)
  have hserve := kvServe_of_runServe hrun
  obtain ⟨hhomes, haccount⟩ :=
    h.step hkeys hadmissible (kvStep_of_kvServe hserve)
  exact ⟨r'.ftl, hserve, r'.reserved, hshows, hhomes, haccount⟩

theorem answer_clientStep (c : Client) (actions : List KvAction) :
    (answer clientStep c actions).1 = (answer mapStep c.map actions).1 := by
  induction actions generalizing c with
  | nil => rfl
  | cons action actions ih =>
      rw [answer, answer]
      exact congrArg _ (ih (clientStep c action).2)

theorem keeps_newClient {s : KvFtl} {storage : ℕ → UInt8}
    (hinit : kvInitNamespace cfg type storage = .ok s) (reserved : ℕ → ℕ) :
    Keeps cfg type keys ⟨s, reserved⟩ newClient := by
  refine ⟨shows_emptyMap hinit, ?_, ?_⟩
  · obtain ⟨allocator, -, hdone⟩ := bind_eq_ok hinit
    cases hdone
    exact homes_initTable
  · obtain ⟨allocator, halloc, hdone⟩ := bind_eq_ok hinit
    cases hdone
    exact account_init halloc

/-- Clients whose keys have different hash slots, and whose commands are all
admissible, see a map. -/
theorem clients_see_a_map {s : KvFtl} {storage : ℕ → UInt8}
    {actions : List KvAction}
    (hinit : kvInitNamespace cfg type storage = .ok s)
    (hkeys : OwnSlots cfg keys)
    (hadmitted : Admitted clientStep (Admissible cfg type keys) newClient
      actions) :
    ∃ s', serve (kvServe cfg search) s actions =
      .ok ((answer mapStep emptyMap actions).1, s') := by
  obtain ⟨s', hserve, -⟩ := (kvServe_refines hkeys).serve_eq
    ⟨fun _ => 0, keeps_newClient hinit _⟩ hadmitted.allMeet
  rw [answer_clientStep] at hserve
  exact ⟨s', hserve⟩

/-! ## Six commands -/

theorem admissible_other (hmem : keyOf action ∈ keys)
    (hother : action.stored? = none) :
    Admissible cfg type keys c action where
  key_mem := hmem
  update bytes old hstored := by
    rw [hother] at hstored
    cases hstored
  insert bytes hstored := by
    rw [hother] at hstored
    cases hstored

theorem admissible_insert {bytes : List UInt8} (hmem : keyOf action ∈ keys)
    (hstores : action.stored? = some (keyOf action, bytes))
    (hvalue : c.map (keyOf action) = none)
    (hmay : MayInsert cfg type c bytes.length) :
    Admissible cfg type keys c action where
  key_mem := hmem
  update bytes old _ hold := by
    rw [hvalue] at hold
    cases hold
  insert bytes hstored _ := by
    rw [hstores] at hstored
    cases hstored
    exact hmay

theorem admissible_update {bytes old : List UInt8} (hmem : keyOf action ∈ keys)
    (hstores : action.stored? = some (keyOf action, bytes))
    (hvalue : c.map (keyOf action) = some old)
    (hmay : MayUpdate type action bytes.length old.length) :
    Admissible cfg type keys c action where
  key_mem := hmem
  update bytes old hstored hold := by
    rw [hstores] at hstored
    rw [hvalue] at hold
    cases hstored
    cases hold
    exact hmay
  insert bytes _ hnone := by
    rw [hvalue] at hnone
    cases hnone

def twoKeys : Set Key := {oneByte 97, oneByte 98}

theorem ownSlots_twoKeys : OwnSlots sevenSlots twoKeys := by
  have hdiffer : getHashSlot sevenSlots (oneByte 97) ≠
      getHashSlot sevenSlots (oneByte 98) := by decide +kernel
  rintro key (rfl | rfl) other (rfl | rfl) hslot
  · rfl
  · exact absurd hslot hdiffer
  · exact absurd hslot.symm hdiffer
  · rfl

/-- Two values are inserted, and the first one is given another length and
deleted. -/
def sixCommands : List KvAction :=
  [storeOf (oneByte 97) 1 5, storeOf (oneByte 98) 1 6,
    storeOf (oneByte 97) 2 7, retrieveOf (oneByte 97) 4,
    .single { opcode := .delete, key := oneByte 97, valueLen := 0,
              value := fun _ => 0 },
    retrieveOf (oneByte 97) 4]

theorem sixCommands_admitted :
    Admitted clientStep (Admissible sevenSlots .bitmap twoKeys) newClient
      sixCommands := by
  have hfirst : oneByte 97 ∈ twoKeys := .inl rfl
  have hsecond : oneByte 98 ∈ twoKeys := .inr rfl
  have hstores : (storeOf (oneByte 97) 1 5).stored? =
      some (oneByte 97, [5, 5, 5, 5]) := by decide +kernel
  have hstores' : (storeOf (oneByte 98) 1 6).stored? =
      some (oneByte 98, [6, 6, 6, 6]) := by decide +kernel
  have hlonger : (storeOf (oneByte 97) 2 7).stored? =
      some (oneByte 97, [7, 7, 7, 7, 7, 7, 7, 7]) := by decide +kernel
  refine ⟨?_, ?_, ?_, ?_, ?_, ?_, trivial⟩
  · exact admissible_insert hfirst hstores rfl
      ⟨by decide, fun _ => by decide, by decide, by decide⟩
  · exact admissible_insert hsecond hstores' (by decide +kernel)
      ⟨by decide, fun _ => by decide, by decide +kernel, by decide +kernel⟩
  · have hvalue : ((clientStep (clientStep newClient
        (storeOf (oneByte 97) 1 5)).2 (storeOf (oneByte 98) 1 6)).2.map
          (oneByte 97)) = some [5, 5, 5, 5] := by decide +kernel
    exact admissible_update hfirst hlonger hvalue
      (.inr ⟨rfl, trivial, by decide, by decide⟩)
  · exact admissible_other hfirst rfl
  · exact admissible_other hfirst rfl
  · exact admissible_other hfirst rfl

theorem clients_see_a_map_six :
    ∃ s s', kvInitNamespace sevenSlots .bitmap (fun _ => 0) = .ok s ∧
      serve (kvServe sevenSlots firstZero) s sixCommands =
        .ok ([.silent, .silent, .silent,
          { result := 8, status := none, data := [7, 7, 7, 7, 7, 7, 7, 7] },
          .silent, .missing], s') := by
  have hok : (kvInitNamespace sevenSlots .bitmap fun _ => 0).isOk := by
    decide +kernel
  obtain ⟨s, hinit⟩ := exists_of_isOk hok
  have hanswer : (answer mapStep emptyMap sixCommands).1 =
      [.silent, .silent, .silent,
        { result := 8, status := none, data := [7, 7, 7, 7, 7, 7, 7, 7] },
        .silent, .missing] := by
    decide +kernel
  obtain ⟨s', hserve⟩ :=
    @clients_see_a_map sevenSlots firstZero .bitmap twoKeys s _ sixCommands
      hinit ownSlots_twoKeys sixCommands_admitted
  rw [hanswer] at hserve
  exact ⟨s, s', hinit, hserve⟩

end NvmeVirt.KvClients
