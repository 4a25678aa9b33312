import NvmeVirt.Kv.TableChanges

/-!
# Whose entry a lookup finds

A slot keeps the bytes of its key and not their number, and a lookup compares
as many bytes as it is asked for.  Behind the key of an entry stand zeros, or
bytes `0xff` once the slot has been emptied.  So an entry is also found under
the keys its own key begins with, and under its own key with such bytes behind
it.
-/

namespace NvmeVirt.KvOwners

open NvmeVirt.Kernel
open NvmeVirt.KvLookup
open NvmeVirt.KvMapping
open NvmeVirt.KvTableChanges
open NvmeVirt.Transition
open NvmeVirt.Walk

/-! ## Owners -/

/-- The table, with the key each entry was inserted under; no function reads
`owner`. -/
structure OwnedTable where
  table : Table
  owner : ℕ → Key

/-- The owners after an action: the slot an insertion fills has a new one. -/
def ownerAfter (s : OwnedTable) (table' : Table) : TableAction → ℕ → Key
  | .insert key _ _ => fun p =>
      if (s.table p).memOffset = none ∧ (table' p).memOffset ≠ none then key
      else s.owner p
  | _ => s.owner

/-- All runs, also those that insert a key again. -/
def ownedMachine (cfg : KvConfig) : Machine OwnedTable TableAction Fault where
  init s := s.table = initTable
  enabled _ _ := True
  step s action := do
    let table ← tableStep cfg s.table action
    return { table := table, owner := ownerAfter s table action }

/-- The lookups of the key succeed with the entry in the slot. -/
structure SucceedsAt (cfg : KvConfig) (table : Table) (key : Key) (slot : ℕ) :
    Prop where
  filled : (table slot).memOffset ≠ none
  get : getMappingEntryByKey cfg table key =
    .ok { table slot with key := copyKey clearedEntry.key key }
  update : ∀ valLen, updateMappingEntry cfg table key valLen =
    .ok (0, resize table slot valLen)
  delete : deleteMappingEntry cfg table key =
    .ok (clearedEntry, Function.update table slot clearedEntry)

/-- The byte behind the key of an entry; no key reaches the end of the
field. -/
def restByte (entry : MappingEntry) : UInt8 := entry.key.getD 17 0

/-- The entry in the slot has another key, which begins with this one, or
which this one extends by the bytes that stand behind it. -/
structure Shadows (s : OwnedTable) (key : Key) (slot : ℕ) : Prop where
  filled : (s.table slot).memOffset ≠ none
  other : s.owner slot ≠ key
  extends_or : key.bytes <+: (s.owner slot).bytes ∨
    ∃ count, key.bytes = (s.owner slot).bytes ++
      List.replicate count (restByte (s.table slot))

/-- Where a lookup that compares whole keys goes on to. -/
def keyHop (s : OwnedTable) (key : Key) (slot : ℕ) : Option ℕ :=
  if (s.table slot).memOffset = none then none
  else if s.owner slot = key then none
  else (s.table slot).nextSlot

/-- The key field of an entry that was inserted under the key. -/
def keyField (key : Key) (rest : UInt8) : List UInt8 :=
  key.bytes ++ List.replicate (18 - key.bytes.length) rest

/-- The key field of a slot. -/
structure Labelled (s : OwnedTable) (p : ℕ) : Prop where
  rest : restByte (s.table p) = 0 ∨ restByte (s.table p) = 255
  free : (s.table p).memOffset = none →
    (s.table p).key = List.replicate 18 (restByte (s.table p))
  filled : (s.table p).memOffset ≠ none →
    (s.table p).key = keyField (s.owner p) (restByte (s.table p))

variable {cfg : KvConfig} {table table' : Table} {s s' : OwnedTable} {key : Key}
  {slot : ℕ}

theorem succeedsAt_iff :
    SucceedsAt cfg table key slot ↔
      findSlot cfg table key = .ok (some slot) := by
  constructor
  · intro h
    obtain ⟨found, hfind, hdone⟩ := bind_eq_ok (h.update 0)
    cases found with
    | none => cases hdone
    | some q =>
        have hdelete : deleteMappingEntry cfg table key =
            .ok (clearedEntry, Function.update table q clearedEntry) := by
          rw [deleteMappingEntry, hfind]
          rfl
        rw [h.delete] at hdelete
        have htables : Function.update table slot clearedEntry =
            Function.update table q clearedEntry :=
          congrArg Prod.snd (Except.ok.inj hdelete)
        have hslot := congrFun htables slot
        rw [Function.update_self] at hslot
        by_cases hq : slot = q
        · rw [hq]
          exact hfind
        · rw [Function.update_of_ne hq] at hslot
          exact absurd (congrArg MappingEntry.memOffset hslot.symm) h.filled
  · intro hfind
    refine ⟨(foundAt_of_findSlot hfind).2.1, getMappingEntryByKey_of_some hfind,
      fun valLen => ?_, ?_⟩
    · rw [updateMappingEntry, hfind]
      rfl
    · rw [deleteMappingEntry, hfind]
      rfl

/-! ## Key fields -/

theorem copyKey_replicate (key : Key) (rest : UInt8) :
    copyKey (List.replicate 18 rest) key = keyField key rest := by
  rw [copyKey, keyField, List.drop_replicate]

theorem getD_keyField (key : Key) (rest : UInt8) :
    (keyField key rest).getD 17 0 = rest := by
  have hle := key.length_le
  rw [keyField, List.getD_eq_getElem?_getD,
    List.getElem?_append_right (by omega), List.getElem?_replicate,
    if_pos (by omega), Option.getD_some]

/-- Which keys a lookup finds in a key field. -/
theorem take_keyField_iff (own key : Key) (rest : UInt8) :
    (keyField own rest).take key.bytes.length = key.bytes ↔
      key.bytes <+: own.bytes ∨
        ∃ count, key.bytes = own.bytes ++ List.replicate count rest := by
  have hle := key.length_le
  constructor
  · intro htake
    rw [keyField, List.take_append] at htake
    by_cases hlen : key.bytes.length ≤ own.bytes.length
    · left
      rw [Nat.sub_eq_zero_of_le hlen, List.take_zero, List.append_nil] at htake
      rw [← htake]
      exact List.take_prefix _ _
    · right
      rw [List.take_of_length_le (by omega), List.take_replicate] at htake
      exact ⟨_, htake.symm⟩
  · rintro (⟨more, hmore⟩ | ⟨count, hcount⟩)
    · rw [keyField, ← hmore, List.append_assoc]
      exact List.take_left
    · have hlength := congrArg List.length hcount
      rw [List.length_append, List.length_replicate] at hlength
      have hsplit : List.replicate (18 - own.bytes.length) rest =
          List.replicate count rest ++
            List.replicate (18 - key.bytes.length) rest := by
        rw [List.replicate_append_replicate]
        congr 1
        omega
      rw [keyField, hsplit, ← List.append_assoc, ← hcount]
      exact List.take_left

/-- Which filled slots match the key of a lookup. -/
theorem keyMatches_iff (hlabel : Labelled s slot)
    (hfilled : (s.table slot).memOffset ≠ none) :
    keyMatches (s.table slot) key ↔
      s.owner slot = key ∨ Shadows s key slot := by
  rw [keyMatches, decide_eq_true_iff, hlabel.filled hfilled,
    take_keyField_iff]
  constructor
  · intro hmatch
    by_cases hown : s.owner slot = key
    · exact .inl hown
    · exact .inr ⟨hfilled, hown, hmatch⟩
  · rintro (rfl | hshadows)
    · exact .inl (List.prefix_refl _)
    · exact hshadows.extends_or

/-! ## Every slot of a run is labelled -/

/-- The slot keeps its key, its offset and its owner. -/
theorem labelled_congr (h : Labelled s slot)
    (hkey : (s'.table slot).key = (s.table slot).key)
    (hoffset : (s'.table slot).memOffset = (s.table slot).memOffset)
    (howner : s'.owner slot = s.owner slot) : Labelled s' slot := by
  have hrest : restByte (s'.table slot) = restByte (s.table slot) := by
    rw [restByte, restByte, hkey]
  constructor
  · rw [hrest]
    exact h.rest
  · intro hfree
    rw [hkey, hrest]
    exact h.free (hoffset ▸ hfree)
  · intro hfilled
    rw [hkey, hrest, howner]
    exact h.filled (hoffset ▸ hfilled)

theorem labelled_insert {valLen valOffset : ℕ}
    (h : ∀ p, Labelled s p)
    (hins : Inserted cfg s.table key valLen valOffset slot table') (p : ℕ) :
    Labelled
      ⟨table', ownerAfter s table' (.insert key valLen valOffset)⟩ p := by
  by_cases hp : p = slot
  · subst hp
    have hkey : (table' p).key =
        keyField key (restByte (s.table p)) := by
      rw [hins.filled, ← copyKey_replicate, ← (h p).free hins.free]
      rfl
    have hrest : restByte (table' p) = restByte (s.table p) := by
      rw [restByte, hkey, getD_keyField]
    have hfilled : (table' p).memOffset ≠ none := by
      rw [hins.filled]
      exact Option.some_ne_none _
    refine ⟨?_, fun hfree => absurd hfree hfilled, fun _ => ?_⟩
    · dsimp only
      rw [hrest]
      exact (h p).rest
    · have howner : ownerAfter s table' (.insert key valLen valOffset) p =
          key := if_pos ⟨hins.free, hfilled⟩
      dsimp only
      rw [howner, hrest]
      exact hkey
  · obtain ⟨hkey, hoffset, -⟩ := hins.entry_eq hp
    refine labelled_congr (h p) hkey hoffset (if_neg ?_)
    rw [hoffset]
    exact fun hboth => hboth.2 hboth.1

theorem labelled_delete (h : ∀ p, Labelled s p)
    (hdeleted : Deleted s.table slot table') (p : ℕ) :
    Labelled ⟨table', s.owner⟩ p := by
  by_cases hp : p = slot
  · rw [hp]
    refine ⟨?_, ?_, ?_⟩
    · dsimp only
      rw [hdeleted.cleared]
      exact .inr rfl
    · intro _
      dsimp only
      rw [hdeleted.cleared]
      rfl
    · intro hfilled
      dsimp only at hfilled
      rw [hdeleted.cleared] at hfilled
      exact absurd rfl hfilled
  · have hsame := hdeleted.others p hp
    exact labelled_congr (h p) (congrArg MappingEntry.key hsame)
      (congrArg MappingEntry.memOffset hsame) rfl

theorem labelled_of_sameLinks (h : ∀ p, Labelled s p)
    (hlinks : SameLinks s.table table') (p : ℕ) :
    Labelled ⟨table', s.owner⟩ p :=
  labelled_congr (h p) (hlinks p).1 (hlinks p).2.1 rfl

theorem labelled_init (hinit : s.table = initTable) (p : ℕ) :
    Labelled s p := by
  have hentry : s.table p = initEntry := congrFun hinit p
  refine ⟨?_, ?_, ?_⟩
  · rw [hentry]
    exact .inl rfl
  · intro _
    rw [hentry]
    rfl
  · intro hfilled
    rw [hentry] at hfilled
    exact absurd rfl hfilled

/-- One step of a run. -/
theorem labelled_step {action : TableAction} (h : ∀ p, Labelled s p)
    (hstep : (ownedMachine cfg).step s action = .ok s') (p : ℕ) :
    Labelled s' p := by
  obtain ⟨after, htable, hdone⟩ := bind_eq_ok hstep
  cases hdone
  cases action with
  | insert key valLen valOffset =>
      obtain ⟨slot, hins⟩ := newMappingEntryByKey_cases htable
      exact labelled_insert h hins p
  | update key valLen =>
      obtain ⟨⟨ret, table'⟩, hupdate, hret⟩ := bind_eq_ok htable
      cases hret
      obtain ⟨-, rfl⟩ | ⟨slot, -, rfl⟩ := updateMappingEntry_cases hupdate
      · exact labelled_congr (h p) rfl rfl rfl
      · exact labelled_of_sameLinks h (sameLinks_resize _ _ _) p
  | delete key =>
      obtain ⟨⟨entry, table'⟩, hdelete, hret⟩ := bind_eq_ok htable
      cases hret
      obtain ⟨-, rfl⟩ | ⟨slot, -, hdeleted⟩ := deleteMappingEntry_cases hdelete
      · exact labelled_congr (h p) rfl rfl rfl
      · exact labelled_delete h hdeleted p

theorem reachable_labelled (hreach : Reachable (ownedMachine cfg) s) :
    Linked cfg s.table ∧ ∀ p, Labelled s p := by
  apply hreach.invariant fun s => Linked cfg s.table ∧ ∀ p, Labelled s p
  · intro start hinit
    have htable : start.table = initTable := hinit
    refine ⟨?_, labelled_init htable⟩
    rw [htable]
    exact linked_initTable
  · rintro before action after ⟨hlinked, hlabel⟩ - hstep
    refine ⟨?_, labelled_step hlabel hstep⟩
    obtain ⟨table', htable, hdone⟩ := bind_eq_ok hstep
    cases hdone
    exact linked_step hlinked htable

/-! ## Lookups -/

/-- Keys of one length do not shadow each other. -/
theorem Shadows.length_ne (h : Shadows s key slot) :
    (s.owner slot).bytes.length ≠ key.bytes.length := by
  intro hlength
  have hbytes : key.bytes = (s.owner slot).bytes := by
    obtain hpre | ⟨count, hcount⟩ := h.extends_or
    · exact hpre.eq_of_length hlength.symm
    · have hsum := congrArg List.length hcount
      rw [List.length_append, List.length_replicate] at hsum
      have hzero : count = 0 := by omega
      rw [hcount, hzero]
      exact List.append_nil _
  apply h.other
  generalize s.owner slot = own at hbytes
  cases own
  cases key
  cases hbytes
  rfl

/-- As far as no slot in between shadows the key, a lookup goes on as one that
compares whole keys. -/
theorem arrives_keyHop_of_visits (hlabel : ∀ p, Labelled s p)
    (hvisits : Visits cfg s.table key slot) :
    Arrives (keyHop s key) (getHashSlot cfg key) slot := by
  refine hvisits.congr fun p q _ hhop => ?_
  rw [hop] at hhop
  split_ifs at hhop with hfree hmatch
  have hown : s.owner p ≠ key :=
    fun heq => hmatch ((keyMatches_iff (hlabel p) hfree).mpr (.inl heq))
  rw [keyHop, if_neg hfree, if_neg hown]
  exact hhop

/-- A lookup comes to the slots a lookup of whole keys comes to, or succeeds
before at a slot that shadows the key. -/
theorem visits_of_arrives_keyHop
    (harrives : Arrives (keyHop s key) (getHashSlot cfg key) slot) :
    Visits cfg s.table key slot ∨
      ∃ p, FoundAt cfg s.table key p ∧ s.owner p ≠ key := by
  induction harrives with
  | refl => exact .inl Arrives.refl
  | @tail p q _ hhop ih =>
      obtain hvisits | hfound := ih
      · rw [keyHop] at hhop
        split_ifs at hhop with hfree hown
        by_cases hmatch : keyMatches (s.table p) key
        · exact .inr ⟨p, ⟨hvisits, hfree, hmatch⟩, hown⟩
        · left
          apply hvisits.tail
          rw [hop, if_neg hfree, if_neg hmatch]
          exact hhop
      · exact .inr hfound

/-- The lookups of a key succeed with no other entry than its own exactly when
a lookup that compares whole keys comes to no slot that shadows the key. -/
theorem succeeds_own_iff (hreach : Reachable (ownedMachine cfg) s)
    (key : Key) :
    (∀ slot, SucceedsAt cfg s.table key slot → s.owner slot = key) ↔
      ∀ slot, Arrives (keyHop s key) (getHashSlot cfg key) slot →
        ¬ Shadows s key slot := by
  obtain ⟨hlinked, hlabel⟩ := reachable_labelled hreach
  constructor
  · intro hown slot harrives hshadows
    obtain hvisits | ⟨p, hfound, hother⟩ :=
      visits_of_arrives_keyHop harrives
    · have hmatch := (keyMatches_iff (hlabel slot) hshadows.filled).mpr
        (.inr hshadows)
      have hfind := hlinked.findSlot_of_foundAt
        ⟨hvisits, hshadows.filled, hmatch⟩
      exact hshadows.other (hown slot (succeedsAt_iff.mpr hfind))
    · have hfind := hlinked.findSlot_of_foundAt hfound
      exact hother (hown p (succeedsAt_iff.mpr hfind))
  · intro hclear slot hsucceeds
    have hfound := foundAt_of_findSlot (succeedsAt_iff.mp hsucceeds)
    obtain hown | hshadows := (keyMatches_iff (hlabel slot) hfound.2.1).mp
      hfound.2.2
    · exact hown
    · exact absurd hshadows
        (hclear slot (arrives_keyHop_of_visits hlabel hfound.1))

theorem two_bytes_le (first second : UInt8) :
    [first, second].length ≤ 16 := by
  simp

/-- A key of two bytes. -/
def twoBytes (first second : UInt8) : Key :=
  ⟨[first, second], two_bytes_le first second⟩

/-- The table with one key, of two bytes, and the hash slot of its first
byte. -/
def longerKey : OwnedTable where
  table := Function.update initTable (getHashSlot threeSlots (twoBytes 97 98))
    (fillEntry initEntry (twoBytes 97 98) 4 0)
  owner := fun _ => twoBytes 97 98

theorem insert_longerKey :
    newMappingEntryByKey threeSlots initTable (twoBytes 97 98) 4 0 =
      .ok longerKey.table :=
  insert_home (by decide) rfl

theorem longerKey_reachable :
    Reachable (ownedMachine threeSlots) longerKey := by
  have hinit : (ownedMachine threeSlots).init
      ⟨initTable, longerKey.owner⟩ := rfl
  have henabled : (ownedMachine threeSlots).enabled
      ⟨initTable, longerKey.owner⟩ (.insert (twoBytes 97 98) 4 0) := trivial
  have howner : ownerAfter ⟨initTable, longerKey.owner⟩ longerKey.table
      (.insert (twoBytes 97 98) 4 0) = longerKey.owner :=
    funext fun _ => ite_self _
  have hstep : (ownedMachine threeSlots).step ⟨initTable, longerKey.owner⟩
      (.insert (twoBytes 97 98) 4 0) = .ok longerKey := by
    have htable : tableStep threeSlots initTable
        (.insert (twoBytes 97 98) 4 0) = .ok longerKey.table :=
      insert_longerKey
    rw [ownedMachine]
    dsimp only
    rw [htable, ok_bind, howner]
    rfl
  exact (Reachable.start hinit).next henabled hstep

theorem succeeds_own_iff_longer :
    (∀ slot, SucceedsAt threeSlots longerKey.table (oneByte 97) slot →
        longerKey.owner slot = oneByte 97) ↔
      ∀ slot, Arrives (keyHop longerKey (oneByte 97))
          (getHashSlot threeSlots (oneByte 97)) slot →
        ¬ Shadows longerKey (oneByte 97) slot :=
  succeeds_own_iff longerKey_reachable (oneByte 97)

/-- A key that was never inserted is found in the entry of a longer one. -/
theorem longer_key_found :
    Reachable (tableMachine threeSlots) longerKey.table ∧
      Reachable (ownedMachine threeSlots) longerKey ∧
      SucceedsAt threeSlots longerKey.table (oneByte 97) 2 ∧
      longerKey.owner 2 = twoBytes 97 98 ∧
      twoBytes 97 98 ≠ oneByte 97 := by
  have hinit : (tableMachine threeSlots).init initTable := rfl
  have hmissing : (tableMachine threeSlots).enabled initTable
      (.insert (twoBytes 97 98) 4 0) := by
    decide +kernel
  have hstep : (tableMachine threeSlots).step initTable
      (.insert (twoBytes 97 98) 4 0) = .ok longerKey.table := insert_longerKey
  refine ⟨?_, longerKey_reachable, ?_, rfl, by decide⟩
  · exact (Reachable.start hinit).next hmissing hstep
  · exact succeedsAt_iff.mpr (by decide +kernel)

end NvmeVirt.KvOwners
