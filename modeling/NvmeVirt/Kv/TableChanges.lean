import NvmeVirt.Kv.Lookup

/-!
# Insertions and deletions

What an insertion and a deletion do to the table, and to the lookups of other
keys.  An insertion whose hash slot is taken cuts off what the hash slot was
linked to, and a deletion cuts off what the deleted entry was linked to.
-/

namespace NvmeVirt.KvTableChanges

open NvmeVirt.Kernel
open NvmeVirt.KvLookup
open NvmeVirt.KvMapping
open NvmeVirt.Transition
open NvmeVirt.Walk

/-- `table'` is `table` after an insertion into `slot`. -/
structure Inserted (cfg : KvConfig) (table : Table) (key : Key)
    (valLen valOffset slot : ℕ) (table' : Table) : Prop where
  offset_lt : valOffset < cfg.storageSize
  slot_lt : slot < cfg.hashSlots
  free : (table slot).memOffset = none
  home : (table (getHashSlot cfg key)).memOffset = none →
    slot = getHashSlot cfg key
  next : (table (getHashSlot cfg key)).memOffset ≠ none →
    findNextSlot cfg table (getHashSlot cfg key) =
      .ok (slot, getHashSlot cfg key)
  filled : table' slot = fillEntry (table slot) key valLen valOffset
  chained : (table (getHashSlot cfg key)).memOffset ≠ none →
    table' (getHashSlot cfg key) =
      { table (getHashSlot cfg key) with nextSlot := some slot }
  others : ∀ p, p ≠ slot → p ≠ getHashSlot cfg key → table' p = table p

/-- `table'` is `table` after the entry in `slot` was deleted. -/
structure Deleted (table : Table) (slot : ℕ) (table' : Table) : Prop where
  cleared : table' slot = clearedEntry
  others : ∀ p, p ≠ slot → table' p = table p

/-- The table with another length in the entry in `slot`. -/
def resize (table : Table) (slot length : ℕ) : Table :=
  Function.update table slot { table slot with length := length }

section

variable {cfg : KvConfig} {table table' : Table} {key : Key}
  {valLen valOffset slot : ℕ}

/-! ## What the functions do -/

theorem newMappingEntryByKey_cases
    (hrun : newMappingEntryByKey cfg table key valLen valOffset = .ok table') :
    ∃ slot, Inserted cfg table key valLen valOffset slot table' := by
  obtain ⟨⟨⟩, hassert, hrun⟩ := bind_eq_ok hrun
  have hoffset := of_nvmevAssert hassert
  have hlt := getHashSlot_lt cfg key
  dsimp only at hrun
  by_cases hhome : (table (getHashSlot cfg key)).memOffset = none
  · rw [if_pos hhome] at hrun
    cases hrun
    refine ⟨getHashSlot cfg key, ?_⟩
    exact {
      offset_lt := hoffset
      slot_lt := hlt
      free := hhome
      home := fun _ => rfl
      next := fun hne => absurd hhome hne
      filled := Function.update_self _ _ _
      chained := fun hne => absurd hhome hne
      others := fun p hslot _ => Function.update_of_ne hslot _ _ }
  · rw [if_neg hhome] at hrun
    obtain ⟨⟨slot, prevSlot⟩, hnext, hdone⟩ := bind_eq_ok hrun
    obtain ⟨retSlot, hfree, hret⟩ := bind_eq_ok hnext
    cases hret
    cases hdone
    obtain ⟨hslot, hnone⟩ := freeSlotFrom_spec hlt hfree
    have hne : slot ≠ getHashSlot cfg key := fun heq => hhome (heq ▸ hnone)
    refine ⟨slot, ?_⟩
    exact {
      offset_lt := hoffset
      slot_lt := hslot
      free := hnone
      home := fun hfreeHome => absurd hfreeHome hhome
      next := fun _ => hnext
      filled :=
        (Function.update_of_ne hne _ _).trans (Function.update_self _ _ _)
      chained := fun _ => by
        rw [chainMapping, Function.update_self,
          Function.update_of_ne hne.symm]
      others := fun p hslot hp =>
        (Function.update_of_ne hp _ _).trans
          (Function.update_of_ne hslot _ _) }

/-- An insertion into a free hash slot. -/
theorem insert_home (hoffset : valOffset < cfg.storageSize)
    (hfree : (table (getHashSlot cfg key)).memOffset = none) :
    newMappingEntryByKey cfg table key valLen valOffset =
      .ok (Function.update table (getHashSlot cfg key)
        (fillEntry (table (getHashSlot cfg key)) key valLen valOffset)) := by
  rw [newMappingEntryByKey, nvmevAssert_of hoffset, ok_bind]
  dsimp only
  rw [if_pos hfree]
  rfl

/-- An insertion into a table with a free slot comes to an end. -/
theorem newMappingEntryByKey_ok (hoffset : valOffset < cfg.storageSize)
    (hfree : ∃ free, free < cfg.hashSlots ∧ (table free).memOffset = none)
    (key : Key) (valLen : ℕ) :
    ∃ table', newMappingEntryByKey cfg table key valLen valOffset =
      .ok table' := by
  rw [newMappingEntryByKey, nvmevAssert_of hoffset, ok_bind]
  dsimp only
  split_ifs
  · exact ⟨_, rfl⟩
  · obtain ⟨free, hlt, hnone⟩ := hfree
    have hstart := getHashSlot_lt cfg key
    have hfuel : (if getHashSlot cfg key ≤ free then
        free - getHashSlot cfg key
        else cfg.hashSlots - getHashSlot cfg key + free) < cfg.hashSlots := by
      split_ifs <;> omega
    obtain ⟨slot, hrun⟩ := freeSlotFrom_ok hstart hlt hnone hfuel
    rw [findNextSlot, hrun]
    exact ⟨_, rfl⟩

theorem deleteMappingEntry_cases {entry : MappingEntry}
    (hrun : deleteMappingEntry cfg table key = .ok (entry, table')) :
    findSlot cfg table key = .ok none ∧ table' = table ∨
      ∃ slot, findSlot cfg table key = .ok (some slot) ∧
        Deleted table slot table' := by
  obtain ⟨found, hfind, hdone⟩ := bind_eq_ok hrun
  cases found with
  | none =>
      cases hdone
      exact .inl ⟨hfind, rfl⟩
  | some slot =>
      cases hdone
      refine .inr ⟨slot, hfind, ?_⟩
      exact ⟨Function.update_self _ _ _,
        fun p hp => Function.update_of_ne hp _ _⟩

theorem updateMappingEntry_cases {ret : ℕ}
    (hrun : updateMappingEntry cfg table key valLen = .ok (ret, table')) :
    findSlot cfg table key = .ok none ∧ table' = table ∨
      ∃ slot, findSlot cfg table key = .ok (some slot) ∧
        table' = resize table slot valLen := by
  obtain ⟨found, hfind, hdone⟩ := bind_eq_ok hrun
  cases found with
  | none =>
      cases hdone
      exact .inl ⟨hfind, rfl⟩
  | some slot =>
      cases hdone
      exact .inr ⟨slot, hfind, rfl⟩

/-! ## Links -/

theorem linked_initTable : Linked cfg initTable where
  next_of_free _ _ := rfl
  next_lt _ _ h := absurd h (Option.some_ne_none _).symm
  ranked := ⟨id, fun _ _ h => absurd h (Option.some_ne_none _).symm⟩

/-- A table without new links. -/
theorem linked_of_sublinks (h : Linked cfg table)
    (hfree : ∀ p, (table' p).memOffset = none → (table' p).nextSlot = none)
    (hsub : ∀ p q, (table' p).nextSlot = some q →
      (table p).nextSlot = some q) : Linked cfg table' := by
  obtain ⟨rank, hrank⟩ := h.ranked
  exact ⟨hfree, fun p q hlink => h.next_lt p q (hsub p q hlink),
    rank, fun p q hlink => hrank p q (hsub p q hlink)⟩

theorem Deleted.linked (h : Linked cfg table)
    (hdeleted : Deleted table slot table') : Linked cfg table' := by
  apply linked_of_sublinks h
  · intro p hfree
    by_cases hp : p = slot
    · rw [hp, hdeleted.cleared]
      rfl
    · rw [hdeleted.others p hp] at hfree ⊢
      exact h.next_of_free p hfree
  · intro p q hlink
    by_cases hp : p = slot
    · rw [hp, hdeleted.cleared] at hlink
      cases hlink
    · rwa [hdeleted.others p hp] at hlink

theorem linked_of_sameLinks (h : Linked cfg table)
    (hlinks : SameLinks table table') : Linked cfg table' := by
  apply linked_of_sublinks h
  · intro p hfree
    rw [(hlinks p).2.1] at hfree
    rw [(hlinks p).2.2]
    exact h.next_of_free p hfree
  · intro p q hlink
    rwa [(hlinks p).2.2] at hlink

theorem sameLinks_resize (table : Table) (slot length : ℕ) :
    SameLinks table (resize table slot length) := by
  intro p
  by_cases hp : p = slot
  · subst hp
    rw [resize, Function.update_self]
    exact ⟨rfl, rfl, rfl⟩
  · rw [resize, Function.update_of_ne hp]
    exact ⟨rfl, rfl, rfl⟩

/-- The slot that was filled is not linked. -/
theorem Inserted.next_filled (h : Linked cfg table)
    (hins : Inserted cfg table key valLen valOffset slot table') :
    (table' slot).nextSlot = none := by
  rw [hins.filled]
  exact h.next_of_free slot hins.free

/-- The links after an insertion: those from before, and the one from the hash
slot. -/
theorem Inserted.link_cases (h : Linked cfg table)
    (hins : Inserted cfg table key valLen valOffset slot table') {p q : ℕ}
    (hlink : (table' p).nextSlot = some q) :
    p ≠ slot ∧ (p = getHashSlot cfg key ∧ q = slot ∨
      (table p).nextSlot = some q) := by
  have hp : p ≠ slot := by
    intro heq
    rw [heq, hins.next_filled h] at hlink
    cases hlink
  refine ⟨hp, ?_⟩
  by_cases hhome : p = getHashSlot cfg key
  · have hne : (table (getHashSlot cfg key)).memOffset ≠ none :=
      fun hfree => hp (hhome.trans (hins.home hfree).symm)
    rw [hhome, hins.chained hne] at hlink
    exact .inl ⟨hhome, (Option.some.inj hlink).symm⟩
  · rw [hins.others p hp hhome] at hlink
    exact .inr hlink

theorem Inserted.linked (h : Linked cfg table)
    (hins : Inserted cfg table key valLen valOffset slot table') :
    Linked cfg table' := by
  obtain ⟨rank, hrank⟩ := h.ranked
  have hhome := getHashSlot_lt cfg key
  refine ⟨?_, ?_, Function.update rank slot
    ((Finset.range cfg.hashSlots).sup rank + 1), ?_⟩
  · intro p hfree
    by_cases hp : p = slot
    · rw [hp, hins.next_filled h]
    · cases hlink : (table' p).nextSlot with
      | none => rfl
      | some q =>
          by_cases hhome : p = getHashSlot cfg key
          · have hne : (table (getHashSlot cfg key)).memOffset ≠ none :=
              fun hfree => hp (hhome.trans (hins.home hfree).symm)
            rw [hhome, hins.chained hne] at hfree
            exact absurd hfree hne
          · rw [hins.others p hp hhome] at hfree hlink
            rw [h.next_of_free p hfree] at hlink
            cases hlink
  · intro p q hlink
    obtain ⟨-, ⟨rfl, rfl⟩ | hold⟩ := hins.link_cases h hlink
    · exact ⟨hhome, hins.slot_lt⟩
    · exact h.next_lt p q hold
  · intro p q hlink
    obtain ⟨hp, hcases⟩ := hins.link_cases h hlink
    have hp_lt : p < cfg.hashSlots := by
      obtain ⟨rfl, -⟩ | hold := hcases
      · exact hhome
      · exact (h.next_lt p q hold).1
    have hmax : rank p ≤ (Finset.range cfg.hashSlots).sup rank :=
      Finset.le_sup (Finset.mem_range.mpr hp_lt)
    rw [Function.update_of_ne hp]
    by_cases hq : q = slot
    · rw [hq, Function.update_self]
      exact Nat.lt_succ_of_le hmax
    · rw [Function.update_of_ne hq]
      obtain ⟨-, heq⟩ | hold := hcases
      · exact absurd heq hq
      · exact hrank p q hold

/-- One step of a run. -/
theorem linked_step {action : TableAction} (h : Linked cfg table)
    (hstep : tableStep cfg table action = .ok table') : Linked cfg table' := by
  cases action with
  | insert key valLen valOffset =>
      obtain ⟨slot, hins⟩ := newMappingEntryByKey_cases hstep
      exact hins.linked h
  | update key valLen =>
      obtain ⟨⟨ret, after⟩, hupdate, hdone⟩ := bind_eq_ok hstep
      cases hdone
      obtain ⟨-, rfl⟩ | ⟨slot, -, rfl⟩ := updateMappingEntry_cases hupdate
      · exact h
      · exact linked_of_sameLinks h (sameLinks_resize table slot valLen)
  | delete key =>
      obtain ⟨⟨entry, after⟩, hdelete, hdone⟩ := bind_eq_ok hstep
      cases hdone
      obtain ⟨-, rfl⟩ | ⟨slot, -, hdeleted⟩ := deleteMappingEntry_cases hdelete
      · exact h
      · exact hdeleted.linked h

theorem reachable_linked (hreach : Reachable (tableMachine cfg) table) :
    Linked cfg table := by
  apply hreach.invariant (Linked cfg)
  · intro start hstart
    cases hstart
    exact linked_initTable
  · intro before action after hbefore _ hstep
    exact linked_step hbefore hstep

/-! ## Lookups after an insertion -/

theorem keyMatches_fillEntry (entry : MappingEntry) (key : Key)
    (valLen valOffset : ℕ) :
    keyMatches (fillEntry entry key valLen valOffset) key := by
  rw [keyMatches, decide_eq_true_iff]
  exact List.take_left

/-- From the hash slot of the new key, lookups that do not find their key
there now go on to the new entry; from other slots they go on as before. -/
theorem Inserted.hop_eq (h : Linked cfg table)
    (hins : Inserted cfg table key valLen valOffset slot table')
    (other : Key) (p : ℕ) :
    hop table' other p =
      if p = getHashSlot cfg key ∧ (table p).memOffset ≠ none ∧
          ¬ keyMatches (table p) other then some slot
      else hop table other p := by
  by_cases hp : p = slot
  · have hnone : hop table' other p = none := by
      rw [hop]
      rw [hp, hins.next_filled h]
      split_ifs <;> rfl
    rw [hnone, hp, if_neg fun hbad => hbad.2.1 hins.free, hop,
      if_pos hins.free]
  by_cases hhome : p = getHashSlot cfg key
  · have hne : (table p).memOffset ≠ none :=
      fun hfree => hp (hhome.trans (hins.home (hhome ▸ hfree)).symm)
    have hentry : table' p = { table p with nextSlot := some slot } := by
      rw [hhome] at hne ⊢
      exact hins.chained hne
    have hmatch : keyMatches { table p with nextSlot := some slot } other =
        keyMatches (table p) other := rfl
    rw [hop, hop, hentry, hmatch, if_neg hne]
    by_cases hother : keyMatches (table p) other
    · rw [if_pos hother, if_neg fun hbad => hbad.2.2 hother, if_neg hne,
        if_pos hother]
    · rw [if_neg hother, if_pos ⟨hhome, hne, hother⟩]
  · rw [if_neg fun hbad => hhome hbad.1, hop, hop, hins.others p hp hhome]

/-- The entry in another slot keeps its key, offset and length. -/
theorem Inserted.entry_eq
    (hins : Inserted cfg table key valLen valOffset slot table') {p : ℕ}
    (hp : p ≠ slot) :
    (table' p).key = (table p).key ∧
      (table' p).memOffset = (table p).memOffset ∧
      (table' p).length = (table p).length := by
  by_cases hhome : p = getHashSlot cfg key
  · have hne : (table (getHashSlot cfg key)).memOffset ≠ none :=
      fun hfree => hp (hhome.trans (hins.home hfree).symm)
    rw [hhome, hins.chained hne]
    exact ⟨rfl, rfl, rfl⟩
  · rw [hins.others p hp hhome]
    exact ⟨rfl, rfl, rfl⟩

theorem Inserted.hits_iff
    (hins : Inserted cfg table key valLen valOffset slot table') {p : ℕ}
    (hp : p ≠ slot) (other : Key) :
    Hits table' other p ↔ Hits table other p := by
  obtain ⟨hkey, hoffset, -⟩ := hins.entry_eq hp
  rw [Hits, Hits, keyMatches, keyMatches, hkey, hoffset]

/-- A lookup that does not go on from the hash slot of the new key finds what
it found before. -/
theorem Inserted.foundAt_of_not_goesOn (h : Linked cfg table)
    (hins : Inserted cfg table key valLen valOffset slot table')
    {other : Key} {p : ℕ} (hfound : FoundAt cfg table other p)
    (hstays : ¬ GoesOn cfg table other (getHashSlot cfg key)) :
    FoundAt cfg table' other p := by
  have hp : p ≠ slot := fun heq => hfound.2.1 (heq ▸ hins.free)
  refine ⟨hfound.1.congr fun q next harrives hnext => ?_,
    (hins.hits_iff hp other).mpr hfound.2⟩
  rw [hins.hop_eq h, if_neg, hnext]
  rintro ⟨rfl, hne, hmiss⟩
  exact hstays ⟨harrives, hne, hmiss⟩

/-- A lookup that goes on from the hash slot of the new key ends at the new
entry. -/
theorem Inserted.ends_of_goesOn (h : Linked cfg table)
    (hins : Inserted cfg table key valLen valOffset slot table')
    {other : Key} (hgoes : GoesOn cfg table other (getHashSlot cfg key)) :
    Ends (hop table' other) (getHashSlot cfg other) slot := by
  obtain ⟨harrives, hne, hmiss⟩ := hgoes
  have hhome : Arrives (hop table' other) (getHashSlot cfg other)
      (getHashSlot cfg key) := by
    apply harrives.congr_off
    intro p hp
    rw [hins.hop_eq h, if_neg fun hbad => hp hbad.1]
  have hlink : hop table' other (getHashSlot cfg key) = some slot := by
    rw [hins.hop_eq h, if_pos ⟨rfl, hne, hmiss⟩]
  refine ⟨hhome.tail hlink, ?_⟩
  rw [hins.hop_eq h, if_neg fun hbad => hbad.2.1 hins.free, hop,
    if_pos hins.free]

/-- A key that is not found stays so, unless its lookup comes to the new entry
and the bytes of the new entry match. -/
theorem Inserted.not_foundAt (h : Linked cfg table)
    (hins : Inserted cfg table key valLen valOffset slot table')
    {other : Key} (hmiss : ∀ p, ¬ FoundAt cfg table other p)
    (hfar : keyMatches (fillEntry (table slot) key valLen valOffset) other →
      ¬ Visits cfg table other slot ∧
        ¬ GoesOn cfg table other (getHashSlot cfg key)) (p : ℕ) :
    ¬ FoundAt cfg table' other p := by
  intro hfound
  have hfilled : p = slot →
      keyMatches (fillEntry (table slot) key valLen valOffset) other := by
    intro heq
    rw [← hins.filled, ← heq]
    exact hfound.2.2
  by_cases hgoes : GoesOn cfg table other (getHashSlot cfg key)
  · have hslot : slot = p := hfound.unique (hins.ends_of_goesOn h hgoes)
    exact (hfar (hfilled hslot.symm)).2 hgoes
  · obtain ⟨last, ⟨harrives, hlast⟩, -⟩ :=
      searchFrom_spec (h.findSlot_of_not_foundAt hmiss)
    have hends : Ends (hop table' other) (getHashSlot cfg other) last := by
      constructor
      · apply harrives.congr
        intro q next hq hnext
        rw [hins.hop_eq h, if_neg, hnext]
        rintro ⟨rfl, hne, hother⟩
        exact hgoes ⟨hq, hne, hother⟩
      · rw [hins.hop_eq h, if_neg, hlast]
        rintro ⟨rfl, hne, hother⟩
        exact hgoes ⟨harrives, hne, hother⟩
    have hp : last = p := hfound.unique hends
    by_cases hslot : p = slot
    · refine (hfar (hfilled hslot)).1 ?_
      rw [← hslot, ← hp]
      exact harrives
    · refine hmiss p ⟨?_, (hins.hits_iff hslot other).mp hfound.2⟩
      rw [← hp]
      exact harrives

/-- The new key is found in its slot. -/
theorem Inserted.foundAt (h : Linked cfg table)
    (hins : Inserted cfg table key valLen valOffset slot table')
    (hmissing : NotFound cfg table key) : FoundAt cfg table' key slot := by
  have hhits : Hits table' key slot := by
    rw [Hits, hins.filled]
    exact ⟨Option.some_ne_none _, keyMatches_fillEntry _ _ _ _⟩
  by_cases hhome : (table (getHashSlot cfg key)).memOffset = none
  · refine ⟨?_, hhits⟩
    rw [hins.home hhome]
    exact Arrives.refl
  · have hmiss : ¬ keyMatches (table (getHashSlot cfg key)) key := fun hmatch =>
      (h.notFound_iff key).mp hmissing _ ⟨Arrives.refl, hhome, hmatch⟩
    exact ⟨(hins.ends_of_goesOn h ⟨Arrives.refl, hhome, hmiss⟩).1, hhits⟩

/-- What a lookup that goes on from the hash slot of the new key finds after
the insertion. -/
theorem Inserted.found_iff_of_goesOn (h : Linked cfg table)
    (hins : Inserted cfg table key valLen valOffset slot table')
    {other : Key} (hgoes : GoesOn cfg table other (getHashSlot cfg key))
    (offset length : ℕ) :
    Found cfg table' other offset length ↔
      keyMatches (fillEntry (table slot) key valLen valOffset) other ∧
        offset = valOffset ∧ length = valLen := by
  have hends := hins.ends_of_goesOn h hgoes
  rw [(hins.linked h).found_iff]
  constructor
  · rintro ⟨p, hfound, hoffset, hlength⟩
    have hslot : slot = p := hfound.unique hends
    rw [← hslot, hins.filled] at hoffset hlength
    have hmatch := hfound.2.2
    rw [← hslot, hins.filled] at hmatch
    exact ⟨hmatch, (Option.some.inj hoffset).symm, hlength.symm⟩
  · rintro ⟨hmatch, rfl, rfl⟩
    have hhits : Hits table' other slot := by
      rw [Hits, hins.filled]
      exact ⟨Option.some_ne_none _, hmatch⟩
    refine ⟨slot, ⟨hends.1, hhits⟩, ?_, ?_⟩
    · rw [hins.filled]
      rfl
    · rw [hins.filled]
      rfl

/-- An insertion keeps what can be found, and makes the new key findable,
exactly when the hash slot of the new key is free, or every findable key whose
lookup goes on from it is a key of the new entry too, with the same offset and
length. -/
theorem newMappingEntry_keeps_iff (hreach : Reachable (tableMachine cfg) table)
    (hfree : ∃ free, free < cfg.hashSlots ∧ (table free).memOffset = none)
    (hmissing : NotFound cfg table key)
    (hoffset : valOffset < cfg.storageSize) (valLen : ℕ) :
    ∃ table', newMappingEntryByKey cfg table key valLen valOffset =
        .ok table' ∧
      (((∀ other offset length, Found cfg table other offset length →
            Found cfg table' other offset length) ∧
          Found cfg table' key valOffset valLen) ↔
        (table (getHashSlot cfg key)).memOffset = none ∨
          ∀ other offset length, Found cfg table other offset length →
            GoesOn cfg table other (getHashSlot cfg key) →
            offset = valOffset ∧ length = valLen ∧
              ∃ slot, findNextSlot cfg table (getHashSlot cfg key) =
                  .ok (slot, getHashSlot cfg key) ∧
                keyMatches (fillEntry (table slot) key valLen valOffset)
                  other) := by
  have hlinked := reachable_linked hreach
  obtain ⟨table', hrun⟩ := newMappingEntryByKey_ok hoffset hfree key valLen
  obtain ⟨slot, hins⟩ := newMappingEntryByKey_cases hrun
  have hlinked' := hins.linked hlinked
  have hnew : Found cfg table' key valOffset valLen := by
    refine (hlinked'.found_iff _ _ _).mpr
      ⟨slot, hins.foundAt hlinked hmissing, ?_, ?_⟩
    · rw [hins.filled]
      rfl
    · rw [hins.filled]
      rfl
  refine ⟨table', hrun, ?_⟩
  constructor
  · rintro ⟨hkeeps, -⟩
    by_cases hhome : (table (getHashSlot cfg key)).memOffset = none
    · exact .inl hhome
    · right
      intro other offset length hfound hgoes
      obtain ⟨hmatch, hoff, hlen⟩ := (hins.found_iff_of_goesOn hlinked hgoes
        offset length).mp (hkeeps other offset length hfound)
      exact ⟨hoff, hlen, slot, hins.next hhome, hmatch⟩
  · intro hcond
    refine ⟨?_, hnew⟩
    intro other offset length hfound
    by_cases hgoes : GoesOn cfg table other (getHashSlot cfg key)
    · obtain hhome | hall := hcond
      · exact absurd hhome hgoes.2.1
      · obtain ⟨hoff, hlen, slot', hnext, hmatch⟩ :=
          hall other offset length hfound hgoes
        rw [hins.next hgoes.2.1] at hnext
        cases hnext
        exact (hins.found_iff_of_goesOn hlinked hgoes _ _).mpr
          ⟨hmatch, hoff, hlen⟩
    · obtain ⟨p, hfoundAt, hoff, hlen⟩ := (hlinked.found_iff _ _ _).mp hfound
      have hp : p ≠ slot := fun heq => hfoundAt.2.1 (heq ▸ hins.free)
      obtain ⟨-, hoffset', hlength'⟩ := hins.entry_eq hp
      exact (hlinked'.found_iff _ _ _).mpr
        ⟨p, hins.foundAt_of_not_goesOn hlinked hfoundAt hgoes,
          hoffset'.trans hoff, hlength'.trans hlen⟩

theorem three_pos : 0 < 3 := by decide

theorem three_lt : 3 < 2 ^ 31 := by decide

theorem storage_lt : 4096 + 2 ^ 20 < 2 ^ 64 := by decide

def threeSlots : KvConfig := ⟨3, 4096, three_pos, three_lt, storage_lt⟩

theorem one_byte_le (byte : UInt8) : [byte].length ≤ 16 := by
  rw [List.length_singleton]
  decide

/-- A key of one byte. -/
def oneByte (byte : UInt8) : Key := ⟨[byte], one_byte_le byte⟩

/-- The table after some actions. -/
def tableAfter (actions : List TableAction) : Table :=
  ((tableMachine threeSlots).run actions initTable).getD initTable

theorem reachable_tableAfter {actions : List TableAction}
    (h : ((tableMachine threeSlots).run actions initTable).isSome = true) :
    Reachable (tableMachine threeSlots) (tableAfter actions) := by
  have hinit : (tableMachine threeSlots).init initTable := rfl
  obtain ⟨table, hrun⟩ := Option.isSome_iff_exists.mp h
  have hafter : tableAfter actions = table := by
    rw [tableAfter, hrun]
    rfl
  rw [hafter]
  exact (Reachable.start hinit).run hrun

/-- Two keys with the same hash slot, `2`. -/
def collided : List TableAction :=
  [.insert (oneByte 97) 4 0, .insert (oneByte 100) 4 4]

theorem collided_reachable :
    Reachable (tableMachine threeSlots) (tableAfter collided) :=
  reachable_tableAfter (by decide +kernel)

theorem collided_second :
    Found threeSlots (tableAfter collided) (oneByte 100) 4 4 := by
  refine ⟨⟨copyKey clearedEntry.key (oneByte 100), some 4, 4, none⟩, ?_,
    rfl, rfl⟩
  decide +kernel

theorem newMappingEntry_keeps_iff_second :
    ∃ table', newMappingEntryByKey threeSlots
        (tableAfter [.insert (oneByte 97) 4 0]) (oneByte 100) 4 4 =
          .ok table' ∧
      (((∀ other offset length,
            Found threeSlots (tableAfter [.insert (oneByte 97) 4 0]) other
              offset length →
            Found threeSlots table' other offset length) ∧
          Found threeSlots table' (oneByte 100) 4 4) ↔
        (tableAfter [.insert (oneByte 97) 4 0]
            (getHashSlot threeSlots (oneByte 100))).memOffset = none ∨
          ∀ other offset length,
            Found threeSlots (tableAfter [.insert (oneByte 97) 4 0]) other
              offset length →
            GoesOn threeSlots (tableAfter [.insert (oneByte 97) 4 0]) other
              (getHashSlot threeSlots (oneByte 100)) →
            offset = 4 ∧ length = 4 ∧
              ∃ slot, findNextSlot threeSlots
                  (tableAfter [.insert (oneByte 97) 4 0])
                  (getHashSlot threeSlots (oneByte 100)) =
                    .ok (slot, getHashSlot threeSlots (oneByte 100)) ∧
                keyMatches (fillEntry
                  (tableAfter [.insert (oneByte 97) 4 0] slot) (oneByte 100)
                  4 4) other) := by
  have hreach : Reachable (tableMachine threeSlots)
      (tableAfter [.insert (oneByte 97) 4 0]) :=
    reachable_tableAfter (by decide +kernel)
  have hmissing : NotFound threeSlots (tableAfter [.insert (oneByte 97) 4 0])
      (oneByte 100) := by
    rw [NotFound]
    decide +kernel
  exact newMappingEntry_keeps_iff hreach
    ⟨0, by decide, by decide +kernel⟩ hmissing (by decide) 4

/-- The third key with the same hash slot makes the second one unfindable. -/
theorem third_key_cuts_second :
    Reachable (tableMachine threeSlots) (tableAfter collided) ∧
      (tableAfter collided 1).memOffset = none ∧
      NotFound threeSlots (tableAfter collided) (oneByte 103) ∧
      Found threeSlots (tableAfter collided) (oneByte 100) 4 4 ∧
      ∃ table', newMappingEntryByKey threeSlots (tableAfter collided)
          (oneByte 103) 4 8 = .ok table' ∧
        NotFound threeSlots table' (oneByte 100) := by
  have hmissing : NotFound threeSlots (tableAfter collided) (oneByte 103) := by
    rw [NotFound]
    decide +kernel
  have hcut : (do
      let table' ← newMappingEntryByKey threeSlots (tableAfter collided)
        (oneByte 103) 4 8
      getMappingEntryByKey threeSlots table' (oneByte 100)) =
        .ok clearedEntry := by
    decide +kernel
  obtain ⟨table', hrun, hafter⟩ := bind_eq_ok hcut
  exact ⟨collided_reachable, by decide +kernel, hmissing, collided_second,
    table', hrun, hafter⟩

/-! ## Lookups after a deletion -/

theorem Deleted.hop_eq (hdeleted : Deleted table slot table') (other : Key)
    (p : ℕ) :
    hop table' other p = if p = slot then none else hop table other p := by
  by_cases hp : p = slot
  · rw [if_pos hp, hop, hp, hdeleted.cleared]
    rfl
  · rw [if_neg hp, hop, hop, hdeleted.others p hp]

/-- A lookup that does not visit the deleted entry finds what it found
before. -/
theorem Deleted.foundAt_of_not_visits (hdeleted : Deleted table slot table')
    {other : Key} {p : ℕ} (hfound : FoundAt cfg table other p)
    (hvisits : ¬ Visits cfg table other slot) :
    FoundAt cfg table' other p := by
  have hp : p ≠ slot := fun heq => hvisits (heq ▸ hfound.1)
  constructor
  · apply Arrives.congr hfound.1
    intro q next harrives hnext
    have hq : q ≠ slot := fun heq => hvisits (heq ▸ harrives)
    rw [hdeleted.hop_eq, if_neg hq, hnext]
  · rw [Hits, hdeleted.others p hp]
    exact hfound.2

/-- A lookup that visits the deleted entry finds nothing. -/
theorem Deleted.notFound_of_visits (h : Linked cfg table)
    (hdeleted : Deleted table slot table') {other : Key}
    (hvisits : Visits cfg table other slot) : NotFound cfg table' other := by
  have hends : Ends (hop table' other) (getHashSlot cfg other) slot := by
    constructor
    · apply Arrives.congr_off hvisits
      intro p hp
      rw [hdeleted.hop_eq, if_neg hp]
    · rw [hdeleted.hop_eq, if_pos rfl]
  refine ((hdeleted.linked h).notFound_iff other).mpr fun p hfound => ?_
  have hslot : slot = p := hfound.unique hends
  have hhits := hfound.2.1
  rw [← hslot, hdeleted.cleared] at hhits
  exact hhits rfl

/-- A deletion makes the key unfindable and keeps what else can be found,
exactly when no other findable key has a lookup that visits the deleted
entry. -/
theorem deleteMappingEntry_keeps_iff
    (hreach : Reachable (tableMachine cfg) table) {offset length : ℕ}
    (hstored : Found cfg table key offset length) :
    ∃ entry table', deleteMappingEntry cfg table key = .ok (entry, table') ∧
      ((NotFound cfg table' key ∧
          ∀ other, other ≠ key → ∀ offset length,
            Found cfg table other offset length →
            Found cfg table' other offset length) ↔
        ∀ other, other ≠ key → ∀ offset length,
          Found cfg table other offset length →
          ∀ slot, findSlot cfg table key = .ok (some slot) →
            ¬ Visits cfg table other slot) := by
  have hlinked := reachable_linked hreach
  obtain ⟨slot, hfoundAt, -, -⟩ := (hlinked.found_iff _ _ _).mp hstored
  have hfind := hlinked.findSlot_of_foundAt hfoundAt
  have hdeleted : Deleted table slot
      (Function.update table slot clearedEntry) :=
    ⟨Function.update_self _ _ _, fun p hp => Function.update_of_ne hp _ _⟩
  have hlinked' := hdeleted.linked hlinked
  refine ⟨clearedEntry, Function.update table slot clearedEntry, ?_, ?_⟩
  · rw [deleteMappingEntry, hfind]
    rfl
  constructor
  · rintro ⟨-, hkeeps⟩ other hother offset length hfound slot' hslot' hvisits
    rw [hfind] at hslot'
    cases hslot'
    obtain ⟨p, hfoundAt', -, -⟩ := (hlinked'.found_iff _ _ _).mp
      (hkeeps other hother offset length hfound)
    exact (hlinked'.notFound_iff other).mp
      (hdeleted.notFound_of_visits hlinked hvisits) p hfoundAt'
  · intro hcond
    refine ⟨hdeleted.notFound_of_visits hlinked hfoundAt.1, ?_⟩
    intro other hother offset length hfound
    have hvisits := hcond other hother offset length hfound slot hfind
    obtain ⟨p, hfoundAt', hoff, hlen⟩ := (hlinked.found_iff _ _ _).mp hfound
    have hp : p ≠ slot := fun heq => hvisits (heq ▸ hfoundAt'.1)
    refine (hlinked'.found_iff _ _ _).mpr
      ⟨p, hdeleted.foundAt_of_not_visits hfoundAt' hvisits, ?_, ?_⟩
    · rw [hdeleted.others p hp]
      exact hoff
    · rw [hdeleted.others p hp]
      exact hlen

theorem deleteMappingEntry_keeps_iff_last :
    ∃ entry table', deleteMappingEntry threeSlots (tableAfter collided)
        (oneByte 100) = .ok (entry, table') ∧
      ((NotFound threeSlots table' (oneByte 100) ∧
          ∀ other, other ≠ oneByte 100 → ∀ offset length,
            Found threeSlots (tableAfter collided) other offset length →
            Found threeSlots table' other offset length) ↔
        ∀ other, other ≠ oneByte 100 → ∀ offset length,
          Found threeSlots (tableAfter collided) other offset length →
          ∀ slot, findSlot threeSlots (tableAfter collided) (oneByte 100) =
              .ok (some slot) →
            ¬ Visits threeSlots (tableAfter collided) other slot) :=
  deleteMappingEntry_keeps_iff collided_reachable collided_second

/-- Deleting the first of two keys with the same hash slot makes the second
one unfindable. -/
theorem delete_cuts_second :
    Reachable (tableMachine threeSlots) (tableAfter collided) ∧
      oneByte 100 ≠ oneByte 97 ∧
      Found threeSlots (tableAfter collided) (oneByte 97) 0 4 ∧
      Found threeSlots (tableAfter collided) (oneByte 100) 4 4 ∧
      ∃ entry table', deleteMappingEntry threeSlots (tableAfter collided)
          (oneByte 97) = .ok (entry, table') ∧
        NotFound threeSlots table' (oneByte 100) := by
  have hfirst : Found threeSlots (tableAfter collided) (oneByte 97) 0 4 := by
    refine ⟨⟨copyKey clearedEntry.key (oneByte 97), some 0, 4, some 0⟩, ?_,
      rfl, rfl⟩
    decide +kernel
  have hcut : (do
      let deleted ← deleteMappingEntry threeSlots (tableAfter collided)
        (oneByte 97)
      getMappingEntryByKey threeSlots deleted.2 (oneByte 100)) =
        .ok clearedEntry := by
    decide +kernel
  obtain ⟨⟨entry, table'⟩, hrun, hafter⟩ := bind_eq_ok hcut
  exact ⟨collided_reachable, by decide, hfirst, collided_second, entry, table',
    hrun, hafter⟩

end

end NvmeVirt.KvTableChanges
