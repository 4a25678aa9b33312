import Mathlib.Data.Finset.Lattice.Fold
import NvmeVirt.Kv.Mapping

/-!
# Lookups

What the lookup of a key comes to, as a walk along `next_slot`, and what an
insertion and a deletion change of it.  Links go to slots that were filled
later, so every lookup ends.
-/

namespace NvmeVirt.KvLookup

open NvmeVirt.Kernel
open NvmeVirt.KvMapping
open NvmeVirt.Transition
open NvmeVirt.Walk

/-- Where a lookup goes on to from a slot. -/
def hop (table : Table) (key : Key) (slot : ℕ) : Option ℕ :=
  if (table slot).memOffset = none then none
  else if keyMatches (table slot) key then none
  else (table slot).nextSlot

/-- A lookup that comes to the slot finds the key there. -/
def Hits (table : Table) (key : Key) (slot : ℕ) : Prop :=
  (table slot).memOffset ≠ none ∧ keyMatches (table slot) key

/-- The lookup of the key visits the slot. -/
def Visits (cfg : KvConfig) (table : Table) (key : Key) (slot : ℕ) : Prop :=
  Arrives (hop table key) (getHashSlot cfg key) slot

/-- The lookup of the key finds it in the slot. -/
def FoundAt (cfg : KvConfig) (table : Table) (key : Key) (slot : ℕ) : Prop :=
  Visits cfg table key slot ∧ Hits table key slot

/-- The lookup of the key visits the slot and goes on from there. -/
def GoesOn (cfg : KvConfig) (table : Table) (key : Key) (slot : ℕ) : Prop :=
  Visits cfg table key slot ∧ (table slot).memOffset ≠ none ∧
    ¬ keyMatches (table slot) key

/-- Only filled slots are linked, and links go to slots filled later. -/
structure Linked (cfg : KvConfig) (table : Table) : Prop where
  next_of_free : ∀ p, (table p).memOffset = none → (table p).nextSlot = none
  next_lt : ∀ p q, (table p).nextSlot = some q →
    p < cfg.hashSlots ∧ q < cfg.hashSlots
  ranked : ∃ rank : ℕ → ℕ, ∀ p q, (table p).nextSlot = some q → rank p < rank q

variable {cfg : KvConfig} {table table' : Table} {key : Key}

theorem getHashSlot_lt (cfg : KvConfig) (key : Key) :
    getHashSlot cfg key < cfg.hashSlots := Nat.mod_lt _ cfg.hashSlots_pos

theorem Hits.hop_eq {slot : ℕ} (h : Hits table key slot) :
    hop table key slot = none := by
  rw [hop, if_neg h.1, if_pos h.2]

/-! ## The loop -/

/-- The loop comes to the end of the walk, and reports whether the key is
there. -/
theorem searchFrom_spec {fuel slot : ℕ} {found : Option ℕ}
    (hrun : searchFrom table key fuel slot = .ok found) :
    ∃ last, Ends (hop table key) slot last ∧
      (found = some last ∧ Hits table key last ∨
        found = none ∧ ¬ Hits table key last) := by
  induction fuel generalizing slot with
  | zero => cases hrun
  | succ fuel ih =>
      rw [searchFrom] at hrun
      by_cases hfree : (table slot).memOffset = none
      · rw [if_pos hfree] at hrun
        cases hrun
        refine ⟨slot, ⟨Arrives.refl, if_pos hfree⟩, .inr ⟨rfl, ?_⟩⟩
        exact fun hhits => hhits.1 hfree
      rw [if_neg hfree] at hrun
      by_cases hmatch : keyMatches (table slot) key
      · rw [if_pos hmatch] at hrun
        cases hrun
        have hhits : Hits table key slot := ⟨hfree, hmatch⟩
        exact ⟨slot, ⟨Arrives.refl, hhits.hop_eq⟩, .inl ⟨rfl, hhits⟩⟩
      rw [if_neg hmatch] at hrun
      have hhop : hop table key slot = (table slot).nextSlot := by
        rw [hop, if_neg hfree, if_neg hmatch]
      cases hnext : (table slot).nextSlot with
      | none =>
          rw [hnext] at hrun hhop
          cases hrun
          refine ⟨slot, ⟨Arrives.refl, hhop⟩, .inr ⟨rfl, ?_⟩⟩
          exact fun hhits => hmatch hhits.2
      | some next =>
          rw [hnext] at hrun hhop
          obtain ⟨last, ⟨harrives, hlast⟩, hfound⟩ := ih hrun
          exact ⟨last, ⟨harrives.head hhop, hlast⟩, hfound⟩

/-- The loop ends when every link lowers `height`. -/
theorem searchFrom_ok (height : ℕ → ℕ)
    (hnext : ∀ p q, (table p).nextSlot = some q → height q < height p)
    {fuel slot : ℕ} (hfuel : height slot < fuel) :
    ∃ found, searchFrom table key fuel slot = .ok found := by
  induction fuel generalizing slot with
  | zero => exact absurd hfuel (Nat.not_lt_zero _)
  | succ fuel ih =>
      rw [searchFrom]
      split_ifs
      · exact ⟨none, rfl⟩
      · exact ⟨some slot, rfl⟩
      · cases hlink : (table slot).nextSlot with
        | none => exact ⟨none, rfl⟩
        | some next =>
            have hlt := hnext slot next hlink
            exact ih (by omega)

theorem Linked.findSlot_ok (h : Linked cfg table) (key : Key) :
    ∃ found, findSlot cfg table key = .ok found := by
  obtain ⟨rank, hrank⟩ := h.ranked
  have hle := above_le cfg.hashSlots rank (getHashSlot cfg key)
  apply searchFrom_ok (above cfg.hashSlots rank)
  · intro p q hlink
    exact above_lt (h.next_lt p q hlink).2 (hrank p q hlink)
  · exact Nat.lt_succ_of_le hle

theorem FoundAt.unique {slot last : ℕ} (h : FoundAt cfg table key slot)
    (hends : Ends (hop table key) (getHashSlot cfg key) last) : last = slot :=
  hends.unique ⟨h.1, h.2.hop_eq⟩

theorem FoundAt.eq {slot slot' : ℕ} (h : FoundAt cfg table key slot)
    (h' : FoundAt cfg table key slot') : slot = slot' :=
  h'.unique ⟨h.1, h.2.hop_eq⟩

theorem foundAt_of_findSlot {slot : ℕ}
    (hrun : findSlot cfg table key = .ok (some slot)) :
    FoundAt cfg table key slot := by
  obtain ⟨last, hends, ⟨hfound, hhits⟩ | ⟨hfound, -⟩⟩ := searchFrom_spec hrun
  · cases hfound
    exact ⟨hends.1, hhits⟩
  · cases hfound

theorem not_foundAt_of_findSlot (hrun : findSlot cfg table key = .ok none)
    (slot : ℕ) : ¬ FoundAt cfg table key slot := by
  intro hfoundAt
  obtain ⟨last, hends, ⟨hfound, -⟩ | ⟨-, hmiss⟩⟩ := searchFrom_spec hrun
  · cases hfound
  · rw [hfoundAt.unique hends] at hmiss
    exact hmiss hfoundAt.2

theorem Linked.findSlot_of_foundAt (h : Linked cfg table) {slot : ℕ}
    (hfoundAt : FoundAt cfg table key slot) :
    findSlot cfg table key = .ok (some slot) := by
  obtain ⟨found, hrun⟩ := h.findSlot_ok key
  cases found with
  | none => exact absurd hfoundAt (not_foundAt_of_findSlot hrun slot)
  | some slot' =>
      rw [hrun, hfoundAt.eq (foundAt_of_findSlot hrun)]

theorem Linked.findSlot_of_not_foundAt (h : Linked cfg table)
    (hmiss : ∀ slot, ¬ FoundAt cfg table key slot) :
    findSlot cfg table key = .ok none := by
  obtain ⟨found, hrun⟩ := h.findSlot_ok key
  cases found with
  | none => exact hrun
  | some slot => exact absurd (foundAt_of_findSlot hrun) (hmiss slot)

/-- The tables differ in no more than the lengths of entries. -/
def SameLinks (table table' : Table) : Prop :=
  ∀ p, (table' p).key = (table p).key ∧
    (table' p).memOffset = (table p).memOffset ∧
    (table' p).nextSlot = (table p).nextSlot

/-- Lookups do not look at lengths. -/
theorem SameLinks.findSlot_eq (h : SameLinks table table') (key : Key) :
    findSlot cfg table' key = findSlot cfg table key := by
  have hsearch : ∀ fuel slot,
      searchFrom table' key fuel slot = searchFrom table key fuel slot := by
    intro fuel
    induction fuel with
    | zero => exact fun _ => rfl
    | succ fuel ih =>
        intro slot
        obtain ⟨hkey, hoffset, hnext⟩ := h slot
        rw [searchFrom, searchFrom, keyMatches, keyMatches, hkey, hoffset,
          hnext]
        cases (table slot).nextSlot with
        | none => rfl
        | some next =>
            dsimp only
            rw [ih next]
  exact hsearch _ _

/-! ## What `get_mapping_entry` reports -/

theorem getMappingEntryByKey_of_some {slot : ℕ}
    (hrun : findSlot cfg table key = .ok (some slot)) :
    getMappingEntryByKey cfg table key = .ok
      { table slot with key := copyKey clearedEntry.key key } := by
  rw [getMappingEntryByKey, hrun]
  rfl

theorem getMappingEntryByKey_of_none
    (hrun : findSlot cfg table key = .ok none) :
    getMappingEntryByKey cfg table key = .ok clearedEntry := by
  rw [getMappingEntryByKey, hrun]
  rfl

theorem Linked.found_iff (h : Linked cfg table) (key : Key)
    (offset length : ℕ) :
    Found cfg table key offset length ↔
      ∃ slot, FoundAt cfg table key slot ∧
        (table slot).memOffset = some offset ∧
        (table slot).length = length := by
  constructor
  · rintro ⟨entry, hget, hoffset, hlength⟩
    obtain ⟨found, hrun⟩ := h.findSlot_ok key
    cases found with
    | none =>
        rw [getMappingEntryByKey_of_none hrun] at hget
        cases hget
        cases hoffset
    | some slot =>
        rw [getMappingEntryByKey_of_some hrun] at hget
        cases hget
        exact ⟨slot, foundAt_of_findSlot hrun, hoffset, hlength⟩
  · rintro ⟨slot, hfoundAt, hoffset, hlength⟩
    have hrun := h.findSlot_of_foundAt hfoundAt
    exact ⟨_, getMappingEntryByKey_of_some hrun, hoffset, hlength⟩

theorem Linked.notFound_iff (h : Linked cfg table) (key : Key) :
    NotFound cfg table key ↔ ∀ slot, ¬ FoundAt cfg table key slot := by
  constructor
  · intro hmissing slot hfoundAt
    have hrun := h.findSlot_of_foundAt hfoundAt
    rw [NotFound, getMappingEntryByKey_of_some hrun] at hmissing
    have hoffset := congrArg MappingEntry.memOffset (Except.ok.inj hmissing)
    exact hfoundAt.2.1 hoffset
  · intro hmiss
    exact getMappingEntryByKey_of_none (h.findSlot_of_not_foundAt hmiss)

/-! ## Free slots -/

/-- What `find_next_slot` returns is free. -/
theorem freeSlotFrom_spec {fuel start slot : ℕ} (hstart : start < cfg.hashSlots)
    (hrun : freeSlotFrom cfg table fuel start = .ok slot) :
    slot < cfg.hashSlots ∧ (table slot).memOffset = none := by
  induction fuel generalizing start with
  | zero => cases hrun
  | succ fuel ih =>
      rw [freeSlotFrom] at hrun
      split_ifs at hrun with hfree
      · cases hrun
        exact ⟨hstart, hfree⟩
      · exact ih cfg.hashSlots_pos hrun
      · exact ih (by omega) hrun

/-- It finds one when there is one: the distance to it shrinks. -/
theorem freeSlotFrom_ok {fuel start free : ℕ} (hstart : start < cfg.hashSlots)
    (hlt : free < cfg.hashSlots) (hfree : (table free).memOffset = none)
    (hfuel : (if start ≤ free then free - start
      else cfg.hashSlots - start + free) < fuel) :
    ∃ slot, freeSlotFrom cfg table fuel start = .ok slot := by
  induction fuel generalizing start with
  | zero => exact absurd hfuel (Nat.not_lt_zero _)
  | succ fuel ih =>
      rw [freeSlotFrom]
      by_cases hhere : (table start).memOffset = none
      · exact ⟨start, if_pos hhere⟩
      · rw [if_neg hhere]
        have hne : start ≠ free := fun heq => hhere (heq ▸ hfree)
        apply ih
        · split_ifs <;> omega
        · split_ifs at hfuel ⊢ <;> omega

end NvmeVirt.KvLookup
