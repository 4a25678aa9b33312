import NvmeVirt.Kv.Commands
import NvmeVirt.Kv.TableChanges

/-!
# The loops of the mapping table

Following `next_slot` ends, because a link goes to a slot that was filled
later.  Looking for a free slot ends when there is one: `find_next_slot` goes
around the table and nothing stops it in a full one.
-/

namespace NvmeVirt.KvChains

open NvmeVirt.Kernel
open NvmeVirt.KvCommands
open NvmeVirt.KvLookup
open NvmeVirt.KvMapping
open NvmeVirt.KvTableChanges
open NvmeVirt.Transition
open NvmeVirt.Walk

variable {cfg : KvConfig} {table table' : Table} {key : Key}

/-! ## Following the links -/

/-- The link out of a slot. -/
def link (table : Table) (slot : ℕ) : Option ℕ := (table slot).nextSlot

/-- Following the links from the slot comes to `-1` or to an empty slot after
this many steps. -/
def Stops (table : Table) (count slot : ℕ) : Prop :=
  afterSteps (link table) count slot = none ∨
    ∃ last, afterSteps (link table) count slot = some last ∧
      (table last).memOffset = none

theorem afterSteps_link (h : Linked cfg table) {slot : ℕ}
    (hslot : slot < cfg.hashSlots) :
    afterSteps (link table) cfg.hashSlots slot = none := by
  obtain ⟨rank, hrank⟩ := h.ranked
  apply afterSteps_eq_none (above cfg.hashSlots rank)
  · intro p q hlink
    exact above_lt (h.next_lt p q hlink).2 (hrank p q hlink)
  · exact above_lt_count rank hslot

/-- From every slot of a reachable table the links end, and so do all four
lookups. -/
theorem lookups_terminate (hreach : Reachable (tableMachine cfg) table) :
    (∀ slot < cfg.hashSlots, ∃ count ≤ cfg.hashSlots,
        Stops table count slot) ∧
      ∀ cmd : KvCommand,
        (∃ entry, getMappingEntry cfg table cmd = .ok entry) ∧
        (∃ entry, getMappingEntryByKey cfg table cmd.key = .ok entry) ∧
        (∃ ret table', updateMappingEntry cfg table cmd.key
          (cmdValueLength cmd) = .ok (ret, table')) ∧
        ∃ entry table', deleteMappingEntry cfg table cmd.key =
          .ok (entry, table') := by
  have hlinked := reachable_linked hreach
  refine ⟨?_, ?_⟩
  · intro slot hslot
    exact ⟨cfg.hashSlots, le_rfl, .inl (afterSteps_link hlinked hslot)⟩
  · intro cmd
    obtain ⟨found, hfind⟩ := hlinked.findSlot_ok cmd.key
    rw [getMappingEntry, getMappingEntryByKey, updateMappingEntry,
      deleteMappingEntry, hfind]
    cases found with
    | none => exact ⟨⟨_, rfl⟩, ⟨_, rfl⟩, ⟨_, _, rfl⟩, ⟨_, _, rfl⟩⟩
    | some slot => exact ⟨⟨_, rfl⟩, ⟨_, rfl⟩, ⟨_, _, rfl⟩, ⟨_, _, rfl⟩⟩

theorem lookups_terminate_collided :
    (∀ slot < threeSlots.hashSlots, ∃ count ≤ threeSlots.hashSlots,
        Stops (tableAfter collided) count slot) ∧
      ∀ cmd : KvCommand,
        (∃ entry, getMappingEntry threeSlots (tableAfter collided) cmd =
          .ok entry) ∧
        (∃ entry, getMappingEntryByKey threeSlots (tableAfter collided)
          cmd.key = .ok entry) ∧
        (∃ ret table', updateMappingEntry threeSlots (tableAfter collided)
          cmd.key (cmdValueLength cmd) = .ok (ret, table')) ∧
        ∃ entry table', deleteMappingEntry threeSlots (tableAfter collided)
          cmd.key = .ok (entry, table') :=
  lookups_terminate collided_reachable

/-! ## Looking for a free slot -/

/-- The slot that comes `distance` slots after `start`, around the table. -/
def around (cfg : KvConfig) (start distance : ℕ) : ℕ :=
  (start + distance) % cfg.hashSlots

/-- The first empty slot from `start` on, around the table. -/
def FirstFree (cfg : KvConfig) (table : Table) (start slot : ℕ) : Prop :=
  ∃ distance < cfg.hashSlots, slot = around cfg start distance ∧
    (table slot).memOffset = none ∧
    ∀ before < distance, (table (around cfg start before)).memOffset ≠ none

/-- There is an empty slot. -/
def HasFree (cfg : KvConfig) (table : Table) : Prop :=
  ∃ free < cfg.hashSlots, (table free).memOffset = none

/-- The step of the loop of `find_next_slot`. -/
theorem around_succ {start : ℕ} (hstart : start < cfg.hashSlots)
    (distance : ℕ) :
    around cfg start (distance + 1) =
      around cfg (if cfg.hashSlots ≤ start + 1 then 0 else start + 1)
        distance := by
  have hnext : (if cfg.hashSlots ≤ start + 1 then 0 else start + 1) =
      (start + 1) % cfg.hashSlots := by
    split_ifs with hwrap
    · rw [Nat.le_antisymm hwrap hstart, Nat.mod_self]
    · exact (Nat.mod_eq_of_lt (Nat.not_le.mp hwrap)).symm
  rw [hnext, around, around, Nat.mod_add_mod, Nat.add_assoc,
    Nat.add_comm 1 distance]

theorem around_zero {start : ℕ} (hstart : start < cfg.hashSlots) :
    around cfg start 0 = start := Nat.mod_eq_of_lt hstart

/-- The loop returns the first empty slot it comes to. -/
theorem freeSlotFrom_first {fuel start slot : ℕ} (hstart : start < cfg.hashSlots)
    (hrun : freeSlotFrom cfg table fuel start = .ok slot) :
    ∃ distance < fuel, slot = around cfg start distance ∧
      (table slot).memOffset = none ∧
      ∀ before < distance,
        (table (around cfg start before)).memOffset ≠ none := by
  induction fuel generalizing start with
  | zero => cases hrun
  | succ fuel ih =>
      rw [freeSlotFrom] at hrun
      by_cases hfree : (table start).memOffset = none
      · rw [if_pos hfree] at hrun
        cases hrun
        exact ⟨0, Nat.succ_pos _, (around_zero hstart).symm, hfree,
          fun before hbefore => absurd hbefore (Nat.not_lt_zero _)⟩
      · rw [if_neg hfree] at hrun
        have hnext : (if cfg.hashSlots ≤ start + 1 then 0 else start + 1) <
            cfg.hashSlots := by
          have hpos := cfg.hashSlots_pos
          split_ifs <;> omega
        obtain ⟨distance, hlt, hslot, hnone, hbefore⟩ := ih hnext hrun
        refine ⟨distance + 1, Nat.succ_lt_succ hlt, ?_, hnone, ?_⟩
        · rw [around_succ hstart]
          exact hslot
        · intro before hlt'
          cases before with
          | zero =>
              rw [around_zero hstart]
              exact hfree
          | succ before =>
              rw [around_succ hstart]
              exact hbefore before (Nat.lt_of_succ_lt_succ hlt')

/-- In a full table the loop never ends. -/
theorem freeSlotFrom_full (hfull : ¬ HasFree cfg table) (fuel : ℕ) {start : ℕ}
    (hstart : start < cfg.hashSlots) :
    freeSlotFrom cfg table fuel start = .error .divergence := by
  induction fuel generalizing start with
  | zero => rfl
  | succ fuel ih =>
      have hfilled : (table start).memOffset ≠ none :=
        fun hnone => hfull ⟨start, hstart, hnone⟩
      rw [freeSlotFrom, if_neg hfilled]
      apply ih
      have hpos := cfg.hashSlots_pos
      split_ifs <;> omega

/-- An insertion ends.  With an empty slot in the table, `find_next_slot` gives
the first one and the key is inserted; with none, no entry changes. -/
structure InsertEnds (cfg : KvConfig) (table : Table) (key : Key)
    (valLen valOffset : ℕ) : Prop where
  first : HasFree cfg table →
    ∃ slot, findNextSlot cfg table (getHashSlot cfg key) =
        .ok (slot, getHashSlot cfg key) ∧
      FirstFree cfg table (getHashSlot cfg key) slot
  ends : ∃ table', newMappingEntryByKey cfg table key valLen valOffset =
      .ok table' ∧
    (HasFree cfg table →
      ∃ slot, Inserted cfg table key valLen valOffset slot table') ∧
    (¬ HasFree cfg table → ∀ p, (table' p).key = (table p).key ∧
      (table' p).memOffset = (table p).memOffset ∧
      (table' p).length = (table p).length)

theorem findNextSlot_first (hfree : HasFree cfg table) {start : ℕ}
    (hstart : start < cfg.hashSlots) :
    ∃ slot, findNextSlot cfg table start = .ok (slot, start) ∧
      FirstFree cfg table start slot := by
  obtain ⟨free, hlt, hnone⟩ := hfree
  have hfuel : (if start ≤ free then free - start
      else cfg.hashSlots - start + free) < cfg.hashSlots := by
    split_ifs <;> omega
  obtain ⟨slot, hrun⟩ := freeSlotFrom_ok hstart hlt hnone hfuel
  refine ⟨slot, ?_, freeSlotFrom_first hstart hrun⟩
  rw [findNextSlot, hrun]
  rfl

/-- An insertion into a full table goes around it without end. -/
theorem newMappingEntryByKey_full (hfull : ¬ HasFree cfg table)
    {valOffset : ℕ} (hoffset : valOffset < cfg.storageSize) (key : Key)
    (valLen : ℕ) :
    newMappingEntryByKey cfg table key valLen valOffset =
      .error .divergence := by
  have hhome := getHashSlot_lt cfg key
  have hfilled : (table (getHashSlot cfg key)).memOffset ≠ none :=
    fun hnone => hfull ⟨_, hhome, hnone⟩
  rw [newMappingEntryByKey, nvmevAssert_of hoffset, ok_bind]
  dsimp only
  rw [if_neg hfilled, findNextSlot, freeSlotFrom_full hfull _ hhome]
  rfl

/-- An insertion does what it is meant to exactly when there is an empty slot;
with none, no number of rounds of the loop is enough. -/
theorem insertEnds_iff (cfg : KvConfig) (table : Table) (key : Key)
    (valLen : ℕ) {valOffset : ℕ} (hoffset : valOffset < cfg.storageSize) :
    (InsertEnds cfg table key valLen valOffset ↔ HasFree cfg table) ∧
      (¬ HasFree cfg table → ∀ fuel,
        freeSlotFrom cfg table fuel (getHashSlot cfg key) =
          .error .divergence) := by
  refine ⟨⟨?_, ?_⟩, ?_⟩
  · rintro ⟨-, table', hrun, -, -⟩
    by_contra hfull
    rw [newMappingEntryByKey_full hfull hoffset] at hrun
    cases hrun
  · intro hfree
    obtain ⟨table', hrun⟩ := newMappingEntryByKey_ok hoffset hfree key valLen
    exact ⟨fun _ => findNextSlot_first hfree (getHashSlot_lt cfg key), table',
      hrun, fun _ => newMappingEntryByKey_cases hrun,
      fun hfull => absurd hfree hfull⟩
  · intro hfull fuel
    exact freeSlotFrom_full hfull fuel (getHashSlot_lt cfg key)

theorem insertEnds_iff_collided :
    (InsertEnds threeSlots (tableAfter collided) (oneByte 103) 4 8 ↔
        HasFree threeSlots (tableAfter collided)) ∧
      (¬ HasFree threeSlots (tableAfter collided) → ∀ fuel,
        freeSlotFrom threeSlots (tableAfter collided) fuel
            (getHashSlot threeSlots (oneByte 103)) = .error .divergence) :=
  insertEnds_iff threeSlots (tableAfter collided) (oneByte 103) 4 (by decide)

/-- Three keys in a table of three slots. -/
def allFilled : List TableAction :=
  [.insert (oneByte 97) 4 0, .insert (oneByte 100) 4 4,
    .insert (oneByte 103) 4 8]

/-- The fourth key, which is not in the table, is looked for a slot forever. -/
theorem full_table_hangs :
    Reachable (tableMachine threeSlots) (tableAfter allFilled) ∧
      NotFound threeSlots (tableAfter allFilled) (oneByte 98) ∧
      ¬ InsertEnds threeSlots (tableAfter allFilled) (oneByte 98) 4 12 := by
  refine ⟨reachable_tableAfter (by decide +kernel), ?_, ?_⟩
  · rw [NotFound]
    decide +kernel
  · rintro ⟨-, table', hrun, -, -⟩
    have hfull : ¬ HasFree threeSlots (tableAfter allFilled) := by
      rw [HasFree]
      decide +kernel
    rw [newMappingEntryByKey_full hfull (by decide)] at hrun
    cases hrun

end NvmeVirt.KvChains
