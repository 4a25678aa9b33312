import Mathlib.Logic.Function.Basic
import Mathlib.Order.Nat

/-!
# Linear probing

A table of keys in which a key is looked for from its hash on, slot after
slot, until its own slot or an empty one comes.  When every key of the table
is found this way, filling the slot that a lookup came to keeps it so, and no
key is in two slots.
-/

namespace NvmeVirt.Probing

variable {κ : Type*} [DecidableEq κ]

/-- A lookup of `key` stops at the slot. -/
def Hits (keys : ℕ → Option κ) (key : κ) (slot : ℕ) : Prop :=
  keys slot = none ∨ keys slot = some key

instance (keys : ℕ → Option κ) (key : κ) (slot : ℕ) :
    Decidable (Hits keys key slot) :=
  inferInstanceAs (Decidable (_ ∨ _))

/-- The slots from `start + i` on, `fuel` of them. -/
def probeFrom (keys : ℕ → Option κ) (size start : ℕ) (key : κ) :
    ℕ → ℕ → Option ℕ
  | 0, _ => none
  | fuel + 1, i =>
      if Hits keys key ((start + i) % size) then some ((start + i) % size)
      else probeFrom keys size start key fuel (i + 1)

/-- The slot that the lookup of `key` stops at, if any. -/
def probe (keys : ℕ → Option κ) (size : ℕ) (hash : κ → ℕ) (key : κ) :
    Option ℕ :=
  probeFrom keys size (hash key) key size 0

/-- Every key of the table is found. -/
def Reached (keys : ℕ → Option κ) (size : ℕ) (hash : κ → ℕ) : Prop :=
  ∀ slot key, slot < size → keys slot = some key →
    probe keys size hash key = some slot

variable {keys : ℕ → Option κ} {size start slot : ℕ} {hash : κ → ℕ} {key : κ}

theorem probeFrom_eq_some {fuel i : ℕ} :
    probeFrom keys size start key fuel i = some slot ↔
      ∃ j, i ≤ j ∧ j < i + fuel ∧ (start + j) % size = slot ∧
        Hits keys key slot ∧
        ∀ k, i ≤ k → k < j → ¬ Hits keys key ((start + k) % size) := by
  induction fuel generalizing i with
  | zero =>
      constructor
      · intro hfound
        cases hfound
      · rintro ⟨j, hle, hlt, -⟩
        omega
  | succ fuel ih =>
      rw [probeFrom]
      split_ifs with hhits
      · constructor
        · intro hfound
          cases hfound
          exact ⟨i, le_rfl, by omega, rfl, hhits, fun k hle hlt => by omega⟩
        · rintro ⟨j, hle, -, rfl, -, hbefore⟩
          obtain rfl | hlt := Nat.eq_or_lt_of_le hle
          · rfl
          · exact absurd hhits (hbefore i le_rfl hlt)
      · rw [ih]
        constructor
        · rintro ⟨j, hle, hlt, hslot, hstop, hbefore⟩
          refine ⟨j, by omega, by omega, hslot, hstop, ?_⟩
          intro k hk hkj
          obtain rfl | hik := Nat.eq_or_lt_of_le hk
          · exact hhits
          · exact hbefore k hik hkj
        · rintro ⟨j, hle, hlt, hslot, hstop, hbefore⟩
          obtain rfl | hij := Nat.eq_or_lt_of_le hle
          · rw [hslot] at hhits
            exact absurd hstop hhits
          · exact ⟨j, hij, by omega, hslot, hstop,
              fun k hk hkj => hbefore k (by omega) hkj⟩

/-- What a lookup that stops at `slot` has seen. -/
theorem probe_eq_some :
    probe keys size hash key = some slot ↔
      ∃ j < size, (hash key + j) % size = slot ∧ Hits keys key slot ∧
        ∀ k < j, ¬ Hits keys key ((hash key + k) % size) := by
  rw [probe, probeFrom_eq_some]
  constructor
  · rintro ⟨j, -, hlt, hslot, hstop, hbefore⟩
    exact ⟨j, by omega, hslot, hstop, fun k hk => hbefore k (Nat.zero_le k) hk⟩
  · rintro ⟨j, hlt, hslot, hstop, hbefore⟩
    exact ⟨j, Nat.zero_le j, by omega, hslot, hstop, fun k _ hk => hbefore k hk⟩

/-- A lookup that stops nowhere has seen every slot. -/
theorem probe_eq_none :
    probe keys size hash key = none ↔ ∀ slot < size, ¬ Hits keys key slot := by
  constructor
  · intro hnone slot hslot hhits
    -- the lookup comes to the slot, unless it stops before
    have hplace : ∃ j, j < size ∧ Hits keys key ((hash key + j) % size) := by
      refine ⟨(slot + (size - hash key % size)) % size,
        Nat.mod_lt _ (by omega), ?_⟩
      have hmod : hash key % size < size := Nat.mod_lt _ (by omega)
      have hsum : hash key % size + (slot + (size - hash key % size)) =
          slot + size := by omega
      rw [Nat.add_mod_mod, ← Nat.mod_add_mod, hsum, Nat.add_mod_right,
        Nat.mod_eq_of_lt hslot]
      exact hhits
    have hfirst := Nat.find_spec hplace
    have hfound : probe keys size hash key =
        some ((hash key + Nat.find hplace) % size) := by
      apply probe_eq_some.mpr
      refine ⟨Nat.find hplace, hfirst.1, rfl, hfirst.2, fun k hk hstop => ?_⟩
      exact Nat.find_min hplace hk ⟨hk.trans hfirst.1, hstop⟩
    rw [hnone] at hfound
    cases hfound
  · intro hnot
    cases hprobe : probe keys size hash key with
    | none => rfl
    | some slot =>
        obtain ⟨j, hlt, rfl, hstop, -⟩ := probe_eq_some.mp hprobe
        have hslot := Nat.mod_lt (hash key + j) (Nat.zero_lt_of_lt hlt)
        exact absurd hstop (hnot _ hslot)

theorem hits_of_probe (h : probe keys size hash key = some slot) :
    Hits keys key slot := by
  obtain ⟨j, -, -, hstop, -⟩ := probe_eq_some.mp h
  exact hstop

theorem lt_of_probe (h : probe keys size hash key = some slot) :
    slot < size := by
  obtain ⟨j, hlt, hslot, -⟩ := probe_eq_some.mp h
  rw [← hslot]
  exact Nat.mod_lt _ (by omega)

/-- A lookup whose first slot answers it. -/
theorem probe_first (hsize : 0 < size)
    (hhits : Hits keys key (hash key % size)) :
    probe keys size hash key = some (hash key % size) := by
  apply probe_eq_some.mpr
  exact ⟨0, hsize, by rw [Nat.add_zero], hhits, fun k hk => by omega⟩

theorem Reached.unique (h : Reached keys size hash) {other : ℕ}
    (hslot : slot < size) (hother : other < size)
    (hkey : keys slot = some key) (hkey' : keys other = some key) :
    slot = other :=
  Option.some.inj ((h slot key hslot hkey).symm.trans (h other key hother hkey'))

/-- The key found again after its slot was filled. -/
theorem probe_update_self (h : probe keys size hash key = some slot) :
    probe (Function.update keys slot (some key)) size hash key = some slot := by
  obtain ⟨j, hlt, hslot, hstop, hbefore⟩ := probe_eq_some.mp h
  apply probe_eq_some.mpr
  refine ⟨j, hlt, hslot, .inr (Function.update_self ..), ?_⟩
  intro k hk hhits
  have hne : (hash key + k) % size ≠ slot := by
    intro heq
    have hnot := hbefore k hk
    rw [heq] at hnot
    exact hnot hstop
  rw [Hits, Function.update_of_ne hne] at hhits
  exact hbefore k hk hhits

/-- Filling the slot that a lookup came to keeps every key reachable: the
lookup of another key passes over filled slots only. -/
theorem Reached.fill (h : Reached keys size hash)
    (hprobe : probe keys size hash key = some slot) :
    Reached (Function.update keys slot (some key)) size hash := by
  intro other key' hother hkey'
  by_cases hslot : other = slot
  · subst hslot
    rw [Function.update_self] at hkey'
    cases hkey'
    exact probe_update_self hprobe
  rw [Function.update_of_ne hslot] at hkey'
  obtain ⟨j, hlt, hplace, hstop, hbefore⟩ :=
    probe_eq_some.mp (h other key' hother hkey')
  have hne : key' ≠ key ∨ keys slot = none := by
    by_contra hboth
    push Not at hboth
    obtain ⟨rfl, hfilled⟩ := hboth
    have hsame := h other key' hother hkey'
    rw [hprobe] at hsame
    exact hslot (Option.some.inj hsame).symm
  apply probe_eq_some.mpr
  refine ⟨j, hlt, hplace, .inr ?_, ?_⟩
  · rw [Function.update_of_ne hslot, hkey']
  · intro k hk hhits
    by_cases heq : (hash key' + k) % size = slot
    · rw [heq, Hits, Function.update_self] at hhits
      have hsame : key' = key := by
        obtain hnone | hsome := hhits
        · cases hnone
        · exact (Option.some.inj hsome).symm
      have hnone := hne.resolve_left (fun hdiff => hdiff hsame)
      have hnot := hbefore k hk
      rw [heq] at hnot
      exact hnot (.inl hnone)
    · rw [Hits, Function.update_of_ne heq] at hhits
      exact hbefore k hk hhits

end NvmeVirt.Probing
