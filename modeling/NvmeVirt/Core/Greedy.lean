import Mathlib.Algebra.BigOperators.Intervals
import Mathlib.Algebra.Order.BigOperators.Group.Finset
import Mathlib.Order.Lattice.Nat

/-!
# Taking greedily from a table

An amount is taken from the places of a table, from a start place onward: each
place gives what it has until nothing is missing.
-/

namespace NvmeVirt.Greedy

/-- What `count` places from `start` onward have together. -/
def offered (table : ℕ → ℕ) (start count : ℕ) : ℕ :=
  ∑ step ∈ Finset.range count, table (start + step)

/-- The table after `amount` has been taken from it. -/
def taken (table : ℕ → ℕ) (start amount : ℕ) : ℕ → ℕ := fun place =>
  if start ≤ place then
    table place - (amount - offered table start (place - start))
  else table place

/-- How many places after the first one are needed. -/
noncomputable def extra (table : ℕ → ℕ) (start amount : ℕ) : ℕ :=
  sInf {step | amount ≤ offered table start (step + 1)}

section

variable {table : ℕ → ℕ} {start amount count : ℕ}

@[simp]
theorem offered_zero (table : ℕ → ℕ) (start : ℕ) : offered table start 0 = 0 :=
  Finset.sum_range_zero _

theorem offered_one (table : ℕ → ℕ) (start : ℕ) :
    offered table start 1 = table start := Finset.sum_range_one _

/-- The first place and the places behind it. -/
theorem offered_succ (table : ℕ → ℕ) (start count : ℕ) :
    offered table start (count + 1) =
      table start + offered table (start + 1) count := by
  rw [offered, Finset.sum_range_succ', Nat.add_comm]
  congr 1
  refine Finset.sum_congr rfl fun step _ => congrArg table ?_
  omega

theorem offered_mono {count' : ℕ} (hle : count ≤ count') :
    offered table start count ≤ offered table start count' :=
  Finset.sum_le_sum_of_subset (Finset.range_mono hle)

theorem le_offered (table : ℕ → ℕ) (start : ℕ) (hpos : 0 < count) :
    table start ≤ offered table start count := by
  rw [← offered_one table start]
  exact offered_mono hpos

theorem offered_le {bound : ℕ} (hbound : ∀ place, table place ≤ bound)
    (start count : ℕ) : offered table start count ≤ count * bound := by
  have hsum := Finset.sum_le_card_nsmul (Finset.range count)
    (fun step => table (start + step)) bound fun step _ => hbound _
  rw [offered]
  rwa [Finset.card_range, nsmul_eq_mul] at hsum

/-- What lies in front of the places does not matter. -/
theorem offered_update {place : ℕ} (hlt : place < start) (value : ℕ) :
    offered (Function.update table place value) start count =
      offered table start count := by
  refine Finset.sum_congr rfl fun step _ => Function.update_of_ne ?_ ..
  omega

theorem taken_le (place : ℕ) : taken table start amount place ≤ table place := by
  rw [taken]
  split_ifs
  · exact Nat.sub_le ..
  · exact Nat.le_refl _

theorem taken_of_le (hle : amount ≤ table start) :
    taken table start amount =
      Function.update table start (table start - amount) := by
  funext place
  rw [taken]
  rcases Nat.lt_trichotomy place start with hlt | rfl | hgt
  · rw [if_neg (Nat.not_le_of_lt hlt), Function.update_of_ne (Nat.ne_of_lt hlt)]
  · rw [if_pos (Nat.le_refl _), Nat.sub_self, offered_zero, Nat.sub_zero,
      Function.update_self]
  · have hfirst : table start ≤ offered table start (place - start) :=
      le_offered table start (by omega)
    rw [if_pos (Nat.le_of_lt hgt), Function.update_of_ne (Nat.ne_of_gt hgt),
      Nat.sub_eq_zero_of_le (hle.trans hfirst), Nat.sub_zero]

theorem extra_of_le (hle : amount ≤ table start) :
    extra table start amount = 0 := by
  refine Nat.le_zero.mp (Nat.sInf_le ?_)
  rw [Set.mem_ofPred_eq, Nat.zero_add, offered_one]
  exact hle

/-- A place that has too little is emptied, and the next ones give the rest. -/
theorem taken_of_ge (hge : table start ≤ amount) :
    taken table start amount =
      taken (Function.update table start 0) (start + 1)
        (amount - table start) := by
  funext place
  rw [taken, taken]
  rcases Nat.lt_trichotomy place start with hlt | rfl | hgt
  · rw [if_neg (by omega), if_neg (by omega),
      Function.update_of_ne (Nat.ne_of_lt hlt)]
  · rw [if_pos (Nat.le_refl _), if_neg (by omega), Function.update_self,
      Nat.sub_self, offered_zero, Nat.sub_zero, Nat.sub_eq_zero_of_le hge]
  · have hsplit : place - start = place - (start + 1) + 1 := by omega
    rw [if_pos (by omega), if_pos (by omega),
      Function.update_of_ne (Nat.ne_of_gt hgt),
      offered_update (Nat.lt_add_one start), hsplit, offered_succ,
      Nat.sub_sub]

theorem extra_lt (hpos : 0 < count)
    (hfits : amount ≤ offered table start count) :
    extra table start amount < count := by
  have hle : extra table start amount ≤ count - 1 := by
    refine Nat.sInf_le ?_
    rw [Set.mem_ofPred_eq, Nat.sub_add_cancel hpos]
    exact hfits
  omega

theorem extra_of_lt (hlt : table start < amount)
    (hfits : amount ≤ offered table start count) :
    extra table start amount =
      extra (Function.update table start 0) (start + 1)
        (amount - table start) + 1 := by
  have hstep : ∀ step, amount ≤ offered table start (step + 1 + 1) ↔
      amount - table start ≤
        offered (Function.update table start 0) (start + 1) (step + 1) := by
    intro step
    rw [offered_succ, offered_update (Nat.lt_add_one start)]
    omega
  have hfirst : ¬ amount ≤ offered table start (0 + 1) := by
    rw [Nat.zero_add, offered_one]
    omega
  have hall : amount ≤ offered table start (count + 1) :=
    hfits.trans (offered_mono (Nat.le_succ count))
  apply Nat.le_antisymm
  · -- the place that is enough from the next one on is enough from here
    refine Nat.sInf_le ((hstep _).mpr (Nat.sInf_mem (s := {step |
      amount - table start ≤
        offered (Function.update table start 0) (start + 1) (step + 1)})
      ⟨count, (hstep count).mp ?_⟩))
    exact hall.trans (offered_mono (Nat.le_succ _))
  · have hmem : amount ≤ offered table start (extra table start amount + 1) :=
      Nat.sInf_mem (s := {step | amount ≤ offered table start (step + 1)})
        ⟨count, hall⟩
    obtain ⟨step, hextra⟩ : ∃ step, extra table start amount = step + 1 := by
      refine Nat.exists_eq_succ_of_ne_zero fun hzero => hfirst ?_
      rwa [hzero] at hmem
    rw [hextra] at hmem ⊢
    exact Nat.succ_le_succ (Nat.sInf_le ((hstep step).mp hmem))

/-- Nothing is taken behind the places that are needed. -/
theorem taken_of_gt {place : ℕ}
    (hfits : amount ≤ offered table start count)
    (hgt : start + extra table start amount < place) :
    taken table start amount place = table place := by
  have hmem : amount ≤ offered table start (extra table start amount + 1) :=
    Nat.sInf_mem (s := {step | amount ≤ offered table start (step + 1)})
      ⟨count, hfits.trans (offered_mono (Nat.le_succ count))⟩
  have hbefore : amount ≤ offered table start (place - start) :=
    hmem.trans (offered_mono (by omega))
  rw [taken, if_pos (by omega), Nat.sub_eq_zero_of_le hbefore, Nat.sub_zero]

end

end NvmeVirt.Greedy
