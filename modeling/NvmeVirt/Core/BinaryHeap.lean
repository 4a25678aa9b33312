import Mathlib.Algebra.Group.Nat.Defs
import Mathlib.Data.List.Nodup
import Mathlib.Data.List.Perm.Basic
import Mathlib.Data.Nat.Log
import Mathlib.Logic.Equiv.Basic
import Mathlib.Order.Lattice

/-!
# Binary heaps in one-based arrays

The children of slot `i` are the slots `2 * i` and `2 * i + 1`, and slot `0` is
unused.  Sifting moves one entry along a path of exchanges; `UpOrdered` and
`DownOrdered` say which pairs are still in order while the entry travels, and
the lemmas follow one exchange and the final stop.
-/

namespace NvmeVirt.BinaryHeap

variable {ι P : Type*}

/-- The array with the entries of two slots exchanged. -/
def exchange (array : ℕ → ι) (i j : ℕ) : ℕ → ι :=
  fun slot => array (Equiv.swap i j slot)

@[simp]
theorem exchange_left (array : ℕ → ι) (i j : ℕ) :
    exchange array i j i = array j := by
  simp [exchange]

@[simp]
theorem exchange_right (array : ℕ → ι) (i j : ℕ) :
    exchange array i j j = array i := by
  simp [exchange]

theorem exchange_of_ne (array : ℕ → ι) {i j slot : ℕ} (hi : slot ≠ i)
    (hj : slot ≠ j) : exchange array i j slot = array slot := by
  simp [exchange, Equiv.swap_apply_of_ne_of_ne hi hj]

/-- The entries held in the slots `1, ..., size - 1`. -/
def contents (array : ℕ → ι) (size : ℕ) : List ι :=
  (List.range' 1 (size - 1)).map array

theorem mem_contents {array : ℕ → ι} {size : ℕ} {entry : ι} :
    entry ∈ contents array size ↔
      ∃ slot, 1 ≤ slot ∧ slot < size ∧ array slot = entry := by
  simp only [contents, List.mem_map, List.mem_range'_1]
  constructor
  · rintro ⟨slot, hslot, hentry⟩
    exact ⟨slot, by omega, by omega, hentry⟩
  · rintro ⟨slot, hpos, hlt, hentry⟩
    exact ⟨slot, by omega, hentry⟩

@[simp]
theorem length_contents (array : ℕ → ι) (size : ℕ) :
    (contents array size).length = size - 1 := by
  simp [contents]

theorem contents_congr {left right : ℕ → ι} {size : ℕ}
    (h : ∀ slot, 1 ≤ slot → slot < size → left slot = right slot) :
    contents left size = contents right size := by
  apply List.map_congr_left
  intro slot hslot
  rw [List.mem_range'_1] at hslot
  exact h slot (by omega) (by omega)

theorem contents_succ (array : ℕ → ι) {size : ℕ} (hsize : 1 ≤ size) :
    contents array (size + 1) = contents array size ++ [array size] := by
  obtain ⟨count, rfl⟩ := Nat.exists_eq_add_of_le hsize
  simp only [contents, show 1 + count + 1 - 1 = count + 1 by omega,
    show 1 + count - 1 = count by omega]
  rw [List.range'_concat, List.map_append]
  simp

/-- Exchanging two occupied slots rearranges the contents. -/
theorem contents_exchange (array : ℕ → ι) {size i j : ℕ} (hi : 1 ≤ i)
    (hisize : i < size) (hj : 1 ≤ j) (hjsize : j < size) :
    (contents (exchange array i j) size).Perm (contents array size) := by
  have hslots : ((List.range' 1 (size - 1)).map (Equiv.swap i j)).Perm
      (List.range' 1 (size - 1)) := by
    refine (List.perm_ext_iff_of_nodup
      (List.Nodup.map (Equiv.swap i j).injective List.nodup_range')
      List.nodup_range').mpr ?_
    intro slot
    simp only [List.mem_map, List.mem_range'_1]
    constructor
    · rintro ⟨source, hsource, rfl⟩
      rw [Equiv.swap_apply_def]
      split_ifs <;> omega
    · intro hslot
      refine ⟨Equiv.swap i j slot, ?_, Equiv.swap_apply_self i j slot⟩
      rw [Equiv.swap_apply_def]
      split_ifs <;> omega
  have hmap := hslots.map array
  rw [List.map_map] at hmap
  exact hmap

theorem contents_inj {array : ℕ → ι} {size : ℕ}
    (hnodup : (contents array size).Nodup) {i j : ℕ} (hi : 1 ≤ i)
    (hisize : i < size) (hj : 1 ≤ j) (hjsize : j < size)
    (heq : array i = array j) : i = j := by
  have := List.inj_on_of_nodup_map hnodup (x := i) (by
    rw [List.mem_range'_1]; omega) (y := j) (by
    rw [List.mem_range'_1]; omega) heq
  exact this

section Order

variable [LinearOrder P]

/-- No entry is smaller than the entry of its parent slot. -/
def Ordered (key : ℕ → P) (size : ℕ) : Prop :=
  ∀ slot, 1 < slot → slot < size → key (slot / 2) ≤ key slot

/-- Every pair is in order except possibly the hole with its parent, and the
hole's children are in order with that parent. -/
structure UpOrdered (key : ℕ → P) (size hole : ℕ) : Prop where
  off : ∀ slot, 1 < slot → slot < size → slot ≠ hole →
    key (slot / 2) ≤ key slot
  grand : 1 < hole → ∀ child, child / 2 = hole → child < size →
    key (hole / 2) ≤ key child

/-- Every pair is in order except possibly the hole with its children, and the
hole's children are in order with its parent. -/
structure DownOrdered (key : ℕ → P) (size hole : ℕ) : Prop where
  off : ∀ slot, 1 < slot → slot < size → slot / 2 ≠ hole →
    key (slot / 2) ≤ key slot
  grand : 1 < hole → ∀ child, child / 2 = hole → child < size →
    key (hole / 2) ≤ key child

theorem Ordered.mono {key : ℕ → P} {size size' : ℕ} (h : Ordered key size)
    (hle : size' ≤ size) : Ordered key size' :=
  fun slot hone hlt => h slot hone (hlt.trans_le hle)

/-- An entry that has become smaller may have to travel up. -/
theorem Ordered.lowered {key key' : ℕ → P} {size hole : ℕ}
    (h : Ordered key size) (hlt : hole < size)
    (hoff : ∀ slot, 1 ≤ slot → slot < size → slot ≠ hole →
      key' slot = key slot)
    (hlower : key' hole ≤ key hole) : UpOrdered key' size hole where
  off := by
    intro slot hone hslot hne
    rw [hoff slot (by omega) hslot hne]
    by_cases hparent : slot / 2 = hole
    · rw [hparent]
      exact hlower.trans (hparent ▸ h slot hone hslot)
    · rw [hoff (slot / 2) (by omega) (by omega) hparent]
      exact h slot hone hslot
  grand := by
    intro hroot child hchild hslot
    rw [hoff (hole / 2) (by omega) (by omega) (by omega),
      hoff child (by omega) hslot (by omega)]
    exact (h hole hroot hlt).trans (hchild ▸ h child (by omega) hslot)

/-- An entry that has become larger may have to travel down. -/
theorem Ordered.raised {key key' : ℕ → P} {size hole : ℕ}
    (h : Ordered key size)
    (hoff : ∀ slot, 1 ≤ slot → slot < size → slot ≠ hole →
      key' slot = key slot)
    (hraise : key hole ≤ key' hole) : DownOrdered key' size hole where
  off := by
    intro slot hone hslot hne
    rw [hoff (slot / 2) (by omega) (by omega) hne]
    by_cases hself : slot = hole
    · rw [hself]
      exact (h hole (by omega) (by omega)).trans hraise
    · rw [hoff slot (by omega) hslot hself]
      exact h slot hone hslot
  grand := by
    intro hroot child hchild hslot
    rw [hoff (hole / 2) (by omega) (by omega) (by omega),
      hoff child (by omega) hslot (by omega)]
    have hup := h hole hroot (by omega)
    exact hup.trans (hchild ▸ h child (by omega) hslot)

/-- Every slot lies below the first one. -/
theorem exists_below_root {slot : ℕ} (hslot : 1 ≤ slot) :
    ∃ depth, slot / 2 ^ depth = 1 := by
  refine ⟨Nat.log 2 slot, ?_⟩
  have hlow := Nat.pow_log_le_self 2 (x := slot) (by omega)
  have hhigh := Nat.lt_pow_succ_log_self (b := 2) (by omega) slot
  rw [Nat.pow_succ] at hhigh
  exact Nat.div_eq_of_lt_le (by omega) (by omega)

/-- The first slot of an ordered heap holds a least entry. -/
theorem Ordered.root_le {key : ℕ → P} {size : ℕ} (h : Ordered key size) :
    ∀ slot, 1 ≤ slot → slot < size → key 1 ≤ key slot := by
  intro slot
  induction slot using Nat.strongRecOn with
  | ind slot ih =>
      intro hpos hlt
      by_cases hroot : slot = 1
      · rw [hroot]
      · have hparent : key 1 ≤ key (slot / 2) :=
          ih (slot / 2) (by omega) (by omega) (by omega)
        exact hparent.trans (h slot (by omega) hlt)

theorem UpOrdered.move {key : ℕ → P} {size hole : ℕ}
    (h : UpOrdered key size hole) (hhole : 1 < hole) (hlt : hole < size)
    (hbad : key hole < key (hole / 2)) :
    UpOrdered (exchange key hole (hole / 2)) size (hole / 2) := by
  have hne : hole / 2 ≠ hole := by omega
  constructor
  · intro slot hpos hslot hoff
    by_cases hself : slot = hole
    · rw [hself, exchange_right, exchange_left]
      exact hbad.le
    rw [exchange_of_ne key hself hoff]
    by_cases hchild : slot / 2 = hole
    · rw [hchild, exchange_left]
      exact h.grand hhole slot hchild hslot
    by_cases hsibling : slot / 2 = hole / 2
    · rw [hsibling, exchange_right]
      exact hbad.le.trans (hsibling ▸ h.off slot hpos hslot hself)
    · rw [exchange_of_ne key hchild hsibling]
      exact h.off slot hpos hslot hself
  · intro hparent child hchild hslot
    have hgrand : key (hole / 2 / 2) ≤ key (hole / 2) :=
      h.off (hole / 2) hparent (by omega) hne
    rw [exchange_of_ne key (by omega) (by omega)]
    by_cases hself : child = hole
    · rw [hself, exchange_left]
      exact hgrand
    · rw [exchange_of_ne key hself (by omega)]
      exact hgrand.trans (hchild ▸ h.off child (by omega) hslot hself)

theorem UpOrdered.finish {key : ℕ → P} {size hole : ℕ}
    (h : UpOrdered key size hole)
    (hstop : 1 < hole → key (hole / 2) ≤ key hole) : Ordered key size := by
  intro slot hpos hslot
  by_cases hself : slot = hole
  · subst hself
    exact hstop hpos
  · exact h.off slot hpos hslot hself

theorem DownOrdered.move {key : ℕ → P} {size hole child : ℕ}
    (h : DownOrdered key size hole) (hhole : 1 ≤ hole)
    (hchild : child / 2 = hole) (hlt : child < size)
    (hleast : ∀ other, other / 2 = hole → other < size →
      key child ≤ key other)
    (hbad : key child < key hole) :
    DownOrdered (exchange key hole child) size child := by
  have hne : child ≠ hole := by omega
  constructor
  · intro slot hpos hslot hoff
    by_cases hself : slot = hole
    · rw [hself, exchange_left, exchange_of_ne key (by omega) (by omega)]
      exact h.grand (by omega) child hchild hlt
    by_cases hsame : slot = child
    · rw [hsame, hchild, exchange_right, exchange_left]
      exact hbad.le
    rw [exchange_of_ne key hself hsame]
    by_cases hsibling : slot / 2 = hole
    · rw [hsibling, exchange_left]
      exact hleast slot hsibling hslot
    · rw [exchange_of_ne key hsibling hoff]
      exact h.off slot hpos hslot hsibling
  · intro _ other hother hslot
    rw [hchild, exchange_left, exchange_of_ne key (by omega) (by omega)]
    exact hother ▸ h.off other (by omega) hslot (by omega)

theorem DownOrdered.finish {key : ℕ → P} {size hole : ℕ}
    (h : DownOrdered key size hole)
    (hstop : ∀ child, child / 2 = hole → child < size →
      key hole ≤ key child) : Ordered key size := by
  intro slot hpos hslot
  by_cases hchild : slot / 2 = hole
  · rw [hchild]
    exact hstop slot hchild hslot
  · exact h.off slot hpos hslot hchild

end Order

end NvmeVirt.BinaryHeap
