import Mathlib.Algebra.Order.Ring.Nat
import Mathlib.Data.Int.ModEq
import Mathlib.Data.List.Basic
import Mathlib.Logic.Function.Basic

/-!
# Rings

A stream is handed over through a ring of `size` places: its number `i` is
kept in place `i % size` and may be overwritten once it has been read.  Both
sides only tell each other the place they have reached, from which the number
of entries in between follows as long as the ring is never full.
-/

namespace NvmeVirt.Ring

variable {α : Type*} {size : ℕ}

/-- The entries of a stream, each with its place. -/
def places (size : ℕ) (stream : List α) : List (ℕ × α) :=
  stream.zipIdx.map fun entry => (entry.2 % size, entry.1)

/-- The ring after `entries` have been written behind the first `count`
entries of the stream. -/
def writeRing (size : ℕ) : (ℕ → α) → ℕ → List α → ℕ → α
  | ring, _, [] => ring
  | ring, count, entry :: entries =>
      writeRing size (Function.update ring (count % size) entry) (count + 1)
        entries

/-- The ring holds the stream from number `start` on. -/
def HoldsFrom (size : ℕ) (ring : ℕ → α) (stream : List α) (start : ℕ) : Prop :=
  ∀ number entry, start ≤ number → stream[number]? = some entry →
    ring (number % size) = entry

/-! ## Places -/

/-- Numbers less than a lap apart have different places. -/
theorem mod_ne_of_lt {number later : ℕ} (hlt : number < later)
    (hlap : later < number + size) : number % size ≠ later % size := by
  obtain ⟨distance, rfl⟩ := Nat.exists_eq_add_of_lt hlt
  intro heq
  have hdvd : size ∣ distance + 1 := by
    rw [← Nat.add_sub_cancel_left number (distance + 1)]
    exact (Nat.modEq_iff_dvd' (by omega)).mp heq
  have hle := Nat.le_of_dvd (Nat.succ_pos distance) hdvd
  omega

/-- The place of the next entry. -/
theorem next_place (hsize : 0 < size) (number : ℕ) :
    (number + 1) % size =
      if number % size + 1 = size then 0 else number % size + 1 := by
  have hplace := Nat.mod_lt number hsize
  rw [← Nat.mod_add_mod]
  split_ifs with hwrap
  · rw [hwrap, Nat.mod_self]
  · exact Nat.mod_eq_of_lt (by omega)

/-- The distance of two places, one lap added where the ring has wrapped
around, is the number of entries in between. -/
theorem distance_eq {read written : ℕ} (hle : read ≤ written)
    (hlap : written < read + size) :
    (if ((written % size : ℕ) : ℤ) - (read % size : ℕ) < 0 then
      ((written % size : ℕ) : ℤ) - (read % size : ℕ) + size
    else ((written % size : ℕ) : ℤ) - (read % size : ℕ)).toNat =
      written - read := by
  obtain ⟨distance, rfl⟩ := Nat.exists_eq_add_of_le hle
  have hplace := Nat.mod_lt read (show 0 < size by omega)
  rw [← Nat.mod_add_mod]
  generalize read % size = place at hplace
  by_cases hwrap : place + distance < size
  · rw [Nat.mod_eq_of_lt hwrap]
    split_ifs <;> omega
  · rw [Nat.mod_eq_sub_mod (by omega), Nat.mod_eq_of_lt (by omega)]
    split_ifs <;> omega

@[simp]
theorem length_places (stream : List α) :
    (places size stream).length = stream.length := by
  rw [places, List.length_map, List.length_zipIdx]

theorem getElem?_places (stream : List α) (number : ℕ) :
    (places size stream)[number]? =
      stream[number]?.map fun entry => (number % size, entry) := by
  rw [places, List.getElem?_map, List.getElem?_zipIdx, Option.map_map]
  simp only [Nat.zero_add]
  rfl

theorem places_append (stream entries : List α) :
    places size stream <+: places size (stream ++ entries) := by
  rw [places, places, List.zipIdx_append, List.map_append]
  exact List.prefix_append _ _

/-! ## Writing and reading -/

/-- A place that no entry is written to. -/
theorem writeRing_of_ne {ring : ℕ → α} {count place : ℕ} {entries : List α}
    (hne : ∀ step < entries.length, place ≠ (count + step) % size) :
    writeRing size ring count entries place = ring place := by
  induction entries generalizing ring count with
  | nil => rfl
  | cons entry entries ih =>
      rw [List.length_cons] at hne
      rw [writeRing, ih]
      · exact Function.update_of_ne (hne 0 (Nat.succ_pos _)) ..
      · intro step hstep
        have hlater := hne (step + 1) (Nat.succ_lt_succ hstep)
        rwa [Nat.add_comm step 1, ← Nat.add_assoc] at hlater

/-- The entries of the last lap are left where they were written. -/
theorem writeRing_recent {ring : ℕ → α} {count step : ℕ} {entries : List α}
    {entry : α} (hentry : entries[step]? = some entry)
    (hrecent : entries.length ≤ step + size) :
    writeRing size ring count entries ((count + step) % size) = entry := by
  induction entries generalizing ring count step with
  | nil => cases hentry
  | cons first entries ih =>
      rw [List.length_cons] at hrecent
      rw [writeRing]
      cases step with
      | zero =>
          cases hentry
          rw [writeRing_of_ne]
          · exact Function.update_self ..
          · intro step hstep
            exact mod_ne_of_lt (by omega) (by omega)
      | succ step =>
          rw [Nat.add_comm step 1, ← Nat.add_assoc]
          exact ih hentry (by omega)

section

variable {ring : ℕ → α} {stream : List α} {start : ℕ}

theorem holdsFrom_nil (size : ℕ) (ring : ℕ → α) (start : ℕ) :
    HoldsFrom size ring [] start := by
  intro number entry _ hentry
  cases hentry

theorem HoldsFrom.later (hholds : HoldsFrom size ring stream start)
    {start' : ℕ} (hle : start ≤ start') : HoldsFrom size ring stream start' :=
  fun number entry hnumber => hholds number entry (hle.trans hnumber)

/-- An entry is written over one that has been read. -/
theorem HoldsFrom.push (hholds : HoldsFrom size ring stream start)
    (hroom : stream.length < start + size) (entry : α) :
    HoldsFrom size (Function.update ring (stream.length % size) entry)
      (stream ++ [entry]) start := by
  intro number other hnumber hother
  rcases Nat.lt_trichotomy number stream.length with hlt | rfl | hgt
  · rw [List.getElem?_append_left hlt] at hother
    rw [Function.update_of_ne (mod_ne_of_lt hlt (by omega))]
    exact hholds number other hnumber hother
  · rw [List.getElem?_concat_length] at hother
    cases hother
    exact Function.update_self ..
  · rw [List.getElem?_eq_none (by
      rw [List.length_append, List.length_singleton]; omega)] at hother
    cases hother

theorem HoldsFrom.write (hholds : HoldsFrom size ring stream start)
    {entries : List α}
    (hroom : stream.length + entries.length < start + size) :
    HoldsFrom size (writeRing size ring stream.length entries)
      (stream ++ entries) start := by
  induction entries generalizing ring stream with
  | nil =>
      rw [List.append_nil]
      exact hholds
  | cons entry entries ih =>
      rw [List.length_cons] at hroom
      have hpushed := hholds.push (by omega) entry
      have hrest := ih hpushed (by
        rw [List.length_append, List.length_singleton]; omega)
      rw [List.length_append, List.length_singleton, List.append_assoc]
        at hrest
      exact hrest

/-- Reading on from number `start` gives the next part of the stream. -/
theorem HoldsFrom.read (hholds : HoldsFrom size ring stream start)
    {count : ℕ} (hcount : start + count ≤ stream.length) :
    (places size stream).take start ++ (List.range count).map (fun step =>
        ((start + step) % size, ring ((start + step) % size))) =
      (places size stream).take (start + count) := by
  induction count with
  | zero => exact List.append_nil _
  | succ count ih =>
      have hlt : start + count < stream.length := by omega
      have hentry := hholds (start + count) _ (Nat.le_add_right _ _)
        (List.getElem?_eq_getElem hlt)
      rw [List.range_succ, List.map_append, ← List.append_assoc,
        ih (by omega), ← Nat.add_assoc, List.take_add_one, getElem?_places,
        List.getElem?_eq_getElem hlt, List.map_singleton, hentry]
      rfl

end

end NvmeVirt.Ring
