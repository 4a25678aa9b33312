import Mathlib.Data.List.Basic

/-!
# The last write of a key

A log of the writes to a table, oldest first, and what the table then holds.
-/

namespace NvmeVirt.WriteLog

variable {κ ν : Type*} [DecidableEq κ]

/-- What the last write of `key` wrote. -/
def lastWrite (log : List (κ × ν)) (key : κ) : Option ν :=
  (log.reverse.find? fun entry => entry.1 = key).map Prod.snd

@[simp]
theorem lastWrite_nil (key : κ) : lastWrite ([] : List (κ × ν)) key = none := rfl

theorem lastWrite_append (log : List (κ × ν)) (entry : κ × ν) :
    lastWrite (log ++ [entry]) =
      Function.update (lastWrite log) entry.1 (some entry.2) := by
  funext key
  rw [lastWrite, List.reverse_append, List.reverse_singleton,
    List.singleton_append, List.find?_cons]
  by_cases heq : entry.1 = key
  · subst heq
    simp
  · rw [Function.update_of_ne fun h => heq h.symm, decide_eq_false heq]
    rfl

theorem mem_of_lastWrite {log : List (κ × ν)} {key : κ} {value : ν}
    (h : lastWrite log key = some value) : (key, value) ∈ log := by
  obtain ⟨⟨found, _⟩, hfind, rfl⟩ := Option.map_eq_some_iff.mp h
  have hkey := List.find?_some hfind
  obtain rfl : found = key := of_decide_eq_true hkey
  exact List.mem_reverse.mp (List.mem_of_find?_eq_some hfind)

theorem exists_lastWrite {log : List (κ × ν)} {key : κ}
    (h : key ∈ log.map Prod.fst) : ∃ value, lastWrite log key = some value := by
  obtain ⟨entry, hmem, hkey⟩ := List.mem_map.mp h
  have hfind : (log.reverse.find? fun entry => entry.1 = key).isSome := by
    rw [List.find?_isSome]
    exact ⟨entry, List.mem_reverse.mpr hmem, decide_eq_true hkey⟩
  obtain ⟨found, hfound⟩ := Option.isSome_iff_exists.mp hfind
  exact ⟨found.2, by rw [lastWrite, hfound]; rfl⟩

/-- The writes of `more` come after those of `log`. -/
theorem lastWrite_append_list (log more : List (κ × ν)) (key : κ) :
    lastWrite (log ++ more) key =
      (lastWrite more key).or (lastWrite log key) := by
  rw [lastWrite, List.reverse_append, List.find?_append, Option.map_or]
  rfl

theorem lastWrite_eq_none {log : List (κ × ν)} {key : κ}
    (h : key ∉ log.map Prod.fst) : lastWrite log key = none := by
  apply Option.eq_none_iff_forall_ne_some.mpr
  intro value hvalue
  exact h (List.mem_map.mpr ⟨_, mem_of_lastWrite hvalue, rfl⟩)

end NvmeVirt.WriteLog
