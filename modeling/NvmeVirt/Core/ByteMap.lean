import Mathlib.Data.List.Basic

/-!
# Memory by bytes

Copies into and out of a memory of bytes, and extents of it.  A memory seen
through a window that starts at some base is a memory too.
-/

namespace NvmeVirt.ByteMap

variable {mem : ℕ → UInt8} {offset size offset' size' : ℕ} {bytes : List UInt8}

/-- Copy `bytes` to `offset`. -/
def writeBytes (mem : ℕ → UInt8) (offset : ℕ) (bytes : List UInt8) : ℕ → UInt8 :=
  fun address =>
    if offset ≤ address then (bytes[address - offset]?).getD (mem address)
    else mem address

/-- The `size` bytes from `offset` on. -/
def readBytes (mem : ℕ → UInt8) (offset size : ℕ) : List UInt8 :=
  (List.range size).map fun i => mem (offset + i)

/-- Two extents have no byte in common. -/
def Apart (offset size offset' size' : ℕ) : Prop :=
  offset + size ≤ offset' ∨ offset' + size' ≤ offset

theorem Apart.symm (h : Apart offset size offset' size') :
    Apart offset' size' offset size := Or.symm h

/-- Parts of extents that lie apart lie apart. -/
theorem Apart.mono (h : Apart offset size offset' size') {part part' : ℕ}
    (hpart : part ≤ size) (hpart' : part' ≤ size') :
    Apart offset part offset' part' := by
  obtain hbefore | hafter := h
  · exact .inl (by omega)
  · exact .inr (by omega)

@[simp]
theorem length_readBytes (mem : ℕ → UInt8) (offset size : ℕ) :
    (readBytes mem offset size).length = size := by
  rw [readBytes, List.length_map, List.length_range]

/-- Two stretches one after the other. -/
theorem readBytes_add (mem : ℕ → UInt8) (offset size more : ℕ) :
    readBytes mem offset (size + more) =
      readBytes mem offset size ++ readBytes mem (offset + size) more := by
  simp only [readBytes, List.range_add, List.map_append, List.map_map]
  apply congrArg
  apply List.map_congr_left
  intro i _
  exact congrArg mem (Nat.add_assoc offset size i).symm

/-- A copy leaves the bytes outside its extent. -/
theorem writeBytes_outside {address : ℕ}
    (h : address < offset ∨ offset + bytes.length ≤ address) :
    writeBytes mem offset bytes address = mem address := by
  rw [writeBytes]
  obtain hbefore | hafter := h
  · exact if_neg (Nat.not_le.mpr hbefore)
  · rw [if_pos (by omega), List.getElem?_eq_none (by omega)]
    rfl

/-- Reading an extent apart from the one that was written. -/
theorem readBytes_writeBytes_of_apart
    (h : Apart offset bytes.length offset' size') :
    readBytes (writeBytes mem offset bytes) offset' size' =
      readBytes mem offset' size' := by
  apply List.map_congr_left
  intro i hi
  have hlt := List.mem_range.mp hi
  obtain hbefore | hafter := h
  · exact writeBytes_outside (.inr (by omega))
  · exact writeBytes_outside (.inl (by omega))

/-- Reading what was written. -/
theorem readBytes_writeBytes_self (mem : ℕ → UInt8) (offset : ℕ)
    (bytes : List UInt8) :
    readBytes (writeBytes mem offset bytes) offset bytes.length = bytes := by
  apply List.ext_getElem
  · exact length_readBytes _ _ _
  · intro i _ hi
    simp only [readBytes, List.getElem_map, List.getElem_range]
    rw [writeBytes, if_pos (Nat.le_add_right _ _), Nat.add_sub_cancel_left,
      List.getElem?_eq_getElem hi, Option.getD_some]

/-- Bytes that agree are read alike. -/
theorem readBytes_congr {mem' : ℕ → UInt8}
    (h : ∀ i, i < size → mem (offset + i) = mem' (offset' + i)) :
    readBytes mem offset size = readBytes mem' offset' size :=
  List.map_congr_left fun i hi => h i (List.mem_range.mp hi)

/-- A copy inside a window. -/
theorem writeBytes_window (mem : ℕ → UInt8) (base offset : ℕ)
    (bytes : List UInt8) (address : ℕ) :
    writeBytes mem (base + offset) bytes (base + address) =
      writeBytes (fun i => mem (base + i)) offset bytes address := by
  rw [writeBytes, writeBytes]
  by_cases hle : offset ≤ address
  · rw [if_pos (Nat.add_le_add_left hle base), if_pos hle,
      Nat.add_sub_add_left]
  · rw [if_neg (fun hbase => hle (Nat.le_of_add_le_add_left hbase)),
      if_neg hle]

/-- A copy gives the same bytes where the memories were the same. -/
theorem writeBytes_congr {mem' : ℕ → UInt8} {address : ℕ}
    (h : mem address = mem' address) (offset : ℕ) (bytes : List UInt8) :
    writeBytes mem offset bytes address =
      writeBytes mem' offset bytes address := by
  rw [writeBytes, writeBytes, h]

/-! ## Bytes stored one after the other -/

/-- Store each byte at its address. -/
def storeAll (mem : ℕ → UInt8) (stores : List (ℕ × UInt8)) : ℕ → UInt8 :=
  stores.foldl (fun mem store => Function.update mem store.1 store.2) mem

theorem storeAll_cons (mem : ℕ → UInt8) (store : ℕ × UInt8)
    (stores : List (ℕ × UInt8)) :
    storeAll mem (store :: stores) =
      storeAll (Function.update mem store.1 store.2) stores := rfl

/-- Bytes stored at addresses that follow each other are a copy. -/
theorem storeAll_range' (mem : ℕ → UInt8) (offset : ℕ) (bytes : List UInt8) :
    storeAll mem ((List.range' offset bytes.length).zip bytes) =
      writeBytes mem offset bytes := by
  induction bytes generalizing mem offset with
  | nil =>
      funext address
      rw [writeBytes, List.getElem?_nil]
      exact (ite_self _).symm
  | cons byte bytes ih =>
      rw [List.length_cons, List.range'_succ, List.zip_cons_cons, storeAll_cons,
        ih]
      funext address
      rcases Nat.lt_trichotomy address offset with hbefore | rfl | hafter
      · rw [writeBytes_outside (.inl (by omega)),
          writeBytes_outside (.inl hbefore),
          Function.update_of_ne (Nat.ne_of_lt hbefore)]
      · rw [writeBytes_outside (.inl (Nat.lt_add_one _)), writeBytes,
          if_pos (Nat.le_refl _), Nat.sub_self]
        exact Function.update_self ..
      · obtain ⟨behind, rfl⟩ := Nat.exists_eq_add_of_lt hafter
        rw [writeBytes, writeBytes, if_pos (by omega), if_pos (by omega),
          Function.update_of_ne (by omega)]
        have hnext : offset + behind + 1 - (offset + 1) = behind := by omega
        have hthis : offset + behind + 1 - offset = behind + 1 := by omega
        rw [hnext, hthis, List.getElem?_cons_succ]

end NvmeVirt.ByteMap
