import NvmeVirt.Core.ByteMap
import NvmeVirt.Core.Transition
import NvmeVirt.Device.Kernel

/-!
# The allocators of the key-value translation layer

The append-only allocator hands out what it is asked for, one piece after the
other.  The bitmap allocator has slots of `SMALL_LENGTH` bytes in the lower
half of the device and slots of `LARGE_LENGTH` bytes in the upper half.
Neither takes anything back, and neither looks at the end of the device.

`bitmap_find_next_zero_area` is a function of the kernel.
-/

namespace NvmeVirt.KvAllocators

open NvmeVirt.ByteMap
open NvmeVirt.Kernel
open NvmeVirt.Transition

/-- `SMALL_LENGTH` and `LARGE_LENGTH`. -/
def smallLength : ℕ := 1024
def largeLength : ℕ := 4096

/-- The bits of the arrays `small_bitmap` and `large_bitmap`. -/
def smallBitmapBits : ℕ := 600000 * 64
def largeBitmapBits : ℕ := 300000 * 64

/-- `bitmap_find_next_zero_area` for one bit: the first clear bit from `start`
on, or a number above `size` when there is none below `size`. -/
structure ZeroAreaSearch where
  find : (ℕ → Bool) → ℕ → ℕ → ℕ
  found : ∀ map size start i, start ≤ i → i < size → map i = false →
    start ≤ find map size start ∧ find map size start ≤ i ∧
      map (find map size start) = false
  none_left : ∀ map size start,
    (∀ i, start ≤ i → i < size → map i = true) → size < find map size start

/-- A search that looks at the bits one by one. -/
def firstZero : ZeroAreaSearch where
  find map size start :=
    ((List.range' start (size - start)).find? fun i => !map i).getD (size + 1)
  found map size start i hlow hhigh hclear := by
    cases hfind : (List.range' start (size - start)).find? fun i => !map i with
    | none =>
        have hset := List.find?_eq_none.mp hfind i
          (List.mem_range'_1.mpr ⟨hlow, by omega⟩)
        rw [hclear] at hset
        exact absurd rfl hset
    | some first =>
        obtain ⟨hfirst, hmem, hbefore⟩ := List.find?_range'_eq_some.mp hfind
        obtain ⟨hle, -⟩ := List.mem_range'_1.mp hmem
        rw [Bool.not_eq_true'] at hfirst
        refine ⟨hle, ?_, hfirst⟩
        by_contra hlt
        have hset := hbefore i hlow (by rw [Option.getD_some] at hlt; omega)
        rw [hclear] at hset
        cases hset
  none_left map size start hall := by
    have hfind : ((List.range' start (size - start)).find? fun i => !map i) =
        none := by
      rw [List.find?_eq_none]
      intro i hi
      obtain ⟨hle, hlt⟩ := List.mem_range'_1.mp hi
      rw [hall i hle (by omega)]
      decide
    rw [hfind]
    exact Nat.lt_succ_self size

/-- The state of `append_only.c`. -/
structure AppendOnly where
  latest : ℕ
  devSize : ℕ

/-- One of the two bitmaps of `bitmap.c`, with its number of bits and the
position of the next search. -/
structure BitArea where
  nbits : ℕ
  bits : ℕ → Bool
  lastPos : ℕ

/-- The state of `bitmap.c`. -/
structure Bitmap where
  small : BitArea
  large : BitArea
  devSize : ℕ

inductive Allocator
  | appendOnly (state : AppendOnly)
  | bitmap (state : Bitmap)

/-- `ALLOCATOR_TYPE_BITMAP` and `ALLOCATOR_TYPE_APPEND_ONLY`. -/
inductive AllocatorType
  | bitmap
  | appendOnly
  deriving DecidableEq

/-- `append_only_allocator_init`. -/
def appendOnlyAllocatorInit (size : ℕ) : AppendOnly :=
  { latest := 0, devSize := size }

/-- `append_only_allocate`. -/
def appendOnlyAllocate (state : AppendOnly) (length : ℕ) : ℕ × AppendOnly :=
  (state.latest, { state with latest := u64 (state.latest + length) })

/-- `bitmap_zero` on an array of `capacity` bits. -/
def bitmapZero (nbits capacity : ℕ) : Except Fault BitArea :=
  if capacity < nbits then .error .outOfBounds
  else .ok { nbits := nbits, bits := fun _ => false, lastPos := 0 }

/-- `bitmap_allocator_init`. -/
def bitmapAllocatorInit (size : ℕ) : Except Fault Bitmap := do
  let small ← bitmapZero (size / 2 / smallLength) smallBitmapBits
  let large ← bitmapZero (size / 2 / largeLength) largeBitmapBits
  return { small := small, large := large, devSize := size }

/-- The search in a bitmap of `capacity` bits, and `bitmap_set` for the bit it
returns. -/
def takeBit (search : ZeroAreaSearch) (capacity : ℕ) (area : BitArea) :
    Except Fault (ℕ × BitArea) :=
  let off := search.find area.bits area.nbits area.lastPos
  if capacity ≤ off then .error .outOfBounds
  else .ok (off,
    { area with
      bits := Function.update area.bits off true
      lastPos := if area.nbits < off + 1 then 0 else off + 1 })

/-- `bitmap_allocate`. -/
def bitmapAllocate (search : ZeroAreaSearch) (state : Bitmap) (length : ℕ) :
    Except Fault (ℕ × Bitmap) :=
  if smallLength < length then do
    let (off, large) ← takeBit search largeBitmapBits state.large
    return (u64 (state.devSize / 2 + off * largeLength),
      { state with large := large })
  else do
    let (off, small) ← takeBit search smallBitmapBits state.small
    return (u64 (off * smallLength), { state with small := small })

/-- `allocator_ops.init`. -/
def allocatorInit (type : AllocatorType) (size : ℕ) : Except Fault Allocator :=
  match type with
  | .bitmap => do
      let state ← bitmapAllocatorInit size
      return .bitmap state
  | .appendOnly => .ok (.appendOnly (appendOnlyAllocatorInit size))

/-- `allocator_ops.allocate`. -/
def allocate (search : ZeroAreaSearch) (length : ℕ) :
    Allocator → Except Fault (ℕ × Allocator)
  | .appendOnly state =>
      let (offset, state) := appendOnlyAllocate state length
      .ok (offset, .appendOnly state)
  | .bitmap state => do
      let (offset, state) ← bitmapAllocate search state length
      return (offset, .bitmap state)

/-! ## What is handed out -/

/-- The bytes that are set aside for a value of `length` bytes. -/
def Allocator.granted (length : ℕ) : Allocator → ℕ
  | .appendOnly _ => length
  | .bitmap _ => if smallLength < length then largeLength else smallLength

/-- The extent is one of the slots from `base` on whose bits are set. -/
def BitArea.Owns (area : BitArea) (base slotSize offset size : ℕ) : Prop :=
  ∃ i < area.nbits, area.bits i = true ∧ offset = base + i * slotSize ∧
    size = slotSize

/-- The extent was handed out before. -/
def Allocator.Owns (offset size : ℕ) : Allocator → Prop
  | .appendOnly state => offset + size ≤ state.latest
  | .bitmap state =>
      state.small.Owns 0 smallLength offset size ∨
        state.large.Owns (state.devSize / 2) largeLength offset size

/-- A bit from `lastPos` on is clear. -/
def BitArea.HasRoom (area : BitArea) : Prop :=
  ∃ i, area.lastPos ≤ i ∧ i < area.nbits ∧ area.bits i = false

/-- There is room for a value of `length` bytes. -/
def Allocator.HasRoom (length : ℕ) : Allocator → Prop
  | .appendOnly state => state.latest + length ≤ state.devSize
  | .bitmap state =>
      if smallLength < length then state.large.HasRoom
      else state.small.HasRoom

/-- An allocator of a device of `size` bytes, as it was initialised. -/
def Allocator.For (size : ℕ) : Allocator → Prop
  | .appendOnly state => state.devSize = size ∧ state.latest ≤ size
  | .bitmap state => state.devSize = size ∧
      state.small.nbits = size / 2 / smallLength ∧
      state.large.nbits = size / 2 / largeLength ∧
      state.small.nbits ≤ smallBitmapBits ∧
      state.large.nbits ≤ largeBitmapBits

theorem of_bitmapZero {nbits capacity : ℕ} {area : BitArea}
    (hrun : bitmapZero nbits capacity = .ok area) :
    area.nbits = nbits ∧ nbits ≤ capacity := by
  rw [bitmapZero] at hrun
  split_ifs at hrun with hfits
  cases hrun
  exact ⟨rfl, Nat.le_of_not_lt hfits⟩

theorem allocatorInit_for {type : AllocatorType} {size : ℕ}
    {allocator : Allocator} (hrun : allocatorInit type size = .ok allocator) :
    allocator.For size := by
  cases type with
  | appendOnly =>
      cases hrun
      exact ⟨rfl, Nat.zero_le size⟩
  | bitmap =>
      obtain ⟨state, hinit, hdone⟩ := bind_eq_ok hrun
      cases hdone
      obtain ⟨small, hsmall, hrest⟩ := bind_eq_ok hinit
      obtain ⟨large, hlarge, hstate⟩ := bind_eq_ok hrest
      cases hstate
      obtain ⟨hsmallBits, hsmallFits⟩ := of_bitmapZero hsmall
      obtain ⟨hlargeBits, hlargeFits⟩ := of_bitmapZero hlarge
      exact ⟨rfl, hsmallBits, hlargeBits, hsmallBits ▸ hsmallFits,
        hlargeBits ▸ hlargeFits⟩

/-- Slots of one size lie apart. -/
theorem slots_apart {i j size : ℕ} (base : ℕ) (hne : i ≠ j) :
    Apart (base + i * size) size (base + j * size) size := by
  obtain hlt | hlt := Nat.lt_or_gt_of_ne hne
  · left
    have hle : (i + 1) * size ≤ j * size := Nat.mul_le_mul_right size hlt
    rw [Nat.add_mul, Nat.one_mul] at hle
    omega
  · right
    have hle : (j + 1) * size ≤ i * size := Nat.mul_le_mul_right size hlt
    rw [Nat.add_mul, Nat.one_mul] at hle
    omega

/-- The slots of a part of the device lie in it. -/
theorem BitArea.Owns.le {area : BitArea} {base slotSize offset size half : ℕ}
    (h : area.Owns base slotSize offset size)
    (hnbits : area.nbits = half / slotSize) :
    base ≤ offset ∧ offset + size ≤ base + half := by
  obtain ⟨i, hi, -, rfl, rfl⟩ := h
  rw [hnbits] at hi
  have hle : (i + 1) * size ≤ half / size * size :=
    Nat.mul_le_mul_right size hi
  have hhalf := hle.trans (Nat.div_mul_le_self half size)
  rw [Nat.add_mul, Nat.one_mul] at hhalf
  exact ⟨Nat.le_add_right _ _, by omega⟩

/-- The search takes a clear bit, when there is one: a new slot, apart from
those that were taken before. -/
theorem takeBit_spec {search : ZeroAreaSearch} {capacity off : ℕ}
    {area area' : BitArea} (hroom : area.HasRoom)
    (hrun : takeBit search capacity area = .ok (off, area'))
    (base slotSize : ℕ) :
    area'.nbits = area.nbits ∧
      area'.Owns base slotSize (base + off * slotSize) slotSize ∧
      ∀ offset size, area.Owns base slotSize offset size →
        area'.Owns base slotSize offset size ∧
          Apart offset size (base + off * slotSize) slotSize := by
  obtain ⟨i, hlow, hhigh, hclear⟩ := hroom
  obtain ⟨-, hle, hfound⟩ :=
    search.found area.bits area.nbits area.lastPos i hlow hhigh hclear
  rw [takeBit] at hrun
  by_cases hbound : capacity ≤ search.find area.bits area.nbits area.lastPos
  · rw [if_pos hbound] at hrun
    cases hrun
  rw [if_neg hbound] at hrun
  cases hrun
  refine ⟨rfl, ⟨_, hle.trans_lt hhigh, Function.update_self _ _ _, rfl, rfl⟩, ?_⟩
  rintro offset size ⟨j, hj, hset, rfl, rfl⟩
  have hne : j ≠ search.find area.bits area.nbits area.lastPos := by
    intro heq
    rw [← heq, hset] at hfound
    cases hfound
  exact ⟨⟨j, hj, (Function.update_of_ne hne _ _).trans hset, rfl, rfl⟩,
    slots_apart base hne⟩

/-- `allocator'` is `allocator` after a new extent was handed out, inside the
device and apart from all that were handed out before. -/
structure Allocated (size : ℕ) (allocator : Allocator) (offset granted : ℕ)
    (allocator' : Allocator) : Prop where
  for_size : allocator'.For size
  owns : allocator'.Owns offset granted
  le_size : offset + granted ≤ size
  keeps : ∀ offset' size', allocator.Owns offset' size' →
    allocator'.Owns offset' size' ∧ Apart offset' size' offset granted

/-- An allocation with room. -/
theorem bitmapAllocate_spec {search : ZeroAreaSearch} {size length offset : ℕ}
    {state state' : Bitmap} (hfor : (Allocator.bitmap state).For size)
    (hsize : size < 2 ^ 64) (hroom : (Allocator.bitmap state).HasRoom length)
    (hrun : bitmapAllocate search state length = .ok (offset, state')) :
    Allocated size (.bitmap state) offset
      ((Allocator.bitmap state).granted length) (.bitmap state') := by
  obtain ⟨rfl, hsmallBits, hlargeBits, hsmallFits, hlargeFits⟩ := hfor
  have hhalves : state.devSize / 2 + state.devSize / 2 ≤ state.devSize := by
    omega
  rw [bitmapAllocate] at hrun
  rw [Allocator.HasRoom] at hroom
  rw [Allocator.granted]
  by_cases hlarge : smallLength < length
  · rw [if_pos hlarge] at hrun hroom ⊢
    obtain ⟨⟨off, area⟩, htake, hdone⟩ := bind_eq_ok hrun
    obtain ⟨hnbits, hnew, hold⟩ :=
      takeBit_spec hroom htake (state.devSize / 2) largeLength
    have hle := hnew.le (hnbits.trans hlargeBits)
    have hwrap : u64 (state.devSize / 2 + off * largeLength) =
        state.devSize / 2 + off * largeLength := u64_of_lt (by omega)
    dsimp only at hdone
    rw [hwrap] at hdone
    cases hdone
    refine ⟨⟨rfl, hsmallBits, hnbits.trans hlargeBits, hsmallFits,
      hnbits.trans_le hlargeFits⟩, .inr hnew, by omega, ?_⟩
    rintro offset' size' (hsmall | hlargeOwns)
    · have hbefore := (hsmall.le hsmallBits).2
      exact ⟨.inl hsmall, .inl (by omega)⟩
    · obtain ⟨howns, hapart⟩ := hold offset' size' hlargeOwns
      exact ⟨.inr howns, hapart⟩
  · rw [if_neg hlarge] at hrun hroom ⊢
    obtain ⟨⟨off, area⟩, htake, hdone⟩ := bind_eq_ok hrun
    obtain ⟨hnbits, hnew, hold⟩ := takeBit_spec hroom htake 0 smallLength
    have hle := hnew.le (hnbits.trans hsmallBits)
    rw [Nat.zero_add] at hle hold hnew
    have hwrap : u64 (off * smallLength) = off * smallLength :=
      u64_of_lt (by omega)
    dsimp only at hdone
    rw [hwrap] at hdone
    cases hdone
    refine ⟨⟨rfl, hnbits.trans hsmallBits, hlargeBits,
      hnbits.trans_le hsmallFits, hlargeFits⟩, .inl hnew, by omega, ?_⟩
    rintro offset' size' (hsmall | hlargeOwns)
    · obtain ⟨howns, hapart⟩ := hold offset' size' hsmall
      exact ⟨.inl howns, hapart⟩
    · have hafter := (hlargeOwns.le hlargeBits).1
      exact ⟨.inr hlargeOwns, .inr (by omega)⟩

theorem allocate_spec {search : ZeroAreaSearch} {size length offset : ℕ}
    {allocator allocator' : Allocator} (hfor : allocator.For size)
    (hsize : size < 2 ^ 64) (hroom : allocator.HasRoom length)
    (hrun : allocate search length allocator = .ok (offset, allocator')) :
    Allocated size allocator offset (allocator.granted length) allocator' := by
  cases allocator with
  | appendOnly state =>
      cases hrun
      obtain ⟨hdev, hlatest⟩ := hfor
      have hfits : state.latest + length ≤ state.devSize := hroom
      have hnext : u64 (state.latest + length) = state.latest + length :=
        u64_of_lt (by omega)
      rw [Allocator.granted, hnext]
      refine ⟨⟨hdev, hfits.trans_eq hdev⟩, le_rfl, hfits.trans_eq hdev, ?_⟩
      intro offset' size' howns
      exact ⟨howns.trans (Nat.le_add_right _ _), .inl howns⟩
  | bitmap state =>
      obtain ⟨⟨off, state'⟩, halloc, hdone⟩ := bind_eq_ok hrun
      cases hdone
      exact bitmapAllocate_spec hfor hsize hroom halloc

end NvmeVirt.KvAllocators
