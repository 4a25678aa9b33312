import NvmeVirt.Kv.Allocators
import NvmeVirt.Kv.Mapping
import Mathlib.Data.List.Count

/-!
# Runs of the bitmap allocator

The slots of a class are handed out in order, one after the other.  When they
are all handed out, the kernel's search answers with a number above the number
of bits: the allocator marks that bit and returns the offset it stands for,
which lies behind the slots of the class.
-/

namespace NvmeVirt.KvBitmapRuns

open NvmeVirt.ByteMap
open NvmeVirt.Kernel
open NvmeVirt.KvAllocators
open NvmeVirt.KvMapping
open NvmeVirt.Transition

/-! ## The two classes of slots -/

inductive SizeClass
  | small
  | large
  deriving DecidableEq

/-- The class `bitmap_allocate` takes a slot of. -/
def sizeClass (length : ℕ) : SizeClass :=
  if smallLength < length then .large else .small

/-- The bytes of a slot. -/
def SizeClass.unit : SizeClass → ℕ
  | .small => smallLength
  | .large => largeLength

/-- The bits of the array. -/
def SizeClass.capacity : SizeClass → ℕ
  | .small => smallBitmapBits
  | .large => largeBitmapBits

/-- Where the slots begin on a device of `size` bytes. -/
def SizeClass.base (size : ℕ) : SizeClass → ℕ
  | .small => 0
  | .large => size / 2

/-- The number of slots on a device of `size` bytes. -/
def SizeClass.slots (size : ℕ) (c : SizeClass) : ℕ := size / 2 / c.unit

def areaOf (state : Bitmap) : SizeClass → BitArea
  | .small => state.small
  | .large => state.large

def setArea (state : Bitmap) (c : SizeClass) (area : BitArea) : Bitmap :=
  match c with
  | .small => { state with small := area }
  | .large => { state with large := area }

@[simp]
theorem areaOf_setArea (state : Bitmap) (c other : SizeClass) (area : BitArea) :
    areaOf (setArea state c area) other =
      if other = c then area else areaOf state other := by
  cases c <;> cases other <;> rfl

@[simp]
theorem setArea_devSize (state : Bitmap) (c : SizeClass) (area : BitArea) :
    (setArea state c area).devSize = state.devSize := by
  cases c <;> rfl

/-- `bitmap_allocate` does the same for both classes. -/
theorem bitmapAllocate_eq (search : ZeroAreaSearch) (state : Bitmap)
    (length : ℕ) :
    bitmapAllocate search state length = (do
      let (off, area) ← takeBit search (sizeClass length).capacity
        (areaOf state (sizeClass length))
      return (u64 ((sizeClass length).base state.devSize +
        off * (sizeClass length).unit),
        setArea state (sizeClass length) area)) := by
  rw [bitmapAllocate, sizeClass]
  split_ifs
  · rfl
  · simp only [SizeClass.base, Nat.zero_add]
    rfl

/-! ## Calls -/

/-- A call of `bitmap_allocate`: what it was asked for, what it returned and
the states around it. -/
structure Call where
  length : ℕ
  offset : ℕ
  before : Bitmap
  after : Bitmap

/-- The calls of `bitmap_allocate` with these lengths, in order. -/
def runCalls (search : ZeroAreaSearch) :
    Bitmap → List ℕ → Except Fault (List Call)
  | _, [] => .ok []
  | state, length :: lengths => do
      let (offset, after) ← bitmapAllocate search state length
      let calls ← runCalls search after lengths
      return ⟨length, offset, state, after⟩ :: calls

/-- Every slot is marked. -/
def Exhausted (area : BitArea) : Prop := ∀ i < area.nbits, area.bits i = true

/-- The class of the call still has a slot. -/
def Call.Served (call : Call) : Prop :=
  ¬ Exhausted (areaOf call.before (sizeClass call.length))

/-- A call that is served returns an extent in the half of its class.  One that
is not reports it and marks nothing. -/
structure Call.Sound (size : ℕ) (call : Call) : Prop where
  served : call.Served →
    (sizeClass call.length).base size ≤ call.offset ∧
      call.offset + (sizeClass call.length).unit ≤
        (sizeClass call.length).base size + size / 2
  refused : ¬ call.Served → call.offset = sizeMax ∧
    ∀ c, (areaOf call.after c).bits = (areaOf call.before c).bits

/-- The calls are sound, and the extents of those that are served lie apart. -/
structure Sound (size : ℕ) (calls : List Call) : Prop where
  each : ∀ call ∈ calls, call.Sound size
  apart : calls.Pairwise fun call later => call.Served → later.Served →
    Apart call.offset (sizeClass call.length).unit
      later.offset (sizeClass later.length).unit

/-- The calls for slots of the class. -/
def demand (lengths : List ℕ) (c : SizeClass) : ℕ :=
  lengths.countP fun length => sizeClass length = c

theorem demand_cons (length : ℕ) (lengths : List ℕ) (c : SizeClass) :
    demand (length :: lengths) c =
      demand lengths c + if c = sizeClass length then 1 else 0 := by
  rw [demand, demand, List.countP_cons]
  by_cases hc : c = sizeClass length
  · rw [if_pos hc, if_pos (decide_eq_true hc.symm)]
  · rw [if_neg hc, if_neg]
    rw [decide_eq_true_iff]
    exact fun heq => hc heq.symm

/-! ## Slots in order -/

/-- The first `count` of the `nbits` slots are handed out. -/
structure Taken (area : BitArea) (nbits count : ℕ) : Prop where
  nbits_eq : area.nbits = nbits
  lastPos_eq : area.lastPos = count
  bits_iff : ∀ i, area.bits i = true ↔ i < count

variable {area area' : BitArea}
  {nbits count capacity size : ℕ} {state state' : Bitmap}

theorem Taken.bits_of_le (h : Taken area nbits count) {i : ℕ} (hi : count ≤ i) :
    area.bits i = false := by
  rw [← Bool.not_eq_true, h.bits_iff]
  exact Nat.not_lt.mpr hi

theorem Taken.exhausted_iff (h : Taken area nbits count) :
    Exhausted area ↔ nbits ≤ count := by
  constructor
  · intro hall
    by_contra hlt
    have hbit := (h.bits_iff count).mp
      (hall count (by rw [h.nbits_eq]; exact Nat.not_le.mp hlt))
    exact lt_irrefl count hbit
  · intro hle i hi
    rw [h.nbits_eq] at hi
    exact (h.bits_iff i).mpr (hi.trans_le hle)

/-- The next slot. -/
theorem Taken.next (h : Taken area nbits count) (search : ZeroAreaSearch)
    (hlt : count < nbits) (hcapacity : nbits ≤ capacity) :
    ∃ area', takeBit search capacity area = .ok (count, area') ∧
      Taken area' nbits (count + 1) := by
  have hnext : search.find area.bits area.nbits area.lastPos = count := by
    rw [h.nbits_eq, h.lastPos_eq]
    obtain ⟨hge, hle, -⟩ := search.found area.bits nbits count count le_rfl hlt
      (h.bits_of_le le_rfl)
    exact Nat.le_antisymm hle hge
  refine ⟨{ area with
    bits := Function.update area.bits count true, lastPos := count + 1 }, ?_,
    h.nbits_eq, rfl, ?_⟩
  · rw [takeBit, hnext, if_neg (by omega), h.nbits_eq,
      if_neg (by omega)]
  · intro i
    dsimp only
    by_cases hi : i = count
    · rw [hi, Function.update_self]
      exact iff_of_true rfl (Nat.lt_succ_self count)
    · rw [Function.update_of_ne hi, h.bits_iff]
      omega

/-- With no slot left, a bit is marked that stands for none. -/
theorem Taken.marks (h : Taken area nbits nbits) {search : ZeroAreaSearch}
    {off : ℕ} (hrun : takeBit search capacity area = .ok (off, area')) :
    area'.bits ≠ area.bits := by
  have habove : nbits < search.find area.bits area.nbits area.lastPos := by
    rw [h.nbits_eq, h.lastPos_eq]
    exact search.none_left area.bits nbits nbits fun i hlow hhigh =>
      absurd hlow (Nat.not_le.mpr hhigh)
  have hmarked :
      area'.bits (search.find area.bits area.nbits area.lastPos) = true := by
    rw [takeBit] at hrun
    by_cases hbound : capacity ≤ search.find area.bits area.nbits area.lastPos
    · rw [if_pos hbound] at hrun
      cases hrun
    · rw [if_neg hbound] at hrun
      cases hrun
      exact Function.update_self ..
  intro hsame
  rw [hsame, h.bits_of_le habove.le] at hmarked
  cases hmarked

/-- How many slots of each class were handed out. -/
structure Progress (size : ℕ) (state : Bitmap) (count : SizeClass → ℕ) :
    Prop where
  devSize_eq : state.devSize = size
  taken : ∀ c, Taken (areaOf state c) (c.slots size) (count c)
  slots_le : ∀ c : SizeClass, c.slots size ≤ c.capacity
  count_le : ∀ c, count c ≤ c.slots size

/-- The counts after one more slot of the class. -/
def bump (count : SizeClass → ℕ) (c : SizeClass) : SizeClass → ℕ :=
  fun other => count other + if other = c then 1 else 0

theorem progress_init (hinit : bitmapAllocatorInit size = .ok state) :
    Progress size state fun _ => 0 := by
  obtain ⟨small, hsmall, hrest⟩ := bind_eq_ok hinit
  obtain ⟨large, hlarge, hstate⟩ := bind_eq_ok hrest
  cases hstate
  rw [bitmapZero] at hsmall hlarge
  split_ifs at hsmall hlarge with hsmallFits hlargeFits
  cases hsmall
  cases hlarge
  refine ⟨rfl, ?_, ?_, fun _ => Nat.zero_le _⟩
  · rintro (_ | _)
    · exact ⟨rfl, rfl, fun i => iff_of_false Bool.false_ne_true (by omega)⟩
    · exact ⟨rfl, rfl, fun i => iff_of_false Bool.false_ne_true (by omega)⟩
  · rintro (_ | _)
    · exact Nat.le_of_not_lt hsmallFits
    · exact Nat.le_of_not_lt hlargeFits

/-- The slots of a class lie in its half of the device. -/
theorem slot_le {c : SizeClass} {k : ℕ} (hk : k < c.slots size) :
    c.base size + k * c.unit + c.unit ≤ c.base size + size / 2 := by
  have hle : (k + 1) * c.unit ≤ c.slots size * c.unit :=
    Nat.mul_le_mul_right _ hk
  have hhalf : c.slots size * c.unit ≤ size / 2 := Nat.div_mul_le_self _ _
  rw [Nat.add_mul, Nat.one_mul] at hle
  omega

theorem base_le (size : ℕ) (c : SizeClass) : c.base size ≤ size / 2 := by
  cases c
  · exact Nat.zero_le _
  · exact le_rfl

theorem unit_pos (c : SizeClass) : 0 < c.unit := by
  cases c <;> decide

/-- A call with a slot left is given the next one. -/
theorem Progress.allocate {count : SizeClass → ℕ} (h : Progress size state count)
    (search : ZeroAreaSearch) (hsize : size < 2 ^ 64) {length : ℕ}
    (hlt : count (sizeClass length) < (sizeClass length).slots size) :
    ∃ state', bitmapAllocate search state length =
        .ok ((sizeClass length).base size +
          count (sizeClass length) * (sizeClass length).unit, state') ∧
      Progress size state' (bump count (sizeClass length)) := by
  obtain ⟨area, htake, htaken⟩ := (h.taken (sizeClass length)).next search
    hlt (h.slots_le _)
  have hslot := slot_le hlt
  have hbase := base_le size (sizeClass length)
  have hunit := unit_pos (sizeClass length)
  refine ⟨setArea state (sizeClass length) area, ?_, ?_, ?_, h.slots_le, ?_⟩
  · rw [bitmapAllocate_eq, htake, ok_bind, h.devSize_eq]
    dsimp only
    rw [u64_of_lt (by omega)]
    rfl
  · rw [setArea_devSize, h.devSize_eq]
  · intro c
    rw [areaOf_setArea, bump]
    split_ifs with hc
    · rw [hc]
      exact htaken
    · exact h.taken c
  · intro c
    rw [bump]
    split_ifs with hc
    · rw [hc]
      exact hlt
    · exact h.count_le c

/-- The extent is a slot of its class that was not handed out at `count`. -/
def Later (size : ℕ) (count : SizeClass → ℕ) (call : Call) : Prop :=
  ∃ k, count (sizeClass call.length) ≤ k ∧
    k < (sizeClass call.length).slots size ∧
    call.offset = (sizeClass call.length).base size +
      k * (sizeClass call.length).unit

/-- Slots of different classes lie apart. -/
theorem classes_apart {c c' : SizeClass} (hne : c ≠ c') {k k' : ℕ}
    (hk : k < c.slots size) (hk' : k' < c'.slots size) :
    Apart (c.base size + k * c.unit) c.unit
      (c'.base size + k' * c'.unit) c'.unit := by
  have hle := slot_le hk
  have hle' := slot_le hk'
  cases c with
  | small =>
      cases c' with
      | small => exact absurd rfl hne
      | large =>
          left
          have hbase : SizeClass.base size .small = 0 := rfl
          have hbase' : SizeClass.base size .large = size / 2 := rfl
          omega
  | large =>
      cases c' with
      | small =>
          right
          have hbase : SizeClass.base size .small = 0 := rfl
          have hbase' : SizeClass.base size .large = size / 2 := rfl
          omega
      | large => exact absurd rfl hne

/-- Calls for which there are slots return slots that were not handed out
before, apart from each other. -/
theorem Progress.calls {count : SizeClass → ℕ}
    (h : Progress size state count) (search : ZeroAreaSearch) (hsize : size < 2 ^ 64) {lengths : List ℕ}
    (hfits : ∀ c, count c + demand lengths c ≤ c.slots size) :
    ∃ calls, runCalls search state lengths = .ok calls ∧
      (∀ call ∈ calls, call.Served ∧ Later size count call) ∧
      calls.Pairwise fun call later =>
        Apart call.offset (sizeClass call.length).unit
          later.offset (sizeClass later.length).unit := by
  induction lengths generalizing state count with
  | nil => exact ⟨[], rfl, fun _ hcall => absurd hcall List.not_mem_nil, .nil⟩
  | cons length lengths ih =>
      have hlt : count (sizeClass length) < (sizeClass length).slots size := by
        have hle := hfits (sizeClass length)
        rw [demand_cons, if_pos rfl] at hle
        omega
      obtain ⟨after, hrun, hafter⟩ := h.allocate search hsize hlt
      obtain ⟨calls, hcalls, hlater, hapart⟩ := ih hafter fun c => by
        have hle := hfits c
        rw [demand_cons] at hle
        rw [bump]
        omega
      refine ⟨⟨length, (sizeClass length).base size +
        count (sizeClass length) * (sizeClass length).unit, state, after⟩ ::
          calls, ?_, ?_, ?_⟩
      · rw [runCalls, hrun, ok_bind]
        dsimp only
        rw [hcalls]
        rfl
      · intro call hcall
        obtain rfl | hcall := List.mem_cons.mp hcall
        · refine ⟨?_, count (sizeClass length), le_rfl, hlt, rfl⟩
          rw [Call.Served, (h.taken _).exhausted_iff]
          exact Nat.not_le.mpr hlt
        · obtain ⟨hserved, k, hle, hk, hoffset⟩ := hlater call hcall
          refine ⟨hserved, k, ?_, hk, hoffset⟩
          rw [bump] at hle
          omega
      · refine List.pairwise_cons.mpr ⟨fun later hcall => ?_, hapart⟩
        obtain ⟨-, k, hle, hk, hoffset⟩ := hlater later hcall
        dsimp only
        rw [hoffset]
        by_cases hclass : sizeClass length = sizeClass later.length
        · rw [← hclass] at hle ⊢
          apply slots_apart
          rw [bump, if_pos rfl] at hle
          omega
        · exact classes_apart hclass hlt hk

/-- Sound calls do not ask for more slots than there are. -/
theorem Progress.demand_le {count : SizeClass → ℕ}
    (h : Progress size state count) (hsize : size < 2 ^ 64)
    {search : ZeroAreaSearch} {lengths : List ℕ} {calls : List Call}
    (hrun : runCalls search state lengths = .ok calls)
    (hsound : ∀ call ∈ calls, call.Sound size) (c : SizeClass) :
    count c + demand lengths c ≤ c.slots size := by
  induction lengths generalizing state count calls with
  | nil => exact h.count_le c
  | cons length lengths ih =>
      obtain ⟨⟨offset, after⟩, hallocate, hrest⟩ := bind_eq_ok hrun
      obtain ⟨later, hlater, hdone⟩ := bind_eq_ok hrest
      cases hdone
      obtain ⟨hcall, hcalls⟩ := List.forall_mem_cons.mp hsound
      have hlt : count (sizeClass length) < (sizeClass length).slots size := by
        refine lt_of_le_of_ne (h.count_le _) fun hfull => ?_
        -- the call finds its class exhausted and marks a bit all the same
        have htaken := h.taken (sizeClass length)
        rw [hfull] at htaken
        have hrefused : ¬ Call.Served ⟨length, offset, state, after⟩ :=
          not_not.mpr (htaken.exhausted_iff.mpr le_rfl)
        have hsame := (hcall.refused hrefused).2 (sizeClass length)
        rw [bitmapAllocate_eq] at hallocate
        obtain ⟨⟨off, area⟩, htake, hstate⟩ := bind_eq_ok hallocate
        cases hstate
        dsimp only at hsame
        rw [areaOf_setArea, if_pos rfl] at hsame
        exact htaken.marks htake hsame
      obtain ⟨after', hallocate', hafter⟩ :=
        h.allocate search hsize hlt
      rw [hallocate] at hallocate'
      cases hallocate'
      have hle := ih hafter hlater hcalls
      rw [bump] at hle
      rw [demand_cons]
      omega

/-- The calls of a run are sound exactly when no class is asked for more slots
than it has. -/
theorem calls_sound_iff (search : ZeroAreaSearch) (hsize : size < 2 ^ 64)
    (hinit : bitmapAllocatorInit size = .ok state) (lengths : List ℕ) :
    (∃ calls, runCalls search state lengths = .ok calls ∧ Sound size calls) ↔
      ∀ c : SizeClass, demand lengths c ≤ c.slots size := by
  have hprogress := progress_init hinit
  constructor
  · rintro ⟨calls, hrun, hsound⟩ c
    have hle := hprogress.demand_le hsize hrun hsound.each c
    rwa [Nat.zero_add] at hle
  · intro hfits
    obtain ⟨calls, hrun, hlater, hapart⟩ :=
      hprogress.calls search hsize fun c => by
        rw [Nat.zero_add]
        exact hfits c
    refine ⟨calls, hrun, fun call hcall => ?_, hapart.imp fun h _ _ => h⟩
    obtain ⟨hserved, k, -, hk, hoffset⟩ := hlater call hcall
    refine ⟨fun _ => ?_, fun hrefused => absurd hserved hrefused⟩
    rw [hoffset]
    exact ⟨Nat.le_add_right _ _, slot_le hk⟩

/-- The allocator of a device of 8192 bytes: four small slots and a large
one. -/
def smallDevice : Bitmap where
  small := { nbits := 4, bits := fun _ => false, lastPos := 0 }
  large := { nbits := 1, bits := fun _ => false, lastPos := 0 }
  devSize := 8192

theorem smallDevice_init : bitmapAllocatorInit 8192 = .ok smallDevice := rfl

theorem calls_sound_iff_smallDevice :
    (∃ calls, runCalls firstZero smallDevice [100, 2000] = .ok calls ∧
        Sound 8192 calls) ↔
      ∀ c : SizeClass, demand [100, 2000] c ≤ c.slots 8192 :=
  calls_sound_iff firstZero (by decide) smallDevice_init [100, 2000]

/-- The second large slot of a device that has one lies behind the device, and
its bit is marked. -/
theorem second_large_outside :
    (do
      let calls ← runCalls firstZero smallDevice [4096, 4096]
      return calls.map fun call =>
        (call.offset, (call.after.large.bits 0, call.after.large.bits 2))) =
      (.ok [(4096, (true, false)), (12288, (true, true))] :
        Except Fault (List (ℕ × Bool × Bool))) ∧
      ¬ ∃ calls, runCalls firstZero smallDevice [4096, 4096] = .ok calls ∧
        Sound 8192 calls := by
  refine ⟨by decide +kernel, ?_⟩
  rintro ⟨calls, hrun, hsound⟩
  have hle := (progress_init smallDevice_init).demand_le (by decide) hrun
    hsound.each .large
  exact absurd hle (by decide)

end NvmeVirt.KvBitmapRuns
