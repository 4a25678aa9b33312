import NvmeVirt.Core.Ring

/-!
# Rings with phase tags

Where a reader is not told how far a ring has been written, every entry
carries a tag that changes from one lap to the next: the reader goes on as
long as the entry under it has the tag of its own lap.
-/

namespace NvmeVirt.PhaseRing

open NvmeVirt.Ring

variable {α : Type*} {size : ℕ}

/-- The tag of the lap that entry `number` belongs to; the first lap has
`true`. -/
def lapPhase (size number : ℕ) : Bool := number / size % 2 == 0

/-- A reader: where it stands, the tag it waits for, and what it has seen. -/
structure Reader (α : Type*) where
  place : ℕ
  phase : Bool
  seen : List α

/-- A reader that has seen nothing. -/
def Reader.initial : Reader α := { place := 0, phase := true, seen := [] }

/-- One look at the ring. -/
def Reader.poll (size : ℕ) (tag : α → Bool) (ring : ℕ → α)
    (reader : Reader α) : Reader α :=
  let entry := ring reader.place
  if tag entry = reader.phase then
    if reader.place + 1 = size then
      { place := 0, phase := !reader.phase, seen := reader.seen ++ [entry] }
    else
      { place := reader.place + 1, phase := reader.phase
        seen := reader.seen ++ [entry] }
  else reader

/-- The ring holds the last lap of the stream, every entry has the tag of its
lap, and no place ahead has the tag that the next lap will give it. -/
structure Posted (size : ℕ) (tag : α → Bool) (ring : ℕ → α)
    (stream : List α) : Prop where
  recent : ∀ number entry, stream[number]? = some entry →
    stream.length ≤ number + size → ring (number % size) = entry
  tagged : ∀ number entry, stream[number]? = some entry →
    tag entry = lapPhase size number
  ahead : ∀ number, stream.length ≤ number →
    number < stream.length + size →
      tag (ring (number % size)) = !lapPhase size number

/-- The reader has seen an initial part of the stream and stands behind it. -/
structure Follows (size : ℕ) (stream : List α) (reader : Reader α) :
    Prop where
  seen_eq : reader.seen = stream.take reader.seen.length
  place_eq : reader.place = reader.seen.length % size
  phase_eq : reader.phase = lapPhase size reader.seen.length

/-! ## Laps -/

theorem lapPhase_of_lt {number : ℕ} (hlt : number < size) :
    lapPhase size number = true := by
  rw [lapPhase, Nat.div_eq_of_lt hlt]
  rfl

/-- A lap later the tag is the other one. -/
theorem lapPhase_add (hsize : 0 < size) (number : ℕ) :
    lapPhase size (number + size) = !lapPhase size number := by
  rw [lapPhase, lapPhase, Nat.add_div_right number hsize]
  rcases Nat.mod_two_eq_zero_or_one (number / size) with heven | hodd
  · rw [heven, Nat.succ_mod_two_eq_one_iff.mpr heven]
    rfl
  · rw [hodd, Nat.succ_mod_two_eq_zero_iff.mpr hodd]
    rfl

/-- The tag changes where the place wraps around. -/
theorem lapPhase_succ (hsize : 0 < size) (number : ℕ) :
    lapPhase size (number + 1) =
      if number % size + 1 = size then !lapPhase size number
      else lapPhase size number := by
  have hplace := Nat.mod_lt number hsize
  have hsplit := Nat.div_add_mod number size
  split_ifs with hwrap
  · have hnext : number + 1 = number - number % size + size := by omega
    have hlap : (number - number % size) / size = number / size := by
      rw [← Nat.mul_div_cancel_left (number / size) hsize]
      congr 1
      omega
    rw [hnext, lapPhase_add hsize, lapPhase, hlap, lapPhase]
  · have hlap : (number + 1) / size = number / size := by
      rw [Nat.div_eq_iff hsize]
      have hle : number / size * size = size * (number / size) :=
        Nat.mul_comm _ _
      constructor
      · omega
      · omega
    rw [lapPhase, hlap, lapPhase]

/-! ## Posting -/

section

variable {tag : α → Bool} {ring : ℕ → α} {stream : List α}

/-- A ring that nothing has been written to. -/
theorem posted_nil (hclear : ∀ place < size, tag (ring place) = false) :
    Posted size tag ring [] where
  recent := fun _ _ hentry => nomatch hentry
  tagged := fun _ _ hentry => nomatch hentry
  ahead := by
    intro number _ hlt
    rw [List.length_nil, Nat.zero_add] at hlt
    rw [hclear _ (Nat.mod_lt _ (Nat.zero_lt_of_lt hlt)), lapPhase_of_lt hlt]
    rfl

theorem getElem?_concat {entries : List α} {entry other : α} {number : ℕ}
    (hother : (entries ++ [entry])[number]? = some other) :
    entries[number]? = some other ∨
      number = entries.length ∧ other = entry := by
  rcases Nat.lt_trichotomy number entries.length with hlt | rfl | hgt
  · rw [List.getElem?_append_left hlt] at hother
    exact Or.inl hother
  · rw [List.getElem?_concat_length] at hother
    exact Or.inr ⟨rfl, (Option.some.inj hother).symm⟩
  · rw [List.getElem?_eq_none (by
      rw [List.length_append, List.length_singleton]; omega)] at hother
    cases hother

/-- An entry with the tag of its lap is written over the oldest one. -/
theorem Posted.post (hposted : Posted size tag ring stream) (hsize : 0 < size)
    {entry : α} (htag : tag entry = lapPhase size stream.length) :
    Posted size tag (Function.update ring (stream.length % size) entry)
      (stream ++ [entry]) where
  recent := by
    intro number other hother hrecent
    rw [List.length_append, List.length_singleton] at hrecent
    rcases getElem?_concat hother with hold | ⟨rfl, rfl⟩
    · have hlt := (List.getElem?_eq_some_iff.mp hold).1
      rw [Function.update_of_ne (mod_ne_of_lt hlt (by omega))]
      exact hposted.recent number other hold (by omega)
    · exact Function.update_self ..
  tagged := by
    intro number other hother
    rcases getElem?_concat hother with hold | ⟨rfl, rfl⟩
    · exact hposted.tagged number other hold
    · exact htag
  ahead := by
    intro number hle hlt
    rw [List.length_append, List.length_singleton] at hle hlt
    by_cases hlap : number = stream.length + size
    · rw [hlap, Nat.add_mod_right, Function.update_self, htag,
        lapPhase_add hsize, Bool.not_not]
    · have hplace : stream.length % size ≠ number % size :=
        mod_ne_of_lt (by omega) (by omega)
      rw [Function.update_of_ne hplace.symm]
      exact hposted.ahead number (by omega) (by omega)

/-! ## Reading -/

variable {reader : Reader α}

theorem follows_initial : Follows size stream Reader.initial where
  seen_eq := rfl
  place_eq := (Nat.zero_mod size).symm
  phase_eq := by
    rw [Reader.initial, List.length_nil, lapPhase, Nat.zero_div]
    rfl

theorem Follows.length_le (hfollows : Follows size stream reader) :
    reader.seen.length ≤ stream.length := by
  have hlength := congrArg List.length hfollows.seen_eq
  rw [List.length_take] at hlength
  omega

theorem Follows.append (hfollows : Follows size stream reader)
    (entries : List α) : Follows size (stream ++ entries) reader where
  seen_eq := by
    rw [List.take_append_of_le_length hfollows.length_le]
    exact hfollows.seen_eq
  place_eq := hfollows.place_eq
  phase_eq := hfollows.phase_eq

/-- A look at the ring shows the next entry of the stream, and nothing at its
end. -/
theorem Follows.poll (hfollows : Follows size stream reader)
    (hposted : Posted size tag ring stream) (hsize : 0 < size)
    (hlap : stream.length ≤ reader.seen.length + size) :
    Follows size stream (reader.poll size tag ring) ∧
      (reader.poll size tag ring).seen =
        stream.take (reader.seen.length + 1) := by
  obtain ⟨hseen, hplace, hphase⟩ := hfollows
  rcases Nat.lt_or_ge reader.seen.length stream.length with hlt | hend
  · have hentry : ring reader.place = stream[reader.seen.length] := by
      rw [hplace]
      exact hposted.recent _ _ (List.getElem?_eq_getElem hlt) hlap
    have htag : tag (ring reader.place) = reader.phase := by
      rw [hentry, hphase]
      exact hposted.tagged _ _ (List.getElem?_eq_getElem hlt)
    have hnext : reader.seen ++ [ring reader.place] =
        stream.take (reader.seen.length + 1) := by
      rw [hentry, List.take_succ_eq_append_getElem hlt, ← hseen]
    have hlength : (reader.seen ++ [ring reader.place]).length =
        reader.seen.length + 1 := by
      rw [List.length_append, List.length_singleton]
    have hwrap := next_place hsize reader.seen.length
    have hflip := lapPhase_succ hsize reader.seen.length
    rw [← hplace] at hwrap hflip
    rw [← hphase] at hflip
    rw [Reader.poll, if_pos htag]
    split_ifs at hwrap hflip ⊢ with hlast
    · exact ⟨⟨by rw [hlength]; exact hnext, by rw [hlength]; exact hwrap.symm,
        by rw [hlength]; exact hflip.symm⟩, hnext⟩
    · exact ⟨⟨by rw [hlength]; exact hnext, by rw [hlength]; exact hwrap.symm,
        by rw [hlength]; exact hflip.symm⟩, hnext⟩
  · -- the place under the reader is ahead of the stream
    have htag : tag (ring reader.place) ≠ reader.phase := by
      rw [hplace, hposted.ahead _ hend (by
        have hle := congrArg List.length hseen
        rw [List.length_take] at hle
        omega), hphase]
      exact Bool.not_ne_self _
    have hstay : reader.poll size tag ring = reader := if_neg htag
    rw [hstay]
    refine ⟨⟨hseen, hplace, hphase⟩, ?_⟩
    rw [List.take_of_length_le (by omega)]
    rw [List.take_of_length_le hend] at hseen
    exact hseen

/-- However often the reader looks, it sees the entries of the stream in
order, each once. -/
theorem Follows.polls (hfollows : Follows size stream reader)
    (hposted : Posted size tag ring stream) (hsize : 0 < size)
    (hlap : stream.length ≤ reader.seen.length + size) (count : ℕ) :
    Follows size stream ((Reader.poll size tag ring)^[count] reader) ∧
      ((Reader.poll size tag ring)^[count] reader).seen =
        stream.take (reader.seen.length + count) := by
  induction count with
  | zero => exact ⟨hfollows, hfollows.seen_eq⟩
  | succ count ih =>
      obtain ⟨hfollows', hseen⟩ := ih
      have hlength : ((Reader.poll size tag ring)^[count] reader).seen.length =
          min (reader.seen.length + count) stream.length := by
        rw [hseen, List.length_take]
      have hle := hfollows.length_le
      rw [Function.iterate_succ_apply']
      obtain ⟨hlast, hlastSeen⟩ := hfollows'.poll hposted hsize (by omega)
      refine ⟨hlast, hlastSeen.trans ?_⟩
      rw [hlength]
      rcases Nat.le_total (reader.seen.length + count) stream.length with
        hless | hend
      · rw [Nat.min_eq_left hless, Nat.add_assoc]
      · rw [Nat.min_eq_right hend, List.take_of_length_le (by omega),
          List.take_of_length_le (by omega)]

/-- A reader that looks does not fall behind. -/
theorem Follows.polls_behind (hfollows : Follows size stream reader)
    (hposted : Posted size tag ring stream) (hsize : 0 < size)
    (hlap : stream.length ≤ reader.seen.length + size) (count : ℕ) :
    stream.length ≤
      ((Reader.poll size tag ring)^[count] reader).seen.length + size := by
  have hseen := (hfollows.polls hposted hsize hlap count).2
  have hle := hfollows.length_le
  rw [hseen, List.length_take]
  omega

end

end NvmeVirt.PhaseRing
