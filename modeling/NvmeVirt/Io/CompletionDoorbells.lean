import NvmeVirt.Io.Dispatch
import NvmeVirt.Io.CompletionRing

/-!
# The doorbells of the completion queues

The host stores the place behind the last completion it has seen.
`nvmev_proc_io_cq` counts the commands of the completions in between as no
longer in flight, and remembers the last one of them.  What it remembers is
the place before the doorbell, except for the doorbell 0: the test for the
wrap compares the doorbell, not the place, with -1.
-/

namespace NvmeVirt.CompletionDoorbells

open NvmeVirt.AdminRequests
open NvmeVirt.Dispatch
open NvmeVirt.Kernel
open NvmeVirt.Ring
open NvmeVirt.Transition
open NvmeVirt.Worker

variable {κ : Type}

/-- `stat.nr_in_flight--`. -/
def SqStat.completed (stat : SqStat) : SqStat :=
  { stat with nrInFlight := sub32 stat.nrInFlight 1 }

/-- The statistics after `count` more completions. -/
def SubmissionQueue.completed (count : ℕ) (sq : SubmissionQueue κ) :
    SubmissionQueue κ :=
  { sq with stat := SqStat.completed^[count] sq.stat }

/-- The body of the loop of `nvmev_proc_io_cq`. -/
def completeSlot (entries : ℕ → Completion)
    (sqes : ℕ → Option (SubmissionQueue κ)) (slot : ℕ) :
    Except Fault (ℕ → Option (SubmissionQueue κ)) :=
  match sqes (entries slot).sqId with
  | none => .error .nullPointer
  | some sq =>
      .ok (Function.update sqes (entries slot).sqId
        (some { sq with stat := SqStat.completed sq.stat }))

/-- The loop of `nvmev_proc_io_cq` from `i` on, with the slots it completes.
Behind the last slot, `i` is set to -1 and then increased. -/
def cqLoop (entries : ℕ → Completion) (queueSize newDb : ℤ) :
    ℕ → ℤ → (ℕ → Option (SubmissionQueue κ)) →
      Except Fault (List ℕ × (ℕ → Option (SubmissionQueue κ)))
  | 0, _, _ => .error .divergence
  | fuel + 1, i, sqes =>
      if i = newDb then .ok ([], sqes)
      else if queueSize ≤ i then
        cqLoop entries queueSize newDb fuel (-1 + 1) sqes
      else do
        let sqes ← completeSlot entries sqes i.toNat
        let (slots, sqes) ←
          cqLoop entries queueSize newDb fuel (i + 1) sqes
        return (i.toNat :: slots, sqes)

/-- The completion queue of the doorbell and the submission queues. -/
structure CqVdev (κ : Type) where
  cq : CqInfo
  entries : ℕ → Completion
  sqes : ℕ → Option (SubmissionQueue κ)

/-- `nvmev_proc_io_cq`, with the slots it completes.  The loop looks at every
slot, at the place behind the last one and at the doorbell at most once. -/
def nvmevProcIoCq (vdev : CqVdev κ) (newDb oldDb : ℤ) :
    Except Fault (List ℕ × CqVdev κ) := do
  let (slots, sqes) ← cqLoop vdev.entries vdev.cq.queueSize newDb
    (vdev.cq.queueSize + 2) oldDb vdev.sqes
  let cqTail := newDb - 1
  let cqTail := if newDb = -1 then (vdev.cq.queueSize : ℤ) - 1 else cqTail
  return (slots, { vdev with
    cq := { vdev.cq with cqTail := cqTail }, sqes := sqes })

/-- The slots from the old doorbell up to the new one. -/
def ringSlots (queueSize oldDb newDb : ℕ) : List ℕ :=
  (List.range ((newDb + queueSize - oldDb) % queueSize)).map fun step =>
    (oldDb + step) % queueSize

/-- How many of the slots complete a command of the queue `sqid`. -/
def completionsOf (entries : ℕ → Completion) (slots : List ℕ) (sqid : ℕ) : ℕ :=
  slots.countP fun slot => (entries slot).sqId = sqid

/-- The call returns, has decremented `nr_in_flight` once for every slot from
the old doorbell up to the new one, and has remembered the last of them. -/
def Consumes (vdev : CqVdev κ) (newDb oldDb : ℕ) : Prop :=
  (ringSlots vdev.cq.queueSize oldDb newDb).Nodup ∧
  ∃ after, nvmevProcIoCq vdev newDb oldDb =
      .ok (ringSlots vdev.cq.queueSize oldDb newDb, after) ∧
    (∀ sqid, after.sqes sqid = (vdev.sqes sqid).map
      (SubmissionQueue.completed (completionsOf vdev.entries
        (ringSlots vdev.cq.queueSize oldDb newDb) sqid))) ∧
    after.cq.cqTail =
      ((newDb + vdev.cq.queueSize - 1) % vdev.cq.queueSize : ℕ)

/-! ## The slots of a doorbell -/

section

variable {queueSize oldDb newDb : ℕ}

/-- Every slot is named once. -/
theorem nodup_ringSlots (queueSize oldDb newDb : ℕ) :
    (ringSlots queueSize oldDb newDb).Nodup := by
  rw [ringSlots]
  apply List.Nodup.map_on _ List.nodup_range
  intro step hstep step' hstep' heq
  rw [List.mem_range] at hstep hstep'
  rcases Nat.eq_zero_or_pos queueSize with hzero | hsize
  · rw [hzero, Nat.mod_zero, Nat.mod_zero] at heq
    exact Nat.add_left_cancel heq
  · have hlap := Nat.mod_lt (newDb + queueSize - oldDb) hsize
    by_contra hne
    rcases Nat.lt_or_gt_of_ne hne with hlt | hgt
    · exact mod_ne_of_lt (Nat.add_lt_add_left hlt oldDb) (by omega) heq
    · exact mod_ne_of_lt (Nat.add_lt_add_left hgt oldDb) (by omega) heq.symm

/-- The doorbells lie on one lap. -/
theorem ringSlots_of_le (hle : oldDb ≤ newDb) (hnew : newDb < queueSize) :
    ringSlots queueSize oldDb newDb =
      List.range' oldDb (newDb - oldDb) := by
  have hcount : (newDb + queueSize - oldDb) % queueSize = newDb - oldDb := by
    rw [Nat.sub_add_comm hle, Nat.add_mod_right, Nat.mod_eq_of_lt (by omega)]
  rw [ringSlots, hcount, List.range'_eq_map_range]
  apply List.map_congr_left
  intro step hstep
  rw [List.mem_range] at hstep
  exact Nat.mod_eq_of_lt (by omega)

/-- The new doorbell lies on the next lap. -/
theorem ringSlots_of_lt (hlt : newDb < oldDb) (hold : oldDb < queueSize) :
    ringSlots queueSize oldDb newDb =
      List.range' oldDb (queueSize - oldDb) ++ List.range' 0 newDb := by
  have hcount : (newDb + queueSize - oldDb) % queueSize =
      queueSize - oldDb + newDb := by
    rw [Nat.mod_eq_of_lt (by omega)]
    omega
  rw [ringSlots, hcount, List.range_add, List.map_append,
    List.range'_eq_map_range, List.range'_eq_map_range, List.map_map]
  congr 1
  · apply List.map_congr_left
    intro step hstep
    rw [List.mem_range] at hstep
    exact Nat.mod_eq_of_lt (by omega)
  · apply List.map_congr_left
    intro step hstep
    rw [List.mem_range] at hstep
    have hplace : oldDb + (queueSize - oldDb + step) = step + queueSize := by
      omega
    change (oldDb + (queueSize - oldDb + step)) % queueSize = 0 + step
    rw [hplace, Nat.add_mod_right, Nat.mod_eq_of_lt (by omega), Nat.zero_add]

end

/-! ## The completions -/

section

variable {entries : ℕ → Completion}
variable {sqes : ℕ → Option (SubmissionQueue κ)}

/-- Every completion names a queue that exists. -/
def Named (entries : ℕ → Completion) (sqes : ℕ → Option (SubmissionQueue κ))
    (slots : List ℕ) : Prop :=
  ∀ slot ∈ slots, sqes (entries slot).sqId ≠ none

/-- The queues after the completions of `slots`. -/
def completedSqes (entries : ℕ → Completion)
    (sqes : ℕ → Option (SubmissionQueue κ)) (slots : List ℕ) (sqid : ℕ) :
    Option (SubmissionQueue κ) :=
  (sqes sqid).map
    (SubmissionQueue.completed (completionsOf entries slots sqid))

theorem completedSqes_nil : completedSqes entries sqes [] = sqes := by
  funext sqid
  exact Option.map_id_apply

/-- One completion and then the others. -/
theorem completedSqes_cons {slot : ℕ} {slots : List ℕ}
    {sq : SubmissionQueue κ} (hsq : sqes (entries slot).sqId = some sq) :
    completedSqes entries (Function.update sqes (entries slot).sqId
        (some { sq with stat := SqStat.completed sq.stat })) slots =
      completedSqes entries sqes (slot :: slots) := by
  funext sqid
  rw [completedSqes, completedSqes, completionsOf, completionsOf,
    List.countP_cons]
  by_cases heq : (entries slot).sqId = sqid
  · subst heq
    rw [Function.update_self, hsq, if_pos (decide_eq_true rfl),
      Option.map_some, Option.map_some, SubmissionQueue.completed,
      SubmissionQueue.completed, Function.iterate_succ_apply]
  · rw [Function.update_of_ne (Ne.symm heq), if_neg (by simpa using heq)]
    rfl

/-- A completed command leaves the same queues behind. -/
theorem completeSlot_none_iff {slot sqid : ℕ}
    {after : ℕ → Option (SubmissionQueue κ)}
    (hrun : completeSlot entries sqes slot = .ok after) :
    after sqid = none ↔ sqes sqid = none := by
  rw [completeSlot] at hrun
  cases hsq : sqes (entries slot).sqId with
  | none =>
      rw [hsq] at hrun
      cases hrun
  | some sq =>
      rw [hsq] at hrun
      cases hrun
      by_cases heq : sqid = (entries slot).sqId
      · rw [heq, Function.update_self, hsq]
        exact iff_of_false (Option.some_ne_none _) (Option.some_ne_none _)
      · rw [Function.update_of_ne heq]

/-- The completions of `slots` are counted if each of them names a queue. -/
theorem completeSlots_of_named {slots : List ℕ}
    (hnamed : Named entries sqes slots) :
    slots.foldlM (completeSlot entries) sqes =
      .ok (completedSqes entries sqes slots) := by
  induction slots generalizing sqes with
  | nil =>
      rw [completedSqes_nil]
      rfl
  | cons slot slots ih =>
      obtain ⟨sq, hsq⟩ := Option.ne_none_iff_exists'.mp
        (hnamed slot List.mem_cons_self)
      have hfirst : completeSlot entries sqes slot =
          .ok (Function.update sqes (entries slot).sqId
            (some { sq with stat := SqStat.completed sq.stat })) := by
        rw [completeSlot, hsq]
      rw [List.foldlM_cons, hfirst, ok_bind, ← completedSqes_cons hsq]
      apply ih
      intro other hother
      rw [ne_eq, completeSlot_none_iff hfirst]
      exact hnamed other (List.mem_cons_of_mem slot hother)

theorem named_of_completeSlots {slots : List ℕ}
    {after : ℕ → Option (SubmissionQueue κ)}
    (hrun : slots.foldlM (completeSlot entries) sqes = .ok after) :
    Named entries sqes slots := by
  induction slots generalizing sqes with
  | nil => exact fun slot hslot => absurd hslot List.not_mem_nil
  | cons slot slots ih =>
      rw [List.foldlM_cons] at hrun
      obtain ⟨next, hfirst, hrun⟩ := bind_eq_ok hrun
      intro other hother
      cases List.mem_cons.mp hother with
      | inl heq =>
          intro hnone
          rw [completeSlot, ← heq, hnone] at hfirst
          cases hfirst
      | inr hmem =>
          rw [ne_eq, ← completeSlot_none_iff hfirst]
          exact ih hrun other hmem

end

/-! ## The loop -/

section

variable {entries : ℕ → Completion} {queueSize newDb oldDb : ℕ}
variable {sqes : ℕ → Option (SubmissionQueue κ)}

/-- A stretch of slots with no doorbell in between. -/
theorem cqLoop_stretch {start count : ℕ} (fuel : ℕ)
    (hinside : start + count ≤ queueSize)
    (hpast : ∀ step < count, start + step ≠ newDb) :
    cqLoop entries queueSize newDb (count + fuel) start sqes =
      (List.range' start count).foldlM (completeSlot entries) sqes >>=
        fun sqes => cqLoop entries queueSize newDb fuel
          ((start + count : ℕ) : ℤ) sqes >>= fun result =>
            .ok (List.range' start count ++ result.1, result.2) := by
  induction count generalizing start sqes with
  | zero =>
      rw [Nat.zero_add]
      exact (bind_pure _).symm
  | succ count ih =>
      have hfirst : ((start : ℕ) : ℤ) ≠ newDb :=
        Nat.cast_injective.ne (hpast 0 (Nat.succ_pos count))
      have hplace : ((start : ℕ) : ℤ) + 1 = ((start + 1 : ℕ) : ℤ) := rfl
      have hrest := fun next => @ih next (start + 1) (by omega)
        fun step hstep => by
          have hne := hpast (step + 1) (Nat.succ_lt_succ hstep)
          rwa [Nat.add_comm step, ← Nat.add_assoc] at hne
      rw [Nat.add_right_comm, cqLoop, if_neg hfirst,
        if_neg (not_le.mpr (by omega)), Int.toNat_natCast, hplace,
        List.range'_succ, List.foldlM_cons, bind_assoc]
      apply bind_congr
      intro next
      rw [hrest, bind_assoc]
      apply bind_congr
      intro sqes
      rw [bind_assoc, Nat.add_assoc start 1 count, Nat.add_comm 1 count]
      rfl

/-- The loop completes the slots up to the new doorbell, and ends. -/
theorem cqLoop_eq (hold : oldDb < queueSize) (hnew : newDb < queueSize) :
    cqLoop entries queueSize newDb (queueSize + 2) oldDb sqes =
      (ringSlots queueSize oldDb newDb).foldlM (completeSlot entries) sqes >>=
        fun sqes => .ok (ringSlots queueSize oldDb newDb, sqes) := by
  rcases Nat.lt_or_ge newDb oldDb with hlt | hle
  · -- to the end of the ring, once round, and on to the doorbell
    have hfuel : queueSize + 2 =
        (queueSize - oldDb) + ((newDb + (oldDb - newDb + 1)) + 1) := by omega
    have hend : oldDb + (queueSize - oldDb) = queueSize := by omega
    have hpast : ((queueSize : ℕ) : ℤ) ≠ newDb :=
      Nat.cast_injective.ne hnew.ne'
    have hzero : (-1 + 1 : ℤ) = ((0 : ℕ) : ℤ) := rfl
    rw [hfuel, cqLoop_stretch _ (by omega) (fun step _ => by omega), hend,
      ringSlots_of_lt hlt hold, List.foldlM_append, bind_assoc]
    apply bind_congr
    intro next
    rw [cqLoop, if_neg hpast, if_pos le_rfl, hzero,
      cqLoop_stretch _ (by omega) (fun step _ => by omega), Nat.zero_add,
      bind_assoc]
    apply bind_congr
    intro sqes
    rw [cqLoop, if_pos rfl]
    simp only [ok_bind, List.append_nil]
  · have hfuel : queueSize + 2 =
        (newDb - oldDb) + ((queueSize + 1 - (newDb - oldDb)) + 1) := by omega
    have hend : oldDb + (newDb - oldDb) = newDb := by omega
    rw [hfuel, cqLoop_stretch _ (by omega) (fun step _ => by omega), hend,
      ringSlots_of_le hle hnew]
    apply bind_congr
    intro sqes
    rw [cqLoop, if_pos rfl]
    simp only [ok_bind, List.append_nil]

end

/-! ## One doorbell -/

section

variable {vdev : CqVdev κ} {newDb oldDb : ℕ}

/-- The place before a doorbell that is not 0. -/
theorem last_place {queueSize : ℕ} (hnew : newDb < queueSize) :
    (newDb : ℤ) - 1 = ((newDb + queueSize - 1) % queueSize : ℕ) ↔
      newDb ≠ 0 := by
  rcases Nat.eq_zero_or_pos newDb with hzero | hpos
  · have hnonneg : 0 ≤ (((newDb + queueSize - 1) % queueSize : ℕ) : ℤ) :=
      Int.natCast_nonneg _
    exact iff_of_false (by omega) (not_not.mpr hzero)
  · have hplace : (newDb + queueSize - 1) % queueSize = newDb - 1 := by
      rw [Nat.sub_add_comm hpos, Nat.add_mod_right, Nat.mod_eq_of_lt (by omega)]
    rw [hplace]
    exact iff_of_true (by omega) hpos.ne'

theorem nvmevProcIoCq_eq (hold : oldDb < vdev.cq.queueSize)
    (hnew : newDb < vdev.cq.queueSize) :
    nvmevProcIoCq vdev newDb oldDb =
      (ringSlots vdev.cq.queueSize oldDb newDb).foldlM
          (completeSlot vdev.entries) vdev.sqes >>= fun sqes =>
        .ok (ringSlots vdev.cq.queueSize oldDb newDb,
          { vdev with
            cq := { vdev.cq with cqTail := newDb - 1 }, sqes := sqes }) := by
  have hpositive : ¬ (newDb : ℤ) = -1 := by omega
  rw [nvmevProcIoCq, cqLoop_eq hold hnew, bind_assoc]
  apply bind_congr
  intro sqes
  rw [ok_bind]
  dsimp only
  rw [if_neg hpositive]
  rfl

end

/-- The call does what the doorbells say exactly when the new doorbell is not 0
and every completion in between names a queue that exists. -/
theorem consumes_iff {vdev : CqVdev κ} {newDb oldDb : ℕ}
    (hold : oldDb < vdev.cq.queueSize) (hnew : newDb < vdev.cq.queueSize) :
    Consumes vdev newDb oldDb ↔ newDb ≠ 0 ∧ Named vdev.entries vdev.sqes
      (ringSlots vdev.cq.queueSize oldDb newDb) := by
  rw [Consumes, nvmevProcIoCq_eq hold hnew]
  constructor
  · rintro ⟨-, after, hrun, -, htail⟩
    obtain ⟨sqes, hslots, hrun⟩ := bind_eq_ok hrun
    cases hrun
    exact ⟨(last_place hnew).mp htail, named_of_completeSlots hslots⟩
  · rintro ⟨hpos, hnamed⟩
    rw [completeSlots_of_named hnamed, ok_bind]
    exact ⟨nodup_ringSlots _ _ _, _, rfl, fun _ => rfl,
      (last_place hnew).mpr hpos⟩

/-- A ring of three completions, all of commands of the queue 1. -/
def threeSlots : CqVdev Unit where
  cq :=
    { qid := 1, irqVector := 0, irqEnabled := false, physContig := true
      queueSize := 3, phase := true, cqHead := 0, cqTail := -1, prp1 := 0 }
  entries _ :=
    { result0 := 0, result1 := 0, sqHead := 0, sqId := 1, commandId := 0
      status := 1 }
  sqes := Function.update (fun _ => none) 1
    (some
      { cqid := 1, queueSize := 3
        entries := fun _ => { commandId := 0, length := 0, rest := () }
        stat := { nrDispatched := 3, nrDispatch := 1, nrInFlight := 3
                  maxNrInFlight := 3, totalIo := 1536 } })

theorem threeSlots_named (slots : List ℕ) :
    Named threeSlots.entries threeSlots.sqes slots := by
  intro slot _
  exact Option.some_ne_none _

/-- From the last slot on to the second one. -/
theorem consumes_iff_threeSlots : Consumes threeSlots 1 2 :=
  (consumes_iff (by decide) (by decide)).mpr
    ⟨one_ne_zero, threeSlots_named _⟩

/-- The doorbell 0 stands behind the last slot, but -1 is remembered. -/
theorem zero_doorbell_tail :
    2 < threeSlots.cq.queueSize ∧ 0 < threeSlots.cq.queueSize ∧
      Named threeSlots.entries threeSlots.sqes
        (ringSlots threeSlots.cq.queueSize 2 0) ∧
      (∃ after, nvmevProcIoCq threeSlots 0 2 = .ok ([2], after) ∧
        after.cq.cqTail = -1) ∧
      ¬ Consumes threeSlots 0 2 := by
  refine ⟨by decide, by decide, threeSlots_named _, ⟨_, rfl, rfl⟩, ?_⟩
  intro hconsumes
  exact ((consumes_iff (by decide) (by decide)).mp hconsumes).1 rfl

end NvmeVirt.CompletionDoorbells
