import NvmeVirt.Device.CreditTable

/-!
# What holds of the credits in the ring

Only the valid part of the ring is ever refilled: every entry behind it has all
its credits, whatever the clock does and whatever is requested.
-/

namespace NvmeVirt.CreditRing

open NvmeVirt.Bandwidth
open NvmeVirt.CreditTable
open NvmeVirt.Kernel
open NvmeVirt.Ring
open NvmeVirt.Transition

/-- No entry has more than its credits, and only the valid part of the ring
has been used. -/
structure RingInv (ch : ChannelModel) : Prop where
  ring : RingWf ch
  maxCredits_lt : ch.maxCredits < 2 ^ 8
  credits_le : ∀ entry < nrCreditEntries, ch.availCredits entry ≤ ch.maxCredits
  unused : ∀ step, ch.validLen ≤ step → step < nrCreditEntries →
    ch.availCredits ((ch.head + step) % nrCreditEntries) = ch.maxCredits

variable {ch : ChannelModel} {head : ℕ}

/-- Every entry lies some steps after the head. -/
theorem exists_step (hhead : head < nrCreditEntries) {entry : ℕ}
    (hentry : entry < nrCreditEntries) :
    ∃ step < nrCreditEntries, entry = (head + step) % nrCreditEntries := by
  obtain hle | hlt := le_or_gt head entry
  · refine ⟨entry - head, by omega, ?_⟩
    rw [Nat.add_sub_cancel' hle, Nat.mod_eq_of_lt hentry]
  · refine ⟨entry + nrCreditEntries - head, by omega, ?_⟩
    rw [Nat.add_sub_cancel' (by omega), Nat.add_mod_right,
      Nat.mod_eq_of_lt hentry]

/-! ## Moving the head -/

/-- The entries that `moveHead` leaves behind are refilled, the others keep
their credits. -/
theorem RingInv.moveHead_apply (h : RingInv ch) (curTime : ℕ) :
    ∃ offs ≤ ch.validLen,
      (moveHead ch curTime).head = (ch.head + offs) % nrCreditEntries ∧
      (moveHead ch curTime).validLen = ch.validLen - offs ∧
      ∀ step < nrCreditEntries, (moveHead ch curTime).availCredits
          ((ch.head + step) % nrCreditEntries) =
        if step < offs then ch.maxCredits
        else ch.availCredits ((ch.head + step) % nrCreditEntries) := by
  set elapsed := u32 (sub64 (curTime / unitTimeInterval)
    (ch.curTime / unitTimeInterval)) with helapsed
  have hoffs : (if elapsed < ch.validLen then elapsed else ch.validLen) ≤
      ch.validLen := by
    split_ifs with hlt
    · exact hlt.le
    · exact le_refl _
  refine ⟨_, hoffs, rfl, rfl, ?_⟩
  intro step hstep
  exact refill_apply h.ring.head_lt (hoffs.trans h.ring.validLen_le)
    h.maxCredits_lt hstep

theorem RingInv.moveHead (h : RingInv ch) (curTime : ℕ) :
    RingInv (moveHead ch curTime) := by
  have hhead := h.ring.head_lt
  have hvalid := h.ring.validLen_le
  obtain ⟨offs, hoffs, hnext, hrest, hcredits⟩ := h.moveHead_apply curTime
  refine ⟨h.ring.moveHead curTime, h.maxCredits_lt, ?_, ?_⟩
  · intro entry hentry
    obtain ⟨step, hstep, rfl⟩ := exists_step hhead hentry
    rw [hcredits step hstep]
    split_ifs
    · exact le_refl ch.maxCredits
    · exact h.credits_le _ hentry
  · intro step hunused hstep
    rw [hrest] at hunused
    rw [hnext, Nat.mod_add_mod, Nat.add_assoc]
    obtain hinside | hwrap := Nat.lt_or_ge (offs + step) nrCreditEntries
    · rw [hcredits _ hinside, if_neg (by omega)]
      exact h.unused _ (by omega) hinside
    · -- around the ring, among the entries that were left behind
      have hplace : ch.head + (offs + step) =
          ch.head + (offs + step - nrCreditEntries) + nrCreditEntries := by
        omega
      rw [hplace, Nat.add_mod_right, hcredits _ (by omega), if_pos (by omega)]
      rfl

/-! ## Taking credits -/

/-- What the loop leaves when it went on for `used` entries from the one at
`offs` on: the credits behind them, and no more than there were before. -/
structure Walked (head offs : ℕ) (credits : ℕ → ℕ) (delay : ℕ)
    (final : Consumed) (used : ℕ) : Prop where
  inside : offs + used < nrCreditEntries
  delay_eq : final.delay = delay + used
  pos_eq : final.pos = (head + (offs + used)) % nrCreditEntries
  fewer : ∀ entry, final.credits entry ≤ credits entry
  behind : ∀ step, offs + used < step → step < nrCreditEntries →
    final.credits ((head + step) % nrCreditEntries) =
      credits ((head + step) % nrCreditEntries)

/-- A round that is the last one. -/
theorem walked_stop (head delay : ℕ) {offs value : ℕ} {credits : ℕ → ℕ}
    (hoffs : offs < nrCreditEntries)
    (hvalue : value ≤ credits ((head + offs) % nrCreditEntries)) :
    Walked head offs credits delay
      ⟨Function.update credits ((head + offs) % nrCreditEntries) value,
        (head + offs) % nrCreditEntries, delay⟩ 0 where
  inside := hoffs
  delay_eq := rfl
  pos_eq := rfl
  fewer entry := by
    by_cases hentry : entry = (head + offs) % nrCreditEntries
    · rw [hentry]
      dsimp only
      rwa [Function.update_self]
    · exact (Function.update_of_ne hentry _ _).le
  behind step hstep hlt := by
    apply Function.update_of_ne
    exact (mod_ne_of_lt (by omega) (by omega)).symm

/-- A round before the others. -/
theorem Walked.before {offs delay used : ℕ} {credits : ℕ → ℕ}
    {final : Consumed} (hoffs : offs < nrCreditEntries)
    (h : Walked head (offs + 1)
      (Function.update credits ((head + offs) % nrCreditEntries) 0) (delay + 1)
      final used) :
    Walked head offs credits delay final (used + 1) := by
  have hround := walked_stop head delay hoffs
    (Nat.zero_le (credits ((head + offs) % nrCreditEntries)))
  have hplace : offs + (used + 1) = offs + 1 + used := by omega
  constructor
  · exact hplace ▸ h.inside
  · rw [h.delay_eq, Nat.add_assoc, Nat.add_comm 1]
  · rw [hplace, h.pos_eq]
  · exact fun entry => (h.fewer entry).trans (hround.fewer entry)
  · intro step hstep hlt
    rw [h.behind step (hplace ▸ hstep) hlt]
    exact hround.behind step (by omega) hlt

theorem consume_walked {fuel offs remaining delay : ℕ} {credits : ℕ → ℕ}
    {final : Consumed} (hhead : head < nrCreditEntries)
    (hoffs : offs < nrCreditEntries)
    (h : consume head fuel credits ((head + offs) % nrCreditEntries) remaining
      delay = some final) :
    ∃ used, Walked head offs credits delay final used := by
  induction fuel generalizing offs remaining delay credits with
  | zero => cases h
  | succ fuel ih =>
      rw [consume_succ, next_entry] at h
      split_ifs at h with hall hnext
      · cases h
        exact ⟨0, walked_stop head delay hoffs (Nat.sub_le _ _)⟩
      · obtain ⟨used, hused⟩ := ih ((next_ne_head hhead hoffs).mp hnext) h
        exact ⟨used + 1, hused.before hoffs⟩
      · cases h
        exact ⟨0, walked_stop head delay hoffs (Nat.zero_le _)⟩

/-! ## Requests -/

/-- The loop and the new length keep the invariant. -/
theorem RingInv.afterLoop (h : RingInv ch) {final : Consumed} {offs used delay : ℕ}
    (hwalked : Walked ch.head offs ch.availCredits delay final used) :
    RingInv (afterLoop ch final) := by
  have hhead := h.ring.head_lt
  have hvalid := h.ring.validLen_le
  have hlength : (Bandwidth.afterLoop ch final).validLen =
      max ch.validLen (offs + used + 1) := by
    rw [Bandwidth.afterLoop, hwalked.pos_eq]
    dsimp only
    rw [validLength_eq hhead hwalked.inside]
    split_ifs with hlonger
    · exact (Nat.max_eq_right hlonger.le).symm
    · exact (Nat.max_eq_left (Nat.le_of_not_lt hlonger)).symm
  have hinside := hwalked.inside
  refine ⟨⟨hhead, by omega, h.ring.maxCredits_pos⟩, h.maxCredits_lt, ?_, ?_⟩
  · exact fun entry hentry =>
      (hwalked.fewer entry).trans (h.credits_le entry hentry)
  · intro step hunused hstep
    rw [hlength] at hunused
    exact (hwalked.behind step (by omega) hstep).trans
      (h.unused step (by omega) hstep)

/-- A request returns, and keeps the invariant. -/
theorem RingInv.request (h : RingInv ch) (curTime requestTime length : ℕ) :
    ∃ time after, chmodelRequest ch curTime requestTime length =
      .ok (time, after) ∧ RingInv after := by
  have hmoved := h.moveHead curTime
  by_cases hearly : requestTime < curTime ∨
      nrCreditEntries ≤ requestTimeOffs curTime requestTime
  · exact ⟨_, _, chmodelRequest_early h.ring hearly, hmoved⟩
  · obtain ⟨hpast, hinside⟩ := not_or.mp hearly
    rw [Nat.not_lt] at hpast
    rw [Nat.not_le] at hinside
    obtain ⟨final, hfinal, -, hrun⟩ := chmodelRequest_late h.ring hpast hinside length
    obtain ⟨used, hwalked⟩ :=
      consume_walked hmoved.ring.head_lt hinside hfinal
    exact ⟨_, _, hrun, hmoved.afterLoop hwalked⟩

/-! ## Runs -/

/-- What `chmodel_init` sets up meets the invariant. -/
theorem ringInv_of_init {bandwidth : ℕ}
    (hinit : chmodelInit bandwidth = .ok ch) (hpos : 1 ≤ ch.maxCredits)
    (hle : ch.maxCredits ≤ 255) : RingInv ch := by
  rw [chmodelInit] at hinit
  split_ifs at hinit
  cases hinit
  have hlt : (idleModel bandwidth).maxCredits < 2 ^ 8 := Nat.lt_succ_of_le hle
  have hfull : ∀ entry < nrCreditEntries,
      (idleModel bandwidth).availCredits entry =
        (idleModel bandwidth).maxCredits := by
    intro entry hentry
    change memset (fun _ => 0) 0 (idleModel bandwidth).maxCredits
      nrCreditEntries entry = (idleModel bandwidth).maxCredits
    exact memset_of_mem hlt ⟨Nat.zero_le _, by rwa [Nat.zero_add]⟩
  refine ⟨⟨nrCreditEntries_pos, Nat.zero_le _, hpos⟩, hlt, ?_, ?_⟩
  · exact fun entry hentry => (hfull entry hentry).le
  · exact fun step _ _ => hfull _ (Nat.mod_lt _ nrCreditEntries_pos)

/-- All runs of a channel: the wall clock may go back, and a request may be for
any time and length. -/
def requestMachine : Machine ChannelModel TransferReq Fault where
  init ch := (∃ bandwidth, chmodelInit bandwidth = .ok ch) ∧
    1 ≤ ch.maxCredits ∧ ch.maxCredits ≤ 255
  enabled _ _ := True
  step ch req := do
    let (_, ch) ← chmodelRequest ch req.curTime req.requestTime req.length
    return ch

theorem requestMachine_inductive : Inductive requestMachine RingInv where
  init ch hinit := by
    obtain ⟨⟨bandwidth, hbandwidth⟩, hpos, hle⟩ := hinit
    exact ringInv_of_init hbandwidth hpos hle
  step ch req hinv _ := by
    obtain ⟨time, after, hrun, hafter⟩ :=
      hinv.request req.curTime req.requestTime req.length
    refine ⟨after, ?_, hafter⟩
    show (chmodelRequest ch req.curTime req.requestTime req.length >>= _) = _
    rw [hrun]
    rfl

/-- In every run the ring keeps the invariant, and every request returns: the
assertion holds and the loop ends. -/
theorem ringInv_of_reachable (hreach : Reachable requestMachine ch) :
    RingInv ch ∧ ∀ curTime requestTime length, ∃ time after,
      chmodelRequest ch curTime requestTime length = .ok (time, after) := by
  have hinv := requestMachine_inductive.reachable hreach
  refine ⟨hinv, ?_⟩
  intro curTime requestTime length
  obtain ⟨time, after, hrun, -⟩ := hinv.request curTime requestTime length
  exact ⟨time, after, hrun⟩

instance : ∀ ch req, Decidable (requestMachine.enabled ch req) :=
  fun _ _ => isTrue trivial

/-- A request far ahead, one that starts behind the end of the ring, and one
at once; the clock moves the head over the end between the last two. -/
def aroundTheRing : List TransferReq :=
  [⟨0, 98294 * 4000, 4096⟩, ⟨98299 * 4000, 98319 * 4000, 16384⟩,
    ⟨98311 * 4000, 98311 * 4000, 4096⟩]

theorem ringInv_of_reachable_wrapped :
    ∃ ch, requestMachine.run aroundTheRing (idleModel 800) = some ch ∧
      ch.head = 4 ∧ ch.validLen = 13 ∧ ch.availCredits 4 = 0 ∧
      ch.availCredits 16 = 2 ∧ RingInv ch ∧
      ∀ curTime requestTime length, ∃ time after,
        chmodelRequest ch curTime requestTime length = .ok (time, after) := by
  have hrun : (requestMachine.run aroundTheRing (idleModel 800)).map
      (fun ch => (ch.head, ch.validLen, ch.availCredits 4,
        ch.availCredits 16)) = some (4, 13, 0, 2) := by decide +kernel
  obtain ⟨ch, hstate, hvalues⟩ := Option.map_eq_some_iff.mp hrun
  obtain ⟨hhead, hvalid, hfirst, hlast⟩ : _ ∧ _ ∧ _ ∧ _ := by
    simpa only [Prod.mk.injEq] using hvalues
  have hreach : Reachable requestMachine ch :=
    .run (.start ⟨⟨800, rfl⟩, by decide, by decide⟩) hstate
  exact ⟨ch, hstate, hhead, hvalid, hfirst, hlast,
    ringInv_of_reachable hreach⟩

end NvmeVirt.CreditRing
