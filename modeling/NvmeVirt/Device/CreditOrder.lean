import NvmeVirt.Device.CreditRing

/-!
# Fewer credits, later completion

Two channels that differ in their credits only: the same request is completed
later on the one with fewer credits, and leaves it with fewer credits, as long
as the later of the two times fits 64 bits.
-/

namespace NvmeVirt.CreditOrder

open NvmeVirt.Bandwidth
open NvmeVirt.CreditRing
open NvmeVirt.CreditTable
open NvmeVirt.Kernel

/-- The first channel is the second one with fewer credits. -/
structure FewerCredits (ch ch' : ChannelModel) : Prop where
  head_eq : ch.head = ch'.head
  curTime_eq : ch.curTime = ch'.curTime
  validLen_eq : ch.validLen = ch'.validLen
  maxCredits_eq : ch.maxCredits = ch'.maxCredits
  xferLat_eq : ch.xferLat = ch'.xferLat
  commandCredits_eq : ch.commandCredits = 0
  commandCredits_eq' : ch'.commandCredits = 0
  credits_le : ∀ entry < nrCreditEntries,
    ch.availCredits entry ≤ ch'.availCredits entry

/-- The entries of the ring from the request's interval on have all their
credits. -/
def FullFrom (ch : ChannelModel) (curTime requestTime : ℕ) : Prop :=
  ∀ step, requestTimeOffs curTime requestTime ≤ step → step < nrCreditEntries →
    (moveHead ch curTime).availCredits
      (((moveHead ch curTime).head + step) % nrCreditEntries) = ch.maxCredits

variable {ch ch' : ChannelModel} {head : ℕ}

/-! ## The loop -/

/-- What is left of an entry is ordered like the entries before. -/
theorem update_le_update {credits credits' : ℕ → ℕ} {pos value value' : ℕ}
    (hle : ∀ entry < nrCreditEntries, credits entry ≤ credits' entry)
    (hvalue : value ≤ value') :
    ∀ entry < nrCreditEntries, Function.update credits pos value entry ≤
      Function.update credits' pos value' entry := by
  intro entry hentry
  by_cases heq : entry = pos
  · rw [heq, Function.update_self, Function.update_self]
    exact hvalue
  · rw [Function.update_of_ne heq, Function.update_of_ne heq]
    exact hle entry hentry

/-- With fewer credits and more to transfer the loop goes on for longer, and
leaves fewer credits. -/
theorem consume_mono {fuel offs remaining remaining' delay : ℕ}
    {credits credits' : ℕ → ℕ} {final final' : Consumed}
    (hhead : head < nrCreditEntries) (hoffs : offs < nrCreditEntries)
    (hle : ∀ entry < nrCreditEntries, credits entry ≤ credits' entry)
    (hmore : remaining' ≤ remaining)
    (h : consume head fuel credits ((head + offs) % nrCreditEntries) remaining
      delay = some final)
    (h' : consume head fuel credits' ((head + offs) % nrCreditEntries)
      remaining' delay = some final') :
    final'.delay ≤ final.delay ∧
      ∀ entry < nrCreditEntries, final.credits entry ≤ final'.credits entry := by
  induction fuel generalizing offs remaining remaining' delay credits credits' with
  | zero => cases h
  | succ fuel ih =>
      have hpos : (head + offs) % nrCreditEntries < nrCreditEntries :=
        Nat.mod_lt _ nrCreditEntries_pos
      have hhere := hle _ hpos
      rw [consume_succ, next_entry] at h h'
      by_cases hall : remaining ≤ credits ((head + offs) % nrCreditEntries)
      · have hall' := (hmore.trans hall).trans hhere
        rw [if_pos hall] at h
        rw [if_pos hall'] at h'
        cases h
        cases h'
        exact ⟨le_refl delay, update_le_update hle (tsub_le_tsub hhere hmore)⟩
      · rw [if_neg hall] at h
        by_cases hnext : (head + (offs + 1)) % nrCreditEntries ≠ head
        · have hinside := (next_ne_head hhead hoffs).mp hnext
          rw [if_pos hnext] at h
          by_cases hall' : remaining' ≤
              credits' ((head + offs) % nrCreditEntries)
          · -- the second channel is done here
            rw [if_pos hall'] at h'
            cases h'
            obtain ⟨used, hwalked⟩ := consume_walked hhead hinside h
            have hdelay := hwalked.delay_eq
            refine ⟨by dsimp only; omega, ?_⟩
            intro entry hentry
            exact (hwalked.fewer entry).trans
              (update_le_update hle (Nat.zero_le _) entry hentry)
          · rw [if_neg hall', if_pos hnext] at h'
            exact ih hinside (update_le_update hle (le_refl 0))
              (tsub_le_tsub hmore hhere) h h'
        · rw [if_neg hnext] at h
          cases h
          by_cases hall' : remaining' ≤
              credits' ((head + offs) % nrCreditEntries)
          · rw [if_pos hall'] at h'
            cases h'
            exact ⟨le_refl delay, update_le_update hle (Nat.zero_le _)⟩
          · rw [if_neg hall', if_neg hnext] at h'
            cases h'
            exact ⟨le_refl delay, update_le_update hle (le_refl 0)⟩

/-- Through entries that have all their credits the loop goes on no longer than
it has to. -/
theorem consume_full {fuel offs remaining delay maxCredits : ℕ}
    {credits : ℕ → ℕ} {final : Consumed} (hhead : head < nrCreditEntries)
    (hoffs : offs < nrCreditEntries) (hmax : 0 < maxCredits)
    (hfull : ∀ step, offs ≤ step → step < nrCreditEntries →
      credits ((head + step) % nrCreditEntries) = maxCredits)
    (h : consume head fuel credits ((head + offs) % nrCreditEntries) remaining
      delay = some final) :
    final.delay ≤ delay + remaining / maxCredits := by
  induction fuel generalizing offs remaining delay credits with
  | zero => cases h
  | succ fuel ih =>
      rw [consume_succ, next_entry, hfull offs (le_refl offs) hoffs] at h
      split_ifs at h with hall hnext
      · cases h
        exact Nat.le_add_right _ _
      · have hinside := (next_ne_head hhead hoffs).mp hnext
        have hkept : ∀ step, offs + 1 ≤ step → step < nrCreditEntries →
            Function.update credits ((head + offs) % nrCreditEntries) 0
              ((head + step) % nrCreditEntries) = maxCredits := by
          intro step hstep hlt
          have hround := walked_stop head delay hoffs
            (Nat.zero_le (credits ((head + offs) % nrCreditEntries)))
          exact (hround.behind step hstep hlt).trans
            (hfull step (Nat.le_of_succ_le hstep) hlt)
        have hrest := ih hinside hkept h
        have hdiv : remaining / maxCredits =
            (remaining - maxCredits) / maxCredits + 1 :=
          Nat.div_eq_sub_div hmax (Nat.le_of_not_le hall)
        omega
      · cases h
        exact Nat.le_add_right _ _

/-! ## Requests -/

theorem memset_mono {credits credits' : ℕ → ℕ} (start value length : ℕ)
    (hle : ∀ entry < nrCreditEntries, credits entry ≤ credits' entry) :
    ∀ entry < nrCreditEntries, memset credits start value length entry ≤
      memset credits' start value length entry := by
  intro entry hentry
  rw [memset, memset]
  split_ifs
  · exact le_refl _
  · exact hle entry hentry

/-- Moving the head keeps the order. -/
theorem FewerCredits.moveHead (h : FewerCredits ch ch') (curTime : ℕ) :
    FewerCredits (moveHead ch curTime) (moveHead ch' curTime) := by
  obtain ⟨hhead, hcurTime, hvalid, hmax, hlat, hcommand, hcommand', hle⟩ := h
  constructor
  · rw [Bandwidth.moveHead, Bandwidth.moveHead, hhead, hcurTime, hvalid]
  · rfl
  · rw [Bandwidth.moveHead, Bandwidth.moveHead, hcurTime, hvalid]
  · exact hmax
  · exact hlat
  · exact hcommand
  · exact hcommand'
  · rw [Bandwidth.moveHead, Bandwidth.moveHead, hhead, hcurTime, hvalid, hmax]
    dsimp only
    split_ifs
    · exact memset_mono _ _ _ (memset_mono _ _ _ hle)
    · exact memset_mono _ _ _ hle
    · exact memset_mono _ _ _ (memset_mono _ _ _ hle)
    · exact memset_mono _ _ _ hle

section

variable {length delay : ℕ}

theorem neededCredits_eq (h : FewerCredits ch ch') (length : ℕ) :
    neededCredits ch length = neededCredits ch' length := by
  rw [neededCredits, neededCredits, h.commandCredits_eq, h.commandCredits_eq']

variable {curTime requestTime : ℕ} {final : Consumed}

theorem consumeFor_delay_lt (h : RingWf ch)
    (hinside : requestTimeOffs curTime requestTime < nrCreditEntries)
    (hfinal : consumeFor ch curTime requestTime length = some final) :
    final.delay < nrCreditEntries := by
  obtain ⟨used, hwalked⟩ :=
    consume_walked (h.moveHead curTime).head_lt hinside hfinal
  rw [hwalked.delay_eq, Nat.zero_add]
  exact lt_of_le_of_lt (Nat.le_add_left _ _) hwalked.inside

/-- A request that meets full entries only is not delayed. -/
theorem latency_of_full (h : RingWf ch)
    (hinside : requestTimeOffs curTime requestTime < nrCreditEntries)
    (htransfer : transferTime ch length < 2 ^ 32)
    (hfinal : consumeFor ch curTime requestTime length = some final)
    (hfull : FullFrom ch curTime requestTime) :
    latency ch length final.delay = transferTime ch length := by
  have hdelay : final.delay ≤ neededCredits ch length / ch.maxCredits := by
    rw [← Nat.zero_add (neededCredits ch length / ch.maxCredits)]
    exact consume_full (h.moveHead curTime).head_lt hinside h.maxCredits_pos
      hfull hfinal
  rw [latency_eq htransfer (consumeFor_delay_lt h hinside hfinal),
    Nat.sub_eq_zero_of_le hdelay, Nat.zero_mul, Nat.add_zero]

end

/-- The `total_latency` of a request. -/
def totalLatency (ch : ChannelModel) (curTime requestTime length : ℕ) : ℕ :=
  match consumeFor ch curTime requestTime length with
  | none => 0
  | some final => latency ch length final.delay

/-- A request that is neither in the past nor behind the ring, on two channels
that differ in their credits only.  The latency is the longer one where the
credits are fewer, and so is the completion time that is returned, unless it
is cut to 64 bits. -/
theorem request_order (h : RingInv ch) (h' : RingInv ch')
    (hfewer : FewerCredits ch ch') {curTime requestTime length : ℕ}
    (hpast : curTime ≤ requestTime)
    (hinside : requestTimeOffs curTime requestTime < nrCreditEntries)
    (htransfer : transferTime ch length < 2 ^ 32) :
    ∃ time time' after after',
      chmodelRequest ch curTime requestTime length = .ok (time, after) ∧
      chmodelRequest ch' curTime requestTime length = .ok (time', after') ∧
      totalLatency ch' curTime requestTime length ≤
        totalLatency ch curTime requestTime length ∧
      (∀ entry < nrCreditEntries,
        after.availCredits entry ≤ after'.availCredits entry) ∧
      (requestTime + totalLatency ch curTime requestTime length < 2 ^ 64 →
        time' ≤ time ∧ requestTime + transferTime ch length ≤ time' ∧
        (FullFrom ch curTime requestTime →
          time = requestTime + transferTime ch length) ∧
        (FullFrom ch' curTime requestTime →
          time' = requestTime + transferTime ch length)) := by
  obtain ⟨final, hfinal, -, hrun⟩ :=
    chmodelRequest_late h.ring hpast hinside length
  obtain ⟨final', hfinal', -, hrun'⟩ :=
    chmodelRequest_late h'.ring hpast hinside length
  have htotal : totalLatency ch curTime requestTime length =
      latency ch length final.delay := by rw [totalLatency, hfinal]
  have htotal' : totalLatency ch' curTime requestTime length =
      latency ch' length final'.delay := by rw [totalLatency, hfinal']
  have htransfer' : transferTime ch' length = transferTime ch length := by
    rw [transferTime, transferTime, hfewer.xferLat_eq]
  have hlatency := latency_eq htransfer
    (consumeFor_delay_lt h.ring hinside hfinal)
  have hlatency' := latency_eq (htransfer' ▸ htransfer)
    (consumeFor_delay_lt h'.ring hinside hfinal')
  have horder : final'.delay ≤ final.delay ∧ ∀ entry < nrCreditEntries,
      final.credits entry ≤ final'.credits entry := by
    have hmoved := hfewer.moveHead curTime
    rw [consumeFor, ← hmoved.head_eq] at hfinal'
    exact consume_mono (h.moveHead curTime).ring.head_lt hinside
      hmoved.credits_le (neededCredits_eq hfewer length).ge hfinal hfinal'
  have hle : latency ch' length final'.delay ≤
      latency ch length final.delay := by
    rw [hlatency, hlatency', htransfer', neededCredits_eq hfewer,
      hfewer.maxCredits_eq]
    exact Nat.add_le_add_left
      (Nat.mul_le_mul_right _ (Nat.sub_le_sub_right horder.1 _)) _
  have hleast : transferTime ch length ≤ latency ch' length final'.delay := by
    rw [hlatency', htransfer']
    exact Nat.le_add_right _ _
  rw [htotal, htotal']
  refine ⟨_, _, _, _, hrun, hrun', hle, horder.2, fun hfits => ?_⟩
  rw [u64_of_lt hfits,
    u64_of_lt (lt_of_le_of_lt (Nat.add_le_add_left hle requestTime) hfits)]
  refine ⟨Nat.add_le_add_left hle requestTime,
    Nat.add_le_add_left hleast requestTime, fun hfull => ?_, fun hfull => ?_⟩
  · rw [latency_of_full h.ring hinside htransfer hfinal hfull]
  · rw [← htransfer']
    rw [latency_of_full h'.ring hinside (htransfer' ▸ htransfer) hfinal' hfull]

/-! ## Times that are cut -/

/-- A channel of 800 MB/s, with some credits in its current interval. -/
def channelWith (time credits : ℕ) : ChannelModel :=
  { curTime := time, head := 0, validLen := 1, maxCredits := 26
    commandCredits := 0, xferLat := 152
    availCredits := Function.update (fun _ => 26) 0 credits }

theorem channelWith_ringInv (time : ℕ) {credits : ℕ} (hle : credits ≤ 26) :
    RingInv (channelWith time credits) := by
  refine ⟨⟨nrCreditEntries_pos, ?_, ?_⟩, ?_, ?_, ?_⟩
  · exact Nat.succ_le_of_lt nrCreditEntries_pos
  · exact Nat.succ_pos 25
  · show 26 < 2 ^ 8
    decide
  · intro entry _
    show Function.update (fun _ => 26) 0 credits entry ≤ 26
    obtain rfl | hother := eq_or_ne entry 0
    · rwa [Function.update_self]
    · rw [Function.update_of_ne hother]
  · intro step hused hstep
    have hplace : (0 + step) % nrCreditEntries ≠ 0 := by
      rw [Nat.zero_add, Nat.mod_eq_of_lt hstep]
      exact Nat.ne_of_gt hused
    exact Function.update_of_ne hplace credits (fun _ => 26)

theorem channelWith_fewer (time : ℕ) {credits credits' : ℕ}
    (hle : credits ≤ credits') :
    FewerCredits (channelWith time credits) (channelWith time credits') := by
  refine ⟨rfl, rfl, rfl, rfl, rfl, rfl, rfl, ?_⟩
  intro entry _
  show Function.update (fun _ => 26) 0 credits entry ≤
    Function.update (fun _ => 26) 0 credits' entry
  obtain rfl | hother := eq_or_ne entry 0
  · rwa [Function.update_self, Function.update_self]
  · rw [Function.update_of_ne hother, Function.update_of_ne hother]

/-- The first channel has used up its interval. -/
theorem request_order_rested :
    ∃ time time' after after',
      chmodelRequest (channelWith 0 0) 0 0 128 = .ok (time, after) ∧
      chmodelRequest (channelWith 0 26) 0 0 128 = .ok (time', after') ∧
      totalLatency (channelWith 0 26) 0 0 128 ≤
        totalLatency (channelWith 0 0) 0 0 128 ∧
      (∀ entry < nrCreditEntries,
        after.availCredits entry ≤ after'.availCredits entry) ∧
      0 + totalLatency (channelWith 0 0) 0 0 128 = 4152 ∧
      (0 + totalLatency (channelWith 0 0) 0 0 128 < 2 ^ 64 →
        time' ≤ time ∧ 0 + transferTime (channelWith 0 0) 128 ≤ time' ∧
        (FullFrom (channelWith 0 0) 0 0 →
          time = 0 + transferTime (channelWith 0 0) 128) ∧
        (FullFrom (channelWith 0 26) 0 0 →
          time' = 0 + transferTime (channelWith 0 0) 128)) := by
  obtain ⟨time, time', after, after', hrun, hrun', hle, hcredits, htimes⟩ :=
    request_order (channelWith_ringInv 0 (Nat.zero_le 26))
      (channelWith_ringInv 0 (Nat.le_refl 26))
      (channelWith_fewer 0 (Nat.zero_le 26)) (Nat.le_refl 0) (by decide)
      (show transferTime (channelWith 0 0) 128 < 2 ^ 32 by decide)
  exact ⟨time, time', after, after', hrun, hrun', hle, hcredits,
    by decide +kernel, htimes⟩

/-- A microsecond before the end of the 64-bit clock. -/
def lateTime : ℕ := 2 ^ 64 - 1000

/-- The time of a request for one unit in the last microsecond of the clock,
where the loop goes on for `delay` entries. -/
theorem request_at_lateTime {ch : ChannelModel} {delay : ℕ} (h : RingWf ch)
    (hdelay : (consumeFor ch lateTime lateTime 128).map Consumed.delay =
      some delay) :
    ∃ after, chmodelRequest ch lateTime lateTime 128 =
      .ok (u64 (lateTime + latency ch 128 delay), after) := by
  obtain ⟨final, hfinal, -, hrun⟩ :=
    chmodelRequest_late h (Nat.le_refl lateTime) (by decide) 128
  rw [hfinal] at hdelay
  cases hdelay
  exact ⟨_, hrun⟩

/-- The completion time that is cut is the earlier one, before the request. -/
theorem cut_time_is_earlier :
    RingInv (channelWith lateTime 0) ∧ RingInv (channelWith lateTime 26) ∧
      FewerCredits (channelWith lateTime 0) (channelWith lateTime 26) ∧
      requestTimeOffs lateTime lateTime < nrCreditEntries ∧
      transferTime (channelWith lateTime 0) 128 < 2 ^ 32 ∧
      ∃ time time' after after',
        chmodelRequest (channelWith lateTime 0) lateTime lateTime 128 =
          .ok (time, after) ∧
        chmodelRequest (channelWith lateTime 26) lateTime lateTime 128 =
          .ok (time', after') ∧
        time < time' ∧
        time < lateTime + transferTime (channelWith lateTime 0) 128 := by
  have hused := channelWith_ringInv lateTime (Nat.zero_le 26)
  have hrested := channelWith_ringInv lateTime (Nat.le_refl 26)
  have hdelay : (consumeFor (channelWith lateTime 0) lateTime lateTime 128).map
      Consumed.delay = some 1 := by
    decide +kernel
  have hdelay' : (consumeFor (channelWith lateTime 26) lateTime lateTime 128).map
      Consumed.delay = some 0 := by
    decide +kernel
  obtain ⟨after, hrun⟩ := request_at_lateTime hused.ring hdelay
  obtain ⟨after', hrun'⟩ := request_at_lateTime hrested.ring hdelay'
  refine ⟨hused, hrested, channelWith_fewer lateTime (Nat.zero_le 26),
    by decide, by decide, _, _, after, after', hrun, hrun', ?_, ?_⟩
  · decide +kernel
  · decide +kernel

end NvmeVirt.CreditOrder
