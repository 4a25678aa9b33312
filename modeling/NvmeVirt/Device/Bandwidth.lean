import Mathlib.Logic.Function.Basic
import Mathlib.Order.Nat
import NvmeVirt.Device.Kernel

/-!
# The channel bandwidth model

A channel offers a fixed number of credits in every interval of 4000 ns, one
credit for 128 bytes.  The credits of the coming intervals are a ring that
starts at `head`; a request consumes them from its own interval onward and is
delayed by the intervals it had to skip.

The ring's bookkeeping keeps `head` and `valid_len` inside the ring whatever
the clock and the requests are.  `Channel` carries that as a field, so the
layers above issue requests that cannot fault.
-/

namespace NvmeVirt.Bandwidth

open NvmeVirt.Kernel
open NvmeVirt.Transition

def nrCreditEntries : ℕ := 1024 * 96
/-- Nanoseconds. -/
def unitTimeInterval : ℕ := 4000
/-- Bytes. -/
def unitXferSize : ℕ := 128
def unitXferCredits : ℕ := 1

/-- `struct channel_model`. -/
structure ChannelModel where
  curTime : ℕ
  head : ℕ
  validLen : ℕ
  maxCredits : ℕ
  commandCredits : ℕ
  xferLat : ℕ
  availCredits : ℕ → ℕ

/-- `MEMSET` of `length` one-byte credit entries from `start` on. -/
def memset (credits : ℕ → ℕ) (start value length : ℕ) : ℕ → ℕ :=
  fun entry =>
    if start ≤ entry ∧ entry < start + length then value % 2 ^ 8
    else credits entry

/-- `BANDWIDTH_TO_TX_TIME`; `bandwidth` is in MB/s. -/
def bandwidthToTxTime (bandwidth : ℕ) : ℕ :=
  unitXferSize * 10 ^ 9 / u64 (bandwidth * 2 ^ 20)

/-- `BANDWIDTH_TO_MAX_CREDITS`. -/
def bandwidthToMaxCredits (bandwidth : ℕ) : ℕ :=
  u64 (u64 (bandwidth * 2 ^ 20) * unitTimeInterval) / 10 ^ 9 / unitXferSize *
    unitXferCredits

/-- The model `chmodel_init` sets up. -/
def idleModel (bandwidth : ℕ) : ChannelModel :=
  let maxCredits := u32 (bandwidthToMaxCredits bandwidth)
  { curTime := 0
    head := 0
    validLen := 0
    maxCredits := maxCredits
    commandCredits := 0
    xferLat := u32 (bandwidthToTxTime bandwidth)
    availCredits := memset (fun _ => 0) 0 maxCredits nrCreditEntries }

/-- `chmodel_init`. -/
def chmodelInit (bandwidth : ℕ) : Except Fault ChannelModel :=
  if u64 (bandwidth * 2 ^ 20) = 0 then .error .divideByZero
  else .ok (idleModel bandwidth)

/-- The first half of `chmodel_request`: move the head to the interval of the
current time and give every interval left behind its full credits. -/
def moveHead (ch : ChannelModel) (curTime : ℕ) : ChannelModel :=
  let elapsed := u32 (sub64 (curTime / unitTimeInterval)
    (ch.curTime / unitTimeInterval))
  let curTimeOffs := if elapsed < ch.validLen then elapsed else ch.validLen
  let credits :=
    if nrCreditEntries ≤ ch.head + curTimeOffs then
      memset
        (memset ch.availCredits ch.head ch.maxCredits
          (nrCreditEntries - ch.head))
        0 ch.maxCredits (curTimeOffs - (nrCreditEntries - ch.head))
    else memset ch.availCredits ch.head ch.maxCredits curTimeOffs
  { ch with
    availCredits := credits
    head := (ch.head + curTimeOffs) % nrCreditEntries
    curTime := curTime
    validLen := ch.validLen - curTimeOffs }

/-- What the consumption loop leaves. -/
structure Consumed where
  credits : ℕ → ℕ
  pos : ℕ
  delay : ℕ

/-- The `while (1)` loop of `chmodel_request`.  `none` means that the loop is
still running after `fuel` iterations. -/
def consume (head : ℕ) :
    ℕ → (ℕ → ℕ) → ℕ → ℕ → ℕ → Option Consumed
  | 0, _, _, _, _ => none
  | fuel + 1, credits, pos, remainingCredits, delay =>
      let consumedCredits :=
        if remainingCredits ≤ credits pos then remainingCredits
        else credits pos
      let credits :=
        Function.update credits pos (credits pos - consumedCredits)
      let remainingCredits := remainingCredits - consumedCredits
      if remainingCredits ≠ 0 then
        let nextPos := (pos + 1) % nrCreditEntries
        if nextPos ≠ head then
          consume head fuel credits nextPos remainingCredits (delay + 1)
        else some ⟨credits, pos, delay⟩
      else some ⟨credits, pos, delay⟩

/-- `chmodel_request` at wall clock `curTime`. -/
def chmodelRequest (ch : ChannelModel) (curTime requestTime length : ℕ) :
    Except Fault (ℕ × ChannelModel) := do
  let unitsToXfer := u32 (divRoundUp length unitXferSize)
  let ch := moveHead ch curTime
  nvmevAssert (ch.validLen ≤ nrCreditEntries)
  if requestTime < curTime then
    return (requestTime, ch)
  let requestTimeOffs := u32 (sub64 (requestTime / unitTimeInterval)
    (curTime / unitTimeInterval))
  if nrCreditEntries ≤ requestTimeOffs then
    return (requestTime, ch)
  let pos := (ch.head + requestTimeOffs) % nrCreditEntries
  let remainingCredits :=
    u32 (unitsToXfer * unitXferCredits + ch.commandCredits)
  if ch.maxCredits = 0 then
    throw .divideByZero
  let defaultDelay := remainingCredits / ch.maxCredits
  match consume ch.head nrCreditEntries ch.availCredits pos
      remainingCredits 0 with
  | none => throw .divergence
  | some final =>
      let validLength :=
        if ch.head ≤ final.pos then final.pos - ch.head + 1
        else nrCreditEntries - (ch.head - final.pos - 1)
      let delay :=
        if defaultDelay < final.delay then final.delay - defaultDelay else 0
      let totalLatency := u64 (u32 (ch.xferLat * unitsToXfer) +
        delay * unitTimeInterval)
      return (u64 (requestTime + totalLatency),
        { ch with
          availCredits := final.credits
          validLen := if ch.validLen < validLength then validLength
            else ch.validLen })

/-- The ring's bookkeeping stays inside the ring, and there is something to
divide by. -/
structure RingWf (ch : ChannelModel) : Prop where
  head_lt : ch.head < nrCreditEntries
  validLen_le : ch.validLen ≤ nrCreditEntries
  maxCredits_pos : 0 < ch.maxCredits

theorem nrCreditEntries_pos : 0 < nrCreditEntries := by decide

theorem RingWf.moveHead {ch : ChannelModel} (h : RingWf ch) (curTime : ℕ) :
    RingWf (moveHead ch curTime) where
  head_lt := Nat.mod_lt _ nrCreditEntries_pos
  validLen_le := (Nat.sub_le _ _).trans h.validLen_le
  maxCredits_pos := h.maxCredits_pos

/-- How many entries lie between `pos` and the entry before `head`. -/
def slack (head pos : ℕ) : ℕ :=
  (head + nrCreditEntries - 1 - pos) % nrCreditEntries

theorem slack_next {head pos : ℕ} (hhead : head < nrCreditEntries)
    (hpos : pos < nrCreditEntries)
    (hnext : (pos + 1) % nrCreditEntries ≠ head) :
    slack head ((pos + 1) % nrCreditEntries) + 1 = slack head pos := by
  unfold slack nrCreditEntries at *
  omega

/-- The consumption loop stops inside the ring, at the latest one entry before
the head. -/
theorem consume_eq_some {head : ℕ} (hhead : head < nrCreditEntries)
    (fuel : ℕ) (credits : ℕ → ℕ) (pos remainingCredits delay : ℕ)
    (hpos : pos < nrCreditEntries) (hfuel : slack head pos < fuel) :
    ∃ final, consume head fuel credits pos remainingCredits delay =
      some final ∧ final.pos < nrCreditEntries := by
  induction fuel generalizing credits pos remainingCredits delay with
  | zero => omega
  | succ fuel ih =>
      rw [consume]
      generalize (if remainingCredits ≤ credits pos then remainingCredits
        else credits pos) = consumedCredits
      dsimp only
      split_ifs with hstop hfull
      · have hshorter := slack_next hhead hpos hfull
        exact ih _ _ _ _ (Nat.mod_lt _ nrCreditEntries_pos) (by omega)
      · exact ⟨_, rfl, hpos⟩
      · exact ⟨_, rfl, hpos⟩

/-! ## A request in parts -/

/-- The distance of the request's interval from the current one, in 32
bits. -/
def requestTimeOffs (curTime requestTime : ℕ) : ℕ :=
  u32 (sub64 (requestTime / unitTimeInterval) (curTime / unitTimeInterval))

/-- The credits that a request asks for. -/
def neededCredits (ch : ChannelModel) (length : ℕ) : ℕ :=
  u32 (u32 (divRoundUp length unitXferSize) * unitXferCredits +
    ch.commandCredits)

/-- The loop of a request that is neither in the past nor behind the ring. -/
def consumeFor (ch : ChannelModel) (curTime requestTime length : ℕ) :
    Option Consumed :=
  consume (moveHead ch curTime).head nrCreditEntries
    (moveHead ch curTime).availCredits
    (((moveHead ch curTime).head + requestTimeOffs curTime requestTime) %
      nrCreditEntries) (neededCredits ch length) 0

/-- The latency of a request whose loop went on for `delay` entries. -/
def latency (ch : ChannelModel) (length delay : ℕ) : ℕ :=
  u64 (u32 (ch.xferLat * u32 (divRoundUp length unitXferSize)) +
    (if neededCredits ch length / ch.maxCredits < delay then
      delay - neededCredits ch length / ch.maxCredits else 0) *
      unitTimeInterval)

/-- The channel after the loop. -/
def afterLoop (ch : ChannelModel) (final : Consumed) : ChannelModel :=
  let validLength :=
    if ch.head ≤ final.pos then final.pos - ch.head + 1
    else nrCreditEntries - (ch.head - final.pos - 1)
  { ch with
    availCredits := final.credits
    validLen := if ch.validLen < validLength then validLength else ch.validLen }

/-- The time to transfer `length` bytes on a channel that is free. -/
def transferTime (ch : ChannelModel) (length : ℕ) : ℕ :=
  ch.xferLat * u32 (divRoundUp length unitXferSize)

section

variable {ch : ChannelModel} {curTime requestTime length delay : ℕ}

/-- A request in the past, or behind the ring, only moves the head. -/
theorem chmodelRequest_early (h : RingWf ch)
    (hearly : requestTime < curTime ∨
      nrCreditEntries ≤ requestTimeOffs curTime requestTime) :
    chmodelRequest ch curTime requestTime length =
      .ok (requestTime, moveHead ch curTime) := by
  rw [chmodelRequest]
  simp only [nvmevAssert_of (h.moveHead curTime).validLen_le, ok_bind]
  by_cases hpast : requestTime < curTime
  · rw [if_pos hpast]
    rfl
  · rw [if_neg hpast]
    exact if_pos (hearly.resolve_left hpast)

/-- Any other request runs the loop. -/
theorem chmodelRequest_late (h : RingWf ch) (hpast : curTime ≤ requestTime)
    (hinside : requestTimeOffs curTime requestTime < nrCreditEntries)
    (length : ℕ) :
    ∃ final, consumeFor ch curTime requestTime length = some final ∧
      final.pos < nrCreditEntries ∧
      chmodelRequest ch curTime requestTime length =
        .ok (u64 (requestTime + latency ch length final.delay),
          afterLoop (moveHead ch curTime) final) := by
  have hmoved := h.moveHead curTime
  obtain ⟨final, hfinal, hpos⟩ := consume_eq_some hmoved.head_lt nrCreditEntries
    (moveHead ch curTime).availCredits
    (((moveHead ch curTime).head + requestTimeOffs curTime requestTime) %
      nrCreditEntries) (neededCredits ch length) 0
    (Nat.mod_lt _ nrCreditEntries_pos) (Nat.mod_lt _ nrCreditEntries_pos)
  refine ⟨final, hfinal, hpos, ?_⟩
  have hrun : consume (moveHead ch curTime).head nrCreditEntries
      (moveHead ch curTime).availCredits
      (((moveHead ch curTime).head +
        u32 (sub64 (requestTime / unitTimeInterval)
          (curTime / unitTimeInterval))) % nrCreditEntries)
      (u32 (u32 (divRoundUp length unitXferSize) * unitXferCredits +
        (moveHead ch curTime).commandCredits)) 0 = some final := hfinal
  rw [requestTimeOffs] at hinside
  rw [chmodelRequest]
  simp only [nvmevAssert_of hmoved.validLen_le, ok_bind]
  rw [if_neg (Nat.not_lt.mpr hpast), if_neg (Nat.not_le.mpr hinside),
    if_neg hmoved.maxCredits_pos.ne']
  simp only [hrun]
  rfl

/-- The latency in full: the loop goes on for less than a ring, so that the sum
is not cut. -/
theorem latency_eq (htransfer : transferTime ch length < 2 ^ 32)
    (hdelay : delay < nrCreditEntries) :
    latency ch length delay = transferTime ch length +
      (delay - neededCredits ch length / ch.maxCredits) * unitTimeInterval := by
  have hextra : (if neededCredits ch length / ch.maxCredits < delay then
      delay - neededCredits ch length / ch.maxCredits else 0) =
        delay - neededCredits ch length / ch.maxCredits := by
    split_ifs with hlonger
    · rfl
    · exact (Nat.sub_eq_zero_of_le (Nat.le_of_not_lt hlonger)).symm
  have hless : (delay - neededCredits ch length / ch.maxCredits) *
      unitTimeInterval ≤ nrCreditEntries * unitTimeInterval :=
    Nat.mul_le_mul_right _ ((Nat.sub_le _ _).trans hdelay.le)
  have hring : nrCreditEntries * unitTimeInterval < 2 ^ 32 := by decide
  rw [latency, hextra]
  rw [transferTime] at htransfer
  rw [u32_of_lt htransfer, u64_of_lt (by omega), transferTime]

/-- The new length stays within the ring. -/
theorem RingWf.afterLoop (h : RingWf ch) {final : Consumed}
    (hpos : final.pos < nrCreditEntries) : RingWf (afterLoop ch final) := by
  have hhead := h.head_lt
  have hvalid := h.validLen_le
  refine ⟨hhead, ?_, h.maxCredits_pos⟩
  rw [Bandwidth.afterLoop]
  dsimp only
  split_ifs <;> omega

theorem chmodelRequest_ok (h : RingWf ch) (curTime requestTime length : ℕ) :
    ∃ time after, chmodelRequest ch curTime requestTime length =
      .ok (time, after) ∧ RingWf after := by
  have hmoved := h.moveHead curTime
  by_cases hearly : requestTime < curTime ∨
      nrCreditEntries ≤ requestTimeOffs curTime requestTime
  · exact ⟨_, _, chmodelRequest_early h hearly, hmoved⟩
  · obtain ⟨hpast, hinside⟩ := not_or.mp hearly
    obtain ⟨final, -, hpos, hrun⟩ := chmodelRequest_late h
      (Nat.le_of_not_lt hpast) (Nat.lt_of_not_le hinside) length
    exact ⟨_, _, hrun, hmoved.afterLoop hpos⟩

end

/-- A channel whose ring is well formed. -/
structure Channel where
  model : ChannelModel
  wf : RingWf model

/-- A fresh channel, of a bandwidth that gives every interval a credit. -/
def Channel.idle (bandwidth : ℕ)
    (hcredits : 0 < u32 (bandwidthToMaxCredits bandwidth)) : Channel where
  model := idleModel bandwidth
  wf := ⟨nrCreditEntries_pos, Nat.zero_le _, hcredits⟩

theorem Channel.idle_eq {bandwidth : ℕ}
    (hcredits : 0 < u32 (bandwidthToMaxCredits bandwidth)) :
    chmodelInit bandwidth = .ok (Channel.idle bandwidth hcredits).model := by
  refine if_neg fun hzero => ?_
  rw [bandwidthToMaxCredits, hzero] at hcredits
  exact absurd hcredits (by decide)

/-- Firmware overhead added to the latency of one transfer unit. -/
def Channel.addLatency (channel : Channel) (latency : ℕ) : Channel where
  model :=
    { channel.model with xferLat := u32 (channel.model.xferLat + latency) }
  wf := ⟨channel.wf.head_lt, channel.wf.validLen_le,
    channel.wf.maxCredits_pos⟩

/-- A request on a well-formed channel.  The faulting branch is never taken
(`chmodelRequest_ok`). -/
def Channel.request (channel : Channel) (curTime requestTime length : ℕ) :
    ℕ × Channel :=
  match h : chmodelRequest channel.model curTime requestTime length with
  | .error _ => (requestTime, channel)
  | .ok result =>
      (result.1, ⟨result.2, by
        obtain ⟨time, after, hrun, hafter⟩ :=
          chmodelRequest_ok channel.wf curTime requestTime length
        rw [hrun] at h
        cases h
        exact hafter⟩)

/-- The operation on well-formed channels is the source's `chmodel_request`,
whose assertion never fails and whose loop always ends. -/
theorem Channel.request_eq (channel : Channel)
    (curTime requestTime length : ℕ) :
    chmodelRequest channel.model curTime requestTime length =
      .ok ((channel.request curTime requestTime length).1,
        (channel.request curTime requestTime length).2.model) := by
  obtain ⟨time, after, hrun, _⟩ :=
    chmodelRequest_ok channel.wf curTime requestTime length
  rw [Channel.request]
  split
  next fault hfault => rw [hrun] at hfault; cases hfault
  next result hresult => exact hresult

end NvmeVirt.Bandwidth
