import NvmeVirt.Core.Greedy
import NvmeVirt.Core.Ring
import NvmeVirt.Device.Bandwidth
import Mathlib.Tactic.Ring

/-!
# The ring of credits and the table it stands for

The purpose of a channel model is simple: every interval of time has its
credits, and a request takes the ones it needs from its own interval onward.
`chmodel_request` keeps the next intervals in a ring and refills those that
time has left behind.  The ring shows the table as long as the distance to the
last request is seen in full; it is computed in 32 bits.
-/

namespace NvmeVirt.CreditTable

open NvmeVirt.Bandwidth
open NvmeVirt.Greedy
open NvmeVirt.Kernel
open NvmeVirt.Ring
open NvmeVirt.Transition

/-! ## The table -/

/-- A call of `chmodel_request` and the wall clock it reads. -/
structure TransferReq where
  curTime : ℕ
  requestTime : ℕ
  length : ℕ
  deriving DecidableEq, Repr

/-- The interval of a time. -/
def intervalOf (time : ℕ) : ℕ := time / unitTimeInterval

/-- The transfer units of a request. -/
def TransferReq.units (req : TransferReq) : ℕ :=
  divRoundUp req.length unitXferSize

/-- When a transfer is complete: the transfer time of its units, and every
interval it needed more than a channel that is free needs. -/
noncomputable def completionTime (maxCredits xferLat : ℕ) (table : ℕ → ℕ)
    (req : TransferReq) : ℕ :=
  if req.requestTime < req.curTime then req.requestTime
  else
    req.requestTime + xferLat * req.units + unitTimeInterval *
      (extra table (intervalOf req.requestTime) req.units -
        req.units / maxCredits)

/-- The table after a request. -/
def tableAfter (table : ℕ → ℕ) (req : TransferReq) : ℕ → ℕ :=
  if req.requestTime < req.curTime then table
  else taken table (intervalOf req.requestTime) req.units

/-! ## The ring -/

/-- The ring from `head` on shows the table from `interval` on. -/
def Shows (head interval : ℕ) (credits table : ℕ → ℕ) : Prop :=
  ∀ step < nrCreditEntries,
    credits ((head + step) % nrCreditEntries) = table (interval + step)

/-- The channel shows the table, and only its valid part has been used. -/
structure Mirrors (ch : ChannelModel) (table : ℕ → ℕ) : Prop where
  ring : RingWf ch
  maxCredits_lt : ch.maxCredits < 2 ^ 8
  commandCredits_eq : ch.commandCredits = 0
  bounded : ∀ interval, table interval ≤ ch.maxCredits
  shows : Shows ch.head (intervalOf ch.curTime) ch.availCredits table
  unused : ∀ interval, intervalOf ch.curTime + ch.validLen ≤ interval →
    table interval = ch.maxCredits

/-- The distance from the last request, in intervals. -/
def gap (ch : ChannelModel) (curTime : ℕ) : ℕ :=
  intervalOf curTime - intervalOf ch.curTime

/-- The distance fits in 32 bits, or what is left of it there still covers the
valid part of the ring. -/
def GapSeen (ch : ChannelModel) (curTime : ℕ) : Prop :=
  gap ch curTime < 2 ^ 32 ∨ ch.validLen ≤ u32 (gap ch curTime)

instance (ch : ChannelModel) (curTime : ℕ) : Decidable (GapSeen ch curTime) := by
  unfold GapSeen
  infer_instance

section

variable {ch : ChannelModel} {table : ℕ → ℕ} {curTime : ℕ}

theorem memset_of_mem {credits : ℕ → ℕ} {start value length entry : ℕ}
    (hvalue : value < 2 ^ 8)
    (hmem : start ≤ entry ∧ entry < start + length) :
    memset credits start value length entry = value := by
  rw [memset, if_pos hmem, Nat.mod_eq_of_lt hvalue]

theorem memset_of_notMem {credits : ℕ → ℕ} {start value length entry : ℕ}
    (hnot : ¬ (start ≤ entry ∧ entry < start + length)) :
    memset credits start value length entry = credits entry := if_neg hnot

/-- How many entries `chmodel_request` leaves behind. -/
def passed (ch : ChannelModel) (curTime : ℕ) : ℕ :=
  min (gap ch curTime) ch.validLen

theorem curTimeOffs_eq (hclock : ch.curTime ≤ curTime)
    (hlt : curTime < 2 ^ 64) (hseen : GapSeen ch curTime) :
    (if u32 (sub64 (curTime / unitTimeInterval)
        (ch.curTime / unitTimeInterval)) < ch.validLen then
      u32 (sub64 (curTime / unitTimeInterval)
        (ch.curTime / unitTimeInterval))
    else ch.validLen) = passed ch curTime := by
  have hle : ch.curTime / unitTimeInterval ≤ curTime / unitTimeInterval :=
    Nat.div_le_div_right hclock
  rw [sub64_of_le hle (Nat.lt_of_le_of_lt (Nat.div_le_self _ _) hlt)]
  change (if u32 (gap ch curTime) < ch.validLen then u32 (gap ch curTime)
    else ch.validLen) = _
  rw [passed]
  rcases hseen with hsmall | hcovered
  · rw [u32_of_lt hsmall]
    split_ifs <;> omega
  · have hdown : u32 (gap ch curTime) ≤ gap ch curTime := Nat.mod_le _ _
    rw [if_neg (Nat.not_lt_of_le hcovered)]
    omega

/-- The two fills of `chmodel_request` refill the entries from the head on that
are left behind. -/
theorem refill_apply {credits : ℕ → ℕ} {head maxCredits offs step : ℕ}
    (hhead : head < nrCreditEntries) (hoffs : offs ≤ nrCreditEntries)
    (hmax : maxCredits < 2 ^ 8) (hstep : step < nrCreditEntries) :
    (if nrCreditEntries ≤ head + offs then
      memset (memset credits head maxCredits (nrCreditEntries - head)) 0
        maxCredits (offs - (nrCreditEntries - head))
    else memset credits head maxCredits offs)
        ((head + step) % nrCreditEntries) =
      if step < offs then maxCredits
      else credits ((head + step) % nrCreditEntries) := by
  have hplace : (head + step) % nrCreditEntries =
      if head + step < nrCreditEntries then head + step
      else head + step - nrCreditEntries := by
    split_ifs with hwrap
    · exact Nat.mod_eq_of_lt hwrap
    · rw [Nat.mod_eq_sub_mod (Nat.le_of_not_lt hwrap)]
      exact Nat.mod_eq_of_lt (by omega)
  rw [hplace]
  split_ifs with hfull hwrap hbehind hbehind hwrap hbehind hbehind
  · rw [memset_of_notMem (by omega)]
    exact memset_of_mem hmax (by omega)
  · omega
  · exact memset_of_mem hmax (by omega)
  · rw [memset_of_notMem (by omega), memset_of_notMem (by omega)]
  · exact memset_of_mem hmax (by omega)
  · exact memset_of_notMem (by omega)
  · omega
  · exact memset_of_notMem (by omega)

/-- The refilled entries: those from the head on that have been passed. -/
theorem moveHead_credits (hmirrors : Mirrors ch table)
    (hclock : ch.curTime ≤ curTime) (hlt : curTime < 2 ^ 64)
    (hseen : GapSeen ch curTime) {step : ℕ} (hstep : step < nrCreditEntries) :
    (moveHead ch curTime).availCredits
        ((ch.head + step) % nrCreditEntries) =
      if step < passed ch curTime then ch.maxCredits
      else ch.availCredits ((ch.head + step) % nrCreditEntries) := by
  have hpassed : passed ch curTime ≤ nrCreditEntries :=
    (Nat.min_le_right _ _).trans hmirrors.ring.validLen_le
  dsimp only [moveHead]
  rw [curTimeOffs_eq hclock hlt hseen]
  exact refill_apply hmirrors.ring.head_lt hpassed hmirrors.maxCredits_lt hstep

/-- Moving the head shows the same table from the current interval on. -/
theorem Mirrors.moveHead (hmirrors : Mirrors ch table)
    (hclock : ch.curTime ≤ curTime) (hlt : curTime < 2 ^ 64)
    (hseen : GapSeen ch curTime) :
    Mirrors (moveHead ch curTime) table := by
  have hvalid := hmirrors.ring.validLen_le
  have hpassed : passed ch curTime ≤ ch.validLen := Nat.min_le_right _ _
  have hnow : intervalOf curTime = intervalOf ch.curTime + gap ch curTime :=
    (Nat.add_sub_of_le (Nat.div_le_div_right hclock)).symm
  have hoffs := curTimeOffs_eq hclock hlt hseen
  refine ⟨hmirrors.ring.moveHead curTime, hmirrors.maxCredits_lt,
    hmirrors.commandCredits_eq, hmirrors.bounded, fun step hstep => ?_,
    fun interval hle => ?_⟩
  · have hhead : (Bandwidth.moveHead ch curTime).head =
        (ch.head + passed ch curTime) % nrCreditEntries := by
      dsimp only [Bandwidth.moveHead]
      rw [hoffs]
    have hnext : (Bandwidth.moveHead ch curTime).curTime = curTime := rfl
    rw [hhead, hnext, Nat.mod_add_mod, Nat.add_assoc, hnow]
    rcases Nat.lt_or_ge (passed ch curTime + step) nrCreditEntries with
      hinside | hwrap
    · rw [moveHead_credits hmirrors hclock hlt hseen hinside,
        if_neg (by omega), hmirrors.shows _ hinside]
      by_cases hall : gap ch curTime ≤ ch.validLen
      · rw [passed, Nat.min_eq_left hall, Nat.add_assoc]
      · rw [passed, Nat.min_eq_right (Nat.le_of_not_le hall)]
        rw [hmirrors.unused _ (by omega), hmirrors.unused _ (by omega)]
    · -- an entry that has been passed is one of the last entries now
      have hplace : ch.head + (passed ch curTime + step) =
          ch.head + (passed ch curTime + step - nrCreditEntries) +
            nrCreditEntries := by omega
      rw [hplace, Nat.add_mod_right,
        moveHead_credits hmirrors hclock hlt hseen (by omega),
        if_pos (by omega)]
      have hgap : passed ch curTime ≤ gap ch curTime := Nat.min_le_left _ _
      exact (hmirrors.unused _ (by omega)).symm
  · apply hmirrors.unused
    have hkept : (Bandwidth.moveHead ch curTime).validLen =
        ch.validLen - passed ch curTime := by
      dsimp only [Bandwidth.moveHead]
      rw [hoffs]
    have hgap : passed ch curTime ≤ gap ch curTime := Nat.min_le_left _ _
    have hnext : (Bandwidth.moveHead ch curTime).curTime = curTime := rfl
    rw [hkept, hnext, hnow] at hle
    omega

/-! ## Taking credits -/

theorem Shows.update {head interval : ℕ} {credits : ℕ → ℕ} {offs : ℕ}
    (hshows : Shows head interval credits table) (hoffs : offs < nrCreditEntries)
    (value : ℕ) :
    Shows head interval
      (Function.update credits ((head + offs) % nrCreditEntries) value)
      (Function.update table (interval + offs) value) := by
  intro step hstep
  rcases Nat.lt_trichotomy step offs with hlt | rfl | hgt
  · have hplace : (head + step) % nrCreditEntries ≠
        (head + offs) % nrCreditEntries := mod_ne_of_lt (by omega) (by omega)
    rw [Function.update_of_ne hplace, Function.update_of_ne (by omega)]
    exact hshows step hstep
  · rw [Function.update_self, Function.update_self]
  · have hplace : (head + offs) % nrCreditEntries ≠
        (head + step) % nrCreditEntries := mod_ne_of_lt (by omega) (by omega)
    rw [Function.update_of_ne hplace.symm, Function.update_of_ne (by omega)]
    exact hshows step hstep

/-- One round of the loop of `chmodel_request`. -/
theorem consume_succ (head fuel : ℕ) (credits : ℕ → ℕ)
    (pos remaining delay : ℕ) :
    consume head (fuel + 1) credits pos remaining delay =
      if remaining ≤ credits pos then
        some ⟨Function.update credits pos (credits pos - remaining), pos, delay⟩
      else if (pos + 1) % nrCreditEntries ≠ head then
        consume head fuel (Function.update credits pos 0)
          ((pos + 1) % nrCreditEntries) (remaining - credits pos) (delay + 1)
      else some ⟨Function.update credits pos 0, pos, delay⟩ := by
  rw [consume]
  dsimp only
  by_cases hall : remaining ≤ credits pos
  · rw [if_pos hall, if_pos hall, Nat.sub_self, if_neg (not_not_intro rfl)]
  · rw [if_neg hall, if_neg hall, Nat.sub_self,
      if_pos (Nat.sub_ne_zero_of_lt (Nat.lt_of_not_le hall))]

/-- The entry after the one at `offs`. -/
theorem next_entry (head offs : ℕ) :
    ((head + offs) % nrCreditEntries + 1) % nrCreditEntries =
      (head + (offs + 1)) % nrCreditEntries := Nat.mod_add_mod ..

/-- It is the head if `offs` was the last one. -/
theorem next_ne_head {head offs : ℕ} (hhead : head < nrCreditEntries)
    (hoffs : offs < nrCreditEntries) :
    (head + (offs + 1)) % nrCreditEntries ≠ head ↔
      offs + 1 < nrCreditEntries := by
  constructor
  · intro hnext
    by_contra hend
    have hlast : offs + 1 = nrCreditEntries := by omega
    rw [hlast, Nat.add_mod_right] at hnext
    exact hnext (Nat.mod_eq_of_lt hhead)
  · intro hinside
    have hne : head % nrCreditEntries ≠ (head + (offs + 1)) % nrCreditEntries :=
      mod_ne_of_lt (by omega) (by omega)
    rw [Nat.mod_eq_of_lt hhead] at hne
    exact hne.symm

/-- The loop of `chmodel_request` takes the credits that are taken from the
table, as long as the entries up to the one before the head have enough. -/
theorem consume_spec {head interval fuel offs remaining : ℕ}
    {credits : ℕ → ℕ} (delay : ℕ) (hhead : head < nrCreditEntries)
    (hoffs : offs < nrCreditEntries)
    (hshows : Shows head interval credits table)
    (hfits : remaining ≤
      offered table (interval + offs) (nrCreditEntries - offs))
    (hfuel : nrCreditEntries - offs ≤ fuel) :
    ∃ credits', consume head fuel credits ((head + offs) % nrCreditEntries)
        remaining delay = some
          { credits := credits'
            pos := (head + (offs + extra table (interval + offs) remaining)) %
              nrCreditEntries
            delay := delay + extra table (interval + offs) remaining } ∧
      Shows head interval credits'
        (taken table (interval + offs) remaining) := by
  induction fuel generalizing offs remaining delay credits table with
  | zero => omega
  | succ fuel ih =>
      rw [consume_succ, next_entry, hshows offs hoffs]
      rcases Nat.lt_or_ge (table (interval + offs)) remaining with hless | hall
      · -- the ring cannot end here: the request fits
        have hmore : offs + 1 < nrCreditEntries := by
          by_contra hend
          have hlast : nrCreditEntries - offs = 1 := by omega
          rw [hlast, offered_one] at hfits
          exact absurd hless (Nat.not_lt.mpr hfits)
        have hrest : nrCreditEntries - offs =
            nrCreditEntries - (offs + 1) + 1 := by omega
        have hfits' : remaining - table (interval + offs) ≤
            offered (Function.update table (interval + offs) 0)
              (interval + (offs + 1)) (nrCreditEntries - (offs + 1)) := by
          rw [hrest, offered_succ] at hfits
          rw [← Nat.add_assoc, offered_update (Nat.lt_add_one _)]
          exact Nat.sub_le_iff_le_add'.mpr hfits
        obtain ⟨credits', hrun, hafter⟩ := ih (delay + 1) hmore
          (hshows.update hoffs 0) hfits' (by omega)
        rw [if_neg (Nat.not_le_of_lt hless),
          if_pos ((next_ne_head hhead hoffs).mpr hmore)]
        refine ⟨credits', ?_, ?_⟩
        · rw [hrun, extra_of_lt hless hfits, Nat.add_assoc interval,
            Nat.add_assoc offs 1, Nat.add_assoc delay 1, Nat.add_comm 1]
        · rw [taken_of_ge (Nat.le_of_lt hless), Nat.add_assoc interval]
          exact hafter
      · rw [if_pos hall, extra_of_le hall, taken_of_le hall]
        exact ⟨_, rfl, hshows.update hoffs _⟩

end

/-! ## Requests -/

/-- What the channel is used for: time goes on, a request that is not in the
past lies less than a ring ahead, and the rest of the ring has the credits it
needs. -/
structure Admissible (ch : ChannelModel) (table : ℕ → ℕ) (req : TransferReq) :
    Prop where
  clock : ch.curTime ≤ req.curTime
  curTime_lt : req.curTime < 2 ^ 64
  requestTime_lt : req.requestTime < 2 ^ 64
  ahead : req.curTime ≤ req.requestTime →
    intervalOf req.requestTime < intervalOf req.curTime + nrCreditEntries
  fits : req.curTime ≤ req.requestTime →
    req.units ≤ offered table (intervalOf req.requestTime)
      (intervalOf req.curTime + nrCreditEntries - intervalOf req.requestTime)

/-- The condition under which the ring keeps up: the distance to the last
request is seen, and no product or sum is cut. -/
structure KeepsUp (ch : ChannelModel) (table : ℕ → ℕ) (req : TransferReq) :
    Prop where
  gap : GapSeen ch req.curTime
  transfer : req.curTime ≤ req.requestTime → ch.xferLat * req.units < 2 ^ 32
  time : completionTime ch.maxCredits ch.xferLat table req < 2 ^ 64

section

variable {ch : ChannelModel} {table : ℕ → ℕ} {req : TransferReq}

theorem units_lt (hmirrors : Mirrors ch table)
    (hadmissible : Admissible ch table req)
    (hnotPast : req.curTime ≤ req.requestTime) : req.units < 2 ^ 32 := by
  have hmono : intervalOf req.curTime ≤ intervalOf req.requestTime :=
    Nat.div_le_div_right hnotPast
  have hfits := hadmissible.fits hnotPast
  have hall := offered_le hmirrors.bounded (intervalOf req.requestTime)
    (intervalOf req.curTime + nrCreditEntries - intervalOf req.requestTime)
  have hcount : intervalOf req.curTime + nrCreditEntries -
      intervalOf req.requestTime ≤ nrCreditEntries := by omega
  have hcredits := Nat.mul_le_mul hcount
    (Nat.le_of_lt hmirrors.maxCredits_lt)
  have hring : nrCreditEntries * 2 ^ 8 < 2 ^ 32 := by decide
  omega

/-- How far behind the head the last used entry lies. -/
theorem validLength_eq {head offs : ℕ} (hhead : head < nrCreditEntries)
    (hoffs : offs < nrCreditEntries) :
    (if head ≤ (head + offs) % nrCreditEntries then
      (head + offs) % nrCreditEntries - head + 1
    else nrCreditEntries - (head - (head + offs) % nrCreditEntries - 1)) =
      offs + 1 := by
  rcases Nat.lt_or_ge (head + offs) nrCreditEntries with hlt | hge
  · rw [Nat.mod_eq_of_lt hlt, if_pos (Nat.le_add_right _ _)]
    omega
  · rw [Nat.mod_eq_sub_mod hge, Nat.mod_eq_of_lt (by omega), if_neg (by omega)]
    omega

/-- The offset of a request that lies less than a ring ahead. -/
theorem requestTimeOffs_eq (hadmissible : Admissible ch table req)
    (hnotPast : req.curTime ≤ req.requestTime) :
    u32 (sub64 (req.requestTime / unitTimeInterval)
        (req.curTime / unitTimeInterval)) =
      intervalOf req.requestTime - intervalOf req.curTime := by
  have hmono : intervalOf req.curTime ≤ intervalOf req.requestTime :=
    Nat.div_le_div_right hnotPast
  have hahead := hadmissible.ahead hnotPast
  have hring : nrCreditEntries < 2 ^ 32 := by decide
  change u32 (sub64 (intervalOf req.requestTime) (intervalOf req.curTime)) = _
  rw [sub64_of_le hmono (Nat.lt_of_le_of_lt (Nat.div_le_self _ _)
    hadmissible.requestTime_lt)]
  exact u32_of_lt (by omega)

/-- A transfer that is not in the past, once the head has been moved. -/
theorem transfer_spec {moved : ChannelModel} (hmirrors : Mirrors moved table)
    (hnow : moved.curTime = req.curTime)
    (hnotPast : req.curTime ≤ req.requestTime)
    (hahead : intervalOf req.requestTime <
      intervalOf req.curTime + nrCreditEntries)
    (hfits : req.units ≤ offered table (intervalOf req.requestTime)
      (intervalOf req.curTime + nrCreditEntries -
        intervalOf req.requestTime)) :
    ∃ credits, consume moved.head nrCreditEntries moved.availCredits
        ((moved.head + (intervalOf req.requestTime -
          intervalOf req.curTime)) % nrCreditEntries) req.units 0 = some
        { credits := credits
          pos := (moved.head + (intervalOf req.requestTime -
            intervalOf req.curTime +
              extra table (intervalOf req.requestTime) req.units)) %
            nrCreditEntries
          delay := extra table (intervalOf req.requestTime) req.units } ∧
      ∀ validLen, moved.validLen ≤ validLen → validLen ≤ nrCreditEntries →
        intervalOf req.requestTime - intervalOf req.curTime +
          extra table (intervalOf req.requestTime) req.units < validLen →
        Mirrors { moved with availCredits := credits, validLen := validLen }
          (taken table (intervalOf req.requestTime) req.units) := by
  have hmono : intervalOf req.curTime ≤ intervalOf req.requestTime :=
    Nat.div_le_div_right hnotPast
  have hplace : intervalOf moved.curTime +
      (intervalOf req.requestTime - intervalOf req.curTime) =
        intervalOf req.requestTime := by
    rw [hnow, Nat.add_sub_of_le hmono]
  have hcount : intervalOf req.curTime + nrCreditEntries -
      intervalOf req.requestTime = nrCreditEntries -
        (intervalOf req.requestTime - intervalOf req.curTime) := by
    omega
  have hring := hmirrors.ring
  rw [hcount] at hfits
  have hoffs : intervalOf req.requestTime - intervalOf req.curTime <
      nrCreditEntries := by omega
  have hfits' : req.units ≤ offered table (intervalOf moved.curTime +
      (intervalOf req.requestTime - intervalOf req.curTime))
        (nrCreditEntries -
          (intervalOf req.requestTime - intervalOf req.curTime)) := by
    rw [hplace]
    exact hfits
  obtain ⟨credits, hrun, hshows⟩ := consume_spec 0 hring.head_lt hoffs
    hmirrors.shows hfits' (Nat.sub_le _ _)
  rw [hplace, Nat.zero_add] at hrun
  rw [hplace] at hshows
  refine ⟨credits, hrun, fun validLen hle hvalid hlast => ?_⟩
  refine ⟨⟨hring.head_lt, hvalid, hring.maxCredits_pos⟩,
    hmirrors.maxCredits_lt, hmirrors.commandCredits_eq,
    fun interval => (taken_le interval).trans (hmirrors.bounded interval),
    hshows, fun interval hunused => ?_⟩
  dsimp only at hunused
  rw [taken_of_gt hfits (by omega)]
  exact hmirrors.unused interval (by omega)

/-- The channel asks for as many credits as the request has units. -/
theorem neededCredits_eq (hmirrors : Mirrors ch table)
    (hadmissible : Admissible ch table req)
    (hnotPast : req.curTime ≤ req.requestTime) :
    neededCredits ch req.length = req.units := by
  have hunits := units_lt hmirrors hadmissible hnotPast
  have hdemand : u32 (divRoundUp req.length unitXferSize) = req.units :=
    u32_of_lt hunits
  rw [neededCredits, hdemand, hmirrors.commandCredits_eq, unitXferCredits,
    Nat.mul_one]
  exact u32_of_lt hunits

/-- The time that a request is answered with when the loop goes on for the
extra intervals of the table. -/
theorem answer_eq (hmirrors : Mirrors ch table)
    (hadmissible : Admissible ch table req) (hkeeps : KeepsUp ch table req)
    (hnotPast : req.curTime ≤ req.requestTime)
    (hinside : extra table (intervalOf req.requestTime) req.units <
      nrCreditEntries) :
    u64 (req.requestTime + latency ch req.length
        (extra table (intervalOf req.requestTime) req.units)) =
      completionTime ch.maxCredits ch.xferLat table req := by
  have hdemand : u32 (divRoundUp req.length unitXferSize) = req.units :=
    u32_of_lt (units_lt hmirrors hadmissible hnotPast)
  have htransfer : transferTime ch req.length < 2 ^ 32 := by
    rw [transferTime, hdemand]
    exact hkeeps.transfer hnotPast
  have htime := hkeeps.time
  rw [completionTime, if_neg (Nat.not_lt.mpr hnotPast)] at htime ⊢
  rw [latency_eq htransfer hinside, neededCredits_eq hmirrors hadmissible
    hnotPast, transferTime, hdemand, Nat.mul_comm _ unitTimeInterval,
    ← Nat.add_assoc]
  exact u64_of_lt htime

/-- A request on a channel that shows the table is completed when the table
says, and the channel shows the table after it. -/
theorem chmodelRequest_spec (hmirrors : Mirrors ch table)
    (hadmissible : Admissible ch table req) (hkeeps : KeepsUp ch table req) :
    ∃ after, chmodelRequest ch req.curTime req.requestTime req.length =
        .ok (completionTime ch.maxCredits ch.xferLat table req, after) ∧
      Mirrors after (tableAfter table req) := by
  have hmoved := hmirrors.moveHead hadmissible.clock hadmissible.curTime_lt
    hkeeps.gap
  rcases Nat.lt_or_ge req.requestTime req.curTime with hpast | hnotPast
  · rw [completionTime, if_pos hpast, tableAfter, if_pos hpast]
    exact ⟨_, chmodelRequest_early hmirrors.ring (.inl hpast), hmoved⟩
  · have hmono : intervalOf req.curTime ≤ intervalOf req.requestTime :=
      Nat.div_le_div_right hnotPast
    have hahead := hadmissible.ahead hnotPast
    have hfits := hadmissible.fits hnotPast
    have hoffs : requestTimeOffs req.curTime req.requestTime =
        intervalOf req.requestTime - intervalOf req.curTime :=
      requestTimeOffs_eq hadmissible hnotPast
    have hcount : intervalOf req.curTime + nrCreditEntries -
        intervalOf req.requestTime = nrCreditEntries -
          (intervalOf req.requestTime - intervalOf req.curTime) := by
      omega
    have hlast := extra_lt (by omega) (hcount ▸ hfits)
    obtain ⟨final, hfinal, -, hrun⟩ := chmodelRequest_late hmirrors.ring
      hnotPast (by omega) req.length
    obtain ⟨credits, hconsumed, hafter⟩ :=
      transfer_spec hmoved rfl hnotPast hahead hfits
    rw [consumeFor, hoffs, neededCredits_eq hmirrors hadmissible hnotPast,
      hconsumed] at hfinal
    cases hfinal
    dsimp only at hrun
    rw [answer_eq hmirrors hadmissible hkeeps hnotPast (by omega)] at hrun
    refine ⟨_, hrun, ?_⟩
    -- the used part of the ring now reaches to the last interval needed
    rw [tableAfter, if_neg (Nat.not_lt.mpr hnotPast), afterLoop]
    dsimp only
    rw [validLength_eq hmoved.ring.head_lt (by omega)]
    have hvalid := hmoved.ring.validLen_le
    refine hafter _ ?_ ?_ ?_
    · split_ifs <;> omega
    · split_ifs <;> omega
    · split_ifs <;> omega

end

/-! ## Runs -/

/-- A channel, the table that every request should be served from, and the
completion times: the one that was returned and the one the table gives. -/
structure ChannelRun where
  model : ChannelModel
  table : ℕ → ℕ
  answers : List (ℕ × ℕ)

noncomputable def channelStep (s : ChannelRun) (req : TransferReq) :
    Except Fault ChannelRun := do
  let result ← chmodelRequest s.model req.curTime req.requestTime req.length
  .ok
    { model := result.2
      table := tableAfter s.table req
      answers := s.answers ++ [(result.1,
        completionTime s.model.maxCredits s.model.xferLat s.table req)] }

/-- A channel as `chmodel_init` leaves it, with credits that fit in a byte. -/
structure FreshChannel (s : ChannelRun) : Prop where
  curTime_eq : s.model.curTime = 0
  head_eq : s.model.head = 0
  validLen_eq : s.model.validLen = 0
  commandCredits_eq : s.model.commandCredits = 0
  maxCredits_pos : 0 < s.model.maxCredits
  maxCredits_lt : s.model.maxCredits < 2 ^ 8
  availCredits_eq : ∀ entry < nrCreditEntries,
    s.model.availCredits entry = s.model.maxCredits
  table_eq : ∀ interval, s.table interval = s.model.maxCredits
  answers_eq : s.answers = []

/-- Admissible requests that meet `condition`. -/
noncomputable def channelMachine
    (condition : ChannelModel → (ℕ → ℕ) → TransferReq → Prop) :
    Machine ChannelRun TransferReq Fault where
  init := FreshChannel
  enabled s req := Admissible s.model s.table req ∧
    condition s.model s.table req
  step := channelStep

theorem FreshChannel.mirrors {s : ChannelRun} (hfresh : FreshChannel s) :
    Mirrors s.model s.table where
  ring :=
    { head_lt := by
        rw [hfresh.head_eq]
        exact nrCreditEntries_pos
      validLen_le := by
        rw [hfresh.validLen_eq]
        exact Nat.zero_le _
      maxCredits_pos := hfresh.maxCredits_pos }
  maxCredits_lt := hfresh.maxCredits_lt
  commandCredits_eq := hfresh.commandCredits_eq
  bounded := fun interval => Nat.le_of_eq (hfresh.table_eq interval)
  shows := by
    intro step hstep
    rw [hfresh.availCredits_eq _ (Nat.mod_lt _ nrCreditEntries_pos),
      hfresh.table_eq]
  unused := fun interval _ => hfresh.table_eq interval

/-- In a run whose requests all meet the condition, the channel shows the table
and has answered as the table does. -/
theorem channel_inductive :
    Inductive (channelMachine KeepsUp) fun s =>
      Mirrors s.model s.table ∧ ∀ answer ∈ s.answers, answer.1 = answer.2 where
  init := by
    intro s hfresh
    refine ⟨hfresh.mirrors, fun answer hmem => ?_⟩
    rw [hfresh.answers_eq] at hmem
    cases hmem
  step := by
    intro s req hinv henabled
    obtain ⟨hmirrors, hanswers⟩ := hinv
    obtain ⟨hadmissible, hkeeps⟩ := henabled
    obtain ⟨after, hrun, hafter⟩ :=
      chmodelRequest_spec hmirrors hadmissible hkeeps
    have hstep : channelStep s req = .ok
        { model := after
          table := tableAfter s.table req
          answers := s.answers ++ [(completionTime s.model.maxCredits
              s.model.xferLat s.table req,
            completionTime s.model.maxCredits s.model.xferLat s.table req)] } :=
      by rw [channelStep, hrun]; rfl
    refine ⟨_, hstep, hafter, ?_⟩
    · intro answer hmem
      rcases List.mem_append.mp hmem with hold | hnew
      · exact hanswers answer hold
      · cases List.mem_singleton.mp hnew
        rfl

/-- In every run whose requests all meet the condition, every completion time
is the one the table gives, and the next such request is completed too. -/
theorem answers_agree {s : ChannelRun}
    (hreach : Reachable (channelMachine KeepsUp) s) :
    (∀ answer ∈ s.answers, answer.1 = answer.2) ∧
      ∀ req, Admissible s.model s.table req → KeepsUp s.model s.table req →
        ∃ s', channelStep s req = .ok s' :=
  ⟨(channel_inductive.reachable hreach).2, fun _ hadmissible hkeeps =>
    channel_inductive.progress hreach ⟨hadmissible, hkeeps⟩⟩

/-! ## What `chmodel_init` sets up -/

theorem freshChannel_idleModel {bandwidth : ℕ}
    (hpos : 0 < u32 (bandwidthToMaxCredits bandwidth))
    (hlt : u32 (bandwidthToMaxCredits bandwidth) < 2 ^ 8) :
    FreshChannel
      { model := idleModel bandwidth
        table := fun _ => u32 (bandwidthToMaxCredits bandwidth)
        answers := [] } where
  curTime_eq := rfl
  head_eq := rfl
  validLen_eq := rfl
  commandCredits_eq := rfl
  maxCredits_pos := hpos
  maxCredits_lt := hlt
  availCredits_eq := by
    intro entry hentry
    change memset (fun _ => 0) 0 (u32 (bandwidthToMaxCredits bandwidth))
      nrCreditEntries entry = u32 (bandwidthToMaxCredits bandwidth)
    exact memset_of_mem hlt ⟨Nat.zero_le _, by rwa [Nat.zero_add]⟩
  table_eq := fun _ => rfl
  answers_eq := rfl

/-- The credits of an interval are transferred within the interval. -/
theorem maxCredits_mul_xferLat_le (bandwidth : ℕ) :
    (idleModel bandwidth).maxCredits * (idleModel bandwidth).xferLat ≤
      unitTimeInterval := by
  have hcredits : u32 (bandwidthToMaxCredits bandwidth) ≤
      u64 (bandwidth * 2 ^ 20) * unitTimeInterval /
        (10 ^ 9 * unitXferSize) := by
    refine (Nat.mod_le _ _).trans ?_
    rw [bandwidthToMaxCredits, unitXferCredits, Nat.mul_one,
      Nat.div_div_eq_div_mul]
    exact Nat.div_le_div_right (Nat.mod_le _ _)
  have hlat : u32 (bandwidthToTxTime bandwidth) ≤
      10 ^ 9 * unitXferSize / u64 (bandwidth * 2 ^ 20) := by
    refine (Nat.mod_le _ _).trans ?_
    rw [bandwidthToTxTime, Nat.mul_comm unitXferSize]
  have hcancel : u64 (bandwidth * 2 ^ 20) * unitTimeInterval *
      (10 ^ 9 * unitXferSize) = unitTimeInterval *
        (10 ^ 9 * unitXferSize * u64 (bandwidth * 2 ^ 20)) := by
    ring
  calc u32 (bandwidthToMaxCredits bandwidth) *
        u32 (bandwidthToTxTime bandwidth)
      ≤ u64 (bandwidth * 2 ^ 20) * unitTimeInterval /
          (10 ^ 9 * unitXferSize) *
            (10 ^ 9 * unitXferSize / u64 (bandwidth * 2 ^ 20)) :=
        Nat.mul_le_mul hcredits hlat
    _ ≤ u64 (bandwidth * 2 ^ 20) * unitTimeInterval *
          (10 ^ 9 * unitXferSize) /
            (10 ^ 9 * unitXferSize * u64 (bandwidth * 2 ^ 20)) :=
        Nat.div_mul_div_le ..
    _ ≤ unitTimeInterval := by
        rw [hcancel]
        exact Nat.div_le_of_le_mul (Nat.le_of_eq (Nat.mul_comm _ _))

/-- On a channel that transfers the credits of an interval within the
interval, the transfer time of a request that fits is not cut. -/
theorem transfer_lt {ch : ChannelModel} {table : ℕ → ℕ} {req : TransferReq}
    (hmirrors : Mirrors ch table) (hadmissible : Admissible ch table req)
    (hfast : ch.maxCredits * ch.xferLat ≤ unitTimeInterval)
    (hnotPast : req.curTime ≤ req.requestTime) :
    ch.xferLat * req.units < 2 ^ 32 := by
  have hmono : intervalOf req.curTime ≤ intervalOf req.requestTime :=
    Nat.div_le_div_right hnotPast
  have hcount : intervalOf req.curTime + nrCreditEntries -
      intervalOf req.requestTime ≤ nrCreditEntries := by omega
  have hunits : req.units ≤ nrCreditEntries * ch.maxCredits :=
    (hadmissible.fits hnotPast).trans ((offered_le hmirrors.bounded _ _).trans
      (Nat.mul_le_mul_right _ hcount))
  calc ch.xferLat * req.units
      ≤ ch.xferLat * (nrCreditEntries * ch.maxCredits) :=
        Nat.mul_le_mul_left _ hunits
    _ = nrCreditEntries * (ch.maxCredits * ch.xferLat) := by ring
    _ ≤ nrCreditEntries * unitTimeInterval := Nat.mul_le_mul_left _ hfast
    _ < 2 ^ 32 := by decide

/-! ## An idle channel -/

/-- A channel of 800 MB/s, which gives every interval 26 credits. -/
def idleChannel : ChannelRun :=
  { model := idleModel 800, table := fun _ => 26, answers := [] }

theorem idleChannel_fresh : FreshChannel idleChannel :=
  freshChannel_idleModel (by decide) (by decide)

/-- A request for all credits of the first interval. -/
def firstReq : TransferReq :=
  { curTime := 0, requestTime := 0, length := 26 * 128 }

/-- A request for one credit, `2 ^ 32` intervals later. -/
def lateReq : TransferReq :=
  { curTime := 2 ^ 32 * 4000, requestTime := 2 ^ 32 * 4000, length := 128 }

theorem firstReq_admissible :
    Admissible idleChannel.model idleChannel.table firstReq where
  clock := Nat.le_refl 0
  curTime_lt := by decide
  requestTime_lt := by decide
  ahead := fun _ => by decide
  fits := fun _ => le_offered (fun _ => 26) 0 (by decide)

theorem firstReq_keepsUp :
    KeepsUp idleChannel.model idleChannel.table firstReq where
  gap := by decide
  transfer := fun _ => by decide
  time := by
    have hnone : extra idleChannel.table (intervalOf firstReq.requestTime)
        firstReq.units = 0 := extra_of_le (Nat.le_refl 26)
    rw [completionTime, hnone]
    decide

/-- The table after the first request. -/
theorem tableAfter_firstReq :
    tableAfter idleChannel.table firstReq =
      Function.update (fun _ => 26) 0 0 := by
  have hall : firstReq.units ≤
      idleChannel.table (intervalOf firstReq.requestTime) := Nat.le_refl 26
  exact taken_of_le hall

/-- The first request on an idle channel is answered as the table says. -/
theorem answers_agree_firstReq :
    ∃ s, channelStep idleChannel firstReq = .ok s ∧
      ∀ answer ∈ s.answers, answer.1 = answer.2 := by
  have hstart : Reachable (channelMachine KeepsUp) idleChannel :=
    .start idleChannel_fresh
  obtain ⟨s, hstep⟩ :=
    (answers_agree hstart).2 firstReq firstReq_admissible firstReq_keepsUp
  exact ⟨s, hstep, (answers_agree (hstart.next
    ⟨firstReq_admissible, firstReq_keepsUp⟩ hstep)).1⟩

/-- The channel answers the late request an interval too late. -/
theorem late_transfer :
    ∃ first late, chmodelRequest (idleModel 800) firstReq.curTime
        firstReq.requestTime firstReq.length = .ok first ∧
      chmodelRequest first.2 lateReq.curTime lateReq.requestTime
        lateReq.length = .ok late ∧
      first.2.curTime = 0 ∧ first.2.maxCredits = 26 ∧
      first.2.xferLat = 152 ∧ late.1 = 2 ^ 32 * 4000 + 152 + 4000 :=
  ⟨_, _, rfl, rfl, rfl, rfl, rfl, rfl⟩

/-- After `2 ^ 32` intervals the distance to the last request looks like 0, so
the channel still has no credits and the request waits for the next
interval. -/
theorem idle_gap_delays :
    ∃ s, Reachable (channelMachine fun _ _ _ => True) s ∧
      ∃ answer ∈ s.answers, answer.1 = answer.2 + unitTimeInterval := by
  obtain ⟨first, late, hfirst, hlate, hclock, hmax, hlat, htime⟩ :=
    late_transfer
  have hstart : Reachable (channelMachine fun _ _ _ => True) idleChannel :=
    .start idleChannel_fresh
  have hcredits : tableAfter idleChannel.table firstReq
      (intervalOf lateReq.requestTime) = 26 := by
    rw [tableAfter_firstReq]
    exact Function.update_of_ne (by decide) ..
  have hneeded : lateReq.units ≤ tableAfter idleChannel.table firstReq
      (intervalOf lateReq.requestTime) := by
    rw [hcredits]
    decide
  -- the two steps, with the answers of the channel and of the table
  have hfirstStep : channelStep idleChannel firstReq = .ok
      { model := first.2
        table := tableAfter idleChannel.table firstReq
        answers := [(first.1, completionTime idleChannel.model.maxCredits
          idleChannel.model.xferLat idleChannel.table firstReq)] } := by
    rw [channelStep, idleChannel, hfirst]
    rfl
  have hmid := hstart.next ⟨firstReq_admissible, trivial⟩ hfirstStep
  have hlateStep : channelStep
      { model := first.2
        table := tableAfter idleChannel.table firstReq
        answers := [(first.1, completionTime idleChannel.model.maxCredits
          idleChannel.model.xferLat idleChannel.table firstReq)] } lateReq =
      .ok
        { model := late.2
          table := tableAfter (tableAfter idleChannel.table firstReq) lateReq
          answers := [(first.1, completionTime idleChannel.model.maxCredits
              idleChannel.model.xferLat idleChannel.table firstReq),
            (late.1, completionTime first.2.maxCredits first.2.xferLat
              (tableAfter idleChannel.table firstReq) lateReq)] } := by
    rw [channelStep, hlate]
    rfl
  have hadmissible : Admissible first.2
      (tableAfter idleChannel.table firstReq) lateReq :=
    { clock := by
        rw [hclock]
        exact Nat.zero_le _
      curTime_lt := by decide
      requestTime_lt := by decide
      ahead := fun _ => by decide
      fits := fun _ => hneeded.trans (le_offered _ _ (by decide)) }
  refine ⟨_, hmid.next ⟨hadmissible, trivial⟩ hlateStep, _,
    List.mem_cons_of_mem _ (List.mem_singleton_self _), ?_⟩
  dsimp only
  rw [completionTime, extra_of_le hneeded, htime, hmax, hlat]
  decide

end NvmeVirt.CreditTable
