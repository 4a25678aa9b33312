import NvmeVirt.Device.CreditRing

/-!
# The bandwidths a channel can have

`chmodel_init` derives the credits of an interval from the bandwidth, with two
divisions that round down, and fills entries of one byte with them.
-/

namespace NvmeVirt.BandwidthRange

open NvmeVirt.Bandwidth
open NvmeVirt.CreditRing
open NvmeVirt.CreditTable
open NvmeVirt.Kernel
open NvmeVirt.Transition

/-- All runs of a channel of this bandwidth. -/
def bandwidthMachine (bandwidth : ℕ) :
    Machine ChannelModel TransferReq Fault where
  init ch := chmodelInit bandwidth = .ok ch
  enabled := requestMachine.enabled
  step := requestMachine.step

/-- The initial entries offer the credits of the channel, and no request of any
run divides by zero. -/
def OffersCredits (bandwidth : ℕ) : Prop :=
  ∃ ch, chmodelInit bandwidth = .ok ch ∧
    (∀ entry < nrCreditEntries, ch.availCredits entry = ch.maxCredits) ∧
    ∀ later, Reachable (bandwidthMachine bandwidth) later →
      ∀ curTime requestTime length,
        chmodelRequest later curTime requestTime length ≠ .error .divideByZero

variable {bandwidth : ℕ}

/-- The credits in one division: 4000 ns of the bandwidth in bytes, by the
128 bytes of a unit in every nanosecond of a second. -/
theorem maxCredits_eq (hlt : bandwidth * 2 ^ 20 * unitTimeInterval < 2 ^ 64) :
    (idleModel bandwidth).maxCredits =
      bandwidth * 2 ^ 20 * unitTimeInterval / (10 ^ 9 * unitXferSize) := by
  have hbytes : bandwidth * 2 ^ 20 < 2 ^ 64 :=
    lt_of_le_of_lt (Nat.le_mul_of_pos_right _ (by decide)) hlt
  have hcredits : bandwidthToMaxCredits bandwidth =
      bandwidth * 2 ^ 20 * unitTimeInterval / (10 ^ 9 * unitXferSize) := by
    rw [bandwidthToMaxCredits, u64_of_lt hbytes, u64_of_lt hlt, unitXferCredits,
      Nat.mul_one, Nat.div_div_eq_div_mul]
  have hfits : bandwidthToMaxCredits bandwidth < 2 ^ 32 := by
    rw [hcredits, unitXferSize]
    omega
  exact (u32_of_lt hfits).trans hcredits

/-- The bandwidths with a credit in every interval, and with no more credits
than an entry holds. -/
theorem maxCredits_pos_iff
    (hlt : bandwidth * 2 ^ 20 * unitTimeInterval < 2 ^ 64) :
    0 < (idleModel bandwidth).maxCredits ↔ 31 ≤ bandwidth := by
  rw [maxCredits_eq hlt, unitTimeInterval, unitXferSize]
  omega

theorem maxCredits_lt_iff
    (hlt : bandwidth * 2 ^ 20 * unitTimeInterval < 2 ^ 64) :
    (idleModel bandwidth).maxCredits < 2 ^ 8 ↔ bandwidth ≤ 7812 := by
  rw [maxCredits_eq hlt, unitTimeInterval, unitXferSize]
  omega

theorem chmodelInit_ok (hpos : 1 ≤ bandwidth)
    (hlt : bandwidth * 2 ^ 20 * unitTimeInterval < 2 ^ 64) :
    chmodelInit bandwidth = .ok (idleModel bandwidth) := by
  have hbytes : bandwidth * 2 ^ 20 < 2 ^ 64 :=
    lt_of_le_of_lt (Nat.le_mul_of_pos_right _ (by decide)) hlt
  apply if_neg
  rw [u64_of_lt hbytes]
  omega

/-- The first entry holds the credits, cut to a byte. -/
theorem availCredits_zero (bandwidth : ℕ) :
    (idleModel bandwidth).availCredits 0 =
      (idleModel bandwidth).maxCredits % 2 ^ 8 := by
  change memset (fun _ => 0) 0 (idleModel bandwidth).maxCredits
    nrCreditEntries 0 = (idleModel bandwidth).maxCredits % 2 ^ 8
  rw [memset, if_pos ⟨Nat.le_refl 0, by decide⟩]

/-- Without credits the first request divides by zero. -/
theorem chmodelRequest_zero (hzero : (idleModel bandwidth).maxCredits = 0) :
    chmodelRequest (idleModel bandwidth) 0 0 0 = .error .divideByZero := by
  have hmoved : (moveHead (idleModel bandwidth) 0).maxCredits = 0 := hzero
  rw [chmodelRequest]
  rw [if_neg (Nat.lt_irrefl 0), if_neg (by decide), if_pos hmoved]
  rfl

/-- A channel works exactly at the bandwidths from 31 to 7812 MB/s. -/
theorem offersCredits_iff (hpos : 1 ≤ bandwidth)
    (hlt : bandwidth * 2 ^ 20 * unitTimeInterval < 2 ^ 64) :
    OffersCredits bandwidth ↔ 31 ≤ bandwidth ∧ bandwidth ≤ 7812 := by
  have hinit := chmodelInit_ok hpos hlt
  rw [← maxCredits_pos_iff hlt, ← maxCredits_lt_iff hlt]
  constructor
  · rintro ⟨ch, hch, hoffers, hsafe⟩
    cases hinit.symm.trans hch
    constructor
    · apply Nat.pos_of_ne_zero
      intro hzero
      exact hsafe _ (.start hinit) 0 0 0 (chmodelRequest_zero hzero)
    · rw [← hoffers 0 nrCreditEntries_pos, availCredits_zero]
      exact Nat.mod_lt _ (by decide)
  · rintro ⟨hcredits, hbyte⟩
    have hinv : Inductive (bandwidthMachine bandwidth) RingInv := by
      refine ⟨?_, requestMachine_inductive.step⟩
      intro ch hch
      cases hinit.symm.trans hch
      exact ringInv_of_init hinit hcredits (Nat.le_of_lt_succ hbyte)
    have hfresh := hinv.reachable (.start hinit)
    refine ⟨idleModel bandwidth, hinit, ?_, ?_⟩
    · intro entry hentry
      have hunused := hfresh.unused entry (Nat.zero_le _) hentry
      have hplace : (0 + entry) % nrCreditEntries = entry := by
        rw [Nat.zero_add, Nat.mod_eq_of_lt hentry]
      change (idleModel bandwidth).availCredits ((0 + entry) % nrCreditEntries) =
        (idleModel bandwidth).maxCredits at hunused
      rwa [hplace] at hunused
    · intro later hlater curTime requestTime length hfault
      obtain ⟨time, after, hrun, -⟩ :=
        (hinv.reachable hlater).request curTime requestTime length
      cases hrun.symm.trans hfault

theorem offersCredits_iff_800 :
    OffersCredits 800 ↔ 31 ≤ 800 ∧ 800 ≤ 7812 :=
  offersCredits_iff (by decide) (by decide)

/-- At 30 MB/s the first request divides by zero; at 7813 MB/s the entries have
no credits. -/
theorem no_credits_at_30_and_7813 :
    7813 * 2 ^ 20 * unitTimeInterval < 2 ^ 64 ∧ ¬ OffersCredits 30 ∧
      ¬ OffersCredits 7813 := by
  refine ⟨by decide, ?_, ?_⟩
  · rintro ⟨ch, hch, -, hsafe⟩
    cases hch
    exact hsafe _ (.start rfl) 0 0 0 (chmodelRequest_zero (by decide))
  · rintro ⟨ch, hch, hoffers, -⟩
    cases hch
    have hempty := hoffers 0 nrCreditEntries_pos
    rw [availCredits_zero] at hempty
    exact absurd hempty (by decide)

end NvmeVirt.BandwidthRange
