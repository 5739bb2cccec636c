import Ledgence.Api.Submission
import Mathlib.Algebra.Order.Floor.Div

/-! Integer admission accounting: a bucket of credit that time refills and every start debits. -/
open Kit Kit.Checked

namespace Ledgence

structure AdmissionBucket where
  credit : Nat
  highWaterAt : Nat
  deriving DecidableEq

/-- `admission::time` -/
def admissionTime (t : Nat) : Result Unit :=
  refuse (maxTimestamp < t) (invalid "admission timestamp exceeds supported range")

def divCeil (a b : Nat) : Nat :=
  (a + b - 1) / b

def AdmissionBucket.full (rate : ResourceRate) (now : Nat) : Result AdmissionBucket := do
  rate.validate
  admissionTime now
  return ⟨rate.capacity, now⟩

def AdmissionBucket.validate (bucket : AdmissionBucket) (rate : ResourceRate) : Result Unit := do
  rate.validate
  admissionTime bucket.highWaterAt
  refuse (rate.capacity < bucket.credit) (invalid "admission credit exceeds burst")

/-- The credit that `elapsed` milliseconds add, up to the burst. -/
def refillOf (bucket : AdmissionBucket) (rate : ResourceRate) (elapsed : Nat) : Result Nat :=
  let headroom := rate.capacity - bucket.credit
  -- Saturate before multiplying: no elapsed time can overflow.
  if divCeil headroom rate.numerator ≤ elapsed then .ok headroom
  else okOr (checkedMul u64Max elapsed rate.numerator) (invalid "admission refill overflow")

def refillAdmissionBucket (bucket : AdmissionBucket) (rate : ResourceRate) (now : Nat) :
    Result AdmissionBucket := do
  bucket.validate rate
  admissionTime now
  let highWaterAt := max now bucket.highWaterAt
  let refill ← refillOf bucket rate (highWaterAt - bucket.highWaterAt)
  return ⟨bucket.credit + refill, highWaterAt⟩

def changeAdmissionRate (bucket : Option AdmissionBucket) (oldRate newRate : Option ResourceRate)
    (now : Nat) : Result (Option AdmissionBucket) := do
  admissionTime now
  let old ← match bucket, oldRate with
    | some bucket, some rate => do
      let refilled ← refillAdmissionBucket bucket rate now
      pure (some (refilled, rate))
    | none, none => pure none
    | _, _ => .error (invalid "resource rate and bucket disagree")
  match newRate with
  | none => return none
  | some rate => do
    rate.validate
    match old with
    | none => return some ⟨0, now⟩
    | some (old, oldRate) => do
      let credit := min (old.credit * rate.periodMs / oldRate.periodMs) rate.capacity
      refuse (u64Max < credit) (invalid "admission conversion overflow")
      return some ⟨credit, old.highWaterAt⟩

/-- Offers that the bucket still covers, `u64::MAX` without a rate. -/
def rateCapacity (policy : ResourcePolicy) (bucket : Option AdmissionBucket) (offered : Nat) :
    Result Nat :=
  match policy.rate, bucket with
  | some rate, some bucket => do
    bucket.validate rate
    let tokens := bucket.credit / rate.periodMs
    refuse (tokens < offered) (invalid "unstarted offers exceed shadow credit")
    return tokens - offered
  | none, none => .ok u64Max
  | _, _ => .error (invalid "resource rate and bucket disagree")

def admissionOfferCapacity (policy : ResourcePolicy) (bucket : Option AdmissionBucket)
    (offered occupied : Nat) : Result Nat := do
  policy.validate
  refuse (occupied < offered) (invalid "offered occupancy exceeds total")
  let byRate ← rateCapacity policy bucket offered
  if policy.enabled = false then return 0
  else
    let available := min (policy.maxOccupancy - occupied) byRate
    refuse (u32Max < available) (invalid "admission capacity overflow")
    return available

def spendAdmissionToken (bucket : AdmissionBucket) (rate : ResourceRate) :
    Result AdmissionBucket := do
  bucket.validate rate
  let credit ← okOr (checkedSub bucket.credit rate.periodMs) (invalid "admission start lacks token")
  return { bucket with credit }

def nextAdmissionRefill (policy : ResourcePolicy) (bucket : Option AdmissionBucket)
    (offered occupied now : Nat) : Result (Option Nat) := do
  policy.validate
  admissionTime now
  refuse (occupied < offered) (invalid "offered occupancy exceeds total")
  match policy.rate, bucket with
  | some rate, some bucket => do
    let bucket ← refillAdmissionBucket bucket rate now
    let _ ← admissionOfferCapacity policy (some bucket) offered occupied
    if policy.enabled = false ∨ policy.maxOccupancy ≤ occupied ∨ rate.burst ≤ offered then
      return none
    else
      let required := (offered + 1) * rate.periodMs
      if required ≤ bucket.credit then return some now
      else
        let delay := divCeil (required - bucket.credit) rate.numerator
        let due ← okOr (checkedAdd u64Max bucket.highWaterAt delay)
          (invalid "admission due time overflow")
        admissionTime due
        return some due
  | none, none => return none
  | _, _ => .error (invalid "resource rate and bucket disagree")

/- What each function accepts, and what it then returns. -/

section Specs
variable {bucket bucket' : AdmissionBucket} {rate : ResourceRate} {policy : ResourcePolicy}
  {now : Nat}

structure AdmissionBucket.Valid (bucket : AdmissionBucket) (rate : ResourceRate) : Prop where
  supported : rate.Supported
  inRange : bucket.highWaterAt ≤ maxTimestamp
  credit_le : bucket.credit ≤ rate.capacity

@[simp] theorem admissionTime_eq_ok {u : Unit} : admissionTime now = .ok u ↔ now ≤ maxTimestamp := by
  simp [admissionTime]

@[simp] theorem AdmissionBucket.validate_eq_ok {u : Unit} :
    bucket.validate rate = .ok u ↔ bucket.Valid rate := by
  simp only [AdmissionBucket.validate, bind_eq_ok, ResourceRate.validate_eq_ok,
    admissionTime_eq_ok, refuse_eq_ok, not_lt, exists_unit]
  constructor
  · rintro ⟨supported, inRange, credit_le⟩
    exact ⟨supported, inRange, credit_le⟩
  · rintro ⟨supported, inRange, credit_le⟩
    exact ⟨supported, inRange, credit_le⟩

theorem divCeil_le_iff {a b c : Nat} (positive : 0 < b) : divCeil a b ≤ c ↔ a ≤ c * b := by
  rw [divCeil, ← Nat.ceilDiv_eq_add_pred_div, ceilDiv_le_iff_le_mul positive, Nat.mul_comm]

theorem refillOf_eq (supported : rate.Supported) (elapsed : Nat) :
    refillOf bucket rate elapsed =
      .ok (min (rate.capacity - bucket.credit) (elapsed * rate.numerator)) := by
  have bounded := supported.capacity_le
  by_cases filled : rate.capacity - bucket.credit ≤ elapsed * rate.numerator
  · have reached := (divCeil_le_iff supported.1.1).mpr filled
    simp [refillOf, reached, min_eq_left filled]
  · have short := (divCeil_le_iff (c := elapsed) supported.1.1).not.mpr filled
    have fits : elapsed * rate.numerator ≤ u64Max := by
      simp only [u64Max]
      omega
    simp [refillOf, short, min_eq_right (Nat.le_of_not_le filled), checkedMul, fits, okOr]

/-- The bucket refilled at `now`: credit for the time since the watermark, up to the burst. -/
def AdmissionBucket.refilled (bucket : AdmissionBucket) (rate : ResourceRate) (now : Nat) :
    AdmissionBucket where
  credit := min (bucket.credit + (max now bucket.highWaterAt - bucket.highWaterAt) * rate.numerator)
    rate.capacity
  highWaterAt := max now bucket.highWaterAt

theorem refillAdmissionBucket_eq_ok :
    refillAdmissionBucket bucket rate now = .ok bucket' ↔
      bucket.Valid rate ∧ now ≤ maxTimestamp ∧ bucket' = bucket.refilled rate now := by
  simp only [refillAdmissionBucket, bind_eq_ok, AdmissionBucket.validate_eq_ok,
    admissionTime_eq_ok, exists_unit, pure_eq_ok]
  refine and_congr_right fun valid => and_congr_right fun _ => ?_
  have sum : bucket.credit + min (rate.capacity - bucket.credit)
      ((max now bucket.highWaterAt - bucket.highWaterAt) * rate.numerator) =
        (bucket.refilled rate now).credit := by
    have := valid.credit_le
    simp only [AdmissionBucket.refilled]
    omega
  simp only [refillOf_eq valid.supported, Except.ok.injEq, exists_eq_left', sum]
  exact eq_comm

theorem AdmissionBucket.Valid.refilled (valid : bucket.Valid rate) (inRange : now ≤ maxTimestamp) :
    (bucket.refilled rate now).Valid rate where
  supported := valid.supported
  inRange := max_le inRange valid.inRange
  credit_le := min_le_right _ _

theorem AdmissionBucket.Valid.le_refilled (valid : bucket.Valid rate) (now : Nat) :
    bucket.credit ≤ (bucket.refilled rate now).credit := by
  have := valid.credit_le
  simp only [AdmissionBucket.refilled]
  omega

theorem spendAdmissionToken_eq_ok :
    spendAdmissionToken bucket rate = .ok bucket' ↔
      bucket.Valid rate ∧ rate.periodMs ≤ bucket.credit ∧
        bucket' = { bucket with credit := bucket.credit - rate.periodMs } := by
  simp only [spendAdmissionToken, bind_eq_ok, AdmissionBucket.validate_eq_ok, exists_unit,
    okOr_eq_ok, checkedSub_eq_some, pure_eq_ok]
  refine and_congr_right fun _ => ?_
  constructor
  · rintro ⟨_, ⟨enough, rfl⟩, rfl⟩
    exact ⟨enough, rfl⟩
  · rintro ⟨enough, rfl⟩
    exact ⟨_, ⟨enough, rfl⟩, rfl⟩

theorem AdmissionBucket.Valid.spent (valid : bucket.Valid rate) :
    AdmissionBucket.Valid { bucket with credit := bucket.credit - rate.periodMs } rate where
  supported := valid.supported
  inRange := valid.inRange
  credit_le := (Nat.sub_le _ _).trans valid.credit_le

/-- A positive offer capacity covers one more offer, by credit and by occupancy. -/
theorem admissionOfferCapacity_pos {bucket : Option AdmissionBucket} {offered occupied k : Nat}
    (capacity : admissionOfferCapacity policy bucket offered occupied = .ok k) :
    occupied + k ≤ policy.maxOccupancy ∨ k = 0 := by
  simp only [admissionOfferCapacity, bind_eq_ok, exists_unit] at capacity
  obtain ⟨-, -, byRate, -, capacity⟩ := capacity
  by_cases paused : policy.enabled = false
  · simp only [if_pos paused, pure_eq_ok] at capacity
    exact .inr capacity.symm
  · simp only [if_neg paused, bind_eq_ok, refuse_eq_ok, exists_unit, pure_eq_ok] at capacity
    omega

/-- Under a rate, all offers up to the capacity are covered by the bucket's credit. -/
theorem admissionOfferCapacity_covered {offered occupied k : Nat} (limited : policy.rate = some rate)
    (capacity : admissionOfferCapacity policy (some bucket) offered occupied = .ok k) :
    (offered + k) * rate.periodMs ≤ bucket.credit := by
  simp only [admissionOfferCapacity, rateCapacity, limited, bind_eq_ok, exists_unit, refuse_eq_ok,
    not_lt, pure_eq_ok] at capacity
  obtain ⟨-, -, byRate, ⟨-, enough, rfl⟩, capacity⟩ := capacity
  have small : offered + k ≤ bucket.credit / rate.periodMs := by
    by_cases paused : policy.enabled = false
    · simp only [if_pos paused, pure_eq_ok] at capacity
      omega
    · simp only [if_neg paused, bind_eq_ok, refuse_eq_ok, exists_unit, pure_eq_ok] at capacity
      omega
  calc (offered + k) * rate.periodMs ≤ bucket.credit / rate.periodMs * rate.periodMs :=
        Nat.mul_le_mul_right _ small
    _ ≤ bucket.credit := Nat.div_mul_le_self _ _

/-- A converted bucket is as late as the conversion, or as the bucket it is made from. -/
theorem changeAdmissionRate_highWater {bucket : Option AdmissionBucket}
    {oldRate newRate : Option ResourceRate}
    (changed : changeAdmissionRate bucket oldRate newRate now = .ok (some bucket')) :
    bucket'.highWaterAt ≤ max now ((bucket.map AdmissionBucket.highWaterAt).getD 0) := by
  simp only [changeAdmissionRate, bind_eq_ok, exists_unit] at changed
  obtain ⟨-, changed⟩ := changed
  split at changed
  · simp only [bind_eq_ok, refillAdmissionBucket_eq_ok, pure_eq_ok] at changed
    obtain ⟨_, ⟨-, -, rfl⟩, _, rfl, changed⟩ := changed
    cases newRate with
    | none => simp at changed
    | some rate =>
      simp only [bind_eq_ok, refuse_eq_ok, exists_unit, pure_eq_ok, Option.some.injEq] at changed
      obtain ⟨-, -, rfl⟩ := changed
      exact le_rfl
  · simp only [bind_eq_ok, pure_eq_ok] at changed
    obtain ⟨_, rfl, changed⟩ := changed
    cases newRate with
    | none => simp at changed
    | some rate =>
      simp only [bind_eq_ok, exists_unit, pure_eq_ok, Option.some.injEq] at changed
      obtain ⟨-, rfl⟩ := changed
      exact le_max_left _ _
  · simp at changed

theorem changeAdmissionRate_same (changed : changeAdmissionRate (some bucket) (some rate)
      (some rate) now = .ok (some bucket')) :
    refillAdmissionBucket bucket rate now = .ok bucket' := by
  simp only [changeAdmissionRate, bind_eq_ok, exists_unit, pure_eq_ok,
    ResourceRate.validate_eq_ok] at changed
  obtain ⟨-, refilled, accepted, _, rfl, supported, changed⟩ := changed
  simp only [bind_eq_ok, refuse_eq_ok, exists_unit, pure_eq_ok, Option.some.injEq] at changed
  have kept : refilled.credit ≤ rate.capacity := by
    obtain ⟨-, -, rfl⟩ := refillAdmissionBucket_eq_ok.mp accepted
    exact min_le_right _ _
  have same : refilled.credit * rate.periodMs / rate.periodMs = refilled.credit :=
    Nat.mul_div_cancel _ supported.2.1.1
  obtain ⟨-, rfl⟩ := changed
  rw [accepted, same, min_eq_left kept]

theorem admissionOfferCapacity_enabled {bucket : Option AdmissionBucket} {offered occupied k : Nat}
    (capacity : admissionOfferCapacity policy bucket offered occupied = .ok k) (positive : 0 < k) :
    policy.enabled = true ∧ occupied < policy.maxOccupancy := by
  have room := admissionOfferCapacity_pos capacity
  simp only [admissionOfferCapacity, bind_eq_ok, exists_unit] at capacity
  obtain ⟨-, -, byRate, -, capacity⟩ := capacity
  by_cases paused : policy.enabled = false
  · simp only [if_pos paused, pure_eq_ok] at capacity
    omega
  · exact ⟨by simpa using paused, by omega⟩

/-- Whenever elapsed time alone has made an offer possible, the announced moment has come. -/
theorem nextAdmissionRefill_le {offered occupied k t : Nat} {next : Option Nat}
    (limited : policy.rate = some rate) (later : now ≤ t) (behind : bucket.highWaterAt ≤ t)
    (announced : nextAdmissionRefill policy (some bucket) offered occupied now = .ok next)
    (capacity : admissionOfferCapacity policy (some (bucket.refilled rate t)) offered occupied = .ok k)
    (positive : 0 < k) : ∃ d, next = some d ∧ d ≤ t := by
  obtain ⟨enabled, room⟩ := admissionOfferCapacity_enabled capacity positive
  have enough := admissionOfferCapacity_covered limited capacity
  have one : (offered + 1) * rate.periodMs ≤ (offered + k) * rate.periodMs :=
    Nat.mul_le_mul_right _ (by omega)
  have reached : (offered + 1) * rate.periodMs ≤ (bucket.refilled rate t).credit := one.trans enough
  simp only [nextAdmissionRefill, limited, bind_eq_ok, exists_unit, refillAdmissionBucket_eq_ok]
    at announced
  obtain ⟨-, -, -, b, ⟨valid, inRange, rfl⟩, _, -, announced⟩ := announced
  have burst : ¬ rate.burst ≤ offered := by
    intro exhausted
    have capped : (bucket.refilled rate t).credit ≤ rate.capacity := min_le_right _ _
    have fits : rate.capacity ≤ offered * rate.periodMs := by
      rw [ResourceRate.capacity, Nat.mul_comm]
      exact Nat.mul_le_mul_right _ exhausted
    have period := valid.supported.2.1.1
    rw [Nat.add_mul] at reached
    omega
  have open' : ¬ (policy.enabled = false ∨ policy.maxOccupancy ≤ occupied ∨ rate.burst ≤ offered) := by
    rintro (paused | full | exhausted)
    · simp [enabled] at paused
    · omega
    · exact burst exhausted
  rw [if_neg open'] at announced
  by_cases ready : (offered + 1) * rate.periodMs ≤ (bucket.refilled rate now).credit
  · rw [if_pos ready, pure_eq_ok] at announced
    exact ⟨now, announced.symm, later⟩
  · simp only [if_neg ready, bind_eq_ok, okOr_eq_ok, checkedAdd_eq_some, exists_unit, pure_eq_ok]
      at announced
    obtain ⟨d, ⟨-, rfl⟩, -, rfl⟩ := announced
    refine ⟨_, rfl, ?_⟩
    have wait : divCeil ((offered + 1) * rate.periodMs - (bucket.refilled rate now).credit)
        rate.numerator ≤ t - (bucket.refilled rate now).highWaterAt := by
      rw [divCeil_le_iff valid.supported.1.1]
      simp only [AdmissionBucket.refilled] at reached ready ⊢
      have split : (max t bucket.highWaterAt - bucket.highWaterAt) * rate.numerator =
          (t - max now bucket.highWaterAt) * rate.numerator +
            (max now bucket.highWaterAt - bucket.highWaterAt) * rate.numerator := by
        rw [← Nat.add_mul]
        congr 1
        omega
      omega
    simp only [AdmissionBucket.refilled] at wait ⊢
    omega

end Specs
end Ledgence
