import Ledgence.Core.Admission

/-! One resource under a fixed rate: its bucket, its outstanding offers and its started work. -/
open Kit Kit.Checked

namespace Ledgence

structure RatedResource where
  policy : ResourcePolicy
  bucket : AdmissionBucket
  offers : Nat
  started : Nat

inductive BucketOp where
  | refill (now : Nat)
  | offer
  /-- An unstarted offer expires or is cancelled. -/
  | withdraw
  /-- An outstanding offer starts and pays with one token. -/
  | spend
  | release
  /-- A policy edit that keeps the rate. Outstanding offers are invalidated. -/
  | edit (policy : ResourcePolicy) (now : Nat)
  deriving DecidableEq

namespace RatedResource
variable (rate : ResourceRate)

def offer (s : RatedResource) : Result RatedResource := do
  let capacity ← admissionOfferCapacity s.policy (some s.bucket) s.offers (s.offers + s.started)
  refuse (capacity = 0) .busy
  return { s with offers := s.offers + 1 }

def spend (s : RatedResource) : Result RatedResource := do
  refuse (s.offers = 0) .conflict
  let bucket ← spendAdmissionToken s.bucket rate
  return { s with bucket, offers := s.offers - 1, started := s.started + 1 }

def edit (s : RatedResource) (policy : ResourcePolicy) (now : Nat) : Result RatedResource := do
  policy.validate
  refuse (policy.rate ≠ some rate) .conflict
  let bucket ← changeAdmissionRate (some s.bucket) (some rate) policy.rate now
  let bucket ← okOr bucket .conflict
  return { s with policy, bucket, offers := 0 }

def apply (s : RatedResource) : BucketOp → Result RatedResource
  | .refill now => do
    let bucket ← refillAdmissionBucket s.bucket rate now
    return { s with bucket }
  | .offer => s.offer
  | .withdraw => do
    refuse (s.offers = 0) .conflict
    return { s with offers := s.offers - 1 }
  | .spend => s.spend rate
  | .release => do
    refuse (s.started = 0) .conflict
    return { s with started := s.started - 1 }
  | .edit policy now => s.edit rate policy now

def run (s : RatedResource) (ops : List BucketOp) : Result RatedResource :=
  ops.foldlM (apply rate) s

def spends (ops : List BucketOp) : Nat :=
  ops.count .spend

structure Covered (s : RatedResource) : Prop where
  limited : s.policy.rate = some rate
  valid : s.bucket.Valid rate
  covered : s.offers * rate.periodMs ≤ s.bucket.credit

/-- A step of the credit account: what is spent and what is left were there or were refilled. -/
def Paid (s t : RatedResource) (tokens : Nat) : Prop :=
  s.bucket.highWaterAt ≤ t.bucket.highWaterAt ∧
    rate.periodMs * tokens + t.bucket.credit ≤
      s.bucket.credit + rate.numerator * (t.bucket.highWaterAt - s.bucket.highWaterAt)

variable {rate} {s t u : RatedResource}

theorem Paid.refl : Paid rate s s 0 := by
  simp [Paid]

theorem Paid.of_bucket (same : t.bucket = s.bucket) : Paid rate s t 0 := by
  simp [Paid, same]

theorem Paid.trans {m n : Nat} (first : Paid rate s t m) (rest : Paid rate t u n) :
    Paid rate s u (m + n) := by
  obtain ⟨up, paid⟩ := first
  obtain ⟨up', paid'⟩ := rest
  refine ⟨up.trans up', ?_⟩
  have time : rate.numerator * (u.bucket.highWaterAt - s.bucket.highWaterAt) =
      rate.numerator * (t.bucket.highWaterAt - s.bucket.highWaterAt) +
        rate.numerator * (u.bucket.highWaterAt - t.bucket.highWaterAt) := by
    rw [← Nat.mul_add]
    congr 1
    omega
  rw [Nat.mul_add, time]
  omega

theorem paid_of_refill {now : Nat} (h : t.bucket = s.bucket.refilled rate now) :
    Paid rate s t 0 := by
  simp only [Paid, h, AdmissionBucket.refilled, Nat.mul_zero, Nat.zero_add]
  refine ⟨le_max_right _ _, ?_⟩
  rw [Nat.mul_comm rate.numerator]
  exact min_le_left _ _

theorem apply_covered {op : BucketOp} (h : s.apply rate op = .ok t) (covered : Covered rate s) :
    Covered rate t ∧ Paid rate s t (if op = .spend then 1 else 0) := by
  obtain ⟨limited, valid, enough⟩ := covered
  cases op with
  | refill now =>
    simp only [apply, bind_eq_ok, refillAdmissionBucket_eq_ok, pure_eq_ok] at h
    obtain ⟨_, ⟨-, inRange, rfl⟩, rfl⟩ := h
    exact ⟨⟨limited, valid.refilled inRange, enough.trans (valid.le_refilled now)⟩,
      paid_of_refill rfl⟩
  | offer =>
    simp only [apply, offer, bind_eq_ok, refuse_eq_ok, exists_unit, pure_eq_ok] at h
    obtain ⟨k, capacity, open', rfl⟩ := h
    have room := admissionOfferCapacity_covered limited capacity
    have one : (s.offers + 1) * rate.periodMs ≤ (s.offers + k) * rate.periodMs :=
      Nat.mul_le_mul_right _ (by omega)
    exact ⟨⟨limited, valid, one.trans room⟩, Paid.of_bucket rfl⟩
  | withdraw =>
    simp only [apply, bind_eq_ok, refuse_eq_ok, exists_unit, pure_eq_ok] at h
    obtain ⟨-, rfl⟩ := h
    have fewer : (s.offers - 1) * rate.periodMs ≤ s.offers * rate.periodMs :=
      Nat.mul_le_mul_right _ (Nat.sub_le _ _)
    exact ⟨⟨limited, valid, fewer.trans enough⟩, Paid.of_bucket rfl⟩
  | spend =>
    simp only [apply, spend, bind_eq_ok, refuse_eq_ok, exists_unit, pure_eq_ok,
      spendAdmissionToken_eq_ok] at h
    obtain ⟨some', _, ⟨-, token, rfl⟩, rfl⟩ := h
    have left : (s.offers - 1) * rate.periodMs ≤ s.bucket.credit - rate.periodMs := by
      rw [Nat.sub_mul, Nat.one_mul]
      exact Nat.sub_le_sub_right enough _
    refine ⟨⟨limited, valid.spent, left⟩, ?_⟩
    simp only [Paid, le_refl, if_true, Nat.mul_one, Nat.sub_self, Nat.mul_zero, true_and]
    omega
  | release =>
    simp only [apply, bind_eq_ok, refuse_eq_ok, exists_unit, pure_eq_ok] at h
    obtain ⟨-, rfl⟩ := h
    exact ⟨⟨limited, valid, enough⟩, Paid.of_bucket rfl⟩
  | edit policy now =>
    simp only [apply, edit, bind_eq_ok, refuse_eq_ok, not_not, exists_unit, pure_eq_ok,
      okOr_eq_ok] at h
    obtain ⟨-, kept, _, changed, bucket, rfl, rfl⟩ := h
    rw [kept] at changed
    obtain ⟨-, inRange, rfl⟩ := refillAdmissionBucket_eq_ok.mp (changeAdmissionRate_same changed)
    exact ⟨⟨kept, valid.refilled inRange, by simp⟩, paid_of_refill rfl⟩

theorem run_covered {ops : List BucketOp} (h : s.run rate ops = .ok t) (covered : Covered rate s) :
    Covered rate t ∧ Paid rate s t (spends ops) := by
  induction ops generalizing s with
  | nil =>
    have same : s = t := by simpa [run] using h
    exact same ▸ ⟨covered, Paid.refl⟩
  | cons op ops ih =>
    obtain ⟨m, first, rest⟩ := foldlM_cons_ok.mp h
    obtain ⟨kept, paid⟩ := apply_covered first covered
    obtain ⟨last, paid'⟩ := ih rest kept
    have count : spends (op :: ops) = (if op = .spend then 1 else 0) + spends ops := by
      simp only [spends, List.count_cons, beq_iff_eq]
      omega
    exact ⟨last, count ▸ paid.trans paid'⟩

/-- Whatever is spent between two moments was in the bucket or was refilled meanwhile. -/
theorem Paid.tokens_le {n : Nat} (paid : Paid rate s t n) (valid : s.bucket.Valid rate) :
    n ≤ rate.burst +
      rate.numerator * (t.bucket.highWaterAt - s.bucket.highWaterAt) / rate.periodMs := by
  have positive : 0 < rate.periodMs := valid.supported.2.1.1
  have full : s.bucket.credit ≤ rate.periodMs * rate.burst := valid.credit_le
  have total : n * rate.periodMs ≤ rate.periodMs * rate.burst +
      rate.numerator * (t.bucket.highWaterAt - s.bucket.highWaterAt) := by
    have := paid.2
    rw [Nat.mul_comm n]
    omega
  rw [← Nat.mul_add_div positive]
  exact (Nat.le_div_iff_mul_le positive).mpr total

theorem Covered.spend_eq_ok (covered : Covered rate s) (outstanding : 0 < s.offers) :
    spendAdmissionToken s.bucket rate =
      .ok { s.bucket with credit := s.bucket.credit - rate.periodMs } := by
  have one : 1 * rate.periodMs ≤ s.offers * rate.periodMs := Nat.mul_le_mul_right _ outstanding
  have := covered.covered
  exact spendAdmissionToken_eq_ok.mpr ⟨covered.valid, by omega, rfl⟩

structure Fresh (rate : ResourceRate) (s : RatedResource) : Prop where
  limited : s.policy.rate = some rate
  accepted : s.bucket.validate rate = .ok ()
  unoffered : s.offers = 0

theorem Fresh.covered (fresh : Fresh rate s) : Covered rate s where
  limited := fresh.limited
  valid := by simpa using fresh.accepted
  covered := by simp [fresh.unoffered]

/-- The rate bounds the starts of every run, whatever the clock does. -/
theorem starts_within_rate {start : RatedResource} (fresh : Fresh rate start)
    (before between : List BucketOp) (reached : start.run rate before = .ok s)
    (later : s.run rate between = .ok t) :
    (0 < s.offers → ∃ bucket, spendAdmissionToken s.bucket rate = .ok bucket) ∧
      s.offers * rate.periodMs ≤ s.bucket.credit ∧
      s.bucket.credit ≤ rate.periodMs * rate.burst ∧
      s.bucket.highWaterAt ≤ t.bucket.highWaterAt ∧
      spends between ≤ rate.burst +
        rate.numerator * (t.bucket.highWaterAt - s.bucket.highWaterAt) / rate.periodMs := by
  have covered := (run_covered reached fresh.covered).1
  have paid := (run_covered later covered).2
  exact ⟨fun outstanding => ⟨_, covered.spend_eq_ok outstanding⟩, covered.covered,
    covered.valid.credit_le, paid.1, paid.tokens_le covered.valid⟩

def sampleRate : ResourceRate := ⟨1, 1000, 2⟩

def sampleResource : RatedResource where
  policy := ⟨true, 5, some sampleRate, 1000, 1000, none⟩
  bucket := ⟨2000, 0⟩
  offers := 0
  started := 0

/-- The burst is spent, the clock falls back, and only a full second later a third start is due. -/
theorem third_start_waits : ∃ s t,
    sampleResource.run sampleRate [.offer, .offer, .spend] = .ok s ∧
      s.run sampleRate [.spend, .refill 700, .refill 200, .refill 1000, .offer, .spend] = .ok t ∧
      spends [.spend, .refill 700, .refill 200, .refill 1000, .offer, .spend] ≤
        2 + 1 * (t.bucket.highWaterAt - s.bucket.highWaterAt) / 1000 := by
  refine ⟨_, _, rfl, rfl, ?_⟩
  have fresh : Fresh sampleRate sampleResource := ⟨rfl, rfl, rfl⟩
  have bound := starts_within_rate fresh [.offer, .offer, .spend]
    [.spend, .refill 700, .refill 200, .refill 1000, .offer, .spend] rfl rfl
  exact bound.2.2.2.2

end RatedResource
end Ledgence
