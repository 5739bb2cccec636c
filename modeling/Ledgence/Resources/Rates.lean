import Ledgence.Core.Admission
import Mathlib.Data.Rat.Cast.Order
import Mathlib.Data.Nat.Cast.Order.Field
import Mathlib.Tactic.Positivity
import Mathlib.Tactic.FieldSimp

/-! Refills in any order, and changes of the rate. -/
open Kit Kit.Checked

namespace Ledgence

/- Refills. -/

namespace AdmissionBucket
variable {bucket : AdmissionBucket} {rate : ResourceRate} {s t : Nat} {times : List Nat}

theorem refilled_refilled (valid : bucket.Valid rate) :
    (bucket.refilled rate s).refilled rate t = bucket.refilled rate (max s t) := by
  have split : (max (max s t) bucket.highWaterAt - bucket.highWaterAt) * rate.numerator =
      (max s bucket.highWaterAt - bucket.highWaterAt) * rate.numerator +
        (max t (max s bucket.highWaterAt) - max s bucket.highWaterAt) * rate.numerator := by
    rw [← Nat.add_mul]
    congr 1
    omega
  have := valid.credit_le
  simp only [refilled, split, AdmissionBucket.mk.injEq]
  omega

theorem refilled_of_le (valid : bucket.Valid rate) (past : t ≤ bucket.highWaterAt) :
    bucket.refilled rate t = bucket := by
  have credit : min bucket.credit rate.capacity = bucket.credit := min_eq_left valid.credit_le
  rw [refilled, max_eq_right past, Nat.sub_self, Nat.zero_mul, Nat.add_zero, credit]

/-- The bucket after the refills of `times`. -/
def refilledAll (bucket : AdmissionBucket) (rate : ResourceRate) (times : List Nat) :
    Result AdmissionBucket :=
  times.foldlM (fun b t => refillAdmissionBucket b rate t) bucket

theorem refilledAll_eq (valid : bucket.Valid rate) (inRange : ∀ t ∈ times, t ≤ maxTimestamp) :
    bucket.refilledAll rate times = .ok (bucket.refilled rate (times.foldl max 0)) := by
  induction times generalizing bucket with
  | nil => rw [List.foldl_nil, refilled_of_le valid (Nat.zero_le _)]; rfl
  | cons t times ih =>
    have first : refillAdmissionBucket bucket rate t = .ok (bucket.refilled rate t) :=
      refillAdmissionBucket_eq_ok.mpr ⟨valid, inRange t (by simp), rfl⟩
    have rest := ih (valid.refilled (inRange t (by simp))) fun u mem => inRange u (by simp [mem])
    have latest : times.foldl max (max 0 t) = max t (times.foldl max 0) := by
      rw [Nat.max_comm, List.foldl_assoc]
    rw [refilledAll, List.foldlM_cons, first, ok_bind, ← refilledAll, rest, List.foldl_cons, latest,
      refilled_refilled valid]

/-- Refills at any times, in any order, are one refill at the latest of them: the credit that the
whole time adds, up to the burst. -/
theorem refill_path_independent (bucket : AdmissionBucket) (rate : ResourceRate)
    (times : List Nat) (accepted : bucket.validate rate = .ok ())
    (inRange : ∀ t ∈ times, t ≤ maxTimestamp) :
    bucket.refilledAll rate times = .ok {
      credit := min rate.capacity (bucket.credit +
        rate.numerator * (times.foldl max bucket.highWaterAt - bucket.highWaterAt))
      highWaterAt := times.foldl max bucket.highWaterAt } ∧
    ∀ latest, times.max? = some latest →
      refillAdmissionBucket bucket rate latest = bucket.refilledAll rate times := by
  have valid := validate_eq_ok.mp accepted
  have all := refilledAll_eq valid inRange
  have start : max (times.foldl max 0) bucket.highWaterAt = times.foldl max bucket.highWaterAt := by
    have joined : times.foldl max (max bucket.highWaterAt 0) =
        max bucket.highWaterAt (times.foldl max 0) := List.foldl_assoc
    rw [Nat.max_comm, ← joined, Nat.max_zero]
  constructor
  · rw [all, refilled, start, Nat.min_comm, Nat.mul_comm rate.numerator]
  · intro latest last
    have same : times.foldl max 0 = latest := by
      cases times with
      | nil => simp at last
      | cons t times =>
        rw [List.max?_cons', Option.some.injEq] at last
        rw [List.foldl_cons, Nat.zero_max, last]
    rw [all, same]
    exact refillAdmissionBucket_eq_ok.mpr ⟨valid, inRange latest (List.max?_mem last), rfl⟩

/-- A second's credit, then the clock falls back, then it jumps far ahead. -/
theorem refill_after_rollback :
    refillAdmissionBucket ⟨0, 1000⟩ ⟨1, 1000, 2⟩ 900000 =
      AdmissionBucket.refilledAll ⟨0, 1000⟩ ⟨1, 1000, 2⟩ [2000, 500, 900000, 2000] :=
  (refill_path_independent ⟨0, 1000⟩ ⟨1, 1000, 2⟩ [2000, 500, 900000, 2000] rfl
    (by decide)).2 900000 rfl

end AdmissionBucket

/- Changes of the rate. -/

structure RatedBucket where
  bucket : AdmissionBucket
  rate : ResourceRate

def RatedBucket.tokens (s : RatedBucket) : ℚ :=
  s.bucket.credit / s.rate.periodMs

def tokensOf (s : Option RatedBucket) : ℚ :=
  (s.map RatedBucket.tokens).getD 0

inductive RateOp where
  | refill (now : Nat)
  | change (rate : Option ResourceRate) (now : Nat)

namespace RateOp

def apply (s : Option RatedBucket) : RateOp → Result (Option RatedBucket)
  | .refill now =>
    match s with
    | none => .ok none
    | some s => do
      let bucket ← refillAdmissionBucket s.bucket s.rate now
      return some ⟨bucket, s.rate⟩
  | .change rate now => do
    let bucket ← changeAdmissionRate (s.map RatedBucket.bucket) (s.map RatedBucket.rate) rate now
    return bucket.bind fun bucket => rate.map fun rate => ⟨bucket, rate⟩

def Admitted : RateOp → Prop
  | .refill now => now ≤ maxTimestamp
  | .change rate now => now ≤ maxTimestamp ∧ ∀ r, rate = some r → r.validate = .ok ()

def run (s : Option RatedBucket) (ops : List RateOp) : Result (Option RatedBucket) :=
  ops.foldlM apply s

end RateOp

namespace RatedBucket
variable {s : RatedBucket} {rate : ResourceRate} {now : Nat}

def Valid (s : RatedBucket) : Prop :=
  s.bucket.Valid s.rate

/-- What the old rate has given until `now`. -/
def refilled (s : RatedBucket) (now : Nat) : RatedBucket :=
  ⟨s.bucket.refilled s.rate now, s.rate⟩

/-- The same tokens under another rate, up to its burst and rounded down. -/
def converted (s : RatedBucket) (rate : ResourceRate) : RatedBucket :=
  ⟨⟨min (s.bucket.credit * rate.periodMs / s.rate.periodMs) rate.capacity, s.bucket.highWaterAt⟩,
    rate⟩

theorem Valid.refilled (valid : s.Valid) (inRange : now ≤ maxTimestamp) : (s.refilled now).Valid :=
  AdmissionBucket.Valid.refilled valid inRange

theorem Valid.converted (valid : s.Valid) (supported : rate.Supported) :
    (s.converted rate).Valid :=
  ⟨supported, valid.inRange, min_le_right _ _⟩

theorem Valid.fits (valid : s.Valid) (supported : rate.Supported) :
    s.bucket.credit * rate.periodMs < 2 ^ 128 ∧ (s.converted rate).bucket.credit ≤ u64Max := by
  have credit := valid.credit_le
  have old := valid.supported.capacity_le
  have product : s.bucket.credit * rate.periodMs ≤ 86400000 * 1000000 * 86400000 :=
    Nat.mul_le_mul (credit.trans old) supported.2.1.2
  have capped : (s.converted rate).bucket.credit ≤ rate.capacity := min_le_right _ _
  have new := supported.capacity_le
  simp only [u64Max]
  omega

theorem Valid.period_pos (valid : s.Valid) : (0 : ℚ) < s.rate.periodMs :=
  Nat.cast_pos.mpr valid.supported.2.1.1

theorem Valid.tokens_converted_le (valid : s.Valid) (supported : rate.Supported) :
    (s.converted rate).tokens ≤ s.tokens := by
  have period : (0 : ℚ) < rate.periodMs := Nat.cast_pos.mpr supported.2.1.1
  have rounded : (((s.converted rate).bucket.credit : ℕ) : ℚ) ≤
      (s.bucket.credit * rate.periodMs : ℕ) / (s.rate.periodMs : ℕ) :=
    (Nat.cast_le.mpr (min_le_left _ _)).trans Nat.cast_div_le
  have old := valid.period_pos
  change ((s.converted rate).bucket.credit : ℚ) / rate.periodMs ≤ s.bucket.credit / s.rate.periodMs
  rw [div_le_div_iff₀ period old]
  rw [le_div_iff₀ old] at rounded
  push_cast at rounded
  exact rounded

theorem Valid.tokens_le_burst (valid : s.Valid) : s.tokens ≤ s.rate.burst := by
  rw [tokens, div_le_iff₀ valid.period_pos]
  have capped : s.bucket.credit ≤ s.rate.burst * s.rate.periodMs := by
    rw [Nat.mul_comm]
    exact valid.credit_le
  exact_mod_cast capped

end RatedBucket

namespace RateOp
variable {s t : Option RatedBucket} {op : RateOp} {rate : Option ResourceRate} {now : Nat}

def Sound (s : Option RatedBucket) : Prop :=
  ∀ b, s = some b → b.Valid

def result (s : Option RatedBucket) : RateOp → Option RatedBucket
  | .refill now => s.map fun b => b.refilled now
  | .change rate now => rate.map fun rate =>
    match s with
    | none => ⟨⟨0, now⟩, rate⟩
    | some b => (b.refilled now).converted rate

theorem changeAdmissionRate_some {b : RatedBucket} (valid : b.Valid) (inRange : now ≤ maxTimestamp)
    (admitted : ∀ r, rate = some r → r.validate = .ok ()) :
    changeAdmissionRate (some b.bucket) (some b.rate) rate now =
      .ok (rate.map fun rate => ((b.refilled now).converted rate).bucket) := by
  have refilled : refillAdmissionBucket b.bucket b.rate now = .ok (b.refilled now).bucket :=
    refillAdmissionBucket_eq_ok.mpr ⟨valid, inRange, rfl⟩
  simp only [changeAdmissionRate, bind_eq_ok, exists_unit, admissionTime_eq_ok, pure_eq_ok]
  refine ⟨inRange, _, refilled, _, rfl, ?_⟩
  cases rate with
  | none => rfl
  | some rate =>
    have accepted := admitted rate rfl
    have fits := ((valid.refilled inRange).fits (ResourceRate.validate_eq_ok.mp accepted)).2
    simp only [bind_eq_ok, exists_unit]
    exact ⟨accepted, refuse_eq_ok.mpr (Nat.not_lt.mpr fits), rfl⟩

theorem changeAdmissionRate_none (inRange : now ≤ maxTimestamp)
    (admitted : ∀ r, rate = some r → r.validate = .ok ()) :
    changeAdmissionRate none none rate now = .ok (rate.map fun _ => ⟨0, now⟩) := by
  simp only [changeAdmissionRate, bind_eq_ok, exists_unit, admissionTime_eq_ok, pure_eq_ok]
  refine ⟨inRange, none, rfl, ?_⟩
  cases rate with
  | none => rfl
  | some rate =>
    simp only [bind_eq_ok, exists_unit, pure_eq_ok]
    exact ⟨admitted rate rfl, rfl⟩

theorem apply_eq (sound : Sound s) (admitted : op.Admitted) : op.apply s = .ok (op.result s) := by
  cases op with
  | refill now =>
    cases s with
    | none => rfl
    | some b =>
      have refilled : refillAdmissionBucket b.bucket b.rate now = .ok (b.refilled now).bucket :=
        refillAdmissionBucket_eq_ok.mpr ⟨sound b rfl, admitted, rfl⟩
      simp only [apply, bind_eq_ok, pure_eq_ok]
      exact ⟨_, refilled, rfl⟩
  | change rate now =>
    obtain ⟨inRange, valid⟩ := admitted
    cases s with
    | none =>
      simp only [apply, Option.map_none, changeAdmissionRate_none inRange valid, ok_bind, result]
      cases rate <;> rfl
    | some b =>
      simp only [apply, Option.map_some, changeAdmissionRate_some (sound b rfl) inRange valid,
        ok_bind, result]
      cases rate <;> rfl

theorem result_sound (sound : Sound s) (admitted : op.Admitted) : Sound (op.result s) := by
  cases op with
  | refill now =>
    intro b given
    obtain ⟨a, rfl, rfl⟩ := Option.map_eq_some_iff.mp given
    exact (sound a rfl).refilled admitted
  | change rate now =>
    obtain ⟨inRange, valid⟩ := admitted
    intro b given
    obtain ⟨r, rfl, rfl⟩ := Option.map_eq_some_iff.mp given
    have supported := ResourceRate.validate_eq_ok.mp (valid r rfl)
    cases s with
    | none => exact ⟨supported, inRange, Nat.zero_le _⟩
    | some a => exact ((sound a rfl).refilled inRange).converted supported

theorem run_eq {ops : List RateOp} (sound : Sound s) (admitted : ∀ op ∈ ops, op.Admitted) :
    ∃ t, run s ops = .ok t ∧ Sound t := by
  induction ops generalizing s with
  | nil => exact ⟨s, rfl, sound⟩
  | cons op ops ih =>
    have first := admitted op (by simp)
    obtain ⟨t, rest, last⟩ := ih (result_sound sound first) fun o mem => admitted o (by simp [mem])
    exact ⟨t, by rw [run, List.foldlM_cons, apply_eq sound first]; exact rest, last⟩

/-- A change gives at most the tokens that the old rate had given until then. -/
theorem tokens_change_le (sound : Sound s) (admitted : (change rate now).Admitted) :
    tokensOf ((change rate now).result s) ≤ tokensOf ((refill now).result s) := by
  obtain ⟨inRange, valid⟩ := admitted
  cases rate with
  | none =>
    cases s with
    | none => exact le_refl 0
    | some b =>
      simp only [result, tokensOf, Option.map_none, Option.getD_none, Option.map_some,
        Option.getD_some, RatedBucket.tokens]
      positivity
  | some rate =>
    cases s with
    | none => simp [result, tokensOf, RatedBucket.tokens]
    | some b =>
      exact ((sound b rfl).refilled inRange).tokens_converted_le
        (ResourceRate.validate_eq_ok.mp (valid rate rfl))

theorem refill_change (sound : Sound s) (admitted : (change rate now).Admitted) :
    (refill now).result ((change rate now).result s) = (change rate now).result s := by
  have after := result_sound sound admitted
  cases held : (change rate now).result s with
  | none => rfl
  | some b =>
    have later : now ≤ b.bucket.highWaterAt := by
      obtain ⟨r, rfl, rfl⟩ := Option.map_eq_some_iff.mp held
      cases s with
      | none => exact le_rfl
      | some a => exact le_max_left _ _
    have same := AdmissionBucket.refilled_of_le (after b held) later
    simp only [result, Option.map_some, RatedBucket.refilled, same]

/-- However often the rate changes at one instant, no tokens are gained. -/
theorem tokens_changes_le (sound : Sound s) {rates : List (Option ResourceRate)}
    (admitted : ∀ rate ∈ rates, (change rate now).Admitted)
    (done : run s (rates.map fun rate => change rate now) = .ok t) (changed : rates ≠ []) :
    tokensOf t ≤ tokensOf ((refill now).result s) := by
  induction rates generalizing s with
  | nil => exact absurd rfl changed
  | cons rate rates ih =>
    have first := admitted rate (by simp)
    have less := tokens_change_le sound first
    rw [List.map_cons, run, List.foldlM_cons, apply_eq sound first, ok_bind, ← run] at done
    cases rates with
    | nil =>
      obtain rfl : (change rate now).result s = t := by simpa [run, pure_eq_ok] using done
      exact less
    | cons next rates =>
      have rest := ih (result_sound sound first) (fun r mem => admitted r (by simp [mem])) done
        (by simp)
      rw [refill_change sound first] at rest
      exact rest.trans less

theorem highWater_le (op : RateOp) {b c : RatedBucket} (given : op.result (some b) = some c) :
    b.bucket.highWaterAt ≤ c.bucket.highWaterAt := by
  cases op with
  | refill now =>
    obtain rfl : b.refilled now = c := by simpa [result] using given
    exact le_max_right _ _
  | change rate now =>
    obtain ⟨r, rfl, rfl⟩ := Option.map_eq_some_iff.mp given
    exact le_max_right _ _

/-- Back at the old rate there is no more credit than that rate had given. -/
theorem credit_back_le {b c : RatedBucket} (valid : b.Valid)
    {rates : List (Option ResourceRate)} (admitted : ∀ rate ∈ rates, (change rate now).Admitted)
    (done : run (some b) (rates.map fun rate => change rate now) = .ok (some c))
    (back : c.rate = b.rate) : c.bucket.credit ≤ (b.refilled now).bucket.credit := by
  have sound : Sound (some b) := fun a given => Option.some.inj given ▸ valid
  by_cases changed : rates = []
  · subst changed
    obtain rfl : b = c := by simpa [run, pure_eq_ok] using done
    exact valid.le_refilled now
  · have tokens : c.tokens ≤ (b.refilled now).tokens := tokens_changes_le sound admitted done changed
    rw [RatedBucket.tokens, RatedBucket.tokens, back] at tokens
    exact Nat.cast_le.mp ((div_le_div_iff_of_pos_right valid.period_pos).mp tokens)

/-- Whatever refills and changes came before, no further change mints credit or is refused. -/
theorem rate_changes_mint_nothing (start : Option RatedBucket) (ops : List RateOp)
    (valid : ∀ b, start = some b → b.bucket.validate b.rate = .ok ())
    (admitted : ∀ op ∈ ops, op.Admitted) :
    ∃ s, run start ops = .ok s ∧ ∀ rate now, (change rate now).Admitted →
      ∃ refilled changed, (refill now).apply s = .ok refilled ∧
        (change rate now).apply s = .ok changed ∧
        tokensOf changed ≤ tokensOf refilled ∧
        (∀ c, changed = some c → rate = some c.rate ∧ c.bucket.validate c.rate = .ok () ∧
          c.tokens ≤ c.rate.burst) ∧
        (∀ b, s = some b → (∀ a, refilled = some a → b.bucket.highWaterAt ≤ a.bucket.highWaterAt) ∧
          ∀ c, changed = some c → b.bucket.highWaterAt ≤ c.bucket.highWaterAt) ∧
        (∀ a r, refilled = some a → rate = some r → a.bucket.credit * r.periodMs < 2 ^ 128 ∧
          min (a.bucket.credit * r.periodMs / a.rate.periodMs) r.capacity ≤ u64Max) ∧
        ∀ b a (rates : List (Option ResourceRate)) c, s = some b → refilled = some a →
          (∀ rate ∈ rates, (change rate now).Admitted) →
          run s (rates.map fun rate => change rate now) = .ok (some c) → c.rate = b.rate →
            c.bucket.credit ≤ a.bucket.credit ∧
              (now ≤ b.bucket.highWaterAt → c.bucket.credit ≤ b.bucket.credit) := by
  obtain ⟨s, done, sound⟩ := run_eq (fun b given => AdmissionBucket.validate_eq_ok.mp
    (valid b given)) admitted
  refine ⟨s, done, fun rate now change_ => ?_⟩
  have refill_ : (refill now).Admitted := change_.1
  refine ⟨_, _, apply_eq sound refill_, apply_eq sound change_, tokens_change_le sound change_,
    fun c given => ?_, ?_, ?_, ?_⟩
  · have after := result_sound sound change_ c given
    obtain ⟨r, rfl, rfl⟩ := Option.map_eq_some_iff.mp given
    refine ⟨?_, AdmissionBucket.validate_eq_ok.mpr after, after.tokens_le_burst⟩
    cases s <;> rfl
  · rintro b rfl
    exact ⟨fun a given => highWater_le _ given, fun c given => highWater_le _ given⟩
  · rintro a r given rfl
    have supported := ResourceRate.validate_eq_ok.mp (change_.2 r rfl)
    exact (result_sound sound refill_ a given).fits supported
  · rintro b a rates c rfl given all back same
    obtain rfl : b.refilled now = a := by simpa [result] using given
    have less := credit_back_le (sound b rfl) all back same
    refine ⟨less, fun past => ?_⟩
    have still : (b.refilled now).bucket = b.bucket :=
      AdmissionBucket.refilled_of_le (sound b rfl) past
    exact still ▸ less

/-- Half the burst is spent, and the rate goes away and comes back. -/
theorem sample_changes : ∃ s, run (some ⟨⟨1000, 0⟩, ⟨1, 1000, 2⟩⟩)
      [.change (some ⟨2, 3000, 5⟩) 0, .refill 500, .change none 700, .change (some ⟨7, 900, 1⟩) 800] =
        .ok s ∧ ∃ refilled changed, (refill 900).apply s = .ok refilled ∧
      (change (some ⟨1, 1000, 2⟩) 900).apply s = .ok changed ∧
      tokensOf changed ≤ tokensOf refilled := by
  obtain ⟨s, done, further⟩ := rate_changes_mint_nothing (some ⟨⟨1000, 0⟩, ⟨1, 1000, 2⟩⟩)
    [.change (some ⟨2, 3000, 5⟩) 0, .refill 500, .change none 700, .change (some ⟨7, 900, 1⟩) 800]
    (by rintro b ⟨⟩; rfl) (by simp [Admitted]; decide)
  obtain ⟨refilled, changed, refill_, change_, less, -⟩ :=
    further (some ⟨1, 1000, 2⟩) 900 (by simp [Admitted]; decide)
  exact ⟨s, done, refilled, changed, refill_, change_, less⟩

end RateOp

end Ledgence
