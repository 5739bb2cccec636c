import Ledgence.Resources.Rates
import Mathlib.Order.Bounds.Basic

/-! The moment of the next refill that makes one more offer possible. -/
open Kit Kit.Checked

namespace Ledgence

section Wakes
variable {policy : ResourcePolicy} {rate : ResourceRate} {bucket : AdmissionBucket}
  {offered occupied now t : Nat}

/-- Time alone has made one more offer possible by `t`. -/
def OpenAt (policy : ResourcePolicy) (rate : ResourceRate) (bucket : AdmissionBucket)
    (offered occupied t : Nat) : Prop :=
  policy.enabled = true ∧ occupied < policy.maxOccupancy ∧
    (offered + 1) * rate.periodMs ≤ (bucket.refilled rate t).credit

/-- A pause, a full resource and a burst that is all offered last whatever the time. -/
def Blocked (policy : ResourcePolicy) (rate : ResourceRate) (offered occupied : Nat) : Prop :=
  policy.enabled = false ∨ policy.maxOccupancy ≤ occupied ∨ rate.burst ≤ offered

instance : Decidable (Blocked policy rate offered occupied) :=
  inferInstanceAs (Decidable (_ ∨ _ ∨ _))

theorem Blocked.not_open (blocked : Blocked policy rate offered occupied)
    (supported : rate.Supported) : ¬ OpenAt policy rate bucket offered occupied t := by
  rintro ⟨enabled, room, enough⟩
  obtain paused | full | exhausted := blocked
  · simp [enabled] at paused
  · omega
  · have capped : (bucket.refilled rate t).credit ≤ rate.capacity := min_le_right _ _
    have all : rate.capacity ≤ offered * rate.periodMs := by
      rw [ResourceRate.capacity, Nat.mul_comm]
      exact Nat.mul_le_mul_right _ exhausted
    have period := supported.2.1.1
    rw [Nat.add_mul] at enough
    omega

/-- Offers that are covered stay covered, and the capacity is positive when one more is. -/
theorem admissionOfferCapacity_open (valid : policy.validate = .ok ())
    (limited : policy.rate = some rate) (held : bucket.Valid rate) (offers : offered ≤ occupied)
    (covered : offered ≤ bucket.credit / rate.periodMs) (inRange : t ≤ maxTimestamp) :
    ∃ k, admissionOfferCapacity policy (some (bucket.refilled rate t)) offered occupied = .ok k ∧
      (0 < k ↔ OpenAt policy rate bucket offered occupied t) := by
  have later := held.refilled inRange
  have period : 0 < rate.periodMs := held.supported.2.1.1
  have kept : offered ≤ (bucket.refilled rate t).credit / rate.periodMs :=
    covered.trans (Nat.div_le_div_right (held.le_refilled t))
  have more : (offered + 1) * rate.periodMs ≤ (bucket.refilled rate t).credit ↔
      offered < (bucket.refilled rate t).credit / rate.periodMs :=
    (Nat.le_div_iff_mul_le period).symm
  have byRate : rateCapacity policy (some (bucket.refilled rate t)) offered =
      .ok ((bucket.refilled rate t).credit / rate.periodMs - offered) := by
    simp only [rateCapacity, limited, bind_eq_ok, exists_unit, AdmissionBucket.validate_eq_ok,
      refuse_eq_ok, not_lt, pure_eq_ok]
    exact ⟨later, kept, trivial⟩
  simp only [admissionOfferCapacity, bind_eq_ok, exists_unit, refuse_eq_ok, not_lt, byRate,
    Except.ok.injEq, exists_eq_left']
  rw [OpenAt, more]
  by_cases paused : policy.enabled = false
  · exact ⟨0, ⟨valid, offers, by rw [if_pos paused]; rfl⟩, by simp [paused]⟩
  · have small : min (policy.maxOccupancy - occupied)
        ((bucket.refilled rate t).credit / rate.periodMs - offered) ≤ u32Max := by
      simp only [ResourcePolicy.validate, bind_eq_ok, exists_unit, refuse_eq_ok, not_or,
        not_not] at valid
      have := valid.1.1.2
      simp only [u32Max]
      omega
    refine ⟨min (policy.maxOccupancy - occupied)
      ((bucket.refilled rate t).credit / rate.periodMs - offered), ⟨valid, offers, ?_⟩, ?_⟩
    · rw [if_neg paused]
      simp only [bind_eq_ok, exists_unit, refuse_eq_ok, not_lt, pure_eq_ok]
      exact ⟨small, trivial⟩
    · simp only [Bool.not_eq_false] at paused
      simp only [paused, true_and]
      omega

theorem nextAdmissionRefill_eq (valid : policy.validate = .ok ())
    (limited : policy.rate = some rate) (held : bucket.Valid rate) (offers : offered ≤ occupied)
    (covered : offered ≤ bucket.credit / rate.periodMs) (inRange : now ≤ maxTimestamp) :
    nextAdmissionRefill policy (some bucket) offered occupied now =
      if Blocked policy rate offered occupied then .ok none
      else
        let refilled := bucket.refilled rate now
        let required := (offered + 1) * rate.periodMs
        if required ≤ refilled.credit then .ok (some now)
        else do
          let due ← okOr (checkedAdd u64Max refilled.highWaterAt
            (divCeil (required - refilled.credit) rate.numerator))
            (invalid "admission due time overflow")
          admissionTime due
          return some due := by
  have refilled : refillAdmissionBucket bucket rate now = .ok (bucket.refilled rate now) :=
    refillAdmissionBucket_eq_ok.mpr ⟨held, inRange, rfl⟩
  obtain ⟨k, capacity, -⟩ := admissionOfferCapacity_open valid limited held offers covered inRange
  have timely : admissionTime now = .ok () := admissionTime_eq_ok.mpr inRange
  have fewer : refuse (occupied < offered) (invalid "offered occupancy exceeds total") = .ok () :=
    refuse_eq_ok.mpr (Nat.not_lt.mpr offers)
  unfold nextAdmissionRefill
  simp only [valid, timely, fewer, limited, refilled, capacity, ok_bind]
  rfl

/-- Under a rate that can cover one more offer, the wait ends when its credit is there. -/
theorem open_iff_due_le (held : bucket.Valid rate) (later : now ≤ t)
    (able : ¬ Blocked policy rate offered occupied)
    (waiting : (bucket.refilled rate now).credit < (offered + 1) * rate.periodMs) :
    OpenAt policy rate bucket offered occupied t ↔
      (bucket.refilled rate now).highWaterAt + divCeil
        ((offered + 1) * rate.periodMs - (bucket.refilled rate now).credit) rate.numerator ≤ t := by
  simp only [Blocked, not_or, Bool.not_eq_false, not_le] at able
  obtain ⟨enabled, room, burst⟩ := able
  have again : bucket.refilled rate t = (bucket.refilled rate now).refilled rate t := by
    rw [AdmissionBucket.refilled_refilled held, max_eq_right later]
  have fits : (offered + 1) * rate.periodMs ≤ rate.capacity := by
    rw [ResourceRate.capacity, Nat.mul_comm rate.periodMs]
    exact Nat.mul_le_mul_right _ burst
  have wait := divCeil_le_iff (a := (offered + 1) * rate.periodMs - (bucket.refilled rate now).credit)
    (c := t - (bucket.refilled rate now).highWaterAt) held.supported.1.1
  have some' : 0 < divCeil ((offered + 1) * rate.periodMs - (bucket.refilled rate now).credit)
      rate.numerator := by
    by_contra none'
    have covered := (divCeil_le_iff held.supported.1.1).mp (Nat.le_of_not_lt none')
    omega
  have elapsed : max t (bucket.refilled rate now).highWaterAt -
      (bucket.refilled rate now).highWaterAt = t - (bucket.refilled rate now).highWaterAt := by
    omega
  have credit : (bucket.refilled rate t).credit = min ((bucket.refilled rate now).credit +
      (t - (bucket.refilled rate now).highWaterAt) * rate.numerator) rate.capacity := by
    rw [again, AdmissionBucket.refilled, elapsed]
  simp only [OpenAt, enabled, room, true_and, credit]
  omega

/-- The announced moment is the first at which time alone makes one more offer possible. -/
theorem next_admission_refill_exact (policy : ResourcePolicy) (rate : ResourceRate)
    (bucket : AdmissionBucket) (offered occupied now : Nat) (valid : policy.validate = .ok ())
    (limited : policy.rate = some rate) (held : bucket.validate rate = .ok ())
    (offers : offered ≤ occupied) (covered : offered ≤ bucket.credit / rate.periodMs)
    (inRange : now ≤ maxTimestamp) :
    (∀ t, t ≤ maxTimestamp → ∃ refilled k, refillAdmissionBucket bucket rate t = .ok refilled ∧
      admissionOfferCapacity policy (some refilled) offered occupied = .ok k ∧
      (0 < k ↔ OpenAt policy rate bucket offered occupied t)) ∧
    (nextAdmissionRefill policy (some bucket) offered occupied now = .ok none ↔
      ∀ t, now ≤ t → ¬ OpenAt policy rate bucket offered occupied t) ∧
    (∀ d, nextAdmissionRefill policy (some bucket) offered occupied now = .ok (some d) ↔
      d ≤ maxTimestamp ∧ IsLeast {t | now ≤ t ∧ OpenAt policy rate bucket offered occupied t} d) ∧
    ∀ d, IsLeast {t | now ≤ t ∧ OpenAt policy rate bucket offered occupied t} d →
      maxTimestamp < d →
        ∃ e, nextAdmissionRefill policy (some bucket) offered occupied now = .error e := by
  have good := AdmissionBucket.validate_eq_ok.mp held
  have next := nextAdmissionRefill_eq valid limited good offers covered inRange
  refine ⟨fun t timely => ?_, ?_⟩
  · obtain ⟨k, capacity, positive⟩ :=
      admissionOfferCapacity_open valid limited good offers covered timely
    exact ⟨_, k, refillAdmissionBucket_eq_ok.mpr ⟨good, timely, rfl⟩, capacity, positive⟩
  by_cases blocked : Blocked policy rate offered occupied
  · have never : ∀ t, ¬ OpenAt policy rate bucket offered occupied t :=
      fun t => blocked.not_open good.supported
    have none' : ∀ d, ¬ IsLeast {t | now ≤ t ∧ OpenAt policy rate bucket offered occupied t} d :=
      fun d least => never d least.1.2
    rw [if_pos blocked] at next
    rw [next]
    exact ⟨by simp [never], by simp [none'], fun d least => absurd least (none' d)⟩
  rw [if_neg blocked] at next
  by_cases ready : (offered + 1) * rate.periodMs ≤ (bucket.refilled rate now).credit
  · have least : IsLeast {t | now ≤ t ∧ OpenAt policy rate bucket offered occupied t} now := by
      simp only [Blocked, not_or, Bool.not_eq_false, not_le] at blocked
      exact ⟨⟨le_rfl, blocked.1, blocked.2.1, ready⟩, fun t mem => mem.1⟩
    simp only [if_pos ready] at next
    rw [next]
    refine ⟨by simpa using ⟨now, le_rfl, least.1.2⟩, fun d => ⟨?_, fun ⟨_, other⟩ => ?_⟩,
      fun d other late => ?_⟩
    · rintro ⟨⟩
      exact ⟨inRange, least⟩
    · rw [least.unique other]
    · rw [← least.unique other] at late
      omega
  · simp only [if_neg ready] at next
    have opens : ∀ t, now ≤ t → (OpenAt policy rate bucket offered occupied t ↔ _ ≤ t) :=
      fun t later => open_iff_due_le good later blocked (Nat.lt_of_not_le ready)
    generalize arrival : (bucket.refilled rate now).highWaterAt + divCeil
      ((offered + 1) * rate.periodMs - (bucket.refilled rate now).credit) rate.numerator = due
      at opens
    have later : now ≤ due := by
      have : now ≤ (bucket.refilled rate now).highWaterAt := le_max_left _ _
      omega
    have least : IsLeast {t | now ≤ t ∧ OpenAt policy rate bucket offered occupied t} due :=
      ⟨⟨later, (opens due later).mpr le_rfl⟩, fun t mem => (opens t mem.1).mp mem.2⟩
    by_cases late : maxTimestamp < due
    · have refused : ∃ e, nextAdmissionRefill policy (some bucket) offered occupied now =
          .error e := by
        rw [next, checkedAdd, arrival]
        by_cases fits : due ≤ u64Max
        · exact ⟨_, by rw [if_pos fits, okOr, ok_bind, admissionTime, refuse, if_pos late]; rfl⟩
        · exact ⟨_, by rw [if_neg fits]; rfl⟩
      obtain ⟨e, refused⟩ := refused
      rw [refused]
      refine ⟨by simpa using ⟨due, later, least.1.2⟩, fun d => ⟨by simp, fun ⟨timely, other⟩ => ?_⟩,
        fun d _ _ => ⟨e, rfl⟩⟩
      rw [least.unique other] at late
      omega
    · have fits : due ≤ u64Max := by
        simp only [maxTimestamp, u64Max] at late ⊢
        omega
      have found : nextAdmissionRefill policy (some bucket) offered occupied now =
          .ok (some due) := by
        rw [next, checkedAdd, arrival, if_pos fits, okOr, ok_bind, admissionTime, refuse,
          if_neg late]
        rfl
      rw [found]
      refine ⟨by simpa using ⟨due, later, least.1.2⟩, fun d => ⟨?_, fun ⟨_, other⟩ => ?_⟩,
        fun d other beyond => ?_⟩
      · rintro ⟨⟩
        exact ⟨Nat.le_of_not_lt late, least⟩
      · rw [least.unique other]
      · rw [← least.unique other] at beyond
        exact absurd beyond late

/-- One token is offered of a burst of two, and the second one is half a second away. -/
theorem sample_next_refill :
    nextAdmissionRefill ⟨true, 5, some ⟨1, 1000, 2⟩, 1000, 1000, none⟩ (some ⟨1500, 700⟩) 1 2 400 =
      .ok (some 1200) ∧
    IsLeast {t | 400 ≤ t ∧ OpenAt ⟨true, 5, some ⟨1, 1000, 2⟩, 1000, 1000, none⟩ ⟨1, 1000, 2⟩
      ⟨1500, 700⟩ 1 2 t} 1200 := by
  have exact := next_admission_refill_exact ⟨true, 5, some ⟨1, 1000, 2⟩, 1000, 1000, none⟩
    ⟨1, 1000, 2⟩ ⟨1500, 700⟩ 1 2 400 rfl rfl rfl (by decide) (by decide) (by decide)
  exact ⟨rfl, ((exact.2.2.1 1200).mp rfl).2⟩

end Wakes
end Ledgence
