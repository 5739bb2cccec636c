import Ledgence.Ledger.Records
import Ledgence.Kit.Checked

/-! The row of one shared resource: its policy, its bucket, its counters and its wake-up times. -/
open Kit Kit.Checked

namespace Ledgence

inductive LedgerSide where
  | workflow
  | task
  deriving DecidableEq

def corruptRecord (side : LedgerSide) (label : String) : ContractError :=
  match side with
  | .workflow => .unavailable ("invalid workflow persistence: " ++ label)
  | .task => .unavailable ("invalid task admission record: " ++ label)

inductive Drift where
  | offerCounterUnderflow
  | offerReleaseUnderflow
  | admissionOfferCounter
  | missingRunBudgetOffer
  | admissionOccupancyUnderflow
  | admissionUnknownUnderflow
  | startedOccupancyUnderflow
  | unknownOccupancyUnderflow
  | startedCounterUnderflow
  | unknownCounterUnderflow
  | offerOccupancyAuthority
  | missingPreparationOccupancy
  deriving DecidableEq

def Drift.label : Drift → String
  | .offerCounterUnderflow => "offer counter underflow"
  | .offerReleaseUnderflow => "offer release underflow"
  | .admissionOfferCounter => "admission offer counter"
  | .missingRunBudgetOffer => "missing run-budget offer"
  | .admissionOccupancyUnderflow => "admission occupancy underflow"
  | .admissionUnknownUnderflow => "admission unknown underflow"
  | .startedOccupancyUnderflow => "started occupancy underflow"
  | .unknownOccupancyUnderflow => "unknown occupancy underflow"
  | .startedCounterUnderflow => "started counter underflow"
  | .unknownCounterUnderflow => "unknown counter underflow"
  | .offerOccupancyAuthority => "offer occupancy authority"
  | .missingPreparationOccupancy => "missing preparation occupancy"

/-- Why a transaction is rolled back. -/
inductive Fault where
  | refused (error : ContractError)
  | drift (side : LedgerSide) (d : Drift)
  /-- The counters of the row contradict each other. -/
  | inconsistent (error : ContractError)
  /-- A Start found no token to spend. -/
  | unpaid (error : ContractError)
  /-- A request failed its own check when it was written back. -/
  | malformed (error : ContractError)

def Fault.error : Fault → ContractError
  | .refused error | .inconsistent error | .unpaid error | .malformed error => error
  | .drift side d => corruptRecord side d.label

abbrev Outcome := Except Fault

def check {α : Type} (x : Result α) : Outcome α := x.mapError .refused
def wellFormed {α : Type} (x : Result α) : Outcome α := x.mapError .malformed
def paid {α : Type} (x : Result α) : Outcome α := x.mapError .unpaid

/-- `capacity::Resource`. The cursor of the fair rotation is left out: it only orders the offers. -/
structure Resource where
  record : ResourceRecord
  credit : Option Nat
  highWater : Nat
  offered : Nat
  started : Nat
  unknown : Nat
  due : Option Nat
  quarantinedDue : Option Nat
  deriving DecidableEq

namespace Resource
variable (r : Resource)

def wake (now : Nat) : Resource :=
  { r with due := some now, quarantinedDue := some now }

def bucket : Option AdmissionBucket :=
  r.credit.map fun credit => ⟨credit, r.highWater⟩

def refill (now : Nat) : Outcome Resource :=
  match r.record.policy.rate with
  | some rate => do
    let credit ← okOr r.credit (.refused (corruptRecord .workflow "missing bucket credit"))
    let b ← check (refillAdmissionBucket ⟨credit, r.highWater⟩ rate now)
    return { r with credit := some b.credit, highWater := b.highWaterAt }
  | none => .ok { r with highWater := max r.highWater now }

def capacity : Result Nat :=
  admissionOfferCapacity r.record.policy r.bucket r.offered (r.offered + r.started)

def validate : Outcome Unit := do
  check r.record.validate
  check ([r.offered, r.offered + r.started, r.unknown].forM safe)
  refuse (r.offered + r.started < r.offered + r.unknown)
    (.inconsistent (invalid "inconsistent resource occupancy"))

/-- `codec::ms` -/
def storedTime (t : Nat) : Result Unit :=
  refuse (maxTimestamp < t) (.unavailable "invalid PostgreSQL record: timestamp outside RFC3339 range")

def save : Outcome Resource := do
  r.validate
  check (storedTime r.highWater)
  ifSome r.due fun t => check (storedTime t)
  ifSome r.quarantinedDue fun t => check (storedTime t)
  return r

def row : Outcome Resource := do
  check r.record.validate
  refuse (r.credit.isSome ≠ r.record.policy.rate.isSome)
    (.refused (corruptRecord .workflow "resource bucket mode"))
  r.validate
  return r

def withdraw (fault : Fault) : Outcome Resource := do
  let offered ← okOr (checkedSub r.offered 1) fault
  return { r with offered }

def release (wasUnknown : Bool) (started unknown : Fault) : Outcome Resource := do
  let left ← okOr (checkedSub r.started 1) started
  if wasUnknown then do
    let unknown ← okOr (checkedSub r.unknown 1) unknown
    return { r with started := left, unknown }
  else return { r with started := left }

def lose : Resource :=
  { r with unknown := r.unknown + 1 }

def offer : Resource :=
  { r with offered := r.offered + 1 }

def spend (missing : ContractError) : Outcome Resource :=
  match r.record.policy.rate with
  | some rate => do
    let credit ← okOr r.credit (.unpaid missing)
    let b ← paid (spendAdmissionToken ⟨credit, r.highWater⟩ rate)
    return { r with credit := some b.credit, highWater := b.highWaterAt }
  | none => .ok r

def start : Resource :=
  { r with offered := r.offered - 1, started := r.started + 1 }

end Resource
end Ledgence

/-! What one request charges its resource with, and how each counter operation moves one request
from one charge to another. -/

namespace Ledgence

inductive Charge where
  | free
  /-- A reservation made under the given policy revision. -/
  | offered (revision : Nat)
  | started
  | unknown
  deriving DecidableEq

namespace Charge

def offersAt (revision : Nat) : Charge → Bool
  | .offered k => k == revision
  | .free | .started | .unknown => false

def running : Charge → Bool
  | .started | .unknown => true
  | .free | .offered _ => false

def lost : Charge → Bool
  | .unknown => true
  | .free | .offered _ | .started => false

end Charge

def Fault.Accounting : Fault → Prop
  | .drift _ _ | .inconsistent _ | .unpaid _ => True
  | .refused _ | .malformed _ => False

@[simp] theorem accounting_refused (e : ContractError) : ¬ (Fault.refused e).Accounting := id
@[simp] theorem accounting_malformed (e : ContractError) : ¬ (Fault.malformed e).Accounting := id

theorem ensures_mapError {ε ε' α : Type} {fault : ε' → Prop} {f : ε → ε'} {x : Except ε α}
    {post : α → Prop} (harmless : ∀ e, ¬ fault (f e)) :
    Ensures fault (x.mapError f) post ↔ ∀ a, x = .ok a → post a := by
  cases x with
  | error e => simp [Except.mapError, harmless]
  | ok a => simp [Except.mapError]

@[simp] theorem ensures_check {α : Type} {x : Result α} {post : α → Prop} :
    Ensures Fault.Accounting (check x) post ↔ ∀ a, x = .ok a → post a :=
  ensures_mapError accounting_refused

@[simp] theorem ensures_wellFormed {α : Type} {x : Result α} {post : α → Prop} :
    Ensures Fault.Accounting (wellFormed x) post ↔ ∀ a, x = .ok a → post a :=
  ensures_mapError accounting_malformed

namespace Resource

abbrev revision (r : Resource) : Nat := r.record.revision

structure Covered (r : Resource) : Prop where
  funded : ∀ rate, r.record.policy.rate = some rate →
    ∃ credit, r.credit = some credit ∧ r.offered * rate.periodMs ≤ credit
  room : 0 < r.offered → r.offered + r.started ≤ r.record.policy.maxOccupancy

structure Counts (r : Resource) (c : Charge) : Prop where
  offered : c.offersAt r.revision = true → 0 < r.offered
  started : c.running = true → 0 < r.started
  unknown : c.lost = true → 0 < r.unknown

/-- One request went from charge `c` to charge `c'`, and the row with it from `r` to `r'`. -/
structure Moved (r : Resource) (c : Charge) (r' : Resource) (c' : Charge) : Prop where
  record : r'.record = r.record
  offered : r'.offered + (if c.offersAt r.revision then 1 else 0) =
    r.offered + (if c'.offersAt r.revision then 1 else 0)
  started : r'.started + (if c.running then 1 else 0) = r.started + (if c'.running then 1 else 0)
  unknown : r'.unknown + (if c.lost then 1 else 0) = r.unknown + (if c'.lost then 1 else 0)
  /-- New reservations are made under the current policy only. -/
  current : ∀ k, c' = .offered k → k = r.revision ∨ c = .offered k
  covered : r.Covered → r'.Covered

section Moves
variable {r r' r'' : Resource} {c c' c'' : Charge} {now : Nat}

theorem Moved.refl : Moved r c r c :=
  ⟨rfl, rfl, rfl, rfl, fun _ same => .inr same, id⟩

theorem Moved.trans (first : Moved r c r' c') (rest : Moved r' c' r'' c'') : Moved r c r'' c'' := by
  have revision : r'.revision = r.revision := by rw [Resource.revision, first.record]
  have offered := rest.offered
  rw [revision] at offered
  constructor
  case record => rw [rest.record, first.record]
  case offered =>
    have := first.offered
    omega
  case started =>
    have := first.started
    have := rest.started
    omega
  case unknown =>
    have := first.unknown
    have := rest.unknown
    omega
  case current =>
    intro k same
    obtain rfl | same := rest.current k same
    · exact .inl revision
    · exact first.current k same
  case covered => exact rest.covered ∘ first.covered

/-- The counters and the bucket are all that an account sees of the row. -/
theorem Moved.of_same (record : r'.record = r.record) (credit : r'.credit = r.credit)
    (offered : r'.offered = r.offered) (started : r'.started = r.started)
    (unknown : r'.unknown = r.unknown) : Moved r c r' c where
  record := record
  offered := by rw [offered]
  started := by rw [started]
  unknown := by rw [unknown]
  current := fun _ same => .inr same
  covered := fun covered => by
    refine ⟨?_, ?_⟩
    · rw [record, credit, offered]
      exact covered.funded
    · rw [record, offered, started]
      exact covered.room

theorem moved_wake (now : Nat) : Moved r c (r.wake now) c :=
  .of_same rfl rfl rfl rfl rfl

def Ready (r : Resource) : Prop :=
  ∀ rate, r.record.policy.rate = some rate →
    ∃ credit, r.credit = some credit ∧ (⟨credit, r.highWater⟩ : AdmissionBucket).Valid rate

theorem refill_spec (r : Resource) (now : Nat) :
    Ensures Fault.Accounting (r.refill now) fun r' =>
      (∀ c, Moved r c r' c) ∧ r'.Ready ∧ r'.offered = r.offered ∧ r'.started = r.started := by
  cases limited : r.record.policy.rate with
  | none =>
    simp only [refill, limited, ensures_ok]
    refine ⟨fun c => .of_same rfl rfl rfl rfl rfl, ?_, trivial, trivial⟩
    intro rate some'
    rw [limited] at some'
    contradiction
  | some rate =>
    simp only [refill, limited, ensures_bind, ensures_okOr, ensures_check,
      refillAdmissionBucket_eq_ok, ensures_pure]
    refine ⟨fun _ => accounting_refused _, ?_⟩
    rintro credit stored b ⟨valid, inRange, rfl⟩
    have more : credit ≤ (AdmissionBucket.refilled ⟨credit, r.highWater⟩ rate now).credit :=
      valid.le_refilled now
    refine ⟨fun c => ⟨rfl, rfl, rfl, rfl, fun _ same => .inr same, fun covered => ?_⟩, ?_,
      trivial, trivial⟩
    · refine ⟨fun rate' limited' => ?_, covered.room⟩
      obtain ⟨credit', stored', enough⟩ := covered.funded rate' limited'
      obtain rfl : credit = credit' := by simpa [stored] using stored'
      exact ⟨_, rfl, enough.trans more⟩
    · intro rate' limited'
      obtain rfl : rate = rate' := by simpa [limited] using limited'
      exact ⟨_, rfl, valid.refilled inRange⟩

theorem withdraw_spec {fault : Fault} {k : Nat} (counts : r.Counts (.offered k))
    (current : k = r.revision) :
    Ensures Fault.Accounting (r.withdraw fault) fun r' => Moved r (.offered k) r' .free := by
  have offers : (Charge.offered k).offersAt r.revision = true := by simp [Charge.offersAt, current]
  have some' := counts.offered offers
  have below : ¬ (checkedSub r.offered 1 = none) := by simp [checkedSub]; omega
  simp only [withdraw, ensures_bind, ensures_okOr, checkedSub_eq_some, ensures_pure]
  refine ⟨fun h => absurd h below, ?_⟩
  rintro _ ⟨-, rfl⟩
  constructor
  case record => rfl
  case offered =>
    simp only [Charge.offersAt, current, beq_self_eq_true, if_true, Bool.false_eq_true, if_false]
    omega
  case started => rfl
  case unknown => rfl
  case current => exact fun k same => by simp at same
  case covered =>
    intro covered
    refine ⟨fun rate limited => ?_, fun positive => ?_⟩
    · obtain ⟨credit, stored, enough⟩ := covered.funded rate limited
      exact ⟨credit, stored, (Nat.mul_le_mul_right _ (Nat.sub_le _ _)).trans enough⟩
    · have := covered.room some'
      simp only at positive ⊢
      omega

theorem moved_stale {k : Nat} (stale : k ≠ r.revision) : Moved r (.offered k) r .free where
  record := rfl
  offered := by simp [Charge.offersAt, stale]
  started := rfl
  unknown := rfl
  current := fun _ same => by simp at same
  covered := id

theorem moved_lose : Moved r .started r.lose .unknown where
  record := rfl
  offered := rfl
  started := rfl
  unknown := by simp [lose, Charge.lost]
  current := fun _ same => by simp at same
  covered := fun covered => ⟨covered.funded, covered.room⟩

theorem release_spec {first second : Fault} (counts : r.Counts c) (running : c.running = true) :
    Ensures Fault.Accounting (r.release c.lost first second) fun r' => Moved r c r' .free := by
  have some' := counts.started running
  have below : ¬ (checkedSub r.started 1 = none) := by simp [checkedSub]; omega
  have room : ∀ r' : Resource, r'.record = r.record → r'.credit = r.credit →
      r'.offered = r.offered → r'.started = r.started - 1 → r.Covered → r'.Covered := by
    intro r' record credit offered started covered
    refine ⟨?_, ?_⟩
    · rw [record, credit, offered]
      exact covered.funded
    · rw [record, offered, started]
      intro positive
      have := covered.room positive
      omega
  simp only [release, ensures_bind, ensures_okOr, checkedSub_eq_some]
  refine ⟨fun h => absurd h below, ?_⟩
  rintro _ ⟨-, rfl⟩
  cases c with
  | free | offered => simp [Charge.running] at running
  | started =>
    simp only [Charge.lost, Bool.false_eq_true, if_false, ensures_pure]
    refine ⟨rfl, rfl, ?_, rfl, fun _ same => by simp at same, room _ rfl rfl rfl rfl⟩
    simp only [Charge.running, if_true, Bool.false_eq_true, if_false]
    omega
  | unknown =>
    have lost := counts.unknown rfl
    have below' : ¬ (checkedSub r.unknown 1 = none) := by simp [checkedSub]; omega
    simp only [Charge.lost, if_true, ensures_bind, ensures_okOr, checkedSub_eq_some, ensures_pure]
    refine ⟨fun h => absurd h below', ?_⟩
    rintro _ ⟨-, rfl⟩
    refine ⟨rfl, rfl, ?_, ?_, fun _ same => by simp at same, room _ rfl rfl rfl rfl⟩
    · simp only [Charge.running, if_true, Bool.false_eq_true, if_false]
      omega
    · simp only [Charge.lost, if_true, Bool.false_eq_true, if_false]
      omega

theorem moved_offer {k : Nat} (capacity : r.capacity = .ok k) (positive : 0 < k) :
    Moved r .free r.offer (.offered r.revision) where
  record := rfl
  offered := by simp [offer, Charge.offersAt]
  started := rfl
  unknown := rfl
  current := fun _ same => .inl (by simpa using same.symm)
  covered := fun _ => by
    refine ⟨fun rate limited => ?_, fun _ => ?_⟩
    · cases stored : r.credit with
      | none =>
        simp [Resource.capacity, Resource.bucket, stored, admissionOfferCapacity, rateCapacity,
          show r.record.policy.rate = some rate from limited] at capacity
      | some credit =>
        rw [Resource.capacity, Resource.bucket, stored, Option.map_some] at capacity
        have enough := admissionOfferCapacity_covered limited capacity
        refine ⟨credit, stored, le_trans (Nat.mul_le_mul_right _ ?_) enough⟩
        simp only [offer]
        omega
    · have room := admissionOfferCapacity_pos capacity
      simp only [offer]
      omega

/-- Under `Covered`, an outstanding offer finds its token, and starting it moves its charge. -/
theorem spend_spec {missing : ContractError} (covered : r.Covered) (ready : r.Ready)
    (outstanding : 0 < r.offered) :
    Ensures Fault.Accounting (r.spend missing) fun r' =>
      r'.offered = r.offered ∧ r'.started = r.started ∧ r'.unknown = r.unknown ∧
        r'.record = r.record ∧ r'.Ready ∧ ∀ rate, r.record.policy.rate = some rate →
          ∃ credit, r'.credit = some credit ∧ (r.offered - 1) * rate.periodMs ≤ credit := by
  cases limited : r.record.policy.rate with
  | none =>
    simp only [spend, limited, ensures_ok]
    exact ⟨trivial, trivial, trivial, trivial, ready, fun _ some' => by simp at some'⟩
  | some rate =>
    obtain ⟨credit, stored, enough⟩ := covered.funded rate limited
    obtain ⟨credit', stored', valid⟩ := ready rate limited
    obtain rfl : credit = credit' := by simpa [stored] using stored'
    have one : 1 * rate.periodMs ≤ r.offered * rate.periodMs := Nat.mul_le_mul_right _ outstanding
    have token : rate.periodMs ≤ credit := by omega
    have spent := spendAdmissionToken_eq_ok.mpr ⟨valid, token, rfl⟩
    simp only [spend, limited, stored, okOr, ok_bind, spent, paid, Except.mapError, ensures_pure]
    refine ⟨trivial, trivial, trivial, trivial, ?_, ?_⟩
    · intro rate' limited'
      obtain rfl : rate = rate' := by simpa [limited] using limited'
      exact ⟨_, rfl, valid.spent⟩
    · intro rate' same
      obtain rfl : rate = rate' := by simpa using same
      refine ⟨_, rfl, ?_⟩
      rw [Nat.sub_mul, Nat.one_mul]
      exact Nat.sub_le_sub_right enough _

end Moves
end Resource
end Ledgence
