import Ledgence.Ledger.Records

/-! Queue-wide execution capacity: the policy of a queue, the holds of its attempts, and the commands
of its operators and workers. -/
open Kit Kit.Checked

namespace Ledgence

def queueConcurrencyMax : Nat := 1000000

inductive QueueTimeoutRelease where
  | confirm
  | afterGrace (graceMs : Nat)
  deriving DecidableEq

structure QueueHoldTimeout where
  afterMs : Nat
  release : QueueTimeoutRelease
  deriving DecidableEq

def QueueHoldTimeout.graceMs (timeout : QueueHoldTimeout) : Option Nat :=
  match timeout.release with
  | .confirm => none
  | .afterGrace graceMs => some graceMs

/-- A duration that an `i32` of milliseconds holds. -/
def QueueDuration (ms : Nat) : Prop := 1 ≤ ms ∧ ms ≤ 2147483647

instance (ms : Nat) : Decidable (QueueDuration ms) := inferInstanceAs (Decidable (_ ∧ _))

def QueueHoldTimeout.validate (timeout : QueueHoldTimeout) : Result Unit :=
  refuse (¬ QueueDuration timeout.afterMs ∨ ∃ graceMs ∈ timeout.graceMs, ¬ QueueDuration graceMs)
    (invalid "queue timeout and grace must be between 1 and 2147483647 milliseconds")

structure QueueConcurrencyPolicy where
  maxConcurrency : Option Nat
  timeout : Option QueueHoldTimeout
  deriving DecidableEq

def QueueConcurrencyPolicy.validate (policy : QueueConcurrencyPolicy) : Result Unit := do
  refuse (policy.maxConcurrency.any fun n => queueConcurrencyMax < n)
    (invalid "queue concurrency exceeds 1000000")
  ifSome policy.timeout QueueHoldTimeout.validate

/-- `queue_policies::timestamp` -/
def queueTime (t : Nat) : Result Unit :=
  refuse (maxTimestamp < t) (invalid "queue timestamp exceeds supported range")

def revisionAfter (expected : Nat) : Result Nat :=
  okOr (checkedAdd u64Max expected 1) (invalid "queue revision exhausted")

def positiveRevision (n : Nat) : Result Unit :=
  refuse (n = 0) (invalid "queue revision must be positive")

structure QueuePolicyPut where
  scope : Scope
  queue : String
  requestId : String
  expectedRevision : Option Nat
  policy : QueueConcurrencyPolicy
  reason : String
  deriving DecidableEq

def QueuePolicyPut.validate (c : QueuePolicyPut) : Result Unit := do
  c.scope.validate
  validateText c.queue 128
  validateText c.requestId 128
  validateText c.reason 1024
  ifSome c.expectedRevision fun revision => do
    positiveRevision revision
    let _ ← revisionAfter revision
    return ()
  c.policy.validate

structure QueueHoldRelease where
  scope : Scope
  queue : String
  taskId : String
  attemptId : String
  requestId : String
  expectedRevision : Nat
  reason : String
  deriving DecidableEq

def QueueHoldRelease.validate (c : QueueHoldRelease) : Result Unit := do
  c.scope.validate
  [c.queue, c.taskId, c.attemptId, c.requestId].forM fun text => validateText text 128
  positiveRevision c.expectedRevision
  let _ ← revisionAfter c.expectedRevision
  validateText c.reason 1024

structure QueueHoldClose where
  queue : String
  owner : LeaseOwner
  deriving DecidableEq

def QueueHoldClose.validate (c : QueueHoldClose) : Result Unit := do
  c.owner.validate
  validateText c.queue 128

inductive QueueHoldState where
  | reserved
  | running
  | uncertain
  | released
  deriving DecidableEq

inductive QueueHoldReleaseKind where
  | confirmed
  | neverStarted
  | operator
  | timeout
  deriving DecidableEq

inductive QueueFault where
  | refused (error : ContractError)
  /-- `missing queue occupancy for live attempt` -/
  | missingOccupancy
  /-- `queue attempt cannot start after capacity deadline` -/
  | lateStart
  /-- `queue concurrency exhausted` -/
  | exhausted
  /-- `queue policy requires a compatible orchestrator` -/
  | incompatible
  /-- A counter would go below zero. -/
  | underflow
  /-- A check of the holds or the policies table fails. -/
  | constraint
  deriving DecidableEq

abbrev QueueOutcome := Except QueueFault

/-- A row of `queue_concurrency_holds`. The owner is the one of the attempt's lease. -/
structure QueueHold where
  owner : LeaseOwner
  revision : Nat
  policyRevision : Nat
  state : QueueHoldState
  acquiredAt : Nat
  deadline : Option Nat
  graceMs : Option Nat
  stopRequestedAt : Option Nat
  forceAt : Option Nat
  releasedAt : Option Nat
  releaseKind : Option QueueHoldReleaseKind
  deriving DecidableEq

namespace QueueHold
variable (h : QueueHold)

def attemptId : String := h.owner.attemptId

def forcedAt : Option Nat :=
  match h.stopRequestedAt, h.graceMs with
  | some stop, some graceMs => some (stop + graceMs)
  | _, _ => none

structure Constrained : Prop where
  revision : 0 < h.revision ∧ h.revision ≤ u64Max
  policyRevision : 0 < h.policyRevision
  kind : h.state = .released ↔ h.releaseKind.isSome = true
  released : h.state = .released ↔ h.releasedAt.isSome = true
  deadline : ∀ deadline ∈ h.deadline, h.acquiredAt < deadline
  grace : ∀ graceMs ∈ h.graceMs, QueueDuration graceMs ∧ h.deadline.isSome = true
  stop : ∀ stop ∈ h.stopRequestedAt, ∃ deadline ∈ h.deadline, deadline ≤ stop
  force : h.forceAt = h.forcedAt
  releasedAt : ∀ at' ∈ h.releasedAt, h.acquiredAt ≤ at' ∧ ∀ stop ∈ h.stopRequestedAt, stop ≤ at'
  timeout : h.releaseKind = some .timeout →
    ∃ force ∈ h.forceAt, ∃ at' ∈ h.releasedAt, force ≤ at'

instance : Decidable h.Constrained :=
  decidable_of_iff ((0 < h.revision ∧ h.revision ≤ u64Max) ∧ 0 < h.policyRevision ∧
      (h.state = .released ↔ h.releaseKind.isSome = true) ∧
      (h.state = .released ↔ h.releasedAt.isSome = true) ∧
      (∀ deadline ∈ h.deadline, h.acquiredAt < deadline) ∧
      (∀ graceMs ∈ h.graceMs, QueueDuration graceMs ∧ h.deadline.isSome = true) ∧
      (∀ stop ∈ h.stopRequestedAt, ∃ deadline ∈ h.deadline, deadline ≤ stop) ∧
      h.forceAt = h.forcedAt ∧
      (∀ at' ∈ h.releasedAt, h.acquiredAt ≤ at' ∧ ∀ stop ∈ h.stopRequestedAt, stop ≤ at') ∧
      (h.releaseKind = some .timeout → ∃ force ∈ h.forceAt, ∃ at' ∈ h.releasedAt, force ≤ at'))
    ⟨fun ⟨a, b, c, d, e, f, g, i, j, k⟩ => ⟨a, b, c, d, e, f, g, i, j, k⟩,
      fun ⟨a, b, c, d, e, f, g, i, j, k⟩ => ⟨a, b, c, d, e, f, g, i, j, k⟩⟩

/-- `QueueHoldSnapshot::validate`, when the row is read back. -/
def validate : Result Unit := do
  h.owner.scope.validate
  [h.owner.taskId, h.owner.attemptId, h.owner.workerSessionId].forM fun text => validateText text 128
  positiveRevision h.revision
  positiveRevision h.policyRevision
  queueTime h.acquiredAt
  refuse (∃ graceMs ∈ h.graceMs, ¬ QueueDuration graceMs ∨ h.deadline = none)
    (invalid "queue hold grace requires a valid deadline")
  refuse (∃ force ∈ h.forcedAt, u64Max < force) (invalid "queue hold force time overflow")
  refuse (h.forceAt ≠ h.forcedAt) (invalid "inconsistent queue forced-release schedule")
  [h.deadline, h.stopRequestedAt, h.releasedAt, h.forceAt].reduceOption.forM fun t => do
    queueTime t
    refuse (t < h.acquiredAt) (invalid "queue hold event predates acquisition")
  refuse ((∃ stop ∈ h.stopRequestedAt, ∀ deadline ∈ h.deadline, stop < deadline) ∨
      (h.state = .released) ≠ (h.releasedAt.isSome = true) ∨
      h.releasedAt.isSome ≠ h.releaseKind.isSome ∨
      (∃ release ∈ h.releasedAt, ∃ stop ∈ h.stopRequestedAt, release < stop) ∨
      (h.releaseKind = some .timeout ∧
        ¬ ∃ release ∈ h.releasedAt, ∃ force ∈ h.forceAt, force ≤ release))
    (invalid "queue hold lifecycle is inconsistent")

def moved (next : QueueHoldState) (kind : Option QueueHoldReleaseKind) (sampled : Nat) : QueueHold :=
  { h with
    state := next
    revision := h.revision + 1
    releasedAt := if next = .released then
      some (max (max sampled h.acquiredAt) (h.stopRequestedAt.getD 0)) else none
    releaseKind := kind }

def stopped (now : Nat) : QueueHold :=
  { h with
    stopRequestedAt := some now
    forceAt := h.graceMs.map (now + ·)
    revision := h.revision + 1 }

def limits : List Nat := [h.deadline, h.stopRequestedAt, h.releasedAt].reduceOption

def isOpen : Bool := h.state ≠ .released

def isUncertain : Bool := h.state = .uncertain

end QueueHold

/-- A row of `queue_concurrency_policies`. -/
structure QueuePolicyRow where
  revision : Nat
  updatedAt : Nat
  maximum : Option Nat
  timeoutMs : Option Nat
  graceMs : Option Nat
  occupied : Nat
  uncertain : Nat
  deriving DecidableEq

namespace QueuePolicyRow
variable (p : QueuePolicyRow)

structure Constrained : Prop where
  revision : 0 < p.revision ∧ p.revision ≤ u64Max
  maximum : ∀ n ∈ p.maximum, n ≤ queueConcurrencyMax
  timeout : ∀ ms ∈ p.timeoutMs, QueueDuration ms
  grace : ∀ ms ∈ p.graceMs, QueueDuration ms ∧ p.timeoutMs.isSome = true
  uncertain : p.uncertain ≤ p.occupied

instance : Decidable p.Constrained :=
  decidable_of_iff ((0 < p.revision ∧ p.revision ≤ u64Max) ∧
      (∀ n ∈ p.maximum, n ≤ queueConcurrencyMax) ∧ (∀ ms ∈ p.timeoutMs, QueueDuration ms) ∧
      (∀ ms ∈ p.graceMs, QueueDuration ms ∧ p.timeoutMs.isSome = true) ∧ p.uncertain ≤ p.occupied)
    ⟨fun ⟨a, b, c, d, e⟩ => ⟨a, b, c, d, e⟩, fun ⟨a, b, c, d, e⟩ => ⟨a, b, c, d, e⟩⟩

def full : Prop := ∃ n ∈ p.maximum, n ≤ p.occupied

instance : Decidable p.full := inferInstanceAs (Decidable (∃ n ∈ p.maximum, n ≤ p.occupied))

/-- The counters after one hold goes from `old` to `next`. -/
def moved (old next : QueueHoldState) : QueueOutcome QueuePolicyRow := do
  let occupied ← okOr (checkedSub p.occupied (if next = .released then 1 else 0)) .underflow
  let uncertain ← okOr (checkedSub p.uncertain (if old = .uncertain then 1 else 0)) .underflow
  return { p with occupied, uncertain := uncertain + (if next = .uncertain then 1 else 0) }

end QueuePolicyRow
end Ledgence
