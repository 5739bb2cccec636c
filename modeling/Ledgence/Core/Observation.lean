import Ledgence.Api.Observation
import Ledgence.Core.Lifecycle

/-! Projection of stored records to observations; never a lifecycle transition. -/
open Kit Kit.Checked

namespace Ledgence

def corrupt : ContractError := .unavailable "inconsistent stored task observation"

def observedStatus (task : TaskSnapshot) (latest : Option AttemptSnapshot) : TaskStatus where
  admission := task.input.admission
  admissionDeferrals := task.admissionDeferrals
  providerProbe := task.providerProbe
  scope := task.scope
  taskId := task.taskId
  runId := task.runId
  workflowId := task.workflowId
  workflowActivationId := task.workflowActivationId
  queue := task.input.queue
  correlationKey := task.input.correlationKey
  state := task.state
  attemptCount := task.attemptCount
  currentAttemptId := task.currentAttemptId
  latestAttemptId := latest.map fun attempt => attempt.lease.owner.attemptId
  submittedAt := task.submittedAt
  availableAt := task.availableAt
  terminalAt := task.terminalAt
  cancelRequestedAt := task.cancelRequestedAt

def AttemptSnapshot.report (attempt : AttemptSnapshot) : Option AttemptReport :=
  attempt.settlement.map fun accepted => accepted.command.report

def DenialCorrupt (task : TaskSnapshot) (attempt : AttemptSnapshot) : Prop :=
  attempt.budgetDenial.isSome = true ∧ (task.input.admission = none ∨ task.state ≠ .failed ∨
    attempt.state ≠ .failed ∨ attempt.executionMayHaveStarted = true ∨
    attempt.settlement.isSome = true)

def LatestCorrupt (task : TaskSnapshot) (attempt : AttemptSnapshot) : Prop :=
  attempt.lease.owner.generation ≠ task.attemptCount ∨
    (attempt.state = .active) ≠ (task.state = .active) ∨
    (attempt.state = .active) ≠ (attempt.finishedAt = none) ∨
    (attempt.quiescence = .confirmed ∧ attempt.settlement = none ∧ attempt.budgetDenial = none ∧
      ¬ (task.input.admission.isSome = true ∧ (attempt.state = .deferred ∨
        attempt.state = .lost ∨ attempt.state = .cancelled))) ∨
    (attempt.state = .lost ∧ attempt.quiescence = .confirmed ∧ task.input.admission = none) ∨
    ((task.state = .succeeded ∨ task.state = .failed) ∧ task.terminalAt ≠ attempt.finishedAt) ∨
    (task.state = .queued ∧ ¬ (attempt.state = .failed ∨ attempt.state = .lost ∨
      attempt.state = .deferred)) ∨
    (task.state = .cancelled ∧ ¬ (attempt.state = .cancelled ∨ attempt.state = .failed ∨
      attempt.state = .lost ∨ attempt.state = .deferred))

def retryable (task : TaskSnapshot) (attempt : AttemptSnapshot) : Option Bool :=
  match attempt.state, attempt.report with
  | .failed, none => if attempt.budgetDenial.isSome then some false else none
  | .lost, none => some true
  | .deferred, none =>
    if task.input.admission.isSome && !attempt.executionMayHaveStarted then some true else none
  | .failed, some (.failed report) => some (retryableFailure report.error.kind)
  | .failed, some (.completed report) =>
    match report.outcome with
    | .failure _ _ => some false
    | .success _ => none
  | _, _ => none

def retryDue (task : TaskSnapshot) (retryable : Bool) : Result Bool :=
  if retryable then do
    let charged ← task.chargedAttempts
    return decide (charged < task.input.retryPolicy.maxAttempts ∧
      task.attemptCount < maxTaskAttemptGeneration)
  else .ok false

def checkRetry (task : TaskSnapshot) (attempt : AttemptSnapshot) : Result Unit :=
  if task.state = .queued ∨ task.state = .failed then do
    let retryable ← okOr (retryable task attempt) corrupt
    let due ← retryDue task retryable
    refuse (decide (task.state = .queued) ≠ due) corrupt
  else .ok ()

def SettlementCorrupt (task : TaskSnapshot) (attempt : AttemptSnapshot)
    (accepted : AcceptedSettlement) : Prop :=
  accepted.command.owner ≠ attempt.lease.owner ∨ accepted.receipt.taskId ≠ task.taskId ∨
    accepted.receipt.attemptId ≠ attempt.lease.owner.attemptId ∨
    accepted.receipt.operationId ≠ accepted.command.operationId ∨
    (accepted.command.quiescence = .confirmed ∧ attempt.quiescence ≠ .confirmed) ∨
    (accepted.command.report.claimsExecution = true ∧ attempt.executionMayHaveStarted = false)

section Decidable
variable (task : TaskSnapshot) (attempt : AttemptSnapshot)

instance : Decidable (DenialCorrupt task attempt) :=
  inferInstanceAs (Decidable (_ ∧ (_ ∨ _ ∨ _ ∨ _ ∨ _)))

instance : Decidable (LatestCorrupt task attempt) :=
  inferInstanceAs (Decidable (_ ∨ _ ∨ _ ∨ _ ∨ _ ∨ _ ∨ _ ∨ _))

instance (accepted : AcceptedSettlement) : Decidable (SettlementCorrupt task attempt accepted) :=
  inferInstanceAs (Decidable (_ ∨ _ ∨ _ ∨ _ ∨ _ ∨ _))

end Decidable

def checkSettlement (task : TaskSnapshot) (attempt : AttemptSnapshot) : Result Unit :=
  ifSome attempt.settlement fun accepted => do
    (validateReport attempt accepted.command).mapError fun _ => corrupt
    refuse (SettlementCorrupt task attempt accepted) corrupt

def checkLatest (task : TaskSnapshot) (attempt : AttemptSnapshot) : Result Unit := do
  (validateAttempt task attempt).mapError fun _ => corrupt
  refuse (DenialCorrupt task attempt) corrupt
  refuse (LatestCorrupt task attempt) corrupt
  refuse (task.state = .active ∧ attempt.quiescence = .confirmed) corrupt
  checkRetry task attempt
  checkSettlement task attempt

/-- Project records of one durable snapshot. `latest` is the attempt of generation
`attemptCount`, also while a retry is queued. -/
def taskStatus (task : TaskSnapshot) (latest : Option AttemptSnapshot) : Result TaskStatus := do
  (validateWorkflowLineage task.workflowId task.parentWorkflowId task.rootWorkflowId).mapError
    fun _ => corrupt
  let status := observedStatus task latest
  status.validate
  ifSome latest fun attempt => checkLatest task attempt
  return status

def observedFailure (task : TaskSnapshot) (attempt : AttemptSnapshot) : Option TaskFailure :=
  match attempt.state, attempt.report with
  | .failed, some (.completed report) =>
    match report.outcome with
    | .failure kind message => some (.application ⟨kind, message⟩)
    | .success _ => none
  | .failed, some (.failed report) =>
    some (.execution report.error report.phase report.cleanupError)
  | .failed, none => attempt.budgetDenial.map .budgetDenied
  | .deferred, none =>
    if task.input.admission.isSome ∧ task.attemptCount = maxTaskAttemptGeneration then
      some .admissionGenerationExhausted else none
  | .lost, none => some .attemptLost
  | _, _ => none

def observedOutput (attempt : AttemptSnapshot) : Option Value :=
  match attempt.state, attempt.report with
  | .succeeded, some (.completed report) =>
    match report.outcome with
    | .success output => some output
    | .failure _ _ => none
  | _, _ => none

def observedOutcome (task : TaskSnapshot) (latest : Option AttemptSnapshot) :
    Result (Option TaskOutcome) :=
  match task.state with
  | .queued | .active => .ok none
  | .cancelled => .ok (some .cancelled)
  | .succeeded => do
    let attempt ← okOr latest corrupt
    let output ← okOr (observedOutput attempt) corrupt
    return some (.succeeded attempt.lease.owner.attemptId attempt.quiescence
      attempt.executionMayHaveStarted output)
  | .failed => do
    let attempt ← okOr latest corrupt
    let failure ← okOr (observedFailure task attempt) corrupt
    return some (.failed attempt.lease.owner.attemptId attempt.quiescence
      attempt.executionMayHaveStarted failure)

def taskResult (task : TaskSnapshot) (latest : Option AttemptSnapshot) : Result TaskResult := do
  let status ← taskStatus task latest
  let outcome ← observedOutcome task latest
  let result : TaskResult := ⟨status, outcome⟩
  result.validate
  return result

end Ledgence
