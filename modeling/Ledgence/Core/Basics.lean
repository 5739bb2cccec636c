import Ledgence.Api.Submission
import Ledgence.Api.Encoding

/-! Workflows as their status shows them. -/
open Kit Kit.Checked

namespace Ledgence

inductive WorkflowState where
  | running
  | waiting
  | failing
  | cancelling
  | succeeded
  | failed
  | cancelled
  deriving DecidableEq

def WorkflowState.isTerminal : WorkflowState → Bool
  | .succeeded | .failed | .cancelled => true
  | .running | .waiting | .failing | .cancelling => false

structure WorkflowSnapshot where
  parentWorkflowId : Option String
  rootWorkflowId : Option String
  workflowId : String
  scope : Scope
  state : WorkflowState
  revision : Nat
  activationId : Option String
  submittedAt : Nat
  terminalAt : Option Nat
  correlationKey : Option String
  deriving DecidableEq

def WorkflowSnapshot.validate (workflow : WorkflowSnapshot) : Result Unit := do
  workflow.scope.validate
  validateWorkflowLineage (some workflow.workflowId) workflow.parentWorkflowId
    workflow.rootWorkflowId
  ifSome workflow.activationId fun id => validateText id 128
  refuse (workflow.state.isTerminal ≠ workflow.terminalAt.isSome ∨
      (workflow.state.isTerminal = true ∧ workflow.activationId.isSome = true) ∨
      (workflow.state = .running ∧ workflow.activationId = none) ∨
      workflow.terminalAt.any (· < workflow.submittedAt) = true ∨
      maxTimestamp < workflow.submittedAt ∨ workflow.terminalAt.any (maxTimestamp < ·) = true)
    (invalid "inconsistent workflow status")
  refuse (workflow.correlationKey.any fun key => 512 < byteLen key || key.toList.any isControl)
    (invalid "invalid workflow correlation key")

end Ledgence

/-! Submission, sessions, and the checks every orchestration decision starts from. -/

namespace Ledgence

structure Transition (R : Type) where
  task : TaskSnapshot
  attempt : Option AttemptSnapshot
  history : List HistoryEvent
  reply : R

structure AttemptIds where
  attemptId : String
  leaseId : String
  eventId : String
  trace : Option TraceContext

def orchestratorSource : String := "urn:ledgence:orchestrator"
def invocationRequested : String := "com.ledgence.task.invocation.requested.v1"

def nullValue : Value := ⟨.null, trivial⟩

def validationEvent (trace : TraceContext) : CloudEvent where
  id := "validation"
  source := orchestratorSource
  eventType := invocationRequested
  subject := none
  time := none
  tenantId := "validation"
  namespaceId := "validation"
  runId := "validation"
  taskId := "validation"
  attemptId := "validation"
  attemptNo := 1
  workflowId := none
  activationId := none
  parentWorkflowId := none
  rootWorkflowId := none
  traceparent := some trace.traceparent
  tracestate := trace.tracestate
  data := nullValue

def validateTrace (trace : Option TraceContext) : Result Unit :=
  ifSome trace fun trace => do
    let _ ← lift (CloudEvent.new (validationEvent trace))
    return ()

def timestamp (now : Nat) : Result Nat := do
  refuse (maxTimestamp < now) (invalid "timestamp outside RFC3339 range")
  return now

def addTime (now milliseconds : Nat) : Result Nat := do
  let next ← okOr (checkedAdd u64Max now milliseconds) (invalid "timestamp overflow")
  timestamp next

theorem timestamp_eq_ok {now at' : Nat} :
    timestamp now = .ok at' ↔ now ≤ maxTimestamp ∧ now = at' := by
  simp [timestamp]

theorem addTime_eq_ok {now ms at' : Nat} :
    addTime now ms = .ok at' ↔ now + ms ≤ maxTimestamp ∧ now + ms = at' := by
  simp only [addTime, bind_eq_ok, okOr_eq_ok, checkedAdd_eq_some, timestamp_eq_ok]
  have : maxTimestamp ≤ u64Max := by decide
  constructor
  · rintro ⟨_, ⟨_, rfl⟩, h⟩
    exact h
  · rintro ⟨small, rfl⟩
    exact ⟨_, ⟨by omega, rfl⟩, small, rfl⟩

def history (task : TaskSnapshot) (attempt : Option AttemptSnapshot) (now : Nat)
    (reason : TransitionReason) : HistoryEvent where
  taskId := task.taskId
  attemptId := attempt.map fun a => a.lease.owner.attemptId
  at' := now
  reason := reason

def unchanged {R : Type} (task : TaskSnapshot) (attempt : Option AttemptSnapshot) (reply : R) :
    Transition R :=
  ⟨task, attempt, [], reply⟩

def validateSubmission (command : SubmitCommand) : Result Unit := do
  lift command.input.validate
  validateText command.idempotencyKey 255
  validateTrace command.originTrace

def submittedTask (command : SubmitCommand) (descriptor : ProgramDescriptor)
    (taskId runId : String) (now : Nat) : TaskSnapshot where
  admissionDeferrals := 0
  providerProbe := none
  parentWorkflowId := none
  rootWorkflowId := none
  workflowId := none
  workflowActivationId := none
  taskId := taskId
  runId := runId
  idempotencyKey := command.idempotencyKey
  input := command.input
  descriptor := descriptor
  originTrace := command.originTrace
  state := .queued
  submittedAt := now
  availableAt := now
  terminalAt := none
  currentAttemptId := none
  attemptCount := 0
  cancelRequestedAt := none

def submit (command : SubmitCommand) (descriptor : ProgramDescriptor) (taskId runId : String)
    (now : Nat) : Result (Transition Unit) := do
  validateSubmission command
  validateText taskId 128
  validateText runId 128
  lift descriptor.validate
  let _ ← timestamp now
  refuse (descriptor.program ≠ command.input.program) .conflict
  let task := submittedTask command descriptor taskId runId now
  return ⟨task, none, [history task none now .submitted], ()⟩

/- Sessions. -/

def openSession (id : String) (scope : Scope) (queue : String) (concurrency : Nat)
    (now : Nat) : Result WorkerSession := do
  validateText id 128
  scope.validate
  validateText queue 128
  refuse (concurrency = 0) (invalid "concurrency must be positive")
  let expiresAt ← addTime now sessionValidityMs
  return ⟨[], id, scope, queue, concurrency, expiresAt⟩

def checkSession (session : WorkerSession) (now : Nat) : Result Unit := do
  validateText session.id 128
  session.scope.validate
  validateText session.queue 128
  refuse (session.concurrency = 0) (invalid "invalid session concurrency")
  refuse (session.expiresAt ≤ now) .sessionExpired

def extendSession (session : WorkerSession) (now : Nat) : Result WorkerSession := do
  checkSession session now
  let expiresAt ← addTime now sessionValidityMs
  return { session with expiresAt }

/- Ownership. -/

def Belongs (task : TaskSnapshot) (attempt : AttemptSnapshot) : Prop :=
  let owner := attempt.lease.owner
  owner.scope = task.scope ∧ owner.taskId = task.taskId ∧
    owner.attemptId = attempt.event.attemptId ∧ owner.generation ≠ 0 ∧
    owner.generation ≤ task.attemptCount ∧ attempt.event.attemptNo = owner.generation ∧
    attempt.event.taskId = task.taskId ∧ attempt.event.runId = task.runId ∧
    attempt.event.tenantId = task.input.tenantId ∧
    attempt.event.namespaceId = task.input.namespaceId ∧
    attempt.event.workflowId = task.workflowId ∧
    attempt.event.activationId = task.workflowActivationId ∧
    attempt.event.parentWorkflowId = task.parentWorkflowId ∧
    attempt.event.rootWorkflowId = task.rootWorkflowId ∧ attempt.descriptor = task.descriptor

instance (task : TaskSnapshot) (attempt : AttemptSnapshot) : Decidable (Belongs task attempt) :=
  inferInstanceAs (Decidable (_ ∧ _ ∧ _ ∧ _ ∧ _ ∧ _ ∧ _ ∧ _ ∧ _ ∧ _ ∧ _ ∧ _ ∧ _ ∧ _ ∧ _))

def validateAttempt (task : TaskSnapshot) (attempt : AttemptSnapshot) : Result Unit := do
  validateWorkflowLineage task.workflowId task.parentWorkflowId task.rootWorkflowId
  refuse (¬ Belongs task attempt) (invalid "attempt snapshot does not belong to task")

def live (task : TaskSnapshot) (attempt : AttemptSnapshot) (now : Nat) : Prop :=
  task.state = .active ∧ attempt.state = .active ∧
    task.currentAttemptId = some attempt.lease.owner.attemptId ∧
    now < attempt.lease.expiresAt ∧ now < attempt.authorityDeadline

instance (task : TaskSnapshot) (attempt : AttemptSnapshot) (now : Nat) :
    Decidable (live task attempt now) :=
  inferInstanceAs (Decidable (_ ∧ _ ∧ _ ∧ _ ∧ _))

def checkOwner (task : TaskSnapshot) (attempt : AttemptSnapshot) (owner : LeaseOwner) :
    Result Unit := do
  validateAttempt task attempt
  refuse (attempt.lease.owner ≠ owner) .ownershipLost

def AttemptSnapshot.renewSequence (attempt : AttemptSnapshot) : Nat :=
  (attempt.lastRenewal.map RenewCommand.sequence).getD 0

def authority (task : TaskSnapshot) (attempt : AttemptSnapshot) (now : Nat) : Authority :=
  let valid := decide (live task attempt now)
  let cancellation := task.cancelRequestedAt.isSome || decide (attempt.deadline ≤ now)
  { owner := attempt.lease.owner
    expiresAt := attempt.lease.expiresAt
    remainingMs := if valid then attempt.lease.expiresAt - now else 0
    executionRemainingMs := if valid && !cancellation then attempt.deadline - now else 0
    renewSequence := attempt.renewSequence
    cancelRequested := cancellation
    dispatchAllowed := valid && !cancellation && attempt.settlement.isNone &&
      task.input.admission.isNone && attempt.lastRenewal.any fun r => r.intent == .dispatch }

end Ledgence
