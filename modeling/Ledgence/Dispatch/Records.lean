import Ledgence.Ledger.TaskExecution
import Ledgence.Runs.TaskRun

/-! References to a task's generations, and how the claims of brokers are answered. -/
open Kit Kit.Checked

namespace Ledgence

structure DispatchRef where
  scope : Scope
  queue : String
  taskId : String
  generation : Nat
  deriving DecidableEq

def DispatchRef.validate (reference : DispatchRef) : Result Unit := do
  reference.scope.validate
  validateText reference.queue 128
  validateText reference.taskId 128
  refuse (reference.generation = 0 ∨ maxTaskAttemptGeneration < reference.generation)
    (invalid "dispatch generation must be positive")

structure ClaimCommand where
  acquisition : AcquireCommand
  dispatch : DispatchRef
  deriving DecidableEq

def ClaimCommand.validate (c : ClaimCommand) : Result Unit := do
  c.dispatch.validate
  c.acquisition.scope.validate
  validateText c.acquisition.queue 128
  validateText c.acquisition.workerSessionId 128
  refuse (c.acquisition.sequence = 0) (invalid "claim sequence must be nonzero")
  refuse (c.acquisition.scope ≠ c.dispatch.scope ∨ c.acquisition.queue ≠ c.dispatch.queue)
    (invalid "claim consumer and dispatch scope/queue differ")

inductive ClaimDisposition where
  /-- A durable resource wait owns the future wake. -/
  | admissionDeferred (occurrence : TaskAdmissionOccurrence)
  | claimed (reply : AcquireReply)
  | alreadyHandedOff (attempt : AttemptRef)
  | terminalOrSuperseded
  /-- Matching future delivery is durably guaranteed by an unfulfilled intent. -/
  | deferred (availableAt : Nat)

structure ClaimReply where
  command : ClaimCommand
  disposition : ClaimDisposition

def validateAttemptRef (attempt : AttemptRef) (dispatch : DispatchRef) : Result Unit := do
  refuse (attempt.taskId ≠ dispatch.taskId) (invalid "claim attempt references another task")
  validateText attempt.attemptId 128

def Assignment.IsFor (assignment : Assignment) (c : ClaimCommand) : Prop :=
  let owner := assignment.lease.owner
  owner.scope = c.dispatch.scope ∧ owner.taskId = c.dispatch.taskId ∧
    owner.generation = c.dispatch.generation ∧
    owner.workerSessionId = c.acquisition.workerSessionId ∧
    owner.consumerId = c.acquisition.consumerId ∧ assignment.authority.owner = owner ∧
    assignment.authority.expiresAt = assignment.lease.expiresAt ∧
    assignment.event.tenantId = owner.scope.tenantId ∧
    assignment.event.namespaceId = owner.scope.namespaceId ∧
    assignment.event.taskId = owner.taskId ∧ assignment.event.attemptId = owner.attemptId ∧
    assignment.event.attemptNo = owner.generation

instance (assignment : Assignment) (c : ClaimCommand) : Decidable (assignment.IsFor c) :=
  inferInstanceAs (Decidable (_ ∧ _ ∧ _ ∧ _ ∧ _ ∧ _ ∧ _ ∧ _ ∧ _ ∧ _ ∧ _ ∧ _))

def Assignment.validateWorkflowIdentity (assignment : Assignment) : Result Unit := do
  ifSome assignment.taskAdmission fun marker => do
    TaskAdmissionRequest.TaskAdmissionAssignment.validate marker
    refuse (assignment.workflowActivationId.isSome ∨ assignment.providerProbe.isSome ∨
        assignment.event.workflowId.isSome)
      (invalid "task admission requires a standalone task")
  ifSome assignment.providerProbe fun probe => do
    probe.validate
    refuse (assignment.workflowActivationId.isSome ∨
        assignment.lease.owner.scope ≠ probe.occurrence.scope ∨
        assignment.event.workflowId ≠ some probe.occurrence.workflowId)
      (invalid "provider assignment identity mismatch")
  refuse (assignment.workflowActivationId ≠ assignment.event.activationId ∨
      ∃ id ∈ assignment.event.activationId, id ≠ assignment.lease.owner.taskId)
    (invalid "workflow assignment identity mismatch")

namespace ClaimReply
variable (reply : ClaimReply)

def validateIdentity (expected : ClaimCommand) : Result Unit := do
  refuse (reply.command ≠ expected) (invalid "claim command changed")
  match reply.disposition with
  | .claimed (.assigned sequence assignment) => do
    refuse (sequence ≠ expected.acquisition.sequence) (invalid "claim sequence changed")
    refuse (¬ assignment.IsFor expected) (invalid "claim assignment identity changed")
    validateText assignment.lease.owner.attemptId 128
    validateText assignment.lease.owner.leaseId 128
    lift assignment.descriptor.validate
    assignment.validateWorkflowIdentity
    [assignment.event.id, assignment.event.runId, assignment.event.taskId,
      assignment.event.attemptId].forM fun text => validateText text 128
    validateText assignment.event.source 2048
  | .claimed (.ownershipLost sequence attempt) => do
    refuse (sequence ≠ expected.acquisition.sequence) (invalid "claim sequence changed")
    validateAttemptRef attempt expected.dispatch
  | .claimed (.empty _) => .error (invalid "claimed response cannot be empty")
  | .alreadyHandedOff attempt => validateAttemptRef attempt expected.dispatch
  | .terminalOrSuperseded => .ok ()
  | .admissionDeferred occurrence => do
    occurrence.validate
    refuse (occurrence ≠
        ⟨expected.dispatch.scope, expected.dispatch.taskId, expected.dispatch.generation⟩)
      (invalid "admission deferral references another dispatch")
  | .deferred availableAt =>
    refuse (i64Max < availableAt) (invalid "deferred timestamp exceeds supported range")

/-- A reply that does not answer the command proves no handoff. -/
def validateAgainst (expected : ClaimCommand) : Result Unit := do
  expected.validate
  (reply.validateIdentity expected).mapError fun _ =>
    .unavailable "claim response does not match the requested dispatch"

end ClaimReply

structure PublishedDispatch where
  dispatch : DispatchRef
  publicationId : String
  deriving DecidableEq

inductive DispatchDecision where
  | ready
  | handled (disposition : ClaimDisposition)

def classifyDispatch (task : TaskSnapshot) (reference : DispatchRef) (now : Nat)
    (recoverableFuture : Bool) : Result DispatchDecision := do
  reference.validate
  refuse (reference.scope ≠ task.scope ∨ reference.queue ≠ task.input.queue ∨
      reference.taskId ≠ task.taskId)
    .conflict
  let next ← okOr (checkedAdd u32Max task.attemptCount 1) (invalid "attempt generation overflow")
  refuse (next < reference.generation) (invalid "dispatch generation has never been issued")
  if task.state.isTerminal = true ∨ task.cancelRequestedAt.isSome = true then
    return .handled .terminalOrSuperseded
  else if task.state = .active then do
    refuse (task.attemptCount < reference.generation)
      (invalid "dispatch generation has never been issued")
    if reference.generation = task.attemptCount then do
      let attemptId ← okOr task.currentAttemptId (invalid "active task has no attempt")
      return .handled (.alreadyHandedOff ⟨task.taskId, attemptId⟩)
    else return .handled .terminalOrSuperseded
  else if reference.generation < next then return .handled .terminalOrSuperseded
  else if now < task.availableAt then do
    refuse (recoverableFuture = false)
      (.unavailable "future dispatch has no durable delivery obligation")
    return .handled (.deferred task.availableAt)
  else return .ready

end Ledgence
