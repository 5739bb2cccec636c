import Ledgence.Api.Submission

/-! The scheduling records of tasks, attempts and consumers, and the commands on them. -/
open Kit Kit.Checked

namespace Ledgence

inductive TaskState where
  | queued
  | active
  | succeeded
  | failed
  | cancelled
  deriving DecidableEq

def TaskState.isTerminal : TaskState → Bool
  | .succeeded | .failed | .cancelled => true
  | .queued | .active => false

inductive AttemptState where
  | deferred
  | active
  | succeeded
  | failed
  | cancelled
  | lost
  deriving DecidableEq

structure EffectOccurrence where
  scope : Scope
  workflowId : String
  activationId : String
  approvalKey : String
  deriving DecidableEq

def EffectOccurrence.validate (occurrence : EffectOccurrence) : Result Unit := do
  occurrence.scope.validate
  [occurrence.workflowId, occurrence.activationId, occurrence.approvalKey].forM
    fun id => validateText id 128

structure ProviderProbeAssignment where
  occurrence : EffectOccurrence
  probeId : String
  generation : Nat
  deriving DecidableEq

def ProviderProbeAssignment.validate (probe : ProviderProbeAssignment) : Result Unit := do
  probe.occurrence.validate
  validateText probe.probeId 128
  positive probe.generation

structure TaskSnapshot where
  admissionDeferrals : Nat
  providerProbe : Option ProviderProbeAssignment
  parentWorkflowId : Option String
  rootWorkflowId : Option String
  workflowId : Option String
  workflowActivationId : Option String
  taskId : String
  runId : String
  idempotencyKey : String
  input : SubmitTask
  descriptor : ProgramDescriptor
  originTrace : Option TraceContext
  state : TaskState
  submittedAt : Nat
  availableAt : Nat
  terminalAt : Option Nat
  currentAttemptId : Option String
  attemptCount : Nat
  cancelRequestedAt : Option Nat

def TaskSnapshot.chargedAttempts (task : TaskSnapshot) : Result Nat :=
  taskRetryAttempts task.attemptCount task.admissionDeferrals task.input.admission.isSome

def TaskSnapshot.scope (task : TaskSnapshot) : Scope :=
  ⟨task.input.tenantId, task.input.namespaceId⟩

structure WorkerSession where
  features : List String
  id : String
  scope : Scope
  queue : String
  concurrency : Nat
  expiresAt : Nat
  deriving DecidableEq

structure AcquireCommand where
  scope : Scope
  queue : String
  workerSessionId : String
  consumerId : Nat
  sequence : Nat
  deriving DecidableEq

structure AttemptRef where
  taskId : String
  attemptId : String
  deriving DecidableEq

structure ConsumerCursor where
  command : AcquireCommand
  assignment : Option AttemptRef
  deriving DecidableEq

structure LeaseOwner where
  scope : Scope
  taskId : String
  attemptId : String
  leaseId : String
  generation : Nat
  workerSessionId : String
  consumerId : Nat
  deriving DecidableEq

structure Lease where
  owner : LeaseOwner
  expiresAt : Nat
  deriving DecidableEq

structure Authority where
  owner : LeaseOwner
  expiresAt : Nat
  remainingMs : Nat
  executionRemainingMs : Nat
  renewSequence : Nat
  cancelRequested : Bool
  dispatchAllowed : Bool
  deriving DecidableEq

structure TaskAdmissionAssignment where
  offerGeneration : Nat
  resource : String
  deriving DecidableEq

structure Assignment where
  queueConcurrency : Bool
  taskAdmission : Option TaskAdmissionAssignment
  providerProbe : Option ProviderProbeAssignment
  workflowActivationId : Option String
  descriptor : ProgramDescriptor
  event : CloudEvent
  lease : Lease
  authority : Authority
  attemptDeadline : Nat

inductive AcquireReply where
  | empty (sequence : Nat)
  | assigned (sequence : Nat) (assignment : Assignment)
  | ownershipLost (sequence : Nat) (assignment : AttemptRef)

inductive RenewIntent where
  | keepAlive
  | prepare
  | dispatch
  deriving DecidableEq

structure RenewCommand where
  owner : LeaseOwner
  sequence : Nat
  intent : RenewIntent
  deriving DecidableEq

inductive Quiescence where
  | confirmed
  | unconfirmed
  deriving DecidableEq

inductive AttemptReport where
  | completed (report : ExecutionReport)
  | failed (report : ExecutionFailure)

inductive ProviderProbeFailureKind where
  | incompatibleWorker
  | contractMismatch
  | contextInvalid
  | resultInvalid
  | invocationTimeout
  | invocationFailed
  | preparationFailed
  | workerLost
  | cancelled
  | missingReport
  deriving DecidableEq

structure SettleCommand where
  providerProbeFailure : Option ProviderProbeFailureKind
  owner : LeaseOwner
  operationId : String
  report : AttemptReport
  quiescence : Quiescence
  processingTrace : Option TraceContext

structure SettlementReceipt where
  operationId : String
  taskId : String
  attemptId : String
  acceptedAt : Nat
  deriving DecidableEq

structure AcceptedSettlement where
  command : SettleCommand
  receipt : SettlementReceipt

structure SettleReply where
  receipt : SettlementReceipt
  alreadyAccepted : Bool
  taskState : TaskState
  deriving DecidableEq

structure AttemptSnapshot where
  budgetDenial : Option RunBudgetDenial
  taskAdmission : Option TaskAdmissionAssignment
  event : CloudEvent
  descriptor : ProgramDescriptor
  lease : Lease
  deadline : Nat
  authorityDeadline : Nat
  state : AttemptState
  executionMayHaveStarted : Bool
  lastRenewal : Option RenewCommand
  quiescence : Quiescence
  settlement : Option AcceptedSettlement
  finishedAt : Option Nat

inductive TransitionReason where
  | admissionDeferred
  | admissionStopped
  | submitted
  | claimed
  | dispatchAuthorized
  | cancelRequested
  | cancelled
  | reportAccepted
  | cleanupConfirmed
  | succeeded
  | failed
  | retryScheduled
  | leaseExpired
  deriving DecidableEq

structure HistoryEvent where
  taskId : String
  attemptId : Option String
  at' : Nat
  reason : TransitionReason
  deriving DecidableEq

def AttemptReport.claimsExecution : AttemptReport → Bool
  | .completed _ => true
  | .failed report => report.executionMayHaveStarted

def AttemptReport.context : AttemptReport → ExecutionContext
  | .completed report => report.context
  | .failed report => report.context

def validateTaskOutput (output : Json) (workflowActivation : Bool) : Result Unit :=
  if workflowActivation then lift (validateRuntimePayload output settlementMaxBytes)
  else lift (validateWireValue output)

def providerInvalid : ContractError := invalid "invalid provider operation contract"

namespace ProviderProbeFailureKind

def allows (failure : ProviderProbeFailureKind) (kind : ErrorKind) (phase : Phase) : Bool :=
  match failure with
  | .incompatibleWorker =>
    kind == .incompatible && (phase == .admission || phase == .preparation || phase == .startup)
  | .contractMismatch =>
    (kind == .integrity || kind == .incompatible) &&
      (phase == .admission || phase == .preparation || phase == .execution)
  | .contextInvalid =>
    (kind == .protocol || kind == .invalidInput) && (phase == .admission || phase == .execution)
  | .resultInvalid => kind == .protocol && phase == .execution
  | .invocationTimeout => kind == .timedOut && phase == .execution
  | .invocationFailed =>
    (kind == .runtime || kind == .io || kind == .unavailable || kind == .cancelled) &&
      (phase == .execution || phase == .cleanup)
  | .preparationFailed =>
    kind != .incompatible && (phase == .admission || phase == .preparation || phase == .startup)
  | .workerLost | .cancelled | .missingReport => false

def validateSettlement (failure : ProviderProbeFailureKind) (report : AttemptReport) :
    Result Unit :=
  match report with
  | .completed _ => .error providerInvalid
  | .failed report =>
    refuse (failure.allows report.error.kind report.phase = false) providerInvalid

end ProviderProbeFailureKind
end Ledgence
