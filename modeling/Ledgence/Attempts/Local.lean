import Ledgence.Core.Lifecycle
import Ledgence.Api.Submission
import Ledgence.Ledger.TaskExecution
import Ledgence.Queues.Records
import Ledgence.Renewal.Monitor

/-! The report of an attempt, and how it is made to fit the settlement contract. -/
open Kit Kit.Checked

namespace Ledgence.Attempts

def failure (context : ExecutionContext) (kind : ErrorKind) (message : String) (started : Bool) :
    AttemptReport :=
  .failed
    { observations := none
      context := context
      error := ⟨kind, message⟩
      cleanupError := none
      phase := if started then .execution else .admission
      executionMayHaveStarted := started }

def classifyFailure (report : AttemptReport) : Option ProviderProbeFailureKind :=
  [.incompatibleWorker, .contractMismatch, .resultInvalid, .contextInvalid, .invocationTimeout,
    .invocationFailed, .preparationFailed].find?
    fun kind : ProviderProbeFailureKind => (kind.validateSettlement report).isOk

def checkSettlement (command : SettleCommand) : Result Unit := do
  validateReportOutput command.report
  refuse (settlementMaxBytes < utf8Len (canonicalJsonBytes command.toJson))
    (invalid "settlement limit")
  validateText command.operationId 128
  ifSome command.providerProbeFailure fun failure => failure.validateSettlement command.report

/-- `valid_settlement`. What is in bounds encodes, and decodes again. -/
def validSettlement (command : SettleCommand) : Bool :=
  (checkSettlement command).isOk

def AttemptReport.trimmed : AttemptReport → AttemptReport
  | .completed report => .completed { report with observations := none }
  | .failed report => .failed { report with observations := none }

/-- Telemetry is trimmed first, and a report that still does not fit is replaced. -/
def normalize (probe : Bool) (context : ExecutionContext) (command : SettleCommand) :
    SettleCommand :=
  if validSettlement command = true then command
  else
    let trimmed := { command with report := AttemptReport.trimmed command.report }
    if validSettlement trimmed = true then trimmed
    else
      let report := failure context .protocol "execution report exceeds the settlement contract" true
      { trimmed with
        report := report
        providerProbeFailure :=
          if probe then classifyFailure report else trimmed.providerProbeFailure }

/-- Normalization leaves the quiescence, the owner and the operation as they are. -/
theorem normalize_identity (probe : Bool) (context : ExecutionContext) (command : SettleCommand) :
    (normalize probe context command).quiescence = command.quiescence ∧
      (normalize probe context command).owner = command.owner ∧
      (normalize probe context command).operationId = command.operationId := by
  unfold normalize
  split
  · exact ⟨rfl, rfl, rfl⟩
  · extract_lets trimmed report
    split
    · exact ⟨rfl, rfl, rfl⟩
    · exact ⟨rfl, rfl, rfl⟩

end Ledgence.Attempts

/-! What binds the replies of the orchestrator to one attempt of one authenticated worker. -/

namespace Ledgence

def RunBudgetDenial.code : RunBudgetDenial → String
  | .callsExhausted => "budget_calls_exhausted"
  | .delegationsExhausted => "budget_delegations_exhausted"
  | .deadlineExceeded => "budget_deadline_exceeded"
  | .cancelled => "budget_cancelled"

namespace Attempts

structure AdmissionWorkerIdentity where
  audience : AccessAudience
  issuer : String
  subject : String
  deriving DecidableEq

def AdmissionWorkerIdentity.validate (worker : AdmissionWorkerIdentity) : Result Unit := do
  worker.audience.validate
  (PrincipalIdentity.mk worker.issuer worker.subject).validate

structure TaskAdmissionBinding where
  occurrence : TaskAdmissionOccurrence
  resource : String
  program : ProgramDescriptor
  deriving DecidableEq

def TaskAdmissionBinding.validate (binding : TaskAdmissionBinding) : Result Unit := do
  binding.occurrence.validate
  resourceName binding.resource
  lift binding.program.validate

/-- The encodings of canonical encodings, and the debug text of an error. -/
structure Encodings where
  binding : TaskAdmissionBinding → Digest
  hold : QueueHoldClose → Digest
  error : ContractError → String

structure WorkerSource where
  source : TaskAdmissionSource
  bindingDigest : Digest
  worker : AdmissionWorkerIdentity
  deriving DecidableEq

namespace WorkerSource

def validate (s : WorkerSource) : Result Unit := do
  s.source.validate
  lift s.bindingDigest.validate
  s.worker.validate
  refuse (s.source.owner.scope ≠ s.worker.audience.scope)
    (invalid "inconsistent task admission source")

def matchesBinding (encodings : Encodings) (s : WorkerSource) (binding : TaskAdmissionBinding) :
    Result Bool := do
  s.validate
  if binding.occurrence = .ofOwner s.source.owner ∧ binding.resource = s.source.resource then do
    binding.validate
    return encodings.binding binding = s.bindingDigest
  else return false

end WorkerSource

inductive StartReply where
  | granted (source : WorkerSource) (authority : Authority)
  | existing (snapshot : TaskAdmissionSnapshot) (source : Option WorkerSource)
    (same : snapshot.source = source.map WorkerSource.source)

def StartReply.receipt : StartReply → TaskAdmissionStartReceipt
  | .granted source authority => .granted source.source authority
  | .existing snapshot _ _ => .existing snapshot

structure CloseReply where
  receipt : TaskAdmissionCloseReceipt
  source : Option WorkerSource
  same : receipt.source = source.map WorkerSource.source

structure QueueHoldCloseReceipt where
  sourceDigest : Digest
  queue : String
  taskId : String
  attemptId : String
  revision : Nat
  releaseKind : QueueHoldReleaseKind
  alreadyClosed : Bool
  deriving DecidableEq

def QueueHoldCloseReceipt.validateFor (encodings : Encodings) (receipt : QueueHoldCloseReceipt)
    (c : QueueHoldClose) : Result Unit := do
  c.validate
  positiveRevision receipt.revision
  refuse (receipt.sourceDigest ≠ encodings.hold c ∨ receipt.queue ≠ c.queue ∨
      receipt.taskId ≠ c.owner.taskId ∨ receipt.attemptId ≠ c.owner.attemptId ∨
      (receipt.alreadyClosed = false ∧ receipt.releaseKind ≠ .confirmed))
    .conflict

/-- `TaskAdmissionAttempt`: the Start of one plain task, and who this worker is. -/
structure TaskAdmissionAttempt where
  command : TaskAdmissionStartCommand
  binding : TaskAdmissionBinding
  access : AdmissionWorkerIdentity
  deriving DecidableEq

namespace TaskAdmissionAttempt
variable (a : TaskAdmissionAttempt)

def matchesSource (encodings : Encodings) (s : WorkerSource) : Result Bool :=
  if s.source.matchesCommand a.command = true then do
    let bound ← s.matchesBinding encodings a.binding
    return bound && s.worker.audience = a.access.audience && s.worker.issuer = a.access.issuer &&
      s.worker.subject = a.access.subject
  else .ok false

def owns (encodings : Encodings) (s : WorkerSource) : Bool :=
  match a.matchesSource encodings s with
  | .ok bound => bound
  | .error _ => false

def closeCommand (outcome : TaskAdmissionCloseOutcome) : TaskAdmissionCloseCommand where
  owner := a.command.owner
  offerGeneration := a.command.offerGeneration
  startId := a.command.startId
  operationId := "worker-task-close-v1"
  outcome := outcome

def isReady (context : ExecutionContext) : Bool :=
  context.identity.tenantId = a.command.owner.scope.tenantId &&
    context.identity.namespaceId = a.command.owner.scope.namespaceId &&
    context.identity.attemptNo = a.command.owner.generation &&
    context.identity.taskId = a.command.owner.taskId &&
    context.identity.attemptId = a.command.owner.attemptId &&
    context.program = a.binding.program.program && context.digest = a.binding.program.digest

def answers (reply : StartReply) : Result Bool := do
  reply.receipt.validate
  a.command.validate
  return decide (reply.receipt.Matches a.command)

def knows (encodings : Encodings) (snapshot : TaskAdmissionSnapshot) (source : Option WorkerSource) :
    Bool :=
  (⟨snapshot.occurrence, snapshot.resource, snapshot.program⟩ : TaskAdmissionBinding) = a.binding &&
    source.all (a.owns encodings)

def closedBy (encodings : Encodings) (seen : Option WorkerSource) (command : TaskAdmissionCloseCommand)
    (reply : CloseReply) : Bool :=
  reply.receipt.validate.isOk && reply.receipt.command = command &&
    reply.source.all (a.owns encodings) && seen.all fun source => reply.source = some source

end TaskAdmissionAttempt
end Attempts
end Ledgence

/-! The local execution that a consumer reservation owns: its supervisor, the gate that the host
keeps before a governed invocation, and the operations and cleanup that outlive a result. -/

namespace Ledgence.Attempts

inductive LocalStage where
  | unused
  | preparing
  /-- The prepared process is at the gate, and no Start was sent. -/
  | asking
  | starting (began : Nat)
  | permitted (startBefore : Nat)
  | executing
  /-- The result is there. A retained operation or cleanup may be unfinished. -/
  | ending
  /-- Nothing but the caller holds the reservation any more. -/
  | quiet
  deriving DecidableEq

inductive Execution where
  | notInvoked
  | reported (report : AttemptReport) (probeFailure : Option ProviderProbeFailureKind)

inductive LocalEvent where
  | started (command : TaskAdmissionStartCommand)
  | granted (began : Nat) (source : WorkerSource)
  | invoked (now : Nat)
  deriving DecidableEq

/-- `requested` and `source` belong to the gate. The trace is a record, newest first. -/
structure Local where
  stage : LocalStage
  requested : Bool
  source : Option WorkerSource
  cancelled : Bool
  result : Option Execution
  trace : List LocalEvent

/-- `InvocationPermit::start_before`, an instant in nanoseconds. -/
def startBefore (began : Nat) (source : WorkerSource) : Nat :=
  began + (source.source.startDeadlineAt - source.source.acceptedAt) * nanosPerMs

def runtimeError (encodings : Encodings) (error : ContractError) : Error :=
  match error with
  | .runBudgetDenied reason => ⟨.protocol, reason.code⟩
  | .ownershipLost => ⟨.cancelled, encodings.error error⟩
  | .invalidInput _ | .conflict | .notFound => ⟨.protocol, encodings.error error⟩
  | _ => ⟨.unavailable, encodings.error error⟩

structure Aftermath where
  cleanupError : Option Error
  observations : Option InvocationObservations

/-- The looks at the control, the clock and the replies are arguments of each action. -/
inductive LocalAction where
  /-- The process is ready, and the gate is asked. -/
  | ready
  | begin (checked : WorkerResult Unit) (client : Result Unit) (now : Nat) (after : Aftermath)
  | answer (checked : WorkerResult Unit) (reply : Result StartReply) (now : Nat) (after : Aftermath)
  | invoke (checked : WorkerResult Unit) (now : Nat) (after : Aftermath)
  | complete (report : ExecutionReport)
  /-- What the host makes of the execution of a probe. -/
  | classify (report : AttemptReport) (probeFailure : Option ProviderProbeFailureKind)
  | fail (error : Error) (phase : Phase) (after : Aftermath)
  /-- The supervisor stops before it has reported a result. -/
  | lose
  | quiesce
  | cancel

namespace Local

def new : Local := ⟨.unused, false, none, false, none, []⟩

variable (context : ExecutionContext) (l : Local)

def isQuiescent : Bool :=
  l.stage = .unused || l.stage = .quiet

def finish (result : Execution) : Local :=
  { l with stage := .ending, result := some result }

def fail (error : Error) (phase : Phase) (after : Aftermath) : Local :=
  l.finish (.reported (.failed
    { observations := after.observations
      context := context
      error := error
      cleanupError := after.cleanupError
      phase := phase
      executionMayHaveStarted := l.stage = .executing }) none)

def lose : Local :=
  l.finish (.reported (failure context .runtime
    "execution supervisor stopped before reporting a result" true) none)

section Gate
variable (encodings : Encodings) (a : TaskAdmissionAttempt)

/-- `ready`, as far as the Start. Start is one-shot. -/
def begin (checked : WorkerResult Unit) (client : Result Unit) (now : Nat) (after : Aftermath) :
    Local :=
  if a.isReady context = false then
    l.fail context ⟨.protocol, "prepared invocation differs from task admission"⟩ .admission after
  else
    match checked with
    | .error error => l.fail context error .admission after
    | .ok _ =>
      if l.requested = true then
        l.fail context ⟨.protocol, "task admission Start is one-shot"⟩ .admission after
      else
        let l := { l with requested := true }
        match client with
        | .error error => l.fail context (runtimeError encodings error) .admission after
        | .ok _ => { l with stage := .starting now, trace := .started a.command :: l.trace }

def grant (source : WorkerSource) (began now : Nat) (after : Aftermath) : Local :=
  match a.matchesSource encodings source with
  | .error error => l.fail context (runtimeError encodings error) .admission after
  | .ok false =>
    l.fail context ⟨.protocol, "task admission source binding mismatch"⟩ .admission after
  | .ok true =>
    let l := { l with source := some source, trace := .granted began source :: l.trace }
    if startBefore began source ≤ now then
      l.fail context ⟨.timedOut, "invocation permission expired before dispatch"⟩ .admission after
    else { l with stage := .permitted (startBefore began source) }

def admitted (reply : StartReply) (began now : Nat) (after : Aftermath) : Local :=
  match a.answers reply with
  | .error error => l.fail context (runtimeError encodings error) .admission after
  | .ok false =>
    l.fail context ⟨.protocol, "task admission Start identity mismatch"⟩ .admission after
  | .ok true =>
    match reply with
    | .granted source _ => l.grant context encodings a source began now after
    | .existing snapshot source _ =>
      if a.knows encodings snapshot source = false then
        l.fail context ⟨.protocol, "task admission existing state mismatch"⟩ .admission after
      else { l with source := source }.finish .notInvoked

/-- `ready`, from the reply to Start on. -/
def answer (checked : WorkerResult Unit) (reply : Result StartReply) (began now : Nat)
    (after : Aftermath) : Local :=
  match reply, checked with
  | .error error, _ => l.fail context (runtimeError encodings error) .admission after
  | .ok _, .error error => l.fail context error .admission after
  | .ok reply, .ok _ => l.admitted context encodings a reply began now after

end Gate

def invoke (checked : WorkerResult Unit) (permit : Option Nat) (now : Nat) (after : Aftermath) :
    Local :=
  match checked with
  | .error error => l.fail context error .admission after
  | .ok _ =>
    if permit.any (· ≤ now) = true then
      l.fail context ⟨.timedOut, "invocation permission expired before dispatch"⟩ .admission after
    else { l with stage := .executing, trace := .invoked now :: l.trace }

def isRunning : LocalStage → Bool
  | .preparing | .asking | .starting _ | .permitted _ | .executing => true
  | .unused | .ending | .quiet => false

/-- An action at a stage that it does not belong to does nothing. -/
def step (encodings : Encodings) (attempt : Option TaskAdmissionAttempt) (action : LocalAction) :
    Local :=
  match action, l.stage, attempt with
  | .ready, .preparing, some _ => { l with stage := .asking }
  | .begin checked client now after, .asking, some a => l.begin context encodings a checked client now after
  | .answer checked reply now after, .starting began, some a =>
    l.answer context encodings a checked reply began now after
  | .invoke checked now after, .permitted startBefore, some _ =>
    l.invoke context checked (some startBefore) now after
  | .invoke checked now after, .preparing, none => l.invoke context checked none now after
  | .complete report, .executing, _ => l.finish (.reported (.completed report) none)
  | .classify report probeFailure, .executing, none => l.finish (.reported report probeFailure)
  | .fail error phase after, stage, _ =>
    if isRunning stage = true then l.fail context error phase after else l
  | .lose, stage, _ => if isRunning stage = true then l.lose context else l
  | .quiesce, .ending, _ => { l with stage := .quiet }
  | .cancel, _, _ => { l with cancelled := true }
  | _, _, _ => l

end Local
end Ledgence.Attempts
