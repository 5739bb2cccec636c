import Ledgence.Api.Evidence
import Ledgence.Budgets.Ledger
import Ledgence.Core.Basics
import Ledgence.Kit.OrderedMap
import Ledgence.Runs.TaskRun

/-! A workflow and the children it registers: the commands of its decisions and forks, and the rows
that hold them. -/
open Kit Kit.Checked

namespace Ledgence

def workflowMaxCommands : Nat := 64
def workflowMaxForks : Nat := 64
def workflowForkMaxBytes : Nat := 128 * 1024
def workflowForkCommandMaxBytes : Nat := 144 * 1024
def workflowForkLedgerMaxBytes : Nat := 256 * 1024
def workflowMaxDepth : Nat := 16
def workflowMaxLiveSubworkflows : Nat := 64

inductive WorkflowChildKind where
  | task
  | workflow
  deriving DecidableEq

def WorkflowChildKind.name : WorkflowChildKind → String
  | .task => "task"
  | .workflow => "workflow"

def TraceContext.validate (trace : TraceContext) : WorkerResult Unit := do
  validateTraceparent trace.traceparent
  ifSome trace.tracestate validateTracestate

def WorkflowSnapshot.lineage (workflow : WorkflowSnapshot) (taskId : String) (activation : Bool)
    (probe : Option ProviderProbeAssignment) : Lineage where
  providerProbe := probe
  parentWorkflowId := workflow.parentWorkflowId
  rootWorkflowId := workflow.rootWorkflowId
  workflowId := some workflow.workflowId
  workflowActivationId := if activation then some taskId else none

def insertTask (command : SubmitCommand) (descriptor : ProgramDescriptor) (taskId runId : String)
    (workflow : WorkflowSnapshot) (activation : Bool) (probe : Option ProviderProbeAssignment)
    (now : Nat) : Result TaskRun := do
  let transition ← submit command descriptor taskId runId now
  refuse (transition.task.input.admission.isSome = true)
    (invalid "task admission requires a standalone task")
  return TaskRun.submitted transition (workflow.lineage taskId activation probe)

def SubmitTask.canonicalBytes (task : SubmitTask) : Result (List Char) := do
  lift task.validate
  return canonicalJsonBytes task.toJson

def SubmitTask.semanticallyMatches (task other : SubmitTask) : Result Bool := do
  let bytes ← task.canonicalBytes
  let bytes' ← other.canonicalBytes
  return decide (bytes = bytes')

/- Decisions. -/

structure WorkflowChildCommand where
  kind : WorkflowChildKind
  key : String
  program : ProgramRef
  queue : String
  data : Value
  retryPolicy : RetryPolicy
  attemptTimeoutMs : Nat

namespace WorkflowChildCommand

def submission (command : WorkflowChildCommand) (scope : Scope) (correlationKey : Option String) :
    SubmitTask where
  budget := none
  admission := none
  tenantId := scope.tenantId
  namespaceId := scope.namespaceId
  queue := command.queue
  program := command.program
  correlationKey
  data := command.data
  retryPolicy := command.retryPolicy
  attemptTimeoutMs := command.attemptTimeoutMs

def validate (command : WorkflowChildCommand) : Result Unit := do
  validateText command.key 128
  lift (command.submission ⟨"validation", "validation"⟩ none).validate

end WorkflowChildCommand

/-- What a controller asks for. The checkpoint and the terms of an external wait are carried on
without being looked into here. -/
inductive WorkflowAction where
  | wait (continuation : String) (commands : List WorkflowChildCommand)
  | suspend (continuation : String) (commands : List WorkflowChildCommand) (until' : List String)
  | continue (continuation : String) (commands : List WorkflowChildCommand)
  | complete
  | fail (error : ApplicationError)

structure WorkflowDecision where
  v : Nat
  activationId : String
  revision : Nat
  action : WorkflowAction

def validateDistinct {α : Type} (key : α → String) (validate : α → Result Unit)
    (duplicate : ContractError) : List String → List α → Result Unit
  | _, [] => .ok ()
  | keys, item :: items => do
    validate item
    refuse (key item ∈ keys) duplicate
    validateDistinct key validate duplicate (key item :: keys) items

def validateContinuation (continuation : String) (commands : List WorkflowChildCommand) :
    Result Unit := do
  validateText continuation 128
  refuse (workflowMaxCommands < commands.length)
    (invalid "workflow command batch exceeds supported limit")
  validateDistinct WorkflowChildCommand.key WorkflowChildCommand.validate
    (invalid "duplicate workflow command key") [] commands

namespace WorkflowDecision

def commands (decision : WorkflowDecision) : List WorkflowChildCommand :=
  match decision.action with
  | .wait _ commands | .suspend _ commands _ | .continue _ commands => commands
  | .complete | .fail _ => []

def validate (decision : WorkflowDecision) : Result Unit := do
  refuse (decision.v ≠ 1) (invalid "unsupported workflow version")
  validateText decision.activationId 128
  match decision.action with
  | .wait continuation commands | .continue continuation commands =>
    validateContinuation continuation commands
  | .suspend continuation commands until' => do
    validateContinuation continuation commands
    refuse (workflowMaxCommands < until'.length) (invalid "wait membership exceeds supported limit")
    validateDistinct id (fun key => validateText key 128) (invalid "duplicate wait member") [] until'
  | .complete => return ()
  | .fail error => validateWorkflowError error

end WorkflowDecision

structure ResolvedWorkflowChild where
  kind : WorkflowChildKind
  key : String
  descriptor : ProgramDescriptor
  deriving DecidableEq

def ResolvedWorkflowChild.toJson (child : ResolvedWorkflowChild) : Json :=
  .object [("kind", some (.str child.kind.name)), ("key", some (.str child.key)),
    ("descriptor", some child.descriptor.toJson)]

/- Forks. -/

structure WorkflowBranch where
  key : String
  entrypoint : String
  queue : String
  data : Value
  retryPolicy : RetryPolicy
  attemptTimeoutMs : Nat

namespace WorkflowBranch

def validate (branch : WorkflowBranch) : Result Unit := do
  validateText branch.key 128
  validateText branch.entrypoint 128
  validateText branch.queue 128
  lift (validateWireValue branch.data.json)
  lift branch.retryPolicy.validate
  refuse (branch.attemptTimeoutMs < 60000 ∨ 86400000 < branch.attemptTimeoutMs)
    (invalid "attempt_timeout_ms must be between 60000 and 86400000")

def toJson (branch : WorkflowBranch) : Json :=
  .object [("key", some (.str branch.key)), ("entrypoint", some (.str branch.entrypoint)),
    ("queue", some (.str branch.queue)), ("data", some branch.data.json),
    ("retry_policy", some branch.retryPolicy.toJson),
    ("attempt_timeout_ms", some (.nat branch.attemptTimeoutMs))]

def command (branch : WorkflowBranch) (program : ProgramRef) : WorkflowChildCommand where
  kind := .workflow
  key := branch.key
  program
  queue := branch.queue
  data := branch.data
  retryPolicy := branch.retryPolicy
  attemptTimeoutMs := branch.attemptTimeoutMs

end WorkflowBranch

structure WorkflowForkRequest where
  key : String
  branches : List WorkflowBranch

namespace WorkflowForkRequest

def toJson (fork : WorkflowForkRequest) : Json :=
  .object [("key", some (.str fork.key)),
    ("branches", some (.arr (fork.branches.map WorkflowBranch.toJson)))]

def branchKeys (fork : WorkflowForkRequest) : List String := fork.branches.map WorkflowBranch.key

def bytes (fork : WorkflowForkRequest) : List Char := canonicalJsonBytes fork.toJson

def validate (fork : WorkflowForkRequest) : Result Unit := do
  validateText fork.key 128
  refuse (fork.branches = [] ∨ workflowMaxCommands < fork.branches.length)
    (invalid "workflow fork must contain 1 to 64 branches")
  validateDistinct WorkflowBranch.key WorkflowBranch.validate (invalid "duplicate fork branch key") []
    fork.branches
  lift (checkEncodedSize fork.toJson workflowForkMaxBytes "workflow fork")

end WorkflowForkRequest

structure WorkflowForkCommand where
  owner : LeaseOwner
  fork : WorkflowForkRequest
  processingTrace : Option TraceContext

namespace WorkflowForkCommand

def toJson (command : WorkflowForkCommand) : Json :=
  .object [("owner", some command.owner.toJson), ("fork", some command.fork.toJson),
    ("processing_trace", command.processingTrace.map TraceContext.toJson)]

def validate (command : WorkflowForkCommand) : Result Unit := do
  command.owner.validate
  command.fork.validate
  ifSome command.processingTrace fun trace => lift trace.validate
  lift (checkEncodedSize command.toJson workflowForkCommandMaxBytes "workflow fork command")

end WorkflowForkCommand

structure WorkflowForkReceipt where
  key : String
  branchKeys : List String
  alreadyAccepted : Bool
  deriving DecidableEq

/-- `receipt` -/
def forkReceipt (fork : WorkflowForkRequest) (alreadyAccepted : Bool) : WorkflowForkReceipt where
  key := fork.key
  branchKeys := fork.branchKeys
  alreadyAccepted

/- Rows. -/

/-- The part of a row of `workflow_runs` that does not change. -/
structure WorkflowOrigin where
  nestingDepth : Nat
  hasRunBudget : Bool
  submission : SubmitCommand
  controller : ProgramDescriptor

/-- A row of `attempts`, as far as it authorizes its owner, and whether it was settled. -/
structure AttemptAuthority where
  owner : LeaseOwner
  state : AttemptState
  settled : Bool
  expiresAt : Nat
  authorityDeadline : Nat
  executionDeadline : Nat
  executionMayHaveStarted : Bool
  deriving DecidableEq

def AttemptAuthority.attemptId (attempt : AttemptAuthority) : String := attempt.owner.attemptId

/-- A decision as it comes out of `WorkflowDecision::decode`. -/
structure DecodedDecision where
  decision : WorkflowDecision
  valid : decision.validate = .ok ()

/-- How a controller's task ended. Of an output it is known what `WorkflowDecision::decode` makes of
it. -/
inductive ControllerOutcome where
  | succeeded (decoded : Result DecodedDecision) (processingTrace : Option TraceContext)
  | failed (failure : TaskFailure)
  | cancelled

/-- A row of `workflow_activations`, with the task that runs it. -/
structure WorkflowActivation where
  activationId : String
  revision : Nat
  taskState : TaskState
  currentAttemptId : Option String
  cancellationRequested : Bool
  attempts : List AttemptAuthority
  outcome : Option ControllerOutcome

/-- A row of `workflow_task_links` for a child, or of `owned_workflow_links`, and what it links to. -/
structure WorkflowChild where
  kind : WorkflowChildKind
  key : String
  childId : String
  activationId : String
  forkKey : Option String
  entrypoint : String
  submission : SubmitCommand
  descriptor : ProgramDescriptor
  /-- The task, or the first activation of the workflow. -/
  taskId : String
  terminal : Bool

def WorkflowChild.resolved (child : WorkflowChild) : ResolvedWorkflowChild :=
  ⟨child.kind, child.key, child.descriptor⟩

/-- A row of `workflow_forks`. -/
structure WorkflowFork where
  request : WorkflowForkRequest
  activationId : String
  attemptId : String
  acceptedAt : Nat

def WorkflowFork.key (fork : WorkflowFork) : String := fork.request.key

inductive WorkflowWorkSource where
  | taskTerminal (taskId : String) (activation : Bool)
  | workflowTerminal (workflowId : String)
  | drain
  | cancelOwned
  | wait
  | effectResolutionWait
  | providerWait
  | admissionWait
  | providerProbeTerminal (probeId : String) (generation : Nat) (taskId : String)
  deriving DecidableEq

structure WorkflowWork where
  id : String
  token : String
  workflowId : String
  source : WorkflowWorkSource
  resolvedChildren : List ResolvedWorkflowChild
  deriving DecidableEq

/-- A row of `workflow_work` for the end of a controller's task, with its checkpoint. -/
structure WorkItem where
  id : String
  taskId : String
  availableAt : Nat
  createdAt : Nat
  lease : Option (String × Nat)
  failures : Nat
  lastError : Option String
  processedAt : Option Nat
  resolution : Option (List ResolvedWorkflowChild)

def WorkItem.source (item : WorkItem) : WorkflowWorkSource := .taskTerminal item.taskId true

end Ledgence

/-! One workflow with the children it registers. Every transaction locks the workflow first, so each
is one step; one that fails leaves nothing behind. -/

namespace Ledgence

structure Family where
  workflow : WorkflowSnapshot
  /-- Retention has begun to take the workflow away. -/
  retiring : Bool
  origin : WorkflowOrigin
  activations : List WorkflowActivation
  children : List WorkflowChild
  forks : List WorkflowFork
  work : List WorkItem
  budgets : BudgetStore
  /-- The attempts to which `run_budget_fork_refusals` of this workflow were given, by fork key. -/
  refusedAttempts : List (String × String)

structure ChildIds where
  workflowId : String
  taskId : String
  runId : String

namespace Family
variable (s : Family)

/-- `data::corrupt` -/
def corrupt (label : String) : ContractError :=
  .unavailable ("invalid workflow persistence: " ++ label)

/-- `status_record` -/
def status : Result WorkflowSnapshot := do
  refuse (s.retiring = true) .notFound
  s.workflow.validate.mapError fun _ => corrupt "snapshot"
  return s.workflow

def activation (id : String) : Option WorkflowActivation :=
  Table.find WorkflowActivation.activationId id s.activations

def fork (key : String) : Option WorkflowFork := Table.find WorkflowFork.key key s.forks

def lockActivation (owner : LeaseOwner) : Result (WorkflowActivation × AttemptAuthority) := do
  owner.scope.validate
  validateText owner.taskId 128
  validateText owner.attemptId 128
  let activation ← okOr (s.activation owner.taskId) .ownershipLost
  refuse (owner.scope ≠ s.workflow.scope) .notFound
  let _ ← s.status
  let attempt ← okOr (Table.find AttemptAuthority.attemptId owner.attemptId activation.attempts)
    .ownershipLost
  refuse (attempt.owner.leaseId ≠ owner.leaseId ∨ attempt.owner.generation ≠ owner.generation ∨
      attempt.owner.workerSessionId ≠ owner.workerSessionId ∨
      attempt.owner.consumerId ≠ owner.consumerId) .ownershipLost
  return (activation, attempt)

def checkLive (activation : WorkflowActivation) (attempt : AttemptAuthority) (owner : LeaseOwner)
    (now : Nat) (requireDispatch : Bool) : Result Unit :=
  refuse (s.workflow.state ≠ .running ∨ s.workflow.activationId ≠ some owner.taskId ∨
      activation.taskState ≠ .active ∨ activation.currentAttemptId ≠ some owner.attemptId ∨
      activation.cancellationRequested = true ∨ attempt.state ≠ .active ∨ attempt.settled = true ∨
      attempt.expiresAt ≤ now ∨ attempt.authorityDeadline ≤ now ∨ attempt.executionDeadline ≤ now ∨
      requireDispatch = true ∧ attempt.executionMayHaveStarted = false) .ownershipLost

/- Registration. -/

def registeredChildren (activationId : String) : Nat :=
  s.children.countP fun child => child.activationId = activationId

def checkChildBudget (registered additional : Nat) : Result Unit :=
  refuse (workflowMaxCommands < registered + additional)
    (invalid "workflow activation child registrations exceed supported limit")

def link (child : WorkflowChild) : Result Family := do
  refuse (∃ other ∈ s.children, other.kind = child.kind ∧
      (other.key = child.key ∨ other.childId = child.childId)) BudgetStore.databaseError
  refuse (s.activation child.activationId = none) (corrupt "missing creating activation")
  return { s with children := s.children ++ [child] }

def enroll (parent : String) (member : RunBudgetSubject) : Result Family :=
  if s.origin.hasRunBudget then do
    let budgets ← s.budgets.inherit s.workflow.scope (.workflow parent) member
    return { s with budgets }
  else return s

def newborn (workflowId taskId : String) (now : Nat) : WorkflowSnapshot where
  parentWorkflowId := some s.workflow.workflowId
  rootWorkflowId := some (s.workflow.rootWorkflowId.getD s.workflow.workflowId)
  workflowId
  scope := s.workflow.scope
  state := .running
  revision := 0
  activationId := some taskId
  submittedAt := now
  terminalAt := none
  correlationKey := s.workflow.correlationKey

structure ChildStart where
  descriptor : ProgramDescriptor
  entrypoint : String
  forkKey : Option String
  originTrace : Option TraceContext

def ownedChild (activationId : String) (command : WorkflowChildCommand) (start : ChildStart)
    (ids : ChildIds) : WorkflowChild where
  kind := .workflow
  key := command.key
  childId := ids.workflowId
  activationId
  forkKey := start.forkKey
  entrypoint := start.entrypoint
  submission :=
    { idempotencyKey := "owned:" ++ ids.workflowId
      input := command.submission s.workflow.scope s.workflow.correlationKey
      originTrace := start.originTrace }
  descriptor := start.descriptor
  taskId := ids.taskId
  terminal := false

/-- `create_child_at`, and the first activation of the child that it schedules. -/
def createChildAt (activationId : String) (command : WorkflowChildCommand) (start : ChildStart)
    (ids : ChildIds) (now : Nat) : Result Family := do
  refuse (workflowMaxDepth ≤ s.origin.nestingDepth)
    (invalid "workflow nesting exceeds supported depth")
  refuse (workflowMaxLiveSubworkflows ≤ s.children.countP fun child =>
      child.kind = .workflow ∧ child.terminal = false)
    (invalid "workflow has too many live owned subworkflows")
  let child := s.ownedChild activationId command start ids
  let s ← s.link child
  let s ← s.enroll s.workflow.workflowId (.workflow ids.workflowId)
  (validateSubmission child.submission).mapError fun _ => corrupt "submission"
  (lift start.descriptor.validate).mapError fun _ => corrupt "controller descriptor"
  refuse (start.descriptor.program ≠ child.submission.input.program) (corrupt "submission indexes")
  validateText start.entrypoint 128
  let key := "workflow:" ++ ids.workflowId ++ ":" ++ ids.taskId
  let _ ← insertTask { child.submission with idempotencyKey := key } start.descriptor ids.taskId
    ids.runId (s.newborn ids.workflowId ids.taskId now) true none now
  s.enroll ids.workflowId (.task ids.taskId)

/-- What one decision or fork asks its budget for; the first refusal takes it back. -/
def delegated (children : List RunBudgetSubject) (now : Nat) :
    Result (Family × Option Nat ⊕ RunBudgetDenial) := do
  let (budgets, answer) ← s.budgets.delegate s.workflow.scope s.workflow.workflowId children now
  match answer with
  | .denied reason => return .inr reason
  | .authorized deadline => return .inl ({ s with budgets }, deadline)
  | .done => return .inl ({ s with budgets }, none)

/- Forks. -/

structure ForkTimes where
  replayed : Nat
  accepted : Nat
  delegated : Nat
  final : Nat
  recorded : Nat
  last : Nat

structure ForkCall where
  command : WorkflowForkCommand
  times : ForkTimes
  ids : String → ChildIds

def forkBytes (activationId : String) : Nat :=
  (s.forks.filter fun fork => fork.activationId = activationId).foldl
    (fun total fork => total + utf8Len fork.request.bytes) 0

def branchStart (call : ForkCall) (branch : WorkflowBranch) : ChildStart where
  descriptor := s.origin.controller
  entrypoint := branch.entrypoint
  forkKey := some call.command.fork.key
  originTrace := call.command.processingTrace.orElse fun _ => s.origin.submission.originTrace

def registerBranches (call : ForkCall) : List WorkflowBranch → Family → Result Family
  | [], s => .ok s
  | branch :: branches, s => do
    let s ← s.createChildAt call.command.owner.taskId (branch.command s.origin.controller.program)
      (s.branchStart call branch) (call.ids branch.key) call.times.accepted
    registerBranches call branches s

def acceptFork (call : ForkCall) : Result Family :=
  registerBranches call call.command.fork.branches
    { s with forks := s.forks ++ [⟨call.command.fork, call.command.owner.taskId,
        call.command.owner.attemptId, call.times.accepted⟩] }

def allowance (call : ForkCall) (registered : Family) :
    Result (Family ⊕ RunBudgetDenial) := do
  let branches := call.command.fork.branches.map fun branch =>
    RunBudgetSubject.workflow (call.ids branch.key).workflowId
  match ← registered.delegated branches call.times.delegated with
  | .inr reason => return .inr reason
  | .inl (s, deadline) =>
    if deadline.any (decide <| · ≤ call.times.final) then return .inr .deadlineExceeded
    else return .inl s

section Digests
variable (sha256 : List Char → String)

/-- Everything goes back to the savepoint; the refusal alone is kept. -/
def refuseFork (call : ForkCall) (reason : RunBudgetDenial) : Result Family := do
  let fork := call.command.fork
  let (budgets, _) ← s.budgets.refuseFork sha256 s.workflow.scope s.workflow.workflowId fork.key
    fork.bytes reason call.times.recorded
  return { s with
    budgets
    refusedAttempts := s.refusedAttempts ++ [(fork.key, call.command.owner.attemptId)] }

def newFork (call : ForkCall) (activation : WorkflowActivation) (attempt : AttemptAuthority) :
    Result (Family × Result WorkflowForkReceipt) := do
  let owner := call.command.owner
  let fork := call.command.fork
  s.checkLive activation attempt owner call.times.accepted true
  let count := s.forks.countP fun fork => fork.activationId = owner.taskId
  refuse (workflowMaxForks ≤ count ∨
      workflowForkLedgerMaxBytes < s.forkBytes owner.taskId + utf8Len fork.bytes)
    (invalid "workflow fork ledger exceeds supported limit")
  checkChildBudget (s.registeredChildren owner.taskId) fork.branches.length
  refuse (∃ child ∈ s.children, child.key ∈ fork.branchKeys) .conflict
  let registered ← s.acceptFork call
  if s.origin.hasRunBudget then do
    let allowed ← allowance call registered
    s.checkLive activation attempt owner call.times.final true
    match allowed with
    | .inl s => return (s, .ok (forkReceipt fork false))
    | .inr reason => do
      let s ← s.refuseFork sha256 call reason
      s.checkLive activation attempt owner call.times.last true
      return (s, .error (.runBudgetDenied reason))
  else return (registered, .ok (forkReceipt fork false))

/-- An exact replay of another attempt than the accepting one must be live. -/
def replayFork (call : ForkCall) (activation : WorkflowActivation) (attempt : AttemptAuthority)
    (same : Bool) (accepting : String) : Result Unit := do
  refuse (same = false) .conflict
  if accepting = call.command.owner.attemptId then return ()
  else s.checkLive activation attempt call.command.owner call.times.replayed true

def forkOnce (call : ForkCall) : Result (Family × Result WorkflowForkReceipt) := do
  let fork := call.command.fork
  call.command.validate
  let (activation, attempt) ← s.lockActivation call.command.owner
  match s.fork fork.key with
  | some prior => do
    let same := decide (prior.request.bytes = fork.bytes)
    s.replayFork call activation attempt same prior.attemptId
    return (s, .ok (forkReceipt prior.request true))
  | none =>
    match Table.find RunBudgetForkRefusal.key (s.workflow.workflowId, fork.key) s.budgets.refusals with
    | some previous =>
      if s.origin.hasRunBudget then do
        let same := decide (previous.requestDigest = sha256 fork.bytes)
        let accepting := (Table.find Prod.fst fork.key s.refusedAttempts).map Prod.snd
        s.replayFork call activation attempt same (accepting.getD "")
        return (s, .error (.runBudgetDenied previous.denial))
      else s.newFork sha256 call activation attempt
    | none => s.newFork sha256 call activation attempt

end Digests
end Family
end Ledgence
