import Ledgence.Attempts.Local
import Ledgence.Workflows.Family

/-! Applying what a controller decided, under the lease of a coordinator. -/
open Kit Kit.Checked

namespace Ledgence

def applicationDeadlineMs : Nat := 24 * 60 * 60 * 1000
def workLeaseMs : Nat := 30000

/- Planning. -/

inductive WorkflowDisposition where
  | externalWait
  | wait (members : List String)
  | continue
  | complete
  | fail (error : ApplicationError)

structure WorkflowDecisionPlan where
  revision : Nat
  disposition : WorkflowDisposition

def planWorkflowDecision (current : WorkflowSnapshot) (decision : WorkflowDecision)
    (unfinishedOwnedChildren : Bool) : Result WorkflowDecisionPlan := do
  decision.validate
  current.validate
  refuse (current.state ≠ .running ∨ current.activationId ≠ some decision.activationId ∨
      current.revision ≠ decision.revision) .ownershipLost
  let revision ← okOr (checkedAdd u64Max current.revision 1) (invalid "workflow revision exhausted")
  match decision.action with
  | .wait _ _ => return ⟨revision, .externalWait⟩
  | .suspend _ _ members => return ⟨revision, .wait members⟩
  | .continue _ _ => return ⟨revision, .continue⟩
  | .complete => do
    refuse (unfinishedOwnedChildren = true)
      (invalid "workflow cannot complete with unfinished owned children")
    return ⟨revision, .complete⟩
  | .fail error => return ⟨revision, .fail error⟩

/-- `WorkRow::with_pinned`: a checkpointed binding wins over a caller with only some of them. -/
def withPinned (resolution : Option (List ResolvedWorkflowChild))
    (supplied : List ResolvedWorkflowChild) : Result (List ResolvedWorkflowChild) :=
  match resolution with
  | none => return supplied
  | some previous => do
    let combined ← supplied.foldlM (fun (combined : OrderedMap String ResolvedWorkflowChild) item => do
      refuse (item.key ∈ combined.keys) .conflict
      return combined.insert item.key item) .empty
    let combined ← previous.foldlM (fun combined item => do
      refuse (∃ new ∈ combined.find item.key, new ≠ item) .conflict
      return combined.insert item.key item) combined
    return combined.entries.map Prod.snd

structure ApplyCall where
  work : WorkflowWork
  resolved : List ResolvedWorkflowChild
  ids : String → ChildIds
  configured : Result Unit
  contextChecked : Result Unit
  /-- The external wait: the activation that it resumes at once, if any. -/
  installed : Result (Option String)
  /-- The next activation and its context. -/
  scheduled : Result String
  completable : Result Unit
  lockedAt : Nat
  now : Nat
  delegatedAt : Nat
  expiredAt : Nat
  recordedAt : Nat
  appliedAt : Nat
  committedAt : Nat

namespace WorkItem
variable (item : WorkItem)

def loadResolution : Option (List ResolvedWorkflowChild) :=
  if item.failures = 0 then none else item.resolution

def Due (now : Nat) : Prop :=
  item.processedAt = none ∧ item.availableAt ≤ now ∧ ∀ lease ∈ item.lease, lease.2 ≤ now

instance dueDecidable (now : Nat) : Decidable (item.Due now) :=
  inferInstanceAs (Decidable (_ ∧ _ ∧ ∀ lease ∈ item.lease, lease.2 ≤ now))

def claimed (token : String) (now : Nat) : WorkItem :=
  { item with lease := some (token, now + workLeaseMs) }

def finished (now : Nat) : WorkItem :=
  { item with processedAt := some now, lease := none, resolution := none }

def retryDelay : Nat := min (500 * 2 ^ min item.failures 6) 30000

def retried (reason : String) (resolution : Option (List ResolvedWorkflowChild)) (now : Nat) :
    WorkItem :=
  { item with
    availableAt := now + item.retryDelay
    lease := none
    failures := item.failures + 1
    lastError := some (String.ofList (reason.toList.take 4096))
    resolution }

end WorkItem

def matchBindings : List WorkflowChildCommand → List ResolvedWorkflowChild → Result Unit
  | _, [] => .ok ()
  | expected, binding :: bindings => do
    let command ← okOr (Table.find WorkflowChildCommand.key binding.key expected) .conflict
    refuse (binding.kind ≠ command.kind ∨ binding.descriptor.program ≠ command.program) .conflict
    lift binding.descriptor.validate
    matchBindings (expected.filter fun other => other.key ≠ binding.key) bindings

namespace Family
variable (s : Family)

def failRun (error : ApplicationError) (now : Nat) : Result Family :=
  if s.workflow.state.isTerminal = true ∨ s.workflow.state = .cancelling ∨
      s.workflow.state = .failing then return s
  else do
    validateWorkflowError error
    let s := { s with workflow := { s.workflow with state := .failing } }
    if s.origin.hasRunBudget then do
      let budgets ← s.budgets.stop s.workflow.scope (.workflow s.workflow.workflowId) now
      return { s with budgets }
    else return s

def scheduleActivation (id : String) : Result Family := do
  refuse (id ∈ s.activations.map WorkflowActivation.activationId) BudgetStore.databaseError
  let s ← s.enroll s.workflow.workflowId (.task id)
  return { s with
    workflow := { s.workflow with state := .running, activationId := some id }
    activations := s.activations ++ [⟨id, s.workflow.revision, .queued, none, false, [], none⟩] }

/- Registration of the children of a decision. -/

structure Registration where
  family : Family
  registered : Option Nat
  delegates : List RunBudgetSubject

def childOf (kind : WorkflowChildKind) (key : String) : Option WorkflowChild :=
  s.children.find? fun child => child.kind = kind ∧ child.key = key

def taskChild (activationId : String) (command : WorkflowChildCommand) (descriptor : ProgramDescriptor)
    (originTrace : Option TraceContext) (ids : ChildIds) : WorkflowChild where
  kind := .task
  key := command.key
  childId := ids.taskId
  activationId
  forkKey := none
  entrypoint := ""
  submission :=
    { idempotencyKey := "workflow:" ++ s.workflow.workflowId ++ ":" ++ ids.taskId
      input := command.submission s.workflow.scope s.workflow.correlationKey
      originTrace }
  descriptor
  taskId := ids.taskId
  terminal := false

def createCommand (call : ApplyCall) (activationId : String) (command : WorkflowChildCommand)
    (descriptor : ProgramDescriptor) (originTrace : Option TraceContext) :
    Result (Family × RunBudgetSubject) := do
  let ids := call.ids command.key
  match command.kind with
  | .workflow => do
    let s ← s.createChildAt activationId command ⟨descriptor, "start", none, originTrace⟩ ids call.now
    return (s, .workflow ids.workflowId)
  | .task => do
    let child := s.taskChild activationId command descriptor originTrace ids
    let _ ← insertTask child.submission descriptor ids.taskId ids.runId s.workflow false none call.now
    let s ← s.link child
    let s ← s.enroll s.workflow.workflowId (.task ids.taskId)
    return (s, .task ids.taskId)

def adoptChild (command : WorkflowChildCommand) (child : WorkflowChild) : Result Unit := do
  refuse (command.kind ≠ child.kind ∨ child.forkKey.isSome = true) .conflict
  let same ← child.submission.input.semanticallyMatches
    (command.submission s.workflow.scope s.workflow.correlationKey)
  refuse (same = false) .conflict

def registerCommand (call : ApplyCall) (activationId : String) (resolved : List ResolvedWorkflowChild)
    (originTrace : Option TraceContext) (r : Registration) (command : WorkflowChildCommand) :
    Result Registration := do
  let s := r.family
  match s.childOf .task command.key, s.childOf .workflow command.key with
  | some _, some _ => .error (corrupt "ambiguous owned child key")
  | some child, none | none, some child => do
    s.adoptChild command child
    return r
  | none, none => do
    let binding ← okOr (Table.find ResolvedWorkflowChild.key command.key resolved)
      (invalid "missing resolved child binding")
    refuse (binding.kind ≠ command.kind ∨ binding.descriptor.program ≠ command.program) .conflict
    let registered := r.registered.getD (s.registeredChildren activationId)
    checkChildBudget registered 1
    let (s, member) ← s.createCommand call activationId command binding.descriptor originTrace
    let delegates := if s.origin.hasRunBudget then r.delegates ++ [member] else r.delegates
    return ⟨s, some (registered + 1), delegates⟩

/-- The first half of `apply_decision`. -/
def registerCommands (call : ApplyCall) (decision : WorkflowDecision)
    (resolved : List ResolvedWorkflowChild) (processingTrace : Option TraceContext) :
    Result Registration := do
  validateDistinct ResolvedWorkflowChild.key (fun child => lift child.descriptor.validate) .conflict []
    resolved
  refuse (∃ child ∈ resolved, child.key ∉ decision.commands.map WorkflowChildCommand.key) .conflict
  let originTrace := processingTrace.orElse fun _ => s.origin.submission.originTrace
  decision.commands.foldlM (registerCommand call decision.activationId resolved originTrace)
    ⟨s, none, []⟩

def dispose (plan : WorkflowDecisionPlan) (call : ApplyCall) : Result Family := do
  call.contextChecked
  let s := { s with workflow := { s.workflow with revision := plan.revision } }
  let waiting := { s with workflow := { s.workflow with state := .waiting, activationId := none } }
  match plan.disposition with
  | .wait members => do
    let rows := s.children.filter fun child => child.key ∈ members
    refuse (rows.length ≠ members.length) (invalid "wait references an unknown child key")
    if rows.all WorkflowChild.terminal then waiting.scheduleActivation (← call.scheduled)
    else return waiting
  | .externalWait => do
    match ← call.installed with
    | some id => waiting.scheduleActivation id
    | none => return waiting
  | .continue => s.scheduleActivation (← call.scheduled)
  | .complete => do
    call.completable
    return { s with workflow := { s.workflow with
      state := .succeeded
      terminalAt := some call.appliedAt
      activationId := none } }
  | .fail error => s.failRun error call.now

def applyDecision (call : ApplyCall) (decision : WorkflowDecision)
    (resolved : List ResolvedWorkflowChild) (processingTrace : Option TraceContext) :
    Result (Family × List RunBudgetSubject) := do
  let unfinished := s.children.any fun child => child.terminal = false
  let plan ← planWorkflowDecision s.workflow decision unfinished
  let r ← s.registerCommands call decision resolved processingTrace
  let s ← r.family.dispose plan call
  return (s, r.delegates)

/- Work. -/

def putWork (item : WorkItem) : Family := { s with work := Table.put WorkItem.id item s.work }

def finishWork (item : WorkItem) (now : Nat) : Family :=
  s.putWork (item.finished now)

def lockWork (work : WorkflowWork) (now : Nat) : Result (Option WorkItem) := do
  let item ← okOr (Table.find WorkItem.id work.id s.work) .notFound
  refuse (work.workflowId ≠ s.workflow.workflowId ∨ work.source ≠ item.source) .conflict
  if item.processedAt.isSome then return none
  else do
    refuse (¬ ∃ lease ∈ item.lease, lease.1 = work.token ∧ now < lease.2) .ownershipLost
    refuse (u32Max < item.failures) (corrupt "work retry count")
    return some item

def resolvedChildren (item : WorkItem) : List ResolvedWorkflowChild :=
  let keys := match (s.activation item.taskId).bind WorkflowActivation.outcome with
    | some (.succeeded (.ok decoded) _) => decoded.decision.commands.map WorkflowChildCommand.key
    | _ => []
  let accepted := (s.children.filter fun child => child.key ∈ keys).map WorkflowChild.resolved
  let saved := item.loadResolution.getD []
  accepted ++ saved.filter fun child => child.key ∉ accepted.map ResolvedWorkflowChild.key

/-- One row of the batch of `claim_work_once`. -/
def claimWork (id token : String) (now : Nat) : Result (Family × WorkflowWork) := do
  let item ← okOr (Table.find WorkItem.id id s.work) .notFound
  refuse (¬ item.Due now) .notFound
  let _ ← okOr ((s.activation item.taskId).bind WorkflowActivation.outcome)
    (corrupt "nonterminal workflow obligation")
  let item := item.claimed token now
  let work : WorkflowWork :=
    { id
      token
      workflowId := s.workflow.workflowId
      source := item.source
      resolvedChildren := s.resolvedChildren item }
  return (s.putWork item, work)

def saveResolution (item : WorkItem) (bindings : List ResolvedWorkflowChild) :
    Result (List ResolvedWorkflowChild) := do
  refuse (workflowMaxCommands < bindings.length) (invalid "invalid workflow resolution checkpoint")
  match (s.activation item.taskId).bind WorkflowActivation.outcome with
  | some (.succeeded decoded _) => do
    let decoded ← decoded
    refuse (decoded.decision.activationId ≠ item.taskId) .conflict
    let bindings ← withPinned item.loadResolution bindings
    matchBindings decoded.decision.commands bindings
    refuse (262144 < (Json.arr (bindings.map ResolvedWorkflowChild.toJson)).size)
      BudgetStore.databaseError
    return bindings
  | _ => .error .conflict

def retryWork (work : WorkflowWork) (reason : String) (bindings : List ResolvedWorkflowChild)
    (lockedAt now : Nat) : Result Family := do
  let _ ← s.status
  match ← s.lockWork work lockedAt with
  | none => return s
  | some item =>
    if applicationDeadlineMs ≤ now - item.createdAt then do
      let s ← s.failRun ⟨"workflow_application_timeout",
        "workflow decision application exceeded its 24-hour recovery deadline"⟩ now
      return s.finishWork item now
    else do
      let resolution ← if bindings = [] then pure item.resolution
        else some <$> s.saveResolution item bindings
      return s.putWork (item.retried reason resolution now)

def rejectWork (work : WorkflowWork) (error : ApplicationError) (lockedAt now : Nat) :
    Result Family := do
  validateWorkflowError error
  let _ ← s.status
  match ← s.lockWork work lockedAt with
  | none => return s
  | some item => do
    let s ← s.failRun error now
    return s.finishWork item now

section Digests
variable (sha256 : List Char → String)

/-- `reject_budget_decision`: every child of the decision goes, the refusal is kept. -/
def rejectBudgetDecision (call : ApplyCall) (activationId : String) (reason : RunBudgetDenial) :
    Result Family := do
  let key := BudgetStore.denialId sha256
    (.arr [.str "decision", .str s.workflow.workflowId, .str activationId])
  let budgets ← s.budgets.recordDenial s.workflow.scope (.workflow s.workflow.workflowId) .delegation
    key reason none call.recordedAt
  { s with budgets }.failRun ⟨reason.code, "execution budget refused new delegation"⟩ call.appliedAt

def applyOutput (call : ApplyCall) (item : WorkItem) (decision : WorkflowDecision)
    (processingTrace : Option TraceContext) : Result Family := do
  call.configured
  let activation ← okOr (s.activation item.taskId) .notFound
  refuse (decision.activationId ≠ item.taskId ∨ decision.revision ≠ activation.revision) .conflict
  refuse (s.workflow.activationId ≠ some item.taskId ∨ decision.revision ≠ s.workflow.revision)
    (corrupt "unprocessed controller obligation differs from current activation")
  let resolved ← withPinned item.loadResolution call.resolved
  let (applied, delegates) ← s.applyDecision call decision resolved processingTrace
  if delegates = [] then return applied
  else do
    match ← applied.delegated delegates call.delegatedAt with
    | .inr reason => s.rejectBudgetDecision sha256 call item.taskId reason
    | .inl (authorized, deadline) =>
      if deadline.any (decide <| · ≤ call.expiredAt) then
        s.rejectBudgetDecision sha256 call item.taskId .deadlineExceeded
      else return authorized

def applyOutcome (call : ApplyCall) (item : WorkItem) (outcome : ControllerOutcome) :
    Result Family := do
  match outcome with
  | .succeeded decoded processingTrace => do
    let decoded ← decoded
    s.applyOutput sha256 call item decoded.decision processingTrace
  | .failed (.application error) => s.failRun error call.now
  | .failed _ => s.failRun ⟨"workflow_activation_failed",
      "workflow activation exhausted its execution attempts"⟩ call.now
  | .cancelled => s.failRun ⟨"workflow_activation_cancelled",
      "workflow activation was cancelled independently"⟩ call.now

def budgeted (outcome : ControllerOutcome) : Bool :=
  s.origin.hasRunBudget && match outcome with
    | .succeeded (.ok decoded) _ => !decoded.decision.commands.isEmpty
    | .succeeded (.error _) _ | .failed _ | .cancelled => false

def applyWork (call : ApplyCall) : Result Family := do
  let _ ← s.status
  match ← s.lockWork call.work call.lockedAt with
  | none => return s
  | some item =>
    if s.workflow.state.isTerminal = true ∨ s.workflow.state = .failing ∨
        s.workflow.state = .cancelling then return s.finishWork item call.now
    else do
      let outcome ← okOr ((s.activation item.taskId).bind WorkflowActivation.outcome)
        (corrupt "unfinished source task")
      let applied ← s.applyOutcome sha256 call item outcome
      refuse (s.budgeted outcome = true ∧ ¬ ∃ lease ∈ item.lease, call.committedAt < lease.2) .ownershipLost
      return applied.finishWork item call.appliedAt

end Digests
end Family
end Ledgence
