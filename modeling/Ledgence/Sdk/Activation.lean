import Ledgence.Kit.Table
import Ledgence.Sdk.Bindings
import Mathlib.Data.Finset.Card

/-! The state of one activation, and the calls of its controller that use a local key, register a
fork or stage a child. -/
open Kit Kit.Checked

namespace Ledgence.Sdk

/-- An exception object. Those of the application are told apart by their number. -/
inductive Exc where
  | workflow (error : WorkflowError)
  | application (object : Nat)
  | cancelled
  /-- An exception that is no `Exception`. -/
  | base (object : Nat)
  deriving DecidableEq

inductive ApprovalStatus where
  | pending
  | approved
  | rejected
  | expired
  | cancelled
  deriving DecidableEq

inductive ApprovalProtection where
  | externalEffect
  | providerOperation
  deriving DecidableEq

structure ApprovalAction where
  name : String
  version : String
  arguments : Value

def ApprovalAction.value (action : ApprovalAction) : Value :=
  object [("name", str action.name), ("version", str action.version), ("arguments", action.arguments)]
    (by simp)

structure Approval where
  key : String
  status : ApprovalStatus
  protection : Option ApprovalProtection
  action : ApprovalAction

def Approval.localKey (library : Library) (approval : Approval) : String :=
  approvalLocalPrefix ++ library.sha256 approval.key

structure Payload where
  workflowId : String
  activationId : String
  approval : Option Approval
  effectEvidenceV2 : Bool
  records : List Record
  /-- A staged command list and a handler's result that `_validate_decision` finds well formed. -/
  decides : List (String × Value) → Value → Bool
  few : records.length ≤ maxSteps
  distinct : Table.Unique (fun r : Record => r.key) records

structure Effect where
  approvalKey : String
  action : ApprovalAction
  lookup : String

inductive Output where
  | step (value : Value)
  | fork (key : String) (keys : List String)

abbrev Outcome := Except Exc Output

/-- Where `_run_local` or `_register_fork` is suspended. -/
inductive Stage where
  | created
  /-- An approved effect waits for the commit lock before it claims. -/
  | claiming
  /-- The claim is on its way, under the lock. -/
  | claimed (claimId : String)
  /-- The callable runs. An effect keeps its claim and the callback that it reports. -/
  | calling (claim : Option (String × String))
  /-- There is a record that waits for the commit lock. -/
  | returned (record : Record) (replayed : Bool) (claim : Option (String × String))
  /-- The record, or the fork, is on its way, under the lock. -/
  | committing (record : Record) (claim : Option (String × String)) (observationId : String)
  | registering
  | finished (outcome : Outcome)

/-- An entry of `_pending`: the bytes of the binding and the one owned task. -/
structure Pending where
  key : String
  known : List Char
  binding : Binding
  arguments : Value
  previous : Option Record
  effect : Option Effect
  stage : Stage

/-- An entry of `_forks`. -/
structure Fork where
  key : String
  known : List Char
  keys : List String
  request : Value
  stage : Stage

inductive TaskRef where
  | step (key : String)
  | fork (key : String)
  deriving DecidableEq

inductive Event where
  /-- A use of a key was accepted. -/
  | bound (binding : Binding)
  /-- The callable of the key was invoked. -/
  | called (key : String)
  /-- The commit or the confirmation of the output was acknowledged. -/
  | acknowledged (key : String) (output : Value)
  /-- The orchestrator answered a claim with the accepted record. -/
  | replayed (key : String) (output : Value)
  | acknowledgementFailed (task : TaskRef) (exc : Exc)
  /-- An await of the key returned. -/
  | returned (key : String) (value : Value)
  /-- An await of the task raised. -/
  | raised (task : TaskRef) (exc : Exc)

inductive Phase where
  | handling
  | draining (output : Option Value) (batch : List TaskRef)
  | responded (decision : Value)
  | failed

/-- The trace is a record, newest first. -/
structure World where
  records : List Record
  pending : List Pending
  forks : List Fork
  forkBranchKeys : List String
  commands : List (String × Value)
  observedFailures : List TaskRef
  approvalCallable : Option Callable
  approvalLookup : Option Callable
  closed : Bool
  fatal : Option Exc
  lock : Option TaskRef
  phase : Phase
  trace : List Event

/-- Who calls: the controller's tasks, a durable callable, or code on another event loop. -/
inductive Caller where
  | controller
  | callable
  | foreign
  deriving DecidableEq

/-- A branch as it was described; `own` tells that this activation described it. -/
structure Branch where
  key : String
  value : Value
  own : Bool

inductive OperationKind where
  | model
  | tool
  deriving DecidableEq

def OperationKind.value : OperationKind → String
  | .model => "model"
  | .tool => "tool"

inductive Call where
  | localStep (key : String) (fn : Callable) (arguments : Option Value)
  | operation (key : String) (fn : Callable) (kind : OperationKind) (version : String)
      (arguments : Option Value)
  | approvedLocal (fn : Callable) (version : String)
  | approvedEffect (fn lookup : Callable) (version : String)
  | fork (key : String) (branches : List Branch)
  /-- `task` and `workflow`, with a command that is well formed. -/
  | child (key : String) (command : Value)
  | gather (operations : Nat)
  /-- Any other operation that stages work or makes a decision. -/
  | stage

namespace World

def new (payload : Payload) : World where
  records := payload.records
  pending := []
  forks := []
  forkBranchKeys := []
  commands := []
  observedFailures := []
  approvalCallable := none
  approvalLookup := none
  closed := false
  fatal := none
  lock := none
  phase := .handling
  trace := []

variable (w : World)

def record (key : String) : Option Record :=
  Table.find (fun r : Record => r.key) key w.records

def entry (key : String) : Option Pending :=
  Table.find (fun p : Pending => p.key) key w.pending

def fork (key : String) : Option Fork :=
  Table.find (fun f : Fork => f.key) key w.forks

def note (event : Event) : World :=
  { w with trace := event :: w.trace }

def keys : Finset String :=
  (w.records.map (fun r => r.key) ++ w.pending.map (fun p => p.key)).toFinset

def active (caller : Caller) : Except WorkflowError Unit := do
  refuse (caller = .callable)
    ⟨"durable local callables cannot stage workflow operations; use the controller"⟩
  refuse (caller = .foreign) ⟨"workflow operations require the controller event loop"⟩
  refuse (w.closed = true) ⟨"workflow activation is closed"⟩
  refuse (w.fatal.isSome = true) ⟨"workflow runtime acknowledgement failed"⟩

def sameAsRecord (bytes : List Char) : Option Record → Except WorkflowError Unit
  | none => .ok ()
  | some previous => do
    let actual ← encode previous.toBinding.value maxRecordBytes 96 true
    refuse (actual ≠ bytes) ⟨"local step key was reused with a different binding"⟩

def boundLocal (binding : Binding) (arguments : Value) (effect : Option Effect) :
    Except WorkflowError World := do
  let previous := w.record binding.key
  let bytes ← encode binding.value maxRecordBytes 96 previous.isSome
  sameAsRecord bytes previous
  match w.entry binding.key with
  | some known => do
    refuse (known.known ≠ bytes) ⟨"local step key was reused with a different binding"⟩
    return w.note (.bound binding)
  | none => do
    refuse (maxSteps ≤ w.keys.card ∧ previous = none) ⟨"too many local steps in one activation"⟩
    let task : Pending :=
      { key := binding.key, known := bytes, binding := binding, arguments := arguments,
        previous := previous, effect := effect, stage := .created }
    return { w with pending := w.pending ++ [task] }.note (.bound binding)

/-- `_local` -/
def startLocal (caller : Caller) (key : String) (fn : Callable) (arguments : Option Value) :
    Except WorkflowError World := do
  w.active caller
  checkText key "local key" 128
  refuse (fn.isCallable = false) ⟨"local step requires a callable"⟩
  refuse (fn.moduleName = "" ∨ fn.qualname = "")
    ⟨"local callable requires a stable module and qualified name"⟩
  let arguments ← freeze arguments maxRecordBytes 64 (w.record key).isSome
  checkText fn.name "local callable" 512
  w.boundLocal ⟨key, fn.name, arguments⟩ arguments none

/-- `local` -/
def localStep (caller : Caller) (key : String) (fn : Callable) (arguments : Option Value) :
    Except WorkflowError World := do
  refuse (reserved key = true) ⟨"approval local keys are reserved for approved actions"⟩
  w.startLocal caller key fn arguments

def operationRequest (kind : OperationKind) (version : String) (effective : Value) : Value :=
  object [("v", nat 1), ("kind", str kind.value), ("version", str version), ("arguments", effective)]
    (by simp)

def operation (caller : Caller) (key : String) (fn : Callable) (kind : OperationKind)
    (version : String) (arguments : Option Value) : Except WorkflowError World := do
  w.active caller
  checkText key "operation key" 128
  refuse (reserved key = true) ⟨"approval local keys are reserved for approved actions"⟩
  checkText version "operation version" 128
  let arguments ← okOr arguments ⟨"operation arguments must be a JSON object"⟩
  fn.checkName "operation"
  let _ ← encode arguments maxRecordBytes 64 (w.record key).isSome
  let effective ← fn.effectiveArguments arguments "operation"
  let effective ← freeze effective maxRecordBytes 64 (w.record key).isSome
  let request := operationRequest kind version effective
  let _ ← encode request maxRecordBytes 64 (w.record key).isSome
  let name := kind.value ++ ":" ++ fn.name
  checkText name "operation callable" 512
  w.boundLocal ⟨key, name, request⟩ effective none

def checkApprovedArguments (fn : Callable) (arguments : Value) : Except WorkflowError Unit := do
  let effective ← fn.effectiveArguments arguments "approval"
  let effective ← okOr effective ⟨"workflow values must be bounded JSON"⟩
  let actual ← encode effective maxApprovalBytes 64 true
  let approved ← encode arguments maxApprovalBytes 64 true
  refuse (actual ≠ approved) ⟨"callable defaults differ from the approved effective arguments"⟩

/-- `_same_callable`, where something was used before. -/
def sameCallable (known : Option Callable) (fn : Callable) : Bool :=
  match known with
  | none => true
  | some first => first.object = fn.object

variable (payload : Payload) (library : Library)

/-- `_approved_action`: the approval, with its callable kept. -/
def approvedAction (caller : Caller) (fn : Callable) (version : String) :
    Except WorkflowError (World × Approval) := do
  w.active caller
  let approval ← okOr payload.approval ⟨"this activation has no approval"⟩
  refuse (approval.status ≠ .approved) ⟨"the action was not approved"⟩
  fn.checkName "approval"
  refuse (fn.name ≠ approval.action.name)
    ⟨"callable identity or version differs from the approved action"⟩
  checkText version "action version" 128
  refuse (version ≠ approval.action.version)
    ⟨"callable identity or version differs from the approved action"⟩
  checkApprovedArguments fn approval.action.arguments
  refuse (sameCallable w.approvalCallable fn = false)
    ⟨"approval is already bound to a different callable"⟩
  return ({ w with approvalCallable := some fn }, approval)

def checkProtection : Except WorkflowError Unit :=
  refuse (payload.approval.bind Approval.protection = some .providerOperation)
    ⟨"this approval requires approved_provider_operation"⟩

/-- The rest of `approved_local`. -/
def runApproved (caller : Caller) (fn : Callable) (approval : Approval) : Except WorkflowError World := do
  refuse (approval.protection = some .externalEffect)
    ⟨"this approval requires approved_effect with a separate lookup callback"⟩
  w.startLocal caller (approval.localKey library) fn (some approval.action.arguments)

/-- `approved_effect` up to the lookup callback that it keeps. -/
def bindLookup (lookup : Callable) (fn : Callable) (approval : Approval) : Except WorkflowError World := do
  lookup.checkName "effect lookup"
  refuse (lookup.name = approval.action.name ∨ lookup.object = fn.object)
    ⟨"effect lookup must be separate from dispatch"⟩
  checkApprovedArguments lookup approval.action.arguments
  refuse (sameCallable w.approvalLookup lookup = false)
    ⟨"approval is already bound to a different lookup"⟩
  return { w with approvalLookup := some lookup }

def effectActionJson (approval : Approval) : Except WorkflowError (List Char) := do
  let actionJson ← encode approval.action.value maxApprovalBytes 96 true
  let previous := w.record (approval.localKey library)
  match previous.bind fun r => r.input.json.getStr "action_json" with
  | some saved =>
    if saved.toList = actionJson then return actionJson
    else do
      let replayed ← replayedActionJson library saved.toList
      refuse (replayed ≠ actionJson) ⟨"approved effect action differs from its stored binding"⟩
      return saved.toList
  | none => return actionJson

/-- The rest of `approved_effect`. -/
def runEffect (lookup : Callable) (approval : Approval) : Except WorkflowError World := do
  let actionJson ← w.effectActionJson library approval
  w.boundLocal ⟨approval.localKey library, approval.action.name, effectInput actionJson lookup.name⟩
    approval.action.arguments (some ⟨approval.key, approval.action, lookup.name⟩)

def forkRequest (key : String) (branches : List Branch) : Value :=
  object [("key", str key), ("branches", array (branches.map fun b => b.value))] (by simp)

/-- `fork` up to its await. -/
def openFork (caller : Caller) (key : String) (branches : List Branch) : Except WorkflowError World := do
  w.active caller
  checkText key "fork key" 128
  refuse (¬(1 ≤ branches.length ∧ branches.length ≤ maxCommands))
    ⟨"fork requires between 1 and 64 branches"⟩
  refuse (¬branches.all (fun b => b.own))
    ⟨"branch specification belongs to another activation"⟩
  let keys := branches.map fun b => b.key
  refuse (¬keys.Nodup) ⟨"fork branch keys must be distinct"⟩
  let request := forkRequest key branches
  let binding ← encode request maxForkBytes 96 false
  match w.fork key with
  | some previous => do
    refuse (previous.known ≠ binding) ⟨"fork key reused with a different binding"⟩
    return w
  | none => do
    refuse (w.commands.any (fun c => keys.contains c.1) = true)
      ⟨"branch key already belongs to a staged child"⟩
    refuse (keys.any (fun k => w.forkBranchKeys.contains k) = true)
      ⟨"branch key already belongs to a fork"⟩
    let task : Fork :=
      { key := key, known := binding, keys := keys, request := request, stage := .created }
    return { w with forks := w.forks ++ [task], forkBranchKeys := w.forkBranchKeys ++ keys }

/-- `_child` -/
def stageChild (caller : Caller) (key : String) (command : Value) : Except WorkflowError World := do
  w.active caller
  checkText key "child key" 128
  refuse (w.forkBranchKeys.contains key = true) ⟨"child key already belongs to a fork"⟩
  match w.commands.lookup key with
  | some previous => do
    let known ← encode previous maxDecisionBytes 96 false
    let given ← encode command maxDecisionBytes 96 false
    refuse (known ≠ given) ⟨"child key reused with a different binding"⟩
    return w
  | none => do
    refuse (maxCommands ≤ w.commands.length) ⟨"too many staged children"⟩
    let _ ← encode (array (w.commands.map Prod.snd ++ [command])) maxDecisionBytes 96 false
    return { w with commands := w.commands ++ [(key, command)] }

/-- `gather` before it awaits; it awaits each operation on its own. -/
def gather (caller : Caller) (operations : Nat) : Except WorkflowError World := do
  w.active caller
  refuse (maxSteps < operations) ⟨"too many gathered operations"⟩
  return w

def sequence (first : Except WorkflowError (World × α))
    (rest : World → α → World × Except WorkflowError Unit) : World × Except WorkflowError Unit :=
  match first with
  | .ok (w', a) => rest w' a
  | .error error => (w, .error error)

def settle (result : Except WorkflowError World) : World × Except WorkflowError Unit :=
  w.sequence (result.map fun w' => (w', ())) fun w' _ => (w', .ok ())

def call (caller : Caller) : Call → World × Except WorkflowError Unit
  | .localStep key fn arguments => w.settle (w.localStep caller key fn arguments)
  | .operation key fn kind version arguments =>
    w.settle (w.operation caller key fn kind version arguments)
  | .approvedLocal fn version =>
    w.sequence (checkProtection payload *> w.approvedAction payload caller fn version)
      fun w approval => w.settle (w.runApproved library caller fn approval)
  | .approvedEffect fn lookup version =>
    w.sequence (checkProtection payload *> w.approvedAction payload caller fn version)
      fun w approval =>
        w.sequence ((w.bindLookup lookup fn approval).map fun w' => (w', ()))
          fun w _ => w.settle (w.runEffect library lookup approval)
  | .fork key branches => w.settle (w.openFork caller key branches)
  | .child key command => w.settle (w.stageChild caller key command)
  | .gather operations => w.settle (w.gather caller operations)
  | .stage => w.settle ((w.active caller).map fun _ => w)

end World
end Ledgence.Sdk
