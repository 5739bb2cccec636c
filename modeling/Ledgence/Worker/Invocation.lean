import Ledgence.Worker.Wire
import Mathlib.Data.List.Basic

/-! Programs, invocation events and execution reports, as workers exchange them. -/
open Kit Kit.Checked

namespace Ledgence

def i32Max : Nat := 2 ^ 31 - 1
def u32Max : Nat := 2 ^ 32 - 1
def i64Max : Nat := 2 ^ 63 - 1
def u64Max : Nat := 2 ^ 64 - 1

def invalidWorkerInput (message : String) : Error := ⟨.invalidInput, message⟩

/- Program identity. -/

structure ProgramRef where
  id : String
  version : String
  deriving DecidableEq

def asciiLower (c : Char) : Bool := 97 ≤ c.toNat && c.toNat ≤ 122
def asciiDigit (c : Char) : Bool := 48 ≤ c.toNat && c.toNat ≤ 57
def asciiUpper (c : Char) : Bool := 65 ≤ c.toNat && c.toNat ≤ 90
def asciiAlphanumeric (c : Char) : Bool := asciiLower c || asciiUpper c || asciiDigit c
def lowerHex (c : Char) : Bool := asciiDigit c || (97 ≤ c.toNat && c.toNat ≤ 102)

def ProgramRef.validateField (field value : String) : WorkerResult Unit :=
  refuse (value = "" ∨ 128 < byteLen value ∨ value = "." ∨ value = ".." ∨
      ¬ value.toList.all fun c => asciiLower c || asciiDigit c || c == '.' || c == '_' || c == '-')
    (invalidWorkerInput ("invalid " ++ field))

def ProgramRef.validate (program : ProgramRef) : WorkerResult Unit := do
  validateField "program id" program.id
  validateField "program version" program.version

structure Digest where
  text : String
  deriving DecidableEq

def Digest.validate (digest : Digest) : WorkerResult Unit :=
  refuse (byteLen digest.text ≠ 71 ∨ digest.text.toList.take 7 ≠ "sha256:".toList ∨
      ¬ (digest.text.toList.drop 7).all lowerHex)
    (invalidWorkerInput "expected sha256: followed by 64 lowercase hexadecimal digits")

structure ProgramDescriptor where
  program : ProgramRef
  digest : Digest
  size : Nat
  deriving DecidableEq

def ProgramDescriptor.validate (descriptor : ProgramDescriptor) : WorkerResult Unit := do
  descriptor.program.validate
  descriptor.digest.validate
  refuse (descriptor.size = 0) (invalidWorkerInput "empty program archive")

/- W3C trace carriers. -/

structure TraceContext where
  traceparent : String
  tracestate : Option String
  deriving DecidableEq

def validateTraceparent (trace : String) : WorkerResult Unit :=
  let segments := trace.toList.splitOn '-'
  let valid := match segments with
    | [version, traceId, parentId, flags] =>
      version == ['0', '0'] && traceId.length == 32 && parentId.length == 16 &&
        flags.length == 2 && segments.all (fun s => s.all lowerHex) &&
        !traceId.all (· == '0') && !parentId.all (· == '0')
    | _ => false
  refuse (valid = false) (invalidWorkerInput "invalid or unsupported traceparent")

def splitOnce (sep : Char) (s : List Char) : Option (List Char × List Char) :=
  match s.span (· != sep) with
  | (before, _ :: after) => some (before, after)
  | (_, []) => none

def trimSpaces (s : List Char) : List Char :=
  ((s.dropWhile (· == ' ')).reverse.dropWhile (· == ' ')).reverse

def tracestateKeyChar (c : Char) : Bool :=
  asciiLower c || asciiDigit c || c == '_' || c == '-' || c == '*' || c == '/'

def startsLower (s : List Char) : Bool :=
  s.head?.any asciiLower

def validTracestateKey (key : List Char) : Bool :=
  match splitOnce '@' key with
  | some (tenant, system) =>
    !tenant.isEmpty && tenant.length ≤ 241 &&
      tenant.head?.any (fun c => asciiLower c || asciiDigit c) &&
      tenant.all tracestateKeyChar && !system.isEmpty && system.length ≤ 14 &&
      startsLower system && system.all tracestateKeyChar
  | none =>
    !key.isEmpty && key.length ≤ 256 && startsLower key && key.all tracestateKeyChar

def invalidTracestate : Error := invalidWorkerInput "invalid or oversized tracestate"

def validateTracestateMembers : List (List Char) → Nat → List (List Char) → WorkerResult Unit
  | [], _, _ => .ok ()
  | member :: members, index, keys => do
    refuse (32 ≤ index) invalidTracestate
    let member := trimSpaces member
    if member.isEmpty then validateTracestateMembers members (index + 1) keys
    else
      let (key, value) ← okOr (splitOnce '=' member) invalidTracestate
      refuse (validTracestateKey key = false ∨ key ∈ keys ∨ value = [] ∨ 256 < value.length ∨
          ¬ value.all fun c => 32 ≤ c.toNat && c.toNat ≤ 126 && c != ',' && c != '=')
        invalidTracestate
      validateTracestateMembers members (index + 1) (key :: keys)

def validateTracestate (state : String) : WorkerResult Unit := do
  refuse (512 < byteLen state ∨ ¬ state.toList.all fun c => c.toNat < 128) invalidTracestate
  validateTracestateMembers (state.toList.splitOn ',') 0 []

/- Invocation events. -/

/-- The context attributes and data of an invocation event. Attribute names, `specversion`
and `datacontenttype` are fixed by the profile; `time` is kept as the moment its RFC 3339
text denotes. -/
structure CloudEvent where
  id : String
  source : String
  eventType : String
  subject : Option String
  time : Option Nat
  tenantId : String
  namespaceId : String
  runId : String
  taskId : String
  attemptId : String
  attemptNo : Nat
  workflowId : Option String
  activationId : Option String
  parentWorkflowId : Option String
  rootWorkflowId : Option String
  traceparent : Option String
  tracestate : Option String
  data : Value

def nonCharacter (c : Char) : Bool :=
  (0xfdd0 ≤ c.toNat && c.toNat ≤ 0xfdef) || c.toNat % 0x10000 / 2 * 2 == 0xfffe

def validContextString (value : String) : Bool :=
  value.toList.all fun c => !isControl c && !nonCharacter c

def optionalAttribute (name : String) (value : Option String) : List (String × String) :=
  value.toList.map fun v => (name, v)

def CloudEvent.contextStrings (event : CloudEvent) : List (String × String) :=
  [("id", event.id)] ++ optionalAttribute "ldgactivationid" event.activationId ++
    [("ldgattemptid", event.attemptId), ("ldgnamespace", event.namespaceId)] ++
    optionalAttribute "ldgparentworkflowid" event.parentWorkflowId ++
    optionalAttribute "ldgrootworkflowid" event.rootWorkflowId ++
    [("ldgrunid", event.runId), ("ldgtaskid", event.taskId), ("ldgtenantid", event.tenantId)] ++
    optionalAttribute "ldgworkflowid" event.workflowId ++ [("source", event.source)] ++
    optionalAttribute "subject" event.subject ++ optionalAttribute "traceparent" event.traceparent ++
    optionalAttribute "tracestate" event.tracestate ++ [("type", event.eventType)]

def validateContextString (field : String × String) : WorkerResult Unit :=
  refuse (validContextString field.2 = false)
    (invalidWorkerInput ("invalid CloudEvent context value for " ++ field.1))

def requireNonempty (field : String × String) : WorkerResult Unit :=
  refuse (field.2 = "") (invalidWorkerInput ("missing nonempty CloudEvent " ++ field.1))

/-- Every source attribute built here is the constant `urn:ledgence:orchestrator`, which is a
URI reference, and every `time` is printed from a timestamp, so those two parses succeed. -/
def validateCloudeventContext (event : CloudEvent) : WorkerResult Unit := do
  event.contextStrings.forM validateContextString
  refuse (i32Max < event.attemptNo)
    (invalidWorkerInput "invalid CloudEvent context value for ldgattemptno")
  [("id", event.id), ("source", event.source), ("type", event.eventType)].forM requireNonempty
  refuse (event.subject = some "") (invalidWorkerInput "subject must be nonempty when present")
  ifSome event.traceparent validateTraceparent
  ifSome event.tracestate fun state => do
    refuse (event.traceparent = none)
      (invalidWorkerInput "tracestate requires traceparent in this invocation profile")
    validateTracestate state

def validateWorkflowAttribute (field : String × String) : WorkerResult Unit :=
  refuse (field.2 = "" ∨ 128 < byteLen field.2)
    (invalidWorkerInput (field.1 ++ " must contain 1..=128 bytes"))

def nestedLineage (workflow parent root : Option String) : Bool :=
  match workflow, parent, root with
  | _, none, none => true
  | some id, some parent, some root => id != parent && id != root
  | _, _, _ => false

def CloudEvent.new (event : CloudEvent) : WorkerResult CloudEvent := do
  validateCloudeventContext event
  [("ldgtenantid", event.tenantId), ("ldgnamespace", event.namespaceId),
    ("ldgrunid", event.runId), ("ldgtaskid", event.taskId),
    ("ldgattemptid", event.attemptId)].forM requireNonempty
  refuse (event.attemptNo < 1 ∨ i32Max < event.attemptNo)
    (invalidWorkerInput "ldgattemptno must be a positive signed 32-bit integer")
  (optionalAttribute "ldgworkflowid" event.workflowId ++
    optionalAttribute "ldgactivationid" event.activationId ++
    optionalAttribute "ldgparentworkflowid" event.parentWorkflowId ++
    optionalAttribute "ldgrootworkflowid" event.rootWorkflowId).forM validateWorkflowAttribute
  refuse (event.activationId ≠ none ∧
      (event.workflowId = none ∨ event.activationId ≠ some event.taskId))
    (invalidWorkerInput "workflow activation requires its workflow ID and matching task ID")
  refuse (nestedLineage event.workflowId event.parentWorkflowId event.rootWorkflowId = false)
    (invalidWorkerInput "nested workflow requires paired parent/root IDs distinct from itself")
  return event

structure InvocationIdentity where
  parentWorkflowId : Option String
  rootWorkflowId : Option String
  source : String
  eventId : String
  tenantId : String
  namespaceId : String
  runId : String
  workflowId : Option String
  activationId : Option String
  taskId : String
  attemptId : String
  attemptNo : Nat
  traceparent : Option String
  tracestate : Option String
  deriving DecidableEq

def InvocationIdentity.ofEvent (event : CloudEvent) : InvocationIdentity where
  parentWorkflowId := event.parentWorkflowId
  rootWorkflowId := event.rootWorkflowId
  source := event.source
  eventId := event.id
  tenantId := event.tenantId
  namespaceId := event.namespaceId
  runId := event.runId
  workflowId := event.workflowId
  activationId := event.activationId
  taskId := event.taskId
  attemptId := event.attemptId
  attemptNo := event.attemptNo
  traceparent := event.traceparent
  tracestate := event.tracestate

/- Reports. -/

inductive ProgramOutcome where
  | success (output : Value)
  | failure (kind message : String)

inductive Phase where
  | admission
  | preparation
  | startup
  | execution
  | cleanup
  deriving DecidableEq

inductive LocalStepObservedState where
  | returned
  | failed
  | cancelled
  | replayed
  deriving DecidableEq

structure LocalStepObservation where
  key : String
  callable : String
  startedAtMs : Nat
  elapsedUs : Nat
  state : LocalStepObservedState
  deriving DecidableEq

structure InvocationObservations where
  runtimeStartedAtMs : Nat
  runtimeElapsedUs : Nat
  processCpuUserUs : Option Nat
  processCpuSystemUs : Option Nat
  processLifetimePeakRssBytes : Option Nat
  localSteps : List LocalStepObservation
  localStepsTruncated : Bool
  deriving DecidableEq

structure ExecutionContext where
  identity : InvocationIdentity
  program : ProgramRef
  digest : Digest
  deriving DecidableEq

structure ExecutionReport where
  observations : Option InvocationObservations
  context : ExecutionContext
  processId : Nat
  reusedProcess : Bool
  outcome : ProgramOutcome
  elapsedMs : Nat

structure ExecutionFailure where
  observations : Option InvocationObservations
  context : ExecutionContext
  error : Error
  cleanupError : Option Error
  phase : Phase
  executionMayHaveStarted : Bool
  deriving DecidableEq

end Ledgence
