import Ledgence.Worker.Invocation
import Ledgence.Kit.JsonObject

/-! Contract errors, text and time limits, and the validation of a submitted task. -/
open Kit Kit.Checked

namespace Ledgence

inductive RunBudgetDenial where
  | cancelled
  | callsExhausted
  | delegationsExhausted
  | deadlineExceeded
  deriving DecidableEq

inductive ContractError where
  | unauthenticated
  | forbidden
  | invalidInput (message : String)
  | runBudgetDenied (reason : RunBudgetDenial)
  | externalDispatchRequired
  | invalidQueueDelivery (message : String)
  | conflict
  | ownershipLost
  | unknownSession
  | sessionExpired
  | obsoleteOperation
  | outOfOrder
  | busy
  | notFound
  | unavailable (message : String)
  deriving DecidableEq

abbrev Result := Except ContractError

def invalid (message : String) : ContractError := .invalidInput message

def ContractError.ofError (error : Error) : ContractError := .invalidInput error.toString

def ContractError.debug : ContractError → String
  | .unauthenticated => "Unauthenticated"
  | .forbidden => "Forbidden"
  | .invalidInput message => "InvalidInput(\"" ++ message ++ "\")"
  | .runBudgetDenied .cancelled => "RunBudgetDenied(Cancelled)"
  | .runBudgetDenied .callsExhausted => "RunBudgetDenied(CallsExhausted)"
  | .runBudgetDenied .delegationsExhausted => "RunBudgetDenied(DelegationsExhausted)"
  | .runBudgetDenied .deadlineExceeded => "RunBudgetDenied(DeadlineExceeded)"
  | .externalDispatchRequired => "ExternalDispatchRequired"
  | .invalidQueueDelivery message => "InvalidQueueDelivery(\"" ++ message ++ "\")"
  | .conflict => "Conflict"
  | .ownershipLost => "OwnershipLost"
  | .unknownSession => "UnknownSession"
  | .sessionExpired => "SessionExpired"
  | .obsoleteOperation => "ObsoleteOperation"
  | .outOfOrder => "OutOfOrder"
  | .busy => "Busy"
  | .notFound => "NotFound"
  | .unavailable message => "Unavailable(\"" ++ message ++ "\")"

/-- The `?` that turns a worker failure into an invalid input. -/
def lift {α : Type} (x : WorkerResult α) : Result α := x.mapError ContractError.ofError

@[simp] theorem lift_eq_ok {α : Type} {x : WorkerResult α} {a : α} : lift x = .ok a ↔ x = .ok a :=
  ok_of_mapError

def leaseDurationMs : Nat := 60000
def leaseSafetyMarginMs : Nat := 5000
def cleanupGraceMs : Nat := 30000
def sessionValidityMs : Nat := 86400000
def settlementMaxBytes : Nat := 8 * 1024 * 1024
def submissionMaxBytes : Nat := 2 * 1024 * 1024
def submissionDataMaxBytes : Nat := applicationInputMaxBytes
def maxTaskAttemptGeneration : Nat := i32Max
def taskAdmissionDeferralBackoffMs : Nat := 1000
def admissionSafeInteger : Nat := 9007199254740991

/-- Times are UTC milliseconds since the Unix epoch. This is the last one of the year 9999,
where the RFC 3339 range ends. -/
def maxTimestamp : Nat := 253402300799999

def ValidText (maximum : Nat) (value : String) : Prop :=
  value ≠ "" ∧ byteLen value ≤ maximum ∧
    value.toList.all (fun c => !isControl c && !nonCharacter c) = true

instance (maximum : Nat) (value : String) : Decidable (ValidText maximum value) :=
  inferInstanceAs (Decidable (_ ∧ _ ∧ _))

def validateText (value : String) (maximum : Nat) : Result Unit :=
  refuse (¬ ValidText maximum value) (invalid "invalid platform identifier/reference")

@[simp] theorem validateText_eq_ok {value : String} {maximum : Nat} {u : Unit} :
    validateText value maximum = .ok u ↔ ValidText maximum value := by
  simp [validateText]

structure Scope where
  tenantId : String
  namespaceId : String
  deriving DecidableEq

def Scope.validate (scope : Scope) : Result Unit := do
  validateText scope.tenantId 128
  validateText scope.namespaceId 128

structure RetryPolicy where
  maxAttempts : Nat
  retryDelayMs : Nat
  deriving DecidableEq

def RetryPolicy.default : RetryPolicy := ⟨3, 5000⟩

def RetryPolicy.validate (policy : RetryPolicy) : WorkerResult Unit :=
  refuse (policy.maxAttempts < 1 ∨ 1000 < policy.maxAttempts ∨ 86400000 < policy.retryDelayMs)
    (invalidWorkerInput "retry policy exceeds supported limits")

structure RunBudgetPolicy where
  maxCalls : Option Nat
  maxDelegations : Option Nat
  deadlineAtMs : Option Nat
  deriving DecidableEq

def RunBudgetPolicy.validate (policy : RunBudgetPolicy) : Result Unit := do
  refuse (policy.maxCalls = none ∧ policy.maxDelegations = none ∧ policy.deadlineAtMs = none)
    (invalid "run budget requires a limit or deadline")
  refuse (policy.maxCalls.any (1000000 < ·) ∨ policy.maxDelegations.any (1000000 < ·))
    (invalid "run budget limit exceeds 1000000")
  refuse (policy.deadlineAtMs.any (maxTimestamp < ·))
    (invalid "approval timestamp exceeds supported range")

/-- `admission::name`: the names of shared resources. -/
def resourceName (value : String) : Result Unit := do
  validateText value 128
  refuse (¬ value.toList.all fun c =>
      asciiAlphanumeric c || c == '_' || c == '.' || c == ':' || c == '-')
    (invalid "invalid resource name")

structure TaskAdmissionRequirement where
  resource : String
  deriving DecidableEq

def TaskAdmissionRequirement.validate (requirement : TaskAdmissionRequirement) : Result Unit :=
  resourceName requirement.resource

def positive (n : Nat) : Result Unit := do
  refuse (admissionSafeInteger < n) (invalid "admission integer exceeds safe range")
  refuse (n = 0) (invalid "admission integer must be positive")

def validateWorkflowLineage (workflowId parent root : Option String) : Result Unit := do
  ifSome workflowId fun id => validateText id 128
  match workflowId, parent, root with
  | _, none, none => .ok ()
  | some id, some parent, some root => do
    validateText parent 128
    validateText root 128
    refuse (parent = id ∨ root = id) (invalid "workflow cannot be its own ancestor")
  | _, _, _ => .error (invalid "workflow parent and root identities must be paired")

def taskRetryAttempts (attemptCount admissionDeferrals : Nat) (governed : Bool) : Result Nat := do
  refuse (maxTaskAttemptGeneration < attemptCount)
    (invalid "task attempt generation exceeds CloudEvents integer range")
  refuse (governed = false ∧ admissionDeferrals ≠ 0)
    (invalid "ungoverned task has admission deferrals")
  okOr (checkedSub attemptCount admissionDeferrals)
    (invalid "task admission deferrals exceed attempts")

theorem taskRetryAttempts_eq_ok {count deferrals charged : Nat} {governed : Bool} :
    taskRetryAttempts count deferrals governed = .ok charged ↔
      count ≤ maxTaskAttemptGeneration ∧ (governed = false → deferrals = 0) ∧
        deferrals ≤ count ∧ count - deferrals = charged := by
  simp [taskRetryAttempts]

/- Submissions. -/

structure SubmitTask where
  budget : Option RunBudgetPolicy
  admission : Option TaskAdmissionRequirement
  tenantId : String
  namespaceId : String
  queue : String
  program : ProgramRef
  correlationKey : Option String
  data : Value
  retryPolicy : RetryPolicy
  attemptTimeoutMs : Nat

structure SubmitCommand where
  idempotencyKey : String
  input : SubmitTask
  originTrace : Option TraceContext

def ProgramRef.toJson (program : ProgramRef) : Json :=
  .object [("id", some (.str program.id)), ("version", some (.str program.version))]

def RetryPolicy.toJson (policy : RetryPolicy) : Json :=
  .object [("max_attempts", some (.nat policy.maxAttempts)),
    ("retry_delay_ms", some (.nat policy.retryDelayMs))]

def RunBudgetPolicy.toJson (policy : RunBudgetPolicy) : Json :=
  .object [("max_calls", policy.maxCalls.map .nat),
    ("max_delegations", policy.maxDelegations.map .nat),
    ("deadline_at_ms", policy.deadlineAtMs.map .nat)]

def TaskAdmissionRequirement.toJson (requirement : TaskAdmissionRequirement) : Json :=
  .object [("resource", some (.str requirement.resource))]

def SubmitTask.toJson (task : SubmitTask) : Json :=
  .object [("budget", task.budget.map RunBudgetPolicy.toJson),
    ("admission", task.admission.map TaskAdmissionRequirement.toJson),
    ("tenant_id", some (.str task.tenantId)), ("namespace", some (.str task.namespaceId)),
    ("queue", some (.str task.queue)), ("program", some task.program.toJson),
    ("correlation_key", task.correlationKey.map .str), ("data", some task.data.json),
    ("retry_policy", some task.retryPolicy.toJson),
    ("attempt_timeout_ms", some (.nat task.attemptTimeoutMs))]

def checkEncodedSize (value : Json) (limit : Nat) (label : String) : WorkerResult Unit :=
  refuse (limit < value.size)
    (invalidWorkerInput (label ++ " exceeds its " ++ toString limit ++ "-byte JSON limit"))

namespace SubmitTask

def validateName (field : String × String) : WorkerResult Unit :=
  refuse (field.2 = "" ∨ 128 < byteLen field.2 ∨ field.2.toList.any isControl)
    (invalidWorkerInput
      (field.1 ++ " must contain 1–128 UTF-8 bytes and no control characters"))

def repeatedError (error : ContractError) : Error := invalidWorkerInput error.debug

def validate (task : SubmitTask) : WorkerResult Unit := do
  [("tenant_id", task.tenantId), ("namespace", task.namespaceId),
    ("queue", task.queue)].forM validateName
  refuse ((task.tenantId.toList ++ task.namespaceId.toList ++ task.queue.toList).any nonCharacter)
    (invalidWorkerInput "tenant_id, namespace, and queue must not contain Unicode noncharacters")
  refuse (task.correlationKey.any fun key => 512 < byteLen key || key.toList.any isControl)
    (invalidWorkerInput
      "correlation_key must contain at most 512 UTF-8 bytes and no control characters")
  ifSome task.budget fun budget => budget.validate.mapError repeatedError
  ifSome task.admission fun admission => admission.validate.mapError repeatedError
  task.program.validate
  task.retryPolicy.validate
  refuse (task.attemptTimeoutMs < 60000 ∨ 86400000 < task.attemptTimeoutMs)
    (invalidWorkerInput "attempt_timeout_ms must be between 60000 and 86400000")
  (validateWireValue task.data.json).mapError fun _ =>
    invalidWorkerInput "submission data must not exceed 64 nested arrays or objects"
  checkEncodedSize task.data.json submissionDataMaxBytes "submission data"
  checkEncodedSize task.toJson submissionMaxBytes "submission"

end SubmitTask
end Ledgence

/-! Shared resources: their rates, their fair sharing and their policies. -/

namespace Ledgence

structure ResourceRate where
  numerator : Nat
  periodMs : Nat
  burst : Nat
  deriving DecidableEq

def safe (n : Nat) : Result Unit :=
  refuse (admissionSafeInteger < n) (invalid "admission integer exceeds safe range")

namespace ResourceRate

def capacity (rate : ResourceRate) : Nat :=
  rate.periodMs * rate.burst

def Supported (rate : ResourceRate) : Prop :=
  (1 ≤ rate.numerator ∧ rate.numerator ≤ 1000000) ∧
    (1 ≤ rate.periodMs ∧ rate.periodMs ≤ 86400000) ∧ (1 ≤ rate.burst ∧ rate.burst ≤ 1000000)

instance (rate : ResourceRate) : Decidable rate.Supported :=
  inferInstanceAs (Decidable (_ ∧ _ ∧ _))

def validate (rate : ResourceRate) : Result Unit := do
  refuse (¬ rate.Supported) (invalid "resource rate exceeds supported bounds")
  safe rate.capacity

theorem Supported.capacity_le {rate : ResourceRate} (h : rate.Supported) :
    rate.capacity ≤ 86400000 * 1000000 :=
  Nat.mul_le_mul h.2.1.2 h.2.2.2

@[simp] theorem validate_eq_ok {rate : ResourceRate} {u : Unit} :
    rate.validate = .ok u ↔ rate.Supported := by
  simp only [validate, safe, bind_eq_ok, refuse_eq_ok, not_not, exists_unit, and_iff_left_iff_imp]
  intro supported
  have := supported.capacity_le
  simp only [admissionSafeInteger]
  omega

end ResourceRate

/- Fair sharing of one resource between groups of queues. -/

structure ResourceFairGroup where
  name : String
  weight : Nat
  queues : List String
  deriving DecidableEq

structure ResourceFairSharing where
  groups : List ResourceFairGroup
  defaultGroup : String
  deriving DecidableEq

def resourceFairGroupLimit : Nat := 16
def resourceFairQueueLimit : Nat := 64
def resourceFairWeightMax : Nat := 1000

def ResourceFairGroup.toJson (group : ResourceFairGroup) : Json :=
  .object [("name", some (.str group.name)), ("weight", some (.nat group.weight)),
    ("queues", some (.arr (group.queues.map .str)))]

def ResourceFairSharing.toJson (sharing : ResourceFairSharing) : Json :=
  .object [("groups", some (.arr (sharing.groups.map ResourceFairGroup.toJson))),
    ("default_group", some (.str sharing.defaultGroup))]

namespace ResourceFairSharing

structure Seen where
  names : List String
  queues : List String

def checkQueue (seen : Seen) (queue : String) : Result Seen := do
  validateText queue 128
  refuse (queue ∈ seen.queues ∨ resourceFairQueueLimit < seen.queues.length + 1)
    (invalid "resource fair queues must be unique with at most 64 assignments")
  return { seen with queues := queue :: seen.queues }

def checkGroup (seen : Seen) (group : ResourceFairGroup) : Result Seen := do
  resourceName group.name
  refuse (group.name ∈ seen.names ∨ ¬ (1 ≤ group.weight ∧ group.weight ≤ resourceFairWeightMax))
    (invalid "resource fair group must be unique with weight 1..1000")
  group.queues.foldlM checkQueue { seen with names := group.name :: seen.names }

def validate (sharing : ResourceFairSharing) : Result Unit := do
  refuse (¬ (1 ≤ sharing.groups.length ∧ sharing.groups.length ≤ resourceFairGroupLimit))
    (invalid "resource fair sharing requires 1..16 groups")
  let seen ← sharing.groups.foldlM checkGroup ⟨[], []⟩
  refuse (sharing.defaultGroup ∉ seen.names)
    (invalid "resource fair sharing default_group must name a configured group")
  -- Room in the 16 KiB resource record for its scope, policy and revision.
  lift (checkEncodedSize sharing.toJson (12 * 1024) "admission value")

end ResourceFairSharing

structure ResourcePolicy where
  enabled : Bool
  maxOccupancy : Nat
  rate : Option ResourceRate
  offerTimeoutMs : Nat
  startTimeoutMs : Nat
  fairSharing : Option ResourceFairSharing
  deriving DecidableEq

def ResourcePolicy.validate (policy : ResourcePolicy) : Result Unit := do
  refuse (¬ (1 ≤ policy.maxOccupancy ∧ policy.maxOccupancy ≤ 1000000) ∨
      ¬ (1000 ≤ policy.offerTimeoutMs ∧ policy.offerTimeoutMs ≤ 300000) ∨
      ¬ (100 ≤ policy.startTimeoutMs ∧ policy.startTimeoutMs ≤ 30000))
    (invalid "resource policy exceeds supported bounds")
  ifSome policy.fairSharing ResourceFairSharing.validate
  ifSome policy.rate ResourceRate.validate

end Ledgence

/-! Authenticated principals: who calls, for which installation, and with which capabilities. -/

namespace Ledgence

structure PrincipalIdentity where
  issuer : String
  subject : String
  deriving DecidableEq

def PrincipalIdentity.validate (identity : PrincipalIdentity) : Result Unit := do
  validateText identity.issuer 256
  validateText identity.subject 128

structure AccessAudience where
  authorityId : String
  instanceId : String
  scope : Scope
  deriving DecidableEq

def AccessAudience.validate (audience : AccessAudience) : Result Unit := do
  validateText audience.authorityId 128
  validateText audience.instanceId 128
  audience.scope.validate

inductive PrincipalClass where
  | operator
  | service
  | worker
  deriving DecidableEq

inductive AccessCapability where
  | metadataRead
  | sensitiveRead
  | executionSubmit
  | executionControl
  | programPublish
  | approvalDecide
  | effectResolve
  | workerExecute
  | resourceControl
  deriving DecidableEq

/-- Only operators control resources, and workers execute and do nothing else. -/
def PrincipalClass.validateCapabilities (principalClass : PrincipalClass)
    (capabilities : List AccessCapability) : Result Unit :=
  refuse (capabilities = [] ∨ 9 < capabilities.length ∨ ¬ capabilities.Nodup ∨
      (AccessCapability.resourceControl ∈ capabilities ∧ principalClass ≠ .operator) ∨
      ¬ ∀ capability ∈ capabilities, principalClass = .worker ↔ capability = .workerExecute)
    (invalid "invalid access principal or capabilities")

structure VerifiedPrincipal where
  identity : PrincipalIdentity
  audience : AccessAudience
  credentialId : String
  principalClass : PrincipalClass
  expiresAtMs : Nat
  capabilities : List AccessCapability
  identityValid : identity.validate = .ok ()
  audienceValid : audience.validate = .ok ()
  credentialValid : validateText credentialId 128 = .ok ()
  capabilitiesValid : principalClass.validateCapabilities capabilities = .ok ()
  expires : 0 < expiresAtMs ∧ expiresAtMs ≤ i64Max

namespace VerifiedPrincipal

def require (principal : VerifiedPrincipal) (capability : AccessCapability) : Result Unit :=
  refuse (capability ∉ principal.capabilities) .forbidden

def requireAt (principal : VerifiedPrincipal) (audience : AccessAudience) (nowMs : Nat) :
    Result Unit := do
  refuse (principal.expiresAtMs ≤ nowMs) .unauthenticated
  refuse (principal.audience ≠ audience) .forbidden

end VerifiedPrincipal
end Ledgence
