import Ledgence.Api.Encoding
import Ledgence.Core.Admission

/-! The stored records of a shared resource and of the requests for it, and their own checks. -/
open Kit Kit.Checked

namespace Ledgence

structure ResourceRecord where
  scope : Scope
  name : String
  revision : Nat
  policy : ResourcePolicy
  updatedAt : Nat
  deriving DecidableEq

def ResourceRate.toJson (rate : ResourceRate) : Json :=
  .object [("numerator", some (.nat rate.numerator)), ("period_ms", some (.nat rate.periodMs)),
    ("burst", some (.nat rate.burst))]

def ResourcePolicy.toJson (policy : ResourcePolicy) : Json :=
  .object [("enabled", some (.bool policy.enabled)),
    ("max_occupancy", some (.nat policy.maxOccupancy)),
    ("rate", some ((policy.rate.map ResourceRate.toJson).getD .null)),
    ("offer_timeout_ms", some (.nat policy.offerTimeoutMs)),
    ("start_timeout_ms", some (.nat policy.startTimeoutMs)),
    ("fair_sharing", policy.fairSharing.map ResourceFairSharing.toJson)]

def ResourceRecord.toJson (record : ResourceRecord) : Json :=
  .object [("scope", some record.scope.toJson), ("name", some (.str record.name)),
    ("revision", some (.nat record.revision)), ("policy", some record.policy.toJson),
    ("updated_at", some (.nat record.updatedAt))]

def ResourceRecord.validate (record : ResourceRecord) : Result Unit := do
  record.scope.validate
  resourceName record.name
  positive record.revision
  record.policy.validate
  admissionTime record.updatedAt
  lift (checkEncodedSize record.toJson (16 * 1024) "admission value")

def LeaseOwner.validate (owner : LeaseOwner) : Result Unit := do
  owner.scope.validate
  refuse (owner.generation = 0 ∨ maxTaskAttemptGeneration < owner.generation)
    (invalid "lease generation must be positive")
  [owner.taskId, owner.attemptId, owner.leaseId, owner.workerSessionId].forM
    fun id => validateText id 128

/- Requests of workflows. -/

structure AdmissionOccurrence where
  scope : Scope
  workflowId : String
  originActivationId : String
  key : String
  deriving DecidableEq

def AdmissionOccurrence.validate (occurrence : AdmissionOccurrence) : Result Unit := do
  occurrence.scope.validate
  [occurrence.workflowId, occurrence.originActivationId, occurrence.key].forM
    fun id => validateText id 128

inductive AdmissionState where
  | waiting
  | offered
  | awaitingRewait
  | possiblyDispatched
  | unknownOccupied
  | finished
  | closedBeforeStart
  | administrativelyReleased
  deriving DecidableEq

structure AdmissionOffer where
  generation : Nat
  policyRevision : Nat
  activationId : String
  expiresAt : Nat
  deriving DecidableEq

def AdmissionOffer.validate (offer : AdmissionOffer) : Result Unit := do
  positive offer.generation
  positive offer.policyRevision
  validateText offer.activationId 128
  admissionTime offer.expiresAt

structure AdmissionSource where
  occurrence : AdmissionOccurrence
  sourceId : String
  startId : String
  finishId : String
  generation : Nat
  owner : LeaseOwner
  acceptedAt : Nat
  startDeadlineAt : Nat
  deriving DecidableEq

def AdmissionSource.validate (source : AdmissionSource) : Result Unit := do
  source.occurrence.validate
  source.owner.validate
  [source.sourceId, source.startId, source.finishId].forM fun id => validateText id 128
  positive source.generation
  admissionTime source.acceptedAt
  admissionTime source.startDeadlineAt
  refuse (source.occurrence.scope ≠ source.owner.scope ∨
      source.startDeadlineAt ≤ source.acceptedAt ∨
      30000 < source.startDeadlineAt - source.acceptedAt)
    (invalid "inconsistent admission source")

/-- Usage and output are compared by their canonical text, so the text is what is carried. -/
structure AdmissionFinishReceipt where
  source : AdmissionSource
  content : String
  acceptedAt : Nat
  alreadyAccepted : Bool
  deriving DecidableEq

def AdmissionFinishReceipt.validate (receipt : AdmissionFinishReceipt) : Result Unit := do
  receipt.source.validate
  admissionTime receipt.acceptedAt
  refuse (receipt.acceptedAt < receipt.source.acceptedAt)
    (invalid "finish predates admission source")

structure ProviderOperationTicket where
  occurrence : EffectOccurrence
  bindingDigest : String
  deriving DecidableEq

inductive AdmissionBinding where
  | operation
  | provider (ticket : ProviderOperationTicket)
  deriving DecidableEq

inductive ProviderCallCompletion where
  | completed
  | unknown
  deriving DecidableEq

structure ProviderAdmissionReport where
  callCompletion : ProviderCallCompletion
  acceptedAt : Nat
  alreadyAccepted : Bool
  deriving DecidableEq

structure ProviderAdmissionRecord where
  ticket : ProviderOperationTicket
  source : Option AdmissionSource
  report : Option ProviderAdmissionReport
  deriving DecidableEq

structure AdmissionSnapshot where
  budgetDenial : Option RunBudgetDenial
  occurrence : AdmissionOccurrence
  binding : AdmissionBinding
  state : AdmissionState
  revision : Nat
  createdAt : Nat
  updatedAt : Nat
  deadlineAt : Nat
  offer : Option AdmissionOffer
  source : Option AdmissionSource
  finish : Option AdmissionFinishReceipt
  provider : Option ProviderAdmissionRecord
  deriving DecidableEq

namespace AdmissionSnapshot
variable (s : AdmissionSnapshot)

def completedReport : Bool :=
  (s.provider.bind ProviderAdmissionRecord.report).any fun r => r.callCompletion = .completed

def Consistent : Prop :=
  match s.state with
  | .waiting | .awaitingRewait | .closedBeforeStart =>
    s.offer = none ∧ s.source = none ∧ s.finish = none
  | .offered => s.offer.isSome ∧ s.source = none ∧ s.finish = none
  | .possiblyDispatched | .unknownOccupied => s.offer = none ∧ s.source.isSome ∧ s.finish = none
  | .finished => s.offer = none ∧ s.source.isSome ∧ (s.finish.isSome ∨ s.completedReport = true)
  | .administrativelyReleased => s.offer = none ∧ s.source.isSome

instance : Decidable s.Consistent := by
  unfold Consistent
  cases s.state <;> exact inferInstance

def ProviderConsistent (record : ProviderAdmissionRecord) : Prop :=
  match s.state with
  | .closedBeforeStart => record.source = none
  | .possiblyDispatched => record.source.isSome ∧ record.report = none
  | .unknownOccupied => record.source.isSome ∧ ∀ r ∈ record.report, r.callCompletion = .unknown
  | .finished => ∃ r ∈ record.report, r.callCompletion = .completed
  | .administrativelyReleased => record.source.isSome
  | .waiting | .offered | .awaitingRewait => False

instance (record : ProviderAdmissionRecord) : Decidable (s.ProviderConsistent record) := by
  unfold ProviderConsistent
  cases s.state <;> exact inferInstance

def validateBinding : Result Unit :=
  match s.binding with
  | .operation => refuse s.provider.isSome (invalid "operation has provider evidence")
  | .provider ticket => do
    refuse (s.finish.isSome ∨ ticket.occurrence.scope ≠ s.occurrence.scope ∨
        ticket.occurrence.workflowId ≠ s.occurrence.workflowId ∨
        ticket.occurrence.activationId ≠ s.occurrence.originActivationId)
      (invalid "provider admission subject mismatch")
    match s.provider with
    | some record =>
      refuse (s.source ≠ record.source ∨ record.report.any fun r => s.updatedAt < r.acceptedAt)
        (invalid "provider admission evidence mismatch")
    | none =>
      refuse s.source.isSome (invalid "provider admission source is missing linked evidence")

def validate : Result Unit := do
  refuse (s.budgetDenial.isSome ∧ s.state ≠ .closedBeforeStart)
    (invalid "budget refusal requires closed-before-start admission")
  s.occurrence.validate
  positive s.revision
  [s.createdAt, s.updatedAt, s.deadlineAt].forM admissionTime
  refuse (s.updatedAt < s.createdAt ∨ s.deadlineAt < s.createdAt)
    (invalid "inconsistent admission timestamps")
  s.validateBinding
  ifSome s.offer fun offer => do
    offer.validate
    refuse (s.deadlineAt < offer.expiresAt) (invalid "foreign admission offer")
  ifSome s.source fun source => do
    source.validate
    refuse (source.occurrence ≠ s.occurrence ∨ s.updatedAt < source.acceptedAt ∨
        source.acceptedAt < s.createdAt ∨ s.deadlineAt ≤ source.acceptedAt)
      (invalid "foreign admission source")
  ifSome s.finish fun finish => do
    finish.validate
    refuse (s.source ≠ some finish.source ∨ s.updatedAt < finish.acceptedAt)
      (invalid "foreign admission finish")
  refuse (¬ s.Consistent) (invalid "inconsistent admission state")
  ifSome s.provider fun record =>
    refuse (¬ s.ProviderConsistent record) (invalid "inconsistent provider admission state")

variable {s}

theorem consistent_of_validate {u : Unit} (valid : s.validate = .ok u) : s.Consistent := by
  simp only [validate, bind_eq_ok, refuse_eq_ok, exists_unit, not_not] at valid
  obtain ⟨-, -, -, -, -, -, -, -, -, consistent, -⟩ := valid
  exact consistent

end AdmissionSnapshot
end Ledgence

/-! The stored record of one task generation's request for a resource, and its own check. -/

namespace Ledgence

structure TaskAdmissionOccurrence where
  scope : Scope
  taskId : String
  generation : Nat
  deriving DecidableEq

def TaskAdmissionOccurrence.validate (occurrence : TaskAdmissionOccurrence) : Result Unit := do
  occurrence.scope.validate
  validateText occurrence.taskId 128
  refuse (occurrence.generation = 0 ∨ maxTaskAttemptGeneration < occurrence.generation)
    (invalid "task admission generation must be positive")

def TaskAdmissionOccurrence.ofOwner (owner : LeaseOwner) : TaskAdmissionOccurrence :=
  ⟨owner.scope, owner.taskId, owner.generation⟩

inductive TaskAdmissionState where
  | waiting
  | offered
  | preparing
  | possiblyDispatched
  | unknownOccupied
  | finished
  | closedBeforeStart
  | administrativelyReleased
  deriving DecidableEq

structure TaskAdmissionOffer where
  generation : Nat
  policyRevision : Nat
  expiresAt : Nat
  deriving DecidableEq

/-- `task_admission::time` -/
def taskAdmissionTime (t : Nat) : Result Unit :=
  refuse (maxTimestamp < t) (invalid "task admission timestamp exceeds bounds")

def TaskAdmissionOffer.validate (offer : TaskAdmissionOffer) : Result Unit := do
  positive offer.generation
  positive offer.policyRevision
  taskAdmissionTime offer.expiresAt

structure TaskAdmissionSource where
  owner : LeaseOwner
  offerGeneration : Nat
  resource : String
  startId : String
  sourceId : String
  acceptedAt : Nat
  startDeadlineAt : Nat
  deriving DecidableEq

def TaskAdmissionSource.validate (source : TaskAdmissionSource) : Result Unit := do
  source.owner.validate
  positive source.offerGeneration
  resourceName source.resource
  validateText source.startId 128
  validateText source.sourceId 128
  taskAdmissionTime source.acceptedAt
  taskAdmissionTime source.startDeadlineAt
  refuse (source.startDeadlineAt ≤ source.acceptedAt ∨
      30000 < source.startDeadlineAt - source.acceptedAt)
    (invalid "inconsistent task admission source")

inductive TaskAdmissionCloseOutcome where
  /-- The preparation never invoked the handler. -/
  | notInvoked
  /-- The invocation's cleanup is complete. -/
  | quiescent
  deriving DecidableEq

structure TaskAdmissionStartCommand where
  owner : LeaseOwner
  offerGeneration : Nat
  startId : String
  deriving DecidableEq

def TaskAdmissionStartCommand.validate (command : TaskAdmissionStartCommand) : Result Unit := do
  command.owner.validate
  positive command.offerGeneration
  validateText command.startId 128

structure TaskAdmissionCloseCommand where
  owner : LeaseOwner
  offerGeneration : Nat
  startId : String
  operationId : String
  outcome : TaskAdmissionCloseOutcome
  deriving DecidableEq

def TaskAdmissionCloseCommand.validate (command : TaskAdmissionCloseCommand) : Result Unit := do
  command.owner.validate
  positive command.offerGeneration
  validateText command.startId 128
  validateText command.operationId 128

inductive TaskAdmissionCloseDisposition where
  | deferred
  | chargedNotInvoked
  | released
  | alreadyReleased
  | closed
  deriving DecidableEq

structure TaskAdmissionCloseReceipt where
  owner : LeaseOwner
  offerGeneration : Nat
  startId : String
  operationId : String
  outcome : TaskAdmissionCloseOutcome
  source : Option TaskAdmissionSource
  disposition : TaskAdmissionCloseDisposition
  acceptedAt : Nat
  alreadyAccepted : Bool
  deriving DecidableEq

namespace TaskAdmissionCloseReceipt
variable (receipt : TaskAdmissionCloseReceipt)

def command : TaskAdmissionCloseCommand where
  owner := receipt.owner
  offerGeneration := receipt.offerGeneration
  startId := receipt.startId
  operationId := receipt.operationId
  outcome := receipt.outcome

def Consistent : Prop :=
  match receipt.disposition with
  | .deferred => receipt.source = none ∧ receipt.outcome = .notInvoked
  | .chargedNotInvoked => receipt.source.isSome ∧ receipt.outcome = .notInvoked
  | .released => receipt.source.isSome ∧ receipt.outcome = .quiescent
  | .alreadyReleased => receipt.source.isSome
  | .closed => receipt.source = none

instance : Decidable receipt.Consistent := by
  unfold Consistent
  cases receipt.disposition <;> exact inferInstance

def validate : Result Unit := do
  receipt.command.validate
  taskAdmissionTime receipt.acceptedAt
  ifSome receipt.source fun source => do
    source.validate
    refuse (source.owner ≠ receipt.owner ∨ source.offerGeneration ≠ receipt.offerGeneration ∨
        source.startId ≠ receipt.startId ∨ receipt.acceptedAt < source.acceptedAt)
      (invalid "task admission close source mismatch")
  refuse (¬ receipt.Consistent) (invalid "invalid task admission close disposition")

end TaskAdmissionCloseReceipt

structure TaskAdmissionSnapshot where
  budgetDenial : Option RunBudgetDenial
  occurrence : TaskAdmissionOccurrence
  resource : String
  program : ProgramDescriptor
  state : TaskAdmissionState
  revision : Nat
  createdAt : Nat
  updatedAt : Nat
  offer : Option TaskAdmissionOffer
  owner : Option LeaseOwner
  source : Option TaskAdmissionSource
  close : Option TaskAdmissionCloseReceipt
  deriving DecidableEq

namespace TaskAdmissionSnapshot
variable (s : TaskAdmissionSnapshot)

def Consistent : Prop :=
  match s.state with
  | .waiting => s.offer = none ∧ s.owner = none ∧ s.source = none ∧ s.close = none
  | .offered => s.offer.isSome ∧ s.owner = none ∧ s.source = none ∧ s.close = none
  | .preparing => s.offer.isSome ∧ s.owner.isSome ∧ s.source = none ∧ s.close = none
  | .possiblyDispatched | .unknownOccupied => s.source.isSome ∧ s.close = none
  | .finished => s.source.isSome ∧ s.close.any fun close =>
      close.disposition = .released || close.disposition = .chargedNotInvoked
  | .administrativelyReleased => s.source.isSome ∧ s.close.all fun close =>
      close.disposition = .alreadyReleased
  | .closedBeforeStart => s.source = none ∧ s.owner.isSome = s.offer.isSome ∧
      s.close.all fun close => close.disposition = .closed || close.disposition = .deferred

instance : Decidable s.Consistent := by
  unfold Consistent
  cases s.state <;> exact inferInstance

def SourceMatches (source : TaskAdmissionSource) : Prop :=
  TaskAdmissionOccurrence.ofOwner source.owner = s.occurrence ∧ source.resource = s.resource ∧
    s.owner = some source.owner ∧
    (s.offer.any fun offer => offer.generation = source.offerGeneration ∧
      source.acceptedAt < offer.expiresAt ∧ source.startDeadlineAt ≤ offer.expiresAt) ∧
    s.createdAt ≤ source.acceptedAt ∧ source.acceptedAt ≤ s.updatedAt

instance (source : TaskAdmissionSource) : Decidable (s.SourceMatches source) :=
  inferInstanceAs (Decidable (_ ∧ _ ∧ _ ∧ _ ∧ _ ∧ _))

def CloseMatches (close : TaskAdmissionCloseReceipt) : Prop :=
  close.alreadyAccepted = false ∧ s.owner = some close.owner ∧ s.source = close.source ∧
    (s.offer.any fun offer => offer.generation = close.offerGeneration) ∧
    s.createdAt ≤ close.acceptedAt ∧ close.acceptedAt ≤ s.updatedAt

instance (close : TaskAdmissionCloseReceipt) : Decidable (s.CloseMatches close) :=
  inferInstanceAs (Decidable (_ ∧ _ ∧ _ ∧ _ ∧ _ ∧ _))

def validate : Result Unit := do
  refuse (s.budgetDenial.isSome ∧ s.state ≠ .closedBeforeStart)
    (invalid "budget refusal requires closed-before-start admission")
  s.occurrence.validate
  resourceName s.resource
  lift s.program.validate
  positive s.revision
  taskAdmissionTime s.createdAt
  taskAdmissionTime s.updatedAt
  refuse (s.updatedAt < s.createdAt) (invalid "task admission timestamps reversed")
  ifSome s.offer TaskAdmissionOffer.validate
  ifSome s.owner fun owner => do
    owner.validate
    refuse (TaskAdmissionOccurrence.ofOwner owner ≠ s.occurrence)
      (invalid "task admission owner mismatch")
  ifSome s.source fun source => do
    source.validate
    refuse (¬ s.SourceMatches source) (invalid "task admission source mismatch")
  ifSome s.close fun close => do
    close.validate
    refuse (¬ s.CloseMatches close) (invalid "task admission close mismatch")
  refuse (¬ s.Consistent) (invalid "inconsistent task admission state")

variable {s}

theorem consistent_of_validate {u : Unit} (valid : s.validate = .ok u) : s.Consistent := by
  simp only [validate, bind_eq_ok, refuse_eq_ok, exists_unit, not_not] at valid
  obtain ⟨-, -, -, -, -, -, -, -, -, -, -, -, consistent⟩ := valid
  exact consistent

end TaskAdmissionSnapshot
end Ledgence
