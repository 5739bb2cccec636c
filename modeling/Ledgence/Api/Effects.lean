import Ledgence.Api.Submission
import Ledgence.Api.ApprovalInbox
import Ledgence.Api.Observation
import Ledgence.Ledger.Records

/-! Approved actions and the commands of workers about their effects, in both protocol versions. -/
open Kit Kit.Checked

namespace Ledgence

def approvalActionMaxBytes : Nat := 32 * 1024
def approvalProposedArgumentsMaxBytes : Nat := 32 * 1024
def approvalSnapshotMaxBytes : Nat := 96 * 1024
def workflowLocalRecordMaxBytes : Nat := 128 * 1024
def effectEvidenceCommandMaxBytes : Nat := workflowLocalRecordMaxBytes + 16 * 1024

def encode (value : Json) : List Char :=
  canonicalJsonBytes value

/- Reviewed actions. -/

def members : Json → Option (List (String × Json))
  | .obj ms => some ms
  | .null | .bool _ | .num _ | .str _ | .arr _ => none

def approvalArguments (value : Json) (limit : Nat) : Result Unit := do
  refuse (members value = none) (invalid "approval arguments must be an object")
  lift (validateWireValue value)
  lift (checkEncodedSize value limit "approval arguments")

structure ApprovalAction where
  name : String
  version : String
  arguments : Json

namespace ApprovalAction

def toJson (action : ApprovalAction) : Json :=
  .object [("name", some (.str action.name)), ("version", some (.str action.version)),
    ("arguments", some action.arguments)]

def fromJson (v : Json) : Option ApprovalAction := do
  let field ← Json.struct ["name", "version", "arguments"] v
  let name ← Json.required Json.asStr (field "name")
  let version ← Json.required Json.asStr (field "version")
  let arguments ← Json.required some (field "arguments")
  return ⟨name, version, arguments⟩

def validate (action : ApprovalAction) : Result Unit := do
  validateText action.name 512
  validateText action.version 128
  approvalArguments action.arguments approvalActionMaxBytes
  lift (checkEncodedSize action.toJson approvalActionMaxBytes "approval action")

/-- `matches`: the same action up to the order of members. -/
def sameAs (action other : ApprovalAction) : Result Bool := do
  action.validate
  other.validate
  return canonicalJsonBytes action.toJson == canonicalJsonBytes other.toJson

end ApprovalAction

inductive ApprovalProtection where
  | unspecified
  | externalEffect
  | providerOperation
  deriving DecidableEq

def ApprovalProtection.toJson : ApprovalProtection → Option Json
  | .unspecified => none
  | .externalEffect => some (.str "external_effect")
  | .providerOperation => some (.str "provider_operation")

inductive ApprovalDecision where
  | approve
  | reject
  deriving DecidableEq

def ApprovalDecision.name : ApprovalDecision → String
  | .approve => "approve"
  | .reject => "reject"

structure ApprovalDecisionRecord where
  decisionId : String
  decision : ApprovalDecision
  reviewer : String
  reason : Option String
  decidedAt : Nat
  deriving DecidableEq

def ApprovalDecisionRecord.toJson (record : ApprovalDecisionRecord) : Json :=
  .object [("decision_id", some (.str record.decisionId)),
    ("decision", some (.str record.decision.name)), ("reviewer", some (.str record.reviewer)),
    ("reason", some (.opt (record.reason.map .str))), ("decided_at", some (.nat record.decidedAt))]

def ApprovalDecisionRecord.validate (record : ApprovalDecisionRecord) : Result Unit := do
  validateText record.decisionId 128
  validateText record.reviewer 128
  refuse (record.reason.any (4096 < byteLen ·)) (invalid "approval reason exceeds 4096 bytes")
  approvalTimestamp record.decidedAt

/-- A review that is not about a provider's operation: it has no provider binding. -/
structure ApprovalSnapshot where
  scope : Scope
  workflowId : String
  key : String
  activationId : String
  revision : Nat
  action : ApprovalAction
  protection : ApprovalProtection
  proposedArguments : Option Json
  createdAt : Nat
  deadline : Nat
  status : ApprovalStatus
  decision : Option ApprovalDecisionRecord
  resumedActivationId : Option String

namespace ApprovalSnapshot

def toJson (approval : ApprovalSnapshot) : Json :=
  .object [("scope", some approval.scope.toJson), ("workflow_id", some (.str approval.workflowId)),
    ("key", some (.str approval.key)), ("activation_id", some (.str approval.activationId)),
    ("revision", some (.nat approval.revision)), ("action", some approval.action.toJson),
    ("protection", approval.protection.toJson),
    ("proposed_arguments", some (.opt approval.proposedArguments)),
    ("created_at", some (.nat approval.createdAt)), ("deadline", some (.nat approval.deadline)),
    ("status", some (.str approval.status.name)),
    ("decision", some (.opt (approval.decision.map ApprovalDecisionRecord.toJson))),
    ("resumed_activation_id", some (.opt (approval.resumedActivationId.map .str)))]

def validateDecision (approval : ApprovalSnapshot) : Result Unit :=
  match approval.decision, approval.status with
  | some record, .approved | some record, .rejected => do
    record.validate
    refuse ((record.decision == .approve) ≠ (approval.status == .approved) ∨
        record.decidedAt < approval.createdAt ∨ approval.deadline ≤ record.decidedAt)
      (invalid "inconsistent approval decision")
  | none, .pending | none, .expired | none, .cancelled => .ok ()
  | _, _ => .error (invalid "inconsistent approval status")

def validate (approval : ApprovalSnapshot) : Result Unit := do
  approval.scope.validate
  [approval.workflowId, approval.key, approval.activationId].forM fun id => validateText id 128
  approval.action.validate
  refuse (approval.protection = .providerOperation)
    (invalid "provider binding does not match approval protection")
  ifSome approval.proposedArguments fun value =>
    approvalArguments value approvalProposedArgumentsMaxBytes
  approvalTimestamp approval.createdAt
  approvalTimestamp approval.deadline
  refuse (approval.deadline < approval.createdAt ∨
      workflowMaxDelayMs < approval.deadline - approval.createdAt)
    (invalid "invalid approval deadline")
  ifSome approval.resumedActivationId fun id => do
    validateText id 128
    refuse (approval.status = .pending ∨ approval.status = .cancelled ∨ id = approval.activationId)
      (invalid "approval cannot resume with this status or activation")
  approval.validateDecision
  lift (checkEncodedSize approval.toJson approvalSnapshotMaxBytes "approval snapshot")

end ApprovalSnapshot

/- Local results. -/

structure LocalStepRecord where
  key : String
  callable : String
  input : Json
  output : Json

namespace LocalStepRecord

def toJson (record : LocalStepRecord) : Json :=
  .object [("key", some (.str record.key)), ("callable", some (.str record.callable)),
    ("input", some record.input), ("output", some record.output)]

def validate (record : LocalStepRecord) : Result Unit := do
  validateText record.key 128
  validateText record.callable 512
  lift (validateWireValue record.input)
  lift (validateWireValue record.output)
  lift (checkEncodedSize record.toJson workflowLocalRecordMaxBytes "local step")

/-- `matches`. -/
def sameAs (record other : LocalStepRecord) : Result Bool := do
  record.validate
  other.validate
  return canonicalJsonBytes record.toJson == canonicalJsonBytes other.toJson

end LocalStepRecord

/- Grants and claims. -/

structure RunBudgetGrant where
  authorizedAt : Nat
  expiresAt : Nat
  deriving DecidableEq

def RunBudgetGrant.toJson (grant : RunBudgetGrant) : Json :=
  .object [("authorized_at", some (.nat grant.authorizedAt)),
    ("expires_at", some (.nat grant.expiresAt))]

def RunBudgetGrant.validate (grant : RunBudgetGrant) : Result Unit := do
  approvalTimestamp grant.authorizedAt
  approvalTimestamp grant.expiresAt
  refuse (grant.expiresAt ≤ grant.authorizedAt ∨ 5000 < grant.expiresAt - grant.authorizedAt)
    (invalid "invalid run budget grant window")

def validateLookup (lookup dispatch : String) : Result Unit := do
  validateText lookup 512
  refuse (lookup = dispatch) (invalid "approved effect lookup must differ from dispatch")

def stepKeyPrefix : String := "_approval:"

def validateEffectStepKey (key : String) : Result Unit :=
  let digest := key.toList.drop stepKeyPrefix.length
  refuse (¬ (stepKeyPrefix.toList <+: key.toList ∧ digest.length = 64 ∧ digest.all lowerHex = true))
    (invalid "invalid approved effect journal key")

def approvedEffectStepKey (sha256 : List Char → String) (approvalKey : String) : String :=
  stepKeyPrefix ++ sha256 approvalKey.toList

structure ApprovedEffectClaimCommand where
  budgetFence : Bool
  owner : LeaseOwner
  workflowId : String
  approvalKey : String
  action : ApprovalAction
  lookup : String

def ApprovedEffectClaimCommand.validate (command : ApprovedEffectClaimCommand) : Result Unit := do
  command.owner.validate
  validateText command.workflowId 128
  validateText command.approvalKey 128
  command.action.validate
  validateLookup command.lookup command.action.name

inductive ApprovedEffectDisposition where
  | dispatch
  | lookupOnly
  deriving DecidableEq

def ApprovedEffectDisposition.name : ApprovedEffectDisposition → String
  | .dispatch => "dispatch"
  | .lookupOnly => "lookup_only"

structure ApprovedEffectClaimReceipt where
  budgetGrant : Option RunBudgetGrant
  scope : Scope
  workflowId : String
  activationId : String
  attemptId : String
  approvalKey : String
  action : ApprovalAction
  lookup : String
  disposition : ApprovedEffectDisposition

def ApprovedEffectClaimReceipt.validate (receipt : ApprovedEffectClaimReceipt) : Result Unit := do
  ifSome receipt.budgetGrant RunBudgetGrant.validate
  receipt.scope.validate
  [receipt.workflowId, receipt.activationId, receipt.attemptId, receipt.approvalKey].forM
    fun id => validateText id 128
  receipt.action.validate
  validateLookup receipt.lookup receipt.action.name

structure ApprovedEffectConfirmCommand where
  owner : LeaseOwner
  workflowId : String
  approvalKey : String
  lookup : String
  record : LocalStepRecord

def ApprovedEffectConfirmCommand.validate (command : ApprovedEffectConfirmCommand) :
    Result Unit := do
  command.owner.validate
  validateText command.workflowId 128
  validateText command.approvalKey 128
  validateLookup command.lookup command.record.callable
  validateEffectStepKey command.record.key
  command.record.validate

structure ApprovedEffectConfirmReceipt where
  scope : Scope
  workflowId : String
  activationId : String
  attemptId : String
  approvalKey : String
  key : String
  alreadyAccepted : Bool
  deriving DecidableEq

def ApprovedEffectConfirmReceipt.validate (receipt : ApprovedEffectConfirmReceipt) :
    Result Unit := do
  receipt.scope.validate
  [receipt.workflowId, receipt.activationId, receipt.attemptId, receipt.approvalKey].forM
    fun id => validateText id 128
  validateEffectStepKey receipt.key

/- The second version: claims, confirmations and observations by verified workers. -/

def invalidEvidence : ContractError := invalid "invalid approved effect evidence"

def evidenceBounded (value : Json) (limit : Nat) : Result Unit :=
  lift (checkEncodedSize value limit "effect evidence")

def evidencePositive (n : Nat) : Result Unit :=
  refuse (n = 0) invalidEvidence

def occurrenceOf (owner : LeaseOwner) (workflowId approvalKey : String) : EffectOccurrence :=
  ⟨owner.scope, workflowId, owner.taskId, approvalKey⟩

structure EffectWorkerIdentity where
  audience : AccessAudience
  issuer : String
  subject : String
  credentialId : String
  deriving DecidableEq

def AccessAudience.toJson (audience : AccessAudience) : Json :=
  .object [("authority_id", some (.str audience.authorityId)),
    ("instance_id", some (.str audience.instanceId)), ("scope", some audience.scope.toJson)]

namespace EffectWorkerIdentity

def toJson (worker : EffectWorkerIdentity) : Json :=
  .object [("audience", some worker.audience.toJson), ("issuer", some (.str worker.issuer)),
    ("subject", some (.str worker.subject)), ("credential_id", some (.str worker.credentialId))]

def validate (worker : EffectWorkerIdentity) : Result Unit := do
  worker.audience.validate
  (PrincipalIdentity.mk worker.issuer worker.subject).validate
  validateText worker.credentialId 128

def fromPrincipal (principal : VerifiedPrincipal) : Result EffectWorkerIdentity := do
  principal.require .workerExecute
  refuse (principal.principalClass ≠ .worker) .forbidden
  let worker := EffectWorkerIdentity.mk principal.audience principal.identity.issuer
    principal.identity.subject principal.credentialId
  worker.validate
  return worker

def sameWorker (worker other : EffectWorkerIdentity) : Bool :=
  worker.audience == other.audience && worker.issuer == other.issuer &&
    worker.subject == other.subject

def matchesPrincipal (worker : EffectWorkerIdentity) (principal : VerifiedPrincipal) : Bool :=
  (fromPrincipal principal).toOption.any worker.sameWorker

end EffectWorkerIdentity

structure EffectClaimV2Command where
  budgetFence : Bool
  owner : LeaseOwner
  workflowId : String
  approvalKey : String
  action : ApprovalAction
  lookup : String
  claimId : String

namespace EffectClaimV2Command

/-- The transport's negotiation is no part of the command. -/
def toJson (command : EffectClaimV2Command) : Json :=
  .object [("owner", some command.owner.toJson), ("workflow_id", some (.str command.workflowId)),
    ("approval_key", some (.str command.approvalKey)), ("action", some command.action.toJson),
    ("lookup", some (.str command.lookup)), ("claim_id", some (.str command.claimId))]

def legacy (command : EffectClaimV2Command) : ApprovedEffectClaimCommand :=
  ⟨command.budgetFence, command.owner, command.workflowId, command.approvalKey, command.action,
    command.lookup⟩

def occurrence (command : EffectClaimV2Command) : EffectOccurrence :=
  occurrenceOf command.owner command.workflowId command.approvalKey

def validate (command : EffectClaimV2Command) : Result Unit := do
  command.legacy.validate
  validateText command.claimId 128
  evidenceBounded command.toJson effectEvidenceCommandMaxBytes

end EffectClaimV2Command

inductive EffectReportedCallback where
  | dispatch
  | lookup
  deriving DecidableEq

def EffectReportedCallback.name : EffectReportedCallback → String
  | .dispatch => "dispatch"
  | .lookup => "lookup"

structure EffectConfirmV2Command where
  owner : LeaseOwner
  workflowId : String
  approvalKey : String
  lookup : String
  record : LocalStepRecord
  claimId : String
  observationId : String
  reportedCallback : EffectReportedCallback

namespace EffectConfirmV2Command

def toJson (command : EffectConfirmV2Command) : Json :=
  .object [("owner", some command.owner.toJson), ("workflow_id", some (.str command.workflowId)),
    ("approval_key", some (.str command.approvalKey)), ("lookup", some (.str command.lookup)),
    ("record", some command.record.toJson), ("claim_id", some (.str command.claimId)),
    ("observation_id", some (.str command.observationId)),
    ("reported_callback", some (.str command.reportedCallback.name))]

def legacy (command : EffectConfirmV2Command) : ApprovedEffectConfirmCommand :=
  ⟨command.owner, command.workflowId, command.approvalKey, command.lookup, command.record⟩

def occurrence (command : EffectConfirmV2Command) : EffectOccurrence :=
  occurrenceOf command.owner command.workflowId command.approvalKey

def validate (command : EffectConfirmV2Command) : Result Unit := do
  command.legacy.validate
  validateText command.claimId 128
  validateText command.observationId 128
  evidenceBounded command.toJson effectEvidenceCommandMaxBytes

end EffectConfirmV2Command

structure EffectObservationCommand where
  occurrence : EffectOccurrence
  claimId : String
  observationId : String
  reportedCallback : EffectReportedCallback
  output : Json

namespace EffectObservationCommand

def toJson (command : EffectObservationCommand) : Json :=
  .object [("occurrence", some command.occurrence.toJson), ("claim_id", some (.str command.claimId)),
    ("observation_id", some (.str command.observationId)),
    ("reported_callback", some (.str command.reportedCallback.name)),
    ("output", some command.output)]

def validate (command : EffectObservationCommand) : Result Unit := do
  command.occurrence.validate
  validateText command.claimId 128
  validateText command.observationId 128
  lift (validateWireValue command.output)
  evidenceBounded command.output workflowLocalRecordMaxBytes
  evidenceBounded command.toJson effectEvidenceCommandMaxBytes

end EffectObservationCommand

def effectReplyError : ContractError := .unavailable "invalid approved effect evidence response"

def orReplyError (x : Result Unit) : Result Unit :=
  x.mapError fun _ => effectReplyError

def decodeAction (serde : Serde) (text : String) : Result ApprovalAction := do
  let bytes := utf8 text.toList
  let value ← lift (decodeUniqueJson serde bytes bytes.length)
  okOr (ApprovalAction.fromJson value) (invalid "invalid JSON command")

def effectRecordMatches (serde : Serde) (record : LocalStepRecord) (action : ApprovalAction)
    (lookup : String) : Result Bool := do
  record.validate
  action.validate
  match members record.input, record.input.getStr "action_json" with
  | some input, some json => do
    let recorded ← decodeAction serde json
    if input.length = 3 ∧ record.input.getNat "v" = some 1 ∧
        record.input.getStr "lookup" = some lookup ∧ record.callable = action.name ∧
        stepKeyPrefix.toList <+: record.key.toList then
      action.sameAs recorded
    else return false
  | _, _ => return false

/- Receipts of the second version. -/

structure EffectClaimBinding where
  budgetGrant : Option RunBudgetGrant
  scope : Scope
  workflowId : String
  activationId : String
  attemptId : String
  approvalKey : String
  action : ApprovalAction
  lookup : String
  claimId : String
  worker : EffectWorkerIdentity
  claimedAt : Nat
  initialPermission : ApprovedEffectDisposition
  recordedRevision : Nat
  alreadyAccepted : Bool

namespace EffectClaimBinding

def toJson (claim : EffectClaimBinding) : Json :=
  .object [("budget_grant", claim.budgetGrant.map RunBudgetGrant.toJson),
    ("scope", some claim.scope.toJson), ("workflow_id", some (.str claim.workflowId)),
    ("activation_id", some (.str claim.activationId)), ("attempt_id", some (.str claim.attemptId)),
    ("approval_key", some (.str claim.approvalKey)), ("action", some claim.action.toJson),
    ("lookup", some (.str claim.lookup)), ("claim_id", some (.str claim.claimId)),
    ("worker", some claim.worker.toJson), ("claimed_at", some (.nat claim.claimedAt)),
    ("initial_permission", some (.str claim.initialPermission.name)),
    ("recorded_revision", some (.nat claim.recordedRevision)),
    ("already_accepted", some (.bool claim.alreadyAccepted))]

def occurrence (claim : EffectClaimBinding) : EffectOccurrence :=
  ⟨claim.scope, claim.workflowId, claim.activationId, claim.approvalKey⟩

def validate (claim : EffectClaimBinding) : Result Unit := do
  claim.worker.validate
  validateText claim.claimId 128
  approvalTimestamp claim.claimedAt
  evidencePositive claim.recordedRevision
  refuse (claim.budgetGrant.any (·.authorizedAt ≠ claim.claimedAt)) invalidEvidence
  (ApprovedEffectClaimReceipt.mk claim.budgetGrant claim.scope claim.workflowId
    claim.activationId claim.attemptId claim.approvalKey claim.action claim.lookup
    claim.initialPermission).validate
  refuse (claim.worker.audience.scope ≠ claim.scope) invalidEvidence

end EffectClaimBinding

inductive EffectClaimV2Receipt where
  | dispatch (claim : EffectClaimBinding)
  | lookupOnly (claim : EffectClaimBinding)
  | replay (audience : AccessAudience) (occurrence : EffectOccurrence) (record : LocalStepRecord)

namespace EffectClaimV2Receipt

def toJson : EffectClaimV2Receipt → Json
  | .dispatch claim => .object [("kind", some (.str "dispatch")), ("claim", some claim.toJson)]
  | .lookupOnly claim =>
    .object [("kind", some (.str "lookup_only")), ("claim", some claim.toJson)]
  | .replay audience occurrence record =>
    .object [("kind", some (.str "replay")), ("audience", some audience.toJson),
      ("occurrence", some occurrence.toJson), ("record", some record.toJson)]

def validateKind : EffectClaimV2Receipt → Result Unit
  | .dispatch claim => do
    claim.validate
    refuse (claim.alreadyAccepted = true ∨ claim.initialPermission ≠ .dispatch) invalidEvidence
  | .lookupOnly claim => do
    claim.validate
    refuse (claim.initialPermission = .dispatch ∧ claim.alreadyAccepted = false) invalidEvidence
  | .replay audience occurrence record => do
    audience.validate
    occurrence.validate
    record.validate
    refuse (audience.scope ≠ occurrence.scope) invalidEvidence

def validate (receipt : EffectClaimV2Receipt) : Result Unit := do
  receipt.validateKind
  evidenceBounded receipt.toJson effectEvidenceCommandMaxBytes

def claimMatches (claim : EffectClaimBinding) (command : EffectClaimV2Command) : Result Bool :=
  if claim.occurrence = command.occurrence ∧ claim.attemptId = command.owner.attemptId ∧
      claim.claimId = command.claimId ∧ claim.lookup = command.lookup then
    claim.action.sameAs command.action
  else return false

/-- `matches`: a grant under a run's budget is for callers that know its fence only. -/
def answers (serde : Serde) (sha256 : List Char → String) (receipt : EffectClaimV2Receipt)
    (command : EffectClaimV2Command) : Result Bool := do
  receipt.validate
  command.validate
  match receipt with
  | .dispatch claim =>
    if claim.budgetGrant.isSome = true ∧ command.budgetFence = false then return false
    else claimMatches claim command
  | .lookupOnly claim => claimMatches claim command
  | .replay _ occurrence record =>
    if occurrence = command.occurrence ∧
        record.key = approvedEffectStepKey sha256 command.approvalKey then
      effectRecordMatches serde record command.action command.lookup
    else return false

def isFor (worker : EffectWorkerIdentity) : EffectClaimV2Receipt → Bool
  | .dispatch claim | .lookupOnly claim => claim.worker.sameWorker worker
  | .replay audience _ _ => audience == worker.audience

def validateFor (serde : Serde) (sha256 : List Char → String) (receipt : EffectClaimV2Receipt)
    (principal : VerifiedPrincipal) (command : EffectClaimV2Command) : Result Unit := do
  refuse (receipt.answers serde sha256 command ≠ .ok true) effectReplyError
  let worker ← (EffectWorkerIdentity.fromPrincipal principal).mapError fun _ => effectReplyError
  orReplyError receipt.validate
  refuse (receipt.isFor worker = false) effectReplyError

end EffectClaimV2Receipt

structure EffectConfirmV2Receipt where
  scope : Scope
  workflowId : String
  activationId : String
  attemptId : String
  approvalKey : String
  key : String
  alreadyAccepted : Bool
  claimId : String
  observationId : String
  worker : EffectWorkerIdentity
  recordedAt : Nat
  recordedRevision : Nat
  deriving DecidableEq

namespace EffectConfirmV2Receipt

def toJson (receipt : EffectConfirmV2Receipt) : Json :=
  .object [("scope", some receipt.scope.toJson), ("workflow_id", some (.str receipt.workflowId)),
    ("activation_id", some (.str receipt.activationId)),
    ("attempt_id", some (.str receipt.attemptId)),
    ("approval_key", some (.str receipt.approvalKey)), ("key", some (.str receipt.key)),
    ("already_accepted", some (.bool receipt.alreadyAccepted)),
    ("claim_id", some (.str receipt.claimId)),
    ("observation_id", some (.str receipt.observationId)),
    ("worker", some receipt.worker.toJson), ("recorded_at", some (.nat receipt.recordedAt)),
    ("recorded_revision", some (.nat receipt.recordedRevision))]

def validate (receipt : EffectConfirmV2Receipt) : Result Unit := do
  (ApprovedEffectConfirmReceipt.mk receipt.scope receipt.workflowId receipt.activationId
    receipt.attemptId receipt.approvalKey receipt.key receipt.alreadyAccepted).validate
  receipt.worker.validate
  validateText receipt.claimId 128
  validateText receipt.observationId 128
  approvalTimestamp receipt.recordedAt
  evidencePositive receipt.recordedRevision
  refuse (receipt.worker.audience.scope ≠ receipt.scope) invalidEvidence

/-- `matches`. -/
def answers (receipt : EffectConfirmV2Receipt) (command : EffectConfirmV2Command) :
    Result Bool := do
  receipt.validate
  command.validate
  return receipt.scope = command.owner.scope ∧ receipt.workflowId = command.workflowId ∧
    receipt.activationId = command.owner.taskId ∧ receipt.attemptId = command.owner.attemptId ∧
    receipt.approvalKey = command.approvalKey ∧ receipt.key = command.record.key ∧
    receipt.claimId = command.claimId ∧ receipt.observationId = command.observationId

def validateFor (receipt : EffectConfirmV2Receipt) (principal : VerifiedPrincipal)
    (command : EffectConfirmV2Command) : Result Unit :=
  refuse (receipt.answers command ≠ .ok true ∨ receipt.worker.matchesPrincipal principal = false)
    effectReplyError

end EffectConfirmV2Receipt

inductive EffectObservationDisposition where
  | evidenceOnly
  deriving DecidableEq

structure EffectObservationReceipt where
  occurrence : EffectOccurrence
  claimId : String
  observationId : String
  worker : EffectWorkerIdentity
  recordedAt : Nat
  recordedRevision : Nat
  alreadyAccepted : Bool
  disposition : EffectObservationDisposition
  deriving DecidableEq

namespace EffectObservationReceipt

def toJson (receipt : EffectObservationReceipt) : Json :=
  .object [("occurrence", some receipt.occurrence.toJson), ("claim_id", some (.str receipt.claimId)),
    ("observation_id", some (.str receipt.observationId)),
    ("worker", some receipt.worker.toJson), ("recorded_at", some (.nat receipt.recordedAt)),
    ("recorded_revision", some (.nat receipt.recordedRevision)),
    ("already_accepted", some (.bool receipt.alreadyAccepted)),
    ("disposition", some (.str "evidence_only"))]

def validate (receipt : EffectObservationReceipt) : Result Unit := do
  receipt.occurrence.validate
  receipt.worker.validate
  validateText receipt.claimId 128
  validateText receipt.observationId 128
  approvalTimestamp receipt.recordedAt
  evidencePositive receipt.recordedRevision
  refuse (receipt.worker.audience.scope ≠ receipt.occurrence.scope) invalidEvidence

/-- `matches`. -/
def answers (receipt : EffectObservationReceipt) (command : EffectObservationCommand) :
    Result Bool := do
  receipt.validate
  command.validate
  return receipt.occurrence = command.occurrence ∧ receipt.claimId = command.claimId ∧
    receipt.observationId = command.observationId

def validateFor (receipt : EffectObservationReceipt) (principal : VerifiedPrincipal)
    (command : EffectObservationCommand) : Result Unit :=
  refuse (receipt.answers command ≠ .ok true ∨ receipt.worker.matchesPrincipal principal = false)
    effectReplyError

end EffectObservationReceipt
end Ledgence
