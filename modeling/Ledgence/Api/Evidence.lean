import Ledgence.Api.Effects

/-! Retained evidence about approved effects: the entries of an occurrence, the assessments of
operators and the summary. -/
open Kit Kit.Checked

namespace Ledgence

def effectResolutionResultMaxBytes : Nat := 128 * 1024
def effectResolutionCommandMaxBytes : Nat := 256 * 1024
def effectResolutionEntryMaxBytes : Nat := 256 * 1024
def effectResolutionReceiptMaxBytes : Nat := 16 * 1024
def effectResolutionReasonMaxBytes : Nat := 4096
def effectResolutionMaxReferences : Nat := 8
def effectResolutionReferenceMaxBytes : Nat := 1024
def workflowErrorKindMaxBytes : Nat := 128
def workflowErrorMessageMaxBytes : Nat := 4096
def auditEventMaxBytes : Nat := 8192

/- Assessments. -/

inductive EffectAssessmentKind where
  | recordSuccess
  | recordFailure
  | closeUnknown
  deriving DecidableEq

def EffectAssessmentKind.name : EffectAssessmentKind → String
  | .recordSuccess => "record_success"
  | .recordFailure => "record_failure"
  | .closeUnknown => "close_unknown"

def validateWorkflowError (error : ApplicationError) : Result Unit := do
  validateText error.kind workflowErrorKindMaxBytes
  refuse (workflowErrorMessageMaxBytes < byteLen error.message)
    (invalid "workflow error message exceeds 4096 bytes")

inductive EffectResolutionAssessment where
  | recordSuccess (result : Json)
  | recordFailure (failure : ApplicationError)
  | closeUnknown

namespace EffectResolutionAssessment

def kind : EffectResolutionAssessment → EffectAssessmentKind
  | .recordSuccess _ => .recordSuccess
  | .recordFailure _ => .recordFailure
  | .closeUnknown => .closeUnknown

def toJson (assessment : EffectResolutionAssessment) : Json :=
  .object [("kind", some (.str assessment.kind.name)),
    ("result", match assessment with | .recordSuccess result => some result | _ => none),
    ("failure", match assessment with | .recordFailure failure => some failure.toJson | _ => none)]

def validate : EffectResolutionAssessment → Result Unit
  | .recordSuccess result => do
    lift (validateWireValue result)
    evidenceBounded result effectResolutionResultMaxBytes
  | .recordFailure failure => validateWorkflowError failure
  | .closeUnknown => .ok ()

def result : EffectResolutionAssessment → Option (List Char)
  | .recordSuccess result => some (canonicalJsonBytes result)
  | .recordFailure _ | .closeUnknown => none

end EffectResolutionAssessment

/-- The characters that `str::trim` removes. -/
def whiteSpace (c : Char) : Bool :=
  let code := c.toNat
  (9 ≤ code && code ≤ 13) || code == 0x20 || code == 0x85 || code == 0xa0 || code == 0x1680 ||
    (0x2000 ≤ code && code ≤ 0x200a) || code == 0x2028 || code == 0x2029 || code == 0x202f ||
    code == 0x205f || code == 0x3000

def assessmentFields (assessment : EffectResolutionAssessment) (reason : String)
    (references : List String) : Result Unit := do
  assessment.validate
  refuse (reason.toList.all whiteSpace = true ∨ effectResolutionReasonMaxBytes < byteLen reason ∨
      effectResolutionMaxReferences < references.length ∨
      (references = [] ∧ assessment.kind ≠ .closeUnknown))
    invalidEvidence
  references.forM fun reference => validateText reference effectResolutionReferenceMaxBytes

def resolutionFields (id : String) (basis : Nat) (previous : Option String) : Result Unit := do
  validateText id 128
  evidencePositive basis
  ifSome previous fun previous => do
    validateText previous 128
    refuse (previous = id) invalidEvidence

structure EffectResolutionCommand where
  occurrence : EffectOccurrence
  resolutionId : String
  expectedEffectRevision : Nat
  supersedesResolutionId : Option String
  action : ApprovalAction
  assessment : EffectResolutionAssessment
  reason : String
  evidenceReferences : List String

namespace EffectResolutionCommand

def toJson (command : EffectResolutionCommand) : Json :=
  .object [("occurrence", some command.occurrence.toJson),
    ("resolution_id", some (.str command.resolutionId)),
    ("expected_effect_revision", some (.nat command.expectedEffectRevision)),
    ("supersedes_resolution_id", some (.opt (command.supersedesResolutionId.map .str))),
    ("action", some command.action.toJson), ("assessment", some command.assessment.toJson),
    ("reason", some (.str command.reason)),
    ("evidence_references", some (.arr (command.evidenceReferences.map .str)))]

def validate (command : EffectResolutionCommand) : Result Unit := do
  command.occurrence.validate
  resolutionFields command.resolutionId command.expectedEffectRevision
    command.supersedesResolutionId
  refuse (checkedAdd u64Max command.expectedEffectRevision 1 = none) invalidEvidence
  command.action.validate
  assessmentFields command.assessment command.reason command.evidenceReferences
  evidenceBounded command.toJson effectResolutionCommandMaxBytes

end EffectResolutionCommand

structure EffectResolutionReference where
  resolutionId : String
  sequence : Nat
  acceptedAt : Nat
  acceptedRevision : Nat
  basisRevision : Nat
  supersedesResolutionId : Option String
  assessmentKind : EffectAssessmentKind
  acceptanceEventId : String
  deriving DecidableEq

namespace EffectResolutionReference

def toJson (reference : EffectResolutionReference) : Json :=
  .object [("resolution_id", some (.str reference.resolutionId)),
    ("sequence", some (.nat reference.sequence)), ("accepted_at", some (.nat reference.acceptedAt)),
    ("accepted_revision", some (.nat reference.acceptedRevision)),
    ("basis_revision", some (.nat reference.basisRevision)),
    ("supersedes_resolution_id", some (.opt (reference.supersedesResolutionId.map .str))),
    ("assessment_kind", some (.str reference.assessmentKind.name)),
    ("acceptance_event_id", some (.str reference.acceptanceEventId))]

def validate (reference : EffectResolutionReference) : Result Unit := do
  resolutionFields reference.resolutionId reference.basisRevision reference.supersedesResolutionId
  evidencePositive reference.sequence
  approvalTimestamp reference.acceptedAt
  validateText reference.acceptanceEventId 128
  refuse (checkedAdd u64Max reference.basisRevision 1 ≠ some reference.acceptedRevision ∨
      reference.acceptedRevision ≤ reference.sequence)
    invalidEvidence

end EffectResolutionReference

structure EffectResolutionSummary where
  reference : EffectResolutionReference
  firstConflictingEntrySequence : Option Nat
  deriving DecidableEq

namespace EffectResolutionSummary

def toJson (resolution : EffectResolutionSummary) : Json :=
  .object [("reference", some resolution.reference.toJson),
    ("first_conflicting_entry_sequence",
      some (.opt (resolution.firstConflictingEntrySequence.map .nat)))]

def validate (resolution : EffectResolutionSummary) (entries revision : Nat) : Result Unit := do
  resolution.reference.validate
  refuse (entries < resolution.reference.sequence ∨
      revision < resolution.reference.acceptedRevision)
    invalidEvidence
  ifSome resolution.firstConflictingEntrySequence fun sequence =>
    refuse (sequence ≤ resolution.reference.sequence ∨ entries < sequence ∨
        resolution.reference.assessmentKind = .closeUnknown)
      invalidEvidence

end EffectResolutionSummary

/- Audited acceptance. -/

structure AuditActor where
  issuer : String
  subject : String
  principalClass : PrincipalClass
  credentialId : String
  deriving DecidableEq

def PrincipalClass.name : PrincipalClass → String
  | .operator => "operator"
  | .service => "service"
  | .worker => "worker"

namespace AuditActor

def toJson (actor : AuditActor) : Json :=
  .object [("issuer", some (.str actor.issuer)), ("subject", some (.str actor.subject)),
    ("class", some (.str actor.principalClass.name)),
    ("credential_id", some (.str actor.credentialId))]

def fromPrincipal (principal : VerifiedPrincipal) : AuditActor :=
  ⟨principal.identity.issuer, principal.identity.subject, principal.principalClass,
    principal.credentialId⟩

def validate (actor : AuditActor) : Result Unit := do
  (PrincipalIdentity.mk actor.issuer actor.subject).validate
  validateText actor.credentialId 128
  refuse (actor.principalClass = .worker) (invalid "worker is not an operator audit actor")

def sameActor (actor : AuditActor) (principal : VerifiedPrincipal) : Bool :=
  actor.issuer == principal.identity.issuer && actor.subject == principal.identity.subject &&
    actor.principalClass == principal.principalClass

end AuditActor

structure EffectResolved where
  occurrence : EffectOccurrence
  resolutionId : String
  acceptedRevision : Nat
  basisRevision : Nat
  supersedesResolutionId : Option String
  assessmentKind : EffectAssessmentKind
  deriving DecidableEq

namespace EffectResolved

def toJson (operation : EffectResolved) : Json :=
  .object [("kind", some (.str "effect_resolved")),
    ("occurrence", some operation.occurrence.toJson),
    ("resolution_id", some (.str operation.resolutionId)),
    ("accepted_revision", some (.nat operation.acceptedRevision)),
    ("basis_revision", some (.nat operation.basisRevision)),
    ("supersedes_resolution_id", some (.opt (operation.supersedesResolutionId.map .str))),
    ("assessment_kind", some (.str operation.assessmentKind.name))]

def validate (operation : EffectResolved) : Result Unit := do
  operation.occurrence.validate
  validateText operation.resolutionId 128
  refuse (operation.basisRevision = 0 ∨
      checkedAdd u64Max operation.basisRevision 1 ≠ some operation.acceptedRevision)
    (invalid "invalid assessment revision")
  ifSome operation.supersedesResolutionId fun previous => do
    validateText previous 128
    refuse (previous = operation.resolutionId) (invalid "self superseding assessment")

end EffectResolved

structure AuditEvent where
  eventId : String
  recordedAt : Nat
  audience : AccessAudience
  actor : AuditActor
  operation : EffectResolved
  deriving DecidableEq

namespace AuditEvent

def toJson (event : AuditEvent) : Json :=
  .object [("event_id", some (.str event.eventId)), ("recorded_at", some (.nat event.recordedAt)),
    ("audience", some event.audience.toJson), ("actor", some event.actor.toJson),
    ("operation", some event.operation.toJson)]

def validate (event : AuditEvent) : Result Unit := do
  validateText event.eventId 128
  approvalTimestamp event.recordedAt
  event.audience.validate
  event.actor.validate
  event.operation.validate
  refuse (event.operation.occurrence.scope ≠ event.audience.scope)
    (invalid "assessment audit scope")
  lift (checkEncodedSize event.toJson auditEventMaxBytes "audit event")

end AuditEvent

structure EffectResolutionReceipt where
  occurrence : EffectOccurrence
  resolutionId : String
  acceptedAt : Nat
  acceptedRevision : Nat
  basisRevision : Nat
  supersedesResolutionId : Option String
  assessmentKind : EffectAssessmentKind
  acceptanceEventId : String
  alreadyAccepted : Bool
  deriving DecidableEq

namespace EffectResolutionReceipt

def toJson (receipt : EffectResolutionReceipt) : Json :=
  .object [("occurrence", some receipt.occurrence.toJson),
    ("resolution_id", some (.str receipt.resolutionId)),
    ("accepted_at", some (.nat receipt.acceptedAt)),
    ("accepted_revision", some (.nat receipt.acceptedRevision)),
    ("basis_revision", some (.nat receipt.basisRevision)),
    ("supersedes_resolution_id", some (.opt (receipt.supersedesResolutionId.map .str))),
    ("assessment_kind", some (.str receipt.assessmentKind.name)),
    ("acceptance_event_id", some (.str receipt.acceptanceEventId)),
    ("already_accepted", some (.bool receipt.alreadyAccepted))]

def validate (receipt : EffectResolutionReceipt) : Result Unit := do
  receipt.occurrence.validate
  resolutionFields receipt.resolutionId receipt.basisRevision receipt.supersedesResolutionId
  refuse (checkedAdd u64Max receipt.basisRevision 1 ≠ some receipt.acceptedRevision)
    invalidEvidence
  approvalTimestamp receipt.acceptedAt
  validateText receipt.acceptanceEventId 128
  evidenceBounded receipt.toJson effectResolutionReceiptMaxBytes

/-- `matches`. -/
def answers (receipt : EffectResolutionReceipt) (command : EffectResolutionCommand) :
    Result Bool := do
  receipt.validate
  command.validate
  return receipt.occurrence = command.occurrence ∧ receipt.resolutionId = command.resolutionId ∧
    receipt.basisRevision = command.expectedEffectRevision ∧
    receipt.supersedesResolutionId = command.supersedesResolutionId ∧
    receipt.assessmentKind = command.assessment.kind

def auditOperation (receipt : EffectResolutionReceipt) : EffectResolved :=
  ⟨receipt.occurrence, receipt.resolutionId, receipt.acceptedRevision, receipt.basisRevision,
    receipt.supersedesResolutionId, receipt.assessmentKind⟩

end EffectResolutionReceipt

structure AuditedEffectResolution where
  receipt : EffectResolutionReceipt
  acceptanceEvent : AuditEvent
  deriving DecidableEq

def AuditedEffectResolution.validateFor (proof : AuditedEffectResolution)
    (principal : VerifiedPrincipal) (command : EffectResolutionCommand) : Result Unit :=
  refuse (¬ (proof.acceptanceEvent.validate = .ok () ∧ proof.receipt.answers command = .ok true ∧
      proof.acceptanceEvent.audience = principal.audience ∧
      proof.acceptanceEvent.actor.sameActor principal = true ∧
      proof.acceptanceEvent.eventId = proof.receipt.acceptanceEventId ∧
      proof.acceptanceEvent.recordedAt = proof.receipt.acceptedAt ∧
      proof.acceptanceEvent.operation = proof.receipt.auditOperation))
    (.unavailable "invalid effect resolution acceptance proof")

/- Entries. -/

inductive EffectJournalState where
  | unconfirmed
  | confirmed
  deriving DecidableEq

def EffectJournalState.name : EffectJournalState → String
  | .unconfirmed => "unconfirmed"
  | .confirmed => "confirmed"

inductive EffectObservationIngress where
  | liveConfirm
  | lateObserve
  deriving DecidableEq

def EffectObservationIngress.name : EffectObservationIngress → String
  | .liveConfirm => "live_confirm"
  | .lateObserve => "late_observe"

inductive EffectDispatchProvenance where
  | verifiedClaim (claimId : String)
  | legacyAttempt (attemptId : String)
  | legacyFence
  deriving DecidableEq

namespace EffectDispatchProvenance

def toJson : EffectDispatchProvenance → Json
  | .verifiedClaim claimId =>
    .object [("kind", some (.str "verified_claim")), ("claim_id", some (.str claimId))]
  | .legacyAttempt attemptId =>
    .object [("kind", some (.str "legacy_attempt")), ("attempt_id", some (.str attemptId))]
  | .legacyFence => .object [("kind", some (.str "legacy_fence"))]

def validate : EffectDispatchProvenance → Result Unit
  | .verifiedClaim claimId => validateText claimId 128
  | .legacyAttempt attemptId => validateText attemptId 128
  | .legacyFence => .ok ()

end EffectDispatchProvenance

inductive EffectObservationSource where
  | verifiedWorkerClaim (claimId : String) (worker : EffectWorkerIdentity)
      (reportedCallback : EffectReportedCallback) (ingress : EffectObservationIngress)
  | legacyJournal (attemptId : String) (journalAcceptedAt : Nat)
  deriving DecidableEq

def EffectObservationSource.toJson : EffectObservationSource → Json
  | .verifiedWorkerClaim claimId worker reportedCallback ingress =>
    .object [("kind", some (.str "verified_worker_claim")), ("claim_id", some (.str claimId)),
      ("worker", some worker.toJson), ("reported_callback", some (.str reportedCallback.name)),
      ("ingress", some (.str ingress.name))]
  | .legacyJournal attemptId journalAcceptedAt =>
    .object [("kind", some (.str "legacy_journal")), ("attempt_id", some (.str attemptId)),
      ("journal_accepted_at", some (.nat journalAcceptedAt))]

inductive EntryKind where
  | claim
  | observation
  | assessment
  deriving DecidableEq

inductive EntryBody where
  | assessment (resolutionId : String) (basisRevision : Nat)
      (supersedesResolutionId : Option String) (assessment : EffectResolutionAssessment)
      (reason : String) (evidenceReferences : List String) (actor : AuditActor)
      (acceptanceEventId : String)
  | claim (claimId : String) (attemptId : String) (worker : EffectWorkerIdentity)
      (initialPermission : ApprovedEffectDisposition)
  | observation (observationId : String) (source : EffectObservationSource) (output : Json)

structure EffectEvidenceEntry where
  sequence : Nat
  recordedAt : Nat
  recordedRevision : Nat
  body : EntryBody

namespace EffectEvidenceEntry

def kind (entry : EffectEvidenceEntry) : EntryKind :=
  match entry.body with
  | .assessment .. => .assessment
  | .claim .. => .claim
  | .observation .. => .observation

def commandId (entry : EffectEvidenceEntry) : String :=
  match entry.body with
  | .assessment resolutionId .. => resolutionId
  | .claim claimId .. => claimId
  | .observation observationId .. => observationId

def fields : EntryBody → List (String × Option Json)
  | .assessment resolutionId basisRevision supersedesResolutionId assessment reason
      evidenceReferences actor acceptanceEventId =>
    [("kind", some (.str "assessment")), ("resolution_id", some (.str resolutionId)),
      ("basis_revision", some (.nat basisRevision)),
      ("supersedes_resolution_id", some (.opt (supersedesResolutionId.map .str))),
      ("assessment", some assessment.toJson), ("reason", some (.str reason)),
      ("evidence_references", some (.arr (evidenceReferences.map .str))),
      ("actor", some actor.toJson), ("acceptance_event_id", some (.str acceptanceEventId))]
  | .claim claimId attemptId worker initialPermission =>
    [("kind", some (.str "claim")), ("claim_id", some (.str claimId)),
      ("attempt_id", some (.str attemptId)), ("worker", some worker.toJson),
      ("initial_permission", some (.str initialPermission.name))]
  | .observation observationId source output =>
    [("kind", some (.str "observation")), ("observation_id", some (.str observationId)),
      ("source", some source.toJson), ("output", some output)]

def toJson (entry : EffectEvidenceEntry) : Json :=
  .object (("sequence", some (.nat entry.sequence)) ::
    ("recorded_at", some (.nat entry.recordedAt)) ::
    ("recorded_revision", some (.nat entry.recordedRevision)) :: fields entry.body)

def resolutionReference (entry : EffectEvidenceEntry) : Option EffectResolutionReference :=
  match entry.body with
  | .assessment resolutionId basisRevision supersedesResolutionId assessment _ _ _
      acceptanceEventId =>
    some ⟨resolutionId, entry.sequence, entry.recordedAt, entry.recordedRevision, basisRevision,
      supersedesResolutionId, assessment.kind, acceptanceEventId⟩
  | .claim .. | .observation .. => none

def validateWorker (scope : Scope) (worker : EffectWorkerIdentity) : Result Unit := do
  worker.validate
  refuse (worker.audience.scope ≠ scope) invalidEvidence

def validateBody (entry : EffectEvidenceEntry) (scope : Scope) : Result Unit :=
  match entry.body with
  | .assessment _ _ _ assessment reason evidenceReferences actor _ => do
    assessmentFields assessment reason evidenceReferences
    actor.validate
    let reference ← okOr entry.resolutionReference invalidEvidence
    reference.validate
  | .claim _ attemptId worker _ => do
    validateText attemptId 128
    validateWorker scope worker
  | .observation _ source output => do
    lift (validateWireValue output)
    evidenceBounded output workflowLocalRecordMaxBytes
    match source with
    | .verifiedWorkerClaim claimId worker _ _ => do
      validateText claimId 128
      validateWorker scope worker
    | .legacyJournal attemptId journalAcceptedAt => do
      validateText attemptId 128
      approvalTimestamp journalAcceptedAt

def validate (entry : EffectEvidenceEntry) (scope : Scope) : Result Unit := do
  evidencePositive entry.sequence
  evidencePositive entry.recordedRevision
  refuse (entry.recordedRevision ≤ entry.sequence) invalidEvidence
  approvalTimestamp entry.recordedAt
  validateText entry.commandId 128
  entry.validateBody scope
  evidenceBounded entry.toJson
    (if entry.kind = .assessment then effectResolutionEntryMaxBytes
      else effectEvidenceCommandMaxBytes)

def output (entry : EffectEvidenceEntry) : Option (List Char) :=
  match entry.body with
  | .observation _ _ output => some (canonicalJsonBytes output)
  | .assessment .. | .claim .. => none

def result (entry : EffectEvidenceEntry) : Option (List Char) :=
  match entry.body with
  | .assessment _ _ _ assessment .. => assessment.result
  | .claim .. | .observation .. => none

end EffectEvidenceEntry

/- The occurrence. -/

def ProgramDescriptor.toJson (program : ProgramDescriptor) : Json :=
  .object [("program", some program.program.toJson), ("digest", some (.str program.digest.text)),
    ("size", some (.nat program.size))]

structure EffectEvidenceBinding where
  occurrence : EffectOccurrence
  approval : ApprovalSnapshot
  program : ProgramDescriptor
  key : String
  lookup : Option String
  approvalAcceptanceEventId : Option String

namespace EffectEvidenceBinding

def toJson (binding : EffectEvidenceBinding) : Json :=
  .object [("occurrence", some binding.occurrence.toJson),
    ("approval", some binding.approval.toJson), ("program", some binding.program.toJson),
    ("key", some (.str binding.key)), ("lookup", some (.opt (binding.lookup.map .str))),
    ("approval_acceptance_event_id",
      some (.opt (binding.approvalAcceptanceEventId.map .str)))]

def validate (sha256 : List Char → String) (binding : EffectEvidenceBinding) : Result Unit := do
  binding.occurrence.validate
  binding.approval.validate
  lift binding.program.validate
  refuse (binding.approval.scope ≠ binding.occurrence.scope ∨
      binding.approval.workflowId ≠ binding.occurrence.workflowId ∨
      binding.approval.key ≠ binding.occurrence.approvalKey ∨
      binding.approval.resumedActivationId ≠ some binding.occurrence.activationId ∨
      binding.approval.status ≠ .approved ∨
      binding.key ≠ approvedEffectStepKey sha256 binding.occurrence.approvalKey)
    invalidEvidence
  ifSome binding.lookup fun lookup => do
    validateText lookup 512
    refuse (lookup = binding.approval.action.name) invalidEvidence
  ifSome binding.approvalAcceptanceEventId fun id => validateText id 128
  evidenceBounded binding.toJson (approvalSnapshotMaxBytes + 16 * 1024)

end EffectEvidenceBinding

structure EffectEvidenceSummary where
  operatorResolution : Option EffectResolutionSummary
  occurrence : EffectOccurrence
  program : ProgramRef
  callable : String
  actionVersion : String
  dispatchProvenance : EffectDispatchProvenance
  journalState : EffectJournalState
  hasDiscrepancy : Bool
  entryCount : Nat
  effectRevision : Nat
  createdAt : Nat
  updatedAt : Nat
  deriving DecidableEq

namespace EffectEvidenceSummary

def toJson (summary : EffectEvidenceSummary) : Json :=
  .object [("operator_resolution", summary.operatorResolution.map EffectResolutionSummary.toJson),
    ("occurrence", some summary.occurrence.toJson), ("program", some summary.program.toJson),
    ("callable", some (.str summary.callable)),
    ("action_version", some (.str summary.actionVersion)),
    ("dispatch_provenance", some summary.dispatchProvenance.toJson),
    ("journal_state", some (.str summary.journalState.name)),
    ("has_discrepancy", some (.bool summary.hasDiscrepancy)),
    ("entry_count", some (.nat summary.entryCount)),
    ("effect_revision", some (.nat summary.effectRevision)),
    ("created_at", some (.nat summary.createdAt)), ("updated_at", some (.nat summary.updatedAt))]

def validate (summary : EffectEvidenceSummary) : Result Unit := do
  summary.occurrence.validate
  lift summary.program.validate
  validateText summary.callable 512
  validateText summary.actionVersion 128
  approvalTimestamp summary.createdAt
  approvalTimestamp summary.updatedAt
  evidencePositive summary.effectRevision
  refuse (summary.updatedAt < summary.createdAt ∨ summary.effectRevision ≤ summary.entryCount)
    invalidEvidence
  ifSome summary.operatorResolution fun resolution => do
    resolution.validate summary.entryCount summary.effectRevision
    refuse (resolution.firstConflictingEntrySequence ≠ none ∧
        resolution.reference.assessmentKind ≠ .recordSuccess)
      invalidEvidence
  summary.dispatchProvenance.validate

end EffectEvidenceSummary
end Ledgence
