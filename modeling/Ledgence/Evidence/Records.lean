import Ledgence.Api.Evidence

/-! The rows of one approval and the retained projection of its effect: how it is read back,
advanced, and written. -/
open Kit Kit.Checked

namespace Ledgence

def corruptWorkflow (label : String) : ContractError :=
  .unavailable ("invalid workflow persistence: " ++ label)

def databaseFailure : ContractError :=
  .unavailable "database operation failed; reconcile using the same command"

/-- `octet_length` of a value's encoding. -/
def octets (value : Json) : Nat :=
  utf8Len (canonicalJsonBytes value)

theorem octets_le_weight (value : Json) : octets value ≤ value.weight :=
  (Json.size_sortObjects value).trans_le value.size_le_weight

instance (value : Json) (n : Nat) : Decidable (octets value ≤ n) :=
  if small : value.weight ≤ n then isTrue ((octets_le_weight value).trans small)
  else Nat.decLe _ n

instance (n : Nat) (value : Json) : Decidable (n < octets value) :=
  decidable_of_iff (¬ octets value ≤ n) not_le

/- Rows. A bytea column is the value whose encoding it holds; columns that are compared only are
the bytes. -/

inductive EffectEvidenceState where
  | legacy
  | opened
  | confirmed
  | legacyConfirmed
  deriving DecidableEq

/-- A row of `workflow_approvals`, with the columns of its run that are read. -/
structure ApprovalRecord where
  workflowId : String
  waitKey : String
  snapshot : ApprovalSnapshot
  decisionAuditEventId : Option String
  effectDispatchClaimed : Bool
  effectDispatchAttemptId : Option String
  effectEvidenceState : Option EffectEvidenceState
  effectStepKey : Option String
  effectLookup : Option String
  effectConfirmedAttemptId : Option String
  runScope : Scope
  controller : ProgramDescriptor

/-- A row of `workflow_local_results`. -/
structure LocalResult where
  activationId : String
  stepKey : String
  record : LocalStepRecord
  attemptId : String
  acceptedAtMs : Nat

/-- A row of `approved_effect_occurrences`. -/
structure OccurrenceRow where
  occurrence : EffectOccurrence
  journalState : EffectJournalState
  hasDiscrepancy : Bool
  effectRevision : Nat
  entryCount : Nat
  createdAtMs : Nat
  updatedAtMs : Nat
  binding : EffectEvidenceBinding
  summary : EffectEvidenceSummary
  referenceBytes : Option (List Char)
  journal : Option LocalStepRecord
  currentAssessment : Option EffectEvidenceEntry
  assessmentResult : Option (List Char)
  resolutionId : Option String
  disputed : Bool

inductive EvidenceOperation where
  | claim
  | confirm
  | observe
  | legacyConfirm
  | resolve
  deriving DecidableEq

inductive StoredCommand where
  | claim (command : EffectClaimV2Command)
  | confirm (command : EffectConfirmV2Command)
  | observe (command : EffectObservationCommand)
  | resolve (command : EffectResolutionCommand)

def StoredCommand.toJson : StoredCommand → Json
  | .claim command => command.toJson
  | .confirm command => command.toJson
  | .observe command => command.toJson
  | .resolve command => command.toJson

inductive StoredReceipt where
  | claim (claim : EffectClaimBinding)
  | confirm (receipt : EffectConfirmV2Receipt)
  | observe (receipt : EffectObservationReceipt)
  | resolve (receipt : EffectResolutionReceipt)

def StoredReceipt.toJson : StoredReceipt → Json
  | .claim binding => binding.toJson
  | .confirm receipt => receipt.toJson
  | .observe receipt => receipt.toJson
  | .resolve receipt => receipt.toJson

/-- A row of `approved_effect_evidence_entries`. -/
structure StoredEntry where
  entry : EffectEvidenceEntry
  operation : EvidenceOperation
  claimSequence : Option Nat
  command : Option StoredCommand
  receipt : Option StoredReceipt

namespace StoredEntry

def claimCommand (row : StoredEntry) : Option EffectClaimV2Command :=
  match row.command with
  | some (.claim command) => some { command with budgetFence := false }
  | some (.confirm _) | some (.observe _) | some (.resolve _) | none => none

def claimReceipt (row : StoredEntry) : Option EffectClaimBinding :=
  match row.receipt with
  | some (.claim claim) => some claim
  | some (.confirm _) | some (.observe _) | some (.resolve _) | none => none

def confirmReceipt (row : StoredEntry) : Option EffectConfirmV2Receipt :=
  match row.receipt with
  | some (.confirm receipt) => some receipt
  | some (.claim _) | some (.observe _) | some (.resolve _) | none => none

def observeReceipt (row : StoredEntry) : Option EffectObservationReceipt :=
  match row.receipt with
  | some (.observe receipt) => some receipt
  | some (.claim _) | some (.confirm _) | some (.resolve _) | none => none

def resolveReceipt (row : StoredEntry) : Option EffectResolutionReceipt :=
  match row.receipt with
  | some (.resolve receipt) => some receipt
  | some (.claim _) | some (.confirm _) | some (.observe _) | none => none

end StoredEntry

/-- A row of `operator_audit_events` that accepts an assessment. -/
structure AcceptanceRow where
  event : AuditEvent
  commandDigest : String
  deriving DecidableEq

/-- The rows of one approval. The pair of its workflow and key has one occurrence at most. -/
structure EvidenceTables where
  approval : Option ApprovalRecord
  locals : List LocalResult
  occurrence : Option OccurrenceRow
  entries : List StoredEntry
  events : List AcceptanceRow

/- The retained projection. -/

structure Retained where
  binding : EffectEvidenceBinding
  summary : EffectEvidenceSummary
  reference : Option (List Char)
  journal : Option LocalStepRecord
  currentAssessment : Option EffectEvidenceEntry
  assessmentResult : Option (List Char)

namespace Retained

def next (r : Retained) (now : Nat) : Result Retained := do
  let entryCount ← okOr (checkedAdd u64Max r.summary.entryCount 1)
    (corruptWorkflow "effect sequence overflow")
  let effectRevision ← okOr (checkedAdd u64Max r.summary.effectRevision 1)
    (corruptWorkflow "effect revision overflow")
  return { r with summary := { r.summary with
    entryCount := entryCount
    effectRevision := effectRevision
    updatedAt := max now r.summary.updatedAt } }

def disputes (r : Retained) (bytes : List Char) : Bool :=
  r.assessmentResult.any (· ≠ bytes)

def dispute (r : Retained) (bytes : List Char) : Result (Option EffectResolutionSummary) :=
  match r.summary.operatorResolution with
  | none => .ok none
  | some resolution =>
    if resolution.firstConflictingEntrySequence = none ∧ r.disputes bytes = true then do
      let sequence ← okOr (checkedAdd u64Max r.summary.entryCount 1)
        (corruptWorkflow "effect sequence overflow")
      return some { resolution with firstConflictingEntrySequence := some sequence }
    else .ok (some resolution)

def report (r : Retained) (output : Json) : Result Retained := do
  let bytes := canonicalJsonBytes output
  let resolution ← r.dispute bytes
  return { r with
    reference := some (r.reference.getD bytes)
    summary := { r.summary with
      operatorResolution := resolution
      hasDiscrepancy := r.summary.hasDiscrepancy || r.reference.any (· ≠ bytes) } }

end Retained

/- Reading. -/

def checkAssessment (row : OccurrenceRow) (occurrence : EffectOccurrence) : Result Unit :=
  match row.summary.operatorResolution, row.currentAssessment with
  | none, none =>
    refuse (row.resolutionId ≠ none ∨ row.disputed = true)
      (corruptWorkflow "effect assessment projection")
  | some resolution, some entry => do
    refuse (¬ (entry.resolutionReference = some resolution.reference ∧
        row.resolutionId = some resolution.reference.resolutionId ∧
        row.disputed = resolution.firstConflictingEntrySequence.isSome))
      (corruptWorkflow "effect assessment projection")
    entry.validate occurrence.scope
  | _, _ => .error (corruptWorkflow "effect assessment projection")

def readTimestamp (ms : Nat) : Result Nat := do
  refuse (maxTimestamp < ms) (.unavailable
    "invalid PostgreSQL record: timestamp outside RFC3339 range")
  return ms

def fromRow (sha256 : List Char → String) (row : OccurrenceRow) (occurrence : EffectOccurrence) :
    Result Retained := do
  (row.binding.validate sha256).mapError fun _ => corruptWorkflow "retained effect binding"
  row.summary.validate.mapError fun _ => corruptWorkflow "retained effect summary"
  refuse (row.binding.occurrence ≠ occurrence ∨ row.summary.occurrence ≠ occurrence ∨
      row.summary.program ≠ row.binding.program.program ∨
      row.summary.callable ≠ row.binding.approval.action.name ∨
      row.summary.actionVersion ≠ row.binding.approval.action.version)
    (corruptWorkflow "retained effect identity")
  refuse (u64Max < row.effectRevision) (corruptWorkflow "effect revision")
  refuse (u64Max < row.entryCount) (corruptWorkflow "effect entry count")
  let createdAt ← readTimestamp row.createdAtMs
  let updatedAt ← readTimestamp row.updatedAtMs
  refuse (row.summary.effectRevision ≠ row.effectRevision ∨ row.summary.entryCount ≠ row.entryCount ∨
      row.summary.journalState ≠ row.journalState ∨
      row.summary.hasDiscrepancy ≠ row.hasDiscrepancy ∨ row.summary.createdAt ≠ createdAt ∨
      row.summary.updatedAt ≠ updatedAt)
    (corruptWorkflow "retained effect projection")
  checkAssessment row occurrence
  refuse (row.assessmentResult ≠ row.currentAssessment.bind EffectEvidenceEntry.result)
    (corruptWorkflow "assessment result projection")
  return {
    binding := row.binding
    summary := row.summary
    reference := row.referenceBytes
    journal := row.journal
    currentAssessment := row.currentAssessment
    assessmentResult := row.assessmentResult }

namespace EvidenceTables

def load (t : EvidenceTables) (sha256 : List Char → String) (occurrence : EffectOccurrence) :
    Result (Option Retained) :=
  match t.occurrence with
  | some row =>
    if row.occurrence = occurrence then some <$> fromRow sha256 row occurrence else .ok none
  | none => .ok none

def entry (t : EvidenceTables) (occurrence : EffectOccurrence) (kind : EntryKind) (id : String) :
    Result (Option StoredEntry) :=
  if t.occurrence.any (·.occurrence = occurrence) = true then
    match t.entries.find? fun e => e.entry.kind = kind ∧ e.entry.commandId = id with
    | none => .ok none
    | some e => do
      e.entry.validate occurrence.scope
      return some e
  else .ok none

def findApproval (t : EvidenceTables) (workflowId key : String) : Option ApprovalRecord :=
  t.approval.filter fun a => a.workflowId = workflowId ∧ a.waitKey = key

def findLocal (t : EvidenceTables) (activationId stepKey : String) : Option LocalResult :=
  t.locals.find? fun l => l.activationId = activationId ∧ l.stepKey = stepKey

end EvidenceTables

/- Writing. -/

structure OccurrenceRow.Allowed (row : OccurrenceRow) (entries : List StoredEntry) : Prop where
  revision : 0 < row.effectRevision ∧ row.effectRevision ≤ u64Max
  counted : row.entryCount < row.effectRevision
  created : row.createdAtMs ≤ maxTimestamp
  updated : row.createdAtMs ≤ row.updatedAtMs ∧ row.updatedAtMs ≤ maxTimestamp
  sizes : octets row.binding.toJson ≤ 114688 ∧ octets row.summary.toJson ≤ 8192
  reference : ∀ bytes ∈ row.referenceBytes, utf8Len bytes ≤ 131072
  journal : (row.journalState = .confirmed ↔ row.journal.isSome = true) ∧
    ∀ record ∈ row.journal, octets record.toJson ≤ 131072
  assessment : (row.resolutionId = none ↔ row.currentAssessment.isNone = true) ∧
    (row.disputed = true → row.resolutionId ≠ none)
  assessmentSizes : (∀ entry ∈ row.currentAssessment, octets entry.toJson ≤ 262144) ∧
    ∀ bytes ∈ row.assessmentResult, utf8Len bytes ≤ 131072
  latest : ∀ id ∈ row.resolutionId,
    (entries.any fun e => e.entry.kind = .assessment ∧ e.entry.commandId = id) = true

instance (row : OccurrenceRow) (entries : List StoredEntry) : Decidable (row.Allowed entries) :=
  decidable_of_iff
    ((0 < row.effectRevision ∧ row.effectRevision ≤ u64Max) ∧ row.entryCount < row.effectRevision ∧
      row.createdAtMs ≤ maxTimestamp ∧
      (row.createdAtMs ≤ row.updatedAtMs ∧ row.updatedAtMs ≤ maxTimestamp) ∧
      (octets row.binding.toJson ≤ 114688 ∧ octets row.summary.toJson ≤ 8192) ∧
      (∀ bytes ∈ row.referenceBytes, utf8Len bytes ≤ 131072) ∧
      ((row.journalState = .confirmed ↔ row.journal.isSome = true) ∧
        ∀ record ∈ row.journal, octets record.toJson ≤ 131072) ∧
      ((row.resolutionId = none ↔ row.currentAssessment.isNone = true) ∧
        (row.disputed = true → row.resolutionId ≠ none)) ∧
      ((∀ entry ∈ row.currentAssessment, octets entry.toJson ≤ 262144) ∧
        ∀ bytes ∈ row.assessmentResult, utf8Len bytes ≤ 131072) ∧
      ∀ id ∈ row.resolutionId,
        (entries.any fun e => e.entry.kind = .assessment ∧ e.entry.commandId = id) = true)
    ⟨fun ⟨a, b, c, d, e, f, g, h, i, j⟩ => ⟨a, b, c, d, e, f, g, h, i, j⟩,
      fun ⟨a, b, c, d, e, f, g, h, i, j⟩ => ⟨a, b, c, d, e, f, g, h, i, j⟩⟩

namespace EvidenceTables

def rowOf (r : Retained) (createdAtMs : Nat) : OccurrenceRow where
  occurrence := r.binding.occurrence
  journalState := r.summary.journalState
  hasDiscrepancy := r.summary.hasDiscrepancy
  effectRevision := r.summary.effectRevision
  entryCount := r.summary.entryCount
  createdAtMs := createdAtMs
  updatedAtMs := r.summary.updatedAt
  binding := r.binding
  summary := r.summary
  referenceBytes := r.reference
  journal := r.journal
  currentAssessment := r.currentAssessment
  assessmentResult := r.assessmentResult
  resolutionId := r.summary.operatorResolution.map (·.reference.resolutionId)
  disputed := r.summary.operatorResolution.any (·.firstConflictingEntrySequence.isSome)

def save (t : EvidenceTables) (sha256 : List Char → String) (r : Retained) :
    Result EvidenceTables := do
  r.binding.validate sha256
  r.summary.validate
  let row ← okOr (t.occurrence.filter (·.occurrence = r.binding.occurrence))
    (corruptWorkflow "retained effect update suppressed or changed")
  refuse (¬ (rowOf r row.createdAtMs).Allowed t.entries) databaseFailure
  refuse (row.createdAtMs ≠ r.summary.createdAt)
    (corruptWorkflow "retained effect update suppressed or changed")
  return { t with occurrence := some (rowOf r row.createdAtMs) }

end EvidenceTables

/- Entries. -/

def EvidenceOperation.refersTo : EvidenceOperation → EntryKind
  | .resolve => .assessment
  | .claim | .confirm | .observe | .legacyConfirm => .claim

def StoredEntry.related (row : StoredEntry) : Bool :=
  match row.operation, row.entry.kind with
  | .claim, .claim => row.claimSequence.isNone && row.command.isSome && row.receipt.isSome
  | .confirm, .observation | .observe, .observation =>
    row.claimSequence.any (· < row.entry.sequence) && row.command.isSome && row.receipt.isSome
  | .legacyConfirm, .observation =>
    row.claimSequence.isNone && row.command.isNone && row.receipt.isNone
  | .resolve, .assessment =>
    row.claimSequence.all (· < row.entry.sequence) && row.command.isSome && row.receipt.isSome
  | _, _ => false

def StoredEntry.fits (row : StoredEntry) : Bool :=
  let bound := if row.entry.kind = .assessment then 262144 else 147456
  octets row.entry.toJson ≤ bound && row.command.all (fun c => octets c.toJson ≤ bound) &&
    row.receipt.all fun r => octets r.toJson ≤ 147456

namespace EvidenceTables

/-- `INSERT INTO approved_effect_evidence_entries` under its constraints. -/
def insertEntry (t : EvidenceTables) (row : StoredEntry) : Result EvidenceTables := do
  refuse (row.related = false ∨ row.fits = false) databaseFailure
  refuse (∃ e ∈ t.entries, e.entry.sequence = row.entry.sequence) databaseFailure
  refuse (∃ e ∈ t.entries, e.entry.kind = row.entry.kind ∧ e.entry.commandId = row.entry.commandId)
    databaseFailure
  ifSome row.claimSequence fun sequence =>
    refuse (¬ ∃ e ∈ t.entries, e.entry.sequence = sequence ∧
        e.entry.kind = row.operation.refersTo)
      databaseFailure
  ifSome row.entry.resolutionReference fun reference =>
    refuse (¬ (∃ a ∈ t.events, a.event.eventId = reference.acceptanceEventId) ∨
        ∃ e ∈ t.entries, e.entry.resolutionReference.any
          (·.acceptanceEventId = reference.acceptanceEventId) = true)
      databaseFailure
  return { t with entries := t.entries ++ [row] }

def append (t : EvidenceTables) (sha256 : List Char → String) (r : Retained) (row : StoredEntry) :
    Result EvidenceTables := do
  row.entry.validate r.binding.occurrence.scope
  refuse (row.entry.sequence ≠ r.summary.entryCount ∨
      row.entry.recordedRevision ≠ r.summary.effectRevision)
    (corruptWorkflow "effect append revision")
  let t ← t.insertEntry row
  t.save sha256 r

/- The first copy. -/

def provenance (approval : ApprovalRecord) (verifiedDispatch : Option String) :
    EffectDispatchProvenance :=
  match verifiedDispatch, approval.effectDispatchAttemptId with
  | some claimId, _ => .verifiedClaim claimId
  | none, some attemptId => .legacyAttempt attemptId
  | none, none => .legacyFence

def insertOccurrence (t : EvidenceTables) (r : Retained) (now : Nat) : Result EvidenceTables := do
  refuse (t.occurrence.isSome = true) databaseFailure
  refuse (¬ (rowOf r now).Allowed [] ∨ 98304 < octets r.binding.approval.toJson ∨
      16384 < octets r.binding.program.toJson)
    databaseFailure
  return { t with occurrence := some (rowOf r now) }

def ensure (t : EvidenceTables) (sha256 : List Char → String) (workflowId key : String) (now : Nat)
    (verifiedDispatch : Option String) : Result (Retained × EvidenceTables) := do
  let approval ← okOr (t.findApproval workflowId key) .notFound
  let activationId ← okOr approval.snapshot.resumedActivationId
    (corruptWorkflow "effect missing resumed activation")
  let occurrence := EffectOccurrence.mk approval.snapshot.scope workflowId activationId key
  refuse (approval.snapshot.scope ≠ approval.runScope) (corruptWorkflow "effect scope")
  match ← t.load sha256 occurrence with
  | some saved =>
    if saved.binding.lookup.isSome = true then do
      refuse (approval.effectLookup ≠ saved.binding.lookup) .conflict
      return (saved, t)
    else if approval.effectLookup.isSome = true then do
      let saved := { saved with
        binding := { saved.binding with lookup := approval.effectLookup } }
      let t ← t.save sha256 saved
      return (saved, t)
    else return (saved, t)
  | none => do
    refuse (approval.effectDispatchClaimed = false) (corruptWorkflow "unclaimed retained effect")
    let binding : EffectEvidenceBinding := {
      occurrence := occurrence
      approval := approval.snapshot
      program := approval.controller
      key := approvedEffectStepKey sha256 key
      lookup := approval.effectLookup
      approvalAcceptanceEventId := approval.decisionAuditEventId }
    binding.validate sha256
    let summary : EffectEvidenceSummary := {
      operatorResolution := none
      occurrence := occurrence
      program := approval.controller.program
      callable := binding.approval.action.name
      actionVersion := binding.approval.action.version
      dispatchProvenance := provenance approval verifiedDispatch
      journalState := .unconfirmed
      hasDiscrepancy := false
      entryCount := 0
      effectRevision := 1
      createdAt := now
      updatedAt := now }
    summary.validate
    let r : Retained := ⟨binding, summary, none, none, none, none⟩
    let t ← t.insertOccurrence r now
    return (r, t)

/- Journals of the first protocol version. -/

def confirmedLookup (serde : Serde) (record : LocalStepRecord) (stepKey : String)
    (action : ApprovalAction) : Result String := do
  record.validate
  let input ← okOr (members record.input) .conflict
  let lookup ← okOr (record.input.getStr "lookup") .conflict
  let json ← okOr (record.input.getStr "action_json") .conflict
  validateText lookup 512
  refuse (input.length ≠ 3 ∨ record.input.getNat "v" ≠ some 1 ∨ record.key ≠ stepKey ∨
      record.callable ≠ action.name ∨ lookup = action.name)
    .conflict
  let recorded ← decodeAction serde json
  let same ← action.sameAs recorded
  refuse (same = false) .conflict
  return lookup

/-- The id under which a journal of the first version is an observation. -/
def legacyObservationId (sha256 : List Char → String) (attemptId : String) : String :=
  "legacy_" ++ sha256 attemptId.toList

def legacyConfirmation (t : EvidenceTables) (serde : Serde) (sha256 : List Char → String)
    (r : Retained) (now : Nat) : Result EvidenceTables :=
  if r.journal.isSome = true then .ok t
  else do
    let o := r.binding.occurrence
    let approval ← okOr (t.findApproval o.workflowId o.approvalKey)
      (corruptWorkflow "retained approval missing")
    if approval.effectEvidenceState ≠ some .confirmed ∧
        approval.effectEvidenceState ≠ some .legacyConfirmed then return t
    else do
      let journal ← okOr (t.findLocal o.activationId r.binding.key)
        (corruptWorkflow "confirmed effect journal missing; restore pre-retirement backup")
      let lookup ← confirmedLookup serde journal.record r.binding.key r.binding.approval.action
      refuse (r.binding.lookup ≠ some lookup) (corruptWorkflow "confirmed effect lookup")
      refuse (approval.effectConfirmedAttemptId ≠ some journal.attemptId)
        (corruptWorkflow "confirmed effect source")
      let r := { r with
        journal := some journal.record
        summary := { r.summary with journalState := .confirmed } }
      let r ← r.report journal.record.output
      let r ← r.next now
      t.append sha256 r {
        entry := ⟨r.summary.entryCount, now, r.summary.effectRevision,
          .observation (legacyObservationId sha256 journal.attemptId)
            (.legacyJournal journal.attemptId journal.acceptedAtMs) journal.record.output⟩
        operation := .legacyConfirm
        claimSequence := none
        command := none
        receipt := none }

end EvidenceTables
end Ledgence
