import Ledgence.Evidence.Summaries

/-! Provider summaries: what is known about an operation, the reports it rests on, and how far
recovery got. -/
open Kit Kit.Checked

namespace Ledgence.Providers

inductive ProviderKnowledgeKind where
  | unknown
  | pending
  | requiresAction
  | succeeded
  | failed
  | cancelled
  | disputed
  deriving DecidableEq

namespace ProviderKnowledgeKind

def name : ProviderKnowledgeKind → String
  | .unknown => "unknown"
  | .pending => "pending"
  | .requiresAction => "requires_action"
  | .succeeded => "succeeded"
  | .failed => "failed"
  | .cancelled => "cancelled"
  | .disputed => "disputed"

def terminal : ProviderKnowledgeKind → Bool
  | .succeeded | .failed | .cancelled | .disputed => true
  | .unknown | .pending | .requiresAction => false

end ProviderKnowledgeKind

structure ProviderReportReference where
  reportId : String
  sourceId : String
  sequence : Nat
  recordedRevision : Nat
  recordedAt : Nat
  knowledge : ProviderKnowledgeKind
  deriving DecidableEq

namespace ProviderReportReference

def toJson (reference : ProviderReportReference) : Json :=
  .object [("report_id", some (.str reference.reportId)),
    ("source_id", some (.str reference.sourceId)), ("sequence", some (.nat reference.sequence)),
    ("recorded_revision", some (.nat reference.recordedRevision)),
    ("recorded_at", some (.nat reference.recordedAt)),
    ("knowledge", some (.str reference.knowledge.name))]

def validate (reference : ProviderReportReference) : Result Unit := do
  validateText reference.reportId 128
  validateText reference.sourceId 128
  evidencePositive reference.sequence
  evidencePositive reference.recordedRevision
  approvalTimestamp reference.recordedAt
  refuse (reference.recordedRevision ≤ reference.sequence ∨ reference.knowledge = .disputed)
    providerInvalid

end ProviderReportReference

inductive ProviderHandlingState where
  | unresolved
  | providerTerminal
  | operatorClosed
  deriving DecidableEq

inductive ProviderRecoveryStopReason where
  | providerTerminal
  | operatorAssessment
  | workflowCancelled
  | workflowFailed
  | actionRequired
  | lookupUnavailable
  | disputed
  | budgetExhausted
  | deadline
  | recoveryFailed
  deriving DecidableEq

def ProviderRecoveryStopReason.asStr : ProviderRecoveryStopReason → String
  | .providerTerminal => "provider_terminal"
  | .operatorAssessment => "operator_assessment"
  | .workflowCancelled => "workflow_cancelled"
  | .workflowFailed => "workflow_failed"
  | .actionRequired => "action_required"
  | .lookupUnavailable => "lookup_unavailable"
  | .disputed => "disputed"
  | .budgetExhausted => "budget_exhausted"
  | .deadline => "deadline"
  | .recoveryFailed => "recovery_failed"

structure ProviderReconciliationSummary where
  queue : String
  checksUsed : Nat
  maxChecks : Nat
  generation : Nat
  activeProbeId : Option String
  activeTaskId : Option String
  firstDueAt : Nat
  nextDueAt : Option Nat
  deadlineAt : Nat
  stoppedReason : Option ProviderRecoveryStopReason

def ProviderReconciliationSummary.validate (q : ProviderReconciliationSummary) : Result Unit := do
  validateText q.queue 128
  approvalTimestamp q.firstDueAt
  approvalTimestamp q.deadlineAt
  [q.activeProbeId, q.activeTaskId].reduceOption.forM fun id => validateText id 128
  ifSome q.nextDueAt fun due => do
    approvalTimestamp due
    refuse (q.deadlineAt < due) providerInvalid
  refuse (¬ (1 ≤ q.maxChecks ∧ q.maxChecks ≤ 256) ∨ q.maxChecks < q.checksUsed ∨
      q.generation ≠ q.checksUsed ∨ q.activeProbeId.isSome ≠ q.activeTaskId.isSome ∨
      (q.activeTaskId.isSome = true ∧ q.generation = 0) ∨ q.deadlineAt ≤ q.firstDueAt ∨
      (q.stoppedReason.isSome = true ∧ q.nextDueAt.isSome = true))
    providerInvalid

structure ProviderEffectSummary where
  bindingDigest : Digest
  knowledge : ProviderKnowledgeKind
  selectedReport : Option ProviderReportReference
  conflictingReports : List ProviderReportReference
  reconciliation : ProviderReconciliationSummary
  handling : ProviderHandlingState
  candidateRevision : Option Nat

namespace ProviderEffectSummary

def checkReports (s : ProviderEffectSummary) : Result Unit :=
  if s.knowledge = .disputed then
    match s.conflictingReports with
    | [first, second] =>
      refuse (s.selectedReport.isSome = true ∨ second.sequence ≤ first.sequence) providerInvalid
    | _ => .error providerInvalid
  else
    refuse (s.conflictingReports ≠ [] ∨
        s.selectedReport.any (·.knowledge ≠ s.knowledge) = true ∨
        (s.selectedReport = none ∧ s.knowledge ≠ .unknown))
      providerInvalid

def validate (s : ProviderEffectSummary) (entryCount effectRevision : Nat) : Result Unit := do
  lift s.bindingDigest.validate
  s.reconciliation.validate
  (s.selectedReport.toList ++ s.conflictingReports).forM fun reference => do
    reference.validate
    refuse (entryCount < reference.sequence ∨ effectRevision < reference.recordedRevision)
      providerInvalid
  ifSome s.candidateRevision fun revision => do
    evidencePositive revision
    refuse (effectRevision < revision) providerInvalid
  s.checkReports
  refuse ((s.handling = .providerTerminal ∧ s.knowledge.terminal = false) ∨
      (s.handling = .unresolved ∧ s.knowledge.terminal = true ∧ s.knowledge ≠ .disputed))
    providerInvalid

def needsReview (s : ProviderEffectSummary) (operatorConflict : Bool) : Bool :=
  operatorConflict ||
    (s.handling ≠ .operatorClosed && s.knowledge = .disputed) ||
    (s.handling = .unresolved &&
      match s.reconciliation.stoppedReason with
      | some .actionRequired | some .lookupUnavailable | some .budgetExhausted | some .deadline
      | some .recoveryFailed => true
      | some .providerTerminal | some .operatorAssessment | some .workflowCancelled
      | some .workflowFailed | some .disputed | none => false)

end ProviderEffectSummary

/- What the claim bound the operation to. -/

inductive ProviderLookup where
  | byBinding
  | byReference
  | unavailable
  deriving DecidableEq

structure ProviderReconciliationPolicy where
  queue : String
  initialDelayMs : Nat
  intervalMs : Nat
  maximumIntervalMs : Nat
  maxChecks : Nat
  maxElapsedMs : Nat
  checkTimeoutMs : Nat

def ProviderReconciliationPolicy.validate (policy : ProviderReconciliationPolicy) :
    Result Unit := do
  validateText policy.queue 128
  refuse (¬ (1000 ≤ policy.initialDelayMs ∧ policy.initialDelayMs ≤ 86400000) ∨
      ¬ (1000 ≤ policy.intervalMs ∧ policy.intervalMs ≤ 86400000) ∨
      policy.maximumIntervalMs < policy.intervalMs ∨ 86400000 < policy.maximumIntervalMs ∨
      ¬ (1 ≤ policy.maxChecks ∧ policy.maxChecks ≤ 256) ∨
      ¬ (60000 ≤ policy.maxElapsedMs ∧ policy.maxElapsedMs ≤ 604800000) ∨
      policy.maxElapsedMs ≤ policy.initialDelayMs ∨
      ¬ (1000 ≤ policy.checkTimeoutMs ∧ policy.checkTimeoutMs ≤ 30000))
    providerInvalid

structure ProviderBinding where
  digest : Digest
  lookup : ProviderLookup
  reconciliation : ProviderReconciliationPolicy

/- The outcome that a waiting workflow is given. -/

inductive EffectResolutionOutcome where
  | recordedSuccess (result : Json)
  | recordedFailure (failure : ApplicationError)
  | closedUnknown
  | disputed (firstConflictingEntrySequence : Nat)

def EffectResolutionOutcome.toJson : EffectResolutionOutcome → Json
  | .recordedSuccess result =>
    .object [("kind", some (.str "recorded_success")), ("result", some result)]
  | .recordedFailure failure =>
    .object [("kind", some (.str "recorded_failure")), ("failure", some failure.toJson)]
  | .closedUnknown => .object [("kind", some (.str "closed_unknown"))]
  | .disputed sequence =>
    .object [("kind", some (.str "disputed")),
      ("first_conflicting_entry_sequence", some (.nat sequence))]

inductive ProviderSelection where
  | providerSucceeded (reportRef : ProviderReportReference) (result : Json)
  | providerFailed (reportRef : ProviderReportReference) (failure : ApplicationError)
  | providerCancelled (reportRef : ProviderReportReference) (reason : String)
  | operatorAssessment (reference : EffectResolutionReference) (outcome : EffectResolutionOutcome)
  | disputed (firstConflictingEntrySequence : Nat)
  | needsReview (reason : ProviderRecoveryStopReason) (checksUsed deadlineAt : Nat)

namespace ProviderSelection

def kind : ProviderSelection → String
  | .providerSucceeded .. => "provider_succeeded"
  | .providerFailed .. => "provider_failed"
  | .providerCancelled .. => "provider_cancelled"
  | .operatorAssessment .. => "operator_assessment"
  | .disputed _ => "disputed"
  | .needsReview .. => "needs_review"

def fields : ProviderSelection → List (String × Option Json)
  | .providerSucceeded reportRef result =>
    [("report_ref", some reportRef.toJson), ("result", some result)]
  | .providerFailed reportRef failure =>
    [("report_ref", some reportRef.toJson), ("failure", some failure.toJson)]
  | .providerCancelled reportRef reason =>
    [("report_ref", some reportRef.toJson), ("reason", some (.str reason))]
  | .operatorAssessment reference outcome =>
    [("reference", some reference.toJson), ("outcome", some outcome.toJson)]
  | .disputed sequence => [("first_conflicting_entry_sequence", some (.nat sequence))]
  | .needsReview reason checksUsed deadlineAt =>
    [("reason", some (.str reason.asStr)), ("checks_used", some (.nat checksUsed)),
      ("deadline_at", some (.nat deadlineAt))]

def toJson (selection : ProviderSelection) : Json :=
  .object (("kind", some (.str selection.kind)) :: selection.fields)

end ProviderSelection
end Ledgence.Providers
