import Ledgence.Providers.Summaries

/-! Reports about a provider operation, and how one more report changes what is known. -/
open Kit Kit.Checked

namespace Ledgence.Providers

inductive ProviderKnowledge where
  | unknown (reason : String)
  | pending
  | requiresAction (actionKind : String)
  | succeeded (result : Json)
  | failed (failure : ApplicationError)
  | cancelled (reason : String)

namespace ProviderKnowledge

def kind : ProviderKnowledge → ProviderKnowledgeKind
  | .unknown _ => .unknown
  | .pending => .pending
  | .requiresAction _ => .requiresAction
  | .succeeded _ => .succeeded
  | .failed _ => .failed
  | .cancelled _ => .cancelled

def isTerminal : ProviderKnowledge → Bool
  | .succeeded _ | .failed _ | .cancelled _ => true
  | .unknown _ | .pending | .requiresAction _ => false

def fields : ProviderKnowledge → List (String × Option Json)
  | .unknown reason | .cancelled reason => [("reason", some (.str reason))]
  | .pending => []
  | .requiresAction actionKind => [("action_kind", some (.str actionKind))]
  | .succeeded result => [("result", some result)]
  | .failed failure => [("failure", some failure.toJson)]

def toJson (knowledge : ProviderKnowledge) : Json :=
  .object (("kind", some (.str knowledge.kind.name)) :: knowledge.fields)

end ProviderKnowledge

structure ProviderReport where
  providerReference : Option String
  knowledge : ProviderKnowledge

inductive ProviderSourceReference where
  | dispatch (claimId : String)
  | probe (probeId : String) (generation : Nat) (taskId attemptId : String)
  deriving DecidableEq

def ProviderSourceReference.validate : ProviderSourceReference → Result Unit
  | .dispatch claimId => validateText claimId 128
  | .probe probeId generation taskId attemptId => do
    [probeId, taskId, attemptId].forM fun id => validateText id 128
    evidencePositive generation

/- Entries. -/

structure EntryNumbers where
  sequence : Nat
  recordedAt : Nat
  recordedRevision : Nat

structure ProviderReportEntry extends EntryNumbers where
  sourceId : String
  source : ProviderSourceReference
  reportId : String
  report : ProviderReport

namespace ProviderReportEntry

def kind (entry : ProviderReportEntry) : ProviderKnowledgeKind :=
  entry.report.knowledge.kind

/-- `provider_report_reference`. -/
def reference (entry : ProviderReportEntry) : ProviderReportReference where
  reportId := entry.reportId
  sourceId := entry.sourceId
  sequence := entry.sequence
  recordedRevision := entry.recordedRevision
  recordedAt := entry.recordedAt
  knowledge := entry.kind

end ProviderReportEntry

inductive ProviderProbeCompletion where
  | reported (report : ProviderReportReference)
  | unreported (failure : ProviderProbeFailureKind)

inductive EffectEvidenceEntry where
  | providerDispatch (numbers : EntryNumbers) (claimId sourceId reportId : String)
  | providerProbeScheduled (numbers : EntryNumbers) (probeId : String) (generation : Nat)
      (taskId : String) (dueAt : Nat)
  | providerProbeSource (numbers : EntryNumbers) (probeId : String) (generation : Nat)
      (taskId attemptId sourceId reportId : String)
  | providerReport (entry : ProviderReportEntry)
  | providerProbeFinished (numbers : EntryNumbers) (probeId : String) (generation : Nat)
      (taskId : String) (completion : ProviderProbeCompletion)
  | providerRecoveryStopped (numbers : EntryNumbers) (reason : ProviderRecoveryStopReason)
  | assessment (entry : Ledgence.EffectEvidenceEntry)

namespace EffectEvidenceEntry

def numbers : EffectEvidenceEntry → EntryNumbers
  | .providerDispatch numbers .. | .providerProbeScheduled numbers ..
  | .providerProbeSource numbers .. | .providerProbeFinished numbers ..
  | .providerRecoveryStopped numbers _ => numbers
  | .providerReport entry => entry.toEntryNumbers
  | .assessment entry => ⟨entry.sequence, entry.recordedAt, entry.recordedRevision⟩

def report? : EffectEvidenceEntry → Option ProviderReportEntry
  | .providerReport entry => some entry
  | _ => none

def validateBody (entry : EffectEvidenceEntry) (scope : Scope) : Result Unit :=
  match entry with
  | .providerDispatch _ claimId sourceId reportId =>
    [claimId, sourceId, reportId].forM fun id => validateText id 128
  | .providerProbeScheduled _ probeId generation taskId dueAt => do
    validateText probeId 128
    validateText taskId 128
    evidencePositive generation
    approvalTimestamp dueAt
  | .providerProbeSource _ probeId generation taskId attemptId sourceId reportId => do
    [probeId, taskId, attemptId, sourceId, reportId].forM fun id => validateText id 128
    evidencePositive generation
  | .providerReport report => do
    validateText report.sourceId 128
    validateText report.reportId 128
    report.source.validate
  | .providerProbeFinished numbers probeId generation taskId completion => do
    validateText probeId 128
    validateText taskId 128
    evidencePositive generation
    match completion with
    | .reported report => do
      report.validate
      refuse (numbers.sequence ≤ report.sequence ∨
          numbers.recordedRevision ≤ report.recordedRevision)
        invalidEvidence
    | .unreported _ => .ok ()
  | .providerRecoveryStopped .. => .ok ()
  | .assessment entry => entry.validateBody scope

def validate (entry : EffectEvidenceEntry) (scope : Scope) : Result Unit := do
  evidencePositive entry.numbers.sequence
  evidencePositive entry.numbers.recordedRevision
  refuse (entry.numbers.recordedRevision ≤ entry.numbers.sequence) invalidEvidence
  approvalTimestamp entry.numbers.recordedAt
  entry.validateBody scope

end EffectEvidenceEntry

/- The rows of one operation. -/

inductive FactKind where
  | terminal
  | reference
  deriving DecidableEq

/-- A row of `provider_terminal_facts`, whose key is the digest of its bytes. -/
structure FactRow where
  kind : FactKind
  bytes : List Char
  firstSeenRevision : Nat
  firstReport : ProviderReportReference

structure Retained where
  occurrence : EffectOccurrence
  binding : ProviderBinding
  entryCount : Nat
  effectRevision : Nat
  updatedAt : Nat
  hasDiscrepancy : Bool
  operatorResolution : Option EffectResolutionSummary
  currentAssessment : Option Ledgence.EffectEvidenceEntry
  provider : ProviderEffectSummary

/-- The columns of `provider_operations` that are no part of the summary. -/
structure State where
  candidate : Option ProviderSelection
  currentReport : Option ProviderReportEntry
  providerReference : Option String

structure Operation where
  retained : Retained
  state : State
  facts : List FactRow
  entries : List EffectEvidenceEntry
  needsReview : Bool

namespace Operation

def summary (w : Operation) : ProviderEffectSummary :=
  w.retained.provider

def reports (w : Operation) : List ProviderReportEntry :=
  w.entries.filterMap EffectEvidenceEntry.report?

def setSummary (w : Operation) (s : ProviderEffectSummary) : Operation :=
  { w with retained := { w.retained with provider := s } }

end Operation

/- The facts of a report. -/

def ProviderReport.fact (report : ProviderReport) : FactKind → Option (List Char)
  | .reference => report.providerReference.map fun value =>
      canonicalJsonBytes (.arr [.str "reference", .str value])
  | .terminal =>
    if report.knowledge.isTerminal = true then
      some (canonicalJsonBytes (.arr [.str "terminal", report.knowledge.toJson,
        .opt (report.providerReference.map .str)]))
    else none

section Aggregation
variable (sha256 : List Char → String)

namespace Operation

def firstReports (w : Operation) (kind : FactKind) : List ProviderReportReference :=
  (((w.facts.filter (·.kind = kind)).insertionSort
    (·.firstSeenRevision ≤ ·.firstSeenRevision)).take 2).map (·.firstReport)

def recordFact (w : Operation) (kind : FactKind) (bytes : List Char)
    (reference : ProviderReportReference) :
    Result (Bool × List ProviderReportReference × Operation) := do
  match w.facts.find? (sha256 ·.bytes = sha256 bytes) with
  | some old => do
    refuse (old.bytes ≠ bytes) (corruptWorkflow "provider fact digest collision")
    return (false, w.firstReports kind, w)
  | none =>
    let w := { w with
      facts := w.facts ++ [⟨kind, bytes, w.retained.effectRevision, reference⟩] }
    return (true, w.firstReports kind, w)

def recordReport (w : Operation) (kind : FactKind) (entry : ProviderReportEntry) :
    Result (Bool × List ProviderReportReference × Operation) :=
  match entry.report.fact kind with
  | some bytes => w.recordFact sha256 kind bytes entry.reference
  | none => .ok (false, [], w)

def earlier (references : List ProviderReportReference)
    (known : List ProviderReportReference) : Bool :=
  match references, known with
  | [first, second], [knownFirst, knownSecond] =>
    second.sequence < knownSecond.sequence ||
      (second.sequence = knownSecond.sequence && first.sequence < knownFirst.sequence)
  | _, _ => true

/-- The earliest pair establishing disagreement is preserved, not the latest arrival. -/
def dispute (w : Operation) (references : List ProviderReportReference) : Result Operation := do
  refuse (references.length ≠ 2) (corruptWorkflow "provider conflict references")
  let references := references.insertionSort (·.sequence ≤ ·.sequence)
  let conflicting := if earlier references w.summary.conflictingReports = true
    then references else w.summary.conflictingReports
  return { w with
    retained := { w.retained with
      hasDiscrepancy := true
      provider := { w.summary with
        conflictingReports := conflicting
        knowledge := .disputed
        selectedReport := none } }
    state := { w.state with currentReport := none } }

def select (w : Operation) (entry : ProviderReportEntry) : Operation :=
  { w.setSummary { w.summary with
      knowledge := entry.kind
      selectedReport := some entry.reference } with
    state := { w.state with currentReport := some entry } }

def handleTerminal (w : Operation) : Operation :=
  if w.summary.handling = .operatorClosed then w
  else w.setSummary { w.summary with handling := .providerTerminal }

/-- A later less informative response remains evidence without erasing knowledge. -/
def nonterminalRank : ProviderKnowledgeKind → Nat
  | .unknown => 0
  | .pending => 1
  | .requiresAction => 2
  | .succeeded | .failed | .cancelled | .disputed => 3

def learnReference (w : Operation) (report : ProviderReport) : Operation :=
  match report.providerReference with
  | some value =>
    if w.state.providerReference.all (· = value) = true then
      { w with state := { w.state with providerReference := some value } }
    else w
  | none => w

def aggregateTerminal (w : Operation) (entry : ProviderReportEntry)
    (facts : List ProviderReportReference) : Result Operation :=
  if facts.length = 2 then do
    let w ← w.dispute facts
    return w.handleTerminal
  else
    let w := if w.summary.knowledge.terminal = true then w else w.select entry
    return w.handleTerminal

def aggregateNonterminal (w : Operation) (entry : ProviderReportEntry) : Operation :=
  if nonterminalRank w.summary.knowledge < nonterminalRank entry.kind ∨
      (w.summary.knowledge = .unknown ∧ w.summary.selectedReport = none)
  then w.select entry else w

def assessment (w : Operation) : Option EffectResolutionAssessment :=
  w.retained.currentAssessment.bind fun entry =>
    match entry.body with
    | .assessment _ _ _ assessment .. => some assessment
    | .claim .. | .observation .. => none

def compatible (w : Operation) (report : ProviderReport) (conflict : Bool) : Bool :=
  match w.assessment, report.knowledge with
  | some .closeUnknown, _ => true
  | some (.recordSuccess result), .succeeded actual =>
    !conflict && canonicalJsonBytes result = canonicalJsonBytes actual
  | some (.recordFailure failure), .failed actual =>
    !conflict && canonicalJsonBytes failure.toJson = canonicalJsonBytes actual.toJson
  | _, _ => false

/-- Repeated facts covered by an assessment never fabricate a new conflict. -/
def contradict (w : Operation) (entry : ProviderReportEntry)
    (firstNewTerminal newConflict : Bool) : Operation :=
  match w.retained.operatorResolution with
  | some resolution =>
    if (firstNewTerminal || newConflict) = true ∧
        resolution.firstConflictingEntrySequence = none ∧
        w.compatible entry.report newConflict = false then
      { w with retained := { w.retained with
        operatorResolution := some { resolution with
          firstConflictingEntrySequence := some entry.sequence } } }
    else w
  | none => w

/- The candidate. -/

def selectCandidate (w : Operation) (candidate : Option ProviderSelection) : Operation :=
  let bytes := fun c : Option ProviderSelection =>
    canonicalJsonBytes (.opt (c.map ProviderSelection.toJson))
  if bytes w.state.candidate ≠ bytes candidate then
    { w.setSummary { w.summary with
        candidateRevision := candidate.map fun _ => w.retained.effectRevision } with
      state := { w.state with candidate := candidate } }
  else w

def assessedOutcome (w : Operation) (resolution : EffectResolutionSummary) :
    Result EffectResolutionOutcome :=
  match resolution.firstConflictingEntrySequence with
  | some sequence => .ok (.disputed sequence)
  | none =>
    match w.assessment with
    | some (.recordSuccess result) => .ok (.recordedSuccess result)
    | some (.recordFailure failure) => .ok (.recordedFailure failure)
    | some .closeUnknown => .ok .closedUnknown
    | none => .error (corruptWorkflow "provider assessment missing")

/-- What the evidence itself settles. An index past the conflicting reports would panic. -/
def evidenceCandidate (w : Operation) : Result (Option ProviderSelection) :=
  match w.retained.operatorResolution with
  | some resolution => do
    let outcome ← w.assessedOutcome resolution
    return some (.operatorAssessment resolution.reference outcome)
  | none =>
    if w.summary.knowledge = .disputed then do
      let second ← okOr w.summary.conflictingReports[1]? (corruptWorkflow "index out of bounds")
      return some (.disputed second.sequence)
    else
      match w.state.currentReport with
      | some entry => do
        let reference ← okOr w.summary.selectedReport
          (corruptWorkflow "selected provider reference")
        return match entry.report.knowledge with
          | .succeeded result => some (.providerSucceeded reference result)
          | .failed failure => some (.providerFailed reference failure)
          | .cancelled reason => some (.providerCancelled reference reason)
          | .unknown _ | .pending | .requiresAction _ => none
      | none => .ok none

def evidenceStop (w : Operation) : Option ProviderRecoveryStopReason :=
  if w.retained.operatorResolution.isSome = true then some .operatorAssessment
  else match w.summary.knowledge with
    | .succeeded | .failed | .cancelled => some .providerTerminal
    | .disputed => some .disputed
    | .requiresAction => some .actionRequired
    | .unknown | .pending => none

def stopRecovery (w : Operation) (reason : ProviderRecoveryStopReason) : Operation :=
  w.setSummary { w.summary with
    reconciliation := { w.summary.reconciliation with
      stoppedReason := some reason
      nextDueAt := none } }

def reviewCandidate (w : Operation) : Option ProviderSelection :=
  let q := w.summary.reconciliation
  match q.stoppedReason with
  | none | some .providerTerminal | some .operatorAssessment => none
  | some reason => some (.needsReview reason q.checksUsed q.deadlineAt)

def refreshCandidate (w : Operation) : Result Operation := do
  let candidate ← w.evidenceCandidate
  let w := match w.evidenceStop with
    | some reason => w.stopRecovery reason
    | none => w
  return w.selectCandidate (candidate.or w.reviewCandidate)

def aggregate (w : Operation) (entry : ProviderReportEntry) : Result Operation := do
  let w := w.learnReference entry.report
  let (newReference, referenceFacts, w) ← w.recordReport sha256 .reference entry
  let referenceConflict := referenceFacts.length = 2
  let (firstNewTerminal, terminalFacts, w) ← w.recordReport sha256 .terminal entry
  let w ← if entry.report.knowledge.isTerminal = true
    then w.aggregateTerminal entry terminalFacts
    else .ok (w.aggregateNonterminal entry)
  let w ← if referenceConflict then w.dispute referenceFacts else .ok w
  let w := w.contradict entry firstNewTerminal (newReference && referenceConflict)
  w.refreshCandidate

end Operation
end Aggregation
end Ledgence.Providers
