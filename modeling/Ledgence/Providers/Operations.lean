import Ledgence.Core.Basics
import Ledgence.Providers.Reports

/-! Everything that happens to a provider operation: its dispatch, reports, probes, stops and the
assessments of operators. -/
open Kit Kit.Checked

namespace Ledgence.Providers

/-- FNV-1a over the occurrence and the generation spreads the checks, and no more. -/
def fnv1a (bytes : List Nat) : UInt64 :=
  bytes.foldl (fun hash byte => (hash ^^^ UInt64.ofNat byte) * 0x100000001b3) 0xcbf29ce484222325

def littleEndian (n : Nat) : List Nat :=
  (List.range 8).map fun i => n / 256 ^ i % 256

def jitteredDelay (o : EffectOccurrence) (generation cappedDelay : Nat) : Nat :=
  let text := [o.scope.tenantId, o.scope.namespaceId, o.workflowId, o.activationId,
    o.approvalKey].flatMap fun value => (value.toUTF8.toList.map UInt8.toNat) ++ [0]
  let hash := (fnv1a (text ++ littleEndian generation)).toNat
  min (max (cappedDelay - hash % (cappedDelay / 5 + 1)) 1000) cappedDelay

def runStop : WorkflowState → ProviderRecoveryStopReason
  | .cancelling | .cancelled => .workflowCancelled
  | .running | .waiting | .failing | .succeeded | .failed => .workflowFailed

structure DispatchCall where
  now : Nat
  occurrence : EffectOccurrence
  binding : ProviderBinding
  claimId : String
  sourceId : String
  reportId : String

structure ReportCall where
  now : Nat
  owner : Option WorkflowState
  sourceId : String
  source : ProviderSourceReference
  reportId : String
  report : ProviderReport

structure AdvanceCall where
  now : Nat
  runState : WorkflowState
  probeId : String
  taskId : String

structure ContextCall where
  now : Nat
  runState : WorkflowState
  probeId : String
  generation : Nat
  taskId : String
  attemptId : String
  sourceId : String
  reportId : String

structure FinalizeCall where
  now : Nat
  probeId : String
  generation : Nat
  taskId : String
  failure : ProviderProbeFailureKind
  permanent : Bool

structure AssessCall where
  now : Nat
  command : EffectResolutionCommand
  event : AuditEvent

inductive Action where
  | report (call : ReportCall)
  | advance (call : AdvanceCall)
  | context (call : ContextCall)
  | finalize (call : FinalizeCall)
  | drain (now : Nat) (runState : WorkflowState)
  | assess (call : AssessCall)

namespace Operation

def next (w : Operation) (now : Nat) : Result Operation := do
  let entryCount ← okOr (checkedAdd u64Max w.retained.entryCount 1)
    (corruptWorkflow "effect sequence overflow")
  let effectRevision ← okOr (checkedAdd u64Max w.retained.effectRevision 1)
    (corruptWorkflow "effect revision overflow")
  return { w with retained := { w.retained with
    entryCount := entryCount
    effectRevision := effectRevision
    updatedAt := max now w.retained.updatedAt } }

def numbers (w : Operation) (now : Nat) : EntryNumbers :=
  ⟨w.retained.entryCount, now, w.retained.effectRevision⟩

def append (w : Operation) (entry : EffectEvidenceEntry) : Result Operation := do
  entry.validate w.retained.occurrence.scope
  refuse (entry.numbers.sequence ≠ w.retained.entryCount ∨
      entry.numbers.recordedRevision ≠ w.retained.effectRevision)
    (corruptWorkflow "effect append revision")
  return { w with entries := w.entries ++ [entry] }

def save (w : Operation) : Result Operation := do
  w.summary.validate w.retained.entryCount w.retained.effectRevision
  let conflict := w.retained.operatorResolution.any (·.firstConflictingEntrySequence.isSome)
  return { w with needsReview := w.summary.needsReview conflict }

def dispatched (call : DispatchCall) (firstDue deadline : Nat) : Operation where
  retained := {
    occurrence := call.occurrence
    binding := call.binding
    entryCount := 0
    effectRevision := 1
    updatedAt := call.now
    hasDiscrepancy := false
    operatorResolution := none
    currentAssessment := none
    provider := {
      bindingDigest := call.binding.digest
      knowledge := .unknown
      selectedReport := none
      conflictingReports := []
      handling := .unresolved
      candidateRevision := none
      reconciliation := {
        queue := call.binding.reconciliation.queue
        checksUsed := 0
        maxChecks := call.binding.reconciliation.maxChecks
        generation := 0
        activeProbeId := none
        activeTaskId := none
        firstDueAt := firstDue
        nextDueAt := some firstDue
        deadlineAt := deadline
        stoppedReason := none } } }
  state := ⟨none, none, none⟩
  facts := []
  entries := []
  needsReview := false

/-- The first claim. It creates the operation and its one permission to dispatch. -/
def dispatch (call : DispatchCall) : Result Operation := do
  call.binding.reconciliation.validate
  let firstDue ← okOr (checkedAdd u64Max call.now call.binding.reconciliation.initialDelayMs)
    (invalid "provider deadline overflow")
  let deadline ← okOr (checkedAdd u64Max call.now call.binding.reconciliation.maxElapsedMs)
    (invalid "provider deadline overflow")
  let w ← (dispatched call firstDue deadline).next call.now
  let w ← w.append (.providerDispatch (w.numbers call.now) call.claimId call.sourceId call.reportId)
  w.save

def checkOwner (w : Operation) (runState : WorkflowState) (source : ProviderSourceReference) :
    Result Unit := do
  refuse (runState ≠ .running ∧ runState ≠ .waiting) .obsoleteOperation
  match source with
  | .dispatch _ => .ok ()
  | .probe probeId generation _ _ =>
    refuse (w.summary.reconciliation.activeProbeId ≠ some probeId ∨
        w.summary.reconciliation.generation ≠ generation ∨
        w.summary.reconciliation.stoppedReason.isSome = true)
      .obsoleteOperation

def reportEntry (w : Operation) (call : ReportCall) : ProviderReportEntry where
  toEntryNumbers := w.numbers call.now
  sourceId := call.sourceId
  source := call.source
  reportId := call.reportId
  report := call.report

def report (sha256 : List Char → String) (w : Operation) (call : ReportCall) :
    Result Operation := do
  ifSome call.owner fun runState => w.checkOwner runState call.source
  let w ← w.next call.now
  let entry := w.reportEntry call
  let w ← w.aggregate sha256 entry
  w.append (.providerReport entry)

def stop (w : Operation) (reason : ProviderRecoveryStopReason) (now : Nat) : Result Operation :=
  if w.summary.reconciliation.stoppedReason.isSome = true then .ok w
  else do
    let w ← (w.stopRecovery reason).next now
    let w ← w.refreshCandidate
    w.append (.providerRecoveryStopped (w.numbers now) reason)

def advanceStop (w : Operation) (call : AdvanceCall) : Option ProviderRecoveryStopReason :=
  let q := w.summary.reconciliation
  if call.runState ≠ .running ∧ call.runState ≠ .waiting then some (runStop call.runState)
  else if q.deadlineAt ≤ call.now then some .deadline
  else if q.maxChecks ≤ q.checksUsed then some .budgetExhausted
  else if w.retained.binding.lookup = .unavailable ∨
      (w.retained.binding.lookup = .byReference ∧ w.state.providerReference = none)
    then some .lookupUnavailable
  else none

def schedule (w : Operation) (call : AdvanceCall) : Operation :=
  w.setSummary { w.summary with
    reconciliation := { w.summary.reconciliation with
      checksUsed := w.summary.reconciliation.checksUsed + 1
      generation := w.summary.reconciliation.generation + 1
      activeProbeId := some call.probeId
      activeTaskId := some call.taskId
      nextDueAt := some w.summary.reconciliation.deadlineAt } }

def advance (w : Operation) (call : AdvanceCall) : Result Operation :=
  if w.summary.reconciliation.nextDueAt.all (call.now < ·) = true then .ok w
  else
    match w.advanceStop call with
    | some reason => w.stop reason call.now
    | none => do
      refuse (w.summary.reconciliation.activeTaskId.isSome = true)
        (corruptWorkflow "active provider due before recovery deadline")
      let w ← (w.schedule call).next call.now
      w.append (.providerProbeScheduled (w.numbers call.now) call.probeId
        w.summary.reconciliation.generation call.taskId call.now)

def context (w : Operation) (call : ContextCall) : Result Operation := do
  refuse (call.runState ≠ .running ∧ call.runState ≠ .waiting) .obsoleteOperation
  let q := w.summary.reconciliation
  refuse (q.activeProbeId ≠ some call.probeId ∨ q.activeTaskId ≠ some call.taskId ∨
      q.generation ≠ call.generation ∨ q.stoppedReason.isSome = true)
    .obsoleteOperation
  let w ← w.next call.now
  w.append (.providerProbeSource (w.numbers call.now) call.probeId call.generation call.taskId
    call.attemptId call.sourceId call.reportId)

def probeReport (w : Operation) (probeId : String) : Option ProviderReportEntry :=
  w.reports.find? fun entry =>
    match entry.source with
    | .probe reportedBy .. => reportedBy = probeId
    | .dispatch _ => false

def release (w : Operation) : Operation :=
  w.setSummary { w.summary with
    reconciliation := { w.summary.reconciliation with
      activeProbeId := none
      activeTaskId := none } }

def finishStop (w : Operation) (permanent : Bool) (now : Nat) :
    Option ProviderRecoveryStopReason :=
  let q := w.summary.reconciliation
  if permanent = true then some .recoveryFailed
  else if q.deadlineAt ≤ now then some .deadline
  else if q.maxChecks ≤ q.checksUsed then some .budgetExhausted
  else none

def delay (w : Operation) : Nat :=
  let policy := w.retained.binding.reconciliation
  let q := w.summary.reconciliation
  let capped := min (saturatingMul u64Max policy.intervalMs (2 ^ min (q.checksUsed - 1) 20))
    policy.maximumIntervalMs
  jitteredDelay w.retained.occurrence q.generation capped

def reschedule (w : Operation) (now : Nat) : Operation :=
  w.setSummary { w.summary with
    reconciliation := { w.summary.reconciliation with
      nextDueAt := some
        (min (saturatingAdd u64Max now w.delay) w.summary.reconciliation.deadlineAt) } }

def finalize (w : Operation) (call : FinalizeCall) : Result Operation := do
  refuse (w.summary.reconciliation.activeTaskId ≠ some call.taskId ∨
      w.summary.reconciliation.activeProbeId ≠ some call.probeId ∨
      w.summary.reconciliation.generation ≠ call.generation)
    (corruptWorkflow "probe finalization generation")
  let report := w.probeReport call.probeId
  let completion := match report with
    | some entry => ProviderProbeCompletion.reported entry.reference
    | none => .unreported call.failure
  let w ← w.release.next call.now
  let w ← w.append (.providerProbeFinished (w.numbers call.now) call.probeId call.generation
    call.taskId completion)
  if w.summary.reconciliation.stoppedReason.isSome = true then return w
  else
    match w.finishStop (call.permanent && report.isNone) call.now with
    | some reason => w.stop reason call.now
    | none => return w.reschedule call.now

def close (w : Operation) (reference : EffectResolutionReference)
    (entry : Ledgence.EffectEvidenceEntry) : Operation :=
  { w with retained := { w.retained with
    operatorResolution := some ⟨reference, none⟩
    currentAssessment := some entry
    provider := { w.summary with handling := .operatorClosed } } }

def assess (w : Operation) (call : AssessCall) : Result Operation := do
  refuse (w.retained.effectRevision ≠ call.command.expectedEffectRevision ∨
      w.retained.operatorResolution.map (·.reference.resolutionId) ≠
        call.command.supersedesResolutionId)
    .conflict
  let w ← w.next call.now
  let entry := EvidenceTables.assessmentEntry call.command w.retained.entryCount call.now
    w.retained.effectRevision call.event
  let reference ← okOr entry.resolutionReference (corruptWorkflow "assessment reference")
  let w ← (w.close reference entry).append (.assessment entry)
  (w.stopRecovery .operatorAssessment).refreshCandidate

section Runs
variable (sha256 : List Char → String)

def apply (w : Operation) : Action → Result Operation
  | .report call => w.report sha256 call
  | .advance call => w.advance call
  | .context call => w.context call
  | .finalize call => w.finalize call
  | .drain now runState => w.stop (runStop runState) now
  | .assess call => w.assess call

def step (w : Operation) (action : Action) : Result Operation := do
  let w ← w.apply sha256 action
  w.save

def run (w : Operation) (actions : List Action) : Result Operation :=
  actions.foldlM (step sha256) w

end Runs
end Operation
end Ledgence.Providers
