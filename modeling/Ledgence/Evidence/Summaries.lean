import Ledgence.Evidence.Operations
import Ledgence.Kit.Log

/-! The assessments of operators, and everything that happens to the rows of an approval. -/
open Kit Kit.Checked

namespace Ledgence

def corruptAudit (message : String) : ContractError :=
  .unavailable ("invalid operator audit storage: " ++ message)

def Retained.assess (r : Retained) (entry : EffectEvidenceEntry)
    (reference : EffectResolutionReference) (assessment : EffectResolutionAssessment) : Retained :=
  { r with
    summary := { r.summary with operatorResolution := some ⟨reference, none⟩ }
    assessmentResult := assessment.result
    currentAssessment := some entry }

section Transactions
variable (server : EvidenceServer) (serde : Serde) (sha256 : List Char → String)
  (call : EvidenceCall)

namespace EvidenceTables

def insertEvent (t : EvidenceTables) (event : AuditEvent) (command : List Char) :
    Result EvidenceTables := do
  event.validate
  refuse (∃ row ∈ t.events, row.event.eventId = event.eventId)
    (corruptAudit "audit event identity was not persisted")
  return { t with events := t.events ++ [⟨event, sha256 command⟩] }

def loadAcceptance (t : EvidenceTables) (id : String) (command : List Char) : Result AuditEvent := do
  let row ← okOr (t.events.find? (·.event.eventId = id))
    (corruptAudit "missing approval acceptance event")
  refuse (row.commandDigest ≠ sha256 command) (corruptAudit "approval audit command mismatch")
  row.event.validate.mapError fun _ => corruptAudit "audit event"
  return row.event

def replayResolution (t : EvidenceTables) (row : StoredEntry) (principal : VerifiedPrincipal)
    (command : EffectResolutionCommand) : Result AuditedEffectResolution := do
  let bytes := encode command.toJson
  refuse (row.operation ≠ .resolve ∨ row.command.map (encode ·.toJson) ≠ some bytes) .conflict
  let receipt ← okOr row.resolveReceipt (corruptWorkflow "resolution receipt")
  let event ← t.loadAcceptance sha256 receipt.acceptanceEventId bytes
  refuse (event.actor.sameActor principal = false ∨ event.audience ≠ principal.audience) .conflict
  let proof := AuditedEffectResolution.mk { receipt with alreadyAccepted := true } event
  proof.validateFor principal command
  return proof

def resolutionReceipt (command : EffectResolutionCommand) (now revision : Nat) (eventId : String) :
    EffectResolutionReceipt where
  occurrence := command.occurrence
  resolutionId := command.resolutionId
  acceptedAt := now
  acceptedRevision := revision
  basisRevision := command.expectedEffectRevision
  supersedesResolutionId := command.supersedesResolutionId
  assessmentKind := command.assessment.kind
  acceptanceEventId := eventId
  alreadyAccepted := false

def acceptanceEvent (receipt : EffectResolutionReceipt) (principal : VerifiedPrincipal)
    (now : Nat) : AuditEvent where
  eventId := receipt.acceptanceEventId
  recordedAt := now
  audience := principal.audience
  actor := AuditActor.fromPrincipal principal
  operation := receipt.auditOperation

def assessmentEntry (command : EffectResolutionCommand) (sequence now revision : Nat)
    (event : AuditEvent) : EffectEvidenceEntry :=
  ⟨sequence, now, revision,
    .assessment command.resolutionId command.expectedEffectRevision command.supersedesResolutionId
      command.assessment command.reason command.evidenceReferences event.actor event.eventId⟩

def acceptResolution (t : EvidenceTables) (r : Retained) (principal : VerifiedPrincipal)
    (command : EffectResolutionCommand) (now : Nat) :
    Result (AuditedEffectResolution × EvidenceTables) := do
  refuse (r.summary.effectRevision ≠ command.expectedEffectRevision ∨
      r.summary.operatorResolution.map (·.reference.resolutionId) ≠
        command.supersedesResolutionId)
    .conflict
  let same ← r.binding.approval.action.sameAs command.action
  refuse (same = false) .conflict
  let previous := r.summary.operatorResolution.map (·.reference.sequence)
  let r ← r.next now
  let receipt := resolutionReceipt command now r.summary.effectRevision call.eventId
  let event := acceptanceEvent receipt principal now
  let entry := assessmentEntry command r.summary.entryCount now r.summary.effectRevision event
  entry.validate command.occurrence.scope
  let reference ← okOr entry.resolutionReference (corruptWorkflow "assessment reference")
  let t ← t.insertEvent sha256 event (encode command.toJson)
  let t ← t.append sha256 (r.assess entry reference command.assessment) {
    entry := entry
    operation := .resolve
    claimSequence := previous
    command := some (.resolve command)
    receipt := some (.resolve receipt) }
  let proof := AuditedEffectResolution.mk receipt event
  proof.validateFor principal command
  return (proof, t)

def resolveEffectOnce (t : EvidenceTables) (principal : VerifiedPrincipal)
    (command : EffectResolutionCommand) : Result (AuditedEffectResolution × EvidenceTables) := do
  command.validate
  let o := command.occurrence
  server.requireScope o.scope
  let r ← okOr (← t.load sha256 o) .notFound
  let now := call.clock 0
  server.requireOperator principal .effectResolve now
  refuse (principal.audience.scope ≠ o.scope) .forbidden
  match ← t.entry o .assessment command.resolutionId with
  | some row => do
    let proof ← t.replayResolution sha256 row principal command
    return (proof, t)
  | none => t.acceptResolution sha256 call r principal command now

/- Upgrades, ordinary local results and collection. -/

/-- The page of an upgrade that copies what older versions saved about the approval. -/
def backfill (t : EvidenceTables) (workflowId key : String) (now : Nat) : Result EvidenceTables := do
  let (r, t) ← t.ensure sha256 workflowId key now none
  t.legacyConfirmation serde sha256 r now

def recordLocal (t : EvidenceTables) (result : LocalResult) : Result EvidenceTables := do
  refuse (t.approval.any (·.effectStepKey = some result.stepKey) = true) .conflict
  refuse ((t.findLocal result.activationId result.stepKey).isSome = true) .conflict
  return { t with locals := t.locals ++ [result] }

/-- Retention removes the run. The retained evidence stays. -/
def collect (t : EvidenceTables) : EvidenceTables :=
  { t with approval := none, locals := [] }

end EvidenceTables

inductive EvidenceCommand where
  | claim (command : ApprovedEffectClaimCommand)
  | confirm (command : ApprovedEffectConfirmCommand)
  | claimV2 (principal : VerifiedPrincipal) (command : EffectClaimV2Command)
  | confirmV2 (principal : VerifiedPrincipal) (command : EffectConfirmV2Command)
  | observe (principal : VerifiedPrincipal) (command : EffectObservationCommand)
  | resolve (principal : VerifiedPrincipal) (command : EffectResolutionCommand)
  | backfill (workflowId key : String)
  | recordLocal (result : LocalResult)
  | collect

inductive EvidenceAnswer where
  | claimed (receipt : ApprovedEffectClaimReceipt)
  | confirmed (receipt : ApprovedEffectConfirmReceipt)
  | claimedV2 (receipt : EffectClaimV2Receipt)
  | confirmedV2 (receipt : EffectConfirmV2Receipt)
  | observed (receipt : EffectObservationReceipt)
  | resolved (proof : AuditedEffectResolution)
  | done

def EvidenceTables.execute (t : EvidenceTables) :
    EvidenceCommand → Result (EvidenceAnswer × EvidenceTables)
  | .claim command => do
    let (receipt, t) ← t.claimApprovedEffectOnce server serde sha256 call command
    return (.claimed receipt, t)
  | .confirm command => do
    let (receipt, t) ← t.confirmApprovedEffectOnce server serde sha256 call command
    return (.confirmed receipt, t)
  | .claimV2 principal command => do
    let (receipt, t) ← t.claimEffectV2Once server serde sha256 call principal command
    return (.claimedV2 receipt, t)
  | .confirmV2 principal command => do
    let (receipt, t) ← t.confirmEffectV2Once server serde sha256 call principal command
    return (.confirmedV2 receipt, t)
  | .observe principal command => do
    let (receipt, t) ← t.observeEffectOnce server sha256 call principal command
    return (.observed receipt, t)
  | .resolve principal command => do
    let (proof, t) ← t.resolveEffectOnce server sha256 call principal command
    return (.resolved proof, t)
  | .backfill workflowId key => do
    let t ← t.backfill serde sha256 workflowId key (call.clock 0)
    return (.done, t)
  | .recordLocal result => do
    let t ← t.recordLocal result
    return (.done, t)
  | .collect => .ok (.done, t.collect)

end Transactions
end Ledgence

/-! What the summary of an occurrence says about its log, and that every kind of entry keeps it
true when it is added. -/

namespace Ledgence

/- The log. -/

namespace EvidenceLog

def current (log : List EffectEvidenceEntry) : Option EffectEvidenceEntry :=
  (log.filter fun e => e.resolutionReference.isSome).getLast?

def conflictAfter (log : List EffectEvidenceEntry) (assessment : EffectEvidenceEntry) :
    Option EffectEvidenceEntry :=
  assessment.result.bind fun result =>
    log.find? fun e => assessment.sequence < e.sequence ∧ e.output.any (· ≠ result) = true

def firstConflict (log : List EffectEvidenceEntry) : Option Nat :=
  ((current log).bind (conflictAfter log)).map EffectEvidenceEntry.sequence

def assessments (log : List EffectEvidenceEntry) : List EffectResolutionReference :=
  log.filterMap EffectEvidenceEntry.resolutionReference

variable {log : List EffectEvidenceEntry} {e : EffectEvidenceEntry}

theorem current_mem {a : EffectEvidenceEntry} (h : current log = some a) :
    a ∈ log ∧ a.resolutionReference.isSome = true := by
  have inside := List.mem_of_getLast? h
  simpa using List.mem_filter.mp inside

theorem current_append_none (other : e.resolutionReference = none) :
    current (log ++ [e]) = current log := by
  simp [current, other]

theorem current_append_some {reference : EffectResolutionReference}
    (given : e.resolutionReference = some reference) : current (log ++ [e]) = some e := by
  simp [current, given]

theorem assessments_append_none (other : e.resolutionReference = none) :
    assessments (log ++ [e]) = assessments log := by
  simp [assessments, other]

theorem assessments_append_some {reference : EffectResolutionReference}
    (given : e.resolutionReference = some reference) :
    assessments (log ++ [e]) = assessments log ++ [reference] := by
  simp [assessments, given]

theorem current_reference (log : List EffectEvidenceEntry) :
    (current log).bind EffectEvidenceEntry.resolutionReference = (assessments log).getLast? := by
  induction log using List.reverseRecOn with
  | nil => rfl
  | append_singleton log e ih =>
    cases given : e.resolutionReference with
    | none => rw [current_append_none given, assessments_append_none given, ih]
    | some reference =>
      rw [current_append_some given, assessments_append_some given, List.getLast?_concat]
      exact given

theorem conflictAfter_append {a : EffectEvidenceEntry}
    (nothing : e.output = none ∨ ∀ result, a.result = some result → e.output = some result) :
    conflictAfter (log ++ [e]) a = conflictAfter log a := by
  cases recorded : a.result with
  | none => simp [conflictAfter, recorded]
  | some result =>
    have skipped : ¬ (a.sequence < e.sequence ∧ e.output.any (· ≠ result) = true) := by
      rintro ⟨-, differs⟩
      cases nothing with
      | inl none => simp [none] at differs
      | inr agrees => simp [agrees result recorded] at differs
    simp only [conflictAfter, recorded, Option.bind_some, List.find?_append]
    rw [List.find?_cons_of_neg (by simpa using skipped), List.find?_nil, Option.or_none]

end EvidenceLog

open EvidenceLog

structure Retained.Summarises (r : Retained) (log : List EffectEvidenceEntry) : Prop where
  sequences : Log.Numbered EffectEvidenceEntry.sequence 1 log
  revisions : Log.Numbered EffectEvidenceEntry.recordedRevision 2 log
  counted : r.summary.entryCount = log.length
  revised : r.summary.effectRevision = log.length + 1
  reference : r.reference = Log.reference EffectEvidenceEntry.output log
  discrepancy : r.summary.hasDiscrepancy = true ↔ Log.Differing EffectEvidenceEntry.output log
  assessed : r.summary.operatorResolution.map (·.reference) = (assessments log).getLast?
  chained : Log.Chained EffectResolutionReference.resolutionId
    EffectResolutionReference.supersedesResolutionId none (assessments log)
  conflict : r.summary.operatorResolution.bind (·.firstConflictingEntrySequence) =
    firstConflict log
  currentAssessment : r.currentAssessment = current log
  assessmentResult : r.assessmentResult = (current log).bind EffectEvidenceEntry.result

namespace Retained
variable {r r' : Retained} {log : List EffectEvidenceEntry} {e : EffectEvidenceEntry}
  {now : Nat} {output : Json}

/- One step of the projection. -/

structure Advanced (now : Nat) (r r' : Retained) : Prop where
  fits : r.summary.entryCount + 1 ≤ u64Max ∧ r.summary.effectRevision + 1 ≤ u64Max
  result : r' = { r with summary := { r.summary with
    entryCount := r.summary.entryCount + 1
    effectRevision := r.summary.effectRevision + 1
    updatedAt := max now r.summary.updatedAt } }

theorem next_eq_ok (h : r.next now = .ok r') : Advanced now r r' := by
  simp only [next, bind_eq_ok, okOr_eq_ok, checkedAdd_eq_some, pure_eq_ok] at h
  obtain ⟨_, ⟨countFits, rfl⟩, _, ⟨revisionFits, rfl⟩, rfl⟩ := h
  exact ⟨⟨countFits, revisionFits⟩, rfl⟩

structure Reported (output : Json) (r r' : Retained) : Prop where
  binding : r'.binding = r.binding
  journal : r'.journal = r.journal
  currentAssessment : r'.currentAssessment = r.currentAssessment
  assessmentResult : r'.assessmentResult = r.assessmentResult
  reference : r'.reference = some (r.reference.getD (canonicalJsonBytes output))
  discrepancy : r'.summary.hasDiscrepancy =
    (r.summary.hasDiscrepancy || r.reference.any (· ≠ canonicalJsonBytes output))
  resolution : r'.summary.operatorResolution.map (·.reference) =
    r.summary.operatorResolution.map (·.reference)
  conflict : r'.summary.operatorResolution.bind (·.firstConflictingEntrySequence) =
    (r.summary.operatorResolution.bind (·.firstConflictingEntrySequence)).or
      (if r.summary.operatorResolution.isSome = true ∧
          r.disputes (canonicalJsonBytes output) = true then some (r.summary.entryCount + 1)
        else none)
  summary : ∃ resolution discrepancy, r'.summary = { r.summary with
    operatorResolution := resolution
    hasDiscrepancy := discrepancy }

theorem report_eq_ok (h : r.report output = .ok r') : Reported output r r' := by
  simp only [report, bind_eq_ok, pure_eq_ok] at h
  obtain ⟨resolution, disputed, rfl⟩ := h
  suffices key : resolution.map (·.reference) = r.summary.operatorResolution.map (·.reference) ∧
      resolution.bind (·.firstConflictingEntrySequence) =
        (r.summary.operatorResolution.bind (·.firstConflictingEntrySequence)).or
          (if r.summary.operatorResolution.isSome = true ∧
              r.disputes (canonicalJsonBytes output) = true then some (r.summary.entryCount + 1)
            else none) by
    exact ⟨rfl, rfl, rfl, rfl, rfl, rfl, key.1, key.2, _, _, rfl⟩
  rw [dispute] at disputed
  cases held : r.summary.operatorResolution with
  | none =>
    rw [held] at disputed
    obtain rfl : none = resolution := by simpa using disputed
    simp
  | some current =>
    simp only [held] at disputed
    split at disputed
    · next first =>
      simp only [bind_eq_ok, okOr_eq_ok, checkedAdd_eq_some, pure_eq_ok] at disputed
      obtain ⟨_, ⟨-, rfl⟩, rfl⟩ := disputed
      simp [first.1, first.2]
    · next kept =>
      obtain rfl : some current = resolution := by simpa using disputed
      refine ⟨rfl, ?_⟩
      cases conflict : current.firstConflictingEntrySequence with
      | some sequence => simp [conflict]
      | none => simp_all

/- One entry of the log. -/

structure Numbers (r : Retained) (log : List EffectEvidenceEntry) : Prop where
  sequences : Log.Numbered EffectEvidenceEntry.sequence 1 log
  revisions : Log.Numbered EffectEvidenceEntry.recordedRevision 2 log
  counted : r.summary.entryCount = log.length
  revised : r.summary.effectRevision = log.length + 1

theorem Summarises.numbers (s : r.Summarises log) : r.Numbers log :=
  ⟨s.sequences, s.revisions, s.counted, s.revised⟩

theorem Numbers.append (s : r.Numbers log) (advanced : Advanced now r r')
    (sequence : e.sequence = r'.summary.entryCount)
    (revision : e.recordedRevision = r'.summary.effectRevision) :
    r'.Numbers (log ++ [e]) := by
  have counted : r'.summary.entryCount = log.length + 1 := by
    rw [advanced.result, ← s.counted]
  have revised : r'.summary.effectRevision = log.length + 1 + 1 := by
    rw [advanced.result, ← s.revised]
  refine ⟨s.sequences.append ?_, s.revisions.append ?_, by simp [counted], by simp [revised]⟩
  · omega
  · omega

theorem Summarises.current_some (s : r.Summarises log) {a : EffectEvidenceEntry}
    (held : current log = some a) : r.summary.operatorResolution.isSome = true := by
  have last := current_reference log
  rw [held, Option.bind_some, ← s.assessed] at last
  have := (current_mem held).2
  rwa [last, Option.isSome_map] at this

theorem Summarises.before (s : r.Summarises log) {a : EffectEvidenceEntry} (mem : a ∈ log) :
    a.sequence < r.summary.entryCount + 1 := by
  have := (s.sequences.bounds mem).2
  rw [s.counted]
  omega

theorem Summarises.claim (s : r.Summarises log) (advanced : Advanced now r r')
    (sequence : e.sequence = r'.summary.entryCount)
    (revision : e.recordedRevision = r'.summary.effectRevision)
    (output : e.output = none) (assessment : e.resolutionReference = none) :
    r'.Summarises (log ++ [e]) := by
  obtain ⟨sequences, revisions, counted, revised⟩ := s.numbers.append advanced sequence revision
  have conflict : firstConflict (log ++ [e]) = firstConflict log := by
    rw [firstConflict, firstConflict, current_append_none assessment]
    congr 1
    exact Option.bind_congr fun a _ => conflictAfter_append (.inl output)
  obtain ⟨-, rfl⟩ := advanced
  exact {
    sequences, revisions, counted, revised
    reference := by rw [Log.reference_append_none output]; exact s.reference
    discrepancy := by rw [Log.differing_append_none output]; exact s.discrepancy
    assessed := by rw [assessments_append_none assessment]; exact s.assessed
    chained := by rw [assessments_append_none assessment]; exact s.chained
    conflict := conflict ▸ s.conflict
    currentAssessment := by rw [current_append_none assessment]; exact s.currentAssessment
    assessmentResult := by rw [current_append_none assessment]; exact s.assessmentResult }

theorem Summarises.conflict_append (s : r.Summarises log)
    (sequence : e.sequence = r.summary.entryCount + 1)
    (given : e.output = some (canonicalJsonBytes output))
    (assessment : e.resolutionReference = none) :
    firstConflict (log ++ [e]) = (firstConflict log).or
      (if r.summary.operatorResolution.isSome = true ∧
          r.disputes (canonicalJsonBytes output) = true then some (r.summary.entryCount + 1)
        else none) := by
  rw [firstConflict, firstConflict, current_append_none assessment, disputes, s.assessmentResult]
  cases held : current log with
  | none => simp
  | some a =>
    have later : a.sequence < e.sequence := sequence ▸ s.before (current_mem held).1
    have resolved := s.current_some held
    cases recorded : a.result with
    | none => simp [conflictAfter, recorded]
    | some result =>
      by_cases same : result = canonicalJsonBytes output
      · have agrees : ∀ result, a.result = some result → e.output = some result := by
          intro other h
          rw [given, ← same, ← recorded, h]
        simp [conflictAfter_append (.inr agrees), recorded, same]
      · have differs : a.sequence < e.sequence ∧ e.output.any (· ≠ result) = true := by
          simpa [later, given] using fun h => same h.symm
        have found : [e].find? (fun e => a.sequence < e.sequence ∧ e.output.any (· ≠ result) = true) =
            some e := List.find?_cons_of_pos (by simpa using differs)
        simp only [conflictAfter, recorded, Option.bind_some, List.find?_append, found, resolved]
        cases log.find? _ with
        | none => simp [same, sequence]
        | some first => simp

/-- A report is compared with the first one, and with the recorded result. -/
theorem Summarises.observation (s : r.Summarises log) {r₁ : Retained}
    (reported : Reported output r r₁) (advanced : Advanced now r₁ r')
    (sequence : e.sequence = r'.summary.entryCount)
    (revision : e.recordedRevision = r'.summary.effectRevision)
    (given : e.output = some (canonicalJsonBytes output))
    (assessment : e.resolutionReference = none) : r'.Summarises (log ++ [e]) := by
  obtain ⟨resolution, discrepancy, summary⟩ := reported.summary
  have numbers : r₁.Numbers log :=
    ⟨s.sequences, s.revisions, by rw [summary]; exact s.counted, by rw [summary]; exact s.revised⟩
  obtain ⟨sequences, revisions, counted, revised⟩ := numbers.append advanced sequence revision
  have number : e.sequence = r.summary.entryCount + 1 := by
    rw [sequence, advanced.result, summary]
  have conflict := s.conflict_append number given assessment
  obtain ⟨-, rfl⟩ := advanced
  exact {
    sequences, revisions, counted, revised
    reference := by
      rw [show _ = r₁.reference from rfl, reported.reference]
      cases held : r.reference with
      | none => exact (Log.reference_append_first (s.reference ▸ held) given).symm
      | some first => exact (Log.reference_append_some (s.reference ▸ held)).symm
    discrepancy := by
      rw [show _ = r₁.summary.hasDiscrepancy from rfl, reported.discrepancy]
      cases held : r.reference with
      | none =>
        have before : ¬ Log.Differing EffectEvidenceEntry.output log := by
          rintro ⟨a, mem, -⟩
          have empty := s.reference ▸ held
          simp [List.head?_eq_none_iff.mp empty] at mem
        have := Log.differing_append_first (s.reference ▸ held) given
        simp [this, Bool.eq_false_iff.mpr fun h => before (s.discrepancy.mp h)]
      | some first =>
        rw [Log.differing_append_some (s.reference ▸ held) given, ← s.discrepancy]
        simp
    assessed := by
      rw [assessments_append_none assessment, ← s.assessed]
      exact reported.resolution
    chained := by rw [assessments_append_none assessment]; exact s.chained
    conflict := by
      rw [conflict, ← s.conflict]
      exact reported.conflict
    currentAssessment := by
      rw [current_append_none assessment, ← s.currentAssessment]
      exact reported.currentAssessment
    assessmentResult := by
      rw [current_append_none assessment, ← s.assessmentResult]
      exact reported.assessmentResult }

/-- An assessment that names the current one takes its place, without a conflict. -/
theorem Summarises.assessment (s : r.Summarises log) {r₁ : Retained}
    (advanced : Advanced now r r₁) {reference : EffectResolutionReference}
    {assessment : EffectResolutionAssessment} (after : r' = r₁.assess e reference assessment)
    (sequence : e.sequence = r₁.summary.entryCount)
    (revision : e.recordedRevision = r₁.summary.effectRevision) (output : e.output = none)
    (given : e.resolutionReference = some reference) (result : e.result = assessment.result)
    (predecessor : reference.supersedesResolutionId =
      r.summary.operatorResolution.map (·.reference.resolutionId)) :
    r'.Summarises (log ++ [e]) := by
  subst after
  obtain ⟨sequences, revisions, counted, revised⟩ := s.numbers.append advanced sequence revision
  have number : e.sequence = r.summary.entryCount + 1 := by
    rw [sequence, advanced.result]
  have conflict : firstConflict (log ++ [e]) = none := by
    rw [firstConflict, current_append_some given, Option.bind_some, Option.map_eq_none_iff,
      conflictAfter, Option.bind_eq_none_iff]
    intro recorded _
    rw [List.find?_eq_none]
    intro x mem
    rw [List.mem_append, List.mem_singleton] at mem
    cases mem with
    | inl before =>
      have := s.before before
      simp only [decide_eq_true_eq, not_and]
      intro later
      omega
    | inr same => simp [same]
  obtain ⟨-, rfl⟩ := advanced
  exact {
    sequences, revisions, counted, revised
    reference := by rw [Log.reference_append_none output]; exact s.reference
    discrepancy := by rw [Log.differing_append_none output]; exact s.discrepancy
    assessed := by rw [assessments_append_some given, List.getLast?_concat]; rfl
    chained := by
      rw [assessments_append_some given]
      refine s.chained.append ?_
      rw [predecessor, ← s.assessed, Option.map_map, Option.or_none]
      rfl
    conflict := by rw [conflict]; rfl
    currentAssessment := by rw [current_append_some given]; rfl
    assessmentResult := by rw [current_append_some given, Option.bind_some, result]; rfl }

end Retained
end Ledgence
