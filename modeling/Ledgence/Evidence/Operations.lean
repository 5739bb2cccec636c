import Ledgence.Evidence.Records

/-! The transactions on an approved effect: claims and confirmations of both protocol versions,
late observations, and what else changes the rows of its approval. -/
open Kit Kit.Checked

namespace Ledgence

def workflowMaxLocalSteps : Nat := 128
def workflowLocalLedgerMaxBytes : Nat := 256 * 1024

structure EvidenceServer where
  instanceScope : Option Scope
  instanceAccess : Option AccessAudience

/-- What a transaction meets besides the rows of the approval. -/
structure EvidenceCall where
  /-- The readings of the database clock, in their order. -/
  clock : Nat → Nat
  /-- The workflow of the locked activation. -/
  lockActivation : Result String
  /-- Whether the owner may act at a time. -/
  checkLive : Nat → Result Unit
  checkEffectBudget : Result (Except RunBudgetDenial (Option RunBudgetGrant))
  /-- How many local results the activation has, and their bytes. -/
  steps : Nat × Nat
  /-- A fresh id. -/
  eventId : String

namespace EvidenceServer

def requireScope (server : EvidenceServer) (scope : Scope) : Result Unit := do
  scope.validate
  refuse (server.instanceScope.any (· ≠ scope)) .notFound

def auditAudience (server : EvidenceServer) : Result AccessAudience :=
  okOr server.instanceAccess
    (.unavailable "operator audit requires initialized instance access")

def requireOperator (server : EvidenceServer) (principal : VerifiedPrincipal)
    (capability : AccessCapability) (now : Nat) : Result Unit := do
  let audience ← server.auditAudience
  principal.requireAt audience now
  principal.require capability
  refuse (principal.principalClass = .worker) .forbidden

def requireEffectWorker (server : EvidenceServer) (principal : VerifiedPrincipal) (scope : Scope)
    (now : Nat) : Result EffectWorkerIdentity := do
  server.requireScope scope
  let audience ← server.auditAudience
  principal.requireAt audience now
  refuse (principal.audience.scope ≠ scope) .forbidden
  EffectWorkerIdentity.fromPrincipal principal

end EvidenceServer

def checkGrant (grant : Option RunBudgetGrant) (now : Nat) : Result Unit :=
  refuse (grant.any fun g => now < g.authorizedAt ∨ g.expiresAt ≤ now)
    (.unavailable "run budget grant expired before commit; reconcile the same command")

/-- The constraints on the effect columns of an approval. -/
structure ApprovalRecord.Bound (sha256 : List Char → String) (a : ApprovalRecord) : Prop where
  attempt : a.effectDispatchAttemptId ≠ none → a.effectDispatchClaimed = true
  unset : a.effectEvidenceState = none → a.effectStepKey = none ∧ a.effectLookup = none ∧
    a.effectConfirmedAttemptId = none ∧ a.effectDispatchAttemptId = none
  stepKey : a.effectEvidenceState ≠ none → a.effectDispatchClaimed = true ∧
    a.effectStepKey = some (approvedEffectStepKey sha256 a.waitKey)
  lookup : ∀ l ∈ a.effectLookup, 1 ≤ byteLen l ∧ byteLen l ≤ 512
  legacy : a.effectEvidenceState = some .legacy → a.effectDispatchAttemptId ≠ none ∧
    a.effectLookup = none ∧ a.effectConfirmedAttemptId = none
  opened : a.effectEvidenceState = some .opened → a.effectConfirmedAttemptId = none
  confirmed : a.effectEvidenceState = some .confirmed ∨
      a.effectEvidenceState = some .legacyConfirmed →
    a.effectLookup ≠ none ∧ a.effectConfirmedAttemptId ≠ none
  legacyConfirmed : a.effectEvidenceState = some .legacyConfirmed → a.effectDispatchAttemptId ≠ none

instance (sha256 : List Char → String) (a : ApprovalRecord) : Decidable (a.Bound sha256) :=
  decidable_of_iff
    ((a.effectDispatchAttemptId ≠ none → a.effectDispatchClaimed = true) ∧
      (a.effectEvidenceState = none → a.effectStepKey = none ∧ a.effectLookup = none ∧
        a.effectConfirmedAttemptId = none ∧ a.effectDispatchAttemptId = none) ∧
      (a.effectEvidenceState ≠ none → a.effectDispatchClaimed = true ∧
        a.effectStepKey = some (approvedEffectStepKey sha256 a.waitKey)) ∧
      (∀ l ∈ a.effectLookup, 1 ≤ byteLen l ∧ byteLen l ≤ 512) ∧
      (a.effectEvidenceState = some .legacy → a.effectDispatchAttemptId ≠ none ∧
        a.effectLookup = none ∧ a.effectConfirmedAttemptId = none) ∧
      (a.effectEvidenceState = some .opened → a.effectConfirmedAttemptId = none) ∧
      (a.effectEvidenceState = some .confirmed ∨ a.effectEvidenceState = some .legacyConfirmed →
        a.effectLookup ≠ none ∧ a.effectConfirmedAttemptId ≠ none) ∧
      (a.effectEvidenceState = some .legacyConfirmed → a.effectDispatchAttemptId ≠ none))
    ⟨fun ⟨a, b, c, d, e, f, g, h⟩ => ⟨a, b, c, d, e, f, g, h⟩,
      fun ⟨a, b, c, d, e, f, g, h⟩ => ⟨a, b, c, d, e, f, g, h⟩⟩

/- What an approval says about its effect. -/

structure Evidence where
  approval : ApprovalSnapshot
  dispatchAttempt : Option String
  stepKey : String
  claimed : Bool
  state : Option EffectEvidenceState
  lookup : Option String
  confirmedAttempt : Option String
  prior : Option (LocalStepRecord × String)

def Evidence.confirmed (evidence : Evidence) : Bool :=
  evidence.state == some .confirmed || evidence.state == some .legacyConfirmed

namespace EvidenceTables

def loadEvidence (t : EvidenceTables) (sha256 : List Char → String) (snapshotId : String)
    (owner : LeaseOwner) (workflowId key lookup : String) : Result Evidence := do
  refuse (snapshotId ≠ workflowId) .conflict
  let row ← okOr (t.findApproval workflowId key) .notFound
  let stepKey := approvedEffectStepKey sha256 row.waitKey
  row.snapshot.validate.mapError fun _ => corruptWorkflow "approval snapshot"
  refuse (row.snapshot.workflowId ≠ workflowId ∨ row.snapshot.key ≠ key ∨
      row.snapshot.scope ≠ owner.scope)
    (corruptWorkflow "approved effect identity")
  refuse (row.snapshot.status ≠ .approved ∨ row.snapshot.resumedActivationId ≠ some owner.taskId)
    .obsoleteOperation
  refuse (row.snapshot.protection = .providerOperation) .conflict
  refuse (row.effectLookup.any (· ≠ lookup)) .conflict
  return {
    approval := row.snapshot
    dispatchAttempt := row.effectDispatchAttemptId
    stepKey := stepKey
    claimed := row.effectDispatchClaimed
    state := row.effectEvidenceState
    lookup := row.effectLookup
    confirmedAttempt := row.effectConfirmedAttemptId
    prior := (t.findLocal owner.taskId stepKey).map fun l => (l.record, l.attemptId) }

def grant (t : EvidenceTables) (sha256 : List Char → String)
    (command : ApprovedEffectClaimCommand) (evidence : Evidence) : Result EvidenceTables :=
  if evidence.lookup = none then do
    let attempt := if evidence.claimed = true then evidence.dispatchAttempt
      else some command.owner.attemptId
    let row ← okOr ((t.findApproval command.workflowId command.approvalKey).filter
        fun a => a.effectDispatchClaimed = evidence.claimed ∧ a.effectLookup = none)
      (corruptWorkflow "approved effect evidence update")
    let granted := { row with
      effectDispatchAttemptId := if row.effectDispatchClaimed = true
        then row.effectDispatchAttemptId else some command.owner.attemptId
      effectDispatchClaimed := true
      effectEvidenceState := some .opened
      effectStepKey := some evidence.stepKey
      effectLookup := some command.lookup }
    refuse (¬ granted.Bound sha256) databaseFailure
    refuse (granted.effectDispatchAttemptId ≠ attempt)
      (corruptWorkflow "approved effect evidence update")
    return { t with approval := some granted }
  else .ok t

def appendLocal (t : EvidenceTables) (sha256 : List Char → String) (owner : LeaseOwner)
    (record : LocalStepRecord) (now : Nat) (steps : Nat × Nat) (workflowId key : String) :
    Result EvidenceTables := do
  refuse (workflowMaxLocalSteps ≤ steps.1 ∨
      workflowLocalLedgerMaxBytes < steps.2 + octets record.toJson + steps.1 + 2)
    (invalid "local step ledger exceeds supported limit")
  let lookup ← okOr (record.input.getStr "lookup") .conflict
  let _ ← readTimestamp now
  refuse ((t.findLocal owner.taskId record.key).isSome = true) databaseFailure
  let row ← okOr ((t.findApproval workflowId key).filter (·.effectEvidenceState = some .opened))
    .conflict
  let confirmed := { row with
    effectEvidenceState := some .confirmed
    effectConfirmedAttemptId := some owner.attemptId }
  refuse (¬ confirmed.Bound sha256) databaseFailure
  refuse (¬ (confirmed.effectDispatchClaimed = true ∧ confirmed.effectStepKey = some record.key ∧
      confirmed.effectLookup = some lookup))
    .conflict
  return { t with
    approval := some confirmed
    locals := t.locals ++ [⟨owner.taskId, record.key, record, owner.attemptId, now⟩] }

end EvidenceTables

namespace EvidenceCall

def checkOther (call : EvidenceCall) (accepting attempt : String) : Result Unit :=
  if accepting ≠ attempt then call.checkLive (call.clock 0) else .ok ()

def budgetGrant (call : EvidenceCall) (claimed : Bool) : Result (Option RunBudgetGrant) :=
  if claimed = true then .ok none
  else do
    match ← call.checkEffectBudget with
    | .ok grant => return grant
    | .error reason => do
      call.checkLive (call.clock 1)
      .error (.runBudgetDenied reason)

end EvidenceCall

section Transactions
variable (server : EvidenceServer) (serde : Serde) (sha256 : List Char → String)
  (call : EvidenceCall)

namespace EvidenceTables

/- The first protocol version. -/

def claimApprovedEffectOnce (t : EvidenceTables) (command : ApprovedEffectClaimCommand) :
    Result (ApprovedEffectClaimReceipt × EvidenceTables) := do
  command.validate
  server.requireScope command.owner.scope
  let snapshotId ← call.lockActivation
  call.checkLive (call.clock 0)
  let evidence ← t.loadEvidence sha256 snapshotId command.owner command.workflowId
    command.approvalKey command.lookup
  let same ← evidence.approval.action.sameAs command.action
  refuse (same = false ∨ (evidence.prior.isSome = true ∧ evidence.confirmed = false)) .conflict
  let budgetGrant ← call.budgetGrant evidence.claimed
  let t ← t.grant sha256 command evidence
  let now := call.clock 1
  let (retained, t) ← t.ensure sha256 command.workflowId command.approvalKey now none
  let t ← t.legacyConfirmation serde sha256 retained now
  let finalNow := call.clock 2
  call.checkLive finalNow
  checkGrant budgetGrant finalNow
  return ({
    budgetGrant := budgetGrant
    scope := evidence.approval.scope
    workflowId := evidence.approval.workflowId
    activationId := command.owner.taskId
    attemptId := command.owner.attemptId
    approvalKey := evidence.approval.key
    action := evidence.approval.action
    lookup := command.lookup
    disposition := if evidence.claimed = true then .lookupOnly else .dispatch }, t)

def confirmedBefore (t : EvidenceTables) (evidence : Evidence)
    (command : ApprovedEffectConfirmCommand) : Result EvidenceTables := do
  let (record, acceptingAttempt) ← okOr evidence.prior
    (corruptWorkflow "missing confirmed effect journal")
  refuse (evidence.confirmedAttempt ≠ some acceptingAttempt)
    (corruptWorkflow "confirmed effect attempt")
  let same ← record.sameAs command.record
  refuse (same = false) .conflict
  call.checkOther acceptingAttempt command.owner.attemptId
  return t

def confirmedNow (t : EvidenceTables) (evidence : Evidence)
    (command : ApprovedEffectConfirmCommand) : Result EvidenceTables := do
  refuse (evidence.state ≠ some .opened ∨ evidence.prior.isSome = true) .conflict
  call.checkLive (call.clock 0)
  let t ← t.appendLocal sha256 command.owner command.record (call.clock 0) call.steps
    command.workflowId command.approvalKey
  call.checkLive (call.clock 1)
  return t

def confirmRecord (t : EvidenceTables) (evidence : Evidence)
    (command : ApprovedEffectConfirmCommand) : Result EvidenceTables :=
  if evidence.confirmed = true then t.confirmedBefore call evidence command
  else t.confirmedNow sha256 call evidence command

def confirmApprovedEffectOnce (t : EvidenceTables) (command : ApprovedEffectConfirmCommand) :
    Result (ApprovedEffectConfirmReceipt × EvidenceTables) := do
  command.validate
  server.requireScope command.owner.scope
  let snapshotId ← call.lockActivation
  let evidence ← t.loadEvidence sha256 snapshotId command.owner command.workflowId
    command.approvalKey command.lookup
  refuse (evidence.lookup ≠ some command.lookup) .conflict
  let lookup ← confirmedLookup serde command.record evidence.stepKey evidence.approval.action
  refuse (lookup ≠ command.lookup) .conflict
  let t ← t.confirmRecord sha256 call evidence command
  let now := call.clock 2
  let (retained, t) ← t.ensure sha256 command.workflowId command.approvalKey now none
  let t ← t.legacyConfirmation serde sha256 retained now
  return ({
    scope := command.owner.scope
    workflowId := command.workflowId
    activationId := command.owner.taskId
    attemptId := command.owner.attemptId
    approvalKey := command.approvalKey
    key := command.record.key
    alreadyAccepted := evidence.confirmed }, t)

/- The second protocol version. -/

def validateClaim (row : StoredEntry) (principal : VerifiedPrincipal)
    (command : EffectClaimV2Command) : Result Unit := do
  refuse (row.operation ≠ .claim ∨
      row.command.map (encode ·.toJson) ≠ some (encode command.toJson))
    .conflict
  match row.entry.body with
  | .claim _ _ worker _ => refuse (worker.matchesPrincipal principal = false) .conflict
  | .assessment .. | .observation .. => .error .conflict

def claimCommand (row : StoredEntry) (principal : VerifiedPrincipal)
    (occurrence : EffectOccurrence) (id : String) (mode : EffectReportedCallback) :
    Result EffectClaimV2Command := do
  let command ← okOr row.claimCommand (corruptWorkflow "missing effect claim command")
  command.validate
  refuse (command.occurrence ≠ occurrence ∨ command.claimId ≠ id) .conflict
  validateClaim row principal command
  match row.entry.body with
  | .claim _ _ _ initialPermission => do
    refuse (mode = .dispatch ∧ initialPermission ≠ .dispatch) .conflict
    return command
  | .assessment .. | .observation .. => .error (corruptWorkflow "effect claim type")

def exactObservation (row : StoredEntry) (operation : EvidenceOperation) (bytes : List Char)
    (principal : VerifiedPrincipal) : Result Unit := do
  refuse (row.operation ≠ operation ∨ row.command.map (encode ·.toJson) ≠ some bytes) .conflict
  match row.entry.body with
  | .observation _ (.verifiedWorkerClaim _ worker _ _) _ =>
    refuse (worker.matchesPrincipal principal = false) .conflict
  | .observation _ (.legacyJournal ..) _ | .assessment .. | .claim .. => .error .conflict

def replayJournal (evidence : Evidence) (record : LocalStepRecord) (worker : EffectWorkerIdentity)
    (command : EffectClaimV2Command) : Result EffectClaimV2Receipt := do
  let lookup ← confirmedLookup serde record evidence.stepKey command.action
  refuse (lookup ≠ command.lookup) .conflict
  return .replay worker.audience command.occurrence record

def replayClaim (row : StoredEntry) : Result EffectClaimV2Receipt := do
  let claim ← okOr row.claimReceipt (corruptWorkflow "claim receipt missing")
  return .lookupOnly { claim with alreadyAccepted := true }

def acceptClaim (t : EvidenceTables) (evidence : Evidence) (worker : EffectWorkerIdentity)
    (command : EffectClaimV2Command) : Result (EffectClaimV2Receipt × EvidenceTables) := do
  let budgetGrant ← call.budgetGrant evidence.claimed
  let now := match budgetGrant with | some grant => grant.authorizedAt | none => call.clock 0
  let t ← t.grant sha256 command.legacy evidence
  let permission : ApprovedEffectDisposition :=
    if evidence.claimed = true then .lookupOnly else .dispatch
  let (r, t) ← t.ensure sha256 command.workflowId command.approvalKey now
    (if evidence.claimed = true then none else some command.claimId)
  let r ← r.next now
  let claim : EffectClaimBinding := {
    budgetGrant := budgetGrant
    scope := command.owner.scope
    workflowId := command.workflowId
    activationId := command.owner.taskId
    attemptId := command.owner.attemptId
    approvalKey := command.approvalKey
    action := command.action
    lookup := command.lookup
    claimId := command.claimId
    worker := worker
    claimedAt := now
    initialPermission := permission
    recordedRevision := r.summary.effectRevision
    alreadyAccepted := false }
  claim.validate
  let t ← t.append sha256 r {
    entry := ⟨r.summary.entryCount, now, r.summary.effectRevision,
      .claim command.claimId command.owner.attemptId worker permission⟩
    operation := .claim
    claimSequence := none
    command := some (.claim command)
    receipt := some (.claim claim) }
  return (if permission = .dispatch then .dispatch claim else .lookupOnly claim, t)

def answerClaim (t : EvidenceTables) (evidence : Evidence) (old : Option StoredEntry)
    (worker : EffectWorkerIdentity) (command : EffectClaimV2Command) :
    Result (EffectClaimV2Receipt × EvidenceTables) :=
  match evidence.prior, old with
  | some (record, _), _ => do
    let receipt ← replayJournal serde evidence record worker command
    return (receipt, t)
  | none, some row => do
    let receipt ← replayClaim row
    return (receipt, t)
  | none, none => t.acceptClaim sha256 call evidence worker command

def oldClaim (t : EvidenceTables) (existing : Option Retained) (command : EffectClaimV2Command) :
    Result (Option StoredEntry) :=
  if existing.isSome = true then t.entry command.occurrence .claim command.claimId else .ok none

def checkDispatch (receipt : EffectClaimV2Receipt) (now : Nat) : Result Unit :=
  match receipt with
  | .dispatch claim => checkGrant claim.budgetGrant now
  | .lookupOnly _ | .replay .. => .ok ()

def claimEffectV2Once (t : EvidenceTables) (principal : VerifiedPrincipal)
    (command : EffectClaimV2Command) : Result (EffectClaimV2Receipt × EvidenceTables) := do
  command.validate
  server.requireScope command.owner.scope
  let snapshotId ← call.lockActivation
  let worker ← server.requireEffectWorker principal command.owner.scope (call.clock 0)
  call.checkLive (call.clock 0)
  let evidence ← t.loadEvidence sha256 snapshotId command.owner command.workflowId
    command.approvalKey command.lookup
  let same ← evidence.approval.action.sameAs command.action
  refuse (same = false ∨ (evidence.prior.isSome = true ∧ evidence.confirmed = false)) .conflict
  let existing ← t.load sha256 command.occurrence
  let old ← t.oldClaim existing command
  ifSome old fun row => validateClaim row principal command
  let (receipt, t) ← t.answerClaim serde sha256 call evidence old worker command
  let now := call.clock 1
  let _ ← server.requireEffectWorker principal command.owner.scope now
  call.checkLive now
  checkDispatch receipt now
  receipt.validateFor serde sha256 principal command
  return (receipt, t)

def replayConfirm (row : StoredEntry) (principal : VerifiedPrincipal)
    (command : EffectConfirmV2Command) : Result EffectConfirmV2Receipt := do
  exactObservation row .confirm (encode command.toJson) principal
  let receipt ← okOr row.confirmReceipt (corruptWorkflow "effect confirmation receipt missing")
  let receipt := { receipt with alreadyAccepted := true }
  receipt.validateFor principal command
  return receipt

def journaled (t : EvidenceTables) (evidence : Evidence) (command : EffectConfirmV2Command)
    (now : Nat) : Result (LocalStepRecord × EvidenceTables) :=
  match evidence.prior with
  | some (record, attempt) => do
    refuse (evidence.confirmed = false ∨ evidence.confirmedAttempt ≠ some attempt) .conflict
    let same ← record.sameAs command.record
    refuse (same = false) .conflict
    return (record, t)
  | none => do
    refuse (evidence.state ≠ some .opened) .conflict
    let t ← t.appendLocal sha256 command.owner command.record now call.steps command.workflowId
      command.approvalKey
    return (command.record, t)

def confirmEffectV2Once (t : EvidenceTables) (principal : VerifiedPrincipal)
    (command : EffectConfirmV2Command) : Result (EffectConfirmV2Receipt × EvidenceTables) := do
  command.validate
  server.requireScope command.owner.scope
  let o := command.occurrence
  let r ← okOr (← t.load sha256 o) .notFound
  let worker ← server.requireEffectWorker principal o.scope (call.clock 0)
  let claim ← okOr (← t.entry o .claim command.claimId) .notFound
  let frozen ← claimCommand claim principal o command.claimId command.reportedCallback
  refuse (encode frozen.owner.toJson ≠ encode command.owner.toJson ∨
      frozen.lookup ≠ command.lookup)
    .conflict
  let same ← effectRecordMatches serde command.record frozen.action frozen.lookup
  refuse (same = false ∨ command.record.key ≠ r.binding.key) .conflict
  match ← t.entry o .observation command.observationId with
  | some row => do
    let receipt ← replayConfirm row principal command
    return (receipt, t)
  | none => do
    let snapshotId ← call.lockActivation
    let now := call.clock 1
    let _ ← server.requireEffectWorker principal o.scope now
    call.checkLive now
    let evidence ← t.loadEvidence sha256 snapshotId command.owner command.workflowId
      command.approvalKey command.lookup
    refuse (evidence.lookup ≠ some command.lookup) .conflict
    let lookup ← confirmedLookup serde command.record evidence.stepKey evidence.approval.action
    refuse (lookup ≠ command.lookup) .conflict
    let (journal, t) ← t.journaled sha256 call evidence command now
    let r := { r with
      journal := some journal
      summary := { r.summary with journalState := .confirmed } }
    let r ← r.report command.record.output
    let r ← r.next now
    let receipt : EffectConfirmV2Receipt := {
      scope := o.scope
      workflowId := o.workflowId
      activationId := o.activationId
      attemptId := command.owner.attemptId
      approvalKey := o.approvalKey
      key := command.record.key
      alreadyAccepted := false
      claimId := command.claimId
      observationId := command.observationId
      worker := worker
      recordedAt := now
      recordedRevision := r.summary.effectRevision }
    let t ← t.append sha256 r {
      entry := ⟨r.summary.entryCount, now, r.summary.effectRevision,
        .observation command.observationId
          (.verifiedWorkerClaim command.claimId worker command.reportedCallback .liveConfirm)
          command.record.output⟩
      operation := .confirm
      claimSequence := some claim.entry.sequence
      command := some (.confirm command)
      receipt := some (.confirm receipt) }
    let _ ← server.requireEffectWorker principal o.scope (call.clock 2)
    call.checkLive (call.clock 2)
    receipt.validateFor principal command
    return (receipt, t)

def replayObservation (row : StoredEntry) (principal : VerifiedPrincipal)
    (command : EffectObservationCommand) : Result EffectObservationReceipt := do
  exactObservation row .observe (encode command.toJson) principal
  let receipt ← okOr row.observeReceipt (corruptWorkflow "effect observation receipt missing")
  let receipt := { receipt with alreadyAccepted := true }
  receipt.validateFor principal command
  return receipt

def observeEffectOnce (t : EvidenceTables) (principal : VerifiedPrincipal)
    (command : EffectObservationCommand) : Result (EffectObservationReceipt × EvidenceTables) := do
  command.validate
  let o := command.occurrence
  server.requireScope o.scope
  let r ← okOr (← t.load sha256 o) .notFound
  let now := call.clock 0
  let worker ← server.requireEffectWorker principal o.scope now
  let claim ← okOr (← t.entry o .claim command.claimId) .notFound
  let _ ← claimCommand claim principal o command.claimId command.reportedCallback
  match ← t.entry o .observation command.observationId with
  | some row => do
    let receipt ← replayObservation row principal command
    return (receipt, t)
  | none => do
    let r ← r.report command.output
    let r ← r.next now
    let receipt : EffectObservationReceipt := {
      occurrence := o
      claimId := command.claimId
      observationId := command.observationId
      worker := worker
      recordedAt := now
      recordedRevision := r.summary.effectRevision
      alreadyAccepted := false
      disposition := .evidenceOnly }
    let t ← t.append sha256 r {
      entry := ⟨r.summary.entryCount, now, r.summary.effectRevision,
        .observation command.observationId
          (.verifiedWorkerClaim command.claimId worker command.reportedCallback .lateObserve)
          command.output⟩
      operation := .observe
      claimSequence := some claim.entry.sequence
      command := some (.observe command)
      receipt := some (.observe receipt) }
    let _ ← server.requireEffectWorker principal o.scope (call.clock 1)
    receipt.validateFor principal command
    return (receipt, t)

end EvidenceTables
end Transactions
end Ledgence
