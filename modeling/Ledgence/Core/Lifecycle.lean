import Ledgence.Core.Acquisition

/-! Renewal, settlement, cleanup confirmation, cancellation and expiry of one attempt. -/
open Kit Kit.Checked

namespace Ledgence

def retryableFailure : ErrorKind → Bool
  | .unavailable | .io | .capacity | .runtime | .timedOut | .cancelled => true
  | .invalidInput | .notFound | .integrity | .incompatible | .protocol => false

def finishState (task : TaskSnapshot) (attempt : AttemptSnapshot) : AttemptState × Bool :=
  if task.cancelRequestedAt.isSome then
    (if attempt.quiescence = .confirmed then .cancelled else .lost, false)
  else
    match attempt.settlement.map fun accepted : AcceptedSettlement => accepted.command.report with
    | some (.completed report) =>
      match report.outcome with
      | .success _ => (.succeeded, false)
      | .failure _ _ => (.failed, false)
    | some (.failed report) => (.failed, retryableFailure report.error.kind)
    | none => (.lost, true)

def retryAt (task : TaskSnapshot) (retryable : Bool) (now : Nat) : Result (Option Nat) :=
  if retryable = true ∧ task.attemptCount < maxTaskAttemptGeneration then do
    let charged ← task.chargedAttempts
    if charged < task.input.retryPolicy.maxAttempts then do
      let availableAt ← addTime now task.input.retryPolicy.retryDelayMs
      return some availableAt
    else return none
  else .ok none

def finishOutcome (task : TaskSnapshot) (state : AttemptState) (retry : Option Nat) :
    TaskState × TransitionReason :=
  if task.cancelRequestedAt.isSome then (.cancelled, .cancelled)
  else if state = .succeeded then (.succeeded, .succeeded)
  else if retry.isSome then (.queued, .retryScheduled)
  else (.failed, .failed)

def finishedAttempt (task : TaskSnapshot) (attempt : AttemptSnapshot) (now : Nat) :
    AttemptSnapshot :=
  { attempt with
    state := (finishState task attempt).1
    finishedAt := some now }

def finishedTask (task : TaskSnapshot) (attempt : AttemptSnapshot) (retry : Option Nat)
    (now : Nat) : TaskSnapshot :=
  let state := (finishOutcome task (finishState task attempt).1 retry).1
  { task with
    state
    currentAttemptId := none
    availableAt := if state = .queued then retry.getD task.availableAt else task.availableAt
    terminalAt := if state.isTerminal then some now else task.terminalAt }

def finish (task : TaskSnapshot) (attempt : AttemptSnapshot) (now : Nat) :
    Result (TaskSnapshot × AttemptSnapshot × HistoryEvent) := do
  let ending := finishState task attempt
  let retry ← retryAt task ending.2 now
  let next := finishedTask task attempt retry now
  let closed := finishedAttempt task attempt now
  return (next, closed, history next (some closed) now (finishOutcome task ending.1 retry).2)

/-- A renewal with dispatch intent that lets user code start. -/
def authorizesDispatch (task : TaskSnapshot) (attempt : AttemptSnapshot) (command : RenewCommand)
    (now : Nat) : Bool :=
  command.intent == .dispatch && task.cancelRequestedAt.isNone && now < attempt.deadline &&
    attempt.settlement.isNone && !attempt.executionMayHaveStarted

def renewedAttempt (task : TaskSnapshot) (attempt : AttemptSnapshot) (command : RenewCommand)
    (expiresAt now : Nat) : AttemptSnapshot :=
  { attempt with
    lease := { attempt.lease with expiresAt }
    lastRenewal := some command
    executionMayHaveStarted :=
      attempt.executionMayHaveStarted || authorizesDispatch task attempt command now }

def renew (task : TaskSnapshot) (attempt : AttemptSnapshot) (session : Option WorkerSession)
    (command : RenewCommand) (now : Nat) : Result (Transition Authority) := do
  refuse (task.input.admission.isSome ∧ command.intent = .dispatch)
    (invalid "governed tasks require atomic ready-to-invoke Start")
  refuse (task.input.admission = none ∧ command.intent = .prepare)
    (invalid "ordinary task cannot request admission preparation")
  let session ← okOr session .unknownSession
  checkSession session now
  checkOwner task attempt command.owner
  refuse (session.id ≠ command.owner.workerSessionId ∨ session.scope ≠ command.owner.scope ∨
      session.queue ≠ task.input.queue ∨ session.concurrency ≤ command.owner.consumerId ∨
      ¬ live task attempt now)
    .ownershipLost
  let lastSequence := attempt.renewSequence
  refuse (command.sequence = 0 ∨ saturatingAdd u64Max lastSequence 1 < command.sequence)
    .outOfOrder
  refuse (command.sequence < lastSequence) .obsoleteOperation
  if command.sequence = lastSequence then do
    refuse (attempt.lastRenewal ≠ some command) .conflict
    return unchanged task (some attempt) (authority task attempt now)
  else do
    let leaseEnd ← addTime now leaseDurationMs
    let expiresAt := min (min leaseEnd attempt.authorityDeadline) session.expiresAt
    let next := renewedAttempt task attempt command expiresAt now
    let events := if authorizesDispatch task attempt command now then
      [history task (some next) now .dispatchAuthorized] else []
    return ⟨task, some next, events, authority task next now⟩

def validateReportOutput : AttemptReport → Result Unit
  | .completed report =>
    match report.outcome with
    | .success output =>
      validateTaskOutput output.json report.context.identity.activationId.isSome
    | .failure _ _ => .ok ()
  | .failed _ => .ok ()

def validateReport (attempt : AttemptSnapshot) (command : SettleCommand) : Result Unit := do
  validateText command.operationId 128
  validateTrace command.processingTrace
  validateReportOutput command.report
  let context := command.report.context
  refuse (context.identity ≠ InvocationIdentity.ofEvent attempt.event ∨
      context.program ≠ attempt.descriptor.program ∨ context.digest ≠ attempt.descriptor.digest)
    .conflict
  refuse (settlementMaxBytes < utf8Len (canonicalJsonBytes command.toJson))
    (invalid "settlement exceeds 8 MiB")

def validateProbeFailure (task : TaskSnapshot) (command : SettleCommand) : Result Unit :=
  ifSome command.providerProbeFailure fun failure => do
    refuse (task.providerProbe = none) (invalid "provider probe failure on an ordinary task")
    failure.validateSettlement command.report

def settlementReceipt (task : TaskSnapshot) (command : SettleCommand) (now : Nat) :
    SettlementReceipt :=
  ⟨command.operationId, task.taskId, command.owner.attemptId, now⟩

def reportedAttempt (task : TaskSnapshot) (attempt : AttemptSnapshot) (command : SettleCommand)
    (now : Nat) : AttemptSnapshot :=
  { attempt with
    quiescence := command.quiescence
    settlement := some ⟨command, settlementReceipt task command now⟩
    executionMayHaveStarted :=
      attempt.executionMayHaveStarted || command.report.claimsExecution }

def settle (task : TaskSnapshot) (attempt : AttemptSnapshot) (command : SettleCommand)
    (now : Nat) : Result (Transition SettleReply) := do
  checkOwner task attempt command.owner
  validateReport attempt command
  refuse (task.input.admission.isSome ∧ attempt.executionMayHaveStarted = false ∧
      command.report.claimsExecution = true)
    (invalid "governed task report has no accepted Start")
  validateProbeFailure task command
  match attempt.settlement with
  | some accepted => do
    refuse (canonicalJsonBytes accepted.command.toJson ≠ canonicalJsonBytes command.toJson)
      .conflict
    return unchanged task (some attempt) ⟨accepted.receipt, true, task.state⟩
  | none => do
    refuse (¬ live task attempt now) .ownershipLost
    let receipt := settlementReceipt task command now
    let next := reportedAttempt task attempt command now
    let reported := history task (some next) now .reportAccepted
    if command.quiescence = .confirmed then do
      let (updated, closed, event) ← finish task next now
      return ⟨updated, some closed, [reported, event], ⟨receipt, false, updated.state⟩⟩
    else return ⟨task, some next, [reported], ⟨receipt, false, task.state⟩⟩

def confirmedAttempt (attempt : AttemptSnapshot) : AttemptSnapshot :=
  { attempt with quiescence := .confirmed }

def confirmQuiescence (task : TaskSnapshot) (attempt : AttemptSnapshot) (owner : LeaseOwner)
    (now : Nat) : Result (Transition TaskState) := do
  checkOwner task attempt owner
  if attempt.quiescence = .confirmed then return unchanged task (some attempt) task.state
  else do
    refuse (¬ live task attempt now) .ownershipLost
    refuse (attempt.settlement.isNone = true)
      (invalid "a report must precede cleanup confirmation")
    let next := confirmedAttempt attempt
    let confirmed := history task (some next) now .cleanupConfirmed
    let (updated, closed, event) ← finish task next now
    return ⟨updated, some closed, [confirmed, event], updated.state⟩

def expire (task : TaskSnapshot) (attempt : AttemptSnapshot) (now : Nat) :
    Result (Transition Bool) := do
  validateAttempt task attempt
  if attempt.state ≠ .active then return unchanged task (some attempt) false
  else do
    refuse (task.currentAttemptId ≠ some attempt.lease.owner.attemptId ∨ task.state ≠ .active)
      (invalid "active attempt is not current")
    if now < attempt.lease.expiresAt ∧ now < attempt.authorityDeadline then
      return unchanged task (some attempt) false
    else do
      let expired := history task (some attempt) now .leaseExpired
      let (updated, closed, event) ← finish task attempt now
      return ⟨updated, some closed, [expired, event], true⟩

def cancelRequestedTask (task : TaskSnapshot) (now : Nat) : TaskSnapshot :=
  { task with cancelRequestedAt := some now }

def cancelledTask (task : TaskSnapshot) (now : Nat) : TaskSnapshot :=
  { cancelRequestedTask task now with state := .cancelled, terminalAt := some now }

def shortenedAttempt (attempt : AttemptSnapshot) (grace : Nat) : AttemptSnapshot :=
  { attempt with
    authorityDeadline := min attempt.authorityDeadline grace
    lease := { attempt.lease with
      expiresAt := min attempt.lease.expiresAt (min attempt.authorityDeadline grace) } }

def cancel (task : TaskSnapshot) (attempt : Option AttemptSnapshot) (now : Nat) :
    Result (Transition TaskState) := do
  let _ ← timestamp now
  if task.state.isTerminal = true ∨ task.cancelRequestedAt ≠ none then
    return unchanged task attempt task.state
  else
    let next := cancelRequestedTask task now
    let requested := history task attempt now .cancelRequested
    if task.state = .queued then do
      refuse (task.currentAttemptId ≠ none) (invalid "queued task owns an attempt")
      let ended := cancelledTask task now
      return ⟨ended, none, [requested, history ended none now .cancelled], .cancelled⟩
    else do
      let attempt ← okOr attempt (invalid "active task needs its attempt")
      validateAttempt task attempt
      refuse (task.currentAttemptId ≠ some attempt.lease.owner.attemptId)
        (invalid "not the current attempt")
      if attempt.lease.expiresAt ≤ now ∨ attempt.authorityDeadline ≤ now then do
        let expired ← expire next attempt now
        return ⟨expired.task, expired.attempt, requested :: expired.history, .cancelled⟩
      else do
        let grace ← addTime now cleanupGraceMs
        return ⟨next, some (shortenedAttempt attempt grace), [requested], .active⟩

end Ledgence

/-! Start, refusal, deferral and stop of a task that is governed by a shared resource. -/

namespace Ledgence

def startedAttempt (attempt : AttemptSnapshot) : AttemptSnapshot :=
  { attempt with executionMayHaveStarted := true }

def startTaskAdmission (task : TaskSnapshot) (attempt : AttemptSnapshot) (owner : LeaseOwner)
    (now : Nat) : Result (Transition Authority) := do
  checkOwner task attempt owner
  refuse (task.input.admission = none ∨ task.workflowId ≠ none ∨ task.providerProbe ≠ none)
    (invalid "task admission requires a standalone task")
  refuse (¬ live task attempt now ∨ task.cancelRequestedAt ≠ none ∨ attempt.deadline ≤ now ∨
      attempt.settlement.isSome = true ∨ attempt.executionMayHaveStarted = true)
    .ownershipLost
  let next := startedAttempt attempt
  let grant := { authority task next now with dispatchAllowed := true }
  return ⟨task, some next, [history task (some next) now .dispatchAuthorized], grant⟩

def deniedAttempt (attempt : AttemptSnapshot) (reason : RunBudgetDenial) (now : Nat) :
    AttemptSnapshot :=
  { attempt with
    state := .failed
    budgetDenial := some reason
    quiescence := .unconfirmed
    finishedAt := some now }

def deniedTask (task : TaskSnapshot) (now : Nat) : TaskSnapshot :=
  { task with
    state := .failed
    currentAttemptId := none
    terminalAt := some now }

def denyTaskAdmission (task : TaskSnapshot) (attempt : AttemptSnapshot) (owner : LeaseOwner)
    (reason : RunBudgetDenial) (now : Nat) : Result (Transition TaskState) := do
  checkOwner task attempt owner
  let _ ← timestamp now
  refuse (task.input.admission = none ∨ ¬ live task attempt now ∨
      task.currentAttemptId ≠ some owner.attemptId ∨ task.cancelRequestedAt ≠ none ∨
      attempt.deadline ≤ now ∨ attempt.executionMayHaveStarted = true ∨
      attempt.settlement.isSome = true)
    .ownershipLost
  let next := deniedAttempt attempt reason now
  return ⟨deniedTask task now, some next, [history task (some next) now .failed], .failed⟩

def confirmDeniedTaskQuiescence (task : TaskSnapshot) (attempt : AttemptSnapshot)
    (owner : LeaseOwner) (now : Nat) : Result (Transition TaskState) := do
  checkOwner task attempt owner
  let _ ← timestamp now
  refuse (attempt.budgetDenial = none ∨ task.state ≠ .failed ∨ attempt.state ≠ .failed ∨
      task.currentAttemptId ≠ none ∨ attempt.executionMayHaveStarted = true ∨
      attempt.settlement.isSome = true ∨ attempt.finishedAt = none ∨
      attempt.finishedAt.any (now < ·) ∨ attempt.finishedAt ≠ task.terminalAt)
    .conflict
  if attempt.quiescence = .confirmed then return unchanged task (some attempt) task.state
  else
    let next := confirmedAttempt attempt
    return ⟨task, some next, [history task (some next) now .cleanupConfirmed], task.state⟩

def givenBack (task : TaskSnapshot) (deferrals : Nat) : TaskSnapshot :=
  { task with
    currentAttemptId := none
    admissionDeferrals := deferrals }

def exhaustedTask (task : TaskSnapshot) (deferrals now : Nat) : TaskSnapshot :=
  { givenBack task deferrals with
    state := .failed
    terminalAt := some now }

def requeuedTask (task : TaskSnapshot) (deferrals availableAt : Nat) : TaskSnapshot :=
  { givenBack task deferrals with
    state := .queued
    availableAt }

def deferredTask (task : TaskSnapshot) (now : Nat) : Result TaskSnapshot := do
  let deferrals ← okOr (checkedAdd u32Max task.admissionDeferrals 1)
    (invalid "admission deferral count overflow")
  let _ ← (givenBack task deferrals).chargedAttempts
  if task.attemptCount = maxTaskAttemptGeneration then
    return exhaustedTask task deferrals now
  else do
    let availableAt ← addTime now taskAdmissionDeferralBackoffMs
    return requeuedTask task deferrals availableAt

theorem deferredTask_eq_ok {task updated : TaskSnapshot} {now : Nat}
    (h : deferredTask task now = .ok updated) :
    task.attemptCount ≤ maxTaskAttemptGeneration ∧
      task.admissionDeferrals + 1 ≤ task.attemptCount ∧
      (task.attemptCount = maxTaskAttemptGeneration ∧
          updated = exhaustedTask task (task.admissionDeferrals + 1) now ∨
        task.attemptCount ≠ maxTaskAttemptGeneration ∧
          now + taskAdmissionDeferralBackoffMs ≤ maxTimestamp ∧
          updated = requeuedTask task (task.admissionDeferrals + 1)
            (now + taskAdmissionDeferralBackoffMs)) := by
  simp only [deferredTask, bind_eq_ok, okOr_eq_ok, checkedAdd_eq_some,
    TaskSnapshot.chargedAttempts, taskRetryAttempts_eq_ok] at h
  obtain ⟨_, ⟨_, rfl⟩, _, ⟨inRange, _, enough, _⟩, h⟩ := h
  refine ⟨inRange, enough, ?_⟩
  split at h
  · rename_i last
    exact .inl ⟨last, (pure_eq_ok.mp h).symm⟩
  · rename_i notLast
    simp only [bind_eq_ok, addTime_eq_ok, pure_eq_ok] at h
    obtain ⟨_, ⟨timeInRange, rfl⟩, rfl⟩ := h
    exact .inr ⟨notLast, timeInRange, rfl⟩

def closedPreparation (attempt : AttemptSnapshot) (state : AttemptState)
    (quiescence : Quiescence) (now : Nat) : AttemptSnapshot :=
  { attempt with
    finishedAt := some now
    quiescence
    state }

def preparationCancelledTask (task : TaskSnapshot) (now : Nat) : TaskSnapshot :=
  { task with
    currentAttemptId := none
    state := .cancelled
    terminalAt := some now }

def deferTaskAdmission (task : TaskSnapshot) (attempt : AttemptSnapshot) (owner : LeaseOwner)
    (quiescence : Quiescence) (now : Nat) : Result (Transition TaskState) := do
  checkOwner task attempt owner
  let _ ← timestamp now
  refuse (task.input.admission = none) (invalid "ordinary task cannot defer resource admission")
  if attempt.state = .deferred then return unchanged task (some attempt) task.state
  else do
    refuse (task.state ≠ .active ∨ attempt.state ≠ .active ∨
        task.currentAttemptId ≠ some owner.attemptId ∨
        attempt.executionMayHaveStarted = true ∨ attempt.settlement.isSome = true)
      .ownershipLost
    if task.cancelRequestedAt.isSome then
      let next := closedPreparation attempt .cancelled quiescence now
      return ⟨preparationCancelledTask task now, some next,
        [history task (some next) now .cancelled], .cancelled⟩
    else do
      let next := closedPreparation attempt .deferred quiescence now
      let updated ← deferredTask task now
      let events := [history task (some next) now .admissionDeferred] ++
        (if updated.state = .failed then [history task (some next) now .failed] else [])
      return ⟨updated, some next, events, updated.state⟩

def stopStartedTaskAdmission (task : TaskSnapshot) (attempt : AttemptSnapshot)
    (owner : LeaseOwner) (now : Nat) : Result (Transition TaskState) := do
  checkOwner task attempt owner
  refuse (task.input.admission = none ∨ attempt.executionMayHaveStarted = false)
    (invalid "task has no accepted admission Start")
  if task.state ≠ .active ∨ attempt.state ≠ .active then
    return unchanged task (some attempt) task.state
  else do
    refuse (task.currentAttemptId ≠ some owner.attemptId ∨ attempt.settlement.isSome = true)
      .conflict
    let next := confirmedAttempt attempt
    let stopped := history task (some next) now .admissionStopped
    let (updated, closed, event) ← finish task next now
    return ⟨updated, some closed, [stopped, event], updated.state⟩

end Ledgence
