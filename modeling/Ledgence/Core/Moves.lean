import Ledgence.Core.Lifecycle

/-! Everything an accepted decision on one attempt can do to the task and the attempt. Later
arguments go by cases on `Move` and never open a transition again. -/
open Kit Kit.Checked

namespace Ledgence

inductive AttemptOp where
  | renew (session : Option WorkerSession) (command : RenewCommand)
  | settle (command : SettleCommand)
  | confirmQuiescence (owner : LeaseOwner)
  | cancel
  | expire
  | startTaskAdmission (owner : LeaseOwner)
  | denyTaskAdmission (owner : LeaseOwner) (reason : RunBudgetDenial)
  | confirmDeniedTaskQuiescence (owner : LeaseOwner)
  | deferTaskAdmission (owner : LeaseOwner) (quiescence : Quiescence)
  | stopStartedTaskAdmission (owner : LeaseOwner)

structure Writes where
  task : TaskSnapshot
  attempt : Option AttemptSnapshot
  history : List HistoryEvent
  sample : Option Authority

def Transition.writes {R : Type} (t : Transition R) : Writes :=
  ⟨t.task, t.attempt, t.history, none⟩

def Transition.granting (t : Transition Authority) : Writes :=
  ⟨t.task, t.attempt, t.history, some t.reply⟩

def AttemptOp.decide (op : AttemptOp) (task : TaskSnapshot) (attempt : AttemptSnapshot)
    (now : Nat) : Result Writes :=
  match op with
  | .renew session command => Transition.granting <$> Ledgence.renew task attempt session command now
  | .settle command => Transition.writes <$> Ledgence.settle task attempt command now
  | .confirmQuiescence owner =>
    Transition.writes <$> Ledgence.confirmQuiescence task attempt owner now
  | .cancel => Transition.writes <$> Ledgence.cancel task (some attempt) now
  | .expire => Transition.writes <$> Ledgence.expire task attempt now
  | .startTaskAdmission owner =>
    Transition.granting <$> Ledgence.startTaskAdmission task attempt owner now
  | .denyTaskAdmission owner reason =>
    Transition.writes <$> Ledgence.denyTaskAdmission task attempt owner reason now
  | .confirmDeniedTaskQuiescence owner =>
    Transition.writes <$> Ledgence.confirmDeniedTaskQuiescence task attempt owner now
  | .deferTaskAdmission owner quiescence =>
    Transition.writes <$> Ledgence.deferTaskAdmission task attempt owner quiescence now
  | .stopStartedTaskAdmission owner =>
    Transition.writes <$> Ledgence.stopStartedTaskAdmission task attempt owner now

structure Running (task : TaskSnapshot) (attempt : AttemptSnapshot) : Prop where
  taskActive : task.state = .active
  attemptActive : attempt.state = .active
  current : task.currentAttemptId = some attempt.lease.owner.attemptId

theorem Running.not_terminal {task : TaskSnapshot} {attempt : AttemptSnapshot}
    (running : Running task attempt) : task.state.isTerminal = false := by
  simp [running.taskActive, TaskState.isTerminal]

theorem live.running {task : TaskSnapshot} {attempt : AttemptSnapshot} {now : Nat}
    (h : live task attempt now) : Running task attempt :=
  ⟨h.1, h.2.1, h.2.2.1⟩

structure Acceptable (task : TaskSnapshot) (attempt : AttemptSnapshot) (command : SettleCommand) :
    Prop where
  owner : attempt.lease.owner = command.owner
  valid : validateReport attempt command = .ok ()
  governed : task.input.admission.isSome = true → attempt.executionMayHaveStarted = false →
    command.report.claimsExecution = false
  probe : validateProbeFailure task command = .ok ()

/-- The ways to bring a running attempt to its end: the records `finish` starts from, and the
events before its own. -/
inductive Closing (task : TaskSnapshot) (attempt : AttemptSnapshot) (now : Nat) :
    TaskSnapshot → AttemptSnapshot → List HistoryEvent → Prop where
  | reported (command : SettleCommand) (acceptable : Acceptable task attempt command)
      (isLive : live task attempt now) (first : attempt.settlement = none)
      (quiet : command.quiescence = .confirmed) :
      Closing task attempt now task (reportedAttempt task attempt command now)
        [history task (some attempt) now .reportAccepted]
  | confirmed (isLive : live task attempt now) (settled : attempt.settlement.isSome = true)
      (loud : attempt.quiescence = .unconfirmed) :
      Closing task attempt now task (confirmedAttempt attempt)
        [history task (some attempt) now .cleanupConfirmed]
  | expired (past : attempt.lease.expiresAt ≤ now ∨ attempt.authorityDeadline ≤ now) :
      Closing task attempt now task attempt [history task (some attempt) now .leaseExpired]
  | cancelled (past : attempt.lease.expiresAt ≤ now ∨ attempt.authorityDeadline ≤ now)
      (fresh : task.cancelRequestedAt = none) (inRange : now ≤ maxTimestamp) :
      Closing task attempt now (cancelRequestedTask task now) attempt
        [history task (some attempt) now .cancelRequested,
          history task (some attempt) now .leaseExpired]
  | stopped (governed : task.input.admission.isSome = true)
      (started : attempt.executionMayHaveStarted = true) (unsettled : attempt.settlement = none) :
      Closing task attempt now task (confirmedAttempt attempt)
        [history task (some attempt) now .admissionStopped]

/-- What an accepted decision leaves: the task, the attempt, and the events it appends. A lease
is renewed under one of the sessions in `used`. -/
inductive MoveBy (used : WorkerSession → Prop) (task : TaskSnapshot) (attempt : AttemptSnapshot)
    (now : Nat) : TaskSnapshot → AttemptSnapshot → List HistoryEvent → Prop where
  | same : MoveBy used task attempt now task attempt []
  | renewed (session : WorkerSession) (command : RenewCommand)
      (sessionOpen : now < session.expiresAt) (isLive : live task attempt now)
      (owner : attempt.lease.owner = command.owner)
      (ofSession : session.id = attempt.lease.owner.workerSessionId)
      (next : command.sequence = attempt.renewSequence + 1)
      (ordinary : command.intent = .dispatch → task.input.admission = none)
      (inRange : now + leaseDurationMs ≤ maxTimestamp) (known : used session) {expiresAt : Nat}
      (granted : expiresAt =
        min (min (now + leaseDurationMs) attempt.authorityDeadline) session.expiresAt) :
      MoveBy used task attempt now task (renewedAttempt task attempt command expiresAt now)
        (if authorizesDispatch task attempt command now then
          [history task (some attempt) now .dispatchAuthorized] else [])
  | reported (command : SettleCommand) (acceptable : Acceptable task attempt command)
      (isLive : live task attempt now) (first : attempt.settlement = none)
      (loud : command.quiescence = .unconfirmed) :
      MoveBy used task attempt now task (reportedAttempt task attempt command now)
        [history task (some attempt) now .reportAccepted]
  | closed (running : Running task attempt) {task₁ : TaskSnapshot} {attempt₁ : AttemptSnapshot}
      {events : List HistoryEvent} (closing : Closing task attempt now task₁ attempt₁ events)
      (retry : Option Nat) (scheduled : retryAt task₁ (finishState task₁ attempt₁).2 now = .ok retry) :
      MoveBy used task attempt now (finishedTask task₁ attempt₁ retry now)
        (finishedAttempt task₁ attempt₁ now)
        (events ++ [history task (some attempt) now
          (finishOutcome task₁ (finishState task₁ attempt₁).1 retry).2])
  | withdrawn (queued : task.state = .queued) (fresh : task.cancelRequestedAt = none)
      (unowned : task.currentAttemptId = none) (inRange : now ≤ maxTimestamp) :
      MoveBy used task attempt now (cancelledTask task now) attempt
        [history task (some attempt) now .cancelRequested, history task none now .cancelled]
  | cancelRequested (running : Running task attempt) (fresh : task.cancelRequestedAt = none)
      (within : now < attempt.lease.expiresAt ∧ now < attempt.authorityDeadline)
      (inRange : now + cleanupGraceMs ≤ maxTimestamp) {grace : Nat}
      (granted : grace = now + cleanupGraceMs) :
      MoveBy used task attempt now (cancelRequestedTask task now) (shortenedAttempt attempt grace)
        [history task (some attempt) now .cancelRequested]
  | started (isLive : live task attempt now) (governed : task.input.admission.isSome = true)
      (fresh : task.cancelRequestedAt = none) (inTime : now < attempt.deadline)
      (unsettled : attempt.settlement = none) (first : attempt.executionMayHaveStarted = false) :
      MoveBy used task attempt now task (startedAttempt attempt)
        [history task (some attempt) now .dispatchAuthorized]
  | denied (reason : RunBudgetDenial) (isLive : live task attempt now)
      (governed : task.input.admission.isSome = true) (fresh : task.cancelRequestedAt = none)
      (unsettled : attempt.settlement = none) (unstarted : attempt.executionMayHaveStarted = false)
      (inRange : now ≤ maxTimestamp) :
      MoveBy used task attempt now (deniedTask task now) (deniedAttempt attempt reason now)
        [history task (some attempt) now .failed]
  | denialConfirmed (denial : attempt.budgetDenial.isSome = true) (taskFailed : task.state = .failed)
      (attemptFailed : attempt.state = .failed) (unsettled : attempt.settlement = none)
      (unstarted : attempt.executionMayHaveStarted = false)
      (atEnd : attempt.finishedAt = task.terminalAt) (loud : attempt.quiescence = .unconfirmed) :
      MoveBy used task attempt now task (confirmedAttempt attempt)
        [history task (some attempt) now .cleanupConfirmed]
  | deferralCancelled (quiescence : Quiescence) (running : Running task attempt)
      (governed : task.input.admission.isSome = true)
      (unstarted : attempt.executionMayHaveStarted = false)
      (unsettled : attempt.settlement = none) (requested : task.cancelRequestedAt.isSome = true)
      (inRange : now ≤ maxTimestamp) :
      MoveBy used task attempt now (preparationCancelledTask task now)
        (closedPreparation attempt .cancelled quiescence now)
        [history task (some attempt) now .cancelled]
  | deferred (quiescence : Quiescence) (running : Running task attempt)
      (governed : task.input.admission.isSome = true)
      (unstarted : attempt.executionMayHaveStarted = false)
      (unsettled : attempt.settlement = none) (fresh : task.cancelRequestedAt = none)
      (inRange : now ≤ maxTimestamp) {updated : TaskSnapshot}
      (given : deferredTask task now = .ok updated) :
      MoveBy used task attempt now updated (closedPreparation attempt .deferred quiescence now)
        ([history task (some attempt) now .admissionDeferred] ++
          (if updated.state = .failed then [history task (some attempt) now .failed] else []))

abbrev Move := MoveBy fun _ => True

structure SameTask (task task' : TaskSnapshot) : Prop where
  providerProbe : task'.providerProbe = task.providerProbe
  parentWorkflowId : task'.parentWorkflowId = task.parentWorkflowId
  rootWorkflowId : task'.rootWorkflowId = task.rootWorkflowId
  workflowId : task'.workflowId = task.workflowId
  workflowActivationId : task'.workflowActivationId = task.workflowActivationId
  taskId : task'.taskId = task.taskId
  runId : task'.runId = task.runId
  input : task'.input = task.input
  descriptor : task'.descriptor = task.descriptor
  submittedAt : task'.submittedAt = task.submittedAt

structure SameAttempt (attempt attempt' : AttemptSnapshot) : Prop where
  owner : attempt'.lease.owner = attempt.lease.owner
  event : attempt'.event = attempt.event
  descriptor : attempt'.descriptor = attempt.descriptor
  deadline : attempt'.deadline = attempt.deadline

section Frame
variable {task task' : TaskSnapshot} {attempt attempt' : AttemptSnapshot} {now : Nat}
  {events : List HistoryEvent}

theorem SameTask.refl : SameTask task task :=
  ⟨rfl, rfl, rfl, rfl, rfl, rfl, rfl, rfl, rfl, rfl⟩

theorem SameAttempt.refl : SameAttempt attempt attempt :=
  ⟨rfl, rfl, rfl, rfl⟩

theorem SameTask.trans {task'' : TaskSnapshot} (first : SameTask task task')
    (second : SameTask task' task'') : SameTask task task'' where
  providerProbe := second.providerProbe.trans first.providerProbe
  parentWorkflowId := second.parentWorkflowId.trans first.parentWorkflowId
  rootWorkflowId := second.rootWorkflowId.trans first.rootWorkflowId
  workflowId := second.workflowId.trans first.workflowId
  workflowActivationId := second.workflowActivationId.trans first.workflowActivationId
  taskId := second.taskId.trans first.taskId
  runId := second.runId.trans first.runId
  input := second.input.trans first.input
  descriptor := second.descriptor.trans first.descriptor
  submittedAt := second.submittedAt.trans first.submittedAt

theorem SameAttempt.trans {attempt'' : AttemptSnapshot} (first : SameAttempt attempt attempt')
    (second : SameAttempt attempt' attempt'') : SameAttempt attempt attempt'' where
  owner := second.owner.trans first.owner
  event := second.event.trans first.event
  descriptor := second.descriptor.trans first.descriptor
  deadline := second.deadline.trans first.deadline

theorem deferredTask_same {updated : TaskSnapshot} (h : deferredTask task now = .ok updated) :
    SameTask task updated ∧ updated.attemptCount = task.attemptCount := by
  obtain ⟨-, -, ⟨-, rfl⟩ | ⟨-, -, rfl⟩⟩ := deferredTask_eq_ok h
  · exact ⟨⟨rfl, rfl, rfl, rfl, rfl, rfl, rfl, rfl, rfl, rfl⟩, rfl⟩
  · exact ⟨⟨rfl, rfl, rfl, rfl, rfl, rfl, rfl, rfl, rfl, rfl⟩, rfl⟩

theorem Closing.same_task {task₁ : TaskSnapshot} {attempt₁ : AttemptSnapshot}
    (h : Closing task attempt now task₁ attempt₁ events) :
    SameTask task task₁ ∧ task₁.attemptCount = task.attemptCount := by
  cases h with
  | reported | confirmed | expired | stopped => exact ⟨.refl, rfl⟩
  | cancelled => exact ⟨⟨rfl, rfl, rfl, rfl, rfl, rfl, rfl, rfl, rfl, rfl⟩, rfl⟩

theorem Closing.same_attempt {task₁ : TaskSnapshot} {attempt₁ : AttemptSnapshot}
    (h : Closing task attempt now task₁ attempt₁ events) : SameAttempt attempt attempt₁ := by
  cases h with
  | reported | confirmed | expired | stopped | cancelled => exact ⟨rfl, rfl, rfl, rfl⟩

theorem Move.same_task (h : Move task attempt now task' attempt' events) :
    SameTask task task' ∧ task'.attemptCount = task.attemptCount := by
  cases h with
  | same | renewed | reported | started | denialConfirmed => exact ⟨.refl, rfl⟩
  | withdrawn | cancelRequested | denied | deferralCancelled =>
    exact ⟨⟨rfl, rfl, rfl, rfl, rfl, rfl, rfl, rfl, rfl, rfl⟩, rfl⟩
  | closed running closing retry scheduled =>
    obtain ⟨same, count⟩ := closing.same_task
    exact ⟨⟨same.providerProbe, same.parentWorkflowId, same.rootWorkflowId, same.workflowId,
      same.workflowActivationId, same.taskId, same.runId, same.input, same.descriptor,
      same.submittedAt⟩, count⟩
  | deferred quiescence running governed unstarted unsettled fresh inRange given =>
    exact deferredTask_same given

theorem Move.same_attempt (h : Move task attempt now task' attempt' events) :
    SameAttempt attempt attempt' := by
  cases h with
  | closed running closing retry scheduled =>
    obtain ⟨owner, event, descriptor, deadline⟩ := closing.same_attempt
    exact ⟨owner, event, descriptor, deadline⟩
  | same | renewed | reported | withdrawn | cancelRequested | started | denied | denialConfirmed
  | deferralCancelled | deferred => exact ⟨rfl, rfl, rfl, rfl⟩

theorem finishState_ne_active : (finishState task attempt).1 ≠ .active := by
  unfold finishState
  split
  · split <;> simp
  · split
    · split <;> simp
    · simp
    · simp

theorem finishOutcome_ne_active {state : AttemptState} {retry : Option Nat} :
    (finishOutcome task state retry).1 ≠ .active := by
  unfold finishOutcome
  split
  · simp
  · split
    · simp
    · split <;> simp

/-- A move either leaves what runs as it is, or ends the running attempt. -/
theorem Move.phase (h : Move task attempt now task' attempt' events) :
    ((task'.state = .active ↔ task.state = .active) ∧
      task'.currentAttemptId = task.currentAttemptId ∧ attempt'.state = attempt.state) ∨
    (Running task attempt ∧ task'.state ≠ .active ∧ task'.currentAttemptId = none ∧
      attempt'.state ≠ .active) := by
  cases h with
  | same | renewed | reported | cancelRequested | started | denialConfirmed =>
    exact .inl ⟨Iff.rfl, rfl, rfl⟩
  | withdrawn queued fresh unowned inRange =>
    exact .inl ⟨by simp [cancelledTask, queued], rfl, rfl⟩
  | closed running closing retry scheduled =>
    exact .inr ⟨running, finishOutcome_ne_active, rfl, finishState_ne_active⟩
  | denied reason isLive governed fresh unsettled unstarted inRange =>
    exact .inr ⟨isLive.running, by simp [deniedTask], rfl, by simp [deniedAttempt]⟩
  | deferralCancelled quiescence running governed unstarted unsettled requested inRange =>
    exact .inr ⟨running, by simp [preparationCancelledTask], rfl, by simp [closedPreparation]⟩
  | deferred quiescence running governed unstarted unsettled fresh inRange given =>
    refine .inr ⟨running, ?_, ?_, by simp [closedPreparation]⟩
    · obtain ⟨-, -, ⟨-, rfl⟩ | ⟨-, -, rfl⟩⟩ := deferredTask_eq_ok given
      · simp [exhaustedTask]
      · simp [requeuedTask]
    · obtain ⟨-, -, ⟨-, rfl⟩ | ⟨-, -, rfl⟩⟩ := deferredTask_eq_ok given
      · rfl
      · rfl

theorem finishState_ne_deferred : (finishState task attempt).1 ≠ .deferred := by
  unfold finishState
  split
  · split <;> simp
  · split
    · split <;> simp
    · simp
    · simp

/-- Only the running attempt changes, but for the late cleanup of a denied one. -/
theorem Move.of_ended (h : Move task attempt now task' attempt' events)
    (ended : attempt.state ≠ .active) :
    attempt' = attempt ∨ (attempt' = confirmedAttempt attempt ∧ task' = task ∧
      attempt.budgetDenial.isSome = true ∧ task.state = .failed ∧ attempt.state = .failed ∧
      attempt.settlement = none ∧ attempt.executionMayHaveStarted = false ∧
      attempt.finishedAt = task.terminalAt ∧ attempt.quiescence = .unconfirmed) := by
  cases h with
  | same | withdrawn => exact .inl rfl
  | renewed session command sessionOpen isLive => exact absurd isLive.running.attemptActive ended
  | reported command acceptable isLive => exact absurd isLive.running.attemptActive ended
  | closed running => exact absurd running.attemptActive ended
  | cancelRequested running => exact absurd running.attemptActive ended
  | started isLive => exact absurd isLive.running.attemptActive ended
  | denied reason isLive => exact absurd isLive.running.attemptActive ended
  | denialConfirmed denial taskFailed attemptFailed unsettled unstarted atEnd loud =>
    exact .inr ⟨rfl, rfl, denial, taskFailed, attemptFailed, unsettled, unstarted, atEnd, loud⟩
  | deferralCancelled quiescence running => exact absurd running.attemptActive ended
  | deferred quiescence running => exact absurd running.attemptActive ended

theorem MoveBy.times (h : Move task attempt now task' attempt' events) :
    ∀ event ∈ events, event.at' = now := by
  have here (task : TaskSnapshot) (attempt : Option AttemptSnapshot) (reason : TransitionReason) :
      (history task attempt now reason).at' = now := rfl
  cases h with
  | same => simp
  | renewed session command =>
    split
    · simp [here]
    · simp
  | reported => simp [here]
  | closed running closing =>
    cases closing <;> simp [here]
  | withdrawn => simp [here]
  | cancelRequested => simp [here]
  | started => simp [here]
  | denied => simp [here]
  | denialConfirmed => simp [here]
  | deferralCancelled => simp [here]
  | deferred =>
    split
    · simp [here]
    · simp [here]

end Frame

def Writes.Moves (w : Writes) (used : WorkerSession → Prop) (task : TaskSnapshot)
    (attempt : AttemptSnapshot) (now : Nat) : Prop :=
  MoveBy used task attempt now w.task (w.attempt.getD attempt) w.history

def AttemptOp.Uses (op : AttemptOp) (session : WorkerSession) : Prop :=
  ∃ command, op = .renew (some session) command

theorem MoveBy.mono {used used' : WorkerSession → Prop} (more : ∀ s, used s → used' s)
    {task task' : TaskSnapshot} {attempt attempt' : AttemptSnapshot} {now : Nat}
    {events : List HistoryEvent} (h : MoveBy used task attempt now task' attempt' events) :
    MoveBy used' task attempt now task' attempt' events := by
  cases h with
  | same => exact .same
  | renewed session command sessionOpen isLive owner ofSession next ordinary inRange known granted =>
    exact .renewed session command sessionOpen isLive owner ofSession next ordinary inRange
      (more session known) granted
  | reported command acceptable isLive first loud => exact .reported command acceptable isLive first loud
  | closed running closing retry scheduled => exact .closed running closing retry scheduled
  | withdrawn queued fresh unowned inRange => exact .withdrawn queued fresh unowned inRange
  | cancelRequested running fresh within inRange granted =>
    exact .cancelRequested running fresh within inRange granted
  | started isLive governed fresh inTime unsettled first =>
    exact .started isLive governed fresh inTime unsettled first
  | denied reason isLive governed fresh unsettled unstarted inRange =>
    exact .denied reason isLive governed fresh unsettled unstarted inRange
  | denialConfirmed denial taskFailed attemptFailed unsettled unstarted atEnd loud =>
    exact .denialConfirmed denial taskFailed attemptFailed unsettled unstarted atEnd loud
  | deferralCancelled quiescence running governed unstarted unsettled requested inRange =>
    exact .deferralCancelled quiescence running governed unstarted unsettled requested inRange
  | deferred quiescence running governed unstarted unsettled fresh inRange given =>
    exact .deferred quiescence running governed unstarted unsettled fresh inRange given

theorem Quiescence.unconfirmed_of_ne {q : Quiescence} (h : q ≠ .confirmed) : q = .unconfirmed := by
  cases q with
  | confirmed => exact absurd rfl h
  | unconfirmed => rfl

section Inversion
variable {task : TaskSnapshot} {attempt : AttemptSnapshot} {owner : LeaseOwner} {now : Nat}
  {used : WorkerSession → Prop}

theorem checkOwner_eq_ok {u : Unit} : checkOwner task attempt owner = .ok u ↔
    validateAttempt task attempt = .ok () ∧ attempt.lease.owner = owner := by
  simp [checkOwner]

theorem finish_eq_ok {t : TaskSnapshot} {a : AttemptSnapshot} {event : HistoryEvent} :
    finish task attempt now = .ok (t, a, event) ↔
      ∃ retry, retryAt task (finishState task attempt).2 now = .ok retry ∧
        t = finishedTask task attempt retry now ∧ a = finishedAttempt task attempt now ∧
        event = history task (some attempt) now
          (finishOutcome task (finishState task attempt).1 retry).2 := by
  simp only [finish, bind_eq_ok, pure_eq_ok, Prod.mk.injEq]
  constructor
  · rintro ⟨retry, scheduled, rfl, rfl, rfl⟩
    exact ⟨retry, scheduled, rfl, rfl, rfl⟩
  · rintro ⟨retry, scheduled, rfl, rfl, rfl⟩
    exact ⟨retry, scheduled, rfl, rfl, rfl⟩

theorem renew_moves {session : Option WorkerSession} {command : RenewCommand}
    {t : Transition Authority} (h : renew task attempt session command now = .ok t) :
    t.granting.Moves (fun s => session = some s) task attempt now := by
  simp only [renew, bind_eq_ok, refuse_eq_ok, okOr_eq_ok, exists_unit, checkOwner_eq_ok] at h
  obtain ⟨governed, _, session, rfl, inSession, ⟨_, owner⟩, owns, ordered, current, h⟩ := h
  have isOpen := checkSession_eq_ok inSession
  split at h
  · obtain ⟨_, _, rfl⟩ := by simpa using h
    exact .same
  · rename_i fresh
    simp only [bind_eq_ok, addTime_eq_ok, pure_eq_ok] at h
    obtain ⟨_, ⟨inRange, rfl⟩, rfl⟩ := h
    simp only [not_or, ne_eq, not_not, not_le, not_lt] at owns ordered
    have next : command.sequence = attempt.renewSequence + 1 := by
      have := ordered.2
      simp only [saturatingAdd] at this
      omega
    have ofSession : session.id = attempt.lease.owner.workerSessionId := by rw [owns.1, owner]
    have ordinary : command.intent = .dispatch → task.input.admission = none := by
      intro dispatch
      by_contra some
      exact governed ⟨Option.isSome_iff_ne_none.mpr some, dispatch⟩
    exact @MoveBy.renewed (fun s => some session = some s) task attempt now session command isOpen
      owns.2.2.2.2 owner ofSession next ordinary inRange rfl _ rfl

theorem settle_moves {command : SettleCommand} {t : Transition SettleReply}
    (h : settle task attempt command now = .ok t) : t.writes.Moves used task attempt now := by
  simp only [settle, bind_eq_ok, refuse_eq_ok, exists_unit, checkOwner_eq_ok] at h
  obtain ⟨⟨_, owner⟩, valid, governed, probe, h⟩ := h
  have acceptable : Acceptable task attempt command := by
    refine ⟨owner, valid, fun isGoverned unstarted => ?_, probe⟩
    by_contra claims
    exact governed ⟨isGoverned, unstarted, by simpa using claims⟩
  split at h
  · obtain ⟨_, rfl⟩ := by simpa using h
    exact .same
  · rename_i first
    simp only [bind_eq_ok, refuse_eq_ok, exists_unit, not_not] at h
    obtain ⟨isLive, h⟩ := h
    split at h
    · rename_i quiet
      simp only [bind_eq_ok, pure_eq_ok, Prod.exists, finish_eq_ok] at h
      obtain ⟨_, _, _, ⟨retry, scheduled, rfl, rfl, rfl⟩, rfl⟩ := h
      exact .closed isLive.running (.reported command acceptable isLive first quiet) retry
        scheduled
    · rename_i loud
      obtain rfl := by simpa using h
      exact .reported command acceptable isLive first (Quiescence.unconfirmed_of_ne loud)

theorem confirmQuiescence_moves {t : Transition TaskState}
    (h : confirmQuiescence task attempt owner now = .ok t) : t.writes.Moves used task attempt now := by
  simp only [confirmQuiescence, bind_eq_ok, exists_unit] at h
  obtain ⟨_, h⟩ := h
  split at h
  · obtain rfl := by simpa using h
    exact .same
  · rename_i loud
    simp only [bind_eq_ok, refuse_eq_ok, exists_unit, not_not, pure_eq_ok, Prod.exists,
      finish_eq_ok] at h
    obtain ⟨isLive, settled, _, _, _, ⟨retry, scheduled, rfl, rfl, rfl⟩, rfl⟩ := h
    refine .closed isLive.running (.confirmed isLive ?_ ?_) retry scheduled
    · simpa [Option.isSome_iff_ne_none] using settled
    · exact Quiescence.unconfirmed_of_ne loud

theorem expire_cases {t : Transition Bool} (h : expire task attempt now = .ok t) :
    (t.writes = ⟨task, some attempt, [], none⟩ ∧
      (attempt.state ≠ .active ∨ now < attempt.lease.expiresAt ∧ now < attempt.authorityDeadline)) ∨
    Running task attempt ∧ (attempt.lease.expiresAt ≤ now ∨ attempt.authorityDeadline ≤ now) ∧
      ∃ retry, retryAt task (finishState task attempt).2 now = .ok retry ∧
        t.writes = ⟨finishedTask task attempt retry now,
          some (finishedAttempt task attempt now),
          [history task (some attempt) now .leaseExpired, history task (some attempt) now
            (finishOutcome task (finishState task attempt).1 retry).2], none⟩ := by
  simp only [expire, bind_eq_ok, exists_unit] at h
  obtain ⟨_, h⟩ := h
  split at h
  · rename_i closed
    obtain rfl := by simpa using h
    exact .inl ⟨rfl, .inl closed⟩
  · rename_i isActive
    simp only [bind_eq_ok, refuse_eq_ok, exists_unit, not_or, not_not] at h isActive
    obtain ⟨⟨current, taskActive⟩, h⟩ := h
    split at h
    · rename_i within
      obtain rfl := by simpa using h
      exact .inl ⟨rfl, .inr within⟩
    · rename_i past
      simp only [bind_eq_ok, pure_eq_ok, Prod.exists, finish_eq_ok] at h
      obtain ⟨_, _, _, ⟨retry, scheduled, rfl, rfl, rfl⟩, rfl⟩ := h
      exact .inr ⟨⟨taskActive, isActive, current⟩, by omega, retry, scheduled, rfl⟩

theorem expire_moves {t : Transition Bool} (h : expire task attempt now = .ok t) :
    t.writes.Moves used task attempt now := by
  obtain ⟨same, -⟩ | ⟨running, past, retry, scheduled, same⟩ := expire_cases h
  · rw [same]
    exact .same
  · rw [same]
    exact .closed running (.expired past) retry scheduled

def Coherent (task : TaskSnapshot) (attempt : AttemptSnapshot) : Prop :=
  task.state = .active → task.currentAttemptId = some attempt.lease.owner.attemptId →
    attempt.state = .active

theorem cancel_moves {t : Transition TaskState} (coherent : Coherent task attempt)
    (h : cancel task (some attempt) now = .ok t) : t.writes.Moves used task attempt now := by
  simp only [cancel, bind_eq_ok, timestamp_eq_ok] at h
  obtain ⟨_, ⟨inRange, rfl⟩, h⟩ := h
  split at h
  · obtain rfl := by simpa using h
    exact .same
  · rename_i open'
    simp only [not_or, not_not] at open'
    obtain ⟨notTerminal, fresh⟩ := open'
    split at h
    · rename_i queued
      simp only [bind_eq_ok, refuse_eq_ok, exists_unit, not_not, pure_eq_ok] at h
      obtain ⟨unowned, rfl⟩ := h
      exact .withdrawn queued fresh unowned inRange
    · rename_i notQueued
      have isActive : task.state = .active := by
        cases hs : task.state <;> simp_all [TaskState.isTerminal]
      simp only [bind_eq_ok, okOr_eq_ok, refuse_eq_ok, exists_unit, not_not, Option.some.injEq] at h
      obtain ⟨_, rfl, _, current, h⟩ := h
      split at h
      · rename_i past
        simp only [bind_eq_ok, pure_eq_ok] at h
        obtain ⟨⟨_, _, _, _⟩, hexpired, rfl⟩ := h
        obtain ⟨-, closed | within⟩ | ⟨running, past, retry, scheduled, same⟩ :=
          expire_cases hexpired
        · exact absurd (coherent isActive current) closed
        · omega
        · simp only [Transition.writes, Writes.mk.injEq] at same
          obtain ⟨rfl, rfl, rfl, -⟩ := same
          exact .closed ⟨isActive, running.attemptActive, current⟩
            (.cancelled past fresh inRange) retry scheduled
      · rename_i within
        simp only [bind_eq_ok, addTime_eq_ok, pure_eq_ok] at h
        obtain ⟨_, ⟨graceInRange, rfl⟩, rfl⟩ := h
        simp only [not_or, not_le] at within
        exact .cancelRequested ⟨isActive, coherent isActive current, current⟩ fresh within
          graceInRange rfl

theorem startTaskAdmission_moves {t : Transition Authority}
    (h : startTaskAdmission task attempt owner now = .ok t) :
    t.granting.Moves used task attempt now := by
  simp only [startTaskAdmission, bind_eq_ok, refuse_eq_ok, exists_unit, pure_eq_ok, not_or,
    not_not, not_le] at h
  obtain ⟨_, ⟨governed, -, -⟩, ⟨isLive, fresh, inTime, unsettled, first⟩, rfl⟩ := h
  exact .started isLive (Option.isSome_iff_ne_none.mpr governed) fresh inTime
    (by simpa using unsettled) (by simpa using first)

theorem denyTaskAdmission_moves {reason : RunBudgetDenial} {t : Transition TaskState}
    (h : denyTaskAdmission task attempt owner reason now = .ok t) :
    t.writes.Moves used task attempt now := by
  simp only [denyTaskAdmission, bind_eq_ok, refuse_eq_ok, exists_unit, pure_eq_ok, not_or,
    not_not, not_le, timestamp_eq_ok] at h
  obtain ⟨_, _, ⟨inRange, rfl⟩, ⟨governed, isLive, -, fresh, -, unstarted, unsettled⟩, rfl⟩ := h
  exact .denied reason isLive (Option.isSome_iff_ne_none.mpr governed) fresh
    (by simpa using unsettled) (by simpa using unstarted) inRange

theorem confirmDeniedTaskQuiescence_moves {t : Transition TaskState}
    (h : confirmDeniedTaskQuiescence task attempt owner now = .ok t) :
    t.writes.Moves used task attempt now := by
  simp only [confirmDeniedTaskQuiescence, bind_eq_ok, refuse_eq_ok, exists_unit, not_or, not_not,
    timestamp_eq_ok] at h
  obtain ⟨_, _, -, ⟨denial, taskFailed, attemptFailed, -, unstarted, unsettled, -, -, atEnd⟩, h⟩ := h
  split at h
  · obtain rfl := by simpa using h
    exact .same
  · rename_i loud
    obtain rfl := by simpa using h
    exact .denialConfirmed (Option.isSome_iff_ne_none.mpr denial) taskFailed attemptFailed
      (by simpa using unsettled) (by simpa using unstarted) atEnd
      (Quiescence.unconfirmed_of_ne loud)

theorem deferTaskAdmission_moves {quiescence : Quiescence} {t : Transition TaskState}
    (h : deferTaskAdmission task attempt owner quiescence now = .ok t) :
    t.writes.Moves used task attempt now := by
  simp only [deferTaskAdmission, bind_eq_ok, refuse_eq_ok, exists_unit, timestamp_eq_ok,
    checkOwner_eq_ok] at h
  obtain ⟨⟨_, rfl⟩, _, ⟨inRange, rfl⟩, governed, h⟩ := h
  split at h
  · obtain rfl := by simpa using h
    exact .same
  · simp only [bind_eq_ok, refuse_eq_ok, exists_unit, not_or, not_not] at h
    obtain ⟨⟨taskActive, attemptActive, current, unstarted, unsettled⟩, h⟩ := h
    have running : Running task attempt := ⟨taskActive, attemptActive, current⟩
    have isGoverned := Option.isSome_iff_ne_none.mpr governed
    split at h
    · rename_i requested
      obtain rfl := by simpa using h
      exact .deferralCancelled quiescence running isGoverned (by simpa using unstarted)
        (by simpa using unsettled) requested inRange
    · rename_i fresh
      simp only [bind_eq_ok, pure_eq_ok] at h
      obtain ⟨updated, given, rfl⟩ := h
      exact .deferred quiescence running isGoverned (by simpa using unstarted)
        (by simpa using unsettled) (by simpa using fresh) inRange given

theorem stopStartedTaskAdmission_moves {t : Transition TaskState}
    (h : stopStartedTaskAdmission task attempt owner now = .ok t) :
    t.writes.Moves used task attempt now := by
  simp only [stopStartedTaskAdmission, bind_eq_ok, refuse_eq_ok, exists_unit, not_or,
    checkOwner_eq_ok] at h
  obtain ⟨⟨_, rfl⟩, ⟨governed, started⟩, h⟩ := h
  split at h
  · obtain rfl := by simpa using h
    exact .same
  · rename_i isActive
    simp only [not_or, not_not, bind_eq_ok, refuse_eq_ok, exists_unit, pure_eq_ok, Prod.exists,
      finish_eq_ok] at isActive h
    obtain ⟨⟨current, unsettled⟩, _, _, _, ⟨retry, scheduled, rfl, rfl, rfl⟩, rfl⟩ := h
    exact .closed ⟨isActive.1, isActive.2, current⟩
      (.stopped (Option.isSome_iff_ne_none.mpr governed) (by simpa using started)
        (by simpa using unsettled)) retry scheduled

theorem decide_movesBy {op : AttemptOp} {w : Writes} (coherent : Coherent task attempt)
    (h : op.decide task attempt now = .ok w) : w.Moves op.Uses task attempt now := by
  cases op with
  | renew session command =>
    obtain ⟨t, ht, rfl⟩ := map_eq_ok.mp h
    exact (renew_moves ht).mono fun s same => ⟨command, by rw [same]⟩
  | settle command =>
    obtain ⟨t, ht, rfl⟩ := map_eq_ok.mp h
    exact settle_moves ht
  | confirmQuiescence owner =>
    obtain ⟨t, ht, rfl⟩ := map_eq_ok.mp h
    exact confirmQuiescence_moves ht
  | cancel =>
    obtain ⟨t, ht, rfl⟩ := map_eq_ok.mp h
    exact cancel_moves coherent ht
  | expire =>
    obtain ⟨t, ht, rfl⟩ := map_eq_ok.mp h
    exact expire_moves ht
  | startTaskAdmission owner =>
    obtain ⟨t, ht, rfl⟩ := map_eq_ok.mp h
    exact startTaskAdmission_moves ht
  | denyTaskAdmission owner reason =>
    obtain ⟨t, ht, rfl⟩ := map_eq_ok.mp h
    exact denyTaskAdmission_moves ht
  | confirmDeniedTaskQuiescence owner =>
    obtain ⟨t, ht, rfl⟩ := map_eq_ok.mp h
    exact confirmDeniedTaskQuiescence_moves ht
  | deferTaskAdmission owner quiescence =>
    obtain ⟨t, ht, rfl⟩ := map_eq_ok.mp h
    exact deferTaskAdmission_moves ht
  | stopStartedTaskAdmission owner =>
    obtain ⟨t, ht, rfl⟩ := map_eq_ok.mp h
    exact stopStartedTaskAdmission_moves ht

theorem decide_moves {op : AttemptOp} {w : Writes} (coherent : Coherent task attempt)
    (h : op.decide task attempt now = .ok w) :
    Move task attempt now w.task (w.attempt.getD attempt) w.history :=
  (decide_movesBy coherent h).mono fun _ _ => trivial

/-- An attempt is started while it is live, not cancelled, and before its deadline. -/
theorem startTaskAdmission_timely {owner : LeaseOwner} {t : Transition Authority}
    (h : startTaskAdmission task attempt owner now = .ok t) :
    live task attempt now ∧ task.cancelRequestedAt = none ∧ now < attempt.deadline := by
  simp only [startTaskAdmission, bind_eq_ok, refuse_eq_ok, exists_unit, pure_eq_ok, not_or,
    not_not, not_le] at h
  obtain ⟨-, -, ⟨isLive, fresh, early, -⟩, -⟩ := h
  exact ⟨isLive, fresh, early⟩

/-- An accepted renewal is the last one again, or the next one of a live attempt. -/
theorem renew_cases {session : Option WorkerSession} {command : RenewCommand}
    {t : Transition Authority} (h : renew task attempt session command now = .ok t) :
    live task attempt now ∧ ((t.task = task ∧ t.attempt = some attempt ∧
        attempt.lastRenewal = some command) ∨
      (command.sequence = attempt.renewSequence + 1 ∧ t.task = task ∧
        ∃ expiresAt, t.attempt = some (renewedAttempt task attempt command expiresAt now))) := by
  simp only [renew, bind_eq_ok, refuse_eq_ok, exists_unit, not_or, not_not, not_lt] at h
  obtain ⟨-, -, _, -, -, -, ⟨-, -, -, -, isLive⟩, ⟨-, near⟩, current, h⟩ := h
  refine ⟨isLive, ?_⟩
  split at h
  · simp only [bind_eq_ok, refuse_eq_ok, exists_unit, not_not, pure_eq_ok] at h
    obtain ⟨again, rfl⟩ := h
    exact .inl ⟨rfl, rfl, again⟩
  · rename_i other
    simp only [bind_eq_ok, pure_eq_ok] at h
    obtain ⟨_, -, rfl⟩ := h
    refine .inr ⟨?_, rfl, _, rfl⟩
    have cap : saturatingAdd u64Max attempt.renewSequence 1 ≤ attempt.renewSequence + 1 :=
      min_le_left _ _
    omega

theorem renew_reply {session : Option WorkerSession} {command : RenewCommand}
    {t : Transition Authority} (h : renew task attempt session command now = .ok t) :
    t.reply = authority t.task (t.attempt.getD attempt) now := by
  simp only [renew, bind_eq_ok, exists_unit] at h
  obtain ⟨-, -, _, -, -, -, -, -, -, h⟩ := h
  split at h
  · simp only [bind_eq_ok, exists_unit, pure_eq_ok] at h
    obtain ⟨-, rfl⟩ := h
    rfl
  · simp only [bind_eq_ok, pure_eq_ok] at h
    obtain ⟨_, -, rfl⟩ := h
    rfl

/-- The authority that a decision replies with is that of the records it writes. A renewal moves no
deadline; the start of a governed attempt is in time, and allows its dispatch besides. -/
theorem decide_reply {op : AttemptOp} {w : Writes} (h : op.decide task attempt now = .ok w)
    {x : Authority} (sample : w.sample = some x) :
    (w.task = task ∧ (w.attempt.getD attempt).deadline = attempt.deadline ∧
      x = authority w.task (w.attempt.getD attempt) now) ∨
    ((live task attempt now ∧ task.cancelRequestedAt = none ∧ now < attempt.deadline) ∧
      x = { authority w.task (w.attempt.getD attempt) now with dispatchAllowed := true }) := by
  cases op with
  | renew session command =>
    obtain ⟨r, renewed, rfl⟩ := map_eq_ok.mp h
    have same := renew_reply renewed
    cases (Option.some.inj sample : r.reply = x)
    obtain ⟨-, ⟨task', kept, -⟩ | ⟨-, task', expiresAt, written⟩⟩ := renew_cases renewed
    · have kept : (r.attempt.getD attempt).deadline = attempt.deadline := by rw [kept]; rfl
      exact .inl ⟨task', kept, same⟩
    · have kept : (r.attempt.getD attempt).deadline = attempt.deadline := by rw [written]; rfl
      exact .inl ⟨task', kept, same⟩
  | startTaskAdmission owner =>
    obtain ⟨r, started, rfl⟩ := map_eq_ok.mp h
    have timely := startTaskAdmission_timely started
    simp only [startTaskAdmission, bind_eq_ok, exists_unit, pure_eq_ok] at started
    obtain ⟨-, -, -, rfl⟩ := started
    exact .inr ⟨timely, (Option.some.inj sample).symm⟩
  | settle | confirmQuiescence | cancel | expire | denyTaskAdmission | confirmDeniedTaskQuiescence
  | deferTaskAdmission | stopStartedTaskAdmission =>
    obtain ⟨r, -, rfl⟩ := map_eq_ok.mp h
    cases sample

end Inversion

end Ledgence
