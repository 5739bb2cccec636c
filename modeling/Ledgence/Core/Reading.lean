import Ledgence.Core.Readable

/-! Records that tell one story are read back without an error. -/
open Kit Kit.Checked

namespace Ledgence

structure SubmitTask.Limits (input : SubmitTask) : Prop where
  tenant : ValidText 128 input.tenantId
  namespaceId : ValidText 128 input.namespaceId
  queue : ValidText 128 input.queue
  correlationKey : ∀ key, input.correlationKey = some key →
    byteLen key ≤ 512 ∧ key.toList.any isControl = false
  admission : ∀ a, input.admission = some a → a.validate = .ok ()
  maxAttempts : input.retryPolicy.maxAttempts ≤ 1000

theorem validName_text {field value : String}
    (name : SubmitTask.validateName (field, value) = .ok ())
    (characters : value.toList.any nonCharacter = false) : ValidText 128 value := by
  simp only [SubmitTask.validateName, refuse_eq_ok, not_or, not_lt, Bool.not_eq_true] at name
  obtain ⟨nonempty, short, plain⟩ := name
  refine ⟨nonempty, short, List.all_eq_true.mpr fun c hc => ?_⟩
  have notControl := List.any_eq_false.mp plain c hc
  have isCharacter := List.any_eq_false.mp characters c hc
  simp [notControl, isCharacter]

theorem SubmitTask.validate_limits {input : SubmitTask} (h : input.validate = .ok ()) :
    input.Limits := by
  simp only [SubmitTask.validate, bind_eq_ok, exists_unit, List.forM_eq_forM, forM_eq_ok,
    List.forall_mem_cons, refuse_eq_ok, ifSome_eq_ok, ok_of_mapError, RetryPolicy.validate,
    not_or, not_lt, Bool.not_eq_true, List.any_append, Bool.or_eq_false_iff] at h
  obtain ⟨⟨tenant, name, queue, -⟩, ⟨⟨tenantText, nameText⟩, queueText⟩, key, -, admission, -,
    ⟨-, most, -⟩, -⟩ := h
  refine ⟨validName_text tenant tenantText, validName_text name nameText,
    validName_text queue queueText, ?_, admission, most⟩
  intro k given
  simpa [given] using key

structure Readable (task : TaskSnapshot) (latest : Option AttemptSnapshot) : Prop where
  consistent : Consistent task
  charged : ∃ charged, task.chargedAttempts = .ok charged ∧
    charged ≤ task.input.retryPolicy.maxAttempts
  observed : ∀ a, latest = some a → Observed task a ∧ Belongs task a
  unclaimed : latest = none →
    task.attemptCount = 0 ∧ (task.state = .queued ∨ task.state = .cancelled)
  current : task.currentAttemptId =
    if task.state = .active then latest.map fun a => a.lease.owner.attemptId else none
  deferred : ∀ a, latest = some a → a.state = .deferred →
    task.admissionDeferrals ≠ 0 ∧ a.executionMayHaveStarted = false

def Presentable (status : TaskStatus) (outcome : Option TaskOutcome) : Prop :=
  TaskResult.validateOutcome status outcome = .ok () ∧
    ∀ o, outcome = some o → o.toJson.size ≤ settlementMaxBytes

theorem taskStatus_eq_ok {task : TaskSnapshot} {latest : Option AttemptSnapshot}
    {status : TaskStatus} : taskStatus task latest = .ok status ↔
      validateWorkflowLineage task.workflowId task.parentWorkflowId task.rootWorkflowId = .ok () ∧
        (observedStatus task latest).validate = .ok () ∧
        (∀ a, latest = some a → checkLatest task a = .ok ()) ∧
        status = observedStatus task latest := by
  simp only [taskStatus, bind_eq_ok, exists_unit, ok_of_mapError, ifSome_eq_ok, pure_eq_ok,
    @eq_comm _ status]

theorem taskResult_eq_ok {task : TaskSnapshot} {latest : Option AttemptSnapshot}
    {result : TaskResult} : taskResult task latest = .ok result ↔
      taskStatus task latest = .ok result.task ∧
        observedOutcome task latest = .ok result.outcome ∧ result.task.validate = .ok () ∧
        Presentable result.task result.outcome := by
  simp only [taskResult, bind_eq_ok, exists_unit, pure_eq_ok, TaskResult.validate, ifSome_eq_ok,
    ok_of_mapError, checkEncodedSize, refuse_eq_ok, not_lt, Presentable]
  constructor
  · rintro ⟨status, read, outcome, observed, valid, rfl⟩
    exact ⟨read, observed, valid⟩
  · rintro ⟨read, observed, valid⟩
    exact ⟨_, read, _, observed, valid, rfl⟩

section Reading
variable {task : TaskSnapshot} {attempt : AttemptSnapshot} {latest : Option AttemptSnapshot}

theorem Consistent.lineage (h : Consistent task) :
    validateWorkflowLineage task.workflowId task.parentWorkflowId task.rootWorkflowId = .ok () := by
  rw [h.workflowId, h.parentWorkflowId, h.rootWorkflowId]
  rfl

theorem Readable.claimed (h : Readable task latest) :
    task.attemptCount = 0 ↔ latest = none := by
  cases latest with
  | none => simp [(h.unclaimed rfl).1]
  | some a =>
    have := (h.observed a rfl).2.2.2.2.1
    have := (h.observed a rfl).1.latest
    simp only [reduceCtorEq, iff_false]
    omega

theorem Readable.bounded (h : Readable task latest) : (observedStatus task latest).Bounded := by
  have limits := SubmitTask.validate_limits h.consistent.input
  obtain ⟨charged, known, -⟩ := h.charged
  obtain ⟨generation, -, deferrals, -⟩ := taskRetryAttempts_eq_ok.mp known
  have latestId : ∀ id, (observedStatus task latest).latestAttemptId = some id →
      ValidText 128 id := by
    intro id given
    obtain ⟨a, ha, rfl⟩ := Option.map_eq_some_iff.mp given
    exact (h.observed a ha).1.attemptId
  refine ⟨limits.tenant, limits.namespaceId, h.consistent.taskId, h.consistent.runId, limits.queue,
    limits.correlationKey, ?_, latestId, limits.admission, h.consistent.providerProbe,
    h.consistent.workflowId, h.consistent.workflowActivationId, generation, deferrals.trans generation,
    h.consistent.submittedAt, h.consistent.availableAt, h.consistent.terminalAt,
    h.consistent.cancelRequestedAt⟩
  intro id given
  refine latestId id ?_
  have current := h.current
  rw [show task.currentAttemptId = some id from given] at current
  split at current
  · exact current.symm
  · simp at current

theorem Readable.consistent_status (h : Readable task latest) {charged : Nat}
    (within : charged ≤ 1000) : ¬ (observedStatus task latest).Inconsistent charged := by
  have current : (task.state = .active) = (task.currentAttemptId.isSome = true) := by
    rw [h.current]
    by_cases isActive : task.state = .active
    · cases latest with
      | none =>
        obtain ⟨-, queued | cancelled⟩ := h.unclaimed rfl
        · simp [isActive] at queued
        · simp [isActive] at cancelled
      | some a => simp [isActive]
    · simp [isActive]
  have claimed := h.claimed
  rintro (many | count | active | ⟨isActive, differs⟩ | terminal | ⟨cancelled, absent⟩ |
    ⟨some, other⟩ | ⟨ended, zero⟩)
  · omega
  · refine count (propext ?_)
    simpa [observedStatus] using claimed
  · exact active current
  · refine differs ?_
    have isActive : task.state = .active := isActive
    show task.currentAttemptId = latest.map _
    rw [h.current, if_pos isActive]
  · exact terminal h.consistent.terminal
  · have := h.consistent.cancelled cancelled
    rw [show task.cancelRequestedAt = none from absent] at this
    simp at this
  · exact other (h.consistent.requested some)
  · have ended : task.state = .succeeded ∨ task.state = .failed := ended
    obtain ⟨-, queued | cancelled⟩ := h.unclaimed (claimed.mp zero)
    · simp [queued] at ended
    · simp [cancelled] at ended

theorem Readable.validate_status (h : Readable task latest) :
    (observedStatus task latest).validate = .ok () := by
  have limits := SubmitTask.validate_limits h.consistent.input
  obtain ⟨charged, known, within⟩ := h.charged
  exact h.bounded.validate known (h.consistent_status (within.trans limits.maxAttempts))

theorem Observed.checkRetry (observed : Observed task attempt) {charged : Nat}
    (known : task.chargedAttempts = .ok charged) : checkRetry task attempt = .ok () := by
  have isOpen : RetryOpen task ↔ charged < task.input.retryPolicy.maxAttempts ∧
      task.attemptCount < maxTaskAttemptGeneration := by
    simp [RetryOpen, known]
  unfold Ledgence.checkRetry
  split
  · rename_i state
    obtain ⟨due, ends, queued⟩ := observed.retry state
    cases due with
    | false =>
      have notQueued : task.state ≠ .queued := fun q => by simpa using (queued.mp q).1
      simp [ends, retryDue, notQueued, okOr]
    | true =>
      have decided : decide (task.state = .queued) = decide (charged <
          task.input.retryPolicy.maxAttempts ∧ task.attemptCount < maxTaskAttemptGeneration) := by
        rw [decide_eq_decide, queued, isOpen]
        simp
      simp [ends, retryDue, known, okOr, decided]
  · rfl

theorem Observed.checkSettlement (observed : Observed task attempt) :
    checkSettlement task attempt = .ok () := by
  simp only [Ledgence.checkSettlement, ifSome_eq_ok, bind_eq_ok, exists_unit, ok_of_mapError,
    refuse_eq_ok]
  intro accepted given
  have accepts := observed.accepts accepted given
  refine ⟨accepts.valid, ?_⟩
  rintro (owner | taskId | attemptId | operationId | ⟨quiet, loud⟩ | ⟨claims, unstarted⟩)
  · exact owner accepts.owner
  · exact taskId accepts.taskId
  · exact attemptId accepts.attemptId
  · exact operationId accepts.operationId
  · exact loud (accepts.quiet quiet)
  · simp [accepts.started claims] at unstarted

theorem Observed.not_latestCorrupt (observed : Observed task attempt) :
    ¬ LatestCorrupt task attempt := by
  rintro (generation | active | unfinished | ⟨quiet, unsettled, undenied, other⟩ |
    ⟨lost, quiet, ungoverned⟩ | ⟨ended, differs⟩ | ⟨queued, other⟩ | ⟨cancelled, other⟩)
  · exact generation observed.latest
  · exact active (propext observed.active)
  · exact unfinished (propext observed.unfinished.symm)
  · obtain settled | denied | governed := observed.quiet quiet
    · simp [unsettled] at settled
    · simp [undenied] at denied
    · exact other governed
  · have governed := observed.lost lost quiet
    simp [ungoverned] at governed
  · exact differs (observed.ended ended)
  · exact other (observed.ended_state queued)
  · exact other (observed.cancelled cancelled)

theorem Observed.not_denialCorrupt (observed : Observed task attempt) :
    ¬ DenialCorrupt task attempt := by
  rintro ⟨denied, wrong⟩
  obtain ⟨governed, taskFailed, attemptFailed, unstarted, unsettled⟩ := observed.denial denied
  rw [Option.isSome_iff_ne_none] at governed
  simp [governed, taskFailed, attemptFailed, unstarted, unsettled] at wrong

theorem Readable.checkLatest (h : Readable task (some attempt)) :
    checkLatest task attempt = .ok () := by
  obtain ⟨observed, belongs⟩ := h.observed attempt rfl
  obtain ⟨charged, known, -⟩ := h.charged
  simp only [Ledgence.checkLatest, bind_eq_ok, exists_unit, ok_of_mapError, refuse_eq_ok,
    validateAttempt, not_not]
  refine ⟨⟨h.consistent.lineage, belongs⟩, observed.not_denialCorrupt, observed.not_latestCorrupt,
    ?_, observed.checkRetry known, observed.checkSettlement⟩
  rintro ⟨isActive, quiet⟩
  simp [observed.loud (observed.active.mpr isActive)] at quiet

theorem Readable.taskStatus_eq (h : Readable task latest) :
    taskStatus task latest = .ok (observedStatus task latest) := by
  refine taskStatus_eq_ok.mpr ⟨h.consistent.lineage, h.validate_status, ?_, rfl⟩
  rintro attempt rfl
  exact h.checkLatest

/- Outcomes. -/

theorem Accepts.size_le {accepted : AcceptedSettlement} (h : Accepts task attempt accepted) :
    accepted.command.toJson.size ≤ settlementMaxBytes := by
  have valid := h.valid
  simp only [validateReport, bind_eq_ok, exists_unit, refuse_eq_ok, not_lt] at valid
  obtain ⟨-, -, -, -, size⟩ := valid
  rwa [canonicalJsonBytes, show utf8Len accepted.command.toJson.sortObjects.text =
    accepted.command.toJson.sortObjects.size from rfl, Json.size_sortObjects] at size

theorem Accepts.output {accepted : AcceptedSettlement} (h : Accepts task attempt accepted)
    (belongs : Belongs task attempt) {report : ExecutionReport} {output : Value}
    (reported : accepted.command.report = .completed report)
    (outcome : report.outcome = .success output) :
    validateTaskOutput output.json task.workflowActivationId.isSome = .ok () := by
  have valid := h.valid
  simp only [validateReport, bind_eq_ok, exists_unit, refuse_eq_ok, reported, validateReportOutput,
    outcome, AttemptReport.context, not_or, not_not] at valid
  obtain ⟨-, -, fits, ⟨identity, -⟩, -⟩ := valid
  have activation : task.workflowActivationId = report.context.identity.activationId := by
    rw [identity]
    exact belongs.2.2.2.2.2.2.2.2.2.2.2.1.symm
  rwa [activation]

theorem observedOutput_eq_some {output : Value} (h : observedOutput attempt = some output) :
    ∃ accepted report, attempt.settlement = some accepted ∧
      accepted.command.report = .completed report ∧ report.outcome = .success output := by
  unfold observedOutput AttemptSnapshot.report at h
  split at h
  · rename_i report _ given
    obtain ⟨accepted, settled, reported⟩ := Option.map_eq_some_iff.mp given
    split at h
    · rename_i out outcome
      obtain rfl := Option.some.inj h
      exact ⟨accepted, report, settled, reported, outcome⟩
    · simp at h
  · simp at h

theorem observedFailure_cases {due : Bool} (ends : retryable task attempt = some due)
    (exhausted : attempt.state = .deferred → task.attemptCount = maxTaskAttemptGeneration) :
    (∃ accepted failure, attempt.settlement = some accepted ∧
      observedFailure task attempt = some failure ∧
      failure.toJson.size ≤ accepted.command.report.toJson.size + 40 ∧
      ((∃ error, failure = .application error) ∧ accepted.command.report.claimsExecution = true ∨
        ∃ error phase cleanup, failure = .execution error phase cleanup)) ∨
    (∃ reason, attempt.budgetDenial = some reason ∧
      observedFailure task attempt = some (.budgetDenied reason)) ∨
    (attempt.state = .deferred ∧ task.input.admission.isSome = true ∧
      observedFailure task attempt = some .admissionGenerationExhausted) ∨
    (attempt.state = .lost ∧ observedFailure task attempt = some .attemptLost) := by
  unfold retryable at ends
  split at ends
  case h_1 failed none =>
    split at ends
    · rename_i denied
      obtain ⟨reason, given⟩ := Option.isSome_iff_exists.mp denied
      exact .inr (.inl ⟨reason, given, by simp [observedFailure, failed, none, given]⟩)
    · simp at ends
  case h_2 lost none => exact .inr (.inr (.inr ⟨lost, by simp [observedFailure, lost, none]⟩))
  case h_3 deferred none =>
    split at ends
    · rename_i governed
      simp only [Bool.and_eq_true] at governed
      exact .inr (.inr (.inl ⟨deferred, governed.1, by
        simp [observedFailure, deferred, none, governed.1, exhausted deferred]⟩))
    · simp at ends
  case h_4 report failed given =>
    obtain ⟨accepted, settled, reported⟩ := Option.map_eq_some_iff.mp given
    exact .inl ⟨accepted, _, settled, by simp only [observedFailure, failed, given],
      TaskFailure.execution_size_le reported, .inr ⟨_, _, _, rfl⟩⟩
  case h_5 report failed given =>
    obtain ⟨accepted, settled, reported⟩ := Option.map_eq_some_iff.mp given
    split at ends
    · rename_i kind message outcome
      exact .inl ⟨accepted, .application ⟨kind, message⟩, settled,
        by simp only [observedFailure, failed, given, outcome],
        TaskFailure.application_size_le reported outcome,
        .inl ⟨⟨_, rfl⟩, by rw [reported]; rfl⟩⟩
    · simp at ends
  case h_6 => simp at ends

theorem Readable.exists_latest (h : Readable task latest)
    (ended : task.state = .succeeded ∨ task.state = .failed) : ∃ a, latest = some a := by
  cases latest with
  | some a => exact ⟨a, rfl⟩
  | none =>
    obtain ⟨-, queued | cancelled⟩ := h.unclaimed rfl
    · simp [queued] at ended
    · simp [cancelled] at ended

theorem Readable.succeeded (h : Readable task latest) (state : task.state = .succeeded) :
    ∃ outcome, observedOutcome task latest = .ok (some outcome) ∧
      Presentable (observedStatus task latest) (some outcome) := by
  obtain ⟨a, rfl⟩ := h.exists_latest (.inl state)
  obtain ⟨observed, belongs⟩ := h.observed a rfl
  obtain ⟨output, found⟩ := observed.succeeded state
  obtain ⟨accepted, report, settled, reported, success⟩ := observedOutput_eq_some found
  have accepts := observed.accepts accepted settled
  have started := accepts.started (by rw [reported]; rfl)
  refine ⟨_, by simp [observedOutcome, state, okOr, found]; rfl, ?_, ?_⟩
  · have output := accepts.output belongs reported success
    have isSucceeded : (observedStatus task (some a)).state = .succeeded := state
    have latestId : (observedStatus task (some a)).latestAttemptId =
      some a.lease.owner.attemptId := rfl
    have activation : (observedStatus task (some a)).workflowActivationId =
      task.workflowActivationId := rfl
    simp [TaskResult.validateOutcome, isSucceeded, latestId, started, activation, output]
  · rintro o ⟨⟩
    rw [← accepts.owner]
    exact (TaskOutcome.succeeded_size_le reported success).trans accepts.size_le

theorem Readable.failed (h : Readable task latest) (state : task.state = .failed) :
    ∃ outcome, observedOutcome task latest = .ok (some outcome) ∧
      Presentable (observedStatus task latest) (some outcome) := by
  obtain ⟨a, rfl⟩ := h.exists_latest (.inr state)
  obtain ⟨observed, belongs⟩ := h.observed a rfl
  obtain ⟨due, ends, -⟩ := observed.retry (.inr state)
  have presentable : ∀ failure, observedFailure task a = some failure →
      TaskResult.unfounded (observedStatus task (some a)) a.quiescence
        a.executionMayHaveStarted failure = false →
      (TaskOutcome.failed a.lease.owner.attemptId a.quiescence a.executionMayHaveStarted
        failure).toJson.size ≤ settlementMaxBytes →
      ∃ outcome, observedOutcome task (some a) = .ok (some outcome) ∧
        Presentable (observedStatus task (some a)) (some outcome) := by
    intro failure found founded small
    have isFailed : (observedStatus task (some a)).state = .failed := state
    have latestId : (observedStatus task (some a)).latestAttemptId =
      some a.lease.owner.attemptId := rfl
    refine ⟨_, by simp [observedOutcome, state, okOr, found]; rfl, ?_, ?_⟩
    · simp [TaskResult.validateOutcome, isFailed, latestId, founded]
    · rintro o ⟨⟩
      exact small
  have isGoverned : task.input.admission.isSome = true →
      (observedStatus task (some a)).admission.isNone = false := by
    intro governed
    simpa [observedStatus, ← Option.not_isSome] using governed
  have size : ∀ failure, (TaskOutcome.failed a.lease.owner.attemptId a.quiescence
      a.executionMayHaveStarted failure).toJson.size ≤
        Json.size (.str a.lease.owner.attemptId) + failure.toJson.size + 110 :=
    TaskOutcome.failed_size
  have short : ∀ failure : TaskFailure, failure.toJson.size ≤ 60 →
      (TaskOutcome.failed a.lease.owner.attemptId a.quiescence a.executionMayHaveStarted
        failure).toJson.size ≤ settlementMaxBytes := by
    intro failure small
    have whole := size failure
    have id := observed.attemptId.size_le
    simp only [settlementMaxBytes]
    omega
  obtain ⟨accepted, failure, settled, found, fits, kind⟩ | ⟨reason, denied, found⟩ |
    ⟨deferred, governed, found⟩ | ⟨lost, found⟩ :=
      observedFailure_cases ends (observed.exhausted state)
  · have accepts := observed.accepts accepted settled
    refine presentable failure found ?_ ?_
    · obtain ⟨⟨error, rfl⟩, claims⟩ | ⟨error, phase, cleanup, rfl⟩ := kind
      · simp [TaskResult.unfounded, accepts.started claims]
      · rfl
    · have whole := size failure
      have command := size_command_ge accepted.command
      have limit := accepts.size_le
      rw [accepts.owner] at command
      omega
  · obtain ⟨governed, -, -, unstarted, -⟩ := observed.denial (by simp [denied])
    exact presentable _ found (by simp [TaskResult.unfounded, isGoverned governed, unstarted])
      (short _ (TaskFailure.unreported_size_le reason).2.2)
  · obtain ⟨deferrals, unstarted⟩ := h.deferred a rfl deferred
    have last : (observedStatus task (some a)).attemptCount = maxTaskAttemptGeneration :=
      observed.exhausted state deferred
    have counted : (observedStatus task (some a)).admissionDeferrals ≠ 0 := deferrals
    exact presentable _ found
      (by simp [TaskResult.unfounded, isGoverned governed, unstarted, last, counted])
      (short _ (TaskFailure.unreported_size_le .cancelled).2.1)
  · refine presentable _ found ?_ (short _ (TaskFailure.unreported_size_le .cancelled).1)
    cases quiet : a.quiescence with
    | unconfirmed => simp [TaskResult.unfounded]
    | confirmed =>
      simp [TaskResult.unfounded, isGoverned (observed.lost lost quiet)]

/-- Readable records have a result, and an outcome exactly once the task has ended. -/
theorem Readable.taskResult_eq (h : Readable task latest) :
    ∃ outcome, taskResult task latest = .ok ⟨observedStatus task latest, outcome⟩ ∧
      (outcome = none ↔ task.state = .queued ∨ task.state = .active) := by
  obtain ⟨outcome, found, presentable, pending⟩ : ∃ outcome,
      observedOutcome task latest = .ok outcome ∧
        Presentable (observedStatus task latest) outcome ∧
        (outcome = none ↔ task.state = .queued ∨ task.state = .active) := by
    have same : (observedStatus task latest).state = task.state := rfl
    cases state : task.state with
    | queued | active =>
      refine ⟨none, by simp [observedOutcome, state], ⟨?_, by simp⟩, by simp⟩
      simp [TaskResult.validateOutcome, same, state]
    | cancelled =>
      refine ⟨some .cancelled, by simp [observedOutcome, state], ⟨?_, ?_⟩, by simp⟩
      · simp [TaskResult.validateOutcome, same, state]
      · rintro o ⟨⟩
        decide
    | succeeded =>
      obtain ⟨outcome, found, presentable⟩ := h.succeeded state
      exact ⟨some outcome, found, presentable, by simp⟩
    | failed =>
      obtain ⟨outcome, found, presentable⟩ := h.failed state
      exact ⟨some outcome, found, presentable, by simp⟩
  exact ⟨outcome, taskResult_eq_ok.mpr ⟨h.taskStatus_eq, found, h.validate_status, presentable⟩,
    pending⟩

end Reading
end Ledgence
