import Ledgence.Core.Moves
import Ledgence.Core.Observation

/-! What every accepted decision keeps between a task and its latest attempt, so that both can
be read back. -/
open Kit Kit.Checked

namespace Ledgence

structure Consistent (task : TaskSnapshot) : Prop where
  input : task.input.validate = .ok ()
  taskId : ValidText 128 task.taskId
  runId : ValidText 128 task.runId
  providerProbe : task.providerProbe = none
  parentWorkflowId : task.parentWorkflowId = none
  rootWorkflowId : task.rootWorkflowId = none
  workflowId : task.workflowId = none
  workflowActivationId : task.workflowActivationId = none
  submittedAt : task.submittedAt ≤ maxTimestamp
  availableAt : task.availableAt ≤ maxTimestamp
  terminalAt : ∀ t, task.terminalAt = some t → t ≤ maxTimestamp
  cancelRequestedAt : ∀ t, task.cancelRequestedAt = some t → t ≤ maxTimestamp
  terminal : task.state.isTerminal = task.terminalAt.isSome
  cancelled : task.state = .cancelled → task.cancelRequestedAt.isSome = true
  requested : task.cancelRequestedAt.isSome = true → task.state = .active ∨ task.state = .cancelled

structure Accepts (task : TaskSnapshot) (attempt : AttemptSnapshot)
    (accepted : AcceptedSettlement) : Prop where
  valid : validateReport attempt accepted.command = .ok ()
  owner : accepted.command.owner = attempt.lease.owner
  taskId : accepted.receipt.taskId = task.taskId
  attemptId : accepted.receipt.attemptId = attempt.lease.owner.attemptId
  operationId : accepted.receipt.operationId = accepted.command.operationId
  quiet : accepted.command.quiescence = .confirmed → attempt.quiescence = .confirmed
  started : accepted.command.report.claimsExecution = true →
    attempt.executionMayHaveStarted = true

def RetryOpen (task : TaskSnapshot) : Prop :=
  ∃ charged, task.chargedAttempts = .ok charged ∧
    charged < task.input.retryPolicy.maxAttempts ∧ task.attemptCount < maxTaskAttemptGeneration

def QuietReason (task : TaskSnapshot) (attempt : AttemptSnapshot) : Prop :=
  attempt.settlement.isSome = true ∨ attempt.budgetDenial.isSome = true ∨
    task.input.admission.isSome = true ∧ (attempt.state = .deferred ∨ attempt.state = .lost ∨
      attempt.state = .cancelled)

structure Observed (task : TaskSnapshot) (attempt : AttemptSnapshot) : Prop where
  attemptId : ValidText 128 attempt.lease.owner.attemptId
  latest : attempt.lease.owner.generation = task.attemptCount
  active : attempt.state = .active ↔ task.state = .active
  unfinished : attempt.finishedAt = none ↔ attempt.state = .active
  loud : attempt.state = .active → attempt.quiescence = .unconfirmed
  accepts : ∀ accepted, attempt.settlement = some accepted → Accepts task attempt accepted
  denial : attempt.budgetDenial.isSome = true → task.input.admission.isSome = true ∧
    task.state = .failed ∧ attempt.state = .failed ∧ attempt.executionMayHaveStarted = false ∧
    attempt.settlement = none
  quiet : attempt.quiescence = .confirmed → QuietReason task attempt
  lost : attempt.state = .lost → attempt.quiescence = .confirmed →
    task.input.admission.isSome = true
  ended : task.state = .succeeded ∨ task.state = .failed → task.terminalAt = attempt.finishedAt
  cancelled : task.state = .cancelled → attempt.state = .cancelled ∨ attempt.state = .failed ∨
    attempt.state = .lost ∨ attempt.state = .deferred
  succeeded : task.state = .succeeded → ∃ output, observedOutput attempt = some output
  retry : task.state = .queued ∨ task.state = .failed → ∃ due, retryable task attempt = some due ∧
    (task.state = .queued ↔ due = true ∧ RetryOpen task)
  exhausted : task.state = .failed → attempt.state = .deferred →
    task.attemptCount = maxTaskAttemptGeneration

section Finish
variable {task : TaskSnapshot} {attempt : AttemptSnapshot} {now : Nat} {retry : Option Nat}

theorem retryAt_eq_ok {due : Bool} (h : retryAt task due now = .ok retry) :
    (retry.isSome = true ↔ due = true ∧ RetryOpen task) ∧ ∀ t, retry = some t → t ≤ maxTimestamp := by
  unfold retryAt at h
  split at h
  · rename_i may
    simp only [bind_eq_ok] at h
    obtain ⟨charged, known, h⟩ := h
    split at h
    · rename_i below
      simp only [bind_eq_ok, addTime_eq_ok, pure_eq_ok] at h
      obtain ⟨_, ⟨inRange, rfl⟩, rfl⟩ := h
      refine ⟨⟨fun _ => ⟨may.1, charged, known, below, may.2⟩, fun _ => rfl⟩, ?_⟩
      rintro t ⟨⟩
      exact inRange
    · rename_i spent
      obtain rfl := by simpa using h
      refine ⟨⟨by simp, ?_⟩, by simp⟩
      rintro ⟨-, charged', known', below, -⟩
      rw [known, Except.ok.injEq] at known'
      omega
  · rename_i mayNot
    obtain rfl := by simpa using h
    refine ⟨⟨by simp, ?_⟩, by simp⟩
    rintro ⟨isDue, charged, -, -, generation⟩
    exact absurd ⟨isDue, generation⟩ mayNot

theorem finishedTask_state (task : TaskSnapshot) (attempt : AttemptSnapshot)
    (retry : Option Nat) (now : Nat) : (finishedTask task attempt retry now).state =
      (finishOutcome task (finishState task attempt).1 retry).1 := rfl

theorem finishedTask_terminalAt (task : TaskSnapshot) (attempt : AttemptSnapshot)
    (retry : Option Nat) (now : Nat) : (finishedTask task attempt retry now).terminalAt =
      if (finishedTask task attempt retry now).state.isTerminal then some now
        else task.terminalAt := rfl

inductive FinishedAs (task : TaskSnapshot) (attempt : AttemptSnapshot) (task' : TaskSnapshot)
    (attempt' : AttemptSnapshot) : Prop where
  | cancelled (requested : task.cancelRequestedAt.isSome = true) (state : task'.state = .cancelled)
      (ended : attempt'.state = if attempt.quiescence = .confirmed then .cancelled else .lost)
  | succeeded (fresh : task.cancelRequestedAt = none) (state : task'.state = .succeeded)
      (ended : attempt'.state = .succeeded) (settled : attempt.settlement.isSome = true)
      (output : Value) (observed : observedOutput attempt' = some output)
  | failed (fresh : task.cancelRequestedAt = none)
      (ended : attempt'.state = .failed ∧ attempt.settlement.isSome = true ∨
        attempt'.state = .lost ∧ attempt.settlement = none)
      (due : Bool) (observed : retryable task' attempt' = some due)
      (state : task'.state = .queued ∧ due = true ∧ RetryOpen task ∨
        task'.state = .failed ∧ ¬ (due = true ∧ RetryOpen task))

/-- A failure leads back to the queue exactly when a retry was scheduled. -/
theorem failed_state {due : Bool} (fresh : task.cancelRequestedAt = none)
    (ends : finishState task attempt = (.failed, due) ∨ finishState task attempt = (.lost, due))
    (scheduled : retryAt task (finishState task attempt).2 now = .ok retry) :
    (finishedTask task attempt retry now).state = .queued ∧ due = true ∧ RetryOpen task ∨
      (finishedTask task attempt retry now).state = .failed ∧ ¬ (due = true ∧ RetryOpen task) := by
  have isDue : (finishState task attempt).2 = due := by
    obtain h | h := ends
    · rw [h]
    · rw [h]
  have notSucceeded : (finishState task attempt).1 ≠ .succeeded := by
    obtain h | h := ends
    · simp [h]
    · simp [h]
  rw [isDue] at scheduled
  have retried := (retryAt_eq_ok scheduled).1
  rw [finishedTask_state]
  simp only [finishOutcome, fresh, Option.isSome_none, Bool.false_eq_true, if_false, notSucceeded]
  split
  · rename_i some
    exact .inl ⟨rfl, retried.mp some⟩
  · rename_i none
    exact .inr ⟨rfl, fun due => none (retried.mpr due)⟩

theorem finished_as (scheduled : retryAt task (finishState task attempt).2 now = .ok retry) :
    FinishedAs task attempt (finishedTask task attempt retry now)
      (finishedAttempt task attempt now) := by
  have outcome := finishedTask_state task attempt retry now
  have ended : (finishedAttempt task attempt now).state = (finishState task attempt).1 := rfl
  have report : (finishedAttempt task attempt now).report = attempt.report := rfl
  cases hc : task.cancelRequestedAt with
  | some t =>
    refine .cancelled (by simp [hc]) ?_ ?_
    · simp [outcome, finishOutcome, hc]
    · simp [ended, finishState, hc]
  | none =>
    cases hr : attempt.settlement with
    | none =>
      have none : attempt.report = none := by simp [AttemptSnapshot.report, hr]
      have ending : finishState task attempt = (.lost, true) := by simp [finishState, hc, hr]
      have lost : (finishedAttempt task attempt now).state = .lost := by rw [ended, ending]
      exact .failed hc (.inr ⟨lost, hr⟩) true (by simp [retryable, lost, report, none])
        (failed_state hc (.inr ending) scheduled)
    | some accepted =>
      have settled : attempt.settlement.isSome = true := by simp [hr]
      have given : attempt.report = some accepted.command.report := by
        simp [AttemptSnapshot.report, hr]
      rw [given] at report
      cases hk : accepted.command.report with
      | failed failure =>
        rw [hk] at report
        have ending : finishState task attempt = (.failed, retryableFailure failure.error.kind) := by
          simp [finishState, hc, hr, hk]
        have failed : (finishedAttempt task attempt now).state = .failed := by rw [ended, ending]
        exact .failed hc (.inl ⟨failed, settled⟩) _ (by simp [retryable, failed, report])
          (failed_state hc (.inl ending) scheduled)
      | completed completed =>
        rw [hk] at report
        cases ho : completed.outcome with
        | success output =>
          have ending : finishState task attempt = (.succeeded, false) := by
            simp [finishState, hc, hr, hk, ho]
          refine .succeeded hc ?_ (by rw [ended, ending]) settled output ?_
          · simp [outcome, finishOutcome, hc, ending]
          · simp [observedOutput, ended, ending, report, ho]
        | failure kind message =>
          have ending : finishState task attempt = (.failed, false) := by
            simp [finishState, hc, hr, hk, ho]
          have failed : (finishedAttempt task attempt now).state = .failed := by
            rw [ended, ending]
          exact .failed hc (.inl ⟨failed, settled⟩) false (by simp [retryable, failed, report, ho])
            (failed_state hc (.inl ending) scheduled)

end Finish

section Observed
variable {task task' : TaskSnapshot} {attempt attempt' : AttemptSnapshot} {now : Nat}
  {events : List HistoryEvent}

theorem validateReport_same {command : SettleCommand} (event : attempt'.event = attempt.event)
    (descriptor : attempt'.descriptor = attempt.descriptor) :
    validateReport attempt' command = validateReport attempt command := by
  simp only [validateReport, event, descriptor]

/-- An accepted report stays accepted while the attempt only gains marks. -/
theorem Accepts.keep {accepted : AcceptedSettlement} (h : Accepts task attempt accepted)
    (taskId : task'.taskId = task.taskId) (same : SameAttempt attempt attempt')
    (quiet : attempt.quiescence = .confirmed → attempt'.quiescence = .confirmed)
    (started : attempt.executionMayHaveStarted = true → attempt'.executionMayHaveStarted = true) :
    Accepts task' attempt' accepted where
  valid := by rw [validateReport_same same.event same.descriptor, h.valid]
  owner := by rw [h.owner, same.owner]
  taskId := by rw [h.taskId, taskId]
  attemptId := by rw [h.attemptId, same.owner]
  operationId := h.operationId
  quiet := fun q => quiet (h.quiet q)
  started := fun c => started (h.started c)

theorem Acceptable.accepts {command : SettleCommand} (h : Acceptable task attempt command)
    (belongs : attempt.lease.owner.attemptId = command.owner.attemptId) :
    Accepts task (reportedAttempt task attempt command now)
      ⟨command, settlementReceipt task command now⟩ where
  valid := h.valid
  owner := h.owner.symm
  taskId := rfl
  attemptId := belongs.symm
  operationId := rfl
  quiet := fun q => q
  started := fun c => by simp [reportedAttempt, c]

structure Closable (task : TaskSnapshot) (attempt : AttemptSnapshot) : Prop where
  attemptId : ValidText 128 attempt.lease.owner.attemptId
  latest : attempt.lease.owner.generation = task.attemptCount
  accepts : ∀ accepted, attempt.settlement = some accepted → Accepts task attempt accepted
  undenied : attempt.budgetDenial = none
  quiet : attempt.quiescence = .confirmed →
    attempt.settlement.isSome = true ∨ task.input.admission.isSome = true

theorem Closable.finished (h : Closable task attempt) {retry : Option Nat}
    (scheduled : retryAt task (finishState task attempt).2 now = .ok retry) :
    Observed (finishedTask task attempt retry now) (finishedAttempt task attempt now) := by
  have ended := finished_as scheduled
  have open' : RetryOpen (finishedTask task attempt retry now) ↔ RetryOpen task := Iff.rfl
  have notActive : (finishedAttempt task attempt now).state ≠ .active := finishState_ne_active
  have taskNotActive : (finishedTask task attempt retry now).state ≠ .active :=
    finishOutcome_ne_active
  have undenied : (finishedAttempt task attempt now).budgetDenial = none := h.undenied
  have quiescence : (finishedAttempt task attempt now).quiescence = attempt.quiescence := rfl
  constructor
  case attemptId => exact h.attemptId
  case latest => exact h.latest
  case active => exact ⟨fun a => absurd a notActive, fun a => absurd a taskNotActive⟩
  case unfinished => exact ⟨by simp [finishedAttempt], fun a => absurd a notActive⟩
  case loud => exact fun a => absurd a notActive
  case accepts =>
    exact fun accepted given => (h.accepts accepted given).keep rfl ⟨rfl, rfl, rfl, rfl⟩ id id
  case denial => simp [undenied]
  case quiet =>
    intro isQuiet
    obtain some | governed := h.quiet isQuiet
    · exact .inl some
    · cases ended with
      | cancelled requested state ended =>
        rw [← quiescence, if_pos isQuiet] at ended
        exact .inr (.inr ⟨governed, .inr (.inr ended)⟩)
      | succeeded fresh state ended some => exact .inl some
      | failed fresh ended =>
        obtain ⟨-, some⟩ | ⟨lost, -⟩ := ended
        · exact .inl some
        · exact .inr (.inr ⟨governed, .inr (.inl lost)⟩)
  case lost =>
    intro isLost isQuiet
    obtain some | governed := h.quiet isQuiet
    · cases ended with
      | cancelled requested state ended =>
        rw [← quiescence, if_pos isQuiet, isLost] at ended
        simp at ended
      | succeeded fresh state ended => simp [isLost] at ended
      | failed fresh ended =>
        obtain ⟨failed, -⟩ | ⟨-, none⟩ := ended
        · simp [isLost] at failed
        · simp [none] at some
    · exact governed
  case ended =>
    intro state
    have isTerminal : (finishedTask task attempt retry now).state.isTerminal = true := by
      obtain state | state := state
      · rw [state]
        rfl
      · rw [state]
        rfl
    rw [finishedTask_terminalAt, if_pos isTerminal]
    rfl
  case cancelled =>
    intro isCancelled
    cases ended with
    | cancelled requested state ended =>
      split at ended
      · exact .inl ended
      · exact .inr (.inr (.inl ended))
    | succeeded fresh state => simp [state] at isCancelled
    | failed fresh ended due observed state =>
      obtain ⟨state, -⟩ | ⟨state, -⟩ := state <;> simp [state] at isCancelled
  case succeeded =>
    intro isSucceeded
    cases ended with
    | cancelled requested state => simp [state] at isSucceeded
    | succeeded fresh state ended some output observed => exact ⟨output, observed⟩
    | failed fresh ended due observed state =>
      obtain ⟨state, -⟩ | ⟨state, -⟩ := state <;> simp [state] at isSucceeded
  case retry =>
    intro state
    cases ended with
    | cancelled requested is => simp [is] at state
    | succeeded fresh is => simp [is] at state
    | failed fresh ended due observed is =>
      refine ⟨due, observed, ?_⟩
      rw [open']
      obtain ⟨is, due⟩ | ⟨is, notDue⟩ := is
      · simp [is, due]
      · simp only [is, reduceCtorEq, false_iff]
        exact notDue
  case exhausted =>
    intro _ isDeferred
    exact absurd isDeferred finishState_ne_deferred

theorem Observed.undenied (observed : Observed task attempt) (running : Running task attempt) :
    attempt.budgetDenial = none := by
  cases h : attempt.budgetDenial with
  | none => rfl
  | some reason =>
    obtain ⟨-, -, failed, -⟩ := observed.denial (by simp [h])
    simp [running.attemptActive] at failed

theorem Observed.closable (observed : Observed task attempt) (running : Running task attempt)
    {task₁ : TaskSnapshot} {attempt₁ : AttemptSnapshot}
    (closing : Closing task attempt now task₁ attempt₁ events) : Closable task₁ attempt₁ := by
  have undenied := observed.undenied running
  have loud := observed.loud running.attemptActive
  cases closing with
  | reported command acceptable isLive first quiet =>
    refine ⟨observed.attemptId, observed.latest, ?_, undenied, fun _ => .inl rfl⟩
    rintro accepted ⟨⟩
    exact acceptable.accepts (by rw [acceptable.owner])
  | confirmed isLive settled =>
    exact ⟨observed.attemptId, observed.latest, fun accepted given =>
      (observed.accepts accepted given).keep rfl ⟨rfl, rfl, rfl, rfl⟩ (fun _ => rfl) id, undenied,
      fun _ => .inl settled⟩
  | expired past =>
    exact ⟨observed.attemptId, observed.latest, observed.accepts, undenied,
      fun isQuiet => by simp [loud] at isQuiet⟩
  | cancelled past fresh inRange =>
    exact ⟨observed.attemptId, observed.latest, fun accepted given =>
      (observed.accepts accepted given).keep rfl .refl id id, undenied,
      fun isQuiet => by simp [loud] at isQuiet⟩
  | stopped governed started unsettled =>
    exact ⟨observed.attemptId, observed.latest, fun accepted given => by
      simp [confirmedAttempt, unsettled] at given, undenied, fun _ => .inr governed⟩

theorem Observed.running (observed : Observed task attempt) (running : Running task attempt)
    (count : task'.attemptCount = task.attemptCount)
    (same : SameAttempt attempt attempt') (taskActive : task'.state = .active)
    (attemptActive : attempt'.state = .active) (unfinished : attempt'.finishedAt = attempt.finishedAt)
    (loud : attempt'.quiescence = .unconfirmed)
    (undenied : attempt'.budgetDenial = attempt.budgetDenial)
    (accepts : ∀ accepted, attempt'.settlement = some accepted → Accepts task' attempt' accepted) :
    Observed task' attempt' where
  attemptId := by
    rw [same.owner]
    exact observed.attemptId
  latest := by rw [same.owner, observed.latest, count]
  active := by simp [taskActive, attemptActive]
  unfinished := by
    rw [unfinished, observed.unfinished]
    simp [running.attemptActive, attemptActive]
  loud := fun _ => loud
  accepts := accepts
  denial := by simp [undenied, observed.undenied running]
  quiet := by simp [loud]
  lost := by simp [loud]
  ended := by simp [taskActive]
  cancelled := by simp [taskActive]
  succeeded := by simp [taskActive]
  retry := by simp [taskActive]
  exhausted := by simp [taskActive]

theorem Observed.ended_state (observed : Observed task attempt) (queued : task.state = .queued) :
    attempt.state = .failed ∨ attempt.state = .lost ∨ attempt.state = .deferred := by
  obtain ⟨due, observed, -⟩ := observed.retry (.inl queued)
  unfold retryable at observed
  split at observed
  all_goals simp_all

theorem Observed.withdrawn (observed : Observed task attempt) (queued : task.state = .queued) :
    Observed (cancelledTask task now) attempt := by
  have notActive : attempt.state ≠ .active := by
    rw [ne_eq, observed.active, queued]
    simp
  constructor
  case attemptId => exact observed.attemptId
  case latest => exact observed.latest
  case active => simp [notActive, cancelledTask]
  case unfinished => exact observed.unfinished
  case loud => exact observed.loud
  case accepts =>
    exact fun accepted given => (observed.accepts accepted given).keep rfl .refl id id
  case denial =>
    intro denied
    obtain ⟨-, failed, -⟩ := observed.denial denied
    simp [queued] at failed
  case quiet => exact observed.quiet
  case lost => exact observed.lost
  case ended => simp [cancelledTask]
  case cancelled => exact fun _ => .inr (observed.ended_state queued)
  case succeeded => simp [cancelledTask]
  case retry => simp [cancelledTask]
  case exhausted => simp [cancelledTask]

theorem Observed.denied (observed : Observed task attempt) (reason : RunBudgetDenial)
    (governed : task.input.admission.isSome = true)
    (unsettled : attempt.settlement = none) (unstarted : attempt.executionMayHaveStarted = false) :
    Observed (deniedTask task now) (deniedAttempt attempt reason now) := by
  constructor
  case attemptId => exact observed.attemptId
  case latest => exact observed.latest
  case accepts => simp [deniedAttempt, unsettled]
  case denial => exact fun _ => ⟨governed, rfl, rfl, unstarted, unsettled⟩
  case ended => exact fun _ => rfl
  case retry =>
    refine fun _ => ⟨false, ?_, by simp [deniedTask]⟩
    simp [retryable, deniedAttempt, AttemptSnapshot.report, unsettled]
  all_goals simp [deniedAttempt, deniedTask]

theorem Observed.denialConfirmed (observed : Observed task attempt)
    (denial : attempt.budgetDenial.isSome = true) : Observed task (confirmedAttempt attempt) := by
  obtain ⟨governed, taskFailed, attemptFailed, unstarted, unsettled⟩ := observed.denial denial
  constructor
  case attemptId => exact observed.attemptId
  case latest => exact observed.latest
  case active => exact observed.active
  case unfinished => exact observed.unfinished
  case loud => simp [confirmedAttempt, attemptFailed]
  case accepts => simp [confirmedAttempt, unsettled]
  case denial => exact observed.denial
  case quiet => exact fun _ => .inr (.inl denial)
  case lost => exact fun _ _ => governed
  case ended => exact observed.ended
  case cancelled => simp [taskFailed]
  case succeeded => simp [taskFailed]
  case retry => exact observed.retry
  case exhausted => exact observed.exhausted

theorem Observed.unprepared (observed : Observed task attempt) (running : Running task attempt)
    (governed : task.input.admission.isSome = true)
    (unstarted : attempt.executionMayHaveStarted = false)
    (unsettled : attempt.settlement = none) (quiescence : Quiescence) {state : AttemptState}
    (closed : state = .cancelled ∧ task'.state = .cancelled ∨
      state = .deferred ∧ (task'.state = .queued ∧ RetryOpen task' ∨
        task'.state = .failed ∧ task'.terminalAt = some now ∧
          task'.attemptCount = maxTaskAttemptGeneration))
    (input : task'.input = task.input) (count : task'.attemptCount = task.attemptCount) :
    Observed task' (closedPreparation attempt state quiescence now) := by
  have undenied : (closedPreparation attempt state quiescence now).budgetDenial = none :=
    observed.undenied running
  have governed' : task'.input.admission.isSome = true := by rw [input, governed]
  constructor
  case attemptId => exact observed.attemptId
  case latest => exact observed.latest.trans count.symm
  case active =>
    obtain ⟨rfl, task⟩ | ⟨rfl, ⟨task, -⟩ | ⟨task, -⟩⟩ := closed <;> simp [closedPreparation, task]
  case unfinished =>
    obtain ⟨rfl, -⟩ | ⟨rfl, -⟩ := closed <;> simp [closedPreparation]
  case loud =>
    obtain ⟨rfl, -⟩ | ⟨rfl, -⟩ := closed <;> simp [closedPreparation]
  case accepts => simp [closedPreparation, unsettled]
  case denial => simp [undenied]
  case quiet =>
    obtain ⟨rfl, -⟩ | ⟨rfl, -⟩ := closed
    · exact fun _ => .inr (.inr ⟨governed', .inr (.inr rfl)⟩)
    · exact fun _ => .inr (.inr ⟨governed', .inl rfl⟩)
  case lost => exact fun _ _ => governed'
  case ended =>
    obtain ⟨-, state⟩ | ⟨-, ⟨state, -⟩ | ⟨state, at', -⟩⟩ := closed
    · simp [state]
    · simp [state]
    · exact fun _ => at'
  case cancelled =>
    obtain ⟨rfl, -⟩ | ⟨rfl, -⟩ := closed <;> simp [closedPreparation]
  case succeeded =>
    obtain ⟨-, state⟩ | ⟨-, ⟨state, -⟩ | ⟨state, -⟩⟩ := closed <;> simp [state]
  case retry =>
    obtain ⟨-, state⟩ | ⟨rfl, ends⟩ := closed
    · simp [state]
    · have due : retryable task' (closedPreparation attempt .deferred quiescence now) =
          some true := by
        simp [retryable, closedPreparation, AttemptSnapshot.report, unsettled, unstarted, governed']
      refine fun _ => ⟨true, due, ?_⟩
      obtain ⟨state, open'⟩ | ⟨state, -, last⟩ := ends
      · simp [state, open']
      · have shut : ¬ RetryOpen task' := by
          rintro ⟨charged, -, -, more⟩
          omega
        simp [state, shut]
  case exhausted =>
    obtain ⟨rfl, -⟩ | ⟨rfl, ⟨state, -⟩ | ⟨-, -, last⟩⟩ := closed
    · simp [closedPreparation]
    · simp [state]
    · exact fun _ _ => last

theorem Observed.moved (observed : Observed task attempt)
    (budget : ∃ charged, task.chargedAttempts = .ok charged ∧
      charged ≤ task.input.retryPolicy.maxAttempts)
    (move : Move task attempt now task' attempt' events) : Observed task' attempt' := by
  cases move with
  | same => exact observed
  | renewed session command sessionOpen isLive =>
    refine observed.running isLive.running rfl ⟨rfl, rfl, rfl, rfl⟩ isLive.1 isLive.2.1 rfl
      (observed.loud isLive.2.1) rfl fun accepted given => ?_
    exact (observed.accepts accepted given).keep rfl ⟨rfl, rfl, rfl, rfl⟩ id
      fun started => by simp [renewedAttempt, started]
  | reported command acceptable isLive first loud =>
    refine observed.running isLive.running rfl ⟨rfl, rfl, rfl, rfl⟩ isLive.1 isLive.2.1 rfl loud rfl
      ?_
    rintro accepted ⟨⟩
    exact acceptable.accepts (by rw [acceptable.owner])
  | closed running closing retry scheduled =>
    exact (observed.closable running closing).finished scheduled
  | withdrawn queued => exact observed.withdrawn queued
  | cancelRequested running =>
    exact observed.running running rfl ⟨rfl, rfl, rfl, rfl⟩ running.taskActive
      running.attemptActive rfl (observed.loud running.attemptActive) rfl fun accepted given =>
        (observed.accepts accepted given).keep rfl ⟨rfl, rfl, rfl, rfl⟩ id id
  | started isLive =>
    exact observed.running isLive.running rfl ⟨rfl, rfl, rfl, rfl⟩ isLive.1 isLive.2.1 rfl
      (observed.loud isLive.2.1) rfl fun accepted given =>
        (observed.accepts accepted given).keep rfl ⟨rfl, rfl, rfl, rfl⟩ id fun _ => rfl
  | denied reason isLive governed fresh unsettled unstarted =>
    exact observed.denied reason governed unsettled unstarted
  | denialConfirmed denial => exact observed.denialConfirmed denial
  | deferralCancelled quiescence running governed unstarted unsettled =>
    exact observed.unprepared running governed unstarted unsettled quiescence
      (.inl ⟨rfl, rfl⟩) rfl rfl
  | deferred quiescence running governed unstarted unsettled fresh inRange given =>
    obtain ⟨generation, enough, ⟨last, rfl⟩ | ⟨more, -, rfl⟩⟩ := deferredTask_eq_ok given
    · exact observed.unprepared running governed unstarted unsettled quiescence
        (.inr ⟨rfl, .inr ⟨rfl, rfl, last⟩⟩) rfl rfl
    · -- the deferral gives back the attempt that the claim had charged
      obtain ⟨charged, known, within⟩ := budget
      obtain ⟨-, ungoverned, -, rfl⟩ := taskRetryAttempts_eq_ok.mp known
      have isOpen : RetryOpen (requeuedTask task (task.admissionDeferrals + 1)
          (now + taskAdmissionDeferralBackoffMs)) := by
        refine ⟨task.attemptCount - (task.admissionDeferrals + 1),
          taskRetryAttempts_eq_ok.mpr ⟨generation, ?_, enough, rfl⟩, ?_, ?_⟩
        · intro none
          have : task.input.admission.isSome = false := none
          simp [governed] at this
        · show _ < task.input.retryPolicy.maxAttempts
          omega
        · show task.attemptCount < _
          omega
      exact observed.unprepared running governed unstarted unsettled quiescence
        (.inr ⟨rfl, .inl ⟨rfl, isOpen⟩⟩) rfl rfl

theorem newAttempt_observed {ids : AttemptIds} {session : WorkerSession} {consumerId : Nat}
    (valid : ValidText 128 ids.attemptId) :
    Observed (newTask task ids) (newAttempt task ids session consumerId now) := by
  constructor
  case attemptId => exact valid
  case latest => rfl
  all_goals simp [newTask, newAttempt, claimedTask, claimedAttempt]

/- The task alone. -/

theorem Consistent.unfinished (h : Consistent task) (isOpen : task.state.isTerminal = false) :
    task.terminalAt = none := by
  have := h.terminal
  rw [isOpen] at this
  simpa using this.symm

theorem Consistent.ended (h : Consistent task) (same : SameTask task task')
    (availableAt : task'.availableAt ≤ maxTimestamp)
    (inRange : now ≤ maxTimestamp)
    (requested : task'.cancelRequestedAt = task.cancelRequestedAt ∨
      task'.cancelRequestedAt = some now)
    (state : task'.state = .queued ∧ task'.terminalAt = none ∧ task'.cancelRequestedAt = none ∨
      task'.state.isTerminal = true ∧ task'.terminalAt = some now ∧
        (task'.state = .cancelled ↔ task'.cancelRequestedAt.isSome = true)) :
    Consistent task' where
  input := by rw [same.input, h.input]
  taskId := by
    rw [same.taskId]
    exact h.taskId
  runId := by
    rw [same.runId]
    exact h.runId
  providerProbe := by rw [same.providerProbe, h.providerProbe]
  parentWorkflowId := by rw [same.parentWorkflowId, h.parentWorkflowId]
  rootWorkflowId := by rw [same.rootWorkflowId, h.rootWorkflowId]
  workflowId := by rw [same.workflowId, h.workflowId]
  workflowActivationId := by rw [same.workflowActivationId, h.workflowActivationId]
  submittedAt := by
    rw [same.submittedAt]
    exact h.submittedAt
  availableAt := availableAt
  terminalAt := by
    obtain ⟨-, none, -⟩ | ⟨-, some, -⟩ := state
    · simp [none]
    · rw [some]
      rintro t ⟨⟩
      exact inRange
  cancelRequestedAt := by
    obtain same | now' := requested
    · rw [same]
      exact h.cancelRequestedAt
    · rw [now']
      rintro t ⟨⟩
      exact inRange
  terminal := by
    obtain ⟨queued, none, -⟩ | ⟨isTerminal, some, -⟩ := state
    · rw [queued, none]
      rfl
    · rw [isTerminal, some]
      rfl
  cancelled := by
    obtain ⟨queued, -⟩ | ⟨-, -, cancelled⟩ := state
    · simp [queued]
    · exact cancelled.mp
  requested := by
    obtain ⟨-, -, none⟩ | ⟨-, -, cancelled⟩ := state
    · simp [none]
    · exact fun some => .inr (cancelled.mpr some)

theorem Closing.request {task₁ : TaskSnapshot} {attempt₁ : AttemptSnapshot}
    (closing : Closing task attempt now task₁ attempt₁ events) :
    (task₁.cancelRequestedAt = task.cancelRequestedAt ∨ task₁.cancelRequestedAt = some now) ∧
      task₁.availableAt = task.availableAt ∧ task₁.terminalAt = task.terminalAt := by
  cases closing with
  | cancelled => exact ⟨.inr rfl, rfl, rfl⟩
  | reported | confirmed | expired | stopped => exact ⟨.inl rfl, rfl, rfl⟩

theorem Consistent.closed (h : Consistent task) (running : Running task attempt)
    (inRange : now ≤ maxTimestamp) {task₁ : TaskSnapshot} {attempt₁ : AttemptSnapshot}
    (closing : Closing task attempt now task₁ attempt₁ events) {retry : Option Nat}
    (scheduled : retryAt task₁ (finishState task₁ attempt₁).2 now = .ok retry) :
    Consistent (finishedTask task₁ attempt₁ retry now) := by
  obtain ⟨requested, availableAt, terminalAt⟩ := closing.request
  have move : Move task attempt now _ _ _ := .closed running closing retry scheduled
  have same := move.same_task.1
  have open' : task.terminalAt = none :=
    h.unfinished (by simp [running.taskActive, TaskState.isTerminal])
  have unfinished : (finishedTask task₁ attempt₁ retry now).state = .queued →
      (finishedTask task₁ attempt₁ retry now).terminalAt = none := by
    intro queued
    rw [finishedTask_terminalAt, queued, ← open', ← terminalAt]
    rfl
  have finished : (finishedTask task₁ attempt₁ retry now).state.isTerminal = true →
      (finishedTask task₁ attempt₁ retry now).terminalAt = some now := by
    intro isTerminal
    rw [finishedTask_terminalAt, if_pos isTerminal]
  have available : (finishedTask task₁ attempt₁ retry now).availableAt ≤ maxTimestamp := by
    show (if _ then retry.getD task₁.availableAt else task₁.availableAt) ≤ maxTimestamp
    split
    · cases hr : retry with
      | none => exact availableAt ▸ h.availableAt
      | some t => exact (retryAt_eq_ok scheduled).2 t hr
    · exact availableAt ▸ h.availableAt
  refine h.ended same available inRange requested ?_
  cases finished_as scheduled with
  | cancelled some state =>
    exact .inr ⟨by rw [state]; rfl, finished (by rw [state]; rfl), fun _ => some, fun _ => state⟩
  | succeeded fresh state =>
    refine .inr ⟨by rw [state]; rfl, finished (by rw [state]; rfl), ?_⟩
    have none : (finishedTask task₁ attempt₁ retry now).cancelRequestedAt = none := fresh
    simp [state, none]
  | failed fresh ends due observed state =>
    have none : (finishedTask task₁ attempt₁ retry now).cancelRequestedAt = none := fresh
    obtain ⟨state, -⟩ | ⟨state, -⟩ := state
    · exact .inl ⟨state, unfinished state, fresh⟩
    · refine .inr ⟨by rw [state]; rfl, finished (by rw [state]; rfl), ?_⟩
      simp [state, none]

theorem Consistent.moved (h : Consistent task) (inRange : now ≤ maxTimestamp)
    (move : Move task attempt now task' attempt' events) : Consistent task' := by
  have same := move.same_task.1
  cases move with
  | same | renewed | reported | started | denialConfirmed => exact h
  | closed running closing retry scheduled => exact h.closed running inRange closing scheduled
  | withdrawn queued fresh =>
    exact h.ended same h.availableAt inRange (.inr rfl) (.inr ⟨rfl, rfl, fun _ => rfl, fun _ => rfl⟩)
  | cancelRequested running fresh =>
    have isActive : (cancelRequestedTask task now).state = .active := running.taskActive
    refine ⟨h.input, h.taskId, h.runId, h.providerProbe, h.parentWorkflowId, h.rootWorkflowId,
      h.workflowId, h.workflowActivationId, h.submittedAt, h.availableAt, h.terminalAt, ?_,
      h.terminal, by simp [isActive], fun _ => .inl isActive⟩
    rintro t ⟨⟩
    exact inRange
  | denied reason isLive governed fresh =>
    refine h.ended same h.availableAt inRange (.inl rfl) (.inr ⟨rfl, rfl, ?_⟩)
    simp [deniedTask, fresh]
  | deferralCancelled quiescence running governed unstarted unsettled requested =>
    exact h.ended same h.availableAt inRange (.inl rfl)
      (.inr ⟨rfl, rfl, fun _ => requested, fun _ => rfl⟩)
  | deferred quiescence running governed unstarted unsettled fresh inRange' given =>
    have unfinished := h.unfinished (by simp [running.taskActive, TaskState.isTerminal])
    obtain ⟨-, -, ⟨-, rfl⟩ | ⟨-, available, rfl⟩⟩ := deferredTask_eq_ok given
    · refine h.ended same h.availableAt inRange (.inl rfl) (.inr ⟨rfl, rfl, ?_⟩)
      simp [exhaustedTask, givenBack, fresh]
    · exact h.ended same available inRange (.inl rfl) (.inl ⟨rfl, unfinished, fresh⟩)

end Observed
end Ledgence
