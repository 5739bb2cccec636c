import Ledgence.Core.Reading
import Ledgence.Runs.TaskRun

/-! An ended task stays as it ended, and so does what is read of it. -/
open Kit Kit.Checked

namespace Ledgence

structure DeniedLoud (task : TaskSnapshot) (attempt : AttemptSnapshot) : Prop where
  denial : attempt.budgetDenial.isSome = true
  taskFailed : task.state = .failed
  attemptFailed : attempt.state = .failed
  unsettled : attempt.settlement = none
  loud : attempt.quiescence = .unconfirmed

section Ended
variable {task task' : TaskSnapshot} {attempt attempt' : AttemptSnapshot} {now : Nat}
  {events : List HistoryEvent}

theorem Move.of_terminal (terminal : task.state.isTerminal = true)
    (move : Move task attempt now task' attempt' events) :
    task' = task ∧ (attempt' = attempt ∨
      DeniedLoud task attempt ∧ attempt' = confirmedAttempt attempt) := by
  have idle : ¬ Running task attempt := fun running => by
    simp [running.not_terminal] at terminal
  cases move with
  | same => exact ⟨rfl, .inl rfl⟩
  | denialConfirmed denial taskFailed attemptFailed unsettled unstarted atEnd loud =>
    exact ⟨rfl, .inr ⟨⟨denial, taskFailed, attemptFailed, unsettled, loud⟩, rfl⟩⟩
  | withdrawn queued => simp [queued, TaskState.isTerminal] at terminal
  | renewed session command sessionOpen isLive => exact absurd isLive.running idle
  | reported command acceptable isLive => exact absurd isLive.running idle
  | started isLive => exact absurd isLive.running idle
  | denied reason isLive => exact absurd isLive.running idle
  | closed running => exact absurd running idle
  | cancelRequested running => exact absurd running idle
  | deferralCancelled quiescence running => exact absurd running idle
  | deferred quiescence running => exact absurd running idle

theorem DeniedLoud.checkLatest (h : DeniedLoud task attempt)
    (before : checkLatest task attempt = .ok ()) :
    checkLatest task (confirmedAttempt attempt) = .ok () := by
  simp only [Ledgence.checkLatest, bind_eq_ok, exists_unit, ok_of_mapError, refuse_eq_ok] at before ⊢
  obtain ⟨belongs, denial, latest, -, retry, -⟩ := before
  refine ⟨belongs, denial, ?_, ?_, retry, ?_⟩
  · intro corrupt
    apply latest
    obtain generation | active | unfinished | ⟨-, -, undenied, -⟩ | ⟨lost, -⟩ | rest := corrupt
    · exact .inl generation
    · exact .inr (.inl active)
    · exact .inr (.inr (.inl unfinished))
    · have : attempt.budgetDenial = none := undenied
      simpa [this] using h.denial
    · have : attempt.state = .lost := lost
      simp [h.attemptFailed] at this
    · exact .inr (.inr (.inr (.inr (.inr rest))))
  · simp [h.taskFailed]
  · simp [checkSettlement, confirmedAttempt, h.unsettled, ifSome]

theorem size_confirmed_le {attemptId : String} {started : Bool} {failure : TaskFailure} :
    (TaskOutcome.failed attemptId .confirmed started failure).toJson.size ≤
      (TaskOutcome.failed attemptId .unconfirmed started failure).toJson.size := by
  have confirmed : Json.size (.str Quiescence.confirmed.name) = 11 := by decide
  have unconfirmed : Json.size (.str Quiescence.unconfirmed.name) = 13 := by decide
  simp only [TaskOutcome.toJson, Json.size_object, List.map_cons, List.map_nil, List.sum_cons,
    List.sum_nil, Json.fieldSize_some, confirmed, unconfirmed]
  omega

theorem DeniedLoud.taskResult (h : DeniedLoud task attempt) {result : TaskResult}
    (before : taskResult task (some attempt) = .ok result) :
    ∃ reason, result.outcome = some (.failed attempt.id .unconfirmed
        attempt.executionMayHaveStarted (.budgetDenied reason)) ∧
      taskResult task (some (confirmedAttempt attempt)) = .ok ⟨result.task, some (.failed attempt.id
        .confirmed attempt.executionMayHaveStarted (.budgetDenied reason))⟩ := by
  obtain ⟨reason, denied⟩ := Option.isSome_iff_exists.mp h.denial
  have failure : observedFailure task attempt = some (.budgetDenied reason) := by
    simp [observedFailure, h.attemptFailed, AttemptSnapshot.report, h.unsettled, denied]
  have failure' : observedFailure task (confirmedAttempt attempt) = some (.budgetDenied reason) :=
    failure
  obtain ⟨read, observed, valid, checked, small⟩ := taskResult_eq_ok.mp before
  obtain ⟨lineage, status, latest, isStatus⟩ := taskStatus_eq_ok.mp read
  have outcome : result.outcome = some (.failed attempt.id .unconfirmed
      attempt.executionMayHaveStarted (.budgetDenied reason)) := by
    simpa [observedOutcome, h.taskFailed, okOr, failure, h.loud, AttemptSnapshot.id]
      using observed.symm
  refine ⟨reason, outcome, taskResult_eq_ok.mpr ⟨?_, ?_, valid, ?_, ?_⟩⟩
  · refine taskStatus_eq_ok.mpr ⟨lineage, status, ?_, isStatus⟩
    rintro a ⟨⟩
    exact h.checkLatest (latest attempt rfl)
  · simp only [observedOutcome, h.taskFailed, okOr, failure', ok_bind]
    rfl
  · rw [outcome] at checked
    exact checked
  · rintro o ⟨⟩
    exact size_confirmed_le.trans (small _ outcome)

end Ended

namespace TaskRun

def Final (s t : TaskRun) : Prop :=
  t.task = s.task ∧ (t.attempts.getLast? = s.attempts.getLast? ∨
    ∃ a, s.attempts.getLast? = some a ∧ DeniedLoud s.task a ∧
      t.attempts.getLast? = some (confirmedAttempt a))

section Final
variable {s t u : TaskRun} {now : Nat}

theorem Step.final (sound : Sound s) (terminal : s.task.state.isTerminal = true)
    (step : Step s now t) : Final s t := by
  cases step with
  | same => exact ⟨rfl, .inl rfl⟩
  | claimed ids session command registered claimable =>
    simp [claimable.queued, TaskState.isTerminal] at terminal
  | withdrawn queued => simp [queued, TaskState.isTerminal] at terminal
  | moved attempt attempt' mem task' events move =>
    obtain ⟨rfl, rfl | ⟨denied, rfl⟩⟩ := move.of_terminal terminal
    · exact ⟨rfl, .inl (by rw [Table.put_self sound.unique mem])⟩
    · refine ⟨rfl, ?_⟩
      cases last : (Table.put AttemptSnapshot.id (confirmedAttempt attempt)
          s.attempts).getLast? with
      | none =>
        rw [List.getLast?_eq_none_iff, Table.put, List.map_eq_nil_iff] at last
        simp [last] at mem
      | some b =>
        obtain ⟨a, latest, ⟨same, rfl⟩ | ⟨-, rfl⟩⟩ := Table.getLast?_put last
        · obtain rfl := Table.eq_of_key sound.unique (List.mem_of_getLast? latest) mem same
          exact .inr ⟨a, latest, denied, rfl⟩
        · exact .inl latest.symm

theorem Final.trans (first : Final s t) (second : Final t u) : Final s u := by
  obtain ⟨sameTask, latest⟩ := first
  obtain ⟨sameTask', latest'⟩ := second
  refine ⟨sameTask'.trans sameTask, ?_⟩
  obtain same | ⟨a, last, denied, confirmed⟩ := latest
  · rw [same, sameTask] at latest'
    exact latest'
  · refine .inr ⟨a, last, denied, ?_⟩
    obtain same' | ⟨b, last', denied', -⟩ := latest'
    · rw [same', confirmed]
    · -- cleanup that is confirmed cannot be confirmed again
      rw [confirmed] at last'
      obtain rfl := Option.some.inj last'
      exact absurd denied'.loud (by simp [confirmedAttempt])

theorem run_final (sound : Sound s) (terminal : s.task.state.isTerminal = true)
    {ops : List TimedOp} (runs : run s ops = .ok t) : Final s t := by
  refine (run_invariant (P := fun u => Final s u) ?_ sound runs ⟨rfl, .inl rfl⟩).2
  intro u now v _ sound step final
  exact final.trans (step.final sound (final.1 ▸ terminal))

/-- Once a task has ended, every operation fails or returns the task as it is, whatever attempt,
owner, command and time it is given, and the result read of the task stays the same but for the
one late confirmation of a denied attempt's cleanup. -/
theorem terminal_is_final (reachable : Reachable s) (terminal : s.task.state.isTerminal = true) :
    (∀ op attempt now w, AttemptOp.decide op s.task attempt now = .ok w → w.task = s.task) ∧
    (∀ ops t, run s ops = .ok t → t.task = s.task ∧
      (∀ timed u, t.apply timed = .ok u → u.task = s.task) ∧
      ∀ result, taskResult s.task s.attempts.getLast? = .ok result →
        ∃ later, taskResult t.task t.attempts.getLast? = .ok later ∧ later.task = result.task ∧
          (later.outcome = result.outcome ∨ ∃ attemptId started reason,
            result.outcome = some (.failed attemptId .unconfirmed started (.budgetDenied reason)) ∧
            later.outcome = some (.failed attemptId .confirmed started (.budgetDenied reason)))) := by
  constructor
  · intro op attempt now w decided
    have coherent : Coherent s.task attempt := fun isActive => by
      simp [isActive, TaskState.isTerminal] at terminal
    exact ((decide_moves coherent decided).of_terminal terminal).1
  · intro ops t runs
    obtain ⟨sameTask, latest⟩ := run_final reachable.sound terminal runs
    refine ⟨sameTask, ?_, ?_⟩
    · intro timed u applied
      have step := apply_step (reachable.run runs).sound applied
      exact (step.final (reachable.run runs).sound (sameTask ▸ terminal)).1.trans sameTask
    · intro result read
      rw [sameTask]
      obtain same | ⟨a, last, denied, confirmed⟩ := latest
      · exact ⟨result, by rw [same, read], rfl, .inl rfl⟩
      · rw [last] at read
        obtain ⟨reason, before, after⟩ := denied.taskResult read
        rw [confirmed]
        exact ⟨_, after, rfl, .inr ⟨_, _, _, before, rfl⟩⟩

/-- A denied task whose cleanup was confirmed late. -/
theorem denied_is_final :
    ∃ s t, sampleRun (some ⟨"gpu"⟩) [sampleClaim "1" 2000, ⟨.onAttempt "attempt-1"
        (.denyTaskAdmission (sampleOwner "1" 1) .callsExhausted), 2500⟩] = .ok s ∧
      run s [⟨.onAttempt "attempt-1" (.confirmDeniedTaskQuiescence (sampleOwner "1" 1)), 9000⟩] =
        .ok t ∧ t.task = s.task := by
  have ends : ((sampleRun (some ⟨"gpu"⟩) [sampleClaim "1" 2000, ⟨.onAttempt "attempt-1"
      (.denyTaskAdmission (sampleOwner "1" 1) .callsExhausted), 2500⟩]).map
        fun s => (s.task.state.isTerminal, (run s [⟨.onAttempt "attempt-1"
          (.confirmDeniedTaskQuiescence (sampleOwner "1" 1)), 9000⟩]).isOk)) = .ok (true, true) := by
    decide +kernel
  obtain ⟨s, runs, told⟩ := map_eq_ok.mp ends
  simp only [Prod.mk.injEq] at told
  obtain ⟨t, continues⟩ := exists_of_isOk told.2
  have final := terminal_is_final (sampleRun_reachable runs) told.1
  exact ⟨s, t, runs, continues, (final.2 _ t continues).1⟩

end Final
end TaskRun
end Ledgence
