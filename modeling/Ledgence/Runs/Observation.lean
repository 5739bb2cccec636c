import Ledgence.Runs.TaskRun
import Ledgence.Core.Reading

/-! Deferrals give attempts back, and the retry budget is never exceeded. -/
open Kit Kit.Checked

namespace Ledgence

def AttemptSnapshot.isDeferred (attempt : AttemptSnapshot) : Bool :=
  attempt.state == .deferred

section Moves
variable {task task' : TaskSnapshot} {attempt attempt' : AttemptSnapshot} {now : Nat}
  {events : List HistoryEvent}

theorem Running.not_deferred (running : Running task attempt) : attempt.isDeferred = false := by
  simp [AttemptSnapshot.isDeferred, running.attemptActive]

theorem Move.deferrals (h : Move task attempt now task' attempt' events) :
    (task'.admissionDeferrals = task.admissionDeferrals ∧
      attempt'.isDeferred = attempt.isDeferred) ∨
    (task'.admissionDeferrals = task.admissionDeferrals + 1 ∧ attempt.isDeferred = false ∧
      attempt'.isDeferred = true) := by
  cases h with
  | same | renewed | reported | withdrawn | cancelRequested | started | denialConfirmed =>
    exact .inl ⟨rfl, rfl⟩
  | @closed running task₁ attempt₁ _ closing retry scheduled =>
    have after : (finishedAttempt task₁ attempt₁ now).isDeferred = false := by
      simpa [AttemptSnapshot.isDeferred, finishedAttempt] using finishState_ne_deferred
    refine .inl ⟨?_, after.trans running.not_deferred.symm⟩
    cases closing <;> rfl
  | denied reason isLive => exact .inl ⟨rfl, isLive.running.not_deferred.symm⟩
  | deferralCancelled quiescence running => exact .inl ⟨rfl, running.not_deferred.symm⟩
  | deferred quiescence running governed unstarted unsettled fresh inRange given =>
    refine .inr ⟨?_, running.not_deferred, rfl⟩
    obtain ⟨-, -, ⟨-, rfl⟩ | ⟨-, -, rfl⟩⟩ := deferredTask_eq_ok given
    · rfl
    · rfl

/-- An attempt that ends up deferred was deferred before, or had not started. -/
theorem Move.deferred_unstarted (h : Move task attempt now task' attempt' events)
    (isDeferred : attempt'.state = .deferred) :
    attempt' = attempt ∨
      attempt'.executionMayHaveStarted = false ∧ task.input.admission.isSome = true := by
  by_cases ended : attempt.state = .active
  · cases h with
    | same | withdrawn => exact .inl rfl
    | renewed | reported | cancelRequested | started | denialConfirmed =>
      exact absurd (isDeferred.symm.trans ended) (by simp)
    | closed running closing retry scheduled => exact absurd isDeferred finishState_ne_deferred
    | denied => simp [deniedAttempt] at isDeferred
    | deferralCancelled => simp [closedPreparation] at isDeferred
    | deferred quiescence running governed unstarted => exact .inr ⟨unstarted, governed⟩
  · obtain same | ⟨rfl, -, -, -, failed, -⟩ := h.of_ended ended
    · exact .inl same
    · exact absurd (isDeferred.symm.trans failed) (by simp)

end Moves

namespace TaskRun

structure Budgeted (s : TaskRun) : Prop where
  counted : s.task.admissionDeferrals = s.attempts.countP AttemptSnapshot.isDeferred
  unstarted : ∀ a ∈ s.attempts, a.state = .deferred →
    a.executionMayHaveStarted = false ∧ s.task.input.admission.isSome = true
  generation : s.task.attemptCount ≤ maxTaskAttemptGeneration
  charged : s.task.attemptCount - s.task.admissionDeferrals ≤ s.task.input.retryPolicy.maxAttempts

variable {s t : TaskRun} {now : Nat}

theorem Sound.length (sound : Sound s) : s.attempts.length = s.task.attemptCount := by
  have := congrArg List.length sound.generations
  simpa using this

theorem Budgeted.deferrals_le (budgeted : Budgeted s) (sound : Sound s) :
    s.task.admissionDeferrals ≤ s.task.attemptCount := by
  rw [budgeted.counted, ← sound.length]
  exact List.countP_le_length

theorem Budgeted.chargedAttempts (budgeted : Budgeted s) (sound : Sound s) :
    s.task.chargedAttempts = .ok (s.task.attemptCount - s.task.admissionDeferrals) := by
  refine taskRetryAttempts_eq_ok.mpr ⟨budgeted.generation, ?_, budgeted.deferrals_le sound, rfl⟩
  intro ungoverned
  rw [budgeted.counted, List.countP_eq_zero]
  intro a ha isDeferred
  have := (budgeted.unstarted a ha (by simpa [AttemptSnapshot.isDeferred] using isDeferred)).2
  simp [ungoverned] at this

theorem Budgeted.claimed (sound : Sound s) (budgeted : Budgeted s) {ids : AttemptIds}
    {session : WorkerSession} {command : AcquireCommand}
    (claimable : Claimable s.task ids command now) (log : List HistoryEvent) :
    Budgeted ⟨newTask s.task ids,
      s.attempts ++ [newAttempt s.task ids session command.consumerId now], log⟩ := by
  have newActive : (newAttempt s.task ids session command.consumerId now).isDeferred = false := rfl
  constructor
  case counted =>
    rw [List.countP_append, List.countP_singleton, newActive]
    exact budgeted.counted
  case unstarted =>
    intro a ha isDeferred
    obtain ha | ha := List.mem_append.mp ha
    · exact budgeted.unstarted a ha isDeferred
    · obtain rfl := List.mem_singleton.mp ha
      exact absurd isDeferred (by simpa [AttemptSnapshot.isDeferred] using newActive)
  case generation => exact claimable.generation
  case charged =>
    obtain ⟨charged, known, below⟩ := claimable.budget
    rw [budgeted.chargedAttempts sound, Except.ok.injEq] at known
    have := budgeted.deferrals_le sound
    show s.task.attemptCount + 1 - s.task.admissionDeferrals ≤
      s.task.input.retryPolicy.maxAttempts
    omega

theorem Budgeted.moved (sound : Sound s) (budgeted : Budgeted s)
    {attempt attempt' : AttemptSnapshot} (mem : attempt ∈ s.attempts) {task' : TaskSnapshot}
    {events : List HistoryEvent} (move : Move s.task attempt now task' attempt' events)
    (log : List HistoryEvent) :
    Budgeted ⟨task', Table.put AttemptSnapshot.id attempt' s.attempts, log⟩ := by
  obtain ⟨sameTask, count⟩ := move.same_task
  have sameId : attempt.id = attempt'.id := by
    simp [AttemptSnapshot.id, move.same_attempt.owner]
  have counts := Table.countP_put sound.unique mem sameId AttemptSnapshot.isDeferred
  have counted := budgeted.counted
  have charged := budgeted.charged
  constructor
  case counted =>
    obtain ⟨deferrals, same⟩ | ⟨deferrals, before, after⟩ := move.deferrals
    · rw [same] at counts
      show task'.admissionDeferrals =
        (Table.put AttemptSnapshot.id attempt' s.attempts).countP AttemptSnapshot.isDeferred
      omega
    · rw [before, after] at counts
      simp only [Bool.false_eq_true, if_false, if_true] at counts
      show task'.admissionDeferrals =
        (Table.put AttemptSnapshot.id attempt' s.attempts).countP AttemptSnapshot.isDeferred
      omega
  case unstarted =>
    intro a ha isDeferred
    rw [sameTask.input]
    obtain rfl | ⟨ha, -⟩ := Table.mem_put ha
    · obtain rfl | unstarted := move.deferred_unstarted isDeferred
      · exact budgeted.unstarted _ mem isDeferred
      · exact unstarted
    · exact budgeted.unstarted a ha isDeferred
  case generation => exact count.le.trans budgeted.generation
  case charged =>
    show task'.attemptCount - task'.admissionDeferrals ≤ task'.input.retryPolicy.maxAttempts
    rw [sameTask.input, count]
    obtain ⟨deferrals, -⟩ | ⟨deferrals, -, -⟩ := move.deferrals
    · omega
    · omega

theorem budgeted_step (s : TaskRun) (now : Nat) (t : TaskRun) (sound : Sound s)
    (h : Step s now t) (budgeted : Budgeted s) : Budgeted t := by
  cases h with
  | same => exact budgeted
  | withdrawn => exact ⟨budgeted.counted, budgeted.unstarted, budgeted.generation, budgeted.charged⟩
  | claimed ids session command registered claimable fresh =>
    exact budgeted.claimed sound claimable _
  | moved attempt attempt' mem task' events move => exact budgeted.moved sound mem move _

theorem Reachable.budgeted (reachable : Reachable s) : Budgeted s := by
  refine (reachable.invariant ?_ budgeted_step).2
  intro command descriptor taskId runId at' r lineage submits
  obtain ⟨-, -, -, -, rfl⟩ := submit_eq_ok submits
  exact ⟨rfl, by simp [submitted], Nat.zero_le _, Nat.zero_le _⟩

/-- An attempt counts against the budget when it started or may still start. -/
theorem Budgeted.started_le (budgeted : Budgeted s) (sound : Sound s) :
    s.attempts.countP AttemptSnapshot.executionMayHaveStarted ≤
      s.task.attemptCount - s.task.admissionDeferrals := by
  have exclusive : ∀ a ∈ s.attempts, a.executionMayHaveStarted = true →
      (!a.isDeferred) = true := by
    intro a ha started
    by_contra isDeferred
    have unstarted := (budgeted.unstarted a ha
      (by simpa [AttemptSnapshot.isDeferred] using isDeferred)).1
    simp [unstarted] at started
  have atMost := List.countP_mono_left exclusive
  have split := List.length_eq_countP_add_countP AttemptSnapshot.isDeferred (l := s.attempts)
  have counted := budgeted.counted
  have length := sound.length
  have complement : s.attempts.countP (fun a => decide ¬ a.isDeferred = true) =
      s.attempts.countP fun a => !a.isDeferred := by
    congr 1
    funext a
    cases a.isDeferred <;> rfl
  omega

/-- The retry budget bounds charged and started attempts in every state a task can reach. -/
theorem retry_budget_bounds_attempts (reachable : Reachable s) :
    s.attempts.map AttemptSnapshot.generation = List.range' 1 s.task.attemptCount ∧
      s.attempts.countP (fun a => a.state == .active) ≤ 1 ∧
      s.task.admissionDeferrals ≤ s.task.attemptCount ∧
      s.task.chargedAttempts = .ok (s.task.attemptCount - s.task.admissionDeferrals) ∧
      s.task.attemptCount - s.task.admissionDeferrals ≤ s.task.input.retryPolicy.maxAttempts ∧
      s.attempts.countP AttemptSnapshot.executionMayHaveStarted ≤
        s.task.input.retryPolicy.maxAttempts ∧
      ∀ a ∈ s.attempts, a.state = .deferred → a.executionMayHaveStarted = false := by
  have sound := reachable.sound
  have budgeted := reachable.budgeted
  refine ⟨sound.generations, ?_, budgeted.deferrals_le sound, budgeted.chargedAttempts sound,
    budgeted.charged, (budgeted.started_le sound).trans budgeted.charged,
    fun a ha isDeferred => (budgeted.unstarted a ha isDeferred).1⟩
  refine Table.countP_le_one (k := s.task.currentAttemptId.getD "") sound.unique ?_
  intro a ha isActive
  have current := (sound.active a ha).mp (by simpa using isActive)
  rw [current, Option.getD_some]

/-- Two claims, the first of them expired. -/
theorem retry_budget_after_expiry :
    ∃ s, sampleRun none [sampleClaim "1" 2000, ⟨.onAttempt "attempt-1" .expire, 70000⟩,
        sampleClaim "2" 80000] = .ok s ∧
      s.attempts.map AttemptSnapshot.generation = List.range' 1 s.task.attemptCount ∧
      s.attempts.countP AttemptSnapshot.executionMayHaveStarted ≤
        s.task.input.retryPolicy.maxAttempts := by
  obtain ⟨s, runs⟩ := exists_of_isOk (x := sampleRun none [sampleClaim "1" 2000,
    ⟨.onAttempt "attempt-1" .expire, 70000⟩, sampleClaim "2" 80000]) (by decide +kernel)
  have bounds := retry_budget_bounds_attempts (sampleRun_reachable runs)
  exact ⟨s, runs, bounds.1, bounds.2.2.2.2.2.1⟩

end TaskRun
end Ledgence

/-! Every task that starts with a submission can be read back, in every state it reaches. -/

namespace Ledgence
namespace TaskRun

def latest (s : TaskRun) : Option AttemptSnapshot :=
  s.attempts.getLast?

structure Legible (s : TaskRun) : Prop where
  consistent : Consistent s.task
  observed : ∀ a, s.latest = some a → Observed s.task a
  unclaimed : s.attempts = [] → s.task.state = .queued ∨ s.task.state = .cancelled

section Legible
variable {s t : TaskRun} {now : Nat}

theorem latest_mem {a : AttemptSnapshot} (h : s.latest = some a) : a ∈ s.attempts :=
  List.mem_of_getLast? h

theorem Legible.running (legible : Legible s) (sound : Sound s) {a b : AttemptSnapshot}
    (latest : s.latest = some a) (mem : b ∈ s.attempts) (running : Running s.task b) : b = a := by
  have isActive := (legible.observed a latest).active.mpr running.taskActive
  have current := (sound.active a (latest_mem latest)).mp isActive
  refine Table.eq_of_key sound.unique mem (latest_mem latest) ?_
  rw [running.current] at current
  exact Option.some.inj current

theorem Legible.claim (legible : Legible s) {ids : AttemptIds} {session : WorkerSession}
    {command : AcquireCommand} (claimable : Claimable s.task ids command now)
    (log : List HistoryEvent) :
    Legible ⟨newTask s.task ids,
      s.attempts ++ [newAttempt s.task ids session command.consumerId now], log⟩ := by
  have h := legible.consistent
  have unfinished := h.unfinished (by simp [claimable.queued, TaskState.isTerminal])
  refine ⟨⟨h.input, h.taskId, h.runId, h.providerProbe, h.parentWorkflowId, h.rootWorkflowId,
    h.workflowId, h.workflowActivationId, h.submittedAt, h.availableAt, h.terminalAt,
    h.cancelRequestedAt, ?_, ?_, fun _ => .inl rfl⟩, ?_, by simp⟩
  · show TaskState.isTerminal .active = s.task.terminalAt.isSome
    rw [unfinished]
    rfl
  · exact fun state => absurd state (by simp [newTask, claimedTask])
  · intro a last
    simp only [latest, List.getLast?_append, List.getLast?_singleton, Option.some_or,
      Option.some.injEq] at last
    subst last
    exact newAttempt_observed claimable.attemptId

theorem Legible.withdraw (legible : Legible s) (queued : s.task.state = .queued)
    (inRange : now ≤ maxTimestamp) (log : List HistoryEvent) :
    Legible ⟨cancelledTask s.task now, s.attempts, log⟩ := by
  refine ⟨?_, fun a last => (legible.observed a last).withdrawn queued, fun _ => .inr rfl⟩
  exact legible.consistent.ended ⟨rfl, rfl, rfl, rfl, rfl, rfl, rfl, rfl, rfl, rfl⟩
    legible.consistent.availableAt inRange (.inr rfl) (.inr ⟨rfl, rfl, fun _ => rfl, fun _ => rfl⟩)

theorem Budgeted.known (budgeted : Budgeted s) (sound : Sound s) :
    ∃ charged, s.task.chargedAttempts = .ok charged ∧
      charged ≤ s.task.input.retryPolicy.maxAttempts :=
  ⟨_, budgeted.chargedAttempts sound, budgeted.charged⟩

/-- A decision on an attempt that is not the latest leaves the latest as it was. -/
theorem Legible.other (legible : Legible s) (sound : Sound s) {a b b' : AttemptSnapshot}
    (latest : s.latest = some a) (mem : b ∈ s.attempts) (other : b ≠ a) {task' : TaskSnapshot}
    {events : List HistoryEvent} (move : Move s.task b now task' b' events) :
    Observed task' a := by
  have observed := legible.observed a latest
  have idle : ¬ Running s.task b := fun running => other (legible.running sound latest mem running)
  cases move with
  | same => exact observed
  | withdrawn queued => exact observed.withdrawn queued
  | denialConfirmed => exact observed
  | renewed session command sessionOpen isLive => exact absurd isLive.running idle
  | reported command acceptable isLive => exact absurd isLive.running idle
  | started isLive => exact absurd isLive.running idle
  | denied reason isLive => exact absurd isLive.running idle
  | closed running => exact absurd running idle
  | cancelRequested running => exact absurd running idle
  | deferralCancelled quiescence running => exact absurd running idle
  | deferred quiescence running => exact absurd running idle

theorem Legible.moved (legible : Legible s) (sound : Sound s) (budgeted : Budgeted s)
    {attempt attempt' : AttemptSnapshot} (mem : attempt ∈ s.attempts) {task' : TaskSnapshot}
    {events : List HistoryEvent} (inRange : now ≤ maxTimestamp)
    (move : Move s.task attempt now task' attempt' events) (log : List HistoryEvent) :
    Legible ⟨task', Table.put AttemptSnapshot.id attempt' s.attempts, log⟩ := by
  have sameId : attempt.id = attempt'.id := by
    simp [AttemptSnapshot.id, move.same_attempt.owner]
  refine ⟨legible.consistent.moved inRange move, ?_, ?_⟩
  · intro b last
    obtain ⟨a, latest, ⟨same, rfl⟩ | ⟨differs, rfl⟩⟩ := Table.getLast?_put last
    · obtain rfl := Table.eq_of_key sound.unique (latest_mem latest) mem (same.trans sameId.symm)
      exact (legible.observed a latest).moved (budgeted.known sound) move
    · refine legible.other sound latest mem ?_ move
      rintro rfl
      exact differs sameId
  · intro empty
    simp only [Table.put, List.map_eq_nil_iff] at empty
    simp [empty] at mem

theorem Legible.readable (legible : Legible s) (sound : Sound s) (budgeted : Budgeted s) :
    Readable s.task s.latest := by
  refine ⟨legible.consistent, budgeted.known sound, ?_, ?_, ?_, ?_⟩
  · exact fun a latest => ⟨legible.observed a latest, sound.belongs a (latest_mem latest)⟩
  · intro none
    have empty := List.getLast?_eq_none_iff.mp none
    refine ⟨?_, legible.unclaimed empty⟩
    rw [← sound.length, empty]
    rfl
  · split
    · rename_i isActive
      obtain ⟨b, mem, current, -⟩ := sound.busy isActive
      cases latest : s.latest with
      | none =>
        rw [List.getLast?_eq_none_iff.mp latest] at mem
        simp at mem
      | some a =>
        have running : a.state = .active := (legible.observed a latest).active.mpr isActive
        exact (sound.active a (latest_mem latest)).mp running
    · rename_i inactive
      exact sound.idle inactive
  · intro a latest isDeferred
    have mem := latest_mem latest
    refine ⟨?_, (budgeted.unstarted a mem isDeferred).1⟩
    rw [budgeted.counted]
    have : 0 < s.attempts.countP AttemptSnapshot.isDeferred :=
      List.countP_pos_iff.mpr ⟨a, mem, by simp [AttemptSnapshot.isDeferred, isDeferred]⟩
    omega

theorem submitted_legible {command : SubmitCommand} {descriptor : ProgramDescriptor}
    {taskId runId : String} {at' : Nat} {r : Transition Unit}
    (h : submit command descriptor taskId runId at' = .ok r) :
    Legible (submitted r .none) := by
  obtain ⟨input, taskText, runText, inRange, rfl⟩ := submit_eq_ok h
  exact ⟨⟨input, taskText, runText, rfl, rfl, rfl, rfl, rfl, inRange, inRange, by
    simp [submitted, Lineage.on, submittedTask], by simp [submitted, Lineage.on, submittedTask],
    rfl, by simp [submitted, Lineage.on, submittedTask],
    by simp [submitted, Lineage.on, submittedTask]⟩, by simp [latest, submitted], fun _ => .inl rfl⟩

theorem step_legible (sound : Sound s) (budgeted : Budgeted s) (inRange : now ≤ maxTimestamp)
    (step : Step s now t) (legible : Legible s) : Legible t := by
  cases step with
  | same => exact legible
  | claimed ids session command registered claimable fresh => exact legible.claim claimable _
  | withdrawn queued fresh unowned => exact legible.withdraw queued inRange _
  | moved attempt attempt' mem task' events move =>
    exact legible.moved sound budgeted mem inRange move _

/-- Every task that was submitted and then driven by accepted transitions, at times of the
RFC 3339 range, has a status and a result, and an outcome exactly when it has ended. -/
theorem read_model_agrees {command : SubmitCommand} {descriptor : ProgramDescriptor}
    {taskId runId : String} {at' : Nat} {r : Transition Unit} {ops : List TimedOp}
    (submits : submit command descriptor taskId runId at' = .ok r)
    (inRange : ∀ timed ∈ ops, timed.now ≤ maxTimestamp)
    (runs : run (submitted r .none) ops = .ok s) :
    (∃ status, taskStatus s.task s.latest = .ok status) ∧
      ∃ result, taskResult s.task s.latest = .ok result ∧
        (result.outcome = none ↔ s.task.state = .queued ∨ s.task.state = .active) := by
  have start : Budgeted (submitted r .none) :=
    Reachable.budgeted ⟨command, descriptor, taskId, runId, at', r, .none, [], submits, rfl⟩
  obtain ⟨sound, budgeted, legible⟩ : Sound s ∧ Budgeted s ∧ Legible s := by
    refine run_invariant (P := fun u => Budgeted u ∧ Legible u) ?_ (submitted_sound .none submits)
      runs ⟨start, submitted_legible submits⟩
    rintro u now v mem sound step ⟨budgeted, legible⟩
    obtain ⟨timed, memOps, rfl⟩ := List.mem_map.mp mem
    exact ⟨budgeted_step u timed.now v sound step budgeted,
      step_legible sound budgeted (inRange timed memOps) step legible⟩
  have readable := legible.readable sound budgeted
  obtain ⟨outcome, result, pending⟩ := readable.taskResult_eq
  exact ⟨⟨_, readable.taskStatus_eq⟩, _, result, pending⟩

/-- A governed task whose first preparation was deferred and whose second was denied. -/
theorem read_model_after_denial :
    ∃ s, sampleRun (some ⟨"gpu"⟩) [sampleClaim "1" 2000,
        ⟨.onAttempt "attempt-1" (.deferTaskAdmission (sampleOwner "1" 1) .confirmed), 3000⟩,
        sampleClaim "2" 9000,
        ⟨.onAttempt "attempt-2" (.denyTaskAdmission (sampleOwner "2" 2) .callsExhausted), 9500⟩] =
          .ok s ∧
      ∃ result, taskResult s.task s.latest = .ok result ∧
        (result.outcome = none ↔ s.task.state = .queued ∨ s.task.state = .active) := by
  obtain ⟨s, runs⟩ := exists_of_isOk (x := sampleRun (some ⟨"gpu"⟩) [sampleClaim "1" 2000,
    ⟨.onAttempt "attempt-1" (.deferTaskAdmission (sampleOwner "1" 1) .confirmed), 3000⟩,
    sampleClaim "2" 9000,
    ⟨.onAttempt "attempt-2" (.denyTaskAdmission (sampleOwner "2" 2) .callsExhausted), 9500⟩])
    (by decide +kernel)
  refine ⟨s, runs, ?_⟩
  simp only [sampleRun, bind_eq_ok] at runs
  obtain ⟨r, submits, runs⟩ := runs
  exact (read_model_agrees submits (by simp [sampleClaim, maxTimestamp]) runs).2

end Legible
end TaskRun
end Ledgence
