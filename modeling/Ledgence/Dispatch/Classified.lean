import Ledgence.Dispatch.Records
import Ledgence.Runs.Ended
import Ledgence.Runs.Observation
import Ledgence.Runs.Replays

/-! What a delivered generation is told, and that what is settled of it stays settled. -/
open Kit Kit.Checked

namespace Ledgence

def DispatchDecision.Open : DispatchDecision → Prop
  | .ready | .handled (.deferred _) => True
  | .handled _ => False

def TaskSnapshot.Passed (task : TaskSnapshot) (generation : Nat) : Prop :=
  task.state.isTerminal = true ∨ task.cancelRequestedAt.isSome = true ∨
    generation ≤ task.attemptCount

inductive Classified (task : TaskSnapshot) (reference : DispatchRef) (now : Nat) :
    DispatchDecision → Prop
  | superseded (passed : task.Passed reference.generation) :
    Classified task reference now (.handled .terminalOrSuperseded)
  | handedOff (active : task.state = .active) (same : reference.generation = task.attemptCount)
      {id : String} (current : task.currentAttemptId = some id) :
    Classified task reference now (.handled (.alreadyHandedOff ⟨task.taskId, id⟩))
  | deferred (early : now < task.availableAt) (free : ¬ task.Passed reference.generation) :
    Classified task reference now (.handled (.deferred task.availableAt))
  | ready (queued : task.state = .queued) (available : task.availableAt ≤ now)
      (next : reference.generation = task.attemptCount + 1)
      (free : ¬ task.Passed reference.generation) :
    Classified task reference now .ready

section Classified
variable {task : TaskSnapshot} {reference : DispatchRef} {now : Nat} {future : Bool}
  {decision : DispatchDecision}

theorem classifyDispatch_spec (h : classifyDispatch task reference now future = .ok decision) :
    Classified task reference now decision := by
  simp only [classifyDispatch, bind_eq_ok, exists_unit, refuse_eq_ok, okOr_eq_ok, checkedAdd] at h
  obtain ⟨-, -, next, counted, most, h⟩ := h
  obtain ⟨-, counted⟩ := Option.ite_none_right_eq_some.mp counted
  obtain rfl := Option.some.inj counted
  split_ifs at h with ended active current older early
  · cases h
    exact .superseded (ended.imp_right .inl)
  · obtain ⟨-, id, same, h⟩ := by simpa only [bind_eq_ok, exists_unit, okOr_eq_ok] using h
    cases h
    exact .handedOff active current same
  · simp only [bind_eq_ok, exists_unit, refuse_eq_ok] at h
    obtain ⟨issued, h⟩ := h
    cases h
    exact .superseded (.inr (.inr (by omega)))
  · cases h
    exact .superseded (.inr (.inr (by omega)))
  · obtain ⟨-, h⟩ := by simpa only [bind_eq_ok, exists_unit] using h
    cases h
    exact .deferred early fun passed => passed.elim (fun h => ended (.inl h))
      fun rest => rest.elim (fun h => ended (.inr h)) (by omega)
  · cases h
    refine .ready ?_ (by omega) (by omega) fun passed => passed.elim (fun h => ended (.inl h))
      fun rest => rest.elim (fun h => ended (.inr h)) (by omega)
    cases state : task.state <;> simp_all [TaskState.isTerminal]

theorem Classified.open_iff (h : Classified task reference now decision) :
    decision.Open ↔ ¬ task.Passed reference.generation := by
  cases h with
  | superseded passed => exact iff_of_false id (not_not_intro passed)
  | handedOff active same current => exact iff_of_false id (not_not_intro (.inr (.inr same.le)))
  | deferred early free => exact iff_of_true trivial free
  | ready queued available next free => exact iff_of_true trivial free

end Classified

namespace TaskRun

variable {s t : TaskRun} {now generation : Nat}

theorem Sound.has_attempt (sound : Sound s) (positive : 0 < generation) :
    generation ≤ s.task.attemptCount ↔ ∃ a ∈ s.attempts, a.generation = generation := by
  have listed : generation ∈ s.attempts.map AttemptSnapshot.generation ↔
      generation ≤ s.task.attemptCount := by
    rw [sound.generations, List.mem_range'_1]
    omega
  rw [← listed, List.mem_map]

theorem Step.attempts_le (step : Step s now t) : s.attempts.length ≤ t.attempts.length := by
  cases step with
  | same | withdrawn => exact le_rfl
  | claimed => simp
  | moved attempt attempt' mem task' events move => simp [Table.put]

theorem Step.passed (sound : Sound s) (step : Step s now t)
    (passed : s.task.Passed generation) : t.task.Passed generation := by
  obtain ended | cancelled | numbered := passed
  · exact .inl ((step.final sound ended).1 ▸ ended)
  · exact .inr (.inl (step.requested cancelled ▸ cancelled))
  · have more := step.attempts_le
    rw [sound.length, (step_sound sound step).length] at more
    exact .inr (.inr (numbered.trans more))

/-- A generation is ready for the next attempt of a queued task only, and one that is said to be
handed off has the running attempt. A delivery of it can lead to an attempt exactly as long as the
task goes on and the generation has none. So a generation that was settled is settled in every
later state of the task, and an attempt that is claimed settles the generation it was ready for. -/
theorem dispatch_settled_for_good (reachable : Reachable s) {reference : DispatchRef}
    {future : Bool} {decision : DispatchDecision}
    (classified : classifyDispatch s.task reference now future = .ok decision) :
    (decision = .ready → s.task.state = .queued ∧ s.task.availableAt ≤ now ∧
      reference.generation = s.task.attemptCount + 1) ∧
    (∀ attempt, decision = .handled (.alreadyHandedOff attempt) → ∃ a ∈ s.attempts,
      a.id = attempt.attemptId ∧ a.generation = reference.generation ∧ a.state = .active) ∧
    (decision.Open ↔ s.task.state.isTerminal = false ∧ s.task.cancelRequestedAt = none ∧
      ∀ a ∈ s.attempts, a.generation ≠ reference.generation) ∧
    (∀ ops t later future' decision', run s ops = .ok t → ¬ decision.Open →
      classifyDispatch t.task reference later future' = .ok decision' → ¬ decision'.Open) ∧
    ∀ context command t, decision = .ready → s.apply ⟨.acquire context command, now⟩ = .ok t →
      t ≠ s → ∀ ops u later future' decision', run t ops = .ok u →
        classifyDispatch u.task reference later future' = .ok decision' → ¬ decision'.Open := by
  have sound := reachable.sound
  have spec := classifyDispatch_spec classified
  have settled : ∀ {s : TaskRun}, Sound s → s.task.Passed reference.generation → ∀ ops t later
      future' decision', run s ops = .ok t → classifyDispatch t.task reference later future' =
        .ok decision' → ¬ decision'.Open := by
    intro s sound passed ops t later future' decision' runs told
    have kept := (run_invariant (P := fun u => u.task.Passed reference.generation)
      (fun u now v _ sound step => step.passed sound) sound runs passed).2
    rw [(classifyDispatch_spec told).open_iff]
    exact not_not_intro kept
  refine ⟨?_, ?_, ?_, fun ops t later future' decision' runs closed => ?_, ?_⟩
  · rintro rfl
    cases spec with
    | ready queued available next free => exact ⟨queued, available, next⟩
  · rintro attempt rfl
    cases spec with
    | handedOff active same current =>
      obtain ⟨a, mem, mine, number⟩ := sound.busy active
      refine ⟨a, mem, ?_, number.trans same.symm, (sound.active a mem).mpr mine⟩
      exact Option.some.inj (mine.symm.trans current)
  · have positive : 0 < reference.generation := by
      simp only [classifyDispatch, DispatchRef.validate, bind_eq_ok, exists_unit, refuse_eq_ok]
        at classified
      omega
    rw [spec.open_iff, TaskSnapshot.Passed, sound.has_attempt positive]
    simp
  · exact settled sound (not_not.mp (spec.open_iff.not.mp closed)) ops t later future' decision' runs
  · rintro context command t rfl applied changed
    cases spec with
    | ready queued available next free =>
      obtain same | ⟨session, -, -, -, rfl⟩ := apply_acquire applied
      · exact absurd same changed
      · refine settled (step_sound sound (apply_step sound applied)) (.inr (.inr ?_))
        exact next.le

/-- The first generation is delivered again while its attempt runs. -/
theorem dispatch_settled_again :
    ∃ s decision, sampleRun none [sampleClaim "1" 2000] = .ok s ∧
      classifyDispatch s.task ⟨sampleScope, "python", "task-1", 1⟩ 2500 false = .ok decision ∧
      ¬ decision.Open := by
  have ends : ((sampleRun none [sampleClaim "1" 2000]).map fun s =>
      (s.attempts.map AttemptSnapshot.generation, (classifyDispatch s.task
        ⟨sampleScope, "python", "task-1", 1⟩ 2500 false).isOk)) = .ok ([1], true) := by
    decide +kernel
  obtain ⟨s, runs, told⟩ := map_eq_ok.mp ends
  obtain ⟨numbers, answered⟩ := Prod.mk.inj told
  obtain ⟨decision, classified⟩ := exists_of_isOk answered
  refine ⟨s, decision, runs, classified, fun stillOpen => ?_⟩
  have settled := dispatch_settled_for_good (sampleRun_reachable runs) classified
  obtain ⟨a, mem, first⟩ := List.mem_map.mp (numbers ▸ List.mem_singleton_self 1)
  exact (settled.2.2.1.mp stillOpen).2.2 a mem first

end TaskRun
end Ledgence
