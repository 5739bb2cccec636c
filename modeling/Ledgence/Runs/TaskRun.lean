import Ledgence.Core.Moves
import Ledgence.Kit.Table

/-! One task with all its attempts, driven by any sequence of accepted decisions. -/
open Kit Kit.Checked

namespace Ledgence

def AttemptSnapshot.id (attempt : AttemptSnapshot) : String :=
  attempt.lease.owner.attemptId

def AttemptSnapshot.generation (attempt : AttemptSnapshot) : Nat :=
  attempt.lease.owner.generation

structure TaskRun where
  task : TaskSnapshot
  attempts : List AttemptSnapshot
  log : List HistoryEvent

structure ClaimContext where
  session : Option WorkerSession
  cursor : Option ConsumerCursor
  previous : Option (TaskSnapshot × AttemptSnapshot)
  ids : AttemptIds

inductive TaskOp where
  | acquire (context : ClaimContext) (command : AcquireCommand)
  | cancelUnassigned
  | onAttempt (id : String) (op : AttemptOp)

structure TimedOp where
  op : TaskOp
  now : Nat

/-- Workflow identity that the store adds to a submission it makes itself. -/
structure Lineage where
  providerProbe : Option ProviderProbeAssignment
  parentWorkflowId : Option String
  rootWorkflowId : Option String
  workflowId : Option String
  workflowActivationId : Option String

def Lineage.none : Lineage := ⟨.none, .none, .none, .none, .none⟩

def Lineage.on (lineage : Lineage) (task : TaskSnapshot) : TaskSnapshot :=
  { task with
    providerProbe := lineage.providerProbe
    parentWorkflowId := lineage.parentWorkflowId
    rootWorkflowId := lineage.rootWorkflowId
    workflowId := lineage.workflowId
    workflowActivationId := lineage.workflowActivationId }

namespace TaskRun

def submitted (t : Transition Unit) (lineage : Lineage) : TaskRun :=
  ⟨lineage.on t.task, [], t.history⟩

def commit (s : TaskRun) (w : Writes) : TaskRun where
  task := w.task
  attempts := match w.attempt with
    | none => s.attempts
    | some attempt => Table.put AttemptSnapshot.id attempt s.attempts
  log := s.log ++ w.history

def insert (s : TaskRun) (changes : Transition Unit) : Result TaskRun := do
  let attempt ← okOr changes.attempt .conflict
  refuse (attempt.id ∈ s.attempts.map AttemptSnapshot.id) .conflict
  return ⟨changes.task, s.attempts ++ [attempt], s.log ++ changes.history⟩

def apply (s : TaskRun) (timed : TimedOp) : Result TaskRun :=
  match timed.op with
  | .acquire context command => do
    let t ← Ledgence.acquire
      ⟨context.session, context.cursor, context.previous, some s.task, some context.ids⟩
      command timed.now
    match t.changes with
    | none => return s
    | some changes => s.insert changes
  | .cancelUnassigned => do
    let t ← Ledgence.cancel s.task none timed.now
    return s.commit t.writes
  | .onAttempt id op => do
    let attempt ← okOr (Table.find AttemptSnapshot.id id s.attempts) .notFound
    let w ← op.decide s.task attempt timed.now
    return s.commit w

def run (s : TaskRun) (ops : List TimedOp) : Result TaskRun :=
  ops.foldlM apply s

inductive Step (s : TaskRun) (now : Nat) : TaskRun → Prop where
  | same : Step s now s
  | claimed (ids : AttemptIds) (session : WorkerSession) (command : AcquireCommand)
      (registered : Registered session command now)
      (claimable : Claimable s.task ids command now)
      (fresh : ids.attemptId ∉ s.attempts.map AttemptSnapshot.id) :
      Step s now ⟨newTask s.task ids,
        s.attempts ++ [newAttempt s.task ids session command.consumerId now],
        s.log ++ [history s.task (some (newAttempt s.task ids session command.consumerId now))
          now .claimed]⟩
  | withdrawn (queued : s.task.state = .queued) (fresh : s.task.cancelRequestedAt = none)
      (unowned : s.task.currentAttemptId = none) (inRange : now ≤ maxTimestamp) :
      Step s now ⟨cancelledTask s.task now, s.attempts,
        s.log ++ [history s.task none now .cancelRequested, history s.task none now .cancelled]⟩
  | moved (attempt attempt' : AttemptSnapshot) (mem : attempt ∈ s.attempts)
      (task' : TaskSnapshot) (events : List HistoryEvent)
      (move : Move s.task attempt now task' attempt' events) :
      Step s now ⟨task', Table.put AttemptSnapshot.id attempt' s.attempts, s.log ++ events⟩

/-- Attempts belong to the task, are numbered without gaps, and the current one is the latest
and the only active one. -/
structure Sound (s : TaskRun) : Prop where
  belongs : ∀ a ∈ s.attempts, Belongs s.task a
  lineage : s.attempts ≠ [] → validateWorkflowLineage s.task.workflowId s.task.parentWorkflowId
    s.task.rootWorkflowId = .ok ()
  generations : s.attempts.map AttemptSnapshot.generation = List.range' 1 s.task.attemptCount
  unique : Table.Unique AttemptSnapshot.id s.attempts
  idle : s.task.state ≠ .active → s.task.currentAttemptId = none
  busy : s.task.state = .active → ∃ a ∈ s.attempts, s.task.currentAttemptId = some a.id ∧
    a.generation = s.task.attemptCount
  active : ∀ a ∈ s.attempts, a.state = .active ↔ s.task.currentAttemptId = some a.id

section Sound
variable {s t : TaskRun} {now : Nat}

theorem Sound.coherent (sound : Sound s) {a : AttemptSnapshot} (mem : a ∈ s.attempts) :
    Coherent s.task a :=
  fun _ current => (sound.active a mem).mpr current

/-- An accepted acquisition claims the task with its own identities, or changes nothing. -/
theorem apply_acquire {context : ClaimContext} {command : AcquireCommand}
    (h : s.apply ⟨.acquire context command, now⟩ = .ok t) :
    t = s ∨ ∃ session, Registered session command now ∧
      Claimable s.task context.ids command now ∧
      context.ids.attemptId ∉ s.attempts.map AttemptSnapshot.id ∧
      t = ⟨newTask s.task context.ids,
        s.attempts ++ [newAttempt s.task context.ids session command.consumerId now],
        s.log ++ [history s.task
          (some (newAttempt s.task context.ids session command.consumerId now)) now .claimed]⟩ := by
  simp only [apply, bind_eq_ok] at h
  obtain ⟨r, acquired, h⟩ := h
  obtain ⟨session, -, registered, done⟩ := acquire_acquired acquired
  cases done with
  | replayed | emptied => exact .inl (pure_eq_ok.mp h).symm
  | claimed task ids fresh offered given claimable =>
    obtain rfl := Option.some.inj offered
    obtain rfl := Option.some.inj given
    simp only [claimTransition, insert, okOr_eq_ok, bind_eq_ok, Option.some.injEq,
      exists_eq_left', refuse_eq_ok, exists_unit, pure_eq_ok] at h
    obtain ⟨unused, rfl⟩ := h
    exact .inr ⟨session, registered, claimable, unused, rfl⟩

theorem apply_cancelUnassigned (h : s.apply ⟨.cancelUnassigned, now⟩ = .ok t) :
    t = s ∨ s.task.state = .queued ∧ s.task.cancelRequestedAt = none ∧
      s.task.currentAttemptId = none ∧ now ≤ maxTimestamp ∧
      t = ⟨cancelledTask s.task now, s.attempts, s.log ++
        [history s.task none now .cancelRequested, history s.task none now .cancelled]⟩ := by
  simp only [apply, Ledgence.cancel, bind_eq_ok, timestamp_eq_ok, pure_eq_ok] at h
  obtain ⟨r, ⟨_, ⟨inRange, rfl⟩, h⟩, rfl⟩ := h
  split at h
  · obtain rfl := by simpa using h
    exact .inl (by simp [commit, Transition.writes, unchanged])
  · rename_i proceeds
    simp only [not_or, not_not] at proceeds
    split at h
    · rename_i queued
      simp only [bind_eq_ok, refuse_eq_ok, exists_unit, not_not, pure_eq_ok] at h
      obtain ⟨unowned, rfl⟩ := h
      exact .inr ⟨queued, proceeds.2, unowned, inRange, rfl⟩
    · simp at h

theorem apply_onAttempt {id : String} {op : AttemptOp} :
    s.apply ⟨.onAttempt id op, now⟩ = .ok t ↔
      ∃ attempt, Table.find AttemptSnapshot.id id s.attempts = some attempt ∧
        ∃ w, op.decide s.task attempt now = .ok w ∧ t = s.commit w := by
  simp only [apply, bind_eq_ok, okOr_eq_ok, pure_eq_ok, @eq_comm _ (s.commit _) t]

theorem Sound.commit_eq (sound : Sound s) {attempt : AttemptSnapshot}
    (mem : attempt ∈ s.attempts) (w : Writes) :
    s.commit w = ⟨w.task, Table.put AttemptSnapshot.id (w.attempt.getD attempt) s.attempts,
      s.log ++ w.history⟩ := by
  cases hw : w.attempt with
  | some attempt' => simp [commit, hw]
  | none => simp [commit, hw, Table.put_self sound.unique mem]

theorem apply_step {timed : TimedOp} (sound : Sound s) (h : s.apply timed = .ok t) :
    Step s timed.now t := by
  obtain ⟨op, now⟩ := timed
  cases op with
  | acquire context command =>
    obtain rfl | ⟨session, registered, claimable, unused, rfl⟩ := apply_acquire h
    · exact .same
    · exact .claimed context.ids session command registered claimable unused
  | cancelUnassigned =>
    obtain rfl | ⟨queued, fresh, unowned, inRange, rfl⟩ := apply_cancelUnassigned h
    · exact .same
    · exact .withdrawn queued fresh unowned inRange
  | onAttempt id op =>
    obtain ⟨attempt, found, w, decided, rfl⟩ := apply_onAttempt.mp h
    have mem := Table.find_mem found
    rw [sound.commit_eq mem]
    exact .moved attempt _ mem w.task w.history (decide_moves (sound.coherent mem) decided)

theorem belongs_of_same {task task' : TaskSnapshot} {attempt attempt' : AttemptSnapshot}
    (belongs : Belongs task attempt) (sameTask : SameTask task task')
    (sameAttempt : SameAttempt attempt attempt') (more : task.attemptCount ≤ task'.attemptCount) :
    Belongs task' attempt' := by
  obtain ⟨owner, event, descriptor, -⟩ := sameAttempt
  obtain ⟨hscope, htask, hid, hpos, hle, hno, hrest⟩ := belongs
  have scope : task'.scope = task.scope := by simp [TaskSnapshot.scope, sameTask.input]
  refine ⟨by rw [owner, scope, hscope], by rw [owner, sameTask.taskId, htask],
    by rw [owner, event, hid], by rwa [owner], by rw [owner]; omega, by rw [owner, event, hno],
    ?_⟩
  rw [event, descriptor, sameTask.taskId, sameTask.runId, sameTask.input, sameTask.workflowId,
    sameTask.workflowActivationId, sameTask.parentWorkflowId, sameTask.rootWorkflowId,
    sameTask.descriptor]
  exact hrest

@[simp] theorem newAttempt_id (task : TaskSnapshot) (ids : AttemptIds) (session : WorkerSession)
    (consumerId now : Nat) : (newAttempt task ids session consumerId now).id = ids.attemptId := rfl

@[simp] theorem newAttempt_generation (task : TaskSnapshot) (ids : AttemptIds)
    (session : WorkerSession) (consumerId now : Nat) :
    (newAttempt task ids session consumerId now).generation = task.attemptCount + 1 := rfl

theorem newTask_same (task : TaskSnapshot) (ids : AttemptIds) : SameTask task (newTask task ids) :=
  ⟨rfl, rfl, rfl, rfl, rfl, rfl, rfl, rfl, rfl, rfl⟩

theorem newAttempt_belongs (task : TaskSnapshot) (ids : AttemptIds) (session : WorkerSession)
    (consumerId now : Nat) :
    Belongs (newTask task ids) (newAttempt task ids session consumerId now) :=
  ⟨rfl, rfl, rfl, Nat.succ_ne_zero _, Nat.le_refl _, rfl, rfl, rfl, rfl, rfl, rfl, rfl, rfl, rfl,
    rfl⟩

theorem Sound.claimed (sound : Sound s) {ids : AttemptIds} {session : WorkerSession}
    {command : AcquireCommand} (claimable : Claimable s.task ids command now)
    (fresh : ids.attemptId ∉ s.attempts.map AttemptSnapshot.id) (log : List HistoryEvent) :
    Sound ⟨newTask s.task ids,
      s.attempts ++ [newAttempt s.task ids session command.consumerId now], log⟩ := by
  have idle := sound.idle (by simp [claimable.queued])
  have other : ∀ a ∈ s.attempts, a.id ≠ ids.attemptId :=
    fun a ha e => fresh (e ▸ List.mem_map_of_mem ha)
  constructor
  case belongs =>
    intro a ha
    obtain ha | ha := List.mem_append.mp ha
    · exact belongs_of_same (sound.belongs a ha) (newTask_same _ _) .refl (Nat.le_succ _)
    · obtain rfl := List.mem_singleton.mp ha
      exact newAttempt_belongs _ _ _ _ _
  case lineage => exact fun _ => claimable.lineage
  case generations =>
    simp only [List.map_append, List.map_cons, List.map_nil, sound.generations,
      newAttempt_generation]
    rw [show (newTask s.task ids).attemptCount = s.task.attemptCount + 1 from rfl,
      List.range'_1_concat, Nat.add_comm]
  case unique =>
    have nodup : (s.attempts.map AttemptSnapshot.id ++ [ids.attemptId]).Nodup :=
      List.nodup_append.mpr ⟨sound.unique, List.nodup_singleton _, by
        intro x hx y hy e
        obtain rfl := List.mem_singleton.mp hy
        exact fresh (e ▸ hx)⟩
    simpa [Table.Unique, List.map_append] using nodup
  case idle => exact fun inactive => absurd rfl inactive
  case busy =>
    exact fun _ => ⟨_, List.mem_append_right _ (List.mem_singleton.mpr rfl), rfl, rfl⟩
  case active =>
    intro a ha
    obtain ha | ha := List.mem_append.mp ha
    · have wasIdle : a.state ≠ .active := by
        rw [ne_eq, sound.active a ha, idle]
        simp
      have elsewhere : (newTask s.task ids).currentAttemptId ≠ some a.id :=
        fun e => other a ha (Option.some.inj e).symm
      simp [wasIdle, elsewhere]
    · obtain rfl := List.mem_singleton.mp ha
      exact ⟨fun _ => rfl, fun _ => rfl⟩

theorem Sound.moved (sound : Sound s) {attempt attempt' : AttemptSnapshot}
    (mem : attempt ∈ s.attempts) {task' : TaskSnapshot} {events : List HistoryEvent}
    (move : Move s.task attempt now task' attempt' events) (log : List HistoryEvent) :
    Sound ⟨task', Table.put AttemptSnapshot.id attempt' s.attempts, log⟩ := by
  obtain ⟨sameTask, count⟩ := move.same_task
  have sameAttempt := move.same_attempt
  have sameId : attempt.id = attempt'.id := by simp [AttemptSnapshot.id, sameAttempt.owner]
  have sameGeneration : attempt'.generation = attempt.generation := by
    simp [AttemptSnapshot.generation, sameAttempt.owner]
  constructor
  case belongs =>
    intro a ha
    obtain rfl | ⟨ha, -⟩ := Table.mem_put ha
    · exact belongs_of_same (sound.belongs _ mem) sameTask sameAttempt count.ge
    · exact belongs_of_same (sound.belongs a ha) sameTask .refl count.ge
  case lineage =>
    intro _
    have := sound.lineage (List.ne_nil_of_mem mem)
    rwa [sameTask.workflowId, sameTask.parentWorkflowId, sameTask.rootWorkflowId]
  case generations =>
    rw [Table.map_put, sound.generations, count]
    intro r hr same
    rw [sameGeneration, Table.eq_of_key sound.unique hr mem (same.trans sameId.symm)]
  case unique => exact Table.unique_put sound.unique
  case idle =>
    intro inactive
    obtain ⟨phase, current, -⟩ | ⟨-, -, none, -⟩ := move.phase
    · rw [current, sound.idle (mt phase.mpr inactive)]
    · exact none
  case busy =>
    intro isActive
    obtain ⟨phase, current, -⟩ | ⟨-, ended, -, -⟩ := move.phase
    · obtain ⟨a, ha, named, latest⟩ := sound.busy (phase.mp isActive)
      by_cases h : a.id = attempt'.id
      · refine ⟨attempt', Table.mem_put_self mem sameId, by rw [current, named, h], ?_⟩
        rw [sameGeneration, count, ← latest,
          Table.eq_of_key sound.unique ha mem (h.trans sameId.symm)]
      · exact ⟨a, Table.mem_put_other ha h, by rw [current, named], by rw [latest, count]⟩
    · exact absurd isActive ended
  case active =>
    intro a ha
    obtain ⟨-, current, state⟩ | ⟨running, -, none, ended⟩ := move.phase
    · obtain rfl | ⟨ha, -⟩ := Table.mem_put ha
      · rw [state, current, ← sameId]
        exact sound.active _ mem
      · rw [current]
        exact sound.active a ha
    · obtain rfl | ⟨ha, other⟩ := Table.mem_put ha
      · simp [ended, none]
      · have : a.state ≠ .active := by
          rw [ne_eq, sound.active a ha, running.current]
          exact fun e => other ((Option.some.inj e).symm.trans sameId)
        simp [this, none]

theorem step_sound (sound : Sound s) (h : Step s now t) : Sound t := by
  cases h with
  | same => exact sound
  | claimed ids session command registered claimable fresh =>
    exact sound.claimed claimable fresh _
  | withdrawn queued fresh unowned inRange =>
    have inactive : s.task.state ≠ .active := by simp [queued]
    exact ⟨fun a ha => belongs_of_same (sound.belongs a ha)
        ⟨rfl, rfl, rfl, rfl, rfl, rfl, rfl, rfl, rfl, rfl⟩ .refl (Nat.le_refl _),
      sound.lineage, sound.generations, sound.unique, fun _ => unowned,
      fun isActive => by simp [cancelledTask] at isActive, sound.active⟩
  | moved attempt attempt' mem task' events move => exact sound.moved mem move _

theorem submit_eq_ok {command : SubmitCommand} {descriptor : ProgramDescriptor}
    {taskId runId : String} {r : Transition Unit}
    (h : submit command descriptor taskId runId now = .ok r) :
    command.input.validate = .ok () ∧ ValidText 128 taskId ∧ ValidText 128 runId ∧
      now ≤ maxTimestamp ∧ r = ⟨submittedTask command descriptor taskId runId now, none,
        [history (submittedTask command descriptor taskId runId now) none now .submitted], ()⟩ := by
  simp only [submit, validateSubmission, bind_eq_ok, lift_eq_ok, validateText_eq_ok, exists_unit,
    timestamp_eq_ok, pure_eq_ok] at h
  obtain ⟨⟨input, _⟩, taskText, runText, _, _, ⟨inRange, _⟩, _, rfl⟩ := h
  exact ⟨input, taskText, runText, inRange, rfl⟩

end Sound

/-- The run of `s` started with a submission and every step of it was accepted. -/
def Reachable (s : TaskRun) : Prop :=
  ∃ command descriptor taskId runId at' r lineage ops,
    submit command descriptor taskId runId at' = .ok r ∧
      run (submitted r lineage) ops = .ok s

theorem run_append {s t : TaskRun} {as bs : List TimedOp} :
    run s (as ++ bs) = .ok t ↔ ∃ m, run s as = .ok m ∧ run m bs = .ok t :=
  foldlM_append_ok

theorem Reachable.run {s t : TaskRun} (reachable : Reachable s) {ops : List TimedOp}
    (h : TaskRun.run s ops = .ok t) : Reachable t := by
  obtain ⟨command, descriptor, taskId, runId, at', r, lineage, earlier, submits, runs⟩ := reachable
  exact ⟨command, descriptor, taskId, runId, at', r, lineage, earlier ++ ops, submits,
    run_append.mpr ⟨s, runs, h⟩⟩

theorem submitted_sound {command : SubmitCommand} {descriptor : ProgramDescriptor}
    {taskId runId : String} {at' : Nat} {r : Transition Unit} (lineage : Lineage)
    (h : submit command descriptor taskId runId at' = .ok r) : Sound (submitted r lineage) := by
  obtain ⟨-, -, -, -, rfl⟩ := submit_eq_ok h
  have queued : (submitted ⟨submittedTask command descriptor taskId runId at', none,
      [history (submittedTask command descriptor taskId runId at') none at' .submitted],
      ()⟩ lineage).task.state = .queued := rfl
  exact ⟨by simp [submitted], by simp [submitted], rfl, by simp [submitted, Table.Unique],
    fun _ => rfl, fun isActive => absurd (queued.symm.trans isActive) (by simp),
    by simp [submitted]⟩

/-- What every step keeps between sound states, every run from a sound state keeps. -/
theorem run_invariant {P : TaskRun → Prop} {s t : TaskRun} {ops : List TimedOp}
    (step : ∀ s now t, now ∈ ops.map TimedOp.now → Sound s → Step s now t → P s → P t)
    (sound : Sound s) (h : run s ops = .ok t) (start : P s) : Sound t ∧ P t := by
  refine foldlM_invariant (P := fun u => Sound u ∧ P u) ?_ h ⟨sound, start⟩
  intro u timed mem v applied inv
  have stepped := apply_step inv.1 applied
  exact ⟨step_sound inv.1 stepped,
    step u timed.now v (List.mem_map_of_mem mem) inv.1 stepped inv.2⟩

theorem Reachable.invariant {P : TaskRun → Prop}
    (start : ∀ command descriptor taskId runId at' r lineage,
      submit command descriptor taskId runId at' = .ok r → P (submitted r lineage))
    (step : ∀ s now t, Sound s → Step s now t → P s → P t)
    {s : TaskRun} (reachable : Reachable s) : Sound s ∧ P s := by
  obtain ⟨command, descriptor, taskId, runId, at', r, lineage, ops, submits, runs⟩ := reachable
  exact run_invariant (fun s now t _ => step s now t) (submitted_sound lineage submits) runs
    (start command descriptor taskId runId at' r lineage submits)

theorem Reachable.sound {s : TaskRun} (reachable : Reachable s) : Sound s :=
  (reachable.invariant (P := fun _ => True) (fun _ _ _ _ _ _ _ _ => trivial)
    fun _ _ _ _ _ _ => trivial).1

end TaskRun

/- A task of one queue, its worker and its first attempt, to evaluate runs on. -/

def sampleInput (admission : Option TaskAdmissionRequirement) : SubmitTask where
  budget := none
  admission := admission
  tenantId := "acme"
  namespaceId := "billing"
  queue := "python"
  program := ⟨"invoice", "1.0.0"⟩
  correlationKey := none
  data := nullValue
  retryPolicy := .default
  attemptTimeoutMs := 60000

def sampleDescriptor : ProgramDescriptor :=
  ⟨⟨"invoice", "1.0.0"⟩,
    ⟨"sha256:0123456789abcdef0123456789abcdef0123456789abcdef0123456789abcdef"⟩, 1⟩

def sampleScope : Scope := ⟨"acme", "billing"⟩

def sampleSession : WorkerSession := ⟨[], "session-1", sampleScope, "python", 4, 90000000⟩

def sampleIds (n : String) : AttemptIds := ⟨"attempt-" ++ n, "lease-" ++ n, "event-" ++ n, none⟩

def sampleOwner (n : String) (generation : Nat) : LeaseOwner :=
  ⟨sampleScope, "task-1", "attempt-" ++ n, "lease-" ++ n, generation, "session-1", 0⟩

def sampleClaim (n : String) (now : Nat) : TimedOp :=
  ⟨.acquire ⟨some sampleSession, none, none, sampleIds n⟩ ⟨sampleScope, "python", "session-1", 0, 1⟩,
    now⟩

def sampleSubmit (admission : Option TaskAdmissionRequirement) : Result (Transition Unit) :=
  submit ⟨"key-1", sampleInput admission, none⟩ sampleDescriptor "task-1" "run-1" 1000

def sampleRun (admission : Option TaskAdmissionRequirement) (ops : List TimedOp) :
    Result TaskRun := do
  let r ← sampleSubmit admission
  TaskRun.run (TaskRun.submitted r .none) ops

theorem sampleRun_reachable {admission : Option TaskAdmissionRequirement} {ops : List TimedOp}
    {s : TaskRun} (h : sampleRun admission ops = .ok s) : TaskRun.Reachable s := by
  simp only [sampleRun, bind_eq_ok] at h
  obtain ⟨r, submits, runs⟩ := h
  exact ⟨_, _, _, _, _, r, .none, ops, submits, runs⟩

end Ledgence
