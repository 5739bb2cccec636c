import Mathlib.Data.List.ReduceOption
import Ledgence.Queues.Progress

/-! Every hold that the transactions on a queue write can be read back: its names are valid, its
times are in range, and its dates agree. -/
open Kit Kit.Checked

namespace Ledgence

def queueDurationMax : Nat := 2147483647

def Early (t : Nat) : Prop := t + queueDurationMax ≤ maxTimestamp

structure LeaseOwner.Presentable (owner : LeaseOwner) : Prop where
  scope : owner.scope.validate = .ok ()
  taskId : ValidText 128 owner.taskId
  attemptId : ValidText 128 owner.attemptId
  workerSessionId : ValidText 128 owner.workerSessionId

namespace QueueHold
variable {h : QueueHold} {now : Nat}

structure Presentable (h : QueueHold) : Prop where
  owner : h.owner.Presentable
  acquiredAt : Early h.acquiredAt
  deadline : ∀ deadline, h.deadline = some deadline → deadline ≤ h.acquiredAt + queueDurationMax
  stop : ∀ stop, h.stopRequestedAt = some stop → Early stop
  releasedAt : ∀ at', h.releasedAt = some at' → Early at'

theorem Presentable.moved (presentable : h.Presentable) (early : Early now)
    (next : QueueHoldState) (kind : Option QueueHoldReleaseKind) :
    (h.moved next kind now).Presentable where
  owner := presentable.owner
  acquiredAt := presentable.acquiredAt
  deadline := presentable.deadline
  stop := presentable.stop
  releasedAt := by
    intro at' released
    by_cases ends : next = .released
    · have stop : Early (h.stopRequestedAt.getD 0) := by
        cases asked : h.stopRequestedAt with
        | none =>
          show 0 + queueDurationMax ≤ maxTimestamp
          decide
        | some t => exact presentable.stop t asked
      have acquired := presentable.acquiredAt
      simp only [QueueHold.moved, ends, if_true, Option.some.injEq] at released
      unfold Early at early stop acquired ⊢
      omega
    · simp [QueueHold.moved, ends] at released

theorem Presentable.stopped (presentable : h.Presentable) (early : Early now) :
    (h.stopped now).Presentable where
  owner := presentable.owner
  acquiredAt := presentable.acquiredAt
  deadline := presentable.deadline
  stop := by
    intro t asked
    cases asked
    exact early
  releasedAt := presentable.releasedAt

theorem Presentable.validate (presentable : h.Presentable) (constrained : h.Constrained) :
    h.validate = .ok () := by
  have acquired := presentable.acquiredAt
  unfold Early at acquired
  have inRange : ∀ t ∈ [h.deadline, h.stopRequestedAt, h.releasedAt, h.forceAt].reduceOption,
      t ≤ maxTimestamp ∧ h.acquiredAt ≤ t := by
    intro t mem
    simp only [List.reduceOption_mem_iff, List.mem_cons, List.not_mem_nil, or_false] at mem
    have early : ∀ stop, h.stopRequestedAt = some stop → stop + queueDurationMax ≤ maxTimestamp :=
      presentable.stop
    have stopped : ∀ stop, h.stopRequestedAt = some stop → h.acquiredAt ≤ stop := by
      intro stop asked
      obtain ⟨deadline, given, late⟩ := constrained.stop stop asked
      have after := constrained.deadline deadline given
      omega
    obtain given | asked | released | force := mem
    · have after := constrained.deadline t given.symm
      have before := presentable.deadline t given.symm
      omega
    · have := early t asked.symm
      have := stopped t asked.symm
      omega
    · have late : t + queueDurationMax ≤ maxTimestamp := presentable.releasedAt t released.symm
      have after := (constrained.releasedAt t released.symm).1
      omega
    · rw [constrained.force, forcedAt] at force
      split at force
      · rename_i stop graceMs asked given
        obtain rfl := Option.some.inj force
        have := early stop asked
        have := stopped stop asked
        have short := (constrained.grace graceMs given).1.2
        have : graceMs ≤ queueDurationMax := short
        omega
      · cases force
  have forced : ∀ force, h.forcedAt = some force → force ≤ u64Max := by
    intro force scheduled
    have mem : force ∈ [h.deadline, h.stopRequestedAt, h.releasedAt, h.forceAt].reduceOption := by
      rw [List.reduceOption_mem_iff, constrained.force, scheduled]
      simp
    have small := (inRange force mem).1
    have : maxTimestamp ≤ u64Max := by decide
    omega
  simp only [QueueHold.validate, List.forM_cons, List.forM_nil, bind_eq_ok, exists_unit,
    positiveRevision, queueTime, refuse_eq_ok, validateText_eq_ok, pure_eq_ok, List.forM_eq_forM,
    forM_eq_ok]
  have owner := presentable.owner
  refine ⟨owner.scope, ⟨owner.taskId, owner.attemptId, owner.workerSessionId, trivial⟩,
    constrained.revision.1.ne', constrained.policyRevision.ne', by omega, ?grace, ?forced,
    not_not.mpr constrained.force, ?times, ?dates⟩
  case grace =>
    rintro ⟨graceMs, given, short | open'⟩
    · exact short (constrained.grace graceMs given).1
    · have timed := (constrained.grace graceMs given).2
      rw [open'] at timed
      cases timed
  case forced =>
    rintro ⟨force, scheduled, large⟩
    exact absurd (forced force scheduled) (Nat.not_le.mpr large)
  case times =>
    intro t mem
    obtain ⟨small, after⟩ := inRange t mem
    omega
  case dates =>
    have released : (h.state = .released) = (h.releasedAt.isSome = true) :=
      propext constrained.released
    have kinds : h.releasedAt.isSome = h.releaseKind.isSome := by
      rw [Bool.eq_iff_iff, ← constrained.released, constrained.kind]
    rintro (⟨stop, asked, early⟩ | differs | differs | ⟨release, ended, stop, asked, before⟩ |
      ⟨timeout, early⟩)
    · obtain ⟨deadline, given, late⟩ := constrained.stop stop asked
      exact absurd (early deadline given) (Nat.not_lt.mpr late)
    · exact differs released
    · exact differs kinds
    · exact absurd ((constrained.releasedAt release ended).2 stop asked) (Nat.not_le.mpr before)
    · obtain ⟨force, scheduled, at', ended, late⟩ := constrained.timeout timeout
      exact early ⟨at', ended, force, scheduled, late⟩

end QueueHold

structure TaskRun.Presentable (s : TaskRun) : Prop where
  taskId : ValidText 128 s.taskId
  owners : ∀ a ∈ s.attempts, a.lease.owner.Presentable

def QueueCommand.samples : QueueCommand → List Nat
  | .submit _ _ _ _ _ now => [now]
  | .decide _ _ now sampled => [now, sampled]
  | .collect _ => []
  | .closeHold _ now => [now]
  | .releaseHold _ now => [now]
  | .tickTimeout _ _ now => [now]
  | .putPolicy _ now => [now]

namespace Queue
variable {q q' : Queue} {id : String} {sampled now : Nat} {old new a : AttemptSnapshot}
  {forced : List String}

structure Presentable (q : Queue) : Prop where
  name : q.policy ≠ none → ValidText 128 q.name
  tasks : ∀ s ∈ q.tasks, s.Presentable
  holds : ∀ h ∈ q.holds, h.Presentable

structure Rewritten (q q' : Queue) : Prop where
  holds : ∀ h ∈ q'.holds, h.Presentable
  tasks : q'.tasks = q.tasks
  name : q'.name = q.name
  enrolled : q'.policy.isSome = q.policy.isSome

theorem Presentable.rewritten (presentable : Presentable q) (done : Rewritten q q') :
    Presentable q' where
  name := by
    intro enrolled
    rw [done.name]
    refine presentable.name ?_
    rw [← Option.isSome_iff_ne_none, ← done.enrolled, Option.isSome_iff_ne_none]
    exact enrolled
  tasks := done.tasks ▸ presentable.tasks
  holds := done.holds

theorem transition_presentable (holds : ∀ h ∈ q.holds, h.Presentable) (early : Early now)
    (next : QueueHoldState) (kind : Option QueueHoldReleaseKind) :
    Yields (q.transition id next kind now) fun r => Rewritten q r.1 := by
  unfold transition
  cases found : Table.find QueueHold.attemptId id q.holds with
  | none => exact ⟨holds, rfl, rfl, rfl⟩
  | some h =>
    simp only [ensures_ite, ensures_ok, ensures_bind, ensures_refuse, ensures_okOr, ensures_pure,
      not_false_iff, implies_true, true_and]
    refine ⟨fun _ => ⟨holds, rfl, rfl, rfl⟩, fun moves _ p enrolled => ?_⟩
    refine ensures_of_ok (fun _ _ never => never) fun p' _ _ => ⟨?_, rfl, rfl, by simp [enrolled]⟩
    intro h' mem
    obtain rfl | ⟨mem, -⟩ := Table.mem_put mem
    · exact (holds h (Table.find_mem found)).moved early next kind
    · exact holds h' mem

theorem moveHold_presentable (holds : ∀ h ∈ q.holds, h.Presentable) (early : Early now)
    (state : QueueHoldState) (kind : Option QueueHoldReleaseKind) :
    Yields (q.moveHold id state kind now) (Rewritten q) := by
  simp only [moveHold, ensures_bind, ensures_refuse, ensures_pure, not_false_iff, implies_true,
    true_and]
  exact (transition_presentable holds early state kind).mono fun r done _ => done

theorem attemptTransition_presentable (holds : ∀ h ∈ q.holds, h.Presentable) (early : Early sampled) :
    Yields (q.attemptTransition old new sampled) (Rewritten q) := by
  have still : Rewritten q q := ⟨holds, rfl, rfl, rfl⟩
  have moves : ∀ next kind, Yields (q.transition new.id next kind sampled) fun r => Rewritten q r.1 :=
    transition_presentable holds early
  unfold attemptTransition
  by_cases same : SamePhase old new
  · rw [if_pos same]
    exact still
  · rw [if_neg same]
    cases q.policy with
    | none => exact still
    | some p =>
      cases Table.find QueueHold.attemptId new.id q.holds with
      | none =>
        simp only [ensures_ite, ensures_ok, ensures_error, not_false_iff, implies_true, and_true]
        exact fun _ => still
      | some h =>
        simp only [ensures_bind, ensures_refuse, ensures_ite, ensures_pure, not_false_iff,
          implies_true, true_and]
        exact fun _ => ⟨fun _ => moves _ _, fun _ => ⟨fun _ => moves _ _, fun _ => ⟨fun _ => moves _ _,
          fun _ => still⟩⟩⟩

theorem Presentable.fence (presentable : Presentable q) (id : String) (at' : Nat) :
    Presentable { q with tasks := q.tasks.map (TaskRun.fence id at') } where
  name := presentable.name
  holds := presentable.holds
  tasks := by
    intro s mem
    obtain ⟨s, stored, rfl⟩ := List.mem_map.mp mem
    refine ⟨(presentable.tasks s stored).taskId, fun b mem' => ?_⟩
    obtain ⟨a, here, rfl⟩ := List.mem_map.mp mem'
    by_cases named : a.id = id
    · rw [if_pos named]
      exact (presentable.tasks s stored).owners a here
    · rw [if_neg named]
      exact (presentable.tasks s stored).owners a here

theorem fence_move_presentable (presentable : Presentable q) (early : Early now)
    (state : QueueHoldState) (kind : Option QueueHoldReleaseKind) :
    Yields (do let q ← q.fence id now; q.moveHold id state kind now) Presentable := by
  simp only [ensures_bind, fence_yields]
  intro _
  have fenced := presentable.fence id now
  exact (moveHold_presentable fenced.holds early state kind).mono fun q' done => fenced.rewritten done

theorem closeHold_presentable (presentable : Presentable q) (early : Early now)
    (c : QueueHoldClose) : Yields (q.closeHold c now) Presentable := by
  simp only [closeHold, ensures_bind, yields_check]
  intro _ _
  refine lockSource_yields fun h mem named => ?_
  simp only [ensures_refuse, ensures_ite, ensures_pure, not_false_iff, implies_true, true_and]
  exact fun _ => ⟨fun _ => presentable, fun _ => by
    simpa using fence_move_presentable presentable early .released (some .confirmed)⟩

theorem releaseHold_presentable (presentable : Presentable q) (early : Early now)
    (c : QueueHoldRelease) : Yields (q.releaseHold c now) Presentable := by
  simp only [releaseHold, ensures_bind, yields_check]
  intro _ _
  refine lockSource_yields fun h mem named => ?_
  simp only [ensures_refuse, not_false_iff, implies_true, true_and]
  exact fun _ => by simpa using fence_move_presentable presentable early .released (some .operator)

theorem tickTimeout_presentable (presentable : Presentable q) (early : Early now)
    (taskId attemptId : String) : Yields (q.tickTimeout taskId attemptId now) Presentable := by
  simp only [tickTimeout, ensures_bind]
  refine lockSource_yields fun h mem named => ?_
  simp only [ensures_ite, ensures_pure]
  refine ⟨fun _ => ?stops, fun _ => ⟨fun _ => ?forces, fun _ => presentable⟩⟩
  case stops =>
    simp only [requestStop, ensures_bind, fence_yields, ensures_refuse, not_false_iff, implies_true,
      true_and]
    intro _ _
    have fenced := presentable.fence h.attemptId now
    have asked : Presentable { q with
        holds := Table.put QueueHold.attemptId (h.stopped now) q.holds
        tasks := q.tasks.map (TaskRun.fence h.attemptId now) } := by
      refine ⟨fenced.name, fenced.tasks, fun h' mem' => ?_⟩
      obtain rfl | ⟨mem', -⟩ := Table.mem_put mem'
      · exact (presentable.holds h mem).stopped early
      · exact presentable.holds h' mem'
    cases h.state with
    | reserved =>
      exact (moveHold_presentable asked.holds early .released (some .neverStarted)).mono
        fun q' done => asked.rewritten done
    | running =>
      exact (moveHold_presentable asked.holds early .uncertain none).mono
        fun q' done => asked.rewritten done
    | uncertain | released => exact asked
  case forces => exact fence_move_presentable presentable early .released (some .timeout)

theorem reserve_presentable {p : QueuePolicyRow} (policy : p.Constrained) (early : Early now)
    (owner : a.lease.owner.Presentable) : (reserve p a now).Presentable where
  owner := owner
  acquiredAt := early
  deadline := by
    intro deadline given
    obtain ⟨ms, timeout, rfl⟩ := Option.map_eq_some_iff.mp given
    exact Nat.add_le_add_left (policy.timeout ms timeout).2 now
  stop := fun stop asked => by cases asked
  releasedAt := fun at' released => by cases released

theorem putPolicy_presentable (presentable : Presentable q)
    (early : Early now) (c : QueuePolicyPut) : Yields (q.putPolicy c now) Presentable := by
  simp only [putPolicy, ensures_bind, yields_check, ensures_refuse, not_false_iff, implies_true,
    true_and, not_or, not_not]
  intro _ valid named _ _ _
  have name : ValidText 128 q.name := by
    simp only [QueuePolicyPut.validate, bind_eq_ok, exists_unit, validateText_eq_ok] at valid
    exact named.2 ▸ valid.2.1
  cases enrolled : q.policy with
  | none =>
    simp only [adopt, ensures_bind, ensures_refuse, ensures_pure, not_false_iff, implies_true,
      true_and, not_or, not_not]
    intro _ policy
    refine ⟨fun _ => name, presentable.tasks, fun h mem => ?_⟩
    obtain mem | mem := List.mem_append.mp mem
    · exact presentable.holds h mem
    · obtain ⟨a, there, rfl⟩ := List.mem_map.mp mem
      obtain ⟨s, stored, here⟩ := List.mem_flatMap.mp (List.mem_filter.mp there).1
      have owner := (presentable.tasks s stored).owners a here
      have reserved := reserve_presentable policy early owner
      exact ⟨owner, early, reserved.deadline, reserved.stop, reserved.releasedAt⟩
  | some p =>
    simp only [ensures_bind, ensures_refuse, ensures_pure, not_false_iff, implies_true, true_and]
    exact fun _ => ⟨fun _ => name, presentable.tasks, presentable.holds⟩

theorem submit_presentable (presentable : Presentable q) (command : SubmitCommand)
    (descriptor : ProgramDescriptor) (taskId runId : String) (lineage : Lineage) :
    Yields (q.submit command descriptor taskId runId lineage now) Presentable := by
  simp only [submit, ensures_bind, yields_check, ensures_refuse, ensures_pure, not_false_iff,
    implies_true, true_and]
  intro t submitted _
  refine ⟨presentable.name, fun s mem => ?_, presentable.holds⟩
  obtain mem | mem := List.mem_append.mp mem
  · exact presentable.tasks s mem
  · obtain rfl := List.mem_singleton.mp mem
    obtain ⟨-, taskText, -, -, rfl⟩ := TaskRun.submit_eq_ok submitted
    exact ⟨taskText, fun a here => by cases here⟩

theorem collect_presentable (presentable : Presentable q) (taskId : String) :
    Yields (q.collect taskId) Presentable := by
  simp only [collect, run, ensures_bind, ensures_okOr, ensures_refuse, ensures_pure, not_false_iff,
    implies_true, true_and]
  exact fun _ _ _ => ⟨presentable.name, fun s mem => presentable.tasks s (List.mem_of_mem_filter mem),
    presentable.holds⟩

section Decisions
variable {s : TaskRun} {attempt : AttemptSnapshot}

theorem acquire_session {context : Acquisition} {command : AcquireCommand} {t : AcquireTransition}
    (acquired : acquire context command now = .ok t) : ∃ session, context.session = some session ∧
      ValidText 128 session.id ∧ session.scope.validate = .ok () := by
  simp only [acquire, bind_eq_ok, okOr_eq_ok, checkSession, exists_unit, validateText_eq_ok] at acquired
  obtain ⟨session, given, ⟨named, scope, -⟩, -⟩ := acquired
  exact ⟨session, given, named, scope⟩

theorem claim_presentable {context : Acquisition} {command : AcquireCommand} {t : AcquireTransition}
    (acquired : acquire context command now = .ok t) {task : TaskSnapshot}
    (candidate : context.candidate = some task) (named : ValidText 128 task.taskId)
    {changes : Transition Unit} (some' : t.changes = some changes) {a : AttemptSnapshot}
    (new : changes.attempt = some a) : changes.task.taskId = task.taskId ∧
      a.lease.owner.Presentable := by
  obtain ⟨session, given, sessionText, scope⟩ := acquire_session acquired
  obtain ⟨session', given', registered, done⟩ := acquire_acquired acquired
  obtain rfl := Option.some.inj (given.symm.trans given')
  cases done with
  | replayed | emptied => cases some'
  | claimed task' ids fresh offered idsGiven claimable =>
    obtain rfl := Option.some.inj (candidate.symm.trans offered)
    cases some'
    cases new
    refine ⟨rfl, ?_, named, claimable.attemptId, sessionText⟩
    show task.scope.validate = .ok ()
    rw [claimable.scope, registered.scope]
    exact scope

theorem putRun_presentable (presentable : Presentable q) {t : TaskRun} (run : t.Presentable) :
    Presentable (q.putRun t) where
  name := presentable.name
  holds := presentable.holds
  tasks := by
    intro s mem
    obtain rfl | ⟨mem, -⟩ := Table.mem_put mem
    · exact run
    · exact presentable.tasks s mem

theorem guardInsert_presentable (presentable : Presentable q)
    (policy : ∀ p, q.policy = some p → p.Constrained) {claimedAt : Nat} (early : Early claimedAt)
    (owner : a.lease.owner.Presentable) {setting : Option (String × Nat)}
    (sampled : ∀ claim, setting = some claim → claim.2 = claimedAt) :
    Yields (q.guardInsert a setting) Presentable := by
  unfold guardInsert
  cases enrolled : q.policy with
  | none => exact presentable
  | some p =>
    simp only [ensures_bind, ensures_okOr, ensures_refuse, ensures_pure, not_false_iff, implies_true,
      true_and]
    intro claim made _ _ _
    refine ⟨fun _ => presentable.name (by simp [enrolled]), presentable.tasks, fun h mem => ?_⟩
    obtain mem | mem := List.mem_append.mp mem
    · exact presentable.holds h mem
    · obtain rfl := List.mem_singleton.mp mem
      rw [sampled claim made]
      exact reserve_presentable (policy p enrolled) early owner

theorem assign_presentable (sound : Sound forced q) (presentable : Presentable q)
    (early : Early now) (taskId : String) (context : ClaimContext) (command : AcquireCommand) :
    Yields (q.assign taskId context command now) Presentable := by
  unfold assign
  refine ensures_bind.mpr (run_spec (fun _ never => never) fun s mem named => ?_)
  refine ensures_ite.mpr ⟨fun _ => presentable, fun _ => ?_⟩
  refine ensures_bind.mpr (yields_check.mpr ?_)
  intro t acquired
  cases changes : t.changes with
  | none => exact presentable
  | some changes' =>
    simp only [ensures_bind, ensures_okOr, ensures_refuse, yields_check, not_false_iff, implies_true,
      true_and]
    intro a new
    have run := presentable.tasks s mem
    obtain ⟨sameTask, owner⟩ := claim_presentable acquired rfl run.taskId changes new
    -- a fence and the claim's clock sample are all that is added
    have prepared : Yields (q.prepare a now) fun r => r.1.lease.owner.Presentable ∧
        ∀ claim, r.2 = some claim → claim.2 = now := by
      unfold prepare
      split
      · exact ⟨owner, fun claim none => by cases none⟩
      · split
        · exact ⟨owner, fun claim made => by cases made; rfl⟩
        · refine ensures_bind.mpr (ensures_okOr.mpr ⟨fun _ never => never, fun deadline _ => ?_⟩)
          exact ⟨owner, fun claim made => by cases made; rfl⟩
    refine prepared.mono fun r done _ u inserted => ?_
    simp only [TaskRun.insert, bind_eq_ok, okOr_eq_ok, Option.some.injEq, exists_eq_left',
      refuse_eq_ok, exists_unit, pure_eq_ok] at inserted
    obtain ⟨-, rfl⟩ := inserted
    have put : Presentable (q.putRun ⟨changes'.task, s.attempts ++ [r.1],
        s.log ++ changes'.history⟩) := by
      refine putRun_presentable presentable ⟨?_, fun b here => ?_⟩
      · show ValidText 128 changes'.task.taskId
        rw [sameTask]
        exact run.taskId
      · obtain here | here := List.mem_append.mp here
        · exact run.owners b here
        · exact List.mem_singleton.mp here ▸ done.1
    exact guardInsert_presentable put sound.accounted.policy early done.1 done.2

theorem decide_presentable (sound : Sound forced q) (presentable : Presentable q)
    (early : Early now) (early' : Early sampled) (taskId : String) (op : TaskOp) :
    Yields (q.decide taskId op now sampled) Presentable := by
  unfold decide
  refine ensures_bind.mpr (run_spec (fun _ never => never) fun s mem named => ?_)
  have run := presentable.tasks s mem
  cases op with
  | acquire context command => exact assign_presentable sound presentable early taskId context command
  | cancelUnassigned =>
    refine ensures_bind.mpr (yields_check.mpr ?_)
    intro t applied
    refine putRun_presentable presentable ?_
    obtain rfl | ⟨-, -, -, -, rfl⟩ := TaskRun.apply_cancelUnassigned applied
    · exact run
    · exact ⟨run.taskId, run.owners⟩
  | onAttempt id op =>
    refine ensures_bind.mpr (yields_check.mpr ?_)
    intro attempt found
    refine ensures_bind.mpr (yields_check.mpr ?_)
    intro w decided
    have here : attempt ∈ s.attempts := Table.find_mem (okOr_eq_ok.mp found)
    have steady := sound.steady s mem
    have stored := steady.sound.coherent here
    have coherent : Coherent s.task (q.load attempt) := stored
    have move := decide_moves coherent decided
    have committed := steady.sound.commit_eq here (w.keepDeadline attempt)
    have put : Presentable (q.putRun (s.commit (w.keepDeadline attempt))) := by
      refine putRun_presentable presentable ?_
      rw [committed, w.keepDeadline_getD attempt (q.effectiveDeadline attempt)]
      refine ⟨?_, fun b mem' => ?_⟩
      · show ValidText 128 w.task.taskId
        rw [(Move.same_task move).1.taskId]
        exact run.taskId
      · obtain rfl | ⟨old, -⟩ := Table.mem_put mem'
        · have owner := (Move.same_attempt move).owner
          have same : (w.attempt.getD
              { attempt with deadline := q.effectiveDeadline attempt }).lease.owner =
                attempt.lease.owner := owner
          show (w.attempt.getD
            { attempt with deadline := q.effectiveDeadline attempt }).lease.owner.Presentable
          rw [same]
          exact run.owners attempt here
        · exact run.owners b old
    dsimp only
    split
    · exact put
    · exact (attemptTransition_presentable put.holds early').mono fun q' done => put.rewritten done

end Decisions

theorem step_presentable (sound : Sound forced q) (presentable : Presentable q) (c : QueueCommand)
    (early : ∀ t ∈ c.samples, Early t) : Yields (q.step c) Presentable := by
  cases c with
  | submit command descriptor taskId runId lineage now =>
    exact submit_presentable presentable command descriptor taskId runId lineage
  | decide taskId op now sampled =>
    exact decide_presentable sound presentable (early now (by simp [QueueCommand.samples]))
      (early sampled (by simp [QueueCommand.samples])) taskId op
  | collect taskId => exact collect_presentable presentable taskId
  | closeHold c now =>
    exact closeHold_presentable presentable (early now (by simp [QueueCommand.samples])) c
  | releaseHold c now =>
    exact releaseHold_presentable presentable (early now (by simp [QueueCommand.samples])) c
  | tickTimeout taskId attemptId now =>
    exact tickTimeout_presentable presentable (early now (by simp [QueueCommand.samples])) taskId
      attemptId
  | putPolicy c now =>
    exact putPolicy_presentable presentable (early now (by simp [QueueCommand.samples])) c

end Queue
end Ledgence
