import Ledgence.Queues.Occupancy

/-! What one transaction leaves of each hold and of each held attempt: holds are changed forward
only, and a held attempt gets no later deadline. -/
open Kit Kit.Checked

namespace Ledgence

/-- The hold after some transactions: what it was acquired with stays, its stop is set once, its
release is final, and every change is a revision. -/
structure QueueHold.Advances (h h' : QueueHold) : Prop where
  owner : h'.owner = h.owner
  policyRevision : h'.policyRevision = h.policyRevision
  acquiredAt : h'.acquiredAt = h.acquiredAt
  deadline : h'.deadline = h.deadline
  graceMs : h'.graceMs = h.graceMs
  stop : ∀ t, h.stopRequestedAt = some t → h'.stopRequestedAt = some t
  released : h.state = .released → h' = h
  revised : h' = h ∨ h.revision < h'.revision

namespace QueueHold
variable {h h' h'' : QueueHold} {now : Nat}

theorem Advances.refl : h.Advances h :=
  ⟨rfl, rfl, rfl, rfl, rfl, fun _ same => same, fun _ => rfl, .inl rfl⟩

theorem Advances.trans (first : h.Advances h') (second : h'.Advances h'') : h.Advances h'' where
  owner := second.owner.trans first.owner
  policyRevision := second.policyRevision.trans first.policyRevision
  acquiredAt := second.acquiredAt.trans first.acquiredAt
  deadline := second.deadline.trans first.deadline
  graceMs := second.graceMs.trans first.graceMs
  stop t stopped := second.stop t (first.stop t stopped)
  released ended := by
    cases first.released ended
    exact second.released ended
  revised := by
    cases first.revised with
    | inl same => exact same ▸ second.revised
    | inr later =>
      cases second.revised with
      | inl same => exact .inr (same ▸ later)
      | inr last => exact .inr (later.trans last)

theorem Advances.attemptId (advances : h.Advances h') : h'.attemptId = h.attemptId :=
  congrArg LeaseOwner.attemptId advances.owner

theorem advances_moved (isOpen : h.state ≠ .released) (next : QueueHoldState)
    (kind : Option QueueHoldReleaseKind) (sampled : Nat) : h.Advances (h.moved next kind sampled) :=
  ⟨rfl, rfl, rfl, rfl, rfl, fun _ same => same, fun ended => absurd ended isOpen,
    .inr (Nat.lt_succ_self _)⟩

theorem advances_stopped (isOpen : h.state ≠ .released) (fresh : h.stopRequestedAt = none) :
    h.Advances (h.stopped now) :=
  ⟨rfl, rfl, rfl, rfl, rfl, (fun t same => by cases fresh.symm.trans same),
    fun ended => absurd ended isOpen, .inr (Nat.lt_succ_self _)⟩

end QueueHold

namespace Queue
variable {q q' q'' : Queue} {id : String} {sampled now : Nat} {a b old new : AttemptSnapshot}
  {forced : List String}

abbrev Yields {α : Type} (x : QueueOutcome α) (post : α → Prop) : Prop :=
  Ensures (fun _ => False) x post

@[simp] theorem yields_check {α : Type} {x : Result α} {post : α → Prop} :
    Yields (check x) post ↔ ∀ a, x = .ok a → post a :=
  ensures_check fun _ never => never

def HoldsAdvance (q q' : Queue) : Prop :=
  ∀ h ∈ q.holds, ∃ h' ∈ q'.holds, h.Advances h'

theorem HoldsAdvance.of_subset (more : q.holds ⊆ q'.holds) : HoldsAdvance q q' :=
  fun h mem => ⟨h, more mem, .refl⟩

theorem HoldsAdvance.trans (first : HoldsAdvance q q') (second : HoldsAdvance q' q'') :
    HoldsAdvance q q'' := by
  intro h mem
  obtain ⟨h', mem', here⟩ := first h mem
  obtain ⟨h'', mem'', there⟩ := second h' mem'
  exact ⟨h'', mem'', here.trans there⟩

theorem put_advance (unique : Table.Unique QueueHold.attemptId q.holds) {h h' : QueueHold}
    (mem : h ∈ q.holds) (advances : h.Advances h') (holds : q'.holds =
      Table.put QueueHold.attemptId h' q.holds) : HoldsAdvance q q' := by
  intro k mem'
  rw [holds]
  by_cases same : k.attemptId = h'.attemptId
  · obtain rfl := Table.eq_of_key unique mem' mem (same.trans advances.attemptId)
    exact ⟨h', Table.mem_put_self mem' same, advances⟩
  · exact ⟨k, Table.mem_put_other mem' same, .refl⟩

theorem transition_advance (unique : Table.Unique QueueHold.attemptId q.holds)
    (next : QueueHoldState) (kind : Option QueueHoldReleaseKind) (sampled : Nat) :
    Yields (q.transition id next kind sampled) fun r =>
      HoldsAdvance q r.1 ∧ r.1.tasks = q.tasks := by
  unfold transition
  cases found : Table.find QueueHold.attemptId id q.holds with
  | none => exact ⟨.of_subset (List.Subset.refl _), rfl⟩
  | some h =>
    simp only [ensures_ite, ensures_ok, ensures_bind, ensures_refuse, ensures_okOr, ensures_pure,
      not_or, not_false_iff, implies_true, true_and]
    refine ⟨fun _ => ⟨.of_subset (List.Subset.refl _), trivial⟩, fun moves _ p _ => ?_⟩
    refine ensures_of_ok (fun _ _ never => never) fun p' _ _ => ⟨?_, trivial⟩
    exact put_advance unique (Table.find_mem found)
      (QueueHold.advances_moved moves.1 next kind sampled) rfl

theorem moveHold_advance (unique : Table.Unique QueueHold.attemptId q.holds)
    (state : QueueHoldState) (kind : Option QueueHoldReleaseKind) (at' : Nat) :
    Yields (q.moveHold id state kind at') fun q' => HoldsAdvance q q' ∧ q'.tasks = q.tasks := by
  simp only [moveHold, ensures_bind, ensures_refuse, ensures_pure, not_false_iff, implies_true,
    true_and]
  exact (transition_advance unique state kind at').mono fun r done _ => done

/-- The trigger moves the hold of the attempt, and starts nothing under a hold that is stopped or
released. -/
theorem attemptTransition_advance (unique : Table.Unique QueueHold.attemptId q.holds) :
    Yields (q.attemptTransition old new sampled) fun q' => HoldsAdvance q q' ∧ q'.tasks = q.tasks ∧
      (new.executionMayHaveStarted = true → old.executionMayHaveStarted = false →
        q.policy ≠ none → ∀ h ∈ q.holds, h.attemptId = new.id →
          h.state ≠ .released ∧ h.stopRequestedAt = none) := by
  unfold attemptTransition
  have still : HoldsAdvance q q := .of_subset (List.Subset.refl _)
  by_cases same : SamePhase old new
  · rw [if_pos same]
    refine ⟨still, rfl, fun starts fresh => ?_⟩
    cases starts.symm.trans (same.1.symm.trans fresh)
  · rw [if_neg same]
    cases enrolled : q.policy with
    | none => exact ⟨still, rfl, fun _ _ absent => absurd rfl absent⟩
    | some p =>
      cases found : Table.find QueueHold.attemptId new.id q.holds with
      | none =>
        have none : ∀ h ∈ q.holds, h.attemptId = new.id →
            h.state ≠ .released ∧ h.stopRequestedAt = none :=
          fun h mem named => absurd named (Table.find_eq_none.mp found h mem)
        simp only [ensures_ite, ensures_ok, ensures_error, not_false_iff, implies_true, and_true]
        exact fun _ => ⟨still, trivial, fun _ _ _ => none⟩
      | some h =>
        simp only [ensures_bind, ensures_refuse, ensures_ite, ensures_pure, not_false_iff,
          implies_true, true_and]
        intro onTime
        have timely : new.executionMayHaveStarted = true → old.executionMayHaveStarted = false →
            some p ≠ none → ∀ k ∈ q.holds, k.attemptId = new.id →
              k.state ≠ .released ∧ k.stopRequestedAt = none := by
          intro starts fresh _ k mem named
          obtain rfl := Table.eq_of_key unique mem (Table.find_mem found)
            (named.trans (Table.find_key found).symm)
          refine ⟨fun ended => onTime ⟨starts, fresh, .inl ended⟩, ?_⟩
          cases asked : k.stopRequestedAt with
          | none => rfl
          | some t => exact absurd ⟨starts, fresh, .inr (.inl (by rw [asked]; rfl))⟩ onTime
        have moves : ∀ next kind, Yields (q.transition new.id next kind sampled) fun r =>
            HoldsAdvance q r.1 ∧ r.1.tasks = q.tasks ∧ (new.executionMayHaveStarted = true →
              old.executionMayHaveStarted = false → some p ≠ none → ∀ k ∈ q.holds,
                k.attemptId = new.id → k.state ≠ .released ∧ k.stopRequestedAt = none) :=
          fun next kind => (transition_advance unique next kind sampled).mono fun r done =>
            ⟨done.1, done.2, timely⟩
        exact ⟨fun _ => moves _ _, fun _ => ⟨fun _ => moves _ _, fun _ => ⟨fun _ => moves _ _,
          fun _ => ⟨still, timely⟩⟩⟩⟩

def AttemptsKept (q q' : Queue) : Prop :=
  ∀ b ∈ q'.attempts, ∃ a ∈ q.attempts, a.id = b.id ∧ b.deadline ≤ a.deadline ∧
    b.executionMayHaveStarted = a.executionMayHaveStarted

theorem AttemptsKept.of_subset (fewer : q'.attempts ⊆ q.attempts) : AttemptsKept q q' :=
  fun b mem => ⟨b, fewer mem, rfl, Nat.le_refl _, rfl⟩

theorem Lowered.kept (lowered : Lowered q q') : AttemptsKept q q' := by
  cases lowered with
  | inl same =>
    have same : q'.attempts = q.attempts := congrArg (List.flatMap TaskRun.attempts) same
    exact .of_subset (same ▸ List.Subset.refl _)
  | inr fenced =>
    obtain ⟨id, at', fenced⟩ := fenced
    intro b mem
    rw [Queue.attempts, fenced, List.flatMap_map] at mem
    obtain ⟨s, stored, mem⟩ := List.mem_flatMap.mp mem
    obtain ⟨a, here, rfl⟩ := List.mem_map.mp mem
    refine ⟨a, mem_attempts stored here, ?_⟩
    by_cases named : a.id = id
    · rw [if_pos named]
      exact ⟨rfl, min_le_left _ _, rfl⟩
    · rw [if_neg named]
      exact ⟨rfl, Nat.le_refl _, rfl⟩

structure Progress (q q' : Queue) : Prop where
  holds : HoldsAdvance q q'
  attempts : ∀ b ∈ q'.attempts, ∀ h ∈ q.holds, h.attemptId = b.id → ∃ a ∈ q.attempts,
    a.id = b.id ∧ b.deadline ≤ a.deadline ∧ (b.executionMayHaveStarted = true →
      a.executionMayHaveStarted = true ∨ h.state ≠ .released ∧ h.stopRequestedAt = none)

theorem AttemptsKept.progress (kept : AttemptsKept q q') (holds : HoldsAdvance q q') :
    Progress q q' where
  holds := holds
  attempts b mem h _ _ := by
    obtain ⟨a, here, named, deadline, started⟩ := kept b mem
    exact ⟨a, here, named, deadline, fun starts => .inl (started ▸ starts)⟩

theorem Progress.of_subset (fewer : q'.attempts ⊆ q.attempts) (more : q.holds ⊆ q'.holds) :
    Progress q q' :=
  (AttemptsKept.of_subset fewer).progress (.of_subset more)

theorem Progress.refl : Progress q q :=
  .of_subset (List.Subset.refl _) (List.Subset.refl _)

@[simp] theorem fence_yields {id : String} {at' : Nat} {post : Queue → Prop} :
    Yields (q.fence id at') post ↔
      (at' ≤ maxTimestamp → post { q with tasks := q.tasks.map (TaskRun.fence id at') }) := by
  simp [fence]

theorem lockSource_yields {scope : Scope} {queue taskId attemptId : String}
    {post : QueueHold → Prop} (weaker : ∀ h ∈ q.holds, h.attemptId = attemptId → post h) :
    Yields (q.lockSource scope queue taskId attemptId) post := by
  simp only [lockSource, ensures_bind, ensures_refuse, ensures_okOr, yields_check, ensures_pure,
    not_false_iff, implies_true, true_and]
  exact fun _ h found _ _ _ => weaker h (Table.find_mem found) (Table.find_key found)

theorem fence_move_progress (unique : Table.Unique QueueHold.attemptId q.holds)
    (state : QueueHoldState) (kind : Option QueueHoldReleaseKind) :
    Yields (do let q ← q.fence id now; q.moveHold id state kind now) (Progress q) := by
  simp only [ensures_bind, fence_yields]
  intro _
  have unique' : Table.Unique QueueHold.attemptId
    { q with tasks := q.tasks.map (TaskRun.fence id now) }.holds := unique
  refine (moveHold_advance unique' state kind now).mono fun q' done => ?_
  have lowered : Lowered q q' := .inr ⟨id, now, done.2⟩
  exact lowered.kept.progress done.1

theorem closeHold_progress (unique : Table.Unique QueueHold.attemptId q.holds) (c : QueueHoldClose) :
    Yields (q.closeHold c now) (Progress q) := by
  simp only [closeHold, ensures_bind, yields_check]
  intro _ _
  refine lockSource_yields fun h mem named => ?_
  simp only [ensures_refuse, ensures_ite, ensures_pure, not_false_iff, implies_true, true_and]
  exact fun _ => ⟨fun _ => .refl, fun _ => by
    simpa using fence_move_progress unique .released (some .confirmed)⟩

theorem releaseHold_progress (unique : Table.Unique QueueHold.attemptId q.holds)
    (c : QueueHoldRelease) : Yields (q.releaseHold c now) (Progress q) := by
  simp only [releaseHold, ensures_bind, yields_check]
  intro _ _
  refine lockSource_yields fun h mem named => ?_
  simp only [ensures_refuse, not_false_iff, implies_true, true_and]
  exact fun _ => by simpa using fence_move_progress unique .released (some .operator)

theorem requestStop_progress (unique : Table.Unique QueueHold.attemptId q.holds) {h : QueueHold}
    (mem : h ∈ q.holds) (isOpen : h.state ≠ .released) (fresh : h.stopRequestedAt = none) :
    Yields (q.requestStop h now) (Progress q) := by
  simp only [requestStop, ensures_bind, fence_yields, ensures_refuse, not_false_iff, implies_true,
    true_and]
  intro _ _
  have asked : HoldsAdvance q { q with
      holds := Table.put QueueHold.attemptId (h.stopped now) q.holds
      tasks := q.tasks.map (TaskRun.fence h.attemptId now) } :=
    put_advance unique mem (QueueHold.advances_stopped isOpen fresh) rfl
  have unique' : Table.Unique QueueHold.attemptId
      (Table.put QueueHold.attemptId (h.stopped now) q.holds) := Table.unique_put unique
  have lowers : ∀ {q' : Queue}, q'.tasks = q.tasks.map (TaskRun.fence h.attemptId now) →
      Lowered q q' := fun tasks => .inr ⟨h.attemptId, now, tasks⟩
  cases h.state with
  | reserved =>
    exact (moveHold_advance unique' .released (some .neverStarted) now).mono fun q' done =>
      (lowers done.2).kept.progress (asked.trans done.1)
  | running =>
    exact (moveHold_advance unique' .uncertain none now).mono fun q' done =>
      (lowers done.2).kept.progress (asked.trans done.1)
  | uncertain | released => exact (lowers rfl).kept.progress asked

theorem tickTimeout_progress (unique : Table.Unique QueueHold.attemptId q.holds)
    (taskId attemptId : String) : Yields (q.tickTimeout taskId attemptId now) (Progress q) := by
  simp only [tickTimeout, ensures_bind]
  refine lockSource_yields fun h mem named => ?_
  simp only [ensures_ite, ensures_pure]
  refine ⟨fun stops => requestStop_progress unique mem stops.1 stops.2.1, fun _ => ⟨fun _ => ?_,
    fun _ => .refl⟩⟩
  exact fence_move_progress unique .released (some .timeout)

theorem putPolicy_progress (c : QueuePolicyPut) : Yields (q.putPolicy c now) (Progress q) := by
  simp only [putPolicy, ensures_bind, yields_check, ensures_refuse, not_false_iff, implies_true,
    true_and]
  intro _ _ _ _ _ _
  cases q.policy with
  | none =>
    simp only [adopt, ensures_bind, ensures_refuse, ensures_pure, not_false_iff, implies_true,
      true_and]
    intro _ _
    exact .of_subset (List.Subset.refl q.attempts) (List.subset_append_left _ _)
  | some p =>
    simp only [ensures_bind, ensures_refuse, ensures_pure, not_false_iff, implies_true, true_and]
    intro _
    exact .of_subset (List.Subset.refl q.attempts) (List.Subset.refl q.holds)

theorem submit_progress (command : SubmitCommand) (descriptor : ProgramDescriptor)
    (taskId runId : String) (lineage : Lineage) :
    Yields (q.submit command descriptor taskId runId lineage now) (Progress q) := by
  simp only [submit, ensures_bind, yields_check, ensures_refuse, ensures_pure, not_false_iff,
    implies_true, true_and]
  intro t _ _
  have same : attempts { q with tasks := q.tasks ++ [TaskRun.submitted t lineage] } = q.attempts := by
    simp [attempts, TaskRun.submitted]
  refine .of_subset ?_ (List.Subset.refl q.holds)
  rw [same]
  exact List.Subset.refl _

theorem collect_progress (taskId : String) : Yields (q.collect taskId) (Progress q) := by
  simp only [collect, run, ensures_bind, ensures_okOr, ensures_refuse, ensures_pure, not_false_iff,
    implies_true, true_and]
  intro _ _ _
  have fewer : (q.tasks.filter fun s => s.taskId ≠ taskId).Sublist q.tasks := List.filter_sublist
  refine .of_subset ?_ (List.Subset.refl q.holds)
  exact (fewer.flatMap TaskRun.attempts).subset

section Decisions
variable {s : TaskRun} {attempt : AttemptSnapshot}

/-- A decision that keeps the attempts of a run keeps those of the queue. -/
theorem putRun_progress (sound : Sound forced q) (mem : s ∈ q.tasks) {t : TaskRun}
    (same : t.taskId = s.taskId) (kept : t.attempts = s.attempts) : Progress q (q.putRun t) := by
  have still := attempts_putRun_same sound.tasks mem same kept
  refine .of_subset ?_ (List.Subset.refl q.holds)
  rw [still]
  exact List.Subset.refl _

theorem guardInsert_progress (sound : Sound forced q) (mem : s ∈ q.tasks) {t : TaskRun}
    (same : t.taskId = s.taskId) (added : t.attempts = s.attempts ++ [a])
    {setting : Option (String × Nat)} :
    Yields ((q.putRun t).guardInsert a setting) (Progress q) := by
  obtain ⟨before, after, old, new⟩ := attempts_putRun sound.tasks mem same
  have either : ∀ b ∈ (q.putRun t).attempts, b ∈ q.attempts ∨ b = a := by
    intro b mem'
    rw [new, added] at mem'
    rw [old]
    simp only [List.mem_append, List.mem_singleton] at mem' ⊢
    tauto
  have accounted := sound.accounted
  unfold guardInsert
  cases enrolled : (q.putRun t).policy with
  | none =>
    have empty : q.holds = [] := accounted.unenrolled enrolled
    refine ⟨.of_subset (List.Subset.refl q.holds), fun b _ h held _ => ?_⟩
    rw [empty] at held
    cases held
  | some p =>
    simp only [ensures_bind, ensures_okOr, ensures_refuse, ensures_pure, not_false_iff, implies_true,
      true_and, not_or]
    intro claim _ _ _ unused
    refine ⟨.of_subset (List.subset_append_left _ _), fun b mem' h held named => ?_⟩
    cases either b mem' with
    | inl stored => exact ⟨b, stored, rfl, Nat.le_refl _, fun starts => .inl starts⟩
    | inr fresh =>
      have key : (reserve p a claim.2).attemptId = a.id := rfl
      refine absurd (List.mem_map.mpr ⟨h, held, ?_⟩) unused.2
      rw [named, fresh, key]

theorem assign_progress (sound : Sound forced q) (taskId : String) (context : ClaimContext)
    (command : AcquireCommand) :
    Yields (q.assign taskId context command now) (Progress q) := by
  unfold assign
  refine ensures_bind.mpr (run_spec (fun _ never => never) fun s mem named => ?_)
  refine ensures_ite.mpr ⟨fun _ => .refl, fun _ => ?_⟩
  refine ensures_bind.mpr (yields_check.mpr ?_)
  intro t acquired
  cases changes : t.changes with
  | none => exact .refl
  | some changes' =>
    have named : changes'.task.taskId = s.taskId := by
      obtain ⟨session, -, -, done⟩ := acquire_acquired acquired
      cases done with
      | replayed | emptied => cases changes
      | claimed task ids fresh offered given claimable =>
        obtain rfl := Option.some.inj offered
        cases changes
        rfl
    simp only [ensures_bind, ensures_okOr, ensures_refuse, yields_check, not_false_iff, implies_true,
      true_and]
    intro a _
    refine ensures_of_ok (fun _ _ never => never) fun prepared _ _ u inserted => ?_
    simp only [TaskRun.insert, bind_eq_ok, okOr_eq_ok, Option.some.injEq, exists_eq_left',
      refuse_eq_ok, exists_unit, pure_eq_ok] at inserted
    obtain ⟨-, rfl⟩ := inserted
    have same : TaskRun.taskId ⟨changes'.task, s.attempts ++ [prepared.1],
      s.log ++ changes'.history⟩ = s.taskId := named
    exact guardInsert_progress sound mem same rfl

theorem onAttempt_progress (sound : Sound forced q) (mem : s ∈ q.tasks)
    (here : attempt ∈ s.attempts) {op : AttemptOp} {w : Writes} {deadline : Nat}
    (decided : op.decide s.task { attempt with deadline } now = .ok w) :
    Yields
      (match (w.keepDeadline attempt).attempt with
        | none => .ok (q.putRun (s.commit (w.keepDeadline attempt)))
        | some new => (q.putRun (s.commit (w.keepDeadline attempt))).attemptTransition attempt new
            sampled)
      (Progress q) := by
  have steady := sound.steady s mem
  have stored := steady.sound.coherent here
  have coherent : Coherent s.task { attempt with deadline } := stored
  have move := decide_moves coherent decided
  have kept := w.keepDeadline_getD attempt deadline
  have owner := (Move.same_attempt move).owner
  have named : ((w.keepDeadline attempt).attempt.getD attempt).id = attempt.id := by
    rw [kept, AttemptSnapshot.id, AttemptSnapshot.id]
    exact congrArg LeaseOwner.attemptId owner
  have committed := steady.sound.commit_eq here (w.keepDeadline attempt)
  have same : (s.commit (w.keepDeadline attempt)).taskId = s.taskId :=
    (Move.same_task move).1.taskId
  have put := attempts_putRun_put sound.tasks sound.attempts mem same here named
    (congrArg TaskRun.attempts committed)
  cases written : (w.keepDeadline attempt).attempt with
  | none =>
    refine .of_subset ?_ (List.Subset.refl q.holds)
    rw [put, written, Option.getD_none, Table.put_self sound.attempts (mem_attempts mem here)]
    exact List.Subset.refl _
  | some new =>
    rw [written, Option.getD_some] at kept named put
    have unique : Table.Unique QueueHold.attemptId
      (q.putRun (s.commit (w.keepDeadline attempt))).holds := sound.accounted.unique
    refine (attemptTransition_advance unique).mono ?_
    intro q' done
    obtain ⟨holds, tasks, starts⟩ := done
    have attempts' : q'.attempts = Table.put AttemptSnapshot.id new q.attempts := by
      rw [← put, attempts, tasks, ← attempts]
    refine ⟨holds, fun b mem' h held same' => ?_⟩
    rw [attempts'] at mem'
    obtain rfl | ⟨stored, -⟩ := Table.mem_put mem'
    · refine ⟨attempt, mem_attempts mem here, named.symm, by rw [kept], fun started => ?_⟩
      cases before : attempt.executionMayHaveStarted with
      | true => exact .inl rfl
      | false =>
        have enrolled : q.policy ≠ none := by
          intro absent
          rw [sound.accounted.unenrolled absent] at held
          cases held
        exact .inr (starts started before enrolled h held same')
    · exact ⟨b, stored, rfl, Nat.le_refl _, fun started => .inl started⟩

theorem decide_progress (sound : Sound forced q) (taskId : String) (op : TaskOp) :
    Yields (q.decide taskId op now sampled) (Progress q) := by
  unfold decide
  refine ensures_bind.mpr (run_spec (fun _ never => never) fun s mem named => ?_)
  cases op with
  | acquire context command => exact assign_progress sound taskId context command
  | cancelUnassigned =>
    dsimp only
    refine ensures_bind.mpr (yields_check.mpr ?_)
    intro t applied
    have kept : t.taskId = s.taskId ∧ t.attempts = s.attempts := by
      obtain rfl | ⟨-, -, -, -, rfl⟩ := TaskRun.apply_cancelUnassigned applied
      · exact ⟨rfl, rfl⟩
      · exact ⟨rfl, rfl⟩
    exact putRun_progress sound mem kept.1 kept.2
  | onAttempt id op =>
    dsimp only
    refine ensures_bind.mpr (yields_check.mpr ?_)
    intro attempt found
    refine ensures_bind.mpr (yields_check.mpr ?_)
    intro w decided
    exact onAttempt_progress sound mem (Table.find_mem (okOr_eq_ok.mp found)) decided

end Decisions

theorem step_progress (sound : Sound forced q) (c : QueueCommand) :
    Yields (q.step c) (Progress q) := by
  cases c with
  | submit command descriptor taskId runId lineage now =>
    exact submit_progress command descriptor taskId runId lineage
  | decide taskId op now sampled => exact decide_progress sound taskId op
  | collect taskId => exact collect_progress taskId
  | closeHold c now => exact closeHold_progress sound.accounted.unique c
  | releaseHold c now => exact releaseHold_progress sound.accounted.unique c
  | tickTimeout taskId attemptId now =>
    exact tickTimeout_progress sound.accounted.unique taskId attemptId
  | putPolicy c now => exact putPolicy_progress c

end Queue
end Ledgence
