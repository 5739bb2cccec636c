import Ledgence.Queues.Occupancy
import Ledgence.Queues.Presentable

/-! Whenever the first policy comes, the decisions on the tasks of the queue go on: the trigger only
stops user code that would start too late. -/
open Kit Kit.Checked

namespace Ledgence
namespace QueueWatch
variable {w : QueueWatch} {s : TaskRun} {attempt new : AttemptSnapshot} {op : AttemptOp}
  {written : Writes} {now : Nat}

/-- An attempt that changes under a policy has a hold, or is a denied one that confirms its cleanup. -/
theorem changing_held (reachable : w.Reachable) (mem : s ∈ w.queue.tasks)
    (here : attempt ∈ s.attempts)
    (decided : op.decide s.task (w.queue.load attempt) now = .ok written)
    (writes : (written.keepDeadline attempt).attempt = some new) (enrolled : w.queue.policy ≠ none)
    (changed : ¬ Queue.SamePhase attempt new) :
    (∃ h ∈ w.queue.holds, h.attemptId = attempt.id) ∨
      Queue.DeniedCleanup attempt new ∧ new = confirmedAttempt attempt := by
  have sound := reachable.sound
  have stored := (sound.steady s mem).sound.coherent here
  have coherent : Coherent s.task (w.queue.load attempt) := stored
  have move := decide_moves coherent decided
  have kept := written.keepDeadline_getD attempt (w.queue.effectiveDeadline attempt)
  rw [writes, Option.getD_some] at kept
  by_cases outstanding : attempt.Outstanding
  · have covered := sound.covered enrolled attempt (Queue.mem_attempts mem here)
    obtain ⟨h, held, named, -⟩ := covered.held outstanding
    exact .inl ⟨h, held, named⟩
  · obtain same | ⟨cleanup, confirmed⟩ := MoveBy.cleanup move outstanding
    · rw [kept] at changed
      exact absurd same changed
    · refine .inr ⟨?_, ?_⟩
      · rw [kept]
        exact cleanup
      · have confirmed : written.attempt.getD
            { attempt with deadline := w.queue.effectiveDeadline attempt } =
              confirmedAttempt (w.queue.load attempt) := confirmed
        rw [kept, confirmed]
        rfl

/-- Whatever came before the policy, each update that a core decision writes passes the trigger. The
only exception starts user code under a hold that is released, told to stop, or past its deadline. -/
theorem enrolment_never_blocks (reachable : w.Reachable) (mem : s ∈ w.queue.tasks)
    (here : attempt ∈ s.attempts)
    (decided : op.decide s.task (w.queue.load attempt) now = .ok written)
    (writes : (written.keepDeadline attempt).attempt = some new) :
    (∀ sampled, (∃ q, (w.queue.putRun (s.commit (written.keepDeadline attempt))).attemptTransition
        attempt new sampled = .ok q) ∨
      (w.queue.putRun (s.commit (written.keepDeadline attempt))).attemptTransition attempt new
        sampled = .error .lateStart ∧
      ∃ h ∈ w.queue.holds, h.attemptId = attempt.id ∧ Queue.StartsLate h attempt new sampled) ∧
    (w.queue.policy ≠ none → ¬ Queue.SamePhase attempt new →
      (∃ h ∈ w.queue.holds, h.attemptId = attempt.id) ∨
        Queue.DeniedCleanup attempt new ∧ new = confirmedAttempt attempt) := by
  refine ⟨fun sampled => ?_, changing_held reachable mem here decided writes⟩
  have sound := reachable.sound
  have stored := (sound.steady s mem).sound.coherent here
  have coherent : Coherent s.task (w.queue.load attempt) := stored
  have move := decide_moves coherent decided
  have kept := written.keepDeadline_getD attempt (w.queue.effectiveDeadline attempt)
  rw [writes, Option.getD_some] at kept
  have named : new.id = attempt.id := by
    have owner := (Move.same_attempt move).owner
    rw [kept, AttemptSnapshot.id, AttemptSnapshot.id]
    exact congrArg LeaseOwner.attemptId owner
  have spec := Queue.onAttempt_spec sound mem here decided sampled
  simp only [writes] at spec
  cases passes : (w.queue.putRun (s.commit (written.keepDeadline attempt))).attemptTransition attempt
      new sampled with
  | ok q => exact .inl ⟨q, rfl⟩
  | error fault =>
    obtain ⟨rfl, h, held, same, late⟩ := Queue.attemptTransition_error passes (spec.error passes)
    exact .inr ⟨rfl, h, held, same.trans named, late⟩

end QueueWatch

/- A run budget denies the attempt before the queue has a policy. The policy adopts nothing, and the
cleanup comes later. -/

def sampleDenied : List QueueCommand :=
  [sampleSubmission (some ⟨"models"⟩), sampleAssigned "1" 2000,
    .decide "task-1" (.onAttempt "attempt-1"
      (.denyTaskAdmission (sampleOwner "1" 1) .callsExhausted)) 2500 2500,
    .putPolicy sampleQueuePut 3000]

def sampleWatched (cs : List QueueCommand) : Option QueueWatch :=
  (QueueWatch.run (.init sampleScope "python") cs).toOption

theorem sampleWatched_reachable {cs : List QueueCommand} {w : QueueWatch}
    (h : sampleWatched cs = some w) : w.Reachable :=
  ⟨sampleScope, "python", cs, toOption_eq_some.mp h⟩

def sampleConfirm : AttemptOp := .confirmDeniedTaskQuiescence (sampleOwner "1" 1)

theorem denied_cleanup_passes : ∃ w s attempt written new,
    sampleWatched sampleDenied = some w ∧ s ∈ w.queue.tasks ∧ attempt ∈ s.attempts ∧
      sampleConfirm.decide s.task (w.queue.load attempt) 3500 = .ok written ∧
      (written.keepDeadline attempt).attempt = some new ∧
      ((∃ h ∈ w.queue.holds, h.attemptId = attempt.id) ∨
        Queue.DeniedCleanup attempt new ∧ new = confirmedAttempt attempt) := by
  have evaluated : (do
      let w ← sampleWatched sampleDenied
      let s ← w.queue.tasks.head?
      let attempt ← s.attempts.head?
      let written ← (sampleConfirm.decide s.task (w.queue.load attempt) 3500).toOption
      let new ← (written.keepDeadline attempt).attempt
      return decide (w.queue.policy ≠ none ∧ ¬ Queue.SamePhase attempt new)) = some true := by
    decide +kernel
  simp only [Option.bind_eq_bind, Option.bind_eq_some_iff, Option.pure_def, Option.some.injEq,
    decide_eq_true_eq] at evaluated
  obtain ⟨w, watched, s, task, attempt, latest, written, decided, new, writes, enrolled, changed⟩ :=
    evaluated
  have mem := List.mem_of_mem_head? task
  have here := List.mem_of_mem_head? latest
  have decided := toOption_eq_some.mp decided
  have passes := QueueWatch.enrolment_never_blocks (sampleWatched_reachable watched) mem here decided
    writes
  exact ⟨w, s, attempt, written, new, watched, mem, here, decided, writes,
    passes.2 enrolled changed⟩

end Ledgence

/-! The timeouts of holds over whole runs: the rows stay valid, a stop and a release are final, and
what they fence gets no more execution time. -/

namespace Ledgence

def QueueHold.fences (h : QueueHold) : List Nat := [h.stopRequestedAt, h.releasedAt].reduceOption

structure TimedOut (task : TaskSnapshot) (a : AttemptSnapshot) (now : Nat) : Prop where
  authority : (authority task a now).executionRemainingMs = 0 ∧
    (authority task a now).dispatchAllowed = false
  decided : ∀ op w x, AttemptOp.decide op task a now = .ok w → w.sample = some x →
    x.executionRemainingMs = 0 ∧ x.dispatchAllowed = false
  replayed : ∀ context command t n x, acquire context command now = .ok t → t.changes = none →
    context.previous = some (task, a) → t.reply = .assigned n x →
    x.authority.executionRemainingMs = 0 ∧ x.authority.dispatchAllowed = false

section Replies
variable {task : TaskSnapshot} {a : AttemptSnapshot} {now : Nat}

theorem authority_past (past : a.deadline ≤ now) (task : TaskSnapshot) :
    (authority task a now).executionRemainingMs = 0 ∧
      (authority task a now).dispatchAllowed = false := by
  simp [authority, past]

theorem timedOut (past : a.deadline ≤ now) : TimedOut task a now where
  authority := authority_past past task
  decided := by
    intro op w x decided sample
    obtain ⟨-, same, rfl⟩ | ⟨⟨-, -, early⟩, -⟩ := decide_reply decided sample
    · exact authority_past (same ▸ past) w.task
    · exact absurd past (Nat.not_le.mpr early)
  replayed := by
    intro context command t n x acquired kept loaded reply
    obtain ⟨session, -, -, done⟩ := acquire_acquired acquired
    cases done with
    | emptied => cases reply
    | claimed => cases kept
    | replayed cursor previous saved same found =>
      obtain ⟨-, rfl⟩ | ⟨reference, task', b, -, rfl, loaded', -⟩ := previousAssignment_eq_ok found
      · cases reply
      · cases loaded.symm.trans loaded'
        simp only [replayReply] at reply
        split at reply
        · cases reply
          exact authority_past past task
        · cases reply

end Replies

/-- The least of a bound and some others is within reach when one of them is. -/
theorem foldl_min_le {ts : List Nat} {d t : Nat} :
    ts.foldl min d ≤ t ↔ d ≤ t ∨ ∃ l ∈ ts, l ≤ t := by
  induction ts generalizing d with
  | nil => simp
  | cons l ts ih => simp [ih, or_assoc]

namespace QueueHold
variable {h h' : QueueHold} {t : Nat}

theorem mem_limits : t ∈ h.limits ↔
    h.deadline = some t ∨ h.stopRequestedAt = some t ∨ h.releasedAt = some t := by
  simp [limits, List.reduceOption_mem_iff, eq_comm]

theorem mem_fences : t ∈ h.fences ↔ h.stopRequestedAt = some t ∨ h.releasedAt = some t := by
  simp [fences, List.reduceOption_mem_iff, eq_comm]

theorem Advances.limits (advances : h.Advances h') (constrained : h.Constrained) :
    h.limits ⊆ h'.limits := by
  intro t limit
  rw [mem_limits] at limit ⊢
  obtain deadline | stop | ended := limit
  · exact .inl (advances.deadline.trans deadline)
  · exact .inr (.inl (advances.stop t stop))
  · have released : h.state = .released := constrained.released.mpr (by rw [ended]; rfl)
    rw [advances.released released]
    exact .inr (.inr ended)

end QueueHold

namespace Queue
variable {q q' q'' : Queue} {a b : AttemptSnapshot} {forced : List String}

theorem Progress.trans (first : Progress q q') (second : Progress q' q'') : Progress q q'' where
  holds := first.holds.trans second.holds
  attempts b mem h held named := by
    obtain ⟨h', held', here⟩ := first.holds h held
    obtain ⟨m, mem', same, lower, starts⟩ :=
      second.attempts b mem h' held' (here.attemptId.trans named)
    obtain ⟨a, stored, same', lower', starts'⟩ :=
      first.attempts m mem' h held (named.trans same.symm)
    refine ⟨a, stored, same'.trans same, lower.trans lower', fun started => ?_⟩
    cases starts started with
    | inl before => exact starts' before
    | inr late =>
      refine .inr ⟨fun ended => late.1 (here.released ended ▸ ended), ?_⟩
      cases asked : h.stopRequestedAt with
      | none => rfl
      | some t => cases late.2.symm.trans (here.stop t asked)

theorem effectiveDeadline_held (unique : Table.Unique QueueHold.attemptId q.holds) {h : QueueHold}
    (held : h ∈ q.holds) (named : h.attemptId = a.id) :
    q.effectiveDeadline a = h.limits.foldl min a.deadline := by
  rw [effectiveDeadline, ← named, Table.find_of_mem unique held]

theorem effectiveDeadline_mono (accounted : Accounted q) (accounted' : Accounted q') {h h' : QueueHold}
    (held : h ∈ q.holds) (held' : h' ∈ q'.holds) (advances : h.Advances h')
    (named : h.attemptId = a.id) (same : a.id = b.id) (lower : b.deadline ≤ a.deadline) :
    q'.effectiveDeadline b ≤ q.effectiveDeadline a := by
  rw [effectiveDeadline_held accounted.unique held named,
    effectiveDeadline_held accounted'.unique held' (advances.attemptId.trans (named.trans same)),
    foldl_min_le]
  have least : a.deadline ≤ h.limits.foldl min a.deadline ∨
      ∃ l ∈ h.limits, l ≤ h.limits.foldl min a.deadline := foldl_min_le.mp (Nat.le_refl _)
  cases least with
  | inl own => exact .inl (lower.trans own)
  | inr limit =>
    obtain ⟨l, there, within⟩ := limit
    exact .inr ⟨l, advances.limits (accounted.holds h held).constrained there, within⟩

end Queue

def QueueCommand.Handles : QueueCommand → Prop
  | .decide _ (.onAttempt ..) .. | .closeHold .. | .releaseHold .. | .tickTimeout .. => True
  | .decide _ (.acquire ..) .. | .decide _ .cancelUnassigned .. | .submit .. | .collect ..
  | .putPolicy .. => False

namespace Queue
variable {q : Queue} {forced : List String}

/-- No row that a transaction on a hold writes fails a check of its table. -/
theorem step_constrained (sound : Sound forced q) {c : QueueCommand} (handles : c.Handles) :
    q.step c ≠ .error .constraint := by
  have never : ∀ {post : Queue → Prop}, Ensures QueueFault.Broken (q.step c) post →
      q.step c ≠ .error .constraint := fun spec failed => spec.error failed (.inr (.inl rfl))
  cases c with
  | closeHold c now => exact never (closeHold_spec sound.accounted c)
  | releaseHold c now => exact never (releaseHold_spec sound.accounted c)
  | tickTimeout taskId attemptId now => exact never (tickTimeout_spec sound.accounted taskId attemptId)
  | decide taskId op now sampled =>
    cases op with
    | onAttempt id op =>
      refine @never (fun _ => True) ?_
      rw [step, decide, ensures_bind]
      refine run_spec (by simp [QueueFault.Broken]) fun s mem named => ?_
      dsimp only
      rw [ensures_bind, unbroken_check]
      intro attempt found
      rw [ensures_bind, unbroken_check]
      intro w decided
      have here := Table.find_mem (okOr_eq_ok.mp found)
      exact (onAttempt_spec sound mem here decided sampled).mono fun _ _ => trivial
    | acquire | cancelUnassigned => exact handles.elim
  | submit | collect | putPolicy => exact handles.elim

end Queue

namespace QueueWatch
variable {w w' : QueueWatch} {c : QueueCommand} {cs : List QueueCommand}

theorem step_queue (stepped : w.step c = .ok w') : w.queue.step c = .ok w'.queue := by
  unfold step at stepped
  obtain ⟨q, done, stepped⟩ := bind_eq_ok.mp stepped
  rw [done]
  cases c <;> cases stepped <;> rfl

theorem step_fault {fault : QueueFault} (failed : w.step c = .error fault) :
    w.queue.step c = .error fault := by
  unfold step at failed
  cases done : w.queue.step c with
  | error fault' =>
    rw [done] at failed
    cases failed
    rfl
  | ok q =>
    rw [done] at failed
    cases c <;> cases failed

theorem run_progress (sound : w.queue.Sound w.forced) (runs : w.run cs = .ok w') :
    w.queue.Progress w'.queue := by
  have kept := foldlM_invariant
    (P := fun v => v.queue.Sound v.forced ∧ w.queue.Progress v.queue)
    (fun v c _ v' stepped inv =>
      have next := (Queue.step_progress inv.1 c).ok (step_queue stepped)
      ⟨((step_spec inv.1 c).ok stepped).sound, inv.2.trans next⟩) runs ⟨sound, .refl⟩
  exact kept.2

theorem run_presentable (sound : w.queue.Sound w.forced) (presentable : w.queue.Presentable)
    (early : ∀ c ∈ cs, ∀ t ∈ c.samples, Early t) (runs : w.run cs = .ok w') :
    w'.queue.Presentable := by
  have kept := foldlM_invariant (P := fun v => v.queue.Sound v.forced ∧ v.queue.Presentable)
    (fun v c mem v' stepped inv =>
      ⟨((step_spec inv.1 c).ok stepped).sound,
        (Queue.step_presentable inv.1 inv.2 c (early c mem)).ok (step_queue stepped)⟩)
    runs ⟨sound, presentable⟩
  exact kept.2

theorem run_fences (sound : w.queue.Sound w.forced) (runs : w.run cs = .ok w') {h : QueueHold}
    (held : h ∈ w.queue.holds) {t : Nat} (fenced : t ∈ h.fences) {b : AttemptSnapshot}
    (mem : b ∈ w'.queue.attempts) (named : h.attemptId = b.id) :
    w'.queue.effectiveDeadline b ≤ t ∧
      ∃ a ∈ w.queue.attempts, a.id = b.id ∧
        w'.queue.effectiveDeadline b ≤ w.queue.effectiveDeadline a ∧
        (b.executionMayHaveStarted = true → a.executionMayHaveStarted = true) := by
  have accounted' := (run_sound sound runs).accounted
  have progress := run_progress sound runs
  have constrained := (sound.accounted.holds h held).constrained
  obtain ⟨h', held', advances⟩ := progress.holds h held
  obtain ⟨a, stored, same, lower, starts⟩ := progress.attempts b mem h held named
  have limit : t ∈ h.limits := by
    rw [QueueHold.mem_limits]
    exact .inr (QueueHold.mem_fences.mp fenced)
  refine ⟨?effective, a, stored, same, ?lowered, fun started => ?kept⟩
  case effective =>
    rw [Queue.effectiveDeadline_held accounted'.unique held' (advances.attemptId.trans named),
      foldl_min_le]
    exact .inr ⟨t, advances.limits constrained limit, Nat.le_refl t⟩
  case lowered =>
    exact Queue.effectiveDeadline_mono sound.accounted accounted' held held' advances
      (named.trans same.symm) same lower
  case kept =>
    cases starts started with
    | inl before => exact before
    | inr late =>
      cases QueueHold.mem_fences.mp fenced with
      | inl stop => cases late.2.symm.trans stop
      | inr released =>
        exact absurd (constrained.released.mpr (by rw [released]; rfl)) late.1

/-- The rows of the holds pass every check, a stop and a release come in order and once, and an
attempt whose hold was stopped or released gets no execution time from then on. -/
theorem hold_timeouts_fenced {scope : Scope} {name : String} {cs' : List QueueCommand}
    (runs : run (init scope name) cs = .ok w) (later : w.run cs' = .ok w') :
    ((∀ h ∈ w'.queue.holds, h.Constrained) ∧
      (∀ c : QueueCommand, c.Handles → w'.step c ≠ .error .constraint) ∧
      ((∀ c ∈ cs ++ cs', ∀ t ∈ c.samples, Early t) → ∀ h ∈ w'.queue.holds, h.validate = .ok ())) ∧
    (∀ h ∈ w.queue.holds, ∃ h' ∈ w'.queue.holds, h.Advances h') ∧
    (∀ h ∈ w'.queue.holds,
      (∀ stop, h.stopRequestedAt = some stop →
        ∃ deadline, h.deadline = some deadline ∧ deadline ≤ stop) ∧
      (h.releaseKind = some .timeout → ∃ stop graceMs released, h.stopRequestedAt = some stop ∧
        h.graceMs = some graceMs ∧ h.releasedAt = some released ∧ stop + graceMs ≤ released)) ∧
    ∀ h ∈ w.queue.holds, ∀ t ∈ h.fences, ∀ b ∈ w'.queue.attempts, h.attemptId = b.id →
      w'.queue.effectiveDeadline b ≤ t ∧
      (∃ a ∈ w.queue.attempts, a.id = b.id ∧
        w'.queue.effectiveDeadline b ≤ w.queue.effectiveDeadline a ∧
        (b.executionMayHaveStarted = true → a.executionMayHaveStarted = true)) ∧
      ∀ task now, t ≤ now → TimedOut task (w'.queue.load b) now := by
  have sound := run_sound (init_sound scope name) runs
  have sound' := run_sound sound later
  have constrained : ∀ h ∈ w'.queue.holds, h.Constrained :=
    fun h held => (sound'.accounted.holds h held).constrained
  refine ⟨⟨constrained, ?handled, ?readable⟩, (run_progress sound later).holds, ?ordered, ?fenced⟩
  case handled =>
    exact fun c handles failed => Queue.step_constrained sound' handles (step_fault failed)
  case readable =>
    intro early h held
    have empty : (Queue.init scope name).Presentable :=
      ⟨fun enrolled => absurd rfl enrolled, by simp [Queue.init], by simp [Queue.init]⟩
    have before := run_presentable (init_sound scope name) empty
      (fun c mem => early c (List.mem_append_left _ mem)) runs
    have after := run_presentable sound before
      (fun c mem => early c (List.mem_append_right _ mem)) later
    exact (after.holds h held).validate (constrained h held)
  case ordered =>
    intro h held
    refine ⟨(constrained h held).stop, fun timeout => ?_⟩
    obtain ⟨force, scheduled, released, ended, late⟩ := (constrained h held).timeout timeout
    have forced : h.forcedAt = some force := (constrained h held).force.symm.trans scheduled
    unfold QueueHold.forcedAt at forced
    split at forced
    · rename_i stop graceMs asked grace
      cases forced
      exact ⟨stop, graceMs, released, asked, grace, ended, late⟩
    · cases forced
  case fenced =>
    intro h held t fenced b mem named
    have left := run_fences sound later held fenced mem named
    exact ⟨left.1, left.2, fun task now past => timedOut (left.1.trans past)⟩

end QueueWatch

/- A queue with a timeout: its one attempt runs and is told to stop. -/

def sampleTimeoutPut : QueuePolicyPut :=
  { sampleQueuePut with policy := ⟨some 1, some ⟨10000, .afterGrace 5000⟩⟩ }

def sampleRenew (sequence : Nat) (intent : RenewIntent) : AttemptOp :=
  .renew (some sampleSession) ⟨sampleOwner "1" 1, sequence, intent⟩

def sampleRunning : List QueueCommand :=
  [.putPolicy sampleTimeoutPut 900, sampleSubmission none, sampleAssigned "1" 2000,
    .decide "task-1" (.onAttempt "attempt-1" (sampleRenew 1 .dispatch)) 3000 3000]

def sampleTick (now : Nat) : QueueCommand := .tickTimeout "task-1" "attempt-1" now

/-- After a stop at 12000, a clock that goes back lets a renewal grant another second; and a stop at
the end of the supported range leaves a row that can not be read back. -/
theorem stop_leaves_time :
    (∃ w w' s b h written x, sampleWatched (sampleRunning ++ [sampleTick 12000]) = some w ∧
      s ∈ w.queue.tasks ∧ b ∈ s.attempts ∧ h ∈ w.queue.holds ∧ h.attemptId = b.id ∧
      12000 ∈ h.fences ∧
      (sampleRenew 2 .keepAlive).decide s.task (w.queue.load b) 11000 = .ok written ∧
      written.sample = some x ∧ x.executionRemainingMs = 1000 ∧
      w.step (.decide "task-1" (.onAttempt "attempt-1" (sampleRenew 2 .keepAlive)) 11000 11000) =
        .ok w') ∧
    ∃ w h, sampleWatched (sampleRunning ++ [sampleTick maxTimestamp]) = some w ∧
      h ∈ w.queue.holds ∧ h.validate ≠ .ok () := by
  refine ⟨?_, ?_⟩
  · have evaluated : (do
        let w ← sampleWatched (sampleRunning ++ [sampleTick 12000])
        let s ← w.queue.tasks.head?
        let b ← s.attempts.head?
        let h ← w.queue.holds.head?
        let written ← ((sampleRenew 2 .keepAlive).decide s.task (w.queue.load b) 11000).toOption
        let x ← written.sample
        let _ ← (w.step (.decide "task-1" (.onAttempt "attempt-1" (sampleRenew 2 .keepAlive))
          11000 11000)).toOption
        return decide (h.attemptId = b.id ∧ 12000 ∈ h.fences ∧ x.executionRemainingMs = 1000)) =
          some true := by decide +kernel
    simp only [Option.bind_eq_bind, Option.bind_eq_some_iff, Option.pure_def, Option.some.injEq,
      decide_eq_true_eq] at evaluated
    obtain ⟨w, watched, s, task, b, latest, h, held, written, decided, x, sample, w', stepped, named,
      fenced, remaining⟩ := evaluated
    exact ⟨w, w', s, b, h, written, x, watched, List.mem_of_mem_head? task,
      List.mem_of_mem_head? latest, List.mem_of_mem_head? held, named, fenced,
      toOption_eq_some.mp decided, sample, remaining, toOption_eq_some.mp stepped⟩
  · have evaluated : (do
        let w ← sampleWatched (sampleRunning ++ [sampleTick maxTimestamp])
        let h ← w.queue.holds.head?
        return decide (h.validate ≠ .ok ())) = some true := by decide +kernel
    simp only [Option.bind_eq_bind, Option.bind_eq_some_iff, Option.pure_def, Option.some.injEq,
      decide_eq_true_eq] at evaluated
    obtain ⟨w, watched, h, held, unreadable⟩ := evaluated
    exact ⟨w, h, watched, List.mem_of_mem_head? held, unreadable⟩

/-- The stop at 12000, and the release that the grace forces at 17000. -/
theorem sampleStop_fenced : ∃ w w' : QueueWatch, ∃ b ∈ w'.queue.attempts,
    QueueWatch.run (.init sampleScope "python") (sampleRunning ++ [sampleTick 12000]) = .ok w ∧
      w.run [sampleTick 17000] = .ok w' ∧ w'.queue.effectiveDeadline b ≤ 12000 := by
  have evaluated : (do
      let w ← sampleWatched (sampleRunning ++ [sampleTick 12000])
      let w' ← (w.run [sampleTick 17000]).toOption
      let h ← w.queue.holds.head?
      let b ← w'.queue.attempts.head?
      return decide (h.attemptId = b.id ∧ 12000 ∈ h.fences)) = some true := by decide +kernel
  simp only [Option.bind_eq_bind, Option.bind_eq_some_iff, Option.pure_def, Option.some.injEq,
    decide_eq_true_eq] at evaluated
  obtain ⟨w, watched, w', later, h, held, b, latest, named, fenced⟩ := evaluated
  have runs := toOption_eq_some.mp watched
  have later := toOption_eq_some.mp later
  have mem := List.mem_of_mem_head? latest
  have spec := QueueWatch.hold_timeouts_fenced runs later
  exact ⟨w, w', b, mem, runs, later,
    (spec.2.2.2 h (List.mem_of_mem_head? held) 12000 fenced b mem named).1⟩

end Ledgence
