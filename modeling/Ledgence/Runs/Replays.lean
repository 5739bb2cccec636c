import Ledgence.Runs.History

/-! An operation that took effect once has no second effect, whatever happened in between. -/
open Kit Kit.Checked

namespace Ledgence

/-- What no later decision on the attempt takes back. -/
structure Persists (task : TaskSnapshot) (attempt : AttemptSnapshot) (task' : TaskSnapshot)
    (attempt' : AttemptSnapshot) : Prop where
  renewed : attempt.renewSequence ≤ attempt'.renewSequence
  settled : ∀ accepted, attempt.settlement = some accepted → attempt'.settlement = some accepted
  requested : task.cancelRequestedAt.isSome = true → task'.cancelRequestedAt = task.cancelRequestedAt
  started : attempt.executionMayHaveStarted = true → attempt'.executionMayHaveStarted = true
  ended : attempt.state ≠ .active → attempt'.state = attempt.state
  quiet : attempt.isQuiet = true → attempt'.isQuiet = true

section Persists
variable {task task' : TaskSnapshot} {attempt attempt' : AttemptSnapshot} {now : Nat}
  {events : List HistoryEvent}

theorem Persists.refl : Persists task attempt task attempt :=
  ⟨Nat.le_refl _, fun _ h => h, fun _ => rfl, fun h => h, fun _ => rfl, fun h => h⟩

theorem Closing.renewSequence {task₁ : TaskSnapshot} {attempt₁ : AttemptSnapshot}
    (h : Closing task attempt now task₁ attempt₁ events) :
    attempt₁.renewSequence = attempt.renewSequence := by
  cases h with
  | reported | confirmed | expired | cancelled | stopped => rfl

theorem Closing.settled {task₁ : TaskSnapshot} {attempt₁ : AttemptSnapshot}
    (h : Closing task attempt now task₁ attempt₁ events) :
    ∀ accepted, attempt.settlement = some accepted → attempt₁.settlement = some accepted := by
  cases h with
  | reported command acceptable isLive first quiet => simp [first]
  | confirmed | expired | cancelled | stopped => exact fun _ h => h

theorem Closing.started {task₁ : TaskSnapshot} {attempt₁ : AttemptSnapshot}
    (h : Closing task attempt now task₁ attempt₁ events) :
    attempt.executionMayHaveStarted = true → attempt₁.executionMayHaveStarted = true := by
  cases h with
  | reported => exact fun started => by simp [reportedAttempt, started]
  | confirmed | expired | cancelled | stopped => exact fun h => h

theorem Closing.requested {task₁ : TaskSnapshot} {attempt₁ : AttemptSnapshot}
    (h : Closing task attempt now task₁ attempt₁ events) :
    task.cancelRequestedAt.isSome = true → task₁.cancelRequestedAt = task.cancelRequestedAt := by
  cases h with
  | cancelled past fresh inRange => simp [fresh]
  | reported | confirmed | expired | stopped => exact fun _ => rfl

theorem Move.persists (loud : attempt.state = .active → attempt.isQuiet = false)
    (h : Move task attempt now task' attempt' events) : Persists task attempt task' attempt' := by
  have quiet : attempt.isQuiet = true → attempt.state ≠ .active := by
    intro isQuiet isActive
    simp [loud isActive] at isQuiet
  constructor
  case renewed =>
    cases h with
    | renewed session command sessionOpen isLive owner ofSession next =>
      show attempt.renewSequence ≤ command.sequence
      omega
    | closed running closing retry scheduled => exact closing.renewSequence.ge
    | same | reported | withdrawn | cancelRequested | started | denied | denialConfirmed
    | deferralCancelled | deferred => exact Nat.le_refl _
  case settled =>
    cases h with
    | reported command acceptable isLive first => simp [first]
    | closed running closing retry scheduled => exact closing.settled
    | same | renewed | withdrawn | cancelRequested | started | denied | denialConfirmed
    | deferralCancelled | deferred => exact fun _ h => h
  case requested =>
    cases h with
    | closed running closing retry scheduled => exact closing.requested
    | withdrawn queued fresh => simp [fresh]
    | cancelRequested running fresh => simp [fresh]
    | deferred quiescence running governed unstarted unsettled fresh => simp [fresh]
    | same | renewed | reported | started | denied | denialConfirmed | deferralCancelled =>
      exact fun _ => rfl
  case started =>
    cases h with
    | renewed => exact fun started => by simp [renewedAttempt, started]
    | reported => exact fun started => by simp [reportedAttempt, started]
    | closed running closing retry scheduled => exact closing.started
    | same | withdrawn | cancelRequested | denied | denialConfirmed | deferralCancelled
    | deferred => exact fun h => h
    | started => exact fun _ => rfl
  case ended =>
    intro past
    obtain ⟨-, -, state⟩ | ⟨running, -⟩ := h.phase
    · exact state
    · exact absurd running.attemptActive past
  case quiet =>
    intro isQuiet
    obtain rfl | ⟨rfl, -⟩ := h.of_ended (quiet isQuiet)
    · exact isQuiet
    · rfl

end Persists

def AttemptOp.Done (op : AttemptOp) (task : TaskSnapshot) (attempt : AttemptSnapshot) : Prop :=
  match op with
  | .renew _ command => command.sequence ≤ attempt.renewSequence
  | .settle _ => attempt.settlement.isSome = true
  | .confirmQuiescence _ | .confirmDeniedTaskQuiescence _ => attempt.isQuiet = true
  | .cancel => task.cancelRequestedAt.isSome = true
  | .startTaskAdmission _ => attempt.executionMayHaveStarted = true
  | .expire | .denyTaskAdmission _ _ | .deferTaskAdmission _ _ | .stopStartedTaskAdmission _ =>
    attempt.state ≠ .active

def Writes.Unchanged (w : Writes) (task : TaskSnapshot) (attempt : AttemptSnapshot) : Prop :=
  w.task = task ∧ w.attempt.getD attempt = attempt ∧ w.history = []

def AttemptOp.Effect (op : AttemptOp) (task : TaskSnapshot) (attempt : AttemptSnapshot)
    (w : Writes) : Prop :=
  w.Unchanged task attempt ∨
    ¬ op.Done task attempt ∧ op.Done w.task (w.attempt.getD attempt)

section Effects
variable {task : TaskSnapshot} {attempt : AttemptSnapshot} {now : Nat}

@[simp] theorem isQuiet_eq_true : attempt.isQuiet = true ↔ attempt.quiescence = .confirmed :=
  decide_eq_true_iff

theorem unchanged_unchanged {R : Type} {reply : R} :
    (unchanged task (some attempt) reply).writes.Unchanged task attempt :=
  ⟨rfl, rfl, rfl⟩

theorem renew_effect {session : Option WorkerSession} {command : RenewCommand}
    {t : Transition Authority} (h : renew task attempt session command now = .ok t) :
    (AttemptOp.renew session command).Effect task attempt t.granting := by
  simp only [renew, bind_eq_ok, refuse_eq_ok, okOr_eq_ok, exists_unit] at h
  obtain ⟨-, -, _, -, -, -, -, ordered, current, h⟩ := h
  split at h
  · obtain ⟨-, rfl⟩ := by simpa using h
    exact .inl ⟨rfl, rfl, rfl⟩
  · rename_i fresh
    simp only [bind_eq_ok, pure_eq_ok] at h
    obtain ⟨_, -, rfl⟩ := h
    refine .inr ⟨?_, Nat.le_refl _⟩
    show ¬ command.sequence ≤ attempt.renewSequence
    omega

theorem settle_effect {command : SettleCommand} {t : Transition SettleReply}
    (h : settle task attempt command now = .ok t) :
    (AttemptOp.settle command).Effect task attempt t.writes := by
  simp only [settle, bind_eq_ok, refuse_eq_ok, exists_unit] at h
  obtain ⟨-, -, -, -, h⟩ := h
  split at h
  · obtain ⟨-, rfl⟩ := by simpa using h
    exact .inl unchanged_unchanged
  · rename_i first
    simp only [bind_eq_ok, refuse_eq_ok, exists_unit] at h
    obtain ⟨-, h⟩ := h
    split at h
    · simp only [bind_eq_ok, pure_eq_ok, Prod.exists, finish_eq_ok] at h
      obtain ⟨_, _, _, ⟨retry, -, rfl, rfl, rfl⟩, rfl⟩ := h
      exact .inr ⟨by simp [AttemptOp.Done, first], rfl⟩
    · obtain rfl := by simpa using h
      exact .inr ⟨by simp [AttemptOp.Done, first], rfl⟩

theorem confirmQuiescence_effect {owner : LeaseOwner} {t : Transition TaskState}
    (h : confirmQuiescence task attempt owner now = .ok t) :
    (AttemptOp.confirmQuiescence owner).Effect task attempt t.writes := by
  simp only [confirmQuiescence, bind_eq_ok, exists_unit] at h
  obtain ⟨-, h⟩ := h
  split at h
  · obtain rfl := by simpa using h
    exact .inl unchanged_unchanged
  · rename_i loud
    simp only [bind_eq_ok, refuse_eq_ok, exists_unit, pure_eq_ok, Prod.exists, finish_eq_ok] at h
    obtain ⟨-, -, _, _, _, ⟨retry, -, rfl, rfl, rfl⟩, rfl⟩ := h
    exact .inr ⟨by simpa [AttemptOp.Done] using loud, rfl⟩

theorem expire_effect {t : Transition Bool} (h : expire task attempt now = .ok t) :
    AttemptOp.expire.Effect task attempt t.writes := by
  obtain ⟨same, -⟩ | ⟨running, -, retry, -, same⟩ := expire_cases h
  · rw [same]
    exact .inl ⟨rfl, rfl, rfl⟩
  · rw [same]
    exact .inr ⟨by simp [AttemptOp.Done, running.attemptActive], finishState_ne_active⟩

/-- An accepted cancellation finds the task ended or cancelled, or records the request and gives the
running attempt its grace, if its lease leaves any. -/
theorem cancel_cases {given : Option AttemptSnapshot} {t : Transition TaskState}
    (h : cancel task given now = .ok t) :
    ((task.state.isTerminal = true ∨ task.cancelRequestedAt.isSome = true) ∧
      t = unchanged task given task.state) ∨
    (task.cancelRequestedAt = none ∧ t.task.cancelRequestedAt.isSome = true ∧
      (t.attempt = none ∨ ∃ a, given = some a ∧
        ((a.lease.expiresAt ≤ now ∨ a.authorityDeadline ≤ now) ∨
          t.attempt = some (shortenedAttempt a (now + cleanupGraceMs))))) := by
  simp only [cancel, bind_eq_ok] at h
  obtain ⟨_, -, h⟩ := h
  split at h
  · rename_i gone
    refine .inl ⟨?_, (pure_eq_ok.mp h).symm⟩
    simpa [Option.isSome_iff_ne_none] using gone
  · rename_i proceeds
    simp only [not_or, not_not] at proceeds
    refine .inr ⟨proceeds.2, ?_⟩
    split at h
    · simp only [bind_eq_ok, refuse_eq_ok, exists_unit, pure_eq_ok] at h
      obtain ⟨-, rfl⟩ := h
      exact ⟨rfl, .inl rfl⟩
    · simp only [bind_eq_ok, okOr_eq_ok, refuse_eq_ok, exists_unit] at h
      obtain ⟨a, rfl, -, -, h⟩ := h
      split at h
      · rename_i past
        simp only [bind_eq_ok, pure_eq_ok] at h
        obtain ⟨⟨_, _, _, _⟩, expired, rfl⟩ := h
        refine ⟨?_, .inr ⟨a, rfl, .inl past⟩⟩
        obtain ⟨same, -⟩ | ⟨-, -, retry, -, same⟩ := expire_cases expired
        · simp only [Transition.writes, Writes.mk.injEq] at same
          obtain ⟨rfl, -⟩ := same
          rfl
        · simp only [Transition.writes, Writes.mk.injEq] at same
          obtain ⟨rfl, -⟩ := same
          rfl
      · simp only [bind_eq_ok, addTime_eq_ok, pure_eq_ok] at h
        obtain ⟨_, ⟨-, rfl⟩, rfl⟩ := h
        exact ⟨rfl, .inr ⟨a, rfl, .inr rfl⟩⟩

theorem cancel_effect {t : Transition TaskState}
    (h : cancel task (some attempt) now = .ok t) :
    AttemptOp.cancel.Effect task attempt t.writes := by
  obtain ⟨-, rfl⟩ | ⟨fresh, requested, -⟩ := cancel_cases h
  · exact .inl unchanged_unchanged
  · exact .inr ⟨by simp [AttemptOp.Done, fresh], requested⟩

theorem startTaskAdmission_effect {owner : LeaseOwner} {t : Transition Authority}
    (h : startTaskAdmission task attempt owner now = .ok t) :
    (AttemptOp.startTaskAdmission owner).Effect task attempt t.granting := by
  simp only [startTaskAdmission, bind_eq_ok, refuse_eq_ok, exists_unit, pure_eq_ok, not_or] at h
  obtain ⟨-, -, ⟨-, -, -, -, unstarted⟩, rfl⟩ := h
  exact .inr ⟨unstarted, rfl⟩

theorem denyTaskAdmission_effect {owner : LeaseOwner} {reason : RunBudgetDenial}
    {t : Transition TaskState} (h : denyTaskAdmission task attempt owner reason now = .ok t) :
    (AttemptOp.denyTaskAdmission owner reason).Effect task attempt t.writes := by
  simp only [denyTaskAdmission, bind_eq_ok, refuse_eq_ok, exists_unit, pure_eq_ok, not_or,
    not_not] at h
  obtain ⟨-, _, -, ⟨-, isLive, -⟩, rfl⟩ := h
  exact .inr ⟨fun past => past isLive.running.attemptActive, by simp [AttemptOp.Done,
    Transition.writes, deniedAttempt]⟩

theorem confirmDeniedTaskQuiescence_effect {owner : LeaseOwner} {t : Transition TaskState}
    (h : confirmDeniedTaskQuiescence task attempt owner now = .ok t) :
    (AttemptOp.confirmDeniedTaskQuiescence owner).Effect task attempt t.writes := by
  simp only [confirmDeniedTaskQuiescence, bind_eq_ok, refuse_eq_ok, exists_unit] at h
  obtain ⟨-, _, -, -, h⟩ := h
  split at h
  · obtain rfl := by simpa using h
    exact .inl unchanged_unchanged
  · rename_i loud
    obtain rfl := by simpa using h
    exact .inr ⟨by simpa [AttemptOp.Done] using loud, rfl⟩

theorem deferTaskAdmission_effect {owner : LeaseOwner} {quiescence : Quiescence}
    {t : Transition TaskState}
    (h : deferTaskAdmission task attempt owner quiescence now = .ok t) :
    (AttemptOp.deferTaskAdmission owner quiescence).Effect task attempt t.writes := by
  simp only [deferTaskAdmission, bind_eq_ok, refuse_eq_ok, exists_unit] at h
  obtain ⟨-, _, -, -, h⟩ := h
  split at h
  · obtain rfl := by simpa using h
    exact .inl unchanged_unchanged
  · simp only [bind_eq_ok, refuse_eq_ok, exists_unit, not_or, not_not] at h
    obtain ⟨⟨-, attemptActive, -⟩, h⟩ := h
    have fresh : ¬ (AttemptOp.deferTaskAdmission owner quiescence).Done task attempt :=
      fun past => past attemptActive
    split at h
    · obtain rfl := by simpa using h
      exact .inr ⟨fresh, by simp [AttemptOp.Done, Transition.writes, closedPreparation]⟩
    · simp only [bind_eq_ok, pure_eq_ok] at h
      obtain ⟨_, -, rfl⟩ := h
      exact .inr ⟨fresh, by simp [AttemptOp.Done, Transition.writes, closedPreparation]⟩

theorem stopStartedTaskAdmission_effect {owner : LeaseOwner} {t : Transition TaskState}
    (h : stopStartedTaskAdmission task attempt owner now = .ok t) :
    (AttemptOp.stopStartedTaskAdmission owner).Effect task attempt t.writes := by
  simp only [stopStartedTaskAdmission, bind_eq_ok, refuse_eq_ok, exists_unit] at h
  obtain ⟨-, -, h⟩ := h
  split at h
  · obtain rfl := by simpa using h
    exact .inl unchanged_unchanged
  · rename_i isActive
    simp only [not_or, not_not, bind_eq_ok, refuse_eq_ok, exists_unit, pure_eq_ok, Prod.exists,
      finish_eq_ok] at isActive h
    obtain ⟨-, _, _, _, ⟨retry, -, rfl, rfl, rfl⟩, rfl⟩ := h
    exact .inr ⟨fun past => past isActive.2, finishState_ne_active⟩

theorem decide_effect {op : AttemptOp} {w : Writes} (h : op.decide task attempt now = .ok w) :
    op.Effect task attempt w := by
  cases op with
  | renew session command =>
    obtain ⟨t, ht, rfl⟩ := map_eq_ok.mp h
    exact renew_effect ht
  | settle command =>
    obtain ⟨t, ht, rfl⟩ := map_eq_ok.mp h
    exact settle_effect ht
  | confirmQuiescence owner =>
    obtain ⟨t, ht, rfl⟩ := map_eq_ok.mp h
    exact confirmQuiescence_effect ht
  | cancel =>
    obtain ⟨t, ht, rfl⟩ := map_eq_ok.mp h
    exact cancel_effect ht
  | expire =>
    obtain ⟨t, ht, rfl⟩ := map_eq_ok.mp h
    exact expire_effect ht
  | startTaskAdmission owner =>
    obtain ⟨t, ht, rfl⟩ := map_eq_ok.mp h
    exact startTaskAdmission_effect ht
  | denyTaskAdmission owner reason =>
    obtain ⟨t, ht, rfl⟩ := map_eq_ok.mp h
    exact denyTaskAdmission_effect ht
  | confirmDeniedTaskQuiescence owner =>
    obtain ⟨t, ht, rfl⟩ := map_eq_ok.mp h
    exact confirmDeniedTaskQuiescence_effect ht
  | deferTaskAdmission owner quiescence =>
    obtain ⟨t, ht, rfl⟩ := map_eq_ok.mp h
    exact deferTaskAdmission_effect ht
  | stopStartedTaskAdmission owner =>
    obtain ⟨t, ht, rfl⟩ := map_eq_ok.mp h
    exact stopStartedTaskAdmission_effect ht

theorem AttemptOp.Done.persists {op : AttemptOp} {task' : TaskSnapshot}
    {attempt' : AttemptSnapshot} (done : op.Done task attempt)
    (kept : Persists task attempt task' attempt') : op.Done task' attempt' := by
  cases op with
  | renew session command => exact Nat.le_trans done kept.renewed
  | settle command =>
    obtain ⟨accepted, h⟩ := Option.isSome_iff_exists.mp done
    exact Option.isSome_iff_exists.mpr ⟨accepted, kept.settled accepted h⟩
  | confirmQuiescence | confirmDeniedTaskQuiescence => exact kept.quiet done
  | cancel =>
    show task'.cancelRequestedAt.isSome = true
    rw [kept.requested done]
    exact done
  | startTaskAdmission => exact kept.started done
  | expire | denyTaskAdmission | deferTaskAdmission | stopStartedTaskAdmission =>
    show attempt'.state ≠ .active
    rw [kept.ended done]
    exact done

end Effects

theorem Persists.trans {task₁ task₂ task₃ : TaskSnapshot} {a b c : AttemptSnapshot}
    (first : Persists task₁ a task₂ b) (second : Persists task₂ b task₃ c) :
    Persists task₁ a task₃ c where
  renewed := Nat.le_trans first.renewed second.renewed
  settled accepted h := second.settled accepted (first.settled accepted h)
  requested h := by
    have same := first.requested h
    rw [second.requested (same ▸ h), same]
  started h := second.started (first.started h)
  ended h := by
    have same := first.ended h
    rw [second.ended (same ▸ h), same]
  quiet h := second.quiet (first.quiet h)

namespace TaskRun

def Later (s : TaskRun) (a : AttemptSnapshot) (t : TaskRun) (b : AttemptSnapshot) : Prop :=
  b ∈ t.attempts ∧ SameTask s.task t.task ∧ SameAttempt a b ∧ Persists s.task a t.task b

def Done (op : TaskOp) (s : TaskRun) : Prop :=
  match op with
  | .acquire context _ => context.ids.attemptId ∈ s.attempts.map AttemptSnapshot.id
  | .cancelUnassigned => s.task.cancelRequestedAt.isSome = true
  | .onAttempt id op => ∃ a ∈ s.attempts, a.id = id ∧ op.Done s.task a

section Replays
variable {s t : TaskRun} {now : Nat}

theorem Step.requested (step : Step s now t) (h : s.task.cancelRequestedAt.isSome = true) :
    t.task.cancelRequestedAt = s.task.cancelRequestedAt := by
  cases step with
  | same | claimed => rfl
  | withdrawn queued fresh => simp [fresh] at h
  | moved attempt attempt' mem task' events move =>
    cases move with
    | closed running closing retry scheduled => exact closing.requested h
    | withdrawn queued fresh => simp [fresh] at h
    | cancelRequested running fresh => simp [fresh] at h
    | deferred quiescence running governed unstarted unsettled fresh => simp [fresh] at h
    | same | renewed | reported | started | denied | denialConfirmed | deferralCancelled => rfl

theorem Step.same_task (step : Step s now t) : SameTask s.task t.task := by
  cases step with
  | same => exact .refl
  | claimed => exact newTask_same _ _
  | withdrawn => exact ⟨rfl, rfl, rfl, rfl, rfl, rfl, rfl, rfl, rfl, rfl⟩
  | moved attempt attempt' mem task' events move => exact move.same_task.1

theorem Step.later (sound : Sound s) (logged : Logged s) (step : Step s now t)
    {a : AttemptSnapshot} (mem : a ∈ s.attempts) : ∃ b, Later s a t b := by
  have requested := step.requested
  have sameTask := step.same_task
  -- an attempt that the step does not touch
  have kept : a ∈ t.attempts → ∃ b, Later s a t b := fun still =>
    ⟨a, still, sameTask, .refl, Nat.le_refl _, fun _ h => h, requested, fun h => h, fun _ => rfl, fun h => h⟩
  cases step with
  | same | withdrawn => exact kept mem
  | claimed => exact kept (List.mem_append_left _ mem)
  | moved attempt attempt' mem' task' events move =>
    by_cases h : a.id = attempt'.id
    · have sameId : attempt.id = attempt'.id := by
        simp [AttemptSnapshot.id, move.same_attempt.owner]
      obtain rfl := Table.eq_of_key sound.unique mem mem' (h.trans sameId.symm)
      exact ⟨attempt', Table.mem_put_self mem h, sameTask, move.same_attempt,
        move.persists (logged.loud a mem)⟩
    · exact kept (Table.mem_put_other mem h)

theorem Later.trans {u : TaskRun} {a b c : AttemptSnapshot} (first : Later s a t b)
    (second : Later t b u c) : Later s a u c :=
  ⟨second.1, first.2.1.trans second.2.1, first.2.2.1.trans second.2.2.1,
    first.2.2.2.trans second.2.2.2⟩

/-- Every attempt of a reachable task is found again, with what it had, after any run. -/
theorem Reachable.later (reachable : Reachable s) {ops : List TimedOp}
    (h : TaskRun.run s ops = .ok t) {a : AttemptSnapshot} (mem : a ∈ s.attempts) :
    ∃ b, Later s a t b := by
  refine (run_invariant (P := fun u => Logged u ∧ ∃ b, Later s a u b) ?_ reachable.sound h
    ⟨reachable.logged, a, mem, .refl, .refl, .refl⟩).2.2
  rintro u now v - sound step ⟨logged, b, later⟩
  obtain ⟨c, next⟩ := step.later sound logged later.1
  exact ⟨step_logged step logged, c, later.trans next⟩

theorem Later.id_eq {a b : AttemptSnapshot} (later : Later s a t b) : b.id = a.id := by
  simp [AttemptSnapshot.id, later.2.2.1.owner]

/-- An accepted operation changes nothing, or it had not been done and is done now. -/
theorem apply_effect (sound : Sound s) {op : TaskOp} (h : s.apply ⟨op, now⟩ = .ok t) :
    t = s ∨ ¬ Done op s ∧ Done op t := by
  cases op with
  | acquire context command =>
    obtain same | ⟨session, -, -, unused, rfl⟩ := apply_acquire h
    · exact .inl same
    · exact .inr ⟨unused, by simp [Done]⟩
  | cancelUnassigned =>
    obtain same | ⟨-, fresh, -, -, rfl⟩ := apply_cancelUnassigned h
    · exact .inl same
    · exact .inr ⟨by simp [Done, fresh], rfl⟩
  | onAttempt id op =>
    obtain ⟨attempt, found, w, decided, rfl⟩ := apply_onAttempt.mp h
    have mem := Table.find_mem found
    have named := Table.find_key found
    have same := (decide_moves (sound.coherent mem) decided).same_attempt
    have sameId : (w.attempt.getD attempt).id = attempt.id := by
      simp [AttemptSnapshot.id, same.owner]
    rw [sound.commit_eq mem]
    obtain ⟨task, attempt', events⟩ | ⟨first, done⟩ := decide_effect decided
    · exact .inl (by rw [task, attempt', events, Table.put_self sound.unique mem, List.append_nil])
    · refine .inr ⟨?_, _, Table.mem_put_self mem sameId.symm, sameId.trans named, done⟩
      rintro ⟨a, ha, ofId, before⟩
      obtain rfl := Table.eq_of_key sound.unique ha mem (ofId.trans named.symm)
      exact first before

theorem Reachable.still_done (reachable : Reachable s) {ops : List TimedOp}
    (h : TaskRun.run s ops = .ok t) {op : TaskOp} (done : Done op s) : Done op t := by
  cases op with
  | acquire context command =>
    obtain ⟨a, mem, named⟩ := List.mem_map.mp done
    obtain ⟨b, later⟩ := reachable.later h mem
    exact List.mem_map.mpr ⟨b, later.1, later.id_eq.trans named⟩
  | cancelUnassigned =>
    refine (run_invariant (P := fun u => u.task.cancelRequestedAt.isSome = true) ?_
      reachable.sound h done).2
    intro u now v _ _ step requested
    rw [step.requested requested]
    exact requested
  | onAttempt id op =>
    obtain ⟨a, mem, named, before⟩ := done
    obtain ⟨b, later⟩ := reachable.later h mem
    exact ⟨b, later.1, later.id_eq.trans named, before.persists later.2.2.2⟩

/-- Repeating an operation that took effect, at any time and after any run, is refused or changes
nothing. -/
theorem Reachable.apply_again (reachable : Reachable s) {op : TaskOp} {t u v : TaskRun}
    {first again : Nat} {ops : List TimedOp} (effective : s.apply ⟨op, first⟩ = .ok t)
    (changed : t ≠ s) (runs : TaskRun.run t ops = .ok u)
    (repeated : u.apply ⟨op, again⟩ = .ok v) : v = u := by
  have single : TaskRun.run s [⟨op, first⟩] = .ok t := foldlM_cons_ok.mpr ⟨t, effective, rfl⟩
  have reached := reachable.run single
  obtain same | ⟨-, done⟩ := apply_effect reachable.sound effective
  · exact absurd same changed
  · obtain same | ⟨notDone, -⟩ := apply_effect (reached.run runs).sound repeated
    · exact same
    · exact absurd (reached.still_done runs done) notDone

/-- An accepted operation that leaves the records alone says nothing either. -/
theorem Sound.silent (sound : Sound s) {timed : TimedOp} (h : s.apply timed = .ok t)
    (task : t.task = s.task) (attempts : t.attempts = s.attempts) : t.log = s.log := by
  obtain ⟨op, now⟩ := timed
  obtain same | ⟨notDone, done⟩ := apply_effect sound h
  · rw [same]
  · refine absurd done ?_
    cases op with
    | acquire | cancelUnassigned | onAttempt => simpa only [Done, task, attempts] using notDone

theorem terminal_of_endReason {state : TaskState} (isTerminal : state.isTerminal = true)
    {e : HistoryEvent} (reason : e.reason = endReason state) :
    e.isTerminal = true ∧ ∀ start, replayReason start e.reason = state := by
  cases state with
  | queued | active => simp [TaskState.isTerminal] at isTerminal
  | succeeded | failed | cancelled =>
    simp [HistoryEvent.isTerminal, reason, endReason, replayReason]

/-- The log of every reachable task is faithful to its records. -/
theorem history_faithful (reachable : Reachable s) :
    (∀ start, replay start s.log = s.task.state) ∧
    tally .submitted s.log = 1 ∧ tally .claimed s.log = s.attempts.length ∧
    (∀ a ∈ s.attempts, tally .claimed (eventsOf a.id s.log) = 1 ∧
      tally .dispatchAuthorized (eventsOf a.id s.log) ≤ 1 ∧
      tally .reportAccepted (eventsOf a.id s.log) ≤ 1 ∧
      tally .cleanupConfirmed (eventsOf a.id s.log) ≤ 1) ∧
    tally .cancelRequested s.log ≤ 1 ∧
    s.log.countP HistoryEvent.isTerminal ≤ 1 ∧
    (s.log.countP HistoryEvent.isTerminal = 1 ↔ s.task.state.isTerminal = true) ∧
    (s.task.state.isTerminal = true → ∃ e,
      (s.log.filter HistoryEvent.changesState).getLast? = some e ∧ e.isTerminal = true ∧
        (∀ start, replayReason start e.reason = s.task.state) ∧
        s.task.terminalAt = some e.at') ∧
    (∀ timed t, s.apply timed = .ok t → t.task = s.task → t.attempts = s.attempts →
      t.log = s.log) ∧
    (∀ op first t ops u again v, s.apply ⟨op, first⟩ = .ok t → t ≠ s →
      TaskRun.run t ops = .ok u → u.apply ⟨op, again⟩ = .ok v → v = u) := by
  have logged := reachable.logged
  have atMostOnce : ∀ fact, once fact ≤ 1 := by decide
  refine ⟨logged.replayed, logged.submitted, logged.claims, ?_, ?_, ?_, ?_, ?_, ?_, ?_⟩
  · intro a ha
    exact ⟨logged.claimed a ha, (logged.dispatched a ha).trans (atMostOnce _),
      (logged.reported a ha).trans_le (atMostOnce _), (logged.cleaned a ha).trans (atMostOnce _)⟩
  · exact logged.cancelled.trans_le (atMostOnce _)
  · exact logged.ended.trans_le (atMostOnce _)
  · rw [logged.ended]
    cases s.task.state.isTerminal <;> simp
  · intro isTerminal
    obtain ⟨e, last, reason, ended⟩ := logged.last isTerminal
    obtain ⟨terminal, replayed⟩ := terminal_of_endReason isTerminal reason
    exact ⟨e, last, terminal, replayed, ended⟩
  · exact fun timed t h => reachable.sound.silent h
  · exact fun op first t ops u again v effective changed runs repeated =>
      reachable.apply_again effective changed runs repeated

/-- A cancelled task whose attempt was reclaimed after the grace. -/
theorem history_of_cancellation :
    ∃ s, sampleRun none [sampleClaim "1" 2000, ⟨.onAttempt "attempt-1" .cancel, 3000⟩,
        ⟨.onAttempt "attempt-1" .expire, 70000⟩] = .ok s ∧
      s.log.map HistoryEvent.reason =
        [.submitted, .claimed, .cancelRequested, .leaseExpired, .cancelled] ∧
      s.log.countP HistoryEvent.isTerminal ≤ 1 ∧ (∀ start, replay start s.log = s.task.state) := by
  have reasons : (sampleRun none [sampleClaim "1" 2000, ⟨.onAttempt "attempt-1" .cancel, 3000⟩,
      ⟨.onAttempt "attempt-1" .expire, 70000⟩]).map (fun s => s.log.map HistoryEvent.reason) =
        .ok [.submitted, .claimed, .cancelRequested, .leaseExpired, .cancelled] := by
    decide +kernel
  obtain ⟨s, runs, told⟩ := map_eq_ok.mp reasons
  have faithful := history_faithful (sampleRun_reachable runs)
  exact ⟨s, runs, told, faithful.2.2.2.2.2.1, faithful.1⟩

end Replays
end TaskRun
end Ledgence
