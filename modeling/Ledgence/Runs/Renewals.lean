import Ledgence.Runs.Ended
import Ledgence.Runs.LeaseSafety
import Ledgence.Runs.Replays
import Ledgence.Runs.Settlement

/-! The renewals of one attempt over whole runs of its task: how far they extend its lease, how they
are numbered, and what a cancellation leaves of them. -/
open Kit Kit.Checked

namespace Ledgence

/- One renewal. -/

section Renew
variable {task task' : TaskSnapshot} {attempt attempt' : AttemptSnapshot} {now : Nat}
  {events : List HistoryEvent} {session : Option WorkerSession} {command : RenewCommand}

theorem Move.started (h : Move task attempt now task' attempt' events)
    (started : attempt.executionMayHaveStarted = true) :
    attempt'.executionMayHaveStarted = true := by
  cases h with
  | same | withdrawn | cancelRequested | denied | denialConfirmed | deferralCancelled
  | deferred => exact started
  | started => rfl
  | renewed | reported => simp [renewedAttempt, reportedAttempt, started]
  | closed running closing => exact closing.started started

theorem deferredTask_requested {updated : TaskSnapshot} (h : deferredTask task now = .ok updated) :
    updated.cancelRequestedAt = task.cancelRequestedAt := by
  obtain ⟨-, -, ⟨-, rfl⟩ | ⟨-, -, rfl⟩⟩ := deferredTask_eq_ok h
  · rfl
  · rfl

theorem decide_requested {op : AttemptOp} {w : Writes} (other : op ≠ .cancel)
    (h : op.decide task attempt now = .ok w) : w.task.cancelRequestedAt = task.cancelRequestedAt := by
  cases op with
  | cancel => exact absurd rfl other
  | renew session command =>
    obtain ⟨t, renewed, rfl⟩ := map_eq_ok.mp h
    obtain ⟨-, ⟨same, -⟩ | ⟨-, same, -⟩⟩ := renew_cases renewed
    · exact congrArg _ same
    · exact congrArg _ same
  | settle command =>
    obtain ⟨t, settled, rfl⟩ := map_eq_ok.mp h
    simp only [settle, bind_eq_ok, exists_unit] at settled
    obtain ⟨-, -, -, -, settled⟩ := settled
    split at settled
    · simp only [bind_eq_ok, exists_unit, pure_eq_ok] at settled
      obtain ⟨-, rfl⟩ := settled
      rfl
    · simp only [bind_eq_ok, exists_unit] at settled
      obtain ⟨-, settled⟩ := settled
      split at settled
      · simp only [bind_eq_ok, pure_eq_ok, Prod.exists, finish_eq_ok] at settled
        obtain ⟨_, _, _, ⟨retry, -, rfl, rfl, rfl⟩, rfl⟩ := settled
        rfl
      · obtain rfl := by simpa using settled
        rfl
  | confirmQuiescence owner =>
    obtain ⟨t, confirmed, rfl⟩ := map_eq_ok.mp h
    simp only [confirmQuiescence, bind_eq_ok, exists_unit] at confirmed
    obtain ⟨-, confirmed⟩ := confirmed
    split at confirmed
    · obtain rfl := by simpa using confirmed
      rfl
    · simp only [bind_eq_ok, exists_unit, pure_eq_ok, Prod.exists, finish_eq_ok] at confirmed
      obtain ⟨-, -, _, _, _, ⟨retry, -, rfl, rfl, rfl⟩, rfl⟩ := confirmed
      rfl
  | expire =>
    obtain ⟨t, expired, rfl⟩ := map_eq_ok.mp h
    obtain ⟨same, -⟩ | ⟨-, -, retry, -, same⟩ := expire_cases expired
    · rw [same]
    · rw [same]
      rfl
  | startTaskAdmission owner =>
    obtain ⟨t, started, rfl⟩ := map_eq_ok.mp h
    simp only [startTaskAdmission, bind_eq_ok, exists_unit, pure_eq_ok] at started
    obtain ⟨-, -, -, rfl⟩ := started
    rfl
  | denyTaskAdmission owner reason =>
    obtain ⟨t, denied, rfl⟩ := map_eq_ok.mp h
    simp only [denyTaskAdmission, bind_eq_ok, exists_unit, pure_eq_ok] at denied
    obtain ⟨-, -, -, -, rfl⟩ := denied
    rfl
  | confirmDeniedTaskQuiescence owner =>
    obtain ⟨t, confirmed, rfl⟩ := map_eq_ok.mp h
    simp only [confirmDeniedTaskQuiescence, bind_eq_ok, exists_unit] at confirmed
    obtain ⟨-, -, -, -, confirmed⟩ := confirmed
    split at confirmed
    · obtain rfl := by simpa using confirmed
      rfl
    · obtain rfl := by simpa using confirmed
      rfl
  | deferTaskAdmission owner quiescence =>
    obtain ⟨t, deferred, rfl⟩ := map_eq_ok.mp h
    simp only [deferTaskAdmission, bind_eq_ok, exists_unit] at deferred
    obtain ⟨-, -, -, -, deferred⟩ := deferred
    split at deferred
    · obtain rfl := by simpa using deferred
      rfl
    · simp only [bind_eq_ok, exists_unit] at deferred
      obtain ⟨-, deferred⟩ := deferred
      split at deferred
      · obtain rfl := by simpa using deferred
        rfl
      · simp only [bind_eq_ok, pure_eq_ok] at deferred
        obtain ⟨updated, given, rfl⟩ := deferred
        exact deferredTask_requested given
  | stopStartedTaskAdmission owner =>
    obtain ⟨t, stopped, rfl⟩ := map_eq_ok.mp h
    simp only [stopStartedTaskAdmission, bind_eq_ok, exists_unit] at stopped
    obtain ⟨-, -, stopped⟩ := stopped
    split at stopped
    · obtain rfl := by simpa using stopped
      rfl
    · simp only [bind_eq_ok, exists_unit, pure_eq_ok, Prod.exists, finish_eq_ok] at stopped
      obtain ⟨-, _, _, _, ⟨retry, -, rfl, rfl, rfl⟩, rfl⟩ := stopped
      rfl

end Renew

namespace TaskRun

def attempt (s : TaskRun) (id : String) : Option AttemptSnapshot :=
  Table.find AttemptSnapshot.id id s.attempts

variable {s t : TaskRun} {timed : TimedOp} {id : String} {a : AttemptSnapshot}

theorem apply_attempt (sound : Sound s) (h : s.apply timed = .ok t) (found : s.attempt id = some a) :
    t.attempt id = some a ∨ ∃ op w, timed.op = .onAttempt id op ∧
      op.decide s.task a timed.now = .ok w ∧ t.task = w.task ∧
      t.attempt id = some (w.attempt.getD a) ∧
      MoveBy op.Uses s.task a timed.now w.task (w.attempt.getD a) w.history := by
  obtain ⟨op, now⟩ := timed
  have mem : a ∈ s.attempts := Table.find_mem found
  have named : a.id = id := Table.find_key found
  cases op with
  | acquire context command =>
    obtain rfl | ⟨session, -, -, -, rfl⟩ := apply_acquire h
    · exact .inl found
    · exact .inl (Table.find_append_found found)
  | cancelUnassigned =>
    obtain rfl | ⟨-, -, -, -, rfl⟩ := apply_cancelUnassigned h
    · exact .inl found
    · exact .inl found
  | onAttempt other op =>
    obtain ⟨b, foundb, w, decided, rfl⟩ := apply_onAttempt.mp h
    have memb : b ∈ s.attempts := Table.find_mem foundb
    have namedb : b.id = other := Table.find_key foundb
    have move := decide_movesBy (sound.coherent memb) decided
    have sameId : (w.attempt.getD b).id = b.id := by
      have plain : Move s.task b now w.task (w.attempt.getD b) w.history := move.mono fun _ _ => trivial
      simp [AttemptSnapshot.id, plain.same_attempt.owner]
    rw [sound.commit_eq memb]
    by_cases mine : other = id
    · subst mine
      have same : b = a := Option.some.inj (foundb.symm.trans found)
      subst same
      exact .inr ⟨op, w, rfl, decided, rfl, Table.find_put_self found (sameId.trans named), move⟩
    · refine .inl ((Table.find_put_other ?_).trans found)
      rw [sameId, namedb]
      exact mine

theorem apply_fresh (sound : Sound s) (h : s.apply timed = .ok t) (none : s.attempt id = none)
    (found : t.attempt id = some a) : ∃ context command session,
      timed.op = .acquire context command ∧ context.session = some session ∧
      session.id = command.workerSessionId ∧
      a = newAttempt s.task context.ids session command.consumerId timed.now := by
  obtain ⟨op, now⟩ := timed
  cases op with
  | acquire context command =>
    simp only [apply, bind_eq_ok] at h
    obtain ⟨r, acquired, h⟩ := h
    obtain ⟨session, given, registered, done⟩ := acquire_acquired acquired
    cases done with
    | replayed | emptied =>
      cases pure_eq_ok.mp h
      rw [none] at found
      cases found
    | claimed task ids fresh offered named claimable =>
      obtain rfl := Option.some.inj offered
      obtain rfl := Option.some.inj named
      simp only [claimTransition, insert, okOr_eq_ok, bind_eq_ok, Option.some.injEq,
        exists_eq_left', refuse_eq_ok, exists_unit, pure_eq_ok] at h
      obtain ⟨-, rfl⟩ := h
      refine ⟨context, command, session, rfl, given, registered.ofSession.symm, ?_⟩
      have mem := List.mem_append.mp (Table.find_mem found)
      obtain old | new := mem
      · exact absurd (Table.find_key found) (Table.find_eq_none.mp none a old)
      · exact List.mem_singleton.mp new
  | cancelUnassigned =>
    obtain rfl | ⟨-, -, -, -, rfl⟩ := apply_cancelUnassigned h
    · rw [none] at found
      cases found
    · cases none.symm.trans found
  | onAttempt other op =>
    obtain ⟨b, foundb, w, decided, rfl⟩ := apply_onAttempt.mp h
    have mem : b ∈ s.attempts := Table.find_mem foundb
    have move := decide_moves (sound.coherent mem) decided
    rw [sound.commit_eq mem] at found
    obtain ⟨c, hc, same, -⟩ := mem_moved mem move (Table.find_mem found)
    refine absurd ?_ (Table.find_eq_none.mp none c hc)
    have named : a.id = id := Table.find_key found
    rw [← named, AttemptSnapshot.id, AttemptSnapshot.id, same.owner]

end TaskRun

/- Leases over a run. -/

def TimedOp.session : TimedOp → Option WorkerSession
  | ⟨.acquire context _, _⟩ => context.session
  | ⟨.onAttempt _ (.renew session _), _⟩ => session
  | _ => none

/-- The moment of a later operation is not before that of an earlier one, and a session that both
are given ends no earlier at the later one. -/
def Ordered (ops : List TimedOp) : Prop :=
  ops.Pairwise fun x y => x.now ≤ y.now ∧ ∀ p q, x.session = some p → y.session = some q →
    p.id = q.id → p.expiresAt ≤ q.expiresAt

structure Within (rest : List TimedOp) (clock : Nat) (a : AttemptSnapshot) : Prop where
  authority : a.lease.expiresAt ≤ a.authorityDeadline
  duration : a.lease.expiresAt ≤ clock + leaseDurationMs
  session : ∀ x ∈ rest, ∀ q, x.session = some q → q.id = a.lease.owner.workerSessionId →
    a.lease.expiresAt ≤ q.expiresAt

section Leases
variable {s t : TaskRun} {timed : TimedOp} {rest : List TimedOp} {id : String}
  {task task' : TaskSnapshot} {a a' : AttemptSnapshot} {clock now : Nat}
  {events : List HistoryEvent} {op : AttemptOp}

theorem Within.later (within : Within (timed :: rest) clock a) (reached : clock ≤ now) :
    Within rest now a where
  authority := within.authority
  duration := within.duration.trans (Nat.add_le_add_right reached _)
  session x hx := within.session x (List.mem_cons_of_mem _ hx)

theorem uses_session (uses : op.Uses session') (id : String) (now : Nat) :
    TimedOp.session ⟨.onAttempt id op, now⟩ = some session' := by
  obtain ⟨command, rfl⟩ := uses
  rfl

theorem Within.moved {named : String} (within : Within (⟨.onAttempt named op, now⟩ :: rest) clock a)
    (ordered : Ordered (⟨.onAttempt named op, now⟩ :: rest)) (reached : clock ≤ now)
    (move : MoveBy op.Uses task a now task' a' events) : Within rest now a' := by
  have owner : a'.lease.owner = a.lease.owner :=
    (Move.same_attempt (move.mono fun _ _ => trivial)).owner
  have later := within.later reached
  obtain ⟨lease, deadline⟩ | ⟨session, uses, ofSession, lease, deadline⟩ | ⟨-, shorter, under⟩ :=
    move.lease
  · exact ⟨by rw [lease, deadline]; exact later.authority, by rw [lease]; exact later.duration,
      by rw [lease]; exact later.session⟩
  · have granted : a'.lease.expiresAt ≤ min (now + leaseDurationMs) a.authorityDeadline :=
      lease.le.trans (min_le_left _ _)
    refine ⟨deadline ▸ granted.trans (min_le_right _ _), granted.trans (min_le_left _ _), ?_⟩
    intro x hx q given mine
    have orders := ((List.pairwise_cons.mp ordered).1 x hx).2 session q (uses_session uses named now)
      given (by rw [ofSession, mine, owner])
    exact (lease.le.trans (min_le_right _ _)).trans orders
  · refine ⟨under, shorter.trans later.duration, fun x hx q given mine => ?_⟩
    exact shorter.trans (later.session x hx q given (by rw [mine, owner]))

/-- Without a cancellation, a lease that lies within the bounds is not shortened. -/
theorem Within.grows {named : String} (within : Within (⟨.onAttempt named op, now⟩ :: rest) clock a)
    (reached : clock ≤ now) (move : MoveBy op.Uses task a now task' a' events)
    (kept : task'.cancelRequestedAt = task.cancelRequestedAt) :
    a.lease.expiresAt ≤ a'.lease.expiresAt := by
  cases move with
  | same | reported | withdrawn | started | denied | denialConfirmed | deferralCancelled
  | deferred => exact Nat.le_refl _
  | closed running closing retry scheduled => exact (congrArg Lease.expiresAt closing.lease.1).ge
  | renewed session command sessionOpen isLive owner ofSession next ordinary inRange known granted =>
    have duration := within.duration.trans (Nat.add_le_add_right reached leaseDurationMs)
    have open' := within.session _ (List.mem_cons_self ..) session (uses_session known named now)
      ofSession
    exact granted ▸ le_min (le_min duration within.authority) open'
  | cancelRequested running fresh =>
    rw [fresh] at kept
    cases kept

theorem Move.deadline_le (move : Move task a now task' a' events) :
    a'.authorityDeadline ≤ a.authorityDeadline := by
  cases move with
  | same | reported | withdrawn | renewed | started | denied | denialConfirmed | deferralCancelled
  | deferred => exact Nat.le_refl _
  | closed running closing retry scheduled => exact closing.lease.2.le
  | cancelRequested => exact min_le_left _ _

theorem Move.lease_of_ended (move : Move task a now task' a' events) (ended : a.state ≠ .active) :
    a'.lease = a.lease := by
  obtain rfl | ⟨rfl, -⟩ := move.of_ended ended
  · rfl
  · rfl

/-- The first cancellation of a task ends its attempt or cuts the authority of the one that runs. -/
theorem Move.cut {c : Nat} (move : Move task a now task' a' events)
    (fresh : task.cancelRequestedAt = none) (requested : task'.cancelRequestedAt = some c) :
    c = now ∧ (task'.currentAttemptId = none ∨
      Running task a ∧ a'.authorityDeadline ≤ now + cleanupGraceMs) := by
  cases move with
  | same | renewed | reported | started | denied | denialConfirmed | deferralCancelled =>
    cases fresh.symm.trans requested
  | withdrawn queued fresh unowned => exact ⟨(Option.some.inj requested).symm, .inl unowned⟩
  | cancelRequested running fresh within inRange granted =>
    exact ⟨(Option.some.inj requested).symm, .inr ⟨running, granted ▸ min_le_right _ _⟩⟩
  | deferred quiescence running governed unstarted unsettled fresh inRange given =>
    cases (fresh.symm.trans (deferredTask_requested given).symm).trans requested
  | closed running closing retry scheduled =>
    refine ⟨?_, .inl rfl⟩
    cases closing with
    | reported | confirmed | expired | stopped => cases fresh.symm.trans requested
    | cancelled => exact (Option.some.inj requested).symm

theorem Ordered.tail (ordered : Ordered (timed :: rest)) : Ordered rest :=
  (List.pairwise_cons.mp ordered).2

theorem newAttempt_within {ids : AttemptIds} {context : ClaimContext} {command : AcquireCommand}
    {session : WorkerSession} (consumerId : Nat)
    (ordered : Ordered (⟨.acquire context command, now⟩ :: rest))
    (given : context.session = some session) :
    Within rest now (newAttempt task ids session consumerId now) := by
  have lease : (newAttempt task ids session consumerId now).lease.expiresAt =
      min (min (now + leaseDurationMs) (now + task.input.attemptTimeoutMs + cleanupGraceMs))
        session.expiresAt := rfl
  have granted := lease.le.trans (min_le_left _ _)
  refine ⟨granted.trans (min_le_right _ _), granted.trans (min_le_left _ _), ?_⟩
  intro x hx q later mine
  have orders := ((List.pairwise_cons.mp ordered).1 x hx).2 session q given later mine.symm
  exact (lease.le.trans (min_le_right _ _)).trans orders

end Leases

namespace TaskRun

structure Leased (rest : List TimedOp) (clock : Nat) (s : TaskRun) : Prop where
  within : ∀ a ∈ s.attempts, Within rest clock a
  cut : ∀ c, s.task.cancelRequestedAt = some c → c ≤ clock ∧
    ∀ a ∈ s.attempts, a.state = .active → a.authorityDeadline ≤ c + cleanupGraceMs

section Leased
variable {s t u : TaskRun} {timed : TimedOp} {rest : List TimedOp} {clock : Nat} {id : String}
  {a b : AttemptSnapshot}

theorem Leased.later {timed : TimedOp} (leased : Leased (timed :: rest) clock s)
    (reached : clock ≤ timed.now) : Leased rest timed.now s where
  within a ha := (leased.within a ha).later reached
  cut c requested := by
    obtain ⟨early, cut⟩ := leased.cut c requested
    exact ⟨early.trans reached, cut⟩

theorem Leased.step (leased : Leased (timed :: rest) clock s) (reached : clock ≤ timed.now)
    (ordered : Ordered (timed :: rest)) (sound : Sound s) (h : s.apply timed = .ok t) :
    Leased rest timed.now t := by
  have later := leased.later reached
  have step := apply_step sound h
  have sound' := step_sound sound step
  constructor
  case within =>
    intro b hb
    have found : t.attempt b.id = some b := Table.find_of_mem sound'.unique hb
    cases before : s.attempt b.id with
    | none =>
      obtain ⟨context, command, session, op, given, -, rfl⟩ := apply_fresh sound h before found
      obtain ⟨_, now⟩ := timed
      subst op
      exact newAttempt_within _ ordered given
    | some a =>
      have ha : a ∈ s.attempts := Table.find_mem before
      obtain kept | ⟨op, w, named, -, -, moved, move⟩ := apply_attempt sound h before
      · cases kept.symm.trans found
        exact later.within b ha
      · cases moved.symm.trans found
        obtain ⟨_, now⟩ := timed
        subst named
        exact (leased.within a ha).moved ordered reached move
  case cut =>
    intro c requested
    cases before : s.task.cancelRequestedAt with
    | some c₀ =>
      have same := step.requested (by rw [before]; rfl)
      cases (requested.symm.trans same).trans before
      obtain ⟨early, cut⟩ := later.cut c before
      refine ⟨early, fun b hb isActive => ?_⟩
      cases step with
      | same | withdrawn => exact cut b hb isActive
      | claimed ids session command registered claimable =>
        cases claimable.fresh.symm.trans before
      | moved attempt attempt' mem task' events move =>
        obtain rfl | ⟨old, -⟩ := Table.mem_put hb
        · obtain ⟨-, -, still⟩ | ⟨-, -, -, ended⟩ := move.phase
          · exact move.deadline_le.trans (cut attempt mem (still.symm.trans isActive))
          · exact absurd isActive ended
        · exact cut b old isActive
    | none =>
      cases step with
      | same => cases before.symm.trans requested
      | claimed ids session command registered claimable => cases before.symm.trans requested
      | withdrawn queued fresh unowned =>
        refine ⟨(Option.some.inj requested).ge, fun b hb isActive => ?_⟩
        cases unowned.symm.trans ((sound.active b hb).mp isActive)
      | moved attempt attempt' mem task' events move =>
        obtain ⟨rfl, ended | ⟨running, cut⟩⟩ := move.cut before requested
        · refine ⟨Nat.le_refl _, fun b hb isActive => ?_⟩
          cases ended.symm.trans ((sound'.active b hb).mp isActive)
        · refine ⟨Nat.le_refl _, fun b hb isActive => ?_⟩
          obtain rfl | ⟨old, other⟩ := Table.mem_put hb
          · exact cut
          · -- the running attempt is the only active one
            have current := Option.some.inj (((sound.active b old).mp isActive).symm.trans
              running.current)
            refine absurd (current.trans ?_) other
            rw [AttemptSnapshot.id, move.same_attempt.owner]

/-- What holds of the leases when the operations begin holds all along the run. -/
theorem Leased.run {before after : List TimedOp} (leased : Leased (before ++ after) clock s)
    (sound : Sound s) (reached : ∀ x ∈ before ++ after, clock ≤ x.now)
    (ordered : Ordered (before ++ after)) (runs : run s before = .ok t) :
    ∃ clock', Leased after clock' t ∧ (∀ x ∈ after, clock' ≤ x.now) ∧ Sound t := by
  induction before generalizing s clock with
  | nil =>
    have same : s = t := by simpa [TaskRun.run] using runs
    exact ⟨clock, same ▸ leased, reached, same ▸ sound⟩
  | cons timed rest ih =>
    obtain ⟨m, applied, runs⟩ := foldlM_cons_ok.mp runs
    have here := reached timed (List.mem_cons_self ..)
    have next := leased.step here ordered sound applied
    exact ih next (step_sound sound (apply_step sound applied))
      (fun x hx => ((List.pairwise_cons.mp ordered).1 x hx).1) ordered.tail runs

/-- Along a run an attempt keeps its authority or loses some, and a lease that is over stays. -/
theorem run_deadline (sound : Sound s) (ha : s.attempt id = some a) {ops : List TimedOp}
    (runs : run s ops = .ok u) : ∃ b, u.attempt id = some b ∧
      b.authorityDeadline ≤ a.authorityDeadline ∧
      (a.state ≠ .active → b.state ≠ .active ∧ b.lease = a.lease) ∧
      (a.executionMayHaveStarted = true → b.executionMayHaveStarted = true) := by
  induction ops generalizing s a with
  | nil =>
    have same : s = u := by simpa [TaskRun.run] using runs
    exact ⟨a, same ▸ ha, Nat.le_refl _, fun ended => ⟨ended, rfl⟩, fun started => started⟩
  | cons timed rest ih =>
    obtain ⟨t, applied, runs⟩ := foldlM_cons_ok.mp runs
    have sound' := step_sound sound (apply_step sound applied)
    obtain kept | ⟨op, w, -, -, -, moved, moveBy⟩ := apply_attempt sound applied ha
    · exact ih sound' kept runs
    · have move : Move s.task a timed.now w.task (w.attempt.getD a) w.history :=
        moveBy.mono fun _ _ => trivial
      obtain ⟨b, found, deadline, ended, started⟩ := ih sound' moved runs
      refine ⟨b, found, deadline.trans move.deadline_le, ?_, fun h => started (move.started h)⟩
      intro past
      have still : (w.attempt.getD a).state ≠ .active := by
        obtain ⟨-, -, same⟩ | ⟨-, -, -, other⟩ := move.phase
        · rw [same]
          exact past
        · exact other
      exact ⟨(ended still).1, (ended still).2.trans (move.lease_of_ended past)⟩

end Leased

/- The numbers of the renewals. -/

def lastRenewal (s : TaskRun) (id : String) : Option RenewCommand :=
  (s.attempt id).bind AttemptSnapshot.lastRenewal

def renewal (id : String) (s : TaskRun) (op : TaskOp) (t : TaskRun) : List Nat :=
  match op with
  | .onAttempt other (.renew _ command) =>
    if other = id ∧ t.lastRenewal id ≠ s.lastRenewal id then [command.sequence] else []
  | _ => []

def renewals (id : String) (s : TaskRun) : List TimedOp → List Nat
  | [] => []
  | timed :: rest =>
    match s.apply timed with
    | .ok t => renewal id s timed.op t ++ renewals id t rest
    | .error _ => []

section Numbers
variable {s t : TaskRun} {timed : TimedOp} {id : String} {a : AttemptSnapshot}

def lastNumber (s : TaskRun) (id : String) : Nat :=
  ((s.lastRenewal id).map RenewCommand.sequence).getD 0

theorem lastNumber_attempt (found : s.attempt id = some a) :
    s.lastNumber id = a.renewSequence := by
  simp [lastNumber, lastRenewal, found, AttemptSnapshot.renewSequence]

theorem decide_lastRenewal {op : AttemptOp} {task : TaskSnapshot} {now : Nat} {w : Writes}
    (other : ∀ session command, op ≠ .renew session command)
    (move : MoveBy op.Uses task a now w.task (w.attempt.getD a) w.history) :
    (w.attempt.getD a).lastRenewal = a.lastRenewal := by
  generalize w.attempt.getD a = a', w.task = task', w.history = events at move
  cases move with
  | renewed session command sessionOpen isLive owner ofSession next ordinary inRange known =>
    obtain ⟨command, rfl⟩ := known
    exact absurd rfl (other session command)
  | same | reported | withdrawn | cancelRequested | started | denied | denialConfirmed
  | deferralCancelled | deferred => rfl
  | closed running closing retry scheduled =>
    cases closing with
    | reported | confirmed | expired | cancelled | stopped => rfl

theorem renewal_next (sound : Sound s) (h : s.apply timed = .ok t) :
    List.range' 1 (s.lastNumber id) ++ renewal id s timed.op t = List.range' 1 (t.lastNumber id) := by
  have kept : t.lastRenewal id = s.lastRenewal id →
      List.range' 1 (s.lastNumber id) ++ renewal id s timed.op t =
        List.range' 1 (t.lastNumber id) := by
    intro same
    have none : renewal id s timed.op t = [] := by
      unfold renewal
      split
      · simp [same]
      · rfl
    rw [none, List.append_nil, lastNumber, lastNumber, same]
  cases before : s.attempt id with
  | none =>
    refine kept ?_
    cases after : t.attempt id with
    | none => simp [lastRenewal, before, after]
    | some b =>
      obtain ⟨context, command, session, -, -, -, rfl⟩ := apply_fresh sound h before after
      simp [lastRenewal, before, after, newAttempt, claimedAttempt]
  | some a =>
    obtain after | ⟨op, w, named, decided, -, after, move⟩ := apply_attempt sound h before
    · exact kept (by rw [lastRenewal, lastRenewal, after, before])
    · by_cases renews : ∃ session command, op = .renew session command
      · obtain ⟨session, command, rfl⟩ := renews
        obtain ⟨r, accepted, rfl⟩ := map_eq_ok.mp decided
        obtain ⟨-, ⟨-, same, -⟩ | ⟨next, -, expiresAt, renewed⟩⟩ := renew_cases accepted
        · refine kept ?_
          simp [lastRenewal, after, before, Transition.granting, same]
        · have last : t.lastRenewal id = some command := by
            simp [lastRenewal, after, Transition.granting, renewed, renewedAttempt]
          have number : t.lastNumber id = a.renewSequence + 1 := by
            simp [lastNumber, last, next]
          have changed : t.lastRenewal id ≠ s.lastRenewal id := by
            intro same
            have : t.lastNumber id = s.lastNumber id := by rw [lastNumber, lastNumber, same]
            rw [number, lastNumber_attempt before] at this
            omega
          have stored : renewal id s timed.op t = [a.renewSequence + 1] := by
            simp [renewal, named, changed, next]
          rw [stored, number, lastNumber_attempt before, List.range'_1_concat, Nat.add_comm 1]
      · have same := decide_lastRenewal (fun session command is => renews ⟨session, command, is⟩) move
        refine kept ?_
        simp [lastRenewal, after, before, same]

theorem run_renewals (sound : Sound s) {ops : List TimedOp} (runs : run s ops = .ok t) :
    List.range' 1 (s.lastNumber id) ++ renewals id s ops = List.range' 1 (t.lastNumber id) := by
  induction ops generalizing s with
  | nil =>
    have same : s = t := by simpa [TaskRun.run] using runs
    simp [renewals, same]
  | cons timed rest ih =>
    obtain ⟨m, applied, runs⟩ := foldlM_cons_ok.mp runs
    have next := ih (step_sound sound (apply_step sound applied)) runs
    rw [renewals, applied, ← List.append_assoc, renewal_next sound applied, next]

end Numbers

end TaskRun

/- What a cancellation leaves of the permissions. -/

def Silenced (task : TaskSnapshot) : Prop :=
  ∀ a now, (authority task a now).executionRemainingMs = 0 ∧
    (authority task a now).dispatchAllowed = false ∧
    (∀ op w x, AttemptOp.decide op task a now = .ok w → w.sample = some x →
      x.executionRemainingMs = 0 ∧ x.dispatchAllowed = false) ∧
    ∀ session command r, renew task a session command now = .ok r →
      ∀ b, r.attempt = some b → b.executionMayHaveStarted = a.executionMayHaveStarted

def TaskOp.Cancels : TaskOp → Prop
  | .cancelUnassigned => True
  | .onAttempt _ .cancel => True
  | _ => False

namespace TaskRun
section Cancelled
variable {s t u : TaskRun} {timed : TimedOp} {id : String} {a : AttemptSnapshot}

def Over (s : TaskRun) : Prop :=
  s.task.state.isTerminal = true ∨ s.task.cancelRequestedAt.isSome = true

theorem authority_over (gone : s.Over) (a : AttemptSnapshot) (now : Nat) :
    (authority s.task a now).executionRemainingMs = 0 ∧
      (authority s.task a now).dispatchAllowed = false := by
  cases gone with
  | inl terminal =>
    have ended : ¬ live s.task a now := by
      intro isLive
      simp [isLive.running.not_terminal] at terminal
    simp [authority, ended]
  | inr requested => simp [authority, requested]

theorem Over.silenced (gone : s.Over) : Silenced s.task := by
  intro a now
  obtain ⟨remaining, dispatch⟩ := authority_over gone a now
  have requested : live s.task a now → s.task.cancelRequestedAt.isSome = true := by
    intro isLive
    cases gone with
    | inl terminal => simp [isLive.running.not_terminal] at terminal
    | inr requested => exact requested
  refine ⟨remaining, dispatch, ?_, ?_⟩
  · intro op w x decided sample
    obtain ⟨same, -, rfl⟩ | ⟨⟨isLive, fresh, -⟩, -⟩ := decide_reply decided sample
    · rw [same]
      exact authority_over gone _ now
    · -- nothing is started once the task is over
      have asked := requested isLive
      rw [fresh] at asked
      cases asked
  · intro session command r renews b stored
    obtain ⟨isLive, ⟨-, same, -⟩ | ⟨-, -, expiresAt, renewed⟩⟩ := renew_cases renews
    · cases same.symm.trans stored
      rfl
    · cases renewed.symm.trans stored
      obtain ⟨c, asked⟩ := Option.isSome_iff_exists.mp (requested isLive)
      simp [renewedAttempt, authorizesDispatch, asked]

theorem Over.run (gone : s.Over) (sound : Sound s) {ops : List TimedOp}
    (runs : run s ops = .ok u) : u.Over := by
  refine (run_invariant (P := Over) ?_ sound runs gone).2
  intro v now w _ sound step gone
  cases gone with
  | inl terminal =>
    refine .inl ?_
    rw [(step.final sound terminal).1]
    exact terminal
  | inr requested =>
    refine .inr ?_
    rw [step.requested requested]
    exact requested

/-- After an accepted cancellation the task has ended or is to be cancelled. -/
theorem apply_cancels (h : s.apply timed = .ok t) (cancels : timed.op.Cancels) : t.Over := by
  obtain ⟨op, now⟩ := timed
  have gone : ∀ {given r}, Ledgence.cancel s.task given now = .ok r → t.task = r.task → t.Over := by
    intro given r cancelled same
    obtain ⟨gone, rfl⟩ | ⟨-, requested, -⟩ := cancel_cases cancelled
    · simpa [Over, same, unchanged] using gone
    · exact .inr (same ▸ requested)
  cases op with
  | acquire context command => exact cancels.elim
  | cancelUnassigned =>
    simp only [apply, bind_eq_ok, pure_eq_ok] at h
    obtain ⟨r, cancelled, rfl⟩ := h
    exact gone cancelled rfl
  | onAttempt other op =>
    cases op with
    | cancel =>
      obtain ⟨b, -, w, decided, rfl⟩ := apply_onAttempt.mp h
      obtain ⟨r, cancelled, rfl⟩ := map_eq_ok.mp decided
      exact gone cancelled rfl
    | renew | settle | confirmQuiescence | expire | startTaskAdmission | denyTaskAdmission
    | confirmDeniedTaskQuiescence | deferTaskAdmission | stopStartedTaskAdmission =>
      exact cancels.elim

theorem Leased.cancelled {rest : List TimedOp} {clock : Nat}
    (leased : Leased (timed :: rest) clock s) (reached : clock ≤ timed.now)
    (ordered : Ordered (timed :: rest)) (sound : Sound s) (h : s.apply timed = .ok t)
    (cancels : timed.op = .onAttempt id .cancel) (ha : s.attempt id = some a)
    (isActive : a.state = .active) (runs : TaskRun.run t rest = .ok u) {b : AttemptSnapshot}
    (hb : u.attempt id = some b) :
    b.lease.expiresAt ≤ timed.now + cleanupGraceMs ∧
      (timed.now < a.lease.expiresAt → timed.now < a.authorityDeadline →
        b.authorityDeadline ≤ timed.now + cleanupGraceMs) := by
  have next := leased.step reached ordered sound h
  have sound' := step_sound sound (apply_step sound h)
  have last : ∃ clock', Leased [] clock' u := by
    rw [← List.append_nil rest] at next ordered
    obtain ⟨clock', last, -⟩ := next.run sound'
      (fun x hx => ((List.pairwise_cons.mp ordered).1 x hx).1) ordered.tail runs
    exact ⟨clock', last⟩
  obtain ⟨clock', last⟩ := last
  have within := (last.within b (Table.find_mem hb)).authority
  obtain ⟨m, found⟩ : ∃ m, t.attempt id = some m := by
    obtain kept | ⟨_, _, _, _, _, moved, _⟩ := apply_attempt sound h ha
    · exact ⟨a, kept⟩
    · exact ⟨_, moved⟩
  have mem : m ∈ t.attempts := Table.find_mem found
  obtain ⟨_, found', deadline, ended, -⟩ := run_deadline sound' found runs
  cases hb.symm.trans found'
  by_cases still : m.state = .active
  · -- the attempt runs on, its authority cut by this cancellation or an earlier one
    have gone := apply_cancels h (by rw [cancels]; trivial)
    have requested : t.task.cancelRequestedAt.isSome = true := by
      cases gone with
      | inl terminal =>
        have current := (sound'.active m mem).mp still
        rw [sound'.idle fun running => by simp [running, TaskState.isTerminal] at terminal] at current
        cases current
      | inr requested => exact requested
    obtain ⟨c, requested⟩ := Option.isSome_iff_exists.mp requested
    obtain ⟨early, cut⟩ := next.cut c requested
    have cut' := deadline.trans ((cut m mem still).trans (Nat.add_le_add_right early _))
    exact ⟨within.trans cut', fun _ _ => cut'⟩
  · -- the cancellation found the lease over and ended the attempt
    obtain ⟨ended, lease⟩ := ended still
    obtain kept | ⟨op, w, named, decided, -, moved, move⟩ := apply_attempt sound h ha
    · cases kept.symm.trans found
      exact absurd isActive still
    · cases cancels.symm.trans named
      cases moved.symm.trans found
      obtain ⟨r, cancelled, rfl⟩ := map_eq_ok.mp decided
      have bound := (leased.within a (Table.find_mem ha)).authority
      have past : a.lease.expiresAt ≤ timed.now ∨ a.authorityDeadline ≤ timed.now := by
        obtain ⟨-, rfl⟩ | ⟨-, -, kept | ⟨_, given, past | cut⟩⟩ := cancel_cases cancelled
        · exact absurd isActive still
        · simp only [Transition.writes, kept, Option.getD_none] at still
          exact absurd isActive still
        · cases given
          exact past
        · cases given
          simp only [Transition.writes, cut, Option.getD_some, shortenedAttempt] at still
          exact absurd isActive still
      have shorter : b.lease.expiresAt ≤ a.lease.expiresAt := by
        rw [lease]
        obtain ⟨same, -⟩ | ⟨session, uses, -⟩ | ⟨-, shorter, -⟩ := move.lease
        · exact (congrArg Lease.expiresAt same).le
        · obtain ⟨command, is⟩ := uses
          cases is
        · exact shorter
      refine ⟨by omega, fun inLease inAuthority => ?_⟩
      omega

/-- A renewal is accepted while its attempt is live, and one that is not new changes nothing. -/
theorem apply_renew {session : Option WorkerSession} {command : RenewCommand} {now : Nat}
    (sound : Sound s) (found : s.attempt id = some a)
    (h : s.apply ⟨.onAttempt id (.renew session command), now⟩ = .ok t) :
    live s.task a now ∧
      (command.sequence ≤ a.renewSequence ∨ t.lastRenewal id = s.lastRenewal id → t = s) := by
  have effect := apply_effect sound h
  have sound' := step_sound sound (apply_step sound h)
  obtain ⟨a', found', w, decided, -⟩ := apply_onAttempt.mp h
  cases found.symm.trans found'
  obtain ⟨r, accepted, -⟩ := map_eq_ok.mp decided
  refine ⟨(renew_cases accepted).1, fun old => ?_⟩
  obtain same | ⟨notYet, b, hb, named, done⟩ := effect
  · exact same
  · refine absurd ⟨a, Table.find_mem found, Table.find_key found, ?_⟩ notYet
    cases old with
    | inl old => exact old
    | inr same =>
      have found'' : t.attempt id = some b := named ▸ Table.find_of_mem sound'.unique hb
      have number : s.lastNumber id = t.lastNumber id := by rw [lastNumber, lastNumber, same]
      rw [lastNumber_attempt found, lastNumber_attempt found''] at number
      have reached : command.sequence ≤ b.renewSequence := done
      show command.sequence ≤ a.renewSequence
      omega

/-- The renewals of an attempt over any run of its task whose times do not go back and whose session
is never shortened, seen at one of its steps and at its end. -/
theorem renewals_bounded {command : SubmitCommand} {descriptor : ProgramDescriptor}
    {taskId runId : String} {at' : Nat} {r : Transition Unit} {lineage : Lineage}
    {before after : List TimedOp} (submits : submit command descriptor taskId runId at' = .ok r)
    (ordered : Ordered (before ++ timed :: after))
    (ran : run (submitted r lineage) before = .ok s) (applied : s.apply timed = .ok t)
    (runs : run t after = .ok u) (id : String) :
    (∀ a ∈ u.attempts, a.lease.expiresAt ≤ a.authorityDeadline) ∧
    (∀ a, u.attempt id = some a →
      renewals id (submitted r lineage) (before ++ timed :: after) =
        List.range' 1 a.renewSequence) ∧
    (∀ a, s.attempt id = some a → ∃ b, t.attempt id = some b ∧
      (timed.op ≠ .onAttempt id .cancel → a.lease.expiresAt ≤ b.lease.expiresAt) ∧
      (a.executionMayHaveStarted = true → b.executionMayHaveStarted = true) ∧
      (∀ session c, timed.op = .onAttempt id (.renew session c) →
        live s.task a timed.now ∧
        (c.sequence ≤ a.renewSequence ∨ t.lastRenewal id = s.lastRenewal id → t = s))) ∧
    (timed.op.Cancels → Silenced u.task) ∧
    (∀ a, timed.op = .onAttempt id .cancel → s.attempt id = some a → a.state = .active →
      ∀ b, u.attempt id = some b → b.lease.expiresAt ≤ timed.now + cleanupGraceMs ∧
        (timed.now < a.lease.expiresAt → timed.now < a.authorityDeadline →
          b.authorityDeadline ≤ timed.now + cleanupGraceMs)) := by
  have start := submitted_sound lineage submits
  have fresh : Leased (before ++ timed :: after) 0 (submitted r lineage) := by
    obtain ⟨-, -, -, -, rfl⟩ := submit_eq_ok submits
    exact ⟨fun a ha => absurd ha List.not_mem_nil, fun c requested => by cases requested⟩
  obtain ⟨clock, leased, reached, sound⟩ :=
    fresh.run start (fun x _ => Nat.zero_le x.now) ordered ran
  have here := reached timed (List.mem_cons_self ..)
  have rest : Ordered (timed :: after) := (List.pairwise_append.mp ordered).2.1
  have sound' := step_sound sound (apply_step sound applied)
  have whole : run (submitted r lineage) (before ++ timed :: after) = .ok u :=
    run_append.mpr ⟨s, ran, foldlM_cons_ok.mpr ⟨t, applied, runs⟩⟩
  refine ⟨?_, ?_, ?_, ?_, ?_⟩
  · intro a ha
    have reachedEnd : ∃ clock', Leased [] clock' u := by
      rw [← List.append_nil (before ++ timed :: after)] at fresh ordered
      obtain ⟨clock', last, -⟩ := fresh.run start (fun x _ => Nat.zero_le x.now) ordered whole
      exact ⟨clock', last⟩
    obtain ⟨clock', last⟩ := reachedEnd
    exact (last.within a ha).authority
  · intro a found
    have numbers : List.range' 1 ((submitted r lineage).lastNumber id) ++
        renewals id (submitted r lineage) _ = List.range' 1 (u.lastNumber id) :=
      run_renewals start whole
    have none : (submitted r lineage).lastNumber id = 0 := rfl
    rw [none, lastNumber_attempt found] at numbers
    exact numbers
  · intro a found
    have renews : ∀ session c, timed.op = .onAttempt id (.renew session c) →
        live s.task a timed.now ∧
        (c.sequence ≤ a.renewSequence ∨ t.lastRenewal id = s.lastRenewal id → t = s) := by
      intro session c renews
      obtain ⟨_, now⟩ := timed
      subst renews
      exact apply_renew sound found applied
    obtain kept | ⟨op, w, named, decided, same, moved, move⟩ := apply_attempt sound applied found
    · exact ⟨a, kept, fun _ => Nat.le_refl _, fun started => started, renews⟩
    · have plain : Move s.task a timed.now w.task (w.attempt.getD a) w.history :=
        move.mono fun _ _ => trivial
      refine ⟨_, moved, fun other => ?_, plain.started, renews⟩
      obtain ⟨_, now⟩ := timed
      subst named
      have notCancel : op ≠ .cancel := fun is => other (by rw [is])
      exact (leased.within a (Table.find_mem found)).grows here move
        (decide_requested notCancel decided)
  · exact fun cancels => (Over.run (apply_cancels applied cancels) sound' runs).silenced
  · intro a cancels found isActive b hb
    exact leased.cancelled here rest sound applied cancels found isActive runs hb

def briefSession : WorkerSession := { sampleSession with expiresAt := 31000 }

def briefClaim : TimedOp :=
  ⟨.acquire ⟨some briefSession, none, none, sampleIds "1"⟩
    ⟨sampleScope, "python", "session-1", 0, 1⟩, 2000⟩

def sampleCancel (now : Nat) : TimedOp := ⟨.onAttempt "attempt-1" .cancel, now⟩

def sampleRenewal (session : WorkerSession) (sequence now : Nat) : TimedOp :=
  ⟨.onAttempt "attempt-1" (.renew (some session) ⟨sampleOwner "1" 1, sequence, .dispatch⟩), now⟩

def leasesOf (s : TaskRun) : List (Nat × Nat) :=
  s.attempts.map fun a => (a.lease.expiresAt, a.authorityDeadline)

/-- A cancellation that comes when the lease is just over leaves the attempt more authority than its
grace, and one that comes after the report leaves it more lease, too. -/
theorem cancel_leaves_authority :
    Ordered [briefClaim, sampleCancel 31000] ∧
    (sampleRun none [briefClaim, sampleCancel 31000]).map leasesOf = .ok [(31000, 92000)] ∧
    31000 + cleanupGraceMs < 92000 ∧
    (∃ s a, sampleRun none [sampleClaim "1" 2000] = .ok s ∧ a ∈ s.attempts ∧
      (run s [⟨.onAttempt "attempt-1" (.settle (sampleSuccess a)), 3000⟩,
        sampleCancel 4000]).map leasesOf = .ok [(62000, 92000)]) ∧
    4000 + cleanupGraceMs < 62000 := by
  have ends : ((sampleRun none [sampleClaim "1" 2000]).map fun s => s.attempts.map fun a =>
      (run s [⟨.onAttempt "attempt-1" (.settle (sampleSuccess a)), 3000⟩,
        sampleCancel 4000]).map leasesOf) = .ok [.ok [(62000, 92000)]] := by
    decide +kernel
  obtain ⟨s, runs, told⟩ := map_eq_ok.mp ends
  obtain ⟨a, rest, stored, first, -⟩ := List.map_eq_cons_iff.mp told
  refine ⟨?_, by decide +kernel, by decide, ⟨s, a, runs, by simp [stored], first⟩, by decide⟩
  refine List.pairwise_pair.mpr ⟨by decide, fun p q _ given => by cases given⟩

def sampleRenewals : List TimedOp :=
  [sampleClaim "1" 2000, sampleRenewal sampleSession 1 3000, sampleRenewal sampleSession 2 9000,
    sampleRenewal sampleSession 2 9500]

/-- Two renewals of a first attempt, the second of them sent twice, its cancellation, and one more
renewal. -/
theorem renewals_of_first_attempt :
    ∃ r s t u b, sampleSubmit none = .ok r ∧ run (submitted r .none) sampleRenewals = .ok s ∧
      s.apply (sampleCancel 10000) = .ok t ∧
      run t [sampleRenewal sampleSession 3 12000] = .ok u ∧ u.attempt "attempt-1" = some b ∧
      renewals "attempt-1" (submitted r .none) (sampleRenewals ++ sampleCancel 10000 ::
        [sampleRenewal sampleSession 3 12000]) = List.range' 1 b.renewSequence ∧
      b.lease.expiresAt ≤ 40000 ∧ Silenced u.task := by
  have ends : (sampleSubmit none >>= fun r => run (submitted r .none) sampleRenewals >>= fun s =>
      s.apply (sampleCancel 10000) >>= fun t =>
        (run t [sampleRenewal sampleSession 3 12000]).map fun u =>
          ((s.attempt "attempt-1").map AttemptSnapshot.state,
            (u.attempt "attempt-1").map AttemptSnapshot.renewSequence)) =
      .ok (some .active, some 3) := by
    decide +kernel
  simp only [bind_eq_ok] at ends
  obtain ⟨r, submits, s, ran, t, applied, ends⟩ := ends
  obtain ⟨u, runs, told⟩ := map_eq_ok.mp ends
  simp only [Prod.mk.injEq, Option.map_eq_some_iff] at told
  obtain ⟨⟨a, found, isActive⟩, b, found', -⟩ := told
  have ordered : Ordered (sampleRenewals ++ sampleCancel 10000 ::
      [sampleRenewal sampleSession 3 12000]) := by
    simp [Ordered, sampleRenewals, sampleClaim, sampleRenewal, sampleCancel, TimedOp.session]
  have bounded := renewals_bounded submits ordered ran applied runs "attempt-1"
  obtain ⟨-, numbers, -, silenced, cut⟩ := bounded
  exact ⟨r, s, t, u, b, submits, ran, applied, runs, found', numbers b found',
    (cut a rfl found isActive b found').1, silenced trivial⟩

end Cancelled
end TaskRun
end Ledgence
