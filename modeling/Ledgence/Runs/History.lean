import Ledgence.Runs.TaskRun

/-! The history of a task determines its state, and records each fact once. -/
open Kit Kit.Checked

namespace Ledgence

def replayReason (state : TaskState) : TransitionReason → TaskState
  | .submitted | .retryScheduled | .admissionDeferred => .queued
  | .claimed => .active
  | .succeeded => .succeeded
  | .failed => .failed
  | .cancelled => .cancelled
  | .admissionStopped | .dispatchAuthorized | .cancelRequested | .reportAccepted
  | .cleanupConfirmed | .leaseExpired => state

def replay (state : TaskState) (events : List HistoryEvent) : TaskState :=
  events.foldl (fun state event => replayReason state event.reason) state

def HistoryEvent.changesState (event : HistoryEvent) : Bool :=
  match event.reason with
  | .submitted | .retryScheduled | .admissionDeferred | .claimed | .succeeded | .failed
  | .cancelled => true
  | .admissionStopped | .dispatchAuthorized | .cancelRequested | .reportAccepted
  | .cleanupConfirmed | .leaseExpired => false

def HistoryEvent.isTerminal (event : HistoryEvent) : Bool :=
  match event.reason with
  | .succeeded | .failed | .cancelled => true
  | _ => false

def tally (reason : TransitionReason) (events : List HistoryEvent) : Nat :=
  events.countP fun event => decide (event.reason = reason)

def eventsOf (id : String) (events : List HistoryEvent) : List HistoryEvent :=
  events.filter fun event => decide (event.attemptId = some id)

def once (fact : Bool) : Nat :=
  if fact then 1 else 0

section Moves
variable {task task' : TaskSnapshot} {attempt attempt' : AttemptSnapshot} {now : Nat}
  {events : List HistoryEvent}

@[simp] theorem tally_nil (reason : TransitionReason) : tally reason [] = 0 := rfl

@[simp] theorem tally_append (reason : TransitionReason) (a b : List HistoryEvent) :
    tally reason (a ++ b) = tally reason a + tally reason b :=
  List.countP_append

@[simp] theorem tally_history (reason r : TransitionReason) (a : Option AttemptSnapshot)
    (rest : List HistoryEvent) :
    tally reason (history task a now r :: rest) = once (decide (r = reason)) + tally reason rest := by
  simp only [tally, List.countP_cons, history, once]
  omega

@[simp] theorem once_true : once true = 1 := rfl
@[simp] theorem once_false : once false = 0 := rfl

def endReason : TaskState → TransitionReason
  | .queued => .retryScheduled
  | .succeeded => .succeeded
  | .failed => .failed
  | .cancelled => .cancelled
  | .active => .claimed

def TransitionReason.recordsEnd : TransitionReason → Bool
  | .retryScheduled | .succeeded | .failed | .cancelled | .claimed => true
  | _ => false

theorem endReason_recordsEnd (state : TaskState) : (endReason state).recordsEnd = true := by
  cases state <;> rfl

theorem finishOutcome_reason {state : AttemptState} {retry : Option Nat} :
    (finishOutcome task state retry).2 = endReason (finishOutcome task state retry).1 := by
  unfold finishOutcome
  split
  · rfl
  · split
    · rfl
    · split <;> rfl

/-- The event `finish` appends is none of those that record something else. -/
theorem tally_finish {reason : TransitionReason} (task₁ : TaskSnapshot) (state : AttemptState)
    (retry : Option Nat) (a : Option AttemptSnapshot)
    (other : reason.recordsEnd = false) :
    tally reason (events ++ [history task a now (finishOutcome task₁ state retry).2]) =
      tally reason events := by
  have differs : ∀ ended, endReason ended ≠ reason := by
    rintro ended rfl
    simp [endReason_recordsEnd] at other
  rw [finishOutcome_reason]
  simp [differs]

theorem Closing.named {task₁ : TaskSnapshot} {attempt₁ : AttemptSnapshot}
    (h : Closing task attempt now task₁ attempt₁ events) :
    ∀ e ∈ events, e.attemptId = some attempt.id := by
  intro e he
  cases h with
  | reported | confirmed | expired | stopped =>
    obtain rfl := List.mem_singleton.mp he
    rfl
  | cancelled =>
    simp only [List.mem_cons, List.not_mem_nil, or_false] at he
    obtain rfl | rfl := he
    · rfl
    · rfl

theorem Move.named (h : Move task attempt now task' attempt' events) :
    ∀ e ∈ events, e.attemptId = some attempt.id ∨ e.attemptId = none ∧ e.reason = .cancelled := by
  intro e he
  cases h with
  | same => simp at he
  | withdrawn =>
    simp only [List.mem_cons, List.not_mem_nil, or_false] at he
    obtain rfl | rfl := he
    · exact .inl rfl
    · exact .inr ⟨rfl, rfl⟩
  | renewed =>
    split at he
    · obtain rfl := List.mem_singleton.mp he
      exact .inl rfl
    · simp at he
  | closed running closing retry scheduled =>
    obtain before | last := List.mem_append.mp he
    · exact .inl (closing.named e before)
    · obtain rfl := List.mem_singleton.mp last
      exact .inl rfl
  | deferred quiescence running governed unstarted unsettled fresh inRange given =>
    obtain first | last := List.mem_append.mp he
    · obtain rfl := List.mem_singleton.mp first
      exact .inl rfl
    · split at last
      · obtain rfl := List.mem_singleton.mp last
        exact .inl rfl
      · simp at last
  | reported | cancelRequested | started | denied | denialConfirmed | deferralCancelled =>
    obtain rfl := List.mem_singleton.mp he
    exact .inl rfl

/- What the events of one move record. -/

theorem Closing.tally_report {task₁ : TaskSnapshot} {attempt₁ : AttemptSnapshot}
    (h : Closing task attempt now task₁ attempt₁ events) :
    tally .reportAccepted events + once attempt.settlement.isSome =
      once attempt₁.settlement.isSome := by
  cases h with
  | reported command acceptable isLive first quiet => simp [first, reportedAttempt]
  | confirmed | expired | cancelled | stopped => simp [confirmedAttempt]

theorem Move.tally_report (h : Move task attempt now task' attempt' events) :
    tally .reportAccepted events + once attempt.settlement.isSome =
      once attempt'.settlement.isSome := by
  cases h with
  | reported command acceptable isLive first loud => simp [first, reportedAttempt]
  | closed running closing retry scheduled =>
    rw [tally_finish _ _ _ _ rfl]
    exact closing.tally_report
  | renewed => split <;> simp [renewedAttempt]
  | deferred => split <;> simp [closedPreparation]
  | same | withdrawn | cancelRequested | started | denied | denialConfirmed | deferralCancelled =>
    simp [shortenedAttempt, startedAttempt, deniedAttempt, confirmedAttempt, closedPreparation]

theorem Closing.tally_dispatch {task₁ : TaskSnapshot} {attempt₁ : AttemptSnapshot}
    (h : Closing task attempt now task₁ attempt₁ events) :
    tally .dispatchAuthorized events + once attempt.executionMayHaveStarted ≤
      once attempt₁.executionMayHaveStarted := by
  cases h with
  | reported command acceptable isLive first quiet =>
    cases hs : attempt.executionMayHaveStarted <;> simp [reportedAttempt, hs]
  | confirmed | expired | cancelled | stopped => simp [confirmedAttempt]

theorem Move.tally_dispatch (h : Move task attempt now task' attempt' events) :
    tally .dispatchAuthorized events + once attempt.executionMayHaveStarted ≤
      once attempt'.executionMayHaveStarted := by
  cases h with
  | renewed session command =>
    cases hs : attempt.executionMayHaveStarted with
    | true =>
      have not : authorizesDispatch task attempt command now = false := by
        simp [authorizesDispatch, hs]
      simp [renewedAttempt, hs, not]
    | false =>
      by_cases authorized : authorizesDispatch task attempt command now = true
      · simp [renewedAttempt, hs, authorized]
      · simp [authorized]
  | reported command acceptable isLive first loud =>
    cases hs : attempt.executionMayHaveStarted <;> simp [reportedAttempt, hs]
  | closed running closing retry scheduled =>
    rw [tally_finish _ _ _ _ rfl]
    exact closing.tally_dispatch
  | started isLive governed fresh inTime unsettled first => simp [startedAttempt, first]
  | deferred => split <;> simp [closedPreparation]
  | same | withdrawn | cancelRequested | denied | denialConfirmed | deferralCancelled =>
    simp [shortenedAttempt, deniedAttempt, confirmedAttempt, closedPreparation]

def AttemptSnapshot.isQuiet (attempt : AttemptSnapshot) : Bool :=
  decide (attempt.quiescence = .confirmed)

theorem Closing.tally_cleanup {task₁ : TaskSnapshot} {attempt₁ : AttemptSnapshot}
    (h : Closing task attempt now task₁ attempt₁ events) :
    tally .cleanupConfirmed events ≤ once attempt₁.isQuiet := by
  cases h with
  | confirmed => simp [AttemptSnapshot.isQuiet, confirmedAttempt]
  | reported | expired | cancelled | stopped => simp

/-- Cleanup of an attempt that was loud while it ran is confirmed at most once. -/
theorem Move.tally_cleanup (running : attempt.state = .active → attempt.isQuiet = false)
    (h : Move task attempt now task' attempt' events) :
    tally .cleanupConfirmed events + once attempt.isQuiet ≤ once attempt'.isQuiet := by
  cases h with
  | closed running' closing retry scheduled =>
    rw [tally_finish _ _ _ _ rfl, running running'.attemptActive]
    exact closing.tally_cleanup
  | reported command acceptable isLive first loud =>
    simp [running isLive.running.attemptActive]
  | denied reason isLive => simp [running isLive.running.attemptActive]
  | denialConfirmed denial taskFailed attemptFailed unsettled unstarted atEnd loud =>
    simp [AttemptSnapshot.isQuiet, loud, confirmedAttempt]
  | deferralCancelled quiescence running' => simp [running running'.attemptActive]
  | deferred quiescence running' =>
    simp only [running running'.attemptActive]
    split <;> simp
  | renewed =>
    show tally _ _ + once attempt.isQuiet ≤ once attempt.isQuiet
    split <;> simp
  | same | withdrawn | cancelRequested | started =>
    show tally _ _ + once attempt.isQuiet ≤ once attempt.isQuiet
    simp

theorem Move.loud (running : attempt.state = .active → attempt.isQuiet = false)
    (h : Move task attempt now task' attempt' events) :
    attempt'.state = .active → attempt'.isQuiet = false := by
  intro isActive
  cases h with
  | reported command acceptable isLive first loud =>
    simp [AttemptSnapshot.isQuiet, reportedAttempt, loud]
  | closed running closing retry scheduled => exact absurd isActive finishState_ne_active
  | denialConfirmed denial taskFailed attemptFailed =>
    exact absurd (isActive.symm.trans attemptFailed) (by simp)
  | denied => simp [deniedAttempt] at isActive
  | deferralCancelled => simp [closedPreparation] at isActive
  | deferred => simp [closedPreparation] at isActive
  | same | withdrawn | renewed | cancelRequested | started => exact running isActive

theorem Closing.tally_cancel {task₁ : TaskSnapshot} {attempt₁ : AttemptSnapshot}
    (h : Closing task attempt now task₁ attempt₁ events) :
    tally .cancelRequested events + once task.cancelRequestedAt.isSome =
      once task₁.cancelRequestedAt.isSome := by
  cases h with
  | cancelled past fresh inRange => simp [fresh, cancelRequestedTask]
  | reported | confirmed | expired | stopped => simp

theorem Move.tally_cancel (h : Move task attempt now task' attempt' events) :
    tally .cancelRequested events + once task.cancelRequestedAt.isSome =
      once task'.cancelRequestedAt.isSome := by
  cases h with
  | closed running closing retry scheduled =>
    rw [tally_finish _ _ _ _ rfl]
    exact closing.tally_cancel
  | withdrawn queued fresh => simp [fresh, cancelledTask, cancelRequestedTask]
  | cancelRequested running fresh => simp [fresh, cancelRequestedTask]
  | renewed => split <;> simp
  | deferred quiescence running governed unstarted unsettled fresh inRange given =>
    obtain ⟨-, -, ⟨-, rfl⟩ | ⟨-, -, rfl⟩⟩ := deferredTask_eq_ok given
    · split <;> simp [exhaustedTask, givenBack]
    · split <;> simp [requeuedTask, givenBack]
  | same | reported | started | denied | denialConfirmed | deferralCancelled =>
    simp [deniedTask, preparationCancelledTask]

theorem Move.tally_origin (h : Move task attempt now task' attempt' events) :
    tally .submitted events = 0 ∧ tally .claimed events = 0 := by
  cases h with
  | @closed _ task₁ attempt₁ _ closing retry scheduled =>
    have notActive : (finishOutcome task₁ (finishState task₁ attempt₁).1 retry).1 ≠ .active :=
      finishOutcome_ne_active
    rw [finishOutcome_reason]
    cases ended : (finishOutcome task₁ (finishState task₁ attempt₁).1 retry).1
    case active => exact absurd ended notActive
    all_goals cases closing <;> simp [endReason]
  | renewed => split <;> simp
  | deferred => split <;> simp
  | same | reported | withdrawn | cancelRequested | started | denied | denialConfirmed
  | deferralCancelled => simp

/- State changes. -/

@[simp] theorem replay_nil (state : TaskState) : replay state [] = state := rfl

@[simp] theorem replay_append (state : TaskState) (a b : List HistoryEvent) :
    replay state (a ++ b) = replay (replay state a) b :=
  List.foldl_append

@[simp] theorem replay_history (state : TaskState) (a : Option AttemptSnapshot)
    (r : TransitionReason) (rest : List HistoryEvent) :
    replay state (history task a now r :: rest) = replay (replayReason state r) rest := rfl

theorem Closing.quiet {task₁ : TaskSnapshot} {attempt₁ : AttemptSnapshot}
    (h : Closing task attempt now task₁ attempt₁ events) :
    (∀ state, replay state events = state) ∧ events.filter HistoryEvent.changesState = [] ∧
      events.countP HistoryEvent.isTerminal = 0 := by
  cases h with
  | reported | confirmed | expired | stopped | cancelled => exact ⟨fun _ => rfl, rfl, rfl⟩

theorem replay_endReason {state ended : TaskState} (h : ended ≠ .active) :
    replayReason state (endReason ended) = ended := by
  cases ended with
  | active => exact absurd rfl h
  | queued | succeeded | failed | cancelled => rfl

theorem Move.replays (h : Move task attempt now task' attempt' events) :
    replay task.state events = task'.state := by
  cases h with
  | closed running closing retry scheduled =>
    rw [replay_append, closing.quiet.1, finishOutcome_reason]
    exact replay_endReason finishOutcome_ne_active
  | renewed => split <;> rfl
  | deferred quiescence running governed unstarted unsettled fresh inRange given =>
    obtain ⟨-, -, ⟨-, rfl⟩ | ⟨-, -, rfl⟩⟩ := deferredTask_eq_ok given
    · simp [exhaustedTask, replayReason]
    · simp [requeuedTask, replayReason]
  | same | reported | withdrawn | cancelRequested | started | denied | denialConfirmed
  | deferralCancelled => rfl

/-- A move is silent about the state, or its last word on the state is the end of the task or
its requeueing. -/
theorem Move.changes (h : Move task attempt now task' attempt' events) :
    (task'.state = task.state ∧ task'.terminalAt = task.terminalAt ∧
      events.filter HistoryEvent.changesState = [] ∧
      events.countP HistoryEvent.isTerminal = 0) ∨
    (task.state.isTerminal = false ∧
      events.countP HistoryEvent.isTerminal = once task'.state.isTerminal ∧
      (task'.state.isTerminal = true → ∃ e, (events.filter HistoryEvent.changesState).getLast? =
        some e ∧ e.reason = endReason task'.state ∧ task'.terminalAt = some e.at')) := by
  cases h with
  | same | reported | cancelRequested | started | denialConfirmed => exact .inl ⟨rfl, rfl, rfl, rfl⟩
  | renewed => split <;> exact .inl ⟨rfl, rfl, rfl, rfl⟩
  | withdrawn queued fresh unowned inRange =>
    exact .inr ⟨by simp [queued, TaskState.isTerminal], rfl, fun _ => ⟨_, rfl, rfl, rfl⟩⟩
  | denied reason isLive =>
    exact .inr ⟨by simp [isLive.running.taskActive, TaskState.isTerminal], rfl,
      fun _ => ⟨_, rfl, rfl, rfl⟩⟩
  | deferralCancelled quiescence running =>
    exact .inr ⟨by simp [running.taskActive, TaskState.isTerminal], rfl,
      fun _ => ⟨_, rfl, rfl, rfl⟩⟩
  | deferred quiescence running governed unstarted unsettled fresh inRange given =>
    refine .inr ⟨by simp [running.taskActive, TaskState.isTerminal], ?_⟩
    obtain ⟨-, -, ⟨-, rfl⟩ | ⟨-, -, rfl⟩⟩ := deferredTask_eq_ok given
    · exact ⟨rfl, fun _ => ⟨_, rfl, rfl, rfl⟩⟩
    · exact ⟨rfl, fun isTerminal => by simp [requeuedTask, TaskState.isTerminal] at isTerminal⟩
  | @closed running task₁ attempt₁ _ closing retry scheduled =>
    obtain ⟨-, filtered, counted⟩ := closing.quiet
    refine .inr ⟨by simp [running.taskActive, TaskState.isTerminal], ?_⟩
    rw [finishOutcome_reason, List.countP_append, counted, List.filter_append, filtered]
    have state : (finishedTask task₁ attempt₁ retry now).state =
      (finishOutcome task₁ (finishState task₁ attempt₁).1 retry).1 := rfl
    have terminalAt : (finishedTask task₁ attempt₁ retry now).terminalAt =
      if (finishedTask task₁ attempt₁ retry now).state.isTerminal then some now
        else task₁.terminalAt := rfl
    have notActive : (finishOutcome task₁ (finishState task₁ attempt₁).1 retry).1 ≠ .active :=
      finishOutcome_ne_active
    rw [← state] at notActive ⊢
    constructor
    · cases ended : (finishedTask task₁ attempt₁ retry now).state
      case active => exact absurd ended notActive
      all_goals rfl
    · intro isTerminal
      rw [terminalAt, if_pos isTerminal]
      refine ⟨history task (some attempt) now
        (endReason (finishedTask task₁ attempt₁ retry now).state), ?_, rfl, rfl⟩
      cases ended : (finishedTask task₁ attempt₁ retry now).state
      case active => exact absurd ended notActive
      all_goals rfl

end Moves

namespace TaskRun

structure Logged (s : TaskRun) : Prop where
  replayed : ∀ start, replay start s.log = s.task.state
  submitted : tally .submitted s.log = 1
  known : ∀ e ∈ s.log, ∀ id, e.attemptId = some id → id ∈ s.attempts.map AttemptSnapshot.id
  claims : tally .claimed s.log = s.attempts.length
  claimed : ∀ a ∈ s.attempts, tally .claimed (eventsOf a.id s.log) = 1
  loud : ∀ a ∈ s.attempts, a.state = .active → a.isQuiet = false
  dispatched : ∀ a ∈ s.attempts,
    tally .dispatchAuthorized (eventsOf a.id s.log) ≤ once a.executionMayHaveStarted
  reported : ∀ a ∈ s.attempts,
    tally .reportAccepted (eventsOf a.id s.log) = once a.settlement.isSome
  cleaned : ∀ a ∈ s.attempts,
    tally .cleanupConfirmed (eventsOf a.id s.log) ≤ once a.isQuiet
  cancelled : tally .cancelRequested s.log = once s.task.cancelRequestedAt.isSome
  ended : s.log.countP HistoryEvent.isTerminal = once s.task.state.isTerminal
  last : s.task.state.isTerminal = true → ∃ e,
    (s.log.filter HistoryEvent.changesState).getLast? = some e ∧
      e.reason = endReason s.task.state ∧ s.task.terminalAt = some e.at'

section Logged
variable {s : TaskRun} {now : Nat} {task' : TaskSnapshot} {attempt attempt' : AttemptSnapshot}
  {events : List HistoryEvent}

theorem eventsOf_append (id : String) (a b : List HistoryEvent) :
    eventsOf id (a ++ b) = eventsOf id a ++ eventsOf id b :=
  List.filter_append ..

theorem tally_eventsOf_self (move : Move s.task attempt now task' attempt' events)
    {reason : TransitionReason} (other : reason ≠ .cancelled) :
    tally reason (eventsOf attempt.id events) = tally reason events := by
  simp only [tally, eventsOf, List.countP_filter]
  refine List.countP_congr fun e he => ?_
  obtain named | ⟨-, cancelled⟩ := move.named e he
  · simp [named]
  · have : e.reason ≠ reason := fun same => other (same.symm.trans cancelled)
    simp [this]

theorem eventsOf_other (move : Move s.task attempt now task' attempt' events) {id : String}
    (other : id ≠ attempt.id) : eventsOf id events = [] := by
  rw [eventsOf, List.filter_eq_nil_iff]
  intro e he
  obtain named | ⟨none, -⟩ := move.named e he
  · simp [named, Ne.symm other]
  · simp [none]

/-- A count per attempt that each move keeps below, or equal to, a mark on the attempt. -/
theorem tally_put (rel : Nat → Nat → Prop) (mark : AttemptSnapshot → Bool)
    (mem : attempt ∈ s.attempts) (move : Move s.task attempt now task' attempt' events)
    {reason : TransitionReason} (other : reason ≠ .cancelled)
    (before : ∀ a ∈ s.attempts, rel (tally reason (eventsOf a.id s.log)) (once (mark a)))
    (kept : rel (tally reason (eventsOf attempt.id s.log)) (once (mark attempt)) →
      rel (tally reason (eventsOf attempt.id s.log) + tally reason events) (once (mark attempt'))) :
    ∀ a ∈ Table.put AttemptSnapshot.id attempt' s.attempts,
      rel (tally reason (eventsOf a.id (s.log ++ events))) (once (mark a)) := by
  intro a ha
  have sameId : attempt'.id = attempt.id := by
    simp [AttemptSnapshot.id, move.same_attempt.owner]
  rw [eventsOf_append, tally_append]
  obtain rfl | ⟨ha, differs⟩ := Table.mem_put ha
  · rw [sameId, tally_eventsOf_self move other]
    exact kept (before _ mem)
  · rw [eventsOf_other move (sameId ▸ differs)]
    exact before a ha

theorem Logged.moved (logged : Logged s) (mem : attempt ∈ s.attempts)
    (move : Move s.task attempt now task' attempt' events) :
    Logged ⟨task', Table.put AttemptSnapshot.id attempt' s.attempts, s.log ++ events⟩ := by
  have loud := logged.loud _ mem
  constructor
  case replayed => exact fun start => by rw [replay_append, logged.replayed, move.replays]
  case submitted => rw [tally_append, logged.submitted, move.tally_origin.1]
  case known =>
    intro e he id named
    rw [Table.keys_put]
    obtain he | he := List.mem_append.mp he
    · exact logged.known e he id named
    · obtain self | ⟨none, -⟩ := move.named e he
      · rw [self] at named
        exact Option.some.inj named ▸ List.mem_map_of_mem mem
      · simp [none] at named
  case claims =>
    rw [tally_append, logged.claims, move.tally_origin.2, Table.length_put, Nat.add_zero]
  case claimed =>
    refine tally_put Eq (fun _ => true) mem move (by simp)
      logged.claimed fun one => ?_
    rw [one, move.tally_origin.2, Nat.add_zero]
  case loud =>
    intro a ha
    obtain rfl | ⟨ha, -⟩ := Table.mem_put ha
    · exact move.loud loud
    · exact logged.loud a ha
  case dispatched =>
    refine tally_put LE.le AttemptSnapshot.executionMayHaveStarted mem
      move (by simp) logged.dispatched fun before => ?_
    have := move.tally_dispatch
    omega
  case reported =>
    refine tally_put Eq (fun a => a.settlement.isSome) mem move
      (by simp) logged.reported fun before => ?_
    have := move.tally_report
    omega
  case cleaned =>
    refine tally_put LE.le AttemptSnapshot.isQuiet mem move (by simp)
      logged.cleaned fun before => ?_
    have := move.tally_cleanup loud
    omega
  case cancelled =>
    have := move.tally_cancel
    rw [tally_append, logged.cancelled]
    show once s.task.cancelRequestedAt.isSome + tally .cancelRequested events =
      once task'.cancelRequestedAt.isSome
    omega
  case ended =>
    rw [List.countP_append, logged.ended]
    obtain ⟨state, -, -, none⟩ | ⟨notTerminal, counted, -⟩ := move.changes
    · rw [none, state, Nat.add_zero]
    · rw [notTerminal, counted, once_false, Nat.zero_add]
  case last =>
    intro isTerminal
    rw [List.filter_append]
    obtain ⟨state, terminalAt, silent, -⟩ | ⟨-, -, last⟩ := move.changes
    · obtain ⟨e, final, reason, ended⟩ := logged.last (state ▸ isTerminal)
      exact ⟨e, by rw [silent, List.append_nil, final], by rw [reason, state],
        by rw [terminalAt, ended]⟩
    · obtain ⟨e, final, reason, ended⟩ := last isTerminal
      exact ⟨e, by rw [List.getLast?_append, final]; rfl, reason, ended⟩

theorem Logged.unknown (logged : Logged s) {id : String}
    (fresh : id ∉ s.attempts.map AttemptSnapshot.id) : eventsOf id s.log = [] := by
  rw [eventsOf, List.filter_eq_nil_iff]
  intro e he
  simp only [decide_eq_true_eq]
  exact fun named => fresh (logged.known e he id named)

/-- A count per attempt that a claim starts at its mark on the new attempt. -/
theorem tally_claim (rel : Nat → Nat → Prop) (mark : AttemptSnapshot → Bool)
    (logged : Logged s) {new : AttemptSnapshot}
    (fresh : new.id ∉ s.attempts.map AttemptSnapshot.id) {reason : TransitionReason}
    (before : ∀ a ∈ s.attempts, rel (tally reason (eventsOf a.id s.log)) (once (mark a)))
    (start : rel (once (decide (.claimed = reason))) (once (mark new))) :
    ∀ a ∈ s.attempts ++ [new], rel (tally reason (eventsOf a.id
      (s.log ++ [history s.task (some new) now .claimed]))) (once (mark a)) := by
  intro a ha
  rw [eventsOf_append, tally_append]
  obtain ha | ha := List.mem_append.mp ha
  · have other : new.id ≠ a.id := fun same => fresh (same ▸ List.mem_map_of_mem ha)
    have silent : eventsOf a.id [history s.task (some new) now .claimed] = [] := by
      simpa [eventsOf, history, AttemptSnapshot.id] using other
    rw [silent]
    exact before a ha
  · obtain rfl := List.mem_singleton.mp ha
    have told : eventsOf a.id [history s.task (some a) now .claimed] =
        [history s.task (some a) now .claimed] := by
      simp [eventsOf, history, AttemptSnapshot.id]
    rw [logged.unknown fresh, told, tally_history]
    simpa using start

theorem Logged.claim (logged : Logged s) {ids : AttemptIds} {session : WorkerSession}
    {command : AcquireCommand} (claimable : Claimable s.task ids command now)
    (fresh : (newAttempt s.task ids session command.consumerId now).id ∉
      s.attempts.map AttemptSnapshot.id) :
    Logged ⟨newTask s.task ids,
      s.attempts ++ [newAttempt s.task ids session command.consumerId now],
      s.log ++ [history s.task (some (newAttempt s.task ids session command.consumerId now))
        now .claimed]⟩ := by
  constructor
  case replayed => simp [replayReason, newTask, claimedTask]
  case submitted => simp [logged.submitted]
  case known =>
    intro e he id named
    rw [List.map_append, List.mem_append]
    obtain he | he := List.mem_append.mp he
    · exact .inl (logged.known e he id named)
    · obtain rfl := List.mem_singleton.mp he
      exact .inr (by simpa [history, AttemptSnapshot.id] using named.symm)
  case claims => simp [logged.claims]
  case claimed =>
    exact tally_claim Eq (fun _ => true) logged fresh logged.claimed rfl
  case loud =>
    intro a ha
    obtain ha | ha := List.mem_append.mp ha
    · exact logged.loud a ha
    · obtain rfl := List.mem_singleton.mp ha
      exact fun _ => rfl
  case dispatched =>
    exact tally_claim LE.le AttemptSnapshot.executionMayHaveStarted logged
      fresh logged.dispatched (Nat.le_refl 0)
  case reported =>
    exact tally_claim Eq (fun a => a.settlement.isSome) logged fresh
      logged.reported rfl
  case cleaned =>
    exact tally_claim LE.le AttemptSnapshot.isQuiet logged fresh
      logged.cleaned (Nat.le_refl 0)
  case cancelled => simp [logged.cancelled, newTask, claimedTask]
  case ended =>
    rw [List.countP_append, logged.ended, claimable.queued]
    rfl
  case last =>
    exact fun isTerminal => by simp [newTask, claimedTask, TaskState.isTerminal] at isTerminal

theorem Logged.withdraw (logged : Logged s) (queued : s.task.state = .queued)
    (fresh : s.task.cancelRequestedAt = none) :
    Logged ⟨cancelledTask s.task now, s.attempts,
      s.log ++ [history s.task none now .cancelRequested, history s.task none now .cancelled]⟩ := by
  have silent : ∀ id, eventsOf id (s.log ++ [history s.task none now .cancelRequested,
      history s.task none now .cancelled]) = eventsOf id s.log := by
    intro id
    simp [eventsOf, history]
  constructor
  case replayed => simp [replayReason, cancelledTask]
  case submitted => simp [logged.submitted]
  case known =>
    intro e he id named
    obtain he | he := List.mem_append.mp he
    · exact logged.known e he id named
    · simp only [List.mem_cons, List.not_mem_nil, or_false] at he
      obtain rfl | rfl := he <;> simp [history] at named
  case claims => simp [logged.claims]
  case claimed => simpa only [silent] using logged.claimed
  case loud => exact logged.loud
  case dispatched => simpa only [silent] using logged.dispatched
  case reported => simpa only [silent] using logged.reported
  case cleaned => simpa only [silent] using logged.cleaned
  case cancelled => simp [logged.cancelled, fresh, cancelledTask, cancelRequestedTask]
  case ended =>
    rw [List.countP_append, logged.ended, queued]
    rfl
  case last =>
    intro _
    rw [List.filter_append]
    exact ⟨_, List.getLast?_append, rfl, rfl⟩

theorem step_logged {t : TaskRun} (h : Step s now t) (logged : Logged s) : Logged t := by
  cases h with
  | same => exact logged
  | claimed ids session command registered claimable fresh => exact logged.claim claimable fresh
  | withdrawn queued fresh unowned inRange => exact logged.withdraw queued fresh
  | moved attempt attempt' mem task' events move => exact logged.moved mem move

theorem submitted_logged {command : SubmitCommand} {descriptor : ProgramDescriptor}
    {taskId runId : String} {r : Transition Unit} (lineage : Lineage)
    (h : submit command descriptor taskId runId now = .ok r) :
    Logged (TaskRun.submitted r lineage) := by
  obtain ⟨-, -, -, -, rfl⟩ := submit_eq_ok h
  have empty : ∀ P : AttemptSnapshot → Prop, ∀ a ∈ ([] : List AttemptSnapshot), P a := by simp
  refine ⟨fun _ => rfl, rfl, ?_, rfl, empty _, empty _, empty _, empty _, empty _, rfl, rfl, ?_⟩
  · intro e he id named
    obtain rfl := List.mem_singleton.mp he
    simp [history] at named
  · exact fun isTerminal => absurd isTerminal (by simp [TaskRun.submitted, Lineage.on,
      submittedTask, TaskState.isTerminal])

theorem Reachable.logged {s : TaskRun} (reachable : Reachable s) : Logged s :=
  (reachable.invariant (P := Logged) (fun _ _ _ _ _ _ lineage h => submitted_logged lineage h)
    fun _ _ _ _ step logged => step_logged step logged).2

end Logged
end TaskRun
end Ledgence
