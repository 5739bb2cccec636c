import Ledgence.Runs.Store

/-! Acquisition sequences of one consumer: each is bound once, in turn, and only the attempt that
the consumer's cursor names can be live. -/
open Kit Kit.Checked

namespace Ledgence

def AcquireReply.outcome : AcquireReply → Nat × Option AttemptRef
  | .empty sequence => (sequence, none)
  | .assigned sequence assignment =>
    (sequence, some ⟨assignment.lease.owner.taskId, assignment.lease.owner.attemptId⟩)
  | .ownershipLost sequence assignment => (sequence, some assignment)

def ConsumerCursor.outcome (cursor : ConsumerCursor) : Nat × Option AttemptRef :=
  (cursor.command.sequence, cursor.assignment)

def lastSequence (cursor : Option ConsumerCursor) : Nat :=
  (cursor.map fun c => c.command.sequence).getD 0

section Outcomes
variable {context : Acquisition} {command : AcquireCommand} {session : WorkerSession} {now : Nat}
  {t : AcquireTransition} {cursor : ConsumerCursor}
  {previous : Option (AttemptRef × TaskSnapshot × AttemptSnapshot)}

theorem replayReply_outcome
    (loaded : previousAssignment context cursor session command = .ok previous) (sequence : Nat) :
    (replayReply previous sequence now).outcome = (sequence, cursor.assignment) := by
  obtain ⟨unassigned, rfl⟩ | ⟨reference, task, attempt, assigned, rfl, -, rfl⟩ :=
    previousAssignment_eq_ok loaded
  · rw [unassigned]
    rfl
  · rw [assigned, replayReply]
    split
    · rfl
    · rfl

theorem Acquired.outcome (h : Acquired context command session now t) :
    t.reply.outcome = t.cursor.outcome := by
  cases h with
  | replayed cursor previous saved same loaded =>
    rw [replayReply_outcome loaded, same, ConsumerCursor.outcome]
  | emptied | claimed => rfl

theorem Acquired.turn (h : Acquired context command session now t) :
    context.cursor = some t.cursor ∧ t.cursor.command.sequence = command.sequence ∨
      t.cursor.command = command ∧ FreshSequence context session command now := by
  cases h with
  | replayed cursor previous saved same loaded => exact .inl ⟨saved, same.symm⟩
  | emptied fresh idle => exact .inr ⟨rfl, fresh⟩
  | claimed task ids fresh offered given claimable => exact .inr ⟨rfl, fresh⟩

theorem FreshSequence.next (fresh : FreshSequence context session command now) :
    command.sequence = lastSequence context.cursor + 1 := by
  obtain ⟨unsaved, first⟩ | ⟨cursor, previous, saved, next, -⟩ := fresh
  · rw [unsaved, first]
    rfl
  · rw [saved, next]
    rfl

end Outcomes

structure InTurn (cursor : Option ConsumerCursor) (served : List (Nat × Option AttemptRef)) :
    Prop where
  begun : ∀ c, cursor = some c → 1 ≤ c.command.sequence
  positive : ∀ x ∈ served, 1 ≤ x.1
  latest : ∀ x ∈ served, x.1 ≤ lastSequence cursor
  saved : ∀ x ∈ served, x.1 = lastSequence cursor → cursor.map ConsumerCursor.outcome = some x
  complete : ∀ k, 1 ≤ k → k ≤ lastSequence cursor → ∃ x ∈ served, x.1 = k
  once : ∀ x ∈ served, ∀ y ∈ served, x.1 = y.1 → x.2 = y.2
  ordered : (served.map Prod.fst).Pairwise (· ≤ ·)

section InTurn
variable {cursor : Option ConsumerCursor} {served : List (Nat × Option AttemptRef)}
  {c : ConsumerCursor}

theorem InTurn.none : InTurn none [] :=
  ⟨by simp, by simp, by simp, by simp, fun k one none' => by simp [lastSequence] at none'; omega,
    by simp, by simp⟩

/-- One more reply, which says what the new cursor says and is a replay or the next in turn. -/
theorem InTurn.serve (turn : InTurn cursor served)
    (next : cursor = some c ∨ c.command.sequence = lastSequence cursor + 1) :
    InTurn (some c) (served ++ [c.outcome]) := by
  have positive : 1 ≤ c.command.sequence := by
    obtain found | next := next
    · exact turn.begun c found
    · omega
  have last : lastSequence (some c) = c.command.sequence := rfl
  have grown : lastSequence cursor ≤ c.command.sequence := by
    obtain rfl | next := next
    · exact le_rfl
    · omega
  -- What was served before under the new cursor's number was served under that very cursor.
  have agree : ∀ x ∈ served, x.1 = c.command.sequence → x.2 = c.assignment := by
    intro x hx same
    obtain rfl | next := next
    · have found := turn.saved x hx same
      exact (congrArg Prod.snd (Option.some.inj found)).symm
    · have := turn.latest x hx
      omega
  constructor
  case begun =>
    intro d found
    obtain rfl := Option.some.inj found
    exact positive
  case positive =>
    intro x hx
    obtain hx | hx := List.mem_append.mp hx
    · exact turn.positive x hx
    · rw [List.mem_singleton.mp hx]
      exact positive
  case latest =>
    intro x hx
    rw [last]
    obtain hx | hx := List.mem_append.mp hx
    · exact (turn.latest x hx).trans grown
    · rw [List.mem_singleton.mp hx]
      exact le_rfl
  case saved =>
    intro x hx same
    obtain hx | hx := List.mem_append.mp hx
    · have := agree x hx same
      rw [Option.map_some, ConsumerCursor.outcome, ← this, ← last, ← same]
    · rw [List.mem_singleton.mp hx]
      rfl
  case complete =>
    intro k one upto
    by_cases h : k ≤ lastSequence cursor
    · obtain ⟨x, hx, same⟩ := turn.complete k one h
      exact ⟨x, List.mem_append_left _ hx, same⟩
    · refine ⟨c.outcome, by simp, ?_⟩
      rw [last] at upto
      obtain rfl | next := next
      · exact absurd upto h
      · simp only [ConsumerCursor.outcome]
        omega
  case once =>
    intro x hx y hy same
    obtain hx | hx := List.mem_append.mp hx
    · obtain hy | hy := List.mem_append.mp hy
      · exact turn.once x hx y hy same
      · rw [List.mem_singleton.mp hy] at same ⊢
        exact agree x hx same
    · rw [List.mem_singleton.mp hx] at same ⊢
      obtain hy | hy := List.mem_append.mp hy
      · exact (agree y hy same.symm).symm
      · rw [List.mem_singleton.mp hy]
  case ordered =>
    rw [List.map_append, List.pairwise_append]
    refine ⟨turn.ordered, by simp, ?_⟩
    intro m hm n hn
    obtain ⟨x, hx, rfl⟩ := List.mem_map.mp hm
    obtain rfl : n = c.command.sequence := by simpa [ConsumerCursor.outcome] using hn
    exact (turn.latest x hx).trans grown

end InTurn
/- The live attempts of a consumer. -/

section Live
variable {task task' : TaskSnapshot} {attempt attempt' : AttemptSnapshot} {now later : Nat}
  {events : List HistoryEvent}

theorem live.earlier (h : live task attempt later) (before : now ≤ later) : live task attempt now :=
  ⟨h.1, h.2.1, h.2.2.1, before.trans_lt h.2.2.2.1, before.trans_lt h.2.2.2.2⟩

/-- No move revives an attempt: what is live after it was live when it was made. -/
theorem Move.live_before (h : Move task attempt now task' attempt' events)
    (isLive : live task' attempt' later) (before : now ≤ later) : live task attempt now := by
  obtain ⟨-, -, -, expiry, deadline⟩ := isLive.earlier before
  obtain ⟨phase, current, state⟩ | ⟨-, ended, -⟩ := h.phase
  · have running : Running task attempt := by
      refine ⟨phase.mp isLive.1, state ▸ isLive.2.1, ?_⟩
      rw [← current, isLive.2.2.1, h.same_attempt.owner]
    cases h with
    | same | withdrawn | denialConfirmed =>
      exact ⟨running.taskActive, running.attemptActive, running.current, expiry, deadline⟩
    | renewed session command sessionOpen wasLive => exact wasLive
    | reported command acceptable wasLive => exact wasLive
    | started wasLive => exact wasLive
    | denied reason wasLive => exact wasLive
    | cancelRequested running fresh within =>
      exact ⟨running.taskActive, running.attemptActive, running.current, within⟩
    | closed running closing retry scheduled => exact absurd isLive.1 finishOutcome_ne_active
    | deferralCancelled => exact absurd isLive.2.1 (by simp [closedPreparation])
    | deferred => exact absurd isLive.2.1 (by simp [closedPreparation])
  · exact absurd isLive.1 ended

theorem Move.other_live (h : Move task attempt now task' attempt' events)
    {other : AttemptSnapshot} (isLive : live task' other later) : live task other later := by
  obtain ⟨phase, current, -⟩ | ⟨-, ended, -⟩ := h.phase
  · exact ⟨phase.mp isLive.1, isLive.2.1, current ▸ isLive.2.2.1, isLive.2.2.2⟩
  · exact absurd isLive.1 ended

end Live

namespace Store
variable {s t : Store} {now : Nat} {answer : Answer}

/-- An operation without an acquisition keeps all cursors. One with an acquisition saves the
cursor of its consumer, which says what the reply says. -/
theorem Step.turn (step : s.Step now t answer) :
    (answer.reply = none ∧ t.cursors = s.cursors) ∨
      ∃ (c : ConsumerCursor) (reply : AcquireReply), answer.reply = some (c.consumer, reply) ∧
        t.cursors = (s.saveCursor c).cursors ∧ reply.outcome = c.outcome ∧
        (s.cursor c.consumer = some c ∨
          c.command.sequence = lastSequence (s.cursor c.consumer) + 1) := by
  cases step with
  | rested | opened | extended | submitted | withdrawn | moved => exact .inl ⟨rfl, rfl⟩
  | replied command candidate ids session a acquired kept =>
    refine .inr ⟨a.cursor, a.reply, ?_, rfl, acquired.outcome, ?_⟩
    · obtain ⟨saved, -⟩ | ⟨same, -⟩ := acquired.turn
      · rw [Table.find_key (show s.cursor command.consumer = some a.cursor from saved)]
      · rw [ConsumerCursor.consumer, same]
    · obtain ⟨saved, -⟩ | ⟨same, fresh⟩ := acquired.turn
      · have named := Table.find_key (show s.cursor command.consumer = some a.cursor from saved)
        exact .inl (by rw [named]; exact saved)
      · exact .inr (by rw [ConsumerCursor.consumer, same]; exact fresh.next)
  | claimed command r ids session known registered mem fresh claimable unused =>
    exact .inr ⟨⟨command, some ⟨r.id, ids.attemptId⟩⟩, _, rfl, rfl, rfl, .inr fresh.next⟩

theorem Healthy.loadAttempt (healthy : s.Healthy) {r : TaskRun} (mem : r ∈ s.tasks)
    {a : AttemptSnapshot} (attemptMem : a ∈ r.attempts) :
    s.loadAttempt ⟨r.id, a.id⟩ = some (r.task, a) := by
  have found : s.task r.id = some r := Table.find_of_mem healthy.unique mem
  have named := Table.find_of_mem (healthy.reachable r mem).sound.unique attemptMem
  simp [Store.loadAttempt, found, named]

/-- Only the attempt that a consumer's cursor names is live, from `clock` on. -/
def OnlyCursor (s : Store) (clock : Nat) : Prop :=
  ∀ later, clock ≤ later → ∀ r ∈ s.tasks, ∀ a ∈ r.attempts, live r.task a later →
    ∃ c, s.cursor a.consumer = some c ∧ c.assignment = some ⟨r.id, a.id⟩

/-- When a consumer is due a fresh sequence, none of its attempts is live any more. -/
theorem OnlyCursor.fresh {clock : Nat} (only : s.OnlyCursor clock) (healthy : s.Healthy)
    (reached : clock ≤ now) {command : AcquireCommand} {candidate : Option TaskRun}
    {ids : AttemptIds} {session : WorkerSession}
    (fresh : FreshSequence (s.context command candidate ids) session command now)
    {r : TaskRun} (mem : r ∈ s.tasks) {a : AttemptSnapshot} (attemptMem : a ∈ r.attempts)
    (same : a.consumer = command.consumer) {later : Nat} (after : now ≤ later) :
    ¬ live r.task a later := by
  intro isLive
  obtain ⟨c, saved, names⟩ := only later (reached.trans after) r mem a attemptMem isLive
  rw [same] at saved
  obtain ⟨unsaved, -⟩ | ⟨cursor, previous, found, -, loaded, ended⟩ := fresh
  · exact absurd (unsaved.symm.trans saved) (by simp)
  obtain rfl : c = cursor := Option.some.inj (saved.symm.trans found)
  obtain ⟨unassigned, -⟩ | ⟨reference, task, attempt, assigned, rfl, records, -⟩ :=
    previousAssignment_eq_ok loaded
  · simp [names] at unassigned
  obtain rfl := Option.some.inj (names.symm.trans assigned)
  have stored : s.previous command.consumer = some (r.task, a) := by
    rw [Store.previous, saved, Option.bind_eq_bind, Option.bind_some, names,
      Option.bind_eq_bind, Option.bind_some, healthy.loadAttempt mem attemptMem]
  obtain ⟨rfl, rfl⟩ : r.task = task ∧ a = attempt := by
    have := stored.symm.trans records
    simpa using this
  simp only [previousLive, Option.any_some, decide_eq_false_iff_not] at ended
  exact ended (isLive.earlier after)

/-- A cursor that is saved over itself, or when its consumer has no live attempt, stays right. -/
theorem OnlyCursor.saveCursor {clock : Nat} (only : s.OnlyCursor clock) {c : ConsumerCursor}
    (fits : s.cursor c.consumer = some c ∨
      ∀ later, clock ≤ later → ∀ r ∈ s.tasks, ∀ a ∈ r.attempts, a.consumer = c.consumer →
        ¬ live r.task a later) : (s.saveCursor c).OnlyCursor clock := by
  intro later after r mem a attemptMem isLive
  obtain ⟨d, saved, names⟩ := only later after r mem a attemptMem isLive
  by_cases h : c.consumer = a.consumer
  · obtain found | none' := fits
    · rw [h, saved] at found
      obtain rfl := Option.some.inj found
      exact ⟨d, h ▸ cursor_saveCursor s d, names⟩
    · exact absurd isLive (none' later after r mem a attemptMem h.symm)
  · exact ⟨d, (cursor_saveCursor_other h).trans saved, names⟩

/-- A task replaced by one in which no attempt is newly live keeps the cursors right. -/
theorem OnlyCursor.saveTask {clock : Nat} (only : s.OnlyCursor clock) {next : TaskRun}
    (named : ∀ later, clock ≤ later → ∀ a ∈ next.attempts, live next.task a later →
      ∃ c, s.cursor a.consumer = some c ∧ c.assignment = some ⟨next.id, a.id⟩) :
    (s.saveTask next).OnlyCursor clock := by
  intro later after q hq a attemptMem isLive
  obtain rfl | ⟨hq, -⟩ := Table.mem_put hq
  · exact named later after a attemptMem isLive
  · exact only later after q hq a attemptMem isLive

theorem OnlyCursor.later {clock : Nat} (only : s.OnlyCursor clock) (reached : clock ≤ now) :
    s.OnlyCursor now :=
  fun later after => only later (reached.trans after)

theorem OnlyCursor.moved {clock : Nat} (only : s.OnlyCursor clock) (reached : clock ≤ now)
    {r : TaskRun} (mem : r ∈ s.tasks) {attempt attempt' : AttemptSnapshot}
    (attemptMem : attempt ∈ r.attempts) {task' : TaskSnapshot} {events : List HistoryEvent}
    (move : Move r.task attempt now task' attempt' events) (log : List HistoryEvent) :
    (s.saveTask ⟨task', Table.put AttemptSnapshot.id attempt' r.attempts, log⟩).OnlyCursor now := by
  have sameId : (⟨task', Table.put AttemptSnapshot.id attempt' r.attempts, log⟩ : TaskRun).id =
      r.id := move.same_task.1.taskId
  refine (only.later reached).saveTask fun later after a hput isLive => ?_
  rw [sameId]
  obtain rfl | ⟨ha, -⟩ := Table.mem_put hput
  · have was := move.live_before isLive after
    have owner := move.same_attempt.owner
    have kept := only now reached r mem attempt attemptMem was
    rwa [AttemptSnapshot.consumer, AttemptSnapshot.id, owner]
  · exact only later (reached.trans after) r mem a ha (move.other_live isLive)

theorem OnlyCursor.claimed {clock : Nat} (only : s.OnlyCursor clock) (reached : clock ≤ now)
    (healthy : s.Healthy) {command : AcquireCommand} {r : TaskRun} {ids : AttemptIds}
    {session : WorkerSession} (registered : Registered session command now)
    (fresh : FreshSequence (s.context command (some r) ids) session command now)
    (unused : ids.attemptId ∉ r.attempts.map AttemptSnapshot.id) :
    ((s.saveCursor ⟨command, some ⟨r.id, ids.attemptId⟩⟩).saveTask
      (claimedRun r ids session command.consumerId now)).OnlyCursor now := by
  have cursors : (s.saveCursor ⟨command, some ⟨r.id, ids.attemptId⟩⟩).OnlyCursor now := by
    refine (only.later reached).saveCursor (.inr ?_)
    intro later after q hq a ha same
    exact only.fresh healthy reached fresh hq ha same after
  refine cursors.saveTask fun later after a ha isLive => ?_
  obtain ha | ha := List.mem_append.mp ha
  · have other : a.id = ids.attemptId := (Option.some.inj isLive.2.2.1).symm
    exact absurd (other ▸ List.mem_map_of_mem ha) unused
  · obtain rfl := List.mem_singleton.mp ha
    refine ⟨⟨command, some ⟨r.id, ids.attemptId⟩⟩, ?_, rfl⟩
    have owner : (newAttempt r.task ids session command.consumerId now).consumer =
        command.consumer := by
      rw [AcquireCommand.consumer, registered.ofSession]
      rfl
    rw [owner]
    exact cursor_saveCursor s ⟨command, some ⟨r.id, ids.attemptId⟩⟩

theorem Step.onlyCursor (step : s.Step now t answer) (healthy : s.Healthy) {clock : Nat}
    (reached : clock ≤ now) (only : s.OnlyCursor clock) : t.OnlyCursor now := by
  cases step with
  | rested => exact only.later reached
  | opened session unused expiry => exact only.later reached
  | extended session known => exact only.later reached
  | submitted r unused reachable unclaimed =>
    intro later after q hq a ha isLive
    obtain hq | hq := List.mem_append.mp hq
    · exact only later (reached.trans after) q hq a ha isLive
    · rw [List.mem_singleton.mp hq, unclaimed] at ha
      simp at ha
  | replied command candidate ids session a acquired kept =>
    refine (only.later reached).saveCursor ?_
    obtain ⟨saved, -⟩ | ⟨same, fresh⟩ := acquired.turn
    · have named := Table.find_key (show s.cursor command.consumer = some a.cursor from saved)
      exact .inl (by rw [named]; exact saved)
    · refine .inr fun later after r mem b hb sameConsumer => ?_
      rw [ConsumerCursor.consumer, same] at sameConsumer
      exact only.fresh healthy reached fresh mem hb sameConsumer after
  | claimed command r ids session known registered mem fresh claimable unused =>
    exact only.claimed reached healthy registered fresh unused
  | withdrawn r mem queued unowned log =>
    refine (only.later reached).saveTask fun later after a ha isLive => ?_
    simp [live, cancelledTask] at isLive
  | moved r attempt attempt' mem attemptMem task' events move sample sampled =>
    exact only.moved reached mem attemptMem (move.mono fun _ _ => trivial) _

end Store

namespace Trace
variable {s : Trace} {calls : List StoreCall}

def served (s : Trace) (consumer : ConsumerKey) : List (Nat × Option AttemptRef) :=
  (s.replies.filter fun x => x.1 = consumer).map fun x => x.2.outcome

def Sequenced (s : Trace) : Prop :=
  ∀ consumer, InTurn (s.store.cursor consumer) (s.served consumer)

theorem served_advance {now : Nat} {store : Store} {answer : Answer} {consumer : ConsumerKey} :
    (s.advance now store answer).served consumer = s.served consumer ++
      (answer.reply.toList.filter fun x => x.1 = consumer).map fun x => x.2.outcome := by
  simp [served, advance]

theorem Sequenced.advance (sequenced : s.Sequenced) {now : Nat} {store : Store} {answer : Answer}
    (step : s.store.Step now store answer) : (s.advance now store answer).Sequenced := by
  intro consumer
  have turn := sequenced consumer
  rw [served_advance]
  obtain ⟨silent, kept⟩ | ⟨c, reply, said, saved, tells, next⟩ := step.turn
  · have same : store.cursor consumer = s.store.cursor consumer := by rw [Store.cursor, kept]; rfl
    rw [silent]
    simpa [Trace.advance, same] using turn
  · by_cases h : c.consumer = consumer
    · subst h
      have now' : store.cursor c.consumer = some c := by
        rw [Store.cursor, saved]
        exact Store.cursor_saveCursor _ c
      have extended := turn.serve next
      simpa [said, tells, Trace.advance, now'] using extended
    · have same : store.cursor consumer = s.store.cursor consumer := by
        rw [Store.cursor, saved]
        exact Store.cursor_saveCursor_other h
      rw [said]
      simpa [Trace.advance, same, h] using turn

theorem run_sequenced (ran : run calls = .ok s) : s.Sequenced := by
  refine (run_invariant ?_ ?_ ran).2
  · intro consumer
    exact InTurn.none
  · intro s now store answer healthy healthy' step sequenced
    exact sequenced.advance step

theorem run_onlyCursor (inOrder : InOrder calls) (ran : run calls = .ok s) :
    s.store.OnlyCursor s.clock := by
  refine (ordered_invariant (P := fun s => s.store.OnlyCursor s.clock) ?_ ?_ inOrder ran).2
  · intro later _ r mem
    simp [empty] at mem
  · intro s now store answer healthy healthy' later step only
    exact step.onlyCursor healthy later only

end Trace

/-- No consumer has two attempts that are live at `now`. -/
def Store.SingleLive (s : Store) (now : Nat) : Prop :=
  ∀ r ∈ s.tasks, ∀ a ∈ r.attempts, ∀ q ∈ s.tasks, ∀ b ∈ q.attempts,
    a.consumer = b.consumer → live r.task a now → live q.task b now →
      r.id = q.id ∧ a.id = b.id

instance (s : Store) (now : Nat) : Decidable (s.SingleLive now) :=
  inferInstanceAs (Decidable (∀ r ∈ s.tasks, _))

namespace Trace
variable {s : Trace} {calls : List StoreCall}

theorem run_singleLive (inOrder : InOrder calls) (ran : run calls = .ok s) {now : Nat}
    (reached : s.clock ≤ now) : s.store.SingleLive now := by
  have only := run_onlyCursor inOrder ran
  intro r mem a ha q hq b hb same liveA liveB
  obtain ⟨c, savedA, namesA⟩ := only now reached r mem a ha liveA
  obtain ⟨d, savedB, namesB⟩ := only now reached q hq b hb liveB
  rw [same, savedB] at savedA
  obtain rfl := Option.some.inj savedA
  have names := Option.some.inj (namesA.symm.trans namesB)
  simpa using names

/-- Every reply to a sequence names one outcome, sequences are closed in turn and without gaps,
and while the clock does not go back no consumer has two live attempts. -/
theorem sequences_closed_once (ran : run calls = .ok s) (consumer : ConsumerKey) :
    (∀ x ∈ s.served consumer, ∀ y ∈ s.served consumer, x.1 = y.1 → x.2 = y.2) ∧
      ((s.served consumer).map Prod.fst).Pairwise (· ≤ ·) ∧
      (∀ k, k ∈ (s.served consumer).map Prod.fst ↔
        1 ≤ k ∧ k ≤ lastSequence (s.store.cursor consumer)) ∧
      (InOrder calls → ∀ now, s.clock ≤ now → s.store.SingleLive now) := by
  have turn := run_sequenced ran consumer
  refine ⟨turn.once, turn.ordered, fun k => ⟨fun mem => ?_, fun within => ?_⟩,
    fun inOrder now reached => run_singleLive inOrder ran reached⟩
  · obtain ⟨x, hx, rfl⟩ := List.mem_map.mp mem
    exact ⟨turn.positive x hx, turn.latest x hx⟩
  · obtain ⟨x, hx, rfl⟩ := turn.complete k within.1 within.2
    exact List.mem_map_of_mem hx

def sampleSubmitted (taskId : String) : StoreCall :=
  ⟨.submit ⟨"key-" ++ taskId, sampleInput none, none⟩ sampleDescriptor taskId "run-1" .none, 1000⟩

def samplePoll (sequence : Nat) (candidate : Option String) (n : String) (now : Nat) : StoreCall :=
  ⟨.acquire ⟨sampleScope, "python", "session-1", 0, sequence⟩ candidate (sampleIds n), now⟩

def samplePolls : List StoreCall :=
  [⟨.openSession "session-1" sampleScope "python" 4, 1000⟩, sampleSubmitted "task-1",
    sampleSubmitted "task-2", samplePoll 1 (some "task-1") "1" 2000,
    samplePoll 2 (some "task-2") "2" 70000]

def consumerKey : ConsumerKey := ⟨"session-1", 0⟩

/-- The second sequence is sent twice, and answered alike. -/
theorem second_poll_sent_twice : ∃ s, run (samplePolls ++ [samplePoll 2 none "3" 71000]) = .ok s ∧
    (s.served consumerKey).length = 3 ∧
    (∀ x ∈ s.served consumerKey, ∀ y ∈ s.served consumerKey, x.1 = y.1 → x.2 = y.2) ∧
    s.store.SingleLive 72000 := by
  have ends : ((run (samplePolls ++ [samplePoll 2 none "3" 71000])).map fun s =>
      ((s.served consumerKey).length, s.clock)) = .ok (3, 71000) := by
    decide +kernel
  obtain ⟨s, ran, told⟩ := map_eq_ok.mp ends
  simp only [Prod.mk.injEq] at told
  obtain ⟨once, -, -, single⟩ := sequences_closed_once ran consumerKey
  exact ⟨s, ran, told.1, once, single (by decide) 72000 (by rw [told.2]; decide)⟩

/-- With a clock that falls back, the first attempt is live again next to the second. -/
theorem two_live_after_clock_rollback :
    ¬ ∀ calls s, run calls = .ok s → s.store.SingleLive s.clock := by
  intro single
  have ends : ((run (samplePolls ++ [⟨.extendSession "session-1", 50000⟩])).map fun s =>
      decide (s.store.SingleLive s.clock)) = .ok false := by
    decide +kernel
  obtain ⟨s, ran, told⟩ := map_eq_ok.mp ends
  exact absurd (single _ s ran) (by simpa using told)

end Trace
end Ledgence
