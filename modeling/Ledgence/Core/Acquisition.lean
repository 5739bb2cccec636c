import Ledgence.Core.Basics

/-! Closing one acquisition sequence: replay, an empty poll, or a new attempt. -/
open Kit Kit.Checked

namespace Ledgence

/-- Records loaded in one transaction. `previous` is the attempt the cursor names. -/
structure Acquisition where
  session : Option WorkerSession
  cursor : Option ConsumerCursor
  previous : Option (TaskSnapshot × AttemptSnapshot)
  candidate : Option TaskSnapshot
  ids : Option AttemptIds

structure AcquireTransition where
  cursor : ConsumerCursor
  changes : Option (Transition Unit)
  reply : AcquireReply

def assigned (task : TaskSnapshot) (attempt : AttemptSnapshot) (sequence now : Nat) :
    AcquireReply :=
  .assigned sequence
    { queueConcurrency := false
      taskAdmission := attempt.taskAdmission
      providerProbe := task.providerProbe
      workflowActivationId := task.workflowActivationId
      descriptor := attempt.descriptor
      event := attempt.event
      lease := attempt.lease
      authority := authority task attempt now
      attemptDeadline := attempt.deadline }

def invocationEvent (task : TaskSnapshot) (ids : AttemptIds) (number time : Nat) : CloudEvent where
  id := ids.eventId
  source := orchestratorSource
  eventType := invocationRequested
  subject := some ("tasks/" ++ task.taskId)
  time := some time
  tenantId := task.input.tenantId
  namespaceId := task.input.namespaceId
  runId := task.runId
  taskId := task.taskId
  attemptId := ids.attemptId
  attemptNo := number
  workflowId := task.workflowId
  activationId := task.workflowActivationId
  parentWorkflowId := task.parentWorkflowId
  rootWorkflowId := task.rootWorkflowId
  traceparent := ids.trace.map TraceContext.traceparent
  tracestate := ids.trace.bind TraceContext.tracestate
  data := task.input.data

def claimedAttempt (task : TaskSnapshot) (ids : AttemptIds) (event : CloudEvent)
    (number : Nat) (session : WorkerSession) (consumerId : Nat)
    (expiresAt deadline authorityDeadline : Nat) : AttemptSnapshot where
  budgetDenial := none
  taskAdmission := none
  event := event
  descriptor := task.descriptor
  lease :=
    { owner :=
        { scope := task.scope
          taskId := task.taskId
          attemptId := ids.attemptId
          leaseId := ids.leaseId
          generation := number
          workerSessionId := session.id
          consumerId := consumerId }
      expiresAt := expiresAt }
  deadline := deadline
  authorityDeadline := authorityDeadline
  state := .active
  executionMayHaveStarted := false
  lastRenewal := none
  quiescence := .unconfirmed
  settlement := none
  finishedAt := none

def claimedTask (task : TaskSnapshot) (ids : AttemptIds) (number : Nat) : TaskSnapshot :=
  { task with
    state := .active
    attemptCount := number
    currentAttemptId := some ids.attemptId }

def claim (task : TaskSnapshot) (ids : AttemptIds) (session : WorkerSession)
    (command : AcquireCommand) (now : Nat) : Result AcquireTransition := do
  refuse (task.state ≠ .queued ∨ task.cancelRequestedAt ≠ none ∨ now < task.availableAt) .busy
  lift task.input.validate
  lift task.descriptor.validate
  refuse (task.scope ≠ command.scope ∨ task.input.queue ≠ command.queue ∨
      task.descriptor.program ≠ task.input.program ∨ task.currentAttemptId ≠ none)
    (invalid "candidate task does not match acquisition")
  let number ← okOr (checkedAdd u32Max task.attemptCount 1) (invalid "attempt number overflow")
  refuse (maxTaskAttemptGeneration < number) (invalid "attempt generation exhausted")
  let charged ← task.chargedAttempts
  refuse (task.input.retryPolicy.maxAttempts ≤ charged) (invalid "retry budget exhausted")
  [ids.attemptId, ids.leaseId, ids.eventId].forM fun id => validateText id 128
  validateTrace ids.trace
  let deadline ← addTime now task.input.attemptTimeoutMs
  let authorityDeadline ← addTime deadline cleanupGraceMs
  let leaseEnd ← addTime now leaseDurationMs
  let expiresAt := min (min leaseEnd authorityDeadline) session.expiresAt
  validateWorkflowLineage task.workflowId task.parentWorkflowId task.rootWorkflowId
  let time ← timestamp now
  let event ← lift (CloudEvent.new (invocationEvent task ids number time))
  let attempt := claimedAttempt task ids event number session command.consumerId expiresAt
    deadline authorityDeadline
  let next := claimedTask task ids number
  return {
    cursor := ⟨command, some ⟨task.taskId, ids.attemptId⟩⟩
    changes := some ⟨next, some attempt, [history next (some attempt) now .claimed], ()⟩
    reply := assigned next attempt command.sequence now }

def closeSequence (context : Acquisition) (session : WorkerSession) (command : AcquireCommand)
    (now : Nat) : Result AcquireTransition :=
  match context.candidate with
  | none => .ok ⟨⟨command, none⟩, none, .empty command.sequence⟩
  | some task => do
    let ids ← okOr context.ids (invalid "new assignment IDs are required")
    claim task ids session command now

def previousAssignment (context : Acquisition) (cursor : ConsumerCursor) (session : WorkerSession)
    (command : AcquireCommand) : Result (Option (AttemptRef × TaskSnapshot × AttemptSnapshot)) :=
  match cursor.assignment with
  | none => .ok none
  | some reference => do
    let (task, attempt) ← okOr context.previous
      (invalid "previous assignment snapshot is required")
    validateAttempt task attempt
    refuse (reference.taskId ≠ task.taskId ∨
        reference.attemptId ≠ attempt.lease.owner.attemptId ∨
        attempt.lease.owner.workerSessionId ≠ session.id ∨
        attempt.lease.owner.consumerId ≠ command.consumerId)
      (invalid "previous assignment does not match cursor")
    return some (reference, task, attempt)

def replayReply (previous : Option (AttemptRef × TaskSnapshot × AttemptSnapshot))
    (sequence now : Nat) : AcquireReply :=
  match previous with
  | none => .empty sequence
  | some (reference, task, attempt) =>
    if live task attempt now then assigned task attempt sequence now
    else .ownershipLost sequence reference

def previousLive (previous : Option (AttemptRef × TaskSnapshot × AttemptSnapshot)) (now : Nat) :
    Bool :=
  previous.any fun p => decide (live p.2.1 p.2.2 now)

def acquire (context : Acquisition) (command : AcquireCommand) (now : Nat) :
    Result AcquireTransition := do
  let session ← okOr context.session .unknownSession
  checkSession session now
  refuse (command.scope ≠ session.scope ∨ command.queue ≠ session.queue ∨
      command.workerSessionId ≠ session.id ∨ session.concurrency ≤ command.consumerId)
    (invalid "acquisition does not match the registered consumer")
  refuse (command.sequence = 0) .outOfOrder
  match context.cursor with
  | some cursor => do
    let old := cursor.command
    refuse (old.scope ≠ command.scope ∨ old.queue ≠ command.queue ∨
        old.workerSessionId ≠ command.workerSessionId ∨ old.consumerId ≠ command.consumerId)
      .conflict
    refuse (command.sequence < old.sequence) .obsoleteOperation
    refuse (saturatingAdd u64Max old.sequence 1 < command.sequence) .outOfOrder
    let previous ← previousAssignment context cursor session command
    if command.sequence = old.sequence then
      return ⟨cursor, none, replayReply previous command.sequence now⟩
    else do
      refuse (previousLive previous now = true) .busy
      closeSequence context session command now
  | none => do
    refuse (command.sequence ≠ 1) .outOfOrder
    closeSequence context session command now

/- What an accepted acquisition did. -/

def newAttempt (task : TaskSnapshot) (ids : AttemptIds) (session : WorkerSession)
    (consumerId now : Nat) : AttemptSnapshot :=
  let deadline := now + task.input.attemptTimeoutMs
  claimedAttempt task ids (invocationEvent task ids (task.attemptCount + 1) now)
    (task.attemptCount + 1) session consumerId
    (min (min (now + leaseDurationMs) (deadline + cleanupGraceMs)) session.expiresAt) deadline
    (deadline + cleanupGraceMs)

def newTask (task : TaskSnapshot) (ids : AttemptIds) : TaskSnapshot :=
  claimedTask task ids (task.attemptCount + 1)

def claimTransition (task : TaskSnapshot) (ids : AttemptIds) (session : WorkerSession)
    (command : AcquireCommand) (now : Nat) : AcquireTransition where
  cursor := ⟨command, some ⟨task.taskId, ids.attemptId⟩⟩
  changes := some ⟨newTask task ids, some (newAttempt task ids session command.consumerId now),
    [history (newTask task ids) (some (newAttempt task ids session command.consumerId now)) now
      .claimed], ()⟩
  reply := assigned (newTask task ids) (newAttempt task ids session command.consumerId now)
    command.sequence now

structure Claimable (task : TaskSnapshot) (ids : AttemptIds) (command : AcquireCommand)
    (now : Nat) : Prop where
  queued : task.state = .queued
  fresh : task.cancelRequestedAt = none
  available : task.availableAt ≤ now
  input : task.input.validate = .ok ()
  descriptor : task.descriptor.validate = .ok ()
  scope : task.scope = command.scope
  queue : task.input.queue = command.queue
  program : task.descriptor.program = task.input.program
  unowned : task.currentAttemptId = none
  generation : task.attemptCount + 1 ≤ maxTaskAttemptGeneration
  budget : ∃ charged, task.chargedAttempts = .ok charged ∧
    charged < task.input.retryPolicy.maxAttempts
  attemptId : ValidText 128 ids.attemptId
  leaseId : ValidText 128 ids.leaseId
  eventId : ValidText 128 ids.eventId
  inRange : now + task.input.attemptTimeoutMs + cleanupGraceMs ≤ maxTimestamp
  lineage :
    validateWorkflowLineage task.workflowId task.parentWorkflowId task.rootWorkflowId = .ok ()
  event : CloudEvent.new (invocationEvent task ids (task.attemptCount + 1) now) =
    .ok (invocationEvent task ids (task.attemptCount + 1) now)

theorem CloudEvent.new_eq {event made : CloudEvent} (h : CloudEvent.new event = .ok made) :
    made = event := by
  simp only [CloudEvent.new, bind_eq_ok, pure_eq_ok, exists_unit] at h
  exact h.2.2.2.2.2.2.symm

theorem claim_eq_ok {task : TaskSnapshot} {ids : AttemptIds} {session : WorkerSession}
    {command : AcquireCommand} {now : Nat} {t : AcquireTransition}
    (h : claim task ids session command now = .ok t) :
    Claimable task ids command now ∧ t = claimTransition task ids session command now := by
  simp only [claim, bind_eq_ok, refuse_eq_ok, exists_unit, lift_eq_ok, okOr_eq_ok,
    checkedAdd_eq_some, addTime_eq_ok, timestamp_eq_ok, pure_eq_ok, not_or, not_not, not_lt,
    not_le, List.forM_eq_forM, forM_eq_ok, List.forall_mem_cons, validateText_eq_ok] at h
  obtain ⟨⟨queued, fresh, available⟩, input, descriptor, ⟨scope, queue, program, unowned⟩, _,
    ⟨_, rfl⟩, generation, charged, hcharged, budget, ⟨attemptId, leaseId, eventId, -⟩, _, _,
    ⟨_, rfl⟩, _, ⟨inRange, rfl⟩, _, ⟨_, rfl⟩, lineage, _, ⟨_, rfl⟩, event, made, rfl⟩ := h
  obtain rfl := CloudEvent.new_eq made
  exact ⟨⟨queued, fresh, available, input, descriptor, scope, queue, program, unowned, generation,
    ⟨charged, hcharged, budget⟩, attemptId, leaseId, eventId, inRange, lineage, made⟩, rfl⟩

/-- The records loaded for a cursor are those of the attempt it names. -/
theorem previousAssignment_eq_ok {context : Acquisition} {cursor : ConsumerCursor}
    {session : WorkerSession} {command : AcquireCommand}
    {previous : Option (AttemptRef × TaskSnapshot × AttemptSnapshot)}
    (h : previousAssignment context cursor session command = .ok previous) :
    (cursor.assignment = none ∧ previous = none) ∨
      ∃ reference task attempt, cursor.assignment = some reference ∧
        previous = some (reference, task, attempt) ∧ context.previous = some (task, attempt) ∧
        reference = ⟨attempt.lease.owner.taskId, attempt.lease.owner.attemptId⟩ := by
  unfold previousAssignment at h
  split at h
  · rename_i unassigned
    exact .inl ⟨unassigned, by simpa using h.symm⟩
  · rename_i reference assigned
    simp only [bind_eq_ok, okOr_eq_ok, Prod.exists, exists_unit, refuse_eq_ok, not_or, not_not,
      pure_eq_ok, validateAttempt] at h
    obtain ⟨task, attempt, loaded, ⟨-, belongs⟩, ⟨taskId, attemptId, -, -⟩, rfl⟩ := h
    refine .inr ⟨reference, task, attempt, assigned, rfl, loaded, ?_⟩
    obtain ⟨task', attempt'⟩ := reference
    simp only [AttemptRef.mk.injEq]
    exact ⟨taskId.trans belongs.2.1.symm, attemptId⟩

/-- The sequence is the first of its consumer, or the one after the saved cursor's, whose
attempt no longer holds a live lease. -/
def FreshSequence (context : Acquisition) (session : WorkerSession) (command : AcquireCommand)
    (now : Nat) : Prop :=
  (context.cursor = none ∧ command.sequence = 1) ∨
    ∃ cursor previous, context.cursor = some cursor ∧
      command.sequence = cursor.command.sequence + 1 ∧
      previousAssignment context cursor session command = .ok previous ∧
      previousLive previous now = false

inductive Acquired (context : Acquisition) (command : AcquireCommand) (session : WorkerSession)
    (now : Nat) : AcquireTransition → Prop where
  | replayed (cursor : ConsumerCursor)
      (previous : Option (AttemptRef × TaskSnapshot × AttemptSnapshot))
      (saved : context.cursor = some cursor) (same : command.sequence = cursor.command.sequence)
      (loaded : previousAssignment context cursor session command = .ok previous) :
      Acquired context command session now
        ⟨cursor, none, replayReply previous command.sequence now⟩
  | emptied (fresh : FreshSequence context session command now)
      (idle : context.candidate = none) :
      Acquired context command session now ⟨⟨command, none⟩, none, .empty command.sequence⟩
  | claimed (task : TaskSnapshot) (ids : AttemptIds)
      (fresh : FreshSequence context session command now)
      (offered : context.candidate = some task) (given : context.ids = some ids)
      (claimable : Claimable task ids command now) :
      Acquired context command session now (claimTransition task ids session command now)

structure Registered (session : WorkerSession) (command : AcquireCommand) (now : Nat) : Prop where
  sessionOpen : now < session.expiresAt
  scope : command.scope = session.scope
  queue : command.queue = session.queue
  ofSession : command.workerSessionId = session.id
  consumer : command.consumerId < session.concurrency
  positive : command.sequence ≠ 0

theorem closeSequence_acquired {context : Acquisition} {session : WorkerSession}
    {command : AcquireCommand} {now : Nat} {t : AcquireTransition}
    (fresh : FreshSequence context session command now)
    (h : closeSequence context session command now = .ok t) :
    Acquired context command session now t := by
  unfold closeSequence at h
  split at h
  · rename_i idle
    obtain rfl := by simpa using h
    exact .emptied fresh idle
  · rename_i task offered
    simp only [bind_eq_ok, okOr_eq_ok] at h
    obtain ⟨ids, given, h⟩ := h
    obtain ⟨claimable, rfl⟩ := claim_eq_ok h
    exact .claimed task ids fresh offered given claimable

theorem checkSession_eq_ok {session : WorkerSession} {now : Nat} {u : Unit}
    (h : checkSession session now = .ok u) : now < session.expiresAt := by
  simp only [checkSession, bind_eq_ok, refuse_eq_ok, exists_unit] at h
  omega

theorem acquire_acquired {context : Acquisition} {command : AcquireCommand} {now : Nat}
    {t : AcquireTransition} (h : acquire context command now = .ok t) :
    ∃ session, context.session = some session ∧ Registered session command now ∧
      Acquired context command session now t := by
  simp only [acquire, bind_eq_ok, okOr_eq_ok, refuse_eq_ok, exists_unit, not_or, not_not,
    not_le] at h
  obtain ⟨session, hsession, inSession, ⟨scope, queue, ofSession, consumer⟩, positive, h⟩ := h
  refine ⟨session, hsession,
    ⟨checkSession_eq_ok inSession, scope, queue, ofSession, consumer, positive⟩, ?_⟩
  split at h
  · rename_i cursor saved
    simp only [bind_eq_ok, refuse_eq_ok, exists_unit, not_or, not_not, not_lt] at h
    obtain ⟨_, notOlder, notAhead, previous, loaded, h⟩ := h
    split at h
    · rename_i same
      obtain rfl := by simpa using h
      exact .replayed cursor previous saved same loaded
    · rename_i newer
      simp only [bind_eq_ok, refuse_eq_ok, exists_unit, Bool.not_eq_true] at h
      have next : command.sequence = cursor.command.sequence + 1 := by
        simp only [saturatingAdd] at notAhead
        omega
      exact closeSequence_acquired (.inr ⟨cursor, previous, saved, next, loaded, h.1⟩) h.2
  · rename_i unsaved
    simp only [bind_eq_ok, refuse_eq_ok, exists_unit, not_not] at h
    exact closeSequence_acquired (.inl ⟨unsaved, h.1⟩) h.2

end Ledgence
