import Ledgence.Runs.TaskRun

/-! All tasks, sessions and consumer cursors of one store. Every operation loads the records it
decides on from the store and saves what it decides. -/
open Kit Kit.Checked

namespace Ledgence

def TaskRun.id (r : TaskRun) : String := r.task.taskId

structure ConsumerKey where
  workerSessionId : String
  consumerId : Nat
  deriving DecidableEq

def AcquireCommand.consumer (command : AcquireCommand) : ConsumerKey :=
  ⟨command.workerSessionId, command.consumerId⟩

def ConsumerCursor.consumer (cursor : ConsumerCursor) : ConsumerKey :=
  cursor.command.consumer

def AttemptSnapshot.consumer (attempt : AttemptSnapshot) : ConsumerKey :=
  ⟨attempt.lease.owner.workerSessionId, attempt.lease.owner.consumerId⟩

structure Store where
  sessions : List WorkerSession
  cursors : List ConsumerCursor
  tasks : List TaskRun

inductive StoreOp where
  | openSession (id : String) (scope : Scope) (queue : String) (concurrency : Nat)
  | extendSession (id : String)
  | submit (command : SubmitCommand) (descriptor : ProgramDescriptor) (taskId runId : String)
      (lineage : Lineage)
  /-- `candidate` is the queued task that the store selected, if any. -/
  | acquire (command : AcquireCommand) (candidate : Option String) (ids : AttemptIds)
  | cancelUnassigned (taskId : String)
  | onAttempt (taskId attemptId : String) (op : AttemptOp)

structure Answer where
  reply : Option (ConsumerKey × AcquireReply)
  sample : Option Authority

def Answer.none : Answer := ⟨.none, .none⟩

def AcquireReply.sample : AcquireReply → Option Authority
  | .assigned _ assignment => some assignment.authority
  | .empty _ | .ownershipLost _ _ => none

namespace Store

def session (s : Store) (id : String) : Option WorkerSession :=
  Table.find WorkerSession.id id s.sessions

def cursor (s : Store) (consumer : ConsumerKey) : Option ConsumerCursor :=
  Table.find ConsumerCursor.consumer consumer s.cursors

def task (s : Store) (id : String) : Option TaskRun :=
  Table.find TaskRun.id id s.tasks

def loadAttempt (s : Store) (reference : AttemptRef) : Option (TaskSnapshot × AttemptSnapshot) := do
  let r ← s.task reference.taskId
  let attempt ← Table.find AttemptSnapshot.id reference.attemptId r.attempts
  return (r.task, attempt)

def previous (s : Store) (consumer : ConsumerKey) : Option (TaskSnapshot × AttemptSnapshot) := do
  let cursor ← s.cursor consumer
  let reference ← cursor.assignment
  s.loadAttempt reference

def load (s : Store) : AttemptOp → AttemptOp
  | .renew _ command => .renew (s.session command.owner.workerSessionId) command
  | op => op

def saveSession (s : Store) (session : WorkerSession) : Store :=
  { s with sessions := Table.put WorkerSession.id session s.sessions }

def saveTask (s : Store) (r : TaskRun) : Store :=
  { s with tasks := Table.put TaskRun.id r s.tasks }

def saveCursor (s : Store) (cursor : ConsumerCursor) : Store :=
  { s with cursors := Table.save ConsumerCursor.consumer cursor s.cursors }

def context (s : Store) (command : AcquireCommand) (candidate : Option TaskRun)
    (ids : AttemptIds) : Acquisition where
  session := s.session command.workerSessionId
  cursor := s.cursor command.consumer
  previous := s.previous command.consumer
  candidate := candidate.map TaskRun.task
  ids := some ids

def acquire (s : Store) (command : AcquireCommand) (candidate : Option TaskRun)
    (ids : AttemptIds) (now : Nat) : Result (Store × Answer) := do
  let t ← Ledgence.acquire (s.context command candidate ids) command now
  let answer := ⟨some (command.consumer, t.reply), t.reply.sample⟩
  match t.changes with
  | none => return (s.saveCursor t.cursor, answer)
  | some changes => do
    let r ← okOr candidate .notFound
    let next ← r.insert changes
    return ((s.saveCursor t.cursor).saveTask next, answer)

def decide (s : Store) (r : TaskRun) (attemptId : String) (op : AttemptOp) (now : Nat) :
    Result (Store × Answer) := do
  let attempt ← okOr (Table.find AttemptSnapshot.id attemptId r.attempts) .notFound
  let w ← (s.load op).decide r.task attempt now
  return (s.saveTask (r.commit w), ⟨none, w.sample⟩)

def apply (s : Store) (op : StoreOp) (now : Nat) : Result (Store × Answer) :=
  match op with
  | .openSession id scope queue concurrency => do
    refuse (s.session id ≠ none) .conflict
    let session ← Ledgence.openSession id scope queue concurrency now
    return ({ s with sessions := s.sessions ++ [session] }, .none)
  | .extendSession id => do
    let session ← okOr (s.session id) .unknownSession
    let session ← Ledgence.extendSession session now
    return (s.saveSession session, .none)
  | .submit command descriptor taskId runId lineage => do
    refuse (s.task taskId ≠ none) .conflict
    let t ← Ledgence.submit command descriptor taskId runId now
    return ({ s with tasks := s.tasks ++ [TaskRun.submitted t lineage] }, .none)
  | .acquire command none ids => s.acquire command none ids now
  | .acquire command (some id) ids => do
    let r ← okOr (s.task id) .notFound
    s.acquire command (some r) ids now
  | .cancelUnassigned id => do
    let r ← okOr (s.task id) .notFound
    let next ← r.apply ⟨.cancelUnassigned, now⟩
    return (s.saveTask next, .none)
  | .onAttempt id attemptId op => do
    let r ← okOr (s.task id) .notFound
    s.decide r attemptId op now

end Store

namespace Store

structure Healthy (s : Store) : Prop where
  reachable : ∀ r ∈ s.tasks, r.Reachable
  unique : Table.Unique TaskRun.id s.tasks

def Known (s : Store) (session : WorkerSession) : Prop :=
  s.session session.id = some session

def claimedRun (r : TaskRun) (ids : AttemptIds) (session : WorkerSession) (consumerId now : Nat) :
    TaskRun where
  task := newTask r.task ids
  attempts := r.attempts ++ [newAttempt r.task ids session consumerId now]
  log := r.log ++ [history r.task (some (newAttempt r.task ids session consumerId now)) now .claimed]

def Samples (task : TaskSnapshot) (attempt : AttemptSnapshot) (now : Nat) (x : Authority) : Prop :=
  x.owner = attempt.lease.owner ∧ x.remainingMs = (authority task attempt now).remainingMs

inductive Step (s : Store) (now : Nat) : Store → Answer → Prop where
  | rested : Step s now s .none
  | opened (session : WorkerSession) (unused : s.session session.id = none)
      (expiry : session.expiresAt = now + sessionValidityMs) :
      Step s now { s with sessions := s.sessions ++ [session] } .none
  | extended (session : WorkerSession) (known : s.Known session) :
      Step s now (s.saveSession { session with expiresAt := now + sessionValidityMs }) .none
  | submitted (r : TaskRun) (unused : s.task r.id = none) (reachable : r.Reachable)
      (unclaimed : r.attempts = []) : Step s now { s with tasks := s.tasks ++ [r] } .none
  | replied (command : AcquireCommand) (candidate : Option TaskRun) (ids : AttemptIds)
      (session : WorkerSession) (t : AcquireTransition)
      (acquired : Acquired (s.context command candidate ids) command session now t)
      (kept : t.changes = none) :
      Step s now (s.saveCursor t.cursor)
        ⟨some (command.consumer, t.reply), t.reply.sample⟩
  | claimed (command : AcquireCommand) (r : TaskRun) (ids : AttemptIds) (session : WorkerSession)
      (known : s.Known session) (registered : Registered session command now) (mem : r ∈ s.tasks)
      (fresh : FreshSequence (s.context command (some r) ids) session command now)
      (claimable : Claimable r.task ids command now)
      (unused : ids.attemptId ∉ r.attempts.map AttemptSnapshot.id) :
      Step s now ((s.saveCursor ⟨command, some ⟨r.id, ids.attemptId⟩⟩).saveTask
          (claimedRun r ids session command.consumerId now))
        ⟨some (command.consumer, (claimTransition r.task ids session command now).reply),
          some (authority (newTask r.task ids)
            (newAttempt r.task ids session command.consumerId now) now)⟩
  | withdrawn (r : TaskRun) (mem : r ∈ s.tasks) (queued : r.task.state = .queued)
      (unowned : r.task.currentAttemptId = none) (log : List HistoryEvent) :
      Step s now (s.saveTask ⟨cancelledTask r.task now, r.attempts, log⟩) .none
  | moved (r : TaskRun) (attempt attempt' : AttemptSnapshot) (mem : r ∈ s.tasks)
      (attemptMem : attempt ∈ r.attempts) (task' : TaskSnapshot) (events : List HistoryEvent)
      (move : MoveBy s.Known r.task attempt now task' attempt' events) (sample : Option Authority)
      (sampled : ∀ x, sample = some x → Samples task' attempt' now x) :
      Step s now (s.saveTask
        ⟨task', Table.put AttemptSnapshot.id attempt' r.attempts, r.log ++ events⟩) ⟨none, sample⟩

section Steps
variable {s t : Store} {now : Nat} {answer : Answer}

theorem known_of_session {id : String} {session : WorkerSession}
    (found : s.session id = some session) : s.Known session ∧ session.id = id := by
  have named := Table.find_key found
  exact ⟨by rw [Known, named, found], named⟩

theorem task_mem {id : String} {r : TaskRun} (found : s.task id = some r) : r ∈ s.tasks :=
  Table.find_mem found

theorem cursor_saveCursor (s : Store) (c : ConsumerCursor) :
    (s.saveCursor c).cursor c.consumer = some c :=
  Table.find_save_self

theorem cursor_saveCursor_other {c : ConsumerCursor} {consumer : ConsumerKey}
    (other : c.consumer ≠ consumer) : (s.saveCursor c).cursor consumer = s.cursor consumer :=
  Table.find_save_other other

theorem Healthy.saveTask (healthy : s.Healthy) {r : TaskRun} (reachable : r.Reachable) :
    (s.saveTask r).Healthy := by
  refine ⟨fun q hq => ?_, Table.unique_put healthy.unique⟩
  obtain rfl | ⟨hq, -⟩ := Table.mem_put hq
  · exact reachable
  · exact healthy.reachable q hq

theorem Healthy.saveCursor (healthy : s.Healthy) (cursor : ConsumerCursor) :
    (s.saveCursor cursor).Healthy :=
  ⟨healthy.reachable, healthy.unique⟩

theorem reachable_apply {r next : TaskRun} {timed : TimedOp} (reachable : r.Reachable)
    (applied : r.apply timed = .ok next) : next.Reachable := by
  have runs : r.run [timed] = .ok next := foldlM_cons_ok.mpr ⟨next, applied, rfl⟩
  exact reachable.run runs

theorem insert_applied {command : AcquireCommand} {r next : TaskRun} {ids : AttemptIds}
    {changes : Transition Unit} {a : AcquireTransition}
    (acquired : Ledgence.acquire (s.context command (some r) ids) command now = .ok a)
    (written : a.changes = some changes) (inserted : r.insert changes = .ok next) :
    r.apply ⟨.acquire ⟨s.session command.workerSessionId, s.cursor command.consumer,
      s.previous command.consumer, ids⟩ command, now⟩ = .ok next := by
  have same : Ledgence.acquire ⟨s.session command.workerSessionId, s.cursor command.consumer,
      s.previous command.consumer, some r.task, some ids⟩ command now = .ok a := acquired
  simp only [TaskRun.apply, same, ok_bind, written]
  exact inserted

theorem acquire_step (healthy : s.Healthy) {command : AcquireCommand} {candidate : Option TaskRun}
    {ids : AttemptIds} (mem : ∀ r, candidate = some r → r ∈ s.tasks)
    (h : s.acquire command candidate ids now = .ok (t, answer)) :
    s.Step now t answer ∧ t.Healthy := by
  simp only [Store.acquire, bind_eq_ok] at h
  obtain ⟨a, acquired, h⟩ := h
  obtain ⟨session, found, registered, done⟩ := acquire_acquired acquired
  have known := (known_of_session found).1
  cases written : a.changes with
  | none =>
    simp only [written, pure_eq_ok, Prod.mk.injEq] at h
    obtain ⟨rfl, rfl⟩ := h
    exact ⟨.replied command candidate ids session a done written, healthy.saveCursor _⟩
  | some changes =>
    simp only [written, bind_eq_ok, okOr_eq_ok, pure_eq_ok, Prod.mk.injEq] at h
    obtain ⟨r, rfl, next, inserted, rfl, rfl⟩ := h
    have reachable := healthy.reachable r (mem r rfl)
    have applied := insert_applied acquired written inserted
    refine ⟨?_, (healthy.saveCursor _).saveTask (reachable_apply reachable applied)⟩
    cases done with
    | replayed | emptied => simp at written
    | claimed task ids' fresh offered given claimable =>
      obtain rfl : r.task = task := by simpa [context] using offered
      obtain rfl : ids = ids' := by simpa [context] using given
      obtain rfl := Option.some.inj written
      simp only [TaskRun.insert, okOr_eq_ok, bind_eq_ok, Option.some.injEq, exists_eq_left',
        refuse_eq_ok, exists_unit, pure_eq_ok] at inserted
      obtain ⟨unused, rfl⟩ := inserted
      exact .claimed command r ids session known registered (mem r rfl) fresh claimable unused

/-- An authority in a reply is read off the records that the decision leaves. -/
theorem decide_sample {task : TaskSnapshot} {attempt : AttemptSnapshot} {op : AttemptOp}
    {w : Writes} (h : op.decide task attempt now = .ok w) {x : Authority}
    (sample : w.sample = some x) : Samples w.task (w.attempt.getD attempt) now x := by
  obtain ⟨-, -, rfl⟩ | ⟨-, rfl⟩ := decide_reply h sample
  · exact ⟨rfl, rfl⟩
  · exact ⟨rfl, rfl⟩

theorem load_uses {op : AttemptOp} {session : WorkerSession} (uses : (s.load op).Uses session) :
    s.Known session := by
  obtain ⟨command, same⟩ := uses
  cases op with
  | renew given command' =>
    obtain ⟨found, -⟩ : s.session command'.owner.workerSessionId = some session ∧ _ := by
      simpa [load] using same
    exact (known_of_session found).1
  | settle | confirmQuiescence | cancel | expire | startTaskAdmission | denyTaskAdmission
  | confirmDeniedTaskQuiescence | deferTaskAdmission | stopStartedTaskAdmission =>
    simp [load] at same

theorem decide_step (healthy : s.Healthy) {r : TaskRun} (mem : r ∈ s.tasks) {id : String}
    {op : AttemptOp} (h : s.decide r id op now = .ok (t, answer)) :
    s.Step now t answer ∧ t.Healthy := by
  simp only [Store.decide, bind_eq_ok, okOr_eq_ok, pure_eq_ok, Prod.mk.injEq] at h
  obtain ⟨attempt, found, w, decided, rfl, rfl⟩ := h
  have reachable := healthy.reachable r mem
  have attemptMem := Table.find_mem found
  have applied : r.apply ⟨.onAttempt id (s.load op), now⟩ = .ok (r.commit w) :=
    TaskRun.apply_onAttempt.mpr ⟨attempt, found, w, decided, rfl⟩
  refine ⟨?_, healthy.saveTask (reachable_apply reachable applied)⟩
  have move := decide_movesBy (reachable.sound.coherent attemptMem) decided
  rw [reachable.sound.commit_eq attemptMem]
  exact .moved r attempt _ mem attemptMem w.task w.history (move.mono fun _ => load_uses) w.sample
    fun _ => decide_sample decided

theorem withdrawn_step (healthy : s.Healthy) {r next : TaskRun} (mem : r ∈ s.tasks)
    (h : r.apply ⟨.cancelUnassigned, now⟩ = .ok next) :
    s.Step now (s.saveTask next) .none ∧ (s.saveTask next).Healthy := by
  refine ⟨?_, healthy.saveTask (reachable_apply (healthy.reachable r mem) h)⟩
  obtain rfl | ⟨queued, -, unowned, -, rfl⟩ := TaskRun.apply_cancelUnassigned h
  · rw [saveTask, Table.put_self healthy.unique mem]
    exact .rested
  · exact .withdrawn r mem queued unowned _

theorem apply_step (healthy : s.Healthy) {op : StoreOp}
    (h : s.apply op now = .ok (t, answer)) : s.Step now t answer ∧ t.Healthy := by
  cases op with
  | openSession id scope queue concurrency =>
    simp only [apply, openSession, bind_eq_ok, refuse_eq_ok, exists_unit, not_not, addTime_eq_ok,
      pure_eq_ok, Prod.mk.injEq] at h
    obtain ⟨unused, _, ⟨-, -, -, -, _, ⟨-, rfl⟩, rfl⟩, rfl, rfl⟩ := h
    exact ⟨.opened _ unused rfl, healthy.reachable, healthy.unique⟩
  | extendSession id =>
    simp only [apply, extendSession, bind_eq_ok, okOr_eq_ok, exists_unit, addTime_eq_ok,
      pure_eq_ok, Prod.mk.injEq] at h
    obtain ⟨session, found, _, ⟨-, _, ⟨-, rfl⟩, rfl⟩, rfl, rfl⟩ := h
    exact ⟨.extended session (known_of_session found).1, healthy.reachable, healthy.unique⟩
  | submit command descriptor taskId runId lineage =>
    simp only [apply, bind_eq_ok, refuse_eq_ok, exists_unit, not_not, pure_eq_ok,
      Prod.mk.injEq] at h
    obtain ⟨unused, r, submits, rfl, rfl⟩ := h
    have named : (TaskRun.submitted r lineage).id = taskId := by
      obtain ⟨-, -, -, -, rfl⟩ := TaskRun.submit_eq_ok submits
      rfl
    have reachable : (TaskRun.submitted r lineage).Reachable :=
      ⟨command, descriptor, taskId, runId, now, r, lineage, [], submits, rfl⟩
    rw [← named] at unused
    refine ⟨.submitted _ unused reachable rfl, fun q hq => ?_, ?_⟩
    · obtain hq | hq := List.mem_append.mp hq
      · exact healthy.reachable q hq
      · rwa [List.mem_singleton.mp hq]
    · exact Table.unique_append healthy.unique (Table.find_eq_none.mp unused)
  | acquire command candidate ids =>
    cases candidate with
    | none => exact acquire_step healthy (by simp) h
    | some id =>
      simp only [apply, bind_eq_ok, okOr_eq_ok] at h
      obtain ⟨r, found, h⟩ := h
      exact acquire_step healthy (by simpa using task_mem found) h
  | cancelUnassigned id =>
    simp only [apply, bind_eq_ok, okOr_eq_ok, pure_eq_ok, Prod.mk.injEq] at h
    obtain ⟨r, found, next, applied, rfl, rfl⟩ := h
    exact withdrawn_step healthy (task_mem found) applied
  | onAttempt id attemptId op =>
    simp only [apply, bind_eq_ok, okOr_eq_ok] at h
    obtain ⟨r, found, h⟩ := h
    exact decide_step healthy (task_mem found) h

end Steps
end Store

structure StoreCall where
  op : StoreOp
  now : Nat

structure Trace where
  store : Store
  clock : Nat
  replies : List (ConsumerKey × AcquireReply)
  samples : List (Nat × Authority)

namespace Trace

def empty : Trace := ⟨⟨[], [], []⟩, 0, [], []⟩

def advance (s : Trace) (now : Nat) (store : Store) (answer : Answer) : Trace where
  store := store
  clock := now
  replies := s.replies ++ answer.reply.toList
  samples := s.samples ++ (answer.sample.map fun x => (now, x)).toList

def apply (s : Trace) (call : StoreCall) : Result Trace := do
  let (store, answer) ← s.store.apply call.op call.now
  return s.advance call.now store answer

/-- All accepted operations of a store, from its creation on. -/
def run (calls : List StoreCall) : Result Trace :=
  calls.foldlM apply empty

def InOrder (calls : List StoreCall) : Prop :=
  (calls.map StoreCall.now).Pairwise (· ≤ ·)

instance (calls : List StoreCall) : Decidable (InOrder calls) :=
  inferInstanceAs (Decidable (List.Pairwise _ _))

variable {s t : Trace} {calls : List StoreCall}

theorem apply_step {call : StoreCall} (healthy : s.store.Healthy) (h : s.apply call = .ok t) :
    t.store.Healthy ∧ ∃ answer, s.store.Step call.now t.store answer ∧
      t = s.advance call.now t.store answer := by
  simp only [apply, bind_eq_ok, pure_eq_ok, Prod.exists] at h
  obtain ⟨store, answer, applied, rfl⟩ := h
  obtain ⟨step, kept⟩ := Store.apply_step healthy applied
  exact ⟨kept, answer, step, rfl⟩

theorem empty_healthy : empty.store.Healthy :=
  ⟨by simp [empty], by simp [empty, Table.Unique]⟩

theorem run_invariant {P : Trace → Prop} (start : P empty)
    (step : ∀ (s : Trace) now store answer, s.store.Healthy → store.Healthy →
      s.store.Step now store answer → P s → P (s.advance now store answer))
    (ran : run calls = .ok s) : s.store.Healthy ∧ P s := by
  refine foldlM_invariant (P := fun u => u.store.Healthy ∧ P u) ?_ ran ⟨empty_healthy, start⟩
  intro u call _ v applied inv
  obtain ⟨healthy, answer, stepped, same⟩ := apply_step inv.1 applied
  refine ⟨healthy, ?_⟩
  rw [same]
  exact step u call.now v.store answer inv.1 healthy stepped inv.2

/-- What every step keeps while the clock does not go back, every run in order has. -/
theorem ordered_invariant {P : Trace → Prop} (start : P empty)
    (step : ∀ (s : Trace) now store answer, s.store.Healthy → store.Healthy → s.clock ≤ now →
      s.store.Step now store answer → P s → P (s.advance now store answer))
    (inOrder : InOrder calls) (ran : run calls = .ok s) : s.store.Healthy ∧ P s := by
  have ordered : (empty.clock :: calls.map StoreCall.now).Pairwise (· ≤ ·) :=
    List.pairwise_cons.mpr ⟨fun _ _ => Nat.zero_le _, inOrder⟩
  refine foldlM_ordered (P := fun u => u.store.Healthy ∧ P u) ?_ ?_ ran ordered
    ⟨empty_healthy, start⟩
  · intro u call v applied
    simp only [apply, bind_eq_ok, pure_eq_ok, Prod.exists] at applied
    obtain ⟨store, answer, -, rfl⟩ := applied
    rfl
  · intro u call v later applied inv
    obtain ⟨healthy, answer, stepped, same⟩ := apply_step inv.1 applied
    refine ⟨healthy, ?_⟩
    rw [same]
    exact step u call.now v.store answer inv.1 healthy later stepped inv.2

end Trace
end Ledgence
