import Ledgence.Queues.Records
import Ledgence.Runs.TaskRun
import Mathlib.Data.List.Flatten
import Mathlib.Data.List.Perm.Basic

/-! One queue: its policy, its holds, and the runs of its tasks. The policy row is locked first, so
each transaction is one step; one that fails leaves nothing behind. -/
open Kit Kit.Checked

namespace Ledgence

/-- Lower an attempt's deadline. The lease, by which it is settled and cleaned up, stays. -/
def AttemptSnapshot.fence (at' : Nat) (attempt : AttemptSnapshot) : AttemptSnapshot :=
  { attempt with deadline := min attempt.deadline at' }

def TaskRun.fence (id : String) (at' : Nat) (s : TaskRun) : TaskRun :=
  { s with attempts := s.attempts.map fun a => if a.id = id then a.fence at' else a }

def TaskRun.taskId (s : TaskRun) : String := s.task.taskId

/-- `persistence::apply` writes everything that a decision changes but the deadline. -/
def Writes.keepDeadline (w : Writes) (stored : AttemptSnapshot) : Writes :=
  { w with attempt := w.attempt.map fun new => { new with deadline := stored.deadline } }

/-- The attempt occupies the queue: it runs, or it may have left something running. -/
def AttemptSnapshot.Outstanding (attempt : AttemptSnapshot) : Prop :=
  attempt.state = .active ∨ attempt.state ≠ .active ∧ attempt.executionMayHaveStarted = true ∧
    attempt.quiescence = .unconfirmed

instance (attempt : AttemptSnapshot) : Decidable attempt.Outstanding :=
  inferInstanceAs (Decidable (_ ∨ _ ∧ _ ∧ _))

structure Queue where
  scope : Scope
  name : String
  policy : Option QueuePolicyRow
  holds : List QueueHold
  tasks : List TaskRun

namespace Queue
variable (q : Queue)

def init (scope : Scope) (name : String) : Queue := ⟨scope, name, none, [], []⟩

def attempts : List AttemptSnapshot := q.tasks.flatMap TaskRun.attempts

def check {α : Type} (x : Result α) : QueueOutcome α := x.mapError .refused

/-- `ldg_queue_transition`: the accounting and the hold move together. -/
def transition (attemptId : String) (next : QueueHoldState) (kind : Option QueueHoldReleaseKind)
    (sampled : Nat) : QueueOutcome (Queue × Bool) :=
  match Table.find QueueHold.attemptId attemptId q.holds with
  | none => .ok (q, false)
  | some h =>
    if h.state = .released ∨ h.state = next then .ok (q, false)
    else do
      refuse (¬ (h.moved next kind sampled).Constrained) .constraint
      let p ← okOr q.policy .constraint
      let p ← p.moved h.state next
      refuse (¬ p.Constrained) .constraint
      return ({ q with
        holds := Table.put QueueHold.attemptId (h.moved next kind sampled) q.holds
        policy := some p }, true)

def OnlyConfirms (old new : AttemptSnapshot) : Prop :=
  new.lease.expiresAt = old.lease.expiresAt ∧ new.authorityDeadline = old.authorityDeadline ∧
    new.state = old.state ∧ new.executionMayHaveStarted = old.executionMayHaveStarted ∧
    new.lastRenewal.map RenewCommand.sequence = old.lastRenewal.map RenewCommand.sequence ∧
    new.lastRenewal.map RenewCommand.intent = old.lastRenewal.map RenewCommand.intent ∧
    new.quiescence = .confirmed ∧ new.finishedAt = old.finishedAt

instance (old new : AttemptSnapshot) : Decidable (OnlyConfirms old new) :=
  inferInstanceAs (Decidable (_ ∧ _ ∧ _ ∧ _ ∧ _ ∧ _ ∧ _ ∧ _))

def SamePhase (old new : AttemptSnapshot) : Prop :=
  old.executionMayHaveStarted = new.executionMayHaveStarted ∧ old.state = new.state ∧
    old.quiescence = new.quiescence

instance (old new : AttemptSnapshot) : Decidable (SamePhase old new) :=
  inferInstanceAs (Decidable (_ ∧ _ ∧ _))

/-- The late cleanup of an attempt that a run budget denied, which nothing was adopted for. -/
def DeniedCleanup (old new : AttemptSnapshot) : Prop :=
  old.state = .failed ∧ old.executionMayHaveStarted = false ∧ old.budgetDenial.isSome = true ∧
    old.quiescence = .unconfirmed ∧ OnlyConfirms old new

instance (old new : AttemptSnapshot) : Decidable (DeniedCleanup old new) :=
  inferInstanceAs (Decidable (_ ∧ _ ∧ _ ∧ _ ∧ _))

def StartsLate (h : QueueHold) (old new : AttemptSnapshot) (sampled : Nat) : Prop :=
  new.executionMayHaveStarted = true ∧ old.executionMayHaveStarted = false ∧
    (h.state = .released ∨ h.stopRequestedAt.isSome = true ∨ ∃ d ∈ h.deadline, d ≤ sampled)

instance (h : QueueHold) (old new : AttemptSnapshot) (sampled : Nat) :
    Decidable (StartsLate h old new sampled) :=
  inferInstanceAs (Decidable (_ ∧ _ ∧ (_ ∨ _ ∨ ∃ d ∈ h.deadline, d ≤ sampled)))

/-- `ldg_queue_attempt_transition`, fired by an update of an attempt. -/
def attemptTransition (old new : AttemptSnapshot) (sampled : Nat) : QueueOutcome Queue :=
  if SamePhase old new then .ok q
  else match q.policy, Table.find QueueHold.attemptId new.id q.holds with
    | none, _ => .ok q
    | some _, none => if DeniedCleanup old new then .ok q else .error .missingOccupancy
    | some _, some h => do
      refuse (StartsLate h old new sampled) .lateStart
      if new.quiescence = .confirmed ∨
          new.state ≠ .active ∧ new.executionMayHaveStarted = false then do
        let kind := if new.executionMayHaveStarted then .confirmed else .neverStarted
        let (q, _) ← q.transition new.id .released (some kind) sampled
        return q
      else if new.state ≠ .active then do
        let (q, _) ← q.transition new.id .uncertain none sampled
        return q
      else if new.executionMayHaveStarted = true then do
        let (q, _) ← q.transition new.id .running none sampled
        return q
      else return q

def reserve (p : QueuePolicyRow) (attempt : AttemptSnapshot) (sampled : Nat) : QueueHold where
  owner := attempt.lease.owner
  revision := 1
  policyRevision := p.revision
  state := .reserved
  acquiredAt := sampled
  deadline := p.timeoutMs.map (sampled + ·)
  graceMs := p.graceMs
  stopRequestedAt := none
  forceAt := none
  releasedAt := none
  releaseKind := none

/-- `ldg_queue_guard_insert`, fired by the insertion of an attempt. `setting` is the attempt that the
transaction has claimed capacity for, and when. -/
def guardInsert (attempt : AttemptSnapshot) (setting : Option (String × Nat)) : QueueOutcome Queue :=
  match q.policy with
  | none => .ok q
  | some p => do
    let claim ← okOr setting .incompatible
    refuse (claim.1 ≠ attempt.id) .incompatible
    refuse p.full .exhausted
    let h := reserve p attempt claim.2
    refuse (¬ h.Constrained ∨ h.attemptId ∈ q.holds.map QueueHold.attemptId) .constraint
    return { q with
      holds := q.holds ++ [h]
      policy := some { p with occupied := p.occupied + 1 } }

/-- `prepare`: an assignment under a timeout ends with it. -/
def prepare (attempt : AttemptSnapshot) (claimedAt : Nat) :
    QueueOutcome (AttemptSnapshot × Option (String × Nat)) :=
  match q.policy with
  | none => .ok (attempt, none)
  | some p => do
    let setting := some (attempt.id, claimedAt)
    match p.timeoutMs with
    | none => return (attempt, setting)
    | some ms => do
      let deadline ← okOr (checkedAdd u64Max claimedAt ms)
        (.refused (.unavailable "invalid queue capacity authority: queue deadline overflow"))
      return (attempt.fence deadline, setting)

/-- `effective_deadline_ms`: the earliest of the deadlines and stops recorded for the attempt. -/
def effectiveDeadline (attempt : AttemptSnapshot) : Nat :=
  match Table.find QueueHold.attemptId attempt.id q.holds with
  | none => attempt.deadline
  | some h => h.limits.foldl min attempt.deadline

/-- `load_attempt` -/
def load (attempt : AttemptSnapshot) : AttemptSnapshot :=
  { attempt with deadline := q.effectiveDeadline attempt }

def putRun (s : TaskRun) : Queue := { q with tasks := Table.put TaskRun.taskId s q.tasks }

def run (taskId : String) : QueueOutcome TaskRun :=
  okOr (Table.find TaskRun.taskId taskId q.tasks) (.refused .notFound)

/-- An acquisition that may claim the task: `gate`, the core decision, `prepare`, and the insertion. -/
def assign (taskId : String) (context : ClaimContext) (command : AcquireCommand) (claimedAt : Nat) :
    QueueOutcome Queue := do
  let s ← q.run taskId
  if q.policy.any (·.full) then return q
  else do
    let t ← check (acquire
      ⟨context.session, context.cursor, context.previous, some s.task, some context.ids⟩
      command claimedAt)
    match t.changes with
    | none => return q
    | some changes => do
      let attempt ← okOr changes.attempt (.refused .conflict)
      let (attempt, setting) ← q.prepare attempt claimedAt
      refuse (attempt.id ∈ q.attempts.map AttemptSnapshot.id) (.refused .conflict)
      let s ← check (s.insert { changes with attempt := some attempt })
      (q.putRun s).guardInsert attempt setting

/-- A decision on a task or on one of its attempts: `persistence::apply` and the trigger it fires. -/
def decide (taskId : String) (op : TaskOp) (now sampled : Nat) : QueueOutcome Queue := do
  let s ← q.run taskId
  match op with
  | .acquire context command => q.assign taskId context command now
  | .cancelUnassigned => do
    let s ← check (s.apply ⟨.cancelUnassigned, now⟩)
    return q.putRun s
  | .onAttempt id op => do
    let attempt ← check (okOr (Table.find AttemptSnapshot.id id s.attempts) .notFound)
    let w ← check (op.decide s.task (q.load attempt) now)
    let w := w.keepDeadline attempt
    match w.attempt with
    | none => return q.putRun (s.commit w)
    | some new => (q.putRun (s.commit w)).attemptTransition attempt new sampled

def submit (command : SubmitCommand) (descriptor : ProgramDescriptor) (taskId runId : String)
    (lineage : Lineage) (now : Nat) : QueueOutcome Queue := do
  let t ← check (Ledgence.submit command descriptor taskId runId now)
  refuse (t.task.scope ≠ q.scope ∨ t.task.input.queue ≠ q.name ∨
      taskId ∈ q.tasks.map TaskRun.taskId) (.refused .conflict)
  return { q with tasks := q.tasks ++ [TaskRun.submitted t lineage] }

def collect (taskId : String) : QueueOutcome Queue := do
  let s ← q.run taskId
  refuse (s.task.state.isTerminal = false) (.refused .conflict)
  return { q with tasks := q.tasks.filter fun s => s.taskId ≠ taskId }

def fence (attemptId : String) (at' : Nat) : QueueOutcome Queue := do
  refuse (maxTimestamp < at')
    (.refused (.unavailable "invalid PostgreSQL record: timestamp outside RFC3339 range"))
  return { q with tasks := q.tasks.map (TaskRun.fence attemptId at') }

/-- `lock_source`, and the checks on the row it reads. -/
def lockSource (scope : Scope) (queue taskId attemptId : String) : QueueOutcome QueueHold := do
  refuse (q.policy = none ∨ scope ≠ q.scope ∨ queue ≠ q.name) (.refused .notFound)
  let h ← okOr (Table.find QueueHold.attemptId attemptId q.holds) (.refused .notFound)
  refuse (h.owner.taskId ≠ taskId) (.refused .notFound)
  check h.validate
  return h

def moveHold (attemptId : String) (state : QueueHoldState) (kind : Option QueueHoldReleaseKind)
    (at' : Nat) : QueueOutcome Queue := do
  let (q, changed) ← q.transition attemptId state kind at'
  refuse (changed = false)
    (.refused (.unavailable "invalid queue capacity authority: hold transition suppressed"))
  return q

/-- `close_hold_once`: the worker says that nothing of the attempt is left. -/
def closeHold (c : QueueHoldClose) (now : Nat) : QueueOutcome Queue := do
  check c.validate
  let h ← q.lockSource c.owner.scope c.queue c.owner.taskId c.owner.attemptId
  refuse (h.owner.workerSessionId ≠ c.owner.workerSessionId ∨
      h.owner.consumerId ≠ c.owner.consumerId ∨ h.owner.leaseId ≠ c.owner.leaseId ∨
      h.owner.generation ≠ c.owner.generation) (.refused .forbidden)
  if h.state = .released then return q
  else do
    let q ← q.fence c.owner.attemptId now
    q.moveHold c.owner.attemptId .released (some .confirmed) now

/-- `release_hold_once`, when its receipt is new. -/
def releaseHold (c : QueueHoldRelease) (now : Nat) : QueueOutcome Queue := do
  check c.validate
  let h ← q.lockSource c.scope c.queue c.taskId c.attemptId
  refuse (h.revision ≠ c.expectedRevision ∨ h.state ≠ .uncertain) (.refused .conflict)
  let q ← q.fence c.attemptId now
  q.moveHold c.attemptId .released (some .operator) now

def requestStop (h : QueueHold) (now : Nat) : QueueOutcome Queue := do
  let q ← q.fence h.attemptId now
  refuse (¬ (h.stopped now).Constrained) .constraint
  let q := { q with holds := Table.put QueueHold.attemptId (h.stopped now) q.holds }
  match h.state with
  -- No dispatch crossed the fence.
  | .reserved => q.moveHold h.attemptId .released (some .neverStarted) now
  | .running => q.moveHold h.attemptId .uncertain none now
  | .uncertain | .released => return q

def tickTimeout (taskId attemptId : String) (now : Nat) : QueueOutcome Queue := do
  let h ← q.lockSource q.scope q.name taskId attemptId
  if h.state ≠ .released ∧ h.stopRequestedAt = none ∧ h.deadline.any (· ≤ now) = true then
    q.requestStop h now
  else if h.state ≠ .released ∧ h.stopRequestedAt.isSome = true ∧
      h.forceAt.any (· ≤ now) = true then do
    let q ← q.fence attemptId now
    q.moveHold attemptId .released (some .timeout) now
  else return q

def initialState (attempt : AttemptSnapshot) : QueueHoldState :=
  if attempt.state ≠ .active then .uncertain
  else if attempt.executionMayHaveStarted then .running
  else .reserved

/-- `adopt.sql`, one attempt at a time. -/
def adopted (p : QueuePolicyRow) (now : Nat) (attempt : AttemptSnapshot) : QueueHold :=
  { reserve p attempt now with
    policyRevision := 1
    state := initialState attempt }

def adopt (p : QueuePolicyRow) (now : Nat) : QueueOutcome Queue := do
  let holds := (q.attempts.filter (·.Outstanding)).map (adopted p now)
  refuse (¬ (∀ h ∈ holds, h.Constrained) ∨ ¬ (holds.map QueueHold.attemptId).Nodup) .constraint
  let p := { p with occupied := holds.length, uncertain := holds.countP QueueHold.isUncertain }
  refuse (¬ p.Constrained) .constraint
  return { q with holds := q.holds ++ holds, policy := some p }

def policyRow (c : QueuePolicyPut) (now revision occupied uncertain : Nat) : QueuePolicyRow where
  revision
  updatedAt := now
  maximum := c.policy.maxConcurrency
  timeoutMs := c.policy.timeout.map QueueHoldTimeout.afterMs
  graceMs := c.policy.timeout.bind QueueHoldTimeout.graceMs
  occupied
  uncertain

/-- `put_queue_once`, when its receipt is new. -/
def putPolicy (c : QueuePolicyPut) (now : Nat) : QueueOutcome Queue := do
  check c.validate
  refuse (c.scope ≠ q.scope ∨ c.queue ≠ q.name) (.refused .notFound)
  refuse (q.policy.map QueuePolicyRow.revision ≠ c.expectedRevision) (.refused .conflict)
  check (queueTime now)
  match q.policy with
  | none => q.adopt (policyRow c now 1 0 0) now
  | some p => do
    let p := policyRow c now (p.revision + 1) p.occupied p.uncertain
    refuse (¬ p.Constrained) .constraint
    return { q with policy := some p }

end Queue

/-- The transactions on one queue. Fresh identities and clock samples are part of the command. -/
inductive QueueCommand where
  | submit (command : SubmitCommand) (descriptor : ProgramDescriptor) (taskId runId : String)
      (lineage : Lineage) (now : Nat)
  | decide (taskId : String) (op : TaskOp) (now sampled : Nat)
  | collect (taskId : String)
  | closeHold (c : QueueHoldClose) (now : Nat)
  | releaseHold (c : QueueHoldRelease) (now : Nat)
  | tickTimeout (taskId attemptId : String) (now : Nat)
  | putPolicy (c : QueuePolicyPut) (now : Nat)

namespace Queue

def step (q : Queue) : QueueCommand → QueueOutcome Queue
  | .submit command descriptor taskId runId lineage now =>
    q.submit command descriptor taskId runId lineage now
  | .decide taskId op now sampled => q.decide taskId op now sampled
  | .collect taskId => q.collect taskId
  | .closeHold c now => q.closeHold c now
  | .releaseHold c now => q.releaseHold c now
  | .tickTimeout taskId attemptId now => q.tickTimeout taskId attemptId now
  | .putPolicy c now => q.putPolicy c now

end Queue
end Ledgence

/-! What an accepted decision does to the attempts of a queue's tasks, as far as capacity goes. -/

namespace Ledgence

section Moves
variable {task task' : TaskSnapshot} {attempt attempt' : AttemptSnapshot} {now : Nat}
  {events : List HistoryEvent}

def AttemptSnapshot.Loud (attempt : AttemptSnapshot) : Prop :=
  attempt.state = .active → attempt.quiescence = .unconfirmed

theorem MoveBy.loud (move : Move task attempt now task' attempt' events) (loud : attempt.Loud) :
    attempt'.Loud := by
  cases move with
  | same | withdrawn => exact loud
  | renewed | started => exact loud
  | cancelRequested => exact loud
  | reported command acceptable isLive first quiet => exact fun _ => quiet
  | closed running closing => exact fun active => absurd active finishState_ne_active
  | denied => exact fun active => by simp [deniedAttempt] at active
  | denialConfirmed denial taskFailed attemptFailed =>
    exact fun active => by simp [confirmedAttempt, attemptFailed] at active
  | deferralCancelled | deferred => exact fun active => by simp [closedPreparation] at active

theorem MoveBy.outstanding (move : Move task attempt now task' attempt' events)
    (still : attempt'.Outstanding) : attempt.Outstanding := by
  by_cases ended : attempt.state = .active
  · exact .inl ended
  · obtain rfl | ⟨rfl, -⟩ := Move.of_ended move ended
    · exact still
    · obtain active | ⟨-, -, loud⟩ := still
      · exact absurd active ended
      · simp [confirmedAttempt] at loud

/-- What still happens to an attempt that nothing is held for is the cleanup of a denied one. -/
theorem MoveBy.cleanup (move : Move task attempt now task' attempt' events)
    (done : ¬ attempt.Outstanding) :
    Queue.SamePhase attempt attempt' ∨
      Queue.DeniedCleanup attempt attempt' ∧ attempt' = confirmedAttempt attempt := by
  have ended : attempt.state ≠ .active := fun active => done (.inl active)
  obtain rfl | ⟨rfl, -, denial, -, failed, -, unstarted, -, loud⟩ := Move.of_ended move ended
  · exact .inl ⟨rfl, rfl, rfl⟩
  · exact .inr ⟨⟨failed, unstarted, denial, loud, rfl, rfl, rfl, rfl, rfl, rfl, rfl, rfl⟩, rfl⟩

theorem MoveBy.wasActive (move : Move task attempt now task' attempt' events)
    (active : attempt'.state = .active) : attempt.state = .active := by
  obtain ⟨-, -, same⟩ | ⟨running, -⟩ := Move.phase move
  · exact same.symm.trans active
  · exact running.attemptActive

/-- A running attempt changes its phase by starting, and in no other way. -/
theorem MoveBy.starts (move : Move task attempt now task' attempt' events) (loud : attempt.Loud)
    (active : attempt'.state = .active) (changed : ¬ Queue.SamePhase attempt attempt') :
    attempt.state = .active ∧
      (attempt'.executionMayHaveStarted = true → attempt.executionMayHaveStarted = false) := by
  have wasActive := MoveBy.wasActive move active
  refine ⟨wasActive, fun started => ?_⟩
  by_contra already
  refine changed ⟨?_, wasActive.trans active.symm, (loud wasActive).trans ?_⟩
  · rw [Bool.not_eq_false] at already
    rw [already, started]
  · exact ((MoveBy.loud move loud) active).symm

end Moves

namespace TaskRun
variable {s t : TaskRun} {now : Nat}

structure Steady (s : TaskRun) : Prop where
  sound : Sound s
  loud : ∀ a ∈ s.attempts, a.Loud

def retime (id : String) (deadline : Nat → Nat) (s : TaskRun) : TaskRun :=
  { s with attempts := s.attempts.map fun a =>
      if a.id = id then { a with deadline := deadline a.deadline } else a }

theorem retimed (id : String) (deadline : Nat → Nat) (a : AttemptSnapshot) :
    ∃ b, (if a.id = id then { a with deadline := deadline a.deadline } else a) = b ∧ b.id = a.id ∧
      b.generation = a.generation ∧ b.state = a.state ∧ (b.Loud ↔ a.Loud) ∧
      (b.Outstanding ↔ a.Outstanding) ∧ ∀ task, Belongs task a → Belongs task b := by
  by_cases h : a.id = id
  · exact ⟨{ a with deadline := deadline a.deadline }, by rw [if_pos h], rfl, rfl, rfl, Iff.rfl,
      Iff.rfl, fun _ b => b⟩
  · exact ⟨a, by rw [if_neg h], rfl, rfl, rfl, Iff.rfl, Iff.rfl, fun _ b => b⟩

theorem map_retimed {β : Type} (f : AttemptSnapshot → β) (id : String) (deadline : Nat → Nat)
    (attempts : List AttemptSnapshot)
    (same : ∀ a : AttemptSnapshot, ∀ d, f { a with deadline := d } = f a) :
    (attempts.map fun a => if a.id = id then { a with deadline := deadline a.deadline } else a).map f =
      attempts.map f := by
  rw [List.map_map]
  refine List.map_congr_left fun a _ => ?_
  by_cases h : a.id = id
  · simp [h, same]
  · simp [h]

theorem Sound.retime (sound : Sound s) (id : String) (deadline : Nat → Nat) :
    Sound (s.retime id deadline) where
  belongs := by
    intro b mem
    obtain ⟨a, stored, rfl⟩ := List.mem_map.mp mem
    obtain ⟨b, rfl, -, -, -, -, -, belongs⟩ := retimed id deadline a
    exact belongs _ (sound.belongs a stored)
  lineage := fun some' => sound.lineage (by simpa [TaskRun.retime] using some')
  generations := by
    rw [TaskRun.retime, map_retimed _ _ _ _ fun _ _ => rfl]
    exact sound.generations
  unique := by
    rw [Table.Unique, TaskRun.retime, map_retimed _ _ _ _ fun _ _ => rfl]
    exact sound.unique
  idle := sound.idle
  busy := by
    intro active
    obtain ⟨a, mem, current, latest⟩ := sound.busy active
    obtain ⟨b, same, id', generation, -⟩ := retimed id deadline a
    exact ⟨b, List.mem_map.mpr ⟨a, mem, same⟩, by rw [id']; exact current, by rw [generation]; exact latest⟩
  active := by
    intro b mem
    obtain ⟨a, stored, rfl⟩ := List.mem_map.mp mem
    obtain ⟨b, rfl, id', -, state, -⟩ := retimed id deadline a
    rw [id', state]
    exact sound.active a stored

theorem Steady.retime (steady : Steady s) (id : String) (deadline : Nat → Nat) :
    Steady (s.retime id deadline) where
  sound := steady.sound.retime id deadline
  loud := by
    intro b mem
    obtain ⟨a, stored, rfl⟩ := List.mem_map.mp mem
    obtain ⟨b, rfl, -, -, -, loud, -⟩ := retimed id deadline a
    exact loud.mpr (steady.loud a stored)

theorem Steady.fence (steady : Steady s) (id : String) (at' : Nat) : Steady (s.fence id at') :=
  steady.retime id (min · at')

theorem Steady.moved (steady : Steady s) {attempt attempt' : AttemptSnapshot}
    (mem : attempt ∈ s.attempts) {task' : TaskSnapshot} {events : List HistoryEvent}
    (move : Move s.task attempt now task' attempt' events) (log : List HistoryEvent) :
    Steady ⟨task', Table.put AttemptSnapshot.id attempt' s.attempts, log⟩ where
  sound := steady.sound.moved mem move log
  loud := by
    intro b mem'
    obtain rfl | ⟨mem', -⟩ := Table.mem_put mem'
    · exact MoveBy.loud move (steady.loud attempt mem)
    · exact steady.loud b mem'

/-- A decision on the attempt as it was loaded, with a deadline that is not stored. -/
theorem Steady.decided (steady : Steady s) {attempt attempt' : AttemptSnapshot}
    (mem : attempt ∈ s.attempts) {deadline : Nat} {task' : TaskSnapshot} {events : List HistoryEvent}
    (move : Move s.task { attempt with deadline } now task' attempt' events)
    (log : List HistoryEvent) : Steady ⟨task',
      Table.put AttemptSnapshot.id { attempt' with deadline := attempt.deadline } s.attempts, log⟩ := by
  have named : attempt'.id = attempt.id := by
    simp [AttemptSnapshot.id, (Move.same_attempt move).owner]
  have loaded := steady.retime attempt.id fun _ => deadline
  have there : { attempt with deadline } ∈ (s.retime attempt.id fun _ => deadline).attempts :=
    List.mem_map.mpr ⟨attempt, mem, if_pos rfl⟩
  have moved := (loaded.moved there move log).retime attempt.id fun _ => attempt.deadline
  have same : (Table.put AttemptSnapshot.id attempt' (s.retime attempt.id fun _ => deadline).attempts).map
      (fun a => if a.id = attempt.id then { a with deadline := attempt.deadline } else a) =
      Table.put AttemptSnapshot.id { attempt' with deadline := attempt.deadline } s.attempts := by
    simp only [Table.put, TaskRun.retime, List.map_map]
    refine List.map_congr_left fun a _ => ?_
    by_cases h : a.id = attempt.id
    · have h' : ({ a with deadline } : AttemptSnapshot).id = attempt.id := h
      have stored : ({ attempt' with deadline := attempt.deadline } : AttemptSnapshot).id =
        attempt.id := named
      simp [h, h', named, stored]
    · have stored : ({ attempt' with deadline := attempt.deadline } : AttemptSnapshot).id =
        attempt.id := named
      simp [h, named, stored]
  rw [← same]
  exact moved

end TaskRun

theorem Writes.keepDeadline_getD (w : Writes) (stored : AttemptSnapshot) (deadline : Nat) :
    (w.keepDeadline stored).attempt.getD stored =
      { w.attempt.getD { stored with deadline } with deadline := stored.deadline } := by
  cases written : w.attempt with
  | none => simp [keepDeadline, written]
  | some new => simp [keepDeadline, written]

end Ledgence
