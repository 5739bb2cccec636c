import Ledgence.Core.Lifecycle
import Ledgence.Ledger.Charges

/-! A task generation's request for a shared resource: offer, preparation, Start and Close. -/
open Kit Kit.Checked

namespace Ledgence

def taskAdmissionFeature : String := "task_admission.v1"

/-- `task_admission::state::Request` -/
structure TaskAdmissionRequest where
  snapshot : TaskAdmissionSnapshot
  offerGeneration : Nat
  availableAt : Nat
  lastRewaitAt : Option Nat
  checkAt : Option Nat
  startCommand : Option TaskAdmissionStartCommand
  closeCommand : Option TaskAdmissionCloseCommand
  deriving DecidableEq

structure TaskWrites where
  task : TaskSnapshot
  attempt : Option AttemptSnapshot
  history : List HistoryEvent

def Transition.taskWrites {R : Type} (t : Transition R) : TaskWrites :=
  ⟨t.task, t.attempt, t.history⟩

inductive TaskAdmissionStartReceipt where
  | granted (source : TaskAdmissionSource) (authority : Authority)
  | existing (snapshot : TaskAdmissionSnapshot)
  deriving DecidableEq

/-- What a Start reads besides the resource and the request. The task is missing when it is being
retired, and the session is not looked at when a replay answers. -/
structure TaskStartContext where
  dispatchEnabled : Bool
  task : Option TaskSnapshot
  session : Option WorkerSession
  attempt : Option AttemptSnapshot
  sourceId : String
  budget : Except RunBudgetDenial (Option Nat)
  now : Nat
  deniedAt : Nat
  budgetNow : Nat
  finalNow : Nat

namespace TaskAdmissionRequest

def occurrence (a : TaskAdmissionRequest) : TaskAdmissionOccurrence := a.snapshot.occurrence

def charge (a : TaskAdmissionRequest) : Charge :=
  match a.snapshot.state, a.snapshot.offer with
  | .offered, some offer | .preparing, some offer => .offered offer.policyRevision
  | .possiblyDispatched, _ => .started
  | .unknownOccupied, _ => .unknown
  | _, _ => .free

def withState (a : TaskAdmissionRequest) (state : TaskAdmissionState) : TaskAdmissionRequest :=
  { a with snapshot := { a.snapshot with state } }

def bump (a : TaskAdmissionRequest) (now : Nat) : Outcome TaskAdmissionRequest := do
  let revision ← okOr (checkedAdd u64Max a.snapshot.revision 1)
    (.refused (corruptRecord .task "revision overflow"))
  let snapshot := { a.snapshot with revision, updatedAt := max a.snapshot.updatedAt now }
  wellFormed snapshot.validate
  return { a with snapshot }

def registered (task : TaskSnapshot) (resource : String) (now : Nat) : TaskAdmissionRequest where
  snapshot := {
    budgetDenial := none
    occurrence := ⟨task.scope, task.taskId, task.attemptCount + 1⟩
    resource
    program := task.descriptor
    state := .waiting
    revision := 1
    createdAt := now
    updatedAt := now
    offer := none
    owner := none
    source := none
    close := none }
  offerGeneration := 0
  availableAt := if task.availableAt ≤ now then 0 else task.availableAt
  lastRewaitAt := none
  checkAt := none
  startCommand := none
  closeCommand := none

def unreserved (a : TaskAdmissionRequest) : TaskAdmissionRequest :=
  { a with
    snapshot := { a.snapshot with
      state := if a.snapshot.owner.isSome then .closedBeforeStart else .waiting
      offer := if a.snapshot.owner.isNone then none else a.snapshot.offer }
    checkAt := none }

def releaseOffer (a : TaskAdmissionRequest) (r : Resource) (now : Nat) :
    Outcome (TaskAdmissionRequest × Resource × Bool) :=
  if a.snapshot.state ≠ .offered ∧ a.snapshot.state ≠ .preparing then .ok (a, r, false)
  else do
    let offer ← okOr a.snapshot.offer (.refused (corruptRecord .task "missing offer"))
    let r ← if offer.policyRevision = r.revision then
        r.withdraw (.drift .task .offerCounterUnderflow) else .ok r
    let a ← a.unreserved.bump now
    let r ← r.refill now
    return (a, r.wake now, true)

def isOccupying (a : TaskAdmissionRequest) : Bool :=
  a.snapshot.state = .possiblyDispatched || a.snapshot.state = .unknownOccupied

def releaseStarted (a : TaskAdmissionRequest) (r : Resource) (now : Nat) :
    Outcome (TaskAdmissionRequest × Resource × Bool) :=
  if a.isOccupying = false then .ok (a, r, false)
  else do
    let r ← r.release a.charge.lost (.drift .task .startedCounterUnderflow)
      (.drift .task .unknownCounterUnderflow)
    let r ← r.refill now
    return ({ a with checkAt := none }, r.wake now, true)

def ready (task : Option TaskSnapshot) : Outcome Unit := do
  let task ← okOr task (.refused (corruptRecord .task "missing task delivery projection"))
  refuse (task.state ≠ .queued ∨ task.cancelRequestedAt ≠ none)
    (.refused (corruptRecord .task "task delivery eligibility"))

def repark (a : TaskAdmissionRequest) (r : Resource) (task : Option TaskSnapshot) (now : Nat) :
    Outcome (TaskAdmissionRequest × Resource) := do
  let (a, r, _) ← a.releaseOffer r now
  if a.snapshot.state = .waiting then do
    let later ← okOr (checkedAdd u64Max now taskAdmissionDeferralBackoffMs)
      (.refused (corruptRecord .task "rewait deadline overflow"))
    ready task
    let availableAt := max a.availableAt later
    return ({ a with availableAt, lastRewaitAt := some availableAt }, r)
  else return (a, r)

def Lapsed (offer : TaskAdmissionOffer) (r : Resource) (now : Nat) : Prop :=
  offer.policyRevision ≠ r.revision ∨ r.record.policy.enabled = false ∨ offer.expiresAt ≤ now

instance (offer : TaskAdmissionOffer) (r : Resource) (now : Nat) : Decidable (Lapsed offer r now) :=
  inferInstanceAs (Decidable (_ ∨ _ ∨ _))

def validateCandidate (a : TaskAdmissionRequest) (r : Resource) (task : TaskSnapshot)
    (dispatchEnabled : Bool) (now : Nat) : Outcome (TaskAdmissionRequest × Resource × Bool) := do
  refuse (now < r.highWater ∨ now < a.snapshot.updatedAt)
    (.refused (.unavailable "task admission clock has not reached its high-water mark"))
  if a.snapshot.state = .waiting then return (a, r, false)
  else do
    refuse (a.snapshot.state ≠ .offered)
      (.refused (corruptRecord .task "queued task lacks a recoverable admission offer or wait"))
    let offer ← okOr a.snapshot.offer (.refused (corruptRecord .task "missing candidate offer"))
    if dispatchEnabled = false ∨ Lapsed offer r now then do
      let (a, r) ← a.repark r (some task) now
      return (a, r, false)
    else return (a, r, true)

def deferLegacyClaim (a : TaskAdmissionRequest) (r : Resource) (task : TaskSnapshot)
    (sampled : Nat) : Outcome (TaskAdmissionRequest × Resource × Nat) := do
  let now := max (max sampled r.highWater) a.snapshot.updatedAt
  let (a, r) ← match a.snapshot.state, a.lastRewaitAt with
    | .offered, _ | .waiting, none => a.repark r (some task) now
    | .waiting, some _ => pure (a, r)
    | _, _ => .error (.refused (corruptRecord .task "queued task lacks durable broker wait"))
  let until' ← okOr a.lastRewaitAt
    (.refused (corruptRecord .task "missing durable legacy handoff time"))
  return (a, r, until')

def preparing (a : TaskAdmissionRequest) (offer : TaskAdmissionOffer) (attempt : AttemptSnapshot) :
    TaskAdmissionRequest :=
  { a with
    snapshot := { a.snapshot with
      offer := some { offer with expiresAt := attempt.deadline }
      owner := some attempt.lease.owner
      state := .preparing }
    checkAt := some (min attempt.lease.expiresAt attempt.deadline) }

def TaskAdmissionAssignment.validate (marker : TaskAdmissionAssignment) : Result Unit := do
  positive marker.offerGeneration
  resourceName marker.resource

def bindPreparation (a : TaskAdmissionRequest) (r : Resource) (attempt : AttemptSnapshot)
    (session : WorkerSession) (now : Nat) :
    Outcome (TaskAdmissionRequest × Resource × TaskAdmissionAssignment) := do
  refuse (taskAdmissionFeature ∉ session.features) (.refused .forbidden)
  let offer ← okOr a.snapshot.offer (.refused .conflict)
  refuse (a.snapshot.state ≠ .offered ∨ Lapsed offer r now ∨ now < r.highWater ∨
      now < a.snapshot.updatedAt)
    (.refused .conflict)
  let marker : TaskAdmissionAssignment := ⟨offer.generation, a.snapshot.resource⟩
  check (TaskAdmissionAssignment.validate marker)
  let a ← (a.preparing offer attempt).bump now
  return (a, r.wake now, marker)

def settleAttempt (a : TaskAdmissionRequest) (r : Resource) (task : TaskSnapshot)
    (attempt : AttemptSnapshot) (now : Nat) : Outcome (TaskAdmissionRequest × Resource) :=
  if attempt.state ≠ .active ∨ task.cancelRequestedAt.isSome ∨
      (a.snapshot.source = none ∧ attempt.settlement.isSome) then
    if a.snapshot.source = none then do
      let (a, r, _) ← a.releaseOffer r now
      return (a, r)
    else if a.snapshot.state = .possiblyDispatched then do
      let _ ← okOr (checkedAdd u64Max r.unknown 1)
        (.refused (corruptRecord .task "unknown count overflow"))
      let a ← { a.withState .unknownOccupied with checkAt := none }.bump now
      return (a, r.lose.wake now)
    else .ok (a, r)
  else .ok (a, r)

def closeUnassigned (a : TaskAdmissionRequest) (r : Resource) (now : Nat) :
    Outcome (TaskAdmissionRequest × Resource) := do
  let (a, r, _) ← a.releaseOffer r now
  let a ← { a.withState .closedBeforeStart with checkAt := none }.bump now
  return (a, r.wake now)

def ownedBy (task : TaskSnapshot) (owner : LeaseOwner) : Prop :=
  task.state = .active ∧ task.currentAttemptId = some owner.attemptId

instance (task : TaskSnapshot) (owner : LeaseOwner) : Decidable (ownedBy task owner) :=
  inferInstanceAs (Decidable (_ ∧ _))

def liveUntil (task : Option TaskSnapshot) (attempt : Option AttemptSnapshot) (owner : LeaseOwner)
    (counts : TaskSnapshot → Bool) (deadline : AttemptSnapshot → Nat) : Outcome (Option Nat) :=
  match task with
  | some task =>
    if ownedBy task owner ∧ counts task = true then do
      let attempt ← okOr attempt (.refused .notFound)
      return some (deadline attempt)
    else .ok none
  | none => .ok none

def preparationDeadline (attempt : AttemptSnapshot) : Nat :=
  min (min attempt.lease.expiresAt attempt.authorityDeadline) attempt.deadline

def sourceDeadline (attempt : AttemptSnapshot) : Nat :=
  min attempt.lease.expiresAt attempt.authorityDeadline

def offeredAt (a : TaskAdmissionRequest) (r : Resource) (generation now : Nat) :
    TaskAdmissionRequest :=
  { a with
    offerGeneration := generation
    snapshot := { a.snapshot with
      state := .offered
      offer := some ⟨generation, r.revision, now + r.record.policy.offerTimeoutMs⟩ } }

structure TickContext where
  dispatch : Bool
  task : Option TaskSnapshot
  attempt : Option AttemptSnapshot
  /-- Under the locks, the request still comes first in the order of offers. -/
  wins : Bool
  now : Nat

def tickOffer (a : TaskAdmissionRequest) (r : Resource) (x : TickContext) :
    Outcome (TaskAdmissionRequest × Resource) := do
  let offer ← okOr a.snapshot.offer (.refused (corruptRecord .task "scheduled offer"))
  if Lapsed offer r x.now then a.repark r x.task x.now
  else if a.snapshot.state = .preparing ∧ a.checkAt.any (· ≤ x.now) then do
    let owner ← okOr a.snapshot.owner (.refused (corruptRecord .task "preparation owner"))
    let live ← liveUntil x.task x.attempt owner (fun _ => true) preparationDeadline
    match live.filter (x.now < ·) with
    | some next => return ({ a with checkAt := some next }, r)
    | none => do
      let (a, r, _) ← a.releaseOffer r x.now
      return (a, r)
  else return (a, r)

def tickSource (a : TaskAdmissionRequest) (r : Resource) (x : TickContext) :
    Outcome (TaskAdmissionRequest × Resource) :=
  if a.checkAt.any (· ≤ x.now) then do
    let owner ← okOr a.snapshot.owner (.refused (corruptRecord .task "start owner"))
    let live ← liveUntil x.task x.attempt owner (fun task => task.cancelRequestedAt.isNone)
      sourceDeadline
    match live.filter (x.now < ·) with
    | some next => return ({ a with checkAt := some next }, r)
    | none => do
      let _ ← okOr (checkedAdd u64Max r.unknown 1)
        (.refused (corruptRecord .task "unknown count overflow"))
      let a ← { a.withState .unknownOccupied with checkAt := none }.bump x.now
      return (a, r.lose)
  else .ok (a, r)

def tickWaiting (a : TaskAdmissionRequest) (r : Resource) (x : TickContext) :
    Outcome (TaskAdmissionRequest × Resource) := do
  let task ← okOr x.task (.refused (corruptRecord .task "waiting task is missing"))
  if task.state ≠ .queued ∨ task.cancelRequestedAt ≠ none ∨
      task.attemptCount + 1 ≠ a.occurrence.generation then do
    let a ← (a.withState .closedBeforeStart).bump x.now
    return (a, r)
  else if a.availableAt ≠ 0 ∧ a.availableAt ≤ x.now then
    return ({ a with availableAt := 0 }, r)
  else if a.availableAt = 0 ∧ x.dispatch = true ∧ r.record.policy.enabled = true then do
    let capacity ← check r.capacity
    if 0 < capacity ∧ x.wins = true then do
      let generation ← okOr (checkedAdd u64Max a.offerGeneration 1)
        (.refused (corruptRecord .task "offer generation overflow"))
      let _ ← okOr (checkedAdd u64Max x.now r.record.policy.offerTimeoutMs)
        (.refused (corruptRecord .task "offer expiry overflow"))
      let a ← (a.offeredAt r generation x.now).bump x.now
      let _ ← okOr (checkedAdd u64Max r.offered 1)
        (.refused (corruptRecord .task "offer count overflow"))
      ready x.task
      return (a, r.offer)
    else return (a, r)
  else return (a, r)

/-- `tick`, before the next due time is computed. -/
def tick (a : TaskAdmissionRequest) (r : Resource) (x : TickContext) :
    Outcome (TaskAdmissionRequest × Resource) := do
  let r ← r.refill x.now
  match a.snapshot.state with
  | .offered | .preparing => a.tickOffer r x
  | .possiblyDispatched => a.tickSource r x
  | .waiting => a.tickWaiting r x
  | .unknownOccupied | .finished | .closedBeforeStart | .administrativelyReleased => return (a, r)

end TaskAdmissionRequest
end Ledgence

/-! Start, Close and operator release of a task's request. -/

namespace Ledgence

namespace TaskAdmissionSource

def matchesCommand (source : TaskAdmissionSource) (c : TaskAdmissionStartCommand) : Bool :=
  source.owner = c.owner && source.offerGeneration = c.offerGeneration && source.startId = c.startId

end TaskAdmissionSource

namespace TaskAdmissionStartReceipt

def GrantConsistent (source : TaskAdmissionSource) (authority : Authority) : Prop :=
  authority.remainingMs ≤ authority.expiresAt ∧ authority.owner = source.owner ∧
    authority.dispatchAllowed = true ∧ authority.cancelRequested = false ∧
    authority.remainingMs ≠ 0 ∧ authority.executionRemainingMs ≠ 0 ∧
    source.startDeadlineAt ≤ authority.expiresAt ∧
    source.acceptedAt ≤ authority.expiresAt - authority.remainingMs ∧
    authority.expiresAt - authority.remainingMs < source.startDeadlineAt ∧
    source.startDeadlineAt - (authority.expiresAt - authority.remainingMs) ≤
      authority.executionRemainingMs

instance (source : TaskAdmissionSource) (authority : Authority) :
    Decidable (GrantConsistent source authority) :=
  inferInstanceAs (Decidable (_ ∧ _ ∧ _ ∧ _ ∧ _ ∧ _ ∧ _ ∧ _ ∧ _ ∧ _))

def validate : TaskAdmissionStartReceipt → Result Unit
  | .granted source authority => do
    source.validate
    refuse (¬ GrantConsistent source authority)
      (invalid "invalid task admission invocation authority")
    taskAdmissionTime authority.expiresAt
  | .existing snapshot => snapshot.validate

def Matches (c : TaskAdmissionStartCommand) : TaskAdmissionStartReceipt → Prop
  | .granted source _ => source.matchesCommand c = true
  | .existing snapshot =>
    TaskAdmissionOccurrence.ofOwner c.owner = snapshot.occurrence ∧ snapshot.owner = some c.owner ∧
      (snapshot.offer.any fun offer => offer.generation = c.offerGeneration) ∧
      (snapshot.source.all fun source => source.matchesCommand c) ∧
      snapshot.close.all fun close => close.startId = c.startId

instance (c : TaskAdmissionStartCommand) (receipt : TaskAdmissionStartReceipt) :
    Decidable (receipt.Matches c) := by
  cases receipt <;> unfold Matches <;> exact inferInstance

def validateFor (receipt : TaskAdmissionStartReceipt) (c : TaskAdmissionStartCommand) :
    Result Unit := do
  receipt.validate
  c.validate
  refuse (¬ receipt.Matches c) .conflict

end TaskAdmissionStartReceipt

namespace TaskAdmissionRequest

def checkActor (a : TaskAdmissionRequest) (owner : LeaseOwner) (generation : Nat) : Result Unit :=
  refuse (a.snapshot.owner ≠ some owner ∨ a.snapshot.offer.all fun o => o.generation ≠ generation)
    .conflict

abbrev StartOutcome :=
  Outcome (TaskAdmissionRequest × Resource × Option TaskWrites × TaskAdmissionStartReceipt)

def existing (a : TaskAdmissionRequest) (r : Resource) (writes : Option TaskWrites)
    (c : TaskAdmissionStartCommand) : StartOutcome := do
  let receipt := .existing a.snapshot
  check (TaskAdmissionStartReceipt.validateFor receipt c)
  return (a, r, writes, receipt)

def denyStart (a : TaskAdmissionRequest) (r : Resource) (c : TaskAdmissionStartCommand)
    (task : TaskSnapshot) (attempt : AttemptSnapshot) (reason : RunBudgetDenial) (now : Nat) :
    StartOutcome := do
  let transition ← check (denyTaskAdmission task attempt c.owner reason now)
  let (a, r, _) ← a.releaseOffer r now
  let a ← { a with
    snapshot := { a.snapshot with budgetDenial := some reason }
    startCommand := some c
    checkAt := none }.bump now
  a.existing (r.wake now) (some transition.taskWrites) c

def newSource (a : TaskAdmissionRequest) (r : Resource) (c : TaskAdmissionStartCommand)
    (x : TaskStartContext) (attempt : AttemptSnapshot) (budgetDeadline : Option Nat) (now : Nat) :
    TaskAdmissionSource where
  owner := c.owner
  offerGeneration := c.offerGeneration
  resource := a.snapshot.resource
  startId := c.startId
  sourceId := x.sourceId
  acceptedAt := now
  startDeadlineAt := min (min (min (min (now + r.record.policy.startTimeoutMs) attempt.deadline)
    attempt.lease.expiresAt) attempt.authorityDeadline) (budgetDeadline.getD u64Max)

def dispatched (a : TaskAdmissionRequest) (c : TaskAdmissionStartCommand)
    (source : TaskAdmissionSource) (attempt : AttemptSnapshot) : TaskAdmissionRequest :=
  { a with
    snapshot := { a.snapshot with source := some source, state := .possiblyDispatched }
    checkAt := some (min attempt.lease.expiresAt attempt.authorityDeadline)
    startCommand := some c }

def grant (a : TaskAdmissionRequest) (r : Resource) (c : TaskAdmissionStartCommand)
    (x : TaskStartContext) (task : TaskSnapshot) (attempt : AttemptSnapshot)
    (session : WorkerSession) (budgetDeadline : Option Nat) (now : Nat) : StartOutcome := do
  let transition ← check (startTaskAdmission task attempt c.owner now)
  let r ← r.refill now
  refuse (r.offered = 0) (.drift .task .missingPreparationOccupancy)
  let r ← r.spend (corruptRecord .task "rate credit")
  let _ ← okOr (checkedAdd u64Max now r.record.policy.startTimeoutMs)
    (.refused (corruptRecord .task "start time overflow"))
  let source := a.newSource r c x attempt budgetDeadline now
  check source.validate
  let _ ← okOr (checkedAdd u64Max r.started 1) (.refused (corruptRecord .task "started count overflow"))
  let a ← (a.dispatched c source attempt).bump now
  refuse (x.finalNow < now ∨ source.startDeadlineAt ≤ x.finalNow ∨ session.expiresAt ≤ x.finalNow)
    (.refused .ownershipLost)
  let authority := { transition.reply with
    remainingMs := transition.reply.expiresAt - x.finalNow
    executionRemainingMs := attempt.deadline - x.finalNow }
  let receipt := .granted source authority
  check (TaskAdmissionStartReceipt.validateFor receipt c)
  return (a, r.start.wake now, some transition.taskWrites, receipt)

def startPrepared (a : TaskAdmissionRequest) (r : Resource) (c : TaskAdmissionStartCommand)
    (x : TaskStartContext) (offer : TaskAdmissionOffer) : StartOutcome := do
  let task ← okOr x.task (.refused .ownershipLost)
  let session ← okOr x.session (.refused .ownershipLost)
  refuse (taskAdmissionFeature ∉ session.features ∨ session.expiresAt ≤ x.now)
    (.refused .ownershipLost)
  let attempt ← okOr x.attempt (.refused .notFound)
  let budget := if task.input.budget.isSome then x.budget else .ok none
  match budget with
  | .error reason => a.denyStart r c task attempt reason x.deniedAt
  | .ok budgetDeadline => do
    let now := if task.input.budget.isSome then x.budgetNow else x.now
    refuse (offer.expiresAt ≤ now ∨ session.expiresAt ≤ now) (.refused .ownershipLost)
    a.grant r c x task attempt session budgetDeadline now

/-- `start_task_admission_once` -/
def startTask (a : TaskAdmissionRequest) (r : Resource) (c : TaskAdmissionStartCommand)
    (x : TaskStartContext) : StartOutcome := do
  check c.validate
  check (a.checkActor c.owner c.offerGeneration)
  match a.startCommand with
  | some accepted => do
    refuse (accepted ≠ c) (.refused .conflict)
    a.existing r none c
  | none => do
    refuse (a.snapshot.close.any fun close => close.startId ≠ c.startId) (.refused .conflict)
    if a.snapshot.state ≠ .preparing ∨ a.closeCommand.isSome then a.existing r none c
    else do
      refuse (x.dispatchEnabled = false)
        (.refused (.unavailable "task admission dispatch is quarantined"))
      refuse (x.now < r.highWater ∨ x.now < a.snapshot.updatedAt)
        (.refused (.unavailable "task admission clock has not reached its high-water mark"))
      let offer ← okOr a.snapshot.offer (.refused (corruptRecord .task "preparation offer"))
      if Lapsed offer r x.now then do
        let (a, r, _) ← a.releaseOffer r x.now
        a.existing r none c
      else a.startPrepared r c x offer

structure CloseContext where
  task : Option TaskSnapshot
  attempt : Option AttemptSnapshot
  sampled : Nat

def closeStartedTransition (c : TaskAdmissionCloseCommand) (x : CloseContext) (now : Nat) :
    Outcome (Option TaskWrites) :=
  match c.outcome, x.task with
  | .notInvoked, some task => do
    let attempt ← okOr x.attempt (.refused .notFound)
    let t ← check (stopStartedTaskAdmission task attempt c.owner now)
    return some t.taskWrites
  | _, _ => .ok none

def closeUnstartedTransition (a : TaskAdmissionRequest) (c : TaskAdmissionCloseCommand)
    (x : CloseContext) (now : Nat) :
    Outcome (Option TaskWrites × TaskAdmissionCloseDisposition) :=
  if a.snapshot.budgetDenial.isSome then do
    let original ← okOr a.startCommand (.refused (corruptRecord .task "missing budget denial command"))
    refuse (original.startId ≠ c.startId) (.refused .conflict)
    match x.task with
    | some task => do
      let attempt ← okOr x.attempt (.refused .notFound)
      let t ← check (confirmDeniedTaskQuiescence task attempt c.owner now)
      return (some t.taskWrites, .closed)
    | none => return (none, .closed)
  else
    match c.outcome, x.task with
    | .notInvoked, some task => do
      let attempt ← okOr x.attempt (.refused .notFound)
      if ownedBy task c.owner ∧ attempt.settlement.isNone then do
        let t ← check (deferTaskAdmission task attempt c.owner .confirmed now)
        return (some t.taskWrites,
          if t.attempt.any fun v => v.state = .deferred then .deferred else .closed)
      else return (none, .closed)
    | .quiescent, some task =>
      if ownedBy task c.owner then do
        let attempt ← okOr x.attempt (.refused .notFound)
        if attempt.settlement.isSome ∧ attempt.quiescence = .unconfirmed ∧
            x.sampled < min attempt.lease.expiresAt attempt.authorityDeadline then do
          let t ← check (confirmQuiescence task attempt c.owner x.sampled)
          return (some t.taskWrites, .closed)
        else return (none, .closed)
      else .ok (none, .closed)
    | _, none => .ok (none, .closed)

def closeReceipt (a : TaskAdmissionRequest) (c : TaskAdmissionCloseCommand)
    (disposition : TaskAdmissionCloseDisposition) (now : Nat) : TaskAdmissionCloseReceipt where
  owner := c.owner
  offerGeneration := c.offerGeneration
  startId := c.startId
  operationId := c.operationId
  outcome := c.outcome
  source := a.snapshot.source
  disposition
  acceptedAt := now
  alreadyAccepted := false

abbrev CloseOutcome :=
  Outcome (TaskAdmissionRequest × Resource × Option TaskWrites × TaskAdmissionCloseReceipt)

def closed (a : TaskAdmissionRequest) (r : Resource) (c : TaskAdmissionCloseCommand)
    (writes : Option TaskWrites) (disposition : TaskAdmissionCloseDisposition) (now : Nat) :
    CloseOutcome := do
  let receipt := a.closeReceipt c disposition now
  check receipt.validate
  let a ← { a with
    closeCommand := some c
    snapshot := { a.snapshot with close := some receipt } }.bump now
  return (a, r.wake now, writes, receipt)

def closeStarted (a : TaskAdmissionRequest) (r : Resource) (c : TaskAdmissionCloseCommand)
    (x : CloseContext) (now : Nat) : CloseOutcome := do
  let (a, r, released) ← a.releaseStarted r now
  let a := if released then a.withState .finished else a
  let writes ← closeStartedTransition c x now
  let disposition := if released = false then .alreadyReleased
    else if c.outcome = .notInvoked then .chargedNotInvoked else .released
  a.closed r c writes disposition now

def closeUnstarted (a : TaskAdmissionRequest) (r : Resource) (c : TaskAdmissionCloseCommand)
    (x : CloseContext) (now : Nat) : CloseOutcome := do
  let (a, r, _) ← a.releaseOffer r now
  let a := { a.withState .closedBeforeStart with checkAt := none }
  let (writes, disposition) ← a.closeUnstartedTransition c x now
  a.closed r c writes disposition now

/-- `close_task_admission_once` -/
def closeTask (a : TaskAdmissionRequest) (r : Resource) (c : TaskAdmissionCloseCommand)
    (x : CloseContext) : CloseOutcome := do
  check c.validate
  -- Cleanup is evidence: its time stays monotone when the clock falls back.
  let now := max (max x.sampled a.snapshot.updatedAt) r.highWater
  check (a.checkActor c.owner c.offerGeneration)
  match a.closeCommand with
  | some accepted => do
    refuse (accepted ≠ c) (.refused .conflict)
    let receipt ← okOr a.snapshot.close (.refused (corruptRecord .task "close replay"))
    return (a, r, none, { receipt with alreadyAccepted := true })
  | none => do
    refuse (a.snapshot.source.any fun s => s.startId ≠ c.startId) (.refused .conflict)
    if a.snapshot.source.isSome then a.closeStarted r c x now
    else a.closeUnstarted r c x now

/-- `release_task_admission_once`, when its receipt is new. -/
def releaseTask (a : TaskAdmissionRequest) (r : Resource) (sourceId : String)
    (expectedRevision sampled : Nat) : Outcome (TaskAdmissionRequest × Resource) := do
  refuse (a.snapshot.revision ≠ expectedRevision ∨
      a.snapshot.source.map TaskAdmissionSource.sourceId ≠ some sourceId ∨ a.isOccupying = false)
    (.refused .conflict)
  let now := max (max sampled a.snapshot.updatedAt) r.highWater
  let (a, r, _) ← a.releaseStarted r now
  let a ← (a.withState .administrativelyReleased).bump now
  return (a, r)

end TaskAdmissionRequest
end Ledgence
