import Ledgence.Kit.Table
import Ledgence.Ledger.TaskAccounts

/-! One shared resource with all its requests, and the transactions on them. The resource row is
locked first, so each transaction is one step; one that fails leaves nothing behind. -/
open Kit Kit.Checked

namespace Ledgence

structure Ledger where
  resource : Option Resource
  requests : List AdmissionRequest
  taskRequests : List TaskAdmissionRequest
  deriving DecidableEq

def AdmissionRequest.dueTimes (a : AdmissionRequest) (r : Resource) (now : Nat) : List Nat :=
  match a.snapshot.state, a.snapshot.offer with
  | .offered, some offer =>
    (if offer.policyRevision < r.revision then [now] else []) ++ [offer.expiresAt]
  | .possiblyDispatched, _ => a.checkAt.toList
  | .waiting, _ =>
    a.snapshot.deadlineAt ::
      if r.record.policy.fairSharing.isSome then a.shortEpisodeDeadline.toList else []
  | _, _ => []

/-- `task_admission_due.sql`, one request at a time. -/
def TaskAdmissionRequest.dueTimes (a : TaskAdmissionRequest) (r : Resource) (now : Nat) : List Nat :=
  let stale := if a.snapshot.offer.any fun o => o.policyRevision < r.revision then [now] else []
  match a.snapshot.state with
  | .offered => stale ++ (a.snapshot.offer.map TaskAdmissionOffer.expiresAt).toList
  | .preparing => stale ++ a.checkAt.toList
  | .possiblyDispatched => a.checkAt.toList
  | .waiting => if 0 < a.availableAt then [a.availableAt] else []
  | .unknownOccupied | .finished | .closedBeforeStart | .administrativelyReleased => []

structure ResourcePutCommand where
  scope : Scope
  name : String
  requestId : String
  expectedRevision : Option Nat
  policy : ResourcePolicy
  reason : String
  deriving DecidableEq

def ResourcePutCommand.validate (c : ResourcePutCommand) : Result Unit := do
  c.scope.validate
  resourceName c.name
  validateText c.requestId 128
  validateText c.reason 1024
  c.policy.validate
  ifSome c.expectedRevision fun revision => do
    positive revision
    let next ← okOr (checkedAdd u64Max revision 1) (invalid "resource revision overflow")
    positive next

namespace Resource

def created (c : ResourcePutCommand) (now : Nat) : Resource where
  record := ⟨c.scope, c.name, 1, c.policy, now⟩
  credit := c.policy.rate.map ResourceRate.capacity
  highWater := now
  offered := 0
  started := 0
  unknown := 0
  due := none
  quarantinedDue := none

def changed (r : Resource) (c : ResourcePutCommand) (now : Nat) : Outcome Resource := do
  let bucket ← check (changeAdmissionRate r.bucket r.record.policy.rate c.policy.rate now)
  let next : Resource := { r with
    record := ⟨c.scope, c.name, r.revision + 1, c.policy, max now r.record.updatedAt⟩
    credit := bucket.map AdmissionBucket.credit
    highWater := max ((bucket.map AdmissionBucket.highWaterAt).getD (max now r.highWater)) r.highWater
    offered := 0 }
  return next.wake now

end Resource

namespace ResourceFairSharing

def divisor (p : ResourceFairSharing) : Nat :=
  p.groups.foldl (fun d group => Nat.gcd d group.weight) 0

def sameGroup (a b : ResourceFairSharing) (left right : ResourceFairGroup) : Bool :=
  left.name = right.name && left.weight / a.divisor = right.weight / b.divisor &&
    (left.name = a.defaultGroup ||
      (left.queues.length = right.queues.length && left.queues.all fun q => right.queues.contains q))

def sameRotation : Option ResourceFairSharing → Option ResourceFairSharing → Bool
  | some a, some b => a.defaultGroup = b.defaultGroup && a.groups.length = b.groups.length &&
      (a.groups.zip b.groups).all fun pair => sameGroup a b pair.1 pair.2
  | none, none => true
  | _, _ => false

end ResourceFairSharing

/-- `reclassify` recovers the deadline of an open wait that is shorter than its request's. -/
def AdmissionRequest.reclassified (short : AdmissionOccurrence → Option Nat) (a : AdmissionRequest) :
    AdmissionRequest :=
  match a.snapshot.state with
  | .waiting => { a with shortEpisodeDeadline := short a.occurrence }
  | .awaitingRewait | .offered => { a with shortEpisodeDeadline := none }
  | .possiblyDispatched | .unknownOccupied | .finished | .closedBeforeStart
  | .administrativelyReleased => a

namespace Ledger
variable (l : Ledger)

def init : Ledger := ⟨none, [], []⟩

def lock : Outcome Resource := do
  let r ← okOr l.resource (.refused .notFound)
  r.row

def lockNamed (name : String) : Outcome Resource := do
  let r ← okOr (l.resource.filter fun r => r.record.name = name) (.refused .notFound)
  r.row

def request (o : AdmissionOccurrence) : Outcome AdmissionRequest := do
  let a ← okOr (Table.find AdmissionRequest.occurrence o l.requests) (.refused .notFound)
  check a.snapshot.validate
  return a

def taskRequest (o : TaskAdmissionOccurrence) : Outcome TaskAdmissionRequest := do
  let a ← okOr (Table.find TaskAdmissionRequest.occurrence o l.taskRequests) (.refused .notFound)
  check a.snapshot.validate
  return a

def saveResource (r : Resource) : Outcome Ledger := do
  let r ← r.save
  return { l with resource := some r }

def saveRequest (a : AdmissionRequest) : Outcome Ledger := do
  wellFormed a.snapshot.validate
  return { l with requests := Table.put AdmissionRequest.occurrence a l.requests }

def saveTaskRequest (a : TaskAdmissionRequest) : Outcome Ledger := do
  wellFormed a.snapshot.validate
  return { l with taskRequests := Table.put TaskAdmissionRequest.occurrence a l.taskRequests }

def onRequest (o : AdmissionOccurrence)
    (op : AdmissionRequest → Resource → Outcome (AdmissionRequest × Resource)) : Outcome Ledger := do
  let r ← l.lock
  let a ← l.request o
  let (a, r) ← op a r
  -- Writing back rows that did not change changes nothing.
  let l ← l.saveRequest a
  l.saveResource r

def onTask {α : Type} (r : Resource) (o : TaskAdmissionOccurrence)
    (op : TaskAdmissionRequest → Resource → Outcome (TaskAdmissionRequest × Resource × α)) :
    Outcome (Ledger × α) := do
  let a ← l.taskRequest o
  let (a, r, x) ← op a r
  let l ← l.saveTaskRequest a
  let l ← l.saveResource r
  return (l, x)

def dueTimes (r : Resource) (now : Nat) : List Nat :=
  l.requests.flatMap (·.dueTimes r now) ++ l.taskRequests.flatMap (·.dueTimes r now)

def waiting : Bool :=
  (l.requests.any fun a => a.snapshot.state = .waiting) ||
    l.taskRequests.any fun a => a.snapshot.state = .waiting && a.availableAt = 0

def refreshDue (r : Resource) (now : Nat) : Outcome Resource := do
  let due := (l.dueTimes r now).min?
  if r.record.policy.enabled = true ∧ l.waiting = true then do
    let capacity ← check r.capacity
    let next ← if 0 < capacity then .ok (some now) else
      check (nextAdmissionRefill r.record.policy r.bucket r.offered (r.offered + r.started) now)
    return { r with quarantinedDue := due, due := (due.toList ++ next.toList).min? }
  else return { r with quarantinedDue := due, due }

def settle (r : Resource) (now : Nat) : Outcome Ledger := do
  let r ← l.refreshDue r now
  l.saveResource r

def postpone (r : Resource) (at' : Nat) : Outcome Ledger :=
  l.saveResource (r.wake at')

/-- `admission_tick`, when a workflow's request or none comes first. -/
def tick (candidate : Option AdmissionOccurrence) (x : AdmissionTick) : Outcome Ledger := do
  let r ← l.lock
  if x.now < r.highWater then l.postpone r r.highWater
  else do
    let r ← r.refill x.now
    match candidate with
    | none => l.settle r x.now
    | some o => do
      let a ← l.request o
      if x.now < a.snapshot.updatedAt then l.postpone r a.snapshot.updatedAt
      else do
        let (a, r) ← a.tick r x
        let l ← l.saveRequest a
        l.settle r x.now

/-- `task_admission::tick` -/
def taskTick (o : TaskAdmissionOccurrence) (x : TaskAdmissionRequest.TickContext) :
    Outcome Ledger := do
  let r ← l.lock
  let a ← l.taskRequest o
  if x.now < r.highWater ∨ x.now < a.snapshot.updatedAt then
    l.postpone r (max r.highWater a.snapshot.updatedAt)
  else do
    let (a, r) ← a.tick r x
    let l ← l.saveTaskRequest a
    l.settle r x.now

/-- `put_resource`. `short` gives the open waits that end before their requests do. -/
def putResource (c : ResourcePutCommand) (short : AdmissionOccurrence → Option Nat) (now : Nat) :
    Outcome Ledger := do
  check c.validate
  match l.resource with
  | none => do
    refuse c.expectedRevision.isSome (.refused .conflict)
    let r ← (Resource.created c now).refill now
    l.saveResource r
  | some stored => do
    let old ← stored.row
    refuse (c.expectedRevision ≠ some old.revision ∨ c.scope ≠ old.record.scope ∨
        c.name ≠ old.record.name) (.refused .conflict)
    let r ← old.changed c now
    let _ ← l.saveResource r
    let r ← r.refill now
    let reordered := ResourceFairSharing.sameRotation old.record.policy.fairSharing
      c.policy.fairSharing = false ∧ c.policy.fairSharing.isSome
    let requests := if reordered then l.requests.map (·.reclassified short) else l.requests
    { l with requests }.saveResource r

/-- `install_wait` for a new request. -/
def installNew (o : AdmissionOccurrence) (binding : AdmissionBinding) (parking resumed : String)
    (timeoutMs now : Nat) : Outcome Ledger := do
  let r ← l.lock
  let r ← r.refill now
  let until' ← okOr (checkedAdd u64Max now timeoutMs)
    (.refused (invalid "admission timeout overflow"))
  let a := AdmissionRequest.registered o binding parking now until'
  check a.snapshot.validate
  refuse (o ∈ l.requests.map AdmissionRequest.occurrence) (.refused .conflict)
  let (a, r) ← a.installEpisode r parking resumed until' now
  wellFormed a.snapshot.validate
  { l with requests := l.requests ++ [a] }.saveResource r

/-- `install_wait` for an existing request. -/
def installExisting (o : AdmissionOccurrence) (parking resumed : String) (timeoutMs now : Nat) :
    Outcome Ledger :=
  l.onRequest o fun a r => do
    let r ← r.refill now
    let until' ← okOr (checkedAdd u64Max now timeoutMs)
      (.refused (invalid "admission timeout overflow"))
    let (a, r) ← a.rewait r parking now
    a.installEpisode r parking resumed until' now

/-- `drain` closes the requests that the run still has open, one after the other, and `close_wait` the
one that it is parked at. -/
def drain (os : List AdmissionOccurrence) (now : Nat) : Outcome Ledger :=
  os.foldlM (fun l o => l.onRequest o fun a r => a.closeParked r now) l

def nextOccurrence (task : TaskSnapshot) : Outcome TaskAdmissionOccurrence := do
  refuse (maxTaskAttemptGeneration < task.attemptCount + 1)
    (.refused (corruptRecord .task "attempt generation exhausted"))
  return ⟨task.scope, task.taskId, task.attemptCount + 1⟩

/-- `register`: an accepted or requeued task waits for the resource it needs. -/
def register (task : TaskSnapshot) (now : Nat) : Outcome Ledger :=
  match task.input.admission with
  | none => .ok l
  | some requirement => do
    refuse (task.workflowId ≠ none ∨ task.workflowActivationId ≠ none ∨ task.providerProbe ≠ none)
      (.refused (invalid "task admission requires a standalone task"))
    let o ← nextOccurrence task
    let r ← l.lockNamed requirement.resource
    let a := TaskAdmissionRequest.registered task requirement.resource now
    check a.snapshot.validate
    refuse (o ∈ l.taskRequests.map TaskAdmissionRequest.occurrence) (.refused .conflict)
    { l with taskRequests := l.taskRequests ++ [a] }.saveResource (r.wake (max now r.highWater))

def changedFor (w : TaskWrites) (reason : TransitionReason) : Bool :=
  w.history.any fun event => event.reason = reason

/-- The clock samples of `apply_transition`. -/
structure ApplyClock where
  sampled : Nat
  registeredAt : Nat

def applyToRequest (w : TaskWrites) (resource : String) (at' : Nat) (x : ApplyClock) :
    Outcome Ledger :=
  match w.attempt with
  | some attempt => do
    let r ← l.lockNamed resource
    let (l, _) ← l.onTask r (.ofOwner attempt.lease.owner) fun a r => do
      let (a, r) ← a.settleAttempt r w.task attempt (max x.sampled at')
      return (a, r, ())
    return l
  | none =>
    if w.task.state = .cancelled then do
      let o ← nextOccurrence w.task
      let r ← l.lockNamed resource
      let (l, _) ← l.onTask r o fun a r => do
        let (a, r) ← a.closeUnassigned r x.sampled
        return (a, r, ())
      return l
    else .ok l

def applyTransition (w : TaskWrites) (x : ApplyClock) : Outcome Ledger :=
  match w.task.input.admission, w.history.getLast? with
  | none, _ | _, none => .ok l
  | some requirement, some last =>
    if changedFor w .claimed = true ∨ changedFor w .dispatchAuthorized = true then .ok l
    else do
      let l ← l.applyToRequest w requirement.resource last.at' x
      if w.task.state = .queued ∧
          (changedFor w .retryScheduled = true ∨ changedFor w .admissionDeferred = true) then
        l.register w.task x.registeredAt
      else return l

def applyWrites (writes : Option TaskWrites) (x : ApplyClock) : Outcome Ledger :=
  match writes with
  | some w => l.applyTransition w x
  | none => .ok l

def startTask (c : TaskAdmissionStartCommand) (x : TaskStartContext) (clock : ApplyClock) :
    Outcome Ledger := do
  let r ← l.lock
  let (l, writes) ← l.onTask r (.ofOwner c.owner) fun a r => do
    let (a, r, writes, _) ← a.startTask r c x
    return (a, r, writes)
  l.applyWrites writes clock

def closeTask (c : TaskAdmissionCloseCommand) (x : TaskAdmissionRequest.CloseContext)
    (clock : ApplyClock) : Outcome Ledger := do
  let r ← l.lock
  let (l, writes) ← l.onTask r (.ofOwner c.owner) fun a r => do
    let (a, r, writes, _) ← a.closeTask r c x
    return (a, r, writes)
  l.applyWrites writes clock

def validateCandidate (task : TaskSnapshot) (dispatchEnabled : Bool) (now : Nat) :
    Outcome Ledger :=
  match task.input.admission with
  | none => .ok l
  | some requirement => do
    let o ← nextOccurrence task
    let r ← l.lockNamed requirement.resource
    let (l, _) ← l.onTask r o fun a r => a.validateCandidate r task dispatchEnabled now
    return l

def deferLegacyClaim (task : TaskSnapshot) (sampled : Nat) : Outcome Ledger := do
  let o ← nextOccurrence task
  let requirement ← okOr task.input.admission (.refused (corruptRecord .task "missing broker requirement"))
  let r ← l.lockNamed requirement.resource
  let (l, _) ← l.onTask r o fun a r => a.deferLegacyClaim r task sampled
  return l

def bindPreparation (task : TaskSnapshot) (attempt : AttemptSnapshot) (session : WorkerSession)
    (now : Nat) : Outcome Ledger :=
  match task.input.admission with
  | none => .ok l
  | some requirement => do
    let r ← l.lockNamed requirement.resource
    let (l, _) ← l.onTask r (.ofOwner attempt.lease.owner) fun a r =>
      a.bindPreparation r attempt session now
    return l

def releaseTask (o : TaskAdmissionOccurrence) (sourceId : String)
    (expectedRevision sampled : Nat) : Outcome Ledger := do
  let r ← l.lock
  let (l, _) ← l.onTask r o fun a r => do
    let (a, r) ← a.releaseTask r sourceId expectedRevision sampled
    return (a, r, ())
  return l

end Ledger

/-- The transactions on one resource. What they read of other rows, fresh identities and the clock
are part of the command. -/
inductive LedgerCommand where
  | putResource (c : ResourcePutCommand) (short : AdmissionOccurrence → Option Nat) (now : Nat)
  | tick (candidate : Option AdmissionOccurrence) (x : AdmissionTick)
  | taskTick (o : TaskAdmissionOccurrence) (x : TaskAdmissionRequest.TickContext)
  | installNew (o : AdmissionOccurrence) (binding : AdmissionBinding) (parking resumed : String)
      (timeoutMs now : Nat)
  | installExisting (o : AdmissionOccurrence) (parking resumed : String) (timeoutMs now : Nat)
  | applyWait (o : AdmissionOccurrence) (parking resumed : String) (deadline now : Nat)
  | drain (os : List AdmissionOccurrence) (now : Nat)
  | start (c : AdmissionStartCommand) (x : StartContext)
  | finish (c : AdmissionFinishCommand) (now : Nat)
  | startProvider (c : AdmissionStartCommand) (x : StartContext) (claim : ProviderClaim)
      (budgetDeadline : Option Nat)
  | reportProvider (c : ProviderAdmissionReportCommand) (acceptedAt sampled : Nat)
  | inspect (o : AdmissionOccurrence) (now : Nat)
  | release (o : AdmissionOccurrence) (sourceId : String) (expectedRevision now : Nat)
  | register (task : TaskSnapshot) (now : Nat)
  | validateCandidate (task : TaskSnapshot) (dispatchEnabled : Bool) (now : Nat)
  | deferLegacyClaim (task : TaskSnapshot) (sampled : Nat)
  | bindPreparation (task : TaskSnapshot) (attempt : AttemptSnapshot) (session : WorkerSession)
      (now : Nat)
  | applyTransition (w : TaskWrites) (x : Ledger.ApplyClock)
  | startTask (c : TaskAdmissionStartCommand) (x : TaskStartContext) (clock : Ledger.ApplyClock)
  | closeTask (c : TaskAdmissionCloseCommand) (x : TaskAdmissionRequest.CloseContext)
      (clock : Ledger.ApplyClock)
  | releaseTask (o : TaskAdmissionOccurrence) (sourceId : String) (expectedRevision sampled : Nat)

namespace Ledger

def step (l : Ledger) : LedgerCommand → Outcome Ledger
  | .putResource c short now => l.putResource c short now
  | .tick candidate x => l.tick candidate x
  | .taskTick o x => l.taskTick o x
  | .installNew o binding parking resumed timeoutMs now =>
    l.installNew o binding parking resumed timeoutMs now
  | .installExisting o parking resumed timeoutMs now =>
    l.installExisting o parking resumed timeoutMs now
  | .applyWait o parking resumed deadline now =>
    l.onRequest o fun a r => a.applyWait r parking resumed deadline now
  | .drain os now => l.drain os now
  | .start c x => l.onRequest c.occurrence fun a r => do
    let (a, r, _) ← a.startAdmission r c x
    return (a, r)
  | .finish c now => l.onRequest c.source.occurrence fun a r => do
    let (a, r, _) ← a.finishAdmission r c now
    return (a, r)
  | .startProvider c x claim budgetDeadline => l.onRequest c.occurrence fun a r => do
    let (a, r, _) ← a.startProviderAdmission r c x claim budgetDeadline
    return (a, r)
  | .reportProvider c acceptedAt sampled => l.onRequest c.source.occurrence fun a r => do
    let (a, r, _) ← a.reportProviderAdmission r c acceptedAt sampled
    return (a, r)
  | .inspect o now => l.onRequest o fun a r => do
    let (a, r, _) ← a.invalidateOffer r now
    return (a, r)
  | .release o sourceId expectedRevision now =>
    l.onRequest o fun a r => a.releaseAdmission r sourceId expectedRevision now
  | .register task now => l.register task now
  | .validateCandidate task dispatchEnabled now => l.validateCandidate task dispatchEnabled now
  | .deferLegacyClaim task sampled => l.deferLegacyClaim task sampled
  | .bindPreparation task attempt session now => l.bindPreparation task attempt session now
  | .applyTransition w x => l.applyTransition w x
  | .startTask c x clock => l.startTask c x clock
  | .closeTask c x clock => l.closeTask c x clock
  | .releaseTask o sourceId expectedRevision sampled =>
    l.releaseTask o sourceId expectedRevision sampled

def run (l : Ledger) (commands : List LedgerCommand) : Outcome Ledger :=
  commands.foldlM step l

def Reachable (l : Ledger) : Prop :=
  ∃ commands, init.run commands = .ok l

end Ledger
end Ledgence
