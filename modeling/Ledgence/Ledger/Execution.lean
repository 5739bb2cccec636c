import Ledgence.Core.Basics
import Ledgence.Ledger.Requests

/-! Start, Finish and release of a workflow's request, and its provider counterparts. -/
open Kit Kit.Checked

namespace Ledgence

/-- The workflow and the activation that a command acts for, as `lock_activation` reads them. -/
structure ActivationAuthority where
  workflowId : String
  workflowState : WorkflowState
  activationId : Option String
  hasRunBudget : Bool
  taskState : TaskState
  currentAttemptId : Option String
  cancellationRequested : Bool
  attemptState : AttemptState
  settled : Bool
  expiresAt : Nat
  authorityDeadline : Nat
  executionDeadline : Nat
  executionMayHaveStarted : Bool

def ActivationAuthority.validUntil (x : ActivationAuthority) : Nat :=
  min (min x.expiresAt x.authorityDeadline) x.executionDeadline

def ActivationAuthority.checkLive (x : ActivationAuthority) (owner : LeaseOwner) (now : Nat) :
    Result Unit :=
  refuse (x.workflowState ≠ .running ∨ x.activationId ≠ some owner.taskId ∨
      x.taskState ≠ .active ∨ x.currentAttemptId ≠ some owner.attemptId ∨
      x.cancellationRequested = true ∨ x.attemptState ≠ .active ∨ x.settled = true ∨
      x.expiresAt ≤ now ∨ x.authorityDeadline ≤ now ∨ x.executionDeadline ≤ now ∨
      x.executionMayHaveStarted = false)
    .ownershipLost

inductive ProviderClaim where
  | dispatch (ticket : ProviderOperationTicket) (acceptedAt : Nat)
  | existing (ticket : ProviderOperationTicket)
  | denied (reason : RunBudgetDenial)
  | expired (observedAt : Nat)

/-- What a Start reads besides the resource and the request: other rows, fresh identities, and the
clock each time the transaction looks at it. -/
structure StartContext where
  dispatchEnabled : Bool
  activation : ActivationAuthority
  sourceId : String
  /-- The run budget's answer to one more call: its deadline, or why it is refused. -/
  budget : Except RunBudgetDenial (Option Nat)
  checkAt : Option Nat
  now : Nat
  budgetNow : Nat
  deniedAt : Nat
  finalNow : Nat
  recoveredAt : Nat
  recoveredNow : Nat

inductive AdmissionStartReceipt where
  | granted (source : AdmissionSource)
  | existing (snapshot : AdmissionSnapshot)
  deriving DecidableEq

namespace AdmissionRequest

def requireOperation (a : AdmissionRequest) : Result Unit :=
  refuse (a.snapshot.binding ≠ .operation)
    (invalid "protected provider admission requires the composed operation")

def requireProvider (a : AdmissionRequest) : Result Unit :=
  refuse (a.snapshot.binding = .operation)
    (invalid "operation admission requires generic Start/Finish")

def checkReplay (a : AdmissionRequest) (c : AdmissionStartCommand) : Result Unit := do
  refuse (a.snapshot.budgetDenial.isSome ∧ a.startCommand ≠ some c) .conflict
  ifSome a.snapshot.source fun source =>
    refuse ((source.startId = c.startId ∨ source.finishId = c.finishId) ∧ a.startCommand ≠ some c)
      .conflict

def checkProviderReplay (a : AdmissionRequest) (c : AdmissionStartCommand) : Result Unit :=
  ifSome a.startCommand fun old =>
    refuse ((old.startId = c.startId ∨ old.finishId = c.finishId) ∧ old ≠ c) .conflict

def Eligible (a : AdmissionRequest) (r : Resource) (c : AdmissionStartCommand) (now : Nat) : Prop :=
  (∃ offer ∈ a.snapshot.offer, offer.generation = c.offerGeneration ∧
      offer.activationId = c.owner.taskId ∧ offer.policyRevision = r.revision ∧
      now < offer.expiresAt) ∧
    r.record.policy.enabled = true ∧ now < a.snapshot.deadlineAt

instance (a : AdmissionRequest) (r : Resource) (c : AdmissionStartCommand) (now : Nat) :
    Decidable (a.Eligible r c now) :=
  inferInstanceAs (Decidable ((∃ offer ∈ a.snapshot.offer, _) ∧ _ ∧ _))

/-- Discard every tentative grant and debit, and keep only the expiry of the offer. -/
def recoverExpired (a : AdmissionRequest) (r : Resource) (c : AdmissionStartCommand)
    (x : StartContext) (observedAt : Nat) : Outcome (AdmissionRequest × Resource) := do
  refuse (x.recoveredAt < observedAt ∨ x.recoveredAt < r.highWater ∨
      x.recoveredAt < a.snapshot.updatedAt)
    (.refused (.unavailable "admission clock moved backwards"))
  check (x.activation.checkLive c.owner x.recoveredAt)
  let (a, r, invalidated) ← a.invalidateOffer r x.recoveredAt
  refuse (invalidated = false)
    (.refused (corruptRecord .workflow "expired admission retained a live offer"))
  refuse (x.recoveredNow < x.recoveredAt) (.refused (.unavailable "admission clock moved backwards"))
  check (x.activation.checkLive c.owner x.recoveredNow)
  return (a, r)

def closeBudgetOffer (a : AdmissionRequest) (r : Resource) (reason : RunBudgetDenial) (now : Nat) :
    Outcome (AdmissionRequest × Resource) := do
  let r ← r.withdraw (.drift .workflow .missingRunBudgetOffer)
  let a := a.withdrawn .closedBeforeStart
  let a ← { a with
    snapshot := { a.snapshot with budgetDenial := some reason }
    checkAt := none }.bump now
  let r ← (r.wake now).refill now
  return (a, r)

def newSource (r : Resource) (c : AdmissionStartCommand) (x : StartContext)
    (budgetDeadline : Option Nat) (now : Nat) : AdmissionSource where
  occurrence := c.occurrence
  sourceId := x.sourceId
  startId := c.startId
  finishId := c.finishId
  generation := c.offerGeneration
  owner := c.owner
  acceptedAt := now
  startDeadlineAt := min (min (now + r.record.policy.startTimeoutMs) x.activation.validUntil)
    (budgetDeadline.getD u64Max)

def dispatched (a : AdmissionRequest) (c : AdmissionStartCommand) (source : AdmissionSource)
    (checkAt : Option Nat) : AdmissionRequest :=
  { a with
    snapshot := { a.snapshot with state := .possiblyDispatched, offer := none, source := some source }
    startCommand := some c
    checkAt }

def grant (a : AdmissionRequest) (r : Resource) (c : AdmissionStartCommand) (x : StartContext)
    (budgetDeadline : Option Nat) (now : Nat) :
    Outcome (AdmissionRequest × Resource × AdmissionSource) := do
  let r ← r.refill now
  let r ← r.spend (corruptRecord .workflow "admission rate credit")
  refuse (r.offered = 0 ∨ r.record.policy.maxOccupancy ≤ r.started)
    (.drift .workflow .offerOccupancyAuthority)
  let _ ← okOr (checkedAdd u64Max now r.record.policy.startTimeoutMs)
    (.refused (corruptRecord .workflow "admission start deadline"))
  let source := newSource r c x budgetDeadline now
  check source.validate
  let a ← (a.dispatched c source x.checkAt).bump now
  return (a, r.start.wake now, source)

def startEligible (a : AdmissionRequest) (r : Resource) (c : AdmissionStartCommand)
    (x : StartContext) : Outcome (AdmissionRequest × Resource × AdmissionStartReceipt) := do
  check (x.activation.checkLive c.owner x.now)
  let offer ← okOr a.snapshot.offer (.refused (corruptRecord .workflow "missing admission offer"))
  let capacityDeadline := min offer.expiresAt a.snapshot.deadlineAt
  let budget := if x.activation.hasRunBudget then x.budget else .ok none
  match budget with
  | .error reason => do
    let (a, r) ← { a with startCommand := some c }.closeBudgetOffer r reason x.deniedAt
    check (x.activation.checkLive c.owner x.finalNow)
    return (a, r, .existing a.snapshot)
  | .ok budgetDeadline => do
    let now := if x.activation.hasRunBudget then x.budgetNow else x.now
    check (x.activation.checkLive c.owner now)
    if capacityDeadline ≤ now then do
      let (a, r) ← a.recoverExpired r c x now
      return (a, r, .existing a.snapshot)
    else do
      refuse (budgetDeadline.any (· ≤ now)) (.refused .ownershipLost)
      let (next, left, source) ← a.grant r c x budgetDeadline now
      check (x.activation.checkLive c.owner x.finalNow)
      if capacityDeadline ≤ x.finalNow then do
        let (a, r) ← a.recoverExpired r c x x.finalNow
        return (a, r, .existing a.snapshot)
      else do
        refuse (x.finalNow < source.acceptedAt ∨ source.startDeadlineAt ≤ x.finalNow)
          (.refused .ownershipLost)
        return (next, left, .granted source)

def startAdmission (a : AdmissionRequest) (r : Resource) (c : AdmissionStartCommand)
    (x : StartContext) : Outcome (AdmissionRequest × Resource × AdmissionStartReceipt) := do
  check c.validate
  refuse (x.dispatchEnabled = false)
    (.refused (.unavailable "resource admission dispatch is quarantined"))
  check a.requireOperation
  if a.startCommand.isSome then do
    check (a.checkReplay c)
    return (a, r, .existing a.snapshot)
  else do
    refuse (x.activation.workflowId ≠ c.occurrence.workflowId) (.refused .conflict)
    refuse (x.now < r.highWater ∨ x.now < a.snapshot.updatedAt)
      (.refused (.unavailable "resource admission clock has not reached its high-water mark"))
    let (a, r, _) ← a.invalidateOffer r x.now
    if a.Eligible r c x.now then a.startEligible r c x
    else return (a, r, .existing a.snapshot)

def finishAdmission (a : AdmissionRequest) (r : Resource) (c : AdmissionFinishCommand) (now : Nat) :
    Outcome (AdmissionRequest × Resource × AdmissionFinishReceipt) := do
  check c.source.validate
  check a.requireOperation
  refuse (a.snapshot.source ≠ some c.source) (.refused .conflict)
  match a.finishCommand with
  | some accepted => do
    refuse (accepted ≠ .finish c) (.refused .conflict)
    let receipt ← okOr a.snapshot.finish (.refused (corruptRecord .workflow "missing admission result"))
    return (a, r, { receipt with alreadyAccepted := true })
  | none => do
    refuse (a.snapshot.state ≠ .possiblyDispatched ∧ a.snapshot.state ≠ .unknownOccupied ∧
        a.snapshot.state ≠ .administrativelyReleased) (.refused .conflict)
    let receipt : AdmissionFinishReceipt :=
      ⟨c.source, c.content, max (max now c.source.acceptedAt) a.snapshot.updatedAt, false⟩
    check receipt.validate
    let released := a.snapshot.state = .administrativelyReleased
    let r ← if released then .ok r else
      r.release a.charge.lost (.drift .workflow .admissionOccupancyUnderflow)
        (.drift .workflow .admissionUnknownUnderflow)
    let a := if released then a else a.withState .finished
    let a ← { a with
      snapshot := { a.snapshot with finish := some receipt }
      finishCommand := some (.finish c)
      checkAt := none }.bump now
    let r ← r.refill now
    return (a, r.wake now, receipt)

/-- `release_admission_once`, when its receipt is new. -/
def releaseAdmission (a : AdmissionRequest) (r : Resource) (sourceId : String)
    (expectedRevision now : Nat) : Outcome (AdmissionRequest × Resource) := do
  refuse (a.snapshot.revision ≠ expectedRevision ∨
      a.snapshot.source.map AdmissionSource.sourceId ≠ some sourceId ∨
      (a.snapshot.state ≠ .possiblyDispatched ∧ a.snapshot.state ≠ .unknownOccupied))
    (.refused .conflict)
  let r ← r.release a.charge.lost (.drift .workflow .startedOccupancyUnderflow)
    (.drift .workflow .unknownOccupancyUnderflow)
  let a ← { a.withState .administrativelyReleased with checkAt := none }.bump now
  let r ← (r.wake now).refill now
  return (a, r)

/- Provider calls: the grant, the resource debit and the recovery record are one transaction. -/

def withProvider (a : AdmissionRequest) (record : ProviderAdmissionRecord) : AdmissionRequest :=
  { a with snapshot := { a.snapshot with provider := some record } }

def grantProvider (a : AdmissionRequest) (r : Resource) (c : AdmissionStartCommand)
    (x : StartContext) (ticket : ProviderOperationTicket) (budgetDeadline : Option Nat) (now : Nat) :
    Outcome (AdmissionRequest × Resource × AdmissionStartReceipt) := do
  refuse (r.offered = 0 ∨ r.record.policy.maxOccupancy ≤ r.started)
    (.drift .workflow .offerOccupancyAuthority)
  let r ← r.refill now
  let r ← r.spend (corruptRecord .workflow "admission rate credit")
  let _ ← okOr (checkedAdd u64Max now r.record.policy.startTimeoutMs)
    (.refused (corruptRecord .workflow "admission start deadline"))
  let source := newSource r c x budgetDeadline now
  check source.validate
  let a ← ((a.dispatched c source x.checkAt).withProvider ⟨ticket, some source, none⟩).bump now
  return (a, r.start.wake now, .granted source)

def closeExisting (a : AdmissionRequest) (r : Resource) (c : AdmissionStartCommand)
    (ticket : ProviderOperationTicket) (now : Nat) :
    Outcome (AdmissionRequest × Resource × AdmissionStartReceipt) := do
  refuse (r.offered = 0 ∨ r.record.policy.maxOccupancy ≤ r.started)
    (.drift .workflow .offerOccupancyAuthority)
  let r := { r with offered := r.offered - 1 }
  let a ← { (a.withdrawn .closedBeforeStart).withProvider ⟨ticket, none, none⟩ with
    startCommand := some c
    checkAt := none }.bump now
  return (a, r.wake now, .existing a.snapshot)

def confirmProvider (a : AdmissionRequest) (r : Resource) (c : AdmissionStartCommand)
    (x : StartContext) (capacityDeadline now : Nat) (next : AdmissionRequest) (left : Resource)
    (receipt : AdmissionStartReceipt) :
    Outcome (AdmissionRequest × Resource × AdmissionStartReceipt) := do
  refuse (x.finalNow < now) (.refused (.unavailable "provider admission clock moved backwards"))
  if capacityDeadline ≤ x.finalNow then do
    let (a, r) ← a.recoverExpired r c x x.finalNow
    return (a, r, .existing a.snapshot)
  else do
    check (x.activation.checkLive c.owner x.finalNow)
    match receipt with
    | .granted source => refuse (source.startDeadlineAt ≤ x.finalNow) (.refused .ownershipLost)
    | .existing _ => .ok ()
    return (next, left, receipt)

def startProviderEligible (a : AdmissionRequest) (r : Resource) (c : AdmissionStartCommand)
    (x : StartContext) (claim : ProviderClaim) (budgetDeadline : Option Nat) :
    Outcome (AdmissionRequest × Resource × AdmissionStartReceipt) := do
  check (x.activation.checkLive c.owner x.now)
  let offer ← okOr a.snapshot.offer (.refused (corruptRecord .workflow "missing protected offer"))
  let capacityDeadline := min offer.expiresAt a.snapshot.deadlineAt
  match claim with
  | .denied reason => do
    let (a, r) ← { a with startCommand := some c }.closeBudgetOffer r reason x.deniedAt
    check (x.activation.checkLive c.owner x.finalNow)
    return (a, r, .existing a.snapshot)
  | .expired observedAt => do
    let (a, r) ← a.recoverExpired r c x observedAt
    return (a, r, .existing a.snapshot)
  | .dispatch ticket acceptedAt => do
    check (x.activation.checkLive c.owner acceptedAt)
    let (next, left, receipt) ← a.grantProvider r c x ticket budgetDeadline acceptedAt
    a.confirmProvider r c x capacityDeadline acceptedAt next left receipt
  | .existing ticket => do
    check (x.activation.checkLive c.owner x.budgetNow)
    let (next, left, receipt) ← a.closeExisting r c ticket x.budgetNow
    a.confirmProvider r c x capacityDeadline x.budgetNow next left receipt

def startProviderAdmission (a : AdmissionRequest) (r : Resource) (c : AdmissionStartCommand)
    (x : StartContext) (claim : ProviderClaim) (budgetDeadline : Option Nat) :
    Outcome (AdmissionRequest × Resource × AdmissionStartReceipt) := do
  check c.validate
  check a.requireProvider
  if a.startCommand.isSome then do
    check (a.checkProviderReplay c)
    return (a, r, .existing a.snapshot)
  else do
    refuse (x.activation.workflowId ≠ c.occurrence.workflowId) (.refused .conflict)
    refuse (x.dispatchEnabled = false)
      (.refused (.unavailable "protected provider dispatch is quarantined"))
    refuse (x.now < r.highWater ∨ x.now < a.snapshot.updatedAt)
      (.refused (.unavailable "resource admission clock has not reached its high-water mark"))
    let (a, r, _) ← a.invalidateOffer r x.now
    if a.Eligible r c x.now then a.startProviderEligible r c x claim budgetDeadline
    else return (a, r, .existing a.snapshot)

def reported (a : AdmissionRequest) (c : ProviderAdmissionReportCommand)
    (report : ProviderAdmissionReport) : AdmissionRequest :=
  { a with
    snapshot := { a.snapshot with
      provider := a.snapshot.provider.map fun record => { record with report := some report } }
    finishCommand := some (.report c)
    checkAt := none }

/-- `report_provider_admission_once`. `acceptedAt` is when the evidence itself was accepted. -/
def reportProviderAdmission (a : AdmissionRequest) (r : Resource)
    (c : ProviderAdmissionReportCommand) (acceptedAt sampled : Nat) :
    Outcome (AdmissionRequest × Resource × ProviderAdmissionReport) := do
  check c.source.validate
  check a.requireProvider
  refuse (a.snapshot.provider.bind ProviderAdmissionRecord.source ≠ some c.source)
    (.refused .conflict)
  match a.finishCommand with
  | some accepted => do
    refuse (accepted ≠ .report c) (.refused .conflict)
    let report ← okOr (a.snapshot.provider.bind ProviderAdmissionRecord.report)
      (.refused (corruptRecord .workflow "missing provider admission report"))
    return (a, r, { report with alreadyAccepted := true })
  | none => do
    refuse (a.snapshot.state ≠ .possiblyDispatched ∧ a.snapshot.state ≠ .unknownOccupied ∧
        a.snapshot.state ≠ .administrativelyReleased) (.refused .conflict)
    let report : ProviderAdmissionReport := ⟨c.callCompletion, acceptedAt, false⟩
    let (a, r) ← if a.snapshot.state = .administrativelyReleased then .ok (a, r) else
      match c.callCompletion with
      | .completed => do
        let r ← r.release a.charge.lost (.drift .workflow .admissionOccupancyUnderflow)
          (.drift .workflow .admissionUnknownUnderflow)
        pure (a.withState .finished, r)
      | .unknown =>
        .ok (a.withState .unknownOccupied,
          if a.snapshot.state ≠ .unknownOccupied then r.lose else r)
    let now := max (max sampled acceptedAt) a.snapshot.updatedAt
    let a ← (a.reported c report).bump now
    let r ← r.refill now
    return (a, r.wake now, report)

end AdmissionRequest
end Ledgence

/-! How a workflow comes to wait for a resource, and how the scheduler serves the wait. -/

namespace Ledgence

structure AdmissionTick where
  dispatch : Bool
  /-- The workflow's state and the activation it is parked at, if the run still exists. -/
  run : Option (WorkflowState × Option String)
  /-- The deadline of the open wait, if there is one. -/
  episodeDeadline : Option Nat
  /-- Until when the started source has a live owner (`source_check_at`). -/
  sourceCheckAt : Option Nat
  /-- Under the locks, the request still comes first in the order of offers. -/
  wins : Bool
  taskId : String
  now : Nat

def AdmissionTick.runClosed (x : AdmissionTick) : Bool :=
  x.run.all fun run => run.1.isTerminal || run.1 = .failing || run.1 = .cancelling

namespace AdmissionRequest

def closeParked (a : AdmissionRequest) (r : Resource) (now : Nat) :
    Outcome (AdmissionRequest × Resource) := do
  let (a, r) ← a.closeRequest r now
  return ({ a with parking := none }, r)

/-- A new request of a workflow that parks at `parking`. -/
def registered (occurrence : AdmissionOccurrence) (binding : AdmissionBinding) (parking : String)
    (now deadline : Nat) : AdmissionRequest where
  snapshot := {
    budgetDenial := none
    occurrence
    binding
    state := .waiting
    revision := 1
    createdAt := now
    updatedAt := now
    deadlineAt := deadline
    offer := none
    source := none
    finish := none
    provider := none }
  parking := some parking
  shortEpisodeDeadline := none
  generation := 0
  checkAt := none
  startCommand := none
  finishCommand := none

def relinquish (a : AdmissionRequest) (r : Resource) : Outcome (AdmissionRequest × Resource) :=
  match a.snapshot.offer with
  | none => .ok (a, r)
  | some offer => do
    let r ← if offer.policyRevision = r.revision then
        r.withdraw (.drift .workflow .admissionOfferCounter) else .ok r
    return (a.withdrawn .awaitingRewait, r)

def rewait (a : AdmissionRequest) (r : Resource) (parking : String) (now : Nat) :
    Outcome (AdmissionRequest × Resource) := do
  refuse a.parking.isSome (.refused .conflict)
  let (a, r, _) ← a.invalidateOffer r now
  let (a, r) ← a.relinquish r
  let a := if a.snapshot.state = .awaitingRewait then a.withState .waiting else a
  let a ← { a with parking := some parking }.bump now
  return (a, r)

def episodeDeadline (a : AdmissionRequest) (until' now : Nat) : Nat :=
  if a.snapshot.source.isSome then until' else max (min until' a.snapshot.deadlineAt) now

/-- `install_wait`, once the request is there. -/
def installEpisode (a : AdmissionRequest) (r : Resource) (parking resumed : String)
    (until' now : Nat) : Outcome (AdmissionRequest × Resource) :=
  let deadline := a.episodeDeadline until' now
  let short := r.record.policy.fairSharing.isSome ∧ a.snapshot.state = .waiting ∧
    deadline < a.snapshot.deadlineAt
  let a := { a with shortEpisodeDeadline := if short then some deadline else none }
  let r := r.wake now
  match a.resolved deadline now with
  | some selection => a.select r parking resumed selection now
  | none => .ok (a, r)

/-- `apply_wait`: the wait's timer fired, or its request was notified. -/
def applyWait (a : AdmissionRequest) (r : Resource) (parking resumed : String)
    (deadline now : Nat) : Outcome (AdmissionRequest × Resource) := do
  refuse (a.parking ≠ some parking) (.refused (corruptRecord .workflow "admission parking identity"))
  match a.resolved deadline now with
  | some selection => a.select r parking resumed selection now
  | none => return (a, r)

def offerFor (a : AdmissionRequest) (r : Resource) (generation : Nat) (activation : String)
    (episodeDeadline now : Nat) : AdmissionOffer where
  generation
  policyRevision := r.revision
  activationId := activation
  expiresAt := min (min (saturatingAdd u64Max now r.record.policy.offerTimeoutMs)
    a.snapshot.deadlineAt) episodeDeadline

def offeredWith (a : AdmissionRequest) (generation : Nat) (offer : AdmissionOffer) :
    AdmissionRequest :=
  { a with
    generation
    snapshot := { a.snapshot with state := .offered, offer := some offer } }

def tickWaiting (a : AdmissionRequest) (r : Resource) (x : AdmissionTick) :
    Outcome (AdmissionRequest × Resource) := do
  let run ← okOr x.run (.refused (corruptRecord .workflow "waiting admission workflow"))
  let parking ← okOr a.parking (.refused (corruptRecord .workflow "admission parking"))
  refuse (run.1 ≠ .waiting ∨ run.2 ≠ some parking)
    (.refused (corruptRecord .workflow "orphaned admission wait"))
  let deadline ← okOr x.episodeDeadline (.refused (corruptRecord .workflow "admission wait episode"))
  match a.resolved deadline x.now with
  | some selection => a.select r parking x.taskId selection x.now
  | none =>
    if x.dispatch = true then do
      let capacity ← check r.capacity
      if 0 < capacity ∧ x.wins = true then do
        let generation ← okOr (checkedAdd u64Max a.generation 1)
          (.refused (corruptRecord .workflow "offer generation overflow"))
        let offer := a.offerFor r generation x.taskId deadline x.now
        check offer.validate
        (a.offeredWith generation offer).select r.offer parking x.taskId (.offered offer) x.now
      else return (a, r)
    else return (a, r)

def tickSource (a : AdmissionRequest) (r : Resource) (x : AdmissionTick) :
    Outcome (AdmissionRequest × Resource) :=
  if a.checkAt.all (· ≤ x.now) then do
    refuse (a.snapshot.source = none) (.refused (corruptRecord .workflow "admission source"))
    match x.sourceCheckAt with
    | some next => return ({ a with checkAt := some next }, r)
    | none => do
      let a ← { a.withState .unknownOccupied with checkAt := none }.bump x.now
      return (a, r.lose)
  else .ok (a, r)

/-- `admission_tick` on its candidate, before the next due time is computed. -/
def tick (a : AdmissionRequest) (r : Resource) (x : AdmissionTick) :
    Outcome (AdmissionRequest × Resource) :=
  if x.runClosed then a.closeParked r x.now
  else do
    let (a, r, invalidated) ← a.invalidateOffer r x.now
    if invalidated then return (a, r)
    else match a.snapshot.state with
      | .possiblyDispatched => a.tickSource r x
      | .waiting => a.tickWaiting r x
      | .offered | .awaitingRewait | .unknownOccupied | .finished | .closedBeforeStart
      | .administrativelyReleased => return (a, r)

end AdmissionRequest
end Ledgence
