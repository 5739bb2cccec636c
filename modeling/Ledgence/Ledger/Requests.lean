import Ledgence.Ledger.Charges

/-! A workflow's request for a shared resource: offers, waits and closure. -/
open Kit Kit.Checked

namespace Ledgence

structure AdmissionStartCommand where
  owner : LeaseOwner
  occurrence : AdmissionOccurrence
  offerGeneration : Nat
  startId : String
  finishId : String
  deriving DecidableEq

def AdmissionStartCommand.validate (c : AdmissionStartCommand) : Result Unit := do
  c.owner.validate
  c.occurrence.validate
  positive c.offerGeneration
  validateText c.startId 128
  validateText c.finishId 128
  refuse (c.owner.scope ≠ c.occurrence.scope) .conflict

structure AdmissionFinishCommand where
  source : AdmissionSource
  content : String
  deriving DecidableEq

structure ProviderAdmissionReportCommand where
  source : AdmissionSource
  callCompletion : ProviderCallCompletion
  report : String
  deriving DecidableEq

inductive AdmissionEnd where
  | finish (command : AdmissionFinishCommand)
  | report (command : ProviderAdmissionReportCommand)
  deriving DecidableEq

/-- `admission::state::Request` -/
structure AdmissionRequest where
  snapshot : AdmissionSnapshot
  parking : Option String
  shortEpisodeDeadline : Option Nat
  generation : Nat
  checkAt : Option Nat
  startCommand : Option AdmissionStartCommand
  finishCommand : Option AdmissionEnd
  deriving DecidableEq

inductive AdmissionClosedReason where
  | budgetCancelled
  | callsExhausted
  | delegationsExhausted
  | deadlineExceeded
  | cancelled
  | deadline
  | administrativelyReleased
  deriving DecidableEq

def AdmissionClosedReason.ofDenial : RunBudgetDenial → AdmissionClosedReason
  | .callsExhausted => .callsExhausted
  | .delegationsExhausted => .delegationsExhausted
  | .deadlineExceeded => .deadlineExceeded
  | .cancelled => .budgetCancelled

inductive AdmissionSelection where
  | provider (record : ProviderAdmissionRecord)
  | offered (offer : AdmissionOffer)
  | finished (receipt : AdmissionFinishReceipt)
  | closed (reason : AdmissionClosedReason)
  | needsReview (sourceId : String)
  deriving DecidableEq

namespace AdmissionRequest

def occurrence (a : AdmissionRequest) : AdmissionOccurrence := a.snapshot.occurrence

def charge (a : AdmissionRequest) : Charge :=
  match a.snapshot.state, a.snapshot.offer with
  | .offered, some offer => .offered offer.policyRevision
  | .possiblyDispatched, _ => .started
  | .unknownOccupied, _ => .unknown
  | _, _ => .free

def withState (a : AdmissionRequest) (state : AdmissionState) : AdmissionRequest :=
  { a with snapshot := { a.snapshot with state } }

def withdrawn (a : AdmissionRequest) (state : AdmissionState) : AdmissionRequest :=
  { a with snapshot := { a.snapshot with state, offer := none } }

def bump (a : AdmissionRequest) (now : Nat) : Outcome AdmissionRequest := do
  let revision ← okOr (checkedAdd u64Max a.snapshot.revision 1)
    (.refused (corruptRecord .workflow "admission revision overflow"))
  let snapshot := { a.snapshot with revision, updatedAt := max a.snapshot.updatedAt now }
  wellFormed snapshot.validate
  return { a with snapshot }

def invalidateOffer (a : AdmissionRequest) (r : Resource) (now : Nat) :
    Outcome (AdmissionRequest × Resource × Bool) :=
  match a.snapshot.offer with
  | none => .ok (a, r, false)
  | some offer =>
    if offer.policyRevision ≠ r.revision ∨ offer.expiresAt ≤ now ∨ r.record.policy.enabled = false then do
      let r ← if offer.policyRevision = r.revision then
          r.withdraw (.drift .workflow .offerCounterUnderflow) else .ok r
      let a ← (a.withdrawn .awaitingRewait).bump now
      let r ← r.refill now
      return (a, r.wake now, true)
    else .ok (a, r, false)

def closeRequest (a : AdmissionRequest) (r : Resource) (now : Nat) :
    Outcome (AdmissionRequest × Resource) := do
  let settled (a : AdmissionRequest) (r : Resource) : Outcome (AdmissionRequest × Resource) := do
    let a ← a.bump now
    let r ← r.refill now
    return (a, r.wake now)
  match a.snapshot.state with
  | .offered => do
    let r ← if a.snapshot.offer.any fun offer => offer.policyRevision = r.revision then
        r.withdraw (.drift .workflow .offerReleaseUnderflow) else .ok r
    settled (a.withdrawn .closedBeforeStart) r
  | .waiting | .awaitingRewait => settled (a.withState .closedBeforeStart) r
  | .possiblyDispatched => settled { a.withState .unknownOccupied with checkAt := none } r.lose
  | .unknownOccupied | .finished | .closedBeforeStart | .administrativelyReleased => return (a, r)

def resolved (a : AdmissionRequest) (deadline now : Nat) : Option AdmissionSelection :=
  match a.snapshot.provider with
  | some record => some (.provider record)
  | none =>
    match a.snapshot.state with
    | .administrativelyReleased => some (.closed .administrativelyReleased)
    | .finished => a.snapshot.finish.map .finished
    | .closedBeforeStart =>
      some (.closed ((a.snapshot.budgetDenial.map AdmissionClosedReason.ofDenial).getD .deadline))
    | .possiblyDispatched | .unknownOccupied =>
      if deadline ≤ now then a.snapshot.source.map fun source => .needsReview source.sourceId else none
    | .waiting | .awaitingRewait => if deadline ≤ now then some (.closed .deadline) else none
    | .offered => none

/-- `AdmissionWake::validate`, on what a selection adds to its request. -/
def validateWake (parking resumed : String) (selection : AdmissionSelection) (selectedAt : Nat) :
    Result Unit := do
  validateText parking 128
  validateText resumed 128
  admissionTime selectedAt
  refuse (parking = resumed) (invalid "admission wake reuses parking activation")
  match selection with
  | .provider record =>
    refuse ((record.source.any fun s => selectedAt < s.acceptedAt) ∨
        record.report.any fun r => selectedAt < r.acceptedAt)
      (invalid "provider evidence postdates selection")
  | .offered offer => do
    offer.validate
    refuse (offer.activationId ≠ resumed ∨ offer.expiresAt ≤ selectedAt)
      (invalid "admission wake offer mismatch")
  | .finished receipt => do
    receipt.validate
    refuse (selectedAt < receipt.acceptedAt) (invalid "admission wake finish mismatch")
  | .needsReview sourceId => validateText sourceId 128
  | .closed _ => .ok ()

def AdmissionSelection.isClosed : AdmissionSelection → Bool
  | .closed _ => true
  | .provider _ | .offered _ | .finished _ | .needsReview _ => false

def select (a : AdmissionRequest) (r : Resource) (parking resumed : String)
    (selection : AdmissionSelection) (now : Nat) : Outcome (AdmissionRequest × Resource) := do
  let selectedAt := max now a.snapshot.updatedAt
  check (validateWake parking resumed selection selectedAt)
  let a := if AdmissionSelection.isClosed selection = true ∧ a.snapshot.source = none then
    a.withdrawn .closedBeforeStart else a
  let a ← { a with parking := none }.bump selectedAt
  let r ← r.refill selectedAt
  return (a, r.wake selectedAt)

end AdmissionRequest
end Ledgence
