import Ledgence.Core.Basics

/-! Worker-local authority accounting. Instants are nanoseconds of the worker's monotonic clock. -/
open Kit Kit.Checked

namespace Ledgence

def nanosPerMs : Nat := 1000000

inductive LeaseState where
  | unconfirmed
  | active
  | cancelled
  | ownershipLost
  | expired
  deriving DecidableEq

inductive LeaseUpdate where
  | applied
  | replay
  | ignoredOlder
  deriving DecidableEq

inductive LeaseTrackerError where
  | unconfirmed
  | wrongOwner
  | invalidTiming
  | invalidAuthority
  | dispatchNotAuthorized
  | cancelled
  | ownershipLost
  | expired
  deriving DecidableEq

/-- One local attempt's permission to run user work. -/
structure LeaseTracker where
  owner : LeaseOwner
  state : LeaseState
  deadline : Option Nat
  executionDeadline : Option Nat
  sequence : Option Nat
  dispatchAllowed : Bool
  deriving DecidableEq

abbrev LeaseResult (α : Type) := LeaseTracker × Except LeaseTrackerError α

namespace LeaseTracker

def new (owner : LeaseOwner) : LeaseTracker :=
  ⟨owner, .unconfirmed, none, none, none, false⟩

def stop (t : LeaseTracker) (state : LeaseState) : LeaseTracker :=
  { t with state, dispatchAllowed := false }

/-- `state`: observing time also records expiry, so that later replies cannot revive it. -/
def observe (t : LeaseTracker) (now : Nat) : LeaseTracker :=
  if t.state = .active ∧ t.deadline.any (· ≤ now) then t.stop .expired else t

def checkStopped (t : LeaseTracker) : Except LeaseTrackerError Unit :=
  match t.state with
  | .cancelled => .error .cancelled
  | .ownershipLost => .error .ownershipLost
  | .expired => .error .expired
  | .unconfirmed | .active => .ok ()

/-- The instant `milliseconds` after `started`, less the safety margin. `top` is the last
instant of the platform. -/
def candidate (top started milliseconds : Nat) : Option Nat :=
  checkedAdd top started ((milliseconds - leaseSafetyMarginMs) * nanosPerMs)

def adopt (t : LeaseTracker) (authority : Authority) (leaseCandidate executionCandidate now : Nat) :
    LeaseResult LeaseUpdate :=
  let executionDeadline := (t.executionDeadline.map (min · executionCandidate)).getD
    executionCandidate
  let candidate := min leaseCandidate executionDeadline
  if candidate ≤ now then (t.stop .expired, .error .expired)
  else if t.sequence = some authority.renewSequence then
    -- Recovery never buys more local time, and never restores withdrawn permission.
    ({ t with
      executionDeadline := some executionDeadline
      deadline := some ((t.deadline.map (min · candidate)).getD candidate)
      dispatchAllowed := t.dispatchAllowed && authority.dispatchAllowed }, .ok .replay)
  else
    ({ t with
      executionDeadline := some executionDeadline
      deadline := some candidate
      sequence := some authority.renewSequence
      dispatchAllowed := authority.dispatchAllowed
      state := .active }, .ok .applied)

def receive (top : Nat) (t : LeaseTracker) (authority : Authority) (requestStarted now : Nat) :
    LeaseResult LeaseUpdate :=
  if now < requestStarted then (t, .error .invalidTiming)
  -- Revocation is monotone even if it arrives on an older exchange.
  else if authority.cancelRequested = true then (t.stop .cancelled, .error .cancelled)
  else if authority.remainingMs = 0 then (t.stop .ownershipLost, .error .ownershipLost)
  else if t.sequence.any (authority.renewSequence < ·) then (t, .ok .ignoredOlder)
  else if authority.renewSequence = 0 ∧ authority.dispatchAllowed = true then
    (t, .error .invalidAuthority)
  else
    match candidate top requestStarted authority.remainingMs,
        candidate top requestStarted authority.executionRemainingMs with
    | some leaseCandidate, some executionCandidate =>
      t.adopt authority leaseCandidate executionCandidate now
    | _, _ => (t, .error .invalidTiming)

def apply (top : Nat) (t : LeaseTracker) (authority : Authority) (requestStarted now : Nat) :
    LeaseResult LeaseUpdate :=
  if authority.owner ≠ t.owner then (t, .error .wrongOwner)
  else
    let t := t.observe now
    match t.checkStopped with
    | .error e => (t, .error e)
    | .ok _ => t.receive top authority requestStarted now

def checkDispatch (t : LeaseTracker) (now : Nat) : LeaseResult Unit :=
  let t := t.observe now
  (t, do
    t.checkStopped
    refuse (t.state = .unconfirmed) .unconfirmed
    refuse (t.dispatchAllowed = false) .dispatchNotAuthorized)

def cancel (t : LeaseTracker) : LeaseTracker :=
  if t.state = .unconfirmed ∨ t.state = .active then t.stop .cancelled else t

def markOwnershipLost (t : LeaseTracker) (owner : LeaseOwner) : LeaseResult Unit :=
  if owner ≠ t.owner then (t, .error .wrongOwner)
  else if t.state = .unconfirmed ∨ t.state = .active then (t.stop .ownershipLost, .ok ())
  else (t, .ok ())

end LeaseTracker

/-- A reply to a request that started at `started`. -/
structure LeaseReply where
  authority : Authority
  started : Nat
  received : Nat

inductive TrackerOp where
  | apply (reply : LeaseReply)
  | observe (now : Nat)
  | checkDispatch (now : Nat)
  | cancel
  | markOwnershipLost (owner : LeaseOwner)

namespace LeaseTracker

def step (top : Nat) (t : LeaseTracker) : TrackerOp → LeaseTracker
  | .apply reply => (t.apply top reply.authority reply.started reply.received).1
  | .observe now => t.observe now
  | .checkDispatch now => (t.checkDispatch now).1
  | .cancel => t.cancel
  | .markOwnershipLost owner => (t.markOwnershipLost owner).1

def run (top : Nat) (t : LeaseTracker) (ops : List TrackerOp) : LeaseTracker :=
  ops.foldl (step top) t

section Backed
variable {top : Nat} {t : LeaseTracker} {given : LeaseReply → Prop} {owner : LeaseOwner}

/-- The tracker's deadline lies within the lease of a reply that it was given. -/
structure Backed (given : LeaseReply → Prop) (owner : LeaseOwner) (t : LeaseTracker) : Prop where
  owned : t.owner = owner
  confirmed : t.state = .active → t.deadline.isSome = true
  bounded : ∀ d, t.deadline = some d → ∃ r, given r ∧ r.authority.owner = owner ∧
    0 < r.authority.remainingMs ∧
    d ≤ r.started + (r.authority.remainingMs - leaseSafetyMarginMs) * nanosPerMs

theorem new_backed (owner : LeaseOwner) : Backed given owner (new owner) :=
  ⟨rfl, by simp [new], by simp [new]⟩

theorem Backed.stop (backed : Backed given owner t) {state : LeaseState}
    (stopped : state ≠ .active) : Backed given owner (t.stop state) :=
  ⟨backed.owned, fun active => absurd active stopped, backed.bounded⟩

theorem Backed.observe (backed : Backed given owner t) (now : Nat) :
    Backed given owner (t.observe now) := by
  by_cases h : t.state = .active ∧ t.deadline.any (· ≤ now)
  · rw [LeaseTracker.observe, if_pos h]
    exact backed.stop (by simp)
  · rwa [LeaseTracker.observe, if_neg h]

theorem Backed.adopt (backed : Backed given owner t) {r : LeaseReply} (isGiven : given r)
    (ofOwner : r.authority.owner = owner) (positive : 0 < r.authority.remainingMs)
    {lease execution now : Nat}
    (within : lease ≤ r.started + (r.authority.remainingMs - leaseSafetyMarginMs) * nanosPerMs) :
    Backed given owner (t.adopt r.authority lease execution now).1 := by
  unfold LeaseTracker.adopt
  extract_lets executionDeadline candidate
  have low : candidate ≤ lease := min_le_left _ _
  split
  · exact backed.stop (by simp)
  split
  · refine ⟨backed.owned, fun _ => rfl, fun d found => ⟨r, isGiven, ofOwner, positive, ?_⟩⟩
    have bound : (t.deadline.map (min · candidate)).getD candidate ≤ candidate := by
      cases t.deadline with
      | none => exact le_rfl
      | some old => exact min_le_right _ _
    have same : (t.deadline.map (min · candidate)).getD candidate = d := by simpa using found
    omega
  · refine ⟨backed.owned, fun _ => rfl, fun d found => ⟨r, isGiven, ofOwner, positive, ?_⟩⟩
    have same : candidate = d := by simpa using found
    omega

theorem Backed.receive (backed : Backed given owner t) {r : LeaseReply} (isGiven : given r)
    (ofOwner : r.authority.owner = owner) :
    Backed given owner (t.receive top r.authority r.started r.received).1 := by
  unfold LeaseTracker.receive
  split
  · exact backed
  split
  · exact backed.stop (by simp)
  split
  · exact backed.stop (by simp)
  rename_i positive
  split
  · exact backed
  split
  · exact backed
  split
  · rename_i lease execution hlease hexecution
    simp only [candidate, checkedAdd_eq_some] at hlease
    exact backed.adopt isGiven ofOwner (Nat.pos_of_ne_zero positive) hlease.2.ge
  · exact backed

theorem Backed.apply (backed : Backed given owner t) {r : LeaseReply} (isGiven : given r) :
    Backed given owner (t.apply top r.authority r.started r.received).1 := by
  unfold LeaseTracker.apply
  split
  · exact backed
  rename_i same
  have observed := backed.observe r.received
  extract_lets u
  split
  · exact observed
  · exact observed.receive isGiven ((not_not.mp same).trans backed.owned)

theorem Backed.step (backed : Backed given owner t) {op : TrackerOp}
    (isGiven : ∀ r, op = .apply r → given r) : Backed given owner (t.step top op) := by
  cases op with
  | apply reply => exact backed.apply (isGiven reply rfl)
  | observe now => exact backed.observe now
  | checkDispatch now => exact backed.observe now
  | cancel =>
    simp only [LeaseTracker.step, LeaseTracker.cancel]
    split
    · exact backed.stop (by simp)
    · exact backed
  | markOwnershipLost owner =>
    simp only [LeaseTracker.step, LeaseTracker.markOwnershipLost]
    split
    · exact backed
    split
    · exact backed.stop (by simp)
    · exact backed

theorem Backed.run (backed : Backed given owner t) {ops : List TrackerOp}
    (isGiven : ∀ r, .apply r ∈ ops → given r) : Backed given owner (t.run top ops) := by
  induction ops generalizing t with
  | nil => exact backed
  | cons op ops ih =>
    have first : Backed given owner (t.step top op) :=
      backed.step fun r same => isGiven r (by simp [same])
    exact ih first fun r mem => isGiven r (by simp [mem])

/-- A dispatch check passes only before the deadline of an active tracker. -/
theorem checkDispatch_eq_ok {now : Nat} {u : Unit} (passes : (t.checkDispatch now).2 = .ok u) :
    t.state = .active ∧ ∀ d, t.deadline = some d → now < d := by
  by_cases h : t.state = .active ∧ t.deadline.any (· ≤ now)
  · simp [checkDispatch, observe, if_pos h, stop, checkStopped] at passes
  · simp only [checkDispatch, observe, if_neg h, bind_eq_ok, refuse_eq_ok, exists_unit] at passes
    have active : t.state = .active := by
      cases hs : t.state with
      | active => rfl
      | unconfirmed => exact absurd hs passes.2.1
      | cancelled | ownershipLost | expired => simp [checkStopped, hs] at passes
    refine ⟨active, fun d found => ?_⟩
    by_contra late
    exact h ⟨active, by simpa [found] using late⟩

/-- A tracker that lets its attempt dispatch has a reply whose lease covers the moment. -/
theorem Backed.dispatches (backed : Backed given owner t) {now : Nat} {u : Unit}
    (passes : (t.checkDispatch now).2 = .ok u) :
    ∃ r, given r ∧ r.authority.owner = owner ∧ 0 < r.authority.remainingMs ∧
      now < r.started + (r.authority.remainingMs - leaseSafetyMarginMs) * nanosPerMs := by
  obtain ⟨active, before⟩ := checkDispatch_eq_ok passes
  obtain ⟨d, found⟩ := Option.isSome_iff_exists.mp (backed.confirmed active)
  obtain ⟨r, isGiven, ofOwner, positive, within⟩ := backed.bounded d found
  exact ⟨r, isGiven, ofOwner, positive, (before d found).trans_le within⟩

end Backed
end LeaseTracker
end Ledgence
