import Ledgence.Api.Delivery
import Ledgence.Kit.Checked
import Ledgence.Kit.Table

/-! Request-owned long polling: a coordinator that hands a bounded number of probing turns to the
requests that wait for their queues. Every critical section is one step. -/
open Kit Kit.Checked

namespace Ledgence

structure AcquisitionQueue where
  scope : Scope
  queue : String
  deriving DecidableEq

structure AcquisitionKey where
  queue : AcquisitionQueue
  workerSessionId : String
  consumerId : Nat
  sequence : Nat
  deriving DecidableEq

inductive AcquisitionCompletion where
  | replayed
  | claimed
  | finalizedEmpty
  deriving DecidableEq

inductive AcquisitionHint where
  | queueChanged (key : AcquisitionQueue)
  | acquisitionCompleted (key : AcquisitionKey)
  | rescan

namespace Coordinator

def fallbackInterval : Nat := 1000
def maxWaiters : Nat := 4096
def maxSubscribers : Nat := 2
def maxProbes : Nat := 4

inductive Fault where
  | refused (error : ContractError)
  /-- An `expect` or an index failed. -/
  | missing (expected : String)
  | underflow

def Fault.IsPanic : Fault → Prop
  | .refused _ => False
  | .missing _ | .underflow => True

def Fault.Any : Fault → Prop := fun _ => True

abbrev Outcome := Except Fault

structure Entry where
  id : Nat
  key : AcquisitionKey
  waiting : Bool
  receipt : Bool
  /-- A scheduled turn stays counted while awaiting a permit and while probing. -/
  turn : Option Nat
  deriving DecidableEq

structure Queue where
  key : AcquisitionQueue
  epoch : Nat
  isOpen : Bool
  width : Nat
  active : Nat
  nextTick : Nat
  order : List Nat
  deriving DecidableEq

structure State where
  stopping : Bool
  nextId : Nat
  entries : List Entry
  keys : List (AcquisitionKey × Nat)
  queues : List Queue
  order : List AcquisitionQueue
  nominated : Nat
  deriving DecidableEq

def Queue.hinted (q : Queue) : Queue :=
  { q with epoch := q.epoch + 1, isOpen := true, width := 1 }

/-- The clock samples of one round of `Registration::wait`. -/
structure WaitClock where
  until' : Nat
  checked : Nat
  ticked : Nat
  renewed : Nat

namespace State

def init : State := ⟨false, 0, [], [], [], [], 0⟩

variable (s : State)

def entry (id : Nat) : Outcome Entry :=
  okOr (Table.find Entry.id id s.entries) (.missing "registered")

def queue (key : AcquisitionQueue) : Outcome Queue :=
  okOr (Table.find Queue.key key s.queues) (.missing "registered queue")

def putEntry (e : Entry) : State := { s with entries := Table.put Entry.id e s.entries }

def putQueue (q : Queue) : State := { s with queues := Table.put Queue.key q s.queues }

def releaseTurn (id : Nat) : Outcome State := do
  let e ← s.entry id
  if e.turn.isSome then do
    let s := s.putEntry { e with turn := none }
    let nominated ← okOr (checkedSub s.nominated 1) .underflow
    let q ← s.queue e.key.queue
    let active ← okOr (checkedSub q.active 1) .underflow
    return { s.putQueue { q with active } with nominated }
  else return s

def parked : List Nat → Outcome (List Nat)
  | [] => .ok []
  | id :: order => do
    let e ← s.entry id
    let rest ← parked order
    return if e.waiting = true ∧ e.turn.isSome then id :: rest else rest

def revokeParkedTurns (key : AcquisitionQueue) : Outcome State := do
  let q ← s.queue key
  if q.isOpen = true then return s
  else do
    let ids ← s.parked q.order
    ids.foldlM State.releaseTurn s

/-- Rotate the members of a queue until one of them waits without a turn. -/
def nextWaiting : Nat → List Nat → Outcome (List Nat × Option Entry)
  | 0, order => .ok (order, none)
  | _ + 1, [] => .error (.missing "registered queue member")
  | left + 1, id :: order => do
    let e ← s.entry id
    if e.waiting = true ∧ e.turn = none then return (order ++ [id], some e)
    else nextWaiting left (order ++ [id])

def visit : Outcome (State × Bool) :=
  match s.order with
  | [] => .error (.missing "nonempty queue rotation")
  | key :: rest => do
    let q ← s.queue key
    let s := { s with order := rest ++ [key] }
    if q.isOpen = true ∧ q.active < q.width then do
      let (order, found) ← s.nextWaiting q.order.length q.order
      match found with
      | some e =>
        let s := (s.putEntry { e with turn := some q.epoch }).putQueue
          { q with active := q.active + 1, order }
        return ({ s with nominated := s.nominated + 1 }, true)
      | none => return (s.putQueue { q with order }, false)
    else return (s, false)

def scan : Nat → State → Outcome (State × Bool)
  | 0, s => .ok (s, false)
  | remaining + 1, s =>
    if s.nominated < maxProbes then do
      let (s, nominated) ← s.visit
      if nominated = true then return (s, true) else scan remaining s
    else .ok (s, false)

def rounds : Nat → State → Outcome State
  | 0, s => .ok s
  | turns + 1, s => do
    let (s, nominated) ← scan s.order.length s
    if nominated = true then rounds turns s else return s

/-- `pump`. It gives no more turns than are free. -/
def pump : Outcome State :=
  if s.stopping = true then .ok s else rounds (maxProbes - s.nominated) s

def newQueue (key : AcquisitionQueue) (now : Nat) : Queue :=
  ⟨key, 0, true, 1, 0, now + fallbackInterval, []⟩

def subscribers (key : AcquisitionKey) : Nat :=
  ((Table.find Prod.fst key s.keys).map Prod.snd).getD 0

def withQueue (key : AcquisitionQueue) (now : Nat) : State :=
  if key ∈ s.queues.map Queue.key then s
  else { s with order := s.order ++ [key], queues := s.queues ++ [newQueue key now] }

/-- `Registration::new` -/
def register (key : AcquisitionKey) (now : Nat) : Outcome (State × Nat) := do
  refuse (s.stopping = true) (.refused (.unavailable "acquisition service is draining"))
  refuse (maxWaiters ≤ s.entries.length ∨ maxSubscribers ≤ s.subscribers key)
    (.refused (.unavailable "acquisition waiter capacity exhausted"))
  let nextId ← okOr (checkedAdd u64Max s.nextId 1)
    (.refused (.unavailable "acquisition registration IDs exhausted"))
  let id := s.nextId
  let keys := Table.save Prod.fst (key, s.subscribers key + 1) s.keys
  let s := { s with nextId, keys }.withQueue key.queue now
  let q ← s.queue key.queue
  let s := s.putQueue { q with order := q.order ++ [id] }
  return ({ s with entries := s.entries ++ [⟨id, key, false, false, none⟩] }, id)

/-- `Registration::epoch` -/
def epoch (id : Nat) : Outcome Nat := do
  let e ← s.entry id
  let q ← s.queue e.key.queue
  return q.epoch

def close (key : AcquisitionQueue) (epoch : Nat) : Outcome State := do
  let q ← s.queue key
  return if epoch = q.epoch then s.putQueue { q with isOpen := false } else s

/-- `Registration::pending` -/
def pending (id epoch : Nat) : Outcome State := do
  let e ← s.entry id
  let s ← s.releaseTurn id
  let e' ← s.entry id
  let s ← (s.putEntry { e' with waiting := true }).close e.key.queue epoch
  let s ← s.revokeParkedTurns e.key.queue
  s.pump

/-- A late success cannot widen a queue that was closed in the meantime. -/
def widen (key : AcquisitionQueue) (epoch : Nat) (kind : AcquisitionCompletion) : Outcome State :=
  if kind = .claimed then do
    let q ← s.queue key
    return if epoch = q.epoch ∧ q.isOpen = true then s.putQueue { q with width := maxProbes } else s
  else .ok s

/-- `Registration::completed` -/
def completed (id epoch : Nat) (kind : AcquisitionCompletion) : Outcome State := do
  let e ← s.entry id
  let s ← s.releaseTurn id
  let s ← s.widen e.key.queue epoch kind
  s.pump

def fallback (q : Queue) (x : WaitClock) : Outcome State :=
  if q.nextTick ≤ x.ticked then
    (s.putQueue { q.hinted with nextTick := x.renewed + fallbackInterval }).pump
  else .ok s

def resume (id : Nat) (key : AcquisitionQueue) : Outcome (State × Option Nat) := do
  let s ← s.releaseTurn id
  let s ← s.pump
  let q ← s.queue key
  return (s, some q.epoch)

/-- One round of `Registration::wait`: the epoch that it returns, or none when it sleeps on. -/
def wait (id : Nat) (x : WaitClock) : Outcome (State × Option Nat) := do
  let e ← s.entry id
  if s.stopping = true ∨ x.until' ≤ x.checked then do
    (s.putEntry { e with waiting := false }).resume id e.key.queue
  else do
    let q ← s.queue e.key.queue
    let s ← s.fallback q x
    let e ← s.entry id
    if e.receipt = true then
      (s.putEntry { e with receipt := false, waiting := false }).resume id e.key.queue
    else
      match e.turn with
      | some epoch => return (s.putEntry { e with waiting := false }, some epoch)
      | none => return (s, none)

def unsubscribe (key : AcquisitionKey) : Outcome State := do
  let subscribers ← okOr (Table.find Prod.fst key s.keys) (.missing "registered key")
  let left ← okOr (checkedSub subscribers.2 1) .underflow
  return { s with
    keys := if left = 0 then s.keys.filter fun k => k.1 ≠ key
      else Table.put Prod.fst (key, left) s.keys }

def leave (id : Nat) (key : AcquisitionQueue) : Outcome State := do
  let q ← s.queue key
  let order := q.order.filter fun member => member ≠ id
  return if order = [] then
    { s with
      queues := s.queues.filter fun q => q.key ≠ key
      order := s.order.filter fun k => k ≠ key }
  else s.putQueue { q with order }

def drop (id : Nat) : Outcome State := do
  let s ← s.releaseTurn id
  let e ← s.entry id
  let s ← { s with entries := s.entries.filter fun e => e.id ≠ id }.unsubscribe e.key
  let s ← s.leave id e.key.queue
  s.pump

def hint : AcquisitionHint → Outcome State
  | .queueChanged key =>
    match Table.find Queue.key key s.queues with
    | none => .ok s
    | some q => (s.putQueue q.hinted).pump
  | .acquisitionCompleted key =>
    if key ∈ s.keys.map Prod.fst then
      pump { s with
        entries := s.entries.map fun e => if e.key = key then { e with receipt := true } else e }
    else .ok s
  | .rescan => pump { s with queues := s.queues.map Queue.hinted }

def stop : State := { s with stopping := true }

end State
end Coordinator
end Ledgence
