import Ledgence.Kit.Checked
import Ledgence.Kit.OrderedMap
import Ledgence.Worker.Invocation

/-! The process slots of a worker. Slot identities travel with the ownership that retains capacity. -/
open Kit Kit.Checked

namespace Ledgence
namespace WorkerPool

inductive ProcessSlotState where
  | empty
  | starting
  | warm
  | executing
  | retiring
  | cleanupPending
  | unknown
  deriving DecidableEq

structure WorkerObservationScope where
  tenantId : String
  namespaceId : String
  deriving DecidableEq

structure InvocationObservation where
  taskId : String
  attemptId : String
  deriving DecidableEq

structure SlotObservation where
  slotId : Nat
  state : ProcessSlotState
  processInstanceId : Option String
  processId : Option Nat
  program : Option ProgramRef
  digest : Option Digest
  scope : Option WorkerObservationScope
  invocation : Option InvocationObservation
  deriving DecidableEq

structure SessionKey where
  digest : Digest
  tenant : String
  namespaceId : String
  deriving DecidableEq

structure SlotToken where
  id : Nat
  deriving DecidableEq

structure Idle where
  slot : SlotToken
  key : SessionKey
  pid : Nat
  deriving DecidableEq

structure Pool where
  slots : OrderedMap Nat SlotObservation
  nextProcessInstance : Nat
  idle : List Idle
  quarantined : List Idle
  /-- Starts that panicked before they returned a cleanup handle. -/
  unresolvedStarts : List SlotToken

/-- A refusal, or an `expect` that failed. -/
inductive Fault where
  | refused (error : Error)
  | missing (expected : String)

abbrev Outcome := Except Fault

def invocation (identity : InvocationIdentity) : InvocationObservation :=
  ⟨identity.taskId, identity.attemptId⟩

def emptySlot (slotId : Nat) : SlotObservation :=
  ⟨slotId, .empty, none, none, none, none, none, none⟩

def procId (instance' : Nat) : String := "proc_" ++ toString instance'

def SessionKey.scope (key : SessionKey) : WorkerObservationScope :=
  ⟨key.tenant, key.namespaceId⟩

def leastFree : Nat → List Nat → Nat
  | id, [] => id
  | id, occupied :: rest => if occupied = id then leastFree (id + 1) rest else id

namespace Pool

def init : Pool := ⟨.empty, 0, [], [], []⟩

variable (pool : Pool)

def reserveSlot (capacity : Nat) : Outcome (Pool × SlotToken) :=
  let id := leastFree 0 pool.slots.keys
  if capacity ≤ id then .error (.refused ⟨.capacity, "process slots are occupied"⟩)
  else .ok ({ pool with slots := pool.slots.insert id { emptySlot id with state := .unknown } }, ⟨id⟩)

def observe (slot : SlotToken) (f : SlotObservation → SlotObservation) : Outcome Pool := do
  let _ ← okOr (pool.slots.find slot.id) (.missing "owned slot")
  return { pool with slots := pool.slots.modify slot.id f }

def starting (slot : SlotToken) (key : SessionKey) (program : ProgramRef)
    (identity : InvocationIdentity) : Outcome Pool := do
  let nextProcessInstance ← okOr (checkedAdd u64Max pool.nextProcessInstance 1)
    (.refused ⟨.capacity, "process observation identity exhausted"⟩)
  { pool with nextProcessInstance }.observe slot fun _ =>
    { slotId := slot.id
      state := .starting
      processInstanceId := some (procId nextProcessInstance)
      processId := none
      program := some program
      digest := some key.digest
      scope := some key.scope
      invocation := some (invocation identity) }

def state (slot : SlotToken) (state : ProcessSlotState) : Outcome Pool :=
  pool.observe slot fun observation => { observation with state }

def executing (slot : SlotToken) (pid : Nat) (identity : InvocationIdentity) : Outcome Pool :=
  pool.observe slot fun observation =>
    { observation with
      state := .executing, processId := some pid, invocation := some (invocation identity) }

def warm (slot : SlotToken) : Outcome Pool :=
  pool.observe slot fun observation => { observation with state := .warm, invocation := none }

def release (slot : SlotToken) : Outcome Pool := do
  let _ ← okOr (pool.slots.find slot.id) (.missing "owned slot")
  return { pool with slots := pool.slots.erase slot.id }

def quarantine (session : Idle) : Outcome Pool := do
  let pool ← pool.state session.slot .cleanupPending
  return { pool with quarantined := pool.quarantined ++ [session] }

end Pool

def swapRemove {α : Type} (i : Nat) (xs : List α) : List α :=
  match xs.getLast? with
  | none => []
  | some last => (xs.set i last).dropLast

def pop {α : Type} (xs : List α) : Option (α × List α) :=
  xs.getLast?.map fun last => (last, xs.dropLast)

end WorkerPool
end Ledgence

/-! The operations that use the slots of a worker. Every critical section under the pool lock is one
step, and starts and closes are calls with any outcome. -/

namespace Ledgence
namespace WorkerPool

structure SessionRequest where
  key : SessionKey
  program : ProgramRef
  identity : InvocationIdentity

inductive StartOutcome where
  | ready (pid : Nat)
  | cleanupRequired (pid : Nat)
  | failed
  | panicked

inductive CloseOutcome where
  | closed
  | failed
  | panicked
  /-- Only a shutdown with a cleanup budget gives up waiting. -/
  | timedOut
  deriving DecidableEq

inductive Stage where
  /-- An invocation without a session. -/
  | admitted
  /-- A session is retired to make room for the request; is it marked yet? -/
  | replacing (request : SessionRequest) (session : Idle) (marked : Bool)
  /-- A slot without a process, which was new or was made free by a retirement. -/
  | reserved (request : SessionRequest) (slot : SlotToken) (replaced : Bool)
  | starting (request : SessionRequest) (slot : SlotToken)
  | owned (session : Idle)
  | retiring (session : Idle) (marked : Bool)
  /-- A shutdown between two of its rounds. -/
  | draining
  | sampled (active : Bool)
  | stopping (session : Idle) (marked : Bool)
  | checking
  | stopped (complete : Bool)

inductive Event where
  | session (request : SessionRequest)
  | retireIdle
  | start (cancelled : Bool)
  | started (outcome : StartOutcome)
  | mark
  | close (outcome : CloseOutcome)
  | execute (identity : InvocationIdentity)
  | reuse
  | retire
  | sample (external : Bool)
  | pop (expired : Bool)
  | check

def Event.failsClosed : Event → Bool
  | .started .panicked | .close .panicked => true
  | _ => false

def Stage.isShutdown : Stage → Bool
  | .draining | .sampled _ | .stopping _ _ | .checking | .stopped _ => true
  | _ => false

structure Operation where
  id : Nat
  stage : Stage

structure Worker where
  concurrency : Nat
  pool : Pool
  operations : List Operation
  nextId : Nat
  accepting : Bool
  unresolvedOperations : Nat

namespace Pool
variable (pool : Pool)

def takeWarm (key : SessionKey) : Option (Idle × List Idle) := do
  let index ← pool.idle.findIdx? fun idle => idle.key = key
  let idle ← pool.idle[index]?
  return (idle, swapRemove index pool.idle)

/-- The first critical section of `session`. -/
def session (concurrency : Nat) (request : SessionRequest) : Outcome (Pool × Stage) :=
  match pool.takeWarm request.key with
  | some (session, idle) => do
    let pool ← { pool with idle }.state session.slot .unknown
    return (pool, .owned session)
  | none =>
    if pool.slots.keys.length < concurrency then
      match pool.reserveSlot concurrency with
      | .ok (pool, slot) => .ok (pool, .reserved request slot false)
      | .error (.refused _) => .ok (pool, .admitted)
      | .error fault => .error fault
    else
      match pop pool.idle with
      | some (session, idle) => .ok ({ pool with idle }, .replacing request session false)
      -- process slots are awaiting retirement
      | none => .ok (pool, .admitted)

def start (request : SessionRequest) (slot : SlotToken) (cancelled : Bool) :
    Outcome (Pool × Stage) :=
  if cancelled = true then do
    let pool ← pool.release slot
    return (pool, .admitted)
  else
    match pool.starting slot request.key request.program request.identity with
    | .ok pool => .ok (pool, .starting request slot)
    | .error (.refused _) => do
      let pool ← pool.release slot
      return (pool, .admitted)
    | .error fault => .error fault

def started (request : SessionRequest) (slot : SlotToken) : StartOutcome → Outcome (Pool × Stage)
  | .ready pid => .ok (pool, .owned ⟨slot, request.key, pid⟩)
  | .cleanupRequired pid => do
    let pool ← pool.quarantine ⟨slot, request.key, pid⟩
    return (pool, .admitted)
  | .failed => do
    let pool ← pool.release slot
    return (pool, .admitted)
  | .panicked => do
    let pool ← pool.state slot .unknown
    return ({ pool with unresolvedStarts := pool.unresolvedStarts ++ [slot] }, .admitted)

def retireIdle : Pool × Stage :=
  match pop pool.idle with
  | some (session, idle) => ({ pool with idle }, .retiring session false)
  | none => (pool, .admitted)

def closed (session : Idle) (outcome : CloseOutcome) (failed succeeded : Stage) :
    Outcome (Pool × Stage) :=
  if outcome = .closed then do
    let pool ← pool.release session.slot
    return (pool, succeeded)
  else do
    let pool ← pool.quarantine session
    return (pool, failed)

def replaced (request : SessionRequest) (session : Idle) (outcome : CloseOutcome) :
    Outcome (Pool × Stage) :=
  if outcome = .closed then .ok (pool, .reserved request session.slot true)
  else do
    let pool ← pool.quarantine session
    return (pool, .admitted)

def mark (session : Idle) (next : Stage) : Outcome (Pool × Stage) := do
  let pool ← pool.state session.slot .retiring
  return (pool, next)

def reuse (session : Idle) : Outcome (Pool × Stage) := do
  let pool ← pool.warm session.slot
  return ({ pool with idle := pool.idle ++ [session] }, .admitted)

def popAny (active expired : Bool) : Pool × Stage :=
  match pop pool.quarantined with
  | some (session, quarantined) => ({ pool with quarantined }, .stopping session false)
  | none =>
    match pop pool.idle with
    | some (session, idle) => ({ pool with idle }, .stopping session false)
    | none =>
      if active = false then (pool, .checking)
      else if expired = true then (pool, .stopped false)
      else (pool, .draining)

end Pool

namespace Worker

def init (concurrency : Nat) : Worker := ⟨concurrency, .init, [], 0, true, 0⟩

variable (w : Worker)

def active : Bool := w.operations.any fun op => !op.stage.isShutdown

def advance : Stage → Event → Outcome (Option (Pool × Stage))
  | .admitted, .session request => some <$> w.pool.session w.concurrency request
  | .admitted, .retireIdle => .ok (some w.pool.retireIdle)
  | .replacing request session false, .mark =>
    some <$> w.pool.mark session (.replacing request session true)
  | .replacing request session true, .close outcome => some <$> w.pool.replaced request session outcome
  | .reserved request slot _, .start cancelled => some <$> w.pool.start request slot cancelled
  | .starting request slot, .started outcome => some <$> w.pool.started request slot outcome
  | .owned session, .execute identity => do
    let pool ← w.pool.executing session.slot session.pid identity
    return some (pool, .owned session)
  | .owned session, .reuse => some <$> w.pool.reuse session
  | .owned session, .retire => some <$> w.pool.mark session (.retiring session true)
  | .retiring session false, .mark => some <$> w.pool.mark session (.retiring session true)
  | .retiring session true, .close outcome =>
    some <$> w.pool.closed session outcome .admitted .admitted
  | .draining, .sample external => .ok (some (w.pool, .sampled (w.active || external)))
  | .sampled active, .pop expired => .ok (some (w.pool.popAny active expired))
  | .stopping session false, .mark => some <$> w.pool.mark session (.stopping session true)
  | .stopping session _, .close .timedOut =>
    some <$> w.pool.closed session .timedOut (.stopped false) .draining
  | .stopping session true, .close outcome =>
    some <$> w.pool.closed session outcome (.stopped false) .draining
  | .checking, .check =>
    .ok (some (w.pool, .stopped (w.pool.slots.keys = [] ∧ w.unresolvedOperations = 0)))
  | _, _ => .ok none

def proceed (op : Operation) (event : Event) : Outcome Worker := do
  match ← w.advance op.stage event with
  | none => return w
  | some (pool, stage) =>
    return { w with
      pool
      operations := Table.put Operation.id { op with stage } w.operations
      accepting := w.accepting && !event.failsClosed }

end Worker

inductive Action where
  /-- A new invocation. -/
  | invoke
  /-- A shutdown, which waits for an earlier one. -/
  | shutdown
  | proceed (id : Nat) (event : Event)
  /-- An operation that owns nothing returns. -/
  | finish (id : Nat)
  /-- A fetch, or another operation of an adapter, has no known end. -/
  | unresolved

namespace Worker
variable (w : Worker)

def begin' (stage : Stage) : Worker :=
  { w with operations := w.operations ++ [⟨w.nextId, stage⟩], nextId := w.nextId + 1 }

def step : Action → Outcome Worker
  | .invoke => .ok (if w.accepting = true then w.begin' .admitted else w)
  | .shutdown =>
    .ok (if (w.operations.any fun op => op.stage.isShutdown) = true then w
      else { w with accepting := false }.begin' .draining)
  | .proceed id event =>
    match Table.find Operation.id id w.operations with
    | none => .ok w
    | some op => w.proceed op event
  | .finish id =>
    match Table.find Operation.id id w.operations with
    | some ⟨_, .admitted⟩ | some ⟨_, .stopped _⟩ =>
      .ok { w with operations := w.operations.filter fun op => op.id ≠ id }
    | _ => .ok w
  | .unresolved =>
    .ok { w with accepting := false, unresolvedOperations := w.unresolvedOperations + 1 }

def run (concurrency : Nat) (actions : List Action) : Outcome Worker :=
  actions.foldlM step (init concurrency)

end Worker
end WorkerPool
end Ledgence
