import Ledgence.Api.Decoding
import Ledgence.Dispatch.Records

/-! What a broker delivers: the bounds of a record and the dispatch that it names. -/
open Kit Kit.Checked

namespace Ledgence

def dispatchMaxBytes : Nat := 16 * 1024
def maxPublicationBatch : Nat := 100
def queueReceiptMaxBytes : Nat := 16 * 1024

structure QueueLimits where
  maxPublishBatch : Nat
  maxReceiveBatch : Nat
  maxAckBatch : Nat
  maxMessageBytes : Nat

def QueueLimits.validate (limits : QueueLimits) : Result Unit :=
  refuse ((∃ limit ∈ [limits.maxPublishBatch, limits.maxReceiveBatch, limits.maxAckBatch],
      ¬ (1 ≤ limit ∧ limit ≤ maxPublicationBatch)) ∨ limits.maxMessageBytes = 0)
    (invalid "queue limits exceed the portable contract")

structure QueueDelivery where
  body : List UInt8
  receipt : String

def validateReceipt (receipt : String) : Result Unit :=
  refuse (receipt = "" ∨ queueReceiptMaxBytes < byteLen receipt)
    (invalid "invalid queue receipt byte length")

def QueueDelivery.validate (delivery : QueueDelivery) (limits : QueueLimits) : Result Unit := do
  limits.validate
  refuse (min limits.maxMessageBytes dispatchMaxBytes < delivery.body.length)
    (invalid "queue record exceeds dispatch byte limit")
  validateReceipt delivery.receipt

/- Derived deserialization of structures that deny unknown fields. -/

def structFields (names : List String) : Json → Option (List Json)
  | .arr values => if values.length = names.length then some values else none
  | .obj members =>
    if members.all (fun m => names.contains m.1) = true then names.mapM fun name => members.lookup name
    else none
  | _ => none

def decodeU32 : Json → Option Nat
  | .num (.int (.ofNat n)) => if n < 2 ^ 32 then some n else none
  | _ => none

def Scope.deserialize (value : Json) : Option Scope := do
  match ← structFields ["tenant_id", "namespace"] value with
  | [.str tenantId, .str namespaceId] => some { tenantId, namespaceId }
  | _ => none

def DispatchRef.deserialize (value : Json) : Option DispatchRef := do
  match ← structFields ["scope", "queue", "task_id", "generation"] value with
  | [scope, .str queue, .str taskId, generation] =>
    let scope ← Scope.deserialize scope
    let generation ← decodeU32 generation
    return { scope, queue, taskId, generation }
  | _ => none

namespace PublishedDispatch

def deserialize (value : Json) : Option PublishedDispatch := do
  match ← structFields ["dispatch", "publication_id"] value with
  | [dispatch, .str publicationId] =>
    let dispatch ← DispatchRef.deserialize dispatch
    return { dispatch, publicationId }
  | _ => none

def validate (record : PublishedDispatch) : Result Unit := do
  record.dispatch.validate
  validateText record.publicationId 128

def decode (serde : Serde) (bytes : List UInt8) : Result PublishedDispatch := do
  let value ← lift (decodeUniqueJson serde bytes dispatchMaxBytes)
  let record ← okOr (deserialize value) (.ofError (invalidInput "invalid JSON command"))
  record.validate
  return record

end PublishedDispatch
end Ledgence

/-! The acquisition source over a broker whose records are acknowledged one by one: what one call
does between two points at which it waits. -/

namespace Ledgence.BrokerSource

/-- The wait is in nanoseconds, the deadline an instant. -/
structure AcquireOptions where
  maxWait : Nat
  deadline : Nat

def longPollWaitMs : Nat := 20000

def AcquireOptions.validate (options : AcquireOptions) : Result Unit :=
  refuse (longPollWaitMs * 1000000 < options.maxWait)
    (.invalidInput "acquisition wait exceeds 20000 ms")

inductive SourceReply where
  | idle
  | completed (reply : AcquireReply)
  /-- A handoff that grants no authority consumes its sequence. -/
  | discarded (sequence : Nat)
  | stopped (error : ContractError)

structure Receive where
  maxWait : Nat
  deadline : Nat

structure Acknowledgment where
  publicationId : String
  receipt : String

structure Pending where
  command : ClaimCommand
  /-- Taken before the only attempt to acknowledge. -/
  acknowledgment : Option Acknowledgment
  claimStarted : Bool
  /-- The durable handoff was observed. -/
  completed : Bool

structure Slot where
  sequence : Nat
  /-- It outlives the call that issued it. -/
  receiving : Option Receive
  pending : Option Pending

def Slot.new : Slot :=
  ⟨1, none, none⟩

inductive Stage where
  | receiving
  | claiming
  | acknowledging (reply : ClaimReply)

inductive Progress where
  | wait (stage : Stage)
  | returned (reply : Result SourceReply)

inductive Event where
  | advanced (sequence : Nat)
  | receive
  | received
  /-- The records of a receive stop the source; none of them is kept. -/
  | refused
  | selected (delivery : QueueDelivery)
  | claim (command : ClaimCommand)
  | handedOff (command : ClaimCommand) (reply : ClaimReply)
  | acknowledge (receipt : String)
  | returned (draining : Bool) (reply : Result SourceReply)

/- `acquire_once`, from the lock of the slot on. -/

def Slot.claimStarted (slot : Slot) : Bool :=
  slot.pending.any (·.claimStarted)

def Slot.advance (slot : Slot) (command : AcquireCommand) : Result (Slot × List Event) :=
  if command.sequence ≠ slot.sequence then
    if checkedAdd u64Max slot.sequence 1 = some command.sequence ∧
        slot.pending.any (·.completed) = true then
      .ok ({ slot with pending := none, sequence := command.sequence },
        [.advanced command.sequence])
    else
      .error (.invalidInput "broker acquisition sequence changed before durable completion")
  else .ok (slot, [])

structure Outcome where
  slot : Slot
  events : List Event
  progress : Progress

def returning (slot : Slot) (events : List Event) (draining : Bool) (reply : Result SourceReply) :
    Outcome :=
  ⟨slot, events ++ [.returned draining reply], .returned reply⟩

def claiming (slot : Slot) (events : List Event) (pending : Pending) : Outcome :=
  ⟨{ slot with pending := some { pending with claimStarted := true } },
    events ++ [.claim pending.command], .wait .claiming⟩

def enter (stopped : Option ContractError) (command : AcquireCommand) (options : AcquireOptions)
    (draining : Bool) (slot : Slot) : Outcome :=
  match slot.advance command with
  | .error error => returning slot [] draining (.error error)
  | .ok (slot, events) =>
    if slot.pending.any (fun pending => pending.command.acquisition ≠ command) = true then
      returning slot events draining (.error .conflict)
    else
      let uncommitted := slot.receiving.isNone && !slot.claimStarted
      match stopped, uncommitted with
      | some error, true => returning slot events draining (.ok (.stopped error))
      | _, _ =>
        if draining = true ∧ uncommitted = true then returning slot events draining (.ok .idle)
        else
          match slot.pending, slot.receiving with
          | some pending, _ => claiming slot events pending
          | none, some _ => ⟨slot, events, .wait .receiving⟩
          | none, none =>
            ⟨{ slot with receiving := some ⟨options.maxWait, options.deadline⟩ },
              events ++ [.receive], .wait .receiving⟩

def select (serde : Serde) (limits : QueueLimits) (command : AcquireCommand) :
    List QueueDelivery → Except String (Option (QueueDelivery × Pending))
  | [] => .ok none
  | [delivery] =>
    match delivery.validate limits with
    | .error _ =>
      .error "broker record or receipt exceeds configured bounds; record remains unacknowledged"
    | .ok () =>
      match PublishedDispatch.decode serde delivery.body with
      | .error _ => .error "malformed broker dispatch; record remains unacknowledged"
      | .ok record =>
        let claim : ClaimCommand := ⟨command, record.dispatch⟩
        match claim.validate with
        | .error _ =>
          .error "broker dispatch does not match the worker route; record remains unacknowledged"
        | .ok () =>
          .ok (some (delivery, ⟨claim, some ⟨record.publicationId, delivery.receipt⟩, false, false⟩))
  | _ => .error "broker returned more records than the reserved capacity"

/-- After the receive. The second component is the error that the call stops the source with. -/
def received (serde : Serde) (limits : QueueLimits) (stopped : Option ContractError)
    (command : AcquireCommand) (draining : Bool) (slot : Slot)
    (deliveries : Result (List QueueDelivery)) : Outcome × Option ContractError :=
  let slot := { slot with receiving := none }
  let stop (error : ContractError) : Outcome × Option ContractError :=
    let error := stopped.getD error
    (returning slot [.received, .refused] draining (.ok (.stopped error)), some error)
  match deliveries with
  | .error (.invalidQueueDelivery message) => stop (.invalidQueueDelivery message)
  | .error error => (returning slot [.received] draining (.error error), stopped)
  | .ok deliveries =>
    if draining = true then (returning slot [.received] draining (.ok .idle), stopped)
    else
      match select serde limits command deliveries with
      | .error message => stop (.invalidInput message)
      | .ok none => (returning slot [.received] draining (.ok .idle), stopped)
      | .ok (some (delivery, pending)) =>
        (claiming { slot with pending := some pending } [.received, .selected delivery] pending,
          stopped)

def finalReply (command : AcquireCommand) (reply : ClaimReply) : SourceReply :=
  match reply.disposition with
  | .claimed reply => .completed reply
  | .alreadyHandedOff _ | .terminalOrSuperseded | .deferred _ | .admissionDeferred _ =>
    .discarded command.sequence

/-- After the claim of `pending`. -/
def claimed (command : AcquireCommand) (draining : Bool) (slot : Slot) (pending : Pending)
    (reply : Result ClaimReply) : Outcome :=
  match reply with
  | .error error => returning slot [] draining (.error error)
  | .ok reply =>
    match reply.validateAgainst pending.command with
    | .error error => returning slot [] draining (.error error)
    | .ok () =>
      let slot := { slot with
        pending := some { pending with completed := true, acknowledgment := none } }
      let observed := [Event.handedOff pending.command reply]
      match pending.acknowledgment with
      | some acknowledgment =>
        ⟨slot, observed ++ [.acknowledge acknowledgment.receipt], .wait (.acknowledging reply)⟩
      | none => returning slot observed draining (.ok (finalReply command reply))

def acknowledged (command : AcquireCommand) (draining : Bool) (slot : Slot) (reply : ClaimReply) :
    Outcome :=
  returning slot [] draining (.ok (finalReply command reply))

end Ledgence.BrokerSource

/-! The source under its callers: any number of calls, of which one at a time holds a slot, in any
order and cancelled at any point where they wait. -/

namespace Ledgence.BrokerSource

structure Call where
  command : AcquireCommand
  options : AcquireOptions
  draining : Bool

structure Holder where
  call : Call
  stage : Stage

/-- A slot with the call that holds its lock, and all that happened to it, newest first. -/
structure LockedSlot where
  slot : Slot
  holder : Option Holder
  trace : List Event

def LockedSlot.new : LockedSlot :=
  ⟨.new, none, []⟩

namespace LockedSlot

/-- After a stretch of `call`. -/
def after (locked : LockedSlot) (call : Call) (outcome : Outcome) : LockedSlot where
  slot := outcome.slot
  holder :=
    match outcome.progress with
    | .wait stage => some ⟨call, stage⟩
    | .returned _ => none
  trace := outcome.events.reverse ++ locked.trace

def entered (locked : LockedSlot) (stopped : Option ContractError) (call : Call) : LockedSlot :=
  locked.after call (enter stopped call.command call.options call.draining locked.slot)

def cancelled (locked : LockedSlot) : LockedSlot :=
  { locked with holder := none }

end LockedSlot

inductive Mark where
  | started
  | refused
  | selected

def Event.mark : Event → Option Mark
  | .refused => some .refused
  | .selected _ => some .selected
  | .advanced _ | .receive | .received | .claim _ | .handedOff _ _ | .acknowledge _
  | .returned _ _ => none

/-- The registry of the source, the calls that wait for a lock and, as a record, the slots of
finished sessions and the marks, newest first. -/
structure World where
  session : Option WorkerSession
  slots : List (Option LockedSlot)
  stopped : Option ContractError
  waiting : List Call
  past : List LockedSlot
  marks : List Mark

def World.init : World :=
  ⟨none, [], none, [], [], []⟩

inductive Action where
  | startSession (session : WorkerSession)
  | finishSession (workerSessionId : String)
  | call (call : Call)
  /-- The waiting call at this place gets the lock of its slot. -/
  | lock (index : Nat)
  | received (consumerId : Nat) (deliveries : Result (List QueueDelivery))
  | claimed (consumerId : Nat) (reply : Result ClaimReply)
  | acknowledged (consumerId : Nat)
  | cancel (consumerId : Nat)
  | abandon (index : Nat)

def startSession (w : World) (session : WorkerSession) : Result World := do
  session.scope.validate
  validateText session.queue 128
  validateText session.id 128
  refuse (session.concurrency = 0) (.invalidInput "broker session needs consumers")
  refuse (w.session.isSome = true) (.invalidInput "broker source already has a worker session")
  return { w with
    slots := List.replicate session.concurrency none
    session := some session
    stopped := none
    marks := .started :: w.marks }

def World.Settled (w : World) : Prop :=
  w.waiting = [] ∧ ∀ locked ∈ w.slots.reduceOption, locked.holder.isNone = true

instance (w : World) : Decidable w.Settled :=
  decidable_of_iff (w.waiting.isEmpty = true ∧
      ∀ locked ∈ w.slots.reduceOption, locked.holder.isNone = true) (by
    simp [World.Settled])

def finishSession (w : World) (workerSessionId : String) : World :=
  if w.session.any (fun session => session.id = workerSessionId) = true then
    { w with
      session := none
      slots := []
      stopped := none
      past := w.slots.reduceOption ++ w.past }
  else w

def slotFor (w : World) (command : AcquireCommand) : Result World := do
  let session ← okOr w.session (.invalidInput "broker source has no active worker session")
  refuse (command.workerSessionId ≠ session.id ∨ command.scope ≠ session.scope ∨
      command.queue ≠ session.queue ∨ session.concurrency ≤ command.consumerId ∨
      command.sequence = 0)
    (.invalidInput "broker acquisition does not match its registered consumer")
  return { w with
    slots := w.slots.modify command.consumerId fun locked => some (locked.getD .new) }

def World.slot? (w : World) (consumerId : Nat) : Option LockedSlot :=
  w.slots[consumerId]?.join

def World.putSlot (w : World) (consumerId : Nat) (locked : LockedSlot) (events : List Event)
    (stopped : Option ContractError) : World :=
  { w with
    slots := w.slots.set consumerId (some locked)
    stopped := stopped
    marks := (events.filterMap Event.mark).reverse ++ w.marks }

/- What an action does; `none` where it is not possible. -/

def World.call (w : World) (call : Call) : Option World :=
  match call.options.validate, slotFor w call.command with
  | .ok (), .ok w => some { w with waiting := w.waiting ++ [call] }
  | _, _ => none

def World.lock (w : World) (index : Nat) : Option World := do
  let call ← w.waiting[index]?
  let locked ← w.slot? call.command.consumerId
  match locked.holder with
  | some _ => none
  | none =>
    let outcome := enter w.stopped call.command call.options call.draining locked.slot
    some { w.putSlot call.command.consumerId (locked.after call outcome) outcome.events
      w.stopped with waiting := w.waiting.eraseIdx index }

def World.claimed (w : World) (consumerId : Nat) (reply : Result ClaimReply) : Option World := do
  let locked ← w.slot? consumerId
  match locked.holder, locked.slot.pending with
  | some ⟨call, .claiming⟩, some pending =>
    let outcome := BrokerSource.claimed call.command call.draining locked.slot pending reply
    some (w.putSlot consumerId (locked.after call outcome) outcome.events w.stopped)
  | _, _ => none

def World.acknowledged (w : World) (consumerId : Nat) : Option World := do
  let locked ← w.slot? consumerId
  match locked.holder with
  | some ⟨call, .acknowledging reply⟩ =>
    let outcome := BrokerSource.acknowledged call.command call.draining locked.slot reply
    some (w.putSlot consumerId (locked.after call outcome) outcome.events w.stopped)
  | _ => none

section Step

variable (serde : Serde) (limits : QueueLimits)

def World.received (w : World) (consumerId : Nat) (deliveries : Result (List QueueDelivery)) :
    Option World := do
  let locked ← w.slot? consumerId
  match locked.holder with
  | some ⟨call, .receiving⟩ =>
    let result :=
      BrokerSource.received serde limits w.stopped call.command call.draining locked.slot deliveries
    some (w.putSlot consumerId (locked.after call result.1) result.1.events result.2)
  | _ => none

def step? (w : World) : Action → Option World
  | .startSession session => (startSession w session).toOption
  | .finishSession id => if w.Settled then some (finishSession w id) else none
  | .call call => w.call call
  | .lock index => w.lock index
  | .received consumerId deliveries => w.received serde limits consumerId deliveries
  | .claimed consumerId reply => w.claimed consumerId reply
  | .acknowledged consumerId => w.acknowledged consumerId
  | .cancel consumerId =>
    (w.slot? consumerId).map fun locked => w.putSlot consumerId locked.cancelled [] w.stopped
  | .abandon index => some { w with waiting := w.waiting.eraseIdx index }

def step (w : World) (a : Action) : World :=
  (step? serde limits w a).getD w

def run (w : World) (actions : List Action) : World :=
  actions.foldl (step serde limits) w

end Step
end Ledgence.BrokerSource
