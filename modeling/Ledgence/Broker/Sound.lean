import Ledgence.Broker.Sessions

/-! What may happen to a slot after what has happened to it, and the invariant that ties a slot to
its past. -/
open Kit Kit.Checked

namespace Ledgence.BrokerSource

/- The past of a slot, newest first. -/

def Event.isAdvance : Event → Bool
  | .advanced _ => true
  | _ => false

def current (past : List Event) : List Event :=
  past.takeWhile fun e => !e.isAdvance

def sequenceOf : List Event → Nat
  | [] => 1
  | .advanced sequence :: _ => sequence
  | _ :: past => sequenceOf past

def held : List Event → Option QueueDelivery
  | [] => none
  | .advanced _ :: _ => none
  | .selected delivery :: _ => some delivery
  | _ :: past => held past

def inFlight : List Event → Nat
  | [] => 0
  | .receive :: past => inFlight past + 1
  | .received :: past => inFlight past - 1
  | _ :: past => inFlight past

def Names (serde : Serde) (delivery : QueueDelivery) (dispatch : DispatchRef) : Prop :=
  ∃ publicationId, PublishedDispatch.decode serde delivery.body = .ok ⟨dispatch, publicationId⟩

/-- The rules of a slot: what may happen next, by what happened before. -/
def Allowed (serde : Serde) (past : List Event) : Event → Prop
  -- by one, and after a reply was observed
  | .advanced sequence =>
    sequence = sequenceOf past + 1 ∧ ∃ command reply, .handedOff command reply ∈ current past
  -- no receive overlaps another one or a held record
  | .receive => inFlight past = 0 ∧ held past = none
  | .received => inFlight past = 1 ∧ held past = none
  -- the records of one receive are refused, or one of them is selected
  | .refused => ∃ before, past = .received :: before
  | .selected _ => (∃ before, past = .received :: before) ∧ held past = none
  -- one command a sequence, for the held record
  | .claim command =>
    (∃ delivery, held past = some delivery ∧ Names serde delivery command.dispatch) ∧
      command.acquisition.sequence = sequenceOf past ∧
      ∀ other, .claim other ∈ current past → other = command
  | .handedOff command reply =>
    .claim command ∈ current past ∧ reply.validateAgainst command = .ok ()
  -- once a held record, after the reply to the claim of its own dispatch
  | .acknowledge receipt =>
    (∃ delivery command reply, held past = some delivery ∧ delivery.receipt = receipt ∧
      Names serde delivery command.dispatch ∧ .handedOff command reply ∈ current past) ∧
      ∀ other, .acknowledge other ∉ current past
  -- nobody gives up on a held record; idle shutdown means that nothing was claimed
  | .returned draining reply =>
    (held past ≠ none → reply ≠ .ok .idle ∧ ∀ error, reply ≠ .ok (.stopped error)) ∧
      (draining = true → reply = .ok .idle → ∀ command, .claim command ∉ current past)

def Sound (serde : Serde) : List Event → Prop
  | [] => True
  | e :: past => Allowed serde past e ∧ Sound serde past

structure Selected (serde : Serde) (past : List Event) (pending : Pending) (delivery : QueueDelivery) :
    Prop where
  held : held past = some delivery
  names : Names serde delivery pending.command.dispatch
  started : pending.claimStarted = true
  sequence : pending.command.acquisition.sequence = sequenceOf past
  claims : ∀ command, .claim command ∈ current past → command = pending.command
  receipt : ∀ a ∈ pending.acknowledgment, a.receipt = delivery.receipt ∧
    ∀ other, .acknowledge other ∉ current past
  settled : pending.acknowledgment = none → ∃ receipt, .acknowledge receipt ∈ current past
  observed : pending.completed = true → ∃ reply, .handedOff pending.command reply ∈ current past

structure Untouched (past : List Event) : Prop where
  held : held past = none
  unclaimed : ∀ command, .claim command ∉ current past
  unacknowledged : ∀ receipt, .acknowledge receipt ∉ current past

structure Kept (serde : Serde) (slot : Slot) (past : List Event) : Prop where
  sound : Sound serde past
  sequence : slot.sequence = sequenceOf past
  flight : inFlight past = if slot.receiving.isSome = true then 1 else 0
  alone : slot.receiving.isSome = true → slot.pending = none
  free : slot.pending = none → Untouched past
  taken : ∀ pending ∈ slot.pending, ∃ delivery, Selected serde past pending delivery

def Holds (slot : Slot) (past : List Event) (holder : Holder) : Prop :=
  match holder.stage with
  | .receiving => slot.receiving.isSome = true ∧ holder.call.command.sequence = slot.sequence
  | .claiming => ∃ pending, slot.pending = some pending ∧ .claim pending.command ∈ current past
  | .acknowledging _ => True

structure LockedSlot.Good (serde : Serde) (locked : LockedSlot) : Prop where
  kept : Kept serde locked.slot locked.trace
  holder : ∀ holder ∈ locked.holder, Holds locked.slot locked.trace holder

section Kept

variable {serde : Serde} {slot : Slot} {past : List Event}

attribute [simp] Event.isAdvance sequenceOf held inFlight

@[simp] theorem current_advanced (sequence : Nat) : current (.advanced sequence :: past) = [] := rfl

@[simp] theorem current_cons {e : Event} (h : e.isAdvance = false) :
    current (e :: past) = e :: current past := by
  rw [current, List.takeWhile_cons_of_pos (by rw [h]; rfl)]
  rfl

theorem Kept.new (serde : Serde) : Kept serde .new [] where
  sound := trivial
  sequence := rfl
  flight := rfl
  alone := by simp [Slot.new]
  free _ := ⟨rfl, by simp [current], by simp [current]⟩
  taken := by simp [Slot.new]

theorem Untouched.cons {e : Event} (h : Untouched past) (same : e.isAdvance = false)
    (head : BrokerSource.held (e :: past) = BrokerSource.held past)
    (claim : ∀ command, e ≠ .claim command) (ack : ∀ receipt, e ≠ .acknowledge receipt) :
    Untouched (e :: past) where
  held := head.trans h.held
  unclaimed command mem := by
    rw [current_cons same, List.mem_cons] at mem
    exact mem.elim (fun now => claim command now.symm) (h.unclaimed command)
  unacknowledged receipt mem := by
    rw [current_cons same, List.mem_cons] at mem
    exact mem.elim (fun now => ack receipt now.symm) (h.unacknowledged receipt)

theorem Selected.cons {pending : Pending} {delivery : QueueDelivery} {e : Event}
    (h : Selected serde past pending delivery) (same : Event.isAdvance e = false)
    (head : BrokerSource.held (e :: past) = BrokerSource.held past)
    (seq : sequenceOf (e :: past) = sequenceOf past)
    (claim : ∀ command, e = .claim command → command = pending.command)
    (ack : ∀ receipt, e ≠ .acknowledge receipt) :
    Selected serde (e :: past) pending delivery where
  held := head.trans h.held
  names := h.names
  started := h.started
  sequence := h.sequence.trans seq.symm
  claims command mem := by
    rw [current_cons same, List.mem_cons] at mem
    cases mem with
    | inl now => exact claim command now.symm
    | inr before => exact h.claims command before
  receipt a ha := by
    refine ⟨(h.receipt a ha).1, fun other mem => ?_⟩
    rw [current_cons same, List.mem_cons] at mem
    cases mem with
    | inl now => exact ack other now.symm
    | inr before => exact (h.receipt a ha).2 other before
  settled none := by
    obtain ⟨receipt, mem⟩ := h.settled none
    exact ⟨receipt, by rw [current_cons same]; exact List.mem_cons_of_mem _ mem⟩
  observed done := by
    obtain ⟨reply, mem⟩ := h.observed done
    exact ⟨reply, by rw [current_cons same]; exact List.mem_cons_of_mem _ mem⟩

theorem Kept.returned (kept : Kept serde slot past) {draining : Bool} {reply : Result SourceReply}
    (allowed : Allowed serde past (.returned draining reply)) :
    Kept serde slot (.returned draining reply :: past) where
  sound := ⟨allowed, kept.sound⟩
  sequence := kept.sequence
  flight := kept.flight
  alone := kept.alone
  free none := (kept.free none).cons rfl rfl nofun nofun
  taken pending mem := by
    obtain ⟨delivery, selected⟩ := kept.taken pending mem
    exact ⟨delivery, selected.cons rfl rfl rfl (by simp) (by simp)⟩

theorem allowed_error (past : List Event) (draining : Bool) (error : ContractError) :
    Allowed serde past (.returned draining (.error error)) := by
  refine ⟨fun _ => ⟨nofun, fun _ => nofun⟩, fun _ => nofun⟩

theorem Kept.allowed_free (kept : Kept serde slot past) (none : slot.pending = none)
    (draining : Bool) (reply : Result SourceReply) :
    Allowed serde past (.returned draining reply) := by
  exact ⟨fun some => absurd (kept.free none).held some, fun _ _ => (kept.free none).unclaimed⟩

theorem Kept.uncommitted (kept : Kept serde slot past) (h : slot.claimStarted = false) :
    slot.pending = none := by
  cases pending : slot.pending with
  | none => rfl
  | some p =>
    obtain ⟨delivery, selected⟩ := kept.taken p pending
    rw [Slot.claimStarted, pending, Option.any_some, selected.started] at h
    cases h

theorem advance_kept (kept : Kept serde slot past) {command : AcquireCommand} {slot' : Slot}
    {events : List Event} (h : slot.advance command = .ok (slot', events)) :
    Kept serde slot' (events.reverse ++ past) ∧ command.sequence = slot'.sequence := by
  rw [Slot.advance] at h
  split_ifs at h with other next
  · obtain ⟨rfl, rfl⟩ := Prod.mk.inj (Except.ok.inj h)
    refine ⟨?_, rfl⟩
    obtain ⟨number, done⟩ := next
    obtain ⟨pending, mem, completed⟩ := (Option.any_eq_true _ _).mp done
    obtain ⟨delivery, selected⟩ := kept.taken pending mem
    obtain ⟨reply, observed⟩ := selected.observed completed
    have following : command.sequence = sequenceOf past + 1 := by
      rw [← kept.sequence]
      exact (checkedAdd_eq_some.mp number).2.symm
    exact {
      sound := ⟨⟨following, _, reply, observed⟩, kept.sound⟩
      sequence := rfl
      flight := kept.flight
      alone := fun _ => rfl
      free := fun _ => ⟨rfl, by simp, by simp⟩
      taken := by simp }
  · obtain ⟨rfl, rfl⟩ := Prod.mk.inj (Except.ok.inj h)
    exact ⟨kept, not_not.mp other⟩

theorem kept_claim {pending : Pending} {delivery : QueueDelivery} (sound : Sound serde past)
    (sequence : slot.sequence = sequenceOf past) (none : slot.receiving = none)
    (flight : inFlight past = 0) (selected : Selected serde past pending delivery) :
    Kept serde { slot with pending := some pending } (.claim pending.command :: past) where
  sound := ⟨⟨⟨delivery, selected.held, selected.names⟩, selected.sequence, selected.claims⟩, sound⟩
  sequence := sequence
  flight := by
    rw [none]
    exact flight
  alone some := by
    rw [none] at some
    cases some
  free := nofun
  taken p mem := by
    obtain rfl : pending = p := Option.some.inj mem
    exact ⟨delivery, selected.cons rfl rfl rfl (fun _ e => (Event.claim.inj e).symm) (by simp)⟩

theorem Kept.flight_zero (kept : Kept serde slot past) (h : slot.receiving = none) :
    inFlight past = 0 := by
  rw [kept.flight, h]
  rfl

theorem Kept.receiving_none (kept : Kept serde slot past) {pending : Pending}
    (h : slot.pending = some pending) : slot.receiving = none := by
  cases receiving : slot.receiving with
  | none => rfl
  | some r =>
    have none := kept.alone (by rw [receiving]; rfl)
    rw [none] at h
    cases h

theorem claiming_kept (kept : Kept serde slot past) {pending : Pending}
    (h : slot.pending = some pending) :
    Kept serde { slot with pending := some { pending with claimStarted := true } }
      (.claim pending.command :: past) := by
  obtain ⟨delivery, selected⟩ := kept.taken pending h
  have none := kept.receiving_none h
  have same : { pending with claimStarted := true } = pending := by
    rw [← selected.started]
  rw [same]
  exact kept_claim kept.sound kept.sequence none (kept.flight_zero none) selected

/-- A stretch of a call that begins at `past` keeps the slot. -/
structure Outcome.Good (serde : Serde) (past : List Event) (call : Call) (outcome : Outcome) :
    Prop where
  kept : Kept serde outcome.slot (outcome.events.reverse ++ past)
  holds : ∀ stage, outcome.progress = .wait stage →
    Holds outcome.slot (outcome.events.reverse ++ past) ⟨call, stage⟩

theorem returning_good {events : List Event} (call : Call)
    (kept : Kept serde slot (events.reverse ++ past)) {draining : Bool} {reply : Result SourceReply}
    (allowed : Allowed serde (events.reverse ++ past) (.returned draining reply)) :
    (returning slot events draining reply).Good serde past call where
  kept := by
    rw [returning, List.reverse_append]
    exact kept.returned allowed
  holds stage e := by
    rw [returning] at e
    cases e

theorem claiming_good {events : List Event} (call : Call)
    (kept : Kept serde slot (events.reverse ++ past)) {pending : Pending}
    (h : slot.pending = some pending) : (claiming slot events pending).Good serde past call where
  kept := by
    rw [claiming, List.reverse_append]
    exact claiming_kept kept h
  holds stage e := by
    cases e
    rw [claiming, List.reverse_append]
    refine ⟨_, rfl, ?_⟩
    show _ ∈ current (.claim pending.command :: (events.reverse ++ past))
    rw [current_cons rfl]
    exact List.mem_cons_self

theorem kept_receive (kept : Kept serde slot past) (free : slot.pending = none)
    (idle : slot.receiving = none) (receive : Receive) :
    Kept serde { slot with receiving := some receive } (.receive :: past) where
  sound := ⟨⟨kept.flight_zero idle, (kept.free free).held⟩, kept.sound⟩
  sequence := kept.sequence
  flight := by
    rw [inFlight, kept.flight_zero idle]
    rfl
  alone _ := free
  free _ := (kept.free free).cons rfl rfl nofun nofun
  taken pending mem := by
    rw [Option.mem_def, free] at mem
    cases mem

theorem enter_good (kept : Kept serde slot past) (stopped : Option ContractError) (call : Call) :
    (enter stopped call.command call.options call.draining slot).Good serde past call := by
  unfold enter
  split
  case h_1 error _ => exact returning_good call kept (allowed_error _ _ error)
  case h_2 slot events advanced =>
    obtain ⟨kept, sequence⟩ := advance_kept kept advanced
    split_ifs with conflict
    · exact returning_good call kept (allowed_error _ _ _)
    · have free : (slot.receiving.isNone && !slot.claimStarted) = true → slot.pending = none := by
        intro h
        rw [Bool.and_eq_true, Bool.not_eq_true'] at h
        exact kept.uncommitted h.2
      simp only
      split
      case h_1 error uncommitted =>
        exact returning_good call kept (kept.allowed_free (free uncommitted) _ _)
      case h_2 =>
        split_ifs with drained
        · exact returning_good call kept (kept.allowed_free (free drained.2) _ _)
        · split
          case h_1 pending _ => exact claiming_good call kept ‹_›
          case h_2 receive none some =>
            refine ⟨kept, fun stage e => ?_⟩
            cases e
            exact ⟨by rw [some]; rfl, sequence⟩
          case h_3 none idle =>
            refine ⟨?_, fun stage e => ?_⟩
            · rw [List.reverse_append]
              exact kept_receive kept none idle _
            · cases e
              exact ⟨rfl, sequence⟩

theorem kept_received (kept : Kept serde slot past) (receiving : slot.receiving.isSome = true) :
    Kept serde { slot with receiving := none } (.received :: past) where
  sound := by
    refine ⟨⟨?_, (kept.free (kept.alone receiving)).held⟩, kept.sound⟩
    rw [kept.flight, if_pos receiving]
  sequence := kept.sequence
  flight := by
    rw [inFlight, kept.flight, if_pos receiving]
    rfl
  alone := nofun
  free none := (kept.free none).cons rfl rfl nofun nofun
  taken pending mem := by
    rw [Option.mem_def, kept.alone receiving] at mem
    cases mem

theorem kept_refused (kept : Kept serde slot (.received :: past)) (none : slot.pending = none) :
    Kept serde slot (.refused :: .received :: past) where
  sound := ⟨⟨past, rfl⟩, kept.sound⟩
  sequence := kept.sequence
  flight := kept.flight
  alone := kept.alone
  free _ := (kept.free none).cons rfl rfl nofun nofun
  taken pending mem := by
    rw [Option.mem_def, none] at mem
    cases mem

/-- What `select` selects. -/
theorem select_eq_some {limits : QueueLimits} {command : AcquireCommand}
    {deliveries : List QueueDelivery} {delivery : QueueDelivery} {pending : Pending}
    (h : select serde limits command deliveries = .ok (some (delivery, pending))) :
    deliveries = [delivery] ∧ delivery.validate limits = .ok () ∧
      ∃ record, PublishedDispatch.decode serde delivery.body = .ok record ∧
        (⟨command, record.dispatch⟩ : ClaimCommand).validate = .ok () ∧
        pending = ⟨⟨command, record.dispatch⟩, some ⟨record.publicationId, delivery.receipt⟩,
          false, false⟩ := by
  unfold select at h
  split at h
  case h_1 => cases h
  case h_2 d =>
    split at h
    case h_1 => cases h
    case h_2 valid =>
      split at h
      case h_1 => cases h
      case h_2 record decoded =>
        simp only at h
        split at h
        case h_1 => cases h
        case h_2 claim =>
          cases h
          exact ⟨rfl, valid, record, decoded, claim, rfl⟩
  case h_3 => cases h

theorem selected_good {limits : QueueLimits} {call : Call} {deliveries : List QueueDelivery}
    {delivery : QueueDelivery} {pending : Pending}
    (kept : Kept serde slot (.received :: past)) (free : slot.pending = none)
    (idle : slot.receiving = none) (sequence : call.command.sequence = slot.sequence)
    (h : select serde limits call.command deliveries = .ok (some (delivery, pending))) :
    (claiming { slot with pending := some pending } [.received, .selected delivery]
      pending).Good serde past call := by
  obtain ⟨-, -, record, decoded, -, rfl⟩ := select_eq_some h
  have untouched := kept.free free
  let trace := Event.selected delivery :: .received :: past
  have sound : Sound serde trace := ⟨⟨⟨past, rfl⟩, untouched.held⟩, kept.sound⟩
  have before : ∀ e ∈ current trace, e ≠ .selected delivery → e ∈ current (.received :: past) := by
    intro e mem ne
    rw [current_cons rfl, List.mem_cons] at mem
    exact mem.resolve_left ne
  have selected : Selected serde trace
      ⟨⟨call.command, record.dispatch⟩, some ⟨record.publicationId, delivery.receipt⟩, true,
        false⟩ delivery := {
    held := rfl
    names := ⟨record.publicationId, decoded⟩
    started := rfl
    sequence := sequence.trans kept.sequence
    claims := fun command mem => absurd (before _ mem nofun) (untouched.unclaimed command)
    receipt := fun a ha => by
      obtain rfl := Option.some.inj ha
      exact ⟨rfl, fun other mem => untouched.unacknowledged other (before _ mem nofun)⟩
    settled := nofun
    observed := nofun }
  have claims := kept_claim sound kept.sequence idle (kept.flight_zero idle) selected
  refine ⟨claims, fun stage e => ?_⟩
  cases e
  refine ⟨_, rfl, ?_⟩
  show _ ∈ current (.claim ⟨call.command, record.dispatch⟩ :: trace)
  rw [current_cons rfl]
  exact List.mem_cons_self

theorem received_good (kept : Kept serde slot past) {call : Call}
    (holds : Holds slot past ⟨call, .receiving⟩) (limits : QueueLimits)
    (stopped : Option ContractError) (deliveries : Result (List QueueDelivery)) :
    (received serde limits stopped call.command call.draining slot
      deliveries).1.Good serde past call := by
  obtain ⟨receiving, sequence⟩ := holds
  have free : slot.pending = none := kept.alone receiving
  have ended := kept_received kept receiving
  have returns : ∀ reply : Result SourceReply,
      (returning { slot with receiving := none } [.received] call.draining reply).Good serde past
        call :=
    fun reply => returning_good call ended (ended.allowed_free free _ _)
  have stops : ∀ reply : Result SourceReply,
      (returning { slot with receiving := none } [.received, .refused] call.draining
        reply).Good serde past call := by
    intro reply
    have refused := kept_refused ended free
    exact returning_good call refused (refused.allowed_free free _ _)
  unfold received
  simp only
  split
  case h_1 => exact stops _
  case h_2 => exact returns _
  case h_3 =>
    split_ifs with draining
    · exact returns _
    · split
      case h_1 => exact stops _
      case h_2 => exact returns _
      case h_3 delivery pending selected => exact selected_good ended free rfl sequence selected

theorem finalReply_ne (command : AcquireCommand) (reply : ClaimReply) :
    (.ok (finalReply command reply) : Result SourceReply) ≠ .ok .idle ∧
      ∀ error, (.ok (finalReply command reply) : Result SourceReply) ≠ .ok (.stopped error) := by
  rw [finalReply]
  split
  all_goals exact ⟨nofun, fun _ => nofun⟩

theorem allowed_finalReply (past : List Event) (draining : Bool) (command : AcquireCommand)
    (reply : ClaimReply) :
    Allowed serde past (.returned draining (.ok (finalReply command reply))) :=
  ⟨fun _ => finalReply_ne command reply,
    fun _ idle => absurd idle (finalReply_ne command reply).1⟩

theorem Selected.completed {pending : Pending} {delivery : QueueDelivery} {reply : ClaimReply}
    (h : Selected serde past pending delivery)
    (observed : .handedOff pending.command reply ∈ current past) :
    Selected serde past { pending with completed := true } delivery :=
  { h with observed := fun _ => ⟨reply, observed⟩ }

theorem Selected.acknowledged {pending : Pending} {delivery : QueueDelivery} (receipt : String)
    (h : Selected serde past pending delivery) :
    Selected serde (.acknowledge receipt :: past) { pending with acknowledgment := none }
      delivery where
  held := h.held
  names := h.names
  started := h.started
  sequence := h.sequence
  claims command mem := by
    rw [current_cons rfl, List.mem_cons] at mem
    exact h.claims command (mem.resolve_left nofun)
  receipt := nofun
  settled _ := ⟨receipt, by rw [current_cons rfl]; exact List.mem_cons_self⟩
  observed done := by
    obtain ⟨reply, mem⟩ := h.observed done
    exact ⟨reply, by rw [current_cons rfl]; exact List.mem_cons_of_mem _ mem⟩

theorem Kept.settle (kept : Kept serde slot past) {pending pending' : Pending} {e : Event}
    {delivery : QueueDelivery} (h : slot.pending = some pending) (allowed : Allowed serde past e)
    (seq : sequenceOf (e :: past) = sequenceOf past) (flight : inFlight (e :: past) = inFlight past)
    (selected : Selected serde (e :: past) pending' delivery) :
    Kept serde { slot with pending := some pending' } (e :: past) where
  sound := ⟨allowed, kept.sound⟩
  sequence := kept.sequence.trans seq.symm
  flight := flight.trans kept.flight
  alone receiving := by
    have idle : slot.receiving = none := kept.receiving_none h
    rw [idle] at receiving
    cases receiving
  free := nofun
  taken p mem := by
    obtain rfl : pending' = p := Option.some.inj mem
    exact ⟨delivery, selected⟩

theorem claimed_good (kept : Kept serde slot past) {call : Call} {pending : Pending}
    (h : slot.pending = some pending) (asked : .claim pending.command ∈ current past)
    (reply : Result ClaimReply) :
    (claimed call.command call.draining slot pending reply).Good serde past call := by
  obtain ⟨delivery, selected⟩ := kept.taken pending h
  unfold claimed
  split
  case h_1 error => exact returning_good call kept (allowed_error _ _ error)
  case h_2 reply =>
    split
    case h_1 error _ => exact returning_good call kept (allowed_error _ _ error)
    case h_2 valid =>
      let trace := Event.handedOff pending.command reply :: past
      have observed : .handedOff pending.command reply ∈ current trace := by
        rw [current_cons rfl]
        exact List.mem_cons_self
      have still : Selected serde trace pending delivery :=
        selected.cons rfl rfl rfl nofun nofun
      have completed := still.completed observed
      simp only
      split
      case h_1 acknowledgment ack =>
        have settled := kept.settle (e := .handedOff pending.command reply) h ⟨asked, valid⟩ rfl rfl
          completed
        have receipt := still.receipt acknowledgment ack
        have allowed : Allowed serde trace (.acknowledge acknowledgment.receipt) :=
          ⟨⟨delivery, pending.command, reply, still.held, receipt.1.symm, still.names, observed⟩,
            receipt.2⟩
        have acked := completed.acknowledged acknowledgment.receipt
        refine ⟨settled.settle rfl allowed rfl rfl acked, fun stage e => ?_⟩
        cases e
        trivial
      case h_2 gone =>
        have same : ({ pending with completed := true } : Pending) =
            { pending with completed := true, acknowledgment := none } := by
          rw [gone]
        have settled := kept.settle (e := .handedOff pending.command reply) h ⟨asked, valid⟩ rfl rfl
          (same ▸ completed)
        exact returning_good call settled (allowed_finalReply _ _ _ _)

theorem acknowledged_good (kept : Kept serde slot past) (call : Call) (reply : ClaimReply) :
    (acknowledged call.command call.draining slot reply).Good serde past call :=
  returning_good call kept (allowed_finalReply _ _ _ _)

end Kept

namespace LockedSlot

variable {serde : Serde} {locked : LockedSlot}

theorem new_good (serde : Serde) : LockedSlot.new.Good serde :=
  ⟨.new serde, fun _ mem => by cases mem⟩

theorem Good.after {call : Call} {outcome : Outcome} (h : outcome.Good serde locked.trace call) :
    (locked.after call outcome).Good serde where
  kept := h.kept
  holder holder mem := by
    unfold LockedSlot.after at mem
    simp only at mem
    split at mem
    case h_1 stage waits =>
      obtain rfl := Option.some.inj mem
      exact h.holds stage waits
    case h_2 => cases mem

theorem Good.cancelled (good : locked.Good serde) : locked.cancelled.Good serde :=
  ⟨good.kept, fun _ mem => by cases mem⟩

end LockedSlot
end Ledgence.BrokerSource
