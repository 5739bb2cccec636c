import Ledgence.Api.Decoded
import Ledgence.Broker.Sound
import Mathlib.Data.List.ReduceOption

/-! Runs of the source keep the rules of every slot, and a stopped source selects no record unless a
receive that was under way ends with one. -/
open Kit Kit.Checked

namespace Ledgence.BrokerSource

def Seen : List Mark → Prop
  | [] => False
  | .started :: _ => False
  | .refused :: _ => True
  | .selected :: marks => Seen marks

def Quiet : List Mark → Prop
  | [] => True
  | .started :: marks => Quiet marks
  | .refused :: marks => Quiet marks
  | .selected :: marks => ¬ Seen marks ∧ Quiet marks

section Runs

variable (serde : Serde) (limits : QueueLimits)

/-- A call that does not drain ends a receive with a record of its route, after another consumer
stopped the source. -/
def Races (w : World) : Action → Prop
  | .received consumerId deliveries =>
    ∃ locked call, w.slot? consumerId = some locked ∧ locked.holder = some ⟨call, .receiving⟩ ∧
      w.stopped.isSome = true ∧ call.draining = false ∧ ∃ records selection,
        deliveries = .ok records ∧ select serde limits call.command records = .ok (some selection)
  | _ => False

def Unraced (w : World) : List Action → Prop
  | [] => True
  | a :: actions => ¬ Races serde limits w a ∧ Unraced (step serde limits w a) actions

end Runs

structure World.Good (serde : Serde) (w : World) : Prop where
  slots : ∀ locked ∈ w.slots.reduceOption, locked.Good serde
  past : ∀ locked ∈ w.past, locked.Good serde
  stopped : w.slots = [] ∨ (w.stopped.isSome = true ↔ Seen w.marks)

section Step

variable {serde : Serde} {limits : QueueLimits} {w : World}

theorem init_good (serde : Serde) : World.init.Good serde where
  slots := by simp [World.init, List.reduceOption]
  past := by simp [World.init]
  stopped := .inl rfl

theorem slot?_mem {consumerId : Nat} {locked : LockedSlot} (h : w.slot? consumerId = some locked) :
    locked ∈ w.slots.reduceOption := by
  have entry : w.slots[consumerId]? = some (some locked) := Option.join_eq_some_iff.mp h
  exact List.reduceOption_mem_iff.mpr (List.mem_of_getElem? entry)

theorem slot?_ne_nil {consumerId : Nat} {locked : LockedSlot} (h : w.slot? consumerId = some locked) :
    w.slots ≠ [] := by
  intro empty
  rw [World.slot?, empty] at h
  cases h

theorem putSlot_good (good : w.Good serde) {consumerId : Nat} {locked : LockedSlot}
    (slot : locked.Good serde) {events : List Event} {stopped : Option ContractError}
    (seen : stopped.isSome = true ↔ Seen ((events.filterMap Event.mark).reverse ++ w.marks)) :
    (w.putSlot consumerId locked events stopped).Good serde where
  slots other mem := by
    rw [List.reduceOption_mem_iff] at mem
    cases List.mem_or_eq_of_mem_set mem with
    | inl before => exact good.slots other (List.reduceOption_mem_iff.mpr before)
    | inr now =>
      obtain rfl := Option.some.inj now
      exact slot
  past := good.past
  stopped := .inr seen

def Outcome.Unmarked (outcome : Outcome) : Prop :=
  outcome.events.filterMap Event.mark = []

theorem putSlot_unmarked (good : w.Good serde) {consumerId : Nat} {locked locked' : LockedSlot}
    (at' : w.slot? consumerId = some locked) (slot : locked'.Good serde) {events : List Event}
    (unmarked : events.filterMap Event.mark = []) :
    (w.putSlot consumerId locked' events w.stopped).Good serde ∧
      (w.putSlot consumerId locked' events w.stopped).marks = w.marks := by
  have marks : (events.filterMap Event.mark).reverse ++ w.marks = w.marks := by
    rw [unmarked]
    rfl
  refine ⟨putSlot_good good slot ?_, marks⟩
  rw [marks]
  exact good.stopped.resolve_left (slot?_ne_nil at')

theorem after_unmarked (good : w.Good serde) {consumerId : Nat} {locked : LockedSlot}
    (at' : w.slot? consumerId = some locked) {call : Call} {outcome : Outcome}
    (kept : outcome.Good serde locked.trace call) (unmarked : outcome.Unmarked) :
    (w.putSlot consumerId (locked.after call outcome) outcome.events w.stopped).Good serde ∧
      (w.putSlot consumerId (locked.after call outcome) outcome.events w.stopped).marks =
        w.marks :=
  putSlot_unmarked good at' (LockedSlot.Good.after kept) unmarked

theorem enter_unmarked (stopped : Option ContractError) (command : AcquireCommand)
    (options : AcquireOptions) (draining : Bool) (slot : Slot) :
    (enter stopped command options draining slot).Unmarked := by
  unfold enter
  split
  case h_1 => rfl
  case h_2 slot' events advanced =>
    have unmarked : events.filterMap Event.mark = [] := by
      rw [Slot.advance] at advanced
      split_ifs at advanced
      all_goals
        obtain ⟨-, rfl⟩ := Prod.mk.inj (Except.ok.inj advanced)
        rfl
    have more : ∀ e, Event.mark e = none → (events ++ [e]).filterMap Event.mark = [] := by
      intro e plain
      rw [List.filterMap_append, unmarked, List.filterMap_cons_none plain]
      rfl
    split_ifs
    · exact more _ rfl
    · simp only
      split
      · exact more _ rfl
      · split_ifs
        · exact more _ rfl
        · split
          · exact more _ rfl
          · exact unmarked
          · exact more _ rfl

theorem claimed_unmarked (command : AcquireCommand) (draining : Bool) (slot : Slot)
    (pending : Pending) (reply : Result ClaimReply) :
    (claimed command draining slot pending reply).Unmarked := by
  unfold claimed
  split
  · rfl
  · split
    · rfl
    · simp only
      split
      all_goals rfl

/-- How a receive ends: without a mark, with a refusal that stops the source, or with the record
of a race or of a source that goes on. -/
theorem received_marks (serde : Serde) (limits : QueueLimits) (stopped : Option ContractError)
    (command : AcquireCommand) (draining : Bool)
    (slot : Slot) (deliveries : Result (List QueueDelivery)) :
    let result := received serde limits stopped command draining slot deliveries
    let selects := draining = false ∧ ∃ records selection,
      deliveries = .ok records ∧ select serde limits command records = .ok (some selection)
    (result.1.events.filterMap Event.mark = [] ∧ result.2 = stopped ∧ ¬ selects) ∨
      (result.1.events.filterMap Event.mark = [.refused] ∧ result.2.isSome = true ∧ ¬ selects) ∨
      (result.1.events.filterMap Event.mark = [.selected] ∧ result.2 = stopped ∧ selects) := by
  unfold received
  simp only
  split
  case h_1 =>
    refine .inr (.inl ⟨rfl, rfl, ?_⟩)
    rintro ⟨-, _, _, h, -⟩
    cases h
  case h_2 =>
    refine .inl ⟨rfl, rfl, ?_⟩
    rintro ⟨-, _, _, h, -⟩
    cases h
  case h_3 records =>
    split_ifs with drains
    · refine .inl ⟨rfl, rfl, ?_⟩
      rintro ⟨running, -⟩
      rw [drains] at running
      cases running
    · split
      case h_1 message refused =>
        refine .inr (.inl ⟨rfl, rfl, ?_⟩)
        rintro ⟨-, _, _, h, selected⟩
        cases h
        rw [refused] at selected
        cases selected
      case h_2 empty =>
        refine .inl ⟨rfl, rfl, ?_⟩
        rintro ⟨-, _, _, h, selected⟩
        cases h
        rw [empty] at selected
        cases selected
      case h_3 delivery pending selected =>
        exact .inr (.inr ⟨rfl, rfl, Bool.eq_false_iff.mpr drains, records, _, rfl, selected⟩)

def Onward (serde : Serde) (limits : QueueLimits) (w w' : World) (a : Action) : Prop :=
  w'.Good serde ∧ (Quiet w'.marks ↔ Quiet w.marks ∧ ¬ Races serde limits w a)

theorem Onward.plain {w' : World} {a : Action} (good : w'.Good serde) (marks : w'.marks = w.marks)
    (quiet : ¬ Races serde limits w a) : Onward serde limits w w' a := by
  refine ⟨good, ?_⟩
  rw [marks]
  exact ⟨fun h => ⟨h, quiet⟩, fun h => h.1⟩

theorem received_onward (good : w.Good serde) {consumerId : Nat} {locked : LockedSlot} {call : Call}
    (at' : w.slot? consumerId = some locked) (holder : locked.holder = some ⟨call, .receiving⟩)
    (deliveries : Result (List QueueDelivery)) :
    let result := received serde limits w.stopped call.command call.draining locked.slot deliveries
    Onward serde limits w
      (w.putSlot consumerId (locked.after call result.1) result.1.events result.2)
      (.received consumerId deliveries) := by
  intro result
  have slot := good.slots locked (slot?_mem at')
  have kept : (locked.after call result.1).Good serde :=
    .after (received_good slot.kept (slot.holder _ holder) limits w.stopped deliveries)
  have seen := good.stopped.resolve_left (slot?_ne_nil at')
  have race : Races serde limits w (.received consumerId deliveries) ↔
      w.stopped.isSome = true ∧ call.draining = false ∧ ∃ records selection,
        deliveries = .ok records ∧ select serde limits call.command records = .ok (some selection) := by
    constructor
    · rintro ⟨locked', call', h, h', rest⟩
      obtain rfl := Option.some.inj (at'.symm.trans h)
      obtain rfl := congrArg Holder.call (Option.some.inj (holder.symm.trans h'))
      exact rest
    · exact fun rest => ⟨locked, call, at', holder, rest⟩
  rcases received_marks serde limits w.stopped call.command call.draining
    locked.slot deliveries with ⟨marks, same, none⟩ | ⟨marks, stops, none⟩ | ⟨marks, same, selects⟩
  · refine .plain (putSlot_good good kept ?_) ?_ fun h => none (race.mp h).2
    · rw [marks, same]
      exact seen
    · rw [World.putSlot, marks]
      rfl
  · refine ⟨putSlot_good good kept ?_, ?_⟩
    · rw [marks, stops]
      exact iff_of_true rfl trivial
    · rw [World.putSlot, marks]
      exact ⟨fun h => ⟨h, fun h => none (race.mp h).2⟩, fun h => h.1⟩
  · refine ⟨putSlot_good good kept ?_, ?_⟩
    · rw [marks, same]
      exact seen
    · rw [World.putSlot, marks, race, seen]
      constructor
      · rintro ⟨unseen, quiet⟩
        exact ⟨quiet, fun h => unseen h.1⟩
      · rintro ⟨quiet, unraced⟩
        exact ⟨fun h => unraced ⟨h, selects⟩, quiet⟩

theorem startSession_onward (good : w.Good serde) {session : WorkerSession} {w' : World}
    (h : startSession w session = .ok w') :
    Onward serde limits w w' (.startSession session) := by
  simp only [startSession, bind_eq_ok, refuse_eq_ok, exists_unit, pure_eq_ok] at h
  obtain ⟨_, _, _, _, _, rfl⟩ := h
  have fresh : ∀ locked, some locked ∉ List.replicate session.concurrency (none : Option LockedSlot) := by
    intro locked mem
    cases List.eq_of_mem_replicate mem
  refine ⟨⟨fun locked mem => ?_, good.past, .inr ?_⟩, ?_⟩
  · exact absurd (List.reduceOption_mem_iff.mp mem) (fresh locked)
  · exact iff_of_false (by simp) id
  · exact ⟨fun quiet => ⟨quiet, id⟩, fun quiet => quiet.1⟩

theorem finishSession_onward (good : w.Good serde) (workerSessionId : String) :
    Onward serde limits w (finishSession w workerSessionId) (.finishSession workerSessionId) := by
  unfold finishSession
  split_ifs
  · have none : ∀ locked, locked ∉ ([] : List (Option LockedSlot)).reduceOption := by
      simp [List.reduceOption]
    refine .plain ⟨fun locked mem => absurd mem (none locked), fun locked mem => ?_, .inl rfl⟩ rfl
      fun race => race
    exact (List.mem_append.mp mem).elim (good.slots locked) (good.past locked)
  · exact .plain good rfl fun race => race

theorem slotFor_good (good : w.Good serde) {command : AcquireCommand} {w' : World}
    (h : slotFor w command = .ok w') : w'.Good serde ∧ w'.marks = w.marks := by
  simp only [slotFor, bind_eq_ok, okOr_eq_ok, refuse_eq_ok, exists_unit, pure_eq_ok] at h
  obtain ⟨session, _, _, rfl⟩ := h
  refine ⟨⟨fun locked mem => ?_, good.past, ?_⟩, rfl⟩
  · obtain ⟨i, entry⟩ := List.mem_iff_getElem?.mp (List.reduceOption_mem_iff.mp mem)
    rw [List.getElem?_modify] at entry
    obtain ⟨before, at', same⟩ := Option.map_eq_some_iff.mp entry
    split_ifs at same with here
    · cases before with
      | none =>
        obtain rfl := Option.some.inj same
        exact LockedSlot.new_good serde
      | some old =>
        obtain rfl := Option.some.inj same
        exact good.slots _ (List.reduceOption_mem_iff.mpr (List.mem_of_getElem? at'))
    · exact good.slots _ (List.reduceOption_mem_iff.mpr (same ▸ List.mem_of_getElem? at'))
  · exact good.stopped.imp List.modify_eq_nil_iff.mpr id

theorem waiting_good (good : w.Good serde) (waiting : List Call) :
    ({ w with waiting := waiting } : World).Good serde :=
  ⟨good.slots, good.past, good.stopped⟩

theorem call_onward (good : w.Good serde) {call : Call} {w' : World} (h : w.call call = some w') :
    Onward serde limits w w' (.call call) := by
  unfold World.call at h
  split at h
  case h_1 w₁ _ found =>
    cases h
    obtain ⟨good₁, marks⟩ := slotFor_good good found
    exact .plain (waiting_good good₁ _) marks fun race => race
  case h_2 => cases h

theorem lock_onward (good : w.Good serde) {index : Nat} {w' : World} (h : w.lock index = some w') :
    Onward serde limits w w' (.lock index) := by
  simp only [World.lock, Option.bind_eq_bind, Option.bind_eq_some_iff] at h
  obtain ⟨call, _, locked, at', h⟩ := h
  split at h
  case h_1 => cases h
  case h_2 =>
    cases h
    have slot := good.slots locked (slot?_mem at')
    have put := after_unmarked good at' (enter_good slot.kept w.stopped call)
      (enter_unmarked _ _ _ _ _)
    exact .plain (waiting_good put.1 _) put.2 fun race => race

theorem claimed_onward (good : w.Good serde) {consumerId : Nat} {reply : Result ClaimReply}
    {w' : World} (h : w.claimed consumerId reply = some w') :
    Onward serde limits w w' (.claimed consumerId reply) := by
  simp only [World.claimed, Option.bind_eq_bind, Option.bind_eq_some_iff] at h
  obtain ⟨locked, at', h⟩ := h
  split at h
  case h_1 call pending holder selected =>
    cases h
    have slot := good.slots locked (slot?_mem at')
    obtain ⟨pending', same, asked⟩ := slot.holder _ holder
    obtain rfl := Option.some.inj (selected.symm.trans same)
    have kept : (claimed call.command call.draining locked.slot pending reply).Good serde _ call :=
      claimed_good slot.kept selected asked reply
    have put := after_unmarked good at' kept (claimed_unmarked _ _ _ _ _)
    exact .plain put.1 put.2 fun race => race
  case h_2 => cases h

theorem acknowledged_onward (good : w.Good serde) {consumerId : Nat} {w' : World}
    (h : w.acknowledged consumerId = some w') :
    Onward serde limits w w' (.acknowledged consumerId) := by
  simp only [World.acknowledged, Option.bind_eq_bind, Option.bind_eq_some_iff] at h
  obtain ⟨locked, at', h⟩ := h
  split at h
  case h_1 call reply holder =>
    cases h
    have slot := good.slots locked (slot?_mem at')
    have put := after_unmarked good at' (acknowledged_good slot.kept call reply) rfl
    exact .plain put.1 put.2 fun race => race
  case h_2 => cases h

theorem step?_onward (good : w.Good serde) {a : Action} {w' : World}
    (h : step? serde limits w a = some w') : Onward serde limits w w' a := by
  cases a with
  | startSession session =>
    rw [step?] at h
    cases started : startSession w session with
    | error e =>
      rw [started] at h
      cases h
    | ok w₁ =>
      rw [started] at h
      obtain rfl := Option.some.inj h
      exact startSession_onward good started
  | finishSession workerSessionId =>
    rw [step?] at h
    split_ifs at h
    obtain rfl := Option.some.inj h
    exact finishSession_onward good workerSessionId
  | call call => exact call_onward good h
  | lock index => exact lock_onward good h
  | received consumerId deliveries =>
    simp only [step?, World.received, Option.bind_eq_bind, Option.bind_eq_some_iff] at h
    obtain ⟨locked, at', h⟩ := h
    split at h
    case h_1 call holder =>
      cases h
      exact received_onward good at' holder deliveries
    case h_2 => cases h
  | claimed consumerId reply => exact claimed_onward good h
  | acknowledged consumerId => exact acknowledged_onward good h
  | cancel consumerId =>
    obtain ⟨locked, at', rfl⟩ := Option.map_eq_some_iff.mp h
    have slot := good.slots locked (slot?_mem at')
    have put := putSlot_unmarked good at' slot.cancelled (List.filterMap_nil (f := Event.mark))
    exact .plain put.1 put.2 fun race => race
  | abandon index =>
    cases h
    exact .plain (waiting_good good _) rfl fun race => race

theorem step_onward (limits : QueueLimits) (good : w.Good serde) (a : Action) :
    Onward serde limits w (step serde limits w a) a := by
  rw [step]
  cases happens : step? serde limits w a with
  | some w' => exact step?_onward good happens
  | none =>
    refine .plain good rfl ?_
    cases a with
    | received consumerId deliveries =>
      rintro ⟨locked, call, at', holder, -⟩
      simp only [step?, World.received, at', holder, Option.bind_eq_bind, Option.bind_some] at happens
      cases happens
    | _ => exact fun race => race

theorem not_quiet_of_races (good : w.Good serde) {a : Action} (race : Races serde limits w a) :
    ¬ Quiet (step serde limits w a).marks :=
  fun quiet => ((step_onward limits good a).2.mp quiet).2 race

theorem run_append (actions : List Action) (a : Action) :
    run serde limits w (actions ++ [a]) = step serde limits (run serde limits w actions) a := by
  rw [run, List.foldl_append]
  rfl

theorem run_good (limits : QueueLimits) (good : w.Good serde) (actions : List Action) :
    (run serde limits w actions).Good serde ∧
      (Quiet (run serde limits w actions).marks ↔
        Quiet w.marks ∧ Unraced serde limits w actions) := by
  induction actions generalizing w with
  | nil => exact ⟨good, by simp [run, Unraced]⟩
  | cons a actions ih =>
    obtain ⟨next, quiet⟩ := step_onward limits good a
    obtain ⟨last, rest⟩ := ih next
    refine ⟨last, rest.trans ?_⟩
    rw [quiet, Unraced, and_assoc]

end Step

section Claims

variable {serde : Serde} {past : List Event}

theorem claim_current (sound : Sound serde past) {command : ClaimCommand}
    (h : .claim command ∈ past) : command.acquisition.sequence ≤ sequenceOf past ∧
      (command.acquisition.sequence = sequenceOf past → .claim command ∈ current past) := by
  induction past with
  | nil => cases h
  | cons e past ih =>
    obtain ⟨allowed, sound⟩ := sound
    by_cases advance : e.isAdvance = true
    · cases e with
      | advanced sequence =>
        have older : .claim command ∈ past := (List.mem_cons.mp h).resolve_left nofun
        have before := (ih sound older).1
        have number : sequence = sequenceOf past + 1 := allowed.1
        rw [sequenceOf, number]
        exact ⟨by omega, fun same => absurd same (by omega)⟩
      | _ => cases advance
    · have plain : e.isAdvance = false := Bool.eq_false_iff.mpr advance
      have same : sequenceOf (e :: past) = sequenceOf past := by
        cases e with
        | advanced sequence => cases plain
        | _ => rfl
      rw [current_cons plain, same]
      cases List.mem_cons.mp h with
      | inl now =>
        subst now
        have number : command.acquisition.sequence = sequenceOf past := allowed.2.1
        exact ⟨number.le, fun _ => List.mem_cons_self⟩
      | inr before =>
        obtain ⟨le, present⟩ := ih sound before
        exact ⟨le, fun e => List.mem_cons_of_mem _ (present e)⟩

theorem claims_agree (sound : Sound serde past) {a b : ClaimCommand} (ha : .claim a ∈ past)
    (hb : .claim b ∈ past) (same : a.acquisition.sequence = b.acquisition.sequence) : a = b := by
  induction past with
  | nil => cases ha
  | cons e past ih =>
    obtain ⟨allowed, sound⟩ := sound
    have newest : ∀ c d : ClaimCommand, e = .claim c → .claim d ∈ past →
        c.acquisition.sequence = d.acquisition.sequence → d = c := by
      rintro c d rfl older same
      obtain ⟨-, number, one⟩ := allowed
      exact one d ((claim_current sound older).2 (same.symm.trans number))
    cases List.mem_cons.mp ha with
    | inl na =>
      cases List.mem_cons.mp hb with
      | inl nb => exact Event.claim.inj (na.trans nb.symm)
      | inr ob => exact (newest a b na.symm ob same).symm
    | inr oa =>
      cases List.mem_cons.mp hb with
      | inl nb => exact newest b a nb.symm oa same.symm
      | inr ob => exact ih sound oa ob

end Claims

/-- In every run, each slot keeps the rules of `Allowed`, claims one command a sequence, keeps a held
record with its command and resumes with it. After a refusal the session selects no record exactly
if no receive that was under way ends with one. -/
theorem broker_acknowledges_safely (serde : Serde) (limits : QueueLimits) (actions : List Action) :
    let w := run serde limits .init actions
    (∀ locked ∈ w.slots.reduceOption ++ w.past,
      Sound serde locked.trace ∧ inFlight locked.trace ≤ 1 ∧
      (∀ a b : ClaimCommand, .claim a ∈ locked.trace → .claim b ∈ locked.trace →
        a.acquisition.sequence = b.acquisition.sequence → a = b) ∧
      (∀ delivery, held locked.trace = some delivery → ∃ pending,
        locked.slot.pending = some pending ∧ Names serde delivery pending.command.dispatch ∧
        ((∀ receipt, .acknowledge receipt ∉ current locked.trace) →
          ∃ a, pending.acknowledgment = some a ∧ a.receipt = delivery.receipt) ∧
        ∀ stopped options draining,
          enter stopped pending.command.acquisition options draining locked.slot =
            claiming locked.slot [] pending)) ∧
    (Quiet w.marks ↔ Unraced serde limits .init actions) := by
  intro w
  obtain ⟨good, quiet⟩ := run_good limits (init_good serde) actions
  refine ⟨fun locked mem => ?_, quiet.trans (and_iff_right trivial)⟩
  have slot : locked.Good serde := (List.mem_append.mp mem).elim (good.slots locked) (good.past locked)
  have kept := slot.kept
  refine ⟨kept.sound, ?_, fun a b => claims_agree kept.sound, fun delivery is => ?_⟩
  · rw [kept.flight]
    split
    all_goals decide
  · cases selection : locked.slot.pending with
    | none =>
      rw [(kept.free selection).held] at is
      cases is
    | some pending =>
      obtain ⟨delivery', selected⟩ := kept.taken pending selection
      obtain rfl := Option.some.inj (is.symm.trans selected.held)
      refine ⟨pending, rfl, selected.names, fun unacknowledged => ?_, fun stopped options draining => ?_⟩
      · cases ack : pending.acknowledgment with
        | none =>
          obtain ⟨receipt, mem⟩ := selected.settled ack
          exact absurd mem (unacknowledged receipt)
        | some a => exact ⟨a, rfl, (selected.receipt a ack).1⟩
      · have advance : locked.slot.advance pending.command.acquisition = .ok (locked.slot, []) := by
          rw [Slot.advance, if_neg]
          rw [not_not, selected.sequence, kept.sequence]
        have started : locked.slot.claimStarted = true := by
          rw [Slot.claimStarted, selection, Option.any_some, selected.started]
        unfold enter
        rw [advance]
        simp [selection, started]

/- Two consumers poll at once; the first one's record is too large. -/

def sampleScope : Scope :=
  ⟨"t", "n"⟩

def sampleSession : WorkerSession where
  features := []
  id := "s"
  scope := sampleScope
  queue := "q"
  concurrency := 2
  expiresAt := 0

def sampleCall (consumerId : Nat) : Call where
  command := ⟨sampleScope, "q", "s", consumerId, 1⟩
  options := ⟨0, 0⟩
  draining := false

def sampleLimits : QueueLimits :=
  ⟨1, 1, 1, 150⟩

def oversized : QueueDelivery :=
  ⟨List.replicate 151 0, "r"⟩

def sampleRecord : Json :=
  .obj [("dispatch", .obj [("generation", .num (.int 1)), ("queue", .str "q"),
    ("scope", .obj [("namespace", .str "n"), ("tenant_id", .str "t")]), ("task_id", .str "k")]),
    ("publication_id", .str "p")]

def wellFormed : QueueDelivery :=
  ⟨utf8 (canonicalJsonBytes sampleRecord), "r"⟩

theorem select_wellFormed : ∃ selection,
    select .ofZeros sampleLimits (sampleCall 1).command [wellFormed] = .ok (some selection) := by
  have holds : Ledgence.Holds .ofZeros sampleRecord := by
    intro n hn
    have numbers : sampleRecord.numbers = [.int 1] := rfl
    rw [numbers, List.mem_singleton] at hn
    rw [hn]
    exact ⟨by decide, by decide⟩
  have unique : sampleRecord.UniqueKeys := by
    simp [sampleRecord, Json.UniqueKeys, Json.MembersUnique]
  have bounded : wellFormed.validate sampleLimits = .ok () := by decide +kernel
  have value : decodeUniqueJson .ofZeros wellFormed.body dispatchMaxBytes =
      .ok sampleRecord.sortObjects :=
    decode_canonical Serde.ofZeros_correct unique holds (by decide) (by decide +kernel)
  have fields : PublishedDispatch.deserialize sampleRecord.sortObjects =
      some ⟨⟨sampleScope, "q", "k", 1⟩, "p"⟩ := by
    decide +kernel
  have decoded : PublishedDispatch.decode .ofZeros wellFormed.body =
      .ok ⟨⟨sampleScope, "q", "k", 1⟩, "p"⟩ := by
    simp only [PublishedDispatch.decode, bind_eq_ok, lift_eq_ok, okOr_eq_ok, exists_unit, pure_eq_ok]
    exact ⟨_, value, _, fields, by decide +kernel, rfl⟩
  have claim : (⟨(sampleCall 1).command, ⟨sampleScope, "q", "k", 1⟩⟩ : ClaimCommand).validate =
      .ok () := by
    decide +kernel
  refine ⟨(wellFormed, ⟨⟨(sampleCall 1).command, ⟨sampleScope, "q", "k", 1⟩⟩, some ⟨"p", "r"⟩,
    false, false⟩), ?_⟩
  simp only [select, bounded, decoded, claim]
  rfl

def beforeRace : List Action :=
  [.startSession sampleSession, .call (sampleCall 0), .call (sampleCall 1), .lock 0, .lock 0,
    .received 0 (.ok [oversized])]

def Raceable (w : World) : Bool :=
  match w.slot? 1 with
  | some ⟨_, some ⟨call, .receiving⟩, _⟩ =>
    decide (call.command = (sampleCall 1).command) && !call.draining && w.stopped.isSome
  | _ => false

theorem races_of_raceable {w : World} (h : Raceable w = true) :
    Races .ofZeros sampleLimits w (.received 1 (.ok [wellFormed])) := by
  unfold Raceable at h
  split at h
  case h_1 slot call trace at' =>
    simp only [Bool.and_eq_true, decide_eq_true_eq, Bool.not_eq_true'] at h
    obtain ⟨⟨command, running⟩, stopped⟩ := h
    obtain ⟨selection, selected⟩ := select_wellFormed
    exact ⟨_, call, at', rfl, stopped, running, _, selection, rfl, command ▸ selected⟩
  case h_2 => cases h

/-- The second consumer selects a record of the stopped source. -/
theorem race_selects : ¬ Quiet (run .ofZeros sampleLimits .init
    (beforeRace ++ [.received 1 (.ok [wellFormed])])).marks := by
  have raceable : Raceable (run .ofZeros sampleLimits .init beforeRace) = true := by decide +kernel
  have good := (run_good sampleLimits (init_good .ofZeros) beforeRace).1
  rw [run_append]
  exact not_quiet_of_races good (races_of_raceable raceable)

end Ledgence.BrokerSource
