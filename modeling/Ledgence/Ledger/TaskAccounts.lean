import Ledgence.Ledger.Accounts
import Ledgence.Ledger.TaskExecution

/-! Every operation on a task's request moves the row's counters as it moves the request. -/
open Kit Kit.Checked

namespace Ledgence
namespace TaskAdmissionRequest
variable {a a' a'' b : TaskAdmissionRequest} {r r' r'' : Resource} {now : Nat}

structure Held (a : TaskAdmissionRequest) (r : Resource) : Prop where
  consistent : a.snapshot.Consistent
  holds : r.Holds a.charge

structure Step (a : TaskAdmissionRequest) (r : Resource) (a' : TaskAdmissionRequest)
    (r' : Resource) : Prop where
  occurrence : a'.occurrence = a.occurrence
  consistent : a'.snapshot.Consistent
  moved : r.Moved a.charge r' a'.charge

theorem Step.held (step : Step a r a' r') (held : a.Held r) : a'.Held r' :=
  ⟨step.consistent, held.holds.moved step.moved⟩

theorem Step.trans (first : Step a r a' r') (rest : Step a' r' a'' r'') : Step a r a'' r'' :=
  ⟨rest.occurrence.trans first.occurrence, rest.consistent, first.moved.trans rest.moved⟩

theorem Step.woken (step : Step a r a' r') (now : Nat) : Step a r a' (r'.wake now) :=
  ⟨step.occurrence, step.consistent, step.moved.trans (Resource.moved_wake now)⟩

theorem Step.refilled (step : Step a r a' r') (now : Nat) :
    Ensures Fault.Accounting (r'.refill now) fun r'' => Step a r a' r'' :=
  (r'.refill_spec now).mono fun _ refilled =>
    ⟨step.occurrence, step.consistent, step.moved.trans (refilled.1 _)⟩

theorem Held.same (held : a.Held r) : Step a r a r :=
  ⟨rfl, held.consistent, .refl⟩

def Reserved (a : TaskAdmissionRequest) : Prop :=
  a.snapshot.state = .offered ∨ a.snapshot.state = .preparing

theorem Held.offer_some (held : a.Held r) (reserved : a.Reserved) :
    ∃ offer, a.snapshot.offer = some offer ∧ a.charge = .offered offer.policyRevision := by
  have consistent := held.consistent
  unfold TaskAdmissionSnapshot.Consistent at consistent
  obtain state | state := reserved
  all_goals
    rw [state] at consistent
    obtain ⟨offer, some'⟩ := Option.isSome_iff_exists.mp consistent.1
    exact ⟨offer, some', by simp [charge, state, some']⟩

theorem Held.reserved_charge (held : a.Held r) (reserved : a.Reserved) {offer : TaskAdmissionOffer}
    (some' : a.snapshot.offer = some offer) : a.charge = .offered offer.policyRevision := by
  obtain ⟨offer', same, charged⟩ := held.offer_some reserved
  obtain rfl : offer = offer' := by simpa [some'] using same
  exact charged

def bumped (a : TaskAdmissionRequest) (revision now : Nat) : TaskAdmissionRequest :=
  { a with snapshot := { a.snapshot with revision, updatedAt := max a.snapshot.updatedAt now } }

theorem bump_spec (a : TaskAdmissionRequest) (now : Nat) :
    Ensures Fault.Accounting (a.bump now) fun a' =>
      a'.snapshot.Consistent ∧ ∃ revision, a' = a.bumped revision now := by
  simp only [bump, ensures_bind, ensures_okOr, ensures_wellFormed, ensures_pure]
  refine ⟨fun _ => accounting_refused _, fun revision _ valid accepted => ?_⟩
  exact ⟨TaskAdmissionSnapshot.consistent_of_validate accepted, revision, rfl⟩

/-- A request that was changed is bumped: what is left to show is how its charge moved. -/
theorem bump_step (same : b.occurrence = a.occurrence) (moved : r.Moved a.charge r' b.charge) :
    Ensures Fault.Accounting (b.bump now) fun b' => Step a r b' r' := by
  refine (bump_spec b now).mono fun b' bumped => ?_
  obtain ⟨consistent, revision, rfl⟩ := bumped
  exact ⟨same, consistent, moved⟩

theorem charge_unreserved : a.unreserved.charge = .free := by
  cases owner : a.snapshot.owner with
  | none => simp [charge, unreserved, owner]
  | some owner' => simp [charge, unreserved, owner]

theorem releaseOffer_spec (held : a.Held r) (now : Nat) :
    Ensures Fault.Accounting (a.releaseOffer r now) fun p =>
      Step a r p.1 p.2.1 ∧ ¬ p.1.Reserved := by
  simp only [releaseOffer]
  rw [ensures_ite]
  refine ⟨fun unreserved => ⟨held.same, ?_⟩, fun reserved => ?_⟩
  · simp only [Reserved, not_or]
    exact unreserved
  · rw [ensures_bind, ensures_okOr]
    refine ⟨fun _ => accounting_refused _, fun offer some' => ?_⟩
    have charged := held.reserved_charge (by simp only [Reserved]; tauto) some'
    refine AdmissionRequest.withdraw_step (charged ▸ held.holds) fun r' withdrawn => ?_
    simp only [ensures_bind, ensures_pure]
    have moved : r.Moved a.charge r' a.unreserved.charge := by
      rw [charged, charge_unreserved]
      exact withdrawn
    refine (bump_spec a.unreserved now).mono fun b bumped => ?_
    obtain ⟨consistent, revision, rfl⟩ := bumped
    have step : Step a r (a.unreserved.bumped revision now) r' := ⟨rfl, consistent, moved⟩
    refine (step.refilled now).mono fun r'' later => ⟨later.woken now, fun still => ?_⟩
    obtain ⟨_, _, charged'⟩ := (step.held held).offer_some still
    exact absurd (charge_unreserved.symm.trans charged') (by simp)

theorem charge_free (unreserved : ¬ a.Reserved) (unstarted : a.isOccupying = false) :
    a.charge = .free := by
  cases state : a.snapshot.state <;> simp_all [charge, Reserved, isOccupying]

theorem charge_running (occupying : a.isOccupying = true) : a.charge.running = true := by
  cases state : a.snapshot.state <;> simp_all [charge, Charge.running, isOccupying]

theorem repark_spec {task : Option TaskSnapshot} (held : a.Held r) (now : Nat) :
    Ensures Fault.Accounting (a.repark r task now) fun p => Step a r p.1 p.2 := by
  simp only [repark]
  rw [ensures_bind]
  refine (releaseOffer_spec held now).mono fun p released => ?_
  obtain ⟨step, -⟩ := released
  rw [ensures_ite]
  refine ⟨fun _ => ?_, fun _ => step⟩
  simp only [ensures_bind, ensures_okOr, ready, ensures_refuse, ensures_pure]
  refine ⟨fun _ => accounting_refused _, fun _ _ => ⟨fun _ => accounting_refused _, ?_⟩⟩
  exact fun _ _ => ⟨fun _ => accounting_refused _, fun _ =>
    ⟨step.occurrence, step.consistent, step.moved⟩⟩

theorem validateCandidate_spec {task : TaskSnapshot} {dispatchEnabled : Bool} (held : a.Held r)
    (now : Nat) :
    Ensures Fault.Accounting (a.validateCandidate r task dispatchEnabled now) fun p =>
      Step a r p.1 p.2.1 := by
  simp only [validateCandidate]
  rw [ensures_bind, ensures_refuse]
  refine ⟨fun _ => accounting_refused _, fun _ => ?_⟩
  rw [ensures_ite]
  refine ⟨fun _ => held.same, fun _ => ?_⟩
  simp only [ensures_bind, ensures_refuse, ensures_okOr]
  refine ⟨fun _ => accounting_refused _, fun _ => ⟨fun _ => accounting_refused _, ?_⟩⟩
  intro offer _
  rw [ensures_ite]
  refine ⟨fun _ => ?_, fun _ => held.same⟩
  rw [ensures_bind]
  exact (repark_spec held now).mono fun p step => step

theorem deferLegacyClaim_spec {task : TaskSnapshot} (held : a.Held r) (sampled : Nat) :
    Ensures Fault.Accounting (a.deferLegacyClaim r task sampled) fun p => Step a r p.1 p.2.1 := by
  have parked : Ensures Fault.Accounting
      (a.repark r (some task) (max (max sampled r.highWater) a.snapshot.updatedAt)) fun p =>
        Step a r p.1 p.2 := repark_spec held _
  have rest : ∀ p : TaskAdmissionRequest × Resource, Step a r p.1 p.2 → Ensures Fault.Accounting
      (okOr p.1.lastRewaitAt (.refused (corruptRecord .task "missing durable legacy handoff time")) >>=
        fun until' => pure (p.1, p.2, until')) fun q => Step a r q.1 q.2.1 := by
    intro p step
    simp only [ensures_bind, ensures_okOr, ensures_pure]
    exact ⟨fun _ => accounting_refused _, fun _ _ => step⟩
  simp only [deferLegacyClaim]
  split
  case h_1 | h_2 =>
    rw [ensures_bind]
    exact parked.mono rest
  case h_3 => exact rest (a, r) held.same
  case h_4 => exact accounting_refused _

theorem bindPreparation_spec {attempt : AttemptSnapshot} {session : WorkerSession}
    (held : a.Held r) (now : Nat) :
    Ensures Fault.Accounting (a.bindPreparation r attempt session now) fun p =>
      Step a r p.1 p.2.1 := by
  simp only [bindPreparation, ensures_bind, ensures_refuse, ensures_okOr, ensures_check,
    ensures_pure]
  refine ⟨fun _ => accounting_refused _, fun _ => ⟨fun _ => accounting_refused _, ?_⟩⟩
  refine fun offer some' => ⟨fun _ => accounting_refused _, fun accepted _ _ => ?_⟩
  have state : a.snapshot.state = .offered := by
    simp only [not_or, not_not] at accepted
    exact accepted.1
  have charged := held.reserved_charge (.inl state) some'
  refine (bump_step (by rfl) ?_).mono fun b step => step.woken now
  rw [charged]
  exact .refl

theorem Held.unstarted (held : a.Held r) (none' : a.snapshot.source = none) :
    a.isOccupying = false := by
  have consistent := held.consistent
  unfold TaskAdmissionSnapshot.Consistent at consistent
  cases state : a.snapshot.state <;> simp_all [isOccupying]

theorem settleAttempt_spec {task : TaskSnapshot} {attempt : AttemptSnapshot} (held : a.Held r)
    (now : Nat) :
    Ensures Fault.Accounting (a.settleAttempt r task attempt now) fun p => Step a r p.1 p.2 := by
  simp only [settleAttempt, ensures_ite, ensures_bind, ensures_okOr, ensures_pure]
  refine ⟨fun _ => ⟨fun _ => ?_, fun _ => ⟨fun state => ?_, fun _ => held.same⟩⟩,
    fun _ => held.same⟩
  · exact (releaseOffer_spec held now).mono fun p released => released.1
  · have started : a.charge = .started := by simp [charge, state]
    refine ⟨fun _ => accounting_refused _, fun _ _ => ?_⟩
    refine (bump_step (by rfl) ?_).mono fun b step => step.woken now
    rw [started]
    exact Resource.moved_lose

/-- A request that is written as closed before Start has no source, so it was charged for nothing. -/
theorem bump_closed (held : a.Held r) (unreserved : ¬ a.Reserved)
    (same : b.occurrence = a.occurrence) (state : b.snapshot.state = .closedBeforeStart)
    (source : b.snapshot.source = a.snapshot.source) (now : Nat) :
    Ensures Fault.Accounting (b.bump now) fun b' => Step a r b' r := by
  refine (bump_spec b now).mono fun b' bumped => ?_
  obtain ⟨consistent, revision, rfl⟩ := bumped
  have none' : a.snapshot.source = none := by
    have closed : (b.bumped revision now).snapshot.state = .closedBeforeStart := state
    simp only [TaskAdmissionSnapshot.Consistent, closed] at consistent
    exact source ▸ consistent.1
  have free := charge_free unreserved (held.unstarted none')
  refine ⟨same, consistent, ?_⟩
  have free' : (b.bumped revision now).charge = .free := by simp [charge, bumped, state]
  rw [free, free']
  exact .refl

theorem closeUnassigned_spec (held : a.Held r) (now : Nat) :
    Ensures Fault.Accounting (a.closeUnassigned r now) fun p => Step a r p.1 p.2 := by
  simp only [closeUnassigned, ensures_bind, ensures_pure]
  refine (releaseOffer_spec held now).mono fun p released => ?_
  obtain ⟨first, unreserved⟩ := released
  refine (bump_closed (first.held held) unreserved (by rfl) (by rfl) (by rfl) now).mono fun b step => ?_
  exact (first.trans step).woken now

theorem liveUntil_ensures {task : Option TaskSnapshot} {attempt : Option AttemptSnapshot}
    {owner : LeaseOwner} {counts : TaskSnapshot → Bool} {deadline : AttemptSnapshot → Nat} :
    Ensures Fault.Accounting (liveUntil task attempt owner counts deadline) fun _ => True := by
  cases task with
  | none => trivial
  | some task =>
    simp only [liveUntil, ensures_ite, ensures_bind, ensures_okOr, ensures_pure, ensures_ok]
    exact ⟨fun _ => ⟨fun _ => accounting_refused _, fun _ _ => trivial⟩, fun _ => trivial⟩

theorem tickOffer_spec {x : TickContext} (held : a.Held r) :
    Ensures Fault.Accounting (a.tickOffer r x) fun p => Step a r p.1 p.2 := by
  simp only [tickOffer]
  rw [ensures_bind, ensures_okOr]
  refine ⟨fun _ => accounting_refused _, fun offer _ => ?_⟩
  rw [ensures_ite]
  refine ⟨fun _ => repark_spec held x.now, fun _ => ?_⟩
  rw [ensures_ite]
  refine ⟨fun _ => ?_, fun _ => held.same⟩
  simp only [ensures_bind, ensures_okOr]
  refine ⟨fun _ => accounting_refused _, fun owner _ => liveUntil_ensures.mono fun live _ => ?_⟩
  cases live.filter (x.now < ·) with
  | some next => exact ⟨rfl, held.consistent, .refl⟩
  | none =>
    rw [ensures_bind]
    exact (releaseOffer_spec held x.now).mono fun p released => released.1

theorem tickSource_spec {x : TickContext} (held : a.Held r)
    (state : a.snapshot.state = .possiblyDispatched) :
    Ensures Fault.Accounting (a.tickSource r x) fun p => Step a r p.1 p.2 := by
  have started : a.charge = .started := by simp [charge, state]
  simp only [tickSource]
  rw [ensures_ite]
  refine ⟨fun _ => ?_, fun _ => held.same⟩
  simp only [ensures_bind, ensures_okOr]
  refine ⟨fun _ => accounting_refused _, fun owner _ => liveUntil_ensures.mono fun live _ => ?_⟩
  cases live.filter (x.now < ·) with
  | some next => exact ⟨rfl, held.consistent, .refl⟩
  | none =>
    simp only [ensures_bind, ensures_okOr, ensures_pure]
    refine ⟨fun _ => accounting_refused _, fun _ _ => bump_step (by rfl) ?_⟩
    rw [started]
    exact Resource.moved_lose

/-- The scheduler only makes an offer that the resource has room and credit for. -/
theorem tickWaiting_spec {x : TickContext} (held : a.Held r) (state : a.snapshot.state = .waiting) :
    Ensures Fault.Accounting (a.tickWaiting r x) fun p => Step a r p.1 p.2 := by
  have free : a.charge = .free := by simp [charge, state]
  simp only [tickWaiting]
  rw [ensures_bind, ensures_okOr]
  refine ⟨fun _ => accounting_refused _, fun task _ => ?_⟩
  rw [ensures_ite]
  refine ⟨fun _ => ?_, fun _ => ?_⟩
  · simp only [ensures_bind, ensures_pure]
    exact bump_closed held (by simp [Reserved, state]) (by rfl) (by rfl) (by rfl) x.now
  rw [ensures_ite]
  refine ⟨fun _ => ⟨rfl, held.consistent, .refl⟩, fun _ => ?_⟩
  simp only [ensures_ite, ensures_bind, ensures_check, ensures_okOr, ready, ensures_refuse,
    ensures_pure]
  refine ⟨fun _ capacity known => ⟨fun room => ?_, fun _ => held.same⟩, fun _ => held.same⟩
  refine ⟨fun _ => accounting_refused _, fun generation _ => ⟨fun _ => accounting_refused _, ?_⟩⟩
  intro _ _
  have moved : r.Moved a.charge r.offer (a.offeredAt r generation x.now).charge := by
    rw [free]
    exact Resource.moved_offer known room.1
  refine (bump_step (by rfl) moved).mono fun b step => ⟨fun _ => accounting_refused _, ?_⟩
  exact fun _ _ => ⟨fun _ => accounting_refused _, fun _ _ => ⟨fun _ => accounting_refused _,
    fun _ => step⟩⟩

theorem tick_spec {x : TickContext} (held : a.Held r) :
    Ensures Fault.Accounting (a.tick r x) fun p => Step a r p.1 p.2 := by
  simp only [tick]
  rw [ensures_bind]
  refine (held.same.refilled x.now).mono fun r' first => ?_
  have here := first.held held
  split
  case h_1 | h_2 => exact (tickOffer_spec here).mono fun p step => first.trans step
  case h_3 state => exact (tickSource_spec here state).mono fun p step => first.trans step
  case h_4 state => exact (tickWaiting_spec here state).mono fun p step => first.trans step
  all_goals exact first

theorem existing_spec {writes : Option TaskWrites} {c : TaskAdmissionStartCommand} :
    Ensures Fault.Accounting (a.existing r writes c) fun p => p.1 = a ∧ p.2.1 = r := by
  simp only [existing, ensures_bind, ensures_check, ensures_pure]
  exact fun _ _ => ⟨trivial, trivial⟩

theorem answered_spec {writes : Option TaskWrites} {c : TaskAdmissionStartCommand}
    (step : Step a r a' r') :
    Ensures Fault.Accounting (a'.existing r' writes c) fun p => Step a r p.1 p.2.1 := by
  refine existing_spec.mono fun p same => ?_
  obtain ⟨same, same'⟩ := same
  rw [same, same']
  exact step

theorem denyStart_spec {c : TaskAdmissionStartCommand} {task : TaskSnapshot}
    {attempt : AttemptSnapshot} {reason : RunBudgetDenial} (held : a.Held r) (now : Nat) :
    Ensures Fault.Accounting (a.denyStart r c task attempt reason now) fun p =>
      Step a r p.1 p.2.1 := by
  simp only [denyStart, ensures_bind, ensures_check]
  intro transition _
  refine (releaseOffer_spec held now).mono fun p released => ?_
  refine (bump_step ?_ ?_).mono fun b step => answered_spec (step.woken now)
  · exact released.1.occurrence
  · exact released.1.moved

theorem grant_spec {c : TaskAdmissionStartCommand} {x : TaskStartContext} {task : TaskSnapshot}
    {attempt : AttemptSnapshot} {session : WorkerSession} {budgetDeadline : Option Nat} {k : Nat}
    (held : a.Held r) (charged : a.charge = .offered k) (current : k = r.revision) (now : Nat) :
    Ensures Fault.Accounting (a.grant r c x task attempt session budgetDeadline now) fun p =>
      Step a r p.1 p.2.1 := by
  have holds := charged ▸ held.holds
  simp only [grant, ensures_bind, ensures_check, ensures_refuse, ensures_okOr, ensures_pure]
  intro transition _
  refine (r.refill_spec now).mono fun r₁ refilled => ?_
  obtain ⟨moved, ready, -, -⟩ := refilled
  have here := holds.moved (moved _)
  have current₁ : k = r₁.revision := current.trans (moved (.offered k)).revision.symm
  have outstanding := here.outstanding current₁
  refine ⟨fun none' => absurd none' (Nat.ne_of_gt outstanding), fun _ => ?_⟩
  refine (AdmissionRequest.spend_start here current₁ ready _).mono fun r₂ spent => ?_
  obtain ⟨-, -, -, start⟩ := spent
  refine ⟨fun _ => accounting_refused _, fun _ _ _ _ => ⟨fun _ => accounting_refused _, ?_⟩⟩
  intro _ _
  have started : r.Moved a.charge r₂.start
      (a.dispatched c (a.newSource r₂ c x attempt budgetDeadline now) attempt).charge := by
    rw [charged]
    exact (moved _).trans start
  refine (bump_step (by rfl) started).mono fun b step => ⟨fun _ => accounting_refused _, ?_⟩
  exact fun _ _ _ => step.woken now

theorem startPrepared_spec {c : TaskAdmissionStartCommand} {x : TaskStartContext}
    {offer : TaskAdmissionOffer} {k : Nat} (held : a.Held r) (charged : a.charge = .offered k)
    (current : k = r.revision) :
    Ensures Fault.Accounting (a.startPrepared r c x offer) fun p => Step a r p.1 p.2.1 := by
  simp only [startPrepared, ensures_bind, ensures_okOr, ensures_refuse]
  refine ⟨fun _ => accounting_refused _, fun task _ => ⟨fun _ => accounting_refused _, ?_⟩⟩
  refine fun session _ => ⟨fun _ => accounting_refused _, fun _ => ⟨fun _ => accounting_refused _, ?_⟩⟩
  intro attempt _
  split
  case h_1 reason _ => exact denyStart_spec held x.deniedAt
  case h_2 budgetDeadline _ =>
    rw [ensures_bind, ensures_refuse]
    exact ⟨fun _ => accounting_refused _, fun _ => grant_spec held charged current _⟩

theorem startTask_spec {c : TaskAdmissionStartCommand} {x : TaskStartContext} (held : a.Held r) :
    Ensures Fault.Accounting (a.startTask r c x) fun p => Step a r p.1 p.2.1 := by
  simp only [startTask]
  rw [ensures_bind, ensures_check]
  intro _ _
  rw [ensures_bind, ensures_check]
  intro _ _
  cases a.startCommand with
  | some accepted =>
    simp only [ensures_bind, ensures_refuse]
    exact ⟨fun _ => accounting_refused _, fun _ => answered_spec held.same⟩
  | none =>
    simp only
    rw [ensures_bind, ensures_refuse]
    refine ⟨fun _ => accounting_refused _, fun _ => ?_⟩
    rw [ensures_ite]
    refine ⟨fun _ => answered_spec held.same, fun prepared => ?_⟩
    simp only [ensures_bind, ensures_refuse, ensures_okOr]
    refine ⟨fun _ => accounting_refused _, fun _ => ⟨fun _ => accounting_refused _, fun _ => ?_⟩⟩
    refine ⟨fun _ => accounting_refused _, fun offer some' => ?_⟩
    rw [ensures_ite]
    refine ⟨fun _ => ?_, fun holding => ?_⟩
    · rw [ensures_bind]
      exact (releaseOffer_spec held x.now).mono fun p released => answered_spec released.1
    · have state : a.snapshot.state = .preparing := by
        simp only [not_or, not_not] at prepared
        exact prepared.1
      simp only [Lapsed, not_or, not_not] at holding
      exact startPrepared_spec held (held.reserved_charge (.inr state) some') holding.1

theorem closeStartedTransition_ensures {c : TaskAdmissionCloseCommand} {x : CloseContext} :
    Ensures Fault.Accounting (closeStartedTransition c x now) fun _ => True := by
  unfold closeStartedTransition
  split
  · simp only [ensures_bind, ensures_okOr, ensures_check, ensures_pure]
    exact ⟨fun _ => accounting_refused _, fun _ _ _ _ => trivial⟩
  · trivial

theorem closeUnstartedTransition_ensures {c : TaskAdmissionCloseCommand} {x : CloseContext} :
    Ensures Fault.Accounting (a.closeUnstartedTransition c x now) fun _ => True := by
  unfold closeUnstartedTransition
  rw [ensures_ite]
  refine ⟨fun _ => ?_, fun _ => ?_⟩
  · simp only [ensures_bind, ensures_okOr, ensures_refuse]
    refine ⟨fun _ => accounting_refused _, fun original _ => ⟨fun _ => accounting_refused _, ?_⟩⟩
    intro _
    split
    · simp only [ensures_bind, ensures_okOr, ensures_check, ensures_pure]
      exact ⟨fun _ => accounting_refused _, fun _ _ _ _ => trivial⟩
    · trivial
  · split
    · simp only [ensures_bind, ensures_okOr, ensures_ite, ensures_check, ensures_pure]
      exact ⟨fun _ => accounting_refused _, fun _ _ => ⟨fun _ _ _ => trivial, fun _ => trivial⟩⟩
    · simp only [ensures_bind, ensures_okOr, ensures_ite, ensures_check, ensures_pure, ensures_ok]
      exact ⟨fun _ => ⟨fun _ => accounting_refused _, fun _ _ => ⟨fun _ _ _ => trivial,
        fun _ => trivial⟩⟩, fun _ => trivial⟩
    · trivial

/-- A started source is freed once, and what is not one is left alone. -/
theorem releaseStarted_spec (held : a.Held r) (now : Nat) :
    Ensures Fault.Accounting (a.releaseStarted r now) fun p =>
      p.2.2 = true ∧ p.1 = { a with checkAt := none } ∧ r.Moved a.charge p.2.1 .free ∨
        p = (a, r, false) ∧ a.isOccupying = false := by
  simp only [releaseStarted]
  rw [ensures_ite]
  refine ⟨fun idle => .inr ⟨rfl, idle⟩, fun occupying => ?_⟩
  have running := charge_running (by simpa using occupying)
  simp only [ensures_bind, ensures_pure]
  refine (Resource.release_spec held.holds.counts running).mono fun r₁ freed => ?_
  refine (r₁.refill_spec now).mono fun r₂ refilled => .inl ⟨trivial, trivial, ?_⟩
  exact (freed.trans (refilled.1 _)).trans (Resource.moved_wake now)

theorem closeStarted_spec {c : TaskAdmissionCloseCommand} {x : CloseContext} (held : a.Held r)
    (now : Nat) :
    Ensures Fault.Accounting (a.closeStarted r c x now) fun p => Step a r p.1 p.2.1 := by
  simp only [closeStarted, ensures_bind]
  refine (releaseStarted_spec held now).mono fun p released => ?_
  refine closeStartedTransition_ensures.mono fun writes _ => ?_
  simp only [closed, ensures_bind, ensures_check, ensures_pure]
  intro _ _
  obtain ⟨freed, same, moved⟩ | ⟨rfl, idle⟩ := released
  · refine (bump_step ?_ ?_).mono fun b step => step.woken now
    · rw [freed, same]
      rfl
    · rw [freed]
      exact moved
  · refine (bump_step (by rfl) ?_).mono fun b step => step.woken now
    exact .refl

theorem closeUnstarted_spec {c : TaskAdmissionCloseCommand} {x : CloseContext} (held : a.Held r)
    (now : Nat) :
    Ensures Fault.Accounting (a.closeUnstarted r c x now) fun p => Step a r p.1 p.2.1 := by
  simp only [closeUnstarted, ensures_bind]
  refine (releaseOffer_spec held now).mono fun p released => ?_
  obtain ⟨first, unreserved⟩ := released
  refine closeUnstartedTransition_ensures.mono fun writes _ => ?_
  simp only [closed, ensures_bind, ensures_check, ensures_pure]
  intro _ _
  refine (bump_closed (first.held held) unreserved (by rfl) (by rfl) (by rfl) now).mono
    fun b step => ?_
  exact (first.trans step).woken now

theorem closeTask_spec {c : TaskAdmissionCloseCommand} {x : CloseContext} (held : a.Held r) :
    Ensures Fault.Accounting (a.closeTask r c x) fun p => Step a r p.1 p.2.1 := by
  simp only [closeTask]
  rw [ensures_bind, ensures_check]
  intro _ _
  rw [ensures_bind, ensures_check]
  intro _ _
  cases a.closeCommand with
  | some accepted =>
    simp only [ensures_bind, ensures_refuse, ensures_okOr, ensures_pure]
    exact ⟨fun _ => accounting_refused _, fun _ => ⟨fun _ => accounting_refused _,
      fun _ _ => held.same⟩⟩
  | none =>
    simp only
    rw [ensures_bind, ensures_refuse]
    refine ⟨fun _ => accounting_refused _, fun _ => ?_⟩
    rw [ensures_ite]
    exact ⟨fun _ => closeStarted_spec held _, fun _ => closeUnstarted_spec held _⟩

theorem releaseTask_spec {sourceId : String} {expectedRevision : Nat} (held : a.Held r)
    (sampled : Nat) :
    Ensures Fault.Accounting (a.releaseTask r sourceId expectedRevision sampled) fun p =>
      Step a r p.1 p.2 := by
  simp only [releaseTask, ensures_bind, ensures_refuse, ensures_pure]
  refine ⟨fun _ => accounting_refused _, fun accepted => ?_⟩
  refine (releaseStarted_spec held _).mono fun p released => ?_
  obtain ⟨freed, same, moved⟩ | ⟨rfl, idle⟩ := released
  · refine bump_step ?_ ?_
    · rw [same]
      rfl
    · exact moved
  · exact absurd (.inr (.inr idle)) accepted

end TaskAdmissionRequest
end Ledgence
