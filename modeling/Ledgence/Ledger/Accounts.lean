import Ledgence.Ledger.Execution

/-! Every operation on a workflow's request moves the row's counters as it moves the request. -/
open Kit Kit.Checked

namespace Ledgence

namespace Resource
variable {r r' : Resource} {c c' : Charge}

structure Holds (r : Resource) (c : Charge) : Prop where
  counts : r.Counts c
  covered : r.Covered

theorem Moved.revision (moved : Moved r c r' c') : r'.revision = r.revision := by
  rw [Resource.revision, moved.record]

theorem Holds.moved (holds : r.Holds c) (moved : Moved r c r' c') : r'.Holds c' := by
  refine ⟨⟨fun h => ?_, fun h => ?_, fun h => ?_⟩, moved.covered holds.covered⟩
  · have total := moved.offered
    rw [moved.revision] at h
    have counted := holds.counts.offered
    rw [if_pos h] at total
    by_cases hc : c.offersAt r.revision = true
    · have := counted hc
      simp only [hc, if_true] at total
      omega
    · simp only [hc, Bool.false_eq_true, if_false] at total
      omega
  · have total := moved.started
    have counted := holds.counts.started
    rw [if_pos h] at total
    by_cases hc : c.running = true
    · have := counted hc
      simp only [hc, if_true] at total
      omega
    · simp only [hc, Bool.false_eq_true, if_false] at total
      omega
  · have total := moved.unknown
    have counted := holds.counts.unknown
    rw [if_pos h] at total
    by_cases hc : c.lost = true
    · have := counted hc
      simp only [hc, if_true] at total
      omega
    · simp only [hc, Bool.false_eq_true, if_false] at total
      omega

/-- A reservation of the current policy is charged for, so there is one in the counter. -/
theorem Holds.outstanding {k : Nat} (holds : r.Holds (.offered k)) (current : k = r.revision) :
    0 < r.offered :=
  holds.counts.offered (by simp [Charge.offersAt, current])

theorem moved_start {k : Nat} {spent : Resource} (holds : r.Holds (.offered k))
    (current : k = r.revision) (offered : spent.offered = r.offered)
    (started : spent.started = r.started) (unknown : spent.unknown = r.unknown)
    (record : spent.record = r.record)
    (funded : ∀ rate, r.record.policy.rate = some rate →
      ∃ credit, spent.credit = some credit ∧ (r.offered - 1) * rate.periodMs ≤ credit) :
    Moved r (.offered k) spent.start .started := by
  have outstanding := holds.outstanding current
  constructor
  case record => exact record
  case offered =>
    simp only [start, Charge.offersAt, current, beq_self_eq_true, if_true, Bool.false_eq_true,
      if_false, offered]
    omega
  case started => simp [start, Charge.running, started]
  case unknown => simp [start, Charge.lost, unknown]
  case current => exact fun k same => by simp at same
  case covered =>
    intro covered
    refine ⟨?_, fun positive => ?_⟩
    · simp only [start, record, offered]
      exact funded
    · have := covered.room outstanding
      simp only [start, record, offered, started] at positive ⊢
      omega

end Resource

namespace AdmissionRequest
variable {a a' a'' b : AdmissionRequest} {r r' r'' : Resource} {now : Nat}

structure Held (a : AdmissionRequest) (r : Resource) : Prop where
  consistent : a.snapshot.Consistent
  holds : r.Holds a.charge

structure Step (a : AdmissionRequest) (r : Resource) (a' : AdmissionRequest) (r' : Resource) :
    Prop where
  occurrence : a'.occurrence = a.occurrence
  consistent : a'.snapshot.Consistent
  moved : r.Moved a.charge r' a'.charge

theorem Step.held (step : Step a r a' r') (held : a.Held r) : a'.Held r' :=
  ⟨step.consistent, held.holds.moved step.moved⟩

theorem Step.trans (first : Step a r a' r') (rest : Step a' r' a'' r'') : Step a r a'' r'' :=
  ⟨rest.occurrence.trans first.occurrence, rest.consistent, first.moved.trans rest.moved⟩

theorem Held.same (held : a.Held r) : Step a r a r :=
  ⟨rfl, held.consistent, .refl⟩

theorem Held.offer_charge (held : a.Held r) {offer : AdmissionOffer}
    (some' : a.snapshot.offer = some offer) :
    a.snapshot.state = .offered ∧ a.charge = .offered offer.policyRevision := by
  have consistent := held.consistent
  unfold AdmissionSnapshot.Consistent at consistent
  cases state : a.snapshot.state <;> simp_all [charge]

theorem Held.offer_some (held : a.Held r) (offered : a.snapshot.state = .offered) :
    ∃ offer, a.snapshot.offer = some offer := by
  have consistent := held.consistent
  simp only [AdmissionSnapshot.Consistent, offered] at consistent
  exact Option.isSome_iff_exists.mp consistent.1

theorem bump_spec (a : AdmissionRequest) (now : Nat) :
    Ensures Fault.Accounting (a.bump now) fun a' =>
      a'.occurrence = a.occurrence ∧ a'.charge = a.charge ∧ a'.snapshot.Consistent := by
  simp only [bump, ensures_bind, ensures_okOr, ensures_wellFormed, ensures_pure]
  refine ⟨fun _ => accounting_refused _, fun revision _ valid accepted => ?_⟩
  exact ⟨rfl, rfl, AdmissionSnapshot.consistent_of_validate accepted⟩

/-- A request that was changed is bumped: what is left to show is how its charge moved. -/
theorem bump_step (same : b.occurrence = a.occurrence) (moved : r.Moved a.charge r' b.charge) :
    Ensures Fault.Accounting (b.bump now) fun b' => Step a r b' r' := by
  refine (bump_spec b now).mono fun b' bumped => ?_
  obtain ⟨occurrence, charge, consistent⟩ := bumped
  exact ⟨occurrence.trans same, consistent, charge ▸ moved⟩

theorem Step.refilled (step : Step a r a' r') (now : Nat) :
    Ensures Fault.Accounting (r'.refill now) fun r'' => Step a r a' r'' :=
  (r'.refill_spec now).mono fun _ refilled =>
    ⟨step.occurrence, step.consistent, step.moved.trans (refilled.1 _)⟩

theorem Step.woken (step : Step a r a' r') (now : Nat) : Step a r a' (r'.wake now) :=
  ⟨step.occurrence, step.consistent, step.moved.trans (Resource.moved_wake now)⟩

/-- Taking an offer back ends its charge, whether or not the counter still has it. -/
theorem withdraw_step {α : Type} {fault : Fault} {k : Nat} (holds : r.Holds (.offered k))
    {next : Resource → Outcome α} {post : α → Prop}
    (tail : ∀ r', r.Moved (.offered k) r' .free → Ensures Fault.Accounting (next r') post) :
    Ensures Fault.Accounting
      (if k = r.revision then r.withdraw fault >>= next else .ok r >>= next) post := by
  rw [ensures_ite]
  refine ⟨fun current => ?_, fun stale => ?_⟩
  · rw [ensures_bind]
    exact (Resource.withdraw_spec holds.counts current).mono tail
  · rw [ok_bind]
    exact tail r (Resource.moved_stale stale)

/-- The tail of most operations: the request is written and credit is brought up to date. -/
theorem settled_step {α : Type} {next : AdmissionRequest → Resource → Outcome α} {post : α → Prop}
    (same : b.occurrence = a.occurrence) (moved : r.Moved a.charge r' b.charge)
    (tail : ∀ b r', Step a r b r' → Ensures Fault.Accounting (next b r') post) :
    Ensures Fault.Accounting (do
      let b ← b.bump now
      let r ← r'.refill now
      next b r) post := by
  simp only [ensures_bind]
  refine (bump_step same moved).mono fun b step => ?_
  exact (step.refilled now).mono fun r'' later => tail b r'' later

theorem invalidateOffer_spec (held : a.Held r) (now : Nat) :
    Ensures Fault.Accounting (a.invalidateOffer r now) fun p => Step a r p.1 p.2.1 := by
  cases offered : a.snapshot.offer with
  | none =>
    simp only [invalidateOffer, offered, ensures_ok]
    exact held.same
  | some offer =>
    have charged := (held.offer_charge offered).2
    have holds := charged ▸ held.holds
    simp only [invalidateOffer, offered]
    rw [ensures_ite]
    refine ⟨fun _ => withdraw_step holds fun r' withdrawn => ?_, fun _ => held.same⟩
    refine settled_step (by rfl) ?_ fun b r'' step => step.woken now
    rw [charged]
    exact withdrawn

theorem closeRequest_spec (held : a.Held r) (now : Nat) :
    Ensures Fault.Accounting (a.closeRequest r now) fun p => Step a r p.1 p.2 := by
  cases state : a.snapshot.state with
  | offered =>
    obtain ⟨offer, offered⟩ := held.offer_some state
    have charged := (held.offer_charge offered).2
    have holds := charged ▸ held.holds
    simp only [closeRequest, state, offered, Option.any_some, decide_eq_true_eq]
    refine withdraw_step holds fun r' withdrawn => settled_step (by rfl) ?_ fun b r'' step => step.woken now
    rw [charged]
    exact withdrawn
  | waiting | awaitingRewait =>
    have free : a.charge = .free := by simp [charge, state]
    simp only [closeRequest, state]
    refine settled_step (by rfl) ?_ fun b r'' step => step.woken now
    rw [free]
    exact .refl
  | possiblyDispatched =>
    have started : a.charge = .started := by simp [charge, state]
    simp only [closeRequest, state]
    refine settled_step (by rfl) ?_ fun b r'' step => step.woken now
    rw [started]
    exact Resource.moved_lose
  | unknownOccupied | finished | closedBeforeStart | administrativelyReleased =>
    simp only [closeRequest, state]
    exact held.same

theorem Step.parked (step : Step a r a' r') (parking : Option String) :
    Step a r { a' with parking } r' :=
  ⟨step.occurrence, step.consistent, step.moved⟩

theorem closeParked_spec (held : a.Held r) (now : Nat) :
    Ensures Fault.Accounting (a.closeParked r now) fun p => Step a r p.1 p.2 := by
  simp only [closeParked, ensures_bind, ensures_pure]
  exact (closeRequest_spec held now).mono fun p step => step.parked none

theorem select_spec {parking resumed : String} {selection : AdmissionSelection} (held : a.Held r)
    (unoffered : AdmissionSelection.isClosed selection = true → a.snapshot.state ≠ .offered)
    (now : Nat) :
    Ensures Fault.Accounting (a.select r parking resumed selection now) fun p =>
      Step a r p.1 p.2 := by
  simp only [select]
  rw [ensures_bind, ensures_check]
  intro _ _
  refine settled_step (by split <;> rfl) ?_ fun b r'' step => step.woken _
  by_cases closing : AdmissionSelection.isClosed selection = true ∧ a.snapshot.source = none
  · have free : a.charge = .free := by
      have consistent := held.consistent
      have other := unoffered closing.1
      unfold AdmissionSnapshot.Consistent at consistent
      cases state : a.snapshot.state <;> simp_all [charge]
    rw [if_pos closing, free]
    exact .refl
  · rw [if_neg closing]
    exact .refl

theorem resolved_unoffered {deadline now : Nat} {selection : AdmissionSelection}
    (resolved : a.resolved deadline now = some selection)
    (closed : AdmissionSelection.isClosed selection = true) : a.snapshot.state ≠ .offered := by
  intro offered
  cases evidence : a.snapshot.provider with
  | some record =>
    obtain rfl : .provider record = selection := by simpa [AdmissionRequest.resolved, evidence] using resolved
    simp [AdmissionSelection.isClosed] at closed
  | none => simp [AdmissionRequest.resolved, evidence, offered] at resolved

/-- Resume the workflow if its request has come to an end, and leave it waiting otherwise. -/
theorem resume_spec {parking resumed : String} {deadline now : Nat} (held : a.Held r) :
    Ensures Fault.Accounting
      (match a.resolved deadline now with
        | some selection => a.select r parking resumed selection now
        | none => .ok (a, r)) fun p => Step a r p.1 p.2 := by
  cases resolved : a.resolved deadline now with
  | none => exact held.same
  | some selection => exact select_spec held (resolved_unoffered resolved) now

theorem applyWait_spec {parking resumed : String} {deadline now : Nat} (held : a.Held r) :
    Ensures Fault.Accounting (a.applyWait r parking resumed deadline now) fun p =>
      Step a r p.1 p.2 := by
  simp only [applyWait]
  rw [ensures_bind, ensures_refuse]
  exact ⟨fun _ => accounting_refused _, fun _ => resume_spec held⟩

theorem relinquish_spec (held : a.Held r) :
    Ensures Fault.Accounting (a.relinquish r) fun p =>
      p.1.occurrence = a.occurrence ∧ r.Moved a.charge p.2 p.1.charge := by
  cases offered : a.snapshot.offer with
  | none =>
    simp only [relinquish, offered, ensures_ok]
    exact ⟨trivial, .refl⟩
  | some offer =>
    have charged := (held.offer_charge offered).2
    have holds := charged ▸ held.holds
    simp only [relinquish, offered]
    refine withdraw_step holds fun r' withdrawn => ?_
    rw [ensures_pure, charged]
    exact ⟨rfl, withdrawn⟩

theorem rewait_spec {parking : String} {now : Nat} (held : a.Held r) :
    Ensures Fault.Accounting (a.rewait r parking now) fun p => Step a r p.1 p.2 := by
  simp only [rewait, ensures_bind, ensures_refuse, ensures_pure]
  refine ⟨fun _ => accounting_refused _, fun _ => ?_⟩
  refine (invalidateOffer_spec held now).mono fun p first => ?_
  refine (relinquish_spec (first.held held)).mono fun q second => ?_
  obtain ⟨occurrence, moved⟩ := second
  have charge : (if q.1.snapshot.state = .awaitingRewait then q.1.withState .waiting
      else q.1).charge = q.1.charge := by
    by_cases awaiting : q.1.snapshot.state = .awaitingRewait
    · simp [awaiting, withState, AdmissionRequest.charge]
    · rw [if_neg awaiting]
  refine bump_step ?_ ?_
  · rw [← first.occurrence, ← occurrence]
    split <;> rfl
  · have same := charge ▸ (first.moved.trans moved)
    exact same

theorem installEpisode_spec {parking resumed : String} {until' now : Nat} (held : a.Held r) :
    Ensures Fault.Accounting (a.installEpisode r parking resumed until' now) fun p =>
      Step a r p.1 p.2 := by
  have woken (short : Option Nat) : Held { a with shortEpisodeDeadline := short } (r.wake now) :=
    ⟨held.consistent, held.holds.moved (Resource.moved_wake now)⟩
  refine (resume_spec (woken _)).mono fun p step => ?_
  exact ⟨step.occurrence, step.consistent, (Resource.moved_wake now).trans step.moved⟩

theorem tickSource_spec {x : AdmissionTick} (held : a.Held r)
    (state : a.snapshot.state = .possiblyDispatched) :
    Ensures Fault.Accounting (a.tickSource r x) fun p => Step a r p.1 p.2 := by
  have started : a.charge = .started := by simp [charge, state]
  simp only [tickSource]
  rw [ensures_ite]
  refine ⟨fun _ => ?_, fun _ => held.same⟩
  rw [ensures_bind, ensures_refuse]
  refine ⟨fun _ => accounting_refused _, fun _ => ?_⟩
  cases x.sourceCheckAt with
  | some next => exact ⟨rfl, held.consistent, .refl⟩
  | none =>
    simp only [ensures_bind, ensures_pure]
    refine bump_step (by rfl) ?_
    rw [started]
    exact Resource.moved_lose

/-- The scheduler only makes an offer that the resource has room and credit for. -/
theorem tickWaiting_spec {x : AdmissionTick} (held : a.Held r)
    (state : a.snapshot.state = .waiting) :
    Ensures Fault.Accounting (a.tickWaiting r x) fun p => Step a r p.1 p.2 := by
  have free : a.charge = .free := by simp [charge, state]
  simp only [tickWaiting, ensures_bind, ensures_okOr, ensures_refuse]
  refine ⟨fun _ => accounting_refused _, fun run _ => ⟨fun _ => accounting_refused _, ?_⟩⟩
  refine fun parking _ => ⟨fun _ => accounting_refused _, fun _ => ?_⟩
  refine ⟨fun _ => accounting_refused _, fun deadline _ => ?_⟩
  cases resolved : a.resolved deadline x.now with
  | some selection => exact select_spec held (resolved_unoffered resolved) x.now
  | none =>
    simp only [ensures_ite, ensures_bind, ensures_check, ensures_okOr, ensures_pure]
    refine ⟨fun _ capacity known => ⟨fun room => ?_, fun _ => held.same⟩, fun _ => held.same⟩
    refine ⟨fun _ => accounting_refused _, fun generation _ _ _ => ?_⟩
    have moved := Resource.moved_offer known room.1
    have offered : Held (a.offeredWith generation (a.offerFor r generation x.taskId deadline x.now))
        r.offer := by
      refine ⟨?_, (free ▸ held.holds).moved moved⟩
      have consistent := held.consistent
      simp only [AdmissionSnapshot.Consistent, state] at consistent
      exact ⟨rfl, consistent.2.1, consistent.2.2⟩
    refine (select_spec offered (by simp [AdmissionSelection.isClosed]) x.now).mono fun p step => ?_
    exact ⟨step.occurrence, step.consistent, (free ▸ moved).trans step.moved⟩

theorem tick_spec {x : AdmissionTick} (held : a.Held r) :
    Ensures Fault.Accounting (a.tick r x) fun p => Step a r p.1 p.2 := by
  simp only [tick]
  rw [ensures_ite]
  refine ⟨fun _ => closeParked_spec held x.now, fun _ => ?_⟩
  rw [ensures_bind]
  refine (invalidateOffer_spec held x.now).mono fun p first => ?_
  have here := first.held held
  rw [ensures_ite]
  refine ⟨fun _ => first, fun _ => ?_⟩
  split
  case h_1 state => exact (tickSource_spec here state).mono fun q step => first.trans step
  case h_2 state => exact (tickWaiting_spec here state).mono fun q step => first.trans step
  all_goals exact first

theorem recoverExpired_spec {c : AdmissionStartCommand} {x : StartContext} {observedAt : Nat}
    (held : a.Held r) :
    Ensures Fault.Accounting (a.recoverExpired r c x observedAt) fun p => Step a r p.1 p.2 := by
  simp only [recoverExpired, ensures_bind, ensures_refuse, ensures_check, ensures_pure]
  refine ⟨fun _ => accounting_refused _, fun _ _ _ => ?_⟩
  refine (invalidateOffer_spec held x.recoveredAt).mono fun p step => ?_
  exact ⟨fun _ => accounting_refused _, fun _ => ⟨fun _ => accounting_refused _, fun _ _ _ => step⟩⟩

theorem closeBudgetOffer_spec {reason : RunBudgetDenial} {k : Nat} (held : a.Held r)
    (charged : a.charge = .offered k) (current : k = r.revision) (now : Nat) :
    Ensures Fault.Accounting (a.closeBudgetOffer r reason now) fun p => Step a r p.1 p.2 := by
  have holds := charged ▸ held.holds
  simp only [closeBudgetOffer, ensures_bind, ensures_pure]
  refine (Resource.withdraw_spec holds.counts current).mono fun r' withdrawn => ?_
  refine (bump_step (by rfl) ?_).mono fun b step => (step.woken now).refilled now
  rw [charged]
  exact withdrawn

theorem Eligible.charged {c : AdmissionStartCommand} (held : a.Held r)
    (eligible : a.Eligible r c now) : ∃ k, a.charge = .offered k ∧ k = r.revision := by
  obtain ⟨⟨offer, some', -, -, current, -⟩, -⟩ := eligible
  exact ⟨offer.policyRevision, (held.offer_charge some').2, current⟩

theorem spend_start {k : Nat} (holds : r.Holds (.offered k)) (current : k = r.revision)
    (ready : r.Ready) (missing : ContractError) :
    Ensures Fault.Accounting (r.spend missing) fun spent =>
      spent.offered = r.offered ∧ spent.started = r.started ∧ spent.record = r.record ∧
        r.Moved (.offered k) spent.start .started := by
  refine (Resource.spend_spec holds.covered ready (holds.outstanding current)).mono
    fun spent all => ?_
  obtain ⟨offered, started, unknown, record, -, funded⟩ := all
  exact ⟨offered, started, record,
    Resource.moved_start holds current offered started unknown record funded⟩

theorem spent_spec {k : Nat} (holds : r.Holds (.offered k)) (current : k = r.revision)
    (missing : ContractError) (now : Nat) :
    Ensures Fault.Accounting (do
      let r ← r.refill now
      r.spend missing) fun spent =>
        spent.offered = r.offered ∧ spent.started = r.started ∧ spent.record = r.record ∧
          r.Moved (.offered k) spent.start .started := by
  rw [ensures_bind]
  refine (r.refill_spec now).mono fun r₁ refilled => ?_
  obtain ⟨moved, ready, offered, started⟩ := refilled
  have here := holds.moved (moved _)
  have current₁ : k = r₁.revision := current.trans (moved (.offered k)).revision.symm
  refine (spend_start here current₁ ready missing).mono fun spent all => ?_
  obtain ⟨offered', started', record', start⟩ := all
  exact ⟨offered'.trans offered, started'.trans started,
    record'.trans (moved (.offered k)).record, (moved _).trans start⟩

/-- The counter and the ceiling agree that an outstanding reservation may start. -/
theorem occupancy {k : Nat} (holds : r.Holds (.offered k)) (current : k = r.revision) :
    ¬ (r.offered = 0 ∨ r.record.policy.maxOccupancy ≤ r.started) := by
  have outstanding := holds.outstanding current
  have room := holds.covered.room outstanding
  omega

theorem grant_spec {c : AdmissionStartCommand} {x : StartContext} {budgetDeadline : Option Nat}
    {k : Nat} (held : a.Held r) (charged : a.charge = .offered k) (current : k = r.revision)
    (now : Nat) :
    Ensures Fault.Accounting (a.grant r c x budgetDeadline now) fun p => Step a r p.1 p.2.1 := by
  have holds := charged ▸ held.holds
  have spent := spent_spec holds current (corruptRecord .workflow "admission rate credit") now
  simp only [ensures_bind] at spent
  simp only [grant, ensures_bind, ensures_refuse, ensures_okOr, ensures_check, ensures_pure]
  refine spent.mono fun r₁ more => more.mono fun r₂ facts => ?_
  obtain ⟨offered, started, record, moved⟩ := facts
  have authorized := occupancy holds current
  rw [← offered, ← started, ← record] at authorized
  refine ⟨fun bad => absurd bad authorized, fun _ => ⟨fun _ => accounting_refused _, ?_⟩⟩
  intro _ _ _ _
  refine (bump_step (by rfl) ?_).mono fun b step => step.woken now
  rw [charged]
  exact moved

/-- A Start that comes too late for its offer keeps the expiry and nothing else. -/
theorem recovered_spec {c : AdmissionStartCommand} {x : StartContext} {observedAt : Nat}
    (held : a.Held r) :
    Ensures Fault.Accounting (do
      let (a, r) ← a.recoverExpired r c x observedAt
      return (a, r, AdmissionStartReceipt.existing a.snapshot)) fun p => Step a r p.1 p.2.1 := by
  simp only [ensures_bind, ensures_pure]
  exact recoverExpired_spec held

theorem denied_spec {c : AdmissionStartCommand} {x : StartContext} {reason : RunBudgetDenial}
    {k : Nat} (held : a.Held r) (charged : a.charge = .offered k) (current : k = r.revision) :
    Ensures Fault.Accounting (do
      let (a, r) ← { a with startCommand := some c }.closeBudgetOffer r reason x.deniedAt
      check (x.activation.checkLive c.owner x.finalNow)
      return (a, r, AdmissionStartReceipt.existing a.snapshot)) fun p => Step a r p.1 p.2.1 := by
  have commanded : Held { a with startCommand := some c } r := ⟨held.consistent, held.holds⟩
  simp only [ensures_bind, ensures_check, ensures_pure]
  refine (closeBudgetOffer_spec commanded charged current x.deniedAt).mono fun p step _ _ => ?_
  exact ⟨step.occurrence, step.consistent, step.moved⟩

theorem startEligible_spec {c : AdmissionStartCommand} {x : StartContext} {k : Nat}
    (held : a.Held r) (charged : a.charge = .offered k) (current : k = r.revision) :
    Ensures Fault.Accounting (a.startEligible r c x) fun p => Step a r p.1 p.2.1 := by
  simp only [startEligible]
  rw [ensures_bind, ensures_check]
  intro _ _
  rw [ensures_bind, ensures_okOr]
  refine ⟨fun _ => accounting_refused _, fun offer _ => ?_⟩
  split
  case h_1 reason _ => exact denied_spec held charged current
  case h_2 budgetDeadline _ =>
    rw [ensures_bind, ensures_check]
    intro _ _
    rw [ensures_ite]
    refine ⟨fun _ => recovered_spec held, fun _ => ?_⟩
    simp only [ensures_bind, ensures_refuse, ensures_check]
    refine ⟨fun _ => accounting_refused _, fun _ => ?_⟩
    refine (grant_spec held charged current _).mono fun p granted _ _ => ?_
    rw [ensures_ite]
    refine ⟨fun _ => recovered_spec held, fun _ => ?_⟩
    rw [ensures_bind, ensures_refuse]
    exact ⟨fun _ => accounting_refused _, fun _ => granted⟩

theorem startAdmission_spec {c : AdmissionStartCommand} {x : StartContext} (held : a.Held r) :
    Ensures Fault.Accounting (a.startAdmission r c x) fun p => Step a r p.1 p.2.1 := by
  simp only [startAdmission]
  rw [ensures_bind, ensures_check]
  intro _ _
  rw [ensures_bind, ensures_refuse]
  refine ⟨fun _ => accounting_refused _, fun _ => ?_⟩
  rw [ensures_bind, ensures_check]
  intro _ _
  rw [ensures_ite]
  refine ⟨fun _ => ?_, fun _ => ?_⟩
  · rw [ensures_bind, ensures_check]
    exact fun _ _ => held.same
  · simp only [ensures_bind, ensures_refuse]
    refine ⟨fun _ => accounting_refused _, fun _ => ⟨fun _ => accounting_refused _, fun _ => ?_⟩⟩
    refine (invalidateOffer_spec held x.now).mono fun p first => ?_
    rw [ensures_ite]
    refine ⟨fun eligible => ?_, fun _ => first⟩
    have here := first.held held
    obtain ⟨k, charged, current⟩ := eligible.charged here
    exact (startEligible_spec here charged current).mono fun q step => first.trans step

/-- Freeing a started source, or leaving one alone that an operator has freed. -/
theorem running_of_state (running : a.snapshot.state = .possiblyDispatched ∨
    a.snapshot.state = .unknownOccupied) : a.charge.running = true := by
  obtain state | state := running <;> simp [charge, state, Charge.running]

theorem finishAdmission_spec {c : AdmissionFinishCommand} (held : a.Held r) (now : Nat) :
    Ensures Fault.Accounting (a.finishAdmission r c now) fun p => Step a r p.1 p.2.1 := by
  simp only [finishAdmission]
  rw [ensures_bind, ensures_check]
  intro _ _
  rw [ensures_bind, ensures_check]
  intro _ _
  rw [ensures_bind, ensures_refuse]
  refine ⟨fun _ => accounting_refused _, fun _ => ?_⟩
  cases a.finishCommand with
  | some accepted =>
    simp only [ensures_bind, ensures_refuse, ensures_okOr, ensures_pure]
    exact ⟨fun _ => accounting_refused _, fun _ => ⟨fun _ => accounting_refused _,
      fun _ _ => held.same⟩⟩
  | none =>
    rw [ensures_bind, ensures_refuse]
    refine ⟨fun _ => accounting_refused _, fun started => ?_⟩
    rw [ensures_bind, ensures_check]
    intro _ _
    rw [ensures_ite]
    refine ⟨fun released => ?_, fun unreleased => ?_⟩
    · have free : a.charge = .free := by simp [charge, released]
      simp only [ok_bind, if_pos released]
      refine settled_step (by rfl) ?_ fun b r'' step => step.woken now
      rw [free, AdmissionRequest.charge]
      simp only [released]
      exact .refl
    · have running : a.charge.running = true := by
        refine running_of_state ?_
        by_cases state : a.snapshot.state = .possiblyDispatched
        · exact .inl state
        · exact .inr (by simp_all)
      simp only [if_neg unreleased]
      rw [ensures_bind]
      refine (Resource.release_spec held.holds.counts running).mono fun r' freed => ?_
      refine settled_step (by rfl) ?_ fun b r'' step => step.woken now
      exact freed

theorem releaseAdmission_spec {sourceId : String} {expectedRevision : Nat} (held : a.Held r)
    (now : Nat) :
    Ensures Fault.Accounting (a.releaseAdmission r sourceId expectedRevision now) fun p =>
      Step a r p.1 p.2 := by
  simp only [releaseAdmission, ensures_bind, ensures_refuse, ensures_pure]
  refine ⟨fun _ => accounting_refused _, fun accepted => ?_⟩
  have running : a.charge.running = true := running_of_state (by
    by_contra neither
    exact accepted (by simp_all))
  refine (Resource.release_spec held.holds.counts running).mono fun r' freed => ?_
  refine (bump_step (by rfl) ?_).mono fun b step => (step.woken now).refilled now
  exact freed

theorem grantProvider_spec {c : AdmissionStartCommand} {x : StartContext}
    {ticket : ProviderOperationTicket} {budgetDeadline : Option Nat} {k : Nat} (held : a.Held r)
    (charged : a.charge = .offered k) (current : k = r.revision) (now : Nat) :
    Ensures Fault.Accounting (a.grantProvider r c x ticket budgetDeadline now) fun p =>
      Step a r p.1 p.2.1 := by
  have holds := charged ▸ held.holds
  have spent := spent_spec holds current (corruptRecord .workflow "admission rate credit") now
  simp only [ensures_bind] at spent
  simp only [grantProvider, ensures_bind, ensures_refuse, ensures_okOr, ensures_check, ensures_pure]
  refine ⟨fun bad => absurd bad (occupancy holds current), fun _ => ?_⟩
  refine spent.mono fun r₁ more => more.mono fun r₂ facts => ?_
  obtain ⟨-, -, -, moved⟩ := facts
  refine ⟨fun _ => accounting_refused _, fun _ _ _ _ => ?_⟩
  refine (bump_step (by rfl) ?_).mono fun b step => step.woken now
  rw [charged]
  exact moved

theorem closeExisting_spec {c : AdmissionStartCommand} {ticket : ProviderOperationTicket} {k : Nat}
    (held : a.Held r) (charged : a.charge = .offered k) (current : k = r.revision) (now : Nat) :
    Ensures Fault.Accounting (a.closeExisting r c ticket now) fun p => Step a r p.1 p.2.1 := by
  have holds := charged ▸ held.holds
  have outstanding := holds.outstanding current
  have withdrawn : Ensures Fault.Accounting (r.withdraw (.refused .conflict)) fun r' =>
      r.Moved (.offered k) r' .free := Resource.withdraw_spec holds.counts current
  simp only [Resource.withdraw, checkedSub, if_pos (Nat.succ_le_of_lt outstanding), okOr, ok_bind,
    ensures_pure] at withdrawn
  simp only [closeExisting, ensures_bind, ensures_refuse, ensures_pure]
  refine ⟨fun bad => absurd bad (occupancy holds current), fun _ => ?_⟩
  refine (bump_step (by rfl) ?_).mono fun b step => step.woken now
  rw [charged]
  exact withdrawn

theorem confirmProvider_spec {c : AdmissionStartCommand} {x : StartContext}
    {capacityDeadline now : Nat} {receipt : AdmissionStartReceipt} (held : a.Held r)
    (step : Step a r a' r') :
    Ensures Fault.Accounting (a.confirmProvider r c x capacityDeadline now a' r' receipt) fun p =>
      Step a r p.1 p.2.1 := by
  simp only [confirmProvider]
  rw [ensures_bind, ensures_refuse]
  refine ⟨fun _ => accounting_refused _, fun _ => ?_⟩
  rw [ensures_ite]
  refine ⟨fun _ => recovered_spec held, fun _ => ?_⟩
  rw [ensures_bind, ensures_check]
  intro _ _
  cases receipt with
  | existing snapshot => exact step
  | granted source =>
    rw [ensures_bind, ensures_refuse]
    exact ⟨fun _ => accounting_refused _, fun _ => step⟩

theorem startProviderEligible_spec {c : AdmissionStartCommand} {x : StartContext}
    {claim : ProviderClaim} {budgetDeadline : Option Nat} {k : Nat} (held : a.Held r)
    (charged : a.charge = .offered k) (current : k = r.revision) :
    Ensures Fault.Accounting (a.startProviderEligible r c x claim budgetDeadline) fun p =>
      Step a r p.1 p.2.1 := by
  simp only [startProviderEligible]
  rw [ensures_bind, ensures_check]
  intro _ _
  rw [ensures_bind, ensures_okOr]
  refine ⟨fun _ => accounting_refused _, fun offer _ => ?_⟩
  cases claim with
  | denied reason => exact denied_spec held charged current
  | expired observedAt => exact recovered_spec held
  | dispatch ticket acceptedAt =>
    simp only [ensures_bind, ensures_check]
    intro _ _
    refine (grantProvider_spec held charged current acceptedAt).mono fun p step => ?_
    exact confirmProvider_spec held step
  | existing ticket =>
    simp only [ensures_bind, ensures_check]
    intro _ _
    refine (closeExisting_spec held charged current x.budgetNow).mono fun p step => ?_
    exact confirmProvider_spec held step

theorem startProviderAdmission_spec {c : AdmissionStartCommand} {x : StartContext}
    {claim : ProviderClaim} {budgetDeadline : Option Nat} (held : a.Held r) :
    Ensures Fault.Accounting (a.startProviderAdmission r c x claim budgetDeadline) fun p =>
      Step a r p.1 p.2.1 := by
  simp only [startProviderAdmission]
  rw [ensures_bind, ensures_check]
  intro _ _
  rw [ensures_bind, ensures_check]
  intro _ _
  rw [ensures_ite]
  refine ⟨fun _ => ?_, fun _ => ?_⟩
  · rw [ensures_bind, ensures_check]
    exact fun _ _ => held.same
  · simp only [ensures_bind, ensures_refuse]
    refine ⟨fun _ => accounting_refused _, fun _ => ⟨fun _ => accounting_refused _, fun _ => ?_⟩⟩
    refine ⟨fun _ => accounting_refused _, fun _ => ?_⟩
    refine (invalidateOffer_spec held x.now).mono fun p first => ?_
    rw [ensures_ite]
    refine ⟨fun eligible => ?_, fun _ => first⟩
    have here := first.held held
    obtain ⟨k, charged, current⟩ := eligible.charged here
    exact (startProviderEligible_spec here charged current).mono fun q step => first.trans step

theorem reportProviderAdmission_spec {c : ProviderAdmissionReportCommand} {acceptedAt sampled : Nat}
    (held : a.Held r) :
    Ensures Fault.Accounting (a.reportProviderAdmission r c acceptedAt sampled) fun p =>
      Step a r p.1 p.2.1 := by
  simp only [reportProviderAdmission]
  rw [ensures_bind, ensures_check]
  intro _ _
  rw [ensures_bind, ensures_check]
  intro _ _
  rw [ensures_bind, ensures_refuse]
  refine ⟨fun _ => accounting_refused _, fun _ => ?_⟩
  cases a.finishCommand with
  | some accepted =>
    simp only [ensures_bind, ensures_refuse, ensures_okOr, ensures_pure]
    exact ⟨fun _ => accounting_refused _, fun _ => ⟨fun _ => accounting_refused _,
      fun _ _ => held.same⟩⟩
  | none =>
    rw [ensures_bind, ensures_refuse]
    refine ⟨fun _ => accounting_refused _, fun started => ?_⟩
    rw [ensures_ite]
    refine ⟨fun released => ?_, fun unreleased => ?_⟩
    · simp only [ok_bind]
      refine settled_step (by rfl) ?_ fun b r'' step => step.woken _
      exact .refl
    · have running : a.snapshot.state = .possiblyDispatched ∨ a.snapshot.state = .unknownOccupied := by
        by_cases state : a.snapshot.state = .possiblyDispatched
        · exact .inl state
        · exact .inr (by simp_all)
      cases c.callCompletion with
      | completed =>
        rw [ensures_bind]
        refine (Resource.release_spec held.holds.counts (running_of_state running)).mono
          fun r' freed => ?_
        simp only [pure_bind]
        exact settled_step (by rfl) freed fun b r'' step => step.woken _
      | unknown =>
        simp only [ok_bind]
        refine settled_step (by rfl) ?_ fun b r'' step => step.woken _
        obtain state | state := running
        · have started : a.charge = .started := by simp [charge, state]
          rw [started, if_pos (by simp [state])]
          exact Resource.moved_lose
        · have lost : a.charge = .unknown := by simp [charge, state]
          rw [lost, if_neg (by simp [state])]
          exact .refl

end AdmissionRequest
end Ledgence
