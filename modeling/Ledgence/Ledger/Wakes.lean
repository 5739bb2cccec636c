import Ledgence.Ledger.Transactions

/-! What an operation on a workflow's request leaves in the row's wake-up times: it wakes the
scheduler, or it changes nothing that the scheduler acts on. -/
open Kit Kit.Checked

namespace Ledgence

def Fault.Never : Fault → Prop := fun _ => False

@[simp] theorem not_never (fault : Fault) : ¬ fault.Never := id

@[simp] theorem returns_check {α : Type} {x : Result α} {post : α → Prop} :
    Ensures Fault.Never (check x) post ↔ ∀ a, x = .ok a → post a :=
  ensures_mapError fun _ => not_never _

@[simp] theorem returns_wellFormed {α : Type} {x : Result α} {post : α → Prop} :
    Ensures Fault.Never (wellFormed x) post ↔ ∀ a, x = .ok a → post a :=
  ensures_mapError fun _ => not_never _

@[simp] theorem returns_paid {α : Type} {x : Result α} {post : α → Prop} :
    Ensures Fault.Never (paid x) post ↔ ∀ a, x = .ok a → post a :=
  ensures_mapError fun _ => not_never _

namespace Resource
variable {r r' : Resource} {latest now : Nat}

def Woken (r : Resource) (latest : Nat) : Prop :=
  ∃ at' ≤ latest, r.due = some at' ∧ r.quarantinedDue = some at'

theorem woken_wake (come : now ≤ latest) : (r.wake now).Woken latest :=
  ⟨now, come, rfl, rfl⟩

structure SameTimes (r r' : Resource) : Prop where
  highWater : r'.highWater = r.highWater
  due : r'.due = r.due
  quarantinedDue : r'.quarantinedDue = r.quarantinedDue

theorem refill_times (highWater : r.highWater ≤ latest) (come : now ≤ latest) :
    Ensures Fault.Never (r.refill now) fun r' =>
      r'.highWater ≤ latest ∧ (r.Woken latest → r'.Woken latest) := by
  cases limited : r.record.policy.rate with
  | none =>
    simp only [refill, limited, ensures_ok]
    exact ⟨max_le highWater come, id⟩
  | some rate =>
    simp only [refill, limited, ensures_bind, ensures_okOr, returns_check,
      refillAdmissionBucket_eq_ok, ensures_pure]
    refine ⟨fun _ => not_never _, ?_⟩
    rintro credit - b ⟨-, -, rfl⟩
    exact ⟨max_le come highWater, id⟩

theorem withdraw_times {fault : Fault} :
    Ensures Fault.Never (r.withdraw fault) fun r' => SameTimes r r' := by
  simp only [withdraw, ensures_bind, ensures_okOr, ensures_pure]
  exact ⟨fun _ => not_never _, fun _ _ => ⟨rfl, rfl, rfl⟩⟩

theorem release_times {lost : Bool} {started unknown : Fault} :
    Ensures Fault.Never (r.release lost started unknown) fun r' => SameTimes r r' := by
  simp only [release, ensures_bind, ensures_okOr, ensures_ite, ensures_pure]
  refine ⟨fun _ => not_never _, fun _ _ => ⟨fun _ => ⟨fun _ => not_never _, ?_⟩, fun _ => ?_⟩⟩
  · exact fun _ _ => ⟨rfl, rfl, rfl⟩
  · exact ⟨rfl, rfl, rfl⟩

theorem spend_times {missing : ContractError} :
    Ensures Fault.Never (r.spend missing) fun r' => SameTimes r r' := by
  cases limited : r.record.policy.rate with
  | none =>
    simp only [spend, limited, ensures_ok]
    exact ⟨rfl, rfl, rfl⟩
  | some rate =>
    simp only [spend, limited, ensures_bind, ensures_okOr, returns_paid,
      spendAdmissionToken_eq_ok, ensures_pure]
    refine ⟨fun _ => not_never _, ?_⟩
    rintro credit - b ⟨-, -, rfl⟩
    exact ⟨rfl, rfl, rfl⟩

end Resource

def StartContext.latest (x : StartContext) : Nat :=
  max (max x.now x.budgetNow) (max x.deniedAt x.recoveredAt)

theorem StartContext.latest_le {x : StartContext} {latest : Nat} : x.latest ≤ latest ↔
    x.now ≤ latest ∧ x.budgetNow ≤ latest ∧ x.deniedAt ≤ latest ∧ x.recoveredAt ≤ latest := by
  simp only [StartContext.latest, max_le_iff, and_assoc]

def ProviderClaim.latest : ProviderClaim → Nat
  | .dispatch _ acceptedAt => acceptedAt
  | .existing _ | .denied _ | .expired _ => 0

namespace AdmissionRequest
variable {a a' a'' b : AdmissionRequest} {r r' r'' : Resource} {latest now : Nat}

structure Timely (latest : Nat) (a : AdmissionRequest) (r : Resource) : Prop where
  updated : a.snapshot.updatedAt ≤ latest
  highWater : r.highWater ≤ latest

structure SameDue (a a' : AdmissionRequest) : Prop where
  snapshot : a'.snapshot = a.snapshot
  checkAt : a'.checkAt = a.checkAt
  short : a'.shortEpisodeDeadline = a.shortEpisodeDeadline

structure Roused (latest : Nat) (a : AdmissionRequest) (r : Resource) (a' : AdmissionRequest)
    (r' : Resource) : Prop where
  timely : Timely latest a' r'
  awake : r'.Woken latest ∨ r' = r ∧ a.SameDue a'

theorem Timely.same (timely : Timely latest a r) : Roused latest a r a r :=
  ⟨timely, .inr ⟨rfl, rfl, rfl, rfl⟩⟩

theorem Roused.trans (first : Roused latest a r a' r') (rest : Roused latest a' r' a'' r'') :
    Roused latest a r a'' r'' := by
  refine ⟨rest.timely, ?_⟩
  obtain woken | ⟨rfl, same⟩ := rest.awake
  · exact .inl woken
  · obtain woken | ⟨rfl, same'⟩ := first.awake
    · exact .inl woken
    · exact .inr ⟨rfl, same.snapshot.trans same'.snapshot, same.checkAt.trans same'.checkAt,
        same.short.trans same'.short⟩

theorem Timely.woken (timely : Timely latest b r') (come : now ≤ latest) :
    Roused latest a r b (r'.wake now) :=
  ⟨⟨timely.updated, timely.highWater⟩, .inl (Resource.woken_wake come)⟩

theorem bump_times (updated : a.snapshot.updatedAt ≤ latest) (come : now ≤ latest) :
    Ensures Fault.Never (a.bump now) fun a' => a'.snapshot.updatedAt ≤ latest := by
  simp only [bump, ensures_bind, ensures_okOr, returns_wellFormed, ensures_pure]
  exact ⟨fun _ => not_never _, fun _ _ _ _ => max_le updated come⟩

theorem settled_times {α : Type} {next : AdmissionRequest → Resource → Outcome α} {post : α → Prop}
    (updated : b.snapshot.updatedAt ≤ latest) (highWater : r'.highWater ≤ latest)
    (come : now ≤ latest) (tail : ∀ b r', Timely latest b r' → Ensures Fault.Never (next b r') post) :
    Ensures Fault.Never (do
      let b ← b.bump now
      let r ← r'.refill now
      next b r) post := by
  simp only [ensures_bind]
  refine (bump_times updated come).mono fun b' updated' => ?_
  exact (Resource.refill_times highWater come).mono fun r'' refilled =>
    tail b' r'' ⟨updated', refilled.1⟩

theorem withdrawn_times {α : Type} {fault : Fault} {c : Prop} [Decidable c]
    {next : Resource → Outcome α} {post : α → Prop}
    (tail : ∀ r', Resource.SameTimes r r' → Ensures Fault.Never (next r') post) :
    Ensures Fault.Never (if c then r.withdraw fault >>= next else .ok r >>= next) post := by
  rw [ensures_ite]
  refine ⟨fun _ => ?_, fun _ => tail r ⟨rfl, rfl, rfl⟩⟩
  rw [ensures_bind]
  exact Resource.withdraw_times.mono tail

theorem invalidateOffer_wakes (timely : Timely latest a r) (come : now ≤ latest) :
    Ensures Fault.Never (a.invalidateOffer r now) fun p => Roused latest a r p.1 p.2.1 ∧
      (p.2.2 = true → p.2.1.Woken latest) ∧ (p.2.2 = false → p.1 = a ∧ p.2.1 = r) := by
  cases offered : a.snapshot.offer with
  | none =>
    simp only [invalidateOffer, offered, ensures_ok]
    exact ⟨timely.same, by simp, fun _ => ⟨trivial, trivial⟩⟩
  | some offer =>
    simp only [invalidateOffer, offered]
    rw [ensures_ite]
    refine ⟨fun _ => withdrawn_times fun r' same => ?_, fun _ => ?_⟩
    · refine settled_times timely.updated (same.highWater ▸ timely.highWater) come
        fun b r'' here => ?_
      exact ⟨here.woken come, fun _ => Resource.woken_wake come, by simp⟩
    · exact ⟨timely.same, by simp, fun _ => ⟨rfl, rfl⟩⟩

theorem closeRequest_wakes (timely : Timely latest a r) (come : now ≤ latest) :
    Ensures Fault.Never (a.closeRequest r now) fun p => Roused latest a r p.1 p.2 := by
  cases state : a.snapshot.state with
  | offered =>
    simp only [closeRequest, state]
    refine withdrawn_times fun r' same => ?_
    exact settled_times timely.updated (same.highWater ▸ timely.highWater) come
      fun b r'' here => here.woken come
  | waiting | awaitingRewait =>
    simp only [closeRequest, state]
    exact settled_times timely.updated timely.highWater come fun b r'' here => here.woken come
  | possiblyDispatched =>
    simp only [closeRequest, state]
    exact settled_times timely.updated timely.highWater come fun b r'' here => here.woken come
  | unknownOccupied | finished | closedBeforeStart | administrativelyReleased =>
    simp only [closeRequest, state]
    exact timely.same

theorem closeParked_wakes (timely : Timely latest a r) (come : now ≤ latest) :
    Ensures Fault.Never (a.closeParked r now) fun p => Roused latest a r p.1 p.2 := by
  simp only [closeParked, ensures_bind, ensures_pure]
  refine (closeRequest_wakes timely come).mono fun p step => ?_
  refine ⟨⟨step.timely.updated, step.timely.highWater⟩, step.awake.imp id fun same => ?_⟩
  exact ⟨same.1, same.2.snapshot, same.2.checkAt, same.2.short⟩

theorem select_wakes {parking resumed : String} {selection : AdmissionSelection}
    (timely : Timely latest a r) (come : now ≤ latest) :
    Ensures Fault.Never (a.select r parking resumed selection now) fun p =>
      Roused latest a r p.1 p.2 := by
  have selected : max now a.snapshot.updatedAt ≤ latest := max_le come timely.updated
  simp only [select]
  rw [ensures_bind, returns_check]
  intro _ _
  refine settled_times ?_ timely.highWater selected fun b r'' here => here.woken selected
  split
  · exact timely.updated
  · exact timely.updated

theorem resume_wakes {parking resumed : String} {deadline : Nat} (timely : Timely latest a r)
    (come : now ≤ latest) :
    Ensures Fault.Never
      (match a.resolved deadline now with
        | some selection => a.select r parking resumed selection now
        | none => .ok (a, r)) fun p => Roused latest a r p.1 p.2 := by
  split
  · exact select_wakes timely come
  · exact timely.same

theorem applyWait_wakes {parking resumed : String} {deadline : Nat} (timely : Timely latest a r)
    (come : now ≤ latest) :
    Ensures Fault.Never (a.applyWait r parking resumed deadline now) fun p =>
      Roused latest a r p.1 p.2 := by
  simp only [applyWait]
  rw [ensures_bind, ensures_refuse]
  exact ⟨fun _ => not_never _, fun _ => resume_wakes timely come⟩

theorem relinquish_times (timely : Timely latest a r) :
    Ensures Fault.Never (a.relinquish r) fun p => Timely latest p.1 p.2 := by
  cases offered : a.snapshot.offer with
  | none =>
    simp only [relinquish, offered, ensures_ok]
    exact timely
  | some offer =>
    simp only [relinquish, offered]
    exact withdrawn_times fun r' same => ⟨timely.updated, same.highWater ▸ timely.highWater⟩

theorem rewait_times {parking : String} (timely : Timely latest a r) (come : now ≤ latest) :
    Ensures Fault.Never (a.rewait r parking now) fun p => Timely latest p.1 p.2 := by
  simp only [rewait, ensures_bind, ensures_refuse, ensures_pure]
  refine ⟨fun _ => not_never _, fun _ => ?_⟩
  refine (invalidateOffer_wakes timely come).mono fun p first => ?_
  refine (relinquish_times first.1.timely).mono fun q second => ?_
  refine (bump_times ?_ come).mono fun b updated => ⟨updated, second.highWater⟩
  split
  · exact second.updated
  · exact second.updated

theorem installEpisode_wakes {parking resumed : String} {until' : Nat} (timely : Timely latest a r)
    (come : now ≤ latest) :
    Ensures Fault.Never (a.installEpisode r parking resumed until' now) fun p =>
      Timely latest p.1 p.2 ∧ p.2.Woken latest := by
  have woken (short : Option Nat) :
      Timely latest { a with shortEpisodeDeadline := short } (r.wake now) :=
    ⟨timely.updated, timely.highWater⟩
  refine (resume_wakes (woken _) come).mono fun p step => ⟨step.timely, ?_⟩
  obtain awake | ⟨same, -⟩ := step.awake
  · exact awake
  · rw [same]
    exact Resource.woken_wake come

theorem tickSource_times {x : AdmissionTick} (timely : Timely latest a r) (come : x.now ≤ latest) :
    Ensures Fault.Never (a.tickSource r x) fun p => Timely latest p.1 p.2 := by
  simp only [tickSource]
  rw [ensures_ite]
  refine ⟨fun _ => ?_, fun _ => timely⟩
  rw [ensures_bind, ensures_refuse]
  refine ⟨fun _ => not_never _, fun _ => ?_⟩
  cases x.sourceCheckAt with
  | some next => exact ⟨timely.updated, timely.highWater⟩
  | none =>
    simp only [ensures_bind, ensures_pure]
    refine (bump_times ?_ come).mono fun b updated => ⟨updated, timely.highWater⟩
    exact timely.updated

theorem tickWaiting_times {x : AdmissionTick} (timely : Timely latest a r) (come : x.now ≤ latest) :
    Ensures Fault.Never (a.tickWaiting r x) fun p => Timely latest p.1 p.2 := by
  simp only [tickWaiting, ensures_bind, ensures_okOr, ensures_refuse]
  refine ⟨fun _ => not_never _, fun run _ => ⟨fun _ => not_never _, fun parking _ => ?_⟩⟩
  refine ⟨fun _ => not_never _, fun _ => ⟨fun _ => not_never _, fun deadline _ => ?_⟩⟩
  cases a.resolved deadline x.now with
  | some selection => exact (select_wakes timely come).mono fun p step => step.timely
  | none =>
    simp only [ensures_ite, ensures_bind, returns_check, ensures_okOr, ensures_pure]
    refine ⟨fun _ capacity _ => ⟨fun _ => ⟨fun _ => not_never _, ?_⟩, fun _ => timely⟩,
      fun _ => timely⟩
    intro generation _ _ _
    have offered : Timely latest
        (a.offeredWith generation (a.offerFor r generation x.taskId deadline x.now)) r.offer :=
      ⟨timely.updated, timely.highWater⟩
    exact (select_wakes offered come).mono fun p step => step.timely

theorem tick_times {x : AdmissionTick} (timely : Timely latest a r) (come : x.now ≤ latest) :
    Ensures Fault.Never (a.tick r x) fun p => Timely latest p.1 p.2 := by
  simp only [tick]
  rw [ensures_ite]
  refine ⟨fun _ => (closeParked_wakes timely come).mono fun p step => step.timely, fun _ => ?_⟩
  rw [ensures_bind]
  refine (invalidateOffer_wakes timely come).mono fun p first => ?_
  rw [ensures_ite]
  refine ⟨fun _ => first.1.timely, fun _ => ?_⟩
  split
  case h_1 => exact tickSource_times first.1.timely come
  case h_2 => exact tickWaiting_times first.1.timely come
  all_goals exact first.1.timely

theorem recoverExpired_wakes {c : AdmissionStartCommand} {x : StartContext} {observedAt : Nat}
    (timely : Timely latest a r) (come : x.recoveredAt ≤ latest) :
    Ensures Fault.Never (a.recoverExpired r c x observedAt) fun p => Roused latest a r p.1 p.2 := by
  simp only [recoverExpired, ensures_bind, ensures_refuse, returns_check, ensures_pure]
  refine ⟨fun _ => not_never _, fun _ _ _ => ?_⟩
  refine (invalidateOffer_wakes timely come).mono fun p step => ?_
  exact ⟨fun _ => not_never _, fun _ => ⟨fun _ => not_never _, fun _ _ _ => step.1⟩⟩

theorem closeBudgetOffer_wakes {reason : RunBudgetDenial} (timely : Timely latest a r)
    (come : now ≤ latest) :
    Ensures Fault.Never (a.closeBudgetOffer r reason now) fun p =>
      Timely latest p.1 p.2 ∧ p.2.Woken latest := by
  simp only [closeBudgetOffer, ensures_bind, ensures_pure]
  refine Resource.withdraw_times.mono fun r' same => ?_
  refine (bump_times ?_ come).mono fun b updated => ?_
  · exact timely.updated
  have highWater : (r'.wake now).highWater ≤ latest := same.highWater ▸ timely.highWater
  refine (Resource.refill_times highWater come).mono fun r'' refilled => ?_
  exact ⟨⟨updated, refilled.1⟩, refilled.2 (Resource.woken_wake come)⟩

theorem grant_wakes {c : AdmissionStartCommand} {x : StartContext} {budgetDeadline : Option Nat}
    (timely : Timely latest a r) (come : now ≤ latest) :
    Ensures Fault.Never (a.grant r c x budgetDeadline now) fun p =>
      Roused latest a r p.1 p.2.1 := by
  simp only [grant, ensures_bind, ensures_refuse, ensures_okOr, returns_check, ensures_pure]
  refine (Resource.refill_times timely.highWater come).mono fun r₁ refilled => ?_
  refine Resource.spend_times.mono fun r₂ same => ⟨fun _ => not_never _, fun _ => ?_⟩
  refine ⟨fun _ => not_never _, fun _ _ _ _ => ?_⟩
  refine (bump_times ?_ come).mono fun b updated => ?_
  · exact timely.updated
  have started : Timely latest b r₂.start := ⟨updated, same.highWater.trans_le refilled.1⟩
  exact started.woken come

theorem recovered_wakes {c : AdmissionStartCommand} {x : StartContext} {observedAt : Nat}
    (timely : Timely latest a r) (come : x.recoveredAt ≤ latest) :
    Ensures Fault.Never (do
      let (a, r) ← a.recoverExpired r c x observedAt
      return (a, r, AdmissionStartReceipt.existing a.snapshot)) fun p =>
        Roused latest a r p.1 p.2.1 := by
  simp only [ensures_bind, ensures_pure]
  exact recoverExpired_wakes timely come

theorem denied_wakes {c : AdmissionStartCommand} {x : StartContext} {reason : RunBudgetDenial}
    (timely : Timely latest a r) (come : x.deniedAt ≤ latest) :
    Ensures Fault.Never (do
      let (a, r) ← { a with startCommand := some c }.closeBudgetOffer r reason x.deniedAt
      check (x.activation.checkLive c.owner x.finalNow)
      return (a, r, AdmissionStartReceipt.existing a.snapshot)) fun p =>
        Roused latest a r p.1 p.2.1 := by
  have commanded : Timely latest { a with startCommand := some c } r :=
    ⟨timely.updated, timely.highWater⟩
  simp only [ensures_bind, returns_check, ensures_pure]
  exact (closeBudgetOffer_wakes commanded come).mono fun p step _ _ => ⟨step.1, .inl step.2⟩

theorem startEligible_wakes {c : AdmissionStartCommand} {x : StartContext}
    (timely : Timely latest a r) (come : x.latest ≤ latest) :
    Ensures Fault.Never (a.startEligible r c x) fun p => Roused latest a r p.1 p.2.1 := by
  obtain ⟨now, budgetNow, deniedAt, recoveredAt⟩ := StartContext.latest_le.mp come
  simp only [startEligible]
  rw [ensures_bind, returns_check]
  intro _ _
  rw [ensures_bind, ensures_okOr]
  refine ⟨fun _ => not_never _, fun offer _ => ?_⟩
  split
  case h_1 reason _ => exact denied_wakes timely deniedAt
  case h_2 budgetDeadline _ =>
    have sampled : (if x.activation.hasRunBudget then x.budgetNow else x.now) ≤ latest := by
      split
      · exact budgetNow
      · exact now
    rw [ensures_bind, returns_check]
    intro _ _
    rw [ensures_ite]
    refine ⟨fun _ => recovered_wakes timely recoveredAt, fun _ => ?_⟩
    simp only [ensures_bind, ensures_refuse, returns_check]
    refine ⟨fun _ => not_never _, fun _ => ?_⟩
    refine (grant_wakes timely sampled).mono fun p granted _ _ => ?_
    rw [ensures_ite]
    refine ⟨fun _ => recovered_wakes timely recoveredAt, fun _ => ?_⟩
    rw [ensures_bind, ensures_refuse]
    exact ⟨fun _ => not_never _, fun _ => granted⟩

theorem startAdmission_wakes {c : AdmissionStartCommand} {x : StartContext}
    (timely : Timely latest a r) (come : x.latest ≤ latest) :
    Ensures Fault.Never (a.startAdmission r c x) fun p => Roused latest a r p.1 p.2.1 := by
  simp only [startAdmission]
  rw [ensures_bind, returns_check]
  intro _ _
  rw [ensures_bind, ensures_refuse]
  refine ⟨fun _ => not_never _, fun _ => ?_⟩
  rw [ensures_bind, returns_check]
  intro _ _
  rw [ensures_ite]
  refine ⟨fun _ => ?_, fun _ => ?_⟩
  · rw [ensures_bind, returns_check]
    exact fun _ _ => timely.same
  · simp only [ensures_bind, ensures_refuse]
    refine ⟨fun _ => not_never _, fun _ => ⟨fun _ => not_never _, fun _ => ?_⟩⟩
    refine (invalidateOffer_wakes timely (StartContext.latest_le.mp come).1).mono fun p first => ?_
    rw [ensures_ite]
    refine ⟨fun _ => ?_, fun _ => first.1⟩
    exact (startEligible_wakes first.1.timely come).mono fun q step => first.1.trans step

theorem finishAdmission_wakes {c : AdmissionFinishCommand} (timely : Timely latest a r)
    (come : now ≤ latest) :
    Ensures Fault.Never (a.finishAdmission r c now) fun p => Roused latest a r p.1 p.2.1 := by
  simp only [finishAdmission]
  rw [ensures_bind, returns_check]
  intro _ _
  rw [ensures_bind, returns_check]
  intro _ _
  rw [ensures_bind, ensures_refuse]
  refine ⟨fun _ => not_never _, fun _ => ?_⟩
  cases a.finishCommand with
  | some accepted =>
    simp only [ensures_bind, ensures_refuse, ensures_okOr, ensures_pure]
    exact ⟨fun _ => not_never _, fun _ => ⟨fun _ => not_never _, fun _ _ => timely.same⟩⟩
  | none =>
    rw [ensures_bind, ensures_refuse]
    refine ⟨fun _ => not_never _, fun _ => ?_⟩
    rw [ensures_bind, returns_check]
    intro _ _
    rw [ensures_ite]
    refine ⟨fun released => ?_, fun unreleased => ?_⟩
    · simp only [ok_bind, if_pos released]
      refine settled_times ?_ timely.highWater come fun b r'' here => here.woken come
      exact timely.updated
    · simp only [if_neg unreleased]
      rw [ensures_bind]
      refine Resource.release_times.mono fun r' same => ?_
      refine settled_times ?_ (same.highWater ▸ timely.highWater) come
        fun b r'' here => here.woken come
      exact timely.updated

theorem releaseAdmission_wakes {sourceId : String} {expectedRevision : Nat}
    (timely : Timely latest a r) (come : now ≤ latest) :
    Ensures Fault.Never (a.releaseAdmission r sourceId expectedRevision now) fun p =>
      Roused latest a r p.1 p.2 := by
  simp only [releaseAdmission, ensures_bind, ensures_refuse, ensures_pure]
  refine ⟨fun _ => not_never _, fun _ => Resource.release_times.mono fun r' same => ?_⟩
  refine (bump_times ?_ come).mono fun b updated => ?_
  · exact timely.updated
  have highWater : (r'.wake now).highWater ≤ latest := same.highWater ▸ timely.highWater
  refine (Resource.refill_times highWater come).mono fun r'' refilled => ?_
  exact ⟨⟨updated, refilled.1⟩, .inl (refilled.2 (Resource.woken_wake come))⟩

theorem grantProvider_wakes {c : AdmissionStartCommand} {x : StartContext}
    {ticket : ProviderOperationTicket} {budgetDeadline : Option Nat} (timely : Timely latest a r)
    (come : now ≤ latest) :
    Ensures Fault.Never (a.grantProvider r c x ticket budgetDeadline now) fun p =>
      Roused latest a r p.1 p.2.1 := by
  simp only [grantProvider, ensures_bind, ensures_refuse, ensures_okOr, returns_check, ensures_pure]
  refine ⟨fun _ => not_never _, fun _ => ?_⟩
  refine (Resource.refill_times timely.highWater come).mono fun r₁ refilled => ?_
  refine Resource.spend_times.mono fun r₂ same => ⟨fun _ => not_never _, fun _ _ _ _ => ?_⟩
  refine (bump_times ?_ come).mono fun b updated => ?_
  · exact timely.updated
  have started : Timely latest b r₂.start := ⟨updated, same.highWater.trans_le refilled.1⟩
  exact started.woken come

theorem closeExisting_wakes {c : AdmissionStartCommand} {ticket : ProviderOperationTicket}
    (timely : Timely latest a r) (come : now ≤ latest) :
    Ensures Fault.Never (a.closeExisting r c ticket now) fun p => Roused latest a r p.1 p.2.1 := by
  simp only [closeExisting, ensures_bind, ensures_refuse, ensures_pure]
  refine ⟨fun _ => not_never _, fun _ => ?_⟩
  refine (bump_times ?_ come).mono fun b updated => ?_
  · exact timely.updated
  have closed : Timely latest b { r with offered := r.offered - 1 } := ⟨updated, timely.highWater⟩
  exact closed.woken come

theorem confirmProvider_wakes {c : AdmissionStartCommand} {x : StartContext}
    {capacityDeadline : Nat} {receipt : AdmissionStartReceipt} (timely : Timely latest a r)
    (step : Roused latest a r a' r') (come : x.recoveredAt ≤ latest) :
    Ensures Fault.Never (a.confirmProvider r c x capacityDeadline now a' r' receipt) fun p =>
      Roused latest a r p.1 p.2.1 := by
  simp only [confirmProvider]
  rw [ensures_bind, ensures_refuse]
  refine ⟨fun _ => not_never _, fun _ => ?_⟩
  rw [ensures_ite]
  refine ⟨fun _ => recovered_wakes timely come, fun _ => ?_⟩
  rw [ensures_bind, returns_check]
  intro _ _
  cases receipt with
  | existing snapshot => exact step
  | granted source =>
    rw [ensures_bind, ensures_refuse]
    exact ⟨fun _ => not_never _, fun _ => step⟩

theorem startProviderAdmission_wakes {c : AdmissionStartCommand} {x : StartContext}
    {claim : ProviderClaim} {budgetDeadline : Option Nat} (timely : Timely latest a r)
    (come : x.latest ≤ latest) (claimed : claim.latest ≤ latest) :
    Ensures Fault.Never (a.startProviderAdmission r c x claim budgetDeadline) fun p =>
      Roused latest a r p.1 p.2.1 := by
  obtain ⟨now, budgetNow, deniedAt, recoveredAt⟩ := StartContext.latest_le.mp come
  simp only [startProviderAdmission]
  rw [ensures_bind, returns_check]
  intro _ _
  rw [ensures_bind, returns_check]
  intro _ _
  rw [ensures_ite]
  refine ⟨fun _ => ?_, fun _ => ?_⟩
  · rw [ensures_bind, returns_check]
    exact fun _ _ => timely.same
  simp only [ensures_bind, ensures_refuse]
  refine ⟨fun _ => not_never _, fun _ => ⟨fun _ => not_never _, fun _ => ?_⟩⟩
  refine ⟨fun _ => not_never _, fun _ => ?_⟩
  refine (invalidateOffer_wakes timely now).mono fun p first => ?_
  have here := first.1.timely
  rw [ensures_ite]
  refine ⟨fun _ => ?_, fun _ => first.1⟩
  refine Ensures.mono ?_ fun q step => first.1.trans step
  simp only [startProviderEligible]
  rw [ensures_bind, returns_check]
  intro _ _
  rw [ensures_bind, ensures_okOr]
  refine ⟨fun _ => not_never _, fun offer _ => ?_⟩
  cases claim with
  | denied reason => exact denied_wakes here deniedAt
  | expired observedAt => exact recovered_wakes here recoveredAt
  | dispatch ticket acceptedAt =>
    simp only [ensures_bind, returns_check]
    intro _ _
    refine (grantProvider_wakes here claimed).mono fun q step => ?_
    exact confirmProvider_wakes here step recoveredAt
  | existing ticket =>
    simp only [ensures_bind, returns_check]
    intro _ _
    refine (closeExisting_wakes here budgetNow).mono fun q step => ?_
    exact confirmProvider_wakes here step recoveredAt

theorem reportProviderAdmission_wakes {c : ProviderAdmissionReportCommand}
    {acceptedAt sampled : Nat} (timely : Timely latest a r) (come : sampled ≤ latest)
    (accepted : acceptedAt ≤ latest) :
    Ensures Fault.Never (a.reportProviderAdmission r c acceptedAt sampled) fun p =>
      Roused latest a r p.1 p.2.1 := by
  have now : max (max sampled acceptedAt) a.snapshot.updatedAt ≤ latest :=
    max_le (max_le come accepted) timely.updated
  simp only [reportProviderAdmission]
  rw [ensures_bind, returns_check]
  intro _ _
  rw [ensures_bind, returns_check]
  intro _ _
  rw [ensures_bind, ensures_refuse]
  refine ⟨fun _ => not_never _, fun _ => ?_⟩
  cases a.finishCommand with
  | some accepted =>
    simp only [ensures_bind, ensures_refuse, ensures_okOr, ensures_pure]
    exact ⟨fun _ => not_never _, fun _ => ⟨fun _ => not_never _, fun _ _ => timely.same⟩⟩
  | none =>
    rw [ensures_bind, ensures_refuse]
    refine ⟨fun _ => not_never _, fun _ => ?_⟩
    rw [ensures_ite]
    refine ⟨fun _ => ?_, fun _ => ?_⟩
    · simp only [ok_bind]
      refine settled_times ?_ timely.highWater now fun b r'' here => here.woken now
      exact timely.updated
    · cases c.callCompletion with
      | completed =>
        rw [ensures_bind]
        refine Resource.release_times.mono fun r' same => ?_
        simp only [pure_bind]
        refine settled_times ?_ (same.highWater ▸ timely.highWater) now
          fun b r'' here => here.woken now
        exact timely.updated
      | unknown =>
        simp only [ok_bind]
        refine settled_times ?_ ?_ now fun b r'' here => here.woken now
        · exact timely.updated
        · split
          · exact timely.highWater
          · exact timely.highWater

end AdmissionRequest
end Ledgence
