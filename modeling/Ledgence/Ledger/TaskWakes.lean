import Ledgence.Core.Moves
import Ledgence.Ledger.Wakes

/-! What an operation on a task's request leaves in the row's wake-up times. -/
open Kit Kit.Checked

namespace Ledgence

def TaskStartContext.latest (x : TaskStartContext) : Nat :=
  max (max x.now x.budgetNow) x.deniedAt

theorem TaskStartContext.latest_le {x : TaskStartContext} {latest : Nat} : x.latest ≤ latest ↔
    x.now ≤ latest ∧ x.budgetNow ≤ latest ∧ x.deniedAt ≤ latest := by
  simp only [TaskStartContext.latest, max_le_iff, and_assoc]

def TaskWrites.latest (w : TaskWrites) : Nat :=
  (w.history.getLast?.map HistoryEvent.at').getD 0

theorem TaskWrites.latest_le {w : TaskWrites} {now latest : Nat}
    (times : ∀ event ∈ w.history, event.at' = now) (come : now ≤ latest) : w.latest ≤ latest := by
  unfold TaskWrites.latest
  cases last : w.history.getLast? with
  | none => simp
  | some event =>
    have mem := List.mem_of_getLast? last
    simpa [times event mem] using come

namespace TaskAdmissionRequest
variable {a a' a'' b : TaskAdmissionRequest} {r r' r'' : Resource} {latest now : Nat}

structure Timely (latest : Nat) (a : TaskAdmissionRequest) (r : Resource) : Prop where
  updated : a.snapshot.updatedAt ≤ latest
  highWater : r.highWater ≤ latest

structure SameDue (a a' : TaskAdmissionRequest) : Prop where
  snapshot : a'.snapshot = a.snapshot
  checkAt : a'.checkAt = a.checkAt
  availableAt : a'.availableAt = a.availableAt

structure Roused (latest : Nat) (a : TaskAdmissionRequest) (r : Resource)
    (a' : TaskAdmissionRequest) (r' : Resource) : Prop where
  timely : Timely latest a' r'
  awake : r'.Woken latest ∨ r' = r ∧ a.SameDue a'

theorem Timely.same (timely : Timely latest a r) : Roused latest a r a r :=
  ⟨timely, .inr ⟨rfl, rfl, rfl, rfl⟩⟩

theorem Timely.woken (timely : Timely latest b r') (come : now ≤ latest) :
    Roused latest a r b (r'.wake now) :=
  ⟨⟨timely.updated, timely.highWater⟩, .inl (Resource.woken_wake come)⟩

theorem bump_times (updated : a.snapshot.updatedAt ≤ latest) (come : now ≤ latest) :
    Ensures Fault.Never (a.bump now) fun a' => a'.snapshot.updatedAt ≤ latest := by
  simp only [bump, ensures_bind, ensures_okOr, returns_wellFormed, ensures_pure]
  exact ⟨fun _ => not_never _, fun _ _ _ _ => max_le updated come⟩

/-- Giving up a reservation wakes the scheduler, and there is nothing to do without one. -/
theorem releaseOffer_wakes (timely : Timely latest a r) (come : now ≤ latest) :
    Ensures Fault.Never (a.releaseOffer r now) fun p => Roused latest a r p.1 p.2.1 ∧
      (a.Reserved → p.2.1.Woken latest) ∧ (¬ a.Reserved → p.1 = a ∧ p.2.1 = r) := by
  simp only [releaseOffer]
  rw [ensures_ite]
  refine ⟨fun unreserved => ?_, fun reserved => ?_⟩
  · have idle : ¬ a.Reserved := by simpa only [Reserved, not_or] using unreserved
    exact ⟨timely.same, fun h => absurd h idle, fun _ => ⟨rfl, rfl⟩⟩
  · have busy : a.Reserved := by
      simp only [Reserved]
      tauto
    rw [ensures_bind, ensures_okOr]
    refine ⟨fun _ => not_never _, fun offer _ => AdmissionRequest.withdrawn_times fun r' same => ?_⟩
    simp only [ensures_bind, ensures_pure]
    refine (bump_times ?_ come).mono fun b updated => ?_
    · exact timely.updated
    refine (Resource.refill_times (same.highWater ▸ timely.highWater) come).mono
      fun r'' refilled => ?_
    have here : Timely latest b r'' := ⟨updated, refilled.1⟩
    exact ⟨here.woken come, fun _ => Resource.woken_wake come, fun h => absurd busy h⟩

structure PutBack (a a' : TaskAdmissionRequest) : Prop where
  waiting : a.snapshot.state = .waiting
  snapshot : a'.snapshot = a.snapshot
  later : a.availableAt ≤ a'.availableAt

theorem repark_wakes {task : Option TaskSnapshot} (timely : Timely latest a r)
    (come : now ≤ latest) :
    Ensures Fault.Never (a.repark r task now) fun p => Timely latest p.1 p.2 ∧
      (a.Reserved → p.2.Woken latest) ∧
      (¬ a.Reserved → p.2 = r ∧ (p.1 = a ∨ a.PutBack p.1)) := by
  simp only [repark]
  rw [ensures_bind]
  refine (releaseOffer_wakes timely come).mono fun p released => ?_
  obtain ⟨step, woken, idle⟩ := released
  rw [ensures_ite]
  refine ⟨fun waiting => ?_, fun _ => ⟨step.timely, woken, fun h => ⟨(idle h).2, .inl (idle h).1⟩⟩⟩
  simp only [ensures_bind, ensures_okOr, ready, ensures_refuse, ensures_pure]
  refine ⟨fun _ => not_never _, fun at' _ => ⟨fun _ => not_never _, fun _ _ => ?_⟩⟩
  refine ⟨fun _ => not_never _, fun _ => ⟨⟨step.timely.updated, step.timely.highWater⟩, woken, ?_⟩⟩
  intro unreserved
  obtain ⟨same, same'⟩ := idle unreserved
  rw [same] at waiting
  rw [same, same']
  exact ⟨rfl, .inr ⟨waiting, rfl, le_max_left _ _⟩⟩

theorem validateCandidate_wakes {task : TaskSnapshot} {dispatchEnabled : Bool}
    (timely : Timely latest a r) (come : now ≤ latest) :
    Ensures Fault.Never (a.validateCandidate r task dispatchEnabled now) fun p =>
      Roused latest a r p.1 p.2.1 := by
  simp only [validateCandidate]
  rw [ensures_bind, ensures_refuse]
  refine ⟨fun _ => not_never _, fun _ => ?_⟩
  rw [ensures_ite]
  refine ⟨fun _ => timely.same, fun _ => ?_⟩
  simp only [ensures_bind, ensures_refuse, ensures_okOr]
  refine ⟨fun _ => not_never _, fun offered => ⟨fun _ => not_never _, fun offer _ => ?_⟩⟩
  rw [ensures_ite]
  refine ⟨fun _ => ?_, fun _ => timely.same⟩
  rw [ensures_bind]
  refine (repark_wakes timely come).mono fun p parked => ⟨parked.1, .inl (parked.2.1 ?_)⟩
  exact .inl (not_not.mp offered)

/-- A legacy claim either wakes the scheduler or puts back a request that waits. -/
theorem deferLegacyClaim_wakes {task : TaskSnapshot} {sampled : Nat} (timely : Timely latest a r)
    (come : sampled ≤ latest) :
    Ensures Fault.Never (a.deferLegacyClaim r task sampled) fun p => Timely latest p.1 p.2.1 ∧
      (p.2.1.Woken latest ∨ p.2.1 = r ∧
        (p.1 = a ∨ a.lastRewaitAt = none ∧ a.PutBack p.1)) := by
  have now : max (max sampled r.highWater) a.snapshot.updatedAt ≤ latest :=
    max_le (max_le come timely.highWater) timely.updated
  have rest : ∀ p : TaskAdmissionRequest × Resource, ∀ post : Prop, post → Ensures Fault.Never
      (okOr p.1.lastRewaitAt
          (.refused (corruptRecord .task "missing durable legacy handoff time")) >>=
        fun until' => pure (p.1, p.2, until')) fun q => (q.1 = p.1 ∧ q.2.1 = p.2) ∧ post := by
    intro p post here
    simp only [ensures_bind, ensures_okOr, ensures_pure]
    exact ⟨fun _ => not_never _, fun _ _ => ⟨⟨trivial, trivial⟩, here⟩⟩
  simp only [deferLegacyClaim]
  split
  case h_1 _ state =>
    rw [ensures_bind]
    refine (repark_wakes timely now).mono fun p parked => ?_
    refine (rest p _ parked).mono fun q same => ?_
    obtain ⟨⟨same, same'⟩, here, woken, -⟩ := same
    rw [same, same']
    exact ⟨here, .inl (woken (.inl state))⟩
  case h_2 state fresh =>
    rw [ensures_bind]
    refine (repark_wakes timely now).mono fun p parked => ?_
    refine (rest p _ parked).mono fun q same => ?_
    obtain ⟨⟨same, same'⟩, here, -, idle⟩ := same
    have unreserved : ¬ a.Reserved := by simp [Reserved, state]
    rw [same, same']
    exact ⟨here, .inr ⟨(idle unreserved).1, (idle unreserved).2.imp id fun back => ⟨fresh, back⟩⟩⟩
  case h_3 =>
    refine (rest (a, r) True trivial).mono fun q same => ?_
    obtain ⟨⟨same, same'⟩, -⟩ := same
    rw [same, same']
    exact ⟨timely, .inr ⟨rfl, .inl rfl⟩⟩
  case h_4 => exact not_never _

theorem bindPreparation_wakes {attempt : AttemptSnapshot} {session : WorkerSession}
    (timely : Timely latest a r) (come : now ≤ latest) :
    Ensures Fault.Never (a.bindPreparation r attempt session now) fun p =>
      Roused latest a r p.1 p.2.1 := by
  simp only [bindPreparation, ensures_bind, ensures_refuse, ensures_okOr, returns_check,
    ensures_pure]
  refine ⟨fun _ => not_never _, fun _ => ⟨fun _ => not_never _, fun offer _ => ?_⟩⟩
  refine ⟨fun _ => not_never _, fun _ _ _ => ?_⟩
  refine (bump_times ?_ come).mono fun b updated => ?_
  · exact timely.updated
  have here : Timely latest b r := ⟨updated, timely.highWater⟩
  exact here.woken come

theorem settleAttempt_wakes {task : TaskSnapshot} {attempt : AttemptSnapshot}
    (timely : Timely latest a r) (come : now ≤ latest) :
    Ensures Fault.Never (a.settleAttempt r task attempt now) fun p =>
      Roused latest a r p.1 p.2 := by
  simp only [settleAttempt, ensures_ite, ensures_bind, ensures_okOr, ensures_pure]
  refine ⟨fun _ => ⟨fun _ => ?_, fun _ => ⟨fun state => ?_, fun _ => timely.same⟩⟩,
    fun _ => timely.same⟩
  · exact (releaseOffer_wakes timely come).mono fun p released => released.1
  · refine ⟨fun _ => not_never _, fun _ _ => ?_⟩
    refine (bump_times ?_ come).mono fun b updated => ?_
    · exact timely.updated
    have here : Timely latest b r.lose := ⟨updated, timely.highWater⟩
    exact here.woken come

theorem closeUnassigned_wakes (timely : Timely latest a r) (come : now ≤ latest) :
    Ensures Fault.Never (a.closeUnassigned r now) fun p => Roused latest a r p.1 p.2 := by
  simp only [closeUnassigned, ensures_bind, ensures_pure]
  refine (releaseOffer_wakes timely come).mono fun p released => ?_
  refine (bump_times ?_ come).mono fun b updated => ?_
  · exact released.1.timely.updated
  have here : Timely latest b p.2.1 := ⟨updated, released.1.timely.highWater⟩
  exact here.woken come

theorem liveUntil_returns {task : Option TaskSnapshot} {attempt : Option AttemptSnapshot}
    {owner : LeaseOwner} {counts : TaskSnapshot → Bool} {deadline : AttemptSnapshot → Nat} :
    Ensures Fault.Never (liveUntil task attempt owner counts deadline) fun _ => True := by
  cases task with
  | none => trivial
  | some task =>
    simp only [liveUntil, ensures_ite, ensures_bind, ensures_okOr, ensures_pure, ensures_ok]
    exact ⟨fun _ => ⟨fun _ => not_never _, fun _ _ => trivial⟩, fun _ => trivial⟩

theorem tickOffer_times {x : TickContext} (timely : Timely latest a r) (come : x.now ≤ latest) :
    Ensures Fault.Never (a.tickOffer r x) fun p => Timely latest p.1 p.2 := by
  simp only [tickOffer]
  rw [ensures_bind, ensures_okOr]
  refine ⟨fun _ => not_never _, fun offer _ => ?_⟩
  rw [ensures_ite]
  refine ⟨fun _ => (repark_wakes timely come).mono fun p parked => parked.1, fun _ => ?_⟩
  rw [ensures_ite]
  refine ⟨fun _ => ?_, fun _ => timely⟩
  simp only [ensures_bind, ensures_okOr]
  refine ⟨fun _ => not_never _, fun owner _ => liveUntil_returns.mono fun live _ => ?_⟩
  cases live.filter (x.now < ·) with
  | some next => exact ⟨timely.updated, timely.highWater⟩
  | none =>
    rw [ensures_bind]
    exact (releaseOffer_wakes timely come).mono fun p released => released.1.timely

theorem tickSource_times {x : TickContext} (timely : Timely latest a r) (come : x.now ≤ latest) :
    Ensures Fault.Never (a.tickSource r x) fun p => Timely latest p.1 p.2 := by
  simp only [tickSource]
  rw [ensures_ite]
  refine ⟨fun _ => ?_, fun _ => timely⟩
  simp only [ensures_bind, ensures_okOr]
  refine ⟨fun _ => not_never _, fun owner _ => liveUntil_returns.mono fun live _ => ?_⟩
  cases live.filter (x.now < ·) with
  | some next => exact ⟨timely.updated, timely.highWater⟩
  | none =>
    simp only [ensures_bind, ensures_okOr, ensures_pure]
    refine ⟨fun _ => not_never _, fun _ _ => (bump_times ?_ come).mono fun b updated => ?_⟩
    · exact timely.updated
    · exact ⟨updated, timely.highWater⟩

theorem tickWaiting_times {x : TickContext} (timely : Timely latest a r) (come : x.now ≤ latest) :
    Ensures Fault.Never (a.tickWaiting r x) fun p => Timely latest p.1 p.2 := by
  simp only [tickWaiting]
  rw [ensures_bind, ensures_okOr]
  refine ⟨fun _ => not_never _, fun task _ => ?_⟩
  rw [ensures_ite]
  refine ⟨fun _ => ?_, fun _ => ?_⟩
  · simp only [ensures_bind, ensures_pure]
    refine (bump_times ?_ come).mono fun b updated => ⟨updated, timely.highWater⟩
    exact timely.updated
  rw [ensures_ite]
  refine ⟨fun _ => ⟨timely.updated, timely.highWater⟩, fun _ => ?_⟩
  simp only [ensures_ite, ensures_bind, returns_check, ensures_okOr, ready, ensures_refuse,
    ensures_pure]
  refine ⟨fun _ capacity _ => ⟨fun _ => ?_, fun _ => timely⟩, fun _ => timely⟩
  refine ⟨fun _ => not_never _, fun generation _ => ⟨fun _ => not_never _, fun _ _ => ?_⟩⟩
  refine (bump_times ?_ come).mono fun b updated => ⟨fun _ => not_never _, ?_⟩
  · exact timely.updated
  exact fun _ _ => ⟨fun _ => not_never _, fun _ _ => ⟨fun _ => not_never _, fun _ =>
    ⟨updated, timely.highWater⟩⟩⟩

theorem tick_times {x : TickContext} (timely : Timely latest a r) (come : x.now ≤ latest) :
    Ensures Fault.Never (a.tick r x) fun p => Timely latest p.1 p.2 := by
  simp only [tick]
  rw [ensures_bind]
  refine (Resource.refill_times timely.highWater come).mono fun r' refilled => ?_
  have here : Timely latest a r' := ⟨timely.updated, refilled.1⟩
  split
  case h_1 | h_2 => exact tickOffer_times here come
  case h_3 => exact tickSource_times here come
  case h_4 => exact tickWaiting_times here come
  all_goals exact here

def WrittenBy (latest : Nat) (writes : Option TaskWrites) : Prop :=
  ∀ w ∈ writes, w.latest ≤ latest

theorem writtenBy_none : WrittenBy latest none := by simp [WrittenBy]

theorem writtenBy_moves {R : Type} {t : Transition R} {task task' : TaskSnapshot}
    {attempt attempt' : AttemptSnapshot} (moves : Move task attempt now task' attempt' t.history)
    (come : now ≤ latest) : WrittenBy latest (some t.taskWrites) := by
  simp only [WrittenBy, Option.mem_some_iff, forall_eq']
  exact TaskWrites.latest_le moves.times come

theorem answered_wakes {writes : Option TaskWrites} {c : TaskAdmissionStartCommand}
    (step : Roused latest a r a' r') (written : WrittenBy latest writes) :
    Ensures Fault.Never (a'.existing r' writes c) fun p =>
      Roused latest a r p.1 p.2.1 ∧ WrittenBy latest p.2.2.1 := by
  simp only [existing, ensures_bind, returns_check, ensures_pure]
  exact fun _ _ => ⟨step, written⟩

theorem denyStart_wakes {c : TaskAdmissionStartCommand} {task : TaskSnapshot}
    {attempt : AttemptSnapshot} {reason : RunBudgetDenial} (timely : Timely latest a r)
    (come : now ≤ latest) :
    Ensures Fault.Never (a.denyStart r c task attempt reason now) fun p =>
      Roused latest a r p.1 p.2.1 ∧ WrittenBy latest p.2.2.1 := by
  simp only [denyStart, ensures_bind, returns_check]
  intro transition denied
  refine (releaseOffer_wakes timely come).mono fun p released => ?_
  refine (bump_times ?_ come).mono fun b updated => ?_
  · exact released.1.timely.updated
  have here : Timely latest b p.2.1 := ⟨updated, released.1.timely.highWater⟩
  exact answered_wakes (here.woken come) (writtenBy_moves (denyTaskAdmission_moves denied) come)

theorem grant_wakes {c : TaskAdmissionStartCommand} {x : TaskStartContext} {task : TaskSnapshot}
    {attempt : AttemptSnapshot} {session : WorkerSession} {budgetDeadline : Option Nat}
    (timely : Timely latest a r) (come : now ≤ latest) :
    Ensures Fault.Never (a.grant r c x task attempt session budgetDeadline now) fun p =>
      Roused latest a r p.1 p.2.1 ∧ WrittenBy latest p.2.2.1 := by
  simp only [grant, ensures_bind, returns_check, ensures_refuse, ensures_okOr, ensures_pure]
  intro transition started
  refine (Resource.refill_times timely.highWater come).mono fun r₁ refilled => ?_
  refine ⟨fun _ => not_never _, fun _ => Resource.spend_times.mono fun r₂ same => ?_⟩
  refine ⟨fun _ => not_never _, fun _ _ _ _ => ⟨fun _ => not_never _, fun _ _ => ?_⟩⟩
  refine (bump_times ?_ come).mono fun b updated => ⟨fun _ => not_never _, fun _ _ _ => ?_⟩
  · exact timely.updated
  have here : Timely latest b r₂.start := ⟨updated, same.highWater.trans_le refilled.1⟩
  exact ⟨here.woken come, writtenBy_moves (startTaskAdmission_moves started) come⟩

theorem startPrepared_wakes {c : TaskAdmissionStartCommand} {x : TaskStartContext}
    {offer : TaskAdmissionOffer} (timely : Timely latest a r) (come : x.latest ≤ latest) :
    Ensures Fault.Never (a.startPrepared r c x offer) fun p =>
      Roused latest a r p.1 p.2.1 ∧ WrittenBy latest p.2.2.1 := by
  obtain ⟨now, budgetNow, deniedAt⟩ := TaskStartContext.latest_le.mp come
  simp only [startPrepared, ensures_bind, ensures_okOr, ensures_refuse]
  refine ⟨fun _ => not_never _, fun task _ => ⟨fun _ => not_never _, fun session _ => ?_⟩⟩
  refine ⟨fun _ => not_never _, fun _ => ⟨fun _ => not_never _, fun attempt _ => ?_⟩⟩
  split
  case h_1 reason _ => exact denyStart_wakes timely deniedAt
  case h_2 budgetDeadline _ =>
    have sampled : (if task.input.budget.isSome then x.budgetNow else x.now) ≤ latest := by
      split
      · exact budgetNow
      · exact now
    rw [ensures_bind, ensures_refuse]
    exact ⟨fun _ => not_never _, fun _ => grant_wakes timely sampled⟩

theorem startTask_wakes {c : TaskAdmissionStartCommand} {x : TaskStartContext}
    (timely : Timely latest a r) (come : x.latest ≤ latest) :
    Ensures Fault.Never (a.startTask r c x) fun p =>
      Roused latest a r p.1 p.2.1 ∧ WrittenBy latest p.2.2.1 := by
  simp only [startTask]
  rw [ensures_bind, returns_check]
  intro _ _
  rw [ensures_bind, returns_check]
  intro _ _
  cases a.startCommand with
  | some accepted =>
    simp only [ensures_bind, ensures_refuse]
    exact ⟨fun _ => not_never _, fun _ => answered_wakes timely.same writtenBy_none⟩
  | none =>
    simp only
    rw [ensures_bind, ensures_refuse]
    refine ⟨fun _ => not_never _, fun _ => ?_⟩
    rw [ensures_ite]
    refine ⟨fun _ => answered_wakes timely.same writtenBy_none, fun _ => ?_⟩
    simp only [ensures_bind, ensures_refuse, ensures_okOr]
    refine ⟨fun _ => not_never _, fun _ => ⟨fun _ => not_never _, fun _ => ?_⟩⟩
    refine ⟨fun _ => not_never _, fun offer _ => ?_⟩
    rw [ensures_ite]
    refine ⟨fun _ => ?_, fun _ => startPrepared_wakes timely come⟩
    rw [ensures_bind]
    refine (releaseOffer_wakes timely (TaskStartContext.latest_le.mp come).1).mono
      fun p released => ?_
    exact answered_wakes released.1 writtenBy_none

theorem releaseStarted_times (timely : Timely latest a r) (come : now ≤ latest) :
    Ensures Fault.Never (a.releaseStarted r now) fun p => Timely latest p.1 p.2.1 ∧
      (a.isOccupying = true → p.2.1.Woken latest) := by
  simp only [releaseStarted]
  rw [ensures_ite]
  refine ⟨fun idle => ⟨timely, fun busy => by simp [idle] at busy⟩, fun _ => ?_⟩
  simp only [ensures_bind, ensures_pure]
  refine Resource.release_times.mono fun r₁ same => ?_
  refine (Resource.refill_times (same.highWater ▸ timely.highWater) come).mono
    fun r₂ refilled => ?_
  exact ⟨⟨timely.updated, refilled.1⟩, fun _ => Resource.woken_wake come⟩

theorem closed_wakes {c : TaskAdmissionCloseCommand} {writes : Option TaskWrites}
    {disposition : TaskAdmissionCloseDisposition} (timely : Timely latest a' r')
    (written : WrittenBy latest writes) (come : now ≤ latest) :
    Ensures Fault.Never (a'.closed r' c writes disposition now) fun p =>
      Roused latest a r p.1 p.2.1 ∧ WrittenBy latest p.2.2.1 := by
  simp only [closed, ensures_bind, returns_check, ensures_pure]
  intro _ _
  refine (bump_times ?_ come).mono fun b updated => ?_
  · exact timely.updated
  have here : Timely latest b r' := ⟨updated, timely.highWater⟩
  exact ⟨here.woken come, written⟩

theorem closeStartedTransition_written {c : TaskAdmissionCloseCommand} {x : CloseContext}
    (come : now ≤ latest) :
    Ensures Fault.Never (closeStartedTransition c x now) fun writes => WrittenBy latest writes := by
  unfold closeStartedTransition
  split
  · simp only [ensures_bind, ensures_okOr, returns_check, ensures_pure]
    refine ⟨fun _ => not_never _, fun attempt _ t stopped => ?_⟩
    exact writtenBy_moves (stopStartedTaskAdmission_moves stopped) come
  · exact writtenBy_none

theorem closeUnstartedTransition_written {c : TaskAdmissionCloseCommand} {x : CloseContext}
    (come : now ≤ latest) (sampled : x.sampled ≤ latest) :
    Ensures Fault.Never (a.closeUnstartedTransition c x now) fun p => WrittenBy latest p.1 := by
  unfold closeUnstartedTransition
  rw [ensures_ite]
  refine ⟨fun _ => ?_, fun _ => ?_⟩
  · simp only [ensures_bind, ensures_okOr, ensures_refuse]
    refine ⟨fun _ => not_never _, fun original _ => ⟨fun _ => not_never _, fun _ => ?_⟩⟩
    split
    · simp only [ensures_bind, ensures_okOr, returns_check, ensures_pure]
      refine ⟨fun _ => not_never _, fun attempt _ t confirmed => ?_⟩
      exact writtenBy_moves (confirmDeniedTaskQuiescence_moves confirmed) come
    · exact writtenBy_none
  · split
    · simp only [ensures_bind, ensures_okOr, ensures_ite, returns_check, ensures_pure]
      refine ⟨fun _ => not_never _, fun attempt _ => ⟨fun _ t deferred => ?_, fun _ => writtenBy_none⟩⟩
      exact writtenBy_moves (deferTaskAdmission_moves deferred) come
    · simp only [ensures_bind, ensures_okOr, ensures_ite, returns_check, ensures_pure, ensures_ok]
      refine ⟨fun _ => ⟨fun _ => not_never _, fun attempt _ => ⟨fun _ t confirmed => ?_,
        fun _ => writtenBy_none⟩⟩, fun _ => writtenBy_none⟩
      exact writtenBy_moves (confirmQuiescence_moves confirmed) sampled
    · exact writtenBy_none

theorem closeTask_wakes {c : TaskAdmissionCloseCommand} {x : CloseContext}
    (timely : Timely latest a r) (come : x.sampled ≤ latest) :
    Ensures Fault.Never (a.closeTask r c x) fun p =>
      Roused latest a r p.1 p.2.1 ∧ WrittenBy latest p.2.2.1 := by
  have now : max (max x.sampled a.snapshot.updatedAt) r.highWater ≤ latest :=
    max_le (max_le come timely.updated) timely.highWater
  simp only [closeTask]
  rw [ensures_bind, returns_check]
  intro _ _
  rw [ensures_bind, returns_check]
  intro _ _
  cases a.closeCommand with
  | some accepted =>
    simp only [ensures_bind, ensures_refuse, ensures_okOr, ensures_pure]
    exact ⟨fun _ => not_never _, fun _ => ⟨fun _ => not_never _,
      fun _ _ => ⟨timely.same, writtenBy_none⟩⟩⟩
  | none =>
    simp only
    rw [ensures_bind, ensures_refuse]
    refine ⟨fun _ => not_never _, fun _ => ?_⟩
    rw [ensures_ite]
    refine ⟨fun _ => ?_, fun _ => ?_⟩
    · simp only [closeStarted, ensures_bind]
      refine (releaseStarted_times timely now).mono fun p released => ?_
      refine (closeStartedTransition_written now).mono fun writes written => ?_
      refine closed_wakes ⟨?_, released.1.highWater⟩ written now
      split
      · exact released.1.updated
      · exact released.1.updated
    · simp only [closeUnstarted, ensures_bind]
      refine (releaseOffer_wakes timely now).mono fun p released => ?_
      refine (closeUnstartedTransition_written now come).mono fun writes written => ?_
      refine closed_wakes ⟨?_, released.1.timely.highWater⟩ written now
      exact released.1.timely.updated

theorem releaseTask_wakes {sourceId : String} {expectedRevision sampled : Nat}
    (timely : Timely latest a r) (come : sampled ≤ latest) :
    Ensures Fault.Never (a.releaseTask r sourceId expectedRevision sampled) fun p =>
      Roused latest a r p.1 p.2 := by
  have now : max (max sampled a.snapshot.updatedAt) r.highWater ≤ latest :=
    max_le (max_le come timely.updated) timely.highWater
  simp only [releaseTask, ensures_bind, ensures_refuse, ensures_pure]
  refine ⟨fun _ => not_never _, fun accepted => ?_⟩
  refine (releaseStarted_times timely now).mono fun p released => ?_
  refine (bump_times ?_ now).mono fun b updated => ?_
  · exact released.1.updated
  have occupying : a.isOccupying = true := by
    simp only [not_or] at accepted
    simpa using accepted.2.2
  exact ⟨⟨updated, released.1.highWater⟩, .inl (released.2 occupying)⟩

end TaskAdmissionRequest
end Ledgence
