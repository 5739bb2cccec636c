import Ledgence.Queues.Accounting

/-! What each transaction does to the holds of a queue. None of them meets a broken counter, a
check of a table, or an attempt whose hold is missing. -/
open Kit Kit.Checked

namespace Ledgence.Queue
variable {q q' : Queue} {forced : List String} {sampled now : Nat} {a a' old new : AttemptSnapshot}
variable {task task' : TaskSnapshot} {events : List HistoryEvent}

/-- Every update that a core decision writes passes the trigger, or starts user code too late. -/
theorem attemptTransition_spec (accounted : Accounted q) (loud : a.Loud)
    (move : Move task a now task' a' events)
    (covered : q.policy ≠ none → CoveredAt forced q.holds a) :
    Ensures QueueFault.Broken (q.attemptTransition a a' sampled) fun q' =>
      Touched q a.id q' ∧ (q.policy ≠ none → CoveredAt forced q'.holds a') := by
  have named : a'.id = a.id := by
    simp [AttemptSnapshot.id, (Move.same_attempt move).owner]
  have still : a'.Outstanding → a.Outstanding := MoveBy.outstanding move
  have was : a'.state = .active → a.state = .active := MoveBy.wasActive move
  -- the hold of an attempt that goes on covers it as before
  have idle : Touched q a.id q ∧ (q.policy ≠ none → CoveredAt forced q.holds a') := by
    refine ⟨accounted.untouched a.id, fun enrolled => ⟨fun outstanding => ?_, fun active => ?_⟩⟩
    · rw [named]
      exact (covered enrolled).held (still outstanding)
    · rw [named]
      exact (covered enrolled).stopping (was active)
  unfold attemptTransition
  by_cases same : SamePhase a a'
  · rw [if_pos same, ensures_ok]
    exact idle
  · rw [if_neg same]
    cases enrolled : q.policy with
    | none => exact ⟨accounted.untouched a.id, fun absent => absurd rfl absent⟩
    | some p =>
      rw [enrolled] at idle
      have covered := covered (by simp [enrolled])
      cases found : Table.find QueueHold.attemptId a'.id q.holds with
      | none =>
        have unheld : ∀ h ∈ q.holds, h.attemptId ≠ a.id := named ▸ Table.find_eq_none.mp found
        have done : ¬ a.Outstanding := fun outstanding => by
          obtain ⟨h, mem, same, -⟩ := covered.held outstanding
          exact unheld h mem same
        obtain same' | ⟨cleanup, -⟩ := MoveBy.cleanup move done
        · exact absurd same' same
        · rw [if_pos cleanup]
          refine ⟨accounted.untouched a.id, fun _ => ⟨fun outstanding => ?_, ?_⟩⟩
          · exact absurd (still outstanding) done
          · exact fun _ h mem named' => absurd (named'.trans named) (unheld h mem)
      | some h =>
        have mem := Table.find_mem found
        have only : ∀ h' ∈ q.holds, h'.attemptId = a.id → h' = h := fun h' mem' same' =>
          Table.eq_of_key accounted.unique mem' mem
            (same'.trans (named.symm.trans (Table.find_key found).symm))
        have stays : ∀ {next}, ¬ (next = .released ∧ a'.Outstanding) →
            (next = .uncertain → a'.state ≠ .active) → ∀ q', Transitioned q a.id next q' →
            Touched q a.id q' ∧ (some p ≠ none → CoveredAt forced q'.holds a') :=
          fun ends stops q' done => ⟨done.toTouched, fun _ => done.covered_self covered named still
            (fun released outstanding => absurd ⟨released, outstanding⟩ ends)
            (fun uncertain active => absurd active (stops uncertain)) was⟩
        simp only [ensures_bind, ensures_refuse, ensures_ite, ensures_pure]
        rw [named]
        refine ⟨fun _ => by simp [QueueFault.Broken], fun onTime => ⟨fun ends => ?ends, fun runs =>
          ⟨fun ended => ?stops, fun active => ⟨fun started => ?starts, fun unstarted => ?waits⟩⟩⟩⟩
        case ends =>
          refine (transition_spec accounted ?_ ?_ ?_).mono fun r done => stays ?_ ?_ _ done
          · exact fun h' _ _ isOpen _ => QueueHoldState.rank_lt_released isOpen
          · simp
          · intro timeout
            split at timeout <;> simp at timeout
          · rintro ⟨_, outstanding⟩
            obtain active | ⟨ended, started, unquiet⟩ := outstanding
            · have unquiet := MoveBy.loud move loud active
              simp [active, unquiet] at ends
            · simp [started, unquiet] at ends
          · simp
        case stops =>
          refine (transition_spec accounted ?_ ?_ ?_).mono fun r done => stays ?_ ?_ _ done
          · exact fun h' _ _ isOpen elsewhere => QueueHoldState.rank_lt_uncertain isOpen elsewhere
          · simp
          · simp
          · simp
          · exact fun _ => ended
        case starts =>
          have active := not_not.mp active
          obtain ⟨wasActive, fresh⟩ := MoveBy.starts move loud active same
          have onTime : ¬ (h.state = .released ∨ h.stopRequestedAt.isSome = true ∨
              ∃ d ∈ h.deadline, d ≤ sampled) := fun late => onTime ⟨started, fresh started, late⟩
          rw [not_or, not_or] at onTime
          have certain : h.state ≠ .uncertain := fun uncertain => onTime.2.1
            (covered.stopping wasActive h mem (named ▸ Table.find_key found) uncertain)
          refine (transition_spec accounted ?_ ?_ ?_).mono fun r done => stays ?_ ?_ _ done
          · intro h' mem' same' isOpen elsewhere
            obtain rfl := only h' mem' same'
            exact QueueHoldState.rank_lt_running isOpen certain elsewhere
          · simp
          · simp
          · simp
          · simp
        case waits => exact idle

theorem transition_error {id : String} {next : QueueHoldState} {kind : Option QueueHoldReleaseKind} :
    Ensures (fun fault => ¬ fault.Broken) (q.transition id next kind sampled) fun _ => True := by
  unfold transition
  cases Table.find QueueHold.attemptId id q.holds with
  | none => trivial
  | some h => simp [QueuePolicyRow.moved, QueueFault.Broken]

theorem attemptTransition_error {fault : QueueFault}
    (rejected : q.attemptTransition old new sampled = .error fault) (sound : ¬ fault.Broken) :
    fault = .lateStart ∧ ∃ h ∈ q.holds, h.attemptId = new.id ∧ StartsLate h old new sampled := by
  have only : Ensures (fun fault => ¬ (fault.Broken ∨ fault = .lateStart ∧ ∃ h ∈ q.holds,
      h.attemptId = new.id ∧ StartsLate h old new sampled))
      (q.attemptTransition old new sampled) fun _ => True := by
    unfold attemptTransition
    by_cases same : SamePhase old new
    · simp [same]
    · rw [if_neg same]
      cases q.policy with
      | none => trivial
      | some p =>
        cases found : Table.find QueueHold.attemptId new.id q.holds with
        | none => simp [QueueFault.Broken]
        | some h =>
          have mem := Table.find_mem found
          have named : h.attemptId = new.id := Table.find_key found
          have moves : ∀ next kind, Ensures (fun fault => ¬ (fault.Broken ∨ fault = .lateStart ∧
              ∃ h ∈ q.holds, h.attemptId = new.id ∧ StartsLate h old new sampled))
              (q.transition new.id next kind sampled) fun _ => True := by
            intro next kind
            refine ensures_of_ok (fun fault failed => ?_) fun _ _ => trivial
            have broken := not_not.mp ((transition_error).error failed)
            exact not_not.mpr (.inl broken)
          simp only [ensures_bind, ensures_refuse, ensures_ite, ensures_pure]
          refine ⟨fun late => not_not.mpr (.inr ⟨trivial, h, mem, named, late⟩), fun _ =>
            ⟨fun _ => moves _ _, fun _ => ⟨fun _ => moves _ _,
            fun _ => ⟨fun _ => moves _ _, fun _ => trivial⟩⟩⟩⟩
  exact (not_not.mp (only.error rejected)).resolve_left sound

theorem Accounted.of_same (accounted : Accounted q) (policy : q'.policy = q.policy)
    (holds : q'.holds = q.holds) : Accounted q' where
  unique := by rw [holds]; exact accounted.unique
  unenrolled := by rw [policy, holds]; exact accounted.unenrolled
  occupied := by rw [policy, holds]; exact accounted.occupied
  uncertain := by rw [policy, holds]; exact accounted.uncertain
  policy := by rw [policy]; exact accounted.policy
  holds := by rw [holds]; exact accounted.holds

structure Forced (q q' : Queue) : Prop where
  accounted : Accounted q'
  enrolled : q'.policy.isSome = q.policy.isSome
  kept : ∀ h ∈ q.holds, ∃ h' ∈ q'.holds, h'.attemptId = h.attemptId
  final : ∀ h ∈ q.holds, h.state = .released → h ∈ q'.holds
  stops : ∀ h' ∈ q'.holds, h'.state = .uncertain → h' ∈ q.holds ∨ h'.stopRequestedAt.isSome = true

theorem Accounted.unforced (accounted : Accounted q) : Forced q q where
  accounted := accounted
  enrolled := rfl
  kept := fun h mem => ⟨h, mem, rfl⟩
  final := fun _ mem _ => mem
  stops := fun _ mem _ => .inl mem

theorem Transitioned.kept {id : String} {next : QueueHoldState} (done : Transitioned q id next q') :
    ∀ h ∈ q.holds, ∃ h' ∈ q'.holds, h'.attemptId = h.attemptId := by
  intro h mem
  by_cases named : h.attemptId = id
  · obtain ⟨h', mem', named', -⟩ := done.arrived h mem named
    exact ⟨h', mem', named'.trans named.symm⟩
  · exact ⟨h, done.others h mem named, rfl⟩

theorem Forced.trans {q₁ q₂ : Queue} (first : Forced q q₁) (second : Forced q₁ q₂) : Forced q q₂ where
  accounted := second.accounted
  enrolled := second.enrolled.trans first.enrolled
  kept := by
    intro h mem
    obtain ⟨h₁, mem₁, same₁⟩ := first.kept h mem
    obtain ⟨h₂, mem₂, same₂⟩ := second.kept h₁ mem₁
    exact ⟨h₂, mem₂, same₂.trans same₁⟩
  final := fun h mem ended => second.final h (first.final h mem ended) ended
  stops := by
    intro h mem uncertain
    obtain mem | asked := second.stops h mem uncertain
    · exact first.stops h mem uncertain
    · exact .inr asked

theorem Transitioned.forces {id : String} {next : QueueHoldState} (done : Transitioned q id next q')
    (stops : next = .uncertain → ∀ h ∈ q.holds, h.attemptId = id → h.stopRequestedAt.isSome = true) :
    Forced q q' where
  accounted := done.accounted
  enrolled := done.enrolled
  kept := done.kept
  final := done.final
  stops := by
    intro h' mem uncertain
    obtain mem | ⟨-, came, h, mem', named, stop⟩ := done.origin h' mem
    · exact .inl mem
    · rw [stop]
      exact .inr (stops (came.symm.trans uncertain) h mem' named)

/-- The tasks are those of `q`, but for lowered deadlines. -/
def Lowered (q q' : Queue) : Prop :=
  q'.tasks = q.tasks ∨ ∃ id at', q'.tasks = q.tasks.map (TaskRun.fence id at')

@[simp] theorem fence_spec {id : String} {at' : Nat} {post : Queue → Prop} :
    Ensures QueueFault.Broken (q.fence id at') post ↔
      (at' ≤ maxTimestamp → post { q with tasks := q.tasks.map (TaskRun.fence id at') }) := by
  simp [fence]

@[simp] theorem lockSource_spec {scope : Scope} {queue taskId attemptId : String}
    {post : QueueHold → Prop} (weaker : ∀ h ∈ q.holds, h.attemptId = attemptId → post h) :
    Ensures QueueFault.Broken (q.lockSource scope queue taskId attemptId) post := by
  simp only [lockSource, ensures_bind, ensures_refuse, ensures_okOr, broken_refused, not_false_iff,
    implies_true, true_and, unbroken_check, ensures_pure]
  intro _ h found _ _ _
  exact weaker h (Table.find_mem found) (Table.find_key found)

theorem fence_release_spec (accounted : Accounted q) {id : String} {kind : QueueHoldReleaseKind}
    (timely : kind = .timeout → ∀ h ∈ q.holds, h.attemptId = id → h.state ≠ .released →
      ∃ force ∈ h.forceAt, force ≤ now) :
    Ensures QueueFault.Broken (do let q ← q.fence id now; q.moveHold id .released (some kind) now)
      fun q' => Forced q q' ∧ Lowered q q' := by
  simp only [ensures_bind, fence_spec]
  intro inRange
  have fenced : Accounted { q with tasks := q.tasks.map (TaskRun.fence id now) } :=
    accounted.of_same rfl rfl
  refine (moveHold_spec fenced ?_ ?_ ?_).mono fun q' done => ?_
  · exact fun h _ _ isOpen _ => QueueHoldState.rank_lt_released isOpen
  · simp
  · simpa using timely
  · obtain ⟨accounted', enrolled, kept, final, stops⟩ := done.forces (by simp)
    exact ⟨⟨accounted', enrolled, kept, final, stops⟩, .inr ⟨id, now, done.tasks⟩⟩

theorem closeHold_spec (accounted : Accounted q) (c : QueueHoldClose) :
    Ensures QueueFault.Broken (q.closeHold c now) fun q' => Forced q q' ∧ Lowered q q' := by
  simp only [closeHold, ensures_bind, unbroken_check]
  intro _ _
  refine lockSource_spec fun h mem named => ?_
  simp only [ensures_refuse, broken_refused, not_false_iff, implies_true, true_and, ensures_ite,
    ensures_pure]
  exact fun _ => ⟨fun _ => ⟨accounted.unforced, .inl rfl⟩, fun _ =>
    by simpa using fence_release_spec accounted (by simp)⟩

theorem releaseHold_spec (accounted : Accounted q) (c : QueueHoldRelease) :
    Ensures QueueFault.Broken (q.releaseHold c now) fun q' => Forced q q' ∧ Lowered q q' := by
  simp only [releaseHold, ensures_bind, unbroken_check]
  intro _ _
  refine lockSource_spec fun h mem named => ?_
  simp only [ensures_refuse, broken_refused, not_false_iff, implies_true, true_and]
  exact fun _ => by simpa using fence_release_spec accounted (by simp)

theorem stopped_forced (accounted : Accounted q) {h : QueueHold} (mem : h ∈ q.holds)
    (isOpen : h.state ≠ .released) (fresh : h.stopRequestedAt = none)
    (past : ∃ deadline ∈ h.deadline, deadline ≤ now) (tasks : List TaskRun) :
    Forced q { q with
      holds := Table.put QueueHold.attemptId (h.stopped now) q.holds
      tasks := tasks } := by
  have same : h.attemptId = (h.stopped now).attemptId := rfl
  have openCount := Table.countP_put accounted.unique mem same QueueHold.isOpen
  have uncertainCount := Table.countP_put accounted.unique mem same QueueHold.isUncertain
  have sameOpen : (h.stopped now).isOpen = h.isOpen := rfl
  have sameUncertain : (h.stopped now).isUncertain = h.isUncertain := rfl
  rw [sameOpen] at openCount
  rw [sameUncertain] at uncertainCount
  refine ⟨⟨?unique, ?unenrolled, ?occupied, ?uncertain, accounted.policy, ?holds⟩, rfl, ?kept, ?final,
    ?stops⟩
  case unique => exact Table.unique_put accounted.unique
  case unenrolled =>
    intro absent
    rw [accounted.unenrolled absent] at mem
    simp at mem
  case occupied =>
    intro p enrolled
    rw [accounted.occupied p enrolled]
    exact (Nat.add_right_cancel openCount).symm
  case uncertain =>
    intro p enrolled
    rw [accounted.uncertain p enrolled]
    exact (Nat.add_right_cancel uncertainCount).symm
  case holds =>
    intro h' mem'
    obtain rfl | ⟨mem', -⟩ := Table.mem_put mem'
    · exact (accounted.holds h mem).stopped isOpen fresh past
    · exact accounted.holds h' mem'
  case kept =>
    intro h' mem'
    by_cases same' : h'.attemptId = h.attemptId
    · exact ⟨_, Table.mem_put_self mem same, same'.symm⟩
    · exact ⟨h', Table.mem_put_other mem' same', rfl⟩
  case final =>
    intro h' mem' ended
    refine Table.mem_put_other mem' fun same' => ?_
    rw [Table.eq_of_key accounted.unique mem' mem same'] at ended
    exact isOpen ended
  case stops =>
    intro h' mem' uncertain
    obtain rfl | ⟨mem', -⟩ := Table.mem_put mem'
    · exact .inr rfl
    · exact .inl mem'

theorem requestStop_spec (accounted : Accounted q) {h : QueueHold} (mem : h ∈ q.holds)
    (isOpen : h.state ≠ .released) (fresh : h.stopRequestedAt = none)
    (past : ∃ deadline ∈ h.deadline, deadline ≤ now) :
    Ensures QueueFault.Broken (q.requestStop h now) fun q' => Forced q q' ∧ Lowered q q' := by
  have sound : (h.stopped now).Sound := (accounted.holds h mem).stopped isOpen fresh past
  have asked := stopped_forced accounted mem isOpen fresh past
    (q.tasks.map (TaskRun.fence h.attemptId now))
  have only : ∀ h' ∈ Table.put QueueHold.attemptId (h.stopped now) q.holds,
      h'.attemptId = h.attemptId → h' = h.stopped now := by
    intro h' mem' same
    obtain rfl | ⟨-, other⟩ := Table.mem_put mem'
    · rfl
    · exact absurd same other
  simp only [requestStop, ensures_bind, fence_spec, ensures_refuse]
  refine fun inRange => ⟨fun bad => absurd sound.constrained bad, fun _ => ?_⟩
  cases state : h.state with
  | reserved =>
    refine (moveHold_spec asked.accounted ?_ ?_ ?_).mono fun q' done =>
      ⟨asked.trans (done.forces ?_), .inr ⟨_, _, done.tasks⟩⟩
    · exact fun h' _ _ isOpen _ => QueueHoldState.rank_lt_released isOpen
    · simp
    · simp
    · simp
  | running =>
    refine (moveHold_spec asked.accounted ?_ ?_ ?_).mono fun q' done =>
      ⟨asked.trans (done.forces ?_), .inr ⟨_, _, done.tasks⟩⟩
    · exact fun h' _ _ isOpen elsewhere => QueueHoldState.rank_lt_uncertain isOpen elsewhere
    · simp
    · simp
    · intro _ h' mem' named
      rw [only h' mem' named]
      rfl
  | uncertain | released => exact ⟨asked, .inr ⟨_, _, rfl⟩⟩

theorem tickTimeout_spec (accounted : Accounted q) (taskId attemptId : String) :
    Ensures QueueFault.Broken (q.tickTimeout taskId attemptId now)
      fun q' => Forced q q' ∧ Lowered q q' := by
  simp only [tickTimeout, ensures_bind]
  refine lockSource_spec fun h mem named => ?_
  simp only [ensures_ite, ensures_pure]
  refine ⟨?_, fun _ => ⟨?_, fun _ => ?_⟩⟩
  · rintro ⟨isOpen, fresh, past⟩
    rw [Option.any_eq_true] at past
    obtain ⟨deadline, there, past⟩ := past
    exact requestStop_spec accounted mem isOpen fresh ⟨deadline, there, of_decide_eq_true past⟩
  · rintro ⟨isOpen, asked, past⟩
    rw [Option.any_eq_true] at past
    obtain ⟨force, there, past⟩ := past
    refine fence_release_spec accounted fun _ h' mem' named' _ => ?_
    rw [Table.eq_of_key accounted.unique mem' mem (named'.trans named.symm)]
    exact ⟨force, there, of_decide_eq_true past⟩
  · exact ⟨accounted.unforced, .inl rfl⟩

end Ledgence.Queue
