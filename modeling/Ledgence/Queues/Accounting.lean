import Ledgence.Kit.Checked
import Ledgence.Queues.Queue

/-! The counters of a queue are the numbers of its holds, and whatever occupies the queue has one. -/
open Kit Kit.Checked

namespace Ledgence

def QueueHoldState.rank : QueueHoldState → Nat
  | .reserved => 0
  | .running => 1
  | .uncertain => 2
  | .released => 3

namespace QueueHoldState
variable {state : QueueHoldState}

theorem rank_lt_running (isOpen : state ≠ .released) (certain : state ≠ .uncertain)
    (elsewhere : state ≠ .running) : state.rank < running.rank := by
  cases state with
  | reserved => decide
  | running => exact absurd rfl elsewhere
  | uncertain => exact absurd rfl certain
  | released => exact absurd rfl isOpen

theorem rank_lt_uncertain (isOpen : state ≠ .released) (elsewhere : state ≠ .uncertain) :
    state.rank < uncertain.rank := by
  cases state with
  | reserved | running => decide
  | uncertain => exact absurd rfl elsewhere
  | released => exact absurd rfl isOpen

theorem rank_lt_released (isOpen : state ≠ .released) : state.rank < released.rank := by
  cases state with
  | reserved | running | uncertain => decide
  | released => exact absurd rfl isOpen

end QueueHoldState

namespace QueueHold
variable {h : QueueHold} {next : QueueHoldState} {kind : Option QueueHoldReleaseKind} {sampled : Nat}

def rank (h : QueueHold) : Nat := h.state.rank + if h.stopRequestedAt.isSome then 1 else 0

structure Sound (h : QueueHold) : Prop where
  constrained : h.Constrained
  revised : h.revision ≤ h.rank + 1

theorem Sound.moved (sound : h.Sound) (forward : h.state.rank < next.rank)
    (kinds : next = .released ↔ kind.isSome = true)
    (timely : kind = some .timeout → ∃ force ∈ h.forceAt, force ≤ sampled) :
    (h.moved next kind sampled).Sound := by
  obtain ⟨constrained, revised⟩ := sound
  have bound : h.rank ≤ 4 := by
    have asked : (if h.stopRequestedAt.isSome = true then 1 else 0) ≤ 1 := by split <;> omega
    have state : h.state.rank ≤ 3 := by cases h.state <;> decide
    unfold rank
    omega
  have ranked : (h.moved next kind sampled).rank =
      next.rank + if h.stopRequestedAt.isSome then 1 else 0 := rfl
  refine ⟨?_, ?_⟩
  · constructor
    case revision =>
      have large : (6 : Nat) ≤ u64Max := by decide
      simp only [QueueHold.moved]
      omega
    case policyRevision => exact constrained.policyRevision
    case kind => exact kinds
    case released =>
      simp only [QueueHold.moved]
      by_cases ends : next = .released
      · simp [ends]
      · simp [ends]
    case deadline => exact constrained.deadline
    case grace => exact constrained.grace
    case stop => exact constrained.stop
    case force => exact constrained.force
    case releasedAt =>
      intro at' released
      simp only [QueueHold.moved] at released ⊢
      by_cases ends : next = .released
      · simp only [ends, if_true, Option.mem_some_iff] at released
        refine ⟨by omega, fun stop asked => ?_⟩
        rw [Option.mem_def] at asked
        simp only [asked, Option.getD_some] at released
        omega
      · simp [ends] at released
    case timeout =>
      intro isTimeout
      have ends : next = .released := kinds.mpr (by rw [show kind = some .timeout from isTimeout]; rfl)
      obtain ⟨force, scheduled, come⟩ := timely isTimeout
      refine ⟨force, scheduled, max (max sampled h.acquiredAt) (h.stopRequestedAt.getD 0), ?_, by omega⟩
      simp [QueueHold.moved, ends]
  · rw [ranked]
    simp only [rank] at revised
    simp only [QueueHold.moved]
    omega

theorem Sound.stopped {now : Nat} (sound : h.Sound) (isOpen : h.state ≠ .released)
    (fresh : h.stopRequestedAt = none) (past : ∃ deadline ∈ h.deadline, deadline ≤ now) :
    (h.stopped now).Sound := by
  obtain ⟨constrained, revised⟩ := sound
  have bound : h.rank ≤ 3 := by
    simp only [rank, fresh, Option.isSome_none, Bool.false_eq_true, if_false, Nat.add_zero]
    cases h.state <;> decide
  have unkind : h.releaseKind = none := by
    have unreleased := mt constrained.kind.mpr isOpen
    simpa using unreleased
  have unreleased : h.releasedAt = none := by
    have unreleased := mt constrained.released.mpr isOpen
    simpa using unreleased
  refine ⟨?_, ?_⟩
  · constructor
    case revision =>
      have large : (6 : Nat) ≤ u64Max := by decide
      simp only [QueueHold.stopped]
      omega
    case policyRevision => exact constrained.policyRevision
    case kind => exact constrained.kind
    case released => exact constrained.released
    case deadline => exact constrained.deadline
    case grace => exact constrained.grace
    case stop =>
      intro stop asked
      obtain rfl : now = stop := by simpa [QueueHold.stopped] using asked
      exact past
    case force =>
      simp only [QueueHold.stopped, forcedAt]
      cases h.graceMs <;> rfl
    case releasedAt => simp [QueueHold.stopped, unreleased]
    case timeout => simp [QueueHold.stopped, unkind]
  · simp only [rank, fresh, Option.isSome_none, Bool.false_eq_true, if_false] at revised
    simp only [QueueHold.stopped, rank, Option.isSome_some, if_true]
    omega

theorem isOpen_moved :
    (h.moved next kind sampled).isOpen = decide (next ≠ .released) := rfl

theorem isUncertain_moved :
    (h.moved next kind sampled).isUncertain = decide (next = .uncertain) := rfl

theorem uncertain_le_open (holds : List QueueHold) :
    holds.countP QueueHold.isUncertain ≤ holds.countP QueueHold.isOpen := by
  refine List.countP_mono_left fun h _ isUncertain => ?_
  have uncertain : h.state = .uncertain := of_decide_eq_true isUncertain
  simp [QueueHold.isOpen, uncertain]

end QueueHold

def QueueFault.Broken (fault : QueueFault) : Prop :=
  fault = .underflow ∨ fault = .constraint ∨ fault = .missingOccupancy

@[simp] theorem broken_refused (error : ContractError) : ¬ (QueueFault.refused error).Broken := by
  simp [QueueFault.Broken]

namespace Queue
variable {q q' : Queue} {forced forced' : List String} {id : String} {next : QueueHoldState}
variable {kind : Option QueueHoldReleaseKind} {sampled now : Nat} {a a' old new : AttemptSnapshot}

theorem ensures_check {α : Type} {fault : QueueFault → Prop} {x : Result α} {post : α → Prop}
    (refusal : ∀ e, ¬ fault (.refused e)) :
    Ensures fault (check x) post ↔ ∀ a, x = .ok a → post a := by
  cases x with
  | error e => simp [check, Except.mapError, refusal]
  | ok a => simp [check, Except.mapError]

@[simp] theorem unbroken_check {α : Type} {x : Result α} {post : α → Prop} :
    Ensures QueueFault.Broken (check x) post ↔ ∀ a, x = .ok a → post a :=
  ensures_check broken_refused

@[simp] theorem solvent_check {α : Type} {x : Result α} {post : α → Prop} :
    Ensures (· = QueueFault.underflow) (check x) post ↔ ∀ a, x = .ok a → post a :=
  ensures_check (by simp)

structure Accounted (q : Queue) : Prop where
  unique : Table.Unique QueueHold.attemptId q.holds
  unenrolled : q.policy = none → q.holds = []
  occupied : ∀ p, q.policy = some p → p.occupied = q.holds.countP QueueHold.isOpen
  uncertain : ∀ p, q.policy = some p → p.uncertain = q.holds.countP QueueHold.isUncertain
  policy : ∀ p, q.policy = some p → p.Constrained
  holds : ∀ h ∈ q.holds, h.Sound

/-- What the attempt occupies is held, unless the hold was taken from it by force. -/
structure CoveredAt (forced : List String) (holds : List QueueHold) (a : AttemptSnapshot) : Prop where
  held : a.Outstanding → ∃ h ∈ holds, h.attemptId = a.id ∧ (h.state = .released → a.id ∈ forced)
  stopping : a.state = .active → ∀ h ∈ holds, h.attemptId = a.id → h.state = .uncertain →
    h.stopRequestedAt.isSome = true

structure Touched (q : Queue) (id : String) (q' : Queue) : Prop where
  accounted : Accounted q'
  tasks : q'.tasks = q.tasks
  enrolled : q'.policy.isSome = q.policy.isSome
  final : ∀ h ∈ q.holds, h.state = .released → h ∈ q'.holds
  others : ∀ h ∈ q.holds, h.attemptId ≠ id → h ∈ q'.holds
  source : ∀ h' ∈ q'.holds, h'.attemptId ≠ id → h' ∈ q.holds

/-- The hold of one attempt has come to `next`, unless it was released before. -/
structure Transitioned (q : Queue) (id : String) (next : QueueHoldState) (q' : Queue) : Prop
    extends Touched q id q' where
  arrived : ∀ h ∈ q.holds, h.attemptId = id → ∃ h' ∈ q'.holds, h'.attemptId = id ∧
    (h'.state = next ∨ h' = h ∧ h.state = .released)
  origin : ∀ h' ∈ q'.holds, h' ∈ q.holds ∨ h'.attemptId = id ∧ h'.state = next ∧
    ∃ h ∈ q.holds, h.attemptId = id ∧ h'.stopRequestedAt = h.stopRequestedAt

theorem Accounted.untouched (accounted : Accounted q) (id : String) : Touched q id q where
  accounted := accounted
  tasks := rfl
  enrolled := rfl
  final := fun _ mem _ => mem
  others := fun _ mem _ => mem
  source := fun _ mem _ => mem

theorem Accounted.same (accounted : Accounted q)
    (there : ∀ h ∈ q.holds, h.attemptId = id → h.state = .released ∨ h.state = next) :
    Transitioned q id next q where
  toTouched := accounted.untouched id
  arrived := fun h mem same => ⟨h, mem, same, (there h mem same).symm.imp_right fun ended => ⟨rfl, ended⟩⟩
  origin := fun _ mem => .inl mem

theorem moved_spec {p : QueuePolicyRow} {h : QueueHold} (accounted : Accounted q)
    (enrolled : q.policy = some p) (mem : h ∈ q.holds) (isOpen : h.state ≠ .released)
    (elsewhere : h.state ≠ next) (kind : Option QueueHoldReleaseKind) (sampled : Nat) :
    Ensures QueueFault.Broken (p.moved h.state next) fun p' => p'.Constrained ∧
      p'.occupied = (Table.put QueueHold.attemptId (h.moved next kind sampled) q.holds).countP
        QueueHold.isOpen ∧
      p'.uncertain = (Table.put QueueHold.attemptId (h.moved next kind sampled) q.holds).countP
        QueueHold.isUncertain := by
  have constrained := accounted.policy p enrolled
  have occupied := accounted.occupied p enrolled
  have uncertain := accounted.uncertain p enrolled
  have below :=
    QueueHold.uncertain_le_open (Table.put QueueHold.attemptId (h.moved next kind sampled) q.holds)
  have same : h.attemptId = (h.moved next kind sampled).attemptId := rfl
  have openCount := Table.countP_put accounted.unique mem same QueueHold.isOpen
  have uncertainCount := Table.countP_put accounted.unique mem same QueueHold.isUncertain
  have wasOpen : h.isOpen = true := decide_eq_true isOpen
  rw [QueueHold.isOpen_moved, wasOpen] at openCount
  rw [QueueHold.isUncertain_moved, QueueHold.isUncertain] at uncertainCount
  simp only [decide_eq_true_eq, if_true] at openCount uncertainCount
  simp only [QueuePolicyRow.moved, ensures_bind, ensures_okOr, ensures_pure, checkedSub_eq_some]
  have counted : (if next = .released then 1 else 0) + (if next ≠ .released then 1 else 0) = 1 := by
    by_cases ends : next = .released
    · simp [ends]
    · simp [ends]
  have apart : (if h.state = .uncertain then 1 else 0) + (if next = .uncertain then 1 else 0) ≤ 1 := by
    by_cases was : h.state = .uncertain
    · have isNot : next ≠ .uncertain := fun e => elsewhere (was.trans e.symm)
      simp [was, isNot]
    · rw [if_neg was]
      split <;> omega
  refine ⟨fun negative => ?_, fun n occ => ⟨fun negative => ?_, fun m unc => ⟨?_, ?_, ?_⟩⟩⟩
  · have := checkedSub_eq_none.mp negative
    omega
  · have := checkedSub_eq_none.mp negative
    omega
  · exact ⟨constrained.revision, constrained.maximum, constrained.timeout, constrained.grace,
      show m + (if next = .uncertain then 1 else 0) ≤ n by omega⟩
  · omega
  · omega

theorem transition_spec (accounted : Accounted q)
    (forward : ∀ h ∈ q.holds, h.attemptId = id → h.state ≠ .released → h.state ≠ next →
      h.state.rank < next.rank)
    (kinds : next = .released ↔ kind.isSome = true)
    (timely : kind = some .timeout → ∀ h ∈ q.holds, h.attemptId = id → h.state ≠ .released →
      ∃ force ∈ h.forceAt, force ≤ sampled) :
    Ensures QueueFault.Broken (q.transition id next kind sampled) fun r =>
      Transitioned q id next r.1 := by
  unfold transition
  cases found : Table.find QueueHold.attemptId id q.holds with
  | none =>
    exact accounted.same fun h mem same => absurd same (Table.find_eq_none.mp found h mem)
  | some h =>
    have mem := Table.find_mem found
    have named : h.attemptId = id := Table.find_key found
    have only : ∀ h' ∈ q.holds, h'.attemptId = id → h' = h := fun h' mem' same =>
      Table.eq_of_key accounted.unique mem' mem (same.trans named.symm)
    simp only [ensures_ite, ensures_ok, ensures_bind, ensures_refuse, ensures_okOr, ensures_pure,
      not_or]
    refine ⟨fun still => accounted.same fun h' mem' same => only h' mem' same ▸ still, ?_⟩
    rintro ⟨isOpen, elsewhere⟩
    have sound : (h.moved next kind sampled).Sound := (accounted.holds h mem).moved
      (forward h mem named isOpen elsewhere) kinds fun late => timely late h mem named isOpen
    refine ⟨fun unconstrained => absurd sound.constrained unconstrained, fun _ => ⟨fun absent => ?_, ?_⟩⟩
    · rw [accounted.unenrolled absent] at mem
      simp at mem
    · intro p enrolled
      refine (moved_spec accounted enrolled mem isOpen elsewhere kind sampled).mono ?_
      rintro p' ⟨constrained, occupied, uncertain⟩
      refine ⟨fun unconstrained => absurd constrained unconstrained, fun _ => ?_⟩
      have same : h.attemptId = (h.moved next kind sampled).attemptId := rfl
      refine ⟨⟨?accounted, rfl, ?enrolled, ?final, ?others, ?source⟩, ?arrived, ?origin⟩
      case accounted =>
        constructor
        case unique => exact Table.unique_put accounted.unique
        case unenrolled => simp
        case occupied => simpa using occupied
        case uncertain => simpa using uncertain
        case policy => simpa using constrained
        case holds =>
          intro h' mem'
          obtain rfl | ⟨mem', -⟩ := Table.mem_put mem'
          · exact sound
          · exact accounted.holds h' mem'
      case enrolled => simp [enrolled]
      case final =>
        intro h' mem' ended
        refine Table.mem_put_other mem' fun e => ?_
        rw [only h' mem' (e.trans named)] at ended
        exact isOpen ended
      case others =>
        intro h' mem' other
        exact Table.mem_put_other mem' fun e => other (e.trans named)
      case arrived =>
        intro h' mem' _
        exact ⟨_, Table.mem_put_self mem same, named, .inl rfl⟩
      case source =>
        intro h' mem' other
        obtain rfl | ⟨mem', -⟩ := Table.mem_put mem'
        · exact absurd named other
        · exact mem'
      case origin =>
        intro h' mem'
        obtain rfl | ⟨mem', -⟩ := Table.mem_put mem'
        · exact .inr ⟨named, rfl, h, mem, named, rfl⟩
        · exact .inl mem'

theorem moveHold_spec (accounted : Accounted q)
    (forward : ∀ h ∈ q.holds, h.attemptId = id → h.state ≠ .released → h.state ≠ next →
      h.state.rank < next.rank)
    (kinds : next = .released ↔ kind.isSome = true)
    (timely : kind = some .timeout → ∀ h ∈ q.holds, h.attemptId = id → h.state ≠ .released →
      ∃ force ∈ h.forceAt, force ≤ now) :
    Ensures QueueFault.Broken (q.moveHold id next kind now) (Transitioned q id next) := by
  simp only [moveHold, ensures_bind, ensures_refuse, ensures_pure]
  refine (transition_spec accounted forward kinds timely).mono fun r done => ?_
  exact ⟨fun _ => broken_refused _, fun _ => done⟩

theorem Touched.covered_other (done : Touched q id q') (other : a.id ≠ id)
    (covered : CoveredAt forced q.holds a) : CoveredAt forced q'.holds a where
  held := by
    intro outstanding
    obtain ⟨h, mem, same, released⟩ := covered.held outstanding
    exact ⟨h, done.others h mem (same ▸ other), same, released⟩
  stopping := by
    intro active h mem same uncertain
    exact covered.stopping active h (done.source h mem (same ▸ other)) same uncertain

/-- The attempt whose hold was changed is covered by what the hold has become. -/
theorem Transitioned.covered_self (done : Transitioned q a.id next q')
    (covered : CoveredAt forced q.holds a) (same : a'.id = a.id)
    (still : a'.Outstanding → a.Outstanding)
    (released : next = .released → a'.Outstanding → a.id ∈ forced)
    (stops : next = .uncertain → a'.state = .active → ∀ h ∈ q.holds, h.attemptId = a.id →
      h.stopRequestedAt.isSome = true) (was : a'.state = .active → a.state = .active) :
    CoveredAt forced q'.holds a' where
  held := by
    intro outstanding
    obtain ⟨h, mem, named, wasReleased⟩ := covered.held (still outstanding)
    obtain ⟨h', mem', named', came⟩ := done.arrived h mem named
    refine ⟨h', mem', named'.trans same.symm, fun ended => ?_⟩
    rw [same]
    obtain came | ⟨rfl, ended⟩ := came
    · exact released (came.symm.trans ended) outstanding
    · exact wasReleased ended
  stopping := by
    intro active h' mem' named uncertain
    rw [same] at named
    obtain old | ⟨-, came, h, mem, namedOld, stop⟩ := done.origin h' mem'
    · exact covered.stopping (was active) h' old named uncertain
    · rw [stop]
      exact stops (came.symm.trans uncertain) active h mem namedOld

end Queue
end Ledgence
