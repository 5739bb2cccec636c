import Ledgence.Core.Authority

/-! A lease tracker over all its calls: its bounds move one way only, and what it lets through lies
within every reply that it took. -/
open Kit Kit.Checked

namespace Ledgence

namespace LeaseReply

def leaseEnd (r : LeaseReply) : Nat :=
  r.started + (r.authority.remainingMs - leaseSafetyMarginMs) * nanosPerMs

def executionEnd (r : LeaseReply) : Nat :=
  r.started + (r.authority.executionRemainingMs - leaseSafetyMarginMs) * nanosPerMs

end LeaseReply

def LeaseState.Final (state : LeaseState) : Prop :=
  state = .cancelled ∨ state = .ownershipLost ∨ state = .expired

namespace LeaseTracker

def Live (t : LeaseTracker) : Prop :=
  t.state = .unconfirmed ∨ t.state = .active

def Adopts (top : Nat) (t : LeaseTracker) (op : TrackerOp) (r : LeaseReply) : Prop :=
  op = .apply r ∧ ((t.apply top r.authority r.started r.received).2 = .ok .applied ∨
    (t.apply top r.authority r.started r.received).2 = .ok .replay)

def Applied (top : Nat) : LeaseTracker → List TrackerOp → LeaseReply → Prop
  | _, [], _ => False
  | t, op :: ops, r => Adopts top t op r ∨ Applied top (t.step top op) ops r

variable {top : Nat} {t u v : LeaseTracker}

theorem live_or_final (t : LeaseTracker) : t.Live ∨ t.state.Final := by
  unfold Live LeaseState.Final
  cases t.state <;> simp

theorem not_live_of_final (final : t.state.Final) : ¬ t.Live := by
  unfold Live
  obtain same | same | same := final
  all_goals
    rw [same]
    simp

/- What one call does. -/

def noLater (old : Option Nat) (new : Nat) : Nat :=
  (old.map (min · new)).getD new

theorem noLater_le (old : Option Nat) (new : Nat) : noLater old new ≤ new := by
  cases old with
  | none => exact le_rfl
  | some old => exact min_le_right old new

theorem noLater_some (old new : Nat) : noLater (some old) new = min old new := rfl

def execution (t : LeaseTracker) (r : LeaseReply) : Nat :=
  noLater t.executionDeadline r.executionEnd

def bound (t : LeaseTracker) (r : LeaseReply) : Nat :=
  min r.leaseEnd (t.execution r)

def taken (t : LeaseTracker) (r : LeaseReply) : LeaseTracker :=
  if t.sequence = some r.authority.renewSequence then
    { t with
      executionDeadline := some (t.execution r)
      deadline := some (noLater t.deadline (t.bound r))
      dispatchAllowed := t.dispatchAllowed && r.authority.dispatchAllowed }
  else
    { t with
      executionDeadline := some (t.execution r)
      deadline := some (t.bound r)
      sequence := some r.authority.renewSequence
      dispatchAllowed := r.authority.dispatchAllowed
      state := .active }

structure Takes (top : Nat) (t : LeaseTracker) (r : LeaseReply) : Prop where
  owned : r.authority.owner = t.owner
  started : r.started ≤ r.received
  uncancelled : r.authority.cancelRequested = false
  remaining : r.authority.remainingMs ≠ 0
  newer : ∀ n, t.sequence = some n → n ≤ r.authority.renewSequence
  confirmed : ¬ (r.authority.renewSequence = 0 ∧ r.authority.dispatchAllowed = true)
  leaseEnd : r.leaseEnd ≤ top
  executionEnd : r.executionEnd ≤ top

def Stops (top : Nat) (t : LeaseTracker) (r : LeaseReply) : Prop :=
  (∃ d, t.deadline = some d ∧ d ≤ r.received) ∨ r.authority.cancelRequested = true ∨
    r.authority.remainingMs = 0 ∨ (Takes top t r ∧ t.bound r ≤ r.received)

inductive Answered (top : Nat) (t : LeaseTracker) (r : LeaseReply) : LeaseResult LeaseUpdate → Prop
  | kept {result : Except LeaseTrackerError LeaseUpdate} (applied : result ≠ .ok .applied)
    (replay : result ≠ .ok .replay) : Answered top t r (t, result)
  | stopped {state : LeaseState} {error : LeaseTrackerError} (live : t.Live) (final : state.Final)
    (named : error = .cancelled ∨ error = .ownershipLost ∨ error = .expired)
    (reason : Stops top t r) : Answered top t r (t.stop state, .error error)
  | taken {update : LeaseUpdate} (live : t.Live) (takes : Takes top t r)
    (early : r.received < t.bound r) (updated : update = .applied ∨ update = .replay) :
    Answered top t r (t.taken r, .ok update)

theorem candidate_lease (r : LeaseReply) : candidate top r.started r.authority.remainingMs =
    if r.leaseEnd ≤ top then some r.leaseEnd else none := rfl

theorem candidate_execution (r : LeaseReply) :
    candidate top r.started r.authority.executionRemainingMs =
      if r.executionEnd ≤ top then some r.executionEnd else none := rfl

theorem adopt_answered {r : LeaseReply} (live : t.Live) (takes : Takes top t r) :
    Answered top t r (t.adopt r.authority r.leaseEnd r.executionEnd r.received) := by
  have same : t.adopt r.authority r.leaseEnd r.executionEnd r.received =
      if t.bound r ≤ r.received then (t.stop .expired, .error .expired)
      else if t.sequence = some r.authority.renewSequence then (t.taken r, .ok .replay)
      else (t.taken r, .ok .applied) := by
    unfold taken
    by_cases again : t.sequence = some r.authority.renewSequence
    · rw [if_pos again, if_pos again, adopt, if_pos again]
      rfl
    · rw [if_neg again, if_neg again, adopt, if_neg again]
      rfl
  rw [same]
  split_ifs with late again
  · exact .stopped live (.inr (.inr rfl)) (.inr (.inr rfl)) (.inr (.inr (.inr ⟨takes, late⟩)))
  · exact .taken live takes (Nat.lt_of_not_le late) (.inr rfl)
  · exact .taken live takes (Nat.lt_of_not_le late) (.inl rfl)

theorem receive_answered {r : LeaseReply} (live : t.Live) (owned : r.authority.owner = t.owner) :
    Answered top t r (t.receive top r.authority r.started r.received) := by
  unfold receive
  split_ifs with early cancelled lost older unconfirmed
  · exact .kept (by simp) (by simp)
  · exact .stopped live (.inl rfl) (.inl rfl) (.inr (.inl cancelled))
  · exact .stopped live (.inr (.inl rfl)) (.inr (.inl rfl)) (.inr (.inr (.inl lost)))
  · exact .kept (by simp) (by simp)
  · exact .kept (by simp) (by simp)
  · rw [candidate_lease, candidate_execution]
    by_cases leaseEnd : r.leaseEnd ≤ top
    · by_cases executionEnd : r.executionEnd ≤ top
      · have newer : ∀ n, t.sequence = some n → n ≤ r.authority.renewSequence := by
          intro n found
          by_contra less
          exact older (by simpa [found] using less)
        rw [if_pos leaseEnd, if_pos executionEnd]
        exact adopt_answered live ⟨owned, Nat.le_of_not_lt early, Bool.eq_false_iff.mpr cancelled,
          lost, newer, unconfirmed, leaseEnd, executionEnd⟩
      · rw [if_pos leaseEnd, if_neg executionEnd]
        exact .kept (by simp) (by simp)
    · rw [if_neg leaseEnd]
      exact .kept (by simp) (by simp)

theorem checkStopped_live (live : t.Live) : t.checkStopped = .ok () := by
  unfold checkStopped
  obtain same | same := live
  all_goals rw [same]

theorem checkStopped_final (final : t.state.Final) : ∃ e, t.checkStopped = .error e := by
  unfold checkStopped
  obtain same | same | same := final
  all_goals
    rw [same]
    exact ⟨_, rfl⟩

theorem observe_cases (t : LeaseTracker) (now : Nat) : t.observe now = t ∨
    t.Live ∧ (∃ d, t.deadline = some d ∧ d ≤ now) ∧ t.observe now = t.stop .expired := by
  by_cases late : t.state = .active ∧ t.deadline.any (· ≤ now)
  · refine .inr ⟨.inr late.1, ?_, if_pos late⟩
    have past := late.2
    cases found : t.deadline with
    | none =>
      rw [found] at past
      cases past
    | some d =>
      rw [found] at past
      exact ⟨d, rfl, of_decide_eq_true past⟩
  · exact .inl (if_neg late)

theorem apply_owned {r : LeaseReply} (owned : r.authority.owner = t.owner) :
    t.apply top r.authority r.started r.received =
      match (t.observe r.received).checkStopped with
      | .error e => (t.observe r.received, .error e)
      | .ok _ => (t.observe r.received).receive top r.authority r.started r.received :=
  if_neg (not_not.mpr owned)

theorem apply_answered (top : Nat) (t : LeaseTracker) (r : LeaseReply) :
    Answered top t r (t.apply top r.authority r.started r.received) := by
  by_cases owned : r.authority.owner = t.owner
  · rw [apply_owned owned]
    obtain same | ⟨live, late, expired⟩ := observe_cases t r.received
    · rw [same]
      obtain live | final := live_or_final t
      · rw [checkStopped_live live]
        exact receive_answered live owned
      · obtain ⟨e, stopped⟩ := checkStopped_final final
        rw [stopped]
        exact .kept (by simp) (by simp)
    · rw [expired]
      exact .stopped live (.inr (.inr rfl)) (.inr (.inr rfl)) (.inl late)
  · rw [apply, if_pos owned]
    exact .kept (by simp) (by simp)

inductive Moved (top : Nat) (t : LeaseTracker) (op : TrackerOp) : LeaseTracker → Prop
  | kept (none : ∀ r, ¬ Adopts top t op r) : Moved top t op t
  | stopped {state : LeaseState} (none : ∀ r, ¬ Adopts top t op r) (live : t.Live)
    (final : state.Final) : Moved top t op (t.stop state)
  | taken {r : LeaseReply} (same : op = .apply r) (live : t.Live) (takes : Takes top t r)
    (early : r.received < t.bound r) : Moved top t op (t.taken r)

theorem not_adopts {op : TrackerOp} (other : ∀ r, op ≠ .apply r) (r : LeaseReply) :
    ¬ Adopts top t op r :=
  fun adopts => other r adopts.1

theorem observe_moved {op : TrackerOp} (other : ∀ r, op ≠ .apply r) (now : Nat) :
    Moved top t op (t.observe now) := by
  obtain same | ⟨live, -, expired⟩ := observe_cases t now
  · rw [same]
    exact .kept (not_adopts other)
  · rw [expired]
    exact .stopped (not_adopts other) live (.inr (.inr rfl))

theorem apply_moved (top : Nat) (t : LeaseTracker) (r : LeaseReply) :
    Moved top t (.apply r) (t.step top (.apply r)) := by
  have answered := apply_answered top t r
  have mine : ∀ s, Adopts top t (.apply r) s →
      (t.apply top r.authority r.started r.received).2 = .ok .applied ∨
        (t.apply top r.authority r.started r.received).2 = .ok .replay := by
    rintro s ⟨same, result⟩
    cases same
    exact result
  rw [step]
  generalize t.apply top r.authority r.started r.received = result at answered mine
  cases answered with
  | kept applied replay => exact .kept fun s adopts => (mine s adopts).elim applied replay
  | stopped live final => exact .stopped (fun s adopts => by simpa using mine s adopts) live final
  | taken live takes early => exact .taken rfl live takes early

theorem step_moved (top : Nat) (t : LeaseTracker) (op : TrackerOp) :
    Moved top t op (t.step top op) := by
  cases op with
  | apply r => exact apply_moved top t r
  | observe now => exact observe_moved (by simp) now
  | checkDispatch now => exact observe_moved (by simp) now
  | cancel =>
    have none : ∀ r, ¬ Adopts top t .cancel r := not_adopts (by simp)
    rw [step, cancel]
    split_ifs with live
    · exact .stopped none live (.inl rfl)
    · exact .kept none
  | markOwnershipLost owner =>
    have none : ∀ r, ¬ Adopts top t (.markOwnershipLost owner) r := not_adopts (by simp)
    rw [step, markOwnershipLost]
    split_ifs with foreign live
    · exact .kept none
    · exact .stopped none live (.inr (.inl rfl))
    · exact .kept none

theorem taken_execution (r : LeaseReply) :
    (t.taken r).executionDeadline = some (t.execution r) := by
  unfold taken
  split_ifs <;> rfl

theorem taken_sequence (r : LeaseReply) :
    (t.taken r).sequence = some r.authority.renewSequence := by
  unfold taken
  split_ifs with same
  · exact same
  · rfl

theorem taken_owner (r : LeaseReply) : (t.taken r).owner = t.owner := by
  unfold taken
  split_ifs <;> rfl

/- What only moves one way. -/

structure Onward (t u : LeaseTracker) : Prop where
  execution : ∀ d, t.executionDeadline = some d → ∃ e, u.executionDeadline = some e ∧ e ≤ d
  sequence : ∀ n, t.sequence = some n → ∃ m, u.sequence = some m ∧ n ≤ m
  deadline : u.sequence = t.sequence → ∀ d, t.deadline = some d →
    ∃ e, u.deadline = some e ∧ e ≤ d
  dispatch : u.sequence = t.sequence → t.dispatchAllowed = false → u.dispatchAllowed = false
  final : t.state.Final → u = t

theorem Onward.refl (t : LeaseTracker) : Onward t t where
  execution d h := ⟨d, h, le_rfl⟩
  sequence n h := ⟨n, h, le_rfl⟩
  deadline _ d h := ⟨d, h, le_rfl⟩
  dispatch _ h := h
  final _ := rfl

theorem Onward.sequence_between (first : Onward t u) (second : Onward u v)
    (same : v.sequence = t.sequence) : u.sequence = t.sequence ∧ v.sequence = u.sequence := by
  have between : u.sequence = t.sequence := by
    cases found : u.sequence with
    | none =>
      cases start : t.sequence with
      | none => rfl
      | some n =>
        obtain ⟨m, some, -⟩ := first.sequence n start
        rw [found] at some
        cases some
    | some m =>
      obtain ⟨l, last, up⟩ := second.sequence m found
      rw [same] at last
      obtain ⟨k, again, low⟩ := first.sequence l last
      rw [found, Option.some.injEq] at again
      rw [last, Option.some.injEq]
      omega
  exact ⟨between, same.trans between.symm⟩

theorem Onward.trans (first : Onward t u) (second : Onward u v) : Onward t v where
  execution d h := by
    obtain ⟨e, found, le⟩ := first.execution d h
    obtain ⟨f, last, low⟩ := second.execution e found
    exact ⟨f, last, low.trans le⟩
  sequence n h := by
    obtain ⟨m, found, le⟩ := first.sequence n h
    obtain ⟨l, last, up⟩ := second.sequence m found
    exact ⟨l, last, le.trans up⟩
  deadline same d h := by
    obtain ⟨left, right⟩ := first.sequence_between second same
    obtain ⟨e, found, le⟩ := first.deadline left d h
    obtain ⟨f, last, low⟩ := second.deadline right e found
    exact ⟨f, last, low.trans le⟩
  dispatch same h := by
    obtain ⟨left, right⟩ := first.sequence_between second same
    exact second.dispatch right (first.dispatch left h)
  final h := by
    have same := first.final h
    rw [second.final (same ▸ h), same]

theorem onward_taken {r : LeaseReply} (live : t.Live) (takes : Takes top t r) :
    Onward t (t.taken r) where
  execution d h := by
    refine ⟨_, taken_execution r, ?_⟩
    rw [execution, h, noLater_some]
    exact min_le_left _ _
  sequence n h := ⟨_, taken_sequence r, takes.newer n h⟩
  deadline same d h := by
    rw [taken_sequence] at same
    unfold taken
    rw [if_pos same.symm, h, noLater_some]
    exact ⟨_, rfl, min_le_left _ _⟩
  dispatch same h := by
    rw [taken_sequence] at same
    unfold taken
    rw [if_pos same.symm, h]
    rfl
  final h := absurd live (not_live_of_final h)

theorem onward_step (top : Nat) (t : LeaseTracker) (op : TrackerOp) : Onward t (t.step top op) := by
  have moved := step_moved top t op
  generalize t.step top op = u at moved
  cases moved with
  | kept => exact .refl t
  | stopped _ live final =>
    exact ⟨fun d h => ⟨d, h, le_rfl⟩, fun n h => ⟨n, h, le_rfl⟩, fun _ d h => ⟨d, h, le_rfl⟩,
      fun _ _ => rfl, fun h => absurd live (not_live_of_final h)⟩
  | taken _ live takes => exact onward_taken live takes

theorem onward_run (top : Nat) (t : LeaseTracker) (ops : List TrackerOp) :
    Onward t (t.run top ops) := by
  induction ops generalizing t with
  | nil => exact .refl t
  | cons op ops ih => exact (onward_step top t op).trans (ih (t.step top op))

/- What a tracker owes to the replies that it took. -/

structure Follows (top : Nat) (applied : LeaseReply → Prop) (t : LeaseTracker) : Prop where
  ordered : ∀ e, t.executionDeadline = some e → ∃ d, t.deadline = some d ∧ d ≤ e
  reached : ∀ r, applied r → ∃ n, t.sequence = some n ∧ r.authority.renewSequence ≤ n
  lease : ∀ r, applied r → t.sequence = some r.authority.renewSequence →
    (t.dispatchAllowed = true → r.authority.dispatchAllowed = true) ∧
      ∃ d, t.deadline = some d ∧ d ≤ r.leaseEnd
  execution : ∀ r, applied r → ∃ e, t.executionDeadline = some e ∧ e ≤ r.executionEnd
  checked : ∀ r, applied r → r.authority.owner = t.owner ∧ r.started ≤ r.received ∧
    r.authority.cancelRequested = false ∧ r.authority.remainingMs ≠ 0

theorem Follows.congr {p q : LeaseReply → Prop} (follows : Follows top p t)
    (same : ∀ r, q r → p r) : Follows top q t where
  ordered := follows.ordered
  reached r h := follows.reached r (same r h)
  lease r h := follows.lease r (same r h)
  execution r h := follows.execution r (same r h)
  checked r h := follows.checked r (same r h)

theorem follows_new (owner : LeaseOwner) : Follows top (fun _ => False) (new owner) where
  ordered e h := by cases h
  reached r h := h.elim
  lease r h := h.elim
  execution r h := h.elim
  checked r h := h.elim

theorem Follows.stop {applied : LeaseReply → Prop} (follows : Follows top applied t)
    (state : LeaseState) : Follows top applied (t.stop state) where
  ordered := follows.ordered
  reached := follows.reached
  lease r h same := ⟨fun allowed => absurd allowed (by simp [LeaseTracker.stop]),
    (follows.lease r h same).2⟩
  execution := follows.execution
  checked := follows.checked

/-- The deadline after a reply is no later than its bound, nor than the one before it, where the
sequence is the same. -/
theorem taken_deadline (t : LeaseTracker) (r : LeaseReply) :
    ∃ d, (t.taken r).deadline = some d ∧ d ≤ t.bound r := by
  unfold LeaseTracker.taken
  split_ifs
  · exact ⟨_, rfl, noLater_le _ _⟩
  · exact ⟨_, rfl, le_rfl⟩

theorem taken_dispatch {r : LeaseReply} (h : (t.taken r).dispatchAllowed = true) :
    r.authority.dispatchAllowed = true := by
  unfold LeaseTracker.taken at h
  split_ifs at h
  · exact (Bool.and_eq_true_iff.mp h).2
  · exact h

theorem Follows.taken_lease {applied : LeaseReply → Prop} (follows : Follows top applied t)
    {r s : LeaseReply} (takes : Takes top t r) (h : applied s)
    (same : r.authority.renewSequence = s.authority.renewSequence) :
    ((t.taken r).dispatchAllowed = true → s.authority.dispatchAllowed = true) ∧
      ∃ d, (t.taken r).deadline = some d ∧ d ≤ s.leaseEnd := by
  obtain ⟨n, found, le⟩ := follows.reached s h
  have up : n ≤ r.authority.renewSequence := takes.newer n found
  have current : t.sequence = some r.authority.renewSequence := by
    rw [found, Option.some.injEq]
    omega
  obtain ⟨allows, d, deadline, within⟩ := follows.lease s h (by rw [current, same])
  unfold LeaseTracker.taken
  rw [if_pos current, deadline, noLater_some]
  refine ⟨fun allowed => allows (Bool.and_eq_true_iff.mp allowed).1, _, rfl, ?_⟩
  exact (min_le_left _ _).trans within

theorem Follows.taken {applied : LeaseReply → Prop} (follows : Follows top applied t)
    {r : LeaseReply} (takes : Takes top t r) :
    Follows top (fun s => s = r ∨ applied s) (t.taken r) where
  ordered e h := by
    obtain ⟨d, found, le⟩ := taken_deadline t r
    rw [taken_execution, Option.some.injEq] at h
    exact ⟨d, found, h ▸ le.trans (min_le_right _ _)⟩
  reached s h := by
    refine ⟨_, taken_sequence r, ?_⟩
    obtain rfl | before := h
    · exact le_rfl
    · obtain ⟨n, found, le⟩ := follows.reached s before
      exact le.trans (takes.newer n found)
  lease s h same := by
    obtain rfl | before := h
    · obtain ⟨d, found, le⟩ := taken_deadline t s
      exact ⟨taken_dispatch, d, found, le.trans (min_le_left _ _)⟩
    · rw [taken_sequence, Option.some.injEq] at same
      exact follows.taken_lease takes before same
  execution s h := by
    refine ⟨_, taken_execution r, ?_⟩
    obtain rfl | before := h
    · exact noLater_le _ _
    · obtain ⟨e, found, le⟩ := follows.execution s before
      rw [LeaseTracker.execution, found, noLater_some]
      exact (min_le_left _ _).trans le
  checked s h := by
    rw [taken_owner]
    obtain rfl | before := h
    · exact ⟨takes.owned, takes.started, takes.uncancelled, takes.remaining⟩
    · exact follows.checked s before

theorem Follows.step {applied : LeaseReply → Prop} (follows : Follows top applied t)
    (op : TrackerOp) :
    Follows top (fun r => Adopts top t op r ∨ applied r) (t.step top op) := by
  have moved := step_moved top t op
  generalize t.step top op = u at moved
  cases moved with
  | kept none => exact follows.congr fun r h => h.resolve_left (none r)
  | stopped none => exact (follows.stop _).congr fun r h => h.resolve_left (none r)
  | taken same live takes =>
    refine (follows.taken takes).congr fun s h => h.imp_left fun adopts => ?_
    have this := same.symm.trans adopts.1
    cases this
    rfl

theorem Follows.run {applied : LeaseReply → Prop} (follows : Follows top applied t)
    (ops : List TrackerOp) :
    Follows top (fun r => Applied top t ops r ∨ applied r) (t.run top ops) := by
  induction ops generalizing t applied with
  | nil => exact follows.congr fun r h => h.resolve_left id
  | cons op ops ih =>
    refine (ih (follows.step op)).congr fun r h => ?_
    obtain (now | later) | before := h
    · exact .inr (.inl now)
    · exact .inl later
    · exact .inr (.inr before)

theorem dispatchAllowed_of_passes {now : Nat} {answer : Unit}
    (passes : (t.checkDispatch now).2 = .ok answer) : t.dispatchAllowed = true := by
  simp only [checkDispatch, bind_eq_ok, refuse_eq_ok, exists_unit, Bool.not_eq_false] at passes
  obtain same | ⟨-, -, expired⟩ := observe_cases t now
  · rw [same] at passes
    exact passes.2.2
  · rw [expired] at passes
    cases passes.1

theorem Follows.dispatches {applied : LeaseReply → Prop} (follows : Follows top applied t)
    {now : Nat} {answer : Unit} (passes : (t.checkDispatch now).2 = .ok answer) :
    (∀ r, applied r → t.sequence = some r.authority.renewSequence →
      r.authority.dispatchAllowed = true ∧ now < r.leaseEnd) ∧
    ∀ r, applied r → now < r.executionEnd := by
  obtain ⟨-, before⟩ := checkDispatch_eq_ok passes
  have allowed := dispatchAllowed_of_passes passes
  refine ⟨fun r h same => ?_, fun r h => ?_⟩
  · obtain ⟨allows, d, found, le⟩ := follows.lease r h same
    exact ⟨allows allowed, (before d found).trans_le le⟩
  · obtain ⟨e, found, le⟩ := follows.execution r h
    obtain ⟨d, deadline, low⟩ := follows.ordered e found
    exact (before d deadline).trans_le (low.trans le)

/-- The bound of a reply that was taken over is not before the deadline. -/
theorem Follows.le_bound {applied : LeaseReply → Prop} (follows : Follows top applied t)
    {r : LeaseReply} (h : applied r) (current : t.sequence = some r.authority.renewSequence) :
    ∃ d, t.deadline = some d ∧ d ≤ t.bound r := by
  obtain ⟨-, d, found, within⟩ := follows.lease r h current
  obtain ⟨e, fixed, le⟩ := follows.execution r h
  obtain ⟨d', same, low⟩ := follows.ordered e fixed
  rw [found, Option.some.injEq] at same
  refine ⟨d, found, le_min within ?_⟩
  rw [LeaseTracker.execution, fixed, noLater_some, min_eq_left le]
  omega

theorem Follows.taken_again {applied : LeaseReply → Prop} (follows : Follows top applied t)
    {r : LeaseReply} (h : applied r) (current : t.sequence = some r.authority.renewSequence) :
    t.taken r = t := by
  obtain ⟨d, found, low⟩ := follows.le_bound h current
  obtain ⟨e, fixed, le⟩ := follows.execution r h
  have dispatch : (t.dispatchAllowed && r.authority.dispatchAllowed) = t.dispatchAllowed := by
    cases allowed : t.dispatchAllowed with
    | false => rfl
    | true => exact (follows.lease r h current).1 allowed
  have execution : t.execution r = e := by
    rw [LeaseTracker.execution, fixed, noLater_some, min_eq_left le]
  unfold LeaseTracker.taken
  rw [if_pos current, found, noLater_some, min_eq_left low, execution, dispatch, ← found, ← fixed]

/-- A reply that was taken over before changes nothing, as long as the deadline is ahead. -/
theorem Follows.again {applied : LeaseReply → Prop} (follows : Follows top applied t)
    {r : LeaseReply} (h : applied r) {now : Nat} (before : ∀ d, t.deadline = some d → now < d) :
    (t.apply top r.authority r.started now).1 = t := by
  have answered := apply_answered top t { r with received := now }
  simp only at answered
  generalize t.apply top r.authority r.started now = result at answered
  obtain ⟨n, found, le⟩ := follows.reached r h
  have current : Takes top t { r with received := now } →
      t.sequence = some r.authority.renewSequence := by
    intro takes
    rw [found, Option.some.injEq]
    exact le_antisymm (takes.newer n found) le
  cases answered with
  | kept => rfl
  | taken live takes =>
    have same : t.taken r = t := follows.taken_again h (current takes)
    exact same
  | stopped live final named reason =>
    obtain ⟨-, -, uncancelled, remaining⟩ := follows.checked r h
    obtain ⟨d, deadline, late⟩ | cancelled | lost | ⟨takes, late⟩ := reason
    · exact absurd (before d deadline) (Nat.not_lt.mpr late)
    · rw [uncancelled] at cancelled
      cases cancelled
    · exact absurd lost remaining
    · obtain ⟨d, deadline, low⟩ := follows.le_bound h (current takes)
      exact absurd ((before d deadline).trans_le low) (Nat.not_lt.mpr late)

/-- A call that is refused, or that an older reply makes, changes nothing. -/
theorem apply_unchanged {r : LeaseReply}
    (refused : (t.apply top r.authority r.started r.received).2 ∈
      [.error .wrongOwner, .error .invalidTiming, .error .invalidAuthority, .ok .ignoredOlder]) :
    (t.apply top r.authority r.started r.received).1 = t := by
  have answered := apply_answered top t r
  generalize t.apply top r.authority r.started r.received = result at answered refused
  cases answered with
  | kept => rfl
  | stopped live final named =>
    obtain rfl | rfl | rfl := named
    all_goals simp at refused
  | taken live takes early updated =>
    obtain rfl | rfl := updated
    all_goals simp at refused

theorem checkDispatch_final (final : t.state.Final) (now : Nat) :
    (t.checkDispatch now).2 ≠ .ok () := by
  intro passes
  obtain ⟨active, -⟩ := checkDispatch_eq_ok passes
  exact not_live_of_final final (.inr active)

theorem markOwnershipLost_unchanged {owner : LeaseOwner}
    (foreign : (t.markOwnershipLost owner).2 = .error .wrongOwner) :
    (t.markOwnershipLost owner).1 = t := by
  unfold markOwnershipLost at foreign ⊢
  split_ifs at foreign ⊢ with other
  rfl

/-- Over any calls that a tracker gets: what `ops` made of it, against what `later` does. -/
theorem tracker_moves_one_way (top : Nat) (owner : LeaseOwner) (ops later : List TrackerOp) :
    let t := (new owner).run top ops
    let u := t.run top later
    (∀ d, t.executionDeadline = some d → ∃ e, u.executionDeadline = some e ∧ e ≤ d) ∧
    (∀ n, t.sequence = some n → ∃ m, u.sequence = some m ∧ n ≤ m) ∧
    (u.sequence = t.sequence →
      (∀ d, t.deadline = some d → ∃ e, u.deadline = some e ∧ e ≤ d) ∧
        (t.dispatchAllowed = false → u.dispatchAllowed = false)) ∧
    (t.state.Final → u.state = t.state ∧ ∀ now, (u.checkDispatch now).2 ≠ .ok ()) ∧
    (∀ now, (t.checkDispatch now).2 = .ok () →
      (∀ r, Applied top (new owner) ops r → t.sequence = some r.authority.renewSequence →
        r.authority.dispatchAllowed = true ∧
          now < r.started + (r.authority.remainingMs - leaseSafetyMarginMs) * nanosPerMs) ∧
      ∀ q, Applied top (new owner) ops q →
        now < q.started + (q.authority.executionRemainingMs - leaseSafetyMarginMs) * nanosPerMs) ∧
    (∀ r, Applied top (new owner) ops r → ∀ now, (∀ d, t.deadline = some d → now < d) →
      (t.apply top r.authority r.started now).1 = t) ∧
    (∀ authority started now, (t.apply top authority started now).2 ∈
        [.error .wrongOwner, .error .invalidTiming, .error .invalidAuthority, .ok .ignoredOlder] →
      (t.apply top authority started now).1 = t) ∧
    ∀ other, (t.markOwnershipLost other).2 = .error .wrongOwner →
      (t.markOwnershipLost other).1 = t := by
  intro t u
  have onward : Onward t u := onward_run top t later
  have follows : Follows top (Applied top (new owner) ops) t :=
    ((follows_new owner).run ops).congr fun r h => .inl h
  refine ⟨onward.execution, onward.sequence, fun same => ⟨onward.deadline same,
    onward.dispatch same⟩, fun final => ?_, fun now passes => follows.dispatches passes,
    fun r h now before => follows.again h before, fun authority started now refused => ?_,
    fun other foreign => ?_⟩
  · rw [onward.final final]
    exact ⟨rfl, fun now => checkDispatch_final final now⟩
  · exact apply_unchanged (r := ⟨authority, started, now⟩) refused
  · exact markOwnershipLost_unchanged foreign

/- A worker that confirms its claim and then its first renewal. -/

def workerOwner : LeaseOwner :=
  ⟨⟨"tenant", "namespace"⟩, "task", "attempt", "lease", 1, "session", 0⟩

def confirmation (sequence : Nat) (allowed : Bool) : LeaseReply where
  authority := ⟨workerOwner, 1, 60000, 300000, sequence, false, allowed⟩
  started := sequence * 20000 * nanosPerMs
  received := sequence * 20000 * nanosPerMs

theorem tracker_moves_one_way_renewed :
    let t := (new workerOwner).run (10 ^ 18) [.apply (confirmation 0 false),
      .apply (confirmation 1 true)]
    t.sequence = some 1 ∧ 74999 * nanosPerMs < (confirmation 1 true).leaseEnd ∧
      (t.apply (10 ^ 18) (confirmation 1 true).authority (20000 * nanosPerMs)
        (74999 * nanosPerMs)).1 = t := by
  have sound := tracker_moves_one_way (10 ^ 18) workerOwner
    [.apply (confirmation 0 false), .apply (confirmation 1 true)] []
  have second : Applied (10 ^ 18) (new workerOwner)
      [.apply (confirmation 0 false), .apply (confirmation 1 true)] (confirmation 1 true) :=
    .inr (.inl ⟨rfl, .inl rfl⟩)
  refine ⟨rfl, ?_, ?_⟩
  · exact ((sound.2.2.2.2.1 (74999 * nanosPerMs) rfl).1 _ second rfl).2
  · have deadline : ((new workerOwner).run (10 ^ 18) [.apply (confirmation 0 false),
        .apply (confirmation 1 true)]).deadline = some (75000 * nanosPerMs) := by
      decide +kernel
    refine sound.2.2.2.2.2.1 _ second _ fun d h => ?_
    rw [deadline, Option.some.injEq] at h
    rw [← h, nanosPerMs]
    omega

end LeaseTracker
end Ledgence
