import Ledgence.Core.TrackerRuns
import Ledgence.Renewal.Monitor

/-! What each section under the lock does to a permission. -/
open Kit Kit.Checked

namespace Ledgence

namespace LeaseTracker
variable {top : Nat} {owner : LeaseOwner} {replies : List LeaseReply} {t : LeaseTracker}

def Replays (top : Nat) (owner : LeaseOwner) (replies : List LeaseReply) (t : LeaseTracker) : Prop :=
  t.Live → t = (new owner).run top (replies.map .apply)

def Timed (t : LeaseTracker) : Prop :=
  t.state = .active → t.executionDeadline.isSome = true

theorem not_live_stop {state : LeaseState} (ended : state ≠ .unconfirmed ∧ state ≠ .active) :
    ¬ (t.stop state).Live :=
  fun live => live.elim ended.1 ended.2

theorem Replays.observe (replays : Replays top owner replies t) (now : Nat) :
    Replays top owner replies (t.observe now) := by
  cases t.observe_cases now with
  | inl same => rwa [same]
  | inr late =>
    intro live
    rw [late.2.2] at live
    exact absurd live (not_live_stop (by decide))

theorem Timed.observe (timed : t.Timed) (now : Nat) : (t.observe now).Timed := by
  cases t.observe_cases now with
  | inl same => rwa [same]
  | inr late =>
    intro active
    rw [late.2.2] at active
    cases active

theorem checkStopped_of_not_live (dead : ¬ t.Live) : ∃ e, t.checkStopped = .error e := by
  unfold checkStopped
  split
  · exact ⟨_, rfl⟩
  · exact ⟨_, rfl⟩
  · exact ⟨_, rfl⟩
  · rename_i unconfirmed
    exact absurd (.inl unconfirmed) dead
  · rename_i active
    exact absurd (.inr active) dead

theorem apply_of_not_live (dead : ¬ t.Live) (authority : Authority) (started now : Nat) :
    (t.apply top authority started now).1 = t := by
  have still : t.observe now = t := by
    rw [LeaseTracker.observe, if_neg]
    rintro ⟨active, -⟩
    exact dead (.inr active)
  unfold LeaseTracker.apply
  split
  · rfl
  · obtain ⟨e, stopped⟩ := checkStopped_of_not_live dead
    simp only [still, stopped]

theorem Replays.apply (replays : Replays top owner replies t) (r : LeaseReply) :
    Replays top owner (replies ++ [r]) (t.apply top r.authority r.started r.received).1 := by
  intro live
  have before : t.Live := by
    by_contra dead
    rw [apply_of_not_live dead] at live
    exact dead live
  have same := replays before
  rw [List.map_append, run, List.foldl_append]
  change _ = step top ((new owner).run top (replies.map .apply)) (.apply r)
  rw [← same]
  rfl

theorem timed_adopt (t : LeaseTracker) (authority : Authority) (lease execution now : Nat) :
    (t.adopt authority lease execution now).1.Timed := by
  unfold LeaseTracker.adopt
  extract_lets executionDeadline candidate
  split
  · intro active
    cases active
  split
  · exact fun _ => rfl
  · exact fun _ => rfl

theorem Timed.apply (timed : t.Timed) (authority : Authority) (started now : Nat) :
    (t.apply top authority started now).1.Timed := by
  have observed := timed.observe now
  unfold LeaseTracker.apply
  split
  · exact timed
  extract_lets u
  split
  · exact observed
  unfold LeaseTracker.receive
  split
  · exact observed
  split
  · intro active
    cases active
  split
  · intro active
    cases active
  split
  · exact observed
  split
  · exact observed
  split
  · exact timed_adopt u authority _ _ now
  · exact observed

theorem checkDispatch_active {now : Nat} (passes : (t.checkDispatch now).2.isOk = true) :
    (t.observe now).state = .active := by
  obtain ⟨u, ok⟩ := exists_of_isOk passes
  have active := (checkDispatch_eq_ok ok).1
  cases t.observe_cases now with
  | inl same => rwa [same]
  | inr late =>
    simp [checkDispatch, late.2.2, stop, checkStopped] at ok

end LeaseTracker

namespace Renewal
namespace Held
variable {h h' k : Held}

structure Good (h : Held) : Prop where
  ready : h.permission.ready = true ↔ ∃ control, h.permission.phase = .confirmed control
  timed : h.permission.tracker.Timed

structure Onward (h h' : Held) : Prop where
  preparing : h'.permission.preparing = h.permission.preparing
  consumed : h.permission.consumed = true → h'.permission.consumed = true
  phase : h'.permission.phase = h.permission.phase ∨ h'.permission.phase = .stopped
  ready : h'.permission.ready = true → h.permission.ready = true
  created : h'.flags.created = h.flags.created
  cancelled : ∀ control : RunControl,
    control.isCancelled h.flags = true → control.isCancelled h'.flags = true
  released : ∀ control, h.permission.phase = .confirmed control → h'.permission.phase = .stopped →
    control.isCancelled h'.flags = true

structure Confirms (h h' : Held) : Prop where
  preparing : h'.permission.preparing = h.permission.preparing
  consumed : h'.permission.consumed = h.permission.consumed
  awaiting : ∃ deadline, h.permission.phase = .awaitingAuthority deadline
  confirmed : ∃ control, h'.permission.phase = .confirmed control
  cancelled : h'.flags.cancelled = h.flags.cancelled

theorem stopped_eq_true : h.stopped = true ↔ h.permission.phase = .stopped := by
  simp [stopped]

theorem Onward.refl (h : Held) : Onward h h :=
  ⟨rfl, id, .inl rfl, id, rfl, fun _ => id, fun _ same stopped => by simp [same] at stopped⟩

theorem Onward.trans (first : Onward h h') (second : Onward h' k) : Onward h k where
  preparing := second.preparing.trans first.preparing
  consumed old := second.consumed (first.consumed old)
  phase := by
    cases second.phase with
    | inl same => rw [same]; exact first.phase
    | inr stopped => exact .inr stopped
  ready new := first.ready (second.ready new)
  created := second.created.trans first.created
  cancelled control old := second.cancelled control (first.cancelled control old)
  released control confirmed stopped := by
    cases first.phase with
    | inl same => exact second.released control (same.trans confirmed) stopped
    | inr ended => exact second.cancelled control (first.released control confirmed ended)

theorem Onward.stopped (onward : Onward h h') (is : h.stopped = true) : h'.stopped = true := by
  rw [stopped_eq_true] at is ⊢
  cases onward.phase with
  | inl same => exact same.trans is
  | inr ended => exact ended

theorem stop_onward (h : Held) : Onward h h.stop where
  preparing := rfl
  consumed := id
  phase := .inr rfl
  ready new := by cases new
  created := by
    unfold stop
    cases h.permission.phase with
    | confirmed control => rfl
    | awaitingAuthority deadline => rfl
    | stopped => rfl
  cancelled control old := by
    unfold stop
    cases h.permission.phase with
    | confirmed other => exact RunControl.isCancelled_mono old
    | awaitingAuthority deadline => exact old
    | stopped => exact old
  released control confirmed _ := by
    simp [stop, confirmed]

theorem stop_stopped (h : Held) : h.stop.stopped = true :=
  stopped_eq_true.mpr rfl

theorem Good.stop (good : Good h) : Good h.stop :=
  ⟨by simp [Held.stop], good.timed⟩

theorem tracked_onward (h : Held) (tracker : LeaseTracker) :
    Onward h { h with permission := { h.permission with tracker } } :=
  ⟨rfl, id, .inl rfl, id, rfl, fun _ => id, fun _ same stopped => by simp [same] at stopped⟩

theorem Good.tracked (good : Good h) {tracker : LeaseTracker} (timed : tracker.Timed) :
    Good { h with permission := { h.permission with tracker } } :=
  ⟨good.ready, timed⟩

theorem observe_spec (good : Good h) (now : Nat) :
    Good (h.observe now) ∧ Onward h (h.observe now) ∧
      ((h.observe now).permission.tracker = h.permission.tracker ∨
        (h.observe now).permission.tracker = h.permission.tracker.observe now) := by
  unfold observe
  split
  · exact ⟨good.tracked (good.timed.observe now), tracked_onward h _, .inr rfl⟩
  · exact ⟨good, .refl h, .inl rfl⟩
  · exact ⟨good, .refl h, .inl rfl⟩

theorem check_cases (h : Held) (stopping : Bool) (now later : Nat) :
    h.check stopping now later = h.observe now ∨
      h.check stopping now later = (h.observe now).stop := by
  unfold check
  extract_lets k
  split
  · exact .inr rfl
  · exact .inl rfl

theorem check_onward (good : Good h) (stopping : Bool) (now later : Nat) :
    Onward h (h.check stopping now later) := by
  obtain ⟨-, onward, -⟩ := observe_spec good now
  cases h.check_cases stopping now later with
  | inl same => rwa [same]
  | inr ended => rw [ended]; exact onward.trans (stop_onward _)

theorem Good.check (good : Good h) (stopping : Bool) (now later : Nat) :
    Good (h.check stopping now later) := by
  obtain ⟨observed, -, -⟩ := observe_spec good now
  cases h.check_cases stopping now later with
  | inl same => rwa [same]
  | inr ended => rw [ended]; exact observed.stop

theorem check_replays {top : Nat} {owner : LeaseOwner} {replies : List LeaseReply} (good : Good h)
    (replays : h.permission.tracker.Replays top owner replies) (stopping : Bool) (now later : Nat) :
    (h.check stopping now later).permission.tracker.Replays top owner replies := by
  obtain ⟨-, -, tracker⟩ := observe_spec good now
  have observed : (h.observe now).permission.tracker.Replays top owner replies := by
    cases tracker with
    | inl same => rwa [same]
    | inr seen => rw [seen]; exact replays.observe now
  cases h.check_cases stopping now later with
  | inl same => rwa [same]
  | inr ended => rw [ended]; exact observed

theorem check_awaiting {deadline : Nat} (awaiting : h.permission.phase = .awaitingAuthority deadline)
    {stopping : Bool} {now later : Nat} (running : (h.check stopping now later).stopped = false) :
    h.check stopping now later = h ∧ now < deadline := by
  have still : h.observe now = h := by
    unfold observe
    simp only [awaiting]
  unfold check at running ⊢
  simp only [still] at running ⊢
  split at running
  · rw [stop_stopped] at running
    cases running
  · rename_i passed
    simp only [expired, awaiting, Bool.or_eq_true, decide_eq_true_eq, not_or, not_le] at passed
    exact ⟨if_neg (by simp [expired, awaiting, passed]), passed.2⟩

theorem judge_tracker (tracker : LeaseTracker) (authority : Authority) (intent : RenewIntent)
    (now : Nat) : (judge tracker authority intent now).1 = tracker.observe now := by
  unfold judge
  split
  · rfl
  · rfl

theorem judge_active {tracker : LeaseTracker} {authority : Authority} {intent : RenewIntent}
    {now : Nat} (ready : (judge tracker authority intent now).2 = true) :
    (tracker.observe now).state = .active := by
  unfold judge at ready
  split at ready
  · simp only [Bool.and_eq_true, decide_eq_true_eq] at ready
    exact ready.1
  · exact LeaseTracker.checkDispatch_active ready

/-- Confirmed authority is confirmed again, or stops; the first confirmation finds a deadline. -/
theorem confirm_spec (good : Good h) (running : h.stopped = false) (authority : Authority)
    (intent : RenewIntent) (now : Nat) :
    ∃ h', h.confirm authority intent now = .ok h' ∧ Good h' ∧ (Onward h h' ∨ Confirms h h') ∧
      h'.permission.tracker = h.permission.tracker.observe now := by
  have tracker := judge_tracker h.permission.tracker authority intent now
  have timed := good.timed.observe now
  unfold confirm
  cases judged : judge h.permission.tracker authority intent now with
  | mk seen ready =>
    rw [judged] at tracker
    obtain rfl : seen = _ := tracker
    cases ready with
    | false =>
      refine ⟨_, rfl, ⟨by simp [Held.stop], timed⟩, .inl ?_, rfl⟩
      exact (tracked_onward h _).trans (stop_onward _)
    | true =>
      have active : (h.permission.tracker.observe now).state = .active := by
        have accepted : (judge h.permission.tracker authority intent now).2 = true := by rw [judged]
        exact judge_active accepted
      cases phase : h.permission.phase with
      | awaitingAuthority deadline =>
        obtain ⟨execution, found⟩ := Option.isSome_iff_exists.mp (timed active)
        simp only [found, phase, Bool.true_eq_false, if_false]
        refine ⟨_, rfl, ⟨by simp, timed⟩, .inr ?_, rfl⟩
        exact ⟨rfl, rfl, ⟨deadline, phase⟩, ⟨_, rfl⟩, rfl⟩
      | confirmed control =>
        have already : h.permission.ready = true := good.ready.mpr ⟨control, phase⟩
        simp only [phase, Bool.true_eq_false, if_false]
        refine ⟨_, rfl, ⟨by simp, timed⟩, .inl ?_, rfl⟩
        exact ⟨rfl, id, .inl phase.symm, fun _ => already, rfl, fun _ => id,
          fun _ _ stopped => by simp at stopped⟩
      | stopped =>
        rw [stopped_eq_true.mpr phase] at running
        cases running

/-- A reply never lets the code panic, and the tracker is one that the replies alone make. -/
theorem applyReply_spec {top : Nat} {owner : LeaseOwner} {replies : List LeaseReply} (good : Good h)
    (running : h.stopped = false) (replays : h.permission.tracker.Replays top owner replies)
    (authority : Authority) (intent : RenewIntent) (started now : Nat) :
    ∃ h', h.applyReply top authority intent started now = .ok h' ∧ Good h' ∧
      (Onward h h' ∨ Confirms h h') ∧
      h'.permission.tracker.Replays top owner (replies ++ [⟨authority, started, now⟩]) := by
  have timed : (h.permission.tracker.apply top authority started now).1.Timed :=
    good.timed.apply authority started now
  have replayed := replays.apply ⟨authority, started, now⟩
  unfold applyReply
  cases applied : h.permission.tracker.apply top authority started now with
  | mk tracker result =>
    rw [applied] at timed replayed
    have tracked := tracked_onward h tracker
    cases result with
    | error e =>
      exact ⟨_, rfl, (good.tracked timed).stop, .inl (tracked.trans (stop_onward _)), replayed⟩
    | ok update =>
      have asked : ∀ intent, ∃ h', confirm { h with permission := { h.permission with tracker } }
          authority intent now = .ok h' ∧ Good h' ∧ (Onward h h' ∨ Confirms h h') ∧
          h'.permission.tracker.Replays top owner (replies ++ [⟨authority, started, now⟩]) := by
        intro intent
        obtain ⟨h', confirmed, good', moves, same⟩ :=
          confirm_spec (good.tracked timed) running authority intent now
        refine ⟨h', confirmed, good', ?_, same ▸ replayed.observe now⟩
        cases moves with
        | inl onward => exact .inl (tracked.trans onward)
        | inr c => exact .inr ⟨c.preparing, c.consumed, c.awaiting, c.confirmed, c.cancelled⟩
      cases intent with
      | dispatch => exact asked .dispatch
      | prepare => exact asked .prepare
      | keepAlive => exact ⟨_, rfl, good.tracked timed, .inl tracked, replayed⟩

/-- `accept`: a reply at or after the deadline of the first confirmation gives no permission. -/
theorem accept_spec {top : Nat} {owner : LeaseOwner} {replies : List LeaseReply} (good : Good h)
    (replays : h.permission.tracker.Replays top owner replies) (authority : Authority)
    (command : RenewCommand) (started now later : Nat) :
    ∃ h', h.accept top authority command started now later = .ok h' ∧ Good h' ∧
      (Onward h h' ∨ Confirms h h' ∧
        ∀ deadline, h.permission.phase = .awaitingAuthority deadline → now < deadline) ∧
      h'.permission.tracker.Replays top owner
        (if (h.check false now later).stopped = true then replies
          else replies ++ [⟨authority, started, now⟩]) := by
  have onward := check_onward good false now later
  have checked := good.check false now later
  have replayed := check_replays good replays false now later
  unfold accept
  extract_lets k
  change k.permission.tracker.Replays top owner replies at replayed
  cases running : k.stopped with
  | true => exact ⟨k, rfl, checked, .inl onward, replayed⟩
  | false =>
    obtain ⟨h', applied, good', moves, replayed'⟩ :=
      applyReply_spec checked running replayed authority command.intent started now
    refine ⟨h', applied, good', ?_, replayed'⟩
    cases moves with
    | inl rest => exact .inl (onward.trans rest)
    | inr c =>
      obtain ⟨deadline, awaiting⟩ := c.awaiting
      have phase : h.permission.phase = .awaitingAuthority deadline := by
        cases onward.phase with
        | inl same => exact same.symm.trans awaiting
        | inr ended => rw [ended] at awaiting; cases awaiting
      obtain ⟨same, before⟩ := check_awaiting phase running
      refine .inr ⟨same ▸ c, fun other is => ?_⟩
      rw [phase] at is
      cases is
      exact before

/-- What `take` gives away is the control of confirmed authority that passes both its checks. -/
structure Grants (h : Held) (control : RunControl) (now later : Nat) : Prop where
  confirmed : h.permission.phase = .confirmed control
  dispatch : h.permission.preparing = false → (h.permission.tracker.checkDispatch now).2 = .ok ()
  passes : control.check h.flags later = .ok ()

/-- The look at the lease that `take` makes of an ungoverned assignment. -/
theorem looked_spec {top : Nat} {owner : LeaseOwner} {replies : List LeaseReply} (good : Good h)
    (replays : h.permission.tracker.Replays top owner replies) (now : Nat) :
    ∃ tracker passes,
      (if h.permission.preparing = true then (h.permission.tracker, true)
        else
          let (tracker, passes) := h.permission.tracker.checkDispatch now
          (tracker, passes.isOk)) = (tracker, passes) ∧
      tracker.Timed ∧ tracker.Replays top owner replies ∧
      (passes = true → h.permission.preparing = false →
        (h.permission.tracker.checkDispatch now).2 = .ok ()) := by
  cases preparing : h.permission.preparing with
  | true => exact ⟨_, _, rfl, good.timed, replays, fun _ other => by cases other⟩
  | false =>
    refine ⟨_, _, rfl, good.timed.observe now, replays.observe now, fun passes _ => ?_⟩
    obtain ⟨u, ok⟩ := exists_of_isOk passes
    exact ok

theorem take_spec {top : Nat} {owner : LeaseOwner} {replies : List LeaseReply} (good : Good h)
    (replays : h.permission.tracker.Replays top owner replies) (now later : Nat) :
    ∃ h' d, h.take now later = .ok (h', d) ∧ Good h' ∧ Onward h h' ∧
      h'.permission.tracker.Replays top owner replies ∧
      ∀ control, d = .granted control → Grants h control now later ∧
        h'.permission.consumed = true ∧ h'.permission.phase = .confirmed control := by
  unfold take
  cases is : h.stopped with
  | true => exact ⟨h, .refused, rfl, good, .refl h, replays, fun _ same => by cases same⟩
  | false =>
    cases ready : h.permission.ready with
    | false =>
      exact ⟨h, .waiting, by simp, good, .refl h, replays, fun _ same => by cases same⟩
    | true =>
      obtain ⟨tracker, passes, seen, timed, replayed, dispatch⟩ := looked_spec good replays now
      have tracked := tracked_onward h tracker
      simp only [Bool.false_eq_true, if_false, if_true, seen]
      split
      case h_1 control confirmed =>
        split
        · rename_i both
          rw [Bool.and_eq_true] at both
          obtain ⟨u, passed⟩ := exists_of_isOk both.2
          have taken : Onward h { h with permission :=
              { h.permission with tracker, consumed := true } } :=
            ⟨rfl, fun _ => rfl, .inl rfl, id, rfl, fun _ => id,
              fun _ same stopped => by simp [same] at stopped⟩
          refine ⟨_, _, rfl, ⟨good.ready, timed⟩, taken, replayed, fun other same => ?_⟩
          cases same
          exact ⟨⟨confirmed, dispatch both.1, passed⟩, rfl, confirmed⟩
        · refine ⟨_, _, rfl, (good.tracked timed).stop, tracked.trans (stop_onward _), replayed, ?_⟩
          intro _ same
          cases same
      -- Permission without confirmed authority is the case the code excludes.
      case h_2 awaiting =>
        obtain ⟨control, confirmed⟩ := good.ready.mp ready
        simp [confirmed] at awaiting
      case h_3 stopped =>
        obtain ⟨control, confirmed⟩ := good.ready.mp ready
        simp [confirmed] at stopped

end Held
end Renewal
end Ledgence
