import Ledgence.Renewal.Sound

/-! What a monitor guarantees in every run. -/
open Kit Kit.Checked

namespace Ledgence.Renewal
namespace World
variable {config : Config} {assignment : Assignment} {created : Nat} {w : World}

/-- Only a reply before the deadline of the first confirmation gives permission. -/
theorem accept_held (permitted : Permitted config assignment created w) (authority : Authority)
    (started now later : Nat) :
    w.held.Onward (w.accept config authority started now later).held ∨
      w.held.stopped = false ∧ now < confirmationDeadline created := by
  obtain ⟨h, accepted, -, moves, -⟩ := Held.accept_spec permitted.good permitted.replays
    authority w.actor.command started now later
  cases moves with
  | inl onward =>
    refine .inl ?_
    simp only [World.accept, accepted]
    unfold World.advance
    split
    · exact onward.trans (Held.stop_onward h)
    · exact onward
  | inr first =>
    obtain ⟨confirms, before⟩ := first
    obtain ⟨deadline, awaiting⟩ := confirms.awaiting
    refine .inr ⟨by simp [Held.stopped, awaiting], ?_⟩
    exact permitted.awaiting deadline awaiting ▸ before deadline awaiting

theorem conclude_held (permitted : Permitted config assignment created w) (started : Nat)
    (result : Result Authority) (now later next : Nat) :
    w.held.Onward (w.conclude config started result now later next).held ∨
      w.held.stopped = false ∧ now < confirmationDeadline created := by
  cases result with
  | error error =>
    simp only [World.conclude]
    split
    · exact .inl (.refl _)
    · exact .inl (Held.stop_onward _)
  | ok authority =>
    simp only [World.conclude]
    split
    · exact .inl (Held.stop_onward _)
    · exact accept_held permitted authority started now later

/-- What an action does to the permission: it keeps or ends it, unless it accepts a reply in time. -/
theorem step_held (sound : Sound config assignment created w) (action : Action) :
    w.held.Onward (w.step config action).held ∨
      w.held.stopped = false ∧ ∃ now later next, action = .conclude now later next ∧
        now < confirmationDeadline created := by
  obtain ⟨permitted, -⟩ := sound
  have checked := Held.check_onward permitted.good
  have stopped := Held.stop_onward w.held
  unfold World.step
  split
  case h_1 now _ =>
    unfold World.start
    split
    · exact .inl stopped
    · exact .inl (.refl _)
  case h_2 stopping now later _ => exact .inl (checked stopping now later)
  case h_3 now started _ =>
    unfold World.proceed
    split
    · exact .inl (.refl _)
    split
    · exact .inl (.refl _)
    · exact .inl (.refl _)
  case h_4 stopping now later _ _ => exact .inl (checked stopping now later)
  case h_5 =>
    split
    · exact .inl (.refl _)
    · exact .inl (.refl _)
  case h_6 => exact .inl (.refl _)
  case h_7 stopping now later _ _ _ => exact .inl (checked stopping now later)
  case h_8 now later next started result _ =>
    refine (conclude_held permitted started result now later next).imp_right fun first => ?_
    exact ⟨first.1, now, later, next, rfl, first.2⟩
  case h_9 => exact .inl (.refl _)
  case h_10 => exact .inl stopped
  case h_11 => exact .inl stopped
  case h_12 stopping now later => exact .inl (checked stopping now later)
  case h_13 now later =>
    obtain ⟨h, d, taken, -, onward, -, -⟩ :=
      Held.take_spec permitted.good permitted.replays now later
    simp only [World.take, taken]
    cases d with
    | waiting => exact .inl onward
    | refused => exact .inl onward
    | granted control => exact .inl onward
  case h_14 => exact .inl stopped
  case h_15 => exact .inl (.refl _)
  case h_16 control =>
    unfold World.cancel
    split
    · refine .inl ⟨rfl, id, .inl rfl, id, rfl, fun _ old => RunControl.isCancelled_mono old, ?_⟩
      intro _ confirmed ended
      rw [confirmed] at ended
      cases ended
    · exact .inl (.refl _)
  case h_17 => exact .inl (.refl _)

theorem run_stopped (sound : Sound config assignment created w) (actions : List Action)
    (stopped : w.held.stopped = true) : (w.run config actions).held.stopped = true := by
  induction actions generalizing w with
  | nil => exact stopped
  | cons action actions ih =>
    refine ih (sound.step action) ?_
    cases step_held sound action with
    | inl onward => exact onward.stopped stopped
    | inr first => rw [first.1] at stopped; cases stopped

theorem Ordered.at {first : Nat} {later earlier : List Event} {command : RenewCommand}
    (ordered : Ordered first (later ++ .sent command :: earlier)) :
    Ordered first (.sent command :: earlier) := by
  induction later with
  | nil => exact ordered
  | cons event later ih =>
    cases event with
    | sent other => exact ih ordered.2.2
    | received authority => exact ih ordered
    | applied reply => exact ih ordered
    | granted control => exact ih ordered

theorem sequence_unique {first : Nat} {trace : List Event} {a b : RenewCommand}
    (ordered : Ordered first trace) (ha : .sent a ∈ trace) (hb : .sent b ∈ trace)
    (same : a.sequence = b.sequence) : a = b := by
  obtain ⟨later, earlier, rfl⟩ := List.append_of_mem ha
  obtain ⟨-, alone, -⟩ := Ordered.at ordered
  induction later with
  | nil =>
    cases List.mem_cons.mp hb with
    | inl new => cases new; rfl
    | inr old => exact ((alone b old).1 same.symm).symm
  | cons event later ih =>
    cases List.mem_cons.mp hb with
    | inl new =>
      subst new
      exact (ordered.2.1 a (by simp)).1 same
    | inr old =>
      have rest : Ordered first (later ++ .sent a :: earlier) := by
        cases event with
        | sent other => exact ordered.2.2
        | received authority => exact ordered
        | applied reply => exact ordered
        | granted control => exact ordered
      exact ih rest (by simp) old

/-- A permission that is taken from an ungoverned assignment rests on the replies so far alone. -/
theorem taken_checked (permitted : Permitted config assignment created w) {now later : Nat}
    {held : Held} {control : RunControl} (ungoverned : assignment.taskAdmission = none)
    (taken : w.held.take now later = .ok (held, .granted control)) :
    (((LeaseTracker.new assignment.lease.owner).run config.top
      ((appliedReplies w.trace).map .apply)).checkDispatch now).2 = .ok () ∧
      control.check w.held.flags later = .ok () := by
  obtain ⟨h, d, taken', -, -, -, grants⟩ :=
    Held.take_spec permitted.good permitted.replays now later
  rw [taken] at taken'
  cases taken'
  obtain ⟨granted, -, -⟩ := grants control rfl
  have plain : w.held.permission.preparing = false := by
    rw [permitted.preparing, ungoverned]
    rfl
  have passes := granted.dispatch plain
  have live : w.held.permission.tracker.Live := .inr (LeaseTracker.checkDispatch_eq_ok passes).1
  exact ⟨permitted.replays live ▸ passes, granted.passes⟩

/-- The renewal actor and the permission it keeps, in every run of a monitor. The commands: one for
each sequence, each the one before it or the one after it was answered, and no request for permission
after a keep-alive. The permission: stopped for good, with every control that was given away
cancelled; never from a reply at or after the first deadline; never without confirmed authority; and
given away only on a dispatch check of the replies so far. -/
theorem renewal_sound (config : Config) (assignment : Assignment) (created : Nat)
    (actions : List Action) :
    let w := (new assignment created).run config actions
    (∀ a b, .sent a ∈ w.trace → .sent b ∈ w.trace → a.sequence = b.sequence → a = b) ∧
    (∀ later command earlier, w.trace = later ++ .sent command :: earlier →
      Follows (assignment.authority.renewSequence + 1) command earlier ∧
      ∀ before, .sent before ∈ earlier → before.intent = .keepAlive →
        command.intent = .keepAlive) ∧
    (∀ more, w.held.stopped = true → (w.run config more).held.stopped = true) ∧
    (∀ control, .granted control ∈ w.trace → w.held.stopped = true →
      control.isCancelled w.held.flags = true) ∧
    (∀ now later next, confirmationDeadline created ≤ now →
      let w' := w.step config (.conclude now later next)
      (w'.held.permission.ready = true → w.held.permission.ready = true) ∧
      ∀ control, w'.held.permission.phase = .confirmed control →
        w.held.permission.phase = .confirmed control) ∧
    (w.held.permission.ready = true → ∃ control, w.held.permission.phase = .confirmed control) ∧
    w.panics = [] ∧
    (∀ now later held control, assignment.taskAdmission = none →
      w.held.take now later = .ok (held, .granted control) →
      (((LeaseTracker.new assignment.lease.owner).run config.top
        ((appliedReplies w.trace).map .apply)).checkDispatch now).2 = .ok () ∧
      control.check w.held.flags later = .ok ()) := by
  intro w
  have sound : Sound config assignment created w := run_sound config assignment created actions
  have permitted := sound.permitted
  have sequenced := sound.sequenced
  refine ⟨fun a b => sequence_unique sequenced.ordered, ?_, fun more => run_stopped sound more, ?_, ?_,
    permitted.good.ready.mp, permitted.panics, fun now later held control =>
      taken_checked permitted⟩
  · intro later command earlier is
    have ordered := Ordered.at (is ▸ sequenced.ordered)
    exact ⟨ordered.1, fun before mem => (ordered.2.1 before mem).2⟩
  · intro control given stopped
    cases permitted.granted control given with
    | inl confirmed =>
      rw [Held.stopped_eq_true, confirmed] at stopped
      cases stopped
    | inr ended => exact ended.2
  · intro now later next late
    cases step_held sound (.conclude now later next) with
    | inl onward =>
      refine ⟨onward.ready, fun control confirmed => ?_⟩
      cases onward.phase with
      | inl same => exact same.symm.trans confirmed
      | inr ended => rw [ended] at confirmed; cases confirmed
    | inr first =>
      obtain ⟨-, _, _, _, is, before⟩ := first
      cases is
      exact absurd late (Nat.not_le.mpr before)

end World
end Ledgence.Renewal
