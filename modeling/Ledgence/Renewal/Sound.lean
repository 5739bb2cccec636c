import Ledgence.Renewal.Monitor
import Ledgence.Renewal.Sections

/-! Every run of a monitor: its commands in order, its permission, and the controls given away. -/
open Kit Kit.Checked

namespace Ledgence.Renewal

/- What the trace says; it is newest first. -/

def lastSent : List Event → Option RenewCommand
  | [] => none
  | .sent command :: _ => some command
  | .received _ :: earlier | .applied _ :: earlier | .granted _ :: earlier => lastSent earlier

/-- A reply to `command` was received since the last send. -/
def Answered (command : RenewCommand) : List Event → Prop
  | [] => False
  | .sent _ :: _ => False
  | .received authority :: earlier =>
    (authority.owner = command.owner ∧ authority.renewSequence = command.sequence) ∨
      Answered command earlier
  | .applied _ :: earlier | .granted _ :: earlier => Answered command earlier

def appliedReplies : List Event → List LeaseReply
  | [] => []
  | .applied reply :: earlier => appliedReplies earlier ++ [reply]
  | .sent _ :: earlier | .received _ :: earlier | .granted _ :: earlier => appliedReplies earlier

def Fresh (first : Nat) (command : RenewCommand) (earlier : List Event) : Prop :=
  match lastSent earlier with
  | none => command.sequence = first
  | some before => command.owner = before.owner ∧ command.sequence = before.sequence + 1 ∧
    Answered before earlier

def Follows (first : Nat) (command : RenewCommand) (earlier : List Event) : Prop :=
  lastSent earlier = some command ∨ Fresh first command earlier

/-- The commands of a trace: each follows the one before it, is the only one of its sequence, and
asks for permission only if all before it did. -/
def Ordered (first : Nat) : List Event → Prop
  | [] => True
  | .sent command :: earlier => Follows first command earlier ∧
    (∀ before, .sent before ∈ earlier →
      (before.sequence = command.sequence → before = command) ∧
      (before.intent = .keepAlive → command.intent = .keepAlive)) ∧ Ordered first earlier
  | .received _ :: earlier | .applied _ :: earlier | .granted _ :: earlier => Ordered first earlier

def Silent (event : Event) : Prop :=
  ∀ command, event ≠ .sent command

theorem lastSent_cons {event : Event} (silent : Silent event) (trace : List Event) :
    lastSent (event :: trace) = lastSent trace := by
  cases event with
  | sent command => exact absurd rfl (silent command)
  | received authority => rfl
  | applied reply => rfl
  | granted control => rfl

theorem Answered.cons {event : Event} {command : RenewCommand} {trace : List Event}
    (silent : Silent event) (answered : Answered command trace) :
    Answered command (event :: trace) := by
  cases event with
  | sent other => exact absurd rfl (silent other)
  | received authority => exact .inr answered
  | applied reply => exact answered
  | granted control => exact answered

theorem Ordered.cons {event : Event} {first : Nat} {trace : List Event} (silent : Silent event)
    (ordered : Ordered first trace) : Ordered first (event :: trace) := by
  cases event with
  | sent command => exact absurd rfl (silent command)
  | received authority => exact ordered
  | applied reply => exact ordered
  | granted control => exact ordered

theorem sent_mem_cons {event : Event} {command : RenewCommand} {trace : List Event}
    (silent : Silent event) (mem : .sent command ∈ event :: trace) : .sent command ∈ trace :=
  (List.mem_cons.mp mem).resolve_left fun same => silent command same.symm

theorem Fresh.cons {event : Event} {first : Nat} {command : RenewCommand} {trace : List Event}
    (silent : Silent event) (fresh : Fresh first command trace) :
    Fresh first command (event :: trace) := by
  unfold Fresh at fresh ⊢
  rw [lastSent_cons silent]
  cases last : lastSent trace with
  | none => rwa [last] at fresh
  | some before =>
    rw [last] at fresh
    exact ⟨fresh.1, fresh.2.1, fresh.2.2.cons silent⟩

def confirmationDeadline (created : Nat) : Nat :=
  created + controlRequestTimeoutMs * nanosPerMs

namespace World
variable {config : Config} {assignment : Assignment} {created : Nat} {w : World}

/-- The permission of a monitor that was created for `assignment`. -/
structure Permitted (config : Config) (assignment : Assignment) (created : Nat) (w : World) :
    Prop where
  good : w.held.Good
  replays : w.held.permission.tracker.Replays config.top assignment.lease.owner
    (appliedReplies w.trace)
  preparing : w.held.permission.preparing = assignment.taskAdmission.isSome
  awaiting : ∀ deadline, w.held.permission.phase = .awaitingAuthority deadline →
    deadline = confirmationDeadline created
  granted : ∀ control, .granted control ∈ w.trace →
    w.held.permission.phase = .confirmed control ∨
      w.held.permission.phase = .stopped ∧ control.isCancelled w.held.flags = true
  panics : w.panics = []

structure Pending (first : Nat) (command : RenewCommand) (sent : Bool) (trace : List Event) :
    Prop where
  current : sent = true → lastSent trace = some command
  fresh : sent = false → Fresh first command trace
  newest : ∀ before, .sent before ∈ trace → before.sequence ≤ command.sequence ∧
    (before.sequence = command.sequence → sent = true ∧ before = command)
  intent : ∀ before, .sent before ∈ trace → before.intent = .keepAlive →
    command.intent = .keepAlive

def inExchange : Stage → Bool
  | .exchanging _ | .ticked _ | .replied _ _ | .weighed _ _ => true
  | _ => false

def result? : Stage → Option (Result Authority)
  | .replied _ result | .weighed _ result => some result
  | _ => none

def Placed (assignment : Assignment) (actor : Actor) (trace : List Event) : Prop :=
  match actor.stage with
  | .starting => actor.command.sequence = assignment.authority.renewSequence ∧
    (∀ before, .sent before ∉ trace) ∧ lastSent trace = none
  | .leaving | .returned => True
  | stage =>
    Pending (assignment.authority.renewSequence + 1) actor.command actor.sent trace ∧
      (inExchange stage = true → actor.sent = true) ∧ (stage = .renewed → actor.sent = false) ∧
      ∀ authority, result? stage = some (.ok authority) →
        authority.owner = actor.command.owner →
        authority.renewSequence = actor.command.sequence → Answered actor.command trace

structure Sequenced (assignment : Assignment) (w : World) : Prop where
  ordered : Ordered (assignment.authority.renewSequence + 1) w.trace
  placed : Placed assignment w.actor w.trace
  keepAlive : w.actor.command.intent = .keepAlive →
    w.held.permission.consumed = true ∨ w.held.stopped = true

structure Sound (config : Config) (assignment : Assignment) (created : Nat) (w : World) :
    Prop where
  permitted : Permitted config assignment created w
  sequenced : Sequenced assignment w

/- Permission. -/

theorem Permitted.onward (permitted : Permitted config assignment created w) {w' : World}
    (onward : w.held.Onward w'.held) (good : w'.held.Good)
    (replays : w'.held.permission.tracker.Replays config.top assignment.lease.owner
      (appliedReplies w'.trace))
    (record : ∀ control, .granted control ∈ w'.trace → .granted control ∈ w.trace)
    (panics : w'.panics = w.panics) : Permitted config assignment created w' where
  good := good
  replays := replays
  preparing := onward.preparing.trans permitted.preparing
  awaiting deadline is := by
    cases onward.phase with
    | inl same => exact permitted.awaiting deadline (same.symm.trans is)
    | inr ended => rw [ended] at is; cases is
  granted control given := by
    cases permitted.granted control (record control given) with
    | inl confirmed =>
      cases onward.phase with
      | inl same => exact .inl (same.trans confirmed)
      | inr ended => exact .inr ⟨ended, onward.released control confirmed ended⟩
    | inr stopped =>
      obtain ⟨is, cancelled⟩ := stopped
      cases onward.phase with
      | inl same => exact .inr ⟨same.trans is, onward.cancelled control cancelled⟩
      | inr ended => exact .inr ⟨ended, onward.cancelled control cancelled⟩
  panics := panics.trans permitted.panics

theorem Permitted.check (permitted : Permitted config assignment created w) (stopping : Bool)
    (now later : Nat) : Permitted config assignment created (w.check stopping now later) :=
  permitted.onward (Held.check_onward permitted.good stopping now later)
    (permitted.good.check stopping now later)
    (Held.check_replays permitted.good permitted.replays stopping now later) (fun _ => id) rfl

theorem Permitted.stop (permitted : Permitted config assignment created w) :
    Permitted config assignment created w.stop :=
  permitted.onward (Held.stop_onward w.held) permitted.good.stop permitted.replays (fun _ => id) rfl

theorem Permitted.goto (permitted : Permitted config assignment created w) (stage : Stage) :
    Permitted config assignment created (w.goto stage) :=
  ⟨permitted.good, permitted.replays, permitted.preparing, permitted.awaiting, permitted.granted,
    permitted.panics⟩

theorem Permitted.act (permitted : Permitted config assignment created w) (actor : Actor) :
    Permitted config assignment created { w with actor } :=
  ⟨permitted.good, permitted.replays, permitted.preparing, permitted.awaiting, permitted.granted,
    permitted.panics⟩

theorem Permitted.advance (permitted : Permitted config assignment created w) :
    Permitted config assignment created w.advance := by
  unfold World.advance
  split
  · exact permitted.stop.goto .leaving
  · exact permitted.act _

theorem Permitted.accept (permitted : Permitted config assignment created w)
    (authority : Authority) (started now later : Nat) :
    Permitted config assignment created (w.accept config authority started now later) := by
  obtain ⟨h, accepted, good, moves, replays⟩ := Held.accept_spec permitted.good permitted.replays
    authority w.actor.command started now later
  unfold World.accept
  simp only [accepted]
  apply Permitted.advance
  have record : ∀ control, .granted control ∈
      (if (!(w.held.check false now later).stopped) = true then
        .applied ⟨authority, started, now⟩ :: w.trace else w.trace) →
      .granted control ∈ w.trace := by
    intro control mem
    split at mem
    · exact (List.mem_cons.mp mem).resolve_left (by simp)
    · exact mem
  have replayed : h.permission.tracker.Replays config.top assignment.lease.owner (appliedReplies
      (if (!(w.held.check false now later).stopped) = true then
        .applied ⟨authority, started, now⟩ :: w.trace else w.trace)) := by
    cases stopped : (w.held.check false now later).stopped with
    | true => simpa [stopped] using replays
    | false => simpa [stopped, appliedReplies] using replays
  cases moves with
  | inl onward => exact permitted.onward onward good replayed record rfl
  | inr first =>
    obtain ⟨confirms, -⟩ := first
    obtain ⟨deadline, awaiting⟩ := confirms.awaiting
    obtain ⟨control, confirmed⟩ := confirms.confirmed
    refine ⟨good, replayed, confirms.preparing.trans permitted.preparing, ?_, ?_, permitted.panics⟩
    · intro other is
      rw [confirmed] at is
      cases is
    · intro other mem
      cases permitted.granted other (record other mem) with
      | inl is => rw [awaiting] at is; cases is
      | inr is => rw [awaiting] at is; cases is.1

theorem Permitted.conclude (permitted : Permitted config assignment created w) (started : Nat)
    (result : Result Authority) (now later next : Nat) :
    Permitted config assignment created (w.conclude config started result now later next) := by
  unfold World.conclude
  cases result with
  | error error =>
    simp only
    split
    · exact permitted.act _
    · exact permitted.stop.goto .leaving
  | ok authority =>
    simp only
    split
    · exact permitted.stop.act _
    · exact permitted.accept authority started now later

theorem Permitted.send (permitted : Permitted config assignment created w) (started : Nat) :
    Permitted config assignment created (w.send started) :=
  permitted.onward (.refl _) permitted.good permitted.replays
    (fun _ mem => (List.mem_cons.mp mem).resolve_left (by simp)) rfl

theorem Permitted.proceed (permitted : Permitted config assignment created w) (now started : Nat) :
    Permitted config assignment created (w.proceed now started) := by
  unfold World.proceed
  split
  · exact permitted.goto .leaving
  split
  · exact permitted.goto .looking
  · exact permitted.send started

theorem Permitted.receive (permitted : Permitted config assignment created w) (started : Nat)
    (result : Result Authority) : Permitted config assignment created (w.receive started result) := by
  cases result with
  | error error => exact permitted.goto _
  | ok authority =>
    exact permitted.onward (.refl _) permitted.good permitted.replays
      (fun _ mem => (List.mem_cons.mp mem).resolve_left (by simp)) rfl

theorem Permitted.start (permitted : Permitted config assignment created w) (now : Nat) :
    Permitted config assignment created (w.start now) := by
  unfold World.start
  split
  · exact permitted.stop.goto .leaving
  · exact permitted.act _

theorem Permitted.cancel (permitted : Permitted config assignment created w)
    (control : RunControl) : Permitted config assignment created (w.cancel control) := by
  unfold World.cancel
  split
  · refine permitted.onward ⟨rfl, id, .inl rfl, id, rfl, ?_, ?_⟩ ⟨permitted.good.ready,
      permitted.good.timed⟩ permitted.replays (fun _ => id) rfl
    · exact fun _ old => RunControl.isCancelled_mono old
    · intro _ confirmed stopped
      rw [confirmed] at stopped
      cases stopped
  · exact permitted

theorem Permitted.take (permitted : Permitted config assignment created w) (now later : Nat) :
    Permitted config assignment created (w.take now later) := by
  obtain ⟨h, d, taken, good, onward, replays, grants⟩ :=
    Held.take_spec permitted.good permitted.replays now later
  unfold World.take
  rw [taken]
  have held : Permitted config assignment created { w with held := h } :=
    permitted.onward onward good replays (fun _ => id) rfl
  cases d with
  | waiting => exact held
  | refused => exact held
  | granted control =>
    refine ⟨good, replays, held.preparing, held.awaiting, fun other mem => ?_, held.panics⟩
    cases List.mem_cons.mp mem with
    | inl new =>
      cases new
      exact .inl (grants control rfl).2.2
    | inr old => exact held.granted other old

/- The sequence of commands. -/

theorem Sequenced.hold (sequenced : Sequenced assignment w) {h : Held}
    (consumed : w.held.permission.consumed = true → h.permission.consumed = true)
    (stopped : w.held.stopped = true → h.stopped = true) :
    Sequenced assignment { w with held := h } :=
  ⟨sequenced.ordered, sequenced.placed, fun is => (sequenced.keepAlive is).imp consumed stopped⟩

theorem Sequenced.check (sequenced : Sequenced assignment w) (good : w.held.Good) (stopping : Bool)
    (now later : Nat) : Sequenced assignment (w.check stopping now later) :=
  have onward := Held.check_onward good stopping now later
  sequenced.hold onward.consumed onward.stopped

theorem Sequenced.stop (sequenced : Sequenced assignment w) : Sequenced assignment w.stop :=
  have onward := Held.stop_onward w.held
  sequenced.hold onward.consumed onward.stopped

theorem Sequenced.moved (sequenced : Sequenced assignment w) {stage : Stage}
    (placed : Placed assignment { w.actor with stage } w.trace) :
    Sequenced assignment (w.goto stage) :=
  ⟨sequenced.ordered, placed, sequenced.keepAlive⟩

theorem Sequenced.leaving (sequenced : Sequenced assignment w) :
    Sequenced assignment (w.goto .leaving) :=
  sequenced.moved trivial

theorem Sequenced.returned (sequenced : Sequenced assignment w) :
    Sequenced assignment (w.goto .returned) :=
  sequenced.moved trivial

theorem Pending.send {first : Nat} {command sending : RenewCommand} {sent : Bool}
    {trace : List Event} (pending : Pending first command sent trace)
    (ordered : Ordered first trace)
    (same : sending = command ∨
      sent = false ∧ sending = { command with intent := .keepAlive }) :
    Ordered first (.sent sending :: trace) ∧ Pending first sending true (.sent sending :: trace) := by
  have sequence : sending.sequence = command.sequence := by
    cases same with
    | inl same => rw [same]
    | inr changed => rw [changed.2]
  have follows : Follows first sending trace := by
    cases same with
    | inl same =>
      subst same
      cases sent with
      | true => exact .inl (pending.current rfl)
      | false => exact .inr (pending.fresh rfl)
    | inr changed =>
      obtain ⟨rfl, rfl⟩ := changed
      exact .inr (pending.fresh rfl)
  have alone : ∀ before, .sent before ∈ trace →
      (before.sequence = sending.sequence → before = sending) ∧
        (before.intent = .keepAlive → sending.intent = .keepAlive) := by
    intro before mem
    have newest := (pending.newest before mem).2
    have intent := pending.intent before mem
    cases same with
    | inl same =>
      subst same
      exact ⟨fun eq => (newest eq).2, intent⟩
    | inr changed =>
      obtain ⟨rfl, rfl⟩ := changed
      exact ⟨fun eq => absurd (newest eq).1 (by simp), fun _ => rfl⟩
  refine ⟨⟨follows, alone, ordered⟩, ⟨fun _ => rfl, fun other => (by cases other), ?_, ?_⟩⟩
  · intro before mem
    cases List.mem_cons.mp mem with
    | inl new =>
      cases new
      exact ⟨le_rfl, fun _ => ⟨rfl, rfl⟩⟩
    | inr old =>
      exact ⟨sequence ▸ (pending.newest before old).1, fun eq => ⟨rfl, (alone before old).1 eq⟩⟩
  · intro before mem is
    cases List.mem_cons.mp mem with
    | inl new => cases new; exact is
    | inr old => exact (alone before old).2 is

theorem Pending.cons {event : Event} {first : Nat} {command : RenewCommand} {sent : Bool}
    {trace : List Event} (silent : Silent event) (pending : Pending first command sent trace) :
    Pending first command sent (event :: trace) where
  current is := (lastSent_cons silent trace).trans (pending.current is)
  fresh is := Fresh.cons silent (pending.fresh is)
  newest before mem := pending.newest before (sent_mem_cons silent mem)
  intent before mem := pending.intent before (sent_mem_cons silent mem)

theorem Placed.cons {event : Event} {actor : Actor} {trace : List Event} (silent : Silent event)
    (placed : Placed assignment actor trace) : Placed assignment actor (event :: trace) := by
  unfold Placed at placed ⊢
  split at placed
  · exact ⟨placed.1, fun before mem => placed.2.1 before (sent_mem_cons silent mem),
      (lastSent_cons silent trace).trans placed.2.2⟩
  · trivial
  · trivial
  · exact ⟨placed.1.cons silent, placed.2.1, placed.2.2.1,
      fun authority result owner sequence =>
        (placed.2.2.2 authority result owner sequence).cons silent⟩

theorem Sequenced.cons {event : Event} (sequenced : Sequenced assignment w)
    (silent : Silent event) : Sequenced assignment { w with trace := event :: w.trace } :=
  ⟨sequenced.ordered.cons silent, sequenced.placed.cons silent, sequenced.keepAlive⟩

theorem Sequenced.start (sequenced : Sequenced assignment w) (now : Nat)
    (starting : w.actor.stage = .starting) : Sequenced assignment (w.start now) := by
  have placed := sequenced.placed
  simp only [Placed, starting] at placed
  obtain ⟨sequence, unsent, last⟩ := placed
  unfold World.start
  split
  · exact sequenced.stop.leaving
  · rename_i next found
    rw [checkedAdd_eq_some] at found
    refine ⟨sequenced.ordered, ⟨⟨fun sent => (by cases sent), fun _ => ?_, ?_, ?_⟩,
      fun exchange => (by cases exchange), fun renewed => (by cases renewed),
      fun _ result => (by cases result)⟩, sequenced.keepAlive⟩
    · simp only [Fresh, last]
      omega
    · exact fun before mem => absurd mem (unsent before)
    · exact fun before mem => absurd mem (unsent before)

theorem Sequenced.send (sequenced : Sequenced assignment w) (started : Nat)
    (looked : w.actor.stage = .looked) : Sequenced assignment (w.send started) := by
  have placed := sequenced.placed
  simp only [Placed, looked] at placed
  obtain ⟨pending, -⟩ := placed
  have choice : ∀ sending : RenewCommand, sending =
      (if (!w.actor.sent && w.held.stopped) = true then
        { w.actor.command with intent := .keepAlive } else w.actor.command) →
      sending = w.actor.command ∨
        w.actor.sent = false ∧ sending = { w.actor.command with intent := .keepAlive } := by
    intro sending is
    split at is
    · rename_i changed
      simp only [Bool.and_eq_true, Bool.not_eq_true'] at changed
      exact .inr ⟨changed.1, is⟩
    · exact .inl is
  obtain ⟨ordered, sent⟩ := pending.send sequenced.ordered (choice _ rfl)
  refine ⟨ordered, ⟨sent, fun _ => rfl, fun renewed => (by cases renewed),
    fun _ result => (by cases result)⟩, fun keepAlive => ?_⟩
  simp only [World.send] at keepAlive
  split at keepAlive
  · rename_i changed
    simp only [Bool.and_eq_true, Bool.not_eq_true'] at changed
    exact .inr changed.2
  · exact sequenced.keepAlive keepAlive

theorem Sequenced.proceed (sequenced : Sequenced assignment w) (now started : Nat)
    (looked : w.actor.stage = .looked) : Sequenced assignment (w.proceed now started) := by
  unfold World.proceed
  split
  · exact sequenced.leaving
  split
  · have placed := sequenced.placed
    simp only [Placed, looked] at placed
    exact sequenced.moved ⟨placed.1, fun exchange => (by cases exchange),
      fun renewed => (by cases renewed), fun _ result => (by cases result)⟩
  · exact sequenced.send started looked

theorem Sequenced.receive (sequenced : Sequenced assignment w) {started : Nat}
    (result : Result Authority) (exchanging : w.actor.stage = .exchanging started) :
    Sequenced assignment (w.receive started result) := by
  have placed := sequenced.placed
  simp only [Placed, exchanging] at placed
  obtain ⟨pending, sent, -⟩ := placed
  cases result with
  | error error =>
    exact sequenced.moved ⟨pending, fun _ => sent rfl, fun renewed => (by cases renewed),
      fun _ result => (by cases result)⟩
  | ok authority =>
    have silent : Silent (.received authority) := fun command same => by cases same
    refine ⟨sequenced.ordered.cons silent, ⟨pending.cons silent, fun _ => sent rfl,
      fun renewed => (by cases renewed), ?_⟩, sequenced.keepAlive⟩
    intro other result owner sequence
    cases result
    exact .inl ⟨owner, sequence⟩

theorem Sequenced.take (sequenced : Sequenced assignment w)
    (permitted : Permitted config assignment created w) (now later : Nat) :
    Sequenced assignment (w.take now later) := by
  obtain ⟨h, d, taken, -, onward, -, -⟩ :=
    Held.take_spec permitted.good permitted.replays now later
  have held : Sequenced assignment { w with held := h } :=
    sequenced.hold onward.consumed onward.stopped
  unfold World.take
  rw [taken]
  cases d with
  | waiting => exact held
  | refused => exact held
  | granted control => exact held.cons fun command same => by cases same

theorem Sequenced.cancel (sequenced : Sequenced assignment w) (control : RunControl) :
    Sequenced assignment (w.cancel control) := by
  unfold World.cancel
  split
  · exact sequenced.hold id id
  · exact sequenced

theorem Sequenced.schedule (sequenced : Sequenced assignment w) (now : Nat)
    (renewed : w.actor.stage = .renewed) : Sequenced assignment (w.schedule config now) := by
  have placed := sequenced.placed
  simp only [Placed, renewed] at placed
  obtain ⟨pending, -, unsent, -⟩ := placed
  have fresh := unsent trivial
  have chosen : w.held.permission.consumed = true ∨ w.held.stopped = true →
      w.held.intent = .keepAlive := by
    intro ended
    rw [Held.intent, if_pos]
    rwa [Bool.or_eq_true]
  refine ⟨sequenced.ordered, ⟨⟨?_, pending.fresh, ?_, ?_⟩, fun exchange => (by cases exchange),
    fun renewed => (by cases renewed), fun _ result => (by cases result)⟩, ?_⟩
  · intro sent
    exact absurd (sent.symm.trans fresh) (by simp)
  · intro before mem
    obtain ⟨le, newest⟩ := pending.newest before mem
    refine ⟨le, fun same => ?_⟩
    rw [fresh] at newest
    exact absurd (newest same).1 (by simp)
  · exact fun before mem keepAlive =>
      chosen (sequenced.keepAlive (pending.intent before mem keepAlive))
  · intro keepAlive
    change w.held.intent = .keepAlive at keepAlive
    unfold Held.intent at keepAlive
    split at keepAlive
    · rename_i ended
      rwa [Bool.or_eq_true] at ended
    · split at keepAlive
      all_goals cases keepAlive

theorem Sequenced.retry (sequenced : Sequenced assignment w) {started : Nat}
    {result : Result Authority} (next : Nat) (weighed : w.actor.stage = .weighed started result) :
    Sequenced assignment (w.retry config next) := by
  have placed := sequenced.placed
  simp only [Placed, weighed] at placed
  exact ⟨sequenced.ordered, ⟨placed.1, fun exchange => (by cases exchange),
    fun renewed => (by cases renewed), fun _ result => (by cases result)⟩, sequenced.keepAlive⟩

theorem Sequenced.advance (sequenced : Sequenced assignment w) {started : Nat}
    {result : Result Authority} (weighed : w.actor.stage = .weighed started result)
    (answered : Answered w.actor.command w.trace) : Sequenced assignment w.advance := by
  have placed := sequenced.placed
  simp only [Placed, weighed] at placed
  obtain ⟨pending, sent, -, -⟩ := placed
  have current := pending.current (sent rfl)
  unfold World.advance
  split
  · exact sequenced.stop.leaving
  · rename_i sequence found
    rw [checkedAdd_eq_some] at found
    refine ⟨sequenced.ordered, ⟨⟨fun sent => (by cases sent), fun _ => ?_, ?_, pending.intent⟩,
      fun exchange => (by cases exchange), fun _ => rfl, fun _ result => (by cases result)⟩,
      sequenced.keepAlive⟩
    · simp only [Fresh, current]
      exact ⟨trivial, found.2.symm, answered⟩
    · intro before mem
      have le := (pending.newest before mem).1
      change before.sequence ≤ sequence ∧ (before.sequence = sequence → _)
      refine ⟨by omega, fun same => ?_⟩
      omega

theorem Sequenced.accept (sequenced : Sequenced assignment w)
    (permitted : Permitted config assignment created w) {started : Nat} {authority : Authority}
    (weighed : w.actor.stage = .weighed started (.ok authority))
    (owner : authority.owner = w.actor.command.owner)
    (sequence : authority.renewSequence = w.actor.command.sequence) (now later : Nat) :
    Sequenced assignment (w.accept config authority started now later) := by
  obtain ⟨h, accepted, -, moves, -⟩ := Held.accept_spec permitted.good permitted.replays
    authority w.actor.command started now later
  have placed := sequenced.placed
  simp only [Placed, weighed] at placed
  have answered := placed.2.2.2 authority rfl owner sequence
  have held : Sequenced assignment { w with held := h } := by
    cases moves with
    | inl onward => exact sequenced.hold onward.consumed onward.stopped
    | inr first =>
      obtain ⟨confirms, -⟩ := first
      refine sequenced.hold (fun consumed => confirms.consumed.trans consumed) fun stopped => ?_
      obtain ⟨deadline, awaiting⟩ := confirms.awaiting
      rw [Held.stopped_eq_true, awaiting] at stopped
      cases stopped
  unfold World.accept
  simp only [accepted]
  split
  · have silent : Silent (.applied ⟨authority, started, now⟩) := fun _ same => by cases same
    exact (held.cons silent).advance weighed (answered.cons silent)
  · exact held.advance weighed answered

theorem Sequenced.conclude (sequenced : Sequenced assignment w)
    (permitted : Permitted config assignment created w) {started : Nat}
    {result : Result Authority} (weighed : w.actor.stage = .weighed started result)
    (now later next : Nat) :
    Sequenced assignment (w.conclude config started result now later next) := by
  cases result with
  | error error =>
    simp only [World.conclude]
    split
    · exact sequenced.retry next weighed
    · exact sequenced.stop.leaving
  | ok authority =>
    simp only [World.conclude]
    split
    · exact sequenced.stop.retry next weighed
    · rename_i matching
      rw [not_or, not_not, not_not] at matching
      exact sequenced.accept permitted weighed matching.1 matching.2 now later

/- Runs. -/

theorem Sound.step (sound : Sound config assignment created w) (action : Action) :
    Sound config assignment created (w.step config action) := by
  obtain ⟨permitted, sequenced⟩ := sound
  unfold World.step
  split
  case h_1 now starting => exact ⟨permitted.start now, sequenced.start now starting⟩
  case h_2 stopping now later looking =>
    have placed := sequenced.placed
    simp only [Placed, looking] at placed
    exact ⟨(permitted.check stopping now later).goto _,
      (sequenced.check permitted.good stopping now later).moved ⟨placed.1,
        fun exchange => (by cases exchange), fun renewed => (by cases renewed),
        fun _ result => (by cases result)⟩⟩
  case h_3 now started looked =>
    exact ⟨permitted.proceed now started, sequenced.proceed now started looked⟩
  case h_4 stopping now later started exchanging =>
    have placed := sequenced.placed
    simp only [Placed, exchanging] at placed
    exact ⟨(permitted.check stopping now later).goto _,
      (sequenced.check permitted.good stopping now later).moved ⟨placed.1,
        fun _ => placed.2.1 rfl, fun renewed => (by cases renewed),
        fun _ result => (by cases result)⟩⟩
  case h_5 started ticked =>
    have placed := sequenced.placed
    simp only [Placed, ticked] at placed
    split
    · exact ⟨permitted.goto _, sequenced.leaving⟩
    · exact ⟨permitted.goto _, sequenced.moved ⟨placed.1, fun _ => placed.2.1 rfl,
        fun renewed => (by cases renewed), fun _ result => (by cases result)⟩⟩
  case h_6 result started exchanging =>
    exact ⟨permitted.receive started result, sequenced.receive result exchanging⟩
  case h_7 stopping now later started result replied =>
    have placed := sequenced.placed
    simp only [Placed, replied] at placed
    exact ⟨(permitted.check stopping now later).goto _,
      (sequenced.check permitted.good stopping now later).moved ⟨placed.1,
        fun _ => placed.2.1 rfl, fun renewed => (by cases renewed), placed.2.2.2⟩⟩
  case h_8 now later next started result weighed =>
    exact ⟨permitted.conclude started result now later next,
      sequenced.conclude permitted weighed now later next⟩
  case h_9 now renewed => exact ⟨permitted.act _, sequenced.schedule now renewed⟩
  case h_10 leaving => exact ⟨permitted.stop.goto _, sequenced.stop.returned⟩
  case h_11 => exact ⟨permitted.stop.goto _, sequenced.stop.returned⟩
  case h_12 stopping now later =>
    exact ⟨permitted.check stopping now later, sequenced.check permitted.good stopping now later⟩
  case h_13 now later => exact ⟨permitted.take now later, sequenced.take permitted now later⟩
  case h_14 => exact ⟨permitted.stop, sequenced.stop⟩
  case h_15 => exact ⟨⟨permitted.good, permitted.replays, permitted.preparing, permitted.awaiting,
    permitted.granted, permitted.panics⟩, ⟨sequenced.ordered, sequenced.placed, sequenced.keepAlive⟩⟩
  case h_16 control => exact ⟨permitted.cancel control, sequenced.cancel control⟩
  case h_17 => exact ⟨permitted, sequenced⟩

theorem new_sound (config : Config) (assignment : Assignment) (created : Nat) :
    Sound config assignment created (new assignment created) where
  permitted :=
    { good := by
        refine ⟨⟨fun ready => (by cases ready), fun confirmed => ?_⟩, fun active => (by cases active)⟩
        obtain ⟨control, is⟩ := confirmed
        simp only [new, Held.new] at is
        split at is
        all_goals cases is
      replays := fun _ => rfl
      preparing := rfl
      awaiting := by
        intro deadline is
        simp only [new, Held.new] at is
        split at is
        · cases is
        · cases is
          rfl
      granted := fun _ mem => (by cases mem)
      panics := rfl }
  sequenced :=
    { ordered := trivial
      placed := ⟨rfl, fun _ mem => (by cases mem), rfl⟩
      keepAlive := by
        intro is
        simp only [new] at is
        split at is
        all_goals cases is }

theorem run_sound (config : Config) (assignment : Assignment) (created : Nat)
    (actions : List Action) :
    Sound config assignment created ((new assignment created).run config actions) := by
  have steps : ∀ (actions : List Action) (w : World), Sound config assignment created w →
      Sound config assignment created (w.run config actions) := by
    intro actions
    induction actions with
    | nil => exact fun _ sound => sound
    | cons action actions ih => exact fun w sound => ih (w.step config action) (sound.step action)
  exact steps actions _ (new_sound config assignment created)

end World
end Ledgence.Renewal
