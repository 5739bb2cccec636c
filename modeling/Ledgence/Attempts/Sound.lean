import Ledgence.Attempts.Permits
import Ledgence.Attempts.Process

/-! What holds of an attempt at every stage: what was sent, what was answered, and what is left. -/
open Kit Kit.Checked

namespace Ledgence.Attempts.World

variable {encodings : Encodings} {job : Job} {w : World}

def Definitive {α : Type} (reply : Result α) : Prop :=
  ∀ error, reply = .error error → Renewal.retryable error = false

def CloseAnswered (w : World) : Prop :=
  ∃ reply, .closeAnswered reply ∈ w.trace ∧ Definitive reply

def HoldAnswered (w : World) : Prop :=
  ∃ reply, .holdAnswered reply ∈ w.trace ∧ Definitive reply

def ConfirmAnswered (w : World) : Prop :=
  (∃ state, .confirmAnswered (.ok state) ∈ w.trace) ∨
    .confirmAnswered (.error .ownershipLost) ∈ w.trace

def Blank (w : World) : Prop :=
  w.trace = [] ∧ w.command = none ∧ w.accepted = none

def Withdrawn (job : Job) (w : World) : Prop :=
  w.command = none ∧ w.accepted = none ∧ job.attempt.isSome = true ∧ w.execution.NotInvoked

def Closes (job : Job) (w : World) (closing : Closing) : Prop :=
  (∀ result, closing.resource = .done result → job.attempt.isSome = true → w.CloseAnswered) ∧
    (closing.hold = .done () → job.hold.isSome = true → w.HoldAnswered)

def Closed (job : Job) (w : World) : Prop :=
  (job.attempt.isSome = true → w.CloseAnswered) ∧ (job.hold.isSome = true → w.HoldAnswered)

def Resolved (w : World) : Prop :=
  ∃ command, w.command = some command ∧ w.accepted.isSome = true ∧
    (w.accepted = some true → command.quiescence = .unconfirmed → w.ConfirmAnswered)

structure Facts (encodings : Encodings) (job : Job) (w : World) : Prop where
  execution : w.execution.Sound encodings job.attempt
  command : ∀ c, w.command = some c →
    c.owner = job.owner ∧ (c.quiescence = .confirmed → w.execution.isQuiescent = true)
  settled : ∀ c, .settled c ∈ w.trace → w.command = some c ∧ validSettlement c = true
  closed : ∀ c, .closed c ∈ w.trace → w.execution.isQuiescent = true ∧ ∃ a ∈ job.attempt,
    c = a.closeCommand (if w.command.isSome then .quiescent else .notInvoked)
  held : ∀ c, .held c ∈ w.trace → w.execution.isQuiescent = true ∧ job.hold = some c
  confirmed : ∀ owner, .confirmed owner ∈ w.trace → w.execution.isQuiescent = true ∧
    w.accepted = some true ∧ ∃ c, w.command = some c ∧ c.quiescence = .unconfirmed ∧ owner = c.owner
  accepted : w.accepted = some true → ∃ c reply, w.command = some c ∧
    .settleAnswered (.ok reply) ∈ w.trace ∧ accepts c reply = true
  lost : w.accepted = some false → .settleAnswered (.error .ownershipLost) ∈ w.trace

def Fits (job : Job) (w : World) : Stage → Prop
  | .dispatching => w.execution.stage = .unused ∧ w.Blank
  | .executing => w.Blank
  | .deferring => w.execution.Over ∧ w.Withdrawn job
  | .withdrawing closing =>
    w.execution.isQuiescent = true ∧ w.Withdrawn job ∧ w.Closes job closing
  | .reporting settle sources => w.execution.Over ∧ w.command.isSome = true ∧
    (w.accepted.isSome = true ↔ settle = .done ()) ∧ ∀ closing, sources = some closing →
      (w.execution.isQuiescent = true ∨ job.attempt = none ∧ job.hold = none) ∧
        w.Closes job closing
  | .draining =>
    w.execution.Over ∧ w.command.isSome = true ∧ w.accepted.isSome = true ∧ w.Closed job
  | .confirming _ => w.execution.isQuiescent = true ∧ w.accepted = some true ∧
    (∃ c, w.command = some c ∧ c.quiescence = .unconfirmed) ∧ w.Closed job
  | .finishing | .released => w.execution.isQuiescent = true ∧ w.Closed job ∧
    (w.Withdrawn job ∨ w.Resolved)

structure Sound (encodings : Encodings) (job : Job) (w : World) : Prop where
  facts : w.Facts encodings job
  fits : w.Fits job w.stage

theorem new_sound : new.Sound encodings job where
  facts :=
    { execution := Local.new_sound
      command := by simp [new]
      settled := by simp [new]
      closed := by simp [new]
      held := by simp [new]
      confirmed := by simp [new]
      accepted := by simp [new]
      lost := by simp [new] }
  fits := ⟨rfl, rfl, rfl, rfl⟩

theorem Sound.stop (sound : w.Sound encodings job) (stopping : Bool) :
    { w with stopping }.Sound encodings job :=
  ⟨⟨sound.facts.execution, sound.facts.command, sound.facts.settled, sound.facts.closed,
    sound.facts.held, sound.facts.confirmed, sound.facts.accepted, sound.facts.lost⟩, sound.fits⟩

theorem Facts.goto (facts : w.Facts encodings job) {stage : Stage} (fits : w.Fits job stage) :
    (w.goto stage).Sound encodings job :=
  ⟨⟨facts.execution, facts.command, facts.settled, facts.closed, facts.held, facts.confirmed,
    facts.accepted, facts.lost⟩, fits⟩

theorem closes_opened (job : Job) (w : World) : w.Closes job job.opened := by
  constructor
  · intro result done' governed
    simp [Job.opened, governed] at done'
  · intro done' held
    simp [Job.opened, held] at done'

theorem Closes.closed {closing : Closing} {result : Option CloseReply}
    (closes : w.Closes job closing) (resource : closing.resource = .done result)
    (hold : closing.hold = .done ()) : w.Closed job :=
  ⟨closes.1 result resource, closes.2 hold⟩

/- Local work. -/

theorem unused_step {context : ExecutionContext} {attempt : Option TaskAdmissionAttempt} {l : Local}
    (unused : l.stage = .unused) (action : LocalAction) :
    (l.step context encodings attempt action).stage = .unused := by
  cases action with
  | cancel => exact unused
  | ready | begin | answer | invoke | complete | classify | fail | lose | quiesce =>
    simp [Local.step, unused, Local.isRunning]

theorem Fits.over_or_executing {stage : Stage} (fits : w.Fits job stage) :
    w.execution.Over ∨ stage = .executing := by
  cases stage with
  | dispatching =>
    left
    rw [Local.Over, fits.1, Local.isRunning]
  | executing => exact .inr rfl
  | deferring => exact .inl fits.1
  | withdrawing => exact .inl (.of_quiescent fits.1)
  | reporting => exact .inl fits.1
  | draining => exact .inl fits.1
  | confirming => exact .inl (.of_quiescent fits.1)
  | finishing => exact .inl (.of_quiescent fits.1)
  | released => exact .inl (.of_quiescent fits.1)

/-- Local work goes on beside every stage. Once its supervisor has ended it can only wind up. -/
theorem Sound.work (sound : w.Sound encodings job) (action : LocalAction) :
    { w with execution := w.execution.step job.context encodings job.attempt action }.Sound encodings
      job := by
  have facts := sound.facts
  have fits := sound.fits
  have execution : (w.execution.step job.context encodings job.attempt action).Sound encodings
      job.attempt := facts.execution.step action
  obtain past | running := fits.over_or_executing
  · obtain ⟨over', trace, -, quiet⟩ : (w.execution.step job.context encodings job.attempt action).Over ∧
        (w.execution.step job.context encodings job.attempt action).trace = w.execution.trace ∧
        (w.execution.step job.context encodings job.attempt action).source = w.execution.source ∧
        (w.execution.isQuiescent = true →
          (w.execution.step job.context encodings job.attempt action).isQuiescent = true) :=
      past.step action
    have silent : w.execution.NotInvoked →
        (w.execution.step job.context encodings job.attempt action).NotInvoked := by
      intro silent now
      rw [trace]
      exact silent now
    have withdrawn : w.Withdrawn job → Withdrawn job
        { w with execution := w.execution.step job.context encodings job.attempt action } :=
      fun ⟨command, accepted, governed, none'⟩ => ⟨command, accepted, governed, silent none'⟩
    refine ⟨⟨execution, fun c h => ?_, facts.settled, fun c h => ?_, fun c h => ?_, fun o h => ?_,
      facts.accepted, facts.lost⟩, ?_⟩
    · obtain ⟨owner, confirmed⟩ := facts.command c h
      exact ⟨owner, fun h => quiet (confirmed h)⟩
    · obtain ⟨quiescent, sent⟩ := facts.closed c h
      exact ⟨quiet quiescent, sent⟩
    · obtain ⟨quiescent, sent⟩ := facts.held c h
      exact ⟨quiet quiescent, sent⟩
    · obtain ⟨quiescent, sent⟩ := facts.confirmed o h
      exact ⟨quiet quiescent, sent⟩
    · show Fits job _ w.stage
      revert fits
      cases w.stage with
      | dispatching => exact fun ⟨unused, blank⟩ => ⟨unused_step unused action, blank⟩
      | executing => exact id
      | deferring => exact fun ⟨_, none'⟩ => ⟨over', withdrawn none'⟩
      | withdrawing closing =>
        exact fun ⟨quiescent, none', closes⟩ => ⟨quiet quiescent, withdrawn none', closes⟩
      | reporting settle sources =>
        refine fun ⟨_, command, settled, closes⟩ => ⟨over', command, settled, fun c h => ?_⟩
        obtain ⟨quiescent, closes⟩ := closes c h
        exact ⟨quiescent.imp_left quiet, closes⟩
      | draining => exact fun ⟨_, rest⟩ => ⟨over', rest⟩
      | confirming exchange => exact fun ⟨quiescent, rest⟩ => ⟨quiet quiescent, rest⟩
      | finishing =>
        exact fun ⟨quiescent, closed, ended⟩ => ⟨quiet quiescent, closed, ended.imp_left withdrawn⟩
      | released =>
        exact fun ⟨quiescent, closed, ended⟩ => ⟨quiet quiescent, closed, ended.imp_left withdrawn⟩
  · rw [running] at fits
    obtain ⟨trace, command, accepted⟩ := fits
    refine ⟨⟨execution, by simp [command], by simp [trace], by simp [trace], by simp [trace],
      by simp [trace], by simp [accepted], by simp [accepted]⟩, ?_⟩
    show Fits job _ w.stage
    rw [running]
    exact ⟨trace, command, accepted⟩

/- The report. -/

theorem Sound.freeze (facts : w.Facts encodings job) (blank : w.Blank) (past : w.execution.Over)
    (report : AttemptReport) (probeFailure : Option ProviderProbeFailureKind) :
    (w.freeze job report probeFailure).Sound encodings job := by
  obtain ⟨trace, command, accepted⟩ := blank
  obtain ⟨quiescence, owner, -⟩ :=
    normalize_identity job.probe job.context (w.settlement job report probeFailure)
  refine ⟨⟨facts.execution, fun c h => ?_, ?_, ?_, ?_, ?_, ?_, ?_⟩, past, rfl, ?_, ?_⟩
  · obtain rfl : _ = c := Option.some.inj h
    refine ⟨owner, fun confirmed => ?_⟩
    rw [quiescence] at confirmed
    show w.execution.isQuiescent = true
    by_contra busy
    simp [settlement, busy] at confirmed
  · simp [World.freeze, stopUnlessQuiescent, trace]
  · simp [World.freeze, stopUnlessQuiescent, trace]
  · simp [World.freeze, stopUnlessQuiescent, trace]
  · simp [World.freeze, stopUnlessQuiescent, trace]
  · simp [World.freeze, stopUnlessQuiescent, accepted]
  · simp [World.freeze, stopUnlessQuiescent, accepted]
  · simp [World.freeze, stopUnlessQuiescent, accepted]
  · intro closing h
    obtain ⟨none', rfl⟩ : (job.attempt = none ∧ job.hold = none) ∧ job.opened = closing := by
      simpa using h
    exact ⟨.inr none', closes_opened job _⟩

theorem Sound.defer (facts : w.Facts encodings job) (blank : w.Blank) (past : w.execution.Over)
    (governed : job.attempt.isSome = true) (silent : w.execution.NotInvoked) :
    w.defer.Sound encodings job := by
  have sound : (w.goto .deferring).Sound encodings job :=
    facts.goto ⟨past, blank.2.1, blank.2.2, governed, silent⟩
  exact sound.stop _

theorem Sound.dispatch (sound : w.Sound encodings job) (stage : w.stage = .dispatching)
    (granted : Bool) : (w.dispatch encodings job granted).Sound encodings job := by
  have facts := sound.facts
  have fits := sound.fits
  rw [stage] at fits
  obtain ⟨unused, blank⟩ := fits
  have past : w.execution.Over := by rw [Local.Over, unused, Local.isRunning]
  have silent : w.execution.NotInvoked := facts.execution.before (by simp [unused, Local.Reached])
  unfold World.dispatch
  split
  · exact .freeze facts blank past _ _
  · have preparing : Local.Sound encodings job.attempt { w.execution with stage := .preparing } :=
      facts.execution.move (by simp [unused, Local.Reached]) (by simp)
    obtain ⟨trace, command, accepted⟩ := blank
    exact ⟨⟨preparing, by simp [command], by simp [trace], by simp [trace], by simp [trace],
      by simp [trace], by simp [accepted], by simp [accepted]⟩, trace, command, accepted⟩
  · rename_i governed
    refine .defer facts blank past ?_ silent
    simp [Job.attempt, governed]
  · exact .freeze facts blank past _ _

theorem Sound.reject (sound : w.Sound encodings job) (stage : w.stage = .dispatching)
    (report : AttemptReport) (probeFailure : Option ProviderProbeFailureKind) :
    (w.freeze job report probeFailure).Sound encodings job := by
  have fits := sound.fits
  rw [stage] at fits
  obtain ⟨unused, blank⟩ := fits
  have past : w.execution.Over := by rw [Local.Over, unused, Local.isRunning]
  exact .freeze sound.facts blank past _ _

theorem Sound.receive (sound : w.Sound encodings job) (stage : w.stage = .executing) :
    (w.receive job).Sound encodings job := by
  have facts := sound.facts
  have fits := sound.fits
  rw [stage] at fits
  have past : ∀ {result}, w.execution.result = some result → w.execution.Over :=
    facts.execution.over_of_result
  unfold World.receive
  split
  · rename_i given governed
    exact .defer facts fits (past given) (by simp [governed]) (facts.execution.deferred given)
  · rename_i given _
    exact .freeze facts fits (past given) _ _
  · rename_i given governed
    split
    · rename_i unstarted
      rw [neverInvoked, Bool.and_eq_true, Bool.not_eq_true'] at unstarted
      have governed : job.attempt.isSome = true := by simp [governed]
      exact .defer facts fits (past given) governed
        (facts.execution.truthful _ _ given unstarted.1 governed)
    · exact .freeze facts fits (past given) _ _
  · rename_i given _
    exact .freeze facts fits (past given) _ _
  · exact sound

/- Stages that only wait for each other. -/

theorem Sound.withdraw (sound : w.Sound encodings job) : (w.withdraw job).Sound encodings job := by
  unfold World.withdraw
  split
  · rename_i stage
    split
    · rename_i quiescent
      have fits := sound.fits
      rw [stage] at fits
      exact sound.facts.goto ⟨quiescent, fits.2, closes_opened job w⟩
    · exact sound
  · exact sound

theorem Sound.watch (sound : w.Sound encodings job) : (w.watch job).Sound encodings job := by
  unfold World.watch
  split
  · rename_i stage
    split
    · rename_i quiescent
      have fits := sound.fits
      rw [stage] at fits
      obtain ⟨past, command, settled, -⟩ := fits
      refine sound.facts.goto ⟨past, command, settled, fun closing h => ?_⟩
      obtain rfl : job.opened = closing := by simpa using h
      exact ⟨.inl quiescent, closes_opened job w⟩
    · exact sound
  · exact sound

theorem Sound.join (sound : w.Sound encodings job) : w.join.Sound encodings job := by
  have fits := sound.fits
  unfold World.join
  split
  · rename_i stage
    rw [stage] at fits
    obtain ⟨quiescent, withdrawn, closes⟩ := fits
    exact sound.facts.goto ⟨quiescent, closes.closed rfl rfl, .inl withdrawn⟩
  · rename_i stage
    rw [stage] at fits
    obtain ⟨past, command, settled, sources⟩ := fits
    exact sound.facts.goto ⟨past, command, settled.mpr rfl, (sources _ rfl).2.closed rfl rfl⟩
  · exact sound

theorem Sound.drain (sound : w.Sound encodings job) : w.drain.Sound encodings job := by
  have fits := sound.fits
  unfold World.drain
  split
  · rename_i command stage reported
    rw [stage] at fits
    obtain ⟨past, -, accepted, closed⟩ := fits
    split
    · rename_i quiescent
      split
      · rename_i open'
        exact sound.facts.goto ⟨quiescent, open'.1, ⟨command, reported, open'.2⟩, closed⟩
      · rename_i done'
        refine sound.facts.goto ⟨quiescent, closed, .inr ⟨command, reported, accepted, ?_⟩⟩
        exact fun accepted unconfirmed => absurd ⟨accepted, unconfirmed⟩ done'
    · exact sound
  · exact sound

/- Exchanges. -/

def IsAnswer : Event → Prop
  | .settleAnswered _ | .closeAnswered _ | .holdAnswered _ | .confirmAnswered _ => True
  | .settled _ | .closed _ | .held _ | .confirmed _ => False

/-- What is on record stays so. The event that comes to it must itself be in order. -/
theorem Facts.record (facts : w.Facts encodings job) {event : Event}
    (settled : ∀ c, event = .settled c → w.command = some c ∧ validSettlement c = true)
    (closed : ∀ c, event = .closed c → w.execution.isQuiescent = true ∧ ∃ a ∈ job.attempt,
      c = a.closeCommand (if w.command.isSome then .quiescent else .notInvoked))
    (held : ∀ c, event = .held c → w.execution.isQuiescent = true ∧ job.hold = some c)
    (confirmed : ∀ owner, event = .confirmed owner → w.execution.isQuiescent = true ∧
      w.accepted = some true ∧
        ∃ c, w.command = some c ∧ c.quiescence = .unconfirmed ∧ owner = c.owner) :
    (w.record event).Facts encodings job where
  execution := facts.execution
  command := facts.command
  settled c mem := by
    obtain new | old := List.mem_cons.mp mem
    · exact settled c new.symm
    · exact facts.settled c old
  closed c mem := by
    obtain new | old := List.mem_cons.mp mem
    · exact closed c new.symm
    · exact facts.closed c old
  held c mem := by
    obtain new | old := List.mem_cons.mp mem
    · exact held c new.symm
    · exact facts.held c old
  confirmed owner mem := by
    obtain new | old := List.mem_cons.mp mem
    · exact confirmed owner new.symm
    · exact facts.confirmed owner old
  accepted h := by
    obtain ⟨c, reply, command, mem, accepts⟩ := facts.accepted h
    exact ⟨c, reply, command, List.mem_cons_of_mem _ mem, accepts⟩
  lost h := List.mem_cons_of_mem _ (facts.lost h)

theorem Facts.answered (facts : w.Facts encodings job) {event : Event} (answer : IsAnswer event) :
    (w.record event).Facts encodings job := by
  refine facts.record ?_ ?_ ?_ ?_
  · rintro c rfl
    exact answer.elim
  · rintro c rfl
    exact answer.elim
  · rintro c rfl
    exact answer.elim
  · rintro owner rfl
    exact answer.elim

theorem CloseAnswered.record (answered : w.CloseAnswered) (event : Event) :
    (w.record event).CloseAnswered := by
  obtain ⟨reply, mem, definitive⟩ := answered
  exact ⟨reply, List.mem_cons_of_mem _ mem, definitive⟩

theorem HoldAnswered.record (answered : w.HoldAnswered) (event : Event) :
    (w.record event).HoldAnswered := by
  obtain ⟨reply, mem, definitive⟩ := answered
  exact ⟨reply, List.mem_cons_of_mem _ mem, definitive⟩

theorem Closes.record {closing : Closing} (closes : w.Closes job closing) (event : Event) :
    (w.record event).Closes job closing :=
  ⟨fun result done' governed => (closes.1 result done' governed).record event,
    fun done' held => (closes.2 done' held).record event⟩

theorem Closed.record (closed : w.Closed job) (event : Event) : (w.record event).Closed job :=
  ⟨fun governed => (closed.1 governed).record event, fun held => (closed.2 held).record event⟩

/-- What is being closed has its stage. Quiescent, unless there is nothing to close. -/
theorem Sound.closing (sound : w.Sound encodings job) {closing : Closing}
    {outcome : TaskAdmissionCloseOutcome} (open' : w.closing = some (closing, outcome)) :
    (w.execution.isQuiescent = true ∨ job.attempt = none ∧ job.hold = none) ∧
      w.Closes job closing ∧
      outcome = (if w.command.isSome then .quiescent else .notInvoked) := by
  have fits := sound.fits
  unfold World.closing at open'
  split at open'
  · rename_i stage
    rw [stage] at fits
    obtain ⟨quiescent, ⟨command, -⟩, closes⟩ := fits
    obtain ⟨rfl, rfl⟩ := Prod.mk.inj (Option.some.inj open')
    exact ⟨.inl quiescent, closes, by simp [command]⟩
  · rename_i stage
    rw [stage] at fits
    obtain ⟨-, command, -, sources⟩ := fits
    obtain ⟨rfl, rfl⟩ := Prod.mk.inj (Option.some.inj open')
    exact ⟨(sources _ rfl).1, (sources _ rfl).2, by simp [command]⟩
  · cases open'

/-- After an event on record, what is being closed may move on as the answers allow. -/
theorem Sound.setClosing (sound : w.Sound encodings job) {event : Event}
    (facts : (w.record event).Facts encodings job) {old next : Closing}
    {outcome : TaskAdmissionCloseOutcome} (open' : w.closing = some (old, outcome))
    (closes : (w.record event).Closes job next) :
    ((w.record event).setClosing next).Sound encodings job := by
  have fits := sound.fits
  obtain ⟨quiescent, -, -⟩ := sound.closing open'
  unfold World.closing at open'
  unfold World.setClosing
  split at open'
  · rename_i stage
    rw [stage] at fits
    simp only [World.record, stage]
    exact facts.goto ⟨fits.1, fits.2.1, closes⟩
  · rename_i stage
    rw [stage] at fits
    obtain ⟨past, command, settled, -⟩ := fits
    simp only [World.record, stage]
    refine facts.goto ⟨past, command, settled, fun closing h => ?_⟩
    obtain rfl := Option.some.inj h
    exact ⟨quiescent, closes⟩
  · cases open'

theorem fatal_setClosing (w : World) (closing : Closing) :
    w.fatal.setClosing closing = (w.setClosing closing).fatal := by
  cases stage : w.stage with
  | withdrawing => simp [World.setClosing, fatal, stage, goto]
  | reporting settle sources =>
    cases sources with
    | none => simp [World.setClosing, fatal, stage]
    | some => simp [World.setClosing, fatal, stage, goto]
  | dispatching | executing | deferring | draining | confirming | finishing | released =>
    simp [World.setClosing, fatal, stage]

theorem Sound.fatal (sound : w.Sound encodings job) : w.fatal.Sound encodings job :=
  sound.stop true

theorem Sound.sendClose (sound : w.Sound encodings job) : (w.sendClose job).Sound encodings job := by
  unfold World.sendClose
  split
  · rename_i hold outcome a open' governed
    obtain ⟨quiescent, closes, rfl⟩ := sound.closing open'
    have quiet : w.execution.isQuiescent = true := quiescent.resolve_right (by simp [governed])
    refine sound.setClosing ?_ open' ⟨by simp, (closes.record _).2⟩
    refine sound.facts.record (by simp) (fun c same => ⟨quiet, a, governed, ?_⟩) (by simp) (by simp)
    exact (Event.closed.inj same).symm
  · exact sound

theorem Sound.answerClose (sound : w.Sound encodings job) (reply : Result CloseReply) :
    (w.answerClose encodings job reply).Sound encodings job := by
  unfold World.answerClose
  split
  · rename_i hold outcome a open' governed
    obtain ⟨-, closes, -⟩ := sound.closing open'
    have facts : (w.record (.closeAnswered reply)).Facts encodings job :=
      sound.facts.answered trivial
    have later := closes.record (.closeAnswered reply)
    have ended : Definitive reply → ∀ result : Option CloseReply,
        ((w.record (.closeAnswered reply)).setClosing ⟨.done result, hold⟩).Sound encodings job :=
      fun definitive result => sound.setClosing facts open'
        ⟨fun _ _ _ => ⟨reply, List.mem_cons_self, definitive⟩, later.2⟩
    cases reply with
    | ok receipt =>
      have definitive : Definitive (.ok receipt : Result CloseReply) := by simp [Definitive]
      simp only
      split
      · exact ended definitive _
      · rw [fatal_setClosing]
        exact (ended definitive _).fatal
    | error error =>
      simp only
      split
      · exact sound.setClosing facts open' ⟨by simp, later.2⟩
      · rename_i refused
        have definitive : Definitive (.error error : Result CloseReply) := by
          rintro _ ⟨⟩
          simpa using refused
        rw [fatal_setClosing]
        exact (ended definitive _).fatal
  · exact sound

theorem Sound.sendHold (sound : w.Sound encodings job) : (w.sendHold job).Sound encodings job := by
  unfold World.sendHold
  split
  · rename_i resource outcome command open' held
    obtain ⟨quiescent, closes, -⟩ := sound.closing open'
    have quiet : w.execution.isQuiescent = true := quiescent.resolve_right (by simp [held])
    refine sound.setClosing ?_ open' ⟨(closes.record _).1, by simp⟩
    refine sound.facts.record (by simp) (by simp) (fun c same => ⟨quiet, ?_⟩) (by simp)
    rw [held, Event.held.inj same]
  · exact sound

theorem Sound.answerHold (sound : w.Sound encodings job) (reply : Result QueueHoldCloseReceipt) :
    (w.answerHold encodings job reply).Sound encodings job := by
  unfold World.answerHold
  split
  · rename_i resource outcome command open' held
    obtain ⟨-, closes, -⟩ := sound.closing open'
    have facts : (w.record (.holdAnswered reply)).Facts encodings job :=
      sound.facts.answered trivial
    have later := closes.record (.holdAnswered reply)
    have ended : Definitive reply →
        ((w.record (.holdAnswered reply)).setClosing ⟨resource, .done ()⟩).Sound encodings job :=
      fun definitive => sound.setClosing facts open'
        ⟨later.1, fun _ _ => ⟨reply, List.mem_cons_self, definitive⟩⟩
    cases reply with
    | ok receipt =>
      have definitive : Definitive (.ok receipt : Result QueueHoldCloseReceipt) := by
        simp [Definitive]
      simp only
      split
      · exact ended definitive
      · rw [fatal_setClosing]
        exact (ended definitive).fatal
    | error error =>
      simp only
      split
      · exact sound.setClosing facts open' ⟨later.1, by simp⟩
      · rename_i refused
        have definitive : Definitive (.error error : Result QueueHoldCloseReceipt) := by
          rintro _ ⟨⟩
          simpa using refused
        rw [fatal_setClosing]
        exact (ended definitive).fatal
  · exact sound

theorem Sound.sendSettle (sound : w.Sound encodings job) : w.sendSettle.Sound encodings job := by
  have fits := sound.fits
  unfold World.sendSettle
  split
  · rename_i sources command stage reported
    rw [stage] at fits
    obtain ⟨past, some', none', closes⟩ := fits
    split
    · rename_i valid
      have facts : (w.record (.settled command)).Facts encodings job := by
        refine sound.facts.record (fun c same => ?_) (by simp) (by simp) (by simp)
        obtain rfl := Event.settled.inj same
        exact ⟨reported, valid⟩
      refine facts.goto ⟨past, some', by simpa [World.record] using none', fun closing h => ?_⟩
      obtain ⟨quiescent, closes⟩ := closes closing h
      exact ⟨quiescent, closes.record _⟩
    · exact sound.fatal
  · exact sound

theorem Sound.answerSettle (sound : w.Sound encodings job) (reply : Result SettleReply) :
    (w.answerSettle reply).Sound encodings job := by
  have fits := sound.fits
  unfold World.answerSettle
  split
  · rename_i sources command stage reported
    rw [stage] at fits
    obtain ⟨past, some', none', closes⟩ := fits
    have none' : w.accepted = none := by simpa using none'
    have facts : (w.record (.settleAnswered reply)).Facts encodings job :=
      sound.facts.answered trivial
    have open' : ∀ closing, sources = some closing →
        (w.execution.isQuiescent = true ∨ job.attempt = none ∧ job.hold = none) ∧
          (w.record (.settleAnswered reply)).Closes job closing := by
      intro closing h
      obtain ⟨quiescent, closes⟩ := closes closing h
      exact ⟨quiescent, closes.record _⟩
    have again : ((w.record (.settleAnswered reply)).goto (.reporting .asking sources)).Sound
        encodings job :=
      facts.goto ⟨past, some', by simp [World.record, none'], open'⟩
    -- Nothing was confirmed before the settlement has its answer.
    have unconfirmed : ∀ owner, .confirmed owner ∉ (w.record (.settleAnswered reply)).trace := by
      intro owner mem
      have accepted := (facts.confirmed owner mem).2.1
      rw [World.record, none'] at accepted
      cases accepted
    have answered : ∀ accepted : Bool,
        (accepted = true → ∃ receipt, reply = .ok receipt ∧ accepts command receipt = true) →
        (accepted = false → reply = .error .ownershipLost) →
        Sound encodings job { w.record (.settleAnswered reply) with
          accepted := some accepted, stage := .reporting (.done ()) sources } := by
      intro accepted taken lost
      refine ⟨⟨facts.execution, facts.command, facts.settled, facts.closed, facts.held,
        fun owner mem => absurd mem (unconfirmed owner), fun h => ?_, fun h => ?_⟩,
        past, some', by simp, open'⟩
      · obtain ⟨receipt, rfl, good⟩ := taken (Option.some.inj h)
        exact ⟨command, receipt, reported, List.mem_cons_self, good⟩
      · rw [← lost (Option.some.inj h)]
        exact List.mem_cons_self
    cases reply with
    | ok receipt =>
      simp only
      split
      · rename_i good
        exact answered true (fun _ => ⟨receipt, rfl, good⟩) (by simp)
      · exact again.fatal
    | error error =>
      simp only
      split
      · rename_i h
        cases h
      · rename_i h
        exact answered false (by simp) fun _ => h
      · split
        · exact again
        · exact again.fatal
  · exact sound

theorem Sound.sendConfirm (sound : w.Sound encodings job) : w.sendConfirm.Sound encodings job := by
  have fits := sound.fits
  unfold World.sendConfirm
  split
  · rename_i command stage reported
    rw [stage] at fits
    obtain ⟨quiescent, accepted, ⟨c, same, unconfirmed⟩, closed⟩ := fits
    obtain rfl : command = c := Option.some.inj (reported.symm.trans same)
    have facts : (w.record (.confirmed command.owner)).Facts encodings job := by
      refine sound.facts.record (by simp) (by simp) (by simp) fun owner h => ?_
      exact ⟨quiescent, accepted, command, reported, unconfirmed, (Event.confirmed.inj h).symm⟩
    exact facts.goto ⟨quiescent, accepted, ⟨command, reported, unconfirmed⟩, closed.record _⟩
  · exact sound

theorem Sound.answerConfirm (sound : w.Sound encodings job) (reply : Result TaskState) :
    (w.answerConfirm reply).Sound encodings job := by
  have fits := sound.fits
  unfold World.answerConfirm
  split
  · rename_i stage
    rw [stage] at fits
    obtain ⟨quiescent, accepted, ⟨command, reported, unconfirmed⟩, closed⟩ := fits
    have facts : (w.record (.confirmAnswered reply)).Facts encodings job :=
      sound.facts.answered trivial
    have again : ((w.record (.confirmAnswered reply)).goto (.confirming .asking)).Sound encodings
        job := facts.goto ⟨quiescent, accepted, ⟨command, reported, unconfirmed⟩, closed.record _⟩
    have finished : (w.record (.confirmAnswered reply)).ConfirmAnswered →
        ((w.record (.confirmAnswered reply)).goto .finishing).Sound encodings job := by
      intro answered
      have some' : w.accepted.isSome = true := by rw [accepted]; rfl
      exact facts.goto ⟨quiescent, closed.record _,
        .inr ⟨command, reported, some', fun _ _ => answered⟩⟩
    cases reply with
    | ok state => exact finished (.inl ⟨state, List.mem_cons_self⟩)
    | error error =>
      simp only
      split
      · rename_i h
        cases h
      · rename_i h
        rw [h] at finished ⊢
        exact finished (.inr List.mem_cons_self)
      · split
        · exact again
        · exact again.fatal
  · exact sound

theorem Sound.step (sound : w.Sound encodings job) (action : Action) :
    (w.step encodings job action).Sound encodings job := by
  unfold World.step
  split
  · exact sound.work _
  · rename_i stage
    exact sound.dispatch stage _
  · rename_i stage
    split
    · exact sound.reject stage _ _
    · exact sound
  · rename_i stage
    exact sound.receive stage
  · exact sound.withdraw
  · exact sound.sendClose
  · exact sound.answerClose _
  · exact sound.sendHold
  · exact sound.answerHold _
  · exact sound.sendSettle
  · exact sound.answerSettle _
  · exact sound.watch
  · exact sound.join
  · exact sound.drain
  · exact sound.sendConfirm
  · exact sound.answerConfirm _
  · rename_i stage
    have fits := sound.fits
    rw [stage] at fits
    exact sound.facts.goto fits
  · exact sound

theorem Sound.run (sound : w.Sound encodings job) (actions : List Action) :
    (w.run encodings job actions).Sound encodings job := by
  induction actions generalizing w with
  | nil => exact sound
  | cons action actions ih => exact ih (sound.step action)

/-- An attempt that made no report ran none of its user code, wherever it stands. -/
theorem Sound.withdrawn (sound : w.Sound encodings job) {c : TaskAdmissionCloseCommand}
    (sent : .closed c ∈ w.trace) (outcome : c.outcome = .notInvoked) :
    w.command = none ∧ w.execution.NotInvoked := by
  have none' : w.command = none := by
    obtain ⟨-, a, -, rfl⟩ := sound.facts.closed c sent
    by_contra some'
    simp [TaskAdmissionAttempt.closeCommand, Option.isSome_iff_ne_none.mpr some'] at outcome
  refine ⟨none', ?_⟩
  have fits := sound.fits
  have silent : w.trace ≠ [] := List.ne_nil_of_mem sent
  revert fits
  cases w.stage with
  | dispatching => exact fun ⟨_, blank⟩ => absurd blank.1 silent
  | executing => exact fun blank => absurd blank.1 silent
  | deferring => exact fun ⟨_, withdrawn⟩ => withdrawn.2.2.2
  | withdrawing => exact fun ⟨_, withdrawn, _⟩ => withdrawn.2.2.2
  | reporting => exact fun ⟨_, some', _⟩ => by simp [none'] at some'
  | draining => exact fun ⟨_, some', _⟩ => by simp [none'] at some'
  | confirming => exact fun ⟨_, _, ⟨_, some', _⟩, _⟩ => by simp [none'] at some'
  | finishing =>
    rintro ⟨_, _, withdrawn | ⟨_, some', _⟩⟩
    · exact withdrawn.2.2.2
    · simp [none'] at some'
  | released =>
    rintro ⟨_, _, withdrawn | ⟨_, some', _⟩⟩
    · exact withdrawn.2.2.2
    · simp [none'] at some'

/-- The consumer is free only when its work and its report are resolved. -/
theorem Sound.freed (sound : w.Sound encodings job) (released : w.stage = .released) :
    w.execution.isQuiescent = true ∧ w.Closed job ∧ ∀ c, w.command = some c →
      (∃ reply, .settleAnswered (.ok reply) ∈ w.trace ∧ accepts c reply = true ∧
        (c.quiescence = .unconfirmed → w.ConfirmAnswered)) ∨
      .settleAnswered (.error .ownershipLost) ∈ w.trace := by
  have fits := sound.fits
  rw [released] at fits
  obtain ⟨quiescent, closed, ended⟩ := fits
  refine ⟨quiescent, closed, fun c reported => ?_⟩
  obtain withdrawn | ⟨d, same, answered, confirmed⟩ := ended
  · simp [withdrawn.1] at reported
  obtain rfl : d = c := Option.some.inj (same.symm.trans reported)
  obtain ⟨accepted, taken⟩ := Option.isSome_iff_exists.mp answered
  cases accepted with
  | true =>
    obtain ⟨e, reply, same, mem, accepts⟩ := sound.facts.accepted taken
    obtain rfl : e = d := Option.some.inj (same.symm.trans reported)
    exact .inl ⟨reply, mem, accepts, confirmed taken⟩
  | false => exact .inr (sound.facts.lost taken)

/-- What was sent is consistent, what needs quiescence was sent under it, and the consumer is
released last. Every state of a run is such, so each of this is so when it happens. -/
structure Consistent (encodings : Encodings) (job : Job) (actions : List Action) (w : World) :
    Prop where
  identical : ∀ c d, .settled c ∈ w.trace → .settled d ∈ w.trace → c = d
  confirmedOnly : ∀ c, .settled c ∈ w.trace → c.quiescence = .confirmed →
    w.execution.isQuiescent = true
  closedOnly : ∀ c, .closed c ∈ w.trace → w.execution.isQuiescent = true
  heldOnly : ∀ c, .held c ∈ w.trace → w.execution.isQuiescent = true
  confirmOnly : ∀ owner, .confirmed owner ∈ w.trace → w.execution.isQuiescent = true
  exclusive : ∀ c d, .closed c ∈ w.trace → c.outcome = .notInvoked → .settled d ∉ w.trace
  truthful : ∀ c, .closed c ∈ w.trace → c.outcome = .notInvoked →
    ∀ now, .invoked now ∉ w.execution.trace
  oneShot : w.execution.trace.countP Local.isStarted ≤ 1
  granted : job.attempt.isSome = true → ∀ now, .invoked now ∈ w.execution.trace →
    Ran encodings job actions now
  released : w.stage = .released → w.execution.isQuiescent = true ∧ w.Closed job ∧
    ∀ c, w.command = some c →
      (∃ reply, .settleAnswered (.ok reply) ∈ w.trace ∧ accepts c reply = true ∧
        (c.quiescence = .unconfirmed → w.ConfirmAnswered)) ∨
      .settleAnswered (.error .ownershipLost) ∈ w.trace

/-- One assignment under any order of local work, exchanges and cleanup. -/
theorem attempt_reports_consistently (encodings : Encodings) (job : Job) (actions : List Action) :
    (new.run encodings job actions).Consistent encodings job actions := by
  have sound : (new.run encodings job actions).Sound encodings job := new_sound.run actions
  have facts := sound.facts
  constructor
  case identical =>
    intro c d hc hd
    exact Option.some.inj ((facts.settled c hc).1.symm.trans (facts.settled d hd).1)
  case confirmedOnly =>
    intro c sent
    exact (facts.command c (facts.settled c sent).1).2
  case closedOnly => exact fun c sent => (facts.closed c sent).1
  case heldOnly => exact fun c sent => (facts.held c sent).1
  case confirmOnly => exact fun owner sent => (facts.confirmed owner sent).1
  case exclusive =>
    intro c d sent outcome settled
    have none' := (sound.withdrawn sent outcome).1
    rw [(facts.settled d settled).1] at none'
    cases none'
  case truthful => exact fun c sent outcome => (sound.withdrawn sent outcome).2
  case oneShot =>
    have once := facts.execution.once
    split at once
    · exact once
    · omega
  case granted =>
    intro governed now invoked
    refine ((explained encodings job actions).invoked now invoked).resolve_left fun plain => ?_
    rw [plain] at governed
    cases governed
  case released => exact sound.freed

def plainContext : ExecutionContext where
  identity := ⟨none, none, "source", "event", "tenant", "space", "run", none, none, "task", "attempt",
    1, none, none⟩
  program := ⟨"program", "1"⟩
  digest := ⟨"sha256:"⟩

def plainJob : Job :=
  ⟨plainContext, ⟨⟨"tenant", "space"⟩, "task", "attempt", "lease", 1, "session", 0⟩, .ok none, none,
    false, none⟩

def lateCleanup : List Action :=
  [.dispatch true, .work (.invoke (.ok ()) 5 ⟨none, none⟩),
    .work (.complete ⟨none, plainContext, 7, false, .failure "kind" "message", 3⟩), .receive,
    .sendSettle, .answerSettle (.error (.unavailable "lost")), .sendSettle,
    .answerSettle (.ok ⟨⟨"worker-result-v1", "task", "attempt", 4⟩, false, .succeeded⟩), .join,
    .work .quiesce, .drain, .sendConfirm, .answerConfirm (.ok .succeeded), .release]

def isReleased : Stage → Bool
  | .released => true
  | _ => false

example : isReleased (new.run ⟨fun _ => ⟨"b"⟩, fun _ => ⟨"h"⟩, fun _ => "e"⟩ plainJob
    lateCleanup).stage = true := by
  decide +kernel

end Ledgence.Attempts.World
