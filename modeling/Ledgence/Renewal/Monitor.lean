import Ledgence.Core.Authority

/-! Permission to execute one assignment: what the lock of a renewal monitor guards. Instants are
nanoseconds of the worker's monotonic clock. -/
open Kit Kit.Checked

namespace Ledgence.Renewal

deriving instance DecidableEq for LeaseReply

def controlRequestTimeoutMs : Nat := 30000

structure RunControl where
  flag : Nat
  deadline : Nat
  deriving DecidableEq

/-- The flags made so far are the numbers below `created`. -/
structure Flags where
  created : Nat
  cancelled : List Nat
  deriving DecidableEq

inductive ControlError where
  | cancelled
  | timedOut
  deriving DecidableEq

namespace RunControl

def withDeadline (flags : Flags) (deadline : Nat) : RunControl × Flags :=
  (⟨flags.created, deadline⟩, { flags with created := flags.created + 1 })

def cancel (control : RunControl) (flags : Flags) : Flags :=
  { flags with cancelled := control.flag :: flags.cancelled }

def isCancelled (control : RunControl) (flags : Flags) : Bool :=
  decide (control.flag ∈ flags.cancelled)

def check (control : RunControl) (flags : Flags) (now : Nat) : Except ControlError Unit := do
  refuse (control.isCancelled flags = true) .cancelled
  refuse (control.deadline ≤ now) .timedOut

@[simp] theorem isCancelled_cancel (control : RunControl) (flags : Flags) :
    control.isCancelled (control.cancel flags) = true := by
  simp [isCancelled, cancel]

theorem isCancelled_mono {control other : RunControl} {flags : Flags}
    (h : control.isCancelled flags = true) : control.isCancelled (other.cancel flags) = true := by
  rw [isCancelled, decide_eq_true_eq] at h ⊢
  exact List.mem_cons_of_mem _ h

end RunControl

/-- Acquiring an identity does not establish a local execution deadline. -/
inductive Phase where
  | awaitingAuthority (deadline : Nat)
  | confirmed (control : RunControl)
  | stopped
  deriving DecidableEq

structure Permission where
  tracker : LeaseTracker
  phase : Phase
  ready : Bool
  consumed : Bool
  preparing : Bool
  deriving DecidableEq

inductive Panic where
  | confirmedAuthorityHasADeadline
  | dispatchPermissionRequiresConfirmedAuthority
  deriving DecidableEq

structure Held where
  permission : Permission
  flags : Flags
  deriving DecidableEq

namespace Held

def stopped (h : Held) : Bool :=
  decide (h.permission.phase = .stopped)

def stop (h : Held) : Held where
  permission := { h.permission with phase := .stopped, ready := false }
  flags :=
    match h.permission.phase with
    | .confirmed control => control.cancel h.flags
    | .awaitingAuthority _ | .stopped => h.flags

def observe (h : Held) (now : Nat) : Held :=
  match h.permission.phase with
  | .confirmed _ =>
    { h with permission := { h.permission with tracker := h.permission.tracker.observe now } }
  | .awaitingAuthority _ | .stopped => h

def expired (h : Held) (now later : Nat) : Bool :=
  match h.permission.phase with
  | .awaitingAuthority deadline => decide (deadline ≤ now)
  | .confirmed control =>
    decide (h.permission.tracker.state ≠ .active) || !(control.check h.flags later).isOk
  | .stopped => true

def check (h : Held) (stopping : Bool) (now later : Nat) : Held :=
  let h := h.observe now
  if stopping || h.expired now later then h.stop else h

def judge (tracker : LeaseTracker) (authority : Authority) (intent : RenewIntent) (now : Nat) :
    LeaseTracker × Bool :=
  if intent = .prepare then
    let tracker := tracker.observe now
    (tracker, decide (tracker.state = .active) && !authority.cancelRequested)
  else
    let (tracker, passes) := tracker.checkDispatch now
    (tracker, passes.isOk)

def confirm (h : Held) (authority : Authority) (intent : RenewIntent) (now : Nat) :
    Except Panic Held :=
  let (tracker, ready) := judge h.permission.tracker authority intent now
  let h := { h with permission := { h.permission with tracker, ready } }
  if ready = false then .ok h.stop
  else
    match h.permission.phase with
    | .awaitingAuthority _ =>
      match tracker.executionDeadline with
      | none => .error .confirmedAuthorityHasADeadline
      | some deadline =>
        let (control, flags) := RunControl.withDeadline h.flags deadline
        .ok ⟨{ h.permission with phase := .confirmed control }, flags⟩
    | .confirmed _ | .stopped => .ok h

def applyReply (top : Nat) (h : Held) (authority : Authority) (intent : RenewIntent)
    (started now : Nat) : Except Panic Held :=
  match h.permission.tracker.apply top authority started now with
  | (tracker, .error _) =>
    .ok (stop { h with permission := { h.permission with tracker } })
  | (tracker, .ok _) =>
    let h := { h with permission := { h.permission with tracker } }
    match intent with
    | .dispatch | .prepare => h.confirm authority intent now
    | .keepAlive => .ok h

/-- Initial confirmation has one fixed deadline across retries, so permission is checked first. -/
def accept (top : Nat) (h : Held) (authority : Authority) (command : RenewCommand)
    (started now later : Nat) : Except Panic Held :=
  let h := h.check false now later
  if h.stopped = true then .ok h else h.applyReply top authority command.intent started now

end Held

inductive Dispatch where
  | waiting
  | refused
  | granted (control : RunControl)
  deriving DecidableEq

/-- One look of `dispatch` at the permission, after its check. -/
def Held.take (h : Held) (now later : Nat) : Except Panic (Held × Dispatch) :=
  if h.stopped = true then .ok (h, .refused)
  else if h.permission.ready = true then
    match h.permission.phase with
    | .confirmed control =>
      let (tracker, passes) :=
        if h.permission.preparing = true then (h.permission.tracker, true)
        else
          let (tracker, passes) := h.permission.tracker.checkDispatch now
          (tracker, passes.isOk)
      let h := { h with permission := { h.permission with tracker } }
      if passes && (control.check h.flags later).isOk then
        .ok ({ h with permission := { h.permission with consumed := true } }, .granted control)
      else .ok (h.stop, .refused)
    | .awaitingAuthority _ | .stopped => .error .dispatchPermissionRequiresConfirmedAuthority
  else .ok (h, .waiting)

/-- `new`: the permission of an assignment received at `now`. -/
def Held.new (assignment : Assignment) (now : Nat) : Held where
  permission :=
    { tracker := .new assignment.lease.owner
      phase :=
        if assignment.authority.cancelRequested = true ∨ assignment.authority.remainingMs = 0 ∨
            assignment.authority.executionRemainingMs = 0 then .stopped
        else .awaitingAuthority (now + controlRequestTimeoutMs * nanosPerMs)
      ready := false
      consumed := false
      preparing := assignment.taskAdmission.isSome }
  flags := ⟨0, []⟩

end Ledgence.Renewal

/-! The monitor of one assignment: the renewal actor, the consumer that waits for permission, and
all others that may stop it. One action is one section under the lock, or one look at a flag. -/

namespace Ledgence.Renewal

/-- `top` is the last instant of the platform, the delays are in nanoseconds. -/
structure Config where
  top : Nat
  retryDelay : Nat
  renewInterval : Nat

inductive Stage where
  | starting
  /-- At the top of the loop, before and after its check. -/
  | looking
  | looked
  /-- The exchange runs; a tick checks permission and then looks at `done`. -/
  | exchanging (started : Nat)
  | ticked (started : Nat)
  /-- The exchange has ended, before and after the check that follows it. -/
  | replied (started : Nat) (result : Result Authority)
  | weighed (started : Nat) (result : Result Authority)
  /-- A reply was accepted, and the next intent is not chosen yet. -/
  | renewed
  /-- On the way out, before the guard stops the monitor. -/
  | leaving
  | returned

structure Actor where
  stage : Stage
  command : RenewCommand
  sent : Bool
  next : Nat

inductive Event where
  | sent (command : RenewCommand)
  | received (authority : Authority)
  /-- A reply reached the lease tracker. -/
  | applied (reply : LeaseReply)
  | granted (control : RunControl)
  deriving DecidableEq

/-- The trace and the panics are a record, newest first. -/
structure World where
  held : Held
  done : Bool
  actor : Actor
  trace : List Event
  panics : List Panic

inductive Action where
  | start (now : Nat)
  | look (stopping : Bool) (now later : Nat)
  | proceed (now started : Nat)
  | tick (stopping : Bool) (now later : Nat)
  | resume
  | reply (result : Result Authority)
  | weigh (stopping : Bool) (now later : Nat)
  /-- The clock is read for acceptance, by the control, and for the next turn. -/
  | conclude (now later next : Nat)
  | schedule (now : Nat)
  | leave
  /-- The task of the actor is dropped, or panics. -/
  | abandon
  /-- A call of `dispatch` goes through these two in turn, and sleeps between turns. -/
  | dispatchCheck (stopping : Bool) (now later : Nat)
  | take (now later : Nat)
  | stop
  | finish
  /-- A holder of the control cancels it. -/
  | cancel (control : RunControl)

def retryable : ContractError → Bool
  | .unavailable _ | .busy => true
  | _ => false

def Held.intent (h : Held) : RenewIntent :=
  if h.permission.consumed || h.stopped then .keepAlive
  else if h.permission.preparing = true then .prepare
  else .dispatch

namespace World

def new (assignment : Assignment) (now : Nat) : World where
  held := .new assignment now
  done := false
  actor :=
    { stage := .starting
      command :=
        { owner := assignment.lease.owner
          sequence := assignment.authority.renewSequence
          intent := if assignment.taskAdmission.isSome = true then .prepare else .dispatch }
      sent := false
      next := now }
  trace := []
  panics := []

variable (w : World)

def goto (stage : Stage) : World :=
  { w with actor := { w.actor with stage } }

def check (stopping : Bool) (now later : Nat) : World :=
  { w with held := w.held.check stopping now later }

def stop : World :=
  { w with held := w.held.stop }

def start (now : Nat) : World :=
  match checkedAdd u64Max w.actor.command.sequence 1 with
  | none => w.stop.goto .leaving
  | some sequence =>
    { w with actor :=
        ⟨.looking, { w.actor.command with sequence := sequence }, false, now⟩ }

/-- Before the first send, stopping changes the intent. Once sent, every uncertain retry retains
the exact command; an exchange that ends before its call is one whose request is lost. -/
def send (started : Nat) : World :=
  let command : RenewCommand :=
    if !w.actor.sent && w.held.stopped then { w.actor.command with intent := .keepAlive }
    else w.actor.command
  { w with
    actor := { w.actor with stage := .exchanging started, command, sent := true }
    trace := .sent command :: w.trace }

def proceed (now started : Nat) : World :=
  if w.done = true then w.goto .leaving
  else if now < w.actor.next then w.goto .looking
  else w.send started

def receive (started : Nat) (result : Result Authority) : World :=
  { w.goto (.replied started result) with
    trace :=
      match result with
      | .ok authority => .received authority :: w.trace
      | .error _ => w.trace }

def retry (config : Config) (next : Nat) : World :=
  { w with actor := { w.actor with stage := .looking, next := next + config.retryDelay } }

def advance : World :=
  match checkedAdd u64Max w.actor.command.sequence 1 with
  | none => w.stop.goto .leaving
  | some sequence =>
    { w with actor :=
        { w.actor with
          stage := .renewed
          command := { w.actor.command with sequence := sequence }
          sent := false } }

def accept (config : Config) (authority : Authority) (started now later : Nat) : World :=
  let applies := !(w.held.check false now later).stopped
  match w.held.accept config.top authority w.actor.command started now later with
  | .error panic => { w.goto .leaving with panics := panic :: w.panics }
  | .ok held =>
    { w with
      held
      trace := if applies then .applied ⟨authority, started, now⟩ :: w.trace else w.trace }.advance

def conclude (config : Config) (started : Nat) (result : Result Authority)
    (now later next : Nat) : World :=
  match result with
  | .ok authority =>
    if authority.owner ≠ w.actor.command.owner ∨
        authority.renewSequence ≠ w.actor.command.sequence then
      -- A malformed response is not evidence of acceptance.
      w.stop.retry config next
    else w.accept config authority started now later
  | .error error =>
    if retryable error = true then w.retry config next else w.stop.goto .leaving

def schedule (config : Config) (now : Nat) : World :=
  { w with actor :=
      { w.actor with
        stage := .looking
        command := { w.actor.command with intent := w.held.intent }
        next := now + config.renewInterval } }

def take (now later : Nat) : World :=
  match w.held.take now later with
  | .error panic => { w with panics := panic :: w.panics }
  | .ok (held, .granted control) => { w with held, trace := .granted control :: w.trace }
  | .ok (held, _) => { w with held }

def cancel (control : RunControl) : World :=
  if .granted control ∈ w.trace then
    { w with held := { w.held with flags := control.cancel w.held.flags } }
  else w

/-- An action at a stage that it does not belong to does nothing. -/
def step (config : Config) (action : Action) : World :=
  match action, w.actor.stage with
  | .start now, .starting => w.start now
  | .look stopping now later, .looking => (w.check stopping now later).goto .looked
  | .proceed now started, .looked => w.proceed now started
  | .tick stopping now later, .exchanging started =>
    (w.check stopping now later).goto (.ticked started)
  | .resume, .ticked started =>
    if w.done = true then w.goto .leaving else w.goto (.exchanging started)
  | .reply result, .exchanging started => w.receive started result
  | .weigh stopping now later, .replied started result =>
    (w.check stopping now later).goto (.weighed started result)
  | .conclude now later next, .weighed started result =>
    w.conclude config started result now later next
  | .schedule now, .renewed => w.schedule config now
  | .leave, .leaving => w.stop.goto .returned
  | .abandon, _ => w.stop.goto .returned
  | .dispatchCheck stopping now later, _ => w.check stopping now later
  | .take now later, _ => w.take now later
  | .stop, _ => w.stop
  | .finish, _ => { w with done := true }
  | .cancel control, _ => w.cancel control
  | _, _ => w

def run (config : Config) (actions : List Action) : World :=
  actions.foldl (fun w action => w.step config action) w

end World
end Ledgence.Renewal
