import Ledgence.Attempts.Local

/-! One assignment from dispatch to the release of its consumer. The settlement, the closing of
its sources and the local execution go on side by side; one action is one step of one of them. -/
open Kit Kit.Checked

namespace Ledgence.Attempts

structure Job where
  context : ExecutionContext
  /-- The owner that the monitor keeps. -/
  owner : LeaseOwner
  /-- `TaskAdmissionAttempt::new` -/
  admission : Result (Option TaskAdmissionAttempt)
  hold : Option QueueHoldClose
  probe : Bool
  processingTrace : Option TraceContext

def Job.attempt (job : Job) : Option TaskAdmissionAttempt :=
  match job.admission with
  | .ok attempt => attempt
  | .error _ => none

inductive Exchange (α : Type) where
  | asking
  | waiting
  | done (result : α)

structure Closing where
  resource : Exchange (Option CloseReply)
  hold : Exchange Unit

def Job.opened (job : Job) : Closing where
  resource := if job.attempt.isSome then .asking else .done none
  hold := if job.hold.isSome then .asking else .done ()

inductive Stage where
  | dispatching
  | executing
  /-- No report was made: the attempt is withdrawn once nothing local is left. -/
  | deferring
  | withdrawing (closing : Closing)
  /-- Without `sources` the closing still watches for quiescence. -/
  | reporting (settle : Exchange Unit) (sources : Option Closing)
  | draining
  | confirming (exchange : Exchange Unit)
  | finishing
  | released

inductive Event where
  | settled (command : SettleCommand)
  | closed (command : TaskAdmissionCloseCommand)
  | held (command : QueueHoldClose)
  | confirmed (owner : LeaseOwner)
  | settleAnswered (reply : Result SettleReply)
  | closeAnswered (reply : Result CloseReply)
  | holdAnswered (reply : Result QueueHoldCloseReceipt)
  | confirmAnswered (reply : Result TaskState)

/-- The trace is a record, newest first. -/
structure World where
  stage : Stage
  execution : Local
  command : Option SettleCommand
  accepted : Option Bool
  stopping : Bool
  trace : List Event

inductive Action where
  | work (action : LocalAction)
  /-- The monitor grants dispatch, or does not. -/
  | dispatch (granted : Bool)
  /-- A workflow or a probe is found wrong before it executes. -/
  | reject (report : AttemptReport) (probeFailure : Option ProviderProbeFailureKind)
  | receive
  | withdraw
  | sendClose
  | answerClose (reply : Result CloseReply)
  | sendHold
  | answerHold (reply : Result QueueHoldCloseReceipt)
  | sendSettle
  | answerSettle (reply : Result SettleReply)
  /-- The closing sees that nothing local is left. -/
  | watch
  | join
  | drain
  | sendConfirm
  | answerConfirm (reply : Result TaskState)
  | release

namespace World

def new : World := ⟨.dispatching, .new, none, none, false, []⟩

variable (encodings : Encodings) (job : Job) (w : World)

def goto (stage : Stage) : World :=
  { w with stage }

def record (event : Event) : World :=
  { w with trace := event :: w.trace }

def fatal : World :=
  { w with stopping := true }

def stopUnlessQuiescent : World :=
  { w with stopping := w.stopping || !w.execution.isQuiescent }

def settlement (report : AttemptReport) (probeFailure : Option ProviderProbeFailureKind) :
    SettleCommand where
  providerProbeFailure := probeFailure
  owner := job.owner
  operationId := "worker-result-v1"
  report := report
  quiescence := if w.execution.isQuiescent then .confirmed else .unconfirmed
  processingTrace := job.processingTrace

def freeze (report : AttemptReport) (probeFailure : Option ProviderProbeFailureKind) : World :=
  { w.stopUnlessQuiescent with
    command := some (normalize job.probe job.context (w.settlement job report probeFailure))
    stage := .reporting .asking
      (if job.attempt.isNone && job.hold.isNone then some job.opened else none) }

def defer : World :=
  w.stopUnlessQuiescent.goto .deferring

def dispatch (granted : Bool) : World :=
  match job.admission, granted with
  | .error error, _ =>
    w.freeze job (failure job.context .protocol (encodings.error error) false) none
  | .ok _, true => { w with stage := .executing, execution := { w.execution with stage := .preparing } }
  | .ok (some _), false => w.defer
  | .ok none, false =>
    w.freeze job (failure job.context .cancelled "delivery stopped before local dispatch" false) none

/-- A ready gate, with a lost grant too, never reached the runtime: the close decides whether the
attempt was charged. -/
def neverInvoked (failed : ExecutionFailure) : Bool :=
  !failed.executionMayHaveStarted &&
    (w.execution.requested || (failed.error.kind = .cancelled && w.execution.cancelled))

def receive : World :=
  match w.execution.result, job.attempt with
  | some .notInvoked, some _ => w.defer
  | some .notInvoked, none =>
    w.freeze job
      (failure job.context .protocol "unexpected ungated invocation deferral" false) none
  | some (.reported (.failed failed) probeFailure), some _ =>
    if w.neverInvoked failed = true then w.defer else w.freeze job (.failed failed) probeFailure
  | some (.reported report probeFailure), _ => w.freeze job report probeFailure
  | none, _ => w

/- The sources. -/

def closing : Option (Closing × TaskAdmissionCloseOutcome) :=
  match w.stage with
  | .withdrawing closing => some (closing, .notInvoked)
  | .reporting _ (some closing) => some (closing, .quiescent)
  | _ => none

def setClosing (closing : Closing) : World :=
  match w.stage with
  | .withdrawing _ => w.goto (.withdrawing closing)
  | .reporting settle (some _) => w.goto (.reporting settle (some closing))
  | _ => w

def sendClose : World :=
  match w.closing, job.attempt with
  | some (⟨.asking, hold⟩, outcome), some a =>
    (w.record (.closed (a.closeCommand outcome))).setClosing ⟨.waiting, hold⟩
  | _, _ => w

def answerClose (reply : Result CloseReply) : World :=
  match w.closing, job.attempt with
  | some (⟨.waiting, hold⟩, outcome), some a =>
    let w := w.record (.closeAnswered reply)
    match reply with
    | .ok receipt =>
      if a.closedBy encodings w.execution.source (a.closeCommand outcome) receipt = true then
        w.setClosing ⟨.done (some receipt), hold⟩
      else w.fatal.setClosing ⟨.done none, hold⟩
    | .error error =>
      if Renewal.retryable error = true then w.setClosing ⟨.asking, hold⟩
      else w.fatal.setClosing ⟨.done none, hold⟩
  | _, _ => w

def sendHold : World :=
  match w.closing, job.hold with
  | some (⟨resource, .asking⟩, _), some command =>
    (w.record (.held command)).setClosing ⟨resource, .waiting⟩
  | _, _ => w

def answerHold (reply : Result QueueHoldCloseReceipt) : World :=
  match w.closing, job.hold with
  | some (⟨resource, .waiting⟩, _), some command =>
    let w := w.record (.holdAnswered reply)
    match reply with
    | .ok receipt =>
      if (receipt.validateFor encodings command).isOk = true then w.setClosing ⟨resource, .done ()⟩
      else w.fatal.setClosing ⟨resource, .done ()⟩
    | .error error =>
      if Renewal.retryable error = true then w.setClosing ⟨resource, .asking⟩
      else w.fatal.setClosing ⟨resource, .done ()⟩
  | _, _ => w

/- The settlement. -/

/-- A report that stays invalid is never sent. -/
def sendSettle : World :=
  match w.stage, w.command with
  | .reporting .asking sources, some command =>
    if validSettlement command = true then
      (w.record (.settled command)).goto (.reporting .waiting sources)
    else w.fatal
  | _, _ => w

def accepts (command : SettleCommand) (reply : SettleReply) : Bool :=
  reply.receipt.operationId = command.operationId && reply.receipt.taskId = command.owner.taskId &&
    reply.receipt.attemptId = command.owner.attemptId

def answerSettle (reply : Result SettleReply) : World :=
  match w.stage, w.command with
  | .reporting .waiting sources, some command =>
    let w := w.record (.settleAnswered reply)
    match reply with
    | .ok receipt =>
      if accepts command receipt = true then
        { w with accepted := some true, stage := .reporting (.done ()) sources }
      else w.fatal.goto (.reporting .asking sources)
    | .error .ownershipLost =>
      { w with accepted := some false, stage := .reporting (.done ()) sources }
    | .error error =>
      if Renewal.retryable error = true then w.goto (.reporting .asking sources)
      else w.fatal.goto (.reporting .asking sources)
  | _, _ => w

def watch : World :=
  match w.stage with
  | .reporting settle none =>
    if w.execution.isQuiescent = true then w.goto (.reporting settle (some job.opened)) else w
  | _ => w

def withdraw : World :=
  match w.stage with
  | .deferring => if w.execution.isQuiescent = true then w.goto (.withdrawing job.opened) else w
  | _ => w

def join : World :=
  match w.stage with
  | .withdrawing ⟨.done _, .done _⟩ => w.goto .finishing
  | .reporting (.done _) (some ⟨.done _, .done _⟩) => w.goto .draining
  | _ => w

def drain : World :=
  match w.stage, w.command with
  | .draining, some command =>
    if w.execution.isQuiescent = true then
      if w.accepted = some true ∧ command.quiescence = .unconfirmed then w.goto (.confirming .asking)
      else w.goto .finishing
    else w
  | _, _ => w

def sendConfirm : World :=
  match w.stage, w.command with
  | .confirming .asking, some command =>
    (w.record (.confirmed command.owner)).goto (.confirming .waiting)
  | _, _ => w

def answerConfirm (reply : Result TaskState) : World :=
  match w.stage with
  | .confirming .waiting =>
    let w := w.record (.confirmAnswered reply)
    match reply with
    | .ok _ | .error .ownershipLost => w.goto .finishing
    | .error error =>
      if Renewal.retryable error = true then w.goto (.confirming .asking)
      else w.fatal.goto (.confirming .asking)
  | _ => w

def step (action : Action) : World :=
  match action, w.stage with
  | .work action, _ =>
    { w with execution := w.execution.step job.context encodings job.attempt action }
  | .dispatch granted, .dispatching => w.dispatch encodings job granted
  | .reject report probeFailure, .dispatching =>
    match job.admission with
    | .ok none => w.freeze job report probeFailure
    | _ => w
  | .receive, .executing => w.receive job
  | .withdraw, _ => w.withdraw job
  | .sendClose, _ => w.sendClose job
  | .answerClose reply, _ => w.answerClose encodings job reply
  | .sendHold, _ => w.sendHold job
  | .answerHold reply, _ => w.answerHold encodings job reply
  | .sendSettle, _ => w.sendSettle
  | .answerSettle reply, _ => w.answerSettle reply
  | .watch, _ => w.watch job
  | .join, _ => w.join
  | .drain, _ => w.drain
  | .sendConfirm, _ => w.sendConfirm
  | .answerConfirm reply, _ => w.answerConfirm reply
  | .release, .finishing => w.goto .released
  | _, _ => w

def run (actions : List Action) : World :=
  actions.foldl (fun w action => w.step encodings job action) w

end World
end Ledgence.Attempts
