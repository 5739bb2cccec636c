import Ledgence.Worker.Invocation

/-! Ending a subprocess: `terminate` step by step between its awaits, at each of which its future may
be dropped, and the supervisor and `close` that call it. -/
namespace Ledgence
namespace Subprocess

/-- The answer to `killpg` with SIGKILL. -/
inductive KillAnswer where
  | signalled
  /-- ESRCH -/
  | gone
  | failed (message : String)

structure GroupTerminationError where
  error : Error
  groupId : Nat

def KillAnswer.error (groupId : Nat) : KillAnswer → Option GroupTerminationError
  | .signalled | .gone => none
  | .failed message =>
    some ⟨⟨.runtime, "cannot terminate subprocess group: " ++ message⟩, groupId⟩

structure Child where
  pid : Nat
  reaped : Bool

def Child.id (child : Child) : Option Nat :=
  if child.reaped = true then none else some child.pid

inductive RemovalResult where
  | removed
  | failed (message : String)
  | lost
  deriving DecidableEq

inductive Removal where
  | running
  | ended (result : RemovalResult)
  deriving DecidableEq

/-- `artifact`, `workspace` and `logs` tell whether the field is there, `workspaceCleanup` is the
number of the task whose handle is kept. -/
structure Resources where
  artifact : Bool
  workspace : Bool
  workspaceCleanup : Option Nat
  logs : Bool
  reaped : Bool
  groupSignalAttempted : Bool
  groupError : Option GroupTerminationError

inductive Caller where
  | supervisor
  | close
  deriving DecidableEq

/-- The awaits of `terminate`. -/
inductive Await where
  | wait
  | logs
  /-- of the logs, once they are aborted -/
  | aborted
  | removal
  deriving DecidableEq

inductive Handle where
  | logs
  | removal (task : Nat)
  deriving DecidableEq

inductive Event where
  /-- SIGKILL is sent to the process group. -/
  | signalled
  | reaped
  | polled (handle : Handle)
  | completed (handle : Handle)
  | returned (caller : Caller) (ok : Bool)
  deriving DecidableEq

abbrev CleanupResult := WorkerResult Unit

/-- `call` is the suspended call of `terminate`, `registered` the entry in the registry, `termination`
what the supervisor told, `cleanup` what `close` remembers, `log` a record of what was done. -/
structure World where
  child : Child
  resources : Resources
  removals : List Removal
  call : Option (Caller × Await)
  registered : Bool
  termination : Option CleanupResult
  cleanup : Option CleanupResult
  log : List Event

namespace World
variable (w : World)

def start (pid : Nat) (logs : Bool) : World where
  child := ⟨pid, false⟩
  resources := ⟨true, true, none, logs, false, false, none⟩
  removals := []
  call := none
  registered := true
  termination := none
  cleanup := none
  log := []

def note (event : Event) : World :=
  { w with log := w.log ++ [event] }

def suspend (caller : Caller) (point : Await) (handle : Handle) : World :=
  { w.note (.polled handle) with call := some (caller, point) }

/-- What follows the call in the same poll: `release_confirmed` and the message or the memory of the
caller. -/
def finish (caller : Caller) (result : CleanupResult) : World :=
  let ended := { w.note (.returned caller result.isOk) with
    call := none, registered := w.registered && !result.isOk }
  match caller with
  | .supervisor => { ended with termination := some result }
  | .close => { ended with cleanup := some result }

def signalGroup (answer : KillAnswer) : World :=
  if w.resources.reaped = false ∧ w.resources.groupSignalAttempted = false then
    match w.child.id.filter fun pid => 1 < pid ∧ pid ≤ i32Max with
    | some pid =>
      { w.note .signalled with resources :=
        { w.resources with groupError := answer.error pid, groupSignalAttempted := true } }
    | none =>
      { w with resources := { w.resources with groupError := none, groupSignalAttempted := true } }
  else
    w

def confirmGroup (gone : Bool) : World :=
  if gone = true then { w with resources := { w.resources with groupError := none } } else w

def release (caller : Caller) : World :=
  { w with resources := { w.resources with workspace := false, artifact := false } }.finish caller (.ok ())

def awaitRemoval (caller : Caller) : World :=
  match w.resources.workspaceCleanup with
  | some task => w.suspend caller .removal (.removal task)
  | none =>
    { w with
      resources := { w.resources with workspaceCleanup := some w.removals.length }
      removals := w.removals ++ [Removal.running] }.suspend caller .removal (.removal w.removals.length)

def afterLogs (caller : Caller) : World :=
  let w := { w with resources := { w.resources with logs := false } }
  match w.resources.groupError with
  | some failure => w.finish caller (.error failure.error)
  | none => if w.resources.workspace = true then w.awaitRemoval caller else w.release caller

def awaitLogs (caller : Caller) : World :=
  if w.resources.logs = true then w.suspend caller .logs .logs else w.afterLogs caller

/-- A call of `terminate` up to its first await. -/
def terminate (caller : Caller) (kill : KillAnswer) (gone : Bool) : World :=
  let w := w.signalGroup kill
  if w.resources.reaped = true then (w.confirmGroup gone).awaitLogs caller
  else { w with call := some (caller, .wait) }

inductive Answer where
  | pending
  | exited (gone : Bool)
  | waitFailed (error : Error)
  | logsDone
  | logsElapsed
  | removalDone

def removalError : RemovalResult → Option Error
  | .removed => none
  | .failed message => some ⟨.io, "cannot remove subprocess working directory: " ++ message⟩
  | .lost => some ⟨.io, "workspace cleanup task failed"⟩

def awaited (point : Await) : Option Handle :=
  match point with
  | .wait => none
  | .logs | .aborted => some .logs
  | .removal => w.resources.workspaceCleanup.map .removal

def resume (caller : Caller) (point : Await) : Answer → Option World
  | .pending =>
    match w.awaited point with
    | some handle => some (w.note (.polled handle))
    | none => some w
  | .exited gone =>
    if point = .wait then
      let w := { w.note .reaped with
        child := { w.child with reaped := true }
        resources := { w.resources with reaped := true } }
      some ((w.confirmGroup gone).awaitLogs caller)
    else none
  | .waitFailed error => if point = .wait then some (w.finish caller (.error error)) else none
  | .logsDone =>
    if point = .logs ∨ point = .aborted then some ((w.note (.completed .logs)).afterLogs caller) else none
  | .logsElapsed => if point = .logs then some (w.suspend caller .aborted .logs) else none
  | .removalDone =>
    match point, w.resources.workspaceCleanup with
    | .removal, some task =>
      match w.removals[task]? with
      | some (.ended result) =>
        let w := { w.note (.completed (.removal task)) with
          resources := { w.resources with workspaceCleanup := none } }
        match removalError result with
        | some error => some (w.finish caller (.error error))
        | none => some (w.release caller)
      | some .running | none => none
    | _, _ => none

inductive Action where
  /-- A call of `terminate` by whoever holds the lock. -/
  | terminate (caller : Caller) (kill : KillAnswer) (gone : Bool)
  /-- A call of `close` that reaches its end or its own call of `terminate`. -/
  | close (kill : KillAnswer) (gone : Bool)
  | resume (answer : Answer)
  /-- The future of the call is dropped. -/
  | abandon
  | removalEnds (task : Nat) (result : RemovalResult)

def step : Action → Option World
  | .terminate caller kill gone =>
    match w.call with
    | none => some (w.terminate caller kill gone)
    | some _ => none
  | .close kill gone =>
    match w.call with
    | none =>
      if w.cleanup = some (.ok ()) then some (w.note (.returned .close true))
      else if w.termination = some (.ok ()) then
        some { w.note (.returned .close true) with cleanup := some (.ok ()) }
      else some (w.terminate .close kill gone)
    | some _ => none
  | .resume answer => w.call.bind fun (caller, point) => w.resume caller point answer
  | .abandon => w.call.map fun _ => { w with call := none }
  | .removalEnds task result =>
    if w.removals[task]? = some .running then
      some { w with removals := w.removals.set task (.ended result) }
    else none

def run (actions : List Action) : Option World :=
  actions.foldlM step w

end World
end Subprocess
end Ledgence
