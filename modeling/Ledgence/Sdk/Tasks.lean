import Ledgence.Sdk.Activation

/-! What the SDK accepts as an answer of the orchestrator to a commit, a fork, a claim or a
confirmation. -/
open Kit Kit.Checked

namespace Ledgence.Sdk

theorem unique_of_get {v w : Json} {k : String} (unique : v.UniqueKeys) (h : v.get k = some w) :
    w.UniqueKeys := by
  cases v with
  | obj ms =>
    rw [Json.UniqueKeys, Json.membersUnique_iff] at unique
    exact unique.2 k w ((Json.lookup_eq_some_iff unique.1).mp h)
  | null | bool b | num n | str s | arr vs => simp [Json.get] at h

def field (v : Value) (k : String) : Option Value :=
  match h : v.json.get k with
  | some w => some ⟨w, unique_of_get v.unique h⟩
  | none => none

/-- `_fields` -/
def checkFields (required optional : List String) (v : Value) : Except WorkflowError Unit :=
  match v.json with
  | .obj ms =>
    let keys := ms.map Prod.fst
    refuse (¬(required.all (fun k => keys.contains k) = true ∧
        keys.all (fun k => (required ++ optional).contains k) = true))
      ⟨"invalid workflow object fields"⟩
  | _ => .error ⟨"invalid workflow object fields"⟩

/-- `_integer` of a member. -/
def readInteger (v : Value) (k name : String) (minimum maximum : Nat) : Except WorkflowError Nat := do
  let n ← okOr (v.json.getNat k) ⟨s!"invalid {name}"⟩
  refuse (¬(minimum ≤ n ∧ n ≤ maximum)) ⟨s!"invalid {name}"⟩
  return n

def integerTop : Nat := 2 ^ 64 - 1

def checkCommitted (reply : Value) : Except WorkflowError Unit :=
  match reply.json with
  | .obj [("committed", .bool true)] => .ok ()
  | _ => .error ⟨"invalid local step commit acknowledgement"⟩

def invalidFork : WorkflowError := ⟨"invalid workflow fork acknowledgement"⟩

def checkForked (key : String) (keys : List String) (reply : Value) : Except WorkflowError Unit := do
  (checkFields ["committed", "key", "branch_keys"] [] reply).mapError fun _ => invalidFork
  refuse (reply.json.getBool "committed" ≠ some true ∨ reply.json.getStr "key" ≠ some key) invalidFork
  match reply.json.get "branch_keys" with
  | some (.arr vs) => refuse (vs.map Json.asStr ≠ keys.map some) invalidFork
  | _ => .error invalidFork

/-- `_budget_dispatch_deadline`; the moment itself is the clock's. -/
def checkBudgetGrant (grant : Value) (authorizedAt : Option Nat) : Except WorkflowError Unit := do
  checkFields ["authorized_at", "expires_at"] [] grant
  let issued ← readInteger grant "authorized_at" "budget grant authorization" 0 maxTimestamp
  let until_ ← readInteger grant "expires_at" "budget grant expiry" 0 maxTimestamp
  refuse (¬(issued < until_ ∧ until_ - issued ≤ 5000) ∨ (authorizedAt.isSome ∧ authorizedAt ≠ some issued))
    ⟨"invalid budget dispatch grant"⟩

inductive Claimed where
  | dispatch (budgeted : Bool)
  | lookupOnly
  | replay (record : Record)

section Claims
variable (payload : Payload) (library : Library) (effect : Effect)

def invalidClaim : WorkflowError := ⟨"invalid approved effect claim acknowledgement"⟩

/-- `_validate_effect_identity` -/
def checkIdentity (reply : Value) : Except WorkflowError Unit :=
  refuse (reply.json.getStr "workflow_id" ≠ some payload.workflowId ∨
      reply.json.getStr "activation_id" ≠ some payload.activationId ∨
      reply.json.getStr "approval_key" ≠ some effect.approvalKey)
    ⟨"approved effect acknowledgement identity mismatch"⟩

def checkAction (reply : Value) : Except WorkflowError Unit := do
  let action ← okOr (field reply "action") invalidClaim
  let actual ← encode action maxApprovalBytes 96 true
  let claimed ← encode effect.action.value maxApprovalBytes 96 true
  refuse (actual ≠ claimed) invalidClaim

/-- `_claim_approved_effect` -/
def readClaim (reply : Value) : Except WorkflowError Claimed := do
  checkFields ["workflow_id", "activation_id", "approval_key", "action", "lookup", "disposition"]
    ["budget_grant"] reply
  ifSome (field reply "budget_grant") fun grant => checkBudgetGrant grant none
  (checkIdentity payload effect reply).mapError fun _ => invalidClaim
  refuse (reply.json.getStr "lookup" ≠ some effect.lookup) invalidClaim
  checkAction effect reply
  match reply.json.getStr "disposition" with
  | some "dispatch" => return .dispatch (field reply "budget_grant").isSome
  | some "lookup_only" => return .lookupOnly
  | _ => .error invalidClaim

def readRecord (v : Value) : Except WorkflowError Record := do
  checkFields ["key", "callable", "input", "output"] [] v
  let key ← okOr (v.json.getStr "key") ⟨"local key must be a nonempty string of at most 128 UTF-8 bytes"⟩
  let callable ← okOr (v.json.getStr "callable")
    ⟨"local callable must be a nonempty string of at most 512 UTF-8 bytes"⟩
  let input ← okOr (field v "input") ⟨"invalid workflow object fields"⟩
  let output ← okOr (field v "output") ⟨"invalid workflow object fields"⟩
  let record : Record := ⟨⟨key, callable, input⟩, output⟩
  record.validate true
  return record

def mismatch : WorkflowError := ⟨"approved effect replay differs from its stored binding"⟩

def readReplay (key : String) (reply : Value) : Except WorkflowError Record := do
  checkFields ["kind", "workflow_id", "activation_id", "approval_key", "record"] [] reply
  checkIdentity payload effect reply
  let record ← freeze (field reply "record") maxRecordBytes 96 true
  let record ← readRecord record
  checkFields ["v", "action_json", "lookup"] [] record.input
  let actionJson ← encode effect.action.value maxApprovalBytes 96 true
  refuse (record.key ≠ key ∨ record.callable ≠ effect.action.name) mismatch
  refuse (record.input.json.getNat "v" ≠ some 1 ∨ record.input.json.getStr "lookup" ≠ some effect.lookup)
    mismatch
  let saved ← okOr (record.input.json.getStr "action_json") mismatch
  let replayed ← replayedActionJson library saved.toList
  refuse (replayed ≠ actionJson) mismatch
  return record

def readDisposition (kind : Option String) (claim : Value) : Except WorkflowError Claimed := do
  let accepted ← okOr (claim.json.getBool "already_accepted") invalidClaim
  let permission ← okOr (claim.json.getStr "initial_permission") invalidClaim
  refuse (permission ≠ "dispatch" ∧ permission ≠ "lookup_only") invalidClaim
  match kind with
  | some "dispatch" => do
    refuse (accepted = true ∨ permission ≠ "dispatch") invalidClaim
    return .dispatch (field claim "budget_grant").isSome
  | some "lookup_only" => do
    refuse (permission = "dispatch" ∧ accepted = false) invalidClaim
    return .lookupOnly
  | _ => .error invalidClaim

/-- `_claim_approved_effect_v2` -/
def readClaimV2 (key claimId : String) (reply : Value) : Except WorkflowError Claimed := do
  let kind := reply.json.getStr "kind"
  if kind = some "replay" then return .replay (← readReplay payload library effect key reply)
  else do
    checkFields ["kind", "claim"] [] reply
    let claim ← okOr (field reply "claim") invalidClaim
    checkFields ["workflow_id", "activation_id", "approval_key", "claim_id", "action", "lookup",
      "claimed_at", "initial_permission", "recorded_revision", "already_accepted"]
      ["budget_grant"] claim
    ifSome (field claim "budget_grant") fun grant =>
      checkBudgetGrant grant (claim.json.getNat "claimed_at")
    checkIdentity payload effect claim
    let _ ← readInteger claim "claimed_at" "claim timestamp" 0 maxTimestamp
    let _ ← readInteger claim "recorded_revision" "claim revision" 1 integerTop
    refuse (claim.json.getStr "claim_id" ≠ some claimId ∨
      claim.json.getStr "lookup" ≠ some effect.lookup) invalidClaim
    checkAction effect claim
    readDisposition kind claim

def invalidConfirmation : WorkflowError :=
  ⟨"invalid approved effect confirmation acknowledgement"⟩

/-- `_confirm_approved_effect_v2` -/
def checkConfirmed (key claimId observationId : String) (reply : Value) : Except WorkflowError Unit := do
  checkFields ["committed", "workflow_id", "activation_id", "approval_key", "key", "claim_id",
    "observation_id", "recorded_at", "recorded_revision", "already_accepted"] [] reply
  checkIdentity payload effect reply
  let _ ← readInteger reply "recorded_at" "confirmation timestamp" 0 maxTimestamp
  let _ ← readInteger reply "recorded_revision" "confirmation revision" 1 integerTop
  refuse (reply.json.getBool "committed" ≠ some true ∨ reply.json.getStr "key" ≠ some key ∨
    reply.json.getStr "claim_id" ≠ some claimId ∨
    reply.json.getStr "observation_id" ≠ some observationId ∨
    reply.json.getBool "already_accepted" = none) invalidConfirmation

end Claims
end Ledgence.Sdk

/-! The tasks of one event loop: the owned tasks of local steps and forks, the awaits of their
handles, and the invocation that drains them before it responds. One action is what runs between
two suspensions; the loop may take them in any order. Operations of an admission or a provider,
which the invocation drains as well, are left out. -/

namespace Ledgence.Sdk

inductive Move where
  | start
  /-- It gets the commit lock. The identity is for the claim or the observation it sends. -/
  | acquire (identity : String)
  /-- The reply of the orchestrator, or what the exchange raised. A grant may have `expired`,
  with the exception that is raised then. -/
  | answer (reply : Except Exc Value) (expired : Option Nat)
  /-- The callable returned an object or raised. -/
  | deliver (result : Except Exc (Option Value))
  /-- A cancellation reaches the task where it waits. -/
  | cancel

inductive Action where
  | call (caller : Caller) (call : Call)
  | run (key : String) (move : Move)
  | register (key : String) (move : Move)
  /-- An await of a handle goes on: with the task's outcome, or cancelled itself. -/
  | observe (task : TaskRef) (cancelled : Bool)
  /-- The handler returned or raised. -/
  | handle (result : Except Exc (Option Value))
  | drain

def Stage.outcome : Stage → Option Outcome
  | .finished outcome => some outcome
  | _ => none

def Stage.failedWith (stage : Stage) (exc : Exc) : Bool :=
  match stage.outcome with
  | some (.error e) => e = exc && exc ≠ .cancelled
  | _ => false

namespace World

variable (payload : Payload) (library : Library) (w : World)

def goto (p : Pending) (stage : Stage) : World :=
  { w with pending := Table.put (fun p => p.key) { p with stage } w.pending }

def finish (p : Pending) (outcome : Outcome) : World :=
  w.goto p (.finished outcome)

def gotoFork (f : Fork) (stage : Stage) : World :=
  { w with forks := Table.put (fun f => f.key) { f with stage } w.forks }

def fail (task : TaskRef) (exc : Exc) : World :=
  { w with fatal := some exc, trace := .acknowledgementFailed task exc :: w.trace }

def take (task : TaskRef) : World :=
  { w with lock := some task }

def free : World :=
  { w with lock := none }

def save (record : Record) : World :=
  { w with records := Table.save (fun r : Record => r.key) record w.records }

def lost : Exc := .workflow ⟨"workflow runtime acknowledgement failed"⟩

/- `_run_local`. -/

/-- A recorded step returns what was recorded. -/
def start (p : Pending) : World :=
  match p.previous, freeze (some p.arguments) maxRecordBytes 64 false, p.effect with
  | some record, _, _ => w.finish p (.ok (.step record.output))
  | none, .error error, _ => w.finish p (.error (.workflow error))
  | none, .ok _, none => (w.note (.called p.key)).goto p (.calling none)
  | none, .ok _, some _ => w.goto p .claiming

def claim (p : Pending) (claimId : String) : World :=
  if w.fatal.isSome = true then w.finish p (.error lost)
  else (w.take (.step p.key)).goto p (.claimed claimId)

def claimReply (p : Pending) (effect : Effect) (claimId : String) (reply : Except Exc Value) :
    Except Exc Claimed := do
  let reply ← reply
  (if payload.effectEvidenceV2 then readClaimV2 payload library effect p.key claimId reply
    else readClaim payload effect reply).mapError .workflow

def claimAnswered (p : Pending) (effect : Effect) (claimId : String) (reply : Except Exc Value)
    (expired : Option Nat) : World :=
  match claimReply payload library p effect claimId reply, expired with
  | .error exc, _ => (w.free.fail (.step p.key) exc).finish p (.error exc)
  | .ok (.replay record), _ =>
    (w.free.note (.replayed p.key record.output)).goto p (.returned record true none)
  | .ok (.dispatch true), some object => w.free.finish p (.error (.application object))
  | .ok (.dispatch _), _ =>
    (w.free.note (.called p.key)).goto p (.calling (some (claimId, "dispatch")))
  | .ok .lookupOnly, _ => (w.free.note (.called p.key)).goto p (.calling (some (claimId, "lookup")))

def makeRecord (binding : Binding) (output : Option Value) : Except WorkflowError Record := do
  let output ← freeze output maxRecordBytes 64 false
  let record : Record := ⟨binding, output⟩
  record.validate false
  return record

def delivered (p : Pending) (claim : Option (String × String)) (result : Except Exc (Option Value)) :
    World :=
  match result with
  | .error exc => w.finish p (.error exc)
  | .ok output =>
    match makeRecord p.binding output with
    | .error error => w.finish p (.error (.workflow error))
    | .ok record => w.goto p (.returned record false claim)

def replay (p : Pending) (record : Record) : World :=
  match encode record.toBinding.value maxRecordBytes 96 true with
  | .error error => (w.fail (.step p.key) (.workflow error)).finish p (.error (.workflow error))
  | .ok known => (w.save record).finish { p with known } (.ok (.step record.output))

def commit (p : Pending) (record : Record) (replayed : Bool) (claim : Option (String × String))
    (observationId : String) : World :=
  match encode (array ((w.records ++ [record]).map Record.value)) maxRecordsBytes 96 replayed with
  | .error error => w.finish p (.error (.workflow error))
  | .ok _ =>
    if replayed then w.replay p record
    else (w.take (.step p.key)).goto p (.committing record claim observationId)

def commitReply (p : Pending) (claim : Option (String × String)) (observationId : String)
    (reply : Except Exc Value) : Except Exc Unit := do
  let reply ← reply
  (match p.effect, claim with
    | some effect, some (claimId, _) =>
      if payload.effectEvidenceV2 then
        checkConfirmed payload effect p.key claimId observationId reply
      else checkCommitted reply
    | _, _ => checkCommitted reply).mapError .workflow

def committed (p : Pending) (record : Record) (claim : Option (String × String))
    (observationId : String) (reply : Except Exc Value) : World :=
  match commitReply payload p claim observationId reply with
  | .error exc => (w.free.fail (.step p.key) exc).finish p (.error exc)
  | .ok _ =>
    ((w.free.save record).note (.acknowledged p.key record.output)).finish p
      (.ok (.step record.output))

/-- A move that the task does not wait for does nothing. -/
def advance (p : Pending) (move : Move) : World :=
  match p.stage, move, p.effect with
  | .created, .start, _ => w.start p
  | .claiming, .acquire identity, _ => if w.lock = none then w.claim p identity else w
  | .claimed claimId, .answer reply expired, some effect =>
    w.claimAnswered payload library p effect claimId reply expired
  | .calling claim, .deliver result, _ => w.delivered p claim result
  | .returned record replayed claim, .acquire identity, _ =>
    if w.lock = none then w.commit p record replayed claim identity else w
  | .committing record claim observationId, .answer reply _, _ =>
    w.committed payload p record claim observationId reply
  | .created, .cancel, _ | .claiming, .cancel, _ | .returned _ _ _, .cancel, _ =>
    w.finish p (.error .cancelled)
  | _, _, _ => w

/- `_register_fork`. -/

def forkReply (f : Fork) (reply : Except Exc Value) : Except Exc Unit := do
  let reply ← reply
  (checkForked f.key f.keys reply).mapError .workflow

def registered (f : Fork) (reply : Except Exc Value) : World :=
  match forkReply f reply with
  | .error exc => (w.free.fail (.fork f.key) exc).gotoFork f (.finished (.error exc))
  | .ok _ => w.free.gotoFork f (.finished (.ok (.fork f.key f.keys)))

def advanceFork (f : Fork) (move : Move) : World :=
  match f.stage, move with
  | .created, .acquire _ =>
    if w.lock = none then
      if w.fatal.isSome = true then w.gotoFork f (.finished (.error lost))
      else (w.take (.fork f.key)).gotoFork f .registering
    else w
  | .registering, .answer reply _ => w.registered f reply
  | .created, .cancel => w.gotoFork f (.finished (.error .cancelled))
  | _, _ => w

/- The awaits. -/

def stage : TaskRef → Option Stage
  | .step key => (w.entry key).map fun p => p.stage
  | .fork key => (w.fork key).map fun f => f.stage

def raise (task : TaskRef) (stage : Stage) (exc : Exc) : World :=
  { w with
    observedFailures := if stage.failedWith exc = true then task :: w.observedFailures
      else w.observedFailures
    trace := .raised task exc :: w.trace }

/-- `_LocalResult` and the await of `fork`. -/
def observe (task : TaskRef) (stage : Stage) (cancelled : Bool) : World :=
  match cancelled, stage.outcome with
  | true, _ => w.raise task stage .cancelled
  | false, some (.error exc) => w.raise task stage exc
  | false, some (.ok (.step value)) =>
    match task, freeze (some value) maxRecordBytes 64 true with
    | .step key, .ok copied => w.note (.returned key copied)
    | _, .ok _ => w
    | _, .error error => w.raise task stage (.workflow error)
  | false, some (.ok (.fork _ _)) | false, none => w

/- The invocation. -/

def ownedTasks : List TaskRef :=
  w.pending.map (fun p => .step p.key) ++ w.forks.map fun f => .fork f.key

def finished (task : TaskRef) : Bool :=
  ((w.stage task).bind Stage.outcome).isSome

def unobserved (task : TaskRef) : Bool :=
  match (w.stage task).bind Stage.outcome with
  | some (.error _) => !w.observedFailures.contains task
  | _ => false

def abort : World :=
  { w with closed := true, phase := .failed }

def validateDecision (output : Option Value) : Except WorkflowError Value := do
  w.active .controller
  let decision ← okOr output ⟨"workflow handler must return a workflow decision"⟩
  refuse (payload.decides w.commands decision = false) ⟨"invalid workflow decision kind"⟩
  freeze (some decision) maxDecisionBytes 96 false

def respond (output : Option Value) : World :=
  match w.validateDecision payload output with
  | .ok decision => { w with closed := true, phase := .responded decision }
  | .error _ => w.abort

def handle (result : Except Exc (Option Value)) : World :=
  match w.phase, result with
  | .handling, .ok output => { w with phase := .draining output w.ownedTasks }
  | .handling, .error _ => w.abort
  | _, _ => w

/-- One round of `_drain`. A round that more tasks were started in is followed by another. -/
def drain : World :=
  match w.phase with
  | .draining output batch =>
    if batch.all w.finished = true then
      if batch.any w.unobserved = true then w.abort
      else if batch.length = w.ownedTasks.length then w.respond payload output
      else { w with phase := .draining output w.ownedTasks }
    else w
  | _ => w

def step : Action → World
  | .call caller c => (w.call payload library caller c).1
  | .run key move =>
    match w.entry key with
    | some p => w.advance payload library p move
    | none => w
  | .register key move =>
    match w.fork key with
    | some f => w.advanceFork f move
    | none => w
  | .observe task cancelled =>
    match w.stage task with
    | some stage => w.observe task stage cancelled
    | none => w
  | .handle result => w.handle result
  | .drain => w.drain payload

def run (actions : List Action) : World :=
  actions.foldl (fun w action => w.step payload library action) w

end World
end Ledgence.Sdk
