import Ledgence.Api.Submission
import Ledgence.Api.Delivery
import Ledgence.Api.Encoding
import Ledgence.Kit.Table

/-! Run-wide authority for instrumented work: who acts under a budget, what was decided, and what a
reader is shown of it. -/
open Kit Kit.Checked

namespace Ledgence

inductive RunBudgetSubject where
  | task (taskId : String)
  | workflow (workflowId : String)
  deriving DecidableEq

def RunBudgetSubject.id : RunBudgetSubject → String
  | .task taskId => taskId
  | .workflow workflowId => workflowId

def RunBudgetSubject.validate (subject : RunBudgetSubject) : Result Unit :=
  validateText subject.id 128

inductive RunBudgetAction where
  | call
  | delegation
  deriving DecidableEq

inductive RunBudgetOutcome where
  | authorized
  | denied
  deriving DecidableEq

inductive RunBudgetUsage where
  | unknown
  | reported (inputTokens outputTokens : Option Nat)
  | estimated (inputTokens outputTokens : Option Nat)
  deriving DecidableEq

def RunBudgetUsage.validate : RunBudgetUsage → Result Unit
  | .unknown => return ()
  | .reported input output | .estimated input output => do
    refuse (input = none ∧ output = none) (invalid "usage requires a reported or estimated quantity")
    [input, output].reduceOption.forM safe

/-- `workflow_approvals::timestamp` -/
def approvalTime (t : Nat) : Result Unit :=
  refuse (maxTimestamp < t) (invalid "approval timestamp exceeds supported range")

def validateRoot (subject root : RunBudgetSubject) : Result Unit :=
  match root with
  | .task _ => refuse (subject ≠ root) (invalid "a standalone task budget cannot own descendants")
  | .workflow _ => return ()

structure RunBudgetSnapshot where
  scope : Scope
  subject : RunBudgetSubject
  root : RunBudgetSubject
  policy : RunBudgetPolicy
  calls : Nat
  delegations : Nat
  observedAt : Nat
  deriving DecidableEq

def RunBudgetSnapshot.validate (snapshot : RunBudgetSnapshot) : Result Unit := do
  snapshot.scope.validate
  snapshot.subject.validate
  snapshot.root.validate
  snapshot.policy.validate
  approvalTime snapshot.observedAt
  refuse (snapshot.policy.maxCalls.any (· < snapshot.calls) ∨
      snapshot.policy.maxDelegations.any (· < snapshot.delegations))
    (invalid "recorded use exceeds immutable run budget")
  validateRoot snapshot.subject snapshot.root

structure RunBudgetEntry where
  scope : Scope
  root : RunBudgetSubject
  sequence : Nat
  subject : RunBudgetSubject
  action : RunBudgetAction
  outcome : RunBudgetOutcome
  reason : Option RunBudgetDenial
  sourceId : String
  /-- Original server-recorded approval that authorized this physical mutation. -/
  approval : Option EffectOccurrence
  usage : RunBudgetUsage
  recordedAt : Nat
  deriving DecidableEq

namespace RunBudgetEntry

def Owns (entry : RunBudgetEntry) (approval : EffectOccurrence) : Prop :=
  entry.action = .call ∧ entry.scope = approval.scope ∧
    entry.subject = .workflow approval.workflowId

instance (entry : RunBudgetEntry) (approval : EffectOccurrence) : Decidable (entry.Owns approval) :=
  inferInstanceAs (Decidable (_ ∧ _ ∧ _))

structure Consistent (entry : RunBudgetEntry) : Prop where
  sequence : entry.sequence ≠ 0
  reason : entry.outcome = .denied ↔ entry.reason.isSome = true
  usage : entry.outcome = .denied ∨ entry.action = .delegation → entry.usage = .unknown
  call : entry.action = .call → entry.reason ≠ some .delegationsExhausted
  delegation : entry.action = .delegation → entry.reason ≠ some .callsExhausted

instance (entry : RunBudgetEntry) : Decidable entry.Consistent :=
  decidable_of_iff (entry.sequence ≠ 0 ∧ (entry.outcome = .denied ↔ entry.reason.isSome = true) ∧
      (entry.outcome = .denied ∨ entry.action = .delegation → entry.usage = .unknown) ∧
      (entry.action = .call → entry.reason ≠ some .delegationsExhausted) ∧
      (entry.action = .delegation → entry.reason ≠ some .callsExhausted))
    ⟨fun ⟨a, b, c, d, e⟩ => ⟨a, b, c, d, e⟩, fun ⟨a, b, c, d, e⟩ => ⟨a, b, c, d, e⟩⟩

def validate (entry : RunBudgetEntry) : Result Unit := do
  entry.scope.validate
  entry.subject.validate
  entry.root.validate
  validateRoot entry.subject entry.root
  validateText entry.sourceId 128
  ifSome entry.approval fun approval => do
    approval.validate
    refuse (¬ entry.Owns approval) (invalid "budget decision does not own its approval")
  entry.usage.validate
  approvalTime entry.recordedAt
  refuse (¬ entry.Consistent) (invalid "inconsistent run budget decision")

theorem consistent_of_validate {entry : RunBudgetEntry} {u : Unit}
    (valid : entry.validate = .ok u) : entry.Consistent := by
  simp only [validate, bind_eq_ok, refuse_eq_ok, not_not, exists_unit] at valid
  exact valid.2.2.2.2.2.2.2.2

end RunBudgetEntry
end Ledgence

/-! The one account of every budgeted execution tree: its members, its counters and its ledger, as
the transactions of the store read and write them. -/
open Kit Kit.Checked Kit.Table

namespace Ledgence

/-- A row of `run_budgets`. -/
structure RunBudget where
  scope : Scope
  root : RunBudgetSubject
  policy : RunBudgetPolicy
  calls : Nat
  delegations : Nat
  deadlineReached : Bool
  lastSequence : Nat
  deriving DecidableEq

/-- A row of `run_budget_members`. -/
structure RunBudgetMember where
  scope : Scope
  member : RunBudgetSubject
  root : RunBudgetSubject
  ancestorWorkflows : List String
  stoppedAtMs : Option Nat
  deriving DecidableEq

/-- A row of `run_budget_entries`. -/
structure RunBudgetEntryRow where
  entry : RunBudgetEntry
  denialRequestDigest : Option String
  deriving DecidableEq

/-- A row of `run_budget_fork_refusals`. -/
structure RunBudgetForkRefusal where
  workflowId : String
  forkKey : String
  requestDigest : String
  denial : RunBudgetDenial
  deriving DecidableEq

abbrev Tree := Scope × RunBudgetSubject

def RunBudget.key (budget : RunBudget) : Tree := (budget.scope, budget.root)
def RunBudgetMember.key (m : RunBudgetMember) : Scope × RunBudgetSubject := (m.scope, m.member)
def RunBudgetMember.tree (m : RunBudgetMember) : Tree := (m.scope, m.root)
def RunBudgetEntry.tree (entry : RunBudgetEntry) : Tree := (entry.scope, entry.root)

def RunBudgetEntryRow.source (row : RunBudgetEntryRow) : Tree × RunBudgetAction × String :=
  (row.entry.tree, row.entry.action, row.entry.sourceId)

def RunBudgetEntryRow.place (row : RunBudgetEntryRow) : Tree × Nat :=
  (row.entry.tree, row.entry.sequence)

def RunBudgetForkRefusal.key (refusal : RunBudgetForkRefusal) : String × String :=
  (refusal.workflowId, refusal.forkKey)

structure BudgetStore where
  budgets : List RunBudget
  members : List RunBudgetMember
  entries : List RunBudgetEntryRow
  refusals : List RunBudgetForkRefusal

namespace BudgetStore

def empty : BudgetStore := ⟨[], [], [], []⟩

def corrupt : ContractError := .unavailable "inconsistent durable run budget"

def databaseError : ContractError :=
  .unavailable "database operation failed; reconcile using the same command"

/-- `INSERT INTO run_budget_members` under its constraints. -/
def insertMember (s : BudgetStore) (m : RunBudgetMember) : Result BudgetStore := do
  refuse (m.key ∈ s.members.map RunBudgetMember.key) databaseError
  refuse (17 < m.ancestorWorkflows.length) databaseError
  refuse (m.tree ∉ s.budgets.map RunBudget.key) databaseError
  return { s with members := s.members ++ [m] }

def enroll (s : BudgetStore) (scope : Scope) (root member : RunBudgetSubject) : Result BudgetStore :=
  s.insertMember ⟨scope, member, root, [], none⟩

def create (s : BudgetStore) (scope : Scope) (root : RunBudgetSubject) (policy : RunBudgetPolicy) :
    Result BudgetStore := do
  policy.validate
  root.validate
  refuse ((scope, root) ∈ s.budgets.map RunBudget.key) databaseError
  enroll { s with budgets := s.budgets ++ [⟨scope, root, policy, 0, 0, false, 0⟩] } scope root root

def inherit (s : BudgetStore) (scope : Scope) (parent member : RunBudgetSubject) :
    Result BudgetStore := do
  let p ← okOr (find RunBudgetMember.key (scope, parent) s.members) corrupt
  s.insertMember ⟨scope, member, p.root, p.ancestorWorkflows ++ [parent.id], none⟩

def StoppedAbove (s : BudgetStore) (m : RunBudgetMember) : Prop :=
  m.stoppedAtMs.isSome = true ∨
    ∃ id ∈ m.ancestorWorkflows, ∃ p ∈ s.members, p.key = (m.scope, .workflow id) ∧
      p.stoppedAtMs.isSome = true

instance (s : BudgetStore) (m : RunBudgetMember) : Decidable (s.StoppedAbove m) :=
  inferInstanceAs (Decidable (_ ∨ _))

end BudgetStore

structure Account where
  scope : Scope
  root : RunBudgetSubject
  policy : RunBudgetPolicy
  calls : Nat
  delegations : Nat
  seq : Nat
  deadlineReached : Bool
  stopped : Bool

def RunBudgetMember.account (m : RunBudgetMember) (budget : RunBudget) (stopped : Bool) : Account where
  scope := m.scope
  root := m.root
  policy := budget.policy
  calls := budget.calls
  delegations := budget.delegations
  seq := budget.lastSequence
  deadlineReached := budget.deadlineReached
  stopped := stopped

def BudgetStore.lock (s : BudgetStore) (scope : Scope) (member : RunBudgetSubject) :
    Result (Option Account) :=
  match find RunBudgetMember.key (scope, member) s.members with
  | none => return none
  | some m => do
    let budget ← okOr (find RunBudget.key m.tree s.budgets) BudgetStore.databaseError
    budget.policy.validate
    return some (m.account budget (decide (s.StoppedAbove m)))

def BudgetStore.locked (s : BudgetStore) (scope : Scope) (member : RunBudgetSubject) :
    Result Account := do
  okOr (← s.lock scope member) BudgetStore.corrupt

structure EntrySource where
  action : RunBudgetAction
  id : String
  approval : Option EffectOccurrence

namespace Account

def used (account : Account) : RunBudgetAction → Nat
  | .call => account.calls
  | .delegation => account.delegations

def spend (account : Account) (action : RunBudgetAction) : Result Account :=
  match action with
  | .call => do
    let calls ← okOr (checkedAdd i64Max account.calls 1) BudgetStore.corrupt
    return { account with calls }
  | .delegation => do
    let delegations ← okOr (checkedAdd i64Max account.delegations 1) BudgetStore.corrupt
    return { account with delegations }

def count (account : Account) (action : RunBudgetAction) (denial : Option RunBudgetDenial) :
    Result Account :=
  match denial with
  | none => account.spend action
  | some _ => return account

def denial (account : Account) (action : RunBudgetAction) (count now : Nat) :
    Option RunBudgetDenial :=
  if account.stopped then some .cancelled
  else if account.deadlineReached || account.policy.deadlineAtMs.any (decide <| · ≤ now) then
    some .deadlineExceeded
  else
    let (limit, denial) :=
      match action with
      | .call => (account.policy.maxCalls, RunBudgetDenial.callsExhausted)
      | .delegation => (account.policy.maxDelegations, RunBudgetDenial.delegationsExhausted)
    if limit.any fun maximum : Nat => decide ((maximum : Int) - count < account.used action) then
      some denial
    else none

def entry (account : Account) (owner : RunBudgetSubject) (source : EntrySource)
    (denial : Option RunBudgetDenial) (now : Nat) : RunBudgetEntry where
  scope := account.scope
  root := account.root
  sequence := account.seq
  subject := owner
  action := source.action
  outcome := if denial.isSome then .denied else .authorized
  reason := denial
  sourceId := source.id
  approval := source.approval
  usage := .unknown
  recordedAt := now

/-- The row of `run_budgets` that the decision leaves. -/
def row (account : Account) : RunBudget where
  scope := account.scope
  root := account.root
  policy := account.policy
  calls := account.calls
  delegations := account.delegations
  deadlineReached := account.deadlineReached
  lastSequence := account.seq

/-- `INSERT INTO run_budget_entries` and the counters that go with it. -/
def insert (account : Account) (s : BudgetStore) (entry : RunBudgetEntry) : Result BudgetStore := do
  entry.validate
  let row : RunBudgetEntryRow := ⟨entry, none⟩
  refuse (row.source ∈ s.entries.map RunBudgetEntryRow.source) BudgetStore.databaseError
  refuse (row.place ∈ s.entries.map RunBudgetEntryRow.place) BudgetStore.databaseError
  let budget ← okOr (find RunBudget.key (account.scope, account.root) s.budgets) BudgetStore.corrupt
  refuse (budget.lastSequence + 1 ≠ account.seq) BudgetStore.corrupt
  return { s with
    entries := s.entries ++ [row]
    budgets := put RunBudget.key account.row s.budgets }

def record (account : Account) (s : BudgetStore) (owner : RunBudgetSubject) (source : EntrySource)
    (denial : Option RunBudgetDenial) (now : Nat) : Result (Account × BudgetStore) := do
  let seq ← okOr (checkedAdd i64Max account.seq 1) BudgetStore.corrupt
  let reached := account.deadlineReached || denial = some .deadlineExceeded
  let account ← Account.count { account with seq, deadlineReached := reached } source.action denial
  let s ← account.insert s (account.entry owner source denial now)
  return (account, s)

def append (account : Account) (s : BudgetStore) (owner : RunBudgetSubject) (source : EntrySource)
    (denial : Option RunBudgetDenial) (now : Nat) : Result (Account × BudgetStore) :=
  let recorded :=
    find RunBudgetEntryRow.source ((account.scope, account.root), source.action, source.id) s.entries
  match denial, recorded with
  | some _, some existing => do
    refuse (existing.entry.subject ≠ owner ∨ existing.entry.reason ≠ denial) .conflict
    return (account, s)
  | _, _ => account.record s owner source denial now

end Account

inductive BudgetAnswer where
  | done
  | authorized (deadline : Option Nat)
  | denied (reason : RunBudgetDenial)
  deriving DecidableEq

namespace BudgetStore

def delegate (s : BudgetStore) (scope : Scope) (parent : String) (children : List RunBudgetSubject)
    (now : Nat) : Result (BudgetStore × BudgetAnswer) := do
  let account ← s.locked scope (.workflow parent)
  refuse (u32Max < children.length) corrupt
  match account.denial .delegation children.length now with
  | some reason => return (s, .denied reason)
  | none => do
    let (account, s) ← children.foldlM
      (fun (account, s) child =>
        account.append s (.workflow parent) ⟨.delegation, child.id, none⟩ none now)
      (account, s)
    return (s, .authorized account.policy.deadlineAtMs)

def recordDenial (s : BudgetStore) (scope : Scope) (member : RunBudgetSubject)
    (action : RunBudgetAction) (key : String) (denial : RunBudgetDenial)
    (approval : Option EffectOccurrence) (now : Nat) : Result BudgetStore := do
  let account ← s.locked scope member
  let (_, s) ← account.append s member ⟨action, key, approval⟩ (some denial) now
  return s

def call (s : BudgetStore) (scope : Scope) (member : RunBudgetSubject) (sourceId : String)
    (approval : Option EffectOccurrence) (now : Nat) : Result (BudgetStore × BudgetAnswer) := do
  let account ← s.locked scope member
  match account.denial .call 1 now with
  | some reason => return (s, .denied reason)
  | none => do
    let (account, s) ← account.append s member ⟨.call, sourceId, approval⟩ none now
    return (s, .authorized account.policy.deadlineAtMs)

/-- Preserve the stop after execution detail is retired. -/
def stop (s : BudgetStore) (scope : Scope) (member : RunBudgetSubject) (now : Nat) :
    Result BudgetStore := do
  let _ ← s.locked scope member
  let m ← okOr (find RunBudgetMember.key (scope, member) s.members) corrupt
  refuse (maxTimestamp < now) (.unavailable "invalid PostgreSQL record: timestamp outside RFC3339 range")
  return { s with
    members := put RunBudgetMember.key { m with stoppedAtMs := m.stoppedAtMs.orElse fun _ => some now }
      s.members }

def usage (s : BudgetStore) (scope : Scope) (owner : RunBudgetSubject) (source : String)
    (usage : RunBudgetUsage) : Result BudgetStore := do
  usage.validate
  match find RunBudgetMember.key (scope, owner) s.members with
  | none => return s
  | some m => do
    let row ← okOr (find RunBudgetEntryRow.source (m.tree, .call, source) s.entries) databaseError
    refuse (row.entry.subject ≠ owner ∨ row.entry.outcome ≠ .authorized) corrupt
    if row.entry.usage = usage then return s
    else do
      refuse (row.entry.usage ≠ .unknown) .conflict
      let entry := { row.entry with usage }
      entry.validate
      return { s with entries := put RunBudgetEntryRow.source { row with entry } s.entries }

def inspect (s : BudgetStore) (scope : Scope) (subject : RunBudgetSubject) (observedAt : Nat) :
    Result RunBudgetSnapshot := do
  scope.validate
  subject.validate
  let m ← okOr (find RunBudgetMember.key (scope, subject) s.members) .notFound
  let budget ← okOr (find RunBudget.key m.tree s.budgets) databaseError
  let snapshot : RunBudgetSnapshot :=
    ⟨scope, subject, m.root, budget.policy, budget.calls, budget.delegations, observedAt⟩
  snapshot.validate
  return snapshot

section Digests

-- the digest of the store, of a text given by its characters
variable (sha256 : List Char → String)

def denialId (value : Json) : String := "den_" ++ sha256 (canonicalJsonBytes value)

def forkDenialId (workflowId forkKey : String) : String :=
  denialId sha256 (.arr [.str "fork", .str workflowId, .str forkKey])

/-- Return the first committed reason even when another limit has since elapsed. A changed command
cannot adopt an earlier refusal. -/
def boundCallRefusal (s : BudgetStore) (scope : Scope) (member : RunBudgetSubject) (key : String)
    (reason : RunBudgetDenial) (command : Json) (approval : EffectOccurrence) (now : Nat) :
    Result (BudgetStore × BudgetAnswer) := do
  let account ← s.locked scope member
  let digest := sha256 (canonicalJsonBytes command)
  let source := ((account.scope, account.root), RunBudgetAction.call, key)
  match find RunBudgetEntryRow.source source s.entries with
  | some prior => do
    refuse (prior.denialRequestDigest ≠ some digest) .conflict
    refuse (prior.entry.subject ≠ member) corrupt
    let reason ← okOr prior.entry.reason corrupt
    return (s, .denied reason)
  | none => do
    let (_, s) ← account.append s member ⟨.call, key, some approval⟩ (some reason) now
    let row ← okOr (find RunBudgetEntryRow.source source s.entries) corrupt
    refuse (row.denialRequestDigest ≠ none) corrupt
    let entries := put RunBudgetEntryRow.source { row with denialRequestDigest := some digest } s.entries
    return ({ s with entries }, .denied reason)

def replayFork (s : BudgetStore) (workflowId forkKey : String) (request : List Char) :
    Result BudgetAnswer := do
  let previous ← okOr (find RunBudgetForkRefusal.key (workflowId, forkKey) s.refusals) .notFound
  refuse (previous.requestDigest ≠ sha256 request) .conflict
  return .denied previous.denial

/-- The fork was refused, and all that it wrote is rolled back. -/
def refuseFork (s : BudgetStore) (scope : Scope) (workflowId forkKey : String) (request : List Char)
    (reason : RunBudgetDenial) (now : Nat) : Result (BudgetStore × BudgetAnswer) := do
  let key := forkDenialId sha256 workflowId forkKey
  let s ← s.recordDenial scope (.workflow workflowId) .delegation key reason none now
  let refusal : RunBudgetForkRefusal := ⟨workflowId, forkKey, sha256 request, reason⟩
  refuse (refusal.key ∈ s.refusals.map RunBudgetForkRefusal.key) databaseError
  return ({ s with refusals := s.refusals ++ [refusal] }, .denied reason)

end Digests
end BudgetStore
end Ledgence
