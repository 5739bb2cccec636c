import Ledgence.Budgets.Ledger

/-! Budgeted trees under their callers: the transactions of any tasks and workflows, in any order, and
the reasons that callers were given and may come back with. -/
open Kit Kit.Checked Kit.Table

namespace Ledgence

inductive BudgetCommand where
  | create (scope : Scope) (root : RunBudgetSubject) (policy : RunBudgetPolicy)
  /-- Parents are always workflows. -/
  | inherit (scope : Scope) (parent : String) (member : RunBudgetSubject)
  | delegate (scope : Scope) (parent : String) (children : List RunBudgetSubject) (now : Nat)
  | call (scope : Scope) (member : RunBudgetSubject) (sourceId : String)
    (approval : Option EffectOccurrence) (now : Nat)
  /-- The caller reads the clock again before it commits. -/
  | late (scope : Scope) (member : RunBudgetSubject) (action : RunBudgetAction) (now : Nat)
  | recordDenial (scope : Scope) (member : RunBudgetSubject) (action : RunBudgetAction)
    (key : String) (denial : RunBudgetDenial) (approval : Option EffectOccurrence) (now : Nat)
  | boundCallRefusal (scope : Scope) (member : RunBudgetSubject) (key : String)
    (reason : RunBudgetDenial) (command : Json) (approval : EffectOccurrence) (now : Nat)
  | replayFork (workflowId forkKey : String) (request : List Char)
  | refuseFork (scope : Scope) (workflowId forkKey : String) (request : List Char)
    (reason : RunBudgetDenial) (now : Nat)
  | stop (scope : Scope) (member : RunBudgetSubject) (now : Nat)
  | usage (scope : Scope) (owner : RunBudgetSubject) (source : String) (usage : RunBudgetUsage)

namespace BudgetCommand

def asks : BudgetCommand → Option (Scope × RunBudgetSubject × RunBudgetAction)
  | .delegate scope parent _ _ => some (scope, .workflow parent, .delegation)
  | .call scope member _ _ _ => some (scope, member, .call)
  | .late scope member action _ => some (scope, member, action)
  | _ => none

def reports : BudgetCommand → Option (Scope × RunBudgetSubject × RunBudgetAction × RunBudgetDenial)
  | .recordDenial scope member action _ denial _ _ => some (scope, member, action, denial)
  | .boundCallRefusal scope member _ reason _ _ _ => some (scope, member, .call, reason)
  | .refuseFork scope workflowId _ _ reason _ =>
    some (scope, .workflow workflowId, .delegation, reason)
  | _ => none

end BudgetCommand

namespace BudgetStore

def late (s : BudgetStore) (scope : Scope) (member : RunBudgetSubject) (now : Nat) :
    Result BudgetAnswer := do
  let account ← s.locked scope member
  let deadline ← okOr account.policy.deadlineAtMs .notFound
  refuse (now < deadline) .conflict
  return .denied .deadlineExceeded

def boundCall (sha256 : List Char → String) (s : BudgetStore) (scope : Scope)
    (member : RunBudgetSubject) (sourceId key : String) (command : Json)
    (approval : EffectOccurrence) (now now' : Nat) : Result (BudgetStore × BudgetAnswer) := do
  match ← s.call scope member sourceId (some approval) now with
  | (s, .denied reason) => s.boundCallRefusal sha256 scope member key reason command approval now'
  | (s, answer) => return (s, answer)

end BudgetStore

/-- That `parent` created `member`. -/
structure Birth where
  scope : Scope
  parent : String
  member : RunBudgetSubject
  deriving DecidableEq

/-- The tables and, as a record, the family of every tree and the refusals that callers were given. -/
structure BudgetWorld where
  store : BudgetStore
  births : List Birth
  refused : List (Scope × RunBudgetSubject × RunBudgetAction × RunBudgetDenial)

namespace BudgetWorld

def init : BudgetWorld := ⟨.empty, [], []⟩

section Step

variable (sha256 : List Char → String)

def execute (s : BudgetStore) : BudgetCommand → Result (BudgetStore × BudgetAnswer)
  | .create scope root policy => (fun s => (s, .done)) <$> s.create scope root policy
  | .inherit scope parent member =>
    (fun s => (s, .done)) <$> s.inherit scope (.workflow parent) member
  | .delegate scope parent children now => s.delegate scope parent children now
  | .call scope member sourceId approval now => s.call scope member sourceId approval now
  | .late scope member _ now => (fun answer => (s, answer)) <$> s.late scope member now
  | .recordDenial scope member action key denial approval now =>
    (fun s => (s, .denied denial)) <$> s.recordDenial scope member action key denial approval now
  | .boundCallRefusal scope member key reason command approval now =>
    s.boundCallRefusal sha256 scope member key reason command approval now
  | .replayFork workflowId forkKey request =>
    (fun answer => (s, answer)) <$> s.replayFork sha256 workflowId forkKey request
  | .refuseFork scope workflowId forkKey request reason now =>
    s.refuseFork sha256 scope workflowId forkKey request reason now
  | .stop scope member now => (fun s => (s, .done)) <$> s.stop scope member now
  | .usage scope owner source usage => (fun s => (s, .done)) <$> s.usage scope owner source usage

/-- A caller writes down a reason that it was given. -/
def Licensed (w : BudgetWorld) (command : BudgetCommand) : Prop :=
  ∀ report ∈ command.reports, report ∈ w.refused

instance (w : BudgetWorld) (command : BudgetCommand) : Decidable (w.Licensed command) :=
  inferInstanceAs (Decidable (∀ report ∈ command.reports, report ∈ w.refused))

def born : BudgetCommand → List Birth
  | .inherit scope parent member => [⟨scope, parent, member⟩]
  | _ => []

def told (command : BudgetCommand) : BudgetAnswer →
    List (Scope × RunBudgetSubject × RunBudgetAction × RunBudgetDenial)
  | .denied reason => command.asks.toList.map fun (scope, member, action) =>
    (scope, member, action, reason)
  | _ => []

def step (w : BudgetWorld) (command : BudgetCommand) : BudgetWorld :=
  if w.Licensed command then
    match execute sha256 w.store command with
    | .ok (store, answer) =>
      ⟨store, born command ++ w.births, told command answer ++ w.refused⟩
    | .error _ => w
  else w

def run (w : BudgetWorld) (commands : List BudgetCommand) : BudgetWorld :=
  commands.foldl (step sha256) w

end Step

/-- `member` was created below the workflow `ancestor`, at any depth. -/
inductive Under (births : List Birth) (scope : Scope) (ancestor : String) : RunBudgetSubject → Prop
  | child {member : RunBudgetSubject} : ⟨scope, ancestor, member⟩ ∈ births →
    Under births scope ancestor member
  | deeper {parent : String} {member : RunBudgetSubject} : ⟨scope, parent, member⟩ ∈ births →
    Under births scope ancestor (.workflow parent) → Under births scope ancestor member

def Subtree (w : BudgetWorld) (scope : Scope) (top member : RunBudgetSubject) : Prop :=
  member = top ∨ ∃ id, top = .workflow id ∧ Under w.births scope id member

def Stopped (w : BudgetWorld) (scope : Scope) (subject : RunBudgetSubject) : Prop :=
  ∃ m ∈ w.store.members, m.key = (scope, subject) ∧ m.stoppedAtMs.isSome = true

end BudgetWorld
end Ledgence

/-! What one statement of a transaction may change, with the checks it passed, and that every accepted
transaction is a sequence of such changes. -/

namespace Ledgence

def RunBudgetEntry.decision (entry : RunBudgetEntry) : RunBudgetEntry :=
  { entry with usage := .unknown }

def RunBudgetEntry.source (entry : RunBudgetEntry) : Tree × RunBudgetAction × String :=
  (entry.tree, entry.action, entry.sourceId)

def RunBudgetEntry.Grants (entry : RunBudgetEntry) (action : RunBudgetAction) : Prop :=
  entry.action = action ∧ entry.outcome = .authorized

instance (entry : RunBudgetEntry) (action : RunBudgetAction) : Decidable (entry.Grants action) :=
  inferInstanceAs (Decidable (_ ∧ _))

def RunBudgetPolicy.limit (policy : RunBudgetPolicy) : RunBudgetAction → Option Nat
  | .call => policy.maxCalls
  | .delegation => policy.maxDelegations

def RunBudget.used (budget : RunBudget) : RunBudgetAction → Nat
  | .call => budget.calls
  | .delegation => budget.delegations

def RunBudget.Spent (budget : RunBudget) : Prop :=
  ∃ maximum ∈ budget.policy.maxCalls, maximum ≤ budget.calls

namespace BudgetStore

def decisions (s : BudgetStore) : List RunBudgetEntry :=
  s.entries.map fun row => row.entry.decision

/-- The row of a decision on top of `old`, and the entry it leaves. -/
structure Decides (s : BudgetStore) (old new : RunBudget) (entry : RunBudgetEntry) : Prop where
  key : new.key = old.key
  tree : entry.tree = old.key
  policy : new.policy = old.policy
  sequence : entry.sequence = old.lastSequence + 1
  last : new.lastSequence = entry.sequence
  reached : new.deadlineReached = (old.deadlineReached || entry.reason = some .deadlineExceeded)
  used : ∀ action, new.used action = old.used action + if entry.Grants action then 1 else 0
  fresh : ∀ row ∈ s.entries, row.source ≠ entry.source
  subject : ∃ m ∈ s.members, m.key = (entry.scope, entry.subject) ∧ m.tree = entry.tree ∧
    (entry.outcome = .authorized → ¬ s.StoppedAbove m) ∧
    (entry.reason = some .cancelled → s.StoppedAbove m)
  exhausted : entry.reason = some .callsExhausted → old.Spent
  blank : entry.usage = .unknown
  consistent : entry.Consistent
  open' : entry.outcome = .authorized → old.deadlineReached = false
  timely : entry.outcome = .authorized → ∀ deadline ∈ old.policy.deadlineAtMs,
    entry.recordedAt < deadline
  within : entry.outcome = .authorized → ∀ maximum ∈ old.policy.limit entry.action,
    old.used entry.action < maximum

inductive Edit (s : BudgetStore) : BudgetStore → Prop
  | tree (budget : RunBudget) : budget.policy.validate = .ok () → budget.root.validate = .ok () →
    (∀ action, budget.used action = 0) → budget.deadlineReached = false →
    budget.lastSequence = 0 → budget.key ∉ s.budgets.map RunBudget.key →
    Edit s { s with budgets := s.budgets ++ [budget] }
  | member (m : RunBudgetMember) : m.key ∉ s.members.map RunBudgetMember.key →
    m.tree ∈ s.budgets.map RunBudget.key → m.stoppedAtMs = none →
    (m.member = m.root ∨ ∃ id, m.root = .workflow id) →
    Edit s { s with members := s.members ++ [m] }
  | decide (old new : RunBudget) (entry : RunBudgetEntry) : old ∈ s.budgets →
    s.Decides old new entry →
    Edit s { s with
      entries := s.entries ++ [⟨entry, none⟩]
      budgets := put RunBudget.key new s.budgets }
  | stop (m : RunBudgetMember) (now : Nat) : m ∈ s.members →
    Edit s { s with
      members := put RunBudgetMember.key
        { m with stoppedAtMs := m.stoppedAtMs.orElse fun _ => some now } s.members }
  | note (old new : RunBudgetEntryRow) : old ∈ s.entries → new.entry.decision = old.entry.decision →
    (∀ digest ∈ old.denialRequestDigest, new.denialRequestDigest = some digest) →
    Edit s { s with entries := put RunBudgetEntryRow.source new s.entries }
  | refusal (refusal : RunBudgetForkRefusal) :
    refusal.key ∉ s.refusals.map RunBudgetForkRefusal.key →
    Edit s { s with refusals := s.refusals ++ [refusal] }

abbrev Edits : BudgetStore → BudgetStore → Prop := Relation.ReflTransGen Edit

theorem Edits.keeps {P : BudgetStore → Prop} (keep : ∀ s t, Edit s t → P s → P t)
    {s t : BudgetStore} (edits : Edits s t) (start : P s) : P t := by
  induction edits with
  | refl => exact start
  | tail _ edit ih => exact keep _ _ edit ih

end BudgetStore

/- Reading an account, and deciding on it. -/

/-- The account is the current one of the tree of `m`. -/
structure Account.Current (account : Account) (s : BudgetStore) (m : RunBudgetMember) : Prop where
  member : m ∈ s.members
  scope : account.scope = m.scope
  root : account.root = m.root
  row : account.row ∈ s.budgets
  policy : account.policy.validate = .ok ()
  stopped : account.stopped = decide (s.StoppedAbove m)

/-- Nothing stands against `count` more actions. -/
structure Account.Free (account : Account) (action : RunBudgetAction) (count now : Nat) : Prop where
  running : account.stopped = false
  open' : account.deadlineReached = false
  timely : ∀ deadline ∈ account.policy.deadlineAtMs, now < deadline
  within : ∀ maximum ∈ account.policy.limit action, account.used action + count ≤ maximum

namespace Account

variable {account account' : Account} {s s' t : BudgetStore} {m : RunBudgetMember}
  {scope : Scope} {member owner : RunBudgetSubject} {action : RunBudgetAction}
  {source : EntrySource} {count now : Nat}

@[simp] theorem row_used : account.row.used action = account.used action := by
  cases action with
  | call => rfl
  | delegation => rfl

theorem locked_spec (locked : s.locked scope member = .ok account) :
    ∃ m, m.key = (scope, member) ∧ account.Current s m := by
  simp only [BudgetStore.locked, BudgetStore.lock, bind_eq_ok, okOr_eq_ok] at locked
  obtain ⟨found, read, rfl⟩ := locked
  cases known : find RunBudgetMember.key (scope, member) s.members with
  | none => simp [known] at read
  | some m =>
    simp only [known, bind_eq_ok, okOr_eq_ok, exists_unit, pure_eq_ok, Option.some.injEq] at read
    obtain ⟨budget, kept, policy, rfl⟩ := read
    have key : budget.key = m.tree := find_key kept
    have scope' : budget.scope = m.scope := congrArg Prod.fst key
    have root : budget.root = m.root := congrArg Prod.snd key
    have row : (m.account budget (decide (s.StoppedAbove m))).row = budget := by
      cases budget
      simp only [RunBudgetMember.account, Account.row] at scope' root ⊢
      rw [scope', root]
    have mem : (m.account budget (decide (s.StoppedAbove m))).row ∈ s.budgets := by
      rw [row]
      exact find_mem kept
    exact ⟨m, find_key known, find_mem known, rfl, rfl, mem, policy, rfl⟩

theorem denial_eq_none : account.denial action count now = none ↔ account.Free action count now := by
  have room : ∀ limit : Option Nat, ((limit.any fun maximum : Nat =>
      decide ((maximum : Int) - count < account.used action)) = false ↔
        ∀ maximum ∈ limit, account.used action + count ≤ maximum) := by
    intro limit
    rw [Option.any_eq_false]
    refine forall₂_congr fun maximum _ => ?_
    rw [decide_eq_false_iff_not]
    omega
  have expired : ((account.deadlineReached || account.policy.deadlineAtMs.any (decide <| · ≤ now)) =
      false ↔ account.deadlineReached = false ∧
        ∀ deadline ∈ account.policy.deadlineAtMs, now < deadline) := by
    rw [Bool.or_eq_false_iff, Option.any_eq_false]
    simp
  constructor
  · intro allowed
    cases running : account.stopped with
    | true => simp [denial, running] at allowed
    | false =>
      cases late : account.deadlineReached || account.policy.deadlineAtMs.any (decide <| · ≤ now) with
      | true => simp [denial, running, late] at allowed
      | false =>
        have open' := expired.mp late
        have within : ∀ maximum ∈ account.policy.limit action,
            account.used action + count ≤ maximum := by
          rw [← room]
          cases action with
          | call => simpa [denial, running, late, RunBudgetPolicy.limit] using allowed
          | delegation => simpa [denial, running, late, RunBudgetPolicy.limit] using allowed
        exact ⟨running, open'.1, open'.2, within⟩
  · intro free
    have late := expired.mpr ⟨free.open', free.timely⟩
    have within := (room _).mpr free.within
    cases action with
    | call => simpa [denial, free.running, late, RunBudgetPolicy.limit] using within
    | delegation => simpa [denial, free.running, late, RunBudgetPolicy.limit] using within

theorem denial_of_stopped (stopped : account.stopped = true) :
    account.denial action count now = some .cancelled := by
  simp [denial, stopped]

theorem stopped_of_denial (denied : account.denial action count now = some .cancelled) :
    account.stopped = true := by
  cases running : account.stopped with
  | true => rfl
  | false =>
    cases action with
    | call => simp [denial, running, ite_eq_iff] at denied
    | delegation => simp [denial, running, ite_eq_iff] at denied

theorem exhausted_of_denial (denied : account.denial action count now = some .callsExhausted) :
    action = .call ∧ ∃ maximum ∈ account.policy.maxCalls, maximum < account.used .call + count := by
  cases running : account.stopped with
  | true => simp [denial, running] at denied
  | false =>
    cases late : account.deadlineReached || account.policy.deadlineAtMs.any (decide <| · ≤ now) with
    | true => simp [denial, running, late] at denied
    | false =>
      cases action with
      | delegation => simp [denial, running, late] at denied
      | call =>
        simp only [denial, running, late, Bool.false_eq_true, if_false, Option.ite_none_right_eq_some,
          and_true, Option.any_eq_true, decide_eq_true_eq] at denied
        obtain ⟨maximum, limit, past⟩ := denied
        exact ⟨rfl, maximum, limit, by omega⟩

structure Justifies (account : Account) (denial : Option RunBudgetDenial) : Prop where
  cancelled : denial = some .cancelled → account.stopped = true
  exhausted : denial = some .callsExhausted → account.row.Spent

structure Next (account account' : Account) (action : RunBudgetAction)
    (denial : Option RunBudgetDenial) : Prop where
  scope : account'.scope = account.scope
  root : account'.root = account.root
  policy : account'.policy = account.policy
  stopped : account'.stopped = account.stopped
  seq : account'.seq = account.seq + 1
  reached : account'.deadlineReached = (account.deadlineReached || denial = some .deadlineExceeded)
  used : ∀ a, account'.used a = account.used a + if a = action ∧ denial = none then 1 else 0

theorem spend_spec (spent : account.spend action = .ok account') :
    account'.scope = account.scope ∧ account'.root = account.root ∧
      account'.policy = account.policy ∧ account'.stopped = account.stopped ∧
      account'.seq = account.seq ∧ account'.deadlineReached = account.deadlineReached ∧
      ∀ a, account'.used a = account.used a + if a = action then 1 else 0 := by
  cases action with
  | call =>
    simp only [spend, bind_eq_ok, okOr_eq_ok, checkedAdd_eq_some, pure_eq_ok] at spent
    obtain ⟨_, ⟨_, rfl⟩, rfl⟩ := spent
    refine ⟨rfl, rfl, rfl, rfl, rfl, rfl, fun a => ?_⟩
    cases a with
    | call => rfl
    | delegation => rfl
  | delegation =>
    simp only [spend, bind_eq_ok, okOr_eq_ok, checkedAdd_eq_some, pure_eq_ok] at spent
    obtain ⟨_, ⟨_, rfl⟩, rfl⟩ := spent
    refine ⟨rfl, rfl, rfl, rfl, rfl, rfl, fun a => ?_⟩
    cases a with
    | call => rfl
    | delegation => rfl

theorem insert_spec {entry : RunBudgetEntry} (inserted : account.insert s entry = .ok t) :
    entry.Consistent ∧ (∀ row ∈ s.entries, row.source ≠ entry.source) ∧
      t = { s with
        entries := s.entries ++ [⟨entry, none⟩]
        budgets := put RunBudget.key account.row s.budgets } := by
  simp only [insert, bind_eq_ok, refuse_eq_ok, exists_unit, okOr_eq_ok, pure_eq_ok] at inserted
  obtain ⟨valid, source, _, _, _, _, rfl⟩ := inserted
  refine ⟨RunBudgetEntry.consistent_of_validate valid, ?_, rfl⟩
  intro row mem same
  exact source (List.mem_map.mpr ⟨row, mem, same⟩)

variable {denial : Option RunBudgetDenial}

theorem record_next (recorded : account.record s owner source denial now = .ok (account', t)) :
    account.Next account' source.action denial ∧
      account'.insert s (account'.entry owner source denial now) = .ok t := by
  simp only [record, bind_eq_ok, okOr_eq_ok, checkedAdd_eq_some, pure_eq_ok, Prod.mk.injEq]
    at recorded
  obtain ⟨_, ⟨_, rfl⟩, _, spent, _, inserted, rfl, rfl⟩ := recorded
  refine ⟨?_, inserted⟩
  cases denial with
  | none =>
    obtain ⟨scope, root, policy, stopped, seq, reached, used⟩ := spend_spec spent
    refine ⟨scope, root, policy, stopped, seq, ?_, fun a => ?_⟩
    · simpa using reached
    · rw [used a]
      cases a with
      | call => simp [Account.used]
      | delegation => simp [Account.used]
  | some reason =>
    obtain rfl := pure_eq_ok.mp spent
    refine ⟨rfl, rfl, rfl, rfl, rfl, rfl, fun a => ?_⟩
    cases a with
    | call => simp [Account.used]
    | delegation => simp [Account.used]

theorem record_spec (current : account.Current s m) (owned : m.member = owner)
    (allowed : denial = none → account.Free source.action 1 now)
    (justified : account.Justifies denial)
    (recorded : account.record s owner source denial now = .ok (account', t)) :
    BudgetStore.Edit s t ∧ account'.Current t m ∧ account.Next account' source.action denial ∧
      t.decisions = s.decisions ++ [account'.entry owner source denial now] := by
  obtain ⟨next, inserted⟩ := record_next recorded
  obtain ⟨consistent, fresh, rfl⟩ := insert_spec inserted
  have key : account'.row.key = account.row.key := by
    simp [RunBudget.key, row, next.scope, next.root]
  have tree : m.tree = account.row.key := by
    simp [RunBudgetMember.tree, RunBudget.key, row, current.scope, current.root]
  have decides : s.Decides account.row account'.row (account'.entry owner source denial now) := by
    have granted : (account'.entry owner source denial now).outcome = .authorized ↔ denial = none := by
      cases denial with
      | none => simp [entry]
      | some reason => simp [entry]
    refine
      { key := key
        tree := key
        policy := next.policy
        sequence := next.seq
        last := rfl
        reached := next.reached
        used := fun action => ?_
        fresh := fresh
        subject := ⟨m, current.member, ?_, ?_, fun given => ?_, fun cancelled => ?_⟩
        exhausted := justified.exhausted
        blank := rfl
        consistent := consistent
        open' := fun given => (allowed (granted.mp given)).open'
        timely := fun given => (allowed (granted.mp given)).timely
        within := fun given => ?_ }
    · rw [row_used, row_used, next.used action]
      have same : (account'.entry owner source denial now).Grants action ↔
          action = source.action ∧ denial = none := by
        rw [RunBudgetEntry.Grants, granted]
        exact and_congr_left' eq_comm
      simp only [same]
    · rw [RunBudgetMember.key, ← current.scope, ← next.scope, owned]
      rfl
    · rw [tree, ← key]
      rfl
    · have running := (allowed (granted.mp given)).running
      rw [current.stopped] at running
      exact of_decide_eq_false running
    · have stopped := justified.cancelled cancelled
      rw [current.stopped] at stopped
      exact of_decide_eq_true stopped
    · have within := (allowed (granted.mp given)).within
      intro maximum limit
      have := within maximum limit
      rw [row_used]
      exact this
  have edit := BudgetStore.Edit.decide account.row account'.row _ current.row decides
  refine ⟨edit, ?_, next, ?_⟩
  · exact
      { member := current.member
        scope := next.scope.trans current.scope
        root := next.root.trans current.root
        row := mem_put_self current.row key.symm
        policy := next.policy ▸ current.policy
        stopped := next.stopped.trans current.stopped }
  · simp [BudgetStore.decisions, RunBudgetEntry.decision, entry]

end Account
end Ledgence
