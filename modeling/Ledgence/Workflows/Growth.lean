import Ledgence.Budgets.Transactions
import Ledgence.Workflows.Decisions

/-! What registering children changes: children are only added, each under a key of its own, and the
forks, the work and the refusals stay as they were. -/
open Kit Kit.Checked

namespace Ledgence
namespace Family

variable {s t u : Family} {news more : List WorkflowChild}

def Open (s : Family) : Prop := s.workflow.state = .running ∨ s.workflow.state = .waiting

/-- From `s` to `t` the children `news` were added, and of the rest only the state of the workflow, its
activations and the account moved on. -/
structure Grown (s t : Family) (news : List WorkflowChild) : Prop where
  children : t.children = s.children ++ news
  forks : t.forks = s.forks
  work : t.work = s.work
  refusedAttempts : t.refusedAttempts = s.refusedAttempts
  refusals : t.budgets.refusals = s.budgets.refusals
  members : s.budgets.members.map RunBudgetMember.key ⊆ t.budgets.members.map RunBudgetMember.key
  origin : t.origin = s.origin
  retiring : t.retiring = s.retiring
  workflowId : t.workflow.workflowId = s.workflow.workflowId
  scope : t.workflow.scope = s.workflow.scope
  closed : ¬ s.Open → t.workflow.state = s.workflow.state
  activations : ∀ id a, s.activation id = some a → t.activation id = some a

theorem Grown.refl (s : Family) : Grown s s [] where
  children := by simp
  forks := rfl
  work := rfl
  refusedAttempts := rfl
  refusals := rfl
  members := List.Subset.refl _
  origin := rfl
  retiring := rfl
  workflowId := rfl
  scope := rfl
  closed := fun _ => rfl
  activations := fun _ _ found => found

theorem Grown.trans (first : Grown s t news) (second : Grown t u more) :
    Grown s u (news ++ more) where
  children := by rw [second.children, first.children, List.append_assoc]
  forks := second.forks.trans first.forks
  work := second.work.trans first.work
  refusedAttempts := second.refusedAttempts.trans first.refusedAttempts
  refusals := second.refusals.trans first.refusals
  members := fun _ mem => second.members (first.members mem)
  origin := second.origin.trans first.origin
  retiring := second.retiring.trans first.retiring
  workflowId := second.workflowId.trans first.workflowId
  scope := second.scope.trans first.scope
  closed := by
    intro ended
    have same := first.closed ended
    rw [second.closed (by rwa [Open, same]), same]
  activations := fun id a found => second.activations id a (first.activations id a found)

theorem Grown.then (first : Grown s t news) (second : Grown t u []) : Grown s u news := by
  simpa using first.trans second

theorem Grown.budgets (budgets : BudgetStore) (refusals : budgets.refusals = s.budgets.refusals)
    (members : s.budgets.members.map RunBudgetMember.key ⊆ budgets.members.map RunBudgetMember.key) :
    Grown s { s with budgets } [] :=
  { Grown.refl s with
    refusals
    members }

theorem Grown.workflow (workflow : WorkflowSnapshot)
    (workflowId : workflow.workflowId = s.workflow.workflowId)
    (scope : workflow.scope = s.workflow.scope) (going : s.Open) :
    Grown s { s with workflow } [] :=
  { Grown.refl s with
    workflowId
    scope
    closed := fun ended => absurd going ended }

theorem Grown.since {workflow : WorkflowSnapshot} (grown : Grown { s with workflow } t news)
    (workflowId : workflow.workflowId = s.workflow.workflowId)
    (scope : workflow.scope = s.workflow.scope) (going : s.Open) :
    Grown s t news := by
  simpa using (Grown.workflow workflow workflowId scope going).trans grown

theorem Grown.terminal (grown : Grown s t news) (ended : s.workflow.state.isTerminal = true) :
    t.workflow.state.isTerminal = true := by
  have closed : ¬ s.Open := by
    rintro (state | state)
    · rw [state] at ended
      cases ended
    · rw [state] at ended
      cases ended
  rw [grown.closed closed, ended]

/- Accounts. -/

theorem insertMember_rows {budgets budgets' : BudgetStore} {m : RunBudgetMember}
    (inserted : budgets.insertMember m = .ok budgets') :
    budgets' = { budgets with members := budgets.members ++ [m] } := by
  simp only [BudgetStore.insertMember, bind_eq_ok, refuse_eq_ok, exists_unit, pure_eq_ok] at inserted
  exact inserted.2.2.2.symm

theorem inherit_rows {budgets budgets' : BudgetStore} {scope : Scope} {parent member : RunBudgetSubject}
    (inherited : budgets.inherit scope parent member = .ok budgets') :
    ∃ m, m.key = (scope, member) ∧ budgets' = { budgets with members := budgets.members ++ [m] } := by
  simp only [BudgetStore.inherit, bind_eq_ok, okOr_eq_ok] at inherited
  obtain ⟨_, _, inserted⟩ := inherited
  exact ⟨_, rfl, insertMember_rows inserted⟩

theorem record_rows {budgets budgets' : BudgetStore} {account account' : Account}
    {owner : RunBudgetSubject} {source : EntrySource} {denial : Option RunBudgetDenial} {now : Nat}
    (recorded : account.record budgets owner source denial now = .ok (account', budgets')) :
    budgets'.refusals = budgets.refusals ∧ budgets'.members = budgets.members := by
  obtain ⟨_, inserted⟩ := Account.record_next recorded
  obtain ⟨_, _, rfl⟩ := Account.insert_spec inserted
  exact ⟨rfl, rfl⟩

theorem append_rows {budgets budgets' : BudgetStore} {account account' : Account}
    {owner : RunBudgetSubject} {source : EntrySource} {denial : Option RunBudgetDenial} {now : Nat}
    (appended : account.append budgets owner source denial now = .ok (account', budgets')) :
    budgets'.refusals = budgets.refusals ∧ budgets'.members = budgets.members := by
  simp only [Account.append] at appended
  split at appended
  · simp only [bind_eq_ok, refuse_eq_ok, exists_unit, pure_eq_ok, Prod.mk.injEq] at appended
    obtain ⟨_, _, rfl⟩ := appended
    exact ⟨rfl, rfl⟩
  · exact record_rows appended

theorem recordDenial_rows {budgets budgets' : BudgetStore} {scope : Scope} {member : RunBudgetSubject}
    {action : RunBudgetAction} {key : String} {denial : RunBudgetDenial}
    {approval : Option EffectOccurrence} {now : Nat}
    (recorded : budgets.recordDenial scope member action key denial approval now = .ok budgets') :
    budgets'.refusals = budgets.refusals ∧ budgets'.members = budgets.members := by
  simp only [BudgetStore.recordDenial, bind_eq_ok, pure_eq_ok, Prod.exists] at recorded
  obtain ⟨_, _, _, _, appended, rfl⟩ := recorded
  exact append_rows appended

theorem delegate_rows {budgets budgets' : BudgetStore} {scope : Scope} {parent : String}
    {children : List RunBudgetSubject} {now : Nat} {answer : BudgetAnswer}
    (delegated : budgets.delegate scope parent children now = .ok (budgets', answer)) :
    budgets'.refusals = budgets.refusals ∧ budgets'.members = budgets.members := by
  simp only [BudgetStore.delegate, bind_eq_ok, refuse_eq_ok, exists_unit] at delegated
  obtain ⟨account, _, _, decided⟩ := delegated
  cases denial : account.denial .delegation children.length now with
  | some reason =>
    simp only [denial, pure_eq_ok, Prod.mk.injEq] at decided
    rw [← decided.1]
    exact ⟨rfl, rfl⟩
  | none =>
    simp only [denial, bind_eq_ok, pure_eq_ok, Prod.mk.injEq, Prod.exists] at decided
    obtain ⟨_, _, appended, rfl, _⟩ := decided
    let Same (state : Account × BudgetStore) : Prop :=
      state.2.refusals = budgets.refusals ∧ state.2.members = budgets.members
    refine foldlM_invariant (P := Same) ?_ appended ⟨rfl, rfl⟩
    intro state child _ next step same
    obtain ⟨refusals, members⟩ := append_rows step
    exact ⟨refusals.trans same.1, members.trans same.2⟩

theorem stop_rows {budgets budgets' : BudgetStore} {scope : Scope} {member : RunBudgetSubject}
    {now : Nat} (stopped : budgets.stop scope member now = .ok budgets') :
    budgets'.refusals = budgets.refusals ∧
      budgets'.members.map RunBudgetMember.key = budgets.members.map RunBudgetMember.key := by
  simp only [BudgetStore.stop, bind_eq_ok, okOr_eq_ok, refuse_eq_ok, exists_unit, pure_eq_ok]
    at stopped
  obtain ⟨_, _, m, _, _, rfl⟩ := stopped
  exact ⟨rfl, Table.keys_put⟩

/- Registration. -/

theorem link_grown {child : WorkflowChild} (linked : s.link child = .ok t) : Grown s t [child] := by
  simp only [link, bind_eq_ok, refuse_eq_ok, exists_unit, pure_eq_ok] at linked
  obtain ⟨_, _, rfl⟩ := linked
  exact { Grown.refl s with children := rfl }

theorem link_apart {child other : WorkflowChild} (linked : s.link child = .ok t)
    (mem : other ∈ s.children) (kind : other.kind = child.kind) : other.key ≠ child.key := by
  simp only [link, bind_eq_ok, refuse_eq_ok, exists_unit, pure_eq_ok] at linked
  intro same
  exact linked.1 ⟨other, mem, kind, .inl same⟩

def Enrolled (s : Family) (subject : RunBudgetSubject) : Prop :=
  (s.workflow.scope, subject) ∈ s.budgets.members.map RunBudgetMember.key

theorem Grown.enrolled (grown : Grown s t news) {subject : RunBudgetSubject}
    (enrolled : s.Enrolled subject) : t.Enrolled subject := by
  rw [Enrolled, grown.scope]
  exact grown.members enrolled

theorem enroll_grown {parent : String} {member : RunBudgetSubject}
    (enrolled : s.enroll parent member = .ok t) :
    Grown s t [] ∧ (s.origin.hasRunBudget = true → t.Enrolled member) := by
  unfold enroll at enrolled
  by_cases budgeted : s.origin.hasRunBudget = true
  · simp only [budgeted, if_true, bind_eq_ok, pure_eq_ok] at enrolled
    obtain ⟨budgets, inherited, rfl⟩ := enrolled
    obtain ⟨m, key, rfl⟩ := inherit_rows inherited
    refine ⟨.budgets _ rfl fun k mem => ?_, fun _ => ?_⟩
    · simp [mem]
    · simp [Enrolled, key]
  · simp only [budgeted, Bool.false_eq_true, if_false, pure_eq_ok] at enrolled
    subst enrolled
    exact ⟨.refl s, fun yes => absurd yes budgeted⟩

theorem createChildAt_grown {activationId : String} {command : WorkflowChildCommand}
    {start : ChildStart} {ids : ChildIds} {now : Nat}
    (created : s.createChildAt activationId command start ids now = .ok t) :
    Grown s t [s.ownedChild activationId command start ids] ∧
      (∀ other ∈ s.children, other.kind = .workflow → other.key ≠ command.key) ∧
      (s.origin.hasRunBudget = true → t.Enrolled (.workflow ids.workflowId)) := by
  simp only [createChildAt, bind_eq_ok, refuse_eq_ok, exists_unit, ok_of_mapError] at created
  obtain ⟨_, _, linked, link, joined, join, _, _, _, _, _, _, last⟩ := created
  have grown := link_grown link
  obtain ⟨grown₁, enrolled₁⟩ := enroll_grown join
  obtain ⟨grown₂, _⟩ := enroll_grown last
  refine ⟨(grown.then grown₁).then grown₂, fun other mem kind => link_apart link mem kind, ?_⟩
  intro budgeted
  exact grown₂.enrolled (enrolled₁ (grown.origin ▸ budgeted))

theorem enroll_eq {parent : String} {member : RunBudgetSubject}
    (enrolled : s.enroll parent member = .ok t) :
    t = { s with budgets := t.budgets } ∧ t.budgets.decisions = s.budgets.decisions := by
  unfold enroll at enrolled
  split at enrolled
  · simp only [bind_eq_ok, pure_eq_ok] at enrolled
    obtain ⟨budgets, inherited, rfl⟩ := enrolled
    obtain ⟨_, _, rfl⟩ := inherit_rows inherited
    exact ⟨rfl, rfl⟩
  · obtain rfl := pure_eq_ok.mp enrolled
    exact ⟨rfl, rfl⟩

theorem createChildAt_eq {activationId : String} {command : WorkflowChildCommand}
    {start : ChildStart} {ids : ChildIds} {now : Nat}
    (created : s.createChildAt activationId command start ids now = .ok t) :
    t = { s with
      children := s.children ++ [s.ownedChild activationId command start ids]
      budgets := t.budgets } ∧ t.budgets.decisions = s.budgets.decisions := by
  simp only [createChildAt, link, bind_eq_ok, refuse_eq_ok, exists_unit, ok_of_mapError, pure_eq_ok]
    at created
  obtain ⟨_, _, _, ⟨_, _, rfl⟩, joined, join, _, _, _, _, _, _, last⟩ := created
  obtain ⟨first, before⟩ := enroll_eq join
  obtain ⟨second, after⟩ := enroll_eq last
  refine ⟨?_, after.trans before⟩
  rw [second, first]

/- Decisions. -/

structure Registers (s t : Family) (activationId : String)
    (pinned : Result (List ResolvedWorkflowChild)) (news : List WorkflowChild) : Prop
    extends Grown s t news where
  created : ∀ child ∈ news, child.activationId = activationId ∧ child.forkKey = none ∧
    ∃ resolved, pinned = .ok resolved ∧
      Table.find ResolvedWorkflowChild.key child.key resolved = some child.resolved
  keys : (s.children.map WorkflowChild.key).Nodup → (t.children.map WorkflowChild.key).Nodup
  bound : ∀ id, s.registeredChildren id ≤ workflowMaxCommands →
    t.registeredChildren id ≤ workflowMaxCommands

variable {activationId : String} {pinned : Result (List ResolvedWorkflowChild)}

theorem Grown.same_children (grown : Grown s t []) : t.children = s.children := by
  simpa using grown.children

theorem Grown.registers (grown : Grown s t []) : Registers s t activationId pinned [] where
  toGrown := grown
  created := by simp
  keys := by simp [grown.same_children]
  bound := by simp [registeredChildren, grown.same_children]

theorem Registers.trans (first : Registers s t activationId pinned news)
    (second : Registers t u activationId pinned more) :
    Registers s u activationId pinned (news ++ more) where
  toGrown := first.toGrown.trans second.toGrown
  created := by
    intro child mem
    cases List.mem_append.mp mem with
    | inl mem => exact first.created child mem
    | inr mem => exact second.created child mem
  keys := fun distinct => second.keys (first.keys distinct)
  bound := fun id within => second.bound id (first.bound id within)

theorem Registers.then (first : Registers s t activationId pinned news) (second : Grown t u []) :
    Registers s u activationId pinned news := by
  simpa using first.trans second.registers

theorem childOf_none {key : String} (noTask : s.childOf .task key = none)
    (noWorkflow : s.childOf .workflow key = none) : ∀ child ∈ s.children, child.key ≠ key := by
  simp only [childOf, List.find?_eq_none, decide_eq_true_eq, not_and] at noTask noWorkflow
  intro child mem
  cases kind : child.kind with
  | task => exact noTask child mem kind
  | workflow => exact noWorkflow child mem kind

theorem registeredChildren_append {child : WorkflowChild} (grown : Grown s t [child]) (id : String) :
    t.registeredChildren id = s.registeredChildren id + if child.activationId = id then 1 else 0 := by
  simp [registeredChildren, grown.children, List.countP_append, List.countP_singleton]

theorem createCommand_grown {call : ApplyCall} {command : WorkflowChildCommand}
    {descriptor : ProgramDescriptor} {originTrace : Option TraceContext} {member : RunBudgetSubject}
    (created : s.createCommand call activationId command descriptor originTrace = .ok (t, member)) :
    ∃ child, Grown s t [child] ∧ t.workflow = s.workflow ∧ child.activationId = activationId ∧
      child.forkKey = none ∧ child.resolved = ⟨command.kind, command.key, descriptor⟩ := by
  unfold createCommand at created
  cases kind : command.kind with
  | workflow =>
    simp only [kind, bind_eq_ok, pure_eq_ok, Prod.mk.injEq] at created
    obtain ⟨_, at', rfl, _⟩ := created
    have same := (createChildAt_eq at').1
    exact ⟨_, (createChildAt_grown at').1, by rw [same], rfl, rfl, rfl⟩
  | task =>
    simp only [kind, bind_eq_ok, pure_eq_ok, Prod.mk.injEq] at created
    obtain ⟨_, _, linked, link, joined, join, rfl, _⟩ := created
    have same : joined.workflow = s.workflow := by
      rw [(enroll_eq join).1]
      simp only [Family.link, bind_eq_ok, refuse_eq_ok, exists_unit, pure_eq_ok] at link
      rw [← link.2.2]
    exact ⟨_, (link_grown link).then (enroll_grown join).1, same, rfl, rfl, rfl⟩

structure Registration.Sound (s : Family) (activationId : String)
    (resolved : List ResolvedWorkflowChild) (r : Registration) : Prop where
  registers : ∃ news, Registers s r.family activationId (.ok resolved) news
  counted : ∀ n ∈ r.registered, n = r.family.registeredChildren activationId
  same : r.family.workflow = s.workflow

theorem registerCommand_sound {call : ApplyCall} {resolved : List ResolvedWorkflowChild}
    {originTrace : Option TraceContext} {r r' : Registration} {command : WorkflowChildCommand}
    (sound : r.Sound s activationId resolved)
    (registered : registerCommand call activationId resolved originTrace r command = .ok r') :
    r'.Sound s activationId resolved := by
  unfold registerCommand at registered
  cases noTask : r.family.childOf .task command.key with
  | some child =>
    cases noWorkflow : r.family.childOf .workflow command.key with
    | some other => simp [noTask, noWorkflow] at registered
    | none =>
      simp only [noTask, noWorkflow, bind_eq_ok, exists_unit, pure_eq_ok] at registered
      exact registered.2 ▸ sound
  | none =>
    cases noWorkflow : r.family.childOf .workflow command.key with
    | some child =>
      simp only [noTask, noWorkflow, bind_eq_ok, exists_unit, pure_eq_ok] at registered
      exact registered.2 ▸ sound
    | none =>
      simp only [noTask, noWorkflow, checkChildBudget, bind_eq_ok, okOr_eq_ok, refuse_eq_ok,
        exists_unit, pure_eq_ok, Prod.exists, not_or, not_not, Nat.not_lt] at registered
      obtain ⟨binding, found, ⟨kind, _⟩, room, t, member, created, rfl⟩ := registered
      obtain ⟨⟨news, registers⟩, counted, unchanged⟩ := sound
      obtain ⟨child, grown, still, activation, fork, child_resolved⟩ := createCommand_grown created
      have key : child.key = command.key := congrArg ResolvedWorkflowChild.key child_resolved
      have count : r.registered.getD (r.family.registeredChildren activationId) =
          r.family.registeredChildren activationId := by
        cases known : r.registered with
        | none => rfl
        | some n => exact counted n known
      have same : child.resolved = binding := by
        rw [child_resolved, ← kind, ← Table.find_key found]
      have one : Registers r.family t activationId (.ok resolved) [child] :=
        { toGrown := grown
          created := by
            simp only [List.mem_singleton, forall_eq]
            exact ⟨activation, fork, resolved, rfl, by rw [key, same, found]⟩
          keys := by
            intro distinct
            rw [grown.children, List.map_append, List.nodup_append]
            refine ⟨distinct, by simp, fun k mem => ?_⟩
            obtain ⟨other, old, rfl⟩ := List.mem_map.mp mem
            simpa [key] using childOf_none noTask noWorkflow other old
          bound := by
            intro id within
            rw [registeredChildren_append grown]
            split
            · next same => rw [count] at room; rw [← same, activation]; exact room
            · exact within }
      refine ⟨⟨_, registers.trans one⟩, fun n mem => ?_, still.trans unchanged⟩
      obtain rfl := Option.some.inj mem
      rw [count, registeredChildren_append grown, if_pos activation]

theorem registerCommands_sound {call : ApplyCall} {decision : WorkflowDecision}
    {resolved : List ResolvedWorkflowChild} {processingTrace : Option TraceContext} {r : Registration}
    (registered : s.registerCommands call decision resolved processingTrace = .ok r) :
    r.Sound s decision.activationId resolved := by
  simp only [registerCommands, bind_eq_ok, refuse_eq_ok, exists_unit] at registered
  obtain ⟨_, _, folded⟩ := registered
  have start : Registration.Sound s decision.activationId resolved ⟨s, none, []⟩ :=
    ⟨⟨[], (Grown.refl s).registers⟩, by simp, rfl⟩
  exact foldlM_invariant (fun _ _ _ _ step sound => registerCommand_sound sound step) folded start

theorem open_of_going (going : ¬ (s.workflow.state.isTerminal = true ∨
    s.workflow.state = .cancelling ∨ s.workflow.state = .failing)) : s.Open := by
  unfold Open
  cases state : s.workflow.state with
  | running => exact .inl rfl
  | waiting => exact .inr rfl
  | failing | cancelling | succeeded | failed | cancelled =>
    simp [state, WorkflowState.isTerminal] at going

theorem failRun_grown {error : ApplicationError} {now : Nat} (failed : s.failRun error now = .ok t) :
    Grown s t [] := by
  unfold failRun at failed
  split at failed
  · obtain rfl := pure_eq_ok.mp failed
    exact .refl s
  · next going =>
    simp only [bind_eq_ok, exists_unit] at failed
    obtain ⟨_, stopped⟩ := failed
    have failing : Grown s { s with workflow := { s.workflow with state := .failing } } [] :=
      .workflow _ rfl rfl (open_of_going going)
    split at stopped
    · simp only [bind_eq_ok, pure_eq_ok] at stopped
      obtain ⟨budgets, stopped, rfl⟩ := stopped
      obtain ⟨refusals, members⟩ := stop_rows stopped
      exact failing.then (.budgets budgets refusals (members ▸ List.Subset.refl _))
    · obtain rfl := pure_eq_ok.mp stopped
      exact failing

theorem scheduleActivation_grown {id : String} (scheduled : s.scheduleActivation id = .ok t)
    (going : s.Open) : Grown s t [] := by
  simp only [scheduleActivation, bind_eq_ok, refuse_eq_ok, exists_unit, pure_eq_ok] at scheduled
  obtain ⟨_, joined, join, rfl⟩ := scheduled
  have same : joined.workflow = s.workflow := by rw [(enroll_eq join).1]
  refine (enroll_grown join).1.then { Grown.refl joined with
    closed := fun ended => absurd going (by rwa [Open, same] at ended)
    activations := fun id a found => ?_ }
  simp [activation, Table.find, List.find?_append] at found ⊢
  simp [found]

theorem dispose_grown {plan : WorkflowDecisionPlan} {call : ApplyCall}
    (running : s.workflow.state = .running) (disposed : s.dispose plan call = .ok t) :
    Grown s t [] := by
  have going : s.Open := .inl running
  simp only [dispose, bind_eq_ok, exists_unit] at disposed
  obtain ⟨_, moved⟩ := disposed
  cases where' : plan.disposition with
  | externalWait =>
    simp only [where', bind_eq_ok] at moved
    obtain ⟨resumed, _, moved⟩ := moved
    cases resumed with
    | some id =>
      simp only at moved
      exact .since (scheduleActivation_grown moved (.inr rfl)) rfl rfl going
    | none =>
      obtain rfl := pure_eq_ok.mp moved
      exact .workflow _ rfl rfl going
  | wait members =>
    simp only [where', bind_eq_ok, refuse_eq_ok, exists_unit] at moved
    obtain ⟨_, moved⟩ := moved
    split at moved
    · obtain ⟨id, _, moved⟩ := bind_eq_ok.mp moved
      exact .since (scheduleActivation_grown moved (.inr rfl)) rfl rfl going
    · obtain rfl := pure_eq_ok.mp moved
      exact .workflow _ rfl rfl going
  | «continue» =>
    simp only [where', bind_eq_ok] at moved
    obtain ⟨id, _, moved⟩ := moved
    exact .since (scheduleActivation_grown moved going) rfl rfl going
  | complete =>
    simp only [where', bind_eq_ok, exists_unit, pure_eq_ok] at moved
    obtain ⟨_, rfl⟩ := moved
    exact .workflow _ rfl rfl going
  | fail error =>
    simp only [where'] at moved
    exact .since (failRun_grown moved) rfl rfl going

theorem running_of_plan {current : WorkflowSnapshot} {decision : WorkflowDecision} {unfinished : Bool}
    {plan : WorkflowDecisionPlan}
    (planned : planWorkflowDecision current decision unfinished = .ok plan) :
    current.state = .running := by
  simp only [planWorkflowDecision, bind_eq_ok, refuse_eq_ok, exists_unit, not_or, not_not] at planned
  exact planned.2.2.1.1

theorem applyDecision_registers {call : ApplyCall} {decision : WorkflowDecision}
    {resolved : List ResolvedWorkflowChild} {processingTrace : Option TraceContext}
    {delegates : List RunBudgetSubject}
    (applied : s.applyDecision call decision resolved processingTrace = .ok (t, delegates)) :
    s.workflow.state = .running ∧
      ∃ news, Registers s t decision.activationId (.ok resolved) news := by
  simp only [applyDecision, bind_eq_ok, pure_eq_ok, Prod.mk.injEq] at applied
  obtain ⟨_, planned, _, registered, _, disposed, rfl, _⟩ := applied
  have running := running_of_plan planned
  obtain ⟨⟨news, registers⟩, _, same⟩ := registerCommands_sound registered
  exact ⟨running, news, registers.then (dispose_grown (same ▸ running) disposed)⟩

/- Work. -/

theorem delegated_grown {children : List RunBudgetSubject} {now : Nat} {deadline : Option Nat}
    (granted : s.delegated children now = .ok (.inl (t, deadline))) : Grown s t [] := by
  simp only [delegated, bind_eq_ok, Prod.exists] at granted
  obtain ⟨budgets, answer, delegated', granted⟩ := granted
  obtain ⟨refusals, members⟩ := delegate_rows delegated'
  have grown : Grown s { s with budgets } [] :=
    .budgets budgets refusals (members ▸ List.Subset.refl _)
  cases answer with
  | denied reason => simp at granted
  | authorized until' =>
    simp only [pure_eq_ok, Sum.inl.injEq, Prod.mk.injEq] at granted
    exact granted.1 ▸ grown
  | done =>
    simp only [pure_eq_ok, Sum.inl.injEq, Prod.mk.injEq] at granted
    exact granted.1 ▸ grown

variable {sha256 : List Char → String} {call : ApplyCall} {item : WorkItem}

theorem rejectBudgetDecision_grown {reason : RunBudgetDenial}
    (rejected : s.rejectBudgetDecision sha256 call activationId reason = .ok t) : Grown s t [] := by
  simp only [rejectBudgetDecision, bind_eq_ok] at rejected
  obtain ⟨budgets, recorded, failed⟩ := rejected
  obtain ⟨refusals, members⟩ := recordDenial_rows recorded
  exact .then (.budgets budgets refusals (members ▸ List.Subset.refl _)) (failRun_grown failed)

def Decided (s t : Family) (item : WorkItem) (supplied : List ResolvedWorkflowChild) : Prop :=
  ∃ news, Registers s t item.taskId (withPinned item.loadResolution supplied) news ∧
    (news = [] ∨ s.workflow.state = .running)

theorem Grown.decided {supplied : List ResolvedWorkflowChild} (grown : Grown s t []) :
    Decided s t item supplied :=
  ⟨[], grown.registers, .inl rfl⟩

theorem applyOutput_decided {decision : WorkflowDecision} {processingTrace : Option TraceContext}
    (applied : s.applyOutput sha256 call item decision processingTrace = .ok t) :
    Decided s t item call.resolved := by
  simp only [applyOutput, bind_eq_ok, exists_unit, okOr_eq_ok, refuse_eq_ok, Prod.exists, not_or,
    not_not] at applied
  obtain ⟨_, _, _, ⟨task, _⟩, _, resolved, pinned, applied, delegates, decided, answered⟩ := applied
  obtain ⟨running, news, registers⟩ := applyDecision_registers decided
  rw [task, ← pinned] at registers
  split at answered
  · obtain rfl := pure_eq_ok.mp answered
    exact ⟨news, registers, .inr running⟩
  · obtain ⟨answer, delegated', answered⟩ := bind_eq_ok.mp answered
    cases answer with
    | inr reason => exact (rejectBudgetDecision_grown answered).decided
    | inl granted =>
      obtain ⟨authorized, deadline⟩ := granted
      simp only at answered
      split at answered
      · exact (rejectBudgetDecision_grown answered).decided
      · obtain rfl := pure_eq_ok.mp answered
        exact ⟨news, registers.then (delegated_grown delegated'), .inr running⟩

theorem applyOutcome_decided {outcome : ControllerOutcome}
    (applied : s.applyOutcome sha256 call item outcome = .ok t) :
    Decided s t item call.resolved := by
  unfold applyOutcome at applied
  split at applied
  · obtain ⟨decoded, _, applied⟩ := bind_eq_ok.mp applied
    exact applyOutput_decided applied
  · exact (failRun_grown applied).decided
  · exact (failRun_grown applied).decided
  · exact (failRun_grown applied).decided

end Family
end Ledgence
