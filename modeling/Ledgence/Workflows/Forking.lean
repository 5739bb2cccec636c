import Ledgence.Workflows.Growth

/-! What a fork changes: all of its branches are registered, or nothing is but a refusal of its budget. -/
open Kit Kit.Checked

namespace Ledgence
namespace Family

variable {s t : Family} {call : ForkCall}

/- Branches. -/

structure BranchChild (s : Family) (call : ForkCall) (branch : WorkflowBranch) (child : WorkflowChild) :
    Prop where
  kind : child.kind = .workflow
  key : child.key = branch.key
  childId : child.childId = (call.ids branch.key).workflowId
  activationId : child.activationId = call.command.owner.taskId
  forkKey : child.forkKey = some call.command.fork.key
  entrypoint : child.entrypoint = branch.entrypoint
  descriptor : child.descriptor = s.origin.controller
  unfinished : child.terminal = false

def BranchEnrolled (s t : Family) (call : ForkCall) (branch : WorkflowBranch) : Prop :=
  s.origin.hasRunBudget = true → t.Enrolled (.workflow (call.ids branch.key).workflowId)

theorem registerBranches_spec {branches : List WorkflowBranch}
    (registered : registerBranches call branches s = .ok t) :
    ∃ news, Grown s t news ∧ List.Forall₂ (BranchChild s call) branches news ∧
      t = { s with children := s.children ++ news, budgets := t.budgets } ∧
      t.budgets.decisions = s.budgets.decisions ∧ ∀ branch ∈ branches, s.BranchEnrolled t call branch := by
  induction branches generalizing s with
  | nil =>
    obtain rfl : s = t := Except.ok.inj registered
    exact ⟨[], .refl s, .nil, by simp, rfl, by simp⟩
  | cons branch branches ih =>
    simp only [registerBranches, bind_eq_ok] at registered
    obtain ⟨m, created, rest⟩ := registered
    obtain ⟨grown, _, enrolled⟩ := createChildAt_grown created
    obtain ⟨same, decisions⟩ := createChildAt_eq created
    obtain ⟨news, grown', children, same', decisions', enrolled'⟩ := ih rest
    have origin : m.origin = s.origin := grown.origin
    refine ⟨_ :: news, grown.trans grown', .cons ?_ ?_, ?_, decisions'.trans decisions, ?_⟩
    · exact ⟨rfl, rfl, rfl, rfl, rfl, rfl, rfl, rfl⟩
    · refine children.imp fun branch child made => { made with descriptor := ?_ }
      rw [made.descriptor, origin]
    · rw [same', same]
      simp
    · intro b mem budgeted
      cases List.mem_cons.mp mem with
      | inl here => exact here ▸ grown'.enrolled (enrolled budgeted)
      | inr later => exact enrolled' b later (origin ▸ budgeted)

/- Accepting. -/

theorem validateDistinct_nodup {α : Type} {key : α → String} {validate : α → Result Unit}
    {duplicate : ContractError} {keys : List String} {items : List α}
    (valid : validateDistinct key validate duplicate keys items = .ok ()) :
    (items.map key).Nodup ∧ ∀ item ∈ items, key item ∉ keys := by
  induction items generalizing keys with
  | nil => simp
  | cons item items ih =>
    simp only [validateDistinct, bind_eq_ok, refuse_eq_ok, exists_unit] at valid
    obtain ⟨_, new, rest⟩ := valid
    obtain ⟨distinct, apart⟩ := ih rest
    constructor
    · rw [List.map_cons, List.nodup_cons]
      refine ⟨fun again => ?_, distinct⟩
      obtain ⟨other, mem, same⟩ := List.mem_map.mp again
      exact apart other mem (by simp [same])
    · intro other mem
      cases List.mem_cons.mp mem with
      | inl here => exact here ▸ new
      | inr later => exact fun seen => apart other later (by simp [seen])

theorem branchKeys_nodup {command : WorkflowForkCommand} (valid : command.validate = .ok ()) :
    command.fork.branchKeys.Nodup := by
  simp only [WorkflowForkCommand.validate, WorkflowForkRequest.validate, bind_eq_ok, exists_unit]
    at valid
  exact (validateDistinct_nodup valid.2.1.2.2.1).1

structure ForkAccepted (s t : Family) (call : ForkCall) (news : List WorkflowChild) : Prop where
  running : s.workflow.state = .running
  active : ∃ activation, s.activation call.command.owner.taskId = some activation ∧
    activation.taskState = .active
  activationId : s.workflow.activationId = some call.command.owner.taskId
  branches : List.Forall₂ (BranchChild s call) call.command.fork.branches news
  same : t = { s with
    children := s.children ++ news
    forks := s.forks ++ [⟨call.command.fork, call.command.owner.taskId,
      call.command.owner.attemptId, call.times.accepted⟩]
    budgets := t.budgets }
  enrolled : ∀ branch ∈ call.command.fork.branches, s.BranchEnrolled t call branch
  refusals : t.budgets.refusals = s.budgets.refusals
  delegated : s.origin.hasRunBudget = true → ∃ granted, s.budgets.Permission t.budgets s.workflow.scope
    (.workflow s.workflow.workflowId) .delegation
    (call.command.fork.branches.map fun branch => (call.ids branch.key).workflowId)
    call.times.delegated granted
  room : s.registeredChildren call.command.owner.taskId + call.command.fork.branches.length ≤
    workflowMaxCommands
  apart : ∀ child ∈ s.children, child.key ∉ call.command.fork.branchKeys
  distinct : call.command.fork.branchKeys.Nodup

structure ForkRefused (sha256 : List Char → String) (s t : Family) (call : ForkCall)
    (reason : RunBudgetDenial) : Prop where
  budgeted : s.origin.hasRunBudget = true
  same : t = { s with
    budgets := t.budgets
    refusedAttempts := s.refusedAttempts ++ [(call.command.fork.key, call.command.owner.attemptId)] }
  members : t.budgets.members = s.budgets.members
  use : s.budgets.SameUse t.budgets
  refusals : t.budgets.refusals = s.budgets.refusals ++
    [⟨s.workflow.workflowId, call.command.fork.key, sha256 call.command.fork.bytes, reason⟩]
  decisions : t.budgets.decisions = s.budgets.decisions ∨
    ∃ entry, t.budgets.decisions = s.budgets.decisions ++ [entry] ∧ entry.outcome = .denied ∧
      entry.reason = some reason ∧ entry.subject = .workflow s.workflow.workflowId

theorem recordDenial_use {budgets budgets' : BudgetStore} {scope : Scope} {member : RunBudgetSubject}
    {action : RunBudgetAction} {key : String} {reason : RunBudgetDenial}
    {approval : Option EffectOccurrence} {now : Nat}
    (recorded : budgets.recordDenial scope member action key reason approval now = .ok budgets') :
    budgets.SameUse budgets' ∧ (budgets'.decisions = budgets.decisions ∨
      ∃ entry, budgets'.decisions = budgets.decisions ++ [entry] ∧ entry.outcome = .denied ∧
        entry.reason = some reason ∧ entry.subject = member) := by
  simp only [BudgetStore.recordDenial, bind_eq_ok, pure_eq_ok, Prod.exists] at recorded
  obtain ⟨account, locked, account', _, appended, rfl⟩ := recorded
  obtain ⟨m, _, current⟩ := Account.locked_spec locked
  cases Account.append_denied appended with
  | inl before =>
    obtain ⟨rfl, _⟩ := before
    exact ⟨BudgetStore.SameUse.refl _, .inl rfl⟩
  | inr now' =>
    obtain ⟨next, inserted⟩ := Account.record_next now'.1
    obtain ⟨_, _, rfl⟩ := Account.insert_spec inserted
    constructor
    · intro budget mem
      cases Table.mem_put mem with
      | inr other => exact ⟨budget, other.1, rfl, fun _ => rfl⟩
      | inl self =>
        refine ⟨account.row, current.row, ?_, fun action => ?_⟩
        · simp [self, RunBudget.key, Account.row, next.scope, next.root]
        · have same := next.used action
          rw [self, Account.row_used, Account.row_used]
          simpa using same
    · refine .inr ⟨account'.entry member ⟨action, key, approval⟩ (some reason) now, ?_, rfl, rfl, rfl⟩
      rw [BudgetStore.decisions, List.map_append]
      rfl

/-- What the account grants to the branches, it grants to all of them. -/
theorem allowance_granted {registered : Family} (allowed : allowance call registered = .ok (.inl t)) :
    Grown registered t [] ∧ t = { registered with budgets := t.budgets } ∧
      ∃ granted, registered.budgets.Permission t.budgets registered.workflow.scope
        (.workflow registered.workflow.workflowId) .delegation
        (call.command.fork.branches.map fun branch => (call.ids branch.key).workflowId)
        call.times.delegated granted := by
  simp only [allowance, bind_eq_ok] at allowed
  obtain ⟨answer, delegated', allowed⟩ := allowed
  cases answer with
  | inr reason => cases pure_eq_ok.mp allowed
  | inl authorized =>
    obtain ⟨u, deadline⟩ := authorized
    simp only at allowed
    split at allowed
    · cases pure_eq_ok.mp allowed
    · obtain rfl := Sum.inl.inj (pure_eq_ok.mp allowed)
      refine ⟨delegated_grown delegated', ?_⟩
      simp only [delegated, bind_eq_ok, Prod.exists] at delegated'
      obtain ⟨budgets, granted, decided, told⟩ := delegated'
      obtain ⟨_, _, answered⟩ := BudgetStore.delegate_spec decided
      cases answered with
      | denied reason => cases pure_eq_ok.mp told
      | authorized until' entries permission =>
        obtain ⟨rfl, _⟩ := Prod.mk.inj (Sum.inl.inj (pure_eq_ok.mp told))
        refine ⟨rfl, entries, ?_⟩
        simpa [List.map_map, Function.comp_def, RunBudgetSubject.id] using permission

theorem acceptFork_spec {registered : Family} (accepted : s.acceptFork call = .ok registered) :
    ∃ news, List.Forall₂ (BranchChild s call) call.command.fork.branches news ∧
      registered = { s with
        children := s.children ++ news
        forks := s.forks ++ [⟨call.command.fork, call.command.owner.taskId,
          call.command.owner.attemptId, call.times.accepted⟩]
        budgets := registered.budgets } ∧
      registered.budgets.decisions = s.budgets.decisions ∧
      registered.budgets.refusals = s.budgets.refusals ∧
      ∀ branch ∈ call.command.fork.branches, s.BranchEnrolled registered call branch := by
  obtain ⟨news, grown, branches, same, decisions, enrolled⟩ := registerBranches_spec accepted
  refine ⟨news, branches.imp fun _ _ made => { made with }, same, decisions, grown.refusals, enrolled⟩

variable {sha256 : List Char → String} {activation : WorkflowActivation}
  {attempt : AttemptAuthority} {answer : Result WorkflowForkReceipt}

theorem checkLive_spec {owner : LeaseOwner} {now : Nat} {requireDispatch : Bool}
    (live : s.checkLive activation attempt owner now requireDispatch = .ok ()) :
    s.workflow.state = .running ∧ s.workflow.activationId = some owner.taskId ∧
      activation.taskState = .active := by
  simp only [checkLive, refuse_eq_ok, not_or, not_not] at live
  exact ⟨live.1, live.2.1, live.2.2.1⟩

theorem lockActivation_found {owner : LeaseOwner}
    (locked : s.lockActivation owner = .ok (activation, attempt)) :
    s.activation owner.taskId = some activation ∧
      Table.find AttemptAuthority.attemptId owner.attemptId activation.attempts = some attempt := by
  simp only [lockActivation, bind_eq_ok, exists_unit, okOr_eq_ok, refuse_eq_ok, pure_eq_ok,
    Prod.mk.injEq] at locked
  obtain ⟨_, _, _, _, found, _, _, _, _, attempt', _, rfl, rfl⟩ := locked
  exact ⟨found, attempt'⟩

theorem refuseFork_refused {reason : RunBudgetDenial} (budgeted : s.origin.hasRunBudget = true)
    (refused : s.refuseFork sha256 call reason = .ok t) : ForkRefused sha256 s t call reason := by
  simp only [refuseFork, BudgetStore.refuseFork, bind_eq_ok, refuse_eq_ok, exists_unit, pure_eq_ok,
    Prod.exists, Prod.mk.injEq] at refused
  obtain ⟨_, _, ⟨budgets, recorded, _, rfl, _⟩, rfl⟩ := refused
  obtain ⟨refusals, members⟩ := recordDenial_rows recorded
  obtain ⟨use, decisions⟩ := recordDenial_use recorded
  exact
    { budgeted
      same := rfl
      members
      use
      refusals := by rw [refusals]
      decisions }

inductive ForkAnswered (sha256 : List Char → String) (s : Family) (call : ForkCall) :
    Family → Result WorkflowForkReceipt → Prop
  | replayed (prior : WorkflowFork) : s.fork call.command.fork.key = some prior →
    prior.request.bytes = call.command.fork.bytes →
    ForkAnswered sha256 s call s (.ok (forkReceipt prior.request true))
  | refusedAgain (previous : RunBudgetForkRefusal) : s.fork call.command.fork.key = none →
    Table.find RunBudgetForkRefusal.key (s.workflow.workflowId, call.command.fork.key)
      s.budgets.refusals = some previous →
    previous.requestDigest = sha256 call.command.fork.bytes →
    ForkAnswered sha256 s call s (.error (.runBudgetDenied previous.denial))
  | accepted (t : Family) (news : List WorkflowChild) : s.fork call.command.fork.key = none →
    (s.origin.hasRunBudget = true → Table.find RunBudgetForkRefusal.key
      (s.workflow.workflowId, call.command.fork.key) s.budgets.refusals = none) →
    ForkAccepted s t call news →
    ForkAnswered sha256 s call t (.ok (forkReceipt call.command.fork false))
  | refused (t : Family) (reason : RunBudgetDenial) : s.fork call.command.fork.key = none →
    Table.find RunBudgetForkRefusal.key (s.workflow.workflowId, call.command.fork.key)
      s.budgets.refusals = none →
    ForkRefused sha256 s t call reason →
    ForkAnswered sha256 s call t (.error (.runBudgetDenied reason))

theorem newFork_answered (distinct : call.command.fork.branchKeys.Nodup)
    (found : s.activation call.command.owner.taskId = some activation)
    (new : s.fork call.command.fork.key = none)
    (unrefused : s.origin.hasRunBudget = true → Table.find RunBudgetForkRefusal.key
      (s.workflow.workflowId, call.command.fork.key) s.budgets.refusals = none)
    (forked : s.newFork sha256 call activation attempt = .ok (t, answer)) :
    ForkAnswered sha256 s call t answer := by
  simp only [newFork, bind_eq_ok, exists_unit, refuse_eq_ok, checkChildBudget, Nat.not_lt,
    not_exists, not_and] at forked
  obtain ⟨live, _, room, apart, registered, accepted, forked⟩ := forked
  obtain ⟨news, branches, same, decisions, refusals, enrolled⟩ := acceptFork_spec accepted
  obtain ⟨running, activationId, active⟩ := checkLive_spec live
  split at forked
  · next budgeted =>
    simp only [bind_eq_ok, exists_unit] at forked
    obtain ⟨allowed, allowance', _, forked⟩ := forked
    cases allowed with
    | inl granted =>
      obtain ⟨rfl, rfl⟩ := Prod.mk.inj (pure_eq_ok.mp forked)
      obtain ⟨grown, same', entries, permission⟩ := allowance_granted allowance'
      have scope : registered.workflow = s.workflow := by rw [same]
      rw [scope] at permission
      refine .accepted granted news new unrefused
        { running
          active := ⟨activation, found, active⟩
          activationId
          branches
          same := by rw [same', same]
          enrolled := fun branch mem budgeted => grown.enrolled (enrolled branch mem budgeted)
          refusals := grown.refusals.trans refusals
          delegated := fun _ => ⟨entries, { permission with decisions := ?_ }⟩
          room
          apart
          distinct }
      rw [permission.decisions, decisions]
    | inr reason =>
      simp only [bind_eq_ok, exists_unit, pure_eq_ok, Prod.mk.injEq] at forked
      obtain ⟨u, refused, _, rfl, rfl⟩ := forked
      exact .refused u reason new (unrefused budgeted) (refuseFork_refused budgeted refused)
  · next free =>
    obtain ⟨rfl, rfl⟩ := Prod.mk.inj (pure_eq_ok.mp forked)
    exact .accepted registered news new unrefused
      { running
        active := ⟨activation, found, active⟩
        activationId
        branches
        same
        enrolled
        refusals
        delegated := fun budgeted => absurd budgeted free
        room
        apart
        distinct }

theorem forkOnce_answered (forked : s.forkOnce sha256 call = .ok (t, answer)) :
    ForkAnswered sha256 s call t answer := by
  simp only [forkOnce, bind_eq_ok, exists_unit] at forked
  obtain ⟨valid, ⟨activation, attempt⟩, locked, forked⟩ := forked
  have distinct := branchKeys_nodup valid
  obtain ⟨found, _⟩ := lockActivation_found locked
  cases prior : s.fork call.command.fork.key with
  | some fork =>
    simp only [prior, replayFork, bind_eq_ok, refuse_eq_ok, exists_unit, pure_eq_ok, Prod.mk.injEq,
      decide_eq_false_iff_not, not_not] at forked
    obtain ⟨⟨same, _⟩, rfl, rfl⟩ := forked
    exact .replayed fork prior same
  | none =>
    simp only [prior] at forked
    cases refusal : Table.find RunBudgetForkRefusal.key
        (s.workflow.workflowId, call.command.fork.key) s.budgets.refusals with
    | none =>
      simp only [refusal] at forked
      exact newFork_answered distinct found prior (fun _ => refusal) forked
    | some previous =>
      simp only [refusal] at forked
      split at forked
      · simp only [replayFork, bind_eq_ok, refuse_eq_ok, exists_unit, pure_eq_ok, Prod.mk.injEq,
          decide_eq_false_iff_not, not_not] at forked
        obtain ⟨⟨same, _⟩, rfl, rfl⟩ := forked
        exact .refusedAgain previous prior refusal same
      · next free => exact newFork_answered distinct found prior (fun budgeted => absurd budgeted free) forked

end Family
end Ledgence
