import Ledgence.Budgets.Exact

/-! Every accepted transaction is a sequence of sound statements, and what it leaves for its caller. -/
open Kit Kit.Checked Kit.Table

namespace Ledgence

def BudgetStore.Given (s : BudgetStore) (scope : Scope) (subject : RunBudgetSubject)
    (reason : RunBudgetDenial) : Prop :=
  ∃ m ∈ s.members, m.key = (scope, subject) ∧ (reason = .cancelled → s.StoppedAbove m) ∧
    (reason = .callsExhausted → ∃ budget ∈ s.budgets, budget.key = m.tree ∧ budget.Spent)

structure BudgetStore.Recorded (s : BudgetStore) (tree : Tree) (subject : RunBudgetSubject)
    (action : RunBudgetAction) (key : String) (reason : RunBudgetDenial)
    (digest : Option String) : Prop where
  row : ∃ row ∈ s.entries, row.source = (tree, action, key) ∧ row.entry.subject = subject ∧
    row.entry.reason = some reason ∧ ∀ d ∈ digest, row.denialRequestDigest = some d

namespace Account

variable {account account' : Account} {s t : BudgetStore} {m : RunBudgetMember}
  {owner : RunBudgetSubject} {source : EntrySource} {reason : RunBudgetDenial} {now : Nat}

theorem Current.key (current : account.Current s m) : account.row.key = m.tree :=
  Prod.ext current.scope current.root

theorem Current.tree (current : account.Current s m) : (account.scope, account.root) = m.tree :=
  current.key

theorem Current.justifies (current : account.Current s m) (good : s.Good)
    (given : s.Given m.scope m.member reason) : account.Justifies (some reason) := by
  obtain ⟨m', mem, key, stopped, spent⟩ := given
  obtain rfl : m' = m := eq_of_key good.memberKeys mem current.member key
  refine ⟨fun cancelled => ?_, fun exhausted => ?_⟩
  · rw [current.stopped]
    exact decide_eq_true (stopped (Option.some.inj cancelled))
  · obtain ⟨budget, known, tree, full⟩ := spent (Option.some.inj exhausted)
    have same : account.row = budget :=
      eq_of_key good.budgetKeys current.row known (current.key.trans tree.symm)
    rw [same]
    exact full

theorem append_none : account.append s owner source none now =
    account.record s owner source none now := by
  simp [append]

theorem append_denied
    (appended : account.append s owner source (some reason) now = .ok (account', t)) :
    t = s ∧ (∃ row ∈ s.entries, row.source = ((account.scope, account.root), source.action, source.id) ∧
        row.entry.subject = owner ∧ row.entry.reason = some reason) ∨
      account.record s owner source (some reason) now = .ok (account', t) ∧
        ∀ row ∈ s.entries, row.source ≠ ((account.scope, account.root), source.action, source.id) := by
  cases recorded : find RunBudgetEntryRow.source
      ((account.scope, account.root), source.action, source.id) s.entries with
  | none =>
    simp only [append, recorded] at appended
    exact .inr ⟨appended, find_eq_none.mp recorded⟩
  | some row =>
    simp only [append, recorded, bind_eq_ok, refuse_eq_ok, exists_unit, pure_eq_ok, Prod.mk.injEq, not_or,
      not_not] at appended
    obtain ⟨⟨subject, same⟩, _, rfl⟩ := appended
    exact .inl ⟨rfl, row, find_mem recorded, find_key recorded, subject, same⟩

theorem Current.given {action : RunBudgetAction} {count : Nat} (current : account.Current s m)
    (single : action = .call → count = 1)
    (denied : account.denial action count now = some reason) : s.Given m.scope m.member reason := by
  refine ⟨m, current.member, rfl, fun cancelled => ?_, fun exhausted => ?_⟩
  · have stopped := stopped_of_denial (cancelled ▸ denied)
    rw [current.stopped] at stopped
    exact of_decide_eq_true stopped
  · refine ⟨account.row, current.row, current.key, ?_⟩
    subst exhausted
    have ⟨called, limit⟩ := exhausted_of_denial denied
    obtain ⟨maximum, mem, spent⟩ := limit
    have := single called
    subst called
    have used : account.used .call = account.row.calls := rfl
    exact ⟨maximum, mem, by omega⟩

end Account

namespace BudgetStore

def shape (s : BudgetStore) : List ((Scope × RunBudgetSubject) × List String) :=
  s.members.map fun m => (m.key, m.ancestorWorkflows)

def SameUse (s t : BudgetStore) : Prop :=
  ∀ budget ∈ t.budgets, ∃ old ∈ s.budgets, old.key = budget.key ∧
    ∀ action, budget.used action = old.used action

theorem SameUse.refl (s : BudgetStore) : SameUse s s :=
  fun budget mem => ⟨budget, mem, rfl, fun _ => rfl⟩

structure Denial (s t : BudgetStore) (scope : Scope) (subject : RunBudgetSubject)
    (action : RunBudgetAction) (key : String) (reason : RunBudgetDenial) (digest : Option String) :
    Prop where
  edits : Edits s t
  recorded : ∃ m ∈ t.members, m.key = (scope, subject) ∧
    t.Recorded m.tree subject action key reason digest
  use : SameUse s t
  shape : t.shape = s.shape

end BudgetStore

namespace Account

variable {account account' : Account} {s t : BudgetStore} {m : RunBudgetMember}
  {owner : RunBudgetSubject} {source : EntrySource} {reason : RunBudgetDenial} {now : Nat}

theorem record_denied (good : s.Good) (current : account.Current s m)
    (given : s.Given m.scope m.member reason)
    (recorded : account.record s m.member source (some reason) now = .ok (account', t)) :
    s.Denial t m.scope m.member source.action source.id reason none ∧ account'.Current t m ∧
      t.entries = s.entries ++ [⟨account'.entry m.member source (some reason) now, none⟩] := by
  have justified := current.justifies good given
  obtain ⟨edit, current', next, _⟩ := record_spec current rfl (by simp) justified recorded
  obtain ⟨_, inserted⟩ := record_next recorded
  obtain ⟨_, _, rfl⟩ := insert_spec inserted
  refine ⟨⟨.single edit, ⟨m, current.member, rfl, ?_⟩, ?_, rfl⟩, current', rfl⟩
  · refine ⟨_, List.mem_append_right _ (List.mem_singleton.mpr rfl), ?_, rfl, rfl, by simp⟩
    have tree := current'.tree
    simp only [RunBudgetEntryRow.source, RunBudgetEntry.tree, entry]
    rw [tree]
  · intro budget mem
    cases mem_put mem with
    | inr other => exact ⟨budget, other.1, rfl, fun _ => rfl⟩
    | inl self =>
      refine ⟨account.row, current.row, ?_, fun action => ?_⟩
      · rw [self, current.key, current'.key]
      · have same := next.used action
        rw [self, row_used, row_used]
        simpa using same

end Account

namespace BudgetStore

variable {s t : BudgetStore} {scope : Scope} {member : RunBudgetSubject} {action : RunBudgetAction}
  {key : String} {reason : RunBudgetDenial} {approval : Option EffectOccurrence} {now : Nat}

theorem recordDenial_spec (good : s.Good) (given : s.Given scope member reason)
    (recorded : s.recordDenial scope member action key reason approval now = .ok t) :
    s.Denial t scope member action key reason none := by
  simp only [recordDenial, bind_eq_ok, pure_eq_ok, Prod.exists] at recorded
  obtain ⟨account, locked, account', _, appended, rfl⟩ := recorded
  obtain ⟨m, same, current⟩ := Account.locked_spec locked
  obtain ⟨rfl, rfl⟩ := Prod.mk.inj same
  cases Account.append_denied appended with
  | inl before =>
    obtain ⟨rfl, row, mem, source, subject, reason'⟩ := before
    rw [current.tree] at source
    exact ⟨.refl, ⟨m, current.member, rfl, ⟨row, mem, source, subject, reason', by simp⟩⟩,
      SameUse.refl _, rfl⟩
  | inr now' => exact (Account.record_denied good current given now'.1).1

/-- A refused call names the reason that is in the ledger, bound to its command. -/
theorem boundCallRefusal_spec {sha256 : List Char → String} {command : Json}
    {occurrence : EffectOccurrence} {answer : BudgetAnswer} (good : s.Good)
    (given : s.Given scope member reason)
    (refused : s.boundCallRefusal sha256 scope member key reason command occurrence now =
      .ok (t, answer)) :
    ∃ first, answer = .denied first ∧ s.Denial t scope member .call key first
      (some (sha256 (canonicalJsonBytes command))) := by
  simp only [boundCallRefusal, bind_eq_ok] at refused
  obtain ⟨account, locked, refused⟩ := refused
  obtain ⟨m, same, current⟩ := Account.locked_spec locked
  obtain ⟨rfl, rfl⟩ := Prod.mk.inj same
  cases prior : find RunBudgetEntryRow.source ((account.scope, account.root), .call, key)
      s.entries with
  | some row =>
    simp only [prior, bind_eq_ok, refuse_eq_ok, exists_unit, okOr_eq_ok, pure_eq_ok, not_not,
      Prod.mk.injEq] at refused
    obtain ⟨digest, subject, first, reason', rfl, rfl⟩ := refused
    have source := find_key prior
    rw [current.tree] at source
    have recorded : s.Recorded m.tree m.member .call key first
        (some (sha256 (canonicalJsonBytes command))) := by
      refine ⟨row, find_mem prior, source, subject, reason', fun d bound => ?_⟩
      rw [digest]
      exact bound
    exact ⟨first, rfl, .refl, ⟨m, current.member, rfl, recorded⟩, SameUse.refl _, rfl⟩
  | none =>
    simp only [prior, bind_eq_ok, refuse_eq_ok, exists_unit, okOr_eq_ok, pure_eq_ok, not_not,
      Prod.mk.injEq, Prod.exists] at refused
    obtain ⟨account', u, appended, row, found, unbound, rfl, rfl⟩ := refused
    cases Account.append_denied appended with
    | inl before =>
      obtain ⟨_, row', mem, source, _⟩ := before
      exact absurd source (find_eq_none.mp prior row' mem)
    | inr fresh =>
      obtain ⟨denial, _, _⟩ := Account.record_denied good current given fresh.1
      obtain ⟨m', mem', key', row', known, source, subject, why, _⟩ := denial.recorded
      have good' := Edits.good good denial.edits
      have tree : m'.tree = m.tree := by
        obtain ⟨m'', mem'', key'', tree'', _⟩ := (Edits.later good denial.edits).members m current.member
        have same : m' = m'' := eq_of_key good'.memberKeys mem' mem'' (key'.trans key''.symm)
        rw [same, tree'']
      have self : row = row' := by
        refine eq_of_key good'.sources (find_mem found) known ?_
        rw [find_key found, source, tree, current.tree]
      subst self
      have noted : Edit u { u with
          entries := put RunBudgetEntryRow.source
            { row with denialRequestDigest := some (sha256 (canonicalJsonBytes command)) } u.entries } := by
        refine .note row _ known rfl fun digest bound => ?_
        rw [unbound] at bound
        cases bound
      have bound : ∃ row' ∈ put RunBudgetEntryRow.source
          { row with denialRequestDigest := some (sha256 (canonicalJsonBytes command)) } u.entries,
          row'.source = (m'.tree, .call, key) ∧ row'.entry.subject = m.member ∧
            row'.entry.reason = some reason ∧ ∀ d ∈ some (sha256 (canonicalJsonBytes command)),
              row'.denialRequestDigest = some d :=
        ⟨_, mem_put_self known rfl, source, subject, why, fun d same => same⟩
      exact ⟨reason, rfl, denial.edits.tail noted, ⟨m', mem', key', ⟨bound⟩⟩, denial.use, denial.shape⟩

theorem refuseFork_spec {sha256 : List Char → String} {workflowId forkKey : String}
    {request : List Char} {answer : BudgetAnswer} (good : s.Good)
    (given : s.Given scope (.workflow workflowId) reason)
    (refused : s.refuseFork sha256 scope workflowId forkKey request reason now = .ok (t, answer)) :
    answer = .denied reason ∧ Edits s t ∧ SameUse s t ∧ t.shape = s.shape ∧
      ⟨workflowId, forkKey, sha256 request, reason⟩ ∈ t.refusals := by
  simp only [refuseFork, bind_eq_ok, refuse_eq_ok, exists_unit, pure_eq_ok, Prod.mk.injEq] at refused
  obtain ⟨u, recorded, fresh, rfl, rfl⟩ := refused
  have denial := recordDenial_spec good given recorded
  exact ⟨rfl, denial.edits.tail (.refusal _ fresh), denial.use, denial.shape,
    List.mem_append_right _ (List.mem_singleton.mpr rfl)⟩

structure Permission (s t : BudgetStore) (scope : Scope) (subject : RunBudgetSubject)
    (action : RunBudgetAction) (sources : List String) (now : Nat) (granted : List RunBudgetEntry) :
    Prop where
  decisions : t.decisions = s.decisions ++ granted
  sources : granted.map RunBudgetEntry.sourceId = sources
  grants : ∀ entry ∈ granted, entry.Grants action ∧ entry.scope = scope ∧ entry.subject = subject ∧
    entry.recordedAt = now

inductive Answered (s t : BudgetStore) (scope : Scope) (subject : RunBudgetSubject)
    (action : RunBudgetAction) (sources : List String) (now : Nat) : BudgetAnswer → Prop
  | authorized (deadline : Option Nat) (granted : List RunBudgetEntry) :
    Permission s t scope subject action sources now granted →
    Answered s t scope subject action sources now (.authorized deadline)
  | denied (reason : RunBudgetDenial) : t = s → s.Given scope subject reason →
    Answered s t scope subject action sources now (.denied reason)

/-- All children of a decision are granted while there is room for all of them. -/
theorem delegated {parent : String} {children : List RunBudgetSubject} {account account' : Account}
    {m : RunBudgetMember} (current : account.Current s m) (owned : m.member = .workflow parent)
    (free : account.Free .delegation children.length now)
    (appended : children.foldlM
      (fun (state : Account × BudgetStore) child =>
        state.1.append state.2 (.workflow parent) ⟨.delegation, child.id, none⟩ none now)
      (account, s) = .ok (account', t)) :
    Edits s t ∧ t.shape = s.shape ∧ ∃ granted, Permission s t m.scope m.member .delegation
      (children.map RunBudgetSubject.id) now granted := by
  induction children generalizing account s with
  | nil =>
    simp only [List.foldlM_nil, pure_eq_ok, Prod.mk.injEq] at appended
    obtain ⟨_, rfl⟩ := appended
    exact ⟨.refl, rfl, [], by simp, rfl, by simp⟩
  | cons child children ih =>
    simp only [List.foldlM_cons, bind_eq_ok, Account.append_none, Prod.exists] at appended
    obtain ⟨account₁, s₁, recorded, rest⟩ := appended
    have one : account.Free .delegation 1 now := by
      refine { free with within := fun maximum limit => ?_ }
      have := free.within maximum limit
      rw [List.length_cons] at this
      omega
    have nothing : account.Justifies none := ⟨by simp, by simp⟩
    obtain ⟨edit, current₁, next, more⟩ :=
      Account.record_spec current owned (fun _ => one) nothing recorded
    obtain ⟨_, inserted⟩ := Account.record_next recorded
    obtain ⟨_, _, rfl⟩ := Account.insert_spec inserted
    have free₁ : account₁.Free .delegation children.length now := by
      refine ⟨next.stopped.trans free.running, ?_, next.policy ▸ free.timely, ?_⟩
      · rw [next.reached, free.open']
        rfl
      · intro maximum limit
        have := free.within maximum (next.policy ▸ limit)
        have counted := next.used .delegation
        rw [List.length_cons] at this
        rw [counted, if_pos ⟨rfl, rfl⟩]
        omega
    obtain ⟨edits, shape, granted, permission⟩ := ih current₁ free₁ rest
    let first := account₁.entry (.workflow parent) ⟨.delegation, child.id, none⟩ none now
    refine ⟨.trans (.single edit) edits, shape, first :: granted, ?_, ?_, ?_⟩
    · rw [permission.decisions, more, List.append_assoc]
      rfl
    · simp [permission.sources, first, Account.entry]
    · intro entry mem
      cases List.mem_cons.mp mem with
      | inl first =>
        rw [first]
        exact ⟨⟨rfl, rfl⟩, current₁.scope, owned.symm, rfl⟩
      | inr later => exact permission.grants entry later

theorem delegate_spec {parent : String} {children : List RunBudgetSubject} {answer : BudgetAnswer}
    (delegated' : s.delegate scope parent children now = .ok (t, answer)) :
    Edits s t ∧ t.shape = s.shape ∧ Answered s t scope (.workflow parent) .delegation
      (children.map RunBudgetSubject.id) now answer := by
  simp only [delegate, bind_eq_ok, refuse_eq_ok, exists_unit] at delegated'
  obtain ⟨account, locked, _, decided⟩ := delegated'
  obtain ⟨m, same, current⟩ := Account.locked_spec locked
  obtain ⟨rfl, owned⟩ := Prod.mk.inj same
  cases denial : account.denial .delegation children.length now with
  | some reason =>
    simp only [denial, pure_eq_ok, Prod.mk.injEq] at decided
    obtain ⟨rfl, rfl⟩ := decided
    have given := current.given (by simp) denial
    exact ⟨.refl, rfl, .denied reason rfl (owned ▸ given)⟩
  | none =>
    simp only [denial, bind_eq_ok, pure_eq_ok, Prod.mk.injEq, Prod.exists] at decided
    obtain ⟨account', _, appended, rfl, rfl⟩ := decided
    obtain ⟨edits, shape, granted, permission⟩ :=
      delegated current owned (Account.denial_eq_none.mp denial) appended
    exact ⟨edits, shape, .authorized _ granted (owned ▸ permission)⟩

theorem call_spec {sourceId : String} {answer : BudgetAnswer}
    (called : s.call scope member sourceId approval now = .ok (t, answer)) :
    Edits s t ∧ t.shape = s.shape ∧ Answered s t scope member .call [sourceId] now answer := by
  simp only [call, bind_eq_ok] at called
  obtain ⟨account, locked, decided⟩ := called
  obtain ⟨m, same, current⟩ := Account.locked_spec locked
  obtain ⟨rfl, rfl⟩ := Prod.mk.inj same
  cases denial : account.denial .call 1 now with
  | some reason =>
    simp only [denial, pure_eq_ok, Prod.mk.injEq] at decided
    obtain ⟨rfl, rfl⟩ := decided
    exact ⟨.refl, rfl, .denied reason rfl (current.given (fun _ => rfl) denial)⟩
  | none =>
    simp only [denial, bind_eq_ok, pure_eq_ok, Prod.mk.injEq, Prod.exists, Account.append_none]
      at decided
    obtain ⟨account', _, recorded, rfl, rfl⟩ := decided
    have nothing : account.Justifies none := ⟨by simp, by simp⟩
    obtain ⟨edit, current', _, more⟩ := Account.record_spec current rfl
      (fun _ => Account.denial_eq_none.mp denial) nothing recorded
    obtain ⟨_, inserted⟩ := Account.record_next recorded
    obtain ⟨_, _, rfl⟩ := Account.insert_spec inserted
    refine ⟨.single edit, rfl, .authorized _ [_] ⟨more, rfl, fun entry mem => ?_⟩⟩
    rw [List.mem_singleton.mp mem]
    exact ⟨⟨rfl, rfl⟩, current'.scope, rfl, rfl⟩

theorem shape_keys : s.shape.map Prod.fst = s.members.map RunBudgetMember.key := by
  simp [shape]

theorem insertMember_spec {m : RunBudgetMember} (fresh : m.stoppedAtMs = none)
    (standalone : m.member = m.root ∨ ∃ id, m.root = .workflow id)
    (inserted : s.insertMember m = .ok t) :
    Edit s t ∧ m.key ∉ s.members.map RunBudgetMember.key ∧
      t = { s with members := s.members ++ [m] } := by
  simp only [insertMember, bind_eq_ok, refuse_eq_ok, exists_unit, pure_eq_ok, not_not] at inserted
  obtain ⟨unknown, _, rooted, rfl⟩ := inserted
  exact ⟨.member m unknown rooted fresh standalone, unknown, rfl⟩

theorem create_spec {root : RunBudgetSubject} {policy : RunBudgetPolicy}
    (created : s.create scope root policy = .ok t) :
    Edits s t ∧ (scope, root) ∉ s.shape.map Prod.fst ∧ t.shape = s.shape ++ [((scope, root), [])] := by
  simp only [create, enroll, bind_eq_ok, refuse_eq_ok, exists_unit] at created
  obtain ⟨valid, named, fresh, inserted⟩ := created
  obtain ⟨edit, unknown, rfl⟩ := insertMember_spec rfl (.inl rfl) inserted
  have tree : Edit s { s with budgets := s.budgets ++ [⟨scope, root, policy, 0, 0, false, 0⟩] } := by
    refine .tree _ valid named (fun action => ?_) rfl rfl fresh
    cases action with
    | call => rfl
    | delegation => rfl
  refine ⟨.tail (.single tree) edit, ?_, ?_⟩
  · rw [shape_keys]
    exact unknown
  · simp [shape, RunBudgetMember.key]

theorem inherit_spec {parent : String} (good : s.Good)
    (inherited : s.inherit scope (.workflow parent) member = .ok t) :
    Edits s t ∧ (scope, member) ∉ s.shape.map Prod.fst ∧
      ∃ above, ((scope, .workflow parent), above) ∈ s.shape ∧
        t.shape = s.shape ++ [((scope, member), above ++ [parent])] := by
  simp only [inherit, bind_eq_ok, okOr_eq_ok] at inherited
  obtain ⟨p, found, inserted⟩ := inherited
  have key : p.key = (scope, .workflow parent) := find_key found
  have standalone : member = p.root ∨ ∃ id, p.root = .workflow id := by
    cases good.standalone p (find_mem found) with
    | inl self => exact .inr ⟨parent, self ▸ congrArg Prod.snd key⟩
    | inr other => exact .inr other
  obtain ⟨edit, unknown, rfl⟩ := insertMember_spec rfl standalone inserted
  refine ⟨.single edit, ?_, p.ancestorWorkflows, ?_, ?_⟩
  · rw [shape_keys]
    exact unknown
  · rw [← key]
    exact List.mem_map_of_mem (find_mem found)
  · simp [shape, RunBudgetMember.key, RunBudgetSubject.id]

theorem shape_stop {m : RunBudgetMember} {stopped : Option Nat} (good : s.Good)
    (known : m ∈ s.members) :
    (put RunBudgetMember.key { m with stoppedAtMs := stopped } s.members).map
      (fun m => (m.key, m.ancestorWorkflows)) = s.shape := by
  refine map_put (f := fun m : RunBudgetMember => (m.key, m.ancestorWorkflows)) fun r mem key => ?_
  have self : r = m := eq_of_key good.memberKeys mem known key
  rw [self]
  rfl

theorem stop_spec (good : s.Good) (stopped : s.stop scope member now = .ok t) :
    Edits s t ∧ t.shape = s.shape ∧
      ∃ m ∈ t.members, m.key = (scope, member) ∧ m.stoppedAtMs.isSome = true := by
  simp only [stop, bind_eq_ok, okOr_eq_ok, refuse_eq_ok, exists_unit, pure_eq_ok] at stopped
  obtain ⟨_, _, m, found, _, rfl⟩ := stopped
  refine ⟨.single (.stop m now (find_mem found)), shape_stop good (find_mem found), ?_⟩
  have key : m.key = (scope, member) := find_key found
  refine ⟨_, mem_put_self (find_mem found) rfl, key, ?_⟩
  cases m.stoppedAtMs with
  | none => rfl
  | some _ => rfl

theorem usage_spec {owner : RunBudgetSubject} {source : String} {reported : RunBudgetUsage}
    (used : s.usage scope owner source reported = .ok t) : Edits s t ∧ t.shape = s.shape := by
  simp only [usage, bind_eq_ok, exists_unit] at used
  obtain ⟨_, used⟩ := used
  cases known : find RunBudgetMember.key (scope, owner) s.members with
  | none =>
    simp only [known, pure_eq_ok] at used
    subst used
    exact ⟨.refl, rfl⟩
  | some m =>
    simp only [known, bind_eq_ok, okOr_eq_ok, refuse_eq_ok, exists_unit] at used
    obtain ⟨row, found, _, used⟩ := used
    by_cases same : row.entry.usage = reported
    · rw [if_pos same] at used
      obtain rfl := pure_eq_ok.mp used
      exact ⟨.refl, rfl⟩
    · simp only [if_neg same, bind_eq_ok, refuse_eq_ok, exists_unit, pure_eq_ok] at used
      obtain ⟨_, _, rfl⟩ := used
      exact ⟨.single (.note row _ (find_mem found) rfl fun digest bound => bound), rfl⟩

end BudgetStore
end Ledgence
