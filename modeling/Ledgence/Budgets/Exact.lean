import Ledgence.Budgets.Edits

/-! What the counters of a tree say about its ledger, what no statement takes back, and that every
statement keeps the tables in order. -/
open Kit Kit.Checked Kit.Table

namespace Ledgence

structure RunBudget.Exact (budget : RunBudget) (ledger : List RunBudgetEntry) : Prop where
  used : ∀ action, budget.used action = ledger.countP fun entry => entry.Grants action
  within : ∀ action, ∀ maximum ∈ budget.policy.limit action, budget.used action ≤ maximum
  sequence : ledger.map RunBudgetEntry.sequence = List.range' 1 budget.lastSequence
  timely : ∀ entry ∈ ledger, entry.outcome = .authorized →
    ∀ deadline ∈ budget.policy.deadlineAtMs, entry.recordedAt < deadline
  reached : ∀ entry ∈ ledger, entry.reason = some .deadlineExceeded → budget.deadlineReached = true
  /-- Nothing is granted after the deadline was once found to be over. -/
  closed : ledger.Pairwise fun earlier later =>
    earlier.reason = some .deadlineExceeded → later.outcome = .denied

structure RunBudgetSnapshot.Shows (snapshot : RunBudgetSnapshot) (ledger : List RunBudgetEntry) :
    Prop where
  calls : snapshot.calls = ledger.countP fun entry => entry.Grants .call
  delegations : snapshot.delegations = ledger.countP fun entry => entry.Grants .delegation
  callsWithin : ∀ maximum ∈ snapshot.policy.maxCalls, snapshot.calls ≤ maximum
  delegationsWithin : ∀ maximum ∈ snapshot.policy.maxDelegations, snapshot.delegations ≤ maximum

namespace BudgetStore

def ledger (s : BudgetStore) (tree : Tree) : List RunBudgetEntry :=
  s.decisions.filter fun entry => entry.tree = tree

/-- What no transaction takes back: members and what stopped them, policies and the use of them,
what was decided, and which command a refusal is bound to. -/
structure Later (s t : BudgetStore) : Prop where
  members : ∀ m ∈ s.members, ∃ m' ∈ t.members, m'.key = m.key ∧ m'.tree = m.tree ∧
    m'.ancestorWorkflows = m.ancestorWorkflows ∧
    (m.stoppedAtMs.isSome = true → m'.stoppedAtMs = m.stoppedAtMs)
  budgets : ∀ budget ∈ s.budgets, ∃ budget' ∈ t.budgets, budget'.key = budget.key ∧
    budget'.policy = budget.policy ∧ (∀ action, budget.used action ≤ budget'.used action) ∧
    budget.lastSequence ≤ budget'.lastSequence ∧
    (budget.deadlineReached = true → budget'.deadlineReached = true)
  decisions : s.decisions <+: t.decisions
  digests : ∀ row ∈ s.entries, ∀ digest ∈ row.denialRequestDigest, ∃ row' ∈ t.entries,
    row'.entry.decision = row.entry.decision ∧ row'.denialRequestDigest = some digest
  refusals : s.refusals <+: t.refusals

structure Good (s : BudgetStore) : Prop where
  budgetKeys : Unique RunBudget.key s.budgets
  memberKeys : Unique RunBudgetMember.key s.members
  sources : Unique RunBudgetEntryRow.source s.entries
  refusalKeys : Unique RunBudgetForkRefusal.key s.refusals
  policies : ∀ budget ∈ s.budgets, budget.policy.validate = .ok () ∧ budget.root.validate = .ok ()
  rooted : ∀ m ∈ s.members, m.tree ∈ s.budgets.map RunBudget.key
  standalone : ∀ m ∈ s.members, m.member = m.root ∨ ∃ id, m.root = .workflow id
  exact : ∀ budget ∈ s.budgets, budget.Exact (s.ledger budget.key)
  ledgers : ∀ entry ∈ s.decisions, entry.tree ∈ s.budgets.map RunBudget.key
  subjects : ∀ entry ∈ s.decisions, ∃ m ∈ s.members, m.key = (entry.scope, entry.subject) ∧
    m.tree = entry.tree ∧ (entry.reason = some .cancelled → s.StoppedAbove m)
  exhausted : ∀ entry ∈ s.decisions, entry.reason = some .callsExhausted →
    ∀ budget ∈ s.budgets, budget.key = entry.tree → budget.Spent
  consistent : ∀ entry ∈ s.decisions, entry.Consistent

section Later

variable {s t u : BudgetStore}

theorem Later.refl (s : BudgetStore) : Later s s where
  members m mem := ⟨m, mem, rfl, rfl, rfl, fun _ => rfl⟩
  budgets b mem := ⟨b, mem, rfl, rfl, fun _ => le_refl _, le_refl _, id⟩
  decisions := List.prefix_refl _
  digests row mem _ digest := ⟨row, mem, rfl, digest⟩
  refusals := List.prefix_refl _

theorem Later.trans (first : Later s t) (second : Later t u) : Later s u where
  members m mem := by
    obtain ⟨m', mem', key', tree', above', stopped'⟩ := first.members m mem
    obtain ⟨m'', mem'', key'', tree'', above'', stopped''⟩ := second.members m' mem'
    refine ⟨m'', mem'', key''.trans key', tree''.trans tree', above''.trans above', ?_⟩
    intro stopped
    have same := stopped' stopped
    rw [stopped'' (same ▸ stopped), same]
  budgets b mem := by
    obtain ⟨b', mem', key', policy', used', last', reached'⟩ := first.budgets b mem
    obtain ⟨b'', mem'', key'', policy'', used'', last'', reached''⟩ := second.budgets b' mem'
    exact ⟨b'', mem'', key''.trans key', policy''.trans policy',
      fun action => (used' action).trans (used'' action), last'.trans last'',
      fun reached => reached'' (reached' reached)⟩
  decisions := first.decisions.trans second.decisions
  digests row mem digest bound := by
    obtain ⟨row', mem', same', bound'⟩ := first.digests row mem digest bound
    obtain ⟨row'', mem'', same'', bound''⟩ := second.digests row' mem' digest bound'
    exact ⟨row'', mem'', same''.trans same', bound''⟩
  refusals := first.refusals.trans second.refusals

theorem Later.stoppedAbove (later : Later s t) {m m' : RunBudgetMember} (key : m'.key = m.key)
    (above : m'.ancestorWorkflows = m.ancestorWorkflows)
    (own : m.stoppedAtMs.isSome = true → m'.stoppedAtMs.isSome = true)
    (stopped : s.StoppedAbove m) : t.StoppedAbove m' := by
  have scope : m'.scope = m.scope := congrArg Prod.fst key
  cases stopped with
  | inl self => exact .inl (own self)
  | inr ancestor =>
    obtain ⟨id, mem, p, known, pkey, pstopped⟩ := ancestor
    obtain ⟨p', known', pkey', _, _, kept⟩ := later.members p known
    refine .inr ⟨id, above ▸ mem, p', known', ?_, ?_⟩
    · rw [pkey', pkey, scope]
    · rw [kept pstopped]
      exact pstopped

theorem exists_put {α κ : Type} [DecidableEq κ] {key : α → κ} {rows : List α} {old row r : α}
    {P : α → Prop} (unique : Unique key rows) (known : old ∈ rows) (same : key row = key old)
    (replaced : r = old → P row) (other : P r) (mem : r ∈ rows) : ∃ r' ∈ put key row rows, P r' := by
  by_cases h : key r = key row
  · have self : r = old := eq_of_key unique mem known (h.trans same)
    exact ⟨row, mem_put_self mem h, replaced self⟩
  · exact ⟨r, mem_put_other mem h, other⟩

theorem source_of_decision {old new : RunBudgetEntryRow}
    (same : new.entry.decision = old.entry.decision) : new.source = old.source := by
  have source := congrArg RunBudgetEntry.source same
  exact source

theorem note_decisions (good : s.Good) {old new : RunBudgetEntryRow} (known : old ∈ s.entries)
    (same : new.entry.decision = old.entry.decision) :
    ({ s with entries := put RunBudgetEntryRow.source new s.entries } : BudgetStore).decisions =
      s.decisions := by
  have rest : ∀ row ∈ s.entries, row.source = new.source →
      new.entry.decision = row.entry.decision := by
    intro row mem key
    have self := eq_of_key good.sources mem known (key.trans (source_of_decision same))
    rw [self, same]
  exact map_put (f := fun row : RunBudgetEntryRow => row.entry.decision) rest

theorem Edit.later (good : s.Good) (edit : Edit s t) : Later s t := by
  have stay := Later.refl s
  cases edit with
  | tree budget _ _ _ _ _ _ =>
    exact { stay with
      budgets := fun b mem => by
        obtain ⟨b', mem', rest⟩ := stay.budgets b mem
        exact ⟨b', List.mem_append_left _ mem', rest⟩ }
  | member m _ _ _ _ =>
    exact { stay with
      members := fun m mem => by
        obtain ⟨m', mem', rest⟩ := stay.members m mem
        exact ⟨m', List.mem_append_left _ mem', rest⟩ }
  | decide old new entry known decides =>
    refine { stay with budgets := ?_, decisions := ?_, digests := ?_ }
    · intro b mem
      refine exists_put good.budgetKeys known decides.key (fun self => ?_)
        ⟨rfl, rfl, fun _ => le_refl _, le_refl _, id⟩ mem
      subst self
      refine ⟨decides.key, decides.policy, fun action => ?_, ?_, fun reached => ?_⟩
      · have := decides.used action
        omega
      · have := decides.last
        have := decides.sequence
        omega
      · simp [decides.reached, reached]
    · exact ⟨[entry.decision], by simp [decisions]⟩
    · intro row mem digest bound
      exact ⟨row, List.mem_append_left _ mem, rfl, bound⟩
  | stop m now known =>
    refine { stay with members := fun r mem => ?_ }
    have itself : r.key = r.key ∧ r.tree = r.tree ∧ r.ancestorWorkflows = r.ancestorWorkflows ∧
        (r.stoppedAtMs.isSome = true → r.stoppedAtMs = r.stoppedAtMs) := ⟨rfl, rfl, rfl, fun _ => rfl⟩
    refine exists_put good.memberKeys known rfl (fun self => ?_) itself mem
    subst self
    refine ⟨rfl, rfl, rfl, fun stopped => ?_⟩
    obtain ⟨at', known'⟩ := Option.isSome_iff_exists.mp stopped
    simp [known']
  | note old new known same kept =>
    refine { stay with decisions := ?_, digests := ?_ }
    · have kept := note_decisions good known same
      exact kept ▸ List.prefix_refl _
    · intro row mem digest bound
      refine exists_put good.sources known (source_of_decision same) (fun self => ?_) ⟨rfl, bound⟩ mem
      subst self
      exact ⟨same, kept digest bound⟩
  | refusal r _ =>
    exact { stay with refusals := ⟨[r], rfl⟩ }

/-- The subject of a decision stays known, and stopped where the decision says so. -/
theorem Good.subjects_later (good : s.Good) (later : Later s t) {entry : RunBudgetEntry}
    (mem : entry ∈ s.decisions) : ∃ m ∈ t.members, m.key = (entry.scope, entry.subject) ∧
      m.tree = entry.tree ∧ (entry.reason = some .cancelled → t.StoppedAbove m) := by
  obtain ⟨m, known, key, tree, stopped⟩ := good.subjects entry mem
  obtain ⟨m', known', key', tree', above, own⟩ := later.members m known
  refine ⟨m', known', key'.trans key, tree'.trans tree, fun cancelled => ?_⟩
  refine later.stoppedAbove key' above (fun self => ?_) (stopped cancelled)
  rw [own self]
  exact self

theorem ledger_append {s' : BudgetStore} {entry : RunBudgetEntry} {tree : Tree}
    (more : s'.decisions = s.decisions ++ [entry]) :
    s'.ledger tree = s.ledger tree ++ if entry.tree = tree then [entry] else [] := by
  rw [ledger, more, List.filter_append, ledger]
  by_cases h : entry.tree = tree
  · simp [h]
  · simp [h]

end Later

section Decide

variable {s : BudgetStore} {old new : RunBudget} {entry : RunBudgetEntry}
  {ledger : List RunBudgetEntry}

theorem Decides.decision (decides : s.Decides old new entry) : entry.decision = entry := by
  rw [RunBudgetEntry.decision, ← decides.blank]

theorem Decides.spent (decides : s.Decides old new entry) (spent : old.Spent) : new.Spent := by
  obtain ⟨maximum, limit, used⟩ := spent
  have counted := decides.used .call
  simp only [RunBudget.used] at counted
  refine ⟨maximum, ?_, by omega⟩
  rw [decides.policy]
  exact limit

/-- One decision keeps the counters and the ledger of its tree together. -/
theorem Decides.exact (decides : s.Decides old new entry) (exact : old.Exact ledger) :
    new.Exact (ledger ++ [entry]) where
  used action := by
    have before := exact.used action
    have counted := decides.used action
    rw [List.countP_append, List.countP_singleton, ← before, counted]
    simp
  within action maximum limit := by
    rw [decides.policy] at limit
    have before := exact.within action maximum limit
    have counted := decides.used action
    by_cases granted : entry.Grants action
    · obtain ⟨rfl, authorized⟩ := granted
      have := decides.within authorized maximum limit
      rw [counted]
      split <;> omega
    · rw [counted, if_neg granted]
      exact before
  sequence := by
    rw [List.map_append, exact.sequence, decides.last, decides.sequence, List.range'_1_concat,
      List.map_singleton, decides.sequence, Nat.add_comm]
  timely e mem authorized deadline due := by
    rw [decides.policy] at due
    cases List.mem_append.mp mem with
    | inl earlier => exact exact.timely e earlier authorized deadline due
    | inr last =>
      obtain rfl := List.mem_singleton.mp last
      exact decides.timely authorized deadline due
  reached e mem late := by
    rw [decides.reached]
    cases List.mem_append.mp mem with
    | inl earlier => simp [exact.reached e earlier late]
    | inr last =>
      obtain rfl := List.mem_singleton.mp last
      simp [late]
  closed := by
    refine List.pairwise_append.mpr ⟨exact.closed, List.pairwise_singleton _ _, ?_⟩
    intro earlier mem later last late
    obtain rfl := List.mem_singleton.mp last
    cases outcome : later.outcome with
    | denied => rfl
    | authorized =>
      have reached := exact.reached earlier mem late
      have free := decides.open' outcome
      rw [reached] at free
      cases free

/-- A new decision is made on the tree of its subject, and no other tree changes. -/
theorem Good.decision (good : s.Good) (known : old ∈ s.budgets) (decides : s.Decides old new entry) :
    ({ s with
      entries := s.entries ++ [⟨entry, none⟩]
      budgets := put RunBudget.key new s.budgets } : BudgetStore).Good := by
  have later := Edit.later good (.decide old new entry known decides)
  have more : ({ s with
      entries := s.entries ++ [⟨entry, none⟩]
      budgets := put RunBudget.key new s.budgets } : BudgetStore).decisions =
        s.decisions ++ [entry] := by
    simp [decisions, decides.decision]
  have keys : (put RunBudget.key new s.budgets).map RunBudget.key = s.budgets.map RunBudget.key :=
    keys_put
  have place : entry.tree ∈ s.budgets.map RunBudget.key :=
    List.mem_map.mpr ⟨old, known, decides.tree.symm⟩
  refine
    { good with
      budgetKeys := unique_put good.budgetKeys
      sources := unique_append good.sources decides.fresh
      policies := fun b mem => ?_
      rooted := fun m mem => ?_
      exact := fun b mem => ?_
      ledgers := fun e mem => ?_
      subjects := fun e mem => ?_
      exhausted := fun e mem spent b kept key => ?_
      consistent := fun e mem => ?_ }
  · cases mem_put mem with
    | inl self =>
      have sameRoot : b.root = old.root := self ▸ congrArg Prod.snd decides.key
      rw [sameRoot, self, decides.policy]
      exact good.policies old known
    | inr other => exact good.policies b other.1
  · rw [keys]
    exact good.rooted m mem
  · rw [ledger_append more]
    cases mem_put mem with
    | inl self =>
      rw [self, if_pos (decides.tree.trans decides.key.symm), decides.key]
      exact decides.exact (good.exact old known)
    | inr other =>
      have apart : entry.tree ≠ b.key := by
        rw [decides.tree, ← decides.key]
        exact Ne.symm other.2
      rw [if_neg apart, List.append_nil]
      exact good.exact b other.1
  · rw [keys]
    rw [more] at mem
    cases List.mem_append.mp mem with
    | inl earlier => exact good.ledgers e earlier
    | inr last => exact List.mem_singleton.mp last ▸ place
  · rw [more] at mem
    cases List.mem_append.mp mem with
    | inl earlier => exact good.subjects_later later earlier
    | inr last =>
      obtain rfl := List.mem_singleton.mp last
      obtain ⟨m, member, key, tree, _, stopped⟩ := decides.subject
      exact ⟨m, member, key, tree, stopped⟩
  · rw [more] at mem
    cases mem_put kept with
    | inl self =>
      subst self
      cases List.mem_append.mp mem with
      | inl earlier =>
        have before := good.exhausted e earlier spent old known (decides.key.symm.trans key)
        exact decides.spent before
      | inr last =>
        obtain rfl := List.mem_singleton.mp last
        exact decides.spent (decides.exhausted spent)
    | inr other =>
      cases List.mem_append.mp mem with
      | inl earlier => exact good.exhausted e earlier spent b other.1 key
      | inr last =>
        obtain rfl := List.mem_singleton.mp last
        exact absurd (key.trans (decides.tree.trans decides.key.symm)) other.2
  · rw [more] at mem
    cases List.mem_append.mp mem with
    | inl earlier => exact good.consistent e earlier
    | inr last => exact List.mem_singleton.mp last ▸ decides.consistent

end Decide

variable {s t : BudgetStore}

theorem Good.empty : empty.Good where
  budgetKeys := List.nodup_nil
  memberKeys := List.nodup_nil
  sources := List.nodup_nil
  refusalKeys := List.nodup_nil
  policies := by simp [BudgetStore.empty]
  rooted := by simp [BudgetStore.empty]
  standalone := by simp [BudgetStore.empty]
  exact := by simp [BudgetStore.empty]
  ledgers := by simp [BudgetStore.empty, decisions]
  subjects := by simp [BudgetStore.empty, decisions]
  exhausted := by simp [BudgetStore.empty, decisions]
  consistent := by simp [BudgetStore.empty, decisions]

theorem Good.tree (good : s.Good) {budget : RunBudget} (policy : budget.policy.validate = .ok ())
    (root : budget.root.validate = .ok ()) (unused : ∀ action, budget.used action = 0)
    (first : budget.lastSequence = 0) (fresh : budget.key ∉ s.budgets.map RunBudget.key) :
    ({ s with budgets := s.budgets ++ [budget] } : BudgetStore).Good := by
  have absent : s.ledger budget.key = [] := by
    refine List.filter_eq_nil_iff.mpr fun entry mem => ?_
    have known := good.ledgers entry mem
    simp only [decide_eq_true_eq]
    exact fun same => fresh (same ▸ known)
  refine
    { good with
      budgetKeys := unique_append good.budgetKeys fun b mem same =>
        fresh (same ▸ List.mem_map_of_mem mem)
      policies := fun b mem => ?_
      rooted := fun m mem => ?_
      exact := fun b mem => ?_
      ledgers := fun e mem => ?_
      exhausted := fun e mem spent b kept key => ?_ }
  · cases List.mem_append.mp mem with
    | inl known => exact good.policies b known
    | inr new => exact List.mem_singleton.mp new ▸ ⟨policy, root⟩
  · rw [List.map_append]
    exact List.mem_append_left _ (good.rooted m mem)
  · cases List.mem_append.mp mem with
    | inl known => exact good.exact b known
    | inr new =>
      obtain rfl := List.mem_singleton.mp new
      have none' : ({ s with budgets := s.budgets ++ [b] } : BudgetStore).ledger b.key = [] := absent
      rw [none']
      refine ⟨fun action => unused action, fun action maximum _ => ?_, ?_, ?_, ?_, .nil⟩
      · have := unused action
        omega
      · rw [first]
        rfl
      · intro e mem
        cases mem
      · intro e mem
        cases mem
  · rw [List.map_append]
    exact List.mem_append_left _ (good.ledgers e mem)
  · cases List.mem_append.mp kept with
    | inl known => exact good.exhausted e mem spent b known key
    | inr new =>
      obtain rfl := List.mem_singleton.mp new
      exact absurd (key ▸ good.ledgers e mem) fresh

theorem Edit.good (good : s.Good) (edit : Edit s t) : t.Good := by
  have later := Edit.later good edit
  cases edit with
  | tree budget policy root unused _ first fresh => exact good.tree policy root unused first fresh
  | member m fresh rooted _ standalone =>
    refine
      { good with
        memberKeys := unique_append good.memberKeys fun r mem same =>
          fresh (same ▸ List.mem_map_of_mem mem)
        rooted := fun r mem => ?_
        standalone := fun r mem => ?_
        subjects := fun e mem => good.subjects_later later mem }
    · cases List.mem_append.mp mem with
      | inl known => exact good.rooted r known
      | inr new => exact List.mem_singleton.mp new ▸ rooted
    · cases List.mem_append.mp mem with
      | inl known => exact good.standalone r known
      | inr new => exact List.mem_singleton.mp new ▸ standalone
  | decide old new entry known decides => exact good.decision known decides
  | stop m now known =>
    refine
      { good with
        memberKeys := unique_put good.memberKeys
        rooted := fun r mem => ?_
        standalone := fun r mem => ?_
        subjects := fun e mem => good.subjects_later later mem }
    · cases mem_put mem with
      | inl self =>
        rw [self]
        exact good.rooted m known
      | inr other => exact good.rooted r other.1
    · cases mem_put mem with
      | inl self =>
        rw [self]
        exact good.standalone m known
      | inr other => exact good.standalone r other.1
  | note old new known same _ =>
    have kept := note_decisions good known same
    refine
      { good with
        sources := unique_put good.sources
        exact := fun b mem => ?_
        ledgers := fun e mem => ?_
        subjects := fun e mem => ?_
        exhausted := fun e mem => ?_
        consistent := fun e mem => ?_ }
    · rw [ledger, kept]
      exact good.exact b mem
    · rw [kept] at mem
      exact good.ledgers e mem
    · rw [kept] at mem
      exact good.subjects e mem
    · rw [kept] at mem
      exact good.exhausted e mem
    · rw [kept] at mem
      exact good.consistent e mem
  | refusal r fresh =>
    exact { good with
      refusalKeys := unique_append good.refusalKeys fun r' mem same =>
        fresh (same ▸ List.mem_map_of_mem mem) }

theorem Edit.decided (good : s.Good) (edit : Edit s t) {entry : RunBudgetEntry}
    (mem : entry ∈ t.decisions) (added : entry ∉ s.decisions) :
    t.members = s.members ∧ ∃ old new, s.Decides old new entry := by
  cases edit with
  | tree => exact absurd mem added
  | member => exact absurd mem added
  | stop => exact absurd mem added
  | refusal => exact absurd mem added
  | note old new known same _ =>
    rw [note_decisions good known same] at mem
    exact absurd mem added
  | decide old new e known decides =>
    have last : entry = e := by
      simp only [decisions, List.map_append, List.mem_append, List.map_singleton,
        List.mem_singleton, decides.decision] at mem
      exact mem.resolve_left added
    exact ⟨rfl, old, new, last ▸ decides⟩

theorem Edits.good (good : s.Good) (edits : Edits s t) : t.Good :=
  Edits.keeps (fun _ _ edit good => edit.good good) edits good

theorem Edits.later (good : s.Good) (edits : Edits s t) : Later s t := by
  induction edits with
  | refl => exact Later.refl s
  | tail before edit ih => exact ih.trans (edit.later (Edits.good good before))

end BudgetStore
end Ledgence
