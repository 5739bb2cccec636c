import Ledgence.Budgets.Transactions

/-! Every run of budget transactions keeps its ledgers exact, answers a repeated refusal as before, and
grants nothing below what was stopped. -/
open Kit Kit.Checked Kit.Table

namespace Ledgence

namespace BudgetStore

variable {s t : BudgetStore}

inductive Grows (s t : BudgetStore) : List Birth → Prop
  | same : t.shape = s.shape → Grows s t []
  | root (key : Scope × RunBudgetSubject) : key ∉ s.shape.map Prod.fst →
    t.shape = s.shape ++ [(key, [])] → Grows s t []
  | child (scope : Scope) (parent : String) (member : RunBudgetSubject) (above : List String) :
    (scope, member) ∉ s.shape.map Prod.fst → ((scope, .workflow parent), above) ∈ s.shape →
    t.shape = s.shape ++ [((scope, member), above ++ [parent])] →
    Grows s t [⟨scope, parent, member⟩]

theorem Given.later {scope : Scope} {subject : RunBudgetSubject} {reason : RunBudgetDenial}
    (given : s.Given scope subject reason) (later : Later s t) : t.Given scope subject reason := by
  obtain ⟨m, mem, key, stopped, spent⟩ := given
  obtain ⟨m', mem', key', tree', above', own⟩ := later.members m mem
  refine ⟨m', mem', key'.trans key, fun cancelled => ?_, fun exhausted => ?_⟩
  · refine later.stoppedAbove key' above' (fun self => ?_) (stopped cancelled)
    rw [own self]
    exact self
  · obtain ⟨b, known, place, maximum, limit, used⟩ := spent exhausted
    obtain ⟨b', known', place', policy, more, _⟩ := later.budgets b known
    have calls : b.calls ≤ b'.calls := more .call
    refine ⟨b', known', place'.trans (place.trans tree'.symm), maximum, ?_, by omega⟩
    rw [policy]
    exact limit

theorem Recorded.later {tree : Tree} {subject : RunBudgetSubject} {action : RunBudgetAction}
    {key : String} {reason : RunBudgetDenial} {digest : Option String}
    (recorded : s.Recorded tree subject action key reason digest) (later : Later s t) :
    t.Recorded tree subject action key reason digest := by
  obtain ⟨row, mem, source, owner, why, bound⟩ := recorded.row
  have carried : ∃ row' ∈ t.entries, row'.entry.decision = row.entry.decision ∧
      ∀ d ∈ digest, row'.denialRequestDigest = some d := by
    cases digest with
    | some d =>
      obtain ⟨row', mem', same, bound'⟩ := later.digests row mem d (bound d rfl)
      refine ⟨row', mem', same, fun d' e => ?_⟩
      rw [bound', ← Option.mem_some.mp e]
    | none =>
      have kept : row.entry.decision ∈ t.decisions :=
        later.decisions.subset (List.mem_map_of_mem mem)
      obtain ⟨row', mem', same⟩ := List.mem_map.mp kept
      exact ⟨row', mem', same, by simp⟩
  obtain ⟨row', mem', same, bound'⟩ := carried
  have owner' := congrArg RunBudgetEntry.subject same
  have why' := congrArg RunBudgetEntry.reason same
  exact ⟨row', mem', (source_of_decision same).trans source, Eq.trans owner' owner,
    Eq.trans why' why, bound'⟩

end BudgetStore

namespace BudgetWorld

open BudgetStore

variable {sha256 : List Char → String} {w w' : BudgetWorld} {t : BudgetStore}
  {command : BudgetCommand} {answer : BudgetAnswer}

structure Sound (w : BudgetWorld) : Prop where
  good : w.store.Good
  family : ∀ key above, (key, above) ∈ w.store.shape →
    ∀ id, id ∈ above ↔ Under w.births key.1 id key.2
  known : ∀ birth ∈ w.births, (birth.scope, birth.member) ∈ w.store.shape.map Prod.fst ∧
    (birth.scope, .workflow birth.parent) ∈ w.store.shape.map Prod.fst
  given : ∀ scope subject action reason, (scope, subject, action, reason) ∈ w.refused →
    w.store.Given scope subject reason

structure Effect (s t : BudgetStore) (command : BudgetCommand) (answer : BudgetAnswer) : Prop where
  edits : Edits s t
  grows : Grows s t (born command)
  told : ∀ scope subject action reason, (scope, subject, action, reason) ∈ told command answer →
    t.Given scope subject reason
  use : ∀ reason, answer = .denied reason → SameUse s t

theorem Answered.effect {s : BudgetStore} {scope : Scope} {subject : RunBudgetSubject}
    {action : RunBudgetAction} {sources : List String} {now : Nat} (edits : Edits s t)
    (shape : t.shape = s.shape) (plain : born command = [])
    (asks : command.asks = some (scope, subject, action))
    (answered : Answered s t scope subject action sources now answer) : Effect s t command answer := by
  refine ⟨edits, plain ▸ .same shape, ?_, ?_⟩
  · intro scope' subject' action' reason' mem
    cases answered with
    | authorized deadline granted permission => simp [BudgetWorld.told] at mem
    | denied reason same given =>
      simp only [BudgetWorld.told, asks, Option.toList_some, List.map_cons, List.map_nil,
        List.mem_singleton, Prod.mk.injEq] at mem
      obtain ⟨rfl, rfl, rfl, rfl⟩ := mem
      rw [same]
      exact given
  · intro reason denied
    subst denied
    cases answered with
    | denied _ same _ =>
      rw [same]
      exact SameUse.refl s

theorem Effect.silent {s : BudgetStore} (edits : Edits s t) (grows : Grows s t (born command))
    (asks : command.asks = none) (use : ∀ reason, answer = .denied reason → SameUse s t) :
    Effect s t command answer := by
  refine ⟨edits, grows, fun scope subject action reason mem => ?_, use⟩
  cases answer with
  | done => simp [BudgetWorld.told] at mem
  | authorized deadline => simp [BudgetWorld.told] at mem
  | denied reason => simp [BudgetWorld.told, asks] at mem

theorem execute_effect (sound : w.Sound) (licensed : w.Licensed command)
    (executed : execute sha256 w.store command = .ok (t, answer)) :
    Effect w.store t command answer := by
  have good := sound.good
  have justified : ∀ scope subject action reason,
      command.reports = some (scope, subject, action, reason) → w.store.Given scope subject reason :=
    fun scope subject action reason reports =>
      sound.given scope subject action reason (licensed _ reports)
  cases command with
  | create scope root policy =>
    simp only [execute, map_eq_ok, Prod.mk.injEq] at executed
    obtain ⟨_, created, rfl, rfl⟩ := executed
    obtain ⟨edits, fresh, shape⟩ := create_spec created
    exact .silent edits (.root _ fresh shape) rfl (by simp)
  | inherit scope parent member =>
    simp only [execute, map_eq_ok, Prod.mk.injEq] at executed
    obtain ⟨_, inherited, rfl, rfl⟩ := executed
    obtain ⟨edits, fresh, above, known, shape⟩ := inherit_spec good inherited
    exact .silent edits (.child _ _ _ above fresh known shape) rfl (by simp)
  | delegate scope parent children now =>
    obtain ⟨edits, shape, answered⟩ := delegate_spec executed
    exact Answered.effect edits shape rfl rfl answered
  | call scope member sourceId approval now =>
    obtain ⟨edits, shape, answered⟩ := call_spec executed
    exact Answered.effect edits shape rfl rfl answered
  | late scope member action now =>
    simp only [execute, BudgetStore.late, map_eq_ok, bind_eq_ok, okOr_eq_ok, refuse_eq_ok,
      exists_unit, pure_eq_ok, Prod.mk.injEq] at executed
    obtain ⟨_, ⟨account, locked, _, _, _, rfl⟩, rfl, rfl⟩ := executed
    obtain ⟨m, key, current⟩ := Account.locked_spec locked
    have given : w.store.Given scope member .deadlineExceeded :=
      ⟨m, current.member, key, by simp, by simp⟩
    have answered : Answered w.store w.store scope member action [] 0 (.denied .deadlineExceeded) :=
      .denied _ rfl given
    exact Answered.effect .refl rfl rfl rfl answered
  | recordDenial scope member action key denial approval now =>
    simp only [execute, map_eq_ok, Prod.mk.injEq] at executed
    obtain ⟨_, recorded, rfl, rfl⟩ := executed
    have spec := recordDenial_spec good (justified _ _ _ _ rfl) recorded
    exact .silent spec.edits (.same spec.shape) rfl fun _ _ => spec.use
  | boundCallRefusal scope member key reason command approval now =>
    obtain ⟨_, _, spec⟩ := boundCallRefusal_spec good (justified _ _ _ _ rfl) executed
    exact .silent spec.edits (.same spec.shape) rfl fun _ _ => spec.use
  | replayFork workflowId forkKey request =>
    simp only [execute, map_eq_ok, Prod.mk.injEq] at executed
    obtain ⟨_, _, rfl, rfl⟩ := executed
    exact .silent .refl (.same rfl) rfl fun _ _ => SameUse.refl _
  | refuseFork scope workflowId forkKey request reason now =>
    obtain ⟨_, edits, use, shape, _⟩ := refuseFork_spec good (justified _ _ _ _ rfl) executed
    exact .silent edits (.same shape) rfl fun _ _ => use
  | stop scope member now =>
    simp only [execute, map_eq_ok, Prod.mk.injEq] at executed
    obtain ⟨_, stopped, rfl, rfl⟩ := executed
    obtain ⟨edits, shape, _⟩ := stop_spec good stopped
    exact .silent edits (.same shape) rfl (by simp)
  | usage scope owner source reported =>
    simp only [execute, map_eq_ok, Prod.mk.injEq] at executed
    obtain ⟨_, used, rfl, rfl⟩ := executed
    obtain ⟨edits, shape⟩ := usage_spec used
    exact .silent edits (.same shape) rfl (by simp)

theorem under_known {births : List Birth} {birth : Birth} {scope : Scope} {id : String}
    {keys : List (Scope × RunBudgetSubject)}
    (known : ∀ b ∈ births, (b.scope, .workflow b.parent) ∈ keys)
    (fresh : (birth.scope, birth.member) ∉ keys) {subject : RunBudgetSubject}
    (mem : (scope, subject) ∈ keys) :
    Under (birth :: births) scope id subject ↔ Under births scope id subject := by
  constructor
  · intro under
    induction under with
    | child parent =>
      cases List.mem_cons.mp parent with
      | inl self =>
        subst self
        exact absurd mem fresh
      | inr old => exact .child old
    | deeper parent above ih =>
      cases List.mem_cons.mp parent with
      | inl self =>
        subst self
        exact absurd mem fresh
      | inr old => exact .deeper old (ih (known _ old))
  · intro under
    induction under with
    | child parent => exact .child (List.mem_cons_of_mem _ parent)
    | deeper parent above ih =>
      exact .deeper (List.mem_cons_of_mem _ parent) (ih (known _ parent))

/-- A member that was just created is below its parent, and below what that is below of. -/
theorem under_born {births : List Birth} {scope : Scope} {parent : String}
    {member : RunBudgetSubject} {keys : List (Scope × RunBudgetSubject)}
    (known : ∀ b ∈ births, (b.scope, b.member) ∈ keys ∧ (b.scope, .workflow b.parent) ∈ keys)
    (fresh : (scope, member) ∉ keys) (there : (scope, .workflow parent) ∈ keys) (id : String) :
    Under (⟨scope, parent, member⟩ :: births) scope id member ↔
      id = parent ∨ Under births scope id (.workflow parent) := by
  have same : Under (⟨scope, parent, member⟩ :: births) scope id (.workflow parent) ↔
      Under births scope id (.workflow parent) :=
    under_known (fun b mem => (known b mem).2) fresh there
  have own : ∀ other : String, ⟨scope, other, member⟩ ∈ (⟨scope, parent, member⟩ :: births : List Birth) →
      other = parent := by
    intro other mem
    cases List.mem_cons.mp mem with
    | inl self => exact (Birth.mk.inj self).2.1
    | inr old => exact absurd (known _ old).1 fresh
  constructor
  · intro under
    cases under with
    | child mem => exact .inl (own _ mem)
    | deeper mem above =>
      obtain rfl := own _ mem
      exact .inr (same.mp above)
  · intro either
    cases either with
    | inl self => exact self ▸ .child (List.mem_cons_self ..)
    | inr above => exact .deeper (List.mem_cons_self ..) (same.mpr above)

theorem Sound.init : init.Sound where
  good := Good.empty
  family := by simp [BudgetWorld.init, BudgetStore.shape, BudgetStore.empty]
  known := by simp [BudgetWorld.init]
  given := by simp [BudgetWorld.init]

theorem Sound.family_grows (sound : w.Sound) (grows : Grows w.store t (born command)) :
    (∀ key above, (key, above) ∈ t.shape →
      ∀ id, id ∈ above ↔ Under (born command ++ w.births) key.1 id key.2) ∧
      ∀ birth ∈ born command ++ w.births, (birth.scope, birth.member) ∈ t.shape.map Prod.fst ∧
        (birth.scope, .workflow birth.parent) ∈ t.shape.map Prod.fst := by
  have parents : ∀ b ∈ w.births, (b.scope, .workflow b.parent) ∈ w.store.shape.map Prod.fst :=
    fun b mem => (sound.known b mem).2
  generalize births : born command = new at grows
  cases grows with
  | same shape =>
    rw [shape]
    exact ⟨sound.family, sound.known⟩
  | root key fresh shape =>
    rw [shape]
    refine ⟨fun key' above mem id => ?_, fun b mem => ?_⟩
    · cases List.mem_append.mp mem with
      | inl old => exact sound.family key' above old id
      | inr self =>
        obtain ⟨rfl, rfl⟩ := Prod.mk.inj (List.mem_singleton.mp self)
        simp only [List.not_mem_nil, List.nil_append, false_iff]
        intro under
        cases under with
        | child mem => exact fresh (sound.known _ mem).1
        | deeper mem _ => exact fresh (sound.known _ mem).1
    · have ⟨member, parent⟩ := sound.known b mem
      simp [member, parent]
  | child scope parent member above fresh there shape =>
    have place : (scope, .workflow parent) ∈ w.store.shape.map Prod.fst := List.mem_map_of_mem there
    rw [shape]
    refine ⟨fun key' above' mem id => ?_, fun b mem => ?_⟩
    · cases List.mem_append.mp mem with
      | inl old =>
        rw [sound.family key' above' old id]
        exact (under_known parents fresh (List.mem_map_of_mem old)).symm
      | inr self =>
        obtain ⟨rfl, rfl⟩ := Prod.mk.inj (List.mem_singleton.mp self)
        have born' := under_born sound.known fresh place id
        have before := sound.family _ _ there id
        simp only [List.cons_append, List.nil_append, List.mem_append, List.mem_singleton]
        rw [born', before]
        exact or_comm
    · cases List.mem_cons.mp mem with
      | inl self =>
        rw [self]
        simp [place]
      | inr old =>
        have ⟨member, parent⟩ := sound.known b old
        simp [member, parent]

theorem step_sound (sha256 : List Char → String) (sound : w.Sound) (command : BudgetCommand) :
    (w.step sha256 command).Sound ∧ Edits w.store (w.step sha256 command).store := by
  rw [step]
  by_cases licensed : w.Licensed command
  · rw [if_pos licensed]
    cases executed : execute sha256 w.store command with
    | error e => exact ⟨sound, .refl⟩
    | ok result =>
      obtain ⟨t, answer⟩ := result
      have effect := execute_effect sound licensed executed
      have later := Edits.later sound.good effect.edits
      obtain ⟨family, known⟩ := sound.family_grows effect.grows
      refine ⟨⟨Edits.good sound.good effect.edits, family, known, ?_⟩, effect.edits⟩
      intro scope subject action reason mem
      cases List.mem_append.mp mem with
      | inl new => exact effect.told scope subject action reason new
      | inr old => exact (sound.given scope subject action reason old).later later
  · rw [if_neg licensed]
    exact ⟨sound, .refl⟩

theorem run_sound (sha256 : List Char → String) (sound : w.Sound) (commands : List BudgetCommand) :
    (w.run sha256 commands).Sound ∧ Edits w.store (w.run sha256 commands).store := by
  induction commands generalizing w with
  | nil => exact ⟨sound, .refl⟩
  | cons command commands ih =>
    obtain ⟨next, edits⟩ := step_sound sha256 sound command
    obtain ⟨last, rest⟩ := ih next
    exact ⟨last, edits.trans rest⟩

/- What is below a stopped subject. -/

/-- The member that a subject of the family is, with all that it is below of. -/
theorem Sound.subtree (sound : w.Sound) {scope : Scope} {top subject : RunBudgetSubject}
    {m : RunBudgetMember} (mem : m ∈ w.store.members) (key : m.key = (scope, subject)) :
    w.Subtree scope top subject ↔
      subject = top ∨ ∃ id ∈ m.ancestorWorkflows, top = .workflow id := by
  have place : ((scope, subject), m.ancestorWorkflows) ∈ w.store.shape :=
    key ▸ List.mem_map_of_mem (f := fun m : RunBudgetMember => (m.key, m.ancestorWorkflows)) mem
  have family := sound.family _ _ place
  refine or_congr Iff.rfl ⟨?_, ?_⟩
  · intro ⟨id, same, under⟩
    exact ⟨id, (family id).mpr under, same⟩
  · intro ⟨id, above, same⟩
    exact ⟨id, same, (family id).mp above⟩

theorem Sound.stoppedAbove (sound : w.Sound) {scope : Scope} {subject : RunBudgetSubject}
    {m : RunBudgetMember} (mem : m ∈ w.store.members) (key : m.key = (scope, subject)) :
    w.store.StoppedAbove m ↔ ∃ top, w.Stopped scope top ∧ w.Subtree scope top subject := by
  have scope' : m.scope = scope := congrArg Prod.fst key
  constructor
  · intro stopped
    cases stopped with
    | inl self => exact ⟨subject, ⟨m, mem, key, self⟩, .inl rfl⟩
    | inr above =>
      obtain ⟨id, ancestor, p, known, pkey, own⟩ := above
      refine ⟨.workflow id, ⟨p, known, scope' ▸ pkey, own⟩, ?_⟩
      exact (sound.subtree mem key).mpr (.inr ⟨id, ancestor, rfl⟩)
  · intro ⟨top, ⟨p, known, pkey, own⟩, below⟩
    cases (sound.subtree mem key).mp below with
    | inl self =>
      have same : m = p := eq_of_key sound.good.memberKeys mem known (by rw [key, pkey, self])
      rw [same]
      exact .inl own
    | inr above =>
      obtain ⟨id, ancestor, rfl⟩ := above
      exact .inr ⟨id, ancestor, p, known, scope'.symm ▸ pkey, own⟩

end BudgetWorld

namespace BudgetStore

variable {s t : BudgetStore}

/-- Permissions that were granted since: to members that were not stopped at the start. -/
theorem Edits.granted (good : s.Good) (edits : Edits s t) {entry : RunBudgetEntry}
    (mem : entry ∈ t.decisions) (new : entry ∉ s.decisions) (granted : entry.outcome = .authorized)
    {m p : RunBudgetMember} (known : m ∈ t.members) (key : m.key = (entry.scope, entry.subject))
    (there : p ∈ s.members) (stopped : p.stoppedAtMs.isSome = true) (scope : p.scope = m.scope) :
    p.member ≠ m.member ∧ ∀ id ∈ m.ancestorWorkflows, p.member ≠ .workflow id := by
  induction edits generalizing m with
  | refl => exact absurd mem new
  | @tail u v before edit ih =>
    have good' := Edits.good good before
    have next := edit.later good'
    have apart := (edit.good good').memberKeys
    by_cases old : entry ∈ u.decisions
    · obtain ⟨m₀, known₀, key₀, _⟩ := good'.subjects entry old
      obtain ⟨m', known', key', _, above, _⟩ := next.members m₀ known₀
      have same : m' = m := eq_of_key apart known' known (key'.trans (key₀.trans key.symm))
      have keys : m₀.key = m.key := key₀.trans key.symm
      have earlier := ih old known₀ key₀ (scope.trans (congrArg Prod.fst keys).symm)
      rw [← same, above]
      have member : m'.member = m₀.member := congrArg Prod.snd key'
      rw [member]
      exact earlier
    · obtain ⟨members, _, _, decides⟩ := edit.decided good' mem old
      obtain ⟨m₀, known₀, key₀, _, free, _⟩ := decides.subject
      have known' : m ∈ u.members := members ▸ known
      have same : m₀ = m := eq_of_key good'.memberKeys known₀ known' (key₀.trans key.symm)
      subst same
      obtain ⟨p', there', key', _, _, own⟩ := (Edits.later good before).members p there
      have stopped' : p'.stoppedAtMs.isSome = true := (own stopped).symm ▸ stopped
      have scope' : p'.scope = m₀.scope := (congrArg Prod.fst key').trans scope
      have member' : p'.member = p.member := congrArg Prod.snd key'
      refine ⟨fun self => ?_, fun id above self => ?_⟩
      · have itself : p' = m₀ :=
          eq_of_key good'.memberKeys there' known' (Prod.ext scope' (member'.trans self))
        exact free granted (.inl (itself ▸ stopped'))
      · exact free granted (.inr ⟨id, above, p', there', Prod.ext scope' (member'.trans self), stopped'⟩)

/- Asking again. -/

theorem Good.account (good : s.Good) {m : RunBudgetMember} (mem : m ∈ s.members) :
    ∃ account, s.locked m.scope m.member = .ok account ∧ account.Current s m := by
  have known : find RunBudgetMember.key (m.scope, m.member) s.members = some m :=
    find_of_mem good.memberKeys mem
  obtain ⟨budget, kept⟩ := find_of_key_mem (good.rooted m mem)
  have policy := (good.policies budget (find_mem kept)).1
  have locked : s.locked m.scope m.member =
      .ok (m.account budget (decide (s.StoppedAbove m))) := by
    simp only [BudgetStore.locked, lock, known, kept, policy, okOr, ok_bind]
    rfl
  obtain ⟨m', key, current⟩ := Account.locked_spec locked
  have same : m' = m := eq_of_key good.memberKeys current.member mem key
  exact ⟨_, locked, same ▸ current⟩

/-- What an operator is shown of a budget always passes its own checks. -/
theorem Good.inspected (good : s.Good) {m : RunBudgetMember} (mem : m ∈ s.members)
    (scope : m.scope.validate = .ok ()) (subject : m.member.validate = .ok ()) {observedAt : Nat}
    (time : observedAt ≤ maxTimestamp) : ∃ budget ∈ s.budgets, budget.key = m.tree ∧
      s.inspect m.scope m.member observedAt = .ok ⟨m.scope, m.member, m.root, budget.policy,
        budget.calls, budget.delegations, observedAt⟩ := by
  have known : find RunBudgetMember.key (m.scope, m.member) s.members = some m :=
    find_of_mem good.memberKeys mem
  obtain ⟨budget, kept⟩ := find_of_key_mem (good.rooted m mem)
  have key : budget.key = m.tree := find_key kept
  obtain ⟨policy, root⟩ := good.policies budget (find_mem kept)
  have exact := good.exact budget (find_mem kept)
  have sameRoot : budget.root = m.root := congrArg Prod.snd key
  have within : ¬ (budget.policy.maxCalls.any (· < budget.calls) ∨
      budget.policy.maxDelegations.any (· < budget.delegations)) := by
    simp only [not_or, Bool.not_eq_true, Option.any_eq_false, decide_eq_false_iff_not, not_lt]
    exact ⟨exact.within .call, exact.within .delegation⟩
  have rooted : validateRoot m.member m.root = .ok () := by
    cases good.standalone m mem with
    | inl self =>
      cases root' : m.root with
      | task id => simp [validateRoot, self, root', refuse]
      | workflow id => rfl
    | inr top =>
      obtain ⟨id, top⟩ := top
      rw [top]
      rfl
  let shown : RunBudgetSnapshot :=
    ⟨m.scope, m.member, m.root, budget.policy, budget.calls, budget.delegations, observedAt⟩
  have valid : shown.validate = .ok () := by
    simp only [shown, RunBudgetSnapshot.validate, approvalTime, bind_eq_ok, exists_unit, refuse_eq_ok, not_lt]
    exact ⟨scope, subject, sameRoot ▸ root, policy, time, within, rooted⟩
  refine ⟨budget, find_mem kept, key, ?_⟩
  simp only [inspect, scope, subject, ok_bind, known, kept, okOr]
  exact bind_eq_ok.mpr ⟨(), valid, rfl⟩

theorem Recorded.denies (good : s.Good) {account : Account} {m : RunBudgetMember} {key : String}
    {first : RunBudgetDenial} {digest : Option String} (current : account.Current s m)
    (recorded : s.Recorded m.tree m.member .call key first digest) (now : Nat) :
    account.denial .call 1 now ≠ none := by
  obtain ⟨row, mem, source, subject, why, _⟩ := recorded.row
  have decided : row.entry.decision ∈ s.decisions := List.mem_map_of_mem mem
  have tree : row.entry.tree = m.tree := congrArg Prod.fst source
  have called : row.entry.action = .call := congrArg (fun source => source.2.1) source
  intro allowed
  have free := Account.denial_eq_none.mp allowed
  cases first with
  | cancelled =>
    obtain ⟨m', known, key', _, stopped⟩ := good.subjects _ decided
    have scope : row.entry.scope = m.scope := congrArg Prod.fst tree
    have named : m'.key = m.key := key'.trans (Prod.ext scope subject)
    have same := eq_of_key good.memberKeys known current.member named
    have above := same ▸ stopped why
    have running := free.running
    rw [current.stopped] at running
    exact of_decide_eq_false running above
  | callsExhausted =>
    obtain ⟨maximum, limit, spent⟩ :=
      good.exhausted _ decided why _ current.row (current.key.trans tree.symm)
    have within := free.within maximum limit
    have used : account.used .call = account.row.calls := rfl
    omega
  | delegationsExhausted => exact (good.consistent _ decided).call called why
  | deadlineExceeded =>
    have exact := good.exact _ current.row
    have place : row.entry.decision ∈ s.ledger account.row.key :=
      List.mem_filter.mpr ⟨decided, decide_eq_true (tree.trans current.key.symm)⟩
    have reached := exact.reached _ place why
    have free := free.open'
    have same : account.row.deadlineReached = account.deadlineReached := rfl
    rw [← same, reached] at free
    cases free

theorem boundCall_again (good : s.Good) {sha256 : List Char → String} {scope : Scope}
    {member : RunBudgetSubject} {key : String} {first : RunBudgetDenial} {command : Json}
    {m : RunBudgetMember} (mem : m ∈ s.members) (named : m.key = (scope, member))
    (recorded : s.Recorded m.tree member .call key first (some (sha256 (canonicalJsonBytes command))))
    (sourceId : String) (approval : EffectOccurrence) (now now' : Nat) :
    s.boundCall sha256 scope member sourceId key command approval now now' = .ok (s, .denied first) := by
  obtain ⟨rfl, rfl⟩ := Prod.mk.inj named
  obtain ⟨account, locked, current⟩ := good.account mem
  obtain ⟨reason, denied⟩ :=
    Option.ne_none_iff_exists'.mp (Recorded.denies good current recorded now)
  obtain ⟨row, there, source, subject, why, bound⟩ := recorded.row
  have found : find RunBudgetEntryRow.source ((account.scope, account.root), .call, key) s.entries =
      some row := by
    rw [current.tree, ← source]
    exact find_of_mem good.sources there
  have digest := bound _ rfl
  have called : s.call m.scope m.member sourceId (some approval) now = .ok (s, .denied reason) := by
    simp only [call, locked, ok_bind, denied]
    rfl
  have refused : s.boundCallRefusal sha256 m.scope m.member key reason command approval now' =
      .ok (s, .denied first) := by
    simp only [boundCallRefusal, locked, ok_bind, found, digest, subject, why]
    simp [refuse, okOr, pure, Except.pure]
  rw [boundCall, called]
  exact refused

theorem recordDenial_again (good : s.Good) {scope : Scope} {member : RunBudgetSubject}
    {action : RunBudgetAction} {key : String} {first : RunBudgetDenial} {m : RunBudgetMember}
    (mem : m ∈ s.members) (named : m.key = (scope, member))
    (recorded : s.Recorded m.tree member action key first none) (reason : RunBudgetDenial)
    (approval : Option EffectOccurrence) (now : Nat) :
    s.recordDenial scope member action key reason approval now =
      if reason = first then .ok s else .error .conflict := by
  obtain ⟨rfl, rfl⟩ := Prod.mk.inj named
  obtain ⟨account, locked, current⟩ := good.account mem
  obtain ⟨row, there, source, subject, why, _⟩ := recorded.row
  have found : find RunBudgetEntryRow.source ((account.scope, account.root), action, key) s.entries =
      some row := by
    rw [current.tree, ← source]
    exact find_of_mem good.sources there
  simp only [recordDenial, locked, ok_bind, Account.append, found, subject, why]
  by_cases same : reason = first
  · simp [refuse, same, pure, Except.pure]
  · simp [refuse, same, Ne.symm same]

theorem call_stopped {scope : Scope} {member : RunBudgetSubject} {sourceId : String}
    {approval : Option EffectOccurrence} {now : Nat} {answer : BudgetAnswer}
    (stopped : ∀ m ∈ s.members, m.key = (scope, member) → s.StoppedAbove m)
    (called : s.call scope member sourceId approval now = .ok (t, answer)) :
    answer = .denied .cancelled := by
  simp only [call, bind_eq_ok] at called
  obtain ⟨account, locked, called⟩ := called
  obtain ⟨m, key, current⟩ := Account.locked_spec locked
  have halted : account.stopped = true := by
    rw [current.stopped]
    exact decide_eq_true (stopped m current.member key)
  rw [Account.denial_of_stopped halted] at called
  exact (Prod.mk.inj (pure_eq_ok.mp called)).2.symm

theorem delegate_stopped {scope : Scope} {parent : String} {children : List RunBudgetSubject}
    {now : Nat} {answer : BudgetAnswer}
    (stopped : ∀ m ∈ s.members, m.key = (scope, .workflow parent) → s.StoppedAbove m)
    (delegated : s.delegate scope parent children now = .ok (t, answer)) :
    answer = .denied .cancelled := by
  simp only [delegate, bind_eq_ok, refuse_eq_ok, exists_unit] at delegated
  obtain ⟨account, locked, _, delegated⟩ := delegated
  obtain ⟨m, key, current⟩ := Account.locked_spec locked
  have halted : account.stopped = true := by
    rw [current.stopped]
    exact decide_eq_true (stopped m current.member key)
  rw [Account.denial_of_stopped halted] at delegated
  exact (Prod.mk.inj (pure_eq_ok.mp delegated)).2.symm

end BudgetStore

namespace BudgetWorld

open BudgetStore

variable {sha256 : List Char → String} {w : BudgetWorld}

structure Repeats (sha256 : List Char → String) (w : BudgetWorld) : Prop where
  call : ∀ scope member key reason command approval now t answer,
    let refusal := BudgetCommand.boundCallRefusal scope member key reason command approval now
    w.Licensed refusal → execute sha256 w.store refusal = .ok (t, answer) →
    ∃ first, answer = .denied first ∧ ∀ after sourceId now₁ now₂,
      let s := ((w.step sha256 refusal).run sha256 after).store
      s.boundCall sha256 scope member sourceId key command approval now₁ now₂ = .ok (s, .denied first)
  fork : ∀ scope workflowId forkKey request reason now t answer,
    let refusal := BudgetCommand.refuseFork scope workflowId forkKey request reason now
    w.Licensed refusal → execute sha256 w.store refusal = .ok (t, answer) →
    answer = .denied reason ∧ ∀ after,
      let s := ((w.step sha256 refusal).run sha256 after).store
      s.replayFork sha256 workflowId forkKey request = .ok (.denied reason)
  denial : ∀ scope member action key reason approval now t answer,
    let refusal := BudgetCommand.recordDenial scope member action key reason approval now
    w.Licensed refusal → execute sha256 w.store refusal = .ok (t, answer) →
    ∀ after reason' approval' now',
      let s := ((w.step sha256 refusal).run sha256 after).store
      s.recordDenial scope member action key reason' approval' now' =
        if reason' = reason then .ok s else .error .conflict

structure Stops (sha256 : List Char → String) (w : BudgetWorld) : Prop where
  made : ∀ scope member now t, execute sha256 w.store (.stop scope member now) = .ok (t, .done) →
    ∀ after, ((w.step sha256 (.stop scope member now)).run sha256 after).Stopped scope member
  later : ∀ scope top, w.Stopped scope top → ∀ after,
    let w' := w.run sha256 after
    ∀ entry ∈ w'.store.decisions, entry.scope = scope → w'.Subtree scope top entry.subject →
      entry.outcome = .authorized → entry ∈ w.store.decisions
  call : ∀ scope top member, w.Stopped scope top → w.Subtree scope top member →
    ∀ sourceId approval now t answer,
      w.store.call scope member sourceId approval now = .ok (t, answer) → answer = .denied .cancelled
  delegate : ∀ scope top parent, w.Stopped scope top → w.Subtree scope top (.workflow parent) →
    ∀ children now t answer,
      w.store.delegate scope parent children now = .ok (t, answer) → answer = .denied .cancelled
  only : ∀ command scope member action t, command.asks = some (scope, member, action) →
    execute sha256 w.store command = .ok (t, .denied .cancelled) →
    ∃ top, w.Stopped scope top ∧ w.Subtree scope top member
  recorded : ∀ entry ∈ w.store.decisions, entry.reason = some .cancelled →
    ∃ top, w.Stopped entry.scope top ∧ w.Subtree entry.scope top entry.subject

theorem step_ok {t : BudgetStore} {command : BudgetCommand} {answer : BudgetAnswer}
    (licensed : w.Licensed command) (executed : execute sha256 w.store command = .ok (t, answer)) :
    (w.step sha256 command).store = t := by
  rw [step, if_pos licensed, executed]

theorem Sound.recorded_run (sound : w.Sound) {scope : Scope} {member : RunBudgetSubject}
    {action : RunBudgetAction} {key : String} {first : RunBudgetDenial} {digest : Option String}
    (recorded : ∃ m ∈ w.store.members, m.key = (scope, member) ∧
      w.store.Recorded m.tree member action key first digest) (after : List BudgetCommand) :
    ∃ m ∈ (w.run sha256 after).store.members, m.key = (scope, member) ∧
      (w.run sha256 after).store.Recorded m.tree member action key first digest := by
  have later := Edits.later sound.good (run_sound sha256 sound after).2
  obtain ⟨m, mem, named, there⟩ := recorded
  obtain ⟨m', mem', key', tree', _⟩ := later.members m mem
  exact ⟨m', mem', key'.trans named, tree' ▸ there.later later⟩

theorem Sound.repeats (sound : w.Sound) : w.Repeats sha256 where
  call scope member key reason command approval now t answer := by
    intro refusal licensed executed
    have given := sound.given _ _ _ _ (licensed _ rfl)
    obtain ⟨first, rfl, denial⟩ := boundCallRefusal_spec sound.good given executed
    refine ⟨first, rfl, fun after sourceId now₁ now₂ => ?_⟩
    have next := (step_sound sha256 sound refusal).1
    have store := step_ok licensed executed
    obtain ⟨m, mem, named, there⟩ := next.recorded_run (store ▸ denial.recorded) after
    exact boundCall_again (run_sound sha256 next after).1.good mem named there sourceId approval now₁ now₂
  fork scope workflowId forkKey request reason now t answer := by
    intro refusal licensed executed
    have given := sound.given _ _ _ _ (licensed _ rfl)
    obtain ⟨rfl, _, _, _, kept⟩ := refuseFork_spec sound.good given executed
    refine ⟨rfl, fun after => ?_⟩
    have next := (step_sound sha256 sound refusal).1
    have store := step_ok licensed executed
    obtain ⟨last, edits⟩ := run_sound sha256 next after
    have there := (Edits.later next.good edits).refusals.subset (store ▸ kept)
    have found := find_of_mem last.good.refusalKeys there
    have kept' : find RunBudgetForkRefusal.key (workflowId, forkKey)
        ((w.step sha256 refusal).run sha256 after).store.refusals =
          some ⟨workflowId, forkKey, sha256 request, reason⟩ := found
    simp only [replayFork, kept']
    simp [refuse, okOr, pure, Except.pure]
  denial scope member action key reason approval now t answer := by
    intro refusal licensed executed after reason' approval' now'
    have given := sound.given _ _ _ _ (licensed _ rfl)
    have store := step_ok licensed executed
    simp only [refusal, execute, map_eq_ok, Prod.mk.injEq] at executed
    obtain ⟨_, recorded, rfl, rfl⟩ := executed
    have denial := recordDenial_spec sound.good given recorded
    have next := (step_sound sha256 sound refusal).1
    obtain ⟨m, mem, named, there⟩ := next.recorded_run (store ▸ denial.recorded) after
    exact recordDenial_again (run_sound sha256 next after).1.good mem named there reason' approval' now'

theorem Sound.given_cancelled (sound : w.Sound) {scope : Scope} {member : RunBudgetSubject}
    (given : w.store.Given scope member .cancelled) :
    ∃ top, w.Stopped scope top ∧ w.Subtree scope top member := by
  obtain ⟨m, mem, key, stopped, _⟩ := given
  exact (sound.stoppedAbove mem key).mp (stopped rfl)

theorem Sound.stop_kept (sound : w.Sound) {scope : Scope} {member : RunBudgetSubject} {now : Nat}
    {t : BudgetStore} {answer : BudgetAnswer}
    (executed : execute sha256 w.store (.stop scope member now) = .ok (t, answer))
    (after : List BudgetCommand) :
    ((w.step sha256 (.stop scope member now)).run sha256 after).Stopped scope member := by
  have licensed : w.Licensed (.stop scope member now) := by simp [Licensed, BudgetCommand.reports]
  have store := step_ok licensed executed
  simp only [execute, map_eq_ok, Prod.mk.injEq] at executed
  obtain ⟨_, stopped, rfl, rfl⟩ := executed
  obtain ⟨-, -, m, mem, key, halted⟩ := stop_spec sound.good stopped
  have next := (step_sound sha256 sound (.stop scope member now)).1
  have later := Edits.later next.good (run_sound sha256 next after).2
  obtain ⟨m', mem', key', -, -, kept⟩ := later.members m (store ▸ mem)
  exact ⟨m', mem', key'.trans key, by rw [kept halted, halted]⟩

theorem Sound.stops (sound : w.Sound) : w.Stops sha256 where
  made scope member now t executed after := sound.stop_kept executed after
  later scope top stopped after := by
    intro w' entry mem same below granted
    obtain ⟨last, edits⟩ := run_sound sha256 sound after
    by_contra added
    obtain ⟨m, known, key, _⟩ := last.good.subjects entry mem
    obtain ⟨p, there, pkey, halted⟩ := stopped
    have above : p.scope = scope := congrArg Prod.fst pkey
    have here : m.scope = entry.scope := congrArg Prod.fst key
    have scope' : p.scope = m.scope := above.trans (same.symm.trans here.symm)
    obtain ⟨apart, above⟩ :=
      edits.granted sound.good mem added granted known key there halted scope'
    have member : p.member = top := congrArg Prod.snd pkey
    have subject : m.member = entry.subject := congrArg Prod.snd key
    rw [member] at apart above
    rw [subject] at apart
    cases (last.subtree known (same ▸ key)).mp below with
    | inl self => exact apart self.symm
    | inr ancestor =>
      obtain ⟨id, mem', named⟩ := ancestor
      exact above id mem' named
  call scope top member stopped below sourceId approval now t answer called := by
    refine call_stopped (fun m mem key => ?_) called
    exact (sound.stoppedAbove mem key).mpr ⟨top, stopped, below⟩
  delegate scope top parent stopped below children now t answer delegated := by
    refine delegate_stopped (fun m mem key => ?_) delegated
    exact (sound.stoppedAbove mem key).mpr ⟨top, stopped, below⟩
  only command scope member action t asks executed := by
    cases command with
    | delegate scope' parent children now =>
      obtain ⟨rfl, rfl, rfl⟩ : scope' = scope ∧ .workflow parent = member ∧ _ = action := by
        simpa [BudgetCommand.asks] using asks
      obtain ⟨_, _, answered⟩ := delegate_spec executed
      cases answered with
      | denied _ _ given => exact sound.given_cancelled given
    | call scope' member' sourceId approval now =>
      obtain ⟨rfl, rfl, rfl⟩ : scope' = scope ∧ member' = member ∧ _ = action := by
        simpa [BudgetCommand.asks] using asks
      obtain ⟨_, _, answered⟩ := call_spec executed
      cases answered with
      | denied _ _ given => exact sound.given_cancelled given
    | late scope' member' action' now =>
      simp [execute, BudgetStore.late] at executed
    | create | inherit | recordDenial | boundCallRefusal | replayFork | refuseFork | stop | usage =>
      cases asks
  recorded entry mem cancelled := by
    obtain ⟨m, known, key, _, stopped⟩ := sound.good.subjects entry mem
    exact (sound.stoppedAbove known key).mp (stopped cancelled)

/-- In every run of budget transactions the counters of each tree are what its ledger says and within
their limits, the ledger is numbered without gap, and nothing is granted after the deadline; nothing
of this is taken back; a denial spends nothing; children are granted together; a refusal is repeated
as it was first given; and a stop that was accepted stops its subtree for good and nothing else. -/
theorem run_budget_exact (sha256 : List Char → String) (before : List BudgetCommand) :
    let w := init.run sha256 before
    (∀ budget ∈ w.store.budgets, budget.Exact (w.store.ledger budget.key)) ∧
      (∀ after, Later w.store (w.run sha256 after).store) ∧
      (∀ command t reason, w.Licensed command →
        execute sha256 w.store command = .ok (t, .denied reason) → SameUse w.store t) ∧
      (∀ scope parent children now t answer,
        w.store.delegate scope parent children now = .ok (t, answer) →
        Answered w.store t scope (.workflow parent) .delegation (children.map RunBudgetSubject.id) now
          answer) ∧
      (∀ scope member sourceId approval now t answer,
        w.store.call scope member sourceId approval now = .ok (t, answer) →
        Answered w.store t scope member .call [sourceId] now answer) ∧
      w.Repeats sha256 ∧ w.Stops sha256 := by
  intro w
  have sound : w.Sound := (run_sound sha256 Sound.init before).1
  refine ⟨sound.good.exact, fun after => ?_, ?_, ?_, ?_, sound.repeats, sound.stops⟩
  · exact Edits.later sound.good (run_sound sha256 sound after).2
  · intro command t reason licensed executed
    exact (execute_effect sound licensed executed).use reason rfl
  · intro scope parent children now t answer delegated
    exact (delegate_spec delegated).2.2
  · intro scope member sourceId approval now t answer called
    exact (call_spec called).2.2

/-- Every member of a tree can be inspected after any run. What is shown is what the ledger of its
tree grants, within the limits, and a later look shows the same policy and never less use of it. -/
theorem inspections_exact (sha256 : List Char → String) (before after : List BudgetCommand)
    {m : RunBudgetMember} (mem : m ∈ (init.run sha256 before).store.members)
    (scope : m.scope.validate = .ok ()) (subject : m.member.validate = .ok ()) (now later : Nat)
    (time : now ≤ maxTimestamp) (time' : later ≤ maxTimestamp) :
    let w := init.run sha256 before
    let next := w.run sha256 after
    ∃ a b, w.store.inspect m.scope m.member now = .ok a ∧
      next.store.inspect m.scope m.member later = .ok b ∧
      a.Shows (w.store.ledger m.tree) ∧ b.Shows (next.store.ledger m.tree) ∧
      b.root = a.root ∧ b.policy = a.policy ∧ a.calls ≤ b.calls ∧ a.delegations ≤ b.delegations := by
  intro w next
  have sound : w.Sound := (run_sound sha256 Sound.init before).1
  obtain ⟨sound', edits⟩ := run_sound sha256 sound after
  have grown := Edits.later sound.good edits
  obtain ⟨m', mem', key, tree, -⟩ := grown.members m mem
  obtain ⟨sameScope, sameMember⟩ := Prod.mk.inj key
  have sameRoot : m'.root = m.root := congrArg Prod.snd tree
  obtain ⟨budget, kept, mine, shown⟩ := sound.good.inspected mem scope subject time
  obtain ⟨budget', kept', mine', shown'⟩ := sound'.good.inspected mem' (sameScope ▸ scope)
    (sameMember ▸ subject) time'
  obtain ⟨other, known, sameTree, policy, used, -⟩ := grown.budgets budget kept
  obtain rfl : other = budget' :=
    eq_of_key sound'.good.budgetKeys known kept' (by rw [sameTree, mine, mine', tree])
  rw [sameScope, sameMember, sameRoot] at shown'
  refine ⟨_, _, shown, shown', ?_, ?_, rfl, policy, used .call, used .delegation⟩
  · have exact := sound.good.exact budget kept
    rw [mine] at exact
    exact ⟨exact.used .call, exact.used .delegation, exact.within .call, exact.within .delegation⟩
  · have exact := sound'.good.exact other kept'
    rw [mine', tree] at exact
    exact ⟨exact.used .call, exact.used .delegation, exact.within .call, exact.within .delegation⟩

/-- The use of a budget, before and after a call is granted. -/
theorem inspections_exact_sample :
    ∃ a b : RunBudgetSnapshot, a.calls ≤ b.calls ∧ (init.run (fun _ => "") [.create
      ⟨"acme", "billing"⟩ (.workflow "run") ⟨some 1, none, none⟩]).store.inspect
        ⟨"acme", "billing"⟩ (.workflow "run") 5 = .ok a := by
  obtain ⟨a, b, shown, -, -, -, -, -, calls, -⟩ := inspections_exact (fun _ => "")
    [.create ⟨"acme", "billing"⟩ (.workflow "run") ⟨some 1, none, none⟩]
    [.call ⟨"acme", "billing"⟩ (.workflow "run") "call-1" none 7]
    (m := ⟨⟨"acme", "billing"⟩, .workflow "run", .workflow "run", [], none⟩) (by decide +kernel)
    (by decide +kernel) (by decide +kernel) 5 9 (by decide) (by decide)
  exact ⟨a, b, calls, shown⟩

end BudgetWorld
end Ledgence
