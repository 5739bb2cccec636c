import Ledgence.Workflows.Steps
import Ledgence.Workflows.Pins

/-! What stays of a family in every run: forks and their refusals, the attempts that asked for them, and
the keys of children. -/
open Kit Kit.Checked

namespace Ledgence
namespace Family

variable {s t u : Family} {sha256 : List Char → String} {news : List WorkflowChild}

theorem Continues.refl (activation : WorkflowActivation) : Continues activation activation where
  revision := rfl
  ended := fun _ => ⟨rfl, rfl⟩
  attempts := fun _ attempt found => ⟨attempt, found, rfl⟩

theorem Continues.trans {a a' a'' : WorkflowActivation} (first : Continues a a')
    (second : Continues a' a'') : Continues a a'' where
  revision := second.revision.trans first.revision
  ended := by
    intro ended
    obtain ⟨outcome, task⟩ := first.ended ended
    obtain ⟨outcome', task'⟩ := second.ended (outcome ▸ ended)
    exact ⟨outcome'.trans outcome, task'.trans task⟩
  attempts := by
    intro key attempt found
    obtain ⟨attempt', found', owner⟩ := first.attempts key attempt found
    obtain ⟨attempt'', found'', owner'⟩ := second.attempts key attempt' found'
    exact ⟨attempt'', found'', owner'.trans owner⟩

def refusal (s : Family) (key : String) : Option RunBudgetForkRefusal :=
  Table.find RunBudgetForkRefusal.key (s.workflow.workflowId, key) s.budgets.refusals

def refusedAttempt (s : Family) (key : String) : Option (String × String) :=
  Table.find Prod.fst key s.refusedAttempts

/-- What `s` knew is known later on, until retention takes the workflow away. -/
structure Retains (s t : Family) : Prop where
  workflowId : t.workflow.workflowId = s.workflow.workflowId
  scope : t.workflow.scope = s.workflow.scope
  origin : t.origin = s.origin
  retiring : s.retiring = true → t.retiring = true
  forks : t.retiring = false → ∀ key fork, s.fork key = some fork → t.fork key = some fork
  refusals : ∀ key refusal, s.refusal key = some refusal → t.refusal key = some refusal
  refusedAttempts : ∀ key attempt, s.refusedAttempt key = some attempt →
    t.refusedAttempt key = some attempt
  activations : t.retiring = false → ∀ id activation, s.activation id = some activation →
    ∃ activation', t.activation id = some activation' ∧ Continues activation activation'
  children : ∀ child ∈ s.children,
    child.identity ∈ t.children.map WorkflowChild.identity ∨
      t.workflow.state.isTerminal = true ∧ ∀ other ∈ t.children, other.key ≠ child.key
  frozen : s.workflow.state.isTerminal = true → t.workflow.state.isTerminal = true ∧
    (t.children.map WorkflowChild.identity) ⊆ s.children.map WorkflowChild.identity

theorem key_of_identity {child other : WorkflowChild} (same : child.identity = other.identity) :
    child.key = other.key := by
  have keys : child.identity.key = other.identity.key := by rw [same]
  exact keys

theorem Retains.refl (s : Family) : Retains s s where
  workflowId := rfl
  scope := rfl
  origin := rfl
  retiring := fun retiring => retiring
  forks := fun _ _ _ found => found
  refusals := fun _ _ found => found
  refusedAttempts := fun _ _ found => found
  activations := fun _ _ activation found => ⟨activation, found, .refl activation⟩
  children := fun _ mem => .inl (List.mem_map_of_mem mem)
  frozen := fun ended => ⟨ended, List.Subset.refl _⟩

theorem Retains.trans (first : Retains s t) (second : Retains t u) : Retains s u where
  workflowId := second.workflowId.trans first.workflowId
  scope := second.scope.trans first.scope
  origin := second.origin.trans first.origin
  retiring := fun retiring => second.retiring (first.retiring retiring)
  forks := by
    intro kept key fork found
    have before : t.retiring = false := by
      by_contra retiring
      rw [second.retiring (by simpa using retiring)] at kept
      cases kept
    exact second.forks kept key fork (first.forks before key fork found)
  refusals := fun key refusal found => second.refusals key refusal (first.refusals key refusal found)
  refusedAttempts := fun key attempt found =>
    second.refusedAttempts key attempt (first.refusedAttempts key attempt found)
  activations := by
    intro kept id activation found
    have before : t.retiring = false := by
      by_contra retiring
      rw [second.retiring (by simpa using retiring)] at kept
      cases kept
    obtain ⟨activation', found', continues⟩ := first.activations before id activation found
    obtain ⟨activation'', found'', continues'⟩ := second.activations kept id activation' found'
    exact ⟨activation'', found'', continues.trans continues'⟩
  children := by
    intro child mem
    cases first.children child mem with
    | inl here =>
      obtain ⟨child', mem', same⟩ := List.mem_map.mp here
      have key := key_of_identity same
      cases second.children child' mem' with
      | inl there => exact .inl (same ▸ there)
      | inr gone => exact .inr ⟨gone.1, fun other mem'' => key ▸ gone.2 other mem''⟩
    | inr gone =>
      obtain ⟨ended, fewer⟩ := second.frozen gone.1
      refine .inr ⟨ended, fun other mem' same => ?_⟩
      obtain ⟨before, mem'', identity⟩ := List.mem_map.mp (fewer (List.mem_map_of_mem mem'))
      exact gone.2 before mem'' ((key_of_identity identity).trans same)
  frozen := by
    intro ended
    obtain ⟨ended', fewer⟩ := first.frozen ended
    obtain ⟨ended'', fewer'⟩ := second.frozen ended'
    exact ⟨ended'', fun child mem => fewer (fewer' mem)⟩

/- Steps. -/

theorem Retains.same (workflow : t.workflow = s.workflow) (retiring : t.retiring = s.retiring)
    (origin : t.origin = s.origin) (activations : t.activations = s.activations)
    (children : t.children = s.children) (forks : t.forks = s.forks)
    (refusals : ∀ key refusal, s.refusal key = some refusal → t.refusal key = some refusal)
    (refusedAttempts : ∀ key attempt, s.refusedAttempt key = some attempt →
      t.refusedAttempt key = some attempt) : Retains s t where
  workflowId := by rw [workflow]
  scope := by rw [workflow]
  origin
  retiring := fun before => retiring ▸ before
  forks := by
    intro _ key fork found
    rw [Family.fork, forks]
    exact found
  refusals
  refusedAttempts
  activations := by
    intro _ id activation found
    refine ⟨activation, ?_, .refl activation⟩
    rw [Family.activation, activations]
    exact found
  children := by
    intro child mem
    rw [children]
    exact .inl (List.mem_map_of_mem mem)
  frozen := by
    intro ended
    rw [workflow, children]
    exact ⟨ended, List.Subset.refl _⟩

theorem Grown.retains (grown : Grown s t news)
    (alive : news = [] ∨ s.workflow.state.isTerminal = false) : Retains s t where
  workflowId := grown.workflowId
  scope := grown.scope
  origin := grown.origin
  retiring := fun before => grown.retiring ▸ before
  forks := by
    intro _ key fork found
    rw [Family.fork, grown.forks]
    exact found
  refusals := by
    intro key refusal found
    rw [Family.refusal, grown.refusals, grown.workflowId]
    exact found
  refusedAttempts := by
    intro key attempt found
    rw [refusedAttempt, grown.refusedAttempts]
    exact found
  activations := fun _ id activation found =>
    ⟨activation, grown.activations id activation found, .refl activation⟩
  children := by
    intro child mem
    rw [grown.children, List.map_append]
    exact .inl (List.mem_append_left _ (List.mem_map_of_mem mem))
  frozen := by
    intro ended
    cases alive with
    | inl nothing =>
      rw [grown.children, nothing, List.append_nil]
      exact ⟨grown.terminal ended, List.Subset.refl _⟩
    | inr going =>
      rw [going] at ended
      cases ended

theorem Retains.finishWork (retains : Retains s u) (item : WorkItem) (now : Nat) :
    Retains s (u.finishWork item now) :=
  retains.trans (.same rfl rfl rfl rfl rfl rfl (fun _ _ found => found) fun _ _ found => found)

theorem Retains.putWork (s : Family) (item : WorkItem) : Retains s (s.putWork item) :=
  .same rfl rfl rfl rfl rfl rfl (fun _ _ found => found) fun _ _ found => found

variable {call : ForkCall}

theorem ForkAccepted.retains (accepted : ForkAccepted s t call news) : Retains s t := by
  have same := accepted.same
  have workflow : t.workflow = s.workflow := by rw [same]
  have going : s.workflow.state.isTerminal = false := by
    rw [accepted.running]
    rfl
  refine
    { workflowId := by rw [workflow]
      scope := by rw [workflow]
      origin := by rw [same]
      retiring := fun before => by rw [same]; exact before
      forks := fun _ key fork found => ?_
      refusals := fun key refusal found => ?_
      refusedAttempts := fun key attempt found => by rw [same]; exact found
      activations := fun _ id activation found => ⟨activation, by rw [same]; exact found, .refl activation⟩
      children := fun child mem => ?_
      frozen := fun ended => by rw [going] at ended; cases ended }
  · rw [same]
    exact Table.find_append_found found
  · rw [Family.refusal, accepted.refusals, workflow]
    exact found
  · rw [same]
    exact .inl (List.mem_map_of_mem (List.mem_append_left _ mem))

theorem ForkRefused.retains {reason : RunBudgetDenial} (refused : ForkRefused sha256 s t call reason) :
    Retains s t := by
  have same := refused.same
  have workflow : t.workflow = s.workflow := by rw [same]
  refine .same workflow (by rw [same]) (by rw [same]) (by rw [same]) (by rw [same]) (by rw [same]) ?_ ?_
  · intro key refusal found
    rw [Family.refusal, refused.refusals, workflow]
    exact Table.find_append_found found
  · intro key attempt found
    rw [same]
    exact Table.find_append_found found

theorem ForkAnswered.retains {answer : Result WorkflowForkReceipt}
    (answered : ForkAnswered sha256 s call t answer) : Retains s t := by
  cases answered with
  | replayed => exact .refl s
  | refusedAgain => exact .refl s
  | accepted _ _ _ _ accepted => exact accepted.retains
  | refused _ _ _ _ refused => exact refused.retains

theorem Elsewhere.retains (other : Elsewhere s t) (keys : (s.children.map WorkflowChild.key).Nodup) :
    Retains s t where
  workflowId := other.workflowId
  scope := other.scope
  origin := other.origin
  retiring := other.retiring
  forks := by
    intro kept key fork found
    rw [Family.fork, other.forks kept]
    exact found
  refusals := by
    intro key refusal found
    rw [Family.refusal, other.workflowId, other.refusals]
    exact found
  refusedAttempts := by
    intro key attempt found
    rw [refusedAttempt, other.refusedAttempts]
    exact found
  activations := other.activations
  children := by
    intro child mem
    cases ended : t.workflow.state.isTerminal with
    | false =>
      rw [other.children ended]
      exact .inl (List.mem_map_of_mem mem)
    | true =>
      by_cases here : child.identity ∈ t.children.map WorkflowChild.identity
      · exact .inl here
      · refine .inr ⟨rfl, fun d mem' same => ?_⟩
        have inside := other.fewer.subset (List.mem_map_of_mem mem')
        obtain ⟨before, mem'', identity⟩ := List.mem_map.mp inside
        have one := List.inj_on_of_nodup_map keys mem'' mem ((key_of_identity identity).trans same)
        rw [one] at identity
        exact here (identity ▸ List.mem_map_of_mem mem')
  frozen := fun ended => ⟨other.terminal ended, other.fewer.subset⟩

theorem Step.retains (step : Step sha256 s t) (sound : s.Sound) : Retains s t := by
  cases step with
  | claim id token now _ work claimed =>
    obtain ⟨item, _, _, _, rfl, _⟩ := claimWork_spec claimed
    exact .putWork s _
  | retry work reason bindings lockedAt now _ retried =>
    obtain ⟨rfl, _⟩ | ⟨item, _, ⟨_, u, grown, rfl⟩ | ⟨resolution, _, rfl⟩⟩ := retryWork_cases retried
    · exact .refl t
    · exact (grown.retains (.inl rfl)).finishWork item now
    · exact .putWork s _
  | reject work error lockedAt now _ rejected =>
    obtain rfl | ⟨item, _, u, grown, rfl⟩ := rejectWork_cases rejected
    · exact .refl t
    · exact (grown.retains (.inl rfl)).finishWork item now
  | apply call _ applied =>
    obtain ⟨rfl, _⟩ | ⟨item, _, u, at', ⟨news, registers, running⟩, rfl⟩ := applyWork_cases applied
    · exact .refl t
    · refine (registers.toGrown.retains (running.imp_right fun state => ?_)).finishWork item at'
      rw [state]
      rfl
  | fork call _ answer forked => exact (forkOnce_answered forked).retains
  | elsewhere _ other => exact other.retains sound.keys

theorem Run.retains (run : Run sha256 s t) (invariant : s.Invariant) : Retains s t := by
  induction run with
  | refl => exact .refl s
  | tail first step ih =>
    have before := Run.invariant first invariant
    exact ih.trans (step.retains before.sound)

theorem Run.one_child (run : Run sha256 s t) (invariant : s.Invariant) {child other : WorkflowChild}
    (mem : child ∈ s.children) (mem' : other ∈ t.children) (same : other.key = child.key) :
    other.identity = child.identity := by
  have sound := (Run.invariant run invariant).sound
  cases (Run.retains run invariant).children child mem with
  | inr gone => exact absurd same (gone.2 other mem')
  | inl here =>
    obtain ⟨child', mem'', identity⟩ := List.mem_map.mp here
    have one := List.inj_on_of_nodup_map sound.keys mem' mem''
      (same.trans (key_of_identity identity).symm)
    rw [one, identity]

end Family
end Ledgence

/-! A fork is registered whole or not at all, and later calls under its key are told the same again. -/

namespace Ledgence
namespace Family

variable {s t u : Family} {sha256 : List Char → String} {call call' : ForkCall}
  {news : List WorkflowChild} {snapshot : WorkflowSnapshot}

/- Owners. -/

theorem retiring_of_status (readable : s.status = .ok snapshot) : s.retiring = false := by
  simp only [status, bind_eq_ok, refuse_eq_ok, exists_unit] at readable
  simpa using readable.1

/-- An owner that was known once is known as long as the workflow can be read. -/
theorem lockActivation_later {owner : LeaseOwner} {r : WorkflowActivation × AttemptAuthority}
    (locked : s.lockActivation owner = .ok r) (retains : Retains s t)
    (readable : t.status = .ok snapshot) : ∃ r', t.lockActivation owner = .ok r' := by
  simp only [lockActivation, bind_eq_ok, exists_unit, okOr_eq_ok, refuse_eq_ok, not_not] at locked
  obtain ⟨scope, task, attempt, activation, found, mine, _, _, row, known, same, _⟩ := locked
  obtain ⟨activation', found', continues⟩ :=
    retains.activations (retiring_of_status readable) _ _ found
  obtain ⟨row', known', owner'⟩ := continues.attempts _ _ known
  refine ⟨(activation', row'), ?_⟩
  rw [← retains.scope] at mine
  rw [← owner'] at same
  rw [mine] at scope
  simp [lockActivation, scope, task, attempt, found', okOr, refuse, mine, readable, known', same]

/- Replays. -/

theorem forkOnce_replayed {prior : WorkflowFork} (valid : call.command.validate = .ok ())
    {r : WorkflowActivation × AttemptAuthority}
    (locked : s.lockActivation call.command.owner = .ok r)
    (found : s.fork call.command.fork.key = some prior)
    (same : call.command.fork.bytes = prior.request.bytes)
    (mine : prior.attemptId = call.command.owner.attemptId) :
    s.forkOnce sha256 call = .ok (s, .ok (forkReceipt prior.request true)) := by
  simp [forkOnce, valid, locked, found, replayFork, refuse, same, mine]

theorem forkOnce_refusedAgain {previous : RunBudgetForkRefusal} {attempt : String × String}
    (valid : call.command.validate = .ok ()) {r : WorkflowActivation × AttemptAuthority}
    (locked : s.lockActivation call.command.owner = .ok r)
    (absent : s.fork call.command.fork.key = none) (budgeted : s.origin.hasRunBudget = true)
    (found : s.refusal call.command.fork.key = some previous)
    (same : sha256 call.command.fork.bytes = previous.requestDigest)
    (known : s.refusedAttempt call.command.fork.key = some attempt)
    (mine : attempt.2 = call.command.owner.attemptId) :
    s.forkOnce sha256 call = .ok (s, .error (.runBudgetDenied previous.denial)) := by
  rw [refusal] at found
  rw [refusedAttempt] at known
  simp [forkOnce, valid, locked, absent, found, budgeted, replayFork, refuse, same, known, mine]

theorem forkOnce_conflict {prior : WorkflowFork} (found : s.fork call.command.fork.key = some prior)
    (differs : call.command.fork.bytes ≠ prior.request.bytes)
    (valid : call.command.validate = .ok ()) {r : WorkflowActivation × AttemptAuthority}
    (locked : s.lockActivation call.command.owner = .ok r) :
    s.forkOnce sha256 call = .error .conflict := by
  have other : prior.request.bytes ≠ call.command.fork.bytes := fun same => differs same.symm
  simp [forkOnce, valid, locked, found, replayFork, refuse, other]

theorem forkOnce_refusedConflict {previous : RunBudgetForkRefusal}
    (absent : s.fork call.command.fork.key = none) (budgeted : s.origin.hasRunBudget = true)
    (found : s.refusal call.command.fork.key = some previous)
    (differs : sha256 call.command.fork.bytes ≠ previous.requestDigest)
    (valid : call.command.validate = .ok ()) {r : WorkflowActivation × AttemptAuthority}
    (locked : s.lockActivation call.command.owner = .ok r) :
    s.forkOnce sha256 call = .error .conflict := by
  have other : previous.requestDigest ≠ sha256 call.command.fork.bytes := fun same => differs same.symm
  rw [refusal] at found
  simp [forkOnce, valid, locked, absent, found, budgeted, replayFork, refuse, other]

/-- A call that is not refused for its form or its owner fails only as it says. -/
theorem not_committed {answer : Result WorkflowForkReceipt}
    (conflict : ∀ r, call.command.validate = .ok () → s.lockActivation call.command.owner = .ok r →
      s.forkOnce sha256 call = .error .conflict) : s.forkOnce sha256 call ≠ .ok (t, answer) := by
  intro committed
  have parts := committed
  simp only [forkOnce, bind_eq_ok, exists_unit] at parts
  obtain ⟨valid, r, locked, _⟩ := parts
  rw [conflict r valid locked] at committed
  cases committed

/-- After `answer`, calls under the same fork key are told the same again, or that they conflict. -/
structure Settles (sha256 : List Char → String) (t : Family) (call : ForkCall)
    (differ : List Char → List Char → Prop) (answer : Result WorkflowForkReceipt) : Prop where
  again : ∀ u snapshot, Run sha256 t u → u.status = .ok snapshot → ∀ call',
    call'.command.validate = .ok () → call'.command.owner = call.command.owner →
      call'.command.fork.key = call.command.fork.key →
        call'.command.fork.bytes = call.command.fork.bytes → u.forkOnce sha256 call' = .ok (u, answer)
  conflict : ∀ u snapshot, Run sha256 t u → u.status = .ok snapshot → ∀ call',
    call'.command.fork.key = call.command.fork.key →
      differ call'.command.fork.bytes call.command.fork.bytes →
        (∀ v told, u.forkOnce sha256 call' ≠ .ok (v, told)) ∧ ∀ r, call'.command.validate = .ok () →
          u.lockActivation call'.command.owner = .ok r → u.forkOnce sha256 call' = .error .conflict

theorem ForkAccepted.settles (accepted : ForkAccepted s t call news) (invariant : t.Invariant)
    {r : WorkflowActivation × AttemptAuthority}
    (locked : s.lockActivation call.command.owner = .ok r) :
    Settles sha256 t call (· ≠ ·) (.ok (forkReceipt call.command.fork true)) := by
  let row : WorkflowFork := ⟨call.command.fork, call.command.owner.taskId,
    call.command.owner.attemptId, call.times.accepted⟩
  have found : t.fork call.command.fork.key = some row := by
    have here : row ∈ t.forks := by
      rw [accepted.same]
      simp [row]
    exact Table.find_of_mem invariant.sound.forks here
  have later : ∀ u snapshot, Run sha256 t u → u.status = .ok snapshot →
      u.fork call.command.fork.key = some row := fun u snapshot run readable =>
    (Run.retains run invariant).forks (retiring_of_status readable) _ row found
  constructor
  · intro u snapshot run readable call' valid owner key bytes
    have retains := accepted.retains.trans (Run.retains run invariant)
    obtain ⟨r', locked'⟩ := lockActivation_later locked retains readable
    rw [← owner] at locked'
    refine forkOnce_replayed valid locked' (key ▸ later u snapshot run readable) bytes ?_
    rw [owner]
  · intro u snapshot run readable call' key differs
    have conflict : ∀ r, call'.command.validate = .ok () →
        u.lockActivation call'.command.owner = .ok r → u.forkOnce sha256 call' = .error .conflict :=
      fun r valid locked' =>
        forkOnce_conflict (key ▸ later u snapshot run readable) differs valid locked'
    exact ⟨fun v told => not_committed conflict, conflict⟩

theorem ForkRefused.settles {reason : RunBudgetDenial} (refused : ForkRefused sha256 s t call reason)
    (before : s.Invariant) (invariant : t.Invariant)
    (absent : Table.find RunBudgetForkRefusal.key (s.workflow.workflowId, call.command.fork.key)
      s.budgets.refusals = none) {r : WorkflowActivation × AttemptAuthority}
    (locked : s.lockActivation call.command.owner = .ok r) :
    Settles sha256 t call (fun bytes bytes' => sha256 bytes ≠ sha256 bytes')
      (.error (.runBudgetDenied reason)) := by
  let row : RunBudgetForkRefusal :=
    ⟨s.workflow.workflowId, call.command.fork.key, sha256 call.command.fork.bytes, reason⟩
  let mine := (call.command.fork.key, call.command.owner.attemptId)
  have same := refused.same
  have found : t.refusal call.command.fork.key = some row := by
    have workflow : t.workflow = s.workflow := by rw [same]
    rw [refusal, refused.refusals, workflow, Table.find, List.find?_append, ← Table.find, absent]
    simp [row, RunBudgetForkRefusal.key]
  have attempt : t.refusedAttempt call.command.fork.key = some mine := by
    have new : call.command.fork.key ∉ s.refusedAttempts.map Prod.fst := by
      rw [← before.sound.attempts, Refused, absent]
      simp
    have none' : Table.find Prod.fst call.command.fork.key s.refusedAttempts = none :=
      Table.find_eq_none.mpr fun a mem here => new (here ▸ List.mem_map_of_mem mem)
    rw [refusedAttempt, same, Table.find, List.find?_append, ← Table.find, none']
    simp [mine]
  have origin : t.origin.hasRunBudget = true := by
    rw [same]
    exact refused.budgeted
  have later : ∀ u, Run sha256 t u → u.origin.hasRunBudget = true ∧
      u.refusal call.command.fork.key = some row ∧ u.fork call.command.fork.key = none ∧
      u.refusedAttempt call.command.fork.key = some mine := by
    intro u run
    have retains := Run.retains run invariant
    have known := retains.refusals _ row found
    have apart := (Run.invariant run invariant).sound.apart call.command.fork.key
      (by rw [Refused, ← refusal, known]; rfl)
    exact ⟨by rw [retains.origin, origin], known, apart, retains.refusedAttempts _ mine attempt⟩
  constructor
  · intro u snapshot run readable call' valid owner key bytes
    obtain ⟨budgeted, known, apart, asked⟩ := later u run
    have retains := refused.retains.trans (Run.retains run invariant)
    obtain ⟨r', locked'⟩ := lockActivation_later locked retains readable
    rw [← owner] at locked'
    rw [← key] at known apart asked
    refine forkOnce_refusedAgain valid locked' apart budgeted known (by rw [bytes]) asked ?_
    rw [owner]
  · intro u snapshot run readable call' key differs
    obtain ⟨budgeted, known, apart, _⟩ := later u run
    rw [← key] at known apart
    have conflict : ∀ r, call'.command.validate = .ok () →
        u.lockActivation call'.command.owner = .ok r → u.forkOnce sha256 call' = .error .conflict :=
      fun r valid locked' => forkOnce_refusedConflict apart budgeted known differs valid locked'
    exact ⟨fun v told => not_committed conflict, conflict⟩

inductive AllOrNothing (sha256 : List Char → String) (s : Family) (call : ForkCall) :
    Family → Result WorkflowForkReceipt → Prop
  | accepted (t : Family) (news : List WorkflowChild) : ForkAccepted s t call news →
    Settles sha256 t call (· ≠ ·) (.ok (forkReceipt call.command.fork true)) →
    AllOrNothing sha256 s call t (.ok (forkReceipt call.command.fork false))
  | refused (t : Family) (reason : RunBudgetDenial) : ForkRefused sha256 s t call reason →
    Settles sha256 t call (fun bytes bytes' => sha256 bytes ≠ sha256 bytes')
      (.error (.runBudgetDenied reason)) →
    AllOrNothing sha256 s call t (.error (.runBudgetDenied reason))
  | replayed (prior : WorkflowFork) : prior ∈ s.forks → prior.key = call.command.fork.key →
    prior.request.bytes = call.command.fork.bytes →
    AllOrNothing sha256 s call s (.ok (forkReceipt prior.request true))
  | refusedAgain (previous : RunBudgetForkRefusal) :
    s.refusal call.command.fork.key = some previous →
    previous.requestDigest = sha256 call.command.fork.bytes →
    AllOrNothing sha256 s call s (.error (.runBudgetDenied previous.denial))

theorem ForkAnswered.allOrNothing {answer : Result WorkflowForkReceipt}
    (answered : ForkAnswered sha256 s call t answer) (invariant : s.Invariant)
    {r : WorkflowActivation × AttemptAuthority}
    (locked : s.lockActivation call.command.owner = .ok r) :
    AllOrNothing sha256 s call t answer := by
  have after : t.Invariant := ⟨answered.sound invariant.sound, answered.obliged invariant.obliged⟩
  cases answered with
  | replayed prior found same =>
    exact .replayed prior (Table.find_mem found) (Table.find_key found) same
  | refusedAgain previous _ found same => exact .refusedAgain previous found same
  | accepted _ news _ _ accepted => exact .accepted t news accepted (accepted.settles after locked)
  | refused _ reason _ absent refused =>
    exact .refused t reason refused (refused.settles invariant after absent locked)

/-- Forks and decisions in any order: each fork is registered whole or not at all and stays decided, no
activation registers more than 64 children, and no key is ever shared. -/
theorem forks_whole (sha256 : List Char → String) (reachable : Reachable sha256 s) :
    (∀ call t answer, s.forkOnce sha256 call = .ok (t, answer) →
      AllOrNothing sha256 s call t answer) ∧
    (∀ id, s.registeredChildren id ≤ 64) ∧ (s.children.map WorkflowChild.key).Nodup ∧
    ∀ t, Run sha256 s t → ∀ child ∈ s.children, ∀ other ∈ t.children, other.key = child.key →
      other.identity = child.identity := by
  have invariant := reachable.invariant
  refine ⟨?_, invariant.sound.bound, invariant.sound.keys, ?_⟩
  · intro call t answer forked
    have parts := forked
    simp only [forkOnce, bind_eq_ok, exists_unit] at parts
    obtain ⟨_, r, locked, _⟩ := parts
    exact (forkOnce_answered forked).allOrNothing invariant locked
  · intro t run child mem other mem' same
    exact Run.one_child run invariant mem mem' same

end Family

/- A controller that forks two branches. -/

def sampleForking : Family :=
  sampleFamily .running
    { sampleStarted with attempts := [⟨sampleOwner "1" 1, .active, false, 9000, 9000, 9000, true⟩] } []

def sampleBranch (key : String) : WorkflowBranch := ⟨key, "start", "python", nullValue, .default, 60000⟩

def sampleFork : Family.ForkCall where
  command := ⟨sampleOwner "1" 1, ⟨"fork-1", [sampleBranch "left", sampleBranch "right"]⟩, none⟩
  times := ⟨2000, 2000, 2000, 2000, 2000, 2000⟩
  ids := fun key => ⟨"workflow-" ++ key, "task-" ++ key, "run-" ++ key⟩

theorem sampleForking_reachable (sha256 : List Char → String) :
    Family.Reachable sha256 sampleForking :=
  ⟨_, ⟨rfl, rfl, rfl, rfl, fun _ => rfl, rfl⟩, .refl⟩

theorem sampleFork_accepted : ∃ t, sampleForking.forkOnce (fun _ => "") sampleFork =
    .ok (t, .ok (forkReceipt sampleFork.command.fork false)) := by
  have told : (sampleForking.forkOnce (fun _ => "") sampleFork).toOption.map Prod.snd =
      some (.ok (forkReceipt sampleFork.command.fork false)) := by decide +kernel
  obtain ⟨⟨t, answer⟩, committed, rfl⟩ := Option.map_eq_some_iff.mp told
  exact ⟨t, toOption_eq_some.mp committed⟩

/-- Both branches are there, and the fork is known from then on. -/
theorem sampleFork_whole : ∃ t, Family.AllOrNothing (fun _ => "") sampleForking sampleFork t
    (.ok (forkReceipt sampleFork.command.fork false)) := by
  obtain ⟨t, forked⟩ := sampleFork_accepted
  exact ⟨t, (Family.forks_whole _ (sampleForking_reachable _)).1 sampleFork t _ forked⟩

/-- A replay is told that the fork was accepted before, which the first receipt does not say. -/
theorem replay_receipt_differs : ¬ ∀ (sha256 : List Char → String) (s t u : Family)
    (call : Family.ForkCall) (receipt : WorkflowForkReceipt) (snapshot : WorkflowSnapshot),
      s.Reachable sha256 →
      s.forkOnce sha256 call = .ok (t, .ok receipt) → Family.Run sha256 t u →
        u.status = .ok snapshot → u.forkOnce sha256 call = .ok (u, .ok receipt) := by
  intro always
  obtain ⟨t, forked⟩ := sampleFork_accepted
  have reachable := sampleForking_reachable fun _ => ""
  have locked : (sampleForking.lockActivation sampleFork.command.owner).isOk = true := by decide +kernel
  obtain ⟨r, locked⟩ := exists_of_isOk locked
  have valid : sampleFork.command.validate = .ok () := by decide +kernel
  have readable : sampleForking.status = .ok sampleForking.workflow := by decide +kernel
  have whole := (Family.forkOnce_answered forked).allOrNothing reachable.invariant locked
  generalize told : Except.ok (forkReceipt sampleFork.command.fork false) = answer at whole
  cases whole with
  | accepted _ news accepted settles =>
    have still : t.status = .ok sampleForking.workflow := by
      rw [accepted.same]
      exact readable
    have again := settles.again t _ .refl still sampleFork valid rfl rfl rfl
    rw [always _ _ t t sampleFork _ _ reachable forked .refl still] at again
    cases again
  | refused => cases told
  | replayed prior mem => cases mem
  | refusedAgain => cases told

end Ledgence
