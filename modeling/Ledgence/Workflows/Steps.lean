import Ledgence.Workflows.Checkpoints
import Ledgence.Workflows.Forking
import Mathlib.Logic.Relation

/-! Runs of a family: what its coordinators, its controller and everyone else do to it, in any order. -/
open Kit Kit.Checked

namespace Ledgence

def WorkflowChild.identity (child : WorkflowChild) : WorkflowChild := { child with terminal := false }

structure WorkItem.Fresh (item : WorkItem) : Prop where
  named : item.id = "terminal:" ++ item.taskId
  unprocessed : item.processedAt = none
  unclaimed : item.lease = none
  untried : item.failures = 0
  nothing : item.resolution = none

namespace Family
variable {s t u : Family} {sha256 : List Char → String}

structure Current (s : Family) (item : WorkItem) : Prop where
  running : s.workflow.state = .running
  activationId : s.workflow.activationId = some item.taskId
  ended : ∃ activation, s.activation item.taskId = some activation ∧
    activation.outcome.isSome = true ∧ activation.taskState ≠ .active ∧
    activation.revision = s.workflow.revision

structure Continues (activation activation' : WorkflowActivation) : Prop where
  revision : activation'.revision = activation.revision
  ended : activation.outcome.isSome = true →
    activation'.outcome = activation.outcome ∧ activation'.taskState = activation.taskState
  attempts : ∀ key attempt,
    Table.find AttemptAuthority.attemptId key activation.attempts = some attempt →
      ∃ attempt', Table.find AttemptAuthority.attemptId key activation'.attempts = some attempt' ∧
        attempt'.owner = attempt.owner

/-- What all other transactions may do. The workflow may be cancelled or resumed from a wait, its tasks
and children move on, a controller ends with an outcome, and accounts are used. Once the workflow ended,
retention takes its rows away, each when nothing refers to it any more. -/
structure Elsewhere (s t : Family) : Prop where
  workflowId : t.workflow.workflowId = s.workflow.workflowId
  scope : t.workflow.scope = s.workflow.scope
  origin : t.origin = s.origin
  closed : ¬ s.Open → ¬ t.Open
  terminal : s.workflow.state.isTerminal = true → t.workflow.state.isTerminal = true
  running : s.workflow.state = .running → t.Open → t.workflow.state = .running ∧
    t.workflow.activationId = s.workflow.activationId ∧ t.workflow.revision = s.workflow.revision
  retiring : s.retiring = true → t.retiring = true
  retired : t.retiring = true → t.workflow.state.isTerminal = true
  fewer : (t.children.map WorkflowChild.identity).Sublist (s.children.map WorkflowChild.identity)
  children : t.workflow.state.isTerminal = false →
    t.children.map WorkflowChild.identity = s.children.map WorkflowChild.identity
  lessForks : t.forks.Sublist s.forks
  forks : t.retiring = false → t.forks = s.forks
  refusals : ∀ key, Table.find RunBudgetForkRefusal.key (s.workflow.workflowId, key)
    t.budgets.refusals = Table.find RunBudgetForkRefusal.key (s.workflow.workflowId, key)
      s.budgets.refusals
  refusedAttempts : t.refusedAttempts = s.refusedAttempts
  items : Table.Unique WorkItem.id t.work
  work : ∀ item ∈ s.work, item.processedAt = none ∨ t.retiring = false → item ∈ t.work
  newWork : ∀ item ∈ t.work, item ∈ s.work ∨ item.Fresh ∧ item.id ∉ s.work.map WorkItem.id ∧
    t.retiring = false ∧ (t.Open → t.Current item)
  outcomes : ∀ item ∈ t.work, ∀ outcome,
    (s.activation item.taskId).bind WorkflowActivation.outcome = some outcome →
      (t.activation item.taskId).bind WorkflowActivation.outcome = some outcome
  activations : t.retiring = false → ∀ id activation, s.activation id = some activation →
    ∃ activation', t.activation id = some activation' ∧ Continues activation activation'

inductive Step (sha256 : List Char → String) (s : Family) : Family → Prop
  | claim (id token : String) (now : Nat) (t : Family) (work : WorkflowWork) :
    s.claimWork id token now = .ok (t, work) → Step sha256 s t
  | retry (work : WorkflowWork) (reason : String) (bindings : List ResolvedWorkflowChild)
    (lockedAt now : Nat) (t : Family) :
    s.retryWork work reason bindings lockedAt now = .ok t → Step sha256 s t
  | reject (work : WorkflowWork) (error : ApplicationError) (lockedAt now : Nat) (t : Family) :
    s.rejectWork work error lockedAt now = .ok t → Step sha256 s t
  | apply (call : ApplyCall) (t : Family) : s.applyWork sha256 call = .ok t → Step sha256 s t
  | fork (call : ForkCall) (t : Family) (answer : Result WorkflowForkReceipt) :
    s.forkOnce sha256 call = .ok (t, answer) → Step sha256 s t
  | elsewhere (t : Family) : Elsewhere s t → Step sha256 s t

abbrev Run (sha256 : List Char → String) : Family → Family → Prop := Relation.ReflTransGen (Step sha256)

structure New (s : Family) : Prop where
  retiring : s.retiring = false
  children : s.children = []
  forks : s.forks = []
  work : s.work = []
  refusals : ∀ key, Table.find RunBudgetForkRefusal.key (s.workflow.workflowId, key)
    s.budgets.refusals = none
  refusedAttempts : s.refusedAttempts = []

def Reachable (sha256 : List Char → String) (s : Family) : Prop := ∃ new : Family, new.New ∧ Run sha256 new s

/- Invariants. -/

structure Pinned (s : Family) (item : WorkItem) : Prop where
  retried : ∀ bindings ∈ item.resolution, 0 < item.failures
  distinct : ∀ bindings ∈ item.resolution, (ResolvedWorkflowChild.keys bindings).Nodup
  answers : ∀ bindings ∈ item.resolution, ∃ decision, s.Decides item decision ∧
    ∀ b ∈ bindings, b.Answers decision.commands

def Branched (s : Family) (fork : WorkflowFork) (branch : WorkflowBranch) : Prop :=
  ∃ child ∈ s.children, child.kind = .workflow ∧ child.key = branch.key ∧
    child.forkKey = some fork.key ∧ child.activationId = fork.activationId ∧
    child.entrypoint = branch.entrypoint ∧ child.descriptor = s.origin.controller

def Refused (s : Family) (key : String) : Prop :=
  (Table.find RunBudgetForkRefusal.key (s.workflow.workflowId, key) s.budgets.refusals).isSome = true

structure Sound (s : Family) : Prop where
  items : Table.Unique WorkItem.id s.work
  pinned : ∀ item ∈ s.work, item.processedAt = none → s.Pinned item
  keys : (s.children.map WorkflowChild.key).Nodup
  bound : ∀ id, s.registeredChildren id ≤ workflowMaxCommands
  forks : Table.Unique WorkflowFork.key s.forks
  branches : s.workflow.state.isTerminal = false →
    ∀ fork ∈ s.forks, ∀ branch ∈ fork.request.branches, s.Branched fork branch
  budgeted : ∀ key, s.Refused key → s.origin.hasRunBudget = true
  apart : ∀ key, s.Refused key → s.fork key = none
  attempts : ∀ key, s.Refused key ↔ key ∈ s.refusedAttempts.map Prod.fst

structure Obliged (s : Family) : Prop where
  named : ∀ item ∈ s.work, item.id = "terminal:" ++ item.taskId
  retired : s.retiring = true → s.workflow.state.isTerminal = true
  current : ∀ item ∈ s.work, item.processedAt = none → s.Open → s.Current item

theorem New.obliged (new : s.New) : s.Obliged where
  named := by simp [new.work]
  retired := by simp [new.retiring]
  current := by simp [new.work]

theorem New.sound (new : s.New) : s.Sound where
  items := by simp [Table.Unique, new.work]
  pinned := by simp [new.work]
  keys := by simp [new.children]
  bound := by simp [registeredChildren, new.children]
  forks := by simp [Table.Unique, new.forks]
  branches := by simp [new.forks]
  budgeted := by simp [Refused, new.refusals]
  apart := by simp [Refused, new.refusals]
  attempts := by simp [Refused, new.refusals, new.refusedAttempts]

/- Work. -/

theorem Pinned.loadResolution {item : WorkItem} (pinned : s.Pinned item) :
    item.loadResolution = item.resolution := by
  unfold WorkItem.loadResolution
  split
  · next untried =>
    cases known : item.resolution with
    | none => rfl
    | some bindings =>
      have := pinned.retried bindings known
      omega
  · rfl

theorem Sound.putWork (sound : s.Sound) {item : WorkItem}
    (pinned : item.processedAt = none → s.Pinned item) : (s.putWork item).Sound :=
  { sound with
    items := Table.unique_put sound.items
    pinned := by
      intro other mem unprocessed
      cases Table.mem_put mem with
      | inl here =>
        subst here
        have old := pinned unprocessed
        exact ⟨old.retried, old.distinct, old.answers⟩
      | inr old =>
        have old := sound.pinned other old.1 unprocessed
        exact ⟨old.retried, old.distinct, old.answers⟩ }

theorem Sound.finishWork (sound : s.Sound) (item : WorkItem) (now : Nat) :
    (s.finishWork item now).Sound :=
  sound.putWork (by simp [WorkItem.finished])

theorem Pinned.claimed {item : WorkItem} (pinned : s.Pinned item) (token : String) (now : Nat) :
    s.Pinned (item.claimed token now) :=
  ⟨pinned.retried, pinned.distinct, pinned.answers⟩

theorem Pinned.retried_checkpoint {item : WorkItem} {supplied : List ResolvedWorkflowChild}
    {resolution : Option (List ResolvedWorkflowChild)} (pinned : s.Pinned item)
    (checkpoint : Checkpoint s item supplied resolution) (reason : String) (now : Nat) :
    s.Pinned (item.retried reason resolution now) := by
  cases checkpoint with
  | old nothing =>
    exact ⟨fun bindings _ => Nat.succ_pos _, pinned.distinct, pinned.answers⟩
  | merged bindings saved =>
    obtain ⟨_, distinct, decision, decides, answers⟩ := saveResolution_spec saved
    refine ⟨fun _ _ => Nat.succ_pos _, ?_, ?_⟩
    · rintro _ ⟨⟩
      exact distinct
    · rintro _ ⟨⟩
      exact ⟨decision, decides, answers⟩

theorem Grown.decides {news : List WorkflowChild} {item : WorkItem} {decision : WorkflowDecision}
    (grown : Grown s t news) (decides : s.Decides item decision) : t.Decides item decision := by
  obtain ⟨decoded, trace, known, same⟩ := decides
  obtain ⟨activation, found, outcome⟩ := Option.bind_eq_some_iff.mp known
  exact ⟨decoded, trace, by rw [grown.activations _ _ found, Option.bind_some, outcome], same⟩

theorem Grown.pinned {news : List WorkflowChild} {item : WorkItem} (grown : Grown s t news)
    (pinned : s.Pinned item) : t.Pinned item where
  retried := pinned.retried
  distinct := pinned.distinct
  answers := by
    intro bindings mem
    obtain ⟨decision, decides, answers⟩ := pinned.answers bindings mem
    exact ⟨decision, grown.decides decides, answers⟩

theorem Grown.branched {news : List WorkflowChild} {fork : WorkflowFork} {branch : WorkflowBranch}
    (grown : Grown s t news) (branched : s.Branched fork branch) : t.Branched fork branch := by
  obtain ⟨child, mem, found⟩ := branched
  rw [← grown.origin] at found
  exact ⟨child, grown.children ▸ List.mem_append_left _ mem, found⟩

theorem Sound.registers {activationId : String} {pinned : Result (List ResolvedWorkflowChild)}
    {news : List WorkflowChild} (sound : s.Sound) (registers : Registers s t activationId pinned news) :
    t.Sound where
  items := registers.work ▸ sound.items
  pinned := fun item mem unprocessed =>
    registers.toGrown.pinned (sound.pinned item (registers.work ▸ mem) unprocessed)
  keys := registers.keys sound.keys
  bound := fun id => registers.bound id (sound.bound id)
  forks := registers.forks ▸ sound.forks
  branches := by
    intro going fork mem branch part
    have before : s.workflow.state.isTerminal = false := by
      by_contra ended
      rw [registers.terminal (by simpa using ended)] at going
      cases going
    exact registers.toGrown.branched (sound.branches before fork (registers.forks ▸ mem) branch part)
  budgeted := by
    intro key refused
    rw [registers.origin]
    refine sound.budgeted key ?_
    rwa [Refused, registers.refusals, registers.workflowId] at refused
  apart := by
    intro key refused
    rw [Refused, registers.refusals, registers.workflowId] at refused
    rw [fork, registers.forks]
    exact sound.apart key refused
  attempts := by
    intro key
    rw [Refused, registers.refusals, registers.workflowId, registers.refusedAttempts]
    exact sound.attempts key

theorem Sound.grown (sound : s.Sound) (grown : Grown s t []) : t.Sound :=
  have registers : Registers s t "" (.ok []) [] := grown.registers
  sound.registers registers

/- Forks. -/

variable {call : ForkCall} {news : List WorkflowChild} {branches : List WorkflowBranch}

theorem branchChildren_keys (made : List.Forall₂ (BranchChild s call) branches news) :
    news.map WorkflowChild.key = branches.map WorkflowBranch.key := by
  induction made with
  | nil => rfl
  | cons head _ ih => rw [List.map_cons, List.map_cons, head.key, ih]

theorem branchChildren_activation (made : List.Forall₂ (BranchChild s call) branches news) :
    ∀ child ∈ news, child.activationId = call.command.owner.taskId := by
  induction made with
  | nil => simp
  | cons head _ ih =>
    intro child mem
    cases List.mem_cons.mp mem with
    | inl here => exact here ▸ head.activationId
    | inr later => exact ih child later

theorem exists_branchChild (made : List.Forall₂ (BranchChild s call) branches news)
    {branch : WorkflowBranch} (mem : branch ∈ branches) :
    ∃ child ∈ news, BranchChild s call branch child := by
  induction made with
  | nil => simp at mem
  | cons head _ ih =>
    cases List.mem_cons.mp mem with
    | inl here => exact ⟨_, by simp, here ▸ head⟩
    | inr later =>
      obtain ⟨child, inside, made⟩ := ih later
      exact ⟨child, by simp [inside], made⟩

theorem ForkAccepted.registeredChildren (accepted : ForkAccepted s t call news) (id : String) :
    t.registeredChildren id = s.registeredChildren id +
      if id = call.command.owner.taskId then call.command.fork.branches.length else 0 := by
  have mine := branchChildren_activation accepted.branches
  rw [accepted.same]
  simp only [Family.registeredChildren, List.countP_append, Nat.add_left_cancel_iff]
  split
  · next same =>
    rw [List.countP_eq_length.mpr fun child mem => by simp [mine child mem, same],
      accepted.branches.length_eq]
  · next other =>
    refine List.countP_eq_zero.mpr fun child mem => ?_
    simpa [mine child mem] using fun same => other same.symm

theorem Sound.accepted (sound : s.Sound) (accepted : ForkAccepted s t call news)
    (new : s.fork call.command.fork.key = none)
    (unrefused : s.origin.hasRunBudget = true → Table.find RunBudgetForkRefusal.key
      (s.workflow.workflowId, call.command.fork.key) s.budgets.refusals = none) : t.Sound := by
  have same := accepted.same
  have refusals : ∀ key, t.Refused key ↔ s.Refused key := by
    intro key
    rw [Refused, Refused, accepted.refusals, same]
  have children : t.children = s.children ++ news := by rw [same]
  have origin : t.origin = s.origin := by rw [same]
  refine
    { items := by rw [same]; exact sound.items
      pinned := fun item mem unprocessed => ?_
      keys := ?_
      bound := fun id => ?_
      forks := ?_
      branches := fun going fork mem branch part => ?_
      budgeted := fun key refused => origin ▸ sound.budgeted key ((refusals key).mp refused)
      apart := fun key refused => ?_
      attempts := fun key => by rw [refusals, same]; exact sound.attempts key }
  · rw [same] at mem
    have old := sound.pinned item mem unprocessed
    refine ⟨old.retried, old.distinct, ?_⟩
    rw [same]
    exact old.answers
  · rw [children, List.map_append, branchChildren_keys accepted.branches, List.nodup_append]
    refine ⟨sound.keys, accepted.distinct, fun key old key' new' same' => ?_⟩
    obtain ⟨child, mem, rfl⟩ := List.mem_map.mp old
    exact accepted.apart child mem (same' ▸ new')
  · rw [accepted.registeredChildren]
    split
    · next here => exact here ▸ accepted.room
    · exact sound.bound id
  · rw [same]
    refine Table.unique_append sound.forks fun fork mem => ?_
    exact Table.find_eq_none.mp new fork mem
  · have before : s.workflow.state.isTerminal = false := by rwa [same] at going
    rw [same] at mem
    cases List.mem_append.mp mem with
    | inl old =>
      obtain ⟨child, inside, found⟩ := sound.branches before fork old branch part
      exact ⟨child, by simp [children, inside], by rw [origin]; exact found⟩
    | inr here =>
      obtain rfl := List.mem_singleton.mp here
      obtain ⟨child, inside, made⟩ := exists_branchChild accepted.branches part
      exact ⟨child, by simp [children, inside], made.kind, made.key, made.forkKey,
        made.activationId, made.entrypoint, by rw [origin]; exact made.descriptor⟩
  · have before := (refusals key).mp refused
    have apart := sound.apart key before
    have other : call.command.fork.key ≠ key := by
      intro here
      subst here
      rw [Refused, unrefused (sound.budgeted _ before)] at before
      cases before
    rw [fork, same]
    refine (Table.find_append_other ?_).trans apart
    exact other

theorem ForkRefused.refused_iff {reason : RunBudgetDenial} (refused : ForkRefused sha256 s t call reason)
    (key : String) : t.Refused key ↔ s.Refused key ∨ key = call.command.fork.key := by
  have same : t.workflow = s.workflow := by rw [refused.same]
  rw [Refused, Refused, refused.refusals, same, Table.find, Table.find, List.find?_append]
  by_cases here : call.command.fork.key = key
  · simp [RunBudgetForkRefusal.key, here]
  · have other : key ≠ call.command.fork.key := fun same => here same.symm
    simp [RunBudgetForkRefusal.key, here, other]

theorem Sound.refused {reason : RunBudgetDenial} (sound : s.Sound)
    (refused : ForkRefused sha256 s t call reason) (new : s.fork call.command.fork.key = none) :
    t.Sound := by
  have same := refused.same
  have origin : t.origin = s.origin := by rw [same]
  have attempts : t.refusedAttempts.map Prod.fst =
      s.refusedAttempts.map Prod.fst ++ [call.command.fork.key] := by
    rw [same]
    simp
  refine
    { items := by rw [same]; exact sound.items
      pinned := fun item mem unprocessed => ?_
      keys := by rw [same]; exact sound.keys
      bound := by rw [same]; exact sound.bound
      forks := by rw [same]; exact sound.forks
      branches := by rw [same]; exact sound.branches
      budgeted := fun _ _ => origin ▸ refused.budgeted
      apart := fun key again => ?_
      attempts := fun key => ?_ }
  · rw [same] at mem
    have old := sound.pinned item mem unprocessed
    refine ⟨old.retried, old.distinct, ?_⟩
    rw [same]
    exact old.answers
  · have forks : t.fork key = s.fork key := by rw [same]; rfl
    rw [forks]
    cases (refused.refused_iff key).mp again with
    | inl before => exact sound.apart key before
    | inr here => exact here ▸ new
  · rw [refused.refused_iff, sound.attempts, attempts, List.mem_append, List.mem_singleton]

theorem ForkAnswered.sound {answer : Result WorkflowForkReceipt} (sound : s.Sound)
    (answered : ForkAnswered sha256 s call t answer) : t.Sound := by
  cases answered with
  | replayed => exact sound
  | refusedAgain => exact sound
  | accepted _ _ new unrefused accepted => exact sound.accepted accepted new unrefused
  | refused _ _ new _ refused => exact sound.refused refused new

/- Steps of everyone else. -/

theorem identity_keys (children : List WorkflowChild) :
    (children.map WorkflowChild.identity).map WorkflowChild.key = children.map WorkflowChild.key := by
  rw [List.map_map]
  rfl

theorem identity_registered (s : Family) (id : String) :
    s.registeredChildren id =
      (s.children.map WorkflowChild.identity).countP fun child => child.activationId = id := by
  rw [List.countP_map]
  rfl

theorem Elsewhere.branched (other : Elsewhere s t) (going : t.workflow.state.isTerminal = false)
    {fork : WorkflowFork} {branch : WorkflowBranch} (branched : s.Branched fork branch) :
    t.Branched fork branch := by
  obtain ⟨child, mem, kind, key, forkKey, activationId, entrypoint, descriptor⟩ := branched
  have here : child.identity ∈ t.children.map WorkflowChild.identity := by
    rw [other.children going]
    exact List.mem_map_of_mem mem
  obtain ⟨child', mem', same⟩ := List.mem_map.mp here
  refine ⟨child', mem', ?_, ?_, ?_, ?_, ?_, ?_⟩
  · exact (congrArg WorkflowChild.kind same).trans kind
  · exact (congrArg WorkflowChild.key same).trans key
  · exact (congrArg WorkflowChild.forkKey same).trans forkKey
  · exact (congrArg WorkflowChild.activationId same).trans activationId
  · exact (congrArg WorkflowChild.entrypoint same).trans entrypoint
  · rw [other.origin]
    exact (congrArg WorkflowChild.descriptor same).trans descriptor

theorem Elsewhere.decides (other : Elsewhere s t) {item : WorkItem} {decision : WorkflowDecision}
    (mem : item ∈ t.work) (decides : s.Decides item decision) : t.Decides item decision := by
  obtain ⟨decoded, trace, known, same⟩ := decides
  exact ⟨decoded, trace, other.outcomes item mem _ known, same⟩

theorem Elsewhere.refused_iff (other : Elsewhere s t) (key : String) : t.Refused key ↔ s.Refused key := by
  rw [Refused, Refused, other.workflowId, other.refusals]

theorem Elsewhere.sound (other : Elsewhere s t) (sound : s.Sound) : t.Sound where
  items := other.items
  pinned := by
    intro item mem unprocessed
    cases other.newWork item mem with
    | inl old =>
      have before := sound.pinned item old unprocessed
      refine ⟨before.retried, before.distinct, fun bindings saved => ?_⟩
      obtain ⟨decision, decides, answers⟩ := before.answers bindings saved
      exact ⟨decision, other.decides mem decides, answers⟩
    | inr new =>
      have nothing := new.1.nothing
      exact ⟨by simp [nothing], by simp [nothing], by simp [nothing]⟩
  keys := by
    rw [← identity_keys]
    refine List.Sublist.nodup (other.fewer.map _) ?_
    rw [identity_keys]
    exact sound.keys
  bound := by
    intro id
    rw [identity_registered]
    refine (other.fewer.countP_le).trans ?_
    rw [← identity_registered]
    exact sound.bound id
  forks := (sound.forks).sublist (other.lessForks.map _)
  branches := by
    intro going fork mem branch part
    have before : s.workflow.state.isTerminal = false := by
      by_contra ended
      rw [other.terminal (by simpa using ended)] at going
      cases going
    exact other.branched going (sound.branches before fork (other.lessForks.subset mem) branch part)
  budgeted := by
    intro key refused
    rw [other.origin]
    exact sound.budgeted key ((other.refused_iff key).mp refused)
  apart := by
    intro key refused
    have before := sound.apart key ((other.refused_iff key).mp refused)
    rw [fork, Table.find_eq_none] at before ⊢
    exact fun fork mem => before fork (other.lessForks.subset mem)
  attempts := by
    intro key
    rw [other.refused_iff, other.refusedAttempts]
    exact sound.attempts key

theorem Step.sound (step : Step sha256 s t) (sound : s.Sound) : t.Sound := by
  cases step with
  | claim id token now _ work claimed =>
    obtain ⟨item, mem, _, due, rfl, _⟩ := claimWork_spec claimed
    exact sound.putWork fun unprocessed => (sound.pinned item mem unprocessed).claimed token now
  | retry work reason bindings lockedAt now _ retried =>
    obtain ⟨rfl, _⟩ | ⟨item, held, ⟨_, u, grown, rfl⟩ | ⟨resolution, checkpoint, rfl⟩⟩ :=
      retryWork_cases retried
    · exact sound
    · exact (sound.grown grown).finishWork item now
    · have pinned := sound.pinned item held.mem held.unprocessed
      exact sound.putWork fun _ => pinned.retried_checkpoint checkpoint reason now
  | reject work error lockedAt now _ rejected =>
    obtain rfl | ⟨item, _, u, grown, rfl⟩ := rejectWork_cases rejected
    · exact sound
    · exact (sound.grown grown).finishWork item now
  | apply call _ applied =>
    obtain ⟨rfl, _⟩ | ⟨item, _, u, at', ⟨news, registers, _⟩, rfl⟩ := applyWork_cases applied
    · exact sound
    · exact (sound.registers registers).finishWork item at'
  | fork call _ answer forked => exact (forkOnce_answered forked).sound sound
  | elsewhere _ other => exact other.sound sound

/- Obligations. -/

theorem eq_of_taskId (obliged : s.Obliged) (sound : s.Sound) {item other : WorkItem}
    (mem : item ∈ s.work) (mem' : other ∈ s.work) (same : other.taskId = item.taskId) :
    other = item := by
  refine Table.eq_of_key sound.items mem' mem ?_
  rw [obliged.named other mem', obliged.named item mem, same]

/-- While one item is unprocessed, and the workflow goes on, there is no other. -/
theorem Obliged.only (obliged : s.Obliged) (sound : s.Sound) (going : s.Open) {item other : WorkItem}
    (mem : item ∈ s.work) (unprocessed : item.processedAt = none) (mem' : other ∈ s.work)
    (unprocessed' : other.processedAt = none) : other = item := by
  have here := (obliged.current item mem unprocessed going).activationId
  have there := (obliged.current other mem' unprocessed' going).activationId
  refine eq_of_taskId obliged sound mem mem' ?_
  rw [here] at there
  exact (Option.some.inj there).symm

theorem Current.same {item old : WorkItem} (current : s.Current old)
    (workflow : t.workflow = s.workflow) (activations : t.activations = s.activations)
    (taskId : item.taskId = old.taskId) : t.Current item := by
  obtain ⟨activation, found, ended⟩ := current.ended
  refine ⟨?_, ?_, activation, ?_, ?_⟩
  · rw [workflow, current.running]
  · rw [workflow, taskId, current.activationId]
  · rw [Family.activation, activations, taskId]
    exact found
  · rw [workflow]
    exact ended

theorem Obliged.putWork (obliged : s.Obliged) {item old : WorkItem} (mem : old ∈ s.work)
    (id : item.id = old.id) (taskId : item.taskId = old.taskId)
    (unprocessed : item.processedAt = none → old.processedAt = none) : (s.putWork item).Obliged where
  named := by
    intro other mem'
    cases Table.mem_put mem' with
    | inl here => rw [here, id, taskId, obliged.named old mem]
    | inr there => exact obliged.named other there.1
  retired := obliged.retired
  current := by
    intro other mem' open' going
    cases Table.mem_put mem' with
    | inl here =>
      subst here
      exact (obliged.current old mem (unprocessed open') going).same rfl rfl taskId
    | inr there => exact (obliged.current other there.1 open' going).same rfl rfl rfl

/-- The item that was under way is finished, whatever became of its workflow. -/
theorem Obliged.finished (obliged : s.Obliged) (sound : s.Sound) {item : WorkItem}
    {news : List WorkflowChild} (grown : Grown s u news) (mem : item ∈ s.work)
    (unprocessed : item.processedAt = none) (now : Nat) : (u.finishWork item now).Obliged where
  named := by
    intro other mem'
    cases Table.mem_put mem' with
    | inl here =>
      rw [here]
      exact obliged.named item mem
    | inr there => exact obliged.named other (grown.work ▸ there.1)
  retired := by
    intro retiring
    exact grown.terminal (obliged.retired (grown.retiring ▸ retiring))
  current := by
    intro other mem' open' going
    cases Table.mem_put mem' with
    | inl here =>
      rw [here] at open'
      simp [WorkItem.finished] at open'
    | inr there =>
      have before : s.Open := by
        by_contra closed
        have same := grown.closed closed
        exact closed (by rw [Open, ← same]; exact going)
      have one := obliged.only sound before mem unprocessed (grown.work ▸ there.1) open'
      exact absurd (congrArg WorkItem.id one) there.2

/-- A transaction that neither moves the workflow on nor touches its work. -/
theorem Obliged.same (obliged : s.Obliged) (work : t.work = s.work)
    (workflow : t.workflow = s.workflow) (activations : t.activations = s.activations)
    (retiring : t.retiring = s.retiring) : t.Obliged where
  named := work ▸ obliged.named
  retired := by
    intro again
    rw [workflow]
    exact obliged.retired (retiring ▸ again)
  current := by
    intro item mem unprocessed going
    rw [Open, workflow] at going
    exact (obliged.current item (work ▸ mem) unprocessed going).same workflow activations rfl

theorem ForkAnswered.obliged {answer : Result WorkflowForkReceipt} (obliged : s.Obliged)
    (answered : ForkAnswered sha256 s call t answer) : t.Obliged := by
  cases answered with
  | replayed => exact obliged
  | refusedAgain => exact obliged
  | accepted _ _ _ _ accepted =>
    have same := accepted.same
    exact obliged.same (by rw [same]) (by rw [same]) (by rw [same]) (by rw [same])
  | refused _ _ _ _ refused =>
    have same := refused.same
    exact obliged.same (by rw [same]) (by rw [same]) (by rw [same]) (by rw [same])

theorem Elsewhere.obliged (other : Elsewhere s t) (obliged : s.Obliged) : t.Obliged where
  named := by
    intro item mem
    cases other.newWork item mem with
    | inl old => exact obliged.named item old
    | inr new => exact new.1.named
  retired := other.retired
  current := by
    intro item mem unprocessed going
    cases other.newWork item mem with
    | inr new => exact new.2.2.2 going
    | inl old =>
      have before : s.Open := by
        by_contra closed
        exact other.closed closed going
      have current := obliged.current item old unprocessed before
      obtain ⟨running, activationId, revision⟩ := other.running current.running going
      have kept : t.retiring = false := by
        by_contra retiring
        have ended := other.retired (by simpa using retiring)
        rw [running] at ended
        cases ended
      obtain ⟨activation, found, outcome, task, same⟩ := current.ended
      obtain ⟨activation', found', continues⟩ := other.activations kept _ _ found
      obtain ⟨outcome', task'⟩ := continues.ended outcome
      refine ⟨running, activationId.trans current.activationId, activation', found', ?_, ?_, ?_⟩
      · rw [outcome', outcome]
      · rw [task']
        exact task
      · rw [continues.revision, same, revision]

theorem Step.obliged (step : Step sha256 s t) (sound : s.Sound) (obliged : s.Obliged) : t.Obliged := by
  cases step with
  | claim id token now _ work claimed =>
    obtain ⟨item, mem, _, _, rfl, _⟩ := claimWork_spec claimed
    exact obliged.putWork mem rfl rfl fun unprocessed => unprocessed
  | retry work reason bindings lockedAt now _ retried =>
    obtain ⟨rfl, _⟩ | ⟨item, held, ⟨_, u, grown, rfl⟩ | ⟨resolution, _, rfl⟩⟩ :=
      retryWork_cases retried
    · exact obliged
    · exact obliged.finished sound grown held.mem held.unprocessed now
    · exact obliged.putWork held.mem rfl rfl id
  | reject work error lockedAt now _ rejected =>
    obtain rfl | ⟨item, held, u, grown, rfl⟩ := rejectWork_cases rejected
    · exact obliged
    · exact obliged.finished sound grown held.mem held.unprocessed now
  | apply call _ applied =>
    obtain ⟨rfl, _⟩ | ⟨item, held, u, at', ⟨news, registers, _⟩, rfl⟩ := applyWork_cases applied
    · exact obliged
    · exact obliged.finished sound registers.toGrown held.mem held.unprocessed at'
  | fork call _ answer forked => exact (forkOnce_answered forked).obliged obliged
  | elsewhere _ other => exact other.obliged obliged

/- Runs. -/

/-- What holds of every family that a run leads to. -/
structure Invariant (s : Family) : Prop where
  sound : s.Sound
  obliged : s.Obliged

theorem Run.invariant (run : Run sha256 s t) (invariant : s.Invariant) : t.Invariant := by
  induction run with
  | refl => exact invariant
  | tail _ step ih => exact ⟨step.sound ih.sound, step.obliged ih.sound ih.obliged⟩

theorem Reachable.invariant (reachable : Reachable sha256 s) : s.Invariant := by
  obtain ⟨new, fresh, run⟩ := reachable
  exact run.invariant ⟨fresh.sound, fresh.obliged⟩

end Family
end Ledgence
