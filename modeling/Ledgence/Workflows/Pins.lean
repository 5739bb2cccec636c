import Ledgence.Workflows.Steps

/-! What a retry has saved stays until its item is processed, and no call takes another binding. -/
open Kit Kit.Checked

namespace Ledgence

/-- The item later on: while it is not processed, nothing that was saved of it is dropped. -/
structure WorkItem.Later (item item' : WorkItem) : Prop where
  id : item'.id = item.id
  unprocessed : item'.processedAt = none → item.processedAt = none
  saved : item'.processedAt = none → ∀ bindings ∈ item.resolution,
    ∃ more ∈ item'.resolution, bindings ⊆ more

theorem WorkItem.Later.refl (item : WorkItem) : item.Later item where
  id := rfl
  unprocessed := fun unprocessed => unprocessed
  saved := fun _ bindings mem => ⟨bindings, mem, List.Subset.refl _⟩

theorem WorkItem.Later.trans {item item' item'' : WorkItem} (first : item.Later item')
    (second : item'.Later item'') : item.Later item'' where
  id := second.id.trans first.id
  unprocessed := fun unprocessed => first.unprocessed (second.unprocessed unprocessed)
  saved := by
    intro unprocessed bindings mem
    obtain ⟨more, mem', subset⟩ := first.saved (second.unprocessed unprocessed) bindings mem
    obtain ⟨most, mem'', subset'⟩ := second.saved unprocessed more mem'
    exact ⟨most, mem'', fun b inside => subset' (subset inside)⟩

namespace Family
variable {s t u : Family} {sha256 : List Char → String} {item item' : WorkItem}
  {news : List WorkflowChild} {b : ResolvedWorkflowChild}

/-- The items of `s` are there later on, until retention takes those that are processed. -/
structure Keeps (s t : Family) : Prop where
  items : ∀ item ∈ s.work, (∃ item' ∈ t.work, item.Later item') ∨
    t.retiring = true ∧ item.id ∉ t.work.map WorkItem.id
  gone : ∀ id, s.retiring = true → id ∉ s.work.map WorkItem.id →
    t.retiring = true ∧ id ∉ t.work.map WorkItem.id

theorem Keeps.refl (s : Family) : Keeps s s where
  items := fun item mem => .inl ⟨item, mem, .refl item⟩
  gone := fun _ retiring absent => ⟨retiring, absent⟩

theorem Keeps.trans (first : Keeps s t) (second : Keeps t u) : Keeps s u where
  items := by
    intro item mem
    cases first.items item mem with
    | inr gone => exact .inr (second.gone item.id gone.1 gone.2)
    | inl later =>
      obtain ⟨item', mem', later⟩ := later
      cases second.items item' mem' with
      | inr gone => exact .inr ⟨gone.1, later.id ▸ gone.2⟩
      | inl later' =>
        obtain ⟨item'', mem'', later'⟩ := later'
        exact .inl ⟨item'', mem'', later.trans later'⟩
  gone := by
    intro id retiring absent
    obtain ⟨retiring', absent'⟩ := first.gone id retiring absent
    exact second.gone id retiring' absent'

theorem Keeps.same (work : t.work = s.work) (retiring : t.retiring = s.retiring) : Keeps s t where
  items := fun item mem => .inl ⟨item, work ▸ mem, .refl item⟩
  gone := fun _ retiring' absent => ⟨retiring ▸ retiring', work ▸ absent⟩

theorem Keeps.putWork (mem : item ∈ s.work) (unique : Table.Unique WorkItem.id s.work)
    (later : item.Later item') : Keeps s (s.putWork item') where
  items := by
    intro other mem'
    by_cases here : other.id = item'.id
    · obtain rfl := Table.eq_of_key unique mem' mem (here.trans later.id)
      exact .inl ⟨item', Table.mem_put_self mem' here, later⟩
    · exact .inl ⟨other, Table.mem_put_other mem' here, .refl other⟩
  gone := by
    intro id retiring absent
    refine ⟨retiring, ?_⟩
    rw [Family.putWork, Table.keys_put]
    exact absent

theorem Keeps.finishWork (grown : Grown s u news) (mem : item ∈ s.work)
    (unique : Table.Unique WorkItem.id s.work) (now : Nat) : Keeps s (u.finishWork item now) := by
  have later : item.Later (item.finished now) := ⟨rfl, by simp [WorkItem.finished],
    by simp [WorkItem.finished]⟩
  refine (Keeps.same grown.work grown.retiring).trans (Keeps.putWork ?_ ?_ later)
  · rw [grown.work]
    exact mem
  · rw [grown.work]
    exact unique

theorem Checkpoint.later {supplied : List ResolvedWorkflowChild}
    {resolution : Option (List ResolvedWorkflowChild)} (pinned : s.Pinned item)
    (checkpoint : Checkpoint s item supplied resolution) (reason : String) (now : Nat) :
    item.Later (item.retried reason resolution now) where
  id := rfl
  unprocessed := fun unprocessed => unprocessed
  saved := by
    intro _ bindings mem
    cases checkpoint with
    | old nothing => exact ⟨bindings, mem, List.Subset.refl _⟩
    | merged more saved =>
      obtain ⟨pins, _⟩ := saveResolution_spec saved
      exact ⟨more, rfl, pins.saved bindings (by rw [pinned.loadResolution]; exact mem)⟩

theorem Elsewhere.keeps (other : Elsewhere s t) (unique : Table.Unique WorkItem.id s.work) :
    Keeps s t where
  items := by
    intro item mem
    by_cases present : item ∈ t.work
    · exact .inl ⟨item, present, .refl item⟩
    · have retiring : t.retiring = true := by
        by_contra going
        exact present (other.work item mem (.inr (by simpa using going)))
      refine .inr ⟨retiring, fun again => ?_⟩
      obtain ⟨item', mem', same⟩ := List.mem_map.mp again
      cases other.newWork item' mem' with
      | inl old =>
        obtain rfl := Table.eq_of_key unique old mem same
        exact present mem'
      | inr new => exact new.2.1 (same ▸ List.mem_map_of_mem mem)
  gone := by
    intro id retiring absent
    refine ⟨other.retiring retiring, fun again => ?_⟩
    obtain ⟨item, mem, rfl⟩ := List.mem_map.mp again
    cases other.newWork item mem with
    | inl old => exact absent (List.mem_map_of_mem old)
    | inr new => simp [other.retiring retiring] at new

theorem ForkAnswered.keeps {call : ForkCall} {answer : Result WorkflowForkReceipt}
    (answered : ForkAnswered sha256 s call t answer) : Keeps s t := by
  cases answered with
  | replayed => exact .refl s
  | refusedAgain => exact .refl s
  | accepted _ _ _ _ accepted => exact .same (by rw [accepted.same]) (by rw [accepted.same])
  | refused _ _ _ _ refused => exact .same (by rw [refused.same]) (by rw [refused.same])

theorem Step.keeps (step : Step sha256 s t) (sound : s.Sound) : Keeps s t := by
  cases step with
  | claim id token now _ work claimed =>
    obtain ⟨item, mem, _, _, rfl, _⟩ := claimWork_spec claimed
    exact .putWork mem sound.items
      ⟨rfl, fun unprocessed => unprocessed, fun _ bindings mem => ⟨bindings, mem, List.Subset.refl _⟩⟩
  | retry work reason bindings lockedAt now _ retried =>
    obtain ⟨rfl, _⟩ | ⟨item, held, ⟨_, u, grown, rfl⟩ | ⟨resolution, checkpoint, rfl⟩⟩ :=
      retryWork_cases retried
    · exact .refl t
    · exact .finishWork grown held.mem sound.items now
    · have pinned := sound.pinned item held.mem held.unprocessed
      exact .putWork held.mem sound.items (checkpoint.later pinned reason now)
  | reject work error lockedAt now _ rejected =>
    obtain rfl | ⟨item, held, u, grown, rfl⟩ := rejectWork_cases rejected
    · exact .refl t
    · exact .finishWork grown held.mem sound.items now
  | apply call _ applied =>
    obtain ⟨rfl, _⟩ | ⟨item, held, u, at', ⟨news, registers, _⟩, rfl⟩ := applyWork_cases applied
    · exact .refl t
    · exact .finishWork registers.toGrown held.mem sound.items at'
  | fork call _ answer forked => exact (forkOnce_answered forked).keeps
  | elsewhere _ other => exact other.keeps sound.items

theorem Run.keeps (run : Run sha256 s t) (invariant : s.Invariant) : Keeps s t := by
  induction run with
  | refl => exact .refl s
  | tail first step ih =>
    have before := Run.invariant first invariant
    exact ih.trans (step.keeps before.sound)

structure Saved (s : Family) (item : WorkItem) (b : ResolvedWorkflowChild) : Prop where
  mem : item ∈ s.work
  unprocessed : item.processedAt = none
  saved : ∃ bindings ∈ item.resolution, b ∈ bindings

theorem Saved.later (saved : s.Saved item b) (invariant : s.Invariant) (run : Run sha256 s t)
    (mem : item' ∈ t.work) (same : item'.id = item.id) (unprocessed : item'.processedAt = none) :
    t.Saved item' b := by
  obtain ⟨bindings, there, inside⟩ := saved.saved
  have sound := (Run.invariant run invariant).sound
  cases (Run.keeps run invariant).items item saved.mem with
  | inr gone => exact absurd (same ▸ List.mem_map_of_mem mem) gone.2
  | inl later =>
    obtain ⟨item'', mem'', later⟩ := later
    obtain rfl := Table.eq_of_key sound.items mem mem'' (same.trans later.id.symm)
    obtain ⟨more, saved', subset⟩ := later.saved unprocessed bindings there
    exact ⟨mem, unprocessed, more, saved', subset inside⟩

def Differs (supplied : List ResolvedWorkflowChild) (b : ResolvedWorkflowChild) : Prop :=
  ∃ c ∈ supplied, c.key = b.key ∧ c ≠ b

theorem Saved.conflict {supplied : List ResolvedWorkflowChild} (saved : s.Saved item b)
    (sound : s.Sound) (differs : Differs supplied b) :
    withPinned item.loadResolution supplied = .error .conflict := by
  obtain ⟨bindings, there, inside⟩ := saved.saved
  obtain ⟨c, given, same, other⟩ := differs
  rw [(sound.pinned item saved.mem saved.unprocessed).loadResolution]
  rw [Option.mem_def.mp there]
  exact withPinned_conflict inside given same other

theorem Saved.decides (saved : s.Saved item b) (sound : s.Sound) :
    ∃ decision, s.Decides item decision ∧ b.Answers decision.commands := by
  obtain ⟨bindings, there, inside⟩ := saved.saved
  obtain ⟨decision, decides, answers⟩ :=
    (sound.pinned item saved.mem saved.unprocessed).answers bindings there
  exact ⟨decision, decides, answers b inside⟩

/- Claims. -/

/-- What registered children stand for comes first, and then what was saved for other keys. -/
theorem resolvedChildren_eq (s : Family) {bindings : List ResolvedWorkflowChild}
    (load : item.loadResolution = some bindings) :
    ∃ accepted : List ResolvedWorkflowChild,
      (∀ r ∈ accepted, ∃ child ∈ s.children, r = child.resolved) ∧ s.resolvedChildren item =
        accepted ++ bindings.filter fun child => child.key ∉ accepted.map ResolvedWorkflowChild.key := by
  refine ⟨_, ?_, by simp only [resolvedChildren, load, Option.getD_some]; rfl⟩
  intro r mem
  obtain ⟨child, inside, rfl⟩ := List.mem_map.mp mem
  exact ⟨child, (List.mem_filter.mp inside).1, rfl⟩

theorem Saved.claimed {token : String} {now : Nat} {work : WorkflowWork} (saved : s.Saved item b)
    (sound : s.Sound) (claimed : s.claimWork item.id token now = .ok (t, work)) :
    (∃ r ∈ work.resolvedChildren, r.key = b.key) ∧ ∀ r ∈ work.resolvedChildren, r.key = b.key →
      r = b ∨ ∃ child ∈ s.children, r = child.resolved := by
  obtain ⟨old, mem, same, _, _, resolved⟩ := claimWork_spec claimed
  obtain rfl := Table.eq_of_key sound.items mem saved.mem same
  obtain ⟨bindings, there, inside⟩ := saved.saved
  have pinned := sound.pinned old saved.mem saved.unprocessed
  have load : (old.claimed token now).loadResolution = some bindings := by
    rw [(pinned.claimed token now).loadResolution]
    exact there
  have distinct := pinned.distinct bindings there
  obtain ⟨accepted, children, shape⟩ := resolvedChildren_eq s load
  rw [resolved, shape]
  constructor
  · by_cases registered : b.key ∈ accepted.map ResolvedWorkflowChild.key
    · obtain ⟨r, mem', same'⟩ := List.mem_map.mp registered
      exact ⟨r, List.mem_append_left _ mem', same'⟩
    · exact ⟨b, List.mem_append_right _ (List.mem_filter.mpr ⟨inside, by simpa using registered⟩), rfl⟩
  · intro r mem' same'
    cases List.mem_append.mp mem' with
    | inl registered => exact .inr (children r registered)
    | inr kept => exact .inl (eq_of_keys distinct (List.mem_filter.mp kept).1 inside same')

/- Retries. -/

/-- A retry that supplies another binding fails, unless its time is over: then it ends the item. -/
theorem Saved.retried {work : WorkflowWork} {reason : String} {supplied : List ResolvedWorkflowChild}
    {lockedAt now : Nat} (saved : s.Saved item b) (sound : s.Sound) (same : work.id = item.id)
    (differs : Differs supplied b)
    (retried : s.retryWork work reason supplied lockedAt now = .ok t) :
    applicationDeadlineMs ≤ now - item.createdAt ∧ t.children = s.children ∧
      item.finished now ∈ t.work := by
  obtain ⟨_, old, mem, id, processed⟩ | ⟨old, held, ended | ⟨resolution, checkpoint, rfl⟩⟩ :=
    retryWork_cases retried
  · obtain rfl := Table.eq_of_key sound.items mem saved.mem (id.trans same)
    exact absurd saved.unprocessed processed
  · obtain rfl := Table.eq_of_key sound.items held.mem saved.mem (held.id.trans same)
    obtain ⟨late, u, grown, rfl⟩ := ended
    have there : old ∈ u.work := by
      rw [grown.work]
      exact held.mem
    exact ⟨late, grown.same_children, Table.mem_put_self there rfl⟩
  · obtain rfl := Table.eq_of_key sound.items held.mem saved.mem (held.id.trans same)
    cases checkpoint with
    | old nothing =>
      obtain ⟨c, given, _⟩ := differs
      simp [nothing] at given
    | merged bindings saved' =>
      simp only [saveResolution, bind_eq_ok, exists_unit] at saved'
      obtain ⟨_, saved'⟩ := saved'
      split at saved'
      · simp [saved.conflict sound differs] at saved'
      · cases saved'

theorem Saved.retry_conflict {work : WorkflowWork} {reason : String}
    {supplied : List ResolvedWorkflowChild} {lockedAt now : Nat} {snapshot : WorkflowSnapshot}
    (saved : s.Saved item b) (sound : s.Sound) (differs : Differs supplied b)
    (readable : s.status = .ok snapshot) (locked : s.lockWork work lockedAt = .ok (some item))
    (timely : now - item.createdAt < applicationDeadlineMs)
    (few : supplied.length ≤ workflowMaxCommands) :
    s.retryWork work reason supplied lockedAt now = .error .conflict := by
  obtain ⟨decision, ⟨decoded, trace, known, _⟩, _⟩ := saved.decides sound
  have some' : supplied ≠ [] := by
    rintro rfl
    obtain ⟨c, given, _⟩ := differs
    cases given
  have refused : s.saveResolution item supplied = .error .conflict := by
    have bounded : ¬ workflowMaxCommands < supplied.length := by omega
    by_cases own : decoded.decision.activationId = item.taskId
    · simp [saveResolution, refuse, bounded, known, own, saved.conflict sound differs]
    · simp [saveResolution, refuse, bounded, known, own]
  have going : ¬ applicationDeadlineMs ≤ now - item.createdAt := by omega
  simp [retryWork, readable, locked, going, some', refused]

/- Applications. -/

theorem Saved.applyOutcome_conflict {call : ApplyCall} {outcome : ControllerOutcome}
    (saved : s.Saved item b) (invariant : s.Invariant) (differs : Differs call.resolved b)
    (known : (s.activation item.taskId).bind WorkflowActivation.outcome = some outcome)
    (going : s.Open) (configured : call.configured = .ok ()) :
    s.applyOutcome sha256 call item outcome = .error .conflict := by
  obtain ⟨decision, ⟨decoded, trace, known', _⟩, _⟩ := saved.decides invariant.sound
  obtain rfl := Option.some.inj (known.symm.trans known')
  have current := invariant.obliged.current item saved.mem saved.unprocessed going
  obtain ⟨activation, found, _, _, revision⟩ := current.ended
  have refused := saved.conflict invariant.sound differs
  by_cases same : decoded.decision.activationId ≠ item.taskId ∨
      decoded.decision.revision ≠ activation.revision
  · simp [applyOutcome, applyOutput, configured, found, okOr, refuse, same]
  · simp only [not_or, not_not] at same
    simp [applyOutcome, applyOutput, configured, found, okOr, refuse, same, current.activationId,
      revision, refused]

theorem applyOutcome_pinned {call : ApplyCall} {decoded : DecodedDecision}
    {trace : Option TraceContext}
    (applied : s.applyOutcome sha256 call item (.succeeded (.ok decoded) trace) = .ok t) :
    ∃ resolved, withPinned item.loadResolution call.resolved = .ok resolved := by
  simp only [applyOutcome, ok_bind, applyOutput, bind_eq_ok, exists_unit] at applied
  obtain ⟨_, _, _, _, _, resolved, pinned, _⟩ := applied
  exact ⟨resolved, pinned⟩

/-- An application that supplies another binding fails, unless the end of the workflow was asked for:
then nothing of the decision is done. -/
theorem Saved.applied {call : ApplyCall} (saved : s.Saved item b) (invariant : s.Invariant)
    (same : call.work.id = item.id) (differs : Differs call.resolved b)
    (applied : s.applyWork sha256 call = .ok t) : ¬ s.Open ∧ t = s.finishWork item call.now := by
  have sound := invariant.sound
  simp only [applyWork, bind_eq_ok] at applied
  obtain ⟨_, _, locked, lock, applied⟩ := applied
  cases locked with
  | none =>
    obtain ⟨old, mem, id, processed⟩ := lockWork_none lock
    obtain rfl := Table.eq_of_key sound.items mem saved.mem (id.trans same)
    exact absurd saved.unprocessed processed
  | some old =>
    have held := lockWork_some lock
    obtain rfl := Table.eq_of_key sound.items held.mem saved.mem (held.id.trans same)
    simp only at applied
    split at applied
    · next closed =>
      refine ⟨?_, (pure_eq_ok.mp applied).symm⟩
      rintro (state | state)
      · simp [state, WorkflowState.isTerminal] at closed
      · simp [state, WorkflowState.isTerminal] at closed
    · simp only [bind_eq_ok, okOr_eq_ok] at applied
      obtain ⟨outcome, known, u, decided, _⟩ := applied
      obtain ⟨decision, ⟨decoded, trace, known', _⟩, _⟩ := saved.decides sound
      obtain rfl := Option.some.inj (known.symm.trans known')
      obtain ⟨resolved, pinned⟩ := applyOutcome_pinned decided
      rw [saved.conflict sound differs] at pinned
      cases pinned

theorem Saved.apply_conflict {call : ApplyCall} {snapshot : WorkflowSnapshot}
    (saved : s.Saved item b) (invariant : s.Invariant) (differs : Differs call.resolved b)
    (readable : s.status = .ok snapshot)
    (locked : s.lockWork call.work call.lockedAt = .ok (some item)) (going : s.Open)
    (configured : call.configured = .ok ()) : s.applyWork sha256 call = .error .conflict := by
  obtain ⟨decision, ⟨decoded, trace, known, _⟩, _⟩ := saved.decides invariant.sound
  have refused : s.applyOutcome sha256 call item (.succeeded (.ok decoded) trace) = .error .conflict :=
    saved.applyOutcome_conflict invariant differs known going configured
  have running := (invariant.obliged.current item saved.mem saved.unprocessed going).running
  simp [applyWork, readable, locked, running, WorkflowState.isTerminal, known, okOr, refused]

/- Children. -/

def Made (s t : Family) (child : WorkflowChild) : Prop :=
  child ∈ t.children ∧ child.identity ∉ s.children.map WorkflowChild.identity

theorem not_made {child : WorkflowChild} (same : t.children = s.children) : ¬ Made s t child := by
  rintro ⟨mem, new⟩
  exact new (List.mem_map_of_mem (same ▸ mem))

/-- While the item is unprocessed, its controller's task has ended, and forks no more. -/
theorem Saved.no_fork {call : ForkCall} (saved : s.Saved item b) (invariant : s.Invariant) :
    ¬ ForkAccepted s t call news := by
  intro accepted
  have current := invariant.obliged.current item saved.mem saved.unprocessed (.inl accepted.running)
  have same := current.activationId.symm.trans accepted.activationId
  obtain ⟨activation, found, _, ended, _⟩ := current.ended
  obtain ⟨activation', found', active⟩ := accepted.active
  rw [Option.some.inj same] at found
  obtain rfl := Option.some.inj (found.symm.trans found')
  exact ended active

theorem Saved.made {child : WorkflowChild} (saved : s.Saved item b) (invariant : s.Invariant)
    (step : Step sha256 s t) (made : Made s t child) (same : child.key = b.key) :
    child.resolved = b := by
  have sound := invariant.sound
  cases step with
  | claim id token now _ work claimed =>
    obtain ⟨_, _, _, _, rfl, _⟩ := claimWork_spec claimed
    exact absurd made (not_made rfl)
  | retry work reason bindings lockedAt now _ retried =>
    obtain ⟨rfl, _⟩ | ⟨_, _, ⟨_, u, grown, rfl⟩ | ⟨_, _, rfl⟩⟩ := retryWork_cases retried
    · exact absurd made (not_made rfl)
    · exact absurd made (not_made grown.same_children)
    · exact absurd made (not_made rfl)
  | reject work error lockedAt now _ rejected =>
    obtain rfl | ⟨_, _, u, grown, rfl⟩ := rejectWork_cases rejected
    · exact absurd made (not_made rfl)
    · exact absurd made (not_made grown.same_children)
  | fork call _ answer forked =>
    cases forkOnce_answered forked with
    | replayed => exact absurd made (not_made rfl)
    | refusedAgain => exact absurd made (not_made rfl)
    | accepted _ news _ _ accepted => exact absurd accepted (saved.no_fork invariant)
    | refused _ _ _ _ refused => exact absurd made (not_made (by rw [refused.same]))
  | elsewhere _ other => exact absurd (other.fewer.subset (List.mem_map_of_mem made.1)) made.2
  | apply call _ applied =>
    obtain ⟨rfl, _⟩ | ⟨old, held, u, at', ⟨news, registers, running⟩, rfl⟩ := applyWork_cases applied
    · exact absurd made (not_made rfl)
    · have inside : child ∈ news := by
        have mem : child ∈ s.children ++ news := registers.children ▸ made.1
        cases List.mem_append.mp mem with
        | inl before => exact absurd (List.mem_map_of_mem before) made.2
        | inr new => exact new
      have going : s.Open := by
        cases running with
        | inl nothing => simp [nothing] at inside
        | inr running => exact .inl running
      obtain rfl := invariant.obliged.only sound going held.mem held.unprocessed saved.mem
        saved.unprocessed
      obtain ⟨_, _, resolved, merged, found⟩ := registers.created child inside
      have pins := withPinned_pins merged
      have pinned := sound.pinned item saved.mem saved.unprocessed
      obtain ⟨bindings, there, mine⟩ := saved.saved
      rw [pinned.loadResolution] at pins
      have distinct := pins.distinct (by rw [Option.mem_def.mp there]; rfl)
      have key : child.resolved.key = b.key := same
      exact eq_of_keys distinct (Table.find_mem found) (pins.saved bindings there mine) key

/-- What is saved for a key binds every later call on the item. -/
structure Binds (sha256 : List Char → String) (s : Family) (item : WorkItem)
    (b : ResolvedWorkflowChild) : Prop where
  kept : ∃ bindings ∈ item.resolution, b ∈ bindings
  claimed : ∀ token now t work, s.claimWork item.id token now = .ok (t, work) →
    (∃ r ∈ work.resolvedChildren, r.key = b.key) ∧ ∀ r ∈ work.resolvedChildren, r.key = b.key →
      r = b ∨ ∃ child ∈ s.children, r = child.resolved
  retried : ∀ work reason supplied lockedAt now t, work.id = item.id → Differs supplied b →
    s.retryWork work reason supplied lockedAt now = .ok t →
      applicationDeadlineMs ≤ now - item.createdAt ∧ t.children = s.children ∧
        item.finished now ∈ t.work
  retryConflict : ∀ work reason supplied lockedAt now snapshot, Differs supplied b →
    s.status = .ok snapshot → s.lockWork work lockedAt = .ok (some item) →
      now - item.createdAt < applicationDeadlineMs → supplied.length ≤ workflowMaxCommands →
        s.retryWork work reason supplied lockedAt now = .error .conflict
  applied : ∀ call t, call.work.id = item.id → Differs call.resolved b →
    s.applyWork sha256 call = .ok t → ¬ s.Open ∧ t = s.finishWork item call.now
  applyConflict : ∀ call snapshot, Differs call.resolved b → s.status = .ok snapshot →
    s.lockWork call.work call.lockedAt = .ok (some item) → s.Open → call.configured = .ok () →
      s.applyWork sha256 call = .error .conflict
  made : ∀ t child, Step sha256 s t → Made s t child → child.key = b.key → child.resolved = b

theorem Saved.binds (saved : s.Saved item b) (invariant : s.Invariant) : Binds sha256 s item b where
  kept := saved.saved
  claimed := fun _ _ _ _ claimed => saved.claimed invariant.sound claimed
  retried := fun _ _ _ _ _ _ same differs retried =>
    saved.retried invariant.sound same differs retried
  retryConflict := fun _ _ _ _ _ _ differs readable locked timely few =>
    saved.retry_conflict invariant.sound differs readable locked timely few
  applied := fun _ _ same differs applied => saved.applied invariant same differs applied
  applyConflict := fun _ _ differs readable locked going configured =>
    saved.apply_conflict invariant differs readable locked going configured
  made := fun _ _ step made same => saved.made invariant step made same

/-- Whatever coordinators do in any order: what a retry saves answers the stored decision, and what is
saved binds every later call on the item until it is processed. -/
theorem checkpoints_pin (sha256 : List Char → String) (reachable : Reachable sha256 s)
    (mem : item ∈ s.work) (unprocessed : item.processedAt = none) :
    (∀ bindings ∈ item.resolution, (ResolvedWorkflowChild.keys bindings).Nodup ∧
      ∃ decision, s.Decides item decision ∧ ∀ b ∈ bindings, b.Answers decision.commands) ∧
    ∀ bindings ∈ item.resolution, ∀ b ∈ bindings, ∀ t, Run sha256 s t → ∀ item' ∈ t.work,
      item'.id = item.id → item'.processedAt = none → Binds sha256 t item' b := by
  have invariant := reachable.invariant
  have pinned := invariant.sound.pinned item mem unprocessed
  constructor
  · exact fun bindings saved => ⟨pinned.distinct bindings saved, pinned.answers bindings saved⟩
  · intro bindings saved b inside t run item' mem' same unprocessed'
    have before : s.Saved item b := ⟨mem, unprocessed, bindings, saved, inside⟩
    have later := before.later invariant run mem' same unprocessed'
    exact later.binds (Run.invariant run invariant)

end Family

/- A workflow whose controller asked for one task. -/

def sampleCommand : WorkflowChildCommand :=
  ⟨.task, "invoice", ⟨"invoice", "1.0.0"⟩, "python", nullValue, .default, 60000⟩

def sampleDecision : WorkflowDecision := ⟨1, "task-1", 0, .suspend "next" [sampleCommand] ["invoice"]⟩

theorem sampleDecision_valid : sampleDecision.validate = .ok () := by decide +kernel

def sampleStarted : WorkflowActivation :=
  ⟨"task-1", 0, .active, some "attempt-1", false, [], none⟩

def sampleEnded : WorkflowActivation :=
  { sampleStarted with
    taskState := .succeeded
    outcome := some (.succeeded (.ok ⟨sampleDecision, sampleDecision_valid⟩) none) }

def sampleFamily (state : WorkflowState) (activation : WorkflowActivation) (work : List WorkItem) :
    Family where
  workflow := ⟨none, none, "workflow-1", sampleScope, state, 0, some "task-1", 0, none, none⟩
  retiring := false
  origin := ⟨0, false, ⟨"key-1", sampleInput none, none⟩, sampleDescriptor⟩
  activations := [activation]
  children := []
  forks := []
  work := work
  budgets := .empty
  refusedAttempts := []

def sampleItem : WorkItem := ⟨"terminal:task-1", "task-1", 1000, 1000, none, 0, none, none, none⟩

def sampleWork (token : String) (bindings : List ResolvedWorkflowChild) : WorkflowWork :=
  ⟨"terminal:task-1", token, "workflow-1", .taskTerminal "task-1" true, bindings⟩

def sampleBinding : ResolvedWorkflowChild := ⟨.task, "invoice", sampleDescriptor⟩

def sampleOther : ResolvedWorkflowChild := ⟨.task, "invoice", { sampleDescriptor with size := 2 }⟩

def sampleRetried : WorkItem :=
  (sampleItem.claimed "token-1" 2000).retried "no such archive" (some [sampleBinding]) 2500

theorem sampleFamily_new : (sampleFamily .running sampleStarted []).New where
  retiring := rfl
  children := rfl
  forks := rfl
  work := rfl
  refusals := fun _ => rfl
  refusedAttempts := rfl

theorem sampleFamily_activation {state state' : WorkflowState} {work work' : List WorkItem}
    {activation activation' : WorkflowActivation} (same : activation'.activationId = activation.activationId)
    (continues : Family.Continues activation activation') :
    ∀ id found, (sampleFamily state activation work).activation id = some found →
      ∃ found', (sampleFamily state' activation' work').activation id = some found' ∧
        Family.Continues found found' := by
  intro id found known
  obtain rfl : found = activation := List.mem_singleton.mp (Table.find_mem known)
  obtain rfl := Table.find_key known
  exact ⟨activation', by simp [Family.activation, sampleFamily, Table.find, same], continues⟩

theorem sampleFamily_ends :
    (sampleFamily .running sampleStarted []).Elsewhere (sampleFamily .running sampleEnded [sampleItem]) where
  workflowId := rfl
  scope := rfl
  origin := rfl
  closed := fun closed => absurd (.inl rfl) closed
  terminal := fun ended => by cases ended
  running := fun _ _ => ⟨rfl, rfl, rfl⟩
  retiring := fun retiring => by cases retiring
  retired := fun retiring => by cases retiring
  fewer := .refl _
  children := fun _ => rfl
  lessForks := .refl _
  forks := fun _ => rfl
  refusals := fun _ => rfl
  refusedAttempts := rfl
  items := by simp [Table.Unique, sampleFamily]
  work := by simp [sampleFamily]
  newWork := by
    intro item mem
    obtain rfl := List.mem_singleton.mp mem
    refine .inr ⟨⟨rfl, rfl, rfl, rfl, rfl⟩, by simp [sampleFamily], rfl, fun _ => ?_⟩
    exact ⟨rfl, rfl, sampleEnded, rfl, rfl, by decide, rfl⟩
  outcomes := by
    intro item mem outcome known
    obtain rfl := List.mem_singleton.mp mem
    simp [Family.activation, sampleFamily, sampleItem, sampleStarted, Table.find] at known
  activations := fun _ =>
    sampleFamily_activation rfl ⟨rfl, fun ended => (by cases ended), fun _ _ nothing => (by cases nothing)⟩

theorem sampleFamily_cancelled (item : WorkItem) :
    (sampleFamily .running sampleEnded [item]).Elsewhere (sampleFamily .cancelling sampleEnded [item]) where
  workflowId := rfl
  scope := rfl
  origin := rfl
  closed := fun closed => absurd (.inl rfl) closed
  terminal := fun ended => by cases ended
  running := by
    rintro _ (going | going)
    · cases going
    · cases going
  retiring := fun retiring => by cases retiring
  retired := fun retiring => by cases retiring
  fewer := .refl _
  children := fun _ => rfl
  lessForks := .refl _
  forks := fun _ => rfl
  refusals := fun _ => rfl
  refusedAttempts := rfl
  items := by simp [Table.Unique, sampleFamily]
  work := fun _ mem _ => mem
  newWork := fun _ mem => .inl mem
  outcomes := fun _ _ _ known => known
  activations := fun _ =>
    sampleFamily_activation rfl ⟨rfl, fun _ => ⟨rfl, rfl⟩, fun _ attempt found => ⟨attempt, found, rfl⟩⟩

theorem sampleSaved_reachable (sha256 : List Char → String) :
    Family.Reachable sha256 (sampleFamily .running sampleEnded [sampleRetried]) := by
  let held := sampleFamily .running sampleEnded [sampleItem.claimed "token-1" 2000]
  have claimed : (sampleFamily .running sampleEnded [sampleItem]).claimWork "terminal:task-1" "token-1" 2000 =
      .ok (held, sampleWork "token-1" []) := rfl
  have readable : held.status = .ok held.workflow := by decide +kernel
  have locked : held.lockWork (sampleWork "token-1" []) 2400 =
      .ok (some (sampleItem.claimed "token-1" 2000)) := rfl
  have saved : held.saveResolution (sampleItem.claimed "token-1" 2000) [sampleBinding] =
      .ok [sampleBinding] := by decide +kernel
  have timely : ¬ applicationDeadlineMs ≤ 2500 - (sampleItem.claimed "token-1" 2000).createdAt := by
    decide
  have retried : held.retryWork (sampleWork "token-1" []) "no such archive" [sampleBinding] 2400 2500 =
      .ok (sampleFamily .running sampleEnded [sampleRetried]) := by
    simp only [Family.retryWork, readable, locked, saved, timely, ok_bind, if_false,
      List.cons_ne_nil]
    rfl
  refine ⟨_, sampleFamily_new, ?_⟩
  refine .tail (.tail (.tail .refl (.elsewhere _ sampleFamily_ends)) (.claim _ _ _ _ _ claimed)) ?_
  exact .retry _ _ _ _ _ _ retried

/-- The retry that saved the binding binds the item from then on. -/
theorem sampleSaved_binds :
    Family.Binds (fun _ => "") (sampleFamily .running sampleEnded [sampleRetried]) sampleRetried
      sampleBinding :=
  (Family.checkpoints_pin _ (sampleSaved_reachable _) (List.mem_singleton.mpr rfl) rfl).2
    [sampleBinding] rfl sampleBinding (List.mem_singleton.mpr rfl) _ .refl _
    (List.mem_singleton.mpr rfl) rfl rfl

def sampleApply (resolved : List ResolvedWorkflowChild) : ApplyCall where
  work := sampleWork "token-2" [sampleBinding]
  resolved := resolved
  ids := fun _ => ⟨"workflow-2", "task-2", "run-2"⟩
  configured := .ok ()
  contextChecked := .ok ()
  installed := .ok none
  scheduled := .ok "task-3"
  completable := .ok ()
  lockedAt := 4000
  now := 4000
  delegatedAt := 4000
  expiredAt := 4000
  recordedAt := 4000
  appliedAt := 4000
  committedAt := 4000

/-- Of a workflow that is cancelled meanwhile, the decision is dropped, whatever binding is supplied. -/
theorem cancelled_takes_any : ¬ ∀ (sha256 : List Char → String) (s : Family) (item : WorkItem)
    (b : ResolvedWorkflowChild) (call : ApplyCall), s.Reachable sha256 → s.Saved item b →
      call.work.id = item.id → Family.Differs call.resolved b →
        s.applyWork sha256 call = .error .conflict := by
  intro always
  let again := sampleRetried.claimed "token-2" 3500
  let cancelled := sampleFamily .cancelling sampleEnded [again]
  have claimed :
      (sampleFamily .running sampleEnded [sampleRetried]).claimWork "terminal:task-1" "token-2" 3500 =
      .ok (sampleFamily .running sampleEnded [again], sampleWork "token-2" [sampleBinding]) := rfl
  have reachable : cancelled.Reachable fun _ => "" := by
    obtain ⟨new, fresh, run⟩ := sampleSaved_reachable fun _ => ""
    exact ⟨new, fresh, .tail (.tail run (.claim _ _ _ _ _ claimed)) (.elsewhere _ (sampleFamily_cancelled _))⟩
  have saved : cancelled.Saved again sampleBinding :=
    ⟨List.mem_singleton.mpr rfl, rfl, [sampleBinding], rfl, List.mem_singleton.mpr rfl⟩
  have differs : Family.Differs (sampleApply [sampleOther]).resolved sampleBinding :=
    ⟨sampleOther, List.mem_singleton.mpr rfl, rfl, by decide⟩
  have refused := always _ _ _ _ (sampleApply [sampleOther]) reachable saved rfl differs
  have readable : cancelled.status = .ok cancelled.workflow := by decide +kernel
  have locked : cancelled.lockWork (sampleApply [sampleOther]).work 4000 = .ok (some again) := rfl
  have accepted : cancelled.applyWork (fun _ => "") (sampleApply [sampleOther]) =
      .ok (cancelled.finishWork again 4000) := by
    simp only [Family.applyWork, readable, ok_bind]
    rfl
  rw [accepted] at refused
  cases refused

end Ledgence
