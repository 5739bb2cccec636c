import Ledgence.Workflows.Growth

/-! What a coordinator may do to an item of work: the bindings that a retry saves, and what becomes of
them. -/
open Kit Kit.Checked

namespace Ledgence

/- Merging. -/

variable {previous supplied bindings : List ResolvedWorkflowChild}
  {resolution : Option (List ResolvedWorkflowChild)}

def ResolvedWorkflowChild.keys (bindings : List ResolvedWorkflowChild) : List String :=
  bindings.map ResolvedWorkflowChild.key

structure Pins (resolution : Option (List ResolvedWorkflowChild))
    (supplied bindings : List ResolvedWorkflowChild) : Prop where
  saved : ∀ previous ∈ resolution, previous ⊆ bindings
  given : supplied ⊆ bindings
  distinct : resolution.isSome = true → (ResolvedWorkflowChild.keys bindings).Nodup

theorem merged_entries {m : OrderedMap String ResolvedWorkflowChild}
    (named : ∀ k b, m.find k = some b → b.key = k) :
    (ResolvedWorkflowChild.keys (m.entries.map Prod.snd)).Nodup ∧
      ∀ b, b ∈ m.entries.map Prod.snd ↔ m.find b.key = some b := by
  have own : ∀ e ∈ m.entries, e.2.key = e.1 := fun e mem =>
    named e.1 e.2 (OrderedMap.find_eq_some.mpr mem)
  constructor
  · have same : ResolvedWorkflowChild.keys (m.entries.map Prod.snd) = m.keys := by
      rw [ResolvedWorkflowChild.keys, List.map_map]
      exact List.map_congr_left own
    rw [same]
    exact OrderedMap.keys_nodup
  · intro b
    rw [List.mem_map]
    constructor
    · rintro ⟨e, mem, rfl⟩
      rw [own e mem]
      exact OrderedMap.find_eq_some.mpr mem
    · intro found
      exact ⟨_, OrderedMap.find_eq_some.mp found, rfl⟩

theorem withPinned_pins (merged : withPinned resolution supplied = .ok bindings) :
    Pins resolution supplied bindings := by
  cases resolution with
  | none =>
    obtain rfl := pure_eq_ok.mp merged
    exact ⟨by simp, List.Subset.refl _, by simp⟩
  | some previous =>
    simp only [withPinned, bind_eq_ok, pure_eq_ok] at merged
    obtain ⟨m, first, m', second, rfl⟩ := merged
    have here : OrderedMap.Merged ResolvedWorkflowChild.key _ _ _ :=
      OrderedMap.foldlM_merged (fun m b m' step => by
        simp only [bind_eq_ok, refuse_eq_ok, exists_unit, pure_eq_ok] at step
        refine ⟨step.2.symm, fun old found => ?_⟩
        exact absurd (OrderedMap.mem_keys_of_find found) step.1) first
    have there : OrderedMap.Merged ResolvedWorkflowChild.key _ _ _ :=
      OrderedMap.foldlM_merged (fun m b m' step => by
        simp only [bind_eq_ok, refuse_eq_ok, exists_unit, pure_eq_ok] at step
        refine ⟨step.2.symm, fun old found => ?_⟩
        by_contra other
        exact step.1 ⟨old, found, other⟩) second
    have named : ∀ k b, m'.find k = some b → b.key = k := by
      intro k b found
      cases there.only k b found with
      | inr saved => exact saved.2
      | inl old =>
        cases here.only k b old with
        | inr new => exact new.2
        | inl nothing => simp [OrderedMap.find, OrderedMap.empty, Table.find] at nothing
    obtain ⟨distinct, mem⟩ := merged_entries named
    exact
      { saved := by
          rintro _ ⟨⟩ b saved
          exact (mem b).mpr (there.added b saved)
        given := fun b new => (mem b).mpr (there.kept _ _ (here.added b new))
        distinct := fun _ => distinct }

theorem withPinned_error {e : ContractError} (failed : withPinned resolution supplied = .error e) :
    e = .conflict := by
  cases resolution with
  | none => simp [withPinned, pure, Except.pure] at failed
  | some previous =>
    have refused : ∀ {c : Prop} [Decidable c] {x : Result (OrderedMap String ResolvedWorkflowChild)}
        {m e'}, x = .ok m → (refuse c ContractError.conflict >>= fun _ => x) = .error e' →
        e' = .conflict := by
      intro c _ x m e' fine failed
      by_cases here : c
      · simp only [refuse, here, if_true, error_bind, Except.error.injEq] at failed
        exact failed.symm
      · simp [refuse, here, fine] at failed
    simp only [withPinned] at failed
    cases first : supplied.foldlM (fun (combined : OrderedMap String ResolvedWorkflowChild) item => do
      refuse (item.key ∈ combined.keys) ContractError.conflict
      return combined.insert item.key item) .empty with
    | error e₁ =>
      rw [first, error_bind] at failed
      obtain rfl := Except.error.inj failed
      exact foldlM_error (fun _ _ _ step => refused rfl step) first
    | ok m =>
      rw [first, ok_bind] at failed
      cases second : previous.foldlM (fun (combined : OrderedMap String ResolvedWorkflowChild) item => do
        refuse (∃ new ∈ combined.find item.key, new ≠ item) ContractError.conflict
        return combined.insert item.key item) m with
      | error e₂ =>
        rw [second, error_bind] at failed
        obtain rfl := Except.error.inj failed
        exact foldlM_error (fun _ _ _ step => refused rfl step) second
      | ok m' =>
        rw [second, ok_bind] at failed
        cases failed

theorem eq_of_keys (distinct : (ResolvedWorkflowChild.keys bindings).Nodup)
    {b c : ResolvedWorkflowChild} (hb : b ∈ bindings) (hc : c ∈ bindings) (same : b.key = c.key) :
    b = c :=
  List.inj_on_of_nodup_map distinct hb hc same

/-- A binding that differs from the one saved under its key is refused. -/
theorem withPinned_conflict {b c : ResolvedWorkflowChild} (saved : b ∈ previous)
    (new : c ∈ supplied) (same : c.key = b.key) (other : c ≠ b) :
    withPinned (some previous) supplied = .error .conflict := by
  cases merged : withPinned (some previous) supplied with
  | error e => rw [withPinned_error merged]
  | ok bindings =>
    have pins := withPinned_pins merged
    have one := eq_of_keys (pins.distinct rfl) (pins.given new) (pins.saved previous rfl saved) same
    exact absurd one other

/- Matching. -/

def ResolvedWorkflowChild.Answers (b : ResolvedWorkflowChild) (commands : List WorkflowChildCommand) :
    Prop :=
  ∃ command ∈ commands, command.key = b.key ∧ command.kind = b.kind ∧
    command.program = b.descriptor.program

theorem matchBindings_spec {commands : List WorkflowChildCommand}
    (matched : matchBindings commands bindings = .ok ()) :
    (ResolvedWorkflowChild.keys bindings).Nodup ∧ ∀ b ∈ bindings, b.Answers commands := by
  induction bindings generalizing commands with
  | nil => simp [ResolvedWorkflowChild.keys]
  | cons b bindings ih =>
    simp only [matchBindings, bind_eq_ok, okOr_eq_ok, refuse_eq_ok, exists_unit, not_or, not_not]
      at matched
    obtain ⟨command, found, ⟨kind, program⟩, _, rest⟩ := matched
    obtain ⟨distinct, answers⟩ := ih rest
    constructor
    · rw [ResolvedWorkflowChild.keys, List.map_cons, List.nodup_cons]
      refine ⟨fun again => ?_, distinct⟩
      obtain ⟨c, mem, same⟩ := List.mem_map.mp again
      obtain ⟨other, left, key, _⟩ := answers c mem
      have apart : other.key ≠ b.key := by simpa using (List.mem_filter.mp left).2
      exact apart (key.trans same)
    · intro c mem
      cases List.mem_cons.mp mem with
      | inl here =>
        subst here
        exact ⟨command, Table.find_mem found, Table.find_key found, kind.symm, program.symm⟩
      | inr later =>
        obtain ⟨other, left, answer⟩ := answers c later
        exact ⟨other, (List.mem_filter.mp left).1, answer⟩

/- Items. -/

namespace Family
variable {s t : Family} {work : WorkflowWork} {item : WorkItem} {now lockedAt : Nat}

def Decides (s : Family) (item : WorkItem) (decision : WorkflowDecision) : Prop :=
  ∃ decoded trace, (s.activation item.taskId).bind WorkflowActivation.outcome =
    some (.succeeded (.ok decoded) trace) ∧ decoded.decision = decision

structure Held (s : Family) (work : WorkflowWork) (now : Nat) (item : WorkItem) : Prop where
  mem : item ∈ s.work
  id : item.id = work.id
  unprocessed : item.processedAt = none
  lease : ∃ lease ∈ item.lease, lease.1 = work.token ∧ now < lease.2

theorem lockWork_some (locked : s.lockWork work now = .ok (some item)) : s.Held work now item := by
  simp only [lockWork, bind_eq_ok, okOr_eq_ok, refuse_eq_ok, exists_unit] at locked
  obtain ⟨row, found, _, locked⟩ := locked
  split at locked
  · cases locked
  · next unprocessed =>
    simp only [bind_eq_ok, refuse_eq_ok, exists_unit, pure_eq_ok, Option.some.injEq, not_not] at locked
    obtain ⟨lease, _, rfl⟩ := locked
    exact ⟨Table.find_mem found, Table.find_key found, by simpa using unprocessed, lease⟩

theorem lockWork_none (locked : s.lockWork work now = .ok none) :
    ∃ item ∈ s.work, item.id = work.id ∧ item.processedAt ≠ none := by
  simp only [lockWork, bind_eq_ok, okOr_eq_ok, refuse_eq_ok, exists_unit] at locked
  obtain ⟨row, found, _, locked⟩ := locked
  split at locked
  · next processed =>
    exact ⟨row, Table.find_mem found, Table.find_key found,
      by simpa [Option.isSome_iff_ne_none] using processed⟩
  · simp only [bind_eq_ok, exists_unit, pure_eq_ok, reduceCtorEq, and_false] at locked

theorem saveResolution_spec {supplied bindings : List ResolvedWorkflowChild}
    (saved : s.saveResolution item supplied = .ok bindings) :
    Pins item.loadResolution supplied bindings ∧ (ResolvedWorkflowChild.keys bindings).Nodup ∧
      ∃ decision, s.Decides item decision ∧ ∀ b ∈ bindings, b.Answers decision.commands := by
  simp only [saveResolution, bind_eq_ok, refuse_eq_ok, exists_unit] at saved
  obtain ⟨_, saved⟩ := saved
  split at saved
  · next decoded trace known =>
    simp only [bind_eq_ok, refuse_eq_ok, exists_unit, pure_eq_ok] at saved
    obtain ⟨decision, rfl, _, _, merged, matched, _, rfl⟩ := saved
    obtain ⟨distinct, answers⟩ := matchBindings_spec matched
    exact ⟨withPinned_pins merged, distinct, _, ⟨decision, trace, known, rfl⟩, answers⟩
  · cases saved

/-- The checkpoint that a retry leaves: the old one, or the supplied bindings merged into it. -/
inductive Checkpoint (s : Family) (item : WorkItem) (supplied : List ResolvedWorkflowChild) :
    Option (List ResolvedWorkflowChild) → Prop
  | old : supplied = [] → Checkpoint s item supplied item.resolution
  | merged (bindings : List ResolvedWorkflowChild) : s.saveResolution item supplied = .ok bindings →
    Checkpoint s item supplied (some bindings)

/-- A retry puts the item off, unless it is processed already or its time is over. -/
theorem retryWork_cases {reason : String} {supplied : List ResolvedWorkflowChild}
    (retried : s.retryWork work reason supplied lockedAt now = .ok t) :
    (t = s ∧ ∃ item ∈ s.work, item.id = work.id ∧ item.processedAt ≠ none) ∨
      ∃ item, s.Held work lockedAt item ∧
        ((applicationDeadlineMs ≤ now - item.createdAt ∧
            ∃ u, Grown s u [] ∧ t = u.finishWork item now) ∨
          ∃ resolution, Checkpoint s item supplied resolution ∧
            t = s.putWork (item.retried reason resolution now)) := by
  simp only [retryWork, bind_eq_ok] at retried
  obtain ⟨_, _, locked, lock, retried⟩ := retried
  cases locked with
  | none =>
    obtain rfl := pure_eq_ok.mp retried
    exact .inl ⟨rfl, lockWork_none lock⟩
  | some item =>
    refine .inr ⟨item, lockWork_some lock, ?_⟩
    simp only at retried
    split at retried
    · next late =>
      simp only [bind_eq_ok, pure_eq_ok] at retried
      obtain ⟨u, failed, rfl⟩ := retried
      exact .inl ⟨late, u, failRun_grown failed, rfl⟩
    · split at retried
      · next nothing =>
        simp only [pure_bind, pure_eq_ok] at retried
        exact .inr ⟨_, .old nothing, retried.symm⟩
      · simp only [bind_eq_ok, map_eq_ok, pure_eq_ok] at retried
        obtain ⟨_, ⟨bindings, saved, rfl⟩, rfl⟩ := retried
        exact .inr ⟨_, .merged bindings saved, rfl⟩

theorem rejectWork_cases {error : ApplicationError}
    (rejected : s.rejectWork work error lockedAt now = .ok t) :
    t = s ∨ ∃ item, s.Held work lockedAt item ∧ ∃ u, Grown s u [] ∧ t = u.finishWork item now := by
  simp only [rejectWork, bind_eq_ok, exists_unit] at rejected
  obtain ⟨_, _, _, locked, lock, rejected⟩ := rejected
  cases locked with
  | none =>
    obtain rfl := pure_eq_ok.mp rejected
    exact .inl rfl
  | some item =>
    simp only [bind_eq_ok, pure_eq_ok] at rejected
    obtain ⟨u, failed, rfl⟩ := rejected
    exact .inr ⟨item, lockWork_some lock, u, failRun_grown failed, rfl⟩

/-- An application that is accepted processes the item, with the children of its decision. -/
theorem applyWork_cases {sha256 : List Char → String} {call : ApplyCall}
    (applied : s.applyWork sha256 call = .ok t) :
    (t = s ∧ ∃ item ∈ s.work, item.id = call.work.id ∧ item.processedAt ≠ none) ∨
      ∃ item, s.Held call.work call.lockedAt item ∧ ∃ u at', Decided s u item call.resolved ∧
        t = u.finishWork item at' := by
  simp only [applyWork, bind_eq_ok] at applied
  obtain ⟨_, _, locked, lock, applied⟩ := applied
  cases locked with
  | none =>
    obtain rfl := pure_eq_ok.mp applied
    exact .inl ⟨rfl, lockWork_none lock⟩
  | some item =>
    refine .inr ⟨item, lockWork_some lock, ?_⟩
    simp only at applied
    split at applied
    · obtain rfl := pure_eq_ok.mp applied
      exact ⟨s, call.now, (Grown.refl s).decided, rfl⟩
    · simp only [bind_eq_ok, refuse_eq_ok, exists_unit, pure_eq_ok] at applied
      obtain ⟨_, _, u, decided, _, rfl⟩ := applied
      exact ⟨u, call.appliedAt, applyOutcome_decided decided, rfl⟩

theorem claimWork_spec {id token : String} (claimed : s.claimWork id token now = .ok (t, work)) :
    ∃ item ∈ s.work, item.id = id ∧ item.Due now ∧ t = s.putWork (item.claimed token now) ∧
      work.resolvedChildren = s.resolvedChildren (item.claimed token now) := by
  simp only [claimWork, bind_eq_ok, okOr_eq_ok, refuse_eq_ok, exists_unit, pure_eq_ok,
    Prod.mk.injEq, not_not] at claimed
  obtain ⟨item, found, due, _, _, rfl, rfl⟩ := claimed
  exact ⟨item, Table.find_mem found, Table.find_key found, due, rfl, rfl⟩

end Family
end Ledgence
