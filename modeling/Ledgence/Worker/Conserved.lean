import Ledgence.Worker.Conservation
import Mathlib.Data.List.Induction

/-! The slots of a worker over whole runs of its operations. -/
open Kit Kit.Checked

namespace Ledgence
namespace WorkerPool
namespace Worker
variable {w w' : Worker} {others : List Holding} {op op' : Operation}

theorem advance_spec {stage : Stage} {event : Event}
    (holds : w.pool.Holds w.concurrency (stage.holdings ++ others)) :
    Ensures Fault.Any (w.advance stage event) fun r =>
      ∀ t ∈ r, Turned w.concurrency others w.pool stage event t := by
  have lift {x : Outcome (Pool × Stage)}
      (spec : Ensures Fault.Any x (Turned w.concurrency others w.pool stage event)) :
      Ensures Fault.Any (some <$> x) fun r =>
        ∀ t ∈ r, Turned w.concurrency others w.pool stage event t := by
    rw [ensures_map]
    refine spec.mono fun r turned t same => ?_
    obtain rfl : r = t := by simpa using same
    exact turned
  have now' {r : Pool × Stage} (turned : Turned w.concurrency others w.pool stage event r) :
      Ensures Fault.Any (.ok (some r) : Outcome (Option (Pool × Stage))) fun r =>
        ∀ t ∈ r, Turned w.concurrency others w.pool stage event t := by
    rintro t ⟨⟩
    exact turned
  rw [advance.eq_def]
  split
  · exact lift (session_spec holds _)
  · exact now' (retireIdle_spec holds)
  · exact lift (mark_spec holds rfl (by simp) (by simp))
  · exact lift (replaced_spec holds _)
  · exact lift (start_spec holds _ _)
  · exact lift (started_spec holds _)
  · rw [ensures_bind]
    refine (execute_spec holds _).mono fun p turned => ?_
    rintro t ⟨⟩
    exact turned
  · exact lift (reuse_spec holds)
  · exact lift (mark_spec holds rfl (by simp) (by simp))
  · exact lift (mark_spec holds rfl (by simp) (by simp))
  · exact lift (closed_spec holds rfl rfl (fun isClosed => by rw [isClosed]; rfl) (by simp))
  · exact now' (.of_keys holds rfl (by simp) (by simp))
  · exact now' (popAny_spec holds _ _)
  · exact lift (mark_spec holds rfl (by simp) (by simp))
  · exact lift (closed_spec holds rfl rfl (by simp) (by simp))
  · exact lift (closed_spec holds rfl rfl (fun isClosed => by rw [isClosed]; rfl) (by simp))
  · exact now' (.of_keys holds rfl (by simp) (by simp))
  · simp

def held (w : Worker) : List Holding := w.operations.flatMap fun op => op.stage.holdings

structure Kept (w : Worker) : Prop where
  unique : Table.Unique Operation.id w.operations
  older : ∀ op ∈ w.operations, op.id < w.nextId
  holds : w.pool.Holds w.concurrency w.held

theorem held_split (unique : Table.Unique Operation.id w.operations) (mem : op ∈ w.operations)
    (op' : Operation) (same : op.id = op'.id) : ∃ others, w.held.Perm (op.stage.holdings ++ others) ∧
      ((Table.put Operation.id op' w.operations).flatMap fun op => op.stage.holdings).Perm
        (op'.stage.holdings ++ others) := by
  obtain ⟨before, after, split, put⟩ := Table.exists_split_put unique mem same
  refine ⟨before.flatMap (fun op => op.stage.holdings) ++ after.flatMap fun op => op.stage.holdings,
    ?_, ?_⟩
  · rw [held, split, List.flatMap_append, List.flatMap_cons]
    exact List.perm_append_comm_assoc _ _ _
  · rw [put, List.flatMap_append, List.flatMap_cons]
    exact List.perm_append_comm_assoc _ _ _

structure Stepped (w : Worker) (a : Action) (w' : Worker) : Prop where
  kept : Kept w'
  concurrency : w'.concurrency = w.concurrency
  left : ∀ id ∈ w.pool.slots.keys, id ∉ w'.pool.slots.keys →
    ∃ op ∈ w.operations, ∃ event, a = .proceed op.id event ∧ Vacated op.stage event id
  warm : ∀ op ∈ w.operations, ∀ request, a = .proceed op.id (.session request) →
    op.stage = .admitted → ∀ op' ∈ w'.operations, op'.id = op.id → ∀ session,
      op'.stage = .owned session → session ∈ w.pool.idle ∧ session.key = request.key ∧
        Records w.pool.slots session.slot.id request.key
  complete : ∀ op' ∈ w'.operations, op'.stage = .stopped true → op' ∈ w.operations ∨
    w'.pool.slots.keys = [] ∧ w'.unresolvedOperations = 0

/-- Sections that do not proceed with an operation leave the slots alone. -/
theorem Stepped.aside {a : Action} (kept : Kept w') (concurrency : w'.concurrency = w.concurrency)
    (pool : w'.pool = w.pool) (noProceed : ∀ id event, a ≠ .proceed id event)
    (operations : ∀ op ∈ w'.operations, op.stage = .stopped true → op ∈ w.operations) :
    Stepped w a w' where
  kept := kept
  concurrency := concurrency
  left id mem gone := by
    rw [pool] at gone
    exact absurd mem gone
  warm op _ request same := absurd same (noProceed _ _)
  complete op' mem stopped := .inl (operations op' mem stopped)

theorem Kept.begin (kept : Kept w) {stage : Stage} (idle : stage.holdings = []) :
    Kept (w.begin' stage) where
  unique := Table.unique_append kept.unique fun op mem => (kept.older op mem).ne
  older op mem := by
    obtain old | new := List.mem_append.mp mem
    · exact Nat.lt_succ_of_lt (kept.older op old)
    · rw [List.mem_singleton.mp new]
      exact Nat.lt_succ_self _
  holds := by
    have same : (w.begin' stage).held = w.held := by simp [begin', held, idle]
    rw [same]
    exact kept.holds

theorem flatMap_filter {α β : Type} {f : α → List β} {p : α → Bool} {xs : List α}
    (idle : ∀ x ∈ xs, p x = false → f x = []) : (xs.filter p).flatMap f = xs.flatMap f := by
  induction xs with
  | nil => rfl
  | cons x xs ih =>
    have rest := ih fun y mem => idle y (by simp [mem])
    cases keeps : p x with
    | true => rw [List.filter_cons_of_pos keeps, List.flatMap_cons, List.flatMap_cons, rest]
    | false =>
      rw [List.filter_cons_of_neg (by simp [keeps]), List.flatMap_cons, idle x (by simp) keeps, rest,
        List.nil_append]

theorem Kept.finish (kept : Kept w) (mem : op ∈ w.operations) (idle : op.stage.holdings = []) :
    Kept { w with operations := w.operations.filter fun r => r.id ≠ op.id } where
  unique := Table.unique_filter kept.unique _
  older r mem' := kept.older r (List.mem_filter.mp mem').1
  holds := by
    have same : Worker.held { w with operations := w.operations.filter fun r => r.id ≠ op.id } =
        w.held := by
      refine flatMap_filter fun r mem' gone => ?_
      obtain rfl := Table.eq_of_key kept.unique mem' mem (by simpa using gone)
      exact idle
    rw [same]
    exact kept.holds

theorem advance_check {stage stage' : Stage} {p : Pool}
    (moved : w.advance stage .check = .ok (some (p, stage'))) : p = w.pool ∧
      (stage' = .stopped true → w.pool.slots.keys = [] ∧ w.unresolvedOperations = 0) := by
  cases stage with
  | checking =>
    simp only [advance, Except.ok.injEq, Option.some.injEq, Prod.mk.injEq] at moved
    obtain ⟨rfl, rfl⟩ := moved
    simp
  | _ => simp [advance] at moved

theorem proceed_spec (kept : Kept w) (mem : op ∈ w.operations) (event : Event) :
    ∃ w', w.proceed op event = .ok w' ∧ Stepped w (.proceed op.id event) w' := by
  obtain ⟨others, all, -⟩ := held_split kept.unique mem op rfl
  have holds : w.pool.Holds w.concurrency (op.stage.holdings ++ others) :=
    Sound.perm kept.holds (all.append_right _)
  have spec : Ensures Fault.Any (w.advance op.stage event) _ := advance_spec holds
  cases moved : w.advance op.stage event with
  | error fault => exact absurd trivial (spec.error moved)
  | ok r =>
    cases r with
    | none =>
      refine ⟨w, by rw [proceed, moved, ok_bind]; rfl, kept, rfl, fun id there gone => absurd there gone, ?_,
        fun op' mem' _ => .inl mem'⟩
      intro op₁ mem₁ request same admitted
      obtain ⟨sameId, rfl⟩ : op.id = op₁.id ∧ event = .session request := by simpa using same
      obtain rfl := Table.eq_of_key kept.unique mem mem₁ sameId
      rw [admitted, advance] at moved
      cases found : w.pool.session w.concurrency request with
      | error fault => simp [found] at moved
      | ok r => simp [found] at moved
    | some r =>
      obtain ⟨p, stage⟩ := r
      let op' : Operation := { op with stage }
      have sameOp : op.id = op'.id := rfl
      obtain ⟨others', before, after⟩ := held_split kept.unique mem op' sameOp
      have turned : Turned w.concurrency others' w.pool op.stage event (p, stage) :=
        (advance_spec (Sound.perm kept.holds (before.append_right _))).ok moved (p, stage) rfl
      let w' : Worker :=
        { w with
          pool := p
          operations := Table.put Operation.id op' w.operations
          accepting := w.accepting && !event.failsClosed }
      have proceeds : w.proceed op event = .ok w' := by
        rw [proceed, moved, ok_bind]
        rfl
      refine ⟨w', proceeds, ⟨?_, ?_, ?_⟩, rfl, ?_, ?_, ?_⟩
      · exact Table.unique_put kept.unique
      · intro r in'
        obtain rfl | ⟨in', -⟩ := Table.mem_put in'
        · exact kept.older op mem
        · exact kept.older r in'
      · exact Sound.perm turned.holds (after.symm.append_right _)
      · intro id there gone
        exact ⟨op, mem, event, rfl, turned.left id there gone⟩
      · intro op₁ mem₁ request same admitted r in' sameId session owns
        obtain ⟨sameId₁, rfl⟩ : op.id = op₁.id ∧ event = .session request := by simpa using same
        obtain rfl | ⟨-, other⟩ := Table.mem_put in'
        · exact turned.warm request rfl session owns
        · exact absurd (sameId.trans sameId₁.symm) other
      · intro r in' stopped
        obtain rfl | ⟨in', -⟩ := Table.mem_put in'
        · have isCheck : event = .check := by
            by_contra other
            exact turned.running other stopped
          subst isCheck
          obtain ⟨rfl, empty⟩ := advance_check moved
          exact .inr (empty stopped)
        · exact .inl in'

/-- No critical section fails, and each keeps the account of the slots. -/
theorem step_spec (kept : Kept w) (a : Action) : ∃ w', w.step a = .ok w' ∧ Stepped w a w' := by
  cases a with
  | invoke =>
    refine ⟨_, rfl, ?_⟩
    split
    · refine .aside (kept.begin rfl) rfl rfl (by simp) fun op mem stopped => ?_
      obtain old | new := List.mem_append.mp mem
      · exact old
      · rw [List.mem_singleton.mp new] at stopped
        cases stopped
    · exact .aside kept rfl rfl (by simp) fun op mem _ => mem
  | shutdown =>
    refine ⟨_, rfl, ?_⟩
    split
    · exact .aside kept rfl rfl (by simp) fun op mem _ => mem
    · have closed : Kept { w with accepting := false } := ⟨kept.unique, kept.older, kept.holds⟩
      refine .aside (closed.begin rfl) rfl rfl (by simp) fun op mem stopped => ?_
      obtain old | new := List.mem_append.mp mem
      · exact old
      · rw [List.mem_singleton.mp new] at stopped
        cases stopped
  | proceed id event =>
    rw [step]
    cases found : Table.find Operation.id id w.operations with
    | none =>
      refine ⟨w, rfl, kept, rfl, fun id there gone => absurd there gone, ?_, fun op mem _ => .inl mem⟩
      intro op mem request same
      obtain ⟨sameId, -⟩ : id = op.id ∧ event = .session request := by simpa using same
      exact absurd sameId.symm (Table.find_eq_none.mp found op mem)
    | some op =>
      obtain rfl : op.id = id := Table.find_key found
      exact proceed_spec kept (Table.find_mem found) event
  | finish id =>
    rw [step]
    cases found : Table.find Operation.id id w.operations with
    | none => exact ⟨w, rfl, .aside kept rfl rfl (by simp) fun op mem _ => mem⟩
    | some op =>
      obtain rfl : op.id = id := Table.find_key found
      have mem := Table.find_mem found
      have finished (idle : op.stage.holdings = []) : Stepped w (.finish op.id)
          { w with operations := w.operations.filter fun r => r.id ≠ op.id } :=
        .aside (kept.finish mem idle) rfl rfl (by simp) fun r mem' _ => (List.mem_filter.mp mem').1
      obtain ⟨id, stage⟩ := op
      cases stage with
      | admitted => exact ⟨_, rfl, finished rfl⟩
      | stopped complete => exact ⟨_, rfl, finished rfl⟩
      | _ => exact ⟨w, rfl, .aside kept rfl rfl (by simp) fun op mem _ => mem⟩
  | unresolved =>
    refine ⟨_, rfl, .aside ⟨kept.unique, kept.older, kept.holds⟩ rfl rfl (by simp) fun op mem _ => mem⟩

theorem init_kept (concurrency : Nat) : Kept (init concurrency) where
  unique := List.nodup_nil
  older := by simp [init]
  holds := ⟨by simp [init, Pool.init], by simp [init, Pool.init, held, Pool.holdings],
    by simp [init, Pool.init, held, Pool.holdings]⟩

theorem run_spec (concurrency : Nat) (actions : List Action) :
    ∃ w, run concurrency actions = .ok w ∧ Kept w ∧ w.concurrency = concurrency := by
  induction actions using List.reverseRecOn with
  | nil => exact ⟨init concurrency, rfl, init_kept concurrency, rfl⟩
  | append_singleton actions a ih =>
    obtain ⟨w, done, kept, same⟩ := ih
    obtain ⟨w', stepped, next⟩ := step_spec kept a
    refine ⟨w', ?_, next.kept, next.concurrency.trans same⟩
    rw [run, List.foldlM_append, ← run, done]
    exact (bind_pure _).trans stepped

def tokens (w : Worker) : List Nat := (w.held ++ w.pool.holdings).map Holding.slot

/-- Over any run of a worker's operations no slot is lost, shared, or freed too early. -/
theorem slots_conserved (concurrency : Nat) (actions : List Action) :
    ∃ w, run concurrency actions = .ok w ∧
      w.pool.slots.keys.length ≤ concurrency ∧
      w.tokens.Nodup ∧ w.tokens.Perm w.pool.slots.keys ∧
      (w.pool.slots.keys.length < concurrency → ∃ pool slot,
        w.pool.reserveSlot concurrency = .ok (pool, slot) ∧ slot.id < concurrency ∧
        slot.id ∉ w.pool.slots.keys ∧ ∀ id < slot.id, id ∈ w.pool.slots.keys) ∧
      ∀ a, ∃ w', w.step a = .ok w' ∧
        (∀ op ∈ w.operations, ∀ request, a = .proceed op.id (.session request) →
          op.stage = .admitted → ∀ op' ∈ w'.operations, op'.id = op.id → ∀ session,
          op'.stage = .owned session → session ∈ w.pool.idle ∧ session.key = request.key ∧
            Records w.pool.slots session.slot.id request.key) ∧
        (∀ id ∈ w.pool.slots.keys, id ∉ w'.pool.slots.keys →
          ∃ op ∈ w.operations, ∃ event, a = .proceed op.id event ∧ Vacated op.stage event id) ∧
        ∀ op' ∈ w'.operations, op'.stage = .stopped true → op' ∈ w.operations ∨
          w'.unresolvedOperations = 0 ∧ w'.tokens = [] := by
  obtain ⟨w, done, kept, rfl⟩ := run_spec concurrency actions
  have sound : Sound w.concurrency w.pool.slots (w.held ++ w.pool.holdings) := kept.holds
  refine ⟨w, done, ?_, sound.nodup, sound.tokens, fun room => ?_, fun a => ?_⟩
  · have within : w.pool.slots.keys ⊆ List.range w.concurrency := fun id mem => by
      simpa using sound.bounded id mem
    simpa using (List.subperm_of_subset OrderedMap.keys_nodup within).length_le
  · obtain ⟨id, reserved, below, absent, least⟩ := reserveSlot_eq room
    exact ⟨_, _, reserved, below, absent, least⟩
  · obtain ⟨w', stepped, next⟩ := step_spec kept a
    refine ⟨w', stepped, next.warm, next.left, fun op' mem stopped => ?_⟩
    obtain old | ⟨empty, resolved⟩ := next.complete op' mem stopped
    · exact .inl old
    · have after : Sound w'.concurrency w'.pool.slots (w'.held ++ w'.pool.holdings) := next.kept.holds
      have tokens := after.tokens
      rw [empty] at tokens
      exact .inr ⟨resolved, tokens.eq_nil⟩

end Worker
end WorkerPool
end Ledgence
