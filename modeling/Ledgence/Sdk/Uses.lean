import Ledgence.Sdk.Calls

/-! A call raises and leaves the work as it was, or it makes one use of a key, a fork or a staged
child. -/
open Kit Kit.Checked

namespace Ledgence.Sdk

def Call.binding (payload : Payload) (library : Library) : Call → Option Binding
  | .localStep key fn arguments => arguments.map fun v => ⟨key, fn.name, v⟩
  | .operation key fn kind version arguments =>
    match arguments.map fn.signature with
    | some (.ok (some effective)) =>
      some ⟨key, kind.value ++ ":" ++ fn.name, World.operationRequest kind version effective⟩
    | _ => none
  | .approvedLocal fn _ => payload.approval.map fun approval =>
    ⟨approval.localKey library, fn.name, approval.action.arguments⟩
  | .approvedEffect _ lookup _ => payload.approval.map fun approval =>
    ⟨approval.localKey library, approval.action.name,
      effectInput (canonical approval.action.value) lookup.name⟩
  | .fork _ _ | .child _ _ | .gather _ | .stage => none

theorem Binding.Agrees.of_sorted {library : Library} {a b : Binding} (key : a.key = b.key)
    (callable : a.callable = b.callable)
    (input : a.input.json.sortObjects = b.input.json.sortObjects) : a.Agrees library b := by
  refine ⟨callable, ?_⟩
  simp only [canonicalInput, key, input]

theorem sorted_operationRequest (kind : OperationKind) (version : String) (v : Value) :
    (World.operationRequest kind version (copy v)).json.sortObjects =
      (World.operationRequest kind version v).json.sortObjects := by
  have same := sortObjects_copy v
  simp only [World.operationRequest, object, List.map_cons, List.map_nil, Json.sortObjects,
    Json.sortMembers, same]

theorem reserved_localKey (library : Library) (approval : Approval) :
    reserved (approval.localKey library) = true := by
  simp [reserved, Approval.localKey]

namespace World

def Idle (w w' : World) : Prop :=
  ∃ approvalCallable approvalLookup, w' = { w with approvalCallable, approvalLookup }

theorem Idle.refl (w : World) : w.Idle w :=
  ⟨w.approvalCallable, w.approvalLookup, rfl⟩

theorem Idle.trans {u v w : World} (h : u.Idle v) (h' : v.Idle w) : u.Idle w := by
  obtain ⟨a, l, rfl⟩ := h
  obtain ⟨a', l', rfl⟩ := h'
  exact ⟨a', l', rfl⟩

structure Grown (w w' : World) : Prop where
  stage : ∀ t stage, w.stage t = some stage → w'.stage t = some stage
  fatal : w'.fatal = w.fatal
  closed : w'.closed = w.closed
  phase : w'.phase = w.phase
  observed : w'.observedFailures = w.observedFailures
  records : w'.records = w.records
  nodup : w.ownedTasks.Nodup → w'.ownedTasks.Nodup
  pending : ∀ p ∈ w'.pending, p ∈ w.pending ∨ p.stage = .created
  trace : w'.trace = w.trace ∨ ∃ b, w'.trace = .bound b :: w.trace

theorem Grown.refl (w : World) : Grown w w :=
  ⟨fun _ _ h => h, rfl, rfl, rfl, rfl, rfl, id, fun _ mem => .inl mem, .inl rfl⟩

theorem Grown.traced {w w' : World} (h : Grown w w') :
    ∃ es, w'.trace = es ++ w.trace ∧ ∀ e ∈ es, ∃ b, e = .bound b := by
  obtain same | ⟨b, bound⟩ := h.trace
  · exact ⟨[], same, by simp⟩
  · exact ⟨[.bound b], bound, fun e he => ⟨b, List.mem_singleton.mp he⟩⟩

theorem entry_isSome {w : World} {key : String} :
    key ∈ w.pending.map (fun p => p.key) ↔ ∃ p, w.entry key = some p := by
  constructor
  · exact Table.find_of_key_mem
  · rintro ⟨p, found⟩
    exact List.mem_map.mpr ⟨p, Table.find_mem found, Table.find_key found⟩

theorem fork_isSome {w : World} {key : String} :
    key ∈ w.forks.map (fun f => f.key) ↔ ∃ f, w.fork key = some f := by
  constructor
  · exact Table.find_of_key_mem
  · rintro ⟨f, found⟩
    exact List.mem_map.mpr ⟨f, Table.find_mem found, Table.find_key found⟩

theorem mem_ownedTasks {w : World} {t : TaskRef} : t ∈ w.ownedTasks ↔ ∃ stage, w.stage t = some stage := by
  cases t with
  | step key =>
    have mem : TaskRef.step key ∈ w.ownedTasks ↔ key ∈ w.pending.map fun p => p.key := by
      simp [ownedTasks]
    rw [mem, entry_isSome]
    simp [stage]
  | fork key =>
    have mem : TaskRef.fork key ∈ w.ownedTasks ↔ key ∈ w.forks.map fun f => f.key := by
      simp [ownedTasks]
    rw [mem, fork_isSome]
    simp [stage]

/-- What a call leaves: the same work when it raised, and `P` otherwise. -/
def Settled (w : World) (P : World → Prop) (outcome : World × Except WorkflowError Unit) : Prop :=
  match outcome with
  | (w', .ok _) => P w'
  | (w', .error _) => w.Idle w'

section Rules
variable {w : World} {P : World → Prop} {α : Type}

theorem settle_settled {result : Except WorkflowError World}
    (h : ∀ w', result = .ok w' → P w') : Settled w P (w.settle result) := by
  cases result with
  | ok w' => exact h w' rfl
  | error error => exact .refl w

theorem sequence_settled {first : Except WorkflowError (World × α)}
    {rest : World → α → World × Except WorkflowError Unit}
    (h : ∀ w' a, first = .ok (w', a) → w.Idle w' ∧ Settled w' P (rest w' a)) :
    Settled w P (w.sequence first rest) := by
  cases first with
  | error error => exact .refl w
  | ok pair =>
    obtain ⟨w', a⟩ := pair
    obtain ⟨idle, settled⟩ := h w' a rfl
    change Settled w P (rest w' a)
    generalize rest w' a = outcome at settled
    obtain ⟨u, result⟩ := outcome
    cases result with
    | ok _ => exact settled
    | error _ => exact idle.trans settled

end Rules

variable {payload : Payload} {library : Library} {w w' : World} {b : Binding} {effect : Option Effect}

theorem Kept.idle (kept : Kept payload library w) (idle : w.Idle w') : Kept payload library w' := by
  obtain ⟨a, l, rfl⟩ := idle
  exact kept.congr rfl rfl rfl

theorem Kept.bound (kept : Kept payload library w)
    (fits : ∀ e, effect = some e → reserved b.key = true ∧ e.Fits library b)
    (h : Bound w b effect w') : Kept payload library w' := by
  cases h with
  | again p found known => exact kept.again found known
  | opened p binding of absent key known stage previous recorded room =>
    subst binding of
    refine kept.opened absent key known stage previous recorded room fun e he => ?_
    rw [← key]
    exact fits e he

theorem Bound.trace (h : Bound w b effect w') : w'.trace = .bound b :: w.trace := by
  cases h with
  | again p found known => rfl
  | opened p binding of absent key known stage previous recorded room =>
    subst binding
    rfl

theorem Bound.grown (h : Bound w b effect w') : Grown w w' := by
  have trace : w'.trace = w.trace ∨ ∃ b, w'.trace = .bound b :: w.trace := .inr ⟨b, h.trace⟩
  cases h with
  | again p found known =>
    exact ⟨fun _ _ h => h, rfl, rfl, rfl, rfl, rfl, id, fun _ mem => .inl mem, trace⟩
  | opened p binding of absent key known stage previous recorded room =>
    refine ⟨fun t stage h => ?_, rfl, rfl, rfl, rfl, rfl, fun nodup => ?_, fun q mem => ?_, trace⟩
    · cases t with
      | step key =>
        obtain ⟨q, found, rfl⟩ := Option.map_eq_some_iff.mp h
        exact Option.map_eq_some_iff.mpr ⟨q, Table.find_append_found found, rfl⟩
      | fork key => exact h
    · have new : TaskRef.step p.key ∉ w.ownedTasks := by
        rw [mem_ownedTasks]
        rintro ⟨stage, h⟩
        simp [World.stage, absent] at h
      change ((w.pending ++ [p]).map (fun p => TaskRef.step p.key) ++ _).Nodup
      rw [List.map_append, List.append_assoc]
      exact List.nodup_middle.mpr (List.nodup_cons.mpr ⟨new, nodup⟩)
    · obtain old | new := List.mem_append.mp mem
      · exact .inl old
      · exact .inr ((List.mem_singleton.mp new) ▸ stage)

structure Made (payload : Payload) (library : Library) (w : World) (c : Call) (w' : World) : Prop where
  kept : Kept payload library w'
  grown : Grown w w'
  opened : w.closed = false
  healthy : w.fatal = none
  bound : ∀ b, c.binding payload library = some b →
    ∃ b', .bound b' ∈ w'.trace ∧ b'.key = b.key ∧ b'.Agrees library b

/-- A use that was accepted, of a binding that agrees with the one that was asked for. -/
theorem Made.of_bound {c : Call} {caller : Caller} (kept : Kept payload library w)
    (active : w.active caller = .ok ())
    (fits : ∀ e, effect = some e → reserved b.key = true ∧ e.Fits library b)
    (h : Bound w b effect w')
    (asked : ∀ b', c.binding payload library = some b' → b.key = b'.key ∧ b.Agrees library b') :
    Made payload library w c w' := by
  obtain ⟨opened, healthy⟩ := active_eq_ok active
  exact ⟨kept.bound fits h, h.grown, opened, healthy,
    fun b' e => ⟨b, h.trace ▸ List.mem_cons_self, asked b' e⟩⟩

theorem startLocal_made {c : Call} {caller : Caller} {key : String} {fn : Callable}
    {arguments : Option Value} (kept : Kept payload library w)
    (h : w.startLocal caller key fn arguments = .ok w')
    (asked : c.binding payload library = arguments.map fun v => ⟨key, fn.name, v⟩) :
    Made payload library w c w' := by
  obtain ⟨active, v, rfl, bound⟩ := startLocal_eq_ok h
  refine .of_bound kept active (fun _ h => by cases h) bound fun b' e => ?_
  obtain rfl := Option.some.inj (asked.symm.trans e)
  exact ⟨rfl, .of_sorted rfl rfl (sortObjects_copy v)⟩

theorem operation_made {caller : Caller} {key : String} {fn : Callable} {kind : OperationKind}
    {version : String} {arguments : Option Value} (kept : Kept payload library w)
    (h : w.operation caller key fn kind version arguments = .ok w') :
    Made payload library w (.operation key fn kind version arguments) w' := by
  obtain ⟨active, v, e, rfl, signed, bound⟩ := operation_eq_ok h
  refine .of_bound kept active (fun _ h => by cases h) bound fun b' asked => ?_
  simp only [Call.binding, Option.map_some, signed, Option.some.injEq] at asked
  subst asked
  exact ⟨rfl, .of_sorted rfl rfl (sorted_operationRequest kind version e)⟩

theorem runEffect_made (caller : Caller) {fn lookup : Callable} {version : String}
    {approval : Approval} (kept : Kept payload library w) (active : w.active caller = .ok ())
    (given : payload.approval = some approval)
    (h : w.runEffect library lookup approval = .ok w') :
    Made payload library w (.approvedEffect fn lookup version) w' := by
  simp only [runEffect, bind_eq_ok] at h
  obtain ⟨text, read, h⟩ := h
  obtain ⟨action, reads, same⟩ := effectActionJson_eq_ok read
  have under := reserved_localKey library approval
  have fits : Effect.Fits library ⟨approval.key, approval.action, lookup.name⟩
      ⟨approval.localKey library, approval.action.name, effectInput text lookup.name⟩ :=
    ⟨rfl, text, action, rfl, reads, same⟩
  have asked : Effect.Fits library ⟨approval.key, approval.action, lookup.name⟩
      ⟨approval.localKey library, approval.action.name,
        effectInput (canonical approval.action.value) lookup.name⟩ :=
    ⟨rfl, _, _, rfl, library.loads_canonical _, sortObjects_copy _⟩
  refine .of_bound kept active ?_ (boundLocal_eq_ok h) fun b' e => ?_
  · rintro _ ⟨rfl⟩
    exact ⟨under, fits⟩
  · simp only [Call.binding, given, Option.map_some, Option.some.injEq] at e
    subst e
    exact ⟨rfl, fits.agrees asked rfl under⟩

theorem openFork_made {caller : Caller} {key : String} {branches : List Branch}
    (kept : Kept payload library w) (h : w.openFork caller key branches = .ok w') :
    Made payload library w (.fork key branches) w' := by
  simp only [openFork, bind_eq_ok, encode_eq_ok, exists_unit] at h
  obtain ⟨active, _, _, _, _, known, _, h⟩ := h
  obtain ⟨opened, healthy⟩ := active_eq_ok active
  cases found : w.fork key with
  | some previous =>
    simp only [found, bind_eq_ok, pure_eq_ok, exists_unit] at h
    obtain ⟨_, rfl⟩ := h
    exact ⟨kept, .refl w, opened, healthy, fun b e => by cases e⟩
  | none =>
    simp only [found, bind_eq_ok, pure_eq_ok, exists_unit] at h
    obtain ⟨_, _, rfl⟩ := h
    refine ⟨kept.congr rfl rfl rfl,
      ⟨fun t stage h => ?_, rfl, rfl, rfl, rfl, rfl, fun nodup => ?_, fun _ mem => .inl mem, .inl rfl⟩,
      opened, healthy, fun b e => by cases e⟩
    · cases t with
      | step key => exact h
      | fork key =>
        obtain ⟨f, found, rfl⟩ := Option.map_eq_some_iff.mp h
        exact Option.map_eq_some_iff.mpr ⟨f, Table.find_append_found found, rfl⟩
    · have new : TaskRef.fork key ∉ w.ownedTasks := by
        rw [mem_ownedTasks]
        rintro ⟨stage, h⟩
        simp [World.stage, found] at h
      change (_ ++ (w.forks ++ [_]).map fun f : Fork => TaskRef.fork f.key).Nodup
      rw [List.map_append, ← List.append_assoc]
      refine List.nodup_append.mpr ⟨nodup, List.nodup_singleton _, fun t ht u hu e => ?_⟩
      obtain rfl := List.mem_singleton.mp hu
      have e : t = TaskRef.fork key := e
      exact new (e ▸ ht)

theorem Made.after_idle {c : Call} (made : Made payload library w c w') {u : World} (idle : u.Idle w) :
    Made payload library u c w' := by
  obtain ⟨a, l, rfl⟩ := idle
  have grown := made.grown
  exact ⟨made.kept, ⟨grown.stage, grown.fatal, grown.closed, grown.phase, grown.observed, grown.records,
    grown.nodup, grown.pending, grown.trace⟩, made.opened, made.healthy, made.bound⟩

theorem Made.same {c : Call} {caller : Caller} (kept : Kept payload library w)
    (active : w.active caller = .ok ()) (unbound : c.binding payload library = none) :
    Made payload library w c w := by
  obtain ⟨opened, healthy⟩ := active_eq_ok active
  exact ⟨kept, .refl w, opened, healthy, fun b e => by rw [unbound] at e; cases e⟩

theorem stageChild_made {caller : Caller} {key : String} {command : Value}
    (kept : Kept payload library w) (h : w.stageChild caller key command = .ok w') :
    Made payload library w (.child key command) w' := by
  simp only [stageChild, bind_eq_ok, exists_unit] at h
  obtain ⟨active, _, _, h⟩ := h
  cases known : w.commands.lookup key with
  | some previous =>
    simp only [known, bind_eq_ok, pure_eq_ok, exists_unit] at h
    obtain ⟨_, _, _, _, _, rfl⟩ := h
    exact .same kept active rfl
  | none =>
    simp only [known, bind_eq_ok, pure_eq_ok, exists_unit] at h
    obtain ⟨_, _, _, rfl⟩ := h
    obtain ⟨opened, healthy⟩ := active_eq_ok active
    exact ⟨kept.congr rfl rfl rfl,
      ⟨fun _ _ h => h, rfl, rfl, rfl, rfl, rfl, id, fun _ mem => .inl mem, .inl rfl⟩, opened, healthy,
      fun b e => by cases e⟩

theorem gather_made {caller : Caller} {operations : Nat} (kept : Kept payload library w)
    (h : w.gather caller operations = .ok w') :
    Made payload library w (.gather operations) w' := by
  simp only [gather, bind_eq_ok, pure_eq_ok, exists_unit] at h
  obtain ⟨active, _, rfl⟩ := h
  exact .same kept active rfl

/-- Every call raises, with the work left as it was, or has made what it asks for. -/
theorem call_settled (kept : Kept payload library w) (caller : Caller) (c : Call) :
    Settled w (Made payload library w c) (w.call payload library caller c) := by
  cases c with
  | localStep key fn arguments =>
    refine settle_settled fun w' h => ?_
    simp only [localStep, bind_eq_ok, exists_unit] at h
    exact startLocal_made kept h.2 rfl
  | operation key fn kind version arguments =>
    exact settle_settled fun w' h => operation_made kept h
  | approvedLocal fn version =>
    refine sequence_settled fun w₁ approval h => ?_
    obtain ⟨_, given, named, rfl⟩ := approvedAction_eq_ok h
    have idle : w.Idle { w with approvalCallable := some fn } := ⟨some fn, w.approvalLookup, rfl⟩
    refine ⟨idle, settle_settled fun w' h => ?_⟩
    simp only [runApproved, bind_eq_ok, exists_unit] at h
    have asked : (Call.approvedLocal fn version).binding payload library =
        (some approval.action.arguments).map fun v => ⟨approval.localKey library, fn.name, v⟩ := by
      simp only [Call.binding, given, Option.map_some]
    exact (startLocal_made (kept.idle idle) h.2 asked).after_idle idle
  | approvedEffect fn lookup version =>
    refine sequence_settled fun w₁ approval h => ?_
    obtain ⟨active, given, named, rfl⟩ := approvedAction_eq_ok h
    have idle : w.Idle { w with approvalCallable := some fn } := ⟨some fn, w.approvalLookup, rfl⟩
    refine ⟨idle, sequence_settled fun w₂ _ h => ?_⟩
    obtain ⟨w₃, looked, e⟩ := map_eq_ok.mp (show (fun w' => (w', ())) <$> _ = _ from h)
    obtain ⟨rfl, -⟩ := Prod.mk.inj e
    obtain rfl := bindLookup_eq_ok looked
    have idle : w.Idle { w with approvalCallable := some fn, approvalLookup := some lookup } :=
      ⟨some fn, some lookup, rfl⟩
    refine ⟨⟨some fn, some lookup, rfl⟩, settle_settled fun w' h => ?_⟩
    exact (runEffect_made caller (kept.idle idle) active given h).after_idle idle
  | fork key branches => exact settle_settled fun w' h => openFork_made kept h
  | child key command => exact settle_settled fun w' h => stageChild_made kept h
  | gather operations => exact settle_settled fun w' h => gather_made kept h
  | stage =>
    refine settle_settled fun w' h => ?_
    obtain ⟨_, active, rfl⟩ := map_eq_ok.mp (show (fun _ => w) <$> _ = _ from h)
    exact .same kept active rfl

end World
end Ledgence.Sdk
