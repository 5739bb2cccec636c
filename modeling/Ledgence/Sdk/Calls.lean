import Ledgence.Sdk.Kept

/-! What a call can do: a use of a key that is in use needs the binding it is in use with. -/
open Kit Kit.Checked

namespace Ledgence.Sdk

namespace World

variable {payload : Payload} {library : Library} {w w' : World} {p : Pending}

theorem Kept.noted (kept : Kept payload library w) {e : Event} (unbound : ∀ b, e ≠ .bound b)
    (uncalled : ∀ k, e.isCall k = false)
    (returned : ∀ key v, e = .returned key v → ∃ r ∈ w.records, r.key = key ∧ v = copy r.output) :
    Kept payload library (w.note e) := by
  have grows : w.trace ⊆ (w.note e).trace := List.subset_cons_self e w.trace
  have calls : (w.note e).calls = w.calls := by
    funext k
    simp [World.calls, note, uncalled k]
  have bound : ∀ b, .bound b ∈ (w.note e).trace ↔ .bound b ∈ w.trace := by
    intro b
    simp [note, (unbound b).symm]
  have uses : (w.note e).Uses = w.Uses := by
    funext b
    simp only [Uses, bound b]
    rfl
  refine ⟨kept.unique, kept.uniqueRecords, kept.recorded, fun p hp => ?_, fun b h => ?_, ?_,
    fun r hr => (kept.origin r hr).mono grows, ?_, ?_, kept.few, fun key v h => ?_, ?_⟩
  · obtain ⟨key, used, known, effect, stage⟩ := kept.entries p hp
    refine ⟨key, grows used, uses ▸ known, effect, ?_⟩
    rw [calls]
    exact stage.mono grows
  · exact kept.boundEntry b ((bound b).mp h)
  · rw [calls]
    exact kept.calledEntry
  · rw [calls]
    exact kept.uncalled
  · rw [uses]
    exact kept.agree
  · obtain e | h := List.mem_cons.mp h
    · exact returned key v e.symm
    · exact kept.returns key v h
  · intro after before key v split
    cases after with
    | nil =>
      obtain ⟨head, rfl⟩ := List.cons.inj split
      obtain ⟨r, hr, rfl, copied⟩ := returned key v head
      exact ⟨r.output, copied, kept.origin r hr⟩
    | cons first after =>
      obtain ⟨-, split⟩ := List.cons.inj split
      exact kept.backed after before key v split

theorem Kept.quiet (kept : Kept payload library w) {e : Event} (quiet : e.quiet = true) :
    Kept payload library (w.note e) := by
  refine kept.noted (fun b h => ?_) (fun k => ?_) (fun key v h => ?_)
  · rw [h] at quiet
    cases quiet
  · cases e <;> simp_all [Event.quiet, Event.isCall]
  · rw [h] at quiet
    cases quiet

theorem Kept.again (kept : Kept payload library w) {b : Binding} (found : w.entry b.key = some p)
    (known : p.known = b.text) : Kept payload library (w.note (.bound b)) := by
  have hp := Table.find_mem found
  have key : p.key = b.key := Table.find_key found
  have grows : w.trace ⊆ (w.note (.bound b)).trace := List.subset_cons_self _ w.trace
  obtain ⟨c, hc, cKey, bytes⟩ := (kept.entries p hp).known
  have agrees : b.Agrees library c := .of_text (known.symm.trans bytes)
  have calls : (w.note (.bound b)).calls = w.calls := by
    funext k
    simp [World.calls, note, Event.isCall]
  have used : ∀ d, (w.note (.bound b)).Uses d → ∃ d', w.Uses d' ∧ d'.key = d.key ∧ d.Agrees library d' := by
    rintro d (bound | recorded)
    · obtain e | bound := List.mem_cons.mp bound
      · obtain rfl := Event.bound.inj e
        exact ⟨c, hc, cKey.trans key, agrees⟩
      · exact ⟨d, .inl bound, rfl, .refl⟩
    · exact ⟨d, .inr recorded, rfl, .refl⟩
  refine ⟨kept.unique, kept.uniqueRecords, kept.recorded, fun q hq => ?_, fun d h => ?_, ?_,
    fun r hr => (kept.origin r hr).mono grows, ?_, fun d d' hd hd' e => ?_, kept.few,
    fun key v h => ?_, ?_⟩
  · obtain ⟨qKey, bound, ⟨d, hd, rest⟩, effect, stage⟩ := kept.entries q hq
    refine ⟨qKey, grows bound, ⟨d, hd.imp_left (grows ·), rest⟩, effect, ?_⟩
    rw [calls]
    exact stage.mono grows
  · obtain e | h := List.mem_cons.mp h
    · obtain rfl := Event.bound.inj e
      exact List.mem_map.mpr ⟨p, hp, key⟩
    · exact kept.boundEntry d h
  · rw [calls]
    exact kept.calledEntry
  · rw [calls]
    exact kept.uncalled
  · obtain ⟨c, hc, key, agrees⟩ := used d hd
    obtain ⟨c', hc', key', agrees'⟩ := used d' hd'
    exact agrees.trans ((kept.agree c c' hc hc' (by rw [key, key', e])).trans agrees'.symm)
  · exact kept.returns key v (List.mem_of_ne_of_mem (by simp) h)
  · intro after before key v split
    obtain ⟨later, split⟩ := split_of_absent [.bound b] split (by simp)
    exact kept.backed later before key v split

theorem Kept.opened (kept : Kept payload library w) (absent : w.entry p.key = none)
    (key : p.binding.key = p.key) (known : p.known = p.binding.text) (stage : p.stage = .created)
    (previous : p.previous = w.record p.key)
    (recorded : ∀ r, w.record p.key = some r → p.known = r.toBinding.text)
    (room : w.keys.card < maxSteps ∨ p.previous ≠ none)
    (effect : ∀ effect, p.effect = some effect →
      reserved p.key = true ∧ effect.Fits library p.binding) :
    Kept payload library ({ w with pending := w.pending ++ [p] }.note (.bound p.binding)) := by
  have others : ∀ q ∈ w.pending, q.key ≠ p.key := Table.find_eq_none.mp absent
  have fresh : p.key ∉ w.pending.map fun p => p.key := by
    intro h
    obtain ⟨q, hq, e⟩ := List.mem_map.mp h
    exact others q hq e
  have grows : w.trace ⊆ .bound p.binding :: w.trace := List.subset_cons_self _ _
  have calls : ({ w with pending := w.pending ++ [p] }.note (.bound p.binding)).calls = w.calls := by
    funext k
    simp [World.calls, note, Event.isCall]
  have mine : ∀ c, w.Uses c → c.key = p.key → p.binding.Agrees library c := by
    rintro c (bound | ⟨r, hr, rfl⟩) e
    · exact absurd (e ▸ kept.boundEntry c bound) fresh
    · have found : w.record p.key = some r := e ▸ Table.find_of_mem kept.uniqueRecords hr
      exact .of_text (known.symm.trans (recorded r found))
  have used : ∀ c, ({ w with pending := w.pending ++ [p] }.note (.bound p.binding)).Uses c →
      c = p.binding ∨ w.Uses c := by
    rintro c (bound | recorded)
    · obtain e | bound := List.mem_cons.mp bound
      · exact .inl (Event.bound.inj e)
      · exact .inr (.inl bound)
    · exact .inr (.inr recorded)
  refine ⟨?_, kept.uniqueRecords, kept.recorded, fun q hq => ?_, fun d h => ?_, fun k hk => ?_,
    fun r hr => (kept.origin r hr).mono grows, ?_, fun d d' hd hd' e => ?_, ?_, fun k v h => ?_, ?_⟩
  · exact Table.unique_append kept.unique others
  · obtain hq | hq := List.mem_append.mp hq
    · obtain ⟨qKey, bound, ⟨d, hd, rest⟩, effect, stage⟩ := kept.entries q hq
      refine ⟨qKey, grows bound, ⟨d, hd.imp_left (grows ·), rest⟩, effect, ?_⟩
      rw [calls]
      exact stage.mono grows
    · obtain rfl := List.mem_singleton.mp hq
      refine ⟨key, List.mem_cons_self, ⟨q.binding, .inl List.mem_cons_self, key, known⟩, effect, ?_⟩
      rw [stage, calls]
      exact ⟨previous.symm, kept.calledEntry q.key fresh⟩
  · change d.key ∈ (w.pending ++ [p]).map fun p => p.key
    rw [List.map_append, List.mem_append]
    obtain e | h := List.mem_cons.mp h
    · obtain rfl := Event.bound.inj e
      exact .inr (List.mem_singleton.mpr key)
    · exact .inl (kept.boundEntry d h)
  · rw [calls]
    refine kept.calledEntry k fun h => hk ?_
    change k ∈ (w.pending ++ [p]).map fun p => p.key
    rw [List.map_append, List.mem_append]
    exact .inl h
  · rw [calls]
    exact kept.uncalled
  · obtain rfl | hd := used d hd
    · obtain rfl | hd' := used d' hd'
      · exact .refl
      · exact mine d' hd' (e.symm.trans key)
    · obtain rfl | hd' := used d' hd'
      · exact (mine d hd (e.trans key)).symm
      · exact kept.agree d d' hd hd' e
  · have keys : ({ w with pending := w.pending ++ [p] }.note (.bound p.binding)).keys =
        insert p.key w.keys := by
      ext k
      simp only [World.keys, note, List.mem_toFinset, List.mem_append, List.map_append,
        List.map_cons, List.map_nil, List.mem_singleton, Finset.mem_insert]
      tauto
    rw [keys]
    obtain room | some := room
    · exact (Finset.card_insert_le _ _).trans room
    · obtain ⟨r, found⟩ := Option.ne_none_iff_exists'.mp (previous ▸ some)
      have present : p.key ∈ w.keys := by
        simp only [World.keys, List.mem_toFinset, List.mem_append]
        exact .inl (List.mem_map.mpr ⟨r, Table.find_mem found, record_key found⟩)
      rw [Finset.insert_eq_of_mem present]
      exact kept.few
  · exact kept.returns k v (List.mem_of_ne_of_mem (by simp) h)
  · intro after before k v split
    obtain ⟨later, split⟩ := split_of_absent [.bound p.binding] split (by simp)
    exact kept.backed later before k v split

inductive Bound (w : World) (b : Binding) (effect : Option Effect) : World → Prop
  | again (p : Pending) (found : w.entry b.key = some p) (known : p.known = b.text) :
    Bound w b effect (w.note (.bound b))
  | opened (p : Pending) (binding : p.binding = b) (of : p.effect = effect)
    (absent : w.entry p.key = none) (key : p.binding.key = p.key) (known : p.known = p.binding.text)
    (stage : p.stage = .created) (previous : p.previous = w.record p.key)
    (recorded : ∀ r, w.record p.key = some r → p.known = r.toBinding.text)
    (room : w.keys.card < maxSteps ∨ p.previous ≠ none) :
    Bound w b effect ({ w with pending := w.pending ++ [p] }.note (.bound p.binding))

theorem boundLocal_eq_ok {b : Binding} {arguments : Value} {effect : Option Effect}
    (h : w.boundLocal b arguments effect = .ok w') : Bound w b effect w' := by
  simp only [boundLocal, bind_eq_ok, encode_eq_ok, exists_unit] at h
  obtain ⟨bytes, ⟨rfl, _⟩, compared, h⟩ := h
  have recorded : ∀ r, w.record b.key = some r → b.text = r.toBinding.text := by
    intro r found
    simp only [found, sameAsRecord, bind_eq_ok, encode_eq_ok, refuse_eq_ok, not_not] at compared
    obtain ⟨_, ⟨rfl, _⟩, same⟩ := compared
    exact same.symm
  cases found : w.entry b.key with
  | some p =>
    simp only [found, bind_eq_ok, refuse_eq_ok, not_not, pure_eq_ok, exists_unit] at h
    obtain ⟨known, rfl⟩ := h
    exact .again p found known
  | none =>
    simp only [found, bind_eq_ok, refuse_eq_ok, pure_eq_ok, exists_unit] at h
    obtain ⟨room, rfl⟩ := h
    refine .opened ⟨b.key, b.text, b, arguments, w.record b.key, effect, .created⟩ rfl rfl found rfl rfl
      rfl rfl recorded ?_
    by_cases previous : w.record b.key = none
    · exact .inl (Nat.lt_of_not_le fun full => room ⟨full, previous⟩)
    · exact .inr previous

theorem active_eq_ok {caller : Caller} (h : w.active caller = .ok ()) :
    w.closed = false ∧ w.fatal = none := by
  simp only [active, bind_eq_ok, refuse_eq_ok, exists_unit] at h
  obtain ⟨_, _, opened, healthy⟩ := h
  exact ⟨by simpa using opened, by simpa using healthy⟩

section Calls
variable {caller : Caller} {key : String} {fn lookup : Callable} {arguments : Option Value}

theorem startLocal_eq_ok (h : w.startLocal caller key fn arguments = .ok w') :
    w.active caller = .ok () ∧ ∃ v, arguments = some v ∧
      Bound w ⟨key, fn.name, copy v⟩ none w' := by
  simp only [startLocal, bind_eq_ok, exists_unit] at h
  obtain ⟨active, _, _, _, v, frozen, _, h⟩ := h
  obtain ⟨v, rfl, rfl⟩ := freeze_eq_ok frozen
  exact ⟨active, v, rfl, boundLocal_eq_ok h⟩

theorem operation_eq_ok {kind : OperationKind} {version : String}
    (h : w.operation caller key fn kind version arguments = .ok w') :
    w.active caller = .ok () ∧ ∃ v e, arguments = some v ∧ fn.signature v = .ok (some e) ∧
      Bound w ⟨key, kind.value ++ ":" ++ fn.name, operationRequest kind version (copy e)⟩ none w' := by
  simp only [operation, bind_eq_ok, okOr_eq_ok, exists_unit] at h
  obtain ⟨active, _, _, _, v, rfl, _, _, _, effective, signed, e, frozen, _, _, _, h⟩ := h
  obtain ⟨e, rfl, rfl⟩ := freeze_eq_ok frozen
  refine ⟨active, v, e, rfl, ?_, boundLocal_eq_ok h⟩
  unfold Callable.effectiveArguments at signed
  split at signed
  · cases signed
    assumption
  · cases signed
  · cases signed

theorem approvedAction_eq_ok {version : String} {approval : Approval}
    (h : (checkProtection payload *> w.approvedAction payload caller fn version) =
      .ok (w', approval)) :
    w.active caller = .ok () ∧ payload.approval = some approval ∧
      fn.name = approval.action.name ∧ w' = { w with approvalCallable := some fn } := by
  rw [seqRight_eq_bind] at h
  simp only [approvedAction, bind_eq_ok, okOr_eq_ok, refuse_eq_ok, not_not, exists_unit, pure_eq_ok,
    Prod.mk.injEq] at h
  obtain ⟨_, active, approval, found, _, _, named, _, _, _, _, rfl, rfl⟩ := h
  exact ⟨active, found, named, rfl⟩

theorem bindLookup_eq_ok {approval : Approval} (h : w.bindLookup lookup fn approval = .ok w') :
    w' = { w with approvalLookup := some lookup } := by
  simp only [bindLookup, bind_eq_ok, pure_eq_ok, exists_unit] at h
  obtain ⟨_, _, _, _, rfl⟩ := h
  rfl

theorem effectActionJson_eq_ok {approval : Approval} {text : List Char}
    (h : w.effectActionJson library approval = .ok text) :
    ∃ action, library.loads text = some action ∧
      action.json.sortObjects = approval.action.value.json.sortObjects := by
  simp only [effectActionJson, bind_eq_ok, encode_eq_ok] at h
  obtain ⟨_, ⟨rfl, _⟩, h⟩ := h
  have own : ∃ action, library.loads (canonical approval.action.value) = some action ∧
      action.json.sortObjects = approval.action.value.json.sortObjects :=
    ⟨_, library.loads_canonical _, sortObjects_copy _⟩
  split at h
  · split at h
    · obtain rfl := pure_eq_ok.mp h
      exact own
    · simp only [bind_eq_ok, refuse_eq_ok, not_not, pure_eq_ok, exists_unit] at h
      obtain ⟨_, replayed, rfl, rfl⟩ := h
      obtain ⟨action, reads, same⟩ := replayedActionJson_eq_ok replayed
      exact ⟨action, reads, (canonical_eq.mp same).symm⟩
  · obtain rfl := pure_eq_ok.mp h
    exact own

end Calls

end World
end Ledgence.Sdk
