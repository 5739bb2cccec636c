import Ledgence.Sdk.Sections

/-! What every section keeps: a key has one task, its callable is invoked at most once, and what
an await returns was recorded or acknowledged before. -/
open Kit Kit.Checked

namespace Ledgence.Sdk

def Event.isCall (key : String) : Event → Bool
  | .called k => k = key
  | _ => false

def Event.quiet : Event → Bool
  | .bound _ | .called _ | .returned _ _ => false
  | _ => true

def Accepted (payload : Payload) (trace : List Event) (key : String) (output : Value) : Prop :=
  (∃ r ∈ payload.records, r.key = key ∧ r.output = output) ∨
    .acknowledged key output ∈ trace ∨ .replayed key output ∈ trace

theorem Accepted.mono {payload : Payload} {trace trace' : List Event} {key : String} {output : Value}
    (accepted : Accepted payload trace key output) (grows : trace ⊆ trace') :
    Accepted payload trace' key output := by
  obtain recorded | acknowledged | replayed := accepted
  · exact .inl recorded
  · exact .inr (.inl (grows acknowledged))
  · exact .inr (.inr (grows replayed))

namespace World

def calls (w : World) (key : String) : Nat :=
  w.trace.countP (Event.isCall key)

def Uses (w : World) (b : Binding) : Prop :=
  .bound b ∈ w.trace ∨ ∃ r ∈ w.records, r.toBinding = b

section Sound
variable (library : Library)

def StageSound (record : Option Record) (calls : Nat) (trace : List Event) (p : Pending) :
    Stage → Prop
  | .created => record = p.previous ∧ calls = 0
  | .claiming | .claimed _ => record = none ∧ calls = 0
  | .calling _ => record = none ∧ calls = 1
  | .returned r true _ => record = none ∧ calls ≤ 1 ∧ r.key = p.key ∧
      r.toBinding.Agrees library p.binding ∧ .replayed p.key r.output ∈ trace
  | .returned r false _ | .committing r _ _ => record = none ∧ calls ≤ 1 ∧ r.toBinding = p.binding
  | .registering | .finished (.ok (.fork _ _)) => False
  | .finished (.ok (.step value)) => (∃ r, record = some r ∧ r.output = value) ∧ calls ≤ 1
  | .finished (.error _) => calls ≤ 1

/-- What holds of an entry of `_pending`. -/
structure EntrySound (w : World) (p : Pending) : Prop where
  key : p.binding.key = p.key
  bound : .bound p.binding ∈ w.trace
  known : ∃ b, w.Uses b ∧ b.key = p.key ∧ p.known = b.text
  effect : ∀ effect, p.effect = some effect → reserved p.key = true ∧ effect.Fits library p.binding
  stage : StageSound library (w.record p.key) (w.calls p.key) w.trace p p.stage

end Sound

variable (payload : Payload) (library : Library)

structure Kept (w : World) : Prop where
  unique : Table.Unique (fun p : Pending => p.key) w.pending
  uniqueRecords : Table.Unique (fun r : Record => r.key) w.records
  recorded : ∀ r ∈ payload.records, r ∈ w.records
  entries : ∀ p ∈ w.pending, EntrySound library w p
  boundEntry : ∀ b, .bound b ∈ w.trace → b.key ∈ w.pending.map fun p => p.key
  calledEntry : ∀ key, key ∉ w.pending.map (fun p => p.key) → w.calls key = 0
  origin : ∀ r ∈ w.records, Accepted payload w.trace r.key r.output
  uncalled : ∀ r ∈ payload.records, w.calls r.key = 0
  agree : ∀ b b', w.Uses b → w.Uses b' → b.key = b'.key → b.Agrees library b'
  few : w.keys.card ≤ maxSteps
  returns : ∀ key v, .returned key v ∈ w.trace → ∃ r ∈ w.records, r.key = key ∧ v = copy r.output
  backed : ∀ after before key v, w.trace = after ++ .returned key v :: before →
    ∃ output, v = copy output ∧ Accepted payload before key output

variable {payload library} {w w' : World} {p : Pending}

theorem record_key {k : String} {r : Record} (found : w.record k = some r) : r.key = k := by
  simpa using List.find?_some found

theorem Kept.calls_le (kept : Kept payload library w) (key : String) : w.calls key ≤ 1 := by
  by_cases present : key ∈ w.pending.map fun p => p.key
  · obtain ⟨p, hp, rfl⟩ := List.mem_map.mp present
    have sound := (kept.entries p hp).stage
    cases stage : p.stage with
    | created | claiming | claimed id | calling claim => simp_all [StageSound]
    | returned r replayed claim => cases replayed <;> simp_all [StageSound]
    | committing r claim id => simp_all [StageSound]
    | registering => simp_all [StageSound]
    | finished outcome =>
      rcases outcome with exc | (value | ⟨k, ks⟩)
      · simp_all [StageSound]
      · simp_all [StageSound]
      · simp_all [StageSound]
  · have := kept.calledEntry key present
    omega

theorem Kept.congr (kept : Kept payload library w) (records : w'.records = w.records)
    (pending : w'.pending = w.pending) (trace : w'.trace = w.trace) : Kept payload library w' := by
  have calls : w'.calls = w.calls := by funext key; simp only [World.calls, trace]
  have uses : w'.Uses = w.Uses := by funext b; simp only [Uses, trace, records]
  have record : w'.record = w.record := by funext key; simp only [World.record, records]
  have keys : w'.keys = w.keys := by simp only [World.keys, records, pending]
  refine ⟨?_, ?_, ?_, fun p hp => ?_, ?_, ?_, ?_, ?_, ?_, ?_, ?_, ?_⟩
  · exact pending ▸ kept.unique
  · exact records ▸ kept.uniqueRecords
  · exact records ▸ kept.recorded
  · obtain ⟨key, bound, known, effect, stage⟩ := kept.entries p (pending ▸ hp)
    exact ⟨key, trace ▸ bound, uses ▸ known, effect, by rw [record, calls, trace]; exact stage⟩
  · rw [pending, trace]; exact kept.boundEntry
  · rw [pending, calls]; exact kept.calledEntry
  · rw [records, trace]; exact kept.origin
  · rw [calls]; exact kept.uncalled
  · rw [uses]; exact kept.agree
  · rw [keys]; exact kept.few
  · rw [records, trace]; exact kept.returns
  · rw [trace]; exact kept.backed

theorem split_of_absent (es : List Event) {t after before : List Event} {e : Event}
    (h : es ++ t = after ++ e :: before) (absent : e ∉ es) : ∃ later, t = later ++ e :: before := by
  rcases List.append_eq_append_iff.mp h with ⟨later, -, rest⟩ | ⟨bs, split, rest⟩
  · exact ⟨later, rest⟩
  · cases bs with
    | nil => exact ⟨[], rest.symm⟩
    | cons b bs =>
      obtain ⟨rfl, -⟩ := List.cons.inj rest
      exact absurd (split ▸ List.mem_append_right _ List.mem_cons_self) absent

def Local (key : String) (es : List Event) : Prop :=
  ∀ e ∈ es, e.quiet = true ∨ e = .called key

section Local
variable {key : String} {es : List Event} (within : Local key es)
include within

theorem Local.not_bound (b : Binding) : .bound b ∉ es := by
  intro h
  rcases within _ h with h | h
  · simp [Event.quiet] at h
  · cases h

theorem Local.not_returned (k : String) (v : Value) : .returned k v ∉ es := by
  intro h
  rcases within _ h with h | h
  · simp [Event.quiet] at h
  · cases h

theorem Local.not_called {k : String} (other : k ≠ key) : es.countP (Event.isCall k) = 0 := by
  rw [List.countP_eq_zero]
  intro e he
  rcases within e he with quiet | rfl
  · cases e <;> simp_all [Event.quiet, Event.isCall]
  · simpa [Event.isCall] using other.symm

theorem Local.calls (trace : w'.trace = es ++ w.trace) {k : String} (other : k ≠ key) :
    w'.calls k = w.calls k := by
  rw [World.calls, trace, List.countP_append, within.not_called other, Nat.zero_add]
  rfl

theorem Local.bound_iff (trace : w'.trace = es ++ w.trace) (b : Binding) :
    .bound b ∈ w'.trace ↔ .bound b ∈ w.trace := by
  rw [trace, List.mem_append]
  exact or_iff_right (within.not_bound b)

theorem Local.returned_iff (trace : w'.trace = es ++ w.trace) (k : String) (v : Value) :
    .returned k v ∈ w'.trace ↔ .returned k v ∈ w.trace := by
  rw [trace, List.mem_append]
  exact or_iff_right (within.not_returned k v)

end Local

theorem StageSound.mono {record : Option Record} {calls : Nat} {t t' : List Event} {stage : Stage}
    (sound : StageSound library record calls t p stage) (grows : t ⊆ t') :
    StageSound library record calls t' p stage := by
  cases stage with
  | returned r replayed claim =>
    cases replayed with
    | false => exact sound
    | true => exact ⟨sound.1, sound.2.1, sound.2.2.1, sound.2.2.2.1, grows sound.2.2.2.2⟩
  | finished outcome => rcases outcome with exc | (value | ⟨k, ks⟩) <;> exact sound
  | created | claiming | claimed id | calling claim | committing r claim id | registering => exact sound

theorem find_append {saved : Option Record} {records : List Record} {key : String}
    (other : ∀ r, saved = some r → r.key ≠ key) :
    Table.find (fun r : Record => r.key) key (records ++ saved.toList) =
      Table.find (fun r : Record => r.key) key records := by
  cases saved with
  | none => rw [Option.toList_none, List.append_nil]
  | some r => exact Table.find_append_other (other r rfl)

theorem countP_isCall_eq_zero {es : List Event} {k : String} (absent : .called k ∉ es) :
    es.countP (Event.isCall k) = 0 := by
  rw [List.countP_eq_zero]
  intro e he isCall
  cases e with
  | called k' =>
    obtain rfl : k' = k := by simpa [Event.isCall] using isCall
    exact absent he
  | bound _ | acknowledged _ _ | replayed _ _ | acknowledgementFailed _ _ | returned _ _
  | raised _ _ => simp [Event.isCall] at isCall

section Saved
variable {saved : Option Record} (records : w'.records = w.records ++ saved.toList)
include records

theorem mem_records_saved {r : Record} : r ∈ w'.records ↔ r ∈ w.records ∨ saved = some r := by
  rw [records, List.mem_append, Option.mem_toList]

/-- What is used now was used before, or agrees with the binding of the task. -/
theorem Kept.used_saved (kept : Kept payload library w) (hp : p ∈ w.pending) {es : List Event}
    (trace : w'.trace = es ++ w.trace) (within : Local p.key es)
    (fits : ∀ r, saved = some r → r.key = p.key ∧ r.toBinding.Agrees library p.binding)
    {b : Binding} (uses : w'.Uses b) :
    ∃ b', w.Uses b' ∧ b'.key = b.key ∧ b.Agrees library b' := by
  obtain bound | ⟨r, hr, rfl⟩ := uses
  · exact ⟨b, .inl ((within.bound_iff trace b).mp bound), rfl, .refl⟩
  · obtain hr | h := (mem_records_saved records).mp hr
    · exact ⟨_, .inr ⟨r, hr, rfl⟩, rfl, .refl⟩
    · obtain ⟨key, agrees⟩ := fits r h
      have sound := kept.entries p hp
      exact ⟨p.binding, .inl sound.bound, sound.key.trans key.symm, agrees⟩

theorem keys_saved (hp : p ∈ w.pending)
    (keys : w'.pending.map (fun p => p.key) = w.pending.map fun p => p.key)
    (key : ∀ r, saved = some r → r.key = p.key) : w'.keys ⊆ w.keys := by
  intro k hk
  simp only [World.keys, List.mem_toFinset, List.mem_append, keys] at hk ⊢
  obtain hk | hk := hk
  · obtain ⟨r, hr, rfl⟩ := List.mem_map.mp hk
    obtain hr | h := (mem_records_saved records).mp hr
    · exact .inl (List.mem_map_of_mem hr)
    · exact .inr (by rw [key r h]; exact List.mem_map_of_mem hp)
  · exact .inr hk

end Saved

theorem Kept.uncalled_after (kept : Kept payload library w) {es : List Event} {key : String}
    (trace : w'.trace = es ++ w.trace) (within : Local key es)
    (called : .called key ∈ es → w.record key = none) {r : Record} (hr : r ∈ payload.records) :
    w'.calls r.key = 0 := by
  by_cases other : r.key = key
  · have absent : .called key ∉ es := fun h =>
      Table.find_eq_none.mp (called h) r (kept.recorded r hr) other
    have before := kept.uncalled r hr
    rw [other] at before ⊢
    rw [World.calls, trace, List.countP_append, countP_isCall_eq_zero absent, Nat.zero_add]
    exact before
  · rw [within.calls trace other]
    exact kept.uncalled r hr

/-- A section changes its own entry, and may save the record of its key. -/
theorem Kept.moved (kept : Kept payload library w) (hp : p ∈ w.pending) (p' : Pending)
    (es : List Event) (saved : Option Record) (same : p'.key = p.key)
    (pending : w'.pending = Table.put (fun p => p.key) p' w.pending)
    (trace : w'.trace = es ++ w.trace) (within : Local p.key es)
    (records : w'.records = w.records ++ saved.toList)
    (fits : ∀ r, saved = some r → r.key = p.key ∧ w.record p.key = none ∧
      r.toBinding.Agrees library p.binding ∧ Accepted payload w'.trace r.key r.output)
    (called : .called p.key ∈ es → w.record p.key = none)
    (entry : EntrySound library w' p') : Kept payload library w' := by
  have grows : w.trace ⊆ w'.trace := trace ▸ List.subset_append_right es w.trace
  have keys : w'.pending.map (fun p => p.key) = w.pending.map fun p => p.key := by
    rw [pending, Table.keys_put]
  have old {r} (hr : r ∈ w.records) : r ∈ w'.records := (mem_records_saved records).mpr (.inl hr)
  have record (k) (other : k ≠ p.key) : w'.record k = w.record k := by
    rw [World.record, records]
    exact find_append fun r h e => other ((fits r h).1 ▸ e.symm)
  have uses (b) (used : w.Uses b) : w'.Uses b := by
    obtain bound | ⟨r, hr, rfl⟩ := used
    · exact .inl (grows bound)
    · exact .inr ⟨r, old hr, rfl⟩
  have used (b) (hb : w'.Uses b) : ∃ b', w.Uses b' ∧ b'.key = b.key ∧ b.Agrees library b' :=
    kept.used_saved records hp trace within (fun r h => ⟨(fits r h).1, (fits r h).2.2.1⟩) hb
  refine ⟨?_, ?_, fun r hr => old (kept.recorded r hr), fun q hq => ?_, fun b bound => ?_,
    fun k hk => ?_, fun r hr => ?_, fun r hr => kept.uncalled_after trace within called hr,
    fun b b' hb hb' e => ?_, ?_, fun k v ret => ?_, ?_⟩
  · rw [pending]
    exact Table.unique_put kept.unique
  · rw [records]
    cases saved with
    | none => simpa using kept.uniqueRecords
    | some r =>
      refine Table.unique_append kept.uniqueRecords ?_
      rw [(fits r rfl).1]
      exact Table.find_eq_none.mp (fits r rfl).2.1
  · rw [pending] at hq
    obtain rfl | ⟨hq, other⟩ := Table.mem_put hq
    · exact entry
    · have other : q.key ≠ p.key := same ▸ other
      obtain ⟨key, bound, ⟨b, hb, rest⟩, effect, stage⟩ := kept.entries q hq
      refine ⟨key, grows bound, ⟨b, uses b hb, rest⟩, effect, ?_⟩
      rw [record q.key other, within.calls trace other]
      exact stage.mono grows
  · rw [keys]
    exact kept.boundEntry b ((within.bound_iff trace b).mp bound)
  · rw [keys] at hk
    have other : k ≠ p.key := fun e => hk (e ▸ List.mem_map_of_mem hp)
    rw [within.calls trace other]
    exact kept.calledEntry k hk
  · obtain hr | h := (mem_records_saved records).mp hr
    · exact (kept.origin r hr).mono grows
    · exact (fits r h).2.2.2
  · obtain ⟨c, hc, key, agrees⟩ := used b hb
    obtain ⟨c', hc', key', agrees'⟩ := used b' hb'
    exact agrees.trans ((kept.agree c c' hc hc' (by rw [key, key', e])).trans agrees'.symm)
  · exact (Finset.card_le_card (keys_saved records hp keys fun r h => (fits r h).1)).trans kept.few
  · obtain ⟨r, hr, rest⟩ := kept.returns k v ((within.returned_iff trace k v).mp ret)
    exact ⟨r, old hr, rest⟩
  · intro after before k v split
    rw [trace] at split
    obtain ⟨later, split⟩ := split_of_absent es split (within.not_returned k v)
    exact kept.backed later before k v split

theorem Kept.goto {w₀ : World} (kept : Kept payload library w) (hp : p ∈ w.pending)
    (es : List Event) {stage : Stage} (records : w₀.records = w.records)
    (pending : w₀.pending = w.pending) (trace : w₀.trace = es ++ w.trace) (within : Local p.key es)
    (called : .called p.key ∈ es → w.record p.key = none)
    (sound : StageSound library (w.record p.key) (w₀.calls p.key) w₀.trace p stage) :
    Kept payload library (w₀.goto p stage) := by
  have grows : w.trace ⊆ w₀.trace := trace ▸ List.subset_append_right es w.trace
  obtain ⟨key, bound, ⟨b, hb, rest⟩, effect, -⟩ := kept.entries p hp
  have uses : (w₀.goto p stage).Uses b := by
    obtain bound | ⟨r, hr, rfl⟩ := hb
    · exact .inl (grows bound)
    · exact .inr ⟨r, records ▸ hr, rfl⟩
  have record : (w₀.goto p stage).record p.key = w.record p.key := by
    simp only [World.record, World.goto, records]
  refine kept.moved hp { p with stage } es none rfl (by rw [World.goto, pending]) trace within
    (records.trans (List.append_nil _).symm) (fun _ h => by cases h) called ?_
  exact ⟨key, grows bound, ⟨b, uses, rest⟩, effect, record ▸ sound⟩

theorem save_of_absent {r : Record} (absent : w.record r.key = none) :
    (w.save r).records = w.records ++ [r] := by
  have : r.key ∉ w.records.map fun r => r.key := by
    intro h
    obtain ⟨r', hr', e⟩ := List.mem_map.mp h
    exact Table.find_eq_none.mp absent r' hr' e
  exact if_neg this

theorem Kept.saved {w₀ : World} (kept : Kept payload library w) (hp : p ∈ w.pending)
    (es : List Event) {r : Record} {known : List Char} (key : r.key = p.key)
    (absent : w.record p.key = none) (agrees : r.toBinding.Agrees library p.binding)
    (records : w₀.records = (w.save r).records) (pending : w₀.pending = w.pending)
    (trace : w₀.trace = es ++ w.trace) (quiet : ∀ e ∈ es, e.quiet = true)
    (accepted : Accepted payload w₀.trace r.key r.output)
    (bytes : known = p.known ∨ known = r.toBinding.text) :
    Kept payload library (w₀.finish { p with known } (.ok (.step r.output))) := by
  have within : Local p.key es := fun e he => .inl (quiet e he)
  have grows : w.trace ⊆ w₀.trace := trace ▸ List.subset_append_right es w.trace
  have absent' : w.record r.key = none := key ▸ absent
  have records : w₀.records = w.records ++ [r] := records.trans (save_of_absent absent')
  have calls : w₀.calls p.key = w.calls p.key := by
    have none : es.countP (Event.isCall p.key) = 0 := by
      rw [List.countP_eq_zero]
      intro e he isCall
      have := quiet e he
      cases e <;> simp_all [Event.quiet, Event.isCall]
    rw [World.calls, trace, List.countP_append, none, Nat.zero_add]
    rfl
  obtain ⟨bindingKey, bound, ⟨b, hb, bKey, bytes'⟩, effect, -⟩ := kept.entries p hp
  have record : w₀.record p.key = some r := by
    rw [World.record, records, Table.find, List.find?_append, ← Table.find]
    simp [show Table.find (fun r : Record => r.key) p.key w.records = none from absent, key]
  have used : ∃ b, w₀.Uses b ∧ b.key = p.key ∧ known = b.text := by
    obtain rfl | rfl := bytes
    · obtain bound | ⟨r', hr', rfl⟩ := hb
      · exact ⟨b, .inl (grows bound), bKey, bytes'⟩
      · exact ⟨_, .inr ⟨r', records ▸ List.mem_append_left _ hr', rfl⟩, bKey, bytes'⟩
    · exact ⟨_, .inr ⟨r, records ▸ List.mem_append_right _ List.mem_cons_self, rfl⟩, key, rfl⟩
  refine kept.moved hp { p with known, stage := .finished (.ok (.step r.output)) } es (some r) rfl
    (by rw [World.finish, World.goto, pending]) trace within records ?_ ?_ ?_
  · rintro _ ⟨rfl⟩
    exact ⟨key, absent, agrees, accepted⟩
  · intro _
    exact absent
  · refine ⟨bindingKey, grows bound, used, effect, ⟨r, record, rfl⟩, ?_⟩
    change w₀.calls p.key ≤ 1
    rw [calls]
    exact kept.calls_le p.key

theorem Kept.advanced (kept : Kept payload library w) (hp : p ∈ w.pending)
    {move : Move} (h : Advanced payload library w p move w') : Kept payload library w' := by
  have sound := (kept.entries p hp).stage
  have le := kept.calls_le p.key
  have none : ∀ es : List Event, (∀ e ∈ es, e.quiet = true) → Local p.key es :=
    fun es quiet e he => .inl (quiet e he)
  cases h with
  | idle => exact kept
  | remembered record stage previous =>
    rw [stage] at sound
    exact kept.goto hp [] rfl rfl rfl (none [] (by simp)) (by simp)
      ⟨⟨record, sound.1.trans previous, rfl⟩, le⟩
  | stopped lock exc live =>
    exact kept.goto hp [] rfl rfl rfl (none [] (by simp)) (by simp) le
  | broken lock exc live =>
    refine kept.goto hp [.acknowledgementFailed (.step p.key) exc] rfl rfl rfl
      (none _ (by simp [Event.quiet])) (by simp) ?_
    simpa [StageSound, World.calls, World.fail, World.held, Event.isCall] using le
  | claiming stage previous =>
    rw [stage] at sound
    exact kept.goto hp [] rfl rfl rfl (none [] (by simp)) (by simp)
      ⟨sound.1.trans previous, sound.2⟩
  | claimed claimId stage sent =>
    rw [stage] at sound
    exact kept.goto hp [] rfl rfl rfl (none [] (by simp)) (by simp) sound
  | called lock claim stage =>
    have waiting : w.record p.key = Option.none ∧ w.calls p.key = 0 := by
      obtain ⟨stage, previous, -⟩ | ⟨claimId, callback, stage, -⟩ := stage
      · rw [stage] at sound
        exact ⟨sound.1.trans previous, sound.2⟩
      · rw [stage] at sound
        exact sound
    refine kept.goto hp [.called p.key] rfl rfl rfl ?_ (fun _ => waiting.1) ?_
    · intro e he
      exact .inr (List.mem_singleton.mp he)
    · have once : ((w.held lock).note (.called p.key)).calls p.key = w.calls p.key + 1 := by
        simp [World.calls, World.note, World.held, Event.isCall]
      exact ⟨waiting.1, by rw [once, waiting.2]⟩
  | found lock record effect claimId stage of fits reply expired answered replay =>
    rw [stage] at sound
    have key : record.key = p.key := replay.key
    obtain ⟨under, own⟩ := (kept.entries p hp).effect effect of
    have agrees : record.toBinding.Agrees library p.binding := by
      refine fits.agrees own (key.trans (kept.entries p hp).key.symm) ?_
      rw [key]
      exact under
    refine kept.goto hp [.replayed p.key record.output] rfl rfl rfl
      (none _ (by simp [Event.quiet])) (by simp) ?_
    refine ⟨sound.1, ?_, key, agrees, List.mem_cons_self⟩
    simpa [World.calls, World.note, World.held, Event.isCall] using le
  | returned record claim stage binding =>
    rw [stage] at sound
    exact kept.goto hp [] rfl rfl rfl (none [] (by simp)) (by simp)
      ⟨sound.1, le, binding⟩
  | committing record claim observationId stage sent =>
    rw [stage] at sound
    exact kept.goto hp [] rfl rfl rfl (none [] (by simp)) (by simp) sound
  | replayed record claim stage =>
    rw [stage] at sound
    obtain ⟨absent, -, key, agrees, mem⟩ := sound
    exact kept.saved hp [] key absent agrees rfl rfl rfl (by simp)
      (.inr (.inr (key ▸ mem))) (.inr rfl)
  | accepted lock record claim observationId stage reply expired answered acknowledges =>
    rw [stage] at sound
    obtain ⟨absent, -, binding⟩ := sound
    have key : record.key = p.key :=
      (congrArg Binding.key binding).trans (kept.entries p hp).key
    exact kept.saved hp [.acknowledged p.key record.output] key absent
      (binding ▸ .refl) rfl rfl rfl (by simp [Event.quiet])
      (.inr (.inl (key ▸ List.mem_cons_self))) (.inl rfl)

end World
end Ledgence.Sdk
