import Ledgence.Cache.Accounted

/-! Cleanups and evictions with any faults: what they leave is accounted for, and without a fault
they get to their end. -/
open Kit Kit.Checked

namespace Ledgence.ArtifactCache

/-- How an operation ends: with its result, with an error and all in order, or with its process.
When it is calm, no fault is to come and it has its result. -/
def Safe {α : Type} (calm : Prop) (order : Machine → Prop) (left : Machine → Prop)
    (post : α → Machine → Prop) : Except Abort α → Machine → Prop
  | .ok a, t => post a t ∧ (calm → t.fates = [])
  | .error .stopped, t => ¬ calm ∧ left t
  | .error (.error _), t | .error .unwound, t => ¬ calm ∧ order t

section Rules
variable {α β : Type} {calm : Prop} {order left : Machine → Prop} {m : Machine} {x : Op α}
  {f : α → Op β} {post post' : α → Machine → Prop} {posts : β → Machine → Prop}

theorem safe_bind (first : Faulty.Yields m x (Safe calm order left post))
    (next : ∀ a t, post a t → (calm → t.fates = []) →
      Faulty.Yields t (f a) (Safe calm order left posts)) :
    Faulty.Yields m (x >>= f) (Safe calm order left posts) := by
  refine first.bind (fun a t h => next a t h.1 h.2) fun e t h => ?_
  cases e with
  | error error => exact h
  | stopped => exact h
  | unwound => exact h

theorem safe_mono (first : Faulty.Yields m x (Safe calm order left post))
    (weaker : ∀ a t, post a t → post' a t) : Faulty.Yields m x (Safe calm order left post') := by
  refine first.mono fun r t h => ?_
  cases r with
  | ok a => exact ⟨weaker a t h.1, h.2⟩
  | error e =>
    cases e with
    | error error => exact h
    | stopped => exact h
    | unwound => exact h

/-- What was in order before is so after an error, whatever the error means for what follows. -/
theorem safe_order {order' : Machine → Prop} (first : Faulty.Yields m x (Safe calm order left post))
    (weaker : ∀ t, order t → order' t) : Faulty.Yields m x (Safe calm order' left post) := by
  refine first.mono fun r t h => ?_
  cases r with
  | ok a => exact h
  | error e =>
    cases e with
    | error error => exact ⟨h.1, weaker t h.2⟩
    | stopped => exact h
    | unwound => exact ⟨h.1, weaker t h.2⟩

theorem safe_pure {a : α} (smooth : calm → m.fates = []) (h : post a m) :
    Faulty.Yields m (pure a : Op α) (Safe calm order left post) :=
  ⟨h, smooth⟩

theorem safe_raise {error : AdapterError} (fault : ¬ calm) (h : order m) :
    Faulty.Yields m (raise error : Op α) (Safe calm order left post) :=
  ⟨fault, h⟩

theorem yields_attempt {r : Except AdapterError α → Machine → Prop}
    (first : Faulty.Yields m x (Safe calm order left post))
    (done : ∀ a t, post a t → (calm → t.fates = []) → r (.ok a) t)
    (failed : ∀ e t, ¬ calm → order t → r (.error e) t) :
    Faulty.Yields m (attempt x) (Safe calm order left r) := by
  change Safe calm order left post (x m).1 (x m).2 at first
  change Safe calm order left r (attempt x m).1 (attempt x m).2
  simp only [attempt]
  cases ended : x m with
  | mk result t =>
    rw [ended] at first
    cases result with
    | ok a => exact ⟨done a t first.1 first.2, first.2⟩
    | error e =>
      cases e with
      | error error => exact ⟨failed error t first.1 first.2, fun calm => absurd calm first.1⟩
      | stopped => exact first
      | unwound => exact first

theorem yields_fileOp {effect : Disk → Disk} {partly : Directory → Disk → Disk}
    {result : Except Abort Unit → Machine → Prop} (smooth : calm → m.fates = [])
    (done : ∀ fates, (calm → fates = []) → result (.ok ()) { m with disk := effect m.disk, fates })
    (undone : ∀ fates directory abort, ¬ calm → abort = .error .io ∨ abort = .stopped ∨ abort = .unwound →
      result (.error abort) { m with disk := partly directory m.disk, fates }) :
    Faulty.Yields m (fileOp effect partly) result := by
  cases faults : m.fates with
  | nil =>
    have same : Faulty.Yields m (fileOp effect partly) result ↔
        result (.ok ()) { m with disk := effect m.disk, fates := m.fates.tail } := by
      simp [fileOp, nextFate, faults, Fate.smooth, Faulty.Onward]
    rw [same, faults]
    exact done [] fun _ => rfl
  | cons fate fates =>
    have fault : ¬ calm := fun h => by
      rw [smooth h] at faults
      cases faults
    have rest : m.fates.tail = fates := by rw [faults, List.tail_cons]
    have head : m.fates.headD .smooth = fate := by rw [faults, List.headD_cons]
    simp only [fileOp, nextFate, Faulty.yields_bind, Faulty.yields_get, Faulty.Onward,
      Faulty.yields_update, Faulty.yields_pure, head, rest]
    cases outcome : fate.outcome with
    | done => exact done fates fun h => absurd h fault
    | failed => exact undone fates fate.left _ fault (.inl rfl)
    | stopped => exact undone fates fate.left _ fault (.inr (.inl rfl))
    | unwound => exact undone fates fate.left _ fault (.inr (.inr rfl))

theorem safe_fileOp {effect : Disk → Disk} {partly : Directory → Disk → Disk}
    {post : Unit → Machine → Prop} (smooth : calm → m.fates = [])
    (done : ∀ fates, post () { m with disk := effect m.disk, fates })
    (kept : ∀ fates directory, order { m with disk := partly directory m.disk, fates })
    (leaves : ∀ t, order t → left t) :
    Faulty.Yields m (fileOp effect partly) (Safe calm order left post) := by
  refine yields_fileOp smooth (fun fates calm => ⟨done fates, calm⟩)
    fun fates directory abort fault which => ?_
  have h := kept fates directory
  obtain rfl | rfl | rfl := which
  · exact ⟨fault, h⟩
  · exact ⟨fault, leaves _ h⟩
  · exact ⟨fault, h⟩

theorem safe_quietOp (smooth : calm → m.fates = []) (kept : ∀ fates, order { m with fates })
    (leaves : ∀ t, order t → left t) :
    Faulty.Yields m quietOp (Safe calm order left fun _ t => ∃ fates, t = { m with fates }) :=
  safe_fileOp smooth (fun fates => ⟨fates, rfl⟩) (fun fates _ => kept fates) leaves

theorem safe_remainingBytes {charged : Nat} (smooth : calm → m.fates = [])
    (kept : ∀ fates, order { m with fates }) (leaves : ∀ t, order t → left t) :
    Faulty.Yields m (remainingBytes charged)
      (Safe calm order left fun remaining t => remaining ≤ charged ∧ ∃ fates, t = { m with fates }) := by
  have less (fate : Fate) : (fate.measured.filter (· ≤ charged)).getD charged ≤ charged := by
    cases measured : fate.measured with
    | none => simp
    | some bytes =>
      by_cases fits : bytes ≤ charged
      · simp [Option.filter, fits]
      · simp [Option.filter, fits]
  cases faults : m.fates with
  | nil =>
    have same : Faulty.Yields m (remainingBytes charged) (Safe calm order left fun remaining t =>
        remaining ≤ charged ∧ ∃ fates, t = { m with fates }) ↔
        Safe calm order left (fun remaining t => remaining ≤ charged ∧ ∃ fates, t = { m with fates })
          (.ok charged) { m with fates := m.fates.tail } := by
      simp [remainingBytes, nextFate, faults, Fate.smooth, Faulty.Onward]
    rw [same, faults]
    exact ⟨⟨le_refl _, [], rfl⟩, fun _ => rfl⟩
  | cons fate fates =>
    have fault : ¬ calm := fun h => by
      rw [smooth h] at faults
      cases faults
    have rest : m.fates.tail = fates := by rw [faults, List.tail_cons]
    have head : m.fates.headD .smooth = fate := by rw [faults, List.headD_cons]
    simp only [remainingBytes, nextFate, Faulty.yields_bind, Faulty.yields_get, Faulty.Onward,
      Faulty.yields_update, Faulty.yields_pure, head, rest]
    cases outcome : fate.outcome with
    | done => exact ⟨⟨less fate, fates, rfl⟩, fun h => absurd h fault⟩
    | failed => exact ⟨⟨less fate, fates, rfl⟩, fun h => absurd h fault⟩
    | stopped => exact ⟨fault, leaves _ (kept fates)⟩
    | unwound => exact ⟨fault, kept fates⟩

end Rules

structure Beside (kind : Kind) (m t : Machine) : Prop where
  entries : t.state.entries = m.state.entries
  others : ∀ other, other ≠ kind → t.state.pending other = m.state.pending other
  evictions : t.evictions = m.evictions

theorem beside_refl {kind : Kind} {m : Machine} : Beside kind m m :=
  ⟨rfl, fun _ _ => rfl, rfl⟩

theorem Beside.trans {kind : Kind} {m t u : Machine} (h : Beside kind m t) (h' : Beside kind t u) :
    Beside kind m u :=
  ⟨h'.entries.trans h.entries, fun other apart => (h'.others other apart).trans (h.others other apart),
    h'.evictions.trans h.evictions⟩

abbrev Guarded {α : Type} (formats : Formats) (limits : ArtifactLimits) (cap : Nat)
    (pins : List CachedArtifact) (calm : Prop) (post : α → Machine → Prop) :
    Except Abort α → Machine → Prop :=
  Safe calm (Indexed formats limits cap pins) (Left formats limits) post

section Operations
variable {formats : Formats} {limits : ArtifactLimits} {cap : Nat} {pins : List CachedArtifact}
  {calm : Prop} {m : Machine} {kind : Kind} {name : String} {charged remaining : Nat}
  (bounded : cap ≤ u64Max)

include bounded

theorem guarded_quietOp (h : Indexed formats limits cap pins m) (smooth : calm → m.fates = []) :
    Faulty.Yields m quietOp
      (Guarded formats limits cap pins calm fun _ t => ∃ fates, t = { m with fates }) :=
  safe_quietOp smooth (fun _ => h.refated m.nextId) fun _ h => h.left bounded

/-- The new charge is at most the old one, so the size of the cache never overflows. -/
theorem guarded_recharge (h : Indexed formats limits cap pins m) (smooth : calm → m.fates = [])
    (found : (m.state.pending kind).find name = some charged) (less : remaining ≤ charged) :
    Faulty.Yields m (recharge kind name charged remaining)
      (Guarded formats limits cap pins calm fun _ t => Indexed formats limits cap pins t ∧
        Beside kind m t ∧ t.disk = m.disk ∧
        t.state.pending kind = (m.state.pending kind).insert name remaining) := by
  have part : charged ≤ m.state.bytes := h.balance ▸ State.charge_le found
  have within := h.within
  have sum : ((checkedSub m.state.bytes charged).bind fun bytes => checkedAdd u64Max bytes remaining) =
      some (m.state.bytes - charged + remaining) := by
    rw [Option.bind_eq_some_iff]
    refine ⟨m.state.bytes - charged, checkedSub_eq_some.mpr ⟨part, rfl⟩, ?_⟩
    exact checkedAdd_eq_some.mpr ⟨by omega, rfl⟩
  rw [recharge, Faulty.yields_bind, Faulty.yields_get, Faulty.onward_ok, sum]
  refine ⟨⟨h.recharged found less, ⟨?_, fun other apart => ?_, rfl⟩, rfl, ?_⟩, smooth⟩
  · exact State.setPending_entries
  · exact State.pending_setPending_other apart
  · exact State.pending_setPending_self

omit bounded in
theorem guarded_settle (h : Indexed formats limits cap pins m) (smooth : calm → m.fates = [])
    (found : (m.state.pending kind).find name = some 0) (gone : m.disk.find (kind.path name) = none) :
    Faulty.Yields m (updateState fun s => s.setPending kind ((s.pending kind).erase name))
      (Guarded formats limits cap pins calm fun _ t => Indexed formats limits cap pins t ∧
        Beside kind m t ∧ t.state.pending kind = (m.state.pending kind).erase name) := by
  refine ⟨⟨h.settled found gone, ⟨?_, fun other apart => ?_, rfl⟩, ?_⟩, smooth⟩
  · exact State.setPending_entries
  · exact State.pending_setPending_other apart
  · exact State.pending_setPending_self

theorem guarded_removed (h : Indexed formats limits cap pins m) (smooth : calm → m.fates = [])
    (found : (m.state.pending kind).find name = some charged)
    (gone : m.disk.find (kind.path name) = none) :
    Faulty.Yields m (do
        let remaining ← remainder charged (.ok ())
        recharge kind name charged remaining
        liftResult (.ok ())
        quietOp
        updateState fun s => s.setPending kind ((s.pending kind).erase name))
      (Guarded formats limits cap pins calm fun _ t => Indexed formats limits cap pins t ∧
        Beside kind m t ∧ t.state.pending kind = (m.state.pending kind).erase name) := by
  change Faulty.Yields m (recharge kind name charged 0 >>= _) _
  refine safe_bind (guarded_recharge bounded h smooth found (Nat.zero_le charged)) ?_
  rintro _ t ⟨recharged, beside, disk, pending⟩ smooth
  change Faulty.Yields t (quietOp >>= _) _
  refine safe_bind (guarded_quietOp bounded recharged smooth) ?_
  rintro _ _ ⟨fates, rfl⟩ smooth
  have synced := @Indexed.refated _ _ _ _ _ fates recharged t.nextId
  have listed : (t.state.pending kind).find name = some 0 := by
    rw [pending, OrderedMap.find_insert_self]
  refine safe_mono (guarded_settle synced smooth listed (disk ▸ gone)) ?_
  rintro _ u ⟨settled, besides, rest⟩
  have besides' : Beside kind t u := ⟨besides.entries, besides.others, besides.evictions⟩
  refine ⟨settled, beside.trans besides', rest.trans ?_⟩
  change (t.state.pending kind).erase name = _
  rw [pending, OrderedMap.erase_insert]

theorem guarded_unremoved (h : Indexed formats limits cap pins m) (fault : ¬ calm)
    (found : (m.state.pending kind).find name = some charged) {error : AdapterError} :
    Faulty.Yields m (do
        let remaining ← remainder charged (.error error)
        recharge kind name charged remaining
        liftResult (.error error)
        quietOp
        updateState fun s => s.setPending kind ((s.pending kind).erase name))
      (Guarded formats limits cap pins calm fun _ t => Indexed formats limits cap pins t ∧
        Beside kind m t ∧ t.state.pending kind = (m.state.pending kind).erase name) := by
  have smooth : calm → m.fates = [] := fun h => absurd h fault
  refine safe_bind (safe_remainingBytes smooth (fun _ => h.refated m.nextId) fun _ h => h.left bounded) ?_
  rintro remaining _ ⟨less, fates, rfl⟩ smooth
  have measured := @Indexed.refated _ _ _ _ _ fates h m.nextId
  refine safe_bind (guarded_recharge bounded measured smooth found less) ?_
  rintro _ t ⟨recharged, -, -, -⟩ -
  exact ⟨fault, recharged⟩

theorem guarded_cleanOne (h : Indexed formats limits cap pins m) (smooth : calm → m.fates = [])
    (found : (m.state.pending kind).find name = some charged) :
    Faulty.Yields m (cleanOne kind (name, charged))
      (Guarded formats limits cap pins calm fun _ t => Indexed formats limits cap pins t ∧
        Beside kind m t ∧ t.state.pending kind = (m.state.pending kind).erase name) := by
  refine safe_bind (guarded_quietOp bounded h smooth) ?_
  rintro _ _ ⟨fates, rfl⟩ smooth
  have synced := @Indexed.refated _ _ _ _ _ fates h m.nextId
  have removal : Faulty.Yields { m with fates } (removeTree (kind.path name)) (Safe calm
      (fun t => Indexed formats limits cap pins t ∧ t.state = m.state ∧ t.evictions = m.evictions)
      (Left formats limits) fun _ t => (Indexed formats limits cap pins t ∧ t.state = m.state ∧
        t.evictions = m.evictions) ∧ t.disk.find (kind.path name) = none) :=
    safe_fileOp smooth (fun _ => ⟨⟨synced.erased, rfl, rfl⟩, Disk.find_erase_self⟩)
      (fun _ _ => ⟨synced.leaves, rfl, rfl⟩) fun _ h => h.1.left bounded
  have attempted : Faulty.Yields { m with fates } (attempt (removeTree (kind.path name)))
      (Guarded formats limits cap pins calm fun result t => (Indexed formats limits cap pins t ∧
        t.state = m.state ∧ t.evictions = m.evictions) ∧
        (result = .ok () ∧ t.disk.find (kind.path name) = none ∨ result ≠ .ok () ∧ ¬ calm)) :=
    safe_order (yields_attempt removal (fun _ _ done _ => ⟨done.1, .inl ⟨rfl, done.2⟩⟩)
      fun _ _ fault kept => ⟨kept, .inr ⟨by simp, fault⟩⟩) fun _ h => h.1
  refine safe_bind attempted ?_
  rintro result t ⟨⟨kept, state, evictions⟩, ended⟩ smooth
  have found' : (t.state.pending kind).find name = some charged := by rw [state]; exact found
  have back (u : Machine) (beside : Beside kind t u) : Beside kind m u :=
    ⟨state ▸ beside.entries, fun other apart => state ▸ beside.others other apart,
      beside.evictions.trans evictions⟩
  cases result with
  | ok done =>
    obtain ⟨-, gone⟩ | ⟨failed, -⟩ := ended
    · refine safe_mono (guarded_removed bounded kept smooth found' gone) ?_
      rintro _ u ⟨settled, beside, rest⟩
      exact ⟨settled, back u beside, state ▸ rest⟩
    · exact absurd rfl failed
  | error error =>
    obtain ⟨done, -⟩ | ⟨-, fault⟩ := ended
    · cases done
    · refine safe_mono (guarded_unremoved bounded kept fault found') ?_
      rintro _ u ⟨settled, beside, rest⟩
      exact ⟨settled, back u beside, state ▸ rest⟩

/-- The cleanups of one kind, the least name first; when it ends well none is left. -/
theorem guarded_cleanRows {rows : List (String × Nat)} (h : Indexed formats limits cap pins m)
    (smooth : calm → m.fates = []) (listed : (m.state.pending kind).entries = rows) :
    Faulty.Yields m (Faulty.each (cleanOne kind) rows)
      (Guarded formats limits cap pins calm fun _ t => Indexed formats limits cap pins t ∧
        Beside kind m t ∧ (t.state.pending kind).entries = []) := by
  induction rows generalizing m with
  | nil => exact ⟨⟨h, beside_refl, listed⟩, smooth⟩
  | cons row rows ih =>
    have first : row ∈ (m.state.pending kind).entries := by rw [listed]; exact List.mem_cons_self
    have found : (m.state.pending kind).find row.1 = some row.2 := OrderedMap.find_eq_some.mpr first
    refine safe_bind (guarded_cleanOne bounded h smooth found) ?_
    rintro _ t ⟨cleaned, beside, pending⟩ smooth
    have rest : (t.state.pending kind).entries = rows := by
      rw [pending]
      exact OrderedMap.erase_head listed
    refine safe_mono (ih cleaned smooth rest) ?_
    rintro _ u ⟨settled, besides, empty⟩
    exact ⟨settled, beside.trans besides, empty⟩

theorem guarded_cleanPending (h : Indexed formats limits cap pins m) (smooth : calm → m.fates = []) :
    Faulty.Yields m (cleanPending kind)
      (Guarded formats limits cap pins calm fun _ t => Indexed formats limits cap pins t ∧
        Beside kind m t ∧ (t.state.pending kind).entries = []) :=
  guarded_cleanRows bounded h smooth rfl

omit bounded in
theorem victim_least {row : String × Entry} (taken : victim pins m.state = some row) :
    row ∈ unpinned pins m.state ∧ ∀ other ∈ unpinned pins m.state, row.2.touched ≤ other.2.touched := by
  refine ⟨Least.minBy_mem taken, fun other mem => ?_⟩
  have least := @Least.minBy_le (String × Entry) (fun a b => a.2.touched ≤ b.2.touched) row
    (unpinned pins m.state) (fun _ => True)
    (fun a b _ _ => by simpa using Nat.le_total a.2.touched b.2.touched)
    (fun a b c _ _ _ below above => by
      simp only [decide_eq_true_eq] at below above ⊢
      exact below.trans above)
    (fun _ _ => trivial) taken other mem
  simpa using least

omit bounded in
theorem mem_unpinned {row : String × Entry} (mem : row ∈ unpinned pins m.state) :
    m.state.entries.find row.1 = some row.2 ∧ ∀ pin ∈ pins, pin.id ≠ row.2.artifact.id := by
  obtain ⟨inside, one⟩ := List.mem_filter.mp mem
  refine ⟨OrderedMap.find_eq_some.mpr inside, fun pin held same => ?_⟩
  have none : pins.countP (fun pin => decide (pin.id = row.2.artifact.id)) = 0 := by
    simpa [strongCount] using one
  exact List.countP_eq_zero.mp none pin held (by simpa using same)

omit bounded in
theorem victim_none (taken : victim [] m.state = none) : m.state.entries.entries = [] := by
  cases entries : m.state.entries.entries with
  | nil => rfl
  | cons row rows =>
    have free : row ∈ unpinned [] m.state := by simp [unpinned, strongCount, entries]
    obtain ⟨least, found⟩ : ∃ least, Least.minBy (fun a b => a.2.touched ≤ b.2.touched)
        (unpinned [] m.state) = some least := Least.minBy_isSome free
    rw [victim, found] at taken
    cases taken

structure Shrunk (m t : Machine) : Prop where
  staging : t.state.staging = m.state.staging
  evicting : t.state.evicting.entries = []
  taken : ∃ victims, t.evictions = victims ++ m.evictions ∧ ∀ hex, hex ∈ t.state.entries.keys ↔
    hex ∈ m.state.entries.keys ∧ hex ∉ victims.map fun e => e.victim.1

variable {required budget : Nat}

omit bounded in
theorem fair_victim (h : Indexed formats limits cap pins m) {row : String × Entry}
    (taken : victim pins m.state = some row) (fits : required ≤ budget)
    (needed : budget < m.state.bytes + required) :
    Eviction.Fair ⟨row, m.state, pins, required, budget⟩ := by
  obtain ⟨free, least⟩ := victim_least taken
  refine ⟨free, (mem_unpinned free).2, least, fun counted other mem => ?_, fits, needed⟩
  have stamp := h.recent.2 counted row.1 row.2 (mem_unpinned free).1
  have stamp' := h.recent.2 counted other.1 other.2 (mem_unpinned mem).1
  rw [← stamp, ← stamp']
  exact least other mem

theorem guarded_evictOne (h : Indexed formats limits cap pins m) (smooth : calm → m.fates = [])
    (clean : m.state.evicting.entries = []) (fits : required ≤ budget)
    (needed : budget < m.state.bytes + required)
    (enough : calm → pins = [] ∧ m.state.entries.entries ≠ []) :
    Faulty.Yields m (evictOne pins required budget)
      (Guarded formats limits cap pins calm fun _ t => Indexed formats limits cap pins t ∧
        t.state.staging = m.state.staging ∧ t.state.evicting.entries = [] ∧ ∃ e hex entry,
          t.evictions = e :: m.evictions ∧ e.victim.1 = hex ∧
          m.state.entries.find hex = some entry ∧ t.state.entries = m.state.entries.erase hex) := by
  rw [evictOne, Faulty.yields_bind, Faulty.yields_get, Faulty.onward_ok]
  cases taken : victim pins m.state with
  | none =>
    refine safe_raise (fun calm => ?_) h
    obtain ⟨rfl, some⟩ := enough calm
    exact some (victim_none taken)
  | some row =>
    have found := (mem_unpinned (victim_least taken).1).1
    have free := (mem_unpinned (victim_least taken).1).2
    obtain ⟨directory, there, -⟩ := h.present row.1 row.2 found
    have absent : row.1 ∉ m.state.evicting.keys := by simp [OrderedMap.keys, clean]
    have target : m.disk.find (.evicting row.1) = none := by
      cases found : m.disk.find (.evicting row.1) with
      | none => rfl
      | some directory =>
        exact absurd (h.pending .evicting row.1 (by rw [Kind.path, found, Option.isSome_some])) absent
    refine safe_bind (guarded_quietOp bounded h smooth) ?_
    rintro _ _ ⟨fates, rfl⟩ smooth
    rw [if_neg (by simp [target])]
    have moved : Faulty.Yields { m with fates } (rename (.entry row.1) (.evicting row.1))
        (Guarded formats limits cap pins calm fun _ t => ∃ fates, t = { m with
          disk := (m.disk.erase (.entry row.1)).put (.evicting row.1) directory
          fates }) := by
      rw [rename, Faulty.yields_bind, Faulty.yields_get, Faulty.onward_ok]
      simp only [there, target]
      exact safe_fileOp smooth (fun fates => ⟨fates, rfl⟩) (fun _ _ => h.refated m.nextId)
        fun _ h => h.left bounded
    refine safe_bind moved ?_
    rintro _ _ ⟨fates', rfl⟩ smooth
    rw [Faulty.yields_bind, Faulty.yields_update, Faulty.onward_ok]
    have gone := @Indexed.evicted _ _ _ _ _ fates' _ _ _ h found there target absent free _
      (fair_victim h taken fits needed)
    refine safe_mono (guarded_cleanPending bounded gone smooth) ?_
    rintro _ t ⟨cleaned, beside, empty⟩
    exact ⟨cleaned, beside.others .staging (by simp), empty, _, row.1, row.2, beside.evictions, rfl, found,
      beside.entries⟩

omit bounded in
theorem shrunk_refl (clean : m.state.evicting.entries = []) : Shrunk m m :=
  ⟨rfl, clean, [], rfl, by simp⟩

omit bounded in
/-- As long as there is need, and nothing else is charged, there is an entry. -/
theorem entries_of_need (h : Indexed formats limits cap pins m)
    (clean : m.state.evicting.entries = []) (idle : m.state.staging.entries = [])
    (needed : budget - required < m.state.bytes) : m.state.entries.entries ≠ [] := by
  intro none
  have balance := h.balance
  rw [State.charged, OrderedMap.total, OrderedMap.total, OrderedMap.total, none, clean, idle] at balance
  simp only [List.map_nil, List.sum_nil] at balance
  omega

/-- The loop ends when the new artifact fits; without handles it always does. -/
theorem guarded_evictLoop {turns : Nat} (h : Indexed formats limits cap pins m)
    (smooth : calm → m.fates = []) (clean : m.state.evicting.entries = []) (fits : required ≤ budget)
    (turned : m.state.entries.entries.length ≤ turns)
    (idle : calm → pins = [] ∧ m.state.staging.entries = []) :
    Faulty.Yields m (evictLoop pins required budget turns)
      (Guarded formats limits cap pins calm fun _ t => Indexed formats limits cap pins t ∧
        Shrunk m t ∧ t.state.bytes + required ≤ budget) := by
  induction turns generalizing m with
  | zero =>
    rw [evictLoop, Faulty.yields_bind, Faulty.yields_get, Faulty.onward_ok]
    by_cases needed : budget - required < m.state.bytes
    · rw [if_pos needed]
      refine safe_raise (fun calm => entries_of_need h clean (idle calm).2 needed ?_) h
      exact List.eq_nil_of_length_eq_zero (by omega)
    · rw [if_neg needed]
      exact safe_pure smooth ⟨h, shrunk_refl clean, by omega⟩
  | succ turns ih =>
    rw [evictLoop, Faulty.yields_bind, Faulty.yields_get, Faulty.onward_ok]
    by_cases needed : budget - required < m.state.bytes
    · rw [if_pos needed]
      refine safe_bind (guarded_evictOne bounded h smooth clean fits (by omega) fun calm =>
        ⟨(idle calm).1, entries_of_need h clean (idle calm).2 needed⟩) ?_
      rintro _ t ⟨shrunk, staging, empty, e, hex, entry, evictions, rfl, found, entries⟩ smooth
      have fewer : t.state.entries.entries.length ≤ turns := by
        have parts := (OrderedMap.perm_erase found).length_eq
        rw [List.length_cons, ← entries] at parts
        omega
      have idle' (calm : calm) : pins = [] ∧ t.state.staging.entries = [] :=
        ⟨(idle calm).1, staging ▸ (idle calm).2⟩
      refine safe_mono (ih shrunk smooth empty fewer idle') ?_
      rintro _ u ⟨indexed, ⟨staging', empty', victims, evictions', keys⟩, fit⟩
      refine ⟨indexed, ⟨staging'.trans staging, empty', victims ++ [e], ?_, fun hex => ?_⟩, fit⟩
      · rw [evictions', evictions, List.append_assoc, List.singleton_append]
      · rw [keys, entries, OrderedMap.keys_erase, List.mem_filter, List.map_append, List.mem_append]
        simp only [decide_eq_true_eq, List.map_cons, List.map_nil, List.mem_singleton, not_or]
        tauto
    · rw [if_neg needed]
      exact safe_pure smooth ⟨h, shrunk_refl clean, by omega⟩

/-- Entries go until the new artifact fits, after what earlier evictions left is removed. -/
theorem guarded_evict (h : Indexed formats limits cap pins m) (smooth : calm → m.fates = [])
    (idle : calm → required ≤ budget ∧ pins = [] ∧ m.state.staging.entries = []) :
    Faulty.Yields m (evict pins required budget)
      (Guarded formats limits cap pins calm fun _ t => Indexed formats limits cap pins t ∧
        Shrunk m t ∧ t.state.bytes + required ≤ budget) := by
  rw [evict]
  by_cases past : budget < required
  · rw [if_pos past]
    exact safe_raise (fun calm => absurd (idle calm).1 (by omega)) h
  · rw [if_neg past]
    refine safe_bind (guarded_cleanPending bounded h smooth) ?_
    rintro _ t ⟨cleaned, beside, empty⟩ smooth
    rw [Faulty.yields_bind, Faulty.yields_get, Faulty.onward_ok]
    have staging : t.state.staging = m.state.staging := beside.others .staging (by simp)
    refine safe_mono (guarded_evictLoop bounded cleaned smooth empty (by omega) (le_refl _) fun calm =>
      ⟨(idle calm).2.1, staging ▸ (idle calm).2.2⟩) ?_
    rintro _ u ⟨indexed, ⟨staging', empty', victims, evictions, keys⟩, fit⟩
    refine ⟨indexed, ⟨staging'.trans staging, empty', victims, ?_, fun hex => ?_⟩, fit⟩
    · rw [evictions, beside.evictions]
    · rw [keys, beside.entries]

end Operations
end Ledgence.ArtifactCache
