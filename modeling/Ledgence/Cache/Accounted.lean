import Ledgence.Cache.Disk

/-! What the index, the directories and the handles have in common between two file operations. -/
open Kit Kit.Checked

namespace Ledgence.ArtifactCache

def recency : List String → String → Nat
  | [], _ => 0
  | key :: touches, hex => if key = hex then touches.length + 1 else recency touches hex

namespace State

def charged (s : State) : Nat :=
  s.entries.total (fun row => row.2.bytes) + s.evicting.total Prod.snd + s.staging.total Prod.snd

def Recent (s : State) : Prop :=
  s.clock = min s.touches.length u64Max ∧ (s.clock < u64Max → ∀ hex entry,
    s.entries.find hex = some entry → entry.touched = recency s.touches hex)

variable {s : State} {kind other : Kind} {pending : OrderedMap String Nat} {hex suffix : String}
  {artifact : CachedArtifact} {bytes : Nat}

@[simp] theorem setPending_entries : (s.setPending kind pending).entries = s.entries := by
  cases kind with
  | evicting => rfl
  | staging => rfl

@[simp] theorem setPending_clock : (s.setPending kind pending).clock = s.clock := by
  cases kind with
  | evicting => rfl
  | staging => rfl

@[simp] theorem setPending_touches : (s.setPending kind pending).touches = s.touches := by
  cases kind with
  | evicting => rfl
  | staging => rfl

@[simp] theorem setPending_bytes : (s.setPending kind pending).bytes = s.bytes := by
  cases kind with
  | evicting => rfl
  | staging => rfl

@[simp] theorem pending_setPending_self : (s.setPending kind pending).pending kind = pending := by
  cases kind with
  | evicting => rfl
  | staging => rfl

theorem pending_setPending_other (apart : other ≠ kind) :
    (s.setPending kind pending).pending other = s.pending other := by
  cases kind with
  | evicting =>
    cases other with
    | evicting => exact absurd rfl apart
    | staging => rfl
  | staging =>
    cases other with
    | evicting => rfl
    | staging => exact absurd rfl apart

theorem charged_setPending :
    (s.setPending kind pending).charged + (s.pending kind).total Prod.snd =
      s.charged + pending.total Prod.snd := by
  cases kind with
  | evicting =>
    simp only [charged, setPending, State.pending]
    omega
  | staging =>
    simp only [charged, setPending, State.pending]
    omega

theorem charge_le {name : String} {charge : Nat} (found : (s.pending kind).find name = some charge) :
    charge ≤ s.charged := by
  have part := OrderedMap.total_erase Prod.snd found
  cases kind with
  | evicting =>
    simp only [charged, State.pending] at part ⊢
    omega
  | staging =>
    simp only [charged, State.pending] at part ⊢
    omega

theorem recent_tick (h : s.Recent) {entries : OrderedMap String Entry}
    (self : ∀ entry, entries.find hex = some entry → entry.touched = saturatingAdd u64Max s.clock 1)
    (others : ∀ key, key ≠ hex → entries.find key = s.entries.find key) :
    Recent { s with
      clock := saturatingAdd u64Max s.clock 1
      entries
      touches := hex :: s.touches } := by
  obtain ⟨clock, stamps⟩ := h
  constructor
  · simp only [saturatingAdd, clock, List.length_cons]
    omega
  · intro counted key entry found
    simp only [saturatingAdd] at counted
    have below : s.clock < u64Max := by omega
    by_cases same : key = hex
    · subst same
      rw [self entry found, recency, if_pos rfl]
      simp only [saturatingAdd]
      omega
    · rw [recency, if_neg (Ne.symm same)]
      exact stamps below key entry (others key same ▸ found)

theorem recent_touch (h : s.Recent) : (s.touch hex).Recent := by
  refine recent_tick h ?_ fun key apart => OrderedMap.find_modify_other apart
  intro entry found
  rw [OrderedMap.find_modify_self, Option.map_eq_some_iff] at found
  obtain ⟨old, -, rfl⟩ := found
  rfl

theorem recent_register (h : s.Recent) : (s.register suffix hex artifact bytes).Recent := by
  have ticked : Recent { s with
      clock := saturatingAdd u64Max s.clock 1
      entries := s.entries.insert hex ⟨artifact, bytes, saturatingAdd u64Max s.clock 1⟩
      touches := hex :: s.touches } := by
    refine recent_tick h ?_ fun key apart => OrderedMap.find_insert_other apart
    intro entry found
    obtain rfl := Option.some.inj (OrderedMap.find_insert_self.symm.trans found)
    rfl
  exact ticked

end State

/-- An eviction by the rules: there was need of it, no handle was out, and no other entry without
one had been touched earlier. -/
structure Eviction.Fair (e : Eviction) : Prop where
  present : e.victim ∈ unpinned e.pins e.state
  free : ∀ pin ∈ e.pins, pin.id ≠ e.victim.2.artifact.id
  least : ∀ row ∈ unpinned e.pins e.state, e.victim.2.touched ≤ row.2.touched
  oldest : e.state.clock < u64Max → ∀ row ∈ unpinned e.pins e.state,
    recency e.state.touches e.victim.1 ≤ recency e.state.touches row.1
  needed : e.required ≤ e.budget ∧ e.budget < e.state.bytes + e.required

section Invariants
variable (formats : Formats) (limits : ArtifactLimits)

def Stored (disk : Disk) (hex : String) (descriptor : ProgramDescriptor) (bytes : Nat) : Prop :=
  ∃ directory, disk.find (.entry hex) = some directory ∧
    Extracted formats limits hex directory descriptor bytes

/-- What a process leaves behind, wherever it stops. -/
structure Left (m : Machine) : Prop where
  whole : Whole formats limits m.disk
  sound : m.breaches = []
  fair : ∀ e ∈ m.evictions, e.Fair

structure Indexed (cap : Nat) (pins : List CachedArtifact) (m : Machine) : Prop where
  unique : Table.Unique Prod.fst m.disk
  stored : m.disk.total (rowCharge formats limits) = m.state.entries.total fun row => row.2.bytes
  balance : m.state.bytes = m.state.charged
  within : m.state.bytes ≤ cap
  present : ∀ hex entry, m.state.entries.find hex = some entry →
    Stored formats limits m.disk hex entry.artifact.descriptor entry.bytes
  known : ∀ hex, (m.disk.find (.entry hex)).isSome = true → hex ∈ m.state.entries.keys
  pending : ∀ kind name, (m.disk.find (Kind.path kind name)).isSome = true →
    name ∈ (m.state.pending kind).keys
  pinned : ∀ pin ∈ pins, ∃ entry,
    m.state.entries.find pin.descriptor.digest.hex = some entry ∧ entry.artifact = pin
  recent : m.state.Recent
  sound : m.breaches = []
  fair : ∀ e ∈ m.evictions, e.Fair

end Invariants

namespace Indexed
variable {formats : Formats} {limits : ArtifactLimits} {cap : Nat} {pins : List CachedArtifact}
  {m : Machine} {fates : List Fate} {kind : Kind} {name hex suffix : String} {charge remaining : Nat}
  {entry : Entry} {directory : Directory} {disk : Disk}

theorem left (h : Indexed formats limits cap pins m) (bounded : cap ≤ u64Max) :
    Left formats limits m := by
  refine ⟨⟨h.unique, ?_, ?_⟩, h.sound, h.fair⟩
  · intro hex directory found
    have there : (m.disk.find (.entry hex)).isSome = true := by rw [found, Option.isSome_some]
    obtain ⟨entry, indexed⟩ := OrderedMap.find_of_mem_keys (h.known hex there)
    obtain ⟨_, same, extracted⟩ := h.present hex entry indexed
    obtain rfl := Option.some.inj (same.symm.trans found)
    exact ⟨_, _, extracted⟩
  · have total := h.stored
    have balance := h.balance
    have within := h.within
    simp only [State.charged] at balance
    omega

theorem key_mem (h : Indexed formats limits cap pins m) :
    hex ∈ m.state.entries.keys ↔ (m.disk.find (.entry hex)).isSome = true := by
  constructor
  · intro mem
    obtain ⟨entry, found⟩ := OrderedMap.find_of_mem_keys mem
    obtain ⟨directory, there, -⟩ := h.present hex entry found
    rw [there, Option.isSome_some]
  · exact h.known hex

/-- Neither the faults to come nor the next number of an allocation matter. -/
theorem refated (h : Indexed formats limits cap pins m) (nextId : Nat) :
    Indexed formats limits cap pins { m with fates, nextId } :=
  ⟨h.unique, h.stored, h.balance, h.within, h.present, h.known, h.pending, h.pinned, h.recent, h.sound,
    h.fair⟩

/-- Private directories change in any way, as long as each is in the index. -/
theorem alike (h : Indexed formats limits cap pins m) (same : Alike formats limits m.disk disk)
    (fewer : ∀ kind name, (disk.find (Kind.path kind name)).isSome = true →
      name ∈ (m.state.pending kind).keys) :
    Indexed formats limits cap pins { m with disk, fates } where
  unique := same.unique
  stored := same.total.trans h.stored
  balance := h.balance
  within := h.within
  present key entry found := by
    obtain ⟨directory, there, extracted⟩ := h.present key entry found
    exact ⟨directory, (same.entries key).trans there, extracted⟩
  known key there := h.known key (same.entries key ▸ there)
  pending := fewer
  pinned := h.pinned
  recent := h.recent
  sound := h.sound
  fair := h.fair

theorem erased (h : Indexed formats limits cap pins m) :
    Indexed formats limits cap pins { m with disk := m.disk.erase (kind.path name), fates } := by
  refine h.alike (alike_erase h.unique kind name) fun other name' there => h.pending other name' ?_
  by_cases same : other.path name' = kind.path name
  · rw [same, Disk.find_erase_self] at there
    cases there
  · rwa [Disk.find_erase_other same] at there

theorem leaves (h : Indexed formats limits cap pins m) :
    Indexed formats limits cap pins { m with disk := m.disk.leave (kind.path name) directory, fates } := by
  refine h.alike (alike_leave h.unique kind name directory) fun other name' there =>
    h.pending other name' ?_
  by_cases same : other.path name' = kind.path name
  · cases found : m.disk.find (kind.path name) with
    | none => rwa [Disk.leave_of_absent found] at there
    | some old => rw [same, found, Option.isSome_some]
  · rwa [Disk.find_leave_other same] at there

theorem written (h : Indexed formats limits cap pins m)
    (charged : name ∈ (m.state.pending kind).keys) :
    Indexed formats limits cap pins { m with disk := m.disk.put (kind.path name) directory, fates } := by
  refine h.alike (alike_put h.unique kind name directory) fun other name' there => ?_
  by_cases same : other.path name' = kind.path name
  · obtain ⟨rfl, rfl⟩ := path_injective same
    exact charged
  · rw [Disk.find_put_other same] at there
    exact h.pending other name' there

theorem recharged (h : Indexed formats limits cap pins m)
    (found : (m.state.pending kind).find name = some charge) (less : remaining ≤ charge) :
    Indexed formats limits cap pins { m with
      state := { m.state.setPending kind ((m.state.pending kind).insert name remaining) with
        bytes := m.state.bytes - charge + remaining } } := by
  have balance := h.balance
  have within := h.within
  have part : charge ≤ m.state.charged := State.charge_le found
  have split := @State.charged_setPending m.state kind ((m.state.pending kind).insert name remaining)
  have old := OrderedMap.total_erase Prod.snd found
  have new := @OrderedMap.total_insert String Nat _ (m.state.pending kind) name remaining Prod.snd
  refine ⟨h.unique, ?_, ?_, ?_, ?_, ?_, ?_, ?_, ?_, h.sound, h.fair⟩
  · simpa using h.stored
  · change m.state.bytes - charge + remaining =
      (m.state.setPending kind ((m.state.pending kind).insert name remaining)).charged
    omega
  · change m.state.bytes - charge + remaining ≤ cap
    omega
  · simpa using h.present
  · simpa using h.known
  · intro other name' there
    have before : name' ∈ (m.state.pending other).keys := h.pending other name' there
    change name' ∈ ((m.state.setPending kind _).pending other).keys
    by_cases same : other = kind
    · subst same
      rw [State.pending_setPending_self]
      exact OrderedMap.mem_keys_insert.mpr (.inr before)
    · rwa [State.pending_setPending_other same]
  · simpa using h.pinned
  · simpa [State.Recent] using h.recent

theorem settled (h : Indexed formats limits cap pins m)
    (found : (m.state.pending kind).find name = some 0)
    (gone : m.disk.find (kind.path name) = none) :
    Indexed formats limits cap pins { m with
      state := m.state.setPending kind ((m.state.pending kind).erase name) } := by
  have split := @State.charged_setPending m.state kind ((m.state.pending kind).erase name)
  have old := OrderedMap.total_erase Prod.snd found
  have balance := h.balance
  refine ⟨h.unique, ?_, ?_, ?_, ?_, ?_, ?_, ?_, ?_, h.sound, h.fair⟩
  · simpa using h.stored
  · change (m.state.setPending kind ((m.state.pending kind).erase name)).bytes =
      (m.state.setPending kind ((m.state.pending kind).erase name)).charged
    rw [State.setPending_bytes]
    omega
  · rw [State.setPending_bytes]
    exact h.within
  · simpa using h.present
  · simpa using h.known
  · intro other name' there
    have before : name' ∈ (m.state.pending other).keys := h.pending other name' there
    change name' ∈ ((m.state.setPending kind _).pending other).keys
    by_cases same : other = kind
    · subst same
      have apart : name' ≠ name := fun here => by
        have absent := there
        rw [here, gone] at absent
        cases absent
      rw [State.pending_setPending_self, OrderedMap.keys_erase]
      exact List.mem_filter.mpr ⟨before, by simpa using apart⟩
    · rwa [State.pending_setPending_other same]
  · simpa using h.pinned
  · simpa [State.Recent] using h.recent

/-- The entry at a key is in the directory of that name, at its charge. -/
theorem stored_at (h : Indexed formats limits cap pins m)
    (found : m.state.entries.find hex = some entry) (there : m.disk.find (.entry hex) = some directory) :
    rowCharge formats limits (.entry hex, directory) = entry.bytes := by
  obtain ⟨_, same, extracted⟩ := h.present hex entry found
  obtain rfl := Option.some.inj (same.symm.trans there)
  exact entryCharge_extracted extracted

theorem evicted (h : Indexed formats limits cap pins m)
    (found : m.state.entries.find hex = some entry) (there : m.disk.find (.entry hex) = some directory)
    (target : m.disk.find (.evicting hex) = none) (clean : hex ∉ m.state.evicting.keys)
    (free : ∀ pin ∈ pins, pin.id ≠ entry.artifact.id) {e : Eviction} (fair : e.Fair) :
    Indexed formats limits cap pins { m with
      disk := (m.disk.erase (.entry hex)).put (.evicting hex) directory
      state := { m.state with
        entries := m.state.entries.erase hex
        evicting := m.state.evicting.insert hex entry.bytes }
      fates
      evictions := e :: m.evictions } := by
  have target' : (m.disk.erase (.entry hex)).find (.evicting hex) = none := by
    rwa [Disk.find_erase_other (by simp)]
  have taken : m.state.entries.total (fun row => row.2.bytes) =
      entry.bytes + (m.state.entries.erase hex).total fun row => row.2.bytes :=
    OrderedMap.total_erase _ found
  have charged : (m.state.evicting.insert hex entry.bytes).total Prod.snd =
      entry.bytes + m.state.evicting.total Prod.snd := OrderedMap.total_insert_new _ clean
  have elsewhere : ∀ key, key ≠ hex →
      ((m.disk.erase (.entry hex)).put (.evicting hex) directory).find (.entry key) =
        m.disk.find (.entry key) := fun key apart => by
    rw [Disk.find_put_other (by simp), Disk.find_erase_other (by simpa using apart)]
  have inside : ∀ key entry', (m.state.entries.erase hex).find key = some entry' →
      key ≠ hex ∧ m.state.entries.find key = some entry' := fun key entry' there => by
    have ⟨mem, apart⟩ := OrderedMap.mem_erase.mp (OrderedMap.find_eq_some.mp there)
    exact ⟨apart, OrderedMap.find_eq_some.mpr mem⟩
  refine ⟨Disk.unique_put (Disk.unique_erase h.unique), ?_, ?_, h.within, ?_, ?_, ?_, ?_, ?_, h.sound, ?_⟩
  · have gone := @Disk.total_erase m.disk _ directory (rowCharge formats limits) h.unique there
    have weight := h.stored_at found there
    have stored := h.stored
    change Disk.total _ _ = (m.state.entries.erase hex).total _
    rw [Disk.total_put_absent target', show rowCharge formats limits (.evicting hex, directory) = 0 from rfl]
    omega
  · have balance := h.balance
    simp only [State.charged] at balance ⊢
    omega
  · intro key entry' there
    obtain ⟨apart, old⟩ := inside key entry' there
    obtain ⟨content, same, extracted⟩ := h.present key entry' old
    exact ⟨content, (elsewhere key apart).trans same, extracted⟩
  · intro key there
    change key ∈ (m.state.entries.erase hex).keys
    by_cases same : key = hex
    · rw [same, Disk.find_put_other (by simp), Disk.find_erase_self] at there
      cases there
    · rw [elsewhere key same] at there
      rw [OrderedMap.keys_erase]
      exact List.mem_filter.mpr ⟨h.known key there, by simpa using same⟩
  · intro kind name there
    by_cases same : kind.path name = .evicting hex
    · obtain ⟨rfl, rfl⟩ : kind = .evicting ∧ name = hex := path_injective same
      exact OrderedMap.mem_keys_insert.mpr (.inl rfl)
    · rw [Disk.find_put_other same, Disk.find_erase_other (path_ne_entry kind name).symm] at there
      have before := h.pending kind name there
      cases kind with
      | evicting => exact OrderedMap.mem_keys_insert.mpr (.inr before)
      | staging => exact before
  · intro pin mem
    obtain ⟨entry', indexed, same⟩ := h.pinned pin mem
    refine ⟨entry', ?_, same⟩
    have apart : pin.descriptor.digest.hex ≠ hex := fun here => by
      rw [here, found] at indexed
      obtain rfl := Option.some.inj indexed
      exact free pin mem (congrArg CachedArtifact.id same.symm)
    exact (OrderedMap.find_erase_other apart).trans indexed
  · exact ⟨h.recent.1, fun counted key entry' there =>
      h.recent.2 counted key entry' (inside key entry' there).2⟩
  · intro e' mem
    obtain rfl | old := List.mem_cons.mp mem
    · exact fair
    · exact h.fair e' old

theorem reserved (h : Indexed formats limits cap pins m) {bytes : Nat}
    (new : suffix ∉ m.state.staging.keys) (room : m.state.bytes + bytes ≤ cap) :
    Indexed formats limits cap pins { m with
      disk := m.disk.put (.staging suffix) directory
      state := { m.state with
        bytes := m.state.bytes + bytes
        staging := m.state.staging.insert suffix bytes }
      fates } := by
  have same := @alike_put formats limits m.disk h.unique .staging suffix directory
  have charged : (m.state.staging.insert suffix bytes).total Prod.snd =
      bytes + m.state.staging.total Prod.snd := OrderedMap.total_insert_new _ new
  refine ⟨same.unique, same.total.trans h.stored, ?_, room, ?_, ?_, ?_, h.pinned, h.recent, h.sound,
    h.fair⟩
  · have balance := h.balance
    simp only [State.charged] at balance ⊢
    omega
  · intro key entry found
    obtain ⟨content, there, extracted⟩ := h.present key entry found
    exact ⟨content, (same.entries key).trans there, extracted⟩
  · exact fun key there => h.known key (same.entries key ▸ there)
  · intro kind name there
    by_cases here : kind.path name = .staging suffix
    · obtain ⟨rfl, rfl⟩ : kind = .staging ∧ name = suffix := path_injective here
      exact OrderedMap.mem_keys_insert.mpr (.inl rfl)
    · rw [Disk.find_put_other here] at there
      have before := h.pending kind name there
      cases kind with
      | evicting => exact before
      | staging => exact OrderedMap.mem_keys_insert.mpr (.inr before)

theorem registered (h : Indexed formats limits cap pins m) {bytes nextId : Nat}
    {artifact : CachedArtifact} (charge : m.state.staging.find suffix = some bytes)
    (target : m.disk.find (.entry hex) = none)
    (extracted : Extracted formats limits hex directory artifact.descriptor bytes) :
    Indexed formats limits cap pins { m with
      disk := (m.disk.erase (.staging suffix)).put (.entry hex) directory
      state := m.state.register suffix hex artifact bytes
      fates
      nextId } := by
  have same := @alike_erase formats limits m.disk h.unique .staging suffix
  have absent : hex ∉ m.state.entries.keys := fun mem => by
    have there := h.key_mem.mp mem
    rw [target] at there
    cases there
  have target' : (m.disk.erase (.staging suffix)).find (.entry hex) = none :=
    (same.entries hex).trans target
  have taken : m.state.staging.total Prod.snd = bytes + (m.state.staging.erase suffix).total Prod.snd :=
    OrderedMap.total_erase _ charge
  have given : (m.state.register suffix hex artifact bytes).entries.total (fun row => row.2.bytes) =
      bytes + m.state.entries.total fun row => row.2.bytes := OrderedMap.total_insert_new _ absent
  have elsewhere : ∀ key, key ≠ hex →
      ((m.disk.erase (.staging suffix)).put (.entry hex) directory).find (.entry key) =
        m.disk.find (.entry key) := fun key apart => by
    rw [Disk.find_put_other (by simpa using apart)]
    exact same.entries key
  refine ⟨Disk.unique_put same.unique, ?_, ?_, h.within, ?_, ?_, ?_, ?_, State.recent_register h.recent,
    h.sound, h.fair⟩
  · have total : (m.disk.erase (.staging suffix)).total (rowCharge formats limits) =
        m.state.entries.total fun row => row.2.bytes := same.total.trans h.stored
    have weight : rowCharge formats limits (.entry hex, directory) = bytes :=
      entryCharge_extracted extracted
    change Disk.total _ _ = (m.state.register suffix hex artifact bytes).entries.total _
    rw [Disk.total_put_absent target', weight]
    omega
  · have balance := h.balance
    change m.state.bytes = (m.state.register suffix hex artifact bytes).entries.total _ +
      m.state.evicting.total Prod.snd + (m.state.staging.erase suffix).total Prod.snd
    simp only [State.charged] at balance
    omega
  · intro key entry found
    by_cases here : key = hex
    · subst here
      obtain rfl := Option.some.inj (OrderedMap.find_insert_self.symm.trans found)
      exact ⟨directory, Disk.find_put_self, extracted⟩
    · have old : m.state.entries.find key = some entry :=
        (OrderedMap.find_insert_other here).symm.trans found
      obtain ⟨content, there, whole⟩ := h.present key entry old
      exact ⟨content, (elsewhere key here).trans there, whole⟩
  · intro key there
    change key ∈ (m.state.entries.insert hex _).keys
    by_cases here : key = hex
    · exact OrderedMap.mem_keys_insert.mpr (.inl here)
    · rw [elsewhere key here] at there
      exact OrderedMap.mem_keys_insert.mpr (.inr (h.known key there))
  · intro kind name there
    rw [Disk.find_put_other (path_ne_entry kind name).symm] at there
    by_cases here : kind.path name = .staging suffix
    · rw [here, Disk.find_erase_self] at there
      cases there
    · rw [Disk.find_erase_other here] at there
      have before := h.pending kind name there
      cases kind with
      | evicting => exact before
      | staging =>
        have apart : name ≠ suffix := fun equal => here (equal ▸ rfl)
        change name ∈ (m.state.staging.erase suffix).keys
        rw [OrderedMap.keys_erase]
        exact List.mem_filter.mpr ⟨before, by simpa using apart⟩
  · intro pin mem
    obtain ⟨entry, indexed, artifact'⟩ := h.pinned pin mem
    have apart : pin.descriptor.digest.hex ≠ hex := fun here =>
      absent (here ▸ OrderedMap.mem_keys_of_find indexed)
    exact ⟨entry, (OrderedMap.find_insert_other apart).trans indexed, artifact'⟩

theorem touched (h : Indexed formats limits cap pins m) :
    Indexed formats limits cap pins { m with state := m.state.touch hex } := by
  have same : (m.state.touch hex).entries.total (fun row => row.2.bytes) =
      m.state.entries.total fun row => row.2.bytes :=
    OrderedMap.total_modify (fun row : String × Entry => row.2.bytes) fun _ => rfl
  have before : ∀ key entry, (m.state.touch hex).entries.find key = some entry → ∃ old,
      m.state.entries.find key = some old ∧ old.artifact = entry.artifact ∧ old.bytes = entry.bytes := by
    intro key entry found
    by_cases here : key = hex
    · subst here
      rw [State.touch, OrderedMap.find_modify_self, Option.map_eq_some_iff] at found
      obtain ⟨old, there, rfl⟩ := found
      exact ⟨old, there, rfl, rfl⟩
    · exact ⟨entry, (OrderedMap.find_modify_other here).symm.trans found, rfl, rfl⟩
  refine ⟨h.unique, h.stored.trans same.symm, ?_, h.within, ?_, ?_, ?_, ?_, State.recent_touch h.recent,
    h.sound, h.fair⟩
  · have balance := h.balance
    simp only [State.charged] at balance ⊢
    rw [same]
    exact balance
  · intro key entry found
    obtain ⟨old, there, artifact, bytes⟩ := before key entry found
    rw [← artifact, ← bytes]
    exact h.present key old there
  · intro key there
    change key ∈ (m.state.entries.modify hex _).keys
    rw [OrderedMap.keys_modify]
    exact h.known key there
  · intro kind name there
    have listed := h.pending kind name there
    cases kind with
    | evicting => exact listed
    | staging => exact listed
  · intro pin mem
    obtain ⟨entry, indexed, artifact⟩ := h.pinned pin mem
    by_cases here : pin.descriptor.digest.hex = hex
    · subst here
      refine ⟨{ entry with touched := saturatingAdd u64Max m.state.clock 1 }, ?_, artifact⟩
      change (m.state.entries.modify _ _).find _ = _
      rw [OrderedMap.find_modify_self, indexed]
      rfl
    · exact ⟨entry, (OrderedMap.find_modify_other here).trans indexed, artifact⟩

theorem repinned (h : Indexed formats limits cap pins m) {pins' : List CachedArtifact}
    (pinned : ∀ pin ∈ pins', ∃ entry,
      m.state.entries.find pin.descriptor.digest.hex = some entry ∧ entry.artifact = pin) :
    Indexed formats limits cap pins' m :=
  ⟨h.unique, h.stored, h.balance, h.within, h.present, h.known, h.pending, pinned, h.recent, h.sound,
    h.fair⟩

theorem narrowed (h : Indexed formats limits cap pins m) {cap' : Nat} (within : m.state.bytes ≤ cap') :
    Indexed formats limits cap' pins m :=
  ⟨h.unique, h.stored, h.balance, within, h.present, h.known, h.pending, h.pinned, h.recent, h.sound,
    h.fair⟩

end Indexed
end Ledgence.ArtifactCache
