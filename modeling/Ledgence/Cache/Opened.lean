import Ledgence.Cache.Guarded

/-! Publication with any faults: what is renamed is complete and charged, and what is not stays a
charged stage. -/
open Kit Kit.Checked

namespace Ledgence.ArtifactCache

theorem pin_eq_some {s : State} {descriptor : ProgramDescriptor} {artifact : CachedArtifact}
    (pinned : s.pin descriptor = .ok (some artifact)) : artifact.descriptor = descriptor ∧ ∃ entry,
      s.entries.find descriptor.digest.hex = some entry ∧ entry.artifact = artifact := by
  rw [State.pin] at pinned
  split at pinned
  · cases pinned
  · rename_i entry found
    split at pinned
    · cases pinned
    · rename_i same
      obtain rfl := Option.some.inj (Except.ok.inj pinned)
      exact ⟨not_not.mp same, entry, found, rfl⟩

theorem safe_lift {α β : Type} {calm : Prop} {order left : Machine → Prop} {m : Machine}
    {post : β → Machine → Prop} {result : Except AdapterError α} {next : α → Op β}
    (done : ∀ a, result = .ok a → Faulty.Yields m (next a) (Safe calm order left post))
    (failed : ∀ error, result = .error error → ¬ calm ∧ order m) :
    Faulty.Yields m (liftResult result >>= next) (Safe calm order left post) := by
  cases result with
  | ok a => exact done a rfl
  | error error => exact failed error rfl

section Publication
variable {formats : Formats} {limits : ArtifactLimits} {cap : Nat} {pins : List CachedArtifact}
  {m : Machine} {s : State} {suffix hex : String} {files more : Directory} {bytes : Nat}
  {descriptor : ProgramDescriptor} {plan : ArchivePlan} {archive : Bytes} {artifact : CachedArtifact}
  (bounded : cap ≤ u64Max)

theorem smooth_false {fates : List Fate} : False → fates = [] :=
  False.elim

structure Staged (formats : Formats) (limits : ArtifactLimits) (cap : Nat) (pins : List CachedArtifact)
    (s : State) (suffix : String) (files : Directory) (m : Machine) : Prop where
  indexed : Indexed formats limits cap pins m
  state : m.state = s
  files : m.disk.find (.staging suffix) = some files

def Renamed (formats : Formats) (limits : ArtifactLimits) (cap : Nat) (pins : List CachedArtifact)
    (s : State) (suffix hex : String) (files : Directory) (t : Machine) : Prop :=
  ∃ u fates, Staged formats limits cap pins s suffix files u ∧ u.disk.find (.entry hex) = none ∧
    t = { u with disk := (u.disk.erase (.staging suffix)).put (.entry hex) files, fates }

def Returned (formats : Formats) (limits : ArtifactLimits) (cap : Nat) (pins : List CachedArtifact)
    (published : Published) (t : Machine) : Prop :=
  Indexed formats limits cap pins t ∧ ∀ artifact,
    published = .prepared artifact ∨ published = .pinned artifact →
      ∃ entry, t.state.entries.find artifact.descriptor.digest.hex = some entry ∧
        entry.artifact = artifact

include bounded

theorem guarded_writeStage (h : Staged formats limits cap pins s suffix files m)
    (charged : suffix ∈ s.staging.keys) :
    Faulty.Yields m (writeStage suffix more) (Guarded formats limits cap pins False
      fun _ t => Staged formats limits cap pins s suffix (files ++ more) t) := by
  obtain ⟨indexed, rfl, content⟩ := h
  refine safe_fileOp smooth_false (fun fates => ⟨?_, rfl, ?_⟩) (fun _ _ => ?_) fun _ h => h.left bounded
  · exact @Indexed.written _ _ _ _ _ fates .staging suffix _ indexed charged
  · rw [content]
    exact Disk.find_put_self
  · exact @Indexed.leaves _ _ _ _ _ _ .staging suffix _ indexed

theorem staged_quietOp (h : Staged formats limits cap pins s suffix files m) :
    Faulty.Yields m quietOp (Guarded formats limits cap pins False
      fun _ t => Staged formats limits cap pins s suffix files t) := by
  refine safe_mono (guarded_quietOp bounded h.indexed smooth_false) ?_
  rintro _ _ ⟨fates, rfl⟩
  exact ⟨h.indexed.refated m.nextId, h.state, h.files⟩

theorem staged_rename (h : Staged formats limits cap pins s suffix files m) :
    Faulty.Yields m (rename (.staging suffix) (.entry hex)) (Guarded formats limits cap pins False
      fun _ t => Renamed formats limits cap pins s suffix hex files t) := by
  rw [rename, Faulty.yields_bind, Faulty.yields_get, Faulty.onward_ok, h.files]
  cases target : m.disk.find (.entry hex) with
  | some directory => exact safe_raise id h.indexed
  | none =>
    exact safe_fileOp smooth_false (fun fates => ⟨m, fates, h, target, rfl⟩)
      (fun _ _ => h.indexed.refated m.nextId) fun _ h => h.left bounded

/-- Whatever fails on the way, the stage is still charged and there is no entry. -/
theorem guarded_finishStage {encoded : Bytes} (h : Staged formats limits cap pins s suffix [] m)
    (charged : suffix ∈ s.staging.keys) :
    Faulty.Yields m (finishStage plan archive encoded suffix hex)
      (Guarded formats limits cap pins False fun _ t =>
        Renamed formats limits cap pins s suffix hex (entryFiles plan archive encoded) t) := by
  refine safe_bind (guarded_writeStage bounded h charged) fun _ _ h _ => ?_
  refine safe_bind (guarded_writeStage bounded h charged) fun _ _ h _ => ?_
  refine safe_bind (guarded_writeStage bounded h charged) fun _ _ h _ => ?_
  refine safe_bind (staged_quietOp bounded h) fun _ _ h _ => ?_
  refine safe_bind (staged_quietOp bounded h) fun _ _ h _ => ?_
  exact staged_rename bounded h

theorem guarded_staged {x : Op Unit} {post : Unit → Machine → Prop}
    (h : Faulty.Yields m x (Guarded formats limits cap pins False post)) :
    Faulty.Yields m (staged suffix x) (Guarded formats limits cap pins False fun result t =>
      match result with
      | .ok done => post done t
      | .error _ => Indexed formats limits cap pins t) := by
  have removal (t : Machine) (h : Indexed formats limits cap pins t) :
      Faulty.Yields t (removeTree (.staging suffix)) (Guarded formats limits cap pins False
        fun _ t => Indexed formats limits cap pins t) :=
    safe_fileOp smooth_false (fun _ => @Indexed.erased _ _ _ _ _ _ .staging suffix h)
      (fun _ _ => @Indexed.leaves _ _ _ _ _ _ .staging suffix _ h) fun _ h => h.left bounded
  have attempted : Faulty.Yields m (attempt x) (Guarded formats limits cap pins False fun result t =>
      match result with
      | .ok done => post done t
      | .error _ => Indexed formats limits cap pins t) :=
    yields_attempt h (fun _ _ done _ => done) fun _ _ _ kept => kept
  rw [Faulty.Yields] at attempted ⊢
  simp only [staged]
  cases ended : attempt x m with
  | mk result t =>
    rw [ended] at attempted
    cases result with
    | ok result => exact attempted
    | error abort =>
      cases abort with
      | error error => exact attempted
      | stopped => exact attempted
      | unwound =>
        have removed := removal t attempted.2
        rw [Faulty.Yields] at removed
        cases dropped : removeTree (.staging suffix) t with
        | mk result u =>
          rw [dropped] at removed
          simp only [dropped]
          cases result with
          | ok done => exact ⟨id, removed.1⟩
          | error abort =>
            cases abort with
            | error error => exact ⟨id, removed.2⟩
            | stopped => exact ⟨id, removed.2⟩
            | unwound => exact ⟨id, removed.2.left bounded⟩

theorem guarded_rollBack {original : AdapterError} {post : Published → Machine → Prop}
    (h : Indexed formats limits cap pins m) :
    Faulty.Yields m (rollBack original) (Guarded formats limits cap pins False post) := by
  have attempted : Faulty.Yields m (attempt (cleanPending .staging))
      (Guarded formats limits cap pins False fun _ t => Indexed formats limits cap pins t) :=
    yields_attempt (guarded_cleanPending bounded h smooth_false) (fun _ _ done _ => done.1)
      fun _ _ _ kept => kept
  refine safe_bind attempted fun result t kept _ => ?_
  cases result with
  | ok done => exact safe_raise id kept
  | error cleanup => exact safe_raise id kept

theorem guarded_reserve (h : Indexed formats limits cap pins m) (clean : m.state.staging.entries = [])
    (room : m.state.bytes + bytes ≤ cap) {α : Type} {next : Op α} {post : α → Machine → Prop}
    (rest : ∀ t, Staged formats limits cap pins t.state suffix [] t →
      t.state.staging.find suffix = some bytes →
      Faulty.Yields t next (Guarded formats limits cap pins False post)) :
    Faulty.Yields m (do makeStage suffix; reserve suffix bytes; next)
      (Guarded formats limits cap pins False post) := by
  have absent : suffix ∉ m.state.staging.keys := by simp [OrderedMap.keys, clean]
  have made : Faulty.Yields m (makeStage suffix) (Guarded formats limits cap pins False
      fun _ t => ∃ fates, t = { m with disk := m.disk.put (.staging suffix) [], fates }) := by
    rw [makeStage, Faulty.yields_bind, Faulty.yields_get, Faulty.onward_ok]
    split
    · exact safe_raise id h
    · exact safe_fileOp smooth_false (fun fates => ⟨fates, rfl⟩) (fun _ _ => h.refated m.nextId)
        fun _ h => h.left bounded
  refine safe_bind made ?_
  rintro _ _ ⟨fates, rfl⟩ -
  have total : checkedAdd u64Max m.state.bytes bytes = some (m.state.bytes + bytes) :=
    checkedAdd_eq_some.mpr ⟨by omega, rfl⟩
  rw [Faulty.yields_bind, reserve, Faulty.yields_bind, Faulty.yields_get, Faulty.onward_ok]
  simp only [total]
  refine rest _ ⟨?_, rfl, Disk.find_put_self⟩ OrderedMap.find_insert_self
  exact h.reserved absent room

omit bounded in
theorem returned_register {nextId : Nat} {fates : List Fate} {manifest : ProgramManifest}
    {t : Machine} (h : Renamed formats limits cap pins s suffix descriptor.digest.hex files t)
    (charge : s.staging.find suffix = some bytes)
    (extracted : Extracted formats limits descriptor.digest.hex files descriptor bytes) :
    Returned formats limits cap pins (.prepared ⟨t.nextId, descriptor, manifest⟩) { t with
      state := t.state.register suffix descriptor.digest.hex ⟨t.nextId, descriptor, manifest⟩ bytes
      fates
      nextId } := by
  obtain ⟨u, fates', ⟨indexed, rfl, content⟩, target, rfl⟩ := h
  refine ⟨indexed.registered charge target extracted, fun artifact same => ?_⟩
  obtain same | same := same
  · obtain rfl := Published.prepared.inj same
    exact ⟨_, OrderedMap.find_insert_self, rfl⟩
  · cases same

theorem guarded_publishNew {encoded : Bytes} (h : Indexed formats limits cap pins m)
    (clean : m.state.staging.entries = [])
    (extracted : Extracted formats limits descriptor.digest.hex (entryFiles plan archive encoded)
      descriptor bytes) :
    Faulty.Yields m (publishNew cap pins suffix descriptor plan archive encoded bytes)
      (Guarded formats limits cap pins False (Returned formats limits cap pins)) := by
  refine safe_bind (guarded_evict bounded h smooth_false False.elim) ?_
  rintro _ t ⟨indexed, shrunk, room⟩ -
  refine guarded_reserve bounded indexed (shrunk.staging ▸ clean) room fun t staged charge => ?_
  have charged : suffix ∈ t.state.staging.keys := OrderedMap.mem_keys_of_find charge
  refine safe_bind (guarded_staged bounded (guarded_finishStage bounded staged charged)) ?_
  rintro result u ended -
  cases result with
  | error original => exact guarded_rollBack bounded ended
  | ok done =>
    have returned (fates : List Fate) :=
      @returned_register _ _ _ _ _ _ _ _ _ (u.nextId + 1) fates plan.manifest _ ended charge extracted
    change Faulty.Yields { u with
      state := u.state.register suffix descriptor.digest.hex ⟨u.nextId, descriptor, plan.manifest⟩ bytes
      nextId := u.nextId + 1 } (quietOp >>= fun _ =>
        pure (Published.prepared ⟨u.nextId, descriptor, plan.manifest⟩)) _
    refine safe_bind (guarded_quietOp bounded (returned u.fates).1 smooth_false) ?_
    rintro _ _ ⟨fates, rfl⟩ -
    exact ⟨returned fates, False.elim⟩

/-- A publication leaves the index in order, with the handle that it returns in it. -/
theorem guarded_publish (h : Indexed formats limits cap pins m) :
    Faulty.Yields m (publish formats limits cap pins suffix descriptor archive)
      (Guarded formats limits cap pins False (Returned formats limits cap pins)) := by
  have refused {α : Type} {result : Except AdapterError α} (error : AdapterError)
      (_ : result = .error error) : ¬ False ∧ Indexed formats limits cap pins m := ⟨id, h⟩
  refine safe_lift (fun plan inspected => ?_) refused
  refine safe_lift (fun _ short => ?_) refused
  refine safe_lift (fun bytes size => ?_) refused
  have extracted : Extracted formats limits descriptor.digest.hex
      (entryFiles plan archive (formats.encode descriptor)) descriptor bytes :=
    ⟨rfl, archive, plan, inspected, Nat.le_of_not_lt (refuse_eq_ok.mp short), size, rfl⟩
  refine safe_bind (guarded_cleanPending bounded h smooth_false) ?_
  rintro _ t ⟨cleaned, -, empty⟩ -
  rw [Faulty.yields_bind, Faulty.yields_get, Faulty.onward_ok]
  refine safe_lift (fun found pinned => ?_) fun _ _ => ⟨id, cleaned⟩
  cases found with
  | none => exact guarded_publishNew bounded cleaned empty extracted
  | some artifact =>
    refine ⟨⟨cleaned, fun artifact' same => ?_⟩, False.elim⟩
    obtain same | same := same
    · cases same
    · obtain rfl := Published.pinned.inj same
      obtain ⟨same, indexed⟩ := pin_eq_some pinned
      rw [same]
      exact indexed

end Publication
end Ledgence.ArtifactCache

/-! Opening the cache over what an earlier process left: private directories go, and every entry is
read again. -/

namespace Ledgence.ArtifactCache

structure Loading (formats : Formats) (limits : ArtifactLimits) (root : Disk)
    (evictions : List Eviction) (rest : Disk) (m : Machine) : Prop where
  disk : Alike formats limits root m.disk
  listed : ∀ row ∈ rest, row ∈ root
  names : (rest.map Prod.fst).Nodup
  read : ∀ name, (m.disk.find name).isSome = true →
    name ∈ rest.map Prod.fst ∨ ∃ hex ∈ m.state.entries.keys, name = .entry hex
  fresh : ∀ hex ∈ m.state.entries.keys, Name.entry hex ∉ rest.map Prod.fst
  present : ∀ hex entry, m.state.entries.find hex = some entry →
    Stored formats limits root hex entry.artifact.descriptor entry.bytes ∧ entry.touched = 0
  balance : m.state.bytes = m.state.entries.total fun row => row.2.bytes
  charge : m.state.bytes + rest.total (rowCharge formats limits) = root.total (rowCharge formats limits)
  pending : ∀ kind, m.state.pending kind = .empty
  untouched : m.state.clock = 0 ∧ m.state.touches = []
  sound : m.breaches = []
  evictions : m.evictions = evictions

section Opening
variable {formats : Formats} {limits : ArtifactLimits} {root rest : Disk} {evictions : List Eviction}
  {m : Machine} {calm : Prop} {row : Name × Directory} {kind : Kind} {name hex : String}
  {directory : Directory} {fates : List Fate}

namespace Loading

theorem left (h : Loading formats limits root evictions rest m) (whole : Whole formats limits root)
    (fair : ∀ e ∈ evictions, e.Fair) : Left formats limits m :=
  ⟨whole.alike h.disk, h.sound, h.evictions.symm ▸ fair⟩

/-- Neither a fault nor what happens to a private directory that is still to be read matters. -/
theorem alike (h : Loading formats limits root evictions rest m) {disk : Disk}
    (same : Alike formats limits m.disk disk)
    (fewer : ∀ name, (disk.find name).isSome = true → (m.disk.find name).isSome = true) :
    Loading formats limits root evictions rest { m with disk, fates } where
  disk := ⟨same.unique, fun hex => (same.entries hex).trans (h.disk.entries hex),
    same.total.trans h.disk.total⟩
  listed := h.listed
  names := h.names
  read name there := h.read name (fewer name there)
  fresh := h.fresh
  present := h.present
  balance := h.balance
  charge := h.charge
  pending := h.pending
  untouched := h.untouched
  sound := h.sound
  evictions := h.evictions

theorem refated (h : Loading formats limits root evictions rest m) :
    Loading formats limits root evictions rest { m with fates } :=
  h.alike (alike_refl h.disk.unique) fun _ there => there

theorem discarded (h : Loading formats limits root evictions ((kind.path name, directory) :: rest) m)
    (gone : m.disk.find (kind.path name) = none) : Loading formats limits root evictions rest m where
  disk := h.disk
  listed row mem := h.listed row (List.mem_cons_of_mem _ mem)
  names := (List.nodup_cons.mp h.names).2
  read other there := by
    obtain here | inside := h.read other there
    · obtain rfl | later := List.mem_cons.mp here
      · rw [gone] at there
        cases there
      · exact .inl later
    · exact .inr inside
  fresh hex mem later := h.fresh hex mem (List.mem_cons_of_mem _ later)
  present := h.present
  balance := h.balance
  charge := by
    have charge := h.charge
    rw [Disk.total, List.map_cons, List.sum_cons, rowCharge_path, Nat.zero_add] at charge
    exact charge
  pending := h.pending
  untouched := h.untouched
  sound := h.sound
  evictions := h.evictions

theorem loaded (h : Loading formats limits root evictions ((.entry hex, directory) :: rest) m)
    (unique : Table.Unique Prod.fst root) {artifact : CachedArtifact} {bytes nextId : Nat}
    (extracted : Extracted formats limits hex directory artifact.descriptor bytes) :
    Loading formats limits root evictions rest { m with
      state := { m.state with
        bytes := m.state.bytes + bytes
        entries := m.state.entries.insert hex ⟨artifact, bytes, 0⟩ }
      nextId } := by
  have absent : hex ∉ m.state.entries.keys := fun mem => h.fresh hex mem List.mem_cons_self
  have ⟨once, names⟩ := List.nodup_cons.mp h.names
  refine ⟨h.disk, ?_, names, ?_, ?_, ?_, ?_, ?_, ?_, h.untouched, h.sound, h.evictions⟩
  · exact fun row mem => h.listed row (List.mem_cons_of_mem _ mem)
  · intro other there
    obtain here | ⟨key, inside, rfl⟩ := h.read other there
    · obtain rfl | later := List.mem_cons.mp here
      · exact .inr ⟨hex, OrderedMap.mem_keys_insert.mpr (.inl rfl), rfl⟩
      · exact .inl later
    · exact .inr ⟨key, OrderedMap.mem_keys_insert.mpr (.inr inside), rfl⟩
  · intro key mem later
    obtain rfl | inside := OrderedMap.mem_keys_insert.mp mem
    · exact once later
    · exact h.fresh key inside (List.mem_cons_of_mem _ later)
  · intro key entry found
    by_cases here : key = hex
    · subst here
      obtain rfl := Option.some.inj (OrderedMap.find_insert_self.symm.trans found)
      have there := (Disk.find_eq_some unique).mpr (h.listed _ List.mem_cons_self)
      exact ⟨⟨directory, there, extracted⟩, rfl⟩
    · exact h.present key entry ((OrderedMap.find_insert_other here).symm.trans found)
  · have given : (m.state.entries.insert hex ⟨artifact, bytes, 0⟩).total (fun row => row.2.bytes) =
        bytes + m.state.entries.total fun row => row.2.bytes := OrderedMap.total_insert_new _ absent
    have balance := h.balance
    change m.state.bytes + bytes =
      (m.state.entries.insert hex ⟨artifact, bytes, 0⟩).total fun row => row.2.bytes
    omega
  · have charge := h.charge
    have weight : rowCharge formats limits (.entry hex, directory) = bytes :=
      entryCharge_extracted extracted
    rw [Disk.total, List.map_cons, List.sum_cons, weight, ← Nat.add_assoc] at charge
    exact charge
  · intro kind
    have empty := h.pending kind
    cases kind with
    | evicting => exact empty
    | staging => exact empty

theorem indexed (h : Loading formats limits root evictions [] m) (whole : Whole formats limits root)
    (fair : ∀ e ∈ evictions, e.Fair) : Indexed formats limits u64Max [] m := by
  have charge : m.state.bytes = root.total (rowCharge formats limits) := h.charge
  have evicting : m.state.evicting = .empty := h.pending .evicting
  have staging : m.state.staging = .empty := h.pending .staging
  refine ⟨h.disk.unique, ?_, ?_, charge ▸ whole.total, ?_, ?_, ?_, by simp, ?_, h.sound,
    h.evictions.symm ▸ fair⟩
  · rw [h.disk.total, ← charge, h.balance]
  · rw [State.charged, evicting, staging, h.balance]
    rfl
  · intro hex entry found
    obtain ⟨directory, there, extracted⟩ := (h.present hex entry found).1
    exact ⟨directory, (h.disk.entries hex).trans there, extracted⟩
  · intro hex there
    obtain here | ⟨key, inside, same⟩ := h.read (.entry hex) there
    · simp at here
    · obtain rfl := Name.entry.inj same
      exact inside
  · intro kind name there
    obtain here | ⟨key, -, same⟩ := h.read _ there
    · simp at here
    · exact absurd same.symm (path_ne_entry kind name)
  · obtain ⟨clock, touches⟩ := h.untouched
    refine ⟨by simp [clock, touches], fun _ hex entry found => ?_⟩
    rw [touches, (h.present hex entry found).2]
    rfl

end Loading

variable (whole : Whole formats limits root) (fair : ∀ e ∈ evictions, e.Fair)
include whole fair

theorem safe_discard
    (h : Loading formats limits root evictions ((kind.path name, directory) :: rest) m)
    (smooth : calm → m.fates = []) :
    Faulty.Yields m (discard (kind.path name)) (Safe calm (Left formats limits) (Left formats limits)
      fun _ t => Loading formats limits root evictions rest t) := by
  have kept (m : Machine) (fates : List Fate)
      (h : Loading formats limits root evictions ((kind.path name, directory) :: rest) m) :
      Left formats limits { m with fates } := h.refated.left whole fair
  refine safe_bind (safe_quietOp smooth (fun fates => kept m fates h) fun _ h => h) ?_
  rintro _ _ ⟨fates, rfl⟩ smooth
  have removal : Faulty.Yields { m with fates } (removeTree (kind.path name))
      (Safe calm (Left formats limits) (Left formats limits) fun _ t =>
        Loading formats limits root evictions ((kind.path name, directory) :: rest) t ∧
          t.disk.find (kind.path name) = none) := by
    refine safe_fileOp smooth (fun fates => ⟨?_, Disk.find_erase_self⟩) (fun fates content => ?_) fun _ h => h
    · refine h.alike (alike_erase h.disk.unique kind name) fun other there => ?_
      by_cases same : other = kind.path name
      · rw [same, Disk.find_erase_self] at there
        cases there
      · rwa [Disk.find_erase_other same] at there
    · have left := @Loading.alike _ _ _ _ _ _ fates h _ (alike_leave h.disk.unique kind name content)
        fun other there => ?_
      · exact left.left whole fair
      · by_cases same : other = kind.path name
        · cases found : m.disk.find (kind.path name) with
          | none => rwa [Disk.leave_of_absent found] at there
          | some old => rw [same, found, Option.isSome_some]
        · rwa [Disk.find_leave_other same] at there
  refine safe_bind removal ?_
  rintro _ t ⟨removed, gone⟩ smooth
  refine safe_mono (safe_quietOp smooth (fun fates => kept t fates removed) fun _ h => h) ?_
  rintro _ _ ⟨fates, rfl⟩
  exact removed.refated.discarded gone

theorem safe_loadEntry
    (h : Loading formats limits root evictions ((.entry hex, directory) :: rest) m)
    (smooth : calm → m.fates = []) :
    Faulty.Yields m (loadEntry formats limits hex directory)
      (Safe calm (Left formats limits) (Left formats limits)
        fun _ t => Loading formats limits root evictions rest t) := by
  have there := (Disk.find_eq_some whole.unique).mpr (h.listed _ List.mem_cons_self)
  obtain ⟨descriptor, bytes, extracted⟩ := whole.complete hex directory there
  obtain ⟨plan, metadata, read, size⟩ := readEntry_extracted extracted
  have kept (m : Machine) (fates : List Fate)
      (h : Loading formats limits root evictions ((.entry hex, directory) :: rest) m) :
      Left formats limits { m with fates } := h.refated.left whole fair
  refine safe_bind (safe_quietOp smooth (fun fates => kept m fates h) fun _ h => h) ?_
  rintro _ _ ⟨fates, rfl⟩ smooth
  refine safe_lift (fun found same => ?_) fun error failed => ?_
  · obtain rfl := Except.ok.inj (read.symm.trans same)
    refine safe_lift (fun _ _ => ?_) fun error failed => ?_
    · refine safe_bind (safe_quietOp smooth (fun fates => kept m fates h) fun _ h => h) ?_
      rintro _ _ ⟨fates, rfl⟩ smooth
      refine safe_lift (fun bytes' size' => ?_) fun error failed => ?_
      · obtain rfl := Except.ok.inj (size.symm.trans size')
        have charge := h.charge
        have weight : rowCharge formats limits (.entry hex, directory) = bytes :=
          entryCharge_extracted extracted
        rw [Disk.total, List.map_cons, List.sum_cons, weight] at charge
        have bounded := whole.total
        have total : checkedAdd u64Max m.state.bytes bytes = some (m.state.bytes + bytes) :=
          checkedAdd_eq_some.mpr ⟨by omega, rfl⟩
        rw [Faulty.yields_bind, Faulty.yields_get, Faulty.onward_ok]
        simp only [total]
        have synced : Loading formats limits root evictions ((.entry hex, directory) :: rest)
            { m with fates } := h.refated
        have loaded := @Loading.loaded _ _ _ _ _ _ _ _ synced whole.unique
          ⟨m.nextId, descriptor, plan.manifest⟩ bytes (m.nextId + 1) extracted
        exact ⟨loaded, smooth⟩
      · rw [size] at failed
        cases failed
    · rw [extracted.1, refuse, if_neg (by simp)] at failed
      cases failed
  · rw [read] at failed
    cases failed

theorem safe_loadRows (h : Loading formats limits root evictions rest m)
    (smooth : calm → m.fates = []) :
    Faulty.Yields m (Faulty.each (loadItem formats limits) rest)
      (Safe calm (Left formats limits) (Left formats limits)
        fun _ t => Loading formats limits root evictions [] t) := by
  induction rest generalizing m with
  | nil => exact ⟨h, smooth⟩
  | cons row rest ih =>
    have first : Faulty.Yields m (loadItem formats limits row)
        (Safe calm (Left formats limits) (Left formats limits)
          fun _ t => Loading formats limits root evictions rest t) := by
      obtain ⟨name, directory⟩ := row
      cases name with
      | entry hex => exact safe_loadEntry whole fair h smooth
      | staging suffix =>
        exact @safe_discard _ _ _ _ _ _ _ .staging suffix directory whole fair h smooth
      | evicting hex =>
        exact @safe_discard _ _ _ _ _ _ _ .evicting hex directory whole fair h smooth
    refine safe_bind first fun _ t loaded smooth => ?_
    exact ih loaded smooth

end Opening

section Reopening
variable {formats : Formats} {limits : ArtifactLimits} {m : Machine} {calm : Prop} {budget : Nat}

def Reloaded (root : Disk) (m t : Machine) : Prop :=
  ∃ victims, t.evictions = victims ++ m.evictions ∧ ∀ hex, hex ∈ t.state.entries.keys ↔
    (root.find (.entry hex)).isSome = true ∧ hex ∉ victims.map fun e => e.victim.1

/-- Whatever a process left, the cache opens over it unless there is a fault. -/
theorem safe_openCache (h : Left formats limits m) (state : m.state = .default)
    (smooth : calm → m.fates = []) :
    Faulty.Yields m (openCache formats limits budget) (Safe calm (Left formats limits)
      (Left formats limits) fun _ t => Indexed formats limits budget [] t ∧ Reloaded m.disk m t) := by
  have start : Loading formats limits m.disk m.evictions m.disk m := by
    refine ⟨alike_refl h.whole.unique, fun _ mem => mem, h.whole.unique, ?_, ?_, ?_, ?_, ?_, ?_, ?_,
      h.sound, rfl⟩
    · intro name there
      rw [Option.isSome_iff_exists] at there
      obtain ⟨directory, found⟩ := there
      exact .inl (List.mem_map_of_mem ((Disk.find_eq_some h.whole.unique).mp found))
    · simp [state, State.default]
    · intro hex entry found
      rw [state] at found
      cases found
    · rw [state]
      rfl
    · rw [state]
      exact Nat.zero_add _
    · intro kind
      rw [state]
      cases kind with
      | evicting => rfl
      | staging => rfl
    · rw [state]
      exact ⟨rfl, rfl⟩
  rw [openCache, Faulty.yields_bind, Faulty.yields_get, Faulty.onward_ok]
  refine safe_bind (safe_loadRows h.whole h.fair start smooth) fun _ t loaded smooth => ?_
  have indexed := loaded.indexed h.whole h.fair
  have staging : t.state.staging = .empty := loaded.pending .staging
  refine safe_mono (safe_order (guarded_evict (le_refl u64Max) indexed smooth fun _ =>
    ⟨Nat.zero_le _, rfl, by rw [staging]; rfl⟩) fun _ h => h.left (le_refl _)) ?_
  rintro _ u ⟨opened, ⟨-, -, victims, evictions, keys⟩, fit⟩
  refine ⟨opened.narrowed fit, victims, evictions.trans (by rw [loaded.evictions]), fun hex => ?_⟩
  rw [keys, indexed.key_mem, loaded.disk.entries]

end Reopening
end Ledgence.ArtifactCache
