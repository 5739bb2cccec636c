import Ledgence.Cache.Formats
import Ledgence.Cache.Opened

/-! Any order of the callers' actions with any faults: the index accounts for the disk, handles keep
their entries, and a process that stops anywhere leaves complete entries to the next one. -/
open Kit Kit.Checked

namespace Ledgence.ArtifactCache.World

section Invariants
variable (formats : Formats) (limits : ArtifactLimits)

structure Sound (w : World) : Prop where
  left : Left formats limits (w.machine .default [])
  opened : ∀ cache, w.cache = some cache →
    cache.budget ≤ u64Max ∧ Indexed formats limits cache.budget w.pins (w.machine cache.state [])
  held : ∀ pin ∈ w.pins, ∃ bytes, Stored formats limits w.disk pin.descriptor.digest.hex pin.descriptor bytes

structure Accounted (w : World) : Prop where
  balance : ∀ cache, w.cache = some cache →
    cache.state.bytes = cache.state.charged ∧ cache.state.bytes ≤ cache.budget
  entries : ∀ cache, w.cache = some cache → ∀ hex,
    hex ∈ cache.state.entries.keys ↔ (w.disk.find (.entry hex)).isSome = true
  pending : ∀ cache, w.cache = some cache → ∀ kind name,
    (w.disk.find (Kind.path kind name)).isSome = true → name ∈ (cache.state.pending kind).keys
  pinned : ∀ cache, w.cache = some cache → ∀ pin ∈ w.pins, ∃ entry,
    cache.state.entries.find pin.descriptor.digest.hex = some entry ∧ entry.artifact = pin
  held : ∀ pin ∈ w.pins, ∃ bytes, Stored formats limits w.disk pin.descriptor.digest.hex pin.descriptor bytes
  sound : w.breaches = []
  fair : ∀ e ∈ w.evictions, e.Fair
  complete : ∀ hex directory, w.disk.find (.entry hex) = some directory →
    ∃ descriptor bytes, Extracted formats limits hex directory descriptor bytes

/-- The process stops and the cache is opened again: it has the entries of the root, less those that
are taken for its budget, and it does open unless a file operation fails. -/
def Reopens (w : World) : Prop :=
  ∀ (budget : UInt64) (fates : List Fate),
    (∀ cache, (w.stop.step formats limits (.openCache budget fates)).cache = some cache →
      ∃ victims, (w.stop.step formats limits (.openCache budget fates)).evictions =
          victims ++ w.evictions ∧
        ∀ hex, hex ∈ cache.state.entries.keys ↔
          (w.disk.find (.entry hex)).isSome = true ∧ hex ∉ victims.map fun e => e.victim.1) ∧
    (fates = [] → budget ≠ 0 →
      (w.stop.step formats limits (.openCache budget fates)).cache.isSome = true)

end Invariants

variable {formats : Formats} {limits : ArtifactLimits} {w : World} {cache : Cache} {fates : List Fate}
  {m : Machine} {artifact : CachedArtifact}

theorem sound_of_indexed (fates : List Fate) (opened : w.cache = some cache) (bounded : cache.budget ≤ u64Max)
    (h : Indexed formats limits cache.budget w.pins (w.machine cache.state fates)) :
    Sound formats limits w := by
  have left := h.left bounded
  refine ⟨⟨left.whole, left.sound, left.fair⟩, fun other same => ?_, fun pin held => ?_⟩
  · obtain rfl := Option.some.inj (opened.symm.trans same)
    exact ⟨bounded, h.refated w.nextId⟩
  · obtain ⟨entry, found, rfl⟩ := h.pinned pin held
    exact ⟨entry.bytes, h.present _ entry found⟩

/-- Without an open cache the handles that are out keep the owner of the root. -/
theorem sound_of_left (closed : w.cache = none) (h : Left formats limits (w.machine .default []))
    (held : ∀ pin ∈ w.pins, ∃ bytes,
      Stored formats limits w.disk pin.descriptor.digest.hex pin.descriptor bytes) :
    Sound formats limits w :=
  ⟨h, fun _ opened => absurd (closed.symm.trans opened) (by simp), held⟩

theorem sound_halted (h : Left formats limits m) : Sound formats limits (w.halted m) := by
  refine sound_of_left rfl ⟨h.whole, h.sound, h.fair⟩ fun pin held => ?_
  simp [pins, halted] at held

theorem Sound.repinned (h : Sound formats limits w) (opened : w.cache = some cache)
    {verifying prepared : List CachedArtifact}
    (pinned : ∀ pin ∈ verifying ++ prepared, ∃ entry,
      cache.state.entries.find pin.descriptor.digest.hex = some entry ∧ entry.artifact = pin) :
    Sound formats limits { w with verifying, prepared } := by
  obtain ⟨bounded, indexed⟩ := h.opened cache opened
  exact sound_of_indexed [] opened bounded (indexed.repinned pinned)

theorem Sound.fewer (h : Sound formats limits w) {verifying prepared : List CachedArtifact}
    (less : ∀ pin ∈ verifying ++ prepared, pin ∈ w.pins) :
    Sound formats limits { w with verifying, prepared } := by
  obtain closed | ⟨cache, opened⟩ := Option.eq_none_or_eq_some w.cache
  · exact sound_of_left closed h.left fun pin mem => h.held pin (less pin mem)
  · exact h.repinned opened fun pin mem => (h.opened cache opened).2.pinned pin (less pin mem)

theorem sound_init : Sound formats limits init := by
  refine sound_of_left rfl ⟨⟨List.nodup_nil, ?_, Nat.zero_le _⟩, rfl, by simp [machine, init]⟩ ?_
  · intro hex directory found
    cases found
  · simp [pins, init]

theorem sound_openCache (h : Sound formats limits w) {budget : Nat} (bounded : budget ≤ u64Max) :
    Sound formats limits (w.openCache formats limits budget fates) := by
  rw [openCache]
  split
  · exact h
  · rename_i free
    have free' : w.owned = false := by simpa using (not_or.mp free).2
    have empty : w.pins = [] := by simpa [owned] using (Bool.or_eq_false_iff.mp free').2
    have start : Left formats limits (w.machine .default fates) := ⟨h.left.whole, h.left.sound, h.left.fair⟩
    have opened := @safe_openCache formats limits _ False budget start rfl smooth_false
    rw [Faulty.Yields] at opened
    cases ended : ArtifactCache.openCache formats limits budget (w.machine .default fates) with
    | mk result m =>
      rw [ended] at opened
      cases result with
      | ok done =>
        refine sound_of_indexed m.fates rfl bounded ?_
        have indexed := opened.1.1
        change Indexed formats limits budget (w.after m _).pins m
        rwa [show (w.after m (some ⟨budget, m.state, false⟩)).pins = [] from empty]
      | error abort =>
        have closed (left : Left formats limits m) : Sound formats limits (w.after m none) :=
          sound_of_left rfl ⟨left.whole, left.sound, left.fair⟩ fun pin held => by
            have held : pin ∈ w.pins := held
            simp [empty] at held
        cases abort with
        | error error => exact closed opened.2
        | unwound => exact closed opened.2
        | stopped => exact sound_halted opened.2

theorem sound_lookup (h : Sound formats limits w) (descriptor : ProgramDescriptor) :
    Sound formats limits (w.lookup limits descriptor) := by
  rw [lookup]
  split
  · rename_i cache _ opened _
    split
    · rename_i artifact _ pinned
      refine h.repinned opened fun pin mem => ?_
      obtain rfl | old := List.mem_cons.mp mem
      · obtain ⟨same, entry, found, held⟩ := pin_eq_some pinned
        exact ⟨entry, same ▸ found, held⟩
      · exact (h.opened cache opened).2.pinned pin old
    · exact h
  · exact h

theorem sound_returned {published : Published} (bounded : cache.budget ≤ u64Max)
    (h : Returned formats limits cache.budget w.pins published m) {verifying prepared : List CachedArtifact}
    (new : ∀ pin ∈ verifying ++ prepared, pin ∈ w.pins ∨ published = .prepared pin ∨
      published = .pinned pin) :
    Sound formats limits { w.after m (some { cache with state := m.state }) with verifying, prepared } := by
  refine sound_of_indexed m.fates rfl bounded (h.1.repinned fun pin mem => ?_)
  obtain old | given := new pin mem
  · exact h.1.pinned pin old
  · exact h.2 pin given

theorem sound_publish (h : Sound formats limits w) {suffix : String} {descriptor : ProgramDescriptor}
    {archive : Bytes} : Sound formats limits (w.publish formats limits suffix descriptor archive fates) := by
  rw [publish]
  split
  · exact h
  · rename_i cache opened
    obtain ⟨bounded, indexed⟩ := h.opened cache opened
    have start : Indexed formats limits cache.budget w.pins (w.machine cache.state fates) :=
      indexed.refated w.nextId
    have published := @guarded_publish _ _ _ _ _ suffix descriptor archive bounded start
    rw [Faulty.Yields] at published
    split
    · exact h
    · cases ended : ArtifactCache.publish formats limits cache.budget w.pins suffix descriptor archive
          (w.machine cache.state fates) with
      | mk result m =>
        rw [ended] at published
        cases result with
        | ok given =>
          cases given with
          | prepared artifact =>
            refine sound_returned bounded published.1 fun pin mem => ?_
            obtain old | new := List.mem_append.mp mem
            · exact .inl (List.mem_append_left _ old)
            · obtain rfl | old := List.mem_cons.mp new
              · exact .inr (.inl rfl)
              · exact .inl (List.mem_append_right _ old)
          | pinned artifact =>
            refine sound_returned bounded published.1 fun pin mem => ?_
            obtain rfl | old := List.mem_cons.mp mem
            · exact .inr (.inr rfl)
            · exact .inl old
        | error abort =>
          cases abort with
          | error error => exact sound_of_indexed m.fates rfl bounded published.2
          | unwound => exact sound_of_indexed m.fates rfl bounded published.2
          | stopped => exact sound_halted published.2

/-- Verification reads, and changes nothing but what faults are to come. -/
theorem yields_check {m : Machine} : Faulty.Yields m (check formats limits artifact)
    (Safe False (fun t => ∃ fates, t = { m with fates }) (fun t => ∃ fates, t = { m with fates })
      fun _ t => ∃ fates, t = { m with fates }) := by
  refine safe_bind (safe_quietOp smooth_false (fun fates => ⟨fates, rfl⟩) fun _ h => h) ?_
  rintro _ _ ⟨fates, rfl⟩ -
  rw [Faulty.yields_bind, Faulty.yields_get, Faulty.onward_ok]
  split
  · exact safe_raise id ⟨fates, rfl⟩
  · refine safe_lift ?_ fun _ _ => ⟨id, fates, rfl⟩
    rintro ⟨stored, plan, metadata⟩ -
    by_cases changed : stored ≠ artifact.descriptor
    · change Faulty.Yields _ (liftResult (refuse (stored ≠ artifact.descriptor) _)) _
      rw [refuse, if_pos changed]
      exact safe_raise id ⟨fates, rfl⟩
    · change Faulty.Yields _ (liftResult (refuse (stored ≠ artifact.descriptor) _)) _
      rw [refuse, if_neg changed]
      exact safe_pure smooth_false ⟨fates, rfl⟩

theorem sound_verify (h : Sound formats limits w) :
    Sound formats limits (w.verify formats limits artifact fates) := by
  have less : ∀ pin ∈ w.verifying.erase artifact ++ w.prepared, pin ∈ w.pins := fun pin mem => by
    obtain old | old := List.mem_append.mp mem
    · exact List.mem_append_left _ (List.mem_of_mem_erase old)
    · exact List.mem_append_right _ old
  have dropped : Sound formats limits { w with verifying := w.verifying.erase artifact } :=
    h.fewer less
  rw [verify]
  split
  · exact h
  · rename_i cache opened
    split
    · exact h
    · rename_i held
      have verifying : artifact ∈ w.verifying := by simpa using held
      have checked := @yields_check formats limits artifact (w.machine cache.state fates)
      rw [Faulty.Yields] at checked
      cases ended : check formats limits artifact (w.machine cache.state fates) with
      | mk result m =>
        rw [ended] at checked
        cases result with
        | error abort =>
          cases abort with
          | error error => exact dropped
          | unwound => exact dropped
          | stopped =>
            obtain ⟨-, fates', rfl⟩ := checked
            exact sound_halted ⟨h.left.whole, h.left.sound, h.left.fair⟩
        | ok done =>
          change Sound formats limits (if cache.poisoned = true then _ else _)
          split
          · exact dropped
          · obtain ⟨bounded, indexed⟩ := h.opened cache opened
            obtain ⟨entry, found, same⟩ := indexed.pinned artifact (List.mem_append_left _ verifying)
            simp only [show cache.state.entries.find artifact.descriptor.digest.hex = some entry from found]
            have touched := @Indexed.touched _ _ _ _ _ artifact.descriptor.digest.hex indexed
            refine sound_of_indexed [] rfl bounded (touched.repinned fun pin mem => ?_)
            refine touched.pinned pin ?_
            obtain old | new := List.mem_append.mp mem
            · exact less pin (List.mem_append_left _ old)
            · obtain rfl | old := List.mem_cons.mp new
              · exact List.mem_append_left _ verifying
              · exact List.mem_append_right _ old

theorem sound_step (h : Sound formats limits w) (action : Action) :
    Sound formats limits (w.step formats limits action) := by
  cases action with
  | openCache budget fates => exact sound_openCache h (Nat.le_of_lt_succ budget.toNat_lt)
  | lookup descriptor => exact sound_lookup h descriptor
  | publish suffix descriptor archive fates => exact sound_publish h
  | verify artifact fates => exact sound_verify h
  | clone artifact =>
    change Sound formats limits (w.clone artifact)
    rw [clone]
    split
    · rename_i held
      refine h.fewer fun pin mem => ?_
      obtain old | new := List.mem_append.mp mem
      · exact List.mem_append_left _ old
      · obtain rfl | old := List.mem_cons.mp new
        · exact List.mem_append_right _ held
        · exact List.mem_append_right _ old
    · exact h
  | release artifact =>
    refine h.fewer fun pin mem => ?_
    obtain old | old := List.mem_append.mp mem
    · exact List.mem_append_left _ old
    · exact List.mem_append_right _ (List.mem_of_mem_erase old)
  | close =>
    change Sound formats limits w.close
    rw [close]
    split
    · exact sound_of_left rfl h.left h.held
    · exact h
  | stop => exact sound_of_left rfl h.left (by simp [pins, stop, step])

theorem sound_run (h : Sound formats limits w) (actions : List Action) :
    Sound formats limits (w.run formats limits actions) := by
  induction actions generalizing w with
  | nil => exact h
  | cons action actions ih => exact ih (sound_step h action)

theorem Sound.accounted (h : Sound formats limits w) : Accounted formats limits w where
  balance cache opened :=
    have indexed := (h.opened cache opened).2
    ⟨indexed.balance, indexed.within⟩
  entries cache opened _ := (h.opened cache opened).2.key_mem
  pending cache opened := (h.opened cache opened).2.pending
  pinned cache opened := (h.opened cache opened).2.pinned
  held := h.held
  sound := h.left.sound
  fair := h.left.fair
  complete := h.left.whole.complete

theorem Sound.reopens (h : Sound formats limits w) : Reopens formats limits w := by
  intro budget fates
  have start : Left formats limits (w.stop.machine .default fates) :=
    ⟨h.left.whole, h.left.sound, h.left.fair⟩
  have opened := @safe_openCache formats limits _ (fates = []) budget.toNat start rfl id
  rw [Faulty.Yields] at opened
  have free : w.stop.owned = false := rfl
  rw [step, World.openCache]
  by_cases zero : budget.toNat = 0
  · rw [if_pos (.inl zero)]
    refine ⟨fun _ there => (by cases there), fun _ some => ?_⟩
    exact absurd (UInt64.toNat_inj.mp zero) some
  · rw [if_neg (by simp [zero, free])]
    cases ended : ArtifactCache.openCache formats limits budget.toNat (w.stop.machine .default fates) with
    | mk result m =>
      rw [ended] at opened
      cases result with
      | ok done =>
        obtain ⟨⟨-, victims, evictions, keys⟩, -⟩ := opened
        refine ⟨fun cache opened => ?_, fun _ _ => rfl⟩
        obtain rfl := Option.some.inj opened
        exact ⟨victims, evictions, keys⟩
      | error abort =>
        cases abort with
        | error error =>
          exact ⟨fun _ there => (by cases there), fun calm => absurd calm opened.1⟩
        | unwound =>
          exact ⟨fun _ there => (by cases there), fun calm => absurd calm opened.1⟩
        | stopped =>
          exact ⟨fun _ there => (by cases there), fun calm => absurd calm opened.1⟩

/-- From an empty root, under any actions with any faults, the size of the cache is what its
entries, its evicted entries and its stages are charged, within the budget; nothing that the code
takes to be impossible happens; handles keep their entries; evictions are of need and take what was
touched least recently; every entry on the disk is complete; and the cache opens again over whatever
a process leaves. -/
theorem cache_accounted (formats : Formats) (limits : ArtifactLimits) (actions : List Action) :
    Accounted formats limits (init.run formats limits actions) ∧
      Reopens formats limits (init.run formats limits actions) :=
  have sound := sound_run (@sound_init formats limits) actions
  ⟨sound.accounted, sound.reopens⟩

/- Two releases of one program, of which the budget holds one. -/

def laterManifestText : Bytes := ProgramArchive.manifestText "2"

def laterArchive : Bytes :=
  ProgramArchive.packed
    (ProgramArchive.sampleHeader [61, 53, 182, 158, 177, 0, 0, 0, 177, 0, 0, 0, 21, 0, 0, 0])
    laterManifestText

def laterDigest : String := "de53834761772f6e0b27673dc7a60e47301999850588a5055df550215f84976f"

def releases : ProgramArchive.Formats where
  sha256 bytes :=
    if bytes = laterArchive then ProgramArchive.unhexText laterDigest
    else ProgramArchive.sampleFormats.sha256 bytes
  zip bytes :=
    if bytes = laterArchive then .ok ⟨0, ProgramArchive.packedEntries laterManifestText, .ok false⟩
    else ProgramArchive.sampleFormats.zip bytes
  manifest bytes :=
    if bytes = laterManifestText then
      .ok { ProgramArchive.sampleManifest with program := ⟨"echo", "2"⟩ }
    else ProgramArchive.sampleFormats.manifest bytes

def sampleFormats : Formats :=
  .ofLibraries .ofZeros Serde.ofZeros_correct ⟨"linux", "x86_64"⟩ releases ProgramArchive.sampleLimits

def sampleLimits : ArtifactLimits := ProgramArchive.sampleLimits.toArtifactLimits

def laterDescriptor : ProgramDescriptor :=
  ⟨⟨"echo", "2"⟩, ⟨"sha256:" ++ laterDigest⟩, 429⟩

def sampleRun : List Action :=
  [.openCache 1000 [],
    .publish "a" ProgramArchive.sampleDescriptor ProgramArchive.sampleArchive [],
    .release ⟨0, ProgramArchive.sampleDescriptor, ⟨1, ⟨"echo", "1"⟩, "app:run"⟩⟩,
    .publish "b" laterDescriptor laterArchive [], .stop, .openCache 1000 []]

theorem sample_ends : ((init.run sampleFormats sampleLimits sampleRun).evictions.map (fun e => e.victim.1),
      (init.run sampleFormats sampleLimits sampleRun).cache.map fun cache => cache.state.entries.keys) =
    ([ProgramArchive.sampleDigest], some [laterDigest]) := by
  decide +kernel

/-- The second release evicts the first, and is there after the process has stopped. -/
theorem cache_accounted_sample : let w := init.run sampleFormats sampleLimits sampleRun
    (w.evictions.map fun e => e.victim.1) = [ProgramArchive.sampleDigest] ∧
    (w.cache.map fun cache => cache.state.entries.keys) = some [laterDigest] ∧
    Accounted sampleFormats sampleLimits w ∧ Reopens sampleFormats sampleLimits w := by
  obtain ⟨evicted, kept⟩ := Prod.mk.inj sample_ends
  exact ⟨evicted, kept, cache_accounted sampleFormats sampleLimits sampleRun⟩

end Ledgence.ArtifactCache.World
