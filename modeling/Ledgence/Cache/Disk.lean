import Ledgence.Cache.Operations

/-! The cache under its callers: any order of opening, lookups, publications and handles that come
and go, where any file operation may fail or be the last of the process. -/
open Kit Kit.Checked

namespace Ledgence.ArtifactCache

/-- An open cache. The lock on the index is poisoned once a holder was unwound. -/
structure Cache where
  budget : Nat
  state : State
  poisoned : Bool

/-- `verifying` are the handles of hits that are not verified yet, `prepared` those given away. -/
structure World where
  disk : Disk
  cache : Option Cache
  verifying : List CachedArtifact
  prepared : List CachedArtifact
  nextId : Nat
  breaches : List Breach
  evictions : List Eviction

def World.init : World :=
  ⟨[], none, [], [], 0, [], []⟩

inductive Action where
  | openCache (budget : UInt64) (fates : List Fate)
  | lookup (descriptor : ProgramDescriptor)
  | publish (suffix : String) (descriptor : ProgramDescriptor) (archive : Bytes)
      (fates : List Fate)
  /-- A hit is verified, and then touched. -/
  | verify (artifact : CachedArtifact) (fates : List Fate)
  | clone (artifact : CachedArtifact)
  | release (artifact : CachedArtifact)
  /-- The last clone of the cache is dropped. -/
  | close
  /-- The process stops between two operations. -/
  | stop

namespace World

def pins (w : World) : List CachedArtifact :=
  w.verifying ++ w.prepared

def machine (w : World) (state : State) (fates : List Fate) : Machine :=
  ⟨w.disk, state, fates, w.nextId, w.breaches, w.evictions⟩

/-- After an operation: nothing but the disk and the records outlive the process. -/
def after (w : World) (m : Machine) (cache : Option Cache) : World :=
  { w with
    disk := m.disk
    cache
    nextId := m.nextId
    breaches := m.breaches
    evictions := m.evictions }

def halted (w : World) (m : Machine) : World :=
  { w.after m none with verifying := [], prepared := [] }

def owned (w : World) : Bool :=
  w.cache.isSome || !w.pins.isEmpty

def openCache (formats : Formats) (limits : ArtifactLimits) (w : World) (budget : Nat)
    (fates : List Fate) : World :=
  if budget = 0 ∨ w.owned = true then w
  else
    match ArtifactCache.openCache formats limits budget (w.machine .default fates) with
    | (.ok _, m) => w.after m (some ⟨budget, m.state, false⟩)
    | (.error .stopped, m) => w.halted m
    | (.error (.error _), m) | (.error .unwound, m) => w.after m none

def lookup (limits : ArtifactLimits) (w : World) (descriptor : ProgramDescriptor) : World :=
  match w.cache, limits.descriptor descriptor with
  | some cache, .ok _ =>
    match cache.poisoned, cache.state.pin descriptor with
    | false, .ok (some artifact) => { w with verifying := artifact :: w.verifying }
    | _, _ => w
  | _, _ => w

def publish (formats : Formats) (limits : ArtifactLimits) (w : World) (suffix : String)
    (descriptor : ProgramDescriptor) (archive : Bytes) (fates : List Fate) : World :=
  match w.cache with
  | none => w
  | some cache =>
    if cache.poisoned = true then w
    else
      match ArtifactCache.publish formats limits cache.budget w.pins suffix descriptor archive
          (w.machine cache.state fates) with
      | (.ok (.prepared artifact), m) =>
        { w.after m (some { cache with state := m.state }) with
          prepared := artifact :: w.prepared }
      | (.ok (.pinned artifact), m) =>
        { w.after m (some { cache with state := m.state }) with
          verifying := artifact :: w.verifying }
      | (.error (.error _), m) => w.after m (some { cache with state := m.state })
      | (.error .unwound, m) => w.after m (some { cache with state := m.state, poisoned := true })
      | (.error .stopped, m) => w.halted m

/-- `CachedArtifact::verify`: neither the archive nor an extracted file has changed. -/
def check (formats : Formats) (limits : ArtifactLimits) (artifact : CachedArtifact) : Op Unit := do
  quietOp
  let m ← Faulty.get
  match m.disk.find (.entry artifact.descriptor.digest.hex) with
  | none => raise .io
  | some directory => do
    let (stored, _, _) ← liftResult (readEntry formats limits directory)
    liftResult (refuse (stored ≠ artifact.descriptor) (.invalid "cached descriptor changed"))

def verify (formats : Formats) (limits : ArtifactLimits) (w : World) (artifact : CachedArtifact)
    (fates : List Fate) : World :=
  match w.cache with
  | none => w
  | some cache =>
    if artifact ∉ w.verifying then w
    else
      let dropped := { w with verifying := w.verifying.erase artifact }
      match check formats limits artifact (w.machine cache.state fates) with
      | (.error .stopped, m) => w.halted m
      | (.error _, _) => dropped
      | (.ok _, _) =>
        if cache.poisoned = true then dropped
        else
          match cache.state.entries.find artifact.descriptor.digest.hex with
          | none =>
            { dropped with
              cache := some { cache with poisoned := true }
              breaches := .pinnedEntryEvicted :: w.breaches }
          | some _ =>
            { dropped with
              cache := some { cache with
                state := cache.state.touch artifact.descriptor.digest.hex }
              prepared := artifact :: w.prepared }

def clone (w : World) (artifact : CachedArtifact) : World :=
  if artifact ∈ w.prepared then { w with prepared := artifact :: w.prepared } else w

def release (w : World) (artifact : CachedArtifact) : World :=
  { w with prepared := w.prepared.erase artifact }

def close (w : World) : World :=
  if w.verifying.isEmpty = true then { w with cache := none } else w

def stop (w : World) : World :=
  { w with cache := none, verifying := [], prepared := [] }

def step (formats : Formats) (limits : ArtifactLimits) (w : World) : Action → World
  | .openCache budget fates => w.openCache formats limits budget.toNat fates
  | .lookup descriptor => w.lookup limits descriptor
  | .publish suffix descriptor archive fates =>
    w.publish formats limits suffix descriptor archive fates
  | .verify artifact fates => w.verify formats limits artifact fates
  | .clone artifact => w.clone artifact
  | .release artifact => w.release artifact
  | .close => w.close
  | .stop => w.stop

def run (formats : Formats) (limits : ArtifactLimits) (w : World) (actions : List Action) : World :=
  actions.foldl (step formats limits) w

end World
end Ledgence.ArtifactCache

/-! The directories under the root: complete entries, what they are charged, and what each file
operation changes. -/

namespace Ledgence.ArtifactCache
namespace Disk
variable {disk : Disk} {name other : Name} {directory old : Directory}

theorem find_eq_some (unique : Table.Unique Prod.fst disk) :
    disk.find name = some directory ↔ (name, directory) ∈ disk := by
  rw [find, Option.map_eq_some_iff]
  constructor
  · rintro ⟨row, found, rfl⟩
    obtain rfl : row.1 = name := Table.find_key found
    exact Table.find_mem found
  · exact fun mem => ⟨(name, directory), Table.find_of_mem unique mem, rfl⟩

theorem find_eq_none : disk.find name = none ↔ ∀ row ∈ disk, row.1 ≠ name := by
  rw [find, Option.map_eq_none_iff, Table.find_eq_none]

@[simp] theorem find_erase_self : (disk.erase name).find name = none := by
  rw [find_eq_none]
  intro row mem
  simpa using (List.mem_filter.mp mem).2

theorem find_erase_other (apart : other ≠ name) : (disk.erase name).find other = disk.find other := by
  rw [find, find]
  congr 1
  rw [Table.find, Table.find, erase, List.find?_filter]
  congr 1
  funext row
  by_cases same : row.1 = other
  · simp [same, apart]
  · simp [same]

@[simp] theorem find_put_self : (disk.put name directory).find name = some directory := by
  have saved : Table.find Prod.fst name (disk.put name directory) = some (name, directory) :=
    @Table.find_save_self (Name × Directory) Name _ Prod.fst (name, directory) disk
  rw [find, saved]
  rfl

theorem find_put_other (apart : other ≠ name) :
    (disk.put name directory).find other = disk.find other := by
  rw [find, put, Table.find_save_other apart.symm]
  rfl

theorem find_leave_other (apart : other ≠ name) :
    (disk.leave name directory).find other = disk.find other := by
  rw [find, leave, Table.find_put_other apart.symm]
  rfl

theorem leave_of_absent (absent : disk.find name = none) : disk.leave name directory = disk := by
  rw [find_eq_none] at absent
  exact Table.put_of_not_mem absent

theorem unique_erase (unique : Table.Unique Prod.fst disk) :
    Table.Unique Prod.fst (disk.erase name) :=
  Table.unique_filter unique _

theorem unique_leave (unique : Table.Unique Prod.fst disk) :
    Table.Unique Prod.fst (disk.leave name directory) :=
  Table.unique_put unique

theorem unique_put (unique : Table.Unique Prod.fst disk) :
    Table.Unique Prod.fst (disk.put name directory) := by
  unfold put Table.save
  split
  · exact Table.unique_put unique
  · rename_i absent
    exact Table.unique_append unique fun row mem same => absent (same ▸ List.mem_map_of_mem mem)

def total (weight : Name × Directory → Nat) (disk : Disk) : Nat :=
  (disk.map weight).sum

variable {weight : Name × Directory → Nat}

theorem total_erase (unique : Table.Unique Prod.fst disk) (found : disk.find name = some directory) :
    (disk.erase name).total weight + weight (name, directory) = disk.total weight :=
  Table.sum_erase unique ((find_eq_some unique).mp found) weight

theorem total_erase_absent (absent : disk.find name = none) :
    (disk.erase name).total weight = disk.total weight := by
  rw [find_eq_none] at absent
  have same : disk.erase name = disk := List.filter_eq_self.mpr fun row mem => by
    simpa using absent row mem
  rw [same]

theorem total_put_absent (absent : disk.find name = none) :
    (disk.put name directory).total weight = disk.total weight + weight (name, directory) := by
  rw [find_eq_none] at absent
  have new : name ∉ disk.map Prod.fst := fun mem => by
    obtain ⟨row, inside, same⟩ := List.mem_map.mp mem
    exact absent row inside same
  rw [put, Table.save, if_neg new, total, List.map_append, List.sum_append]
  simp [total]

theorem total_leave (unique : Table.Unique Prod.fst disk) (found : disk.find name = some old) :
    (disk.leave name directory).total weight + weight (name, old) =
      disk.total weight + weight (name, directory) :=
  @Table.sum_put (Name × Directory) Name _ Prod.fst (name, directory) (name, old) disk unique
    ((find_eq_some unique).mp found) rfl weight

theorem put_eq_leave (found : disk.find name = some old) :
    disk.put name directory = disk.leave name directory := by
  rw [find, Option.map_eq_some_iff] at found
  obtain ⟨row, found, -⟩ := found
  have present : name ∈ disk.map Prod.fst :=
    Table.find_key found ▸ List.mem_map_of_mem (Table.find_mem found)
  exact if_pos present

end Disk

/- Complete entries. -/

variable {formats : Formats} {limits : ArtifactLimits} {hex : String} {directory : Directory}
  {descriptor : ProgramDescriptor} {bytes : Nat}

def Extracted (formats : Formats) (limits : ArtifactLimits) (hex : String) (directory : Directory)
    (descriptor : ProgramDescriptor) (bytes : Nat) : Prop :=
  descriptor.digest.hex = hex ∧ ∃ archive plan, inspect formats limits archive descriptor = .ok plan ∧
    (formats.encode descriptor).length ≤ limits.maxDescriptorBytes ∧
    entrySize descriptor plan.expandedBytes (formats.encode descriptor).length = .ok bytes ∧
    directory = entryFiles plan archive (formats.encode descriptor)

theorem size_of_entrySize {expanded metadata : Nat}
    (size : entrySize descriptor expanded metadata = .ok bytes) : descriptor.size ≤ u64Max := by
  simp only [entrySize, okOr_eq_ok, Option.bind_eq_some_iff, checkedAdd_eq_some] at size
  omega

theorem readEntry_extracted (h : Extracted formats limits hex directory descriptor bytes) :
    ∃ plan metadata, readEntry formats limits directory = .ok (descriptor, plan, metadata) ∧
      entrySize descriptor plan.expandedBytes metadata = .ok bytes := by
  obtain ⟨-, archive, plan, inspected, short, size, rfl⟩ := h
  have checks := inspected
  simp only [inspect, bind_eq_ok, exists_unit, refuse_eq_ok, not_or, not_not] at checks
  obtain ⟨accepted, ⟨sized, -⟩, -⟩ := checks
  refine ⟨plan, (formats.encode descriptor).length, ?_, size⟩
  have encoded : readRegular (entryFiles plan archive (formats.encode descriptor)) "descriptor.json"
      limits.maxDescriptorBytes = .ok (formats.encode descriptor) := by
    simp [readRegular, entryFiles, Table.find, short]
  have stored : readRegular (entryFiles plan archive (formats.encode descriptor)) "artifact.zip"
      descriptor.size = .ok archive := by
    simp [readRegular, entryFiles, Table.find, sized]
  have decoded := formats.decode_encode descriptor (size_of_entrySize size)
  simp only [readEntry, encoded, stored, decoded, accepted, inspected, ok_bind, okOr,
    bind_eq_ok, exists_unit, refuse_eq_ok, pure_eq_ok]
  exact ⟨by simp [List.isPerm_iff.mpr (List.Perm.refl _)], trivial⟩

def entryCharge (formats : Formats) (limits : ArtifactLimits) (directory : Directory) : Nat :=
  match readEntry formats limits directory with
  | .ok (descriptor, plan, metadata) =>
    (entrySize descriptor plan.expandedBytes metadata).toOption.getD 0
  | .error _ => 0

theorem entryCharge_extracted (h : Extracted formats limits hex directory descriptor bytes) :
    entryCharge formats limits directory = bytes := by
  obtain ⟨plan, metadata, read, size⟩ := readEntry_extracted h
  simp [entryCharge, read, size, Except.toOption]

def rowCharge (formats : Formats) (limits : ArtifactLimits) : Name × Directory → Nat
  | (.entry _, directory) => entryCharge formats limits directory
  | (.staging _, _) | (.evicting _, _) => 0

@[simp] theorem rowCharge_path (kind : Kind) (name : String) :
    rowCharge formats limits (kind.path name, directory) = 0 := by
  cases kind with
  | evicting => rfl
  | staging => rfl

theorem path_ne_entry (kind : Kind) (name : String) : Name.entry hex ≠ kind.path name := by
  cases kind with
  | evicting => exact fun same => by cases same
  | staging => exact fun same => by cases same

theorem path_injective {kind other : Kind} {name name' : String}
    (same : kind.path name = other.path name') : kind = other ∧ name = name' := by
  cases kind with
  | evicting =>
    cases other with
    | evicting => exact ⟨rfl, Name.evicting.inj same⟩
    | staging => cases same
  | staging =>
    cases other with
    | evicting => cases same
    | staging => exact ⟨rfl, Name.staging.inj same⟩

structure Alike (formats : Formats) (limits : ArtifactLimits) (disk disk' : Disk) : Prop where
  unique : Table.Unique Prod.fst disk'
  entries : ∀ hex, disk'.find (.entry hex) = disk.find (.entry hex)
  total : disk'.total (rowCharge formats limits) = disk.total (rowCharge formats limits)

section Alike
variable {disk disk' disk'' : Disk} (unique : Table.Unique Prod.fst disk) (kind : Kind)
  (name : String)
include unique

theorem alike_refl : Alike formats limits disk disk :=
  ⟨unique, fun _ => rfl, rfl⟩

theorem alike_erase : Alike formats limits disk (disk.erase (kind.path name)) := by
  refine ⟨Disk.unique_erase unique, fun _ => Disk.find_erase_other (path_ne_entry kind name), ?_⟩
  cases found : disk.find (kind.path name) with
  | none => exact Disk.total_erase_absent found
  | some directory =>
    have total := @Disk.total_erase disk _ directory (rowCharge formats limits) unique found
    rwa [rowCharge_path, Nat.add_zero] at total

theorem alike_leave (directory : Directory) :
    Alike formats limits disk (disk.leave (kind.path name) directory) := by
  refine ⟨Disk.unique_leave unique, fun _ => Disk.find_leave_other (path_ne_entry kind name), ?_⟩
  cases found : disk.find (kind.path name) with
  | none => rw [Disk.leave_of_absent found]
  | some old =>
    have total := @Disk.total_leave disk _ directory old (rowCharge formats limits) unique found
    rwa [rowCharge_path, rowCharge_path, Nat.add_zero, Nat.add_zero] at total

theorem alike_put (directory : Directory) :
    Alike formats limits disk (disk.put (kind.path name) directory) := by
  cases found : disk.find (kind.path name) with
  | some old =>
    rw [Disk.put_eq_leave found]
    exact alike_leave unique kind name directory
  | none =>
    refine ⟨Disk.unique_put unique, fun _ => Disk.find_put_other (path_ne_entry kind name), ?_⟩
    rw [Disk.total_put_absent found, rowCharge_path, Nat.add_zero]

end Alike

structure Whole (formats : Formats) (limits : ArtifactLimits) (disk : Disk) : Prop where
  unique : Table.Unique Prod.fst disk
  complete : ∀ hex directory, disk.find (.entry hex) = some directory →
    ∃ descriptor bytes, Extracted formats limits hex directory descriptor bytes
  total : disk.total (rowCharge formats limits) ≤ u64Max

theorem Whole.alike {disk disk' : Disk} (h : Whole formats limits disk)
    (same : Alike formats limits disk disk') : Whole formats limits disk' where
  unique := same.unique
  complete hex directory found := h.complete hex directory (same.entries hex ▸ found)
  total := same.total ▸ h.total

end Ledgence.ArtifactCache
