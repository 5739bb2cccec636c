import Ledgence.Kit.Faulty
import Ledgence.Kit.Least
import Ledgence.Kit.OrderedMap
import Ledgence.Api.Submission

/-! The index of the artifact cache, the directories under its root, and file operations that may
fail, or be the last of their process, at any point. -/
open Kit Kit.Checked

namespace Ledgence.ArtifactCache

abbrev Bytes := List UInt8

abbrev Directory := List (String × Bytes)

/-- A directory under the root. The names are the digest in hexadecimal, `.staging-` with a
generated suffix, and `.evicting-` with the digest of the entry that was there. -/
inductive Name where
  | entry (hex : String)
  | staging (suffix : String)
  | evicting (hex : String)
  deriving DecidableEq

abbrev Disk := List (Name × Directory)

inductive AdapterError where
  | worker (error : Error)
  | invalid (message : String)
  | limit (message : String)
  | pressure
  | io
  /-- The public error of a publication whose stage could not be cleaned up. -/
  | cleanupPending (original cleanup : AdapterError)
  deriving DecidableEq

inductive Abort where
  | error (error : AdapterError)
  | stopped
  | unwound
  deriving DecidableEq

inductive Outcome where
  | done
  | failed
  | stopped
  | unwound
  deriving DecidableEq

/-- What becomes of one file operation. One that does not finish leaves anything in its directory;
a traversal measures what it can read. -/
structure Fate where
  outcome : Outcome
  left : Directory
  measured : Option Nat

def Fate.smooth : Fate := ⟨.done, [], none⟩

structure ProgramManifest where
  schemaVersion : Nat
  program : ProgramRef
  handler : String
  deriving DecidableEq

/-- A reference-counted artifact; `id` tells one allocation from another. -/
structure CachedArtifact where
  id : Nat
  descriptor : ProgramDescriptor
  manifest : ProgramManifest
  deriving DecidableEq

structure Entry where
  artifact : CachedArtifact
  bytes : Nat
  touched : Nat
  deriving DecidableEq

/-- The index; `touches` is a record of the keys touched so far, newest first. -/
structure State where
  entries : OrderedMap String Entry
  evicting : OrderedMap String Nat
  staging : OrderedMap String Nat
  clock : Nat
  bytes : Nat
  touches : List String

def State.default : State :=
  ⟨.empty, .empty, .empty, 0, 0, []⟩

inductive Breach where
  | cacheSizeOverflow
  | pinnedEntryEvicted
  deriving DecidableEq

structure Eviction where
  victim : String × Entry
  state : State
  pins : List CachedArtifact
  required : Nat
  budget : Nat

structure Machine where
  disk : Disk
  state : State
  fates : List Fate
  nextId : Nat
  breaches : List Breach
  evictions : List Eviction

abbrev Op (α : Type) := Faulty Machine Abort α

def raise {α : Type} (error : AdapterError) : Op α :=
  Faulty.fail (.error error)

def liftResult {α : Type} : Except AdapterError α → Op α
  | .ok a => pure a
  | .error error => raise error

def overflow {α : Type} : Op α := do
  Faulty.update fun m => { m with breaches := .cacheSizeOverflow :: m.breaches }
  raise (.limit "cache size overflow")

namespace Disk

def find (name : Name) (disk : Disk) : Option Directory :=
  (Table.find Prod.fst name disk).map Prod.snd

def erase (name : Name) (disk : Disk) : Disk :=
  disk.filter fun row => row.1 ≠ name

def put (name : Name) (directory : Directory) (disk : Disk) : Disk :=
  Table.save Prod.fst (name, directory) disk

/-- Whatever is left in a directory that is there. -/
def leave (name : Name) (directory : Directory) (disk : Disk) : Disk :=
  Table.put Prod.fst (name, directory) disk

end Disk

def nextFate : Op Fate := do
  let m ← Faulty.get
  Faulty.update fun m => { m with fates := m.fates.tail }
  return m.fates.headD .smooth

def fileOp (done : Disk → Disk) (partly : Directory → Disk → Disk) : Op Unit := do
  let fate ← nextFate
  match fate.outcome with
  | .done => Faulty.update fun m => { m with disk := done m.disk }
  | .failed => do
    Faulty.update fun m => { m with disk := partly fate.left m.disk }
    raise .io
  | .stopped => do
    Faulty.update fun m => { m with disk := partly fate.left m.disk }
    Faulty.fail .stopped
  | .unwound => do
    Faulty.update fun m => { m with disk := partly fate.left m.disk }
    Faulty.fail .unwound

def quietOp : Op Unit :=
  fileOp id fun _ => id

def attempt {α : Type} (x : Op α) : Op (Except AdapterError α) := fun m =>
  match x m with
  | (.ok a, m') => (.ok (.ok a), m')
  | (.error (.error error), m') => (.ok (.error error), m')
  | (.error .stopped, m') => (.error .stopped, m')
  | (.error .unwound, m') => (.error .unwound, m')

/-- `remove_tree`; a tree that is already gone counts as removed. -/
def removeTree (name : Name) : Op Unit :=
  fileOp (Disk.erase name) (Disk.leave name)

/-- `remaining_bytes`; a remainder never exceeds what was charged for it. -/
def remainingBytes (charged : Nat) : Op Nat := do
  let fate ← nextFate
  match fate.outcome with
  | .done | .failed => return (fate.measured.filter (· ≤ charged)).getD charged
  | .stopped => Faulty.fail .stopped
  | .unwound => Faulty.fail .unwound

end Ledgence.ArtifactCache

/-! The operations of the artifact cache that hold the lock on its index, each as the file
operations it makes. -/

namespace Ledgence

def Digest.hex (digest : Digest) : String :=
  if digest.text.toList.take 7 = "sha256:".toList then String.ofList (digest.text.toList.drop 7)
  else digest.text

namespace ArtifactCache

structure ArchivePlan where
  manifest : ProgramManifest
  expandedBytes : Nat
  content : List (String × Bytes)

/-- The hash, the archive format with its own limits, and the JSON of descriptors. -/
structure Formats where
  sha256 : Bytes → String
  unpack : ProgramDescriptor → Bytes → Except AdapterError ArchivePlan
  encode : ProgramDescriptor → Bytes
  decode : Bytes → Option ProgramDescriptor
  /-- The size of a descriptor is a `u64`. -/
  decode_encode : ∀ descriptor, descriptor.size ≤ u64Max → decode (encode descriptor) = some descriptor

structure ArtifactLimits where
  maxArchiveBytes : Nat
  maxDescriptorBytes : Nat

section Entries
variable (formats : Formats) (limits : ArtifactLimits)

def ArtifactLimits.descriptor (descriptor : ProgramDescriptor) : Except AdapterError Unit := do
  Except.mapError .worker descriptor.validate
  refuse (limits.maxArchiveBytes < descriptor.size) (.limit "compressed archive bytes")

def inspect (archive : Bytes) (descriptor : ProgramDescriptor) :
    Except AdapterError ArchivePlan := do
  limits.descriptor descriptor
  refuse (archive.length ≠ descriptor.size ∨ formats.sha256 archive ≠ descriptor.digest.hex)
    (.invalid "archive size or SHA-256 does not match descriptor")
  formats.unpack descriptor archive

def contentFiles (plan : ArchivePlan) : Directory :=
  plan.content.map fun file => ("content/" ++ file.1, file.2)

def entryFiles (plan : ArchivePlan) (archive encoded : Bytes) : Directory :=
  ("artifact.zip", archive) :: ("descriptor.json", encoded) :: contentFiles plan

def entrySize (descriptor : ProgramDescriptor) (expanded metadata : Nat) :
    Except AdapterError Nat :=
  okOr ((checkedAdd u64Max descriptor.size expanded).bind fun v => checkedAdd u64Max v metadata)
    (.limit "cache size overflow")

def readRegular (directory : Directory) (path : String) (limit : Nat) :
    Except AdapterError Bytes := do
  let file ← okOr (Table.find Prod.fst path directory) .io
  refuse (limit < file.2.length) (.limit "cached bytes")
  return file.2

def readEntry (directory : Directory) : Except AdapterError (ProgramDescriptor × ArchivePlan × Nat) := do
  let encoded ← readRegular directory "descriptor.json" limits.maxDescriptorBytes
  let descriptor ← okOr (formats.decode encoded) (.invalid "descriptor")
  limits.descriptor descriptor
  let archive ← readRegular directory "artifact.zip" descriptor.size
  let plan ← inspect formats limits archive descriptor
  refuse (directory.isPerm (entryFiles plan archive encoded) = false)
    (.invalid "unexpected cached files")
  return (descriptor, plan, encoded.length)

end Entries

/- Pending cleanups. -/

inductive Kind where
  | evicting
  | staging
  deriving DecidableEq

def Kind.path : Kind → String → Name
  | .evicting => .evicting
  | .staging => .staging

namespace State

def pending (s : State) : Kind → OrderedMap String Nat
  | .evicting => s.evicting
  | .staging => s.staging

def setPending (s : State) (kind : Kind) (pending : OrderedMap String Nat) : State :=
  match kind with
  | .evicting => { s with evicting := pending }
  | .staging => { s with staging := pending }

def pin (s : State) (descriptor : ProgramDescriptor) :
    Except AdapterError (Option CachedArtifact) :=
  match s.entries.find descriptor.digest.hex with
  | none => .ok none
  | some entry =>
    if entry.artifact.descriptor ≠ descriptor then
      .error (.invalid "descriptor differs from cached immutable identity")
    else .ok (some entry.artifact)

def touch (s : State) (hex : String) : State :=
  let clock := saturatingAdd u64Max s.clock 1
  { s with
    clock
    entries := s.entries.modify hex fun entry => { entry with touched := clock }
    touches := hex :: s.touches }

def register (s : State) (suffix hex : String) (artifact : CachedArtifact) (bytes : Nat) : State :=
  let clock := saturatingAdd u64Max s.clock 1
  { s with
    clock
    staging := s.staging.erase suffix
    entries := s.entries.insert hex ⟨artifact, bytes, clock⟩
    touches := hex :: s.touches }

end State

def updateState (f : State → State) : Op Unit :=
  Faulty.update fun m => { m with state := f m.state }

def recharge (kind : Kind) (name : String) (charged remaining : Nat) : Op Unit := do
  let m ← Faulty.get
  match (checkedSub m.state.bytes charged).bind fun bytes => checkedAdd u64Max bytes remaining with
  | none => overflow
  | some bytes =>
    updateState fun s =>
      { s.setPending kind ((s.pending kind).insert name remaining) with bytes }

def remainder (charged : Nat) : Except AdapterError Unit → Op Nat
  | .ok _ => pure 0
  | .error _ => remainingBytes charged

/-- One turn of `clean_pending`. -/
def cleanOne (kind : Kind) (row : String × Nat) : Op Unit := do
  -- Persist the private cleanup name before recursive deletion.
  quietOp
  let result ← attempt (removeTree (kind.path row.1))
  let remaining ← remainder row.2 result
  recharge kind row.1 row.2 remaining
  liftResult result
  quietOp
  updateState fun s => s.setPending kind ((s.pending kind).erase row.1)

def cleanPending (kind : Kind) : Op Unit := do
  let m ← Faulty.get
  Faulty.each (cleanOne kind) (m.state.pending kind).entries

/- Eviction. -/

def strongCount (pins : List CachedArtifact) (artifact : CachedArtifact) : Nat :=
  1 + pins.countP fun pin => pin.id = artifact.id

def unpinned (pins : List CachedArtifact) (s : State) : List (String × Entry) :=
  s.entries.entries.filter fun row => strongCount pins row.2.artifact = 1

def victim (pins : List CachedArtifact) (s : State) : Option (String × Entry) :=
  Least.minBy (fun a b => a.2.touched ≤ b.2.touched) (unpinned pins s)

def rename (source target : Name) : Op Unit := do
  let m ← Faulty.get
  match m.disk.find source, m.disk.find target with
  | some directory, none => fileOp (fun disk => (disk.erase source).put target directory) fun _ => id
  | _, _ => raise .io

def evictOne (pins : List CachedArtifact) (required budget : Nat) : Op Unit := do
  let m ← Faulty.get
  match victim pins m.state with
  | none => raise .pressure
  | some row => do
    quietOp
    if (m.disk.find (.evicting row.1)).isSome = true then
      raise (.invalid "unexpected eviction target")
    else do
      -- Once renamed it is never offered as a cache hit again.
      rename (.entry row.1) (.evicting row.1)
      Faulty.update fun m => { m with
        state := { m.state with
          entries := m.state.entries.erase row.1
          evicting := m.state.evicting.insert row.1 row.2.bytes }
        evictions := ⟨row, m.state, pins, required, budget⟩ :: m.evictions }
      cleanPending .evicting

def evictLoop (pins : List CachedArtifact) (required budget : Nat) : Nat → Op Unit
  | 0 => do
    let m ← Faulty.get
    if budget - required < m.state.bytes then raise .pressure else pure ()
  | turns + 1 => do
    let m ← Faulty.get
    if budget - required < m.state.bytes then do
      evictOne pins required budget
      evictLoop pins required budget turns
    else pure ()

def evict (pins : List CachedArtifact) (required budget : Nat) : Op Unit := do
  if budget < required then raise (.limit "artifact exceeds entire cache budget")
  else do
    -- No new publication can ignore space still held by a failed cleanup.
    cleanPending .evicting
    let m ← Faulty.get
    evictLoop pins required budget m.state.entries.entries.length

/- Publication. -/

def writeStage (suffix : String) (files : Directory) : Op Unit :=
  fileOp (fun disk => disk.put (.staging suffix) (((disk.find (.staging suffix)).getD []) ++ files))
    (Disk.leave (.staging suffix))

def finishStage (plan : ArchivePlan) (archive encoded : Bytes) (suffix hex : String) : Op Unit := do
  writeStage suffix [("artifact.zip", archive)]
  writeStage suffix [("descriptor.json", encoded)]
  writeStage suffix (contentFiles plan)
  -- The wrapper becomes writable by its owner and is synced.
  quietOp
  quietOp
  rename (.staging suffix) (.entry hex)

/-- A stage that is unwound is removed if possible; failing again ends the process. -/
def staged (suffix : String) (x : Op Unit) : Op (Except AdapterError Unit) := fun m =>
  match attempt x m with
  | (.error .unwound, m') =>
    match removeTree (.staging suffix) m' with
    | (.ok _, m'') | (.error (.error _), m'') => (.error .unwound, m'')
    | (.error .stopped, m'') | (.error .unwound, m'') => (.error .stopped, m'')
  | r => r

inductive Published where
  | prepared (artifact : CachedArtifact)
  /-- The entry is there, and the hit is still to be verified. -/
  | pinned (artifact : CachedArtifact)

/-- Reserve before any file write: partial writes remain charged. -/
def reserve (suffix : String) (bytes : Nat) : Op Unit := do
  let m ← Faulty.get
  match checkedAdd u64Max m.state.bytes bytes with
  | none => overflow
  | some total =>
    updateState fun s => { s with bytes := total, staging := s.staging.insert suffix bytes }

def makeStage (suffix : String) : Op Unit := do
  let m ← Faulty.get
  if (m.disk.find (.staging suffix)).isSome = true then raise .io
  else fileOp (Disk.put (.staging suffix) []) fun _ => id

def rollBack (original : AdapterError) : Op Published := do
  match ← attempt (cleanPending .staging) with
  | .ok _ => raise original
  | .error cleanup => raise (.cleanupPending original cleanup)

def newArtifact (descriptor : ProgramDescriptor) (manifest : ProgramManifest) :
    Op CachedArtifact := do
  let m ← Faulty.get
  Faulty.update fun m => { m with nextId := m.nextId + 1 }
  return ⟨m.nextId, descriptor, manifest⟩

def publishNew (budget : Nat) (pins : List CachedArtifact) (suffix : String)
    (descriptor : ProgramDescriptor) (plan : ArchivePlan) (archive encoded : Bytes) (bytes : Nat) :
    Op Published := do
  evict pins bytes budget
  makeStage suffix
  reserve suffix bytes
  match ← staged suffix (finishStage plan archive encoded suffix descriptor.digest.hex) with
  | .error original => rollBack original
  | .ok _ => do
    let artifact ← newArtifact descriptor plan.manifest
    updateState fun s => s.register suffix descriptor.digest.hex artifact bytes
    -- Registered before the final durability barrier, so a failed sync stays recoverable.
    quietOp
    return .prepared artifact

def publish (formats : Formats) (limits : ArtifactLimits) (budget : Nat)
    (pins : List CachedArtifact) (suffix : String) (descriptor : ProgramDescriptor)
    (archive : Bytes) : Op Published := do
  let plan ← liftResult (inspect formats limits archive descriptor)
  let encoded := formats.encode descriptor
  liftResult (refuse (limits.maxDescriptorBytes < encoded.length) (.limit "descriptor bytes"))
  let bytes ← liftResult (entrySize descriptor plan.expandedBytes encoded.length)
  cleanPending .staging
  let m ← Faulty.get
  match ← liftResult (m.state.pin descriptor) with
  | some artifact => return .pinned artifact
  | none => publishNew budget pins suffix descriptor plan archive encoded bytes

/- Opening. -/

def loadEntry (formats : Formats) (limits : ArtifactLimits) (hex : String) (directory : Directory) :
    Op Unit := do
  quietOp
  let (descriptor, plan, metadata) ← liftResult (readEntry formats limits directory)
  liftResult (refuse (descriptor.digest.hex ≠ hex) (.invalid "cache directory differs from digest"))
  -- The wrapper of an earlier version becomes writable, and is synced.
  quietOp
  let bytes ← liftResult (entrySize descriptor plan.expandedBytes metadata)
  let m ← Faulty.get
  match checkedAdd u64Max m.state.bytes bytes with
  | none => overflow
  | some total => do
    let artifact ← newArtifact descriptor plan.manifest
    updateState fun s => { s with
      bytes := total
      entries := s.entries.insert hex ⟨artifact, bytes, 0⟩ }

/-- Persist an interrupted rename before deleting its target. -/
def discard (name : Name) : Op Unit := do
  quietOp
  removeTree name
  quietOp

def loadItem (formats : Formats) (limits : ArtifactLimits) (row : Name × Directory) : Op Unit :=
  match row.1 with
  | .staging suffix => discard (.staging suffix)
  | .evicting hex => discard (.evicting hex)
  | .entry hex => loadEntry formats limits hex row.2

def openCache (formats : Formats) (limits : ArtifactLimits) (budget : Nat) : Op Unit := do
  let m ← Faulty.get
  Faulty.each (loadItem formats limits) m.disk
  evict [] 0 budget

end ArtifactCache
end Ledgence
