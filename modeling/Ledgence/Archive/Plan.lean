import Ledgence.Archive.Grammar
import Ledgence.Kit.FileTree
import Mathlib.Data.List.Infix
import Ledgence.Cache.Operations
import Ledgence.Kit.Utf8

/-! The names of the members of a program archive, and the paths that they name. -/
open Kit Kit.Checked

namespace Ledgence.ProgramArchive
open ArtifactCache (Abort Bytes)

def invalid (message : String) : Abort := .error (.invalid message)
def limit (message : String) : Abort := .error (.limit message)

def toAsciiLowercase (s : String) : String := String.ofList (s.toList.map Char.toLower)
def toAsciiUppercase (s : String) : String := String.ofList (s.toList.map Char.toUpper)

abbrev Path := List String

def components (name : String) : Path :=
  (name.toList.splitOn '/').map String.ofList

def spelling (path : Path) : String :=
  String.ofList (['/'].intercalate (path.map String.toList))

def ancestors : Path → List Path
  | [] => []
  | component :: rest => (ancestors rest).map (component :: ·) ++ [[component]]

def parents (path : Path) : List Path :=
  ancestors path.dropLast

def descend (directory : Path) : Path → Path
  | [] => directory
  | component :: rest =>
    if component = "" ∨ component = "." then descend directory rest
    else if component = ".." then descend directory.dropLast rest
    else descend (directory ++ [component]) rest

/-- `Path::join`; an absolute name replaces the root. -/
def join (root : Path) (name : String) : Path :=
  descend (if name.toList.head? = some '/' then [] else root) (components name)

def reservedNames : List String :=
  ["CON", "PRN", "AUX", "NUL", "COM1", "COM2", "COM3", "COM4", "COM5", "COM6", "COM7", "COM8", "COM9",
    "LPT1", "LPT2", "LPT3", "LPT4", "LPT5", "LPT6", "LPT7", "LPT8", "LPT9"]

def stem (component : String) : String :=
  String.ofList (component.toList.takeWhile (· ≠ '.'))

def Ambiguous (component : String) : Prop :=
  component = "" ∨ component = "." ∨ component = ".." ∨ 255 < byteLen component ∨
    (component.toList.getLast?.any fun c => c == '.' || c == ' ') = true ∨
    (component.toList.any fun c => c.toNat < 32 || c.toNat == 127) = true ∨
    toAsciiUppercase (stem component) ∈ reservedNames

instance (component : String) : Decidable (Ambiguous component) := by
  unfold Ambiguous
  infer_instance

/-- `strip_suffix('/')` -/
def stripSlash (name : String) : String :=
  if name.toList.getLast? = some '/' then String.ofList name.toList.dropLast else name

def memberName (name : String) (directory : Bool) : String :=
  if directory then stripSlash name else name

def safeName (name : String) (directory : Bool) : Except Abort String := do
  refuse ((name.toList.all fun c => c.toNat < 128) = false ∨ 1024 < byteLen name ∨
      (name.toList.any fun c => c == '\\' || c == ':' || c == '\x00') = true ∨
      name.toList.head? = some '/')
    (invalid "ZIP path must be portable ASCII without absolute paths or backslashes")
  (components (memberName name directory)).forM fun component =>
    refuse (Ambiguous component) (invalid "ambiguous or unsafe ZIP component")
  return memberName name directory

/- Components. -/

section Components
variable {name component : String} {path path' : Path}

def Plain (component : String) : Prop :=
  '/' ∉ component.toList

theorem not_mem_splitOn {text : List Char} : ∀ piece ∈ text.splitOn '/', '/' ∉ piece := by
  induction text with
  | nil => simp
  | cons c text ih =>
    rw [List.splitOn_cons_eq_if_modifyHead]
    split
    · simpa using ih
    · rename_i other
      cases pieces : text.splitOn '/' with
      | nil => simp
      | cons piece pieces =>
        rw [pieces] at ih
        obtain ⟨first, others⟩ := List.forall_mem_cons.mp ih
        rw [List.modifyHead_cons, List.forall_mem_cons]
        refine ⟨fun mem => ?_, others⟩
        cases List.mem_cons.mp mem with
        | inl same => exact other (by simp [← same])
        | inr inside => exact first inside

theorem components_plain (mem : component ∈ components name) : Plain component := by
  obtain ⟨piece, inside, same⟩ := List.mem_map.mp mem
  rw [Plain, ← same, String.toList_ofList]
  exact not_mem_splitOn piece inside

theorem components_ne_nil : components name ≠ [] := by
  simp [components, List.splitOn_ne_nil]

theorem toList_components : (components name).map String.toList = name.toList.splitOn '/' := by
  simp [components, List.map_map, Function.comp_def]

@[simp] theorem spelling_components : spelling (components name) = name := by
  rw [spelling, toList_components, List.intercalate_splitOn, String.ofList_toList]

theorem components_spelling (plain : ∀ c ∈ path, Plain c) (ne : path ≠ []) :
    components (spelling path) = path := by
  have slashless : ∀ piece ∈ path.map String.toList, '/' ∉ piece := by
    intro piece mem
    obtain ⟨c, inside, same⟩ := List.mem_map.mp mem
    exact same ▸ plain c inside
  rw [components, spelling, String.toList_ofList, List.splitOn_intercalate '/' slashless (by simpa using ne)]
  simp [List.map_map, Function.comp_def]

theorem toLower_slash {c : Char} : c.toLower = '/' ↔ c = '/' := by
  constructor
  · intro same
    unfold Char.toLower at same
    split at same
    · rename_i upper
      have value := congrArg Char.val same
      have low := UInt32.le_iff_toNat_le.mp upper.1
      have high := UInt32.le_iff_toNat_le.mp upper.2
      have number := congrArg UInt32.toNat value
      simp only [UInt32.toNat_add, UInt32.toNat_sub] at number low high
      simp at number low high
      omega
    · exact same
  · intro same
    rw [same]
    rfl

theorem plain_toAsciiLowercase : Plain (toAsciiLowercase component) ↔ Plain component := by
  simp [Plain, toAsciiLowercase, toLower_slash]

theorem toAsciiLowercase_spelling :
    toAsciiLowercase (spelling path) = spelling (path.map toAsciiLowercase) := by
  have texts : (path.map toAsciiLowercase).map String.toList =
      (path.map String.toList).map (List.map Char.toLower) := by
    simp [List.map_map, Function.comp_def, toAsciiLowercase]
  rw [toAsciiLowercase, spelling, spelling, String.toList_ofList, texts]
  congr 1
  generalize path.map String.toList = pieces
  induction pieces with
  | nil => rfl
  | cons piece pieces ih =>
    cases pieces with
    | nil => simp
    | cons next pieces =>
      rw [List.map_cons, List.map_cons, List.intercalate_cons_cons, List.intercalate_cons_cons,
        List.map_append, List.map_append, ih, List.map_cons]
      rfl

/-- Spellings agree up to case exactly when the paths do, component by component. -/
theorem lower_spelling (plain : ∀ c ∈ path, Plain c) (plain' : ∀ c ∈ path', Plain c)
    (ne : path ≠ []) (ne' : path' ≠ []) :
    toAsciiLowercase (spelling path) = toAsciiLowercase (spelling path') ↔
      path.map toAsciiLowercase = path'.map toAsciiLowercase := by
  have lower : ∀ p : Path, (∀ c ∈ p, Plain c) → ∀ c ∈ p.map toAsciiLowercase, Plain c := by
    intro p each c mem
    obtain ⟨c', inside, same⟩ := List.mem_map.mp mem
    rw [← same, plain_toAsciiLowercase]
    exact each c' inside
  rw [toAsciiLowercase_spelling, toAsciiLowercase_spelling]
  constructor
  · intro same
    have read := congrArg components same
    rw [components_spelling (lower path plain) (by simpa using ne),
      components_spelling (lower path' plain') (by simpa using ne')] at read
    exact read
  · intro same
    rw [same]

theorem spelling_injective (plain : ∀ c ∈ path, Plain c) (plain' : ∀ c ∈ path', Plain c)
    (ne : path ≠ []) (ne' : path' ≠ []) : spelling path = spelling path' ↔ path = path' := by
  constructor
  · intro same
    rw [← components_spelling plain ne, same, components_spelling plain' ne']
  · intro same
    rw [same]

end Components

/- Ancestors. -/

section Ancestors
variable {path above : Path}

theorem mem_ancestors : above ∈ ancestors path ↔ above <+: path ∧ above ≠ [] := by
  induction path generalizing above with
  | nil =>
    simp only [ancestors, List.not_mem_nil, List.prefix_nil, false_iff, not_and, not_not, imp_self]
  | cons component rest ih =>
    simp only [ancestors, List.mem_append, List.mem_map, List.mem_singleton, ih]
    cases above with
    | nil => simp
    | cons first above =>
      rw [List.cons_prefix_cons]
      constructor
      · intro either
        cases either with
        | inl deep =>
          obtain ⟨p, ⟨below, _⟩, same⟩ := deep
          obtain ⟨head, tail⟩ := List.cons.inj same
          exact ⟨⟨head.symm, tail ▸ below⟩, by simp⟩
        | inr here =>
          obtain ⟨head, tail⟩ := List.cons.inj here
          exact ⟨⟨head, tail ▸ List.nil_prefix⟩, by simp⟩
      · intro h
        obtain ⟨⟨head, below⟩, _⟩ := h
        rw [head]
        cases above with
        | nil => exact .inr rfl
        | cons next above => exact .inl ⟨_, ⟨below, by simp⟩, rfl⟩

theorem mem_parents : above ∈ parents path ↔ above <+: path ∧ above ≠ [] ∧ above ≠ path := by
  rw [parents, mem_ancestors]
  constructor
  · intro h
    obtain ⟨below, ne⟩ := h
    refine ⟨below.trans (List.dropLast_prefix path), ne, fun same => ?_⟩
    have shorter := below.length_le
    have positive := List.length_pos_of_ne_nil ne
    rw [same, List.length_dropLast] at shorter
    rw [same] at positive
    omega
  · intro h
    obtain ⟨⟨rest, whole⟩, ne, other⟩ := h
    refine ⟨?_, ne⟩
    have more : rest ≠ [] := fun none => other (by simpa [none] using whole)
    rw [← whole, List.dropLast_append_of_ne_nil more]
    exact ⟨_, rfl⟩

end Ancestors

/- Safe names. -/

section Safe
variable {name : String} {directory : Bool} {path root : Path}

def Safe (path : Path) : Prop :=
  ∀ c ∈ path, Plain c ∧ ¬ Ambiguous c

structure SafeName (name : String) (directory : Bool) : Prop where
  ascii : (name.toList.all fun c => c.toNat < 128) = true
  short : byteLen name ≤ 1024
  portable : (name.toList.any fun c => c == '\\' || c == ':' || c == '\x00') = false
  relative : name.toList.head? ≠ some '/'
  safe : Safe (components (memberName name directory))

theorem safeName_eq_ok {result : String} : safeName name directory = .ok result ↔
    SafeName name directory ∧ result = memberName name directory := by
  simp only [safeName, bind_eq_ok, exists_unit, refuse_eq_ok, List.forM_eq_forM, forM_eq_ok, pure_eq_ok,
    not_or, Nat.not_lt, Bool.not_eq_true, Bool.not_eq_false]
  constructor
  · intro h
    obtain ⟨⟨ascii, short, portable, relative⟩, each, same⟩ := h
    exact ⟨⟨ascii, short, portable, relative, fun c mem => ⟨components_plain mem, each c mem⟩⟩, same.symm⟩
  · intro h
    obtain ⟨safe, same⟩ := h
    exact ⟨⟨safe.ascii, safe.short, safe.portable, safe.relative⟩, fun c mem => (safe.safe c mem).2,
      same.symm⟩

theorem descend_safe (safe : Safe path) : descend root path = root ++ path := by
  induction path generalizing root with
  | nil => simp [descend]
  | cons component rest ih =>
    obtain ⟨first, others⟩ := List.forall_mem_cons.mp safe
    simp only [Ambiguous, not_or] at first
    rw [descend, if_neg (by simp [first.2.1, first.2.2.1]), if_neg first.2.2.2.1, ih others]
    simp

theorem components_absolute (absolute : name.toList.head? = some '/') : "" ∈ components name := by
  rw [components]
  cases text : name.toList with
  | nil => simp [text] at absolute
  | cons c rest =>
    rw [text, List.head?_cons, Option.some.injEq] at absolute
    rw [List.splitOn_cons_eq_if_modifyHead, if_pos (by simp [absolute])]
    exact List.mem_cons_self

theorem join_safe (safe : Safe (components name)) : join root name = root ++ components name := by
  have relative : ¬ name.toList.head? = some '/' :=
    fun absolute => (safe "" (components_absolute absolute)).2 (.inl rfl)
  rw [join, if_neg relative, descend_safe safe]

end Safe

end Ledgence.ProgramArchive

/-! The inspection of a program archive: its envelope, each of its members, and the tree that their
paths make up. -/

namespace Ledgence.ProgramArchive
open ArtifactCache (Abort Bytes)

/- Manifests. -/

structure PythonRuntime where
  kind : String
  python : String
  protocol : Nat
  deriving DecidableEq

structure Platform where
  os : String
  arch : String
  deriving DecidableEq

structure ProgramManifest where
  schemaVersion : Nat
  program : ProgramRef
  runtime : PythonRuntime
  handler : String
  platform : Platform
  deriving DecidableEq

def incompatible (message : String) : Error := ⟨.incompatible, message⟩

/-- `str::parse::<u32>` -/
def parseU32 (text : List Char) : Option Nat :=
  let digits := if text.head? = some '+' then text.tail else text
  if digits = [] ∨ digits.all asciiDigit = false then none
  else some (digits.foldl (fun n c => 10 * n + (c.toNat - 48)) 0) |>.filter (· ≤ u32Max)

/-- `strip_prefix("3.")`, read as the number of a minor version. -/
def pythonMinor (python : String) : Option Nat :=
  if "3.".toList.isPrefixOf python.toList then parseU32 (python.toList.drop 2) else none

def validIdentifier (part : List Char) : Bool :=
  match part with
  | [] => false
  | c :: rest => (asciiLower c || asciiUpper c || c == '_') &&
      rest.all fun c => asciiAlphanumeric c || c == '_'

def ProgramManifest.validate (manifest : ProgramManifest) : WorkerResult Unit := do
  manifest.program.validate
  refuse (manifest.schemaVersion ≠ 1 ∨ manifest.runtime.kind ≠ "python" ∨
      ¬ (1 ≤ manifest.runtime.protocol ∧ manifest.runtime.protocol ≤ 3))
    (incompatible "unsupported manifest, runtime, or protocol version")
  let minor ← okOr (pythonMinor manifest.runtime.python)
    (invalidWorkerInput "python must be an exact 3.minor version")
  refuse (minor < 11 ∨ manifest.runtime.python ≠ "3." ++ minor.repr)
    (incompatible "CPython 3.11 or newer is required")
  let (module, function) ← okOr (splitOnce ':' manifest.handler.toList)
    (invalidWorkerInput "handler must be module:function")
  refuse ((module.splitOn '.').all validIdentifier = false ∨ validIdentifier function = false)
    (invalidWorkerInput "invalid Python handler")
  refuse (manifest.platform.os ∉ ["linux", "macos"] ∨ manifest.platform.arch ∉ ["x86_64", "aarch64"])
    (incompatible "initial platforms are Linux/macOS on x86_64/aarch64")

/- Archives. -/

structure ZipEntry where
  fault : Option String
  name : String
  encrypted : Bool
  directory : Bool
  symlink : Bool
  unixMode : Option Nat
  size : Nat
  data : Bytes

structure ZipArchive where
  offset : Nat
  entries : List ZipEntry
  overlapping : Except String Bool

/-- The hash, the ZIP library, and the JSON of manifests. -/
structure Formats where
  sha256 : Bytes → Bytes
  zip : Bytes → Except String ZipArchive
  manifest : Bytes → Except String ProgramManifest

structure ArtifactLimits extends ArtifactCache.ArtifactLimits where
  maxExpandedBytes : Nat
  maxFileBytes : Nat
  maxEntries : Nat
  maxManifestBytes : Nat

/-- A member of a plan; `data` is what the archive holds at its index. -/
structure Member where
  name : String
  size : Nat
  directory : Bool
  executable : Nat
  data : Bytes
  deriving DecidableEq

structure ArchivePlan where
  members : List Member
  manifest : ProgramManifest
  expandedBytes : Nat
  deriving DecidableEq

def ZipEntry.mode (entry : ZipEntry) : Nat :=
  entry.unixMode.getD 0

def ZipEntry.Foreign (entry : ZipEntry) : Prop :=
  let mode := entry.mode &&& 0o170000
  entry.symlink = true ∨ mode ∉ [0, 0o040000, 0o100000] ∨
    mode = 0o040000 ∧ entry.directory = false ∨ mode = 0o100000 ∧ entry.directory = true

instance (entry : ZipEntry) : Decidable entry.Foreign := by
  unfold ZipEntry.Foreign
  infer_instance

def ZipEntry.member (entry : ZipEntry) : Member where
  name := memberName entry.name entry.directory
  size := entry.size
  directory := entry.directory
  executable := entry.mode &&& 0o111
  data := entry.data

def manifestName : String := "ledgence-program.json"

def readBounded (data : Bytes) (bound : Nat) : Except Abort Bytes := do
  refuse (bound < data.length) (limit "input bytes")
  return data

section Inspect
variable (formats : Formats) (limits : ArtifactLimits) (program : ProgramRef)

def readManifest (entry : ZipEntry) : Except Abort ProgramManifest := do
  refuse (entry.directory = true ∨ limits.maxManifestBytes < entry.size) (invalid "invalid root manifest")
  let data ← readBounded entry.data limits.maxManifestBytes
  let value ← Except.mapError invalid (formats.manifest data)
  Except.mapError (fun e => .error (.worker e)) value.validate
  let module := value.handler.toList.takeWhile (· ≠ ':')
  refuse (module = "ledgence".toList ∨ "ledgence.".toList <+: module)
    (invalid "handlers must not use the ledgence namespace")
  refuse (value.program ≠ program) (invalid "manifest program differs from descriptor")
  return value

def nextManifest (entry : ZipEntry) (name : String) (known : Option ProgramManifest) :
    Except Abort (Option ProgramManifest) :=
  if name = manifestName then some <$> readManifest formats limits program entry else .ok known

/-- What is known after some of the members; `paths` maps the lower case of a name to whether it is a
directory. -/
structure Inspection where
  members : List Member
  paths : List (String × Bool)
  expandedBytes : Nat
  manifest : Option ProgramManifest

def inspectMember (s : Inspection) (listed : String × ZipEntry) : Except Abort Inspection := do
  let entry := listed.2
  ifSome entry.fault fun message => .error (invalid message)
  refuse (entry.name ≠ listed.1 ∨ entry.encrypted = true)
    (invalid "unsupported ZIP name encoding or encryption")
  let name ← safeName entry.name entry.directory
  refuse (toAsciiLowercase name = "ledgence/__init__.py")
    (invalid "the ledgence namespace must not have a root __init__.py")
  refuse entry.Foreign (invalid "only regular files and directories are allowed")
  refuse (toAsciiLowercase name ∈ s.paths.map Prod.fst) (invalid "duplicate or case-colliding ZIP path")
  refuse ((entry.directory = true ∧ entry.size ≠ 0) ∨ limits.maxFileBytes < entry.size)
    (limit "invalid directory size or file expansion")
  let expandedBytes ← okOr (checkedAdd u64Max s.expandedBytes entry.size) (limit "expanded size overflow")
  refuse (limits.maxExpandedBytes < expandedBytes) (limit "total ZIP expansion")
  let manifest ← nextManifest formats limits program entry name s.manifest
  return {
    members := s.members ++ [{ entry.member with name }]
    paths := (toAsciiLowercase name, entry.directory) :: s.paths
    expandedBytes
    manifest }

def recordPath (allPaths : List (String × Bool)) (path : Path × Bool) :
    Except Abort (List (String × Bool)) :=
  let spelling := spelling path.1
  let directory := path.2
  match Table.find (fun row => toAsciiLowercase row.1) (toAsciiLowercase spelling) allPaths with
  | some (existing, existingDirectory) =>
    if existing ≠ spelling ∨ existingDirectory ≠ directory then
      .error (invalid "file/directory or case-colliding ZIP path")
    else
      .ok allPaths
  | none => .ok ((spelling, directory) :: allPaths)

def Member.chain (member : Member) : List (Path × Bool) :=
  (components member.name, member.directory) :: (parents (components member.name)).map (·, true)

def inspectPaths (paths : List (String × Bool)) (allPaths : List (String × Bool)) (member : Member) :
    Except Abort (List (String × Bool)) := do
  let allPaths ← member.chain.foldlM recordPath allPaths
  (parents (components member.name)).forM fun path =>
    refuse ((toAsciiLowercase (spelling path), false) ∈ paths) (invalid "file/directory path collision")
  return allPaths

def inspectMembers (listed : List (String × ZipEntry)) : Except Abort ArchivePlan := do
  let s ← listed.foldlM (inspectMember formats limits program) ⟨[], [], 0, none⟩
  let _ ← s.members.foldlM (inspectPaths s.paths) []
  let manifest ← okOr s.manifest (invalid "missing root ledgence-program.json")
  return ⟨s.members, manifest, s.expandedBytes⟩

def openArchive (bytes : Bytes) (descriptor : ProgramDescriptor) :
    Except Abort (List (String × ZipEntry)) := do
  Except.mapError .error (limits.descriptor descriptor)
  refuse (bytes.length ≠ descriptor.size ∨ hex (formats.sha256 bytes) ≠ descriptor.digest.hex)
    (invalid "archive size or SHA-256 does not match descriptor")
  let rawNames ← ZipDirectory.checkDirectory bytes limits.maxEntries
  let archive ← Except.mapError invalid (formats.zip bytes)
  refuse (archive.offset ≠ 0 ∨ archive.entries.length ≠ rawNames.length)
    (invalid "overlapping or inconsistent ZIP records")
  let overlapping ← Except.mapError invalid archive.overlapping
  refuse (overlapping = true) (invalid "overlapping or inconsistent ZIP records")
  return rawNames.zip archive.entries

def inspectForPublication (bytes : Bytes) (descriptor : ProgramDescriptor) :
    Except Abort ArchivePlan := do
  let listed ← openArchive formats limits bytes descriptor
  inspectMembers formats limits descriptor.program listed

end Inspect

end Ledgence.ProgramArchive
