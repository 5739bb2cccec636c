import Ledgence.Archive.Accepted
import Mathlib.Logic.Function.Basic

/-! The extraction of a plan below a root, and the verification of what stands below one. -/
open Kit Kit.Checked

namespace Ledgence.ProgramArchive
open ArtifactCache (Abort Bytes)

/-- The bytes and the permissions of a regular file. Those of directories are left out: they are set
after everything is written, and verification does not read them. -/
structure FileContent where
  data : Bytes
  mode : Nat
  deriving DecidableEq

inductive CaseRule where
  | sensitive
  | insensitive

def CaseRule.fold : CaseRule → String → String
  | .sensitive => id
  | .insensitive => toAsciiLowercase

abbrev Files (rule : CaseRule) := FileTree rule.fold FileContent

def io {α : Type} (x : Except FileError α) : Except Abort α :=
  Except.mapError (fun _ => .error .io) x

section Files
variable {rule : CaseRule}

/- Extraction. -/

def extractMember (t : Files rule) (member : Member) : Except Abort (Files rule) := do
  let target := join [] member.name
  if member.directory then
    io (t.createDirAll target)
  else
    let t ← io (t.createDirAll target.dropLast)
    let copied := member.data.take (member.size + 1)
    let t ← io (t.createAt target (.file ⟨copied, 0o444 ||| member.executable &&& 0o111⟩))
    refuse (copied.length ≠ member.size) (invalid "ZIP file size differs from header")
    return t

def extract (plan : ArchivePlan) (t : Files rule) : Except Abort (Files rule) := do
  let t ← io t.createRoot
  plan.members.foldlM extractMember t

/- Verification. -/

def symlinkMetadata (t : Files rule) (path : Path) : Except Abort (Node FileContent) :=
  okOr ((t.resolve path).map Prod.snd) (.error .io)

def openRegular (t : Files rule) (path : Path) : Except Abort FileContent := do
  let metadata ← symlinkMetadata t path
  okOr metadata.content (invalid "artifact file must be regular")

def executableBits (content : FileContent) : Nat :=
  content.mode &&& 0o111

def hashReader (sha256 : Bytes → Bytes) (data : Bytes) (expectedSize : Nat) : Except Abort Bytes := do
  refuse (expectedSize < data.length) (invalid "file exceeds expected size")
  refuse (data.length ≠ expectedSize) (invalid "file shorter than expected")
  return sha256 data

def verifyMember (sha256 : Bytes → Bytes) (t : Files rule) (member : Member) : Except Abort Unit := do
  let target := join [] member.name
  let metadata ← symlinkMetadata t target
  refuse (metadata = .special ∨ metadata.isDir ≠ member.directory ∨ member.directory = false ∧
      (metadata.content.all fun content => content.data.length ≠ member.size) = true)
    (invalid "cached materialization changed")
  if member.directory then
    return ()
  else
    let expectedHash ← hashReader sha256 (member.data.take (member.size + 1)) member.size
    let actual ← openRegular t target
    refuse (executableBits actual ≠ member.executable) (invalid "cached executable permissions changed")
    let actualHash ← hashReader sha256 actual.data member.size
    refuse (expectedHash ≠ actualHash) (invalid "cached file digest changed")

/-- All that is below a directory, `n` levels of directories deep. -/
def collectPaths (t : Files rule) : Nat → Path → Except Abort (List Path)
  | 0, _ => .ok []
  | n + 1, directory => do
    let metadata ← symlinkMetadata t directory
    refuse (metadata.isDir = false) (invalid "cached directory is not a directory")
    let found ← (t.readDir directory).mapM fun path => do
      let metadata ← symlinkMetadata t path
      refuse (metadata = .special) (invalid "special cached file")
      let below ← (if metadata.isDir then collectPaths t n path else .ok [])
      return path :: below
    return found.flatten

/-- No path is longer than the levels that are searched. -/
def verify (sha256 : Bytes → Bytes) (plan : ArchivePlan) (t : Files rule) : Except Abort Unit := do
  plan.members.forM (verifyMember sha256 t)
  let found ← collectPaths t (t.depth + 1) []
  let expected := expectedPaths plan.members
  refuse (¬ (found ⊆ expected ∧ expected ⊆ found)) (invalid "unexpected cached files")

/- What stands where. -/

def facet (content : FileContent) : Bytes × Nat :=
  (content.data, executableBits content)

/-- Verification tells files apart by their digests, their sizes and their executable bits. -/
def digested (sha256 : Bytes → Bytes) (seen : Bytes × Nat) : Bytes × Nat × Nat :=
  (sha256 seen.1, seen.1.length, seen.2)

def Member.node (member : Member) : Node FileContent :=
  if member.directory then .directory else .file ⟨member.data, 0o444 ||| member.executable &&& 0o111⟩

def Placed (member : Member) (path : Path) (node : Node FileContent) : Prop :=
  path <+: components member.name ∧ path ≠ [] ∧
    node = if path = components member.name then member.node else .directory

def Holds (members : List Member) (t : Files rule) : Prop :=
  ∀ path node, (path, node) ∈ t.entries ↔
    path = [] ∧ node = .directory ∨ ∃ m ∈ members, Placed m path node

section Extraction
variable {t : Files rule} {m : Member} {done members : List Member} {path path' : Path}
  {node : Node FileContent}

theorem fold_lower (same : path.map rule.fold = path'.map rule.fold) :
    path.map toAsciiLowercase = path'.map toAsciiLowercase := by
  cases rule with
  | sensitive =>
    rw [CaseRule.fold, List.map_id, List.map_id] at same
    rw [same]
  | insensitive => exact same

theorem Placed.mem_chain (placed : Placed m path node) : (path, node.isDir) ∈ m.chain := by
  obtain ⟨below, ne, here⟩ := placed
  refine ProgramArchive.mem_chain.mpr ⟨below, ne, ?_⟩
  by_cases own : path = components m.name
  · rw [if_pos own] at here
    refine .inl ⟨own, ?_⟩
    rw [here, Member.node]
    cases m.directory with
    | false => rfl
    | true => rfl
  · rw [if_neg own] at here
    exact .inr ⟨own, by rw [here]; rfl⟩

theorem eq_directory (dir : node.isDir = true) : node = .directory := by
  cases node with
  | directory => rfl
  | file content => cases dir
  | special => cases dir

/-- Whatever is at a path that has to be a directory is that directory. -/
theorem Holds.opens (holds : Holds done t) (tree : Tree members) (sub : ∀ x ∈ done, x ∈ members)
    (mem : m ∈ members) (here : (path, true) ∈ m.chain) : t.Open path := by
  intro real node inside same
  cases (holds real node).mp inside with
  | inl root =>
    rw [root.1, List.map_nil] at same
    exact absurd (List.map_eq_nil_iff.mp same.symm) (chain_plain here).2
  | inr placed =>
    obtain ⟨m', mem', placed⟩ := placed
    have equal := tree.agree m' (sub m' mem') m mem _ placed.mem_chain _ here (fold_lower same)
    obtain ⟨spelled, kind⟩ := Prod.mk.inj equal
    exact ⟨spelled, eq_directory kind⟩

theorem dropLast_prefix_iff : path <+: path'.dropLast ∧ path ≠ [] ↔
    path <+: path' ∧ path ≠ [] ∧ path ≠ path' := by
  rw [← mem_parents, parents, mem_ancestors]

theorem placed_iff : Placed m path node ↔ (path, node) = (components m.name, m.node) ∨
    ∃ p, p <+: (components m.name).dropLast ∧ p ≠ [] ∧ (path, node) = (p, .directory) := by
  rw [Placed]
  constructor
  · intro placed
    obtain ⟨below, ne, equal⟩ := placed
    by_cases same : path = components m.name
    · rw [if_pos same] at equal
      exact .inl (by rw [same, equal])
    · rw [if_neg same] at equal
      obtain ⟨up, ne'⟩ := dropLast_prefix_iff.mpr ⟨below, ne, same⟩
      exact .inr ⟨path, up, ne', by rw [equal]⟩
  · intro either
    cases either with
    | inl self =>
      obtain ⟨same, equal⟩ := Prod.mk.inj self
      rw [same, if_pos rfl]
      exact ⟨List.prefix_rfl, components_ne_nil, equal⟩
    | inr up =>
      obtain ⟨p, below, ne, equal⟩ := up
      obtain ⟨same, dir⟩ := Prod.mk.inj equal
      obtain ⟨below', ne', other⟩ := dropLast_prefix_iff.mp ⟨below, ne⟩
      rw [same, if_neg other]
      exact ⟨below', ne', dir⟩

theorem placed_directory (kind : m.directory = true) : Placed m path node ↔
    ∃ p, p <+: components m.name ∧ p ≠ [] ∧ (path, node) = (p, .directory) := by
  have own : m.node = .directory := by rw [Member.node, kind, if_pos rfl]
  simp only [Placed, own, ite_self, Prod.mk.injEq]
  constructor
  · intro h
    exact ⟨path, h.1, h.2.1, rfl, h.2.2⟩
  · intro h
    obtain ⟨p, below, ne, same, dir⟩ := h
    exact same ▸ ⟨below, ne, dir⟩

theorem holds_append {rows : Path → Node FileContent → Prop} {t' : Files rule} (holds : Holds done t)
    (entries : ∀ path node, (path, node) ∈ t'.entries ↔ (path, node) ∈ t.entries ∨ rows path node)
    (placed : ∀ path node, Placed m path node ↔ rows path node) : Holds (done ++ [m]) t' := by
  intro path node
  rw [entries, holds, or_assoc, ← placed]
  simp only [List.mem_append, List.mem_singleton, or_and_right, exists_or, exists_eq_left]

/-- Nothing is at the path of a file before it is written: an entry there would be its own. -/
theorem Holds.free (holds : Holds done t) (tree : Tree members) (sub : ∀ x ∈ done, x ∈ members)
    (mem : m ∈ members) (kind : m.directory = false)
    (fresh : ∀ x ∈ done, (components x.name).map toAsciiLowercase ≠
      (components m.name).map toAsciiLowercase) : t.resolve (components m.name) = none := by
  rw [FileTree.resolve_eq_none]
  intro real node there same
  cases (holds real node).mp there with
  | inl root =>
    rw [root.1, List.map_nil] at same
    exact components_ne_nil (List.map_eq_nil_iff.mp same.symm)
  | inr placed =>
    obtain ⟨m', mem', placed⟩ := placed
    have own : (components m.name, false) ∈ m.chain :=
      mem_chain.mpr ⟨List.prefix_rfl, components_ne_nil, .inl ⟨rfl, kind.symm⟩⟩
    have equal := tree.agree m' (sub m' mem') m mem _ placed.mem_chain _ own (fold_lower same)
    obtain ⟨spelled, file⟩ := Prod.mk.inj equal
    obtain ⟨_, _, node_eq⟩ := placed
    by_cases path : real = components m'.name
    · exact fresh m' mem' (by rw [← path, spelled])
    · rw [if_neg path] at node_eq
      rw [node_eq] at file
      cases file

theorem extractDirectory_holds (holds : Holds done t) (tree : Tree members)
    (sub : ∀ x ∈ done, x ∈ members) (mem : m ∈ members) (kind : m.directory = true) :
    ∃ t', extractMember t m = .ok t' ∧ Holds (done ++ [m]) t' := by
  have root : (([] : Path), Node.directory) ∈ t.entries := (holds [] .directory).mpr (.inl ⟨rfl, rfl⟩)
  have clear : ∀ p, p <+: components m.name → p ≠ [] → t.Open p := by
    intro p below ne
    refine holds.opens tree sub mem (mem_chain.mpr ⟨below, ne, ?_⟩)
    by_cases own : p = components m.name
    · exact .inl ⟨own, kind.symm⟩
    · exact .inr ⟨own, rfl⟩
  obtain ⟨t', made, entries⟩ := FileTree.createDirAll_open root clear
  refine ⟨t', ?_, holds_append holds (fun path node => entries (path, node))
    fun _ _ => placed_directory kind⟩
  rw [extractMember, join_safe (tree.safe m mem), List.nil_append]
  simp [kind, made, io, Except.mapError]

theorem extractFile_holds (holds : Holds done t) (tree : Tree members) (sub : ∀ x ∈ done, x ∈ members)
    (mem : m ∈ members) (size : m.data.length = m.size) (kind : m.directory = false)
    (fresh : ∀ x ∈ done, (components x.name).map toAsciiLowercase ≠
      (components m.name).map toAsciiLowercase) :
    ∃ t', extractMember t m = .ok t' ∧ Holds (done ++ [m]) t' := by
  have root : (([] : Path), Node.directory) ∈ t.entries := (holds [] .directory).mpr (.inl ⟨rfl, rfl⟩)
  have whole := List.dropLast_append_getLast (components_ne_nil : components m.name ≠ [])
  have clear : ∀ p, p <+: (components m.name).dropLast → p ≠ [] → t.Open p := by
    intro p below ne
    obtain ⟨up, ne', other⟩ := dropLast_prefix_iff.mp ⟨below, ne⟩
    exact holds.opens tree sub mem (mem_chain.mpr ⟨up, ne', .inr ⟨other, rfl⟩⟩)
  obtain ⟨t', made, entries⟩ := FileTree.createDirAll_open root clear
  have inside : ((components m.name).dropLast, Node.directory) ∈ t'.entries := by
    rw [entries]
    by_cases top : (components m.name).dropLast = []
    · exact .inl (top ▸ root)
    · exact .inr ⟨_, List.prefix_rfl, top, rfl⟩
  -- The directories above it are shorter paths than its own.
  have free : t'.resolve (components m.name) = none := by
    rw [FileTree.resolve_eq_none]
    intro real node there same
    cases (entries _).mp there with
    | inl old =>
      exact FileTree.resolve_eq_none.mp (holds.free tree sub mem kind fresh) real node old same
    | inr new =>
      obtain ⟨p, below, _, equal⟩ := new
      have lengths := congrArg List.length same
      have shorter := below.length_le
      have positive := List.length_pos_of_ne_nil (components_ne_nil : components m.name ≠ [])
      rw [List.length_map, List.length_map, (Prod.mk.inj equal).1] at lengths
      rw [List.length_dropLast] at shorter
      omega
  rw [← whole] at free
  obtain ⟨t'', created, entries'⟩ :=
    FileTree.createAt_free (.file ⟨m.data, 0o444 ||| m.executable &&& 0o111⟩) inside free
  rw [whole] at created entries'
  have own : m.node = .file ⟨m.data, 0o444 ||| m.executable &&& 0o111⟩ := by
    rw [Member.node, kind]
    rfl
  have all : m.data.take (m.size + 1) = m.data := List.take_of_length_le (by omega)
  refine ⟨t'', ?_, holds_append holds (fun path node => ?_) fun _ _ => placed_iff⟩
  · rw [extractMember, join_safe (tree.safe m mem), List.nil_append]
    simp [kind, made, created, io, Except.mapError, all, size, refuse, pure, Except.pure]
  · rw [entries', List.mem_cons, entries, ← own]
    exact or_left_comm

theorem extractMember_holds (holds : Holds done t) (tree : Tree members) (sub : ∀ x ∈ done, x ∈ members)
    (mem : m ∈ members) (size : m.data.length = m.size)
    (fresh : ∀ x ∈ done, (components x.name).map toAsciiLowercase ≠
      (components m.name).map toAsciiLowercase) :
    ∃ t', extractMember t m = .ok t' ∧ Holds (done ++ [m]) t' := by
  cases kind : m.directory with
  | true => exact extractDirectory_holds holds tree sub mem kind
  | false => exact extractFile_holds holds tree sub mem size kind fresh

theorem extractMembers_holds {rest : List Member} (holds : Holds done t) (tree : Tree members)
    (whole : done ++ rest = members) (sizes : ∀ m ∈ members, m.data.length = m.size) :
    ∃ t', rest.foldlM extractMember t = .ok t' ∧ Holds members t' := by
  induction rest generalizing done t with
  | nil =>
    rw [List.append_nil] at whole
    exact ⟨t, rfl, whole ▸ holds⟩
  | cons m rest ih =>
    have sub : ∀ x ∈ done, x ∈ members := fun x mem => whole ▸ List.mem_append_left _ mem
    have mem : m ∈ members := by simp [← whole]
    have fresh : ∀ x ∈ done, (components x.name).map toAsciiLowercase ≠
        (components m.name).map toAsciiLowercase := by
      intro x inside same
      have distinct := tree.distinct
      rw [← whole, List.map_append, List.map_cons] at distinct
      exact (List.nodup_append.mp distinct).2.2 _ (List.mem_map_of_mem inside) _ List.mem_cons_self same
    obtain ⟨t', first, holds'⟩ := extractMember_holds holds tree sub mem (sizes m mem) fresh
    obtain ⟨t'', others, holds''⟩ := ih holds' (by simpa using whole)
    exact ⟨t'', by rw [List.foldlM_cons, first, ok_bind, others], holds''⟩

theorem extract_holds {plan : ArchivePlan} (tree : Tree plan.members)
    (sizes : ∀ m ∈ plan.members, m.data.length = m.size) :
    ∃ t : Files rule, extract plan FileTree.fresh = .ok t ∧ Holds plan.members t := by
  obtain ⟨t, made, entries⟩ : ∃ t : Files rule, FileTree.fresh.createRoot = .ok t ∧
      t.entries = [([], .directory)] :=
    FileTree.createRoot_fresh
  have start : Holds [] t := by
    intro path node
    rw [entries, List.mem_singleton, Prod.mk.injEq]
    simp
  obtain ⟨t', run, holds⟩ := extractMembers_holds start tree (List.nil_append _) sizes
  refine ⟨t', ?_, holds⟩
  rw [extract, made]
  exact run

end Extraction
end Files

end Ledgence.ProgramArchive
