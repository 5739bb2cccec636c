import Ledgence.Archive.Files

/-! What verification accepts: exactly the files that the members say, and no others. -/
open Kit Kit.Checked

namespace Ledgence.ProgramArchive
open ArtifactCache (Abort Bytes)

section Listing
variable {rule : CaseRule} {t : Files rule} {path directory : Path} {node : Node FileContent}
  {found : List Path} {n : Nat}

theorem symlinkMetadata_mem (mem : (path, node) ∈ t.entries) : symlinkMetadata t path = .ok node := by
  rw [symlinkMetadata, FileTree.resolve_of_mem mem]
  rfl

theorem node_unique {node' : Node FileContent} (mem : (path, node) ∈ t.entries)
    (mem' : (path, node') ∈ t.entries) : node = node' :=
  Except.ok.inj ((symlinkMetadata_mem mem).symm.trans (symlinkMetadata_mem mem'))

/-- Whatever is below a directory is found, and nothing special is among it. -/
theorem collectPaths_finds (deep : ∀ path node, (path, node) ∈ t.entries → path.length < n + directory.length)
    (collected : collectPaths t n directory = .ok found) {name : String} {rest : Path}
    (mem : (directory ++ name :: rest, node) ∈ t.entries) :
    directory ++ name :: rest ∈ found ∧ node ≠ .special := by
  induction n generalizing directory found name rest with
  | zero =>
    have short := deep _ _ mem
    rw [List.length_append] at short
    omega
  | succ n ih =>
    simp only [collectPaths, bind_eq_ok, refuse_eq_ok, exists_unit, pure_eq_ok, mapM_eq_ok] at collected
    obtain ⟨_, _, _, parts, each, whole⟩ := collected
    obtain ⟨parent, above, opens⟩ := FileTree.ancestor_mem mem
    have listed : directory ++ [name] ∈ t.readDir directory :=
      FileTree.mem_readDir.mpr ⟨name, parent, rfl, above⟩
    obtain ⟨part, inside, metadata, read, ordinary, below, deeper, same⟩ := exists_of_forall₂_left each listed
    rw [symlinkMetadata_mem above] at read
    rw [← Except.ok.inj read] at ordinary deeper
    have kept : ∀ p ∈ part, p ∈ found := by
      intro p mem
      rw [← whole]
      exact List.mem_flatten.mpr ⟨part, inside, mem⟩
    cases rest with
    | nil =>
      refine ⟨kept _ (by rw [← same]; exact List.mem_cons_self), ?_⟩
      rw [node_unique mem above]
      exact ordinary
    | cons next rest =>
      have dir : parent.isDir = true := by
        cases parent with
        | directory => rfl
        | file content => cases opens (by simp)
        | special => exact absurd rfl ordinary
      rw [if_pos dir] at deeper
      have nested : directory ++ name :: next :: rest = (directory ++ [name]) ++ next :: rest := by simp
      rw [nested] at mem ⊢
      have deep' : ∀ path node, (path, node) ∈ t.entries →
        path.length < n + (directory ++ [name]).length := by
        intro path node mem
        have bound := deep path node mem
        rw [List.length_append, List.length_singleton]
        omega
      obtain ⟨here, kind⟩ := ih deep' deeper mem
      exact ⟨kept _ (by rw [← same]; exact List.mem_cons_of_mem _ here), kind⟩

theorem collectPaths_sound (collected : collectPaths t n directory = .ok found) :
    ∀ path ∈ found, path ≠ [] ∧ ∃ node, (path, node) ∈ t.entries := by
  induction n generalizing directory found with
  | zero =>
    rw [← Except.ok.inj collected]
    simp
  | succ n ih =>
    simp only [collectPaths, bind_eq_ok, refuse_eq_ok, exists_unit, pure_eq_ok, mapM_eq_ok] at collected
    obtain ⟨_, _, _, parts, each, whole⟩ := collected
    intro path mem
    rw [← whole, List.mem_flatten] at mem
    obtain ⟨part, inside, mem⟩ := mem
    obtain ⟨child, listed, metadata, _, _, below, deeper, same⟩ := exists_of_forall₂_right each inside
    obtain ⟨name, node, child_eq, entry⟩ := FileTree.mem_readDir.mp listed
    rw [← same] at mem
    cases List.mem_cons.mp mem with
    | inl here =>
      rw [here]
      exact ⟨by simp [child_eq], node, entry⟩
    | inr there =>
      split at deeper
      · exact ih deeper path there
      · rw [← Except.ok.inj deeper] at there
        cases there

theorem collectPaths_complete (root : (directory, Node.directory) ∈ t.entries)
    (ordinary : ∀ path node, (path, node) ∈ t.entries → node ≠ .special) :
    ∃ found, collectPaths t n directory = .ok found := by
  induction n generalizing directory with
  | zero => exact ⟨[], rfl⟩
  | succ n ih =>
    have each : ∀ path ∈ t.readDir directory, ∃ part, (do
        let metadata ← symlinkMetadata t path
        refuse (metadata = Node.special) (invalid "special cached file")
        let below ← (if metadata.isDir then collectPaths t n path else .ok [])
        return path :: below) = .ok part := by
      intro path listed
      obtain ⟨name, node, _, mem⟩ := FileTree.mem_readDir.mp listed
      simp only [symlinkMetadata_mem mem, ok_bind, bind_eq_ok, refuse_eq_ok, exists_unit, pure_eq_ok]
      cases dir : node.isDir with
      | false => exact ⟨_, ordinary path node mem, [], rfl, rfl⟩
      | true =>
        rw [eq_directory dir] at mem ⊢
        obtain ⟨below, deeper⟩ := ih mem
        exact ⟨_, by simp, below, deeper, rfl⟩
    obtain ⟨parts, all⟩ := exists_mapM each
    refine ⟨parts.flatten, ?_⟩
    simp only [collectPaths, symlinkMetadata_mem root, ok_bind, bind_eq_ok, refuse_eq_ok,
      exists_unit, pure_eq_ok]
    exact ⟨by simp [Node.isDir], parts, all, rfl⟩

end Listing

/- Members. -/

def Member.seal (sha256 : Bytes → Bytes) (member : Member) : Node (Bytes × Nat × Nat) :=
  if member.directory then .directory
  else .file (digested sha256 (member.data, member.executable))

section Members
variable {sha256 : Bytes → Bytes} {rule : CaseRule} {t : Files rule} {m : Member} {path : Path}
  {node : Node FileContent}

theorem seal_node (executable : m.executable &&& 0o111 = m.executable) :
    m.node.map (digested sha256 ∘ facet) = m.seal sha256 := by
  rw [Member.node, Member.seal]
  cases m.directory with
  | true => rfl
  | false =>
    have bits : (0o444 ||| m.executable &&& 0o111) &&& 0o111 = m.executable := by
      rw [Nat.and_or_distrib_right, executable, executable]
      exact Nat.zero_or _
    simp [Node.map, digested, facet, executableBits, bits]

theorem map_seal_file {data : Bytes} {executable : Nat} :
    node.map (digested sha256 ∘ facet) = .file (digested sha256 (data, executable)) ↔
      ∃ content, node = .file content ∧ sha256 content.data = sha256 data ∧
        content.data.length = data.length ∧ executableBits content = executable := by
  cases node with
  | directory => simp [Node.map]
  | file content => simp [Node.map, digested, facet]
  | special => simp [Node.map]

theorem map_seal_directory :
    node.map (digested sha256 ∘ facet) = .directory ↔ node = .directory := by
  cases node with
  | directory => simp [Node.map]
  | file content => simp [Node.map]
  | special => simp [Node.map]

theorem digested_injective (injective : Function.Injective sha256) :
    Function.Injective (digested sha256) := by
  intro seen seen' same
  obtain ⟨hash, -, bits⟩ := by simpa [digested] using same
  exact Prod.ext (injective hash) bits

theorem hashReader_eq_ok {data hash : Bytes} {size : Nat} :
    hashReader sha256 data size = .ok hash ↔ data.length = size ∧ sha256 data = hash := by
  simp only [hashReader, bind_eq_ok, refuse_eq_ok, exists_unit, pure_eq_ok, not_not]
  constructor
  · intro h
    exact ⟨h.2.1, h.2.2⟩
  · intro h
    exact ⟨by omega, h.1, h.2⟩

theorem verifyMember_sound (safe : Safe (components m.name))
    (verified : verifyMember sha256 t m = .ok ()) : ∃ real node,
      t.resolve (components m.name) = some (real, node) ∧
        node.map (digested sha256 ∘ facet) = m.seal sha256 := by
  rw [verifyMember, join_safe safe, List.nil_append] at verified
  simp only [bind_eq_ok, refuse_eq_ok, exists_unit, not_or, not_not, not_and] at verified
  obtain ⟨node, read, ⟨ordinary, kind, sized⟩, rest⟩ := verified
  rw [symlinkMetadata, okOr_eq_ok, Option.map_eq_some_iff] at read
  obtain ⟨entry, found, same⟩ := read
  refine ⟨entry.1, node, by rw [found, ← same], ?_⟩
  rw [Member.seal]
  cases directory : m.directory with
  | true =>
    rw [directory] at kind
    rw [eq_directory kind]
    rfl
  | false =>
    rw [directory] at rest kind
    simp only [Bool.false_eq_true, if_false, bind_eq_ok, refuse_eq_ok, exists_unit, not_not, hashReader_eq_ok,
      openRegular, symlinkMetadata, found, okOr_eq_ok, Option.map_some, Option.some.injEq] at rest
    obtain ⟨expected, ⟨length, hash⟩, content, ⟨node', same', file⟩, executable, actual,
      ⟨length', hash'⟩, equal⟩ := rest
    have data : m.data.take (m.size + 1) = m.data := by
      rw [List.length_take] at length
      exact List.take_of_length_le (by omega)
    rw [data] at hash length
    rw [if_neg (by simp), map_seal_file]
    refine ⟨content, ?_, by rw [hash', hash, equal], length'.trans length.symm, executable⟩
    rw [same] at same'
    cases node with
    | directory => rw [← same'] at file; cases file
    | file own =>
      rw [← same'] at file
      rw [Option.some.inj file]
    | special => exact absurd rfl ordinary

theorem verifyMember_complete (safe : Safe (components m.name)) (size : m.data.length = m.size)
    (mem : (components m.name, node) ∈ t.entries)
    (seen : node.map (digested sha256 ∘ facet) = m.seal sha256) :
    verifyMember sha256 t m = .ok () := by
  rw [verifyMember, join_safe safe, List.nil_append, symlinkMetadata_mem mem, ok_bind]
  rw [Member.seal] at seen
  cases directory : m.directory with
  | true =>
    rw [directory, if_pos rfl, map_seal_directory] at seen
    simp [seen, Node.isDir, refuse, pure, Except.pure]
  | false =>
    rw [directory, if_neg (by simp), map_seal_file] at seen
    obtain ⟨content, file, data, length, executable⟩ := seen
    have all : m.data.take (m.size + 1) = m.data := List.take_of_length_le (by omega)
    rw [file] at mem
    simp [file, Node.isDir, Node.content, openRegular, symlinkMetadata_mem mem, all, hashReader, data, length,
      size, executable, refuse, okOr, pure, Except.pure]

end Members

/- Trees. -/

def Stands (sha256 : Bytes → Bytes) (members : List Member) (path : Path)
    (node : Node (Bytes × Nat × Nat)) : Prop :=
  path = [] ∧ node = .directory ∨ ∃ m ∈ members, path <+: components m.name ∧ path ≠ [] ∧
    node = if path = components m.name then m.seal sha256 else .directory

section Verify
variable {sha256 : Bytes → Bytes} {rule : CaseRule} {t : Files rule} {plan : ArchivePlan} {path : Path}
  {node : Node FileContent}

theorem Holds.view (holds : Holds plan.members t) (tree : Tree plan.members) (path : Path)
    (seen : Node (Bytes × Nat × Nat)) :
    (path, seen) ∈ t.view (digested sha256 ∘ facet) ↔ Stands sha256 plan.members path seen := by
  have own : ∀ m ∈ plan.members, ∀ node, Placed m path node →
      node.map (digested sha256 ∘ facet) =
        if path = components m.name then m.seal sha256 else .directory := by
    intro m mem node placed
    rw [placed.2.2]
    split
    · exact seal_node (tree.executable m mem)
    · rfl
  constructor
  · intro inside
    obtain ⟨node, mem, same⟩ := inside
    cases (holds path node).mp mem with
    | inl root =>
      rw [root.2] at same
      exact .inl ⟨root.1, same.symm⟩
    | inr placed =>
      obtain ⟨m, mem, placed⟩ := placed
      refine .inr ⟨m, mem, placed.1, placed.2.1, ?_⟩
      rw [← own m mem node placed]
      exact same.symm
  · intro stands
    cases stands with
    | inl root =>
      refine ⟨.directory, (holds path _).mpr (.inl ⟨root.1, rfl⟩), ?_⟩
      rw [root.2]
      rfl
    | inr placed =>
      obtain ⟨m, mem, below, ne, same⟩ := placed
      have here : Placed m path (if path = components m.name then m.node else .directory) :=
        ⟨below, ne, rfl⟩
      refine ⟨_, (holds path _).mpr (.inr ⟨m, mem, here⟩), ?_⟩
      rw [own m mem _ here, same]

theorem root_mem {found : List Path} (collected : collectPaths t (t.depth + 1) [] = .ok found) :
    (([] : Path), Node.directory) ∈ t.entries := by
  simp only [collectPaths, bind_eq_ok, refuse_eq_ok, exists_unit, symlinkMetadata, okOr_eq_ok,
    Option.map_eq_some_iff, Bool.not_eq_false] at collected
  obtain ⟨node, ⟨entry, found, same⟩, dir, _⟩ := collected
  have found' : t.resolve [] = some (entry.1, entry.2) := found
  obtain ⟨mem, root⟩ := FileTree.mem_of_resolve found'
  have top : entry.1 = [] := List.map_eq_nil_iff.mp root
  rw [same, eq_directory dir, top] at mem
  exact mem

theorem deep_enough (path : Path) (node : Node FileContent) (mem : (path, node) ∈ t.entries) :
    path.length < t.depth + 1 + ([] : Path).length :=
  Nat.lt_succ_of_le (FileTree.length_le_depth mem)

theorem verify_sound (tree : Tree plan.members) (verified : verify sha256 plan t = .ok ())
    (path : Path) (seen : Node (Bytes × Nat × Nat)) :
    (path, seen) ∈ t.view (digested sha256 ∘ facet) ↔ Stands sha256 plan.members path seen := by
  simp only [verify, bind_eq_ok, refuse_eq_ok, exists_unit, List.forM_eq_forM, forM_eq_ok,
    not_not] at verified
  obtain ⟨each, found, collected, covered, present⟩ := verified
  have root := root_mem collected
  have finds : ∀ path node, (path, node) ∈ t.entries → path ≠ [] → path ∈ found ∧ node ≠ .special := by
    intro path node mem ne
    cases path with
    | nil => exact absurd rfl ne
    | cons name rest => exact collectPaths_finds deep_enough collected mem
  have there : ∀ path ∈ expectedPaths plan.members, ∃ node, (path, node) ∈ t.entries :=
    fun path mem => (collectPaths_sound collected path (present mem)).2
  -- Every entry on the way to a member is the member itself or a directory above it.
  have shape : ∀ m ∈ plan.members, ∀ path node, (path, node) ∈ t.entries → path <+: components m.name →
      path ≠ [] → node.map (digested sha256 ∘ facet) =
        if path = components m.name then m.seal sha256 else .directory := by
    intro m mem path node inside below ne
    by_cases own : path = components m.name
    · obtain ⟨real, node', resolved, seen⟩ := verifyMember_sound (tree.safe m mem) (each m mem)
      rw [own] at inside
      rw [FileTree.resolve_of_mem inside] at resolved
      obtain ⟨_, same⟩ := Prod.mk.inj (Option.some.inj resolved)
      rw [if_pos own, same, seen]
    · obtain ⟨rest, whole⟩ := below
      obtain ⟨bottom, leaf⟩ := there (components m.name)
        (mem_expectedPaths.mpr ⟨m, mem, List.prefix_rfl, components_ne_nil⟩)
      have more : rest ≠ [] := fun none => own (by simpa [none] using whole)
      have spelled : components m.name = path.dropLast ++ path.getLast ne :: rest := by
        rw [← whole, ← List.singleton_append, ← List.append_assoc, List.dropLast_append_getLast]
      rw [spelled] at leaf
      obtain ⟨parent, above, opens⟩ := FileTree.ancestor_mem leaf
      rw [List.dropLast_append_getLast] at above
      have same := node_unique inside above
      have ordinary := (finds path node inside ne).2
      have closed := opens more
      rw [if_neg own, map_seal_directory]
      rw [← same] at closed
      cases node with
      | directory => rfl
      | file content => cases closed
      | special => exact absurd rfl ordinary
  constructor
  · intro inside
    obtain ⟨node, mem, same⟩ := inside
    by_cases top : path = []
    · have dir := node_unique (top ▸ mem) root
      rw [dir] at same
      exact .inl ⟨top, same.symm⟩
    · obtain ⟨m, own, below, ne⟩ := mem_expectedPaths.mp (covered (finds path node mem top).1)
      exact .inr ⟨m, own, below, ne, by rw [← shape m own path node mem below ne]; exact same.symm⟩
  · intro stands
    cases stands with
    | inl top => exact ⟨.directory, top.1 ▸ root, top.2 ▸ rfl⟩
    | inr placed =>
      obtain ⟨m, own, below, ne, same⟩ := placed
      obtain ⟨node, mem⟩ := there path (mem_expectedPaths.mpr ⟨m, own, below, ne⟩)
      exact ⟨node, mem, by rw [shape m own path node mem below ne, same]⟩

theorem verify_complete (tree : Tree plan.members) (sizes : ∀ m ∈ plan.members, m.data.length = m.size)
    (same : ∀ path seen, (path, seen) ∈ t.view (digested sha256 ∘ facet) ↔
      Stands sha256 plan.members path seen) :
    verify sha256 plan t = .ok () := by
  have there : ∀ path seen, Stands sha256 plan.members path seen →
      ∃ node, (path, node) ∈ t.entries ∧ node.map (digested sha256 ∘ facet) = seen :=
    fun path seen stands => (same path seen).mpr stands
  have each : ∀ m ∈ plan.members, verifyMember sha256 t m = .ok () := by
    intro m mem
    obtain ⟨node, inside, seen⟩ := there (components m.name) (m.seal sha256)
      (.inr ⟨m, mem, List.prefix_rfl, components_ne_nil, by rw [if_pos rfl]⟩)
    exact verifyMember_complete (tree.safe m mem) (sizes m mem) inside seen
  have known : ∀ path node, (path, node) ∈ t.entries →
    Stands sha256 plan.members path (node.map (digested sha256 ∘ facet)) :=
    fun path node mem => (same path _).mp ⟨node, mem, rfl⟩
  have ordinary : ∀ path node, (path, node) ∈ t.entries → node ≠ .special := by
    intro path node mem special
    rw [special] at mem
    cases known path _ mem with
    | inl root => cases root.2
    | inr placed =>
      obtain ⟨m, _, _, _, equal⟩ := placed
      rw [Member.seal] at equal
      split at equal
      · split at equal <;> cases equal
      · cases equal
  obtain ⟨node, mem, seen⟩ := there [] .directory (.inl ⟨rfl, rfl⟩)
  rw [map_seal_directory.mp seen] at mem
  obtain ⟨found, collected⟩ := collectPaths_complete (n := t.depth + 1) mem ordinary
  simp only [verify, bind_eq_ok, refuse_eq_ok, exists_unit, List.forM_eq_forM, forM_eq_ok, not_not]
  refine ⟨each, found, collected, ?_, ?_⟩
  · intro path inside
    obtain ⟨ne, node, mem⟩ := collectPaths_sound collected path inside
    cases known path node mem with
    | inl root => exact absurd root.1 ne
    | inr placed =>
      obtain ⟨m, own, below, ne, _⟩ := placed
      exact mem_expectedPaths.mpr ⟨m, own, below, ne⟩
  · intro path inside
    obtain ⟨m, own, below, ne⟩ := mem_expectedPaths.mp inside
    obtain ⟨node, mem, _⟩ := there path _ (.inr ⟨m, own, below, ne, rfl⟩)
    cases path with
    | nil => exact absurd rfl ne
    | cons name rest => exact (collectPaths_finds deep_enough collected mem).1

end Verify

end Ledgence.ProgramArchive

/-! Every accepted archive extracts safely and verifies, and verification tells it from every other
tree. -/

namespace Ledgence.ProgramArchive
open ArtifactCache (Abort Bytes)

/-- Of each member the ZIP library returns as many bytes as it says. -/
def Formats.Faithful (formats : Formats) : Prop :=
  ∀ bytes archive, formats.zip bytes = .ok archive → ∀ entry ∈ archive.entries,
    entry.data.length = entry.size

structure Arranged (members : List Member) : Prop where
  below : ∀ m ∈ members, ∀ root, ∃ path, path ≠ [] ∧ join root m.name = root ++ path
  closed : ∀ path ∈ expectedPaths members, ∀ above, above <+: path → above ≠ [] →
    above ∈ expectedPaths members
  files : ∀ m ∈ members, ∀ m' ∈ members, m.directory = false →
    components m.name <+: components m'.name → m = m'
  spellings : ∀ path ∈ expectedPaths members, ∀ path' ∈ expectedPaths members,
    toAsciiLowercase (spelling path) = toAsciiLowercase (spelling path') → spelling path = spelling path'

structure Sealed (sha256 : Bytes → Bytes) (rule : CaseRule) (plan : ArchivePlan) (t : Files rule) :
    Prop where
  extracted : extract plan FileTree.fresh = .ok t
  paths : ∀ path, path ∈ expectedPaths plan.members ↔ path ≠ [] ∧ ∃ node, (path, node) ∈ t.entries
  verified : verify sha256 plan t = .ok ()
  exactly : ∀ t' : Files rule, verify sha256 plan t' = .ok () ↔
    t'.view (digested sha256 ∘ facet) = t.view (digested sha256 ∘ facet)
  bytes : Function.Injective sha256 → ∀ t' : Files rule,
    verify sha256 plan t' = .ok () ↔ t'.view facet = t.view facet

section Plans
variable {rule : CaseRule} {members : List Member} {plan : ArchivePlan} {t : Files rule}

theorem Tree.same_member (tree : Tree members) {m m' : Member} (mem : m ∈ members) (mem' : m' ∈ members)
    (same : components m.name = components m'.name) : m = m' :=
  List.inj_on_of_nodup_map tree.distinct mem mem' (congrArg (List.map toAsciiLowercase) same)

theorem Tree.arranged (tree : Tree members) : Arranged members where
  below m mem root := ⟨_, components_ne_nil, join_safe (tree.safe m mem)⟩
  closed path mem above below ne := by
    obtain ⟨m, inside, up, _⟩ := mem_expectedPaths.mp mem
    exact mem_expectedPaths.mpr ⟨m, inside, below.trans up, ne⟩
  files m mem m' mem' file below := by
    by_cases own : components m.name = components m'.name
    · exact tree.same_member mem mem' own
    · have chained : (components m.name, true) ∈ m'.chain :=
        mem_chain.mpr ⟨below, components_ne_nil, .inr ⟨own, rfl⟩⟩
      have self : (components m.name, false) ∈ m.chain :=
        mem_chain.mpr ⟨List.prefix_rfl, components_ne_nil, .inl ⟨rfl, file.symm⟩⟩
      have equal := tree.agree m mem m' mem' _ self _ chained rfl
      cases (Prod.mk.inj equal).2
  spellings path mem path' mem' same := by
    have chained : ∀ p ∈ expectedPaths members, ∃ m ∈ members, ∃ directory, (p, directory) ∈ m.chain := by
      intro p inside
      obtain ⟨m, own, below, ne⟩ := mem_expectedPaths.mp inside
      by_cases self : p = components m.name
      · exact ⟨m, own, m.directory, mem_chain.mpr ⟨below, ne, .inl ⟨self, rfl⟩⟩⟩
      · exact ⟨m, own, true, mem_chain.mpr ⟨below, ne, .inr ⟨self, rfl⟩⟩⟩
    obtain ⟨m, own, directory, inside⟩ := chained path mem
    obtain ⟨m', own', directory', inside'⟩ := chained path' mem'
    obtain ⟨plain, ne⟩ := chain_plain inside
    obtain ⟨plain', ne'⟩ := chain_plain inside'
    have equal := tree.agree m own m' own' _ inside _ inside' ((lower_spelling plain plain' ne ne').mp same)
    rw [(Prod.mk.inj equal).1]

theorem Holds.paths (holds : Holds members t) (path : Path) :
    path ∈ expectedPaths members ↔ path ≠ [] ∧ ∃ node, (path, node) ∈ t.entries := by
  rw [mem_expectedPaths]
  constructor
  · intro h
    obtain ⟨m, mem, below, ne⟩ := h
    exact ⟨ne, _, (holds path _).mpr (.inr ⟨m, mem, below, ne, rfl⟩)⟩
  · intro h
    obtain ⟨ne, node, mem⟩ := h
    cases (holds path node).mp mem with
    | inl root => exact absurd root.1 ne
    | inr placed =>
      obtain ⟨m, mem, below, _, _⟩ := placed
      exact ⟨m, mem, below, ne⟩

theorem sealed_of_tree (sha256 : Bytes → Bytes) (rule : CaseRule) (tree : Tree plan.members)
    (sizes : ∀ m ∈ plan.members, m.data.length = m.size) :
    ∃ t : Files rule, Sealed sha256 rule plan t := by
  obtain ⟨t, extracted, holds⟩ :
      ∃ t : Files rule, extract plan FileTree.fresh = .ok t ∧ Holds plan.members t :=
    extract_holds tree sizes
  have seen : ∀ path node, (path, node) ∈ t.view (digested sha256 ∘ facet) ↔
      Stands sha256 plan.members path node := holds.view tree
  have exactly : ∀ t' : Files rule, verify sha256 plan t' = .ok () ↔
      t'.view (digested sha256 ∘ facet) = t.view (digested sha256 ∘ facet) := by
    intro t'
    constructor
    · intro verified
      have seen' := verify_sound tree verified
      exact Set.ext fun x => (seen' x.1 x.2).trans (seen x.1 x.2).symm
    · intro same
      exact verify_complete tree sizes fun path node => same ▸ seen path node
  refine ⟨t, extracted, holds.paths, verify_complete tree sizes seen, exactly, ?_⟩
  intro injective t'
  rw [exactly, FileTree.view_comp_inj (digested_injective injective)]

end Plans

section Archives
variable {formats : Formats} {limits : ArtifactLimits} {bytes : Bytes} {descriptor : ProgramDescriptor}
  {listed : List (String × ZipEntry)}

theorem openArchive_faithful (faithful : formats.Faithful)
    (opened : openArchive formats limits bytes descriptor = .ok listed) :
    ∀ member ∈ listed, member.2.data.length = member.2.size := by
  simp only [openArchive, bind_eq_ok, ok_of_mapError, exists_unit, pure_eq_ok] at opened
  obtain ⟨_, _, names, _, archive, unzipped, _, _, _, _, same⟩ := opened
  intro member mem
  rw [← same] at mem
  exact faithful bytes archive unzipped member.2 (List.of_mem_zip mem).2

/-- An accepted archive lists a tree, extracts below a fresh root on either kind of file system, and
verifies there and nowhere else; another order of the same members is accepted as well. -/
theorem archive_sealed (formats : Formats) (faithful : formats.Faithful) (limits : ArtifactLimits)
    (bytes : Bytes) (descriptor : ProgramDescriptor) (plan : ArchivePlan)
    (accepted : inspectForPublication formats limits bytes descriptor = .ok plan) :
    Arranged plan.members ∧ (∀ rule, ∃ t : Files rule, Sealed formats.sha256 rule plan t) ∧
    ∀ listed, openArchive formats limits bytes descriptor = .ok listed →
      ∀ bytes' descriptor' listed', openArchive formats limits bytes' descriptor' = .ok listed' →
        descriptor'.program = descriptor.program → listed.Perm listed' →
        ∃ plan', inspectForPublication formats limits bytes' descriptor' = .ok plan' := by
  rw [inspectForPublication, bind_eq_ok] at accepted
  obtain ⟨listed, opened, inspected⟩ := accepted
  obtain ⟨sound, members⟩ := inspectMembers_sound inspected
  have tree := sound.tree
  rw [← members] at tree
  have sizes : ∀ m ∈ plan.members, m.data.length = m.size := by
    intro m mem
    rw [members] at mem
    obtain ⟨entry, inside, same⟩ := List.mem_map.mp mem
    exact same ▸ openArchive_faithful faithful opened entry inside
  refine ⟨tree.arranged, fun rule => sealed_of_tree formats.sha256 rule tree sizes, ?_⟩
  intro listed₀ opened₀ bytes' descriptor' listed' opened' program perm
  rw [opened] at opened₀
  rw [← Except.ok.inj opened₀] at perm
  obtain ⟨plan', again⟩ := (inspectMembers_perm perm).mp ⟨plan, inspected⟩
  refine ⟨plan', ?_⟩
  rw [inspectForPublication, opened', ok_bind, program]
  exact again

end Archives

/- A program of two files. -/

/-- `str::as_bytes` -/
def asBytes (text : String) : Bytes :=
  text.toByteArray.data.toList

def manifestText (version : String) : Bytes :=
  asBytes ("\x7b\"schema_version\":1,\"program\":\x7b\"id\":\"echo\",\"version\":\"" ++ version ++
    "\"\x7d,\"runtime\":\x7b\"kind\":\"python\",\"python\":\"3.12\",\"protocol\":3\x7d," ++
    "\"handler\":\"app:run\",\"platform\":\x7b\"os\":\"linux\",\"arch\":\"x86_64\"\x7d\x7d")

def sampleManifestText : Bytes := manifestText "1"

def sampleCode : Bytes := asBytes "def run(): pass\n"

def sampleHeader (rest : Bytes) : Bytes :=
  [20, 0, 0, 0, 0, 0, 0, 0, 33, 0] ++ rest

def sampleManifestHeader : Bytes :=
  sampleHeader [249, 35, 191, 156, 177, 0, 0, 0, 177, 0, 0, 0, 21, 0, 0, 0]

def sampleCodeHeader : Bytes :=
  sampleHeader [41, 232, 174, 35, 16, 0, 0, 0, 16, 0, 0, 0, 10, 0, 0, 0]

/-- The two files, stored. -/
def packed (header manifest : Bytes) : Bytes :=
  [80, 75, 3, 4] ++ header ++ asBytes manifestName ++ manifest ++
  [80, 75, 3, 4] ++ sampleCodeHeader ++ asBytes "lib/app.py" ++ sampleCode ++
  [80, 75, 1, 2, 20, 3] ++ header ++ [0, 0, 0, 0, 0, 0, 0, 0, 164, 129, 0, 0, 0, 0] ++
    asBytes manifestName ++
  [80, 75, 1, 2, 20, 3] ++ sampleCodeHeader ++ [0, 0, 0, 0, 0, 0, 0, 0, 237, 129, 228, 0, 0, 0] ++
    asBytes "lib/app.py" ++
  [80, 75, 5, 6, 0, 0, 0, 0, 2, 0, 2, 0, 123, 0, 0, 0, 28, 1, 0, 0, 0, 0]

def sampleArchive : Bytes := packed sampleManifestHeader sampleManifestText

def packedEntries (manifest : Bytes) : List ZipEntry :=
  [⟨none, manifestName, false, false, false, some 0o100644, 177, manifest⟩,
    ⟨none, "lib/app.py", false, false, false, some 0o100755, 16, sampleCode⟩]

def sampleEntries : List ZipEntry := packedEntries sampleManifestText

def sampleManifest : ProgramManifest :=
  ⟨1, ⟨"echo", "1"⟩, ⟨"python", "3.12", 3⟩, "app:run", ⟨"linux", "x86_64"⟩⟩

def sampleDigest : String := "c268e806025db1f77a6cbc50f09cd4ad25222cfd12adb2843345f7205707f065"

def unhexText (text : String) : Bytes :=
  (unhex (asBytes text)).getD []

/-- The SHA-256 of the archive and of what is in it. -/
def sampleDigests : List (Bytes × Bytes) :=
  [(sampleArchive, unhexText sampleDigest),
    (sampleManifestText, unhexText "412341728f212ccea0f2c83daecbcc76e6cb5ae9b6d4ff5ec6acaafdbda8cdc2"),
    (sampleCode, unhexText "c8327cd399024e76344103d38590d8e9c08a8dde6bd450efc1d48196c4c587c7")]

def sampleFormats : Formats where
  sha256 bytes := match Table.find Prod.fst bytes sampleDigests with
    | some row => row.2
    | none => List.replicate 33 0 ++ bytes
  zip bytes := if bytes = sampleArchive then .ok ⟨0, sampleEntries, .ok false⟩
    else .error "invalid Zip archive"
  manifest bytes := if bytes = sampleManifestText then .ok sampleManifest else .error "expected value"

def sampleLimits : ArtifactLimits where
  maxArchiveBytes := 1024
  maxDescriptorBytes := 1024
  maxExpandedBytes := 1024
  maxFileBytes := 1024
  maxEntries := 16
  maxManifestBytes := 1024

def sampleDescriptor : ProgramDescriptor :=
  ⟨⟨"echo", "1"⟩, ⟨"sha256:" ++ sampleDigest⟩, 429⟩

def samplePlan : ArchivePlan where
  members := sampleEntries.map ZipEntry.member
  manifest := sampleManifest
  expandedBytes := 193

theorem sample_accepted :
    inspectForPublication sampleFormats sampleLimits sampleArchive sampleDescriptor = .ok samplePlan := by
  decide +kernel

theorem sample_faithful : sampleFormats.Faithful := by
  intro bytes archive unzipped entry mem
  simp only [sampleFormats] at unzipped
  split at unzipped
  · rw [← Except.ok.inj unzipped] at mem
    have sizes : ∀ entry ∈ sampleEntries, entry.data.length = entry.size := by decide +kernel
    exact sizes entry mem
  · cases unzipped

theorem sample_injective : Function.Injective sampleFormats.sha256 := by
  have distinct : ∀ row ∈ sampleDigests, row.2.length = 32 ∧
      ∀ row' ∈ sampleDigests, row.2 = row'.2 → row.1 = row'.1 := by
    decide +kernel
  have other : ∀ row ∈ sampleDigests, ∀ bytes : Bytes, row.2 ≠ List.replicate 33 0 ++ bytes := by
    intro row mem bytes same
    have lengths := congrArg List.length same
    rw [(distinct row mem).1, List.length_append, List.length_replicate] at lengths
    omega
  intro bytes bytes' same
  simp only [sampleFormats] at same
  split at same
  · rename_i row found
    split at same
    · rename_i row' found'
      have equal := (distinct row (Table.find_mem found)).2 row' (Table.find_mem found') same
      rw [← Table.find_key found, ← Table.find_key found']
      exact equal
    · exact absurd same (other row (Table.find_mem found) _)
  · split at same
    · rename_i row' found'
      exact absurd same.symm (other row' (Table.find_mem found') _)
    · exact List.append_cancel_left same

/-- The archive of the two files is one, with the permissions to execute the second. -/
theorem archive_sealed_sample : (∀ rule, ∃ t : Files rule,
      extract samplePlan FileTree.fresh = .ok t ∧ verify sampleFormats.sha256 samplePlan t = .ok () ∧
      ∀ t' : Files rule, verify sampleFormats.sha256 samplePlan t' = .ok () ↔ t'.view facet = t.view facet) ∧
    Arranged samplePlan.members := by
  obtain ⟨arranged, each, _⟩ := archive_sealed sampleFormats sample_faithful sampleLimits sampleArchive
    sampleDescriptor samplePlan sample_accepted
  refine ⟨fun rule => ?_, arranged⟩
  obtain ⟨t, whole⟩ := each rule
  exact ⟨t, whole.extracted, whole.verified, whole.bytes sample_injective⟩

end Ledgence.ProgramArchive
