import Ledgence.Kit.Checked
import Ledgence.Kit.Table
import Mathlib.Data.List.Induction
import Mathlib.Data.Set.Defs
import Mathlib.Logic.Function.Defs

/-! File trees as the paths in them, on a file system that tells names apart up to `fold`. -/
namespace Kit

inductive Node (β : Type) where
  | directory
  | file (content : β)
  | special
  deriving DecidableEq

namespace Node
variable {β γ : Type}

def isDir : Node β → Bool
  | .directory => true
  | .file _ | .special => false

def content : Node β → Option β
  | .file content => some content
  | .directory | .special => none

def map (f : β → γ) : Node β → Node γ
  | .directory => .directory
  | .file content => .file (f content)
  | .special => .special

theorem map_map {δ : Type} {f : β → γ} {g : γ → δ} (node : Node β) :
    node.map (g ∘ f) = (node.map f).map g := by
  cases node with
  | directory => rfl
  | file content => rfl
  | special => rfl

theorem map_injective {f : β → γ} (injective : Function.Injective f) :
    Function.Injective (map f) := by
  intro node node' same
  cases node with
  | directory => cases node' with
    | directory => rfl
    | file | special => cases same
  | special => cases node' with
    | special => rfl
    | directory | file => cases same
  | file content => cases node' with
    | file content' => rw [injective (Node.file.inj same)]
    | directory | special => cases same

end Node

inductive FileError where
  | notFound
  | alreadyExists
  | notADirectory
  deriving DecidableEq

/-- What paths lead to from a root, which is the empty path; a path may lead through a symbolic
link, never through a regular file. -/
structure FileTree {ν : Type} [DecidableEq ν] (fold : ν → ν) (β : Type) where
  entries : List (List ν × Node β)
  distinct : Table.Unique (fun e => e.1.map fold) entries
  parents : ∀ directory name node, (directory ++ [name], node) ∈ entries →
    ∃ parent, (directory, parent) ∈ entries ∧ parent.content = none

namespace FileTree
variable {ν β γ : Type} [DecidableEq ν] {fold : ν → ν}

def fresh : FileTree fold β where
  entries := []
  distinct := List.nodup_nil
  parents := by simp

def resolve (t : FileTree fold β) (path : List ν) : Option (List ν × Node β) :=
  Table.find (fun e => e.1.map fold) (path.map fold) t.entries

section Resolve
variable {t : FileTree fold β} {path directory real rest : List ν} {name : ν} {node : Node β}

theorem resolve_of_mem (mem : (path, node) ∈ t.entries) : t.resolve path = some (path, node) :=
  Table.find_of_mem t.distinct mem

theorem mem_of_resolve (found : t.resolve path = some (real, node)) :
    (real, node) ∈ t.entries ∧ real.map fold = path.map fold := by
  rw [resolve] at found
  have same := Table.find_key found
  exact ⟨Table.find_mem found, same⟩

theorem resolve_eq_none : t.resolve path = none ↔
    ∀ real node, (real, node) ∈ t.entries → real.map fold ≠ path.map fold := by
  simp [resolve, Table.find]

/-- Every ancestor of an entry is an entry, and a regular file is not an ancestor. -/
theorem ancestor_mem (mem : (directory ++ name :: rest, node) ∈ t.entries) :
    ∃ parent, (directory ++ [name], parent) ∈ t.entries ∧ (rest ≠ [] → parent.content = none) := by
  induction rest using List.reverseRecOn generalizing node with
  | nil => exact ⟨node, mem, fun ne => absurd rfl ne⟩
  | append_singleton rest last ih =>
    have whole : directory ++ name :: (rest ++ [last]) = (directory ++ name :: rest) ++ [last] := by simp
    rw [whole] at mem
    have ⟨parent, above, opens⟩ := t.parents _ _ _ mem
    cases rest with
    | nil => exact ⟨parent, above, fun _ => opens⟩
    | cons next rest =>
      have ⟨parent', found, opens'⟩ := ih above
      exact ⟨parent', found, fun _ => opens' (by simp)⟩

end Resolve

/- Creating. -/

def createRoot (t : FileTree fold β) : Except FileError (FileTree fold β) :=
  if t.entries = [] then
    .ok { entries := [([], .directory)], distinct := List.nodup_singleton _, parents := by simp }
  else
    .error .alreadyExists

def place (t : FileTree fold β) (directory : List ν) (name : ν) (node : Node β)
    (inside : (directory, .directory) ∈ t.entries) (free : t.resolve (directory ++ [name]) = none) :
    FileTree fold β where
  entries := (directory ++ [name], node) :: t.entries
  distinct := by
    refine List.nodup_cons.mpr ⟨fun taken => ?_, t.distinct⟩
    have ⟨e, mem, same⟩ := List.mem_map.mp taken
    exact resolve_eq_none.mp free e.1 e.2 mem same
  parents := by
    intro directory' name' node' mem
    cases List.mem_cons.mp mem with
    | inl here =>
      have same := List.append_inj' (congrArg Prod.fst here) rfl
      exact ⟨.directory, List.mem_cons_of_mem _ (same.1 ▸ inside), rfl⟩
    | inr there =>
      have ⟨parent, above, opens⟩ := t.parents _ _ _ there
      exact ⟨parent, List.mem_cons_of_mem _ above, opens⟩

theorem free_of_folded {t : FileTree fold β} {directory real : List ν} {name : ν}
    (same : real.map fold = directory.map fold) (free : t.resolve (directory ++ [name]) = none) :
    t.resolve (real ++ [name]) = none := by
  rw [resolve, List.map_append, same, ← List.map_append]
  exact free

def create (t : FileTree fold β) (directory : List ν) (name : ν) (node : Node β) :
    Except FileError (FileTree fold β) :=
  match above : t.resolve directory with
  | none => .error .notFound
  | some (real, .directory) =>
    if free : t.resolve (directory ++ [name]) = none then
      .ok (t.place real name node (mem_of_resolve above).1 (free_of_folded (mem_of_resolve above).2 free))
    else
      .error .alreadyExists
  | some (_, .file _) | some (_, .special) => .error .notADirectory

def createAt (t : FileTree fold β) (path : List ν) (node : Node β) :
    Except FileError (FileTree fold β) :=
  match path.reverse with
  | [] => t.createRoot
  | name :: above => t.create above.reverse name node

def ensureDir (t : FileTree fold β) (path : List ν) : Except FileError (FileTree fold β) :=
  match t.resolve path with
  | some (_, .directory) => .ok t
  | some (_, .file _) | some (_, .special) => .error .alreadyExists
  | none => t.createAt path .directory

def createBelow (t : FileTree fold β) (directory : List ν) :
    List ν → Except FileError (FileTree fold β)
  | [] => .ok t
  | name :: rest => do
    let t ← t.ensureDir (directory ++ [name])
    t.createBelow (directory ++ [name]) rest

def createDirAll (t : FileTree fold β) (path : List ν) : Except FileError (FileTree fold β) := do
  let t ← t.ensureDir []
  t.createBelow [] path

section Create
variable {t : FileTree fold β} {path directory : List ν} {name : ν}

theorem createRoot_fresh : ∃ t', (fresh : FileTree fold β).createRoot = .ok t' ∧
    t'.entries = [([], .directory)] :=
  ⟨_, rfl, rfl⟩

theorem create_free (node : Node β) (inside : (directory, .directory) ∈ t.entries)
    (free : t.resolve (directory ++ [name]) = none) : ∃ t', t.create directory name node = .ok t' ∧
      t'.entries = (directory ++ [name], node) :: t.entries := by
  have found := resolve_of_mem inside
  unfold create
  split
  · rename_i missing
    rw [found] at missing
    cases missing
  · rename_i real here
    rw [found] at here
    cases here
    rw [dif_pos free]
    exact ⟨_, rfl, rfl⟩
  · rename_i here
    rw [found] at here
    cases here
  · rename_i here
    rw [found] at here
    cases here

theorem createAt_free (node : Node β) (inside : (directory, .directory) ∈ t.entries)
    (free : t.resolve (directory ++ [name]) = none) :
    ∃ t', t.createAt (directory ++ [name]) node = .ok t' ∧
      t'.entries = (directory ++ [name], node) :: t.entries := by
  have last : (directory ++ [name]).reverse = name :: directory.reverse := by simp
  rw [createAt, last]
  dsimp only
  rw [List.reverse_reverse]
  exact create_free node inside free

def Open (t : FileTree fold β) (path : List ν) : Prop :=
  ∀ real node, (real, node) ∈ t.entries → real.map fold = path.map fold →
    real = path ∧ node = .directory

theorem ensureDir_there (there : (path, .directory) ∈ t.entries) : t.ensureDir path = .ok t := by
  rw [ensureDir, resolve_of_mem there]

theorem ensureDir_open (inside : (directory, .directory) ∈ t.entries)
    (clear : t.Open (directory ++ [name])) : ∃ t', t.ensureDir (directory ++ [name]) = .ok t' ∧
      ∀ e, e ∈ t'.entries ↔ e ∈ t.entries ∨ e = (directory ++ [name], .directory) := by
  cases found : t.resolve (directory ++ [name]) with
  | none =>
    have ⟨t', made, entries⟩ := create_free .directory inside found
    refine ⟨t', ?_, fun e => ?_⟩
    · rw [ensureDir, found, createAt]
      simpa using made
    · rw [entries, List.mem_cons]
      exact or_comm
  | some e =>
    have ⟨mem, same⟩ := mem_of_resolve found
    have ⟨real, node⟩ := clear e.1 e.2 mem same
    have there : (directory ++ [name], .directory) ∈ t.entries := by
      rw [← real, ← node]
      exact mem
    refine ⟨t, ensureDir_there there, fun e => ?_⟩
    constructor
    · exact .inl
    · intro either
      cases either with
      | inl mem => exact mem
      | inr same => exact same ▸ there

theorem createBelow_open {rest : List ν} (inside : (directory, .directory) ∈ t.entries)
    (clear : ∀ p, p <+: rest → p ≠ [] → t.Open (directory ++ p)) :
    ∃ t', t.createBelow directory rest = .ok t' ∧ ∀ e, e ∈ t'.entries ↔
      e ∈ t.entries ∨ ∃ p, p <+: rest ∧ p ≠ [] ∧ e = (directory ++ p, .directory) := by
  induction rest generalizing t directory with
  | nil =>
    refine ⟨t, rfl, fun e => ⟨.inl, fun either => ?_⟩⟩
    cases either with
    | inl mem => exact mem
    | inr made =>
      have ⟨p, below, ne, _⟩ := made
      exact absurd (List.prefix_nil.mp below) ne
  | cons name rest ih =>
    have ⟨t', made, entries⟩ := ensureDir_open inside (clear [name] ⟨rest, rfl⟩ (by simp))
    have here : (directory ++ [name], .directory) ∈ t'.entries := (entries _).mpr (.inr rfl)
    -- The new directory is none of those that are still to be made.
    have clear' : ∀ p, p <+: rest → p ≠ [] → t'.Open (directory ++ [name] ++ p) := by
      intro p below ne real node mem same
      cases (entries _).mp mem with
      | inl old =>
        have ⟨whole, dir⟩ := clear (name :: p) (List.cons_prefix_cons.mpr ⟨rfl, below⟩) (by simp)
          real node old (by simpa using same)
        exact ⟨by simpa using whole, dir⟩
      | inr new =>
        have lengths := congrArg List.length same
        rw [(Prod.mk.inj new).1] at lengths
        simp only [List.length_map, List.length_append] at lengths
        have positive := List.length_pos_of_ne_nil ne
        omega
    have ⟨t'', rest_made, entries'⟩ := ih here clear'
    refine ⟨t'', by rw [createBelow, made, Checked.ok_bind, rest_made], fun e => ?_⟩
    rw [entries', entries]
    constructor
    · intro either
      cases either with
      | inl either =>
        cases either with
        | inl old => exact .inl old
        | inr new => exact .inr ⟨[name], ⟨rest, rfl⟩, by simp, new⟩
      | inr made =>
        have ⟨p, below, _, same⟩ := made
        exact .inr ⟨name :: p, List.cons_prefix_cons.mpr ⟨rfl, below⟩, by simp, by simpa using same⟩
    · intro either
      cases either with
      | inl old => exact .inl (.inl old)
      | inr made =>
        have ⟨p, below, ne, same⟩ := made
        cases p with
        | nil => exact absurd rfl ne
        | cons first p =>
          have ⟨head, tail⟩ := List.cons_prefix_cons.mp below
          rw [head] at same
          cases p with
          | nil => exact .inl (.inr same)
          | cons next p => exact .inr ⟨next :: p, tail, by simp, by simpa using same⟩

theorem createDirAll_open (root : ([], .directory) ∈ t.entries)
    (clear : ∀ p, p <+: path → p ≠ [] → t.Open p) :
    ∃ t', t.createDirAll path = .ok t' ∧ ∀ e, e ∈ t'.entries ↔
      e ∈ t.entries ∨ ∃ p, p <+: path ∧ p ≠ [] ∧ e = (p, .directory) := by
  rw [createDirAll, ensureDir_there root, Checked.ok_bind]
  exact createBelow_open root clear

end Create

/- Listing. -/

def readDir (t : FileTree fold β) (directory : List ν) : List (List ν) :=
  (t.entries.map Prod.fst).filter fun path => path ≠ [] ∧ path.dropLast = directory

def depth (t : FileTree fold β) : Nat :=
  (t.entries.map fun e => e.1.length).foldr max 0

/-- Every path with what there is to know, by `facet`, of what stands there. -/
def view (t : FileTree fold β) (facet : β → γ) : Set (List ν × Node γ) :=
  fun seen => ∃ node, (seen.1, node) ∈ t.entries ∧ node.map facet = seen.2

theorem mem_view_comp {δ : Type} {t : FileTree fold β} {facet : β → γ} {g : γ → δ} {path : List ν}
    {seen : Node δ} :
    (path, seen) ∈ t.view (g ∘ facet) ↔ ∃ node, (path, node) ∈ t.view facet ∧ node.map g = seen := by
  constructor
  · rintro ⟨node, mem, rfl⟩
    exact ⟨_, ⟨node, mem, rfl⟩, (Node.map_map node).symm⟩
  · rintro ⟨_, ⟨node, mem, rfl⟩, rfl⟩
    exact ⟨node, mem, Node.map_map node⟩

theorem view_comp_inj {δ : Type} {t t' : FileTree fold β} {facet : β → γ} {g : γ → δ}
    (injective : Function.Injective g) :
    t'.view (g ∘ facet) = t.view (g ∘ facet) ↔ t'.view facet = t.view facet := by
  constructor
  · intro same
    refine Set.ext fun x => ?_
    have whole : ∀ s : FileTree fold β, x ∈ s.view facet ↔ (x.1, x.2.map g) ∈ s.view (g ∘ facet) := by
      intro s
      rw [mem_view_comp]
      constructor
      · exact fun mem => ⟨x.2, mem, rfl⟩
      · rintro ⟨node, mem, equal⟩
        obtain rfl := Node.map_injective injective equal
        exact mem
    rw [whole t', whole t, same]
  · intro same
    refine Set.ext fun x => ?_
    obtain ⟨path, seen⟩ := x
    rw [mem_view_comp, mem_view_comp, same]

section List
variable {t : FileTree fold β} {path directory : List ν} {node : Node β}

theorem mem_readDir : path ∈ t.readDir directory ↔
    ∃ name node, path = directory ++ [name] ∧ (path, node) ∈ t.entries := by
  simp only [readDir, List.mem_filter, List.mem_map, decide_eq_true_eq]
  constructor
  · intro h
    have ⟨⟨e, mem, same⟩, ne, above⟩ := h
    refine ⟨path.getLast ne, e.2, ?_, same ▸ mem⟩
    rw [← above, List.dropLast_append_getLast]
  · intro h
    have ⟨name, node, same, mem⟩ := h
    exact ⟨⟨(path, node), mem, rfl⟩, by simp [same], by simp [same]⟩

theorem length_le_depth (mem : (path, node) ∈ t.entries) : path.length ≤ t.depth := by
  rw [depth]
  generalize t.entries = entries at mem
  induction entries with
  | nil => cases mem
  | cons e entries ih =>
    rw [List.map_cons, List.foldr_cons]
    cases List.mem_cons.mp mem with
    | inl here => exact here ▸ Nat.le_max_left _ _
    | inr later => exact (ih later).trans (Nat.le_max_right _ _)

end List

end FileTree
end Kit
