import Ledgence.Archive.Plan

/-! What the inspection of the members accepts, whatever their order, and the tree that their paths
make up. -/
open Kit Kit.Checked

namespace Ledgence.ProgramArchive
open ArtifactCache (Abort Bytes)

section Members
variable (formats : Formats) (limits : ArtifactLimits) (program : ProgramRef)

structure Passes (listed : String × ZipEntry) : Prop where
  opens : listed.2.fault = none
  named : listed.2.name = listed.1
  clear : listed.2.encrypted = false
  safe : SafeName listed.2.name listed.2.directory
  namespaced : toAsciiLowercase listed.2.member.name ≠ "ledgence/__init__.py"
  kind : ¬ listed.2.Foreign
  directory : listed.2.directory = true → listed.2.size = 0
  size : listed.2.size ≤ limits.maxFileBytes
  manifest : listed.2.member.name = manifestName →
    ∃ value, readManifest formats limits program listed.2 = .ok value

def nameRow (listed : String × ZipEntry) : String × Bool :=
  (toAsciiLowercase listed.2.member.name, listed.2.directory)

def Inspection.add (s : Inspection) (listed : String × ZipEntry) : Inspection where
  members := s.members ++ [listed.2.member]
  paths := nameRow listed :: s.paths
  expandedBytes := s.expandedBytes + listed.2.size
  manifest :=
    if listed.2.member.name = manifestName then (readManifest formats limits program listed.2).toOption
    else s.manifest

def maxExpansion : Nat := min u64Max limits.maxExpandedBytes

variable {formats limits program} {s t : Inspection} {listed : String × ZipEntry}
  {members : List (String × ZipEntry)}

theorem nextManifest_eq_ok {entry : ZipEntry} {known manifest : Option ProgramManifest} :
    nextManifest formats limits program entry entry.member.name known = .ok manifest ↔
      (entry.member.name = manifestName → ∃ value, readManifest formats limits program entry = .ok value) ∧
      manifest = if entry.member.name = manifestName then (readManifest formats limits program entry).toOption
        else known := by
  rw [nextManifest]
  by_cases here : entry.member.name = manifestName
  · rw [if_pos here, if_pos here, map_eq_ok]
    cases read : readManifest formats limits program entry with
    | error e => simp [here]
    | ok value => simp [Except.toOption, eq_comm]
  · rw [if_neg here, if_neg here]
    simp [here, eq_comm]

theorem inspectMember_eq_ok : inspectMember formats limits program s listed = .ok t ↔
    (Passes formats limits program listed ∧ (nameRow listed).1 ∉ s.paths.map Prod.fst ∧
      s.expandedBytes + listed.2.size ≤ maxExpansion limits) ∧ t = s.add formats limits program listed := by
  simp only [inspectMember, bind_eq_ok, exists_unit, refuse_eq_ok, ifSome_eq_ok, safeName_eq_ok,
    okOr_eq_ok, checkedAdd_eq_some, pure_eq_ok, not_or, not_and, Decidable.not_not, Nat.not_lt, reduceCtorEq]
  constructor
  · intro h
    obtain ⟨opens, ⟨named, clear⟩, name, ⟨safe, same⟩, namespaced, kind, fresh, ⟨directory, size⟩,
      expanded, ⟨fits, sum⟩, small, manifest, read, result⟩ := h
    have same' : name = listed.2.member.name := same
    rw [same'] at namespaced fresh read result
    obtain ⟨reads, value⟩ := nextManifest_eq_ok.mp read
    have noFault : listed.2.fault = none := by
      cases fault : listed.2.fault with
      | none => rfl
      | some message => exact (opens message fault).elim
    refine ⟨⟨⟨noFault, named, by simpa using clear, safe, namespaced, kind, directory, size, reads⟩,
      fresh, ?_⟩, ?_⟩
    · rw [maxExpansion]
      omega
    · rw [← result, value, ← sum]
      rfl
  · intro h
    obtain ⟨⟨passes, fresh, fits⟩, result⟩ := h
    rw [maxExpansion] at fits
    refine ⟨fun message fault => ?_, ⟨passes.named, by simp [passes.clear]⟩, _, ⟨passes.safe, rfl⟩,
      passes.namespaced, passes.kind, fresh, ⟨passes.directory, passes.size⟩, _, ⟨by omega, rfl⟩,
      by omega, _, nextManifest_eq_ok.mpr ⟨passes.manifest, rfl⟩, result.symm⟩
    rw [passes.opens] at fault
    cases fault

/-- The members one after the other: each passes, no two names agree up to case, and all fit. -/
theorem inspectMember_run (distinct : (s.paths.map Prod.fst).Nodup)
    (bounded : s.expandedBytes ≤ maxExpansion limits) :
    members.foldlM (inspectMember formats limits program) s = .ok t ↔
      ((∀ listed ∈ members, Passes formats limits program listed) ∧
        ((members.map nameRow).map Prod.fst ++ s.paths.map Prod.fst).Nodup ∧
        s.expandedBytes + (members.map (·.2.size)).sum ≤ maxExpansion limits) ∧
      t = members.foldl (Inspection.add formats limits program) s := by
  induction members generalizing s with
  | nil => simp [distinct, bounded, eq_comm (a := t), pure, Except.pure]
  | cons listed members ih =>
    rw [List.foldlM_cons, bind_eq_ok]
    have keys : (s.add formats limits program listed).paths.map Prod.fst =
        (nameRow listed).1 :: s.paths.map Prod.fst := rfl
    have sizes : (s.add formats limits program listed).expandedBytes =
      s.expandedBytes + listed.2.size := rfl
    have split : (((listed :: members).map nameRow).map Prod.fst ++ s.paths.map Prod.fst).Nodup ↔
        ((members.map nameRow).map Prod.fst ++ (nameRow listed).1 :: s.paths.map Prod.fst).Nodup := by
      rw [List.map_cons, List.map_cons, List.cons_append]
      exact (List.perm_middle.nodup_iff).symm
    simp only [inspectMember_eq_ok]
    rw [split, List.map_cons, List.sum_cons, List.forall_mem_cons, List.foldl_cons]
    constructor
    · intro h
      obtain ⟨next, ⟨⟨passes, fresh, fits⟩, same⟩, rest⟩ := h
      rw [same] at rest
      obtain ⟨⟨others, nodup, total⟩, result⟩ :=
        (ih (by rw [keys]; exact List.nodup_cons.mpr ⟨fresh, distinct⟩)
          (by rw [sizes]; exact fits)).mp rest
      rw [keys] at nodup
      rw [sizes] at total
      exact ⟨⟨⟨passes, others⟩, nodup, by omega⟩, result⟩
    · intro h
      obtain ⟨⟨⟨passes, others⟩, nodup, total⟩, result⟩ := h
      have fresh : (nameRow listed).1 ∉ s.paths.map Prod.fst :=
        (List.nodup_cons.mp (List.nodup_append.mp nodup).2.1).1
      refine ⟨_, ⟨⟨passes, fresh, by omega⟩, rfl⟩,
        (ih (by rw [keys]; exact List.nodup_cons.mpr ⟨fresh, distinct⟩)
          (by rw [sizes]; omega)).mpr ⟨⟨others, ?_, ?_⟩, result⟩⟩
      · rw [keys]
        exact nodup
      · rw [sizes]
        omega

theorem members_foldl_add : (members.foldl (Inspection.add formats limits program) s).members =
    s.members ++ members.map (·.2.member) := by
  induction members generalizing s with
  | nil => simp
  | cons listed members ih => simp [ih, Inspection.add]

theorem mem_paths_foldl_add {row : String × Bool} :
    row ∈ (members.foldl (Inspection.add formats limits program) s).paths ↔
      row ∈ members.map nameRow ∨ row ∈ s.paths := by
  induction members generalizing s with
  | nil => simp
  | cons listed members ih =>
    rw [List.foldl_cons, ih, List.map_cons, List.mem_cons]
    simp only [Inspection.add, List.mem_cons]
    tauto

theorem manifest_foldl_add (each : ∀ listed ∈ members, Passes formats limits program listed) :
    (members.foldl (Inspection.add formats limits program) s).manifest.isSome = true ↔
      (∃ listed ∈ members, listed.2.member.name = manifestName) ∨ s.manifest.isSome = true := by
  induction members generalizing s with
  | nil => simp
  | cons listed members ih =>
    obtain ⟨passes, others⟩ := List.forall_mem_cons.mp each
    rw [List.foldl_cons, ih others, List.exists_mem_cons_iff]
    by_cases here : listed.2.member.name = manifestName
    · obtain ⟨value, reads⟩ := passes.manifest here
      have found : (s.add formats limits program listed).manifest.isSome = true := by
        rw [Inspection.add, if_pos here, reads]
        rfl
      simp [here, found]
    · have same : (s.add formats limits program listed).manifest = s.manifest := by
        rw [Inspection.add, if_neg here]
      rw [same]
      simp [here]

end Members

/- Paths. -/

def Agree (rows : List (String × Bool)) : Prop :=
  ∀ a ∈ rows, ∀ b ∈ rows, toAsciiLowercase a.1 = toAsciiLowercase b.1 → a = b

def pathRow (path : Path × Bool) : String × Bool :=
  (spelling path.1, path.2)

section Paths
variable {seen : List (String × Bool)} {path : Path × Bool} {paths : List (Path × Bool)}
  {names : List (String × Bool)} {members : List Member}

theorem agree_nil : Agree [] := by
  simp [Agree]

theorem Agree.sub {rows rows' : List (String × Bool)} (h : Agree rows) (sub : ∀ r ∈ rows', r ∈ rows) :
    Agree rows' :=
  fun a ha b hb => h a (sub a ha) b (sub b hb)

theorem recordPath_agrees (agree : Agree (pathRow path :: seen)) :
    ∃ seen', recordPath seen path = .ok seen' ∧ ∀ r, r ∈ seen' ↔ r = pathRow path ∨ r ∈ seen := by
  rw [recordPath]
  split
  · rename_i existing existingDirectory found
    have mem := Table.find_mem found
    have key := Table.find_key found
    have same := agree (existing, existingDirectory) (List.mem_cons_of_mem _ mem) (pathRow path)
      List.mem_cons_self key
    have parts := Prod.mk.inj same
    refine ⟨seen, by rw [if_neg (by simp [parts])], fun r => ⟨.inr, fun either => ?_⟩⟩
    cases either with
    | inl here => exact here ▸ same ▸ mem
    | inr there => exact there
  · exact ⟨_, rfl, fun r => List.mem_cons⟩

theorem recordPath_sound {seen' : List (String × Bool)} (agree : Agree seen)
    (recorded : recordPath seen path = .ok seen') : Agree (pathRow path :: seen) := by
  have other : ∀ r ∈ seen, toAsciiLowercase r.1 = toAsciiLowercase (spelling path.1) → r = pathRow path := by
    intro r mem same
    rw [recordPath] at recorded
    split at recorded
    · rename_i existing existingDirectory found
      have key := Table.find_key found
      have equal := agree r mem _ (Table.find_mem found) (same.trans key.symm)
      rw [ite_error_eq_ok, not_or, not_not, not_not] at recorded
      rw [equal, recorded.1.1, recorded.1.2]
      rfl
    · rename_i missing
      have absent := List.find?_eq_none.mp missing r mem
      rw [decide_eq_true_eq] at absent
      exact absurd same absent
  intro a ha b hb same
  cases List.mem_cons.mp ha with
  | inl first =>
    cases List.mem_cons.mp hb with
    | inl second => rw [first, second]
    | inr old =>
      rw [first] at same ⊢
      exact (other b old same.symm).symm
  | inr old =>
    cases List.mem_cons.mp hb with
    | inl second =>
      rw [second] at same ⊢
      exact other a old same
    | inr old' => exact agree a old b old' same

theorem recordPath_run (agree : Agree seen) : (∃ seen', paths.foldlM recordPath seen = .ok seen') ↔
    Agree (paths.map pathRow ++ seen) := by
  induction paths generalizing seen with
  | nil => exact ⟨fun _ => agree, fun _ => ⟨seen, rfl⟩⟩
  | cons path paths ih =>
    simp only [List.foldlM_cons, bind_eq_ok]
    have rotate : ∀ r, r ∈ (path :: paths).map pathRow ++ seen ↔
        r ∈ paths.map pathRow ++ pathRow path :: seen := by
      intro r
      simp only [List.map_cons, List.cons_append, List.mem_cons, List.mem_append]
      tauto
    constructor
    · intro h
      obtain ⟨last, next, recorded, rest⟩ := h
      have agree' := recordPath_sound agree recorded
      obtain ⟨seen', again, rows⟩ := recordPath_agrees agree'
      rw [recorded] at again
      have same := Except.ok.inj again
      have ends := (ih (agree'.sub fun r mem => List.mem_cons.mpr ((rows r).mp (same ▸ mem)))).mp ⟨last, rest⟩
      refine ends.sub fun r mem => ?_
      rw [rotate, List.mem_append, List.mem_cons] at mem
      rw [List.mem_append, same, rows]
      exact mem
    · intro whole
      have agree' : Agree (pathRow path :: seen) :=
        whole.sub fun r mem => (rotate r).mpr (List.mem_append_right _ mem)
      obtain ⟨seen', recorded, rows⟩ := recordPath_agrees agree'
      have more : Agree (paths.map pathRow ++ seen') := by
        refine whole.sub fun r mem => ?_
        rw [rotate, List.mem_append, List.mem_cons, ← rows]
        exact List.mem_append.mp mem
      obtain ⟨last, rest⟩ := (ih (agree'.sub fun r mem => List.mem_cons.mpr ((rows r).mp mem))).mpr more
      exact ⟨last, seen', recorded, rest⟩

theorem recordPath_rows {seen' : List (String × Bool)} (agree : Agree seen)
    (recorded : paths.foldlM recordPath seen = .ok seen') :
    ∀ r, r ∈ seen' ↔ r ∈ paths.map pathRow ∨ r ∈ seen := by
  induction paths generalizing seen with
  | nil =>
    intro r
    rw [← pure_eq_ok.mp recorded]
    simp
  | cons path paths ih =>
    rw [List.foldlM_cons, bind_eq_ok] at recorded
    obtain ⟨next, first, rest⟩ := recorded
    have agree' := recordPath_sound agree first
    obtain ⟨next', again, rows⟩ := recordPath_agrees agree'
    rw [first] at again
    have same := Except.ok.inj again
    intro r
    rw [ih (agree'.sub fun r mem => List.mem_cons.mpr ((rows r).mp (same ▸ mem))) rest, same, rows,
      List.map_cons, List.mem_cons]
    tauto

def chainRows (members : List Member) : List (String × Bool) :=
  members.flatMap fun member => member.chain.map pathRow

def Unobstructed (names : List (String × Bool)) (member : Member) : Prop :=
  ∀ path ∈ parents (components member.name), (toAsciiLowercase (spelling path), false) ∉ names

theorem inspectPaths_run (agree : Agree seen) :
    (∃ seen', members.foldlM (inspectPaths names) seen = .ok seen') ↔
      Agree (chainRows members ++ seen) ∧ ∀ member ∈ members, Unobstructed names member := by
  induction members generalizing seen with
  | nil => exact ⟨fun _ => ⟨agree, by simp⟩, fun _ => ⟨seen, rfl⟩⟩
  | cons member members ih =>
    have rotate : ∀ r, r ∈ chainRows (member :: members) ++ seen ↔
        r ∈ chainRows members ++ (member.chain.map pathRow ++ seen) := by
      intro r
      simp only [chainRows, List.flatMap_cons, List.mem_append]
      tauto
    simp only [List.foldlM_cons, bind_eq_ok, inspectPaths, exists_unit, List.forM_eq_forM, forM_eq_ok,
      refuse_eq_ok, pure_eq_ok]
    rw [List.forall_mem_cons]
    constructor
    · intro h
      obtain ⟨last, next, ⟨next', recorded, clear, same⟩, rest⟩ := h
      rw [← same] at rest
      have agree' := (recordPath_run agree).mp ⟨next', recorded⟩
      have rows := recordPath_rows agree recorded
      have seen_agree : Agree next' :=
        agree'.sub fun r mem => List.mem_append.mpr ((rows r).mp mem)
      obtain ⟨ends, others⟩ := (ih seen_agree).mp ⟨last, rest⟩
      refine ⟨ends.sub fun r mem => ?_, clear, others⟩
      rw [rotate, List.mem_append, List.mem_append (s := List.map pathRow member.chain)] at mem
      rw [List.mem_append, rows]
      exact mem
    · intro h
      obtain ⟨whole, clear, others⟩ := h
      have agree' : Agree (member.chain.map pathRow ++ seen) :=
        whole.sub fun r mem => (rotate r).mpr (List.mem_append_right _ mem)
      obtain ⟨next, recorded⟩ := (recordPath_run agree).mpr agree'
      have rows := recordPath_rows agree recorded
      have more : Agree (chainRows members ++ next) := by
        refine whole.sub fun r mem => ?_
        rw [rotate, List.mem_append, List.mem_append (s := List.map pathRow member.chain), ← rows]
        exact List.mem_append.mp mem
      obtain ⟨last, rest⟩ := (ih (agree'.sub fun r mem => List.mem_append.mpr ((rows r).mp mem))).mpr
        ⟨more, others⟩
      exact ⟨last, next, ⟨next, recorded, clear, rfl⟩, rest⟩

end Paths

/- Acceptance. -/

section Acceptance
variable (formats : Formats) (limits : ArtifactLimits) (program : ProgramRef)

/-- What is checked of all members together; nothing in it depends on their order. -/
structure Accepted (listed : List (String × ZipEntry)) : Prop where
  passes : ∀ member ∈ listed, Passes formats limits program member
  names : ((listed.map nameRow).map Prod.fst).Nodup
  expanded : (listed.map (·.2.size)).sum ≤ maxExpansion limits
  agree : Agree (chainRows (listed.map (·.2.member)))
  clear : ∀ member ∈ listed, Unobstructed (listed.map nameRow) member.2.member
  manifest : ∃ member ∈ listed, member.2.member.name = manifestName

variable {formats limits program} {listed listed' : List (String × ZipEntry)} {plan : ArchivePlan}

theorem inspectMembers_sound (accepted : inspectMembers formats limits program listed = .ok plan) :
    Accepted formats limits program listed ∧ plan.members = listed.map (·.2.member) := by
  simp only [inspectMembers, bind_eq_ok, okOr_eq_ok, pure_eq_ok] at accepted
  obtain ⟨s, run, rows, walked, manifest, found, result⟩ := accepted
  obtain ⟨⟨passes, names, expanded⟩, same⟩ :=
    (inspectMember_run (s := ⟨[], [], 0, none⟩) List.nodup_nil (Nat.zero_le _)).mp run
  have members : s.members = listed.map (·.2.member) := by
    rw [same, members_foldl_add, List.nil_append]
  have paths : ∀ row, row ∈ s.paths ↔ row ∈ listed.map nameRow := by
    intro row
    rw [same, mem_paths_foldl_add]
    simp
  obtain ⟨agree, clear⟩ := (inspectPaths_run agree_nil).mp ⟨rows, walked⟩
  have some : s.manifest.isSome = true := by simp [found]
  rw [same, manifest_foldl_add passes] at some
  rw [members, List.append_nil] at agree
  refine ⟨{
    passes
    names := by simpa using names
    expanded := by simpa using expanded
    agree
    clear := fun member mem path above taken => ?_
    manifest := by simpa using some }, ?_⟩
  · have inside : member.2.member ∈ s.members := by
      rw [members]
      exact List.mem_map_of_mem mem
    exact clear _ inside path above ((paths _).mpr taken)
  · rw [← result]
    exact members

theorem inspectMembers_complete (h : Accepted formats limits program listed) :
    ∃ plan, inspectMembers formats limits program listed = .ok plan := by
  have run := (inspectMember_run (s := ⟨[], [], 0, none⟩) List.nodup_nil (Nat.zero_le _)).mpr
    ⟨⟨h.passes, by simpa using h.names, by simpa using h.expanded⟩, rfl⟩
  have members : (listed.foldl (Inspection.add formats limits program) ⟨[], [], 0, none⟩).members =
      listed.map (·.2.member) := by
    rw [members_foldl_add, List.nil_append]
  have some := (manifest_foldl_add (s := ⟨[], [], 0, none⟩) h.passes).mpr (.inl h.manifest)
  obtain ⟨manifest, found⟩ := Option.isSome_iff_exists.mp some
  have walk : Agree (chainRows (listed.map (·.2.member)) ++ []) ∧ ∀ member ∈ listed.map (·.2.member),
      Unobstructed (listed.foldl (Inspection.add formats limits program) ⟨[], [], 0, none⟩).paths member := by
    rw [List.append_nil]
    refine ⟨h.agree, fun member mem path above taken => ?_⟩
    obtain ⟨entry, inside, same⟩ := List.mem_map.mp mem
    cases mem_paths_foldl_add.mp taken with
    | inl there => exact h.clear entry inside path (same ▸ above) there
    | inr there => cases there
  obtain ⟨rows, walked⟩ := (inspectPaths_run agree_nil).mpr walk
  simp only [inspectMembers, bind_eq_ok, okOr_eq_ok, pure_eq_ok]
  exact ⟨_, _, run, rows, members ▸ walked, manifest, found, rfl⟩

theorem inspectMembers_iff : (∃ plan, inspectMembers formats limits program listed = .ok plan) ↔
    Accepted formats limits program listed :=
  ⟨fun ⟨_, accepted⟩ => (inspectMembers_sound accepted).1, inspectMembers_complete⟩

theorem Agree.perm {rows rows' : List (String × Bool)} (h : Agree rows) (perm : rows.Perm rows') :
    Agree rows' :=
  h.sub fun _ mem => perm.mem_iff.mpr mem

theorem Accepted.perm (h : Accepted formats limits program listed) (perm : listed.Perm listed') :
    Accepted formats limits program listed' where
  passes member mem := h.passes member (perm.mem_iff.mpr mem)
  names := ((perm.map nameRow).map Prod.fst).nodup_iff.mp h.names
  expanded := (perm.map (·.2.size)).sum_eq ▸ h.expanded
  agree := by
    have members := perm.map fun member => member.2.member
    exact h.agree.perm (members.flatMap_right fun member : Member => member.chain.map pathRow)
  clear member mem path above taken :=
    h.clear member (perm.mem_iff.mpr mem) path above ((perm.map nameRow).mem_iff.mpr taken)
  manifest := by
    obtain ⟨member, mem, name⟩ := h.manifest
    exact ⟨member, perm.mem_iff.mp mem, name⟩

theorem inspectMembers_perm (perm : listed.Perm listed') :
    (∃ plan, inspectMembers formats limits program listed = .ok plan) ↔
      ∃ plan, inspectMembers formats limits program listed' = .ok plan := by
  rw [inspectMembers_iff, inspectMembers_iff]
  exact ⟨fun h => h.perm perm, fun h => h.perm perm.symm⟩

end Acceptance

/- The tree. -/

def expectedPaths (members : List Member) : List Path :=
  members.flatMap fun member => components member.name :: parents (components member.name)

structure Tree (members : List Member) : Prop where
  safe : ∀ m ∈ members, Safe (components m.name)
  distinct : (members.map fun m => (components m.name).map toAsciiLowercase).Nodup
  agree : ∀ m ∈ members, ∀ m' ∈ members, ∀ path ∈ m.chain, ∀ path' ∈ m'.chain,
    path.1.map toAsciiLowercase = path'.1.map toAsciiLowercase → path = path'
  executable : ∀ m ∈ members, m.executable &&& 0o111 = m.executable

section Shape
variable {formats : Formats} {limits : ArtifactLimits} {program : ProgramRef}
  {listed : List (String × ZipEntry)} {m : Member} {path : Path × Bool} {members : List Member}

theorem mem_chain : path ∈ m.chain ↔ path.1 <+: components m.name ∧ path.1 ≠ [] ∧
    (path.1 = components m.name ∧ path.2 = m.directory ∨ path.1 ≠ components m.name ∧ path.2 = true) := by
  simp only [Member.chain, List.mem_cons, List.mem_map, mem_parents]
  constructor
  · intro either
    cases either with
    | inl own => exact own ▸ ⟨List.prefix_rfl, components_ne_nil, .inl ⟨rfl, rfl⟩⟩
    | inr up =>
      obtain ⟨above, ⟨below, ne, other⟩, same⟩ := up
      exact same ▸ ⟨below, ne, .inr ⟨other, rfl⟩⟩
  · intro h
    obtain ⟨below, ne, either⟩ := h
    cases either with
    | inl own => exact .inl (Prod.ext own.1 own.2)
    | inr up => exact .inr ⟨path.1, ⟨below, ne, up.1⟩, Prod.ext rfl up.2.symm⟩

theorem mem_expectedPaths {p : Path} : p ∈ expectedPaths members ↔
    ∃ m ∈ members, p <+: components m.name ∧ p ≠ [] := by
  simp only [expectedPaths, List.mem_flatMap, List.mem_cons, mem_parents]
  refine exists_congr fun m => and_congr_right fun _ => ?_
  constructor
  · intro either
    cases either with
    | inl own =>
      rw [own]
      exact ⟨List.prefix_rfl, components_ne_nil⟩
    | inr up => exact ⟨up.1, up.2.1⟩
  · intro h
    by_cases own : p = components m.name
    · exact .inl own
    · exact .inr ⟨h.1, h.2, own⟩

theorem chain_plain (mem : path ∈ m.chain) : (∀ c ∈ path.1, Plain c) ∧ path.1 ≠ [] := by
  obtain ⟨below, ne, _⟩ := mem_chain.mp mem
  exact ⟨fun c inside => components_plain (below.subset inside), ne⟩

theorem Accepted.tree (h : Accepted formats limits program listed) :
    Tree (listed.map (·.2.member)) where
  safe m mem := by
    obtain ⟨entry, inside, same⟩ := List.mem_map.mp mem
    exact same ▸ (h.passes entry inside).safe.safe
  distinct := by
    have lower : ∀ name name' : String, toAsciiLowercase name = toAsciiLowercase name' ↔
        (components name).map toAsciiLowercase = (components name').map toAsciiLowercase := by
      intro name name'
      have plain : ∀ name : String, ∀ c ∈ components name, Plain c := fun _ _ => components_plain
      have same := lower_spelling (plain name) (plain name') components_ne_nil components_ne_nil
      simpa using same
    have names := h.names
    rw [List.map_map, List.Nodup, List.pairwise_map] at names
    rw [List.map_map, List.Nodup, List.pairwise_map]
    exact names.imp fun other same => other ((lower _ _).mpr same)
  agree m mem m' mem' path inside path' inside' same := by
    obtain ⟨plain, ne⟩ := chain_plain inside
    obtain ⟨plain', ne'⟩ := chain_plain inside'
    have rows := h.agree (pathRow path) (List.mem_flatMap.mpr ⟨m, mem, List.mem_map_of_mem inside⟩)
      (pathRow path') (List.mem_flatMap.mpr ⟨m', mem', List.mem_map_of_mem inside'⟩)
      ((lower_spelling plain plain' ne ne').mpr same)
    obtain ⟨spelled, kind⟩ := Prod.mk.inj rows
    exact Prod.ext ((spelling_injective plain plain' ne ne').mp spelled) kind
  executable m mem := by
    obtain ⟨entry, _, same⟩ := List.mem_map.mp mem
    rw [← same]
    simp only [ZipEntry.member, Nat.and_assoc, Nat.and_self]

end Shape

end Ledgence.ProgramArchive
