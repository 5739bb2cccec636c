import Ledgence.Kit.JsonText
import Mathlib.Data.List.Nodup
import Mathlib.Algebra.BigOperators.Group.List.Basic

/-! The text with sorted objects decides equality of values up to member order, and the
measures a decoder bounds do not see that order. -/
namespace Kit
namespace Json

theorem sortItems_eq_map (vs : List Json) : sortItems vs = vs.map sortObjects := by
  induction vs with
  | nil => rfl
  | cons v vs ih => simp [sortItems, ih]

theorem sortMembers_eq_map (ms : List (String × Json)) :
    sortMembers ms = ms.map fun m => (m.1, sortObjects m.2) := by
  induction ms with
  | nil => rfl
  | cons m ms ih =>
    obtain ⟨k, v⟩ := m
    simp [sortMembers, ih]

theorem itemsUnique_iff {vs : List Json} : ItemsUnique vs ↔ ∀ v ∈ vs, UniqueKeys v := by
  induction vs with
  | nil => simp [ItemsUnique]
  | cons v vs ih => simp [ItemsUnique, ih]

theorem membersUnique_iff {ms : List (String × Json)} :
    MembersUnique ms ↔ ∀ k v, (k, v) ∈ ms → UniqueKeys v := by
  induction ms with
  | nil => simp [MembersUnique]
  | cons m ms ih =>
    obtain ⟨k, v⟩ := m
    simp only [MembersUnique, ih, List.mem_cons, Prod.mk.injEq]
    constructor
    · rintro ⟨hv, rest⟩ l w (⟨rfl, rfl⟩ | hw)
      · exact hv
      · exact rest l w hw
    · intro each
      exact ⟨each k v (.inl ⟨rfl, rfl⟩), fun l w hw => each l w (.inr hw)⟩

theorem sameItems_iff {vs ws : List Json} : SameItems vs ws ↔ List.Forall₂ Same vs ws := by
  induction vs generalizing ws with
  | nil => cases ws <;> simp [SameItems]
  | cons v vs ih => cases ws <;> simp [SameItems, ih]

theorem sameMembers_iff {ms ns : List (String × Json)} :
    SameMembers ms ns ↔ ∀ k v, (k, v) ∈ ms → ∃ w, (k, w) ∈ ns ∧ Same v w := by
  induction ms with
  | nil => simp [SameMembers]
  | cons m ms ih =>
    obtain ⟨k, v⟩ := m
    simp only [SameMembers, ih, List.mem_cons, Prod.mk.injEq]
    constructor
    · rintro ⟨hv, rest⟩ l w (⟨rfl, rfl⟩ | hw)
      · exact hv
      · exact rest l w hw
    · intro each
      exact ⟨each k v (.inl ⟨rfl, rfl⟩), fun l w hw => each l w (.inr hw)⟩

instance : Std.Total keyLE := ⟨fun p q => le_total p.1 q.1⟩
instance : IsTrans (String × Json) keyLE := ⟨fun _ _ _ h h' => le_trans h h'⟩

theorem same_of_sortObjects_eq {v w : Json} (h : sortObjects v = sortObjects w) : Same v w := by
  induction v using Json.induction generalizing w with
  | null => cases w <;> simp_all [sortObjects, Same]
  | bool b => cases w <;> simp_all [sortObjects, Same]
  | num n => cases w <;> simp_all [sortObjects, Same]
  | str s => cases w <;> simp_all [sortObjects, Same]
  | arr vs each =>
    cases w with
    | arr ws =>
      simp only [sortObjects, sortItems_eq_map, arr.injEq] at h
      rw [Same, sameItems_iff, List.forall₂_iff_get]
      have lengths : vs.length = ws.length := by simpa using congrArg List.length h
      refine ⟨lengths, fun i hi hj => each _ (List.get_mem vs ⟨i, hi⟩) ?_⟩
      have := List.getElem_of_eq h (by simpa using hi)
      simpa using this
    | null | bool b | num n | str s | obj ns => simp [sortObjects] at h
  | obj ms each =>
    cases w with
    | obj ns =>
      simp only [sortObjects, sortMembers_eq_map, obj.injEq] at h
      have perm : (ms.map fun m => (m.1, sortObjects m.2)).Perm
          (ns.map fun m => (m.1, sortObjects m.2)) :=
        (List.perm_insertionSort keyLE _).symm.trans (h ▸ List.perm_insertionSort keyLE _)
      refine ⟨by simpa using perm.length_eq, sameMembers_iff.mpr fun k v hv => ?_⟩
      have mem : (k, sortObjects v) ∈ ns.map fun m => (m.1, sortObjects m.2) :=
        perm.subset (List.mem_map.mpr ⟨(k, v), hv, rfl⟩)
      obtain ⟨⟨l, w⟩, hw, found⟩ := List.mem_map.mp mem
      obtain ⟨rfl, sorted⟩ := Prod.mk.inj found
      exact ⟨w, hw, each _ v hv sorted.symm⟩
    | null | bool b | num n | str s | arr ws => simp [sortObjects] at h

/-- Two key-sorted lists with the same members are one list when no key repeats. -/
theorem insertionSort_eq_of_perm {ms ns : List (String × Json)} (perm : ms.Perm ns)
    (keys : (ms.map Prod.fst).Nodup) : ms.insertionSort keyLE = ns.insertionSort keyLE := by
  have perms : (ms.insertionSort keyLE).Perm (ns.insertionSort keyLE) :=
    (List.perm_insertionSort keyLE ms).trans (perm.trans (List.perm_insertionSort keyLE ns).symm)
  refine perms.eq_of_pairwise ?_ (List.pairwise_insertionSort keyLE ms)
    (List.pairwise_insertionSort keyLE ns)
  intro p q hp hq hpq hqp
  have pmem : p ∈ ms := (List.mem_insertionSort keyLE).mp hp
  have qmem : q ∈ ms := perm.mem_iff.mpr ((List.mem_insertionSort keyLE).mp hq)
  exact List.inj_on_of_nodup_map keys pmem qmem (le_antisymm hpq hqp)

theorem sortObjects_eq_of_same {v w : Json} (unique : UniqueKeys v) (h : Same v w) :
    sortObjects v = sortObjects w := by
  induction v using Json.induction generalizing w with
  | null => simp_all [Same]
  | bool b => simp_all [Same]
  | num n => simp_all [Same]
  | str s => simp_all [Same]
  | arr vs each =>
    cases w with
    | arr ws =>
      rw [Same, sameItems_iff] at h
      rw [UniqueKeys, itemsUnique_iff] at unique
      simp only [sortObjects, sortItems_eq_map, arr.injEq]
      induction h with
      | nil => rfl
      | @cons v w vs ws hvw rest ih =>
        rw [List.map_cons, List.map_cons, each v (by simp) (unique v (by simp)) hvw,
          ih (fun u hu => each u (by simp [hu])) (fun u hu => unique u (by simp [hu]))]
    | null | bool b | num n | str s | obj ns => simp [Same] at h
  | obj ms each =>
    cases w with
    | obj ns =>
      rw [Same, sameMembers_iff] at h
      rw [UniqueKeys, membersUnique_iff] at unique
      obtain ⟨lengths, members⟩ := h
      obtain ⟨keys, values⟩ := unique
      simp only [sortObjects, sortMembers_eq_map, obj.injEq]
      have sortedKeys : ((ms.map fun m => (m.1, sortObjects m.2)).map Prod.fst).Nodup := by
        simpa [Function.comp_def] using keys
      refine insertionSort_eq_of_perm ?_ sortedKeys
      refine (List.subperm_of_subset sortedKeys.of_map ?_).perm_of_length_le (by simp [lengths])
      rintro p hp
      obtain ⟨⟨k, v⟩, hv, rfl⟩ := List.mem_map.mp hp
      obtain ⟨w, hw, same⟩ := members k v hv
      exact List.mem_map.mpr ⟨(k, w), hw, by rw [each k v hv (values k v hv) same]⟩
    | null | bool b | num n | str s | arr ws => simp [Same] at h

theorem canonical_eq_iff {v w : Json} (unique : UniqueKeys v) :
    (sortObjects v).text = (sortObjects w).text ↔ Same v w :=
  ⟨fun h => same_of_sortObjects_eq (text_injective h),
    fun h => congrArg text (sortObjects_eq_of_same unique h)⟩

theorem same_sortObjects (v : Json) : Same v (sortObjects v) := by
  induction v using Json.induction with
  | null | bool b | num n | str s => rfl
  | arr vs ih =>
    rw [sortObjects, Same, sameItems_iff, sortItems_eq_map, List.forall₂_map_right_iff,
      List.forall₂_same]
    exact ih
  | obj ms ih =>
    rw [sortObjects, Same, sameMembers_iff, sortMembers_eq_map]
    refine ⟨by rw [List.length_insertionSort, List.length_map], fun k v hv => ?_⟩
    refine ⟨sortObjects v, ?_, ih k v hv⟩
    rw [List.mem_insertionSort, List.mem_map]
    exact ⟨(k, v), hv, rfl⟩

theorem uniqueKeys_sortObjects {v : Json} (h : UniqueKeys v) : UniqueKeys (sortObjects v) := by
  induction v using Json.induction with
  | null | bool b | num n | str s => trivial
  | arr vs ih =>
    rw [UniqueKeys, itemsUnique_iff] at h
    rw [sortObjects, UniqueKeys, itemsUnique_iff, sortItems_eq_map]
    intro w hw
    obtain ⟨v, hv, rfl⟩ := List.mem_map.mp hw
    exact ih v hv (h v hv)
  | obj ms ih =>
    rw [UniqueKeys, membersUnique_iff] at h
    rw [sortObjects, UniqueKeys, membersUnique_iff, sortMembers_eq_map]
    constructor
    · have perm := (List.perm_insertionSort keyLE
        (ms.map fun m => (m.1, sortObjects m.2))).map Prod.fst
      rw [List.map_map] at perm
      exact perm.nodup_iff.mpr h.1
    · intro k w hw
      rw [List.mem_insertionSort] at hw
      obtain ⟨⟨l, v⟩, hv, he⟩ := List.mem_map.mp hw
      cases he
      exact ih l v hv (h.2 l v hv)

/- Members of objects that agree. -/

theorem Same.member {ms ns : List (String × Json)} (h : Same (.obj ms) (.obj ns))
    {k : String} {v : Json} (hv : (k, v) ∈ ms) : ∃ w, (k, w) ∈ ns ∧ Same v w := by
  rw [Same, sameMembers_iff] at h
  exact h.2 k v hv

theorem Same.member_back {ms ns : List (String × Json)} (h : Same (.obj ms) (.obj ns))
    (keys : (ms.map Prod.fst).Nodup) (keys' : (ns.map Prod.fst).Nodup)
    {k : String} {w : Json} (hw : (k, w) ∈ ns) : ∃ v, (k, v) ∈ ms ∧ Same v w := by
  have names : ms.map Prod.fst ⊆ ns.map Prod.fst := by
    intro l hl
    obtain ⟨⟨l, v⟩, hv, rfl⟩ := List.mem_map.mp hl
    obtain ⟨u, hu, -⟩ := h.member hv
    exact List.mem_map.mpr ⟨(l, u), hu, rfl⟩
  have lengths : ms.length = ns.length := by
    rw [Same] at h
    exact h.1
  have perm := (List.subperm_of_subset keys names).perm_of_length_le (by simp [lengths])
  have known : k ∈ ms.map Prod.fst := perm.mem_iff.mpr (List.mem_map.mpr ⟨(k, w), hw, rfl⟩)
  obtain ⟨⟨k, v⟩, hv, rfl⟩ := List.mem_map.mp known
  obtain ⟨u, hu, same⟩ := h.member hv
  have : u = w := (Prod.mk.inj (List.inj_on_of_nodup_map keys' hu hw rfl)).2
  exact ⟨v, hv, this ▸ same⟩

/- Sizes. -/

@[simp] theorem utf8Len_append (a b : List Char) : utf8Len (a ++ b) = utf8Len a + utf8Len b := by
  simp [utf8Len]

@[simp] theorem utf8Len_cons (c : Char) (a : List Char) :
    utf8Len (c :: a) = c.utf8Size + utf8Len a := by
  simp [utf8Len]

@[simp] theorem utf8Len_nil : utf8Len [] = 0 := rfl

def memberSize (m : String × Json) : Nat :=
  utf8Len (quote m.1) + size m.2 + 2

theorem utf8Len_itemsText (vs : List Json) :
    utf8Len (itemsText vs) = 1 + (vs.map fun v => size v + 1).sum := by
  induction vs with
  | nil => decide
  | cons v vs ih =>
    have comma : ','.utf8Size = 1 := by decide
    simp only [itemsText, utf8Len_append, utf8Len_cons, ih, comma, List.map_cons, List.sum_cons,
      size]
    omega

theorem utf8Len_membersText (ms : List (String × Json)) :
    utf8Len (membersText ms) = 1 + (ms.map memberSize).sum := by
  induction ms with
  | nil => decide
  | cons m ms ih =>
    obtain ⟨k, v⟩ := m
    have comma : ','.utf8Size = 1 := by decide
    have colon : ':'.utf8Size = 1 := by decide
    simp only [membersText, utf8Len_append, utf8Len_cons, ih, comma, colon, List.map_cons,
      List.sum_cons, memberSize, size]
    omega

theorem size_arr (v : Json) (vs : List Json) :
    size (.arr (v :: vs)) = 1 + ((v :: vs).map fun v => size v + 1).sum := by
  have bracket : '['.utf8Size = 1 := by decide
  simp only [size, text, utf8Len_append, utf8Len_cons, utf8Len_itemsText, bracket,
    List.map_cons, List.sum_cons]
  omega

theorem size_obj (m : String × Json) (ms : List (String × Json)) :
    size (.obj (m :: ms)) = 1 + ((m :: ms).map memberSize).sum := by
  obtain ⟨k, v⟩ := m
  have brace : '{'.utf8Size = 1 := by decide
  have colon : ':'.utf8Size = 1 := by decide
  simp only [size, text, utf8Len_append, utf8Len_cons, utf8Len_membersText, brace, colon,
    List.map_cons, List.sum_cons, memberSize]
  omega

theorem size_obj_eq_of_perm {ms ns : List (String × Json)} (perm : ms.Perm ns) :
    size (.obj ms) = size (.obj ns) := by
  match ms, ns with
  | [], [] => rfl
  | [], n :: ns => exact absurd perm.symm.eq_nil (by simp)
  | m :: ms, [] => exact absurd perm.eq_nil (by simp)
  | m :: ms, n :: ns => rw [size_obj, size_obj, (perm.map memberSize).sum_eq]

theorem size_sortObjects (v : Json) : size (sortObjects v) = size v := by
  induction v using Json.induction with
  | null | bool b | num n | str s => simp [sortObjects]
  | arr vs each =>
    simp only [sortObjects, sortItems_eq_map]
    match vs, each with
    | [], _ => rfl
    | v :: vs, each =>
      rw [List.map_cons, size_arr, size_arr, ← List.map_cons, List.map_map]
      congr 2
      exact List.map_congr_left fun u hu => by simp [each u hu]
  | obj ms each =>
    simp only [sortObjects, sortMembers_eq_map]
    rw [size_obj_eq_of_perm (List.perm_insertionSort keyLE _)]
    match ms, each with
    | [], _ => rfl
    | m :: ms, each =>
      have members : ((m :: ms).map fun m => (m.1, sortObjects m.2)).map memberSize =
          (m :: ms).map memberSize := by
        rw [List.map_map]
        exact List.map_congr_left fun u hu => by simp [memberSize, each u.1 u.2 hu]
      rw [List.map_cons, size_obj, size_obj]
      exact congrArg (fun sizes => 1 + sizes.sum) members

theorem Same.size_eq {v w : Json} (unique : UniqueKeys v) (h : Same v w) : size v = size w := by
  rw [← size_sortObjects v, ← size_sortObjects w, sortObjects_eq_of_same unique h]

/- Nesting and node counts. -/

theorem itemsDepth_le {vs : List Json} {n : Nat} :
    itemsDepth vs ≤ n ↔ ∀ v ∈ vs, depth v ≤ n := by
  induction vs with
  | nil => simp [itemsDepth]
  | cons v vs ih => simp [itemsDepth, ih]

theorem membersDepth_eq_items (ms : List (String × Json)) :
    membersDepth ms = itemsDepth (ms.map Prod.snd) := by
  induction ms with
  | nil => rfl
  | cons m ms ih => simp [membersDepth, itemsDepth, ih]

theorem itemsNodes_eq_sum (vs : List Json) : itemsNodes vs = (vs.map nodes).sum := by
  induction vs with
  | nil => rfl
  | cons v vs ih => simp [itemsNodes, ih]

theorem membersNodes_eq_items (ms : List (String × Json)) :
    membersNodes ms = itemsNodes (ms.map Prod.snd) := by
  induction ms with
  | nil => rfl
  | cons m ms ih => simp [membersNodes, itemsNodes, ih]

theorem depth_sortObjects (v : Json) : depth (sortObjects v) = depth v := by
  induction v using Json.induction with
  | null | bool b | num n | str s => rfl
  | arr vs each =>
    rw [sortObjects, sortItems_eq_map, depth, depth]
    refine congrArg (1 + ·) (eq_of_forall_ge_iff fun n => ?_)
    rw [itemsDepth_le, itemsDepth_le, List.forall_mem_map]
    exact forall₂_congr fun v hv => by rw [each v hv]
  | obj ms each =>
    rw [sortObjects, sortMembers_eq_map, depth, depth]
    refine congrArg (1 + ·) (eq_of_forall_ge_iff fun n => ?_)
    simp only [membersDepth_eq_items, itemsDepth_le, List.forall_mem_map,
      List.mem_insertionSort]
    exact forall₂_congr fun m hm => by rw [each m.1 m.2 hm]

theorem nodes_sortObjects (v : Json) : nodes (sortObjects v) = nodes v := by
  induction v using Json.induction with
  | null | bool b | num n | str s => rfl
  | arr vs each =>
    rw [sortObjects, sortItems_eq_map, nodes, nodes, itemsNodes_eq_sum, itemsNodes_eq_sum,
      List.map_map]
    exact congrArg (fun counts => 1 + counts.sum) (List.map_congr_left fun v hv => each v hv)
  | obj ms each =>
    rw [sortObjects, sortMembers_eq_map, nodes, nodes, membersNodes_eq_items,
      membersNodes_eq_items, itemsNodes_eq_sum, itemsNodes_eq_sum, List.map_map, List.map_map,
      ((List.perm_insertionSort keyLE _).map _).sum_eq, List.map_map]
    have members : ∀ m ∈ ms, nodes (sortObjects m.2) = nodes m.2 := fun m hm => each m.1 m.2 hm
    exact congrArg (fun counts => 1 + counts.sum) (List.map_congr_left members)

theorem Same.depth_eq {v w : Json} (unique : UniqueKeys v) (h : Same v w) :
    depth v = depth w := by
  rw [← depth_sortObjects v, ← depth_sortObjects w, sortObjects_eq_of_same unique h]

theorem Same.nodes_eq {v w : Json} (unique : UniqueKeys v) (h : Same v w) :
    nodes v = nodes w := by
  rw [← nodes_sortObjects v, ← nodes_sortObjects w, sortObjects_eq_of_same unique h]

end Json
end Kit
