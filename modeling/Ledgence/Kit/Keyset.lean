import Ledgence.Kit.Checked
import Mathlib.Data.List.Sort

/-! Pages of keys that continue after a position, read from tables that change between the pages. -/
namespace Kit.Keyset

variable {κ : Type} [LinearOrder κ] {position : Option κ} {limit : Nat} {keys : List κ} {k : κ}

def After (position : Option κ) (k : κ) : Prop :=
  ∀ p ∈ position, p < k

instance : Decidable (After position k) :=
  inferInstanceAs (Decidable (∀ p ∈ position, p < k))

def shortlist (position : Option κ) (limit : Nat) (keys : List κ) : List κ :=
  ((keys.filter fun k => After position k).insertionSort (· ≤ ·)).take (limit + 1)

def items (position : Option κ) (limit : Nat) (keys : List κ) : List κ :=
  (shortlist position limit keys).take limit

def next (position : Option κ) (limit : Nat) (keys : List κ) : Option κ :=
  if limit < (shortlist position limit keys).length then (items position limit keys).getLast?
  else none

theorem mem_sorted : k ∈ (keys.filter fun k => After position k).insertionSort (· ≤ ·) ↔
    k ∈ keys ∧ After position k := by
  rw [List.mem_insertionSort, List.mem_filter, decide_eq_true_eq]

theorem sorted_lt (distinct : keys.Nodup) :
    ((keys.filter fun k => After position k).insertionSort (· ≤ ·)).Pairwise (· < ·) := by
  have below := List.pairwise_insertionSort (· ≤ ·) (keys.filter fun k => After position k)
  have apart : ((keys.filter fun k => After position k).insertionSort (· ≤ ·)).Nodup :=
    (List.perm_insertionSort _ _).nodup_iff.mpr (distinct.filter _)
  exact (below.and apart).imp fun h => lt_of_le_of_ne h.1 h.2

theorem items_eq : items position limit keys =
    ((keys.filter fun k => After position k).insertionSort (· ≤ ·)).take limit := by
  rw [items, shortlist, List.take_take, Nat.min_eq_left (Nat.le_succ limit)]

theorem mem_of_mem_items (mem : k ∈ items position limit keys) : k ∈ keys ∧ After position k := by
  rw [items_eq] at mem
  exact mem_sorted.mp (List.mem_of_mem_take mem)

theorem items_lt (distinct : keys.Nodup) : (items position limit keys).Pairwise (· < ·) := by
  rw [items_eq]
  exact (sorted_lt distinct).sublist (List.take_sublist _ _)

theorem mem_items_of_last (last : next position limit keys = none) (some : 0 < limit) (mem : k ∈ keys)
    (after : After position k) : k ∈ items position limit keys := by
  have whole : ((keys.filter fun k => After position k).insertionSort (· ≤ ·)).length ≤ limit := by
    by_contra more
    have long : limit < (shortlist position limit keys).length := by
      rw [shortlist, List.length_take]
      omega
    rw [next, if_pos long, List.getLast?_eq_none_iff, items_eq, List.take_eq_nil_iff] at last
    obtain rfl | empty := last
    · exact absurd some (Nat.lt_irrefl 0)
    · rw [empty] at more
      exact more (Nat.zero_le _)
  rw [items_eq, List.take_of_length_le whole]
  exact mem_sorted.mpr ⟨mem, after⟩

/-- A page with a next one is full, ends at the next position and holds all up to there. -/
theorem next_eq_some {p : κ} (more : next position limit keys = some p) :
    (items position limit keys).getLast? = some p ∧ (items position limit keys).length = limit := by
  by_cases long : limit < (shortlist position limit keys).length
  · rw [next, if_pos long] at more
    refine ⟨more, ?_⟩
    rw [items, List.length_take]
    exact Nat.min_eq_left (Nat.le_of_lt long)
  · rw [next, if_neg long] at more
    cases more

theorem mem_items_of_le {p : κ} (distinct : keys.Nodup) (more : next position limit keys = some p)
    (mem : k ∈ keys) (after : After position k) (within : k ≤ p) : k ∈ items position limit keys := by
  have sorted := mem_sorted.mpr ⟨mem, after⟩
  have split := List.take_append_drop limit
    ((keys.filter fun k => After position k).insertionSort (· ≤ ·))
  rw [← split, List.mem_append, ← items_eq] at sorted
  obtain here | later := sorted
  · exact here
  · have last : p ∈ items position limit keys := List.mem_of_getLast? (next_eq_some more).1
    have order := @sorted_lt _ _ position _ distinct
    rw [← split, List.pairwise_append, ← items_eq] at order
    exact absurd (order.2.2 p last k later) (not_lt.mpr within)

/- Walks. -/

section Walks
variable {ρ ι : Type} {key : ρ → κ} {rows : List ρ}

def select (key : ρ → κ) (position : Option κ) (limit : Nat) (rows : List ρ) : List ρ :=
  ((rows.filter fun r => After position (key r)).insertionSort fun r s => key r ≤ key s).take
    (limit + 1)

theorem map_select : (select key position limit rows).map key =
    shortlist position limit (rows.map key) := by
  rw [select, shortlist, List.map_take, List.filter_map]
  rw [List.map_insertionSort (fun r s => key r ≤ key s) (· ≤ ·)]
  · rfl
  · intro a _ b _
    exact Iff.rfl

theorem length_select : (select key position limit rows).length =
    (shortlist position limit (rows.map key)).length := by
  rw [← map_select, List.length_map]

theorem mem_of_mem_select {r : ρ} (mem : r ∈ select key position limit rows) : r ∈ rows := by
  have inside := List.mem_of_mem_take mem
  rw [List.mem_insertionSort] at inside
  exact List.mem_of_mem_filter inside

theorem nodup_select {identity : ρ → ι} (distinct : (rows.map identity).Nodup) :
    ((select key position limit rows).map identity).Nodup := by
  have sorted := (List.perm_insertionSort (fun r s => key r ≤ key s)
    (rows.filter fun r => After position (key r))).map identity
  have all := sorted.nodup_iff.mpr (distinct.sublist (List.filter_sublist.map identity))
  exact all.sublist ((List.take_sublist _ _).map identity)

structure Visit (κ ρ : Type) where
  rows : List ρ
  items : List ρ
  next : Option κ

def Visit.Reads (key : ρ → κ) (v : Visit κ ρ) (position : Option κ) : Prop :=
  ∃ limit, 0 < limit ∧ v.items = (select key position limit v.rows).take limit ∧
    v.next = Keyset.next position limit (v.rows.map key)

theorem map_items {v : Visit κ ρ} (items : v.items = (select key position limit v.rows).take limit) :
    v.items.map key = Keyset.items position limit (v.rows.map key) := by
  rw [items, List.map_take, map_select, Keyset.items]

theorem Visit.Reads.mem_rows {v : Visit κ ρ} {r : ρ} (reads : v.Reads key position)
    (mem : r ∈ v.items) : r ∈ v.rows := by
  obtain ⟨limit, -, items, -⟩ := reads
  rw [items] at mem
  exact mem_of_mem_select (List.mem_of_mem_take mem)

inductive Walk (key : ρ → κ) : Option κ → List (Visit κ ρ) → Prop
  | start (position : Option κ) : Walk key position []
  | last {position : Option κ} {v : Visit κ ρ} : v.Reads key position → v.next = none →
    Walk key position [v]
  | more {position : Option κ} {v : Visit κ ρ} {p : κ} {vs : List (Visit κ ρ)} :
      v.Reads key position → v.next = some p → Walk key (some p) vs → Walk key position (v :: vs)

variable {vs : List (Visit κ ρ)}

def collected (vs : List (Visit κ ρ)) : List ρ :=
  vs.flatMap Visit.items

theorem after_of_lt {p : κ} (after : After position p) (above : After (some p) k) : After position k :=
  fun q mem => (after q mem).trans (above p rfl)

theorem Walk.mem_rows {r : ρ} (walk : Walk key position vs) (mem : r ∈ collected vs) :
    ∃ v ∈ vs, r ∈ v.rows := by
  induction walk with
  | start position => simp [collected] at mem
  | @last position v reads _ =>
    exact ⟨v, by simp, reads.mem_rows (by simpa [collected] using mem)⟩
  | @more position v p vs reads _ _ ih =>
    rw [collected, List.flatMap_cons, List.mem_append] at mem
    obtain here | later := mem
    · exact ⟨v, by simp, reads.mem_rows here⟩
    · obtain ⟨w, inside, row⟩ := ih later
      exact ⟨w, by simp [inside], row⟩

/-- The pages of a walk are in strictly ascending order, one after the other. -/
theorem Walk.ascending (walk : Walk key position vs) (distinct : ∀ v ∈ vs, (v.rows.map key).Nodup) :
    ((collected vs).map key).Pairwise (· < ·) ∧ ∀ k ∈ (collected vs).map key, After position k := by
  induction walk with
  | start position => exact ⟨List.Pairwise.nil, by simp [collected]⟩
  | @last position v reads ended =>
    obtain ⟨limit, -, items, -⟩ := reads
    have same : (collected [v]).map key = Keyset.items position limit (v.rows.map key) := by
      simpa [collected] using map_items items
    rw [same]
    exact ⟨items_lt (distinct v (by simp)), fun k mem => (mem_of_mem_items mem).2⟩
  | @more position v p vs reads going rest ih =>
    obtain ⟨limit, -, items, next⟩ := reads
    have page : Keyset.next position limit (v.rows.map key) = some p := next.symm.trans going
    have last : p ∈ Keyset.items position limit (v.rows.map key) :=
      List.mem_of_getLast? (next_eq_some page).1
    have first := @items_lt _ _ position limit _ (distinct v (by simp))
    obtain ⟨order, above⟩ := ih fun w mem => distinct w (by simp [mem])
    have same : (collected (v :: vs)).map key =
        Keyset.items position limit (v.rows.map key) ++ (collected vs).map key := by
      simp [collected, ← map_items items]
    have within : ∀ k ∈ Keyset.items position limit (v.rows.map key), k ≤ p := by
      intro k mem
      obtain ⟨before, split⟩ := List.getLast?_eq_some_iff.mp (next_eq_some page).1
      rw [split] at mem first
      obtain earlier | here := List.mem_append.mp mem
      · exact ((List.pairwise_append.mp first).2.2 k earlier p (by simp)).le
      · exact (List.mem_singleton.mp here).le
    rw [same]
    refine ⟨List.pairwise_append.mpr ⟨first, order, fun a mem b mem' => ?_⟩, fun k mem => ?_⟩
    · exact lt_of_le_of_lt (within a mem) (above b mem' p rfl)
    · obtain here | later := List.mem_append.mp mem
      · exact (mem_of_mem_items here).2
      · exact after_of_lt (mem_of_mem_items last).2 (above k later)

/-- A walk that has come to its end has met every key that was there all the time. -/
theorem Walk.complete (walk : Walk key position vs) (distinct : ∀ v ∈ vs, (v.rows.map key).Nodup)
    (ended : ∃ v ∈ vs.getLast?, v.next = none) (after : After position k)
    (always : ∀ v ∈ vs, k ∈ v.rows.map key) : k ∈ (collected vs).map key := by
  induction walk with
  | start position => simp at ended
  | @last position v reads _ =>
    obtain ⟨limit, some, items, next⟩ := reads
    obtain ⟨w, mem, stop⟩ := ended
    obtain rfl : v = w := by simpa using mem
    have here := mem_items_of_last (next.symm.trans stop) some (always v (by simp)) after
    rw [← map_items items] at here
    simpa [collected] using here
  | @more position v p vs reads going rest ih =>
    obtain ⟨limit, -, items, next⟩ := reads
    have page : Keyset.next position limit (v.rows.map key) = some p := next.symm.trans going
    rw [collected, List.flatMap_cons, List.map_append, List.mem_append, map_items items]
    by_cases within : k ≤ p
    · exact .inl (mem_items_of_le (distinct v (by simp)) page (always v (by simp)) after within)
    · refine .inr (ih (fun w mem => distinct w (by simp [mem])) ?_ ?_ fun w mem => always w (by simp [mem]))
      · obtain ⟨w, mem, stop⟩ := ended
        cases vs with
        | nil =>
          obtain rfl : v = w := by simpa using mem
          rw [going] at stop
          cases stop
        | cons u us => exact ⟨w, by simpa using mem, stop⟩
      · intro q mem
        obtain rfl : p = q := by simpa using mem
        exact not_le.mp within

/-- Where an identity keeps its key from page to page, no page repeats it. -/
theorem Walk.distinct {identity : ρ → ι} (walk : Walk key position vs)
    (distinct : ∀ v ∈ vs, (v.rows.map key).Nodup)
    (fixed : ∀ v ∈ vs, ∀ w ∈ vs, ∀ a ∈ v.rows, ∀ b ∈ w.rows, identity a = identity b → key a = key b) :
    ((collected vs).map identity).Nodup := by
  have order := (walk.ascending distinct).1
  rw [List.pairwise_map] at order
  rw [List.Nodup, List.pairwise_map]
  refine order.imp_of_mem fun {a b} ha hb below same => ?_
  obtain ⟨v, hv, inV⟩ := walk.mem_rows ha
  obtain ⟨w, hw, inW⟩ := walk.mem_rows hb
  exact below.ne (fixed v hv w hw a inV b inW same)

/-- An identity that is on every page's rows is met exactly once by a walk to the end. -/
theorem Walk.once [BEq ι] [LawfulBEq ι] {identity : ρ → ι} {i : ι} (walk : Walk key none vs)
    (distinct : ∀ v ∈ vs, (v.rows.map key).Nodup)
    (fixed : ∀ v ∈ vs, ∀ w ∈ vs, ∀ a ∈ v.rows, ∀ b ∈ w.rows, identity a = identity b ↔ key a = key b)
    (ended : ∃ v ∈ vs.getLast?, v.next = none) (always : ∀ v ∈ vs, i ∈ v.rows.map identity) :
    ((collected vs).map identity).count i = 1 := by
  obtain ⟨v, last, -⟩ := id ended
  have mem : v ∈ vs := List.mem_of_getLast? last
  obtain ⟨a, inV, rfl⟩ := List.mem_map.mp (always v mem)
  have keys : ∀ w ∈ vs, key a ∈ w.rows.map key := by
    intro w hw
    obtain ⟨b, inW, same⟩ := List.mem_map.mp (always w hw)
    exact List.mem_map.mpr ⟨b, inW, (fixed w hw v mem b inW a inV).mp same⟩
  have met := walk.complete distinct ended (by simp [After]) keys
  obtain ⟨b, inside, same⟩ := List.mem_map.mp met
  obtain ⟨w, hw, inW⟩ := walk.mem_rows inside
  have nodup := walk.distinct distinct fun v hv w hw a ha b hb =>
    (fixed v hv w hw a ha b hb).mp
  refine List.count_eq_one_of_mem nodup ?_
  exact List.mem_map.mpr ⟨b, inside, (fixed w hw v mem b inW a inV).mpr same⟩

end Walks

/- Checking a page without its table. -/

section Check
open Checked

universe u
variable {α ι : Type} {ε : Type u} [DecidableEq ι] {check : α → Except ε PUnit} {rank : α → κ}
  {identity : α → ι} {fault : ε} {items : List α}

def checkItems (check : α → Except ε PUnit) (rank : α → κ) (identity : α → ι) (fault : ε) :
    Option κ → List ι → List α → Except ε PUnit
  | _, _, [] => .ok ⟨⟩
  | previous, ids, a :: as => do
    check a
    refuse (¬ After previous (rank a) ∨ identity a ∈ ids) fault
    checkItems check rank identity fault (some (rank a)) (identity a :: ids) as

theorem checkItems_eq_ok {ids : List ι} :
    checkItems check rank identity fault position ids items = .ok ⟨⟩ ↔
      (∀ a ∈ items, check a = .ok ⟨⟩) ∧ (∀ a ∈ items, After position (rank a)) ∧
      items.Pairwise (fun a b => rank a < rank b) ∧ (items.map identity).Nodup ∧
      ∀ a ∈ items, identity a ∉ ids := by
  induction items generalizing position ids with
  | nil => simp [checkItems]
  | cons a as ih =>
    simp only [checkItems, bind_eq_ok, exists_unit, refuse_eq_ok, ih, not_or, not_not,
      List.mem_cons, forall_eq_or_imp, List.pairwise_cons, List.map_cons, List.nodup_cons]
    constructor
    · rintro ⟨passed, ⟨behind, fresh⟩, each, chain, sorted, distinct, apart⟩
      refine ⟨⟨passed, each⟩, ⟨behind, fun b mem => after_of_lt behind (chain b mem)⟩,
        ⟨fun b mem => chain b mem _ rfl, sorted⟩, ⟨fun mem => ?_, distinct⟩, fresh,
        fun b mem => (apart b mem).2⟩
      obtain ⟨b, inside, same⟩ := List.mem_map.mp mem
      exact (apart b inside).1 same
    · rintro ⟨⟨passed, each⟩, ⟨behind, -⟩, ⟨first, sorted⟩, ⟨new, distinct⟩, fresh, apart⟩
      refine ⟨passed, ⟨behind, fresh⟩, each, fun b mem p inside => ?_, sorted, distinct,
        fun b mem => ⟨fun same => new (List.mem_map.mpr ⟨b, mem, same⟩), apart b mem⟩⟩
      obtain rfl : rank a = p := Option.some.inj inside
      exact first b mem

variable {ρ : Type} {key : ρ → κ} {idOf : ρ → ι} {decodes : ρ → α → Prop} {rows : List ρ}

theorem map_eq_of_forall₂ {β : Type} {f : ρ → β} {g : α → β} (read : List.Forall₂ decodes rows items)
    (same : ∀ r ∈ rows, ∀ a, decodes r a → g a = f r) : items.map g = rows.map f := by
  induction read with
  | nil => rfl
  | @cons r a rows items first rest ih =>
    rw [List.map_cons, List.map_cons, same r (by simp) a first,
      ih fun r mem => same r (by simp [mem])]

theorem exists_of_mem_forall₂ {a : α} (read : List.Forall₂ decodes rows items) (mem : a ∈ items) :
    ∃ r ∈ rows, decodes r a := by
  induction read with
  | nil => cases mem
  | @cons r b rows items first rest ih =>
    cases mem with
    | head => exact ⟨r, by simp, first⟩
    | tail _ mem =>
      obtain ⟨r', inside, read⟩ := ih mem
      exact ⟨r', by simp [inside], read⟩

/-- What a table gives passes the checks, if each of its rows decodes to an item that does. -/
theorem checkItems_select (keys : (rows.map key).Nodup) (ids : (rows.map idOf).Nodup)
    (read : List.Forall₂ decodes ((select key position limit rows).take limit) items)
    (each : ∀ r ∈ rows, ∀ a, decodes r a →
      check a = .ok ⟨⟩ ∧ rank a = key r ∧ identity a = idOf r) :
    checkItems check rank identity fault position [] items = .ok ⟨⟩ := by
  have inside : ∀ r ∈ (select key position limit rows).take limit, r ∈ rows :=
    fun r mem => mem_of_mem_select (List.mem_of_mem_take mem)
  have places : items.map rank = Keyset.items position limit (rows.map key) := by
    rw [map_eq_of_forall₂ read fun r mem a h => (each r (inside r mem) a h).2.1, List.map_take,
      map_select, Keyset.items]
  have names : items.map identity = ((select key position limit rows).take limit).map idOf :=
    map_eq_of_forall₂ read fun r mem a h => (each r (inside r mem) a h).2.2
  refine checkItems_eq_ok.mpr ⟨fun a mem => ?_, fun a mem => ?_, ?_, ?_, by simp⟩
  · obtain ⟨r, taken, h⟩ := exists_of_mem_forall₂ read mem
    exact (each r (inside r taken) a h).1
  · have here : rank a ∈ items.map rank := List.mem_map_of_mem mem
    rw [places] at here
    exact (mem_of_mem_items here).2
  · rw [← List.pairwise_map, places]
    exact items_lt keys
  · rw [names]
    exact (nodup_select ids).sublist ((List.take_sublist _ _).map idOf)

end Check
end Kit.Keyset

/-! The first rows of several tables, merged from the first rows of each. -/
namespace Kit.Keyset

section Merge
variable {α : Type} {le : α → α → Bool}

/-- The beginning of a merge needs no more than as long a beginning of each list. -/
theorem take_merge (n a b : Nat) (fits : n ≤ a) (fits' : n ≤ b) (xs ys : List α) :
    (List.merge xs ys le).take n = (List.merge (xs.take a) (ys.take b) le).take n := by
  induction n generalizing a b xs ys with
  | zero => simp
  | succ n ih =>
    obtain ⟨a, rfl⟩ := Nat.exists_eq_add_of_lt fits
    obtain ⟨b, rfl⟩ := Nat.exists_eq_add_of_lt fits'
    cases xs with
    | nil =>
      rw [List.take_nil, List.nil_merge, List.nil_merge, List.take_take, Nat.min_eq_left fits']
    | cons x xs =>
      cases ys with
      | nil =>
        rw [List.take_nil, List.merge_right, List.merge_right, List.take_take, Nat.min_eq_left fits]
      | cons y ys =>
        rw [List.take_succ_cons, List.take_succ_cons, List.cons_merge_cons, List.cons_merge_cons]
        split
        · rw [List.take_succ_cons, List.take_succ_cons, ih (n + a) (n + b + 1) (by omega) (by omega),
            List.take_succ_cons]
        · rw [List.take_succ_cons, List.take_succ_cons, ih (n + a + 1) (n + b) (by omega) (by omega),
            List.take_succ_cons]

end Merge

section Select
variable {κ ρ : Type} [LinearOrder κ] {key : ρ → κ} {position : Option κ} {limit : Nat}
  {rows others : List ρ}

theorem insertionSort_merge (distinct : ((rows ++ others).map key).Nodup) :
    (rows ++ others).insertionSort (fun r s => key r ≤ key s) =
      List.merge (rows.insertionSort fun r s => key r ≤ key s)
        (others.insertionSort fun r s => key r ≤ key s) (fun r s => key r ≤ key s) := by
  have perm : ((rows ++ others).insertionSort (fun r s => key r ≤ key s)).Perm
      (List.merge (rows.insertionSort fun r s => key r ≤ key s)
        (others.insertionSort fun r s => key r ≤ key s) (fun r s => key r ≤ key s)) := by
    refine (List.perm_insertionSort _ _).trans ?_
    refine List.Perm.trans ?_ (List.Perm.symm (List.merge_perm_append _))
    exact (List.perm_insertionSort _ _).symm.append (List.perm_insertionSort _ _).symm
  have sorted : (List.merge (rows.insertionSort fun r s => key r ≤ key s)
      (others.insertionSort fun r s => key r ≤ key s) (fun r s => key r ≤ key s)).Pairwise
        fun r s => key r ≤ key s := by
    have merged := @List.pairwise_merge _ (fun r s => decide (key r ≤ key s))
      (by intro a b c; simpa using le_trans) (by intro a b; simpa using le_total (key a) (key b))
      (rows.insertionSort fun r s => key r ≤ key s) (others.insertionSort fun r s => key r ≤ key s)
      (by simpa using List.pairwise_insertionSort (fun r s => key r ≤ key s) rows)
      (by simpa using List.pairwise_insertionSort (fun r s => key r ≤ key s) others)
    simpa using merged
  refine List.Perm.eq_of_pairwise ?_ (List.pairwise_insertionSort _ _) sorted perm
  intro a b mem mem' below above
  rw [List.mem_insertionSort] at mem
  have inside : b ∈ rows ++ others := by
    rw [← List.mem_insertionSort (fun r s => key r ≤ key s)]
    exact perm.mem_iff.mpr mem'
  exact List.inj_on_of_nodup_map distinct mem inside (le_antisymm below above)

/-- The first rows behind a position are among the first ones of every table. -/
theorem select_append (distinct : ((rows ++ others).map key).Nodup) :
    select key position limit (rows ++ others) =
      ((select key position limit rows ++ select key position limit others).insertionSort
        fun r s => key r ≤ key s).take (limit + 1) := by
  have inside : (((rows.filter fun r => After position (key r)) ++
      (others.filter fun r => After position (key r))).map key).Nodup := by
    rw [← List.filter_append]
    exact distinct.sublist (List.filter_sublist.map key)
  have chosen : ((select key position limit rows ++ select key position limit others).map key).Nodup := by
    have all : (((rows.filter fun r => After position (key r)).insertionSort (fun r s => key r ≤ key s) ++
        (others.filter fun r => After position (key r)).insertionSort
          fun r s => key r ≤ key s).map key).Nodup := by
      refine (List.Perm.map key ?_).nodup_iff.mp inside
      exact ((List.perm_insertionSort _ _).append (List.perm_insertionSort _ _)).symm
    exact all.sublist (((List.take_sublist _ _).append (List.take_sublist _ _)).map key)
  have sorted {taken : List ρ} : (select key position limit taken).insertionSort (fun r s => key r ≤ key s) =
      select key position limit taken := by
    refine List.Pairwise.insertionSort_eq ?_
    exact (List.pairwise_insertionSort _ _).sublist (List.take_sublist _ _)
  rw [insertionSort_merge chosen, sorted, sorted]
  conv_lhs => rw [select, List.filter_append, insertionSort_merge inside]
  exact take_merge (limit + 1) (limit + 1) (limit + 1) le_rfl le_rfl _ _

def behind (key : ρ → κ) (position : Option κ) (rows : List ρ) : List ρ :=
  (rows.filter fun r => After position (key r)).insertionSort fun r s => key r ≤ key s

theorem mem_behind {r : ρ} : r ∈ behind key position rows ↔ r ∈ rows ∧ After position (key r) := by
  rw [behind, List.mem_insertionSort, List.mem_filter, decide_eq_true_eq]

theorem behind_lt (distinct : (rows.map key).Nodup) (position : Option κ) :
    (behind key position rows).Pairwise fun r s => key r < key s := by
  have keys := @sorted_lt _ _ position _ distinct
  have same : (behind key position rows).map key =
      ((rows.map key).filter fun k => After position k).insertionSort (· ≤ ·) := by
    rw [behind, List.filter_map, List.map_insertionSort (fun r s => key r ≤ key s) (· ≤ ·)]
    · rfl
    · intro a _ b _
      exact Iff.rfl
  rw [← same, List.pairwise_map] at keys
  exact keys

theorem behind_row {r : ρ} {before after : List ρ} (distinct : (rows.map key).Nodup)
    (split : behind key position rows = before ++ r :: after) : behind key (some (key r)) rows = after := by
  have sorted := behind_lt distinct position
  rw [split, List.pairwise_append, List.pairwise_cons] at sorted
  obtain ⟨-, ⟨above, rest⟩, below⟩ := sorted
  have members : ∀ s, s ∈ behind key (some (key r)) rows ↔ s ∈ after := by
    intro s
    have inside : s ∈ rows ∧ After position (key s) ↔ s ∈ before ++ r :: after := by
      rw [← split, mem_behind]
    have here : After position (key r) := by
      have mem : r ∈ behind key position rows := by simp [split]
      exact (mem_behind.mp mem).2
    rw [mem_behind]
    constructor
    · rintro ⟨known, later⟩
      have greater : key r < key s := later _ rfl
      have listed := inside.mp ⟨known, after_of_lt here later⟩
      cases List.mem_append.mp listed with
      | inl early => exact absurd (below s early r (by simp)) greater.not_gt
      | inr late =>
        cases List.mem_cons.mp late with
        | inl same => exact absurd (same ▸ greater) (lt_irrefl _)
        | inr found => exact found
    · intro found
      have listed := inside.mpr (List.mem_append_right _ (List.mem_cons_of_mem _ found))
      refine ⟨listed.1, fun p same => ?_⟩
      obtain rfl : key r = p := Option.some.inj same
      exact above s found
  refine List.Perm.eq_of_pairwise ?_ (behind_lt distinct _) rest ?_
  · intro a b _ _ less more
    exact absurd less more.not_gt
  · refine (List.perm_ext_iff_of_nodup ?_ ?_).mpr members
    · exact (behind_lt distinct _).imp fun less same => less.ne (congrArg key same)
    · exact rest.imp fun less same => less.ne (congrArg key same)

end Select
end Kit.Keyset
