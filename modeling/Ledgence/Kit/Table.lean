import Mathlib.Algebra.Ring.Nat
import Mathlib.Data.List.Nodup
import Mathlib.Algebra.BigOperators.Group.List.Basic

/-! Tables of rows with a key: looking a row up, replacing it, and counting rows of a kind. -/
namespace Kit.Table

variable {α κ : Type} [DecidableEq κ] (key : α → κ)

def find (k : κ) (rows : List α) : Option α :=
  rows.find? fun row => decide (key row = k)

/-- Replace the row that has the key of `row`. -/
def put (row : α) (rows : List α) : List α :=
  rows.map fun r => if key r = key row then row else r

/-- Replace the row that has the key of `row`, or add it. -/
def save (row : α) (rows : List α) : List α :=
  if key row ∈ rows.map key then put key row rows else rows ++ [row]

def Unique (rows : List α) : Prop :=
  (rows.map key).Nodup

variable {key} {k : κ} {row old r : α} {rows : List α}

theorem find_mem (found : find key k rows = some r) : r ∈ rows :=
  List.mem_of_find?_eq_some found

theorem find_key (found : find key k rows = some r) : key r = k := by
  simpa using List.find?_some found

theorem find_of_mem (unique : Unique key rows) (mem : r ∈ rows) : find key (key r) rows = some r := by
  induction rows with
  | nil => simp at mem
  | cons a rows ih =>
    simp only [Unique, List.map_cons, List.nodup_cons] at unique
    obtain rfl | mem := List.mem_cons.mp mem
    · simp [find]
    · have other : key a ≠ key r := fun e => unique.1 (e ▸ List.mem_map_of_mem mem)
      simpa [find, other] using ih unique.2 mem

omit [DecidableEq κ] in
theorem eq_of_key (unique : Unique key rows) {a b : α} (ha : a ∈ rows) (hb : b ∈ rows)
    (same : key a = key b) : a = b :=
  List.inj_on_of_nodup_map unique ha hb same

theorem keys_put : (put key row rows).map key = rows.map key := by
  rw [put, List.map_map]
  refine List.map_congr_left fun r _ => ?_
  by_cases h : key r = key row
  · simp [h]
  · simp [h]

theorem unique_put (unique : Unique key rows) : Unique key (put key row rows) := by
  rw [Unique, keys_put]
  exact unique

theorem length_put : (put key row rows).length = rows.length := by
  simp [put]

theorem mem_put (mem : r ∈ put key row rows) : r = row ∨ r ∈ rows ∧ key r ≠ key row := by
  obtain ⟨a, ha, rfl⟩ := List.mem_map.mp mem
  by_cases h : key a = key row
  · simp [h]
  · simp [h, ha]

theorem mem_put_self (mem : old ∈ rows) (same : key old = key row) : row ∈ put key row rows :=
  List.mem_map.mpr ⟨old, mem, by simp [same]⟩

theorem mem_put_other (mem : r ∈ rows) (other : key r ≠ key row) : r ∈ put key row rows :=
  List.mem_map.mpr ⟨r, mem, by simp [other]⟩

theorem find_put_self (found : find key k rows = some old) (same : key row = k) :
    find key k (put key row rows) = some row := by
  subst same
  induction rows with
  | nil => simp [find] at found
  | cons a rows ih =>
    by_cases h : key a = key row
    · simp [find, put, h]
    · have rest : find key (key row) rows = some old := by simpa [find, h] using found
      simpa [find, put, h] using ih rest

theorem find_put_other (other : key row ≠ k) :
    find key k (put key row rows) = find key k rows := by
  induction rows with
  | nil => rfl
  | cons a rows ih =>
    have head : put key row (a :: rows) =
        (if key a = key row then row else a) :: put key row rows := rfl
    by_cases h : key a = key row
    · have moved : key a ≠ k := h ▸ other
      rw [head, if_pos h]
      simpa [find, other, moved] using ih
    · rw [head, if_neg h]
      by_cases hk : key a = k
      · simp [find, hk]
      · simpa [find, hk] using ih

theorem find_of_key_mem (present : k ∈ rows.map key) : ∃ r, find key k rows = some r := by
  obtain ⟨r, hr, rfl⟩ := List.mem_map.mp present
  exact Option.isSome_iff_exists.mp (List.find?_isSome.mpr ⟨r, hr, by simp⟩)

theorem find_eq_none : find key k rows = none ↔ ∀ r ∈ rows, key r ≠ k := by
  simp [find]

theorem find_append_other (other : key row ≠ k) : find key k (rows ++ [row]) = find key k rows := by
  simp [find, other]

theorem find_append_found (found : find key k rows = some r) :
    find key k (rows ++ [row]) = some r := by
  rw [find, List.find?_append, ← find, found, Option.some_or]

theorem find_save_self : find key (key row) (save key row rows) = some row := by
  by_cases present : key row ∈ rows.map key
  · obtain ⟨old, found⟩ := find_of_key_mem present
    rw [save, if_pos present]
    exact find_put_self found rfl
  · have absent : find key (key row) rows = none :=
      find_eq_none.mpr fun r hr e => present (e ▸ List.mem_map_of_mem hr)
    rw [save, if_neg present, find, List.find?_append, ← find, absent, Option.none_or]
    simp

theorem find_save_other (other : key row ≠ k) :
    find key k (save key row rows) = find key k rows := by
  by_cases present : key row ∈ rows.map key
  · rw [save, if_pos present, find_put_other other]
  · rw [save, if_neg present, find_append_other other]

omit [DecidableEq κ] in
theorem unique_append (unique : Unique key rows) (absent : ∀ r ∈ rows, key r ≠ key row) :
    Unique key (rows ++ [row]) := by
  rw [Unique, List.map_append, List.nodup_append]
  refine ⟨unique, List.nodup_singleton _, ?_⟩
  intro x hx y hy e
  obtain ⟨r, hr, rfl⟩ := List.mem_map.mp hx
  obtain rfl : y = key row := by simpa using hy
  exact absent r hr e

theorem put_of_not_mem (absent : ∀ r ∈ rows, key r ≠ key row) : put key row rows = rows := by
  have same : ∀ r ∈ rows, (if key r = key row then row else r) = id r :=
    fun r hr => if_neg (absent r hr)
  rw [put, List.map_congr_left same, List.map_id]

theorem put_self (unique : Unique key rows) (mem : row ∈ rows) : put key row rows = rows := by
  have same : ∀ r ∈ rows, (if key r = key row then row else r) = id r := by
    intro r hr
    by_cases h : key r = key row
    · rw [if_pos h, eq_of_key unique hr mem h, id]
    · rw [if_neg h, id]
  rw [put, List.map_congr_left same, List.map_id]

/-- A table with one row replaced differs from the old one in that row only. -/
theorem exists_split_put (unique : Unique key rows) (mem : old ∈ rows) (same : key old = key row) :
    ∃ before after, rows = before ++ old :: after ∧ put key row rows = before ++ row :: after := by
  obtain ⟨before, after, rfl⟩ := List.append_of_mem mem
  have apart : (before.map key ++ key old :: after.map key).Nodup := by
    simpa [Unique] using unique
  have head : put key row before = before := put_of_not_mem fun r hr e =>
    List.disjoint_of_nodup_append apart (List.mem_map_of_mem hr) (by simp [e, same])
  have tail : put key row after = after := put_of_not_mem fun r hr e => by
    have notAgain := (List.nodup_cons.mp (List.nodup_append.mp apart).2.1).1
    exact notAgain (same ▸ e ▸ List.mem_map_of_mem hr)
  refine ⟨before, after, rfl, ?_⟩
  have split : put key row (before ++ old :: after) =
      put key row before ++ row :: put key row after := by simp [put, same]
  rw [split, head, tail]

theorem getLast?_put (last : (put key row rows).getLast? = some r) :
    ∃ old, rows.getLast? = some old ∧ (key old = key row ∧ r = row ∨ key old ≠ key row ∧ r = old) := by
  rw [put, List.getLast?_map] at last
  obtain ⟨old, found, rfl⟩ := Option.map_eq_some_iff.mp last
  by_cases h : key old = key row
  · exact ⟨old, found, .inl ⟨h, if_pos h⟩⟩
  · exact ⟨old, found, .inr ⟨h, if_neg h⟩⟩

theorem map_put {β : Type} {f : α → β} (same : ∀ r ∈ rows, key r = key row → f row = f r) :
    (put key row rows).map f = rows.map f := by
  rw [put, List.map_map]
  refine List.map_congr_left fun r hr => ?_
  by_cases h : key r = key row
  · simpa [h] using same r hr h
  · simp [h]

/-- What a replaced row adds to a sum over the table, it adds in place of the old row. -/
theorem sum_put (unique : Unique key rows) (mem : old ∈ rows) (same : key old = key row)
    (weight : α → Nat) :
    ((put key row rows).map weight).sum + weight old = (rows.map weight).sum + weight row := by
  induction rows with
  | nil => simp at mem
  | cons a rows ih =>
    simp only [Unique, List.map_cons, List.nodup_cons] at unique
    by_cases h : key a = key row
    · have absent : ∀ r ∈ rows, key r ≠ key row :=
        fun r hr e => unique.1 (h ▸ e ▸ List.mem_map_of_mem hr)
      obtain rfl | later := List.mem_cons.mp mem
      · have tail : put key row rows = rows := put_of_not_mem absent
        have head : put key row (old :: rows) = row :: put key row rows := by simp [put, h]
        rw [head, tail]
        simp only [List.map_cons, List.sum_cons]
        omega
      · exact absurd same (absent old later)
    · have head : put key row (a :: rows) = a :: put key row rows := by simp [put, h]
      obtain rfl | later := List.mem_cons.mp mem
      · exact absurd same h
      · have := ih unique.2 later
        rw [head]
        simp only [List.map_cons, List.sum_cons]
        omega

theorem sum_erase (unique : Unique key rows) (mem : old ∈ rows) (weight : α → Nat) :
    ((rows.filter fun r => decide (key r ≠ key old)).map weight).sum + weight old =
      (rows.map weight).sum := by
  induction rows with
  | nil => simp at mem
  | cons a rows ih =>
    simp only [Unique, List.map_cons, List.nodup_cons] at unique
    obtain rfl | later := List.mem_cons.mp mem
    · have rest : rows.filter (fun r => decide (key r ≠ key old)) = rows := by
        refine List.filter_eq_self.mpr fun r hr => ?_
        have other : key r ≠ key old := fun same => unique.1 (same ▸ List.mem_map_of_mem hr)
        simpa using other
      rw [List.filter_cons_of_neg (by simp), rest, List.map_cons, List.sum_cons]
      omega
    · have other : key a ≠ key old := fun same => unique.1 (same ▸ List.mem_map_of_mem later)
      have := ih unique.2 later
      rw [List.filter_cons_of_pos (by simpa using other)]
      simp only [List.map_cons, List.sum_cons]
      omega

theorem countP_eq_sum (p : α → Bool) :
    rows.countP p = (rows.map fun r => if p r then 1 else 0).sum := by
  induction rows with
  | nil => rfl
  | cons a rows ih =>
    rw [List.countP_cons, List.map_cons, List.sum_cons, ih]
    omega

theorem countP_put (unique : Unique key rows) (mem : old ∈ rows) (same : key old = key row)
    (p : α → Bool) :
    (put key row rows).countP p + (if p old then 1 else 0) =
      rows.countP p + (if p row then 1 else 0) := by
  rw [countP_eq_sum, countP_eq_sum]
  exact sum_put unique mem same fun r => if p r then 1 else 0

omit [DecidableEq κ] in
theorem unique_filter (unique : Unique key rows) (p : α → Bool) : Unique key (rows.filter p) :=
  (List.filter_sublist.map key).nodup unique

theorem countP_erase (unique : Unique key rows) (mem : old ∈ rows) (p : α → Bool) :
    (rows.filter fun r => decide (key r ≠ key old)).countP p + (if p old then 1 else 0) =
      rows.countP p := by
  induction rows with
  | nil => simp at mem
  | cons a rows ih =>
    simp only [Unique, List.map_cons, List.nodup_cons] at unique
    by_cases h : key a = key old
    · have rest : rows.filter (fun r => decide (key r ≠ key old)) = rows := by
        rw [List.filter_eq_self]
        intro r hr
        have apart : key r ≠ key a := fun e => unique.1 (e ▸ List.mem_map_of_mem hr)
        simpa [h] using apart
      obtain rfl | later := List.mem_cons.mp mem
      · rw [List.filter_cons_of_neg (by simp), rest, List.countP_cons]
      · exact absurd (List.mem_map_of_mem later) (h ▸ unique.1)
    · obtain rfl | later := List.mem_cons.mp mem
      · exact absurd rfl h
      · rw [List.filter_cons_of_pos (by simpa using h), List.countP_cons, List.countP_cons]
        have := ih unique.2 later
        omega

theorem sum_countP {keys : List κ} (nodup : keys.Nodup) (p : α → Bool)
    (known : ∀ r ∈ rows, key r ∈ keys) :
    (keys.map fun k => rows.countP fun r => p r && decide (key r = k)).sum = rows.countP p := by
  induction rows with
  | nil => simp
  | cons a rows ih =>
    have rest := ih fun r hr => known r (by simp [hr])
    have head : (keys.map fun k => if (p a && decide (key a = k)) = true then 1 else 0).sum =
        if p a = true then 1 else 0 := by
      by_cases counts : p a = true
      · have one : (keys.map fun k => if key a = k then 1 else 0).sum = keys.count (key a) := by
          rw [List.count, countP_eq_sum]
          refine congrArg List.sum (List.map_congr_left fun k _ => ?_)
          by_cases h : key a = k
          · simp [h]
          · have apart : k ≠ key a := fun e => h e.symm
            simp [h, apart]
        simp only [counts, Bool.true_and, decide_eq_true_eq, if_true]
        rw [one, List.count_eq_one_of_mem nodup (known a (by simp))]
      · simp [counts]
    simp only [List.countP_cons]
    rw [List.sum_map_add, rest, head]

theorem find_congr {β : Type} {rows' : List α} (g : α → β)
    (same : rows'.map (fun r => (key r, g r)) = rows.map fun r => (key r, g r)) :
    (find key k rows').map g = (find key k rows).map g := by
  induction rows generalizing rows' with
  | nil =>
    have none' : rows' = [] := by simpa using same
    rw [none']
  | cons a rows ih =>
    cases rows' with
    | nil => simp at same
    | cons a' rows' =>
      simp only [List.map_cons, List.cons.injEq, Prod.mk.injEq] at same
      obtain ⟨⟨sameKey, sameValue⟩, rest⟩ := same
      by_cases h : key a = k
      · simp [find, sameKey, h, sameValue]
      · simpa [find, sameKey, h] using ih rest

omit [DecidableEq κ] in
theorem countP_le_one (unique : Unique key rows) {p : α → Bool}
    (one : ∀ r ∈ rows, p r = true → key r = k) : rows.countP p ≤ 1 := by
  induction rows with
  | nil => simp
  | cons a rows ih =>
    simp only [Unique, List.map_cons, List.nodup_cons] at unique
    rw [List.countP_cons]
    by_cases ha : p a = true
    · have none : rows.countP p = 0 := by
        rw [List.countP_eq_zero]
        intro r hr hp
        have same : key r = key a := (one r (by simp [hr]) hp).trans (one a (by simp) ha).symm
        exact unique.1 (same ▸ List.mem_map_of_mem hr)
      simp [none, ha]
    · have := ih unique.2 fun r hr => one r (by simp [hr])
      simpa [ha] using this

end Kit.Table
