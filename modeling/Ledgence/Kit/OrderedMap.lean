import Ledgence.Kit.Checked
import Ledgence.Kit.Table
import Mathlib.Data.List.Sort

/-! Maps that are read in the order of their keys. -/
namespace Kit

structure OrderedMap (κ α : Type) [LinearOrder κ] where
  entries : List (κ × α)
  ascending : (entries.map Prod.fst).Pairwise (· < ·)

namespace OrderedMap
variable {κ α : Type} [LinearOrder κ] {m : OrderedMap κ α} {k k' : κ} {a : α} {f : α → α}

def empty : OrderedMap κ α := ⟨[], List.Pairwise.nil⟩

def keys (m : OrderedMap κ α) : List κ := m.entries.map Prod.fst

def find (m : OrderedMap κ α) (k : κ) : Option α :=
  (Table.find Prod.fst k m.entries).map Prod.snd

def erase (m : OrderedMap κ α) (k : κ) : OrderedMap κ α where
  entries := m.entries.filter fun e => e.1 ≠ k
  ascending := m.ascending.sublist (List.filter_sublist.map _)

def modify (m : OrderedMap κ α) (k : κ) (f : α → α) : OrderedMap κ α where
  entries := m.entries.map fun e => if e.1 = k then (e.1, f e.2) else e
  ascending := by
    have same : Prod.fst ∘ (fun e : κ × α => if e.1 = k then (e.1, f e.2) else e) = Prod.fst := by
      funext e
      by_cases h : e.1 = k
      · simp [h]
      · simp [h]
    rw [List.map_map, same]
    exact m.ascending

theorem keys_nodup : m.keys.Nodup :=
  m.ascending.imp fun below => below.ne

theorem orderedInsert_ascending {ks : List κ} (ascending : ks.Pairwise (· < ·)) (absent : k ∉ ks) :
    (ks.orderedInsert (· ≤ ·) k).Pairwise (· < ·) := by
  induction ks with
  | nil => simp
  | cons k' ks ih =>
    have ⟨above, rest⟩ := List.pairwise_cons.mp ascending
    rw [List.orderedInsert_cons]
    split
    · rename_i le
      have below : k < k' := lt_of_le_of_ne le fun same => absent (by simp [same])
      refine List.pairwise_cons.mpr ⟨fun x mem => ?_, ascending⟩
      obtain rfl | later := List.mem_cons.mp mem
      · exact below
      · exact below.trans (above x later)
    · rename_i gt
      refine List.pairwise_cons.mpr ⟨fun x mem => ?_, ih rest fun later => absent (by simp [later])⟩
      obtain rfl | later := (List.mem_orderedInsert _).mp mem
      · exact lt_of_not_ge gt
      · exact above x later

def insert (m : OrderedMap κ α) (k : κ) (a : α) : OrderedMap κ α where
  entries := (m.erase k).entries.orderedInsert (fun e e' => e.1 ≤ e'.1) (k, a)
  ascending := by
    have absent : k ∉ (m.erase k).entries.map Prod.fst := by simp [erase]
    rw [List.map_orderedInsert _ (· ≤ ·) Prod.fst _ _ (fun _ _ => Iff.rfl) fun _ _ => Iff.rfl]
    exact orderedInsert_ascending (m.erase k).ascending absent

@[simp] theorem keys_empty : (empty : OrderedMap κ α).keys = [] := rfl

@[simp] theorem keys_erase : (m.erase k).keys = m.keys.filter fun k' => k' ≠ k := by
  rw [keys, keys, List.filter_map]
  rfl

@[simp] theorem keys_modify : (m.modify k f).keys = m.keys := by
  rw [keys, keys, modify, List.map_map]
  refine List.map_congr_left fun e _ => ?_
  by_cases h : e.1 = k
  · simp [h]
  · simp [h]

theorem perm_insert : (m.insert k a).entries.Perm ((k, a) :: (m.erase k).entries) :=
  List.perm_orderedInsert _ _ _

theorem erase_of_not_mem (absent : k ∉ m.keys) : (m.erase k).entries = m.entries := by
  refine List.filter_eq_self.mpr fun e mem => ?_
  have other : e.1 ≠ k := fun here => absent (here ▸ List.mem_map_of_mem mem)
  simpa using other

theorem keys_insert (absent : k ∉ m.keys) : (m.insert k a).keys.Perm (k :: m.keys) := by
  have inserted : (m.insert k a).entries.Perm ((k, a) :: m.entries) :=
    erase_of_not_mem absent ▸ perm_insert
  exact inserted.map Prod.fst

theorem find_of_mem_keys (mem : k ∈ m.keys) : ∃ a, m.find k = some a := by
  obtain ⟨e, found⟩ := Table.find_of_key_mem mem
  exact ⟨e.2, by rw [find, found, Option.map_some]⟩

theorem find_eq_some : m.find k = some a ↔ (k, a) ∈ m.entries := by
  rw [find, Option.map_eq_some_iff]
  constructor
  · rintro ⟨e, found, rfl⟩
    obtain rfl : e.1 = k := Table.find_key found
    exact Table.find_mem found
  · exact fun mem => ⟨(k, a), Table.find_of_mem keys_nodup mem, rfl⟩

theorem mem_keys_of_find (found : m.find k = some a) : k ∈ m.keys :=
  List.mem_map_of_mem (find_eq_some.mp found)

theorem mem_erase {e : κ × α} : e ∈ (m.erase k).entries ↔ e ∈ m.entries ∧ e.1 ≠ k := by
  simp [erase]

@[simp] theorem mem_keys_insert : k' ∈ (m.insert k a).keys ↔ k' = k ∨ k' ∈ m.keys := by
  have same : (m.insert k a).keys.Perm (k :: (m.erase k).keys) := perm_insert.map Prod.fst
  rw [same.mem_iff, keys_erase, List.mem_cons, List.mem_filter]
  by_cases here : k' = k
  · simp [here]
  · simp [here]

theorem eq_of_perm {m' : OrderedMap κ α} (same : m.entries.Perm m'.entries) : m = m' := by
  have sorted {m : OrderedMap κ α} : m.entries.Pairwise fun e e' => e.1 < e'.1 :=
    List.pairwise_map.mp m.ascending
  have equal : m.entries = m'.entries := same.eq_of_pairwise
    (fun e e' _ _ below above => absurd below (lt_asymm above)) sorted sorted
  cases m with
  | mk entries ascending =>
    cases m' with
    | mk entries' ascending' =>
      obtain rfl : entries = entries' := equal
      rfl

theorem erase_insert : (m.insert k a).erase k = m.erase k := by
  refine eq_of_perm ?_
  have kept : ((m.insert k a).erase k).entries.Perm
      (((k, a) :: (m.erase k).entries).filter fun e => e.1 ≠ k) := perm_insert.filter _
  have twice : (m.erase k).entries.filter (fun e => e.1 ≠ k) = (m.erase k).entries :=
    List.filter_eq_self.mpr fun e mem => by simpa using (mem_erase.mp mem).2
  rwa [List.filter_cons_of_neg (by simp), twice] at kept

theorem erase_head {rest : List (κ × α)} (head : m.entries = (k, a) :: rest) :
    (m.erase k).entries = rest := by
  have above := m.ascending
  rw [head, List.map_cons, List.pairwise_cons] at above
  change m.entries.filter _ = rest
  rw [head, List.filter_cons_of_neg (by simp)]
  refine List.filter_eq_self.mpr fun e mem => ?_
  simpa using (above.1 e.1 (List.mem_map_of_mem mem)).ne'

theorem perm_erase (found : m.find k = some a) :
    m.entries.Perm ((k, a) :: (m.erase k).entries) := by
  have mem := find_eq_some.mp found
  have nodup : m.entries.Nodup := keys_nodup.of_map
  refine (List.perm_ext_iff_of_nodup nodup ?_).mpr fun e => ?_
  · refine List.nodup_cons.mpr ⟨fun inside => (mem_erase.mp inside).2 rfl, ?_⟩
    exact nodup.filter _
  · rw [List.mem_cons, mem_erase]
    constructor
    · intro inside
      by_cases same : e.1 = k
      · have here : m.find k = some e.2 := find_eq_some.mpr (same ▸ inside)
        rw [found] at here
        exact .inl (Prod.ext same (Option.some.inj here).symm)
      · exact .inr ⟨inside, same⟩
    · rintro (rfl | inside)
      · exact mem
      · exact inside.1

def total (f : κ × α → Nat) (m : OrderedMap κ α) : Nat :=
  (m.entries.map f).sum

theorem total_erase (f : κ × α → Nat) (found : m.find k = some a) :
    m.total f = f (k, a) + (m.erase k).total f := by
  rw [total, ((perm_erase found).map f).sum_eq, List.map_cons, List.sum_cons]
  rfl

theorem total_insert (f : κ × α → Nat) :
    (m.insert k a).total f = f (k, a) + (m.erase k).total f := by
  rw [total, (perm_insert.map f).sum_eq, List.map_cons, List.sum_cons]
  rfl

theorem total_insert_new (f : κ × α → Nat) (absent : k ∉ m.keys) :
    (m.insert k a).total f = f (k, a) + m.total f := by
  rw [total_insert, total, erase_of_not_mem absent]
  rfl

theorem total_modify (f : κ × α → Nat) {g : α → α} (same : ∀ e, f (e.1, g e.2) = f e) :
    (m.modify k g).total f = m.total f := by
  rw [total, total, modify, List.map_map]
  congr 1
  refine List.map_congr_left fun e _ => ?_
  by_cases here : e.1 = k
  · rw [Function.comp_apply, if_pos here, same]
  · rw [Function.comp_apply, if_neg here]

theorem find_modify_self : (m.modify k f).find k = (m.find k).map f := by
  obtain ⟨entries, ascending⟩ := m
  simp only [find, modify]
  clear ascending
  induction entries with
  | nil => rfl
  | cons e entries ih =>
    by_cases h : e.1 = k
    · simp [Table.find, h]
    · simpa [Table.find, h] using ih

theorem find_modify_other (apart : k' ≠ k) : (m.modify k f).find k' = m.find k' := by
  obtain ⟨entries, ascending⟩ := m
  simp only [find, modify]
  clear ascending
  induction entries with
  | nil => rfl
  | cons e entries ih =>
    by_cases here : e.1 = k'
    · have other : e.1 ≠ k := fun h => apart (here.symm.trans h)
      simp [Table.find, here, apart]
    · by_cases h : e.1 = k
      · simpa [Table.find, h, here, apart.symm] using ih
      · simpa [Table.find, h, here] using ih

theorem find_erase_other (apart : k' ≠ k) : (m.erase k).find k' = m.find k' := by
  obtain ⟨entries, ascending⟩ := m
  simp only [find, erase]
  clear ascending
  induction entries with
  | nil => rfl
  | cons e entries ih =>
    by_cases h : e.1 = k
    · have other : e.1 ≠ k' := fun here => apart (here.symm.trans h)
      simpa [Table.find, h, apart.symm] using ih
    · by_cases here : e.1 = k'
      · simp [Table.find, here, apart]
      · simpa [Table.find, h, here] using ih

theorem find_insert_self : (m.insert k a).find k = some a := by
  have mem : (k, a) ∈ (m.insert k a).entries := (List.mem_orderedInsert _).mpr (.inl rfl)
  have unique : Table.Unique Prod.fst (m.insert k a).entries := keys_nodup
  rw [find, Table.find_of_mem unique mem, Option.map_some]

theorem find_insert_other (apart : k' ≠ k) : (m.insert k a).find k' = m.find k' := by
  have erased : (m.erase k).find k' = m.find k' := find_erase_other apart
  have unique : Table.Unique Prod.fst (m.insert k a).entries := keys_nodup
  rw [← erased]
  cases found : Table.find Prod.fst k' (m.erase k).entries with
  | none =>
    have absent : Table.find Prod.fst k' (m.insert k a).entries = none := by
      rw [Table.find_eq_none] at found ⊢
      intro e mem
      obtain rfl | old := (List.mem_orderedInsert _).mp mem
      · exact apart.symm
      · exact found e old
    rw [find, find, found, absent]
  | some e =>
    obtain rfl : e.1 = k' := Table.find_key found
    have mem : e ∈ (m.insert k a).entries :=
      (List.mem_orderedInsert _).mpr (.inr (Table.find_mem found))
    rw [find, find, found, Table.find_of_mem unique mem]

/-- `m'` is `m` with each of `as` under its key, where no key has two values. -/
structure Merged (key : α → κ) (m : OrderedMap κ α) (as : List α) (m' : OrderedMap κ α) : Prop where
  kept : ∀ k a, m.find k = some a → m'.find k = some a
  added : ∀ a ∈ as, m'.find (key a) = some a
  only : ∀ k a, m'.find k = some a → m.find k = some a ∨ a ∈ as ∧ key a = k

theorem merged_insert {key : α → κ} (same : ∀ old, m.find (key a) = some old → old = a) :
    Merged key m [a] (m.insert (key a) a) where
  kept := by
    intro k old found
    by_cases here : k = key a
    · subst here
      rw [find_insert_self, same old found]
    · rw [find_insert_other here, found]
  added := by simp [find_insert_self]
  only := by
    intro k b found
    by_cases here : k = key a
    · subst here
      rw [find_insert_self] at found
      obtain rfl := Option.some.inj found
      exact .inr ⟨by simp, rfl⟩
    · rw [find_insert_other here] at found
      exact .inl found

theorem Merged.cons {key : α → κ} {as : List α} {m' m'' : OrderedMap κ α}
    (first : Merged key m [a] m') (rest : Merged key m' as m'') : Merged key m (a :: as) m'' where
  kept := fun k b found => rest.kept k b (first.kept k b found)
  added := by
    intro b mem
    cases List.mem_cons.mp mem with
    | inl here => exact here ▸ rest.kept _ _ (first.added a (by simp))
    | inr later => exact rest.added b later
  only := by
    intro k b found
    cases rest.only k b found with
    | inl here =>
      cases first.only k b here with
      | inl old => exact .inl old
      | inr new => exact .inr ⟨by simp [List.mem_singleton.mp new.1], new.2⟩
    | inr later => exact .inr ⟨by simp [later.1], later.2⟩

/-- Inserting the elements of a list one by one, each under a key without another value. -/
theorem foldlM_merged {ε : Type} {step : OrderedMap κ α → α → Except ε (OrderedMap κ α)}
    {key : α → κ} {as : List α} {m' : OrderedMap κ α}
    (inserts : ∀ m a m', step m a = .ok m' →
      m' = m.insert (key a) a ∧ ∀ old, m.find (key a) = some old → old = a)
    (accepted : as.foldlM step m = .ok m') : Merged key m as m' := by
  induction as generalizing m with
  | nil =>
    obtain rfl : m = m' := by simpa using accepted
    exact ⟨fun _ _ found => found, by simp, fun _ _ found => .inl found⟩
  | cons a as ih =>
    obtain ⟨next, first, rest⟩ := Checked.foldlM_cons_ok.mp accepted
    obtain ⟨rfl, same⟩ := inserts m a next first
    exact (merged_insert same).cons (ih rest)

end OrderedMap
end Kit
