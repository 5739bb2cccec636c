import Mathlib.Data.List.Rotate
import Mathlib.Data.List.Nodup

/-! Walking in circles over an ordered list: what comes first behind an element, and what a window of
one whole turn holds. -/
namespace Kit.Rotation

variable {α : Type} {lt : α → α → Prop} {l u v w : List α} {c m : α} {k : Nat}

/-- Of an ordered list, a test finds the element below all others that pass it. -/
theorem find_of_least (ordered : l.Pairwise lt) (asymm : ∀ a b, lt a b → ¬ lt b a) {p : α → Bool}
    (mem : m ∈ l) (pass : p m = true) (least : ∀ x ∈ l, p x = true → x = m ∨ lt m x) :
    l.find? p = some m := by
  obtain ⟨before, after, rfl⟩ := List.append_of_mem mem
  rw [List.find?_eq_some_iff_append]
  refine ⟨pass, before, after, rfl, fun x hx => ?_⟩
  rw [Bool.not_eq_true']
  by_contra passes
  have below : lt x m := (List.pairwise_append.mp ordered).2.2 x hx m (by simp)
  obtain rfl | above := least x (by simp [hx]) (by simpa using passes)
  · exact asymm x x below below
  · exact asymm x m below above

/-- The order in which a turn that starts behind some elements comes by: first those not yet passed,
then those passed. -/
def Turn (lt : α → α → Prop) (passed : α → Prop) (a b : α) : Prop :=
  (¬ passed a ∧ passed b) ∨ ((passed a ↔ passed b) ∧ lt a b)

/-- A turn from the successor of `c` on. -/
theorem turn_ordered [BEq α] [LawfulBEq α] (ordered : l.Pairwise lt) (asymm : ∀ a b, lt a b → ¬ lt b a)
    (mem : c ∈ l) {passed : α → Prop} (by' : ∀ x, passed x ↔ x = c ∨ lt x c) :
    (l.rotate (l.idxOf c + 1)).Pairwise (Turn lt passed) := by
  obtain ⟨before, after, rfl, fresh⟩ := List.eq_append_cons_of_mem mem
  have start : (before ++ c :: after).idxOf c + 1 = (before ++ [c]).length := by
    rw [List.idxOf_append_of_notMem fresh, List.idxOf_cons_self, List.length_append]
    rfl
  have split : before ++ c :: after = (before ++ [c]) ++ after := by simp
  rw [start, split, List.rotate_append_length_eq]
  rw [split, List.pairwise_append] at ordered
  obtain ⟨first, second, across⟩ := ordered
  have early : ∀ x ∈ before ++ [c], passed x := by
    intro x hx
    rw [by']
    rcases List.mem_append.mp hx with hx | hx
    · exact .inr ((List.pairwise_append.mp first).2.2 x hx c (by simp))
    · exact .inl (List.mem_singleton.mp hx)
  have late : ∀ x ∈ after, ¬ passed x := by
    intro x hx
    have above : lt c x := across c (by simp) x hx
    rw [by']
    rintro (rfl | below)
    · exact asymm x x above above
    · exact asymm c x above below
  refine List.pairwise_append.mpr ⟨?_, ?_, fun x hx y hy => .inl ⟨late x hx, early y hy⟩⟩
  · exact second.imp_of_mem fun hx hy h => .inr ⟨iff_of_false (late _ hx) (late _ hy), h⟩
  · exact first.imp_of_mem fun hx hy h => .inr ⟨iff_of_true (early _ hx) (early _ hy), h⟩

/- Windows. -/

/-- `w` goes on around the circle from position `k`. -/
def Follows (l : List α) (k : Nat) (w : List α) : Prop :=
  ∀ j < w.length, w[j]? = l[(k + j) % l.length]?

theorem follows_nil : Follows l k [] :=
  fun j h => absurd h (Nat.not_lt_zero j)

theorem Follows.congr {n : Nat} (h : Follows l k w) (same : k % l.length = n % l.length) :
    Follows l n w := by
  intro j hj
  rw [h j hj, Nat.add_mod k, Nat.add_mod n, same]

theorem Follows.append (left : Follows l k u) (right : Follows l (k + u.length) v) :
    Follows l k (u ++ v) := by
  intro j hj
  by_cases early : j < u.length
  · rw [List.getElem?_append_left early, left j early]
  · rw [List.length_append] at hj
    rw [List.getElem?_append_right (by omega), right _ (by omega)]
    congr 2
    omega

theorem follows_prefix (pre : w <+: l.rotate k) : Follows l k w := by
  intro j hj
  have inside : j < l.length := by
    have := pre.length_le
    rw [List.length_rotate] at this
    omega
  have here := List.prefix_iff_getElem?.mp pre j hj
  rw [List.getElem?_rotate inside] at here
  rw [List.getElem?_eq_getElem hj, ← here, Nat.add_comm]

theorem Follows.mem (h : Follows l k w) (mem : m ∈ w) : m ∈ l := by
  obtain ⟨j, hj, rfl⟩ := List.mem_iff_getElem.mp mem
  have here := h j hj
  rw [List.getElem?_eq_getElem hj] at here
  exact List.mem_of_getElem? here.symm

theorem Follows.window {before after : List α} (h : Follows l k (before ++ w ++ after))
    (whole : w.length = l.length) : w = l.rotate (k + before.length) := by
  refine List.ext_getElem? fun j => ?_
  by_cases inside : j < l.length
  · have here := h (before.length + j) (by simp; omega)
    rw [List.append_assoc, List.getElem?_append_right (Nat.le_add_right _ _),
      Nat.add_sub_cancel_left, List.getElem?_append_left (by omega)] at here
    rw [here, List.getElem?_rotate inside]
    congr 2
    omega
  · rw [List.getElem?_eq_none (by omega), List.getElem?_eq_none (by rw [List.length_rotate]; omega)]

end Kit.Rotation
