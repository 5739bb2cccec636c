import Mathlib.Order.Basic

/-! The first least element of a list, under a comparison given by a test. -/
namespace Kit.Least

variable {α : Type} (le : α → α → Bool)

def better (a b : α) : α :=
  if le a b then a else b

def minBy : List α → Option α
  | [] => none
  | a :: as => some (as.foldl (better le) a)

variable {le} {a b c : α} {as : List α}

theorem better_eq (a b : α) : better le a b = a ∨ better le a b = b := by
  by_cases h : le a b = true
  · exact .inl (if_pos h)
  · exact .inr (if_neg h)

theorem foldl_better_mem (a : α) (as : List α) : as.foldl (better le) a ∈ a :: as := by
  induction as generalizing a with
  | nil => simp
  | cons b as ih =>
    rw [List.foldl_cons]
    obtain h | h : better le a b = a ∨ better le a b = b := better_eq a b
    · have := ih a
      rw [h]
      simp only [List.mem_cons] at this ⊢
      exact this.imp_right .inr
    · rw [h]
      exact List.mem_cons_of_mem _ (ih b)

theorem minBy_mem (least : minBy le as = some a) : a ∈ as := by
  cases as with
  | nil => simp [minBy] at least
  | cons b as =>
    obtain rfl := Option.some.inj least
    exact foldl_better_mem b as

theorem minBy_isSome (some' : a ∈ as) : ∃ b, minBy le as = some b := by
  cases as with
  | nil => simp at some'
  | cons b as => exact ⟨_, rfl⟩

section Preorder
variable {p : α → Prop} (total : ∀ a b, p a → p b → le a b = true ∨ le b a = true)
  (trans : ∀ a b c, p a → p b → p c → le a b = true → le b c = true → le a c = true)
include total trans

theorem foldl_better_le (ha : p a) (has : ∀ b ∈ as, p b) :
    ∀ b ∈ a :: as, le (as.foldl (better le) a) b = true := by
  induction as generalizing a with
  | nil =>
    intro b hb
    obtain rfl : b = a := by simpa using hb
    simpa using total b b ha ha
  | cons c as ih =>
    have hc : p c := has c (by simp)
    have rest : ∀ b ∈ as, p b := fun b hb => has b (by simp [hb])
    have kept : p (better le a c) := by
      obtain h | h : better le a c = a ∨ better le a c = c := better_eq a c
      · rwa [h]
      · rwa [h]
    have below := ih kept rest
    have first : le (as.foldl (better le) (better le a c)) (better le a c) = true :=
      below _ (by simp)
    have low : p (as.foldl (better le) (better le a c)) := by
      have mem : as.foldl (better le) (better le a c) ∈ better le a c :: as := foldl_better_mem _ as
      obtain h | h := List.mem_cons.mp mem
      · rwa [h]
      · exact rest _ h
    have under : le (better le a c) a = true ∧ le (better le a c) c = true := by
      by_cases h : le a c = true
      · rw [better, if_pos h]
        exact ⟨by simpa using total a a ha ha, h⟩
      · have other := (total a c ha hc).resolve_left h
        rw [better, if_neg h]
        exact ⟨other, by simpa using total c c hc hc⟩
    intro b hb
    rw [List.foldl_cons]
    obtain rfl | hb := List.mem_cons.mp hb
    · exact trans _ _ _ low kept ha first under.1
    obtain rfl | hb := List.mem_cons.mp hb
    · exact trans _ _ _ low kept hc first under.2
    · exact below b (by simp [hb])

theorem minBy_le (has : ∀ b ∈ as, p b) (least : minBy le as = some a) :
    ∀ b ∈ as, le a b = true := by
  cases as with
  | nil => simp [minBy] at least
  | cons c as =>
    obtain rfl := Option.some.inj least
    exact foldl_better_le total trans (has c (by simp)) fun b hb => has b (by simp [hb])

theorem foldl_better_first (ha : p a) (has : ∀ b ∈ as, p b) :
    ∃ before after, a :: as = before ++ as.foldl (better le) a :: after ∧
      ∀ b ∈ before, le b (as.foldl (better le) a) = false := by
  induction as generalizing a with
  | nil => exact ⟨[], [], rfl, by simp⟩
  | cons c as ih =>
    have hc : p c := has c (by simp)
    have rest : ∀ b ∈ as, p b := fun b hb => has b (by simp [hb])
    rw [List.foldl_cons]
    by_cases h : le a c = true
    · rw [better, if_pos h]
      obtain ⟨before, after, split, above⟩ := ih ha rest
      generalize as.foldl (better le) a = r at split above ⊢
      cases before with
      | nil =>
        obtain ⟨same, -⟩ := List.cons.inj split
        exact ⟨[], c :: as, by rw [← same, List.nil_append], by simp⟩
      | cons first before =>
        obtain ⟨rfl, tail⟩ := List.cons.inj split
        have low : p r := rest r (by simp [tail])
        have strict : le c r = false := by
          by_contra below
          have under := trans _ _ _ ha hc low h (by simpa using below)
          simp [above a (by simp)] at under
        refine ⟨a :: c :: before, after, ?_, fun b hb => ?_⟩
        · simp [tail]
        · simp only [List.mem_cons] at hb
          obtain rfl | rfl | hb := hb
          · exact above b (by simp)
          · exact strict
          · exact above b (by simp [hb])
    · rw [better, if_neg h]
      obtain ⟨before, after, split, above⟩ := ih hc rest
      have mem : as.foldl (better le) c ∈ c :: as := foldl_better_mem c as
      have low : p (as.foldl (better le) c) := by
        obtain same | mem := List.mem_cons.mp mem
        · rwa [same]
        · exact rest _ mem
      have strict : le a (as.foldl (better le) c) = false := by
        by_contra below
        have under := foldl_better_le total trans hc rest c (by simp)
        exact h (trans _ _ _ ha low hc (by simpa using below) under)
      refine ⟨a :: before, after, by rw [split, List.cons_append], fun b hb => ?_⟩
      obtain rfl | hb := List.mem_cons.mp hb
      · exact strict
      · exact above b hb

theorem minBy_first (has : ∀ b ∈ as, p b) (least : minBy le as = some a) :
    ∃ before after, as = before ++ a :: after ∧ ∀ b ∈ before, le b a = false := by
  cases as with
  | nil => simp [minBy] at least
  | cons c as =>
    obtain rfl := Option.some.inj least
    exact foldl_better_first total trans (has c (by simp)) fun b hb => has b (by simp [hb])

end Preorder
end Kit.Least
