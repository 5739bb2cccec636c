import Mathlib.Data.List.Basic
import Mathlib.Data.List.Induction

/-! The elements of a log that are the first to show a value, in their order. -/
namespace Kit

universe u v
variable {α : Type u} {β : Type v} [DecidableEq β]

def firsts (value : α → Option β) (as : List α) : List α :=
  as.foldl (fun found a =>
    if (value a).isSome = true ∧ ∀ b ∈ found, value b ≠ value a then found ++ [a] else found) []

variable {value : α → Option β}

@[simp] theorem firsts_nil : firsts value [] = [] := rfl

theorem firsts_concat (as : List α) (a : α) :
    firsts value (as ++ [a]) =
      if (value a).isSome = true ∧ ∀ b ∈ firsts value as, value b ≠ value a
      then firsts value as ++ [a] else firsts value as := by
  rw [firsts, List.foldl_append]
  rfl

theorem firsts_sublist (as : List α) : (firsts value as).Sublist as := by
  induction as using List.reverseRecOn with
  | nil => exact List.Sublist.refl _
  | append_singleton as a ih =>
    rw [firsts_concat]
    split
    · exact ih.append (List.Sublist.refl _)
    · exact ih.trans (List.sublist_append_left as [a])

theorem mem_of_mem_firsts {as : List α} {a : α} (mem : a ∈ firsts value as) : a ∈ as :=
  (firsts_sublist as).subset mem

theorem isSome_of_mem_firsts {as : List α} {a : α} (mem : a ∈ firsts value as) :
    (value a).isSome = true := by
  induction as using List.reverseRecOn with
  | nil => cases mem
  | append_singleton as b ih =>
    rw [firsts_concat] at mem
    split at mem
    next new =>
      cases List.mem_append.mp mem with
      | inl old => exact ih old
      | inr last =>
        cases List.mem_singleton.mp last
        exact new.1
    next => exact ih mem

theorem exists_firsts {as : List α} {a : α} (mem : a ∈ as) (shows : (value a).isSome = true) :
    ∃ b ∈ firsts value as, value b = value a := by
  induction as using List.reverseRecOn with
  | nil => cases mem
  | append_singleton as c ih =>
    rw [firsts_concat]
    cases List.mem_append.mp mem with
    | inl old =>
      have ⟨b, first, same⟩ := ih old
      split
      · exact ⟨b, List.mem_append_left _ first, same⟩
      · exact ⟨b, first, same⟩
    | inr last =>
      cases List.mem_singleton.mp last
      by_cases new : ∀ b ∈ firsts value as, value b ≠ value a
      · rw [if_pos ⟨shows, new⟩]
        exact ⟨a, by simp, rfl⟩
      · rw [if_neg (new ·.2)]
        simpa using new

theorem firsts_distinct (value : α → Option β) (as : List α) :
    (firsts value as).Pairwise fun a b => value a ≠ value b := by
  induction as using List.reverseRecOn with
  | nil => exact List.Pairwise.nil
  | append_singleton as a ih =>
    rw [firsts_concat]
    split
    next new =>
      rw [List.pairwise_append]
      exact ⟨ih, List.pairwise_singleton _ _, by simpa using new.2⟩
    next => exact ih

theorem firsts_concat_new {as : List α} {a : α} (shows : (value a).isSome = true)
    (new : ∀ b ∈ as, value b ≠ value a) : firsts value (as ++ [a]) = firsts value as ++ [a] := by
  rw [firsts_concat, if_pos ⟨shows, fun b mem => new b (mem_of_mem_firsts mem)⟩]

theorem firsts_concat_old {as : List α} {a b : α} (mem : b ∈ as) (same : value b = value a) :
    firsts value (as ++ [a]) = firsts value as := by
  rw [firsts_concat, if_neg]
  intro ⟨shows, new⟩
  have ⟨c, first, shown⟩ := exists_firsts mem (same ▸ shows)
  exact new c first (shown.trans same)

theorem firsts_concat_none {as : List α} {a : α} (silent : value a = none) :
    firsts value (as ++ [a]) = firsts value as := by
  rw [firsts_concat, if_neg (by simp [silent])]

theorem two_firsts {as : List α} :
    2 ≤ (firsts value as).length ↔
      ∃ a ∈ as, ∃ b ∈ as, (value a).isSome = true ∧ (value b).isSome = true ∧
        value a ≠ value b := by
  constructor
  · intro two
    match found : firsts value as, two with
    | a :: b :: rest, _ =>
      have inA : a ∈ firsts value as := by simp [found]
      have inB : b ∈ firsts value as := by simp [found]
      have distinct := firsts_distinct value as
      rw [found] at distinct
      exact ⟨a, mem_of_mem_firsts inA, b, mem_of_mem_firsts inB, isSome_of_mem_firsts inA,
        isSome_of_mem_firsts inB, (List.pairwise_cons.mp distinct).1 b (by simp)⟩
  · intro ⟨a, inA, b, inB, showsA, showsB, differ⟩
    have ⟨c, firstC, sameC⟩ := exists_firsts inA showsA
    have ⟨d, firstD, sameD⟩ := exists_firsts inB showsB
    by_contra few
    have one : (firsts value as).length = 1 := by
      have := List.length_pos_of_mem firstC
      omega
    have ⟨e, only⟩ := List.length_eq_one_iff.mp one
    rw [only, List.mem_singleton] at firstC firstD
    rw [← sameC, ← sameD, firstC, firstD] at differ
    exact differ rfl

def firstTwo : List α → Option (α × α)
  | a :: b :: _ => some (a, b)
  | [] | [_] => none

theorem firstTwo_eq_some {as : List α} {a b : α} :
    firstTwo as = some (a, b) ↔ ∃ rest, as = a :: b :: rest := by
  match as with
  | [] => simp [firstTwo]
  | [c] => simp [firstTwo]
  | c :: d :: rest => simp [firstTwo]

theorem firstTwo_isSome {as : List α} : (firstTwo as).isSome = true ↔ 2 ≤ as.length := by
  match as with
  | [] => simp [firstTwo]
  | [c] => simp [firstTwo]
  | c :: d :: rest => simp [firstTwo]

theorem take_two {as : List α} {a b : α} (found : firstTwo as = some (a, b)) :
    as.take 2 = [a, b] := by
  have ⟨rest, shape⟩ := firstTwo_eq_some.mp found
  rw [shape]
  rfl

theorem firstTwo_append {as bs : List α} {p : α × α} (found : firstTwo as = some p) :
    firstTwo (as ++ bs) = some p := by
  have ⟨rest, shape⟩ := firstTwo_eq_some.mp found
  rw [shape]
  rfl

/- A log whose elements are numbered in their order. -/
section Numbered
variable {number : α → Nat} {as : List α}

theorem firsts_le (ordered : as.Pairwise fun a b => number a < number b) {a b : α}
    (first : a ∈ firsts value as) (mem : b ∈ as) (same : value b = value a) :
    number a ≤ number b := by
  induction as using List.reverseRecOn with
  | nil => cases mem
  | append_singleton as c ih =>
    rw [List.pairwise_append] at ordered
    have before : ∀ d ∈ as, number d < number c := fun d inside => ordered.2.2 d inside c (by simp)
    rw [firsts_concat] at first
    cases List.mem_append.mp mem with
    | inl old =>
      split at first
      next new =>
        cases List.mem_append.mp first with
        | inl firstOld => exact ih ordered.1 firstOld old
        | inr last =>
          -- The element is new, so no older one shows its value.
          cases List.mem_singleton.mp last
          have ⟨d, firstD, shown⟩ := exists_firsts old (same ▸ new.1)
          exact absurd (shown.trans same) (new.2 d firstD)
      next => exact ih ordered.1 first old
    | inr last =>
      cases List.mem_singleton.mp last
      have inside : a ∈ as ∨ a = b := by
        split at first
        · simpa using (List.mem_append.mp first).imp mem_of_mem_firsts id
        · exact Or.inl (mem_of_mem_firsts first)
      cases inside with
      | inl older => exact Nat.le_of_lt (before a older)
      | inr equal => exact Nat.le_of_eq (congrArg number equal)

theorem firsts_ordered (value : α → Option β)
    (ordered : as.Pairwise fun a b => number a < number b) :
    (firsts value as).Pairwise fun a b => number a < number b :=
  ordered.sublist (firsts_sublist as)

/-- The first element of all shows its value before any other value is shown. -/
theorem head_firsts_le (ordered : as.Pairwise fun a b => number a < number b) {a : α}
    {rest : List α} (found : firsts value as = a :: rest) {b : α} (mem : b ∈ as)
    (shows : (value b).isSome = true) : number a ≤ number b := by
  have ⟨c, first, same⟩ := exists_firsts mem shows
  have early : number c ≤ number b := firsts_le ordered first mem same.symm
  have sorted := firsts_ordered value ordered
  rw [found] at sorted first
  cases List.mem_cons.mp first with
  | inl head => exact head ▸ early
  | inr tail =>
    have := (List.pairwise_cons.mp sorted).1 c tail
    omega

theorem firstTwo_firsts_le (ordered : as.Pairwise fun a b => number a < number b) {a b : α}
    (two : firstTwo (firsts value as) = some (a, b)) {c d : α} (inC : c ∈ as)
    (inD : d ∈ as) (showsC : (value c).isSome = true) (showsD : (value d).isSome = true)
    (differ : value c ≠ value d) (before : number c < number d) :
    number a ≤ number c ∧ number b ≤ number d := by
  have ⟨rest, found⟩ := firstTwo_eq_some.mp two
  refine ⟨head_firsts_le ordered found inC showsC, ?_⟩
  have ⟨c', firstC, sameC⟩ := exists_firsts inC showsC
  have ⟨d', firstD, sameD⟩ := exists_firsts inD showsD
  have earlyC : number c' ≤ number c := firsts_le ordered firstC inC sameC.symm
  have earlyD : number d' ≤ number d := firsts_le ordered firstD inD sameD.symm
  have sorted := firsts_ordered value ordered
  have tail : ∀ e ∈ firsts value as, e = a ∨ number b ≤ number e := by
    rw [found] at sorted
    intro e first
    rw [found, List.mem_cons, List.mem_cons] at first
    simp only [List.pairwise_cons] at sorted
    cases first with
    | inl head => exact Or.inl head
    | inr first =>
      cases first with
      | inl second => exact Or.inr (Nat.le_of_eq (congrArg number second.symm))
      | inr later => exact Or.inr (Nat.le_of_lt (sorted.2.1 e later))
  -- One of the two is not the very first.
  cases tail d' firstD with
  | inr late => omega
  | inl headD =>
    cases tail c' firstC with
    | inr late => omega
    | inl headC => exact absurd (sameC.symm.trans ((headC.trans headD.symm) ▸ sameD)) differ

/-- The first element with a property is the one with the least number. -/
theorem find?_eq_least (ordered : as.Pairwise fun a b => number a < number b) {p : α → Bool}
    {a : α} (mem : a ∈ as) (holds : p a = true)
    (least : ∀ b ∈ as, p b = true → number a ≤ number b) : as.find? p = some a := by
  induction as with
  | nil => cases mem
  | cons b as ih =>
    rw [List.pairwise_cons] at ordered
    cases List.mem_cons.mp mem with
    | inl head => rw [List.find?_cons_of_pos (head ▸ holds), head]
    | inr tail =>
      have late := ordered.1 a tail
      have absent : ¬ p b = true := fun pb => by
        have := least b (by simp) pb
        omega
      rw [List.find?_cons_of_neg absent]
      exact ih ordered.2 tail fun c inside => least c (List.mem_cons_of_mem b inside)

end Numbered
end Kit
