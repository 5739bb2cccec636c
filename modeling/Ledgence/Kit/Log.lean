import Mathlib.Data.List.Nodup
import Mathlib.Data.List.Range
import Mathlib.Data.List.Infix
import Mathlib.Tactic.Common

/-! Append-only logs: numbered entries, and what a summary of the log that is kept up to date
one entry at a time says about all of its entries. -/
namespace Kit.Log
variable {ε κ ι : Type}

/- Numbers. -/

/-- The entries are numbered without a gap, from `first`. -/
def Numbered (number : ε → Nat) (first : Nat) (log : List ε) : Prop :=
  log.map number = List.range' first log.length

section Numbered
variable {number : ε → Nat} {first : Nat} {log : List ε} {e : ε}

@[simp] theorem numbered_nil : Numbered number first [] := rfl

theorem Numbered.append (h : Numbered number first log) (next : number e = first + log.length) :
    Numbered number first (log ++ [e]) := by
  rw [Numbered, List.map_append, h, List.length_append, List.length_singleton,
    List.range'_concat, List.map_singleton, next, Nat.one_mul]

theorem Numbered.bounds (h : Numbered number first log) (mem : e ∈ log) :
    first ≤ number e ∧ number e < first + log.length := by
  have inside : number e ∈ List.range' first log.length := h ▸ List.mem_map_of_mem mem
  have := List.mem_range'_1.mp inside
  omega

end Numbered

/- Keys that differ. -/

def Differing (key : ε → Option κ) (log : List ε) : Prop :=
  ∃ a ∈ log.filterMap key, ∃ b ∈ log.filterMap key, a ≠ b

def reference (key : ε → Option κ) (log : List ε) : Option κ :=
  (log.filterMap key).head?

section Differing
variable {key : ε → Option κ} {log : List ε} {e : ε} {k r : κ}

@[simp] theorem not_differing_nil : ¬ Differing key [] := by
  simp [Differing]

@[simp] theorem reference_nil : reference key ([] : List ε) = none := rfl

theorem differing_append_none (nothing : key e = none) :
    Differing key (log ++ [e]) ↔ Differing key log := by
  simp [Differing, nothing]

theorem reference_append_none (nothing : key e = none) :
    reference key (log ++ [e]) = reference key log := by
  simp [reference, nothing]

theorem reference_append_first (held : reference key log = none) (given : key e = some k) :
    reference key (log ++ [e]) = some k := by
  have none : log.filterMap key = [] := List.head?_eq_none_iff.mp held
  rw [reference, List.filterMap_append, none]
  simp [given]

theorem reference_append_some (held : reference key log = some r) :
    reference key (log ++ [e]) = some r := by
  rw [reference, List.filterMap_append, List.head?_append, ← reference, held]
  rfl

theorem differing_append_first (held : reference key log = none) (given : key e = some k) :
    ¬ Differing key (log ++ [e]) := by
  have none : log.filterMap key = [] := List.head?_eq_none_iff.mp held
  simp [Differing, none, given]

theorem differing_append_some (held : reference key log = some r) (given : key e = some k) :
    Differing key (log ++ [e]) ↔ Differing key log ∨ r ≠ k := by
  have first : r ∈ log.filterMap key := List.mem_of_head? held
  have keys : (log ++ [e]).filterMap key = log.filterMap key ++ [k] := by simp [given]
  constructor
  · rintro ⟨a, ha, b, hb, differ⟩
    by_cases before : Differing key log
    · exact .inl before
    have all : ∀ c ∈ log.filterMap key, c = r := by
      intro c hc
      by_contra other
      exact before ⟨c, hc, r, first, other⟩
    right
    rintro rfl
    have each : ∀ c ∈ (log ++ [e]).filterMap key, c = r := by
      intro c hc
      rw [keys, List.mem_append, List.mem_singleton] at hc
      exact hc.elim (all c) id
    exact differ ((each a ha).trans (each b hb).symm)
  · rintro (⟨a, ha, b, hb, differ⟩ | differ)
    · exact ⟨a, by simp [keys, ha], b, by simp [keys, hb], differ⟩
    · exact ⟨r, by simp [keys, first], k, by simp [keys], differ⟩

end Differing

/- Chains. -/

/-- Each link names the one before it, and the first one names `previous`. -/
def Chained (id : ε → ι) (pred : ε → Option ι) : Option ι → List ε → Prop
  | _, [] => True
  | previous, e :: log => pred e = previous ∧ Chained id pred (some (id e)) log

section Chained
variable {id : ε → ι} {pred : ε → Option ι} {previous : Option ι} {log : List ε} {e : ε}

theorem Chained.append (h : Chained id pred previous log)
    (next : pred e = (log.getLast?.map id).or previous) :
    Chained id pred previous (log ++ [e]) := by
  induction log generalizing previous with
  | nil => exact ⟨by simpa using next, trivial⟩
  | cons a log ih =>
    refine ⟨h.1, ih h.2 ?_⟩
    rw [next, List.getLast?_cons]
    cases log.getLast? <;> rfl

end Chained

end Kit.Log
