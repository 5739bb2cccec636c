import Mathlib.Tactic.Linarith
import Mathlib.Tactic.Ring
import Mathlib.Logic.Function.Basic

/-! Virtual passes: counter `i` stands at `n i / d i`, and every service adds `q` to the `n` of a
counter whose pass is lowest. All comparisons are of cross products. -/
namespace Kit.Passes

variable {ι : Type} {q : Nat} {active : ι → Prop} {n n' d d' : ι → Nat}

/-- Counter `i` is at most one service ahead of every active counter. -/
def Near (q : Nat) (active : ι → Prop) (n d : ι → Nat) : Prop :=
  ∀ i a, active a → n i * d a ≤ n a * d i + q * d a

/-- The pass of `s` is lowest among the active counters. -/
def Lowest (active : ι → Prop) (n d : ι → Nat) (s : ι) : Prop :=
  ∀ a, active a → n s * d a ≤ n a * d s

theorem Near.of_le (small : ∀ i, n i ≤ q) : Near q active n d := by
  intro i a _
  calc n i * d a ≤ q * d a := Nat.mul_le_mul_right _ (small i)
    _ ≤ n a * d i + q * d a := Nat.le_add_left _ _

theorem lowest_trans {a b c : ι} (positive : 0 < d b) (ab : n a * d b ≤ n b * d a)
    (bc : n b * d c ≤ n c * d b) : n a * d c ≤ n c * d a := by
  refine Nat.le_of_mul_le_mul_right (c := d b) ?_ positive
  calc n a * d c * d b = n a * d b * d c := Nat.mul_right_comm _ _ _
    _ ≤ n b * d a * d c := Nat.mul_le_mul_right _ ab
    _ = n b * d c * d a := Nat.mul_right_comm _ _ _
    _ ≤ n c * d b * d a := Nat.mul_le_mul_right _ bc
    _ = n c * d a * d b := Nat.mul_right_comm _ _ _

theorem Near.le_div (near : Near q active n d) {s : ι} (serving : active s) (positive : 0 < d s)
    (i : ι) : n i ≤ n s * d i / d s + q := by
  have lead : (n i - q) * d s ≤ n s * d i := by
    have := near i s serving
    rw [Nat.sub_mul]
    omega
  have := (Nat.le_div_iff_mul_le positive).mpr lead
  omega

section Serve
variable [DecidableEq ι]

/-- Serving a lowest counter keeps every counter within one service of the others. -/
theorem Near.serve (near : Near q active n d) {s : ι} (low : Lowest active n d s) :
    Near q active (Function.update n s (n s + q)) d := by
  intro i a ha
  have grown : n a ≤ Function.update n s (n s + q) a := by
    by_cases h : a = s
    · simp [h]
    · simp [h]
  have wide : n a * d i ≤ Function.update n s (n s + q) a * d i := Nat.mul_le_mul_right _ grown
  by_cases h : i = s
  · subst h
    rw [Function.update_self, Nat.add_mul]
    have := low a ha
    omega
  · rw [Function.update_of_ne h]
    have := near i a ha
    omega

end Serve

def slide (ticks : Nat) (n d : ι → Nat) : ι → Nat :=
  fun i => n i - ticks * d i

theorem slide_add {ticks : Nat} {i : ι} (reached : ticks * d i ≤ n i) :
    slide ticks n d i + ticks * d i = n i :=
  Nat.sub_add_cancel reached

theorem Near.slid (near : Near q active n d) {ticks : Nat}
    (reached : ∀ a, active a → ticks * d a ≤ n a) : Near q active (slide ticks n d) d := by
  intro i a ha
  have old := near i a ha
  have exact' : slide ticks n d a * d i + ticks * d a * d i = n a * d i := by
    rw [← Nat.add_mul, slide_add (reached a ha)]
  have moved : slide ticks n d i * d a = n i * d a - ticks * d i * d a := Nat.sub_mul _ _ _
  have swap : ticks * d i * d a = ticks * d a * d i := Nat.mul_right_comm _ _ _
  omega

/-- Between two moments at which all counters are near each other, services are shared in the
proportion of the weights, up to one service a counter. `ticks` is what the counters moved back. -/
theorem Near.fair {ticks : Nat} {served : ι → Nat} (positive : 0 < q) (before : Near q active n d)
    (after : Near q active n' d)
    (paid : ∀ i, active i → n' i + ticks * d i = n i + served i * q) {i j : ι} (hi : active i)
    (hj : active j) : served i * d j ≤ served j * d i + (d i + d j) := by
  have first := before j i hi
  have last := after i j hj
  have paidI := congrArg (· * d j) (paid i hi)
  have paidJ := congrArg (· * d i) (paid j hj)
  have swap : ticks * d i * d j = ticks * d j * d i := Nat.mul_right_comm _ _ _
  simp only [Nat.add_mul] at paidI paidJ
  refine Nat.le_of_mul_le_mul_right (c := q) ?_ positive
  have left : served i * d j * q = served i * q * d j := Nat.mul_right_comm _ _ _
  have right : (served j * d i + (d i + d j)) * q = served j * q * d i + (q * d i + q * d j) := by
    ring
  omega

end Kit.Passes
