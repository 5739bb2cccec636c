import Ledgence.Delivery.Fairness
import Mathlib.Algebra.Order.Field.Rat
import Mathlib.Algebra.BigOperators.Fin
import Mathlib.Algebra.Order.BigOperators.Group.Finset
import Mathlib.Algebra.Order.Field.Basic

/-! Strides with sliding numerators keep the exact schedule of service per weight. -/
open Kit Kit.Checked Kit.Passes

namespace Ledgence.Stride
variable {count : Nat} {s t : Stride count} {weights : Weights count} {i selected : Fin count}

/-- The route that the exact schedule serves next: the first of the least service per weight. -/
def Due (weights : Weights count) (services : Fin count → Nat) (i : Fin count) : Prop :=
  weights i ≠ 0 ∧ ∀ j, weights j ≠ 0 →
    (services i / (weights i).toNat : ℚ) ≤ services j / (weights j).toNat ∧
    (j < i → (services i / (weights i).toNat : ℚ) < services j / (weights j).toNat)

/-- The routes that `n` calls select, in order. -/
def issues (s : Stride count) (weights : Weights count) : Nat → Option (List (Fin count) × Stride count)
  | 0 => some ([], s)
  | n + 1 => do
    let (routes, s) ← s.issues weights n
    let (selected, s) ← s.issue weights
    return (routes ++ [selected], s)

structure Exact (s : Stride count) (weights : Weights count) (selected : Fin count)
    (t : Stride count) (ticks : Nat) : Prop where
  added : s.numerator selected + quantum < 2 ^ 64
  crossed : ∀ i j, s.numerator i * s.weight j < 2 ^ 128
  passed : ∀ i, weights i ≠ 0 → ticks * s.weight i ≤ s.served selected i
  fits : ∀ i, weights i ≠ 0 → ticks * s.weight i < 2 ^ 64
  slid : ∀ i, t.numerator i = s.served selected i - ticks * s.weight i

theorem issue_eq_some : s.issue weights = some (selected, t) ↔ ∃ ticks,
    s.lowest weights = some selected ∧
    ((activeRoutes weights).map fun i => s.served selected i / s.weight i).min? = some ticks ∧
    t = { s with
      numerator := fun i => s.served selected i - saturatingMul u64Max ticks (s.weight i) } := by
  simp only [issue, Option.bind_eq_bind, Option.bind_eq_some_iff, Option.pure_def,
    Option.some.injEq, Prod.mk.injEq]
  constructor
  · rintro ⟨_, low, ticks, least, rfl, rfl⟩
    exact ⟨ticks, low, least, rfl⟩
  · rintro ⟨ticks, low, least, rfl⟩
    exact ⟨_, low, ticks, least, rfl, rfl⟩

theorem Bounded.exact (bounded : s.Bounded) (issued : s.issue weights = some (selected, t)) :
    ∃ ticks, s.Exact weights selected t ticks := by
  obtain ⟨ticks, low, least, rfl⟩ := issue_eq_some.mp issued
  obtain ⟨serving, -⟩ := lowest_spec bounded.weight_pos low
  obtain ⟨ticks', least', reached, -⟩ :=
    exists_ticks (s.served selected) bounded.weight_pos serving
  obtain rfl : ticks = ticks' := by simpa [least] using least'
  have wide : 3 * quantum < 2 ^ 64 := by decide
  refine ⟨ticks, ?_, fun i j => ?_, reached, fun i active => ?_, fun i => ?_⟩
  · have := bounded.small selected
    omega
  · calc s.numerator i * s.weight j ≤ 2 * quantum * quantum :=
          Nat.mul_le_mul (bounded.small i) (s.weight_le j)
      _ < 2 ^ 128 := by decide
  · have below := bounded.served_le selected i
    have := reached i active
    have narrow : u64Max < 2 ^ 64 := by decide
    omega
  · have := bounded.served_le selected i
    show s.served selected i - saturatingMul u64Max ticks (s.weight i) = _
    simp only [saturatingMul]
    omega

theorem lowest_first (positive : ∀ i, 0 < s.weight i) (low : s.lowest weights = some selected)
    {j : Fin count} (active : weights j ≠ 0) (earlier : j < selected) :
    s.numerator selected * s.weight j < s.numerator j * s.weight selected := by
  have total : ∀ a b : Fin count, True → True → s.passLe a b = true ∨ s.passLe b a = true := by
    intro a b _ _
    simpa [passLe] using Nat.le_total _ _
  have trans : ∀ a b c : Fin count, True → True → True → s.passLe a b = true →
      s.passLe b c = true → s.passLe a c = true := by
    intro a b c _ _ _ ab bc
    simp only [passLe, decide_eq_true_eq] at ab bc ⊢
    exact lowest_trans (positive b) ab bc
  obtain ⟨before, after, split, above⟩ := Least.minBy_first total trans (fun _ _ => trivial) low
  have mem : j ∈ before ++ selected :: after := split ▸ mem_activeRoutes.mpr active
  have sorted : (activeRoutes weights).Pairwise (· < ·) :=
    (List.pairwise_lt_finRange count).filter _
  rw [split, List.pairwise_append, List.pairwise_cons] at sorted
  obtain ⟨-, ⟨later, -⟩, -⟩ := sorted
  rw [List.mem_append, List.mem_cons] at mem
  obtain mem | rfl | mem := mem
  · simpa [passLe] using above j mem
  · exact absurd earlier (lt_irrefl _)
  · exact absurd earlier (later j mem).not_gt

/- Runs. -/

/-- The active counters stand at the services given, moved back by common whole ticks. -/
structure Keeps (weights : Weights count) (services : Fin count → Nat) (s : Stride count) :
    Prop where
  bounded : s.Bounded
  serving : s.lastActive = weights
  slid : ∃ ticks, ∀ i, weights i ≠ 0 → s.numerator i + ticks * s.weight i = services i * quantum
  idle : ∀ i, weights i = 0 → services i = 0
  fair : Near 1 (fun i => weights i ≠ 0) services fun i => (weights i).toNat

variable {services : Fin count → Nat}

theorem Keeps.weight (keeps : s.Keeps weights services) (active : weights i ≠ 0) :
    s.weight i = (weights i).toNat := by
  have serving : s.Serving i := by
    rw [Serving, keeps.serving]
    exact active
  rw [Stride.weight, keeps.bounded.inForce i serving, keeps.serving]

theorem Keeps.compare (keeps : s.Keeps weights services) {i j : Fin count} (hi : weights i ≠ 0)
    (hj : weights j ≠ 0) : s.numerator i * s.weight j ≤ s.numerator j * s.weight i ↔
      services i * (weights j).toNat ≤ services j * (weights i).toNat := by
  obtain ⟨ticks, slid⟩ := keeps.slid
  have left := congrArg (· * s.weight j) (slid i hi)
  have right := congrArg (· * s.weight i) (slid j hj)
  simp only [Nat.add_mul] at left right
  have common : ticks * s.weight i * s.weight j = ticks * s.weight j * s.weight i :=
    Nat.mul_right_comm _ _ _
  have passes : s.numerator i * s.weight j ≤ s.numerator j * s.weight i ↔
      services i * quantum * s.weight j ≤ services j * quantum * s.weight i := by
    omega
  rw [passes, Nat.mul_right_comm, Nat.mul_right_comm _ quantum,
    Nat.mul_le_mul_right_iff (by decide), keeps.weight hi, keeps.weight hj]

theorem share_le {a b v w : Nat} (hv : 0 < v) (hw : 0 < w) :
    (a / v : ℚ) ≤ b / w ↔ a * w ≤ b * v := by
  rw [div_le_div_iff₀ (by exact_mod_cast hv) (by exact_mod_cast hw)]
  exact_mod_cast Iff.rfl

theorem Keeps.due (keeps : s.Keeps weights services) (low : s.lowest weights = some selected) :
    Due weights services selected := by
  obtain ⟨serving, least⟩ := lowest_spec keeps.bounded.weight_pos low
  have positive := toNat_pos_of_ne_zero serving
  refine ⟨serving, fun j active => ⟨?_, fun earlier => ?_⟩⟩
  · rw [share_le positive (toNat_pos_of_ne_zero active), ← keeps.compare serving active]
    exact least j active
  · rw [← not_le, share_le (toNat_pos_of_ne_zero active) positive, ← keeps.compare active serving,
      not_le]
    exact lowest_first keeps.bounded.weight_pos low active earlier

/-- Every call serves the route that is due, and leaves the stride at the services given. -/
theorem Keeps.issue (keeps : s.Keeps weights services) (active : ∃ i, weights i ≠ 0) :
    ∃ selected t, s.issue weights = some (selected, t) ∧ Due weights services selected ∧
      t.Keeps weights (Function.update services selected (services selected + 1)) := by
  have serving : ∃ i, s.Serving i := by
    simpa only [Serving, keeps.serving] using active
  obtain ⟨selected, t, more, issued, bounded, turn⟩ := keeps.bounded.issue serving
  rw [keeps.serving] at issued
  obtain ⟨-, low, -, -⟩ := issue_eq_some.mp issued
  have due := keeps.due low
  obtain ⟨ticks, slid⟩ := keeps.slid
  refine ⟨selected, t, issued, due, bounded, turn.lastActive.trans keeps.serving, ?_, ?_, ?_⟩
  · refine ⟨ticks + more, fun i hi => ?_⟩
    have serving : s.Serving i := by
      rw [Serving, keeps.serving]
      exact hi
    have paid := turn.paid i serving
    have before := slid i hi
    have same : t.weight i = s.weight i := by rw [Stride.weight, Stride.weight, turn.nominal]
    rw [same, Nat.add_mul]
    by_cases h : i = selected
    · subst h
      rw [Function.update_self, Nat.succ_mul]
      rw [if_pos rfl] at paid
      omega
    · rw [Function.update_of_ne h]
      rw [if_neg h] at paid
      omega
  · intro i idle
    rw [Function.update_of_ne, keeps.idle i idle]
    rintro rfl
    exact due.1 idle
  · refine keeps.fair.serve fun a ha => ?_
    have least := (due.2 a ha).1
    rwa [share_le (toNat_pos_of_ne_zero due.1) (toNat_pos_of_ne_zero ha)] at least

theorem Keeps.of_configure (active : ∃ i, weights i ≠ 0) :
    ((Stride.new count).configure weights).Keeps weights fun _ => 0 := by
  have effective : (Stride.new count).Effective weights := by
    obtain ⟨i, hi⟩ := active
    rintro (idle | same)
    · exact hi (idle i)
    · exact hi (by rw [same, Stride.new])
  have none' : (Stride.new count).lowest (Stride.new count).lastActive = none := by
    by_contra some'
    obtain ⟨first, found⟩ := Option.ne_none_iff_exists'.mp some'
    exact (lowest_spec new_bounded.weight_pos found).1 rfl
  refine ⟨new_bounded.configure weights, by rw [configure_of effective], ⟨0, fun i _ => ?_⟩,
    by simp, Near.of_le (by simp)⟩
  rw [configure_of effective, rebase, none']
  simp [Stride.new]

theorem count_concat (routes : List (Fin count)) (selected : Fin count) :
    (fun i => (routes ++ [selected]).count i) =
      Function.update (fun i => routes.count i) selected (routes.count selected + 1) := by
  funext i
  by_cases h : i = selected
  · simp [h]
  · simp [h, List.count_append, Ne.symm h]

theorem Keeps.issues (active : ∃ i, weights i ≠ 0) (n : Nat) :
    ∃ routes s, ((Stride.new count).configure weights).issues weights n = some (routes, s) ∧
      routes.length = n ∧ s.Keeps weights (fun i => routes.count i) ∧
      ∀ k (hk : k < routes.length), Due weights (fun i => (routes.take k).count i) routes[k] := by
  induction n with
  | zero => exact ⟨[], _, rfl, rfl, by simpa using of_configure active, by simp⟩
  | succ n ih =>
    obtain ⟨routes, s, ran, length, keeps, dues⟩ := ih
    obtain ⟨selected, t, issued, due, kept⟩ := keeps.issue active
    refine ⟨routes ++ [selected], t, by simp [Stride.issues, ran, issued], by simp [length], ?_, ?_⟩
    · rwa [count_concat]
    · intro k hk
      by_cases last : k < routes.length
      · rw [List.take_append_of_le_length last.le, List.getElem_append_left last]
        exact dues k last
      · rw [List.length_append, List.length_singleton] at hk
        obtain rfl : k = routes.length := by omega
        simpa using due

/-- No route is ahead of its share of all services by more than one of its own. -/
theorem Keeps.share {routes : List (Fin count)} (keeps : s.Keeps weights fun i => routes.count i)
    (i : Fin count) :
    routes.count i * totalOf weights ≤ routes.length * (weights i).toNat + totalOf weights := by
  have each : ∀ j, routes.count i * (weights j).toNat ≤
      routes.count j * (weights i).toNat + (weights j).toNat := by
    intro j
    by_cases active : weights j = 0
    · simp [active]
    · simpa using keeps.fair i j active
  have total : totalOf weights = ∑ j, (weights j).toNat := by
    rw [totalOf, Fin.sum_univ_def]
  have services : routes.length = ∑ j, routes.count j := by
    have all : ∀ j ∈ (routes : Multiset (Fin count)), j ∈ Finset.univ := by simp
    simpa using (Multiset.sum_count_eq_card all).symm
  calc routes.count i * totalOf weights = ∑ j, routes.count i * (weights j).toNat := by
        rw [total, Finset.mul_sum]
    _ ≤ ∑ j, (routes.count j * (weights i).toNat + (weights j).toNat) :=
        Finset.sum_le_sum fun j _ => each j
    _ = routes.length * (weights i).toNat + totalOf weights := by
        rw [Finset.sum_add_distrib, ← Finset.sum_mul, ← services, total]

theorem Keeps.apart (keeps : s.Keeps weights services) (i j : Fin count) :
    |(services i * (weights j).toNat - services j * (weights i).toNat : Int)| ≤
      max (weights i).toNat (weights j).toNat := by
  have lead : ∀ i j, services i * (weights j).toNat ≤
      services j * (weights i).toNat + (weights j).toNat := by
    intro i j
    by_cases active : weights j = 0
    · simp [active]
    · simpa using keeps.fair i j active
  have ahead := lead i j
  have behind := lead j i
  rw [abs_le]
  omega

theorem sliding_stride_exact (active : ∃ i, weights i ≠ 0) (n : Nat) :
    ∃ routes s, ((Stride.new count).configure weights).issues weights n = some (routes, s) ∧
      routes.length = n ∧
      (∀ k (hk : k < routes.length), Due weights (fun i => (routes.take k).count i) routes[k]) ∧
      (∃ ticks, ∀ i, weights i ≠ 0 →
        s.numerator i + ticks * (weights i).toNat = routes.count i * quantum) ∧
      (∃ selected t ticks, s.issue weights = some (selected, t) ∧
        s.Exact weights selected t ticks) ∧
      (∀ i, routes.count i * totalOf weights ≤ n * (weights i).toNat + totalOf weights) ∧
      ∀ i j, |(routes.count i * (weights j).toNat - routes.count j * (weights i).toNat : Int)| ≤
        max (weights i).toNat (weights j).toNat := by
  obtain ⟨routes, s, ran, rfl, keeps, dues⟩ := Keeps.issues active n
  obtain ⟨selected, t, issued, -, -⟩ := keeps.issue active
  obtain ⟨ticks, exact⟩ := keeps.bounded.exact issued
  obtain ⟨passed, slid⟩ := keeps.slid
  refine ⟨routes, s, ran, rfl, dues, ⟨passed, fun i hi => ?_⟩, ⟨selected, t, ticks, issued, exact⟩,
    keeps.share, keeps.apart⟩
  rw [← keeps.weight hi]
  exact slid i hi

def sevenToThree : Weights 2 :=
  fun i => if i.val = 0 then 7 else 3

/-- Ten calls at seven to three select the first route exactly seven times. -/
theorem seven_of_ten : ∃ routes s,
    ((Stride.new 2).configure sevenToThree).issues sevenToThree 10 = some (routes, s) ∧
      routes.count 0 = 7 := by
  have active : ∃ i, sevenToThree i ≠ 0 := ⟨0, by decide⟩
  obtain ⟨routes, s, ran, length, -, -, -, -, apart⟩ := sliding_stride_exact active 10
  have both : routes.count 0 + routes.count 1 = routes.length := by
    have all : ∀ j ∈ (routes : Multiset (Fin 2)), j ∈ Finset.univ := by simp
    simpa using Multiset.sum_count_eq_card all
  have lead : |(routes.count 0 * 3 - routes.count 1 * 7 : Int)| ≤ 7 := apart 0 1
  rw [abs_le] at lead
  exact ⟨routes, s, ran, by omega⟩

end Ledgence.Stride
