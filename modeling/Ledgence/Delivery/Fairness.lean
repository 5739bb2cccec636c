import Ledgence.Delivery.PollPlan
import Mathlib.Tactic.Zify

/-! Strides stay bounded and fair, whatever plans are installed between the polls. -/
open Kit Kit.Checked Kit.Passes

namespace Ledgence

theorem toNat_pos_of_ne_zero {w : UInt32} (h : w ≠ 0) : 0 < w.toNat := by
  refine Nat.pos_of_ne_zero fun zero => h ?_
  exact UInt32.toNat_inj.mp zero

section Routes
variable {count : Nat} {weights : Weights count} {i : Fin count}

theorem mem_activeRoutes : i ∈ activeRoutes weights ↔ weights i ≠ 0 := by
  simp [activeRoutes]

theorem totalOf_eq_zero : totalOf weights = 0 ↔ ∀ i, weights i = 0 := by
  simp only [totalOf, List.sum_eq_zero_iff_forall_eq_nat, List.mem_map, List.mem_finRange, true_and,
    forall_exists_index, forall_apply_eq_imp_iff]
  refine forall_congr' fun i => ?_
  exact UInt32.toNat_inj (b := 0)

end Routes

namespace Stride
variable {count : Nat} {s : Stride count} {weights : Weights count}

def Serving (s : Stride count) (i : Fin count) : Prop :=
  s.lastActive i ≠ 0

/-- Served routes run under their own weights, and no numerator is ahead of the lowest pass by
more than one turn. -/
structure Bounded (s : Stride count) : Prop where
  nominal : ∀ i, s.nominal i ≠ 0
  inForce : ∀ i, s.Serving i → s.nominal i = s.lastActive i
  unserved : (∀ i, s.lastActive i = 0) → ∀ i, s.numerator i = 0
  near : Near quantum s.Serving s.numerator s.weight
  small : ∀ i, s.numerator i ≤ 2 * quantum

theorem Bounded.weight_pos (bounded : s.Bounded) (i : Fin count) : 0 < s.weight i :=
  toNat_pos_of_ne_zero (bounded.nominal i)

theorem weight_le (s : Stride count) (i : Fin count) : s.weight i ≤ quantum :=
  (s.nominal i).toNat_lt.le

theorem lowest_spec (positive : ∀ i, 0 < s.weight i) {first : Fin count}
    (low : s.lowest weights = some first) :
    weights first ≠ 0 ∧ Lowest (fun i => weights i ≠ 0) s.numerator s.weight first := by
  have total : ∀ a b : Fin count, True → True → s.passLe a b = true ∨ s.passLe b a = true := by
    intro a b _ _
    simpa [passLe] using Nat.le_total _ _
  have trans : ∀ a b c : Fin count, True → True → True → s.passLe a b = true →
      s.passLe b c = true → s.passLe a c = true := by
    intro a b c _ _ _ ab bc
    simp only [passLe, decide_eq_true_eq] at ab bc ⊢
    exact lowest_trans (positive b) ab bc
  refine ⟨mem_activeRoutes.mp (Least.minBy_mem low), fun a ha => ?_⟩
  have below := Least.minBy_le total trans (fun _ _ => trivial) low a (mem_activeRoutes.mpr ha)
  simpa [passLe] using below

theorem exists_lowest {i : Fin count} (active : weights i ≠ 0) :
    ∃ first, s.lowest weights = some first :=
  Least.minBy_isSome (mem_activeRoutes.mpr active)

theorem lowest_none (none' : s.lowest weights = none) (i : Fin count) : weights i = 0 := by
  by_contra active
  obtain ⟨first, found⟩ := exists_lowest (s := s) active
  simp [none'] at found

theorem Bounded.rebase_le (bounded : s.Bounded) (i : Fin count) :
    s.rebase.numerator i ≤ quantum := by
  cases found : s.lowest s.lastActive with
  | none =>
    have idle := bounded.unserved (lowest_none found) i
    simp [rebase, found, idle]
  | some first =>
    obtain ⟨serving, -⟩ := lowest_spec bounded.weight_pos found
    have lead := bounded.near.le_div serving (bounded.weight_pos first) i
    have small := bounded.small i
    have wide : 2 * quantum ≤ u64Max := by decide
    simp only [rebase, found]
    omega

theorem configure_of_not (h : ¬ s.Effective weights) : s.configure weights = s :=
  if_neg h

theorem configure_of (h : s.Effective weights) : s.configure weights =
    { s.rebase with
      nominal := fun i => if weights i ≠ 0 then weights i else s.nominal i
      lastActive := weights } :=
  if_pos h

theorem lastActive_configure (s : Stride count) (weights : Weights count) :
    (∀ i, weights i = 0) ∨ weights = (s.configure weights).lastActive := by
  by_cases effective : s.Effective weights
  · exact .inr (by rw [configure_of effective])
  · rw [configure_of_not effective]
    exact not_not.mp effective

theorem Bounded.configure_le (bounded : s.Bounded) (effective : s.Effective weights)
    (i : Fin count) : (s.configure weights).numerator i ≤ quantum := by
  rw [configure_of effective]
  exact bounded.rebase_le i

theorem Bounded.configure (bounded : s.Bounded) (weights : Weights count) :
    (s.configure weights).Bounded := by
  by_cases effective : s.Effective weights
  · have turn := bounded.configure_le effective
    rw [configure_of effective] at turn ⊢
    have active : ∃ i, weights i ≠ 0 := by
      by_contra none'
      exact effective (.inl (by simpa using none'))
    refine ⟨fun i => ?_, fun i hi => if_pos hi, fun idle => ?_, Near.of_le turn, fun i => ?_⟩
    · by_cases h : weights i ≠ 0
      · simp [h]
      · simpa [h] using bounded.nominal i
    · obtain ⟨i, hi⟩ := active
      exact absurd (idle i) hi
    · have := turn i
      omega
  · rwa [configure_of_not effective]

theorem new_bounded : (new count).Bounded where
  nominal := by simp [new]
  inForce := by simp [new, Serving]
  unserved := by simp [new]
  near := Near.of_le (by simp [new])
  small := by simp [new]

/-- What one turn of `selected` does to the routes that are served. -/
structure Turn (s : Stride count) (selected : Fin count) (t : Stride count) (ticks : Nat) :
    Prop where
  nominal : t.nominal = s.nominal
  lastActive : t.lastActive = s.lastActive
  paid : ∀ i, s.Serving i → t.numerator i + ticks * s.weight i =
    s.numerator i + (if i = selected then quantum else 0)

theorem Bounded.served (bounded : s.Bounded) (selected : Fin count) :
    s.served selected = Function.update s.numerator selected (s.numerator selected + quantum) := by
  have small := bounded.small selected
  have fits : s.numerator selected + quantum < 2 ^ 64 := by
    simp only [quantum] at small ⊢
    omega
  rw [Stride.served, Nat.mod_eq_of_lt fits]

theorem Bounded.served_le (bounded : s.Bounded) (selected i : Fin count) :
    s.served selected i ≤ u64Max := by
  have wide : 3 * quantum ≤ u64Max := by decide
  have here := bounded.small selected
  have there := bounded.small i
  rw [bounded.served]
  by_cases h : i = selected
  · rw [h, Function.update_self]
    omega
  · rw [Function.update_of_ne h]
    omega

/-- The whole ticks that every served route has passed, and one route that has not passed more. -/
theorem exists_ticks (numerator : Fin count → Nat) (positive : ∀ i, 0 < s.weight i)
    {first : Fin count} (active : weights first ≠ 0) :
    ∃ ticks, ((activeRoutes weights).map fun i => numerator i / s.weight i).min? = some ticks ∧
      (∀ i, weights i ≠ 0 → ticks * s.weight i ≤ numerator i) ∧
      ∃ a, weights a ≠ 0 ∧ numerator a < ticks * s.weight a + s.weight a := by
  have nonempty : ((activeRoutes weights).map fun i => numerator i / s.weight i) ≠ [] :=
    List.ne_nil_of_mem (List.mem_map_of_mem (mem_activeRoutes.mpr active))
  obtain ⟨ticks, least⟩ := Option.isSome_iff_exists.mp (List.isSome_min?_of_ne_nil nonempty)
  obtain ⟨mem, below⟩ := List.min?_eq_some_iff.mp least
  obtain ⟨a, ha, attained⟩ := List.mem_map.mp mem
  refine ⟨ticks, least, fun i hi => ?_, a, mem_activeRoutes.mp ha, ?_⟩
  · have bound := below _ (List.mem_map_of_mem (mem_activeRoutes.mpr hi))
    exact (Nat.le_div_iff_mul_le (positive i)).mp bound
  · rw [← attained, ← Nat.succ_mul]
    exact Nat.lt_mul_of_div_lt (Nat.lt_succ_self _) (positive a)

theorem Bounded.issue (bounded : s.Bounded) (active : ∃ i, s.Serving i) :
    ∃ selected t ticks, s.issue s.lastActive = some (selected, t) ∧ t.Bounded ∧
      s.Turn selected t ticks := by
  obtain ⟨i, hi⟩ := active
  obtain ⟨selected, found⟩ := exists_lowest (s := s) hi
  obtain ⟨serving, low⟩ := lowest_spec bounded.weight_pos found
  obtain ⟨ticks, least, reached, a, ha, behind⟩ :=
    exists_ticks (s.served selected) bounded.weight_pos serving
  have slid : (fun i => s.served selected i - saturatingMul u64Max ticks (s.weight i)) =
      slide ticks (s.served selected) s.weight := by
    funext i
    have := bounded.served_le selected i
    simp only [saturatingMul, slide]
    omega
  have near : Near quantum s.Serving (slide ticks (s.served selected) s.weight) s.weight := by
    refine Near.slid ?_ reached
    rw [bounded.served]
    exact bounded.near.serve low
  refine ⟨selected, { s with numerator := slide ticks (s.served selected) s.weight }, ticks, ?_,
    ?_, rfl, rfl, fun i hi => ?_⟩
  · simp [Stride.issue, found, least, slid]
  · refine ⟨bounded.nominal, bounded.inForce, fun idle => absurd (idle a) ha, near, fun i => ?_⟩
    -- The route that is less than one tick past the frontier bounds all the others.
    have lead := near.le_div ha (bounded.weight_pos a) i
    have short : slide ticks (s.served selected) s.weight a < s.weight a := by
      have := reached a ha
      simp only [slide]
      omega
    have under : slide ticks (s.served selected) s.weight a * s.weight i / s.weight a ≤
        s.weight i := by
      refine Nat.div_le_of_le_mul ?_
      exact Nat.mul_le_mul_right _ short.le
    have := s.weight_le i
    show slide ticks (s.served selected) s.weight i ≤ 2 * quantum
    omega
  · show slide ticks (s.served selected) s.weight i + ticks * s.weight i = _
    rw [slide_add (reached i hi), bounded.served]
    by_cases h : i = selected
    · simp [h]
    · simp [h]

end Stride

namespace PollPlanner
variable {count : Nat} {p q : PollPlanner count} {s : Stride count}

structure Tuned (p : PollPlanner count) (s : Stride count) : Prop where
  selector : p.selector = .stride s
  bounded : s.Bounded
  total : p.totalWeight = totalOf p.weights
  current : (∀ i, p.weights i = 0) ∨ p.weights = s.lastActive

theorem new_tuned (plan : PollPlan) (random : UInt64) : ∃ s, (new plan .stride random).Tuned s :=
  ⟨_, rfl, Stride.new_bounded.configure _, rfl, Stride.lastActive_configure _ _⟩

/-- A plan is refused, changes at most revisions, or reconfigures the stride. -/
theorem install_cases {plan : PollPlan} (h : p.install plan = .ok q) :
    (q.selector = p.selector ∧ q.weights = p.weights ∧ q.totalWeight = p.totalWeight) ∨
      ∃ weights, q.selector = p.selector.configure weights ∧ q.weights = weights ∧
        q.totalWeight = totalOf weights := by
  simp only [install, bind_eq_ok, exists_unit] at h
  obtain ⟨-, weights, -, -, h⟩ := h
  by_cases replay : plan.revision = p.revision
  · simp only [if_pos replay, bind_eq_ok, exists_unit, pure_eq_ok] at h
    obtain ⟨-, rfl⟩ := h
    exact .inl ⟨rfl, rfl, rfl⟩
  · simp only [if_neg replay, pure_eq_ok] at h
    by_cases same : weights ≠ p.weights
    · simp only [adopt, if_pos same] at h
      exact .inr ⟨weights, by rw [← h], by rw [← h], by rw [← h]⟩
    · simp only [adopt, if_neg same] at h
      exact .inl ⟨by rw [← h], by rw [← h], by rw [← h]⟩

theorem Tuned.install (tuned : p.Tuned s) {plan : PollPlan} (h : p.install plan = .ok q) :
    ∃ t, q.Tuned t := by
  obtain ⟨selector, weights, total⟩ | ⟨weights, selector, rfl, total⟩ := install_cases h
  · exact ⟨s, selector.trans tuned.selector, tuned.bounded,
      by rw [total, weights, tuned.total], by rw [weights]; exact tuned.current⟩
  · refine ⟨s.configure q.weights, ?_, tuned.bounded.configure _, total,
      Stride.lastActive_configure _ _⟩
    rw [selector, tuned.selector]
    rfl

/-- Every call succeeds. It installs a plan, finds the planner idle, or serves a route. -/
theorem Tuned.apply (tuned : p.Tuned s) (op : PollOp) :
    ∃ route q t, p.apply op = some (route, q) ∧ q.Tuned t ∧
      (op ≠ .issue ∧ route = none ∨ op = .issue ∧ route = none ∧ t = s ∨
        ∃ selected ticks, route = some selected ∧ s.Turn selected t ticks) := by
  cases op with
  | install plan =>
    cases installed : p.install plan with
    | error e => exact ⟨none, p, s, by simp [PollPlanner.apply, installed], tuned, by simp⟩
    | ok q =>
      obtain ⟨t, kept⟩ := tuned.install installed
      exact ⟨none, q, t, by simp [PollPlanner.apply, installed], kept, by simp⟩
  | issue =>
    by_cases idle : p.totalWeight = 0
    · exact ⟨none, p, s, by simp [PollPlanner.apply, issue, issueWithRevision, idle], tuned, by simp⟩
    · have busy : ¬ ∀ i, p.weights i = 0 := by
        rwa [tuned.total, totalOf_eq_zero] at idle
      have current := tuned.current.resolve_left busy
      have active : ∃ i, s.Serving i := by
        rw [current] at busy
        simpa [Stride.Serving] using busy
      obtain ⟨selected, t, ticks, issued, bounded, turn⟩ := tuned.bounded.issue active
      refine ⟨some selected, { p with selector := .stride t }, t, ?_, ?_, .inr (.inr ?_)⟩
      · simp [PollPlanner.apply, issue, issueWithRevision, idle, tuned.selector, Selector.issue,
          current, issued]
      · exact ⟨rfl, bounded, tuned.total, .inr (current.trans turn.lastActive.symm)⟩
      · exact ⟨selected, ticks, rfl, turn⟩

theorem Tuned.run (tuned : p.Tuned s) (ops : List PollOp) :
    ∃ routes q t, p.run ops = some (routes, q) ∧ q.Tuned t := by
  induction ops generalizing p s with
  | nil => exact ⟨[], p, s, rfl, tuned⟩
  | cons op ops ih =>
    obtain ⟨route, q, t, called, kept, -⟩ := tuned.apply op
    obtain ⟨routes, r, u, rest, last⟩ := ih kept
    exact ⟨route.toList ++ routes, r, u, by simp [PollPlanner.run, called, rest], last⟩

def Steady (p : PollPlanner count) : List PollOp → Prop
  | [] => True
  | op :: ops => ∀ route q, p.apply op = some (route, q) →
      (op ≠ .issue → q.selector = p.selector) ∧ q.Steady ops

/-- Over a steady run every served route pays for its turns, up to a common slide. -/
theorem Tuned.steady (tuned : p.Tuned s) {ops : List PollOp} (steady : p.Steady ops)
    {routes : List (Fin count)} (ran : p.run ops = some (routes, q)) :
    ∃ t ticks, q.Tuned t ∧ t.nominal = s.nominal ∧ t.lastActive = s.lastActive ∧
      ∀ i, s.Serving i → t.numerator i + ticks * s.weight i =
        s.numerator i + routes.count i * quantum := by
  induction ops generalizing p s routes with
  | nil =>
    simp only [PollPlanner.run, Option.some.injEq, Prod.mk.injEq] at ran
    obtain ⟨rfl, rfl⟩ := ran
    exact ⟨s, 0, tuned, rfl, rfl, by simp⟩
  | cons op ops ih =>
    obtain ⟨route, m, t, called, kept, what⟩ := tuned.apply op
    obtain ⟨quiet, later⟩ := steady route m called
    obtain ⟨rest, ran'⟩ : ∃ rest, m.run ops = some (rest, q) ∧ routes = route.toList ++ rest := by
      simp only [PollPlanner.run, called, Option.bind_eq_bind, Option.bind_some,
        Option.bind_eq_some_iff, Option.pure_def, Option.some.injEq, Prod.mk.injEq] at ran
      obtain ⟨⟨rest, r⟩, ran', shape, rfl⟩ := ran
      exact ⟨rest, ran', shape.symm⟩
    obtain ⟨ran', rfl⟩ := ran'
    obtain ⟨u, ticks, last, nominal, lastActive, paid⟩ := ih kept later ran'
    obtain ⟨install, rfl⟩ | ⟨-, rfl, rfl⟩ | ⟨selected, here, rfl, turn⟩ := what
    · have same : t = s := by
        have := (kept.selector.symm.trans (quiet install)).trans tuned.selector
        simpa using this
      subst same
      exact ⟨u, ticks, last, nominal, lastActive, by simpa using paid⟩
    · exact ⟨u, ticks, last, nominal, lastActive, by simpa using paid⟩
    · refine ⟨u, ticks + here, last, nominal.trans turn.nominal,
        lastActive.trans turn.lastActive, fun i hi => ?_⟩
      have first := turn.paid i hi
      have serving : t.Serving i := by rwa [Stride.Serving, turn.lastActive]
      have rest' := paid i serving
      have weight : t.weight i = s.weight i := by rw [Stride.weight, turn.nominal, Stride.weight]
      rw [weight] at rest'
      have count' : ((some selected).toList ++ rest).count i =
          (if i = selected then 1 else 0) + rest.count i := by
        by_cases h : i = selected
        · simp [h, Nat.add_comm]
        · simp [h, Ne.symm h]
      rw [count', Nat.add_mul, Nat.add_mul]
      by_cases h : i = selected
      · simp only [h, if_true, Nat.one_mul] at first ⊢
        rw [h] at rest'
        omega
      · simp only [h, if_false, Nat.zero_mul] at first ⊢
        omega

theorem steady_issues (p : PollPlanner count) (n : Nat) :
    p.Steady (List.replicate n .issue) := by
  induction n generalizing p with
  | zero => trivial
  | succ n ih =>
    rw [List.replicate_succ]
    exact fun _ q _ => ⟨fun h => absurd rfl h, ih q⟩

theorem Tuned.fair (tuned : p.Tuned s) {ops : List PollOp} (steady : p.Steady ops)
    {routes : List (Fin count)} (ran : p.run ops = some (routes, q)) {i j : Fin count}
    (hi : p.weights i ≠ 0) (hj : p.weights j ≠ 0) :
    routes.count i * (p.weights j).toNat ≤
      routes.count j * (p.weights i).toNat + ((p.weights i).toNat + (p.weights j).toNat) := by
  obtain ⟨t, ticks, last, nominal, lastActive, paid⟩ := tuned.steady steady ran
  have current : p.weights = s.lastActive := tuned.current.resolve_left fun idle => hi (idle i)
  have serving : ∀ k, p.weights k ≠ 0 → s.Serving k := by
    rw [current]
    exact fun _ h => h
  have weight : ∀ k, p.weights k ≠ 0 → (p.weights k).toNat = s.weight k := by
    intro k hk
    rw [Stride.weight, tuned.bounded.inForce k (serving k hk), current]
  have after : Near quantum s.Serving t.numerator s.weight := by
    have near := last.bounded.near
    have served : t.Serving = s.Serving := by
      funext k
      rw [Stride.Serving, lastActive, Stride.Serving]
    have weights : t.weight = s.weight := by
      funext k
      rw [Stride.weight, nominal, Stride.weight]
    rwa [served, weights] at near
  rw [weight i hi, weight j hj]
  exact tuned.bounded.near.fair (by decide) after paid (serving i hi) (serving j hj)

/-- Whatever plans were installed before, numerators are bounded, a reconfiguration leaves at
most one turn of lead, and from then on turns follow the weights. -/
theorem stride_bounded_and_fair (plan : PollPlan) (random : UInt64) (ops : List PollOp) :
    ∃ routes p s, (new plan .stride random).run ops = some (routes, p) ∧ p.selector = .stride s ∧
      (∀ i, s.numerator i + quantum < 2 ^ 64) ∧
      (p.isIdle = false → p.weights = s.lastActive) ∧
      (∀ first, s.lowest s.lastActive = some first → ∀ i,
        s.numerator i ≤ s.numerator first * s.weight i / s.weight first + quantum) ∧
      (∀ weights, s.Effective weights → ∀ i, (s.configure weights).numerator i ≤ quantum) ∧
      ∀ later served q, p.Steady later → p.run later = some (served, q) →
        ∀ i j, p.weights i ≠ 0 → p.weights j ≠ 0 →
          |(served.count i : ℤ) * (p.weights j).toNat - served.count j * (p.weights i).toNat| ≤
            (p.weights i).toNat + (p.weights j).toNat := by
  obtain ⟨s₀, start⟩ := new_tuned plan random
  obtain ⟨routes, p, s, ran, tuned⟩ := start.run ops
  refine ⟨routes, p, s, ran, tuned.selector, fun i => ?_, fun busy => ?_, fun first low i => ?_,
    fun weights effective => tuned.bounded.configure_le effective, ?_⟩
  · have := tuned.bounded.small i
    simp only [quantum] at this ⊢
    omega
  · refine tuned.current.resolve_left fun idle => ?_
    rw [← totalOf_eq_zero, ← tuned.total] at idle
    simp [isIdle, idle] at busy
  · have serving := (Stride.lowest_spec tuned.bounded.weight_pos low).1
    exact tuned.bounded.near.le_div serving (tuned.bounded.weight_pos first) i
  · intro later served q steady ran' i j hi hj
    have ahead := tuned.fair steady ran' hi hj
    have behind := tuned.fair steady ran' hj hi
    rw [abs_le]
    zify at ahead behind
    constructor <;> linarith

def samplePlan : PollPlan :=
  ⟨1, [("orders", 7), ("reports", 3)], by decide⟩

/-- Reports rest for a while and come back. They get no more than their share afterwards. -/
theorem no_catch_up : ∃ routes p, (new samplePlan .stride 0).run
      [.issue, .install ⟨2, [("orders", 1), ("reports", 0)], by decide⟩, .issue, .issue, .issue,
        .install ⟨3, [("orders", 1), ("reports", 1)], by decide⟩] = some (routes, p) ∧
    ∀ served q, p.run (List.replicate 10 .issue) = some (served, q) →
      ∀ i j, p.weights i ≠ 0 → p.weights j ≠ 0 →
        |(served.count i : ℤ) * (p.weights j).toNat - served.count j * (p.weights i).toNat| ≤
          (p.weights i).toNat + (p.weights j).toNat := by
  obtain ⟨routes, p, s, ran, -, -, -, -, -, fair⟩ := stride_bounded_and_fair samplePlan 0
    [.issue, .install ⟨2, [("orders", 1), ("reports", 0)], by decide⟩, .issue, .issue, .issue,
      .install ⟨3, [("orders", 1), ("reports", 1)], by decide⟩]
  exact ⟨routes, p, ran, fun served q => fair _ served q (steady_issues p 10)⟩

end PollPlanner
end Ledgence
