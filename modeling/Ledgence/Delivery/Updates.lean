import Ledgence.Delivery.Schedule
import Ledgence.Delivery.Lottery
import Mathlib.Algebra.GCDMonoid.Finset
import Mathlib.Algebra.GCDMonoid.Nat

/-! Plan updates that change no weights leave no trace in the poll decision stream. -/
open Kit Kit.Checked

namespace Ledgence

/- Normalized weights. -/

theorem dvd_divisor {d : Nat} {routes : List (String × UInt32)} :
    d ∣ divisor routes ↔ ∀ route ∈ routes, d ∣ route.2.toNat := by
  have fold : ∀ n, d ∣ routes.foldl (fun divisor route => Nat.gcd divisor route.2.toNat) n ↔
      d ∣ n ∧ ∀ route ∈ routes, d ∣ route.2.toNat := by
    induction routes with
    | nil => simp
    | cons route routes ih =>
      intro n
      rw [List.foldl_cons, ih, Nat.dvd_gcd_iff, List.forall_mem_cons, and_assoc]
  rw [divisor, fold]
  simp only [dvd_zero, true_and]

theorem normalize_factor (routes : List (String × UInt32)) : ∃ g, 0 < g ∧
    ∀ route ∈ normalize routes, ∃ raw ∈ routes, raw.1 = route.1 ∧
      raw.2.toNat = g * route.2.toNat := by
  by_cases common : 1 < divisor routes
  · refine ⟨divisor routes, by omega, fun route mem => ?_⟩
    rw [normalize, if_pos common] at mem
    obtain ⟨raw, listed, rfl⟩ := List.mem_map.mp mem
    have divides := dvd_divisor.mp (dvd_refl _) raw listed
    have small : raw.2.toNat / divisor routes < 2 ^ 32 :=
      (Nat.div_le_self _ _).trans_lt raw.2.toNat_lt
    refine ⟨raw, listed, rfl, ?_⟩
    rw [UInt32.toNat_ofNat_of_lt' small, Nat.mul_div_cancel' divides]
  · rw [normalize, if_neg common]
    exact ⟨1, one_pos, fun route mem => ⟨route, mem, rfl, (Nat.one_mul _).symm⟩⟩

theorem divisor_normalize (routes : List (String × UInt32)) : divisor (normalize routes) ≤ 1 := by
  by_cases common : 1 < divisor routes
  · have whole : divisor (normalize routes) * divisor routes ∣ divisor routes := by
      refine dvd_divisor.mpr fun raw mem => ?_
      have divides := dvd_divisor.mp (dvd_refl (divisor routes)) raw mem
      have small : raw.2.toNat / divisor routes < 2 ^ 32 :=
        (Nat.div_le_self _ _).trans_lt raw.2.toNat_lt
      have reduced : divisor (normalize routes) ∣ raw.2.toNat / divisor routes := by
        have listed : (raw.1, UInt32.ofNat (raw.2.toNat / divisor routes)) ∈ normalize routes := by
          rw [normalize, if_pos common]
          exact List.mem_map_of_mem mem
        have := dvd_divisor.mp (dvd_refl _) _ listed
        rwa [UInt32.toNat_ofNat_of_lt' small] at this
      obtain ⟨n, hn⟩ := divides
      obtain ⟨m, hm⟩ := reduced
      refine ⟨m, ?_⟩
      rw [hn, Nat.mul_div_cancel_left n (by omega)] at hm
      rw [hn, hm]
      ac_rfl
    have bound := Nat.le_of_dvd (by omega) whole
    exact Nat.le_of_mul_le_mul_right (by omega) (Nat.zero_lt_of_lt common)
  · rw [normalize, if_neg common]
    omega

def Reduced {count : Nat} (weights : Weights count) : Prop :=
  Finset.univ.gcd (fun i => (weights i).toNat) ≤ 1

theorem Reduced.eq_of_proportional {count : Nat} {v w : Weights count} (hv : Reduced v)
    (hw : Reduced w) {a b : Nat} (ha : 0 < a) (hb : 0 < b)
    (proportional : ∀ i, b * (v i).toNat = a * (w i).toNat) : v = w := by
  have factors : b * Finset.univ.gcd (fun i => (v i).toNat) =
      a * Finset.univ.gcd (fun i => (w i).toNat) := by
    have same : (fun i => b * (v i).toNat) = fun i => a * (w i).toNat := funext proportional
    have := congrArg (Finset.gcd Finset.univ) same
    rwa [Finset.gcd_mul_left, Finset.gcd_mul_left, normalize_eq, normalize_eq] at this
  rw [Reduced] at hv hw
  by_cases zero : Finset.univ.gcd (fun i => (w i).toNat) = 0
  · have none' : Finset.univ.gcd (fun i => (v i).toNat) = 0 := by
      rw [zero, Nat.mul_zero] at factors
      exact (Nat.mul_eq_zero.mp factors).resolve_left hb.ne'
    funext i
    have left := Finset.gcd_eq_zero_iff.mp none' i (Finset.mem_univ i)
    have right := Finset.gcd_eq_zero_iff.mp zero i (Finset.mem_univ i)
    exact UInt32.toNat_inj.mp (left.trans right.symm)
  · have right : Finset.univ.gcd (fun i => (w i).toNat) = 1 := by omega
    have left : Finset.univ.gcd (fun i => (v i).toNat) = 1 := by
      by_contra other
      have none' : Finset.univ.gcd (fun i => (v i).toNat) = 0 := by omega
      rw [none', right] at factors
      omega
    have same : b = a := by simpa [left, right] using factors
    funext i
    have := proportional i
    rw [same] at this
    exact UInt32.toNat_inj.mp (Nat.eq_of_mul_eq_mul_left ha this)

theorem PollPlan.new_eq_ok {revision : Nat} {routes : List (String × UInt32)} {plan : PollPlan}
    (made : PollPlan.new revision routes = .ok plan) :
    plan.revision = revision ∧ plan.routes = normalize routes ∧ plan.routes.length ≤ maxPollQueues := by
  have length : (normalize routes).length = routes.length := by
    have := congrArg List.length (names_normalize routes)
    simpa using this
  rw [PollPlan.new] at made
  by_cases sized : 1 ≤ routes.length ∧ routes.length ≤ maxPollQueues
  · rw [if_neg (not_not.mpr sized)] at made
    split at made
    · cases made
    · obtain rfl := Except.ok.inj made
      exact ⟨rfl, rfl, length.trans_le sized.2⟩
  · rw [if_pos sized] at made
    cases made

inductive PollCall where
  | install (revision : Nat) (routes : List (String × UInt32))
  | issue

namespace PollPlanner
variable {count : Nat}

def present (p : PollPlanner count) (revision : Nat) (routes : List (String × UInt32)) :
    Result (PollPlanner count) := do
  let plan ← PollPlan.new revision routes
  p.install plan

def call (p : PollPlanner count) :
    PollCall → Option (Option (PollSelection count) × PollPlanner count)
  | .install revision routes =>
    match p.present revision routes with
    | .ok q => some (none, q)
    | .error _ => some (none, p)
  | .issue => p.issueWithRevision

def serve (p : PollPlanner count) :
    List PollCall → Option (List (PollSelection count) × PollPlanner count)
  | [] => some ([], p)
  | c :: cs => do
    let (selection, q) ← p.call c
    let (selections, r) ← q.serve cs
    return (selection.toList ++ selections, r)

variable {p q r : PollPlanner count} {weights : Weights count}

/- Plans. -/

/-- Every route of an entered plan has its queue, which then has the route's weight. -/
theorem place_routes {routes : List (String × UInt32)} (unique : (routes.map Prod.fst).Nodup)
    {before : Weights count} (placed : routes.foldlM p.place before = .ok weights) :
    ∃ queues : List (Fin count), queues.map (fun i => (p.queues i, weights i)) = routes ∧
      ∀ i, i ∉ queues → weights i = before i := by
  induction routes generalizing before with
  | nil =>
    obtain rfl := Except.ok.inj placed
    exact ⟨[], rfl, fun _ _ => rfl⟩
  | cons route routes ih =>
    rw [List.map_cons, List.nodup_cons] at unique
    obtain ⟨fresh, unique⟩ := unique
    obtain ⟨next, first, rest⟩ := foldlM_cons_ok.mp placed
    simp only [place, bind_eq_ok, okOr_eq_ok, pure_eq_ok] at first
    obtain ⟨i, found, rfl⟩ := first
    have named : p.queues i = route.1 := by
      rw [index] at found
      simpa using List.find?_some found
    obtain ⟨queues, entered, others⟩ := ih unique rest
    have absent : i ∉ queues := by
      intro mem
      refine fresh ?_
      rw [← entered, ← named, List.map_map]
      exact List.mem_map_of_mem mem
    refine ⟨i :: queues, ?_, fun j other => ?_⟩
    · rw [List.map_cons, entered, others i absent, Function.update_self, named]
    · rw [List.mem_cons, not_or] at other
      rw [others j other.2, Function.update_of_ne other.1]

theorem place_covers {routes : List (String × UInt32)} (unique : (routes.map Prod.fst).Nodup)
    (length : routes.length = count) {before : Weights count}
    (placed : routes.foldlM p.place before = .ok weights) :
    (∀ i, (p.queues i, weights i) ∈ routes) ∧
      ∀ route ∈ routes, ∃ i, (p.queues i, weights i) = route := by
  obtain ⟨queues, rfl, -⟩ := place_routes unique placed
  rw [List.map_map] at unique
  have distinct : queues.Nodup := unique.of_map
  have all : queues.toFinset = Finset.univ := by
    refine Finset.eq_univ_of_card _ ?_
    rw [List.toFinset_card_of_nodup distinct, Fintype.card_fin]
    exact (List.length_map _).symm.trans length
  refine ⟨fun i => ?_, fun route mem => ?_⟩
  · have mem : i ∈ queues := List.mem_toFinset.mp (all ▸ Finset.mem_univ i)
    exact List.mem_map_of_mem mem
  · obtain ⟨i, -, rfl⟩ := List.mem_map.mp mem
    exact ⟨i, rfl⟩

structure Requested (p : PollPlanner count) (routes : List (String × UInt32))
    (weights : Weights count) : Prop where
  reduced : Reduced weights
  given : ∃ g, 0 < g ∧ ∀ i, ∃ route ∈ routes, route.1 = p.queues i ∧
    route.2.toNat = g * (weights i).toNat

theorem requested_of_listed {routes : List (String × UInt32)}
    (all : ∀ i, (p.queues i, weights i) ∈ normalize routes)
    (only : ∀ route ∈ normalize routes, ∃ i, (p.queues i, weights i) = route) :
    p.Requested routes weights := by
  constructor
  · have common : Finset.univ.gcd (fun i => (weights i).toNat) ∣ divisor (normalize routes) := by
      refine dvd_divisor.mpr fun route mem => ?_
      obtain ⟨i, rfl⟩ := only route mem
      exact Finset.gcd_dvd (Finset.mem_univ i)
    have back : divisor (normalize routes) ∣ Finset.univ.gcd (fun i => (weights i).toNat) :=
      Finset.dvd_gcd fun i _ => dvd_divisor.mp (dvd_refl _) _ (all i)
    rw [Reduced, Nat.dvd_antisymm common back]
    exact divisor_normalize routes
  · obtain ⟨g, positive, factor⟩ := normalize_factor routes
    refine ⟨g, positive, fun i => ?_⟩
    obtain ⟨raw, mem, name, weight⟩ := factor _ (all i)
    exact ⟨raw, mem, name, weight⟩

def wanted (p : PollPlanner count) (revision : Nat) (routes : List (String × UInt32)) :
    Result (Weights count) := do
  let plan ← PollPlan.new revision routes
  refuse (plan.routes.length ≠ count)
    (invalid "a poll plan cannot change the worker's registered queues")
  plan.routes.foldlM p.place fun _ => 0

def resolve (p : PollPlanner count) (revision : Nat) (weights : Weights count) :
    Result (PollPlanner count) := do
  refuse (revision < p.revision) (invalid "stale poll plan revision")
  if revision = p.revision then
    refuse (weights ≠ p.weights) (invalid "conflicting poll plan revision")
    return p
  else return p.adopt weights revision

theorem present_eq (p : PollPlanner count) (revision : Nat) (routes : List (String × UInt32)) :
    p.present revision routes = p.wanted revision routes >>= p.resolve revision := by
  rw [present, wanted]
  cases made : PollPlan.new revision routes with
  | error e => rfl
  | ok plan =>
    obtain ⟨rfl, -, -⟩ := PollPlan.new_eq_ok made
    by_cases length : plan.routes.length ≠ count
    · simp [install, refuse, length]
    · simp only [install, refuse, if_neg length, ok_bind]
      rfl

theorem wanted_eq_ok {revision : Nat} {routes : List (String × UInt32)}
    (wanted : p.wanted revision routes = .ok weights) : p.Requested routes weights := by
  simp only [PollPlanner.wanted, bind_eq_ok, refuse_eq_ok, exists_unit, not_not] at wanted
  obtain ⟨plan, made, length, placed⟩ := wanted
  obtain ⟨all, only⟩ := place_covers plan.unique length placed
  rw [(PollPlan.new_eq_ok made).2.1] at all only
  exact requested_of_listed all only

theorem wanted_congr (same : q.queues = p.queues) : q.wanted = p.wanted := by
  have index : q.index = p.index := by
    funext queue
    rw [PollPlanner.index, PollPlanner.index, same]
  have place : q.place = p.place := by
    funext weights route
    rw [PollPlanner.place, PollPlanner.place, index]
  funext revision routes
  rw [wanted, wanted, place]

theorem resolve_eq_ok {revision : Nat} : p.resolve revision weights = .ok q ↔
    revision = p.revision ∧ weights = p.weights ∧ q = p ∨
      p.revision < revision ∧ q = p.adopt weights revision := by
  simp only [resolve, bind_eq_ok, refuse_eq_ok, exists_unit]
  by_cases replay : revision = p.revision
  · simp only [if_pos replay, bind_eq_ok, refuse_eq_ok, exists_unit, pure_eq_ok, not_not]
    constructor
    · rintro ⟨-, same, rfl⟩
      exact .inl ⟨replay, same, rfl⟩
    · rintro (⟨-, same, rfl⟩ | ⟨newer, -⟩)
      · exact ⟨by omega, same, rfl⟩
      · omega
  · simp only [if_neg replay, pure_eq_ok]
    constructor
    · rintro ⟨notStale, rfl⟩
      exact .inr ⟨by omega, rfl⟩
    · rintro (⟨same, -⟩ | ⟨newer, rfl⟩)
      · exact absurd same replay
      · exact ⟨by omega, rfl⟩

theorem present_eq_ok {revision : Nat} {routes : List (String × UInt32)} :
    p.present revision routes = .ok q ↔ ∃ weights, p.wanted revision routes = .ok weights ∧
      p.resolve revision weights = .ok q := by
  rw [present_eq, bind_eq_ok]

/- The planner between calls. -/

@[simp] theorem adopt_queues (weights : Weights count) (revision : Nat) :
    (p.adopt weights revision).queues = p.queues := by
  by_cases same : weights ≠ p.weights
  · simp [adopt, same]
  · simp [adopt, same]

@[simp] theorem adopt_revision (weights : Weights count) (revision : Nat) :
    (p.adopt weights revision).revision = revision := rfl

@[simp] theorem adopt_weights (weights : Weights count) (revision : Nat) :
    (p.adopt weights revision).weights = weights := by
  by_cases same : weights ≠ p.weights
  · simp [adopt, same]
  · simp [adopt, not_not.mp same]

theorem adopt_selector (weights : Weights count) (revision : Nat) :
    (p.adopt weights revision).selector =
      if weights ≠ p.weights then p.selector.configure weights else p.selector := by
  by_cases same : weights ≠ p.weights
  · simp [adopt, same]
  · simp [adopt, same]

structure Tended (p : PollPlanner count) : Prop where
  few : count ≤ maxPollQueues
  total : p.totalWeight = totalOf p.weights
  reduced : Reduced p.weights
  bounded : ∀ s, p.selector = .stride s → s.Bounded
  current : ∀ s, p.selector = .stride s → (∀ i, p.weights i = 0) ∨ p.weights = s.lastActive

theorem Tended.adopt (tended : p.Tended) (reduced : Reduced weights) (revision : Nat) :
    (p.adopt weights revision).Tended := by
  by_cases same : weights = p.weights
  · subst same
    have selector := adopt_selector (p := p) p.weights revision
    rw [if_neg (not_not.mpr rfl)] at selector
    refine ⟨tended.few, ?_, by rwa [adopt_weights], fun s h => ?_, fun s h => ?_⟩
    · simpa [PollPlanner.adopt] using tended.total
    · exact tended.bounded s (selector.symm.trans h)
    · rw [adopt_weights]
      exact tended.current s (selector.symm.trans h)
  · have selector := adopt_selector (p := p) weights revision
    rw [if_pos same] at selector
    refine ⟨tended.few, by simp [PollPlanner.adopt, same], by rwa [adopt_weights], fun s h => ?_,
      fun s h => ?_⟩
    · rw [selector] at h
      cases old : p.selector with
      | stride t =>
        rw [old, Selector.configure] at h
        cases h
        exact (tended.bounded t old).configure weights
      | lottery l => simp [old, Selector.configure] at h
    · rw [selector] at h
      cases old : p.selector with
      | stride t =>
        rw [old, Selector.configure] at h
        cases h
        rw [adopt_weights]
        exact Stride.lastActive_configure t weights
      | lottery l => simp [old, Selector.configure] at h

theorem Tended.present (tended : p.Tended) {revision : Nat} {routes : List (String × UInt32)}
    (accepted : p.present revision routes = .ok q) :
    q.Tended ∧ q.queues = p.queues ∧ p.revision ≤ q.revision := by
  obtain ⟨weights, wanted, resolved⟩ := present_eq_ok.mp accepted
  obtain ⟨-, -, rfl⟩ | ⟨newer, rfl⟩ := resolve_eq_ok.mp resolved
  · exact ⟨tended, rfl, le_rfl⟩
  · exact ⟨tended.adopt (wanted_eq_ok wanted).reduced revision, adopt_queues _ _, newer.le⟩

theorem Tended.issue (tended : p.Tended) (busy : p.totalWeight ≠ 0) :
    ∃ route selector, p.selector.issue p.weights p.totalWeight = some (route, selector) ∧
      ({ p with selector } : PollPlanner count).Tended := by
  have active : ∃ i, p.weights i ≠ 0 := by
    rw [tended.total, Ne, totalOf_eq_zero] at busy
    simpa using busy
  cases using' : p.selector with
  | stride s =>
    have current : p.weights = s.lastActive := by
      refine (tended.current s using').resolve_left fun idle => ?_
      obtain ⟨i, hi⟩ := active
      exact hi (idle i)
    have serving : ∃ i, s.Serving i := by
      rw [current] at active
      exact active
    obtain ⟨selected, t, ticks, issued, bounded, turn⟩ := (tended.bounded s using').issue serving
    refine ⟨selected, .stride t, by simp [Selector.issue, current, issued], tended.few,
      tended.total, tended.reduced, ?_, ?_⟩
    · rintro u ⟨⟩
      exact bounded
    · rintro u ⟨⟩
      exact .inr (current.trans turn.lastActive.symm)
  | lottery l =>
    have positive : 0 < totalOf p.weights := by
      rw [← tended.total]
      omega
    obtain ⟨k, -, i, -, -, -, issued⟩ := Lottery.exists_issue tended.few positive l
    refine ⟨i, .lottery ⟨l.stateAfter (k + 1)⟩, by simp [Selector.issue, tended.total, issued],
      tended.few, tended.total, tended.reduced, ?_, ?_⟩
    · rintro u ⟨⟩
    · rintro u ⟨⟩

/-- Every call returns, and what it selects is of the planner's revision. -/
theorem Tended.call (tended : p.Tended) (c : PollCall) :
    ∃ selection q, p.call c = some (selection, q) ∧ q.Tended ∧ q.queues = p.queues ∧
      p.revision ≤ q.revision ∧ ∀ x ∈ selection, x.revision = p.revision := by
  cases c with
  | install revision routes =>
    cases presented : p.present revision routes with
    | error e => exact ⟨none, p, by simp [PollPlanner.call, presented], tended, rfl, le_rfl, by simp⟩
    | ok q =>
      obtain ⟨kept, queues, newer⟩ := tended.present presented
      exact ⟨none, q, by simp [PollPlanner.call, presented], kept, queues, newer, by simp⟩
  | issue =>
    by_cases idle : p.totalWeight = 0
    · exact ⟨none, p, by simp [PollPlanner.call, issueWithRevision, idle], tended, rfl, le_rfl,
        by simp⟩
    · obtain ⟨route, selector, issued, kept⟩ := tended.issue idle
      exact ⟨some ⟨route, p.revision⟩, { p with selector },
        by simp [PollPlanner.call, issueWithRevision, idle, issued], kept, rfl, le_rfl, by simp⟩

theorem Tended.after (tended : p.Tended) {c : PollCall} {x : Option (PollSelection count)}
    (called : p.call c = some (x, q)) : q.Tended := by
  obtain ⟨_, _, same, kept, -⟩ := tended.call c
  obtain ⟨rfl, rfl⟩ := Prod.mk.inj (Option.some.inj (called.symm.trans same))
  exact kept

/-- Sequences of calls return, and revisions never decrease along them. -/
theorem Tended.serve (tended : p.Tended) (calls : List PollCall) :
    ∃ selections q, p.serve calls = some (selections, q) ∧ q.Tended ∧
      (selections.map PollSelection.revision).Pairwise (· ≤ ·) ∧
      ∀ x ∈ selections, p.revision ≤ x.revision := by
  induction calls generalizing p with
  | nil => exact ⟨[], p, rfl, tended, by simp, by simp⟩
  | cons c calls ih =>
    obtain ⟨selection, q, called, kept, -, newer, here⟩ := tended.call c
    obtain ⟨selections, r, rest, last, sorted, later⟩ := ih kept
    refine ⟨selection.toList ++ selections, r, by simp [PollPlanner.serve, called, rest], last, ?_, ?_⟩
    · cases selection with
      | none => simpa using sorted
      | some x =>
        have first := here x rfl
        simp only [Option.toList_some, List.singleton_append, List.map_cons, List.pairwise_cons]
        refine ⟨fun n mem => ?_, sorted⟩
        obtain ⟨y, found, rfl⟩ := List.mem_map.mp mem
        have := later y found
        omega
    · intro x mem
      obtain mem | mem := List.mem_append.mp mem
      · exact (here x (by simpa using mem)).ge
      · exact newer.trans (later x mem)

/- Two planners. -/

structure Alike (p q : PollPlanner count) : Prop where
  queues : q.queues = p.queues
  weights : q.weights = p.weights
  totalWeight : q.totalWeight = p.totalWeight
  selector : q.selector = p.selector
  revision : p.revision ≤ q.revision

theorem Alike.refl (p : PollPlanner count) : p.Alike p :=
  ⟨rfl, rfl, rfl, rfl, le_rfl⟩

theorem Alike.trans (first : p.Alike q) (second : q.Alike r) : p.Alike r :=
  ⟨second.queues.trans first.queues, second.weights.trans first.weights,
    second.totalWeight.trans first.totalWeight, second.selector.trans first.selector,
    first.revision.trans second.revision⟩

theorem Alike.adopt (alike : p.Alike q) (weights : Weights count) {m n : Nat} (later : m ≤ n) :
    (p.adopt weights m).Alike (q.adopt weights n) := by
  by_cases same : weights ≠ p.weights
  · have other : weights ≠ q.weights := by rwa [alike.weights]
    simp only [PollPlanner.adopt, if_pos same, if_pos other]
    exact ⟨alike.queues, rfl, rfl, by simp [alike.selector], later⟩
  · have other : ¬ weights ≠ q.weights := by rwa [alike.weights]
    simp only [PollPlanner.adopt, if_neg same, if_neg other]
    exact ⟨alike.queues, alike.weights, alike.totalWeight, alike.selector, later⟩

abbrev routeOf (selection : Option (PollSelection count)) : Option (Fin count) :=
  selection.map PollSelection.route

/-- The same call has the same effect on both, when what is newer to the first is so to the
second. -/
theorem Alike.call {p' : PollPlanner count} (alike : p.Alike q) {c : PollCall}
    {selection : Option (PollSelection count)} (called : p.call c = some (selection, p'))
    (newer : p.revision < p'.revision → q.revision < p'.revision) :
    ∃ selection' q', q.call c = some (selection', q') ∧ routeOf selection' = routeOf selection ∧
      p'.Alike q' := by
  have old := alike.revision
  cases c with
  | install revision routes =>
    simp only [PollPlanner.call] at called ⊢
    cases presented : p.present revision routes with
    | ok m =>
      simp only [presented, Option.some.injEq, Prod.mk.injEq] at called
      obtain ⟨rfl, rfl⟩ := called
      obtain ⟨weights, wanted, resolved⟩ := present_eq_ok.mp presented
      have wanted' : q.wanted revision routes = .ok weights := by rwa [wanted_congr alike.queues]
      obtain ⟨rfl, rfl, rfl⟩ | ⟨later, rfl⟩ := resolve_eq_ok.mp resolved
      · -- A replay is one for the second planner too, or it is stale there.
        cases answer : q.present m.revision routes with
        | error e => exact ⟨none, q, rfl, rfl, alike⟩
        | ok n =>
          obtain ⟨weights, -, resolved⟩ := present_eq_ok.mp answer
          obtain ⟨-, -, rfl⟩ | ⟨later, -⟩ := resolve_eq_ok.mp resolved
          · exact ⟨none, n, rfl, rfl, alike⟩
          · omega
      · have ahead : q.revision < revision := newer later
        have answer := present_eq_ok.mpr ⟨weights, wanted', resolve_eq_ok.mpr (.inr ⟨ahead, rfl⟩)⟩
        exact ⟨none, _, by rw [answer], rfl, alike.adopt weights le_rfl⟩
    | error e =>
      simp only [presented, Option.some.injEq, Prod.mk.injEq] at called
      obtain ⟨rfl, rfl⟩ := called
      cases answer : q.present revision routes with
      | error e => exact ⟨none, q, rfl, rfl, alike⟩
      | ok n =>
        obtain ⟨weights, wanted, resolved⟩ := present_eq_ok.mp answer
        rw [wanted_congr alike.queues] at wanted
        obtain ⟨rfl, same, rfl⟩ | ⟨later, -⟩ := resolve_eq_ok.mp resolved
        · exact ⟨none, n, rfl, rfl, alike⟩
        · -- What is newer than the second planner is newer than the first.
          have accepted := present_eq_ok.mpr
            ⟨weights, wanted, resolve_eq_ok.mpr (.inr ⟨old.trans_lt later, rfl⟩)⟩
          rw [presented] at accepted
          cases accepted
  | issue =>
    simp only [PollPlanner.call, issueWithRevision, alike.totalWeight, alike.selector,
      alike.weights] at called ⊢
    by_cases idle : p.totalWeight = 0
    · rw [if_pos idle, Option.some.injEq, Prod.mk.injEq] at called
      obtain ⟨rfl, rfl⟩ := called
      exact ⟨none, q, by rw [if_pos idle], rfl, alike⟩
    · rw [if_neg idle, Option.map_eq_some_iff] at called
      obtain ⟨⟨route, selector⟩, issued, shape⟩ := called
      rw [Prod.mk.injEq] at shape
      obtain ⟨rfl, rfl⟩ := shape
      refine ⟨some ⟨route, q.revision⟩, { q with selector }, ?_, rfl, ?_⟩
      · rw [if_neg idle, issued, Option.map_some, alike.weights, alike.totalWeight]
      · exact ⟨alike.queues, alike.weights, alike.totalWeight, rfl, alike.revision⟩

def Proportional (p : PollPlanner count) (weights : Weights count)
    (routes : List (String × UInt32)) : Prop :=
  ∃ a b, 0 < a ∧ 0 < b ∧ ∀ route ∈ routes, ∀ i, route.1 = p.queues i →
    b * route.2.toNat = a * (weights i).toNat

theorem Requested.eq_of_proportional {routes : List (String × UInt32)} {v : Weights count}
    (requested : p.Requested routes v) (reduced : Reduced weights)
    (proportional : p.Proportional weights routes) : v = weights := by
  obtain ⟨g, positive, given⟩ := requested.given
  obtain ⟨a, b, ha, hb, scaled⟩ := proportional
  refine requested.reduced.eq_of_proportional reduced ha (Nat.mul_pos hb positive) fun i => ?_
  obtain ⟨route, mem, name, weight⟩ := given i
  rw [Nat.mul_assoc, ← weight]
  exact scaled route mem i name

/-- The calls of a pause. They select nothing, and the planner stays idle. -/
inductive Rests : PollPlanner count → List PollCall → PollPlanner count → Prop
  | done (p : PollPlanner count) : p.Rests [] p
  | next {p q r : PollPlanner count} {c : PollCall} {calls : List PollCall} :
    p.call c = some (none, q) → q.isIdle = true → q.Rests calls r → p.Rests (c :: calls) r

/-- Calls that are to leave no trace: a refused plan, a replay, a newer plan of proportional
weights, or a pause with the resumption after it. -/
inductive Ineffective (p : PollPlanner count) : List PollCall → PollPlanner count → Prop
  | refused {revision : Nat} {routes : List (String × UInt32)} {e : ContractError} :
    p.present revision routes = .error e → p.Ineffective [.install revision routes] p
  | replayed {routes : List (String × UInt32)} {q : PollPlanner count} :
    p.present p.revision routes = .ok q → p.Ineffective [.install p.revision routes] q
  | rescaled {revision : Nat} {routes : List (String × UInt32)} {q : PollPlanner count} :
    p.Proportional p.weights routes → p.present revision routes = .ok q →
    p.Ineffective [.install revision routes] q
  | paused {pause resume : Nat} {none' routes : List (String × UInt32)}
    {calls : List PollCall} {q r s : PollPlanner count} :
    (∀ route ∈ none', route.2 = 0) → p.present pause none' = .ok q → q.Rests calls r →
    p.Proportional p.weights routes → r.present resume routes = .ok s →
    p.Ineffective (.install pause none' :: (calls ++ [.install resume routes])) s

theorem isIdle_iff (tended : p.Tended) : p.isIdle = true ↔ ∀ i, p.weights i = 0 := by
  rw [isIdle, beq_iff_eq, tended.total, totalOf_eq_zero]

/-- A plan of proportional weights leaves at most a newer revision behind. -/
theorem Tended.present_proportional (tended : p.Tended) {revision : Nat}
    {routes : List (String × UInt32)} (proportional : p.Proportional p.weights routes)
    (accepted : p.present revision routes = .ok q) : p.Alike q := by
  obtain ⟨weights, wanted, resolved⟩ := present_eq_ok.mp accepted
  obtain rfl := (wanted_eq_ok wanted).eq_of_proportional tended.reduced proportional
  obtain ⟨-, -, rfl⟩ | ⟨later, rfl⟩ := resolve_eq_ok.mp resolved
  · exact .refl q
  · have kept := Alike.adopt (.refl p) p.weights (le_refl revision)
    have queues := adopt_queues (p := p) p.weights revision
    have weights := adopt_weights (p := p) p.weights revision
    have selector := adopt_selector (p := p) p.weights revision
    rw [if_neg (not_not.mpr rfl)] at selector
    exact ⟨queues, weights, by simp [PollPlanner.adopt], selector, later.le⟩

structure Pauses (p q : PollPlanner count) : Prop where
  queues : q.queues = p.queues
  selector : q.selector = p.selector
  idle : ∀ i, q.weights i = 0
  revision : p.revision ≤ q.revision

theorem configure_idle (selector : Selector count) (idle : ∀ i, weights i = 0) :
    selector.configure weights = selector := by
  cases selector with
  | stride s =>
    have ineffective : ¬ s.Effective weights := fun effective => effective (.inl idle)
    rw [Selector.configure, Stride.configure_of_not ineffective]
  | lottery l => rfl

theorem Requested.eq_zero {routes : List (String × UInt32)} (requested : p.Requested routes weights)
    (zero : ∀ route ∈ routes, route.2 = 0) (i : Fin count) : weights i = 0 := by
  obtain ⟨g, positive, given⟩ := requested.given
  obtain ⟨route, mem, -, weight⟩ := given i
  rw [zero route mem] at weight
  have none' : (weights i).toNat = 0 :=
    (Nat.mul_eq_zero.mp weight.symm).resolve_left positive.ne'
  exact UInt32.toNat_inj.mp none'

theorem Pauses.of_present {revision : Nat} {routes : List (String × UInt32)}
    (accepted : p.present revision routes = .ok q) (idle : ∀ i, q.weights i = 0) :
    p.Pauses q := by
  obtain ⟨weights, -, resolved⟩ := present_eq_ok.mp accepted
  obtain ⟨-, -, rfl⟩ | ⟨later, rfl⟩ := resolve_eq_ok.mp resolved
  · exact ⟨rfl, rfl, idle, le_rfl⟩
  · refine ⟨adopt_queues _ _, ?_, idle, later.le⟩
    rw [adopt_weights] at idle
    rw [adopt_selector, configure_idle _ idle, ite_self]

theorem Pauses.trans (first : p.Pauses q) (second : q.Pauses r) : p.Pauses r :=
  ⟨second.queues.trans first.queues, second.selector.trans first.selector, second.idle,
    first.revision.trans second.revision⟩

theorem Rests.pauses {calls : List PollCall} (rests : q.Rests calls r) (tended : q.Tended)
    (idle : ∀ i, q.weights i = 0) : q.serve calls = some ([], r) ∧ r.Tended ∧ q.Pauses r := by
  induction rests with
  | done p => exact ⟨rfl, tended, rfl, rfl, idle, le_rfl⟩
  | @next p q r c calls called still rests ih =>
    have kept := tended.after called
    have idle' := (isIdle_iff kept).mp still
    obtain ⟨served, last, later⟩ := ih kept idle'
    refine ⟨by simp [PollPlanner.serve, called, served], last, Pauses.trans ?_ later⟩
    cases c with
    | install revision routes =>
      cases presented : p.present revision routes with
      | error e =>
        obtain rfl : p = q := by simpa [PollPlanner.call, presented] using called
        exact ⟨rfl, rfl, idle, le_rfl⟩
      | ok n =>
        obtain rfl : n = q := by simpa [PollPlanner.call, presented] using called
        exact .of_present presented idle'
    | issue =>
      have none' : p.totalWeight = 0 := by
        rwa [tended.total, totalOf_eq_zero]
      obtain rfl : p = q := by
        simpa [PollPlanner.call, issueWithRevision, none'] using called
      exact ⟨rfl, rfl, idle, le_rfl⟩

theorem Pauses.resume (pauses : p.Pauses q) (tended : p.Tended) (tended' : q.Tended)
    {revision : Nat} {routes : List (String × UInt32)}
    (proportional : p.Proportional p.weights routes)
    (accepted : q.present revision routes = .ok r) : p.Alike r := by
  obtain ⟨weights, wanted, resolved⟩ := present_eq_ok.mp accepted
  rw [wanted_congr pauses.queues] at wanted
  obtain rfl := (wanted_eq_ok wanted).eq_of_proportional tended.reduced proportional
  obtain ⟨-, same, rfl⟩ | ⟨later, rfl⟩ := resolve_eq_ok.mp resolved
  · refine ⟨pauses.queues, same.symm, ?_, pauses.selector, pauses.revision⟩
    rw [tended.total, tended'.total, same]
  · have kept : q.selector.configure p.weights = q.selector := by
      cases using' : q.selector with
      | stride s =>
        have current := tended.current s (pauses.selector.symm.trans using')
        have ineffective : ¬ s.Effective p.weights := fun effective => effective current
        rw [Selector.configure, Stride.configure_of_not ineffective]
      | lottery l => rfl
    refine ⟨(adopt_queues _ _).trans pauses.queues, adopt_weights _ _, ?_, ?_,
      pauses.revision.trans later.le⟩
    · rw [(tended'.adopt tended.reduced revision).total, adopt_weights, tended.total]
    · rw [adopt_selector, kept, ite_self, pauses.selector]

theorem serve_append {calls later : List PollCall} {selections : List (PollSelection count)}
    (first : p.serve calls = some (selections, q)) :
    p.serve (calls ++ later) = (q.serve later).map fun (rest, r) => (selections ++ rest, r) := by
  induction calls generalizing p selections with
  | nil =>
    obtain ⟨rfl, rfl⟩ : [] = selections ∧ p = q := by simpa [PollPlanner.serve] using first
    rw [List.nil_append]
    cases p.serve later with
    | none => rfl
    | some x => rfl
  | cons c calls ih =>
    simp only [PollPlanner.serve, Option.bind_eq_bind, Option.bind_eq_some_iff, Option.pure_def,
      Option.some.injEq, Prod.mk.injEq] at first
    obtain ⟨⟨selection, m⟩, called, ⟨rest, n⟩, served, rfl, rfl⟩ := first
    simp only [List.cons_append, PollPlanner.serve, called, Option.bind_eq_bind, Option.bind_some,
      ih served]
    cases n.serve later with
    | none => rfl
    | some x => simp

/-- Ineffective calls select nothing and leave a planner that decides alike. -/
theorem Ineffective.alike {calls : List PollCall} (ineffective : p.Ineffective calls q)
    (tended : p.Tended) : p.serve calls = some ([], q) ∧ q.Tended ∧ p.Alike q := by
  cases ineffective with
  | refused rejected => exact ⟨by simp [serve, PollPlanner.call, rejected], tended, .refl p⟩
  | replayed accepted =>
    refine ⟨by simp [serve, PollPlanner.call, accepted], (tended.present accepted).1, ?_⟩
    obtain ⟨weights, -, resolved⟩ := present_eq_ok.mp accepted
    obtain ⟨-, -, rfl⟩ | ⟨later, -⟩ := resolve_eq_ok.mp resolved
    · exact .refl q
    · omega
  | rescaled proportional accepted =>
    exact ⟨by simp [serve, PollPlanner.call, accepted], (tended.present accepted).1,
      tended.present_proportional proportional accepted⟩
  | @paused pause resume none' routes calls m n _ zero paused rests proportional resumed =>
    obtain ⟨weights, wanted, resolved⟩ := present_eq_ok.mp paused
    have idle : ∀ i, m.weights i = 0 := by
      have zeros := (wanted_eq_ok wanted).eq_zero zero
      obtain ⟨-, rfl, rfl⟩ | ⟨-, rfl⟩ := resolve_eq_ok.mp resolved
      · exact zeros
      · rwa [adopt_weights]
    obtain ⟨served, kept, later⟩ := rests.pauses (tended.present paused).1 idle
    have pauses := (Pauses.of_present paused idle).trans later
    have answered : n.serve [.install resume routes] = some ([], q) := by
      simp [serve, PollPlanner.call, resumed]
    have all : m.serve (calls ++ [.install resume routes]) = some ([], q) := by
      rw [serve_append served, answered]
      rfl
    refine ⟨?_, (kept.present resumed).1, pauses.resume tended kept proportional resumed⟩
    simp [serve, PollPlanner.call, paused, all]

/-- The second sequence of calls is the first with ineffective ones put in. A call that gives the
first planner a newer revision gives it to the second one too. -/
inductive Inserted : PollPlanner count → PollPlanner count → List PollCall → List PollCall → Prop
  | done {p q : PollPlanner count} : Inserted p q [] []
  | kept {p p' q q' : PollPlanner count} {c : PollCall} {cs ds : List PollCall}
    {x y : Option (PollSelection count)} : p.call c = some (x, p') → q.call c = some (y, q') →
    (p.revision < p'.revision → q.revision < p'.revision) → Inserted p' q' cs ds →
    Inserted p q (c :: cs) (c :: ds)
  | block {p q q' : PollPlanner count} {calls cs ds : List PollCall} : q.Ineffective calls q' →
    Inserted p q' cs ds → Inserted p q cs (calls ++ ds)

theorem Inserted.same_routes {cs ds : List PollCall} (inserted : Inserted p q cs ds)
    (tended : p.Tended) (tended' : q.Tended) (alike : p.Alike q) :
    ∃ selections selections' r r', p.serve cs = some (selections, r) ∧
      q.serve ds = some (selections', r') ∧
      selections'.map PollSelection.route = selections.map PollSelection.route := by
  induction inserted with
  | done => exact ⟨[], [], _, _, rfl, rfl, rfl⟩
  | @kept p p' q q' c cs ds x y called answered newer rest ih =>
    obtain ⟨_, _, answer, route, alike'⟩ := alike.call called newer
    obtain ⟨rfl, rfl⟩ := Prod.mk.inj (Option.some.inj (answered.symm.trans answer))
    obtain ⟨selections, selections', r, r', served, served', routes⟩ :=
      ih (tended.after called) (tended'.after answered) alike'
    refine ⟨x.toList ++ selections, y.toList ++ selections', r, r',
      by simp [serve, called, served], by simp [serve, answered, served'], ?_⟩
    have first : y.toList.map PollSelection.route = x.toList.map PollSelection.route := by
      rw [← Option.toList_map, ← Option.toList_map]
      exact congrArg Option.toList route
    rw [List.map_append, List.map_append, first, routes]
  | block ineffective rest ih =>
    obtain ⟨silent, kept, later⟩ := ineffective.alike tended'
    obtain ⟨selections, selections', r, r', served, served', routes⟩ :=
      ih tended kept (alike.trans later)
    refine ⟨selections, selections', r, r', served, ?_, routes⟩
    rw [serve_append silent, served']
    rfl

theorem new_tended {revision : Nat} {routes : List (String × UInt32)} {plan : PollPlan}
    (made : PollPlan.new revision routes = .ok plan) (strategy : PollStrategy) (random : UInt64) :
    (new plan strategy random).Tended := by
  obtain ⟨-, normalized, few⟩ := PollPlan.new_eq_ok made
  refine ⟨few, rfl, ?_, fun s using' => ?_, fun s using' => ?_⟩
  · have requested : (new plan strategy random).Requested routes
        (new plan strategy random).weights := by
      refine requested_of_listed (fun i => ?_) fun route mem => ?_
      · rw [← normalized]
        exact List.get_mem plan.routes i
      · rw [← normalized] at mem
        obtain ⟨i, rfl⟩ := List.get_of_mem mem
        exact ⟨i, rfl⟩
    exact requested.reduced
  · cases strategy with
    | stride =>
      cases using'
      exact Stride.new_bounded.configure _
    | lottery => cases using'
    | seededLottery seed => cases using'
  · cases strategy with
    | stride =>
      cases using'
      exact Stride.lastActive_configure _ _
    | lottery => cases using'
    | seededLottery seed => cases using'

/-- Calls put in between that are to leave no trace do not change what the others select, and the
selections' revisions never decrease. -/
theorem ineffective_updates_invisible {revision : Nat} {routes : List (String × UInt32)}
    {plan : PollPlan} (made : PollPlan.new revision routes = .ok plan) (strategy : PollStrategy)
    (random : UInt64) :
    (∀ calls, ∃ selections q, (new plan strategy random).serve calls = some (selections, q) ∧
      (selections.map PollSelection.revision).Pairwise (· ≤ ·)) ∧
    ∀ cs ds, Inserted (new plan strategy random) (new plan strategy random) cs ds →
      ∃ selections selections' q q', (new plan strategy random).serve cs = some (selections, q) ∧
        (new plan strategy random).serve ds = some (selections', q') ∧
        selections'.map PollSelection.route = selections.map PollSelection.route := by
  have tended := new_tended made strategy random
  refine ⟨fun calls => ?_, fun cs ds inserted => ?_⟩
  · obtain ⟨selections, q, served, -, sorted, -⟩ := tended.serve calls
    exact ⟨selections, q, served, sorted⟩
  · exact inserted.same_routes tended tended (.refl _)

def evenPlan : PollPlan :=
  ⟨0, [("a", 1), ("b", 1)], by decide⟩

/-- A rescaled plan before a call and a refused one after it. -/
theorem even_plan_rescaled : ∃ q m : PollPlanner evenPlan.routes.length,
    (new evenPlan .stride 0).Ineffective [.install 2 [("b", 2), ("a", 2)]] q ∧
    m.Ineffective [.install 3 []] m ∧
    ∃ selections selections' r r', (new evenPlan .stride 0).serve [.issue] = some (selections, r) ∧
      (new evenPlan .stride 0).serve [.install 2 [("b", 2), ("a", 2)], .issue, .install 3 []] =
        some (selections', r') ∧
      selections'.map PollSelection.route = selections.map PollSelection.route := by
  have made : PollPlan.new 0 [("a", 1), ("b", 1)] = .ok evenPlan := rfl
  obtain ⟨q, accepted⟩ : ∃ q, (new evenPlan .stride 0).present 2 [("b", 2), ("a", 2)] = .ok q :=
    ⟨_, rfl⟩
  have rescaled : (new evenPlan .stride 0).Ineffective [.install 2 [("b", 2), ("a", 2)]] q :=
    .rescaled ⟨2, 1, by decide, by decide, by decide⟩ accepted
  obtain ⟨x, p', called, old⟩ : ∃ x p', (new evenPlan .stride 0).call .issue = some (x, p') ∧
      p'.revision = 0 := ⟨_, _, rfl, rfl⟩
  have tended := (new_tended made .stride 0).present accepted
  obtain ⟨y, m, answered, -⟩ := tended.1.call .issue
  have refused : m.Ineffective [.install 3 []] m := .refused rfl
  refine ⟨q, m, rescaled, refused, ?_⟩
  refine (ineffective_updates_invisible made .stride 0).2 _ _ (.block rescaled ?_)
  refine .kept called answered (fun newer => ?_) (.block refused .done)
  rw [old] at newer
  exact absurd newer (Nat.not_lt_zero _)

def queuesOf (p : PollPlanner count) (calls : List PollCall) : Option (List String) :=
  (p.serve calls).map fun (selections, _) => selections.map fun x => p.queues x.route

/-- Even weights of a newer revision change nothing, but then an older plan comes too late. -/
theorem newer_revision_shadows : ∃ q,
    (new evenPlan .stride 0).Ineffective [.install 2 [("b", 2), ("a", 2)]] q ∧
    (new evenPlan .stride 0).queuesOf [.install 1 [("a", 0), ("b", 1)], .issue] = some ["b"] ∧
    (new evenPlan .stride 0).queuesOf
      ([.install 2 [("b", 2), ("a", 2)]] ++ [.install 1 [("a", 0), ("b", 1)], .issue]) =
        some ["a"] := by
  obtain ⟨q, accepted⟩ : ∃ q, (new evenPlan .stride 0).present 2 [("b", 2), ("a", 2)] = .ok q :=
    ⟨_, rfl⟩
  refine ⟨q, .rescaled ⟨2, 1, by decide, by decide, by decide⟩ accepted, ?_, ?_⟩
  · decide +kernel
  · decide +kernel

end PollPlanner
end Ledgence
