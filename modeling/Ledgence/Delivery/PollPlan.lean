import Ledgence.Kit.Least
import Ledgence.Kit.Passes
import Ledgence.Worker.Invocation
import Mathlib.Data.List.FinRange
import Mathlib.Data.Fintype.Pi
import Ledgence.Api.Submission

/-! Selecting the route of each fresh poll: by strides or by lottery. -/
open Kit Kit.Checked

namespace Ledgence

abbrev Weights (count : Nat) := Fin count → UInt32

def activeRoutes {count : Nat} (weights : Weights count) : List (Fin count) :=
  (List.finRange count).filter fun i => weights i != 0

/-- A whole turn. A static stride is exactly `quantum / weight`. -/
def quantum : Nat := 2 ^ 32

/-- The pass of route `i` is `numerator i / nominal i`. -/
structure Stride (count : Nat) where
  numerator : Fin count → Nat
  nominal : Weights count
  lastActive : Weights count

namespace Stride
variable {count : Nat}

def new (count : Nat) : Stride count :=
  ⟨fun _ => 0, fun _ => 1, fun _ => 0⟩

def weight (s : Stride count) (i : Fin count) : Nat :=
  (s.nominal i).toNat

def passLe (s : Stride count) (a b : Fin count) : Bool :=
  s.numerator a * s.weight b ≤ s.numerator b * s.weight a

def lowest (s : Stride count) (weights : Weights count) : Option (Fin count) :=
  Least.minBy s.passLe (activeRoutes weights)

def rebase (s : Stride count) : Stride count :=
  match s.lowest s.lastActive with
  | none => s
  | some first =>
    { s with
      numerator := fun i => s.numerator i -
        min (s.numerator first * s.weight i / s.weight first) u64Max }

def Effective (s : Stride count) (weights : Weights count) : Prop :=
  ¬ ((∀ i, weights i = 0) ∨ weights = s.lastActive)

instance (s : Stride count) (weights : Weights count) : Decidable (s.Effective weights) :=
  inferInstanceAs (Decidable (¬ (_ ∨ _)))

def configure (s : Stride count) (weights : Weights count) : Stride count :=
  if s.Effective weights then
    { s.rebase with
      nominal := fun i => if weights i ≠ 0 then weights i else s.nominal i
      lastActive := weights }
  else s

/-- The numerators after one more turn of `selected`, in wrapping 64-bit arithmetic. -/
def served (s : Stride count) (selected : Fin count) : Fin count → Nat :=
  Function.update s.numerator selected ((s.numerator selected + quantum) % 2 ^ 64)

def issue (s : Stride count) (weights : Weights count) : Option (Fin count × Stride count) := do
  let selected ← s.lowest weights
  let numerator := s.served selected
  -- All passes slide back by the same whole ticks, so that numerators stay bounded.
  let ticks ← ((activeRoutes weights).map fun i => numerator i / s.weight i).min?
  return (selected,
    { s with numerator := fun i => numerator i - saturatingMul u64Max ticks (s.weight i) })

end Stride

structure Lottery where
  state : UInt64

namespace Lottery
variable {count : Nat}

def word (l : Lottery) : UInt64 × Lottery :=
  let state := l.state + 0x9e3779b97f4a7c15
  let word := (state ^^^ (state >>> 30)) * 0xbf58476d1ce4e5b9
  let word := (word ^^^ (word >>> 27)) * 0x94d049bb133111eb
  (word ^^^ (word >>> 31), ⟨state⟩)

/-- Words below the cutoff are drawn again. The stream has period `2 ^ 64`. -/
def draw (cutoff : UInt64) : Nat → Lottery → Option (UInt64 × Lottery)
  | 0, _ => none
  | fuel + 1, l =>
    if cutoff ≤ l.word.1 then some l.word else draw cutoff fuel l.word.2

def pick (weights : Weights count) : Nat → List (Fin count) → Option (Fin count)
  | _, [] => none
  | ticket, i :: routes =>
    if ticket < (weights i).toNat then some i else pick weights (ticket - (weights i).toNat) routes

def issue (l : Lottery) (weights : Weights count) (total : Nat) :
    Option (Fin count × Lottery) := do
  let total := UInt64.ofNat total
  let (word, l) ← l.draw ((0 - total) % total) (2 ^ 64)
  let route ← pick weights (word % total).toNat (List.finRange count)
  return (route, l)

end Lottery

inductive PollStrategy where
  | stride
  | lottery
  | seededLottery (seed : UInt64)

inductive Selector (count : Nat) where
  | stride (stride : Stride count)
  | lottery (lottery : Lottery)

namespace Selector
variable {count : Nat}

/-- `random` is the seed that the process draws for an unseeded lottery. -/
def new (strategy : PollStrategy) (random : UInt64) (weights : Weights count) : Selector count :=
  match strategy with
  | .stride => .stride ((Stride.new count).configure weights)
  | .lottery => .lottery ⟨random⟩
  | .seededLottery seed => .lottery ⟨seed⟩

def configure (selector : Selector count) (weights : Weights count) : Selector count :=
  match selector with
  | .stride s => .stride (s.configure weights)
  | .lottery l => .lottery l

/-- A missing result is a panic of the source. -/
def issue (selector : Selector count) (weights : Weights count) (total : Nat) :
    Option (Fin count × Selector count) :=
  match selector with
  | .stride s => (s.issue weights).map fun (route, s) => (route, .stride s)
  | .lottery l => (l.issue weights total).map fun (route, l) => (route, .lottery l)

end Selector
end Ledgence

/-! Worker-local distribution of fresh polls across a fixed set of queues. -/

namespace Ledgence

def maxPollQueues : Nat := 64

def checkRoute (names : List String) (route : String × UInt32) : Result (List String) := do
  validateText route.1 128
  refuse (route.1 ∈ names) (invalid "duplicate queue in poll plan")
  return route.1 :: names

theorem checkRoute_nodup {routes : List (String × UInt32)} {names seen : List String}
    (accepted : routes.foldlM checkRoute names = .ok seen) (fresh : names.Nodup) :
    (routes.map Prod.fst).Nodup ∧ ∀ route ∈ routes, route.1 ∉ names := by
  induction routes generalizing names with
  | nil => simp
  | cons route routes ih =>
    obtain ⟨next, first, rest⟩ := foldlM_cons_ok.mp accepted
    simp only [checkRoute, bind_eq_ok, refuse_eq_ok, exists_unit, pure_eq_ok] at first
    obtain ⟨-, unseen, rfl⟩ := first
    obtain ⟨unique, later⟩ := ih rest (List.nodup_cons.mpr ⟨unseen, fresh⟩)
    refine ⟨?_, ?_⟩
    · rw [List.map_cons, List.nodup_cons]
      refine ⟨fun repeated => ?_, unique⟩
      obtain ⟨other, mem, same⟩ := List.mem_map.mp repeated
      exact later other mem (by simp [same])
    · intro other mem
      obtain rfl | mem := List.mem_cons.mp mem
      · exact unseen
      · exact fun seen => later other mem (List.mem_cons_of_mem _ seen)

def divisor (routes : List (String × UInt32)) : Nat :=
  routes.foldl (fun divisor route => Nat.gcd divisor route.2.toNat) 0

def normalize (routes : List (String × UInt32)) : List (String × UInt32) :=
  if 1 < divisor routes then
    routes.map fun route => (route.1, UInt32.ofNat (route.2.toNat / divisor routes))
  else routes

theorem names_normalize (routes : List (String × UInt32)) :
    (normalize routes).map Prod.fst = routes.map Prod.fst := by
  by_cases h : 1 < divisor routes
  · rw [normalize, if_pos h, List.map_map]
    rfl
  · rw [normalize, if_neg h]

structure PollPlan where
  revision : Nat
  routes : List (String × UInt32)
  unique : (routes.map Prod.fst).Nodup

def PollPlan.new (revision : Nat) (routes : List (String × UInt32)) : Result PollPlan :=
  if ¬ (1 ≤ routes.length ∧ routes.length ≤ maxPollQueues) then
    .error (invalid "a poll plan must contain 1 to 64 queues")
  else
    match checked : routes.foldlM checkRoute [] with
    | .error e => .error e
    | .ok _ => .ok ⟨revision, normalize routes,
        (names_normalize routes).symm ▸ (checkRoute_nodup checked List.nodup_nil).1⟩

structure PollSelection (count : Nat) where
  route : Fin count
  revision : Nat
  deriving DecidableEq

/-- The planner of `count` registered queues. `notified` is the revision last announced. -/
structure PollPlanner (count : Nat) where
  queues : Fin count → String
  revision : Nat
  weights : Weights count
  totalWeight : Nat
  selector : Selector count
  notified : Nat

def totalOf {count : Nat} (weights : Weights count) : Nat :=
  ((List.finRange count).map fun i => (weights i).toNat).sum

namespace PollPlanner

def new (plan : PollPlan) (strategy : PollStrategy) (random : UInt64) :
    PollPlanner plan.routes.length :=
  let weights : Weights plan.routes.length := fun i => (plan.routes.get i).2
  { queues := fun i => (plan.routes.get i).1
    revision := plan.revision
    weights := weights
    totalWeight := totalOf weights
    selector := Selector.new strategy random weights
    notified := plan.revision }

variable {count : Nat}

def isIdle (p : PollPlanner count) : Bool :=
  p.totalWeight == 0

def index (p : PollPlanner count) (queue : String) : Option (Fin count) :=
  (List.finRange count).find? fun i => p.queues i = queue

def place (p : PollPlanner count) (weights : Weights count) (route : String × UInt32) :
    Result (Weights count) := do
  let i ← okOr (p.index route.1) (invalid "unknown queue in poll plan")
  return Function.update weights i route.2

def adopt (p : PollPlanner count) (weights : Weights count) (revision : Nat) : PollPlanner count :=
  let p :=
    if weights ≠ p.weights then
      { p with
        selector := p.selector.configure weights
        totalWeight := totalOf weights
        weights := weights }
    else p
  { p with revision := revision, notified := max p.notified revision }

def install (p : PollPlanner count) (plan : PollPlan) : Result (PollPlanner count) := do
  refuse (plan.routes.length ≠ count)
    (invalid "a poll plan cannot change the worker's registered queues")
  let weights ← plan.routes.foldlM p.place fun _ => 0
  refuse (plan.revision < p.revision) (invalid "stale poll plan revision")
  if plan.revision = p.revision then
    refuse (weights ≠ p.weights) (invalid "conflicting poll plan revision")
    return p
  else return p.adopt weights plan.revision

/-- An idle planner selects nothing. A missing result is a panic of the source. -/
def issueWithRevision (p : PollPlanner count) :
    Option (Option (PollSelection count) × PollPlanner count) :=
  if p.totalWeight = 0 then some (none, p)
  else (p.selector.issue p.weights p.totalWeight).map fun (route, selector) =>
    (some ⟨route, p.revision⟩, { p with selector })

def issue (p : PollPlanner count) : Option (Option (Fin count) × PollPlanner count) :=
  p.issueWithRevision.map fun (selection, p) => (selection.map PollSelection.route, p)

end PollPlanner

inductive PollOp where
  | install (plan : PollPlan)
  | issue

namespace PollPlanner
variable {count : Nat}

def apply (p : PollPlanner count) : PollOp → Option (Option (Fin count) × PollPlanner count)
  | .install plan =>
    match p.install plan with
    | .ok q => some (none, q)
    | .error _ => some (none, p)
  | .issue => p.issue

def run (p : PollPlanner count) : List PollOp → Option (List (Fin count) × PollPlanner count)
  | [] => some ([], p)
  | op :: ops => do
    let (route, q) ← p.apply op
    let (routes, r) ← q.run ops
    return (route.toList ++ routes, r)

end PollPlanner
end Ledgence
