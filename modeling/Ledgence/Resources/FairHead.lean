import Ledgence.Ledger.Transactions
import Ledgence.Kit.Least
import Ledgence.Kit.Rotation

/-! Validated policies of fair sharing: their groups, their weights in lowest terms, and the group
that a queue belongs to. -/
open Kit Kit.Checked

namespace Ledgence
namespace ResourceFairSharing

def groupFor (p : ResourceFairSharing) (queue : String) : Option ResourceFairGroup :=
  (p.groups.find? fun g => g.queues.any (· = queue)).or
    (p.groups.find? fun g => g.name = p.defaultGroup)

/-- The weight of the group at `index` in lowest terms. -/
def share (p : ResourceFairSharing) (index : Nat) : Nat :=
  (p.groups[index]?.map fun g => g.weight / p.divisor).getD 0

/-- What `validate` guarantees of the groups. -/
structure WellFormed (p : ResourceFairSharing) : Prop where
  groups : p.groups ≠ []
  few : p.groups.length ≤ resourceFairGroupLimit
  names : (p.groups.map ResourceFairGroup.name).Nodup
  weights : ∀ g ∈ p.groups, 1 ≤ g.weight ∧ g.weight ≤ resourceFairWeightMax
  queues : (p.groups.flatMap ResourceFairGroup.queues).Nodup
  default : ∃ g ∈ p.groups, g.name = p.defaultGroup

theorem checkQueue_spec {seen next : Seen} {queue : String}
    (h : checkQueue seen queue = .ok next) :
    next.names = seen.names ∧ next.queues = queue :: seen.queues ∧ queue ∉ seen.queues := by
  simp only [checkQueue, bind_eq_ok, validateText_eq_ok, refuse_eq_ok, pure_eq_ok, exists_unit,
    not_or] at h
  obtain ⟨-, ⟨fresh, -⟩, rfl⟩ := h
  exact ⟨rfl, rfl, fresh⟩

theorem checkQueues_spec {queues : List String} {seen next : Seen}
    (h : queues.foldlM checkQueue seen = .ok next) :
    next.names = seen.names ∧ next.queues = queues.reverse ++ seen.queues ∧
      (seen.queues.Nodup → next.queues.Nodup) := by
  induction queues generalizing seen with
  | nil =>
    cases h
    exact ⟨rfl, rfl, id⟩
  | cons queue queues ih =>
    obtain ⟨first, one, rest⟩ := foldlM_cons_ok.mp h
    obtain ⟨names, added, fresh⟩ := checkQueue_spec one
    obtain ⟨same, all, nodup⟩ := ih rest
    refine ⟨same.trans names, ?_, fun distinct => nodup ?_⟩
    · rw [all, added, List.reverse_cons, List.append_assoc, List.singleton_append]
    · rw [added]
      exact List.nodup_cons.mpr ⟨fresh, distinct⟩

theorem checkGroup_spec {seen next : Seen} {group : ResourceFairGroup}
    (h : checkGroup seen group = .ok next) :
    next.names = group.name :: seen.names ∧ group.name ∉ seen.names ∧
      (1 ≤ group.weight ∧ group.weight ≤ resourceFairWeightMax) ∧
      next.queues = group.queues.reverse ++ seen.queues ∧
      (seen.queues.Nodup → next.queues.Nodup) := by
  simp only [checkGroup, bind_eq_ok, refuse_eq_ok, exists_unit, not_or, not_not] at h
  obtain ⟨-, ⟨fresh, weight⟩, queues⟩ := h
  obtain ⟨names, all, nodup⟩ := checkQueues_spec queues
  exact ⟨names, fresh, weight, all, nodup⟩

theorem checkGroups_spec {groups : List ResourceFairGroup} {seen next : Seen}
    (h : groups.foldlM checkGroup seen = .ok next) :
    next.names = (groups.map ResourceFairGroup.name).reverse ++ seen.names ∧
      (seen.names.Nodup → next.names.Nodup) ∧
      (∀ g ∈ groups, 1 ≤ g.weight ∧ g.weight ≤ resourceFairWeightMax) ∧
      next.queues = (groups.flatMap ResourceFairGroup.queues).reverse ++ seen.queues ∧
      (seen.queues.Nodup → next.queues.Nodup) := by
  induction groups generalizing seen with
  | nil =>
    cases h
    exact ⟨rfl, id, by simp, rfl, id⟩
  | cons group groups ih =>
    obtain ⟨first, one, rest⟩ := foldlM_cons_ok.mp h
    obtain ⟨named, fresh, weight, added, distinct⟩ := checkGroup_spec one
    obtain ⟨names, unique, weights, queues, nodup⟩ := ih rest
    refine ⟨?_, fun other => unique ?_, ?_, ?_, nodup ∘ distinct⟩
    · rw [names, named, List.map_cons, List.reverse_cons, List.append_assoc, List.singleton_append]
    · rw [named]
      exact List.nodup_cons.mpr ⟨fresh, other⟩
    · exact List.forall_mem_cons.mpr ⟨weight, weights⟩
    · rw [queues, added, List.flatMap_cons, List.reverse_append, List.append_assoc]

theorem wellFormed_of_validate {p : ResourceFairSharing} {u : Unit} (valid : p.validate = .ok u) :
    p.WellFormed := by
  simp only [validate, bind_eq_ok, refuse_eq_ok, exists_unit, not_not] at valid
  obtain ⟨⟨some', few⟩, seen, groups, named, -⟩ := valid
  obtain ⟨names, unique, weights, queues, distinct⟩ := checkGroups_spec groups
  have plain := unique List.nodup_nil
  have apart := distinct List.nodup_nil
  rw [List.append_nil] at names queues
  rw [names, List.nodup_reverse] at plain
  rw [queues, List.nodup_reverse] at apart
  rw [names, List.mem_reverse, List.mem_map] at named
  refine ⟨?_, few, plain, weights, apart, named⟩
  rintro empty
  rw [empty] at some'
  cases some'

/- Weights in lowest terms. -/

theorem foldl_gcd_dvd (groups : List ResourceFairGroup) (start : Nat) :
    groups.foldl (fun d group => Nat.gcd d group.weight) start ∣ start ∧
      ∀ g ∈ groups, groups.foldl (fun d group => Nat.gcd d group.weight) start ∣ g.weight := by
  induction groups generalizing start with
  | nil => simp
  | cons group groups ih =>
    obtain ⟨below, each⟩ := ih (Nat.gcd start group.weight)
    rw [List.foldl_cons]
    refine ⟨below.trans (Nat.gcd_dvd_left _ _), List.forall_mem_cons.mpr ⟨?_, each⟩⟩
    exact below.trans (Nat.gcd_dvd_right _ _)

theorem divisor_dvd (p : ResourceFairSharing) {g : ResourceFairGroup} (mem : g ∈ p.groups) :
    p.divisor ∣ g.weight :=
  (foldl_gcd_dvd p.groups 0).2 g mem

theorem WellFormed.divide {p : ResourceFairSharing} (sound : p.WellFormed) {g : ResourceFairGroup}
    (mem : g ∈ p.groups) : 1 ≤ g.weight / p.divisor := by
  have weight := (sound.weights g mem).1
  have divides := p.divisor_dvd mem
  exact Nat.div_pos (Nat.le_of_dvd weight divides) (Nat.pos_of_dvd_of_pos divides weight)

theorem share_eq {p : ResourceFairSharing} {i : Nat} {g : ResourceFairGroup}
    (found : p.groups[i]? = some g) : p.share i = g.weight / p.divisor := by
  rw [share, found]
  rfl

theorem WellFormed.share_pos {p : ResourceFairSharing} (sound : p.WellFormed) {i : Nat}
    (inside : i < p.groups.length) : 1 ≤ p.share i := by
  rw [share_eq (List.getElem?_eq_getElem inside)]
  exact sound.divide (List.getElem_mem inside)

theorem lt_of_share_pos {p : ResourceFairSharing} {i : Nat} (positive : 1 ≤ p.share i) :
    i < p.groups.length := by
  by_contra outside
  rw [share, List.getElem?_eq_none (Nat.le_of_not_lt outside)] at positive
  cases positive

end ResourceFairSharing
end Ledgence

/-! The weighted choice of the next offer of a resource, and the cursor and the decision that record
it. -/

namespace Ledgence

/- Decisions. -/

inductive ResourceDecisionReason where
  | weighted
  | soleEligible
  deriving DecidableEq

inductive ResourceDecisionSubject where
  | task (taskId : String) (generation : Nat)
  | workflow (workflowId originActivationId key : String)
  | provider (workflowId originActivationId key : String)
  deriving DecidableEq

def ResourceDecisionSubject.validate : ResourceDecisionSubject → Result Unit
  | .task taskId generation => do
    validateText taskId 128
    refuse (¬ (1 ≤ generation ∧ generation ≤ maxTaskAttemptGeneration))
      (invalid "invalid task generation in resource decision")
  | .workflow workflowId originActivationId key | .provider workflowId originActivationId key =>
    [workflowId, originActivationId, key].forM fun id => validateText id 128

structure ResourceOfferDecision where
  scope : Scope
  resource : String
  sequence : Nat
  policyRevision : Nat
  group : String
  weight : Nat
  eligibleGroups : Nat
  cycleRound : Nat
  reason : ResourceDecisionReason
  queue : String
  subject : ResourceDecisionSubject
  offerGeneration : Nat
  offeredAt : Nat
  deriving DecidableEq

def ResourceOfferDecision.validate (d : ResourceOfferDecision) : Result Unit := do
  d.scope.validate
  resourceName d.resource
  resourceName d.group
  validateText d.queue 128
  d.subject.validate
  admissionTime d.offeredAt
  refuse (d.sequence = 0 ∨ d.policyRevision = 0 ∨ d.offerGeneration = 0 ∨
      ¬ (1 ≤ d.weight ∧ d.weight ≤ resourceFairWeightMax) ∨
      ¬ (1 ≤ d.eligibleGroups ∧ d.eligibleGroups ≤ resourceFairGroupLimit) ∨
      ¬ (1 ≤ d.cycleRound ∧ d.cycleRound ≤ d.weight) ∨
      ¬ (d.reason = .soleEligible ↔ d.eligibleGroups = 1))
    (invalid "inconsistent weighted resource offer decision")

/- The choice. -/

/-- The round and the position of the last offer, `⟨0, -1⟩` before any. -/
structure FairCursor where
  round : Nat
  index : Int
  deriving DecidableEq

def FairCursor.initial : FairCursor := ⟨0, -1⟩

structure FairVisit where
  wrapped : Bool
  round : Nat
  index : Nat
  deriving DecidableEq

def FairVisit.Before (a b : FairVisit) : Prop :=
  (a.wrapped = false ∧ b.wrapped = true) ∨ (a.wrapped = b.wrapped ∧
    (a.round < b.round ∨ (a.round = b.round ∧ a.index < b.index)))

instance FairVisit.decidableBefore (a b : FairVisit) : Decidable (a.Before b) :=
  inferInstanceAs (Decidable (_ ∨ _))

def nextVisit (index weight : Nat) (last : FairCursor) : FairVisit :=
  if last.round = 0 then ⟨false, 1, index⟩
  else if last.round ≤ weight ∧ last.index < index then ⟨false, last.round, index⟩
  else if last.round < weight then ⟨false, last.round + 1, index⟩
  else ⟨true, 1, index⟩

inductive FairOwner where
  | task (occurrence : TaskAdmissionOccurrence)
  | workflow (occurrence : AdmissionOccurrence)
  deriving DecidableEq

/-- A row of `admission_fair_heads.sql`: the oldest waiting request of the group at `index`. -/
structure HeadRow where
  index : Nat
  owner : FairOwner
  sequence : Nat
  queue : Option String
  deriving DecidableEq

/-- `fair::Head` -/
structure FairHead where
  owner : FairOwner
  sequence : Nat
  queue : Option String
  index : Nat
  round : Nat
  eligible : Nat
  deriving DecidableEq

namespace ResourceFairSharing

def earliest (p : ResourceFairSharing) (last : FairCursor) (rows : List HeadRow) :
    Option (FairVisit × HeadRow) :=
  Least.minBy (fun a b => ¬ b.1.Before a.1)
    (rows.map fun row => (nextVisit row.index (p.share row.index) last, row))

def head (p : ResourceFairSharing) (last : FairCursor) (rows : List HeadRow) : Option FairHead :=
  (p.earliest last rows).map fun (visit, row) =>
    { owner := row.owner
      sequence := row.sequence
      queue := row.queue
      index := visit.index
      round := visit.round
      eligible := rows.length }

end ResourceFairSharing

/- The resource. -/

/-- `capacity::Resource`, with its rotation. -/
structure FairResource where
  record : ResourceRecord
  cursor : FairCursor
  fairSequence : Nat
  deriving DecidableEq

namespace FairResource

/-- `fair::group` -/
def group (r : FairResource) (queue : String) : Option String :=
  (r.record.policy.fairSharing.bind fun p => p.groupFor queue).map ResourceFairGroup.name

/-- What `resource_row` checks of the cursor that it reads. -/
def checkCursor (r : FairResource) : Result Unit :=
  refuse (0 < r.cursor.round ∧ ¬ ∃ p ∈ r.record.policy.fairSharing,
      ∃ g ∈ (if r.cursor.index < 0 then none else p.groups[r.cursor.index.toNat]?),
        r.cursor.round ≤ g.weight / p.divisor)
    (corruptRecord .workflow "fair cursor disagrees with policy")

end FairResource

namespace FairHead

def cursor (h : FairHead) : FairCursor := ⟨h.round, h.index⟩

def subject (h : FairHead) (provider : Bool) : ResourceDecisionSubject :=
  match h.owner with
  | .task o => .task o.taskId o.generation
  | .workflow o =>
    if provider = true then .provider o.workflowId o.originActivationId o.key
    else .workflow o.workflowId o.originActivationId o.key

/-- `Winner::record`. A head's position is one of the policy that chose it. -/
def record (h : FairHead) (r : FairResource) (provider : Bool) (generation now : Nat) :
    Result (FairResource × ResourceOfferDecision) := do
  let policy ← okOr r.record.policy.fairSharing (corruptRecord .workflow "fair policy")
  let group ← okOr policy.groups[h.index]? (corruptRecord .workflow "fair policy")
  let queue ← okOr h.queue (corruptRecord .workflow "weighted offer without an origin queue")
  refuse (r.group queue ≠ some group.name)
    (corruptRecord .workflow "fair group disagrees with origin queue")
  let sequence ← okOr (checkedAdd u64Max r.fairSequence 1)
    (corruptRecord .workflow "fair sequence overflow")
  let d : ResourceOfferDecision := {
    scope := r.record.scope
    resource := r.record.name
    sequence := sequence
    policyRevision := r.record.revision
    group := group.name
    weight := group.weight
    eligibleGroups := h.eligible
    cycleRound := h.round
    reason := if h.eligible = 1 then .soleEligible else .weighted
    queue := queue
    subject := h.subject provider
    offerGeneration := generation
    offeredAt := now }
  d.validate
  return ({ r with cursor := h.cursor, fairSequence := sequence }, d)

theorem record_spec {h : FairHead} {r next : FairResource} {provider : Bool}
    {generation now : Nat} {d : ResourceOfferDecision}
    (recorded : h.record r provider generation now = .ok (next, d)) :
    next = { r with cursor := h.cursor, fairSequence := r.fairSequence + 1 } ∧
      d.validate = .ok () ∧ d.cycleRound = h.round := by
  simp only [record, bind_eq_ok, okOr_eq_ok, refuse_eq_ok, pure_eq_ok, exists_unit,
    checkedAdd_eq_some] at recorded
  obtain ⟨_, _, group, _, queue, _, _, sequence, ⟨-, rfl⟩, valid, same⟩ := recorded
  cases same
  exact ⟨rfl, valid, rfl⟩

end FairHead

/- What the choice is. -/

def FairCursor.Passed (c : FairCursor) (slot : Nat × Nat) : Prop :=
  slot.1 < c.round ∨ (slot.1 = c.round ∧ (slot.2 : Int) ≤ c.index)

instance FairCursor.decidablePassed (c : FairCursor) (slot : Nat × Nat) : Decidable (c.Passed slot) :=
  inferInstanceAs (Decidable (_ ∨ _))

def FairCursor.visit (c : FairCursor) (slot : Nat × Nat) : FairVisit :=
  ⟨decide (c.Passed slot), slot.1, slot.2⟩

def Earlier (a b : Nat × Nat) : Prop :=
  a.1 < b.1 ∨ (a.1 = b.1 ∧ a.2 < b.2)

theorem earlier_asymm (a b : Nat × Nat) (h : Earlier a b) : ¬ Earlier b a := by
  unfold Earlier at h ⊢
  omega

namespace FairVisit

variable {a b c : FairVisit}

theorem before_iff : a.Before b ↔ a.wrapped.toNat < b.wrapped.toNat ∨
    (a.wrapped.toNat = b.wrapped.toNat ∧
      (a.round < b.round ∨ (a.round = b.round ∧ a.index < b.index))) := by
  unfold Before
  cases a.wrapped <;> cases b.wrapped <;> simp

theorem before_asymm (h : a.Before b) : ¬ b.Before a := by
  rw [before_iff] at h ⊢
  omega

theorem not_before_trans (left : ¬ b.Before a) (right : ¬ c.Before b) : ¬ c.Before a := by
  rw [before_iff] at left right ⊢
  omega

theorem eq_or_before (h : ¬ b.Before a) : b = a ∨ a.Before b := by
  by_cases below : a.Before b
  · exact .inr below
  · rw [before_iff] at h below
    have injective : ∀ x y : Bool, x.toNat = y.toNat → x = y := by decide
    have wrapped : b.wrapped = a.wrapped := injective _ _ (by omega)
    have round : b.round = a.round := by omega
    have index : b.index = a.index := by omega
    cases a
    cases b
    cases wrapped
    cases round
    cases index
    exact .inl rfl

end FairVisit

theorem visit_before {c : FairCursor} {a b : Nat × Nat} :
    (c.visit a).Before (c.visit b) ↔ Rotation.Turn Earlier c.Passed a b := by
  unfold Rotation.Turn FairVisit.Before FairCursor.visit Earlier
  by_cases ha : c.Passed a
  · by_cases hb : c.Passed b <;> simp [ha, hb]
  · by_cases hb : c.Passed b <;> simp [ha, hb]

/-- The next visit to a group is the first of its slots from the cursor on. -/
theorem nextVisit_spec (last : FairCursor) (index : Nat) {weight : Nat} (positive : 1 ≤ weight) :
    ∃ round, nextVisit index weight last = last.visit (round, index) ∧ 1 ≤ round ∧
      round ≤ weight ∧ ∀ r, 1 ≤ r → r ≤ weight →
        ¬ (last.visit (r, index)).Before (last.visit (round, index)) := by
  have fresh : ∀ r, ¬ last.Passed (r, index) → last.visit (r, index) = ⟨false, r, index⟩ := by
    intro r h
    rw [FairCursor.visit, decide_eq_false h]
  have gone : ∀ r, last.Passed (r, index) → last.visit (r, index) = ⟨true, r, index⟩ := by
    intro r h
    rw [FairCursor.visit, decide_eq_true h]
  simp only [visit_before, Rotation.Turn, Earlier]
  unfold FairCursor.Passed at fresh gone ⊢
  rw [nextVisit]
  split_ifs with start same later
  · exact ⟨1, (fresh 1 (by omega)).symm, le_rfl, positive, fun r hr _ => by omega⟩
  · exact ⟨last.round, (fresh last.round (by omega)).symm, by omega, same.1, fun r _ _ => by omega⟩
  · exact ⟨last.round + 1, (fresh _ (by omega)).symm, by omega, later, fun r _ _ => by omega⟩
  · exact ⟨1, (gone 1 (by omega)).symm, le_rfl, positive, fun r _ _ => by omega⟩

namespace ResourceFairSharing

theorem head_spec {p : ResourceFairSharing} (sound : p.WellFormed) {last : FairCursor}
    {rows : List HeadRow} {h : FairHead} (inside : ∀ row ∈ rows, row.index < p.groups.length)
    (chosen : p.head last rows = some h) :
    (∃ row ∈ rows, row.index = h.index ∧ h.owner = row.owner ∧ h.queue = row.queue) ∧
      1 ≤ h.round ∧ h.round ≤ p.share h.index ∧
      ∀ row ∈ rows, ∀ r, 1 ≤ r → r ≤ p.share row.index →
        ¬ (last.visit (r, row.index)).Before (last.visit (h.round, h.index)) := by
  obtain ⟨⟨visit, row⟩, least, rfl⟩ := Option.map_eq_some_iff.mp chosen
  have mem := Least.minBy_mem least
  obtain ⟨row', hrow, same⟩ := List.mem_map.mp mem
  cases same
  have below := Least.minBy_le (p := fun _ => True)
    (fun a b _ _ => by
      simp only [decide_eq_true_eq]
      by_contra h
      rw [not_or, not_not, not_not] at h
      exact FairVisit.before_asymm h.1 h.2)
    (fun a b c _ _ _ left right => by
      simp only [decide_eq_true_eq] at left right ⊢
      exact FairVisit.not_before_trans left right)
    (fun _ _ => trivial) least
  obtain ⟨round, visit, low, high, -⟩ := nextVisit_spec last row.index
    (sound.share_pos (inside row hrow))
  simp only [visit, FairCursor.visit]
  refine ⟨⟨row, hrow, rfl, rfl, rfl⟩, low, high, fun other hother r one most => ?_⟩
  obtain ⟨round', visit', -, -, first⟩ := nextVisit_spec last other.index
    (sound.share_pos (inside other hother))
  have least' := below _ (List.mem_map_of_mem hother)
  simp only [decide_eq_true_eq, visit, visit'] at least'
  exact FairVisit.not_before_trans least' (first r one most)

theorem head_isSome (p : ResourceFairSharing) (last : FairCursor) {rows : List HeadRow}
    (some' : rows ≠ []) : ∃ h, p.head last rows = some h := by
  obtain ⟨row, mem⟩ := List.exists_mem_of_ne_nil rows some'
  have visited := List.mem_map_of_mem (f := fun row : HeadRow =>
    (nextVisit row.index (p.share row.index) last, row)) mem
  have least : ∃ choice, Least.minBy (fun a b : FairVisit × HeadRow => ¬ b.1.Before a.1)
      (rows.map fun row => (nextVisit row.index (p.share row.index) last, row)) = some choice :=
    Least.minBy_isSome visited
  obtain ⟨choice, found⟩ := least
  exact ⟨_, congrArg (Option.map _) found⟩

end ResourceFairSharing
end Ledgence
