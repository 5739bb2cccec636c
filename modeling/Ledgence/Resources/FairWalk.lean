import Mathlib.Algebra.BigOperators.Group.Finset.Basic
import Mathlib.Algebra.Ring.Nat
import Ledgence.Resources.FairHead

/-! The weighted choice is a walk over the slots of a cycle, and what each group gets of it. -/
open Kit Kit.Checked

namespace Ledgence
namespace ResourceFairSharing

def rounds (p : ResourceFairSharing) : Nat :=
  ((List.range p.groups.length).map p.share).foldl max 0

def slots (p : ResourceFairSharing) : List (Nat × Nat) :=
  (List.range p.rounds).flatMap fun r =>
    ((List.range p.groups.length).filter fun i => r < p.share i).map fun i => (r + 1, i)

def successor (p : ResourceFairSharing) (c : FairCursor) : Nat :=
  if c.round = 0 then 0 else p.slots.idxOf (c.round, c.index.toNat) + 1

def walk (p : ResourceFairSharing) (c : FairCursor) : List (Nat × Nat) :=
  p.slots.rotate (p.successor c)

def At (p : ResourceFairSharing) (c : FairCursor) : Prop :=
  c = .initial ∨ ∃ slot ∈ p.slots, c = ⟨slot.1, slot.2⟩

theorem le_rounds (p : ResourceFairSharing) {i : Nat} (inside : i < p.groups.length) :
    p.share i ≤ p.rounds := by
  have below : ∀ (l : List Nat) (start : Nat), start ≤ l.foldl max start ∧
      ∀ x ∈ l, x ≤ l.foldl max start := by
    intro l
    induction l with
    | nil => simp
    | cons a l ih =>
      intro start
      obtain ⟨first, rest⟩ := ih (max start a)
      rw [List.foldl_cons]
      refine ⟨(le_max_left _ _).trans first, List.forall_mem_cons.mpr ⟨?_, rest⟩⟩
      exact (le_max_right _ _).trans first
  exact (below _ 0).2 _ (List.mem_map_of_mem (List.mem_range.mpr inside))

theorem mem_slots {p : ResourceFairSharing} {slot : Nat × Nat} :
    slot ∈ p.slots ↔ 1 ≤ slot.1 ∧ slot.1 ≤ p.share slot.2 := by
  simp only [slots, List.mem_flatMap, List.mem_range, List.mem_map, List.mem_filter,
    decide_eq_true_eq]
  constructor
  · rintro ⟨r, -, i, ⟨-, more⟩, rfl⟩
    exact ⟨Nat.le_add_left 1 r, more⟩
  · rintro ⟨one, most⟩
    have inside : slot.2 < p.groups.length := lt_of_share_pos (one.trans most)
    have top := p.le_rounds inside
    exact ⟨slot.1 - 1, by omega, slot.2, ⟨inside, by omega⟩, Prod.ext (by simp; omega) rfl⟩

theorem slots_ordered (p : ResourceFairSharing) : p.slots.Pairwise Earlier := by
  rw [slots, List.pairwise_flatMap]
  constructor
  · intro r _
    rw [List.pairwise_map]
    exact (List.pairwise_lt_range.filter _).imp fun h => .inr ⟨rfl, h⟩
  · refine List.pairwise_lt_range.imp fun {r s} h a ha b hb => ?_
    obtain ⟨i, -, rfl⟩ := List.mem_map.mp ha
    obtain ⟨j, -, rfl⟩ := List.mem_map.mp hb
    exact .inl (Nat.succ_lt_succ h)

theorem slots_nodup (p : ResourceFairSharing) : p.slots.Nodup := by
  refine p.slots_ordered.imp ?_
  rintro a b lt rfl
  exact earlier_asymm a a lt lt

/-- The walk comes by the slots in the order in which they are visited. -/
theorem walk_ordered (p : ResourceFairSharing) {c : FairCursor} (at' : p.At c) :
    (p.walk c).Pairwise (Rotation.Turn Earlier c.Passed) := by
  rw [walk, successor]
  obtain rfl | ⟨slot, mem, rfl⟩ := at'
  · have zero : FairCursor.initial.round = 0 := rfl
    rw [if_pos zero, List.rotate_zero]
    have none : ∀ a ∈ p.slots, ¬ FairCursor.initial.Passed a := by
      intro a ha
      have one := (mem_slots.mp ha).1
      unfold FairCursor.initial FairCursor.Passed
      simp only
      omega
    exact p.slots_ordered.imp_of_mem fun ha hb h => .inr ⟨iff_of_false (none _ ha) (none _ hb), h⟩
  · have one := (mem_slots.mp mem).1
    have there : ¬ slot.1 = 0 := by omega
    rw [if_neg there, Int.toNat_natCast]
    refine Rotation.turn_ordered p.slots_ordered earlier_asymm mem fun x => ?_
    unfold FairCursor.Passed Earlier
    rw [Prod.ext_iff]
    simp only
    omega

theorem turn_asymm {c : FairCursor} (a b : Nat × Nat) (h : Rotation.Turn Earlier c.Passed a b) :
    ¬ Rotation.Turn Earlier c.Passed b a := by
  rw [← visit_before] at h ⊢
  exact FairVisit.before_asymm h

def eligible (rows : List HeadRow) (slot : Nat × Nat) : Bool :=
  rows.any fun row => row.index = slot.2

theorem eligible_iff {rows : List HeadRow} {slot : Nat × Nat} :
    eligible rows slot = true ↔ ∃ row ∈ rows, row.index = slot.2 := by
  simp [eligible]

theorem head_first {p : ResourceFairSharing} (sound : p.WellFormed) {c : FairCursor} (at' : p.At c)
    {rows : List HeadRow} (inside : ∀ row ∈ rows, row.index < p.groups.length) {h : FairHead}
    (chosen : p.head c rows = some h) :
    (p.walk c).find? (eligible rows) = some (h.round, h.index) := by
  obtain ⟨⟨row, hrow, same, -⟩, one, most, first⟩ := head_spec sound inside chosen
  refine Rotation.find_of_least (p.walk_ordered at') turn_asymm ?_ ?_ fun slot mem passes => ?_
  · exact List.mem_rotate.mpr (mem_slots.mpr ⟨one, most⟩)
  · exact eligible_iff.mpr ⟨row, hrow, same⟩
  · obtain ⟨row', hrow', here⟩ := eligible_iff.mp passes
    obtain ⟨low, high⟩ := mem_slots.mp (List.mem_rotate.mp mem)
    have after := first row' hrow' slot.1 low (by rw [here]; exact high)
    rw [here] at after
    rw [← visit_before]
    refine (FairVisit.eq_or_before after).imp_left fun equal => ?_
    exact Prod.ext (congrArg FairVisit.round equal) (congrArg FairVisit.index equal)

/- What each group has of a cycle. -/

theorem count_round (p : ResourceFairSharing) (g r : Nat) :
    ((((List.range p.groups.length).filter fun i => r < p.share i).map
      fun i => (r + 1, i)).map Prod.snd).count g = if r < p.share g then 1 else 0 := by
  have each : (((List.range p.groups.length).filter fun i => r < p.share i).map
      fun i => (r + 1, i)).map Prod.snd =
      (List.range p.groups.length).filter fun i => r < p.share i := by
    rw [List.map_map]
    exact List.map_id _
  rw [each]
  split_ifs with more
  · refine List.count_eq_one_of_mem (List.nodup_range.filter _) ?_
    rw [List.mem_filter, List.mem_range]
    exact ⟨lt_of_share_pos (by omega), decide_eq_true more⟩
  · refine List.count_eq_zero_of_not_mem fun mem => more ?_
    exact of_decide_eq_true (List.mem_filter.mp mem).2

theorem sum_rounds (share top : Nat) :
    ((List.range top).map fun r => if r < share then 1 else 0).sum = min share top := by
  induction top with
  | zero => simp
  | succ top ih =>
    rw [List.range_succ, List.map_append, List.sum_append, ih, List.map_singleton,
      List.sum_singleton]
    split_ifs <;> omega

theorem count_slots (p : ResourceFairSharing) (g : Nat) :
    (p.slots.map Prod.snd).count g = p.share g := by
  have rounds : p.share g ≤ p.rounds := by
    by_cases inside : g < p.groups.length
    · exact p.le_rounds inside
    · rw [share, List.getElem?_eq_none (Nat.le_of_not_lt inside)]
      exact Nat.zero_le _
  rw [slots, List.map_flatMap, List.count_flatMap]
  simp only [Function.comp_def, count_round]
  rw [sum_rounds, min_eq_left rounds]

theorem length_slots (p : ResourceFairSharing) :
    p.slots.length = ∑ g ∈ Finset.range p.groups.length, p.share g := by
  have within : ∀ g ∈ (p.slots.map Prod.snd : Multiset Nat), g ∈ Finset.range p.groups.length := by
    intro g hg
    obtain ⟨slot, mem, rfl⟩ := List.mem_map.mp (Multiset.mem_coe.mp hg)
    obtain ⟨one, most⟩ := mem_slots.mp mem
    exact Finset.mem_range.mpr (lt_of_share_pos (one.trans most))
  have all := Multiset.sum_count_eq_card within
  simp only [Multiset.coe_count, Multiset.coe_card, List.length_map, count_slots] at all
  exact all.symm

/- The walk of a run. -/

structure Walked where
  slot : Nat × Nat
  offered : Bool

def steps (p : ResourceFairSharing) (c : FairCursor) (rows : List HeadRow) (h : FairHead) :
    List Walked :=
  ((p.walk c).takeWhile fun slot => !eligible rows slot).map (⟨·, false⟩) ++
    [⟨(h.round, h.index), true⟩]

def walked (p : ResourceFairSharing) : FairCursor → List (List HeadRow) → List Walked
  | _, [] => []
  | c, rows :: run =>
    match p.head c rows with
    | none => walked p c run
    | some h => p.steps c rows h ++ walked p h.cursor run

def offers (p : ResourceFairSharing) : FairCursor → List (List HeadRow) → List FairHead
  | _, [] => []
  | c, rows :: run =>
    match p.head c rows with
    | none => offers p c run
    | some h => h :: offers p h.cursor run

theorem at_cursor {p : ResourceFairSharing} (sound : p.WellFormed) {c : FairCursor}
    {rows : List HeadRow} (inside : ∀ row ∈ rows, row.index < p.groups.length) {h : FairHead}
    (chosen : p.head c rows = some h) : p.At h.cursor := by
  obtain ⟨-, one, most, -⟩ := head_spec sound inside chosen
  exact .inr ⟨(h.round, h.index), mem_slots.mpr ⟨one, most⟩, rfl⟩

section Steps

variable {p : ResourceFairSharing} (sound : p.WellFormed) {c : FairCursor} (at' : p.At c)
  {rows : List HeadRow} (inside : ∀ row ∈ rows, row.index < p.groups.length) {h : FairHead}
  (chosen : p.head c rows = some h)
include sound at' inside chosen

/-- One choice leaves out the slots before it, none of which has a row. -/
theorem steps_split : ∃ before after, p.walk c = before ++ (h.round, h.index) :: after ∧
    p.steps c rows h = before.map (⟨·, false⟩) ++ [⟨(h.round, h.index), true⟩] ∧
    ∀ slot ∈ before, eligible rows slot = false := by
  have first := head_first sound at' inside chosen
  obtain ⟨passes, before, after, split, none⟩ := List.find?_eq_some_iff_append.mp first
  refine ⟨before, after, split, ?_, fun slot hs => by simpa using none slot hs⟩
  rw [steps, split, List.takeWhile_append_of_pos none, List.takeWhile_cons_of_neg (by simp [passes]),
    List.append_nil]

theorem steps_slots : (p.steps c rows h).map Walked.slot <+: p.walk c := by
  obtain ⟨before, after, split, same, -⟩ := steps_split sound at' inside chosen
  rw [same, split, List.map_append, List.map_map]
  have slots : before.map (Walked.slot ∘ (⟨·, false⟩)) = before := List.map_id _
  rw [slots]
  exact ⟨after, by simp⟩

theorem successor_cursor :
    (p.successor c + ((p.steps c rows h).map Walked.slot).length) % p.slots.length =
      p.successor h.cursor % p.slots.length := by
  obtain ⟨before, after, split, same, -⟩ := steps_split sound at' inside chosen
  obtain ⟨-, one, most, -⟩ := head_spec sound inside chosen
  have there : ¬ h.cursor.round = 0 := by
    show ¬ h.round = 0
    omega
  have length : before.length < p.slots.length := by
    have := congrArg List.length split
    rw [walk, List.length_rotate, List.length_append, List.length_cons] at this
    omega
  have found : p.slots[(before.length + p.successor c) % p.slots.length]? =
      some (h.round, h.index) := by
    rw [← List.getElem?_rotate length]
    show (p.walk c)[before.length]? = _
    rw [split, List.getElem?_append_right le_rfl, Nat.sub_self]
    rfl
  have place : p.slots.idxOf (h.round, h.index) =
      (before.length + p.successor c) % p.slots.length := by
    obtain ⟨bound, here⟩ := List.getElem?_eq_some_iff.mp found
    rw [← here]
    exact p.slots_nodup.idxOf_getElem _ _
  have cursor : p.successor h.cursor = p.slots.idxOf (h.round, h.index) + 1 := if_neg there
  rw [cursor, place, same, List.length_map, List.length_append, List.length_map,
    List.length_singleton, Nat.mod_add_mod]
  congr 1
  omega

end Steps

section Runs

variable {p : ResourceFairSharing} (sound : p.WellFormed) {c : FairCursor} (at' : p.At c)
  {run : List (List HeadRow)}
  (inside : ∀ rows ∈ run, ∀ row ∈ rows, row.index < p.groups.length)
include sound at' inside

theorem walked_follows :
    Rotation.Follows p.slots (p.successor c) ((p.walked c run).map Walked.slot) := by
  induction run generalizing c with
  | nil => exact Rotation.follows_nil
  | cons rows run ih =>
    have here := inside rows List.mem_cons_self
    have later : ∀ rows ∈ run, ∀ row ∈ rows, row.index < p.groups.length :=
      fun rows hr => inside rows (List.mem_cons_of_mem _ hr)
    rw [walked]
    cases chosen : p.head c rows with
    | none => exact ih at' later
    | some h =>
      have rest := ih (at_cursor sound here chosen) later
      rw [List.map_append]
      refine (Rotation.follows_prefix (steps_slots sound at' here chosen)).append ?_
      exact rest.congr (successor_cursor sound at' here chosen).symm

theorem walked_offered {g : Nat} (stays : ∀ rows ∈ run, ∃ row ∈ rows, row.index = g) :
    ∀ e ∈ p.walked c run, e.slot.2 = g → e.offered = true := by
  induction run generalizing c with
  | nil => simp [walked]
  | cons rows run ih =>
    have here := inside rows List.mem_cons_self
    have later : ∀ rows ∈ run, ∀ row ∈ rows, row.index < p.groups.length :=
      fun rows hr => inside rows (List.mem_cons_of_mem _ hr)
    have waits := fun rows hr => stays rows (List.mem_cons_of_mem _ hr)
    rw [walked]
    cases chosen : p.head c rows with
    | none => exact ih at' later waits
    | some h =>
      obtain ⟨before, after, -, same, none⟩ := steps_split sound at' here chosen
      simp only [same, List.forall_mem_append, List.forall_mem_singleton]
      refine ⟨⟨fun e he mine => ?_, fun _ => trivial⟩, ih (at_cursor sound here chosen) later waits⟩
      obtain ⟨slot, mem, rfl⟩ := List.mem_map.mp he
      have passes : eligible rows slot = true := by
        rw [eligible_iff, mine]
        exact stays rows List.mem_cons_self
      rw [none slot mem] at passes
      cases passes

theorem walked_offers :
    ((p.walked c run).filter Walked.offered).map Walked.slot =
      (p.offers c run).map fun h => (h.round, h.index) := by
  induction run generalizing c with
  | nil => rfl
  | cons rows run ih =>
    have here := inside rows List.mem_cons_self
    have later : ∀ rows ∈ run, ∀ row ∈ rows, row.index < p.groups.length :=
      fun rows hr => inside rows (List.mem_cons_of_mem _ hr)
    rw [walked, offers]
    cases chosen : p.head c rows with
    | none => exact ih at' later
    | some h =>
      obtain ⟨before, after, -, same, -⟩ := steps_split sound at' here chosen
      have rest := ih (at_cursor sound here chosen) later
      have skipped : (before.map fun slot => (⟨slot, false⟩ : Walked)).filter Walked.offered = [] := by
        rw [List.filter_eq_nil_iff]
        intro e he
        obtain ⟨slot, -, rfl⟩ := List.mem_map.mp he
        exact Bool.false_ne_true
      simp only [same, List.filter_append, skipped, List.map_append, rest, List.map_cons]
      rfl

/-- In a window of one cycle, a group that has a row all the time gets its share. -/
theorem window_share {g : Nat} (stays : ∀ rows ∈ run, ∃ row ∈ rows, row.index = g)
    {before window after : List Walked} (split : p.walked c run = before ++ window ++ after)
    (whole : window.length = p.slots.length) :
    window.countP (fun e => e.slot.2 = g && e.offered) = p.share g := by
  have follows := walked_follows sound at' inside
  have offered := walked_offered sound at' inside stays
  rw [split] at follows offered
  rw [List.map_append, List.map_append] at follows
  have turn := follows.window (by rw [List.length_map, whole])
  have all : window.countP (fun e => e.slot.2 = g && e.offered) =
      window.countP (fun e => e.slot.2 = g) := by
    refine List.countP_congr fun e he => ?_
    have mem : e ∈ before ++ window ++ after := by simp [he]
    constructor
    · intro h
      exact (Bool.and_eq_true_iff.mp h).1
    · intro h
      exact Bool.and_eq_true_iff.mpr ⟨h, offered e mem (of_decide_eq_true h)⟩
  have named : window.countP (fun e => e.slot.2 = g) =
      ((window.map Walked.slot).map Prod.snd).count g := by
    rw [List.map_map, List.count_eq_countP, List.countP_map]
    rfl
  rw [all, named, turn, ((List.rotate_perm _ _).map Prod.snd).count_eq, count_slots]

theorem offers_follow (stay : ∀ rows ∈ run, ∀ g < p.groups.length, ∃ row ∈ rows, row.index = g) :
    Rotation.Follows p.slots (p.successor c)
      ((p.offers c run).map fun h => (h.round, h.index)) := by
  have follows := walked_follows sound at' inside
  have all : ∀ e ∈ p.walked c run, e.offered = true := by
    intro e he
    obtain ⟨one, most⟩ := mem_slots.mp (follows.mem (List.mem_map_of_mem he))
    have group : e.slot.2 < p.groups.length := lt_of_share_pos (one.trans most)
    exact walked_offered sound at' inside (fun rows hr => stay rows hr _ group) e he rfl
  rw [← walked_offers sound at' inside, List.filter_eq_self.mpr all]
  exact follows

theorem cycle_share (stay : ∀ rows ∈ run, ∀ g < p.groups.length, ∃ row ∈ rows, row.index = g)
    {before window after : List FairHead} (split : p.offers c run = before ++ window ++ after)
    (whole : window.length = p.slots.length) (g : Nat) :
    window.countP (fun h => h.index = g) = p.share g := by
  have follows := offers_follow sound at' inside stay
  rw [split, List.map_append, List.map_append] at follows
  have turn := follows.window (by rw [List.length_map, whole])
  have named : window.countP (fun h => h.index = g) =
      ((window.map fun h => (h.round, h.index)).map Prod.snd).count g := by
    rw [List.map_map, List.count_eq_countP, List.countP_map]
    rfl
  rw [named, turn, ((List.rotate_perm _ _).map Prod.snd).count_eq, count_slots]

end Runs

/- The cursors of a policy. -/

inductive Reachable (p : ResourceFairSharing) : FairCursor → Prop
  | initial : Reachable p .initial
  | record {r next : FairResource} {rows : List HeadRow} {h : FairHead} {provider : Bool}
    {generation now : Nat} {d : ResourceOfferDecision} (reached : Reachable p r.cursor)
    (policy : r.record.policy.fairSharing = some p)
    (inside : ∀ row ∈ rows, row.index < p.groups.length) (chosen : p.head r.cursor rows = some h)
    (recorded : h.record r provider generation now = .ok (next, d)) : Reachable p next.cursor

theorem Reachable.at {p : ResourceFairSharing} (sound : p.WellFormed) {c : FairCursor}
    (reached : p.Reachable c) : p.At c := by
  induction reached with
  | initial => exact .inl rfl
  | record reached policy inside chosen recorded =>
    obtain ⟨rfl, -, -⟩ := FairHead.record_spec recorded
    exact at_cursor sound inside chosen

/-- What a reload of the resource checks holds of every cursor in the rotation. -/
theorem checkCursor_of_at {p : ResourceFairSharing} {r : FairResource}
    (policy : r.record.policy.fairSharing = some p) (at' : p.At r.cursor) :
    r.checkCursor = .ok () := by
  rw [FairResource.checkCursor, refuse_eq_ok]
  rintro ⟨started, bad⟩
  obtain same | ⟨slot, mem, same⟩ := at'
  · rw [same] at started
    cases started
  · obtain ⟨one, most⟩ := mem_slots.mp mem
    have group : slot.2 < p.groups.length := lt_of_share_pos (one.trans most)
    have found := List.getElem?_eq_getElem group
    rw [share_eq found] at most
    refine bad ⟨p, policy, p.groups[slot.2], ?_, ?_⟩
    · rw [same, if_neg (Int.not_lt.mpr (Int.natCast_nonneg _)), Int.toNat_natCast]
      exact found
    · rw [same]
      exact most

/-- The choice by next visits is the walk over the slots of a cycle. In a window of one cycle, a
group that has a request all the time is offered its share. The cursor always passes the check of a
reload. -/
theorem fair_choice_walks (p : ResourceFairSharing) (valid : p.validate = .ok ()) :
    (∀ c, p.Reachable c → ∀ rows, rows ≠ [] → (∀ row ∈ rows, row.index < p.groups.length) →
      ∃ h, p.head c rows = some h ∧
        (p.walk c).find? (eligible rows) = some (h.round, h.index)) ∧
    (∀ c, p.Reachable c → ∀ run, (∀ rows ∈ run, ∀ row ∈ rows, row.index < p.groups.length) →
      Rotation.Follows p.slots (p.successor c) ((p.walked c run).map Walked.slot) ∧
      ((p.walked c run).filter Walked.offered).map Walked.slot =
        (p.offers c run).map (fun h => (h.round, h.index)) ∧
      (∀ g, (∀ rows ∈ run, ∃ row ∈ rows, row.index = g) → ∀ before window after,
        p.walked c run = before ++ window ++ after →
        window.length = ∑ i ∈ Finset.range p.groups.length, p.share i →
        p.share g ≤ window.countP fun e => e.slot.2 = g && e.offered) ∧
      ((∀ rows ∈ run, ∀ g < p.groups.length, ∃ row ∈ rows, row.index = g) →
        ∀ before window after, p.offers c run = before ++ window ++ after →
        window.length = ∑ i ∈ Finset.range p.groups.length, p.share i →
        ∀ g < p.groups.length, window.countP (fun h => h.index = g) = p.share g)) ∧
    ∀ r : FairResource, r.record.policy.fairSharing = some p → p.Reachable r.cursor →
      r.checkCursor = .ok () := by
  have sound := wellFormed_of_validate valid
  refine ⟨fun c reached rows some' inside => ?_, fun c reached run inside => ⟨?_, ?_, ?_, ?_⟩,
    fun r policy reached => checkCursor_of_at policy (reached.at sound)⟩
  · obtain ⟨h, chosen⟩ := p.head_isSome c some'
    exact ⟨h, chosen, head_first sound (reached.at sound) inside chosen⟩
  · exact walked_follows sound (reached.at sound) inside
  · exact walked_offers sound (reached.at sound) inside
  · rintro g stays before window after split whole
    rw [← length_slots] at whole
    exact (window_share sound (reached.at sound) inside stays split whole).ge
  · rintro stay before window after split whole g -
    rw [← length_slots] at whole
    exact cycle_share sound (reached.at sound) inside stay split whole g

/- Two groups that share three to two. -/

def sixToFour : ResourceFairSharing where
  groups := [⟨"gold", 6, ["fast"]⟩, ⟨"rest", 4, []⟩]
  defaultGroup := "rest"

def waiting : List HeadRow :=
  [⟨0, .task ⟨⟨"tenant", "namespace"⟩, "a", 1⟩, 1, some "fast"⟩,
    ⟨1, .task ⟨⟨"tenant", "namespace"⟩, "b", 1⟩, 2, some "slow"⟩]

theorem fair_choice_walks_six_to_four :
    (sixToFour.offers .initial (List.replicate 5 waiting)).countP (fun h => h.index = 0) = 3 := by
  have valid : sixToFour.validate = .ok () := by
    obtain ⟨u, h⟩ := exists_of_isOk (x := sixToFour.validate) (by decide +kernel)
    exact h
  have runs := ((fair_choice_walks sixToFour valid).2.1 .initial .initial
    (List.replicate 5 waiting) (by decide +kernel)).2.2.2
  exact runs (by decide +kernel) [] _ [] (by simp) (by decide +kernel) 0 (by decide +kernel)

end ResourceFairSharing
end Ledgence
