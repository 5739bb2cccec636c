import Ledgence.Resources.FairWalk

/-! When two policies of fair sharing are one rotation, and what a change of the policy leaves of the
cursor. -/
open Kit Kit.Checked

namespace Ledgence
namespace ResourceFairSharing

variable {a b c : ResourceFairSharing}

/- The group of a queue. -/

theorem WellFormed.queue_group (sound : a.WellFormed) {g h : ResourceFairGroup} {q : String}
    (hg : g ∈ a.groups) (hh : h ∈ a.groups) (qg : q ∈ g.queues) (qh : q ∈ h.queues) : g = h := by
  have apart := (List.nodup_flatMap.mp sound.queues).2
  by_contra other
  obtain ⟨i, hi, rfl⟩ := List.mem_iff_getElem.mp hg
  obtain ⟨j, hj, rfl⟩ := List.mem_iff_getElem.mp hh
  rw [List.pairwise_iff_getElem] at apart
  obtain less | same | more := lt_trichotomy i j
  · exact apart i j hi hj less qg qh
  · exact other (by simp only [same])
  · exact apart j i hj hi more qh qg

theorem WellFormed.name_group (sound : a.WellFormed) {g h : ResourceFairGroup}
    (hg : g ∈ a.groups) (hh : h ∈ a.groups) (same : g.name = h.name) : g = h :=
  List.inj_on_of_nodup_map sound.names hg hh same

theorem WellFormed.queues_nodup (sound : a.WellFormed) {g : ResourceFairGroup}
    (hg : g ∈ a.groups) : g.queues.Nodup :=
  (List.nodup_flatMap.mp sound.queues).1 g hg

theorem WellFormed.groupFor_listed (sound : a.WellFormed) {g : ResourceFairGroup} {q : String}
    (hg : g ∈ a.groups) (listed : q ∈ g.queues) : a.groupFor q = some g := by
  have holds : g.queues.any (· = q) = true := by simpa using listed
  have some' : (a.groups.find? fun g => g.queues.any (· = q)).isSome = true :=
    List.find?_isSome.mpr ⟨g, hg, holds⟩
  obtain ⟨h, found⟩ := Option.isSome_iff_exists.mp some'
  have same : h = g := by
    refine sound.queue_group (List.mem_of_find?_eq_some found) hg ?_ listed
    simpa using List.find?_some found
  rw [groupFor, found, same]
  rfl

theorem WellFormed.groupFor_other (sound : a.WellFormed) {q : String}
    (none : ∀ g ∈ a.groups, q ∉ g.queues) :
    (a.groupFor q).map ResourceFairGroup.name = some a.defaultGroup := by
  have missing : (a.groups.find? fun g => g.queues.any (· = q)) = Option.none := by
    rw [List.find?_eq_none]
    intro g hg holds
    exact none g hg (by simpa using holds)
  obtain ⟨d, hd, named⟩ := sound.default
  have some' : (a.groups.find? fun g => g.name = a.defaultGroup).isSome = true :=
    List.find?_isSome.mpr ⟨d, hd, decide_eq_true named⟩
  obtain ⟨h, found⟩ := Option.isSome_iff_exists.mp some'
  have name : h.name = a.defaultGroup := by simpa using List.find?_some found
  rw [groupFor, missing, found, Option.none_or, Option.map_some, name]

theorem WellFormed.groupFor_name (sound : a.WellFormed) {q n : String} (other : n ≠ a.defaultGroup) :
    (a.groupFor q).map ResourceFairGroup.name = some n ↔
      ∃ g ∈ a.groups, q ∈ g.queues ∧ g.name = n := by
  constructor
  · intro named
    by_cases listed : ∃ g ∈ a.groups, q ∈ g.queues
    · obtain ⟨g, hg, hq⟩ := listed
      rw [sound.groupFor_listed hg hq, Option.map_some, Option.some.injEq] at named
      exact ⟨g, hg, hq, named⟩
    · rw [sound.groupFor_other fun g hg hq => listed ⟨g, hg, hq⟩, Option.some.injEq] at named
      exact absurd named.symm other
  · rintro ⟨g, hg, hq, rfl⟩
    rw [sound.groupFor_listed hg hq]
    rfl

theorem WellFormed.groupFor_isSome (sound : a.WellFormed) (q : String) :
    ∃ n, (a.groupFor q).map ResourceFairGroup.name = some n := by
  by_cases listed : ∃ g ∈ a.groups, q ∈ g.queues
  · obtain ⟨g, hg, hq⟩ := listed
    exact ⟨g.name, by rw [sound.groupFor_listed hg hq]; rfl⟩
  · exact ⟨a.defaultGroup, sound.groupFor_other fun g hg hq => listed ⟨g, hg, hq⟩⟩

/-- Two policies put every queue into a group of one name exactly if they list the same queues
outside the default group. -/
theorem classify_iff (left : a.WellFormed) (right : b.WellFormed)
    (default : a.defaultGroup = b.defaultGroup) :
    (∀ q, (a.groupFor q).map ResourceFairGroup.name = (b.groupFor q).map ResourceFairGroup.name) ↔
      ∀ n ≠ a.defaultGroup, ∀ q, (∃ g ∈ a.groups, q ∈ g.queues ∧ g.name = n) ↔
        ∃ g ∈ b.groups, q ∈ g.queues ∧ g.name = n := by
  constructor
  · intro same n other q
    rw [← left.groupFor_name other, ← right.groupFor_name (default ▸ other), same q]
  · intro same q
    obtain ⟨m, hm⟩ := left.groupFor_isSome q
    obtain ⟨n, hn⟩ := right.groupFor_isSome q
    by_cases first : m = a.defaultGroup
    · by_cases second : n = a.defaultGroup
      · rw [hm, hn, first, second]
      · have listed := (right.groupFor_name (default ▸ second)).mp hn
        rw [(left.groupFor_name second).mpr ((same n second q).mpr listed), hn]
    · have listed := (left.groupFor_name first).mp hm
      rw [hm, (right.groupFor_name (default ▸ first)).mpr ((same m first q).mp listed)]

/- Pairs of groups. -/

theorem all_zip_iff {α β : Type} {l : List α} {m : List β} (same : l.length = m.length)
    {p : α × β → Bool} : (l.zip m).all p = true ↔
      ∀ i (hl : i < l.length) (hm : i < m.length), p (l[i], m[i]) = true := by
  rw [List.all_eq_true]
  constructor
  · intro each i hl hm
    have inside : i < (l.zip m).length := by
      rw [List.length_zip]
      omega
    have mem := List.getElem_mem inside
    rw [List.getElem_zip] at mem
    exact each _ mem
  · intro each pair hp
    obtain ⟨i, hi, rfl⟩ := List.mem_iff_getElem.mp hp
    rw [List.length_zip] at hi
    rw [List.getElem_zip]
    exact each i (by omega) (by omega)

def Lists (a b : ResourceFairSharing) : Prop :=
  ∀ i (ha : i < a.groups.length) (hb : i < b.groups.length),
    a.groups[i].name ≠ a.defaultGroup → ∀ q, q ∈ a.groups[i].queues ↔ q ∈ b.groups[i].queues

theorem name_getElem (names : a.groups.map ResourceFairGroup.name =
    b.groups.map ResourceFairGroup.name) {i : Nat} (ha : i < a.groups.length)
    (hb : i < b.groups.length) : a.groups[i].name = b.groups[i].name := by
  have here := congrArg (fun l => l[i]?) names
  simpa [ha, hb] using here

theorem lists_iff (left : a.WellFormed) (right : b.WellFormed)
    (names : a.groups.map ResourceFairGroup.name = b.groups.map ResourceFairGroup.name) :
    Lists a b ↔ ∀ n ≠ a.defaultGroup, ∀ q, (∃ g ∈ a.groups, q ∈ g.queues ∧ g.name = n) ↔
      ∃ g ∈ b.groups, q ∈ g.queues ∧ g.name = n := by
  have length : a.groups.length = b.groups.length := by simpa using congrArg List.length names
  constructor
  · intro lists n other q
    constructor
    · rintro ⟨g, hg, hq, rfl⟩
      obtain ⟨i, hi, rfl⟩ := List.mem_iff_getElem.mp hg
      have hb : i < b.groups.length := length ▸ hi
      exact ⟨b.groups[i], List.getElem_mem hb, (lists i hi hb other q).mp hq,
        (name_getElem names hi hb).symm⟩
    · rintro ⟨g, hg, hq, rfl⟩
      obtain ⟨i, hi, rfl⟩ := List.mem_iff_getElem.mp hg
      have ha : i < a.groups.length := length ▸ hi
      rw [← name_getElem names ha hi] at other ⊢
      exact ⟨a.groups[i], List.getElem_mem ha, (lists i ha hi other q).mpr hq, rfl⟩
  · intro same i ha hb other q
    constructor
    · intro hq
      obtain ⟨g, hg, listed, named⟩ := (same _ other q).mp ⟨_, List.getElem_mem ha, hq, rfl⟩
      rw [name_getElem names ha hb] at named
      rwa [right.name_group hg (List.getElem_mem hb) named] at listed
    · intro hq
      obtain ⟨g, hg, listed, named⟩ := (same _ other q).mpr ⟨_, List.getElem_mem hb, hq,
        (name_getElem names ha hb).symm⟩
      rwa [left.name_group hg (List.getElem_mem ha) named] at listed

theorem sameGroup_iff {left right : ResourceFairGroup} :
    sameGroup a b left right = true ↔ left.name = right.name ∧
      left.weight / a.divisor = right.weight / b.divisor ∧
      (left.name = a.defaultGroup ∨ (left.queues.length = right.queues.length ∧
        ∀ q ∈ left.queues, q ∈ right.queues)) := by
  simp [sameGroup, and_assoc]

/-- Two lists without repetition hold the same if they are as long and one holds the other. -/
theorem queues_iff {l m : List String} (hl : l.Nodup) (hm : m.Nodup) :
    (l.length = m.length ∧ ∀ q ∈ l, q ∈ m) ↔ ∀ q, q ∈ l ↔ q ∈ m := by
  constructor
  · rintro ⟨length, sub⟩ q
    exact ((hl.subperm sub).perm_of_length_le length.ge).mem_iff
  · intro same
    exact ⟨((List.perm_ext_iff_of_nodup hl hm).mpr same).length_eq, fun q hq => (same q).mp hq⟩

/-- What two policies have in common that are one rotation. -/
structure Alike (a b : ResourceFairSharing) : Prop where
  names : a.groups.map ResourceFairGroup.name = b.groups.map ResourceFairGroup.name
  shares : a.groups.map (·.weight / a.divisor) = b.groups.map (·.weight / b.divisor)
  default : a.defaultGroup = b.defaultGroup
  classify : ∀ q, (a.groupFor q).map ResourceFairGroup.name =
    (b.groupFor q).map ResourceFairGroup.name

theorem sameRotation_iff (left : a.WellFormed) (right : b.WellFormed) :
    sameRotation (some a) (some b) = true ↔ Alike a b := by
  simp only [sameRotation, Bool.and_eq_true, decide_eq_true_eq]
  constructor
  · rintro ⟨⟨default, length⟩, pairs⟩
    rw [all_zip_iff length] at pairs
    simp only [sameGroup_iff] at pairs
    have names : a.groups.map ResourceFairGroup.name = b.groups.map ResourceFairGroup.name :=
      List.ext_getElem (by simpa using length) fun i ha hb => by
        simpa using (pairs i (by simpa using ha) (by simpa using hb)).1
    refine ⟨names, List.ext_getElem (by simpa using length) fun i ha hb => ?_, default, ?_⟩
    · simpa using (pairs i (by simpa using ha) (by simpa using hb)).2.1
    · rw [classify_iff left right default, ← lists_iff left right names]
      intro i ha hb other
      exact (queues_iff (left.queues_nodup (List.getElem_mem ha))
        (right.queues_nodup (List.getElem_mem hb))).mp ((pairs i ha hb).2.2.resolve_left other)
  · rintro ⟨names, shares, default, classify⟩
    have length : a.groups.length = b.groups.length := by simpa using congrArg List.length names
    have lists : Lists a b := by
      rwa [lists_iff left right names, ← classify_iff left right default]
    refine ⟨⟨default, length⟩, (all_zip_iff length).mpr fun i ha hb => ?_⟩
    rw [sameGroup_iff]
    refine ⟨name_getElem names ha hb, ?_, ?_⟩
    · have here := congrArg (fun l => l[i]?) shares
      simpa [ha, hb] using here
    · by_cases mine : a.groups[i].name = a.defaultGroup
      · exact .inl mine
      · exact .inr ((queues_iff (left.queues_nodup (List.getElem_mem ha))
          (right.queues_nodup (List.getElem_mem hb))).mpr (lists i ha hb mine))

theorem Alike.refl (a : ResourceFairSharing) : Alike a a :=
  ⟨rfl, rfl, rfl, fun _ => rfl⟩

theorem Alike.symm (h : Alike a b) : Alike b a :=
  ⟨h.names.symm, h.shares.symm, h.default.symm, fun q => (h.classify q).symm⟩

theorem Alike.trans (left : Alike a b) (right : Alike b c) : Alike a c :=
  ⟨left.names.trans right.names, left.shares.trans right.shares, left.default.trans right.default,
    fun q => (left.classify q).trans (right.classify q)⟩

/- One rotation. -/

theorem Alike.length (h : Alike a b) : a.groups.length = b.groups.length := by
  simpa using congrArg List.length h.names

theorem Alike.share (h : Alike a b) : a.share = b.share := by
  funext i
  have here := congrArg (fun l => l[i]?.getD 0) h.shares
  simpa [ResourceFairSharing.share] using here

theorem Alike.head (h : Alike a b) (last : FairCursor) (rows : List HeadRow) :
    a.head last rows = b.head last rows := by
  rw [ResourceFairSharing.head, ResourceFairSharing.head, earliest, earliest, h.share]

theorem Alike.offers (h : Alike a b) (last : FairCursor) (run : List (List HeadRow)) :
    a.offers last run = b.offers last run := by
  induction run generalizing last with
  | nil => rfl
  | cons rows run ih =>
    rw [ResourceFairSharing.offers, ResourceFairSharing.offers, h.head]
    cases b.head last rows with
    | none => exact ih last
    | some head => exact congrArg _ (ih head.cursor)

theorem Alike.slots (h : Alike a b) : a.slots = b.slots := by
  rw [ResourceFairSharing.slots, ResourceFairSharing.slots, rounds, rounds, h.share, h.length]

def InRange (p : ResourceFairSharing) (c : FairCursor) : Prop :=
  0 < c.round → ∃ g ∈ (if c.index < 0 then none else p.groups[c.index.toNat]?),
    c.round ≤ g.weight / p.divisor

theorem checkCursor_iff {r : FairResource} (policy : r.record.policy.fairSharing = some a) :
    r.checkCursor = .ok () ↔ InRange a r.cursor := by
  rw [FairResource.checkCursor, refuse_eq_ok, policy, InRange, not_and, not_not]
  refine imp_congr_right fun _ => ⟨?_, fun h => ⟨a, rfl, h⟩⟩
  rintro ⟨p, same, h⟩
  cases same
  exact h

theorem inRange_iff {c : FairCursor} :
    InRange a c ↔ (0 < c.round → 0 ≤ c.index ∧ c.round ≤ a.share c.index.toNat) := by
  refine imp_congr_right fun positive => ?_
  by_cases negative : c.index < 0
  · rw [if_pos negative]
    simp
    omega
  · rw [if_neg negative, ResourceFairSharing.share]
    cases found : a.groups[c.index.toNat]? with
    | none =>
      simp
      omega
    | some g =>
      simp
      omega

theorem Alike.inRange (h : Alike a b) (c : FairCursor) : InRange a c ↔ InRange b c := by
  rw [inRange_iff, inRange_iff, h.share]

/-- `same_rotation` holds exactly of policies that serve the same groups in the same shares and put
every queue in the same group. Such policies accept the same cursors and choose alike from each. -/
theorem sameRotation_exact :
    (∀ a b, a.validate = .ok () → b.validate = .ok () →
      (sameRotation (some a) (some b) = true ↔
        a.groups.map ResourceFairGroup.name = b.groups.map ResourceFairGroup.name ∧
        a.groups.map (·.weight / a.divisor) = b.groups.map (·.weight / b.divisor) ∧
        a.defaultGroup = b.defaultGroup ∧
        ∀ q, (a.groupFor q).map ResourceFairGroup.name =
          (b.groupFor q).map ResourceFairGroup.name)) ∧
    Equivalence (fun a b : {p : ResourceFairSharing // p.validate = .ok ()} =>
      sameRotation (some a.val) (some b.val) = true) ∧
    ∀ a b, a.validate = .ok () → b.validate = .ok () → sameRotation (some a) (some b) = true →
      (∀ r s : FairResource, r.record.policy.fairSharing = some a →
        s.record.policy.fairSharing = some b → r.cursor = s.cursor →
        (r.checkCursor = .ok () ↔ s.checkCursor = .ok ())) ∧
      (∀ c, a.At c ↔ b.At c) ∧
      ∀ c run, a.offers c run = b.offers c run := by
  have iff : ∀ a b : ResourceFairSharing, a.validate = .ok () → b.validate = .ok () →
      (sameRotation (some a) (some b) = true ↔ Alike a b) := fun a b left right =>
    sameRotation_iff (wellFormed_of_validate left) (wellFormed_of_validate right)
  refine ⟨fun a b left right => ?_, ⟨?_, ?_, ?_⟩, fun a b left right same => ?_⟩
  · rw [iff a b left right]
    constructor
    · intro h
      exact ⟨h.names, h.shares, h.default, h.classify⟩
    · rintro ⟨names, shares, default, classify⟩
      exact ⟨names, shares, default, classify⟩
  · exact fun a => (iff a a a.2 a.2).mpr (.refl a.val)
  · exact fun {a b} h => (iff b a b.2 a.2).mpr ((iff a b a.2 b.2).mp h).symm
  · exact fun {a b c} h k =>
      (iff a c a.2 c.2).mpr (((iff a b a.2 b.2).mp h).trans ((iff b c b.2 c.2).mp k))
  · have alike := (iff a b left right).mp same
    refine ⟨fun r s ra sb cursor => ?_, fun c => ?_, alike.offers⟩
    · rw [checkCursor_iff ra, checkCursor_iff sb, cursor]
      exact alike.inRange s.cursor
    · rw [At, At, alike.slots]

def threeToTwo : ResourceFairSharing where
  groups := [⟨"gold", 3, ["fast"]⟩, ⟨"rest", 2, ["slow"]⟩]
  defaultGroup := "rest"

theorem sameRotation_exact_halved :
    sixToFour.offers .initial [waiting] = threeToTwo.offers .initial [waiting] := by
  obtain ⟨u, left⟩ := exists_of_isOk (x := sixToFour.validate) (by decide +kernel)
  obtain ⟨v, right⟩ := exists_of_isOk (x := threeToTwo.validate) (by decide +kernel)
  have alike : sameRotation (some sixToFour) (some threeToTwo) = true := by decide +kernel
  exact (sameRotation_exact.2.2 _ _ left right alike).2.2 .initial [waiting]

end ResourceFairSharing

/- A resource over offers and changes of its policy. -/

namespace FairResource

/-- `put_resource`, as far as the rotation goes. -/
def changed (r : FairResource) (policy : ResourcePolicy) (now : Nat) : FairResource where
  record := { r.record with
    revision := r.record.revision + 1
    policy := policy
    updatedAt := max now r.record.updatedAt }
  cursor :=
    if ResourceFairSharing.sameRotation r.record.policy.fairSharing policy.fairSharing = true then
      r.cursor
    else .initial
  fairSequence := r.fairSequence

inductive Reached : FairResource → Prop
  | created (record : ResourceRecord) (valid : record.policy.validate = .ok ()) :
    Reached ⟨record, .initial, 0⟩
  | record {r next : FairResource} {p : ResourceFairSharing} {rows : List HeadRow} {h : FairHead}
    {provider : Bool} {generation now : Nat} {d : ResourceOfferDecision} (reached : Reached r)
    (policy : r.record.policy.fairSharing = some p)
    (inside : ∀ row ∈ rows, row.index < p.groups.length) (chosen : p.head r.cursor rows = some h)
    (recorded : h.record r provider generation now = .ok (next, d)) : Reached next
  | changed {r : FairResource} (reached : Reached r) (policy : ResourcePolicy)
    (valid : policy.validate = .ok ()) (now : Nat) : Reached (r.changed policy now)

def Turns (r : FairResource) : Prop :=
  match r.record.policy.fairSharing with
  | none => r.cursor = .initial
  | some p => p.WellFormed ∧ p.At r.cursor

theorem fairSharing_validate {policy : ResourcePolicy} (valid : policy.validate = .ok ())
    {p : ResourceFairSharing} (shared : policy.fairSharing = some p) : p.WellFormed := by
  simp only [ResourcePolicy.validate, bind_eq_ok, refuse_eq_ok, ifSome_eq_ok, exists_unit] at valid
  exact ResourceFairSharing.wellFormed_of_validate (valid.2.1 p shared)

theorem turns_initial {r : FairResource} (valid : r.record.policy.validate = .ok ())
    (initial : r.cursor = .initial) : r.Turns := by
  unfold Turns
  cases shared : r.record.policy.fairSharing with
  | none => exact initial
  | some p => exact ⟨fairSharing_validate valid shared, .inl initial⟩

theorem Turns.changed {r : FairResource} (turns : r.Turns) {policy : ResourcePolicy}
    (valid : policy.validate = .ok ()) (now : Nat) : (r.changed policy now).Turns := by
  by_cases same : ResourceFairSharing.sameRotation r.record.policy.fairSharing
      policy.fairSharing = true
  · have cursor : (r.changed policy now).cursor = r.cursor := if_pos same
    have next : (r.changed policy now).record.policy = policy := rfl
    unfold Turns at turns ⊢
    rw [cursor, next]
    cases old : r.record.policy.fairSharing with
    | none =>
      rw [old] at turns same
      cases new : policy.fairSharing with
      | none => exact turns
      | some b =>
        rw [new] at same
        cases same
    | some a =>
      rw [old] at turns same
      cases new : policy.fairSharing with
      | none =>
        rw [new] at same
        cases same
      | some b =>
        rw [new] at same
        have right := fairSharing_validate valid new
        have alike := (ResourceFairSharing.sameRotation_iff turns.1 right).mp same
        refine ⟨right, ?_⟩
        rw [ResourceFairSharing.At, ← alike.slots]
        exact turns.2
  · exact turns_initial valid (if_neg same)

theorem Reached.turns {r : FairResource} (reached : r.Reached) : r.Turns := by
  induction reached with
  | created record valid => exact turns_initial valid rfl
  | record reached policy inside chosen recorded ih =>
    obtain ⟨rfl, -, -⟩ := FairHead.record_spec recorded
    unfold Turns at ih ⊢
    rw [policy] at ih ⊢
    exact ⟨ih.1, ResourceFairSharing.at_cursor ih.1 inside chosen⟩
  | changed reached policy valid now ih => exact ih.changed valid now

theorem Reached.reloads {r : FairResource} (reached : r.Reached) : r.checkCursor = .ok () := by
  have turns := reached.turns
  unfold Turns at turns
  cases shared : r.record.policy.fairSharing with
  | none =>
    rw [shared] at turns
    rw [checkCursor, refuse_eq_ok, turns]
    rintro ⟨started, -⟩
    cases started
  | some p =>
    rw [shared] at turns
    exact ResourceFairSharing.checkCursor_of_at shared turns.2

/-- However offers and changes of the policy follow each other, a reload accepts the cursor, and
where any group waits, the next offer goes to the first waiting slot of the policy in force. -/
theorem rotation_survives_changes {r : FairResource} (reached : r.Reached) :
    r.checkCursor = .ok () ∧ ∀ p, r.record.policy.fairSharing = some p → ∀ rows : List HeadRow,
      rows ≠ [] → (∀ row ∈ rows, row.index < p.groups.length) → ∃ h, p.head r.cursor rows = some h ∧
        (p.walk r.cursor).find? (ResourceFairSharing.eligible rows) = some (h.round, h.index) := by
  refine ⟨reached.reloads, fun p shared rows waits inside => ?_⟩
  have turns := reached.turns
  rw [Turns, shared] at turns
  obtain ⟨h, chosen⟩ := p.head_isSome r.cursor waits
  exact ⟨h, chosen, ResourceFairSharing.head_first turns.1 turns.2 inside chosen⟩

def sampleShared (p : ResourceFairSharing) : ResourcePolicy :=
  ⟨true, 1, none, 1000, 100, some p⟩

open ResourceFairSharing in
/-- An offer is recorded, and then the weights are halved. -/
theorem rotation_survives_halving :
    ∃ h next d, sixToFour.head .initial waiting = some h ∧
      h.record ⟨⟨⟨"tenant", "namespace"⟩, "gpu", 1, sampleShared sixToFour, 0⟩, .initial, 0⟩ false 1
        5 = .ok (next, d) ∧ (next.changed (sampleShared threeToTwo) 6).checkCursor = .ok () := by
  have offered : (sixToFour.head .initial waiting).map (fun h => (h.record ⟨⟨⟨"tenant",
      "namespace"⟩, "gpu", 1, sampleShared sixToFour, 0⟩, .initial, 0⟩ false 1 5).isOk) =
        some true := by
    decide +kernel
  obtain ⟨h, chosen, accepted⟩ := Option.map_eq_some_iff.mp offered
  obtain ⟨⟨next, d⟩, recorded⟩ := exists_of_isOk accepted
  obtain ⟨u, left⟩ := exists_of_isOk (x := (sampleShared sixToFour).validate) (by decide +kernel)
  obtain ⟨v, right⟩ := exists_of_isOk (x := (sampleShared threeToTwo).validate) (by decide +kernel)
  have created := Reached.created
    ⟨⟨"tenant", "namespace"⟩, "gpu", 1, sampleShared sixToFour, 0⟩ left
  have reached := created.record rfl (by decide) chosen recorded
  exact ⟨h, next, d, chosen, recorded, (rotation_survives_changes (.changed reached _ right 6)).1⟩

end FairResource
end Ledgence
