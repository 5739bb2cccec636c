import Ledgence.Service.Hints

/-! Requests come and go: a queue lives from its first member to its last. -/
open Kit Kit.Checked

namespace Ledgence
namespace Coordinator
namespace State
variable {s t : State} {e : Entry} {q : Queue} {id now : Nat} {key : AcquisitionQueue}

structure Opened (s t : State) (key : AcquisitionQueue) : Prop where
  unique : Table.Unique Queue.key t.queues
  rotation : t.order.Nodup
  rotated : ∀ key, key ∈ t.order ↔ key ∈ t.queues.map Queue.key
  stored : ∀ q ∈ s.queues, q ∈ t.queues
  fresh : ∀ q ∈ t.queues, q ∈ s.queues ∨
    q.key = key ∧ q.active = 0 ∧ q.order = [] ∧ q.isOpen = true ∧ ∀ r ∈ s.queues, r.key ≠ key
  there : ∃ q ∈ t.queues, q.key = key

theorem withQueue_opened (unique : Table.Unique Queue.key s.queues) (rotation : s.order.Nodup)
    (rotated : ∀ key, key ∈ s.order ↔ key ∈ s.queues.map Queue.key) :
    Opened s (s.withQueue key now) key := by
  rw [withQueue]
  split
  · rename_i known
    obtain ⟨q, mem, same⟩ := List.mem_map.mp known
    exact ⟨unique, rotation, rotated, fun _ in' => in', fun _ in' => .inl in', ⟨q, mem, same⟩⟩
  · rename_i unknown
    have absent : ∀ r ∈ s.queues, r.key ≠ key := by
      intro r in' same
      exact unknown (same ▸ List.mem_map_of_mem in')
    refine ⟨Table.unique_append unique absent, ?_, fun k => ?_, fun r in' => by simp [in'], ?_,
      ⟨newQueue key now, by simp, rfl⟩⟩
    · rw [List.nodup_append]
      refine ⟨rotation, List.nodup_singleton _, fun k mem k' mem' same => unknown ?_⟩
      have here : k = key := same.trans (List.mem_singleton.mp mem')
      exact (rotated key).mp (here ▸ mem)
    · have rotated := rotated k
      simp [rotated, newQueue]
    · intro r in'
      obtain old | new := List.mem_append.mp in'
      · exact .inl old
      · rw [List.mem_singleton.mp new]
        exact .inr ⟨rfl, rfl, rfl, rfl, absent⟩

theorem turnsOf_absent (kept : Kept s) (absent : ∀ r ∈ s.queues, r.key ≠ key) :
    s.turnsOf key = 0 ∧ ∀ e ∈ s.entries, e.key.queue ≠ key := by
  have homeless : ∀ e ∈ s.entries, e.key.queue ≠ key := by
    intro e mem same
    obtain ⟨q, stored, home, -⟩ := kept.homes e mem
    exact absent q stored (home.trans same)
  refine ⟨List.countP_eq_zero.mpr fun e mem counts => ?_, homeless⟩
  simp [homeless e mem] at counts

theorem Opened.active (opened : Opened s t key) (kept : Kept s) :
    ∀ q ∈ t.queues, q.active = s.turnsOf q.key := by
  intro q mem
  obtain old | ⟨same, idle, -, -, absent⟩ := opened.fresh q mem
  · exact kept.active q old
  · rw [same, idle, (turnsOf_absent kept absent).1]

theorem Opened.members (opened : Opened s t key) (kept : Kept s) : ∀ q ∈ t.queues, q.order.Nodup ∧
    ∀ id, id ∈ q.order ↔ ∃ e ∈ s.entries, e.id = id ∧ e.key.queue = q.key := by
  intro q mem
  obtain old | ⟨same, -, empty, -, absent⟩ := opened.fresh q mem
  · exact ⟨kept.rotations q old, kept.members q old⟩
  · have homeless := (turnsOf_absent kept absent).2
    refine ⟨by simp [empty], fun id => ?_⟩
    rw [empty, same]
    constructor
    · simp
    · rintro ⟨e, stored, -, home⟩
      exact absurd home (homeless e stored)

theorem Opened.look (opened : Opened s t key) : LooksOn s t := by
  refine fun k => ⟨fun a before => ?_, fun absent b after => ?_⟩
  · rw [State.look, Option.map_eq_some_iff] at before
    obtain ⟨q, found, rfl⟩ := before
    have stored := opened.stored q (Table.find_mem found)
    have same : q.key = k := Table.find_key found
    exact ⟨_, same ▸ look_of_mem opened.unique stored, Nat.le_refl _, fun isOpen => isOpen⟩
  · rw [State.look, Option.map_eq_some_iff] at after
    obtain ⟨q, found, rfl⟩ := after
    rw [State.look, Option.map_eq_none_iff, Table.find_eq_none] at absent
    obtain old | ⟨-, -, -, isOpen, -⟩ := opened.fresh q (Table.find_mem found)
    · exact absurd (Table.find_key found) (absent q old)
    · exact isOpen

theorem Kept.subscribers_eq (kept : Kept s) (key : AcquisitionKey) :
    s.subscribers key = s.entries.countP fun e => decide (e.key = key) := by
  by_cases known : key ∈ s.keys.map Prod.fst
  · obtain ⟨k, stored, rfl⟩ := List.mem_map.mp known
    have found := Table.find_of_mem kept.subscribers stored
    simp [State.subscribers, found, (kept.counted k stored).1]
  · have unknown : Table.find Prod.fst key s.keys = none :=
      Table.find_eq_none.mpr fun k mem same => known (same ▸ List.mem_map_of_mem mem)
    have nobody : s.entries.countP (fun e => decide (e.key = key)) = 0 := by
      refine List.countP_eq_zero.mpr fun e mem counts => known ?_
      have same : e.key = key := by simpa using counts
      exact same ▸ kept.subscribed e mem
    simp [State.subscribers, unknown, nobody]

theorem Kept.subscribe (kept : Kept s) (entry : Entry) :
    let keys := Table.save Prod.fst (entry.key, s.subscribers entry.key + 1) s.keys
    Table.Unique Prod.fst keys ∧ (∀ e ∈ s.entries ++ [entry], e.key ∈ keys.map Prod.fst) ∧
      ∀ k ∈ keys, k.2 = (s.entries ++ [entry]).countP (fun e => decide (e.key = k.1)) ∧ 0 < k.2 := by
  intro keys
  have more (k : AcquisitionKey) : (s.entries ++ [entry]).countP (fun e => decide (e.key = k)) =
      s.entries.countP (fun e => decide (e.key = k)) + if entry.key = k then 1 else 0 := by
    rw [List.countP_append, List.countP_singleton]
    simp
  have others : ∀ k ∈ s.keys, k.1 ≠ entry.key →
      k.2 = (s.entries ++ [entry]).countP (fun e => decide (e.key = k.1)) ∧ 0 < k.2 := by
    intro k mem apart
    rw [more, if_neg fun same => apart same.symm, Nat.add_zero]
    exact kept.counted k mem
  by_cases known : entry.key ∈ s.keys.map Prod.fst
  · have saved : keys = Table.put Prod.fst (entry.key, s.subscribers entry.key + 1) s.keys :=
      if_pos known
    have same : keys.map Prod.fst = s.keys.map Prod.fst := by
      rw [saved]
      exact Table.keys_put
    refine ⟨?_, fun e mem => ?_, fun k mem => ?_⟩
    · rw [saved]
      exact Table.unique_put kept.subscribers
    · rw [same]
      obtain old | new := List.mem_append.mp mem
      · exact kept.subscribed e old
      · rw [List.mem_singleton.mp new]
        exact known
    · rw [saved] at mem
      obtain rfl | ⟨old, apart⟩ := Table.mem_put mem
      · simp [more, kept.subscribers_eq]
      · exact others k old apart
  · have saved : keys = s.keys ++ [(entry.key, s.subscribers entry.key + 1)] := if_neg known
    have absent : ∀ k ∈ s.keys, k.1 ≠ entry.key := by
      intro k mem same
      exact known (same ▸ List.mem_map_of_mem mem)
    refine ⟨?_, fun e mem => ?_, fun k mem => ?_⟩
    · rw [saved]
      exact Table.unique_append kept.subscribers absent
    · rw [saved, List.map_append]
      obtain old | new := List.mem_append.mp mem
      · exact List.mem_append_left _ (kept.subscribed e old)
      · rw [List.mem_singleton.mp new]
        simp
    · rw [saved] at mem
      obtain old | new := List.mem_append.mp mem
      · exact others k old (absent k old)
      · rw [List.mem_singleton.mp new]
        simp [more, kept.subscribers_eq]

def joined (t : State) (q : Queue) (entry : Entry) : State :=
  { t.putQueue { q with order := q.order ++ [entry.id] } with entries := t.entries ++ [entry] }

theorem Opened.joined (opened : Opened s t key) (kept : Kept s) {entry : Entry}
    (entries : t.entries = s.entries) (nominated : t.nominated = s.nominated)
    (keys : t.keys = Table.save Prod.fst (entry.key, s.subscribers entry.key + 1) s.keys)
    (id : entry.id = s.nextId) (nextId : t.nextId = s.nextId + 1) (idle : entry.turn = none)
    (mem : q ∈ t.queues) (same : q.key = key) (home : entry.key.queue = key) :
    Kept (t.joined q entry) := by
  have absent : ∀ e ∈ s.entries, e.id ≠ entry.id := by
    intro e stored
    have older := kept.older e stored
    omega
  have sameKeys : (t.joined q entry).queues.map Queue.key = t.queues.map Queue.key := Table.keys_put
  have all : (t.joined q entry).entries = s.entries ++ [entry] := by
    rw [State.joined, entries]
  have turned (k : AcquisitionQueue) : (t.joined q entry).turnsOf k = s.turnsOf k := by
    rw [turnsOf, all, List.countP_append, List.countP_singleton]
    simp [Entry.hasTurn, idle, turnsOf]
  have members := opened.members kept
  obtain ⟨subscribers, subscribed, counted⟩ := kept.subscribe entry
  refine ⟨?_, ?_, Table.unique_put opened.unique, opened.rotation, ?_, ?_, ?_, ?_, ?_, ?_, ?_, ?_, ?_, ?_,
    ?_⟩
  · rw [all]
    exact Table.unique_append kept.ids absent
  · rw [all]
    intro e stored
    have later : (t.joined q entry).nextId = s.nextId + 1 := nextId
    obtain old | new := List.mem_append.mp stored
    · have older := kept.older e old
      omega
    · rw [List.mem_singleton.mp new]
      omega
  · intro k
    rw [sameKeys]
    exact opened.rotated k
  · intro r in'
    obtain rfl | ⟨in', -⟩ := Table.mem_put in'
    · refine List.nodup_append.mpr ⟨(members q mem).1, List.nodup_singleton _, ?_⟩
      intro a member b last here
      obtain ⟨e, stored, rfl, -⟩ := ((members q mem).2 a).mp member
      exact absent e stored (here.trans (List.mem_singleton.mp last))
    · exact (members r in').1
  · intro r in' member
    rw [all]
    obtain rfl | ⟨in', other⟩ := Table.mem_put in'
    · have before := (members q mem).2 member
      simp [before, home, same, or_and_right, exists_or, eq_comm]
    · have before := (members r in').2 member
      have elsewhere : entry.key.queue ≠ r.key := fun here => other (here.symm.trans (home.trans same.symm))
      simp [before, elsewhere, or_and_right, exists_or]
  · rw [all]
    intro e stored
    have there : ∃ r ∈ (t.joined q entry).queues, r.key = q.key ∧ r.epoch = q.epoch :=
      ⟨_, Table.mem_put_self mem rfl, rfl, rfl⟩
    obtain old | new := List.mem_append.mp stored
    · obtain ⟨r, in', homeR, earlier⟩ := kept.homes e old
      have inT := opened.stored r in'
      by_cases here : r.key = q.key
      · obtain rfl := Table.eq_of_key opened.unique inT mem here
        obtain ⟨r', in'', key', epoch'⟩ := there
        exact ⟨r', in'', key'.trans homeR, by rw [epoch']; exact earlier⟩
      · exact ⟨r, Table.mem_put_other inT here, homeR, earlier⟩
    · obtain ⟨r', in'', key', epoch'⟩ := there
      rw [List.mem_singleton.mp new]
      exact ⟨r', in'', key'.trans (same.trans home.symm), by simp [idle]⟩
  · intro r in' empty
    obtain rfl | ⟨in', other⟩ := Table.mem_put in'
    · simp at empty
    · obtain old | ⟨here, -⟩ := opened.fresh r in'
      · exact kept.inhabited r old empty
      · exact other (here.trans same.symm)
  · exact keys ▸ subscribers
  · rw [all]
    exact keys ▸ subscribed
  · rw [all]
    exact keys ▸ counted
  · have before := kept.nominated
    rw [all, List.countP_append, List.countP_singleton]
    simp [Entry.hasTurn, idle, before, State.joined, putQueue, nominated]
  · intro r in'
    rw [turned]
    obtain rfl | ⟨in', -⟩ := Table.mem_put in'
    · exact opened.active kept q mem
    · exact opened.active kept r in'
  · have bounded := kept.bounded
    exact nominated.le.trans bounded

/-- The new member does not wait yet, and a new queue has no other member. -/
theorem Opened.pumped (opened : Opened s t key) (kept : Kept s) (pumped : Pumped s) (entry : Entry)
    (entries : t.entries = s.entries) (nominated : t.nominated = s.nominated)
    (stopping : t.stopping = s.stopping) (mem : q ∈ t.queues) (asleep : entry.waiting = false) :
    Pumped (t.joined q entry) := by
  obtain stops | full | served := pumped
  · exact .inl (stopping.trans stops)
  · exact .inr (.inl (nominated.trans full))
  · refine .inr (.inr fun k r in' same isOpen room e stored home waits => ?_)
    have before : ∃ r' ∈ t.queues, r'.key = k ∧ r'.isOpen = true ∧ r'.active < r'.width := by
      obtain rfl | ⟨in', -⟩ := Table.mem_put in'
      · exact ⟨q, mem, same, isOpen, room⟩
      · exact ⟨r, in', same, isOpen, room⟩
    obtain ⟨r', inT, same', isOpen', room'⟩ := before
    obtain old | new := List.mem_append.mp stored
    · rw [entries] at old
      obtain inS | ⟨here, -, -, -, absent⟩ := opened.fresh r' inT
      · exact served k r' inS same' isOpen' room' e old home waits
      · have elsewhere := (turnsOf_absent kept absent).2 e old
        exact absurd (home.trans (same'.symm.trans here)) elsewhere
    · rw [List.mem_singleton.mp new, asleep] at waits
      cases waits

theorem withQueue_rest (s : State) : (s.withQueue key now).entries = s.entries ∧
    (s.withQueue key now).keys = s.keys ∧ (s.withQueue key now).nextId = s.nextId ∧
    (s.withQueue key now).nominated = s.nominated ∧ (s.withQueue key now).stopping = s.stopping := by
  rw [withQueue]
  split
  · exact ⟨rfl, rfl, rfl, rfl, rfl⟩
  · exact ⟨rfl, rfl, rfl, rfl, rfl⟩

theorem register_spec (kept : Kept s) (pumped : Pumped s) (key : AcquisitionKey) (now : Nat) :
    Ensures Fault.IsPanic (s.register key now) fun r => r.2 = s.nextId ∧ Next s r.1 ∧
      r.1.nextId = s.nextId + 1 ∧ r.1.entries = s.entries ++ [⟨s.nextId, key, false, false, none⟩] := by
  rw [register]
  simp only [ensures_bind, ensures_refuse]
  refine ⟨fun _ => by simp [Fault.IsPanic], fun _ => ⟨fun _ => by simp [Fault.IsPanic], fun _ => ?_⟩⟩
  rw [ensures_okOr]
  refine ⟨fun _ => by simp [Fault.IsPanic], fun nextId exists' => ?_⟩
  obtain rfl : nextId = s.nextId + 1 := (checkedAdd_eq_some.mp exists').2.symm
  let keys := Table.save Prod.fst (key, s.subscribers key + 1) s.keys
  let base : State := { s with nextId := s.nextId + 1, keys }
  have opened : Opened base (base.withQueue key.queue now) key.queue :=
    withQueue_opened kept.unique kept.rotation kept.rotated
  have openedS : Opened s (base.withQueue key.queue now) key.queue := { opened with }
  obtain ⟨entries, keysT, nextIdT, nominated, stopping⟩ :=
    (withQueue_rest base : (base.withQueue key.queue now).entries = _ ∧ _)
  obtain ⟨q, mem, same⟩ := opened.there
  have unique : Table.Unique Queue.key (base.withQueue key.queue now).queues := opened.unique
  have found := Table.find_of_mem unique mem
  rw [same] at found
  let entry : Entry := ⟨s.nextId, key, false, false, none⟩
  have joined : Kept ((base.withQueue key.queue now).joined q entry) :=
    openedS.joined kept entries nominated keysT rfl nextIdT rfl mem same rfl
  have all : ((base.withQueue key.queue now).joined q entry).entries = s.entries ++ [entry] := by
    rw [State.joined, entries]
  have looks : LooksOn s ((base.withQueue key.queue now).joined q entry) :=
    openedS.look.trans (.of_same (look_putQueue_same unique mem rfl rfl rfl))
  show Ensures Fault.IsPanic ((base.withQueue key.queue now).queue key.queue) _
  rw [queue_eq_ok.mpr found]
  have pumpedJ := openedS.pumped kept pumped entry entries nominated stopping mem rfl
  refine ⟨rfl, (⟨joined, pumpedJ, looks, fun e stored => ⟨e, ?_, rfl, rfl⟩⟩ : Next s _), nextIdT, all⟩
  rw [all]
  exact List.mem_append_left _ stored

def others (s : State) (e : Entry) : List Entry := s.entries.filter fun r => r.id ≠ e.id

theorem mem_others {r : Entry} : r ∈ s.others e ↔ r ∈ s.entries ∧ r.id ≠ e.id := by
  simp [others]

theorem Kept.others_count (kept : Kept s) (mem : e ∈ s.entries) (p : Entry → Bool) :
    (s.others e).countP p + (if p e then 1 else 0) = s.entries.countP p :=
  Table.countP_erase kept.ids mem p

theorem unsubscribe_spec (kept : Kept s) (mem : e ∈ s.entries) :
    Ensures Fault.Any ({ s with entries := s.others e }.unsubscribe e.key) fun t =>
      ∃ keys, t = { s with entries := s.others e, keys } ∧ Table.Unique Prod.fst keys ∧
        (∀ r ∈ s.others e, r.key ∈ keys.map Prod.fst) ∧
        ∀ k ∈ keys, k.2 = (s.others e).countP (fun r => decide (r.key = k.1)) ∧ 0 < k.2 := by
  obtain ⟨k, stored, here⟩ := List.mem_map.mp (kept.subscribed e mem)
  have found : Table.find Prod.fst e.key s.keys = some k := by
    rw [← here]
    exact Table.find_of_mem kept.subscribers stored
  obtain ⟨counted, positive⟩ := kept.counted k stored
  have left : checkedSub k.2 1 = some (k.2 - 1) := checkedSub_eq_some.mpr ⟨by omega, rfl⟩
  have mine := kept.others_count mem fun r => decide (r.key = k.1)
  have stay : ∀ k' ∈ s.keys, k'.1 ≠ e.key →
      k'.2 = (s.others e).countP (fun r => decide (r.key = k'.1)) ∧ 0 < k'.2 := by
    intro k' stored' apart
    have same := kept.others_count mem fun r => decide (r.key = k'.1)
    have before := kept.counted k' stored'
    simp only [apart.symm, decide_false, Bool.false_eq_true, if_false, Nat.add_zero] at same
    rw [same]
    exact before
  simp only [here, decide_true, if_true] at mine counted
  have found' : Table.find Prod.fst e.key ({ s with entries := s.others e } : State).keys = some k :=
    found
  rw [unsubscribe, found']
  simp only [okOr, ok_bind, left, ensures_pure]
  refine ⟨_, rfl, ?_⟩
  by_cases last : k.2 - 1 = 0
  · rw [if_pos last]
    refine ⟨Table.unique_filter kept.subscribers _, fun r other => ?_, fun k' in' => ?_⟩
    · have nobody : (s.others e).countP (fun r => decide (r.key = e.key)) = 0 := by omega
      have apart : r.key ≠ e.key := by
        intro same
        exact List.countP_eq_zero.mp nobody r other (by simp [same])
      obtain ⟨k', in', same⟩ := List.mem_map.mp (kept.subscribed r (mem_others.mp other).1)
      exact List.mem_map.mpr ⟨k', List.mem_filter.mpr ⟨in', by simp [same, apart]⟩, same⟩
    · obtain ⟨stored', apart⟩ := List.mem_filter.mp in'
      exact stay k' stored' (by simpa using apart)
  · rw [if_neg last]
    refine ⟨Table.unique_put kept.subscribers, fun r other => ?_, fun k' in' => ?_⟩
    · rw [Table.keys_put]
      exact kept.subscribed r (mem_others.mp other).1
    · obtain rfl | ⟨stored', apart⟩ := Table.mem_put in'
      · have remaining : k.2 - 1 = (s.others e).countP fun r => decide (r.key = e.key) := by omega
        exact ⟨remaining, Nat.pos_of_ne_zero last⟩
      · exact stay k' stored' apart

theorem Kept.leavers (kept : Kept s) (stored : q ∈ s.queues) (member : Nat) :
    member ∈ (q.order.filter fun id => id ≠ e.id) ↔
      ∃ r ∈ s.others e, r.id = member ∧ r.key.queue = q.key := by
  rw [List.mem_filter, kept.members q stored]
  constructor
  · rintro ⟨⟨r, in', rfl, home⟩, apart⟩
    exact ⟨r, mem_others.mpr ⟨in', by simpa using apart⟩, rfl, home⟩
  · rintro ⟨r, other, rfl, home⟩
    have ⟨in', apart⟩ := mem_others.mp other
    exact ⟨⟨r, in', rfl, home⟩, by simpa using apart⟩

theorem Kept.stayers (kept : Kept s) (mem : e ∈ s.entries) (stored : q ∈ s.queues)
    (apart : q.key ≠ e.key.queue) (member : Nat) :
    member ∈ q.order ↔ ∃ r ∈ s.others e, r.id = member ∧ r.key.queue = q.key := by
  rw [kept.members q stored]
  constructor
  · rintro ⟨r, in', rfl, home⟩
    refine ⟨r, mem_others.mpr ⟨in', fun same => ?_⟩, rfl, home⟩
    obtain rfl := Table.eq_of_key kept.ids in' mem same
    exact apart home.symm
  · rintro ⟨r, other, rfl, home⟩
    exact ⟨r, (mem_others.mp other).1, rfl, home⟩

structure Left (s : State) (e : Entry) (queues : List Queue) (order : List AcquisitionQueue) : Prop where
  unique : Table.Unique Queue.key queues
  rotation : order.Nodup
  rotated : ∀ key, key ∈ order ↔ key ∈ queues.map Queue.key
  members : ∀ q ∈ queues, q.order.Nodup ∧ q.order ≠ [] ∧
    ∀ id, id ∈ q.order ↔ ∃ r ∈ s.others e, r.id = id ∧ r.key.queue = q.key
  before : ∀ q ∈ queues, ∃ q' ∈ s.queues, q'.key = q.key ∧ q'.active = q.active ∧
    q'.epoch = q.epoch ∧ q'.isOpen = q.isOpen ∧ q'.width = q.width
  homes : ∀ r ∈ s.others e, ∃ q ∈ queues, q.key = r.key.queue ∧ ∀ epoch ∈ r.turn, epoch ≤ q.epoch

theorem Left.kept {queues : List Queue} {order : List AcquisitionQueue}
    {keys : List (AcquisitionKey × Nat)} (left : Left s e queues order) (kept : Kept s)
    (mem : e ∈ s.entries) (idle : e.turn = none) (subscribers : Table.Unique Prod.fst keys)
    (subscribed : ∀ r ∈ s.others e, r.key ∈ keys.map Prod.fst)
    (counted : ∀ k ∈ keys, k.2 = (s.others e).countP (fun r => decide (r.key = k.1)) ∧ 0 < k.2) :
    Kept { s with entries := s.others e, keys, queues, order } where
  ids := Table.unique_filter kept.ids _
  older r other := kept.older r (mem_others.mp other).1
  unique := left.unique
  rotation := left.rotation
  rotated := left.rotated
  rotations q mem := (left.members q mem).1
  members q mem := (left.members q mem).2.2
  homes := left.homes
  inhabited q mem := (left.members q mem).2.1
  subscribers := subscribers
  subscribed := subscribed
  counted := counted
  nominated := by
    have same := kept.others_count mem Entry.hasTurn
    have before := kept.nominated
    simp only [Entry.hasTurn, idle, Option.isSome_none, Bool.false_eq_true, if_false,
      Nat.add_zero] at same
    exact before.trans same.symm
  active q mem' := by
    have same := kept.others_count mem fun r => r.hasTurn && decide (r.key.queue = q.key)
    obtain ⟨q', stored, key, active, -⟩ := left.before q mem'
    have before := kept.active q' stored
    simp only [Entry.hasTurn, idle, Option.isSome_none, Bool.false_and, Bool.false_eq_true, if_false,
      Nat.add_zero] at same
    rw [← active, before, key]
    exact same.symm
  bounded := kept.bounded

theorem Left.look {queues : List Queue} {order : List AcquisitionQueue}
    {keys : List (AcquisitionKey × Nat)} (left : Left s e queues order) (kept : Kept s) :
    ∀ key b, ({ s with entries := s.others e, keys, queues, order } : State).look key = some b →
      s.look key = some b := by
  intro k b after
  rw [State.look, Option.map_eq_some_iff] at after
  obtain ⟨q, found, rfl⟩ := after
  obtain ⟨q', stored, same, -, epoch, isOpen, -⟩ := left.before q (Table.find_mem found)
  have key : q.key = k := Table.find_key found
  rw [← key, ← same, look_of_mem kept.unique stored, epoch, isOpen]

/-- Leaving a queue ends it with its last member, and keeps the others as they are. -/
theorem leave_spec (kept : Kept s) (mem : e ∈ s.entries) (keys : List (AcquisitionKey × Nat)) :
    Ensures Fault.Any ({ s with entries := s.others e, keys }.leave e.id e.key.queue) fun t =>
      ∃ queues order, t = { s with entries := s.others e, keys, queues, order } ∧
        Left s e queues order := by
  obtain ⟨q, stored, home, read⟩ := kept.home mem
  have read' : ({ s with entries := s.others e, keys } : State).queue e.key.queue = .ok q := read
  rw [leave, read', ok_bind, ensures_pure]
  split
  · rename_i last
    have alone : ∀ r ∈ s.others e, r.key.queue ≠ q.key := by
      intro r other here
      have member := (kept.leavers stored r.id).mpr ⟨r, other, rfl, here⟩
      rw [last] at member
      cases member
    refine ⟨_, _, rfl, Table.unique_filter kept.unique _, kept.rotation.filter _, fun k => ?_, ?_, ?_, ?_⟩
    · rw [List.mem_filter, kept.rotated]
      constructor
      · rintro ⟨known, apart⟩
        obtain ⟨q', stored', rfl⟩ := List.mem_map.mp known
        exact List.mem_map_of_mem (List.mem_filter.mpr ⟨stored', apart⟩)
      · intro known
        obtain ⟨q', stored', rfl⟩ := List.mem_map.mp known
        have ⟨in', apart⟩ := List.mem_filter.mp stored'
        exact ⟨List.mem_map_of_mem in', apart⟩
    · intro q' in'
      have ⟨stored', apart⟩ := List.mem_filter.mp in'
      exact ⟨kept.rotations q' stored', kept.inhabited q' stored',
        kept.stayers mem stored' (by simpa using apart)⟩
    · intro q' in'
      exact ⟨q', (List.mem_filter.mp in').1, rfl, rfl, rfl, rfl, rfl⟩
    · intro r other
      obtain ⟨q', stored', home', earlier⟩ := kept.homes r (mem_others.mp other).1
      have apart : q'.key ≠ e.key.queue := by
        rw [home', ← home]
        exact alone r other
      exact ⟨q', List.mem_filter.mpr ⟨stored', by simpa using apart⟩, home', earlier⟩
  · rename_i more
    have sameKeys : (Table.put Queue.key { q with order := q.order.filter fun id => id ≠ e.id }
        s.queues).map Queue.key = s.queues.map Queue.key := Table.keys_put
    refine ⟨_, _, rfl, Table.unique_put kept.unique, kept.rotation, fun k => ?_, ?_, ?_, ?_⟩
    · rw [sameKeys]
      exact kept.rotated k
    · intro q' in'
      obtain rfl | ⟨stored', apart⟩ := Table.mem_put in'
      · exact ⟨(kept.rotations q stored).filter _, more, kept.leavers stored⟩
      · have apart : q'.key ≠ e.key.queue := home ▸ apart
        exact ⟨kept.rotations q' stored', kept.inhabited q' stored', kept.stayers mem stored' apart⟩
    · intro q' in'
      obtain rfl | ⟨stored', -⟩ := Table.mem_put in'
      · exact ⟨q, stored, rfl, rfl, rfl, rfl, rfl⟩
      · exact ⟨q', stored', rfl, rfl, rfl, rfl, rfl⟩
    · intro r other
      obtain ⟨q', stored', home', earlier⟩ := kept.homes r (mem_others.mp other).1
      by_cases same : q'.key = q.key
      · obtain rfl := Table.eq_of_key kept.unique stored' stored same
        exact ⟨_, Table.mem_put_self stored' rfl, home', earlier⟩
      · exact ⟨q', Table.mem_put_other stored' same, home', earlier⟩

/-- The end of a registration leaves all others, and the queues that they wait for. -/
theorem drop_spec (kept : Kept s) (mem : e ∈ s.entries) :
    Ensures Fault.Any (s.drop e.id) fun t => Kept t ∧ Pumped t ∧
      (∀ key b, t.look key = some b → s.look key = some b) ∧
      ∀ r ∈ s.entries, r.id ≠ e.id → ∃ r' ∈ t.entries, r'.id = r.id ∧ r'.key = r.key := by
  rw [drop, ensures_bind]
  refine (releaseTurn_spec kept mem).mono ?_
  rintro t ⟨keptT, same, idle⟩
  obtain ⟨e', stored, id, key⟩ := same.identity mem
  rw [← id, entry_spec keptT.ids stored, ok_bind, ensures_bind]
  refine (unsubscribe_spec keptT stored).mono ?_
  rintro _ ⟨keys, rfl, subscribers, subscribed, counted⟩
  rw [ensures_bind]
  refine (leave_spec keptT stored keys).mono ?_
  rintro _ ⟨queues, order, rfl, left⟩
  have keptL := left.kept keptT stored (idle e' stored id) subscribers subscribed counted
  refine (pump_spec keptL).mono ?_
  rintro u ⟨keptU, sameU, pumped⟩
  refine ⟨keptU, pumped, fun k b after => ?_, fun r in' apart => ?_⟩
  · rw [sameU.look] at after
    rw [← same.look]
    exact left.look keptT k b after
  · obtain ⟨r₁, in₁, id₁, key₁⟩ := same.identity in'
    have apart₁ : r₁.id ≠ e'.id := by
      rw [id₁]
      exact apart
    obtain ⟨r₂, in₂, id₂, key₂⟩ := sameU.identity (mem_others.mpr ⟨in₁, apart₁⟩)
    exact ⟨r₂, in₂, id₂.trans id₁, key₂.trans key₁⟩

end State
end Coordinator
end Ledgence
