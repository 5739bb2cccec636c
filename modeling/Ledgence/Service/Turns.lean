import Ledgence.Service.Coordinator

/-! The coordinator counts each turn once, and a pump leaves no turn that could be given. -/
open Kit Kit.Checked

namespace Ledgence
namespace Coordinator

def Entry.hasTurn (e : Entry) : Bool := e.turn.isSome

def Entry.shape (e : Entry) : Nat × AcquisitionKey × Bool × Bool :=
  (e.id, e.key, e.waiting, e.receipt)

def Queue.shape (q : Queue) : AcquisitionQueue × Nat × Bool × Nat × Nat :=
  (q.key, q.epoch, q.isOpen, q.width, q.nextTick)

namespace State

def turnsOf (s : State) (key : AcquisitionQueue) : Nat :=
  s.entries.countP fun e => e.hasTurn && decide (e.key.queue = key)

structure Kept (s : State) : Prop where
  ids : Table.Unique Entry.id s.entries
  older : ∀ e ∈ s.entries, e.id < s.nextId
  unique : Table.Unique Queue.key s.queues
  rotation : s.order.Nodup
  rotated : ∀ key, key ∈ s.order ↔ key ∈ s.queues.map Queue.key
  rotations : ∀ q ∈ s.queues, q.order.Nodup
  members : ∀ q ∈ s.queues, ∀ id, id ∈ q.order ↔ ∃ e ∈ s.entries, e.id = id ∧ e.key.queue = q.key
  homes : ∀ e ∈ s.entries, ∃ q ∈ s.queues, q.key = e.key.queue ∧ ∀ epoch ∈ e.turn, epoch ≤ q.epoch
  inhabited : ∀ q ∈ s.queues, q.order ≠ []
  subscribers : Table.Unique Prod.fst s.keys
  subscribed : ∀ e ∈ s.entries, e.key ∈ s.keys.map Prod.fst
  counted : ∀ k ∈ s.keys, k.2 = s.entries.countP (fun e => decide (e.key = k.1)) ∧ 0 < k.2
  nominated : s.nominated = s.entries.countP Entry.hasTurn
  active : ∀ q ∈ s.queues, q.active = s.turnsOf q.key
  bounded : s.nominated ≤ maxProbes

structure SameShape (s t : State) : Prop where
  entries : t.entries.map Entry.shape = s.entries.map Entry.shape
  queues : t.queues.map Queue.shape = s.queues.map Queue.shape
  keys : t.keys = s.keys
  nextId : t.nextId = s.nextId
  stopping : t.stopping = s.stopping

def Served (s : State) (key : AcquisitionQueue) : Prop :=
  ∀ q ∈ s.queues, q.key = key → q.isOpen = true → q.active < q.width →
    ∀ e ∈ s.entries, e.key.queue = key → e.waiting = true → e.turn.isSome = true

/-- Work is conserved: a turn is free only when nobody could use it. -/
def Pumped (s : State) : Prop :=
  s.stopping = true ∨ s.nominated = maxProbes ∨ ∀ key, s.Served key

variable {s t u : State} {e e' : Entry} {q q' : Queue} {id : Nat} {key : AcquisitionQueue}

theorem SameShape.refl : SameShape s s := ⟨rfl, rfl, rfl, rfl, rfl⟩

theorem SameShape.trans (first : SameShape s t) (rest : SameShape t u) : SameShape s u :=
  ⟨rest.entries.trans first.entries, rest.queues.trans first.queues, rest.keys.trans first.keys,
    rest.nextId.trans first.nextId, rest.stopping.trans first.stopping⟩

theorem entry_eq_ok : s.entry id = .ok e ↔ Table.find Entry.id id s.entries = some e := by
  simp [entry]

theorem queue_eq_ok : s.queue key = .ok q ↔ Table.find Queue.key key s.queues = some q := by
  simp [queue]

theorem entry_spec (ids : Table.Unique Entry.id s.entries) (mem : e ∈ s.entries) :
    s.entry e.id = .ok e :=
  entry_eq_ok.mpr (Table.find_of_mem ids mem)

theorem queue_spec (unique : Table.Unique Queue.key s.queues) (mem : q ∈ s.queues) :
    s.queue q.key = .ok q :=
  queue_eq_ok.mpr (Table.find_of_mem unique mem)

theorem Kept.home (kept : Kept s) (mem : e ∈ s.entries) :
    ∃ q ∈ s.queues, q.key = e.key.queue ∧ s.queue e.key.queue = .ok q := by
  obtain ⟨q, stored, same, -⟩ := kept.homes e mem
  exact ⟨q, stored, same, by rw [← same]; exact queue_spec kept.unique stored⟩

theorem Kept.mapEntries (kept : Kept s) (f : Entry → Entry)
    (same : ∀ e ∈ s.entries, (f e).id = e.id ∧ (f e).key = e.key ∧ (f e).turn = e.turn) :
    Kept { s with entries := s.entries.map f } := by
  have count (p p' : Entry → Bool) (agree : ∀ e ∈ s.entries, p (f e) = p' e) :
      (s.entries.map f).countP p = s.entries.countP p' := by
    rw [List.countP_map]
    refine List.countP_congr fun e mem => ?_
    simp [agree e mem]
  refine ⟨?_, ?_, kept.unique, kept.rotation, kept.rotated, kept.rotations, ?_, ?_, kept.inhabited,
    kept.subscribers, ?_, ?_, ?_, ?_, kept.bounded⟩
  · have keys : (s.entries.map f).map Entry.id = s.entries.map Entry.id := by
      rw [List.map_map]
      exact List.map_congr_left fun e mem => (same e mem).1
    rw [Table.Unique, keys]
    exact kept.ids
  · simp only [List.forall_mem_map]
    exact fun e mem => by rw [(same e mem).1]; exact kept.older e mem
  · intro q mem id
    rw [kept.members q mem id]
    constructor
    · rintro ⟨e, stored, rfl, home⟩
      exact ⟨f e, List.mem_map_of_mem stored, (same e stored).1, by rw [(same e stored).2.1, home]⟩
    · rintro ⟨_, mapped, rfl, home⟩
      obtain ⟨e, stored, rfl⟩ := List.mem_map.mp mapped
      exact ⟨e, stored, (same e stored).1.symm, by rw [← (same e stored).2.1, home]⟩
  · simp only [List.forall_mem_map]
    intro e mem
    rw [(same e mem).2.1, (same e mem).2.2]
    exact kept.homes e mem
  · simp only [List.forall_mem_map]
    exact fun e mem => by rw [(same e mem).2.1]; exact kept.subscribed e mem
  · intro k mem
    have agree := count (fun e => decide (e.key = k.1)) (fun e => decide (e.key = k.1))
      fun e stored => by rw [(same e stored).2.1]
    rw [agree]
    exact kept.counted k mem
  · have agree := count Entry.hasTurn Entry.hasTurn fun e stored => by
      rw [Entry.hasTurn, Entry.hasTurn, (same e stored).2.2]
    rw [agree]
    exact kept.nominated
  · intro q mem
    have agree := count (fun e => e.hasTurn && decide (e.key.queue = q.key))
      (fun e => e.hasTurn && decide (e.key.queue = q.key)) fun e stored => by
        rw [Entry.hasTurn, Entry.hasTurn, (same e stored).2.1, (same e stored).2.2]
    rw [turnsOf, agree]
    exact kept.active q mem

theorem Kept.putEntry (kept : Kept s) (mem : e ∈ s.entries) (id : e'.id = e.id)
    (key : e'.key = e.key) (turn : e'.turn = e.turn) : Kept (s.putEntry e') := by
  refine kept.mapEntries _ fun r stored => ?_
  by_cases same : r.id = e'.id
  · obtain rfl : r = e := Table.eq_of_key kept.ids stored mem (same.trans id)
    rw [if_pos same]
    exact ⟨id, key, turn⟩
  · rw [if_neg same]
    exact ⟨rfl, rfl, rfl⟩

theorem Kept.mapQueues (kept : Kept s) (f : Queue → Queue)
    (same : ∀ q ∈ s.queues, (f q).key = q.key ∧ (f q).active = q.active ∧ (f q).order = q.order ∧
      q.epoch ≤ (f q).epoch) : Kept { s with queues := s.queues.map f } := by
  have keys : (s.queues.map f).map Queue.key = s.queues.map Queue.key := by
    rw [List.map_map]
    exact List.map_congr_left fun q mem => (same q mem).1
  refine ⟨kept.ids, kept.older, ?_, kept.rotation, ?_, ?_, ?_, ?_, ?_, kept.subscribers,
    kept.subscribed, kept.counted, kept.nominated, ?_, kept.bounded⟩
  · rw [Table.Unique, keys]
    exact kept.unique
  · intro key
    rw [keys]
    exact kept.rotated key
  · simp only [List.forall_mem_map]
    exact fun q mem => by rw [(same q mem).2.2.1]; exact kept.rotations q mem
  · simp only [List.forall_mem_map]
    intro q mem
    rw [(same q mem).1, (same q mem).2.2.1]
    exact kept.members q mem
  · intro e mem
    obtain ⟨q, stored, home, earlier⟩ := kept.homes e mem
    refine ⟨f q, List.mem_map_of_mem stored, by rw [(same q stored).1, home], ?_⟩
    exact fun epoch turn => Nat.le_trans (earlier epoch turn) (same q stored).2.2.2
  · simp only [List.forall_mem_map]
    exact fun q mem => by rw [(same q mem).2.2.1]; exact kept.inhabited q mem
  · simp only [List.forall_mem_map]
    intro q mem
    rw [(same q mem).1, (same q mem).2.1]
    exact kept.active q mem

theorem Kept.putQueue (kept : Kept s) (mem : q ∈ s.queues) (key : q'.key = q.key)
    (active : q'.active = q.active) (order : q'.order = q.order) (later : q.epoch ≤ q'.epoch) :
    Kept (s.putQueue q') := by
  refine kept.mapQueues _ fun r stored => ?_
  by_cases same : r.key = q'.key
  · obtain rfl : r = q := Table.eq_of_key kept.unique stored mem (same.trans key)
    rw [if_pos same]
    exact ⟨key, active, order, later⟩
  · rw [if_neg same]
    exact ⟨rfl, rfl, rfl, Nat.le_refl _⟩

def once (turn : Option Nat) : Nat :=
  if turn.isSome then 1 else 0

theorem Kept.turn (kept : Kept s) (mem : e ∈ s.entries) (stored : q ∈ s.queues)
    (home : q.key = e.key.queue) {turn : Option Nat} (earlier : ∀ epoch ∈ turn, epoch ≤ q.epoch)
    {active nominated : Nat} {order : List Nat} (rotated : order.Perm q.order)
    (queued : active + once e.turn = q.active + once turn)
    (overall : nominated + once e.turn = s.nominated + once turn) (bounded : nominated ≤ maxProbes) :
    Kept { (s.putEntry { e with turn }).putQueue { q with active, order } with nominated } := by
  have count (p : Entry → Bool) :
      (Table.put Entry.id { e with turn } s.entries).countP p + (if p e then 1 else 0) =
        s.entries.countP p + (if p { e with turn } then 1 else 0) := by
    have sameId : Entry.id e = Entry.id { e with turn } := rfl
    exact Table.countP_put kept.ids mem sameId p
  refine ⟨Table.unique_put kept.ids, ?_, Table.unique_put kept.unique, kept.rotation, ?_, ?_, ?_, ?_,
    ?_, kept.subscribers, ?_, ?_, ?_, ?_, bounded⟩
  · intro r in'
    obtain rfl | ⟨in', -⟩ := Table.mem_put in'
    · exact kept.older e mem
    · exact kept.older r in'
  · intro key
    rw [show (((s.putEntry { e with turn }).putQueue { q with active, order }).queues).map Queue.key =
      s.queues.map Queue.key from Table.keys_put]
    exact kept.rotated key
  · intro r in'
    obtain rfl | ⟨in', -⟩ := Table.mem_put in'
    · exact rotated.nodup_iff.mpr (kept.rotations q stored)
    · exact kept.rotations r in'
  · have members : ∀ id key, (∃ r ∈ Table.put Entry.id { e with turn } s.entries, r.id = id ∧
        r.key.queue = key) ↔ ∃ r ∈ s.entries, r.id = id ∧ r.key.queue = key := by
      intro id key
      constructor
      · rintro ⟨r, in', rfl, there⟩
        obtain rfl | ⟨in', -⟩ := Table.mem_put in'
        · exact ⟨e, mem, rfl, there⟩
        · exact ⟨r, in', rfl, there⟩
      · rintro ⟨r, in', rfl, there⟩
        by_cases same : r.id = e.id
        · obtain rfl := Table.eq_of_key kept.ids in' mem same
          exact ⟨_, Table.mem_put_self in' rfl, rfl, there⟩
        · exact ⟨r, Table.mem_put_other in' same, rfl, there⟩
    intro r in' id
    refine Iff.trans ?_ (members id r.key).symm
    obtain rfl | ⟨in', -⟩ := Table.mem_put in'
    · exact (rotated.mem_iff).trans (kept.members q stored id)
    · exact kept.members r in' id
  · intro r in'
    obtain rfl | ⟨in', -⟩ := Table.mem_put in'
    · exact ⟨_, Table.mem_put_self stored rfl, home, earlier⟩
    · obtain ⟨q₁, stored₁, home₁, earlier₁⟩ := kept.homes r in'
      by_cases same : q₁.key = q.key
      · obtain rfl := Table.eq_of_key kept.unique stored₁ stored same
        exact ⟨_, Table.mem_put_self stored₁ rfl, home₁, earlier₁⟩
      · exact ⟨q₁, Table.mem_put_other stored₁ same, home₁, earlier₁⟩
  · intro r in'
    obtain rfl | ⟨in', -⟩ := Table.mem_put in'
    · intro none'
      have empty : q.order = [] := List.Perm.eq_nil (none' ▸ rotated.symm)
      exact kept.inhabited q stored empty
    · exact kept.inhabited r in'
  · intro r in'
    obtain rfl | ⟨in', -⟩ := Table.mem_put in'
    · exact kept.subscribed e mem
    · exact kept.subscribed r in'
  · intro k in'
    have same := count fun r => decide (r.key = k.1)
    obtain ⟨known, positive⟩ := kept.counted k in'
    refine ⟨known.trans ?_, positive⟩
    exact (Nat.add_right_cancel same).symm
  · have here : (Table.put Entry.id { e with turn } s.entries).countP Entry.hasTurn + once e.turn =
        s.entries.countP Entry.hasTurn + once turn := count Entry.hasTurn
    have known := kept.nominated
    show nominated = (Table.put Entry.id { e with turn } s.entries).countP Entry.hasTurn
    omega
  · intro r in'
    have here := count fun e => e.hasTurn && decide (e.key.queue = r.key)
    show r.active = (Table.put Entry.id { e with turn } s.entries).countP fun e =>
      e.hasTurn && decide (e.key.queue = r.key)
    obtain rfl | ⟨in', other⟩ := Table.mem_put in'
    · have known := kept.active q stored
      simp only [turnsOf, Entry.hasTurn, home, decide_true, Bool.and_true] at here known ⊢
      simp only [once] at queued
      omega
    · have known := kept.active r in'
      have elsewhere : e.key.queue ≠ r.key := fun same => other (same.symm.trans home.symm)
      simp only [elsewhere, decide_false, Bool.and_false, Bool.false_eq_true, ite_false,
        Nat.add_zero] at here
      rw [known, turnsOf, here]

theorem SameShape.entry (same : SameShape s t) (mem : e ∈ s.entries) :
    ∃ e' ∈ t.entries, e'.shape = e.shape := by
  have there : e.shape ∈ t.entries.map Entry.shape := by
    rw [same.entries]
    exact List.mem_map_of_mem mem
  simpa using there

theorem Kept.sameShape (kept : Kept s) (mem : e ∈ s.entries) (stored : q ∈ s.queues)
    (turn : Option Nat) (active nominated : Nat) (order : List Nat) :
    SameShape s
      { (s.putEntry { e with turn }).putQueue { q with active, order } with nominated } where
  entries := by
    refine Table.map_put fun r in' same => ?_
    obtain rfl := Table.eq_of_key kept.ids in' mem same
    rfl
  queues := by
    refine Table.map_put fun r in' same => ?_
    obtain rfl := Table.eq_of_key kept.unique in' stored same
    rfl
  keys := rfl
  nextId := rfl
  stopping := rfl

theorem once_le_turns (mem : e ∈ s.entries) (home : e.key.queue = key) :
    once e.turn ≤ s.turnsOf key := by
  cases turn : e.turn with
  | none => simp [once]
  | some epoch =>
    have positive : 0 < s.turnsOf key :=
      List.countP_pos_iff.mpr ⟨e, mem, by simp [Entry.hasTurn, turn, home]⟩
    simpa [once] using Nat.succ_le_of_lt positive

theorem turnsOf_le (s : State) (key : AcquisitionQueue) :
    s.turnsOf key ≤ s.entries.countP Entry.hasTurn := by
  refine List.countP_mono_left fun e _ held => ?_
  rw [Bool.and_eq_true] at held
  exact held.1

theorem releaseTurn_spec (kept : Kept s) (mem : e ∈ s.entries) :
    Ensures Fault.Any (s.releaseTurn e.id) fun t => Kept t ∧ SameShape s t ∧
      ∀ r ∈ t.entries, r.id = e.id → r.turn = none := by
  rw [releaseTurn, entry_spec kept.ids mem, ok_bind]
  split
  · rename_i held
    obtain ⟨q, stored, home, read⟩ := kept.home mem
    have counted := kept.active q stored
    have mine := once_le_turns (s := s) mem home.symm
    have less := turnsOf_le s q.key
    have overall := kept.nominated
    have bounded := kept.bounded
    have one : once e.turn = 1 := by simp [once, held]
    have nominated : checkedSub s.nominated 1 = some (s.nominated - 1) :=
      checkedSub_eq_some.mpr ⟨by omega, rfl⟩
    have active : checkedSub q.active 1 = some (q.active - 1) :=
      checkedSub_eq_some.mpr ⟨by omega, rfl⟩
    have read' : (s.putEntry { e with turn := none }).queue e.key.queue = .ok q := read
    have overall' : (s.putEntry { e with turn := none }).nominated = s.nominated := rfl
    simp only [overall', nominated, read', active, okOr, ok_bind, ensures_pure]
    refine ⟨?_, kept.sameShape mem stored none (q.active - 1) (s.nominated - 1) q.order, ?_⟩
    rotate_left
    · intro r in' same
      obtain rfl | ⟨-, other⟩ := Table.mem_put in'
      · rfl
      · exact absurd same other
    have zero : once none = 0 := rfl
    have queued : q.active - 1 + once e.turn = q.active + once none := by omega
    have total : s.nominated - 1 + once e.turn = s.nominated + once none := by omega
    exact kept.turn mem stored home (by simp) (List.Perm.refl _) queued total (by omega)
  · rename_i idle
    refine ⟨kept, .refl, fun r in' same => ?_⟩
    obtain rfl := Table.eq_of_key kept.ids in' mem same
    simpa using idle

theorem parked_spec (kept : Kept s) {ids : List Nat}
    (members : ∀ id ∈ ids, ∃ e ∈ s.entries, e.id = id) :
    Ensures Fault.Any (s.parked ids) fun found => ∀ id ∈ found, id ∈ ids := by
  induction ids with
  | nil => simp [parked]
  | cons id ids ih =>
    obtain ⟨e, mem, rfl⟩ := members id (by simp)
    rw [parked, entry_spec kept.ids mem, ok_bind, ensures_bind]
    refine (ih fun id later => members id (by simp [later])).mono fun rest sub => ?_
    rw [ensures_pure]
    intro id found
    split at found
    · obtain rfl | found := List.mem_cons.mp found
      · simp
      · simp [sub id found]
    · simp [sub id found]

theorem revokeParkedTurns_spec (kept : Kept s) (mem : q ∈ s.queues) :
    Ensures Fault.Any (s.revokeParkedTurns q.key) fun t => Kept t ∧ SameShape s t := by
  rw [revokeParkedTurns, queue_spec kept.unique mem, ok_bind]
  split
  · exact ⟨kept, .refl⟩
  · have members : ∀ id ∈ q.order, ∃ e ∈ s.entries, e.id = id := by
      intro id member
      obtain ⟨e, stored, same, -⟩ := (kept.members q mem id).mp member
      exact ⟨e, stored, same⟩
    rw [ensures_bind]
    refine (parked_spec kept members).mono fun ids sub => ?_
    have start : Kept s ∧ SameShape s s := ⟨kept, .refl⟩
    refine ensures_foldlM (fun t id found inv => ?_) start
    have ⟨keptT, same⟩ := inv
    obtain ⟨e, stored, rfl⟩ := members id (sub id found)
    obtain ⟨e', stored', shape⟩ := same.entry stored
    simp only [Entry.shape, Prod.mk.injEq] at shape
    rw [← shape.1]
    exact (releaseTurn_spec keptT stored').mono fun u done => ⟨done.1, same.trans done.2.1⟩

/-- A full rotation finds a member that waits without a turn, if there is one. -/
theorem nextWaiting_spec (kept : Kept s) (left : Nat) {order : List Nat} (enough : left ≤ order.length)
    (members : ∀ id ∈ order, ∃ e ∈ s.entries, e.id = id) :
    Ensures Fault.Any (s.nextWaiting left order) fun found => found.1.Perm order ∧
      (∀ e ∈ found.2, e ∈ s.entries ∧ e.id ∈ order ∧ e.turn = none) ∧
      (found.2 = none → ∀ e ∈ s.entries, e.id ∈ order.take left → e.waiting = true →
        e.turn.isSome = true) := by
  induction left generalizing order with
  | zero => simp [nextWaiting]
  | succ left ih =>
    cases order with
    | nil => simp at enough
    | cons id order =>
      obtain ⟨e, mem, rfl⟩ := members id (by simp)
      rw [nextWaiting, entry_spec kept.ids mem, ok_bind]
      have rotated : (order ++ [e.id]).Perm (e.id :: order) := List.perm_append_singleton _ _
      split
      · rename_i waits
        refine ⟨rotated, ?_, by simp⟩
        rintro _ ⟨⟩
        exact ⟨mem, by simp, waits.2⟩
      · rename_i served
        have enough' : left ≤ (order ++ [e.id]).length := by
          simp only [List.length_append, List.length_cons, List.length_nil] at enough ⊢
          omega
        refine (ih enough' fun id member => members id (rotated.mem_iff.mp member)).mono ?_
        rintro ⟨order', found⟩ ⟨perm, given, none'⟩
        refine ⟨perm.trans rotated, ?_, fun nobody e' stored member waiting => ?_⟩
        · intro e' known
          obtain ⟨stored, member, free⟩ := given e' known
          exact ⟨stored, rotated.mem_iff.mp member, free⟩
        · rw [List.take_succ_cons] at member
          obtain same | later := List.mem_cons.mp member
          · obtain rfl := Table.eq_of_key kept.ids stored mem same
            by_contra free
            exact served ⟨waiting, by simpa using free⟩
          · refine none' nobody e' stored ?_ waiting
            rw [List.take_append_of_le_length (by simpa using enough)]
            exact later

theorem Kept.rotate (kept : Kept s) {rest : List AcquisitionQueue} (rotation : s.order = key :: rest) :
    Kept { s with order := rest ++ [key] } := by
  have perm : (rest ++ [key]).Perm s.order := by
    rw [rotation]
    exact List.perm_append_singleton _ _
  exact { kept with
    rotation := perm.nodup_iff.mpr kept.rotation
    rotated := fun k => perm.mem_iff.trans (kept.rotated k) }

theorem Kept.reorder (kept : Kept s) (mem : q ∈ s.queues) {order : List Nat}
    (perm : order.Perm q.order) : Kept (s.putQueue { q with order }) := by
  have here (r : Queue) (in' : r ∈ (s.putQueue { q with order }).queues) :
      ∃ r' ∈ s.queues, r'.key = r.key ∧ r'.active = r.active ∧ r.order.Perm r'.order ∧
        r'.epoch = r.epoch := by
    obtain rfl | ⟨in', -⟩ := Table.mem_put in'
    · exact ⟨q, mem, rfl, rfl, perm, rfl⟩
    · exact ⟨r, in', rfl, rfl, .refl _, rfl⟩
  refine ⟨kept.ids, kept.older, Table.unique_put kept.unique, kept.rotation, ?_, ?_, ?_, ?_, ?_,
    kept.subscribers, kept.subscribed, kept.counted, kept.nominated, ?_, kept.bounded⟩
  · intro k
    have keys : (s.putQueue { q with order }).queues.map Queue.key = s.queues.map Queue.key :=
      Table.keys_put
    rw [keys]
    exact kept.rotated k
  · intro r in'
    obtain ⟨r', stored, -, -, perm', -⟩ := here r in'
    exact perm'.nodup_iff.mpr (kept.rotations r' stored)
  · intro r in' id
    obtain ⟨r', stored, same, -, perm', -⟩ := here r in'
    rw [perm'.mem_iff, ← same]
    exact kept.members r' stored id
  · intro e stored
    obtain ⟨r, in', home, earlier⟩ := kept.homes e stored
    by_cases same : r.key = q.key
    · obtain rfl := Table.eq_of_key kept.unique in' mem same
      exact ⟨_, Table.mem_put_self in' rfl, home, earlier⟩
    · exact ⟨r, Table.mem_put_other in' same, home, earlier⟩
  · intro r in' none'
    obtain ⟨r', stored, -, -, perm', -⟩ := here r in'
    rw [none'] at perm'
    exact kept.inhabited r' stored (List.Perm.eq_nil perm'.symm)
  · intro r in'
    obtain ⟨r', stored, same, count, -, -⟩ := here r in'
    rw [← count, ← same]
    exact kept.active r' stored

/-- Visiting the next queue gives one turn, or finds that the queue has no use for one. -/
theorem visit_spec (kept : Kept s) {rest : List AcquisitionQueue} (rotation : s.order = key :: rest)
    (free : s.nominated < maxProbes) :
    Ensures Fault.Any s.visit fun found => Kept found.1 ∧ SameShape s found.1 ∧
      found.1.order = rest ++ [key] ∧
      (found.2 = true → found.1.nominated = s.nominated + 1) ∧
      (found.2 = false → found.1.nominated = s.nominated ∧ found.1.Served key ∧
        ∀ other, s.Served other → found.1.Served other) := by
  have known : key ∈ s.queues.map Queue.key := (kept.rotated key).mp (by simp [rotation])
  obtain ⟨q, mem, rfl⟩ := List.mem_map.mp known
  have keptR := kept.rotate rotation
  rw [visit, rotation]
  simp only [queue_spec kept.unique mem, ok_bind]
  split
  · have members : ∀ id ∈ q.order, ∃ e ∈ s.entries, e.id = id := by
      intro id member
      obtain ⟨e, stored, same, -⟩ := (kept.members q mem id).mp member
      exact ⟨e, stored, same⟩
    rw [ensures_bind]
    refine (nextWaiting_spec keptR q.order.length (Nat.le_refl _) members).mono ?_
    rintro ⟨order, found⟩ ⟨perm, given, none'⟩
    cases found with
    | some e =>
      obtain ⟨stored, member, idle⟩ := given e rfl
      obtain ⟨e', stored', same, home⟩ := (kept.members q mem e.id).mp member
      obtain rfl := Table.eq_of_key kept.ids stored' stored same
      have queued : q.active + 1 + once e'.turn = q.active + once (some q.epoch) := by
        simp [once, idle]
      have total : s.nominated + 1 + once e'.turn = s.nominated + once (some q.epoch) := by
        simp [once, idle]
      have turned := keptR.turn stored mem home.symm (by rintro _ ⟨⟩; exact Nat.le_refl _) perm
        queued total free
      have shape := keptR.sameShape stored mem (some q.epoch) (q.active + 1) (s.nominated + 1) order
      have same : SameShape s _ :=
        ⟨shape.entries, shape.queues, shape.keys, shape.nextId, shape.stopping⟩
      exact ⟨turned, same, rfl, fun _ => rfl, by simp⟩
    | none =>
      have reordered := keptR.reorder mem perm
      refine ⟨reordered, ?_, rfl, by simp, fun _ => ⟨rfl, ?_, ?_⟩⟩
      · refine ⟨rfl, Table.map_put fun r in' same => ?_, rfl, rfl, rfl⟩
        obtain rfl := Table.eq_of_key kept.unique in' mem same
        rfl
      · intro r in' same isOpen room e stored home waiting
        refine none' rfl e stored ?_ waiting
        rw [List.take_length]
        exact (kept.members q mem e.id).mpr ⟨e, stored, rfl, home⟩
      · intro other served r in' same isOpen room e stored home waiting
        obtain rfl | ⟨in', -⟩ := Table.mem_put in'
        · exact served q mem same isOpen room e stored home waiting
        · exact served r in' same isOpen room e stored home waiting
  · rename_i idle
    refine ⟨keptR, ⟨rfl, rfl, rfl, rfl, rfl⟩, rfl, by simp, fun _ => ⟨rfl, ?_, fun _ served => served⟩⟩
    intro r in' same isOpen room
    obtain rfl := Table.eq_of_key kept.unique in' mem same
    exact absurd ⟨isOpen, room⟩ idle

theorem scan_spec (remaining : Nat) (kept : Kept s) (enough : remaining ≤ s.order.length)
    (served : ∀ other ∈ s.order.drop remaining, s.Served other) :
    Ensures Fault.Any (scan remaining s) fun found => Kept found.1 ∧ SameShape s found.1 ∧
      (found.2 = true → found.1.nominated = s.nominated + 1) ∧
      (found.2 = false → found.1.Pumped) := by
  induction remaining generalizing s with
  | zero =>
    refine ⟨kept, .refl, by simp, fun _ => .inr (.inr fun key q mem same => ?_)⟩
    have known : key ∈ s.order := (kept.rotated key).mpr (same ▸ List.mem_map_of_mem mem)
    exact served key (by simpa using known) q mem same
  | succ remaining ih =>
    rw [scan]
    split
    · rename_i free
      cases rotation : s.order with
      | nil => simp [rotation] at enough
      | cons key rest =>
        rw [ensures_bind]
        refine (visit_spec kept rotation free).mono ?_
        rintro ⟨t, given⟩ ⟨keptT, same, order, gave, idle⟩
        cases given with
        | true => exact ⟨keptT, same, fun _ => gave rfl, by simp⟩
        | false =>
          obtain ⟨count, here, others⟩ := idle rfl
          have order : t.order = rest ++ [key] := order
          simp only [rotation, List.length_cons] at enough
          have enough' : remaining ≤ t.order.length := by
            rw [order, List.length_append]
            omega
          have served' : ∀ other ∈ t.order.drop remaining, t.Served other := by
            intro other later
            rw [order, List.drop_append_of_le_length (by omega)] at later
            obtain before | last := List.mem_append.mp later
            · exact others other (served other (by rw [rotation]; simpa using before))
            · obtain rfl := List.mem_singleton.mp last
              exact here
          refine (ih keptT enough' served').mono ?_
          rintro ⟨u, given⟩ ⟨keptU, same', gave', pumped⟩
          exact ⟨keptU, same.trans same', fun some' => (gave' some').trans (by rw [count]), pumped⟩
    · rename_i full
      have bounded := kept.bounded
      have full : s.nominated = maxProbes := by omega
      exact ⟨kept, .refl, by simp, fun _ => .inr (.inl full)⟩

theorem rounds_spec (turns : Nat) (kept : Kept s) (enough : s.nominated + turns = maxProbes) :
    Ensures Fault.Any (rounds turns s) fun t => Kept t ∧ SameShape s t ∧ t.Pumped := by
  induction turns generalizing s with
  | zero => exact ⟨kept, .refl, .inr (.inl (by omega))⟩
  | succ turns ih =>
    rw [rounds, ensures_bind]
    refine (scan_spec s.order.length kept (Nat.le_refl _) (by simp)).mono ?_
    rintro ⟨t, given⟩ ⟨keptT, same, gave, pumped⟩
    cases given with
    | true =>
      have count : t.nominated = s.nominated + 1 := gave rfl
      have keptT : Kept t := keptT
      have left : t.nominated + turns = maxProbes := by omega
      exact (ih keptT left).mono fun u done => ⟨done.1, same.trans done.2.1, done.2.2⟩
    | false => exact ⟨keptT, same, pumped rfl⟩

theorem pump_spec (kept : Kept s) :
    Ensures Fault.Any s.pump fun t => Kept t ∧ SameShape s t ∧ t.Pumped := by
  rw [pump]
  split
  · rename_i stopping
    exact ⟨kept, .refl, .inl stopping⟩
  · have bounded := kept.bounded
    exact rounds_spec _ kept (by omega)

end State
end Coordinator
end Ledgence
