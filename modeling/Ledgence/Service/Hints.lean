import Ledgence.Service.Turns

/-! Every critical section keeps the counts and ends pumped, and only a Pending of its current epoch
closes a queue. -/
open Kit Kit.Checked

namespace Ledgence
namespace Coordinator
namespace State
variable {s t m : State} {e e' : Entry} {q q' : Queue} {id epoch : Nat} {key : AcquisitionQueue}

def look (s : State) (key : AcquisitionQueue) : Option (Nat × Bool) :=
  (Table.find Queue.key key s.queues).map fun q => (q.epoch, q.isOpen)

theorem look_of_mem (unique : Table.Unique Queue.key s.queues) (mem : q ∈ s.queues) :
    s.look q.key = some (q.epoch, q.isOpen) := by
  rw [look, Table.find_of_mem unique mem, Option.map_some]

theorem SameShape.look (same : SameShape s t) (key : AcquisitionQueue) : t.look key = s.look key := by
  refine Table.find_congr (fun q : Queue => (q.epoch, q.isOpen)) ?_
  have projected := congrArg
    (List.map fun shape : AcquisitionQueue × Nat × Bool × Nat × Nat =>
      (shape.1, (shape.2.1, shape.2.2.1))) same.queues
  simpa [List.map_map, Function.comp_def, Queue.shape] using projected

theorem look_putQueue_other {other : AcquisitionQueue} (apart : q'.key ≠ other) :
    (s.putQueue q').look other = s.look other := by
  rw [look, look, putQueue, Table.find_put_other apart]

theorem look_putQueue (unique : Table.Unique Queue.key s.queues) (mem : q ∈ s.queues)
    (same : q'.key = q.key) : (s.putQueue q').look q.key = some (q'.epoch, q'.isOpen) := by
  have stored : q' ∈ (s.putQueue q').queues := Table.mem_put_self mem same.symm
  have unique' : Table.Unique Queue.key (s.putQueue q').queues := Table.unique_put unique
  rw [← same]
  exact look_of_mem unique' stored

theorem look_putQueue_same (unique : Table.Unique Queue.key s.queues) (mem : q ∈ s.queues)
    (same : q'.key = q.key) (epoch : q'.epoch = q.epoch) (isOpen : q'.isOpen = q.isOpen)
    (other : AcquisitionQueue) : (s.putQueue q').look other = s.look other := by
  by_cases mine : q'.key = other
  · rw [← mine, same, look_putQueue unique mem same, look_of_mem unique mem, epoch, isOpen]
  · exact look_putQueue_other mine

def LooksOn (s t : State) : Prop :=
  ∀ key, (∀ a, s.look key = some a →
      ∃ b, t.look key = some b ∧ a.1 ≤ b.1 ∧ (a.2 = true → b.2 = true)) ∧
    (s.look key = none → ∀ b, t.look key = some b → b.2 = true)

theorem LooksOn.of_same (same : ∀ key, t.look key = s.look key) : LooksOn s t := by
  refine fun key => ⟨fun a before => ?_, fun absent b after => ?_⟩
  · exact ⟨a, (same key).trans before, Nat.le_refl _, fun isOpen => isOpen⟩
  · rw [same, absent] at after
    cases after

theorem LooksOn.trans (first : LooksOn s m) (rest : LooksOn m t) : LooksOn s t := by
  refine fun key => ⟨fun a before => ?_, fun absent c after => ?_⟩
  · have ⟨b, between, early, stays⟩ := (first key).1 a before
    have ⟨c, after, late, stays'⟩ := (rest key).1 b between
    exact ⟨c, after, Nat.le_trans early late, stays' ∘ stays⟩
  · cases between : m.look key with
    | none => exact (rest key).2 between c after
    | some b =>
      obtain ⟨c', after', -, stays⟩ := (rest key).1 b between
      have same : c' = c := Option.some.inj (after'.symm.trans after)
      exact same ▸ stays ((first key).2 absent b between)

/-- What a critical section does to the queues that it leaves: an open one is closed only where
that is allowed for its epoch. -/
def Turned (closes : AcquisitionQueue → Nat → Prop) (s t : State) : Prop :=
  ∀ key b, t.look key = some b → s.look key = none ∧ b.2 = true ∨
    ∃ a, s.look key = some a ∧ a.1 ≤ b.1 ∧ (a.2 = true → b.2 = false → closes key a.1)

theorem Turned.mono {closes closes' : AcquisitionQueue → Nat → Prop} (turned : Turned closes s t)
    (allowed : ∀ key a, s.look key = some a → closes key a.1 → closes' key a.1) :
    Turned closes' s t := by
  intro key b after
  obtain fresh | ⟨a, before, late, closed⟩ := turned key b after
  · exact .inl fresh
  · exact .inr ⟨a, before, late, fun isOpen shut => allowed key a before (closed isOpen shut)⟩

theorem LooksOn.turned (looks : LooksOn s t) (closes : AcquisitionQueue → Nat → Prop) :
    Turned closes s t := by
  intro key b after
  cases before : s.look key with
  | none => exact .inl ⟨rfl, (looks key).2 before b after⟩
  | some a =>
    have ⟨b', after', late, stays⟩ := (looks key).1 a before
    obtain rfl : b' = b := Option.some.inj (after'.symm.trans after)
    exact .inr ⟨a, rfl, late, fun isOpen closed => by simp [stays isOpen] at closed⟩

structure Next (s t : State) : Prop where
  kept : Kept t
  pumped : Pumped t
  looks : LooksOn s t
  entries : ∀ e ∈ s.entries, ∃ e' ∈ t.entries, e'.id = e.id ∧ e'.key = e.key

theorem SameShape.identity (same : SameShape s t) (mem : e ∈ s.entries) :
    ∃ e' ∈ t.entries, e'.id = e.id ∧ e'.key = e.key := by
  obtain ⟨e', stored, shape⟩ := same.entry mem
  simp only [Entry.shape, Prod.mk.injEq] at shape
  exact ⟨e', stored, shape.1, shape.2.1⟩

theorem next_and_look (kept : Kept m) (looks : LooksOn s m)
    (entries : ∀ e ∈ s.entries, ∃ e' ∈ m.entries, e'.id = e.id ∧ e'.key = e.key) :
    Ensures Fault.Any m.pump fun t => Next s t ∧ ∀ key, t.look key = m.look key := by
  refine (pump_spec kept).mono ?_
  rintro t ⟨keptT, same, pumped⟩
  refine ⟨⟨keptT, pumped, looks.trans (.of_same same.look), fun e mem => ?_⟩, same.look⟩
  obtain ⟨e', stored, id, key⟩ := entries e mem
  obtain ⟨e'', stored', id', key'⟩ := same.identity stored
  exact ⟨e'', stored', id'.trans id, key'.trans key⟩

theorem next_of_pump (kept : Kept m) (looks : LooksOn s m)
    (entries : ∀ e ∈ s.entries, ∃ e' ∈ m.entries, e'.id = e.id ∧ e'.key = e.key) :
    Ensures Fault.Any m.pump (Next s) :=
  (next_and_look kept looks entries).mono fun _ done => done.1

theorem mem_putEntry (ids : Table.Unique Entry.id s.entries) (mem : e ∈ s.entries)
    (id : e'.id = e.id) (key : e'.key = e.key) :
    ∀ r ∈ s.entries, ∃ r' ∈ (s.putEntry e').entries, r'.id = r.id ∧ r'.key = r.key := by
  intro r stored
  by_cases same : r.id = e'.id
  · obtain rfl : r = e := Table.eq_of_key ids stored mem (same.trans id)
    exact ⟨e', Table.mem_put_self stored id.symm, id, key⟩
  · exact ⟨r, Table.mem_put_other stored same, rfl, rfl⟩

theorem released_spec (kept : Kept s) (mem : e ∈ s.entries) :
    Ensures Fault.Any (s.releaseTurn e.id) fun t => Kept t ∧ SameShape s t ∧
      ∃ e' ∈ t.entries, e'.id = e.id ∧ e'.key = e.key ∧ t.entry e.id = .ok e' := by
  refine (releaseTurn_spec kept mem).mono ?_
  rintro t ⟨keptT, same, -⟩
  obtain ⟨e', stored, id, key⟩ := same.identity mem
  exact ⟨keptT, same, e', stored, id, key, by rw [← id]; exact entry_spec keptT.ids stored⟩

theorem close_spec (kept : Kept s) (mem : q ∈ s.queues) :
    Ensures Fault.Any (s.close q.key epoch) fun t => Kept t ∧ t.entries = s.entries ∧
      (∃ q' ∈ t.queues, q'.key = q.key) ∧ (∀ other, other ≠ q.key → t.look other = s.look other) ∧
      ∃ b, t.look q.key = some b ∧ b.1 = q.epoch ∧
        (q.isOpen = true → b.2 = false → epoch = q.epoch) := by
  rw [close, queue_spec kept.unique mem, ok_bind, ensures_pure]
  split
  · rename_i current
    refine ⟨kept.putQueue mem rfl rfl rfl (Nat.le_refl _), rfl, ⟨_, Table.mem_put_self mem rfl, rfl⟩,
      fun other apart => look_putQueue_other apart.symm, (q.epoch, false),
      look_putQueue kept.unique mem rfl, rfl, fun _ _ => current⟩
  · refine ⟨kept, rfl, ⟨q, mem, rfl⟩, fun _ _ => rfl, (q.epoch, q.isOpen),
      look_of_mem kept.unique mem, rfl, ?_⟩
    intro isOpen closed
    exact absurd (isOpen.symm.trans closed) (by simp)

/-- A Pending closes its own queue at most, and only with the queue's epoch. -/
theorem pending_spec (kept : Kept s) (mem : e ∈ s.entries) :
    Ensures Fault.Any (s.pending e.id epoch) fun t => Kept t ∧ Pumped t ∧
      Turned (fun key current => key = e.key.queue ∧ epoch = current) s t ∧
      ∀ e ∈ s.entries, ∃ e' ∈ t.entries, e'.id = e.id ∧ e'.key = e.key := by
  rw [pending, entry_spec kept.ids mem, ok_bind, ensures_bind]
  refine (released_spec kept mem).mono ?_
  rintro t ⟨keptT, sameT, e', stored, id, key, read⟩
  rw [read, ok_bind, ensures_bind]
  let waits : Entry := { e' with waiting := true }
  have keptW : Kept (t.putEntry waits) := keptT.putEntry stored rfl rfl rfl
  obtain ⟨q, there, home, -⟩ := keptT.home stored
  rw [← key, ← home]
  have thereW : q ∈ (t.putEntry waits).queues := there
  refine (close_spec keptW thereW).mono ?_
  rintro u ⟨keptU, entries, ⟨q', member, same⟩, others, b, here, epochs, closes⟩
  rw [ensures_bind, ← same]
  refine (revokeParkedTurns_spec keptU member).mono ?_
  rintro v ⟨keptV, sameV⟩
  refine (pump_spec keptV).mono ?_
  rintro w ⟨keptW, sameW, pumped⟩
  have shape := sameV.trans sameW
  have lookW (other : AcquisitionQueue) : (t.putEntry waits).look other = s.look other :=
    sameT.look other
  refine ⟨keptW, pumped, fun other c after => .inr ?_, fun r in' => ?_⟩
  · rw [shape.look] at after
    by_cases mine : other = q.key
    · subst mine
      rw [here] at after
      obtain rfl := Option.some.inj after
      have before : s.look q.key = some (q.epoch, q.isOpen) := by
        rw [← sameT.look]
        exact look_of_mem keptT.unique there
      exact ⟨_, before, epochs.ge, fun isOpen closed => ⟨same.symm, closes isOpen closed⟩⟩
    · rw [others other mine, lookW] at after
      exact ⟨c, after, Nat.le_refl _, fun isOpen closed => by simp [isOpen] at closed⟩
  · obtain ⟨r₁, in₁, id₁, key₁⟩ := sameT.identity in'
    have sameId : waits.id = e'.id := rfl
    obtain ⟨r₂, in₂, id₂, key₂⟩ := mem_putEntry keptT.ids stored sameId rfl r₁ in₁
    rw [← entries] at in₂
    obtain ⟨r₃, in₃, id₃, key₃⟩ := shape.identity in₂
    exact ⟨r₃, in₃, id₃.trans (id₂.trans id₁), key₃.trans (key₂.trans key₁)⟩

theorem widen_spec (kept : Kept s) (mem : q ∈ s.queues) (kind : AcquisitionCompletion) :
    Ensures Fault.Any (s.widen q.key epoch kind) fun t => Kept t ∧ t.entries = s.entries ∧
      ∀ key, t.look key = s.look key := by
  rw [widen]
  split
  · rw [queue_spec kept.unique mem, ok_bind, ensures_pure]
    split
    · exact ⟨kept.putQueue mem rfl rfl rfl (Nat.le_refl _), rfl,
        look_putQueue_same kept.unique mem rfl rfl rfl⟩
    · exact ⟨kept, rfl, fun _ => rfl⟩
  · exact ⟨kept, rfl, fun _ => rfl⟩

theorem completed_spec (kept : Kept s) (mem : e ∈ s.entries) (kind : AcquisitionCompletion) :
    Ensures Fault.Any (s.completed e.id epoch kind) (Next s) := by
  rw [completed, entry_spec kept.ids mem, ok_bind, ensures_bind]
  refine (releaseTurn_spec kept mem).mono ?_
  rintro t ⟨keptT, same, -⟩
  obtain ⟨e', stored, id, key⟩ := same.identity mem
  obtain ⟨q, there, home, -⟩ := keptT.home stored
  rw [ensures_bind, ← key, ← home]
  refine (widen_spec keptT there kind).mono ?_
  rintro u ⟨keptU, entries, looks⟩
  refine next_of_pump keptU (.of_same fun key => (looks key).trans (same.look key)) ?_
  rw [entries]
  exact fun r in' => same.identity in'

theorem hinted_spec (kept : Kept s) (mem : q ∈ s.queues) (nextTick : Nat) :
    Kept (s.putQueue { q.hinted with nextTick }) ∧
      (s.putQueue { q.hinted with nextTick }).look q.key = some (q.epoch + 1, true) ∧
      LooksOn s (s.putQueue { q.hinted with nextTick }) := by
  let q' : Queue := { q.hinted with nextTick }
  have mine : (s.putQueue q').look q.key = some (q.epoch + 1, true) :=
    look_putQueue kept.unique mem rfl
  refine ⟨kept.putQueue mem rfl rfl rfl (Nat.le_succ _), mine, fun key => ?_⟩
  by_cases same : q.key = key
  · subst same
    refine ⟨fun a before => ⟨_, mine, ?_, fun _ => rfl⟩, fun absent => ?_⟩
    · rw [look_of_mem kept.unique mem] at before
      obtain rfl := Option.some.inj before
      exact Nat.le_succ _
    · rw [look_of_mem kept.unique mem] at absent
      cases absent
  · have other : (s.putQueue q').look key = s.look key := look_putQueue_other same
    refine ⟨fun a before => ⟨a, other.trans before, Nat.le_refl _, id⟩, fun absent b after => ?_⟩
    rw [other, absent] at after
    cases after

theorem Kept.next (kept : Kept s) (pumped : Pumped s) : Next s s :=
  ⟨kept, pumped, .of_same fun _ => rfl, fun e mem => ⟨e, mem, rfl, rfl⟩⟩

theorem fallback_spec (kept : Kept s) (pumped : Pumped s) (mem : q ∈ s.queues) (x : WaitClock) :
    Ensures Fault.Any (s.fallback q x) (Next s) := by
  rw [fallback]
  split
  · obtain ⟨keptQ, -, looks⟩ := hinted_spec kept mem (x.renewed + fallbackInterval)
    exact next_of_pump keptQ looks fun e in' => ⟨e, in', rfl, rfl⟩
  · exact kept.next pumped

theorem Next.trans (first : Next s m) (rest : Next m t) : Next s t where
  kept := rest.kept
  pumped := rest.pumped
  looks := first.looks.trans rest.looks
  entries := fun e mem => by
    obtain ⟨e', mem', id, key⟩ := first.entries e mem
    obtain ⟨e'', mem'', id', key'⟩ := rest.entries e' mem'
    exact ⟨e'', mem'', id'.trans id, key'.trans key⟩

theorem Pumped.unwaiting (pumped : Pumped s) (waiting : e'.waiting = false) :
    Pumped (s.putEntry e') := by
  obtain stopping | full | served := pumped
  · exact .inl stopping
  · exact .inr (.inl full)
  · refine .inr (.inr fun key q mem same isOpen room e in' home waits => ?_)
    obtain rfl | ⟨in', -⟩ := Table.mem_put in'
    · simp [waiting] at waits
    · exact served key q mem same isOpen room e in' home waits

theorem Next.afterFlags (kept : Kept s) (mem : e ∈ s.entries) (id : e'.id = e.id)
    (key : e'.key = e.key) (next : Next (s.putEntry e') t) : Next s t where
  kept := next.kept
  pumped := next.pumped
  looks := next.looks
  entries := fun r in' => by
    obtain ⟨r₁, in₁, id₁, key₁⟩ := mem_putEntry kept.ids mem id key r in'
    obtain ⟨r₂, in₂, id₂, key₂⟩ := next.entries r₁ in₁
    exact ⟨r₂, in₂, id₂.trans id₁, key₂.trans key₁⟩

def Reached (key : AcquisitionQueue) (r : State × Option Nat) : Prop :=
  ∀ epoch ∈ r.2, ∃ a, r.1.look key = some a ∧ epoch ≤ a.1

theorem resume_spec (kept : Kept s) (mem : e ∈ s.entries) (id : e'.id = e.id)
    (key : e'.key = e.key) (turn : e'.turn = e.turn) :
    Ensures Fault.Any ((s.putEntry e').resume e.id e.key.queue) fun r =>
      Next s r.1 ∧ Reached e.key.queue r := by
  have keptP := kept.putEntry mem id key turn
  have there : e' ∈ (s.putEntry e').entries := Table.mem_put_self mem id.symm
  rw [resume, ensures_bind, ← id, ← key]
  refine (releaseTurn_spec keptP there).mono ?_
  rintro t ⟨keptT, same, -⟩
  rw [ensures_bind]
  have next := next_of_pump (s := s.putEntry e') keptT (.of_same same.look)
    fun r in' => same.identity in'
  refine next.mono fun u done => ?_
  obtain ⟨r, stored, id', key'⟩ := done.entries e' there
  obtain ⟨q, there', home, read⟩ := done.kept.home stored
  rw [← key', read, ok_bind, ensures_pure]
  refine ⟨done.afterFlags kept mem id key, ?_⟩
  rintro _ ⟨⟩
  exact ⟨_, home ▸ look_of_mem done.kept.unique there', Nat.le_refl _⟩

/-- A round of waiting returns an epoch that the queue has reached, if it returns. -/
theorem wait_spec (kept : Kept s) (pumped : Pumped s) (mem : e ∈ s.entries) (x : WaitClock) :
    Ensures Fault.Any (s.wait e.id x) fun r => Next s r.1 ∧ Reached e.key.queue r := by
  rw [wait, entry_spec kept.ids mem, ok_bind]
  split
  · exact resume_spec kept mem rfl rfl rfl
  · obtain ⟨q, there, home, read⟩ := kept.home mem
    rw [read, ok_bind, ensures_bind]
    refine (fallback_spec kept pumped there x).mono ?_
    intro t ticked
    obtain ⟨e', stored, id, key⟩ := ticked.entries e mem
    rw [← id, entry_spec ticked.kept.ids stored, ok_bind, ← key]
    split
    · let answered : Entry := { e' with receipt := false, waiting := false }
      have resumed : Ensures Fault.Any ((t.putEntry answered).resume e'.id e'.key.queue) _ :=
        resume_spec ticked.kept stored rfl rfl rfl
      exact resumed.mono fun r done => ⟨ticked.trans done.1, done.2⟩
    · split
      · rename_i turn
        let probing : Entry := { e' with waiting := false }
        have keptP : Kept (t.putEntry probing) := ticked.kept.putEntry stored rfl rfl rfl
        have pumpedP : Pumped (t.putEntry probing) := ticked.pumped.unwaiting rfl
        have sameId : probing.id = e'.id := rfl
        have next : Next t (t.putEntry probing) :=
          (keptP.next pumpedP).afterFlags ticked.kept stored sameId rfl
        refine ⟨ticked.trans next, ?_⟩
        rintro _ ⟨⟩
        obtain ⟨q', there', home', earlier⟩ := ticked.kept.homes e' stored
        exact ⟨_, home' ▸ look_of_mem ticked.kept.unique there', earlier _ (by simp [turn])⟩
      · exact ⟨ticked, by simp [Reached]⟩

end State
end Coordinator
end Ledgence
