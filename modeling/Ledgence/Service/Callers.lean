import Mathlib.Data.List.Induction
import Ledgence.Service.Members

/-! The callers of the coordinator, each with the epoch it last obtained, over whole runs. -/
open Kit Kit.Checked

namespace Ledgence

def AcquisitionHint.About (key : AcquisitionQueue) : AcquisitionHint → Prop
  | .queueChanged changed => changed = key
  | .acquisitionCompleted _ => False
  | .rescan => True

instance (key : AcquisitionQueue) (h : AcquisitionHint) : Decidable (h.About key) := by
  cases h <;> unfold AcquisitionHint.About <;> infer_instance

namespace Coordinator
namespace State
variable {s t : State} {key : AcquisitionQueue}

theorem rescanned_spec (kept : Kept s) :
    Kept { s with queues := s.queues.map Queue.hinted } ∧
      LooksOn s { s with queues := s.queues.map Queue.hinted } ∧
      ∀ key a, s.look key = some a →
        State.look { s with queues := s.queues.map Queue.hinted } key = some (a.1 + 1, true) := by
  have keptM : Kept { s with queues := s.queues.map Queue.hinted } :=
    kept.mapQueues _ fun q _ => ⟨rfl, rfl, rfl, Nat.le_succ _⟩
  have next : ∀ key a, s.look key = some a →
      State.look { s with queues := s.queues.map Queue.hinted } key = some (a.1 + 1, true) := by
    intro key a before
    rw [look, Option.map_eq_some_iff] at before
    obtain ⟨q, found, rfl⟩ := before
    obtain rfl : q.key = key := Table.find_key found
    have there : q.hinted ∈ s.queues.map Queue.hinted := List.mem_map_of_mem (Table.find_mem found)
    exact look_of_mem keptM.unique there
  refine ⟨keptM, fun key => ⟨fun a before => ?_, fun absent b after => ?_⟩, next⟩
  · exact ⟨_, next key a before, Nat.le_succ _, fun _ => rfl⟩
  · rw [look, Option.map_eq_none_iff, Table.find_eq_none] at absent
    rw [look, Option.map_eq_some_iff] at after
    obtain ⟨q', found, rfl⟩ := after
    obtain ⟨q, stored, rfl⟩ := List.mem_map.mp (Table.find_mem found)
    rfl

theorem hint_spec (kept : Kept s) (pumped : Pumped s) (h : AcquisitionHint) :
    Ensures Fault.Any (s.hint h) fun t => Next s t ∧
      ∀ key, h.About key → ∀ a, s.look key = some a → t.look key = some (a.1 + 1, true) := by
  cases h with
  | queueChanged changed =>
    rw [hint]
    cases found : Table.find Queue.key changed s.queues with
    | none =>
      refine ⟨kept.next pumped, ?_⟩
      rintro _ rfl a before
      simp [look, found] at before
    | some q =>
      have mem := Table.find_mem found
      obtain rfl : q.key = changed := Table.find_key found
      obtain ⟨keptQ, mine, looks⟩ := hinted_spec kept mem q.nextTick
      refine (next_and_look keptQ looks fun e in' => ⟨e, in', rfl, rfl⟩).mono ?_
      rintro t ⟨next, same⟩
      refine ⟨next, ?_⟩
      rintro _ rfl a before
      rw [look_of_mem kept.unique mem] at before
      obtain rfl := Option.some.inj before
      rw [same]
      exact mine
  | acquisitionCompleted done =>
    rw [hint]
    split
    · refine (next_of_pump (s := s) (kept.mapEntries _ fun e _ => ?_) (.of_same fun _ => rfl) ?_).mono ?_
      · by_cases mine : e.key = done
        · simp [mine]
        · simp [mine]
      · intro e mem
        refine ⟨_, List.mem_map_of_mem mem, ?_⟩
        by_cases mine : e.key = done
        · simp [mine]
        · simp [mine]
      · exact fun t next => ⟨next, fun _ about => about.elim⟩
    · exact ⟨kept.next pumped, fun _ about => about.elim⟩
  | rescan =>
    obtain ⟨keptM, looks, opened⟩ := rescanned_spec kept
    refine (next_and_look keptM looks fun e in' => ⟨e, in', rfl, rfl⟩).mono ?_
    rintro t ⟨next, same⟩
    refine ⟨next, fun key _ a before => ?_⟩
    rw [same]
    exact opened key a before

end State

structure Caller where
  id : Nat
  queue : AcquisitionQueue
  /-- The epoch that its probe reports, and the number of steps before it was obtained. -/
  probe : Option (Nat × Nat)

structure Watch where
  state : State
  callers : List Caller
  clock : Nat
  hinted : AcquisitionQueue → Nat

inductive Action where
  | register (key : AcquisitionKey) (now : Nat)
  | epoch (id : Nat)
  | pending (id : Nat)
  | completed (id : Nat) (kind : AcquisitionCompletion)
  | wait (id : Nat) (x : WaitClock)
  | drop (id : Nat)
  | hint (h : AcquisitionHint)
  | stop

namespace Watch

def init : Watch := ⟨.init, [], 0, fun _ => 0⟩

variable (w : Watch)

def caller (id : Nat) : Option Caller := Table.find Caller.id id w.callers

def obtained (c : Caller) (epoch : Nat) : Watch :=
  { w with callers := Table.put Caller.id { c with probe := some (epoch, w.clock) } w.callers }

def byCaller (id : Nat) (act : Caller → Outcome Watch) : Outcome Watch :=
  match w.caller id with
  | none => .ok w
  | some c => act c

def reporting (id : Nat) (act : Caller → Nat → Outcome State) : Outcome Watch :=
  w.byCaller id fun c =>
    match c.probe with
    | none => .ok w
    | some (epoch, _) => do
      let state ← act c epoch
      return { w with state }

def act : Action → Outcome Watch
  | .register key now =>
    match w.state.register key now with
    | .ok (state, id) => .ok { w with state, callers := w.callers ++ [⟨id, key.queue, none⟩] }
    | .error (.refused _) => .ok w
    | .error fault => .error fault
  | .epoch id => w.byCaller id fun c => do
    let epoch ← w.state.epoch c.id
    return w.obtained c epoch
  | .pending id => w.reporting id fun c epoch => w.state.pending c.id epoch
  | .completed id kind => w.reporting id fun c epoch => w.state.completed c.id epoch kind
  | .wait id x => w.byCaller id fun c => do
    let (state, returned) ← w.state.wait c.id x
    match returned with
    | some epoch => return { w with state }.obtained c epoch
    | none => return { w with state }
  | .drop id => w.byCaller id fun c => do
    let state ← w.state.drop c.id
    return { w with state, callers := w.callers.filter fun c => c.id ≠ id }
  | .hint h => do
    let state ← w.state.hint h
    let hinted key := if h.About key then w.clock + 1 else w.hinted key
    return { w with state, hinted }
  | .stop => .ok { w with state := w.state.stop }

def step (a : Action) : Outcome Watch := do
  let w' ← w.act a
  return { w' with clock := w'.clock + 1 }

def run (actions : List Action) : Outcome Watch := actions.foldlM step init

structure Watched : Prop where
  kept : w.state.Kept
  pumped : w.state.Pumped
  registered : ∀ c ∈ w.callers, ∃ e ∈ w.state.entries, e.id = c.id ∧ e.key.queue = c.queue
  reached : ∀ c ∈ w.callers, ∀ p ∈ c.probe, ∀ a, w.state.look c.queue = some a →
    p.1 ≤ a.1 ∧ (p.2 < w.hinted c.queue → p.1 < a.1)
  past : ∀ c ∈ w.callers, ∀ p ∈ c.probe, p.2 < w.clock
  hints : ∀ key, w.hinted key ≤ w.clock

/-- The caller reports a Pending of the queue's epoch, which it obtained after the last hint. -/
def ClosedBy (a : Action) (key : AcquisitionQueue) (epoch : Nat) : Prop :=
  ∃ c ∈ w.callers, a = .pending c.id ∧ c.queue = key ∧
    ∃ since, c.probe = some (epoch, since) ∧ w.hinted key ≤ since

structure Good (w : Watch) (a : Action) (w' : Watch) : Prop where
  watched : Watched { w' with clock := w'.clock + 1 }
  clock : w'.clock = w.clock
  turned : State.Turned (w.ClosedBy a) w.state w'.state
  hinted : ∀ key, w.hinted key ≤ w'.hinted key
  opened : ∀ h, a = .hint h → ∀ key, h.About key →
    w'.hinted key = w.clock + 1 ∧ ∀ b, w'.state.look key = some b → b.2 = true

variable {w} {w' : Watch} {c : Caller} {s : State} {id : Nat}

theorem caller_mem (found : w.caller id = some c) : c ∈ w.callers ∧ c.id = id :=
  ⟨Table.find_mem found, Table.find_key found⟩

theorem Watched.home (watched : w.Watched) (mem : c ∈ w.callers) :
    ∃ a, w.state.look c.queue = some a := by
  obtain ⟨e, stored, -, home⟩ := watched.registered c mem
  obtain ⟨q, there, same, -⟩ := watched.kept.homes e stored
  exact ⟨_, home ▸ same ▸ State.look_of_mem watched.kept.unique there⟩

theorem Watched.reached_after (watched : w.Watched) {closes : AcquisitionQueue → Nat → Prop}
    (turned : State.Turned closes w.state s) (mem : c ∈ w.callers) :
    ∀ p ∈ c.probe, ∀ b, s.look c.queue = some b →
      p.1 ≤ b.1 ∧ (p.2 < w.hinted c.queue → p.1 < b.1) := by
  intro p held b after
  obtain ⟨a, before⟩ := watched.home mem
  obtain ⟨absent, -⟩ | ⟨a', before', late, -⟩ := turned c.queue b after
  · rw [before] at absent
    cases absent
  · have ⟨early, older⟩ := watched.reached c mem p held a' before'
    exact ⟨early.trans late, fun hinted => (older hinted).trans_le late⟩

theorem Watched.good (watched : w.Watched) {a : Action} (kept : s.Kept) (pumped : s.Pumped)
    (turned : State.Turned (w.ClosedBy a) w.state s) (noHint : ∀ h, a ≠ .hint h)
    (entries : ∀ e ∈ w.state.entries, ∃ e' ∈ s.entries, e'.id = e.id ∧ e'.key = e.key) :
    Good w a { w with state := s } where
  watched := {
    kept
    pumped
    registered := fun c mem => by
      obtain ⟨e, stored, id, home⟩ := watched.registered c mem
      obtain ⟨e', stored', id', key'⟩ := entries e stored
      exact ⟨e', stored', id'.trans id, by rw [key', home]⟩
    reached := fun c mem => watched.reached_after turned mem
    past := fun c mem p held => Nat.lt_succ_of_lt (watched.past c mem p held)
    hints := fun key => Nat.le_succ_of_le (watched.hints key) }
  clock := rfl
  turned
  hinted := fun _ => Nat.le_refl _
  opened := fun h same => absurd same (noHint h)

theorem Good.obtained {a : Action} (good : Good w a w') (mem : c ∈ w'.callers) {epoch : Nat}
    (reached : ∀ b, w'.state.look c.queue = some b → epoch ≤ b.1)
    (hints : ∀ key, w'.hinted key ≤ w'.clock) : Good w a (w'.obtained c epoch) where
  watched := { good.watched with
    registered := fun r in' => by
      obtain rfl | ⟨in', -⟩ := Table.mem_put in'
      · exact good.watched.registered c mem
      · exact good.watched.registered r in'
    reached := fun r in' => by
      obtain rfl | ⟨in', -⟩ := Table.mem_put in'
      · rintro _ ⟨⟩ b after
        refine ⟨reached b after, fun hinted => absurd (hints c.queue) ?_⟩
        exact Nat.not_le_of_lt hinted
      · exact good.watched.reached r in'
    past := fun r in' => by
      obtain rfl | ⟨in', -⟩ := Table.mem_put in'
      · rintro _ ⟨⟩
        exact Nat.lt_succ_self _
      · exact good.watched.past r in' }
  clock := good.clock
  turned := good.turned
  hinted := good.hinted
  opened := good.opened

theorem Watched.next (watched : w.Watched) {a : Action} (next : State.Next w.state s)
    (noHint : ∀ h, a ≠ .hint h) : Good w a { w with state := s } :=
  watched.good next.kept next.pumped (next.looks.turned _) noHint next.entries

theorem Watched.idle (watched : w.Watched) {a : Action} (noHint : ∀ h, a ≠ .hint h) : Good w a w :=
  watched.next (watched.kept.next watched.pumped) noHint

theorem byCaller_spec (watched : w.Watched) {a : Action} (noHint : ∀ h, a ≠ .hint h)
    {act : Caller → Outcome Watch} (acts : ∀ c ∈ w.callers, c.id = id → ∀ e ∈ w.state.entries,
      e.id = c.id → e.key.queue = c.queue → Ensures Fault.Any (act c) (Good w a)) :
    Ensures Fault.Any (w.byCaller id act) (Good w a) := by
  rw [byCaller]
  cases found : w.caller id with
  | none => exact watched.idle noHint
  | some c =>
    have ⟨mem, same⟩ := caller_mem found
    obtain ⟨e, stored, id, home⟩ := watched.registered c mem
    exact acts c mem same e stored id home

theorem reporting_spec (watched : w.Watched) {a : Action} (noHint : ∀ h, a ≠ .hint h)
    {act : Caller → Nat → Outcome State} (acts : ∀ c ∈ w.callers, c.id = id →
      ∀ epoch since, c.probe = some (epoch, since) → ∀ e ∈ w.state.entries,
      e.id = c.id → e.key.queue = c.queue →
      Ensures Fault.Any (act c epoch) fun s => Good w a { w with state := s }) :
    Ensures Fault.Any (w.reporting id act) (Good w a) := by
  refine byCaller_spec watched noHint fun c mem same e stored here home => ?_
  cases probe : c.probe with
  | none => exact watched.idle noHint
  | some p => exact ensures_bind.mpr (acts c mem same p.1 p.2 probe e stored here home)

theorem Good.joined {a : Action} (good : Good w a { w with state := s }) (fresh : c.probe = none)
    (registered : ∃ e ∈ s.entries, e.id = c.id ∧ e.key.queue = c.queue) :
    Good w a { w with state := s, callers := w.callers ++ [c] } := by
  refine { good with watched := { good.watched with registered := ?_, reached := ?_, past := ?_ } }
  · intro r in'
    obtain old | new := List.mem_append.mp in'
    · exact good.watched.registered r old
    · rw [List.mem_singleton.mp new]
      exact registered
  · intro r in' p held
    obtain old | new := List.mem_append.mp in'
    · exact good.watched.reached r old p held
    · rw [List.mem_singleton.mp new, fresh] at held
      cases held
  · intro r in' p held
    obtain old | new := List.mem_append.mp in'
    · exact good.watched.past r old p held
    · rw [List.mem_singleton.mp new, fresh] at held
      cases held

theorem register_good (watched : w.Watched) (key : AcquisitionKey) (now : Nat) :
    Ensures Fault.Any (w.act (.register key now)) (Good w (.register key now)) := by
  have registers := State.register_spec watched.kept watched.pumped key now
  rw [act]
  cases done : w.state.register key now with
  | ok r =>
    obtain ⟨new, next, -, entries⟩ := registers.ok done
    refine (watched.next next (by simp)).joined rfl ?_
    rw [new, entries]
    exact ⟨⟨w.state.nextId, key, false, false, none⟩, by simp, rfl, rfl⟩
  | error fault =>
    cases fault with
    | refused error => exact watched.idle (by simp)
    | missing expected => exact absurd trivial (registers.error done)
    | underflow => exact absurd trivial (registers.error done)

theorem epoch_good (watched : w.Watched) (id : Nat) :
    Ensures Fault.Any (w.act (.epoch id)) (Good w (.epoch id)) := by
  refine byCaller_spec watched (by simp) fun c mem same e stored here home => ?_
  obtain ⟨q, there, same', read⟩ := watched.kept.home stored
  rw [State.epoch, ← here, State.entry_spec watched.kept.ids stored]
  simp only [ok_bind, read]
  refine (watched.idle (by simp)).obtained mem (fun b after => ?_) watched.hints
  rw [← home, ← same', State.look_of_mem watched.kept.unique there] at after
  obtain rfl := Option.some.inj after
  exact Nat.le_refl _

/-- A Pending closes its queue only where no hint came after its epoch was obtained. -/
theorem pending_good (watched : w.Watched) (id : Nat) :
    Ensures Fault.Any (w.act (.pending id)) (Good w (.pending id)) := by
  refine reporting_spec watched (by simp) fun c mem same epoch since probe e stored here home => ?_
  rw [← here]
  refine (State.pending_spec watched.kept stored).mono ?_
  rintro t ⟨kept, pumped, turned, entries⟩
  refine watched.good kept pumped (turned.mono ?_) (by simp) entries
  rintro key a before ⟨rfl, rfl⟩
  rw [home] at before
  refine ⟨c, mem, by rw [same], home.symm, since, probe, Nat.le_of_not_lt fun hinted => ?_⟩
  rw [home] at hinted
  have newer := (watched.reached c mem (a.1, since) probe a before).2 hinted
  exact absurd newer (Nat.lt_irrefl _)

theorem completed_good (watched : w.Watched) (id : Nat) (kind : AcquisitionCompletion) :
    Ensures Fault.Any (w.act (.completed id kind)) (Good w (.completed id kind)) := by
  refine reporting_spec watched (by simp) fun c mem same epoch since probe e stored here home => ?_
  rw [← here]
  exact (State.completed_spec watched.kept stored kind).mono fun t next => watched.next next (by simp)

theorem wait_good (watched : w.Watched) (id : Nat) (x : WaitClock) :
    Ensures Fault.Any (w.act (.wait id x)) (Good w (.wait id x)) := by
  refine byCaller_spec watched (by simp) fun c mem same e stored here home => ?_
  rw [ensures_bind, ← here]
  refine (State.wait_spec watched.kept watched.pumped stored x).mono ?_
  rintro ⟨t, returned⟩ ⟨next, reached⟩
  have good := watched.next (a := .wait id x) next (by simp)
  cases returned with
  | none => exact good
  | some epoch =>
    refine good.obtained mem (fun b after => ?_) watched.hints
    obtain ⟨a, there, early⟩ := reached epoch rfl
    rw [home] at there
    obtain rfl := Option.some.inj (there.symm.trans after)
    exact early

theorem drop_good (watched : w.Watched) (id : Nat) :
    Ensures Fault.Any (w.act (.drop id)) (Good w (.drop id)) := by
  refine byCaller_spec watched (by simp) fun c mem same e stored here home => ?_
  rw [ensures_bind, ← here]
  refine (State.drop_spec watched.kept stored).mono ?_
  rintro t ⟨kept, pumped, looks, entries⟩
  have turned : State.Turned (w.ClosedBy (.drop id)) w.state t := by
    intro key b after
    exact .inr ⟨b, looks key b after, Nat.le_refl _, fun isOpen closed => by simp [isOpen] at closed⟩
  have others : ∀ r ∈ w.callers.filter (fun c => c.id ≠ id), r ∈ w.callers ∧ r.id ≠ e.id := by
    intro r in'
    have ⟨old, apart⟩ := List.mem_filter.mp in'
    refine ⟨old, ?_⟩
    rw [here, same]
    simpa using apart
  refine ⟨⟨kept, pumped, fun r in' => ?_, fun r in' => ?_, fun r in' p held => ?_, fun key => ?_⟩, rfl,
    turned, fun _ => Nat.le_refl _, by simp⟩
  · have ⟨old, apart⟩ := others r in'
    obtain ⟨e₁, stored₁, id₁, home₁⟩ := watched.registered r old
    obtain ⟨e₂, stored₂, id₂, key₂⟩ := entries e₁ stored₁ (by rw [id₁]; exact apart)
    exact ⟨e₂, stored₂, id₂.trans id₁, by rw [key₂, home₁]⟩
  · exact watched.reached_after turned (others r in').1
  · exact Nat.lt_succ_of_lt (watched.past r (others r in').1 p held)
  · exact Nat.le_succ_of_le (watched.hints key)

/-- A hint opens the queues that it is about, under an epoch that nobody has obtained yet. -/
theorem hint_good (watched : w.Watched) (h : AcquisitionHint) :
    Ensures Fault.Any (w.act (.hint h)) (Good w (.hint h)) := by
  rw [act, ensures_bind]
  refine (State.hint_spec watched.kept watched.pumped h).mono ?_
  rintro t ⟨next, opened⟩
  have turned := next.looks.turned (w.ClosedBy (.hint h))
  refine ⟨⟨next.kept, next.pumped, fun c mem => ?_, fun c mem p held b after => ?_,
    fun c mem p held => ?_, fun key => ?_⟩, rfl, turned, fun key => ?_, fun h' same key about => ?_⟩
  · obtain ⟨e, stored, id, home⟩ := watched.registered c mem
    obtain ⟨e', stored', id', key'⟩ := next.entries e stored
    exact ⟨e', stored', id'.trans id, by rw [key', home]⟩
  · have ⟨early, older⟩ := watched.reached_after turned mem p held b after
    refine ⟨early, fun hinted => ?_⟩
    by_cases about : h.About c.queue
    · obtain ⟨a, before⟩ := watched.home mem
      have reached := (watched.reached c mem p held a before).1
      obtain rfl := Option.some.inj ((opened c.queue about a before).symm.trans after)
      exact Nat.lt_succ_of_le reached
    · simp only [about, if_false] at hinted
      exact older hinted
  · exact Nat.lt_succ_of_lt (watched.past c mem p held)
  · have before := watched.hints key
    show (if h.About key then w.clock + 1 else w.hinted key) ≤ w.clock + 1
    split <;> omega
  · have before := watched.hints key
    show w.hinted key ≤ if h.About key then w.clock + 1 else w.hinted key
    split <;> omega
  · obtain rfl : h = h' := by simpa using same
    refine ⟨if_pos about, fun b after => ?_⟩
    obtain ⟨-, isOpen⟩ | ⟨a, before, -⟩ := turned key b after
    · exact isOpen
    · obtain rfl := Option.some.inj ((opened key about a before).symm.trans after)
      rfl

theorem stop_good (watched : w.Watched) : Ensures Fault.Any (w.act .stop) (Good w .stop) := by
  refine watched.good ?_ (.inl rfl) ?_ (by simp) fun e mem => ⟨e, mem, rfl, rfl⟩
  · exact { watched.kept with }
  · exact (State.LooksOn.of_same fun _ => rfl).turned _

/-- Each of the steps keeps the epochs of the callers sound, and never fails. -/
theorem act_spec (watched : w.Watched) (a : Action) : Ensures Fault.Any (w.act a) (Good w a) := by
  cases a with
  | register key now => exact register_good watched key now
  | epoch id => exact epoch_good watched id
  | pending id => exact pending_good watched id
  | completed id kind => exact completed_good watched id kind
  | wait id x => exact wait_good watched id x
  | drop id => exact drop_good watched id
  | hint h => exact hint_good watched h
  | stop => exact stop_good watched

theorem step_spec (watched : w.Watched) (a : Action) :
    ∃ w', w.act a = .ok w' ∧ w.step a = .ok { w' with clock := w'.clock + 1 } ∧ Good w a w' := by
  have acts := act_spec watched a
  cases done : w.act a with
  | error fault => exact absurd trivial (acts.error done)
  | ok w' => exact ⟨w', rfl, by rw [step, done]; rfl, acts.ok done⟩

theorem init_watched : init.Watched where
  kept := by
    refine ⟨List.nodup_nil, ?_, List.nodup_nil, List.nodup_nil, ?_, ?_, ?_, ?_, ?_, List.nodup_nil, ?_, ?_,
      rfl, ?_, Nat.zero_le _⟩
    all_goals simp [init, State.init]
  pumped := by simp [init, State.init, State.Pumped, State.Served]
  registered := by simp [init]
  reached := by simp [init]
  past := by simp [init]
  hints := by simp [init]

theorem run_append (actions : List Action) (a : Action) :
    run (actions ++ [a]) = run actions >>= fun w => w.step a := by
  rw [run, run, List.foldlM_append]
  exact congrArg _ (funext fun w => bind_pure _)

theorem run_spec (actions : List Action) :
    ∃ w, run actions = .ok w ∧ w.Watched ∧ w.clock = actions.length := by
  induction actions using List.reverseRecOn with
  | nil => exact ⟨init, rfl, init_watched, rfl⟩
  | append_singleton actions a ih =>
    obtain ⟨w, done, watched, clock⟩ := ih
    obtain ⟨w', -, stepped, good⟩ := step_spec watched a
    refine ⟨_, by rw [run_append, done, ok_bind, stepped], good.watched, ?_⟩
    rw [List.length_append, List.length_singleton, ← clock, good.clock]

/-- A queue that is closed some time after a hint was closed by a probe that began after it. -/
theorem closed_since (before between : List Action) {h : AcquisitionHint} {key : AcquisitionQueue}
    (about : h.About key) {w : Watch} (done : run (before ++ .hint h :: between) = .ok w) :
    before.length < w.hinted key ∧ ∀ epoch, w.state.look key = some (epoch, false) →
      ∃ earlier a later w₁, between = earlier ++ a :: later ∧
        run (before ++ .hint h :: earlier) = .ok w₁ ∧
        ∃ c ∈ w₁.callers, a = .pending c.id ∧ c.queue = key ∧ ∃ current since,
          c.probe = some (current, since) ∧ w₁.state.look key = some (current, true) ∧
          before.length < since := by
  induction between using List.reverseRecOn generalizing w with
  | nil =>
    obtain ⟨w₀, first, watched, clock⟩ := run_spec before
    obtain ⟨w', -, stepped, good⟩ := step_spec watched (.hint h)
    have ⟨hinted, opened⟩ := good.opened h rfl key about
    rw [run_append, first, ok_bind, stepped] at done
    obtain rfl := Except.ok.inj done
    refine ⟨?_, fun epoch closed => ?_⟩
    · show before.length < w'.hinted key
      omega
    · have isOpen := opened _ closed
      cases isOpen
  | append_singleton between a ih =>
    obtain ⟨w₀, first, watched, clock⟩ := run_spec (before ++ .hint h :: between)
    obtain ⟨w', -, stepped, good⟩ := step_spec watched a
    have split : before ++ .hint h :: (between ++ [a]) = before ++ .hint h :: between ++ [a] := by simp
    rw [split, run_append, first, ok_bind, stepped] at done
    obtain rfl := Except.ok.inj done
    have ⟨hinted, closed⟩ := ih first
    refine ⟨hinted.trans_le (good.hinted key), fun epoch shut => ?_⟩
    obtain ⟨-, isOpen⟩ | ⟨now', here, -, allowed⟩ := good.turned key _ shut
    · cases isOpen
    · cases was : now'.2 with
      | true =>
        obtain ⟨c, mem, action, home, since, probe, later⟩ := allowed was rfl
        have here : w₀.state.look key = some (now'.1, true) := by rw [here, ← was]
        exact ⟨between, a, [], w₀, rfl, first, c, mem, action, home, now'.1, since, probe, here,
          hinted.trans_le later⟩
      | false =>
        have here : w₀.state.look key = some (now'.1, false) := by rw [here, ← was]
        obtain ⟨earlier, b, later, w₁, cut, rest⟩ := closed now'.1 here
        exact ⟨earlier, b, later ++ [a], w₁, by rw [cut]; simp, rest⟩

/-- Every turn is counted once, and every queue and request has one place in the rotations. -/
structure Conserved (s : State) : Prop where
  turns : s.nominated = s.entries.countP Entry.hasTurn
  queued : s.nominated = (s.queues.map Queue.active).sum
  bounded : s.nominated ≤ maxProbes
  rotation : s.order.Nodup ∧ ∀ key, key ∈ s.order ↔ ∃ q ∈ s.queues, q.key = key
  rotations : ∀ q ∈ s.queues, q.order.Nodup ∧
    ∀ id, id ∈ q.order ↔ ∃ e ∈ s.entries, e.id = id ∧ e.key.queue = q.key
  places : ∀ e ∈ s.entries, ∃ q ∈ s.queues, e.id ∈ q.order ∧
    ∀ q' ∈ s.queues, e.id ∈ q'.order → q' = q

theorem conserved_of_kept (kept : s.Kept) : Conserved s where
  turns := kept.nominated
  queued := by
    have known : ∀ e ∈ s.entries, e.key.queue ∈ s.queues.map Queue.key := by
      intro e mem
      obtain ⟨q, stored, same, -⟩ := kept.homes e mem
      exact same ▸ List.mem_map_of_mem stored
    have total := Table.sum_countP kept.unique Entry.hasTurn known
    have active : s.queues.map Queue.active = (s.queues.map Queue.key).map s.turnsOf := by
      rw [List.map_map]
      exact List.map_congr_left kept.active
    rw [kept.nominated, active, ← total]
    rfl
  bounded := kept.bounded
  rotation := ⟨kept.rotation, fun key => (kept.rotated key).trans List.mem_map⟩
  rotations := fun q mem => ⟨kept.rotations q mem, kept.members q mem⟩
  places := fun e mem => by
    obtain ⟨q, stored, same, -⟩ := kept.homes e mem
    refine ⟨q, stored, (kept.members q stored e.id).mpr ⟨e, mem, rfl, same.symm⟩, fun q' there member => ?_⟩
    obtain ⟨e', mem', id, home⟩ := (kept.members q' there e.id).mp member
    obtain rfl := Table.eq_of_key kept.ids mem' mem id
    exact Table.eq_of_key kept.unique there stored (home.symm.trans same.symm)

/-- Over any run of the coordinator turns are conserved, work is conserved, and a queue stays open
after a hint until a probe that began after it has found nothing. -/
theorem turns_conserved_and_hints_kept (actions : List Action) :
    ∃ w, run actions = .ok w ∧ Conserved w.state ∧ w.state.Pumped ∧
      (∀ a, ∃ w', w.step a = .ok w' ∧ ∀ key current after,
        w.state.look key = some (current, true) → w'.state.look key = some (after, false) →
        ∃ c ∈ w.callers, a = .pending c.id ∧ c.queue = key ∧ ∃ since,
          c.probe = some (current, since) ∧
          ∀ before h between, actions = before ++ .hint h :: between → h.About key →
            before.length < since) ∧
      ∀ before h between, actions = before ++ .hint h :: between →
        ∀ key epoch, h.About key → w.state.look key = some (epoch, false) →
        ∃ earlier a later w₁, between = earlier ++ a :: later ∧
          run (before ++ .hint h :: earlier) = .ok w₁ ∧
          ∃ c ∈ w₁.callers, a = .pending c.id ∧ c.queue = key ∧ ∃ current since,
            c.probe = some (current, since) ∧ w₁.state.look key = some (current, true) ∧
            before.length < since := by
  obtain ⟨w, done, watched, -⟩ := run_spec actions
  refine ⟨w, done, conserved_of_kept watched.kept, watched.pumped, fun a => ?_, ?_⟩
  · obtain ⟨w', -, stepped, good⟩ := step_spec watched a
    refine ⟨_, stepped, fun key current after isOpen shut => ?_⟩
    obtain ⟨absent, -⟩ | ⟨now', here, -, closed⟩ := good.turned key _ shut
    · rw [isOpen] at absent
      cases absent
    · obtain rfl := Option.some.inj (isOpen.symm.trans here)
      obtain ⟨c, mem, action, home, since, probe, later⟩ := closed rfl rfl
      refine ⟨c, mem, action, home, since, probe, ?_⟩
      rintro before h between rfl about
      exact (closed_since before between about done).1.trans_le later
  · rintro before h between rfl key epoch about shut
    exact (closed_since before between about done).2 epoch shut

/-- A probe that began before a hint leaves the queue open. -/
example :
    let key : AcquisitionKey := ⟨⟨⟨"tenant", "namespace"⟩, "queue"⟩, "session", 1, 1⟩
    let looks actions := (run actions).toOption.map fun w => w.state.look key.queue
    looks [.register key 0, .epoch 0, .pending 0] = some (some (0, false)) ∧
      looks [.register key 0, .epoch 0, .hint (.queueChanged key.queue), .pending 0] =
        some (some (1, true)) := by decide

end Watch
end Coordinator
end Ledgence
