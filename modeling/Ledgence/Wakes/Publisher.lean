import Ledgence.Api.Decoded
import Ledgence.Wakes.Hints
import Mathlib.Data.Finset.Card

/-! The publisher of wake hints: what committers enqueue, and the loop that sends it on. A payload
stays among the keys until the notification that carries it has ended. -/
open Kit Kit.Checked

namespace Ledgence

structure Backlog where
  queue : List String
  keys : Finset String
  closed : Bool

structure Publisher where
  backlog : Backlog
  /-- The permit that `available` has stored. -/
  available : Bool
  published : UInt64
  dropped : UInt64
  malformed : UInt64

namespace Publisher

def start : Publisher := ⟨⟨[], ∅, false⟩, false, 0, 0, 0⟩

/-- Up to the end of the lock, and whether `notify_one` follows. -/
def enqueue (p : Publisher) (hint : AcquisitionHint) : Publisher × Bool :=
  match hint.encode with
  | none => ({ p with malformed := p.malformed + 1 }, false)
  | some payload =>
    if p.backlog.closed = true ∨ payload ∈ p.backlog.keys then (p, false)
    else if p.backlog.keys.card = maxHints then ({ p with dropped := p.dropped + 1 }, false)
    else
      ({ p with backlog :=
        { p.backlog with
          queue := p.backlog.queue ++ [payload]
          keys := insert payload p.backlog.keys } }, true)

def pop (p : Publisher) : Option (String × Publisher) :=
  match p.backlog.queue with
  | [] => none
  | payload :: rest => some (payload, { p with backlog := { p.backlog with queue := rest } })

def finished (p : Publisher) (payload : String) : Publisher :=
  { p with backlog := { p.backlog with keys := p.backlog.keys.erase payload } }

/-- Where the loop stands: before a `pop`, with a payload in hand, with its `pg_notify` issued, behind
a `pop` that found nothing, or among the waiters of `available`. -/
inductive Loop where
  | idle
  | popped (payload : String)
  | issued (payload : String)
  | empty
  | waiting
  deriving DecidableEq

structure World where
  publisher : Publisher
  loop : Loop
  /-- The committers that left the lock and did not call `notify_one` yet. -/
  owed : Nat

/-- One step of any committer or of the loop, on a publisher that is not closed. -/
inductive Action where
  | enqueue (hint : Hint)
  | notifyOne
  | pop
  | notify
  /-- The notification ends, well or not. -/
  | finish (sent : Bool)
  /-- `available.notified()` is polled. -/
  | notified

namespace World

def start : World := ⟨Publisher.start, .idle, 0⟩

/-- A waiter is woken; without one the permit is stored. -/
def wake (w : World) : World :=
  match w.loop with
  | .waiting => { w with loop := .idle }
  | .idle | .popped _ | .issued _ | .empty =>
    { w with publisher := { w.publisher with available := true } }

def step (w : World) : Action → Option World
  | .enqueue hint =>
    let entered := w.publisher.enqueue hint.hint
    some { w with publisher := entered.1, owed := w.owed + entered.2.toNat }
  | .notifyOne => if w.owed = 0 then none else some { w.wake with owed := w.owed - 1 }
  | .pop =>
    match w.loop with
    | .idle =>
      match w.publisher.pop with
      | some (payload, p) => some { w with publisher := p, loop := .popped payload }
      | none => some { w with loop := .empty }
    | .popped _ | .issued _ | .empty | .waiting => none
  | .notify =>
    match w.loop with
    | .popped payload => some { w with loop := .issued payload }
    | .idle | .issued _ | .empty | .waiting => none
  | .finish sent =>
    match w.loop with
    | .issued payload =>
      let p := w.publisher.finished payload
      some { w with
        publisher := if sent = true then { p with published := p.published + 1 }
          else { p with dropped := p.dropped + 1 }
        loop := .idle }
    | .idle | .popped _ | .empty | .waiting => none
  | .notified =>
    match w.loop with
    | .empty =>
      if w.publisher.available = true then
        some { w with publisher := { w.publisher with available := false }, loop := .idle }
      else some { w with loop := .waiting }
    | .idle | .popped _ | .issued _ | .waiting => none

/-- The payload whose `pg_notify` the step issues. -/
def issues (w : World) : Action → List String
  | .notify =>
    match w.loop with
    | .popped payload => [payload]
    | .idle | .issued _ | .empty | .waiting => []
  | .enqueue _ | .notifyOne | .pop | .finish _ | .notified => []

def run (w : World) : List Action → Option (World × List String)
  | [] => some (w, [])
  | a :: as => do
    let next ← w.step a
    let (u, sent) ← next.run as
    return (u, w.issues a ++ sent)

def inHand : Loop → List String
  | .idle | .empty | .waiting => []
  | .popped payload | .issued payload => [payload]

/-- The payloads are where the keys say, and the loop does not sleep while one is queued, unless the
committer that queued it is about to wake it. -/
structure Kept (w : World) : Prop where
  isOpen : w.publisher.backlog.closed = false
  keys : w.publisher.backlog.keys = (inHand w.loop ++ w.publisher.backlog.queue).toFinset
  distinct : (inHand w.loop ++ w.publisher.backlog.queue).Nodup
  bounded : w.publisher.backlog.keys.card ≤ maxHints
  awake : w.loop = .waiting → w.publisher.backlog.queue = [] ∨ 0 < w.owed
  alert : w.loop = .empty →
    w.publisher.backlog.queue = [] ∨ w.publisher.available = true ∨ 0 < w.owed

def Awaits (w : World) (payload : String) : Prop :=
  w.loop = .popped payload ∨ payload ∈ w.publisher.backlog.queue

def ahead (w : World) (payload : String) : Nat :=
  match w.loop with
  | .popped first => if first = payload then 0 else 1 + w.publisher.backlog.queue.idxOf payload
  | .idle | .issued _ | .empty | .waiting => w.publisher.backlog.queue.idxOf payload

/- One step. -/

variable {w u : World} {a : Action} {payload : String}

theorem start_kept : start.Kept where
  isOpen := rfl
  keys := rfl
  distinct := by simp [start, Publisher.start, inHand]
  bounded := Nat.zero_le _
  awake := by simp [start]
  alert := by simp [start]

theorem enqueue_cases (p : Publisher) {hint : AcquisitionHint} (encoded : hint.encode = some payload)
    (isOpen : p.backlog.closed = false) :
    (payload ∈ p.backlog.keys ∧ p.enqueue hint = (p, false)) ∨
    (payload ∉ p.backlog.keys ∧ p.backlog.keys.card = maxHints ∧
      p.enqueue hint = ({ p with dropped := p.dropped + 1 }, false)) ∨
    (payload ∉ p.backlog.keys ∧ p.backlog.keys.card ≠ maxHints ∧
      p.enqueue hint = ({ p with backlog :=
        { p.backlog with
          queue := p.backlog.queue ++ [payload]
          keys := insert payload p.backlog.keys } }, true)) := by
  rw [enqueue, encoded]
  dsimp only
  by_cases known : payload ∈ p.backlog.keys
  · exact .inl ⟨known, if_pos (.inr known)⟩
  · have fresh : ¬ (p.backlog.closed = true ∨ payload ∈ p.backlog.keys) := by simp [isOpen, known]
    rw [if_neg fresh]
    by_cases full : p.backlog.keys.card = maxHints
    · exact .inr (.inl ⟨known, full, if_pos full⟩)
    · exact .inr (.inr ⟨known, full, if_neg full⟩)

theorem step_enqueue (w : World) (hint : Hint) : w.step (.enqueue hint) =
    some { w with
      publisher := (w.publisher.enqueue hint.hint).1
      owed := w.owed + (w.publisher.enqueue hint.hint).2.toNat } :=
  rfl

theorem enqueue_kept (h : w.Kept) {hint : Hint} (stepped : w.step (.enqueue hint) = some u) :
    u.Kept := by
  rw [step_enqueue] at stepped
  obtain rfl := Option.some.inj stepped
  cases encoded : hint.hint.encode with
  | none =>
    rw [enqueue, encoded]
    exact ⟨h.isOpen, h.keys, h.distinct, h.bounded, h.awake, h.alert⟩
  | some payload =>
    obtain ⟨_, same⟩ | ⟨_, _, same⟩ | ⟨fresh, room, same⟩ := enqueue_cases w.publisher encoded h.isOpen
    · rw [same]
      exact ⟨h.isOpen, h.keys, h.distinct, h.bounded, h.awake, h.alert⟩
    · rw [same]
      exact ⟨h.isOpen, h.keys, h.distinct, h.bounded, h.awake, h.alert⟩
    · have absent : payload ∉ inHand w.loop ++ w.publisher.backlog.queue := by
        rwa [h.keys, List.mem_toFinset] at fresh
      have bounded := h.bounded
      rw [same]
      constructor
      · exact h.isOpen
      · simp only [← List.append_assoc]
        rw [List.toFinset_append, ← h.keys, Finset.insert_eq, Finset.union_comm]
        rfl
      · simp only [← List.append_assoc]
        exact h.distinct.append (by simp) (by simpa [List.disjoint_singleton] using absent)
      · rw [Finset.card_insert_of_notMem fresh]
        omega
      · exact fun _ => .inr (Nat.succ_pos _)
      · exact fun _ => .inr (.inr (Nat.succ_pos _))

theorem notifyOne_kept (h : w.Kept) (stepped : w.step .notifyOne = some u) : u.Kept := by
  simp only [step] at stepped
  split at stepped
  · cases stepped
  · obtain rfl := Option.some.inj stepped
    have keys := h.keys
    have distinct := h.distinct
    cases loop : w.loop with
    | waiting =>
      rw [loop] at keys distinct
      simp only [wake, loop]
      exact ⟨h.isOpen, keys, distinct, h.bounded, by simp, by simp⟩
    | idle | popped other | issued other | empty =>
      rw [loop] at keys distinct
      simp only [wake, loop]
      exact ⟨h.isOpen, keys, distinct, h.bounded, by simp, fun _ => .inr (.inl rfl)⟩

theorem pop_kept (h : w.Kept) (stepped : w.step .pop = some u) : u.Kept := by
  have keys := h.keys
  have distinct := h.distinct
  cases loop : w.loop with
  | idle =>
    rw [loop] at keys distinct
    cases queue : w.publisher.backlog.queue with
    | nil =>
      simp only [step, loop, Publisher.pop, queue, Option.some.injEq] at stepped
      subst stepped
      exact ⟨h.isOpen, keys, distinct, h.bounded, by simp, fun _ => .inl queue⟩
    | cons first rest =>
      simp only [step, loop, Publisher.pop, queue, Option.some.injEq] at stepped
      subst stepped
      rw [queue] at keys distinct
      exact ⟨h.isOpen, keys, distinct, h.bounded, by simp, by simp⟩
  | popped other | issued other | empty | waiting => simp [step, loop] at stepped

theorem finished_kept (h : w.Kept) (issued : w.loop = .issued payload) :
    Kept { w with publisher := w.publisher.finished payload, loop := .idle } := by
  have keys := h.keys
  have distinct := h.distinct
  rw [issued] at keys distinct
  simp only [inHand, List.singleton_append, List.nodup_cons] at keys distinct
  constructor
  · exact h.isOpen
  · simp only [finished, inHand, List.nil_append]
    rw [keys, List.toFinset_cons, Finset.erase_insert (by simpa using distinct.1)]
  · exact distinct.2
  · exact (Finset.card_le_card (Finset.erase_subset _ _)).trans h.bounded
  · simp
  · simp

theorem notified_kept (h : w.Kept) (stepped : w.step .notified = some u) : u.Kept := by
  have keys := h.keys
  have distinct := h.distinct
  cases loop : w.loop with
  | empty =>
    rw [loop] at keys distinct
    simp only [step, loop] at stepped
    split at stepped
    · obtain rfl := Option.some.inj stepped
      exact ⟨h.isOpen, keys, distinct, h.bounded, by simp, by simp⟩
    · rename_i taken
      obtain rfl := Option.some.inj stepped
      have alert := (h.alert loop).imp_right fun noticed => noticed.resolve_left taken
      exact ⟨h.isOpen, keys, distinct, h.bounded, fun _ => alert, by simp⟩
  | idle | popped other | issued other | waiting => simp [step, loop] at stepped

theorem step_kept (h : w.Kept) (stepped : w.step a = some u) : u.Kept := by
  cases a with
  | enqueue hint => exact enqueue_kept h stepped
  | notifyOne => exact notifyOne_kept h stepped
  | pop => exact pop_kept h stepped
  | notified => exact notified_kept h stepped
  | notify =>
    cases loop : w.loop with
    | popped payload =>
      simp only [step, loop, Option.some.injEq] at stepped
      subst stepped
      have keys := h.keys
      have distinct := h.distinct
      rw [loop] at keys distinct
      exact ⟨h.isOpen, keys, distinct, h.bounded, by simp, by simp⟩
    | idle | issued payload | empty | waiting => simp [step, loop] at stepped
  | finish sent =>
    cases loop : w.loop with
    | issued payload =>
      simp only [step, loop, Option.some.injEq] at stepped
      subst stepped
      have kept := finished_kept h loop
      cases sent with
      | true => exact ⟨kept.isOpen, kept.keys, kept.distinct, kept.bounded, by simp, by simp⟩
      | false => exact ⟨kept.isOpen, kept.keys, kept.distinct, kept.bounded, by simp, by simp⟩
    | idle | popped payload | empty | waiting => simp [step, loop] at stepped

theorem awaits_enqueue (h : w.Kept) (awaits : w.Awaits payload) {hint : Hint}
    (stepped : w.step (.enqueue hint) = some u) :
    u.Awaits payload ∧ u.ahead payload = w.ahead payload := by
  rw [step_enqueue] at stepped
  obtain rfl := Option.some.inj stepped
  have grown : ∃ more, (w.publisher.enqueue hint.hint).1.backlog.queue =
      w.publisher.backlog.queue ++ more := by
    cases encoded : hint.hint.encode with
    | none => exact ⟨[], by rw [enqueue, encoded, List.append_nil]⟩
    | some other =>
      obtain ⟨_, same⟩ | ⟨_, _, same⟩ | ⟨_, _, same⟩ := enqueue_cases w.publisher encoded h.isOpen
      · exact ⟨[], by rw [same, List.append_nil]⟩
      · exact ⟨[], by rw [same, List.append_nil]⟩
      · exact ⟨[other], by rw [same]⟩
  obtain ⟨more, grown⟩ := grown
  constructor
  · obtain hand | waits := awaits
    · exact .inl hand
    · exact .inr (by simp [grown, waits])
  · obtain hand | waits := awaits
    · simp [ahead, hand]
    · have place : (w.publisher.backlog.queue ++ more).idxOf payload =
          w.publisher.backlog.queue.idxOf payload := List.idxOf_append_of_mem waits
      simp only [ahead, grown, place]

/-- Neither a wake-up nor a look at `available` moves a payload. -/
theorem awaits_still (awaits : w.Awaits payload)
    (queue : u.publisher.backlog.queue = w.publisher.backlog.queue)
    (loop : u.loop = w.loop ∨ inHand w.loop = [] ∧ inHand u.loop = []) :
    u.Awaits payload ∧ u.ahead payload = w.ahead payload := by
  obtain same | ⟨free, free'⟩ := loop
  · exact ⟨by rwa [Awaits, same, queue], by rw [ahead, ahead, same, queue]⟩
  · obtain hand | waits := awaits
    · simp [hand, inHand] at free
    · refine ⟨.inr (queue ▸ waits), ?_⟩
      cases before : w.loop with
      | popped other | issued other => simp [before, inHand] at free
      | idle | empty | waiting =>
        cases after : u.loop with
        | popped other | issued other => simp [after, inHand] at free'
        | idle | empty | waiting => simp only [ahead, before, after, queue]

theorem awaits_pop (awaits : w.Awaits payload) (stepped : w.step .pop = some u) :
    u.Awaits payload ∧ u.ahead payload = w.ahead payload := by
  cases loop : w.loop with
  | idle =>
    have waits : payload ∈ w.publisher.backlog.queue := by
      obtain hand | waits := awaits
      · simp [loop] at hand
      · exact waits
    cases queue : w.publisher.backlog.queue with
    | nil => simp [queue] at waits
    | cons head rest =>
      simp only [step, loop, Publisher.pop, queue, Option.some.injEq] at stepped
      subst stepped
      by_cases mine : head = payload
      · exact ⟨.inl (by rw [mine]), by simp [ahead, loop, queue, mine]⟩
      · have waits' : payload ∈ rest := by
          rw [queue] at waits
          exact (List.mem_cons.mp waits).resolve_left (Ne.symm mine)
        refine ⟨.inr waits', ?_⟩
        simp [ahead, loop, queue, mine, List.idxOf_cons_ne, Nat.add_comm]
  | popped other | issued other | empty | waiting => simp [step, loop] at stepped

/-- A payload that awaits its notification is notified by the step, or awaits on with as many
notifications before it as before, less the one that the step issues. -/
theorem step_awaits (h : w.Kept) (awaits : w.Awaits payload) (stepped : w.step a = some u) :
    payload ∈ w.issues a ∨
      u.Awaits payload ∧ (w.issues a).length + u.ahead payload = w.ahead payload := by
  cases a with
  | enqueue hint =>
    have later := awaits_enqueue h awaits stepped
    exact .inr ⟨later.1, by simpa [issues] using later.2⟩
  | notifyOne =>
    simp only [step] at stepped
    split at stepped
    · cases stepped
    · obtain rfl := Option.some.inj stepped
      cases loop : w.loop with
      | waiting =>
        have later := awaits_still (u := { w.wake with owed := w.owed - 1 }) awaits
          (by simp [wake, loop]) (.inr ⟨by simp [loop, inHand], by simp [wake, loop, inHand]⟩)
        exact .inr ⟨later.1, by simpa [issues] using later.2⟩
      | idle | popped other | issued other | empty =>
        have later := awaits_still (u := { w.wake with owed := w.owed - 1 }) awaits
          (by simp [wake, loop]) (.inl (by simp [wake, loop]))
        exact .inr ⟨later.1, by simpa [issues] using later.2⟩
  | pop =>
    have later := awaits_pop awaits stepped
    exact .inr ⟨later.1, by simpa [issues] using later.2⟩
  | notified =>
    cases loop : w.loop with
    | empty =>
      simp only [step, loop] at stepped
      split at stepped
      all_goals
        have free : inHand w.loop = [] ∧ inHand u.loop = [] := by
          rw [loop, ← Option.some.inj stepped]
          exact ⟨rfl, rfl⟩
        have later := awaits_still (u := u) awaits (by rw [← Option.some.inj stepped]) (.inr free)
        exact .inr ⟨later.1, by simpa [issues] using later.2⟩
    | idle | popped other | issued other | waiting => simp [step, loop] at stepped
  | notify =>
    cases loop : w.loop with
    | popped other =>
      simp only [step, loop, Option.some.injEq] at stepped
      subst stepped
      by_cases mine : other = payload
      · exact .inl (by simp [issues, loop, mine])
      · have waits : payload ∈ w.publisher.backlog.queue := by
          obtain hand | waits := awaits
          · rw [loop, Loop.popped.injEq] at hand
            exact absurd hand mine
          · exact waits
        exact .inr ⟨.inr waits, by simp [issues, ahead, loop, mine]⟩
    | idle | issued other | empty | waiting => simp [step, loop] at stepped
  | finish sent =>
    cases loop : w.loop with
    | issued other =>
      simp only [step, loop, Option.some.injEq] at stepped
      subst stepped
      have waits : payload ∈ w.publisher.backlog.queue := by
        obtain hand | waits := awaits
        · simp [loop] at hand
        · exact waits
      cases sent with
      | true => exact .inr ⟨.inr waits, by simp [issues, ahead, loop, finished]⟩
      | false => exact .inr ⟨.inr waits, by simp [issues, ahead, loop, finished]⟩
    | idle | popped other | empty | waiting => simp [step, loop] at stepped

/- Whole runs. -/

variable {as : List Action} {sent : List String}

theorem run_cons : w.run (a :: as) = some (u, sent) ↔ ∃ next later, w.step a = some next ∧
    next.run as = some (u, later) ∧ sent = w.issues a ++ later := by
  simp only [run, bind, Option.bind_eq_some_iff, pure, Option.some.injEq, Prod.mk.injEq, Prod.exists]
  constructor
  · rintro ⟨next, stepped, _, later, ran, rfl, rfl⟩
    exact ⟨next, later, stepped, ran, rfl⟩
  · rintro ⟨next, later, stepped, ran, rfl⟩
    exact ⟨next, stepped, u, later, ran, rfl, rfl⟩

theorem run_kept (h : w.Kept) (ran : w.run as = some (u, sent)) : u.Kept := by
  induction as generalizing w sent with
  | nil =>
    obtain ⟨rfl, rfl⟩ : w = u ∧ [] = sent := by simpa [run] using ran
    exact h
  | cons a as ih =>
    obtain ⟨next, later, stepped, rest, rfl⟩ := run_cons.mp ran
    exact ih (step_kept h stepped) rest

theorem run_awaits (h : w.Kept) (awaits : w.Awaits payload) (ran : w.run as = some (u, sent)) :
    payload ∈ sent ∨ u.Awaits payload ∧ sent.length + u.ahead payload = w.ahead payload := by
  induction as generalizing w sent with
  | nil =>
    obtain ⟨rfl, rfl⟩ : w = u ∧ [] = sent := by simpa [run] using ran
    exact .inr ⟨awaits, by simp⟩
  | cons a as ih =>
    obtain ⟨next, later, stepped, rest, rfl⟩ := run_cons.mp ran
    obtain now | ⟨awaits', count⟩ := step_awaits h awaits stepped
    · exact .inl (List.mem_append_left _ now)
    · obtain then' | ⟨awaits'', count'⟩ := ih (step_kept h stepped) awaits' rest
      · exact .inl (List.mem_append_right _ then')
      · refine .inr ⟨awaits'', ?_⟩
        rw [List.length_append]
        omega

/-- A step of the loop, or the `notify_one` of a committer that has queued its payload. -/
def Action.Settles : Action → Prop
  | .enqueue _ => False
  | .notifyOne | .pop | .notify | .finish _ | .notified => True

/-- How far the loop is from its next `pg_notify`, at most. -/
def distance : Loop → Nat
  | .popped _ => 0
  | .idle => 1
  | .issued _ | .waiting => 2
  | .empty => 3

/-- With a payload queued or in hand the loop is never without a step towards its next `pg_notify`,
unless the one to wake it is still to do so. -/
theorem nears (h : w.Kept) (busy : inHand w.loop = [] → w.publisher.backlog.queue ≠ []) :
    ∃ a u, Action.Settles a ∧ w.step a = some u ∧
      distance u.loop < 3 * (w.issues a).length + distance w.loop := by
  cases loop : w.loop with
  | idle =>
    cases queue : w.publisher.backlog.queue with
    | nil => exact absurd queue (busy (by rw [loop, inHand]))
    | cons first rest =>
      refine ⟨.pop, { w with
        publisher := { w.publisher with backlog := { w.publisher.backlog with queue := rest } }
        loop := .popped first }, trivial, ?_, by simp [distance]⟩
      simp only [step, loop, Publisher.pop, queue]
  | popped first =>
    exact ⟨.notify, { w with loop := .issued first }, trivial, by simp only [step, loop],
      by simp [distance, issues, loop]⟩
  | issued first =>
    have stepped : ∃ p, w.step (.finish true) = some { w with publisher := p, loop := .idle } := by
      simp only [step, loop]
      exact ⟨_, rfl⟩
    obtain ⟨p, stepped⟩ := stepped
    exact ⟨.finish true, _, trivial, stepped, by simp [distance]⟩
  | empty =>
    by_cases permit : w.publisher.available = true
    · refine ⟨.notified, { w with
        publisher := { w.publisher with available := false }
        loop := .idle }, trivial, ?_, by simp [distance]⟩
      simp only [step, loop, if_pos permit]
    · refine ⟨.notified, { w with loop := .waiting }, trivial, ?_, by simp [distance]⟩
      simp only [step, loop, if_neg permit]
  | waiting =>
    have owed := (h.awake loop).resolve_left (busy (by rw [loop, inHand]))
    refine ⟨.notifyOne, { w with loop := .idle, owed := w.owed - 1 }, trivial, ?_, by simp [distance]⟩
    simp only [step, if_neg (Nat.ne_of_gt owed), wake, loop]

/-- While a payload awaits its notification some step other than an enqueue leads closer to it. -/
theorem closer (h : w.Kept) (awaits : w.Awaits payload) : ∃ a u, Action.Settles a ∧
    w.step a = some u ∧ (payload ∈ w.issues a ∨ u.Awaits payload ∧
      3 * u.ahead payload + distance u.loop < 3 * w.ahead payload + distance w.loop) := by
  have busy (free : inHand w.loop = []) : w.publisher.backlog.queue ≠ [] := by
    obtain hand | waits := awaits
    · simp [hand, inHand] at free
    · exact List.ne_nil_of_mem waits
  obtain ⟨a, u, settles, stepped, less⟩ := nears h busy
  refine ⟨a, u, settles, stepped, (step_awaits h awaits stepped).imp_right fun later => ?_⟩
  exact ⟨later.1, by omega⟩

theorem delivers (h : w.Kept) (awaits : w.Awaits payload) : ∃ cs v later,
    (∀ c ∈ cs, Action.Settles c) ∧ w.run cs = some (v, later) ∧ payload ∈ later := by
  induction distant : 3 * w.ahead payload + distance w.loop using Nat.strong_induction_on
    generalizing w with
  | _ n ih =>
    obtain ⟨a, u, settles, stepped, sent | ⟨awaits', less⟩⟩ := closer h awaits
    · exact ⟨[a], u, _, by simpa using settles, run_cons.mpr ⟨u, [], stepped, rfl, rfl⟩,
        List.mem_append_left _ sent⟩
    · obtain ⟨cs, v, later, all, ran, sent⟩ :=
        ih _ (distant ▸ less) (step_kept h stepped) awaits' rfl
      exact ⟨a :: cs, v, _, by simpa using ⟨settles, all⟩,
        run_cons.mpr ⟨u, later, stepped, ran, rfl⟩, List.mem_append_right _ sent⟩

theorem ahead_lt (h : w.Kept) (awaits : w.Awaits payload) : w.ahead payload < maxHints := by
  have bounded := h.bounded
  rw [h.keys, List.toFinset_card_of_nodup h.distinct, List.length_append] at bounded
  have place : payload ∈ w.publisher.backlog.queue →
      w.publisher.backlog.queue.idxOf payload < w.publisher.backlog.queue.length :=
    List.idxOf_lt_length_of_mem
  cases loop : w.loop with
  | popped other =>
    rw [loop] at bounded
    simp only [inHand, List.length_singleton] at bounded
    by_cases mine : other = payload
    · simp [ahead, loop, mine, maxHints]
    · obtain hand | waits := awaits
      · rw [loop, Loop.popped.injEq] at hand
        exact absurd hand mine
      · have before := place waits
        simp only [ahead, loop, if_neg mine]
        omega
  | idle | issued other | empty | waiting =>
    obtain hand | waits := awaits
    · simp [loop] at hand
    · have before := place waits
      simp only [ahead, loop]
      omega

/-- However the run goes on, the payload is notified, or still awaits it with fewer than 1024
notifications before it, one less with each that is issued, and the loop comes to it without another
enqueue: it never sleeps on, unless a committer is about to wake it. -/
def Promised (u : World) (payload : String) : Prop :=
  ∀ bs v later, u.run bs = some (v, later) → payload ∈ later ∨
    v.Awaits payload ∧ later.length + v.ahead payload < maxHints ∧
      ∃ cs z rest, (∀ c ∈ cs, Action.Settles c) ∧ v.run cs = some (z, rest) ∧ payload ∈ rest

theorem Awaits.promised (h : w.Kept) (awaits : w.Awaits payload) : w.Promised payload := by
  intro bs v later ran
  obtain sent | ⟨awaits', count⟩ := run_awaits h awaits ran
  · exact .inl sent
  · have before := ahead_lt h awaits
    exact .inr ⟨awaits', by omega, delivers (run_kept h ran) awaits'⟩

/-- After an enqueue, a payload that is not the one being notified was dropped and counted, or awaits
its notification. -/
theorem enqueue_settles (h : w.Kept) {hint : Hint} (encoded : hint.hint.encode = some payload)
    (stepped : w.step (.enqueue hint) = some u) : (w.loop = .issued payload ∧ u = w) ∨
      (u.publisher = { w.publisher with dropped := w.publisher.dropped + 1 }) ∨ u.Awaits payload := by
  rw [step_enqueue] at stepped
  obtain rfl := Option.some.inj stepped
  obtain ⟨known, same⟩ | ⟨_, _, same⟩ | ⟨_, _, same⟩ := enqueue_cases w.publisher encoded h.isOpen
  · rw [h.keys, List.mem_toFinset, List.mem_append] at known
    obtain hand | waits := known
    · cases loop : w.loop with
      | idle | empty | waiting => simp [loop, inHand] at hand
      | popped other =>
        obtain rfl : payload = other := by simpa [loop, inHand] using hand
        exact .inr (.inr (.inl rfl))
      | issued other =>
        obtain rfl : payload = other := by simpa [loop, inHand] using hand
        exact .inl ⟨rfl, by simp [same, ← loop]⟩
    · exact .inr (.inr (.inr (by rw [same]; exact waits)))
  · exact .inr (.inl (by rw [same]))
  · exact .inr (.inr (.inr (by rw [same]; simp)))

/-- In every run of committers and the loop: the keys stay within their bound and a payload is queued
once; and a valid hint is encoded so that every receiver decodes it, and is then coalesced with the
notification of its payload that is already issued, or dropped and counted, or promised. -/
theorem hints_announced (serde : Serde) (correct : serde.Correct) {as : List Action} {w : World}
    {sent : List String} (ran : start.run as = some (w, sent)) :
    w.publisher.backlog.keys.card ≤ maxHints ∧
    (inHand w.loop ++ w.publisher.backlog.queue).Nodup ∧
    ∀ hint : Hint, hint.hint.validateHint = true → ∃ payload, hint.hint.encode = some payload ∧
      AcquisitionHint.decode serde payload = some hint.hint ∧
      ∀ u, w.step (.enqueue hint) = some u →
        (w.loop = .issued payload ∧ u = w) ∨
        (u.publisher.dropped = w.publisher.dropped + 1 ∧ u.publisher.backlog = w.publisher.backlog) ∨
        u.Promised payload := by
  have kept := run_kept start_kept ran
  refine ⟨kept.bounded, kept.distinct, fun hint valid => ?_⟩
  have encodes := (AcquisitionHint.encode_isSome hint.inRange).trans valid
  obtain ⟨payload, encoded⟩ := Option.isSome_iff_exists.mp encodes
  refine ⟨payload, encoded, AcquisitionHint.decode_encode correct hint.inRange encoded, ?_⟩
  intro u stepped
  obtain issued | dropped | awaits := enqueue_settles kept encoded stepped
  · exact .inl issued
  · exact .inr (.inl ⟨by rw [dropped], by rw [dropped]⟩)
  · exact .inr (.inr (awaits.promised (step_kept kept stepped)))

def sampleHint : Hint := ⟨.queueChanged ⟨⟨"tenant", "namespace"⟩, "queue"⟩, trivial⟩

theorem sample_encoded : ∃ payload, sampleHint.hint.encode = some payload := by
  have valid : sampleHint.hint.validateHint = true := by decide +kernel
  exact Option.isSome_iff_exists.mp ((AcquisitionHint.encode_isSome sampleHint.inRange).trans valid)

theorem sample_issued {payload : String} (encoded : sampleHint.hint.encode = some payload) :
    start.run [.pop, .notified, .enqueue sampleHint, .notifyOne, .pop, .notify] =
      some (⟨⟨⟨[], {payload}, false⟩, false, 0, 0, 0⟩, .issued payload, 0⟩, [payload]) := by
  simp [run, step, start, Publisher.start, enqueue, encoded, Publisher.pop, issues, wake, maxHints]

/-- A loop that found nothing sleeps until the first hint, and notifies its payload: the state in
which the payload comes again. -/
theorem hints_announced_sample : ∃ w sent payload,
    start.run [.pop, .notified, .enqueue sampleHint, .notifyOne, .pop, .notify] = some (w, sent) ∧
    sent = [payload] ∧ sampleHint.hint.validateHint = true ∧
    w.publisher.backlog.keys.card ≤ maxHints ∧
    ∃ payload, sampleHint.hint.encode = some payload ∧
      AcquisitionHint.decode Serde.ofZeros payload = some sampleHint.hint ∧
      ∀ u, w.step (.enqueue sampleHint) = some u →
        (w.loop = .issued payload ∧ u = w) ∨
        (u.publisher.dropped = w.publisher.dropped + 1 ∧ u.publisher.backlog = w.publisher.backlog) ∨
        u.Promised payload := by
  have valid : sampleHint.hint.validateHint = true := by decide +kernel
  obtain ⟨payload, encoded⟩ := sample_encoded
  obtain ⟨bounded, -, each⟩ :=
    hints_announced Serde.ofZeros Serde.ofZeros_correct (sample_issued encoded)
  exact ⟨_, _, payload, sample_issued encoded, rfl, valid, bounded, each sampleHint valid⟩

/-- A hint that comes while a notification of its payload is under way is coalesced with it, and the
loop goes to sleep after that notification. -/
theorem absorbed_in_flight : ¬ ∀ (as bs : List Action) (w u v : World) (sent later : List String)
    (hint : Hint) (payload : String), start.run as = some (w, sent) →
    hint.hint.encode = some payload → w.step (.enqueue hint) = some u →
    u.run bs = some (v, later) → v.loop = .waiting → v.owed = 0 → v.publisher.backlog.queue = [] →
    u.publisher.dropped = w.publisher.dropped + 1 ∨ payload ∈ later := by
  intro announced
  obtain ⟨payload, encoded⟩ := sample_encoded
  let busy : World := ⟨⟨⟨[], {payload}, false⟩, false, 0, 0, 0⟩, .issued payload, 0⟩
  have absorbed : busy.step (.enqueue sampleHint) = some busy := by
    simp [step, enqueue, encoded, busy]
  have rest : busy.run [.finish true, .pop, .notified] =
      some (⟨⟨⟨[], ∅, false⟩, false, 1, 0, 0⟩, .waiting, 0⟩, []) := by
    simp [run, step, issues, finished, Publisher.pop, busy]
  have told := announced _ _ busy busy _ _ _ sampleHint payload (sample_issued encoded) encoded
    absorbed rest rfl rfl rfl
  simp [busy] at told

end World
end Publisher
end Ledgence
