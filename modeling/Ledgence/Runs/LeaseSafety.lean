import Ledgence.Core.Authority
import Ledgence.Runs.Store

/-! The leases a store grants and the permission that workers derive from them: while a tracker
lets its attempt dispatch, the task has no later attempt. -/
open Kit Kit.Checked

namespace Ledgence

def AttemptSnapshot.claimedAt (attempt : AttemptSnapshot) : Option Nat :=
  attempt.event.time

section Moves
variable {used : WorkerSession → Prop} {task task' : TaskSnapshot}
  {attempt attempt' : AttemptSnapshot} {now : Nat} {events : List HistoryEvent}

theorem Closing.lease {task₁ : TaskSnapshot} {attempt₁ : AttemptSnapshot}
    (h : Closing task attempt now task₁ attempt₁ events) :
    attempt₁.lease = attempt.lease ∧ attempt₁.authorityDeadline = attempt.authorityDeadline := by
  cases h with
  | reported | confirmed | expired | cancelled | stopped => exact ⟨rfl, rfl⟩

/-- A move keeps the lease, renews it under a session, or shortens it for a cancellation. -/
theorem MoveBy.lease (h : MoveBy used task attempt now task' attempt' events) :
    (attempt'.lease = attempt.lease ∧ attempt'.authorityDeadline = attempt.authorityDeadline) ∨
    (∃ session, used session ∧ session.id = attempt.lease.owner.workerSessionId ∧
      attempt'.lease.expiresAt =
        min (min (now + leaseDurationMs) attempt.authorityDeadline) session.expiresAt ∧
      attempt'.authorityDeadline = attempt.authorityDeadline) ∨
    (task'.cancelRequestedAt.isSome = true ∧
      attempt'.lease.expiresAt ≤ attempt.lease.expiresAt ∧
      attempt'.lease.expiresAt ≤ attempt'.authorityDeadline) := by
  cases h with
  | same | reported | withdrawn | started | denied | denialConfirmed | deferralCancelled
  | deferred => exact .inl ⟨rfl, rfl⟩
  | closed running closing retry scheduled => exact .inl closing.lease
  | renewed session command sessionOpen isLive owner ofSession next ordinary inRange known granted =>
    exact .inr (.inl ⟨session, known, ofSession, granted, rfl⟩)
  | cancelRequested running fresh within inRange =>
    exact .inr (.inr ⟨rfl, min_le_left _ _, min_le_right _ _⟩)

theorem Move.uncancelled (h : Move task attempt now task' attempt' events)
    (fresh : task'.cancelRequestedAt = none) : task.cancelRequestedAt = none := by
  cases h with
  | same | renewed | reported | started | denied | denialConfirmed => exact fresh
  | withdrawn | cancelRequested => simp [cancelledTask, cancelRequestedTask] at fresh
  | deferralCancelled => exact fresh
  | closed running closing retry scheduled =>
    cases closing with
    | reported | confirmed | expired | stopped => exact fresh
    | cancelled => simp [finishedTask, cancelRequestedTask] at fresh
  | deferred quiescence running governed unstarted unsettled unrequested => exact unrequested

/-- An ordinary attempt ends with its cleanup confirmed, after its lease, or under a
cancellation. -/
theorem Move.ended (h : Move task attempt now task' attempt' events)
    (ordinary : task.input.admission = none)
    (within : attempt.lease.expiresAt ≤ attempt.authorityDeadline)
    (isActive : attempt.state = .active) (ended : attempt'.state ≠ .active) :
    attempt'.quiescence = .confirmed ∨ attempt'.lease.expiresAt ≤ now ∨
      task'.cancelRequestedAt.isSome = true := by
  cases h with
  | same | withdrawn | renewed | reported | cancelRequested | started | denialConfirmed =>
    exact absurd isActive ended
  | denied reason isLive governed => simp [ordinary] at governed
  | deferralCancelled quiescence running governed => simp [ordinary] at governed
  | deferred quiescence running governed => simp [ordinary] at governed
  | closed running closing retry scheduled =>
    cases closing with
    | reported command acceptable isLive first quiet => exact .inl quiet
    | confirmed => exact .inl rfl
    | expired past =>
      refine .inr (.inl ?_)
      show attempt.lease.expiresAt ≤ now
      omega
    | cancelled => exact .inr (.inr rfl)
    | stopped governed => simp [ordinary] at governed

end Moves

structure Lease.Bounded (sessions : List WorkerSession) (clock : Nat) (a : AttemptSnapshot) :
    Prop where
  duration : a.lease.expiresAt ≤ clock + leaseDurationMs
  authority : a.lease.expiresAt ≤ a.authorityDeadline
  session : ∃ x, Table.find WorkerSession.id a.lease.owner.workerSessionId sessions = some x ∧
    a.lease.expiresAt ≤ x.expiresAt

section Bounded
variable {s : Store} {clock now : Nat} {task task' : TaskSnapshot}
  {attempt attempt' : AttemptSnapshot} {events : List HistoryEvent}

theorem Lease.Bounded.moved (bounded : Lease.Bounded s.sessions clock attempt) (reached : clock ≤ now)
    (move : MoveBy s.Known task attempt now task' attempt' events) :
    Lease.Bounded s.sessions now attempt' := by
  obtain ⟨duration, authority, x, stored, session⟩ := bounded
  have owner : attempt'.lease.owner = attempt.lease.owner :=
    Move.same_attempt (move.mono fun _ _ => trivial) |>.owner
  obtain ⟨lease, deadline⟩ | ⟨y, known, named, lease, deadline⟩ | ⟨-, shorter, within⟩ := move.lease
  · exact ⟨by rw [lease]; omega, by rw [lease, deadline]; exact authority,
      x, by rw [owner, stored], by rw [lease]; exact session⟩
  · have under : attempt'.lease.expiresAt ≤ min (now + leaseDurationMs) attempt.authorityDeadline :=
      lease.le.trans (min_le_left _ _)
    exact ⟨under.trans (min_le_left _ _), deadline ▸ under.trans (min_le_right _ _), y,
      by rw [owner, ← named]; exact known, lease.le.trans (min_le_right _ _)⟩
  · exact ⟨by omega, within, x, by rw [owner, stored], by omega⟩

/-- Unless a cancellation is requested, a bounded lease is never shortened. -/
theorem Lease.Bounded.grows (bounded : Lease.Bounded s.sessions clock attempt) (reached : clock ≤ now)
    (move : MoveBy s.Known task attempt now task' attempt' events)
    (fresh : task'.cancelRequestedAt = none) :
    attempt.lease.expiresAt ≤ attempt'.lease.expiresAt := by
  obtain ⟨duration, authority, x, stored, session⟩ := bounded
  obtain ⟨lease, -⟩ | ⟨y, known, named, lease, -⟩ | ⟨requested, -⟩ := move.lease
  · rw [lease]
  · rw [← named] at stored
    obtain rfl : x = y := Option.some.inj (stored.symm.trans known)
    rw [lease]
    exact le_min (le_min (duration.trans (Nat.add_le_add_right reached _)) authority) session
  · simp [fresh] at requested

end Bounded
def Granted (samples : List (Nat × Authority)) (a : AttemptSnapshot) (x : Nat × Authority) : Prop :=
  x ∈ samples ∧ x.2.owner = a.lease.owner ∧ 0 < x.2.remainingMs

structure TaskRun.Guarded (samples : List (Nat × Authority)) (clock : Nat) (r : TaskRun) : Prop where
  attributed : ∀ x ∈ samples, x.2.owner.taskId = r.id →
    x.2.owner.attemptId ∈ r.attempts.map AttemptSnapshot.id
  dated : ∀ a ∈ r.attempts, ∃ c, a.claimedAt = some c ∧ c ≤ clock ∧
    ∀ x, Granted samples a x → c ≤ x.1
  held : r.task.cancelRequestedAt = none → ∀ a ∈ r.attempts, ∀ x, Granted samples a x →
    x.1 + x.2.remainingMs ≤ a.lease.expiresAt
  past : r.task.input.admission = none → ∀ a ∈ r.attempts, a.state ≠ .active →
    a.quiescence = .confirmed ∨ a.lease.expiresAt ≤ clock ∨
      r.task.cancelRequestedAt.isSome = true
  apart : r.task.input.admission = none → ∀ a ∈ r.attempts, ∀ b ∈ r.attempts,
    a.generation < b.generation → a.quiescence ≠ .confirmed → ∀ x, Granted samples a x →
      ∀ c, b.claimedAt = some c → x.1 + x.2.remainingMs ≤ c

namespace TaskRun
variable {samples : List (Nat × Authority)} {clock now : Nat} {r : TaskRun}

theorem Guarded.later (guarded : r.Guarded samples clock) (reached : clock ≤ now) :
    r.Guarded samples now where
  attributed := guarded.attributed
  dated a ha := by
    obtain ⟨c, claimed, early, after⟩ := guarded.dated a ha
    exact ⟨c, claimed, early.trans reached, after⟩
  held := guarded.held
  past ordinary a ha ended := by
    obtain quiet | late | requested := guarded.past ordinary a ha ended
    · exact .inl quiet
    · exact .inr (.inl (late.trans reached))
    · exact .inr (.inr requested)
  apart := guarded.apart

theorem Guarded.elsewhere (guarded : r.Guarded samples clock) (sound : r.Sound)
    {x : Nat × Authority} (other : x.2.owner.taskId ≠ r.id) :
    r.Guarded (samples ++ [x]) clock := by
  have old : ∀ a ∈ r.attempts, ∀ y, Granted (samples ++ [x]) a y → Granted samples a y := by
    rintro a ha y ⟨mem, owner, left⟩
    obtain mem | mem := List.mem_append.mp mem
    · exact ⟨mem, owner, left⟩
    · rw [List.mem_singleton.mp mem] at owner
      have belongs := (sound.belongs a ha).2.1
      exact absurd (by rw [owner, belongs]; rfl) other
  constructor
  case attributed =>
    intro y mem ofTask
    obtain mem | mem := List.mem_append.mp mem
    · exact guarded.attributed y mem ofTask
    · exact absurd (List.mem_singleton.mp mem ▸ ofTask) other
  case dated =>
    intro a ha
    obtain ⟨c, claimed, early, after⟩ := guarded.dated a ha
    exact ⟨c, claimed, early, fun y granted => after y (old a ha y granted)⟩
  case held => exact fun fresh a ha y granted => guarded.held fresh a ha y (old a ha y granted)
  case past => exact guarded.past
  case apart =>
    exact fun ordinary a ha b hb newer loud y granted =>
      guarded.apart ordinary a ha b hb newer loud y (old a ha y granted)

theorem Sound.latest (sound : r.Sound) {a b : AttemptSnapshot} (ha : a ∈ r.attempts)
    (hb : b ∈ r.attempts) (isActive : a.state = .active) : b.generation ≤ a.generation := by
  have current := (sound.active a ha).mp isActive
  have active : r.task.state = .active := by
    by_contra idle
    simp [sound.idle idle] at current
  obtain ⟨c, hc, named, latest⟩ := sound.busy active
  obtain rfl : a = c :=
    Table.eq_of_key sound.unique ha hc (Option.some.inj (current.symm.trans named))
  have := (sound.belongs b hb).2.2.2.2.1
  simpa [AttemptSnapshot.generation, ← latest] using this

/-- A sample that grants some lease is one of a live attempt, up to the end of its lease. -/
theorem samples_granted {task : TaskSnapshot} {a : AttemptSnapshot} {x : Authority}
    (sampled : Store.Samples task a now x) (left : 0 < x.remainingMs) :
    live task a now ∧ now + x.remainingMs = a.lease.expiresAt := by
  obtain ⟨-, remaining⟩ := sampled
  by_cases isLive : live task a now
  · refine ⟨isLive, ?_⟩
    have := isLive.2.2.2.1
    rw [remaining]
    simp only [authority, isLive, decide_true, if_true]
    omega
  · simp [remaining, authority, isLive] at left

theorem Guarded.sampled (guarded : r.Guarded samples clock) (sound : r.Sound)
    (reached : clock ≤ now) {attempt : AttemptSnapshot} (mem : attempt ∈ r.attempts)
    {x : Authority} (sampled : Store.Samples r.task attempt now x) :
    r.Guarded (samples ++ [(now, x)]) now := by
  have grants : ∀ a ∈ r.attempts, ∀ y, Granted (samples ++ [(now, x)]) a y →
      Granted samples a y ∨ a = attempt ∧ y = (now, x) ∧ live r.task a now ∧
        now + x.remainingMs = a.lease.expiresAt := by
    rintro a ha y ⟨hy, owner, left⟩
    obtain hy | hy := List.mem_append.mp hy
    · exact .inl ⟨hy, owner, left⟩
    · obtain rfl := List.mem_singleton.mp hy
      have same : a = attempt := by
        refine Table.eq_of_key sound.unique ha mem ?_
        rw [AttemptSnapshot.id, AttemptSnapshot.id, ← sampled.1, owner]
      subst same
      obtain ⟨isLive, until'⟩ := samples_granted sampled left
      exact .inr ⟨rfl, rfl, isLive, until'⟩
  have later := guarded.later reached
  constructor
  case attributed =>
    intro y hy ofTask
    obtain hy | hy := List.mem_append.mp hy
    · exact guarded.attributed y hy ofTask
    · obtain rfl := List.mem_singleton.mp hy
      rw [sampled.1]
      exact List.mem_map_of_mem mem
  case dated =>
    intro a ha
    obtain ⟨c, claimed, early, after⟩ := later.dated a ha
    refine ⟨c, claimed, early, fun y granted => ?_⟩
    obtain granted | ⟨-, rfl, -⟩ := grants a ha y granted
    · exact after y granted
    · exact early
  case held =>
    intro fresh a ha y granted
    obtain granted | ⟨-, rfl, -, until'⟩ := grants a ha y granted
    · exact guarded.held fresh a ha y granted
    · exact until'.le
  case past => exact later.past
  case apart =>
    intro ordinary a ha b hb newer loud y granted
    obtain granted | ⟨-, -, isLive, -⟩ := grants a ha y granted
    · exact guarded.apart ordinary a ha b hb newer loud y granted
    · exact absurd (sound.latest ha hb isLive.2.1) (by omega)

/-- A claim is made when every earlier attempt is over, so that all their samples are too. -/
theorem Guarded.claimed (guarded : r.Guarded samples clock) (sound : r.Sound)
    (reached : clock ≤ now) {ids : AttemptIds} {command : AcquireCommand}
    (claimable : Claimable r.task ids command now)
    (unused : ids.attemptId ∉ r.attempts.map AttemptSnapshot.id) (session : WorkerSession) :
    (Store.claimedRun r ids session command.consumerId now).Guarded samples now := by
  have unsampled : ∀ x,
      ¬ Granted samples (newAttempt r.task ids session command.consumerId now) x := by
    rintro x ⟨hx, owner, -⟩
    have named := guarded.attributed x hx (by rw [owner]; rfl)
    rw [owner] at named
    exact unused named
  have ended : ∀ a ∈ r.attempts, a.state ≠ .active := by
    intro a ha isActive
    rw [sound.active a ha, claimable.unowned] at isActive
    simp at isActive
  have later := guarded.later reached
  constructor
  case attributed =>
    intro x hx ofTask
    rw [Store.claimedRun, List.map_append]
    exact List.mem_append_left _ (guarded.attributed x hx ofTask)
  case dated =>
    intro a ha
    obtain ha | ha := List.mem_append.mp ha
    · exact later.dated a ha
    · obtain rfl := List.mem_singleton.mp ha
      exact ⟨now, rfl, le_rfl, fun x granted => absurd granted (unsampled x)⟩
  case held =>
    intro fresh a ha x granted
    obtain ha | ha := List.mem_append.mp ha
    · exact guarded.held fresh a ha x granted
    · exact absurd (List.mem_singleton.mp ha ▸ granted) (unsampled x)
  case past =>
    intro ordinary a ha isEnded
    obtain ha | ha := List.mem_append.mp ha
    · exact later.past ordinary a ha isEnded
    · exact absurd (by rw [List.mem_singleton.mp ha]; rfl) isEnded
  case apart =>
    intro ordinary a ha b hb newer loud x granted c claimed
    obtain ha | ha := List.mem_append.mp ha
    · obtain hb | hb := List.mem_append.mp hb
      · exact guarded.apart ordinary a ha b hb newer loud x granted c claimed
      · rw [List.mem_singleton.mp hb] at claimed
        obtain rfl : now = c := Option.some.inj claimed
        have until' := guarded.held claimable.fresh a ha x granted
        obtain quiet | late | requested := later.past ordinary a ha (ended a ha)
        · exact absurd quiet loud
        · exact until'.trans late
        · simp [claimable.fresh] at requested
    · exact absurd (List.mem_singleton.mp ha ▸ granted) (unsampled x)

theorem mem_moved {attempt attempt' : AttemptSnapshot} (mem : attempt ∈ r.attempts)
    {task' : TaskSnapshot} {events : List HistoryEvent}
    (move : Move r.task attempt now task' attempt' events) {a' : AttemptSnapshot}
    (put : a' ∈ Table.put AttemptSnapshot.id attempt' r.attempts) :
    ∃ a ∈ r.attempts, SameAttempt a a' ∧ (a' = a ∨ a = attempt ∧ a' = attempt') := by
  obtain rfl | ⟨ha, -⟩ := Table.mem_put put
  · exact ⟨attempt, mem, move.same_attempt, .inr ⟨rfl, rfl⟩⟩
  · exact ⟨a', ha, .refl, .inl rfl⟩

theorem Guarded.moved (guarded : r.Guarded samples clock) (sound : r.Sound)
    (reached : clock ≤ now) {s : Store} {attempt attempt' : AttemptSnapshot}
    (mem : attempt ∈ r.attempts) (bounded : Lease.Bounded s.sessions clock attempt)
    {task' : TaskSnapshot} {events : List HistoryEvent}
    (move : MoveBy s.Known r.task attempt now task' attempt' events) (log : List HistoryEvent) :
    Guarded samples now ⟨task', Table.put AttemptSnapshot.id attempt' r.attempts, log⟩ := by
  have plain : Move r.task attempt now task' attempt' events := move.mono fun _ _ => trivial
  have sameTask := plain.same_task.1
  have later := guarded.later reached
  have granted_of : ∀ {a a' : AttemptSnapshot}, SameAttempt a a' → ∀ {x},
      Granted samples a' x → Granted samples a x := by
    rintro a a' same x ⟨hx, owner, left⟩
    exact ⟨hx, owner.trans same.owner, left⟩
  have uncancelled : task'.cancelRequestedAt.isSome = true ∨ r.task.cancelRequestedAt = none := by
    by_cases fresh : task'.cancelRequestedAt = none
    · exact .inr (plain.uncancelled fresh)
    · exact .inl (Option.isSome_iff_ne_none.mpr fresh)
  -- An attempt that has ended is not touched by the move, unless its cleanup is confirmed.
  have settled : attempt.state ≠ .active → attempt'.quiescence = .confirmed ∨ attempt' = attempt := by
    intro ended
    obtain same | ⟨rfl, -⟩ := plain.of_ended ended
    · exact .inr same
    · exact .inl rfl
  constructor
  case attributed =>
    intro x hx ofTask
    rw [Table.keys_put]
    exact guarded.attributed x hx (ofTask.trans sameTask.taskId)
  case dated =>
    intro a' put
    obtain ⟨a, ha, same, -⟩ := mem_moved mem plain put
    obtain ⟨c, claimed, early, after⟩ := later.dated a ha
    refine ⟨c, ?_, early, fun x granted => after x (granted_of same granted)⟩
    rw [AttemptSnapshot.claimedAt, same.event]
    exact claimed
  case held =>
    intro fresh a' put x granted
    obtain ⟨a, ha, same, what⟩ := mem_moved mem plain put
    have until' := guarded.held (plain.uncancelled fresh) a ha x (granted_of same granted)
    obtain rfl | ⟨rfl, rfl⟩ := what
    · exact until'
    · exact until'.trans (bounded.grows reached move fresh)
  case past =>
    intro ordinary a' put ended
    have ordinary' : r.task.input.admission = none := by rwa [← sameTask.input]
    have kept : ∀ a ∈ r.attempts, a.state ≠ .active → a.quiescence = .confirmed ∨
        a.lease.expiresAt ≤ now ∨ task'.cancelRequestedAt.isSome = true := by
      intro a ha isEnded
      obtain quiet | late | requested := later.past ordinary' a ha isEnded
      · exact .inl quiet
      · exact .inr (.inl late)
      · obtain still | fresh := uncancelled
        · exact .inr (.inr still)
        · simp [fresh] at requested
    obtain ⟨a, ha, -, rfl | ⟨rfl, rfl⟩⟩ := mem_moved mem plain put
    · exact kept a' ha ended
    · by_cases isActive : a.state = .active
      · exact plain.ended ordinary' bounded.authority isActive ended
      · obtain quiet | same := settled isActive
        · exact .inl quiet
        · exact same ▸ kept a ha isActive
  case apart =>
    intro ordinary a' puta b' putb newer loud x granted c claimed
    have ordinary' : r.task.input.admission = none := by rwa [← sameTask.input]
    obtain ⟨a, ha, sameA, what⟩ := mem_moved mem plain puta
    obtain ⟨b, hb, sameB, -⟩ := mem_moved mem plain putb
    have newer' : a.generation < b.generation := by
      simpa [AttemptSnapshot.generation, sameA.owner, sameB.owner] using newer
    have loud' : a.quiescence ≠ .confirmed := by
      obtain rfl | ⟨rfl, rfl⟩ := what
      · exact loud
      · have isEnded : a.state ≠ .active := fun isActive =>
          absurd (sound.latest ha hb isActive) (by omega)
        obtain quiet | same := settled isEnded
        · exact absurd quiet loud
        · rwa [same] at loud
    have claimed' : b.claimedAt = some c := by
      rwa [AttemptSnapshot.claimedAt, sameB.event] at claimed
    exact guarded.apart ordinary' a ha b hb newer' loud' x (granted_of sameA granted) c claimed'

theorem Guarded.withdrawn (guarded : r.Guarded samples clock) (reached : clock ≤ now)
    (log : List HistoryEvent) :
    Guarded samples now ⟨cancelledTask r.task now, r.attempts, log⟩ where
  attributed := guarded.attributed
  dated := (guarded.later reached).dated
  held fresh := by simp [cancelledTask, cancelRequestedTask] at fresh
  past _ _ _ _ := .inr (.inr rfl)
  apart := guarded.apart

end TaskRun

namespace Store
variable {s t : Store} {clock now : Nat} {answer : Answer} {samples : List (Nat × Authority)}

def Extends (s t : Store) : Prop :=
  ∀ id x, s.session id = some x → ∃ y, t.session id = some y ∧ x.expiresAt ≤ y.expiresAt

theorem Extends.bounded (more : s.Extends t) (reached : clock ≤ now) {a : AttemptSnapshot}
    (bounded : Lease.Bounded s.sessions clock a) : Lease.Bounded t.sessions now a := by
  obtain ⟨duration, authority, x, stored, session⟩ := bounded
  obtain ⟨y, found, longer⟩ := more _ x stored
  exact ⟨duration.trans (Nat.add_le_add_right reached _), authority, y, found,
    session.trans longer⟩

structure Leases (s : Store) (clock : Nat) : Prop where
  sessions : ∀ x ∈ s.sessions, x.expiresAt ≤ clock + sessionValidityMs
  bounded : ∀ r ∈ s.tasks, ∀ a ∈ r.attempts, Lease.Bounded s.sessions clock a

theorem Extends.refl : s.Extends s :=
  fun _ x found => ⟨x, found, le_rfl⟩

theorem extends_saveSession (leases : s.Leases clock) (reached : clock ≤ now)
    {session : WorkerSession} (known : s.Known session) :
    s.Extends (s.saveSession { session with expiresAt := now + sessionValidityMs }) := by
  intro id x found
  by_cases h : session.id = id
  · subst h
    obtain rfl := Option.some.inj (found.symm.trans known)
    refine ⟨_, Table.find_put_self found rfl, ?_⟩
    have := leases.sessions x (Table.find_mem found)
    exact this.trans (Nat.add_le_add_right reached _)
  · have other : WorkerSession.id { session with expiresAt := now + sessionValidityMs } ≠ id := h
    exact ⟨x, (Table.find_put_other other).trans found, le_rfl⟩

theorem Leases.later (leases : s.Leases clock) (reached : clock ≤ now) : s.Leases now where
  sessions x hx := (leases.sessions x hx).trans (Nat.add_le_add_right reached _)
  bounded r mem a ha := Extends.refl.bounded reached (leases.bounded r mem a ha)

/-- Leases stay bounded when one task is replaced by one with bounded leases. -/
theorem Leases.saveTask (leases : s.Leases now) {next : TaskRun}
    (bounded : ∀ a ∈ next.attempts, Lease.Bounded s.sessions now a) :
    (s.saveTask next).Leases now := by
  refine ⟨leases.sessions, fun q hq a ha => ?_⟩
  obtain rfl | ⟨hq, -⟩ := Table.mem_put hq
  · exact bounded a ha
  · exact leases.bounded q hq a ha

theorem newAttempt_bounded {task : TaskSnapshot} {ids : AttemptIds} {session : WorkerSession}
    (known : s.Known session) (consumerId : Nat) :
    Lease.Bounded s.sessions now (newAttempt task ids session consumerId now) where
  duration := (min_le_left _ _).trans (min_le_left _ _)
  authority := (min_le_left _ _).trans (min_le_right _ _)
  session := ⟨session, known, min_le_right _ _⟩

theorem Step.leases (step : s.Step now t answer) (reached : clock ≤ now)
    (leases : s.Leases clock) : t.Leases now := by
  have later := leases.later reached
  cases step with
  | rested => exact later
  | opened session unused expiry =>
    refine ⟨fun x hx => ?_, fun r mem a ha => ?_⟩
    · obtain hx | hx := List.mem_append.mp hx
      · exact later.sessions x hx
      · rw [List.mem_singleton.mp hx]
        exact expiry.le
    · have more : s.Extends { s with sessions := s.sessions ++ [session] } :=
        fun id x found => ⟨x, Table.find_append_found found, le_rfl⟩
      exact more.bounded le_rfl (later.bounded r mem a ha)
  | extended session known =>
    refine ⟨fun x hx => ?_, fun r mem a ha => ?_⟩
    · obtain rfl | ⟨hx, -⟩ := Table.mem_put hx
      · exact le_rfl
      · exact later.sessions x hx
    · exact (extends_saveSession leases reached known).bounded reached (leases.bounded r mem a ha)
  | submitted r unused reachable unclaimed =>
    refine ⟨later.sessions, fun q hq a ha => ?_⟩
    obtain hq | hq := List.mem_append.mp hq
    · exact later.bounded q hq a ha
    · rw [List.mem_singleton.mp hq, unclaimed] at ha
      simp at ha
  | replied command candidate ids session a acquired kept => exact ⟨later.sessions, later.bounded⟩
  | claimed command r ids session known registered mem fresh claimable unused =>
    have saved : (s.saveCursor ⟨command, some ⟨r.id, ids.attemptId⟩⟩).Leases now :=
      ⟨later.sessions, later.bounded⟩
    refine saved.saveTask fun a ha => ?_
    obtain ha | ha := List.mem_append.mp ha
    · exact later.bounded r mem a ha
    · rw [List.mem_singleton.mp ha]
      exact newAttempt_bounded known _
  | withdrawn r mem queued unowned log =>
    exact later.saveTask (later.bounded r mem)
  | moved r attempt attempt' mem attemptMem task' events move sample sampled =>
    refine later.saveTask fun a ha => ?_
    obtain rfl | ⟨ha, -⟩ := Table.mem_put ha
    · exact (leases.bounded r mem attempt attemptMem).moved reached move
    · exact later.bounded r mem a ha

theorem loadAttempt_mem {reference : AttemptRef} {task : TaskSnapshot} {attempt : AttemptSnapshot}
    (loaded : s.loadAttempt reference = some (task, attempt)) :
    ∃ r ∈ s.tasks, task = r.task ∧ attempt ∈ r.attempts := by
  simp only [loadAttempt, Option.bind_eq_bind, Option.bind_eq_some_iff, Option.pure_def,
    Option.some.injEq, Prod.mk.injEq] at loaded
  obtain ⟨r, found, a, named, rfl, rfl⟩ := loaded
  exact ⟨r, task_mem found, rfl, Table.find_mem named⟩

/-- A replayed assignment shows the authority of the attempt that the cursor names. -/
theorem replay_samples {command : AcquireCommand} {candidate : Option TaskRun} {ids : AttemptIds}
    {session : WorkerSession} {cursor : ConsumerCursor}
    {previous : Option (AttemptRef × TaskSnapshot × AttemptSnapshot)}
    (loaded : previousAssignment (s.context command candidate ids) cursor session command =
      .ok previous) {sequence : Nat} {x : Authority}
    (sample : (replayReply previous sequence now).sample = some x) :
    ∃ r ∈ s.tasks, ∃ a ∈ r.attempts, Samples r.task a now x := by
  obtain ⟨-, rfl⟩ | ⟨reference, task, attempt, -, rfl, records, -⟩ :=
    previousAssignment_eq_ok loaded
  · simp [replayReply, AcquireReply.sample] at sample
  · have stored : s.previous command.consumer = some (task, attempt) := records
    simp only [Store.previous, Option.bind_eq_bind, Option.bind_eq_some_iff] at stored
    obtain ⟨_, -, _, -, stored⟩ := stored
    obtain ⟨r, mem, rfl, ha⟩ := loadAttempt_mem stored
    refine ⟨r, mem, attempt, ha, ?_⟩
    by_cases isLive : live r.task attempt now
    · simp only [replayReply, if_pos isLive, assigned, AcquireReply.sample, Option.some.injEq]
        at sample
      exact sample ▸ ⟨rfl, rfl⟩
    · simp [replayReply, if_neg isLive, AcquireReply.sample] at sample

theorem Step.sampled (step : s.Step now t answer) {x : Authority}
    (sample : answer.sample = some x) : ∃ r ∈ t.tasks, ∃ a ∈ r.attempts, Samples r.task a now x := by
  cases step with
  | rested | opened | extended | submitted | withdrawn => simp [Answer.none] at sample
  | replied command candidate ids session a acquired kept =>
    cases acquired with
    | replayed cursor previous saved same loaded => exact replay_samples loaded sample
    | emptied => simp [AcquireReply.sample] at sample
    | claimed => simp [claimTransition] at kept
  | claimed command r ids session known registered mem fresh claimable unused =>
    obtain rfl := Option.some.inj sample
    exact ⟨claimedRun r ids session command.consumerId now, Table.mem_put_self mem rfl,
      newAttempt r.task ids session command.consumerId now,
      List.mem_append_right _ (List.mem_singleton.mpr rfl), rfl, rfl⟩
  | moved r attempt attempt' mem attemptMem task' events move sample' sampled =>
    have plain : Move r.task attempt now task' attempt' events := move.mono fun _ _ => trivial
    have sameId : attempt.id = attempt'.id := by
      rw [AttemptSnapshot.id, AttemptSnapshot.id, plain.same_attempt.owner]
    refine ⟨_, Table.mem_put_self mem plain.same_task.1.taskId.symm, attempt',
      Table.mem_put_self attemptMem sameId, sampled x sample⟩

theorem Step.taskIds (step : s.Step now t answer) {id : String} (named : id ∈ s.tasks.map TaskRun.id) :
    id ∈ t.tasks.map TaskRun.id := by
  cases step with
  | rested | opened | extended | replied => exact named
  | submitted =>
    rw [List.map_append]
    exact List.mem_append_left _ named
  | claimed | withdrawn | moved =>
    rw [saveTask, Table.keys_put]
    exact named

/-- Every task keeps what its samples say, whatever operation the store accepts. -/
theorem Step.guarded (step : s.Step now t answer) (healthy : s.Healthy) (reached : clock ≤ now)
    (leases : s.Leases clock) (guarded : ∀ r ∈ s.tasks, r.Guarded samples clock)
    (attributed : ∀ x ∈ samples, x.2.owner.taskId ∈ s.tasks.map TaskRun.id) :
    ∀ r ∈ t.tasks, r.Guarded samples now := by
  have later : ∀ r ∈ s.tasks, r.Guarded samples now :=
    fun r mem => (guarded r mem).later reached
  have replaced : ∀ next : TaskRun, next.Guarded samples now →
      ∀ q ∈ (s.saveTask next).tasks, q.Guarded samples now := by
    intro next guardedNext q hq
    obtain rfl | ⟨hq, -⟩ := Table.mem_put hq
    · exact guardedNext
    · exact later q hq
  cases step with
  | rested => exact later
  | opened => exact later
  | extended => exact later
  | replied => exact later
  | submitted r unused reachable unclaimed =>
    intro q hq
    obtain hq | hq := List.mem_append.mp hq
    · exact later q hq
    · rw [List.mem_singleton.mp hq]
      have foreign : ∀ x ∈ samples, x.2.owner.taskId ≠ r.id := by
        intro x hx same
        obtain ⟨q, hq, named⟩ := List.mem_map.mp (attributed x hx)
        exact Table.find_eq_none.mp unused q hq (named.trans same)
      exact ⟨fun x hx same => absurd same (foreign x hx), by simp [unclaimed], by simp [unclaimed],
        by simp [unclaimed], by simp [unclaimed]⟩
  | claimed command r ids session known registered mem fresh claimable unused =>
    exact replaced _ ((guarded r mem).claimed (healthy.reachable r mem).sound reached claimable
      unused session)
  | withdrawn r mem queued unowned log => exact replaced _ ((guarded r mem).withdrawn reached log)
  | moved r attempt attempt' mem attemptMem task' events move sample sampled =>
    exact replaced _ ((guarded r mem).moved (healthy.reachable r mem).sound reached attemptMem
      (leases.bounded r mem attempt attemptMem) move _)

theorem Healthy.guarded_sample (healthy : s.Healthy)
    (guarded : ∀ r ∈ s.tasks, r.Guarded samples now) {r : TaskRun} (mem : r ∈ s.tasks)
    {a : AttemptSnapshot} (ha : a ∈ r.attempts) {x : Authority} (sampled : Samples r.task a now x) :
    ∀ q ∈ s.tasks, q.Guarded (samples ++ [(now, x)]) now := by
  intro q hq
  have sound := (healthy.reachable r mem).sound
  have named : x.owner.taskId = r.id := by
    rw [sampled.1]
    exact (sound.belongs a ha).2.1
  by_cases h : q.id = r.id
  · obtain rfl := Table.eq_of_key healthy.unique hq mem h
    exact (guarded q hq).sampled sound le_rfl ha sampled
  · exact (guarded q hq).elsewhere (healthy.reachable q hq).sound
      fun same => h (same.symm.trans named)

end Store

namespace Trace
variable {s : Trace} {calls : List StoreCall}

structure Guarded (s : Trace) : Prop where
  leases : s.store.Leases s.clock
  tasks : ∀ r ∈ s.store.tasks, r.Guarded s.samples s.clock
  attributed : ∀ x ∈ s.samples, x.2.owner.taskId ∈ s.store.tasks.map TaskRun.id

theorem Guarded.advance (guarded : s.Guarded) (healthy : s.store.Healthy) {now : Nat}
    (reached : s.clock ≤ now) {store : Store} {answer : Answer} (healthy' : store.Healthy)
    (step : s.store.Step now store answer) : (s.advance now store answer).Guarded := by
  have leases := step.leases reached guarded.leases
  have tasks := step.guarded healthy reached guarded.leases guarded.tasks guarded.attributed
  have attributed : ∀ x ∈ s.samples, x.2.owner.taskId ∈ store.tasks.map TaskRun.id :=
    fun x hx => step.taskIds (guarded.attributed x hx)
  cases sample : answer.sample with
  | none =>
    have same : (s.advance now store answer).samples = s.samples := by simp [Trace.advance, sample]
    exact ⟨leases, by rw [same]; exact tasks, by rw [same]; exact attributed⟩
  | some x =>
    have more : (s.advance now store answer).samples = s.samples ++ [(now, x)] := by
      simp [Trace.advance, sample]
    obtain ⟨r, mem, a, ha, sampled⟩ := step.sampled sample
    refine ⟨leases, ?_, ?_⟩
    · rw [more]
      exact healthy'.guarded_sample tasks mem ha sampled
    · rw [more]
      intro y hy
      obtain hy | hy := List.mem_append.mp hy
      · exact attributed y hy
      · rw [List.mem_singleton.mp hy]
        have owner : x.owner.taskId = r.id :=
          (congrArg LeaseOwner.taskId sampled.1).trans ((healthy'.reachable r mem).sound.belongs a ha).2.1
        exact owner ▸ List.mem_map_of_mem mem

theorem run_guarded (inOrder : InOrder calls) (ran : run calls = .ok s) :
    s.store.Healthy ∧ s.Guarded := by
  refine ordered_invariant ?_ ?_ inOrder ran
  · exact ⟨⟨by simp [empty], by simp [empty]⟩, by simp [empty], by simp [empty]⟩
  · intro s now store answer healthy healthy' later step guarded
    exact guarded.advance healthy later healthy' step

/-- The reply carries an authority that the store sampled while the request was under way. All
instants are of one clock, of which the store reads whole milliseconds. -/
def Sent (s : Trace) (reply : LeaseReply) : Prop :=
  ∃ instant, (instant / nanosPerMs, reply.authority) ∈ s.samples ∧ reply.started ≤ instant ∧
    instant ≤ reply.received

/-- A worker's tracker of one attempt: any replies, in any order, late, lost or repeated. -/
def tracker (top : Nat) (a : AttemptSnapshot) (ops : List TrackerOp) : LeaseTracker :=
  (LeaseTracker.new a.lease.owner).run top ops

/-- The permission of a tracker ends before the lease that one of its samples granted. -/
theorem dispatch_before_lease_end {top : Nat} {a : AttemptSnapshot} {ops : List TrackerOp}
    (sent : ∀ reply, .apply reply ∈ ops → s.Sent reply) {t : Nat} {u : Unit}
    (passes : ((tracker top a ops).checkDispatch t).2 = .ok u) :
    ∃ x, Granted s.samples a x ∧ t < (x.1 + x.2.remainingMs) * nanosPerMs ∧
      ∃ reply, .apply reply ∈ ops ∧ x.1 * nanosPerMs ≤ reply.received := by
  have backed : LeaseTracker.Backed (fun reply => .apply reply ∈ ops) a.lease.owner
      (tracker top a ops) := (LeaseTracker.new_backed _).run fun _ mem => mem
  obtain ⟨reply, given, owner, left, early⟩ := backed.dispatches passes
  obtain ⟨instant, sampled, started, received⟩ := sent reply given
  refine ⟨_, ⟨sampled, owner, left⟩, ?_, reply, given, ?_⟩
  · have whole := Nat.lt_div_mul_add (a := instant) (b := nanosPerMs) (by decide)
    simp only [leaseSafetyMarginMs, nanosPerMs] at early whole ⊢
    omega
  · exact (Nat.div_mul_le_self _ _).trans received

/-- While the tracker of an attempt passes its dispatch check and the attempt's cleanup is not
confirmed, acquisitions have not yet created any later attempt of the task, and no tracker of a
later attempt passes. -/
theorem dispatch_excludes_later_attempts (inOrder : InOrder calls) (ran : run calls = .ok s)
    {r : TaskRun} (mem : r ∈ s.store.tasks) (ordinary : r.task.input.admission = none)
    {a : AttemptSnapshot} (ha : a ∈ r.attempts) (loud : a.quiescence ≠ .confirmed)
    {top t : Nat} {ops : List TrackerOp} (sent : ∀ reply, .apply reply ∈ ops → s.Sent reply)
    (passes : ((tracker top a ops).checkDispatch t).2 = .ok ()) :
    ∀ b ∈ r.attempts, a.generation < b.generation →
      (∃ c, b.claimedAt = some c ∧ t < c * nanosPerMs) ∧
      ∀ top' ops', (∀ reply, .apply reply ∈ ops' → s.Sent reply ∧ reply.received ≤ t) →
        ((tracker top' b ops').checkDispatch t).2 ≠ .ok () := by
  intro b hb newer
  obtain ⟨-, guarded⟩ := run_guarded inOrder ran
  have guards := guarded.tasks r mem
  obtain ⟨x, granted, before, -⟩ := dispatch_before_lease_end sent passes
  obtain ⟨c, claimed, -, after⟩ := guards.dated b hb
  have apart := guards.apart ordinary a ha b hb newer loud x granted c claimed
  have early : t < c * nanosPerMs := before.trans_le (Nat.mul_le_mul_right _ apart)
  refine ⟨⟨c, claimed, early⟩, fun top' ops' sent' passes' => ?_⟩
  obtain ⟨y, grantedB, -, reply, given, received⟩ :=
    dispatch_before_lease_end (fun reply given => (sent' reply given).1) passes'
  have claimedFirst : c * nanosPerMs ≤ y.1 * nanosPerMs :=
    Nat.mul_le_mul_right _ (after y grantedB)
  have := (sent' reply given).2
  omega

def sampleLoss : List StoreCall :=
  [⟨.openSession "session-1" sampleScope "python" 4, 1000⟩,
    ⟨.submit ⟨"key-1", sampleInput none, none⟩ sampleDescriptor "task-1" "run-1" .none, 1000⟩,
    ⟨.acquire ⟨sampleScope, "python", "session-1", 0, 1⟩ (some "task-1") (sampleIds "1"), 2000⟩,
    ⟨.onAttempt "task-1" "attempt-1" (.renew none ⟨sampleOwner "1" 1, 1, .dispatch⟩), 3000⟩,
    ⟨.onAttempt "task-1" "attempt-1" .expire, 63000⟩,
    ⟨.acquire ⟨sampleScope, "python", "session-1", 0, 2⟩ (some "task-1") (sampleIds "2"), 70000⟩]

def sampleReplies (s : Trace) : List TrackerOp :=
  (s.samples.filter fun x => x.1 = 3000).map fun x => .apply ⟨x.2, 2950000000, 3050000000⟩

theorem sampleReplies_sent (s : Trace) {reply : LeaseReply}
    (mem : .apply reply ∈ sampleReplies s) : s.Sent reply := by
  obtain ⟨x, hx, same⟩ := List.mem_map.mp mem
  obtain ⟨hx, time⟩ := List.mem_filter.mp hx
  obtain rfl := TrackerOp.apply.inj same
  refine ⟨3000000000, ?_, by simp, by simp⟩
  have sampled : x.1 = 3000 := by simpa using time
  have whole : 3000000000 / nanosPerMs = x.1 := by rw [sampled, nanosPerMs]
  rwa [whole]

theorem first_attempt_dispatches_alone : ∃ s, run sampleLoss = .ok s ∧ ∃ r ∈ s.store.tasks,
    ∃ a ∈ r.attempts, ∃ b ∈ r.attempts,
      ((tracker (2 ^ 64) a (sampleReplies s)).checkDispatch 10000000000).2 = .ok () ∧
      ∃ c, b.claimedAt = some c ∧ 10000000000 < c * nanosPerMs := by
  have ends : ((run sampleLoss).map fun s => s.store.tasks.map fun r =>
      (r.task.input.admission.isNone, r.attempts.map fun a => (a.generation, decide
        (a.quiescence = .confirmed), ((tracker (2 ^ 64) a (sampleReplies s)).checkDispatch
          10000000000).2.isOk))) = .ok [(true, [(1, false, true), (2, false, false)])] := by
    decide +kernel
  obtain ⟨s, ran, told⟩ := map_eq_ok.mp ends
  obtain ⟨r, _, stored, first, -⟩ := List.map_eq_cons_iff.mp told
  simp only [Prod.mk.injEq, Option.isNone_iff_eq_none] at first
  obtain ⟨a, _, attempts, firstAttempt, rest⟩ := List.map_eq_cons_iff.mp first.2
  obtain ⟨b, _, rfl, second, -⟩ := List.map_eq_cons_iff.mp rest
  simp only [Prod.mk.injEq, decide_eq_false_iff_not] at firstAttempt second
  obtain ⟨u, passes⟩ := exists_of_isOk firstAttempt.2.2
  have mem : r ∈ s.store.tasks := by simp [stored]
  have ha : a ∈ r.attempts := by simp [attempts]
  have hb : b ∈ r.attempts := by simp [attempts]
  have newer : a.generation < b.generation := by omega
  have excluded := dispatch_excludes_later_attempts (by decide) ran mem first.1 ha firstAttempt.2.1
    (fun _ => sampleReplies_sent s) passes b hb newer
  exact ⟨s, ran, r, mem, a, ha, b, hb, passes, excluded.1⟩

end Trace
end Ledgence
