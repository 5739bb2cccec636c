import Ledgence.Ledger.Watch

/-! Runs on a clock, and what a tick that changes a request tells about the row's wake-up times. -/
open Kit Kit.Checked

namespace Ledgence

def LedgerCommand.latest : LedgerCommand → Nat
  | .putResource _ _ now | .installNew _ _ _ _ _ now | .installExisting _ _ _ _ now
  | .applyWait _ _ _ _ now | .drain _ now | .finish _ now | .inspect _ now | .release _ _ _ now
  | .register _ now | .validateCandidate _ _ now | .deferLegacyClaim _ now
  | .bindPreparation _ _ _ now | .releaseTask _ _ _ now => now
  | .tick _ x => x.now
  | .taskTick _ x => x.now
  | .start _ x => x.latest
  | .startProvider _ x claim _ => max x.latest claim.latest
  | .reportProvider _ acceptedAt sampled => max acceptedAt sampled
  | .applyTransition w x => max w.latest (max x.sampled x.registeredAt)
  | .startTask _ x clock => max x.latest (max clock.sampled clock.registeredAt)
  | .closeTask _ x clock => max x.sampled (max clock.sampled clock.registeredAt)

def LedgerCommand.putBack (l : Ledger) : LedgerCommand → List TaskAdmissionOccurrence
  | .deferLegacyClaim task _ =>
    (l.taskRequests.filter fun a => a.snapshot.state = .waiting ∧
      a.occurrence = ⟨task.scope, task.taskId, task.attemptCount + 1⟩).map (·.occurrence)
  | _ => []

/-- A resource's tables, the last clock sample so far, and the waits that were put back. -/
structure Watch where
  ledger : Ledger
  clock : Nat
  putBack : List TaskAdmissionOccurrence
  deriving DecidableEq

namespace Watch

def init : Watch := ⟨Ledger.init, 0, []⟩

def step (w : Watch) (c : LedgerCommand) : Outcome Watch := do
  let l ← w.ledger.step c
  return ⟨l, max w.clock c.latest, w.putBack ++ c.putBack w.ledger⟩

def run (w : Watch) (commands : List LedgerCommand) : Outcome Watch :=
  commands.foldlM step w

def Reachable (w : Watch) : Prop :=
  ∃ commands, init.run commands = .ok w

end Watch

namespace Ledger
variable {l l' : Ledger} {r r' : Resource} {clock now t : Nat}
variable {putBack : List TaskAdmissionOccurrence}

theorem Watched.deferLegacyClaim (watched : Watched clock putBack l) {task : TaskSnapshot}
    {sampled : Nat} (come : sampled ≤ clock)
    (recorded : (LedgerCommand.deferLegacyClaim task sampled).putBack l ⊆ putBack) :
    Ensures Fault.Never (l.deferLegacyClaim task sampled) (Watched clock putBack) := by
  simp only [Ledger.deferLegacyClaim, nextOccurrence, ensures_bind, ensures_refuse, ensures_okOr,
    ensures_pure]
  refine ⟨fun _ => not_never _, fun _ => ⟨fun _ => not_never _, fun requirement _ => ?_⟩⟩
  refine (watched.lockNamed _).mono fun r attended => ?_
  simp only [Ledger.onTask, ensures_bind, ensures_pure]
  refine (returns_taskRequest l _).mono fun a found => ?_
  obtain ⟨mem, named⟩ := found
  have timely : a.Timely clock r := ⟨(attended.taskRequests a mem).updated, attended.highWater⟩
  refine (TaskAdmissionRequest.deferLegacyClaim_wakes timely come).mono fun p step => ?_
  obtain ⟨here, woken | ⟨same, kept⟩⟩ := step
  · refine (attended.timed.saveTaskRequest here).mono fun l' timed => ?_
    exact (timed.attended woken).saveResource
  · rw [same]
    have watched' : p.1.Watched clock putBack r := by
      obtain unchanged | ⟨-, back⟩ := kept
      · rw [unchanged]
        exact attended.taskRequests a mem
      · refine (attended.taskRequests a mem).parked back (recorded ?_)
        exact List.mem_map.mpr ⟨a, List.mem_filter.mpr ⟨mem, by simp [back.waiting, named]⟩, rfl⟩
    exact (attended.replaceTask watched').mono fun l' saved => saved.saveResource

/-- Every transaction leaves the wake-up times right, from its last clock sample on. -/
theorem Watched.step (watched : Watched clock putBack l) {command : LedgerCommand}
    (come : command.latest ≤ clock) (recorded : command.putBack l ⊆ putBack) :
    Ensures Fault.Never (l.step command) (Watched clock putBack) := by
  cases command with
  | putResource c short now => exact watched.putResource come
  | tick candidate x => exact watched.tick come
  | taskTick o x => exact watched.taskTick come
  | installNew => exact watched.installNew come
  | installExisting => exact watched.installExisting come
  | applyWait =>
    exact watched.onRequest fun a r timely => AdmissionRequest.applyWait_wakes timely come
  | drain os now => exact watched.drain os come
  | start =>
    refine watched.onRequest fun a r timely => ?_
    simp only [ensures_bind, ensures_pure]
    exact AdmissionRequest.startAdmission_wakes timely come
  | finish =>
    refine watched.onRequest fun a r timely => ?_
    simp only [ensures_bind, ensures_pure]
    exact AdmissionRequest.finishAdmission_wakes timely come
  | startProvider =>
    obtain ⟨latest, claimed⟩ := max_le_iff.mp come
    refine watched.onRequest fun a r timely => ?_
    simp only [ensures_bind, ensures_pure]
    exact AdmissionRequest.startProviderAdmission_wakes timely latest claimed
  | reportProvider =>
    obtain ⟨accepted, sampled⟩ := max_le_iff.mp come
    refine watched.onRequest fun a r timely => ?_
    simp only [ensures_bind, ensures_pure]
    exact AdmissionRequest.reportProviderAdmission_wakes timely sampled accepted
  | inspect =>
    refine watched.onRequest fun a r timely => ?_
    simp only [ensures_bind, ensures_pure]
    exact (AdmissionRequest.invalidateOffer_wakes timely come).mono fun p step => step.1
  | release =>
    exact watched.onRequest fun a r timely => AdmissionRequest.releaseAdmission_wakes timely come
  | register => exact watched.register come
  | validateCandidate => exact watched.validateCandidate come
  | deferLegacyClaim => exact watched.deferLegacyClaim come recorded
  | bindPreparation => exact watched.bindPreparation come
  | applyTransition =>
    simp only [LedgerCommand.latest, max_le_iff] at come
    exact watched.applyTransition come.1 come.2.1 come.2.2
  | startTask =>
    simp only [LedgerCommand.latest, max_le_iff] at come
    exact watched.startTask come.1 come.2.1 come.2.2
  | closeTask =>
    simp only [LedgerCommand.latest, max_le_iff] at come
    exact watched.closeTask come.1 come.2.1 come.2.2
  | releaseTask => exact watched.releaseTask come

end Ledger

structure Watch.Kept (w : Watch) : Prop where
  sound : w.ledger.Sound
  watched : w.ledger.Watched w.clock w.putBack

theorem Watch.Reachable.kept {w : Watch} (reachable : w.Reachable) : w.Kept := by
  obtain ⟨commands, runs⟩ := reachable
  have kept : Ensures Fault.Never (init.run commands) Kept := by
    refine ensures_foldlM (fun v command _ here => ?_) ⟨Ledger.sound_init, Ledger.watched_init⟩
    simp only [step, ensures_bind, ensures_pure]
    have later : v.ledger.Watched (max v.clock command.latest)
        (v.putBack ++ command.putBack v.ledger) :=
      here.watched.mono (le_max_left _ _) (List.subset_append_left _ _)
    refine ensures_of_ok (fun _ _ => not_never _) fun l stepped => ⟨?_, ?_⟩
    · exact (here.sound.step command).ok stepped
    · exact (later.step (le_max_right _ _) (List.subset_append_right _ _)).ok stepped
  exact kept.ok runs

theorem AdmissionSnapshot.waiting_of_validate {s : AdmissionSnapshot} {u : Unit}
    (valid : s.validate = .ok u) (waiting : s.state = .waiting) :
    s.offer = none ∧ s.provider = none := by
  simp only [validate, bind_eq_ok, refuse_eq_ok, exists_unit, not_not] at valid
  obtain ⟨-, -, -, -, -, -, -, -, -, consistent, evidence⟩ := valid
  rw [Consistent, waiting] at consistent
  refine ⟨consistent.1, ?_⟩
  cases recorded : s.provider with
  | none => rfl
  | some record => simp [recorded, ifSome, ProviderConsistent, waiting] at evidence

namespace AdmissionRequest
variable {a : AdmissionRequest} {r : Resource}

/-- No recorded time of the wait has come. What ends it is its run, which is drained, or the open
wait's own deadline, which is the workflow's timer to keep. -/
def EndsElsewhere (a : AdmissionRequest) (r : Resource) (x : AdmissionTick) : Prop :=
  a.snapshot.state = .waiting ∧ ¬ a.Due r x.now ∧
    (x.runClosed = true ∨ ∃ d, x.episodeDeadline = some d ∧ d ≤ x.now)

theorem tick_waiting {x : AdmissionTick} (valid : a.snapshot.validate = .ok ())
    (waiting : a.snapshot.state = .waiting) (running : x.runClosed = false)
    (lasts : ∀ d, x.episodeDeadline = some d → x.now < d)
    (closed : x.dispatch = true → ∀ k, r.capacity = .ok k → k = 0) :
    Ensures Fault.Never (a.tick r x) fun p => p.1 = a := by
  obtain ⟨unoffered, noEvidence⟩ := AdmissionSnapshot.waiting_of_validate valid waiting
  simp only [tick, running, Bool.false_eq_true, if_false, invalidateOffer, unoffered, ok_bind,
    waiting, tickWaiting]
  simp only [ensures_bind, ensures_okOr, ensures_refuse]
  refine ⟨fun _ => not_never _, fun run _ => ⟨fun _ => not_never _, fun parking _ => ?_⟩⟩
  refine ⟨fun _ => not_never _, fun _ => ⟨fun _ => not_never _, fun deadline open' => ?_⟩⟩
  have unresolved : a.resolved deadline x.now = none := by
    simp [resolved, noEvidence, waiting, Nat.not_le.mpr (lasts deadline open')]
  rw [unresolved]
  simp only [ensures_ite, ensures_bind, returns_check, ensures_pure]
  refine ⟨fun dispatch capacity current => ⟨fun served => ?_, fun _ => trivial⟩, fun _ => trivial⟩
  have none' := closed dispatch capacity current
  omega

end AdmissionRequest

namespace TaskAdmissionRequest
variable {a : TaskAdmissionRequest} {r : Resource}

def Queued (a : TaskAdmissionRequest) (task : TaskSnapshot) : Prop :=
  task.state = .queued ∧ task.cancelRequestedAt = none ∧
    task.attemptCount + 1 = a.occurrence.generation

/-- A wait whose task has left the queue, which the transition that moved the task closes, or a wait
that a legacy claim put back, whose delay matters only once there is capacity. -/
def EndsElsewhere (putBack : List TaskAdmissionOccurrence) (a : TaskAdmissionRequest) (r : Resource)
    (x : TickContext) : Prop :=
  a.snapshot.state = .waiting ∧
    (a.availableAt = 0 ∧ (∃ task, x.task = some task ∧ ¬ a.Queued task) ∨
      0 < a.availableAt ∧ a.occurrence ∈ putBack ∧ (x.dispatch = true → ¬ r.Open x.now))

theorem Due.delayed {t : Nat} (due : a.Due r t) (waiting : a.snapshot.state = .waiting) :
    0 < a.availableAt ∧ a.availableAt ≤ t := by
  obtain ⟨d, mem, come⟩ := due
  by_cases delayed : 0 < a.availableAt
  · obtain rfl : d = a.availableAt := by simpa [dueTimes, waiting, delayed] using mem
    exact ⟨delayed, come⟩
  · simp [dueTimes, waiting, delayed] at mem

theorem tick_waiting {x : TickContext} (waiting : a.snapshot.state = .waiting)
    (ready : a.availableAt = 0) (queued : ∀ task, x.task = some task → a.Queued task)
    (closed : x.dispatch = true → ¬ r.Open x.now) :
    Ensures Fault.Never (a.tick r x) fun p => p.1 = a := by
  simp only [tick]
  rw [ensures_bind]
  refine ensures_of_ok (fun _ _ => not_never _) fun r' refilled => ?_
  simp only [waiting, tickWaiting]
  rw [ensures_bind, ensures_okOr]
  refine ⟨fun _ => not_never _, fun task found => ?_⟩
  obtain ⟨inQueue, wanted, current⟩ := queued task found
  simp only [inQueue, wanted, current, ready, ne_eq, not_true_eq_false, or_self, if_false,
    false_and, true_and]
  simp only [ensures_ite, ensures_bind, returns_check, ensures_okOr, ensures_pure]
  refine ⟨fun serves capacity current => ⟨fun served => ?_, fun _ => trivial⟩, fun _ => trivial⟩
  exact absurd ⟨r', capacity, refilled, current, served.1⟩ (closed serves.1)

end TaskAdmissionRequest

namespace Ledger
variable {l l' : Ledger} {r : Resource} {clock : Nat} {putBack : List TaskAdmissionOccurrence}

def Changed (l l' : Ledger) : Prop :=
  l'.requests ≠ l.requests ∨ l'.taskRequests ≠ l.taskRequests

def Idle (l l' : Ledger) : Prop :=
  l'.requests = l.requests ∧ l'.taskRequests = l.taskRequests

theorem Idle.not_changed (idle : Idle l l') : ¬ Changed l l' := by
  rintro (changed | changed)
  · exact changed idle.1
  · exact changed idle.2

theorem settle_idle {now : Nat} : Ensures Fault.Never (l.settle r now) (Idle l) := by
  simp only [Ledger.settle, Ledger.saveResource, ensures_bind, ensures_pure]
  refine ensures_of_ok (fun _ _ => not_never _) fun _ _ => ?_
  exact ensures_of_ok (fun _ _ => not_never _) fun _ _ => ⟨rfl, rfl⟩

theorem lock_stored (stored : l.resource = some r) :
    Ensures Fault.Never l.lock fun r' => r' = r := by
  simp only [Ledger.lock, stored, okOr, ok_bind]
  exact returns_row

/-- A tick on a wait that neither ends nor can be offered changes no request. -/
theorem tick_idle {a : AdmissionRequest} {x : AdmissionTick} (sound : Sound l)
    (attended : Attended clock putBack l r) (stored : l.resource = some r) (mem : a ∈ l.requests)
    (waiting : a.snapshot.state = .waiting) (come : clock ≤ x.now) (running : x.runClosed = false)
    (lasts : ∀ d, x.episodeDeadline = some d → x.now < d)
    (closed : x.dispatch = true → ¬ r.Open x.now) :
    Ensures Fault.Never (l.tick (some a.occurrence) x) (Idle l) := by
  simp only [Ledger.tick]
  rw [ensures_bind]
  refine (lock_stored stored).mono fun r₀ same => ?_
  rw [same, if_neg (Nat.not_lt.mpr (attended.highWater.trans come)), ensures_bind]
  refine ensures_of_ok (fun _ _ => not_never _) fun r₁ refilled => ?_
  rw [ensures_bind]
  refine (returns_request l _).mono fun b found => ?_
  obtain ⟨mem', named, valid⟩ := found
  obtain rfl : b = a := Table.eq_of_key sound.unique mem' mem named
  have updated : ¬ x.now < b.snapshot.updatedAt :=
    Nat.not_lt.mpr (((attended.requests b mem).updated).trans come)
  rw [if_neg updated, ensures_bind]
  have unable : x.dispatch = true → ∀ k, r₁.capacity = .ok k → k = 0 := by
    intro dispatch k capacity
    by_contra positive
    exact closed dispatch ⟨r₁, k, refilled, capacity, Nat.pos_of_ne_zero positive⟩
  refine (AdmissionRequest.tick_waiting valid waiting running lasts unable).mono fun p kept => ?_
  simp only [ensures_bind, Ledger.saveRequest, returns_wellFormed, ensures_pure]
  rw [kept, Table.put_self sound.unique mem]
  exact fun _ _ => settle_idle

theorem taskTick_idle {a : TaskAdmissionRequest} {x : TaskAdmissionRequest.TickContext}
    (sound : Sound l) (attended : Attended clock putBack l r) (stored : l.resource = some r)
    (mem : a ∈ l.taskRequests) (waiting : a.snapshot.state = .waiting) (come : clock ≤ x.now)
    (ready : a.availableAt = 0) (queued : ∀ task, x.task = some task → a.Queued task)
    (closed : x.dispatch = true → ¬ r.Open x.now) :
    Ensures Fault.Never (l.taskTick a.occurrence x) (Idle l) := by
  simp only [Ledger.taskTick]
  rw [ensures_bind]
  refine (lock_stored stored).mono fun r₀ same => ?_
  rw [same, ensures_bind]
  refine (returns_taskRequest l _).mono fun b found => ?_
  obtain rfl : b = a := Table.eq_of_key sound.uniqueTasks found.1 mem found.2
  have past : ¬ (x.now < r.highWater ∨ x.now < b.snapshot.updatedAt) := by
    have updated := ((attended.taskRequests b mem).updated).trans come
    have highWater := attended.highWater.trans come
    omega
  rw [if_neg past, ensures_bind]
  refine (TaskAdmissionRequest.tick_waiting waiting ready queued closed).mono fun p kept => ?_
  simp only [ensures_bind, Ledger.saveTaskRequest, returns_wellFormed, ensures_pure]
  rw [kept, Table.put_self sound.uniqueTasks mem]
  exact fun _ _ => settle_idle

end Ledger

namespace Watch
variable {w : Watch} {r : Resource} {l' : Ledger}

/-- From the last clock sample on, a tick that would change a request was announced: the row wants the
scheduler by then, dispatching or not as the tick does. Left to others is only the end of a wait that
its request does not record. -/
theorem no_lost_wake (reachable : w.Reachable) (stored : w.ledger.resource = some r) :
    (∀ a ∈ w.ledger.requests, ∀ x : AdmissionTick, w.clock ≤ x.now →
      a.Chosen r x.dispatch x.now → w.ledger.tick (some a.occurrence) x = .ok l' →
      w.ledger.Changed l' → r.Wanted x.dispatch x.now ∨ a.EndsElsewhere r x) ∧
    ∀ a ∈ w.ledger.taskRequests, ∀ x : TaskAdmissionRequest.TickContext, w.clock ≤ x.now →
      a.Chosen r x.dispatch x.now → w.ledger.taskTick a.occurrence x = .ok l' →
      w.ledger.Changed l' → r.Wanted x.dispatch x.now ∨ a.EndsElsewhere w.putBack r x := by
  obtain ⟨sound, watched⟩ := reachable.kept
  have attended := watched.attended r stored
  constructor
  case left =>
    intro a mem x come chosen ticked changed
    by_cases due : a.Due r x.now
    · exact .inl ((attended.requests a mem).due x.now come due x.dispatch)
    · obtain due' | ⟨waiting, serves⟩ := chosen.due
      · exact absurd due' due
      · by_cases ends : a.EndsElsewhere r x
        · exact .inr ends
        · simp only [AdmissionRequest.EndsElsewhere, not_and, not_or, not_exists, not_le,
            Bool.not_eq_true] at ends
          obtain ⟨running, lasts⟩ := ends waiting due
          by_cases open' : r.Open x.now
          · rw [serves.1]
            exact .inl ((attended.requests a mem).served waiting x.now come open')
          · have idle := Ledger.tick_idle sound attended stored mem waiting come running lasts
              fun _ => open'
            exact absurd changed (idle.ok ticked).not_changed
  case right =>
    intro a mem x come chosen ticked changed
    have kept := attended.taskRequests a mem
    obtain due | ⟨waiting, ready, serves⟩ := chosen.due
    · by_cases promised : a.snapshot.state = .waiting → a.occurrence ∉ w.putBack
      · exact .inl (kept.due promised x.now come due x.dispatch)
      · simp only [Classical.not_imp, not_not] at promised
        obtain ⟨waiting, back⟩ := promised
        obtain ⟨delayed, past⟩ := due.delayed waiting
        by_cases open' : x.dispatch = true ∧ r.Open x.now
        · rw [open'.1]
          exact .inl (kept.served waiting x.now come past open'.2)
        · exact .inr ⟨waiting, .inr ⟨delayed, back, fun dispatch => fun h => open' ⟨dispatch, h⟩⟩⟩
    · by_cases open' : r.Open x.now
      · rw [serves.1]
        exact .inl (kept.served waiting x.now come (ready ▸ Nat.zero_le _) open')
      · by_cases queued : ∀ task, x.task = some task → a.Queued task
        · have idle := Ledger.taskTick_idle sound attended stored mem waiting come ready queued
            fun _ => open'
          exact absurd changed (idle.ok ticked).not_changed
        · simp only [not_forall, exists_prop] at queued
          exact .inr ⟨waiting, .inl ⟨ready, queued⟩⟩

/- A task is accepted, and the row wants the tick that offers it the only slot. -/

def sampleAccepted : List LedgerCommand :=
  [.putResource Ledger.sampleResourcePut (fun _ => none) 1000,
    .register Ledger.sampleGoverned 2000]

def sampleServing : TaskAdmissionRequest.TickContext :=
  ⟨true, some Ledger.sampleGoverned, none, true, 3000⟩

theorem accepted_task_is_announced :
    ∃ w r, init.run sampleAccepted = .ok w ∧ w.ledger.resource = some r ∧ r.Wanted true 3000 := by
  have ends : ((init.run sampleAccepted).toOption.any fun w => decide (w.clock ≤ 3000) &&
      w.ledger.resource.any fun r => w.ledger.taskRequests.any fun a =>
        decide (a.snapshot.state = .waiting ∧ a.availableAt = 0 ∧ r.record.policy.enabled = true ∧
          r.started + r.offered < r.record.policy.maxOccupancy ∧
          1 = a.snapshot.occurrence.generation) &&
        (w.ledger.taskTick a.occurrence sampleServing).toOption.any fun l' =>
          decide (l'.taskRequests ≠ w.ledger.taskRequests)) = true := by
    decide +kernel
  simp only [Option.any_eq_true, toOption_eq_some, Bool.and_eq_true, decide_eq_true_eq,
    List.any_eq_true] at ends
  obtain ⟨w, runs, come, r, stored, a, mem, ⟨waiting, ready, enabled, room, first⟩, l', ticked,
    changed⟩ := ends
  have chosen : a.Chosen r sampleServing.dispatch sampleServing.now := by
    rw [TaskAdmissionRequest.Chosen, waiting]
    exact .inr ⟨ready, rfl, enabled, room⟩
  have wanted := (no_lost_wake ⟨_, runs⟩ stored).2 a mem sampleServing come chosen ticked
    (.inr changed)
  refine ⟨w, r, runs, stored, wanted.resolve_right ?_⟩
  rintro ⟨-, ⟨-, task, found, left⟩ | ⟨delayed, -⟩⟩
  · obtain rfl : Ledger.sampleGoverned = task := by simpa [sampleServing] using found
    exact left ⟨rfl, rfl, first⟩
  · omega

/- Two slots, one token. One request holds the token, another waits for less time than it may. -/

def sampleWait (name : String) : AdmissionOccurrence :=
  ⟨sampleScope, name, "activation-" ++ name, "mail"⟩

def parkedTick (parking taskId : String) (episodeDeadline now : Nat) : AdmissionTick :=
  ⟨true, some (.waiting, some parking), some episodeDeadline, none, true, taskId, now⟩

def sampleShortWait : List LedgerCommand :=
  [.putResource { Ledger.sampleResourcePut with
      policy := { Ledger.samplePolicy with maxOccupancy := 2 } } (fun _ => none) 1000,
    .installNew (sampleWait "b") .operation "park-b" "resume-b" 100000 2000,
    .tick (some (sampleWait "b")) (parkedTick "park-b" "act-b" 102000 2100),
    .inspect (sampleWait "b") 8000,
    .installNew (sampleWait "a") .operation "park-a" "resume-a" 100000 8100,
    .tick (some (sampleWait "a")) (parkedTick "park-a" "act-a" 108100 8200),
    .installExisting (sampleWait "b") "park-b2" "resume-b2" 500 8300,
    .tick none (parkedTick "park-b2" "act-b2" 8800 8400)]

/-- Without fair sharing the row does not announce the end of a wait that is shorter than its request's
own: it is left to the workflow's timer, and yet a tick would resume the workflow. -/
theorem short_wait_is_not_announced :
    ¬ ∀ (w : Watch) (r : Resource) (l' : Ledger), w.Reachable → w.ledger.resource = some r →
      ∀ a ∈ w.ledger.requests, ∀ x : AdmissionTick, w.clock ≤ x.now →
        a.Chosen r x.dispatch x.now → w.ledger.tick (some a.occurrence) x = .ok l' →
        w.ledger.Changed l' → r.Wanted x.dispatch x.now := by
  have ends : ((init.run sampleShortWait).toOption.any fun w => decide (w.clock ≤ 8900) &&
      w.ledger.resource.any fun r => w.ledger.requests.any fun a =>
        decide (a.snapshot.state = .waiting ∧ r.record.policy.enabled = true ∧
          r.started + r.offered < r.record.policy.maxOccupancy ∧ r.due = some 13200) &&
        (w.ledger.tick (some a.occurrence) (parkedTick "park-b2" "act-b2" 8800 8900)).toOption.any
          fun l' => decide (l'.requests ≠ w.ledger.requests)) = true := by
    decide +kernel
  simp only [Option.any_eq_true, toOption_eq_some, Bool.and_eq_true, decide_eq_true_eq,
    List.any_eq_true] at ends
  obtain ⟨w, runs, come, r, stored, a, mem, ⟨waiting, enabled, room, due⟩, l', ticked,
    changed⟩ := ends
  intro announced
  obtain ⟨d, wanted, past⟩ := announced w r l' ⟨_, runs⟩ stored a mem
    (parkedTick "park-b2" "act-b2" 8800 8900) come
    (by
      rw [AdmissionRequest.Chosen, waiting]
      exact .inr (.inr ⟨rfl, enabled, room⟩))
    ticked (.inl changed)
  obtain rfl : 13200 = d := by simpa [parkedTick, due] using wanted
  simp [parkedTick] at past

end Watch
end Ledgence
