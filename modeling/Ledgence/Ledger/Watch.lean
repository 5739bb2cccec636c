import Ledgence.Ledger.Wanted
import Ledgence.Ledger.Balance

/-! No wake-up is lost: along every run the resource row announces a tick for whatever a tick would
change. -/
open Kit Kit.Checked

namespace Ledgence

theorem exists_min?_le {ds : List Nat} {d t : Nat} (mem : d ∈ ds) (come : d ≤ t) :
    ∃ m, ds.min? = some m ∧ m ≤ t := by
  cases least : ds.min? with
  | none =>
    rw [List.min?_eq_none_iff.mp least] at mem
    simp at mem
  | some m => exact ⟨m, rfl, ((List.min?_eq_some_iff.mp least).2 d mem).trans come⟩

/-- What is due by `t` was on the list of due times at any earlier moment. -/
theorem AdmissionRequest.Due.announced {a : AdmissionRequest} {r : Resource} {now t : Nat}
    (due : a.Due r t) (later : now ≤ t) : ∃ d ∈ a.dueTimes r now, d ≤ t := by
  obtain ⟨d, mem, come⟩ := due
  cases state : a.snapshot.state with
  | offered =>
    cases offered : a.snapshot.offer with
    | none => simp [dueTimes, state, offered] at mem
    | some offer =>
      by_cases stale : offer.policyRevision < r.revision
      · exact ⟨now, by simp [dueTimes, state, offered, stale], later⟩
      · exact ⟨d, by simpa [dueTimes, state, offered, stale] using mem, come⟩
  | possiblyDispatched | waiting =>
    exact ⟨d, by simpa [dueTimes, state] using mem, come⟩
  | awaitingRewait | unknownOccupied | finished | closedBeforeStart | administrativelyReleased =>
    simp [dueTimes, state] at mem

theorem TaskAdmissionRequest.Due.announced {a : TaskAdmissionRequest} {r : Resource} {now t : Nat}
    (due : a.Due r t) (later : now ≤ t) : ∃ d ∈ a.dueTimes r now, d ≤ t := by
  obtain ⟨d, mem, come⟩ := due
  by_cases stale : (a.snapshot.offer.any fun o => o.policyRevision < r.revision) = true
  · cases state : a.snapshot.state with
    | offered | preparing => exact ⟨now, by simp [dueTimes, state, stale], later⟩
    | possiblyDispatched | waiting => exact ⟨d, by simpa [dueTimes, state] using mem, come⟩
    | unknownOccupied | finished | closedBeforeStart | administrativelyReleased =>
      simp [dueTimes, state] at mem
  · exact ⟨d, by simpa [dueTimes, stale] using mem, come⟩

/-- Capacity that a refill brings was announced when the row was last looked at. -/
theorem Resource.Open.announced {r : Resource} {capacity now t : Nat} {next : Option Nat}
    (open' : r.Open t) (later : now ≤ t) (behind : r.highWater ≤ t)
    (current : r.capacity = .ok capacity)
    (refill : (if 0 < capacity then .ok (some now) else
      nextAdmissionRefill r.record.policy r.bucket r.offered (r.offered + r.started) now) = .ok next) :
    ∃ d, next = some d ∧ d ≤ t := by
  by_cases positive : 0 < capacity
  · rw [if_pos positive, Except.ok.injEq] at refill
    exact ⟨now, refill.symm, later⟩
  · rw [if_neg positive] at refill
    obtain ⟨r', k, refilled, capacity', positive'⟩ := open'
    obtain ⟨unlimited, rfl⟩ | ⟨rate, credit, limited, funded, bucket, same⟩ := refill_eq_ok refilled
    · -- Without a rate, time changes nothing.
      have noBucket : r.credit = none := by
        cases funded : r.credit with
        | none => rfl
        | some credit =>
          simp [Resource.capacity, admissionOfferCapacity, rateCapacity, bucket, funded, unlimited,
            bind_eq_ok] at current
      have unchanged : r.capacity = .ok k := by
        simpa [Resource.capacity, bucket, noBucket] using capacity'
      rw [current, Except.ok.injEq] at unchanged
      omega
    · have here : r.bucket = some ⟨credit, r.highWater⟩ := by simp [Resource.bucket, funded]
      rw [here] at refill
      refine nextAdmissionRefill_le limited later behind refill ?_ positive'
      rw [same] at capacity'
      simpa [Resource.capacity, Resource.bucket, ← bucket] using capacity'

theorem Resource.Open.of_times {r : Resource} {due quarantinedDue : Option Nat} {t : Nat}
    (open' : Resource.Open { r with due, quarantinedDue } t) : r.Open t := by
  obtain ⟨r₁, k, refilled, capacity, positive⟩ := open'
  cases limited : r.record.policy.rate with
  | none =>
    obtain rfl := by simpa [refill, limited] using refilled
    exact ⟨{ r with highWater := max r.highWater t }, k, by simp [refill, limited], capacity, positive⟩
  | some rate =>
    simp only [refill, limited, bind_eq_ok, pure_eq_ok, okOr_eq_ok, check_eq_ok] at refilled
    obtain ⟨credit, funded, b, accepted, rfl⟩ := refilled
    refine ⟨{ r with credit := some b.credit, highWater := b.highWaterAt }, k, ?_, capacity, positive⟩
    simp only [refill, limited, bind_eq_ok, pure_eq_ok, okOr_eq_ok, check_eq_ok]
    exact ⟨credit, funded, b, accepted, rfl⟩

namespace Ledger
variable {l l' : Ledger} {r r' : Resource} {clock now t : Nat}
variable {putBack : List TaskAdmissionOccurrence}

theorem due_mem {a : AdmissionRequest} (mem : a ∈ l.requests) {d : Nat}
    (due : d ∈ a.dueTimes r now) : d ∈ l.dueTimes r now :=
  List.mem_append_left _ (List.mem_flatMap.mpr ⟨a, mem, due⟩)

theorem due_mem_task {a : TaskAdmissionRequest} (mem : a ∈ l.taskRequests) {d : Nat}
    (due : d ∈ a.dueTimes r now) : d ∈ l.dueTimes r now :=
  List.mem_append_right _ (List.mem_flatMap.mpr ⟨a, mem, due⟩)

structure Refreshed (l : Ledger) (now : Nat) (r r' : Resource) : Prop where
  same : r' = { r with due := r'.due, quarantinedDue := r'.quarantinedDue }
  announced : ∀ d ∈ l.dueTimes r now, ∀ t, d ≤ t → ∀ dispatch, r'.Wanted dispatch t
  served : l.waiting = true → ∀ t, now ≤ t → r.highWater ≤ t → r.Open t → r'.Wanted true t

theorem refreshDue_spec : Ensures Fault.Never (l.refreshDue r now) (Refreshed l now r) := by
  simp only [Ledger.refreshDue]
  have paused (due : Option Nat) (least : (l.dueTimes r now).min? = due) :
      ∀ d ∈ l.dueTimes r now, ∀ t, d ≤ t → ∀ dispatch,
        Resource.Wanted { r with quarantinedDue := due, due } dispatch t := by
    intro d mem t come dispatch
    obtain ⟨m, found, past⟩ := exists_min?_le mem come
    exact ⟨m, by cases dispatch <;> simp [← least, found], past⟩
  rw [ensures_ite]
  refine ⟨fun _ => ?_, fun idle => ⟨rfl, paused _ rfl, fun waiting t _ _ open' => ?_⟩⟩
  swap
  · exact absurd ⟨open'.enabled, waiting⟩ idle
  rw [ensures_bind, returns_check]
  intro capacity current
  have finish (next : Option Nat) (refill : (if 0 < capacity then .ok (some now) else
      nextAdmissionRefill r.record.policy r.bucket r.offered (r.offered + r.started) now) = .ok next) :
      Refreshed l now r { r with
        quarantinedDue := (l.dueTimes r now).min?
        due := ((l.dueTimes r now).min?.toList ++ next.toList).min? } := by
    refine ⟨rfl, fun d mem t come dispatch => ?_, fun _ t later behind open' => ?_⟩
    · obtain ⟨m, found, past⟩ := exists_min?_le mem come
      cases dispatch with
      | false => exact ⟨m, by simp [found], past⟩
      | true => exact exists_min?_le (by simp [found]) past
    · obtain ⟨d, announced, past⟩ := open'.announced later behind current refill
      exact exists_min?_le (by simp [announced]) past
  rw [ensures_ite]
  refine ⟨fun positive => ?_, fun full => ?_⟩
  · exact finish _ (by rw [if_pos positive])
  · simp only [ensures_bind, returns_check, ensures_pure]
    exact fun next refill => finish next (by rw [if_neg full, refill])

theorem Refreshed.attended (refreshed : Refreshed l now r r') (timed : Timed clock l r)
    (come : now ≤ clock) : Attended clock putBack l r' := by
  have revision : r'.revision = r.revision := by rw [refreshed.same]
  have policy : r'.record.policy = r.record.policy := by rw [refreshed.same]
  have opens : ∀ t, r'.Open t → r.Open t := by
    intro t open'
    rw [refreshed.same] at open'
    exact open'.of_times
  constructor
  case highWater =>
    rw [refreshed.same]
    exact timed.highWater
  case requests =>
    intro a mem
    refine ⟨timed.updated a mem, fun t later due => ?_, fun waiting t later open' => ?_⟩
    · have due : a.Due r t := by
        simpa only [AdmissionRequest.Due, AdmissionRequest.dueTimes, revision, policy] using due
      obtain ⟨d, mem', past⟩ := due.announced (come.trans later)
      exact refreshed.announced d (due_mem mem mem') t past
    · refine refreshed.served ?_ t (come.trans later) (timed.highWater.trans later) (opens t open')
      simp only [Ledger.waiting, Bool.or_eq_true, List.any_eq_true, decide_eq_true_eq]
      exact .inl ⟨a, mem, waiting⟩
  case taskRequests =>
    intro a mem
    have announced : ∀ t, clock ≤ t → a.Due r' t → ∀ dispatch, r'.Wanted dispatch t := by
      intro t later due
      have due : a.Due r t := by
        simpa only [TaskAdmissionRequest.Due, TaskAdmissionRequest.dueTimes, revision] using due
      obtain ⟨d, mem', past⟩ := due.announced (come.trans later)
      exact refreshed.announced d (due_mem_task mem mem') t past
    refine ⟨timed.updatedTasks a mem, fun _ => announced, fun waiting t later available open' => ?_⟩
    by_cases ready : a.availableAt = 0
    · refine refreshed.served ?_ t (come.trans later) (timed.highWater.trans later) (opens t open')
      simp only [Ledger.waiting, Bool.or_eq_true, List.any_eq_true, Bool.and_eq_true,
        decide_eq_true_eq]
      exact .inr ⟨a, mem, waiting, ready⟩
    · refine announced t later ⟨a.availableAt, ?_, available⟩ true
      simp [TaskAdmissionRequest.dueTimes, waiting, Nat.pos_of_ne_zero ready]

structure Watched (clock : Nat) (putBack : List TaskAdmissionOccurrence) (l : Ledger) : Prop where
  attended : ∀ r, l.resource = some r → Attended clock putBack l r
  empty : l.resource = none → l.requests = [] ∧ l.taskRequests = []

theorem watched_init : Watched clock putBack init where
  attended := fun r stored => by simp [init] at stored
  empty := fun _ => ⟨rfl, rfl⟩

theorem Watched.mono {clock' : Nat} {putBack' : List TaskAdmissionOccurrence}
    (watched : Watched clock putBack l) (later : clock ≤ clock') (more : putBack ⊆ putBack') :
    Watched clock' putBack' l where
  attended := fun r stored => (watched.attended r stored).mono later more
  empty := watched.empty

theorem returns_row : Ensures Fault.Never r.row fun r' => r' = r := by
  simp only [Resource.row, ensures_bind, returns_check, ensures_refuse, ensures_pure]
  exact fun _ _ => ⟨fun _ => not_never _, fun _ => ensures_of_ok (fun _ _ => not_never _)
    fun _ _ => trivial⟩

theorem Watched.lock (watched : Watched clock putBack l) :
    Ensures Fault.Never l.lock fun r => l.resource = some r ∧ Attended clock putBack l r := by
  simp only [Ledger.lock, ensures_bind, ensures_okOr]
  refine ⟨fun _ => not_never _, fun r stored => returns_row.mono fun r' same => ?_⟩
  rw [same]
  exact ⟨stored, watched.attended r stored⟩

theorem Watched.lockNamed (watched : Watched clock putBack l) (name : String) :
    Ensures Fault.Never (l.lockNamed name) (Attended clock putBack l) := by
  simp only [Ledger.lockNamed, ensures_bind, ensures_okOr]
  refine ⟨fun _ => not_never _, fun r named => returns_row.mono fun r' same => ?_⟩
  rw [same]
  exact watched.attended r (Option.filter_eq_some_iff.mp named).1

theorem returns_request (l : Ledger) (o : AdmissionOccurrence) :
    Ensures Fault.Never (l.request o) fun a =>
      a ∈ l.requests ∧ a.occurrence = o ∧ a.snapshot.validate = .ok () := by
  simp only [request, ensures_bind, ensures_okOr, returns_check, ensures_pure]
  exact ⟨fun _ => not_never _, fun a found _ valid =>
    ⟨Table.find_mem found, Table.find_key found, valid⟩⟩

theorem returns_taskRequest (l : Ledger) (o : TaskAdmissionOccurrence) :
    Ensures Fault.Never (l.taskRequest o) fun a => a ∈ l.taskRequests ∧ a.occurrence = o := by
  simp only [taskRequest, ensures_bind, ensures_okOr, returns_check, ensures_pure]
  exact ⟨fun _ => not_never _, fun a found _ _ => ⟨Table.find_mem found, Table.find_key found⟩⟩

theorem Attended.saveResource (attended : Attended clock putBack l r) :
    Ensures Fault.Never (l.saveResource r) (Watched clock putBack) := by
  have saved : Ensures Fault.Never r.save fun r' => r' = r := by
    simp only [Resource.save, ensures_bind, returns_check, ensures_pure]
    refine ensures_of_ok (fun _ _ => not_never _) fun _ _ _ _ => ?_
    exact ensures_of_ok (fun _ _ => not_never _) fun _ _ =>
      ensures_of_ok (fun _ _ => not_never _) fun _ _ => trivial
  simp only [Ledger.saveResource, ensures_bind, ensures_pure]
  refine saved.mono fun r' same => ⟨fun r'' stored => ?_, fun absent => by simp at absent⟩
  obtain rfl : r' = r'' := by simpa using stored
  rw [same]
  exact ⟨attended.highWater, attended.requests, attended.taskRequests⟩

theorem Timed.saveRequest {a' : AdmissionRequest} (timed : Timed clock l r)
    (moved : a'.Timely clock r') :
    Ensures Fault.Never (l.saveRequest a') fun l' => Timed clock l' r' := by
  simp only [Ledger.saveRequest, ensures_bind, returns_wellFormed, ensures_pure]
  refine fun _ _ => ⟨moved.highWater, fun b mem => ?_, timed.updatedTasks⟩
  obtain rfl | ⟨mem, -⟩ := Table.mem_put mem
  · exact moved.updated
  · exact timed.updated b mem

theorem Timed.saveTaskRequest {a' : TaskAdmissionRequest} (timed : Timed clock l r)
    (moved : a'.Timely clock r') :
    Ensures Fault.Never (l.saveTaskRequest a') fun l' => Timed clock l' r' := by
  simp only [Ledger.saveTaskRequest, ensures_bind, returns_wellFormed, ensures_pure]
  refine fun _ _ => ⟨moved.highWater, timed.updated, fun b mem => ?_⟩
  obtain rfl | ⟨mem, -⟩ := Table.mem_put mem
  · exact moved.updated
  · exact timed.updatedTasks b mem

/-- One request is written back, and the scheduler was woken or has nothing new to see. -/
theorem Attended.saveRequest {a a' : AdmissionRequest} (attended : Attended clock putBack l r)
    (mem : a ∈ l.requests) (step : a.Roused clock r a' r') :
    Ensures Fault.Never (l.saveRequest a') fun l' => Attended clock putBack l' r' := by
  obtain woken | ⟨rfl, same⟩ := step.awake
  · exact (attended.timed.saveRequest step.timely).mono fun l' timed => timed.attended woken
  · simp only [Ledger.saveRequest, ensures_bind, returns_wellFormed, ensures_pure]
    refine fun _ _ => ⟨attended.highWater, fun b mem' => ?_, attended.taskRequests⟩
    obtain rfl | ⟨mem', -⟩ := Table.mem_put mem'
    · exact (attended.requests a mem).sameDue same
    · exact attended.requests b mem'

theorem Attended.replaceTask {a' : TaskAdmissionRequest} (attended : Attended clock putBack l r)
    (kept : a'.Watched clock putBack r) :
    Ensures Fault.Never (l.saveTaskRequest a') fun l' => Attended clock putBack l' r := by
  simp only [Ledger.saveTaskRequest, ensures_bind, returns_wellFormed, ensures_pure]
  refine fun _ _ => ⟨attended.highWater, attended.requests, fun b mem => ?_⟩
  obtain rfl | ⟨mem, -⟩ := Table.mem_put mem
  · exact kept
  · exact attended.taskRequests b mem

theorem Attended.saveTaskRequest {a a' : TaskAdmissionRequest}
    (attended : Attended clock putBack l r) (mem : a ∈ l.taskRequests)
    (step : a.Roused clock r a' r') :
    Ensures Fault.Never (l.saveTaskRequest a') fun l' => Attended clock putBack l' r' := by
  obtain woken | ⟨rfl, same⟩ := step.awake
  · exact (attended.timed.saveTaskRequest step.timely).mono fun l' timed => timed.attended woken
  · exact attended.replaceTask ((attended.taskRequests a mem).sameDue same)

theorem Watched.onRequest (watched : Watched clock putBack l) {o : AdmissionOccurrence}
    {op : AdmissionRequest → Resource → Outcome (AdmissionRequest × Resource)}
    (wakes : ∀ a r, a.Timely clock r → Ensures Fault.Never (op a r) fun p =>
      a.Roused clock r p.1 p.2) :
    Ensures Fault.Never (l.onRequest o op) (Watched clock putBack) := by
  simp only [Ledger.onRequest, ensures_bind]
  refine watched.lock.mono fun r locked => (returns_request l o).mono fun a found => ?_
  obtain ⟨-, attended⟩ := locked
  have timely : a.Timely clock r := ⟨(attended.requests a found.1).updated, attended.highWater⟩
  refine (wakes a r timely).mono fun p step => ?_
  exact (attended.saveRequest found.1 step).mono fun l' saved => saved.saveResource

theorem Attended.onTask {α : Type} (attended : Attended clock putBack l r) (post : α → Prop)
    {o : TaskAdmissionOccurrence}
    {op : TaskAdmissionRequest → Resource → Outcome (TaskAdmissionRequest × Resource × α)}
    (wakes : ∀ a r, a.Timely clock r → Ensures Fault.Never (op a r) fun p =>
      a.Roused clock r p.1 p.2.1 ∧ post p.2.2) :
    Ensures Fault.Never (l.onTask r o op) fun p => Watched clock putBack p.1 ∧ post p.2 := by
  simp only [Ledger.onTask, ensures_bind, ensures_pure]
  refine (returns_taskRequest l o).mono fun a found => ?_
  have timely : a.Timely clock r := ⟨(attended.taskRequests a found.1).updated, attended.highWater⟩
  refine (wakes a r timely).mono fun p step => ?_
  refine (attended.saveTaskRequest found.1 step.1).mono fun l' saved => ?_
  exact saved.saveResource.mono fun l'' watched => ⟨watched, step.2⟩

theorem Attended.onTask_wakes {α : Type} (attended : Attended clock putBack l r)
    {o : TaskAdmissionOccurrence}
    {op : TaskAdmissionRequest → Resource → Outcome (TaskAdmissionRequest × Resource × α)}
    (wakes : ∀ a r, a.Timely clock r → Ensures Fault.Never (op a r) fun p =>
      a.Roused clock r p.1 p.2.1) :
    Ensures Fault.Never (l.onTask r o op) fun p => Watched clock putBack p.1 := by
  refine (attended.onTask (fun _ => True) fun a r timely => ?_).mono fun p here => here.1
  exact (wakes a r timely).mono fun _ roused => ⟨roused, trivial⟩

theorem Timed.settle (timed : Timed clock l r) (come : now ≤ clock) :
    Ensures Fault.Never (l.settle r now) (Watched clock putBack) := by
  simp only [Ledger.settle, ensures_bind]
  exact refreshDue_spec.mono fun r' refreshed => (refreshed.attended timed come).saveResource

theorem Timed.postpone {at' : Nat} (timed : Timed clock l r) (come : at' ≤ clock) :
    Ensures Fault.Never (l.postpone r at') (Watched clock putBack) := by
  have timed' : Timed clock l (r.wake at') :=
    ⟨timed.highWater, timed.updated, timed.updatedTasks⟩
  exact (timed'.attended (Resource.woken_wake come)).saveResource

theorem Watched.tick (watched : Watched clock putBack l) {candidate : Option AdmissionOccurrence}
    {x : AdmissionTick} (come : x.now ≤ clock) :
    Ensures Fault.Never (l.tick candidate x) (Watched clock putBack) := by
  simp only [Ledger.tick]
  rw [ensures_bind]
  refine watched.lock.mono fun r locked => ?_
  have timed := locked.2.timed
  rw [ensures_ite]
  refine ⟨fun _ => timed.postpone timed.highWater, fun _ => ?_⟩
  rw [ensures_bind]
  refine (Resource.refill_times timed.highWater come).mono fun r' refilled => ?_
  have timed' : Timed clock l r' := ⟨refilled.1, timed.updated, timed.updatedTasks⟩
  cases candidate with
  | none => exact timed'.settle come
  | some o =>
    simp only
    rw [ensures_bind]
    refine (returns_request l o).mono fun a found => ?_
    have updated := timed.updated a found.1
    rw [ensures_ite]
    refine ⟨fun _ => timed'.postpone updated, fun _ => ?_⟩
    simp only [ensures_bind]
    refine (AdmissionRequest.tick_times ⟨updated, refilled.1⟩ come).mono fun p here => ?_
    exact (timed'.saveRequest here).mono fun l' saved => saved.settle come

theorem Watched.taskTick (watched : Watched clock putBack l) {o : TaskAdmissionOccurrence}
    {x : TaskAdmissionRequest.TickContext} (come : x.now ≤ clock) :
    Ensures Fault.Never (l.taskTick o x) (Watched clock putBack) := by
  simp only [Ledger.taskTick]
  rw [ensures_bind]
  refine watched.lock.mono fun r locked => ?_
  have timed := locked.2.timed
  rw [ensures_bind]
  refine (returns_taskRequest l o).mono fun a found => ?_
  have updated := timed.updatedTasks a found.1
  rw [ensures_ite]
  refine ⟨fun _ => timed.postpone (max_le timed.highWater updated), fun _ => ?_⟩
  simp only [ensures_bind]
  refine (TaskAdmissionRequest.tick_times ⟨updated, timed.highWater⟩ come).mono fun p here => ?_
  exact (timed.saveTaskRequest here).mono fun l' saved => saved.settle come

theorem changed_highWater {c : ResourcePutCommand} (highWater : r.highWater ≤ clock)
    (come : now ≤ clock) : Ensures Fault.Never (r.changed c now) fun r' =>
      r'.highWater ≤ clock ∧ r'.Woken clock := by
  simp only [Resource.changed, ensures_bind, returns_check, ensures_pure]
  refine fun bucket accepted => ⟨max_le ?_ highWater, Resource.woken_wake come⟩
  cases bucket with
  | none => exact max_le come highWater
  | some b =>
    have behind : (r.bucket.map AdmissionBucket.highWaterAt).getD 0 ≤ clock := by
      unfold Resource.bucket
      cases r.credit with
      | none => exact Nat.zero_le _
      | some credit => exact highWater
    exact (changeAdmissionRate_highWater accepted).trans (max_le come behind)

theorem reclassified_updated (short : AdmissionOccurrence → Option Nat) (a : AdmissionRequest) :
    (a.reclassified short).snapshot = a.snapshot := by
  unfold AdmissionRequest.reclassified
  split <;> rfl

theorem Watched.putResource (watched : Watched clock putBack l) {c : ResourcePutCommand}
    {short : AdmissionOccurrence → Option Nat} (come : now ≤ clock) :
    Ensures Fault.Never (l.putResource c short now) (Watched clock putBack) := by
  simp only [Ledger.putResource]
  rw [ensures_bind, returns_check]
  intro _ _
  cases stored : l.resource with
  | none =>
    obtain ⟨noRequests, noTasks⟩ := watched.empty stored
    simp only [ensures_bind, ensures_refuse]
    refine ⟨fun _ => not_never _, fun _ => ?_⟩
    have highWater : (Resource.created c now).highWater ≤ clock := come
    refine (Resource.refill_times highWater come).mono fun r refilled => ?_
    exact Attended.saveResource ⟨refilled.1, by simp [noRequests], by simp [noTasks]⟩
  | some old =>
    have attended := watched.attended old stored
    simp only [ensures_bind, ensures_refuse]
    refine returns_row.mono fun old' same => ⟨fun _ => not_never _, fun _ => ?_⟩
    rw [same]
    refine (changed_highWater attended.highWater come).mono fun r changed => ?_
    have timed : Timed clock l r :=
      ⟨changed.1, attended.timed.updated, attended.timed.updatedTasks⟩
    have attended' : Attended clock putBack l r := timed.attended changed.2
    refine attended'.saveResource.mono fun _ _ => ?_
    refine (Resource.refill_times changed.1 come).mono fun r' refilled => ?_
    refine Attended.saveResource (Timed.attended ⟨refilled.1, fun a mem => ?_, ?_⟩
      (refilled.2 changed.2))
    · split at mem
      · obtain ⟨b, stored, rfl⟩ := List.mem_map.mp mem
        rw [reclassified_updated]
        exact timed.updated b stored
      · exact timed.updated a mem
    · exact timed.updatedTasks

theorem Watched.installNew (watched : Watched clock putBack l) {o : AdmissionOccurrence}
    {binding : AdmissionBinding} {parking resumed : String} {timeoutMs : Nat} (come : now ≤ clock) :
    Ensures Fault.Never (l.installNew o binding parking resumed timeoutMs now)
      (Watched clock putBack) := by
  simp only [Ledger.installNew, ensures_bind, ensures_okOr, returns_check, ensures_refuse,
    returns_wellFormed]
  refine watched.lock.mono fun r locked => ?_
  have timed := locked.2.timed
  refine (Resource.refill_times timed.highWater come).mono fun r₁ refilled => ?_
  refine ⟨fun _ => not_never _, fun until' _ _ _ => ⟨fun _ => not_never _, fun _ => ?_⟩⟩
  refine (AdmissionRequest.installEpisode_wakes ⟨come, refilled.1⟩ come).mono fun p step _ _ => ?_
  refine Attended.saveResource (Timed.attended ⟨step.1.highWater, fun a mem => ?_,
    timed.updatedTasks⟩ step.2)
  obtain mem | mem := List.mem_append.mp mem
  · exact timed.updated a mem
  · obtain rfl := List.mem_singleton.mp mem
    exact step.1.updated

theorem Watched.installExisting (watched : Watched clock putBack l) {o : AdmissionOccurrence}
    {parking resumed : String} {timeoutMs : Nat} (come : now ≤ clock) :
    Ensures Fault.Never (l.installExisting o parking resumed timeoutMs now)
      (Watched clock putBack) := by
  refine watched.onRequest fun a r timely => ?_
  simp only [ensures_bind, ensures_okOr]
  refine (Resource.refill_times timely.highWater come).mono fun r₁ refilled => ?_
  refine ⟨fun _ => not_never _, fun until' _ => ?_⟩
  refine (AdmissionRequest.rewait_times ⟨timely.updated, refilled.1⟩ come).mono fun p second => ?_
  exact (AdmissionRequest.installEpisode_wakes second come).mono fun q step =>
    ⟨step.1, .inl step.2⟩

theorem Watched.drain (watched : Watched clock putBack l) (os : List AdmissionOccurrence)
    (come : now ≤ clock) : Ensures Fault.Never (l.drain os now) (Watched clock putBack) :=
  ensures_foldlM (fun _ _ _ here => here.onRequest fun _ _ timely =>
    AdmissionRequest.closeParked_wakes timely come) watched

theorem Watched.register (watched : Watched clock putBack l) {task : TaskSnapshot}
    (come : now ≤ clock) : Ensures Fault.Never (l.register task now) (Watched clock putBack) := by
  unfold Ledger.register
  split
  · exact watched
  · simp only [ensures_bind, ensures_refuse, returns_check]
    refine ⟨fun _ => not_never _, fun _ => ensures_of_ok (fun _ _ => not_never _) fun o _ => ?_⟩
    refine (watched.lockNamed _).mono fun r attended _ _ => ⟨fun _ => not_never _, fun _ => ?_⟩
    refine Attended.saveResource (Timed.attended ⟨attended.highWater, attended.timed.updated,
      fun a mem => ?_⟩ (Resource.woken_wake (max_le come attended.highWater)))
    obtain mem | mem := List.mem_append.mp mem
    · exact attended.timed.updatedTasks a mem
    · obtain rfl := List.mem_singleton.mp mem
      exact come

theorem Watched.applyToRequest (watched : Watched clock putBack l) {w : TaskWrites}
    {resource : String} {at' : Nat} {x : ApplyClock} (past : at' ≤ clock)
    (come : x.sampled ≤ clock) :
    Ensures Fault.Never (l.applyToRequest w resource at' x) (Watched clock putBack) := by
  unfold Ledger.applyToRequest
  split
  · simp only [ensures_bind, ensures_pure]
    refine (watched.lockNamed resource).mono fun r attended => ?_
    refine attended.onTask_wakes fun a r timely => ?_
    simp only [ensures_bind, ensures_pure]
    exact TaskAdmissionRequest.settleAttempt_wakes timely (max_le come past)
  · simp only [ensures_ite, ensures_bind, ensures_pure, ensures_ok]
    refine ⟨fun _ => ensures_of_ok (fun _ _ => not_never _) fun o _ => ?_, fun _ => watched⟩
    refine (watched.lockNamed resource).mono fun r attended => ?_
    refine attended.onTask_wakes fun a r timely => ?_
    simp only [ensures_bind, ensures_pure]
    exact TaskAdmissionRequest.closeUnassigned_wakes timely come

theorem Watched.applyTransition (watched : Watched clock putBack l) {w : TaskWrites}
    {x : ApplyClock} (past : w.latest ≤ clock) (come : x.sampled ≤ clock)
    (registered : x.registeredAt ≤ clock) :
    Ensures Fault.Never (l.applyTransition w x) (Watched clock putBack) := by
  unfold Ledger.applyTransition
  split
  · exact watched
  · exact watched
  case h_3 requirement last _ final =>
    have past : last.at' ≤ clock := by simpa [TaskWrites.latest, final] using past
    simp only [ensures_ite, ensures_ok, ensures_bind, ensures_pure]
    refine ⟨fun _ => watched, fun _ => (watched.applyToRequest past come).mono fun l' here => ?_⟩
    exact ⟨fun _ => here.register registered, fun _ => here⟩

theorem Watched.applyWrites (watched : Watched clock putBack l) {writes : Option TaskWrites}
    {x : ApplyClock} (past : TaskAdmissionRequest.WrittenBy clock writes) (come : x.sampled ≤ clock)
    (registered : x.registeredAt ≤ clock) :
    Ensures Fault.Never (l.applyWrites writes x) (Watched clock putBack) := by
  cases writes with
  | none => exact watched
  | some w => exact watched.applyTransition (past w rfl) come registered

theorem Watched.startTask (watched : Watched clock putBack l) {c : TaskAdmissionStartCommand}
    {x : TaskStartContext} {y : ApplyClock} (latest : x.latest ≤ clock) (come : y.sampled ≤ clock)
    (registered : y.registeredAt ≤ clock) :
    Ensures Fault.Never (l.startTask c x y) (Watched clock putBack) := by
  simp only [Ledger.startTask, ensures_bind]
  refine watched.lock.mono fun r locked => ?_
  refine (locked.2.onTask _ fun a r timely => ?_).mono fun p here =>
    here.1.applyWrites here.2 come registered
  simp only [ensures_bind, ensures_pure]
  exact TaskAdmissionRequest.startTask_wakes timely latest

theorem Watched.closeTask (watched : Watched clock putBack l) {c : TaskAdmissionCloseCommand}
    {x : TaskAdmissionRequest.CloseContext} {y : ApplyClock} (sampled : x.sampled ≤ clock)
    (come : y.sampled ≤ clock) (registered : y.registeredAt ≤ clock) :
    Ensures Fault.Never (l.closeTask c x y) (Watched clock putBack) := by
  simp only [Ledger.closeTask, ensures_bind]
  refine watched.lock.mono fun r locked => ?_
  refine (locked.2.onTask _ fun a r timely => ?_).mono fun p here =>
    here.1.applyWrites here.2 come registered
  simp only [ensures_bind, ensures_pure]
  exact TaskAdmissionRequest.closeTask_wakes timely sampled

theorem Watched.releaseTask (watched : Watched clock putBack l) {o : TaskAdmissionOccurrence}
    {sourceId : String} {expectedRevision sampled : Nat} (come : sampled ≤ clock) :
    Ensures Fault.Never (l.releaseTask o sourceId expectedRevision sampled)
      (Watched clock putBack) := by
  simp only [Ledger.releaseTask, ensures_bind, ensures_pure]
  refine watched.lock.mono fun r locked => ?_
  refine locked.2.onTask_wakes fun a r timely => ?_
  simp only [ensures_bind, ensures_pure]
  exact TaskAdmissionRequest.releaseTask_wakes timely come

theorem Watched.validateCandidate (watched : Watched clock putBack l) {task : TaskSnapshot}
    {dispatchEnabled : Bool} (come : now ≤ clock) :
    Ensures Fault.Never (l.validateCandidate task dispatchEnabled now) (Watched clock putBack) := by
  unfold Ledger.validateCandidate
  split
  · exact watched
  · simp only [ensures_bind, ensures_pure]
    refine ensures_of_ok (fun _ _ => not_never _) fun o _ => ?_
    refine (watched.lockNamed _).mono fun r attended => ?_
    refine attended.onTask_wakes fun a r timely => ?_
    exact TaskAdmissionRequest.validateCandidate_wakes timely come

theorem Watched.bindPreparation (watched : Watched clock putBack l) {task : TaskSnapshot}
    {attempt : AttemptSnapshot} {session : WorkerSession} (come : now ≤ clock) :
    Ensures Fault.Never (l.bindPreparation task attempt session now) (Watched clock putBack) := by
  unfold Ledger.bindPreparation
  split
  · exact watched
  · simp only [ensures_bind, ensures_pure]
    refine (watched.lockNamed _).mono fun r attended => ?_
    refine attended.onTask_wakes fun a r timely => ?_
    exact TaskAdmissionRequest.bindPreparation_wakes timely come

end Ledger
end Ledgence
