import Ledgence.Ledger.TaskWakes

/-! When the scheduler has something to do: what a tick may pick, and what the row's wake-up times
must announce for it. -/
open Kit Kit.Checked

namespace Ledgence

namespace Resource
variable {r r' : Resource} {clock t : Nat}

/-- The row announces a tick by `t`, one that may dispatch or one that may not. -/
def Wanted (r : Resource) (dispatch : Bool) (t : Nat) : Prop :=
  ∃ d, (if dispatch then r.due else r.quarantinedDue) = some d ∧ d ≤ t

/-- At `t` there is capacity for one more offer. -/
def Open (r : Resource) (t : Nat) : Prop :=
  ∃ r' k, r.refill t = .ok r' ∧ r'.capacity = .ok k ∧ 0 < k

/-- `choose` and `task_admission_candidate.sql` look at waiting requests, in some order. -/
def Serves (r : Resource) (dispatch : Bool) : Prop :=
  dispatch = true ∧ r.record.policy.enabled = true ∧
    r.started + r.offered < r.record.policy.maxOccupancy

theorem Woken.wanted (woken : r.Woken clock) (come : clock ≤ t) (dispatch : Bool) :
    r.Wanted dispatch t := by
  obtain ⟨at', past, due, quarantinedDue⟩ := woken
  refine ⟨at', ?_, past.trans come⟩
  cases dispatch with
  | true => exact due
  | false => exact quarantinedDue

theorem Open.enabled (open' : r.Open t) : r.record.policy.enabled = true := by
  obtain ⟨r', k, refilled, capacity, positive⟩ := open'
  have same : r'.record = r.record := by
    cases limited : r.record.policy.rate with
    | none =>
      obtain rfl := by simpa [refill, limited] using refilled
      rfl
    | some rate =>
      simp only [refill, limited, bind_eq_ok, pure_eq_ok] at refilled
      obtain ⟨_, -, _, -, rfl⟩ := refilled
      rfl
  rw [← same]
  exact (admissionOfferCapacity_enabled capacity positive).1

end Resource

namespace AdmissionRequest
variable {a a' : AdmissionRequest} {r r' : Resource} {clock clock' t : Nat}

/-- The arms of `choose`: an offer of an older policy or one that ran out, a source whose owner may
be gone, a wait that ran out, and under `Serves` any wait. -/
def Chosen (a : AdmissionRequest) (r : Resource) (dispatch : Bool) (t : Nat) : Prop :=
  match a.snapshot.state with
  | .offered => ∃ offer, a.snapshot.offer = some offer ∧
      (offer.policyRevision < r.revision ∨ offer.expiresAt ≤ t)
  | .possiblyDispatched => ∃ at', a.checkAt = some at' ∧ at' ≤ t
  | .waiting => a.snapshot.deadlineAt ≤ t ∨
      (r.record.policy.fairSharing.isSome ∧ ∃ at', a.shortEpisodeDeadline = some at' ∧ at' ≤ t) ∨
      r.Serves dispatch
  | .awaitingRewait | .unknownOccupied | .finished | .closedBeforeStart
  | .administrativelyReleased => False

def Due (a : AdmissionRequest) (r : Resource) (t : Nat) : Prop :=
  ∃ d ∈ a.dueTimes r t, d ≤ t

theorem Chosen.due {dispatch : Bool} (chosen : a.Chosen r dispatch t) :
    a.Due r t ∨ a.snapshot.state = .waiting ∧ r.Serves dispatch := by
  unfold Chosen at chosen
  cases state : a.snapshot.state with
  | offered =>
    rw [state] at chosen
    obtain ⟨offer, offered, stale | expired⟩ := chosen
    · exact .inl ⟨t, by simp [dueTimes, state, offered, stale], le_rfl⟩
    · exact .inl ⟨offer.expiresAt, by simp [dueTimes, state, offered], expired⟩
  | possiblyDispatched =>
    rw [state] at chosen
    obtain ⟨at', check, come⟩ := chosen
    exact .inl ⟨at', by simp [dueTimes, state, check], come⟩
  | waiting =>
    rw [state] at chosen
    obtain come | ⟨fair, at', short, come⟩ | serves := chosen
    · exact .inl ⟨_, by simp [dueTimes, state], come⟩
    · exact .inl ⟨at', by simp [dueTimes, state, fair, short], come⟩
    · exact .inr ⟨rfl, serves⟩
  | awaitingRewait | unknownOccupied | finished | closedBeforeStart | administrativelyReleased =>
    simp [state] at chosen

/-- The row's wake-up times announce whatever the request needs from `clock` on. -/
structure Watched (clock : Nat) (r : Resource) (a : AdmissionRequest) : Prop where
  updated : a.snapshot.updatedAt ≤ clock
  due : ∀ t, clock ≤ t → a.Due r t → ∀ dispatch, r.Wanted dispatch t
  served : a.snapshot.state = .waiting → ∀ t, clock ≤ t → r.Open t → r.Wanted true t

theorem Watched.mono (watched : Watched clock r a) (later : clock ≤ clock') : Watched clock' r a where
  updated := watched.updated.trans later
  due := fun t come => watched.due t (later.trans come)
  served := fun waiting t come => watched.served waiting t (later.trans come)

theorem watched_of_woken (updated : a.snapshot.updatedAt ≤ clock) (woken : r.Woken clock) :
    Watched clock r a where
  updated := updated
  due := fun _ come _ dispatch => woken.wanted come dispatch
  served := fun _ _ come _ => woken.wanted come true

theorem SameDue.dueTimes (same : a.SameDue a') : a'.dueTimes r t = a.dueTimes r t := by
  simp only [AdmissionRequest.dueTimes, same.snapshot, same.checkAt, same.short]

theorem Watched.sameDue (watched : Watched clock r a) (same : a.SameDue a') : Watched clock r a' where
  updated := same.snapshot ▸ watched.updated
  due := fun t come due => watched.due t come (by rwa [Due, same.dueTimes] at due)
  served := fun waiting => watched.served (same.snapshot ▸ waiting)

end AdmissionRequest

namespace TaskAdmissionRequest
variable {a a' : TaskAdmissionRequest} {r r' : Resource} {clock clock' t : Nat}
variable {putBack putBack' : List TaskAdmissionOccurrence}

/-- The arms of `task_admission_candidate.sql`. -/
def Chosen (a : TaskAdmissionRequest) (r : Resource) (dispatch : Bool) (t : Nat) : Prop :=
  let stale := ∃ offer, a.snapshot.offer = some offer ∧ offer.policyRevision < r.revision
  match a.snapshot.state with
  | .offered => stale ∨ ∃ offer, a.snapshot.offer = some offer ∧ offer.expiresAt ≤ t
  | .preparing => stale ∨ ∃ at', a.checkAt = some at' ∧ at' ≤ t
  | .possiblyDispatched => ∃ at', a.checkAt = some at' ∧ at' ≤ t
  | .waiting => (0 < a.availableAt ∧ a.availableAt ≤ t) ∨ a.availableAt = 0 ∧ r.Serves dispatch
  | .unknownOccupied | .finished | .closedBeforeStart | .administrativelyReleased => False

def Due (a : TaskAdmissionRequest) (r : Resource) (t : Nat) : Prop :=
  ∃ d ∈ a.dueTimes r t, d ≤ t

theorem Chosen.due {dispatch : Bool} (chosen : a.Chosen r dispatch t) :
    a.Due r t ∨ a.snapshot.state = .waiting ∧ a.availableAt = 0 ∧ r.Serves dispatch := by
  unfold Chosen at chosen
  cases state : a.snapshot.state with
  | offered =>
    simp only [state] at chosen
    obtain ⟨offer, offered, stale⟩ | ⟨offer, offered, expired⟩ := chosen
    · exact .inl ⟨t, by simp [dueTimes, state, offered, stale], le_rfl⟩
    · exact .inl ⟨offer.expiresAt, by simp [dueTimes, state, offered], expired⟩
  | preparing =>
    simp only [state] at chosen
    obtain ⟨offer, offered, stale⟩ | ⟨at', check, come⟩ := chosen
    · exact .inl ⟨t, by simp [dueTimes, state, offered, stale], le_rfl⟩
    · exact .inl ⟨at', by simp [dueTimes, state, check], come⟩
  | possiblyDispatched =>
    simp only [state] at chosen
    obtain ⟨at', check, come⟩ := chosen
    exact .inl ⟨at', by simp [dueTimes, state, check], come⟩
  | waiting =>
    simp only [state] at chosen
    obtain ⟨delayed, come⟩ | ⟨ready, serves⟩ := chosen
    · exact .inl ⟨a.availableAt, by simp [dueTimes, state, delayed], come⟩
    · exact .inr ⟨rfl, ready, serves⟩
  | unknownOccupied | finished | closedBeforeStart | administrativelyReleased =>
    simp [state] at chosen

/-- The row's wake-up times announce whatever the request needs from `clock` on, the end of a delay
apart that a legacy claim gave a request which was waiting already. -/
structure Watched (clock : Nat) (putBack : List TaskAdmissionOccurrence) (r : Resource)
    (a : TaskAdmissionRequest) : Prop where
  updated : a.snapshot.updatedAt ≤ clock
  due : (a.snapshot.state = .waiting → a.occurrence ∉ putBack) →
    ∀ t, clock ≤ t → a.Due r t → ∀ dispatch, r.Wanted dispatch t
  served : a.snapshot.state = .waiting → ∀ t, clock ≤ t → a.availableAt ≤ t → r.Open t →
    r.Wanted true t

theorem Watched.mono (watched : Watched clock putBack r a) (later : clock ≤ clock')
    (more : putBack ⊆ putBack') : Watched clock' putBack' r a where
  updated := watched.updated.trans later
  due := fun promised t come =>
    watched.due (fun waiting mem => promised waiting (more mem)) t (later.trans come)
  served := fun waiting t come => watched.served waiting t (later.trans come)

theorem watched_of_woken (updated : a.snapshot.updatedAt ≤ clock) (woken : r.Woken clock) :
    Watched clock putBack r a where
  updated := updated
  due := fun _ _ come _ dispatch => woken.wanted come dispatch
  served := fun _ _ come _ _ => woken.wanted come true

theorem SameDue.dueTimes (same : a.SameDue a') : a'.dueTimes r t = a.dueTimes r t := by
  simp only [TaskAdmissionRequest.dueTimes, same.snapshot, same.checkAt, same.availableAt]

theorem Watched.sameDue (watched : Watched clock putBack r a) (same : a.SameDue a') :
    Watched clock putBack r a' where
  updated := same.snapshot ▸ watched.updated
  due := fun promised t come due => watched.due
    (by simpa only [occurrence, same.snapshot] using promised) t come
    (by rwa [Due, same.dueTimes] at due)
  served := fun waiting t come available =>
    watched.served (same.snapshot ▸ waiting) t come (same.availableAt ▸ available)

/-- A request that is put back while it waits is still served when capacity comes. -/
theorem Watched.parked (watched : Watched clock putBack r a) (back : a.PutBack a')
    (recorded : a.occurrence ∈ putBack) : Watched clock putBack r a' where
  updated := back.snapshot ▸ watched.updated
  due := by
    intro promised
    rw [occurrence, back.snapshot] at promised
    exact absurd recorded (promised back.waiting)
  served := fun _ t come available =>
    watched.served back.waiting t come (back.later.trans available)

end TaskAdmissionRequest

@[simp] theorem check_eq_ok {α : Type} {x : Result α} {a : α} : check x = .ok a ↔ x = .ok a := by
  cases x with
  | error e => simp [check, Except.mapError]
  | ok b => simp [check, Except.mapError]

theorem Resource.refill_eq_ok {r r' : Resource} {t : Nat} (refilled : r.refill t = .ok r') :
    (r.record.policy.rate = none ∧ r' = { r with highWater := max r.highWater t }) ∨
      ∃ rate credit, r.record.policy.rate = some rate ∧ r.credit = some credit ∧
        r'.bucket = some ((AdmissionBucket.mk credit r.highWater).refilled rate t) ∧
        r' = { r with credit := r'.credit, highWater := r'.highWater } := by
  cases limited : r.record.policy.rate with
  | none =>
    obtain rfl := by simpa [refill, limited] using refilled
    exact .inl ⟨rfl, rfl⟩
  | some rate =>
    simp only [refill, limited, bind_eq_ok, okOr_eq_ok, pure_eq_ok] at refilled
    obtain ⟨credit, funded, b, accepted, rfl⟩ := refilled
    obtain ⟨-, -, rfl⟩ := refillAdmissionBucket_eq_ok.mp (check_eq_ok.mp accepted)
    exact .inr ⟨rate, credit, rfl, funded, rfl, rfl⟩

namespace Ledger
variable {l l' : Ledger} {r r' : Resource} {clock now t : Nat}
variable {putBack : List TaskAdmissionOccurrence}

structure Timed (clock : Nat) (l : Ledger) (r : Resource) : Prop where
  highWater : r.highWater ≤ clock
  updated : ∀ a ∈ l.requests, a.snapshot.updatedAt ≤ clock
  updatedTasks : ∀ a ∈ l.taskRequests, a.snapshot.updatedAt ≤ clock

structure Attended (clock : Nat) (putBack : List TaskAdmissionOccurrence) (l : Ledger)
    (r : Resource) : Prop where
  highWater : r.highWater ≤ clock
  requests : ∀ a ∈ l.requests, a.Watched clock r
  taskRequests : ∀ a ∈ l.taskRequests, a.Watched clock putBack r

theorem Attended.timed (attended : Attended clock putBack l r) : Timed clock l r where
  highWater := attended.highWater
  updated := fun a mem => (attended.requests a mem).updated
  updatedTasks := fun a mem => (attended.taskRequests a mem).updated

theorem Attended.mono {clock' : Nat} {putBack' : List TaskAdmissionOccurrence}
    (attended : Attended clock putBack l r) (later : clock ≤ clock') (more : putBack ⊆ putBack') :
    Attended clock' putBack' l r where
  highWater := attended.highWater.trans later
  requests := fun a mem => (attended.requests a mem).mono later
  taskRequests := fun a mem => (attended.taskRequests a mem).mono later more

theorem Timed.attended (timed : Timed clock l r) (woken : r.Woken clock) :
    Attended clock putBack l r where
  highWater := timed.highWater
  requests := fun a mem =>
    AdmissionRequest.watched_of_woken (timed.updated a mem) woken
  taskRequests := fun a mem =>
    TaskAdmissionRequest.watched_of_woken (timed.updatedTasks a mem) woken

end Ledger
end Ledgence
