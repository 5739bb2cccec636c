import Ledgence.Ledger.Transactions
import Ledgence.Runs.TaskRun

/-! The counters of a resource are those of its requests, in every state that transactions reach. -/
open Kit Kit.Checked

namespace Ledgence

namespace Resource
variable {r r' : Resource} {c c' : Charge} {charges rest : List Charge}

structure Balanced (r : Resource) (charges : List Charge) : Prop where
  offered : r.offered = charges.countP (Charge.offersAt r.revision)
  started : r.started = charges.countP Charge.running
  unknown : r.unknown = charges.countP Charge.lost
  current : ∀ k, Charge.offered k ∈ charges → k ≤ r.revision
  covered : r.Covered

theorem Balanced.perm (balanced : r.Balanced charges) (perm : charges.Perm rest) :
    r.Balanced rest where
  offered := balanced.offered.trans (perm.countP_eq _)
  started := balanced.started.trans (perm.countP_eq _)
  unknown := balanced.unknown.trans (perm.countP_eq _)
  current := fun k mem => balanced.current k (perm.mem_iff.mpr mem)
  covered := balanced.covered

theorem Balanced.holds (balanced : r.Balanced charges) (mem : c ∈ charges) : r.Holds c := by
  refine ⟨⟨fun h => ?_, fun h => ?_, fun h => ?_⟩, balanced.covered⟩
  · rw [balanced.offered]
    exact List.countP_pos_iff.mpr ⟨c, mem, h⟩
  · rw [balanced.started]
    exact List.countP_pos_iff.mpr ⟨c, mem, h⟩
  · rw [balanced.unknown]
    exact List.countP_pos_iff.mpr ⟨c, mem, h⟩

theorem Balanced.moved (balanced : r.Balanced (c :: rest)) (moved : r.Moved c r' c') :
    r'.Balanced (c' :: rest) := by
  have revision := moved.revision
  constructor
  case offered =>
    have before := balanced.offered
    have change := moved.offered
    rw [List.countP_cons] at before ⊢
    rw [revision]
    omega
  case started =>
    have before := balanced.started
    have change := moved.started
    rw [List.countP_cons] at before ⊢
    omega
  case unknown =>
    have before := balanced.unknown
    have change := moved.unknown
    rw [List.countP_cons] at before ⊢
    omega
  case current =>
    intro k mem
    rw [revision]
    obtain same | mem := List.mem_cons.mp mem
    · obtain rfl | old := moved.current k same.symm
      · exact le_refl _
      · exact balanced.current k (by simp [old])
    · exact balanced.current k (by simp [mem])
  case covered => exact moved.covered balanced.covered

theorem Balanced.added (balanced : r.Balanced charges) : r.Balanced (.free :: charges) where
  offered := balanced.offered
  started := balanced.started
  unknown := balanced.unknown
  current := fun k mem => balanced.current k (by simpa using mem)
  covered := balanced.covered

theorem Balanced.same (balanced : r.Balanced charges) (moved : r.Moved .free r' .free) :
    r'.Balanced charges := by
  have next := balanced.added.moved moved
  exact ⟨next.offered, next.started, next.unknown, fun k mem => next.current k (by simp [mem]),
    next.covered⟩

theorem Balanced.unknown_le (balanced : r.Balanced charges) : r.unknown ≤ r.started := by
  rw [balanced.unknown, balanced.started]
  refine List.countP_mono_left fun c _ lost => ?_
  cases c <;> simp_all [Charge.lost, Charge.running]

theorem Balanced.validate (balanced : r.Balanced charges) :
    Ensures Fault.Accounting r.validate fun _ => True := by
  have enough := balanced.unknown_le
  simp only [Resource.validate, ensures_bind, ensures_check, ensures_refuse]
  exact fun _ _ _ _ => ⟨fun bad => by omega, fun _ => trivial⟩

theorem Balanced.row (balanced : r.Balanced charges) :
    Ensures Fault.Accounting r.row fun r' => r' = r := by
  simp only [Resource.row, ensures_bind, ensures_check, ensures_refuse, ensures_pure]
  refine fun _ _ => ⟨fun _ => accounting_refused _, fun _ => ?_⟩
  exact balanced.validate.mono fun _ _ => trivial

theorem ensures_storedTime {o : Option Nat} :
    Ensures Fault.Accounting (ifSome o fun t => check (storedTime t)) fun _ => True := by
  cases o with
  | none => trivial
  | some t =>
    simp only [ifSome, ensures_check]
    exact fun _ _ => trivial

theorem Balanced.save (balanced : r.Balanced charges) :
    Ensures Fault.Accounting r.save fun r' => r' = r := by
  simp only [Resource.save, ensures_bind, ensures_check, ensures_pure]
  refine balanced.validate.mono fun _ _ _ _ => ?_
  exact ensures_storedTime.mono fun _ _ => ensures_storedTime.mono fun _ _ => trivial

theorem created_balanced (c : ResourcePutCommand) (now : Nat) : (created c now).Balanced [] where
  offered := rfl
  started := rfl
  unknown := rfl
  current := fun _ mem => by simp at mem
  covered := by
    refine ⟨fun rate limited => ⟨rate.capacity, ?_, ?_⟩, fun positive => absurd positive (by simp [created])⟩
    · simp only [created] at limited ⊢
      simp [limited]
    · simp [created]

theorem changeAdmissionRate_some {bucket : Option AdmissionBucket} {old new : Option ResourceRate}
    {now : Nat} {next : Option AdmissionBucket} {rate : ResourceRate}
    (changed : changeAdmissionRate bucket old new now = .ok next) (limited : new = some rate) :
    ∃ b, next = some b := by
  subst limited
  cases bucket with
  | none =>
    cases old with
    | none =>
      simp only [changeAdmissionRate, bind_eq_ok, exists_unit, pure_eq_ok, exists_eq_left'] at changed
      exact ⟨_, changed.2.2.symm⟩
    | some old => simp [changeAdmissionRate] at changed
  | some bucket =>
    cases old with
    | none => simp [changeAdmissionRate] at changed
    | some old =>
      simp only [changeAdmissionRate, bind_eq_ok, exists_unit, pure_eq_ok, exists_eq_left'] at changed
      obtain ⟨-, refilled, -, -, -, next⟩ := changed
      exact ⟨_, next.symm⟩

theorem Balanced.changed (balanced : r.Balanced charges) (c : ResourcePutCommand) (now : Nat) :
    Ensures Fault.Accounting (r.changed c now) fun r' => r'.Balanced charges := by
  simp only [Resource.changed, ensures_bind, ensures_check, ensures_pure]
  intro bucket accepted
  constructor
  case offered =>
    refine (List.countP_eq_zero.mpr fun c mem offers => ?_).symm
    cases c with
    | offered k =>
      have old := balanced.current k mem
      simp only [Charge.offersAt, wake, revision, beq_iff_eq] at offers
      simp only [revision] at old
      omega
    | free | started | unknown => simp [Charge.offersAt] at offers
  case started => exact balanced.started
  case unknown => exact balanced.unknown
  case current => exact fun k mem => (balanced.current k mem).trans (Nat.le_succ _)
  case covered =>
    refine ⟨fun rate limited => ?_, fun positive => absurd positive (by simp [wake])⟩
    obtain ⟨b, rfl⟩ := changeAdmissionRate_some accepted limited
    exact ⟨b.credit, rfl, by simp [wake]⟩

end Resource

def AdmissionRequest.isOfferedAt (revision : Nat) (a : AdmissionRequest) : Bool :=
  a.snapshot.state = .offered && a.snapshot.offer.any fun offer => offer.policyRevision = revision

def AdmissionRequest.isOccupying (a : AdmissionRequest) : Bool :=
  a.snapshot.state = .possiblyDispatched || a.snapshot.state = .unknownOccupied

def AdmissionRequest.isUnknown (a : AdmissionRequest) : Bool :=
  a.snapshot.state = .unknownOccupied

def TaskAdmissionRequest.isOfferedAt (revision : Nat) (a : TaskAdmissionRequest) : Bool :=
  (a.snapshot.state = .offered || a.snapshot.state = .preparing) &&
    a.snapshot.offer.any fun offer => offer.policyRevision = revision

def TaskAdmissionRequest.isUnknown (a : TaskAdmissionRequest) : Bool :=
  a.snapshot.state = .unknownOccupied

theorem AdmissionRequest.charge_counts (a : AdmissionRequest) (revision : Nat) :
    a.charge.offersAt revision = a.isOfferedAt revision ∧ a.charge.running = a.isOccupying ∧
      a.charge.lost = a.isUnknown := by
  unfold AdmissionRequest.charge isOfferedAt isOccupying isUnknown
  cases a.snapshot.state <;> cases a.snapshot.offer <;>
    simp [Charge.offersAt, Charge.running, Charge.lost, Bool.beq_eq_decide_eq]

theorem TaskAdmissionRequest.charge_counts (a : TaskAdmissionRequest) (revision : Nat) :
    a.charge.offersAt revision = a.isOfferedAt revision ∧ a.charge.running = a.isOccupying ∧
      a.charge.lost = a.isUnknown := by
  unfold TaskAdmissionRequest.charge isOfferedAt isOccupying isUnknown
  cases a.snapshot.state <;> cases a.snapshot.offer <;>
    simp [Charge.offersAt, Charge.running, Charge.lost, Bool.beq_eq_decide_eq]

namespace Ledger
variable {l : Ledger} {r r' : Resource}

def charges (l : Ledger) : List Charge :=
  l.requests.map AdmissionRequest.charge ++ l.taskRequests.map TaskAdmissionRequest.charge

/-- One row a request, and a resource row that counts them. -/
structure Sound (l : Ledger) : Prop where
  unique : Table.Unique AdmissionRequest.occurrence l.requests
  uniqueTasks : Table.Unique TaskAdmissionRequest.occurrence l.taskRequests
  balanced : ∀ r, l.resource = some r → r.Balanced l.charges
  empty : l.resource = none → l.requests = [] ∧ l.taskRequests = []

theorem sound_init : Sound init where
  unique := List.nodup_nil
  uniqueTasks := List.nodup_nil
  balanced := fun _ some' => by simp [init] at some'
  empty := fun _ => ⟨rfl, rfl⟩

theorem Sound.lock (sound : Sound l) :
    Ensures Fault.Accounting l.lock fun r => l.resource = some r ∧ r.Balanced l.charges := by
  simp only [Ledger.lock, ensures_bind, ensures_okOr]
  refine ⟨fun _ => accounting_refused _, fun r stored => ?_⟩
  have balanced := sound.balanced r stored
  refine balanced.row.mono fun r' same => ?_
  rw [same]
  exact ⟨stored, balanced⟩

theorem Sound.lockNamed (sound : Sound l) (name : String) :
    Ensures Fault.Accounting (l.lockNamed name) fun r =>
      l.resource = some r ∧ r.Balanced l.charges := by
  simp only [Ledger.lockNamed, ensures_bind, ensures_okOr]
  refine ⟨fun _ => accounting_refused _, fun r named => ?_⟩
  have stored : l.resource = some r := (Option.filter_eq_some_iff.mp named).1
  have balanced := sound.balanced r stored
  refine balanced.row.mono fun r' same => ?_
  rw [same]
  exact ⟨stored, balanced⟩

theorem request_spec (l : Ledger) (o : AdmissionOccurrence) :
    Ensures Fault.Accounting (l.request o) fun a =>
      a ∈ l.requests ∧ a.occurrence = o ∧ a.snapshot.Consistent := by
  simp only [request, ensures_bind, ensures_okOr, ensures_check, ensures_pure]
  refine ⟨fun _ => accounting_refused _, fun a found _ valid => ?_⟩
  exact ⟨Table.find_mem found, Table.find_key found, AdmissionSnapshot.consistent_of_validate valid⟩

theorem taskRequest_spec (l : Ledger) (o : TaskAdmissionOccurrence) :
    Ensures Fault.Accounting (l.taskRequest o) fun a =>
      a ∈ l.taskRequests ∧ a.occurrence = o ∧ a.snapshot.Consistent := by
  simp only [taskRequest, ensures_bind, ensures_okOr, ensures_check, ensures_pure]
  refine ⟨fun _ => accounting_refused _, fun a found _ valid => ?_⟩
  exact ⟨Table.find_mem found, Table.find_key found,
    TaskAdmissionSnapshot.consistent_of_validate valid⟩

theorem held_of_mem {a : AdmissionRequest} (balanced : r.Balanced l.charges) (mem : a ∈ l.requests)
    (consistent : a.snapshot.Consistent) : a.Held r :=
  ⟨consistent, balanced.holds (List.mem_append_left _ (List.mem_map_of_mem mem))⟩

theorem held_of_mem_task {a : TaskAdmissionRequest} (balanced : r.Balanced l.charges)
    (mem : a ∈ l.taskRequests) (consistent : a.snapshot.Consistent) : a.Held r :=
  ⟨consistent, balanced.holds (List.mem_append_right _ (List.mem_map_of_mem mem))⟩

structure Pending (l : Ledger) (r : Resource) : Prop where
  unique : Table.Unique AdmissionRequest.occurrence l.requests
  uniqueTasks : Table.Unique TaskAdmissionRequest.occurrence l.taskRequests
  balanced : r.Balanced l.charges

theorem Sound.pending (sound : Sound l) (balanced : r.Balanced l.charges) : Pending l r :=
  ⟨sound.unique, sound.uniqueTasks, balanced⟩

theorem Pending.saveResource (pending : Pending l r) :
    Ensures Fault.Accounting (l.saveResource r) Sound := by
  simp only [Ledger.saveResource, ensures_bind, ensures_pure]
  refine pending.balanced.save.mono fun r' same => ?_
  subst same
  refine ⟨pending.unique, pending.uniqueTasks, fun r some' => ?_, fun none' => by simp at none'⟩
  obtain rfl : r' = r := by simpa using some'
  exact pending.balanced

theorem Pending.moved (pending : Pending l r) (moved : r.Moved .free r' .free) : Pending l r' :=
  ⟨pending.unique, pending.uniqueTasks, pending.balanced.same moved⟩

theorem Pending.saveRequest {a a' : AdmissionRequest} (pending : Pending l r) (mem : a ∈ l.requests)
    (step : a.Step r a' r') :
    Ensures Fault.Accounting (l.saveRequest a') fun l' => Pending l' r' := by
  simp only [Ledger.saveRequest, ensures_bind, ensures_wellFormed, ensures_pure]
  intro _ _
  obtain ⟨before, after, rows, rows'⟩ :=
    Table.exists_split_put pending.unique mem step.occurrence.symm
  refine ⟨Table.unique_put pending.unique, pending.uniqueTasks, ?_⟩
  have balanced := pending.balanced
  rw [charges, rows] at balanced
  simp only [charges, rows', List.map_append, List.map_cons, List.append_assoc,
    List.cons_append] at balanced ⊢
  exact ((balanced.perm List.perm_middle).moved step.moved).perm List.perm_middle.symm

theorem Pending.saveTaskRequest {a a' : TaskAdmissionRequest} (pending : Pending l r)
    (mem : a ∈ l.taskRequests) (step : a.Step r a' r') :
    Ensures Fault.Accounting (l.saveTaskRequest a') fun l' => Pending l' r' := by
  simp only [Ledger.saveTaskRequest, ensures_bind, ensures_wellFormed, ensures_pure]
  intro _ _
  obtain ⟨before, after, rows, rows'⟩ :=
    Table.exists_split_put pending.uniqueTasks mem step.occurrence.symm
  refine ⟨pending.unique, Table.unique_put pending.uniqueTasks, ?_⟩
  have balanced := pending.balanced
  rw [charges, rows] at balanced
  simp only [charges, rows', List.map_append, List.map_cons, ← List.append_assoc] at balanced ⊢
  exact ((balanced.perm List.perm_middle).moved step.moved).perm List.perm_middle.symm

theorem Sound.onRequest (sound : Sound l) {o : AdmissionOccurrence}
    {op : AdmissionRequest → Resource → Outcome (AdmissionRequest × Resource)}
    (spec : ∀ a r, a.Held r → Ensures Fault.Accounting (op a r) fun p => a.Step r p.1 p.2) :
    Ensures Fault.Accounting (l.onRequest o op) Sound := by
  simp only [Ledger.onRequest, ensures_bind]
  refine sound.lock.mono fun r locked => (request_spec l o).mono fun a found => ?_
  obtain ⟨-, balanced⟩ := locked
  obtain ⟨mem, -, consistent⟩ := found
  refine (spec a r (held_of_mem balanced mem consistent)).mono fun p step => ?_
  refine ((sound.pending balanced).saveRequest mem step).mono fun l' pending => ?_
  exact pending.saveResource

theorem Sound.onTask {α : Type} (sound : Sound l) (balanced : r.Balanced l.charges)
    {o : TaskAdmissionOccurrence}
    {op : TaskAdmissionRequest → Resource → Outcome (TaskAdmissionRequest × Resource × α)}
    (spec : ∀ a r, a.Held r → Ensures Fault.Accounting (op a r) fun p => a.Step r p.1 p.2.1) :
    Ensures Fault.Accounting (l.onTask r o op) fun p => Sound p.1 := by
  simp only [Ledger.onTask, ensures_bind, ensures_pure]
  refine (taskRequest_spec l o).mono fun a found => ?_
  obtain ⟨mem, -, consistent⟩ := found
  refine (spec a r (held_of_mem_task balanced mem consistent)).mono fun p step => ?_
  refine ((sound.pending balanced).saveTaskRequest mem step).mono fun l' pending => ?_
  exact pending.saveResource.mono fun l'' sound' => sound'

theorem Pending.refreshDue (pending : Pending l r) (now : Nat) :
    Ensures Fault.Accounting (l.refreshDue r now) fun r' => Pending l r' := by
  have due (quarantinedDue due : Option Nat) : Pending l { r with quarantinedDue, due } :=
    pending.moved (.of_same rfl rfl rfl rfl rfl)
  simp only [Ledger.refreshDue, ensures_ite, ensures_bind, ensures_check, ensures_ok, ensures_pure]
  refine ⟨fun _ capacity _ => ⟨fun _ => due _ _, fun _ _ _ => due _ _⟩, fun _ => due _ _⟩

theorem Pending.settle (pending : Pending l r) (now : Nat) :
    Ensures Fault.Accounting (l.settle r now) Sound := by
  simp only [Ledger.settle, ensures_bind]
  exact (pending.refreshDue now).mono fun r' settled => settled.saveResource

theorem Pending.postpone (pending : Pending l r) (at' : Nat) :
    Ensures Fault.Accounting (l.postpone r at') Sound :=
  (pending.moved (Resource.moved_wake at')).saveResource

theorem Pending.refill (pending : Pending l r) (now : Nat) :
    Ensures Fault.Accounting (r.refill now) fun r' => Pending l r' :=
  (r.refill_spec now).mono fun _ refilled => pending.moved (refilled.1 _)

theorem Sound.tick (sound : Sound l) (candidate : Option AdmissionOccurrence) (x : AdmissionTick) :
    Ensures Fault.Accounting (l.tick candidate x) Sound := by
  simp only [Ledger.tick]
  rw [ensures_bind]
  refine sound.lock.mono fun r locked => ?_
  have pending := sound.pending locked.2
  rw [ensures_ite]
  refine ⟨fun _ => pending.postpone _, fun _ => ?_⟩
  rw [ensures_bind]
  refine (pending.refill x.now).mono fun r' refilled => ?_
  cases candidate with
  | none => exact refilled.settle x.now
  | some o =>
    simp only
    rw [ensures_bind]
    refine (request_spec l o).mono fun a found => ?_
    obtain ⟨mem, -, consistent⟩ := found
    rw [ensures_ite]
    refine ⟨fun _ => refilled.postpone _, fun _ => ?_⟩
    simp only [ensures_bind]
    have held := held_of_mem refilled.balanced mem consistent
    refine (AdmissionRequest.tick_spec held).mono fun p step => ?_
    exact (refilled.saveRequest mem step).mono fun l' saved => saved.settle x.now

theorem Sound.taskTick (sound : Sound l) (o : TaskAdmissionOccurrence)
    (x : TaskAdmissionRequest.TickContext) :
    Ensures Fault.Accounting (l.taskTick o x) Sound := by
  simp only [Ledger.taskTick]
  rw [ensures_bind]
  refine sound.lock.mono fun r locked => ?_
  have pending := sound.pending locked.2
  rw [ensures_bind]
  refine (taskRequest_spec l o).mono fun a found => ?_
  obtain ⟨mem, -, consistent⟩ := found
  rw [ensures_ite]
  refine ⟨fun _ => pending.postpone _, fun _ => ?_⟩
  simp only [ensures_bind]
  have held := held_of_mem_task pending.balanced mem consistent
  refine (TaskAdmissionRequest.tick_spec held).mono fun p step => ?_
  exact (pending.saveTaskRequest mem step).mono fun l' saved => saved.settle x.now

theorem charge_reclassified (short : AdmissionOccurrence → Option Nat) (a : AdmissionRequest) :
    (a.reclassified short).charge = a.charge ∧ (a.reclassified short).occurrence = a.occurrence := by
  unfold AdmissionRequest.reclassified
  split <;> exact ⟨rfl, rfl⟩

theorem Pending.reclassified (pending : Pending l r) (short : AdmissionOccurrence → Option Nat) :
    Pending { l with requests := l.requests.map (·.reclassified short) } r := by
  have charge : (l.requests.map (·.reclassified short)).map AdmissionRequest.charge =
      l.requests.map AdmissionRequest.charge := by
    rw [List.map_map]
    exact List.map_congr_left fun a _ => (charge_reclassified short a).1
  have occurrence : (l.requests.map (·.reclassified short)).map AdmissionRequest.occurrence =
      l.requests.map AdmissionRequest.occurrence := by
    rw [List.map_map]
    exact List.map_congr_left fun a _ => (charge_reclassified short a).2
  refine ⟨?_, pending.uniqueTasks, ?_⟩
  · rw [Table.Unique, occurrence]
    exact pending.unique
  · rw [charges, charge]
    exact pending.balanced

theorem Sound.putResource (sound : Sound l) (c : ResourcePutCommand)
    (short : AdmissionOccurrence → Option Nat) (now : Nat) :
    Ensures Fault.Accounting (l.putResource c short now) Sound := by
  simp only [Ledger.putResource]
  rw [ensures_bind, ensures_check]
  intro _ _
  cases stored : l.resource with
  | none =>
    obtain ⟨noRequests, noTasks⟩ := sound.empty stored
    have pending : Pending l (Resource.created c now) := by
      refine ⟨sound.unique, sound.uniqueTasks, ?_⟩
      rw [charges, noRequests, noTasks]
      exact Resource.created_balanced c now
    simp only [ensures_bind, ensures_refuse]
    refine ⟨fun _ => accounting_refused _, fun _ => ?_⟩
    exact (pending.refill now).mono fun r refilled => refilled.saveResource
  | some old =>
    have balanced := sound.balanced old stored
    simp only [ensures_bind, ensures_refuse]
    refine balanced.row.mono fun old' same => ⟨fun _ => accounting_refused _, fun _ => ?_⟩
    rw [same]
    refine (balanced.changed c now).mono fun r changed => ?_
    have pending := sound.pending changed
    refine pending.saveResource.mono fun _ _ => ?_
    refine (pending.refill now).mono fun r' refilled => ?_
    split
    · exact (refilled.reclassified short).saveResource
    · exact refilled.saveResource

theorem Pending.appended {a a' : AdmissionRequest} (pending : Pending l r)
    (absent : ∀ b ∈ l.requests, b.occurrence ≠ a'.occurrence) (free : a.charge = .free)
    (step : a.Step r a' r') : Pending { l with requests := l.requests ++ [a'] } r' := by
  refine ⟨Table.unique_append pending.unique absent, pending.uniqueTasks, ?_⟩
  have balanced := pending.balanced.added.moved (free ▸ step.moved)
  simp only [charges, List.map_append, List.map_cons, List.map_nil, List.append_assoc,
    List.cons_append, List.nil_append] at balanced ⊢
  exact balanced.perm List.perm_middle.symm

theorem Pending.appendedTask {a : TaskAdmissionRequest} (pending : Pending l r)
    (absent : ∀ b ∈ l.taskRequests, b.occurrence ≠ a.occurrence) (free : a.charge = .free) :
    Pending { l with taskRequests := l.taskRequests ++ [a] } r := by
  refine ⟨pending.unique, Table.unique_append pending.uniqueTasks absent, ?_⟩
  have balanced := pending.balanced.added
  simp only [charges, List.map_append, List.map_cons, List.map_nil, free,
    ← List.append_assoc] at balanced ⊢
  exact balanced.perm (List.perm_append_singleton _ _).symm

theorem Sound.installNew (sound : Sound l) {o : AdmissionOccurrence} {binding : AdmissionBinding}
    {parking resumed : String} {timeoutMs now : Nat} :
    Ensures Fault.Accounting (l.installNew o binding parking resumed timeoutMs now) Sound := by
  simp only [Ledger.installNew, ensures_bind, ensures_okOr, ensures_check, ensures_refuse,
    ensures_wellFormed]
  refine sound.lock.mono fun r locked => ?_
  refine ((sound.pending locked.2).refill now).mono fun r₁ refilled => ?_
  refine ⟨fun _ => accounting_refused _, fun until' _ _ valid => ⟨fun _ => accounting_refused _, ?_⟩⟩
  intro absent
  have held : (AdmissionRequest.registered o binding parking now until').Held r₁ := by
    refine ⟨AdmissionSnapshot.consistent_of_validate valid, ?_⟩
    exact ⟨⟨fun h => by simp [AdmissionRequest.charge, AdmissionRequest.registered,
        Charge.offersAt] at h,
      fun h => by simp [AdmissionRequest.charge, AdmissionRequest.registered, Charge.running] at h,
      fun h => by simp [AdmissionRequest.charge, AdmissionRequest.registered, Charge.lost] at h⟩,
      refilled.balanced.covered⟩
  refine (AdmissionRequest.installEpisode_spec held).mono fun p step _ _ => ?_
  refine (refilled.appended (fun b mem same => absent ?_) rfl step).saveResource
  rw [show o = b.occurrence from (same.trans step.occurrence).symm]
  exact List.mem_map_of_mem mem

theorem Sound.installExisting (sound : Sound l) {o : AdmissionOccurrence}
    {parking resumed : String} {timeoutMs now : Nat} :
    Ensures Fault.Accounting (l.installExisting o parking resumed timeoutMs now) Sound := by
  refine sound.onRequest fun a r held => ?_
  simp only [ensures_bind, ensures_okOr]
  refine (held.same.refilled now).mono fun r₁ first => ⟨fun _ => accounting_refused _, ?_⟩
  intro until' _
  refine (AdmissionRequest.rewait_spec (first.held held)).mono fun p second => ?_
  have here := second.held (first.held held)
  exact (AdmissionRequest.installEpisode_spec here).mono fun q third =>
    (first.trans second).trans third

theorem Sound.drain (sound : Sound l) (os : List AdmissionOccurrence) (now : Nat) :
    Ensures Fault.Accounting (l.drain os now) Sound :=
  ensures_foldlM (fun _ _ _ here => here.onRequest fun _ _ held =>
    AdmissionRequest.closeParked_spec held now) sound

theorem nextOccurrence_spec (task : TaskSnapshot) :
    Ensures Fault.Accounting (nextOccurrence task) fun o =>
      o = ⟨task.scope, task.taskId, task.attemptCount + 1⟩ := by
  simp only [nextOccurrence, ensures_bind, ensures_refuse, ensures_pure]
  exact ⟨fun _ => accounting_refused _, fun _ => trivial⟩

theorem Sound.register (sound : Sound l) (task : TaskSnapshot) (now : Nat) :
    Ensures Fault.Accounting (l.register task now) Sound := by
  unfold Ledger.register
  split
  · exact sound
  · simp only [ensures_bind, ensures_refuse, ensures_check]
    refine ⟨fun _ => accounting_refused _, fun _ => ?_⟩
    refine (nextOccurrence_spec task).mono fun o next => ?_
    refine (sound.lockNamed _).mono fun r locked _ _ => ⟨fun _ => accounting_refused _, ?_⟩
    intro absent
    have pending := sound.pending locked.2
    refine Pending.saveResource (Pending.moved (pending.appendedTask ?_ rfl)
      (Resource.moved_wake _))
    intro b mem same
    refine absent ?_
    rw [next]
    exact List.mem_map.mpr ⟨b, mem, same⟩

theorem Sound.applyToRequest (sound : Sound l) (w : TaskWrites) (resource : String) (at' : Nat)
    (x : ApplyClock) :
    Ensures Fault.Accounting (l.applyToRequest w resource at' x) Sound := by
  unfold Ledger.applyToRequest
  split
  · simp only [ensures_bind, ensures_pure]
    refine (sound.lockNamed resource).mono fun r locked => ?_
    refine sound.onTask locked.2 fun a r held => ?_
    simp only [ensures_bind, ensures_pure]
    exact TaskAdmissionRequest.settleAttempt_spec held _
  · simp only [ensures_ite, ensures_bind, ensures_pure, ensures_ok]
    refine ⟨fun _ => (nextOccurrence_spec w.task).mono fun o _ => ?_, fun _ => sound⟩
    refine (sound.lockNamed resource).mono fun r locked => ?_
    refine sound.onTask locked.2 fun a r held => ?_
    simp only [ensures_bind, ensures_pure]
    exact TaskAdmissionRequest.closeUnassigned_spec held _

theorem Sound.applyTransition (sound : Sound l) (w : TaskWrites) (x : ApplyClock) :
    Ensures Fault.Accounting (l.applyTransition w x) Sound := by
  unfold Ledger.applyTransition
  split
  · exact sound
  · exact sound
  · simp only [ensures_ite, ensures_ok, ensures_bind, ensures_pure]
    refine ⟨fun _ => sound, fun _ => (sound.applyToRequest w _ _ x).mono fun l' here => ?_⟩
    exact ⟨fun _ => here.register _ _, fun _ => here⟩

theorem Sound.applyWrites (sound : Sound l) (writes : Option TaskWrites) (x : ApplyClock) :
    Ensures Fault.Accounting (l.applyWrites writes x) Sound := by
  cases writes with
  | none => exact sound
  | some w => exact sound.applyTransition w x

theorem Sound.startTask (sound : Sound l) {c : TaskAdmissionStartCommand} {x : TaskStartContext}
    {clock : ApplyClock} : Ensures Fault.Accounting (l.startTask c x clock) Sound := by
  simp only [Ledger.startTask, ensures_bind]
  refine sound.lock.mono fun r locked => ?_
  refine (sound.onTask locked.2 fun a r held => ?_).mono fun p here => here.applyWrites _ _
  simp only [ensures_bind, ensures_pure]
  exact TaskAdmissionRequest.startTask_spec held

theorem Sound.closeTask (sound : Sound l) {c : TaskAdmissionCloseCommand}
    {x : TaskAdmissionRequest.CloseContext} {clock : ApplyClock} :
    Ensures Fault.Accounting (l.closeTask c x clock) Sound := by
  simp only [Ledger.closeTask, ensures_bind]
  refine sound.lock.mono fun r locked => ?_
  refine (sound.onTask locked.2 fun a r held => ?_).mono fun p here => here.applyWrites _ _
  simp only [ensures_bind, ensures_pure]
  exact TaskAdmissionRequest.closeTask_spec held

theorem Sound.releaseTask (sound : Sound l) {o : TaskAdmissionOccurrence} {sourceId : String}
    {expectedRevision sampled : Nat} :
    Ensures Fault.Accounting (l.releaseTask o sourceId expectedRevision sampled) Sound := by
  simp only [Ledger.releaseTask, ensures_bind, ensures_pure]
  refine sound.lock.mono fun r locked => sound.onTask locked.2 fun a r held => ?_
  simp only [ensures_bind, ensures_pure]
  exact TaskAdmissionRequest.releaseTask_spec held sampled

theorem Sound.validateCandidate (sound : Sound l) {task : TaskSnapshot} {dispatchEnabled : Bool}
    {now : Nat} : Ensures Fault.Accounting (l.validateCandidate task dispatchEnabled now) Sound := by
  unfold Ledger.validateCandidate
  split
  · exact sound
  · simp only [ensures_bind, ensures_pure]
    refine (nextOccurrence_spec task).mono fun o _ => (sound.lockNamed _).mono fun r locked => ?_
    exact sound.onTask locked.2 fun a r held => TaskAdmissionRequest.validateCandidate_spec held now

theorem Sound.deferLegacyClaim (sound : Sound l) {task : TaskSnapshot} {sampled : Nat} :
    Ensures Fault.Accounting (l.deferLegacyClaim task sampled) Sound := by
  simp only [Ledger.deferLegacyClaim, ensures_bind, ensures_okOr, ensures_pure]
  refine (nextOccurrence_spec task).mono fun o _ => ⟨fun _ => accounting_refused _, ?_⟩
  refine fun requirement _ => (sound.lockNamed _).mono fun r locked => ?_
  exact sound.onTask locked.2 fun a r held => TaskAdmissionRequest.deferLegacyClaim_spec held sampled

theorem Sound.bindPreparation (sound : Sound l) {task : TaskSnapshot} {attempt : AttemptSnapshot}
    {session : WorkerSession} {now : Nat} :
    Ensures Fault.Accounting (l.bindPreparation task attempt session now) Sound := by
  unfold Ledger.bindPreparation
  split
  · exact sound
  · simp only [ensures_bind, ensures_pure]
    refine (sound.lockNamed _).mono fun r locked => ?_
    exact sound.onTask locked.2 fun a r held => TaskAdmissionRequest.bindPreparation_spec held now

/-- Every transaction keeps the account and none stops because it does not add up. -/
theorem Sound.step (sound : Sound l) (command : LedgerCommand) :
    Ensures Fault.Accounting (l.step command) Sound := by
  cases command with
  | putResource c short now => exact sound.putResource c short now
  | tick candidate x => exact sound.tick candidate x
  | taskTick o x => exact sound.taskTick o x
  | installNew => exact sound.installNew
  | installExisting => exact sound.installExisting
  | applyWait => exact sound.onRequest fun a r held => AdmissionRequest.applyWait_spec held
  | drain os now => exact sound.drain os now
  | start =>
    refine sound.onRequest fun a r held => ?_
    simp only [ensures_bind, ensures_pure]
    exact AdmissionRequest.startAdmission_spec held
  | finish c now =>
    refine sound.onRequest fun a r held => ?_
    simp only [ensures_bind, ensures_pure]
    exact AdmissionRequest.finishAdmission_spec held now
  | startProvider =>
    refine sound.onRequest fun a r held => ?_
    simp only [ensures_bind, ensures_pure]
    exact AdmissionRequest.startProviderAdmission_spec held
  | reportProvider =>
    refine sound.onRequest fun a r held => ?_
    simp only [ensures_bind, ensures_pure]
    exact AdmissionRequest.reportProviderAdmission_spec held
  | inspect o now =>
    refine sound.onRequest fun a r held => ?_
    simp only [ensures_bind, ensures_pure]
    exact AdmissionRequest.invalidateOffer_spec held now
  | release o sourceId expectedRevision now =>
    exact sound.onRequest fun a r held => AdmissionRequest.releaseAdmission_spec held now
  | register task now => exact sound.register task now
  | validateCandidate => exact sound.validateCandidate
  | deferLegacyClaim => exact sound.deferLegacyClaim
  | bindPreparation => exact sound.bindPreparation
  | applyTransition w x => exact sound.applyTransition w x
  | startTask => exact sound.startTask
  | closeTask => exact sound.closeTask
  | releaseTask => exact sound.releaseTask

theorem Reachable.sound (reachable : Reachable l) : Sound l := by
  obtain ⟨commands, runs⟩ := reachable
  have kept : Ensures Fault.Accounting (init.run commands) Sound :=
    ensures_foldlM (fun _ command _ here => here.step command) sound_init
  exact kept.ok runs

theorem countP_charges (l : Ledger) {p : Charge → Bool} {q : AdmissionRequest → Bool}
    {q' : TaskAdmissionRequest → Bool} (same : ∀ a : AdmissionRequest, p a.charge = q a)
    (same' : ∀ a : TaskAdmissionRequest, p a.charge = q' a) :
    l.charges.countP p = l.requests.countP q + l.taskRequests.countP q' := by
  have left : p ∘ AdmissionRequest.charge = q := funext same
  have right : p ∘ TaskAdmissionRequest.charge = q' := funext same'
  rw [charges, List.countP_append, List.countP_map, List.countP_map, left, right]

/-- In every state that transactions on a resource reach, its counters are the numbers of requests
they stand for, and no further transaction can fail for an account that does not add up: no counter
underflows, no offer lacks its occupancy, and no Start lacks its token. -/
theorem resource_counters_never_drift (reachable : Reachable l) :
    (∀ r, l.resource = some r →
      r.offered = l.requests.countP (·.isOfferedAt r.revision) +
        l.taskRequests.countP (·.isOfferedAt r.revision) ∧
      r.started = l.requests.countP (·.isOccupying) + l.taskRequests.countP (·.isOccupying) ∧
      r.unknown = l.requests.countP (·.isUnknown) + l.taskRequests.countP (·.isUnknown) ∧
      (0 < r.offered → r.offered + r.started ≤ r.record.policy.maxOccupancy) ∧
      ∀ rate, r.record.policy.rate = some rate →
        ∃ credit, r.credit = some credit ∧ r.offered * rate.periodMs ≤ credit) ∧
    ∀ command fault, l.step command = .error fault → ¬ fault.Accounting := by
  have sound := reachable.sound
  refine ⟨fun r stored => ?_, fun command fault failed => (sound.step command).error failed⟩
  have balanced := sound.balanced r stored
  refine ⟨?_, ?_, ?_, balanced.covered.room, balanced.covered.funded⟩
  · rw [balanced.offered]
    exact countP_charges l (fun a => (a.charge_counts _).1) fun a => (a.charge_counts _).1
  · rw [balanced.started]
    exact countP_charges l (fun a => (a.charge_counts 0).2.1) fun a => (a.charge_counts 0).2.1
  · rw [balanced.unknown]
    exact countP_charges l (fun a => (a.charge_counts 0).2.2) fun a => (a.charge_counts 0).2.2

/- A resource with one slot and one token a second, and a task that needs it. -/

def samplePolicy : ResourcePolicy :=
  ⟨true, 1, some ⟨1, 1000, 1⟩, 5000, 1000, none⟩

def sampleResourcePut : ResourcePutCommand :=
  ⟨sampleScope, "mailer", "request-1", none, samplePolicy, "first policy"⟩

def sampleGoverned : TaskSnapshot :=
  submittedTask ⟨"key-1", sampleInput (some ⟨"mailer"⟩), none⟩ sampleDescriptor "task-1" "run-1" 1000

def sampleOffer : List LedgerCommand :=
  [.putResource sampleResourcePut (fun _ => none) 1000, .register sampleGoverned 2000,
    .taskTick ⟨sampleScope, "task-1", 1⟩ ⟨true, some sampleGoverned, none, true, 3000⟩]

theorem resource_counters_after_offer :
    ∃ l r, init.run sampleOffer = .ok l ∧ l.resource = some r ∧ r.offered = 1 ∧
      l.taskRequests.countP (·.isOfferedAt r.revision) = 1 ∧
      r.offered + r.started ≤ r.record.policy.maxOccupancy := by
  have ends : ((init.run sampleOffer).toOption.bind Ledger.resource).map Resource.offered = some 1 := by
    decide +kernel
  obtain ⟨r, found, offered⟩ := Option.map_eq_some_iff.mp ends
  obtain ⟨l, ran, stored⟩ := Option.bind_eq_some_iff.mp found
  have runs : init.run sampleOffer = .ok l := by
    cases result : init.run sampleOffer with
    | error fault => simp [result, Except.toOption] at ran
    | ok l' => simpa [result, Except.toOption] using ran
  have counters := (resource_counters_never_drift ⟨sampleOffer, runs⟩).1 r stored
  have tasks : ((init.run sampleOffer).toOption.map Ledger.requests) = some [] := by decide +kernel
  have none' : l.requests = [] := by simpa [ran] using tasks
  refine ⟨l, r, runs, stored, offered, ?_, counters.2.2.2.1 (by omega)⟩
  have total := counters.1
  rw [none', List.countP_nil, Nat.zero_add] at total
  exact total.symm.trans offered

end Ledger
end Ledgence
