import Ledgence.Queues.Coverage

/-! Every transaction on a queue keeps its counters right and its occupants held. -/
open Kit Kit.Checked

namespace Ledgence
namespace Queue
variable {q q' : Queue} {forced forced' : List String} {sampled now : Nat}

structure Sound (forced : List String) (q : Queue) : Prop where
  steady : ∀ s ∈ q.tasks, s.Steady
  tasks : Table.Unique TaskRun.taskId q.tasks
  attempts : Table.Unique AttemptSnapshot.id q.attempts
  accounted : Accounted q
  covered : q.policy ≠ none → ∀ a ∈ q.attempts, CoveredAt forced q.holds a

structure Stepped (forced : List String) (q q' : Queue) : Prop where
  sound : Sound forced q'
  room : ∀ a ∈ q'.attempts, a.id ∈ q.attempts.map AttemptSnapshot.id ∨
    ∀ p, q.policy = some p → ¬ p.full
  final : ∀ h ∈ q.holds, h.state = .released → h ∈ q'.holds

theorem mem_attempts {s : TaskRun} {a : AttemptSnapshot} (mem : s ∈ q.tasks) (here : a ∈ s.attempts) :
    a ∈ q.attempts :=
  List.mem_flatMap.mpr ⟨s, mem, here⟩

theorem attempts_putRun {s t : TaskRun} (unique : Table.Unique TaskRun.taskId q.tasks)
    (mem : s ∈ q.tasks) (same : t.taskId = s.taskId) :
    ∃ before after, q.attempts = before ++ s.attempts ++ after ∧
      (q.putRun t).attempts = before ++ t.attempts ++ after := by
  obtain ⟨before, after, old, new⟩ := Table.exists_split_put unique mem same.symm
  refine ⟨before.flatMap TaskRun.attempts, after.flatMap TaskRun.attempts, ?_, ?_⟩
  · simp [attempts, old]
  · simp [attempts, putRun, new]

theorem attempts_putRun_same {s t : TaskRun} (unique : Table.Unique TaskRun.taskId q.tasks)
    (mem : s ∈ q.tasks) (same : t.taskId = s.taskId) (kept : t.attempts = s.attempts) :
    (q.putRun t).attempts = q.attempts := by
  obtain ⟨before, after, old, new⟩ := attempts_putRun unique mem same
  rw [old, new, kept]

/-- A run that replaces one attempt replaces it among those of the queue. -/
theorem attempts_putRun_put {s t : TaskRun} {a a' : AttemptSnapshot}
    (unique : Table.Unique TaskRun.taskId q.tasks) (ids : Table.Unique AttemptSnapshot.id q.attempts)
    (mem : s ∈ q.tasks) (same : t.taskId = s.taskId) (here : a ∈ s.attempts) (named : a'.id = a.id)
    (replaced : t.attempts = Table.put AttemptSnapshot.id a' s.attempts) :
    (q.putRun t).attempts = Table.put AttemptSnapshot.id a' q.attempts := by
  obtain ⟨before, after, old, new⟩ := attempts_putRun unique mem same
  have apart : (before.map AttemptSnapshot.id ++ (s.attempts.map AttemptSnapshot.id ++
      after.map AttemptSnapshot.id)).Nodup := by
    simpa [Table.Unique, old] using ids
  have here' : a'.id ∈ s.attempts.map AttemptSnapshot.id := named ▸ List.mem_map_of_mem here
  have head : Table.put AttemptSnapshot.id a' before = before :=
    Table.put_of_not_mem fun b mem' e =>
      List.disjoint_of_nodup_append apart (List.mem_map_of_mem mem')
        (e ▸ List.mem_append_left _ here')
  have tail : Table.put AttemptSnapshot.id a' after = after :=
    Table.put_of_not_mem fun b mem' e =>
      List.disjoint_of_nodup_append (List.nodup_append.mp apart).2.1 here'
        (e ▸ List.mem_map_of_mem mem')
  have split : Table.put AttemptSnapshot.id a' (before ++ s.attempts ++ after) =
      Table.put AttemptSnapshot.id a' before ++ Table.put AttemptSnapshot.id a' s.attempts ++
        Table.put AttemptSnapshot.id a' after := by simp [Table.put]
  rw [new, old, split, head, tail, replaced]

theorem steady_putRun {t : TaskRun} (steady : ∀ s ∈ q.tasks, s.Steady) (new : t.Steady) :
    ∀ s ∈ (q.putRun t).tasks, s.Steady := by
  intro s mem
  obtain rfl | ⟨mem, -⟩ := Table.mem_put mem
  · exact new
  · exact steady s mem

section Force

def seized (q q' : Queue) : List String :=
  ((q'.holds.filter fun h => h.state = .released).map QueueHold.attemptId).filter
    fun attemptId => ∀ h ∈ q.holds, h.attemptId = attemptId → h.state ≠ .released

theorem Lowered.attempts (lowered : Lowered q q') :
    q'.attempts.map AttemptSnapshot.id = q.attempts.map AttemptSnapshot.id ∧
      ∀ b ∈ q'.attempts, ∃ a ∈ q.attempts, b.id = a.id ∧ b.state = a.state ∧
        (b.Outstanding ↔ a.Outstanding) := by
  obtain same | ⟨id, at', fenced⟩ := lowered
  · have same : q'.attempts = q.attempts := by simp [Queue.attempts, same]
    rw [same]
    exact ⟨rfl, fun b mem => ⟨b, mem, rfl, rfl, Iff.rfl⟩⟩
  · have fenced : q'.attempts = q.attempts.map fun a => if a.id = id then a.fence at' else a := by
      rw [Queue.attempts, fenced, List.flatMap_map, Queue.attempts, List.map_flatMap]
      rfl
    rw [fenced]
    refine ⟨TaskRun.map_retimed _ id (min · at') _ fun _ _ => rfl, fun b mem => ?_⟩
    obtain ⟨a, stored, rfl⟩ := List.mem_map.mp mem
    obtain ⟨b, rfl, named, -, state, -, outstanding, -⟩ := TaskRun.retimed id (min · at') a
    exact ⟨a, stored, named, state, outstanding⟩

theorem Lowered.tasks (lowered : Lowered q q') (steady : ∀ s ∈ q.tasks, s.Steady)
    (unique : Table.Unique TaskRun.taskId q.tasks) :
    (∀ s ∈ q'.tasks, s.Steady) ∧ Table.Unique TaskRun.taskId q'.tasks := by
  obtain same | ⟨id, at', fenced⟩ := lowered
  · rw [same]
    exact ⟨steady, unique⟩
  · rw [fenced]
    refine ⟨fun s mem => ?_, ?_⟩
    · obtain ⟨s, stored, rfl⟩ := List.mem_map.mp mem
      exact (steady s stored).fence id at'
    · rw [Table.Unique, List.map_map]
      exact unique

/-- Operators, workers and timeouts take holds away, and nothing else gets lost. -/
theorem Sound.forces (sound : Sound forced q) (done : Forced q q') (lowered : Lowered q q') :
    Stepped (forced ++ seized q q') q q' := by
  obtain ⟨ids, origin⟩ := lowered.attempts
  obtain ⟨steady, tasks⟩ := lowered.tasks sound.steady sound.tasks
  refine ⟨⟨steady, tasks, ?attempts, done.accounted, ?covered⟩, ?room, done.final⟩
  case attempts =>
    rw [Table.Unique, ids]
    exact sound.attempts
  case covered =>
    intro enrolled b mem
    have enrolled : q.policy ≠ none := by
      rw [← Option.isSome_iff_ne_none, ← done.enrolled, Option.isSome_iff_ne_none]
      exact enrolled
    obtain ⟨a, stored, named, state, outstanding⟩ := origin b mem
    have covered := sound.covered enrolled a stored
    refine ⟨fun out => ?_, fun active h mem' same uncertain => ?_⟩
    · obtain ⟨h, held, same, released⟩ := covered.held (outstanding.mp out)
      obtain ⟨h', held', same'⟩ := done.kept h held
      refine ⟨h', held', same'.trans (same.trans named.symm), fun ended => ?_⟩
      by_cases before : h.state = .released
      · rw [named]
        exact List.mem_append_left _ (released before)
      · refine List.mem_append_right _ (List.mem_filter.mpr ⟨?_, decide_eq_true ?_⟩)
        · refine List.mem_map.mpr ⟨h', List.mem_filter.mpr ⟨held', decide_eq_true ended⟩, ?_⟩
          exact same'.trans (same.trans named.symm)
        · intro h₀ mem₀ same₀
          rw [Table.eq_of_key sound.accounted.unique mem₀ held (same₀.trans (named.trans same.symm))]
          exact before
    · obtain mem' | asked := done.stops h mem' uncertain
      · exact covered.stopping (state ▸ active) h mem' (same.trans named) uncertain
      · exact asked
  case room =>
    intro b mem
    rw [← ids]
    exact .inl (List.mem_map_of_mem mem)

end Force

theorem submit_spec (sound : Sound forced q) (command : SubmitCommand)
    (descriptor : ProgramDescriptor) (taskId runId : String) (lineage : Lineage) :
    Ensures (· = QueueFault.underflow) (q.submit command descriptor taskId runId lineage now)
      (Stepped forced q) := by
  simp only [submit, ensures_bind, solvent_check, ensures_refuse, ensures_pure]
  intro t submitted
  refine ⟨by simp, fun fresh => ?_⟩
  have named : (TaskRun.submitted t lineage).taskId = taskId := by
    obtain ⟨-, -, -, -, rfl⟩ := TaskRun.submit_eq_ok submitted
    rfl
  have same : attempts { q with tasks := q.tasks ++ [TaskRun.submitted t lineage] } = q.attempts := by
    simp [attempts, TaskRun.submitted]
  refine ⟨⟨?steady, ?tasks, ?attempts, sound.accounted.of_same rfl rfl, ?covered⟩, ?room,
    fun _ mem _ => mem⟩
  case steady =>
    intro s mem
    obtain mem | mem := List.mem_append.mp mem
    · exact sound.steady s mem
    · obtain rfl := List.mem_singleton.mp mem
      exact ⟨TaskRun.submitted_sound lineage submitted, by simp [TaskRun.submitted]⟩
  case tasks =>
    refine Table.unique_append sound.tasks fun s mem e => fresh (.inr (.inr ?_))
    exact (e.trans named) ▸ List.mem_map_of_mem mem
  case attempts =>
    rw [same]
    exact sound.attempts
  case covered =>
    rw [same]
    exact sound.covered
  case room =>
    rw [same]
    exact fun a mem => .inl (List.mem_map_of_mem mem)

theorem collect_spec (sound : Sound forced q) (taskId : String) :
    Ensures (· = QueueFault.underflow) (q.collect taskId) (Stepped forced q) := by
  simp only [collect, run, ensures_bind, ensures_okOr, ensures_refuse, ensures_pure]
  refine ⟨by simp, fun s found => ⟨by simp, fun ended => ?_⟩⟩
  have fewer : (q.tasks.filter fun s => s.taskId ≠ taskId).Sublist q.tasks := List.filter_sublist
  have sub : (attempts { q with tasks := q.tasks.filter fun s => s.taskId ≠ taskId }).Sublist
      q.attempts := fewer.flatMap TaskRun.attempts
  refine ⟨⟨?steady, ?tasks, ?attempts, sound.accounted.of_same rfl rfl, ?covered⟩, ?room,
    fun _ mem _ => mem⟩
  case steady => exact fun s mem => sound.steady s (fewer.subset mem)
  case tasks => exact sound.tasks.sublist (fewer.map _)
  case attempts => exact sound.attempts.sublist (sub.map _)
  case covered => exact fun enrolled a mem => sound.covered enrolled a (sub.subset mem)
  case room => exact fun a mem => .inl (List.mem_map_of_mem (sub.subset mem))

section Policy
variable {p : QueuePolicyRow} {a : AttemptSnapshot}

theorem initialState_open : initialState a ≠ .released := by
  unfold initialState
  split
  · simp
  · split <;> simp

theorem adopted_sound (constrained : (adopted p now a).Constrained) : (adopted p now a).Sound where
  constrained := constrained
  revised := Nat.le_add_left 1 _

theorem adopt_spec (sound : Sound forced q) (unenrolled : q.policy = none) :
    Ensures (· = QueueFault.underflow) (q.adopt p now) (Stepped forced q) := by
  have empty := sound.accounted.unenrolled unenrolled
  simp only [adopt, ensures_bind, ensures_refuse, ensures_pure, not_or, not_not]
  refine ⟨by simp, ?_⟩
  rintro ⟨holds, unique⟩
  refine ⟨by simp, fun policy => ?_⟩
  rw [empty, List.nil_append]
  have from' : ∀ h ∈ (q.attempts.filter (·.Outstanding)).map (adopted p now),
      ∃ a ∈ q.attempts, a.Outstanding ∧ adopted p now a = h := by
    intro h mem
    obtain ⟨a, there, rfl⟩ := List.mem_map.mp mem
    obtain ⟨stored, outstanding⟩ := List.mem_filter.mp there
    exact ⟨a, stored, of_decide_eq_true outstanding, rfl⟩
  refine ⟨⟨sound.steady, sound.tasks, sound.attempts, ?accounted, ?covered⟩, ?room, ?final⟩
  case accounted =>
    constructor
    case unique => exact unique
    case unenrolled => simp
    case occupied =>
      intro p' enrolled
      obtain rfl := Option.some.inj enrolled
      refine (List.countP_eq_length.mpr fun h mem => ?_).symm
      obtain ⟨a, -, -, rfl⟩ := from' h mem
      exact decide_eq_true initialState_open
    case uncertain =>
      intro p' enrolled
      obtain rfl := Option.some.inj enrolled
      rfl
    case policy =>
      intro p' enrolled
      obtain rfl := Option.some.inj enrolled
      exact policy
    case holds =>
      intro h mem
      have constrained := holds h mem
      obtain ⟨a, -, -, rfl⟩ := from' h mem
      exact adopted_sound constrained
  case covered =>
    intro _ a mem
    refine ⟨fun outstanding => ?_, fun active h mem' same uncertain => ?_⟩
    · refine ⟨adopted p now a, List.mem_map_of_mem (List.mem_filter.mpr ⟨mem, ?_⟩), rfl, ?_⟩
      · exact decide_eq_true outstanding
      · exact fun ended => absurd ended initialState_open
    · obtain ⟨b, mem'', -, rfl⟩ := from' h mem'
      obtain rfl := Table.eq_of_key sound.attempts mem'' mem same
      simp [adopted, initialState, active] at uncertain
      split at uncertain <;> simp at uncertain
  case room => exact fun a mem => .inl (List.mem_map_of_mem mem)
  case final => simp [empty]

theorem putPolicy_spec (sound : Sound forced q) (c : QueuePolicyPut) :
    Ensures (· = QueueFault.underflow) (q.putPolicy c now) (Stepped forced q) := by
  simp only [putPolicy, ensures_bind, solvent_check, ensures_refuse]
  refine fun _ _ => ⟨by simp, fun _ => ⟨by simp, fun _ _ _ => ?_⟩⟩
  cases enrolled : q.policy with
  | none => exact adopt_spec sound enrolled
  | some p =>
    simp only [ensures_bind, ensures_refuse, ensures_pure, not_not]
    refine ⟨by simp, fun constrained => ?_⟩
    refine ⟨⟨sound.steady, sound.tasks, sound.attempts, ?accounted, ?covered⟩, ?room,
      fun _ mem _ => mem⟩
    case accounted =>
      have accounted := sound.accounted
      refine ⟨accounted.unique, by simp, ?_, ?_, ?_, accounted.holds⟩
      · intro p' new
        obtain rfl := Option.some.inj new
        exact accounted.occupied p enrolled
      · intro p' new
        obtain rfl := Option.some.inj new
        exact accounted.uncertain p enrolled
      · intro p' new
        obtain rfl := Option.some.inj new
        exact constrained
    case covered => exact fun _ => sound.covered (by simp [enrolled])
    case room => exact fun a mem => .inl (List.mem_map_of_mem mem)

end Policy

section Claims
variable {s : TaskRun} {a : AttemptSnapshot}

/-- Fencing the last attempt of a run leaves the others, whose identities differ. -/
theorem fence_last {task : TaskSnapshot} {attempts : List AttemptSnapshot} {log : List HistoryEvent}
    (fresh : a.id ∉ attempts.map AttemptSnapshot.id) (at' : Nat) :
    TaskRun.fence a.id at' ⟨task, attempts ++ [a], log⟩ = ⟨task, attempts ++ [a.fence at'], log⟩ := by
  have same : attempts.map (fun b => if b.id = a.id then b.fence at' else b) = attempts := by
    refine (List.map_congr_left fun b mem => if_neg fun e => ?_).trans (List.map_id' _)
    exact fresh (e ▸ List.mem_map_of_mem mem)
  simp [TaskRun.fence, same]

theorem steady_fenced {task : TaskSnapshot} {attempts : List AttemptSnapshot} {log : List HistoryEvent}
    (steady : TaskRun.Steady ⟨task, attempts ++ [a], log⟩)
    (fresh : a.id ∉ attempts.map AttemptSnapshot.id) (at' : Nat) :
    TaskRun.Steady ⟨task, attempts ++ [a.fence at'], log⟩ := by
  rw [← fence_last fresh]
  exact steady.fence a.id at'

theorem prepare_spec {post : AttemptSnapshot × Option (String × Nat) → Prop}
    (same : ∀ setting, post (a, setting)) (fenced : ∀ at' setting, post (a.fence at', setting)) :
    Ensures (· = QueueFault.underflow) (q.prepare a now) post := by
  unfold prepare
  split
  · exact same _
  · split
    · exact same _
    · simp only [ensures_bind, ensures_okOr, ensures_pure]
      exact ⟨by simp, fun deadline _ => fenced _ _⟩

/-- An attempt is inserted where there is room, and gets a hold of its own. -/
theorem guardInsert_spec (accounted : Accounted q) {setting : Option (String × Nat)} :
    Ensures (· = QueueFault.underflow) (q.guardInsert a setting) fun q' => Accounted q' ∧
      q'.tasks = q.tasks ∧ q'.policy.isSome = q.policy.isSome ∧
      (∀ p, q.policy = some p → ¬ p.full) ∧
      (q.policy = none → q'.holds = q.holds) ∧
      (q.policy ≠ none → ∃ h, q'.holds = q.holds ++ [h] ∧ h.attemptId = a.id ∧
        h.state = .reserved ∧ ∀ h' ∈ q.holds, h'.attemptId ≠ a.id) := by
  unfold guardInsert
  cases enrolled : q.policy with
  | none => exact ⟨accounted, rfl, by rw [enrolled], by simp, fun _ => rfl, fun absent => absurd rfl absent⟩
  | some p =>
    simp only [ensures_bind, ensures_okOr, ensures_refuse, ensures_pure, not_or, not_not]
    refine ⟨by simp, fun claim _ => ⟨by simp, fun _ => ⟨by simp, fun roomy => ⟨by simp, ?_⟩⟩⟩⟩
    rintro ⟨constrained, fresh⟩
    have occupied := accounted.occupied p enrolled
    have uncertain := accounted.uncertain p enrolled
    have others : ∀ h' ∈ q.holds, h'.attemptId ≠ a.id := fun h' mem e =>
      fresh (List.mem_map.mpr ⟨h', mem, e⟩)
    refine ⟨?_, trivial, by simp, ?_, by simp, fun _ => ⟨_, rfl, rfl, rfl, others⟩⟩
    · constructor
      case unique => exact Table.unique_append accounted.unique others
      case unenrolled => simp
      case occupied =>
        intro p' new
        obtain rfl := Option.some.inj new
        simp [occupied, reserve, QueueHold.isOpen]
      case uncertain =>
        intro p' new
        obtain rfl := Option.some.inj new
        simp [uncertain, reserve, QueueHold.isUncertain]
      case policy =>
        intro p' new
        obtain rfl := Option.some.inj new
        have below := accounted.policy p enrolled
        exact ⟨below.revision, below.maximum, below.timeout, below.grace,
          Nat.le_succ_of_le below.uncertain⟩
      case holds =>
        intro h mem
        obtain mem | mem := List.mem_append.mp mem
        · exact accounted.holds h mem
        · obtain rfl := List.mem_singleton.mp mem
          exact ⟨constrained, Nat.le_add_left 1 _⟩
    · intro p' same
      obtain rfl := Option.some.inj same
      exact roomy

theorem insert_spec (sound : Sound forced q) (mem : s ∈ q.tasks) {t : TaskRun}
    (named : t.taskId = s.taskId) (steady : t.Steady) (added : t.attempts = s.attempts ++ [a])
    (fresh : a.id ∉ q.attempts.map AttemptSnapshot.id) {setting : Option (String × Nat)} :
    Ensures (· = QueueFault.underflow) ((q.putRun t).guardInsert a setting) (Stepped forced q) := by
  have accounted : Accounted (q.putRun t) := sound.accounted.of_same rfl rfl
  refine (guardInsert_spec accounted).mono fun q' ⟨done, tasks, enrolled, room, idle, held⟩ => ?_
  obtain ⟨before, after, old, new⟩ := attempts_putRun sound.tasks mem named
  have perm : q'.attempts.Perm (a :: q.attempts) := by
    have middle : q'.attempts = before ++ s.attempts ++ a :: after := by
      rw [attempts, tasks, ← attempts, new, added]
      simp
    rw [middle, old]
    exact List.perm_middle
  refine ⟨⟨?steady, ?tasks, ?attempts, done, ?covered⟩, ?room, ?final⟩
  case steady =>
    rw [tasks]
    exact steady_putRun sound.steady steady
  case tasks =>
    rw [tasks]
    exact Table.unique_put sound.tasks
  case attempts =>
    rw [Table.Unique, (perm.map _).nodup_iff]
    exact List.nodup_cons.mpr ⟨fresh, sound.attempts⟩
  case covered =>
    intro enrolled' b mem'
    have enrolled : q.policy ≠ none :=
      Option.isSome_iff_ne_none.mp (enrolled.symm.trans (Option.isSome_iff_ne_none.mpr enrolled'))
    obtain ⟨h, holds, same, reserved, others⟩ := held enrolled
    have holds : q'.holds = q.holds ++ [h] := holds
    obtain rfl | mem' := List.mem_cons.mp (perm.mem_iff.mp mem')
    · refine ⟨fun _ => ⟨h, by simp [holds], same, fun ended => ?_⟩, fun _ h' mem' same' => ?_⟩
      · simp [reserved] at ended
      · rw [holds] at mem'
        obtain mem' | mem' := List.mem_append.mp mem'
        · exact absurd same' (others h' mem')
        · obtain rfl := List.mem_singleton.mp mem'
          simp [reserved]
    · have covered := sound.covered enrolled b mem'
      refine ⟨fun outstanding => ?_, fun active h' mem'' same' uncertain => ?_⟩
      · obtain ⟨h', mem'', rest⟩ := covered.held outstanding
        exact ⟨h', by rw [holds]; exact List.mem_append_left _ mem'', rest⟩
      · rw [holds] at mem''
        obtain mem'' | mem'' := List.mem_append.mp mem''
        · exact covered.stopping active h' mem'' same' uncertain
        · obtain rfl := List.mem_singleton.mp mem''
          simp [reserved] at uncertain
  case room => exact fun _ _ => .inr room
  case final =>
    intro h mem' _
    by_cases enrolled' : q.policy = none
    · rw [idle enrolled']
      exact mem'
    · obtain ⟨h', holds, -⟩ := held enrolled'
      rw [holds]
      exact List.mem_append_left _ mem'

theorem steady_claimed (steady : s.Steady) {ids : AttemptIds} {session : WorkerSession}
    {command : AcquireCommand} (claimable : Claimable s.task ids command now)
    (fresh : ids.attemptId ∉ s.attempts.map AttemptSnapshot.id) (log : List HistoryEvent) :
    TaskRun.Steady ⟨newTask s.task ids,
      s.attempts ++ [newAttempt s.task ids session command.consumerId now], log⟩ where
  sound := steady.sound.claimed claimable fresh log
  loud := by
    intro a mem
    obtain mem | mem := List.mem_append.mp mem
    · exact steady.loud a mem
    · obtain rfl := List.mem_singleton.mp mem
      exact fun _ => rfl

theorem run_spec {taskId : String} {post : TaskRun → Prop} {fault : QueueFault → Prop}
    (refusal : ∀ e, ¬ fault (.refused e))
    (found : ∀ s ∈ q.tasks, s.taskId = taskId → post s) : Ensures fault (q.run taskId) post := by
  simp only [run, ensures_okOr]
  exact ⟨fun _ => refusal _, fun s there => found s (Table.find_mem there) (Table.find_key there)⟩

/-- A claim is stored under an identity that no attempt of the queue has. -/
theorem place_spec (sound : Sound forced q) (mem : s ∈ q.tasks) {task : TaskSnapshot}
    {events : List HistoryEvent} (named : task.taskId = s.taskId)
    (steady : ∀ log, a.id ∉ s.attempts.map AttemptSnapshot.id →
      TaskRun.Steady ⟨task, s.attempts ++ [a], log⟩)
    {setting : Option (String × Nat)} :
    Ensures (· = QueueFault.underflow) (do
      refuse (a.id ∈ q.attempts.map AttemptSnapshot.id) (.refused .conflict)
      let s ← check (s.insert ⟨task, some a, events, ()⟩)
      (q.putRun s).guardInsert a setting) (Stepped forced q) := by
  simp only [ensures_bind, ensures_refuse, solvent_check]
  refine ⟨by simp, fun fresh t inserted => ?_⟩
  simp only [TaskRun.insert, bind_eq_ok, okOr_eq_ok, Option.some.injEq, exists_eq_left',
    refuse_eq_ok, exists_unit, pure_eq_ok] at inserted
  obtain ⟨unused, rfl⟩ := inserted
  have same : (⟨task, s.attempts ++ [a], s.log ++ events⟩ : TaskRun).taskId =
      s.taskId := named
  exact insert_spec sound mem same (steady _ unused) rfl fresh

theorem assign_spec (sound : Sound forced q) (taskId : String) (context : ClaimContext)
    (command : AcquireCommand) :
    Ensures (· = QueueFault.underflow) (q.assign taskId context command now) (Stepped forced q) := by
  have unchanged : Stepped forced q q :=
    ⟨sound, fun a mem => .inl (List.mem_map_of_mem mem), fun _ mem _ => mem⟩
  unfold assign
  rw [ensures_bind]
  refine run_spec (by simp) fun s mem named => ?_
  rw [ensures_ite]
  refine ⟨fun _ => unchanged, fun roomy => ?_⟩
  rw [ensures_bind, solvent_check]
  intro t acquired
  obtain ⟨session, -, registered, done⟩ := acquire_acquired acquired
  cases done with
  | replayed | emptied => exact unchanged
  | claimed task ids fresh offered given claimable =>
    obtain rfl := Option.some.inj offered
    obtain rfl := Option.some.inj given
    have steady : ∀ log, (newAttempt s.task context.ids session command.consumerId now).id ∉
        s.attempts.map AttemptSnapshot.id → TaskRun.Steady ⟨newTask s.task context.ids,
          s.attempts ++ [newAttempt s.task context.ids session command.consumerId now], log⟩ :=
      fun log unused => steady_claimed (sound.steady s mem) claimable unused log
    have same : (newTask s.task context.ids).taskId = s.taskId := rfl
    simp only [claimTransition]
    rw [ensures_bind, ensures_okOr]
    refine ⟨by simp, fun a made => ?_⟩
    obtain rfl := Option.some.inj made
    rw [ensures_bind]
    refine prepare_spec (fun setting => ?_) fun at' setting => ?_
    · dsimp only
      exact place_spec sound mem same steady
    · dsimp only
      refine place_spec sound mem same ?_
      exact fun log unused => steady_fenced (steady log unused) unused at'

/-- Every core decision on a loaded attempt passes the trigger, or starts user code too late. -/
theorem onAttempt_spec (sound : Sound forced q) {s : TaskRun} (mem : s ∈ q.tasks)
    {attempt : AttemptSnapshot} (here : attempt ∈ s.attempts) {op : AttemptOp} {w : Writes}
    {deadline : Nat} (decided : op.decide s.task { attempt with deadline } now = .ok w)
    (sampled : Nat) :
    Ensures QueueFault.Broken
      (match (w.keepDeadline attempt).attempt with
        | none => .ok (q.putRun (s.commit (w.keepDeadline attempt)))
        | some new => (q.putRun (s.commit (w.keepDeadline attempt))).attemptTransition attempt new
            sampled)
      (Stepped forced q) := by
  have steady := sound.steady s mem
  have stored := steady.sound.coherent here
  have coherent : Coherent s.task { attempt with deadline } := stored
  have move := decide_moves coherent decided
  have owner : (w.attempt.getD { attempt with deadline }).id = attempt.id := by
    simp [AttemptSnapshot.id, (Move.same_attempt move).owner]
  have kept := w.keepDeadline_getD attempt deadline
  have named : ((w.keepDeadline attempt).attempt.getD attempt).id = attempt.id := by
    rw [kept]
    exact owner
  have committed := steady.sound.commit_eq here (w.keepDeadline attempt)
  have steady' : (s.commit (w.keepDeadline attempt)).Steady := by
    rw [committed, kept]
    exact steady.decided here move _
  have same : (s.commit (w.keepDeadline attempt)).taskId = s.taskId :=
    (Move.same_task move).1.taskId
  have stored := attempts_putRun_put sound.tasks sound.attempts mem same here named
    (congrArg TaskRun.attempts committed)
  have ids : (q.putRun (s.commit (w.keepDeadline attempt))).attempts.map AttemptSnapshot.id =
      q.attempts.map AttemptSnapshot.id := by rw [stored, Table.keys_put]
  have accounted : Accounted (q.putRun (s.commit (w.keepDeadline attempt))) :=
    sound.accounted.of_same rfl rfl
  cases written : (w.keepDeadline attempt).attempt with
  | none =>
    have stored : (q.putRun (s.commit (w.keepDeadline attempt))).attempts = q.attempts := by
      rw [stored, written]
      exact Table.put_self sound.attempts (mem_attempts mem here)
    refine ⟨⟨steady_putRun sound.steady steady', Table.unique_put sound.tasks, ?attempts, accounted,
      ?covered⟩, ?room, fun _ mem _ => mem⟩
    case attempts =>
      rw [stored]
      exact sound.attempts
    case covered =>
      rw [stored]
      exact sound.covered
    case room =>
      rw [stored]
      exact fun a mem => .inl (List.mem_map_of_mem mem)
  | some new =>
    rw [written, Option.getD_some] at kept named stored
    have covered : q.policy ≠ none → CoveredAt forced q.holds { attempt with deadline } :=
      fun enrolled =>
        have held := sound.covered enrolled attempt (mem_attempts mem here)
        ⟨held.held, held.stopping⟩
    have loud : AttemptSnapshot.Loud { attempt with deadline } := fun active =>
      steady.loud attempt here active
    -- the trigger does not look at the deadline
    have blind : (q.putRun (s.commit (w.keepDeadline attempt))).attemptTransition attempt new sampled =
        (q.putRun (s.commit (w.keepDeadline attempt))).attemptTransition { attempt with deadline }
          (w.attempt.getD { attempt with deadline }) sampled := by
      rw [kept]
      rfl
    dsimp only
    rw [blind]
    refine (attemptTransition_spec accounted loud move covered).mono ?_
    rintro q' ⟨done, self⟩
    have attempts' : q'.attempts = Table.put AttemptSnapshot.id new q.attempts := by
      rw [← stored, attempts, done.tasks, ← attempts]
    refine ⟨⟨?steady, ?tasks, ?attempts, done.accounted, ?covered⟩, ?room, done.final⟩
    case steady =>
      rw [done.tasks]
      exact steady_putRun sound.steady steady'
    case tasks =>
      rw [done.tasks]
      exact Table.unique_put sound.tasks
    case attempts =>
      rw [attempts']
      exact Table.unique_put sound.attempts
    case covered =>
      intro enrolled' b mem'
      have enrolled : q.policy ≠ none := Option.isSome_iff_ne_none.mp
        (done.enrolled.symm.trans (Option.isSome_iff_ne_none.mpr enrolled'))
      rw [attempts'] at mem'
      obtain rfl | ⟨mem', other⟩ := Table.mem_put mem'
      · have held := self enrolled
        rw [kept]
        exact ⟨held.held, held.stopping⟩
      · exact done.covered_other (named ▸ other) (sound.covered enrolled b mem')
    case room =>
      intro b mem'
      rw [attempts'] at mem'
      rw [← ids, stored]
      exact .inl (List.mem_map_of_mem mem')

theorem decide_spec (sound : Sound forced q) (taskId : String) (op : TaskOp) :
    Ensures (· = QueueFault.underflow) (q.decide taskId op now sampled) (Stepped forced q) := by
  unfold decide
  rw [ensures_bind]
  refine run_spec (by simp) fun s mem named => ?_
  cases op with
  | acquire context command => exact assign_spec sound taskId context command
  | cancelUnassigned =>
    dsimp only
    rw [ensures_bind, solvent_check]
    intro t applied
    have steady := sound.steady s mem
    have sound' : t.Sound := TaskRun.step_sound steady.sound (TaskRun.apply_step steady.sound applied)
    have kept : t.attempts = s.attempts ∧ t.taskId = s.taskId := by
      obtain rfl | ⟨-, -, -, -, rfl⟩ := TaskRun.apply_cancelUnassigned applied
      · exact ⟨rfl, rfl⟩
      · exact ⟨rfl, rfl⟩
    have same := attempts_putRun_same sound.tasks mem kept.2 kept.1
    refine ⟨⟨?steady, Table.unique_put sound.tasks, ?attempts, sound.accounted.of_same rfl rfl,
      ?covered⟩, ?room, fun _ mem _ => mem⟩
    case steady => exact steady_putRun sound.steady ⟨sound', by rw [kept.1]; exact steady.loud⟩
    case attempts =>
      rw [same]
      exact sound.attempts
    case covered =>
      rw [same]
      exact sound.covered
    case room =>
      rw [same]
      exact fun a mem => .inl (List.mem_map_of_mem mem)
  | onAttempt id op =>
    dsimp only
    rw [ensures_bind, solvent_check]
    intro attempt found
    rw [ensures_bind, solvent_check]
    intro w decided
    have here := Table.find_mem (okOr_eq_ok.mp found)
    have spec := onAttempt_spec sound mem here decided sampled
    exact spec.fewer fun fault isUnderflow => .inl isUnderflow

end Claims

end Queue

structure QueueWatch where
  queue : Queue
  forced : List String

namespace QueueWatch
variable {w w' : QueueWatch} {c : QueueCommand}

def init (scope : Scope) (name : String) : QueueWatch := ⟨.init scope name, []⟩

def step (w : QueueWatch) (c : QueueCommand) : QueueOutcome QueueWatch := do
  let q ← w.queue.step c
  match c with
  | .closeHold .. | .releaseHold .. | .tickTimeout .. => return ⟨q, w.forced ++ w.queue.seized q⟩
  | .submit .. | .decide .. | .collect .. | .putPolicy .. => return ⟨q, w.forced⟩

def run (w : QueueWatch) (cs : List QueueCommand) : QueueOutcome QueueWatch := cs.foldlM step w

def Reachable (w : QueueWatch) : Prop := ∃ scope name cs, run (init scope name) cs = .ok w

theorem step_spec (sound : w.queue.Sound w.forced) (c : QueueCommand) :
    Ensures (· = QueueFault.underflow) (w.step c) fun w' =>
      w.queue.Stepped w'.forced w'.queue := by
  unfold step
  rw [ensures_bind]
  cases c with
  | submit command descriptor taskId runId lineage now =>
    exact Queue.submit_spec sound command descriptor taskId runId lineage
  | decide taskId op now sampled => exact Queue.decide_spec sound taskId op
  | collect taskId => exact Queue.collect_spec sound taskId
  | putPolicy c now => exact Queue.putPolicy_spec sound c
  | closeHold c now =>
    refine ((Queue.closeHold_spec sound.accounted c).mono fun q' done => ?_).fewer fun _ e => .inl e
    exact sound.forces done.1 done.2
  | releaseHold c now =>
    refine ((Queue.releaseHold_spec sound.accounted c).mono fun q' done => ?_).fewer fun _ e => .inl e
    exact sound.forces done.1 done.2
  | tickTimeout taskId attemptId now =>
    refine ((Queue.tickTimeout_spec sound.accounted taskId attemptId).mono fun q' done => ?_).fewer
      fun _ e => .inl e
    exact sound.forces done.1 done.2

theorem init_sound (scope : Scope) (name : String) :
    (Queue.init scope name).Sound [] where
  steady := by simp [Queue.init]
  tasks := by simp [Queue.init, Table.Unique]
  attempts := by simp [Queue.init, Queue.attempts, Table.Unique]
  accounted := ⟨by simp [Queue.init, Table.Unique], fun _ => rfl, by simp [Queue.init],
    by simp [Queue.init], by simp [Queue.init], by simp [Queue.init]⟩
  covered := fun enrolled => absurd rfl enrolled

theorem run_sound {cs : List QueueCommand} (sound : w.queue.Sound w.forced)
    (runs : w.run cs = .ok w') : w'.queue.Sound w'.forced :=
  foldlM_invariant (P := fun w => w.queue.Sound w.forced)
    (fun _ c _ _ stepped sound => ((step_spec sound c).ok stepped).sound) runs sound

theorem Reachable.sound (reachable : w.Reachable) : w.queue.Sound w.forced := by
  obtain ⟨scope, name, cs, runs⟩ := reachable
  exact run_sound (init_sound scope name) runs

theorem run_final {cs : List QueueCommand} (sound : w.queue.Sound w.forced)
    (runs : w.run cs = .ok w') {h : QueueHold} (mem : h ∈ w.queue.holds)
    (ended : h.state = .released) : h ∈ w'.queue.holds := by
  have kept := foldlM_invariant (P := fun w => w.queue.Sound w.forced ∧ h ∈ w.queue.holds)
    (fun _ c _ _ stepped inv =>
      have done := (step_spec inv.1 c).ok stepped
      ⟨done.sound, done.final h inv.2 ended⟩) runs ⟨sound, mem⟩
  exact kept.2

/-- The counters are the numbers of holds, no counter goes negative, nothing is assigned without
room, what occupies the queue is held once, and a released hold is final. -/
theorem occupancy_accounted (reachable : w.Reachable) :
    (∀ p, w.queue.policy = some p → p.occupied = w.queue.holds.countP QueueHold.isOpen ∧
      p.uncertain = w.queue.holds.countP QueueHold.isUncertain ∧ p.uncertain ≤ p.occupied) ∧
    (∀ c, w.step c ≠ .error .underflow) ∧
    (∀ c w', w.step c = .ok w' → ∀ a ∈ w'.queue.attempts,
      a.id ∉ w.queue.attempts.map AttemptSnapshot.id →
      ∀ p, w.queue.policy = some p → ∀ n ∈ p.maximum, p.occupied < n) ∧
    (w.queue.policy ≠ none → ∀ a ∈ w.queue.attempts, a.Outstanding →
      (∃! h, h ∈ w.queue.holds ∧ h.attemptId = a.id) ∧
      ∀ h ∈ w.queue.holds, h.attemptId = a.id → h.state = .released → a.id ∈ w.forced) ∧
    ∀ cs w', w.run cs = .ok w' → ∀ h ∈ w.queue.holds, h.state = .released → h ∈ w'.queue.holds := by
  have sound := reachable.sound
  have accounted := sound.accounted
  refine ⟨?counted, ?solvent, ?roomy, ?held, ?final⟩
  case counted =>
    exact fun p enrolled => ⟨accounted.occupied p enrolled, accounted.uncertain p enrolled,
      (accounted.policy p enrolled).uncertain⟩
  case solvent => exact fun c failed => (step_spec sound c).error failed rfl
  case roomy =>
    intro c w' stepped a mem new p enrolled n limit
    obtain old | room := ((step_spec sound c).ok stepped).room a mem
    · exact absurd old new
    · have notFull := room p enrolled
      simp only [QueuePolicyRow.full, not_exists, not_and, not_le] at notFull
      exact notFull n limit
  case held =>
    intro enrolled a mem outstanding
    obtain ⟨h, held, named, released⟩ := (sound.covered enrolled a mem).held outstanding
    have only : ∀ h', h' ∈ w.queue.holds ∧ h'.attemptId = a.id → h' = h := fun h' ⟨mem', same⟩ =>
      Table.eq_of_key accounted.unique mem' held (same.trans named.symm)
    refine ⟨⟨h, ⟨held, named⟩, only⟩, fun h' mem' same ended => ?_⟩
    rw [only h' ⟨mem', same⟩] at ended
    exact released ended
  case final => exact fun cs w' runs h mem ended => run_final sound runs mem ended

end QueueWatch

/- A queue with one slot, and the claim that takes it. -/

def sampleQueuePut : QueuePolicyPut :=
  ⟨sampleScope, "python", "put-1", none, ⟨some 1, none⟩, "one at a time"⟩

def sampleSubmission (admission : Option TaskAdmissionRequirement) : QueueCommand :=
  .submit ⟨"key-1", sampleInput admission, none⟩ sampleDescriptor "task-1" "run-1" .none 1000

def sampleAssigned (n : String) (now : Nat) : QueueCommand :=
  .decide "task-1" (sampleClaim n now).op now now

def sampleSlot : List QueueCommand :=
  [.putPolicy sampleQueuePut 900, sampleSubmission none, sampleAssigned "1" 2000]

theorem sampleSlot_accounted : ∃ w : QueueWatch,
    QueueWatch.run (.init sampleScope "python") sampleSlot = .ok w ∧
      (w.queue.policy.map QueuePolicyRow.occupied = some 1) ∧
      w.queue.holds.countP QueueHold.isOpen = 1 := by
  have accepted : (QueueWatch.run (.init sampleScope "python") sampleSlot).toOption.map
      (fun w => w.queue.policy.map QueuePolicyRow.occupied) = some (some 1) := by decide +kernel
  obtain ⟨w, runs, occupied⟩ := Option.map_eq_some_iff.mp accepted
  have runs := toOption_eq_some.mp runs
  obtain ⟨p, enrolled, one⟩ := Option.map_eq_some_iff.mp occupied
  have counted := (QueueWatch.occupancy_accounted ⟨_, _, _, runs⟩).1 p enrolled
  exact ⟨w, runs, occupied, by rw [← counted.1, one]⟩

end Ledgence
