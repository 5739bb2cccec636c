import Ledgence.Api.ApprovalInbox
import Ledgence.Kit.Checked
import Ledgence.Kit.Table

/-! The tables that discovery reads, and the writes that transactions commit to them. -/
open Kit Kit.Checked

namespace Ledgence.Pages

/-- A statement that the schema refuses, or that the code never sends. -/
inductive Violation where
  | unique
  | missing
  | check
  deriving DecidableEq

/- Tasks. -/

/-- The columns that are written when a task is submitted, and never again. -/
structure TaskColumns where
  tenantId : String
  namespaceId : String
  taskId : String
  runId : String
  queue : String
  correlationKey : Option String
  workflowId : Option String
  submittedAt : Nat
  deriving DecidableEq

structure TaskProgress where
  state : TaskState
  availableAt : Nat
  terminalAt : Option Nat
  currentAttemptId : Option String
  attemptCount : Nat
  cancelRequestedAt : Option Nat
  nextExpiry : Option Nat
  admissionResource : Option String
  admissionDeferrals : Nat
  providerProbe : Option (Option ProviderProbeAssignment)
  workflowActivationId : Option String

structure TaskRow where
  columns : TaskColumns
  progress : TaskProgress
  retiringAt : Option Nat

structure AttemptRow where
  attemptId : String
  taskId : String
  generation : Nat
  state : AttemptState

/-- Beside the tables, the columns of every task that was ever submitted. -/
structure TaskTables where
  rows : List TaskRow
  attempts : List AttemptRow
  submitted : List TaskColumns

inductive TaskWrite where
  | submit (columns : TaskColumns) (workflowActivationId : Option String)
  | save (taskId : String) (progress : TaskProgress)
  | saveAttempt (attempt : AttemptRow)
  | retire (taskId : String) (now : Nat)
  | removeAttempts (taskId : String)
  | remove (taskId : String)

namespace TaskTables

def Retiring (tables : TaskTables) (taskId : String) : Prop :=
  ∀ row ∈ tables.rows, row.columns.taskId = taskId → row.retiringAt.isSome = true

instance (tables : TaskTables) (taskId : String) : Decidable (tables.Retiring taskId) :=
  inferInstanceAs (Decidable (∀ row ∈ tables.rows, _ → _))

def update (tables : TaskTables) (taskId : String) (change : TaskRow → TaskRow) : TaskTables :=
  { tables with rows := tables.rows.map fun row =>
      if row.columns.taskId = taskId then change row else row }

/-- Task ids are drawn at random and never again. -/
def apply (tables : TaskTables) : TaskWrite → Except Violation TaskTables
  | .submit columns workflowActivationId => do
    refuse (columns.taskId ∈ tables.submitted.map TaskColumns.taskId) .unique
    return { tables with
      rows := tables.rows ++ [⟨columns, ⟨.queued, columns.submittedAt, none, none, 0, none, none,
        none, 0, none, workflowActivationId⟩, none⟩]
      submitted := tables.submitted ++ [columns] }
  | .save taskId progress => return tables.update taskId fun row => { row with progress }
  | .saveAttempt attempt => return { tables with
      attempts := attempt :: tables.attempts.filter fun a =>
        ¬ (a.taskId = attempt.taskId ∧ a.generation = attempt.generation) }
  | .retire taskId now => do
    refuse (tables.rows.any fun row =>
      row.columns.taskId == taskId && row.progress.terminalAt.isNone) .check
    return tables.update taskId fun row =>
      { row with
        progress := { row.progress with workflowActivationId := none }
        retiringAt := some now }
  | .removeAttempts taskId => do
    refuse (¬ tables.Retiring taskId) .check
    return { tables with attempts := tables.attempts.filter (·.taskId ≠ taskId) }
  | .remove taskId => do
    refuse (¬ tables.Retiring taskId) .check
    return { tables with rows := tables.rows.filter (·.columns.taskId ≠ taskId) }

structure Valid (tables : TaskTables) : Prop where
  rows : (tables.rows.map fun row => row.columns.taskId).Nodup
  submitted : (tables.submitted.map TaskColumns.taskId).Nodup
  known : ∀ row ∈ tables.rows, row.columns ∈ tables.submitted

end TaskTables

/- Approvals. -/

structure ApprovalColumns where
  workflowId : String
  waitKey : String
  tenantId : String
  namespaceId : String
  activationId : String
  programId : String
  programVersion : String
  actionName : String
  actionVersion : String
  createdAt : Nat
  deadline : Nat
  deriving DecidableEq

structure ApprovalRow where
  columns : ApprovalColumns
  status : ApprovalStatus

structure WorkflowRow where
  workflowId : String
  tenantId : String
  namespaceId : String
  programId : String
  programVersion : String
  retiringAt : Option Nat

/-- Beside the tables, the ids of every workflow and the columns of every approval ever written. -/
structure InboxTables where
  workflows : List WorkflowRow
  approvals : List ApprovalRow
  started : List String
  proposed : List ApprovalColumns

inductive InboxWrite where
  | start (workflowId tenantId namespaceId programId programVersion : String)
  | propose (workflowId waitKey activationId actionName actionVersion : String)
      (createdAt deadline : Nat)
  | decide (workflowId waitKey : String) (status : ApprovalStatus)
  | retire (workflowId : String) (now : Nat)
  | removeApprovals (workflowId : String) (waitKeys : List String)
  | remove (workflowId : String)

def ApprovalColumns.identity (columns : ApprovalColumns) : String × String :=
  (columns.workflowId, columns.waitKey)

namespace InboxTables

def Live (tables : InboxTables) (workflowId : String) : Prop :=
  ∃ w ∈ tables.workflows, w.workflowId = workflowId ∧ w.retiringAt = none

instance (tables : InboxTables) (workflowId : String) : Decidable (tables.Live workflowId) :=
  inferInstanceAs (Decidable (∃ w ∈ tables.workflows, _ ∧ _))

/-- Workflow ids are drawn at random and never again. A new approval takes the scope and the program
of its workflow, as the trigger of the schema does. -/
def apply (tables : InboxTables) : InboxWrite → Except Violation InboxTables
  | .start workflowId tenantId namespaceId programId programVersion => do
    refuse (workflowId ∈ tables.started) .unique
    return { tables with
      workflows := tables.workflows ++
        [⟨workflowId, tenantId, namespaceId, programId, programVersion, none⟩]
      started := tables.started ++ [workflowId] }
  | .propose workflowId waitKey activationId actionName actionVersion createdAt deadline => do
    refuse ((workflowId, waitKey) ∈ tables.approvals.map fun a => a.columns.identity) .unique
    let owner ← okOr (tables.workflows.find? fun w => w.workflowId == workflowId &&
      w.retiringAt.isNone) .missing
    let columns : ApprovalColumns := ⟨workflowId, waitKey, owner.tenantId, owner.namespaceId,
      activationId, owner.programId, owner.programVersion, actionName, actionVersion, createdAt,
      deadline⟩
    return { tables with
      approvals := tables.approvals ++ [⟨columns, .pending⟩]
      proposed := tables.proposed ++ [columns] }
  | .decide workflowId waitKey status => return { tables with
      approvals := tables.approvals.map fun a =>
        if a.columns.identity = (workflowId, waitKey) then { a with status } else a }
  | .retire workflowId now => return { tables with
      workflows := tables.workflows.map fun w =>
        if w.workflowId = workflowId then { w with retiringAt := some now } else w }
  | .removeApprovals workflowId waitKeys => do
    refuse (tables.Live workflowId) .check
    return { tables with
      approvals := tables.approvals.filter fun a =>
        ¬ (a.columns.workflowId = workflowId ∧ a.columns.waitKey ∈ waitKeys) }
  | .remove workflowId => do
    refuse (tables.Live workflowId ∨ workflowId ∈ tables.approvals.map (·.columns.workflowId)) .check
    return { tables with workflows := tables.workflows.filter (·.workflowId ≠ workflowId) }

structure Valid (tables : InboxTables) : Prop where
  approvals : (tables.approvals.map fun a => a.columns.identity).Nodup
  proposed : (tables.proposed.map ApprovalColumns.identity).Nodup
  known : ∀ a ∈ tables.approvals, a.columns ∈ tables.proposed
  workflows : ∀ w ∈ tables.workflows, w.workflowId ∈ tables.started
  owned : ∀ p ∈ tables.proposed, p.workflowId ∈ tables.started
  kept : ∀ p ∈ tables.proposed, tables.Live p.workflowId → ∃ a ∈ tables.approvals, a.columns = p

end InboxTables

/- One write. -/

namespace TaskTables
variable {tables next : TaskTables}

theorem columns_update {taskId : String} {change : TaskRow → TaskRow}
    (same : ∀ row, (change row).columns = row.columns) :
    (tables.update taskId change).rows.map TaskRow.columns = tables.rows.map TaskRow.columns := by
  rw [update, List.map_map]
  refine List.map_congr_left fun row _ => ?_
  by_cases here : row.columns.taskId = taskId
  · rw [Function.comp_apply, if_pos here, same]
  · rw [Function.comp_apply, if_neg here]

theorem Valid.of_columns (valid : tables.Valid) (submitted : next.submitted = tables.submitted)
    (columns : (next.rows.map TaskRow.columns).Sublist (tables.rows.map TaskRow.columns)) :
    next.Valid where
  rows := by
    have ids := columns.map TaskColumns.taskId
    rw [List.map_map, List.map_map] at ids
    exact valid.rows.sublist ids
  submitted := submitted ▸ valid.submitted
  known := by
    intro row mem
    have old := columns.subset (List.mem_map_of_mem mem)
    obtain ⟨row', inside, same⟩ := List.mem_map.mp old
    rw [submitted, ← same]
    exact valid.known row' inside

theorem apply_ok {write : TaskWrite} (done : tables.apply write = .ok next) (valid : tables.Valid) :
    next.Valid ∧ tables.submitted ⊆ next.submitted := by
  cases write with
  | submit columns workflowActivationId =>
    simp only [apply, bind_eq_ok, exists_unit, refuse_eq_ok, pure_eq_ok] at done
    obtain ⟨fresh, rfl⟩ := done
    refine ⟨⟨?_, ?_, ?_⟩, List.subset_append_left _ _⟩
    · refine Table.unique_append valid.rows fun row mem same => fresh ?_
      exact same ▸ List.mem_map_of_mem (valid.known row mem)
    · refine Table.unique_append valid.submitted fun old mem same => fresh ?_
      exact same ▸ List.mem_map_of_mem mem
    · intro row mem
      obtain old | new := List.mem_append.mp mem
      · exact List.mem_append_left _ (valid.known row old)
      · rw [List.mem_singleton.mp new]
        simp
  | save taskId progress =>
    obtain rfl : _ = next := by simpa [apply] using done
    refine ⟨valid.of_columns rfl ?_, fun _ mem => mem⟩
    rw [columns_update (by simp)]
  | saveAttempt attempt =>
    obtain rfl : _ = next := by simpa [apply] using done
    exact ⟨valid.of_columns rfl (List.Sublist.refl _), fun _ mem => mem⟩
  | retire taskId now =>
    simp only [apply, bind_eq_ok, exists_unit, refuse_eq_ok, pure_eq_ok] at done
    obtain ⟨-, rfl⟩ := done
    refine ⟨valid.of_columns rfl ?_, fun _ mem => mem⟩
    rw [columns_update (by simp)]
  | removeAttempts taskId =>
    simp only [apply, bind_eq_ok, exists_unit, refuse_eq_ok, pure_eq_ok] at done
    obtain ⟨-, rfl⟩ := done
    exact ⟨valid.of_columns rfl (List.Sublist.refl _), fun _ mem => mem⟩
  | remove taskId =>
    simp only [apply, bind_eq_ok, exists_unit, refuse_eq_ok, pure_eq_ok] at done
    obtain ⟨-, rfl⟩ := done
    exact ⟨valid.of_columns rfl (List.filter_sublist.map _), fun _ mem => mem⟩

end TaskTables

namespace InboxTables
variable {tables next : InboxTables}

theorem Valid.of_columns (valid : tables.Valid) (started : tables.started ⊆ next.started)
    (workflows : ∀ w ∈ next.workflows, w.workflowId ∈ next.started)
    (live : ∀ p ∈ tables.proposed, next.Live p.workflowId → tables.Live p.workflowId)
    (proposed : next.proposed = tables.proposed)
    (columns : next.approvals.map ApprovalRow.columns = tables.approvals.map ApprovalRow.columns) :
    next.Valid where
  approvals := by
    have ids := congrArg (List.map ApprovalColumns.identity) columns
    rw [List.map_map, List.map_map] at ids
    have old := valid.approvals
    exact ids ▸ old
  proposed := proposed ▸ valid.proposed
  known := by
    intro a mem
    have old : a.columns ∈ tables.approvals.map ApprovalRow.columns :=
      columns ▸ List.mem_map_of_mem mem
    obtain ⟨a', inside, same⟩ := List.mem_map.mp old
    rw [proposed, ← same]
    exact valid.known a' inside
  workflows := workflows
  owned := fun p mem => started (valid.owned p (proposed ▸ mem))
  kept := by
    intro p mem alive
    rw [proposed] at mem
    obtain ⟨a, inside, rfl⟩ := valid.kept p mem (live p mem alive)
    have there : a.columns ∈ next.approvals.map ApprovalRow.columns :=
      columns ▸ List.mem_map_of_mem inside
    exact List.mem_map.mp there

theorem Valid.joined (valid : tables.Valid) {w : WorkflowRow}
    (fresh : w.workflowId ∉ tables.started) :
    Valid { tables with
      workflows := tables.workflows ++ [w]
      started := tables.started ++ [w.workflowId] } := by
  refine valid.of_columns (List.subset_append_left _ _) ?_ ?_ rfl rfl
  · intro r mem
    obtain old | new := List.mem_append.mp mem
    · exact List.mem_append_left _ (valid.workflows r old)
    · rw [List.mem_singleton.mp new]
      simp
  · rintro p mem ⟨r, inside, same, alive⟩
    obtain old | new := List.mem_append.mp inside
    · exact ⟨r, old, same, alive⟩
    · rw [List.mem_singleton.mp new] at same
      exact absurd (same ▸ valid.owned p mem) fresh

/-- The approvals of a live workflow are all there, so a pair that they do not have is a new one. -/
theorem Valid.approved (valid : tables.Valid) {columns : ApprovalColumns} {status : ApprovalStatus}
    (alive : tables.Live columns.workflowId)
    (fresh : columns.identity ∉ tables.approvals.map fun a => a.columns.identity) :
    Valid { tables with
      approvals := tables.approvals ++ [⟨columns, status⟩]
      proposed := tables.proposed ++ [columns] } := by
  refine ⟨?_, ?_, ?_, valid.workflows, ?_, ?_⟩
  · exact Table.unique_append valid.approvals fun a mem same =>
      fresh (same ▸ List.mem_map_of_mem mem)
  · refine Table.unique_append valid.proposed fun p mem same => ?_
    have owner : p.workflowId = columns.workflowId := congrArg Prod.fst same
    obtain ⟨a, there, rfl⟩ := valid.kept p mem (owner ▸ alive)
    exact fresh (List.mem_map.mpr ⟨a, there, same⟩)
  · intro a mem
    obtain old | new := List.mem_append.mp mem
    · exact List.mem_append_left _ (valid.known a old)
    · rw [List.mem_singleton.mp new]
      simp
  · intro p mem
    obtain old | new := List.mem_append.mp mem
    · exact valid.owned p old
    · obtain ⟨w, inside, same, -⟩ := alive
      rw [List.mem_singleton.mp new, ← same]
      exact valid.workflows w inside
  · intro p mem alive
    obtain old | new := List.mem_append.mp mem
    · obtain ⟨a, there, same⟩ := valid.kept p old alive
      exact ⟨a, List.mem_append_left _ there, same⟩
    · exact ⟨_, List.mem_append_right _ (List.mem_singleton_self _), (List.mem_singleton.mp new).symm⟩

theorem Valid.retired (valid : tables.Valid) (workflowId : String) (now : Nat) :
    Valid { tables with workflows := tables.workflows.map fun w =>
      if w.workflowId = workflowId then { w with retiringAt := some now } else w } := by
  refine valid.of_columns (fun _ mem => mem) ?_ ?_ rfl rfl
  · intro w mem
    obtain ⟨w', inside, rfl⟩ := List.mem_map.mp mem
    by_cases here : w'.workflowId = workflowId
    · rw [if_pos here]
      exact valid.workflows w' inside
    · rw [if_neg here]
      exact valid.workflows w' inside
  · rintro p - ⟨w, mem, same, alive⟩
    obtain ⟨w', inside, rfl⟩ := List.mem_map.mp mem
    by_cases here : w'.workflowId = workflowId
    · rw [if_pos here] at alive
      cases alive
    · rw [if_neg here] at same alive
      exact ⟨w', inside, same, alive⟩

theorem Valid.withdrawn (valid : tables.Valid) {workflowId : String} (dead : ¬tables.Live workflowId)
    (waitKeys : List String) :
    Valid { tables with approvals := tables.approvals.filter fun a =>
      ¬ (a.columns.workflowId = workflowId ∧ a.columns.waitKey ∈ waitKeys) } := by
  refine ⟨?_, valid.proposed, fun a mem => valid.known a (List.mem_of_mem_filter mem),
    valid.workflows, valid.owned, ?_⟩
  · exact valid.approvals.sublist (List.filter_sublist.map _)
  · intro p mem alive
    obtain ⟨a, there, rfl⟩ := valid.kept p mem alive
    refine ⟨a, List.mem_filter.mpr ⟨there, decide_eq_true ?_⟩, rfl⟩
    rintro ⟨rfl, -⟩
    exact dead alive

theorem apply_ok {write : InboxWrite} (done : tables.apply write = .ok next) (valid : tables.Valid) :
    next.Valid ∧ tables.proposed ⊆ next.proposed := by
  cases write with
  | start workflowId tenantId namespaceId programId programVersion =>
    simp only [apply, bind_eq_ok, exists_unit, refuse_eq_ok, pure_eq_ok] at done
    obtain ⟨fresh, rfl⟩ := done
    exact ⟨valid.joined fresh, fun _ mem => mem⟩
  | propose workflowId waitKey activationId actionName actionVersion createdAt deadline =>
    simp only [apply, bind_eq_ok, exists_unit, refuse_eq_ok, pure_eq_ok, okOr_eq_ok] at done
    obtain ⟨fresh, owner, found, rfl⟩ := done
    have passed := List.find?_some found
    simp only [Bool.and_eq_true, beq_iff_eq, Option.isNone_iff_eq_none] at passed
    have live : tables.Live workflowId := ⟨owner, List.mem_of_find?_eq_some found, passed⟩
    exact ⟨valid.approved live fresh, List.subset_append_left _ _⟩
  | decide workflowId waitKey status =>
    obtain rfl : _ = next := by simpa [apply] using done
    refine ⟨valid.of_columns (fun _ mem => mem) valid.workflows (fun _ _ alive => alive) rfl ?_,
      fun _ mem => mem⟩
    rw [List.map_map]
    refine List.map_congr_left fun a _ => ?_
    by_cases here : a.columns.identity = (workflowId, waitKey)
    · rw [Function.comp_apply, if_pos here]
    · rw [Function.comp_apply, if_neg here]
  | retire workflowId now =>
    obtain rfl : _ = next := by simpa [apply] using done
    exact ⟨valid.retired workflowId now, fun _ mem => mem⟩
  | removeApprovals workflowId waitKeys =>
    simp only [apply, bind_eq_ok, exists_unit, refuse_eq_ok, pure_eq_ok] at done
    obtain ⟨dead, rfl⟩ := done
    exact ⟨valid.withdrawn dead waitKeys, fun _ mem => mem⟩
  | remove workflowId =>
    simp only [apply, bind_eq_ok, exists_unit, refuse_eq_ok, pure_eq_ok] at done
    obtain ⟨-, rfl⟩ := done
    refine ⟨valid.of_columns (fun _ mem => mem)
      (fun w mem => valid.workflows w (List.mem_of_mem_filter mem)) ?_ rfl rfl, fun _ mem => mem⟩
    rintro p - ⟨w, mem, same, alive⟩
    exact ⟨w, List.mem_of_mem_filter mem, same, alive⟩

end InboxTables

/- Histories. -/

structure Database where
  tasks : TaskTables
  inbox : InboxTables

inductive Write where
  | task (write : TaskWrite)
  | inbox (write : InboxWrite)

namespace Database

def empty : Database := ⟨⟨[], [], []⟩, ⟨[], [], [], []⟩⟩

def apply (db : Database) : Write → Except Violation Database
  | .task write => do return { db with tasks := ← db.tasks.apply write }
  | .inbox write => do return { db with inbox := ← db.inbox.apply write }

def commit (db : Database) (writes : List Write) : Except Violation Database :=
  writes.foldlM apply db

/-- Every database that writes from the empty one leave. -/
def Reachable (db : Database) : Prop :=
  ∃ history, empty.commit history = .ok db

structure Valid (db : Database) : Prop where
  tasks : db.tasks.Valid
  inbox : db.inbox.Valid

variable {db next : Database}

def Remembers (db next : Database) : Prop :=
  db.tasks.submitted ⊆ next.tasks.submitted ∧ db.inbox.proposed ⊆ next.inbox.proposed

theorem apply_ok {write : Write} (done : db.apply write = .ok next) (valid : db.Valid) :
    next.Valid ∧ db.Remembers next := by
  cases write with
  | task write =>
    simp only [apply, bind_eq_ok, pure_eq_ok] at done
    obtain ⟨tasks, applied, rfl⟩ := done
    obtain ⟨kept, known⟩ := TaskTables.apply_ok applied valid.tasks
    exact ⟨⟨kept, valid.inbox⟩, known, fun _ mem => mem⟩
  | inbox write =>
    simp only [apply, bind_eq_ok, pure_eq_ok] at done
    obtain ⟨inbox, applied, rfl⟩ := done
    obtain ⟨kept, known⟩ := InboxTables.apply_ok applied valid.inbox
    exact ⟨⟨valid.tasks, kept⟩, fun _ mem => mem, known⟩

theorem commit_ok {writes : List Write} (done : db.commit writes = .ok next) (valid : db.Valid) :
    next.Valid ∧ db.Remembers next := by
  have step : ∀ mid, ∀ write ∈ writes, ∀ after, mid.apply write = .ok after →
      mid.Valid ∧ db.Remembers mid → after.Valid ∧ db.Remembers after := by
    rintro mid write - after applied ⟨kept, tasks, inbox⟩
    obtain ⟨still, tasks', inbox'⟩ := apply_ok applied kept
    exact ⟨still, fun _ mem => tasks' (tasks mem), fun _ mem => inbox' (inbox mem)⟩
  exact @foldlM_invariant _ _ _ apply (fun mid => mid.Valid ∧ db.Remembers mid) _ _ _ step done
    ⟨valid, fun _ mem => mem, fun _ mem => mem⟩

theorem valid_empty : empty.Valid :=
  ⟨⟨by simp [empty], by simp [empty], by simp [empty]⟩, by simp [empty], by simp [empty],
    by simp [empty], by simp [empty], by simp [empty], by simp [empty]⟩

theorem Reachable.valid (reachable : db.Reachable) : db.Valid := by
  obtain ⟨history, done⟩ := reachable
  exact (commit_ok done valid_empty).1

end Database
end Ledgence.Pages
