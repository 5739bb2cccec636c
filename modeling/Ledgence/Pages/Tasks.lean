import Ledgence.Pages.Tables

/-! One page of tasks: a statement over the rows, their decoding, and the checks of the page. -/
open Kit Kit.Checked

namespace Ledgence.Pages

def corrupt (context : String) : ContractError :=
  .unavailable ("invalid PostgreSQL record: " ++ context)

def identifier (column value : String) : Result String := do
  (validateText value 128).mapError fun _ => corrupt column
  return value

def ms (t : Nat) : Result Unit :=
  refuse (maxTimestamp < t) (corrupt "timestamp outside RFC3339 range")

def timestamp (t : Nat) : Result Nat := do
  ms t
  return t

def optionalTime : Option Nat → Result (Option Nat)
  | none => return none
  | some t => some <$> timestamp t

def count (column : String) (n : Nat) : Result Nat := do
  refuse (u32Max < n) (corrupt column)
  return n

def decodeProbe : Option (Option ProviderProbeAssignment) → Result (Option ProviderProbeAssignment)
  | none => return none
  | some bytes => some <$> okOr bytes (corrupt "JSON payload")

def TaskTables.latest (tables : TaskTables) (row : TaskRow) : Option AttemptRow :=
  tables.attempts.find? fun a =>
    a.taskId = row.columns.taskId ∧ a.generation = row.progress.attemptCount

def differs (status : TaskStatus) (nextExpiry : Option Nat) (latest : Option AttemptState) : Bool :=
  let deferred := latest = some .deferred ∧ status.admission.isSome = true
  decide (status.state = .active) != nextExpiry.isSome ||
    decide (latest = some .active) != decide (status.state = .active) ||
    (status.state = .succeeded && latest ≠ some .succeeded) ||
    (status.state = .failed &&
      !(decide deferred && status.attemptCount = maxTaskAttemptGeneration) &&
      !([some AttemptState.failed, some .lost].contains latest)) ||
    (status.state = .queued && !decide deferred &&
      !([none, some AttemptState.failed, some .lost].contains latest)) ||
    (status.state = .cancelled && !decide deferred &&
      !([none, some AttemptState.cancelled, some .failed, some .lost].contains latest))

/-- `codec::status`. -/
def TaskTables.status (tables : TaskTables) (row : TaskRow) : Result TaskStatus := do
  refuse (row.retiringAt.isSome = true) .notFound
  let admissionDeferrals ← count "admission_deferrals" row.progress.admissionDeferrals
  let providerProbe ← decodeProbe row.progress.providerProbe
  let tenantId ← identifier "tenant_id" row.columns.tenantId
  let namespaceId ← identifier "namespace" row.columns.namespaceId
  let taskId ← identifier "task_id" row.columns.taskId
  let runId ← identifier "run_id" row.columns.runId
  let queue ← identifier "queue" row.columns.queue
  let attemptCount ← count "attempt_count" row.progress.attemptCount
  let submittedAt ← timestamp row.columns.submittedAt
  let availableAt ← timestamp row.progress.availableAt
  let terminalAt ← optionalTime row.progress.terminalAt
  let cancelRequestedAt ← optionalTime row.progress.cancelRequestedAt
  let status : TaskStatus :=
    { admission := row.progress.admissionResource.map TaskAdmissionRequirement.mk
      admissionDeferrals
      providerProbe
      scope := ⟨tenantId, namespaceId⟩
      taskId
      runId
      workflowId := row.columns.workflowId
      workflowActivationId := row.progress.workflowActivationId
      queue
      correlationKey := row.columns.correlationKey
      state := row.progress.state
      attemptCount
      currentAttemptId := row.progress.currentAttemptId
      latestAttemptId := (tables.latest row).map AttemptRow.attemptId
      submittedAt
      availableAt
      terminalAt
      cancelRequestedAt }
  status.validate
  let nextExpiry ← optionalTime row.progress.nextExpiry
  refuse (differs status nextExpiry ((tables.latest row).map AttemptRow.state) = true)
    (corrupt "task status and latest attempt state differ")
  return status

def TaskRow.lists (scope : Scope) (filters : TaskFilters) (row : TaskRow) : Bool :=
  row.retiringAt.isNone && row.columns.tenantId == scope.tenantId &&
    row.columns.namespaceId == scope.namespaceId && filters.state.all (· == row.progress.state) &&
    filters.queue.all (· == row.columns.queue) &&
    filters.correlationKey.all (fun key => row.columns.correlationKey == some key) &&
    filters.submittedFrom.all (· ≤ row.columns.submittedAt) &&
    filters.submittedUntil.all (row.columns.submittedAt < ·)

def TaskRow.position (row : TaskRow) : TaskPosition :=
  ⟨row.columns.submittedAt, row.columns.taskId⟩

def TaskTables.listed (tables : TaskTables) (scope : Scope) (filters : TaskFilters) : List TaskRow :=
  tables.rows.filter (TaskRow.lists scope filters)

/-- `discovery::query`: behind the position, the newest first, one more than the limit. -/
def TaskTables.query (tables : TaskTables) (scope : Scope) (request : TaskListQuery)
    (position : Option TaskPosition) : List TaskRow :=
  Keyset.select (fun row => row.position.place) (position.map TaskPosition.place) request.limit
    (tables.listed scope request.filters)

def requireScope (bound : Option Scope) (scope : Scope) : Result Unit := do
  scope.validate
  refuse (bound.any (· ≠ scope) = true) .notFound

def followingCursor (serde : Serde) (scope : Scope) (request : TaskListQuery) (more : Bool)
    (items : List TaskStatus) : Result (Option String) :=
  if more = true then do
    let last ← okOr items.getLast? (.unavailable "invalid task discovery page")
    some <$> request.nextCursor serde scope last.position
  else return none

def TaskTables.listTasksOnce (serde : Serde) (bound : Option Scope) (tables : TaskTables)
    (scope : Scope) (request : TaskListQuery) : Result TaskPage := do
  requireScope bound scope
  let position ← request.validate serde scope
  let rows := tables.query scope request position
  let items ← (rows.take request.limit).mapM tables.status
  let nextCursor ← followingCursor serde scope request (request.limit < rows.length) items
  let page : TaskPage := ⟨items, nextCursor⟩
  page.validate serde scope request
  return page

/- Decoding. -/

section Status
variable {tables : TaskTables} {row : TaskRow} {task : TaskStatus} {scope : Scope}
  {filters : TaskFilters}

@[simp] theorem identifier_eq_ok {column value v : String} :
    identifier column value = .ok v ↔ ValidText 128 value ∧ value = v := by
  simp [identifier]

@[simp] theorem timestamp_eq_ok {t u : Nat} : timestamp t = .ok u ↔ t ≤ maxTimestamp ∧ t = u := by
  simp [timestamp, ms]

@[simp] theorem count_eq_ok {column : String} {n m : Nat} :
    count column n = .ok m ↔ n ≤ u32Max ∧ n = m := by
  simp [count]

theorem TaskTables.status_ok (decoded : tables.status row = .ok task) :
    row.retiringAt = none ∧ task.validate = .ok () ∧
      task.scope = ⟨row.columns.tenantId, row.columns.namespaceId⟩ ∧
      task.position = row.position ∧ task.queue = row.columns.queue ∧
      task.correlationKey = row.columns.correlationKey ∧ task.state = row.progress.state := by
  simp only [status, bind_eq_ok, exists_unit, refuse_eq_ok, identifier_eq_ok, timestamp_eq_ok,
    count_eq_ok, pure_eq_ok, Option.not_isSome_iff_eq_none] at decoded
  obtain ⟨visible, _, ⟨-, rfl⟩, _, -, _, ⟨-, rfl⟩, _, ⟨-, rfl⟩, _, ⟨-, rfl⟩, _, ⟨-, rfl⟩, _,
    ⟨-, rfl⟩, _, ⟨-, rfl⟩, _, ⟨-, rfl⟩, _, ⟨-, rfl⟩, _, -, _, -, valid, _, -, -, rfl⟩ := decoded
  exact ⟨visible, valid, rfl, rfl, rfl, rfl, rfl⟩

/-- The rows of a list are those whose status is of the scope and matches the filters. -/
theorem TaskTables.lists_iff (decoded : tables.status row = .ok task) :
    row.lists scope filters = true ↔ task.scope = scope ∧ filters.matchesStatus task = true := by
  obtain ⟨visible, -, named, position, queue, key, state⟩ := status_ok decoded
  have time : task.submittedAt = row.columns.submittedAt := congrArg TaskPosition.submittedAt position
  obtain ⟨tenantId, namespaceId⟩ := scope
  simp only [TaskRow.lists, TaskFilters.matchesStatus, visible, named, queue, key, state, time,
    Option.isNone_none, Bool.true_and, Bool.and_eq_true, beq_iff_eq, Scope.mk.injEq]
  tauto

end Status

/- A page of the list. -/

theorem place_injective : Function.Injective TaskPosition.place := by
  intro a b same
  have both : (a.submittedAt, textKey a.taskId) = (b.submittedAt, textKey b.taskId) := same
  obtain ⟨time, id⟩ := Prod.mk.inj both
  cases a
  cases b
  exact congrArg₂ TaskPosition.mk time (textKey_injective id)

section Listed
variable {serde : Serde} {bound : Option Scope} {tables : TaskTables} {scope : Scope}
  {request : TaskListQuery} {page : TaskPage} {position : Option TaskPosition} {filters : TaskFilters}

def TaskTables.visit (tables : TaskTables) (scope : Scope) (request : TaskListQuery)
    (position : Option TaskPosition) : Keyset.Visit (Nat ×ₗ List Nat)ᵒᵈ TaskRow where
  rows := tables.listed scope request.filters
  items := (tables.query scope request position).take request.limit
  next := Keyset.next (position.map TaskPosition.place) request.limit
    ((tables.listed scope request.filters).map fun row => row.position.place)

theorem TaskTables.visit_reads (some : 0 < request.limit) :
    (tables.visit scope request position).Reads (fun row => row.position.place)
      (position.map TaskPosition.place) :=
  ⟨request.limit, some, rfl, rfl⟩

theorem TaskTables.Valid.ids (valid : tables.Valid) :
    ((tables.listed scope filters).map fun row => row.columns.taskId).Nodup :=
  valid.rows.sublist (List.filter_sublist.map _)

theorem TaskTables.Valid.places (valid : tables.Valid) :
    ((tables.listed scope filters).map fun row => row.position.place).Nodup := by
  have ids : ((tables.listed scope filters).map fun row => row.columns.taskId).Nodup := valid.ids
  rw [List.Nodup, List.pairwise_map] at ids ⊢
  refine ids.imp fun apart same => apart ?_
  exact congrArg TaskPosition.taskId (place_injective same)

/-- The position behind the page is that of its last row, and there is one if rows are left. -/
theorem TaskTables.visit_next : (tables.visit scope request position).next =
    if request.limit < (tables.query scope request position).length then
      ((tables.visit scope request position).items.map fun row => row.position.place).getLast?
    else none := by
  have items : (tables.visit scope request position).items.map (fun row => row.position.place) =
      Keyset.items (position.map TaskPosition.place) request.limit
        ((tables.listed scope request.filters).map fun row => row.position.place) :=
    Keyset.map_items rfl
  rw [items]
  simp only [visit, query, Keyset.next, Keyset.length_select]

theorem TaskTables.listTasksOnce_ok (done : tables.listTasksOnce serde bound scope request = .ok page) :
    ∃ position, requireScope bound scope = .ok () ∧ request.validate serde scope = .ok position ∧
      List.Forall₂ (fun row task => tables.status row = .ok task)
        (tables.visit scope request position).items page.items ∧
      (if request.limit < (tables.query scope request position).length then
        ∃ last text, page.items.getLast? = some last ∧
          request.nextCursor serde scope last.position = .ok text ∧ page.nextCursor = some text
      else page.nextCursor = none) ∧
      page.validate serde scope request = .ok () := by
  simp only [listTasksOnce, bind_eq_ok, exists_unit, pure_eq_ok, mapM_eq_ok, followingCursor,
    decide_eq_true_eq] at done
  obtain ⟨served, position, checked, items, read, cursor, following, valid, rfl⟩ := done
  refine ⟨position, served, checked, read, ?_, valid⟩
  by_cases more : request.limit < (tables.query scope request position).length
  · rw [if_pos more] at following ⊢
    simp only [bind_eq_ok, okOr_eq_ok, map_eq_ok] at following
    obtain ⟨last, here, text, written, rfl⟩ := following
    exact ⟨last, text, here, written, rfl⟩
  · rw [if_neg more] at following ⊢
    exact (pure_eq_ok.mp following).symm

theorem TaskTables.positions_eq {items : List TaskStatus}
    (read : List.Forall₂ (fun row task => tables.status row = .ok task)
      (tables.visit scope request position).items items) :
    items.map TaskStatus.position =
      (tables.visit scope request position).items.map TaskRow.position :=
  Keyset.map_eq_of_forall₂ read fun _ _ _ decoded => (status_ok decoded).2.2.2.1

/-- A page without a cursor leaves no rows, and one with a cursor goes on behind its last row. -/
theorem TaskTables.nextCursor_ok (correct : serde.Correct)
    (done : tables.listTasksOnce serde bound scope request = .ok page)
    (checked : request.validate serde scope = .ok position) :
    (page.nextCursor = none → (tables.visit scope request position).next = none) ∧
    ∀ text, page.nextCursor = some text → ∃ p : TaskPosition,
      (tables.visit scope request position).next = some p.place ∧
      ∀ (other : TaskListQuery), other.cursor = some text → other.filters = request.filters →
        ∀ q, other.validate serde scope = .ok q → q = some p := by
  obtain ⟨position', served, checked', read, following, valid⟩ := listTasksOnce_ok done
  obtain rfl : position' = position := Except.ok.inj (checked'.symm.trans checked)
  rw [visit_next]
  by_cases more : request.limit < (tables.query scope request position').length
  · rw [if_pos more] at following ⊢
    obtain ⟨last, text, here, written, cursor⟩ := following
    refine ⟨fun ended => absurd (cursor.symm.trans ended) (by simp), fun text' given => ?_⟩
    obtain rfl : text = text' := Option.some.inj (cursor.symm.trans given)
    have places := congrArg (fun ps => (ps.map TaskPosition.place).getLast?) (positions_eq read)
    simp only [List.map_map, List.getLast?_map, here, Option.map_some] at places
    refine ⟨last.position, ?_, fun other sameText sameFilters q accepted => ?_⟩
    · rw [List.getLast?_map]
      exact places.symm
    · have inside : last.position.validate request.filters = .ok () := by
        simp only [TaskListQuery.nextCursor, bind_eq_ok, exists_unit] at written
        obtain ⟨-, -, inside, -⟩ := written
        exact inside
      obtain ⟨text', same, -, -, decodes⟩ := TaskListQuery.nextCursor_ok correct checked' inside
      obtain rfl : text = text' := Except.ok.inj (written.symm.trans same)
      obtain ⟨-, -, -, ⟨absent, -⟩ | ⟨text', p, given', rfl, decoded⟩⟩ :=
        TaskListQuery.validate_eq_ok.mp accepted
      · rw [sameText] at absent
        cases absent
      · obtain rfl : text = text' := Option.some.inj (sameText.symm.trans given')
        rw [decodes, if_pos ⟨rfl, sameFilters⟩] at decoded
        exact congrArg some (Except.ok.inj decoded).symm
  · rw [if_neg more] at following ⊢
    refine ⟨fun _ => rfl, fun text given => ?_⟩
    rw [following] at given
    cases given

/-- Where the statuses of all rows of a list decode, there is a page of it. -/
theorem TaskTables.listTasksOnce_sound (correct : serde.Correct) (valid : tables.Valid)
    (served : requireScope bound scope = .ok ())
    (checked : request.validate serde scope = .ok position)
    (sound : ∀ row ∈ tables.listed scope request.filters, ∃ task, tables.status row = .ok task) :
    ∃ page, tables.listTasksOnce serde bound scope request = .ok page := by
  let taken := (tables.query scope request position).take request.limit
  have inside : ∀ row ∈ taken, row ∈ tables.listed scope request.filters :=
    fun row mem => Keyset.mem_of_mem_select (List.mem_of_mem_take mem)
  obtain ⟨items, mapped⟩ := exists_mapM fun row mem => sound row (inside row mem)
  have read := mapM_eq_ok.mp mapped
  have each : ∀ row ∈ tables.listed scope request.filters, ∀ task, tables.status row = .ok task →
      task.validate = .ok () ∧ task.scope = scope ∧ request.filters.matchesStatus task = true := by
    intro row mem task decoded
    obtain ⟨-, accepted, -⟩ := status_ok decoded
    exact ⟨accepted, (lists_iff decoded).mp (List.mem_filter.mp mem).2⟩
  have items_each : ∀ task ∈ items, task.validate = .ok () ∧ task.scope = scope ∧
      request.filters.matchesStatus task = true := by
    intro task mem
    obtain ⟨row, here, decoded⟩ := Keyset.exists_of_mem_forall₂ read mem
    exact each row (inside row here) task decoded
  have passed : Keyset.checkItems (TaskPage.checkItem scope request.filters)
      (fun task => task.position.place) TaskStatus.taskId TaskPage.inconsistent
      (position.map TaskPosition.place) [] items = .ok () := by
    refine Keyset.checkItems_select valid.places valid.ids read fun row mem task decoded => ?_
    have same := (status_ok decoded).2.2.2.1
    exact ⟨TaskPage.checkItem_eq_ok.mpr (each row mem task decoded),
      congrArg TaskPosition.place same, congrArg TaskPosition.taskId same⟩
  have short : items.length ≤ request.limit := by
    rw [← read.length_eq]
    exact List.length_take_le _ _
  obtain ⟨-, -, ⟨positive, limit⟩, -⟩ := TaskListQuery.validate_eq_ok.mp checked
  have page_valid : ∀ nextCursor : Option String, (∀ text, nextCursor = some text →
      Json.size (.str text) ≤ 2 * taskCursorMaxBytes + 2 ∧ items.length = request.limit ∧
        ∃ last, items.getLast? = some last ∧
          request.decodeCursor serde scope text = .ok last.position) →
      (TaskPage.mk items nextCursor).validate serde scope request = .ok () := by
    intro nextCursor cursor
    have size : (TaskPage.mk items nextCursor).toJson.size ≤ taskPageMaxBytes :=
      TaskPage.size_le (short.trans limit) (fun task mem => (items_each task mem).1)
        fun text given => (cursor text given).1
    simp only [TaskPage.validate, bind_eq_ok, checked, Except.ok.injEq, exists_eq_left', refuse_eq_ok,
      exists_unit, passed, ifSome_eq_ok, ok_of_mapError, checkEncodedSize, not_lt, true_and]
    refine ⟨short, fun text given => ?_, size⟩
    obtain ⟨-, full, last, here, decoded⟩ := cursor text given
    exact ⟨last.position, decoded, by simp [full, here]⟩
  by_cases more : request.limit < (tables.query scope request position).length
  · have full : items.length = request.limit := by
      rw [← read.length_eq, List.length_take]
      omega
    obtain ⟨last, here⟩ : ∃ last, items.getLast? = some last := by
      cases ends : items.getLast? with
      | none =>
        rw [List.getLast?_eq_none_iff.mp ends] at full
        exact absurd full (by simp; omega)
      | some last => exact ⟨last, rfl⟩
    obtain ⟨accepted, -, matched⟩ := items_each last (List.mem_of_getLast? here)
    obtain ⟨text, written, -, size, decodes⟩ := TaskListQuery.nextCursor_ok correct checked
      (TaskPage.position_valid accepted matched)
    refine ⟨⟨items, some text⟩, ?_⟩
    have good := page_valid (some text) fun text' given => by
      obtain rfl := Option.some.inj given
      exact ⟨size, full, last, here, by rw [decodes, if_pos ⟨rfl, rfl⟩]⟩
    have following : followingCursor serde scope request
        (request.limit < (tables.query scope request position).length) items =
        .ok (some text) := by
      simp [followingCursor, more, here, written]
    simp only [listTasksOnce, bind_eq_ok, exists_unit, pure_eq_ok]
    exact ⟨served, position, checked, items, mapped, _, following, good, rfl⟩
  · have good := page_valid none fun text given => by cases given
    have following : followingCursor serde scope request
        (request.limit < (tables.query scope request position).length) items = .ok none := by
      simp [followingCursor, more]
    refine ⟨⟨items, none⟩, ?_⟩
    simp only [listTasksOnce, bind_eq_ok, exists_unit, pure_eq_ok]
    exact ⟨served, position, checked, items, mapped, _, following, good, rfl⟩

end Listed
end Ledgence.Pages
