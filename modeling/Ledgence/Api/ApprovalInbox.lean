import Ledgence.Api.Discovery

/-! Discovery of approval requests by pages: the query with its cursors, and the checks of a page. -/
open Kit Kit.Checked

namespace Ledgence

def approvalInboxMaxLimit : Nat := 100
def approvalInboxCursorMaxBytes : Nat := 8192
def approvalInboxPageMaxBytes : Nat := 1024 * 1024
def workflowMaxDelayMs : Nat := 365 * 24 * 60 * 60 * 1000

inductive ApprovalStatus where
  | pending
  | approved
  | rejected
  | expired
  | cancelled
  deriving DecidableEq

def ApprovalStatus.name : ApprovalStatus → String
  | .pending => "pending"
  | .approved => "approved"
  | .rejected => "rejected"
  | .expired => "expired"
  | .cancelled => "cancelled"

def ApprovalStatus.fromJson : Json → Option ApprovalStatus :=
  Json.variant [("pending", .pending), ("approved", .approved), ("rejected", .rejected),
    ("expired", .expired), ("cancelled", .cancelled)]

def approvalTimestamp (t : Nat) : Result Unit :=
  refuse (maxTimestamp < t) (invalid "approval timestamp exceeds supported range")

structure ApprovalInboxQuery where
  scope : Scope
  status : Option ApprovalStatus
  programId : Option String
  dueBefore : Option Nat
  cursor : Option String
  limit : Nat
  deriving DecidableEq

structure ApprovalInboxPosition where
  deadline : Nat
  workflowId : String
  key : String
  deriving DecidableEq

namespace ApprovalInboxPosition

def rank (position : ApprovalInboxPosition) : Nat ×ₗ List Nat ×ₗ List Nat :=
  toLex (position.deadline, toLex (textKey position.workflowId, textKey position.key))

def validate (position : ApprovalInboxPosition) : Result Unit := do
  approvalTimestamp position.deadline
  validateText position.workflowId 128
  validateText position.key 128

def toJson (position : ApprovalInboxPosition) : Json :=
  .object [("deadline", some (.nat position.deadline)),
    ("workflow_id", some (.str position.workflowId)), ("key", some (.str position.key))]

def fromJson (v : Json) : Option ApprovalInboxPosition := do
  let field ← Json.struct ["deadline", "workflow_id", "key"] v
  let deadline ← Json.required (Json.unsigned u64Max) (field "deadline")
  let workflowId ← Json.required Json.asStr (field "workflow_id")
  let key ← Json.required Json.asStr (field "key")
  return ⟨deadline, workflowId, key⟩

end ApprovalInboxPosition

structure ApprovalInboxCursor where
  version : Nat
  scope : Scope
  status : Option ApprovalStatus
  programId : Option String
  dueBefore : Option Nat
  position : ApprovalInboxPosition

namespace ApprovalInboxCursor

def toJson (cursor : ApprovalInboxCursor) : Json :=
  .object [("version", some (.nat cursor.version)), ("scope", some cursor.scope.toJson),
    ("status", some (.opt (cursor.status.map fun status => .str status.name))),
    ("program_id", some (.opt (cursor.programId.map .str))),
    ("due_before", cursor.dueBefore.map .nat), ("position", some cursor.position.toJson)]

def fromJson (v : Json) : Option ApprovalInboxCursor := do
  let field ← Json.struct
    ["version", "scope", "status", "program_id", "due_before", "position"] v
  let version ← Json.required (Json.unsigned 255) (field "version")
  let scope ← Json.required Scope.fromJson (field "scope")
  let status ← Json.optional ApprovalStatus.fromJson (field "status")
  let programId ← Json.optional Json.asStr (field "program_id")
  let dueBefore ← Json.optional (Json.unsigned u64Max) (field "due_before")
  let position ← Json.required ApprovalInboxPosition.fromJson (field "position")
  return ⟨version, scope, status, programId, dueBefore, position⟩

end ApprovalInboxCursor

structure ApprovalInboxItem where
  workflowId : String
  key : String
  activationId : String
  programId : String
  programVersion : String
  actionName : String
  actionVersion : String
  createdAt : Nat
  deadline : Nat
  status : ApprovalStatus
  deriving DecidableEq

namespace ApprovalInboxItem

def position (item : ApprovalInboxItem) : ApprovalInboxPosition :=
  ⟨item.deadline, item.workflowId, item.key⟩

def validate (item : ApprovalInboxItem) : Result Unit := do
  item.position.validate
  validateText item.activationId 128
  lift (ProgramRef.mk item.programId item.programVersion).validate
  validateText item.actionName 512
  validateText item.actionVersion 128
  refuse (item.deadline < item.createdAt ∨ workflowMaxDelayMs < item.deadline - item.createdAt)
    (invalid "invalid approval inbox timestamps")

def toJson (item : ApprovalInboxItem) : Json :=
  .object [("workflow_id", some (.str item.workflowId)), ("key", some (.str item.key)),
    ("activation_id", some (.str item.activationId)), ("program_id", some (.str item.programId)),
    ("program_version", some (.str item.programVersion)),
    ("action_name", some (.str item.actionName)),
    ("action_version", some (.str item.actionVersion)), ("created_at", some (.nat item.createdAt)),
    ("deadline", some (.nat item.deadline)), ("status", some (.str item.status.name))]

end ApprovalInboxItem

namespace ApprovalInboxQuery

def mismatched : ContractError := invalid "invalid or mismatched approval inbox cursor"

def decodeCursor (serde : Serde) (query : ApprovalInboxQuery) (text : String) :
    Result ApprovalInboxPosition := do
  let bytes ← okOr (Cursor.decode text approvalInboxCursorMaxBytes) mismatched
  let cursor ← okOr ((decodeUniqueJson serde bytes (approvalInboxCursorMaxBytes / 2)).toOption.bind
    ApprovalInboxCursor.fromJson) mismatched
  refuse (cursor.version ≠ 1 ∨ cursor.scope ≠ query.scope ∨ cursor.status ≠ query.status ∨
      cursor.programId ≠ query.programId ∨ cursor.dueBefore ≠ query.dueBefore ∨
      query.dueBefore.any (· ≤ cursor.position.deadline) = true)
    mismatched
  cursor.position.validate
  return cursor.position

def validate (serde : Serde) (query : ApprovalInboxQuery) : Result (Option ApprovalInboxPosition) := do
  query.scope.validate
  ifSome query.programId fun id => lift (ProgramRef.mk id "1").validate
  ifSome query.dueBefore approvalTimestamp
  refuse (query.limit < 1 ∨ approvalInboxMaxLimit < query.limit)
    (invalid "approval inbox limit must be between 1 and 100")
  match query.cursor with
  | none => return none
  | some text => some <$> query.decodeCursor serde text

def nextCursor (query : ApprovalInboxQuery) (item : ApprovalInboxItem) : Result String := do
  let encoded := utf8 (ApprovalInboxCursor.mk 1 query.scope query.status query.programId
    query.dueBefore item.position).toJson.text
  refuse (approvalInboxCursorMaxBytes / 2 < encoded.length)
    (invalid "approval inbox cursor exceeds size limit")
  return Cursor.encode encoded

def matchesItem (query : ApprovalInboxQuery) (item : ApprovalInboxItem) : Bool :=
  query.dueBefore.all (item.deadline < ·) && query.status.all (· == item.status) &&
    query.programId.all (· == item.programId)

end ApprovalInboxQuery

structure ApprovalInboxPage where
  items : List ApprovalInboxItem
  nextCursor : Option String

namespace ApprovalInboxPage

def toJson (page : ApprovalInboxPage) : Json :=
  .object [("items", some (.arr (page.items.map ApprovalInboxItem.toJson))),
    ("next_cursor", some (.opt (page.nextCursor.map .str)))]

def inconsistent : ContractError := .unavailable "inconsistent approval inbox page"

def checkItem (query : ApprovalInboxQuery) (item : ApprovalInboxItem) : Result Unit := do
  item.validate.mapError fun _ => inconsistent
  refuse (query.matchesItem item = false) inconsistent

def validateFor (serde : Serde) (page : ApprovalInboxPage) (query : ApprovalInboxQuery) :
    Result Unit := do
  let previous ← query.validate serde
  refuse (query.limit < page.items.length) inconsistent
  Keyset.checkItems (checkItem query) (fun item => item.position.rank)
    (fun item => (item.workflowId, item.key)) inconsistent
    (previous.map ApprovalInboxPosition.rank) [] page.items
  ifSome page.nextCursor fun cursor => do
    refuse (page.items.length ≠ query.limit) inconsistent
    let last ← okOr page.items.getLast? inconsistent
    let next ← query.nextCursor last
    refuse (cursor ≠ next) inconsistent

end ApprovalInboxPage

/- Cursors. -/

theorem ApprovalStatus.fromJson_name (status : ApprovalStatus) :
    ApprovalStatus.fromJson (.str status.name) = some status := by
  cases status <;> rfl

theorem size_programField_le {field value : String}
    (checked : ProgramRef.validateField field value = .ok ()) : Json.size (.str value) ≤ 258 := by
  simp only [ProgramRef.validateField, refuse_eq_ok, not_or, not_lt, not_not, List.all_eq_true]
    at checked
  obtain ⟨-, short, -, -, plain⟩ := checked
  have printable : ∀ c ∈ value.toList, 32 ≤ c.toNat := by
    intro c mem
    have each := plain c mem
    simp only [asciiLower, asciiDigit, Bool.or_eq_true, Bool.and_eq_true, decide_eq_true_eq,
      beq_iff_eq] at each
    rcases each with (((low | digit) | rfl) | rfl) | rfl
    · omega
    · omega
    all_goals decide
  have size := Json.size_str_le printable
  simp only [byteLen] at short
  omega

namespace ApprovalInboxCursor
variable {cursor : ApprovalInboxCursor}

structure Valid (cursor : ApprovalInboxCursor) : Prop where
  version : cursor.version = 1
  tenant : ValidText 128 cursor.scope.tenantId
  namespaceId : ValidText 128 cursor.scope.namespaceId
  programId : ∀ id, cursor.programId = some id →
    ProgramRef.validateField "program id" id = .ok ()
  dueBefore : ∀ t, cursor.dueBefore = some t → t ≤ maxTimestamp
  deadline : cursor.position.deadline ≤ maxTimestamp
  workflowId : ValidText 128 cursor.position.workflowId
  key : ValidText 128 cursor.position.key

theorem fromJson_toJson (valid : cursor.Valid) : fromJson cursor.toJson = some cursor := by
  have version : Json.unsigned 255 (.nat cursor.version) = some cursor.version :=
    Json.unsigned_nat (valid.version ▸ by decide)
  have status : Json.optional ApprovalStatus.fromJson
      (some (.opt (cursor.status.map fun s => .str s.name))) = some cursor.status :=
    Json.optional_opt (fun s _ => ApprovalStatus.fromJson_name s) (by simp)
  have program : Json.optional Json.asStr (some (.opt (cursor.programId.map .str))) =
      some cursor.programId :=
    Json.optional_opt (fun s _ => Json.asStr_str s) (by simp)
  have due : Json.optional (Json.unsigned u64Max) (cursor.dueBefore.map .nat) =
      some cursor.dueBefore :=
    Json.optional_map
      (fun t given => Json.unsigned_nat (TaskCursor.maxTimestamp_le (valid.dueBefore t given)))
      (by simp [Json.nat])
  have deadline := Json.unsigned_nat (TaskCursor.maxTimestamp_le valid.deadline)
  have position : ApprovalInboxPosition.fromJson cursor.position.toJson = some cursor.position := by
    rw [ApprovalInboxPosition.fromJson, ApprovalInboxPosition.toJson,
      Json.struct_object (by rfl) (by simp)]
    simp [List.lookup_cons, deadline]
  rw [fromJson, toJson, Json.struct_object (by rfl) (by simp)]
  simp [List.lookup_cons, version, Scope.fromJson_toJson, status, program, due, position]

theorem compact {serde : Serde} (valid : cursor.Valid) : Compact serde 2 cursor.toJson := by
  refine compact_object (by simp) fun k v mem => ?_
  simp only [List.mem_cons, Prod.mk.injEq, Option.some.injEq, List.not_mem_nil, or_false] at mem
  obtain ⟨-, rfl⟩ | ⟨-, rfl⟩ | ⟨-, rfl⟩ | ⟨-, rfl⟩ | ⟨-, due⟩ | ⟨-, rfl⟩ := mem
  · exact compact_nat (valid.version ▸ by decide)
  · exact compact_scope _
  · exact compact_opt fun s _ => compact_str _
  · exact compact_opt fun s _ => compact_str _
  · obtain ⟨t, given, rfl⟩ := Option.map_eq_some_iff.mp due.symm
    exact TaskCursor.compact_time (valid.dueBefore t given)
  · refine compact_object (by simp) fun k v mem => ?_
    simp only [List.mem_cons, Prod.mk.injEq, Option.some.injEq, List.not_mem_nil, or_false] at mem
    obtain ⟨-, rfl⟩ | ⟨-, rfl⟩ | ⟨-, rfl⟩ := mem
    · exact TaskCursor.compact_time valid.deadline
    · exact compact_str _
    · exact compact_str _

theorem size_le (valid : cursor.Valid) :
    Json.size cursor.toJson ≤ approvalInboxCursorMaxBytes / 2 := by
  have position : Json.size cursor.position.toJson ≤ 700 := by
    refine (Json.size_object_le _ [15, 258, 258] ?_).trans ?_
    · simp only [List.forall₂_cons, List.Forall₂.nil, and_true, Option.some.injEq, forall_eq']
      exact ⟨TaskStatus.size_time_le valid.deadline, valid.workflowId.size_le, valid.key.size_le⟩
    · simp only [List.map_cons, List.map_nil]
      decide
  refine (Json.size_object_le _ [10, 600, 11, 258, 15, 700] ?_).trans ?_
  · simp only [List.forall₂_cons, List.Forall₂.nil, and_true, Option.some.injEq, forall_eq',
      Option.map_eq_some_iff]
    refine ⟨?_, TaskStatus.size_scope_le valid.tenant valid.namespaceId, ?_, ?_, ?_, position⟩
    · rw [valid.version]
      decide
    · exact TaskStatus.size_opt_le (by decide) fun s _ => by cases s <;> decide
    · exact TaskStatus.size_opt_le (by decide) fun id given =>
        size_programField_le (valid.programId id given)
    · rintro v ⟨t, given, rfl⟩
      exact TaskStatus.size_time_le (valid.dueBefore t given)
  · simp only [List.map_cons, List.map_nil]
    decide

end ApprovalInboxCursor

theorem ApprovalInboxPosition.validate_eq_ok {position : ApprovalInboxPosition} :
    position.validate = .ok () ↔ position.deadline ≤ maxTimestamp ∧
      ValidText 128 position.workflowId ∧ ValidText 128 position.key := by
  simp [ApprovalInboxPosition.validate, approvalTimestamp]

namespace ApprovalInboxQuery
variable {serde : Serde} {query : ApprovalInboxQuery} {item : ApprovalInboxItem}

def Agrees (query other : ApprovalInboxQuery) : Prop :=
  other.scope = query.scope ∧ other.status = query.status ∧ other.programId = query.programId ∧
    other.dueBefore = query.dueBefore

instance (query other : ApprovalInboxQuery) : Decidable (query.Agrees other) :=
  inferInstanceAs (Decidable (_ ∧ _ ∧ _ ∧ _))

/-- What the checks of a query say, with its position read from its cursor. -/
theorem validate_eq_ok {previous : Option ApprovalInboxPosition} :
    query.validate serde = .ok previous ↔ query.scope.validate = .ok () ∧
      (∀ id, query.programId = some id → (ProgramRef.mk id "1").validate = .ok ()) ∧
      (∀ t, query.dueBefore = some t → t ≤ maxTimestamp) ∧
      (1 ≤ query.limit ∧ query.limit ≤ approvalInboxMaxLimit) ∧
      ((query.cursor = none ∧ previous = none) ∨ ∃ text position, query.cursor = some text ∧
        previous = some position ∧ query.decodeCursor serde text = .ok position) := by
  simp only [validate, bind_eq_ok, exists_unit, refuse_eq_ok, not_or, not_lt, ifSome_eq_ok,
    lift_eq_ok, approvalTimestamp]
  refine and_congr_right' (and_congr_right' (and_congr_right' (and_congr_right' ?_)))
  cases given : query.cursor with
  | none =>
    simp only [pure_eq_ok, true_and, reduceCtorEq, false_and, exists_false, or_false]
    exact eq_comm
  | some text =>
    simp only [map_eq_ok, reduceCtorEq, false_and, false_or, Option.some.injEq]
    constructor
    · rintro ⟨position, decoded, rfl⟩
      exact ⟨text, position, rfl, rfl, decoded⟩
    · rintro ⟨_, position, rfl, rfl, decoded⟩
      exact ⟨position, decoded, rfl⟩

/-- The next cursor is written for every valid position, within its limit, and reads back where the
filters allow the position, under the same scope and filters and under no other. -/
theorem nextCursor_ok (correct : serde.Correct) {previous : Option ApprovalInboxPosition}
    (checked : query.validate serde = .ok previous) (inside : item.position.validate = .ok ()) :
    ∃ text, query.nextCursor item = .ok text ∧ byteLen text ≤ approvalInboxCursorMaxBytes ∧
      Json.size (.str text) ≤ 2 * approvalInboxCursorMaxBytes + 2 ∧
      ∀ other : ApprovalInboxQuery, other.decodeCursor serde text =
        if query.Agrees other ∧ query.dueBefore.all (item.deadline < ·) = true then .ok item.position
        else .error mismatched := by
  obtain ⟨named, program, times, -, -⟩ := validate_eq_ok.mp checked
  simp only [Scope.validate, bind_eq_ok, exists_unit, validateText_eq_ok] at named
  obtain ⟨deadline, workflow, key⟩ := ApprovalInboxPosition.validate_eq_ok.mp inside
  have programId : ∀ id, query.programId = some id →
      ProgramRef.validateField "program id" id = .ok () := by
    intro id given
    have both := program id given
    simp only [ProgramRef.validate, bind_eq_ok, exists_unit] at both
    exact both.1
  have valid : (ApprovalInboxCursor.mk 1 query.scope query.status query.programId query.dueBefore
      item.position).Valid :=
    ⟨rfl, named.1, named.2, programId, times, deadline, workflow, key⟩
  let v := (ApprovalInboxCursor.mk 1 query.scope query.status query.programId query.dueBefore
    item.position).toJson
  have size : (utf8 v.text).length ≤ approvalInboxCursorMaxBytes / 2 := by
    rw [length_utf8]
    exact ApprovalInboxCursor.size_le valid
  have fits : 2 * (utf8 v.text).length ≤ approvalInboxCursorMaxBytes := by
    have : approvalInboxCursorMaxBytes = 8192 := rfl
    omega
  have short : byteLen (Cursor.encode (utf8 v.text)) ≤ approvalInboxCursorMaxBytes := by
    rw [Cursor.byteLen_encode]
    exact fits
  refine ⟨Cursor.encode (utf8 v.text), ?_, short, Cursor.size_encode_le short, fun other => ?_⟩
  · simp [nextCursor, v, refuse, not_lt.mpr size]
  · have bytes := Cursor.decode_encode (utf8_text_ne_nil v) fits
    have decoded : decodeUniqueJson serde (utf8 v.text) (approvalInboxCursorMaxBytes / 2) = .ok v :=
      (ApprovalInboxCursor.compact valid).decode correct (by decide)
        (ApprovalInboxCursor.size_le valid)
    have read := ApprovalInboxCursor.fromJson_toJson valid
    rw [decodeCursor, bytes, okOr, ok_bind, decoded, Except.toOption, Option.bind_some, read, okOr,
      ok_bind]
    have late : query.dueBefore.any (· ≤ item.position.deadline) = true ↔
        ¬ query.dueBefore.all (item.deadline < ·) = true := by
      change query.dueBefore.any (· ≤ item.deadline) = true ↔ _
      cases query.dueBefore <;> simp
    by_cases same : query.Agrees other ∧ query.dueBefore.all (item.deadline < ·) = true
    · obtain ⟨⟨scopes, statuses, programs, dues⟩, early⟩ := same
      have inTime : query.dueBefore.any (· ≤ item.position.deadline) = false :=
        Bool.eq_false_iff.mpr fun h => late.mp h early
      rw [if_pos ⟨⟨scopes, statuses, programs, dues⟩, early⟩, inside]
      simp [refuse, scopes, statuses, programs, dues, inTime]
    · rw [if_neg same, refuse, if_pos]
      · rfl
      · by_contra agreed
        simp only [not_or, not_not] at agreed
        obtain ⟨-, scopes, statuses, programs, dues, early⟩ := agreed
        rw [← dues] at early
        exact same ⟨⟨scopes.symm, statuses.symm, programs.symm, dues.symm⟩,
          not_not.mp fun h => early (late.mpr h)⟩

end ApprovalInboxQuery

/- Pages. -/

namespace ApprovalInboxItem
variable {item : ApprovalInboxItem}

theorem validate_eq_ok : item.validate = .ok () ↔ item.position.validate = .ok () ∧
    ValidText 128 item.activationId ∧
    (ProgramRef.mk item.programId item.programVersion).validate = .ok () ∧
    ValidText 512 item.actionName ∧ ValidText 128 item.actionVersion ∧
    item.createdAt ≤ item.deadline ∧ item.deadline - item.createdAt ≤ workflowMaxDelayMs := by
  simp [validate]

theorem size_le (valid : item.validate = .ok ()) : Json.size item.toJson ≤ 4000 := by
  obtain ⟨position, activation, program, name, version, created, -⟩ := validate_eq_ok.mp valid
  obtain ⟨deadline, workflow, key⟩ := ApprovalInboxPosition.validate_eq_ok.mp position
  simp only [ProgramRef.validate, bind_eq_ok, exists_unit] at program
  refine (Json.size_object_le _ [258, 258, 258, 258, 258, 1026, 258, 15, 15, 11] ?_).trans ?_
  · simp only [List.forall₂_cons, List.Forall₂.nil, and_true, Option.some.injEq, forall_eq']
    refine ⟨workflow.size_le, key.size_le, activation.size_le, size_programField_le program.1,
      size_programField_le program.2, name.size_le, version.size_le,
      TaskStatus.size_time_le (created.trans deadline), TaskStatus.size_time_le deadline, ?_⟩
    cases item.status <;> decide
  · simp only [List.map_cons, List.map_nil]
    decide

end ApprovalInboxItem

namespace ApprovalInboxPage

theorem checkItem_eq_ok {query : ApprovalInboxQuery} {item : ApprovalInboxItem} :
    checkItem query item = .ok () ↔ item.validate = .ok () ∧ query.matchesItem item = true := by
  simp [checkItem]

theorem size_le {page : ApprovalInboxPage} (items : page.items.length ≤ approvalInboxMaxLimit)
    (each : ∀ item ∈ page.items, item.validate = .ok ())
    (cursor : ∀ text, page.nextCursor = some text →
      Json.size (.str text) ≤ 2 * approvalInboxCursorMaxBytes + 2) :
    page.toJson.size ≤ approvalInboxPageMaxBytes := by
  have fits : ∀ v ∈ page.items.map ApprovalInboxItem.toJson, Json.size v ≤ 4000 := by
    intro v mem
    obtain ⟨item, inside, rfl⟩ := List.mem_map.mp mem
    exact ApprovalInboxItem.size_le (each item inside)
  have all := Json.size_arr_le fits
  rw [List.length_map] at all
  simp only [approvalInboxMaxLimit] at items
  refine (Json.size_object_le _ [400102, 16386] ?_).trans ?_
  · simp only [List.forall₂_cons, List.Forall₂.nil, and_true, Option.some.injEq, forall_eq']
    exact ⟨by omega, TaskStatus.size_opt_le (by decide) cursor⟩
  · simp only [List.map_cons, List.map_nil]
    decide

end ApprovalInboxPage
end Ledgence
