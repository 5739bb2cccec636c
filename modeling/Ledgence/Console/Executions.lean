import Ledgence.Api.Discovery
import Ledgence.Kit.JsonCanonical
import Std.Data.String.ToNat
import Ledgence.Kit.Keyset
import Ledgence.Kit.Table

/-! Positions in the listings of the console, and the cursors that carry them. -/
open Kit Kit.Checked

namespace Ledgence
namespace Console

inductive ConsoleKey where
  | number (n : Nat)
  | text (s : String)
  deriving DecidableEq

abbrev ConsolePosition := List ConsoleKey

namespace ConsoleKey

def toJson : ConsoleKey → Json
  | .number n => .object [("kind", some (.str "number")), ("value", some (.str n.repr))]
  | .text s => .object [("kind", some (.str "text")), ("value", some (.str s))]

/-- `ConsoleU64`: only the decimal text that is written for the number. -/
def decimal (s : String) : Option Nat :=
  s.toNat?.filter fun n => n ≤ u64Max ∧ n.repr = s

def fromJson (v : Json) : Option ConsoleKey := do
  let field ← Json.struct ["kind", "value"] v
  let kind ← Json.required Json.asStr (field "kind")
  let value ← Json.required Json.asStr (field "value")
  if kind = "number" then .number <$> decimal value
  else if kind = "text" then return .text value
  else none

end ConsoleKey

def positionFromJson : Json → Option ConsolePosition
  | .arr vs => vs.mapM ConsoleKey.fromJson
  | .null | .bool _ | .num _ | .str _ | .obj _ => none

def textsFromJson : Json → Option (List String)
  | .arr vs => vs.mapM Json.asStr
  | .null | .bool _ | .num _ | .str _ | .obj _ => none

/-- Bound by the application; `filters` is what `serde_json::to_value` makes of the filters. -/
structure ConsoleCursorBinding where
  endpoint : String
  scope : Scope
  parent : List String
  filters : Json
  descending : Bool
  numericKeys : List Bool

structure ConsoleCursor where
  version : Nat
  endpoint : String
  scope : Scope
  parent : List String
  filters : Json
  position : ConsolePosition

namespace ConsoleCursor

def toJson (cursor : ConsoleCursor) : Json :=
  .object [("version", some (.nat cursor.version)), ("endpoint", some (.str cursor.endpoint)),
    ("scope", some cursor.scope.toJson), ("parent", some (.arr (cursor.parent.map .str))),
    ("filters", some cursor.filters), ("position", some (.arr (cursor.position.map ConsoleKey.toJson)))]

def fromJson (v : Json) : Option ConsoleCursor := do
  let field ← Json.struct ["version", "endpoint", "scope", "parent", "filters", "position"] v
  let version ← Json.required (Json.unsigned u32Max) (field "version")
  let endpoint ← Json.required Json.asStr (field "endpoint")
  let scope ← Json.required Scope.fromJson (field "scope")
  let parent ← Json.required textsFromJson (field "parent")
  -- A `Value` is a map that is sorted by its keys.
  let filters ← Json.required (fun v => some v.sortObjects) (field "filters")
  let position ← Json.required positionFromJson (field "position")
  return ⟨version, endpoint, scope, parent, filters, position⟩

end ConsoleCursor

namespace ConsoleCursorBinding

def validateKeys : List (ConsoleKey × Bool) → Result Unit
  | [] => .ok ()
  | (.number _, true) :: keys => validateKeys keys
  | (.text text, false) :: keys => do
    validateText text 512
    validateKeys keys
  | (.number _, false) :: _ | (.text _, true) :: _ =>
    .error (invalid "invalid console cursor key type")

def validatePosition (binding : ConsoleCursorBinding) (position : ConsolePosition) : Result Unit := do
  binding.scope.validate
  refuse (position.length ≠ binding.numericKeys.length ∨ position = [] ∨ 4 < position.length)
    (invalid "invalid console cursor position")
  validateKeys (position.zip binding.numericKeys)

end ConsoleCursorBinding

structure ConsolePagination where
  limit : Nat
  cursor : Option String

def ConsolePagination.default : ConsolePagination := ⟨50, none⟩

section Cursors
variable (serde : Serde) (binding : ConsoleCursorBinding)

def nextCursor (position : ConsolePosition) : Result String := do
  binding.validatePosition position
  let cursor : ConsoleCursor :=
    ⟨1, binding.endpoint, binding.scope, binding.parent, binding.filters, position⟩
  let text := Cursor.encode (utf8 cursor.toJson.text)
  refuse (taskCursorMaxBytes < byteLen text) (invalid "console cursor too long")
  return text

def decodeCursor (text : String) : Result ConsolePosition := do
  let bytes ← okOr (Cursor.decode text taskCursorMaxBytes) (invalid "invalid console cursor")
  let value ← lift (decodeUniqueJson serde bytes (taskCursorMaxBytes / 2))
  -- The message goes on with the library's own.
  let cursor ← lift (okOr (ConsoleCursor.fromJson value) (invalidInput "invalid JSON command"))
  refuse (cursor.version ≠ 1 ∨ cursor.endpoint ≠ binding.endpoint ∨ cursor.scope ≠ binding.scope ∨
      cursor.parent ≠ binding.parent ∨ cursor.filters.text ≠ binding.filters.text)
    (invalid "console cursor does not match endpoint, instance, parent or filters")
  binding.validatePosition cursor.position
  return cursor.position

def ConsolePagination.validate (page : ConsolePagination) : Result (Option ConsolePosition) := do
  refuse (page.limit < 1 ∨ 100 < page.limit) (invalid "console page size must be between 1 and 100")
  match page.cursor with
  | none => return none
  | some text => some <$> decodeCursor serde binding text

end Cursors
/- Cursors read back. -/

section ReadBack
variable {serde : Serde} {levels : Nat}

theorem compact_arr {vs : List Json} (each : ∀ v ∈ vs, Compact serde levels v) :
    Compact serde (levels + 1) (.arr vs) where
  unique := Json.itemsUnique_iff.mpr fun v mem => (each v mem).unique
  holds := by
    intro n mem
    rw [Json.numbers, Json.itemsNumbers_eq_flatMap] at mem
    obtain ⟨v, member, inside⟩ := List.mem_flatMap.mp mem
    exact (each v member).holds n inside
  depth := by
    have inner : Json.itemsDepth vs ≤ levels := Json.itemsDepth_le.mpr fun v mem => (each v mem).depth
    rw [Json.depth]
    omega

theorem compact_sortObjects {v : Json} (compact : Compact serde levels v) :
    Compact serde levels v.sortObjects where
  unique := Json.uniqueKeys_sortObjects compact.unique
  holds := holds_sortObjects compact.holds
  depth := by
    rw [Json.depth_sortObjects]
    exact compact.depth

theorem sortObjects_twice {v : Json} (unique : v.UniqueKeys) : v.sortObjects.sortObjects = v.sortObjects :=
  (Json.sortObjects_eq_of_same unique (Json.same_sortObjects v)).symm

def ConsoleKey.Fits : ConsoleKey → Prop
  | .number n => n ≤ u64Max
  | .text _ => True

theorem ConsoleKey.fromJson_toJson {key : ConsoleKey} (fits : key.Fits) : fromJson key.toJson = some key := by
  cases key with
  | number n =>
    have inside : n ≤ u64Max := fits
    rw [fromJson, toJson, Json.struct_object (by rfl) (by simp)]
    simp [List.lookup_cons, decimal, inside]
  | text s =>
    rw [fromJson, toJson, Json.struct_object (by rfl) (by simp)]
    simp [List.lookup_cons]

theorem compact_key (key : ConsoleKey) : Compact serde (levels + 1) key.toJson := by
  cases key with
  | number n =>
    refine compact_object (by simp) fun k v mem => ?_
    simp only [List.mem_cons, Prod.mk.injEq, Option.some.injEq, List.not_mem_nil, or_false] at mem
    obtain ⟨-, rfl⟩ | ⟨-, rfl⟩ := mem
    · exact compact_str _
    · exact compact_str _
  | text s =>
    refine compact_object (by simp) fun k v mem => ?_
    simp only [List.mem_cons, Prod.mk.injEq, Option.some.injEq, List.not_mem_nil, or_false] at mem
    obtain ⟨-, rfl⟩ | ⟨-, rfl⟩ := mem
    · exact compact_str _
    · exact compact_str _

theorem mapM_map_some {α β : Type} {write : α → β} {read : β → Option α} {as : List α}
    (reads : ∀ a ∈ as, read (write a) = some a) : (as.map write).mapM read = some as := by
  induction as with
  | nil => rfl
  | cons a as ih =>
    rw [List.map_cons, List.mapM_cons, reads a (by simp), ih fun b mem => reads b (by simp [mem])]
    rfl

theorem ConsoleCursor.fromJson_toJson {cursor : ConsoleCursor} (version : cursor.version = 1)
    (fits : ∀ key ∈ cursor.position, key.Fits) :
    fromJson cursor.toJson = some { cursor with filters := cursor.filters.sortObjects } := by
  have number : Json.unsigned u32Max (.nat cursor.version) = some cursor.version :=
    Json.unsigned_nat (version ▸ by decide)
  have parent : textsFromJson (.arr (cursor.parent.map .str)) = some cursor.parent :=
    mapM_map_some fun s _ => rfl
  have position : positionFromJson (.arr (cursor.position.map ConsoleKey.toJson)) = some cursor.position :=
    mapM_map_some fun key mem => ConsoleKey.fromJson_toJson (fits key mem)
  rw [fromJson, toJson, Json.struct_object (by rfl) (by simp)]
  simp [List.lookup_cons, number, Scope.fromJson_toJson, parent, position]

theorem ConsoleCursor.compact {cursor : ConsoleCursor} (version : cursor.version = 1)
    (filters : Compact serde 1 cursor.filters) : Compact serde 3 cursor.toJson := by
  refine compact_object (by simp) fun k v mem => ?_
  simp only [List.mem_cons, Prod.mk.injEq, Option.some.injEq, List.not_mem_nil, or_false] at mem
  obtain ⟨-, rfl⟩ | ⟨-, rfl⟩ | ⟨-, rfl⟩ | ⟨-, rfl⟩ | ⟨-, rfl⟩ | ⟨-, rfl⟩ := mem
  · exact compact_nat (version ▸ by decide)
  · exact compact_str _
  · exact compact_scope _
  · refine compact_arr fun v inside => ?_
    obtain ⟨s, -, rfl⟩ := List.mem_map.mp inside
    exact compact_str s
  · exact ⟨filters.unique, filters.holds, filters.depth.trans (by decide)⟩
  · refine compact_arr fun v inside => ?_
    obtain ⟨key, -, rfl⟩ := List.mem_map.mp inside
    exact compact_key key

theorem decodeCursor_nextCursor (correct : serde.Correct) {binding : ConsoleCursorBinding}
    (filters : Compact serde 1 binding.filters) (canonical : binding.filters.sortObjects = binding.filters)
    {position : ConsolePosition} (fits : ∀ key ∈ position, key.Fits) {text : String}
    (written : nextCursor binding position = .ok text) : decodeCursor serde binding text = .ok position := by
  let cursor : ConsoleCursor :=
    ⟨1, binding.endpoint, binding.scope, binding.parent, binding.filters, position⟩
  simp only [nextCursor, bind_eq_ok, exists_unit, refuse_eq_ok, pure_eq_ok, not_lt] at written
  obtain ⟨valid, short, rfl⟩ := written
  have size := Cursor.byteLen_encode (utf8 cursor.toJson.text)
  have fits' : 2 * (utf8 cursor.toJson.text).length ≤ taskCursorMaxBytes := size ▸ short
  have bytes := Cursor.decode_encode (utf8_text_ne_nil cursor.toJson) fits'
  have small : cursor.toJson.size ≤ taskCursorMaxBytes / 2 := by
    have length : (utf8 cursor.toJson.text).length = cursor.toJson.size := length_utf8 _
    omega
  have decoded := (ConsoleCursor.compact rfl filters).decode correct (by decide) small
  have read := @ConsoleCursor.fromJson_toJson cursor rfl fits
  rw [decodeCursor, bytes, okOr, ok_bind, decoded, lift, Except.mapError, ok_bind, read, okOr, lift,
    Except.mapError, ok_bind]
  simp [refuse, canonical, cursor, valid]

end ReadBack
end Console
end Ledgence

/-! The merged listing of tasks and workflow runs: its filters, its statement and its pages. -/

namespace Ledgence
namespace Console

inductive ConsoleExecutionKind where
  | task
  | workflow
  deriving DecidableEq

def ConsoleExecutionKind.asStr : ConsoleExecutionKind → String
  | .task => "task"
  | .workflow => "workflow"

inductive ConsoleExecutionState where
  | queued
  | active
  | running
  | waiting
  | failing
  | cancelling
  | succeeded
  | failed
  | cancelled
  deriving DecidableEq

namespace ConsoleExecutionState

def label : ConsoleExecutionState → String
  | .queued => "queued"
  | .active => "active"
  | .running => "running"
  | .waiting => "waiting"
  | .failing => "failing"
  | .cancelling => "cancelling"
  | .succeeded => "succeeded"
  | .failed => "failed"
  | .cancelled => "cancelled"

def supports (state : ConsoleExecutionState) (kind : ConsoleExecutionKind) : Bool :=
  match state with
  | .queued | .active => kind = .task
  | .running | .waiting | .failing | .cancelling => kind = .workflow
  | .succeeded | .failed | .cancelled => true

end ConsoleExecutionState

structure ConsoleExecutionFilters where
  kind : Option ConsoleExecutionKind
  state : Option ConsoleExecutionState
  programId : Option String
  version : Option String
  queue : Option String
  correlationKey : Option String
  executionId : Option String
  includeChildren : Bool
  submittedFrom : Option Nat
  submittedUntil : Option Nat

namespace ConsoleExecutionFilters

def includesChildren (filters : ConsoleExecutionFilters) : Bool :=
  filters.includeChildren || filters.programId.isSome || filters.executionId.isSome

def timestamp (value : Nat) : Result Unit :=
  refuse (maxTimestamp < value) (invalid "console timestamp out of range")

def validateProgram (filters : ConsoleExecutionFilters) : Result Unit :=
  match filters.programId, filters.version with
  | some id, version => lift (ProgramRef.validate ⟨id, version.getD "validation"⟩)
  | none, some _ => .error (invalid "version requires program_id")
  | none, none => .ok ()

def validate (filters : ConsoleExecutionFilters) : Result Unit := do
  TaskFilters.validate
    ⟨none, filters.queue, filters.submittedFrom, filters.submittedUntil, filters.correlationKey⟩
  ifSome filters.submittedFrom timestamp
  ifSome filters.submittedUntil timestamp
  ifSome filters.executionId fun id => validateText id 128
  filters.validateProgram
  refuse (filters.kind.any fun kind => filters.state.any fun state => !state.supports kind)
    (invalid "execution state is incompatible with kind")

def toJson (filters : ConsoleExecutionFilters) : Json :=
  .object [("kind", some (.opt (filters.kind.map fun kind => .str kind.asStr))),
    ("state", some (.opt (filters.state.map fun state => .str state.label))),
    ("program_id", some (.opt (filters.programId.map .str))),
    ("version", some (.opt (filters.version.map .str))),
    ("queue", some (.opt (filters.queue.map .str))),
    ("correlation_key", some (.opt (filters.correlationKey.map .str))),
    ("execution_id", some (.opt (filters.executionId.map .str))),
    ("include_children", some (.bool filters.includeChildren)),
    ("submitted_from", some (.opt (filters.submittedFrom.map .nat))),
    ("submitted_until", some (.opt (filters.submittedUntil.map .nat)))]

end ConsoleExecutionFilters

/-- The executions part of `ConsoleQuery::binding`. -/
def binding (scope : Scope) (filters : ConsoleExecutionFilters) : Result ConsoleCursorBinding := do
  scope.validate
  filters.validate
  return ⟨"executions", scope, [], filters.toJson.sortObjects, true, [true, false, false]⟩

/- Tables. -/

/-- A row of `tasks`. A descriptor is what its bytes decode to, if they are not too long; a probe is
what its bytes decode to. -/
structure TaskRecord where
  taskId : String
  tenantId : String
  namespaceId : String
  queue : String
  state : String
  submittedAt : Nat
  terminalAt : Option Nat
  correlationKey : Option String
  workflowId : Option String
  rootWorkflowId : Option String
  workflowActivationId : Option String
  retiringAt : Option Nat
  programId : Option String
  programVersion : Option String
  descriptor : Option (WorkerResult ProgramDescriptor)
  providerProbe : Option (WorkerResult ProviderProbeAssignment)

/-- A row of `workflow_runs`. -/
structure RunRecord where
  workflowId : String
  tenantId : String
  namespaceId : String
  queue : String
  state : String
  submittedAt : Nat
  terminalAt : Option Nat
  correlationKey : Option String
  parentWorkflowId : Option String
  rootWorkflowId : Option String
  retiringAt : Option Nat
  programId : Option String
  programVersion : Option String
  controller : Option (WorkerResult ProgramDescriptor)

structure Candidate where
  kind : ConsoleExecutionKind
  id : String
  queue : String
  state : String
  submittedAt : Nat
  terminalAt : Option Nat
  correlationKey : Option String
  parentWorkflowId : Option String
  rootWorkflowId : Option String

structure Compared extends Candidate where
  tenantId : String
  namespaceId : String
  retiringAt : Option Nat
  workflowActivationId : Option String
  programId : Option String
  programVersion : Option String

def TaskRecord.columns (t : TaskRecord) : Compared where
  kind := .task
  id := t.taskId
  queue := t.queue
  state := t.state
  submittedAt := t.submittedAt
  terminalAt := t.terminalAt
  correlationKey := t.correlationKey
  parentWorkflowId := t.workflowId
  rootWorkflowId := if t.workflowId = none then none else t.rootWorkflowId <|> t.workflowId
  tenantId := t.tenantId
  namespaceId := t.namespaceId
  retiringAt := t.retiringAt
  workflowActivationId := t.workflowActivationId
  programId := t.programId
  programVersion := t.programVersion

def RunRecord.columns (t : RunRecord) : Compared where
  kind := .workflow
  id := t.workflowId
  queue := t.queue
  state := t.state
  submittedAt := t.submittedAt
  terminalAt := t.terminalAt
  correlationKey := t.correlationKey
  parentWorkflowId := t.parentWorkflowId
  rootWorkflowId := t.rootWorkflowId
  tenantId := t.tenantId
  namespaceId := t.namespaceId
  retiringAt := t.retiringAt
  workflowActivationId := none
  programId := t.programId
  programVersion := t.programVersion

/-- The ids are primary keys, the states are those of the checks of their tables, and the times are
of the type of their columns. -/
structure Tables where
  tasks : List TaskRecord
  runs : List RunRecord
  taskIds : Table.Unique TaskRecord.taskId tasks
  runIds : Table.Unique RunRecord.workflowId runs
  taskStates : ∀ t ∈ tasks, t.state ∈ ["queued", "active", "succeeded", "failed", "cancelled"]
  runStates : ∀ t ∈ runs, t.state ∈
    ["running", "waiting", "failing", "cancelling", "succeeded", "failed", "cancelled"]
  taskTimes : ∀ t ∈ tasks, t.submittedAt ≤ i64Max
  runTimes : ∀ t ∈ runs, t.submittedAt ≤ i64Max

def Tables.compared (tables : Tables) : ConsoleExecutionKind → List Compared
  | .task => tables.tasks.map TaskRecord.columns
  | .workflow => tables.runs.map RunRecord.columns

/- `discovery_query`. -/

/-- The cast of a `u64` to `i64`. -/
@[irreducible] def asI64 (n : Nat) : Int := Int.bmod n (2 ^ 64)

def positionNumber (position : ConsolePosition) (index : Nat) : Result Nat :=
  match position[index]? with
  | some (.number n) => .ok n
  | _ => .error (invalid "invalid numeric cursor position")

def positionText (position : ConsolePosition) (index : Nat) : Result String :=
  match position[index]? with
  | some (.text s) => .ok s
  | _ => .error (invalid "invalid text cursor position")

def positionTime (position : ConsolePosition) (index : Nat) : Result Nat := do
  let n ← positionNumber position index
  refuse (maxTimestamp < n) (invalid "cursor timestamp outside supported range")
  return n

/-- What a seek adds for the position. Texts compare by the bytes of their encodings. -/
def seekBehind (kind : ConsoleExecutionKind) (position : ConsolePosition) : Result (Compared → Bool) := do
  let cursorKind ← positionText position 1
  refuse (cursorKind ≠ "task" ∧ cursorKind ≠ "workflow") (invalid "invalid execution cursor kind")
  if kind.asStr = cursorKind then do
    let time ← positionTime position 0
    let id ← positionText position 2
    return fun t => t.submittedAt < time || (t.submittedAt = time && textKey t.id < textKey id)
  else if textKey kind.asStr < textKey cursorKind then do
    let time ← positionTime position 0
    return fun t => t.submittedAt ≤ time
  else do
    let time ← positionTime position 0
    return fun t => t.submittedAt < time

def seekPosition (kind : ConsoleExecutionKind) : Option ConsolePosition → Result (Compared → Bool)
  | none => return fun _ => true
  | some position => seekBehind kind position

def seekMatches (scope : Scope) (filters : ConsoleExecutionFilters) (kind : ConsoleExecutionKind)
    (t : Compared) : Bool :=
  t.tenantId = scope.tenantId && t.namespaceId = scope.namespaceId && t.retiringAt.isNone &&
    (kind ≠ .task || t.workflowActivationId.isNone) &&
    !(filters.kind.any (· ≠ kind) || filters.state.any fun state => !state.supports kind) &&
    (filters.includesChildren || t.parentWorkflowId.isNone) &&
    filters.programId.all (fun value => t.programId = some value) &&
    filters.version.all (fun value => t.programVersion = some value) &&
    filters.queue.all (fun value => t.queue = value) &&
    filters.correlationKey.all (fun value => t.correlationKey = some value) &&
    filters.executionId.all (fun value => t.id = value) &&
    filters.state.all (fun state => t.state = state.label) &&
    filters.submittedFrom.all (fun at' => asI64 at' ≤ t.submittedAt) &&
    filters.submittedUntil.all fun at' => t.submittedAt < asI64 at'

/-- `ORDER BY submitted_at_ms DESC, id DESC` -/
def seekRank (t : Candidate) : Nat ×ₗ List Nat := toLex (t.submittedAt, textKey t.id)

/-- `ORDER BY submitted_at_ms DESC, kind DESC, id DESC` -/
def rank (t : Candidate) : Nat ×ₗ List Nat ×ₗ List Nat :=
  toLex (t.submittedAt, toLex (textKey t.kind.asStr, textKey t.id))

def seek (tables : Tables) (scope : Scope) (filters : ConsoleExecutionFilters) (limit : Nat)
    (position : Option ConsolePosition) (kind : ConsoleExecutionKind) : Result (List Candidate) := do
  let behind ← seekPosition kind position
  let found := (tables.compared kind).filter fun t => seekMatches scope filters kind t && behind t
  return ((found.map Compared.toCandidate).insertionSort fun s t => seekRank t ≤ seekRank s).take (limit + 1)

structure ExecutionRow extends Candidate where
  providerProbe : Option (WorkerResult ProviderProbeAssignment)
  descriptor : Option (WorkerResult ProgramDescriptor)

def hydrate (tables : Tables) (t : Candidate) : ExecutionRow :=
  match t.kind with
  | .task =>
    let joined := Table.find TaskRecord.taskId t.id tables.tasks
    { t with
      providerProbe := joined.bind TaskRecord.providerProbe
      descriptor := joined.bind TaskRecord.descriptor }
  | .workflow =>
    let joined := Table.find RunRecord.workflowId t.id tables.runs
    { t with
      providerProbe := none
      descriptor := joined.bind RunRecord.controller }

def discoveryQuery (tables : Tables) (scope : Scope) (filters : ConsoleExecutionFilters) (limit : Nat)
    (position : Option ConsolePosition) : Result (List ExecutionRow) := do
  let tasks ← seek tables scope filters limit position .task
  let workflows ← seek tables scope filters limit position .workflow
  let chosen := ((tasks ++ workflows).insertionSort fun s t => rank t ≤ rank s).take (limit + 1)
  return (chosen.map (hydrate tables)).insertionSort fun s t => rank t.toCandidate ≤ rank s.toCandidate

/- Pages. -/

structure ConsoleExecutionSummary where
  kind : ConsoleExecutionKind
  id : String
  descriptor : ProgramDescriptor
  queue : String
  state : ConsoleExecutionState
  submittedAt : Nat
  terminalAt : Option Nat
  correlationKey : Option String
  parentWorkflowId : Option String
  rootWorkflowId : Option String
  providerProbe : Option ProviderProbeAssignment

def corrupt (label : String) : ContractError :=
  .unavailable ("invalid console persistence: " ++ label)

def descriptor (row : ExecutionRow) : Result ProgramDescriptor := do
  let decoded ← okOr row.descriptor (corrupt "descriptor size")
  let value ← decoded.mapError fun _ => corrupt "descriptor"
  value.validate.mapError fun _ => corrupt "descriptor"
  return value

def enumeration (state : String) : Result ConsoleExecutionState :=
  okOr ([.queued, .active, .running, .waiting, .failing, .cancelling, .succeeded, .failed, .cancelled].find?
    fun known => ConsoleExecutionState.label known = state) (corrupt "state")

def decodeProbe : Option (WorkerResult ProviderProbeAssignment) → Result (Option ProviderProbeAssignment)
  | none => return none
  | some decoded => some <$> lift decoded

def ExecutionRow.summary (row : ExecutionRow) : Result ConsoleExecutionSummary := do
  let descriptor ← Console.descriptor row
  let state ← enumeration row.state
  let providerProbe ← decodeProbe row.providerProbe
  return { row with descriptor, state, providerProbe }

def ConsoleExecutionSummary.position (summary : ConsoleExecutionSummary) : ConsolePosition :=
  [.number summary.submittedAt, .text summary.kind.asStr, .text summary.id]

structure ConsolePage where
  items : List ConsoleExecutionSummary
  nextCursor : Option String

def page (items : List ConsoleExecutionSummary) (scope : Scope)
    (filters : ConsoleExecutionFilters) (request : ConsolePagination) : Result ConsolePage := do
  let more := request.limit < items.length
  let items := items.take request.limit
  if more then do
    let bound ← binding scope filters
    let last ← okOr items.getLast? (corrupt "empty page")
    let text ← nextCursor bound last.position
    return ⟨items, some text⟩
  else return ⟨items, none⟩

def list (tables : Tables) (scope : Scope) (filters : ConsoleExecutionFilters)
    (request : ConsolePagination) (position : Option ConsolePosition) : Result ConsolePage := do
  let rows ← discoveryQuery tables scope filters request.limit position
  let items ← rows.mapM ExecutionRow.summary
  page items scope filters request

def queryExecutions (serde : Serde) (tables : Tables) (scope : Scope) (filters : ConsoleExecutionFilters)
    (request : ConsolePagination) : Result ConsolePage := do
  let bound ← binding scope filters
  let position ← request.validate serde bound
  list tables scope filters request position

end Console
end Ledgence
