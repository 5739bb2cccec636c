import Ledgence.Api.Observation
import Ledgence.Api.Decoded
import Ledgence.Kit.Utf8
import Ledgence.Kit.JsonObject
import Ledgence.Kit.Keyset
import Mathlib.Data.Prod.Lex
import Mathlib.Data.List.Lex

/-! Cursors: JSON objects in bounded hexadecimal texts. -/
open Kit Kit.Checked

namespace Ledgence

namespace Cursor

def encode (bytes : List UInt8) : String := hex bytes

def decode (text : String) (maximum : Nat) : Option (List UInt8) :=
  if text = "" ∨ maximum < byteLen text ∨ byteLen text % 2 ≠ 0 then none
  else unhex (utf8 text.toList)

theorem byteLen_encode (bytes : List UInt8) : byteLen (encode bytes) = 2 * bytes.length := by
  rw [byteLen, ← length_utf8, encode, length_utf8_hex]

theorem decode_encode {bytes : List UInt8} {maximum : Nat} (some : bytes ≠ [])
    (fits : 2 * bytes.length ≤ maximum) : decode (encode bytes) maximum = .some bytes := by
  have size := byteLen_encode bytes
  have positive : 0 < bytes.length := List.length_pos_of_ne_nil some
  have written : encode bytes ≠ "" := by
    intro empty
    rw [empty] at size
    have : byteLen "" = 0 := rfl
    omega
  rw [decode, if_neg]
  · exact unhex_hex bytes
  · rw [size]
    simp only [written, false_or]
    omega

theorem size_encode_le {bytes : List UInt8} {maximum : Nat} (fits : byteLen (encode bytes) ≤ maximum) :
    Json.size (.str (encode bytes)) ≤ 2 * maximum + 2 := by
  have size := Json.size_str_le fun c mem => (hex_plain bytes c mem).1
  change Json.size (.str (encode bytes)) ≤ 2 * byteLen (encode bytes) + 2 at size
  omega

end Cursor

def textKey (text : String) : List Nat :=
  (utf8 text.toList).map UInt8.toNat

theorem textKey_injective : Function.Injective textKey := by
  intro a b same
  have bytes : utf8 a.toList = utf8 b.toList :=
    List.map_injective_iff.mpr (fun _ _ h => UInt8.toNat_inj.mp h) same
  exact String.toList_injective (utf8_injective bytes)

def Scope.fromJson (v : Json) : Option Scope := do
  let field ← Json.struct ["tenant_id", "namespace"] v
  let tenantId ← Json.required Json.asStr (field "tenant_id")
  let namespaceId ← Json.required Json.asStr (field "namespace")
  return ⟨tenantId, namespaceId⟩

theorem Scope.fromJson_toJson (scope : Scope) : Scope.fromJson scope.toJson = some scope := by
  rw [Scope.fromJson, Scope.toJson, Json.struct_object (by rfl) (by simp)]
  rfl

/- Values that decode to themselves. -/

structure Compact (serde : Serde) (levels : Nat) (v : Json) : Prop where
  unique : v.UniqueKeys
  holds : Holds serde v
  depth : v.depth ≤ levels

section Compact
variable {serde : Serde} {levels : Nat}

theorem compact_null : Compact serde levels .null :=
  ⟨trivial, by simp [Holds, Json.numbers], Nat.zero_le _⟩

theorem compact_str (s : String) : Compact serde levels (.str s) :=
  ⟨trivial, by simp [Holds, Json.numbers], Nat.zero_le _⟩

theorem compact_nat {n : Nat} (fits : n < 2 ^ 64) : Compact serde levels (.nat n) := by
  refine ⟨trivial, fun m mem => ?_, Nat.zero_le _⟩
  obtain rfl : m = .int n := by simpa [Json.nat, Json.numbers] using mem
  constructor
  · exact le_trans (by decide) (Int.natCast_nonneg n)
  · exact_mod_cast fits

theorem compact_opt {α : Type} {write : α → Json} {given : Option α}
    (each : ∀ a, given = some a → Compact serde levels (write a)) :
    Compact serde levels (.opt (given.map write)) := by
  cases given with
  | none => exact compact_null
  | some a => exact each a rfl

theorem membersDepth_le {ms : List (String × Json)} (each : ∀ k v, (k, v) ∈ ms → v.depth ≤ levels) :
    Json.membersDepth ms ≤ levels := by
  induction ms with
  | nil => exact Nat.zero_le _
  | cons m ms ih =>
    obtain ⟨k, v⟩ := m
    rw [Json.membersDepth]
    exact Nat.max_le.mpr ⟨each k v (by simp), ih fun l w mem => each l w (by simp [mem])⟩

theorem compact_object {fields : List (String × Option Json)} (keys : (fields.map Prod.fst).Nodup)
    (each : ∀ k v, (k, some v) ∈ fields → Compact serde levels v) :
    Compact serde (levels + 1) (.object fields) where
  unique := Json.uniqueKeys_object keys fun k v mem => (each k v mem).unique
  holds := by
    intro n mem
    rw [Json.object, Json.numbers, Json.membersNumbers_eq_flatMap] at mem
    obtain ⟨⟨k, v⟩, member, inside⟩ := List.mem_flatMap.mp mem
    exact (each k v (Json.mem_object.mp member)).holds n inside
  depth := by
    have inner : Json.membersDepth (fields.filterMap fun f => f.2.map fun v => (f.1, v)) ≤ levels :=
      membersDepth_le fun k v member => (each k v (Json.mem_object.mp member)).depth
    rw [Json.object, Json.depth]
    omega

theorem compact_scope (scope : Scope) : Compact serde (levels + 1) scope.toJson :=
  compact_object (by simp) fun k v mem => by
    simp only [List.mem_cons, Prod.mk.injEq, Option.some.injEq, List.not_mem_nil, or_false] at mem
    obtain ⟨-, rfl⟩ | ⟨-, rfl⟩ := mem
    all_goals exact compact_str _

theorem Compact.decode {v : Json} {maxBytes : Nat} (compact : Compact serde levels v)
    (correct : serde.Correct) (shallow : levels < 128) (fits : v.size ≤ maxBytes) :
    decodeUniqueJson serde (utf8 v.text) maxBytes = .ok v := by
  have representable : v.doc.tokens.all representable = true := by
    rw [List.all_eq_true]
    intro t mem
    rw [Json.doc_tokens, List.mem_map] at mem
    obtain ⟨n, inside, rfl⟩ := mem
    exact representable_text (compact.holds n inside)
  refine (decodeUniqueJson_eq_ok correct).mpr ⟨?_, v.text, v.doc, rfl,
    JsonReader.read_text (numeric_of_holds correct compact.holds), ?_, representable,
    keeps_doc correct compact.holds, Json.doc_unique compact.unique⟩
  · rw [length_utf8]
    exact fits
  · rw [Json.doc_depth]
    exact lt_of_le_of_lt compact.depth shallow

end Compact
end Ledgence

/-! Discovery of tasks by pages: the filters, the cursors, and the checks of a page. -/

namespace Ledgence

def taskListMaxLimit : Nat := 100
def taskCursorMaxBytes : Nat := 8192
def taskPageMaxBytes : Nat := 2 * 1024 * 1024

def TaskState.fromJson : Json → Option TaskState :=
  Json.variant [("queued", .queued), ("active", .active), ("succeeded", .succeeded),
    ("failed", .failed), ("cancelled", .cancelled)]

structure TaskFilters where
  state : Option TaskState
  queue : Option String
  submittedFrom : Option Nat
  submittedUntil : Option Nat
  correlationKey : Option String
  deriving DecidableEq

namespace TaskFilters

def emptyRange (filters : TaskFilters) : Bool :=
  match filters.submittedFrom, filters.submittedUntil with
  | some start, some stop => stop ≤ start
  | _, _ => false

def validate (filters : TaskFilters) : Result Unit := do
  ifSome filters.queue fun queue => validateText queue 128
  refuse (filters.correlationKey.any fun key => 512 < byteLen key || key.toList.any isControl)
    (invalid "invalid correlation key filter")
  refuse ([filters.submittedFrom, filters.submittedUntil].reduceOption.any (maxTimestamp < ·) ∨
      filters.emptyRange = true)
    (invalid "invalid submission time range")

def matchesStatus (filters : TaskFilters) (task : TaskStatus) : Bool :=
  filters.state.all (· == task.state) && filters.queue.all (· == task.queue) &&
    filters.submittedFrom.all (· ≤ task.submittedAt) &&
    filters.submittedUntil.all (task.submittedAt < ·) &&
    filters.correlationKey.all fun key => task.correlationKey == some key

def toJson (filters : TaskFilters) : Json :=
  .object [("state", some (.opt (filters.state.map fun state => .str state.name))),
    ("queue", some (.opt (filters.queue.map .str))),
    ("submitted_from", some (.opt (filters.submittedFrom.map .nat))),
    ("submitted_until", some (.opt (filters.submittedUntil.map .nat))),
    ("correlation_key", some (.opt (filters.correlationKey.map .str)))]

def fromJson (v : Json) : Option TaskFilters := do
  let field ← Json.struct
    ["state", "queue", "submitted_from", "submitted_until", "correlation_key"] v
  let state ← Json.optional TaskState.fromJson (field "state")
  let queue ← Json.optional Json.asStr (field "queue")
  let submittedFrom ← Json.optional (Json.unsigned u64Max) (field "submitted_from")
  let submittedUntil ← Json.optional (Json.unsigned u64Max) (field "submitted_until")
  let correlationKey ← Json.optional Json.asStr (field "correlation_key")
  return ⟨state, queue, submittedFrom, submittedUntil, correlationKey⟩

end TaskFilters

structure TaskListQuery where
  filters : TaskFilters
  limit : Nat
  cursor : Option String
  deriving DecidableEq

structure TaskPosition where
  submittedAt : Nat
  taskId : String
  deriving DecidableEq

def TaskStatus.position (task : TaskStatus) : TaskPosition := ⟨task.submittedAt, task.taskId⟩

namespace TaskPosition

def rank (position : TaskPosition) : Nat ×ₗ List Nat :=
  toLex (position.submittedAt, textKey position.taskId)

def place (position : TaskPosition) : (Nat ×ₗ List Nat)ᵒᵈ :=
  OrderDual.toDual position.rank

def validate (position : TaskPosition) (filters : TaskFilters) : Result Unit := do
  validateText position.taskId 128
  refuse (maxTimestamp < position.submittedAt ∨
      filters.submittedFrom.any (position.submittedAt < ·) = true ∨
      filters.submittedUntil.any (· ≤ position.submittedAt) = true)
    (invalid "invalid cursor position")

def toJson (position : TaskPosition) : Json :=
  .object [("submitted_at", some (.nat position.submittedAt)),
    ("task_id", some (.str position.taskId))]

def fromJson (v : Json) : Option TaskPosition := do
  let field ← Json.struct ["submitted_at", "task_id"] v
  let submittedAt ← Json.required (Json.unsigned u64Max) (field "submitted_at")
  let taskId ← Json.required Json.asStr (field "task_id")
  return ⟨submittedAt, taskId⟩

end TaskPosition

structure TaskCursor where
  version : Nat
  scope : Scope
  filters : TaskFilters
  position : TaskPosition

namespace TaskCursor

def toJson (cursor : TaskCursor) : Json :=
  .object [("version", some (.nat cursor.version)), ("scope", some cursor.scope.toJson),
    ("filters", some cursor.filters.toJson), ("position", some cursor.position.toJson)]

def fromJson (v : Json) : Option TaskCursor := do
  let field ← Json.struct ["version", "scope", "filters", "position"] v
  let version ← Json.required (Json.unsigned u32Max) (field "version")
  let scope ← Json.required Scope.fromJson (field "scope")
  let filters ← Json.required TaskFilters.fromJson (field "filters")
  let position ← Json.required TaskPosition.fromJson (field "position")
  return ⟨version, scope, filters, position⟩

end TaskCursor

namespace TaskListQuery

def decodeCursor (serde : Serde) (query : TaskListQuery) (scope : Scope) (text : String) :
    Result TaskPosition := do
  let bytes ← okOr (Cursor.decode text taskCursorMaxBytes) (invalid "invalid task cursor")
  let cursor ← okOr ((decodeUniqueJson serde bytes (taskCursorMaxBytes / 2)).toOption.bind
    TaskCursor.fromJson) (invalid "invalid task cursor")
  refuse (cursor.version ≠ 1 ∨ cursor.scope ≠ scope ∨ cursor.filters ≠ query.filters)
    (invalid "task cursor does not match scope or filters")
  cursor.position.validate query.filters
  return cursor.position

def validate (serde : Serde) (query : TaskListQuery) (scope : Scope) :
    Result (Option TaskPosition) := do
  scope.validate
  query.filters.validate
  refuse (query.limit < 1 ∨ taskListMaxLimit < query.limit)
    (invalid "task list limit must be between 1 and 100")
  match query.cursor with
  | none => return none
  | some cursor => some <$> query.decodeCursor serde scope cursor

def nextCursor (serde : Serde) (query : TaskListQuery) (scope : Scope) (position : TaskPosition) :
    Result String := do
  let _ ← query.validate serde scope
  position.validate query.filters
  let cursor := Cursor.encode (utf8 (TaskCursor.mk 1 scope query.filters position).toJson.text)
  refuse (taskCursorMaxBytes < byteLen cursor) (invalid "task cursor exceeds size limit")
  return cursor

end TaskListQuery

structure TaskPage where
  items : List TaskStatus
  nextCursor : Option String

namespace TaskPage

def toJson (page : TaskPage) : Json :=
  .object [("items", some (.arr (page.items.map TaskStatus.toJson))),
    ("next_cursor", some (.opt (page.nextCursor.map .str)))]

def inconsistent : ContractError := .unavailable "inconsistent task page"

def checkItem (scope : Scope) (filters : TaskFilters) (task : TaskStatus) : Result Unit := do
  task.validate
  refuse (task.scope ≠ scope ∨ filters.matchesStatus task = false) inconsistent

def validate (serde : Serde) (page : TaskPage) (scope : Scope) (query : TaskListQuery) :
    Result Unit := do
  let previous ← query.validate serde scope
  refuse (query.limit < page.items.length) inconsistent
  Keyset.checkItems (checkItem scope query.filters) (fun task => task.position.place)
    TaskStatus.taskId inconsistent (previous.map TaskPosition.place) [] page.items
  ifSome page.nextCursor fun cursor => do
    let position ← (query.decodeCursor serde scope cursor).mapError fun _ => inconsistent
    refuse (page.items.length ≠ query.limit ∨
        page.items.getLast?.map TaskStatus.position ≠ some position)
      inconsistent
  (checkEncodedSize page.toJson taskPageMaxBytes "task page").mapError fun _ => inconsistent

end TaskPage

/- Cursors. -/

theorem TaskState.fromJson_name (state : TaskState) :
    TaskState.fromJson (.str state.name) = some state := by
  cases state <;> rfl

theorem TaskFilters.fromJson_toJson {filters : TaskFilters}
    (start : ∀ t, filters.submittedFrom = some t → t ≤ u64Max)
    (stop : ∀ t, filters.submittedUntil = some t → t ≤ u64Max) :
    TaskFilters.fromJson filters.toJson = some filters := by
  have state : Json.optional TaskState.fromJson
      (some (.opt (filters.state.map fun s => .str s.name))) = some filters.state :=
    Json.optional_opt (fun s _ => TaskState.fromJson_name s) (by simp)
  have texts : ∀ given : Option String,
      Json.optional Json.asStr (some (.opt (given.map .str))) = some given :=
    fun given => Json.optional_opt (fun s _ => Json.asStr_str s) (by simp)
  have times : ∀ given : Option Nat, (∀ t, given = some t → t ≤ u64Max) →
      Json.optional (Json.unsigned u64Max) (some (.opt (given.map .nat))) = some given :=
    fun given fits => Json.optional_opt (fun t h => Json.unsigned_nat (fits t h)) (by simp [Json.nat])
  rw [TaskFilters.fromJson, TaskFilters.toJson, Json.struct_object (by rfl) (by simp)]
  simp [List.lookup_cons, state, texts, times _ start, times _ stop]

theorem TaskPosition.fromJson_toJson {position : TaskPosition}
    (fits : position.submittedAt ≤ u64Max) :
    TaskPosition.fromJson position.toJson = some position := by
  rw [TaskPosition.fromJson, TaskPosition.toJson, Json.struct_object (by rfl) (by simp)]
  simp [List.lookup_cons, Json.unsigned_nat fits]

structure TaskFilters.Valid (filters : TaskFilters) : Prop where
  queue : ∀ queue, filters.queue = some queue → ValidText 128 queue
  correlationKey : ∀ key, filters.correlationKey = some key →
    byteLen key ≤ 512 ∧ key.toList.any isControl = false
  submittedFrom : ∀ t, filters.submittedFrom = some t → t ≤ maxTimestamp
  submittedUntil : ∀ t, filters.submittedUntil = some t → t ≤ maxTimestamp

theorem TaskFilters.valid_of_validate {filters : TaskFilters} (checked : filters.validate = .ok ()) :
    filters.Valid := by
  simp only [TaskFilters.validate, bind_eq_ok, exists_unit, ifSome_eq_ok, validateText_eq_ok,
    refuse_eq_ok, not_or] at checked
  obtain ⟨queue, key, times, -⟩ := checked
  refine ⟨queue, fun k given => ?_, fun t given => ?_, fun t given => ?_⟩
  · simpa [given] using key
  · exact not_lt.mp fun late => times (by simp [given, late, List.reduceOption])
  · refine not_lt.mp fun late => times ?_
    cases start : filters.submittedFrom with
    | none => simp [given, late, List.reduceOption]
    | some s => simp [given, late, List.reduceOption]

theorem TaskPosition.validate_eq_ok {position : TaskPosition} {filters : TaskFilters} :
    position.validate filters = .ok () ↔ ValidText 128 position.taskId ∧
      position.submittedAt ≤ maxTimestamp ∧
      (∀ t, filters.submittedFrom = some t → t ≤ position.submittedAt) ∧
      (∀ t, filters.submittedUntil = some t → position.submittedAt < t) := by
  cases start : filters.submittedFrom <;> cases stop : filters.submittedUntil <;>
    simp [TaskPosition.validate, start, stop]

namespace TaskCursor
variable {cursor : TaskCursor}

structure Valid (cursor : TaskCursor) : Prop where
  version : cursor.version = 1
  tenant : ValidText 128 cursor.scope.tenantId
  namespaceId : ValidText 128 cursor.scope.namespaceId
  filters : cursor.filters.Valid
  taskId : ValidText 128 cursor.position.taskId
  submittedAt : cursor.position.submittedAt ≤ maxTimestamp

theorem maxTimestamp_le {t : Nat} (inRange : t ≤ maxTimestamp) : t ≤ u64Max :=
  inRange.trans (by decide)

theorem fromJson_toJson (valid : cursor.Valid) : fromJson cursor.toJson = some cursor := by
  have version : Json.unsigned u32Max (.nat cursor.version) = some cursor.version :=
    Json.unsigned_nat (valid.version ▸ by decide)
  have filters := TaskFilters.fromJson_toJson
    (fun t given => maxTimestamp_le (valid.filters.submittedFrom t given))
    (fun t given => maxTimestamp_le (valid.filters.submittedUntil t given))
  have position := TaskPosition.fromJson_toJson (maxTimestamp_le valid.submittedAt)
  rw [fromJson, toJson, Json.struct_object (by rfl) (by simp)]
  simp [List.lookup_cons, version, Scope.fromJson_toJson, filters, position]

theorem compact_time {serde : Serde} {levels t : Nat} (inRange : t ≤ maxTimestamp) :
    Compact serde levels (.nat t) :=
  compact_nat (lt_of_le_of_lt inRange (by decide))

theorem compact {serde : Serde} (valid : cursor.Valid) : Compact serde 2 cursor.toJson := by
  refine compact_object (by simp) fun k v mem => ?_
  simp only [List.mem_cons, Prod.mk.injEq, Option.some.injEq, List.not_mem_nil, or_false] at mem
  obtain ⟨-, rfl⟩ | ⟨-, rfl⟩ | ⟨-, rfl⟩ | ⟨-, rfl⟩ := mem
  · exact compact_nat (valid.version ▸ by decide)
  · exact compact_scope _
  · refine compact_object (by simp) fun k v mem => ?_
    simp only [List.mem_cons, Prod.mk.injEq, Option.some.injEq, List.not_mem_nil, or_false] at mem
    obtain ⟨-, rfl⟩ | ⟨-, rfl⟩ | ⟨-, rfl⟩ | ⟨-, rfl⟩ | ⟨-, rfl⟩ := mem
    · exact compact_opt fun s _ => compact_str _
    · exact compact_opt fun s _ => compact_str _
    · exact compact_opt fun t given => compact_time (valid.filters.submittedFrom t given)
    · exact compact_opt fun t given => compact_time (valid.filters.submittedUntil t given)
    · exact compact_opt fun s _ => compact_str _
  · refine compact_object (by simp) fun k v mem => ?_
    simp only [List.mem_cons, Prod.mk.injEq, Option.some.injEq, List.not_mem_nil, or_false] at mem
    obtain ⟨-, rfl⟩ | ⟨-, rfl⟩ := mem
    · exact compact_time valid.submittedAt
    · exact compact_str _

end TaskCursor

theorem TaskFilters.Valid.size_le {filters : TaskFilters} (valid : filters.Valid) :
    Json.size filters.toJson ≤ 1500 := by
  refine (Json.size_object_le _ [11, 258, 15, 15, 1026] ?_).trans ?_
  · simp only [List.forall₂_cons, List.Forall₂.nil, and_true, Option.some.injEq, forall_eq']
    refine ⟨?_, ?_, ?_, ?_, ?_⟩
    · exact TaskStatus.size_opt_le (by decide) fun s _ => by cases s <;> decide
    · exact TaskStatus.size_opt_le (by decide) fun q given => (valid.queue q given).size_le
    · exact TaskStatus.size_opt_le (by decide) fun t given =>
        TaskStatus.size_time_le (valid.submittedFrom t given)
    · exact TaskStatus.size_opt_le (by decide) fun t given =>
        TaskStatus.size_time_le (valid.submittedUntil t given)
    · exact TaskStatus.size_opt_le (by decide) fun k given =>
        TaskStatus.size_key_le (valid.correlationKey k given).1 (valid.correlationKey k given).2
  · simp only [List.map_cons, List.map_nil]
    decide

/-- Every cursor fits half of its limit, and its hexadecimal text the limit. -/
theorem TaskCursor.size_le {cursor : TaskCursor} (valid : cursor.Valid) :
    Json.size cursor.toJson ≤ taskCursorMaxBytes / 2 := by
  have position : Json.size cursor.position.toJson ≤ 400 := by
    refine (Json.size_object_le _ [15, 258] ?_).trans ?_
    · simp only [List.forall₂_cons, List.Forall₂.nil, and_true, Option.some.injEq, forall_eq']
      exact ⟨TaskStatus.size_time_le valid.submittedAt, valid.taskId.size_le⟩
    · simp only [List.map_cons, List.map_nil]
      decide
  refine (Json.size_object_le _ [10, 600, 1500, 400] ?_).trans ?_
  · simp only [List.forall₂_cons, List.Forall₂.nil, and_true, Option.some.injEq, forall_eq']
    refine ⟨?_, TaskStatus.size_scope_le valid.tenant valid.namespaceId, valid.filters.size_le,
      position⟩
    rw [valid.version]
    decide
  · simp only [List.map_cons, List.map_nil]
    decide

theorem utf8_text_ne_nil (v : Json) : utf8 v.text ≠ [] := by
  intro empty
  have blank := utf8_injective (empty.trans utf8_nil.symm)
  have some := JsonReader.text_length_pos v
  rw [blank] at some
  exact absurd some (by decide)

namespace TaskListQuery
variable {serde : Serde} {query : TaskListQuery} {scope : Scope} {position : TaskPosition}

/-- What the checks of a query say, with its position read from its cursor. -/
theorem validate_eq_ok {previous : Option TaskPosition} :
    query.validate serde scope = .ok previous ↔ scope.validate = .ok () ∧
      query.filters.validate = .ok () ∧ (1 ≤ query.limit ∧ query.limit ≤ taskListMaxLimit) ∧
      ((query.cursor = none ∧ previous = none) ∨ ∃ text position, query.cursor = some text ∧
        previous = some position ∧ query.decodeCursor serde scope text = .ok position) := by
  simp only [validate, bind_eq_ok, exists_unit, refuse_eq_ok, not_or, not_lt]
  refine and_congr_right' (and_congr_right' (and_congr_right' ?_))
  cases given : query.cursor with
  | none =>
    simp only [pure_eq_ok, true_and, reduceCtorEq, false_and, exists_false, or_false]
    exact eq_comm
  | some text =>
    simp only [map_eq_ok, reduceCtorEq, false_and, false_or, Option.some.injEq]
    constructor
    · rintro ⟨position, decoded, rfl⟩
      exact ⟨text, position, rfl, rfl, decoded⟩
    · rintro ⟨_, position, rfl, rfl, decoded⟩
      exact ⟨position, decoded, rfl⟩

/-- The next cursor is written for every position that the filters allow, within its limit, and
reads back under the same scope and filters and under no other. -/
theorem nextCursor_ok (correct : serde.Correct) {previous : Option TaskPosition}
    (checked : query.validate serde scope = .ok previous)
    (inside : position.validate query.filters = .ok ()) :
    ∃ text, query.nextCursor serde scope position = .ok text ∧
      byteLen text ≤ taskCursorMaxBytes ∧ Json.size (.str text) ≤ 2 * taskCursorMaxBytes + 2 ∧
      ∀ (other : TaskListQuery) (scope' : Scope), other.decodeCursor serde scope' text =
        if scope' = scope ∧ other.filters = query.filters then .ok position
        else .error (invalid "task cursor does not match scope or filters") := by
  obtain ⟨named, filters, -, -⟩ := validate_eq_ok.mp checked
  simp only [Scope.validate, bind_eq_ok, exists_unit, validateText_eq_ok] at named
  obtain ⟨taskId, time, -, -⟩ := TaskPosition.validate_eq_ok.mp inside
  have valid : (TaskCursor.mk 1 scope query.filters position).Valid :=
    ⟨rfl, named.1, named.2, TaskFilters.valid_of_validate filters, taskId, time⟩
  let v := (TaskCursor.mk 1 scope query.filters position).toJson
  have size : (utf8 v.text).length ≤ taskCursorMaxBytes / 2 := by
    rw [length_utf8]
    exact TaskCursor.size_le valid
  have fits : 2 * (utf8 v.text).length ≤ taskCursorMaxBytes := by
    have : taskCursorMaxBytes = 8192 := rfl
    omega
  have short : byteLen (Cursor.encode (utf8 v.text)) ≤ taskCursorMaxBytes := by
    rw [Cursor.byteLen_encode]
    exact fits
  refine ⟨Cursor.encode (utf8 v.text), ?_, short, Cursor.size_encode_le short, fun other scope' => ?_⟩
  · simp [nextCursor, checked, inside, v, not_lt.mpr short]
  · have bytes := Cursor.decode_encode (utf8_text_ne_nil v) fits
    have decoded : decodeUniqueJson serde (utf8 v.text) (taskCursorMaxBytes / 2) = .ok v :=
      (TaskCursor.compact valid).decode correct (by decide) (TaskCursor.size_le valid)
    have read := TaskCursor.fromJson_toJson valid
    rw [decodeCursor, bytes, okOr, ok_bind, decoded, Except.toOption, Option.bind_some, read, okOr,
      ok_bind]
    by_cases same : scope' = scope ∧ other.filters = query.filters
    · obtain ⟨rfl, sameFilters⟩ := same
      rw [if_pos ⟨rfl, sameFilters⟩, sameFilters, inside]
      simp [refuse]
    · have apart : (1 : Nat) ≠ 1 ∨ scope ≠ scope' ∨ query.filters ≠ other.filters := by
        by_cases scopes : scope' = scope
        · exact .inr (.inr fun h => same ⟨scopes, h.symm⟩)
        · exact .inr (.inl fun h => scopes h.symm)
      rw [if_neg same, refuse, if_pos apart]
      rfl

end TaskListQuery

/- Pages. -/

namespace TaskPage
variable {scope : Scope} {filters : TaskFilters}

theorem checkItem_eq_ok {task : TaskStatus} :
    checkItem scope filters task = .ok () ↔ task.validate = .ok () ∧ task.scope = scope ∧
      filters.matchesStatus task = true := by
  simp [checkItem]

/-- The position of a checked status is one that the filters it matches allow. -/
theorem position_valid {task : TaskStatus} (checked : task.validate = .ok ())
    (matched : filters.matchesStatus task = true) : task.position.validate filters = .ok () := by
  simp only [TaskStatus.validate, TaskStatus.orInconsistent, bind_eq_ok, exists_unit,
    ok_of_mapError, List.forM_eq_forM, forM_eq_ok, validateText_eq_ok, refuse_eq_ok] at checked
  obtain ⟨-, -, ids, -, -, -, -, -, -, -, -, times, -⟩ := checked
  have time : task.submittedAt ≤ maxTimestamp := by
    refine not_lt.mp fun late => times ?_
    simp [List.reduceOption, late]
  simp only [TaskFilters.matchesStatus, Bool.and_eq_true] at matched
  obtain ⟨⟨⟨-, start⟩, stop⟩, -⟩ := matched
  refine TaskPosition.validate_eq_ok.mpr ⟨ids _ (by simp [TaskStatus.position]), time,
    fun t given => ?_, fun t given => ?_⟩
  · simpa [given, TaskStatus.position] using start
  · simpa [given, TaskStatus.position] using stop

theorem size_le {page : TaskPage} (items : page.items.length ≤ taskListMaxLimit)
    (each : ∀ task ∈ page.items, task.validate = .ok ())
    (cursor : ∀ text, page.nextCursor = some text → Json.size (.str text) ≤ 2 * taskCursorMaxBytes + 2) :
    page.toJson.size ≤ taskPageMaxBytes := by
  have fits : ∀ v ∈ page.items.map TaskStatus.toJson, Json.size v ≤ taskStatusMaxBytes := by
    intro v mem
    obtain ⟨task, inside, rfl⟩ := List.mem_map.mp mem
    have checked := each task inside
    simp only [TaskStatus.validate, TaskStatus.orInconsistent, bind_eq_ok, exists_unit,
      ok_of_mapError, checkEncodedSize, refuse_eq_ok] at checked
    obtain ⟨-, -, -, -, -, -, -, -, -, -, -, -, size⟩ := checked
    exact not_lt.mp size
  have all := Json.size_arr_le fits
  rw [List.length_map] at all
  have some : page.items.length * (taskStatusMaxBytes + 1) ≤
      taskListMaxLimit * (taskStatusMaxBytes + 1) := Nat.mul_le_mul_right _ items
  have values : (100 * (16384 + 1) : Nat) = 1638500 := by decide
  simp only [taskListMaxLimit, taskStatusMaxBytes, Nat.reduceMul, values] at some all
  refine (Json.size_object_le _ [1638502, 16386] ?_).trans ?_
  · simp only [List.forall₂_cons, List.Forall₂.nil, and_true, Option.some.injEq, forall_eq']
    exact ⟨by omega, TaskStatus.size_opt_le (by decide) cursor⟩
  · simp only [List.map_cons, List.map_nil]
    decide

end TaskPage
end Ledgence
