import Ledgence.Api.Discovery
import Ledgence.Service.Coordinator

/-! Wake hints on the notification channel: their payloads, and reading a payload back. -/
open Kit Kit.Checked

namespace Ledgence

def maxHints : Nat := 1024
def maxPayloadBytes : Nat := 2048

/-- The numbers of the hint are a `u32` and a `u64`. -/
def AcquisitionHint.InRange : AcquisitionHint → Prop
  | .acquisitionCompleted key => key.consumerId ≤ u32Max ∧ key.sequence ≤ u64Max
  | .queueChanged _ | .rescan => True

structure Hint where
  hint : AcquisitionHint
  inRange : hint.InRange

def AcquisitionQueue.toJson (key : AcquisitionQueue) : Json :=
  .object [("scope", some key.scope.toJson), ("queue", some (.str key.queue))]

def AcquisitionKey.toJson (key : AcquisitionKey) : Json :=
  .object [("queue", some key.queue.toJson), ("worker_session_id", some (.str key.workerSessionId)),
    ("consumer_id", some (.nat key.consumerId)), ("sequence", some (.nat key.sequence))]

def AcquisitionQueue.fromJson (v : Json) : Option AcquisitionQueue := do
  let field ← Json.struct ["scope", "queue"] v
  let scope ← Json.required Scope.fromJson (field "scope")
  let queue ← Json.required Json.asStr (field "queue")
  return ⟨scope, queue⟩

def AcquisitionKey.fromJson (v : Json) : Option AcquisitionKey := do
  let field ← Json.struct ["queue", "worker_session_id", "consumer_id", "sequence"] v
  let queue ← Json.required AcquisitionQueue.fromJson (field "queue")
  let workerSessionId ← Json.required Json.asStr (field "worker_session_id")
  let consumerId ← Json.required (Json.unsigned u32Max) (field "consumer_id")
  let sequence ← Json.required (Json.unsigned u64Max) (field "sequence")
  return ⟨queue, workerSessionId, consumerId, sequence⟩

/-- The kinds of hint that are sent, each with its key under `key`. -/
inductive WireKind where
  | queueChanged
  | acquisitionCompleted

def WireKind.name : WireKind → String
  | .queueChanged => "queue_changed"
  | .acquisitionCompleted => "acquisition_completed"

def WireKind.names : List (String × WireKind) :=
  [.queueChanged, .acquisitionCompleted].map fun kind => (kind.name, kind)

def wireHint (kind : WireKind) (key : Json) : Json :=
  .object [("kind", some (.str kind.name)), ("key", some key)]

def wireHintFromJson (v : Json) : Option AcquisitionHint := do
  let field ← Json.struct ["kind", "key"] v
  match ← Json.required (Json.variant WireKind.names) (field "kind") with
  | .queueChanged =>
    return .queueChanged (← Json.required AcquisitionQueue.fromJson (field "key"))
  | .acquisitionCompleted =>
    return .acquisitionCompleted (← Json.required AcquisitionKey.fromJson (field "key"))

def envelope (hint : Json) : Json :=
  .object [("version", some (.nat 1)), ("hint", some hint)]

def envelopeFromJson (v : Json) : Option (Nat × AcquisitionHint) := do
  let field ← Json.struct ["version", "hint"] v
  let version ← Json.required (Json.unsigned 255) (field "version")
  let hint ← Json.required wireHintFromJson (field "hint")
  return (version, hint)

namespace AcquisitionHint

def validateQueue (key : AcquisitionQueue) : Bool :=
  key.scope.validate.isOk && (validateText key.queue 128).isOk

def validateHint : AcquisitionHint → Bool
  | .queueChanged key => validateQueue key
  | .acquisitionCompleted key =>
    (validateText key.workerSessionId 128).isOk && key.sequence != 0 && validateQueue key.queue
  | .rescan => false

def toJson : AcquisitionHint → Option Json
  | .queueChanged key => some (envelope (wireHint .queueChanged key.toJson))
  | .acquisitionCompleted key => some (envelope (wireHint .acquisitionCompleted key.toJson))
  | .rescan => none

def encode (hint : AcquisitionHint) : Option String :=
  if hint.validateHint = true then
    hint.toJson.bind fun v =>
      let payload := String.ofList v.text
      if byteLen payload ≤ maxPayloadBytes then some payload else none
  else
    none

def decode (serde : Serde) (payload : String) : Option AcquisitionHint :=
  if maxPayloadBytes < byteLen payload then
    none
  else do
    let v ← (serde.document (utf8 payload.toList) >>= StrictValue.visit serde).toOption
    let (version, hint) ← envelopeFromJson v
    if version = 1 ∧ hint.validateHint = true then some hint else none

end AcquisitionHint

/- Reading back what was written. -/

theorem AcquisitionQueue.fromJson_toJson (key : AcquisitionQueue) : fromJson key.toJson = some key := by
  rw [fromJson, toJson, Json.struct_object (by rfl) (by simp)]
  simp [List.lookup_cons, Scope.fromJson_toJson, Json.asStr]

theorem AcquisitionKey.fromJson_toJson {key : AcquisitionKey} (consumer : key.consumerId ≤ u32Max)
    (sequence : key.sequence ≤ u64Max) : fromJson key.toJson = some key := by
  rw [fromJson, toJson, Json.struct_object (by rfl) (by simp)]
  simp [List.lookup_cons, AcquisitionQueue.fromJson_toJson, Json.asStr, Json.unsigned_nat consumer,
    Json.unsigned_nat sequence]

theorem wireHintFromJson_queueChanged (key : AcquisitionQueue) :
    wireHintFromJson (wireHint .queueChanged key.toJson) = some (.queueChanged key) := by
  rw [wireHintFromJson, wireHint, Json.struct_object (by rfl) (by simp)]
  simp [List.lookup_cons, Json.variant, WireKind.names, WireKind.name, AcquisitionQueue.fromJson_toJson]

theorem wireHintFromJson_acquisitionCompleted {key : AcquisitionKey}
    (consumer : key.consumerId ≤ u32Max) (sequence : key.sequence ≤ u64Max) :
    wireHintFromJson (wireHint .acquisitionCompleted key.toJson) = some (.acquisitionCompleted key) := by
  rw [wireHintFromJson, wireHint, Json.struct_object (by rfl) (by simp)]
  simp [List.lookup_cons, Json.variant, WireKind.names, WireKind.name,
    AcquisitionKey.fromJson_toJson consumer sequence]

theorem envelopeFromJson_envelope {v : Json} {hint : AcquisitionHint}
    (reads : wireHintFromJson v = some hint) : envelopeFromJson (envelope v) = some (1, hint) := by
  have one : Json.unsigned 255 (.nat 1) = some 1 := Json.unsigned_nat (by decide)
  rw [envelopeFromJson, envelope, Json.struct_object (by rfl) (by simp)]
  simp [List.lookup_cons, reads, one]

namespace AcquisitionHint
variable {serde : Serde} {hint : AcquisitionHint} {v : Json}

theorem envelope_toJson (inRange : hint.InRange) (written : hint.toJson = some v) :
    envelopeFromJson v = some (1, hint) := by
  cases hint with
  | queueChanged key =>
    obtain rfl := Option.some.inj written
    exact envelopeFromJson_envelope (wireHintFromJson_queueChanged key)
  | acquisitionCompleted key =>
    obtain rfl := Option.some.inj written
    exact envelopeFromJson_envelope
      (wireHintFromJson_acquisitionCompleted inRange.1 inRange.2)
  | rescan => cases written

theorem validateQueue_iff {key : AcquisitionQueue} : validateQueue key = true ↔
    ValidText 128 key.scope.tenantId ∧ ValidText 128 key.scope.namespaceId ∧ ValidText 128 key.queue := by
  rw [validateQueue, Bool.and_eq_true, isOk_iff, isOk_iff]
  simp only [Scope.validate, bind_eq_ok, exists_unit, validateText_eq_ok, and_assoc]

theorem compact_queue (key : AcquisitionQueue) : Compact serde 2 key.toJson :=
  compact_object (by simp) fun k v mem => by
    simp only [List.mem_cons, Prod.mk.injEq, Option.some.injEq, List.not_mem_nil, or_false] at mem
    obtain ⟨-, rfl⟩ | ⟨-, rfl⟩ := mem
    · exact compact_scope _
    · exact compact_str _

theorem compact_key {key : AcquisitionKey} (consumer : key.consumerId ≤ u32Max)
    (sequence : key.sequence ≤ u64Max) : Compact serde 3 key.toJson :=
  compact_object (by simp) fun k v mem => by
    simp only [u32Max, u64Max] at consumer sequence
    simp only [List.mem_cons, Prod.mk.injEq, Option.some.injEq, List.not_mem_nil, or_false] at mem
    obtain ⟨-, rfl⟩ | ⟨-, rfl⟩ | ⟨-, rfl⟩ | ⟨-, rfl⟩ := mem
    · exact compact_queue _
    · exact compact_str _
    · exact compact_nat (by omega)
    · exact compact_nat (by omega)

theorem compact_envelope {kind : WireKind} {v : Json} (key : Compact serde 3 v) :
    Compact serde 5 (envelope (wireHint kind v)) := by
  refine compact_object (by simp) fun k w mem => ?_
  simp only [List.mem_cons, Prod.mk.injEq, Option.some.injEq, List.not_mem_nil, or_false] at mem
  obtain ⟨-, rfl⟩ | ⟨-, rfl⟩ := mem
  · exact compact_nat (by decide)
  · refine compact_object (by simp) fun k w mem => ?_
    simp only [List.mem_cons, Prod.mk.injEq, Option.some.injEq, List.not_mem_nil, or_false] at mem
    obtain ⟨-, rfl⟩ | ⟨-, rfl⟩ := mem
    · exact compact_str _
    · exact key

theorem compact_toJson (inRange : hint.InRange) (written : hint.toJson = some v) :
    Compact serde 5 v := by
  cases hint with
  | queueChanged key =>
    obtain rfl := Option.some.inj written
    have key : Compact serde 2 key.toJson := compact_queue key
    exact compact_envelope ⟨key.unique, key.holds, key.depth.trans (by decide)⟩
  | acquisitionCompleted key =>
    obtain rfl := Option.some.inj written
    exact compact_envelope (compact_key inRange.1 inRange.2)
  | rescan => cases written

theorem size_queue_le {key : AcquisitionQueue} (valid : validateQueue key = true) :
    Json.size key.toJson ≤ 900 := by
  obtain ⟨tenant, name, queue⟩ := validateQueue_iff.mp valid
  refine (Json.size_object_le _ [600, 258] ?_).trans ?_
  · simp only [List.forall₂_cons, List.Forall₂.nil, and_true, Option.some.injEq, forall_eq']
    exact ⟨TaskStatus.size_scope_le tenant name, queue.size_le⟩
  · simp only [List.map_cons, List.map_nil]
    decide

theorem size_envelope_le {kind : WireKind} {v : Json} (key : Json.size v ≤ 1300) :
    Json.size (envelope (wireHint kind v)) ≤ maxPayloadBytes := by
  have named : Json.size (.str kind.name) ≤ 30 := by
    cases kind with
    | queueChanged => decide
    | acquisitionCompleted => decide
  have hint : Json.size (wireHint kind v) ≤ 1400 := by
    refine (Json.size_object_le _ [30, 1300] ?_).trans ?_
    · simp only [List.forall₂_cons, List.Forall₂.nil, and_true, Option.some.injEq, forall_eq']
      exact ⟨named, key⟩
    · simp only [List.map_cons, List.map_nil]
      decide
  refine (Json.size_object_le _ [1, 1400] ?_).trans ?_
  · simp only [List.forall₂_cons, List.Forall₂.nil, and_true, Option.some.injEq, forall_eq']
    exact ⟨by decide, hint⟩
  · simp only [List.map_cons, List.map_nil]
    decide

theorem size_toJson_le (inRange : hint.InRange) (valid : hint.validateHint = true) :
    ∃ v, hint.toJson = some v ∧ v.size ≤ maxPayloadBytes := by
  cases hint with
  | queueChanged key =>
    have key : Json.size key.toJson ≤ 900 := size_queue_le valid
    exact ⟨_, rfl, size_envelope_le (key.trans (by decide))⟩
  | acquisitionCompleted key =>
    simp only [validateHint, Bool.and_eq_true, isOk_iff, validateText_eq_ok] at valid
    obtain ⟨⟨session, _⟩, queue⟩ := valid
    have consumer := inRange.1
    have sequence := inRange.2
    simp only [u32Max, u64Max] at consumer sequence
    refine ⟨_, rfl, size_envelope_le ((Json.size_object_le _ [900, 258, 10, 20] ?_).trans ?_)⟩
    · simp only [List.forall₂_cons, List.Forall₂.nil, and_true, Option.some.injEq, forall_eq']
      exact ⟨size_queue_le queue, session.size_le, Json.size_nat_le (by decide) (by omega),
        Json.size_nat_le (by decide) (by omega)⟩
    · simp only [List.map_cons, List.map_nil]
      decide
  | rescan => cases valid

theorem encode_eq_some {payload : String} : hint.encode = some payload ↔ hint.validateHint = true ∧
    ∃ v, hint.toJson = some v ∧ v.size ≤ maxPayloadBytes ∧ payload = String.ofList v.text := by
  rw [encode]
  by_cases valid : hint.validateHint = true
  · rw [if_pos valid, Option.bind_eq_some_iff]
    simp only [Option.ite_none_right_eq_some, byteLen, String.toList_ofList, Json.size, valid, true_and,
      Option.some.injEq, eq_comm (a := payload)]
  · simp [valid]

theorem encode_isSome (inRange : hint.InRange) : hint.encode.isSome = hint.validateHint := by
  rw [Bool.eq_iff_iff, Option.isSome_iff_exists]
  constructor
  · rintro ⟨payload, encoded⟩
    exact (encode_eq_some.mp encoded).1
  · intro valid
    obtain ⟨v, written, fits⟩ := size_toJson_le inRange valid
    exact ⟨_, encode_eq_some.mpr ⟨valid, v, written, fits, rfl⟩⟩

/-- What a committer encodes, every receiver decodes to the same hint. -/
theorem decode_encode (correct : serde.Correct) {payload : String} (inRange : hint.InRange)
    (encoded : hint.encode = some payload) : decode serde payload = some hint := by
  obtain ⟨valid, v, written, fits, rfl⟩ := encode_eq_some.mp encoded
  have compact : Compact serde 5 v := compact_toJson inRange written
  have short : ¬ maxPayloadBytes < byteLen (String.ofList v.text) := by
    rw [byteLen, String.toList_ofList]
    exact Nat.not_lt.mpr fits
  have document : (serde.document (utf8 v.text) >>= StrictValue.visit serde) = .ok v := by
    have decoded := compact.decode correct (by decide) fits
    simp only [decodeUniqueJson, decodeJson, ite_error_eq_ok, ok_of_mapError] at decoded
    exact decoded.2.2
  rw [decode, if_neg short, String.toList_ofList, document]
  have read := envelope_toJson inRange written
  simp [Except.toOption, read, valid]

end AcquisitionHint
end Ledgence
