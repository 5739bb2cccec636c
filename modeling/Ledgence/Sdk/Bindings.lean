import Ledgence.Kit.Checked
import Ledgence.Kit.JsonCanonical
import Ledgence.Kit.JsonObject

/-! The canonical JSON of the Python SDK: how `_encode` bounds a value, and the copy that
`_freeze` makes of it. -/
open Kit Kit.Checked

namespace Ledgence.Sdk

structure WorkflowError where
  message : String
  deriving DecidableEq

def maxSteps : Nat := 128
def maxCommands : Nat := 64
def maxRecordBytes : Nat := 128 * 1024
def maxRecordsBytes : Nat := 256 * 1024
def maxDecisionBytes : Nat := 256 * 1024
def maxForkBytes : Nat := 128 * 1024
def maxApprovalBytes : Nat := 32 * 1024
def maxTimestamp : Nat := 253402300799999

/-- What is left of the limit, and what the printed floats may go beyond it. -/
structure Measure where
  remaining : Nat
  floatSlack : Nat

def Measure.spend (m : Measure) (bytes : Nat) (message : String) : Except WorkflowError Measure :=
  if m.remaining < bytes then .error ⟨message⟩ else .ok { m with remaining := m.remaining - bytes }

def Measure.visit (m : Measure) : Except WorkflowError Measure :=
  m.spend 1 "workflow value exceeds its byte limit"

def Measure.string (m : Measure) (s : String) : Except WorkflowError Measure := do
  let m ← m.visit
  m.spend (utf8Len s.toList) "workflow string exceeds its byte limit"

def Measure.number (authoritative : Bool) (m : Measure) : Number → Except WorkflowError Measure
  | .int i => do
    let m ← m.visit
    refuse (¬(-(2 ^ 63) ≤ i ∧ i ≤ 2 ^ 64 - 1)) ⟨"invalid JSON integer"⟩
    return m
  | .float f => do
    let m ← m.visit
    if authoritative then do
      refuse (32 < f.text.length) ⟨"unsupported floating-point representation"⟩
      return { m with floatSlack := m.floatSlack + (f.text.length - 3) }
    else return m

mutual
/-- `check` of one value at a depth. -/
def check (authoritative : Bool) (maxDepth depth : Nat) : Json → Measure → Except WorkflowError Measure
  | .null, m => m.visit
  | .bool _, m => m.visit
  | .num n, m => m.number authoritative n
  | .str s, m => m.string s
  | .arr vs, m => do
    let m ← m.visit
    refuse (maxDepth ≤ depth) ⟨"workflow values must be bounded JSON"⟩
    checkItems authoritative maxDepth (depth + 1) vs m
  | .obj ms, m => do
    let m ← m.visit
    refuse (maxDepth ≤ depth) ⟨"workflow values must be bounded JSON"⟩
    checkMembers authoritative maxDepth (depth + 1) ms m
termination_by structural v => v

def checkItems (authoritative : Bool) (maxDepth depth : Nat) :
    List Json → Measure → Except WorkflowError Measure
  | [], m => .ok m
  | v :: vs, m => do
    let m ← check authoritative maxDepth depth v m
    checkItems authoritative maxDepth depth vs m
termination_by structural vs => vs

def checkMembers (authoritative : Bool) (maxDepth depth : Nat) :
    List (String × Json) → Measure → Except WorkflowError Measure
  | [], m => .ok m
  | (k, v) :: ms, m => do
    let m ← m.string k
    let m ← check authoritative maxDepth depth v m
    checkMembers authoritative maxDepth depth ms m
termination_by structural ms => ms
end

def canonical (v : Value) : List Char :=
  v.json.sortObjects.text

def encode (v : Value) (limit maxDepth : Nat) (authoritative : Bool) :
    Except WorkflowError (List Char) := do
  let m ← check authoritative maxDepth 0 v.json ⟨limit, 0⟩
  refuse (limit + m.floatSlack < utf8Len (canonical v)) ⟨"workflow value exceeds its byte limit"⟩
  return canonical v

def copy (v : Value) : Value where
  json := v.json.sortObjects
  unique := Json.uniqueKeys_sortObjects v.unique

/-- `_freeze`. An object that is no JSON value at all is `none`. -/
def freeze (o : Option Value) (limit maxDepth : Nat) (authoritative : Bool) :
    Except WorkflowError Value := do
  let v ← okOr o ⟨"workflow values must be bounded JSON"⟩
  let _ ← encode v limit maxDepth authoritative
  return copy v

/-- Control characters, and the code points that are set aside as no characters. -/
def unprintable (c : Char) : Bool :=
  c.toNat < 32 || (127 ≤ c.toNat && c.toNat ≤ 159) || (0xFDD0 ≤ c.toNat && c.toNat ≤ 0xFDEF) ||
    0xFFFE ≤ c.toNat % 0x10000

/-- `_text` -/
def checkText (value name : String) (limit : Nat) : Except WorkflowError Unit :=
  refuse (value = "" ∨ limit < utf8Len value.toList ∨ value.toList.any unprintable = true)
    ⟨s!"{name} must be a nonempty string of at most {limit} UTF-8 bytes"⟩

@[simp] theorem encode_eq_ok {v : Value} {limit maxDepth : Nat} {authoritative : Bool} {t : List Char} :
    encode v limit maxDepth authoritative = .ok t ↔
      t = canonical v ∧ ∃ m, check authoritative maxDepth 0 v.json ⟨limit, 0⟩ = .ok m ∧
        utf8Len (canonical v) ≤ limit + m.floatSlack := by
  unfold encode
  constructor
  · intro h
    simp only [bind_eq_ok, refuse_eq_ok, pure_eq_ok] at h
    obtain ⟨m, checked, _, fits, rfl⟩ := h
    exact ⟨rfl, m, checked, by omega⟩
  · rintro ⟨rfl, m, checked, fits⟩
    simp only [bind_eq_ok, refuse_eq_ok, pure_eq_ok, and_true]
    exact ⟨m, checked, ⟨⟩, by omega⟩

/-- A frozen object is a JSON value, and the copy has its canonical text. -/
theorem freeze_eq_ok {o : Option Value} {limit maxDepth : Nat} {authoritative : Bool} {v : Value}
    (h : freeze o limit maxDepth authoritative = .ok v) : ∃ w, o = some w ∧ v = copy w := by
  unfold freeze at h
  simp only [bind_eq_ok, okOr_eq_ok, pure_eq_ok] at h
  obtain ⟨w, rfl, _, _, rfl⟩ := h
  exact ⟨w, rfl, rfl⟩

/-- Two values have one canonical text just when they are equal up to the order of members. -/
theorem canonical_eq {v w : Value} : canonical v = canonical w ↔ v.json.sortObjects = w.json.sortObjects :=
  ⟨fun h => Json.text_injective h, fun h => congrArg Json.text h⟩

theorem sortObjects_copy (v : Value) : (copy v).json.sortObjects = v.json.sortObjects :=
  (Json.sortObjects_eq_of_same v.unique (Json.same_sortObjects v.json)).symm

end Ledgence.Sdk

/-! What a local step is bound to: its key, the name of its callable and its input. The accepted
record of a step keeps the binding. -/

namespace Ledgence.Sdk

/-- What the SDK asks of Python's own library. -/
structure Library where
  /-- `json.loads` of a stored text; a field given twice is refused. -/
  loads : List Char → Option Value
  loads_canonical (v : Value) : loads (canonical v) = some (copy v)
  /-- `hashlib.sha256(key).hexdigest()` -/
  sha256 : String → String

open Classical in
noncomputable def Library.printed : Library where
  loads := fun text => if h : ∃ v, canonical v = text then some (copy h.choose) else none
  loads_canonical := by
    intro v
    have h : ∃ v', canonical v' = canonical v := ⟨v, rfl⟩
    have same := canonical_eq.mp h.choose_spec
    rw [dif_pos h]
    simp only [copy, same]
  sha256 := id

/-- Why `inspect.signature` does not bind keyword arguments. -/
inductive Unbound where
  | mismatch
  | positional

structure Callable where
  object : Nat
  isCallable : Bool
  moduleName : String
  qualname : String
  /-- The arguments with the defaults of the signature. -/
  signature : Value → Except Unbound (Option Value)

namespace Callable

def name (fn : Callable) : String :=
  fn.moduleName ++ ":" ++ fn.qualname

/-- `_callable_name` -/
def checkName (fn : Callable) (label : String) : Except WorkflowError Unit := do
  refuse (fn.isCallable = false ∨ fn.moduleName = "" ∨ fn.qualname = "")
    ⟨s!"{label} callable requires a stable module and qualified name"⟩
  checkText fn.name s!"{label} callable" 512

def effectiveArguments (fn : Callable) (arguments : Value) (label : String) :
    Except WorkflowError (Option Value) :=
  match fn.signature arguments with
  | .ok effective => .ok effective
  | .error .mismatch => .error ⟨s!"{label} arguments do not bind to the callable"⟩
  | .error .positional => .error ⟨s!"{label} callables must accept keyword arguments"⟩

end Callable

def object (fields : List (String × Value)) (keys : (fields.map Prod.fst).Nodup) : Value where
  json := .obj (fields.map fun f => (f.1, f.2.json))
  unique := by
    rw [Json.UniqueKeys, Json.membersUnique_iff, List.map_map]
    refine ⟨keys, fun k v mem => ?_⟩
    obtain ⟨f, _, e⟩ := List.mem_map.mp mem
    obtain ⟨-, rfl⟩ := Prod.mk.inj e
    exact f.2.unique

def str (s : String) : Value :=
  ⟨.str s, trivial⟩

def nat (n : Nat) : Value :=
  ⟨.num (.int n), trivial⟩

def array (vs : List Value) : Value where
  json := .arr (vs.map Value.json)
  unique := by
    rw [Json.UniqueKeys, Json.itemsUnique_iff]
    intro v mem
    obtain ⟨w, _, rfl⟩ := List.mem_map.mp mem
    exact w.unique

structure Binding where
  key : String
  callable : String
  input : Value

def Binding.value (b : Binding) : Value :=
  object [("key", str b.key), ("callable", str b.callable), ("input", b.input)] (by simp)

structure Record extends Binding where
  output : Value

namespace Record

def value (r : Record) : Value :=
  object [("key", str r.key), ("callable", str r.callable), ("input", r.input), ("output", r.output)]
    (by simp)

/-- `_validate_record` -/
def validate (r : Record) (authoritative : Bool) : Except WorkflowError Unit := do
  checkText r.key "local key" 128
  checkText r.callable "local callable" 512
  let _ ← encode r.input maxRecordBytes 64 authoritative
  let _ ← encode r.output maxRecordBytes 64 authoritative
  let _ ← encode r.value maxRecordBytes 96 authoritative

end Record

def Binding.text (b : Binding) : List Char :=
  canonical b.value

def approvalLocalPrefix : String := "_approval:"

def reserved (key : String) : Bool :=
  approvalLocalPrefix.toList.isPrefixOf key.toList

def replayedActionJson (library : Library) (text : List Char) : Except WorkflowError (List Char) := do
  let action ← okOr (library.loads text) ⟨"invalid stored approved effect action"⟩
  encode action maxApprovalBytes 96 true

def effectInput (actionJson : List Char) (lookup : String) : Value :=
  object [("v", nat 1), ("action_json", str (String.ofList actionJson)), ("lookup", str lookup)]
    (by simp)

/-- The input up to the order of members. Under a reserved key the text of an action counts as
the action that it is read as. -/
def canonicalInput (library : Library) (key : String) (input : Value) : Json :=
  match reserved key, input.json.sortObjects with
  | true, .obj [("action_json", .str s), ("lookup", lookup), ("v", v)] =>
    match library.loads s.toList with
    | some action => .obj [("action_json", action.json.sortObjects), ("lookup", lookup), ("v", v)]
    | none => input.json.sortObjects
  | _, sorted => sorted

structure Binding.Agrees (library : Library) (a b : Binding) : Prop where
  callable : a.callable = b.callable
  input : canonicalInput library a.key a.input = canonicalInput library b.key b.input

section Agreement
variable {library : Library} {a b c : Binding}

theorem Binding.Agrees.refl : a.Agrees library a :=
  ⟨rfl, rfl⟩

theorem Binding.Agrees.symm (h : a.Agrees library b) : b.Agrees library a :=
  ⟨h.callable.symm, h.input.symm⟩

theorem Binding.Agrees.trans (h : a.Agrees library b) (h' : b.Agrees library c) :
    a.Agrees library c :=
  ⟨h.callable.trans h'.callable, h.input.trans h'.input⟩

theorem Binding.sorted_value (b : Binding) : b.value.json.sortObjects =
    .obj [("callable", .str b.callable), ("input", b.input.json.sortObjects), ("key", .str b.key)] := by
  have order : ¬("key" ≤ "callable") ∧ "callable" ≤ "input" ∧ ¬("key" ≤ "input") := by decide
  obtain ⟨first, second, third⟩ := order
  simp [Binding.value, object, str, Json.sortObjects, Json.sortMembers, Json.keyLE, first, second,
    third]

theorem sorted_effectInput (actionJson : List Char) (lookup : String) :
    (effectInput actionJson lookup).json.sortObjects =
      .obj [("action_json", .str (String.ofList actionJson)), ("lookup", .str lookup),
        ("v", .num (.int 1))] := by
  have order : ¬("v" ≤ "action_json") ∧ ¬("v" ≤ "lookup") ∧ "action_json" ≤ "lookup" := by decide
  obtain ⟨first, second, third⟩ := order
  simp [effectInput, object, str, nat, Json.sortObjects, Json.sortMembers, Json.keyLE, first, second,
    third]

/-- The text tells the key, the callable and the input up to the order of members. -/
theorem Binding.text_eq : a.text = b.text ↔
    a.key = b.key ∧ a.callable = b.callable ∧ a.input.json.sortObjects = b.input.json.sortObjects := by
  rw [Binding.text, Binding.text, canonical_eq, a.sorted_value, b.sorted_value]
  constructor
  · intro h
    simp only [Json.obj.injEq, List.cons.injEq, Prod.mk.injEq, Json.str.injEq, true_and,
      and_true] at h
    exact ⟨h.2.2, h.1, h.2.1⟩
  · rintro ⟨key, callable, input⟩
    rw [key, callable, input]

theorem Binding.Agrees.of_text (h : a.text = b.text) : a.Agrees library b := by
  obtain ⟨key, callable, input⟩ := Binding.text_eq.mp h
  refine ⟨callable, ?_⟩
  simp only [canonicalInput, key, input]

theorem canonicalInput_effect {key : String} (under : reserved key = true) {s : List Char} {v : Value}
    (reads : library.loads s = some v) (lookup : String) :
    canonicalInput library key (effectInput s lookup) =
      .obj [("action_json", v.json.sortObjects), ("lookup", .str lookup), ("v", .num (.int 1))] := by
  simp [canonicalInput, under, sorted_effectInput, String.toList_ofList, reads]

end Agreement
end Ledgence.Sdk
