import Ledgence.Kit.Checked
import Ledgence.Kit.JsonCanonical
import Ledgence.Kit.Utf8

/-! Worker errors and the structural limits on JSON that crosses the worker boundary. -/
open Kit Kit.Checked

namespace Ledgence

inductive ErrorKind where
  | invalidInput
  | notFound
  | integrity
  | incompatible
  | unavailable
  | cancelled
  | timedOut
  | runtime
  | protocol
  | io
  | capacity
  deriving DecidableEq, Repr

def ErrorKind.debug : ErrorKind → String
  | .invalidInput => "InvalidInput"
  | .notFound => "NotFound"
  | .integrity => "Integrity"
  | .incompatible => "Incompatible"
  | .unavailable => "Unavailable"
  | .cancelled => "Cancelled"
  | .timedOut => "TimedOut"
  | .runtime => "Runtime"
  | .protocol => "Protocol"
  | .io => "Io"
  | .capacity => "Capacity"

structure Error where
  kind : ErrorKind
  message : String
  deriving DecidableEq, Repr

def Error.toString (error : Error) : String :=
  error.kind.debug ++ ": " ++ error.message

abbrev WorkerResult := Except Error

def maxWireValueDepth : Nat := 64
def maxRuntimeValueDepth : Nat := 96
def applicationInputMaxBytes : Nat := 1024 * 1024

def byteLen (s : String) : Nat :=
  utf8Len s.toList

/-- `char::is_control`: the Unicode general category Cc. -/
def isControl (c : Char) : Bool :=
  c.toNat < 32 || (127 ≤ c.toNat && c.toNat ≤ 159)

namespace Wire

def tooDeep : Error := ⟨.protocol, "program output exceeds 64 nested containers"⟩
def runtimeTooDeep : Error := ⟨.protocol, "runtime payload exceeds 96 nested containers"⟩
def overBudget : Error := ⟨.protocol, "runtime payload exceeds its byte budget"⟩

mutual
def visit : Json → Nat → WorkerResult Unit
  | .arr vs, depth => do
    refuse (maxWireValueDepth ≤ depth) tooDeep
    visitItems vs (depth + 1)
  | .obj ms, depth => do
    refuse (maxWireValueDepth ≤ depth) tooDeep
    visitMembers ms (depth + 1)
  | _, _ => .ok ()
termination_by structural v => v

def visitItems : List Json → Nat → WorkerResult Unit
  | [], _ => .ok ()
  | v :: vs, depth => do
    visit v depth
    visitItems vs depth
termination_by structural vs => vs

def visitMembers : List (String × Json) → Nat → WorkerResult Unit
  | [], _ => .ok ()
  | (_, v) :: ms, depth => do
    visit v depth
    visitMembers ms depth
termination_by structural ms => ms
end

mutual
def visitRuntime : Json → Nat → Nat → WorkerResult Nat
  | .arr vs, depth, remaining => do
    refuse (remaining = 0) overBudget
    refuse (maxRuntimeValueDepth ≤ depth) runtimeTooDeep
    visitRuntimeItems vs (depth + 1) (remaining - 1)
  | .obj ms, depth, remaining => do
    refuse (remaining = 0) overBudget
    refuse (maxRuntimeValueDepth ≤ depth) runtimeTooDeep
    visitRuntimeMembers ms (depth + 1) (remaining - 1)
  | _, _, remaining => do
    refuse (remaining = 0) overBudget
    return remaining - 1
termination_by structural v => v

def visitRuntimeItems : List Json → Nat → Nat → WorkerResult Nat
  | [], _, remaining => .ok remaining
  | v :: vs, depth, remaining => do
    let rest ← visitRuntime v depth remaining
    visitRuntimeItems vs depth rest
termination_by structural vs => vs

def visitRuntimeMembers : List (String × Json) → Nat → Nat → WorkerResult Nat
  | [], _, remaining => .ok remaining
  | (_, v) :: ms, depth, remaining => do
    let rest ← visitRuntime v depth remaining
    visitRuntimeMembers ms depth rest
termination_by structural ms => ms
end

def overBytes : Error :=
  ⟨.protocol, "runtime payload exceeds its byte budget: runtime payload exceeds its byte budget"⟩

/-- A write takes a piece whole or not at all, and answers what it took and what is left. -/
def Budget.write (left : Nat) (bytes : List UInt8) : WorkerResult (Nat × Nat) := do
  refuse (left < bytes.length) overBytes
  return (bytes.length, left - bytes.length)

/-- `Write::write_all`: write until nothing of the piece is left. -/
def Budget.writeAll (left : Nat) (bytes : List UInt8) : WorkerResult Nat :=
  match bytes with
  | [] => .ok left
  | b :: rest =>
    match write left (b :: rest) with
    | .error e => .error e
    | .ok (0, _) => .error ⟨.protocol, "runtime payload exceeds its byte budget: failed to write whole buffer"⟩
    | .ok (n + 1, left) => writeAll left (rest.drop n)
termination_by bytes.length
decreasing_by simp only [List.length_drop, List.length_cons]; omega

def Budget.toWriter (pieces : List (List UInt8)) (maxBytes : Nat) : WorkerResult Unit := do
  let _ ← pieces.foldlM writeAll maxBytes
  return ()

end Wire

def validateWireValue (value : Json) : WorkerResult Unit :=
  Wire.visit value 0

/-- `validate_runtime_payload`, where the serializer writes these pieces. -/
def streamRuntimePayload (pieces : List (List UInt8)) (value : Json) (maxBytes : Nat) :
    WorkerResult Unit := do
  let _ ← Wire.visitRuntime value 0 maxBytes
  Wire.Budget.toWriter pieces maxBytes

def validateRuntimePayload (value : Json) (maxBytes : Nat) : WorkerResult Unit :=
  streamRuntimePayload [utf8 value.text] value maxBytes

namespace Wire

/-- Nesting `value` below `depth` containers stays within `limit`. -/
def Fits (limit depth : Nat) (value : Json) : Prop :=
  value.depth = 0 ∨ depth + value.depth ≤ limit

theorem fits_items {limit depth : Nat} {vs : List Json} :
    (depth < limit ∧ ∀ v ∈ vs, Fits limit (depth + 1) v) ↔
      depth + (1 + Json.itemsDepth vs) ≤ limit := by
  constructor
  · rintro ⟨shallow, items⟩
    have : Json.itemsDepth vs ≤ limit - (depth + 1) := by
      refine Json.itemsDepth_le.mpr fun v hv => ?_
      obtain flat | fits := items v hv
      · omega
      · omega
    omega
  · intro fits
    refine ⟨by omega, fun v hv => .inr ?_⟩
    have := Json.itemsDepth_le.mp (Nat.le_refl (Json.itemsDepth vs)) v hv
    omega

theorem visitItems_eq_ok {vs : List Json} {depth : Nat} :
    visitItems vs depth = .ok () ↔ ∀ v ∈ vs, visit v depth = .ok () := by
  induction vs with
  | nil => simp [visitItems]
  | cons v vs ih => simp [visitItems, ih]

theorem visitMembers_eq_items (ms : List (String × Json)) (depth : Nat) :
    visitMembers ms depth = visitItems (ms.map Prod.snd) depth := by
  induction ms with
  | nil => rfl
  | cons m ms ih => simp [visitMembers, visitItems, ih]

theorem visit_eq_ok {v : Json} {depth : Nat} :
    visit v depth = .ok () ↔ Fits maxWireValueDepth depth v := by
  induction v using Json.induction generalizing depth with
  | null | bool b | num n | str s => simp [visit, Fits, Json.depth]
  | arr vs each =>
    have items : (∀ v ∈ vs, visit v (depth + 1) = .ok ()) ↔
        ∀ v ∈ vs, Fits maxWireValueDepth (depth + 1) v :=
      forall₂_congr fun v hv => each v hv
    simp [visit, visitItems_eq_ok, Fits, Json.depth, items, ← fits_items]
  | obj ms each =>
    have items : (∀ v ∈ ms.map Prod.snd, visit v (depth + 1) = .ok ()) ↔
        ∀ v ∈ ms.map Prod.snd, Fits maxWireValueDepth (depth + 1) v := by
      simp only [List.forall_mem_map]
      exact forall₂_congr fun m hm => each m.1 m.2 hm
    simp only [visit, bind_eq_ok, refuse_eq_ok, exists_unit, visitMembers_eq_items,
      visitItems_eq_ok, items, Fits, Json.depth, Json.membersDepth_eq_items, ← fits_items]
    simp

theorem visitRuntimeItems_eq_ok {vs : List Json} {depth remaining rest : Nat}
    (each : ∀ v ∈ vs, ∀ remaining rest, visitRuntime v depth remaining = .ok rest ↔
      Fits maxRuntimeValueDepth depth v ∧ v.nodes + rest = remaining) :
    visitRuntimeItems vs depth remaining = .ok rest ↔
      (∀ v ∈ vs, Fits maxRuntimeValueDepth depth v) ∧ Json.itemsNodes vs + rest = remaining := by
  induction vs generalizing remaining with
  | nil => simp [visitRuntimeItems, Json.itemsNodes, eq_comm]
  | cons v vs ih =>
    have tail : ∀ r, visitRuntimeItems vs depth r = .ok rest ↔
        (∀ v ∈ vs, Fits maxRuntimeValueDepth depth v) ∧ Json.itemsNodes vs + rest = r :=
      fun _ => ih fun u hu => each u (by simp [hu])
    simp only [visitRuntimeItems, bind_eq_ok, each v (by simp), tail, List.forall_mem_cons,
      Json.itemsNodes]
    constructor
    · rintro ⟨r, ⟨fits, count⟩, others, rfl⟩
      exact ⟨⟨fits, others⟩, by omega⟩
    · rintro ⟨⟨fits, others⟩, count⟩
      exact ⟨_, ⟨fits, by omega⟩, others, rfl⟩

theorem visitRuntimeMembers_eq_items (ms : List (String × Json)) (depth remaining : Nat) :
    visitRuntimeMembers ms depth remaining =
      visitRuntimeItems (ms.map Prod.snd) depth remaining := by
  induction ms generalizing remaining with
  | nil => rfl
  | cons m ms ih => simp [visitRuntimeMembers, visitRuntimeItems, ih]

theorem visitRuntime_eq_ok {v : Json} {depth remaining rest : Nat} :
    visitRuntime v depth remaining = .ok rest ↔
      Fits maxRuntimeValueDepth depth v ∧ v.nodes + rest = remaining := by
  induction v using Json.induction generalizing depth remaining rest with
  | null | bool b | num n | str s =>
    simp only [visitRuntime, bind_eq_ok, refuse_eq_ok, exists_unit, pure_eq_ok, Fits, Json.depth,
      Json.nodes, true_or, true_and]
    omega
  | arr vs each =>
    have items : ∀ r, visitRuntimeItems vs (depth + 1) r = .ok rest ↔
        (∀ v ∈ vs, Fits maxRuntimeValueDepth (depth + 1) v) ∧ Json.itemsNodes vs + rest = r :=
      fun _ => visitRuntimeItems_eq_ok fun v hv remaining rest => each v hv
    simp only [visitRuntime, bind_eq_ok, refuse_eq_ok, exists_unit, items, Fits, Json.depth,
      Json.nodes, ← fits_items]
    constructor
    · rintro ⟨positive, shallow, fits, count⟩
      exact ⟨.inr ⟨by omega, fits⟩, by omega⟩
    · rintro ⟨absurdity | ⟨shallow, fits⟩, count⟩
      · omega
      · exact ⟨by omega, by omega, fits, by omega⟩
  | obj ms each =>
    have values : ∀ v ∈ ms.map Prod.snd, ∀ remaining rest,
        visitRuntime v (depth + 1) remaining = .ok rest ↔
          Fits maxRuntimeValueDepth (depth + 1) v ∧ v.nodes + rest = remaining := by
      simp only [List.forall_mem_map]
      exact fun m hm remaining rest => each m.1 m.2 hm
    have items : ∀ r, visitRuntimeItems (ms.map Prod.snd) (depth + 1) r = .ok rest ↔
        (∀ v ∈ ms.map Prod.snd, Fits maxRuntimeValueDepth (depth + 1) v) ∧
          Json.itemsNodes (ms.map Prod.snd) + rest = r :=
      fun _ => visitRuntimeItems_eq_ok values
    simp only [visitRuntime, bind_eq_ok, refuse_eq_ok, exists_unit, visitRuntimeMembers_eq_items,
      items, Fits, Json.depth, Json.nodes, Json.membersDepth_eq_items,
      Json.membersNodes_eq_items, ← fits_items]
    constructor
    · rintro ⟨positive, shallow, fits, count⟩
      exact ⟨.inr ⟨by omega, fits⟩, by omega⟩
    · rintro ⟨absurdity | ⟨shallow, fits⟩, count⟩
      · omega
      · exact ⟨by omega, by omega, fits, by omega⟩

theorem Budget.writeAll_eq_ok {left rest : Nat} {bytes : List UInt8} :
    writeAll left bytes = .ok rest ↔ bytes.length + rest = left := by
  cases bytes with
  | nil => simp [writeAll, eq_comm]
  | cons b bs =>
    by_cases fits : left < (b :: bs).length
    · simp only [writeAll, write, refuse, if_pos fits, error_bind]
      simp only [reduceCtorEq, false_iff]
      omega
    · have taken : write left (b :: bs) = .ok (bs.length + 1, left - (bs.length + 1)) := by
        rw [write, refuse, if_neg fits]
        rfl
      rw [writeAll, taken]
      simp only [List.drop_length, writeAll, Except.ok.injEq, List.length_cons] at fits ⊢
      omega

theorem Budget.foldlM_writeAll_eq_ok {pieces : List (List UInt8)} {left rest : Nat} :
    pieces.foldlM writeAll left = .ok rest ↔ pieces.flatten.length + rest = left := by
  induction pieces generalizing left with
  | nil => simp [pure, Except.pure, eq_comm]
  | cons piece pieces ih =>
    simp only [foldlM_cons_ok, writeAll_eq_ok, ih, List.flatten_cons, List.length_append]
    constructor
    · rintro ⟨between, first, others⟩
      omega
    · intro whole
      exact ⟨left - piece.length, by omega, by omega⟩

/-- However the bytes are cut into pieces, they are accepted as a whole. -/
theorem Budget.toWriter_eq_ok {pieces : List (List UInt8)} {maxBytes : Nat} :
    toWriter pieces maxBytes = .ok () ↔ pieces.flatten.length ≤ maxBytes := by
  simp only [toWriter, bind_eq_ok, foldlM_writeAll_eq_ok, pure_eq_ok]
  constructor
  · rintro ⟨rest, whole, _⟩
    omega
  · intro fits
    exact ⟨maxBytes - pieces.flatten.length, by omega, trivial⟩

end Wire

theorem validateWireValue_eq_ok {v : Json} :
    validateWireValue v = .ok () ↔ v.depth ≤ maxWireValueDepth := by
  rw [validateWireValue, Wire.visit_eq_ok, Wire.Fits]
  simp only [maxWireValueDepth]
  omega

theorem validateRuntimePayload_eq_ok {v : Json} {maxBytes : Nat} :
    validateRuntimePayload v maxBytes = .ok () ↔
      v.depth ≤ maxRuntimeValueDepth ∧ v.nodes ≤ maxBytes ∧ v.size ≤ maxBytes := by
  simp only [validateRuntimePayload, streamRuntimePayload, bind_eq_ok, Wire.visitRuntime_eq_ok,
    Wire.Budget.toWriter_eq_ok, List.flatten_singleton, length_utf8, Wire.Fits, maxRuntimeValueDepth,
    Json.size]
  constructor
  · rintro ⟨rest, ⟨fits, count⟩, small⟩
    omega
  · rintro ⟨fits, count, small⟩
    exact ⟨maxBytes - v.nodes, ⟨by omega, by omega⟩, by omega⟩

end Ledgence
