import Ledgence.Kit.Checked
import Ledgence.Kit.JsonText
import Ledgence.Kit.Utf8
import Ledgence.Worker.Wire

/-! The byte budget of a runtime payload as it is spent: piece by piece, while the serializer writes
them. Whatever the pieces are, it measures the encoded size, and every node costs an encoded byte. -/
open Kit Kit.Checked

namespace Ledgence
namespace Wire

theorem visitRuntimeItems_within {vs : List Json} {depth remaining : Nat}
    (each : ∀ v ∈ vs, ∀ remaining, v.nodes ≤ remaining →
      Ensures (· = overBudget) (visitRuntime v depth remaining) fun rest => v.nodes + rest = remaining)
    (enough : Json.itemsNodes vs ≤ remaining) :
    Ensures (· = overBudget) (visitRuntimeItems vs depth remaining) fun rest =>
      Json.itemsNodes vs + rest = remaining := by
  induction vs generalizing remaining with
  | nil => simp [visitRuntimeItems, Json.itemsNodes]
  | cons v vs ih =>
    rw [Json.itemsNodes] at enough
    rw [visitRuntimeItems, ensures_bind]
    refine (each v (by simp) remaining (by omega)).mono fun rest spent => ?_
    refine (ih (fun w mem => each w (by simp [mem])) (by omega)).mono fun left others => ?_
    rw [Json.itemsNodes]
    omega

theorem visitRuntime_within {v : Json} {depth remaining : Nat} (enough : v.nodes ≤ remaining) :
    Ensures (· = overBudget) (visitRuntime v depth remaining) fun rest => v.nodes + rest = remaining := by
  have kinds : runtimeTooDeep ≠ overBudget := by decide
  induction v using Json.induction generalizing depth remaining with
  | null | bool b | num n | str s =>
    simp only [Json.nodes] at enough
    simp only [visitRuntime, ensures_bind, ensures_refuse, ensures_pure, Json.nodes]
    omega
  | arr vs each =>
    rw [Json.nodes] at enough
    simp only [visitRuntime, ensures_bind, ensures_refuse, Json.nodes]
    refine ⟨fun empty => by omega, fun _ => ⟨fun _ => kinds, fun _ => ?_⟩⟩
    refine (visitRuntimeItems_within (fun v mem _ => each v mem) (by omega)).mono fun rest spent => ?_
    omega
  | obj ms each =>
    have values : ∀ v ∈ ms.map Prod.snd, ∀ remaining, v.nodes ≤ remaining →
        Ensures (· = overBudget) (visitRuntime v (depth + 1) remaining) fun rest =>
          v.nodes + rest = remaining := by
      simp only [List.forall_mem_map]
      exact fun m mem remaining => each m.1 m.2 mem
    rw [Json.nodes, Json.membersNodes_eq_items] at enough
    simp only [visitRuntime, ensures_bind, ensures_refuse, visitRuntimeMembers_eq_items, Json.nodes,
      Json.membersNodes_eq_items]
    refine ⟨fun empty => by omega, fun _ => ⟨fun _ => kinds, fun _ => ?_⟩⟩
    refine (visitRuntimeItems_within values (by omega)).mono fun rest spent => ?_
    omega

end Wire

/- Every node costs an encoded byte. -/

theorem size_pos (v : Json) : 0 < v.size := by
  obtain ⟨c, t, text, _⟩ := v.text_head
  have positive := c.utf8Size_pos
  rw [Json.size, text, Json.utf8Len_cons]
  omega

theorem itemsNodes_le {vs : List Json} (each : ∀ v ∈ vs, v.nodes ≤ v.size) :
    Json.itemsNodes vs ≤ (vs.map fun v => v.size + 1).sum := by
  induction vs with
  | nil => simp [Json.itemsNodes]
  | cons v vs ih =>
    have first := each v (by simp)
    have others := ih fun w mem => each w (by simp [mem])
    simp only [Json.itemsNodes, List.map_cons, List.sum_cons]
    omega

theorem membersNodes_le {ms : List (String × Json)} (each : ∀ k v, (k, v) ∈ ms → v.nodes ≤ v.size) :
    Json.membersNodes ms ≤ (ms.map Json.memberSize).sum := by
  induction ms with
  | nil => simp [Json.membersNodes]
  | cons m ms ih =>
    obtain ⟨k, v⟩ := m
    have first := each k v (by simp)
    have others := ih fun k w mem => each k w (by simp [mem])
    simp only [Json.membersNodes, List.map_cons, List.sum_cons, Json.memberSize] at others ⊢
    omega

theorem nodes_le_size (v : Json) : v.nodes ≤ v.size := by
  induction v using Json.induction with
  | null | bool b | num n | str s => exact size_pos _
  | arr vs each =>
    cases vs with
    | nil => exact size_pos _
    | cons v vs =>
      rw [Json.nodes, Json.size_arr]
      exact Nat.add_le_add_left (itemsNodes_le each) 1
  | obj ms each =>
    cases ms with
    | nil => exact size_pos _
    | cons m ms =>
      rw [Json.nodes, Json.size_obj]
      exact Nat.add_le_add_left (membersNodes_le each) 1

/-- The check accepts exactly the values of at most 96 nested containers and at most `maxBytes`
encoded bytes, whatever pieces the encoding is written in; the node budget only ever runs out on a
value whose encoding is over the byte budget. -/
theorem runtime_payload_measured (value : Json) (maxBytes : Nat) :
    (∀ pieces : List (List UInt8), pieces.flatten = utf8 value.text →
      (streamRuntimePayload pieces value maxBytes = .ok () ↔
        value.depth ≤ maxRuntimeValueDepth ∧ value.size ≤ maxBytes)) ∧
    (validateRuntimePayload value maxBytes = .ok () ↔
      value.depth ≤ maxRuntimeValueDepth ∧ value.size ≤ maxBytes) ∧
    (Wire.visitRuntime value 0 maxBytes = .error Wire.overBudget → maxBytes < value.size) ∧
    ∀ pieces : List (List UInt8),
      Wire.Budget.toWriter pieces maxBytes = .ok () ↔ pieces.flatten.length ≤ maxBytes := by
  have nodes := nodes_le_size value
  refine ⟨?_, ?_, ?_, fun pieces => Wire.Budget.toWriter_eq_ok⟩
  · intro pieces written
    simp only [streamRuntimePayload, bind_eq_ok, Wire.visitRuntime_eq_ok, Wire.Budget.toWriter_eq_ok,
      written, length_utf8, Wire.Fits, maxRuntimeValueDepth, Json.size] at nodes ⊢
    constructor
    · rintro ⟨rest, ⟨fits, count⟩, small⟩
      omega
    · rintro ⟨fits, small⟩
      exact ⟨maxBytes - value.nodes, ⟨by omega, by omega⟩, by omega⟩
  · rw [validateRuntimePayload_eq_ok]
    omega
  · intro failed
    by_contra fits
    have enough : value.nodes ≤ maxBytes := by omega
    exact (Wire.visitRuntime_within enough).error failed rfl

end Ledgence
