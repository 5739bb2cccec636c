import Ledgence.Sdk.Tasks

/-! Which replies acknowledge a commit, a confirmation or a fork, and what a replayed claim says. -/
open Kit Kit.Checked

namespace Ledgence.Sdk

def Only (names : List String) (v : Value) : Prop :=
  ∃ ms, v.json = .obj ms ∧ ∀ k, k ∈ ms.map Prod.fst ↔ k ∈ names

def Committed (reply : Value) : Prop :=
  reply.json = .obj [("committed", .bool true)]

structure Names (payload : Payload) (effect : Effect) (reply : Value) : Prop where
  workflow : reply.json.getStr "workflow_id" = some payload.workflowId
  activation : reply.json.getStr "activation_id" = some payload.activationId
  approval : reply.json.getStr "approval_key" = some effect.approvalKey

/-- A confirmation names what it confirms: the effect, its claim and the observation. -/
structure Confirmation (payload : Payload) (effect : Effect) (key claimId observationId : String)
    (reply : Value) : Prop where
  only : Only ["committed", "workflow_id", "activation_id", "approval_key", "key", "claim_id",
    "observation_id", "recorded_at", "recorded_revision", "already_accepted"] reply
  committed : reply.json.getBool "committed" = some true
  names : Names payload effect reply
  key : reply.json.getStr "key" = some key
  claim : reply.json.getStr "claim_id" = some claimId
  observation : reply.json.getStr "observation_id" = some observationId
  recordedAt : ∃ n, reply.json.getNat "recorded_at" = some n ∧ n ≤ maxTimestamp
  recordedRevision : ∃ n, reply.json.getNat "recorded_revision" = some n ∧ 1 ≤ n ∧ n ≤ integerTop
  alreadyAccepted : (reply.json.getBool "already_accepted").isSome = true

structure Forked (key : String) (keys : List String) (reply : Value) : Prop where
  only : Only ["committed", "key", "branch_keys"] reply
  committed : reply.json.getBool "committed" = some true
  key : reply.json.getStr "key" = some key
  branches : ∃ vs, reply.json.get "branch_keys" = some (.arr vs) ∧ vs.map Json.asStr = keys.map some

/-- The answer to a claim of an effect whose record was accepted before. -/
structure Replay (payload : Payload) (effect : Effect) (key : String) (record : Record)
    (reply : Value) : Prop where
  kind : reply.json.getStr "kind" = some "replay"
  names : Names payload effect reply
  key : record.key = key
  callable : record.callable = effect.action.name
  saved : ∃ saved, freeze (field reply "record") maxRecordBytes 96 true = .ok saved ∧
    saved.json.getStr "key" = some record.key ∧ field saved "output" = some record.output

/-- What acknowledges the record of the task `p`, which it sent with these identities. -/
def Acknowledges (payload : Payload) (p : Pending) (claim : Option (String × String))
    (observationId : String) (reply : Value) : Prop :=
  match p.effect, claim with
  | some effect, some (claimId, _) =>
    if payload.effectEvidenceV2 = true then
      Confirmation payload effect p.key claimId observationId reply
    else Committed reply
  | _, _ => Committed reply

section Checks
variable {payload : Payload} {library : Library} {effect : Effect} {reply : Value} {record : Record}
  {key claimId observationId k name : String} {keys names : List String} {minimum maximum : Nat}

theorem checkFields_eq_ok : checkFields names [] reply = .ok () ↔ Only names reply := by
  rw [checkFields, Only]
  cases reply.json with
  | obj ms =>
    simp only [List.append_nil, refuse_eq_ok, not_not, List.all_eq_true, List.contains_iff_mem,
      Json.obj.injEq, exists_eq_left']
    exact ⟨fun h k => ⟨h.2 k, h.1 k⟩, fun h => ⟨fun k => (h k).mpr, fun k => (h k).mp⟩⟩
  | null | bool b | num n | str s | arr vs => simp

theorem checkCommitted_eq_ok : checkCommitted reply = .ok () ↔ Committed reply := by
  rw [checkCommitted, Committed]
  split
  · simp [*]
  · rename_i other
    simpa using other

theorem checkIdentity_eq_ok : checkIdentity payload effect reply = .ok () ↔ Names payload effect reply := by
  simp only [checkIdentity, refuse_eq_ok, not_or, not_not]
  exact ⟨fun h => ⟨h.1, h.2.1, h.2.2⟩, fun h => ⟨h.workflow, h.activation, h.approval⟩⟩

theorem readInteger_isOk : (∃ n, readInteger reply k name minimum maximum = .ok n) ↔
    ∃ n, reply.json.getNat k = some n ∧ minimum ≤ n ∧ n ≤ maximum := by
  simp only [readInteger, bind_eq_ok, okOr_eq_ok, refuse_eq_ok, not_not, exists_unit, pure_eq_ok]
  constructor
  · rintro ⟨_, n, read, within, _⟩
    exact ⟨n, read, within⟩
  · rintro ⟨n, read, within⟩
    exact ⟨n, n, read, within, rfl⟩

theorem checkConfirmed_eq_ok : checkConfirmed payload effect key claimId observationId reply = .ok () ↔
    Confirmation payload effect key claimId observationId reply := by
  simp only [checkConfirmed, bind_eq_ok, exists_unit, checkFields_eq_ok, checkIdentity_eq_ok,
    refuse_eq_ok, not_or, not_not, ← Option.isSome_iff_ne_none]
  constructor
  · rintro ⟨only, names, n, recordedAt, m, revision, committed, key, claim, observation, accepted⟩
    obtain ⟨at', read, -, late⟩ := readInteger_isOk.mp ⟨n, recordedAt⟩
    exact ⟨only, committed, names, key, claim, observation, ⟨at', read, late⟩,
      readInteger_isOk.mp ⟨m, revision⟩, accepted⟩
  · intro h
    obtain ⟨at', read, late⟩ := h.recordedAt
    obtain ⟨n, recordedAt⟩ := readInteger_isOk.mpr ⟨at', read, Nat.zero_le _, late⟩
    obtain ⟨m, revision⟩ := readInteger_isOk.mpr h.recordedRevision
    exact ⟨h.only, h.names, n, recordedAt, m, revision, h.committed, h.key, h.claim, h.observation,
      h.alreadyAccepted⟩

theorem checkForked_eq_ok : checkForked key keys reply = .ok () ↔ Forked key keys reply := by
  simp only [checkForked, bind_eq_ok, exists_unit, ok_of_mapError, checkFields_eq_ok, refuse_eq_ok,
    not_or, not_not]
  constructor
  · rintro ⟨only, ⟨committed, named⟩, branches⟩
    split at branches
    · rename_i vs found
      exact ⟨only, committed, named, vs, found, by simpa using branches⟩
    · cases branches
  · intro h
    obtain ⟨vs, found, same⟩ := h.branches
    refine ⟨h.only, ⟨h.committed, h.key⟩, ?_⟩
    simp [found, same]

theorem commitReply_eq_ok {p : Pending} {claim : Option (String × String)} {reply : Except Exc Value} :
    World.commitReply payload p claim observationId reply = .ok () ↔
      ∃ v, reply = .ok v ∧ Acknowledges payload p claim observationId v := by
  simp only [World.commitReply, bind_eq_ok, ok_of_mapError]
  refine exists_congr fun v => and_congr_right fun _ => ?_
  unfold Acknowledges
  cases p.effect with
  | none => exact checkCommitted_eq_ok
  | some effect =>
    cases claim with
    | none => exact checkCommitted_eq_ok
    | some sent =>
      by_cases evidenced : payload.effectEvidenceV2 = true
      · simp only [if_pos evidenced]
        exact checkConfirmed_eq_ok
      · simp only [if_neg evidenced]
        exact checkCommitted_eq_ok

theorem forkReply_eq_ok {f : Fork} {reply : Except Exc Value} :
    World.forkReply f reply = .ok () ↔ ∃ v, reply = .ok v ∧ Forked f.key f.keys v := by
  simp only [World.forkReply, bind_eq_ok, ok_of_mapError, checkForked_eq_ok]

end Checks
end Ledgence.Sdk
