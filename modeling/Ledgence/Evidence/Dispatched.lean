import Ledgence.Evidence.Replays

/-! The permission to send an approved effect: what it rests on, and that a run gives it once. -/
open Kit Kit.Checked

namespace Ledgence

def EvidenceCommand.effectClaim : EvidenceCommand → Option ApprovedEffectClaimCommand
  | .claim command => some command
  | .claimV2 _ command => some command.legacy
  | .confirm _ | .confirmV2 .. | .observe .. | .resolve .. | .backfill .. | .recordLocal _
  | .collect => none

/-- The number of the clock reading that is checked last, before the transaction of a claim ends. -/
def EvidenceCommand.lastReading : EvidenceCommand → Nat
  | .claim _ => 2
  | .claimV2 .. => 1
  | .confirm _ | .confirmV2 .. | .observe .. | .resolve .. | .backfill .. | .recordLocal _
  | .collect => 0

def EvidenceAnswer.permits : EvidenceAnswer → Bool
  | .claimed receipt => receipt.disposition == .dispatch
  | .claimedV2 (.dispatch _) => true
  | .claimedV2 (.lookupOnly _) | .claimedV2 (.replay ..) | .confirmed _ | .confirmedV2 _
  | .observed _ | .resolved _ | .done => false

namespace EvidenceTables
variable {server : EvidenceServer} {serde : Serde} {sha256 : List Char → String}
  {call : EvidenceCall} {t₀ t t' : EvidenceTables}

def Spent (t : EvidenceTables) : Prop :=
  ∀ a, t.approval = some a → a.effectDispatchClaimed = true

/-- What a permission to send rests on, and what it leaves. -/
structure Permitted (sha256 : List Char → String) (call : EvidenceCall) (last : Nat)
    (t : EvidenceTables) (command : ApprovedEffectClaimCommand) (t' : EvidenceTables) : Prop where
  approval : ∃ a, t.approval = some a ∧
    Resumed a command.owner command.workflowId command.approvalKey ∧
    a.effectDispatchClaimed = false ∧ a.snapshot.action.sameAs command.action = .ok true
  journal : t.findLocal command.owner.taskId (approvedEffectStepKey sha256 command.approvalKey) =
    none
  live : call.checkLive (call.clock 0) = .ok () ∧ call.checkLive (call.clock last) = .ok ()
  spent : t'.Spent

/- One transaction. -/

theorem claimApprovedEffectOnce_live {command : ApprovedEffectClaimCommand}
    {receipt : ApprovedEffectClaimReceipt}
    (h : t.claimApprovedEffectOnce server serde sha256 call command = .ok (receipt, t')) :
    call.checkLive (call.clock 0) = .ok () ∧ call.checkLive (call.clock 2) = .ok () := by
  simp only [claimApprovedEffectOnce, bind_eq_ok, exists_unit] at h
  obtain ⟨-, -, _, -, first, _, -, _, -, -, _, -, _, -, _, -, _, -, last, -⟩ := h
  exact ⟨first, last⟩

theorem claimEffectV2Once_live {principal : VerifiedPrincipal} {command : EffectClaimV2Command}
    {receipt : EffectClaimV2Receipt}
    (h : t.claimEffectV2Once server serde sha256 call principal command = .ok (receipt, t')) :
    call.checkLive (call.clock 0) = .ok () ∧ call.checkLive (call.clock 1) = .ok () := by
  simp only [claimEffectV2Once, bind_eq_ok, exists_unit, pure_eq_ok, Prod.mk.injEq] at h
  obtain ⟨-, -, _, -, _, -, first, _, -, _, -, -, _, -, _, -, -, _, -, _, -, last, -⟩ := h
  exact ⟨first, last⟩

theorem acceptClaim_dispatch {evidence : Evidence} {worker : EffectWorkerIdentity}
    {command : EffectClaimV2Command} {claim : EffectClaimBinding}
    (h : t.acceptClaim sha256 call evidence worker command = .ok (.dispatch claim, t')) :
    evidence.claimed = false := by
  simp only [acceptClaim, bind_eq_ok, exists_unit, pure_eq_ok, Prod.mk.injEq] at h
  obtain ⟨_, -, _, -, _, -, _, -, -, _, -, receipt, -⟩ := h
  by_contra claimed
  simp [claimed] at receipt

theorem claimEffectV2Once_unclaimed {principal : VerifiedPrincipal}
    {command : EffectClaimV2Command} {claim : EffectClaimBinding} {a : ApprovalRecord}
    (found : t.approval = some a)
    (h : t.claimEffectV2Once server serde sha256 call principal command =
      .ok (.dispatch claim, t')) : a.effectDispatchClaimed = false := by
  simp only [claimEffectV2Once, bind_eq_ok, exists_unit, pure_eq_ok, Prod.mk.injEq,
    loadEvidence_eq_ok] at h
  obtain ⟨-, -, _, -, _, -, -, _, ⟨-, b, given, -, -, rfl⟩, _, -, -, _, -, old, -, -, ⟨answer, t₁⟩,
    answered, -, -, -, -, -, rfl, rfl⟩ := h
  obtain rfl := Option.some.inj (given.symm.trans found)
  unfold answerClaim at answered
  split at answered
  · simp [replayJournal, bind_eq_ok] at answered
  · simp [replayClaim] at answered
  · exact acceptClaim_dispatch answered

theorem unclaimed_unbound {a : ApprovalRecord} (bound : a.Bound sha256)
    (unclaimed : a.effectDispatchClaimed = false) :
    a.effectEvidenceState = none ∧ a.effectLookup = none := by
  have state : a.effectEvidenceState = none := by
    by_contra given
    have claimed := (bound.stepKey given).1
    rw [unclaimed] at claimed
    cases claimed
  exact ⟨state, (bound.unset state).2.1⟩

theorem permitted {command : ApprovedEffectClaimCommand} {a : ApprovalRecord} {last : Nat}
    (bound : a.Bound sha256) (found : t.approval = some a)
    (resumed : Resumed a command.owner command.workflowId command.approvalKey)
    (unclaimed : a.effectDispatchClaimed = false)
    (action : a.snapshot.action.sameAs command.action = .ok true)
    (journal : (t.evidenceOf sha256 a command.owner).prior.isSome = true →
      (t.evidenceOf sha256 a command.owner).confirmed = true)
    (granted : ∃ t₁, Granted sha256 t command (t.evidenceOf sha256 a command.owner) t₁ ∧
      t'.approval = t₁.approval ∧ t'.locals = t₁.locals)
    (live : call.checkLive (call.clock 0) = .ok () ∧ call.checkLive (call.clock last) = .ok ()) :
    Permitted sha256 call last t command t' := by
  obtain ⟨state, lookup⟩ := unclaimed_unbound bound unclaimed
  refine ⟨⟨a, found, resumed, unclaimed, action⟩, ?_, live, ?_⟩
  · by_contra given
    have confirmed := journal (by
      rw [evidenceOf, Option.isSome_map, Option.isSome_iff_ne_none, resumed.waitKey]
      exact given)
    simp [evidenceOf, Evidence.confirmed, state] at confirmed
  · obtain ⟨t₁, granted, approval, -⟩ := granted
    intro b given
    rw [approval] at given
    obtain ⟨-, held⟩ | ⟨_, c, -, after, -, -, opened, -, allowed⟩ := granted.approval
    · exact (held lookup).elim
    · obtain rfl := Option.some.inj (after.symm.trans given)
      exact (allowed.stepKey (by simp [opened])).1

theorem execute_permits {command : EvidenceCommand} {answer : EvidenceAnswer}
    (sound : t.Sound sha256) (bound : ∀ a, t.approval = some a → a.Bound sha256)
    (h : t.execute server serde sha256 call command = .ok (answer, t'))
    (permits : answer.permits = true) :
    ∃ claim, command.effectClaim = some claim ∧
      Permitted sha256 call command.lastReading t claim t' := by
  cases command with
  | claim command =>
    simp only [execute, bind_eq_ok, pure_eq_ok, Prod.mk.injEq] at h
    obtain ⟨⟨receipt, t₁⟩, done, rfl, rfl⟩ := h
    obtain ⟨a, claimed⟩ := claimApprovedEffectOnce_eq_ok sound done
    have live := claimApprovedEffectOnce_live done
    obtain ⟨grant, answer⟩ := claimed.answer
    have unclaimed : a.effectDispatchClaimed = false := by
      by_contra claimed
      simp [EvidenceAnswer.permits, answer, claimed] at permits
    exact ⟨command, rfl, permitted (bound a claimed.approval) claimed.approval claimed.resumed
      unclaimed claimed.action claimed.journal claimed.granted live⟩
  | claimV2 principal command =>
    simp only [execute, bind_eq_ok, pure_eq_ok, Prod.mk.injEq] at h
    obtain ⟨⟨receipt, t₁⟩, done, rfl, rfl⟩ := h
    cases receipt with
    | dispatch claim =>
      obtain ⟨worker, a, claimed⟩ := claimEffectV2Once_eq_ok sound done
      have unclaimed := claimEffectV2Once_unclaimed claimed.approval done
      have live := claimEffectV2Once_live done
      have granted : ∃ u, Granted sha256 t command.legacy (t.evidenceOf sha256 a command.owner) u ∧
          t₁.approval = u.approval ∧ t₁.locals = u.locals := by
        cases claimed.outcome with
        | journaled _ _ _ replay => simp [replayJournal, bind_eq_ok] at replay
        | known _ _ _ _ replay => simp [replayClaim] at replay
        | accepted _ _ accepted => exact accepted.approval
      exact ⟨command.legacy, rfl, permitted (bound a claimed.approval) claimed.approval
        claimed.resumed unclaimed claimed.action claimed.journal granted live⟩
    | lookupOnly => cases permits
    | replay => cases permits
  | confirm | confirmV2 | observe | resolve | backfill | recordLocal =>
    simp only [execute, bind_eq_ok, pure_eq_ok, Prod.mk.injEq] at h
    obtain ⟨_, -, rfl, -⟩ := h
    cases permits
  | collect =>
    obtain ⟨rfl, -⟩ : EvidenceAnswer.done = answer ∧ t.collect = t' := by simpa [execute] using h
    cases permits

/- Runs. -/

theorem ReviewStep.spent (step : ReviewStep serde sha256 t t') (spent : t.Spent) : t'.Spent := by
  intro c given
  cases step with
  | kept approval => exact spent c (approval ▸ given)
  | granted a b _ after _ _ _ opened allowed =>
    obtain rfl := Option.some.inj (after.symm.trans given)
    exact (allowed.stepKey (by simp [opened])).1
  | journaled a b l _ after _ _ state _ allowed =>
    obtain rfl := Option.some.inj (after.symm.trans given)
    exact (allowed.stepKey (by simp [state.2])).1
  | recorded l approval => exact spent c (approval ▸ given)
  | collected approval => simp [approval] at given

inductive Trace (serde : Serde) (sha256 : List Char → String) (t₀ : EvidenceTables) :
    List (EvidenceCommand × EvidenceAnswer) → EvidenceTables → Prop
  | start : Trace serde sha256 t₀ [] t₀
  | call {calls : List (EvidenceCommand × EvidenceAnswer)} {t t' : EvidenceTables}
      {server : EvidenceServer} {call : EvidenceCall} {command : EvidenceCommand}
      {answer : EvidenceAnswer} (before : Trace serde sha256 t₀ calls t)
      (done : t.execute server serde sha256 call command = .ok (answer, t')) :
      Trace serde sha256 t₀ (calls ++ [(command, answer)]) t'

def permissions (calls : List (EvidenceCommand × EvidenceAnswer)) : Nat :=
  calls.countP fun c => c.2.permits

variable {calls : List (EvidenceCommand × EvidenceAnswer)}

theorem Trace.reaches (run : Trace serde sha256 t₀ calls t) : Reaches serde sha256 t₀ t := by
  induction run with
  | start => exact .refl
  | call before done ih => exact ih.tail ⟨_, _, _, _, done⟩

theorem Trace.spent (run : Trace serde sha256 t₀ calls t) (fresh : t₀.Fresh sha256) :
    permissions calls = 0 ∨ permissions calls = 1 ∧ t.Spent := by
  induction run with
  | start => exact .inl rfl
  | @call calls t t' server call command answer before done ih =>
    have sound := before.reaches.sound fresh.sound
    have transition := execute_eq_ok sound done
    rw [permissions, List.countP_append, List.countP_singleton, ← permissions]
    by_cases permits : answer.permits = true
    · obtain ⟨claim, -, permitted⟩ :=
        execute_permits sound (before.reaches.bound fresh) done permits
      obtain ⟨a, found, -, unclaimed, -⟩ := permitted.approval
      cases ih with
      | inl none => exact .inr ⟨by simp [none, permits], permitted.spent⟩
      | inr once =>
        have claimed := once.2 a found
        rw [unclaimed] at claimed
        cases claimed
    · simp only [permits, Bool.false_eq_true, ↓reduceIte, Nat.add_zero]
      exact ih.imp id fun once => ⟨once.1, transition.review.spent once.2⟩

/-- Whatever the order of the calls, one answer at most lets its receiver send. It goes to a live
attempt of the activation that resumed from the approval, for the approved action, before any
other permission and any journal. -/
theorem effect_dispatched_once (fresh : t₀.Fresh sha256) (run : Trace serde sha256 t₀ calls t) :
    permissions calls ≤ 1 ∧ ∀ server call command answer t',
      t.execute server serde sha256 call command = .ok (answer, t') → answer.permits = true →
      permissions calls = 0 ∧
        ∃ claim, command.effectClaim = some claim ∧
          Permitted sha256 call command.lastReading t claim t' := by
  have state := run.spent fresh
  refine ⟨by omega, fun server call command answer t' done permits => ?_⟩
  have sound := run.reaches.sound fresh.sound
  obtain ⟨claim, asked, permitted⟩ :=
    execute_permits sound (run.reaches.bound fresh) done permits
  refine ⟨?_, claim, asked, permitted⟩
  obtain ⟨a, found, -, unclaimed, -⟩ := permitted.approval
  cases state with
  | inl none => exact none
  | inr once =>
    have claimed := once.2 a found
    rw [unclaimed] at claimed
    cases claimed

/-- The first claim lets its receiver send. -/
theorem effect_dispatched_once_sample : ∃ calls t,
    Trace sampleSerde sampleDigest sampleTables calls t ∧ 0 < permissions calls ∧
      permissions calls ≤ 1 := by
  obtain ⟨_, t, _, _, claimed, -⟩ := sample_reported
  have run := Trace.call .start claimed
  exact ⟨_, t, run, by simp [permissions, EvidenceAnswer.permits],
    (effect_dispatched_once sampleTables_fresh run).1⟩

end EvidenceTables
end Ledgence
