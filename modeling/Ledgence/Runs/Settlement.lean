import Ledgence.Runs.Replays
import Ledgence.Core.Readable

/-! A report is accepted once, while its attempt is live, and replays exactly ever after. -/
open Kit Kit.Checked

namespace Ledgence

section Alike
variable {task : TaskSnapshot} {attempt : AttemptSnapshot} {c d : SettleCommand}

theorem validateTaskOutput_same {output output' : Value} {activation : Bool}
    (same : Json.Same output.json output'.json)
    (h : validateTaskOutput output.json activation = .ok ()) :
    validateTaskOutput output'.json activation = .ok () := by
  have depth := same.depth_eq output.unique
  have nodes := same.nodes_eq output.unique
  have size := same.size_eq output.unique
  unfold validateTaskOutput at h ⊢
  split at h
  · rename_i isActivation
    rw [if_pos isActivation, lift_eq_ok, validateRuntimePayload_eq_ok, ← depth, ← nodes, ← size]
    exact validateRuntimePayload_eq_ok.mp (lift_eq_ok.mp h)
  · rename_i notActivation
    rw [if_neg notActivation, lift_eq_ok, validateWireValue_eq_ok, ← depth]
    exact validateWireValue_eq_ok.mp (lift_eq_ok.mp h)

theorem AttemptReport.Alike.output {r r' : AttemptReport} (alike : r.Alike r')
    (h : validateReportOutput r = .ok ()) : validateReportOutput r' = .ok () := by
  match r, r' with
  | .failed _, .failed _ => rfl
  | .completed _, .failed _ => exact alike.elim
  | .failed _, .completed _ => exact alike.elim
  | .completed a, .completed b =>
    obtain ⟨same, outcomes⟩ := alike
    have context : b.context = a.context := by rw [same]
    cases ha : a.outcome with
    | failure kind message =>
      cases hb : b.outcome with
      | failure kind' message' => simp [validateReportOutput, hb]
      | success output => simp [ha, hb, ProgramOutcome.Alike] at outcomes
    | success output =>
      cases hb : b.outcome with
      | failure kind message => simp [ha, hb, ProgramOutcome.Alike] at outcomes
      | success output' =>
        simp only [ha, hb, ProgramOutcome.Alike] at outcomes
        simp only [validateReportOutput, ha] at h
        simp only [validateReportOutput, hb, context]
        exact validateTaskOutput_same outcomes h

/-- Reports that differ in the member order of an output only agree in everything else. -/
theorem AttemptReport.Alike.rest {r r' : AttemptReport} (alike : r.Alike r') :
    r'.context = r.context ∧ r'.claimsExecution = r.claimsExecution ∧
      ∀ failure : ProviderProbeFailureKind,
        failure.validateSettlement r' = failure.validateSettlement r := by
  match r, r' with
  | .failed a, .failed b =>
    obtain rfl : a = b := alike
    exact ⟨rfl, rfl, fun _ => rfl⟩
  | .completed _, .failed _ => exact alike.elim
  | .failed _, .completed _ => exact alike.elim
  | .completed a, .completed b =>
    obtain ⟨same, -⟩ := alike
    refine ⟨?_, rfl, fun _ => rfl⟩
    show b.context = a.context
    rw [same]

theorem Acceptable.same (h : Acceptable task attempt c) (same : Json.Same c.toJson d.toJson) :
    Acceptable task attempt d := by
  obtain ⟨rest, report⟩ := SettleCommand.faithful.related c d same
  obtain ⟨context, claims, probe⟩ := report.rest
  have owner : d.owner = c.owner := by rw [rest]
  have operationId : d.operationId = c.operationId := by rw [rest]
  have trace : d.processingTrace = c.processingTrace := by rw [rest]
  have failure : d.providerProbeFailure = c.providerProbeFailure := by rw [rest]
  have bytes : canonicalJsonBytes d.toJson = canonicalJsonBytes c.toJson :=
    ((SettleCommand.canonical_eq_iff c d).mpr same).symm
  refine ⟨h.owner.trans owner.symm, ?_, fun governed unstarted => ?_, ?_⟩
  · have valid := h.valid
    simp only [validateReport, bind_eq_ok, exists_unit] at valid ⊢
    obtain ⟨operation, traced, output, identity, size⟩ := valid
    rw [operationId, trace, context, bytes]
    exact ⟨operation, traced, report.output output, identity, size⟩
  · rw [claims]
    exact h.governed governed unstarted
  · have valid := h.probe
    simp only [validateProbeFailure, failure, probe] at valid ⊢
    exact valid

end Alike

section Settle
variable {task : TaskSnapshot} {attempt : AttemptSnapshot} {c d : SettleCommand} {now : Nat}

/-- The first report of an attempt is accepted only while the attempt is live. -/
theorem settle_first {t : Transition SettleReply} (unsettled : attempt.settlement = none)
    (h : settle task attempt c now = .ok t) :
    Acceptable task attempt c ∧ live task attempt now ∧
      t.reply.receipt = settlementReceipt task c now ∧
      ∃ next, t.attempt = some next ∧
        next.settlement = some ⟨c, settlementReceipt task c now⟩ ∧
        (c.report.claimsExecution = true → next.executionMayHaveStarted = true) := by
  simp only [settle, bind_eq_ok, refuse_eq_ok, exists_unit, checkOwner_eq_ok, unsettled,
    not_not] at h
  obtain ⟨⟨-, owner⟩, valid, governed, probe, isLive, h⟩ := h
  have acceptable : Acceptable task attempt c := by
    refine ⟨owner, valid, fun isGoverned unstarted => ?_, probe⟩
    by_contra claims
    exact governed ⟨isGoverned, unstarted, by simpa using claims⟩
  refine ⟨acceptable, isLive, ?_⟩
  split at h
  · simp only [bind_eq_ok, pure_eq_ok, Prod.exists, finish_eq_ok] at h
    obtain ⟨_, _, _, ⟨retry, -, rfl, rfl, rfl⟩, rfl⟩ := h
    exact ⟨rfl, _, rfl, rfl, fun claims => by simp [finishedAttempt, reportedAttempt, claims]⟩
  · obtain rfl := by simpa using h
    exact ⟨rfl, _, rfl, rfl, fun claims => by simp [reportedAttempt, claims]⟩

/-- A later report of the attempt succeeds exactly when it is the accepted one again. -/
theorem settle_again {receipt : SettlementReceipt} {t : Transition SettleReply}
    (valid : validateAttempt task attempt = .ok ()) (acceptable : Acceptable task attempt c)
    (settled : attempt.settlement = some ⟨c, receipt⟩) :
    settle task attempt d now = .ok t ↔ Json.Same c.toJson d.toJson ∧
      t = unchanged task (some attempt) ⟨receipt, true, task.state⟩ := by
  simp only [settle, bind_eq_ok, refuse_eq_ok, exists_unit, checkOwner_eq_ok, settled, not_not,
    pure_eq_ok, SettleCommand.canonical_eq_iff, @eq_comm _ _ t]
  constructor
  · rintro ⟨-, -, -, -, same, result⟩
    exact ⟨same, result⟩
  · rintro ⟨same, result⟩
    have again := acceptable.same same
    refine ⟨⟨valid, again.owner⟩, again.valid, ?_, again.probe, same, result⟩
    rintro ⟨governed, unstarted, claims⟩
    simp [again.governed governed unstarted] at claims

end Settle

namespace TaskRun
variable {s u : TaskRun} {a b : AttemptSnapshot} {c : SettleCommand} {now : Nat}

theorem Later.acceptable (later : Later s a u b) (h : Acceptable s.task a c)
    (started : c.report.claimsExecution = true → b.executionMayHaveStarted = true) :
    Acceptable u.task b c := by
  obtain ⟨-, sameTask, same, -⟩ := later
  refine ⟨same.owner.trans h.owner, ?_, fun _ unstarted => ?_, ?_⟩
  · rw [validateReport_same same.event same.descriptor]
    exact h.valid
  · by_contra claims
    rw [Bool.not_eq_false] at claims
    simp [started claims] at unstarted
  · have probe := h.probe
    simp only [validateProbeFailure] at probe ⊢
    rw [sameTask.providerProbe]
    exact probe

theorem Sound.validateAttempt (sound : Sound s) (mem : a ∈ s.attempts) :
    validateAttempt s.task a = .ok () := by
  simp only [Ledgence.validateAttempt, bind_eq_ok, exists_unit, refuse_eq_ok, not_not]
  exact ⟨sound.lineage (List.ne_nil_of_mem mem), sound.belongs a mem⟩

theorem settle_reaches (reachable : Reachable s) (mem : a ∈ s.attempts)
    {t : Transition SettleReply} {next : AttemptSnapshot}
    (accepted : settle s.task a c now = .ok t) (written : t.attempt = some next) :
    Reachable (s.commit t.writes) ∧ Later s a (s.commit t.writes) next := by
  have found := Table.find_of_mem reachable.sound.unique mem
  have applied : s.apply ⟨.onAttempt a.id (.settle c), now⟩ = .ok (s.commit t.writes) :=
    apply_onAttempt.mpr ⟨a, found, t.writes, map_eq_ok.mpr ⟨t, accepted, rfl⟩, rfl⟩
  have runs : TaskRun.run s [⟨.onAttempt a.id (.settle c), now⟩] = .ok (s.commit t.writes) :=
    foldlM_cons_ok.mpr ⟨_, applied, rfl⟩
  have reached := reachable.run runs
  obtain ⟨b, later⟩ := reachable.later runs mem
  have moves : Move s.task a now _ _ _ := settle_moves accepted
  have same : (t.writes.attempt.getD a) = next := by simp [Transition.writes, written]
  have sameId : next.id = a.id := by
    rw [← same]
    simp [AttemptSnapshot.id, moves.same_attempt.owner]
  have stored : next ∈ (s.commit t.writes).attempts := by
    rw [reachable.sound.commit_eq mem, same]
    exact Table.mem_put_self mem sameId.symm
  obtain rfl := Table.eq_of_key reached.sound.unique stored later.1 (sameId.trans later.id_eq.symm)
  exact ⟨reached, later⟩

/-- A settlement of a stored attempt is accepted once, while the attempt is live; from then on, in
every later state of the task, it succeeds exactly for the accepted command up to the member order
of its JSON, with the original receipt and no change. -/
theorem settlement_exactly_once (reachable : Reachable s) (mem : a ∈ s.attempts)
    (unsettled : a.settlement = none) {t : Transition SettleReply}
    (accepted : settle s.task a c now = .ok t) :
    live s.task a now ∧ ∀ ops u, run (s.commit t.writes) ops = .ok u →
      ∃ b ∈ u.attempts, b.id = a.id ∧
        (∀ later, settle u.task b c later =
          .ok ⟨u.task, some b, [], ⟨t.reply.receipt, true, u.task.state⟩⟩) ∧
        (∀ d later, (∃ r, settle u.task b d later = .ok r) ↔ Json.Same c.toJson d.toJson) ∧
        (∀ d later, Json.Same c.toJson d.toJson →
          u.apply ⟨.onAttempt a.id (.settle d), later⟩ = .ok u) ∧
        (∀ d later, ¬ Json.Same c.toJson d.toJson →
          ∃ e, u.apply ⟨.onAttempt a.id (.settle d), later⟩ = .error e) := by
  obtain ⟨acceptable, isLive, receipt, next, written, settled, started⟩ :=
    settle_first unsettled accepted
  refine ⟨isLive, fun ops u runs => ?_⟩
  obtain ⟨reached, atOnce⟩ := settle_reaches reachable mem accepted written
  obtain ⟨b, after⟩ := reached.later runs atOnce.1
  have later := atOnce.trans after
  have sound := (reached.run runs).sound
  have kept := after.2.2.2.settled _ settled
  have again : ∀ {d at' r}, settle u.task b d at' = .ok r ↔ Json.Same c.toJson d.toJson ∧
      r = unchanged u.task (some b) ⟨t.reply.receipt, true, u.task.state⟩ := by
    intro d at' r
    rw [receipt]
    exact settle_again (sound.validateAttempt later.1)
      (later.acceptable acceptable fun claims => after.2.2.2.started (started claims)) kept
  have found : Table.find AttemptSnapshot.id a.id u.attempts = some b := by
    rw [← later.id_eq]
    exact Table.find_of_mem sound.unique later.1
  refine ⟨b, later.1, later.id_eq, ?_, ?_, ?_, ?_⟩
  · exact fun at' => again.mpr ⟨(SettleCommand.canonical_eq_iff c c).mp rfl, rfl⟩
  · intro d at'
    simp [again]
  · intro d at' same
    refine apply_onAttempt.mpr ⟨b, found, _, map_eq_ok.mpr ⟨_, again.mpr ⟨same, rfl⟩, rfl⟩, ?_⟩
    rw [sound.commit_eq later.1]
    simp [Transition.writes, unchanged, Table.put_self sound.unique later.1]
  · intro d at' differs
    cases applied : u.apply ⟨.onAttempt a.id (.settle d), at'⟩ with
    | error e => exact ⟨e, rfl⟩
    | ok v =>
      obtain ⟨b', found', w, decided, -⟩ := apply_onAttempt.mp applied
      obtain rfl := Option.some.inj (found.symm.trans found')
      obtain ⟨r, settles, -⟩ := map_eq_ok.mp decided
      exact absurd (again.mp settles).1 differs

def sampleSuccess (attempt : AttemptSnapshot) : SettleCommand where
  providerProbeFailure := none
  owner := attempt.lease.owner
  operationId := "report-1"
  report := .completed {
    observations := none
    context := ⟨.ofEvent attempt.event, attempt.descriptor.program, attempt.descriptor.digest⟩
    processId := 7
    reusedProcess := false
    outcome := .success ⟨.obj [("total", .nat 12), ("paid", .bool true)],
      by decide, trivial, trivial, trivial⟩
    elapsedMs := 40 }
  quiescence := .confirmed
  processingTrace := none

/-- The report of a first attempt, sent twice. -/
theorem settlement_sent_twice :
    ∃ s a t, sampleRun none [sampleClaim "1" 2000] = .ok s ∧ a ∈ s.attempts ∧
      settle s.task a (sampleSuccess a) 3000 = .ok t ∧
      ∃ b ∈ (s.commit t.writes).attempts, ∃ r,
        settle (s.commit t.writes).task b (sampleSuccess a) 9000 = .ok r ∧
          r.reply.receipt = t.reply.receipt ∧ r.reply.alreadyAccepted = true := by
  have ends : ((sampleRun none [sampleClaim "1" 2000]).map fun s => s.attempts.map fun a =>
      (a.settlement.isNone, (settle s.task a (sampleSuccess a) 3000).isOk)) =
        .ok [(true, true)] := by
    decide +kernel
  obtain ⟨s, runs, told⟩ := map_eq_ok.mp ends
  obtain ⟨a, rest, stored, first, -⟩ := List.map_eq_cons_iff.mp told
  simp only [Prod.mk.injEq, Option.isNone_iff_eq_none] at first
  obtain ⟨t, accepted⟩ := exists_of_isOk first.2
  have mem : a ∈ s.attempts := by simp [stored]
  have once := settlement_exactly_once (sampleRun_reachable runs) mem first.1 accepted
  obtain ⟨b, memb, -, again, -⟩ := once.2 [] _ rfl
  exact ⟨s, a, t, runs, mem, accepted, b, memb, _, again 9000, rfl, rfl⟩

end TaskRun
end Ledgence
