import Ledgence.Providers.Aggregated

/-! What every step on an operation keeps: the numbers of the entries, the stored facts, the
verdict of the reports, the limits of recovery and the candidate once there is one. -/
open Kit Kit.Checked

namespace Ledgence.Providers
namespace Operation
variable {w w' w'' : Operation}

def Settled (w : Operation) : Prop :=
  w.retained.operatorResolution.isSome = true ∨ w.summary.knowledge.terminal = true ∨
    w.reviewCandidate.isSome = true

structure Sound (w : Operation) : Prop where
  counted : w.retained.entryCount < w.retained.effectRevision
  numbered : Numbered w.reports
  bounded : ∀ a ∈ w.reports, a.sequence ≤ w.retained.entryCount ∧
    a.recordedRevision ≤ w.retained.effectRevision
  recorded : ∀ a ∈ w.reports, a.reference.validate = .ok ()
  listed : Listed w.facts fun _ => w.reports
  knows : Knows (firstFacts w.reports) w.reports w.verdict
  answered : w.summary.handling = .providerTerminal → firstFacts w.reports .terminal ≠ []
  unresolved : w.summary.handling = .unresolved → firstFacts w.reports .terminal = []
  digest : lift w.summary.bindingDigest.validate = .ok ()
  recovery : w.summary.reconciliation.validate = .ok ()
  dated : w.state.candidate.isSome = w.summary.candidateRevision.isSome
  past : ∀ n, w.summary.candidateRevision = some n → 0 < n ∧ n ≤ w.retained.effectRevision
  settled : w.state.candidate.isSome = true → Settled w

def Candidates (w w' : Operation) : Prop :=
  ∀ n, w.summary.candidateRevision = some n →
    ∃ m, w'.summary.candidateRevision = some m ∧ n ≤ m

structure Follows (w w' : Operation) : Prop where
  sound : Sound w'
  reports : w.reports <+: w'.reports
  candidates : Candidates w w'

theorem Candidates.refl (w : Operation) : Candidates w w :=
  fun n dated => ⟨n, dated, Nat.le_refl n⟩

theorem Candidates.of_eq (same : w'.summary.candidateRevision = w.summary.candidateRevision) :
    Candidates w w' :=
  fun n dated => ⟨n, same.trans dated, Nat.le_refl n⟩

theorem Follows.refl (sound : Sound w) : Follows w w :=
  ⟨sound, List.prefix_refl _, Candidates.refl w⟩

theorem Follows.trans (first : Follows w w') (second : Follows w' w'') : Follows w w'' := by
  refine ⟨second.sound, first.reports.trans second.reports, ?_⟩
  intro n dated
  obtain ⟨m, between, low⟩ := first.candidates n dated
  obtain ⟨k, last, high⟩ := second.candidates m between
  exact ⟨k, last, Nat.le_trans low high⟩

theorem Follows.of_same (sound : Sound w) (facts : w'.facts = w.facts)
    (entries : w'.entries = w.entries) (verdict : w'.verdict = w.verdict)
    (counted : w.retained.entryCount ≤ w'.retained.entryCount ∧
      w.retained.effectRevision ≤ w'.retained.effectRevision ∧
      w'.retained.entryCount < w'.retained.effectRevision)
    (handling : w'.summary.handling = w.summary.handling ∨ w'.summary.handling = .operatorClosed)
    (digest : w'.summary.bindingDigest = w.summary.bindingDigest)
    (recovery : w'.summary.reconciliation.validate = .ok ())
    (candidate : w'.state.candidate = w.state.candidate)
    (revision : w'.summary.candidateRevision = w.summary.candidateRevision)
    (settled : Settled w → Settled w') : Follows w w' := by
  have reports : w'.reports = w.reports := by rw [Operation.reports, entries, Operation.reports]
  have handled : w'.summary.handling ≠ .operatorClosed →
      w'.summary.handling = w.summary.handling := by
    intro other
    cases handling with
    | inl same => exact same
    | inr closed => exact absurd closed other
  refine ⟨?_, reports ▸ List.prefix_refl _, Candidates.of_eq revision⟩
  constructor
  · exact counted.2.2
  · exact reports ▸ sound.numbered
  · intro a mem
    have := sound.bounded a (reports ▸ mem)
    omega
  · exact reports ▸ sound.recorded
  · rw [facts, reports]
    exact sound.listed
  · rw [reports, verdict]
    exact sound.knows
  · intro terminal
    rw [reports]
    exact sound.answered ((handled (by simp [terminal])).symm.trans terminal)
  · intro open'
    rw [reports]
    exact sound.unresolved ((handled (by simp [open'])).symm.trans open')
  · rw [digest]
    exact sound.digest
  · exact recovery
  · rw [candidate, revision]
    exact sound.dated
  · intro n dated
    have := sound.past n (revision ▸ dated)
    omega
  · intro some
    exact settled (sound.settled (candidate ▸ some))

/- The primitive steps. -/

theorem next_ok {now : Nat} (accepted : w.next now = .ok w') :
    w' = { w with retained := { w.retained with
      entryCount := w.retained.entryCount + 1
      effectRevision := w.retained.effectRevision + 1
      updatedAt := max now w.retained.updatedAt } } := by
  simp only [next, bind_eq_ok, okOr_eq_ok, checkedAdd_eq_some, pure_eq_ok] at accepted
  obtain ⟨count, ⟨_, counts⟩, revision, ⟨_, revisions⟩, result⟩ := accepted
  rw [← result, ← counts, ← revisions]

theorem next_follows {now : Nat} (sound : Sound w) (accepted : w.next now = .ok w') :
    Follows w w' := by
  have counted := sound.counted
  rw [next_ok accepted]
  refine Follows.of_same sound rfl rfl rfl ?_ (Or.inl rfl) rfl sound.recovery rfl rfl id
  simp only
  omega

theorem append_ok {entry : EffectEvidenceEntry} (accepted : w.append entry = .ok w') :
    entry.validate w.retained.occurrence.scope = .ok () ∧
      entry.numbers.sequence = w.retained.entryCount ∧
      entry.numbers.recordedRevision = w.retained.effectRevision ∧
      w' = { w with entries := w.entries ++ [entry] } := by
  simp only [append, bind_eq_ok, refuse_eq_ok, exists_unit, pure_eq_ok, not_or, not_not]
    at accepted
  obtain ⟨valid, numbers, result⟩ := accepted
  exact ⟨valid, numbers.1, numbers.2, result.symm⟩

theorem append_follows {entry : EffectEvidenceEntry} (sound : Sound w)
    (other : entry.report? = none) (accepted : w.append entry = .ok w') : Follows w w' := by
  obtain ⟨_, _, _, result⟩ := append_ok accepted
  have reports : w'.reports = w.reports := by
    rw [result]
    simp [Operation.reports, other]
  rw [result] at reports ⊢
  refine ⟨?_, reports ▸ List.prefix_refl _, Candidates.refl w⟩
  constructor
  · exact sound.counted
  · exact reports ▸ sound.numbered
  · exact reports ▸ sound.bounded
  · exact reports ▸ sound.recorded
  · rw [reports]
    exact sound.listed
  · rw [reports]
    exact sound.knows
  · rw [reports]
    exact sound.answered
  · rw [reports]
    exact sound.unresolved
  · exact sound.digest
  · exact sound.recovery
  · exact sound.dated
  · exact sound.past
  · exact sound.settled

/- Recovery. -/

theorem reconciliation_valid {q : ProviderReconciliationSummary} :
    q.validate = .ok () ↔ ValidText 128 q.queue ∧ q.firstDueAt ≤ maxTimestamp ∧
      q.deadlineAt ≤ maxTimestamp ∧
      (∀ id ∈ [q.activeProbeId, q.activeTaskId].reduceOption, ValidText 128 id) ∧
      (∀ due, q.nextDueAt = some due → due ≤ maxTimestamp ∧ due ≤ q.deadlineAt) ∧
      (1 ≤ q.maxChecks ∧ q.maxChecks ≤ 256) ∧ q.checksUsed ≤ q.maxChecks ∧
      q.generation = q.checksUsed ∧ q.activeProbeId.isSome = q.activeTaskId.isSome ∧
      (q.activeTaskId.isSome = true → q.generation ≠ 0) ∧ q.firstDueAt < q.deadlineAt ∧
      (q.stoppedReason.isSome = true → q.nextDueAt = none) := by
  simp only [ProviderReconciliationSummary.validate, approvalTimestamp, bind_eq_ok,
    validateText_eq_ok, refuse_eq_ok, exists_unit, List.forM_eq_forM, forM_eq_ok, ifSome_eq_ok, not_or,
    not_and, not_lt, not_le, not_not, ne_eq, Bool.not_eq_true, Option.isSome_eq_false_iff,
    Option.isNone_iff_eq_none]
  constructor
  · rintro ⟨queue, first, deadline, ids, due, checks, used, generation, active, probe, order, stop⟩
    exact ⟨queue, first, deadline, ids, due, by omega, used, generation, active, probe, order, stop⟩
  · rintro ⟨queue, first, deadline, ids, due, checks, used, generation, active, probe, order, stop⟩
    exact ⟨queue, first, deadline, ids, due, by omega, used, generation, active, probe, order, stop⟩

theorem stopRecovery_follows {reason : ProviderRecoveryStopReason} (sound : Sound w)
    (settled : Settled w → Settled (w.stopRecovery reason)) :
    Follows w (w.stopRecovery reason) := by
  refine Follows.of_same sound rfl rfl rfl ?_ (Or.inl rfl) rfl ?_ rfl rfl settled
  · exact ⟨Nat.le_refl _, Nat.le_refl _, sound.counted⟩
  · obtain ⟨queue, first, deadline, ids, due, checks, used, generation, active, probe, order, stop⟩ :=
      reconciliation_valid.mp sound.recovery
    exact reconciliation_valid.mpr ⟨queue, first, deadline, ids, by simp [stopRecovery, setSummary,
      summary], checks, used, generation, active, probe, order, fun _ => rfl⟩

/- The candidate. -/

/-- The evidence itself gives a candidate to an operation that an operator or an answer ended. -/
theorem evidenceCandidate_isSome {candidate : Option ProviderSelection} (sound : Sound w)
    (accepted : w.evidenceCandidate = .ok candidate) :
    candidate.isSome = true ↔
      w.retained.operatorResolution.isSome = true ∨ w.summary.knowledge.terminal = true := by
  rw [evidenceCandidate] at accepted
  cases operator : w.retained.operatorResolution with
  | some resolution =>
    simp only [operator, bind_eq_ok, pure_eq_ok] at accepted
    obtain ⟨_, _, result⟩ := accepted
    simp [← result]
  | none =>
    simp only [operator] at accepted
    cases sound.knows.current with
    | inl disputed =>
      have disputed : w.summary.knowledge = .disputed := disputed
      simp only [disputed, if_true, bind_eq_ok, pure_eq_ok] at accepted
      obtain ⟨_, _, result⟩ := accepted
      simp [← result, disputed, ProviderKnowledgeKind.terminal]
    | inr known =>
      cases known with
      | inl picked =>
        obtain ⟨a, knowledge, _, current⟩ := picked
        have knowledge : w.summary.knowledge = a.report.knowledge.kind := knowledge
        have current : w.state.currentReport = some a := current
        rw [if_neg (by rw [knowledge]; exact kind_ne_disputed _)] at accepted
        simp only [current, bind_eq_ok, pure_eq_ok] at accepted
        obtain ⟨_, _, result⟩ := accepted
        rw [← result, knowledge]
        cases a.report.knowledge <;>
          simp [ProviderKnowledge.kind, ProviderKnowledgeKind.terminal]
      | inr empty =>
        obtain ⟨knowledge, _, current⟩ := empty
        have knowledge : w.summary.knowledge = .unknown := knowledge
        have current : w.state.currentReport = none := current
        simp only [knowledge, current, reduceCtorEq, if_false, Except.ok.injEq] at accepted
        simp [← accepted, knowledge, ProviderKnowledgeKind.terminal]

theorem settled_evidenceStop {reason : ProviderRecoveryStopReason}
    (stop : w.evidenceStop = some reason) : Settled (w.stopRecovery reason) := by
  rw [evidenceStop] at stop
  by_cases operator : w.retained.operatorResolution.isSome = true
  · exact Or.inl operator
  · rw [if_neg operator] at stop
    cases knowledge : w.summary.knowledge with
    | succeeded | failed | cancelled | disputed =>
      refine Or.inr (Or.inl ?_)
      rw [stopRecovery, setSummary, summary, knowledge]
      rfl
    | requiresAction =>
      simp only [knowledge, Option.some.injEq] at stop
      refine Or.inr (Or.inr ?_)
      rw [← stop]
      rfl
    | unknown | pending => simp [knowledge] at stop

theorem selectCandidate_follows {candidate : Option ProviderSelection} (sound : Sound w)
    (settled : candidate.isSome = true ↔ Settled w) : Follows w (w.selectCandidate candidate) := by
  simp only [selectCandidate]
  split
  next changed =>
    refine ⟨?_, List.prefix_refl _, ?_⟩
    · constructor
      · exact sound.counted
      · exact sound.numbered
      · exact sound.bounded
      · exact sound.recorded
      · exact sound.listed
      · exact sound.knows
      · exact sound.answered
      · exact sound.unresolved
      · exact sound.digest
      · exact sound.recovery
      · simp [setSummary, summary]
      · intro n dated
        have counted := sound.counted
        have same : w.retained.effectRevision = n := by
          simp only [setSummary, summary, Option.map_eq_some_iff] at dated
          exact dated.choose_spec.2
        simp only [setSummary]
        omega
      · exact settled.mp
    · intro n dated
      have some : w.state.candidate.isSome = true := by rw [sound.dated, dated, Option.isSome_some]
      obtain ⟨selection, chosen⟩ := Option.isSome_iff_exists.mp (settled.mpr (sound.settled some))
      exact ⟨w.retained.effectRevision, by simp [setSummary, summary, chosen],
        (sound.past n dated).2⟩
  next => exact Follows.refl sound

theorem refreshCandidate_follows (sound : Sound w) (accepted : w.refreshCandidate = .ok w') :
    Follows w w' := by
  simp only [refreshCandidate, bind_eq_ok, pure_eq_ok] at accepted
  obtain ⟨candidate, evidence, result⟩ := accepted
  have some := evidenceCandidate_isSome sound evidence
  rw [← result]
  cases stop : w.evidenceStop with
  | none =>
    refine selectCandidate_follows sound ?_
    rw [Option.isSome_or, Bool.or_eq_true, some, Settled, or_assoc]
  | some reason =>
    have stopped : Follows w (w.stopRecovery reason) :=
      stopRecovery_follows sound fun _ => settled_evidenceStop stop
    refine stopped.trans (selectCandidate_follows stopped.sound ?_)
    rw [Option.isSome_or, Bool.or_eq_true, some, Settled, or_assoc]
    rfl

end Operation
end Ledgence.Providers

/-! Every action on a sound operation leaves a sound one, and takes nothing back. -/

namespace Ledgence.Providers
namespace Operation
variable {w w' : Operation}

/- Stops. -/

theorem stop_follows {reason : ProviderRecoveryStopReason} {now : Nat} (sound : Sound w)
    (accepted : w.stop reason now = .ok w') : Follows w w' := by
  rw [stop] at accepted
  split at accepted
  next =>
    cases accepted
    exact Follows.refl sound
  next running =>
    simp only [bind_eq_ok] at accepted
    obtain ⟨a, numbers, b, refreshed, appended⟩ := accepted
    have running : w.summary.reconciliation.stoppedReason = none := by simpa using running
    have stopped : Follows w (w.stopRecovery reason) := by
      refine stopRecovery_follows sound fun settled => ?_
      cases settled with
      | inl operator => exact Or.inl operator
      | inr settled =>
        cases settled with
        | inl terminal => exact Or.inr (Or.inl terminal)
        | inr review => simp [reviewCandidate, running] at review
    have numbered := next_follows stopped.sound numbers
    have candidate := refreshCandidate_follows numbered.sound refreshed
    have logged := append_follows candidate.sound rfl appended
    exact stopped.trans (numbered.trans (candidate.trans logged))

/- Probes. -/

theorem schedule_follows {call : AdvanceCall} (sound : Sound w)
    (due : w.summary.reconciliation.nextDueAt ≠ none)
    (left : w.summary.reconciliation.checksUsed < w.summary.reconciliation.maxChecks)
    (probeId : ValidText 128 call.probeId) (taskId : ValidText 128 call.taskId) :
    Follows w (w.schedule call) := by
  obtain ⟨queue, first, deadline, ids, dues, checks, used, generation, active, probe, order, stop⟩ :=
    reconciliation_valid.mp sound.recovery
  have running : w.summary.reconciliation.stoppedReason = none := by
    by_contra stopped
    exact due (stop (by simpa [Option.isSome_iff_ne_none] using stopped))
  refine Follows.of_same sound rfl rfl rfl ?_ (Or.inl rfl) rfl ?_ rfl rfl ?_
  · exact ⟨Nat.le_refl _, Nat.le_refl _, sound.counted⟩
  · refine reconciliation_valid.mpr ⟨queue, first, deadline, ?_, ?_, checks, left, ?_, rfl, ?_,
      order, ?_⟩
    · simp [schedule, setSummary, summary, List.reduceOption, probeId, taskId]
    · intro at' same
      simp only [schedule, setSummary, summary, Option.some.injEq] at same
      exact ⟨same ▸ deadline, Nat.le_of_eq same.symm⟩
    · simp only [schedule, setSummary, summary] at generation ⊢
      omega
    · simp [schedule, setSummary, summary]
    · intro stopped
      have running : (w.schedule call).summary.reconciliation.stoppedReason = none := running
      simp [running] at stopped
  · intro settled
    cases settled with
    | inl operator => exact Or.inl operator
    | inr settled =>
      cases settled with
      | inl terminal => exact Or.inr (Or.inl terminal)
      | inr review => simp [reviewCandidate, running] at review

theorem advance_follows {call : AdvanceCall} (sound : Sound w)
    (accepted : w.advance call = .ok w') : Follows w w' := by
  rw [advance] at accepted
  split at accepted
  next =>
    cases accepted
    exact Follows.refl sound
  next due =>
    split at accepted
    next reason => exact stop_follows sound accepted
    next none =>
      simp only [bind_eq_ok, refuse_eq_ok, exists_unit] at accepted
      obtain ⟨_, a, numbers, appended⟩ := accepted
      obtain ⟨valid, _⟩ := append_ok appended
      simp only [EffectEvidenceEntry.validate, EffectEvidenceEntry.validateBody, bind_eq_ok,
        validateText_eq_ok, exists_unit] at valid
      obtain ⟨_, _, _, _, probeId, taskId, _⟩ := valid
      have left : w.summary.reconciliation.checksUsed < w.summary.reconciliation.maxChecks := by
        by_contra used
        simp only [advanceStop] at none
        split at none
        · cases none
        · split at none
          · cases none
          · rw [if_pos (by omega)] at none
            cases none
      have scheduled : Follows w (w.schedule call) :=
        schedule_follows sound (fun absent => due (by simp [absent])) left probeId taskId
      have numbered := next_follows scheduled.sound numbers
      have logged := append_follows numbered.sound rfl appended
      exact scheduled.trans (numbered.trans logged)

theorem context_follows {call : ContextCall} (sound : Sound w)
    (accepted : w.context call = .ok w') : Follows w w' := by
  simp only [context, bind_eq_ok, refuse_eq_ok, exists_unit] at accepted
  obtain ⟨_, _, a, numbers, appended⟩ := accepted
  have numbered := next_follows sound numbers
  exact numbered.trans (append_follows numbered.sound rfl appended)

theorem release_follows (sound : Sound w) : Follows w w.release := by
  obtain ⟨queue, first, deadline, ids, dues, checks, used, generation, active, probe, order, stop⟩ :=
    reconciliation_valid.mp sound.recovery
  refine Follows.of_same sound rfl rfl rfl ?_ (Or.inl rfl) rfl ?_ rfl rfl id
  · exact ⟨Nat.le_refl _, Nat.le_refl _, sound.counted⟩
  · exact reconciliation_valid.mpr ⟨queue, first, deadline, by simp [release, setSummary, summary,
      List.reduceOption], dues, checks, used, generation, rfl, by simp [release, setSummary,
      summary], order, stop⟩

theorem reschedule_follows {now : Nat} (sound : Sound w)
    (running : w.summary.reconciliation.stoppedReason = none) : Follows w (w.reschedule now) := by
  obtain ⟨queue, first, deadline, ids, dues, checks, used, generation, active, probe, order, stop⟩ :=
    reconciliation_valid.mp sound.recovery
  refine Follows.of_same sound rfl rfl rfl ?_ (Or.inl rfl) rfl ?_ rfl rfl id
  · exact ⟨Nat.le_refl _, Nat.le_refl _, sound.counted⟩
  · refine reconciliation_valid.mpr ⟨queue, first, deadline, ids, ?_, checks, used, generation,
      active, probe, order, ?_⟩
    · intro due same
      simp only [reschedule, setSummary, summary, Option.some.injEq] at same deadline ⊢
      omega
    · intro stopped
      have running : (w.reschedule now).summary.reconciliation.stoppedReason = none := running
      simp [running] at stopped

theorem finalize_follows {call : FinalizeCall} (sound : Sound w)
    (accepted : w.finalize call = .ok w') : Follows w w' := by
  simp only [finalize, bind_eq_ok, refuse_eq_ok, exists_unit] at accepted
  obtain ⟨_, a, numbers, b, appended, rest⟩ := accepted
  have released := release_follows sound
  have numbered := next_follows released.sound numbers
  have logged := append_follows numbered.sound rfl appended
  have before := released.trans (numbered.trans logged)
  split at rest
  next =>
    cases rest
    exact before
  next running =>
    split at rest
    next reason => exact before.trans (stop_follows before.sound rest)
    next none =>
      cases rest
      exact before.trans (reschedule_follows before.sound (by simpa using running))

/- Assessments. -/

theorem close_follows (sound : Sound w) (reference : EffectResolutionReference)
    (entry : Ledgence.EffectEvidenceEntry) :
    Follows w (w.close reference entry) := by
  refine Follows.of_same sound rfl rfl rfl ?_ (Or.inr rfl) rfl sound.recovery rfl rfl ?_
  · exact ⟨Nat.le_refl _, Nat.le_refl _, sound.counted⟩
  · intro _
    exact Or.inl rfl

theorem assess_follows {call : AssessCall} (sound : Sound w)
    (accepted : w.assess call = .ok w') : Follows w w' := by
  simp only [assess, bind_eq_ok, refuse_eq_ok, exists_unit, okOr_eq_ok] at accepted
  obtain ⟨_, a, numbers, reference, _, b, appended, refreshed⟩ := accepted
  have numbered := next_follows sound numbers
  have closed := close_follows numbered.sound reference
    (EvidenceTables.assessmentEntry call.command a.retained.entryCount call.now
      a.retained.effectRevision call.event)
  have logged := append_follows closed.sound rfl appended
  have assessed : b.retained.operatorResolution.isSome = true := by
    obtain ⟨_, _, _, result⟩ := append_ok appended
    rw [result]
    rfl
  have stopped : Follows b (b.stopRecovery .operatorAssessment) :=
    stopRecovery_follows logged.sound fun _ => Or.inl assessed
  have candidate := refreshCandidate_follows stopped.sound refreshed
  exact numbered.trans (closed.trans (logged.trans (stopped.trans candidate)))

end Operation
end Ledgence.Providers
