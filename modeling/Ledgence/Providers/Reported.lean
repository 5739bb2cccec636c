import Ledgence.Providers.Steps

/-! A report keeps an operation sound. What it changes apart from the verdict is the handling, the
stored facts and, when the candidate is refreshed, the candidate. -/
open Kit Kit.Checked

namespace Ledgence.Providers

structure Basis where
  facts : List FactRow
  entries : List EffectEvidenceEntry
  entryCount : Nat
  effectRevision : Nat
  assessed : Bool
  bindingDigest : Digest
  reconciliation : ProviderReconciliationSummary
  candidateRevision : Option Nat
  candidate : Option ProviderSelection
  handling : ProviderHandlingState

def ProviderHandlingState.answer : ProviderHandlingState → ProviderHandlingState
  | .operatorClosed => .operatorClosed
  | .unresolved | .providerTerminal => .providerTerminal

namespace Operation
variable {w w' : Operation} {entry : ProviderReportEntry} {sha256 : List Char → String}

def basis (w : Operation) : Basis where
  facts := w.facts
  entries := w.entries
  entryCount := w.retained.entryCount
  effectRevision := w.retained.effectRevision
  assessed := w.retained.operatorResolution.isSome
  bindingDigest := w.summary.bindingDigest
  reconciliation := w.summary.reconciliation
  candidateRevision := w.summary.candidateRevision
  candidate := w.state.candidate
  handling := w.summary.handling

theorem basis_learnReference {report : ProviderReport} :
    (w.learnReference report).basis = w.basis := by
  rw [learnReference]
  split
  · split <;> rfl
  · rfl

theorem basis_dispute {references : List ProviderReportReference}
    (accepted : w.dispute references = .ok w') : w'.basis = w.basis := by
  simp only [dispute, bind_eq_ok, refuse_eq_ok, exists_unit, pure_eq_ok] at accepted
  rw [← accepted.2]
  rfl

theorem basis_handleTerminal :
    w.handleTerminal.basis = { w.basis with handling := w.summary.handling.answer } := by
  rw [handleTerminal]
  cases handling : w.summary.handling with
  | operatorClosed =>
    rw [if_pos rfl]
    simp [basis, handling, ProviderHandlingState.answer]
  | unresolved | providerTerminal =>
    rw [if_neg (by simp)]
    rfl

theorem basis_aggregateTerminal {references : List ProviderReportReference}
    (accepted : w.aggregateTerminal entry references = .ok w') :
    w'.basis = { w.basis with handling := w.summary.handling.answer } := by
  rw [aggregateTerminal] at accepted
  split at accepted
  · simp only [bind_eq_ok, pure_eq_ok] at accepted
    obtain ⟨a, disputed, result⟩ := accepted
    have same := basis_dispute disputed
    have handling : a.summary.handling = w.summary.handling := congrArg Basis.handling same
    rw [← result, basis_handleTerminal, same, handling]
  · simp only [pure_eq_ok] at accepted
    rw [← accepted, basis_handleTerminal]
    split <;> rfl

theorem basis_aggregateNonterminal : (w.aggregateNonterminal entry).basis = w.basis := by
  rw [aggregateNonterminal]
  split <;> rfl

theorem basis_contradict {first conflict : Bool} :
    (w.contradict entry first conflict).basis = w.basis := by
  rw [contradict]
  split
  next resolution same =>
    split
    · simp [basis, same, summary]
    · rfl
  · rfl

theorem basis_recordReport {kind : FactKind} {fresh : Bool}
    {found : List ProviderReportReference} {rs : FactKind → List ProviderReportEntry}
    (listed : Listed w.facts rs) (numbered : Numbered (rs kind ++ [entry]))
    (revision : entry.recordedRevision = w.retained.effectRevision)
    (accepted : w.recordReport sha256 kind entry = .ok (fresh, found, w')) :
    w'.basis = { w.basis with facts := w'.facts } ∧ w'.verdict = w.verdict := by
  obtain ⟨frame, _, _⟩ := recordReport_spec listed numbered revision accepted
  constructor
  · rw [frame]
    rfl
  · rw [frame]
    rfl

theorem counted_knows {rs : List ProviderReportEntry} {terminals : List ProviderReportReference}
    (numbered : Numbered (rs ++ [entry])) (knows : Knows (firstFacts rs) rs w.verdict)
    (found : terminals = if (entry.report.fact .terminal).isSome = true
      then ((firstFacts (rs ++ [entry]) .terminal).take 2).map ProviderReportEntry.reference
      else [])
    (accepted : (if entry.report.knowledge.isTerminal = true
      then w.aggregateTerminal entry terminals
      else .ok (w.aggregateNonterminal entry)) = .ok w') :
    Knows (halfway rs entry .terminal) (rs ++ [entry]) w'.verdict ∧
      w'.basis = { w.basis with
        handling := if entry.kind.terminal = true then w.summary.handling.answer
          else w.summary.handling } := by
  rw [ProviderReport.fact_terminal_isSome] at found
  rw [isTerminal_eq] at accepted
  by_cases terminal : entry.report.knowledge.kind.terminal = true
  · rw [if_pos terminal] at found accepted
    rw [found] at accepted
    refine ⟨aggregateTerminal_knows numbered terminal knows accepted, ?_⟩
    rw [basis_aggregateTerminal accepted, ProviderReportEntry.kind, if_pos terminal]
  · rw [if_neg terminal, Except.ok.injEq] at accepted
    have nonterminal : entry.kind.terminal = false := Bool.not_eq_true _ ▸ terminal
    have silent : entry.report.fact .terminal = none := by
      rw [← Option.not_isSome_iff_eq_none, ProviderReport.fact_terminal_isSome]
      exact terminal
    have same : firstFacts rs .terminal = halfway rs entry .terminal .terminal := by
      rw [halfway_self, firstFacts_concat_none silent]
    constructor
    · rw [← accepted]
      refine (aggregateNonterminal_knows numbered nonterminal knows).congr (fun kind => ?_) same
      cases kind with
      | terminal => rw [same]
      | reference => rw [halfway_of_ne (by simp)]
    · rw [← accepted, basis_aggregateNonterminal, if_neg (by simp [nonterminal])]
      rfl

structure Counted (w a : Operation) (entry : ProviderReportEntry) : Prop where
  listed : Listed a.facts fun _ => w.reports ++ [entry]
  knows : Knows (firstFacts (w.reports ++ [entry])) (w.reports ++ [entry]) a.verdict
  basis : a.basis = { w.basis with
    facts := a.facts
    handling := if entry.kind.terminal = true then w.summary.handling.answer
      else w.summary.handling }

theorem aggregate_counted (sound : Sound w) (numbered : Numbered (w.reports ++ [entry]))
    (revision : entry.recordedRevision = w.retained.effectRevision)
    (accepted : w.aggregate sha256 entry = .ok w') :
    ∃ a, Counted w a entry ∧ a.refreshCandidate = .ok w' := by
  obtain ⟨newReference, references, w₁, newTerminal, terminals, w₂, w₃, w₄, first, second, third,
    fourth, refreshed⟩ := aggregate_ok accepted
  have basis₀ : (w.learnReference entry.report).basis = w.basis := basis_learnReference
  have facts₀ : (w.learnReference entry.report).facts = w.facts := congrArg Basis.facts basis₀
  have listed₀ : Listed (w.learnReference entry.report).facts fun _ => w.reports := by
    rw [facts₀]
    exact sound.listed
  have revision₀ := revision.trans (congrArg Basis.effectRevision basis₀).symm
  -- The facts of the references are stored first, then those of the terminal answers.
  obtain ⟨_, listed₁, referencesOf⟩ := recordReport_spec listed₀ numbered revision₀ first
  obtain ⟨basis₁, verdict₁⟩ := basis_recordReport listed₀ numbered revision₀ first
  have revision₁ := revision₀.trans (congrArg Basis.effectRevision basis₁).symm
  have looked : Function.update (fun _ => w.reports) FactKind.reference (w.reports ++ [entry])
      .terminal = w.reports := Function.update_of_ne (by simp) ..
  have numbered₁ : Numbered (Function.update (fun _ => w.reports) FactKind.reference
      (w.reports ++ [entry]) .terminal ++ [entry]) := looked.symm ▸ numbered
  obtain ⟨_, listed₂, terminalsOf⟩ := recordReport_spec listed₁ numbered₁ revision₁ second
  obtain ⟨basis₂, verdict₂⟩ := basis_recordReport listed₁ numbered₁ revision₁ second
  rw [looked] at listed₂ terminalsOf
  have verdict : w₂.verdict = w.verdict := by rw [verdict₂, verdict₁, verdict_learnReference]
  obtain ⟨knows₃, basis₃⟩ := counted_knows numbered (verdict ▸ sound.knows) terminalsOf third
  have knows₄ := reference_knows numbered knows₃ referencesOf fourth
  have basis₄ : w₄.basis = w₃.basis := by
    split at fourth
    · exact basis_dispute fourth
    · cases fourth
      rfl
  have handling : w₂.summary.handling = w.summary.handling := by
    have same : w₂.basis = { w.basis with facts := w₂.facts } := by rw [basis₂, basis₁, basis₀]
    exact congrArg Basis.handling same
  refine ⟨_, ⟨?_, by rw [verdict_contradict]; exact knows₄, ?_⟩, refreshed⟩
  · have facts : ∀ first conflict, (w₄.contradict entry first conflict).facts = w₂.facts := by
      intro first conflict
      have same : (w₄.contradict entry first conflict).basis = w₃.basis :=
        basis_contradict.trans basis₄
      exact congrArg Basis.facts (same.trans basis₃)
    rw [facts]
    intro kind
    cases kind with
    | terminal => exact listed₂ .terminal
    | reference => exact listed₂ .reference
  · have facts : ∀ first conflict, (w₄.contradict entry first conflict).basis =
        { w.basis with
          facts := (w₄.contradict entry first conflict).facts
          handling := if entry.kind.terminal = true then w.summary.handling.answer
            else w.summary.handling } := by
      intro first conflict
      have same : (w₄.contradict entry first conflict).basis = w₃.basis :=
        basis_contradict.trans basis₄
      have stored : (w₄.contradict entry first conflict).facts = w₂.facts :=
        congrArg Basis.facts (same.trans basis₃)
      rw [same, basis₃, stored, handling, basis₂, basis₁, basis₀]
    exact facts _ _

/- The entry is logged after the refresh, which does not read the log. -/

def log (w : Operation) (entries : List EffectEvidenceEntry) : Operation :=
  { w with entries := entries }

theorem selectCandidate_log {candidate : Option ProviderSelection}
    {entries : List EffectEvidenceEntry} :
    (w.log entries).selectCandidate candidate = (w.selectCandidate candidate).log entries := by
  by_cases same : canonicalJsonBytes (.opt (w.state.candidate.map ProviderSelection.toJson)) =
      canonicalJsonBytes (.opt (candidate.map ProviderSelection.toJson))
  · have logged : (w.log entries).selectCandidate candidate = w.log entries :=
      if_neg (not_not.mpr same)
    have unchanged : w.selectCandidate candidate = w := if_neg (not_not.mpr same)
    rw [logged, unchanged]
  · have logged : (w.log entries).selectCandidate candidate = _ := if_pos same
    have changed : w.selectCandidate candidate = _ := if_pos same
    rw [logged, changed]
    rfl

theorem selectCandidate_entries {candidate : Option ProviderSelection} :
    (w.selectCandidate candidate).entries = w.entries := by
  simp only [selectCandidate]
  split <;> rfl

theorem refreshCandidate_log (accepted : w.refreshCandidate = .ok w')
    (entries : List EffectEvidenceEntry) :
    (w.log entries).refreshCandidate = .ok (w'.log entries) ∧ w'.entries = w.entries := by
  simp only [refreshCandidate, bind_eq_ok, pure_eq_ok] at accepted
  obtain ⟨candidate, evidence, result⟩ := accepted
  have same : (w.log entries).evidenceCandidate = .ok candidate := evidence
  have stop : (w.log entries).evidenceStop = w.evidenceStop := rfl
  simp only [refreshCandidate, same, ok_bind, stop]
  rw [← result]
  cases w.evidenceStop with
  | none => exact ⟨congrArg Except.ok selectCandidate_log, selectCandidate_entries⟩
  | some reason =>
    exact ⟨congrArg Except.ok (selectCandidate_log (w := w.stopRecovery reason)),
      selectCandidate_entries⟩

theorem knows_terminal_iff {rs : List ProviderReportEntry} {v : Verdict}
    (knows : Knows (firstFacts rs) rs v) :
    v.knowledge.terminal = true ↔ Two (firstFacts rs) ∨ firstFacts rs .terminal ≠ [] := by
  by_cases two : Two (firstFacts rs)
  · simp [(knows.disputed two).knowledge, two, ProviderKnowledgeKind.terminal]
  · have agreed := knows.agreed two
    by_cases empty : firstFacts rs .terminal = []
    · simp [agreed.nonterminal empty, two, empty]
    · obtain ⟨a, rest, shape⟩ := List.exists_cons_of_ne_nil empty
      have first : a ∈ firstFacts rs .terminal := by simp [shape]
      rw [(agreed.terminal a first).knowledge]
      simp [firstFacts_terminal first, empty]

theorem terminal_grows {rs : List ProviderReportEntry} {v v' : Verdict}
    (before : Knows (firstFacts rs) rs v)
    (after : Knows (firstFacts (rs ++ [entry])) (rs ++ [entry]) v')
    (terminal : v.knowledge.terminal = true) : v'.knowledge.terminal = true := by
  rw [knows_terminal_iff before] at terminal
  rw [knows_terminal_iff after]
  cases terminal with
  | inl two =>
    obtain ⟨kind, pair⟩ := two
    obtain ⟨p, found⟩ := Option.isSome_iff_exists.mp pair
    exact Or.inl ⟨kind, by rw [firstTwo_grow found]; rfl⟩
  | inr answers =>
    refine Or.inr fun empty => answers ?_
    cases firstFacts_grow rs entry .terminal with
    | inl same => rw [← same, empty]
    | inr longer => simp [longer] at empty

theorem reports_log {a : Operation} :
    (a.log (w.entries ++ [.providerReport entry])).reports = w.reports ++ [entry] := by
  simp [Operation.reports, log, EffectEvidenceEntry.report?]

/-- A terminal report answers, whatever the handling was before; any other leaves it and the terminal
facts as they are. -/
theorem Counted.handled {a : Operation} (counted : Counted w a entry) (sound : Sound w) :
    (a.summary.handling = .providerTerminal → firstFacts (w.reports ++ [entry]) .terminal ≠ []) ∧
    (a.summary.handling = .unresolved → firstFacts (w.reports ++ [entry]) .terminal = []) := by
  have handling : a.summary.handling = if entry.kind.terminal = true
      then w.summary.handling.answer else w.summary.handling :=
    congrArg Basis.handling counted.basis
  rw [handling]
  by_cases answer : entry.kind.terminal = true
  · rw [if_pos answer]
    constructor
    · intro _ empty
      have silent := unanswered_iff.mp empty entry (by simp)
      rw [answer] at silent
      cases silent
    · intro unresolved
      cases handled : w.summary.handling <;>
        simp [handled, ProviderHandlingState.answer] at unresolved
  · have silent : firstFacts (w.reports ++ [entry]) .terminal = firstFacts w.reports .terminal := by
      refine firstFacts_concat_none ?_
      rw [← Option.not_isSome_iff_eq_none, ProviderReport.fact_terminal_isSome]
      exact answer
    rw [if_neg answer, silent]
    exact ⟨sound.answered, sound.unresolved⟩

theorem Counted.settled {a : Operation} (counted : Counted w a entry) (sound : Sound w)
    (some : a.state.candidate.isSome = true) :
    Settled (a.log (w.entries ++ [.providerReport entry])) := by
  have candidate : a.state.candidate = w.state.candidate := congrArg Basis.candidate counted.basis
  have assessed : a.retained.operatorResolution.isSome = w.retained.operatorResolution.isSome :=
    congrArg Basis.assessed counted.basis
  rw [candidate] at some
  cases sound.settled some with
  | inl operator => exact Or.inl (assessed.trans operator)
  | inr settled =>
    cases settled with
    | inl terminal =>
      exact Or.inr (Or.inl (terminal_grows sound.knows counted.knows terminal))
    | inr review =>
      refine Or.inr (Or.inr ?_)
      have recovery : a.summary.reconciliation = w.summary.reconciliation :=
        congrArg Basis.reconciliation counted.basis
      have same : (a.log (w.entries ++ [.providerReport entry])).reviewCandidate =
          w.reviewCandidate := by
        simp only [reviewCandidate, log, summary] at recovery ⊢
        rw [recovery]
      rw [same]
      exact review

theorem counted_follows {a : Operation} (sound : Sound w) (counted : Counted w a entry)
    (last : entry.sequence = w.retained.entryCount ∧
      entry.recordedRevision = w.retained.effectRevision)
    (numbered : Numbered (w.reports ++ [entry])) (valid : entry.reference.validate = .ok ()) :
    Follows w (a.log (w.entries ++ [.providerReport entry])) := by
  have basis := counted.basis
  have reports : (a.log (w.entries ++ [.providerReport entry])).reports = w.reports ++ [entry] :=
    reports_log
  have entryCount : a.retained.entryCount = w.retained.entryCount := congrArg Basis.entryCount basis
  have revision : a.retained.effectRevision = w.retained.effectRevision :=
    congrArg Basis.effectRevision basis
  have digest : (a.log (w.entries ++ [.providerReport entry])).summary.bindingDigest =
    w.summary.bindingDigest := congrArg Basis.bindingDigest basis
  have recovery : (a.log (w.entries ++ [.providerReport entry])).summary.reconciliation =
    w.summary.reconciliation := congrArg Basis.reconciliation basis
  have dated : a.summary.candidateRevision = w.summary.candidateRevision :=
    congrArg Basis.candidateRevision basis
  have candidate : a.state.candidate = w.state.candidate := congrArg Basis.candidate basis
  refine ⟨?_, reports ▸ List.prefix_append _ _, Candidates.of_eq dated⟩
  constructor
  · have := sound.counted
    simp only [log]
    omega
  · exact reports ▸ numbered
  · intro b mem
    rw [reports] at mem
    simp only [log, entryCount, revision]
    cases List.mem_append.mp mem with
    | inl old => exact sound.bounded b old
    | inr new =>
      cases List.mem_singleton.mp new
      omega
  · intro b mem
    rw [reports] at mem
    cases List.mem_append.mp mem with
    | inl old => exact sound.recorded b old
    | inr new =>
      cases List.mem_singleton.mp new
      exact valid
  · exact reports ▸ counted.listed
  · exact reports ▸ counted.knows
  · exact reports ▸ (counted.handled sound).1
  · exact reports ▸ (counted.handled sound).2
  · exact digest ▸ sound.digest
  · exact recovery ▸ sound.recovery
  · have same := sound.dated
    rw [← candidate, ← dated] at same
    exact same
  · intro n at'
    have at' : a.summary.candidateRevision = some n := at'
    simp only [log, revision]
    exact sound.past n (dated.symm.trans at')
  · exact counted.settled sound

theorem report_follows {call : ReportCall} (sound : Sound w)
    (accepted : w.report sha256 call = .ok w') : Follows w w' := by
  simp only [report, bind_eq_ok, exists_unit] at accepted
  obtain ⟨_, a, numbers, b, aggregated, appended⟩ := accepted
  have next := next_follows sound numbers
  have fresh := next_ok numbers
  obtain ⟨valid, _, _, result⟩ := append_ok appended
  have last : (a.reportEntry call).sequence = a.retained.entryCount ∧
      (a.reportEntry call).recordedRevision = a.retained.effectRevision := ⟨rfl, rfl⟩
  have reports : a.reports = w.reports := by rw [fresh]; rfl
  -- The new entry is numbered after all others.
  have numbered : Numbered (a.reports ++ [a.reportEntry call]) := by
    refine next.sound.numbered.concat fun c mem => ?_
    have old := sound.bounded c (reports ▸ mem)
    rw [last.1, last.2, fresh]
    simp only
    omega
  have recorded : (a.reportEntry call).reference.validate = .ok () := by
    simp only [EffectEvidenceEntry.validate, EffectEvidenceEntry.validateBody, bind_eq_ok,
      exists_unit] at valid
    obtain ⟨sequence, revision, order, time, source, report, _⟩ := valid
    simp only [ProviderReportReference.validate, bind_eq_ok, exists_unit]
    refine ⟨report, source, sequence, revision, time, ?_⟩
    rw [refuse_eq_ok] at order ⊢
    intro either
    cases either with
    | inl late => exact order late
    | inr disputed => exact kind_ne_disputed _ disputed
  obtain ⟨c, counted, refreshed⟩ := aggregate_counted next.sound numbered last.2 aggregated
  have logged := counted_follows next.sound counted last numbered recorded
  obtain ⟨again, entries⟩ := refreshCandidate_log refreshed
    (a.entries ++ [.providerReport (a.reportEntry call)])
  have candidate := refreshCandidate_follows logged.sound again
  have same : c.entries = a.entries := congrArg Basis.entries counted.basis
  have final : w' = b.log (a.entries ++ [.providerReport (a.reportEntry call)]) := by
    rw [result, entries, same]
    rfl
  rw [final]
  exact next.trans (logged.trans candidate)

end Operation
end Ledgence.Providers
