import Ledgence.Providers.Sound

/-! Every run of a provider operation: reports in any order, between probes, stops and
assessments. -/
open Kit Kit.Checked

namespace Ledgence.Providers
namespace Operation
variable {w w' : Operation} {sha256 : List Char → String}

theorem save_ok (accepted : w.save = .ok w') :
    w.summary.validate w.retained.entryCount w.retained.effectRevision = .ok () ∧
      w' = { w with needsReview := w'.needsReview } := by
  simp only [save, bind_eq_ok, exists_unit, pure_eq_ok] at accepted
  refine ⟨accepted.1, ?_⟩
  rw [← accepted.2]

theorem save_follows (sound : Sound w) (accepted : w.save = .ok w') : Follows w w' := by
  rw [(save_ok accepted).2]
  refine Follows.of_same sound rfl rfl rfl ?_ (Or.inl rfl) rfl sound.recovery rfl rfl id
  exact ⟨Nat.le_refl _, Nat.le_refl _, sound.counted⟩

theorem apply_follows {action : Action} (sound : Sound w)
    (accepted : w.apply sha256 action = .ok w') : Follows w w' := by
  cases action with
  | report call => exact report_follows sound accepted
  | advance call => exact advance_follows sound accepted
  | context call => exact context_follows sound accepted
  | finalize call => exact finalize_follows sound accepted
  | drain now runState => exact stop_follows sound accepted
  | assess call => exact assess_follows sound accepted

theorem save_accepts {action : Action} (sound : Sound w)
    (accepted : w.apply sha256 action = .ok w') : ∃ saved, w'.save = .ok saved := by
  have valid := summary_valid (apply_follows sound accepted).sound
  rw [save, valid, ok_bind]
  exact ⟨_, rfl⟩

theorem run_follows {actions : List Action} (sound : Sound w)
    (ran : w.run sha256 actions = .ok w') : Follows w w' := by
  induction actions generalizing w with
  | nil =>
    cases ran
    exact Follows.refl sound
  | cons action actions ih =>
    obtain ⟨next, stepped, rest⟩ := foldlM_cons_ok.mp ran
    simp only [step, bind_eq_ok] at stepped
    obtain ⟨applied, accepted, saved⟩ := stepped
    have first := apply_follows sound accepted
    have second := save_follows first.sound saved
    exact (first.trans second).trans (ih second.sound rest)

theorem dispatched_sound {call : DispatchCall} {firstDue deadline : Nat}
    (digest : lift call.binding.digest.validate = .ok ())
    (recovery : (dispatched call firstDue deadline).summary.reconciliation.validate = .ok ()) :
    Sound (dispatched call firstDue deadline) := by
  constructor
  · exact Nat.zero_lt_one
  · exact List.Pairwise.nil
  · intro a mem
    cases mem
  · intro a mem
    cases mem
  · intro kind
    rfl
  · constructor
    · intro two
      obtain ⟨kind, pair⟩ := two
      cases pair
    · intro _
      refine ⟨rfl, ?_, fun _ => Or.inl ⟨rfl, rfl, rfl, rfl⟩⟩
      intro a mem
      cases mem
  · intro handled
    cases handled
  · intro _
    rfl
  · exact digest
  · exact recovery
  · rfl
  · intro n dated
    cases dated
  · intro some
    cases some

theorem dispatch_sound {call : DispatchCall} (accepted : dispatch call = .ok w) : Sound w := by
  simp only [dispatch, bind_eq_ok, exists_unit, okOr_eq_ok] at accepted
  obtain ⟨_, firstDue, _, deadline, _, a, numbers, b, appended, saved⟩ := accepted
  -- The limits of recovery are checked when the first entry is saved.
  obtain ⟨valid, _⟩ := save_ok saved
  have fresh := next_ok numbers
  obtain ⟨_, _, _, logged⟩ := append_ok appended
  have summary : b.summary = (dispatched call firstDue deadline).summary := by
    rw [logged, fresh]
    rfl
  simp only [ProviderEffectSummary.validate, bind_eq_ok, exists_unit] at valid
  obtain ⟨digest, recovery, _⟩ := valid
  rw [summary] at digest recovery
  have sound := dispatched_sound digest recovery
  have first := next_follows sound numbers
  have second := append_follows first.sound rfl appended
  exact (save_follows second.sound saved).sound

/- What later states keep. -/

theorem mem_of_prefix {rs rs' : List ProviderReportEntry} {a b : ProviderReportEntry}
    (numbered : Numbered rs') (grown : rs <+: rs') (inA : a ∈ rs') (inB : b ∈ rs)
    (early : a.sequence ≤ b.sequence) : a ∈ rs := by
  obtain ⟨rest, shape⟩ := grown
  rw [← shape] at numbered inA
  cases List.mem_append.mp inA with
  | inl old => exact old
  | inr new =>
    have := ((List.pairwise_append.mp numbered).2.2 b inB a new).1
    omega

theorem conflicting_kept (sound : Sound w) (sound' : Sound w') (grown : w.reports <+: w'.reports)
    (conflict : w.summary.conflictingReports ≠ []) :
    w'.summary.conflictingReports = w.summary.conflictingReports := by
  have disputed : w.summary.knowledge = .disputed := by
    by_contra open'
    exact conflict ((aggregated_of_sound sound).undisputed open')
  obtain ⟨a, inA, b, inB, stored, before, disagree, least⟩ :=
    (aggregated_of_sound sound).conflicting disputed
  have disputed' : w'.summary.knowledge = .disputed :=
    (aggregated_of_sound sound').disputed.mpr
      ⟨a, grown.subset inA, b, grown.subset inB, disagree⟩
  obtain ⟨a', inA', b', inB', stored', before', disagree', least'⟩ :=
    (aggregated_of_sound sound').conflicting disputed'
  have early := least' a (grown.subset inA) b (grown.subset inB) before disagree
  -- The earlier pair was already there.
  have oldB : b' ∈ w.reports := mem_of_prefix sound'.numbered grown inB' inB (by omega)
  have oldA : a' ∈ w.reports := mem_of_prefix sound'.numbered grown inA' oldB (by omega)
  have late := least a' oldA b' oldB before' disagree'
  rw [stored, stored', sound.numbered.eq_of_sequence oldA inA (by omega),
    sound.numbered.eq_of_sequence oldB inB (by omega)]

theorem rank_le (kind : ProviderKnowledgeKind) : nonterminalRank kind ≤ 3 := by
  cases kind <;> simp [nonterminalRank]

theorem rank_kept (sound : Sound w) (sound' : Sound w') (grown : w.reports <+: w'.reports) :
    nonterminalRank w.summary.knowledge ≤ nonterminalRank w'.summary.knowledge := by
  by_cases disputed : w'.summary.knowledge = .disputed
  · rw [disputed]
    exact rank_le _
  · have open' : w.summary.knowledge ≠ .disputed := by
      rw [ne_eq, (aggregated_of_sound sound).disputed]
      rintro ⟨a, inA, b, inB, disagree⟩
      exact disputed ((aggregated_of_sound sound').disputed.mpr
        ⟨a, grown.subset inA, b, grown.subset inB, disagree⟩)
    by_cases answered : ∃ a ∈ w'.reports, a.report.knowledge.isTerminal = true
    · obtain ⟨a, mem, terminal⟩ := answered
      rw [(aggregated_of_sound sound').terminal disputed a mem terminal]
      rw [isTerminal_eq] at terminal
      have top : nonterminalRank a.kind = 3 := rank_of_terminal terminal
      rw [top]
      exact rank_le _
    · have none' : ∀ a ∈ w'.reports, a.report.knowledge.isTerminal = false := by
        intro a mem
        by_contra terminal
        exact answered ⟨a, mem, by simpa using terminal⟩
      obtain ⟨highest, _⟩ := (aggregated_of_sound sound').highest disputed none'
      obtain ⟨_, attained⟩ := (aggregated_of_sound sound).highest open' fun a mem =>
        none' a (grown.subset mem)
      cases attained with
      | inl unknown =>
        rw [unknown]
        exact Nat.zero_le _
      | inr some =>
        obtain ⟨a, mem, same⟩ := some
        rw [← same]
        exact highest a (grown.subset mem)

theorem later_of_follows (sound : Sound w) (follows : Follows w w') : Later w w' := by
  constructor
  · exact rank_kept sound follows.sound follows.reports
  · exact conflicting_kept sound follows.sound follows.reports
  · intro some
    rw [sound.dated] at some
    obtain ⟨n, dated⟩ := Option.isSome_iff_exists.mp some
    obtain ⟨m, after, _⟩ := follows.candidates n dated
    rw [follows.sound.dated, after, Option.isSome_some]
  · exact follows.candidates

/- The order of the reports. -/

theorem same_report {rs rs' : List ProviderReportEntry}
    (perm : (rs.map (·.report)).Perm (rs'.map (·.report))) {a : ProviderReportEntry}
    (mem : a ∈ rs) : ∃ b ∈ rs', b.report = a.report := by
  have inside : a.report ∈ rs'.map (·.report) := perm.subset (List.mem_map_of_mem mem)
  simpa using inside

theorem disputed_of_perm (aggregated : Aggregated w) (aggregated' : Aggregated w')
    (perm : (w.reports.map (·.report)).Perm (w'.reports.map (·.report)))
    (disputed : w.summary.knowledge = .disputed) : w'.summary.knowledge = .disputed := by
  obtain ⟨a, inA, b, inB, disagree⟩ := aggregated.disputed.mp disputed
  obtain ⟨a', inA', sameA⟩ := same_report perm inA
  obtain ⟨b', inB', sameB⟩ := same_report perm inB
  exact aggregated'.disputed.mpr ⟨a', inA', b', inB', by rwa [sameA, sameB]⟩

theorem rank_le_of_perm (aggregated : Aggregated w) (aggregated' : Aggregated w')
    (perm : (w.reports.map (·.report)).Perm (w'.reports.map (·.report)))
    (open₁ : w.summary.knowledge ≠ .disputed) (open₂ : w'.summary.knowledge ≠ .disputed)
    (none₁ : ∀ a ∈ w.reports, a.report.knowledge.isTerminal = false)
    (none₂ : ∀ a ∈ w'.reports, a.report.knowledge.isTerminal = false) :
    nonterminalRank w.summary.knowledge ≤ nonterminalRank w'.summary.knowledge ∧
      w.summary.knowledge.terminal = false := by
  obtain ⟨highest, _⟩ := aggregated'.highest open₂ none₂
  obtain ⟨_, attained⟩ := aggregated.highest open₁ none₁
  cases attained with
  | inl unknown =>
    rw [unknown]
    exact ⟨Nat.zero_le _, rfl⟩
  | inr some =>
    obtain ⟨a, mem, same⟩ := some
    obtain ⟨b, inside, report⟩ := same_report perm mem
    have kinds : b.kind = a.kind := congrArg (·.knowledge.kind) report
    rw [← same]
    refine ⟨kinds ▸ highest b inside, ?_⟩
    rw [ProviderReportEntry.kind, ← isTerminal_eq]
    exact none₁ a mem

/-- Reports in another order, and of another operation, give the same knowledge. -/
theorem knowledge_of_perm (aggregated : Aggregated w) (aggregated' : Aggregated w')
    (perm : (w.reports.map (·.report)).Perm (w'.reports.map (·.report))) :
    w'.summary.knowledge = w.summary.knowledge := by
  by_cases disputed : w.summary.knowledge = .disputed
  · rw [disputed]
    exact disputed_of_perm aggregated aggregated' perm disputed
  · have disputed' : w'.summary.knowledge ≠ .disputed := fun other =>
      disputed (disputed_of_perm aggregated' aggregated perm.symm other)
    by_cases answered : ∃ a ∈ w.reports, a.report.knowledge.isTerminal = true
    · obtain ⟨a, mem, terminal⟩ := answered
      obtain ⟨b, inside, report⟩ := same_report perm mem
      have kinds : b.kind = a.kind := congrArg (·.knowledge.kind) report
      rw [aggregated.terminal disputed a mem terminal,
        aggregated'.terminal disputed' b inside (report ▸ terminal), kinds]
    · have none₁ : ∀ a ∈ w.reports, a.report.knowledge.isTerminal = false := by
        intro a mem
        by_contra terminal
        exact answered ⟨a, mem, by simpa using terminal⟩
      have none₂ : ∀ a ∈ w'.reports, a.report.knowledge.isTerminal = false := by
        intro a mem
        obtain ⟨b, inside, report⟩ := same_report perm.symm mem
        rw [← report]
        exact none₁ b inside
      obtain ⟨low, left⟩ := rank_le_of_perm aggregated aggregated' perm disputed disputed' none₁ none₂
      obtain ⟨high, right⟩ :=
        rank_le_of_perm aggregated' aggregated perm.symm disputed' disputed none₂ none₁
      have ranks := Nat.le_antisymm low high
      cases first : w.summary.knowledge <;> cases second : w'.summary.knowledge <;>
        simp_all [nonterminalRank, ProviderKnowledgeKind.terminal]

/-- Whatever happens to an operation, its reports alone decide what is known about it. Nothing is
taken back later, the order of the reports does not matter to the knowledge, and what a step leaves
can be saved. -/
theorem reports_aggregated (sha256 : List Char → String) {call : DispatchCall}
    {actions : List Action} {started w : Operation} (claimed : dispatch call = .ok started)
    (ran : started.run sha256 actions = .ok w) :
    Aggregated w ∧
      (∀ more later, w.run sha256 more = .ok later → Later w later) ∧
      (∀ call' actions' started' other, dispatch call' = .ok started' →
        started'.run sha256 actions' = .ok other →
        (w.reports.map (·.report)).Perm (other.reports.map (·.report)) →
        other.summary.knowledge = w.summary.knowledge) ∧
      ∀ action next, w.apply sha256 action = .ok next → ∃ saved, next.save = .ok saved := by
  have sound := (run_follows (dispatch_sound claimed) ran).sound
  refine ⟨aggregated_of_sound sound, ?_, ?_, ?_⟩
  · intro more later continued
    exact later_of_follows sound (run_follows sound continued)
  · intro call' actions' started' other claimed' ran' perm
    have sound' := (run_follows (dispatch_sound claimed') ran').sound
    exact knowledge_of_perm (aggregated_of_sound sound) (aggregated_of_sound sound') perm
  · intro action next accepted
    exact save_accepts sound accepted

/- Two runs. -/

def sampleCall : DispatchCall where
  now := 1000
  occurrence := ⟨⟨"acme", "prod"⟩, "wf", "act", "pay"⟩
  binding := {
    digest := ⟨"sha256:0000000000000000000000000000000000000000000000000000000000000000"⟩
    lookup := .byBinding
    reconciliation := ⟨"probes", 30000, 5000, 300000, 12, 3600000, 10000⟩ }
  claimId := "claim"
  sourceId := "psrc"
  reportId := "prep"

def sampleReport (id : String) (knowledge : ProviderKnowledge) : Action :=
  .report {
    now := 2000
    owner := none
    sourceId := id
    source := .dispatch "claim"
    reportId := id
    report := ⟨some "charge", knowledge⟩ }

def sampleRun (actions : List Action) : Result Operation := do
  let started ← dispatch sampleCall
  started.run String.ofList actions

theorem sampleRun_eq_ok {actions : List Action} (accepted : sampleRun actions = .ok w) :
    ∃ started, dispatch sampleCall = .ok started ∧
      started.run String.ofList actions = .ok w := by
  simp only [sampleRun, bind_eq_ok] at accepted
  exact accepted

theorem sampleRun_of_toOption {actions : List Action} {kind : ProviderKnowledgeKind}
    {selected : Option String}
    (result : ((sampleRun actions).toOption.map fun w =>
      (w.summary.knowledge, w.summary.selectedReport.map (·.reportId))) = some (kind, selected)) :
    ∃ w, sampleRun actions = .ok w ∧ w.summary.knowledge = kind ∧
      w.summary.selectedReport.map (·.reportId) = selected := by
  obtain ⟨w, accepted, same⟩ := Option.map_eq_some_iff.mp result
  rw [toOption_eq_some] at accepted
  cases same
  exact ⟨w, accepted, rfl, rfl⟩

theorem reports_aggregated_succeeded :
    ∃ w, sampleRun [sampleReport "first" .pending, .drain 2500 .cancelling,
      sampleReport "second" (.succeeded .null)] = .ok w ∧
      w.summary.knowledge = .succeeded ∧ Aggregated w := by
  obtain ⟨w, accepted, knowledge, _⟩ : ∃ w, sampleRun [sampleReport "first" .pending,
      .drain 2500 .cancelling, sampleReport "second" (.succeeded .null)] = .ok w ∧
      w.summary.knowledge = .succeeded ∧
      w.summary.selectedReport.map (·.reportId) = some "second" :=
    sampleRun_of_toOption (by decide +kernel)
  obtain ⟨started, claimed, ran⟩ := sampleRun_eq_ok accepted
  exact ⟨w, accepted, knowledge, (reports_aggregated String.ofList claimed ran).1⟩

/-- Two answers that differ make a dispute, and a dispute selects no report. -/
theorem dispute_selects_nothing :
    ∃ w, sampleRun [sampleReport "first" (.succeeded .null),
      sampleReport "second" (.cancelled "timeout")] = .ok w ∧
      w.summary.knowledge = .disputed ∧
      ¬ ∃ a ∈ w.reports, w.summary.selectedReport = some a.reference := by
  obtain ⟨w, accepted, knowledge, selected⟩ : ∃ w, sampleRun [sampleReport "first" (.succeeded .null),
      sampleReport "second" (.cancelled "timeout")] = .ok w ∧
      w.summary.knowledge = .disputed ∧ w.summary.selectedReport.map (·.reportId) = none :=
    sampleRun_of_toOption (by decide +kernel)
  refine ⟨w, accepted, knowledge, ?_⟩
  rintro ⟨a, _, same⟩
  simp [same] at selected

end Operation
end Ledgence.Providers
