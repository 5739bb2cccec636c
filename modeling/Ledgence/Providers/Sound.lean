import Mathlib.Data.List.Pairwise
import Ledgence.Providers.Reported

/-! Runs: what the reports of an operation decide, in whatever order they were accepted. -/
open Kit Kit.Checked

namespace Ledgence.Providers
open Operation (nonterminalRank)

def Disagree (a b : ProviderReport) : Prop :=
  (a.knowledge.isTerminal = true ∧ b.knowledge.isTerminal = true ∧
    a.fact .terminal ≠ b.fact .terminal) ∨
  ∃ x y, a.providerReference = some x ∧ b.providerReference = some y ∧ x ≠ y

theorem disagree_iff {a b : ProviderReport} :
    Disagree a b ↔ ∃ kind, (a.fact kind).isSome = true ∧ (b.fact kind).isSome = true ∧
      a.fact kind ≠ b.fact kind := by
  constructor
  · intro disagree
    cases disagree with
    | inl terminal =>
      refine ⟨.terminal, ?_, ?_, terminal.2.2⟩
      · rw [ProviderReport.fact_terminal_isSome, ← isTerminal_eq, terminal.1]
      · rw [ProviderReport.fact_terminal_isSome, ← isTerminal_eq, terminal.2.1]
    | inr reference =>
      obtain ⟨x, y, left, right, differ⟩ := reference
      refine ⟨.reference, ?_, ?_, ?_⟩
      · rw [ProviderReport.fact_reference_isSome, left, Option.isSome_some]
      · rw [ProviderReport.fact_reference_isSome, right, Option.isSome_some]
      · rw [ne_eq, ProviderReport.fact_reference_eq_iff, left, right, Option.some.injEq]
        exact differ
  · rintro ⟨kind, left, right, differ⟩
    cases kind with
    | terminal =>
      rw [ProviderReport.fact_terminal_isSome, ← isTerminal_eq] at left right
      exact Or.inl ⟨left, right, differ⟩
    | reference =>
      rw [ProviderReport.fact_reference_isSome] at left right
      obtain ⟨x, hasX⟩ := Option.isSome_iff_exists.mp left
      obtain ⟨y, hasY⟩ := Option.isSome_iff_exists.mp right
      rw [ne_eq, ProviderReport.fact_reference_eq_iff, hasX, hasY, Option.some.injEq] at differ
      exact Or.inr ⟨x, y, hasX, hasY, differ⟩

section Pairs
variable {rs : List ProviderReportEntry} {a b c d : ProviderReportEntry} {kind : FactKind}

theorem two_iff : Two (firstFacts rs) ↔ ∃ a ∈ rs, ∃ b ∈ rs, Disagree a.report b.report := by
  simp only [Two, firstTwo_isSome, firstFacts, two_firsts, disagree_iff]
  constructor
  · rintro ⟨kind, a, inA, b, inB, facts⟩
    exact ⟨a, inA, b, inB, kind, facts⟩
  · rintro ⟨a, inA, b, inB, kind, facts⟩
    exact ⟨kind, a, inA, b, inB, facts⟩

theorem Numbered.eq_of_sequence (numbered : Numbered rs) (inA : a ∈ rs) (inB : b ∈ rs)
    (same : a.sequence = b.sequence) : a = b := by
  by_contra differ
  have apart : rs.Pairwise fun x y => x.sequence ≠ y.sequence :=
    numbered.sequences.imp fun before => Nat.ne_of_lt before
  have : Std.Symm fun x y : ProviderReportEntry => x.sequence ≠ y.sequence :=
    ⟨fun _ _ ne => ne.symm⟩
  exact apart.forall inA inB differ same

/-- The first two elements of a pair of facts are reports that disagree. -/
theorem firstTwo_disagree (found : firstTwo (firstFacts rs kind) = some (a, b)) :
    a ∈ rs ∧ b ∈ rs ∧ Disagree a.report b.report := by
  obtain ⟨rest, shape⟩ := firstTwo_eq_some.mp found
  have first : a ∈ firstFacts rs kind := by simp [shape]
  have second : b ∈ firstFacts rs kind := by simp [shape]
  have distinct := firsts_distinct (·.report.fact kind) rs
  rw [← firstFacts, shape] at distinct
  obtain ⟨inA, showsA⟩ := mem_of_mem_firstFacts first
  obtain ⟨inB, showsB⟩ := mem_of_mem_firstFacts second
  have differ := (List.pairwise_cons.mp distinct).1 b (by simp)
  exact ⟨inA, inB, disagree_iff.mpr ⟨kind, showsA, showsB, differ⟩⟩

theorem noLater_of_disagree (numbered : Numbered rs)
    (least : ∀ kind p, firstTwo (firstFacts rs kind) = some p → NoLater (a, b) p)
    (inC : c ∈ rs) (inD : d ∈ rs) (before : c.sequence < d.sequence)
    (disagree : Disagree c.report d.report) : NoLater (a, b) (c, d) := by
  obtain ⟨kind, showsC, showsD, differ⟩ := disagree_iff.mp disagree
  have two : (firstTwo (firstFacts rs kind)).isSome = true := by
    rw [firstTwo_isSome, firstFacts, two_firsts]
    exact ⟨c, inC, d, inD, showsC, showsD, differ⟩
  obtain ⟨p, found⟩ := Option.isSome_iff_exists.mp two
  have early := firstTwo_firsts_le numbered.sequences found inC inD showsC showsD differ before
  have bound := least kind p found
  simp only [NoLater] at bound ⊢
  omega

end Pairs

namespace Operation
variable {w w' : Operation} {sha256 : List Char → String}

structure Aggregated (w : Operation) : Prop where
  disputed : w.summary.knowledge = .disputed ↔
    ∃ a ∈ w.reports, ∃ b ∈ w.reports, Disagree a.report b.report
  terminal : w.summary.knowledge ≠ .disputed → ∀ a ∈ w.reports,
    a.report.knowledge.isTerminal = true → w.summary.knowledge = a.kind
  highest : w.summary.knowledge ≠ .disputed →
    (∀ a ∈ w.reports, a.report.knowledge.isTerminal = false) →
    (∀ a ∈ w.reports, nonterminalRank a.kind ≤ nonterminalRank w.summary.knowledge) ∧
      (w.summary.knowledge = .unknown ∨ ∃ a ∈ w.reports, a.kind = w.summary.knowledge)
  selected : w.summary.selectedReport =
    if w.summary.knowledge = .disputed then none
    else (w.reports.find? (·.kind = w.summary.knowledge)).map ProviderReportEntry.reference
  conflicting : w.summary.knowledge = .disputed → ∃ a ∈ w.reports, ∃ b ∈ w.reports,
    w.summary.conflictingReports = [a.reference, b.reference] ∧ a.sequence < b.sequence ∧
    Disagree a.report b.report ∧ ∀ c ∈ w.reports, ∀ d ∈ w.reports, c.sequence < d.sequence →
      Disagree c.report d.report →
      b.sequence < d.sequence ∨ (b.sequence = d.sequence ∧ a.sequence ≤ c.sequence)
  undisputed : w.summary.knowledge ≠ .disputed → w.summary.conflictingReports = []
  valid : w.summary.validate w.retained.entryCount w.retained.effectRevision = .ok ()

/-- What a later state never takes back. -/
structure Later (w w' : Operation) : Prop where
  rank : nonterminalRank w.summary.knowledge ≤ nonterminalRank w'.summary.knowledge
  conflicting : w.summary.conflictingReports ≠ [] →
    w'.summary.conflictingReports = w.summary.conflictingReports
  candidate : w.state.candidate.isSome = true → w'.state.candidate.isSome = true
  revision : ∀ n, w.summary.candidateRevision = some n →
    ∃ m, w'.summary.candidateRevision = some m ∧ n ≤ m

/- What a sound operation says. -/

theorem disputed_iff (sound : Sound w) :
    w.summary.knowledge = .disputed ↔ Two (firstFacts w.reports) := by
  constructor
  · intro disputed
    by_contra one
    have agreed := sound.knows.agreed one
    by_cases empty : firstFacts w.reports .terminal = []
    · have nonterminal : w.summary.knowledge.terminal = false := agreed.nonterminal empty
      rw [disputed] at nonterminal
      cases nonterminal
    · obtain ⟨a, rest, shape⟩ := List.exists_cons_of_ne_nil empty
      have knowledge : w.summary.knowledge = a.kind :=
        (agreed.terminal a (by simp [shape])).knowledge
      exact kind_ne_disputed a.report.knowledge (knowledge.symm.trans disputed)
  · intro two
    exact (sound.knows.disputed two).knowledge

theorem agreed_of_ne (sound : Sound w) (open' : w.summary.knowledge ≠ .disputed) :
    Agreed (firstFacts w.reports) w.reports w.verdict :=
  sound.knows.agreed (mt (disputed_iff sound).mpr open')

theorem kind_of_answer (sound : Sound w) (open' : w.summary.knowledge ≠ .disputed)
    {a : ProviderReportEntry} (mem : a ∈ w.reports) (terminal : a.kind.terminal = true) :
    ∃ b ∈ firstFacts w.reports .terminal, b.kind = a.kind ∧ w.summary.knowledge = b.kind := by
  have shows : (a.report.fact .terminal).isSome = true := by
    rw [ProviderReport.fact_terminal_isSome]
    exact terminal
  obtain ⟨b, first, same⟩ := exists_firstFacts mem shows
  have kinds : b.kind = a.kind := ProviderReport.kind_of_fact (firstFacts_terminal first) same
  exact ⟨b, first, kinds, ((agreed_of_ne sound open').terminal b first).knowledge⟩

theorem selected_eq (sound : Sound w) (open' : w.summary.knowledge ≠ .disputed) :
    w.summary.selectedReport =
      (w.reports.find? (·.kind = w.summary.knowledge)).map ProviderReportEntry.reference := by
  have agreed := agreed_of_ne sound open'
  have found : ∀ a ∈ w.reports, Picks a w.verdict →
      (∀ b ∈ w.reports, b.kind = a.kind → a.sequence ≤ b.sequence) →
      w.summary.selectedReport =
        (w.reports.find? (·.kind = w.summary.knowledge)).map ProviderReportEntry.reference := by
    intro a mem picks first
    have knowledge : w.summary.knowledge = a.kind := picks.knowledge
    have selected : w.summary.selectedReport = some a.reference := picks.selected
    rw [find?_eq_least sound.numbered.sequences mem (by simp [knowledge]), selected,
      Option.map_some]
    intro b inside same
    exact first b inside (by simpa [knowledge] using same)
  by_cases empty : firstFacts w.reports .terminal = []
  · cases agreed.unanswered empty with
    | inl nothing =>
      have selected : w.summary.selectedReport = none := nothing.2.selected
      rw [selected, nothing.1]
      rfl
    | inr some =>
      obtain ⟨a, leads, picks⟩ := some
      exact found a leads.mem picks leads.first
  · obtain ⟨a, rest, shape⟩ := List.exists_cons_of_ne_nil empty
    have first : a ∈ firstFacts w.reports .terminal := by simp [shape]
    refine found a (mem_of_mem_firstFacts first).1 (agreed.terminal a first) ?_
    intro b mem same
    refine head_firsts_le sound.numbered.sequences shape mem ?_
    have terminal := firstFacts_terminal first
    rw [ProviderReport.fact_terminal_isSome, ← ProviderReportEntry.kind, same]
    exact terminal

theorem referred (sound : Sound w) {reference : ProviderReportReference}
    (mem : reference ∈ w.summary.selectedReport.toList ++ w.summary.conflictingReports) :
    ∃ a ∈ w.reports, reference = a.reference := by
  by_cases disputed : w.summary.knowledge = .disputed
  · have verdict := sound.knows.disputed ((disputed_iff sound).mp disputed)
    obtain ⟨kind, a, b, found, stored, _⟩ := verdict.earliest
    have selected : w.summary.selectedReport = none := verdict.selected
    have stored : w.summary.conflictingReports = [a.reference, b.reference] := stored
    obtain ⟨inA, inB, _⟩ := firstTwo_disagree found
    simp only [selected, stored, Option.toList_none, List.nil_append, List.mem_cons,
      List.not_mem_nil, or_false] at mem
    cases mem with
    | inl left => exact ⟨a, inA, left⟩
    | inr right => exact ⟨b, inB, right⟩
  · have conflicting : w.summary.conflictingReports = [] :=
      (agreed_of_ne sound disputed).conflicting
    rw [conflicting, List.append_nil, selected_eq sound disputed, Option.mem_toList,
      Option.map_eq_some_iff] at mem
    obtain ⟨a, found, same⟩ := mem
    exact ⟨a, List.mem_of_find?_eq_some found, same.symm⟩

theorem checkReports_ok (sound : Sound w) : w.summary.checkReports = .ok () := by
  by_cases disputed : w.summary.knowledge = .disputed
  · have verdict := sound.knows.disputed ((disputed_iff sound).mp disputed)
    obtain ⟨kind, a, b, found, stored, _⟩ := verdict.earliest
    have selected : w.summary.selectedReport = none := verdict.selected
    have stored : w.summary.conflictingReports = [a.reference, b.reference] := stored
    have before := firstTwo_ordered sound.numbered found
    simp only [ProviderEffectSummary.checkReports, disputed, stored, selected, if_true,
      refuse_eq_ok]
    simpa [ProviderReportEntry.reference] using before
  · have conflicting : w.summary.conflictingReports = [] :=
      (agreed_of_ne sound disputed).conflicting
    rw [ProviderEffectSummary.checkReports, if_neg disputed, refuse_eq_ok]
    have selected := selected_eq sound disputed
    cases found : w.reports.find? (·.kind = w.summary.knowledge) with
    | some a =>
      have kind : a.kind = w.summary.knowledge := by simpa using List.find?_some found
      simp [conflicting, selected, found, ProviderReportEntry.reference, kind]
    | none =>
      rw [found, Option.map_none] at selected
      have unknown : w.summary.knowledge = .unknown := by
        cases sound.knows.current with
        | inl bad => exact absurd bad disputed
        | inr known =>
          cases known with
          | inl picked =>
            obtain ⟨a, _, picks, _⟩ := picked
            have picks : w.summary.selectedReport = some a.reference := picks
            rw [selected] at picks
            cases picks
          | inr empty => exact empty.knowledge
      simp [conflicting, selected, unknown]

theorem summary_valid (sound : Sound w) :
    w.summary.validate w.retained.entryCount w.retained.effectRevision = .ok () := by
  simp only [ProviderEffectSummary.validate, bind_eq_ok, exists_unit, List.forM_eq_forM,
    forM_eq_ok, ifSome_eq_ok]
  refine ⟨sound.digest, sound.recovery, ?_, ?_, checkReports_ok sound, ?_⟩
  · intro reference mem
    obtain ⟨a, inside, same⟩ := referred sound mem
    have bounds := sound.bounded a inside
    rw [same]
    refine ⟨sound.recorded a inside, ?_⟩
    rw [refuse_eq_ok, not_or, not_lt, not_lt]
    exact bounds
  · intro revision dated
    have past := sound.past revision dated
    rw [evidencePositive, refuse_eq_ok, refuse_eq_ok]
    omega
  · have terminal := knows_terminal_iff sound.knows
    rw [refuse_eq_ok]
    intro either
    cases either with
    | inl answered =>
      have shown : w.summary.knowledge.terminal = true :=
        terminal.mpr (Or.inr (sound.answered answered.1))
      rw [answered.2] at shown
      cases shown
    | inr unresolved =>
      have empty := sound.unresolved unresolved.1
      cases terminal.mp unresolved.2.1 with
      | inl two => exact unresolved.2.2 ((disputed_iff sound).mpr two)
      | inr some => exact some empty

theorem aggregated_of_sound (sound : Sound w) : Aggregated w := by
  constructor
  · rw [disputed_iff sound, two_iff]
  · intro open' a mem terminal
    rw [isTerminal_eq] at terminal
    obtain ⟨b, _, same, knowledge⟩ := kind_of_answer sound open' mem terminal
    exact knowledge.trans same
  · intro open' none
    have empty : firstFacts w.reports .terminal = [] := by
      refine unanswered_iff.mpr fun a mem => ?_
      rw [ProviderReportEntry.kind, ← isTerminal_eq]
      exact none a mem
    cases (agreed_of_ne sound open').unanswered empty with
    | inl nothing =>
      refine ⟨by simp [nothing.1], Or.inl ?_⟩
      exact nothing.2.knowledge
    | inr some =>
      obtain ⟨a, leads, picks⟩ := some
      have knowledge : w.summary.knowledge = a.kind := picks.knowledge
      exact ⟨knowledge ▸ leads.rank, Or.inr ⟨a, leads.mem, knowledge.symm⟩⟩
  · split
    next disputed => exact (sound.knows.disputed ((disputed_iff sound).mp disputed)).selected
    next open' => exact selected_eq sound open'
  · intro disputed
    obtain ⟨kind, a, b, found, stored, least⟩ :=
      (sound.knows.disputed ((disputed_iff sound).mp disputed)).earliest
    obtain ⟨inA, inB, disagree⟩ := firstTwo_disagree found
    refine ⟨a, inA, b, inB, stored, firstTwo_ordered sound.numbered found, disagree, ?_⟩
    intro c inC d inD before other
    exact noLater_of_disagree sound.numbered least inC inD before other
  · intro open'
    exact (agreed_of_ne sound open').conflicting
  · exact summary_valid sound

end Operation
end Ledgence.Providers
