import Ledgence.Providers.Verdicts

/-! One more report keeps what a projection knows: the terminal facts first, the references then. -/
open Kit Kit.Checked

namespace Ledgence.Providers
open Operation (nonterminalRank)

section FirstFacts

theorem firstFacts_grow (rs : List ProviderReportEntry) (entry : ProviderReportEntry)
    (kind : FactKind) :
    firstFacts (rs ++ [entry]) kind = firstFacts rs kind ∨
      firstFacts (rs ++ [entry]) kind = firstFacts rs kind ++ [entry] := by
  rw [firstFacts, firsts_concat]
  split
  · exact Or.inr rfl
  · exact Or.inl rfl

variable {rs : List ProviderReportEntry} {kind : FactKind} {a b entry : ProviderReportEntry}
  {v : Verdict}

theorem firstTwo_grow {p : ProviderReportEntry × ProviderReportEntry}
    (found : firstTwo (firstFacts rs kind) = some p) :
    firstTwo (firstFacts (rs ++ [entry]) kind) = some p := by
  cases firstFacts_grow rs entry kind with
  | inl same => rw [same, found]
  | inr longer => rw [longer, firstTwo_append found]

theorem firstTwo_ordered (numbered : Numbered rs)
    (found : firstTwo (firstFacts rs kind) = some (a, b)) : a.sequence < b.sequence := by
  obtain ⟨rest, shape⟩ := firstTwo_eq_some.mp found
  have ordered := firsts_ordered (·.report.fact kind) numbered.sequences
  rw [← firstFacts, shape] at ordered
  exact (List.pairwise_cons.mp ordered).1 b (by simp)

theorem firstFacts_terminal (mem : a ∈ firstFacts rs .terminal) : a.kind.terminal = true := by
  have shows := isSome_of_mem_firsts mem
  rwa [ProviderReport.fact_terminal_isSome] at shows

theorem unanswered_iff :
    firstFacts rs .terminal = [] ↔ ∀ a ∈ rs, a.kind.terminal = false := by
  constructor
  · intro empty a mem
    by_contra terminal
    have shows : (a.report.fact .terminal).isSome = true := by
      rw [ProviderReport.fact_terminal_isSome]
      simpa [ProviderReportEntry.kind] using terminal
    obtain ⟨b, first, _⟩ := exists_firstFacts mem shows
    rw [empty] at first
    cases first
  · intro none
    by_contra some
    obtain ⟨a, rest, shape⟩ := List.exists_cons_of_ne_nil some
    have first : a ∈ firstFacts rs .terminal := by simp [shape]
    have terminal := firstFacts_terminal first
    rw [none a (mem_of_mem_firsts first)] at terminal
    cases terminal

theorem rank_of_terminal {kind : ProviderKnowledgeKind} (terminal : kind.terminal = true) :
    nonterminalRank kind = 3 := by
  cases kind <;> simp_all [ProviderKnowledgeKind.terminal, nonterminalRank]

theorem rank_lt_of_nonterminal {kind : ProviderKnowledgeKind} (nonterminal : kind.terminal = false) :
    nonterminalRank kind < 3 := by
  cases kind <;> simp_all [ProviderKnowledgeKind.terminal, nonterminalRank]

/-- Nothing but a terminal answer makes the knowledge terminal, as long as nothing disagrees. -/
theorem Agreed.nonterminal (agreed : Agreed (firstFacts rs) rs v)
    (empty : firstFacts rs .terminal = []) : v.knowledge.terminal = false := by
  cases agreed.unanswered empty with
  | inl none =>
    rw [none.2.knowledge]
    rfl
  | inr some =>
    obtain ⟨a, leads, picks⟩ := some
    rw [picks.knowledge]
    exact unanswered_iff.mp empty a leads.mem

theorem Leads.concat (leads : Leads a rs) (rank : nonterminalRank entry.kind ≤ nonterminalRank a.kind)
    (later : ∀ b ∈ rs, b.sequence < entry.sequence) : Leads a (rs ++ [entry]) := by
  constructor
  · exact List.mem_append_left _ leads.mem
  · intro b mem
    cases List.mem_append.mp mem with
    | inl old => exact leads.rank b old
    | inr last =>
      cases List.mem_singleton.mp last
      exact rank
  · intro b mem same
    cases List.mem_append.mp mem with
    | inl old => exact leads.first b old same
    | inr last =>
      cases List.mem_singleton.mp last
      exact Nat.le_of_lt (later a leads.mem)

theorem Leads.overtakes (below : ∀ b ∈ rs, nonterminalRank b.kind < nonterminalRank entry.kind) :
    Leads entry (rs ++ [entry]) := by
  constructor
  · simp
  · intro b mem
    cases List.mem_append.mp mem with
    | inl old => exact Nat.le_of_lt (below b old)
    | inr last =>
      cases List.mem_singleton.mp last
      exact Nat.le_refl _
  · intro b mem same
    cases List.mem_append.mp mem with
    | inl old =>
      have := below b old
      rw [same] at this
      omega
    | inr last =>
      cases List.mem_singleton.mp last
      exact Nat.le_refl _

def halfway (rs : List ProviderReportEntry) (entry : ProviderReportEntry) (kind : FactKind) :
    FactKind → List ProviderReportEntry :=
  Function.update (firstFacts rs) kind (firstFacts (rs ++ [entry]) kind)

@[simp] theorem halfway_self : halfway rs entry kind kind = firstFacts (rs ++ [entry]) kind :=
  Function.update_self ..

theorem halfway_of_ne {k : FactKind} (ne : k ≠ kind) :
    halfway rs entry kind k = firstFacts rs k :=
  Function.update_of_ne ne ..

end FirstFacts

namespace Operation
variable {w w' : Operation} {rs : List ProviderReportEntry} {entry : ProviderReportEntry}

theorem agree_terminal (terminal : entry.kind.terminal = true)
    (knows : Knows (firstFacts rs) rs w.verdict)
    (few : firstTwo (firstFacts (rs ++ [entry]) .terminal) = none) :
    Knows (halfway rs entry .terminal) (rs ++ [entry])
      (if w.summary.knowledge.terminal = true then w else w.select entry).verdict := by
  have before : firstTwo (firstFacts rs .terminal) = none := by
    cases found : firstTwo (firstFacts rs .terminal) with
    | none => rfl
    | some p =>
      rw [firstTwo_grow found] at few
      cases few
  have pairs : ∀ k, firstTwo (firstFacts rs k) = firstTwo (halfway rs entry .terminal k) := by
    intro k
    cases k with
    | terminal => rw [halfway_self, before, few]
    | reference => rw [halfway_of_ne (by simp)]
  constructor
  · intro two
    obtain ⟨knowledge, selected, current, earliest⟩ := knows.disputed ((two_congr pairs).mpr two)
    have terminal : w.summary.knowledge.terminal = true := by
      have knowledge : w.summary.knowledge = .disputed := knowledge
      rw [knowledge]
      rfl
    rw [if_pos terminal]
    exact ⟨knowledge, selected, current, by simpa only [pairs] using earliest⟩
  · intro one
    have agreed := knows.agreed (mt (two_congr pairs).mp one)
    have shows : (entry.report.fact .terminal).isSome = true := by
      rw [ProviderReport.fact_terminal_isSome]
      exact terminal
    have inside : entry ∈ rs ++ [entry] := by simp
    obtain ⟨x, first, _⟩ := exists_firstFacts inside shows
    have only : firstFacts (rs ++ [entry]) .terminal = [x] := by
      have one : ¬ 2 ≤ (firstFacts (rs ++ [entry]) .terminal).length := by
        rw [← firstTwo_isSome, few]
        simp
      have := List.length_pos_of_mem first
      obtain ⟨y, shape⟩ := List.length_eq_one_iff.mp (by omega :
        (firstFacts (rs ++ [entry]) .terminal).length = 1)
      rw [shape, List.mem_singleton] at first
      rw [shape, first]
    have answered : ∀ v : Verdict, v.conflicting = [] → Picks x v →
        Agreed (halfway rs entry .terminal) (rs ++ [entry]) v := by
      intro v conflicting picks
      refine ⟨conflicting, ?_, ?_⟩
      · intro a mem
        rw [halfway_self, only, List.mem_singleton] at mem
        exact mem ▸ picks
      · intro empty
        rw [halfway_self, only] at empty
        cases empty
    -- Either this is the fact known before, or it is the first one.
    by_cases empty : firstFacts rs .terminal = []
    · have nonterminal : w.summary.knowledge.terminal = false := agreed.nonterminal empty
      rw [if_neg (by simp [nonterminal])]
      have new : x = entry := by
        cases firstFacts_grow rs entry .terminal with
        | inl same =>
          rw [only, empty] at same
          cases same
        | inr longer =>
          rw [only, empty] at longer
          simpa using longer
      exact answered _ agreed.conflicting (new ▸ picks_select)
    · have old : x ∈ firstFacts rs .terminal := by
        cases firstFacts_grow rs entry .terminal with
        | inl same => simp [← same, only]
        | inr longer =>
          rw [only] at longer
          have := congrArg List.length longer
          simp at this
          exact absurd this empty
      have picks := agreed.terminal x old
      have terminal : w.summary.knowledge.terminal = true := by
        have knowledge : w.summary.knowledge = x.kind := picks.knowledge
        rw [knowledge]
        exact firstFacts_terminal old
      rw [if_pos terminal]
      exact answered _ agreed.conflicting picks

theorem aggregateTerminal_knows (numbered : Numbered (rs ++ [entry]))
    (terminal : entry.kind.terminal = true) (knows : Knows (firstFacts rs) rs w.verdict)
    (accepted : w.aggregateTerminal entry
      (((firstFacts (rs ++ [entry]) .terminal).take 2).map ProviderReportEntry.reference) =
        .ok w') :
    Knows (halfway rs entry .terminal) (rs ++ [entry]) w'.verdict := by
  cases pair : firstTwo (firstFacts (rs ++ [entry]) .terminal) with
  | none =>
    have few : ¬ 2 ≤ (firstFacts (rs ++ [entry]) .terminal).length := by
      rw [← firstTwo_isSome, pair]
      simp
    rw [aggregateTerminal, if_neg (by simp; omega)] at accepted
    simp only [pure_eq_ok] at accepted
    rw [← accepted, verdict_handleTerminal]
    exact agree_terminal terminal knows pair
  | some p =>
    obtain ⟨a, b⟩ := p
    rw [aggregateTerminal, take_two pair, if_pos (by simp)] at accepted
    simp only [bind_eq_ok, pure_eq_ok] at accepted
    obtain ⟨next, disputes, handled⟩ := accepted
    rw [← handled, verdict_handleTerminal]
    have disputed : Disputed (halfway rs entry .terminal) next.verdict := by
      refine dispute_disputed .terminal knows (firstTwo_ordered numbered pair) ?_ ?_ ?_
        disputes
      · rw [halfway_self, pair]
      · intro k ne
        rw [halfway_of_ne ne]
      · intro q known
        have grown : firstTwo (firstFacts (rs ++ [entry]) .terminal) = some q :=
          firstTwo_grow known
        rw [pair] at grown
        exact (Option.some.inj grown).symm
    exact ⟨fun _ => disputed, fun one => absurd ⟨.terminal, by rw [halfway_self, pair]; rfl⟩ one⟩

theorem aggregateNonterminal_knows (numbered : Numbered (rs ++ [entry]))
    (nonterminal : entry.kind.terminal = false) (knows : Knows (firstFacts rs) rs w.verdict) :
    Knows (firstFacts rs) (rs ++ [entry]) (w.aggregateNonterminal entry).verdict := by
  have later : ∀ b ∈ rs, b.sequence < entry.sequence := fun b mem =>
    ((List.pairwise_append.mp numbered).2.2 b mem entry (by simp)).1
  have low := rank_lt_of_nonterminal nonterminal
  have settled : w.summary.knowledge.terminal = true → w.aggregateNonterminal entry = w := by
    intro terminal
    have high := rank_of_terminal terminal
    rw [aggregateNonterminal, if_neg]
    intro better
    cases better with
    | inl higher => omega
    | inr unknown =>
      rw [unknown.1] at terminal
      cases terminal
  constructor
  · intro two
    have disputed := knows.disputed two
    have knowledge : w.summary.knowledge = .disputed := disputed.knowledge
    rw [settled (by rw [knowledge]; rfl)]
    exact disputed
  · intro one
    have agreed := knows.agreed one
    by_cases empty : firstFacts rs .terminal = []
    · refine ⟨?_, ?_, fun _ => ?_⟩
      · have conflicting : w.summary.conflictingReports = [] := agreed.conflicting
        rw [aggregateNonterminal]
        split <;> exact conflicting
      · intro a mem
        rw [empty] at mem
        cases mem
      · have ranked : nonterminalRank w.summary.knowledge < nonterminalRank entry.kind ∨
            (w.summary.knowledge = .unknown ∧ w.summary.selectedReport = none) →
            (∀ b ∈ rs, nonterminalRank b.kind < nonterminalRank entry.kind) →
            (rs ++ [entry] = [] ∧ Empty (w.aggregateNonterminal entry).verdict) ∨
              ∃ a, Leads a (rs ++ [entry]) ∧ Picks a (w.aggregateNonterminal entry).verdict := by
          intro better below
          rw [aggregateNonterminal, if_pos better]
          exact Or.inr ⟨entry, Leads.overtakes below, picks_select⟩
        cases agreed.unanswered empty with
        | inl none =>
          exact ranked (Or.inr ⟨none.2.knowledge, none.2.selected⟩) (by simp [none.1])
        | inr some =>
          obtain ⟨a, leads, picks⟩ := some
          have knowledge : w.summary.knowledge = a.kind := picks.knowledge
          have selected : w.summary.selectedReport = Option.some a.reference := picks.selected
          by_cases higher : nonterminalRank a.kind < nonterminalRank entry.kind
          · refine ranked (Or.inl (knowledge ▸ higher)) fun b mem => ?_
            have := leads.rank b mem
            omega
          · rw [aggregateNonterminal, if_neg (by simp [knowledge, selected]; omega)]
            exact Or.inr ⟨a, leads.concat (by omega) later, picks⟩
    · obtain ⟨a, rest, shape⟩ := List.exists_cons_of_ne_nil empty
      have first : a ∈ firstFacts rs .terminal := by simp [shape]
      have knowledge : w.summary.knowledge = a.kind := (agreed.terminal a first).knowledge
      rw [settled (knowledge ▸ firstFacts_terminal first)]
      exact ⟨agreed.conflicting, agreed.terminal, fun none => absurd none empty⟩

theorem reference_knows {found : List ProviderReportReference} (numbered : Numbered (rs ++ [entry]))
    (knows : Knows (halfway rs entry .terminal) (rs ++ [entry]) w.verdict)
    (reports : found = if (entry.report.fact .reference).isSome = true
      then ((firstFacts (rs ++ [entry]) .reference).take 2).map ProviderReportEntry.reference
      else [])
    (accepted : (if found.length = 2 then w.dispute found else .ok w) = .ok w') :
    Knows (firstFacts (rs ++ [entry])) (rs ++ [entry]) w'.verdict := by
  have unchanged : found.length ≠ 2 →
      firstTwo (firstFacts rs .reference) = firstTwo (firstFacts (rs ++ [entry]) .reference) →
      Knows (firstFacts (rs ++ [entry])) (rs ++ [entry]) w'.verdict := by
    intro few same
    rw [if_neg few, Except.ok.injEq] at accepted
    rw [← accepted]
    refine knows.congr (fun k => ?_) halfway_self
    cases k with
    | terminal => rw [halfway_self]
    | reference => rw [halfway_of_ne (by simp), same]
  cases shows : entry.report.fact .reference with
  | none => exact unchanged (by simp [reports, shows]) (by rw [firstFacts_concat_none shows])
  | some bytes =>
    rw [shows, Option.isSome_some, if_pos rfl] at reports
    cases pair : firstTwo (firstFacts (rs ++ [entry]) .reference) with
    | none =>
      have few : ¬ 2 ≤ (firstFacts (rs ++ [entry]) .reference).length := by
        rw [← firstTwo_isSome, pair]
        simp
      refine unchanged (by simp [reports]; omega) ?_
      cases before : firstTwo (firstFacts rs .reference) with
      | none => exact pair.symm
      | some p => rw [firstTwo_grow before]
    | some p =>
      obtain ⟨a, b⟩ := p
      rw [take_two pair] at reports
      rw [reports, if_pos (by simp)] at accepted
      have disputed : Disputed (firstFacts (rs ++ [entry])) w'.verdict := by
        refine dispute_disputed .reference knows (firstTwo_ordered numbered pair) pair ?_ ?_
          accepted
        · intro k ne
          cases k with
          | terminal => rw [halfway_self]
          | reference => exact absurd rfl ne
        · intro q known
          rw [halfway_of_ne (by simp)] at known
          have grown : firstTwo (firstFacts (rs ++ [entry]) .reference) = some q :=
            firstTwo_grow known
          rw [pair] at grown
          exact (Option.some.inj grown).symm
      exact ⟨fun _ => disputed, fun one => absurd ⟨.reference, by rw [pair]; rfl⟩ one⟩

theorem aggregate_ok {sha256 : List Char → String}
    (accepted : w.aggregate sha256 entry = .ok w') :
    ∃ newReference references w₁ newTerminal terminals w₂ w₃ w₄,
      (w.learnReference entry.report).recordReport sha256 .reference entry =
        .ok (newReference, references, w₁) ∧
      w₁.recordReport sha256 .terminal entry = .ok (newTerminal, terminals, w₂) ∧
      (if entry.report.knowledge.isTerminal = true then w₂.aggregateTerminal entry terminals
        else .ok (w₂.aggregateNonterminal entry)) = .ok w₃ ∧
      (if references.length = 2 then w₃.dispute references else .ok w₃) = .ok w₄ ∧
      (w₄.contradict entry newTerminal (newReference && references.length = 2)).refreshCandidate =
        .ok w' := by
  simp only [aggregate, bind_eq_ok, Prod.exists] at accepted
  obtain ⟨newReference, references, w₁, first, newTerminal, terminals, w₂, second, rest⟩ := accepted
  refine ⟨newReference, references, w₁, newTerminal, terminals, w₂, ?_⟩
  split at rest
  next terminal =>
    simp only [bind_eq_ok] at rest
    obtain ⟨w₃, third, rest⟩ := rest
    rw [if_pos terminal]
    split at rest
    next conflict =>
      simp only [bind_eq_ok] at rest
      obtain ⟨w₄, fourth, last⟩ := rest
      exact ⟨w₃, w₄, first, second, third, by rwa [if_pos conflict], last⟩
    next none => exact ⟨w₃, w₃, first, second, third, by rw [if_neg none], rest⟩
  next nonterminal =>
    rw [if_neg nonterminal]
    rw [ok_bind] at rest
    split at rest
    next conflict =>
      simp only [bind_eq_ok] at rest
      obtain ⟨w₄, fourth, last⟩ := rest
      exact ⟨_, w₄, first, second, rfl, by rwa [if_pos conflict], last⟩
    next none => exact ⟨_, _, first, second, rfl, by rw [if_neg none], rest⟩

end Operation
end Ledgence.Providers
