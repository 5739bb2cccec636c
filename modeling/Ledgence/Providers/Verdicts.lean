import Ledgence.Kit.Firsts
import Ledgence.Providers.Operations

/-! The stored facts are the first reports of each fact. -/
open Kit Kit.Checked

namespace Ledgence.Providers

/- What equal bytes say. -/

theorem same_of_canonical {v w : Json} (same : canonicalJsonBytes v = canonicalJsonBytes w) :
    Json.Same v w :=
  Json.same_of_sortObjects_eq (Json.text_injective same)

theorem ProviderKnowledgeKind.name_injective : Function.Injective name := by
  intro a b same
  cases a <;> cases b <;> simp_all [name]

theorem isTerminal_eq (knowledge : ProviderKnowledge) :
    knowledge.isTerminal = knowledge.kind.terminal := by
  cases knowledge <;> rfl

theorem kind_ne_disputed (knowledge : ProviderKnowledge) : knowledge.kind ≠ .disputed := by
  cases knowledge <;> simp [ProviderKnowledge.kind]

namespace ProviderReport
variable {a b : ProviderReport}

theorem fact_terminal_isSome :
    (a.fact .terminal).isSome = a.knowledge.kind.terminal := by
  rw [fact, isTerminal_eq]
  cases a.knowledge.kind.terminal <;> rfl

theorem fact_reference_isSome : (a.fact .reference).isSome = a.providerReference.isSome := by
  simp [fact]

theorem fact_reference_eq_iff :
    a.fact .reference = b.fact .reference ↔ a.providerReference = b.providerReference := by
  simp only [fact]
  cases a.providerReference with
  | none => cases b.providerReference <;> simp
  | some x =>
    cases b.providerReference with
    | none => simp
    | some y =>
      simp only [Option.map_some, Option.some.injEq]
      constructor
      · intro same
        have alike := same_of_canonical same
        simp only [Json.Same, Json.SameItems, Json.str.injEq] at alike
        exact alike.2.1.symm
      · intro same
        rw [same]

theorem fact_kinds_differ {bytes : List Char} {k l : FactKind}
    (left : a.fact k = some bytes) (right : b.fact l = some bytes) : k = l := by
  have apart : ∀ x y : ProviderReport, x.fact .terminal = some bytes →
      x.fact .terminal = y.fact .reference → False := by
    intro x y shown same
    rw [same] at shown
    simp only [fact, Option.map_eq_some_iff] at same shown
    split at same
    next terminal =>
      obtain ⟨value, reference, _⟩ := shown
      rw [reference, Option.map_some, Option.some.injEq] at same
      have alike := same_of_canonical same
      simp [Json.Same, Json.SameItems] at alike
    next =>
      obtain ⟨value, reference, _⟩ := shown
      simp [reference] at same
  cases k with
  | terminal =>
    cases l with
    | terminal => rfl
    | reference => exact (apart a b left (left.trans right.symm)).elim
  | reference =>
    cases l with
    | terminal => exact (apart b a right (right.trans left.symm)).elim
    | reference => rfl

theorem kind_of_fact (terminal : a.knowledge.kind.terminal = true)
    (same : a.fact .terminal = b.fact .terminal) : a.knowledge.kind = b.knowledge.kind := by
  have other : b.knowledge.kind.terminal = true := by
    rw [← fact_terminal_isSome, ← same, fact_terminal_isSome, terminal]
  simp only [fact, isTerminal_eq, terminal, other, if_true, Option.some.injEq] at same
  have alike := same_of_canonical same
  simp only [Json.Same, Json.SameItems] at alike
  have kinds := alike.2.1
  simp only [ProviderKnowledge.toJson, Json.object] at kinds
  have inside : ("kind", Json.str a.knowledge.kind.name) ∈
      (("kind", some (Json.str a.knowledge.kind.name)) :: a.knowledge.fields).filterMap
        fun m => m.2.map (m.1, ·) := by
    simp
  obtain ⟨found, shown, alike⟩ := Json.Same.member kinds inside
  simp only [Json.Same] at alike
  rw [alike] at shown
  apply ProviderKnowledgeKind.name_injective
  cases known : b.knowledge <;>
    simp_all [ProviderKnowledge.fields, ProviderKnowledge.kind]

end ProviderReport

/- The stored rows. -/

def firstFacts (rs : List ProviderReportEntry) (kind : FactKind) : List ProviderReportEntry :=
  firsts (·.report.fact kind) rs

section FirstFacts
variable {rs : List ProviderReportEntry} {kind : FactKind} {a entry : ProviderReportEntry}

theorem exists_firstFacts (mem : a ∈ rs) (shows : (a.report.fact kind).isSome = true) :
    ∃ b ∈ firstFacts rs kind, b.report.fact kind = a.report.fact kind :=
  exists_firsts mem shows

theorem mem_of_mem_firstFacts (first : a ∈ firstFacts rs kind) :
    a ∈ rs ∧ (a.report.fact kind).isSome = true := by
  rw [firstFacts] at first
  have shows := isSome_of_mem_firsts first
  exact ⟨mem_of_mem_firsts first, shows⟩

theorem firstFacts_concat_none (silent : entry.report.fact kind = none) :
    firstFacts (rs ++ [entry]) kind = firstFacts rs kind :=
  firsts_concat_none silent

theorem firstFacts_concat_old (mem : a ∈ rs)
    (same : a.report.fact kind = entry.report.fact kind) :
    firstFacts (rs ++ [entry]) kind = firstFacts rs kind :=
  firsts_concat_old mem same

theorem firstFacts_concat_new (shows : (entry.report.fact kind).isSome = true)
    (new : ∀ a ∈ rs, a.report.fact kind ≠ entry.report.fact kind) :
    firstFacts (rs ++ [entry]) kind = firstFacts rs kind ++ [entry] :=
  firsts_concat_new shows new

end FirstFacts

def Numbered (rs : List ProviderReportEntry) : Prop :=
  rs.Pairwise fun a b => a.sequence < b.sequence ∧ a.recordedRevision < b.recordedRevision

theorem Numbered.sequences {rs : List ProviderReportEntry} (numbered : Numbered rs) :
    rs.Pairwise fun a b => a.sequence < b.sequence :=
  numbered.imp And.left

theorem Numbered.concat {rs : List ProviderReportEntry} {entry : ProviderReportEntry}
    (numbered : Numbered rs)
    (later : ∀ a ∈ rs, a.sequence < entry.sequence ∧ a.recordedRevision < entry.recordedRevision) :
    Numbered (rs ++ [entry]) := by
  rw [Numbered, List.pairwise_append]
  exact ⟨numbered, List.pairwise_singleton _ _, by simpa using later⟩

def factRow (kind : FactKind) (entry : ProviderReportEntry) : FactRow :=
  ⟨kind, (entry.report.fact kind).getD [], entry.recordedRevision, entry.reference⟩

def Listed (facts : List FactRow) (rs : FactKind → List ProviderReportEntry) : Prop :=
  ∀ kind, facts.filter (·.kind = kind) = (firstFacts (rs kind) kind).map (factRow kind)

theorem Listed.shown {facts : List FactRow} {rs : FactKind → List ProviderReportEntry}
    (listed : Listed facts rs) {row : FactRow} (mem : row ∈ facts) :
    ∃ a ∈ rs row.kind, a.report.fact row.kind = some row.bytes := by
  have inside : row ∈ facts.filter (·.kind = row.kind) := by simp [mem]
  rw [listed row.kind, List.mem_map] at inside
  obtain ⟨a, first, same⟩ := inside
  obtain ⟨bytes, shows⟩ := Option.isSome_iff_exists.mp (isSome_of_mem_firsts first)
  have equal : bytes = row.bytes := by
    have := congrArg FactRow.bytes same
    simpa [factRow, shows] using this
  exact ⟨a, mem_of_mem_firsts first, equal ▸ shows⟩

theorem Listed.contains {facts : List FactRow} {rs : FactKind → List ProviderReportEntry}
    (listed : Listed facts rs) {kind : FactKind} {a : ProviderReportEntry} {bytes : List Char}
    (mem : a ∈ rs kind) (shows : a.report.fact kind = some bytes) :
    ∃ row ∈ facts, row.bytes = bytes := by
  obtain ⟨b, first, same⟩ :=
    exists_firstFacts mem (by simp [shows] : (a.report.fact kind).isSome = true)
  have inside : factRow kind b ∈ facts.filter (·.kind = kind) := by
    rw [listed kind]
    exact List.mem_map_of_mem first
  refine ⟨factRow kind b, (List.mem_filter.mp inside).1, ?_⟩
  have same : b.report.fact kind = some bytes := same.trans shows
  simp [factRow, same]

namespace Operation
variable {sha256 : List Char → String} {w w' : Operation} {kind : FactKind}
  {entry : ProviderReportEntry} {fresh : Bool} {found : List ProviderReportReference}
  {rs : FactKind → List ProviderReportEntry}

/-- Rows were inserted in the order of their revisions, so sorting changes nothing. -/
theorem firstReports_eq (listed : Listed w.facts rs) (numbered : Numbered (rs kind)) :
    w.firstReports kind =
      ((firstFacts (rs kind) kind).take 2).map ProviderReportEntry.reference := by
  have sorted : ((firstFacts (rs kind) kind).map (factRow kind)).Pairwise
      (·.firstSeenRevision ≤ ·.firstSeenRevision) := by
    rw [List.pairwise_map]
    refine (numbered.sublist (firsts_sublist _)).imp ?_
    intro a b before
    exact Nat.le_of_lt before.2
  rw [firstReports, listed kind, sorted.insertionSort_eq, ← List.map_take, List.map_map]
  rfl

theorem listed_record (listed : Listed w.facts rs) {bytes : List Char}
    (shows : entry.report.fact kind = some bytes)
    (revision : entry.recordedRevision = w.retained.effectRevision)
    (accepted : w.recordFact sha256 kind bytes entry.reference = .ok (fresh, found, w')) :
    w' = { w with facts := w'.facts } ∧
      Listed w'.facts (Function.update rs kind (rs kind ++ [entry])) ∧
      found = w'.firstReports kind := by
  simp only [recordFact] at accepted
  split at accepted
  next old lookup =>
    simp only [bind_eq_ok, refuse_eq_ok, exists_unit, pure_eq_ok, not_not, Prod.mk.injEq]
      at accepted
    obtain ⟨same, _, reports, unchanged⟩ := accepted
    obtain ⟨a, mem, shown⟩ := listed.shown (List.mem_of_find?_eq_some lookup)
    have kinds := ProviderReport.fact_kinds_differ (same ▸ shown) shows
    rw [kinds] at mem shown
    refine ⟨by rw [← unchanged], ?_, by rw [← reports, unchanged]⟩
    rw [← unchanged]
    intro k
    by_cases here : k = kind
    · rw [here, Function.update_self, listed kind,
        firstFacts_concat_old mem (shown.trans (by rw [shows, same]))]
    · rw [Function.update_of_ne here, listed k]
  next absent =>
    simp only [pure_eq_ok, Prod.mk.injEq] at accepted
    obtain ⟨_, reports, grown⟩ := accepted
    have new : ∀ a ∈ rs kind, a.report.fact kind ≠ entry.report.fact kind := by
      intro a mem same
      obtain ⟨row, inside, equal⟩ := listed.contains mem (same.trans shows)
      have other := List.find?_eq_none.mp absent row inside
      simp [equal] at other
    refine ⟨by rw [← grown], ?_, by rw [← reports, grown]⟩
    rw [← grown]
    intro k
    rw [List.filter_append]
    by_cases here : k = kind
    · rw [here, Function.update_self, listed kind,
        firstFacts_concat_new (by simp [shows]) new, List.map_append]
      simp [factRow, shows, revision]
    · rw [Function.update_of_ne here, listed k]
      simp [Ne.symm here]

theorem recordReport_spec (listed : Listed w.facts rs)
    (numbered : Numbered (rs kind ++ [entry]))
    (revision : entry.recordedRevision = w.retained.effectRevision)
    (accepted : w.recordReport sha256 kind entry = .ok (fresh, found, w')) :
    w' = { w with facts := w'.facts } ∧
      Listed w'.facts (Function.update rs kind (rs kind ++ [entry])) ∧
      found = if (entry.report.fact kind).isSome = true
        then ((firstFacts (rs kind ++ [entry]) kind).take 2).map ProviderReportEntry.reference
        else [] := by
  rw [recordReport] at accepted
  split at accepted
  next bytes shows =>
    obtain ⟨frame, after, reports⟩ := listed_record listed shows revision accepted
    refine ⟨frame, after, ?_⟩
    rw [reports, firstReports_eq after (by rwa [Function.update_self]), Function.update_self]
    simp [shows]
  next silent =>
    simp only [Except.ok.injEq, Prod.mk.injEq] at accepted
    obtain ⟨_, reports, unchanged⟩ := accepted
    refine ⟨by rw [← unchanged], ?_, by simp [silent, reports.symm]⟩
    rw [← unchanged]
    intro k
    by_cases here : k = kind
    · rw [here, Function.update_self, listed kind, firstFacts_concat_none silent]
    · rw [Function.update_of_ne here, listed k]

end Operation
end Ledgence.Providers

/-! What a projection says about an operation is decided by the first reports of each fact. -/

namespace Ledgence.Providers

structure Verdict where
  knowledge : ProviderKnowledgeKind
  selected : Option ProviderReportReference
  conflicting : List ProviderReportReference
  current : Option ProviderReportEntry

def Operation.verdict (w : Operation) : Verdict :=
  ⟨w.summary.knowledge, w.summary.selectedReport, w.summary.conflictingReports,
    w.state.currentReport⟩

def NoLater (p q : ProviderReportEntry × ProviderReportEntry) : Prop :=
  p.2.sequence < q.2.sequence ∨ (p.2.sequence = q.2.sequence ∧ p.1.sequence ≤ q.1.sequence)

theorem NoLater.refl (p : ProviderReportEntry × ProviderReportEntry) : NoLater p p :=
  Or.inr ⟨rfl, Nat.le_refl _⟩

def Two (facts : FactKind → List ProviderReportEntry) : Prop :=
  ∃ kind, (firstTwo (facts kind)).isSome = true

structure Disputed (facts : FactKind → List ProviderReportEntry) (v : Verdict) : Prop where
  knowledge : v.knowledge = .disputed
  selected : v.selected = none
  current : v.current = none
  earliest : ∃ kind a b, firstTwo (facts kind) = some (a, b) ∧
    v.conflicting = [a.reference, b.reference] ∧
    ∀ kind' p, firstTwo (facts kind') = some p → NoLater (a, b) p

structure Picks (entry : ProviderReportEntry) (v : Verdict) : Prop where
  knowledge : v.knowledge = entry.kind
  selected : v.selected = some entry.reference
  current : v.current = some entry

structure Empty (v : Verdict) : Prop where
  knowledge : v.knowledge = .unknown
  selected : v.selected = none
  current : v.current = none

open Operation (nonterminalRank)

structure Leads (entry : ProviderReportEntry) (rs : List ProviderReportEntry) : Prop where
  mem : entry ∈ rs
  rank : ∀ a ∈ rs, nonterminalRank a.kind ≤ nonterminalRank entry.kind
  first : ∀ a ∈ rs, a.kind = entry.kind → entry.sequence ≤ a.sequence

structure Agreed (facts : FactKind → List ProviderReportEntry) (rs : List ProviderReportEntry)
    (v : Verdict) : Prop where
  conflicting : v.conflicting = []
  terminal : ∀ a ∈ facts .terminal, Picks a v
  unanswered : facts .terminal = [] → (rs = [] ∧ Empty v) ∨ ∃ a, Leads a rs ∧ Picks a v

structure Knows (facts : FactKind → List ProviderReportEntry) (rs : List ProviderReportEntry)
    (v : Verdict) : Prop where
  disputed : Two facts → Disputed facts v
  agreed : ¬ Two facts → Agreed facts rs v

section Knowing
variable {facts grown : FactKind → List ProviderReportEntry} {rs : List ProviderReportEntry}
  {v : Verdict} {entry : ProviderReportEntry} {kind : FactKind}

theorem two_congr (same : ∀ kind, firstTwo (facts kind) = firstTwo (grown kind)) :
    Two facts ↔ Two grown := by
  simp only [Two, same]

theorem Knows.congr (knows : Knows facts rs v)
    (same : ∀ kind, firstTwo (facts kind) = firstTwo (grown kind))
    (terminal : facts .terminal = grown .terminal) : Knows grown rs v := by
  constructor
  · intro two
    obtain ⟨knowledge, selected, current, earliest⟩ := knows.disputed ((two_congr same).mpr two)
    exact ⟨knowledge, selected, current, by simpa only [same] using earliest⟩
  · intro one
    have agreed := knows.agreed (mt (two_congr same).mp one)
    exact ⟨agreed.conflicting, terminal ▸ agreed.terminal, terminal ▸ agreed.unanswered⟩

/-- The conflicting reports of a projection are the earliest pair, or there are none. -/
theorem Knows.conflicting (knows : Knows facts rs v) :
    (v.conflicting = [] ∧ ∀ kind, firstTwo (facts kind) = none) ∨
      ∃ kind a b, firstTwo (facts kind) = some (a, b) ∧
        v.conflicting = [a.reference, b.reference] ∧
        ∀ kind' p, firstTwo (facts kind') = some p → NoLater (a, b) p := by
  by_cases two : Two facts
  · exact Or.inr (knows.disputed two).earliest
  · refine Or.inl ⟨(knows.agreed two).conflicting, fun kind => ?_⟩
    simpa [Two] using fun some => two ⟨kind, some⟩

theorem Knows.current (knows : Knows facts rs v) :
    v.knowledge = .disputed ∨ (∃ a, Picks a v) ∨ Empty v := by
  by_cases two : Two facts
  · exact Or.inl (knows.disputed two).knowledge
  · have agreed := knows.agreed two
    cases answers : facts .terminal with
    | nil =>
      cases agreed.unanswered answers with
      | inl none => exact Or.inr (Or.inr none.2)
      | inr some =>
        obtain ⟨a, _, picks⟩ := some
        exact Or.inr (Or.inl ⟨a, picks⟩)
    | cons a rest => exact Or.inr (Or.inl ⟨a, agreed.terminal a (by simp [answers])⟩)

end Knowing

namespace Operation
variable {w w' : Operation} {facts grown : FactKind → List ProviderReportEntry}
  {rs : List ProviderReportEntry} {entry : ProviderReportEntry}

/- Steps that reports decide nothing about. -/

@[simp] theorem verdict_handleTerminal : w.handleTerminal.verdict = w.verdict := by
  rw [handleTerminal]
  split <;> rfl

@[simp] theorem verdict_learnReference {report : ProviderReport} :
    (w.learnReference report).verdict = w.verdict := by
  rw [learnReference]
  split
  · split <;> rfl
  · rfl

@[simp] theorem verdict_contradict {first conflict : Bool} :
    (w.contradict entry first conflict).verdict = w.verdict := by
  rw [contradict]
  split
  · split <;> rfl
  · rfl

@[simp] theorem verdict_stopRecovery {reason : ProviderRecoveryStopReason} :
    (w.stopRecovery reason).verdict = w.verdict := rfl

theorem picks_select : Picks entry (w.select entry).verdict := ⟨rfl, rfl, rfl⟩

/- The disputes. -/

theorem earlier_pair {a b c d : ProviderReportEntry} :
    earlier [a.reference, b.reference] [c.reference, d.reference] = true ↔
      ¬ NoLater (c, d) (a, b) := by
  simp only [earlier, Bool.or_eq_true, Bool.and_eq_true, decide_eq_true_eq]
  simp only [NoLater, ProviderReportEntry.reference]
  omega

theorem dispute_disputed {a b : ProviderReportEntry} (kind : FactKind)
    (knows : Knows facts rs w.verdict) (ordered : a.sequence < b.sequence)
    (found : firstTwo (grown kind) = some (a, b))
    (others : ∀ k, k ≠ kind → firstTwo (grown k) = firstTwo (facts k))
    (same : ∀ p, firstTwo (facts kind) = some p → p = (a, b))
    (accepted : w.dispute [a.reference, b.reference] = .ok w') : Disputed grown w'.verdict := by
  have sorted : List.insertionSort (fun x y : ProviderReportReference => x.sequence ≤ y.sequence)
      [a.reference, b.reference] = [a.reference, b.reference] := by
    refine List.Pairwise.insertionSort_eq ?_
    simpa [ProviderReportEntry.reference] using Nat.le_of_lt ordered
  simp only [dispute, sorted, bind_eq_ok, refuse_eq_ok, exists_unit, pure_eq_ok] at accepted
  rw [← accepted.2]
  refine ⟨rfl, rfl, rfl, ?_⟩
  cases knows.conflicting with
  | inl none =>
    obtain ⟨empty, absent⟩ := none
    refine ⟨kind, a, b, found, ?_, ?_⟩
    · have empty : w.summary.conflictingReports = [] := empty
      simp [verdict, summary, earlier] at empty ⊢
      simp [empty]
    · intro k p pair
      by_cases here : k = kind
      · rw [here, found] at pair
        cases pair
        exact NoLater.refl _
      · rw [others k here, absent k] at pair
        cases pair
  | inr some =>
    obtain ⟨k, c, d, known, stored, least⟩ := some
    have stored : w.summary.conflictingReports = [c.reference, d.reference] := stored
    have bound : ∀ k' p, firstTwo (grown k') = Option.some p → p = (a, b) ∨ NoLater (c, d) p := by
      intro k' p pair
      by_cases here : k' = kind
      · rw [here, found] at pair
        cases pair
        exact Or.inl rfl
      · rw [others k' here] at pair
        exact Or.inr (least k' p pair)
    by_cases first : earlier [a.reference, b.reference] [c.reference, d.reference] = true
    · refine ⟨kind, a, b, found, ?_, ?_⟩
      · simp [verdict, summary] at stored ⊢
        simp [stored, first]
      · intro k' p pair
        cases bound k' p pair with
        | inl equal => exact equal ▸ NoLater.refl _
        | inr late =>
          have before := earlier_pair.mp first
          simp only [NoLater] at before late ⊢
          omega
    · have late : NoLater (c, d) (a, b) := by simpa [earlier_pair] using first
      refine ⟨k, c, d, ?_, ?_, ?_⟩
      · by_cases here : k = kind
        · rw [here] at known ⊢
          rw [found, same (c, d) known]
        · rw [others k here, known]
      · simp [verdict, summary] at stored ⊢
        simp [stored, first]
      · intro k' p pair
        cases bound k' p pair with
        | inl equal => exact equal ▸ late
        | inr bounded => exact bounded

end Operation
end Ledgence.Providers
