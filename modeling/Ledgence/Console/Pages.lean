import Ledgence.Console.Executions

/-! The merged listing is the plain one: the first rows behind the position of all executions that
match, of both kinds together. -/
open Kit Kit.Checked

namespace Ledgence
namespace Console

/- The plain listing. -/

/-- `ConsoleExecutionFilters::matches`, on the columns. -/
def ConsoleExecutionFilters.matchesColumns (filters : ConsoleExecutionFilters) (t : Compared) : Bool :=
  filters.kind.all (· = t.kind) && filters.state.all (fun state => t.state = state.label) &&
    filters.programId.all (fun value => t.programId = some value) &&
    filters.version.all (fun value => t.programVersion = some value) &&
    filters.queue.all (fun value => t.queue = value) &&
    filters.correlationKey.all (fun value => t.correlationKey = some value) &&
    filters.executionId.all (fun value => t.id = value) &&
    (filters.includesChildren || t.parentWorkflowId.isNone) &&
    filters.submittedFrom.all (· ≤ t.submittedAt) && filters.submittedUntil.all (t.submittedAt < ·)

def Compared.lists (scope : Scope) (filters : ConsoleExecutionFilters) (t : Compared) : Bool :=
  t.tenantId = scope.tenantId && t.namespaceId = scope.namespaceId && t.retiringAt.isNone &&
    t.workflowActivationId.isNone && filters.matchesColumns t

def TaskRecord.row (t : TaskRecord) : ExecutionRow :=
  { t.columns.toCandidate with providerProbe := t.providerProbe, descriptor := t.descriptor }

def RunRecord.row (t : RunRecord) : ExecutionRow :=
  { t.columns.toCandidate with providerProbe := none, descriptor := t.controller }

def Tables.executions (tables : Tables) (scope : Scope) (filters : ConsoleExecutionFilters) :
    List ExecutionRow :=
  (tables.tasks.filter fun t => t.columns.lists scope filters).map TaskRecord.row ++
    (tables.runs.filter fun t => t.columns.lists scope filters).map RunRecord.row

abbrev Place := (Nat ×ₗ List Nat ×ₗ List Nat)ᵒᵈ

def Candidate.place (t : Candidate) : Place := OrderDual.toDual (rank t)

def ExecutionRow.place (row : ExecutionRow) : Place := row.toCandidate.place

structure ExecutionPosition where
  submittedAt : Nat
  kind : ConsoleExecutionKind
  id : String

def ExecutionPosition.toPosition (p : ExecutionPosition) : ConsolePosition :=
  [.number p.submittedAt, .text p.kind.asStr, .text p.id]

def ExecutionPosition.place (p : ExecutionPosition) : Place :=
  OrderDual.toDual (toLex (p.submittedAt, toLex (textKey p.kind.asStr, textKey p.id)))

variable {tables : Tables} {scope : Scope} {filters : ConsoleExecutionFilters} {limit : Nat}
  {kind : ConsoleExecutionKind} {t : Compared}

/- Positions. -/

theorem asStr_injective : Function.Injective ConsoleExecutionKind.asStr := by
  intro a b same
  cases a <;> cases b <;> simp_all [ConsoleExecutionKind.asStr]

theorem place_lt {p : ExecutionPosition} {c : Candidate} : p.place < c.place ↔
    c.submittedAt < p.submittedAt ∨ c.submittedAt = p.submittedAt ∧
      (textKey c.kind.asStr < textKey p.kind.asStr ∨ c.kind = p.kind ∧ textKey c.id < textKey p.id) := by
  have names : textKey c.kind.asStr = textKey p.kind.asStr ↔ c.kind = p.kind :=
    ⟨fun h => asStr_injective (textKey_injective h), fun h => by rw [h]⟩
  rw [ExecutionPosition.place, Candidate.place, OrderDual.toDual_lt_toDual, rank, Prod.Lex.toLex_lt_toLex,
    Prod.Lex.toLex_lt_toLex, names]

/-- What a seek of a kind adds for a position is that its rows are behind it. -/
theorem seekBehind_eq (kind : ConsoleExecutionKind) (p : ExecutionPosition)
    (inRange : p.submittedAt ≤ maxTimestamp) : ∃ behind, seekBehind kind p.toPosition = .ok behind ∧
      ∀ t : Compared, t.kind = kind → (behind t = true ↔ p.place < t.place) := by
  have time : positionTime p.toPosition 0 = .ok p.submittedAt := by
    simp [positionTime, positionNumber, ExecutionPosition.toPosition, not_lt.mpr inRange]
  have cursorKind : positionText p.toPosition 1 = .ok p.kind.asStr := by
    simp [positionText, ExecutionPosition.toPosition]
  have id : positionText p.toPosition 2 = .ok p.id := by
    simp [positionText, ExecutionPosition.toPosition]
  have known : ¬ (p.kind.asStr ≠ "task" ∧ p.kind.asStr ≠ "workflow") := by
    cases p.kind with
    | task => simp [ConsoleExecutionKind.asStr]
    | workflow => simp [ConsoleExecutionKind.asStr]
  simp only [seekBehind, cursorKind, ok_bind, refuse, if_neg known]
  by_cases same : kind = p.kind
  · refine ⟨fun t => t.submittedAt < p.submittedAt ||
      (t.submittedAt = p.submittedAt && textKey t.id < textKey p.id), ?_, ?_⟩
    · simp [same, time, id]
    · intro t rfl
      rw [place_lt]
      simp [same]
  · have apart : kind.asStr ≠ p.kind.asStr := fun h => same (asStr_injective h)
    rw [if_neg apart]
    by_cases below : textKey kind.asStr < textKey p.kind.asStr
    · refine ⟨fun t => t.submittedAt ≤ p.submittedAt, ?_, ?_⟩
      · simp [below, time]
      · intro t rfl
        rw [place_lt]
        simp [same, below, Nat.le_iff_lt_or_eq]
    · refine ⟨fun t => t.submittedAt < p.submittedAt, ?_, ?_⟩
      · simp [below, time]
      · intro t rfl
        rw [place_lt]
        simp [same, below]

theorem seekBehind_late (kind : ConsoleExecutionKind) (p : ExecutionPosition)
    (late : maxTimestamp < p.submittedAt) :
    seekBehind kind p.toPosition = .error (invalid "cursor timestamp outside supported range") := by
  have time : positionTime p.toPosition 0 = .error (invalid "cursor timestamp outside supported range") := by
    simp [positionTime, positionNumber, ExecutionPosition.toPosition, late, refuse]
  have cursorKind : positionText p.toPosition 1 = .ok p.kind.asStr := by
    simp [positionText, ExecutionPosition.toPosition]
  have known : ¬ (p.kind.asStr ≠ "task" ∧ p.kind.asStr ≠ "workflow") := by
    cases p.kind with
    | task => simp [ConsoleExecutionKind.asStr]
    | workflow => simp [ConsoleExecutionKind.asStr]
  simp only [seekBehind, cursorKind, ok_bind, refuse, if_neg known, time]
  split
  · rfl
  · split
    · rfl
    · rfl

/- Filters. -/

theorem bmod_eq {n : Nat} (small : n < 2 ^ 63) : Int.bmod (n : Int) (2 ^ 64) = n := by
  rw [Int.bmod_eq_of_le]
  · omega
  · omega

theorem asI64_eq {n : Nat} (inRange : n ≤ maxTimestamp) : asI64 n = n := by
  unfold asI64
  exact bmod_eq (lt_of_le_of_lt inRange (by decide))

theorem asI64_le {n m : Nat} (inRange : n ≤ maxTimestamp) : asI64 n ≤ (m : Int) ↔ n ≤ m := by
  rw [asI64_eq inRange]
  exact Int.ofNat_le

theorem lt_asI64 {n m : Nat} (inRange : n ≤ maxTimestamp) : (m : Int) < asI64 n ↔ m < n := by
  rw [asI64_eq inRange]
  exact Int.ofNat_lt

theorem times_of_validate (checked : filters.validate = .ok ()) :
    (∀ at', filters.submittedFrom = some at' → at' ≤ maxTimestamp) ∧
      ∀ at', filters.submittedUntil = some at' → at' ≤ maxTimestamp := by
  simp only [ConsoleExecutionFilters.validate, bind_eq_ok, exists_unit, ifSome_eq_ok,
    ConsoleExecutionFilters.timestamp, refuse_eq_ok, not_lt] at checked
  exact ⟨checked.2.1, checked.2.2.1⟩

theorem compared_kind (mem : t ∈ tables.compared kind) : t.kind = kind := by
  cases kind with
  | task =>
    obtain ⟨record, -, rfl⟩ := List.mem_map.mp mem
    rfl
  | workflow =>
    obtain ⟨record, -, rfl⟩ := List.mem_map.mp mem
    rfl

theorem supports_of_label (mem : t ∈ tables.compared kind) {state : ConsoleExecutionState}
    (same : t.state = state.label) : state.supports kind = true := by
  cases kind with
  | task =>
    obtain ⟨record, inside, rfl⟩ := List.mem_map.mp mem
    have known := tables.taskStates record inside
    have label : record.state = state.label := same
    rw [label] at known
    cases state with
    | queued | active | succeeded | failed | cancelled => rfl
    | running | waiting | failing | cancelling => simp [ConsoleExecutionState.label] at known
  | workflow =>
    obtain ⟨record, inside, rfl⟩ := List.mem_map.mp mem
    have known := tables.runStates record inside
    have label : record.state = state.label := same
    rw [label] at known
    cases state with
    | running | waiting | failing | cancelling | succeeded | failed | cancelled => rfl
    | queued | active => simp [ConsoleExecutionState.label] at known

theorem all_from {m : Nat} {given : Option Nat} (inRange : ∀ n, given = some n → n ≤ maxTimestamp) :
    given.all (fun n => decide (asI64 n ≤ m)) = given.all fun n => decide (n ≤ m) := by
  cases given with
  | none => simp
  | some n =>
    rw [Option.all_some, Option.all_some]
    exact decide_eq_decide.mpr (asI64_le (inRange n rfl))

theorem all_until {m : Nat} {given : Option Nat} (inRange : ∀ n, given = some n → n ≤ maxTimestamp) :
    given.all (fun n => decide ((m : Int) < asI64 n)) = given.all fun n => decide (m < n) := by
  cases given with
  | none => simp
  | some n =>
    rw [Option.all_some, Option.all_some]
    exact decide_eq_decide.mpr (lt_asI64 (inRange n rfl))

theorem seekMatches_eq (checked : filters.validate = .ok ()) (mem : t ∈ tables.compared kind) :
    seekMatches scope filters kind t = t.lists scope filters := by
  obtain ⟨start, stop⟩ := times_of_validate checked
  have activation : (decide (kind ≠ .task) || t.workflowActivationId.isNone) =
      t.workflowActivationId.isNone := by
    cases kind with
    | task => simp
    | workflow =>
      obtain ⟨record, -, rfl⟩ := List.mem_map.mp mem
      simp [RunRecord.columns]
  have states : filters.state.all (fun state => decide (t.state = state.label)) = true →
      filters.state.any (fun state => !state.supports kind) = false := by
    cases given : filters.state with
    | none => simp
    | some state =>
      intro same
      simpa using supports_of_label mem (of_decide_eq_true same)
  have kinds : filters.kind.any (fun k => decide (k ≠ kind)) =
      !filters.kind.all fun k => decide (k = kind) := by
    cases filters.kind with
    | none => simp
    | some k => simp
  rw [seekMatches, Compared.lists, ConsoleExecutionFilters.matchesColumns, activation, all_from start,
    all_until stop, kinds, compared_kind mem]
  cases h : filters.state.all fun state => decide (t.state = state.label) with
  | true =>
    rw [states h]
    simp only [Bool.or_false, Bool.not_not, Bool.and_true]
    ac_rfl
  | false => simp

/- One seek. -/

def Tables.candidates (tables : Tables) (scope : Scope) (filters : ConsoleExecutionFilters)
    (kind : ConsoleExecutionKind) : List Candidate :=
  ((tables.compared kind).filter (Compared.lists scope filters)).map Compared.toCandidate

variable {position : Option ExecutionPosition}

def InRange (position : Option ExecutionPosition) : Prop :=
  ∀ p ∈ position, p.submittedAt ≤ maxTimestamp

instance : Decidable (InRange position) :=
  inferInstanceAs (Decidable (∀ p ∈ position, p.submittedAt ≤ maxTimestamp))

theorem seekPosition_eq (kind : ConsoleExecutionKind) (inRange : InRange position) :
    ∃ behind, seekPosition kind (position.map ExecutionPosition.toPosition) = .ok behind ∧
      ∀ t : Compared, t.kind = kind →
        (behind t = true ↔ Keyset.After (position.map ExecutionPosition.place) t.place) := by
  cases position with
  | none => exact ⟨fun _ => true, rfl, fun t _ => by simp [Keyset.After]⟩
  | some p =>
    obtain ⟨behind, given, same⟩ := seekBehind_eq kind p (inRange p rfl)
    exact ⟨behind, given, fun t h => by simpa [Keyset.After] using same t h⟩

theorem rank_le_iff {s t : Candidate} (kinds : s.kind = t.kind) :
    rank s ≤ rank t ↔ seekRank s ≤ seekRank t := by
  rw [rank, rank, seekRank, seekRank, kinds, Prod.Lex.toLex_le_toLex, Prod.Lex.toLex_le_toLex,
    Prod.Lex.toLex_le_toLex]
  simp

theorem candidates_kind {c : Candidate} (mem : c ∈ tables.candidates scope filters kind) : c.kind = kind := by
  obtain ⟨t, inside, rfl⟩ := List.mem_map.mp mem
  exact compared_kind (List.mem_of_mem_filter inside)

theorem seek_eq (checked : filters.validate = .ok ()) (inRange : InRange position) :
    seek tables scope filters limit (position.map ExecutionPosition.toPosition) kind =
      .ok (Keyset.select Candidate.place (position.map ExecutionPosition.place) limit
        (tables.candidates scope filters kind)) := by
  obtain ⟨behind, given, same⟩ := seekPosition_eq kind inRange
  have found : ((tables.compared kind).filter fun t => seekMatches scope filters kind t && behind t).map
      Compared.toCandidate = (tables.candidates scope filters kind).filter
        fun c => Keyset.After (position.map ExecutionPosition.place) c.place := by
    rw [Tables.candidates, List.filter_map, List.filter_filter]
    congr 1
    refine List.filter_congr fun t mem => ?_
    rw [seekMatches_eq checked mem, Bool.and_comm]
    congr 1
    rw [Bool.eq_iff_iff, same t (compared_kind mem)]
    simp
  have sorted := List.map_insertionSort (fun s t : Candidate => seekRank t ≤ seekRank s)
    (fun s t : Candidate => s.place ≤ t.place) id ((tables.candidates scope filters kind).filter
      fun c => Keyset.After (position.map ExecutionPosition.place) c.place) (by
        intro a mem b mem'
        have kinds := (candidates_kind (List.mem_of_mem_filter mem')).trans
          (candidates_kind (List.mem_of_mem_filter mem)).symm
        exact (rank_le_iff kinds).symm)
  rw [List.map_id, List.map_id] at sorted
  simp only [seek, given, ok_bind, found, sorted]
  rfl

/- Both seeks. -/

theorem place_injective {s t : Candidate} (same : s.place = t.place) : s.kind = t.kind ∧ s.id = t.id := by
  have parts : (s.submittedAt, textKey s.kind.asStr, textKey s.id) =
      (t.submittedAt, textKey t.kind.asStr, textKey t.id) := same
  simp only [Prod.mk.injEq] at parts
  exact ⟨asStr_injective (textKey_injective parts.2.1), textKey_injective parts.2.2⟩

theorem compared_ids (tables : Tables) (kind : ConsoleExecutionKind) :
    ((tables.compared kind).map fun t => t.id).Nodup := by
  cases kind with
  | task => simpa [Tables.compared, TaskRecord.columns, Function.comp_def, Table.Unique] using tables.taskIds
  | workflow => simpa [Tables.compared, RunRecord.columns, Function.comp_def,
      Table.Unique] using tables.runIds

theorem candidates_places (tables : Tables) (scope : Scope) (filters : ConsoleExecutionFilters) :
    ((tables.candidates scope filters .task ++ tables.candidates scope filters .workflow).map
      Candidate.place).Nodup := by
  have each (kind : ConsoleExecutionKind) :
      ((tables.candidates scope filters kind).map Candidate.place).Nodup := by
    have ids := compared_ids tables kind
    rw [Tables.candidates, List.map_map]
    rw [List.Nodup, List.pairwise_map] at ids ⊢
    refine (ids.sublist List.filter_sublist).imp fun apart same => apart ?_
    exact (place_injective same).2
  rw [List.map_append, List.nodup_append]
  refine ⟨each .task, each .workflow, ?_⟩
  rintro _ mem _ mem' rfl
  obtain ⟨s, inside, same⟩ := List.mem_map.mp mem
  obtain ⟨t, inside', same'⟩ := List.mem_map.mp mem'
  have kinds := (place_injective (same.trans same'.symm)).1
  rw [candidates_kind inside, candidates_kind inside'] at kinds
  cases kinds

theorem executions_candidates : (tables.executions scope filters).map ExecutionRow.toCandidate =
    tables.candidates scope filters .task ++ tables.candidates scope filters .workflow := by
  simp only [Tables.executions, Tables.candidates, Tables.compared, List.map_append, List.filter_map,
    List.map_map]
  rfl

theorem hydrate_eq {row : ExecutionRow} (mem : row ∈ tables.executions scope filters) :
    hydrate tables row.toCandidate = row := by
  cases List.mem_append.mp mem with
  | inl tasks =>
    obtain ⟨t, inside, rfl⟩ := List.mem_map.mp tasks
    have found := Table.find_of_mem tables.taskIds (List.mem_of_mem_filter inside)
    simp [hydrate, TaskRecord.row, TaskRecord.columns, found]
  | inr runs =>
    obtain ⟨t, inside, rfl⟩ := List.mem_map.mp runs
    have found := Table.find_of_mem tables.runIds (List.mem_of_mem_filter inside)
    simp [hydrate, RunRecord.row, RunRecord.columns, found]

theorem executions_places (tables : Tables) (scope : Scope) (filters : ConsoleExecutionFilters) :
    ((tables.executions scope filters).map ExecutionRow.place).Nodup := by
  have places := candidates_places tables scope filters
  rw [← executions_candidates, List.map_map] at places
  exact places

theorem select_candidates (position : Option Place) (limit : Nat) (rows : List ExecutionRow) :
    (Keyset.select ExecutionRow.place position limit rows).map ExecutionRow.toCandidate =
      Keyset.select Candidate.place position limit (rows.map ExecutionRow.toCandidate) := by
  rw [Keyset.select, Keyset.select, List.map_take, List.filter_map,
    List.map_insertionSort (fun r s : ExecutionRow => r.place ≤ s.place)
      fun s t : Candidate => s.place ≤ t.place]
  · rfl
  · intro a _ b _
    exact Iff.rfl

/-- The statement refuses a time that no row can have, and else selects the first rows of the plain
listing behind the position. -/
theorem discoveryQuery_eq (checked : filters.validate = .ok ()) (position : Option ExecutionPosition) :
    discoveryQuery tables scope filters limit (position.map ExecutionPosition.toPosition) =
      if InRange position then
        .ok (Keyset.select ExecutionRow.place (position.map ExecutionPosition.place) limit
          (tables.executions scope filters))
      else .error (invalid "cursor timestamp outside supported range") := by
  by_cases inRange : InRange position
  · have chosen : ((Keyset.select Candidate.place (position.map ExecutionPosition.place) limit
        (tables.candidates scope filters .task) ++
        Keyset.select Candidate.place (position.map ExecutionPosition.place) limit
          (tables.candidates scope filters .workflow)).insertionSort
            fun s t => rank t ≤ rank s).take (limit + 1) =
        (Keyset.select ExecutionRow.place (position.map ExecutionPosition.place) limit
          (tables.executions scope filters)).map ExecutionRow.toCandidate := by
      rw [select_candidates, executions_candidates,
        Keyset.select_append (candidates_places tables scope filters)]
      rfl
    have hydrated : ((Keyset.select ExecutionRow.place (position.map ExecutionPosition.place) limit
        (tables.executions scope filters)).map ExecutionRow.toCandidate).map (hydrate tables) =
        Keyset.select ExecutionRow.place (position.map ExecutionPosition.place) limit
          (tables.executions scope filters) := by
      rw [List.map_map]
      refine (List.map_congr_left fun row mem => ?_).trans (List.map_id _)
      exact hydrate_eq (Keyset.mem_of_mem_select mem)
    have sorted : (Keyset.select ExecutionRow.place (position.map ExecutionPosition.place) limit
        (tables.executions scope filters)).insertionSort
          (fun s t => rank t.toCandidate ≤ rank s.toCandidate) =
        Keyset.select ExecutionRow.place (position.map ExecutionPosition.place) limit
          (tables.executions scope filters) := by
      refine List.Pairwise.insertionSort_eq ?_
      exact (List.pairwise_insertionSort (fun r s : ExecutionRow => r.place ≤ s.place) _).sublist
        (List.take_sublist _ _)
    rw [if_pos inRange, discoveryQuery, seek_eq checked inRange, seek_eq checked inRange, ok_bind, ok_bind,
      chosen]
    simp only [hydrated, sorted]
    rfl
  · rw [if_neg inRange]
    cases position with
    | none => exact absurd (by simp [InRange]) inRange
    | some p =>
      have late : maxTimestamp < p.submittedAt := by simpa [InRange] using inRange
      have refused := seekBehind_late .task p late
      rw [discoveryQuery, seek, Option.map_some, seekPosition, refused]
      rfl

end Console
end Ledgence

/-! Walks over the pages of the merged listing: consecutive pages are consecutive parts of the plain
listing in its order. -/

namespace Ledgence
namespace Console

def ExecutionRow.position (row : ExecutionRow) : ExecutionPosition :=
  ⟨row.submittedAt, row.kind, row.id⟩

def Stands (serde : Serde) (scope : Scope) (filters : ConsoleExecutionFilters) :
    Option String → Option ExecutionPosition → Prop
  | none, none => True
  | some text, some p => ∀ bound, binding scope filters = .ok bound →
    decodeCursor serde bound text = .ok p.toPosition
  | _, _ => False

inductive Walk (serde : Serde) (tables : Tables) (scope : Scope) (filters : ConsoleExecutionFilters) :
    Option String → List ConsolePage → Option String → Prop
  | one {cursor : Option String} {limit : Nat} {page : ConsolePage} :
    queryExecutions serde tables scope filters ⟨limit, cursor⟩ = .ok page →
    Walk serde tables scope filters cursor [page] page.nextCursor
  | more {cursor : Option String} {limit : Nat} {page : ConsolePage} {text : String}
      {pages : List ConsolePage} {next : Option String} :
    queryExecutions serde tables scope filters ⟨limit, cursor⟩ = .ok page → page.nextCursor = some text →
    Walk serde tables scope filters (some text) pages next →
    Walk serde tables scope filters cursor (page :: pages) next

variable {serde : Serde} {tables : Tables} {scope : Scope} {filters : ConsoleExecutionFilters}
  {limit : Nat} {position : Option ExecutionPosition} {cursor : Option String} {page : ConsolePage}

def Tables.listing (tables : Tables) (scope : Scope) (filters : ConsoleExecutionFilters)
    (position : Option ExecutionPosition) : List ExecutionRow :=
  Keyset.behind ExecutionRow.place (position.map ExecutionPosition.place) (tables.executions scope filters)

theorem summary_position {row : ExecutionRow} {summary : ConsoleExecutionSummary}
    (decoded : row.summary = .ok summary) : summary.position = row.position.toPosition := by
  simp only [ExecutionRow.summary, bind_eq_ok, pure_eq_ok] at decoded
  obtain ⟨descriptor, -, state, -, probe, -, rfl⟩ := decoded
  rfl

theorem compact_filters (checked : filters.validate = .ok ()) : Compact serde 1 filters.toJson := by
  obtain ⟨start, stop⟩ := times_of_validate checked
  refine compact_object (by simp) fun k v mem => ?_
  simp only [List.mem_cons, Prod.mk.injEq, Option.some.injEq, List.not_mem_nil, or_false] at mem
  obtain ⟨-, rfl⟩ | ⟨-, rfl⟩ | ⟨-, rfl⟩ | ⟨-, rfl⟩ | ⟨-, rfl⟩ | ⟨-, rfl⟩ | ⟨-, rfl⟩ | ⟨-, rfl⟩ |
    ⟨-, rfl⟩ | ⟨-, rfl⟩ := mem
  · exact compact_opt fun s _ => compact_str _
  · exact compact_opt fun s _ => compact_str _
  · exact compact_opt fun s _ => compact_str _
  · exact compact_opt fun s _ => compact_str _
  · exact compact_opt fun s _ => compact_str _
  · exact compact_opt fun s _ => compact_str _
  · exact compact_opt fun s _ => compact_str _
  · exact ⟨trivial, by simp [Holds, Json.numbers], Nat.zero_le _⟩
  · exact compact_opt fun t given => TaskCursor.compact_time (start t given)
  · exact compact_opt fun t given => TaskCursor.compact_time (stop t given)

theorem times_fit {row : ExecutionRow} (mem : row ∈ tables.executions scope filters) :
    row.submittedAt ≤ u64Max := by
  have wide : i64Max ≤ u64Max := by decide
  cases List.mem_append.mp mem with
  | inl tasks =>
    obtain ⟨t, inside, rfl⟩ := List.mem_map.mp tasks
    exact (tables.taskTimes t (List.mem_of_mem_filter inside)).trans wide
  | inr runs =>
    obtain ⟨t, inside, rfl⟩ := List.mem_map.mp runs
    exact (tables.runTimes t (List.mem_of_mem_filter inside)).trans wide

theorem binding_ok {bound : ConsoleCursorBinding} (made : binding scope filters = .ok bound) :
    filters.validate = .ok () ∧ bound.filters = filters.toJson.sortObjects := by
  simp only [binding, bind_eq_ok, exists_unit, pure_eq_ok] at made
  obtain ⟨-, checked, rfl⟩ := made
  exact ⟨checked, rfl⟩

theorem stands_of_nextCursor (correct : serde.Correct) {row : ExecutionRow}
    (mem : row ∈ tables.executions scope filters) {bound : ConsoleCursorBinding} {text : String}
    (made : binding scope filters = .ok bound)
    (written : nextCursor bound row.position.toPosition = .ok text) :
    Stands serde scope filters (some text) (some row.position) := by
  intro bound' made'
  obtain rfl := Except.ok.inj (made.symm.trans made')
  obtain ⟨checked, same⟩ := binding_ok made
  have compact := @compact_filters serde _ checked
  refine decodeCursor_nextCursor correct ?_ ?_ ?_ written
  · rw [same]
    exact compact_sortObjects compact
  · rw [same]
    exact sortObjects_twice compact.unique
  · intro key inside
    simp only [ExecutionPosition.toPosition, List.mem_cons, List.not_mem_nil, or_false] at inside
    obtain rfl | rfl | rfl := inside
    · exact times_fit mem
    · trivial
    · trivial

theorem exists_split {α : Type} {as : List α} {n : Nat} (positive : 0 < n) (long : n ≤ as.length) :
    ∃ before a after, as = before ++ a :: after ∧ before.length + 1 = n := by
  cases rest : as.drop (n - 1) with
  | nil =>
    have short := List.drop_eq_nil_iff.mp rest
    omega
  | cons a after =>
    refine ⟨as.take (n - 1), a, after, ?_, ?_⟩
    · rw [← rest, List.take_append_drop]
    · rw [List.length_take]
      omega

/-- A page holds the first rows of what is behind its position, and goes on behind its last row if
any are left. -/
theorem queryExecutions_ok (correct : serde.Correct)
    (done : queryExecutions serde tables scope filters ⟨limit, cursor⟩ = .ok page)
    (stands : Stands serde scope filters cursor position) : 0 < limit ∧ filters.validate = .ok () ∧
      List.Forall₂ (fun row item => row.summary = .ok item)
        ((tables.listing scope filters position).take limit)
        page.items ∧
      (page.nextCursor = none → (tables.listing scope filters position).length ≤ limit) ∧
      ∀ text, page.nextCursor = some text → ∃ before row after,
        tables.listing scope filters position = before ++ row :: after ∧ before.length + 1 = limit ∧
        Stands serde scope filters (some text) (some row.position) := by
  simp only [queryExecutions, bind_eq_ok] at done
  obtain ⟨bound, made, given, accepted, listed⟩ := done
  obtain ⟨checked, -⟩ := binding_ok made
  simp only [ConsolePagination.validate, bind_eq_ok, exists_unit, refuse_eq_ok, not_or, not_lt] at accepted
  obtain ⟨⟨positive, -⟩, accepted⟩ := accepted
  have placed : given = position.map ExecutionPosition.toPosition := by
    cases cursor with
    | none =>
      cases position with
      | none => exact (pure_eq_ok.mp accepted).symm
      | some p => exact stands.elim
    | some text =>
      cases position with
      | none => exact stands.elim
      | some p =>
        obtain ⟨q, decoded, rfl⟩ := map_eq_ok.mp accepted
        obtain rfl := Except.ok.inj ((stands bound made).symm.trans decoded)
        rfl
  subst placed
  simp only [list, bind_eq_ok, mapM_eq_ok] at listed
  obtain ⟨rows, selected, items, decoded, paged⟩ := listed
  rw [discoveryQuery_eq checked] at selected
  split at selected
  · have chosen : (tables.listing scope filters position).take (limit + 1) = rows := Except.ok.inj selected
    subst chosen
    have length := decoded.length_eq
    rw [List.length_take] at length
    have firsts := List.forall₂_take limit decoded
    rw [List.take_take, Nat.min_eq_left (Nat.le_succ limit)] at firsts
    refine ⟨positive, checked, ?_⟩
    by_cases more : limit < items.length
    · simp only [Console.page, if_pos more, bind_eq_ok, okOr_eq_ok, pure_eq_ok] at paged
      obtain ⟨bound', made', last, ends, text, written, rfl⟩ := paged
      refine ⟨firsts, by simp, ?_⟩
      intro text' same
      obtain rfl : text = text' := Option.some.inj same
      obtain ⟨before, row, after, split, size⟩ : ∃ before row after,
          tables.listing scope filters position = before ++ row :: after ∧ before.length + 1 = limit := by
        exact exists_split positive (by omega)
      refine ⟨before, row, after, split, size, ?_⟩
      have lastRow : ((tables.listing scope filters position).take limit).getLast? = some row := by
        rw [split, ← size, List.take_append, List.take_of_length_le (Nat.le_succ _)]
        simp
      have lastItem : row.summary = .ok last := by
        obtain ⟨fronts, shown⟩ := List.getLast?_eq_some_iff.mp lastRow
        obtain ⟨fronts', shown'⟩ := List.getLast?_eq_some_iff.mp ends
        rw [shown, shown'] at firsts
        have backs := List.rel_reverse firsts
        simp only [List.reverse_append, List.reverse_singleton, List.singleton_append,
          List.forall₂_cons] at backs
        exact backs.1
      have inside : row ∈ tables.executions scope filters := by
        have mem : row ∈ tables.listing scope filters position := by simp [split]
        exact (Keyset.mem_behind.mp mem).1
      rw [summary_position lastItem] at written
      exact stands_of_nextCursor correct inside made' written
    · simp only [Console.page, if_neg more, pure_eq_ok] at paged
      subst paged
      refine ⟨firsts, fun _ => by omega, by simp⟩
  · cases selected

/-- The items of a walk are the plain listing from where it starts, as far as the walk went. -/
theorem Walk.listing (correct : serde.Correct) {pages : List ConsolePage} {next : Option String}
    (walk : Walk serde tables scope filters cursor pages next)
    (stands : Stands serde scope filters cursor position) :
    ∃ rows rest, tables.listing scope filters position = rows ++ rest ∧ (next = none → rest = []) ∧
      List.Forall₂ (fun row item => row.summary = .ok item) rows (pages.flatMap ConsolePage.items) := by
  induction walk generalizing position with
  | @one cursor limit page done =>
    obtain ⟨-, -, items, last, -⟩ := queryExecutions_ok correct done stands
    refine ⟨_, (tables.listing scope filters position).drop limit,
      (List.take_append_drop limit _).symm, ?_, ?_⟩
    · intro ended
      exact List.drop_eq_nil_iff.mpr (last ended)
    · simpa using items
  | @more cursor limit page text pages next done going rest ih =>
    obtain ⟨-, -, items, -, more⟩ := queryExecutions_ok correct done stands
    obtain ⟨before, row, after, split, size, stands'⟩ := more text going
    have behind : tables.listing scope filters (some row.position) = after :=
      Keyset.behind_row (executions_places tables scope filters) split
    obtain ⟨rows, left, parts, ended, shown⟩ := ih stands'
    refine ⟨before ++ row :: rows, left, ?_, ended, ?_⟩
    · rw [split, ← behind, parts]
      simp
    · have taken : (tables.listing scope filters position).take limit = before ++ [row] := by
        rw [split, ← size, List.take_append, List.take_of_length_le (Nat.le_succ _)]
        simp
      rw [taken] at items
      rw [List.flatMap_cons]
      simpa using List.rel_append items shown

/-- At every position the statement selects the first rows of the plain listing of both kinds, unless
it refuses the time; no two rows tie there; and the pages of a walk, whatever their limits, are
consecutive parts of the listing from its start, and all of it when the walk ends. -/
theorem executions_merged (correct : serde.Correct) (tables : Tables) (scope : Scope)
    (checked : filters.validate = .ok ()) :
    (∀ (limit : Nat) (position : Option ExecutionPosition),
      discoveryQuery tables scope filters limit (position.map ExecutionPosition.toPosition) =
        if InRange position then .ok ((tables.listing scope filters position).take (limit + 1))
        else .error (invalid "cursor timestamp outside supported range")) ∧
    (∀ position, (tables.listing scope filters position).Pairwise
      fun r s => rank s.toCandidate < rank r.toCandidate) ∧
    (∀ position row, row ∈ tables.listing scope filters position ↔ row ∈ tables.executions scope filters ∧
      ∀ p ∈ position, rank row.toCandidate <
        toLex (p.submittedAt, toLex (textKey p.kind.asStr, textKey p.id))) ∧
    ∀ (pages : List ConsolePage) (next : Option String), Walk serde tables scope filters none pages next →
      ∃ rows rest, tables.listing scope filters none = rows ++ rest ∧ (next = none → rest = []) ∧
        List.Forall₂ (fun row item => row.summary = .ok item) rows (pages.flatMap ConsolePage.items) := by
  refine ⟨?_, ?_, ?_, ?_⟩
  · intro limit position
    exact discoveryQuery_eq checked position
  · intro position
    exact Keyset.behind_lt (executions_places tables scope filters) _
  · intro position row
    rw [Tables.listing, Keyset.mem_behind]
    refine and_congr_right' ?_
    cases position with
    | none => simp [Keyset.After]
    | some p => simp [Keyset.After, ExecutionPosition.place, ExecutionRow.place, Candidate.place]
  · intro pages next walk
    exact walk.listing correct trivial

def sampleTask : TaskRecord :=
  ⟨"a", "tenant", "namespace", "queue", "queued", 5, none, none, none, none, none, none, none, none,
  none, none⟩

def sampleRun : RunRecord :=
  ⟨"b", "tenant", "namespace", "queue", "running", 5, none, none, none, none, none, none, none, none⟩

def sampleTables : Tables where
  tasks := [sampleTask]
  runs := [sampleRun]
  taskIds := List.nodup_singleton _
  runIds := List.nodup_singleton _
  taskStates := by decide
  runStates := by decide
  taskTimes := by decide
  runTimes := by decide

def sampleFilters : ConsoleExecutionFilters :=
  ⟨none, none, none, none, none, none, none, false, none, none⟩

/-- The task is behind the run that was submitted at the same time. -/
theorem executions_merged_tie : (discoveryQuery sampleTables ⟨"tenant", "namespace"⟩ sampleFilters 1
    (some [.number 5, .text "workflow", .text "b"])).map (List.map fun row => row.id) = .ok ["a"] := by
  have checked : sampleFilters.validate = .ok () := by decide +kernel
  have merged := (executions_merged Serde.ofZeros_correct sampleTables ⟨"tenant", "namespace"⟩ checked).1 1
    (some ⟨5, .workflow, "b"⟩)
  have inRange : InRange (some ⟨5, .workflow, "b"⟩) := by decide
  rw [if_pos inRange] at merged
  refine (congrArg (Except.map (List.map fun row : ExecutionRow => row.id)) merged).trans ?_
  decide +kernel

end Console
end Ledgence
