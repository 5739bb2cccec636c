import Ledgence.Evidence.Summaries

/-! Every row that is written reads back, and its summary is the one of the log: the building
blocks of the transactions keep that. -/
open Kit Kit.Checked

namespace Ledgence
variable {serde : Serde} {sha256 : List Char → String}

/- Projections that read back. -/

structure Retained.Coherent (r : Retained) : Prop where
  occurrence : r.summary.occurrence = r.binding.occurrence
  program : r.summary.program = r.binding.program.program
  callable : r.summary.callable = r.binding.approval.action.name
  version : r.summary.actionVersion = r.binding.approval.action.version
  reference : r.currentAssessment.bind EffectEvidenceEntry.resolutionReference =
    r.summary.operatorResolution.map (·.reference)
  assessment : ∀ entry, r.currentAssessment = some entry →
    entry.resolutionReference.isSome = true ∧
      entry.validate r.binding.occurrence.scope = .ok ()
  result : r.assessmentResult = r.currentAssessment.bind EffectEvidenceEntry.result

theorem checkAssessment_eq_ok {row : OccurrenceRow} {o : EffectOccurrence}
    (h : checkAssessment row o = .ok ()) :
    row.currentAssessment.bind EffectEvidenceEntry.resolutionReference =
        row.summary.operatorResolution.map (·.reference) ∧
      (∀ entry, row.currentAssessment = some entry →
        entry.resolutionReference.isSome = true ∧ entry.validate o.scope = .ok ()) ∧
      row.resolutionId = row.summary.operatorResolution.map (·.reference.resolutionId) ∧
      row.disputed =
        row.summary.operatorResolution.any (·.firstConflictingEntrySequence.isSome) := by
  rw [checkAssessment] at h
  split at h
  · next resolution assessment =>
    simp only [refuse_eq_ok, not_or, not_not, Bool.not_eq_true] at h
    simp [resolution, assessment, h.1, h.2]
  · next resolution assessment =>
    simp only [bind_eq_ok, refuse_eq_ok, not_not, exists_unit] at h
    obtain ⟨⟨reference, id, disputed⟩, valid⟩ := h
    simp [resolution, assessment, reference, id, disputed, valid]
  · cases h

structure OccurrenceRow.Reads (sha256 : List Char → String) (row : OccurrenceRow) (r : Retained) :
    Prop where
  same : row = EvidenceTables.rowOf r r.summary.createdAt
  coherent : r.Coherent
  binding : r.binding.validate sha256 = .ok ()
  summary : r.summary.validate = .ok ()

theorem fromRow_eq_ok {row : OccurrenceRow} {r : Retained}
    (h : fromRow sha256 row row.occurrence = .ok r) : row.Reads sha256 r := by
  simp only [fromRow, bind_eq_ok, ok_of_mapError, exists_unit, refuse_eq_ok, not_or, not_not,
    not_lt, readTimestamp, pure_eq_ok] at h
  obtain ⟨binding, summary, ⟨bound, summed, program, callable, version⟩, -, -, createdAt,
    ⟨-, rfl⟩, updatedAt, ⟨-, rfl⟩, ⟨revision, count, journal, discrepancy, created, updated⟩,
    assessment, result, rfl⟩ := h
  obtain ⟨reference, valid, id, disputed⟩ := checkAssessment_eq_ok assessment
  refine ⟨?_, ⟨summed.trans bound.symm, program, callable, version, reference, ?_, result⟩,
    binding, summary⟩
  · cases row
    simp only [EvidenceTables.rowOf, OccurrenceRow.mk.injEq, true_and]
    exact ⟨bound.symm, journal.symm, discrepancy.symm, revision.symm, count.symm, created.symm,
      updated.symm, id, disputed⟩
  · exact fun entry held => bound ▸ valid entry held

/-- A coherent projection that the checks accept reads back as itself. -/
theorem fromRow_rowOf {r : Retained} {entries : List StoredEntry} (coherent : r.Coherent)
    (binding : r.binding.validate sha256 = .ok ()) (summary : r.summary.validate = .ok ())
    (allowed : (EvidenceTables.rowOf r r.summary.createdAt).Allowed entries) :
    fromRow sha256 (EvidenceTables.rowOf r r.summary.createdAt) r.binding.occurrence = .ok r := by
  have revision := allowed.revision.2
  have count : r.summary.entryCount ≤ u64Max :=
    Nat.le_trans (Nat.le_of_lt allowed.counted) revision
  have created : ¬ maxTimestamp < r.summary.createdAt := Nat.not_lt.mpr allowed.created
  have updated : ¬ maxTimestamp < r.summary.updatedAt := Nat.not_lt.mpr allowed.updated.2
  have assessment : checkAssessment (EvidenceTables.rowOf r r.summary.createdAt)
      r.binding.occurrence = .ok () := by
    have reference := coherent.reference
    have valid := coherent.assessment
    simp only [checkAssessment, EvidenceTables.rowOf]
    cases held : r.currentAssessment with
    | none =>
      have none : r.summary.operatorResolution = none := by
        rw [held, Option.bind_none] at reference
        exact Option.map_eq_none_iff.mp reference.symm
      simp [none, refuse]
    | some entry =>
      obtain ⟨present, accepted⟩ := valid entry held
      obtain ⟨given, read⟩ := Option.isSome_iff_exists.mp present
      rw [held, Option.bind_some, read] at reference
      obtain ⟨resolution, resolved, rfl⟩ := Option.map_eq_some_iff.mp reference.symm
      simp [resolved, read, refuse, accepted]
  simp only [fromRow, bind_eq_ok, ok_of_mapError, exists_unit, refuse_eq_ok, readTimestamp]
  refine ⟨binding, summary, ?_, Nat.not_lt.mpr revision, Nat.not_lt.mpr count, _, ⟨created, rfl⟩, _,
    ⟨updated, rfl⟩, ?_, assessment, ?_, rfl⟩
  · simp [EvidenceTables.rowOf, coherent.occurrence, coherent.program, coherent.callable,
      coherent.version]
  · simp [EvidenceTables.rowOf]
  · simpa [EvidenceTables.rowOf] using coherent.result

def ApprovalRecord.IsConfirmed (a : ApprovalRecord) : Prop :=
  a.effectEvidenceState = some .confirmed ∨ a.effectEvidenceState = some .legacyConfirmed

namespace EvidenceTables
variable {t t' : EvidenceTables} {r : Retained} {row : StoredEntry} {now : Nat}

def log (t : EvidenceTables) : List EffectEvidenceEntry :=
  t.entries.map StoredEntry.entry

/-- The row of the occurrence reads back as `r`, which is the summary of the log. -/
structure Holds (sha256 : List Char → String) (t : EvidenceTables) (r : Retained) : Prop where
  row : t.occurrence = some (rowOf r r.summary.createdAt)
  reads : fromRow sha256 (rowOf r r.summary.createdAt) r.binding.occurrence = .ok r
  summarises : r.Summarises t.log

theorem Holds.coherent (holds : t.Holds sha256 r) : r.Coherent :=
  (fromRow_eq_ok holds.reads).coherent

theorem Holds.load (holds : t.Holds sha256 r) : t.load sha256 r.binding.occurrence = .ok (some r) := by
  rw [EvidenceTables.load, holds.row]
  simp only [rowOf, ↓reduceIte]
  rw [map_eq_ok]
  exact ⟨r, holds.reads, rfl⟩

def Sound (sha256 : List Char → String) (t : EvidenceTables) : Prop :=
  (t.occurrence = none ∧ t.entries = []) ∨ ∃ r, t.Holds sha256 r

theorem Sound.load (sound : t.Sound sha256) {o : EffectOccurrence}
    (h : t.load sha256 o = .ok (some r)) : t.Holds sha256 r ∧ r.binding.occurrence = o := by
  obtain ⟨none, -⟩ | ⟨held, holds⟩ := sound
  · simp [EvidenceTables.load, none] at h
  · by_cases same : held.binding.occurrence = o
    · subst same
      obtain rfl : held = r := by simpa [holds.load] using h
      exact ⟨holds, rfl⟩
    · simp [EvidenceTables.load, holds.row, rowOf, same] at h

structure Saved (sha256 : List Char → String) (t : EvidenceTables) (r : Retained)
    (t' : EvidenceTables) : Prop where
  reads : fromRow sha256 (rowOf r r.summary.createdAt) r.binding.occurrence = .ok r
  result : t' = { t with occurrence := some (rowOf r r.summary.createdAt) }

theorem save_eq_ok (coherent : r.Coherent) (h : t.save sha256 r = .ok t') :
    Saved sha256 t r t' := by
  simp only [save, bind_eq_ok, exists_unit, okOr_eq_ok, refuse_eq_ok, not_not, pure_eq_ok] at h
  obtain ⟨binding, summary, old, -, allowed, created, rfl⟩ := h
  rw [created] at allowed ⊢
  exact ⟨fromRow_rowOf coherent binding summary allowed, rfl⟩

theorem insertEntry_eq_ok (h : t.insertEntry row = .ok t') :
    t' = { t with entries := t.entries ++ [row] } ∧
      ∀ e ∈ t.entries, ¬ (e.entry.kind = row.entry.kind ∧
        e.entry.commandId = row.entry.commandId) := by
  simp only [insertEntry, bind_eq_ok, exists_unit, refuse_eq_ok, pure_eq_ok] at h
  obtain ⟨-, -, unique, -, -, rfl⟩ := h
  exact ⟨rfl, fun e mem same => unique ⟨e, mem, same⟩⟩

structure Appended (sha256 : List Char → String) (t : EvidenceTables) (r : Retained)
    (row : StoredEntry) (t' : EvidenceTables) : Prop where
  result : t' = { t with
    occurrence := some (rowOf r r.summary.createdAt)
    entries := t.entries ++ [row] }
  reads : fromRow sha256 (rowOf r r.summary.createdAt) r.binding.occurrence = .ok r
  unique : ∀ e ∈ t.entries, ¬ (e.entry.kind = row.entry.kind ∧
    e.entry.commandId = row.entry.commandId)
  valid : row.entry.validate r.binding.occurrence.scope = .ok ()
  sequence : row.entry.sequence = r.summary.entryCount
  revision : row.entry.recordedRevision = r.summary.effectRevision

theorem append_eq_ok (coherent : r.Coherent) (h : t.append sha256 r row = .ok t') :
    Appended sha256 t r row t' := by
  simp only [append, bind_eq_ok, exists_unit, refuse_eq_ok, not_or, not_not] at h
  obtain ⟨valid, ⟨sequence, revision⟩, inserted, added, saved⟩ := h
  obtain ⟨rfl, unique⟩ := insertEntry_eq_ok added
  obtain ⟨reads, rfl⟩ := save_eq_ok coherent saved
  exact ⟨rfl, reads, unique, valid, sequence, revision⟩

theorem Appended.holds (appended : Appended sha256 t r row t')
    (summarises : r.Summarises (t.log ++ [row.entry])) : t'.Holds sha256 r := by
  obtain ⟨rfl, reads, -⟩ := appended
  exact ⟨rfl, reads, by rw [log, List.map_append]; exact summarises⟩

/- Entries that are found again. -/

/-- The rows of `t` are rows of `t'`. -/
structure Extends (t t' : EvidenceTables) : Prop where
  entries : t.entries <+: t'.entries
  events : t.events <+: t'.events
  occurrence : ∀ row, t.occurrence = some row →
    t'.occurrence.map (·.occurrence) = some row.occurrence

theorem Extends.refl (t : EvidenceTables) : Extends t t :=
  ⟨List.prefix_refl _, List.prefix_refl _, fun row given => by rw [given]; rfl⟩

theorem Extends.trans {t₁ : EvidenceTables} (first : Extends t t₁) (second : Extends t₁ t') :
    Extends t t' := by
  refine ⟨first.entries.trans second.entries, first.events.trans second.events, fun row given => ?_⟩
  obtain ⟨row₁, given₁, occurrence⟩ := Option.map_eq_some_iff.mp (first.occurrence row given)
  rw [← occurrence]
  exact second.occurrence row₁ given₁

theorem entry_eq_ok {o : EffectOccurrence} {kind : EntryKind} {id : String} :
    t.entry o kind id = .ok (some row) ↔ t.occurrence.map (·.occurrence) = some o ∧
      t.entries.find? (fun e => e.entry.kind = kind ∧ e.entry.commandId = id) = some row ∧
      row.entry.validate o.scope = .ok () := by
  have held : t.occurrence.any (·.occurrence = o) = true ↔
      t.occurrence.map (·.occurrence) = some o := by
    cases t.occurrence with
    | none => simp
    | some row => simp
  rw [entry]
  by_cases here : t.occurrence.map (·.occurrence) = some o
  · rw [if_pos (held.mpr here)]
    cases found : t.entries.find? (fun e => e.entry.kind = kind ∧ e.entry.commandId = id) with
    | none => simp
    | some e =>
      simp only [bind_eq_ok, exists_unit, pure_eq_ok, Option.some.injEq]
      constructor
      · rintro ⟨valid, rfl⟩
        exact ⟨here, rfl, valid⟩
      · rintro ⟨-, rfl, valid⟩
        exact ⟨valid, rfl⟩
  · rw [if_neg (mt held.mp here)]
    simp [here]

theorem Extends.entry (extends_ : Extends t t') {o : EffectOccurrence} {kind : EntryKind}
    {id : String} (found : t.entry o kind id = .ok (some row)) :
    t'.entry o kind id = .ok (some row) := by
  obtain ⟨here, first, valid⟩ := entry_eq_ok.mp found
  obtain ⟨held, given, rfl⟩ := Option.map_eq_some_iff.mp here
  exact entry_eq_ok.mpr ⟨extends_.occurrence held given,
    extends_.entries.find?_eq_some first, valid⟩

theorem Appended.entry (appended : Appended sha256 t r row t') {o : EffectOccurrence}
    (occurrence : r.binding.occurrence = o) :
    t'.entry o row.entry.kind row.entry.commandId = .ok (some row) := by
  refine entry_eq_ok.mpr ⟨?_, ?_, occurrence ▸ appended.valid⟩
  · rw [appended.result]
    exact congrArg some occurrence
  · have absent : t.entries.find? (fun e => e.entry.kind = row.entry.kind ∧
        e.entry.commandId = row.entry.commandId) = none := by
      rw [List.find?_eq_none]
      intro e mem
      simpa using appended.unique e mem
    rw [appended.result, List.find?_append, absent]
    simp

/- Parts of transactions. -/

structure Grown (sha256 : List Char → String) (t : EvidenceTables) (row : StoredEntry)
    (r : Retained) (t' : EvidenceTables) : Prop where
  entries : t'.entries = t.entries ++ [row]
  holds : t'.Holds sha256 r
  found : t'.entry r.binding.occurrence row.entry.kind row.entry.commandId = .ok (some row)
  sequence : row.entry.sequence = r.summary.entryCount
  revision : row.entry.recordedRevision = r.summary.effectRevision

structure Steps (sha256 : List Char → String) (t t' : EvidenceTables) : Prop where
  sound : t'.Sound sha256
  grew : t'.entries = t.entries ∨ ∃ row r, Grown sha256 t row r t'
  events : t.events <+: t'.events
  occurrence : ∀ row, t.occurrence = some row →
    t'.occurrence.map (·.occurrence) = some row.occurrence

theorem Steps.extends (steps : Steps sha256 t t') : Extends t t' := by
  refine ⟨?_, steps.events, steps.occurrence⟩
  cases steps.grew with
  | inl same => exact same ▸ List.prefix_refl _
  | inr grown =>
    obtain ⟨row, r, grown⟩ := grown
    exact grown.entries ▸ List.prefix_append _ _

theorem Steps.refl (sound : t.Sound sha256) : Steps sha256 t t :=
  ⟨sound, .inl rfl, List.prefix_refl _, fun row given => by rw [given]; rfl⟩

structure SameLedger (t t' : EvidenceTables) : Prop where
  occurrence : t'.occurrence = t.occurrence
  entries : t'.entries = t.entries
  events : t'.events = t.events

theorem SameLedger.refl (t : EvidenceTables) : SameLedger t t := ⟨rfl, rfl, rfl⟩

theorem SameLedger.holds (same : SameLedger t t') (holds : t.Holds sha256 r) : t'.Holds sha256 r :=
  ⟨same.occurrence ▸ holds.row, holds.reads, by rw [log, same.entries]; exact holds.summarises⟩

theorem SameLedger.sound (same : SameLedger t t') (sound : t.Sound sha256) : t'.Sound sha256 := by
  obtain ⟨none, empty⟩ | ⟨r, holds⟩ := sound
  · exact .inl ⟨same.occurrence ▸ none, same.entries ▸ empty⟩
  · exact .inr ⟨r, same.holds holds⟩

theorem SameLedger.steps (same : SameLedger t t') (sound : t.Sound sha256) : Steps sha256 t t' :=
  ⟨same.sound sound, .inl same.entries, same.events ▸ List.prefix_refl _,
    fun row given => by rw [same.occurrence, given]; rfl⟩

theorem grown_congr {t₁ : EvidenceTables} (same : t₁.entries = t.entries)
    (grew : t'.entries = t₁.entries ∨ ∃ row r, Grown sha256 t₁ row r t') :
    t'.entries = t.entries ∨ ∃ row r, Grown sha256 t row r t' := by
  cases grew with
  | inl unchanged => exact .inl (unchanged.trans same)
  | inr grown =>
    obtain ⟨row, r, entries, holds, found, sequence, revision⟩ := grown
    exact .inr ⟨row, r, same ▸ entries, holds, found, sequence, revision⟩

theorem SameLedger.then {t₁ : EvidenceTables} (same : SameLedger t t₁)
    (steps : Steps sha256 t₁ t') : Steps sha256 t t' := by
  obtain ⟨sound, grew, events, occurrence⟩ := steps
  exact ⟨sound, grown_congr same.entries grew, same.events ▸ events,
    fun row given => occurrence row (same.occurrence ▸ given)⟩

structure Copies (a : ApprovalRecord) (r : Retained) : Prop where
  lookup : r.binding.lookup = a.effectLookup
  scope : a.snapshot.scope = a.runScope
  occurrence : ∃ activationId, a.snapshot.resumedActivationId = some activationId ∧
    r.binding.occurrence = ⟨a.snapshot.scope, a.workflowId, activationId, a.waitKey⟩

theorem Copies.congr {a : ApprovalRecord} {r' : Retained} (copies : Copies a r)
    (same : r'.binding = r.binding) : Copies a r' := by
  obtain ⟨lookup, scope, occurrence⟩ := copies
  rw [← same] at lookup occurrence
  exact ⟨lookup, scope, occurrence⟩

structure Ensured (sha256 : List Char → String) (t : EvidenceTables) (workflowId key : String)
    (r : Retained) (t' : EvidenceTables) : Prop where
  holds : t'.Holds sha256 r
  result : t' = { t with occurrence := t'.occurrence }
  approval : ∃ a activationId, t.findApproval workflowId key = some a ∧
    a.snapshot.resumedActivationId = some activationId ∧
    r.binding.occurrence = ⟨a.snapshot.scope, workflowId, activationId, key⟩
  before : ∀ row, t.occurrence = some row → row.occurrence = r.binding.occurrence
  copies : ∀ a, t.approval = some a → Copies a r
  journal : ∀ held, t.Holds sha256 held → r.journal = held.journal

theorem Holds.bind (holds : t.Holds sha256 r) (lookup : Option String)
    (h : t.save sha256 { r with binding := { r.binding with lookup := lookup } } = .ok t') :
    t'.Holds sha256 { r with binding := { r.binding with lookup := lookup } } ∧
      t' = { t with occurrence := t'.occurrence } := by
  have c := holds.coherent
  have s := holds.summarises
  have coherent : Retained.Coherent
      { r with binding := { r.binding with lookup := lookup } } :=
    ⟨c.occurrence, c.program, c.callable, c.version, c.reference, c.assessment, c.result⟩
  obtain ⟨reads, rfl⟩ := save_eq_ok coherent h
  exact ⟨⟨rfl, reads, ⟨s.sequences, s.revisions, s.counted, s.revised, s.reference, s.discrepancy,
    s.assessed, s.chained, s.conflict, s.currentAssessment, s.assessmentResult⟩⟩, rfl⟩

theorem findApproval_eq_some {workflowId key : String} {a : ApprovalRecord} :
    t.findApproval workflowId key = some a ↔
      t.approval = some a ∧ a.workflowId = workflowId ∧ a.waitKey = key := by
  simp [findApproval, Option.filter_eq_some_iff]

theorem Holds.unique {r' : Retained} (holds : t.Holds sha256 r) (holds' : t.Holds sha256 r') :
    r = r' := by
  have same := Option.some.inj (holds.row.symm.trans holds'.row)
  have bound : r'.binding = r.binding := congrArg OccurrenceRow.binding same.symm
  have reads := holds.reads
  rw [same, ← bound, holds'.reads, Except.ok.injEq] at reads
  exact reads.symm

theorem ensure_eq_ok (sound : t.Sound sha256) {workflowId key : String}
    {verified : Option String} (h : t.ensure sha256 workflowId key now verified = .ok (r, t')) :
    Ensured sha256 t workflowId key r t' := by
  simp only [ensure, bind_eq_ok, okOr_eq_ok, exists_unit, refuse_eq_ok, not_not] at h
  obtain ⟨a, found, activationId, resumed, scope, loaded, load, h⟩ := h
  obtain ⟨approval, rfl, rfl⟩ := findApproval_eq_some.mp found
  cases loaded with
  | some saved =>
    obtain ⟨holds, bound⟩ := sound.load load
    have before : ∀ row, t.occurrence = some row → row.occurrence = saved.binding.occurrence := by
      intro row given
      rw [holds.row, Option.some.injEq] at given
      exact given ▸ rfl
    have journal : ∀ held, t.Holds sha256 held → saved.journal = held.journal :=
      fun held given => by rw [holds.unique given]
    simp only at h
    split at h
    · simp only [bind_eq_ok, exists_unit, refuse_eq_ok, not_not, pure_eq_ok, Prod.mk.injEq] at h
      obtain ⟨lookup, rfl, rfl⟩ := h
      refine ⟨holds, rfl, ⟨a, activationId, found, resumed, bound⟩, before, fun b given => ?_,
        journal⟩
      obtain rfl := Option.some.inj (approval.symm.trans given)
      exact ⟨lookup.symm, scope, activationId, resumed, bound⟩
    · next unbound =>
      split at h
      · simp only [bind_eq_ok, pure_eq_ok, Prod.mk.injEq] at h
        obtain ⟨_, written, rfl, rfl⟩ := h
        obtain ⟨held, result⟩ := holds.bind _ written
        refine ⟨held, result, ⟨a, activationId, found, resumed, bound⟩, before, fun b given => ?_,
          journal⟩
        obtain rfl := Option.some.inj (approval.symm.trans given)
        exact ⟨rfl, scope, activationId, resumed, bound⟩
      · next ungranted =>
        obtain ⟨rfl, rfl⟩ : saved = r ∧ t = t' := by simpa using h
        refine ⟨holds, rfl, ⟨a, activationId, found, resumed, bound⟩, before, fun b given => ?_,
          journal⟩
        obtain rfl := Option.some.inj (approval.symm.trans given)
        rw [Bool.not_eq_true, Option.isSome_eq_false_iff, Option.isNone_iff_eq_none]
          at unbound ungranted
        exact ⟨unbound.trans ungranted.symm, scope, activationId, resumed, bound⟩
  | none =>
    simp only [bind_eq_ok, exists_unit, refuse_eq_ok, pure_eq_ok, Prod.mk.injEq] at h
    obtain ⟨-, binding, summary, _, inserted, rfl, rfl⟩ := h
    simp only [insertOccurrence, bind_eq_ok, exists_unit, refuse_eq_ok, not_or, not_not, pure_eq_ok,
      Bool.not_eq_true, Option.isSome_eq_false_iff, Option.isNone_iff_eq_none] at inserted
    obtain ⟨absent, ⟨allowed, -⟩, rfl⟩ := inserted
    have empty : t.entries = [] := by
      obtain ⟨-, empty⟩ | ⟨held, holds⟩ := sound
      · exact empty
      · exact absurd holds.row (by simp [absent])
    refine ⟨⟨rfl, fromRow_rowOf ?_ binding summary allowed, ?_⟩, rfl,
      ⟨a, activationId, found, resumed, rfl⟩, by simp [absent], fun b given => ?_, ?_⟩
    · exact ⟨rfl, rfl, rfl, rfl, rfl, by simp, rfl⟩
    · rw [log, empty]
      exact ⟨rfl, rfl, rfl, rfl, rfl, by simp, rfl, trivial, rfl, rfl, rfl⟩
    · obtain rfl := Option.some.inj (approval.symm.trans given)
      exact ⟨rfl, scope, activationId, resumed, rfl⟩
    · exact fun held holds => absurd holds.row (by simp [absent])

theorem Ensured.steps {workflowId key : String} (ensured : Ensured sha256 t workflowId key r t') :
    Steps sha256 t t' ∧ t'.approval = t.approval ∧ t'.locals = t.locals := by
  obtain ⟨holds, result, -, before, -, -⟩ := ensured
  have same : t'.entries = t.entries ∧ t'.events = t.events ∧ t'.approval = t.approval ∧
      t'.locals = t.locals := by
    rw [result]
    exact ⟨rfl, rfl, rfl, rfl⟩
  refine ⟨⟨.inr ⟨r, holds⟩, .inl same.1, same.2.1 ▸ List.prefix_refl _, fun row given => ?_⟩,
    same.2.2⟩
  rw [holds.row, before row given]
  rfl

theorem Steps.then {t₁ : EvidenceTables} (first : Steps sha256 t t₁) (same : t₁.entries = t.entries)
    (second : Steps sha256 t₁ t') : Steps sha256 t t' := by
  refine ⟨second.sound, grown_congr same second.grew, first.events.trans second.events,
    fun row given => ?_⟩
  obtain ⟨row₁, given₁, occurrence⟩ := Option.map_eq_some_iff.mp (first.occurrence row given)
  rw [← occurrence]
  exact second.occurrence row₁ given₁

theorem Appended.steps {r' : Retained} {row : StoredEntry} (holds : t.Holds sha256 r)
    (appended : Appended sha256 t r' row t') (binding : r'.binding = r.binding)
    (summarises : r'.Summarises (t.log ++ [row.entry])) : Steps sha256 t t' := by
  have after := appended.holds summarises
  have entries : t'.entries = t.entries ++ [row] := by rw [appended.result]
  have events : t'.events = t.events := by rw [appended.result]
  refine ⟨.inr ⟨r', after⟩,
    .inr ⟨row, r', entries, after, appended.entry rfl, appended.sequence, appended.revision⟩,
    events ▸ List.prefix_refl _, fun old given => ?_⟩
  rw [holds.row, Option.some.injEq] at given
  rw [after.row, ← given]
  exact congrArg (fun b => some (EffectEvidenceBinding.occurrence b)) binding

theorem observed_eq_ok {r₀ r₁ r₂ : Retained} {row : StoredEntry} {id : String}
    {source : EffectObservationSource} {output : Json} (holds : t.Holds sha256 r)
    (prepared : ∃ journal state, r₀ = { r with
      journal := journal
      summary := { r.summary with journalState := state } })
    (report : r₀.report output = .ok r₁) (next : r₁.next now = .ok r₂)
    (entry : row.entry = ⟨r₂.summary.entryCount, now, r₂.summary.effectRevision,
      .observation id source output⟩)
    (h : t.append sha256 r₂ row = .ok t') :
    Steps sha256 t t' ∧ Appended sha256 t r₂ row t' ∧ t'.Holds sha256 r₂ ∧
      r₂.binding = r.binding ∧ r₂.journal = r₀.journal := by
  obtain ⟨journal, state, rfl⟩ := prepared
  have c := holds.coherent
  have s := holds.summarises
  have reported := Retained.report_eq_ok report
  have advanced := Retained.next_eq_ok next
  obtain ⟨resolution, discrepancy, summary⟩ := reported.summary
  have binding : r₂.binding = r.binding := by rw [advanced.result]; exact reported.binding
  have coherent : r₂.Coherent := by
    rw [advanced.result]
    refine ⟨?_, ?_, ?_, ?_, ?_, ?_, ?_⟩
    · simp only [summary, reported.binding]; exact c.occurrence
    · simp only [summary, reported.binding]; exact c.program
    · simp only [summary, reported.binding]; exact c.callable
    · simp only [summary, reported.binding]; exact c.version
    · simp only [reported.currentAssessment, reported.resolution]; exact c.reference
    · simp only [reported.currentAssessment, reported.binding]; exact c.assessment
    · simp only [reported.currentAssessment, reported.assessmentResult]; exact c.result
  have appended := append_eq_ok coherent h
  have prepared : Retained.Summarises { r with
      journal := journal
      summary := { r.summary with journalState := state } } t.log :=
    ⟨s.sequences, s.revisions, s.counted, s.revised, s.reference, s.discrepancy, s.assessed,
      s.chained, s.conflict, s.currentAssessment, s.assessmentResult⟩
  have after := prepared.observation reported advanced (e := row.entry) (by rw [entry])
    (by rw [entry]) (by rw [entry]; rfl) (by rw [entry]; rfl)
  refine ⟨appended.steps holds binding after, appended, appended.holds after, binding, ?_⟩
  rw [advanced.result]
  exact reported.journal

def Mirrored (sha256 : List Char → String) (t : EvidenceTables) : Prop :=
  ∃ r, t.Holds sha256 r ∧ ∀ a, t.approval = some a →
    Copies a r ∧ (a.IsConfirmed → r.journal.isSome = true)

theorem legacyConfirmation_eq_ok (holds : t.Holds sha256 r)
    (copies : ∀ a, t.approval = some a → Copies a r)
    (h : t.legacyConfirmation serde sha256 r now = .ok t') :
    Steps sha256 t t' ∧ t'.Mirrored sha256 ∧ t'.approval = t.approval ∧ t'.locals = t.locals := by
  have unchanged := Steps.refl (.inr ⟨r, holds⟩ : t.Sound sha256)
  rw [legacyConfirmation] at h
  split at h
  · next copied =>
    obtain rfl : t = t' := by simpa using h
    exact ⟨unchanged, ⟨r, holds, fun a given => ⟨copies a given, fun _ => copied⟩⟩, rfl, rfl⟩
  · simp only [bind_eq_ok, okOr_eq_ok] at h
    obtain ⟨a, found, h⟩ := h
    have approval := (findApproval_eq_some.mp found).1
    split at h
    · next opened =>
      obtain rfl : t = t' := by simpa using h
      refine ⟨unchanged, ⟨r, holds, fun b given => ⟨copies b given, fun confirmed => ?_⟩⟩, rfl,
        rfl⟩
      obtain rfl := Option.some.inj (approval.symm.trans given)
      exact (confirmed.elim opened.1 opened.2).elim
    · simp only [bind_eq_ok, okOr_eq_ok, exists_unit] at h
      obtain ⟨journal, -, found, -, -, -, r₁, report, r₂, next, h⟩ := h
      obtain ⟨steps, appended, after, binding, copied⟩ :=
        observed_eq_ok holds ⟨_, _, rfl⟩ report next rfl h
      have same : t'.approval = t.approval := by rw [appended.result]
      refine ⟨steps, ⟨r₂, after, fun b given => ?_⟩, same, by rw [appended.result]⟩
      exact ⟨(copies b (same ▸ given)).congr binding, fun _ => by rw [copied]; rfl⟩

end EvidenceTables
end Ledgence
