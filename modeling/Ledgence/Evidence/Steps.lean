import Ledgence.Evidence.Reviews

/-! Every transaction adds one entry to the log at most and keeps its summary true. What it accepts
is found again by its id. -/
open Kit Kit.Checked

namespace Ledgence
namespace EvidenceTables
variable {server : EvidenceServer} {serde : Serde} {sha256 : List Char → String}
  {call : EvidenceCall} {t t' : EvidenceTables} {r r' : Retained} {row : StoredEntry} {now : Nat}

/- The second version. -/

theorem claimed_eq_ok {id attempt : String} {worker : EffectWorkerIdentity}
    {permission : ApprovedEffectDisposition} (holds : t.Holds sha256 r)
    (next : r.next now = .ok r')
    (entry : row.entry = ⟨r'.summary.entryCount, now, r'.summary.effectRevision,
      .claim id attempt worker permission⟩)
    (h : t.append sha256 r' row = .ok t') :
    Steps sha256 t t' ∧ Appended sha256 t r' row t' ∧ t'.Holds sha256 r' ∧
      r'.binding = r.binding ∧ r'.journal = r.journal := by
  have c := holds.coherent
  have advanced := Retained.next_eq_ok next
  have binding : r'.binding = r.binding := by rw [advanced.result]
  have coherent : r'.Coherent := by
    rw [advanced.result]
    exact ⟨c.occurrence, c.program, c.callable, c.version, c.reference, c.assessment, c.result⟩
  have appended := append_eq_ok coherent h
  have after := holds.summarises.claim advanced (e := row.entry) (by rw [entry]) (by rw [entry])
    (by rw [entry]; rfl) (by rw [entry]; rfl)
  refine ⟨appended.steps holds binding after, appended, appended.holds after, binding, ?_⟩
  rw [advanced.result]

structure Claimed (serde : Serde) (sha256 : List Char → String) (t : EvidenceTables)
    (evidence : Evidence) (worker : EffectWorkerIdentity) (command : EffectClaimV2Command)
    (receipt : EffectClaimV2Receipt) (t' : EvidenceTables) : Prop where
  transition : Transition serde sha256 t t'
  approval : ∃ t₁, Granted sha256 t command.legacy evidence t₁ ∧ t'.approval = t₁.approval ∧
    t'.locals = t₁.locals
  entry : ∃ entry claim attempt permission,
    t'.entries = t.entries ++ [⟨entry, .claim, none, some (.claim command), some (.claim claim)⟩] ∧
    entry.body = .claim command.claimId attempt worker permission ∧
    (∀ e ∈ t.entries, ¬ (e.entry.kind = .claim ∧ e.entry.commandId = command.claimId)) ∧
    entry.validate command.occurrence.scope = .ok () ∧
    (receipt = .dispatch claim ∨ receipt = .lookupOnly claim)
  occurrence : t'.occurrence.map (·.occurrence) = some command.occurrence

theorem acceptClaim_eq_ok {evidence : Evidence} {worker : EffectWorkerIdentity}
    {command : EffectClaimV2Command} {receipt : EffectClaimV2Receipt} (sound : t.Sound sha256)
    {a : ApprovalRecord} (found : t.approval = some a)
    (resumed : Resumed a command.owner command.workflowId command.approvalKey)
    (h : t.acceptClaim sha256 call evidence worker command = .ok (receipt, t')) :
    Claimed serde sha256 t evidence worker command receipt t' := by
  simp only [acceptClaim, bind_eq_ok, exists_unit, pure_eq_ok, Prod.mk.injEq] at h
  obtain ⟨grant, -, t₁, granting, ⟨r, t₂⟩, ensuring, r', next, -, t₃, appending, rfl, rfl⟩ := h
  have granted := grant_eq_ok granting
  have ensured := ensure_eq_ok (granted.ledger.sound sound) ensuring
  obtain ⟨steps, appended, after, binding, copied⟩ := claimed_eq_ok ensured.holds next rfl appending
  obtain ⟨kept, approval, locals⟩ := ensured.steps
  have entries : t₂.entries = t.entries := by rw [ensured.result]; exact granted.ledger.entries
  obtain ⟨b, review, same⟩ := granted.sameReview found
  have occurrence : r'.binding.occurrence = command.occurrence := by
    rw [binding]
    exact ensured.occurrence review (same.resumed resumed)
  have approval : t₃.approval = t₁.approval := by rw [appended.result]; exact approval
  have locals : t₃.locals = t₁.locals := by rw [appended.result]; exact locals
  refine ⟨⟨granted.ledger.then (kept.then (by rw [ensured.result]) steps),
    granted.review.then approval locals, ?_⟩, ⟨t₁, granted, approval, locals⟩,
    ⟨_, _, _, _, (by rw [appended.result, entries]), rfl, ?_, ?_, ?_⟩, ?_⟩
  · rintro ⟨held, holds, mirrored⟩
    refine ⟨r', after, fun b given => ?_⟩
    rw [copied, ensured.journal held (granted.ledger.holds holds)]
    rw [approval] at given
    refine ⟨(ensured.copies b given).congr binding, fun confirmed => ?_⟩
    -- A grant opens the effect, so a confirmed one was confirmed before.
    obtain ⟨rfl, -⟩ | ⟨_, b, -, granted, -, -, opened, -⟩ := granted.approval
    · exact (mirrored b given).2 confirmed
    · obtain rfl := Option.some.inj (granted.symm.trans given)
      rw [ApprovalRecord.IsConfirmed, opened] at confirmed
      simp at confirmed
  · exact entries ▸ appended.unique
  · exact occurrence ▸ appended.valid
  · exact ite_eq_or_eq _ _ _
  · rw [appended.result]
    exact congrArg some occurrence

inductive ClaimOutcome (serde : Serde) (sha256 : List Char → String) (t : EvidenceTables)
    (evidence : Evidence) (worker : EffectWorkerIdentity) (principal : VerifiedPrincipal)
    (command : EffectClaimV2Command) (receipt : EffectClaimV2Receipt) : EvidenceTables → Prop
  | journaled (record : LocalStepRecord) (attempt : String)
      (prior : evidence.prior = some (record, attempt))
      (replay : replayJournal serde evidence record worker command = .ok receipt) :
      ClaimOutcome serde sha256 t evidence worker principal command receipt t
  | known (row : StoredEntry) (fresh : evidence.prior = none)
      (found : t.entry command.occurrence .claim command.claimId = .ok (some row))
      (valid : validateClaim row principal command = .ok ())
      (replay : replayClaim row = .ok receipt) :
      ClaimOutcome serde sha256 t evidence worker principal command receipt t
  | accepted (t' : EvidenceTables) (fresh : evidence.prior = none)
      (claimed : Claimed serde sha256 t evidence worker command receipt t') :
      ClaimOutcome serde sha256 t evidence worker principal command receipt t'

structure ClaimedV2 (serde : Serde) (sha256 : List Char → String) (t : EvidenceTables)
    (principal : VerifiedPrincipal) (command : EffectClaimV2Command)
    (receipt : EffectClaimV2Receipt) (worker : EffectWorkerIdentity) (a : ApprovalRecord)
    (t' : EvidenceTables) : Prop where
  valid : command.validate = .ok ()
  identity : EffectWorkerIdentity.fromPrincipal principal = .ok worker
  approval : t.approval = some a
  resumed : Resumed a command.owner command.workflowId command.approvalKey
  lookup : ∀ l ∈ a.effectLookup, l = command.lookup
  action : a.snapshot.action.sameAs command.action = .ok true
  journal : (t.evidenceOf sha256 a command.owner).prior.isSome = true →
    (t.evidenceOf sha256 a command.owner).confirmed = true
  outcome : ClaimOutcome serde sha256 t (t.evidenceOf sha256 a command.owner) worker principal
    command receipt t'
  checked : receipt.validateFor serde sha256 principal command = .ok ()

theorem requireEffectWorker_eq_ok {principal : VerifiedPrincipal} {scope : Scope}
    {worker : EffectWorkerIdentity}
    (h : server.requireEffectWorker principal scope now = .ok worker) :
    EffectWorkerIdentity.fromPrincipal principal = .ok worker := by
  simp only [EvidenceServer.requireEffectWorker, bind_eq_ok, exists_unit, refuse_eq_ok] at h
  obtain ⟨-, _, -, -, -, identity⟩ := h
  exact identity

theorem claimEffectV2Once_eq_ok {principal : VerifiedPrincipal} {command : EffectClaimV2Command}
    {receipt : EffectClaimV2Receipt} (sound : t.Sound sha256)
    (h : t.claimEffectV2Once server serde sha256 call principal command = .ok (receipt, t')) :
    ∃ worker a, ClaimedV2 serde sha256 t principal command receipt worker a t' := by
  simp only [claimEffectV2Once, bind_eq_ok, exists_unit, refuse_eq_ok, pure_eq_ok, ifSome_eq_ok,
    Prod.mk.injEq, not_or, not_and, Bool.not_eq_false, loadEvidence_eq_ok] at h
  obtain ⟨valid, -, snapshotId, -, worker, identity, -, evidence, ⟨-, a, approval, resumed, lookup,
    rfl⟩, same, action, ⟨rfl, journal⟩, existing, loaded, old, searched, known, ⟨answer, t₁⟩,
    answered, -, -, -, -, checked, rfl, rfl⟩ := h
  refine ⟨worker, a, valid, requireEffectWorker_eq_ok identity, approval, resumed, lookup, action,
    fun held => by simpa using journal held, ?_, checked⟩
  unfold answerClaim at answered
  split at answered
  · next record attempt prior =>
    simp only [bind_eq_ok, pure_eq_ok, Prod.mk.injEq] at answered
    obtain ⟨_, replay, rfl, rfl⟩ := answered
    exact .journaled record attempt prior replay
  · next row fresh =>
    simp only [bind_eq_ok, pure_eq_ok, Prod.mk.injEq] at answered
    obtain ⟨_, replay, rfl, rfl⟩ := answered
    rw [oldClaim] at searched
    split at searched
    · exact .known row fresh searched (known row rfl) replay
    · cases searched
  · next fresh =>
    exact .accepted _ fresh (acceptClaim_eq_ok sound approval resumed answered)

theorem ClaimedV2.transition {principal : VerifiedPrincipal} {command : EffectClaimV2Command}
    {receipt : EffectClaimV2Receipt} {worker : EffectWorkerIdentity} {a : ApprovalRecord}
    (done : ClaimedV2 serde sha256 t principal command receipt worker a t')
    (sound : t.Sound sha256) : Transition serde sha256 t t' := by
  cases done.outcome with
  | journaled => exact .refl sound
  | known => exact .refl sound
  | accepted _ _ claimed => exact claimed.transition

/- Reports of the second version. -/

theorem matches_self {principal : VerifiedPrincipal} {worker : EffectWorkerIdentity}
    (identity : EffectWorkerIdentity.fromPrincipal principal = .ok worker) :
    worker.matchesPrincipal principal = true := by
  simp [EffectWorkerIdentity.matchesPrincipal, identity, Except.toOption,
    EffectWorkerIdentity.sameWorker]

theorem exactObservation_eq_ok {operation : EvidenceOperation} {bytes : List Char}
    {principal : VerifiedPrincipal} :
    exactObservation row operation bytes principal = .ok () ↔
      row.operation = operation ∧ row.command.map (encode ·.toJson) = some bytes ∧
        ∃ id claimId worker callback ingress output, row.entry.body = .observation id
          (.verifiedWorkerClaim claimId worker callback ingress) output ∧
          worker.matchesPrincipal principal = true := by
  simp only [exactObservation, bind_eq_ok, exists_unit, refuse_eq_ok, not_or, not_not, and_assoc]
  cases body : row.entry.body with
  | assessment => simp
  | claim => simp
  | observation id source output =>
    cases source with
    | legacyJournal => simp
    | verifiedWorkerClaim claimId worker callback ingress => simp

structure Observed (serde : Serde) (sha256 : List Char → String) (t : EvidenceTables)
    (principal : VerifiedPrincipal) (command : EffectObservationCommand)
    (receipt : EffectObservationReceipt) (t' : EvidenceTables) : Prop where
  valid : command.validate = .ok ()
  transition : Transition serde sha256 t t'
  claim : ∃ row frozen, t'.entry command.occurrence .claim command.claimId = .ok (some row) ∧
    claimCommand row principal command.occurrence command.claimId command.reportedCallback =
      .ok frozen
  kept : ∃ row stored,
    t'.entry command.occurrence .observation command.observationId = .ok (some row) ∧
    exactObservation row .observe (encode command.toJson) principal = .ok () ∧
    row.observeReceipt = some stored ∧
    { stored with alreadyAccepted := true } = { receipt with alreadyAccepted := true }
  checked : receipt.validateFor principal command = .ok ()

theorem observeEffectOnce_eq_ok {principal : VerifiedPrincipal} {command : EffectObservationCommand}
    {receipt : EffectObservationReceipt} (sound : t.Sound sha256)
    (h : t.observeEffectOnce server sha256 call principal command = .ok (receipt, t')) :
    Observed serde sha256 t principal command receipt t' := by
  simp only [observeEffectOnce, bind_eq_ok, exists_unit, okOr_eq_ok] at h
  obtain ⟨valid, -, _, loaded, r, rfl, worker, authorized, found, search, claim, rfl, frozen, given,
    before, searched, h⟩ := h
  obtain ⟨holds, occurrence⟩ := sound.load loaded
  cases before with
  | some row =>
    simp only [bind_eq_ok, pure_eq_ok, Prod.mk.injEq, replayObservation, okOr_eq_ok,
      exists_unit] at h
    obtain ⟨_, ⟨exact, stored, kept, checked, rfl⟩, rfl, rfl⟩ := h
    exact ⟨valid, .refl sound, ⟨claim, frozen, search, given⟩,
      ⟨row, stored, searched, exact, kept, rfl⟩, checked⟩
  | none =>
    simp only [bind_eq_ok, pure_eq_ok, Prod.mk.injEq, exists_unit] at h
    obtain ⟨r₁, report, r₂, next, t₁, appending, _, -, checked, rfl, rfl⟩ := h
    obtain ⟨steps, appended, after, binding, copied⟩ :=
      observed_eq_ok holds ⟨r.journal, r.summary.journalState, rfl⟩ report next rfl appending
    have approval : t₁.approval = t.approval := by rw [appended.result]
    refine ⟨valid, ⟨steps, .kept approval (by rw [appended.result]), ?_⟩,
      ⟨claim, frozen, steps.extends.entry search, given⟩,
      ⟨_, _, appended.entry (binding ▸ occurrence), ?_, rfl, rfl⟩, checked⟩
    · rintro ⟨held, same, mirrored⟩
      obtain rfl := same.unique holds
      refine ⟨r₂, after, fun a given => ?_⟩
      rw [copied]
      exact ⟨(mirrored a (approval ▸ given)).1.congr binding, (mirrored a (approval ▸ given)).2⟩
    · exact exactObservation_eq_ok.mpr ⟨rfl, rfl, _, _, _, _, _, _, rfl,
        matches_self (requireEffectWorker_eq_ok authorized)⟩

theorem journaled_eq_ok {evidence : Evidence} {command : EffectConfirmV2Command}
    {journal : LocalStepRecord}
    (h : t.journaled sha256 call evidence command now = .ok (journal, t')) :
    ConfirmOutcome sha256 t evidence command.owner command.record t' := by
  rw [journaled] at h
  split at h
  · next record attempt prior =>
    simp only [bind_eq_ok, exists_unit, refuse_eq_ok, not_or, not_not, Bool.not_eq_false,
      pure_eq_ok, Prod.mk.injEq] at h
    obtain ⟨⟨confirmed, accepting⟩, same, matching, rfl, rfl, rfl⟩ := h
    exact .before record attempt confirmed prior accepting matching
  · next fresh =>
    simp only [bind_eq_ok, exists_unit, refuse_eq_ok, pure_eq_ok, Prod.mk.injEq] at h
    obtain ⟨-, _, appended, -, rfl⟩ := h
    exact .now _ _ fresh (appendLocal_eq_ok appended)

structure ConfirmedV2 (serde : Serde) (sha256 : List Char → String) (t : EvidenceTables)
    (principal : VerifiedPrincipal) (command : EffectConfirmV2Command)
    (receipt : EffectConfirmV2Receipt) (t' : EvidenceTables) : Prop where
  valid : command.validate = .ok ()
  transition : Transition serde sha256 t t'
  claim : ∃ row frozen, t'.entry command.occurrence .claim command.claimId = .ok (some row) ∧
    claimCommand row principal command.occurrence command.claimId command.reportedCallback =
      .ok frozen ∧
    encode frozen.owner.toJson = encode command.owner.toJson ∧ frozen.lookup = command.lookup ∧
    effectRecordMatches serde command.record frozen.action frozen.lookup = .ok true
  key : command.record.key = approvedEffectStepKey sha256 command.approvalKey
  kept : ∃ row stored,
    t'.entry command.occurrence .observation command.observationId = .ok (some row) ∧
    exactObservation row .confirm (encode command.toJson) principal = .ok () ∧
    row.confirmReceipt = some stored ∧
    { stored with alreadyAccepted := true } = { receipt with alreadyAccepted := true }
  checked : receipt.validateFor principal command = .ok ()

theorem Holds.key (holds : t.Holds sha256 r) :
    r.binding.key = approvedEffectStepKey sha256 r.binding.occurrence.approvalKey := by
  have valid := (fromRow_eq_ok holds.reads).binding
  simp only [EffectEvidenceBinding.validate, bind_eq_ok, exists_unit, refuse_eq_ok, not_or,
    not_not] at valid
  obtain ⟨-, -, -, ⟨-, -, -, -, -, key⟩, -⟩ := valid
  exact key

theorem confirmEffectV2Once_eq_ok {principal : VerifiedPrincipal} {command : EffectConfirmV2Command}
    {receipt : EffectConfirmV2Receipt} (sound : t.Sound sha256)
    (h : t.confirmEffectV2Once server serde sha256 call principal command = .ok (receipt, t')) :
    ConfirmedV2 serde sha256 t principal command receipt t' := by
  simp only [confirmEffectV2Once, bind_eq_ok, exists_unit, okOr_eq_ok, refuse_eq_ok, not_or,
    not_not, Bool.not_eq_false] at h
  obtain ⟨valid, -, _, loaded, r, rfl, worker, authorized, found, search, claim, rfl, frozen, given,
    ⟨owner, lookup⟩, same, matching, ⟨rfl, key⟩, before, searched, h⟩ := h
  obtain ⟨holds, occurrence⟩ := sound.load loaded
  have key : command.record.key = approvedEffectStepKey sha256 command.approvalKey := by
    rw [key, holds.key, occurrence]
    rfl
  cases before with
  | some row =>
    simp only [bind_eq_ok, pure_eq_ok, Prod.mk.injEq, replayConfirm, okOr_eq_ok,
      exists_unit] at h
    obtain ⟨_, ⟨exact, stored, kept, checked, rfl⟩, rfl, rfl⟩ := h
    exact ⟨valid, .refl sound, ⟨claim, frozen, search, given, owner, lookup, matching⟩, key,
      ⟨row, stored, searched, exact, kept, rfl⟩, checked⟩
  | none =>
    simp only [bind_eq_ok, pure_eq_ok, Prod.mk.injEq, exists_unit, refuse_eq_ok, not_not,
      loadEvidence_eq_ok] at h
    obtain ⟨snapshotId, -, _, -, -, evidence, ⟨-, a, approval, resumed, -, rfl⟩, bound, _, confirmed,
      rfl, ⟨journal, t₁⟩, journaling, r₁, report, r₂, next, t₂, appending, _, -, -, checked, rfl,
      rfl⟩ := h
    have outcome := journaled_eq_ok journaling
    obtain ⟨steps, appended, after, binding, copied⟩ :=
      observed_eq_ok (outcome.ledger.holds holds) ⟨some journal, .confirmed, rfl⟩ report next rfl
        appending
    have approval' : t₂.approval = t₁.approval := by rw [appended.result]
    have locals' : t₂.locals = t₁.locals := by rw [appended.result]
    have all := outcome.ledger.then steps
    refine ⟨valid, ⟨all, (outcome.review approval resumed bound confirmed).then approval' locals',
        ?_⟩,
      ⟨claim, frozen, all.extends.entry search, given, owner, lookup, matching⟩, key,
      ⟨_, _, appended.entry (binding ▸ occurrence), ?_, rfl, rfl⟩, checked⟩
    · rintro ⟨held, same, mirrored⟩
      obtain rfl := same.unique holds
      refine ⟨r₂, after, fun b given => ?_⟩
      obtain ⟨a, before, same, kept⟩ := outcome.sameReview (approval' ▸ given)
      exact ⟨((mirrored a before).1.review same kept).congr binding, fun _ => by rw [copied]; rfl⟩
    · exact exactObservation_eq_ok.mpr ⟨rfl, rfl, _, _, _, _, _, _, rfl,
        matches_self (requireEffectWorker_eq_ok authorized)⟩

/- Assessments. -/

theorem insertEvent_eq_ok {event : AuditEvent} {command : List Char}
    (h : t.insertEvent sha256 event command = .ok t') :
    t' = { t with events := t.events ++ [⟨event, sha256 command⟩] } ∧ event.validate = .ok () ∧
      ∀ row ∈ t.events, row.event.eventId ≠ event.eventId := by
  simp only [insertEvent, bind_eq_ok, exists_unit, refuse_eq_ok, not_exists, not_and,
    pure_eq_ok] at h
  obtain ⟨valid, unique, rfl⟩ := h
  exact ⟨rfl, valid, unique⟩

theorem insertEvent_found {event : AuditEvent} {command : List Char}
    (h : t.insertEvent sha256 event command = .ok t') :
    t'.events.find? (·.event.eventId = event.eventId) = some ⟨event, sha256 command⟩ := by
  obtain ⟨rfl, -, fresh⟩ := insertEvent_eq_ok h
  have absent : t.events.find? (·.event.eventId = event.eventId) = none := by
    rw [List.find?_eq_none]
    intro row mem
    simpa using fresh row mem
  rw [List.find?_append, absent]
  simp

theorem loadAcceptance_eq_ok {id : String} {command : List Char} {event : AuditEvent} :
    t.loadAcceptance sha256 id command = .ok event ↔
      t.events.find? (·.event.eventId = id) = some ⟨event, sha256 command⟩ ∧
        event.validate = .ok () := by
  simp only [loadAcceptance, bind_eq_ok, exists_unit, okOr_eq_ok, refuse_eq_ok, not_not,
    ok_of_mapError, pure_eq_ok]
  constructor
  · rintro ⟨row, found, digest, valid, rfl⟩
    exact ⟨digest ▸ found, valid⟩
  · rintro ⟨found, valid⟩
    exact ⟨_, found, rfl, valid, rfl⟩

theorem assessed_eq_ok {r' : Retained} {entry : EffectEvidenceEntry} {events : List AcceptanceRow}
    {reference : EffectResolutionReference} {assessment : EffectResolutionAssessment}
    (holds : t.Holds sha256 r) (next : r.next now = .ok r') (row_entry : row.entry = entry)
    (numbers : entry.sequence = r'.summary.entryCount ∧
      entry.recordedRevision = r'.summary.effectRevision)
    (valid : entry.validate r.binding.occurrence.scope = .ok ())
    (given : entry.resolutionReference = some reference) (result : entry.result = assessment.result)
    (output : entry.output = none)
    (predecessor : reference.supersedesResolutionId =
      r.summary.operatorResolution.map (·.reference.resolutionId))
    (earlier : t.events <+: events)
    (h : ({ t with events := events } : EvidenceTables).append sha256
      (r'.assess entry reference assessment) row = .ok t') :
    Steps sha256 t t' ∧
      Appended sha256 { t with events := events } (r'.assess entry reference assessment) row t' ∧
      t'.Holds sha256 (r'.assess entry reference assessment) ∧
      (r'.assess entry reference assessment).binding = r.binding ∧
      (r'.assess entry reference assessment).journal = r.journal := by
  have c := holds.coherent
  have advanced := Retained.next_eq_ok next
  have binding : r'.binding = r.binding := by rw [advanced.result]
  have journal : r'.journal = r.journal := by rw [advanced.result]
  have coherent : (r'.assess entry reference assessment).Coherent := by
    refine ⟨?_, ?_, ?_, ?_, given, ?_, ?_⟩
    · rw [advanced.result]; exact c.occurrence
    · rw [advanced.result]; exact c.program
    · rw [advanced.result]; exact c.callable
    · rw [advanced.result]; exact c.version
    · rintro entry ⟨⟩
      exact ⟨by simp [given], binding ▸ valid⟩
    · exact result.symm
  have appended := append_eq_ok coherent h
  have held : Holds sha256 { t with events := events } r :=
    ⟨holds.row, holds.reads, holds.summarises⟩
  have summarises : (r'.assess entry reference assessment).Summarises (t.log ++ [row.entry]) := by
    rw [row_entry]
    exact holds.summarises.assessment advanced rfl numbers.1 numbers.2 output given result
      predecessor
  obtain ⟨sound, grew, events', occurrence⟩ := appended.steps held binding summarises
  exact ⟨⟨sound, grown_congr (show { t with events := events }.entries = t.entries from rfl) grew,
    earlier.trans events',
    occurrence⟩, appended, appended.holds summarises, binding, journal⟩

structure Resolved (serde : Serde) (sha256 : List Char → String) (t : EvidenceTables)
    (principal : VerifiedPrincipal) (command : EffectResolutionCommand)
    (proof : AuditedEffectResolution) (t' : EvidenceTables) : Prop where
  valid : command.validate = .ok ()
  transition : Transition serde sha256 t t'
  kept : ∃ row stored,
    t'.entry command.occurrence .assessment command.resolutionId = .ok (some row) ∧
    row.operation = .resolve ∧
    row.command.map (encode ·.toJson) = some (encode command.toJson) ∧
    row.resolveReceipt = some stored ∧
    { stored with alreadyAccepted := true } = { proof.receipt with alreadyAccepted := true } ∧
    t'.loadAcceptance sha256 stored.acceptanceEventId (encode command.toJson) =
      .ok proof.acceptanceEvent
  checked : proof.validateFor principal command = .ok ()

theorem acceptResolution_eq_ok {principal : VerifiedPrincipal} {command : EffectResolutionCommand}
    {proof : AuditedEffectResolution} (valid : command.validate = .ok ())
    (holds : t.Holds sha256 r) (occurrence : r.binding.occurrence = command.occurrence)
    (h : t.acceptResolution sha256 call r principal command now = .ok (proof, t')) :
    Resolved serde sha256 t principal command proof t' := by
  simp only [acceptResolution, bind_eq_ok, exists_unit, refuse_eq_ok, not_or, not_not, okOr_eq_ok,
    pure_eq_ok, Prod.mk.injEq] at h
  obtain ⟨⟨basis, predecessor⟩, same, -, -, r', next, accepted, reference, given, t₁, inserting, t₂,
    appending, checked, rfl, rfl⟩ := h
  have found := insertEvent_found inserting
  obtain ⟨rfl, event, -⟩ := insertEvent_eq_ok inserting
  have named : reference.supersedesResolutionId =
      r.summary.operatorResolution.map (·.reference.resolutionId) := by
    rw [predecessor]
    obtain rfl := Option.some.inj given
    rfl
  obtain ⟨steps, appended, after, binding, journal⟩ := assessed_eq_ok holds next rfl ⟨rfl, rfl⟩
    (occurrence ▸ accepted) given rfl rfl named (List.prefix_append _ _) appending
  have approval : t₂.approval = t.approval := by rw [appended.result]
  refine ⟨valid, ⟨steps, .kept approval (by rw [appended.result]), ?_⟩,
    ⟨_, _, appended.entry (binding ▸ occurrence), rfl, rfl, rfl, rfl, ?_⟩, checked⟩
  · rintro ⟨held, same, mirrored⟩
    obtain rfl := same.unique holds
    refine ⟨_, after, fun a given => ?_⟩
    rw [journal]
    exact ⟨(mirrored a (approval ▸ given)).1.congr binding, (mirrored a (approval ▸ given)).2⟩
  · refine loadAcceptance_eq_ok.mpr ⟨?_, event⟩
    rw [appended.result]
    exact found

theorem resolveEffectOnce_eq_ok {principal : VerifiedPrincipal} {command : EffectResolutionCommand}
    {proof : AuditedEffectResolution} (sound : t.Sound sha256)
    (h : t.resolveEffectOnce server sha256 call principal command = .ok (proof, t')) :
    Resolved serde sha256 t principal command proof t' := by
  simp only [resolveEffectOnce, bind_eq_ok, exists_unit, okOr_eq_ok] at h
  obtain ⟨valid, -, _, loaded, r, rfl, -, -, before, searched, h⟩ := h
  obtain ⟨holds, occurrence⟩ := sound.load loaded
  cases before with
  | some row =>
    simp only [bind_eq_ok, pure_eq_ok, Prod.mk.injEq, replayResolution, okOr_eq_ok, exists_unit,
      refuse_eq_ok, not_or, not_not] at h
    obtain ⟨_, ⟨⟨operation, bytes⟩, stored, kept, event, acceptance, -, checked, rfl⟩, rfl, rfl⟩ := h
    exact ⟨valid, .refl sound, ⟨row, stored, searched, operation, bytes, kept, rfl, acceptance⟩,
      checked⟩
  | none => exact acceptResolution_eq_ok valid holds occurrence h

/- Every transaction. -/

theorem backfill_eq_ok {workflowId key : String} (sound : t.Sound sha256)
    (h : t.backfill serde sha256 workflowId key now = .ok t') : Transition serde sha256 t t' := by
  simp only [backfill, bind_eq_ok] at h
  obtain ⟨⟨r, t₁⟩, ensured, mirror⟩ := h
  exact .mirror (.refl t) (.kept rfl rfl) (mirrored sound ensured mirror)

theorem recordLocal_eq_ok {l : LocalResult} (sound : t.Sound sha256)
    (h : t.recordLocal l = .ok t') : Transition serde sha256 t t' := by
  simp only [recordLocal, bind_eq_ok, exists_unit, refuse_eq_ok, pure_eq_ok] at h
  obtain ⟨elsewhere, -, rfl⟩ := h
  have same : SameLedger t { t with locals := t.locals ++ [l] } := ⟨rfl, rfl, rfl⟩
  refine ⟨same.steps sound, .recorded l rfl ?_ rfl, ?_⟩
  · intro a given address
    exact elsewhere (by simp [given, address])
  · rintro ⟨r, holds, mirrored⟩
    exact ⟨r, same.holds holds, mirrored⟩

theorem collect_transition (sound : t.Sound sha256) : Transition serde sha256 t t.collect := by
  have same : SameLedger t t.collect := ⟨rfl, rfl, rfl⟩
  refine ⟨same.steps sound, .collected rfl, ?_⟩
  rintro ⟨r, holds, -⟩
  exact ⟨r, same.holds holds, by simp [collect]⟩

theorem execute_eq_ok {command : EvidenceCommand} {answer : EvidenceAnswer} (sound : t.Sound sha256)
    (h : t.execute server serde sha256 call command = .ok (answer, t')) :
    Transition serde sha256 t t' := by
  cases command with
  | claim command =>
    simp only [execute, bind_eq_ok, pure_eq_ok, Prod.mk.injEq] at h
    obtain ⟨_, done, -, rfl⟩ := h
    obtain ⟨a, claimed⟩ := claimApprovedEffectOnce_eq_ok sound done
    exact claimed.transition
  | confirm command =>
    simp only [execute, bind_eq_ok, pure_eq_ok, Prod.mk.injEq] at h
    obtain ⟨_, done, -, rfl⟩ := h
    obtain ⟨a, confirmed⟩ := confirmApprovedEffectOnce_eq_ok sound done
    exact confirmed.transition
  | claimV2 principal command =>
    simp only [execute, bind_eq_ok, pure_eq_ok, Prod.mk.injEq] at h
    obtain ⟨_, done, -, rfl⟩ := h
    obtain ⟨worker, a, claimed⟩ := claimEffectV2Once_eq_ok sound done
    exact claimed.transition sound
  | confirmV2 principal command =>
    simp only [execute, bind_eq_ok, pure_eq_ok, Prod.mk.injEq] at h
    obtain ⟨_, done, -, rfl⟩ := h
    exact (confirmEffectV2Once_eq_ok sound done).transition
  | observe principal command =>
    simp only [execute, bind_eq_ok, pure_eq_ok, Prod.mk.injEq] at h
    obtain ⟨_, done, -, rfl⟩ := h
    exact (observeEffectOnce_eq_ok sound done).transition
  | resolve principal command =>
    simp only [execute, bind_eq_ok, pure_eq_ok, Prod.mk.injEq] at h
    obtain ⟨_, done, -, rfl⟩ := h
    exact (resolveEffectOnce_eq_ok sound done).transition
  | backfill workflowId key =>
    simp only [execute, bind_eq_ok, pure_eq_ok, Prod.mk.injEq] at h
    obtain ⟨_, done, -, rfl⟩ := h
    exact backfill_eq_ok sound done
  | recordLocal result =>
    simp only [execute, bind_eq_ok, pure_eq_ok, Prod.mk.injEq] at h
    obtain ⟨_, done, -, rfl⟩ := h
    exact recordLocal_eq_ok sound done
  | collect =>
    obtain ⟨-, rfl⟩ : EvidenceAnswer.done = answer ∧ t.collect = t' := by
      simpa [execute] using h
    exact collect_transition sound

end EvidenceTables
end Ledgence
