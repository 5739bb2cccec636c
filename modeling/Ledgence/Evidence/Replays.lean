import Ledgence.Evidence.Steps
import Mathlib.Logic.Relation

/-! Runs: transactions of any callers, in any order. -/
open Kit Kit.Checked

namespace Ledgence
namespace EvidenceTables
variable {serde : Serde} {sha256 : List Char → String} {t₀ t t' : EvidenceTables} {r : Retained}
  {row : StoredEntry}

def Next (serde : Serde) (sha256 : List Char → String) (t t' : EvidenceTables) : Prop :=
  ∃ server call command answer,
    t.execute server serde sha256 call command = .ok (answer, t')

abbrev Reaches (serde : Serde) (sha256 : List Char → String) :
    EvidenceTables → EvidenceTables → Prop :=
  Relation.ReflTransGen (Next serde sha256)

structure Fresh (sha256 : List Char → String) (t : EvidenceTables) : Prop where
  occurrence : t.occurrence = none
  entries : t.entries = []
  approval : ∀ a, t.approval = some a → a.Bound sha256

theorem Fresh.sound (fresh : t.Fresh sha256) : t.Sound sha256 :=
  .inl ⟨fresh.occurrence, fresh.entries⟩

theorem Next.transition (next : Next serde sha256 t t') (sound : t.Sound sha256) :
    Transition serde sha256 t t' := by
  obtain ⟨server, call, command, answer, h⟩ := next
  exact execute_eq_ok sound h

theorem Reaches.keeps {P : EvidenceTables → Prop}
    (keep : ∀ m m', m.Sound sha256 → Transition serde sha256 m m' → P m → P m')
    (run : Reaches serde sha256 t t') (sound : t.Sound sha256) (start : P t) :
    t'.Sound sha256 ∧ P t' := by
  induction run with
  | refl => exact ⟨sound, start⟩
  | tail _ next ih =>
    have transition := next.transition ih.1
    exact ⟨transition.steps.sound, keep _ _ ih.1 transition ih.2⟩

theorem Reaches.sound (run : Reaches serde sha256 t t') (sound : t.Sound sha256) :
    t'.Sound sha256 :=
  (run.keeps (P := fun _ => True) (fun _ _ _ _ _ => trivial) sound trivial).1

theorem Reaches.extends (run : Reaches serde sha256 t t') (sound : t.Sound sha256) :
    Extends t t' :=
  (run.keeps (P := Extends t) (fun _ _ _ step kept => kept.trans step.steps.extends) sound
    (.refl t)).2

theorem ReviewStep.bound (step : ReviewStep serde sha256 t t')
    (bound : ∀ a, t.approval = some a → a.Bound sha256) :
    ∀ a, t'.approval = some a → a.Bound sha256 := by
  intro c given
  cases step with
  | kept approval => exact bound c (approval ▸ given)
  | granted a b _ after _ _ _ _ allowed => exact Option.some.inj (after.symm.trans given) ▸ allowed
  | journaled a b l _ after _ _ _ _ allowed =>
    exact Option.some.inj (after.symm.trans given) ▸ allowed
  | recorded l approval => exact bound c (approval ▸ given)
  | collected approval => simp [approval] at given

theorem Reaches.bound (run : Reaches serde sha256 t₀ t) (fresh : t₀.Fresh sha256) :
    ∀ a, t.approval = some a → a.Bound sha256 :=
  (run.keeps (fun _ _ _ step bound => step.review.bound bound) fresh.sound fresh.approval).2

structure Written (serde : Serde) (sha256 : List Char → String) (t₀ t : EvidenceTables)
    (row : StoredEntry) (m : EvidenceTables) (r : Retained) : Prop where
  before : Reaches serde sha256 t₀ m
  after : Reaches serde sha256 m t
  holds : m.Holds sha256 r
  last : m.entries.getLast? = some row
  found : m.entry r.binding.occurrence row.entry.kind row.entry.commandId = .ok (some row)
  sequence : row.entry.sequence = r.summary.entryCount
  revision : row.entry.recordedRevision = r.summary.effectRevision

theorem Reaches.written (run : Reaches serde sha256 t₀ t) (fresh : t₀.Fresh sha256)
    (mem : row ∈ t.entries) : ∃ m r, Written serde sha256 t₀ t row m r := by
  induction run with
  | refl => simp [fresh.entries] at mem
  | @tail t t' run next ih =>
    have old : row ∈ t.entries → ∃ m r, Written serde sha256 t₀ t' row m r := by
      intro mem
      obtain ⟨m, r, w⟩ := ih mem
      exact ⟨m, r, w.before, w.after.tail next, w.holds, w.last, w.found, w.sequence, w.revision⟩
    have transition := next.transition (Reaches.sound run fresh.sound)
    cases transition.steps.grew with
    | inl same => exact old (same ▸ mem)
    | inr grown =>
      obtain ⟨new, r, entries, holds, found, sequence, revision⟩ := grown
      rw [entries, List.mem_append, List.mem_singleton] at mem
      cases mem with
      | inl mem => exact old mem
      | inr same =>
        subst same
        exact ⟨t', r, run.tail next, .refl, holds, by rw [entries, List.getLast?_concat], found,
          sequence, revision⟩

theorem Reaches.found (run : Reaches serde sha256 t₀ t) (fresh : t₀.Fresh sha256)
    (holds : t.Holds sha256 r) (mem : row ∈ t.entries) :
    t.entry r.binding.occurrence row.entry.kind row.entry.commandId = .ok (some row) := by
  obtain ⟨m, r', written⟩ := run.written fresh mem
  have grown := written.after.extends (written.before.sound fresh.sound)
  have found := grown.entry written.found
  have kept := grown.occurrence _ written.holds.row
  rw [holds.row, Option.map_some, Option.some.injEq] at kept
  have same : r.binding.occurrence = r'.binding.occurrence := kept
  rw [same]
  exact found

end EvidenceTables
end Ledgence

/-! The same command again, later in the run, by the same caller: it gets its receipt again and
changes nothing. -/

namespace Ledgence

structure VerifiedPrincipal.SameCaller (p p' : VerifiedPrincipal) : Prop where
  identity : p'.identity = p.identity
  audience : p'.audience = p.audience
  principalClass : p'.principalClass = p.principalClass

namespace EvidenceTables
variable {server : EvidenceServer} {serde : Serde} {sha256 : List Char → String}
  {call : EvidenceCall} {m m' t : EvidenceTables} {row : StoredEntry} {now : Nat}
  {p p' : VerifiedPrincipal} {worker : EffectWorkerIdentity}

/- Callers. -/

theorem fromPrincipal_eq_ok (h : EffectWorkerIdentity.fromPrincipal p = .ok worker) :
    worker.validate = .ok () ∧ worker.audience = p.audience ∧ worker.issuer = p.identity.issuer ∧
      worker.subject = p.identity.subject := by
  simp only [EffectWorkerIdentity.fromPrincipal, bind_eq_ok, exists_unit, refuse_eq_ok,
    pure_eq_ok] at h
  obtain ⟨-, -, valid, rfl⟩ := h
  exact ⟨valid, rfl, rfl, rfl⟩

theorem matches_again {w : EffectWorkerIdentity} (h : w.matchesPrincipal p = true)
    (same : p.SameCaller p') (identity : EffectWorkerIdentity.fromPrincipal p' = .ok worker) :
    w.matchesPrincipal p' = true := by
  cases held : EffectWorkerIdentity.fromPrincipal p with
  | error e => simp [EffectWorkerIdentity.matchesPrincipal, held, Except.toOption] at h
  | ok first =>
    obtain ⟨-, audience, issuer, subject⟩ := fromPrincipal_eq_ok held
    obtain ⟨-, audience', issuer', subject'⟩ := fromPrincipal_eq_ok identity
    simp only [EffectWorkerIdentity.matchesPrincipal, held, identity, Except.toOption,
      Option.any_some, EffectWorkerIdentity.sameWorker, Bool.and_eq_true, beq_iff_eq] at h ⊢
    rw [h.1.1, h.1.2, h.2, audience, issuer, subject, audience', issuer', subject', same.identity,
      same.audience]
    exact ⟨⟨rfl, rfl⟩, rfl⟩

theorem requireEffectWorker_scope {scope : Scope}
    (h : server.requireEffectWorker p scope now = .ok worker) :
    server.requireScope scope = .ok () := by
  simp only [EvidenceServer.requireEffectWorker, bind_eq_ok, exists_unit] at h
  exact h.1

theorem validateClaim_again {command : EffectClaimV2Command}
    (h : validateClaim row p command = .ok ()) (same : p.SameCaller p')
    (identity : EffectWorkerIdentity.fromPrincipal p' = .ok worker) :
    validateClaim row p' command = .ok () := by
  simp only [validateClaim, bind_eq_ok, exists_unit] at h ⊢
  refine ⟨h.1, ?_⟩
  cases body : row.entry.body with
  | assessment => simp [body] at h
  | observation => simp [body] at h
  | claim id attempt w permission =>
    simp only [body, refuse_eq_ok, Bool.not_eq_false] at h ⊢
    exact matches_again h.2 same identity

theorem claimCommand_again {o : EffectOccurrence} {id : String} {mode : EffectReportedCallback}
    {frozen : EffectClaimV2Command} (h : claimCommand row p o id mode = .ok frozen)
    (same : p.SameCaller p') (identity : EffectWorkerIdentity.fromPrincipal p' = .ok worker) :
    claimCommand row p' o id mode = .ok frozen := by
  simp only [claimCommand, bind_eq_ok, exists_unit] at h ⊢
  obtain ⟨command, given, valid, named, claimed, rest⟩ := h
  exact ⟨command, given, valid, named, validateClaim_again claimed same identity, rest⟩

theorem exactObservation_again {operation : EvidenceOperation} {bytes : List Char}
    (h : exactObservation row operation bytes p = .ok ()) (same : p.SameCaller p')
    (identity : EffectWorkerIdentity.fromPrincipal p' = .ok worker) :
    exactObservation row operation bytes p' = .ok () := by
  rw [exactObservation_eq_ok] at h ⊢
  obtain ⟨kind, command, id, claimId, w, callback, ingress, output, body, matching⟩ := h
  exact ⟨kind, command, id, claimId, w, callback, ingress, output, body,
    matches_again matching same identity⟩

theorem Sound.loads (sound : t.Sound sha256) {o : EffectOccurrence} {kind : EntryKind} {id : String}
    (found : t.entry o kind id = .ok (some row)) :
    ∃ r, t.load sha256 o = .ok (some r) ∧ t.Holds sha256 r ∧ r.binding.occurrence = o := by
  obtain ⟨here, -, -⟩ := entry_eq_ok.mp found
  obtain ⟨none, -⟩ | ⟨r, holds⟩ := sound
  · simp [none] at here
  · have same : r.binding.occurrence = o := by
      rw [holds.row] at here
      exact Option.some.inj here
    exact ⟨r, same ▸ holds.load, holds, same⟩

/- Reports. -/

theorem ConfirmedV2.again {command : EffectConfirmV2Command} {receipt : EffectConfirmV2Receipt}
    (done : ConfirmedV2 serde sha256 m p command receipt m') (grown : Extends m' t)
    (sound : t.Sound sha256) (same : p.SameCaller p')
    (authorized : server.requireEffectWorker p' command.owner.scope (call.clock 0) = .ok worker) :
    t.confirmEffectV2Once server serde sha256 call p' command =
      .ok ({ receipt with alreadyAccepted := true }, t) := by
  have identity := requireEffectWorker_eq_ok authorized
  obtain ⟨claim, frozen, search, given, owner, lookup, matching⟩ := done.claim
  obtain ⟨row, stored, found, exact, kept, answer⟩ := done.kept
  obtain ⟨r, load, holds, occurrence⟩ := sound.loads (grown.entry found)
  have key : command.record.key = r.binding.key := by
    rw [holds.key, occurrence]
    exact done.key
  have checked : ({ receipt with alreadyAccepted := true } : EffectConfirmV2Receipt).validateFor
      p' command = .ok () := by
    have before := done.checked
    simp only [EffectConfirmV2Receipt.validateFor, refuse_eq_ok, not_or, not_not,
      Bool.not_eq_false] at before ⊢
    exact ⟨before.1, matches_again before.2 same identity⟩
  simp only [confirmEffectV2Once, bind_eq_ok, exists_unit, okOr_eq_ok, refuse_eq_ok, not_or,
    not_not, Bool.not_eq_false]
  refine ⟨done.valid, requireEffectWorker_scope authorized, _, load, r, rfl, worker, authorized, _,
    grown.entry search, claim, rfl, frozen, claimCommand_again given same identity,
    ⟨owner, lookup⟩, true, matching, ⟨rfl, key⟩, some row, grown.entry found, ?_⟩
  simp only [bind_eq_ok, replayConfirm, exists_unit, okOr_eq_ok, pure_eq_ok]
  exact ⟨_, ⟨exactObservation_again exact same identity, stored, kept, answer ▸ checked, rfl⟩,
    by rw [answer]⟩

theorem Observed.again {command : EffectObservationCommand} {receipt : EffectObservationReceipt}
    (done : Observed serde sha256 m p command receipt m') (grown : Extends m' t)
    (sound : t.Sound sha256) (same : p.SameCaller p')
    (authorized : server.requireEffectWorker p' command.occurrence.scope (call.clock 0) =
      .ok worker) :
    t.observeEffectOnce server sha256 call p' command =
      .ok ({ receipt with alreadyAccepted := true }, t) := by
  have identity := requireEffectWorker_eq_ok authorized
  obtain ⟨claim, frozen, search, given⟩ := done.claim
  obtain ⟨row, stored, found, exact, kept, answer⟩ := done.kept
  obtain ⟨r, load, -, -⟩ := sound.loads (grown.entry found)
  have checked : ({ receipt with alreadyAccepted := true } : EffectObservationReceipt).validateFor
      p' command = .ok () := by
    have before := done.checked
    simp only [EffectObservationReceipt.validateFor, refuse_eq_ok, not_or, not_not,
      Bool.not_eq_false] at before ⊢
    exact ⟨before.1, matches_again before.2 same identity⟩
  simp only [observeEffectOnce, bind_eq_ok, exists_unit, okOr_eq_ok]
  refine ⟨done.valid, requireEffectWorker_scope authorized, _, load, r, rfl, worker, authorized, _,
    grown.entry search, claim, rfl, frozen, claimCommand_again given same identity, some row,
    grown.entry found, ?_⟩
  simp only [bind_eq_ok, replayObservation, exists_unit, okOr_eq_ok, pure_eq_ok]
  exact ⟨_, ⟨exactObservation_again exact same identity, stored, kept, answer ▸ checked, rfl⟩,
    by rw [answer]⟩

/- Assessments. -/

theorem evidenceBounded_eq_ok {value : Json} {limit : Nat} :
    evidenceBounded value limit = .ok () ↔ value.size ≤ limit := by
  simp only [evidenceBounded, checkEncodedSize]
  by_cases large : limit < value.size
  · simp [refuse, large, lift]
  · simp [refuse, large, lift, Nat.not_lt.mp large]

theorem resolutionReceipt_again {receipt : EffectResolutionReceipt}
    (valid : receipt.validate = .ok ()) :
    ({ receipt with alreadyAccepted := true } : EffectResolutionReceipt).validate = .ok () := by
  have mark : Json.size (.bool true) ≤ Json.size (.bool receipt.alreadyAccepted) := by
    cases receipt.alreadyAccepted <;> decide
  have shorter : Json.size
      ({ receipt with alreadyAccepted := true } : EffectResolutionReceipt).toJson ≤
      Json.size receipt.toJson := by
    simp only [EffectResolutionReceipt.toJson, Json.size_object, List.map_cons, List.map_nil,
      Json.fieldSize_some, List.sum_cons, List.sum_nil]
    omega
  simp only [EffectResolutionReceipt.validate, bind_eq_ok, exists_unit, evidenceBounded_eq_ok]
    at valid ⊢
  obtain ⟨occurrence, fields, revision, accepted, event, size⟩ := valid
  exact ⟨occurrence, fields, revision, accepted, event, shorter.trans size⟩

theorem Resolved.again {command : EffectResolutionCommand} {proof : AuditedEffectResolution}
    (done : Resolved serde sha256 m p command proof m') (grown : Extends m' t)
    (sound : t.Sound sha256) (same : p.SameCaller p')
    (admitted : server.requireScope command.occurrence.scope = .ok ())
    (authorized : server.requireOperator p' .effectResolve (call.clock 0) = .ok ())
    (here : p'.audience.scope = command.occurrence.scope) :
    t.resolveEffectOnce server sha256 call p' command =
      .ok (⟨{ proof.receipt with alreadyAccepted := true }, proof.acceptanceEvent⟩, t) := by
  obtain ⟨row, stored, found, operation, bytes, kept, answer, acceptance⟩ := done.kept
  obtain ⟨r, load, -, -⟩ := sound.loads (grown.entry found)
  obtain ⟨event, valid⟩ := loadAcceptance_eq_ok.mp acceptance
  have acceptance : t.loadAcceptance sha256 stored.acceptanceEventId (encode command.toJson) =
      .ok proof.acceptanceEvent :=
    loadAcceptance_eq_ok.mpr ⟨grown.events.find?_eq_some event, valid⟩
  have before := done.checked
  simp only [AuditedEffectResolution.validateFor, refuse_eq_ok, not_not] at before
  obtain ⟨-, answers, audience, actor, id, time, audited⟩ := before
  have actor' : proof.acceptanceEvent.actor.sameActor p' = true := by
    rwa [AuditActor.sameActor, same.identity, same.principalClass]
  have answers' : ({ proof.receipt with alreadyAccepted := true } :
      EffectResolutionReceipt).answers command = .ok true := by
    simp only [EffectResolutionReceipt.answers, bind_eq_ok, exists_unit] at answers ⊢
    exact ⟨resolutionReceipt_again answers.1, answers.2⟩
  have checked : (AuditedEffectResolution.mk { proof.receipt with alreadyAccepted := true }
      proof.acceptanceEvent).validateFor p' command = .ok () := by
    simp only [AuditedEffectResolution.validateFor, refuse_eq_ok, not_not]
    exact ⟨valid, answers', audience.trans same.audience.symm, actor', id, time, audited⟩
  simp only [resolveEffectOnce, bind_eq_ok, exists_unit, okOr_eq_ok, refuse_eq_ok, not_not]
  refine ⟨done.valid, admitted, _, load, r, rfl, authorized, here, some row, grown.entry found, ?_⟩
  simp only [bind_eq_ok, replayResolution, exists_unit, okOr_eq_ok, refuse_eq_ok, not_or, not_not,
    pure_eq_ok]
  exact ⟨_, ⟨⟨operation, bytes⟩, stored, kept, _, acceptance,
    ⟨by simp [actor'], audience.trans same.audience.symm⟩, answer ▸ checked, rfl⟩, by rw [answer]⟩

/- A payment that is claimed. -/

def sampleOwner : LeaseOwner :=
  ⟨⟨"acme", "prod"⟩, "act", "try", "lease", 1, "session", 0⟩

def sampleClaim : EffectClaimV2Command :=
  ⟨false, sampleOwner, "wf", "pay", ⟨"charge", "1", .obj []⟩, "find", "claim"⟩

def sampleTables : EvidenceTables where
  approval := some {
    workflowId := "wf"
    waitKey := "pay"
    snapshot := ⟨sampleOwner.scope, "wf", "pay", "wait", 1, sampleClaim.action, .unspecified, none,
      1, 9, .approved, some ⟨"yes", .approve, "ops", none, 5⟩, some "act"⟩
    decisionAuditEventId := none
    effectDispatchClaimed := false
    effectDispatchAttemptId := none
    effectEvidenceState := none
    effectStepKey := none
    effectLookup := none
    effectConfirmedAttemptId := none
    runScope := sampleOwner.scope
    controller := ⟨⟨"flow", "1"⟩,
      ⟨"sha256:0123456789abcdef0123456789abcdef0123456789abcdef0123456789abcdef"⟩, 1⟩ }
  locals := []
  occurrence := none
  entries := []
  events := []

/-- The digest of the only key here. -/
def sampleDigest (_ : List Char) : String :=
  "9350872d712a127c494d7dc35e46b0bc9e62e288239708e581dfc3a1400154a4"

def sampleCall : EvidenceCall where
  clock := fun n => 10 + n
  lockActivation := .ok "wf"
  checkLive := fun _ => .ok ()
  checkEffectBudget := .ok (.ok none)
  steps := (0, 0)
  eventId := "event"

/-- No text is read here. -/
def sampleSerde : Serde := ⟨fun _ => .error "", fun _ => none⟩

def sampleAudience : AccessAudience := ⟨"ops", "one", sampleOwner.scope⟩

def sampleServer : EvidenceServer := ⟨none, some sampleAudience⟩

def sampleWorker : VerifiedPrincipal where
  identity := ⟨"idp", "worker"⟩
  audience := sampleAudience
  credentialId := "key"
  principalClass := .worker
  expiresAtMs := 99
  capabilities := [.workerExecute]
  identityValid := by decide +kernel
  audienceValid := by decide +kernel
  credentialValid := by decide +kernel
  capabilitiesValid := by decide +kernel
  expires := by decide

def sampleReport : EffectObservationCommand :=
  ⟨sampleClaim.occurrence, "claim", "seen", .dispatch, .null⟩

theorem sampleTables_fresh : sampleTables.Fresh sampleDigest := by
  refine ⟨rfl, rfl, fun a given => ?_⟩
  obtain rfl := Option.some.inj given
  decide +kernel

theorem sample_reported : ∃ claim m receipt m',
    sampleTables.execute sampleServer sampleSerde sampleDigest sampleCall
        (.claimV2 sampleWorker sampleClaim) = .ok (.claimedV2 (.dispatch claim), m) ∧
      m.occurrence.isSome = true ∧
      m.observeEffectOnce sampleServer sampleDigest sampleCall sampleWorker sampleReport =
        .ok (receipt, m') := by
  have ran : (match sampleTables.claimEffectV2Once sampleServer sampleSerde sampleDigest sampleCall
        sampleWorker sampleClaim with
      | .ok (.dispatch _, m) => m.occurrence.isSome && (m.observeEffectOnce sampleServer
          sampleDigest sampleCall sampleWorker sampleReport).isOk
      | .ok (.lookupOnly _, _) | .ok (.replay .., _) | .error _ => false) = true := by
    decide +kernel
  split at ran
  · rename_i claim m claimed
    obtain ⟨retained, reported⟩ := Bool.and_eq_true_iff.mp ran
    obtain ⟨⟨receipt, m'⟩, observed⟩ := exists_of_isOk reported
    refine ⟨claim, m, receipt, m', ?_, retained, observed⟩
    simp only [execute, bind_eq_ok]
    exact ⟨_, claimed, rfl⟩
  all_goals cases ran

/- Whole runs. -/

section Runs
variable {t₀ : EvidenceTables}

/-- In every state of a run the row of the occurrence reads back as the summary of its log, each
entry is found under its id and has the numbers that the summary had when it was the last one, and
no entry ever leaves the log. -/
theorem ledger_faithful (fresh : t₀.Fresh sha256) (run : Reaches serde sha256 t₀ t) :
    (t.occurrence = none ∧ t.entries = []) ∨ ∃ r,
      t.load sha256 r.binding.occurrence = .ok (some r) ∧ r.Summarises t.log ∧
      (∀ row ∈ t.entries,
        t.entry r.binding.occurrence row.entry.kind row.entry.commandId = .ok (some row) ∧
          ∃ m r', Written serde sha256 t₀ t row m r') ∧
      ∀ t', Reaches serde sha256 t t' → t.entries <+: t'.entries := by
  have sound := run.sound fresh.sound
  cases sound with
  | inl nothing => exact .inl nothing
  | inr held =>
    obtain ⟨r, holds⟩ := held
    refine .inr ⟨r, holds.load, holds.summarises, fun row mem => ?_, fun t' later => ?_⟩
    · exact ⟨run.found fresh holds mem, run.written fresh mem⟩
    · exact (later.extends (.inr ⟨r, holds⟩)).entries

/-- The claim leaves a row that reads back. -/
theorem ledger_faithful_sample : ∃ (t : EvidenceTables) (r : Retained),
    t.load sampleDigest r.binding.occurrence = .ok (some r) ∧ r.Summarises t.log := by
  obtain ⟨_, t, _, _, claimed, retained, -⟩ := sample_reported
  have run : Reaches sampleSerde sampleDigest sampleTables t := .single ⟨_, _, _, _, claimed⟩
  obtain ⟨nothing, -⟩ | ⟨r, load, summarises, -⟩ := ledger_faithful sampleTables_fresh run
  · simp [nothing] at retained
  · exact ⟨t, r, load, summarises⟩

/-- However much later, also when the run itself is gone, the caller of a report or an assessment
that was accepted gets the same receipt for the same command, and nothing changes. -/
theorem reports_replayed (fresh : t₀.Fresh sha256) (run : Reaches serde sha256 t₀ m) :
    (∀ server call p command receipt m',
      m.confirmEffectV2Once server serde sha256 call p command = .ok (receipt, m') →
      ∀ t server' call' p' worker, Reaches serde sha256 m' t → p.SameCaller p' →
      server'.requireEffectWorker p' command.owner.scope (call'.clock 0) = .ok worker →
      t.confirmEffectV2Once server' serde sha256 call' p' command =
        .ok ({ receipt with alreadyAccepted := true }, t)) ∧
    (∀ server call p command receipt m',
      m.observeEffectOnce server sha256 call p command = .ok (receipt, m') →
      ∀ t server' call' p' worker, Reaches serde sha256 m' t → p.SameCaller p' →
      server'.requireEffectWorker p' command.occurrence.scope (call'.clock 0) = .ok worker →
      t.observeEffectOnce server' sha256 call' p' command =
        .ok ({ receipt with alreadyAccepted := true }, t)) ∧
    ∀ server call p command proof m',
      m.resolveEffectOnce server sha256 call p command = .ok (proof, m') →
      ∀ t server' call' p', Reaches serde sha256 m' t → p.SameCaller p' →
      server'.requireScope command.occurrence.scope = .ok () →
      server'.requireOperator p' .effectResolve (call'.clock 0) = .ok () →
      p'.audience.scope = command.occurrence.scope →
      t.resolveEffectOnce server' sha256 call' p' command =
        .ok (⟨{ proof.receipt with alreadyAccepted := true }, proof.acceptanceEvent⟩, t) := by
  have sound := run.sound fresh.sound
  refine ⟨?_, ?_, ?_⟩
  · intro server call p command receipt m' accepted t server' call' p' worker later same authorized
    have done := confirmEffectV2Once_eq_ok sound accepted
    have sound' := done.transition.steps.sound
    exact done.again (later.extends sound') (later.sound sound') same authorized
  · intro server call p command receipt m' accepted t server' call' p' worker later same authorized
    have done : Observed serde sha256 m p command receipt m' :=
      observeEffectOnce_eq_ok sound accepted
    have sound' := done.transition.steps.sound
    exact done.again (later.extends sound') (later.sound sound') same authorized
  · intro server call p command proof m' accepted t server' call' p' later same admitted authorized
      here
    have done : Resolved serde sha256 m p command proof m' :=
      resolveEffectOnce_eq_ok sound accepted
    have sound' := done.transition.steps.sound
    exact done.again (later.extends sound') (later.sound sound') same admitted authorized here

/-- The observation of a claimed payment is answered again. -/
theorem reports_replayed_sample : ∃ m receipt m', Reaches sampleSerde sampleDigest sampleTables m ∧
    m.observeEffectOnce sampleServer sampleDigest sampleCall sampleWorker sampleReport =
      .ok (receipt, m') ∧
    m'.observeEffectOnce sampleServer sampleDigest sampleCall sampleWorker sampleReport =
      .ok ({ receipt with alreadyAccepted := true }, m') := by
  obtain ⟨_, m, receipt, m', claimed, -, observed⟩ := sample_reported
  have run : Reaches sampleSerde sampleDigest sampleTables m := .single ⟨_, _, _, _, claimed⟩
  exact ⟨m, receipt, m', run, observed, (reports_replayed sampleTables_fresh run).2.1 _ _ _ _ _ _
    observed _ _ _ _ _ .refl ⟨rfl, rfl, rfl⟩ rfl⟩

end Runs

end EvidenceTables
end Ledgence
