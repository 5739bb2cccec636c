import Ledgence.Evidence.Kept

/-! What a transaction does to the effect columns of the approval and to the journals, and the
transactions of the first protocol version. -/
open Kit Kit.Checked

namespace Ledgence
namespace EvidenceTables
variable {server : EvidenceServer} {serde : Serde} {sha256 : List Char → String}
  {call : EvidenceCall} {t t' : EvidenceTables} {r r' : Retained} {row : StoredEntry} {now : Nat}

/- Reviews. -/

theorem any_ne_eq_false {lookup : String} {o : Option String} :
    o.any (· ≠ lookup) = false ↔ ∀ l ∈ o, l = lookup := by
  cases o with
  | none => simp
  | some l => simp

structure Resumed (a : ApprovalRecord) (owner : LeaseOwner) (workflowId key : String) : Prop where
  workflow : a.workflowId = workflowId
  waitKey : a.waitKey = key
  valid : a.snapshot.validate = .ok ()
  identity : a.snapshot.workflowId = workflowId ∧ a.snapshot.key = key ∧
    a.snapshot.scope = owner.scope
  approved : a.snapshot.status = .approved
  activation : a.snapshot.resumedActivationId = some owner.taskId
  protection : a.snapshot.protection ≠ .providerOperation

def evidenceOf (t : EvidenceTables) (sha256 : List Char → String) (a : ApprovalRecord)
    (owner : LeaseOwner) : Evidence where
  approval := a.snapshot
  dispatchAttempt := a.effectDispatchAttemptId
  stepKey := approvedEffectStepKey sha256 a.waitKey
  claimed := a.effectDispatchClaimed
  state := a.effectEvidenceState
  lookup := a.effectLookup
  confirmedAttempt := a.effectConfirmedAttemptId
  prior := (t.findLocal owner.taskId (approvedEffectStepKey sha256 a.waitKey)).map
    fun l => (l.record, l.attemptId)

theorem loadEvidence_eq_ok {snapshotId workflowId key lookup : String} {owner : LeaseOwner}
    {evidence : Evidence} :
    t.loadEvidence sha256 snapshotId owner workflowId key lookup = .ok evidence ↔
      snapshotId = workflowId ∧ ∃ a, t.approval = some a ∧ Resumed a owner workflowId key ∧
        (∀ l ∈ a.effectLookup, l = lookup) ∧ evidence = t.evidenceOf sha256 a owner := by
  simp only [loadEvidence, bind_eq_ok, exists_unit, refuse_eq_ok, not_not, okOr_eq_ok,
    ok_of_mapError, findApproval_eq_some, not_or, pure_eq_ok]
  constructor
  · rintro ⟨same, a, ⟨found, workflow, waitKey⟩, valid, identity, ⟨approved, activation⟩,
      protection, lookup, rfl⟩
    exact ⟨same, a, found, ⟨workflow, waitKey, valid, identity, approved, activation, protection⟩,
      any_ne_eq_false.mp (by simpa using lookup), rfl⟩
  · rintro ⟨same, a, found, ⟨workflow, waitKey, valid, identity, approved, activation, protection⟩,
      lookup, rfl⟩
    exact ⟨same, a, ⟨found, workflow, waitKey⟩, valid, identity, ⟨approved, activation⟩,
      protection, by simpa using any_ne_eq_false.mpr lookup, rfl⟩

structure SameReview (a b : ApprovalRecord) : Prop where
  snapshot : b.snapshot = a.snapshot
  workflow : b.workflowId = a.workflowId
  waitKey : b.waitKey = a.waitKey
  runScope : b.runScope = a.runScope

theorem SameReview.refl (a : ApprovalRecord) : SameReview a a := ⟨rfl, rfl, rfl, rfl⟩

theorem SameReview.resumed {a b : ApprovalRecord} (same : SameReview a b) {owner : LeaseOwner}
    {workflowId key : String} (resumed : Resumed a owner workflowId key) :
    Resumed b owner workflowId key := by
  obtain ⟨snapshot, workflow, waitKey, -⟩ := same
  obtain ⟨workflow', waitKey', valid, identity, approved, activation, protection⟩ := resumed
  rw [← snapshot] at valid identity approved activation protection
  exact ⟨workflow.trans workflow', waitKey.trans waitKey', valid, identity, approved, activation,
    protection⟩

theorem Copies.review {a b : ApprovalRecord} (copies : Copies a r) (same : SameReview a b)
    (lookup : b.effectLookup = a.effectLookup) : Copies b r := by
  obtain ⟨bound, scope, occurrence⟩ := copies
  obtain ⟨snapshot, workflow, waitKey, runScope⟩ := same
  rw [← lookup] at bound
  rw [← snapshot, ← runScope] at scope
  rw [← snapshot, ← workflow, ← waitKey] at occurrence
  exact ⟨bound, scope, occurrence⟩

inductive ReviewStep (serde : Serde) (sha256 : List Char → String) (t t' : EvidenceTables) : Prop
  | kept (approval : t'.approval = t.approval) (locals : t'.locals = t.locals)
  | granted (a b : ApprovalRecord) (before : t.approval = some a) (after : t'.approval = some b)
      (same : SameReview a b) (unbound : a.effectLookup = none) (bound : b.effectLookup ≠ none)
      (opened : b.effectEvidenceState = some .opened) (allowed : b.Bound sha256)
      (locals : t'.locals = t.locals)
  | journaled (a b : ApprovalRecord) (l : LocalResult) (before : t.approval = some a)
      (after : t'.approval = some b) (same : SameReview a b)
      (lookup : b.effectLookup = a.effectLookup)
      (state : a.effectEvidenceState = some .opened ∧ b.effectEvidenceState = some .confirmed)
      (attempt : b.effectConfirmedAttemptId = some l.attemptId) (allowed : b.Bound sha256)
      (record : ∃ lookup, a.effectLookup = some lookup ∧ confirmedLookup serde l.record
        (approvedEffectStepKey sha256 a.waitKey) a.snapshot.action = .ok lookup)
      (address : a.snapshot.resumedActivationId = some l.activationId ∧ l.stepKey = l.record.key)
      (fresh : t.findLocal l.activationId l.stepKey = none)
      (locals : t'.locals = t.locals ++ [l])
  | recorded (l : LocalResult) (approval : t'.approval = t.approval)
      (elsewhere : ∀ a, t.approval = some a → a.effectStepKey ≠ some l.stepKey)
      (locals : t'.locals = t.locals ++ [l])
  | collected (approval : t'.approval = none)

theorem ReviewStep.then {t₁ : EvidenceTables} (step : ReviewStep serde sha256 t t₁)
    (approval : t'.approval = t₁.approval) (locals : t'.locals = t₁.locals) :
    ReviewStep serde sha256 t t' := by
  cases step with
  | kept a l => exact .kept (approval.trans a) (locals.trans l)
  | granted a b before after same unbound bound opened allowed l =>
    exact .granted a b before (approval.trans after) same unbound bound opened allowed
      (locals.trans l)
  | journaled a b l before after same lookup state attempt allowed record address fresh ls =>
    exact .journaled a b l before (approval.trans after) same lookup state attempt allowed record
      address fresh (locals.trans ls)
  | recorded l a elsewhere ls => exact .recorded l (approval.trans a) elsewhere (locals.trans ls)
  | collected a => exact .collected (approval.trans a)

structure Transition (serde : Serde) (sha256 : List Char → String) (t t' : EvidenceTables) :
    Prop where
  steps : Steps sha256 t t'
  review : ReviewStep serde sha256 t t'
  mirrored : t.Mirrored sha256 → t'.Mirrored sha256

theorem Transition.refl (sound : t.Sound sha256) : Transition serde sha256 t t :=
  ⟨.refl sound, .kept rfl rfl, id⟩

/- The effect columns. -/

structure Granted (sha256 : List Char → String) (t : EvidenceTables)
    (command : ApprovedEffectClaimCommand) (evidence : Evidence) (t' : EvidenceTables) : Prop where
  ledger : SameLedger t t'
  locals : t'.locals = t.locals
  approval : t' = t ∧ evidence.lookup ≠ none ∨ ∃ a b, t.approval = some a ∧ t'.approval = some b ∧
    SameReview a b ∧ a.effectLookup = none ∧ b.effectEvidenceState = some .opened ∧
    b.effectLookup = some command.lookup ∧ b.Bound sha256

theorem grant_eq_ok {command : ApprovedEffectClaimCommand} {evidence : Evidence}
    (h : t.grant sha256 command evidence = .ok t') : Granted sha256 t command evidence t' := by
  rw [grant] at h
  split at h
  · simp only [bind_eq_ok, exists_unit, okOr_eq_ok, refuse_eq_ok, not_not, pure_eq_ok,
      Option.filter_eq_some_iff, findApproval_eq_some, decide_eq_true_eq] at h
    obtain ⟨a, ⟨⟨found, -, -⟩, -, unbound⟩, bound, -, rfl⟩ := h
    exact ⟨⟨rfl, rfl, rfl⟩, rfl,
      .inr ⟨a, _, found, rfl, ⟨rfl, rfl, rfl, rfl⟩, unbound, rfl, rfl, bound⟩⟩
  · next bound =>
    obtain rfl : t = t' := by simpa using h
    exact ⟨.refl t, rfl, .inl ⟨rfl, bound⟩⟩

namespace Granted
variable {command : ApprovedEffectClaimCommand} {evidence : Evidence}

theorem review (granted : Granted sha256 t command evidence t') :
    ReviewStep serde sha256 t t' := by
  obtain ⟨rfl, -⟩ | ⟨a, b, before, after, same, unbound, opened, bound, allowed⟩ :=
    granted.approval
  · exact .kept rfl rfl
  · exact .granted a b before after same unbound (by simp [bound]) opened allowed granted.locals

theorem sameReview (granted : Granted sha256 t command evidence t') {a : ApprovalRecord}
    (found : t.approval = some a) : ∃ b, t'.approval = some b ∧ SameReview a b := by
  obtain ⟨rfl, -⟩ | ⟨_, b, before, after, same, -⟩ := granted.approval
  · exact ⟨a, found, .refl a⟩
  · obtain rfl := Option.some.inj (before.symm.trans found)
    exact ⟨b, after, same⟩

end Granted

structure Journaled (sha256 : List Char → String) (t : EvidenceTables) (owner : LeaseOwner)
    (record : LocalStepRecord) (now : Nat) (t' : EvidenceTables) : Prop where
  ledger : SameLedger t t'
  locals : t'.locals = t.locals ++ [⟨owner.taskId, record.key, record, owner.attemptId, now⟩]
  fresh : t.findLocal owner.taskId record.key = none
  approval : ∃ a b, t.approval = some a ∧ t'.approval = some b ∧ SameReview a b ∧
    a.effectEvidenceState = some .opened ∧ b.effectEvidenceState = some .confirmed ∧
    b.effectLookup = a.effectLookup ∧ b.effectConfirmedAttemptId = some owner.attemptId ∧
    b.Bound sha256

theorem appendLocal_eq_ok {owner : LeaseOwner} {record : LocalStepRecord} {steps : Nat × Nat}
    {workflowId key : String}
    (h : t.appendLocal sha256 owner record now steps workflowId key = .ok t') :
    Journaled sha256 t owner record now t' := by
  simp only [appendLocal, bind_eq_ok, exists_unit, okOr_eq_ok, refuse_eq_ok, not_not, pure_eq_ok,
    Option.filter_eq_some_iff, findApproval_eq_some, Bool.not_eq_true, decide_eq_true_eq,
    Option.isSome_eq_false_iff, Option.isNone_iff_eq_none] at h
  obtain ⟨-, lookup, -, _, -, fresh, a, ⟨⟨found, -, -⟩, opened⟩, bound, -, rfl⟩ := h
  exact ⟨⟨rfl, rfl, rfl⟩, rfl, fresh, a, _, found, rfl, ⟨rfl, rfl, rfl, rfl⟩, opened, rfl, rfl, rfl,
    bound⟩

theorem Journaled.review {owner : LeaseOwner} {record : LocalStepRecord}
    {workflowId key lookup : String} (journaled : Journaled sha256 t owner record now t')
    {a : ApprovalRecord} (found : t.approval = some a) (resumed : Resumed a owner workflowId key)
    (bound : a.effectLookup = some lookup)
    (confirmed : confirmedLookup serde record (approvedEffectStepKey sha256 a.waitKey)
      a.snapshot.action = .ok lookup) : ReviewStep serde sha256 t t' := by
  obtain ⟨_, b, before, after, same, opened, state, kept, attempt, allowed⟩ := journaled.approval
  obtain rfl := Option.some.inj (found.symm.trans before)
  exact .journaled a b _ before after same kept ⟨opened, state⟩ attempt allowed
    ⟨lookup, bound, confirmed⟩ ⟨resumed.activation, rfl⟩ journaled.fresh journaled.locals

theorem Ensured.occurrence {owner : LeaseOwner} {workflowId key : String}
    (ensured : Ensured sha256 t workflowId key r t') {a : ApprovalRecord}
    (found : t.approval = some a) (resumed : Resumed a owner workflowId key) :
    r.binding.occurrence = occurrenceOf owner workflowId key := by
  obtain ⟨b, activationId, given, activation, occurrence⟩ := ensured.approval
  obtain ⟨given, -, -⟩ := findApproval_eq_some.mp given
  obtain rfl := Option.some.inj (found.symm.trans given)
  rw [resumed.activation, Option.some.injEq] at activation
  rw [occurrence, occurrenceOf, resumed.identity.2.2, activation]

/- The first version. -/

theorem mirrored {t₁ t₂ : EvidenceTables} {workflowId key : String} (sound : t.Sound sha256)
    {verified : Option String} (ensured : t.ensure sha256 workflowId key now verified = .ok (r, t₁))
    (mirror : t₁.legacyConfirmation serde sha256 r now = .ok t₂) :
    Steps sha256 t t₂ ∧ t₂.Mirrored sha256 ∧ t₂.approval = t.approval ∧ t₂.locals = t.locals := by
  have copy := ensure_eq_ok sound ensured
  obtain ⟨first, approval, locals⟩ := copy.steps
  obtain ⟨second, mirrored, approval', locals'⟩ :=
    legacyConfirmation_eq_ok copy.holds (approval ▸ copy.copies) mirror
  have entries : t₁.entries = t.entries := by rw [copy.result]
  exact ⟨first.then entries second, mirrored, approval'.trans approval, locals'.trans locals⟩

theorem Transition.mirror {t₁ : EvidenceTables} (ledger : SameLedger t t₁)
    (review : ReviewStep serde sha256 t t₁)
    (mirrored : Steps sha256 t₁ t' ∧ t'.Mirrored sha256 ∧ t'.approval = t₁.approval ∧
      t'.locals = t₁.locals) : Transition serde sha256 t t' := by
  obtain ⟨steps, after, approval, locals⟩ := mirrored
  exact ⟨ledger.then steps, review.then approval locals, fun _ => after⟩

structure ClaimedV1 (serde : Serde) (sha256 : List Char → String) (t : EvidenceTables)
    (command : ApprovedEffectClaimCommand) (receipt : ApprovedEffectClaimReceipt)
    (a : ApprovalRecord) (t' : EvidenceTables) : Prop where
  valid : command.validate = .ok ()
  approval : t.approval = some a
  resumed : Resumed a command.owner command.workflowId command.approvalKey
  lookup : ∀ l ∈ a.effectLookup, l = command.lookup
  action : a.snapshot.action.sameAs command.action = .ok true
  journal : (t.evidenceOf sha256 a command.owner).prior.isSome = true →
    (t.evidenceOf sha256 a command.owner).confirmed = true
  granted : ∃ t₁, Granted sha256 t command (t.evidenceOf sha256 a command.owner) t₁ ∧
    t'.approval = t₁.approval ∧ t'.locals = t₁.locals
  transition : Transition serde sha256 t t'
  mirrored : t'.Mirrored sha256
  answer : ∃ grant, receipt = {
    budgetGrant := grant
    scope := a.snapshot.scope
    workflowId := a.snapshot.workflowId
    activationId := command.owner.taskId
    attemptId := command.owner.attemptId
    approvalKey := a.snapshot.key
    action := a.snapshot.action
    lookup := command.lookup
    disposition := if a.effectDispatchClaimed = true then .lookupOnly else .dispatch }

theorem claimApprovedEffectOnce_eq_ok {command : ApprovedEffectClaimCommand}
    {receipt : ApprovedEffectClaimReceipt} (sound : t.Sound sha256)
    (h : t.claimApprovedEffectOnce server serde sha256 call command = .ok (receipt, t')) :
    ∃ a, ClaimedV1 serde sha256 t command receipt a t' := by
  simp only [claimApprovedEffectOnce, bind_eq_ok, exists_unit, refuse_eq_ok, pure_eq_ok, not_or,
    not_and, Bool.not_eq_false, Prod.mk.injEq, loadEvidence_eq_ok] at h
  obtain ⟨valid, -, snapshotId, -, -, evidence, ⟨-, a, approval, resumed, lookup, rfl⟩, same, action,
    ⟨rfl, journal⟩, grant, -, t₁, granting, ⟨r, t₂⟩, ensured, t₃, mirror, -, -, rfl, rfl⟩ := h
  have granted := grant_eq_ok granting
  have mirrored := mirrored (granted.ledger.sound sound) ensured mirror
  exact ⟨a, valid, approval, resumed, lookup, action, fun held => by simpa using journal held,
    ⟨t₁, granted, mirrored.2.2⟩, .mirror granted.ledger granted.review mirrored, mirrored.2.1,
    grant, rfl⟩

theorem confirmedBefore_eq_ok {evidence : Evidence} {command : ApprovedEffectConfirmCommand}
    (h : t.confirmedBefore call evidence command = .ok t') :
    t' = t ∧ ∃ record attempt, evidence.prior = some (record, attempt) ∧
      evidence.confirmedAttempt = some attempt ∧ record.sameAs command.record = .ok true := by
  simp only [confirmedBefore, bind_eq_ok, exists_unit, refuse_eq_ok, pure_eq_ok, okOr_eq_ok,
    not_not, Bool.not_eq_false] at h
  obtain ⟨⟨record, attempt⟩, prior, accepting, same, matching, rfl, -, rfl⟩ := h
  exact ⟨rfl, record, attempt, prior, accepting, matching⟩

theorem confirmedNow_eq_ok {evidence : Evidence} {command : ApprovedEffectConfirmCommand}
    (h : t.confirmedNow sha256 call evidence command = .ok t') :
    evidence.prior = none ∧
      Journaled sha256 t command.owner command.record (call.clock 0) t' := by
  simp only [confirmedNow, bind_eq_ok, exists_unit, refuse_eq_ok, pure_eq_ok, not_or,
    Bool.not_eq_true, Option.isSome_eq_false_iff, Option.isNone_iff_eq_none] at h
  obtain ⟨⟨-, fresh⟩, -, _, journaled, -, rfl⟩ := h
  exact ⟨fresh, appendLocal_eq_ok journaled⟩

inductive ConfirmOutcome (sha256 : List Char → String) (t : EvidenceTables) (evidence : Evidence)
    (owner : LeaseOwner) (record : LocalStepRecord) : EvidenceTables → Prop
  | before (journal : LocalStepRecord) (attempt : String) (confirmed : evidence.confirmed = true)
      (prior : evidence.prior = some (journal, attempt))
      (accepting : evidence.confirmedAttempt = some attempt)
      (same : journal.sameAs record = .ok true) :
      ConfirmOutcome sha256 t evidence owner record t
  | now (t' : EvidenceTables) (time : Nat) (fresh : evidence.prior = none)
      (journaled : Journaled sha256 t owner record time t') :
      ConfirmOutcome sha256 t evidence owner record t'

theorem confirmRecord_eq_ok {evidence : Evidence} {command : ApprovedEffectConfirmCommand}
    (h : t.confirmRecord sha256 call evidence command = .ok t') :
    ConfirmOutcome sha256 t evidence command.owner command.record t' := by
  rw [confirmRecord] at h
  split at h
  · next confirmed =>
    obtain ⟨rfl, journal, attempt, prior, accepting, same⟩ := confirmedBefore_eq_ok h
    exact .before journal attempt confirmed prior accepting same
  · obtain ⟨fresh, journaled⟩ := confirmedNow_eq_ok h
    exact .now _ _ fresh journaled

namespace ConfirmOutcome
variable {evidence : Evidence} {owner : LeaseOwner} {record : LocalStepRecord}

theorem ledger (outcome : ConfirmOutcome sha256 t evidence owner record t') : SameLedger t t' := by
  cases outcome with
  | before => exact .refl t
  | now _ _ _ journaled => exact journaled.ledger

theorem review {workflowId key lookup : String}
    (outcome : ConfirmOutcome sha256 t evidence owner record t') {a : ApprovalRecord}
    (found : t.approval = some a) (resumed : Resumed a owner workflowId key)
    (bound : a.effectLookup = some lookup)
    (confirmed : confirmedLookup serde record (approvedEffectStepKey sha256 a.waitKey)
      a.snapshot.action = .ok lookup) : ReviewStep serde sha256 t t' := by
  cases outcome with
  | before => exact .kept rfl rfl
  | now _ _ _ journaled => exact journaled.review found resumed bound confirmed

theorem sameReview (outcome : ConfirmOutcome sha256 t evidence owner record t')
    {b : ApprovalRecord} (given : t'.approval = some b) :
    ∃ a, t.approval = some a ∧ SameReview a b ∧ b.effectLookup = a.effectLookup := by
  cases outcome with
  | before => exact ⟨b, given, .refl b, rfl⟩
  | now _ _ _ journaled =>
    obtain ⟨a, b, before, after, same, -, -, kept, -⟩ := journaled.approval
    obtain rfl := Option.some.inj (after.symm.trans given)
    exact ⟨a, before, same, kept⟩

end ConfirmOutcome

structure ConfirmedV1 (serde : Serde) (sha256 : List Char → String) (t : EvidenceTables)
    (command : ApprovedEffectConfirmCommand) (receipt : ApprovedEffectConfirmReceipt)
    (a : ApprovalRecord) (t' : EvidenceTables) : Prop where
  valid : command.validate = .ok ()
  approval : t.approval = some a
  resumed : Resumed a command.owner command.workflowId command.approvalKey
  lookup : a.effectLookup = some command.lookup
  record : confirmedLookup serde command.record (approvedEffectStepKey sha256 a.waitKey)
    a.snapshot.action = .ok command.lookup
  outcome : ∃ t₁, ConfirmOutcome sha256 t (t.evidenceOf sha256 a command.owner) command.owner
    command.record t₁ ∧ t'.approval = t₁.approval ∧ t'.locals = t₁.locals
  transition : Transition serde sha256 t t'
  mirrored : t'.Mirrored sha256
  answer : receipt = {
    scope := command.owner.scope
    workflowId := command.workflowId
    activationId := command.owner.taskId
    attemptId := command.owner.attemptId
    approvalKey := command.approvalKey
    key := command.record.key
    alreadyAccepted := (t.evidenceOf sha256 a command.owner).confirmed }

theorem confirmApprovedEffectOnce_eq_ok {command : ApprovedEffectConfirmCommand}
    {receipt : ApprovedEffectConfirmReceipt} (sound : t.Sound sha256)
    (h : t.confirmApprovedEffectOnce server serde sha256 call command = .ok (receipt, t')) :
    ∃ a, ConfirmedV1 serde sha256 t command receipt a t' := by
  simp only [confirmApprovedEffectOnce, bind_eq_ok, exists_unit, refuse_eq_ok, pure_eq_ok, not_not,
    Prod.mk.injEq, loadEvidence_eq_ok] at h
  obtain ⟨valid, -, snapshotId, -, evidence, ⟨-, a, approval, resumed, -, rfl⟩, lookup, _, record,
    rfl, t₁, confirming, ⟨r, t₂⟩, ensured, t₃, mirror, rfl, rfl⟩ := h
  have outcome := confirmRecord_eq_ok confirming
  have ledger := outcome.ledger
  have mirrored := mirrored (ledger.sound sound) ensured mirror
  exact ⟨a, valid, approval, resumed, lookup, record, ⟨t₁, outcome, mirrored.2.2⟩,
    .mirror ledger (outcome.review approval resumed lookup record) mirrored, mirrored.2.1, rfl⟩

end EvidenceTables
end Ledgence
