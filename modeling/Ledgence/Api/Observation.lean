import Mathlib.Data.List.ReduceOption
import Ledgence.Api.Encoding

/-! Compact observations of a task and of its outcome, and the checks they must pass. -/
open Kit Kit.Checked

namespace Ledgence

def taskStatusMaxBytes : Nat := 16 * 1024

structure TaskStatus where
  admission : Option TaskAdmissionRequirement
  admissionDeferrals : Nat
  providerProbe : Option ProviderProbeAssignment
  scope : Scope
  taskId : String
  runId : String
  workflowId : Option String
  workflowActivationId : Option String
  queue : String
  correlationKey : Option String
  state : TaskState
  attemptCount : Nat
  currentAttemptId : Option String
  latestAttemptId : Option String
  submittedAt : Nat
  availableAt : Nat
  terminalAt : Option Nat
  cancelRequestedAt : Option Nat
  deriving DecidableEq

def TaskState.name : TaskState → String
  | .queued => "queued"
  | .active => "active"
  | .succeeded => "succeeded"
  | .failed => "failed"
  | .cancelled => "cancelled"

def RunBudgetDenial.name : RunBudgetDenial → String
  | .cancelled => "cancelled"
  | .callsExhausted => "calls_exhausted"
  | .delegationsExhausted => "delegations_exhausted"
  | .deadlineExceeded => "deadline_exceeded"

def EffectOccurrence.toJson (occurrence : EffectOccurrence) : Json :=
  .object [("scope", some occurrence.scope.toJson),
    ("workflow_id", some (.str occurrence.workflowId)),
    ("activation_id", some (.str occurrence.activationId)),
    ("approval_key", some (.str occurrence.approvalKey))]

def ProviderProbeAssignment.toJson (probe : ProviderProbeAssignment) : Json :=
  .object [("occurrence", some probe.occurrence.toJson), ("probe_id", some (.str probe.probeId)),
    ("generation", some (.nat probe.generation))]

namespace TaskStatus

def toJson (status : TaskStatus) : Json :=
  .object [("admission", status.admission.map TaskAdmissionRequirement.toJson),
    ("admission_deferrals",
      if status.admissionDeferrals = 0 then none else some (.nat status.admissionDeferrals)),
    ("provider_probe", status.providerProbe.map ProviderProbeAssignment.toJson),
    ("scope", some status.scope.toJson), ("task_id", some (.str status.taskId)),
    ("run_id", some (.str status.runId)), ("workflow_id", status.workflowId.map .str),
    ("workflow_activation_id", status.workflowActivationId.map .str),
    ("queue", some (.str status.queue)),
    ("correlation_key", some (.opt (status.correlationKey.map .str))),
    ("state", some (.str status.state.name)), ("attempt_count", some (.nat status.attemptCount)),
    ("current_attempt_id", some (.opt (status.currentAttemptId.map .str))),
    ("latest_attempt_id", some (.opt (status.latestAttemptId.map .str))),
    ("submitted_at", some (.nat status.submittedAt)),
    ("available_at", some (.nat status.availableAt)),
    ("terminal_at", some (.opt (status.terminalAt.map .nat))),
    ("cancel_requested_at", some (.opt (status.cancelRequestedAt.map .nat)))]

def inconsistent : ContractError := .unavailable "inconsistent task status"

def orInconsistent {ε : Type} (check : Except ε Unit) : Result Unit :=
  check.mapError fun _ => inconsistent

def validateProbe (status : TaskStatus) : Result Unit :=
  ifSome status.providerProbe fun probe => do
    probe.validate
    refuse (probe.occurrence.scope ≠ status.scope ∨
        status.workflowId ≠ some probe.occurrence.workflowId ∨
        status.workflowActivationId.isSome = true)
      inconsistent

def validateAdmission (status : TaskStatus) : Result Unit :=
  ifSome status.admission fun admission => do
    orInconsistent admission.validate
    refuse (status.workflowId.isSome = true ∨ status.workflowActivationId.isSome = true ∨
        status.providerProbe.isSome = true)
      inconsistent

def Inconsistent (status : TaskStatus) (charged : Nat) : Prop :=
  1000 < charged ∨
    (status.attemptCount = 0) ≠ (status.latestAttemptId = none) ∨
    (status.state = .active) ≠ (status.currentAttemptId.isSome = true) ∨
    (status.state = .active ∧ status.currentAttemptId ≠ status.latestAttemptId) ∨
    status.state.isTerminal ≠ status.terminalAt.isSome ∨
    (status.state = .cancelled ∧ status.cancelRequestedAt = none) ∨
    (status.cancelRequestedAt.isSome = true ∧
      ¬ (status.state = .active ∨ status.state = .cancelled)) ∨
    ((status.state = .succeeded ∨ status.state = .failed) ∧ status.attemptCount = 0)

instance (status : TaskStatus) (charged : Nat) : Decidable (Inconsistent status charged) :=
  inferInstanceAs (Decidable (_ ∨ _ ∨ _ ∨ _ ∨ _ ∨ _ ∨ _ ∨ _))

def validate (status : TaskStatus) : Result Unit := do
  orInconsistent status.scope.validate
  status.validateProbe
  [status.taskId, status.runId, status.queue].forM fun id => orInconsistent (validateText id 128)
  [status.workflowId, status.workflowActivationId].reduceOption.forM fun id =>
    orInconsistent (validateText id 128)
  refuse (status.workflowActivationId.any fun activation =>
      status.workflowId.isNone || activation != status.taskId)
    inconsistent
  refuse (status.correlationKey.any fun key => 512 < byteLen key || key.toList.any isControl)
    inconsistent
  [status.currentAttemptId, status.latestAttemptId].reduceOption.forM fun id =>
    orInconsistent (validateText id 128)
  status.validateAdmission
  let charged ← (taskRetryAttempts status.attemptCount status.admissionDeferrals
    status.admission.isSome).mapError fun _ => inconsistent
  refuse (status.Inconsistent charged) inconsistent
  refuse ([some status.submittedAt, some status.availableAt, status.terminalAt,
      status.cancelRequestedAt].reduceOption.any (maxTimestamp < ·))
    inconsistent
  orInconsistent (checkEncodedSize status.toJson taskStatusMaxBytes "task status")

end TaskStatus

structure ApplicationError where
  kind : String
  message : String
  deriving DecidableEq

inductive TaskFailure where
  | application (error : ApplicationError)
  | execution (error : Error) (phase : Phase) (cleanupError : Option Error)
  | attemptLost
  | admissionGenerationExhausted
  | budgetDenied (reason : RunBudgetDenial)

inductive TaskOutcome where
  | succeeded (attemptId : String) (quiescence : Quiescence) (executionMayHaveStarted : Bool)
      (output : Value)
  | failed (attemptId : String) (quiescence : Quiescence) (executionMayHaveStarted : Bool)
      (failure : TaskFailure)
  | cancelled

structure TaskResult where
  task : TaskStatus
  outcome : Option TaskOutcome

def ApplicationError.toJson (error : ApplicationError) : Json :=
  .object [("kind", some (.str error.kind)), ("message", some (.str error.message))]

def TaskFailure.toJson : TaskFailure → Json
  | .application error =>
    .object [("kind", some (.str "application")), ("error", some error.toJson)]
  | .execution error phase cleanupError =>
    .object [("kind", some (.str "execution")), ("error", some error.toJson),
      ("phase", some (.str phase.name)),
      ("cleanup_error", some (.opt (cleanupError.map Error.toJson)))]
  | .attemptLost => .object [("kind", some (.str "attempt_lost"))]
  | .admissionGenerationExhausted =>
    .object [("kind", some (.str "admission_generation_exhausted"))]
  | .budgetDenied reason =>
    .object [("kind", some (.str "budget_denied")), ("reason", some (.str reason.name))]

def TaskOutcome.toJson : TaskOutcome → Json
  | .succeeded attemptId quiescence executionMayHaveStarted output =>
    .object [("kind", some (.str "succeeded")), ("attempt_id", some (.str attemptId)),
      ("quiescence", some (.str quiescence.name)),
      ("execution_may_have_started", some (.bool executionMayHaveStarted)),
      ("output", some output.json)]
  | .failed attemptId quiescence executionMayHaveStarted failure =>
    .object [("kind", some (.str "failed")), ("attempt_id", some (.str attemptId)),
      ("quiescence", some (.str quiescence.name)),
      ("execution_may_have_started", some (.bool executionMayHaveStarted)),
      ("failure", some failure.toJson)]
  | .cancelled => .object [("kind", some (.str "cancelled"))]

namespace TaskResult

def inconsistent : ContractError := .unavailable "inconsistent task outcome"

def unfounded (status : TaskStatus) (quiescence : Quiescence) (started : Bool) :
    TaskFailure → Bool
  | .attemptLost => quiescence ≠ .unconfirmed && status.admission.isNone
  | .admissionGenerationExhausted =>
    status.admission.isNone || status.attemptCount ≠ maxTaskAttemptGeneration ||
      status.admissionDeferrals = 0 || started
  | .budgetDenied _ => status.admission.isNone || started
  | .application _ => !started
  | .execution _ _ _ => false

def validateOutcome (status : TaskStatus) : Option TaskOutcome → Result Unit
  | none => refuse (¬ (status.state = .queued ∨ status.state = .active)) inconsistent
  | some .cancelled => refuse (status.state ≠ .cancelled) inconsistent
  | some (.succeeded attemptId _ started output) => do
    refuse (status.state ≠ .succeeded) inconsistent
    refuse (status.latestAttemptId ≠ some attemptId ∨ started = false) inconsistent
    (validateTaskOutput output.json status.workflowActivationId.isSome).mapError fun _ =>
      inconsistent
  | some (.failed attemptId quiescence started failure) => do
    refuse (status.state ≠ .failed) inconsistent
    refuse (status.latestAttemptId ≠ some attemptId ∨
        unfounded status quiescence started failure = true)
      inconsistent

def validate (result : TaskResult) : Result Unit := do
  result.task.validate
  validateOutcome result.task result.outcome
  ifSome result.outcome fun outcome =>
    (checkEncodedSize outcome.toJson settlementMaxBytes "task outcome").mapError fun _ =>
      inconsistent

end TaskResult

/- Sizes. -/

theorem isControl_false {c : Char} (h : isControl c = false) : 32 ≤ c.toNat := by
  simp only [isControl, Bool.or_eq_false_iff, decide_eq_false_iff_not] at h
  omega

theorem ValidText.size_le {maximum : Nat} {value : String} (valid : ValidText maximum value) :
    Json.size (.str value) ≤ 2 * maximum + 2 := by
  obtain ⟨-, short, plain⟩ := valid
  have printable : ∀ c ∈ value.toList, 32 ≤ c.toNat := by
    intro c hc
    have := List.all_eq_true.mp plain c hc
    simp only [Bool.and_eq_true, Bool.not_eq_true'] at this
    exact isControl_false this.1
  have := Json.size_str_le printable
  simp only [byteLen] at short
  omega

namespace TaskStatus

structure Bounded (status : TaskStatus) : Prop where
  tenant : ValidText 128 status.scope.tenantId
  namespaceId : ValidText 128 status.scope.namespaceId
  taskId : ValidText 128 status.taskId
  runId : ValidText 128 status.runId
  queue : ValidText 128 status.queue
  correlationKey : ∀ key, status.correlationKey = some key →
    byteLen key ≤ 512 ∧ key.toList.any isControl = false
  currentAttemptId : ∀ id, status.currentAttemptId = some id → ValidText 128 id
  latestAttemptId : ∀ id, status.latestAttemptId = some id → ValidText 128 id
  admission : ∀ a, status.admission = some a → a.validate = .ok ()
  providerProbe : status.providerProbe = none
  workflowId : status.workflowId = none
  workflowActivationId : status.workflowActivationId = none
  attemptCount : status.attemptCount ≤ maxTaskAttemptGeneration
  admissionDeferrals : status.admissionDeferrals ≤ maxTaskAttemptGeneration
  submittedAt : status.submittedAt ≤ maxTimestamp
  availableAt : status.availableAt ≤ maxTimestamp
  terminalAt : ∀ t, status.terminalAt = some t → t ≤ maxTimestamp
  cancelRequestedAt : ∀ t, status.cancelRequestedAt = some t → t ≤ maxTimestamp

theorem size_opt_le {α : Type} {encode : α → Json} {o : Option α} {b : Nat} (null : 4 ≤ b)
    (bound : ∀ a, o = some a → Json.size (encode a) ≤ b) :
    Json.size (.opt (o.map encode)) ≤ b := by
  cases o with
  | none => exact null
  | some a => exact bound a rfl

theorem size_time_le {t : Nat} (inRange : t ≤ maxTimestamp) : Json.size (.nat t) ≤ 15 :=
  Json.size_nat_le (by decide) (by simp only [maxTimestamp] at inRange; omega)

theorem size_count_le {n : Nat} (inRange : n ≤ maxTaskAttemptGeneration) :
    Json.size (.nat n) ≤ 10 :=
  Json.size_nat_le (by decide) (by
    simp only [maxTaskAttemptGeneration, i32Max] at inRange
    omega)

theorem size_scope_le {scope : Scope} (tenant : ValidText 128 scope.tenantId)
    (name : ValidText 128 scope.namespaceId) : Json.size scope.toJson ≤ 600 := by
  refine (Json.size_object_le _ [258, 258] (.cons ?_ (.cons ?_ .nil))).trans ?_
  · simpa using tenant.size_le
  · simpa using name.size_le
  · simp only [List.map_cons, List.map_nil]
    decide

theorem size_admission_le {admission : TaskAdmissionRequirement}
    (valid : admission.validate = .ok ()) : Json.size admission.toJson ≤ 300 := by
  simp only [TaskAdmissionRequirement.validate, resourceName, bind_eq_ok, validateText_eq_ok,
    exists_unit] at valid
  refine (Json.size_object_le _ [258] (.cons ?_ .nil)).trans ?_
  · simpa using valid.1.size_le
  · simp only [List.map_cons, List.map_nil]
    decide

theorem size_key_le {key : String} (short : byteLen key ≤ 512)
    (plain : key.toList.any isControl = false) : Json.size (.str key) ≤ 1026 := by
  have printable : ∀ c ∈ key.toList, 32 ≤ c.toNat := by
    intro c hc
    exact isControl_false (by simpa using List.any_eq_false.mp plain c hc)
  have := Json.size_str_le printable
  simp only [byteLen] at short
  omega

theorem Bounded.size_le {status : TaskStatus} (bounded : Bounded status) :
    Json.size status.toJson ≤ taskStatusMaxBytes := by
  refine (Json.size_object_le _
    [300, 10, 0, 600, 258, 258, 0, 0, 258, 1026, 20, 10, 258, 258, 15, 15, 15, 15] ?_).trans ?_
  · simp only [List.forall₂_cons, List.Forall₂.nil, and_true, Option.some.injEq, forall_eq',
      bounded.providerProbe, bounded.workflowId, bounded.workflowActivationId, Option.map_none,
      reduceCtorEq, false_imp_iff, implies_true, true_and, Option.map_eq_some_iff]
    refine ⟨?_, ?_, size_scope_le bounded.tenant bounded.namespaceId, bounded.taskId.size_le,
      bounded.runId.size_le, bounded.queue.size_le, ?_, ?_, size_count_le bounded.attemptCount,
      size_opt_le (by decide) fun id h => (bounded.currentAttemptId id h).size_le,
      size_opt_le (by decide) fun id h => (bounded.latestAttemptId id h).size_le,
      size_time_le bounded.submittedAt, size_time_le bounded.availableAt,
      size_opt_le (by decide) fun t h => size_time_le (bounded.terminalAt t h),
      size_opt_le (by decide) fun t h => size_time_le (bounded.cancelRequestedAt t h)⟩
    · rintro v ⟨a, given, rfl⟩
      exact size_admission_le (bounded.admission a given)
    · intro v given
      split at given
      · simp at given
      · obtain rfl := Option.some.inj given
        exact size_count_le bounded.admissionDeferrals
    · exact size_opt_le (by decide) fun key h =>
        size_key_le (bounded.correlationKey key h).1 (bounded.correlationKey key h).2
    · cases status.state <;> decide
  · simp only [List.map_cons, List.map_nil]
    decide

theorem Bounded.validate {status : TaskStatus} (bounded : Bounded status) {charged : Nat}
    (counted : taskRetryAttempts status.attemptCount status.admissionDeferrals
      status.admission.isSome = .ok charged)
    (consistent : ¬ status.Inconsistent charged) : status.validate = .ok () := by
  have names : ∀ id ∈ [status.taskId, status.runId, status.queue], ValidText 128 id := by
    simp [bounded.taskId, bounded.runId, bounded.queue]
  have attempts : ∀ id ∈ [status.currentAttemptId, status.latestAttemptId].reduceOption,
      ValidText 128 id := by
    simp only [List.reduceOption_mem_iff, List.mem_cons, List.not_mem_nil, or_false]
    rintro id (given | given)
    · exact bounded.currentAttemptId id given.symm
    · exact bounded.latestAttemptId id given.symm
  have key : ¬ status.correlationKey.any (fun key => 512 < byteLen key ||
      key.toList.any isControl) = true := by
    cases given : status.correlationKey with
    | none => simp
    | some key =>
      obtain ⟨short, plain⟩ := bounded.correlationKey key given
      simpa [plain] using short
  have times : ¬ [some status.submittedAt, some status.availableAt, status.terminalAt,
      status.cancelRequestedAt].reduceOption.any (maxTimestamp < ·) = true := by
    simp only [List.any_eq_true, List.reduceOption_mem_iff, List.mem_cons, List.not_mem_nil,
      or_false, decide_eq_true_eq, not_exists, not_and, not_lt, Option.some.injEq]
    rintro t (rfl | rfl | given | given)
    · exact bounded.submittedAt
    · exact bounded.availableAt
    · exact bounded.terminalAt t given.symm
    · exact bounded.cancelRequestedAt t given.symm
  have size : ¬ taskStatusMaxBytes < status.toJson.size := not_lt.mpr bounded.size_le
  simp only [TaskStatus.validate, orInconsistent, bind_eq_ok, exists_unit, ok_of_mapError, Scope.validate,
    validateText_eq_ok, validateProbe, validateAdmission, ifSome_eq_ok, List.forM_eq_forM,
    forM_eq_ok, refuse_eq_ok, counted, checkEncodedSize]
  refine ⟨⟨bounded.tenant, bounded.namespaceId⟩, ?_, names, ?_, ?_, key, attempts, ?_, charged, rfl,
    consistent, times, size⟩
  · simp [bounded.providerProbe]
  · simp [bounded.workflowId, bounded.workflowActivationId, List.reduceOption]
  · simp [bounded.workflowActivationId]
  · intro a given
    exact ⟨bounded.admission a given, by simp [bounded.workflowId,
      bounded.workflowActivationId, bounded.providerProbe]⟩

end TaskStatus

/- An outcome repeats parts of the settlement it was projected from, so it fits where that did. -/

section OutcomeSize
variable {command : SettleCommand} {attemptId : String} {quiescence : Quiescence} {started : Bool}

theorem size_quiescence_le (quiescence : Quiescence) : Json.size (.str quiescence.name) ≤ 13 := by
  cases quiescence <;> decide

theorem size_bool_le (b : Bool) : Json.size (.bool b) ≤ 5 := by
  cases b <;> decide

/-- What a report of a command takes, next to the attempt that owns it. -/
theorem size_command_ge (command : SettleCommand) :
    Json.size (.str command.owner.attemptId) + Json.size command.report.toJson + 150 ≤
      Json.size command.toJson := by
  have keys : utf8Len (quote "owner") = 7 ∧ utf8Len (quote "operation_id") = 14 ∧
    utf8Len (quote "report") = 8 ∧ utf8Len (quote "quiescence") = 12 ∧
    utf8Len (quote "processing_trace") = 18 ∧ utf8Len (quote "scope") = 7 ∧
    utf8Len (quote "task_id") = 9 ∧ utf8Len (quote "attempt_id") = 12 ∧
    utf8Len (quote "lease_id") = 10 ∧ utf8Len (quote "generation") = 12 ∧
    utf8Len (quote "worker_session_id") = 19 ∧ utf8Len (quote "consumer_id") = 13 := by decide
  obtain ⟨k₁, k₂, k₃, k₄, k₅, k₆, k₇, k₈, k₉, k₁₀, k₁₁, k₁₂⟩ := keys
  simp only [SettleCommand.toJson, LeaseOwner.toJson, Json.size_object, List.map_cons,
    List.map_nil, List.sum_cons, List.sum_nil, Json.fieldSize_some, k₁, k₂, k₃, k₄, k₅, k₆, k₇, k₈,
    k₉, k₁₀, k₁₁, k₁₂]
  omega

theorem TaskOutcome.succeeded_size_le {report : ExecutionReport} {output : Value}
    (reported : command.report = .completed report) (outcome : report.outcome = .success output) :
    Json.size (TaskOutcome.succeeded command.owner.attemptId quiescence started output).toJson ≤
      Json.size command.toJson := by
  have whole := size_command_ge command
  have inReport : Json.size output.json ≤ Json.size command.report.toJson := by
    rw [reported]
    simp only [AttemptReport.toJson, ExecutionReport.toJson, outcome, ProgramOutcome.toJson,
      Json.size_object, List.map_cons, List.map_nil, List.sum_cons, List.sum_nil, List.map_append,
      List.sum_append, Json.fieldSize_some]
    omega
  have quiet := size_quiescence_le quiescence
  have flag := size_bool_le started
  have keys : utf8Len (quote "kind") = 6 ∧ utf8Len (quote "attempt_id") = 12 ∧
    utf8Len (quote "quiescence") = 12 ∧ utf8Len (quote "execution_may_have_started") = 28 ∧
    utf8Len (quote "output") = 8 ∧ Json.size (.str "succeeded") = 11 := by decide
  obtain ⟨k₁, k₂, k₃, k₄, k₅, k₆⟩ := keys
  simp only [TaskOutcome.toJson, Json.size_object, List.map_cons, List.map_nil, List.sum_cons,
    List.sum_nil, Json.fieldSize_some, k₁, k₂, k₃, k₄, k₅, k₆]
  omega

theorem TaskOutcome.failed_size (failure : TaskFailure) :
    Json.size (TaskOutcome.failed attemptId quiescence started failure).toJson ≤
      Json.size (.str attemptId) + Json.size failure.toJson + 110 := by
  have quiet := size_quiescence_le quiescence
  have flag := size_bool_le started
  have keys : utf8Len (quote "kind") = 6 ∧ utf8Len (quote "attempt_id") = 12 ∧
    utf8Len (quote "quiescence") = 12 ∧ utf8Len (quote "execution_may_have_started") = 28 ∧
    utf8Len (quote "failure") = 9 ∧ Json.size (.str "failed") = 8 := by decide
  obtain ⟨k₁, k₂, k₃, k₄, k₅, k₆⟩ := keys
  simp only [TaskOutcome.toJson, Json.size_object, List.map_cons, List.map_nil, List.sum_cons,
    List.sum_nil, Json.fieldSize_some, k₁, k₂, k₃, k₄, k₅, k₆]
  omega

theorem TaskFailure.application_size_le {report : ExecutionReport} {kind message : String}
    (reported : command.report = .completed report)
    (outcome : report.outcome = .failure kind message) :
    Json.size (TaskFailure.application ⟨kind, message⟩).toJson ≤
      Json.size command.report.toJson + 40 := by
  rw [reported]
  have keys : utf8Len (quote "kind") = 6 ∧ utf8Len (quote "message") = 9 ∧
    utf8Len (quote "error") = 7 ∧ Json.size (.str "application") = 13 := by decide
  obtain ⟨k₁, k₂, k₃, k₄⟩ := keys
  simp only [TaskFailure.toJson, ApplicationError.toJson, AttemptReport.toJson,
    ExecutionReport.toJson, outcome, ProgramOutcome.toJson, Json.size_object, List.map_cons,
    List.map_nil, List.sum_cons, List.sum_nil, List.map_append, List.sum_append,
    Json.fieldSize_some, k₁, k₂, k₃, k₄]
  omega

theorem TaskFailure.execution_size_le {report : ExecutionFailure}
    (reported : command.report = .failed report) :
    Json.size (TaskFailure.execution report.error report.phase report.cleanupError).toJson ≤
      Json.size command.report.toJson + 40 := by
  rw [reported]
  have keys : utf8Len (quote "kind") = 6 ∧ utf8Len (quote "phase") = 7 ∧
    utf8Len (quote "error") = 7 ∧ utf8Len (quote "cleanup_error") = 15 ∧
    Json.size (.str "execution") = 11 ∧ Json.size (.opt none) = 4 := by decide
  obtain ⟨k₁, k₂, k₃, k₄, k₅, k₆⟩ := keys
  cases cleanup : report.cleanupError with
  | none =>
    simp only [TaskFailure.toJson, AttemptReport.toJson, ExecutionFailure.toJson, cleanup,
      Option.map_none, Json.size_object, List.map_cons, List.map_nil, List.sum_cons, List.sum_nil,
      List.map_append, List.sum_append, Json.fieldSize_some, k₁, k₂, k₃, k₄, k₅, k₆]
    omega
  | some error =>
    simp only [TaskFailure.toJson, AttemptReport.toJson, ExecutionFailure.toJson, cleanup,
      Option.map_some, Json.opt, Option.getD_some, Json.size_object, List.map_cons, List.map_nil,
      List.sum_cons, List.sum_nil, List.map_append, List.sum_append, Json.fieldSize_some, k₁, k₂,
      k₃, k₄, k₅]
    omega

theorem TaskFailure.unreported_size_le (reason : RunBudgetDenial) :
    Json.size TaskFailure.attemptLost.toJson ≤ 60 ∧
      Json.size TaskFailure.admissionGenerationExhausted.toJson ≤ 60 ∧
      Json.size (TaskFailure.budgetDenied reason).toJson ≤ 60 := by
  cases reason <;> decide

end OutcomeSize

end Ledgence
