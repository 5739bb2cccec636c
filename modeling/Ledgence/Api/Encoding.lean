import Ledgence.Api.Delivery
import Ledgence.Kit.JsonTexts

/-! The JSON of settle commands, and what agreement of two encodings says about the commands. -/
open Kit Kit.Checked

namespace Ledgence

/-- The comparison text. Its bytes are its UTF-8 encoding, so equal bytes are equal texts. -/
def canonicalJsonBytes (value : Json) : List Char :=
  value.sortObjects.text

def ErrorKind.name : ErrorKind → String
  | .invalidInput => "invalid_input"
  | .notFound => "not_found"
  | .integrity => "integrity"
  | .incompatible => "incompatible"
  | .unavailable => "unavailable"
  | .cancelled => "cancelled"
  | .timedOut => "timed_out"
  | .runtime => "runtime"
  | .protocol => "protocol"
  | .io => "io"
  | .capacity => "capacity"

def Phase.name : Phase → String
  | .admission => "admission"
  | .preparation => "preparation"
  | .startup => "startup"
  | .execution => "execution"
  | .cleanup => "cleanup"

def LocalStepObservedState.name : LocalStepObservedState → String
  | .returned => "returned"
  | .failed => "failed"
  | .cancelled => "cancelled"
  | .replayed => "replayed"

def Quiescence.name : Quiescence → String
  | .confirmed => "confirmed"
  | .unconfirmed => "unconfirmed"

def ProviderProbeFailureKind.name : ProviderProbeFailureKind → String
  | .incompatibleWorker => "incompatible_worker"
  | .contractMismatch => "contract_mismatch"
  | .contextInvalid => "context_invalid"
  | .resultInvalid => "result_invalid"
  | .invocationTimeout => "invocation_timeout"
  | .invocationFailed => "invocation_failed"
  | .preparationFailed => "preparation_failed"
  | .workerLost => "worker_lost"
  | .cancelled => "cancelled"
  | .missingReport => "missing_report"

/- One encoder a type; an omitted optional field is `none`, an explicit null is `Json.opt`. -/

def Error.toJson (error : Error) : Json :=
  .object [("kind", some (.str error.kind.name)), ("message", some (.str error.message))]

def Scope.toJson (scope : Scope) : Json :=
  .object [("tenant_id", some (.str scope.tenantId)), ("namespace", some (.str scope.namespaceId))]

def TraceContext.toJson (trace : TraceContext) : Json :=
  .object [("traceparent", some (.str trace.traceparent)),
    ("tracestate", trace.tracestate.map .str)]

def LeaseOwner.toJson (owner : LeaseOwner) : Json :=
  .object [("scope", some owner.scope.toJson), ("task_id", some (.str owner.taskId)),
    ("attempt_id", some (.str owner.attemptId)), ("lease_id", some (.str owner.leaseId)),
    ("generation", some (.nat owner.generation)),
    ("worker_session_id", some (.str owner.workerSessionId)),
    ("consumer_id", some (.nat owner.consumerId))]

def InvocationIdentity.fields (identity : InvocationIdentity) : List (String × Option Json) :=
  [("parent_workflow_id", identity.parentWorkflowId.map .str),
    ("root_workflow_id", identity.rootWorkflowId.map .str),
    ("source", some (.str identity.source)), ("event_id", some (.str identity.eventId)),
    ("tenant_id", some (.str identity.tenantId)),
    ("namespace", some (.str identity.namespaceId)), ("run_id", some (.str identity.runId)),
    ("workflow_id", identity.workflowId.map .str),
    ("activation_id", identity.activationId.map .str),
    ("task_id", some (.str identity.taskId)), ("attempt_id", some (.str identity.attemptId)),
    ("attempt_no", some (.nat identity.attemptNo)),
    ("traceparent", identity.traceparent.map .str), ("tracestate", identity.tracestate.map .str)]

def ExecutionContext.fields (context : ExecutionContext) : List (String × Option Json) :=
  context.identity.fields ++
    [("program", some context.program.toJson), ("digest", some (.str context.digest.text))]

def LocalStepObservation.toJson (step : LocalStepObservation) : Json :=
  .object [("key", some (.str step.key)), ("callable", some (.str step.callable)),
    ("started_at_ms", some (.nat step.startedAtMs)), ("elapsed_us", some (.nat step.elapsedUs)),
    ("state", some (.str step.state.name))]

def InvocationObservations.toJson (observations : InvocationObservations) : Json :=
  .object [("runtime_started_at_ms", some (.nat observations.runtimeStartedAtMs)),
    ("runtime_elapsed_us", some (.nat observations.runtimeElapsedUs)),
    ("process_cpu_user_us", some (.opt (observations.processCpuUserUs.map .nat))),
    ("process_cpu_system_us", some (.opt (observations.processCpuSystemUs.map .nat))),
    ("process_lifetime_peak_rss_bytes",
      some (.opt (observations.processLifetimePeakRssBytes.map .nat))),
    ("local_steps", some (.arr (observations.localSteps.map LocalStepObservation.toJson))),
    ("local_steps_truncated", some (.bool observations.localStepsTruncated))]

def ProgramOutcome.toJson : ProgramOutcome → Json
  | .success output => .object [("status", some (.str "success")), ("output", some output.json)]
  | .failure kind message =>
    .object [("status", some (.str "failure")), ("kind", some (.str kind)),
      ("message", some (.str message))]

def ExecutionReport.toJson (report : ExecutionReport) : Json :=
  .object ([("observations", report.observations.map InvocationObservations.toJson)] ++
    report.context.fields ++
    [("process_id", some (.nat report.processId)),
      ("reused_process", some (.bool report.reusedProcess)),
      ("outcome", some report.outcome.toJson), ("elapsed_ms", some (.nat report.elapsedMs))])

def ExecutionFailure.toJson (report : ExecutionFailure) : Json :=
  .object ([("observations", report.observations.map InvocationObservations.toJson)] ++
    report.context.fields ++
    [("error", some report.error.toJson), ("cleanup_error", report.cleanupError.map Error.toJson),
      ("phase", some (.str report.phase.name)),
      ("execution_may_have_started", some (.bool report.executionMayHaveStarted))])

def AttemptReport.toJson : AttemptReport → Json
  | .completed report => .object [("kind", some (.str "completed")), ("report", some report.toJson)]
  | .failed report => .object [("kind", some (.str "failed")), ("report", some report.toJson)]

def SettleCommand.toJson (command : SettleCommand) : Json :=
  .object [("provider_probe_failure", command.providerProbeFailure.map fun f => .str f.name),
    ("owner", some command.owner.toJson), ("operation_id", some (.str command.operationId)),
    ("report", some command.report.toJson), ("quiescence", some (.str command.quiescence.name)),
    ("processing_trace", some (.opt (command.processingTrace.map TraceContext.toJson)))]

/- Nothing but the member order of an output is lost. -/

section Faithful
open Json

theorem ErrorKind.name_injective : Function.Injective ErrorKind.name := by
  intro a b h
  cases a <;> cases b <;> simp_all [ErrorKind.name]

theorem Phase.name_injective : Function.Injective Phase.name := by
  intro a b h
  cases a <;> cases b <;> simp_all [Phase.name]

theorem LocalStepObservedState.name_injective :
    Function.Injective LocalStepObservedState.name := by
  intro a b h
  cases a <;> cases b <;> simp_all [LocalStepObservedState.name]

theorem Quiescence.name_injective : Function.Injective Quiescence.name := by
  intro a b h
  cases a <;> cases b <;> simp_all [Quiescence.name]

theorem ProviderProbeFailureKind.name_injective :
    Function.Injective ProviderProbeFailureKind.name := by
  intro a b h
  cases a <;> cases b <;> simp_all [ProviderProbeFailureKind.name]

theorem Digest.text_injective : Function.Injective Digest.text := by
  rintro ⟨a⟩ ⟨b⟩ rfl
  rfl

theorem Scope.faithful : Faithful Scope.toJson Eq := by
  refine Faithful.object (fun _ => ⟨by simp, by simp⟩) ?_
  rintro ⟨t, n⟩ ⟨t', n'⟩ agree
  obtain rfl : t = t' := (agree "tenant_id").required .str rfl rfl
  obtain rfl : n = n' := (agree "namespace").required .str rfl rfl
  rfl

theorem TraceContext.faithful : Faithful TraceContext.toJson Eq := by
  refine Faithful.object (fun _ => ⟨by simp, by simp⟩) ?_
  rintro ⟨p, s⟩ ⟨p', s'⟩ agree
  obtain rfl : p = p' := (agree "traceparent").required .str rfl rfl
  obtain rfl : s = s' := (agree "tracestate").optional .str rfl rfl
  rfl

theorem Error.faithful : Faithful Error.toJson Eq := by
  refine Faithful.object (fun _ => ⟨by simp, by simp⟩) ?_
  rintro ⟨k, m⟩ ⟨k', m'⟩ agree
  obtain rfl : k = k' := (agree "kind").required (.name ErrorKind.name_injective) rfl rfl
  obtain rfl : m = m' := (agree "message").required .str rfl rfl
  rfl

theorem ProgramRef.faithful : Faithful ProgramRef.toJson Eq := by
  refine Faithful.object (fun _ => ⟨by simp, by simp⟩) ?_
  rintro ⟨i, v⟩ ⟨i', v'⟩ agree
  obtain rfl : i = i' := (agree "id").required .str rfl rfl
  obtain rfl : v = v' := (agree "version").required .str rfl rfl
  rfl

theorem LeaseOwner.faithful : Faithful LeaseOwner.toJson Eq := by
  refine Faithful.object (fun _ => ⟨by simp, by simp [Scope.faithful.unique]⟩) ?_
  rintro ⟨s, t, a, l, g, w, c⟩ ⟨s', t', a', l', g', w', c'⟩ agree
  obtain rfl : s = s' := (agree "scope").required Scope.faithful rfl rfl
  obtain rfl : t = t' := (agree "task_id").required .str rfl rfl
  obtain rfl : a = a' := (agree "attempt_id").required .str rfl rfl
  obtain rfl : l = l' := (agree "lease_id").required .str rfl rfl
  obtain rfl : g = g' := (agree "generation").required .nat rfl rfl
  obtain rfl : w = w' := (agree "worker_session_id").required .str rfl rfl
  obtain rfl : c = c' := (agree "consumer_id").required .nat rfl rfl
  rfl

theorem LocalStepObservation.faithful : Faithful LocalStepObservation.toJson Eq := by
  refine Faithful.object (fun _ => ⟨by simp, by simp⟩) ?_
  rintro ⟨k, c, t, e, s⟩ ⟨k', c', t', e', s'⟩ agree
  obtain rfl : k = k' := (agree "key").required .str rfl rfl
  obtain rfl : c = c' := (agree "callable").required .str rfl rfl
  obtain rfl : t = t' := (agree "started_at_ms").required .nat rfl rfl
  obtain rfl : e = e' := (agree "elapsed_us").required .nat rfl rfl
  obtain rfl : s = s' :=
    (agree "state").required (.name LocalStepObservedState.name_injective) rfl rfl
  rfl

theorem nullableNat : Faithful (fun o : Option Nat => Json.opt (o.map .nat)) Eq :=
  Faithful.nat.opt (by simp [Json.nat])

theorem InvocationObservations.faithful : Faithful InvocationObservations.toJson Eq := by
  refine Faithful.object (fun _ => ⟨by simp,
    by simp [nullableNat.unique, LocalStepObservation.faithful.arr.unique]⟩) ?_
  rintro ⟨r, e, u, s, m, l, t⟩ ⟨r', e', u', s', m', l', t'⟩ agree
  obtain rfl : r = r' := (agree "runtime_started_at_ms").required .nat rfl rfl
  obtain rfl : e = e' := (agree "runtime_elapsed_us").required .nat rfl rfl
  obtain rfl : u = u' := (agree "process_cpu_user_us").required nullableNat rfl rfl
  obtain rfl : s = s' := (agree "process_cpu_system_us").required nullableNat rfl rfl
  obtain rfl : m = m' := (agree "process_lifetime_peak_rss_bytes").required nullableNat rfl rfl
  obtain rfl : l = l' := (agree "local_steps").required LocalStepObservation.faithful.arr rfl rfl
  obtain rfl : t = t' := (agree "local_steps_truncated").required .bool rfl rfl
  rfl

def contextKeys : List String :=
  ["parent_workflow_id", "root_workflow_id", "source", "event_id", "tenant_id", "namespace",
    "run_id", "workflow_id", "activation_id", "task_id", "attempt_id", "attempt_no", "traceparent",
    "tracestate", "program", "digest"]

theorem ExecutionContext.keys (context : ExecutionContext) :
    context.fields.map Prod.fst = contextKeys := rfl

theorem ExecutionContext.unique (context : ExecutionContext) :
    ∀ f ∈ context.fields, ∀ v, f.2 = some v → UniqueKeys v := by
  simp [ExecutionContext.fields, InvocationIdentity.fields, ProgramRef.faithful.unique]

/-- Reports flatten the context of an invocation into their own fields. -/
theorem ExecutionContext.eq_of_agree {context context' : ExecutionContext}
    (agree : ∀ k ∈ contextKeys, FieldsAgree k context.fields context'.fields) :
    context = context' := by
  obtain ⟨⟨pw, rw', so, ev, te, na, ru, wo, ac, ta, at', no, tp, ts⟩, pr, di⟩ := context
  obtain ⟨⟨pw', rw'', so', ev', te', na', ru', wo', ac', ta', at'', no', tp', ts'⟩, pr', di'⟩ := context'
  obtain rfl : pw = pw' := (agree "parent_workflow_id" (by decide)).optional .str rfl rfl
  obtain rfl : rw' = rw'' := (agree "root_workflow_id" (by decide)).optional .str rfl rfl
  obtain rfl : so = so' := (agree "source" (by decide)).required .str rfl rfl
  obtain rfl : ev = ev' := (agree "event_id" (by decide)).required .str rfl rfl
  obtain rfl : te = te' := (agree "tenant_id" (by decide)).required .str rfl rfl
  obtain rfl : na = na' := (agree "namespace" (by decide)).required .str rfl rfl
  obtain rfl : ru = ru' := (agree "run_id" (by decide)).required .str rfl rfl
  obtain rfl : wo = wo' := (agree "workflow_id" (by decide)).optional .str rfl rfl
  obtain rfl : ac = ac' := (agree "activation_id" (by decide)).optional .str rfl rfl
  obtain rfl : ta = ta' := (agree "task_id" (by decide)).required .str rfl rfl
  obtain rfl : at' = at'' := (agree "attempt_id" (by decide)).required .str rfl rfl
  obtain rfl : no = no' := (agree "attempt_no" (by decide)).required .nat rfl rfl
  obtain rfl : tp = tp' := (agree "traceparent" (by decide)).optional .str rfl rfl
  obtain rfl : ts = ts' := (agree "tracestate" (by decide)).optional .str rfl rfl
  obtain rfl : pr = pr' := (agree "program" (by decide)).required ProgramRef.faithful rfl rfl
  obtain rfl : di = di' :=
    (agree "digest" (by decide)).required (.name Digest.text_injective) rfl rfl
  rfl

def ProgramOutcome.Alike : ProgramOutcome → ProgramOutcome → Prop
  | .success output, .success output' => Same output.json output'.json
  | .failure kind message, .failure kind' message' => kind = kind' ∧ message = message'
  | _, _ => False

theorem ProgramOutcome.faithful : Faithful ProgramOutcome.toJson ProgramOutcome.Alike := by
  have success (output : Value) : Distinct [("status", some (.str "success")),
      ("output", some output.json)] := ⟨by simp, by simp [output.unique]⟩
  have failure (kind message : String) : Distinct [("status", some (.str "failure")),
      ("kind", some (.str kind)), ("message", some (.str message))] := ⟨by simp, by simp⟩
  constructor
  · intro outcome
    cases outcome with
    | success output => exact (success output).unique
    | failure kind message => exact (failure kind message).unique
  · intro a b h
    cases a with
    | success output =>
      cases b with
      | success output' =>
        exact (h.fields (success output) (success output') "output").required .value rfl rfl
      | failure kind message =>
        have tags := (h.fields (success output) (failure kind message) "status").required .str
          rfl rfl
        simp at tags
    | failure kind message =>
      cases b with
      | success output =>
        have tags := (h.fields (failure kind message) (success output) "status").required .str
          rfl rfl
        simp at tags
      | failure kind' message' =>
        have agree := h.fields (failure kind message) (failure kind' message')
        exact ⟨(agree "kind").required .str rfl rfl, (agree "message").required .str rfl rfl⟩

theorem context_eq {context context' : ExecutionContext} {o o' : Option Json}
    {after after' : List (String × Option Json)}
    (agree : ∀ k, FieldsAgree k ([("observations", o)] ++ context.fields ++ after)
      ([("observations", o')] ++ context'.fields ++ after')) : context = context' := by
  refine ExecutionContext.eq_of_agree fun k hk => ?_
  have other : k ≠ "observations" := by
    rintro rfl
    simp [contextKeys] at hk
  exact (agree k).middle (by simpa using other) (by simpa using other)
    (context.keys ▸ hk) (context'.keys ▸ hk)

theorem reportDistinct (context : ExecutionContext) (o : Option Json)
    (after : List (String × Option Json)) (observations : ∀ v, o = some v → UniqueKeys v)
    (keys : ("observations" :: contextKeys ++ after.map Prod.fst).Nodup)
    (values : ∀ f ∈ after, ∀ v, f.2 = some v → UniqueKeys v) :
    Distinct ([("observations", o)] ++ context.fields ++ after) := by
  constructor
  · simpa [context.keys] using keys
  · intro f hf
    simp only [List.mem_append, List.mem_singleton] at hf
    obtain (rfl | inContext) | inAfter := hf
    · exact observations
    · exact context.unique f inContext
    · exact values f inAfter

def ExecutionReport.Alike (a b : ExecutionReport) : Prop :=
  b = { a with outcome := b.outcome } ∧ a.outcome.Alike b.outcome

theorem ExecutionReport.faithful : Faithful ExecutionReport.toJson ExecutionReport.Alike := by
  refine Faithful.object (fun report => ?_) ?_
  · refine reportDistinct _ _ _ ?_ (by simp [contextKeys]) (by simp [ProgramOutcome.faithful.unique])
    simp [InvocationObservations.faithful.unique]
  · intro a b agree
    have context := context_eq agree
    obtain ⟨o, c, p, r, out, e⟩ := a
    obtain ⟨o', c', p', r', out', e'⟩ := b
    obtain rfl : c = c' := context
    obtain rfl : o = o' := (agree "observations").optional InvocationObservations.faithful rfl rfl
    obtain rfl : p = p' := (agree "process_id").required .nat rfl rfl
    obtain rfl : r = r' := (agree "reused_process").required .bool rfl rfl
    obtain rfl : e = e' := (agree "elapsed_ms").required .nat rfl rfl
    exact ⟨rfl, (agree "outcome").required ProgramOutcome.faithful rfl rfl⟩

theorem ExecutionFailure.faithful : Faithful ExecutionFailure.toJson Eq := by
  refine Faithful.object (fun report => ?_) ?_
  · refine reportDistinct _ _ _ ?_ (by simp [contextKeys]) (by simp [Error.faithful.unique])
    simp [InvocationObservations.faithful.unique]
  · intro a b agree
    have context := context_eq agree
    obtain ⟨o, c, er, ce, ph, st⟩ := a
    obtain ⟨o', c', er', ce', ph', st'⟩ := b
    obtain rfl : c = c' := context
    obtain rfl : o = o' := (agree "observations").optional InvocationObservations.faithful rfl rfl
    obtain rfl : er = er' := (agree "error").required Error.faithful rfl rfl
    obtain rfl : ce = ce' := (agree "cleanup_error").optional Error.faithful rfl rfl
    obtain rfl : ph = ph' := (agree "phase").required (.name Phase.name_injective) rfl rfl
    obtain rfl : st = st' := (agree "execution_may_have_started").required .bool rfl rfl
    rfl

def AttemptReport.Alike : AttemptReport → AttemptReport → Prop
  | .completed a, .completed b => a.Alike b
  | .failed a, .failed b => a = b
  | _, _ => False

theorem AttemptReport.faithful : Faithful AttemptReport.toJson AttemptReport.Alike := by
  have completed (report : ExecutionReport) : Distinct [("kind", some (.str "completed")),
      ("report", some report.toJson)] := ⟨by simp, by simp [ExecutionReport.faithful.unique]⟩
  have failed (report : ExecutionFailure) : Distinct [("kind", some (.str "failed")),
      ("report", some report.toJson)] := ⟨by simp, by simp [ExecutionFailure.faithful.unique]⟩
  constructor
  · intro report
    cases report with
    | completed report => exact (completed report).unique
    | failed report => exact (failed report).unique
  · intro a b h
    cases a with
    | completed a =>
      cases b with
      | completed b =>
        exact (h.fields (completed a) (completed b) "report").required ExecutionReport.faithful
          rfl rfl
      | failed b =>
        have tags := (h.fields (completed a) (failed b) "kind").required .str rfl rfl
        simp at tags
    | failed a =>
      cases b with
      | completed b =>
        have tags := (h.fields (failed a) (completed b) "kind").required .str rfl rfl
        simp at tags
      | failed b =>
        exact (h.fields (failed a) (failed b) "report").required ExecutionFailure.faithful rfl rfl

def SettleCommand.Alike (a b : SettleCommand) : Prop :=
  b = { a with report := b.report } ∧ a.report.Alike b.report

theorem nullableTrace :
    Faithful (fun o : Option TraceContext => Json.opt (o.map TraceContext.toJson)) Eq :=
  TraceContext.faithful.opt (by simp [TraceContext.toJson, Json.object])

theorem SettleCommand.faithful : Faithful SettleCommand.toJson SettleCommand.Alike := by
  refine Faithful.object (fun _ => ⟨by simp, by
    simp [LeaseOwner.faithful.unique, AttemptReport.faithful.unique, nullableTrace.unique]⟩) ?_
  intro a b agree
  obtain ⟨p, ow, op, re, q, tr⟩ := a
  obtain ⟨p', ow', op', re', q', tr'⟩ := b
  obtain rfl : p = p' := (agree "provider_probe_failure").optional
    (.name ProviderProbeFailureKind.name_injective) rfl rfl
  obtain rfl : ow = ow' := (agree "owner").required LeaseOwner.faithful rfl rfl
  obtain rfl : op = op' := (agree "operation_id").required .str rfl rfl
  obtain rfl : q = q' := (agree "quiescence").required (.name Quiescence.name_injective) rfl rfl
  obtain rfl : tr = tr' := (agree "processing_trace").required nullableTrace rfl rfl
  exact ⟨rfl, (agree "report").required AttemptReport.faithful rfl rfl⟩

/-- Two commands have the same canonical bytes exactly when they are the same JSON up to the order
of members. -/
theorem SettleCommand.canonical_eq_iff (a b : SettleCommand) :
    canonicalJsonBytes a.toJson = canonicalJsonBytes b.toJson ↔ Same a.toJson b.toJson :=
  Json.canonical_eq_iff (SettleCommand.faithful.unique a)

end Faithful
end Ledgence
