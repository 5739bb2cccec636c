import Ledgence.Api.Decoding
import Ledgence.Core.Basics
import Ledgence.Kit.JsonTexts
import Ledgence.Kit.Utf8

/-! Completion events: what they are about, and how they spell a correlation key. -/
open Kit Kit.Checked

namespace Ledgence
namespace Completion

inductive CompletionTarget where
  | task (id : String)
  | workflow (id : String)
  deriving DecidableEq

namespace CompletionTarget

def id : CompletionTarget → String
  | task id | workflow id => id

def kind : CompletionTarget → String
  | task _ => "task"
  | workflow _ => "workflow"

end CompletionTarget

def completionEventId (target : CompletionTarget) : String :=
  "evt_" ++ target.kind ++ "_completed_" ++ target.id

def completionResultRef (scope : Scope) (target : CompletionTarget) : String :=
  "/v1/" ++ target.kind ++ "s/result?tenant_id=" ++ percent scope.tenantId ++ "&namespace=" ++
    percent scope.namespaceId ++ "&" ++ target.kind ++ "_id=" ++ percent target.id

def encodeCompletionCorrelation (value : String) : String :=
  percent value

def decodeCompletionCorrelation (value : String) : Result String := do
  refuse (1536 < byteLen value) (invalid "encoded completion correlation exceeds limit")
  let bytes ← okOr (unpercent (utf8 value.toList))
    (invalid "malformed completion correlation escape")
  let decoded ← okOr (fromUtf8 bytes) (invalid "correlation is not UTF-8")
  let decoded := String.ofList decoded
  refuse (512 < byteLen decoded ∨ decoded.toList.any isControl = true ∨ percent decoded ≠ value)
    (invalid "invalid or noncanonical encoded completion correlation")
  return decoded

end Completion
end Ledgence

/-! The references of a completion event tell their targets apart, and a correlation key has exactly
one spelling. -/

namespace Ledgence.Completion

/- What the events are about. -/

def escaped (value : String) : List Char :=
  percentBytes (utf8 value.toList)

theorem percent_toList (value : String) : (percent value).toList = escaped value :=
  toList_percent value

theorem escaped_injective : Function.Injective escaped :=
  fun _ _ same => percent_injective (congrArg String.ofList same)

theorem separator_notMem (value : String) : '&' ∉ escaped value := by
  intro inside
  obtain ⟨b, -, inByte⟩ := List.mem_flatMap.mp inside
  exact ((percentByte_plain b).1 _ inByte).2.2 rfl

theorem escaped_part {a a' : String} {rest rest' : List Char}
    (same : escaped a ++ '&' :: rest = escaped a' ++ '&' :: rest') : a = a' ∧ rest = rest' := by
  have ends (value : String) (rest : List Char) :
      (escaped value ++ '&' :: rest).takeWhile (· ≠ '&') = escaped value := by
    have inside : ∀ c ∈ escaped value, decide (c ≠ '&') = true := fun c mem =>
      decide_eq_true fun separator => separator_notMem value (separator ▸ mem)
    rw [List.takeWhile_append_of_pos inside]
    simp
  have parts : escaped a = escaped a' := by rw [← ends a rest, same, ends a' rest']
  rw [parts] at same
  exact ⟨escaped_injective parts, (List.cons.inj (List.append_cancel_left same)).2⟩

/-- Two targets share no event, and no result in whatever scope. -/
theorem completion_targets_distinct :
    Function.Injective completionEventId ∧
      Function.Injective fun about : Scope × CompletionTarget =>
        completionResultRef about.1 about.2 := by
  constructor
  · intro a b same
    have same := congrArg String.toList same
    cases a <;> cases b <;>
      simp_all [completionEventId, CompletionTarget.kind, CompletionTarget.id, ← String.toList_inj]
  · rintro ⟨⟨tenant, namespaceId⟩, target⟩ ⟨⟨tenant', namespaceId'⟩, target'⟩ same
    have same := congrArg String.toList same
    cases target <;> cases target' <;>
      simp [completionResultRef, CompletionTarget.kind, CompletionTarget.id, percent_toList,
        -toList_percent] at same
    all_goals
      obtain ⟨rfl, afterTenant⟩ := escaped_part same
      simp only [List.cons.injEq, true_and] at afterTenant
      obtain ⟨rfl, afterNamespace⟩ := escaped_part afterTenant
      simp only [List.cons.injEq, true_and] at afterNamespace
      rw [escaped_injective afterNamespace]

/- Correlation keys. -/

/-- What the escapes of an encoded key stand for are its bytes, and no other text has them. -/
theorem decoded_percent (s : String) :
    unpercent (utf8 (encodeCompletionCorrelation s).toList) = some (utf8 s.toList) ∧
      fromUtf8 (utf8 s.toList) = some s.toList := by
  constructor
  · rw [encodeCompletionCorrelation, toList_percent]
    exact unpercent_percentBytes _
  · exact fromUtf8_eq_some_iff.mpr rfl

theorem byteLen_encoded {s : String} (short : byteLen s ≤ 512) :
    byteLen (encodeCompletionCorrelation s) ≤ 1536 := by
  have tripled : byteLen (percent s) ≤ 3 * byteLen s := utf8Len_percent_le s
  rw [encodeCompletionCorrelation]
  omega

theorem decodeCompletionCorrelation_eq_ok {value s : String} :
    decodeCompletionCorrelation value = .ok s ↔
      byteLen s ≤ 512 ∧ s.toList.any isControl = false ∧ encodeCompletionCorrelation s = value := by
  simp only [decodeCompletionCorrelation, bind_eq_ok, refuse_eq_ok, okOr_eq_ok, pure_eq_ok,
    exists_unit, not_or, not_lt, not_not, Bool.not_eq_true]
  constructor
  · rintro ⟨-, bytes, -, text, -, ⟨short, plain, spelled⟩, rfl⟩
    exact ⟨short, plain, spelled⟩
  · rintro ⟨short, plain, rfl⟩
    obtain ⟨escapes, text⟩ := decoded_percent s
    refine ⟨byteLen_encoded short, _, escapes, _, text, ?_, String.ofList_toList⟩
    rw [String.ofList_toList]
    exact ⟨short, plain, rfl⟩

/-- Every key has one spelling that is accepted, the one that is written for it. -/
theorem correlation_codec_exact :
    (∀ s, byteLen s ≤ 512 → s.toList.any isControl = false →
      byteLen (encodeCompletionCorrelation s) ≤ 1536 ∧
        decodeCompletionCorrelation (encodeCompletionCorrelation s) = .ok s) ∧
    ∀ e s, decodeCompletionCorrelation e = .ok s ↔
      byteLen s ≤ 512 ∧ s.toList.any isControl = false ∧ encodeCompletionCorrelation s = e := by
  refine ⟨fun s short plain => ⟨byteLen_encoded short, ?_⟩, fun e s => ?_⟩
  · exact decodeCompletionCorrelation_eq_ok.mpr ⟨short, plain, rfl⟩
  · exact decodeCompletionCorrelation_eq_ok

/-- A key beyond ASCII, and the one text that is read as it. -/
theorem correlation_codec_accent :
    byteLen (encodeCompletionCorrelation "caf\u00e9 1") ≤ 1536 ∧
      decodeCompletionCorrelation "caf%C3%A9%201" = .ok "caf\u00e9 1" :=
  ⟨(correlation_codec_exact.1 "caf\u00e9 1" (by decide) (by decide)).1,
    (correlation_codec_exact.2 "caf%C3%A9%201" "caf\u00e9 1").mpr
      ⟨by decide, by decide, by decide +kernel⟩⟩

end Ledgence.Completion
