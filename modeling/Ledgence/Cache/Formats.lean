import Ledgence.Api.Discovery
import Ledgence.Api.Evidence
import Ledgence.Archive.Sound

/-! The formats of the cache as the worker has them: archives as they are inspected, and descriptors
in JSON, which read back as they were written. -/
open Kit Kit.Checked

namespace Ledgence

def ProgramRef.fromJson (v : Json) : Option ProgramRef := do
  let field ← Json.struct ["id", "version"] v
  let id ← Json.required Json.asStr (field "id")
  let version ← Json.required Json.asStr (field "version")
  return ⟨id, version⟩

def ProgramDescriptor.fromJson (v : Json) : Option ProgramDescriptor := do
  let field ← Json.struct ["program", "digest", "size"] v
  let program ← Json.required ProgramRef.fromJson (field "program")
  let digest ← Json.required Json.asStr (field "digest")
  let size ← Json.required (Json.unsigned u64Max) (field "size")
  return ⟨program, ⟨digest⟩, size⟩

theorem ProgramRef.fromJson_toJson (program : ProgramRef) : fromJson program.toJson = some program := by
  rw [fromJson, toJson, Json.struct_object (by rfl) (by simp)]
  rfl

theorem ProgramDescriptor.fromJson_toJson {descriptor : ProgramDescriptor}
    (fits : descriptor.size ≤ u64Max) : fromJson descriptor.toJson = some descriptor := by
  rw [fromJson, toJson, Json.struct_object (by rfl) (by simp)]
  simp [List.lookup_cons, ProgramRef.fromJson_toJson, Json.asStr, Json.unsigned_nat fits]

section Compact
variable {serde : Serde}

theorem compact_program (program : ProgramRef) : Compact serde 1 program.toJson :=
  compact_object (by simp) fun k v mem => by
    simp only [List.mem_cons, Prod.mk.injEq, Option.some.injEq, List.not_mem_nil, or_false] at mem
    obtain ⟨-, rfl⟩ | ⟨-, rfl⟩ := mem
    all_goals exact compact_str _

theorem compact_descriptor {descriptor : ProgramDescriptor} (fits : descriptor.size ≤ u64Max) :
    Compact serde 2 descriptor.toJson :=
  compact_object (by simp) fun k v mem => by
    simp only [u64Max] at fits
    simp only [List.mem_cons, Prod.mk.injEq, Option.some.injEq, List.not_mem_nil, or_false] at mem
    obtain ⟨-, rfl⟩ | ⟨-, rfl⟩ | ⟨-, rfl⟩ := mem
    · exact compact_program _
    · exact compact_str _
    · exact compact_nat (by omega)

end Compact

namespace ProgramArchive
open ArtifactCache (Abort Bytes)

def ProgramManifest.validateHost (host : Platform) (manifest : ProgramManifest) : WorkerResult Unit := do
  manifest.validate
  refuse (manifest.platform.os ≠ host.os ∨ manifest.platform.arch ≠ host.arch)
    (incompatible "package platform differs from this worker")

def inspect (host : Platform) (formats : Formats) (limits : ArtifactLimits) (bytes : Bytes)
    (descriptor : ProgramDescriptor) : Except Abort ArchivePlan := do
  let plan ← inspectForPublication formats limits bytes descriptor
  Except.mapError (fun e => .error (.worker e)) (plan.manifest.validateHost host)
  return plan

end ProgramArchive

namespace ArtifactCache

/-- What the cache keeps of an inspected archive. -/
def ArchivePlan.ofArchive (plan : ProgramArchive.ArchivePlan) : ArchivePlan where
  manifest := ⟨plan.manifest.schemaVersion, plan.manifest.program, plan.manifest.handler⟩
  expandedBytes := plan.expandedBytes
  content := (plan.members.filter fun m => m.directory = false).map fun m => (m.name, m.data)

/-- An inspection raises errors and nothing else. -/
def Abort.raised : Abort → AdapterError
  | .error e => e
  | .stopped | .unwound => .io

/-- `serde_json::to_vec` and `serde_json::from_slice` of descriptors, and `archive::inspect`. -/
def Formats.ofLibraries (serde : Serde) (correct : serde.Correct) (host : ProgramArchive.Platform)
    (formats : ProgramArchive.Formats) (limits : ProgramArchive.ArtifactLimits) : Formats where
  sha256 bytes := hex (formats.sha256 bytes)
  unpack descriptor bytes := Except.mapError Abort.raised
    (ArchivePlan.ofArchive <$> ProgramArchive.inspect host formats limits bytes descriptor)
  encode descriptor := utf8 descriptor.toJson.text
  decode bytes :=
    (serde.document bytes >>= StrictValue.visit serde).toOption.bind ProgramDescriptor.fromJson
  decode_encode descriptor fits := by
    have decoded := (compact_descriptor fits).decode correct (by decide) le_rfl
    simp only [decodeUniqueJson, decodeJson, ite_error_eq_ok, ok_of_mapError] at decoded
    rw [decoded.2.2]
    exact ProgramDescriptor.fromJson_toJson fits

end ArtifactCache
end Ledgence
