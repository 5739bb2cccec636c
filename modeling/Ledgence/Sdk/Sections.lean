import Ledgence.Sdk.Replies

/-! What one section of an owned task can do, with what it has checked by then. -/
open Kit Kit.Checked

namespace Ledgence.Sdk

structure Effect.Fits (library : Library) (effect : Effect) (b : Binding) : Prop where
  callable : b.callable = effect.action.name
  input : ∃ text action, b.input.json.sortObjects = (effectInput text effect.lookup).json.sortObjects ∧
    library.loads text = some action ∧
    action.json.sortObjects = effect.action.value.json.sortObjects

theorem Effect.Fits.agrees {library : Library} {effect : Effect} {a b : Binding}
    (fits : effect.Fits library a) (fits' : effect.Fits library b) (same : a.key = b.key)
    (under : reserved a.key = true) : a.Agrees library b := by
  obtain ⟨text, action, sorted, reads, read⟩ := fits.input
  obtain ⟨text', action', sorted', reads', read'⟩ := fits'.input
  have shaped : ∀ {v w : Value} {key : String}, v.json.sortObjects = w.json.sortObjects →
      canonicalInput library key v = canonicalInput library key w := by
    intro v w key e
    simp only [canonicalInput, e]
  refine ⟨fits.callable.trans fits'.callable.symm, ?_⟩
  rw [shaped sorted, shaped sorted', ← same, canonicalInput_effect under reads,
    canonicalInput_effect under reads', read, read']

section Fields
variable {ms : List (String × Json)} {k s text lookup : String}

theorem sortObjects_perm {ns : List (String × Json)} (perm : ms.Perm ns)
    (keys : (ms.map Prod.fst).Nodup) : (Json.obj ms).sortObjects = (Json.obj ns).sortObjects := by
  rw [Json.sortObjects, Json.sortObjects, Json.sortMembers_eq_map, Json.sortMembers_eq_map]
  refine congrArg Json.obj (Json.insertionSort_eq_of_perm (perm.map _) ?_)
  simpa [Function.comp_def] using keys

theorem lookup_of_getStr (h : (Json.obj ms).getStr k = some s) : ms.lookup k = some (.str s) := by
  obtain ⟨w, found, read⟩ := Option.bind_eq_some_iff.mp h
  cases w with
  | str t =>
    obtain rfl : t = s := by simpa using read
    exact found
  | null | bool b | num n | arr vs | obj ns => simp [Json.asStr] at read

theorem lookup_of_getNat {n : Nat} (h : (Json.obj ms).getNat k = some n) :
    ms.lookup k = some (.num (.int n)) := by
  obtain ⟨w, found, read⟩ := Option.bind_eq_some_iff.mp h
  cases w with
  | num m =>
    cases m with
    | int i =>
      cases i with
      | ofNat m =>
        obtain rfl : m = n := by simpa [Json.asNat] using read
        exact found
      | negSucc m => simp [Json.asNat] at read
    | float f => simp [Json.asNat] at read
  | null | bool b | str s | arr vs | obj ns => simp [Json.asNat] at read

/-- An object with the three fields of an effect's input has their values. -/
theorem sorted_of_fields {v : Value}
    (fields : checkFields ["v", "action_json", "lookup"] [] v = .ok ())
    (version : v.json.getNat "v" = some 1) (named : v.json.getStr "lookup" = some lookup)
    (saved : v.json.getStr "action_json" = some text) :
    v.json.sortObjects = (effectInput text.toList lookup).json.sortObjects := by
  obtain ⟨json, unique⟩ := v
  cases json with
  | obj ms =>
    simp only [checkFields, refuse_eq_ok, not_not] at fields
    obtain ⟨_, only⟩ := fields
    rw [Json.UniqueKeys] at unique
    have version := lookup_of_getNat version
    have named := lookup_of_getStr named
    have saved := lookup_of_getStr saved
    have mem : ∀ {k : String} {w : Json}, ms.lookup k = some w ↔ (k, w) ∈ ms :=
      Json.lookup_eq_some_iff unique.1
    have target : (effectInput text.toList lookup).json =
        .obj [("v", .num (.int 1)), ("action_json", .str text), ("lookup", .str lookup)] := by
      simp [effectInput, object, str, nat, String.ofList_toList]
    rw [target]
    refine sortObjects_perm ((List.perm_ext_iff_of_nodup unique.1.of_map ?_).mpr ?_) unique.1
    · exact List.Nodup.of_map Prod.fst (by simp)
    rintro ⟨k, w⟩
    simp only [List.mem_cons, Prod.mk.injEq, List.not_mem_nil, or_false]
    constructor
    · intro h
      have found := mem.mpr h
      have among : k ∈ ms.map Prod.fst := List.mem_map.mpr ⟨(k, w), h, rfl⟩
      have among := List.all_eq_true.mp only k among
      simp only [List.append_nil, List.contains_cons, List.contains_nil, Bool.or_false,
        Bool.or_eq_true, beq_iff_eq] at among
      rcases among with rfl | rfl | rfl
      · exact .inl ⟨rfl, Option.some.inj (found.symm.trans version)⟩
      · exact .inr (.inl ⟨rfl, Option.some.inj (found.symm.trans saved)⟩)
      · exact .inr (.inr ⟨rfl, Option.some.inj (found.symm.trans named)⟩)
    · rintro (⟨rfl, rfl⟩ | ⟨rfl, rfl⟩ | ⟨rfl, rfl⟩)
      · exact mem.mp version
      · exact mem.mp saved
      · exact mem.mp named
  | null | bool b | num n | str s | arr vs => simp [checkFields] at fields

end Fields

section Replies
variable {payload : Payload} {library : Library} {effect : Effect} {reply : Value} {record : Record}

theorem replayedActionJson_eq_ok {saved actionJson : List Char}
    (h : replayedActionJson library saved = .ok actionJson) :
    ∃ action, library.loads saved = some action ∧ actionJson = canonical action := by
  simp only [replayedActionJson, bind_eq_ok, okOr_eq_ok, encode_eq_ok] at h
  obtain ⟨action, reads, rfl, _⟩ := h
  exact ⟨action, reads, rfl⟩

theorem readRecord_eq_ok {v : Value} (h : readRecord v = .ok record) :
    v.json.getStr "key" = some record.key ∧ field v "output" = some record.output := by
  simp only [readRecord, bind_eq_ok, exists_unit, okOr_eq_ok, pure_eq_ok] at h
  obtain ⟨_, key, named, callable, _, input, _, output, written, _, rfl⟩ := h
  exact ⟨named, written⟩

/-- A replayed record is of the key that was claimed, and fits the effect. -/
theorem readReplay_eq_ok {key : String} (kind : reply.json.getStr "kind" = some "replay")
    (h : readReplay payload library effect key reply = .ok record) :
    Replay payload effect key record reply ∧ effect.Fits library record.toBinding := by
  simp only [readReplay, bind_eq_ok, refuse_eq_ok, okOr_eq_ok, encode_eq_ok, exists_unit,
    pure_eq_ok, checkIdentity_eq_ok] at h
  obtain ⟨_, identity, kept, frozen, record, read, fields, actionJson, ⟨rfl, _⟩, names, fits, saved, named,
    replayed, reads, same, rfl⟩ := h
  push Not at names fits same
  obtain ⟨action, loaded, e⟩ := replayedActionJson_eq_ok reads
  refine ⟨⟨kind, identity, names.1, names.2, kept, frozen, readRecord_eq_ok read⟩, names.2, saved.toList,
    action, sorted_of_fields fields fits.1 fits.2 named, loaded, ?_⟩
  exact canonical_eq.mp (e.symm.trans same)

theorem readClaim_ne_replay : readClaim payload effect reply ≠ .ok (.replay record) := by
  intro h
  simp only [readClaim, bind_eq_ok] at h
  obtain ⟨_, _, _, _, _, _, _, _, _, _, h⟩ := h
  split at h
  · simp at h
  · simp at h
  · simp at h

theorem readDisposition_ne_replay {kind : Option String} {claim : Value} :
    readDisposition kind claim ≠ .ok (.replay record) := by
  intro h
  simp only [readDisposition, bind_eq_ok] at h
  obtain ⟨_, _, _, _, _, _, h⟩ := h
  split at h
  · simp at h
  · simp at h
  · simp at h

theorem claimReply_replay {p : Pending} {claimId : String} {reply : Except Exc Value}
    (h : World.claimReply payload library p effect claimId reply = .ok (.replay record)) :
    (∃ v, reply = .ok v ∧ Replay payload effect p.key record v) ∧
      effect.Fits library record.toBinding := by
  simp only [World.claimReply, bind_eq_ok, ok_of_mapError] at h
  obtain ⟨reply, answered, h⟩ := h
  split at h
  · simp only [readClaimV2] at h
    split at h
    · rename_i kind
      simp only [bind_eq_ok, pure_eq_ok, Claimed.replay.injEq] at h
      obtain ⟨record, found, rfl⟩ := h
      obtain ⟨replay, fits⟩ := readReplay_eq_ok kind found
      exact ⟨⟨reply, answered, replay⟩, fits⟩
    · simp only [bind_eq_ok] at h
      obtain ⟨_, _, _, _, _, _, _, _, _, _, _, _, _, _, _, _, _, _, h⟩ := h
      exact absurd h readDisposition_ne_replay
  · exact absurd h readClaim_ne_replay

theorem makeRecord_eq_ok {binding : Binding} {output : Option Value}
    (h : World.makeRecord binding output = .ok record) : record.toBinding = binding := by
  simp only [World.makeRecord, bind_eq_ok, pure_eq_ok] at h
  obtain ⟨_, _, _, _, rfl⟩ := h
  rfl

end Replies
namespace World

def held (w : World) (lock : Option TaskRef) : World :=
  { w with lock }

section Step
variable {payload : Payload} {library : Library} {w : World} {p : Pending}

/-- The outcomes of a section of the task `p`, which goes on with `move`. -/
inductive Advanced (payload : Payload) (library : Library) (w : World) (p : Pending) (move : Move) :
    World → Prop
  | idle : Advanced payload library w p move w
  | remembered (record : Record) (stage : p.stage = .created) (previous : p.previous = some record) :
    Advanced payload library w p move (w.finish p (.ok (.step record.output)))
  | stopped (lock : Option TaskRef) (exc : Exc) (live : p.stage.outcome = none) :
    Advanced payload library w p move ((w.held lock).finish p (.error exc))
  | broken (lock : Option TaskRef) (exc : Exc) (live : p.stage.outcome = none) :
    Advanced payload library w p move
      (((w.held lock).fail (.step p.key) exc).finish p (.error exc))
  | claiming (stage : p.stage = .created) (previous : p.previous = none) :
    Advanced payload library w p move (w.goto p .claiming)
  | claimed (claimId : String) (stage : p.stage = .claiming) (sent : move = .acquire claimId) :
    Advanced payload library w p move ((w.held (some (.step p.key))).goto p (.claimed claimId))
  | called (lock : Option TaskRef) (claim : Option (String × String))
    (stage : p.stage = .created ∧ p.previous = none ∧ claim = none ∨
      ∃ claimId callback, p.stage = .claimed claimId ∧ claim = some (claimId, callback)) :
    Advanced payload library w p move (((w.held lock).note (.called p.key)).goto p (.calling claim))
  | found (lock : Option TaskRef) (record : Record) (effect : Effect) (claimId : String)
    (stage : p.stage = .claimed claimId) (of : p.effect = some effect)
    (fits : effect.Fits library record.toBinding) (reply : Value) (expired : Option Nat)
    (answered : move = .answer (.ok reply) expired) (replay : Replay payload effect p.key record reply) :
    Advanced payload library w p move
      (((w.held lock).note (.replayed p.key record.output)).goto p (.returned record true none))
  | returned (record : Record) (claim : Option (String × String)) (stage : p.stage = .calling claim)
    (binding : record.toBinding = p.binding) :
    Advanced payload library w p move (w.goto p (.returned record false claim))
  | committing (record : Record) (claim : Option (String × String)) (observationId : String)
    (stage : p.stage = .returned record false claim) (sent : move = .acquire observationId) :
    Advanced payload library w p move
      ((w.held (some (.step p.key))).goto p (.committing record claim observationId))
  | replayed (record : Record) (claim : Option (String × String))
    (stage : p.stage = .returned record true claim) :
    Advanced payload library w p move
      ((w.save record).finish { p with known := record.toBinding.text } (.ok (.step record.output)))
  | accepted (lock : Option TaskRef) (record : Record) (claim : Option (String × String))
    (observationId : String) (stage : p.stage = .committing record claim observationId) (reply : Value)
    (expired : Option Nat) (answered : move = .answer (.ok reply) expired)
    (acknowledges : Acknowledges payload p claim observationId reply) :
    Advanced payload library w p move
      ((((w.held lock).save record).note (.acknowledged p.key record.output)).finish p
        (.ok (.step record.output)))

variable {move : Move}

theorem start_advanced (stage : p.stage = .created) : Advanced payload library w p move (w.start p) := by
  have live : p.stage.outcome = none := by rw [stage]; rfl
  unfold start
  split
  · exact .remembered _ stage ‹_›
  · exact .stopped w.lock _ live
  · exact .called w.lock none (.inl ⟨stage, ‹_›, rfl⟩)
  · exact .claiming stage ‹_›

theorem claim_advanced {claimId : String} (stage : p.stage = .claiming) :
    Advanced payload library w p (.acquire claimId) (w.claim p claimId) := by
  unfold claim
  split
  · exact .stopped w.lock lost (by rw [stage]; rfl)
  · exact .claimed claimId stage rfl

theorem claimAnswered_advanced {effect : Effect} {claimId : String} {reply : Except Exc Value}
    {expired : Option Nat} (stage : p.stage = .claimed claimId) (of : p.effect = some effect) :
    Advanced payload library w p (.answer reply expired)
      (w.claimAnswered payload library p effect claimId reply expired) := by
  have live : p.stage.outcome = none := by rw [stage]; rfl
  unfold claimAnswered
  split
  · exact .broken none _ live
  · obtain ⟨⟨v, rfl, replay⟩, fits⟩ := claimReply_replay ‹_›
    exact .found none _ effect claimId stage of fits v _ rfl replay
  · exact .stopped none _ live
  · exact .called none _ (.inr ⟨claimId, _, stage, rfl⟩)
  · exact .called none _ (.inr ⟨claimId, _, stage, rfl⟩)

theorem delivered_advanced {claim : Option (String × String)} {result : Except Exc (Option Value)}
    (stage : p.stage = .calling claim) :
    Advanced payload library w p move (w.delivered p claim result) := by
  have live : p.stage.outcome = none := by rw [stage]; rfl
  unfold delivered
  cases result with
  | error exc => exact .stopped w.lock exc live
  | ok output =>
    dsimp only
    cases made : makeRecord p.binding output with
    | error error => exact .stopped w.lock (.workflow error) live
    | ok record => exact .returned record claim stage (makeRecord_eq_ok made)

theorem commit_advanced {record : Record} {replayed : Bool} {claim : Option (String × String)}
    {observationId : String} (stage : p.stage = .returned record replayed claim) :
    Advanced payload library w p (.acquire observationId)
      (w.commit p record replayed claim observationId) := by
  have live : p.stage.outcome = none := by rw [stage]; rfl
  unfold commit
  split
  next error _ => exact .stopped w.lock (.workflow error) live
  next =>
    cases replayed with
    | false => exact .committing record claim observationId stage rfl
    | true =>
      simp only [replay, ↓reduceIte]
      cases encoded : encode record.toBinding.value maxRecordBytes 96 true with
      | error error => exact .broken w.lock (.workflow error) live
      | ok known =>
        obtain ⟨rfl, _⟩ := encode_eq_ok.mp encoded
        exact .replayed record claim stage

theorem committed_advanced {record : Record} {claim : Option (String × String)}
    {observationId : String} {reply : Except Exc Value} {expired : Option Nat}
    (stage : p.stage = .committing record claim observationId) :
    Advanced payload library w p (.answer reply expired)
      (w.committed payload p record claim observationId reply) := by
  unfold committed
  split
  next exc _ => exact .broken none exc (by rw [stage]; rfl)
  next said =>
    obtain ⟨v, rfl, acknowledges⟩ := commitReply_eq_ok.mp said
    exact .accepted none record claim observationId stage v expired rfl acknowledges

theorem advance_advanced (move : Move) :
    Advanced payload library w p move (w.advance payload library p move) := by
  have waits : ∀ {stage : Stage}, p.stage = stage → stage.outcome = none → p.stage.outcome = none :=
    fun e live => e ▸ live
  unfold advance
  split
  · exact start_advanced ‹_›
  · split
    · exact claim_advanced ‹_›
    · exact .idle
  · exact claimAnswered_advanced ‹_› ‹_›
  · exact delivered_advanced ‹_›
  · split
    · exact commit_advanced ‹_›
    · exact .idle
  · exact committed_advanced ‹_›
  · exact .stopped w.lock .cancelled (waits ‹_› rfl)
  · exact .stopped w.lock .cancelled (waits ‹_› rfl)
  · exact .stopped w.lock .cancelled (waits ‹_› rfl)
  · exact .idle

end Step
end World
end Ledgence.Sdk
