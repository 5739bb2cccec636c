import Ledgence.Api.Decoding
import Ledgence.Kit.JsonText
import Ledgence.Api.Decoded
import Ledgence.Kit.JsonTexts
import Ledgence.Kit.Utf8

/-! The frames of a subprocess: JSON texts, each ended by a newline, as they are written to its
input and read from its output. The reader is also given as the naive reader of the whole stream. -/
open Kit Kit.Checked

namespace Ledgence
namespace Subprocess

abbrev Bytes := List UInt8

def newline : UInt8 := ascii '\n'

def protocol (message : String) : Error :=
  ⟨.protocol, message⟩

inductive FrameError where
  | closed
  | oversize
  | json (error : Error)

def FrameError.error : FrameError → Error
  | .closed =>
    ⟨.runtime, "subprocess closed protocol output; execution result is unavailable"⟩
  | .oversize => protocol "subprocess frame exceeded configured limit"
  | .json error => protocol s!"invalid subprocess JSON frame: {error.toString}"

abbrev FrameResult := Except FrameError Json

def Final : FrameResult → Bool
  | .error .closed | .error .oversize => true
  | .error (.json _) | .ok _ => false

/- `serde_json::Value`: of several members with one key the last stays. -/

def insertEntry (values : List (String × Json)) (key : String) (value : Json) : List (String × Json) :=
  if key ∈ values.map Prod.fst then
    values.map fun entry => if entry.1 = key then (key, value) else entry
  else
    values ++ [(key, value)]

mutual
def visitValue (serde : Serde) : Doc → Except String Json
  | .null => .ok .null
  | .bool b => .ok (.bool b)
  | .num token => Json.num <$> visitNumber serde token
  | .str s => .ok (.str s)
  | .arr ds => Json.arr <$> visitValues serde ds
  | .obj ms => Json.obj <$> visitEntries serde [] ms
termination_by structural d => d

def visitValues (serde : Serde) : List Doc → Except String (List Json)
  | [] => .ok []
  | d :: ds => do
    let value ← visitValue serde d
    let values ← visitValues serde ds
    return value :: values
termination_by structural ds => ds

def visitEntries (serde : Serde) (values : List (String × Json)) :
    List (String × Doc) → Except String (List (String × Json))
  | [] => .ok values
  | (key, d) :: ms => do
    let value ← visitValue serde d
    visitEntries serde (insertEntry values key value) ms
termination_by structural ms => ms
end

def decodeFrame (serde : Serde) (frame : Bytes) : FrameResult :=
  (decodeJson serde (visitValue serde) frame).mapError .json

def writeFrame (limit : Nat) (value : Json) : WorkerResult Bytes := do
  let bytes := utf8 value.text
  refuse (limit ≤ bytes.length) ⟨.invalidInput, "invocation exceeds subprocess frame limit"⟩
  return bytes ++ [newline]

/-- What the pipe answers to a read that would wait: nothing yet, or some bytes. While there is
nothing yet the pending call is polled again, or dropped and made again. -/
inductive Offer where
  | pending (dropped : Bool)
  | bytes (chunk : Bytes) (nonempty : chunk ≠ [])

def Offer.chunk : Offer → Bytes
  | .pending _ => []
  | .bytes chunk _ => chunk

def stream (offers : List Offer) : Bytes :=
  offers.flatMap Offer.chunk

/-- `buffer` is what is left of the last chunk, `pending` the part of a frame read so far. -/
structure FrameReader where
  buffer : Bytes
  pending : Bytes
  limit : Nat

namespace FrameReader

def start (limit : Nat) : FrameReader := ⟨[], [], limit⟩

def used (r : FrameReader) : Nat :=
  match r.buffer.findIdx? (· == newline) with
  | some i => i + 1
  | none => r.buffer.length

/-- One call, with the offers that are left after it. All that a call keeps between two offers is in
the reader, so that a dropped call and a suspended one go on alike. -/
def next (serde : Serde) (r : FrameReader) (offers : List Offer) :
    FrameResult × FrameReader × List Offer :=
  if r.buffer = [] then
    match offers with
    | [] => (.error .closed, r, [])
    | .pending _ :: offers => next serde r offers
    | .bytes chunk _ :: offers => next serde { r with buffer := chunk } offers
  else if r.limit - r.pending.length < r.used then
    (.error .oversize, r, offers)
  else
    let pending := r.pending ++ r.buffer.take r.used
    if newline ∈ r.buffer then
      (decodeFrame serde pending, { r with buffer := r.buffer.drop r.used, pending := [] }, offers)
    else
      next serde { r with buffer := [], pending } offers
termination_by (offers.length, r.buffer.length)
decreasing_by
  · exact Prod.Lex.left _ _ (Nat.lt_succ_self _)
  · exact Prod.Lex.left _ _ (Nat.lt_succ_self _)
  · exact Prod.Lex.right _ (List.length_pos_of_ne_nil ‹_›)

end FrameReader

/- The naive reader. -/

def cut : Bytes → List Bytes × Bytes
  | [] => ([], [])
  | b :: bytes =>
    match cut bytes with
    | (pieces, rest) =>
      if b = newline then ([b] :: pieces, rest)
      else
        match pieces with
        | [] => ([], b :: rest)
        | piece :: pieces => ((b :: piece) :: pieces, rest)

def naive (serde : Serde) (limit : Nat) : List Bytes → Bytes → List FrameResult
  | [], rest => if limit < rest.length then [.error .oversize] else [.error .closed]
  | piece :: pieces, rest =>
    if limit < piece.length then [.error .oversize]
    else decodeFrame serde piece :: naive serde limit pieces rest

def naiveReader (serde : Serde) (limit : Nat) (bytes : Bytes) : List FrameResult :=
  naive serde limit (cut bytes).1 (cut bytes).2

end Subprocess
end Ledgence

/-! The reader reads what the naive reader reads from the whole stream, however it is offered, and
what was written frame by frame. -/

namespace Ledgence
namespace Subprocess
variable {serde : Serde} {limit : Nat}

/- The naive reader. -/

theorem cut_line {line : Bytes} (whole : newline ∉ line) (tail : Bytes) :
    cut (line ++ newline :: tail) = ((line ++ [newline]) :: (cut tail).1, (cut tail).2) := by
  induction line with
  | nil => simp [cut]
  | cons b line ih =>
    simp only [List.mem_cons, not_or] at whole
    simp [cut, ih whole.2, Ne.symm whole.1]

theorem cut_rest {rest : Bytes} (whole : newline ∉ rest) : cut rest = ([], rest) := by
  induction rest with
  | nil => rfl
  | cons b rest ih =>
    simp only [List.mem_cons, not_or] at whole
    simp [cut, ih whole.2, Ne.symm whole.1]

theorem naiveReader_rest {rest : Bytes} (whole : newline ∉ rest) : naiveReader serde limit rest =
    if limit < rest.length then [.error .oversize] else [.error .closed] := by
  rw [naiveReader, cut_rest whole, naive]

theorem naiveReader_line {line : Bytes} (whole : newline ∉ line) (tail : Bytes) :
    naiveReader serde limit (line ++ newline :: tail) =
      if limit < line.length + 1 then [.error .oversize]
      else decodeFrame serde (line ++ [newline]) :: naiveReader serde limit tail := by
  rw [naiveReader, cut_line whole, naive, List.length_append, List.length_singleton, naiveReader]

/-- Once too much was read without a newline, what follows does not matter. -/
theorem naiveReader_oversize {line : Bytes} (whole : newline ∉ line) (long : limit < line.length)
    (tail : Bytes) : naiveReader serde limit (line ++ tail) = [.error .oversize] := by
  by_cases ends : newline ∈ tail
  · obtain ⟨before, after, rfl, apart⟩ := List.eq_append_cons_of_mem ends
    rw [← List.append_assoc, naiveReader_line (by simp [whole, apart]), if_pos]
    rw [List.length_append]
    omega
  · rw [naiveReader_rest (by simp [whole, ends]), if_pos]
    rw [List.length_append]
    omega

namespace FrameReader
variable {r r' : FrameReader} {offers offers' : List Offer} {result : FrameResult}

theorem used_line {line tail : Bytes} (whole : newline ∉ line) (buffer : r.buffer = line ++ newline :: tail) :
    r.used = line.length + 1 := by
  have found : (line ++ newline :: tail).findIdx? (· == newline) = some line.length := by
    clear buffer
    induction line with
    | nil => simp [List.findIdx?_cons]
    | cons b line ih =>
      simp only [List.mem_cons, not_or] at whole
      simp [List.findIdx?_cons, ih whole.2, Ne.symm whole.1]
  rw [used, buffer, found]

theorem used_rest (whole : newline ∉ r.buffer) : r.used = r.buffer.length := by
  have absent : r.buffer.findIdx? (· == newline) = none := by
    rw [List.findIdx?_eq_none_iff]
    intro b mem
    rw [beq_eq_false_iff_ne]
    exact fun same => whole (same ▸ mem)
  rw [used, absent]

def unread (r : FrameReader) (offers : List Offer) : Bytes :=
  r.pending ++ (r.buffer ++ stream offers)

structure Waiting (r : FrameReader) : Prop where
  whole : newline ∉ r.pending
  bounded : r.pending.length ≤ r.limit

structure Answers (serde : Serde) (r : FrameReader) (offers : List Offer) (result : FrameResult)
    (r' : FrameReader) (offers' : List Offer) : Prop where
  limit : r'.limit = r.limit
  final : Final result = true → naiveReader serde r.limit (r.unread offers) = [result]
  frame : Final result = false → r'.Waiting ∧
    (r'.unread offers').length < (r.unread offers).length ∧
    naiveReader serde r.limit (r.unread offers) =
      result :: naiveReader serde r.limit (r'.unread offers')

theorem final_decodeFrame (frame : Bytes) : Final (decodeFrame serde frame) = false := by
  rw [decodeFrame]
  cases decodeJson serde (visitValue serde) frame with
  | error e => rfl
  | ok v => rfl

theorem next_answers (serde : Serde) (r : FrameReader) (offers : List Offer) (waiting : r.Waiting) :
    Answers serde r offers (next serde r offers).1 (next serde r offers).2.1
      (next serde r offers).2.2 := by
  induction r, offers using next.induct with
  | case1 r empty =>
    rw [next, if_pos empty]
    refine ⟨rfl, fun _ => ?_, fun more => by cases more⟩
    have rest : r.unread [] = r.pending := by simp [unread, empty, stream]
    rw [rest, naiveReader_rest waiting.whole, if_neg (Nat.not_lt.mpr waiting.bounded)]
  | case2 r empty dropped offers ih =>
    have answers := ih waiting
    have same : r.unread (.pending dropped :: offers) = r.unread offers := by
      simp [unread, stream, Offer.chunk]
    rw [next, if_pos empty]
    exact ⟨answers.limit, same ▸ answers.final, same ▸ answers.frame⟩
  | case3 r empty chunk nonempty offers ih =>
    have answers := ih ⟨waiting.whole, waiting.bounded⟩
    have same : r.unread (.bytes chunk nonempty :: offers) =
        unread { r with buffer := chunk } offers := by
      simp [unread, empty, stream, Offer.chunk]
    rw [next, if_pos empty]
    exact ⟨answers.limit, same ▸ answers.final, same ▸ answers.frame⟩
  | case4 r offers some long =>
    rw [next.eq_def, if_neg some, if_pos long]
    refine ⟨rfl, fun _ => ?_, fun more => by cases more⟩
    by_cases ends : newline ∈ r.buffer
    · obtain ⟨line, tail, buffer, apart⟩ := List.eq_append_cons_of_mem ends
      rw [used_line apart buffer] at long
      have whole : newline ∉ r.pending ++ line := by simp [waiting.whole, apart]
      have split : r.unread offers = r.pending ++ line ++ newline :: (tail ++ stream offers) := by
        simp [unread, buffer]
      rw [split, naiveReader_line whole, if_pos]
      rw [List.length_append]
      omega
    · rw [used_rest ends] at long
      have whole : newline ∉ r.pending ++ r.buffer := by simp [waiting.whole, ends]
      rw [unread, ← List.append_assoc, naiveReader_oversize whole]
      rw [List.length_append]
      omega
  | case5 r offers some fits ends =>
    rw [next.eq_def, if_neg some, if_neg fits]
    simp only [if_pos ends]
    obtain ⟨line, tail, buffer, apart⟩ := List.eq_append_cons_of_mem ends
    have used := used_line apart buffer
    have whole : newline ∉ r.pending ++ line := by simp [waiting.whole, apart]
    have split : r.unread offers = r.pending ++ line ++ newline :: (tail ++ stream offers) := by
      simp [unread, buffer]
    have taken : r.buffer.take r.used = line ++ [newline] := by
      rw [used, buffer, List.take_append, List.take_of_length_le (by omega)]
      simp
    have left : r.buffer.drop r.used = tail := by
      rw [used, buffer, List.drop_append, List.drop_eq_nil_of_le (by omega)]
      simp
    have bounded := waiting.bounded
    rw [used] at fits
    refine ⟨rfl, fun final => ?_, fun _ => ⟨⟨by simp, Nat.zero_le _⟩, ?_, ?_⟩⟩
    · rw [final_decodeFrame] at final
      cases final
    · rw [split, left]
      simp [unread]
      omega
    · rw [split, naiveReader_line whole, if_neg (by rw [List.length_append]; omega), taken, left]
      simp [unread]
  | case6 r offers some fits pending ends ih =>
    rw [next.eq_def, if_neg some, if_neg fits]
    simp only [if_neg ends]
    have used := used_rest ends
    have bounded := waiting.bounded
    rw [used] at fits
    have all : r.buffer.take r.used = r.buffer := by rw [used, List.take_length]
    have same : r.unread offers = unread { r with buffer := [], pending := pending } offers := by
      simp [unread, pending, all]
    have waiting' : Waiting { r with buffer := [], pending := pending } := by
      constructor
      · simp [pending, all, waiting.whole, ends]
      · simp only [pending, all, List.length_append]
        omega
    have answers := ih waiting'
    exact ⟨answers.limit, same ▸ answers.final, same ▸ answers.frame⟩

inductive Reads (serde : Serde) : FrameReader → List Offer → List FrameResult → Prop
  | final (r : FrameReader) (offers : List Offer) (last : Final (next serde r offers).1 = true) :
    Reads serde r offers [(next serde r offers).1]
  | frame (r : FrameReader) (offers : List Offer) (results : List FrameResult)
    (more : Final (next serde r offers).1 = false)
    (rest : Reads serde (next serde r offers).2.1 (next serde r offers).2.2 results) :
    Reads serde r offers ((next serde r offers).1 :: results)

theorem Reads.eq_naive {results : List FrameResult} (reads : Reads serde r offers results)
    (waiting : r.Waiting) : results = naiveReader serde r.limit (r.unread offers) := by
  induction reads with
  | final r offers last =>
    exact ((next_answers serde r offers waiting).final last).symm
  | frame r offers results more rest ih =>
    have answers := next_answers serde r offers waiting
    obtain ⟨waiting', _, split⟩ := answers.frame more
    rw [split, ih waiting', answers.limit]

theorem exists_reads (r : FrameReader) (offers : List Offer) (waiting : r.Waiting) :
    ∃ results, Reads serde r offers results := by
  cases last : Final (next serde r offers).1 with
  | true => exact ⟨_, .final r offers last⟩
  | false =>
    obtain ⟨waiting', shorter, _⟩ := (next_answers serde r offers waiting).frame last
    obtain ⟨results, rest⟩ := exists_reads (next serde r offers).2.1 (next serde r offers).2.2 waiting'
    exact ⟨_, .frame r offers results last rest⟩
termination_by (r.unread offers).length

theorem reads_iff {results : List FrameResult} (waiting : r.Waiting) : Reads serde r offers results ↔
    results = naiveReader serde r.limit (r.unread offers) := by
  constructor
  · exact fun reads => reads.eq_naive waiting
  · rintro rfl
    obtain ⟨results, reads⟩ := @exists_reads serde r offers waiting
    rw [← reads.eq_naive waiting]
    exact reads

end FrameReader

/- What is written is read back. -/

theorem visitValues_of_visitSeq {ds : List Doc} {vs : List Json}
    (each : ∀ d ∈ ds, ∀ v, StrictValue.visit serde d = .ok v → visitValue serde d = .ok v)
    (strict : StrictValue.visitSeq serde ds = .ok vs) : visitValues serde ds = .ok vs := by
  induction ds generalizing vs with
  | nil => exact strict
  | cons d ds ih =>
    simp only [StrictValue.visitSeq, bind_eq_ok, pure_eq_ok] at strict
    obtain ⟨w, first, ws, rest, rfl⟩ := strict
    have others := ih (fun e mem => each e (by simp [mem])) rest
    simp [visitValues, each d (by simp) w first, others, pure, Except.pure]

theorem visitEntries_of_visitMap {ms : List (String × Doc)} {values out : List (String × Json)}
    (each : ∀ k d, (k, d) ∈ ms → ∀ v, StrictValue.visit serde d = .ok v → visitValue serde d = .ok v)
    (strict : StrictValue.visitMap serde values ms = .ok out) :
    visitEntries serde values ms = .ok out := by
  induction ms generalizing values with
  | nil => exact strict
  | cons m ms ih =>
    obtain ⟨key, d⟩ := m
    by_cases known : key ∈ values.map Prod.fst
    · simp [StrictValue.visitMap, known] at strict
    · simp only [StrictValue.visitMap, if_neg known, bind_eq_ok] at strict
      obtain ⟨w, first, rest⟩ := strict
      have others := ih (fun k e mem => each k e (by simp [mem])) rest
      simp [visitEntries, each key d (by simp) w first, insertEntry, known, others]

theorem visitValue_of_visit (d : Doc) :
    ∀ v, StrictValue.visit serde d = .ok v → visitValue serde d = .ok v := by
  induction d using Doc.induction with
  | null | bool b | num t | str s => exact fun v strict => strict
  | arr ds each =>
    intro v strict
    simp only [StrictValue.visit, map_eq_ok] at strict
    obtain ⟨vs, items, rfl⟩ := strict
    simp [visitValue, visitValues_of_visitSeq each items, Functor.map, Except.map]
  | obj ms each =>
    intro v strict
    simp only [StrictValue.visit, map_eq_ok] at strict
    obtain ⟨ns, members, rfl⟩ := strict
    simp [visitValue, visitEntries_of_visitMap each members, Functor.map, Except.map]

theorem read_text_newline {v : Json} (numeric : v.Numeric) :
    JsonReader.read (v.text ++ ['\n']) = some v.doc := by
  have ends : Ends ['\n'] := by simp [Ends, numberChar]
  have whole := JsonReader.reads_text v (3 * (v.text ++ ['\n']).length + 3) ['\n'] ends numeric
    (by rw [List.length_append]; omega)
  rw [JsonReader.read, whole]
  rfl

theorem decodeFrame_text (correct : serde.Correct) {v : Value} (holds : Holds serde v.json)
    (shallow : v.json.depth < 128) :
    decodeFrame serde (utf8 v.json.text ++ [newline]) = .ok v.json := by
  have read := read_text_newline (numeric_of_holds correct holds)
  have bytes : utf8 v.json.text ++ [newline] = utf8 (v.json.text ++ ['\n']) := by
    rw [utf8_append]
    rfl
  have tokens : v.json.doc.tokens.all representable = true := by
    rw [List.all_eq_true]
    intro t mem
    rw [Json.doc_tokens, List.mem_map] at mem
    obtain ⟨n, inside, rfl⟩ := mem
    exact representable_text (holds n inside)
  have document : serde.document (utf8 (v.json.text ++ ['\n'])) = .ok v.json.doc :=
    (correct.document _ _).mpr ⟨_, rfl, read, by rw [Json.doc_depth]; exact shallow⟩
  have visit := visitValue_of_visit v.json.doc v.json
    ((visit_eq_ok v.json.doc v.json).mpr ⟨keeps_doc correct holds, Json.doc_unique v.unique⟩)
  rw [bytes, decodeFrame, decodeJson, numbersRepresentable_read read, tokens, document, ok_bind, visit]
  rfl

theorem newline_notMem (v : Json) : newline ∉ utf8 v.text := by
  intro mem
  have plain := utf8_printable v.text_printable newline mem
  exact absurd plain (by decide)

theorem writeFrame_eq_ok {value : Json} {frame : Bytes} : writeFrame limit value = .ok frame ↔
    (utf8 value.text).length < limit ∧ frame = utf8 value.text ++ [newline] := by
  simp only [writeFrame, bind_eq_ok, refuse_eq_ok, exists_unit, pure_eq_ok, Nat.not_le,
    eq_comm (a := frame)]

theorem naiveReader_frames (correct : serde.Correct) {values : List Value} {frames : List Bytes}
    (holds : ∀ v ∈ values, Holds serde v.json ∧ v.json.depth < 128)
    (written : (values.map Value.json).mapM (writeFrame limit) = .ok frames) :
    naiveReader serde limit frames.flatten =
      values.map (fun v => .ok v.json) ++ [.error .closed] := by
  induction values generalizing frames with
  | nil =>
    obtain rfl : [] = frames := by simpa [pure, Except.pure] using written
    simp [naiveReader, cut, naive]
  | cons v values ih =>
    cases frames with
    | nil => simp [mapM_eq_ok] at written
    | cons frame frames =>
      rw [List.map_cons, mapM_eq_ok, List.forall₂_cons, writeFrame_eq_ok, ← mapM_eq_ok] at written
      obtain ⟨⟨fits, rfl⟩, others⟩ := written
      have first := holds v (by simp)
      have rest := ih (fun w mem => holds w (by simp [mem])) others
      rw [List.flatten_cons, List.append_assoc, List.singleton_append,
        naiveReader_line (newline_notMem v.json), if_neg (by omega),
        decodeFrame_text correct first.1 first.2, rest, List.map_cons, List.cons_append]

/-- For every limit and every way of offering the stream, with the calls dropped anywhere, the results
are the naive reader's; and values of at most 127 nested containers that are written under the
limit are read back. -/
theorem frames_read (serde : Serde) (correct : serde.Correct) (limit : Nat) :
    (∀ offers results, FrameReader.Reads serde (.start limit) offers results ↔
      results = naiveReader serde limit (stream offers)) ∧
    ∀ (values : List Value) (frames : List Bytes),
      (∀ v ∈ values, Holds serde v.json ∧ v.json.depth < 128) →
      (values.map Value.json).mapM (writeFrame limit) = .ok frames →
      ∀ offers, stream offers = frames.flatten → ∀ results,
        FrameReader.Reads serde (.start limit) offers results ↔
          results = values.map (fun v => .ok v.json) ++ [.error .closed] := by
  have waiting : (FrameReader.start limit).Waiting := ⟨by simp [FrameReader.start], Nat.zero_le _⟩
  constructor
  · exact fun offers results => FrameReader.reads_iff waiting
  · intro values frames holds written offers same results
    have read := naiveReader_frames correct holds written
    rw [FrameReader.reads_iff waiting, ← read, ← same]
    rfl

def sampleValue : Value := ⟨.arr [.null], by simp [Json.UniqueKeys, Json.ItemsUnique]⟩

/-- `[null]`, offered in two chunks with the call dropped in between. -/
theorem frames_read_null : FrameReader.Reads .ofZeros (.start 7)
    [.bytes [91, 110] (by simp), .pending true, .bytes [117, 108, 108, 93, 10] (by simp)]
    [.ok sampleValue.json, .error .closed] := by
  have holds : ∀ v ∈ [sampleValue], Holds .ofZeros v.json ∧ v.json.depth < 128 := by
    intro v mem
    obtain rfl := List.mem_singleton.mp mem
    exact ⟨by simp [Holds, sampleValue, Json.numbers, Json.itemsNumbers], by decide⟩
  have written : ([sampleValue].map Value.json).mapM (writeFrame 7) =
      .ok [[91, 110, 117, 108, 108, 93, 10]] := by rfl
  exact ((frames_read .ofZeros Serde.ofZeros_correct 7).2 _ _ holds written _ rfl _).mpr rfl

/-- A value of 128 nested containers is written and not read back. -/
theorem deep_frames_unread : ¬ ∀ (serde : Serde), serde.Correct → ∀ (limit : Nat)
    (values : List Value) (frames : List Bytes), (∀ v ∈ values, Holds serde v.json) →
    (values.map Value.json).mapM (writeFrame limit) = .ok frames →
    ∀ offers, stream offers = frames.flatten →
      FrameReader.Reads serde (.start limit) offers
        (values.map (fun v => .ok v.json) ++ [.error .closed]) := by
  intro claim
  have correct := Serde.ofZeros_correct
  let v : Value := ⟨nested 127, unique_nested 127⟩
  let frame := utf8 v.json.text ++ [newline]
  have holds : Holds .ofZeros v.json := by
    intro n inside
    rw [numbers_nested] at inside
    cases inside
  have written : ([v].map Value.json).mapM (writeFrame frame.length) = .ok [frame] := by
    rw [List.map_singleton, mapM_eq_ok, List.forall₂_cons, writeFrame_eq_ok]
    exact ⟨⟨by simp [frame], rfl⟩, .nil⟩
  have read := claim .ofZeros correct frame.length [v] [frame]
    (fun w mem => List.mem_singleton.mp mem ▸ holds) written
    [.bytes frame (by simp [frame])] (by simp [stream, Offer.chunk])
  have waiting : (FrameReader.start frame.length).Waiting :=
    ⟨by simp [FrameReader.start], Nat.zero_le _⟩
  have naive := (FrameReader.reads_iff waiting).mp read
  have whole : FrameReader.unread (.start frame.length) [.bytes frame (by simp [frame])] =
      utf8 v.json.text ++ newline :: [] := by
    simp [FrameReader.unread, FrameReader.start, stream, Offer.chunk, frame]
  rw [whole, naiveReader_line (newline_notMem v.json)] at naive
  have fits : ¬ (FrameReader.start frame.length).limit < (utf8 v.json.text).length + 1 := by
    simp [FrameReader.start, frame]
  rw [if_neg fits] at naive
  have decoded := (List.cons.inj naive).1.symm
  simp only [decodeFrame, decodeJson, ok_of_mapError, ite_error_eq_ok, bind_eq_ok,
    correct.document] at decoded
  obtain ⟨_, doc, ⟨text, same, document, shallow⟩, _⟩ := decoded
  have bytes : utf8 v.json.text ++ [newline] = utf8 (v.json.text ++ ['\n']) := by
    rw [utf8_append]
    rfl
  rw [bytes] at same
  obtain rfl := utf8_injective same
  rw [read_text_newline (numeric_of_holds correct holds)] at document
  obtain rfl := Option.some.inj document
  rw [Json.doc_depth, depth_nested] at shallow
  exact absurd shallow (by decide)

end Subprocess
end Ledgence
