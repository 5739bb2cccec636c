import Ledgence.Api.Encoding
import Ledgence.Kit.JsonReads
import Ledgence.Kit.Utf8

/-! Decoding JSON without losing duplicate keys or large integers. -/
open Kit

namespace Ledgence

/-- The JSON library: the document a text is, and the finite binary64 number nearest to a number
token. A number beyond binary64 is `none`. -/
structure Serde where
  document : List UInt8 → Except String Doc
  binary64 : List Char → Option FloatText

/-- The library reads JSON texts of at most 127 nested containers, and prints a binary64 number so
that it reads it back. -/
structure Serde.Correct (serde : Serde) : Prop where
  document : ∀ bytes doc, serde.document bytes = .ok doc ↔
    ∃ text, bytes = utf8 text ∧ JsonReader.read text = some doc ∧ doc.depth < 128
  printed : ∀ token f, serde.binary64 token = some f →
    JsonReader.number f.text = true ∧ serde.binary64 f.text = some f
  negativeZero : (serde.binary64 ['-', '0']).isSome = true

/- Number tokens. -/

def fractional (token : List Char) : Bool :=
  token.any fun c => c == '.' || c == 'e' || c == 'E'

/-- `str::parse` of a signed integer. -/
def parseInteger : List Char → Option Int
  | '-' :: ds => if JsonReader.digits ds = true then some (-(Nat.ofDigitChars 10 ds 0 : Int)) else none
  | '+' :: ds => if JsonReader.digits ds = true then some (Nat.ofDigitChars 10 ds 0 : Int) else none
  | ds => if JsonReader.digits ds = true then some (Nat.ofDigitChars 10 ds 0 : Int) else none

/-- The integer of a token, where an `i64` or a `u64` holds it. -/
def integer (token : List Char) : Option Int :=
  (parseInteger token).filter fun i =>
    if token.head? = some '-' then decide (-2 ^ 63 ≤ i ∧ i < 2 ^ 63)
    else decide (0 ≤ i ∧ i < 2 ^ 64)

def representable (token : List Char) : Bool :=
  fractional token || (integer token).isSome

/- `decode_json`. -/

def tokenByte (b : UInt8) : Bool :=
  (ascii '0' ≤ b && b ≤ ascii '9') || b == ascii '-' || b == ascii '+' || b == ascii '.' ||
    b == ascii 'e' || b == ascii 'E'

def startByte (b : UInt8) : Bool :=
  b == ascii '-' || (ascii '0' ≤ b && b ≤ ascii '9')

def tokenText (token : List UInt8) : List Char :=
  token.map fun b => Char.ofNat b.toNat

def numbersRepresentable (quoted : Bool) : List UInt8 → Bool
  | [] => true
  | b :: bytes =>
    if b = ascii '\\' ∧ quoted = true then numbersRepresentable quoted (bytes.drop 1)
    else if b = ascii '"' then numbersRepresentable (!quoted) bytes
    else if startByte b = true ∧ quoted = false then
      representable (tokenText (b :: bytes.takeWhile tokenByte)) &&
        numbersRepresentable quoted (bytes.dropWhile tokenByte)
    else numbersRepresentable quoted bytes
termination_by bytes => bytes.length
decreasing_by
  · simp only [List.length_drop, List.length_cons]
    omega
  · exact Nat.lt_succ_self _
  · exact Nat.lt_succ_of_le (List.dropWhile_sublist tokenByte).length_le
  · exact Nat.lt_succ_self _

def invalidInput (message : String) : Error :=
  ⟨.invalidInput, message⟩

/-- Where a text breaks several rules, the library's own message may name another one, and it adds
the position. -/
def decodeJson {α : Type} (serde : Serde) (deserialize : Doc → Except String α)
    (bytes : List UInt8) : WorkerResult α :=
  if numbersRepresentable false bytes = false then
    .error (invalidInput ("JSON integer exceeds the signed/unsigned 64-bit range; " ++
      "encode exact larger values as strings"))
  else
    (serde.document bytes >>= deserialize).mapError fun error =>
      invalidInput s!"invalid JSON: {error}"

/- `StrictValue`. -/

/-- `visit_f64`, where a number beyond binary64 is not finite. -/
def visitF64 (serde : Serde) (token : List Char) : Except String Number :=
  match serde.binary64 token with
  | some f => .ok (.float f)
  | none => .error "nonfinite JSON number"

/-- `visit_i64`, `visit_u64` or `visit_f64`. The token `-0` is a float. -/
def visitNumber (serde : Serde) (token : List Char) : Except String Number :=
  if fractional token = true ∨ token = ['-', '0'] then visitF64 serde token
  else
    match integer token with
    | some i => .ok (.int i)
    | none => visitF64 serde token

mutual
def StrictValue.visit (serde : Serde) : Doc → Except String Json
  | .null => .ok .null
  | .bool b => .ok (.bool b)
  | .num token => Json.num <$> visitNumber serde token
  | .str s => .ok (.str s)
  | .arr ds => Json.arr <$> StrictValue.visitSeq serde ds
  | .obj ms => Json.obj <$> StrictValue.visitMap serde [] ms
termination_by structural d => d

def StrictValue.visitSeq (serde : Serde) : List Doc → Except String (List Json)
  | [] => .ok []
  | d :: ds => do
    let value ← StrictValue.visit serde d
    let values ← StrictValue.visitSeq serde ds
    return value :: values
termination_by structural ds => ds

def StrictValue.visitMap (serde : Serde) (values : List (String × Json)) :
    List (String × Doc) → Except String (List (String × Json))
  | [] => .ok values
  | (key, d) :: ms =>
    if key ∈ values.map Prod.fst then .error "duplicate JSON object key"
    else do
      let value ← StrictValue.visit serde d
      StrictValue.visitMap serde (values ++ [(key, value)]) ms
termination_by structural ms => ms
end

/-- Decoding into a JSON value: `serde_json::from_value` changes nothing then. -/
def decodeUniqueJson (serde : Serde) (bytes : List UInt8) (maxBytes : Nat) : WorkerResult Json :=
  if maxBytes < bytes.length then
    .error (invalidInput s!"JSON request exceeds its {maxBytes}-byte limit")
  else decodeJson serde (StrictValue.visit serde) bytes

end Ledgence

/-! What the scan for number tokens sees of a JSON text: exactly the tokens of the document. -/

namespace Ledgence

theorem ascii_of_lt {P : Char → UInt8 → Prop} (small : ∀ n < 128, P (Char.ofNat n) (UInt8.ofNat n))
    {c : Char} (h : c.toNat < 128) : P c (ascii c) := by
  have := small c.toNat h
  rwa [Char.ofNat_toNat] at this

theorem startByte_ascii {c : Char} (h : c.toNat < 128) :
    startByte (ascii c) = (c == '-' || c.isDigit) :=
  ascii_of_lt (P := fun c b => startByte b = (c == '-' || c.isDigit)) (by decide) h

theorem tokenByte_ascii {c : Char} (h : c.toNat < 128) : tokenByte (ascii c) = numberChar c :=
  ascii_of_lt (P := fun c b => tokenByte b = numberChar c) (by decide) h

theorem ascii_toNat {c : Char} (h : c.toNat < 128) : Char.ofNat (ascii c).toNat = c :=
  ascii_of_lt (P := fun c b => Char.ofNat b.toNat = c) (by decide) h

theorem ascii_ne {c d : Char} (h : c.toNat < 128) (hd : d.toNat < 128) (ne : c ≠ d) :
    ascii c ≠ ascii d := by
  intro e
  have := congrArg (fun b : UInt8 => Char.ofNat b.toNat) e
  simp only [ascii_toNat h, ascii_toNat hd] at this
  exact ne this

theorem ascii_of_numberChar {c : Char} (h : numberChar c = true) : c.toNat < 128 := by
  simp only [numberChar, Char.isDigit, Bool.or_eq_true, Bool.and_eq_true, decide_eq_true_eq,
    beq_iff_eq] at h
  rcases h with ((((⟨-, h⟩ | rfl) | rfl) | rfl) | rfl) | rfl
  · exact Nat.lt_of_le_of_lt h (by decide)
  all_goals decide

theorem high_byte {b : UInt8} (h : 128 ≤ b.toNat) :
    b ≠ ascii '"' ∧ b ≠ ascii '\\' ∧ startByte b = false ∧ tokenByte b = false := by
  have all : ∀ n < 256, 128 ≤ n → UInt8.ofNat n ≠ ascii '"' ∧ UInt8.ofNat n ≠ ascii '\\' ∧
      startByte (UInt8.ofNat n) = false ∧ tokenByte (UInt8.ofNat n) = false := by
    decide +kernel
  have := all b.toNat b.toNat_lt h
  rwa [UInt8.ofNat_toNat] at this

def Inert (quoted : Bool) (b : UInt8) : Prop :=
  b ≠ ascii '"' ∧ ¬ (b = ascii '\\' ∧ quoted = true) ∧ ¬ (startByte b = true ∧ quoted = false)

theorem scan_inert {quoted : Bool} {bs : List UInt8} (inert : ∀ b ∈ bs, Inert quoted b)
    (rest : List UInt8) :
    numbersRepresentable quoted (bs ++ rest) = numbersRepresentable quoted rest := by
  induction bs with
  | nil => rfl
  | cons b bs ih =>
    have first := inert b List.mem_cons_self
    rw [List.cons_append, numbersRepresentable, if_neg first.2.1, if_neg first.1,
      if_neg first.2.2]
    exact ih fun c hc => inert c (List.mem_cons_of_mem _ hc)

/-- A character that is neither a quote nor, between quotes, a backslash, nor the start of a number
outside them. -/
theorem inert_char {quoted : Bool} {c : Char} (quote : c ≠ '"')
    (backslash : quoted = true → c ≠ '\\')
    (number : quoted = false → (c == '-' || c.isDigit) = false) :
    ∀ b ∈ String.utf8EncodeChar c, Inert quoted b := by
  intro b hb
  by_cases small : c.toNat < 128
  · rw [utf8EncodeChar_ascii small, List.mem_singleton] at hb
    subst hb
    refine ⟨ascii_ne small (by decide) quote, fun h => ?_, fun h => ?_⟩
    · exact ascii_ne small (by decide) (backslash h.2) h.1
    · rw [startByte_ascii small, number h.2] at h
      cases h.1
  · have high := high_byte (utf8EncodeChar_high (Nat.le_of_not_lt small) b hb)
    refine ⟨high.1, fun h => high.2.1 h.1, fun h => ?_⟩
    rw [high.2.2.1] at h
    cases h.1

theorem scan_quoted {c : Char} (quote : c ≠ '"') (backslash : c ≠ '\\') (r : List Char) :
    numbersRepresentable true (utf8 (c :: r)) = numbersRepresentable true (utf8 r) := by
  rw [utf8_cons]
  exact scan_inert (inert_char quote (fun _ => backslash) fun h => absurd h (by decide)) _

theorem scan_plain {c : Char} (h : (c == '"' || c == '-' || c.isDigit) = false) (r : List Char) :
    numbersRepresentable false (utf8 (c :: r)) = numbersRepresentable false (utf8 r) := by
  rw [utf8_cons]
  rw [Bool.or_assoc, Bool.or_eq_false_iff, beq_eq_false_iff_ne] at h
  exact scan_inert (inert_char h.1 (fun h => absurd h (by decide)) fun _ => h.2) _

theorem scan_quote (quoted : Bool) (r : List Char) :
    numbersRepresentable quoted (utf8 ('"' :: r)) = numbersRepresentable (!quoted) (utf8 r) := by
  rw [utf8_cons_ascii (by decide), numbersRepresentable, if_neg (by decide +revert), if_pos rfl]

theorem scan_escape {c : Char} (h : c.toNat < 128) (r : List Char) :
    numbersRepresentable true (utf8 ('\\' :: c :: r)) = numbersRepresentable true (utf8 r) := by
  rw [utf8_cons_ascii (by decide), utf8_cons_ascii h, numbersRepresentable, if_pos ⟨rfl, rfl⟩]
  rfl

/- Strings. -/

theorem hexDigit_plain {c : Char} {n : Nat} (h : JsonReader.hexDigit? c = some n) : c ≠ '"' ∧ c ≠ '\\' := by
  constructor
  all_goals
    rintro rfl
    cases h

theorem escaped_ascii {c x : Char} (h : JsonReader.escaped c = some x) : c.toNat < 128 := by
  unfold JsonReader.escaped at h
  split at h
  all_goals first
    | decide
    | cases h

theorem scan_hex4 {a b c d : Char} {n : Nat} (h : JsonReader.hex4 a b c d = some n) (r : List Char) :
    numbersRepresentable true (utf8 ('\\' :: 'u' :: a :: b :: c :: d :: r)) =
      numbersRepresentable true (utf8 r) := by
  simp only [JsonReader.hex4, Option.bind_eq_bind, Option.bind_eq_some_iff] at h
  obtain ⟨_, ha, _, hb, _, hc, _, hd, _⟩ := h
  rw [scan_escape (by decide), scan_quoted (hexDigit_plain ha).1 (hexDigit_plain ha).2,
    scan_quoted (hexDigit_plain hb).1 (hexDigit_plain hb).2,
    scan_quoted (hexDigit_plain hc).1 (hexDigit_plain hc).2,
    scan_quoted (hexDigit_plain hd).1 (hexDigit_plain hd).2]

theorem scan_string {r s k : List Char} (h : JsonReader.string r = some (s, k)) :
    numbersRepresentable true (utf8 r) = numbersRepresentable false (utf8 k) := by
  fun_induction JsonReader.string r generalizing s k with
  | case1 => cases h
  | case2 r =>
    cases h
    exact scan_quote true r
  | case3 a b c d r x unit ih =>
    obtain ⟨t, ht, he⟩ := Option.map_eq_some_iff.mp h
    obtain ⟨n, hex, -⟩ := Option.bind_eq_some_iff.mp unit
    cases he
    rw [scan_hex4 hex]
    exact ih ht
  | case4 a b c d _ e f g i r ih =>
    simp only [Option.bind_eq_bind, Option.bind_eq_some_iff] at h
    obtain ⟨m, high, n, low, x, -, t, ht, he⟩ := h
    cases he
    rw [scan_hex4 high, scan_hex4 low]
    exact ih ht
  | case5 => cases h
  | case6 c r _ ih =>
    simp only [Option.bind_eq_bind, Option.bind_eq_some_iff] at h
    obtain ⟨x, short, t, ht, he⟩ := h
    cases he
    rw [scan_escape (escaped_ascii short)]
    exact ih ht
  | case7 => cases h
  | case8 c r quote _ _ plain ih =>
    obtain ⟨t, ht, he⟩ := Option.map_eq_some_iff.mp h
    cases he
    rw [scan_quoted quote fun e => plain (.inr e)]
    exact ih ht

/- Numbers. -/

theorem utf8_token {t : List Char} (numeric : ∀ c ∈ t, numberChar c = true) :
    utf8 t = t.map ascii := by
  induction t with
  | nil => rfl
  | cons c t ih =>
    rw [utf8_cons_ascii (ascii_of_numberChar (numeric c List.mem_cons_self)), List.map_cons,
      ih fun d hd => numeric d (List.mem_cons_of_mem _ hd)]

theorem tokenText_ascii {t : List Char} (numeric : ∀ c ∈ t, numberChar c = true) :
    tokenText (t.map ascii) = t := by
  rw [tokenText, List.map_map]
  refine (List.map_congr_left fun c hc => ?_).trans (List.map_id t)
  exact ascii_toNat (ascii_of_numberChar (numeric c hc))

theorem tokenByte_token {t : List Char} (numeric : ∀ c ∈ t, numberChar c = true) :
    ∀ b ∈ t.map ascii, tokenByte b = true := by
  intro b hb
  obtain ⟨c, hc, rfl⟩ := List.mem_map.mp hb
  rw [tokenByte_ascii (ascii_of_numberChar (numeric c hc))]
  exact numeric c hc

theorem tokenByte_ends {r : List Char} (ends : Ends r) :
    ∀ b ∈ (utf8 r).head?, tokenByte b = false := by
  cases r with
  | nil => simp
  | cons c r =>
    have other : numberChar c = false := ends c (by simp)
    intro b hb
    rw [utf8_cons] at hb
    by_cases small : c.toNat < 128
    · rw [utf8EncodeChar_ascii small, List.singleton_append, List.head?_cons,
        Option.mem_some_iff] at hb
      rw [← hb, tokenByte_ascii small, other]
    · have first : b ∈ String.utf8EncodeChar c := by
        cases bytes : String.utf8EncodeChar c with
        | nil => exact absurd bytes String.utf8EncodeChar_ne_nil
        | cons d ds =>
          rw [bytes, List.cons_append, List.head?_cons, Option.mem_some_iff] at hb
          rw [hb]
          exact List.mem_cons_self
      exact (high_byte (utf8EncodeChar_high (Nat.le_of_not_lt small) b first)).2.2.2

theorem span_token {bs rest : List UInt8} (all : ∀ b ∈ bs, tokenByte b = true)
    (ends : ∀ b ∈ rest.head?, tokenByte b = false) :
    (bs ++ rest).takeWhile tokenByte = bs ∧ (bs ++ rest).dropWhile tokenByte = rest := by
  rw [List.takeWhile_append_of_pos all, List.dropWhile_append_of_pos all]
  cases rest with
  | nil => simp
  | cons b rest =>
    have other : tokenByte b = false := ends b (by simp)
    simp [other]

theorem number_head {t : List Char} (h : JsonReader.number t = true) :
    ∃ c s, t = c :: s ∧ (c == '-' || c.isDigit) = true := by
  cases t with
  | nil => cases h
  | cons c s =>
    refine ⟨c, s, rfl, ?_⟩
    by_cases minus : c = '-'
    · rw [minus]
      rfl
    · rw [JsonReader.number] at h
      · unfold JsonReader.unsigned at h
        split at h
        case h_1 => contradiction
        case h_2 cs he =>
          cases he
          rfl
        case h_3 d cs _ he =>
          cases he
          simp only [Bool.and_eq_true] at h
          rw [h.1, Bool.or_true]
      · intro cs he
        exact minus (List.cons.inj he).1

theorem scan_number {t r : List Char} (number : JsonReader.number t = true)
    (numeric : ∀ c ∈ t, numberChar c = true) (ends : Ends r) :
    numbersRepresentable false (utf8 (t ++ r)) =
      (representable t && numbersRepresentable false (utf8 r)) := by
  obtain ⟨c, s, rfl, start⟩ := number_head number
  have small : c.toNat < 128 := ascii_of_numberChar (numeric c List.mem_cons_self)
  have tail : ∀ d ∈ s, numberChar d = true := fun d hd => numeric d (List.mem_cons_of_mem _ hd)
  have spans := span_token (tokenByte_token tail) (tokenByte_ends ends)
  have begins : startByte (ascii c) = true := by rw [startByte_ascii small, start]
  have quote : ascii c ≠ ascii '"' := by
    refine ascii_ne small (by decide) ?_
    rintro rfl
    cases start
  have text := tokenText_ascii numeric
  rw [List.map_cons] at text
  rw [utf8_append, utf8_token numeric, List.map_cons, List.cons_append, numbersRepresentable,
    if_neg (fun h => absurd h.2 (by decide)), if_neg quote, if_pos ⟨begins, rfl⟩, spans.1, spans.2,
    text]

/- Values. -/

theorem scan_skip (r : List Char) :
    numbersRepresentable false (utf8 (JsonReader.skip r)) = numbersRepresentable false (utf8 r) := by
  induction r with
  | nil => rfl
  | cons c r ih =>
    by_cases h : JsonReader.blank c = true
    · have plain : (c == '"' || c == '-' || c.isDigit) = false := by
        simp only [JsonReader.blank, Bool.or_eq_true, beq_iff_eq] at h
        rcases h with ((rfl | rfl) | rfl) | rfl
        all_goals decide
      rw [JsonReader.skip, List.dropWhile_cons_of_pos h, scan_plain plain]
      exact ih
    · rw [JsonReader.skip, List.dropWhile_cons_of_neg h]

/-- The scan of `text` is that of the tokens and of what is left after them. -/
def Scanned (text : List Char) (tokens : List (List Char)) (rest : List Char) : Prop :=
  numbersRepresentable false (utf8 text) =
    (tokens.all representable && numbersRepresentable false (utf8 rest))

theorem Scanned.none {text rest : List Char}
    (h : numbersRepresentable false (utf8 text) = numbersRepresentable false (utf8 rest)) :
    Scanned text [] rest := by
  rw [Scanned, h]
  rfl

theorem Scanned.before {text next rest : List Char} {tokens : List (List Char)}
    (h : Scanned next tokens rest)
    (same : numbersRepresentable false (utf8 text) = numbersRepresentable false (utf8 next)) :
    Scanned text tokens rest :=
  same.trans h

theorem Scanned.after {text next rest : List Char} {tokens : List (List Char)}
    (h : Scanned text tokens next)
    (same : numbersRepresentable false (utf8 next) = numbersRepresentable false (utf8 rest)) :
    Scanned text tokens rest := by
  rw [Scanned, h, same]

theorem Scanned.append {text next rest : List Char} {ts us : List (List Char)}
    (left : Scanned text ts next) (right : Scanned next us rest) : Scanned text (ts ++ us) rest := by
  rw [Scanned, left, right, List.all_append, Bool.and_assoc]

/-- The scan goes on behind a blank-separated character that starts neither a string nor a number. -/
theorem scan_punctuation {r k : List Char} {c : Char} (h : JsonReader.skip r = c :: k)
    (plain : (c == '"' || c == '-' || c.isDigit) = false) :
    numbersRepresentable false (utf8 r) = numbersRepresentable false (utf8 k) := by
  rw [← scan_skip, h, scan_plain plain]

theorem ends_dropWhile (r : List Char) : Ends (r.dropWhile numberChar) := by
  intro c hc
  have := List.head?_dropWhile_not numberChar r
  cases rest : r.dropWhile numberChar with
  | nil => simp [rest] at hc
  | cons d ds =>
    simp only [rest, List.head?_cons, Option.mem_some_iff] at hc this
    subst hc
    simpa using this

section Reader

variable {fuel : Nat}

def ScansValue (fuel : Nat) : Prop :=
  ∀ text d k, JsonReader.value fuel text = some (d, k) → Scanned text d.tokens k

def ScansItems (fuel : Nat) : Prop :=
  ∀ text ds k, JsonReader.items fuel text = some (ds, k) → Scanned text (Doc.itemsTokens ds) k

def ScansMembers (fuel : Nat) : Prop :=
  ∀ text ms k, JsonReader.members fuel text = some (ms, k) →
    Scanned text (Doc.membersTokens ms) k

def ScansMember (fuel : Nat) : Prop :=
  ∀ text m k, JsonReader.member fuel text = some (m, k) → Scanned text m.2.tokens k

theorem scansValue_succ (items : ScansItems fuel) (members : ScansMembers fuel) :
    ScansValue (fuel + 1) := by
  intro text d k h
  have shape := JsonReader.value_shape h
  refine Scanned.before ?_ (scan_skip text).symm
  generalize JsonReader.skip text = front at shape
  cases shape with
  | null | true =>
    refine .none ?_
    rw [scan_plain (by decide), scan_plain (by decide), scan_plain (by decide),
      scan_plain (by decide)]
  | false =>
    refine .none ?_
    rw [scan_plain (by decide), scan_plain (by decide), scan_plain (by decide),
      scan_plain (by decide), scan_plain (by decide)]
  | str hs =>
    refine .none ?_
    rw [scan_quote]
    exact scan_string hs
  | noItems close =>
    refine .none ?_
    rw [scan_plain (by decide)]
    exact scan_punctuation close (by decide)
  | arr hs => exact (items _ _ _ hs).before (scan_plain (by decide) _)
  | noMembers close =>
    refine .none ?_
    rw [scan_plain (by decide)]
    exact scan_punctuation close (by decide)
  | obj hs => exact (members _ _ _ hs).before (scan_plain (by decide) _)
  | num number =>
    have whole := scan_number number (fun c hc => List.mem_takeWhile_imp hc) (ends_dropWhile front)
    rw [List.takeWhile_append_dropWhile] at whole
    rw [Scanned, whole, Doc.tokens, List.all_cons, List.all_nil, Bool.and_true]

theorem scansItems_succ (value : ScansValue fuel) (items : ScansItems fuel) :
    ScansItems (fuel + 1) := by
  intro text ds k h
  obtain ⟨d, r, hd, more | last⟩ := JsonReader.items_cases h
  · obtain ⟨s, es, comma, rest, rfl⟩ := more
    have first := (value _ _ _ hd).after (scan_punctuation comma (by decide))
    exact first.append (items _ _ _ rest)
  · obtain ⟨close, rfl⟩ := last
    have first := (value _ _ _ hd).after (scan_punctuation close (by decide))
    rwa [Doc.itemsTokens, Doc.itemsTokens, List.append_nil]

theorem scansMembers_succ (member : ScansMember fuel) (members : ScansMembers fuel) :
    ScansMembers (fuel + 1) := by
  intro text ms k h
  obtain ⟨m, r, hm, more | last⟩ := JsonReader.members_cases h
  · obtain ⟨s, ns, comma, rest, rfl⟩ := more
    have first := (member _ _ _ hm).after (scan_punctuation comma (by decide))
    exact first.append (members _ _ _ rest)
  · obtain ⟨close, rfl⟩ := last
    have first := (member _ _ _ hm).after (scan_punctuation close (by decide))
    rwa [Doc.membersTokens, Doc.membersTokens, List.append_nil]

theorem scansMember_succ (value : ScansValue fuel) : ScansMember (fuel + 1) := by
  intro text m k h
  obtain ⟨r, s, t, u, quote, key, colon, -, body⟩ := JsonReader.member_cases h
  refine (value _ _ _ body).before ?_
  calc numbersRepresentable false (utf8 text)
    _ = numbersRepresentable false (utf8 ('"' :: r)) := by rw [← quote, scan_skip]
    _ = numbersRepresentable true (utf8 r) := scan_quote false r
    _ = numbersRepresentable false (utf8 t) := scan_string key
    _ = numbersRepresentable false (utf8 u) := scan_punctuation colon (by decide)

theorem scans (fuel : Nat) :
    ScansValue fuel ∧ ScansItems fuel ∧ ScansMembers fuel ∧ ScansMember fuel := by
  induction fuel with
  | zero =>
    refine ⟨?_, ?_, ?_, ?_⟩
    all_goals
      intro text d k h
      cases h
  | succ fuel ih =>
    obtain ⟨value, items, members, member⟩ := ih
    exact ⟨scansValue_succ items members, scansItems_succ value items,
      scansMembers_succ member members, scansMember_succ value⟩

end Reader

theorem numbersRepresentable_read {text : List Char} {doc : Doc}
    (h : JsonReader.read text = some doc) :
    numbersRepresentable false (utf8 text) = doc.tokens.all representable := by
  rw [JsonReader.read] at h
  split at h
  case h_1 => cases h
  case h_2 d r hv =>
    split at h
    case isTrue blank =>
      cases h
      have whole := (scans _).1 _ _ _ hv
      rw [whole, ← scan_skip r, blank, utf8_nil, numbersRepresentable, Bool.and_true]
    case isFalse => cases h

end Ledgence
