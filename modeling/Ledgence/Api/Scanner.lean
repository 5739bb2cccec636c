import Ledgence.Api.Decoded

/-! The scan for number tokens as it walks over the bytes: it leaves no slice, and it names exactly
the integers beyond 64 bits. -/
open Kit Kit.Checked

namespace Ledgence

inductive ScanStop where
  | panicked (message : String)
  | endless

/- The functions of the source that may panic, and its loops. -/

def byteAt (bytes : List UInt8) (index : Nat) : Except ScanStop UInt8 :=
  okOr bytes[index]? (.panicked "index out of bounds")

def slice (bytes : List UInt8) (start stop : Nat) : Except ScanStop (List UInt8) :=
  if start ≤ stop ∧ stop ≤ bytes.length then .ok ((bytes.drop start).take (stop - start))
  else .error (.panicked "slice index out of range")

def expect {α : Type} (o : Option α) (message : String) : Except ScanStop α :=
  okOr o (.panicked message)

/-- The end of the number token that `index` is in. -/
def tokenEnd (bytes : List UInt8) : Nat → Nat → Except ScanStop Nat
  | 0, _ => .error .endless
  | fuel + 1, index =>
    if index < bytes.length then do
      let byte ← byteAt bytes index
      if tokenByte byte = true then tokenEnd bytes fuel (index + 1) else return index
    else return index

def fractionByte (b : UInt8) : Bool :=
  b == ascii '.' || b == ascii 'e' || b == ascii 'E'

/-- A token without a fraction or an exponent is an `i64` or a `u64`. -/
def tokenRepresentable (token : List UInt8) : Except ScanStop Bool :=
  if token.any fractionByte = true then return true
  else do
    let text ← expect (fromUtf8 token) "numeric token is ASCII"
    return (integer text).isSome

/-- The `while` loop of `decode_json`: whether it leaves no integer beyond 64 bits behind. -/
def scanNumbers (bytes : List UInt8) : Nat → Nat → Bool → Except ScanStop Bool
  | 0, _, _ => .error .endless
  | fuel + 1, index, quoted =>
    if index < bytes.length then do
      let byte ← byteAt bytes index
      if byte = ascii '\\' ∧ quoted = true then scanNumbers bytes fuel (index + 2) quoted
      else if byte = ascii '"' then scanNumbers bytes fuel (index + 1) (!quoted)
      else if startByte byte = true ∧ quoted = false then do
        let start := index
        let index ← tokenEnd bytes (bytes.length + 1) index
        let token ← slice bytes start index
        if (← tokenRepresentable token) = true then scanNumbers bytes fuel index quoted
        else return false
      else scanNumbers bytes fuel (index + 1) quoted
    else return true

/-- `decode_json` with its index into the bytes. -/
def decodeJsonBytes {α : Type} (serde : Serde) (deserialize : Doc → Except String α)
    (bytes : List UInt8) : Except ScanStop (WorkerResult α) := do
  if (← scanNumbers bytes (bytes.length + 1) 0 false) = true then
    return (serde.document bytes >>= deserialize).mapError fun error =>
      invalidInput s!"invalid JSON: {error}"
  else
    return .error (invalidInput ("JSON integer exceeds the signed/unsigned 64-bit range; " ++
      "encode exact larger values as strings"))

/- The walk. -/

section Walk

variable {bytes : List UInt8}

theorem byteAt_drop {index : Nat} {b : UInt8} {rest : List UInt8}
    (h : bytes.drop index = b :: rest) :
    index < bytes.length ∧ byteAt bytes index = .ok b ∧ bytes.drop (index + 1) = rest := by
  have inside : index < bytes.length := by
    by_contra out
    rw [List.drop_eq_nil_of_le (Nat.le_of_not_lt out)] at h
    cases h
  rw [List.drop_eq_getElem_cons inside, List.cons.injEq] at h
  refine ⟨inside, ?_, h.2⟩
  rw [byteAt, okOr_eq_ok, List.getElem?_eq_getElem inside, h.1]

theorem drop_of_le {index : Nat} (h : bytes.drop index = []) : ¬ index < bytes.length :=
  Nat.not_lt.mpr (List.drop_eq_nil_iff.mp h)

theorem tokenEnd_eq (fuel index : Nat) (inside : index ≤ bytes.length)
    (enough : bytes.length < index + fuel) :
    tokenEnd bytes fuel index = .ok (index + ((bytes.drop index).takeWhile tokenByte).length) := by
  induction fuel generalizing index with
  | zero => omega
  | succ fuel ih =>
    rw [tokenEnd]
    cases rest : bytes.drop index with
    | nil =>
      rw [if_neg (drop_of_le rest)]
      rfl
    | cons b r =>
      obtain ⟨room, byte, next⟩ := byteAt_drop rest
      rw [if_pos room, byte, ok_bind]
      by_cases digit : tokenByte b = true
      · have later := ih (index + 1) room (by omega)
        rw [if_pos digit, later, next, List.takeWhile_cons_of_pos digit, List.length_cons]
        congr 1
        omega
      · rw [if_neg digit, List.takeWhile_cons_of_neg digit]
        rfl

theorem slice_eq {index : Nat} {token rest : List UInt8} (h : bytes.drop index = token ++ rest)
    (inside : index ≤ bytes.length) :
    slice bytes index (index + token.length) = .ok token := by
  have whole : bytes.length - index = token.length + rest.length := by
    rw [← List.length_drop, h, List.length_append]
  rw [slice, if_pos ⟨Nat.le_add_right _ _, by omega⟩, Nat.add_sub_cancel_left, h,
    List.take_left]

theorem low_of_tokenByte {b : UInt8} (h : tokenByte b = true) : b.toNat < 128 := by
  by_contra high
  have other : tokenByte b = false := (high_byte (Nat.le_of_not_lt high)).2.2.2
  rw [other] at h
  cases h

theorem utf8_tokenText {token : List UInt8} (h : ∀ b ∈ token, b.toNat < 128) :
    utf8 (tokenText token) = token := by
  induction token with
  | nil => rfl
  | cons b token ih =>
    have low : b.toNat < 128 := h b List.mem_cons_self
    have char : (Char.ofNat b.toNat).toNat = b.toNat := by
      have all : ∀ n < 128, (Char.ofNat n).toNat = n := by decide
      exact all _ low
    have small : (Char.ofNat b.toNat).toNat < 128 := by rwa [char]
    have rest := ih fun c hc => h c (List.mem_cons_of_mem _ hc)
    rw [tokenText] at rest ⊢
    rw [List.map_cons, utf8_cons_ascii small, rest, ascii, char, UInt8.ofNat_toNat]

theorem fractionByte_char {b : UInt8} (h : b.toNat < 128) :
    fractionByte b = (Char.ofNat b.toNat == '.' || Char.ofNat b.toNat == 'e' ||
      Char.ofNat b.toNat == 'E') := by
  have all : ∀ n < 128, fractionByte (UInt8.ofNat n) = (Char.ofNat n == '.' || Char.ofNat n == 'e' ||
      Char.ofNat n == 'E') := by
    decide
  have := all b.toNat h
  rwa [UInt8.ofNat_toNat] at this

theorem any_fractionByte {token : List UInt8} (h : ∀ b ∈ token, b.toNat < 128) :
    token.any fractionByte = fractional (tokenText token) := by
  induction token with
  | nil => rfl
  | cons b token ih =>
    have rest := ih fun c hc => h c (List.mem_cons_of_mem _ hc)
    rw [fractional, tokenText] at rest ⊢
    rw [List.any_cons, List.map_cons, List.any_cons, rest,
      fractionByte_char (h b List.mem_cons_self)]

theorem tokenRepresentable_eq {token : List UInt8} (h : ∀ b ∈ token, b.toNat < 128) :
    tokenRepresentable token = .ok (representable (tokenText token)) := by
  have text : fromUtf8 token = some (tokenText token) :=
    fromUtf8_eq_some_iff.mpr (utf8_tokenText h).symm
  rw [tokenRepresentable, any_fractionByte h, representable, text]
  cases fractional (tokenText token)
  all_goals rfl

theorem tokenByte_of_startByte {b : UInt8} (h : startByte b = true) : tokenByte b = true := by
  simp only [startByte, Bool.or_eq_true] at h
  simp only [tokenByte, Bool.or_eq_true]
  rcases h with minus | digit
  · exact .inl (.inl (.inl (.inl (.inr minus))))
  · exact .inl (.inl (.inl (.inl (.inl digit))))

theorem token_at {index : Nat} {b : UInt8} {r : List UInt8} (h : bytes.drop index = b :: r)
    (starts : startByte b = true) :
    ∃ stop, index < stop ∧ stop ≤ bytes.length ∧
      tokenEnd bytes (bytes.length + 1) index = .ok stop ∧
      slice bytes index stop = .ok (b :: r.takeWhile tokenByte) ∧
      tokenRepresentable (b :: r.takeWhile tokenByte) =
        .ok (representable (tokenText (b :: r.takeWhile tokenByte))) ∧
      bytes.drop stop = r.dropWhile tokenByte := by
  have room : index < bytes.length := (byteAt_drop h).1
  have digit : tokenByte b = true := tokenByte_of_startByte starts
  have token : (bytes.drop index).takeWhile tokenByte = b :: r.takeWhile tokenByte := by
    rw [h, List.takeWhile_cons_of_pos digit]
  have split : bytes.drop index = (b :: r.takeWhile tokenByte) ++ r.dropWhile tokenByte := by
    rw [h, List.cons_append, List.takeWhile_append_dropWhile]
  have fits : (b :: r.takeWhile tokenByte).length ≤ bytes.length - index := by
    rw [← List.length_drop, split, List.length_append]
    exact Nat.le_add_right _ _
  refine ⟨index + (b :: r.takeWhile tokenByte).length, ?_, by omega, ?_, ?_, ?_, ?_⟩
  · rw [List.length_cons]
    omega
  · rw [tokenEnd_eq _ _ room.le (by omega), token]
  · exact slice_eq split room.le
  · refine tokenRepresentable_eq fun c hc => low_of_tokenByte ?_
    rw [← token] at hc
    exact List.mem_takeWhile_imp hc
  · rw [← List.drop_drop, split, List.drop_left]

/-- The scan ends, inside the bytes, with what the bytes from `index` on hold. -/
theorem scan_eq (fuel index : Nat) (quoted : Bool) (enough : bytes.length ≤ index + fuel) :
    scanNumbers bytes (fuel + 1) index quoted =
      .ok (numbersRepresentable quoted (bytes.drop index)) := by
  induction fuel generalizing index quoted with
  | zero =>
    have outside : bytes.length ≤ index := enough
    rw [scanNumbers, if_neg (Nat.not_lt.mpr outside), List.drop_eq_nil_of_le outside, numbersRepresentable]
    rfl
  | succ fuel ih =>
    rw [scanNumbers]
    cases rest : bytes.drop index with
    | nil =>
      rw [if_neg (drop_of_le rest), numbersRepresentable]
      rfl
    | cons b r =>
      obtain ⟨room, byte, next⟩ := byteAt_drop rest
      rw [if_pos room, byte, ok_bind, numbersRepresentable]
      by_cases escape : b = ascii '\\' ∧ quoted = true
      · rw [if_pos escape, if_pos escape, ih _ _ (by omega), ← next, List.drop_drop]
      · rw [if_neg escape, if_neg escape]
        by_cases quote : b = ascii '"'
        · rw [if_pos quote, if_pos quote, ih _ _ (by omega), next]
        · rw [if_neg quote, if_neg quote]
          by_cases starts : startByte b = true ∧ quoted = false
          · obtain ⟨stop, past, -, found, token, fits, left⟩ := token_at rest starts.1
            rw [if_pos starts, if_pos starts, found, ok_bind, token, ok_bind, fits, ok_bind]
            cases representable (tokenText (b :: r.takeWhile tokenByte)) with
            | false => rfl
            | true => rw [if_pos rfl, ih _ _ (by omega), left, Bool.true_and]
          · rw [if_neg starts, if_neg starts, ih _ _ (by omega), next]

/-- On all bytes the walk is `decodeJson`. -/
theorem decodeJsonBytes_eq {α : Type} (serde : Serde) (deserialize : Doc → Except String α) :
    decodeJsonBytes serde deserialize bytes = .ok (decodeJson serde deserialize bytes) := by
  rw [decodeJsonBytes, scan_eq _ _ _ (Nat.le_add_left _ _), ok_bind, List.drop_zero, decodeJson]
  cases numbersRepresentable false bytes
  all_goals rfl

end Walk

/- The tokens of a document. -/

section Reader

variable {fuel : Nat}

def NumbersValue (fuel : Nat) : Prop :=
  ∀ text d k, JsonReader.value fuel text = some (d, k) → ∀ t ∈ d.tokens, JsonReader.number t = true

def NumbersItems (fuel : Nat) : Prop :=
  ∀ text ds k, JsonReader.items fuel text = some (ds, k) →
    ∀ t ∈ Doc.itemsTokens ds, JsonReader.number t = true

def NumbersMembers (fuel : Nat) : Prop :=
  ∀ text ms k, JsonReader.members fuel text = some (ms, k) →
    ∀ t ∈ Doc.membersTokens ms, JsonReader.number t = true

def NumbersMember (fuel : Nat) : Prop :=
  ∀ text m k, JsonReader.member fuel text = some (m, k) →
    ∀ t ∈ m.2.tokens, JsonReader.number t = true

theorem numbersValue_succ (items : NumbersItems fuel) (members : NumbersMembers fuel) :
    NumbersValue (fuel + 1) := by
  intro text d k h
  have shape := JsonReader.value_shape h
  generalize JsonReader.skip text = front at shape
  cases shape with
  | null | true | false | str | noItems | noMembers =>
    intro t ht
    cases ht
  | arr hs => exact items _ _ _ hs
  | obj hs => exact members _ _ _ hs
  | num number =>
    intro t ht
    rw [Doc.tokens, List.mem_singleton] at ht
    rw [ht]
    exact number

theorem numbersItems_succ (value : NumbersValue fuel) (items : NumbersItems fuel) :
    NumbersItems (fuel + 1) := by
  intro text ds k h
  obtain ⟨d, r, hd, more | last⟩ := JsonReader.items_cases h
  · obtain ⟨s, es, -, rest, rfl⟩ := more
    rw [Doc.itemsTokens, List.forall_mem_append]
    exact ⟨value _ _ _ hd, items _ _ _ rest⟩
  · obtain ⟨-, rfl⟩ := last
    rw [Doc.itemsTokens, Doc.itemsTokens, List.append_nil]
    exact value _ _ _ hd

theorem numbersMembers_succ (member : NumbersMember fuel) (members : NumbersMembers fuel) :
    NumbersMembers (fuel + 1) := by
  intro text ms k h
  obtain ⟨m, r, hm, more | last⟩ := JsonReader.members_cases h
  · obtain ⟨s, ns, -, rest, rfl⟩ := more
    rw [Doc.membersTokens, List.forall_mem_append]
    exact ⟨member _ _ _ hm, members _ _ _ rest⟩
  · obtain ⟨-, rfl⟩ := last
    rw [Doc.membersTokens, Doc.membersTokens, List.append_nil]
    exact member _ _ _ hm

theorem numbersMember_succ (value : NumbersValue fuel) : NumbersMember (fuel + 1) := by
  intro text m k h
  obtain ⟨-, -, -, u, -, -, -, -, body⟩ := JsonReader.member_cases h
  exact value _ _ _ body

theorem numbers_read (fuel : Nat) :
    NumbersValue fuel ∧ NumbersItems fuel ∧ NumbersMembers fuel ∧ NumbersMember fuel := by
  induction fuel with
  | zero =>
    refine ⟨?_, ?_, ?_, ?_⟩
    all_goals
      intro text d k h
      cases h
  | succ fuel ih =>
    obtain ⟨value, items, members, member⟩ := ih
    exact ⟨numbersValue_succ items members, numbersItems_succ value items,
      numbersMembers_succ member members, numbersMember_succ value⟩

end Reader

theorem number_of_read {text : List Char} {doc : Doc} (h : JsonReader.read text = some doc)
    {t : List Char} (ht : t ∈ doc.tokens) : JsonReader.number t = true := by
  rw [JsonReader.read] at h
  split at h
  case h_1 => cases h
  case h_2 d r hv =>
    split at h
    case isTrue =>
      cases h
      exact (numbers_read _).1 _ _ _ hv t ht
    case isFalse => cases h

/- What a number token without a fraction or an exponent writes. -/

def I64 (i : Int) : Prop :=
  -2 ^ 63 ≤ i ∧ i < 2 ^ 63

def U64 (i : Int) : Prop :=
  0 ≤ i ∧ i < 2 ^ 64

theorem fractional_sublist {cs ds : List Char} (sub : cs.Sublist ds) (h : fractional ds = false) :
    fractional cs = false := by
  rw [fractional, List.any_eq_false] at h ⊢
  exact fun c hc => h c (sub.subset hc)

theorem exponent_plain {cs : List Char} (plain : fractional cs = false)
    (h : JsonReader.exponent cs = true) : cs = [] := by
  unfold JsonReader.exponent at h
  split at h
  case h_1 => rfl
  case h_8 => cases h
  all_goals cases plain

theorem fraction_plain {cs : List Char} (plain : fractional cs = false)
    (h : JsonReader.fraction cs = true) : cs = [] := by
  unfold JsonReader.fraction at h
  split at h
  case h_1 => cases plain
  case h_2 => exact exponent_plain plain h

theorem unsigned_plain {cs : List Char} (plain : fractional cs = false)
    (h : JsonReader.unsigned cs = true) : JsonReader.digits cs = true := by
  unfold JsonReader.unsigned at h
  split at h
  case h_1 => cases h
  case h_2 cs =>
    have none : cs = [] := fraction_plain (fractional_sublist (List.sublist_cons_self _ _) plain) h
    rw [none]
    rfl
  case h_3 c cs _ =>
    rw [Bool.and_eq_true] at h
    have sub : (cs.dropWhile Char.isDigit).Sublist (c :: cs) :=
      (List.dropWhile_sublist _).trans (List.sublist_cons_self _ _)
    have none := fraction_plain (fractional_sublist sub plain) h.2
    rw [List.dropWhile_eq_nil_iff] at none
    rw [JsonReader.digits, List.all_cons, h.1, List.all_eq_true.mpr none]
    rfl

theorem parseInteger_of_number {t : List Char} (plain : fractional t = false)
    (h : JsonReader.number t = true) : ∃ i, parseInteger t = some i := by
  unfold JsonReader.number at h
  split at h
  case h_1 cs =>
    have all := unsigned_plain (fractional_sublist (List.sublist_cons_self _ _) plain) h
    exact ⟨_, if_pos all⟩
  case h_2 minus =>
    have all := unsigned_plain plain h
    refine ⟨_, (parseInteger.eq_3 t minus ?_).trans (if_pos all)⟩
    rintro ds rfl
    cases all

theorem parseInteger_sign {t : List Char} {i : Int} (h : parseInteger t = some i) :
    (t.head? = some '-' → i ≤ 0) ∧ (t.head? ≠ some '-' → 0 ≤ i) := by
  unfold parseInteger at h
  split at h
  all_goals
    obtain ⟨-, value⟩ := Option.ite_none_right_eq_some.mp h
    rw [Option.some.injEq] at value
  case h_1 => exact ⟨fun _ => by omega, fun minus => absurd rfl minus⟩
  case h_2 =>
    refine ⟨fun minus => ?_, fun _ => by omega⟩
    cases minus
  case h_3 none _ =>
    refine ⟨fun minus => ?_, fun _ => by omega⟩
    obtain ⟨ds, rfl⟩ := List.head?_eq_some_iff.mp minus
    exact absurd rfl (none ds)

theorem integer_isSome {t : List Char} {i : Int} (h : parseInteger t = some i) :
    (integer t).isSome = true ↔ I64 i ∨ U64 i := by
  obtain ⟨negative, positive⟩ := parseInteger_sign h
  rw [integer, h, Option.isSome_filter, Option.any_some, I64, U64]
  by_cases minus : t.head? = some '-'
  · have below := negative minus
    rw [if_pos minus, decide_eq_true_eq]
    omega
  · have above := positive minus
    rw [if_neg minus, decide_eq_true_eq]
    omega

theorem not_representable_iff {t : List Char} (h : JsonReader.number t = true) :
    representable t = false ↔
      fractional t = false ∧ ∃ i, parseInteger t = some i ∧ ¬ I64 i ∧ ¬ U64 i := by
  rw [representable, Bool.or_eq_false_iff, ← Bool.not_eq_true (Option.isSome _)]
  refine and_congr_right fun plain => ?_
  obtain ⟨i, value⟩ := parseInteger_of_number plain h
  rw [integer_isSome value, not_or, value]
  simp

/-- The walk panics on no bytes and always ends. On a text that the library reads, it fails exactly
if the document writes an integer that neither type holds. On any other it fails too. -/
theorem decode_json_exact (serde : Serde) (correct : serde.Correct) {α : Type}
    (deserialize : Doc → Except String α) (bytes : List UInt8) :
    ∃ result, decodeJsonBytes serde deserialize bytes = .ok result ∧
      (∀ a, serde.document bytes >>= deserialize = .ok a →
        ∃ text doc, bytes = utf8 text ∧ JsonReader.read text = some doc ∧
          ((∃ e, result = .error e) ↔ ∃ t ∈ doc.tokens, fractional t = false ∧
            ∃ i, parseInteger t = some i ∧ ¬ I64 i ∧ ¬ U64 i) ∧
          ∀ b, result = .ok b → b = a) ∧
      (∀ reason, serde.document bytes >>= deserialize = .error reason → ∃ e, result = .error e) := by
  refine ⟨_, decodeJsonBytes_eq serde deserialize, fun a accepted => ?_, fun reason rejected => ?_⟩
  · obtain ⟨doc, document, -⟩ := bind_eq_ok.mp accepted
    obtain ⟨text, rfl, read, -⟩ := (correct.document bytes doc).mp document
    refine ⟨text, doc, rfl, read, ?_, fun b h => ?_⟩
    · have each : (∃ t ∈ doc.tokens, fractional t = false ∧
          ∃ i, parseInteger t = some i ∧ ¬ I64 i ∧ ¬ U64 i) ↔
          doc.tokens.all representable = false := by
        rw [List.all_eq_false]
        refine exists_congr fun t => and_congr_right fun ht => ?_
        rw [Bool.not_eq_true]
        exact (not_representable_iff (number_of_read read ht)).symm
      rw [each, decodeJson, numbersRepresentable_read read, accepted]
      cases doc.tokens.all representable with
      | false => simp
      | true => simp [Except.mapError]
    · rw [decodeJson, accepted, ite_error_eq_ok, ok_of_mapError] at h
      cases h.2
      rfl
  · rw [decodeJson, rejected]
    split_ifs
    · exact ⟨_, rfl⟩
    · exact ⟨_, rfl⟩

/-- An integer below every `i64`, behind an escaped quote. -/
def wideSample : Json :=
  .arr [.str "\\\"", .num (.int (-2 ^ 63 - 1))]

theorem decode_json_exact_wide :
    ∃ e, decodeJsonBytes .ofZeros (fun _ => .ok ()) (utf8 wideSample.text) = .ok (.error e) := by
  obtain ⟨result, same, accepted, -⟩ :=
    decode_json_exact .ofZeros Serde.ofZeros_correct (fun _ => .ok ()) (utf8 wideSample.text)
  have tokens : wideSample.doc.tokens = [(Number.int (-2 ^ 63 - 1)).text] := rfl
  have numeric : wideSample.Numeric := by
    intro t ht
    rw [tokens, List.mem_singleton] at ht
    rw [ht]
    exact JsonReader.number_int _
  have read : JsonReader.read wideSample.text = some wideSample.doc := JsonReader.read_text numeric
  have document : Serde.ofZeros.document (utf8 wideSample.text) = .ok wideSample.doc :=
    (Serde.ofZeros_correct.document _ _).mpr ⟨wideSample.text, rfl, read, by decide⟩
  obtain ⟨text, doc, bytes, other, refused, -⟩ := accepted () (by rw [document, ok_bind])
  rw [← utf8_injective bytes, read] at other
  cases other
  obtain ⟨e, rfl⟩ := refused.mpr ⟨(Number.int (-2 ^ 63 - 1)).text, by rw [tokens]; simp,
    not_fractional_int _, -2 ^ 63 - 1, by decide, by unfold I64; omega, by unfold U64; omega⟩
  exact ⟨e, same⟩

end Ledgence
