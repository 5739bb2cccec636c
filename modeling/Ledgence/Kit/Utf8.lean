import Mathlib.Data.String.Basic
import Ledgence.Kit.JsonObject

/-! Texts and the bytes of their UTF-8 encoding. -/
namespace Kit

def utf8 (text : List Char) : List UInt8 :=
  text.flatMap String.utf8EncodeChar

def fromUtf8 (bytes : List UInt8) : Option (List Char) :=
  bytes.toByteArray.utf8Decode?.map (·.toList)

@[simp] theorem utf8_nil : utf8 [] = [] := rfl

@[simp] theorem utf8_append (a b : List Char) : utf8 (a ++ b) = utf8 a ++ utf8 b := by
  simp [utf8]

theorem utf8_cons (c : Char) (a : List Char) : utf8 (c :: a) = String.utf8EncodeChar c ++ utf8 a := by
  simp [utf8]

theorem toByteArray_utf8 (text : List Char) : (utf8 text).toByteArray = text.utf8Encode := rfl

theorem fromUtf8_eq_some_iff {bytes : List UInt8} {text : List Char} :
    fromUtf8 bytes = some text ↔ bytes = utf8 text := by
  constructor
  · intro h
    obtain ⟨chars, decoded, rfl⟩ := Option.map_eq_some_iff.mp h
    have valid : bytes.toByteArray.IsValidUTF8 := by
      rw [← ByteArray.isSome_utf8Decode?_iff, decoded]
      rfl
    obtain ⟨m, hm⟩ := valid
    rw [hm, List.utf8Decode?_utf8Encode, Option.some.injEq] at decoded
    subst decoded
    exact List.toByteArray_inj.mp hm
  · intro h
    rw [fromUtf8, h, toByteArray_utf8, List.utf8Decode?_utf8Encode, Option.map_some]

theorem utf8_injective : Function.Injective utf8 := by
  intro a b h
  have left := fromUtf8_eq_some_iff.mpr (Eq.refl (utf8 a))
  have right := fromUtf8_eq_some_iff.mpr h
  exact Option.some.inj (left.symm.trans right)

def ascii (c : Char) : UInt8 :=
  UInt8.ofNat c.toNat

theorem utf8EncodeChar_ascii {c : Char} (h : c.toNat < 128) :
    String.utf8EncodeChar c = [ascii c] := by
  have small : c.val.toNat ≤ 0x7f := Nat.le_of_lt_succ h
  simp only [String.utf8EncodeChar, small, if_true]
  rfl

theorem utf8EncodeChar_high {c : Char} (h : 128 ≤ c.toNat) :
    ∀ b ∈ String.utf8EncodeChar c, 128 ≤ b.toNat := by
  have big : ¬ c.val.toNat ≤ 0x7f := Nat.not_le.mpr h
  intro b hb
  simp only [String.utf8EncodeChar, big, if_false] at hb
  split_ifs at hb
  all_goals
    simp only [List.mem_cons, List.not_mem_nil, or_false] at hb
    rcases hb with rfl | rfl | rfl | rfl
  all_goals
    simp only [UInt8.toNat_ofNat']
    omega

theorem utf8_cons_ascii {c : Char} (h : c.toNat < 128) (r : List Char) :
    utf8 (c :: r) = ascii c :: utf8 r := by
  rw [utf8_cons, utf8EncodeChar_ascii h, List.singleton_append]

end Kit

/-! Percent encoding of a text's UTF-8 bytes, and reading it back. -/
namespace Kit

def unreserved (b : UInt8) : Bool :=
  (ascii 'a' ≤ b && b ≤ ascii 'z') || (ascii 'A' ≤ b && b ≤ ascii 'Z') ||
    (ascii '0' ≤ b && b ≤ ascii '9') || b == ascii '-' || b == ascii '.' || b == ascii '_' ||
    b == ascii '~'

def upperHex (n : Nat) : Char :=
  if n < 10 then Char.ofNat (48 + n) else Char.ofNat (55 + n)

/-- `to_digit(16)` of a byte. -/
def digitOf (b : UInt8) : Option UInt8 :=
  if ascii '0' ≤ b ∧ b ≤ ascii '9' then some (b - 48)
  else if ascii 'a' ≤ b ∧ b ≤ ascii 'f' then some (b - 87)
  else if ascii 'A' ≤ b ∧ b ≤ ascii 'F' then some (b - 55)
  else none

def percentByte (b : UInt8) : List Char :=
  if unreserved b = true then [Char.ofNat b.toNat]
  else ['%', upperHex (b.toNat / 16), upperHex (b.toNat % 16)]

def percentBytes (bytes : List UInt8) : List Char :=
  bytes.flatMap percentByte

def percent (value : String) : String :=
  String.ofList (percentBytes (utf8 value.toList))

def unpercent : List UInt8 → Option (List UInt8)
  | [] => some []
  | b :: bytes =>
    if b = ascii '%' then
      match bytes with
      | high :: low :: bytes => do
        let high ← digitOf high
        let low ← digitOf low
        let rest ← unpercent bytes
        return (high * 16 + low) :: rest
      | _ => none
    else (b :: ·) <$> unpercent bytes

/-- A byte is written in one to three printable ASCII characters, none of them a separator. -/
theorem percentByte_plain (b : UInt8) :
    (∀ c ∈ percentByte b, 33 ≤ c.toNat ∧ c.toNat < 127 ∧ c ≠ '&') ∧
      (percentByte b).length ≤ 3 ∧ percentByte b ≠ [] := by
  have each : (List.range 256).all (fun n =>
      ((percentByte (UInt8.ofNat n)).all fun c => 33 ≤ c.toNat && c.toNat < 127 && c != '&') &&
        Nat.ble (percentByte (UInt8.ofNat n)).length 3 && !(percentByte (UInt8.ofNat n)).isEmpty) =
      true := by
    decide +kernel
  have own := List.all_eq_true.mp each b.toNat (List.mem_range.mpr b.toNat_lt)
  simpa [and_assoc] using own

theorem utf8_ascii {text : List Char} (plain : ∀ c ∈ text, c.toNat < 128) :
    utf8 text = text.map ascii := by
  induction text with
  | nil => rfl
  | cons c text ih =>
    rw [utf8_cons_ascii (plain c (by simp)), ih fun d hd => plain d (by simp [hd]), List.map_cons]

theorem percentBytes_ascii (bytes : List UInt8) : ∀ c ∈ percentBytes bytes, c.toNat < 128 := by
  intro c hc
  obtain ⟨b, -, inByte⟩ := List.mem_flatMap.mp hc
  have := (percentByte_plain b).1 c inByte
  omega

theorem unpercent_other {b : UInt8} (other : b ≠ ascii '%') (bytes : List UInt8) :
    unpercent (b :: bytes) = (b :: ·) <$> unpercent bytes := by
  conv_lhs => unfold unpercent
  exact if_neg other

theorem unpercent_percentByte (b : UInt8) (rest : List UInt8) :
    unpercent ((percentByte b).map ascii ++ rest) = (b :: ·) <$> unpercent rest := by
  have each : ∀ n : Fin 256,
      (unreserved (UInt8.ofNat n) = true ∧ ascii (Char.ofNat n) = UInt8.ofNat n ∧
        UInt8.ofNat n ≠ ascii '%') ∨
      (unreserved (UInt8.ofNat n) = false ∧
        digitOf (ascii (upperHex (n / 16))) = some (UInt8.ofNat (n / 16)) ∧
        digitOf (ascii (upperHex (n % 16))) = some (UInt8.ofNat (n % 16)) ∧
        UInt8.ofNat (n / 16) * 16 + UInt8.ofNat (n % 16) = UInt8.ofNat n) := by
    decide +kernel
  have known := each ⟨b.toNat, b.toNat_lt⟩
  simp only [UInt8.ofNat_toNat] at known
  cases known with
  | inl written =>
    obtain ⟨plain, same, other⟩ := written
    rw [percentByte, if_pos plain, List.map_cons, List.map_nil, same, List.singleton_append,
      unpercent_other other]
  | inr escaped =>
    obtain ⟨reserved, high, low, whole⟩ := escaped
    have notPlain : ¬ unreserved b = true := by simp [reserved]
    rw [percentByte, if_neg notPlain]
    simp only [List.map_cons, List.map_nil, List.cons_append, List.nil_append, unpercent, if_true,
      high, low, Option.bind_eq_bind, Option.bind_some, whole]
    cases unpercent rest <;> rfl

theorem unpercent_percentBytes (bytes : List UInt8) :
    unpercent (utf8 (percentBytes bytes)) = some bytes := by
  rw [utf8_ascii (percentBytes_ascii bytes)]
  induction bytes with
  | nil => rfl
  | cons b bytes ih =>
    rw [percentBytes, List.flatMap_cons, List.map_append, unpercent_percentByte]
    rw [percentBytes] at ih
    rw [ih]
    rfl

@[simp] theorem toList_percent (value : String) :
    (percent value).toList = percentBytes (utf8 value.toList) := by
  simp [percent]

theorem percent_injective : Function.Injective percent := by
  intro a b same
  have left := unpercent_percentBytes (utf8 a.toList)
  rw [← toList_percent, same, toList_percent, unpercent_percentBytes] at left
  exact String.toList_injective (utf8_injective (Option.some.inj left).symm)

theorem length_utf8 (text : List Char) : (utf8 text).length = utf8Len text := by
  induction text with
  | nil => rfl
  | cons c text ih =>
    rw [utf8_cons, List.length_append, ih, Json.utf8Len_cons, String.length_utf8EncodeChar]

theorem length_percentBytes_le (bytes : List UInt8) :
    (percentBytes bytes).length ≤ 3 * bytes.length := by
  induction bytes with
  | nil => exact Nat.le_refl _
  | cons b bytes ih =>
    have first := (percentByte_plain b).2.1
    simp only [percentBytes, List.flatMap_cons, List.length_append, List.length_cons] at ih ⊢
    omega

theorem utf8Len_percent_le (value : String) :
    utf8Len (percent value).toList ≤ 3 * utf8Len value.toList := by
  rw [toList_percent, Json.utf8Len_ascii (percentBytes_ascii _), ← length_utf8]
  exact length_percentBytes_le _

end Kit

/-! Bytes written as pairs of lowercase hexadecimal digits, and read back. -/
namespace Kit

def hexByte (b : UInt8) : List Char :=
  [hexDigit (b.toNat / 16), hexDigit (b.toNat % 16)]

def hex (bytes : List UInt8) : String :=
  String.ofList (bytes.flatMap hexByte)

def lowerDigit (b : UInt8) : Option UInt8 :=
  if ascii '0' ≤ b ∧ b ≤ ascii '9' then some (b - 48)
  else if ascii 'a' ≤ b ∧ b ≤ ascii 'f' then some (b - 87)
  else none

def unhex : List UInt8 → Option (List UInt8)
  | high :: low :: bytes => do
    let high ← lowerDigit high
    let low ← lowerDigit low
    let rest ← unhex bytes
    return (high <<< 4 ||| low) :: rest
  | _ => some []

theorem hexByte_plain (b : UInt8) : ∀ c ∈ hexByte b, 32 ≤ c.toNat ∧ c.toNat < 128 := by
  have each : (List.range 256).all (fun n =>
      (hexByte (UInt8.ofNat n)).all fun c => 32 ≤ c.toNat && c.toNat < 128) = true := by
    decide +kernel
  have own := List.all_eq_true.mp each b.toNat (List.mem_range.mpr b.toNat_lt)
  simpa using own

theorem hex_plain (bytes : List UInt8) : ∀ c ∈ (hex bytes).toList, 32 ≤ c.toNat ∧ c.toNat < 128 := by
  intro c mem
  rw [hex, String.toList_ofList] at mem
  obtain ⟨b, -, inside⟩ := List.mem_flatMap.mp mem
  exact hexByte_plain b c inside

theorem utf8_hex (bytes : List UInt8) :
    utf8 (hex bytes).toList = bytes.flatMap fun b => (hexByte b).map ascii := by
  rw [utf8_ascii fun c mem => (hex_plain bytes c mem).2, hex, String.toList_ofList, List.map_flatMap]

theorem length_utf8_hex (bytes : List UInt8) : (utf8 (hex bytes).toList).length = 2 * bytes.length := by
  rw [utf8_hex]
  induction bytes with
  | nil => rfl
  | cons b bytes ih =>
    rw [List.flatMap_cons, List.length_append, ih, List.length_map, List.length_cons]
    change 2 + _ = _
    omega

theorem unhex_hexByte (b : UInt8) (rest : List UInt8) :
    unhex ((hexByte b).map ascii ++ rest) = (b :: ·) <$> unhex rest := by
  have each : ∀ n : Fin 256,
      lowerDigit (ascii (hexDigit ((UInt8.ofNat n).toNat / 16))) = some (UInt8.ofNat n / 16) ∧
      lowerDigit (ascii (hexDigit ((UInt8.ofNat n).toNat % 16))) = some (UInt8.ofNat n % 16) ∧
      (UInt8.ofNat n / 16) <<< 4 ||| UInt8.ofNat n % 16 = UInt8.ofNat n := by
    decide +kernel
  obtain ⟨high, low, whole⟩ := each ⟨b.toNat, b.toNat_lt⟩
  simp only [UInt8.ofNat_toNat] at high low whole
  change unhex (ascii (hexDigit (b.toNat / 16)) :: ascii (hexDigit (b.toNat % 16)) :: rest) = _
  rw [unhex, high, low]
  cases unhex rest with
  | none => rfl
  | some r =>
    change some (((b / 16) <<< 4 ||| b % 16) :: r) = some (b :: r)
    rw [whole]

theorem unhex_hex (bytes : List UInt8) : unhex (utf8 (hex bytes).toList) = some bytes := by
  rw [utf8_hex]
  induction bytes with
  | nil => rfl
  | cons b bytes ih =>
    rw [List.flatMap_cons, unhex_hexByte, ih]
    rfl

end Kit
