import Ledgence.Api.Decoding
import Ledgence.Kit.JsonCanonical

/-! Which texts decode, what a decoded value keeps of its text, and that decoding undoes the
canonical encoding. -/
open Kit Kit.Checked

namespace Ledgence

mutual
def Keeps (serde : Serde) : Doc → Json → Prop
  | .null, v => v = .null
  | .bool b, v => v = .bool b
  | .num t, v => ∃ n, visitNumber serde t = .ok n ∧ v = .num n
  | .str s, v => v = .str s
  | .arr ds, v => ∃ vs, v = .arr vs ∧ ItemsKept serde ds vs
  | .obj ms, v => ∃ ns, v = .obj ns ∧ MembersKept serde ms ns
termination_by structural d => d

def ItemsKept (serde : Serde) : List Doc → List Json → Prop
  | [], vs => vs = []
  | d :: ds, vs => ∃ w ws, vs = w :: ws ∧ Keeps serde d w ∧ ItemsKept serde ds ws
termination_by structural ds => ds

def MembersKept (serde : Serde) : List (String × Doc) → List (String × Json) → Prop
  | [], ns => ns = []
  | (k, d) :: ms, ns => ∃ w ws, ns = (k, w) :: ws ∧ Keeps serde d w ∧ MembersKept serde ms ws
termination_by structural ms => ms
end

section Visit

variable {serde : Serde}

/-- What `visit` does on one document. -/
def Visits (serde : Serde) (d : Doc) : Prop :=
  ∀ v, StrictValue.visit serde d = .ok v ↔ Keeps serde d v ∧ d.UniqueKeys

theorem visitSeq_eq_ok {ds : List Doc} (each : ∀ d ∈ ds, Visits serde d) (vs : List Json) :
    StrictValue.visitSeq serde ds = .ok vs ↔ ItemsKept serde ds vs ∧ Doc.ItemsUnique ds := by
  induction ds generalizing vs with
  | nil => simp [StrictValue.visitSeq, ItemsKept, Doc.ItemsUnique, eq_comm]
  | cons d ds ih =>
    have first := each d List.mem_cons_self
    have rest := ih fun e he => each e (List.mem_cons_of_mem _ he)
    simp only [StrictValue.visitSeq, ItemsKept, Doc.ItemsUnique, bind_eq_ok, pure_eq_ok]
    constructor
    · rintro ⟨w, hw, ws, hws, rfl⟩
      have head := (first w).mp hw
      have tail := (rest ws).mp hws
      exact ⟨⟨w, ws, rfl, head.1, tail.1⟩, head.2, tail.2⟩
    · rintro ⟨⟨w, ws, rfl, head, tail⟩, unique, others⟩
      exact ⟨w, (first w).mpr ⟨head, unique⟩, ws, (rest ws).mpr ⟨tail, others⟩, rfl⟩

/-- The members read after `values`. -/
theorem visitMap_eq_ok {ms : List (String × Doc)} (each : ∀ k d, (k, d) ∈ ms → Visits serde d)
    (values out : List (String × Json)) :
    StrictValue.visitMap serde values ms = .ok out ↔
      ∃ ns, out = values ++ ns ∧ MembersKept serde ms ns ∧ Doc.MembersUnique ms ∧
        (ms.map Prod.fst).Nodup ∧ ∀ k ∈ ms.map Prod.fst, k ∉ values.map Prod.fst := by
  induction ms generalizing values with
  | nil => simp [StrictValue.visitMap, MembersKept, Doc.MembersUnique, eq_comm]
  | cons m ms ih =>
    obtain ⟨key, d⟩ := m
    have first := each key d List.mem_cons_self
    have rest := ih fun k e he => each k e (List.mem_cons_of_mem _ he)
    simp only [StrictValue.visitMap, MembersKept, Doc.MembersUnique, List.map_cons, List.nodup_cons,
      List.forall_mem_cons]
    by_cases known : key ∈ values.map Prod.fst
    · simp [known]
    · rw [if_neg known]
      simp only [bind_eq_ok, rest, List.map_append, List.map_cons, List.map_nil, List.mem_append,
        List.mem_singleton, not_or]
      constructor
      · rintro ⟨w, hw, ns, rfl, kept, unique, nodup, fresh⟩
        have head := (first w).mp hw
        refine ⟨(key, w) :: ns, by simp, ⟨w, ns, rfl, head.1, kept⟩, ⟨head.2, unique⟩, ⟨?_, nodup⟩,
          known, fun k hk => (fresh k hk).1⟩
        exact fun again => (fresh key again).2 rfl
      · rintro ⟨ns, rfl, ⟨w, ws, rfl, head, kept⟩, ⟨unique, others⟩, ⟨new, nodup⟩, -, fresh⟩
        refine ⟨w, (first w).mpr ⟨head, unique⟩, ws, by simp, kept, others, nodup, fun k hk =>
          ⟨fresh k hk, ?_⟩⟩
        rintro rfl
        exact new hk

theorem visit_eq_ok (d : Doc) : Visits serde d := by
  induction d using Doc.induction with
  | null | bool b | str s =>
    intro v
    simp [StrictValue.visit, Keeps, Doc.UniqueKeys, eq_comm]
  | num t =>
    intro v
    simp only [StrictValue.visit, Keeps, Doc.UniqueKeys, map_eq_ok, and_true]
    constructor
    · rintro ⟨n, hn, rfl⟩
      exact ⟨n, hn, rfl⟩
    · rintro ⟨n, hn, rfl⟩
      exact ⟨n, hn, rfl⟩
  | arr ds each =>
    intro v
    simp only [StrictValue.visit, Keeps, Doc.UniqueKeys, map_eq_ok, visitSeq_eq_ok each]
    constructor
    · rintro ⟨vs, ⟨kept, unique⟩, rfl⟩
      exact ⟨⟨vs, rfl, kept⟩, unique⟩
    · rintro ⟨⟨vs, rfl, kept⟩, unique⟩
      exact ⟨vs, ⟨kept, unique⟩, rfl⟩
  | obj ms each =>
    intro v
    simp only [StrictValue.visit, Keeps, Doc.UniqueKeys, map_eq_ok, visitMap_eq_ok each]
    constructor
    · rintro ⟨ns, ⟨ms', rfl, kept, unique, nodup, -⟩, rfl⟩
      exact ⟨⟨ns, rfl, kept⟩, nodup, unique⟩
    · rintro ⟨⟨ns, rfl, kept⟩, nodup, unique⟩
      exact ⟨ns, ⟨ns, rfl, kept, unique, nodup, by simp⟩, rfl⟩

def ReadableToken (serde : Serde) (token : List Char) : Prop :=
  ∃ n, visitNumber serde token = .ok n

theorem exists_itemsKept {ds : List Doc}
    (each : ∀ d ∈ ds, (∃ v, Keeps serde d v) ↔ ∀ t ∈ d.tokens, ReadableToken serde t) :
    (∃ vs, ItemsKept serde ds vs) ↔ ∀ t ∈ Doc.itemsTokens ds, ReadableToken serde t := by
  induction ds with
  | nil => simp [ItemsKept, Doc.itemsTokens]
  | cons d ds ih =>
    have first := each d List.mem_cons_self
    have rest := ih fun e he => each e (List.mem_cons_of_mem _ he)
    simp only [ItemsKept, Doc.itemsTokens, List.forall_mem_append, ← first, ← rest]
    constructor
    · rintro ⟨_, w, ws, rfl, head, tail⟩
      exact ⟨⟨w, head⟩, ws, tail⟩
    · rintro ⟨⟨w, head⟩, ws, tail⟩
      exact ⟨w :: ws, w, ws, rfl, head, tail⟩

theorem exists_membersKept {ms : List (String × Doc)}
    (each : ∀ k d, (k, d) ∈ ms → ((∃ v, Keeps serde d v) ↔ ∀ t ∈ d.tokens, ReadableToken serde t)) :
    (∃ ns, MembersKept serde ms ns) ↔ ∀ t ∈ Doc.membersTokens ms, ReadableToken serde t := by
  induction ms with
  | nil => simp [MembersKept, Doc.membersTokens]
  | cons m ms ih =>
    obtain ⟨k, d⟩ := m
    have first := each k d List.mem_cons_self
    have rest := ih fun l e he => each l e (List.mem_cons_of_mem _ he)
    simp only [MembersKept, Doc.membersTokens, List.forall_mem_append, ← first, ← rest]
    constructor
    · rintro ⟨_, w, ws, rfl, head, tail⟩
      exact ⟨⟨w, head⟩, ws, tail⟩
    · rintro ⟨⟨w, head⟩, ws, tail⟩
      exact ⟨(k, w) :: ws, w, ws, rfl, head, tail⟩

theorem exists_keeps (d : Doc) : (∃ v, Keeps serde d v) ↔ ∀ t ∈ d.tokens, ReadableToken serde t := by
  induction d using Doc.induction with
  | null | bool b | str s => simp [Keeps, Doc.tokens]
  | num t => simp [Keeps, Doc.tokens, ReadableToken]
  | arr ds each =>
    rw [Doc.tokens, ← exists_itemsKept each]
    simp [Keeps]
  | obj ms each =>
    rw [Doc.tokens, ← exists_membersKept each]
    simp [Keeps]

theorem visitF64_readable {t : List Char} :
    (∃ n, visitF64 serde t = .ok n) ↔ (serde.binary64 t).isSome = true := by
  rw [visitF64]
  cases serde.binary64 t <;> simp

theorem visitNumber_readable {t : List Char} (fits : representable t = true)
    (zero : (serde.binary64 ['-', '0']).isSome = true) :
    ReadableToken serde t ↔ (fractional t = true → (serde.binary64 t).isSome = true) := by
  rw [ReadableToken, visitNumber]
  by_cases frac : fractional t = true
  · rw [if_pos (.inl frac), visitF64_readable]
    exact ⟨fun h _ => h, fun h => h frac⟩
  · refine ⟨fun _ h => absurd h frac, fun _ => ?_⟩
    by_cases minus : t = ['-', '0']
    · rw [if_pos (.inr minus), visitF64_readable, minus]
      exact zero
    · rw [representable, Bool.or_eq_true] at fits
      obtain ⟨n, hn⟩ := Option.isSome_iff_exists.mp (fits.resolve_left frac)
      rw [if_neg (not_or.mpr ⟨frac, minus⟩), hn]
      exact ⟨.int n, rfl⟩

end Visit

/- Values in memory. -/

/-- A number that the program holds: an integer of an `i64` or a `u64`, or a finite binary64. -/
def HoldsNumber (serde : Serde) : Number → Prop
  | .int i => -2 ^ 63 ≤ i ∧ i < 2 ^ 64
  | .float f => ∃ token, serde.binary64 token = some f

def Holds (serde : Serde) (v : Json) : Prop :=
  ∀ n ∈ v.numbers, HoldsNumber serde n

theorem integer_text {i : Int} (low : -2 ^ 63 ≤ i) (high : i < 2 ^ 64) :
    integer (Number.int i).text = some i := by
  have digits : ∀ n, JsonReader.digits (Nat.toDigits 10 n) = true := by
    intro n
    simp only [JsonReader.digits, Bool.and_eq_true, Bool.not_eq_true', List.isEmpty_eq_false_iff,
      List.all_eq_true]
    exact ⟨Nat.toDigits_ne_nil, fun c hc => isDigit_of_mem_toDigits hc⟩
  cases i with
  | ofNat n =>
    have minus : (Nat.toDigits 10 n).head? ≠ some '-' := fun h =>
      minus_not_mem_toDigits n (List.mem_of_mem_head? h)
    have value : parseInteger (Nat.toDigits 10 n) = some (n : Int) := by
      rw [parseInteger]
      · rw [if_pos (digits n), Nat.ofDigitChars_toDigits]
        all_goals decide
      all_goals
        intro ds h
        have := isDigit_of_mem_toDigits (h ▸ List.mem_cons_self)
        revert this
        decide
    have range : (0 : Int) ≤ n ∧ (n : Int) < 2 ^ 64 := ⟨Int.natCast_nonneg n, high⟩
    show integer (Nat.toDigits 10 n) = some (n : Int)
    rw [integer, value, Option.filter_some, if_neg minus, if_pos (decide_eq_true range)]
  | negSucc n =>
    have value : parseInteger ('-' :: Nat.toDigits 10 (n + 1)) = some (-((n + 1 : Nat) : Int)) := by
      rw [parseInteger, if_pos (digits (n + 1)), Nat.ofDigitChars_toDigits]
      all_goals decide
    have range : -2 ^ 63 ≤ -((n + 1 : Nat) : Int) ∧ -((n + 1 : Nat) : Int) < 2 ^ 63 := by omega
    show integer ('-' :: Nat.toDigits 10 (n + 1)) = some (-((n + 1 : Nat) : Int))
    rw [integer, value, Option.filter_some, if_pos List.head?_cons,
      if_pos (decide_eq_true range)]

theorem not_fractional_int (i : Int) : fractional (Number.int i).text = false := by
  rw [fractional, List.any_eq_false]
  have digit : ∀ c : Char, c.isDigit = true → ¬ (c == '.' || c == 'e' || c == 'E') = true := by
    intro c hc h
    simp only [Bool.or_eq_true, beq_iff_eq] at h
    rcases h with (rfl | rfl) | rfl
    all_goals exact absurd hc (by decide)
  intro c hc
  cases i with
  | ofNat n => exact digit c (isDigit_of_mem_toDigits hc)
  | negSucc n =>
    cases hc with
    | head => decide
    | tail _ hc => exact digit c (isDigit_of_mem_toDigits hc)

theorem int_ne_negativeZero (i : Int) : (Number.int i).text ≠ ['-', '0'] := by
  intro h
  cases i with
  | ofNat n =>
    have text : Nat.toDigits 10 n = ['-', '0'] := h
    exact minus_not_mem_toDigits n (text ▸ List.mem_cons_self)
  | negSucc n =>
    obtain ⟨c, cs, text, ne⟩ := JsonReader.toDigits_head (Nat.succ_pos n)
    rw [Number.text, text] at h
    exact ne (List.cons.inj (List.cons.inj h).2).1

theorem holds_sortObjects {serde : Serde} {v : Json} (holds : Holds serde v) : Holds serde v.sortObjects := by
  induction v using Json.induction with
  | null | bool b | num n | str s => exact holds
  | arr vs ih =>
    rw [Holds, Json.numbers, Json.itemsNumbers_eq_flatMap] at holds
    intro n hn
    rw [Json.sortObjects, Json.numbers, Json.itemsNumbers_eq_flatMap, Json.sortItems_eq_map,
      List.flatMap_map] at hn
    obtain ⟨w, hw, mem⟩ := List.mem_flatMap.mp hn
    exact ih w hw (fun m hm => holds m (List.mem_flatMap.mpr ⟨w, hw, hm⟩)) n mem
  | obj ms ih =>
    rw [Holds, Json.numbers, Json.membersNumbers_eq_flatMap] at holds
    intro n hn
    rw [Json.sortObjects, Json.numbers, Json.membersNumbers_eq_flatMap,
      Json.sortMembers_eq_map] at hn
    obtain ⟨m, hm, mem⟩ := List.mem_flatMap.mp hn
    rw [List.mem_insertionSort, List.mem_map] at hm
    obtain ⟨⟨k, w⟩, hw, rfl⟩ := hm
    exact ih k w hw (fun m hm => holds m (List.mem_flatMap.mpr ⟨(k, w), hw, hm⟩)) n mem

theorem fractional_float (f : FloatText) : fractional f.text = true := by
  rw [fractional, List.any_eq_true]
  obtain dot | e := f.fractional
  · exact ⟨'.', dot, by decide⟩
  · exact ⟨'e', e, by decide⟩

theorem representable_text {serde : Serde} {n : Number} (holds : HoldsNumber serde n) :
    representable n.text = true := by
  cases n with
  | int i =>
    rw [representable, integer_text holds.1 holds.2]
    exact Bool.or_true _
  | float f => rw [representable, Number.text, fractional_float, Bool.true_or]

section Correct

variable {serde : Serde} (correct : serde.Correct)
include correct

theorem visitNumber_text {n : Number} (holds : HoldsNumber serde n) :
    visitNumber serde n.text = .ok n := by
  cases n with
  | int i =>
    have plain : ¬ (fractional (Number.int i).text = true ∨ (Number.int i).text = ['-', '0']) := by
      rw [not_fractional_int]
      exact not_or.mpr ⟨by decide, int_ne_negativeZero i⟩
    rw [visitNumber, if_neg plain, integer_text holds.1 holds.2]
  | float f =>
    obtain ⟨token, h⟩ := holds
    rw [visitNumber, if_pos (.inl (fractional_float f)), visitF64, Number.text, (correct.printed token f h).2]

theorem number_text {n : Number} (holds : HoldsNumber serde n) :
    JsonReader.number n.text = true := by
  cases n with
  | int i => exact JsonReader.number_int i
  | float f =>
    obtain ⟨token, h⟩ := holds
    exact (correct.printed token f h).1

theorem numeric_of_holds {v : Json} (holds : Holds serde v) : v.Numeric := by
  intro t ht
  rw [Json.doc_tokens, List.mem_map] at ht
  obtain ⟨n, hn, rfl⟩ := ht
  exact number_text correct (holds n hn)

theorem keeps_doc {v : Json} (holds : Holds serde v) : Keeps serde v.doc v := by
  induction v using Json.induction with
  | null | bool b | str s => rfl
  | num n => exact ⟨n, visitNumber_text correct (holds n List.mem_cons_self), rfl⟩
  | arr vs ih =>
    refine ⟨vs, rfl, ?_⟩
    rw [Holds, Json.numbers] at holds
    induction vs with
    | nil => rfl
    | cons v vs rest =>
      rw [Json.itemsNumbers, List.forall_mem_append] at holds
      exact ⟨v, vs, rfl, ih v (by simp) holds.1,
        rest (fun w hw => ih w (by simp [hw])) holds.2⟩
  | obj ms ih =>
    refine ⟨ms, rfl, ?_⟩
    rw [Holds, Json.numbers] at holds
    induction ms with
    | nil => rfl
    | cons m ms rest =>
      obtain ⟨k, v⟩ := m
      rw [Json.membersNumbers, List.forall_mem_append] at holds
      exact ⟨v, ms, rfl, ih k v (by simp) holds.1,
        rest (fun l w hw => ih l w (by simp [hw])) holds.2⟩

theorem decodeUniqueJson_eq_ok {bytes : List UInt8} {maxBytes : Nat} {v : Json} :
    decodeUniqueJson serde bytes maxBytes = .ok v ↔ bytes.length ≤ maxBytes ∧
      ∃ text doc, bytes = utf8 text ∧ JsonReader.read text = some doc ∧ doc.depth < 128 ∧
        doc.tokens.all representable = true ∧ Keeps serde doc v ∧ doc.UniqueKeys := by
  simp only [decodeUniqueJson, decodeJson, ite_error_eq_ok, ok_of_mapError, bind_eq_ok,
    correct.document, visit_eq_ok _ v, Nat.not_lt, Bool.not_eq_false]
  constructor
  · rintro ⟨limit, fits, doc, ⟨text, rfl, read, depth⟩, kept, unique⟩
    rw [numbersRepresentable_read read] at fits
    exact ⟨limit, text, doc, rfl, read, depth, fits, kept, unique⟩
  · rintro ⟨limit, text, doc, rfl, read, depth, fits, kept, unique⟩
    rw [← numbersRepresentable_read read] at fits
    exact ⟨limit, fits, doc, ⟨text, rfl, read, depth⟩, kept, unique⟩

theorem decode_canonical {v : Json} {maxBytes : Nat} (unique : v.UniqueKeys)
    (holds : Holds serde v) (depth : v.depth < 128)
    (limit : (utf8 (canonicalJsonBytes v)).length ≤ maxBytes) :
    decodeUniqueJson serde (utf8 (canonicalJsonBytes v)) maxBytes = .ok v.sortObjects := by
  have sorted := holds_sortObjects holds
  have fits : v.sortObjects.doc.tokens.all representable = true := by
    rw [List.all_eq_true]
    intro t ht
    rw [Json.doc_tokens, List.mem_map] at ht
    obtain ⟨n, hn, rfl⟩ := ht
    exact representable_text (sorted _ hn)
  refine (decodeUniqueJson_eq_ok correct).mpr ⟨limit, v.sortObjects.text, v.sortObjects.doc, rfl,
    JsonReader.read_text (numeric_of_holds correct sorted), ?_, fits, keeps_doc correct sorted,
    Json.doc_unique (Json.uniqueKeys_sortObjects unique)⟩
  rw [Json.doc_depth, Json.depth_sortObjects]
  exact depth

theorem decodes_iff {bytes : List UInt8} {maxBytes : Nat} (limit : bytes.length ≤ maxBytes) :
    (∃ v, decodeUniqueJson serde bytes maxBytes = .ok v) ↔
      ∃ text doc, bytes = utf8 text ∧ JsonReader.read text = some doc ∧ doc.depth < 128 ∧
        (∀ t ∈ doc.tokens, fractional t = false → (integer t).isSome = true) ∧
        (∀ t ∈ doc.tokens, fractional t = true → (serde.binary64 t).isSome = true) ∧
        doc.UniqueKeys := by
  have integers : ∀ t, representable t = true ↔
      (fractional t = false → (integer t).isSome = true) := by
    intro t
    rw [representable]
    cases fractional t <;> simp
  simp only [decodeUniqueJson_eq_ok correct, List.all_eq_true]
  constructor
  · rintro ⟨v, -, text, doc, rfl, read, depth, fits, kept, unique⟩
    have readable := (exists_keeps doc).mp ⟨v, kept⟩
    refine ⟨text, doc, rfl, read, depth, fun t ht => (integers t).mp (fits t ht), fun t ht => ?_,
      unique⟩
    exact (visitNumber_readable (fits t ht) correct.negativeZero).mp (readable t ht)
  · rintro ⟨text, doc, rfl, read, depth, whole, finite, unique⟩
    have fits : ∀ t ∈ doc.tokens, representable t = true :=
      fun t ht => (integers t).mpr (whole t ht)
    obtain ⟨v, kept⟩ := (exists_keeps doc).mpr fun t ht =>
      (visitNumber_readable (fits t ht) correct.negativeZero).mpr (finite t ht)
    exact ⟨v, limit, text, doc, rfl, read, depth, fits, kept, unique⟩

end Correct

/-- Canonical bytes decide equality up to member order and decode to a value of the same bytes, and
a text decodes exactly if it is a JSON document of at most 127 nested containers with finite
numbers, integers of 64 bits and unique keys; the value keeps every item and member. -/
theorem canonical_json_decodes (serde : Serde) (correct : serde.Correct) :
    (∀ a b : Value, utf8 (canonicalJsonBytes a.json) = utf8 (canonicalJsonBytes b.json) ↔
      Json.Same a.json b.json) ∧
    (∀ (a : Value) (maxBytes : Nat), Holds serde a.json → a.json.depth < 128 →
      (utf8 (canonicalJsonBytes a.json)).length ≤ maxBytes →
      ∃ b, decodeUniqueJson serde (utf8 (canonicalJsonBytes a.json)) maxBytes = .ok b ∧
        utf8 (canonicalJsonBytes b) = utf8 (canonicalJsonBytes a.json)) ∧
    (∀ (bytes : List UInt8) (maxBytes : Nat), bytes.length ≤ maxBytes →
      ((∃ v, decodeUniqueJson serde bytes maxBytes = .ok v) ↔
        ∃ text doc, bytes = utf8 text ∧ JsonReader.read text = some doc ∧ doc.depth < 128 ∧
          (∀ t ∈ doc.tokens, fractional t = false → (integer t).isSome = true) ∧
          (∀ t ∈ doc.tokens, fractional t = true → (serde.binary64 t).isSome = true) ∧
          doc.UniqueKeys)) ∧
    (∀ (bytes : List UInt8) (maxBytes : Nat) (v : Json),
      decodeUniqueJson serde bytes maxBytes = .ok v →
      ∃ text doc, bytes = utf8 text ∧ JsonReader.read text = some doc ∧ Keeps serde doc v) := by
  refine ⟨fun a b => ?_, fun a maxBytes holds depth limit => ?_,
    fun bytes maxBytes limit => decodes_iff correct limit, fun bytes maxBytes v h => ?_⟩
  · exact utf8_injective.eq_iff.trans (Json.canonical_eq_iff a.unique)
  · refine ⟨_, decode_canonical correct a.unique holds depth limit, ?_⟩
    have same := (Json.canonical_eq_iff a.unique).mpr (Json.same_sortObjects a.json)
    rw [canonicalJsonBytes, canonicalJsonBytes, ← same]
  · obtain ⟨-, text, doc, rfl, read, -, -, kept, -⟩ := (decodeUniqueJson_eq_ok correct).mp h
    exact ⟨text, doc, rfl, read, kept⟩

/- A library whose only binary64 numbers are the zeros. -/

def positiveZero : FloatText :=
  ⟨['0', '.', '0'], List.all_eq_true.mp (by decide), .inl (by simp)⟩

def negativeZero : FloatText :=
  ⟨['-', '0', '.', '0'], List.all_eq_true.mp (by decide), .inl (by simp)⟩

def Serde.ofZeros : Serde where
  document bytes := do
    let text ← okOr (fromUtf8 bytes) "invalid unicode code point"
    let doc ← okOr (JsonReader.read text) "expected value"
    refuse (128 ≤ doc.depth) "recursion limit exceeded"
    return doc
  binary64 token :=
    if token = ['-', '0'] ∨ token = negativeZero.text then some negativeZero
    else if token = positiveZero.text then some positiveZero
    else none

theorem Serde.ofZeros_correct : Serde.ofZeros.Correct where
  document bytes doc := by
    simp only [ofZeros, bind_eq_ok, okOr_eq_ok, refuse_eq_ok, pure_eq_ok, exists_unit,
      fromUtf8_eq_some_iff, Nat.not_le]
    constructor
    · rintro ⟨text, rfl, d, read, depth, rfl⟩
      exact ⟨text, rfl, read, depth⟩
    · rintro ⟨text, rfl, read, depth⟩
      exact ⟨text, rfl, doc, read, depth, rfl⟩
  printed token f h := by
    simp only [ofZeros] at h
    split_ifs at h
    · cases h
      exact ⟨by decide, by decide⟩
    · cases h
      exact ⟨by decide, by decide⟩
  negativeZero := by decide

/-- `{"b":[-0.0,7],"a":null}` -/
def zeroSample : Value :=
  ⟨.obj [("b", .arr [.num (.float negativeZero), .num (.int 7)]), ("a", .null)],
    by simp [Json.UniqueKeys, Json.MembersUnique, Json.ItemsUnique]⟩

theorem canonical_json_decodes_zeros :
    ∃ b, decodeUniqueJson .ofZeros (utf8 (canonicalJsonBytes zeroSample.json)) 23 = .ok b ∧
      utf8 (canonicalJsonBytes b) = utf8 (canonicalJsonBytes zeroSample.json) := by
  have holds : Holds .ofZeros zeroSample.json := by
    intro n hn
    have numbers : zeroSample.json.numbers = [.float negativeZero, .int 7] := rfl
    rw [numbers] at hn
    cases hn with
    | head => exact ⟨['-', '0'], by decide⟩
    | tail _ hn =>
      cases hn with
      | head => exact ⟨by decide, by decide⟩
      | tail _ hn => cases hn
  exact (canonical_json_decodes .ofZeros Serde.ofZeros_correct).2.1 zeroSample 23 holds
    (by decide) (by decide +kernel)

def nested : Nat → Json
  | 0 => .arr []
  | n + 1 => .arr [nested n]

theorem depth_nested (n : Nat) : (nested n).depth = n + 1 := by
  induction n with
  | zero => rfl
  | succ n ih =>
    rw [nested, Json.depth, Json.itemsDepth, ih, Json.itemsDepth]
    omega

theorem numbers_nested (n : Nat) : (nested n).numbers = [] := by
  induction n with
  | zero => rfl
  | succ n ih => rw [nested, Json.numbers, Json.itemsNumbers, ih, Json.itemsNumbers, List.nil_append]

theorem unique_nested (n : Nat) : (nested n).UniqueKeys := by
  induction n with
  | zero => trivial
  | succ n ih => exact ⟨ih, trivial⟩

/-- Beyond binary64, or beyond 127 nested containers, a document of unique keys and small integers
does not decode, nor does the encoding of a value. -/
theorem documents_beyond_limits :
    (¬ ∀ (serde : Serde), serde.Correct → ∀ (bytes : List UInt8) (maxBytes : Nat),
      bytes.length ≤ maxBytes → ((∃ v, decodeUniqueJson serde bytes maxBytes = .ok v) ↔
        ∃ text doc, bytes = utf8 text ∧ JsonReader.read text = some doc ∧
          (∀ t ∈ doc.tokens, fractional t = false → (integer t).isSome = true) ∧
          doc.UniqueKeys)) ∧
    (¬ ∀ (serde : Serde), serde.Correct → ∀ (a : Value) (maxBytes : Nat), Holds serde a.json →
      (utf8 (canonicalJsonBytes a.json)).length ≤ maxBytes →
      ∃ b, decodeUniqueJson serde (utf8 (canonicalJsonBytes a.json)) maxBytes = .ok b ∧
        utf8 (canonicalJsonBytes b) = utf8 (canonicalJsonBytes a.json)) := by
  have correct := Serde.ofZeros_correct
  constructor
  · intro claim
    let text : List Char := ['1', 'e', '9', '9', '9']
    have read : JsonReader.read text = some (.num text) := rfl
    have stated := claim .ofZeros correct (utf8 text) 5 (by decide)
    obtain ⟨v, hv⟩ := stated.mpr ⟨text, .num text, rfl, read, by decide, trivial⟩
    obtain ⟨-, other, doc, same, read', -, -, kept, -⟩ := (decodeUniqueJson_eq_ok correct).mp hv
    obtain rfl := utf8_injective same
    obtain rfl := Option.some.inj (read.symm.trans read')
    obtain ⟨n, hn, -⟩ := kept
    have infinite : visitNumber .ofZeros text = .error "nonfinite JSON number" := by decide
    rw [infinite] at hn
    cases hn
  · intro claim
    have holds : Holds .ofZeros (nested 127) := by
      intro n hn
      rw [numbers_nested] at hn
      cases hn
    obtain ⟨b, hb, -⟩ := claim .ofZeros correct ⟨nested 127, unique_nested 127⟩ _ holds le_rfl
    obtain ⟨-, text, doc, same, read, shallow, -⟩ := (decodeUniqueJson_eq_ok correct).mp hb
    obtain rfl := utf8_injective same
    have sorted := JsonReader.read_text (numeric_of_holds correct (holds_sortObjects holds))
    obtain rfl := Option.some.inj (sorted.symm.trans read)
    rw [Json.doc_depth, Json.depth_sortObjects, depth_nested] at shallow
    exact absurd shallow (by decide)

end Ledgence
