import Ledgence.Kit.JsonReader
import Mathlib.Data.List.TakeWhile

/-! What the reader reads: the shape of a text it accepts, and that it reads the compact text of a
value as that value is written. -/
namespace Kit
namespace JsonReader

inductive Shape (fuel : Nat) : List Char → Doc → List Char → Prop
  | null (r : List Char) : Shape fuel ('n' :: 'u' :: 'l' :: 'l' :: r) .null r
  | true (r : List Char) : Shape fuel ('t' :: 'r' :: 'u' :: 'e' :: r) (.bool .true) r
  | false (r : List Char) : Shape fuel ('f' :: 'a' :: 'l' :: 's' :: 'e' :: r) (.bool .false) r
  | str {r s k : List Char} (h : string r = some (s, k)) :
    Shape fuel ('"' :: r) (.str (String.ofList s)) k
  | noItems {r k : List Char} (h : skip r = ']' :: k) : Shape fuel ('[' :: r) (.arr []) k
  | arr {r k : List Char} {ds : List Doc} (h : items fuel r = some (ds, k)) :
    Shape fuel ('[' :: r) (.arr ds) k
  | noMembers {r k : List Char} (h : skip r = '}' :: k) : Shape fuel ('{' :: r) (.obj []) k
  | obj {r k : List Char} {ms : List (String × Doc)} (h : members fuel r = some (ms, k)) :
    Shape fuel ('{' :: r) (.obj ms) k
  | num {r : List Char} (h : number (r.takeWhile numberChar) = Bool.true) :
    Shape fuel r (.num (r.takeWhile numberChar)) (r.dropWhile numberChar)

theorem value_shape {fuel : Nat} {text k : List Char} {d : Doc}
    (h : value (fuel + 1) text = some (d, k)) : Shape fuel (skip text) d k := by
  rw [value] at h
  split at h
  case h_1 r heq =>
    cases h
    exact heq ▸ .null _
  case h_2 r heq =>
    cases h
    exact heq ▸ .true _
  case h_3 r heq =>
    cases h
    exact heq ▸ .false _
  case h_4 r heq =>
    obtain ⟨⟨s, k'⟩, hs, he⟩ := Option.map_eq_some_iff.mp h
    cases he
    exact heq ▸ .str hs
  case h_5 r heq =>
    split at h
    case h_1 r' close =>
      cases h
      exact heq ▸ .noItems close
    case h_2 =>
      obtain ⟨⟨ds, k'⟩, hs, he⟩ := Option.map_eq_some_iff.mp h
      cases he
      exact heq ▸ .arr hs
  case h_6 r heq =>
    split at h
    case h_1 r' close =>
      cases h
      exact heq ▸ .noMembers close
    case h_2 =>
      obtain ⟨⟨ms, k'⟩, hs, he⟩ := Option.map_eq_some_iff.mp h
      cases he
      exact heq ▸ .obj hs
  case h_7 =>
    split at h
    case isTrue token =>
      cases h
      exact .num token
    case isFalse => cases h

theorem items_cases {fuel : Nat} {text k : List Char} {ds : List Doc}
    (h : items (fuel + 1) text = some (ds, k)) :
    ∃ d r, value fuel text = some (d, r) ∧
      ((∃ s es, skip r = ',' :: s ∧ items fuel s = some (es, k) ∧ ds = d :: es) ∨
        (skip r = ']' :: k ∧ ds = [d])) := by
  rw [items] at h
  split at h
  case h_1 => cases h
  case h_2 d r hv =>
    refine ⟨d, r, hv, ?_⟩
    split at h
    case h_1 s hs =>
      obtain ⟨⟨es, k'⟩, he, heq⟩ := Option.map_eq_some_iff.mp h
      cases heq
      exact .inl ⟨s, es, hs, he, rfl⟩
    case h_2 s hs =>
      cases h
      exact .inr ⟨hs, rfl⟩
    case h_3 => cases h

theorem members_cases {fuel : Nat} {text k : List Char} {ms : List (String × Doc)}
    (h : members (fuel + 1) text = some (ms, k)) :
    ∃ m r, member fuel text = some (m, r) ∧
      ((∃ s ns, skip r = ',' :: s ∧ members fuel s = some (ns, k) ∧ ms = m :: ns) ∨
        (skip r = '}' :: k ∧ ms = [m])) := by
  rw [members] at h
  split at h
  case h_1 => cases h
  case h_2 m r hv =>
    refine ⟨m, r, hv, ?_⟩
    split at h
    case h_1 s hs =>
      obtain ⟨⟨ns, k'⟩, he, heq⟩ := Option.map_eq_some_iff.mp h
      cases heq
      exact .inl ⟨s, ns, hs, he, rfl⟩
    case h_2 s hs =>
      cases h
      exact .inr ⟨hs, rfl⟩
    case h_3 => cases h

theorem member_cases {fuel : Nat} {text k : List Char} {m : String × Doc}
    (h : member (fuel + 1) text = some (m, k)) :
    ∃ r s t u, skip text = '"' :: r ∧ string r = some (s, t) ∧ skip t = ':' :: u ∧
      m.1 = String.ofList s ∧ value fuel u = some (m.2, k) := by
  rw [member] at h
  split at h
  case h_1 r open' =>
    split at h
    case h_1 => cases h
    case h_2 s t key =>
      split at h
      case h_1 u colon =>
        obtain ⟨⟨d, k'⟩, hd, heq⟩ := Option.map_eq_some_iff.mp h
        cases heq
        exact ⟨r, s, t, u, open', key, colon, rfl, hd⟩
      case h_2 => cases h
  case h_2 => cases h

/- The compact text of a value. -/

theorem string_short {c x : Char} (h : escaped c = some x) (r : List Char) :
    string ('\\' :: c :: r) = (string r).map fun s => (x :: s.1, s.2) := by
  rw [string]
  · rw [h]
    cases string r <;> rfl
  · rintro _ _ _ _ _ rfl
    cases h

theorem string_hex (n : Nat) (h : n < 32) (r : List Char) :
    string ('\\' :: 'u' :: '0' :: '0' :: hexDigit (n / 16) :: hexDigit (n % 16) :: r) =
      (string r).map fun s => (Char.ofNat n :: s.1, s.2) := by
  have unit : (hex4 '0' '0' (hexDigit (n / 16)) (hexDigit (n % 16))).bind scalar =
      some (Char.ofNat n) := by
    interval_cases n <;> decide
  rw [string.eq_def]
  simp only [unit]

theorem string_plain {c : Char} (quote : c ≠ '"') (backslash : c ≠ '\\') (printable : 32 ≤ c.toNat)
    (r : List Char) : string (c :: r) = (string r).map fun s => (c :: s.1, s.2) := by
  rw [string]
  · have plain : ¬ (c.toNat < 32 ∨ c = '\\') := by
      rintro (low | rfl)
      · omega
      · exact backslash rfl
    rw [if_neg plain]
  · exact quote
  · exact fun _ _ _ _ _ h => absurd h backslash
  · exact fun _ _ h => absurd h backslash

theorem string_escape (c : Char) (r : List Char) :
    string (escape c ++ r) = (string r).map fun s => (c :: s.1, s.2) := by
  unfold escape
  split_ifs with hq hb h8 h9 h10 h12 h13 h32
  · exact string_short (by rw [hq]; rfl) r
  · exact string_short (by rw [hb]; rfl) r
  · exact string_short (by rw [char_eq_ofNat h8]; rfl) r
  · exact string_short (by rw [char_eq_ofNat h9]; rfl) r
  · exact string_short (by rw [char_eq_ofNat h10]; rfl) r
  · exact string_short (by rw [char_eq_ofNat h12]; rfl) r
  · exact string_short (by rw [char_eq_ofNat h13]; rfl) r
  · have hex := string_hex c.toNat h32 r
    rwa [Char.ofNat_toNat] at hex
  · exact string_plain hq hb (Nat.le_of_not_lt h32) r

theorem string_quote (s : List Char) (r : List Char) :
    string (s.flatMap escape ++ '"' :: r) = some (s, r) := by
  induction s with
  | nil => rfl
  | cons c s ih =>
    rw [List.flatMap_cons, List.append_assoc, string_escape, ih]
    rfl

/- Numbers. -/

theorem toDigits_head {n : Nat} (positive : 0 < n) :
    ∃ c cs, Nat.toDigits 10 n = c :: cs ∧ c ≠ '0' := by
  induction n using Nat.strong_induction_on with
  | h n ih =>
    by_cases small : n < 10
    · refine ⟨Nat.digitChar n, [], Nat.toDigits_of_lt_base small, ?_⟩
      interval_cases n <;> decide
    · have more : 0 < n / 10 := Nat.div_pos (Nat.le_of_not_lt small) (by decide)
      obtain ⟨c, cs, hc, hne⟩ := ih (n / 10) (Nat.div_lt_self positive (by decide)) more
      refine ⟨c, cs ++ [Nat.digitChar (n % 10)], ?_, hne⟩
      rw [Nat.toDigits_of_base_le (by decide) (Nat.le_of_not_lt small), hc, List.cons_append]

theorem dropWhile_digits {cs : List Char} (h : ∀ c ∈ cs, c.isDigit = true) :
    cs.dropWhile Char.isDigit = [] :=
  List.dropWhile_eq_nil_iff.mpr h

theorem unsigned_toDigits (n : Nat) : unsigned (Nat.toDigits 10 n) = true := by
  by_cases zero : n = 0
  · rw [zero]
    decide
  · obtain ⟨c, cs, hc, hne⟩ := toDigits_head (Nat.pos_of_ne_zero zero)
    have numeric : ∀ d ∈ c :: cs, d.isDigit = true := fun d hd =>
      isDigit_of_mem_toDigits (hc ▸ hd)
    have rest : cs.dropWhile Char.isDigit = [] :=
      dropWhile_digits fun d hd => numeric d (List.mem_cons_of_mem _ hd)
    rw [hc, unsigned]
    · rw [rest, numeric c List.mem_cons_self]
      rfl
    · exact hne

theorem number_int (i : Int) : number (Number.int i).text = true := by
  cases i with
  | ofNat n =>
    have unsigned := unsigned_toDigits n
    rw [Number.text, number]
    · exact unsigned
    · intro cs h
      exact minus_not_mem_toDigits n (h ▸ List.mem_cons_self)
  | negSucc n => exact unsigned_toDigits (n + 1)

end JsonReader

namespace Json

mutual
def doc : Json → Doc
  | .null => .null
  | .bool b => .bool b
  | .num n => .num n.text
  | .str s => .str s
  | .arr vs => .arr (itemsDoc vs)
  | .obj ms => .obj (membersDoc ms)
termination_by structural v => v

def itemsDoc : List Json → List Doc
  | [] => []
  | v :: vs => doc v :: itemsDoc vs
termination_by structural vs => vs

def membersDoc : List (String × Json) → List (String × Doc)
  | [] => []
  | (k, v) :: ms => (k, doc v) :: membersDoc ms
termination_by structural ms => ms
end

mutual
def numbers : Json → List Number
  | .num n => [n]
  | .arr vs => itemsNumbers vs
  | .obj ms => membersNumbers ms
  | _ => []
termination_by structural v => v

def itemsNumbers : List Json → List Number
  | [] => []
  | v :: vs => numbers v ++ itemsNumbers vs
termination_by structural vs => vs

def membersNumbers : List (String × Json) → List Number
  | [] => []
  | (_, v) :: ms => numbers v ++ membersNumbers ms
termination_by structural ms => ms
end

def Numeric (v : Json) : Prop :=
  ∀ t ∈ v.doc.tokens, JsonReader.number t = true

end Json

namespace JsonReader

theorem kind_of_blank {c : Char} (h : blank c = true) : Json.kindOfHead c = none := by
  simp only [blank, Bool.or_eq_true, beq_iff_eq] at h
  rcases h with ((rfl | rfl) | rfl) | rfl
  all_goals decide

theorem skip_text (v : Json) (r : List Char) : skip (v.text ++ r) = v.text ++ r := by
  obtain ⟨c, t, ht, kind⟩ := v.text_head
  have plain : ¬ blank c = true := by
    intro h
    rw [kind_of_blank h] at kind
    cases kind
  rw [ht, List.cons_append, skip, List.dropWhile_cons_of_neg plain]

/-- The reader reads the text of `v` as `v` is written, and stops after it. -/
def ReadsText (v : Json) : Prop :=
  ∀ (fuel : Nat) (r : List Char), Ends r → v.Numeric → 3 * v.text.length ≤ fuel →
    value fuel (v.text ++ r) = some (v.doc, r)

theorem value_num {n : Number} (fuel : Nat) {r : List Char} (ends : Ends r)
    (numeric : number n.text = true) :
    value (fuel + 1) (n.text ++ r) = some (.num n.text, r) := by
  have token : (n.text ++ r).takeWhile numberChar = n.text :=
    takeWhile_number n.text_numeric ends
  have rest : (n.text ++ r).dropWhile numberChar = r := by
    have split := List.takeWhile_append_dropWhile (p := numberChar) (l := n.text ++ r)
    rw [token] at split
    exact List.append_cancel_left split
  have front : skip (n.text ++ r) = n.text ++ r := skip_text (.num n) r
  obtain ⟨c, t, ht⟩ := List.exists_cons_of_ne_nil n.text_ne_nil
  have head : numberChar c = true := n.text_numeric c (by simp [ht])
  have other : ∀ d s, numberChar d = false → n.text ++ r ≠ d :: s := by
    intro d s hd he
    rw [ht, List.cons_append, List.cons.injEq] at he
    rw [he.1, hd] at head
    cases head
  rw [value, front]
  split
  case h_7 => rw [token, rest, if_pos numeric]
  all_goals
    rename_i s he
    exact absurd he (other _ _ (by decide))

theorem itemsDoc_tokens {v : Json} {vs : List Json} (mem : v ∈ vs) {t : List Char}
    (h : t ∈ v.doc.tokens) : t ∈ Doc.itemsTokens (Json.itemsDoc vs) := by
  induction vs with
  | nil => cases mem
  | cons w vs ih =>
    rw [Json.itemsDoc, Doc.itemsTokens, List.mem_append]
    cases mem with
    | head => exact .inl h
    | tail _ mem => exact .inr (ih mem)

theorem membersDoc_tokens {k : String} {v : Json} {ms : List (String × Json)} (mem : (k, v) ∈ ms)
    {t : List Char} (h : t ∈ v.doc.tokens) : t ∈ Doc.membersTokens (Json.membersDoc ms) := by
  induction ms with
  | nil => cases mem
  | cons w ms ih =>
    rw [Json.membersDoc, Doc.membersTokens, List.mem_append]
    cases mem with
    | head => exact .inl h
    | tail _ mem => exact .inr (ih mem)

theorem skip_punctuation {c : Char} (h : blank c = false) (r : List Char) :
    skip (c :: r) = c :: r := by
  rw [skip, List.dropWhile_cons_of_neg (by simp [h])]

theorem text_length_pos (v : Json) : 0 < v.text.length := by
  obtain ⟨c, t, ht, -⟩ := v.text_head
  rw [ht]
  exact Nat.succ_pos _

/-- The items from `v` on. -/
theorem items_text {vs : List Json} {v : Json} {fuel : Nat} {r : List Char}
    (each : ∀ w ∈ v :: vs, ReadsText w) (numeric : ∀ w ∈ v :: vs, w.Numeric)
    (enough : 3 * (v.text ++ Json.itemsText vs).length + 1 ≤ fuel) :
    items fuel (v.text ++ (Json.itemsText vs ++ r)) = some (v.doc :: Json.itemsDoc vs, r) := by
  induction vs generalizing v fuel with
  | nil =>
    obtain ⟨fuel, rfl⟩ := Nat.exists_eq_succ_of_ne_zero (show fuel ≠ 0 by omega)
    have first := each v (by simp) fuel _ (Json.ends_itemsText [] r) (numeric v (by simp))
      (by simp at enough; omega)
    rw [items, first]
    rfl
  | cons w vs ih =>
    obtain ⟨fuel, rfl⟩ := Nat.exists_eq_succ_of_ne_zero (show fuel ≠ 0 by omega)
    have len := enough
    simp only [Json.itemsText, List.length_append, List.length_cons] at len
    have first := each v (by simp) fuel _ (Json.ends_itemsText (w :: vs) r) (numeric v (by simp))
      (by omega)
    have rest := @ih w fuel (fun u hu => each u (List.mem_cons_of_mem _ hu))
      (fun u hu => numeric u (List.mem_cons_of_mem _ hu)) (by simp; omega)
    rw [items, first]
    simp only [Json.itemsText, List.cons_append, List.append_assoc,
      skip_punctuation (c := ',') (by decide), rest]
    rfl

theorem quote_length (k : String) : 2 ≤ (quote k).length := by
  simp [quote]

theorem member_text {k : String} {v : Json} {fuel : Nat} {r : List Char} (reads : ReadsText v)
    (numeric : v.Numeric) (ends : Ends r) (enough : 3 * v.text.length + 1 ≤ fuel) :
    member fuel (quote k ++ ':' :: (v.text ++ r)) = some ((k, v.doc), r) := by
  obtain ⟨fuel, rfl⟩ := Nat.exists_eq_succ_of_ne_zero (show fuel ≠ 0 by omega)
  have body := reads fuel r ends numeric (by omega)
  simp only [quote, List.cons_append, List.append_assoc, List.nil_append]
  rw [member, skip_punctuation (by decide)]
  simp only [string_quote, skip_punctuation (c := ':') (by decide), body, Option.map_some,
    String.ofList_toList]

/-- The members from that of `k` on. -/
theorem members_text {ms : List (String × Json)} {k : String} {v : Json} {fuel : Nat}
    {r : List Char} (each : ∀ l w, (l, w) ∈ (k, v) :: ms → ReadsText w)
    (numeric : ∀ l w, (l, w) ∈ (k, v) :: ms → w.Numeric)
    (enough : 3 * (quote k ++ ':' :: v.text ++ Json.membersText ms).length ≤ fuel) :
    members fuel (quote k ++ ':' :: (v.text ++ (Json.membersText ms ++ r))) =
      some ((k, v.doc) :: Json.membersDoc ms, r) := by
  induction ms generalizing k v fuel with
  | nil =>
    have len := enough
    simp only [List.length_append, List.length_cons] at len
    obtain ⟨fuel, rfl⟩ := Nat.exists_eq_succ_of_ne_zero (show fuel ≠ 0 by omega)
    have first := @member_text k v fuel _ (each k v (by simp)) (numeric k v (by simp))
      (Json.ends_membersText [] r) (by have := quote_length k; omega)
    rw [members, first]
    rfl
  | cons m ms ih =>
    obtain ⟨l, w⟩ := m
    have len := enough
    simp only [Json.membersText, List.length_append, List.length_cons] at len
    obtain ⟨fuel, rfl⟩ := Nat.exists_eq_succ_of_ne_zero (show fuel ≠ 0 by omega)
    have first := @member_text k v fuel _ (each k v (by simp)) (numeric k v (by simp))
      (Json.ends_membersText ((l, w) :: ms) r) (by have := quote_length k; omega)
    have rest := @ih l w fuel
      (fun l' u hu => each l' u (List.mem_cons_of_mem _ hu))
      (fun l' u hu => numeric l' u (List.mem_cons_of_mem _ hu)) (by simp; omega)
    rw [members, first]
    simp only [Json.membersText, List.cons_append, List.append_assoc,
      skip_punctuation (c := ',') (by decide), rest]
    rfl

theorem reads_arr {vs : List Json} (each : ∀ v ∈ vs, ReadsText v) : ReadsText (.arr vs) := by
  intro fuel r _ numeric enough
  cases vs with
  | nil =>
    obtain ⟨fuel, rfl⟩ := Nat.exists_eq_succ_of_ne_zero
      (show fuel ≠ 0 by simp [Json.text] at enough; omega)
    rfl
  | cons v vs =>
    simp only [Json.text, List.cons_append, List.length_cons] at enough
    obtain ⟨fuel, rfl⟩ := Nat.exists_eq_succ_of_ne_zero (show fuel ≠ 0 by omega)
    have inner := @items_text _ _ fuel r each
      (fun w hw t ht => numeric t (itemsDoc_tokens hw ht)) (by omega)
    have front : ∀ s, skip (v.text ++ (Json.itemsText vs ++ r)) ≠ ']' :: s := by
      intro s
      rw [skip_text]
      exact v.text_append_ne_close _ s
    simp only [Json.text, List.cons_append, List.append_assoc]
    rw [value, skip_punctuation (by decide)]
    -- `front` rules the empty array out
    simp only
    rw [inner]
    rfl

theorem reads_obj {ms : List (String × Json)} (each : ∀ k v, (k, v) ∈ ms → ReadsText v) :
    ReadsText (.obj ms) := by
  intro fuel r _ numeric enough
  cases ms with
  | nil =>
    obtain ⟨fuel, rfl⟩ := Nat.exists_eq_succ_of_ne_zero
      (show fuel ≠ 0 by simp [Json.text] at enough; omega)
    rfl
  | cons m ms =>
    obtain ⟨k, v⟩ := m
    simp only [Json.text, List.cons_append, List.length_cons] at enough
    obtain ⟨fuel, rfl⟩ := Nat.exists_eq_succ_of_ne_zero (show fuel ≠ 0 by omega)
    have inner := @members_text _ _ _ fuel r each
      (fun l w hw t ht => numeric t (membersDoc_tokens hw ht)) (by simp at enough ⊢; omega)
    simp only [Json.text, List.cons_append, List.append_assoc]
    rw [value, skip_punctuation (by decide)]
    simp only
    split
    case h_1 s close =>
      rw [quote, List.cons_append, List.cons_append, skip_punctuation (by decide)] at close
      cases close
    case h_2 =>
      rw [inner]
      rfl

theorem reads_text (v : Json) : ReadsText v := by
  induction v using Json.induction with
  | null =>
    intro fuel r _ _ enough
    obtain ⟨fuel, rfl⟩ := Nat.exists_eq_succ_of_ne_zero
      (show fuel ≠ 0 by simp [Json.text] at enough; omega)
    rfl
  | bool b =>
    intro fuel r _ _ enough
    obtain ⟨fuel, rfl⟩ := Nat.exists_eq_succ_of_ne_zero
      (show fuel ≠ 0 by cases b <;> simp [Json.text] at enough <;> omega)
    cases b <;> rfl
  | num n =>
    intro fuel r ends numeric enough
    have := text_length_pos (.num n)
    obtain ⟨fuel, rfl⟩ := Nat.exists_eq_succ_of_ne_zero (show fuel ≠ 0 by omega)
    exact value_num fuel ends (numeric n.text (by simp [Json.doc, Doc.tokens]))
  | str s =>
    intro fuel r _ _ enough
    have := text_length_pos (.str s)
    obtain ⟨fuel, rfl⟩ := Nat.exists_eq_succ_of_ne_zero (show fuel ≠ 0 by omega)
    simp only [Json.text, quote, List.cons_append, List.append_assoc, List.nil_append]
    rw [value, skip_punctuation (by decide)]
    simp only [string_quote, Option.map_some, String.ofList_toList, Json.doc]
  | arr vs each => exact reads_arr each
  | obj ms each => exact reads_obj each

theorem read_text {v : Json} (numeric : v.Numeric) : read v.text = some v.doc := by
  have whole := reads_text v (3 * v.text.length + 3) [] (by simp [Ends]) numeric (by omega)
  rw [List.append_nil] at whole
  rw [read, whole]
  rfl

end JsonReader

namespace Json

theorem membersDoc_eq_map (ms : List (String × Json)) :
    membersDoc ms = ms.map fun m => (m.1, m.2.doc) := by
  induction ms with
  | nil => rfl
  | cons m ms ih => rw [membersDoc, ih, List.map_cons]

theorem itemsNumbers_eq_flatMap (vs : List Json) : itemsNumbers vs = vs.flatMap numbers := by
  induction vs with
  | nil => rfl
  | cons v vs ih => rw [itemsNumbers, ih, List.flatMap_cons]

theorem membersNumbers_eq_flatMap (ms : List (String × Json)) :
    membersNumbers ms = ms.flatMap fun m => m.2.numbers := by
  induction ms with
  | nil => rfl
  | cons m ms ih => rw [membersNumbers, ih, List.flatMap_cons]

theorem doc_tokens (v : Json) : v.doc.tokens = v.numbers.map Number.text := by
  induction v using Json.induction with
  | null | bool b | num n | str s => rfl
  | arr vs ih =>
    have items : Doc.itemsTokens (itemsDoc vs) = (itemsNumbers vs).map Number.text := by
      induction vs with
      | nil => rfl
      | cons v vs rest =>
        rw [itemsDoc, Doc.itemsTokens, itemsNumbers, List.map_append, ih v (by simp),
          rest fun w hw => ih w (by simp [hw])]
    rw [doc, Doc.tokens, numbers, items]
  | obj ms ih =>
    have members : Doc.membersTokens (membersDoc ms) = (membersNumbers ms).map Number.text := by
      induction ms with
      | nil => rfl
      | cons m ms rest =>
        obtain ⟨k, v⟩ := m
        rw [membersDoc, Doc.membersTokens, membersNumbers, List.map_append, ih k v (by simp),
          rest fun l w hw => ih l w (by simp [hw])]
    rw [doc, Doc.tokens, numbers, members]

theorem doc_unique {v : Json} (h : v.UniqueKeys) : v.doc.UniqueKeys := by
  induction v using Json.induction with
  | null | bool b | num n | str s => trivial
  | arr vs ih =>
    rw [UniqueKeys] at h
    rw [doc, Doc.UniqueKeys]
    induction vs with
    | nil => trivial
    | cons v vs rest =>
      exact ⟨ih v (by simp) h.1, rest (fun w hw => ih w (by simp [hw])) h.2⟩
  | obj ms ih =>
    rw [UniqueKeys] at h
    rw [doc, Doc.UniqueKeys]
    have keys : (membersDoc ms).map Prod.fst = ms.map Prod.fst := by
      rw [membersDoc_eq_map, List.map_map]
      rfl
    refine ⟨keys ▸ h.1, ?_⟩
    have members := h.2
    clear h keys
    induction ms with
    | nil => trivial
    | cons m ms rest =>
      obtain ⟨k, v⟩ := m
      exact ⟨ih k v (by simp) members.1,
        rest (fun l w hw => ih l w (by simp [hw])) members.2⟩

theorem doc_depth (v : Json) : v.doc.depth = v.depth := by
  induction v using Json.induction with
  | null | bool b | num n | str s => rfl
  | arr vs ih =>
    have items : Doc.itemsDepth (itemsDoc vs) = itemsDepth vs := by
      induction vs with
      | nil => rfl
      | cons v vs rest =>
        rw [itemsDoc, Doc.itemsDepth, itemsDepth, ih v (by simp),
          rest fun w hw => ih w (by simp [hw])]
    rw [doc, Doc.depth, depth, items]
  | obj ms ih =>
    have members : Doc.membersDepth (membersDoc ms) = membersDepth ms := by
      induction ms with
      | nil => rfl
      | cons m ms rest =>
        obtain ⟨k, v⟩ := m
        rw [membersDoc, Doc.membersDepth, membersDepth, ih k v (by simp),
          rest fun l w hw => ih l w (by simp [hw])]
    rw [doc, Doc.depth, depth, members]

end Json
end Kit
