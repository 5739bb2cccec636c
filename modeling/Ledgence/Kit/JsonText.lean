import Ledgence.Kit.Json
import Mathlib.Tactic.IntervalCases

/-! Compact JSON text is unambiguous: a value is determined by any text that starts with
its encoding and does not go on inside a number. -/
namespace Kit

def hexValue (c : Char) : Nat :=
  if c.toNat < 58 then c.toNat - 48 else c.toNat - 87

def unescape : List Char → Option (Char × List Char)
  | '\\' :: 'u' :: '0' :: '0' :: a :: b :: r =>
    some (Char.ofNat (16 * hexValue a + hexValue b), r)
  | '\\' :: 'b' :: r => some (Char.ofNat 8, r)
  | '\\' :: 't' :: r => some (Char.ofNat 9, r)
  | '\\' :: 'n' :: r => some (Char.ofNat 10, r)
  | '\\' :: 'f' :: r => some (Char.ofNat 12, r)
  | '\\' :: 'r' :: r => some (Char.ofNat 13, r)
  | '\\' :: c :: r => some (c, r)
  | c :: r => some (c, r)
  | [] => none

theorem char_eq_ofNat {c : Char} {n : Nat} (h : c.toNat = n) : c = Char.ofNat n := by
  rw [← h, Char.ofNat_toNat]

theorem unescape_hex (n : Nat) (h : n < 32) (r : List Char) :
    unescape ('\\' :: 'u' :: '0' :: '0' :: hexDigit (n / 16) :: hexDigit (n % 16) :: r) =
      some (Char.ofNat n, r) := by
  have digits : 16 * hexValue (hexDigit (n / 16)) + hexValue (hexDigit (n % 16)) = n := by
    interval_cases n <;> decide
  simp only [unescape, digits]

theorem unescape_escape (c : Char) (r : List Char) :
    unescape (escape c ++ r) = some (c, r) := by
  unfold escape
  split_ifs with hq hb h8 h9 h10 h12 h13 h32
  · subst hq; rfl
  · subst hb; rfl
  · rw [char_eq_ofNat h8]; rfl
  · rw [char_eq_ofNat h9]; rfl
  · rw [char_eq_ofNat h10]; rfl
  · rw [char_eq_ofNat h12]; rfl
  · rw [char_eq_ofNat h13]; rfl
  · have hex := unescape_hex c.toNat h32 r
    rwa [Char.ofNat_toNat] at hex
  · have plain : c ≠ '\\' := hb
    unfold unescape
    split
    all_goals simp_all

theorem escape_head (c : Char) : ∃ d t, escape c = d :: t ∧ d ≠ '"' := by
  unfold escape
  split_ifs with hq hb h8 h9 h10 h12 h13 h32
  all_goals first
    | exact ⟨'\\', _, rfl, by decide⟩
    | exact ⟨c, [], rfl, hq⟩

theorem escapes_unambiguous {l m r s : List Char}
    (h : l.flatMap escape ++ '"' :: r = m.flatMap escape ++ '"' :: s) : l = m ∧ r = s := by
  induction l generalizing m with
  | nil =>
    cases m with
    | nil => simpa using h
    | cons d m =>
      obtain ⟨e, t, he, hne⟩ := escape_head d
      simp only [List.flatMap_nil, List.flatMap_cons, he, List.nil_append, List.cons_append,
        List.cons.injEq] at h
      exact absurd h.1.symm hne
  | cons c l ih =>
    cases m with
    | nil =>
      obtain ⟨e, t, he, hne⟩ := escape_head c
      simp only [List.flatMap_nil, List.flatMap_cons, he, List.nil_append, List.cons_append,
        List.cons.injEq] at h
      exact absurd h.1 hne
    | cons d m =>
      simp only [List.flatMap_cons, List.append_assoc] at h
      have read := congrArg unescape h
      rw [unescape_escape, unescape_escape] at read
      simp only [Option.some.injEq, Prod.mk.injEq] at read
      obtain ⟨rfl, rest⟩ := read
      obtain ⟨rfl, rfl⟩ := ih rest
      exact ⟨rfl, rfl⟩

theorem quote_unambiguous {a b : String} {r s : List Char}
    (h : quote a ++ r = quote b ++ s) : a = b ∧ r = s := by
  simp only [quote, List.cons_append, List.append_assoc, List.nil_append, List.cons.injEq,
    true_and] at h
  obtain ⟨same, rest⟩ := escapes_unambiguous h
  exact ⟨String.toList_injective same, rest⟩

/- Numbers. -/

theorem numberChar_of_isDigit {c : Char} (h : c.isDigit = true) : numberChar c = true := by
  simp [numberChar, h]

theorem isDigit_of_mem_toDigits {n : Nat} {c : Char} (h : c ∈ Nat.toDigits 10 n) :
    c.isDigit = true :=
  Nat.isDigit_of_mem_toDigits (by decide) (by decide) h

theorem Number.text_numeric (n : Number) : ∀ c ∈ n.text, numberChar c = true := by
  intro c hc
  match n with
  | .int (.ofNat k) => exact numberChar_of_isDigit (isDigit_of_mem_toDigits hc)
  | .int (.negSucc k) =>
    simp only [Number.text, List.mem_cons] at hc
    obtain rfl | hc := hc
    · decide
    · exact numberChar_of_isDigit (isDigit_of_mem_toDigits hc)
  | .float f => exact f.numeric c hc

theorem Number.text_ne_nil (n : Number) : n.text ≠ [] := by
  match n with
  | .int (.ofNat k) => exact Nat.toDigits_ne_nil
  | .int (.negSucc k) => simp [Number.text]
  | .float f =>
    intro h
    have : f.text = [] := h
    have := f.fractional
    simp_all

theorem toDigits_injective {m n : Nat} (h : Nat.toDigits 10 m = Nat.toDigits 10 n) : m = n := by
  have read := congrArg (fun t => Nat.ofDigitChars 10 t 0) h
  simpa using read

theorem FloatText.ne_intText (f : FloatText) (i : Int) : f.text ≠ (Number.int i).text := by
  intro h
  have plain : ∀ c ∈ (Number.int i).text, c ≠ '.' ∧ c ≠ 'e' := by
    intro c hc
    have digit : ∀ k : Nat, c ∈ Nat.toDigits 10 k → c ≠ '.' ∧ c ≠ 'e' := by
      intro k hk
      have := isDigit_of_mem_toDigits hk
      constructor <;> (rintro rfl; revert this; decide)
    match i with
    | .ofNat k => exact digit k hc
    | .negSucc k =>
      simp only [Number.text, List.mem_cons] at hc
      obtain rfl | hc := hc
      · decide
      · exact digit (k + 1) hc
  obtain hp | he := f.fractional
  · exact (plain _ (h ▸ hp)).1 rfl
  · exact (plain _ (h ▸ he)).2 rfl

theorem minus_not_mem_toDigits (n : Nat) : '-' ∉ Nat.toDigits 10 n := by
  intro h
  have := isDigit_of_mem_toDigits h
  revert this
  decide

theorem Number.text_injective {m n : Number} (h : m.text = n.text) : m = n := by
  match m, n with
  | .int (.ofNat i), .int (.ofNat j) =>
    simp only [Number.text] at h
    rw [toDigits_injective h]
  | .int (.negSucc i), .int (.negSucc j) =>
    simp only [Number.text, List.cons.injEq, true_and] at h
    have := toDigits_injective h
    simp_all
  | .int (.ofNat i), .int (.negSucc j) =>
    simp only [Number.text] at h
    exact absurd (h ▸ List.mem_cons_self) (minus_not_mem_toDigits i)
  | .int (.negSucc i), .int (.ofNat j) =>
    simp only [Number.text] at h
    exact absurd (h ▸ List.mem_cons_self) (minus_not_mem_toDigits j)
  | .float f, .float g =>
    have : f = g := by
      cases f; cases g; simp_all [Number.text]
    rw [this]
  | .float f, .int i => exact absurd h (f.ne_intText i)
  | .int i, .float f => exact absurd h.symm (f.ne_intText i)

def Ends (r : List Char) : Prop :=
  ∀ c ∈ r.head?, numberChar c = false

theorem takeWhile_number {t r : List Char} (all : ∀ c ∈ t, numberChar c = true) (ends : Ends r) :
    (t ++ r).takeWhile numberChar = t := by
  rw [List.takeWhile_append_of_pos all]
  cases r with
  | nil => simp
  | cons c r =>
    have : numberChar c = false := ends c (by simp)
    simp [this]

theorem Number.unambiguous {m n : Number} {r s : List Char} (hr : Ends r) (hs : Ends s)
    (h : m.text ++ r = n.text ++ s) : m = n ∧ r = s := by
  have same : m.text = n.text := by
    rw [← takeWhile_number m.text_numeric hr, h, takeWhile_number n.text_numeric hs]
  obtain rfl := Number.text_injective same
  exact ⟨rfl, List.append_cancel_left h⟩

namespace Json

theorem induction {P : Json → Prop} (null : P .null) (bool : ∀ b, P (.bool b))
    (num : ∀ n, P (.num n)) (str : ∀ s, P (.str s))
    (arr : ∀ vs, (∀ v ∈ vs, P v) → P (.arr vs))
    (obj : ∀ ms, (∀ k v, (k, v) ∈ ms → P v) → P (.obj ms)) (v : Json) : P v := by
  refine Json.rec (motive_1 := P) (motive_2 := fun vs => ∀ v ∈ vs, P v)
    (motive_3 := fun ms => ∀ k v, (k, v) ∈ ms → P v) (motive_4 := fun m => P m.2)
    null bool num str arr obj ?_ ?_ ?_ ?_ ?_ v
  · simp
  · intro v vs hv hvs w hw
    obtain rfl | hw := List.mem_cons.mp hw
    · exact hv
    · exact hvs w hw
  · simp
  · intro m ms hm hms k w hw
    obtain rfl | hw := List.mem_cons.mp hw
    · exact hm
    · exact hms k w hw
  · exact fun k v hv => hv

inductive Kind where
  | null | true | false | num | str | arr | obj
  deriving DecidableEq

def kind : Json → Kind
  | .null => .null
  | .bool .true => .true
  | .bool .false => .false
  | .num _ => .num
  | .str _ => .str
  | .arr _ => .arr
  | .obj _ => .obj

def kindOfHead (c : Char) : Option Kind :=
  if numberChar c then some .num
  else if c = '"' then some .str
  else if c = '[' then some .arr
  else if c = '{' then some .obj
  else if c = 't' then some .true
  else if c = 'f' then some .false
  else if c = 'n' then some .null
  else none

theorem text_head (v : Json) : ∃ c t, v.text = c :: t ∧ kindOfHead c = some v.kind := by
  match v with
  | .null => exact ⟨_, _, rfl, by decide⟩
  | .bool .true => exact ⟨_, _, rfl, by decide⟩
  | .bool .false => exact ⟨_, _, rfl, by decide⟩
  | .num n =>
    obtain ⟨c, t, ht⟩ := List.exists_cons_of_ne_nil n.text_ne_nil
    have numeric := n.text_numeric c (by simp [ht])
    exact ⟨c, t, by simpa [text] using ht, by simp [kindOfHead, numeric, kind]⟩
  | .str s => exact ⟨'"', _, rfl, rfl⟩
  | .arr [] => exact ⟨'[', _, rfl, rfl⟩
  | .arr (w :: ws) => exact ⟨'[', _, rfl, rfl⟩
  | .obj [] => exact ⟨'{', _, rfl, rfl⟩
  | .obj ((k, w) :: ms) => exact ⟨'{', _, rfl, rfl⟩

theorem kind_eq_of_text {v w : Json} {r s : List Char} (h : v.text ++ r = w.text ++ s) :
    v.kind = w.kind := by
  obtain ⟨c, t, hv, hc⟩ := v.text_head
  obtain ⟨d, t', hw, hd⟩ := w.text_head
  rw [hv, hw, List.cons_append, List.cons_append, List.cons.injEq] at h
  rw [h.1, hd, Option.some.injEq] at hc
  exact hc.symm

theorem text_ne_close (v : Json) (r : List Char) : v.text ≠ ']' :: r := by
  intro h
  obtain ⟨c, t, hv, hc⟩ := v.text_head
  rw [hv, List.cons.injEq] at h
  rw [h.1] at hc
  exact absurd hc (by simp [kindOfHead, numberChar])

/-- `v` is the only value whose text can start what starts with the text of `v`. -/
def Unambiguous (v : Json) : Prop :=
  ∀ (w : Json) (r s : List Char), Ends r → Ends s → v.text ++ r = w.text ++ s → v = w ∧ r = s

theorem ends_itemsText (vs : List Json) (r : List Char) : Ends (itemsText vs ++ r) := by
  cases vs with
  | nil => intro c hc; simp [itemsText] at hc; subst hc; decide
  | cons v vs => intro c hc; simp [itemsText] at hc; subst hc; decide

theorem ends_membersText (ms : List (String × Json)) (r : List Char) :
    Ends (membersText ms ++ r) := by
  cases ms with
  | nil => intro c hc; simp [membersText] at hc; subst hc; decide
  | cons m ms => intro c hc; simp [membersText] at hc; subst hc; decide

theorem itemsText_unambiguous {vs ws : List Json} {r s : List Char}
    (each : ∀ v ∈ vs, Unambiguous v) (h : itemsText vs ++ r = itemsText ws ++ s) :
    vs = ws ∧ r = s := by
  induction vs generalizing ws with
  | nil =>
    cases ws with
    | nil => simpa [itemsText] using h
    | cons w ws => simp [itemsText] at h
  | cons v vs ih =>
    cases ws with
    | nil => simp [itemsText] at h
    | cons w ws =>
      simp only [itemsText, List.cons_append, List.append_assoc, List.cons.injEq, true_and] at h
      obtain ⟨rfl, rest⟩ := each v (by simp) w _ _ (ends_itemsText _ _) (ends_itemsText _ _) h
      obtain ⟨rfl, rfl⟩ := ih (fun u hu => each u (by simp [hu])) rest
      exact ⟨rfl, rfl⟩

theorem membersText_unambiguous {ms ns : List (String × Json)} {r s : List Char}
    (each : ∀ k v, (k, v) ∈ ms → Unambiguous v)
    (h : membersText ms ++ r = membersText ns ++ s) : ms = ns ∧ r = s := by
  induction ms generalizing ns with
  | nil =>
    cases ns with
    | nil => simpa [membersText] using h
    | cons n ns => simp [membersText] at h
  | cons m ms ih =>
    obtain ⟨k, v⟩ := m
    cases ns with
    | nil => simp [membersText] at h
    | cons n ns =>
      obtain ⟨l, w⟩ := n
      simp only [membersText, List.cons_append, List.append_assoc, List.cons.injEq,
        true_and] at h
      obtain ⟨rfl, colon⟩ := quote_unambiguous h
      have value := (List.cons.inj colon).2
      obtain ⟨rfl, rest⟩ :=
        each k v (by simp) w _ _ (ends_membersText _ _) (ends_membersText _ _) value
      obtain ⟨rfl, rfl⟩ := ih (fun l u hu => each l u (by simp [hu])) rest
      exact ⟨rfl, rfl⟩

theorem text_append_ne_close (v : Json) (t r : List Char) : v.text ++ t ≠ ']' :: r := by
  obtain ⟨c, u, hv, -⟩ := v.text_head
  intro h
  rw [hv, List.cons_append, List.cons.injEq] at h
  exact v.text_ne_close u (by rw [hv, h.1])

theorem arr_unambiguous {vs : List Json} (each : ∀ v ∈ vs, Unambiguous v) :
    Unambiguous (.arr vs) := by
  intro w r s _ _ h
  have kinds := kind_eq_of_text h
  match w with
  | .arr ws =>
    match vs, ws with
    | [], [] => simpa [text] using h
    | [], w :: ws =>
      simp only [text, List.cons_append, List.append_assoc, List.nil_append, List.cons.injEq,
        true_and] at h
      exact absurd h.symm (w.text_append_ne_close _ _)
    | v :: vs, [] =>
      simp only [text, List.cons_append, List.append_assoc, List.nil_append, List.cons.injEq,
        true_and] at h
      exact absurd h (v.text_append_ne_close _ _)
    | v :: vs, w :: ws =>
      simp only [text, List.cons_append, List.append_assoc, List.cons.injEq, true_and] at h
      obtain ⟨rfl, rest⟩ := each v (by simp) w _ _ (ends_itemsText _ _) (ends_itemsText _ _) h
      obtain ⟨rfl, rfl⟩ := itemsText_unambiguous (fun u hu => each u (by simp [hu])) rest
      exact ⟨rfl, rfl⟩
  | .null | .bool .true | .bool .false | .num _ | .str _ | .obj _ => simp [kind] at kinds

theorem obj_unambiguous {ms : List (String × Json)}
    (each : ∀ k v, (k, v) ∈ ms → Unambiguous v) : Unambiguous (.obj ms) := by
  intro w r s _ _ h
  have kinds := kind_eq_of_text h
  match w with
  | .obj ns =>
    match ms, ns with
    | [], [] => simpa [text] using h
    | [], (k, w) :: ns => simp [text, quote] at h
    | (k, v) :: ms, [] => simp [text, quote] at h
    | (k, v) :: ms, (l, w) :: ns =>
      simp only [text, List.cons_append, List.append_assoc, List.cons.injEq, true_and] at h
      obtain ⟨rfl, colon⟩ := quote_unambiguous h
      have value := (List.cons.inj colon).2
      obtain ⟨rfl, rest⟩ :=
        each k v (by simp) w _ _ (ends_membersText _ _) (ends_membersText _ _) value
      obtain ⟨rfl, rfl⟩ := membersText_unambiguous (fun l u hu => each l u (by simp [hu])) rest
      exact ⟨rfl, rfl⟩
  | .null | .bool .true | .bool .false | .num _ | .str _ | .arr _ => simp [kind] at kinds

theorem unambiguous (v : Json) : Unambiguous v := by
  induction v using Json.induction with
  | null | bool b =>
    intro w r s _ _ h
    have kinds := kind_eq_of_text h
    match w with
    | .null | .bool .true | .bool .false =>
      try cases b
      all_goals simp_all [kind, text]
    | .num _ | .str _ | .arr _ | .obj _ =>
      try cases b
      all_goals simp [kind] at kinds
  | num n =>
    intro w r s hr hs h
    have kinds := kind_eq_of_text h
    match w with
    | .num m =>
      simp only [text] at h
      obtain ⟨rfl, rfl⟩ := Number.unambiguous hr hs h
      exact ⟨rfl, rfl⟩
    | .null | .bool .true | .bool .false | .str _ | .arr _ | .obj _ => simp [kind] at kinds
  | str a =>
    intro w r s _ _ h
    have kinds := kind_eq_of_text h
    match w with
    | .str b =>
      simp only [text] at h
      obtain ⟨rfl, rfl⟩ := quote_unambiguous h
      exact ⟨rfl, rfl⟩
    | .null | .bool .true | .bool .false | .num _ | .arr _ | .obj _ => simp [kind] at kinds
  | arr vs each => exact arr_unambiguous each
  | obj ms each => exact obj_unambiguous each

theorem text_injective : Function.Injective text := by
  intro v w h
  have ends : Ends [] := by simp [Ends]
  exact (unambiguous v w [] [] ends ends (by rw [h])).1

end Json
end Kit
