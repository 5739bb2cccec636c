import Ledgence.Kit.JsonObject
import Ledgence.Kit.JsonReads
import Ledgence.Kit.JsonText
import Ledgence.Kit.Utf8

/-! Encoders whose values can be told apart from their JSON, whatever order the members of an
object are listed in. -/
namespace Kit
namespace Json

/-- Values whose encodings agree are related; `Eq` for an encoder that loses nothing. -/
structure Faithful {α : Type} (encode : α → Json) (related : α → α → Prop) : Prop where
  unique : ∀ a, UniqueKeys (encode a)
  related : ∀ a b, Same (encode a) (encode b) → related a b

@[simp] theorem uniqueKeys_str (s : String) : UniqueKeys (.str s) := trivial
@[simp] theorem uniqueKeys_nat (n : Nat) : UniqueKeys (.nat n) := trivial
@[simp] theorem uniqueKeys_bool (b : Bool) : UniqueKeys (.bool b) := trivial

section Faithful
variable {α β : Type} {encode : α → Json}

theorem Faithful.str : Faithful Json.str Eq :=
  ⟨fun _ => trivial, fun a b h => by simpa [Same, eq_comm] using h⟩

theorem Faithful.nat : Faithful Json.nat Eq :=
  ⟨fun _ => trivial, fun a b h => by simpa [Json.nat, Same, eq_comm] using h⟩

theorem Faithful.bool : Faithful Json.bool Eq :=
  ⟨fun _ => trivial, fun a b h => by simpa [Same, eq_comm] using h⟩

theorem Faithful.name {name : α → String} (injective : Function.Injective name) :
    Faithful (fun a => Json.str (name a)) Eq :=
  ⟨fun _ => trivial, fun _ _ h => injective (Faithful.str.related _ _ h)⟩

theorem Faithful.value : Faithful Value.json fun a b => Same a.json b.json :=
  ⟨fun v => v.unique, fun _ _ h => h⟩

theorem Faithful.arr (items : Faithful encode Eq) :
    Faithful (fun as : List α => Json.arr (as.map encode)) Eq := by
  constructor
  · intro as
    rw [UniqueKeys, itemsUnique_iff]
    simp only [List.forall_mem_map]
    exact fun a _ => items.unique a
  · intro as bs h
    induction as generalizing bs with
    | nil => simpa [Same, SameItems, eq_comm] using h
    | cons a as ih =>
      cases bs with
      | nil => simp [Same, SameItems] at h
      | cons b bs =>
        simp only [List.map_cons, Same, SameItems] at h
        rw [items.related a b h.1, ih bs (by simpa [Same] using h.2)]

theorem Faithful.opt (some : Faithful encode Eq) (notNull : ∀ a, encode a ≠ .null) :
    Faithful (fun o : Option α => Json.opt (o.map encode)) Eq := by
  constructor
  · intro o
    cases o with
    | none => trivial
    | some a => exact some.unique a
  · intro o p h
    cases o with
    | none =>
      cases p with
      | none => rfl
      | some b =>
        simp only [Json.opt, Option.map_none, Option.getD_none, Same, Option.map_some,
          Option.getD_some] at h
        exact absurd h (notNull b)
    | some a =>
      cases p with
      | none =>
        obtain ⟨ms, ns, -, isObj⟩ | ⟨vs, ws, -, isArr⟩ | same := h.shape
        · simp [Json.opt] at isObj
        · simp [Json.opt] at isArr
        · exact absurd same (notNull a)
      | some b => rw [some.related a b h]

def FieldsAgree (k : String) (fs gs : List (String × Option Json)) : Prop :=
  Option.Rel Same (fs.lookup k).join (gs.lookup k).join

structure Distinct (fields : List (String × Option Json)) : Prop where
  keys : (fields.map Prod.fst).Nodup
  values : ∀ f ∈ fields, ∀ v, f.2 = some v → UniqueKeys v

theorem Distinct.unique {fields : List (String × Option Json)} (h : Distinct fields) :
    UniqueKeys (Json.object fields) :=
  uniqueKeys_object h.keys fun k v mem => h.values (k, some v) mem v rfl

theorem Same.fields {fs gs : List (String × Option Json)}
    (h : Same (Json.object fs) (Json.object gs)) (left : Distinct fs) (right : Distinct gs)
    (k : String) : FieldsAgree k fs gs := by
  have rel := h.get left.unique right.unique k
  rwa [get_object left.keys, get_object right.keys] at rel

theorem Faithful.object {fields : α → List (String × Option Json)} {related : α → α → Prop}
    (distinct : ∀ a, Distinct (fields a))
    (agree : ∀ a b, (∀ k, FieldsAgree k (fields a) (fields b)) → related a b) :
    Faithful (fun a => Json.object (fields a)) related :=
  ⟨fun a => (distinct a).unique,
    fun a b h => agree a b fun k => h.fields (distinct a) (distinct b) k⟩

theorem lookup_middle {k : String} {before fields after : List (String × Option Json)}
    (notBefore : k ∉ before.map Prod.fst) (inside : k ∈ fields.map Prod.fst) :
    (before ++ fields ++ after).lookup k = fields.lookup k := by
  have absent : before.lookup k = none := by
    rw [List.lookup_eq_none_iff]
    intro f hf
    have : k ≠ f.1 := fun e => notBefore (List.mem_map.mpr ⟨f, hf, e.symm⟩)
    simpa using this
  have present : fields.lookup k ≠ none := by
    rw [ne_eq, List.lookup_eq_none_iff]
    intro none
    obtain ⟨f, hf, rfl⟩ := List.mem_map.mp inside
    simpa using none f hf
  obtain ⟨o, ho⟩ := Option.ne_none_iff_exists'.mp present
  rw [List.lookup_append, List.lookup_append, absent, ho]
  rfl

theorem FieldsAgree.middle {k : String}
    {before fields after before' fields' after' : List (String × Option Json)}
    (h : FieldsAgree k (before ++ fields ++ after) (before' ++ fields' ++ after'))
    (notBefore : k ∉ before.map Prod.fst) (notBefore' : k ∉ before'.map Prod.fst)
    (inside : k ∈ fields.map Prod.fst) (inside' : k ∈ fields'.map Prod.fst) :
    FieldsAgree k fields fields' := by
  rwa [FieldsAgree, lookup_middle notBefore inside, lookup_middle notBefore' inside'] at h

theorem FieldsAgree.required {related : α → α → Prop} (faithful : Faithful encode related)
    {k : String} {fs gs : List (String × Option Json)} (h : FieldsAgree k fs gs) {a b : α}
    (left : (fs.lookup k).join = some (encode a)) (right : (gs.lookup k).join = some (encode b)) :
    related a b := by
  rw [FieldsAgree, left, right] at h
  cases h with
  | some same => exact faithful.related a b same

theorem FieldsAgree.optional (faithful : Faithful encode Eq)
    {k : String} {fs gs : List (String × Option Json)} (h : FieldsAgree k fs gs) {o p : Option α}
    (left : (fs.lookup k).join = o.map encode) (right : (gs.lookup k).join = p.map encode) :
    o = p := by
  rw [FieldsAgree, left, right] at h
  cases o with
  | none =>
    cases p with
    | none => rfl
    | some b => cases h
  | some a =>
    cases p with
    | none => cases h
    | some b =>
      cases h with
      | some same => rw [faithful.related a b same]

end Faithful
end Json
end Kit

/-! A compact text has no control character, and its bytes no control byte. -/
namespace Kit
namespace Json

theorem hexDigit_printable : ∀ n < 16, 32 ≤ (hexDigit n).toNat := by decide

theorem escape_printable (c : Char) : ∀ d ∈ escape c, 32 ≤ d.toNat := by
  intro d mem
  unfold escape at mem
  split_ifs at mem
  all_goals simp only [List.mem_cons, List.not_mem_nil, or_false] at mem
  · obtain rfl | rfl := mem <;> decide
  · obtain rfl | rfl := mem <;> decide
  · obtain rfl | rfl := mem <;> decide
  · obtain rfl | rfl := mem <;> decide
  · obtain rfl | rfl := mem <;> decide
  · obtain rfl | rfl := mem <;> decide
  · obtain rfl | rfl := mem <;> decide
  · obtain rfl | rfl | rfl | rfl | rfl | rfl := mem
    · decide
    · decide
    · decide
    · decide
    · exact hexDigit_printable _ (by omega)
    · exact hexDigit_printable _ (by omega)
  · subst mem
    omega

theorem quote_printable (s : String) : ∀ c ∈ quote s, 32 ≤ c.toNat := by
  intro c mem
  simp only [quote, List.cons_append, List.mem_cons, List.mem_append, List.mem_flatMap,
    List.not_mem_nil, or_false] at mem
  obtain rfl | ⟨d, _, inside⟩ | rfl := mem
  · decide
  · exact escape_printable d c inside
  · decide

theorem numberChar_printable {c : Char} (h : numberChar c = true) : 32 ≤ c.toNat := by
  simp only [numberChar, Bool.or_eq_true, beq_iff_eq, Char.isDigit, Bool.and_eq_true,
    decide_eq_true_eq] at h
  obtain ((((⟨low, _⟩ | rfl) | rfl) | rfl) | rfl) | rfl := h
  · have : (48 : Nat) ≤ c.toNat := low
    omega
  all_goals decide

theorem itemsText_printable {vs : List Json} (each : ∀ v ∈ vs, ∀ c ∈ v.text, 32 ≤ c.toNat) :
    ∀ c ∈ itemsText vs, 32 ≤ c.toNat := by
  induction vs with
  | nil =>
    intro c mem
    obtain rfl : c = ']' := by simpa [itemsText] using mem
    decide
  | cons v vs ih =>
    intro c mem
    simp only [itemsText, List.cons_append, List.mem_cons, List.mem_append] at mem
    obtain rfl | here | rest := mem
    · decide
    · exact each v (by simp) c here
    · exact ih (fun w mem => each w (by simp [mem])) c rest

theorem membersText_printable {ms : List (String × Json)}
    (each : ∀ k v, (k, v) ∈ ms → ∀ c ∈ v.text, 32 ≤ c.toNat) :
    ∀ c ∈ membersText ms, 32 ≤ c.toNat := by
  induction ms with
  | nil =>
    intro c mem
    obtain rfl : c = '}' := by simpa [membersText] using mem
    decide
  | cons m ms ih =>
    obtain ⟨k, v⟩ := m
    intro c mem
    simp only [membersText, List.cons_append, List.mem_cons, List.mem_append] at mem
    obtain rfl | (key | rfl | here) | rest := mem
    · decide
    · exact quote_printable k c key
    · decide
    · exact each k v (by simp) c here
    · exact ih (fun l w mem => each l w (by simp [mem])) c rest

theorem text_printable (v : Json) : ∀ c ∈ v.text, 32 ≤ c.toNat := by
  induction v using Json.induction with
  | null =>
    intro c mem
    simp only [text, List.mem_cons, List.not_mem_nil, or_false] at mem
    obtain rfl | rfl | rfl | rfl := mem <;> decide
  | bool b =>
    intro c mem
    cases b with
    | true =>
      simp only [text, List.mem_cons, List.not_mem_nil, or_false] at mem
      obtain rfl | rfl | rfl | rfl := mem <;> decide
    | false =>
      simp only [text, List.mem_cons, List.not_mem_nil, or_false] at mem
      obtain rfl | rfl | rfl | rfl | rfl := mem <;> decide
  | num n => exact fun c mem => numberChar_printable (n.text_numeric c mem)
  | str s => exact quote_printable s
  | arr vs each =>
    intro c mem
    cases vs with
    | nil =>
      simp only [text, List.mem_cons, List.not_mem_nil, or_false] at mem
      obtain rfl | rfl := mem <;> decide
    | cons v vs =>
      simp only [text, List.cons_append, List.mem_cons, List.mem_append] at mem
      obtain rfl | here | rest := mem
      · decide
      · exact each v (by simp) c here
      · exact itemsText_printable (fun w mem => each w (by simp [mem])) c rest
  | obj ms each =>
    intro c mem
    cases ms with
    | nil =>
      simp only [text, List.mem_cons, List.not_mem_nil, or_false] at mem
      obtain rfl | rfl := mem <;> decide
    | cons m ms =>
      obtain ⟨k, v⟩ := m
      simp only [text, List.cons_append, List.mem_cons, List.mem_append] at mem
      obtain rfl | (key | rfl | here) | rest := mem
      · decide
      · exact quote_printable k c key
      · decide
      · exact each k v (by simp) c here
      · exact membersText_printable (fun l w mem => each l w (by simp [mem])) c rest
end Json

theorem utf8_printable {text : List Char} (printable : ∀ c ∈ text, 32 ≤ c.toNat) :
    ∀ b ∈ utf8 text, 32 ≤ b.toNat := by
  intro b mem
  obtain ⟨c, inside, encoded⟩ := List.mem_flatMap.mp mem
  have plain := printable c inside
  by_cases small : c.toNat < 128
  · rw [utf8EncodeChar_ascii small, List.mem_singleton] at encoded
    subst encoded
    have same : (ascii c).toNat = c.toNat % 256 := UInt8.toNat_ofNat'
    omega
  · have high := utf8EncodeChar_high (Nat.not_lt.mp small) b encoded
    omega

end Kit
