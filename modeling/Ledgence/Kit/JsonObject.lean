import Ledgence.Kit.JsonCanonical

/-! Objects written field by field, where an absent field is left out, and reading the
fields of a value back by name. -/
namespace Kit
namespace Json

def nat (n : Nat) : Json :=
  .num (.int n)

def opt (o : Option Json) : Json :=
  o.getD .null

def object (fields : List (String × Option Json)) : Json :=
  .obj (fields.filterMap fun f => f.2.map fun v => (f.1, v))

def get (k : String) : Json → Option Json
  | .obj ms => ms.lookup k
  | _ => none

def asStr : Json → Option String
  | .str s => some s
  | _ => none

def asNat : Json → Option Nat
  | .num (.int (.ofNat n)) => some n
  | _ => none

def asBool : Json → Option Bool
  | .bool b => some b
  | _ => none

def getStr (k : String) (v : Json) : Option String :=
  (v.get k).bind asStr

def getNat (k : String) (v : Json) : Option Nat :=
  (v.get k).bind asNat

def getBool (k : String) (v : Json) : Option Bool :=
  (v.get k).bind asBool

@[simp] theorem asStr_str (s : String) : asStr (.str s) = some s := rfl
@[simp] theorem asNat_nat (n : Nat) : asNat (nat n) = some n := rfl
@[simp] theorem asBool_bool (b : Bool) : asBool (.bool b) = some b := rfl

theorem lookup_eq_some_iff {ms : List (String × Json)} (keys : (ms.map Prod.fst).Nodup)
    {k : String} {v : Json} : ms.lookup k = some v ↔ (k, v) ∈ ms := by
  induction ms with
  | nil => simp
  | cons m ms ih =>
    obtain ⟨l, w⟩ := m
    simp only [List.map_cons, List.nodup_cons] at keys
    by_cases hk : k = l
    · subst hk
      have absent : (k, v) ∉ ms := fun h => keys.1 (List.mem_map.mpr ⟨(k, v), h, rfl⟩)
      simp [absent, eq_comm]
    · have hb : (k == l) = false := by simpa using hk
      simp [List.lookup_cons, hb, ih keys.2, hk]

/-- Values that agree are both objects, both arrays, or one and the same scalar. -/
theorem Same.shape {v w : Json} (h : Same v w) :
    (∃ ms ns, v = .obj ms ∧ w = .obj ns) ∨ (∃ vs ws, v = .arr vs ∧ w = .arr ws) ∨ v = w := by
  match v with
  | .null | .bool _ | .num _ | .str _ =>
    rw [Same] at h
    exact .inr (.inr h.symm)
  | .arr vs =>
    cases w with
    | arr ws => exact .inr (.inl ⟨vs, ws, rfl, rfl⟩)
    | null | bool b | num n | str s | obj ns => simp [Same] at h
  | .obj ms =>
    cases w with
    | obj ns => exact .inl ⟨ms, ns, rfl, rfl⟩
    | null | bool b | num n | str s | arr ws => simp [Same] at h

theorem Same.get {v w : Json} (h : Same v w) (uv : UniqueKeys v) (uw : UniqueKeys w)
    (k : String) : Option.Rel Same (v.get k) (w.get k) := by
  obtain ⟨ms, ns, rfl, rfl⟩ | ⟨vs, ws, rfl, rfl⟩ | rfl := h.shape
  · rw [UniqueKeys] at uv uw
    simp only [Json.get]
    cases hm : ms.lookup k with
    | some v =>
      obtain ⟨w, hw, same⟩ := h.member ((lookup_eq_some_iff uv.1).mp hm)
      rw [(lookup_eq_some_iff uw.1).mpr hw]
      exact .some same
    | none =>
      cases hn : ns.lookup k with
      | none => exact .none
      | some w =>
        obtain ⟨v, hv, -⟩ := h.member_back uv.1 uw.1 ((lookup_eq_some_iff uw.1).mp hn)
        rw [(lookup_eq_some_iff uv.1).mpr hv] at hm
        exact absurd hm (by simp)
  · exact .none
  · cases hv : v.get k with
    | none => exact .none
    | some u =>
      cases v with
      | obj ms =>
        rw [UniqueKeys] at uv
        have mem := (lookup_eq_some_iff uv.1).mp hv
        obtain ⟨w, hw, same⟩ := h.member mem
        have : w = u := (Prod.mk.inj (List.inj_on_of_nodup_map uv.1 hw mem rfl)).2
        exact .some (this ▸ same)
      | null | bool b | num n | str s | arr vs => simp [Json.get] at hv

/- Objects written field by field. -/

section Object
variable {fields : List (String × Option Json)}

theorem mem_object {k : String} {v : Json} :
    (k, v) ∈ fields.filterMap (fun f => f.2.map fun v => (f.1, v)) ↔ (k, some v) ∈ fields := by
  simp only [List.mem_filterMap, Option.map_eq_some_iff, Prod.mk.injEq]
  constructor
  · rintro ⟨⟨l, o⟩, mem, w, rfl, rfl, rfl⟩
    exact mem
  · intro mem
    exact ⟨(k, some v), mem, v, rfl, rfl, rfl⟩

theorem object_keys_sublist :
    ((fields.filterMap fun f => f.2.map fun v => (f.1, v)).map Prod.fst).Sublist
      (fields.map Prod.fst) := by
  induction fields with
  | nil => simp
  | cons f fields ih =>
    obtain ⟨k, o⟩ := f
    cases o with
    | none => exact ih.cons k
    | some v => exact ih.cons_cons k

theorem uniqueKeys_object (keys : (fields.map Prod.fst).Nodup)
    (values : ∀ k v, (k, some v) ∈ fields → UniqueKeys v) : UniqueKeys (object fields) := by
  rw [object, UniqueKeys, membersUnique_iff]
  exact ⟨keys.sublist object_keys_sublist, fun k v hv => values k v (mem_object.mp hv)⟩

theorem get_object (keys : (fields.map Prod.fst).Nodup) (k : String) :
    (object fields).get k = (fields.lookup k).join := by
  induction fields with
  | nil => rfl
  | cons f fields ih =>
    obtain ⟨l, o⟩ := f
    simp only [List.map_cons, List.nodup_cons] at keys
    have rest := ih keys.2
    simp only [object, Json.get] at rest
    by_cases hk : k = l
    · subst hk
      cases o with
      | some v => simp [object, Json.get]
      | none =>
        have absent : fields.lookup k = none := by
          rw [List.lookup_eq_none_iff]
          intro p hp
          have : k ≠ p.1 := fun e => keys.1 (List.mem_map.mpr ⟨p, hp, e.symm⟩)
          simpa using this
        simp [object, Json.get, rest, absent]
    · have hb : (k == l) = false := by simpa using hk
      cases o with
      | some v => simp [object, Json.get, List.lookup_cons, hb, rest]
      | none => simp [object, Json.get, List.lookup_cons, hb, rest]

def fieldSize (field : String × Option Json) : Nat :=
  match field.2 with
  | none => 0
  | some v => memberSize (field.1, v)

theorem size_object (fields : List (String × Option Json)) :
    size (object fields) = 1 + max 1 (fields.map fieldSize).sum := by
  have members : (fields.map fieldSize).sum =
      ((fields.filterMap fun f => f.2.map fun v => (f.1, v)).map memberSize).sum := by
    induction fields with
    | nil => rfl
    | cons f fields ih =>
      obtain ⟨k, o⟩ := f
      cases o with
      | none => simpa [fieldSize] using ih
      | some v => simpa [fieldSize] using ih
  rw [members, object]
  cases fields.filterMap fun f => f.2.map fun v => (f.1, v) with
  | nil => decide
  | cons m ms =>
    rw [size_obj, List.map_cons, List.sum_cons]
    have : 1 ≤ memberSize m := by simp [memberSize]
    omega

end Object

/- Bounds. -/

theorem utf8Len_ascii {cs : List Char} (ascii : ∀ c ∈ cs, c.toNat < 128) :
    utf8Len cs = cs.length := by
  induction cs with
  | nil => rfl
  | cons c cs ih =>
    have one : c.utf8Size = 1 := by
      have small := ascii c (by simp)
      rw [Char.utf8Size_eq_one_iff, UInt32.le_iff_toNat_le]
      have : c.val.toNat < 128 := small
      simp only [UInt32.reduceToNat]
      omega
    rw [utf8Len_cons, one, ih fun d hd => ascii d (by simp [hd]), List.length_cons]
    omega

theorem size_nat_le {n k : Nat} (positive : 0 < k) (small : n < 10 ^ k) : size (nat n) ≤ k := by
  have ascii : ∀ c ∈ Nat.toDigits 10 n, c.toNat < 128 := by
    intro c hc
    have digit := isDigit_of_mem_toDigits hc
    simp only [Char.isDigit, Bool.and_eq_true, decide_eq_true_eq, UInt32.le_iff_toNat_le] at digit
    have : c.val.toNat ≤ 57 := digit.2
    show c.val.toNat < 128
    omega
  show utf8Len (Nat.toDigits 10 n) ≤ k
  rw [utf8Len_ascii ascii]
  exact (Nat.length_toDigits_le_iff (by decide) positive).mpr small

theorem utf8Len_escape_le {c : Char} (printable : 32 ≤ c.toNat) :
    utf8Len (escape c) ≤ 2 * c.utf8Size := by
  have positive := c.utf8Size_pos
  have slash : '\\'.utf8Size = 1 := by decide
  have mark : '"'.utf8Size = 1 := by decide
  unfold escape
  split
  · simp only [utf8Len_cons, utf8Len_nil, slash, mark]
    omega
  · split
    · simp only [utf8Len_cons, utf8Len_nil, slash]
      omega
    · rw [if_neg (by omega), if_neg (by omega), if_neg (by omega), if_neg (by omega),
        if_neg (by omega), if_neg (by omega)]
      simp only [utf8Len_cons, utf8Len_nil]
      omega

theorem utf8Len_escapes_le {k : Nat} {cs : List Char}
    (each : ∀ c ∈ cs, utf8Len (escape c) ≤ k * c.utf8Size) :
    utf8Len (cs.flatMap escape) ≤ k * utf8Len cs := by
  induction cs with
  | nil => exact Nat.zero_le _
  | cons c cs ih =>
    have first := each c (by simp)
    have rest := ih fun d hd => each d (by simp [hd])
    rw [List.flatMap_cons, utf8Len_append, utf8Len_cons, Nat.mul_add]
    omega

theorem size_str_le {s : String} (printable : ∀ c ∈ s.toList, 32 ≤ c.toNat) :
    size (.str s) ≤ 2 * utf8Len s.toList + 2 := by
  have whole := utf8Len_escapes_le fun c hc => utf8Len_escape_le (printable c hc)
  have mark : '"'.utf8Size = 1 := by decide
  simp only [size, text, quote, utf8Len_append, utf8Len_cons, utf8Len_nil, mark]
  omega

@[simp] theorem fieldSize_some (k : String) (v : Json) :
    fieldSize (k, some v) = utf8Len (quote k) + size v + 2 := rfl

theorem size_object_le (fields : List (String × Option Json)) (bounds : List Nat)
    (each : List.Forall₂ (fun f b => ∀ v, f.2 = some v → size v ≤ b) fields bounds) :
    size (object fields) ≤ 2 + (List.zipWith (fun k b => utf8Len (quote k) + b + 2)
      (fields.map Prod.fst) bounds).sum := by
  have sums : (fields.map fieldSize).sum ≤ (List.zipWith (fun k b => utf8Len (quote k) + b + 2)
      (fields.map Prod.fst) bounds).sum := by
    induction each with
    | nil => exact Nat.le_refl _
    | @cons f b fields bounds first rest ih =>
      have field : fieldSize f ≤ utf8Len (quote f.1) + b + 2 := by
        obtain ⟨k, o⟩ := f
        cases o with
        | none => exact Nat.zero_le _
        | some v =>
          have := first v rfl
          simp only [fieldSize_some]
          omega
      simp only [List.map_cons, List.zipWith_cons_cons, List.sum_cons]
      omega
  rw [size_object]
  omega

theorem utf8Len_itemsText_le {vs : List Json} {b : Nat} (each : ∀ v ∈ vs, size v ≤ b) :
    utf8Len (itemsText vs) ≤ 1 + vs.length * (b + 1) := by
  induction vs with
  | nil => exact Nat.le_add_right 1 _
  | cons v vs ih =>
    have first : utf8Len v.text ≤ b := each v (by simp)
    have rest := ih fun w mem => each w (by simp [mem])
    have comma : ','.utf8Size = 1 := by decide
    rw [itemsText, utf8Len_append, utf8Len_cons, comma, List.length_cons, Nat.succ_mul]
    omega

theorem size_arr_le {vs : List Json} {b : Nat} (each : ∀ v ∈ vs, size v ≤ b) :
    size (.arr vs) ≤ 2 + vs.length * (b + 1) := by
  cases vs with
  | nil => exact Nat.le_add_right 2 _
  | cons v vs =>
    have first : utf8Len v.text ≤ b := each v (by simp)
    have rest := utf8Len_itemsText_le fun w mem => each w (List.mem_cons_of_mem v mem)
    have bracket : '['.utf8Size = 1 := by decide
    rw [size, text, utf8Len_append, utf8Len_cons, bracket, List.length_cons, Nat.succ_mul]
    omega

/- A bound of the size that is read off without the text, so that a limit is checked quickly. -/

mutual
def weight : Json → Nat
  | .null => 4
  | .bool _ => 5
  | .num n => 4 * n.text.length
  | .str s => 6 * s.utf8ByteSize + 2
  | .arr vs => weightItems vs + 2
  | .obj ms => weightMembers ms + 2
termination_by structural v => v

def weightItems : List Json → Nat
  | [] => 0
  | v :: vs => weight v + 1 + weightItems vs
termination_by structural vs => vs

def weightMembers : List (String × Json) → Nat
  | [] => 0
  | (k, v) :: ms => 6 * k.utf8ByteSize + 2 + weight v + 2 + weightMembers ms
termination_by structural ms => ms
end

theorem utf8Len_toList (s : String) : utf8Len s.toList = s.utf8ByteSize := by
  have each : ∀ cs : List Char, utf8Len cs = (String.ofList cs).utf8ByteSize := by
    intro cs
    induction cs with
    | nil => rfl
    | cons c cs ih =>
      rw [String.ofList_cons, String.utf8ByteSize_append, String.utf8ByteSize_singleton,
        utf8Len_cons, ih]
  rw [each, String.ofList_toList]

theorem utf8Len_escape_le_six (c : Char) : utf8Len (escape c) ≤ 6 * c.utf8Size := by
  have positive := c.utf8Size_pos
  by_cases printable : 32 ≤ c.toNat
  · have := utf8Len_escape_le printable
    omega
  · have control : ∀ n < 32, utf8Len (escape (Char.ofNat n)) ≤ 6 := by decide
    have small := control c.toNat (by omega)
    rw [Char.ofNat_toNat] at small
    omega

theorem utf8Len_quote_le (s : String) : utf8Len (quote s) ≤ 6 * s.utf8ByteSize + 2 := by
  have inner := utf8Len_escapes_le fun c (_ : c ∈ s.toList) => utf8Len_escape_le_six c
  have mark : '"'.utf8Size = 1 := by decide
  rw [utf8Len_toList] at inner
  simp only [quote, utf8Len_append, utf8Len_cons, utf8Len_nil, mark]
  omega

theorem weightItems_ge {vs : List Json} (each : ∀ v ∈ vs, size v ≤ weight v) :
    (vs.map fun v => size v + 1).sum ≤ weightItems vs := by
  induction vs with
  | nil => exact Nat.zero_le _
  | cons v vs ih =>
    have first := each v (by simp)
    have rest := ih fun u hu => each u (by simp [hu])
    rw [List.map_cons, List.sum_cons, weightItems]
    omega

theorem weightMembers_ge {ms : List (String × Json)}
    (each : ∀ k v, (k, v) ∈ ms → size v ≤ weight v) : (ms.map memberSize).sum ≤ weightMembers ms := by
  induction ms with
  | nil => exact Nat.zero_le _
  | cons m ms ih =>
    obtain ⟨k, v⟩ := m
    have name := utf8Len_quote_le k
    have first := each k v (by simp)
    have rest := ih fun l u hu => each l u (by simp [hu])
    rw [List.map_cons, List.sum_cons, weightMembers, memberSize]
    dsimp only
    omega

theorem size_le_weight (v : Json) : size v ≤ weight v := by
  induction v using Json.induction with
  | null => decide
  | bool b => cases b <;> decide
  | num n =>
    have each : ∀ cs : List Char, utf8Len cs ≤ 4 * cs.length := by
      intro cs
      induction cs with
      | nil => exact Nat.le_refl _
      | cons c cs ih =>
        have := c.utf8Size_le_four
        rw [utf8Len_cons, List.length_cons]
        omega
    exact each n.text
  | str s => exact utf8Len_quote_le s
  | arr vs each =>
    cases vs with
    | nil => decide
    | cons v vs =>
      have := weightItems_ge each
      rw [size_arr, weight]
      omega
  | obj ms each =>
    cases ms with
    | nil => decide
    | cons m ms =>
      have := weightMembers_ge each
      rw [size_obj, weight]
      omega

instance (n : Nat) (v : Json) : Decidable (n < v.size) :=
  if small : v.weight ≤ n then isFalse (not_lt.mpr ((size_le_weight v).trans small))
  else Nat.decLt n v.size

end Json
end Kit

/-! Structs read from JSON values, where unknown fields are denied. -/
namespace Kit.Json
variable {α : Type}

def struct (names : List String) : Json → Option (String → Option Json)
  | .obj ms => if ms.all (fun m => names.contains m.1) = true then some (ms.lookup ·) else none
  | .arr vs => if vs.length = names.length then some ((names.zip vs).lookup ·) else none
  | .null | .bool _ | .num _ | .str _ => none

def required (read : Json → Option α) (field : Option Json) : Option α :=
  field.bind read

def optional (read : Json → Option α) : Option Json → Option (Option α)
  | none | some .null => some none
  | some v => (read v).map some

def unsigned (top : Nat) (v : Json) : Option Nat :=
  (asNat v).filter (· ≤ top)

def variant (names : List (String × α)) : Json → Option α
  | .str s => names.lookup s
  | .obj [(s, .null)] => names.lookup s
  | _ => none

theorem struct_object {names : List String} {fields : List (String × Option Json)}
    (named : fields.map Prod.fst = names) (keys : names.Nodup) :
    struct names (object fields) = some fun k => (fields.lookup k).join := by
  subst named
  have known : (fields.filterMap fun f => f.2.map fun v => (f.1, v)).all
      (fun m => (fields.map Prod.fst).contains m.1) = true := by
    rw [List.all_eq_true]
    intro m mem
    obtain ⟨f, inside, present⟩ := List.mem_filterMap.mp mem
    obtain ⟨v, -, rfl⟩ := Option.map_eq_some_iff.mp present
    simpa using ⟨f.2, inside⟩
  rw [object, struct, if_pos known]
  exact congrArg some (funext fun k => get_object keys k)

@[simp] theorem required_some (read : Json → Option α) (v : Json) :
    required read (some v) = read v := rfl

@[simp] theorem optional_none (read : Json → Option α) : optional read none = some none := rfl

theorem optional_opt {read : Json → Option α} {write : α → Json} {given : Option α}
    (reads : ∀ a, given = some a → read (write a) = some a) (notNull : ∀ a, write a ≠ .null) :
    optional read (some (opt (given.map write))) = some given := by
  cases given with
  | none => rfl
  | some a =>
    have same := reads a rfl
    cases written : write a with
    | null => exact absurd written (notNull a)
    | bool _ | num _ | str _ | arr _ | obj _ =>
      rw [written] at same
      simp [opt, written, optional, same]

theorem optional_map {read : Json → Option α} {write : α → Json} {given : Option α}
    (reads : ∀ a, given = some a → read (write a) = some a) (notNull : ∀ a, write a ≠ .null) :
    optional read (given.map write) = some given := by
  cases given with
  | none => rfl
  | some a => exact optional_opt reads notNull

theorem unsigned_nat {top n : Nat} (fits : n ≤ top) : unsigned top (nat n) = some n := by
  simp [unsigned, fits]

end Kit.Json
