import Ledgence.Kit.JsonText

/-! Reading JSON texts: the grammar as a recursive descent, which keeps number tokens and every
member of an object. -/
namespace Kit

inductive Doc where
  | null
  | bool (b : Bool)
  | num (token : List Char)
  | str (s : String)
  | arr (items : List Doc)
  | obj (members : List (String × Doc))

namespace Doc

mutual
def depth : Doc → Nat
  | .arr ds => 1 + itemsDepth ds
  | .obj ms => 1 + membersDepth ms
  | _ => 0
termination_by structural d => d

def itemsDepth : List Doc → Nat
  | [] => 0
  | d :: ds => max (depth d) (itemsDepth ds)
termination_by structural ds => ds

def membersDepth : List (String × Doc) → Nat
  | [] => 0
  | (_, d) :: ms => max (depth d) (membersDepth ms)
termination_by structural ms => ms
end

mutual
def tokens : Doc → List (List Char)
  | .num t => [t]
  | .arr ds => itemsTokens ds
  | .obj ms => membersTokens ms
  | _ => []
termination_by structural d => d

def itemsTokens : List Doc → List (List Char)
  | [] => []
  | d :: ds => tokens d ++ itemsTokens ds
termination_by structural ds => ds

def membersTokens : List (String × Doc) → List (List Char)
  | [] => []
  | (_, d) :: ms => tokens d ++ membersTokens ms
termination_by structural ms => ms
end

mutual
def UniqueKeys : Doc → Prop
  | .arr ds => ItemsUnique ds
  | .obj ms => (ms.map Prod.fst).Nodup ∧ MembersUnique ms
  | _ => True
termination_by structural d => d

def ItemsUnique : List Doc → Prop
  | [] => True
  | d :: ds => UniqueKeys d ∧ ItemsUnique ds
termination_by structural ds => ds

def MembersUnique : List (String × Doc) → Prop
  | [] => True
  | (_, d) :: ms => UniqueKeys d ∧ MembersUnique ms
termination_by structural ms => ms
end

theorem induction {P : Doc → Prop} (null : P .null) (bool : ∀ b, P (.bool b))
    (num : ∀ t, P (.num t)) (str : ∀ s, P (.str s))
    (arr : ∀ ds, (∀ d ∈ ds, P d) → P (.arr ds))
    (obj : ∀ ms, (∀ k d, (k, d) ∈ ms → P d) → P (.obj ms)) (d : Doc) : P d := by
  refine Doc.rec (motive_1 := P) (motive_2 := fun ds => ∀ d ∈ ds, P d)
    (motive_3 := fun ms => ∀ k d, (k, d) ∈ ms → P d) (motive_4 := fun m => P m.2)
    null bool num str arr obj ?_ ?_ ?_ ?_ ?_ d
  · simp
  · intro d ds hd hds e he
    obtain rfl | he := List.mem_cons.mp he
    · exact hd
    · exact hds e he
  · simp
  · intro m ms hm hms k e he
    obtain rfl | he := List.mem_cons.mp he
    · exact hm
    · exact hms k e he
  · exact fun k d hd => hd

end Doc

namespace JsonReader

def blank (c : Char) : Bool :=
  c == ' ' || c == '\n' || c == '\r' || c == '\t'

def skip (text : List Char) : List Char :=
  text.dropWhile blank

/- Number tokens. -/

def digits (cs : List Char) : Bool :=
  !cs.isEmpty && cs.all Char.isDigit

def exponent : List Char → Bool
  | [] => true
  | 'e' :: '+' :: cs | 'e' :: '-' :: cs | 'E' :: '+' :: cs | 'E' :: '-' :: cs => digits cs
  | 'e' :: cs | 'E' :: cs => digits cs
  | _ => false

def fraction : List Char → Bool
  | '.' :: cs => digits (cs.takeWhile Char.isDigit) && exponent (cs.dropWhile Char.isDigit)
  | cs => exponent cs

def unsigned : List Char → Bool
  | [] => false
  | '0' :: cs => fraction cs
  | c :: cs => c.isDigit && fraction (cs.dropWhile Char.isDigit)

def number : List Char → Bool
  | '-' :: cs => unsigned cs
  | cs => unsigned cs

/- Strings. -/

def hexDigit? (c : Char) : Option Nat :=
  if c.isDigit = true then some (c.toNat - 48)
  else if 'a' ≤ c ∧ c ≤ 'f' then some (c.toNat - 87)
  else if 'A' ≤ c ∧ c ≤ 'F' then some (c.toNat - 55)
  else none

def hex4 (a b c d : Char) : Option Nat := do
  let a ← hexDigit? a
  let b ← hexDigit? b
  let c ← hexDigit? c
  let d ← hexDigit? d
  return 4096 * a + 256 * b + 16 * c + d

def escaped : Char → Option Char
  | '"' => some '"'
  | '\\' => some '\\'
  | '/' => some '/'
  | 'b' => some (Char.ofNat 8)
  | 'f' => some (Char.ofNat 12)
  | 'n' => some (Char.ofNat 10)
  | 'r' => some (Char.ofNat 13)
  | 't' => some (Char.ofNat 9)
  | _ => none

def scalar (n : Nat) : Option Char :=
  if 0xD800 ≤ n ∧ n < 0xE000 then none else some (Char.ofNat n)

def paired (high low : Nat) : Option Char :=
  if 0xD800 ≤ high ∧ high < 0xDC00 ∧ 0xDC00 ≤ low ∧ low < 0xE000 then
    some (Char.ofNat (0x10000 + 0x400 * (high - 0xD800) + (low - 0xDC00)))
  else none

def string : List Char → Option (List Char × List Char)
  | [] => none
  | '"' :: r => some ([], r)
  | '\\' :: 'u' :: a :: b :: c :: d :: r =>
    match (hex4 a b c d).bind scalar with
    | some x => (string r).map fun s => (x :: s.1, s.2)
    | none =>
      match r with
      | '\\' :: 'u' :: e :: f :: g :: h :: r => do
        let x ← paired (← hex4 a b c d) (← hex4 e f g h)
        let s ← string r
        return (x :: s.1, s.2)
      | _ => none
  | '\\' :: c :: r => do
    let x ← escaped c
    let s ← string r
    return (x :: s.1, s.2)
  | c :: r =>
    if c.toNat < 32 ∨ c = '\\' then none
    else (string r).map fun s => (c :: s.1, s.2)

/- Values. -/

mutual
def value : Nat → List Char → Option (Doc × List Char)
  | 0, _ => none
  | fuel + 1, text =>
    match skip text with
    | 'n' :: 'u' :: 'l' :: 'l' :: r => some (.null, r)
    | 't' :: 'r' :: 'u' :: 'e' :: r => some (.bool true, r)
    | 'f' :: 'a' :: 'l' :: 's' :: 'e' :: r => some (.bool false, r)
    | '"' :: r => (string r).map fun s => (.str (String.ofList s.1), s.2)
    | '[' :: r =>
      match skip r with
      | ']' :: r => some (.arr [], r)
      | _ => (items fuel r).map fun s => (.arr s.1, s.2)
    | '{' :: r =>
      match skip r with
      | '}' :: r => some (.obj [], r)
      | _ => (members fuel r).map fun s => (.obj s.1, s.2)
    | r =>
      if number (r.takeWhile numberChar) = true then
        some (.num (r.takeWhile numberChar), r.dropWhile numberChar)
      else none

def items : Nat → List Char → Option (List Doc × List Char)
  | 0, _ => none
  | fuel + 1, text =>
    match value fuel text with
    | none => none
    | some (d, r) =>
      match skip r with
      | ',' :: r => (items fuel r).map fun s => (d :: s.1, s.2)
      | ']' :: r => some ([d], r)
      | _ => none

def members : Nat → List Char → Option (List (String × Doc) × List Char)
  | 0, _ => none
  | fuel + 1, text =>
    match member fuel text with
    | none => none
    | some (m, r) =>
      match skip r with
      | ',' :: r => (members fuel r).map fun s => (m :: s.1, s.2)
      | '}' :: r => some ([m], r)
      | _ => none

def member : Nat → List Char → Option ((String × Doc) × List Char)
  | 0, _ => none
  | fuel + 1, text =>
    match skip text with
    | '"' :: r =>
      match string r with
      | none => none
      | some (k, r) =>
        match skip r with
        | ':' :: r => (value fuel r).map fun s => ((String.ofList k, s.1), s.2)
        | _ => none
    | _ => none
end

/-- A whole text is one value between blanks. Each nested call reads on, so that the length of the
text bounds the calls. -/
def read (text : List Char) : Option Doc :=
  match value (3 * text.length + 3) text with
  | none => none
  | some (d, r) => if skip r = [] then some d else none

end JsonReader
end Kit
