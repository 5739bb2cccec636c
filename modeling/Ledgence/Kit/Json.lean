import Mathlib.Algebra.Ring.Nat
import Mathlib.Data.String.Basic
import Mathlib.Data.List.Sort

/-! JSON values, the compact text an encoder prints for them, and that text with the
members of every object sorted by key. -/
namespace Kit

def numberChar (c : Char) : Bool :=
  c.isDigit || c == '-' || c == '+' || c == '.' || c == 'e' || c == 'E'

/-- A finite binary64 number, given by the one text that is printed for it. The text has a
fraction or an exponent, so it is never the text of an integer. -/
structure FloatText where
  text : List Char
  numeric : ∀ c ∈ text, numberChar c = true
  fractional : '.' ∈ text ∨ 'e' ∈ text
  deriving DecidableEq

inductive Number where
  | int (i : Int)
  | float (f : FloatText)
  deriving DecidableEq

inductive Json where
  | null
  | bool (b : Bool)
  | num (n : Number)
  | str (s : String)
  | arr (items : List Json)
  | obj (members : List (String × Json))

def utf8Len (s : List Char) : Nat :=
  (s.map Char.utf8Size).sum

def hexDigit (n : Nat) : Char :=
  if n < 10 then Char.ofNat (48 + n) else Char.ofNat (87 + n)

def escape (c : Char) : List Char :=
  if c = '"' then ['\\', '"']
  else if c = '\\' then ['\\', '\\']
  else if c.toNat = 8 then ['\\', 'b']
  else if c.toNat = 9 then ['\\', 't']
  else if c.toNat = 10 then ['\\', 'n']
  else if c.toNat = 12 then ['\\', 'f']
  else if c.toNat = 13 then ['\\', 'r']
  else if c.toNat < 32 then
    ['\\', 'u', '0', '0', hexDigit (c.toNat / 16), hexDigit (c.toNat % 16)]
  else [c]

def quote (s : String) : List Char :=
  '"' :: s.toList.flatMap escape ++ ['"']

def Number.text : Number → List Char
  | .int (.ofNat n) => Nat.toDigits 10 n
  | .int (.negSucc n) => '-' :: Nat.toDigits 10 (n + 1)
  | .float f => f.text

namespace Json

mutual
def text : Json → List Char
  | .null => ['n', 'u', 'l', 'l']
  | .bool true => ['t', 'r', 'u', 'e']
  | .bool false => ['f', 'a', 'l', 's', 'e']
  | .num n => n.text
  | .str s => quote s
  | .arr [] => ['[', ']']
  | .arr (v :: vs) => '[' :: text v ++ itemsText vs
  | .obj [] => ['{', '}']
  | .obj ((k, v) :: ms) => '{' :: quote k ++ ':' :: text v ++ membersText ms
termination_by structural v => v

def itemsText : List Json → List Char
  | [] => [']']
  | v :: vs => ',' :: text v ++ itemsText vs
termination_by structural vs => vs

def membersText : List (String × Json) → List Char
  | [] => ['}']
  | (k, v) :: ms => ',' :: quote k ++ ':' :: text v ++ membersText ms
termination_by structural ms => ms
end

def size (v : Json) : Nat :=
  utf8Len v.text

def keyLE (p q : String × Json) : Prop :=
  p.1 ≤ q.1

instance : DecidableRel keyLE := fun p q => inferInstanceAs (Decidable (p.1 ≤ q.1))

mutual
def sortObjects : Json → Json
  | .null => .null
  | .bool b => .bool b
  | .num n => .num n
  | .str s => .str s
  | .arr vs => .arr (sortItems vs)
  | .obj ms => .obj ((sortMembers ms).insertionSort keyLE)
termination_by structural v => v

def sortItems : List Json → List Json
  | [] => []
  | v :: vs => sortObjects v :: sortItems vs
termination_by structural vs => vs

def sortMembers : List (String × Json) → List (String × Json)
  | [] => []
  | (k, v) :: ms => (k, sortObjects v) :: sortMembers ms
termination_by structural ms => ms
end

mutual
def UniqueKeys : Json → Prop
  | .arr vs => ItemsUnique vs
  | .obj ms => (ms.map Prod.fst).Nodup ∧ MembersUnique ms
  | _ => True
termination_by structural v => v

def ItemsUnique : List Json → Prop
  | [] => True
  | v :: vs => UniqueKeys v ∧ ItemsUnique vs
termination_by structural vs => vs

def MembersUnique : List (String × Json) → Prop
  | [] => True
  | (_, v) :: ms => UniqueKeys v ∧ MembersUnique ms
termination_by structural ms => ms
end

mutual
def Same : Json → Json → Prop
  | .null, b => b = .null
  | .bool x, b => b = .bool x
  | .num n, b => b = .num n
  | .str s, b => b = .str s
  | .arr vs, .arr ws => SameItems vs ws
  | .arr _, _ => False
  | .obj ms, .obj ns => ms.length = ns.length ∧ SameMembers ms ns
  | .obj _, _ => False
termination_by structural v => v

def SameItems : List Json → List Json → Prop
  | [], ws => ws = []
  | _ :: _, [] => False
  | v :: vs, w :: ws => Same v w ∧ SameItems vs ws
termination_by structural vs => vs

def SameMembers : List (String × Json) → List (String × Json) → Prop
  | [], _ => True
  | (k, v) :: ms, ns => (∃ w, (k, w) ∈ ns ∧ Same v w) ∧ SameMembers ms ns
termination_by structural ms => ms
end

mutual
def depth : Json → Nat
  | .arr vs => 1 + itemsDepth vs
  | .obj ms => 1 + membersDepth ms
  | _ => 0
termination_by structural v => v

def itemsDepth : List Json → Nat
  | [] => 0
  | v :: vs => max (depth v) (itemsDepth vs)
termination_by structural vs => vs

def membersDepth : List (String × Json) → Nat
  | [] => 0
  | (_, v) :: ms => max (depth v) (membersDepth ms)
termination_by structural ms => ms
end

mutual
def nodes : Json → Nat
  | .arr vs => 1 + itemsNodes vs
  | .obj ms => 1 + membersNodes ms
  | _ => 1
termination_by structural v => v

def itemsNodes : List Json → Nat
  | [] => 0
  | v :: vs => nodes v + itemsNodes vs
termination_by structural vs => vs

def membersNodes : List (String × Json) → Nat
  | [] => 0
  | (_, v) :: ms => nodes v + membersNodes ms
termination_by structural ms => ms
end

end Json

structure Value where
  json : Json
  unique : json.UniqueKeys

end Kit
