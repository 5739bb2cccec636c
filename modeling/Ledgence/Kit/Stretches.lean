import Mathlib.Data.List.Basic

/-! Parts of a list by position, and little-endian numbers in a list of bytes. -/
namespace Kit

/-- The elements from position `i` up to position `j`. -/
def stretch {α : Type*} (l : List α) (i j : Nat) : List α :=
  (l.take j).drop i

section Stretches
variable {α : Type*} {l : List α} {i j k : Nat}

theorem length_stretch : (stretch l i j).length = min j l.length - i := by
  simp [stretch]

theorem stretch_self : stretch l i i = [] := by
  simp [stretch]

theorem stretch_append (first : i ≤ j) (second : j ≤ k) : stretch l i j ++ stretch l j k = stretch l i k := by
  have short : l.take j = (l.take k).take j := by rw [List.take_take, Nat.min_eq_left second]
  have whole := List.take_append_drop j (l.take k)
  simp only [stretch]
  rw [short]
  conv_rhs => rw [← whole]
  rw [List.drop_append]
  by_cases long : j ≤ (l.take k).length
  · rw [List.length_take_of_le long, Nat.sub_eq_zero_of_le first, List.drop_zero]
  · rw [List.drop_eq_nil_of_le (by omega : (l.take k).length ≤ j), List.drop_nil]

theorem getElem?_stretch {o : Nat} (inside : i + o < j) : (stretch l i j)[o]? = l[i + o]? := by
  simp [stretch, List.getElem?_drop, inside]

theorem stretch_eq_take : stretch l i j = (l.drop i).take (j - i) := by
  rw [stretch, List.drop_take]

theorem prefix_stretch {m : List α} (fits : i + m.length ≤ j) : m <+: stretch l i j ↔ m <+: l.drop i := by
  rw [stretch_eq_take, List.prefix_take_iff]
  constructor
  · exact fun h => h.1
  · exact fun h => ⟨h, by omega⟩

/-- What stands in a list between `i` and `j` stands there in pieces of known lengths. -/
theorem stretch_eq_append {a b : List α} (fits : j ≤ l.length) (parts : stretch l i j = a ++ b) :
    stretch l i (i + a.length) = a ∧ stretch l (i + a.length) j = b := by
  have lengths := congrArg List.length parts
  rw [length_stretch, List.length_append] at lengths
  by_cases empty : j ≤ i
  · have left : a = [] := List.eq_nil_of_length_eq_zero (by omega)
    have right : b = [] := List.eq_nil_of_length_eq_zero (by omega)
    subst left right
    simp only [List.length_nil, Nat.add_zero, stretch_self, true_and]
    simpa using parts
  · have split := stretch_append (l := l) (Nat.le_add_right i a.length) (by omega : i + a.length ≤ j)
    rw [parts] at split
    exact List.append_inj split (by rw [length_stretch]; omega)

end Stretches

section Bytes
variable {bytes : List UInt8} {i j : Nat}

def byte (bytes : List UInt8) (i : Nat) : Nat :=
  (bytes[i]?.map UInt8.toNat).getD 0

def le16 (bytes : List UInt8) (i : Nat) : Nat :=
  byte bytes i + 256 * byte bytes (i + 1)

def le32 (bytes : List UInt8) (i : Nat) : Nat :=
  le16 bytes i + 65536 * le16 bytes (i + 2)

theorem byte_lt (bytes : List UInt8) (i : Nat) : byte bytes i < 256 := by
  cases h : bytes[i]? with
  | none => simp [byte, h]
  | some b => simpa [byte, h] using b.toNat_lt

theorem le16_lt (bytes : List UInt8) (i : Nat) : le16 bytes i < 65536 := by
  have low := byte_lt bytes i
  have high := byte_lt bytes (i + 1)
  rw [le16]
  omega

theorem le32_lt (bytes : List UInt8) (i : Nat) : le32 bytes i < 4294967296 := by
  have low := le16_lt bytes i
  have high := le16_lt bytes (i + 2)
  rw [le32]
  omega

theorem byte_stretch {o : Nat} (inside : i + o < j) : byte (stretch bytes i j) o = byte bytes (i + o) := by
  rw [byte, getElem?_stretch inside, byte]

theorem le16_stretch {o : Nat} (inside : i + o + 1 < j) :
    le16 (stretch bytes i j) o = le16 bytes (i + o) := by
  rw [le16, byte_stretch (by omega), byte_stretch (by omega), le16, Nat.add_assoc]

theorem le32_stretch {o : Nat} (inside : i + o + 3 < j) :
    le32 (stretch bytes i j) o = le32 bytes (i + o) := by
  rw [le32, le16_stretch (by omega), le16_stretch (by omega), le32, Nat.add_assoc]

end Bytes
end Kit
