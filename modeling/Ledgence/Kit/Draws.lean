import Mathlib.Data.Nat.Periodic
import Mathlib.Data.Nat.Count
import Mathlib.Data.FinEnum
import Mathlib.Data.Fintype.Card
import Mathlib.Tactic.Common

/-! Unbiased draws: mixers of 64-bit words that lose nothing, and residues of whole blocks. -/
namespace Kit.Draws

/- Mixers. -/

theorem xorShift_injective {k : UInt64} (shifts : 0 < k.toNat % 64) :
    Function.Injective fun w : UInt64 => w ^^^ (w >>> k) := by
  intro v w (h : v ^^^ (v >>> k) = w ^^^ (w >>> k))
  -- The difference is its own shift, so it is zero.
  have fixed : v ^^^ w = (v ^^^ w) >>> k := by
    rw [UInt64.shiftRight_xor]
    have both : (v ^^^ (v >>> k)) ^^^ (w ^^^ (w >>> k)) = 0 := by rw [h, UInt64.xor_self]
    rw [← UInt64.xor_eq_zero_iff, ← both]
    ac_rfl
  have number : (v ^^^ w).toNat = (v ^^^ w).toNat / 2 ^ (k.toNat % 64) := by
    conv_lhs => rw [fixed]
    rw [UInt64.toNat_shiftRight, Nat.shiftRight_eq_div_pow]
  have zero : (v ^^^ w).toNat = 0 := by
    by_contra positive
    have smaller := Nat.div_lt_self (Nat.pos_of_ne_zero positive)
      (Nat.one_lt_two_pow (Nat.pos_iff_ne_zero.mp shifts))
    omega
  exact UInt64.xor_eq_zero_iff.mp (UInt64.toNat_inj.mp zero)

theorem mul_injective {m u : UInt64} (unit : m * u = 1) :
    Function.Injective fun w : UInt64 => w * m := by
  intro v w (h : v * m = w * m)
  have back := congrArg (· * u) h
  simpa [UInt64.mul_assoc, unit] using back

theorem multiples_injOn {m u : UInt64} (unit : m * u = 1) {j k : Nat} (hj : j < 2 ^ 64)
    (hk : k < 2 ^ 64) (same : UInt64.ofNat j * m = UInt64.ofNat k * m) : j = k := by
  have words := congrArg UInt64.toNat (mul_injective unit same)
  rwa [UInt64.toNat_ofNat_of_lt' hj, UInt64.toNat_ofNat_of_lt' hk] at words

/-- Of more different words than there are below the cutoff, one reaches it. -/
theorem exists_reaching {f : Nat → UInt64} {c : Nat}
    (different : ∀ j ≤ c, ∀ k ≤ c, f j = f k → j = k) : ∃ k ≤ c, c ≤ (f k).toNat := by
  by_contra below
  simp only [not_exists, not_and, not_le] at below
  have crowded : Function.Injective fun k : Fin (c + 1) =>
      (⟨(f k).toNat, below k (Nat.le_of_lt_succ k.isLt)⟩ : Fin c) := by
    intro j k same
    have words : f j = f k := UInt64.toNat_inj.mp (Fin.mk.inj same)
    exact Fin.ext (different j (Nat.le_of_lt_succ j.isLt) k (Nat.le_of_lt_succ k.isLt) words)
  have := Fintype.card_le_of_injective _ crowded
  simp at this

/- Blocks. -/

theorem card_blocks {p : Nat → Prop} [DecidablePred p] {a : Nat} (periodic : Function.Periodic p a)
    (n q : Nat) : ((Finset.Ico n (n + a * q)).filter p).card = a.count p * q := by
  induction q with
  | zero => simp
  | succ q ih =>
    have split : Finset.Ico n (n + a * (q + 1)) =
        Finset.Ico n (n + a * q) ∪ Finset.Ico (n + a * q) (n + a * q + a) := by
      rw [Finset.Ico_union_Ico_eq_Ico (Nat.le_add_right _ _) (Nat.le_add_right _ _),
        Nat.mul_succ, Nat.add_assoc]
    have apart : Disjoint ((Finset.Ico n (n + a * q)).filter p)
        ((Finset.Ico (n + a * q) (n + a * q + a)).filter p) :=
      Finset.disjoint_filter_filter (Finset.Ico_disjoint_Ico_consecutive _ _ _)
    rw [split, Finset.filter_union, Finset.card_union_of_disjoint apart, ih,
      Nat.filter_Ico_card_eq_of_periodic _ _ _ periodic, Nat.mul_succ]

end Kit.Draws
