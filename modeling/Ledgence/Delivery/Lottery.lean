import Ledgence.Delivery.Fairness
import Ledgence.Kit.Draws
import Mathlib.Data.Set.Card

/-! The lottery draws each route in exact proportion to its weight, and always returns. -/
open Kit Kit.Checked Kit.Draws

namespace Ledgence

theorem totalOf_lt {count : Nat} (weights : Weights count) (few : count ≤ maxPollQueues) :
    totalOf weights < 2 ^ 64 := by
  have each : ∀ n ∈ (List.finRange count).map fun i => (weights i).toNat, n ≤ 2 ^ 32 := by
    intro n mem
    obtain ⟨i, -, rfl⟩ := List.mem_map.mp mem
    exact (weights i).toNat_lt.le
  have sum := List.sum_le_card_nsmul _ _ each
  simp only [List.length_map, List.length_finRange, smul_eq_mul] at sum
  have bound : count * 2 ^ 32 ≤ 64 * 2 ^ 32 := Nat.mul_le_mul_right _ few
  rw [totalOf]
  omega

namespace Lottery
variable {count : Nat} {weights : Weights count} {i : Fin count}

/- Tickets. -/

theorem pick_isSome {routes : List (Fin count)} {ticket : Nat}
    (below : ticket < (routes.map fun j => (weights j).toNat).sum) :
    ∃ j, pick weights ticket routes = some j := by
  induction routes generalizing ticket with
  | nil => simp at below
  | cons j routes ih =>
    rw [pick]
    by_cases here : ticket < (weights j).toNat
    · exact ⟨j, if_pos here⟩
    · rw [if_neg here]
      rw [List.map_cons, List.sum_cons] at below
      exact ih (by omega)

theorem weight_of_pick {routes : List (Fin count)} {ticket : Nat}
    (picked : pick weights ticket routes = some i) : i ∈ routes ∧ weights i ≠ 0 := by
  induction routes generalizing ticket with
  | nil => simp [pick] at picked
  | cons j routes ih =>
    rw [pick] at picked
    by_cases here : ticket < (weights j).toNat
    · rw [if_pos here, Option.some.injEq] at picked
      subst picked
      refine ⟨by simp, fun zero => ?_⟩
      simp [zero] at here
    · rw [if_neg here] at picked
      obtain ⟨mem, weighs⟩ := ih picked
      exact ⟨by simp [mem], weighs⟩

theorem count_pick {routes : List (Fin count)} (unique : routes.Nodup) :
    Nat.count (fun ticket => pick weights ticket routes = some i)
      (routes.map fun j => (weights j).toNat).sum = if i ∈ routes then (weights i).toNat else 0 := by
  induction routes with
  | nil => simp
  | cons j routes ih =>
    obtain ⟨absent, unique⟩ := List.nodup_cons.mp unique
    have rest : Nat.count (fun k => pick weights ((weights j).toNat + k) (j :: routes) = some i)
        (routes.map fun j => (weights j).toNat).sum =
          if i ∈ routes then (weights i).toNat else 0 := by
      rw [← ih unique]
      congr 1
      funext k
      rw [pick, if_neg (by omega), Nat.add_sub_cancel_left]
    have first : Nat.count (fun k => pick weights k (j :: routes) = some i) (weights j).toNat =
        if j = i then (weights j).toNat else 0 := by
      by_cases same : j = i
      · rw [if_pos same, Nat.count_iff_forall]
        intro k below
        rw [pick, if_pos below, same]
      · rw [if_neg same, Nat.count_iff_forall_not]
        intro k below
        rw [pick, if_pos below, Option.some.injEq]
        exact same
    rw [List.map_cons, List.sum_cons, Nat.count_add, first, rest]
    by_cases same : j = i
    · subst same
      simp [absent]
    · simp [same, Ne.symm same]

/- Words. -/

def cutoff (weights : Weights count) : UInt64 :=
  (0 - UInt64.ofNat (totalOf weights)) % UInt64.ofNat (totalOf weights)

def selects (weights : Weights count) (word : UInt64) : Option (Fin count) :=
  pick weights (word % UInt64.ofNat (totalOf weights)).toNat (List.finRange count)

theorem toNat_total (few : count ≤ maxPollQueues) :
    (UInt64.ofNat (totalOf weights)).toNat = totalOf weights :=
  UInt64.toNat_ofNat_of_lt' (totalOf_lt weights few)

theorem toNat_cutoff (few : count ≤ maxPollQueues) (active : 0 < totalOf weights) :
    (cutoff weights).toNat = 2 ^ 64 % totalOf weights := by
  have small := totalOf_lt weights few
  have whole : 2 ^ 64 = totalOf weights + (2 ^ 64 - totalOf weights) := by omega
  have negated : (2 ^ 64 - totalOf weights) % 2 ^ 64 = 2 ^ 64 - totalOf weights :=
    Nat.mod_eq_of_lt (by omega)
  rw [cutoff, UInt64.toNat_mod, UInt64.toNat_sub, toNat_total few, UInt64.toNat_zero, Nat.add_zero,
    negated]
  conv_rhs => rw [whole, Nat.add_mod_left]

theorem cutoff_lt (few : count ≤ maxPollQueues) (active : 0 < totalOf weights) :
    (cutoff weights).toNat < totalOf weights := by
  rw [toNat_cutoff few active]
  exact Nat.mod_lt _ active

theorem accepted_blocks (few : count ≤ maxPollQueues) (active : 0 < totalOf weights) :
    (cutoff weights).toNat +
      totalOf weights * ((2 ^ 64 - (cutoff weights).toNat) / totalOf weights) = 2 ^ 64 := by
  rw [toNat_cutoff few active]
  have blocks : 2 ^ 64 - 2 ^ 64 % totalOf weights = totalOf weights * (2 ^ 64 / totalOf weights) := by
    have := Nat.mod_add_div (2 ^ 64) (totalOf weights)
    omega
  rw [blocks, Nat.mul_div_cancel_left _ active]
  exact Nat.mod_add_div _ _

theorem exists_selects (few : count ≤ maxPollQueues) (active : 0 < totalOf weights)
    (word : UInt64) : ∃ j, selects weights word = some j := by
  refine pick_isSome ?_
  rw [UInt64.toNat_mod, toNat_total few]
  exact Nat.mod_lt _ active

theorem ncard_selects (few : count ≤ maxPollQueues) (active : 0 < totalOf weights) (i : Fin count) :
    {word : UInt64 | cutoff weights ≤ word ∧ selects weights word = some i}.ncard =
      (weights i).toNat * ((2 ^ 64 - (cutoff weights).toNat) / totalOf weights) := by
  let drawn := fun n : Nat => pick weights (n % totalOf weights) (List.finRange count) = some i
  have periodic : Function.Periodic drawn (totalOf weights) := by
    intro n
    simp [drawn]
  have numbers : UInt64.toNat '' {word | cutoff weights ≤ word ∧ selects weights word = some i} =
      ((Finset.Ico (cutoff weights).toNat (2 ^ 64)).filter drawn : Set Nat) := by
    ext n
    simp only [Set.mem_image, Set.mem_ofPred_eq, Finset.coe_filter, Finset.mem_Ico]
    constructor
    · rintro ⟨word, ⟨above, picked⟩, rfl⟩
      rw [selects, UInt64.toNat_mod, toNat_total few] at picked
      exact ⟨⟨UInt64.le_iff_toNat_le.mp above, word.toNat_lt⟩, picked⟩
    · rintro ⟨⟨above, small⟩, picked⟩
      have back : (UInt64.ofNat n).toNat = n := UInt64.toNat_ofNat_of_lt' small
      refine ⟨UInt64.ofNat n, ⟨?_, ?_⟩, back⟩
      · rw [UInt64.le_iff_toNat_le, back]
        exact above
      · rw [selects, UInt64.toNat_mod, toNat_total few, back]
        exact picked
  have one : Nat.count drawn (totalOf weights) = (weights i).toNat := by
    have tickets : Nat.count (fun ticket => pick weights ticket (List.finRange count) = some i)
        (totalOf weights) = (weights i).toNat := by
      rw [totalOf, count_pick (List.nodup_finRange count), if_pos (List.mem_finRange i)]
    rw [← tickets, Nat.count_eq_card_filter_range, Nat.count_eq_card_filter_range]
    congr 1
    refine Finset.filter_congr fun n mem => ?_
    simp only [drawn, Nat.mod_eq_of_lt (Finset.mem_range.mp mem)]
  rw [← Set.ncard_image_of_injective _ fun _ _ => UInt64.toNat_inj.mp, numbers,
    Set.ncard_coe_finset]
  have blocks := card_blocks periodic (cutoff weights).toNat
    ((2 ^ 64 - (cutoff weights).toNat) / totalOf weights)
  rwa [accepted_blocks few active, one] at blocks

/- The stream. -/

def mixed (state : UInt64) : UInt64 :=
  let word := (state ^^^ (state >>> 30)) * 0xbf58476d1ce4e5b9
  let word := (word ^^^ (word >>> 27)) * 0x94d049bb133111eb
  word ^^^ (word >>> 31)

/-- The state after `k` words. -/
def stateAfter (l : Lottery) (k : Nat) : UInt64 :=
  l.state + UInt64.ofNat k * 0x9e3779b97f4a7c15

@[simp] theorem stateAfter_zero (l : Lottery) : l.stateAfter 0 = l.state := by
  simp [stateAfter]

theorem word_eq (l : Lottery) : l.word = (mixed (l.stateAfter 1), ⟨l.stateAfter 1⟩) := by
  simp [stateAfter, mixed, word]

theorem stateAfter_word (l : Lottery) (k : Nat) : l.word.2.stateAfter k = l.stateAfter (k + 1) := by
  rw [word_eq]
  simp only [stateAfter, UInt64.ofNat_add, UInt64.add_mul]
  ac_rfl

theorem mixed_bijective : Function.Bijective mixed := by
  have first : Function.Injective fun w : UInt64 => w ^^^ (w >>> 30) :=
    xorShift_injective (by decide)
  have second : Function.Injective fun w : UInt64 => w ^^^ (w >>> 27) :=
    xorShift_injective (by decide)
  have third : Function.Injective fun w : UInt64 => w ^^^ (w >>> 31) :=
    xorShift_injective (by decide)
  have scaled : Function.Injective fun w : UInt64 => w * 0xbf58476d1ce4e5b9 :=
    mul_injective (u := 0x96de1b173f119089) (by decide)
  have rescaled : Function.Injective fun w : UInt64 => w * 0x94d049bb133111eb :=
    mul_injective (u := 0x319642b2d24d8ec3) (by decide)
  have injective : Function.Injective mixed :=
    third.comp (rescaled.comp (second.comp (scaled.comp first)))
  exact Finite.injective_iff_bijective.mp injective

theorem stateAfter_injOn (l : Lottery) {j k : Nat} (hj : j < 2 ^ 64) (hk : k < 2 ^ 64)
    (same : l.stateAfter j = l.stateAfter k) : j = k := by
  have multiples := (UInt64.add_right_inj _).mp same
  exact multiples_injOn (u := 0xf1de83e19937733d) (by decide) hj hk multiples

theorem stateAfter_bijective (l : Lottery) :
    Function.Bijective fun k : Fin (2 ^ 64) => l.stateAfter k := by
  constructor
  · intro j k same
    exact Fin.ext (l.stateAfter_injOn j.isLt k.isLt same)
  · intro state
    let steps := (state - l.state) * 0xf1de83e19937733d
    refine ⟨⟨steps.toNat, steps.toNat_lt⟩, ?_⟩
    have unit : (0xf1de83e19937733d : UInt64) * 0x9e3779b97f4a7c15 = 1 := by decide
    simp only [stateAfter, UInt64.ofNat_toNat, steps, UInt64.mul_assoc, unit, UInt64.mul_one]
    rw [UInt64.add_comm, UInt64.sub_add_cancel]

theorem draw_of_first {c : UInt64} {k fuel : Nat} {l : Lottery} (enough : k < fuel)
    (skipped : ∀ j < k, mixed (l.stateAfter (j + 1)) < c)
    (reached : c ≤ mixed (l.stateAfter (k + 1))) :
    l.draw c fuel = some (mixed (l.stateAfter (k + 1)), ⟨l.stateAfter (k + 1)⟩) := by
  induction k generalizing fuel l with
  | zero =>
    obtain ⟨fuel, rfl⟩ := Nat.exists_eq_add_of_lt enough
    rw [Nat.zero_add, draw, word_eq, if_pos reached]
  | succ k ih =>
    obtain ⟨fuel, rfl⟩ := Nat.exists_eq_succ_of_ne_zero (Nat.ne_zero_of_lt enough)
    have low : ¬ c ≤ l.word.1 := by
      rw [word_eq, UInt64.not_le]
      exact skipped 0 (Nat.succ_pos k)
    rw [draw, if_neg low, ih (by omega) _ _]
    · simp only [stateAfter_word]
    · intro j below
      rw [stateAfter_word]
      exact skipped (j + 1) (by omega)
    · rw [stateAfter_word]
      exact reached

theorem exists_first (few : count ≤ maxPollQueues) (active : 0 < totalOf weights) (l : Lottery) :
    ∃ k < totalOf weights, (∀ j < k, mixed (l.stateAfter (j + 1)) < cutoff weights) ∧
      cutoff weights ≤ mixed (l.stateAfter (k + 1)) := by
  have low := cutoff_lt few active
  have small := totalOf_lt weights few
  have different : ∀ j ≤ (cutoff weights).toNat, ∀ k ≤ (cutoff weights).toNat,
      mixed (l.stateAfter (j + 1)) = mixed (l.stateAfter (k + 1)) → j = k := by
    intro j hj k hk same
    have := l.stateAfter_injOn (by omega) (by omega) (mixed_bijective.injective same)
    omega
  obtain ⟨n, below, reaches⟩ := exists_reaching different
  have reached : ∃ k, cutoff weights ≤ mixed (l.stateAfter (k + 1)) :=
    ⟨n, UInt64.le_iff_toNat_le.mpr reaches⟩
  refine ⟨Nat.find reached, ?_, fun j before => ?_, Nat.find_spec reached⟩
  · have := Nat.find_le (h := reached) (UInt64.le_iff_toNat_le.mpr reaches)
    omega
  · exact UInt64.not_le.mp (Nat.find_min reached before)

theorem ncard_rejected (few : count ≤ maxPollQueues) (active : 0 < totalOf weights) :
    {word : UInt64 | word < cutoff weights}.ncard < totalOf weights := by
  have numbers : UInt64.toNat '' {word | word < cutoff weights} =
      (Finset.range (cutoff weights).toNat : Set Nat) := by
    ext n
    simp only [Set.mem_image, Set.mem_ofPred_eq, Finset.coe_range, Set.mem_Iio]
    constructor
    · rintro ⟨word, below, rfl⟩
      exact UInt64.lt_iff_toNat_lt.mp below
    · intro below
      have back : (UInt64.ofNat n).toNat = n :=
        UInt64.toNat_ofNat_of_lt' (below.trans (UInt64.toNat_lt _))
      exact ⟨UInt64.ofNat n, UInt64.lt_iff_toNat_lt.mpr (back.symm ▸ below), back⟩
  rw [← Set.ncard_image_of_injective _ fun _ _ => UInt64.toNat_inj.mp, numbers,
    Set.ncard_coe_finset, Finset.card_range]
  exact cutoff_lt few active

theorem exists_issue (few : count ≤ maxPollQueues) (active : 0 < totalOf weights) (l : Lottery) :
    ∃ k < totalOf weights, ∃ i, (∀ j < k, mixed (l.stateAfter (j + 1)) < cutoff weights) ∧
      cutoff weights ≤ mixed (l.stateAfter (k + 1)) ∧
      selects weights (mixed (l.stateAfter (k + 1))) = some i ∧
      l.issue weights (totalOf weights) = some (i, ⟨l.stateAfter (k + 1)⟩) := by
  obtain ⟨k, below, skipped, reached⟩ := exists_first few active l
  obtain ⟨i, selected⟩ := exists_selects few active (mixed (l.stateAfter (k + 1)))
  have enough : k < 2 ^ 64 := below.trans (totalOf_lt weights few)
  have drawn := draw_of_first enough skipped reached
  have picked : pick weights (mixed (l.stateAfter (k + 1)) % UInt64.ofNat (totalOf weights)).toNat
      (List.finRange count) = some i := selected
  refine ⟨k, below, i, skipped, reached, selected, ?_⟩
  rw [issue, ← cutoff, drawn]
  simp only [Option.bind_eq_bind, Option.bind_some, picked, Option.pure_def]

theorem lottery_unbiased_and_total (few : count ≤ maxPollQueues) (active : 0 < totalOf weights) :
    (∀ i, {word : UInt64 | cutoff weights ≤ word ∧ selects weights word = some i}.ncard =
      (weights i).toNat * ((2 ^ 64 - (cutoff weights).toNat) / totalOf weights)) ∧
    (∀ word, ∃ i, selects weights word = some i ∧ weights i ≠ 0) ∧
    Function.Bijective mixed ∧
    (∀ l : Lottery, Function.Bijective fun k : Fin (2 ^ 64) => l.stateAfter k) ∧
    {word : UInt64 | word < cutoff weights}.ncard < totalOf weights ∧
    ∀ l : Lottery, ∃ k < totalOf weights, ∃ i,
      (∀ j < k, mixed (l.stateAfter (j + 1)) < cutoff weights) ∧
      cutoff weights ≤ mixed (l.stateAfter (k + 1)) ∧
      selects weights (mixed (l.stateAfter (k + 1))) = some i ∧
      l.issue weights (totalOf weights) = some (i, ⟨l.stateAfter (k + 1)⟩) := by
  refine ⟨ncard_selects few active, fun word => ?_, mixed_bijective, stateAfter_bijective,
    ncard_rejected few active, exists_issue few active⟩
  obtain ⟨i, selected⟩ := exists_selects few active word
  exact ⟨i, selected, (weight_of_pick selected).2⟩

def oneToTwo : Weights 2 :=
  fun i => if i = 0 then 1 else 2

/-- Weights one and two share all words but one. -/
theorem words_of_one_to_two :
    {word | cutoff oneToTwo ≤ word ∧ selects oneToTwo word = some 0}.ncard =
      6148914691236517205 ∧
    {word | cutoff oneToTwo ≤ word ∧ selects oneToTwo word = some 1}.ncard =
      2 * 6148914691236517205 := by
  have active : 0 < totalOf oneToTwo := by decide
  have shares := (lottery_unbiased_and_total (by decide) active).1
  have low : (cutoff oneToTwo).toNat = 1 := by decide
  have total : totalOf oneToTwo = 3 := by decide
  rw [shares, shares, low, total]
  exact ⟨by decide, by decide⟩

end Lottery
end Ledgence
