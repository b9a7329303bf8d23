/-
Decimals without places are integers. As long as the result is below the mantissa bound, sums,
differences, products and floored remainders of integers are exact; beyond it there is no result.
Nothing is rounded: a number without places has none to drop (`fit_whole`).
-/
import Flowchart.Decimal.Remainder
import Flowchart.Proofs.Decimal.Rounding

namespace Flowchart.Decimal

/-- The decimal is written without places, and its value is `n`. Zero may have either sign. -/
structure Whole (a : Decimal) (n : Int) : Prop where
  scale : a.scale = 0
  value : a.scaledTo 0 = n

section
variable {a b r : Decimal} {m n : Int}

theorem whole_zero : zero.Whole 0 := ⟨rfl, by decide⟩

theorem whole_one : one.Whole 1 := ⟨rfl, by decide⟩

theorem Whole.mantissa (h : a.Whole n) : a.mantissa = n.natAbs := by
  rw [← h.value, natAbs_scaledTo, Nat.zero_sub, Nat.pow_zero, Nat.mul_one]

theorem Whole.natAbs_lt (h : a.Whole n) : n.natAbs < mantissaBound := h.mantissa ▸ a.mantissa_lt

theorem Whole.isZero_iff (h : a.Whole n) : a.isZero = true ↔ n = 0 := by
  rw [isZero, beq_iff_eq, h.mantissa, Int.natAbs_eq_zero]

/-- Of an integer other than zero the sign is known. -/
theorem Whole.negative (h : a.Whole n) (hn : n ≠ 0) : a.negative = decide (n < 0) := by
  have hm : a.mantissa ≠ 0 := by rw [h.mantissa]; omega
  have hsign := sign_scaledTo hm 0
  rw [h.value] at hsign
  cases hneg : a.negative with
  | true =>
    rw [hneg] at hsign
    exact (decide_eq_true (Int.sign_eq_neg_one_iff_neg.1 hsign)).symm
  | false =>
    rw [hneg] at hsign
    have := Int.sign_eq_one_iff_pos.1 hsign
    exact (decide_eq_false (by omega)).symm

theorem whole_of_parts (hscale : r.scale = 0) (hm : r.mantissa = n.natAbs)
    (hneg : n ≠ 0 → r.negative = decide (n < 0)) : r.Whole n := by
  refine ⟨hscale, ?_⟩
  by_cases hn : n = 0
  · simp [scaledTo, hm, hn]
  · have hone : (Nat.pow 10 0 : Int) = 1 := rfl
    simp only [scaledTo, hscale, hm, hneg hn, Nat.sub_self, hone, Int.mul_one, decide_eq_true_eq]
    split <;> omega

theorem Whole.neg (h : a.Whole n) : a.neg.Whole (-n) := by
  refine whole_of_parts h.scale (by rw [Int.natAbs_neg]; exact h.mantissa) fun hn => ?_
  rw [Decimal.neg, h.negative (by omega)]
  by_cases hlt : n < 0 <;> simp [hlt] <;> omega

/-- The result is the integer `n`, or there is none because `n` is out of range. -/
def Exactly (result : Option Decimal) (n : Int) : Prop :=
  if n.natAbs < mantissaBound then ∃ r, result = some r ∧ r.Whole n else result = none

theorem Whole.exactly (h : a.Whole n) : Exactly (some a) n := by
  rw [Exactly, if_pos h.natAbs_lt]
  exact ⟨a, rfl, h⟩

theorem exactly_ofParts? {negative : Bool} (hneg : n ≠ 0 → negative = decide (n < 0)) :
    Exactly (ofParts? negative n.natAbs 0) n := by
  by_cases hlt : n.natAbs < mantissaBound
  · rw [Exactly, if_pos hlt, ofParts?, dif_pos ⟨hlt, Nat.zero_le _⟩]
    exact ⟨_, rfl, whole_of_parts rfl rfl hneg⟩
  · rw [Exactly, if_neg hlt, ofParts?, dif_neg fun h => hlt h.1]

/-- A number without places is in range as it is, or not at all. -/
theorem fit_whole (negative : Bool) (v : Nat) : fit negative v 0 0 = ofParts? negative v 0 := by
  by_cases hv : v < mantissaBound
  · simp [fit, excess?, hv, nearestEven_one]
  · simp [fit, excess?, hv, ofParts?]

/-! ## Sums, differences and products -/

theorem Whole.add (ha : a.Whole m) (hb : b.Whole n) : Exactly (a.add b) (m + n) := by
  unfold Decimal.add
  split
  next hz =>
    rw [ha.isZero_iff.1 hz, Int.zero_add]
    exact hb.exactly
  split
  next hz =>
    rw [hb.isZero_iff.1 hz, Int.add_zero]
    exact ha.exactly
  simp only [ha.scale, hb.scale, Nat.max_self, ha.value, hb.value, fit_whole]
  exact exactly_ofParts? fun _ => rfl

theorem Whole.sub (ha : a.Whole m) (hb : b.Whole n) : Exactly (a.sub b) (m - n) := by
  unfold Decimal.sub
  split
  next hz =>
    rw [hb.isZero_iff.1 hz, Int.sub_zero]
    split
    next hza =>
      rw [ha.isZero_iff.1 hza, ← hb.isZero_iff.1 hz]
      exact hb.exactly
    · exact ha.exactly
  · exact ha.add hb.neg

theorem Whole.mul (ha : a.Whole m) (hb : b.Whole n) : Exactly (a.mul b) (m * n) := by
  unfold Decimal.mul
  split
  next hz =>
    rw [Bool.or_eq_true, ha.isZero_iff, hb.isZero_iff, ← Int.mul_eq_zero] at hz
    rw [hz]
    exact whole_zero.exactly
  next hz =>
    rw [Bool.or_eq_true, ha.isZero_iff, hb.isZero_iff, not_or] at hz
    have hsign : (a.negative != b.negative) = decide (m * n < 0) := by
      rw [ha.negative hz.1, hb.negative hz.2]
      rw [Bool.eq_iff_iff]
      simp only [bne_iff_ne, ne_eq, decide_eq_decide, decide_eq_true_eq, mul_neg_iff]
      omega
    have hparts : Exactly (ofParts? (a.negative != b.negative) (m * n).natAbs 0) (m * n) :=
      exactly_ofParts? fun _ => hsign
    simp only [ha.scale, hb.scale, ha.mantissa, hb.mantissa, ← Int.natAbs_mul, Nat.add_zero, Nat.zero_sub,
      fit_whole]
    split
    · simpa using hparts
    · exact hparts

/-! ## Remainders -/

theorem tmod_nonpos (hm : m ≤ 0) : m.tmod n ≤ 0 := by
  have := Int.tmod_nonneg n (Int.neg_nonneg_of_nonpos hm)
  rw [Int.neg_tmod] at this
  omega

theorem Whole.rem (ha : a.Whole m) (hb : b.Whole n) : Exactly (a.rem b) (m.tmod n) := by
  have habs := Int.natAbs_tmod m n
  have hpos : 0 ≤ m → 0 ≤ m.tmod n := Int.tmod_nonneg n
  have hneg : m ≤ 0 → m.tmod n ≤ 0 := tmod_nonpos
  unfold Decimal.rem
  split
  next hz =>
    rw [ha.isZero_iff.1 hz, Int.zero_tmod]
    exact whole_zero.exactly
  next hz =>
  have hm : m ≠ 0 := fun h => hz (ha.isZero_iff.2 h)
  have hone (k : Nat) : k * Nat.pow 10 0 = k := Nat.mul_one k
  simp only [ha.scale, hb.scale, ha.mantissa, hb.mantissa, Nat.max_self, Nat.sub_self, hone, Nat.lt_irrefl,
    false_and, if_false]
  split
  next heq =>
    rw [heq, Nat.mod_self, Int.natAbs_eq_zero] at habs
    rw [habs]
    exact whole_zero.exactly
  split
  next hlt =>
    rw [Nat.mod_eq_of_lt hlt] at habs
    have hself : m.tmod n = m := by omega
    rw [hself]
    exact ha.exactly
  · rw [← habs]
    refine exactly_ofParts? fun hne => ?_
    rw [ha.negative hm, Bool.eq_iff_iff]
    simp only [Bool.and_eq_true, decide_eq_true_eq, bne_iff_ne]
    omega

/-- The floored remainder, from the truncated one. -/
theorem fmod_eq (m n : Int) : m.fmod n =
    if m.tmod n ≠ 0 ∧ ¬(m.tmod n < 0 ↔ n < 0) then m.tmod n + n else m.tmod n := by
  have hpos : 0 ≤ m → 0 ≤ m.tmod n := Int.tmod_nonneg n
  have hneg : m ≤ 0 → m.tmod n ≤ 0 := tmod_nonpos
  simp only [Int.fmod_eq_tmod, Int.dvd_iff_tmod_eq_zero]
  generalize m.tmod n = t at hpos hneg ⊢
  by_cases ht : t = 0
  · simp [ht]
  · simp only [ht, if_false, ne_eq, not_false_eq_true, true_and]
    split <;> split <;> split <;> omega

theorem Whole.floorMod (ha : a.Whole m) (hb : b.Whole n) (hn : n ≠ 0) :
    Exactly (a.floorMod b) (m.fmod n) := by
  have hlt : (m.tmod n).natAbs < n.natAbs := by
    rw [Int.natAbs_tmod]
    exact Nat.mod_lt _ (by omega)
  have hrem := ha.rem hb
  rw [Exactly, if_pos (Nat.lt_trans hlt hb.natAbs_lt)] at hrem
  obtain ⟨t, ht, hwhole⟩ := hrem
  have hcorrected : (!t.isZero && t.negative != b.negative) = true ↔
      m.tmod n ≠ 0 ∧ ¬(m.tmod n < 0 ↔ n < 0) := by
    rw [Bool.and_eq_true, Bool.not_eq_true', ← Bool.not_eq_true, hwhole.isZero_iff, bne_iff_ne]
    refine and_congr_right fun hne => ?_
    rw [hwhole.negative hne, hb.negative hn, ne_eq, decide_eq_decide]
  rw [fmod_eq]
  simp only [Decimal.floorMod, ht, Option.bind_eq_bind, Option.bind_some, hcorrected]
  split
  · exact hwhole.add hb
  · exact hwhole.exactly

theorem Whole.compare (ha : a.Whole m) (hb : b.Whole n) : a.compare b = Ord.compare m n := by
  simp only [Decimal.compare, ha.scale, hb.scale, Nat.max_self, ha.value, hb.value]

end

end Flowchart.Decimal
