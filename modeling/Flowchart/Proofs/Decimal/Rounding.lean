/-
What bringing a number into range does to it. Values are compared as integers, in units of the last
place that a decimal can have: the value of `a` is `a.units / 10^28`, so no fractions are needed.

* `fit_le`: rounding stays on the side of a decimal on which the exact number is, because fewer
  places are dropped than that decimal lacks (`excess?_le`).
* `fit_exact`: a number that is a decimal is not changed.
* `fit_ne_zero`: only zero is rounded to zero.
-/
import Flowchart.Decimal.Remainder
import Mathlib

namespace Flowchart

/-! ## The nearest natural number -/

theorem nearestEven_le_of_le_mul {v c d : Nat} (hd : 0 < d) (h : v ≤ c * d) : nearestEven v d ≤ c := by
  have hdiv := Nat.div_add_mod v d
  have hmod := Nat.mod_lt v hd
  rw [Nat.mul_comm] at hdiv
  rcases Nat.lt_or_ge (v / d) c with hlt | hge
  · exact Nat.le_trans (nearestEven_le v d) hlt
  · -- The quotient is `c` itself, and nothing remains to be rounded up.
    have hmul := Nat.mul_le_mul_right d hge
    have hq : v / d ≤ c := Nat.div_le_of_le_mul (by rwa [Nat.mul_comm] at h)
    have hr : v % d = 0 := by omega
    simp only [nearestEven, hr]
    split <;> omega

theorem nearestEven_mul (c : Nat) {d : Nat} (hd : 0 < d) : nearestEven (c * d) d = c := by
  have hlow := le_nearestEven (c * d) d
  rw [Nat.mul_div_cancel c hd] at hlow
  exact Nat.le_antisymm (nearestEven_le_of_le_mul hd (Nat.le_refl _)) hlow

namespace Decimal

theorem ten_pow_pos (n : Nat) : 0 < 10 ^ n := Nat.pow_pos (by decide)

/-! ## Values in units of the last place -/

/-- The value times `10^28`. -/
def units (a : Decimal) : Int := a.scaledTo maxScale

theorem natAbs_scaledTo (s : Nat) (a : Decimal) :
    (a.scaledTo s).natAbs = a.mantissa * 10 ^ (s - a.scale) := by
  have hcast : (a.mantissa : Int) * Nat.pow 10 (s - a.scale) =
      ((a.mantissa * 10 ^ (s - a.scale) : Nat) : Int) := by simp
  simp only [scaledTo, hcast]
  split <;> omega

/-- The value at `s` places, in units. -/
theorem units_eq {a : Decimal} {s : Nat} (ha : a.scale ≤ s) (hs : s ≤ maxScale) :
    a.units = a.scaledTo s * 10 ^ (maxScale - s) := by
  have hsplit : maxScale - a.scale = (s - a.scale) + (maxScale - s) := by omega
  simp only [units, scaledTo, hsplit]
  cases a.negative <;> simp [pow_add, mul_assoc]

theorem natAbs_units_eq {a : Decimal} {s : Nat} (ha : a.scale ≤ s) (hs : s ≤ maxScale) :
    a.units.natAbs = a.mantissa * 10 ^ (s - a.scale) * 10 ^ (maxScale - s) := by
  rw [units_eq ha hs, Int.natAbs_mul, natAbs_scaledTo]
  simp [Int.natAbs_pow]

theorem isZero_eq_false {a : Decimal} : a.isZero = false ↔ a.mantissa ≠ 0 := by simp [isZero]

theorem units_eq_zero {a : Decimal} : a.units = 0 ↔ a.mantissa = 0 := by
  rw [← Int.natAbs_eq_zero, units, natAbs_scaledTo]
  simp

/-- The sign of the value is the sign that is kept, unless the value is zero. -/
theorem sign_scaledTo {a : Decimal} (h : a.mantissa ≠ 0) (s : Nat) :
    (a.scaledTo s).sign = if a.negative then -1 else 1 := by
  have hpos : 0 < a.mantissa * 10 ^ (s - a.scale) := Nat.mul_pos (Nat.pos_of_ne_zero h) (ten_pow_pos _)
  have habs := natAbs_scaledTo s a
  cases hneg : a.negative with
  | true =>
    have hle : a.scaledTo s ≤ 0 := by simp [scaledTo, hneg]
    rw [Int.sign_eq_neg_one_of_neg (by omega)]
    rfl
  | false =>
    have hle : 0 ≤ a.scaledTo s := by simp [scaledTo, hneg]
    rw [Int.sign_eq_one_of_pos (by omega)]
    rfl

theorem pred_lt_mantissaBound : mantissaBound - 1 < mantissaBound := by decide

theorem one_lt_mantissaBound : 1 < mantissaBound := by decide

/-- The largest decimal. -/
def largest : Decimal := ⟨false, mantissaBound - 1, 0, pred_lt_mantissaBound, Nat.zero_le maxScale⟩

/-- The smallest decimal above zero. -/
def least : Decimal := ⟨false, 1, maxScale, one_lt_mantissaBound, Nat.le_refl maxScale⟩

theorem ofParts?_eq_some {negative : Bool} {m s : Nat} {r : Decimal} (h : ofParts? negative m s = some r) :
    r.negative = negative ∧ r.mantissa = m ∧ r.scale = s := by
  unfold ofParts? at h
  split at h
  · cases h
    exact ⟨rfl, rfl, rfl⟩
  · cases h

/-! ## Bringing into range -/

/-- The places dropped are the fewest that make room. -/
theorem excess?_le {v s k : Nat} (h : excess? v s 0 = some k) :
    k ≤ s ∧ v / 10 ^ k < mantissaBound ∧ ∀ j ≤ s, v / 10 ^ j < mantissaBound → k ≤ j := by
  unfold excess? at h
  rw [List.find?_range'_eq_some] at h
  obtain ⟨hk, hmem, hbefore⟩ := h
  refine ⟨?_, of_decide_eq_true hk, fun j hj hroom => ?_⟩
  · simp only [List.mem_range'_1] at hmem
    omega
  · by_contra hlt
    have hnot := hbefore j (Nat.zero_le j) (by omega)
    simp only [Bool.not_eq_true', decide_eq_false_iff_not] at hnot
    exact hnot hroom

/-- What is kept of a number that was brought into range: it is rounded once, or a second time when
that carries it to the bound. -/
theorem fit_cases {negative : Bool} {v s : Nat} {r : Decimal} (h : fit negative v s 0 = some r) :
    ∃ k, excess? v s 0 = some k ∧ r.negative = negative ∧
      ((r.mantissa = nearestEven v (10 ^ k) ∧ s - r.scale = k ∧ r.scale ≤ s) ∨
        (mantissaBound ≤ nearestEven v (10 ^ k) ∧ s - r.scale = k + 1 ∧ r.scale ≤ s ∧
          r.mantissa = nearestEven (nearestEven v (10 ^ k)) 10)) := by
  unfold fit at h
  obtain ⟨k, hk, h⟩ := Option.bind_eq_some_iff.1 h
  have hks := (excess?_le hk).1
  refine ⟨k, hk, ?_⟩
  by_cases hroom : nearestEven v (10 ^ k) < mantissaBound
  · have h' : ofParts? negative (nearestEven v (10 ^ k)) (s - k) = some r := by simpa [hroom] using h
    obtain ⟨hneg, hm, hscale⟩ := ofParts?_eq_some h'
    exact ⟨hneg, .inl ⟨hm, by omega, by omega⟩⟩
  · by_cases hplace : s - k = 0
    · simp [hroom, hplace] at h
    · have h' : ofParts? negative (nearestEven (nearestEven v (10 ^ k)) 10) (s - k - 1) = some r := by
        simpa [hroom, hplace] using h
      obtain ⟨hneg, hm, hscale⟩ := ofParts?_eq_some h'
      exact ⟨hneg, .inr ⟨by omega, by omega, by omega, hm⟩⟩

section
variable {negative : Bool} {v s k c j : Nat} {r : Decimal}

theorem fit_scale_le (h : fit negative v s 0 = some r) : r.scale ≤ s := by
  obtain ⟨k, -, -, ⟨-, -, hs⟩ | ⟨-, -, hs, -⟩⟩ := fit_cases h <;> exact hs

theorem fit_negative (h : fit negative v s 0 = some r) : r.negative = negative := by
  obtain ⟨k, -, hneg, -⟩ := fit_cases h
  exact hneg

/-- What is not above a multiple of `10^j` that is in range needs no more than `j` places dropped. -/
theorem excess?_le_grid (hk : excess? v s 0 = some k) (hj : j ≤ s) (hc : c < mantissaBound)
    (hle : v ≤ c * 10 ^ j) : ∃ i, j = i + k := by
  have hroom : v / 10 ^ j < mantissaBound :=
    Nat.lt_of_le_of_lt (Nat.div_le_of_le_mul (by rwa [Nat.mul_comm] at hle)) hc
  have := (excess?_le hk).2.2 j hj hroom
  exact ⟨j - k, by omega⟩

/-- **Rounding does not pass a decimal**, here `c / 10^(s - j)`. -/
theorem fit_le (h : fit negative v s 0 = some r) (hj : j ≤ s) (hc : c < mantissaBound)
    (hle : v ≤ c * 10 ^ j) : r.mantissa * 10 ^ (s - r.scale) ≤ c * 10 ^ j := by
  obtain ⟨k, hk, -, hcases⟩ := fit_cases h
  obtain ⟨i, rfl⟩ := excess?_le_grid hk hj hc hle
  rw [Nat.pow_add, ← Nat.mul_assoc] at hle
  have honce : nearestEven v (10 ^ k) ≤ c * 10 ^ i := nearestEven_le_of_le_mul (ten_pow_pos k) hle
  rcases hcases with ⟨hm, hplaces, -⟩ | ⟨hcarry, hplaces, -, hm⟩
  · rw [hm, hplaces, Nat.pow_add, ← Nat.mul_assoc]
    exact Nat.mul_le_mul_right _ honce
  · -- The decimal is beyond the bound on this grid, so it has a place less as well.
    obtain ⟨i, rfl⟩ : ∃ i', i = i' + 1 := by
      cases i with
      | zero => exact absurd honce (by simp only [Nat.pow_zero, Nat.mul_one]; omega)
      | succ i' => exact ⟨i', rfl⟩
    have htwice : nearestEven (nearestEven v (10 ^ k)) 10 ≤ c * 10 ^ i := by
      refine nearestEven_le_of_le_mul (by decide) ?_
      rwa [Nat.pow_succ, ← Nat.mul_assoc] at honce
    rw [hm, hplaces]
    calc nearestEven (nearestEven v (10 ^ k)) 10 * 10 ^ (k + 1)
      _ ≤ c * 10 ^ i * 10 ^ (k + 1) := Nat.mul_le_mul_right _ htwice
      _ = c * 10 ^ (i + 1 + k) := by ring

/-- A number that is a decimal stays as it is. -/
theorem fit_exact (h : fit negative v s 0 = some r) (hj : j ≤ s) (hc : c < mantissaBound)
    (hv : v = c * 10 ^ j) : r.mantissa * 10 ^ (s - r.scale) = v := by
  obtain ⟨k, hk, -, hcases⟩ := fit_cases h
  obtain ⟨i, rfl⟩ := excess?_le_grid hk hj hc (Nat.le_of_eq hv)
  rw [Nat.pow_add, ← Nat.mul_assoc] at hv
  have honce : nearestEven v (10 ^ k) = c * 10 ^ i := hv ▸ nearestEven_mul _ (ten_pow_pos k)
  rcases hcases with ⟨hm, hplaces, -⟩ | ⟨hcarry, hplaces, -, hm⟩
  · rw [hm, hplaces, honce, hv]
  · obtain ⟨i, rfl⟩ : ∃ i', i = i' + 1 := by
      cases i with
      | zero => exact absurd hcarry (by rw [honce, Nat.pow_zero, Nat.mul_one]; omega)
      | succ i' => exact ⟨i', rfl⟩
    have htwice : nearestEven (nearestEven v (10 ^ k)) 10 = c * 10 ^ i := by
      rw [honce, Nat.pow_succ, ← Nat.mul_assoc]
      exact nearestEven_mul _ (by decide)
    rw [hm, hplaces, htwice, hv]
    ring

/-- Only zero is rounded to zero: places are dropped from a number that keeps many digits. -/
theorem fit_ne_zero (h : fit negative v s 0 = some r) (hv : v ≠ 0) : r.mantissa ≠ 0 := by
  obtain ⟨k, hk, -, hcases⟩ := fit_cases h
  rcases hcases with ⟨hm, -, -⟩ | ⟨hcarry, -, -, hm⟩
  · have hkept : 0 < v / 10 ^ k := by
      cases k with
      | zero => simpa using Nat.pos_of_ne_zero hv
      | succ k =>
        -- One place fewer would not have been enough.
        have hfull : mantissaBound ≤ v / 10 ^ k := by
          by_contra hroom
          have := (excess?_le hk).2.2 k (by have := (excess?_le hk).1; omega) (by omega)
          omega
        rw [Nat.pow_succ, ← Nat.div_div_eq_div_mul]
        exact Nat.div_pos (Nat.le_trans (by decide) hfull) (by decide)
    have := le_nearestEven v (10 ^ k)
    omega
  · have hkept : 0 < nearestEven v (10 ^ k) / 10 :=
      Nat.div_pos (Nat.le_trans (by decide) hcarry) (by decide)
    have := le_nearestEven (nearestEven v (10 ^ k)) 10
    omega

end

end Decimal

end Flowchart
