/-
How large a floored remainder is. The truncated remainder is smaller than the divisor (`rem_lt`), and
where its sign is not that of the divisor, the divisor is added. The sum is brought into range, which
can round it up to the divisor itself: it does so for the remainder of `-10^(-28)` by the largest
decimal. So a floored remainder need not be smaller than the divisor, only not larger.
-/
import Flowchart.Expression.Tree
import Flowchart.Proofs.Decimal.Rounding

namespace Flowchart.Decimal

variable {a b t r : Decimal}

/-- The values, both written with `s` places, are in the same order as the units. -/
theorem natAbs_units_lt {s : Nat} (ha : a.scale ≤ s) (hb : b.scale ≤ s) (hs : s ≤ maxScale)
    (h : a.mantissa * 10 ^ (s - a.scale) < b.mantissa * 10 ^ (s - b.scale)) :
    a.units.natAbs < b.units.natAbs := by
  rw [natAbs_units_eq ha hs, natAbs_units_eq hb hs]
  exact Nat.mul_lt_mul_of_pos_right h (ten_pow_pos _)

theorem natAbs_units_le {s : Nat} (ha : a.scale ≤ s) (hb : b.scale ≤ s) (hs : s ≤ maxScale)
    (h : a.mantissa * 10 ^ (s - a.scale) ≤ b.mantissa * 10 ^ (s - b.scale)) :
    a.units.natAbs ≤ b.units.natAbs := by
  rw [natAbs_units_eq ha hs, natAbs_units_eq hb hs]
  exact Nat.mul_le_mul_right _ h

/-- A truncated remainder is smaller than the divisor, also where it is not exact. -/
theorem rem_lt (hb : b.isZero = false) (h : a.rem b = some t) : t.units.natAbs < b.units.natAbs := by
  have hm : 0 < b.mantissa := Nat.pos_of_ne_zero (isZero_eq_false.1 hb)
  have hs : max a.scale b.scale ≤ maxScale := Nat.max_le.2 ⟨a.scale_le, b.scale_le⟩
  have hzero : zero.units.natAbs < b.units.natAbs := by
    refine natAbs_units_lt (Nat.zero_le b.scale) (Nat.le_refl _) b.scale_le ?_
    simpa [zero] using hm
  have hy : 0 < b.mantissa * 10 ^ (max a.scale b.scale - b.scale) := Nat.mul_pos hm (ten_pow_pos _)
  unfold rem at h
  split at h
  · cases h
    exact hzero
  dsimp only at h
  split at h
  · cases h
    exact hzero
  split at h
  next hlt =>
    cases h
    exact natAbs_units_lt (Nat.le_max_left _ _) (Nat.le_max_right _ _) hs hlt
  · obtain ⟨-, hmantissa, hscale⟩ := ofParts?_eq_some h
    refine natAbs_units_lt (Nat.le_of_eq hscale) (Nat.le_max_right _ _) hs ?_
    rw [hmantissa, hscale, Nat.sub_self, Nat.pow_zero, Nat.mul_one]
    split
    · exact wideRemainder_lt hy _
    · exact Nat.mod_lt _ hy

/-! ## The correction of the sign -/

/-- If a decimal is `v` in units of the last of `s` places, then `v` is on a grid of `s` places. -/
theorem exists_grid {d : Decimal} {v s : Nat} (hs : s ≤ maxScale)
    (h : d.units.natAbs = v * 10 ^ (maxScale - s)) : ∃ c j, j ≤ s ∧ c < mantissaBound ∧ v = c * 10 ^ j := by
  rcases Nat.le_total d.scale s with hle | hge
  · refine ⟨d.mantissa, s - d.scale, Nat.sub_le _ _, d.mantissa_lt, ?_⟩
    rw [natAbs_units_eq hle hs] at h
    exact (Nat.eq_of_mul_eq_mul_right (ten_pow_pos _) h).symm
  · -- The decimal has more places than `v`, so they are zeros and `v` itself is in range.
    refine ⟨v, 0, Nat.zero_le s, ?_, by simp⟩
    rw [natAbs_units_eq (Nat.le_refl d.scale) d.scale_le, Nat.sub_self, Nat.pow_zero, Nat.mul_one] at h
    have hsplit : maxScale - s = (d.scale - s) + (maxScale - d.scale) := by have := d.scale_le; omega
    rw [hsplit, Nat.pow_add, ← Nat.mul_assoc] at h
    have hd : d.mantissa = v * 10 ^ (d.scale - s) := Nat.eq_of_mul_eq_mul_right (ten_pow_pos _) h
    calc v ≤ v * 10 ^ (d.scale - s) := Nat.le_mul_of_pos_right v (ten_pow_pos _)
      _ = d.mantissa := hd.symm
      _ < mantissaBound := d.mantissa_lt

/-- A sum of nonzero decimals: the exact sum, at the places of both, brought into range. -/
theorem add_eq_fit (ha : a.isZero = false) (hb : b.isZero = false) :
    a.add b = fit (a.scaledTo (max a.scale b.scale) + b.scaledTo (max a.scale b.scale) < 0)
      (a.scaledTo (max a.scale b.scale) + b.scaledTo (max a.scale b.scale)).natAbs (max a.scale b.scale) 0 := by
  simp [add, ha, hb]

/-- A sum that is a decimal is exact. -/
theorem units_add_natAbs (ha : a.isZero = false) (hb : b.isZero = false) (h : a.add b = some r)
    {d : Decimal} (hd : d.units = a.units + b.units) : r.units.natAbs = (a.units + b.units).natAbs := by
  have hs : max a.scale b.scale ≤ maxScale := Nat.max_le.2 ⟨a.scale_le, b.scale_le⟩
  rw [add_eq_fit ha hb] at h
  rw [units_eq (Nat.le_max_left _ _) hs, units_eq (Nat.le_max_right _ _) hs, ← Int.add_mul] at hd ⊢
  generalize a.scaledTo (max a.scale b.scale) + b.scaledTo (max a.scale b.scale) = sum at h hd ⊢
  have habs : (sum * 10 ^ (maxScale - max a.scale b.scale)).natAbs =
      sum.natAbs * 10 ^ (maxScale - max a.scale b.scale) := by
    rw [Int.natAbs_mul]
    simp [Int.natAbs_pow]
  obtain ⟨c, j, hj, hc, hv⟩ := exists_grid hs (by rw [hd, habs])
  rw [natAbs_units_eq (fit_scale_le h) hs, fit_exact h hj hc hv, habs]

/-- A sum of opposite signs, the first number being the smaller one. -/
theorem add_of_opposite {m n : Int} (hsign : m.sign = -n.sign) (hlt : m.natAbs < n.natAbs) :
    m + n ≠ 0 ∧ (m + n).sign = n.sign ∧ (m + n).natAbs < n.natAbs := by
  rcases Int.lt_trichotomy n 0 with hn | hn | hn
  · rw [Int.sign_eq_neg_one_of_neg hn] at hsign ⊢
    have hm := Int.sign_eq_one_iff_pos.1 hsign
    exact ⟨by omega, Int.sign_eq_neg_one_of_neg (by omega), by omega⟩
  · omega
  · rw [Int.sign_eq_one_of_pos hn] at hsign ⊢
    have hm := Int.sign_eq_neg_one_iff_neg.1 hsign
    exact ⟨by omega, Int.sign_eq_one_of_pos (by omega), by omega⟩

theorem sign_scaledTo_opposite (ht : t.isZero = false) (hb : b.isZero = false)
    (hneg : t.negative ≠ b.negative) (s : Nat) : (t.scaledTo s).sign = -(b.scaledTo s).sign := by
  rw [sign_scaledTo (isZero_eq_false.1 ht), sign_scaledTo (isZero_eq_false.1 hb)]
  cases htn : t.negative <;> cases hbn : b.negative <;> simp_all

/-- Adding the divisor to a smaller number of the other sign: the sum has the sign of the divisor, and
rounding does not take it past the divisor. -/
theorem units_add_opposite (ht : t.isZero = false) (hb : b.isZero = false) (hneg : t.negative ≠ b.negative)
    (hlt : t.units.natAbs < b.units.natAbs) (h : t.add b = some r) :
    r.units.sign = b.units.sign ∧ r.units.natAbs ≤ b.units.natAbs := by
  have hs : max t.scale b.scale ≤ maxScale := Nat.max_le.2 ⟨t.scale_le, b.scale_le⟩
  have hbm := isZero_eq_false.1 hb
  rw [add_eq_fit ht hb] at h
  rw [natAbs_units_eq (Nat.le_max_left _ _) hs, natAbs_units_eq (Nat.le_max_right _ _) hs,
    ← natAbs_scaledTo, ← natAbs_scaledTo] at hlt
  obtain ⟨hne, hsign, hsum⟩ :=
    add_of_opposite (sign_scaledTo_opposite ht hb hneg _) (Nat.lt_of_mul_lt_mul_right hlt)
  have hbabs := natAbs_scaledTo (max t.scale b.scale) b
  rw [sign_scaledTo hbm] at hsign
  generalize t.scaledTo (max t.scale b.scale) + b.scaledTo (max t.scale b.scale) = sum at h hne hsign hsum
  have hnegative : decide (sum < 0) = b.negative := by
    cases hbn : b.negative with
    | true =>
      rw [hbn] at hsign
      exact decide_eq_true (Int.sign_eq_neg_one_iff_neg.1 hsign)
    | false =>
      rw [hbn] at hsign
      have := Int.sign_eq_one_iff_pos.1 hsign
      exact decide_eq_false (by omega)
  constructor
  · rw [units, sign_scaledTo (fit_ne_zero h (by omega)), fit_negative h, hnegative, units, sign_scaledTo hbm]
  · refine natAbs_units_le (fit_scale_le h) (Nat.le_max_right _ _) hs ?_
    exact fit_le h (Nat.sub_le _ _) b.mantissa_lt (hbabs ▸ Nat.le_of_lt hsum)

/-! ## Floored remainders -/

theorem apply_mod_eq_ok (h : ArithOp.mod.apply a b = .ok r) : b.isZero = false ∧ a.floorMod b = some r := by
  cases hb : b.isZero with
  | true => simp [ArithOp.apply, hb] at h
  | false =>
    cases hr : a.floorMod b with
    | none => simp [ArithOp.apply, hb, hr] at h
    | some d =>
      simp only [ArithOp.apply, hb, hr] at h
      cases h
      exact ⟨rfl, rfl⟩

/-- A floored remainder is the truncated one, or that one and the divisor. -/
theorem floorMod_cases (h : a.floorMod b = some r) :
    ∃ t, a.rem b = some t ∧ ((r = t ∧ (t.isZero = true ∨ t.negative = b.negative)) ∨
      (t.isZero = false ∧ t.negative ≠ b.negative ∧ t.add b = some r)) := by
  unfold floorMod at h
  obtain ⟨t, ht, h⟩ := Option.bind_eq_some_iff.1 h
  refine ⟨t, ht, ?_⟩
  split at h
  next hopposite =>
    simp only [Bool.and_eq_true, Bool.not_eq_true', bne_iff_ne] at hopposite
    exact .inr ⟨hopposite.1, hopposite.2, h⟩
  next hsame =>
    cases h
    refine .inl ⟨rfl, ?_⟩
    cases hz : r.isZero with
    | true => exact .inl rfl
    | false => exact .inr (by simpa [hz] using hsame)

/-- **A floored remainder has the sign of the divisor and is not larger.** It is smaller, except where
the sign of the truncated remainder was corrected and the exact sum is not a decimal. -/
theorem floored_remainder_within_divisor (h : ArithOp.mod.apply a b = .ok r) :
    (r.units = 0 ∨ r.units.sign = b.units.sign) ∧ r.units.natAbs ≤ b.units.natAbs ∧
      (r.units.natAbs = b.units.natAbs →
        ∃ t, a.rem b = some t ∧ t.units ≠ 0 ∧ t.units.sign = -b.units.sign ∧
          ∀ d : Decimal, d.units ≠ t.units + b.units) := by
  obtain ⟨hb, hr⟩ := apply_mod_eq_ok h
  have hbm := isZero_eq_false.1 hb
  obtain ⟨t, ht, ⟨rfl, hsame⟩ | ⟨htz, hneg, hadd⟩⟩ := floorMod_cases hr
  · have hlt := rem_lt hb ht
    refine ⟨?_, Nat.le_of_lt hlt, fun heq => absurd heq (Nat.ne_of_lt hlt)⟩
    by_cases hz : r.mantissa = 0
    · exact .inl (units_eq_zero.2 hz)
    · have hneg : r.negative = b.negative := hsame.resolve_left (by simpa [isZero] using hz)
      refine .inr ?_
      rw [units, sign_scaledTo hz, hneg, units, sign_scaledTo hbm]
  · have hlt := rem_lt hb ht
    obtain ⟨hsign, hle⟩ := units_add_opposite htz hb hneg hlt hadd
    have hopposite : t.units.sign = -b.units.sign := sign_scaledTo_opposite htz hb hneg maxScale
    have hne : t.units ≠ 0 := fun hz => isZero_eq_false.1 htz (units_eq_zero.1 hz)
    refine ⟨.inr hsign, hle, fun heq => ⟨t, ht, hne, hopposite, fun d hd => ?_⟩⟩
    -- A sum that is a decimal is exact, and then smaller than the divisor.
    rw [units_add_natAbs htz hb hadd hd] at heq
    exact Nat.ne_of_lt (add_of_opposite hopposite hlt).2.2 heq

/-- The last clause is met where rounding reaches the divisor: `largest - least` is no decimal. -/
theorem floored_remainder_within_divisor_largest :
    ArithOp.mod.apply least.neg largest = .ok largest ∧
      ∃ t, least.neg.rem largest = some t ∧ t.units ≠ 0 ∧ t.units.sign = -largest.units.sign ∧
        ∀ d : Decimal, d.units ≠ t.units + largest.units := by
  have h : ArithOp.mod.apply least.neg largest = .ok largest := by decide +kernel
  exact ⟨h, (floored_remainder_within_divisor h).2.2 rfl⟩

/-- A floored remainder need not be smaller than the divisor. -/
theorem floored_remainder_reaches_divisor :
    ¬ ∀ a b r : Decimal, b.isZero = false → ArithOp.mod.apply a b = .ok r →
      (r.units = 0 ∨ r.units.sign = b.units.sign) ∧ r.units.natAbs < b.units.natAbs := by
  intro h
  have happly : ArithOp.mod.apply least.neg largest = .ok largest := by decide +kernel
  exact Nat.lt_irrefl _ (h least.neg largest largest (by decide) happly).2

end Flowchart.Decimal
