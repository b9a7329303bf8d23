/-
The shortest form of a decimal. `normalize` keeps the value (`units_normalize`) and leaves a canonical
decimal, one with no place to spare and no sign on zero. A value has one canonical form, because a
canonical decimal has the fewest places among all decimals of its value (`Canonical.scale_le`). So two
decimals have the same shortest form exactly if they are equal as numbers (`normalize_eq_iff`).
-/
import Flowchart.Proofs.Decimal.Rounding

namespace Flowchart.Decimal

variable {a b : Decimal}

/-- Comparing looks at the value alone. -/
theorem compare_eq_iff : a.compare b = .eq ↔ a.units = b.units := by
  have hs : max a.scale b.scale ≤ maxScale := Nat.max_le.2 ⟨a.scale_le, b.scale_le⟩
  have hpow : (10 : Int) ^ (maxScale - max a.scale b.scale) ≠ 0 := pow_ne_zero _ (by decide)
  rw [units_eq (Nat.le_max_left a.scale b.scale) hs, units_eq (Nat.le_max_right a.scale b.scale) hs,
    mul_left_inj' hpow]
  exact compare_eq_iff_eq

/-! ## Trailing zeros -/

theorem trimZeros_mul (m s : Nat) : (trimZeros m s).1 * 10 ^ (s - (trimZeros m s).2) = m := by
  induction s generalizing m with
  | zero => simp [trimZeros]
  | succ s ih =>
    by_cases hm : m % 10 = 0
    · have hle := trimZeros_snd_le (m / 10) s
      simp only [trimZeros, hm, if_true]
      rw [Nat.succ_sub hle, Nat.pow_succ, ← Nat.mul_assoc, ih]
      omega
    · simp [trimZeros, hm]

theorem trimZeros_trimmed (m s : Nat) : (trimZeros m s).2 = 0 ∨ (trimZeros m s).1 % 10 ≠ 0 := by
  induction s generalizing m with
  | zero => exact .inl rfl
  | succ s ih =>
    by_cases hm : m % 10 = 0
    · simpa only [trimZeros, hm, if_true] using ih (m / 10)
    · simp [trimZeros, hm]

/-! ## Canonical decimals -/

/-- No trailing zero behind the point, and no sign on zero. -/
structure Canonical (a : Decimal) : Prop where
  trimmed : a.scale = 0 ∨ a.mantissa % 10 ≠ 0
  unsigned : a.mantissa = 0 → a.negative = false

theorem canonical_normalize (a : Decimal) : a.normalize.Canonical := by
  by_cases hzero : a.mantissa = 0
  · simp only [normalize, hzero, if_true]
    exact ⟨.inl rfl, fun _ => rfl⟩
  · have hmul := trimZeros_mul a.mantissa a.scale
    have hne : (trimZeros a.mantissa a.scale).1 ≠ 0 := by
      intro h
      rw [h, Nat.zero_mul] at hmul
      exact hzero hmul.symm
    simp only [normalize, hzero, if_false]
    exact ⟨trimZeros_trimmed _ _, fun h => absurd h hne⟩

theorem units_normalize (a : Decimal) : a.normalize.units = a.units := by
  by_cases hzero : a.mantissa = 0
  · simp only [normalize, hzero, if_true]
    rw [units_eq_zero.2 hzero, units_eq_zero.2 rfl]
  · have hle : a.normalize.scale ≤ a.scale := by
      simpa only [normalize, hzero, if_false] using trimZeros_snd_le a.mantissa a.scale
    rw [units_eq hle a.scale_le, units_eq (Nat.le_refl a.scale) a.scale_le]
    -- At the places of `a` the shorter mantissa gets its zeros back.
    have hmul : ((trimZeros a.mantissa a.scale).1 : Int) * 10 ^ (a.scale - (trimZeros a.mantissa a.scale).2) =
        a.mantissa := by
      exact_mod_cast trimZeros_mul a.mantissa a.scale
    simp [scaledTo, normalize, hzero, hmul]

/-- A canonical decimal has the fewest places among the decimals of its value. -/
theorem Canonical.scale_le (ha : a.Canonical) (h : a.units = b.units) : a.scale ≤ b.scale := by
  by_contra hlt
  have hmod : a.mantissa % 10 ≠ 0 := ha.trimmed.resolve_left (by omega)
  have hunits := congrArg Int.natAbs h
  rw [natAbs_units_eq (Nat.le_refl a.scale) a.scale_le, natAbs_units_eq (by omega) a.scale_le, Nat.sub_self,
    Nat.pow_zero, Nat.mul_one] at hunits
  have hmul := Nat.eq_of_mul_eq_mul_right (ten_pow_pos _) hunits
  obtain ⟨k, hk⟩ : ∃ k, a.scale - b.scale = k + 1 := Nat.exists_eq_succ_of_ne_zero (by omega)
  rw [hk, Nat.pow_succ, ← Nat.mul_assoc] at hmul
  omega

theorem Canonical.eq_of_units (ha : a.Canonical) (hb : b.Canonical) (h : a.units = b.units) : a = b := by
  have hscale : a.scale = b.scale := Nat.le_antisymm (ha.scale_le h) (hb.scale_le h.symm)
  have hmantissa : a.mantissa = b.mantissa := by
    have hunits := congrArg Int.natAbs h
    rw [units, units, natAbs_scaledTo, natAbs_scaledTo, hscale] at hunits
    exact Nat.eq_of_mul_eq_mul_right (ten_pow_pos _) hunits
  have hnegative : a.negative = b.negative := by
    by_cases hzero : a.mantissa = 0
    · rw [ha.unsigned hzero, hb.unsigned (hmantissa ▸ hzero)]
    · have hsign := congrArg Int.sign h
      rw [units, units, sign_scaledTo hzero, sign_scaledTo (hmantissa ▸ hzero)] at hsign
      revert hsign
      cases a.negative <;> cases b.negative <;> simp
  cases a
  cases b
  simp_all

/-- **Two decimals have the same shortest form exactly if they are equal as numbers.** -/
theorem normalize_eq_iff : a.normalize = b.normalize ↔ a.compare b = .eq := by
  rw [compare_eq_iff]
  constructor
  · intro h
    rw [← units_normalize a, h, units_normalize b]
  · intro h
    refine (canonical_normalize a).eq_of_units (canonical_normalize b) ?_
    rw [units_normalize, units_normalize, h]

theorem normalize_normalize (a : Decimal) : a.normalize.normalize = a.normalize :=
  normalize_eq_iff.2 (compare_eq_iff.2 (units_normalize a))

end Flowchart.Decimal
