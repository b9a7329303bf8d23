/-
Numbers written in decimal digits and read again. Only zero starts with the digit zero. A decimal is
written with every place of its scale, so that reading it never has to round: it comes back with its
mantissa and its scale, and with its sign unless it is zero (`ofText_toText`).
-/
import Flowchart.Decimal.Text
import Flowchart.Text.Blank
import Mathlib

namespace Flowchart

namespace Text

theorem ofDigitChars_cons (c : Char) (ds : List Char) (m : Nat) :
    Nat.ofDigitChars 10 (c :: ds) m = Nat.ofDigitChars 10 ds (10 * m + digitValue c) := by
  rw [Nat.ofDigitChars_cons, digitValue]

theorem le_ofDigitChars (m : Nat) (ds : List Char) : m ≤ Nat.ofDigitChars 10 ds m := by
  rw [Nat.ofDigitChars_eq_ofDigitChars_zero]
  have hpos : 0 < 10 ^ ds.length := Nat.pow_pos (by decide)
  exact Nat.le_add_right_of_le (Nat.le_mul_of_pos_left m hpos)

theorem isDigit_of_mem_digits {n : Nat} {c : Char} (h : c ∈ digits n) : c.isDigit = true :=
  Nat.isDigit_of_mem_toDigits (by decide) (by decide) h

/-- Only zero starts with the digit zero. -/
theorem head?_digits_eq_zero {n : Nat} (h : (digits n).head? = some '0') : n = 0 := by
  induction n using Nat.strong_induction_on with
  | _ n ih =>
    rw [digits, Nat.toDigits_eq_if (by decide)] at h
    split at h
    · simpa using h
    next hn =>
      rw [List.head?_append_of_ne_nil _ Nat.toDigits_ne_nil] at h
      have := ih (n / 10) (by omega) h
      omega

/-- Digits alone are read as their value, if it is below the bound. -/
theorem digits_below_iff {bound n : Nat} {ds : List Char} :
    (if ds.isEmpty || ds.any (!·.isDigit) then none
      else if cappedValue bound ds < bound then some (cappedValue bound ds) else none) = some n ↔
    ds ≠ [] ∧ (∀ c ∈ ds, c.isDigit = true) ∧ Nat.ofDigitChars 10 ds 0 = n ∧ n < bound := by
  have hvalue : digitsValue ds = Nat.ofDigitChars 10 ds 0 := rfl
  by_cases hdigits : ds ≠ [] ∧ ∀ c ∈ ds, c.isDigit = true
  · have hgood : (ds.isEmpty || ds.any (!·.isDigit)) = false := by simpa using hdigits
    rw [cappedValue_eq, hvalue, hgood, ← and_assoc, and_iff_right hdigits]
    simp only [Bool.false_eq_true, if_false, Option.ite_none_right_eq_some, Option.some.injEq]
    omega
  · have hbad : (ds.isEmpty || ds.any (!·.isDigit)) = true := by
      rw [← Bool.not_eq_false]
      simpa using hdigits
    rw [hbad, ← and_assoc]
    simp [hdigits]

/-- A number is read from an optional plus sign and digits whose value is below the bound. -/
theorem unsigned?_eq_some_iff {bound n : Nat} {cs : List Char} :
    unsigned? bound cs = some n ↔ ∃ sign ds, cs = sign ++ ds ∧ (sign = [] ∨ sign = ['+']) ∧ ds ≠ [] ∧
      (∀ c ∈ ds, c.isDigit = true) ∧ Nat.ofDigitChars 10 ds 0 = n ∧ n < bound := by
  cases cs with
  | nil => simp [unsigned?]
  | cons c cs =>
    by_cases hc : c = '+'
    · subst hc
      refine digits_below_iff.trans ⟨fun h => ⟨['+'], cs, rfl, .inr rfl, h⟩, ?_⟩
      rintro ⟨sign, ds, heq, rfl | rfl, h⟩
      · -- A plus sign is no digit.
        rw [List.nil_append] at heq
        exact absurd (h.2.1 '+' (heq ▸ List.mem_cons_self)) (by decide)
      · cases heq
        exact h
    · have hself : unsigned? bound (c :: cs) = if (c :: cs).isEmpty || (c :: cs).any (!·.isDigit) then none
          else if cappedValue bound (c :: cs) < bound then some (cappedValue bound (c :: cs)) else none := by
        unfold unsigned?
        split
        next h => exact absurd (List.cons.inj h).1 hc
        next => rfl
      rw [hself, digits_below_iff]
      constructor
      · intro h
        exact ⟨[], c :: cs, rfl, .inl rfl, h⟩
      · rintro ⟨sign, ds, heq, rfl | rfl, h⟩
        · cases heq
          exact h
        · exact absurd (List.cons.inj heq).1 hc

/-- Letters and digits are not white space. -/
theorem isBlank_of_isAlphanum {c : Char} (h : c.isAlphanum = true) : isBlank c = false := by
  have hrange : 48 ≤ c.toNat ∧ c.toNat ≤ 122 := by
    simp [Char.isAlphanum, Char.isAlpha, Char.isUpper, Char.isLower, Char.isDigit, UInt32.le_iff_toNat_le] at h
    omega
  simp [isBlank]
  omega

end Text

namespace Decimal

/-- The same decimal, without the sign if it is zero. -/
def zeroUnsigned (a : Decimal) : Decimal := { a with negative := a.negative && a.mantissa != 0 }

theorem zeroUnsigned_eq_self {a : Decimal} (h : ¬(a.negative = true ∧ a.mantissa = 0)) :
    a.zeroUnsigned = a := by
  obtain ⟨negative, mantissa, scale, _, _⟩ := a
  cases negative with
  | false => rfl
  | true =>
    have hmantissa : mantissa ≠ 0 := fun hzero => h ⟨rfl, hzero⟩
    simp [zeroUnsigned, hmantissa]

/-- The sign of zero does not change its value. -/
theorem scaledTo_zeroUnsigned (a : Decimal) (s : Nat) : a.zeroUnsigned.scaledTo s = a.scaledTo s := by
  by_cases h : a.negative = true ∧ a.mantissa = 0
  · simp [scaledTo, zeroUnsigned, h]
  · rw [zeroUnsigned_eq_self h]

theorem compare_zeroUnsigned (a : Decimal) : a.compare a.zeroUnsigned = .eq := by
  simp [compare, scaledTo_zeroUnsigned]

/-! ## Reading runs of digits -/

theorem finish_eq (a : Decimal) : finish a.negative a.mantissa a.scale = .ok a.zeroUnsigned := by
  simp [finish, ofParts?, a.mantissa_lt, a.scale_le, zeroUnsigned]

section
variable {negative : Bool} {m s : Nat} {ds : List Char} (hdigits : ∀ c ∈ ds, c.isDigit = true)
  (hm : Nat.ofDigitChars 10 ds m < mantissaBound)

include hdigits hm

/-- Digits before the point go into the mantissa. -/
theorem readDigits_whole (seen : Bool) (rest : List Char) :
    readDigits negative m s false seen (ds ++ rest) =
      readDigits negative (Nat.ofDigitChars 10 ds m) s false (seen || !ds.isEmpty) rest := by
  induction ds generalizing m seen with
  | nil => simp
  | cons c ds ih =>
    obtain ⟨hc, hds⟩ := List.forall_mem_cons.1 hdigits
    rw [Text.ofDigitChars_cons] at hm ⊢
    have hroom : 10 * m + Text.digitValue c < mantissaBound :=
      Nat.lt_of_le_of_lt (Text.le_ofDigitChars _ ds) hm
    have hstep : readDigits negative m s false seen (c :: ds ++ rest) =
        readDigits negative (10 * m + Text.digitValue c) s false true (ds ++ rest) := by
      simp [readDigits, hc, hroom]
    rw [hstep, ih hds hm]
    simp

/-- Digits behind the point go into the mantissa and count as places. -/
theorem readDigits_places (hs : s + ds.length ≤ maxScale) : readDigits negative m s true true ds =
    finish negative (Nat.ofDigitChars 10 ds m) (s + ds.length) := by
  induction ds generalizing m s with
  | nil => simp [readDigits]
  | cons c ds ih =>
    obtain ⟨hc, hds⟩ := List.forall_mem_cons.1 hdigits
    rw [Text.ofDigitChars_cons] at hm ⊢
    rw [List.length_cons] at hs ⊢
    have hroom : 10 * m + Text.digitValue c < mantissaBound :=
      Nat.lt_of_le_of_lt (Text.le_ofDigitChars _ ds) hm
    have hplace : ¬maxScale ≤ s := by omega
    have hstep : readDigits negative m s true true (c :: ds) =
        readDigits negative (10 * m + Text.digitValue c) (s + 1) true true ds := by
      simp [readDigits, hc, hroom, hplace]
    rw [hstep, ih hds hm (by omega), Nat.add_right_comm, Nat.add_assoc]

end

/-! ## Written decimals -/

theorem length_paddedDigits (a : Decimal) : a.scale + 1 ≤ a.paddedDigits.length := by
  simp only [paddedDigits, List.length_append, List.length_replicate]
  omega

theorem isDigit_of_mem_paddedDigits {a : Decimal} {c : Char} (h : c ∈ a.paddedDigits) :
    c.isDigit = true := by
  rcases List.mem_append.1 h with h | h
  · rw [List.eq_of_mem_replicate h]
    rfl
  · exact Text.isDigit_of_mem_digits h

theorem ofDigitChars_paddedDigits (a : Decimal) : Nat.ofDigitChars 10 a.paddedDigits 0 = a.mantissa := by
  rw [paddedDigits, Nat.ofDigitChars_append, Nat.ofDigitChars_replicate_zero]
  simp [Text.digits]

theorem toList_toText (a : Decimal) : a.toText.toList =
    (if a.negative then ['-'] else []) ++ (a.paddedDigits.take (a.paddedDigits.length - a.scale) ++
      if a.scale = 0 then [] else '.' :: a.paddedDigits.drop (a.paddedDigits.length - a.scale)) := by
  simp [toText]

/-- A decimal is written with digits, a sign and a point. -/
theorem mem_toText {a : Decimal} {c : Char} (h : c ∈ a.toText.toList) :
    c.isDigit = true ∨ c = '-' ∨ c = '.' := by
  rw [toList_toText, List.mem_append, List.mem_append] at h
  rcases h with h | h | h
  · cases a.negative <;> simp_all
  · exact .inl (isDigit_of_mem_paddedDigits (List.mem_of_mem_take h))
  · by_cases hscale : a.scale = 0
    · simp [hscale] at h
    · rw [if_neg hscale, List.mem_cons] at h
      rcases h with rfl | h
      · simp
      · exact .inl (isDigit_of_mem_paddedDigits (List.mem_of_mem_drop h))

/-- Zero with `k` places. -/
def zeroText (k : Nat) : String := if k = 0 then "0" else "0." ++ String.ofList (List.replicate k '0')

theorem mem_zeroText {k : Nat} {c : Char} (h : c ∈ (zeroText k).toList) : c = '0' ∨ c = '.' := by
  by_cases hk : k = 0
  · left
    simpa [zeroText, hk] using h
  · have hc : c = '0' ∨ c = '.' ∨ c = '0' := by simpa [zeroText, hk] using h
    tauto

theorem toText_of_mantissa_eq_zero {a : Decimal} (h : a.mantissa = 0) :
    a.toText = (if a.negative then "-" else "") ++ zeroText a.scale := by
  have hpadded : a.paddedDigits = '0' :: List.replicate a.scale '0' := by
    rw [← List.replicate_succ, List.replicate_succ']
    simp [paddedDigits, h, Text.digits]
  have hwhole : ('0' :: List.replicate a.scale '0').length - a.scale = 1 := by simp
  rw [← String.toList_inj, toList_toText, hpadded, hwhole]
  cases a.negative <;> by_cases hscale : a.scale = 0 <;> simp [zeroText, hscale]

/-- The digits of a decimal, with a point between them, are its mantissa and its scale. -/
theorem readDigits_paddedDigits (a : Decimal) :
    readDigits a.negative 0 0 false false (a.paddedDigits.take (a.paddedDigits.length - a.scale) ++
      if a.scale = 0 then [] else '.' :: a.paddedDigits.drop (a.paddedDigits.length - a.scale)) =
    .ok a.zeroUnsigned := by
  have hlength := a.length_paddedDigits
  have hvalue := a.ofDigitChars_paddedDigits
  generalize hn : a.paddedDigits.length - a.scale = n
  set whole := a.paddedDigits.take n with hwhole
  set places := a.paddedDigits.drop n with hplaces
  have hall : whole ++ places = a.paddedDigits := List.take_append_drop n a.paddedDigits
  rw [← hall, Nat.ofDigitChars_append] at hvalue
  have hwholeDigits : ∀ c ∈ whole, c.isDigit = true := fun c hc =>
    isDigit_of_mem_paddedDigits (List.mem_of_mem_take hc)
  have hplacesDigits : ∀ c ∈ places, c.isDigit = true := fun c hc =>
    isDigit_of_mem_paddedDigits (List.mem_of_mem_drop hc)
  have hcount : places.length = a.scale := by
    rw [hplaces, List.length_drop]
    omega
  have hsome : whole.isEmpty = false := by
    rw [hwhole, List.isEmpty_eq_false_iff, ← List.length_pos_iff, List.length_take]
    omega
  -- Every digit has room because the whole mantissa has, so reading never gets to round.
  have hplacesRoom : Nat.ofDigitChars 10 places (Nat.ofDigitChars 10 whole 0) < mantissaBound :=
    hvalue ▸ a.mantissa_lt
  have hwholeRoom : Nat.ofDigitChars 10 whole 0 < mantissaBound :=
    Nat.lt_of_le_of_lt (Text.le_ofDigitChars _ places) hplacesRoom
  rw [readDigits_whole hwholeDigits hwholeRoom, hsome]
  split
  next hscale =>
    have hnil : places = [] := List.eq_nil_of_length_eq_zero (hcount.trans hscale)
    rw [hnil, Nat.ofDigitChars_nil] at hvalue
    rw [hvalue, ← finish_eq, hscale]
    rfl
  next =>
    have hpoint : readDigits a.negative (Nat.ofDigitChars 10 whole 0) 0 false true ('.' :: places) =
        readDigits a.negative (Nat.ofDigitChars 10 whole 0) 0 true true places := by
      simp [readDigits]
    have hle : 0 + places.length ≤ maxScale := by
      rw [Nat.zero_add, hcount]
      exact a.scale_le
    simp only [Bool.false_or, Bool.not_false]
    rw [hpoint, readDigits_places hplacesDigits hplacesRoom hle, hvalue, hcount, Nat.zero_add, finish_eq]

theorem readPlain_of_isDigit {c : Char} (hc : c.isDigit = true) (rest : List Char) :
    readPlain (c :: rest) = readDigits false 0 0 false false (c :: rest) := by
  unfold readPlain
  split
  next h => cases h
  next h =>
    obtain ⟨rfl, -⟩ := List.cons.inj h
    cases hc
  next h =>
    obtain ⟨rfl, -⟩ := List.cons.inj h
    cases hc
  next => rfl

/-- A decimal is read from its text, up to the sign of zero. -/
theorem ofText_toText (a : Decimal) : ofText a.toText = .ok a.zeroUnsigned := by
  have hlength := a.length_paddedDigits
  have hread := a.readDigits_paddedDigits
  have hplain : readPlain a.toText.toList = .ok a.zeroUnsigned := by
    rw [toList_toText]
    cases hnegative : a.negative with
    | true =>
      rw [hnegative] at hread
      exact hread
    | false =>
      obtain ⟨k, hk⟩ : ∃ k, a.paddedDigits.length - a.scale = k + 1 :=
        Nat.exists_eq_succ_of_ne_zero (by omega)
      obtain ⟨c, cs, hcs⟩ := List.exists_cons_of_length_pos (l := a.paddedDigits) (by omega)
      have hc : c.isDigit = true := isDigit_of_mem_paddedDigits (hcs ▸ List.mem_cons_self)
      rw [hnegative, hk, hcs, List.take_succ_cons, List.cons_append] at hread
      rw [hk, hcs, List.take_succ_cons, List.cons_append]
      exact (readPlain_of_isDigit hc _).trans hread
  rw [ofText, ofChars, hplain]

-- The largest mantissa with the most places fills the 29 digits that reading has room for.
example : ofText "-7.9228162514264337593543950335" =
    .ok ⟨true, 79228162514264337593543950335, 28, by decide, by decide⟩ := by
  decide +kernel

end Decimal

end Flowchart
