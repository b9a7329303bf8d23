/-
Fixed-point decimals: a sign, a mantissa below `2^96` and a scale of at most
28 places, standing for `± mantissa / 10^scale`. The scale is kept as it was
written, so `2.50` and `2.5` are two decimals with one value, and zero has a
sign. Comparison is by value (`Decimal.compare`), never by representation.
-/
import Flowchart.Rounding

namespace Flowchart

/-- Every mantissa is below this bound. -/
def mantissaBound : Nat := Nat.pow 2 96

/-- The largest number of decimal places. -/
def maxScale : Nat := 28

/-- The number `± mantissa / 10^scale`. -/
structure Decimal where
  negative : Bool
  mantissa : Nat
  scale : Nat
  mantissa_lt : mantissa < mantissaBound
  scale_le : scale ≤ maxScale
deriving DecidableEq, Repr

namespace Decimal

/-- The decimal with these parts, if they are in range. -/
def ofParts? (negative : Bool) (mantissa scale : Nat) : Option Decimal :=
  if h : mantissa < mantissaBound ∧ scale ≤ maxScale then
    some ⟨negative, mantissa, scale, h.1, h.2⟩
  else none

def zero : Decimal := ⟨false, 0, 0, by decide, by decide⟩

def one : Decimal := ⟨false, 1, 0, by decide, by decide⟩

instance : Inhabited Decimal := ⟨zero⟩

def isZero (a : Decimal) : Bool := a.mantissa == 0

/-- The integer `n` with no decimal places, if its magnitude fits. -/
def ofInt? (n : Int) : Option Decimal := ofParts? (n < 0) n.natAbs 0

/-- The value times `10^s`, exact when `s` is at least the scale. -/
def scaledTo (s : Nat) (a : Decimal) : Int :=
  let m : Int := a.mantissa * Nat.pow 10 (s - a.scale)
  if a.negative then -m else m

/-- Order by value: `1.0` equals `1` and `-0` equals `0`. -/
def compare (a b : Decimal) : Ordering :=
  let s := max a.scale b.scale
  Ord.compare (a.scaledTo s) (b.scaledTo s)

/-- The same magnitude with the other sign, also for zero. -/
def neg (a : Decimal) : Decimal := { a with negative := !a.negative }

/-- Removes trailing zero places: the mantissa and scale that are left. -/
def trimZeros (m : Nat) : Nat → Nat × Nat
  | 0 => (m, 0)
  | s + 1 => if m % 10 = 0 then trimZeros (m / 10) s else (m, s + 1)

theorem trimZeros_fst_le (m s : Nat) : (trimZeros m s).1 ≤ m := by
  induction s generalizing m with
  | zero => simp [trimZeros]
  | succ s ih =>
    unfold trimZeros
    split
    · exact Nat.le_trans (ih _) (Nat.div_le_self _ _)
    · exact Nat.le_refl _

theorem trimZeros_snd_le (m s : Nat) : (trimZeros m s).2 ≤ s := by
  induction s generalizing m with
  | zero => simp [trimZeros]
  | succ s ih =>
    unfold trimZeros
    split
    · exact Nat.le_succ_of_le (ih _)
    · exact Nat.le_refl _

/-- The same value with as few places as possible; every zero becomes `0`. -/
def normalize (a : Decimal) : Decimal :=
  if a.mantissa = 0 then zero
  else
    { negative := a.negative
      mantissa := (trimZeros a.mantissa a.scale).1
      scale := (trimZeros a.mantissa a.scale).2
      mantissa_lt := Nat.lt_of_le_of_lt (trimZeros_fst_le _ _) a.mantissa_lt
      scale_le := Nat.le_trans (trimZeros_snd_le _ _) a.scale_le }

end Decimal

end Flowchart
