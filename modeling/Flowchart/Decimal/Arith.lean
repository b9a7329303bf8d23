/-
Arithmetic on decimals. Each operation computes its exact result on natural
numbers and then brings it into range: `fit` drops as few places as it must,
rounding half to even. `none` means that even without any decimal place the
result is too large.
-/
import Flowchart.Decimal.Basic

namespace Flowchart.Decimal

/-- The least number of places, from `least` up to `scale`, to drop from `v`
so that what is left of it is below the mantissa bound. -/
def excess? (v scale least : Nat) : Option Nat :=
  (List.range' least (scale + 1 - least)).find? fun k => v / Nat.pow 10 k < mantissaBound

/-- `± v / 10^scale` in range: at least `least` places are dropped, and one
more when rounding carries the mantissa up to the bound. -/
def fit (negative : Bool) (v scale least : Nat) : Option Decimal := do
  let k ← excess? v scale least
  let m := nearestEven v (Nat.pow 10 k)
  let s := scale - k
  if m < mantissaBound then ofParts? negative m s
  else if s = 0 then none
  else ofParts? negative (nearestEven m 10) (s - 1)

/-- The sum. A zero operand leaves the other one as it is written. -/
def add (a b : Decimal) : Option Decimal :=
  if a.isZero then some b
  else if b.isZero then some a
  else
    let s := max a.scale b.scale
    let sum := a.scaledTo s + b.scaledTo s
    fit (sum < 0) sum.natAbs s 0

/-- The difference. Taking a zero from a zero leaves the second one. -/
def sub (a b : Decimal) : Option Decimal :=
  if b.isZero then some (if a.isZero then b else a)
  else add a b.neg

/-- The product. It has the places of both operands; those past 28 are
rounded away. Short mantissas whose product would have 48 places or more give
plain `0`. -/
def mul (a b : Decimal) : Option Decimal :=
  if a.isZero || b.isZero then some zero
  else
    let s := a.scale + b.scale
    let v := a.mantissa * b.mantissa
    let negative := a.negative != b.negative
    if a.mantissa < Nat.pow 2 32 ∧ b.mantissa < Nat.pow 2 32 then
      if 47 < s then some zero
      else if maxScale < s then
        let m := nearestEven v (Nat.pow 10 (s - maxScale))
        ofParts? (negative && m != 0) m maxScale
      else ofParts? negative v s
    else fit negative v s (s - maxScale)

/-! ## Division

Long division brings down up to nine places at a time. It stops when nothing
remains, when 28 places are reached, or when no further place fits. -/

/-- A division under way: `(digits + rest / divisor) / 10^scale`. -/
structure LongDivision where
  digits : Nat
  rest : Nat
  scale : Int

/-- Gives up one place of a quotient that has outgrown the bound. `more` says
whether something below the last digit remains. -/
def LongDivision.shrink (q : LongDivision) (more : Bool) : Option LongDivision :=
  if q.scale < 1 then none
  else
    let d := q.digits % 10
    let half := q.digits / 10
    let up := 5 < d ∨ (d = 5 ∧ (more = true ∨ half % 2 = 1))
    some { q with digits := if up then half + 1 else half, scale := q.scale - 1 }

/-- The largest `x` up to `most` with `digits * 10^x` below the bound. -/
def roomFor (digits : Nat) : Nat → Nat
  | 0 => 0
  | x + 1 => if digits * Nat.pow 10 (x + 1) < mantissaBound then x + 1 else roomFor digits x

theorem roomFor_le (digits most : Nat) : roomFor digits most ≤ most := by
  induction most with
  | zero => simp [roomFor]
  | succ x ih => unfold roomFor; split <;> omega

/-- How many places to bring down next; `none` when the quotient is too large. -/
def LongDivision.places? (q : LongDivision) : Option Nat :=
  if q.rest = 0 then some (min 9 (-q.scale).toNat)
  else if q.scale = maxScale then some 0
  else
    let p := roomFor q.digits (min 9 (maxScale - q.scale).toNat)
    if p < 9 ∧ p + q.scale < 0 then none else some p

/-- Places that are brought down leave less to the largest scale. -/
theorem LongDivision.scale_lt_of_places? {q : LongDivision} {p : Nat} (h : q.places? = some (p + 1)) :
    (maxScale - (q.scale + (p + 1))).toNat < (maxScale - q.scale).toNat := by
  have hroom := roomFor_le q.digits (min 9 (maxScale - q.scale).toNat)
  simp only [LongDivision.places?] at h
  split at h
  · simp only [Option.some.injEq] at h
    simp only [maxScale] at *
    omega
  · split at h
    · simp at h
    · split at h
      · simp at h
      · simp only [Option.some.injEq] at h
        simp only [maxScale] at *
        omega

/-- Runs the division to its end. The flag of the result tells whether any
step was inexact. -/
def LongDivision.run (divisor : Nat) (q : LongDivision) (inexact : Bool) : Option (LongDivision × Bool) :=
  let inexact := inexact || q.rest != 0
  match hp : q.places? with
  | none => none
  | some 0 =>
    if q.rest = 0 then some (q, inexact)
    else
      let up := divisor < 2 * q.rest ∨ (divisor = 2 * q.rest ∧ q.digits % 2 = 1)
      let q := if up then { q with digits := q.digits + 1 } else q
      if q.digits < mantissaBound then some (q, inexact)
      else (q.shrink true).map (·, inexact)
  | some (p + 1) =>
    have := LongDivision.scale_lt_of_places? hp
    let rest := q.rest * Nat.pow 10 (p + 1)
    if q.digits * Nat.pow 10 (p + 1) < mantissaBound then
      let next : LongDivision :=
        { digits := q.digits * Nat.pow 10 (p + 1) + rest / divisor
          rest := rest % divisor
          scale := q.scale + (p + 1) }
      if next.digits < mantissaBound then LongDivision.run divisor next inexact
      else (next.shrink (next.rest != 0)).map (·, inexact)
    else none
termination_by (maxScale - q.scale).toNat
decreasing_by exact this

/-- Takes `10^k` out of the digits when `test` passes and it divides them. -/
def LongDivision.drop (k : Nat) (test : Nat → Bool) (q : LongDivision) : LongDivision :=
  if test q.digits && decide ((k : Int) ≤ q.scale) && q.digits % Nat.pow 10 k == 0 then
    { q with digits := q.digits / Nat.pow 10 k, scale := q.scale - k }
  else q

/-- Takes blocks of zeros out of an inexact quotient: eight places at a time
while the digits are a multiple of `2^32`, then at most once each four, two
and one, judged by the matching power of two. So `1/2` keeps a zero, `0.50`. -/
def LongDivision.dropZeros (q : LongDivision) : LongDivision :=
  let eight := LongDivision.drop 8 (· % Nat.pow 2 32 == 0)
  let q := eight (eight (eight q))
  let q := q.drop 4 (· % 16 == 0)
  let q := q.drop 2 (· % 4 == 0)
  q.drop 1 (· % 2 == 0)

/-- The quotient of `a` by a nonzero `b`. -/
def div (a b : Decimal) : Option Decimal :=
  if a.isZero then some zero
  else do
    let start : LongDivision :=
      { digits := a.mantissa / b.mantissa
        rest := a.mantissa % b.mantissa
        scale := (a.scale : Int) - b.scale }
    let (q, inexact) ← start.run b.mantissa false
    let q := if inexact then q.dropZeros else q
    ofParts? (a.negative != b.negative && q.digits != 0) q.digits q.scale.toNat

end Flowchart.Decimal
