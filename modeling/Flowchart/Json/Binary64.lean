/-
Binary floating point numbers with a 53-bit significand, as exact data: a finite
number is `± significand * 2^exponent`. Each operation computes its result as a
fraction of natural numbers and rounds it once, half to even.
-/
import Flowchart.Rounding
import Flowchart.Text.Digits

namespace Flowchart

/-- A finite number. The significand has 53 bits, or fewer at the least exponent
`-1074`, so that each number has one representation for each sign. -/
structure Binary64 where
  negative : Bool
  significand : Nat
  exponent : Int
deriving DecidableEq, Repr

namespace Binary64

def zero : Binary64 := ⟨false, 0, -1074⟩

def isZero (x : Binary64) : Bool := x.significand == 0

/-- `n * 2^e / d`, rounded to a natural number. -/
def scaledQuotient (n d : Nat) (e : Int) : Nat :=
  if 0 ≤ e then nearestEven (n * Nat.pow 2 e.toNat) d else nearestEven n (d * Nat.pow 2 (-e).toNat)

/-- The exponent of the last bit of `n / d`: the one at which the quotient has 53
bits, but not below the least exponent. -/
def lastBit (n d : Nat) : Int :=
  let e : Int := (n.log2 : Int) - d.log2 - 52
  let small :=
    if 0 ≤ e then n < Nat.pow 2 52 * (d * Nat.pow 2 e.toNat)
    else n * Nat.pow 2 (-e).toNat < Nat.pow 2 52 * d
  max (if small then e - 1 else e) (-1074)

/-- The number nearest to `± n / d`; `none` when it is too large. -/
def ofFraction (negative : Bool) (n d : Nat) : Option Binary64 :=
  if n = 0 then some { zero with negative }
  else
    let e := lastBit n d
    let m := scaledQuotient n d (-e)
    let (m, e) := if m = Nat.pow 2 53 then (Nat.pow 2 52, e + 1) else (m, e)
    if 971 < e then none else some ⟨negative, m, e⟩

/-- The magnitude as a fraction. -/
def fraction (x : Binary64) : Nat × Nat :=
  if 0 ≤ x.exponent then (x.significand * Nat.pow 2 x.exponent.toNat, 1)
  else (x.significand, Nat.pow 2 (-x.exponent).toNat)

def mul (x y : Binary64) : Option Binary64 :=
  let (n, d) := x.fraction
  let (n', d') := y.fraction
  ofFraction (x.negative != y.negative) (n * n') (d * d')

/-- The quotient by a nonzero number. -/
def div (x y : Binary64) : Option Binary64 :=
  let (n, d) := x.fraction
  let (n', d') := y.fraction
  ofFraction (x.negative != y.negative) (n * d') (d * n')

/-- The power of ten nearest to `10^k`. -/
def powerOfTen (k : Nat) : Option Binary64 := ofFraction false (Nat.pow 10 k) 1

/-- Scales `x` by `10^e`, rounding after each multiplication or division by a power
of ten of at most `most + 1`; `none` when the result is too large. -/
def scaleBy (most : Nat) (x : Binary64) (e : Int) : Option Binary64 :=
  if e.natAbs ≤ most + 1 then do
    let p ← powerOfTen e.natAbs
    if 0 ≤ e then x.mul p else x.div p
  else if x.isZero then some x
  else if 0 ≤ e then none
  else
    match powerOfTen (most + 1) >>= x.div with
    | none => none
    | some y => scaleBy most y (e + (most + 1))
termination_by e.natAbs
decreasing_by omega

/-- Scales `x` by `10^e`, in steps of at most `10^308`. -/
def scale (x : Binary64) (e : Int) : Option Binary64 := scaleBy 307 x e

/-- The number written with these digits and this power of ten. The digits are
rounded first, then the power is applied, so the result is not always the nearest
number. -/
def ofDecimal (negative : Bool) (digits : Nat) (e : Int) : Option Binary64 := do
  let x ← ofFraction false digits 1
  let y ← x.scale e
  return { y with negative }

/-! ## Shortest decimal form -/

/-- A decimal: `digits * 10^exponent`. -/
structure Shortest where
  digits : Nat
  exponent : Int

/-- The ends of the interval of reals that round to `x`, and `x` itself, as
numerators over one denominator. -/
structure Span where
  low : Nat
  mid : Nat
  high : Nat
  den : Nat
  closed : Bool

def span (x : Binary64) : Span :=
  let m := x.significand
  let below := if m = Nat.pow 2 52 ∧ -1074 < x.exponent then 1 else 2
  let up := Nat.pow 2 x.exponent.toNat
  { low := (4 * m - below) * up
    mid := 4 * m * up
    high := (4 * m + 2) * up
    den := 4 * Nat.pow 2 (-x.exponent).toNat
    closed := m % 2 = 0 }

/-- Whether `digits * 10^e` rounds to the number that the span belongs to. -/
def Span.holds (s : Span) (digits : Nat) (e : Int) : Bool :=
  let n := digits * Nat.pow 10 e.toNat * s.den
  let p := Nat.pow 10 (-e).toNat
  if s.closed then s.low * p ≤ n ∧ n ≤ s.high * p else s.low * p < n ∧ n < s.high * p

/-- How to choose between two natural numbers that enclose a quotient. -/
abbrev Nearest := (n d : Nat) → Nat

/-- The neighbour of the number on the grid of multiples of `10^e` that rounds to
it, the nearer one if both do. -/
def Span.onGrid (nearest : Nearest) (s : Span) (e : Int) : Option Nat :=
  let n := s.mid * Nat.pow 10 (-e).toNat
  let d := s.den * Nat.pow 10 e.toNat
  let below := n / d
  let low := s.holds below e && below != 0
  let high := s.holds (below + 1) e
  if low && high then some (nearest n d)
  else if low then some below
  else if high then some (below + 1)
  else none

/-- The decimal exponent of the first digit. -/
def firstDigit (s : Span) : Int :=
  ((Text.digits (s.mid * Nat.pow 10 400 / s.den)).length : Int) - 401

/-- Tries grids with more and more digits. -/
def shortestFrom (nearest : Nearest) (s : Span) (top : Int) (count : Nat) : Nat → Shortest
  | 0 => ⟨0, 0⟩
  | fuel + 1 =>
    let e := top - count
    match s.onGrid nearest e with
    | some digits => ⟨digits, e⟩
    | none => shortestFrom nearest s top (count + 1) fuel

/-- Removes trailing zeros; a positive number of at most twenty digits needs no more
steps than that. -/
def Shortest.trim (s : Shortest) : Nat → Shortest
  | 0 => s
  | fuel + 1 => if s.digits % 10 = 0 then Shortest.trim ⟨s.digits / 10, s.exponent + 1⟩ fuel else s

/-- The fewest digits that read back as the nonzero number; seventeen always do. Of
two such decimals the nearer one is taken, and `nearest` settles a tie. -/
def shortest (nearest : Nearest) (x : Binary64) : Shortest :=
  (shortestFrom nearest x.span (firstDigit x.span) 0 18).trim 20

/-- How many digits stand before the point. -/
def Shortest.point (s : Shortest) : Int := (Text.digits s.digits).length + s.exponent

/-- The digits with a point where it belongs, and no exponent. -/
def Shortest.plain (s : Shortest) : List Char :=
  let ds := Text.digits s.digits
  if 0 ≤ s.exponent then ds ++ List.replicate s.exponent.toNat '0'
  else if 0 < s.point then ds.take s.point.toNat ++ '.' :: ds.drop s.point.toNat
  else '0' :: '.' :: (List.replicate (-s.point).toNat '0' ++ ds)

/-- The digits with the point behind the first one, and an exponent with its sign. -/
def Shortest.scientific (s : Shortest) : List Char :=
  let ds := Text.digits s.digits
  let places := if ds.length ≤ 1 then [] else '.' :: ds.drop 1
  let e := s.point - 1
  let mark := if e < 0 then ['e', '-'] else ['e', '+']
  ds.take 1 ++ places ++ mark ++ Text.digits e.natAbs

def signed (x : Binary64) (text : List Char) : String :=
  String.ofList (if x.negative then '-' :: text else text)

/-- The shortest text without an exponent. A tie goes to the larger decimal. -/
def toPlainText (x : Binary64) : String :=
  x.signed (if x.isZero then ['0'] else (x.shortest nearestUp).plain)

/-- The shortest text with at least one decimal place; an exponent is used below
`10^-5` and from `10^16` on. A tie goes to the even digit. -/
def toText (x : Binary64) : String :=
  if x.isZero then x.signed ['0', '.', '0']
  else
    let s := x.shortest nearestEven
    x.signed (
      if -5 < s.point ∧ s.point ≤ 16 then
        if 0 ≤ s.exponent then s.plain ++ ['.', '0'] else s.plain
      else s.scientific)

end Binary64

end Flowchart
