/-
Remainders of decimals.

A dividend with fewer places than the divisor is given zeros first, and may then
need far more than 96 bits. Its remainder by a divisor of more than 64 bits is
taken by long division in digits of 32 bits, which is not always exact: see
`bringDown`. In every other case the remainder is exact. Either way it is smaller
than the divisor (`wideRemainder_lt`).
-/
import Flowchart.Decimal.Arith

namespace Flowchart.Decimal

/-- Brings down the digit `w` behind the remainder `r` and divides by `d`, which has
three digits with the highest bit set. The digit of the quotient is estimated from
the leading digits. If `r` and `d` begin with the same digit, the estimate has two
digits, of which only the lower one counts: the leading digit of `r` is lost. -/
def bringDown (d r w : Nat) : Nat :=
  let n := r * Nat.pow 2 32 + w
  if r / Nat.pow 2 64 = d / Nat.pow 2 64 then n % Nat.pow 2 96 % d else n % d

/-- The remainder of `n` by `d`, one digit of `n` after the other, highest first. -/
def longRemainder (d n : Nat) : Nat :=
  if n = 0 then 0 else bringDown d (longRemainder d (n / Nat.pow 2 32)) (n % Nat.pow 2 32)

/-- The remainder of `x` by a divisor `y` of 65 to 96 bits. Both are multiplied by
the power of two that brings the divisor to 96 bits. -/
def wideRemainder (x y : Nat) : Nat :=
  let k := Nat.pow 2 (95 - y.log2)
  longRemainder (y * k) (x * k) / k

theorem bringDown_lt {d : Nat} (hd : 0 < d) (r w : Nat) : bringDown d r w < d := by
  simp only [bringDown]
  split <;> exact Nat.mod_lt _ hd

theorem longRemainder_lt {d : Nat} (hd : 0 < d) (n : Nat) : longRemainder d n < d := by
  unfold longRemainder
  split
  · exact hd
  · exact bringDown_lt hd _ _

theorem wideRemainder_lt {y : Nat} (hy : 0 < y) (x : Nat) : wideRemainder x y < y := by
  have hk : 0 < Nat.pow 2 (95 - y.log2) := Nat.two_pow_pos _
  exact Nat.div_lt_of_lt_mul
    (Nat.mul_comm y _ ▸ longRemainder_lt (Nat.mul_pos hy hk) _)

/-- The truncated remainder of `a` by a nonzero `b`: the sign is that of `a`. -/
def rem (a b : Decimal) : Option Decimal :=
  if a.isZero then some zero
  else
    let s := max a.scale b.scale
    let x := a.mantissa * Nat.pow 10 (s - a.scale)
    let y := b.mantissa * Nat.pow 10 (s - b.scale)
    if x = y then some zero
    else if x < y then some a
    else
      let r := if a.scale < b.scale ∧ Nat.pow 2 64 ≤ y then wideRemainder x y else x % y
      ofParts? (a.negative && r != 0) r s

/-- The floored remainder of `a` by a nonzero `b`: the sign is that of `b`. -/
def floorMod (a b : Decimal) : Option Decimal := do
  let r ← a.rem b
  if !r.isZero && r.negative != b.negative then r.add b else some r

end Flowchart.Decimal
