/-
Numbers written in digits: the value of a digit, the value of a run of decimal digits,
and reading a whole text as a natural number below a bound. A value past a bound is not
worked out further, so that a long run of digits costs no more than its length.
-/
namespace Flowchart.Text

/-- The value of a decimal digit. -/
def digitValue (c : Char) : Nat := c.toNat - '0'.toNat

/-- The value of a hexadecimal digit. -/
def hexValue? (c : Char) : Option Nat :=
  if c.isDigit then some (c.toNat - '0'.toNat)
  else if 'a' ≤ c ∧ c ≤ 'f' then some (c.toNat - 'a'.toNat + 10)
  else if 'A' ≤ c ∧ c ≤ 'F' then some (c.toNat - 'A'.toNat + 10)
  else none

/-- The value of a run of decimal digits. -/
def digitsValue (cs : List Char) : Nat :=
  cs.foldl (fun n c => 10 * n + digitValue c) 0

/-- The value of a run of decimal digits, or `cap` if that is less. -/
def cappedValue (cap : Nat) (cs : List Char) : Nat :=
  cs.foldl (fun n c => min cap (10 * n + digitValue c)) 0

theorem foldl_capped (cap : Nat) (cs : List Char) (n : Nat) :
    cs.foldl (fun n c => min cap (10 * n + digitValue c)) (min cap n) =
      min cap (cs.foldl (fun n c => 10 * n + digitValue c) n) := by
  induction cs generalizing n with
  | nil => rfl
  | cons c cs ih =>
    have h : min cap (10 * min cap n + digitValue c) = min cap (10 * n + digitValue c) := by omega
    rw [List.foldl_cons, List.foldl_cons, h, ih]

theorem cappedValue_eq (cap : Nat) (cs : List Char) :
    cappedValue cap cs = min cap (digitsValue cs) := by
  simpa [cappedValue, digitsValue] using foldl_capped cap cs 0

/-- The decimal digits of `n`, without leading zeros. -/
def digits (n : Nat) : List Char := Nat.toDigits 10 n

/-- A natural number below `bound`: an optional plus sign, then one or more
digits and nothing else. -/
def unsigned? (bound : Nat) (cs : List Char) : Option Nat :=
  let ds := match cs with
    | '+' :: ds => ds
    | ds => ds
  if ds.isEmpty || ds.any (!·.isDigit) then none
  else
    let n := cappedValue bound ds
    if n < bound then some n else none

end Flowchart.Text
