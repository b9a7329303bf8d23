/-
Decimals as text. Writing shows every place of the scale. Reading accepts a
sign, digits with underscores after the first one, one decimal point, and an
exponent; digits past the 28th place or past the mantissa bound are rounded
away, the first of them deciding. An underscore can take the place of that digit:
see `readDigits`.
-/
import Flowchart.Decimal.Arith
import Flowchart.Text.Digits

namespace Flowchart.Decimal

open Text (digitValue digits unsigned?)

/-! ## Writing -/

/-- The digits of the mantissa, at least `scale + 1` of them. -/
def paddedDigits (a : Decimal) : List Char :=
  let ds := digits a.mantissa
  List.replicate (a.scale + 1 - ds.length) '0' ++ ds

/-- All places of the scale; a minus sign also on a negative zero. -/
def toText (a : Decimal) : String :=
  let ds := a.paddedDigits
  let whole := ds.take (ds.length - a.scale)
  let places := ds.drop (ds.length - a.scale)
  let sign := if a.negative then ['-'] else []
  String.ofList (sign ++ whole ++ (if a.scale = 0 then [] else '.' :: places))

/-! ## Reading -/

/-- Why a text is not a decimal. -/
inductive TextError
  | empty
  | unknownCharacter
  | twoPoints
  | noDigits
  | leadingSeparator
  | tooManyDigits
  | carriedTooFar
  | badExponent
  | scaleTooLarge (scale : Nat)
  | tooLarge
deriving DecidableEq, Repr

def TextError.message : TextError → String
  | .empty => "Invalid decimal: empty"
  | .unknownCharacter => "Invalid decimal: unknown character"
  | .twoPoints => "Invalid decimal: two decimal points"
  | .noDigits => "Invalid decimal: no digits found"
  | .leadingSeparator => "Invalid decimal: must start lead with a number"
  | .tooManyDigits => "Invalid decimal: overflow from too many digits"
  | .carriedTooFar => "Invalid decimal: overflow from mantissa after rounding"
  | .badExponent => "Failed to parse"
  | .scaleTooLarge scale => s!"Scale exceeds the maximum precision allowed: {scale} > {maxScale}"
  | .tooLarge => "Number exceeds maximum value that can be represented."

/-- What is wrong with a character that cannot stand where it does. -/
def misplaced (c : Char) : TextError :=
  if c = '.' then .twoPoints
  else if c = '_' then .leadingSeparator
  else .unknownCharacter

/-- The finished number; zero loses its sign. -/
def finish (negative : Bool) (m s : Nat) : Except TextError Decimal :=
  match ofParts? (negative && m != 0) m s with
  | some a => .ok a
  | none => .error .tooManyDigits

/-- The mantissa and scale after rounding by the first digit that has no room. A
mantissa that is carried past the bound gives up one more place. -/
def roundBy (m s digit : Nat) : Except TextError (Nat × Nat) :=
  if digit < 5 then .ok (m, s)
  else if m + 1 < mantissaBound then .ok (m + 1, s)
  else if s = 0 then .error .carriedTooFar
  else .ok ((m + 1 + 4) / 10, s - 1)

/-- Rounds by the first digit that has no room. The rest are only looked at, and
only when rounding has succeeded. -/
def roundOff (negative : Bool) (m s digit : Nat) (rest : List Char) : Except TextError Decimal :=
  match roundBy m s digit with
  | .error e => .error e
  | .ok (m, s) =>
    match rest.find? fun c => !c.isDigit && c != '_' with
    | some c => .error (misplaced c)
    | none => finish negative m s

/-- A mantissa below this bound is short: another digit fits in 64 bits, with
some room to spare. -/
def shortBound : Nat := (Nat.pow 2 64 - 1) / 10 - 255

/-- Reads on after the sign: `m` and `s` are mantissa and scale so far, `point`
and `seen` tell whether a decimal point and a digit have been read. Underscores
mean nothing, with one exception: behind a 28th place that was added to a short
mantissa, an underscore counts as the digit that decides, and rounds down. -/
def readDigits (negative : Bool) (m s : Nat) (point seen : Bool) :
    List Char → Except TextError Decimal
  | [] => if seen then finish negative m s else .error .noDigits
  | c :: rest =>
    if c.isDigit then
      let d := digitValue c
      if point && maxScale ≤ s then roundOff negative m s d rest
      else if 10 * m + d < mantissaBound then
        readDigits negative (10 * m + d) (if point then s + 1 else s) point true rest
      else if point then roundOff negative m s d rest
      else .error .tooManyDigits
    else if c = '.' && !point then readDigits negative m s true seen rest
    else if c = '_' && seen then
      if point && maxScale ≤ s && m / 10 < shortBound then roundOff negative m s 0 rest
      else readDigits negative m s point seen rest
    else .error (misplaced c)

/-- Reads a number without exponent. -/
def readPlain : List Char → Except TextError Decimal
  | [] => .error .empty
  | '-' :: rest => readDigits true 0 0 false false rest
  | '+' :: rest => readDigits false 0 0 false false rest
  | cs => readDigits false 0 0 false false cs

/-- Moves the point `e` places to the left. Places past the 28th are rounded
away first, a half going up. -/
def shiftLeft (a : Decimal) (e : Nat) : Except TextError Decimal :=
  if maxScale < e then .error (.scaleTooLarge e)
  else
    let s := a.scale + e
    let m := if maxScale < s then nearestUp a.mantissa (Nat.pow 10 (s - maxScale)) else a.mantissa
    match ofParts? a.negative m (min s maxScale) with
    | some a => .ok a
    | none => .error .tooLarge

/-- Moves the point `e` places to the right, at most nineteen at a time. -/
def shiftRight (a : Decimal) (e : Nat) : Except TextError Decimal :=
  if e ≤ a.scale then
    .ok { a with scale := a.scale - e, scale_le := Nat.le_trans (Nat.sub_le _ _) a.scale_le }
  else if maxScale < e then .error (.scaleTooLarge e)
  else
    let times (a : Decimal) (k : Nat) : Option Decimal := do a.mul (← ofParts? false (Nat.pow 10 k) 0)
    let product := if e ≤ 19 then times a e else do times (← times a 19) (e - 19)
    match product with
    | some b => .ok b.normalize
    | none => .error .tooLarge

def isExponentMark (c : Char) : Bool := c == 'e' || c == 'E'

/-- Reads a number with an exponent, split at its first mark. -/
def readScientific (cs : List Char) : Except TextError Decimal := do
  let a ← readPlain (cs.takeWhile (!isExponentMark ·))
  match (cs.dropWhile (!isExponentMark ·)).drop 1 with
  | '-' :: ds =>
    match unsigned? (Nat.pow 2 32) ds with
    | some e => shiftLeft a e
    | none => .error .badExponent
  | ds =>
    match unsigned? (Nat.pow 2 32) ds with
    | some e => shiftRight a e
    | none => .error .badExponent

/-- Reads a decimal; the exponent form is tried when the plain one fails. -/
def ofChars (cs : List Char) : Except TextError Decimal :=
  match readPlain cs with
  | .ok a => .ok a
  | .error e => if cs.any isExponentMark then readScientific cs else .error e

/-- Reads a decimal from a text. -/
def ofText (s : String) : Except TextError Decimal := ofChars s.toList

end Flowchart.Decimal
