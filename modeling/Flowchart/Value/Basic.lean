/-
Values of variables and expressions: decimals and booleans. In arithmetic a
boolean is `1` or `0`; as a condition a decimal is true unless it is zero.
-/
import Flowchart.Decimal.Text

namespace Flowchart

inductive ValueType
  | decimal
  | bool
deriving DecidableEq, Repr

def ValueType.name : ValueType → String
  | .decimal => "decimal"
  | .bool => "bool"

inductive Value
  | decimal (d : Decimal)
  | bool (b : Bool)
deriving DecidableEq, Repr

namespace Value

def type : Value → ValueType
  | decimal _ => .decimal
  | bool _ => .bool

/-- The value as a number. -/
def toDecimal : Value → Decimal
  | decimal d => d
  | bool b => if b then .one else .zero

/-- The value as a condition. -/
def toBool : Value → Bool
  | decimal d => !d.isZero
  | bool b => b

/-- The value as one of type `t`. -/
def coerce (t : ValueType) (v : Value) : Value :=
  match t with
  | .decimal => decimal v.toDecimal
  | .bool => bool v.toBool

/-- How the value is shown: a decimal with as few places as possible. -/
def display : Value → String
  | decimal d => d.normalize.toText
  | bool b => if b then "true" else "false"

@[simp] theorem type_coerce (t : ValueType) (v : Value) : (v.coerce t).type = t := by
  cases t <;> rfl

end Value

end Flowchart
