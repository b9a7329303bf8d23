/-
Evaluation errors as JSON: a bare word for an error without details, otherwise an object
with the word as its only key.
-/
import Flowchart.Expression.Basic
import Flowchart.Json.Basic

namespace Flowchart.EvalError

/-- The word that names the kind of error. -/
def kind : EvalError → String
  | forbiddenCharacter .. => "forbidden_character"
  | forbiddenCall _ => "forbidden_call"
  | forbiddenAttribute _ => "forbidden_attribute_access"
  | unknownName _ => "unknown_identifier"
  | empty => "empty"
  | malformed .. => "syntax"
  | numberOutOfRange _ => "number_out_of_range"
  | divisionByZero => "division_by_zero"
  | overflow => "overflow"

def toJson (e : EvalError) : Json :=
  let position (n : Nat) : String × Json := ("position", .ofNat n)
  let detail (j : Json) : Json := .object [(e.kind, j)]
  match e with
  | forbiddenCharacter c n => detail (.object [("character", .string c.toString), position n])
  | forbiddenCall n => detail (.object [position n])
  | forbiddenAttribute n => detail (.object [position n])
  | unknownName x => detail (.string x)
  | malformed n fault => detail (.object [position n, ("message", .string fault.message)])
  | numberOutOfRange literal => detail (.string literal)
  | empty | divisionByZero | overflow => .string e.kind

end Flowchart.EvalError
