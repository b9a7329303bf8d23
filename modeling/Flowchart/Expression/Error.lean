/-
Why an expression has no value: four kinds of rejection by the screen, faults
of form, literals out of range, and failures of arithmetic. Positions count
characters of the expression without its white space.
-/
import Flowchart.Text.Quoted

namespace Flowchart

/-- A fault of form. -/
inductive FormFault
  | nameAfterNumber
  | loneEquals
  | unexpected (c : Char)
  | nestsTooDeeply
  | chainTooLong
  | unexpectedEnd
  | expectedClosing
  | unclosed
  | expectedOperand
  | trailingInput
deriving DecidableEq, Repr

def FormFault.message : FormFault → String
  | .nameAfterNumber => "identifier cannot follow a number"
  | .loneEquals => "assignment is not an expression; use `==`"
  | .unexpected c => "unexpected " ++ Text.quoteChar c
  | .nestsTooDeeply => "expression nests too deeply"
  | .chainTooLong => "operator chain is too long"
  | .unexpectedEnd => "unexpected end of expression"
  | .expectedClosing => "expected `)`"
  | .unclosed => "unclosed `(`"
  | .expectedOperand => "expected a number, name or `(`"
  | .trailingInput => "unexpected trailing input"

inductive EvalError
  | forbiddenCharacter (character : Char) (position : Nat)
  | forbiddenCall (position : Nat)
  | forbiddenAttribute (position : Nat)
  | unknownName (name : String)
  | empty
  | malformed (position : Nat) (fault : FormFault)
  | numberOutOfRange (literal : String)
  | divisionByZero
  | overflow
deriving DecidableEq, Repr

namespace EvalError

def message : EvalError → String
  | forbiddenCharacter c position =>
    let shown := Text.quoteChar c
    s!"forbidden character {shown} at position {position}"
  | forbiddenCall position => s!"call syntax is not allowed (parenthesis at position {position})"
  | forbiddenAttribute position => s!"attribute access is not allowed ('.' at position {position})"
  | unknownName name => s!"unknown identifier `{name}`"
  | empty => "expression is empty"
  | malformed position fault =>
    let text := fault.message
    s!"syntax error at position {position}: {text}"
  | numberOutOfRange literal => s!"numeric literal `{literal}` is out of range"
  | divisionByZero => "division by zero"
  | overflow => "arithmetic overflow"

/-- Whether the expression was refused before it was read. -/
def isRejection : EvalError → Bool
  | forbiddenCharacter .. | forbiddenCall _ | forbiddenAttribute _ | unknownName _ => true
  | _ => false

end EvalError

end Flowchart
