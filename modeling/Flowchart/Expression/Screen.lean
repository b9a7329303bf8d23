/-
The screen in front of the parser. It looks at the characters of an expression
and their neighbours only, and refuses what is not plain arithmetic: other
characters, then anything that looks like a call, then anything that looks
like attribute access. Each check reports the leftmost offender.
-/
import Flowchart.Expression.Error

namespace Flowchart.Screen

/-- White space that an expression may hold anywhere; it carries no meaning. -/
def isSpace (c : Char) : Bool := c == ' ' || c == '\n' || c == '\r' || c == '\t'

/-- The characters of an expression without its white space. -/
def normalizeChars (source : String) : List Char := source.toList.filter (!isSpace ·)

/-- The expression without its white space. -/
def normalize (source : String) : String := String.ofList (normalizeChars source)

/-- Characters that names and numbers are made of. -/
def isNameChar (c : Char) : Bool := c.isAlphanum || c == '_'

/-- Operators, brackets and the decimal point. -/
def isSymbol (c : Char) : Bool := "()*/+-.<>=%".toList.contains c

/-- The leftmost character that `bad` refuses, given the characters before and
after it, with its position. -/
def firstBad (bad : Option Char → Char → Option Char → Bool) (before : Option Char)
    (position : Nat) : List Char → Option (Nat × Char)
  | [] => none
  | c :: rest =>
    if bad before c rest.head? then some (position, c)
    else firstBad bad (some c) (position + 1) rest

/-- Only names, numbers and symbols may occur. -/
def isForeign (_ : Option Char) (c : Char) (_ : Option Char) : Bool :=
  !isNameChar c && !isSymbol c

/-- An opening bracket starts the expression or follows a symbol other than a
closing bracket; otherwise it would be a call. -/
def isCall (before : Option Char) (c : Char) (_ : Option Char) : Bool :=
  c == '(' && before.any fun b => !isSymbol b || b == ')'

/-- A point has a digit on both sides; otherwise it would be attribute access. -/
def isAttribute (before : Option Char) (c : Char) (after : Option Char) : Bool :=
  c == '.' && !(before.any Char.isDigit && after.any Char.isDigit)

/-- Passes an expression without white space, or says why it is refused. -/
def screen (cs : List Char) : Except EvalError Unit :=
  match firstBad isForeign none 0 cs with
  | some (position, c) => .error (.forbiddenCharacter c position)
  | none =>
    match firstBad isCall none 0 cs with
    | some (position, _) => .error (.forbiddenCall position)
    | none =>
      match firstBad isAttribute none 0 cs with
      | some (position, _) => .error (.forbiddenAttribute position)
      | none => .ok ()

/-- Adds a finished run, kept in reverse, to the runs found so far. -/
def addRun (run : List Char) (found : List (List Char)) : List (List Char) :=
  if run.isEmpty then found else run.reverse :: found

/-- The maximal runs of name characters, from left to right. `run` is the
reversed beginning of a run, `found` the reversed list of earlier runs. -/
def runsFrom (run : List Char) (found : List (List Char)) : List Char → List (List Char)
  | [] => (addRun run found).reverse
  | c :: rest =>
    if isNameChar c then runsFrom (c :: run) found rest
    else runsFrom [] (addRun run found) rest

/-- The names in an expression, in order of appearance: its maximal runs of
name characters that do not start with a digit. -/
def names (cs : List Char) : List String :=
  ((runsFrom [] [] cs).filter fun run => !run.head?.any Char.isDigit).map String.ofList

end Flowchart.Screen
