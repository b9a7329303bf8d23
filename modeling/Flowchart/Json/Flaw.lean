/-
Where a text stops being JSON. A flaw either says that the text ended too early or
that something stands where it cannot.
-/
namespace Flowchart.Json

inductive Flaw
  | endInList
  | endInObject
  | endInString
  | endInValue
  | expectedColon
  | expectedListEnd
  | expectedObjectEnd
  | expectedWord
  | expectedValue
  | badEscape
  | badNumber
  | numberOutOfRange
  | controlCharacter
  | keyNotString
  | loneSurrogate
  | trailingComma
  | trailingCharacters
  | unpairedSurrogate
  | tooDeep
deriving DecidableEq, Repr

namespace Flaw

/-- Whether the text ended too early. -/
def isEnd : Flaw → Bool
  | endInList | endInObject | endInString | endInValue => true
  | _ => false

def message : Flaw → String
  | endInList => "EOF while parsing a list"
  | endInObject => "EOF while parsing an object"
  | endInString => "EOF while parsing a string"
  | endInValue => "EOF while parsing a value"
  | expectedColon => "expected `:`"
  | expectedListEnd => "expected `,` or `]`"
  | expectedObjectEnd => "expected `,` or `\x7d`"
  | expectedWord => "expected ident"
  | expectedValue => "expected value"
  | badEscape => "invalid escape"
  | badNumber => "invalid number"
  | numberOutOfRange => "number out of range"
  | controlCharacter => "control character (\\u0000-\\u001F) found while parsing a string"
  | keyNotString => "key must be a string"
  | loneSurrogate => "lone leading surrogate in hex escape"
  | trailingComma => "trailing comma"
  | trailingCharacters => "trailing characters"
  | unpairedSurrogate => "unexpected end of hex escape"
  | tooDeep => "recursion limit exceeded"

end Flaw

/-- A place where a text stops being JSON: the flaw that a reader of the value meets, and
the one that a reader meets who only passes over it. -/
structure Stop where
  flaw : Flaw
  skipped : Flaw
deriving DecidableEq, Repr

/-- The same flaw for every reader. -/
def Flaw.stop (f : Flaw) : Stop := ⟨f, f⟩

end Flowchart.Json
