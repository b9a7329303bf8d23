/-
JSON text: on one line without blanks (`compact`), or indented by two blanks with
each item on a line of its own (`pretty`). Strings escape only the quote, the
backslash and control characters.
-/
import Flowchart.Json.Basic

namespace Flowchart.Json

/-- A hexadecimal digit in lower case. -/
def hexDigit (n : Nat) : Char := if n < 10 then Char.ofNat (48 + n) else Char.ofNat (87 + n)

/-- How a character stands inside a string. -/
def escapeChar (c : Char) : List Char :=
  if c = '"' then ['\\', '"']
  else if c = '\\' then ['\\', '\\']
  else if c = '\x08' then ['\\', 'b']
  else if c = '\x0c' then ['\\', 'f']
  else if c = '\n' then ['\\', 'n']
  else if c = '\r' then ['\\', 'r']
  else if c = '\t' then ['\\', 't']
  else if c.toNat < 0x20 then
    ['\\', 'u', '0', '0', hexDigit (c.toNat / 16), hexDigit (c.toNat % 16)]
  else [c]

/-- A string in its quotes. -/
def stringText (s : String) : String :=
  String.ofList ('"' :: (s.toList.flatMap escapeChar ++ ['"']))

def Number.text : Number → String
  | .int n =>
    let digits := String.ofList (Text.digits n.natAbs)
    if n < 0 then "-" ++ digits else digits
  | .float x => x.toText

mutual

/-- The text without blanks. -/
def compact : Json → String
  | null => "null"
  | bool b => if b then "true" else "false"
  | number n => n.text
  | string s => stringText s
  | array items => "[" ++ ",".intercalate (compactItems items) ++ "]"
  | object members => "\x7b" ++ ",".intercalate (compactMembers members) ++ "\x7d"

def compactItems : List Json → List String
  | [] => []
  | j :: rest => compact j :: compactItems rest

def compactMembers : List (String × Json) → List String
  | [] => []
  | (k, j) :: rest => (stringText k ++ ":" ++ compact j) :: compactMembers rest

end

def blanks (n : Nat) : String := String.ofList (List.replicate n ' ')

/-- The items of a container between its brackets, one to a line. -/
def layout (opening closing : String) (indent : Nat) (lines : List String) : String :=
  if lines.isEmpty then opening ++ closing
  else
    let inner := "\n" ++ blanks (indent + 2)
    opening ++ inner ++ ("," ++ inner).intercalate lines ++ "\n" ++ blanks indent ++ closing

mutual

/-- The indented text of a value that starts `indent` blanks from the left. -/
def prettyFrom (indent : Nat) : Json → String
  | null => "null"
  | bool b => if b then "true" else "false"
  | number n => n.text
  | string s => stringText s
  | array items => layout "[" "]" indent (prettyItems (indent + 2) items)
  | object members => layout "\x7b" "\x7d" indent (prettyMembers (indent + 2) members)

def prettyItems (indent : Nat) : List Json → List String
  | [] => []
  | j :: rest => prettyFrom indent j :: prettyItems indent rest

def prettyMembers (indent : Nat) : List (String × Json) → List String
  | [] => []
  | (k, j) :: rest =>
    (stringText k ++ ": " ++ prettyFrom indent j) :: prettyMembers indent rest

end

/-- The indented text. -/
def pretty (j : Json) : String := prettyFrom 0 j

end Flowchart.Json
