/-
Quoted text for messages: single quotes around a character, double quotes
around a string. Tab, line breaks, NUL, the backslash and the quote in use are
escaped by a backslash; characters that would not be seen are written by their
code point.
-/
import Flowchart.Text.Invisible

namespace Flowchart.Text

/-- The digits of `n` in base sixteen, in lower case and without leading zeros. -/
def hex (n : Nat) : String := String.ofList (Nat.toDigits 16 n)

/-- How `c` stands between two `quote` characters. -/
def escape (quote c : Char) : String :=
  if c = '\x00' then "\\0"
  else if c = '\t' then "\\t"
  else if c = '\r' then "\\r"
  else if c = '\n' then "\\n"
  else if c = '\\' || c = quote then "\\" ++ c.toString
  else if isInvisible c then "\\u\x7b" ++ hex c.toNat ++ "\x7d"
  else c.toString

/-- The character in single quotes. -/
def quoteChar (c : Char) : String := "'" ++ escape '\'' c ++ "'"

/-- The string in double quotes. -/
def quote (s : String) : String := "\"" ++ String.join (s.toList.map (escape '"')) ++ "\""

end Flowchart.Text
