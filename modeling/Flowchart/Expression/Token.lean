/-
Tokens of an expression. A token is read by maximal munch: a number is digits
with at most one point, a name is a run of letters, digits and underscores, and
`<`, `>`, `=` take a following `=`. A letter may not follow a number directly.
-/
import Flowchart.Decimal.Text
import Flowchart.Expression.Screen

namespace Flowchart

inductive Symbol
  | plus | minus | times | divide | modulo
  | opening | closing
  | less | greater | atMost | atLeast | equal
deriving DecidableEq, Repr

inductive Lexeme
  | number (value : Decimal)
  | name (text : String)
  | symbol (s : Symbol)
deriving DecidableEq, Repr

/-- A lexeme and the position of its first character. -/
structure Token where
  lexeme : Lexeme
  position : Nat
deriving DecidableEq, Repr

namespace Token

/-- The name that the token spells, if it is one. -/
def name? (t : Token) : Option String :=
  match t.lexeme with
  | .name x => some x
  | _ => none

/-- The longest number at the front of a text, and what follows it. -/
def splitNumber (cs : List Char) : List Char × List Char :=
  let whole := cs.takeWhile Char.isDigit
  match cs.dropWhile Char.isDigit with
  | '.' :: rest => (whole ++ '.' :: rest.takeWhile Char.isDigit, rest.dropWhile Char.isDigit)
  | rest => (whole, rest)

theorem splitNumber_append (cs : List Char) : (splitNumber cs).1 ++ (splitNumber cs).2 = cs := by
  have h := List.takeWhile_append_dropWhile (p := Char.isDigit) (l := cs)
  unfold splitNumber
  split
  · rename_i rest hr
    rw [hr] at h
    simp [List.takeWhile_append_dropWhile, h]
  · exact h

theorem splitNumber_fst_ne_nil {c : Char} {rest : List Char} (h : c.isDigit = true) :
    (splitNumber (c :: rest)).1 ≠ [] := by
  unfold splitNumber
  split <;> simp [h]

theorem length_splitNumber_snd_lt {c : Char} {rest : List Char} (h : c.isDigit = true) :
    (splitNumber (c :: rest)).2.length < (c :: rest).length := by
  have happ := congrArg List.length (splitNumber_append (c :: rest))
  have hne := List.length_pos_iff.2 (@splitNumber_fst_ne_nil c rest h)
  simp only [List.length_append] at happ
  omega

/-- The longest run of name characters at the front, and what follows it. -/
def splitName (cs : List Char) : List Char × List Char :=
  (cs.takeWhile Screen.isNameChar, cs.dropWhile Screen.isNameChar)

/-- A lexeme at the front of `cs`: how many characters it takes, and the rest. -/
structure Scanned (cs : List Char) where
  lexeme : Lexeme
  width : Nat
  rest : List Char
  rest_lt : rest.length < cs.length

/-- The symbol that the characters `c` and, for the comparisons, a following
`=` spell; the flag tells whether the second character belongs to it. -/
def symbolAt (position : Nat) (c : Char) (equals : Bool) : Except EvalError (Symbol × Bool) :=
  match c, equals with
  | '+', _ => .ok (.plus, false)
  | '-', _ => .ok (.minus, false)
  | '*', _ => .ok (.times, false)
  | '/', _ => .ok (.divide, false)
  | '%', _ => .ok (.modulo, false)
  | '(', _ => .ok (.opening, false)
  | ')', _ => .ok (.closing, false)
  | '<', true => .ok (.atMost, true)
  | '<', false => .ok (.less, false)
  | '>', true => .ok (.atLeast, true)
  | '>', false => .ok (.greater, false)
  | '=', true => .ok (.equal, true)
  | '=', false => .error (.malformed position .loneEquals)
  | c, _ => .error (.malformed position (.unexpected c))

/-- Reads the number at the front of a text that starts with a digit. -/
def scanNumber (position : Nat) (c : Char) (rest : List Char) (h : c.isDigit = true) :
    Except EvalError (Scanned (c :: rest)) :=
  let literal := (splitNumber (c :: rest)).1
  if (splitNumber (c :: rest)).2.head?.any fun c => c.isAlpha || c == '_' then
    .error (.malformed (position + literal.length) .nameAfterNumber)
  else
    match Decimal.ofChars literal with
    | .error _ => .error (.numberOutOfRange (String.ofList literal))
    | .ok value =>
      .ok
        { lexeme := .number value
          width := literal.length
          rest := (splitNumber (c :: rest)).2
          rest_lt := length_splitNumber_snd_lt h }

theorem length_splitName_snd_lt {c : Char} {rest : List Char} (h : Screen.isNameChar c = true) :
    (splitName (c :: rest)).2.length < (c :: rest).length := by
  simp only [splitName, List.dropWhile_cons, h, if_true, List.length_cons]
  have := (List.dropWhile_sublist Screen.isNameChar (l := rest)).length_le
  omega

/-- Reads the lexeme at the front of a text. -/
def scan (position : Nat) (c : Char) (rest : List Char) : Except EvalError (Scanned (c :: rest)) :=
  if hd : c.isDigit = true then scanNumber position c rest hd
  else if hn : Screen.isNameChar c = true then
    let text := (splitName (c :: rest)).1
    .ok
      { lexeme := .name (String.ofList text)
        width := text.length
        rest := (splitName (c :: rest)).2
        rest_lt := length_splitName_snd_lt hn }
  else
    match symbolAt position c (rest.head? == some '=') with
    | .error e => .error e
    | .ok (s, false) => .ok { lexeme := .symbol s, width := 1, rest, rest_lt := by simp }
    | .ok (s, true) =>
      .ok
        { lexeme := .symbol s
          width := 2
          rest := rest.drop 1
          rest_lt := by simp only [List.length_drop, List.length_cons]; omega }

/-- Reads on from `position`; `done` holds the earlier tokens in reverse. -/
def tokenizeFrom (position : Nat) (done : List Token) (cs : List Char) :
    Except EvalError (List Token) :=
  match cs with
  | [] => .ok done.reverse
  | c :: rest =>
    match scan position c rest with
    | .error e => .error e
    | .ok s => tokenizeFrom (position + s.width) (⟨s.lexeme, position⟩ :: done) s.rest
termination_by cs.length
decreasing_by exact s.rest_lt

/-- The tokens of a screened text. -/
def tokenize (cs : List Char) : Except EvalError (List Token) := tokenizeFrom 0 [] cs

end Token

end Flowchart
