/-
Settings from a TOML file. All settings are numbers or flags at the top level, so a file
that sets them is a list of lines: blank, a comment, or a key, an equals sign and a
number or a flag. Every other construct of the format stands for something that is not a
setting.
-/
import Flowchart.Config.Basic
import Flowchart.Text.Digits

namespace Flowchart.Config

namespace Toml

/-- What is wrong with a line. -/
inductive Fault
  | malformed
  | unknownKey (key : String)
  | duplicateKey (key : String)
  | badValue (key : String)
deriving DecidableEq, Repr

/-- The first line with a fault, counted from one. -/
structure TextError where
  line : Nat
  fault : Fault
deriving DecidableEq, Repr

def Fault.message : Fault → String
  | malformed => "expected `key = value`"
  | unknownKey key => s!"unknown field `{key}`"
  | duplicateKey key => s!"duplicate key `{key}`"
  | badValue key => s!"wrong value for `{key}`"

def TextError.message (e : TextError) : String :=
  let line := e.line
  let fault := e.fault.message
  s!"TOML parse error at line {line}: {fault}"

inductive Literal
  | int (n : Int)
  | bool (b : Bool)
deriving DecidableEq, Repr

/-! ## Characters -/

def isPad (c : Char) : Bool := c == ' ' || c == '\t'

/-- Characters of a comment: no control characters other than the tab. -/
def isPlain (c : Char) : Bool := c == '\t' || (0x20 ≤ c.toNat && c.toNat != 0x7f)

/-- Characters of a key without quotes. -/
def isBare (c : Char) : Bool := c.isAlphanum || c == '_' || c == '-'

/-! ## Keys -/

/-- The character with a code point in hexadecimal digits. -/
def codePoint? (digits : List Char) : Option Char := do
  let values ← digits.mapM Text.hexValue?
  let n := values.foldl (fun n d => 16 * n + d) 0
  if n.isValidChar then some (Char.ofNat n) else none

/-- What a character stands for after a backslash. -/
def escape? : Char → Option Char
  | 'b' => some '\x08'
  | 't' => some '\t'
  | 'n' => some '\n'
  | 'f' => some '\x0c'
  | 'r' => some '\r'
  | '"' => some '"'
  | '\\' => some '\\'
  | _ => none

/-- The rest of a key in double quotes, and what follows it. -/
def basicKey (acc : List Char) : List Char → Option (List Char × List Char)
  | [] => none
  | '"' :: rest => some (acc.reverse, rest)
  | '\\' :: 'u' :: a :: b :: c :: d :: rest => do basicKey ((← codePoint? [a, b, c, d]) :: acc) rest
  | '\\' :: 'U' :: a :: b :: c :: d :: e :: f :: g :: h :: rest => do
    basicKey ((← codePoint? [a, b, c, d, e, f, g, h]) :: acc) rest
  | '\\' :: c :: rest => do basicKey ((← escape? c) :: acc) rest
  | c :: rest => if isPlain c && c != '\\' then basicKey (c :: acc) rest else none

/-- A key at the start of a line, and what follows it. -/
def key? : List Char → Option (String × List Char)
  | '"' :: cs => (basicKey [] cs).map fun (k, rest) => (String.ofList k, rest)
  | '\'' :: cs =>
    match cs.span (fun c => isPlain c && c != '\'') with
    | (k, '\'' :: rest) => some (String.ofList k, rest)
    | _ => none
  | cs =>
    match cs.span isBare with
    | ([], _) => none
    | (k, rest) => some (String.ofList k, rest)

/-! ## Values -/

/-- Digits, with single underscores between them. -/
def digitRun? (isDigit : Char → Bool) : List Char → Option (List Char)
  | [] => none
  | [c] => if isDigit c then some [c] else none
  | c :: '_' :: rest => if isDigit c then (digitRun? isDigit rest).map (c :: ·) else none
  | c :: rest => if isDigit c then (digitRun? isDigit rest).map (c :: ·) else none

/-- Integers lie below this bound and not below its negative. -/
def intBound : Nat := Nat.pow 2 63

/-- A number in another base, as far as it stays below the bound: digits of the base after its mark. -/
def based? (base : Nat) (cs : List Char) : Option Nat := do
  let isDigit (c : Char) : Bool :=
    match Text.hexValue? c with
    | some d => d < base
    | none => false
  let digits ← digitRun? isDigit cs
  return digits.foldl (fun n c => min intBound (base * n + (Text.hexValue? c).getD 0)) 0

/-- A decimal number without leading zeros. One past the bound counts as too large by one. -/
def decimal? (cs : List Char) : Option Nat := do
  let digits ← digitRun? Char.isDigit cs
  if digits.length > 1 && digits.head? == some '0' then none
  else some (Text.cappedValue (intBound + 1) digits)

/-- An integer of 64 bits. A sign stands only before decimal digits. -/
def int? (cs : List Char) : Option Int := do
  let n : Int ← match cs with
    | '0' :: 'x' :: rest => (based? 16 rest).map Int.ofNat
    | '0' :: 'o' :: rest => (based? 8 rest).map Int.ofNat
    | '0' :: 'b' :: rest => (based? 2 rest).map Int.ofNat
    | '+' :: rest => (decimal? rest).map Int.ofNat
    | '-' :: rest => (decimal? rest).map fun n => -(n : Int)
    | cs => (decimal? cs).map Int.ofNat
  if -intBound ≤ n ∧ n < intBound then some n else none

def literal? (cs : List Char) : Option Literal :=
  if cs = ['t', 'r', 'u', 'e'] then some (.bool true)
  else if cs = ['f', 'a', 'l', 's', 'e'] then some (.bool false)
  else (int? cs).map .int

/-! ## Lines -/

/-- Nothing but blanks and perhaps a comment. -/
def isRemark (cs : List Char) : Bool :=
  match cs.dropWhile isPad with
  | [] => true
  | c :: rest => c == '#' && rest.all isPlain

/-- The key and the value text of a line that sets something. -/
def assignment? (cs : List Char) : Option (String × List Char) := do
  let (key, rest) ← key? (cs.dropWhile isPad)
  match rest.dropWhile isPad with
  | '=' :: rest =>
    let (value, rest) := (rest.dropWhile isPad).span (fun c => !isPad c && c != '#')
    if isRemark rest then some (key, value) else none
  | _ => none

/-- Settings so far, and the keys that have been set. -/
structure Draft where
  config : Config
  keys : List String

/-- Takes in one setting. -/
def Draft.set (s : Draft) (key : String) (value : Option Literal) : Except Fault Draft := do
  if key ∈ s.keys then throw (.duplicateKey key)
  let limit : Except Fault (Option Nat) :=
    match value with
    | some (.int n) => if 0 ≤ n then .ok (some n.toNat) else .error (.badValue key)
    | _ => .error (.badValue key)
  let flag : Except Fault Bool :=
    match value with
    | some (.bool b) => .ok b
    | _ => .error (.badValue key)
  let c := s.config
  let config ← match key with
    | "step_budget" => do pure { c with stepBudget := ← limit }
    | "max_continuations" => do pure { c with maxContinuations := ← limit }
    | "record_trace" => do pure { c with recordTrace := ← flag }
    | "allow_fan_out" => do pure { c with allowFanOut := ← flag }
    | _ => .error (.unknownKey key)
  return { config, keys := key :: s.keys }

/-- Takes in one line. -/
def Draft.line (s : Draft) (cs : List Char) : Except Fault Draft :=
  if isRemark cs then .ok s
  else
    match assignment? cs with
    | some (key, value) => s.set key (literal? value)
    | none => .error .malformed

/-- Takes in lines, `number` being that of the first. -/
def Draft.lines (s : Draft) (number : Nat) : List (List Char) → Except TextError Draft
  | [] => .ok s
  | cs :: rest =>
    match s.line cs with
    | .ok s => s.lines (number + 1) rest
    | .error fault => .error { line := number, fault }

/-- The lines of a text. A line ends at a line feed, with or without a carriage return
before it; `acc` is the line so far, last first. -/
def splitLines (acc : List Char) : List Char → List (List Char)
  | [] => [acc.reverse]
  | '\n' :: rest =>
    let line := match acc with
      | '\r' :: acc => acc.reverse
      | acc => acc.reverse
    line :: splitLines [] rest
  | c :: rest => splitLines (c :: acc) rest

/-- The text without a byte order mark. -/
def body : List Char → List Char
  | '\uFEFF' :: cs => cs
  | cs => cs

end Toml

/-- Reads settings; those that are not set have their default values. -/
def ofToml (text : String) : Except Toml.TextError Config := do
  let s ← Toml.Draft.lines ⟨.default, []⟩ 1 (Toml.splitLines [] (Toml.body text.toList))
  return s.config

end Flowchart.Config
