/-
The leaves of a JSON text: white space, words, strings and numbers.

A string or number can be read for its value or only passed over. Passing over asks
less: a string may then hold half of a surrogate pair, and a number may be out of
range. So a scan gives two answers, the value and the text behind it, and each can
fail on its own.
-/
import Flowchart.Json.Basic
import Flowchart.Json.Flaw
import Flowchart.Text.Digits

namespace Flowchart.Json.Scan

/-- What is left of a text of at most `n` characters. -/
abbrev Rest (n : Nat) := { rest : List Char // rest.length ≤ n }

/-- A leaf: its value, and the text behind it. -/
structure Leaf (α : Type) (n : Nat) where
  value : Except Flaw α
  after : Except Flaw (Rest n)

def isBlank (c : Char) : Bool := c == ' ' || c == '\n' || c == '\t' || c == '\r'

def skipBlanks (cs : List Char) : List Char := cs.dropWhile isBlank

theorem length_skipBlanks_le (cs : List Char) : (skipBlanks cs).length ≤ cs.length :=
  (List.dropWhile_sublist isBlank).length_le

theorem length_lt_of_skipBlanks {cs rest : List Char} {c : Char}
    (h : skipBlanks cs = c :: rest) : rest.length < cs.length := by
  have hle := length_skipBlanks_le cs
  rw [h] at hle
  exact hle

/-- White space is passed over twice, with one character taken between. -/
theorem length_lt_of_skipBlanks_twice {cs rest rest' : List Char} {c c' : Char}
    (h : skipBlanks cs = c :: rest) (h' : skipBlanks rest = c' :: rest') :
    rest'.length < cs.length :=
  Nat.lt_trans (length_lt_of_skipBlanks h') (length_lt_of_skipBlanks h)

theorem length_le_self (cs : List Char) : cs.length ≤ cs.length := Nat.le_refl _

theorem length_le_of_cons {c : Char} {rest : List Char} {n : Nat}
    (h : (c :: rest).length ≤ n) : rest.length ≤ n :=
  Nat.le_of_succ_le h

/-- Passes over the rest of a word. -/
def word (expected : List Char) (cs : List Char) : Except Flaw (Rest cs.length) :=
  match expected, cs with
  | [], cs => .ok ⟨cs, length_le_self cs⟩
  | _ :: _, [] => .error .endInValue
  | e :: es, c :: rest =>
    if c = e then
      match word es rest with
      | .error f => .error f
      | .ok ⟨r, h⟩ => .ok ⟨r, by simp only [List.length_cons]; omega⟩
    else .error .expectedWord

/-! ## Strings -/

/-- Four hexadecimal digits. The text has ended too early when it has fewer than four
bytes left, whatever they are. -/
def fourHex (cs : List Char) : Except Flaw (Nat × Rest cs.length) :=
  match cs with
  | a :: b :: c :: d :: rest =>
    match Text.hexValue? a, Text.hexValue? b, Text.hexValue? c, Text.hexValue? d with
    | some a, some b, some c, some d =>
      .ok (((a * 16 + b) * 16 + c) * 16 + d, ⟨rest, by simp only [List.length_cons]; omega⟩)
    | _, _, _, _ => .error .badEscape
  | cs => if 4 ≤ (String.ofList cs).utf8ByteSize then .error .badEscape else .error .endInString

def isLeading (u : Nat) : Bool := 0xd800 ≤ u && u ≤ 0xdbff

def isTrailing (u : Nat) : Bool := 0xdc00 ≤ u && u ≤ 0xdfff

/-- The character written by one code unit, or by a leading and a trailing one. The
outer failure stops every reader, the inner one only a reader for the value. -/
def unicodeEscape (cs : List Char) : Except Flaw (Except Flaw Char × Rest cs.length) :=
  match fourHex cs with
  | .error f => .error f
  | .ok (u, ⟨rest, h⟩) =>
    if isTrailing u then .ok (.error .loneSurrogate, ⟨rest, h⟩)
    else if isLeading u then
      match rest with
      | '\\' :: 'u' :: more =>
        match fourHex more with
        | .error f => .error f
        | .ok (v, ⟨rest', h'⟩) =>
          let here : Rest cs.length := ⟨rest', by simp only [List.length_cons] at h; omega⟩
          if isTrailing v then
            .ok (.ok (Char.ofNat ((u - 0xd800) * 0x400 + (v - 0xdc00) + 0x10000)), here)
          else .ok (.error .loneSurrogate, here)
      | [] => .ok (.error .endInString, ⟨[], h⟩)
      | ['\\'] => .ok (.error .endInString, ⟨['\\'], h⟩)
      | rest => .ok (.error .unpairedSurrogate, ⟨rest, h⟩)
    else .ok (.ok (Char.ofNat u), ⟨rest, h⟩)

/-- The character that a letter after a backslash stands for. -/
def shortEscape? (c : Char) : Option Char :=
  if c = '"' then some '"'
  else if c = '\\' then some '\\'
  else if c = '/' then some '/'
  else if c = 'b' then some '\x08'
  else if c = 'f' then some '\x0c'
  else if c = 'n' then some '\n'
  else if c = 'r' then some '\r'
  else if c = 't' then some '\t'
  else none

/-- A leaf that stops at flaw `f`, after an earlier flaw of the value, if any. -/
def stop {α : Type} {n : Nat} (earlier : Option Flaw) (f : Flaw) : Leaf α n :=
  ⟨.error (earlier.getD f), .error f⟩

/-- The rest of a string up to its closing quote. `done` holds the characters so far in
reverse, `earlier` the first flaw of its value. -/
def string (n : Nat) (done : List Char) (earlier : Option Flaw) (cs : List Char)
    (h : cs.length ≤ n) : Leaf String n :=
  match cs with
  | [] => stop earlier .endInString
  | c :: rest =>
    if c = '"' then
      { value := match earlier with
          | some f => .error f
          | none => .ok (String.ofList done.reverse)
        after := .ok ⟨rest, by simp only [List.length_cons] at h; omega⟩ }
    else if c = '\\' then
      match rest with
      | [] => stop earlier .endInString
      | e :: rest =>
        if e = 'u' then
          match unicodeEscape rest with
          | .error f => stop earlier f
          | .ok (.ok c, ⟨rest', h'⟩) =>
            string n (c :: done) earlier rest' (by simp only [List.length_cons] at h; omega)
          | .ok (.error f, ⟨rest', h'⟩) =>
            string n done (earlier <|> some f) rest' (by simp only [List.length_cons] at h; omega)
        else
          match shortEscape? e with
          | some c =>
            string n (c :: done) earlier rest (by simp only [List.length_cons] at h; omega)
          | none => stop earlier .badEscape
    else if c.toNat < 0x20 then stop earlier .controlCharacter
    else string n (c :: done) earlier rest (by simp only [List.length_cons] at h; omega)
termination_by cs.length
decreasing_by all_goals simp only [List.length_cons] at *; omega

/-! ## Numbers -/

/-- Digits are collected while the result fits in 64 bits. -/
def significandBound : Nat := Nat.pow 2 64

/-- Collects the digits before the point: the significand and how many digits had no
room. Once one has no room, neither have those behind it. -/
def wholeDigits (m dropped : Nat) : List Char → Nat × Nat
  | [] => (m, dropped)
  | c :: rest =>
    let m' := 10 * m + Text.digitValue c
    if dropped = 0 ∧ m' < significandBound then wholeDigits m' 0 rest
    else wholeDigits m (dropped + 1) rest

/-- Collects the digits behind the point up to the first that has no room: the
significand and how many digits were taken. -/
def placeDigits (m taken : Nat) : List Char → Nat × Nat
  | [] => (m, taken)
  | c :: rest =>
    let m' := 10 * m + Text.digitValue c
    if m' < significandBound then placeDigits m' (taken + 1) rest else (m, taken)

/-- A number without point and exponent: an integer if it fits in 64 bits, signed or
not. Minus zero is no integer. -/
def integerValue (negative : Bool) (m dropped : Nat) : Except Flaw Number :=
  if dropped = 0 ∧ negative = false then .ok (.int m)
  else if dropped = 0 ∧ 0 < m ∧ m ≤ Nat.pow 2 63 then .ok (.int (-m))
  else
    match Binary64.ofDecimal negative m dropped with
    | some x => .ok (.float x)
    | none => .error .numberOutOfRange

/-- A number with point or exponent. -/
def floatValue (negative : Bool) (m : Nat) (e : Int) : Except Flaw Number :=
  match Binary64.ofDecimal negative m e with
  | some x => .ok (.float x)
  | none => .error .numberOutOfRange

/-- What is wrong where a digit is missing: for a reader of the value, the text may have
ended too early. -/
def noDigit {α : Type} {n : Nat} (cs : List Char) : Leaf α n :=
  ⟨.error (if cs.isEmpty then .endInValue else .badNumber), .error .badNumber⟩

theorem length_dropWhile_le (p : Char → Bool) (cs : List Char) :
    (cs.dropWhile p).length ≤ cs.length := (List.dropWhile_sublist p).length_le

/-- The sign of an exponent, and what follows it. -/
def exponentSign : List Char → Bool × List Char
  | '+' :: ds => (false, ds)
  | '-' :: ds => (true, ds)
  | ds => (false, ds)

theorem length_exponentSign_snd_le (cs : List Char) : (exponentSign cs).2.length ≤ cs.length := by
  unfold exponentSign; split <;> simp

/-- A number whose exponent reaches this size is zero or out of range. -/
def exponentBound : Nat := Nat.pow 2 31

/-- The exponent behind its mark, for the digits `m * 10^e` read so far. -/
def exponent (negative : Bool) (m : Nat) (e : Int) (n : Nat) (cs : List Char)
    (h : cs.length ≤ n) : Leaf Number n :=
  let ds := (exponentSign cs).2
  let digits := ds.takeWhile Char.isDigit
  if digits.isEmpty then noDigit ds
  else
    let k : Int := Text.cappedValue exponentBound digits
    { value := floatValue negative m (if (exponentSign cs).1 then e - k else e + k)
      after := .ok ⟨ds.dropWhile Char.isDigit,
        Nat.le_trans (length_dropWhile_le _ _) (Nat.le_trans (length_exponentSign_snd_le cs) h)⟩ }

/-- The decimal places behind the point, and an exponent if there is one. -/
def places (negative : Bool) (m : Nat) (e : Int) (n : Nat) (cs : List Char)
    (h : cs.length ≤ n) : Leaf Number n :=
  let digits := cs.takeWhile Char.isDigit
  if digits.isEmpty then noDigit cs
  else
    let (m, taken) := placeDigits m 0 digits
    match hr : cs.dropWhile Char.isDigit with
    | [] => { value := floatValue negative m (e - taken), after := .ok ⟨[], Nat.zero_le n⟩ }
    | c :: rest =>
      have hle : (c :: rest).length ≤ n := hr ▸ Nat.le_trans (length_dropWhile_le _ _) h
      if c = 'e' ∨ c = 'E' then
        exponent negative m (e - taken) n rest (length_le_of_cons hle)
      else { value := floatValue negative m (e - taken), after := .ok ⟨c :: rest, hle⟩ }

theorem length_dropWhile_lt {p : Char → Bool} {cs : List Char}
    (h : (cs.takeWhile p).isEmpty = false) : (cs.dropWhile p).length ≤ cs.length - 1 := by
  have happ := congrArg List.length (@List.takeWhile_append_dropWhile _ p cs)
  have hpos : 0 < (cs.takeWhile p).length := List.length_pos_iff.2 (by simpa using h)
  simp only [List.length_append] at happ
  omega

/-- A number behind its sign; it takes at least one character. A leading zero stands
alone. -/
def number (negative : Bool) (cs : List Char) : Leaf Number (cs.length - 1) :=
  let digits := cs.takeWhile Char.isDigit
  if hd : digits.isEmpty then noDigit cs
  else if digits.head? = some '0' ∧ 1 < digits.length then stop none .badNumber
  else
    have hlt := length_dropWhile_lt (eq_false_of_ne_true hd)
    let (m, dropped) := wholeDigits 0 0 digits
    match hr : cs.dropWhile Char.isDigit with
    | [] => { value := integerValue negative m dropped, after := .ok ⟨[], by simp⟩ }
    | c :: rest =>
      have hle : (c :: rest).length ≤ cs.length - 1 := hr ▸ hlt
      have hle' : rest.length ≤ cs.length - 1 := by simp only [List.length_cons] at hle; omega
      if c = '.' then places negative m dropped _ rest hle'
      else if c = 'e' ∨ c = 'E' then exponent negative m dropped _ rest hle'
      else { value := integerValue negative m dropped, after := .ok ⟨c :: rest, hle⟩ }

end Flowchart.Json.Scan
