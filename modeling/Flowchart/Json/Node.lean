/-
A JSON text as far as it can be read.

What a text should hold is not known while it is read, and a text with a flaw may
still be wrong for its reader before the flaw is reached. So reading never fails: it
gives a tree, and where the text stops being JSON the tree says so. A container that
is cut short keeps what was read of it and the flaw that ended it.
-/
import Flowchart.Json.Scan

namespace Flowchart.Json

/-- What stands at one place of a text. -/
inductive Node
  | null
  | bool (b : Bool)
  | number (n : Number)
  | string (s : String)
  /-- The items that were read, and what ended the list early, if anything. -/
  | array (items : List Node) (ending : Option Stop)
  /-- Keys with their values, and what ended the object early, if anything. A key with a
  flaw that only a reader of its text meets does not end the object. -/
  | object (members : List (Except Flaw String × Node)) (ending : Option Stop)
  /-- No value for a reader. `lead` is its first character; `skipped` is the flaw met by a
  reader that only passes over it. -/
  | broken (lead : Option Char) (flaw : Flaw) (skipped : Option Flaw)

namespace Node

/-- The flaw that stops a reader who only passes over the value. -/
def skipFlaw? : Node → Option Flaw
  | array _ ending | object _ ending => ending.map Stop.skipped
  | broken _ _ skipped => skipped
  | _ => none

/-- A place where the text stops being JSON for every reader. -/
def cut (lead : Option Char) (f : Flaw) : Node := broken lead f (some f)

end Node

/-! ## Between the brackets -/

/-- What comes next in a list of `n` characters. -/
inductive NextItem (n : Nat)
  | close (rest : List Char) (h : rest.length < n)
  | item (c : Char) (rest : List Char) (h : rest.length < n)
  | flawed (s : Stop)

/-- Looks for the next item of a list, or its end. -/
def nextItem (first : Bool) (cs : List Char) : NextItem cs.length :=
  match h : Scan.skipBlanks cs with
  | [] => .flawed (Flaw.stop .endInList)
  | c :: rest =>
    have hr : rest.length < cs.length := Scan.length_lt_of_skipBlanks h
    if c = ']' then .close rest hr
    else if first then .item c rest hr
    else if c = ',' then
      match h' : Scan.skipBlanks rest with
      | [] => .flawed (Flaw.stop .endInValue)
      | c :: rest' =>
        have hr' : rest'.length < cs.length := Scan.length_lt_of_skipBlanks_twice h h'
        if c = ']' then .flawed ⟨.trailingComma, .expectedValue⟩ else .item c rest' hr'
    else .flawed (Flaw.stop .expectedListEnd)

/-- What comes next in an object of `n` characters. -/
inductive NextMember (n : Nat)
  | close (rest : List Char) (h : rest.length < n)
  /-- A key; `rest` is the text behind its opening quote. -/
  | key (rest : List Char) (h : rest.length < n)
  | flawed (s : Stop)

/-- Looks for the next member of an object, or its end. -/
def nextMember (first : Bool) (cs : List Char) : NextMember cs.length :=
  match h : Scan.skipBlanks cs with
  | [] => .flawed (Flaw.stop .endInObject)
  | c :: rest =>
    have hr : rest.length < cs.length := Scan.length_lt_of_skipBlanks h
    if c = '\x7d' then .close rest hr
    else if first then
      if c = '"' then .key rest hr else .flawed (Flaw.stop .keyNotString)
    else if c = ',' then
      match h' : Scan.skipBlanks rest with
      | [] => .flawed ⟨.endInValue, .endInObject⟩
      | c :: rest' =>
        have hr' : rest'.length < cs.length := Scan.length_lt_of_skipBlanks_twice h h'
        if c = '"' then .key rest' hr'
        else if c = '\x7d' then .flawed ⟨.trailingComma, .keyNotString⟩
        else .flawed (Flaw.stop .keyNotString)
    else .flawed (Flaw.stop .expectedObjectEnd)

/-- What comes behind a key, in `n` characters. -/
inductive AfterKey (n : Nat)
  | value (c : Char) (rest : List Char) (h : rest.length < n)
  | flawed (f : Flaw)

/-- Passes the colon. -/
def afterKey (cs : List Char) : AfterKey cs.length :=
  match h : Scan.skipBlanks cs with
  | [] => .flawed .endInObject
  | c :: rest =>
    if c = ':' then
      match h' : Scan.skipBlanks rest with
      | [] => .flawed .endInValue
      | c :: rest' =>
        .value c rest' (Scan.length_lt_of_skipBlanks_twice h h')
    else .flawed .expectedColon

/-! ## Passing over nested containers -/

/-- An open container. -/
inductive Frame
  | list
  | object
deriving DecidableEq

/-- Passes over a value without brackets. -/
def skipLeaf (c : Char) (rest : List Char) : Except Flaw (Scan.Rest rest.length) :=
  if c = '"' then (Scan.string rest.length [] none rest (Scan.length_le_self rest)).after
  else if c.isDigit then (Scan.number false (c :: rest)).after
  else if c = '-' then
    match (Scan.number true rest).after with
    | .error f => .error f
    | .ok ⟨rest', hr⟩ => .ok ⟨rest', Nat.le_trans hr (Nat.sub_le _ _)⟩
  else if c = 'n' then Scan.word ['u', 'l', 'l'] rest
  else if c = 't' then Scan.word ['r', 'u', 'e'] rest
  else if c = 'f' then Scan.word ['a', 'l', 's', 'e'] rest
  else .error .expectedValue

/-- Passes over the containers in `frames`, the innermost first, however deep they nest.
`due` tells whether a value must come next, `first` whether a bracket was just opened. -/
def skipFrom (n : Nat) (frames : List Frame) (due first : Bool) (cs : List Char)
    (h : cs.length ≤ n) : Except Flaw (Scan.Rest n) :=
  match due with
  | true =>
    match hs : Scan.skipBlanks cs with
    | [] => .error .endInValue
    | c :: rest =>
      have hr : rest.length < cs.length := Scan.length_lt_of_skipBlanks hs
      if c = '[' then skipFrom n (.list :: frames) false true rest (by omega)
      else if c = '\x7b' then skipFrom n (.object :: frames) false true rest (by omega)
      else
        match skipLeaf c rest with
        | .error f => .error f
        | .ok ⟨rest', hr'⟩ => skipFrom n frames false false rest' (by omega)
  | false =>
    match frames with
    | [] => .ok ⟨cs, h⟩
    | .list :: outer =>
      match nextItem first cs with
      | .flawed s => .error s.skipped
      | .close rest hr => skipFrom n outer false false rest (by omega)
      | .item c rest hr =>
        skipFrom n (.list :: outer) true false (c :: rest)
          (by simp only [List.length_cons]; omega)
    | .object :: outer =>
      match nextMember first cs with
      | .flawed s => .error s.skipped
      | .close rest hr => skipFrom n outer false false rest (by omega)
      | .key rest hr =>
        match (Scan.string rest.length [] none rest (Scan.length_le_self rest)).after with
        | .error f => .error f
        | .ok ⟨rest', hr'⟩ =>
          match afterKey rest' with
          | .flawed f => .error f
          | .value c rest'' hr'' =>
            skipFrom n (.object :: outer) true false (c :: rest'')
              (by simp only [List.length_cons]; omega)
termination_by 2 * cs.length + (if due then 0 else 1)
decreasing_by
  all_goals simp only [List.length_cons, if_true, if_false]
  all_goals omega

/-! ## Reading a value -/

/-- Reads the value that starts with the given character. -/
abbrev ValueReader := (c : Char) → (rest : List Char) → Node × Scan.Rest rest.length

/-- Nothing is left of a text that was cut. -/
def nothing (n : Nat) : Scan.Rest n := ⟨[], Nat.zero_le n⟩

/-- Reads the items of a list; `done` holds the earlier ones in reverse. -/
def readItems (value : ValueReader) (n : Nat) (done : List Node) (cs : List Char)
    (h : cs.length ≤ n) : Node × Scan.Rest n :=
  match nextItem done.isEmpty cs with
  | .flawed s => (.array done.reverse (some s), nothing n)
  | .close rest hr => (.array done.reverse none, ⟨rest, by omega⟩)
  | .item c rest hr =>
    match value c rest with
    | (node, ⟨rest', hr'⟩) =>
      match node.skipFlaw? with
      | some f => (.array (node :: done).reverse (some f.stop), nothing n)
      | none => readItems value n (node :: done) rest' (by omega)
termination_by cs.length

/-- Reads the members of an object; `done` holds the earlier ones in reverse. -/
def readMembers (value : ValueReader) (n : Nat) (done : List (Except Flaw String × Node))
    (cs : List Char) (h : cs.length ≤ n) : Node × Scan.Rest n :=
  let stopAt (key : Except Flaw String) (node : Node) (f : Flaw) : Node × Scan.Rest n :=
    (.object ((key, node) :: done).reverse (some f.stop), nothing n)
  match nextMember done.isEmpty cs with
  | .flawed s => (.object done.reverse (some s), nothing n)
  | .close rest hr => (.object done.reverse none, ⟨rest, by omega⟩)
  | .key rest hr =>
    let leaf := Scan.string rest.length [] none rest (Scan.length_le_self rest)
    match leaf.after with
    | .error f => stopAt leaf.value (.cut none f) f
    | .ok ⟨rest', hr'⟩ =>
      match afterKey rest' with
      | .flawed f => stopAt leaf.value (.cut none f) f
      | .value c rest'' hr'' =>
        match value c rest'' with
        | (node, ⟨rest₃, hr₃⟩) =>
          match node.skipFlaw? with
          | some f => stopAt leaf.value node f
          | none => readMembers value n ((leaf.value, node) :: done) rest₃ (by omega)
termination_by cs.length

/-- The node of a leaf that starts with `lead`. -/
def ofLeaf {α : Type} {n : Nat} (lead : Char) (make : α → Node) (leaf : Scan.Leaf α n) :
    Node × Scan.Rest n :=
  match leaf.value, leaf.after with
  | .ok a, .ok rest => (make a, rest)
  | .error f, .ok rest => (.broken (some lead) f none, rest)
  | .error f, .error f' => (.broken (some lead) f (some f'), nothing n)
  | .ok _, .error f => (.cut (some lead) f, nothing n)

/-- The node of a word that starts with `lead`. -/
def ofWord {n : Nat} (lead : Char) (node : Node) (after : Except Flaw (Scan.Rest n)) :
    Node × Scan.Rest n :=
  match after with
  | .ok rest => (node, rest)
  | .error f => (.cut (some lead) f, nothing n)

/-- A container that nests too deep: it can only be passed over. -/
def tooDeep (lead : Char) (frame : Frame) (rest : List Char) : Node × Scan.Rest rest.length :=
  match skipFrom rest.length [frame] false true rest (Scan.length_le_self rest) with
  | .ok rest' => (.broken (some lead) .tooDeep none, rest')
  | .error f => (.broken (some lead) .tooDeep (some f), nothing _)

/-- Reads a value. `inner` reads what stands in its brackets; `none` means that nothing
may nest here any more. -/
def readWith (inner : Option ValueReader) : ValueReader := fun c rest =>
  if c = '"' then
    ofLeaf c .string (Scan.string rest.length [] none rest (Scan.length_le_self rest))
  else if c = '[' then
    match inner with
    | some value => readItems value rest.length [] rest (Scan.length_le_self rest)
    | none => tooDeep c .list rest
  else if c = '\x7b' then
    match inner with
    | some value => readMembers value rest.length [] rest (Scan.length_le_self rest)
    | none => tooDeep c .object rest
  else if c.isDigit then ofLeaf c .number (Scan.number false (c :: rest))
  else if c = '-' then
    match ofLeaf c .number (Scan.number true rest) with
    | (node, ⟨rest', hr⟩) => (node, ⟨rest', Nat.le_trans hr (Nat.sub_le _ _)⟩)
  else if c = 'n' then ofWord c .null (Scan.word ['u', 'l', 'l'] rest)
  else if c = 't' then ofWord c (.bool true) (Scan.word ['r', 'u', 'e'] rest)
  else if c = 'f' then ofWord c (.bool false) (Scan.word ['a', 'l', 's', 'e'] rest)
  else (.cut (some c) .expectedValue, nothing _)

/-- Reads a value whose brackets nest at most `depth` deep. -/
def readValue : (depth : Nat) → ValueReader
  | 0 => readWith none
  | depth + 1 => readWith (some (readValue depth))

/-- How deep arrays and objects may nest. -/
def maxNesting : Nat := 127

/-- A whole text: its value, and whether anything but white space follows it. -/
structure Document where
  root : Node
  trailing : Bool

def Document.ofText (text : String) : Document :=
  match Scan.skipBlanks text.toList with
  | [] => { root := .cut none .endInValue, trailing := false }
  | c :: rest =>
    match readValue maxNesting c rest with
    | (root, ⟨rest', _⟩) => { root, trailing := !(Scan.skipBlanks rest').isEmpty }

end Flowchart.Json
