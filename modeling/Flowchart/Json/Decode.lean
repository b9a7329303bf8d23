/-
From nodes to data. A decoder walks a node in the order of its text and stops at the
first thing that is wrong, be it a flaw of the text or a value of the wrong kind.

A record is written as an object, in any order of its fields, or as an array with the
fields in their declared order. A word out of a fixed set is written as a string or as
the only key of an object.
-/
import Flowchart.Json.Node
import Flowchart.Text.Quoted

namespace Flowchart.Json

/-- What was found in place of what was asked for. -/
inductive Found
  | null
  | bool (b : Bool)
  | int (n : Int)
  | float (x : Binary64)
  | string (s : String)
  | sequence
  | map
  | unitVariant
deriving DecidableEq

def Found.text : Found → String
  | null => "null"
  | bool b => if b then "boolean `true`" else "boolean `false`"
  | int n => s!"integer `{n}`"
  | float x => "floating point `" ++ x.toText ++ "`"
  | string s => "string " ++ Text.quote s
  | sequence => "sequence"
  | map => "map"
  | unitVariant => "unit variant"

/-- Text that is JSON but not what was asked for. -/
inductive Mismatch
  | type (found : Found) (expected : String)
  | value (found : Found) (expected : String)
  | length (n : Nat) (expected : String)
  | missing (field : String)
  | duplicate (field : String)
  | unknownField (name : String) (known : List String)
  | unknownWord (name : String) (known : List String)
deriving DecidableEq

/-- The names in backquotes, as a choice. -/
def choice (names : List String) : String :=
  let quoted := names.map fun n => s!"`{n}`"
  match quoted with
  | [a] => a
  | [a, b] => a ++ " or " ++ b
  | _ => "one of " ++ ", ".intercalate quoted

def Mismatch.message : Mismatch → String
  | type found expected => "invalid type: " ++ found.text ++ ", expected " ++ expected
  | value found expected => "invalid value: " ++ found.text ++ ", expected " ++ expected
  | length n expected => s!"invalid length {n}, expected {expected}"
  | missing field => s!"missing field `{field}`"
  | duplicate field => s!"duplicate field `{field}`"
  | unknownField name known => s!"unknown field `{name}`, expected " ++ choice known
  | unknownWord name known => s!"unknown variant `{name}`, expected " ++ choice known

/-- Why a text could not be read as what was asked for. -/
inductive ReadError
  | flaw (f : Flaw)
  | mismatch (m : Mismatch)
deriving DecidableEq

def ReadError.message : ReadError → String
  | flaw f => f.message
  | mismatch m => m.message

abbrev Decoder (α : Type) := Node → Except ReadError α

namespace Decode

/-- The error for a node that is not what was expected. -/
def refuse {α : Type} (expected : String) (node : Node) : Except ReadError α :=
  let found (f : Found) : Except ReadError α := .error (.mismatch (.type f expected))
  match node with
  | .null => found .null
  | .bool b => found (.bool b)
  | .number (.int n) => found (.int n)
  | .number (.float x) => found (.float x)
  | .string s => found (.string s)
  | .array .. => found .sequence
  | .object .. => found .map
  | .broken _ f _ => .error (.flaw f)

/-- Succeeds at the end of a container that was not cut short. -/
def atEnd (ending : Option Stop) : Except ReadError Unit :=
  match ending with
  | some s => .error (.flaw s.flaw)
  | none => .ok ()

/-- Passes over any value. -/
def skip (node : Node) : Except ReadError Unit :=
  match node.skipFlaw? with
  | some f => .error (.flaw f)
  | none => .ok ()

def string : Decoder String
  | .string s => .ok s
  | node => refuse "a string" node

def bool : Decoder Bool
  | .bool b => .ok b
  | node => refuse "a boolean" node

/-- A natural number below `bound`; `expected` names its type. -/
def natural (bound : Nat) (expected : String) : Decoder Nat
  | .number (.int n) =>
    if 0 ≤ n ∧ n < bound then .ok n.toNat
    else .error (.mismatch (.value (.int n) expected))
  | node => refuse expected node

def null : Decoder Unit
  | .null => .ok ()
  | node => refuse "unit" node

/-- A value or null. -/
def optional {α : Type} (value : Decoder α) : Decoder (Option α)
  | .null => .ok none
  | node => (value node).map some

def list {α : Type} (item : Decoder α) : Decoder (List α)
  | .array items ending => do
    let l ← items.mapM item
    atEnd ending
    return l
  | node => refuse "a sequence" node

/-- Goes through the members of an object in their order. -/
def foldMembers {σ : Type} (step : σ → String → Node → Except ReadError σ) (s : σ) :
    List (Except Flaw String × Node) → Except ReadError σ
  | [] => .ok s
  | (.ok key, node) :: rest => do foldMembers step (← step s key node) rest
  | (.error f, _) :: _ => .error (.flaw f)

/-- A field of a record and whether an array must have a place for it. -/
structure Field where
  name : String
  required : Bool

/-- What is wrong with an array that has more items than the record has fields. -/
inductive Surplus
  /-- The text goes on where it should end. -/
  | inText
  /-- The array is already there as a whole. -/
  | inValue
  /-- The array was set aside and is read afterwards. -/
  | inBuffer

def Surplus.error (s : Surplus) (taken extra : Nat) : ReadError :=
  match s with
  | inText => .flaw .trailingCharacters
  | inValue => .mismatch (.length (taken + extra) "fewer elements in array")
  | inBuffer =>
    let elements := if taken = 1 then "1 element" else s!"{taken} elements"
    .mismatch (.length (taken + extra) (elements ++ " in sequence"))

/-- The flaw of an array that does not end behind the last field. -/
def overfull : Flaw → Flaw
  | .endInList => .endInList
  | .trailingComma => .trailingComma
  | _ => .trailingCharacters

/-- Goes through the items of an array as the fields in their declared order; `index`
fields have been read. -/
def foldItems {σ : Type} (expected : String) (surplus : Surplus)
    (step : σ → String → Node → Except ReadError σ) (ending : Option Stop) (index : Nat) (s : σ) :
    List Field → List Node → Except ReadError σ
  | [], [] =>
    match ending with
    | none => .ok s
    | some stop => .error (.flaw (overfull stop.flaw))
  | [], items => .error (surplus.error index items.length)
  | field :: fields, item :: items => do
    foldItems expected surplus step ending (index + 1) (← step s field.name item) fields items
  | field :: fields, [] => do
    atEnd ending
    if field.required then .error (.mismatch (.length index expected))
    else foldItems expected surplus step ending (index + 1) s fields []

/-- Reads a record. `step` takes in one field; `kind` is what messages call the record. -/
def record {σ : Type} (kind : String) (fields : List Field) (surplus : Surplus)
    (step : σ → String → Node → Except ReadError σ) (init : σ) : Decoder σ
  | .object members ending => do
    let s ← foldMembers step init members
    atEnd ending
    return s
  | .array items ending =>
    let count := fields.length
    let elements := if count = 1 then "1 element" else s!"{count} elements"
    foldItems (kind ++ " with " ++ elements) surplus step ending 0 init fields items
  | node => refuse kind node

/-- Takes in a field that may come only once. -/
def once {α : Type} (field : String) (old : Option α) (value : Except ReadError α) :
    Except ReadError (Option α) :=
  match old with
  | some _ => .error (.mismatch (.duplicate field))
  | none => value.map some

/-- The value of a field that must be there. -/
def require {α : Type} (field : String) : Option α → Except ReadError α
  | some a => .ok a
  | none => .error (.mismatch (.missing field))

/-- Checks that a word is one of the words in `names`. -/
def known (names : List String) (s : String) : Except ReadError Unit :=
  if s ∈ names then .ok () else .error (.mismatch (.unknownWord s names))

/-- Reads one of `values` by its name, which must be a string. -/
def bareWord {α : Type} (values : List α) (name : α → String) : Decoder α
  | .string s =>
    match values.find? (name · = s) with
    | some a => .ok a
    | none => .error (.mismatch (.unknownWord s (values.map name)))
  | node => refuse "variant identifier" node

/-- Reads one of the words in `names`: a string, or an object with it as the only key.
`content` gets the value under the key, or nothing. -/
def word {α : Type} (names : List String)
    (content : String → Option Node → Except ReadError α) : Decoder α
  | .string s => do
    known names s
    content s none
  | .object [] none => .error (.flaw .keyNotString)
  | .object [] (some s) => .error (.flaw s.flaw)
  | .object ((.error f, _) :: _) _ => .error (.flaw f)
  | .object ((.ok s, value) :: more) ending => do
    known names s
    let a ← content s (some value)
    match more, ending with
    | [], none => return a
    | [], some ⟨.endInObject, _⟩ => .error (.flaw .endInObject)
    | _, _ => .error (.flaw .expectedValue)
  | .broken none f _ => .error (.flaw f)
  | .broken (some c) f _ =>
    .error (.flaw (if c = '"' ∨ c = '\x7b' then f else .expectedValue))
  | _ => .error (.flaw .expectedValue)

/-- The content of a word that has none. -/
def noContent {α : Type} (a : α) : Option Node → Except ReadError α
  | none => .ok a
  | some node => (null node).map fun _ => a

end Decode

/-- Reads a whole text. -/
def Document.decode {α : Type} (decoder : Decoder α) (d : Document) : Except ReadError α := do
  let a ← decoder d.root
  if d.trailing then .error (.flaw .trailingCharacters) else .ok a

/-- Reads a text with a decoder. -/
def read {α : Type} (decoder : Decoder α) (text : String) : Except ReadError α :=
  (Document.ofText text).decode decoder

/-! ## Any value -/

mutual

/-- Any value. Of several members with one name the last counts. -/
def Decode.any : Decoder Json
  | .null => .ok .null
  | .bool b => .ok (.bool b)
  | .number n => .ok (.number n)
  | .string s => .ok (.string s)
  | .array items ending => do
    let l ← anyItems items
    atEnd ending
    return .array l
  | .object members ending => do
    let l ← anyMembers members
    atEnd ending
    return .ofMembers l
  | .broken _ f _ => .error (.flaw f)

def Decode.anyItems : List Node → Except ReadError (List Json)
  | [] => .ok []
  | node :: rest => do
    let j ← any node
    return j :: (← anyItems rest)

def Decode.anyMembers :
    List (Except Flaw String × Node) → Except ReadError (List (String × Json))
  | [] => .ok []
  | (.ok key, node) :: rest => do
    let j ← any node
    return (key, j) :: (← anyMembers rest)
  | (.error f, _) :: _ => .error (.flaw f)

end

mutual

/-- A value as a node without flaws. -/
def toNode : Json → Node
  | null => .null
  | bool b => .bool b
  | number n => .number n
  | string s => .string s
  | array items => .array (toNodes items) none
  | object members => .object (toNodeMembers members) none

def toNodes : List Json → List Node
  | [] => []
  | j :: rest => toNode j :: toNodes rest

def toNodeMembers : List (String × Json) → List (Except Flaw String × Node)
  | [] => []
  | (k, j) :: rest => (.ok k, toNode j) :: toNodeMembers rest

end

/-- The value that a text stands for. -/
def parse (text : String) : Except ReadError Json := read Decode.any text

end Flowchart.Json
