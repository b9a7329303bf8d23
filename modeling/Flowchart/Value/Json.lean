/-
Values as JSON: an object with the members `type` and `value`, or an array of the two.
A decimal is written as a string that keeps all its places, and read from a string or
a number.
-/
import Flowchart.Json.Decode
import Flowchart.Value.Basic

namespace Flowchart.Value

open Json (Node Decoder ReadError)

def toJson : Value → Json
  | decimal d => .object [("type", .string "decimal"), ("value", .string d.toText)]
  | bool b => .object [("type", .string "bool"), ("value", .bool b)]

/-- What messages call a decimal. -/
def decimalKind : String := "a Decimal type representing a fixed-point number"

/-- Reads a decimal from a string, an integer, or the shortest plain text of a binary
floating point number. -/
def decodeDecimal : Decoder Decimal
  | .string s =>
    match Decimal.ofText s with
    | .ok d => .ok d
    | .error _ => .error (.mismatch (.value (.string s) decimalKind))
  | .number (.int n) =>
    match Decimal.ofInt? n with
    | some d => .ok d
    | none => .error (.mismatch (.value (.int n) decimalKind))
  | .number (.float x) =>
    match Decimal.ofText x.toPlainText with
    | .ok d => .ok d
    | .error _ => .error (.mismatch (.value (.float x) decimalKind))
  | node => Json.Decode.refuse decimalKind node

def types : List ValueType := [.decimal, .bool]

/-- Reads the type of a value that is written as an object. -/
def decodeType : Decoder ValueType :=
  Json.Decode.word (types.map ValueType.name) fun s =>
    Json.Decode.noContent (if s = "decimal" then .decimal else .bool)

/-- Reads the type of a value that is written as an array: only a string will do. -/
def decodeBareType : Decoder ValueType := Json.Decode.bareWord types ValueType.name

/-- Reads the content of a value of the given type. -/
def decodeContent : ValueType → Decoder Value
  | .decimal, node => (decodeDecimal node).map decimal
  | .bool, node => (Json.Decode.bool node).map bool

/-- A value under construction. Content that comes before its type is set aside. -/
inductive Draft
  | empty
  | typed (t : ValueType)
  | content (node : Node)
  | complete (v : Value)

/-- Takes in one member; `readType` reads the type. -/
def Draft.step (readType : Decoder ValueType) (s : Draft) (key : String) (node : Node) :
    Except ReadError Draft :=
  if key = "type" then
    match s with
    | .empty => (readType node).map .typed
    | .content c => do
      let t ← readType node
      return .complete (← decodeContent t c)
    | _ => .error (.mismatch (.duplicate "type"))
  else if key = "value" then
    match s with
    | .empty => (Json.Decode.any node).map fun _ => .content node
    | .typed t => (decodeContent t node).map .complete
    | _ => .error (.mismatch (.duplicate "value"))
  else (Json.Decode.skip node).map fun _ => s

def Draft.finish : Draft → Except ReadError Value
  | .complete v => .ok v
  | .typed _ => .error (.mismatch (.missing "value"))
  | _ => .error (.mismatch (.missing "type"))

/-- What messages call a value. -/
def kind : String := "adjacently tagged enum Value"

def decode : Decoder Value
  | .object members ending => do
    let s ← Json.Decode.foldMembers (Draft.step decodeType) .empty members
    Json.Decode.atEnd ending
    s.finish
  | .array items ending => do
    let fields : List Json.Decode.Field := [⟨"type", true⟩, ⟨"value", true⟩]
    let step := Draft.step decodeBareType
    let s ← Json.Decode.foldItems kind .inText step ending 0 .empty fields items
    s.finish
  | node => Json.Decode.refuse kind node

/-- Reads a value from JSON text. -/
def ofJsonText (text : String) : Except ReadError Value := Json.read decode text

end Flowchart.Value
