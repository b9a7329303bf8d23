/-
Blocks: the checked form of descriptions. Every expression is compiled when the block is
constructed, so a block that exists can be run. Faults of a description are reported in
a fixed order: the shape of the payload first, then the name or the number of adjacent
blocks, then the expression.
-/
import Flowchart.Block.Description
import Flowchart.Block.Signal
import Flowchart.Expression.Basic
import Flowchart.Json.Decode

namespace Flowchart

/-- What a block does, and where control may go from it. -/
inductive Operation
  | start (targets : List String)
  | assign (name : String) (type : ValueType) (expression : Expression) (targets : List String)
  | decide (condition : Expression) (whenTrue whenFalse : String)
deriving DecidableEq

structure Block where
  id : String
  operation : Operation
deriving DecidableEq

namespace Block

def kind (b : Block) : BlockKind :=
  match b.operation with
  | .start _ => .start
  | .assign _ .decimal _ _ => .decimalAssign
  | .assign _ .bool _ _ => .boolAssign
  | .decide .. => .decision

def adjacents (b : Block) : List String :=
  match b.operation with
  | .start targets | .assign _ _ _ targets => targets
  | .decide _ whenTrue whenFalse => [whenTrue, whenFalse]

/-- Whether control leaves the block on several ways at once. A decision always takes
one of its two. -/
def fansOut (b : Block) : Bool :=
  match b.operation with
  | .start targets | .assign _ _ _ targets => 1 < targets.length
  | .decide .. => false

/-- Runs the block. A block that faults leaves the environment as it was. -/
def signal (b : Block) (env : Environment) : Signal × Environment :=
  match b.operation with
  | .start targets => (.forward targets, env)
  | .assign name type expression targets =>
    match expression.evaluate env.get? with
    | .error e => (.fault (.evaluation expression.source e), env)
    | .ok v =>
      match env.assign name (v.coerce type) with
      | .error c => (.fault (.typeConflict c), env)
      | .ok (_, env') => (.forward targets, env')
  | .decide condition whenTrue whenFalse =>
    match condition.evaluate env.get? with
    | .error e => (.fault (.evaluation condition.source e), env)
    | .ok v => (.next (if v.toBool then whenTrue else whenFalse), env)

end Block

/-! ## Construction -/

/-- What is wrong with the shape of a payload. -/
inductive ShapeFault
  | payloadOnStart
  | unreadable (e : Json.ReadError)
deriving DecidableEq

def ShapeFault.message : ShapeFault → String
  | payloadOnStart => "start blocks take no payload"
  | unreadable e => e.message

/-- Why a description is no block. -/
inductive PayloadFault
  | shape (fault : ShapeFault)
  | variableName (name : String)
  | adjacencyCount (expected found : Nat)
  | expression (source : String) (cause : EvalError)
deriving DecidableEq

namespace PayloadFault

def message : PayloadFault → String
  | shape fault => "malformed payload: " ++ fault.message
  | variableName name => s!"`{name}` is not a valid variable name"
  | adjacencyCount expected found => s!"expected {expected} adjacent block(s), found {found}"
  | expression source cause =>
    let text := cause.message
    s!"rejected expression `{source}`: {text}"

def kind : PayloadFault → String
  | shape _ => "shape"
  | variableName _ => "variable_name"
  | adjacencyCount .. => "adjacency_count"
  | expression .. => "expression"

end PayloadFault

structure InvalidPayload where
  block : String
  kind : BlockKind
  fault : PayloadFault
deriving DecidableEq

def InvalidPayload.message (e : InvalidPayload) : String :=
  let kind := e.kind.name
  let block := e.block
  let fault := e.fault.message
  s!"invalid payload for {kind} block `{block}`: {fault}"

/-- Letters, digits and underscores, not starting with a digit. -/
def isVariableName (name : String) : Bool :=
  match name.toList with
  | [] => false
  | c :: rest => (c.isAlpha || c == '_') && rest.all Screen.isNameChar

/-- The payload of an assignment. -/
structure AssignPayload where
  name : String
  expression : String

namespace AssignPayload

structure Draft where
  name : Option String
  expression : Option String

def Draft.step (s : Draft) (key : String) (node : Json.Node) : Except Json.ReadError Draft :=
  if key = "name" ∨ key = "variable_name" then do
    return { s with name := ← Json.Decode.once "name" s.name (Json.Decode.string node) }
  else if key = "expression" ∨ key = "variable_value" then do
    return { s with
      expression := ← Json.Decode.once "expression" s.expression (Json.Decode.string node) }
  else
    .error (.mismatch
      (.unknownField key ["name", "variable_name", "expression", "variable_value"]))

/-- An object with a name and an expression and nothing else, or an array of the two. -/
def decode : Json.Decoder AssignPayload := fun node => do
  let s ← Json.Decode.record "struct AssignPayload" [⟨"name", true⟩, ⟨"expression", true⟩] .inValue
    Draft.step ⟨none, none⟩ node
  let name ← Json.Decode.require "name" s.name
  let expression ← Json.Decode.require "expression" s.expression
  return { name, expression }

end AssignPayload

/-- The condition of a decision: an object with that member alone, or an array of it. -/
def decodeDecision : Json.Decoder String := fun node => do
  let step (s : Option String) (key : String) (node : Json.Node) :=
    if key = "condition" then Json.Decode.once "condition" s (Json.Decode.string node)
    else .error (.mismatch (.unknownField key ["condition"]))
  let s ← Json.Decode.record "struct DecisionPayload" [⟨"condition", true⟩] .inValue step none node
  Json.Decode.require "condition" s

/-- Compiles an expression of a payload. -/
def compilePayload (source : String) : Except PayloadFault Expression :=
  match Expression.compile source with
  | .ok e => .ok e
  | .error e => .error (.expression source e)

/-- Reads a payload by its decoder. -/
def readPayload {α : Type} (decoder : Json.Decoder α) (payload : Json) : Except PayloadFault α :=
  match decoder payload.toNode with
  | .ok a => .ok a
  | .error e => .error (.shape (.unreadable e))

/-- The operation of an assignment block. -/
def assignOperation (type : ValueType) (d : BlockDescription) : Except PayloadFault Operation := do
  let p ← readPayload AssignPayload.decode d.payload
  if isVariableName p.name then
    return .assign p.name type (← compilePayload p.expression) d.adjacents
  else .error (.variableName p.name)

/-- The operation of a decision block. -/
def decideOperation (d : BlockDescription) : Except PayloadFault Operation := do
  let condition ← readPayload decodeDecision d.payload
  match d.adjacents with
  | [whenTrue, whenFalse] => return .decide (← compilePayload condition) whenTrue whenFalse
  | adjacents => .error (.adjacencyCount 2 adjacents.length)

/-- The operation that a description asks for. -/
def BlockDescription.operation (d : BlockDescription) : Except PayloadFault Operation :=
  match d.kind with
  | .start =>
    if d.payload = .null ∨ d.payload = .object [] then .ok (.start d.adjacents)
    else .error (.shape .payloadOnStart)
  | .decimalAssign => assignOperation .decimal d
  | .boolAssign => assignOperation .bool d
  | .decision => decideOperation d

/-- The block that a description asks for. -/
def Block.construct (d : BlockDescription) : Except InvalidPayload Block :=
  match d.operation with
  | .ok operation => .ok { id := d.id, operation }
  | .error fault => .error { block := d.id, kind := d.kind, fault }

end Flowchart
