/-
Descriptions of blocks, as programs list them: an identifier, a kind, the blocks that
control may go to next, and a payload that depends on the kind.
-/
import Flowchart.Json.Basic
import Flowchart.Value.Basic

namespace Flowchart

inductive BlockKind
  | start
  | decimalAssign
  | boolAssign
  | decision
deriving DecidableEq, Repr

namespace BlockKind

def all : List BlockKind := [start, decimalAssign, boolAssign, decision]

def name : BlockKind → String
  | start => "start"
  | decimalAssign => "decimal_assign"
  | boolAssign => "bool_assign"
  | decision => "decision"

/-- The numeric code of the kind. -/
def code : BlockKind → Nat
  | start => 101
  | decimalAssign => 103
  | boolAssign => 104
  | decision => 105

/-- The type of the variable that blocks of this kind assign, if they do. -/
def assignedType? : BlockKind → Option ValueType
  | decimalAssign => some .decimal
  | boolAssign => some .bool
  | _ => none

def ofName? (s : String) : Option BlockKind := all.find? (·.name = s)

end BlockKind

structure BlockDescription where
  id : String
  kind : BlockKind
  adjacents : List String
  payload : Json
deriving DecidableEq

namespace BlockDescription

def start (id : String) : BlockDescription := ⟨id, .start, [], .null⟩

/-- The payload of an assignment. -/
def assignment (name expression : String) : Json :=
  .ofMembers [("name", .string name), ("expression", .string expression)]

def decimalAssign (id name expression : String) : BlockDescription :=
  ⟨id, .decimalAssign, [], assignment name expression⟩

def boolAssign (id name expression : String) : BlockDescription :=
  ⟨id, .boolAssign, [], assignment name expression⟩

def decision (id condition whenTrue whenFalse : String) : BlockDescription :=
  ⟨id, .decision, [whenTrue, whenFalse], .ofMembers [("condition", .string condition)]⟩

/-- Adds a block that control may go to. -/
def withTarget (d : BlockDescription) (target : String) : BlockDescription :=
  { d with adjacents := d.adjacents ++ [target] }

def withAdjacents (d : BlockDescription) (adjacents : List String) : BlockDescription :=
  { d with adjacents }

def withPayload (d : BlockDescription) (payload : Json) : BlockDescription := { d with payload }

end BlockDescription

end Flowchart
