/-
Descriptions of blocks and the signals of blocks as JSON. A description may leave out
its adjacent blocks and its payload.
-/
import Flowchart.Block.Basic
import Flowchart.Expression.Json

namespace Flowchart

open Json (Node Decoder ReadError)

def TypeConflict.toJson (c : TypeConflict) : Json :=
  .object [("name", .string c.name), ("bound", .string c.bound.name),
    ("attempted", .string c.attempted.name)]

def BlockFault.toJson (f : BlockFault) : Json :=
  match f with
  | .evaluation expression cause =>
    .object [(f.kind, .object [("expression", .string expression), ("source", cause.toJson)])]
  | .typeConflict c => .object [(f.kind, c.toJson)]

def Signal.toJson (s : Signal) : Json :=
  let outcome : String × Json := ("outcome", .string s.label)
  match s with
  | .terminate => .object [outcome]
  | .next target => .object [outcome, ("detail", .string target)]
  | .fork targets => .object [outcome, ("detail", .strings targets)]
  | .fault f => .object [outcome, ("detail", f.toJson)]

/-- Reads the name of a kind. -/
def BlockKind.decode : Decoder BlockKind :=
  Json.Decode.word (all.map name) fun s => Json.Decode.noContent ((ofName? s).getD .start)

namespace BlockDescription

def toJson (d : BlockDescription) : Json :=
  .object [("id", .string d.id), ("kind", .string d.kind.name),
    ("adjacents", .strings d.adjacents), ("payload", d.payload)]

/-- The fields read so far. -/
structure Draft where
  id : Option String
  kind : Option BlockKind
  adjacents : Option (List String)
  payload : Option Json

def Draft.step (s : Draft) (key : String) (node : Node) : Except ReadError Draft := do
  match key with
  | "id" => return { s with id := ← Json.Decode.once key s.id (Json.Decode.string node) }
  | "kind" => return { s with kind := ← Json.Decode.once key s.kind (BlockKind.decode node) }
  | "adjacents" =>
    let adjacents := Json.Decode.list Json.Decode.string node
    return { s with adjacents := ← Json.Decode.once key s.adjacents adjacents }
  | "payload" => return { s with payload := ← Json.Decode.once key s.payload (Json.Decode.any node) }
  | _ =>
    Json.Decode.skip node
    return s

def decode : Decoder BlockDescription := fun node => do
  let s ← Json.Decode.record "struct BlockDescription"
    [⟨"id", true⟩, ⟨"kind", true⟩, ⟨"adjacents", false⟩, ⟨"payload", false⟩] .inText
    Draft.step ⟨none, none, none, none⟩ node
  let id ← Json.Decode.require "id" s.id
  let kind ← Json.Decode.require "kind" s.kind
  return { id, kind, adjacents := s.adjacents.getD [], payload := s.payload.getD .null }

/-- Reads a description from JSON text. -/
def ofJsonText (text : String) : Except ReadError BlockDescription := Json.read decode text

end BlockDescription

end Flowchart
