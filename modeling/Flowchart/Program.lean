/-
Programs as they are stored: a name, perhaps a description, and the descriptions of the
blocks.
-/
import Flowchart.Block.Json
import Flowchart.Graph
import Flowchart.Json.Write

namespace Flowchart

open Json (Node Decoder ReadError)

structure Program where
  name : String
  description : Option String
  blocks : List BlockDescription
deriving DecidableEq

namespace Program

def build (p : Program) (allowFanOut : Bool) : Except BuildError Graph :=
  Graph.build allowFanOut p.blocks

def toJson (p : Program) : Json :=
  let description : List (String × Json) :=
    match p.description with
    | some d => [("description", .string d)]
    | none => []
  .object (("name", .string p.name) :: description ++
    [("blocks", .array (p.blocks.map BlockDescription.toJson))])

/-- The text that a program is stored as. -/
def toJsonText (p : Program) : String := p.toJson.pretty

/-- The fields read so far. -/
structure Draft where
  name : Option String
  description : Option (Option String)
  blocks : Option (List BlockDescription)

def Draft.step (s : Draft) (key : String) (node : Node) : Except ReadError Draft := do
  match key with
  | "name" => return { s with name := ← Json.Decode.once key s.name (Json.Decode.string node) }
  | "description" =>
    let description := Json.Decode.optional Json.Decode.string node
    return { s with description := ← Json.Decode.once key s.description description }
  | "blocks" =>
    let blocks := Json.Decode.list BlockDescription.decode node
    return { s with blocks := ← Json.Decode.once key s.blocks blocks }
  | _ =>
    Json.Decode.skip node
    return s

def decode : Decoder Program := fun node => do
  let s ← Json.Decode.record "struct Program"
    [⟨"name", true⟩, ⟨"description", false⟩, ⟨"blocks", true⟩] .inText
    Draft.step ⟨none, none, none⟩ node
  let name ← Json.Decode.require "name" s.name
  let blocks ← Json.Decode.require "blocks" s.blocks
  return { name, description := s.description.join, blocks }

/-- Reads a program from JSON text. -/
def ofJsonText (text : String) : Except ReadError Program := Json.read decode text

end Program

end Flowchart
