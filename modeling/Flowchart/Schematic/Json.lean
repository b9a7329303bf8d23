/-
Schematics as JSON. An edge of a decision has the kind `branch` with its truth value; the
other kinds are bare words.
-/
import Flowchart.Block.Json
import Flowchart.Schematic.Basic

namespace Flowchart

open Json (Decoder ReadError)

namespace EdgeKind

def toJson : EdgeKind → Json
  | linear => .string "linear"
  | fork => .string "fork"
  | branch flag => .object [("branch", .bool flag)]

def decode : Decoder EdgeKind :=
  Json.Decode.word ["linear", "fork", "branch"] fun s content =>
    match s with
    | "linear" => Json.Decode.noContent linear content
    | "fork" => Json.Decode.noContent fork content
    | _ =>
      match content with
      | some node => (Json.Decode.bool node).map branch
      | none => .error (.mismatch (.type .unitVariant "newtype variant"))

end EdgeKind

namespace Schematic

def Node.toJson (n : Node) : Json :=
  .object [("id", .string n.id), ("kind", .string n.kind.name), ("code", .ofNat n.code),
    ("label", .string n.label)]

def Edge.toJson (e : Edge) : Json :=
  .object [("from", .string e.source), ("to", .string e.target), ("kind", e.kind.toJson),
    ("label", .ofOption .string e.label)]

def toJson (s : Schematic) : Json :=
  let description : List (String × Json) :=
    match s.description with
    | some d => [("description", .string d)]
    | none => []
  .object (("name", .string s.name) :: description ++
    [("nodes", .array (s.nodes.map Node.toJson)), ("edges", .array (s.edges.map Edge.toJson))])

/-- The fields of a node read so far. -/
structure Node.Draft where
  id : Option String
  kind : Option BlockKind
  code : Option Nat
  label : Option String

def Node.Draft.step (s : Node.Draft) (key : String) (node : Json.Node) :
    Except ReadError Node.Draft := do
  match key with
  | "id" => return { s with id := ← Json.Decode.once key s.id (Json.Decode.string node) }
  | "kind" => return { s with kind := ← Json.Decode.once key s.kind (BlockKind.decode node) }
  | "code" =>
    let code := Json.Decode.natural (Nat.pow 2 16) "u16" node
    return { s with code := ← Json.Decode.once key s.code code }
  | "label" => return { s with label := ← Json.Decode.once key s.label (Json.Decode.string node) }
  | _ =>
    Json.Decode.skip node
    return s

def Node.decode : Decoder Node := fun node => do
  let s ← Json.Decode.record "struct Node"
    [⟨"id", true⟩, ⟨"kind", true⟩, ⟨"code", true⟩, ⟨"label", true⟩] .inText
    Node.Draft.step ⟨none, none, none, none⟩ node
  let id ← Json.Decode.require "id" s.id
  let kind ← Json.Decode.require "kind" s.kind
  let code ← Json.Decode.require "code" s.code
  let label ← Json.Decode.require "label" s.label
  return { id, kind, code, label }

/-- The fields of an edge read so far. -/
structure Edge.Draft where
  source : Option String
  target : Option String
  kind : Option EdgeKind
  label : Option (Option String)

def Edge.Draft.step (s : Edge.Draft) (key : String) (node : Json.Node) :
    Except ReadError Edge.Draft := do
  match key with
  | "from" => return { s with source := ← Json.Decode.once key s.source (Json.Decode.string node) }
  | "to" => return { s with target := ← Json.Decode.once key s.target (Json.Decode.string node) }
  | "kind" => return { s with kind := ← Json.Decode.once key s.kind (EdgeKind.decode node) }
  | "label" =>
    let label := Json.Decode.optional Json.Decode.string node
    return { s with label := ← Json.Decode.once key s.label label }
  | _ =>
    Json.Decode.skip node
    return s

def Edge.decode : Decoder Edge := fun node => do
  let s ← Json.Decode.record "struct Edge"
    [⟨"from", true⟩, ⟨"to", true⟩, ⟨"kind", true⟩, ⟨"label", true⟩] .inText
    Edge.Draft.step ⟨none, none, none, none⟩ node
  let source ← Json.Decode.require "from" s.source
  let target ← Json.Decode.require "to" s.target
  let kind ← Json.Decode.require "kind" s.kind
  return { source, target, kind, label := s.label.join }

/-- The fields of a schematic read so far. -/
structure Draft where
  name : Option String
  description : Option (Option String)
  nodes : Option (List Node)
  edges : Option (List Edge)

def Draft.step (s : Draft) (key : String) (node : Json.Node) : Except ReadError Draft := do
  match key with
  | "name" => return { s with name := ← Json.Decode.once key s.name (Json.Decode.string node) }
  | "description" =>
    let description := Json.Decode.optional Json.Decode.string node
    return { s with description := ← Json.Decode.once key s.description description }
  | "nodes" =>
    return { s with nodes := ← Json.Decode.once key s.nodes (Json.Decode.list Node.decode node) }
  | "edges" =>
    return { s with edges := ← Json.Decode.once key s.edges (Json.Decode.list Edge.decode node) }
  | _ =>
    Json.Decode.skip node
    return s

def decode : Decoder Schematic := fun node => do
  let s ← Json.Decode.record "struct Schematic"
    [⟨"name", true⟩, ⟨"description", false⟩, ⟨"nodes", true⟩, ⟨"edges", true⟩] .inText
    Draft.step ⟨none, none, none, none⟩ node
  let name ← Json.Decode.require "name" s.name
  let nodes ← Json.Decode.require "nodes" s.nodes
  let edges ← Json.Decode.require "edges" s.edges
  return { name, description := s.description.join, nodes, edges }

/-- Reads a schematic from JSON text. -/
def ofJsonText (text : String) : Except ReadError Schematic := Json.read decode text

end Schematic

end Flowchart
