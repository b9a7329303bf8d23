/-
Schematics: what a graph looks like on paper. Every block is a node, and every adjacent
block an edge whose kind says how control takes it.
-/
import Flowchart.Graph

namespace Flowchart

inductive EdgeKind
  /-- The only way on. -/
  | linear
  /-- One of several ways taken at once. -/
  | fork
  /-- Taken if the condition has this truth value. -/
  | branch (flag : Bool)
deriving DecidableEq, Repr

/-- The caption of an edge of this kind. -/
def EdgeKind.label : EdgeKind → Option String
  | linear | fork => none
  | branch flag => some (if flag then "true" else "false")

namespace Schematic

structure Node where
  id : String
  kind : BlockKind
  code : Nat
  label : String
deriving DecidableEq, Repr

structure Edge where
  source : String
  target : String
  kind : EdgeKind
  label : Option String
deriving DecidableEq, Repr

end Schematic

structure Schematic where
  name : String
  description : Option String
  nodes : List Schematic.Node
  edges : List Schematic.Edge
deriving DecidableEq, Repr

namespace Block

/-- The caption of a block. -/
def label (b : Block) : String :=
  match b.operation with
  | .start _ => "start"
  | .assign name _ expression _ => name ++ " = " ++ expression.source
  | .decide condition _ _ => condition.source ++ " ?"

/-- The ways out of a block with their kinds. -/
def ways (b : Block) : List (EdgeKind × String) :=
  match b.operation with
  | .decide _ whenTrue whenFalse => [(.branch true, whenTrue), (.branch false, whenFalse)]
  | .start targets | .assign _ _ _ targets =>
    targets.map fun target => (if b.fansOut then .fork else .linear, target)

def node (b : Block) : Schematic.Node :=
  { id := b.id, kind := b.kind, code := b.kind.code, label := b.label }

def edges (b : Block) : List Schematic.Edge :=
  b.ways.map fun (kind, target) => { source := b.id, target, kind, label := kind.label }

end Block

namespace Schematic

def ofGraph (name : String) (description : Option String) (g : Graph) : Schematic :=
  { name, description, nodes := g.blocks.map Block.node, edges := g.blocks.flatMap Block.edges }

def node? (s : Schematic) (id : String) : Option Node := s.nodes.find? (·.id = id)

/-- The edges that leave a block. -/
def edgesFrom (s : Schematic) (id : String) : List Edge := s.edges.filter (·.source = id)

end Schematic

end Flowchart
