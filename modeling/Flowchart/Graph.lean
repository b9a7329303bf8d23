/-
Graphs: the blocks of a program, checked as a whole. A graph has no two blocks of one
identifier, exactly one start block, and only adjacent blocks that exist. Building
reports the first violation in that order; faults of single blocks come after repeated
identifiers and before the others. Identifiers are looked up in an index of positions.
-/
import Flowchart.Assoc
import Flowchart.Block.Basic

namespace Flowchart

structure Graph where
  blocks : List Block
  /-- Where the block of an identifier stands. -/
  index : List (String × Nat)
  /-- Where the start block stands. -/
  startAt : Fin blocks.length
deriving DecidableEq

/-- Why descriptions are no graph. -/
inductive BuildError
  | duplicateId (id : String)
  | invalidPayload (e : InvalidPayload)
  | startCount (found : Nat)
  | dangling (source target : String)
  | fanOut (block : String)
deriving DecidableEq

namespace BuildError

def message : BuildError → String
  | duplicateId id => s!"duplicate block id `{id}`"
  | invalidPayload e => e.message
  | startCount found => s!"expected exactly one start block, found {found}"
  | dangling source target => s!"block `{source}` points to unknown block `{target}`"
  | fanOut block =>
    s!"block `{block}` fans out to several blocks but concurrent branching is disabled"

end BuildError

/-- No block has the identifier that was asked for. -/
structure BlockNotFound where
  id : String
deriving DecidableEq

def BlockNotFound.message (e : BlockNotFound) : String :=
  let id := e.id
  s!"block `{id}` not found"

namespace Graph

/-- Adds identifiers to an index, the first one at `position`, up to one that it has. -/
def indexFrom (index : List (String × Nat)) (position : Nat) :
    List String → Except BuildError (List (String × Nat))
  | [] => .ok index
  | id :: rest =>
    if (Assoc.get? id index).isSome then .error (.duplicateId id)
    else indexFrom (Assoc.insert id position index) (position + 1) rest

/-- The blocks of the descriptions, or the first fault. -/
def constructAll (ds : List BlockDescription) : Except BuildError (List Block) :=
  match ds.mapM Block.construct with
  | .ok blocks => .ok blocks
  | .error e => .error (.invalidPayload e)

/-- Where start blocks stand. -/
def startPositions (blocks : List Block) : List (Fin blocks.length) :=
  (List.finRange blocks.length).filter fun position => (blocks.get position).kind = .start

/-- The position of the only start block. -/
def onlyStart (blocks : List Block) : Except BuildError (Fin blocks.length) :=
  match startPositions blocks with
  | [position] => .ok position
  | positions => .error (.startCount positions.length)

/-- The first block with an adjacent block that the index does not have, and the first
such one. -/
def firstDangling (index : List (String × Nat)) (blocks : List Block) : Option (String × String) :=
  blocks.findSome? fun b =>
    (b.adjacents.find? fun target => (Assoc.get? target index).isNone).map fun target => (b.id, target)

/-- The first block that fans out, unless that is allowed. -/
def refusedFanOut (allowFanOut : Bool) (blocks : List Block) : Option Block :=
  if allowFanOut then none else blocks.find? Block.fansOut

/-- Checks descriptions and makes them a graph. -/
def build (allowFanOut : Bool) (ds : List BlockDescription) : Except BuildError Graph :=
  match indexFrom [] 0 (ds.map BlockDescription.id) with
  | .error e => .error e
  | .ok index =>
    match constructAll ds with
    | .error e => .error e
    | .ok blocks =>
      match onlyStart blocks with
      | .error e => .error e
      | .ok startAt =>
        match firstDangling index blocks with
        | some (source, target) => .error (.dangling source target)
        | none =>
          match refusedFanOut allowFanOut blocks with
          | some b => .error (.fanOut b.id)
          | none => .ok { blocks, index, startAt }

def start (g : Graph) : Block := g.blocks.get g.startAt

def get? (g : Graph) (id : String) : Option Block :=
  (Assoc.get? id g.index).bind fun position => g.blocks[position]?

def lookup (g : Graph) (id : String) : Except BlockNotFound Block :=
  match g.get? id with
  | some b => .ok b
  | none => .error ⟨id⟩

def contains (g : Graph) (id : String) : Bool := (Assoc.get? id g.index).isSome

def size (g : Graph) : Nat := g.blocks.length

/-- Whether some block fans out. -/
def hasFanOut (g : Graph) : Bool := g.blocks.any Block.fansOut

/-- Counts one more of a kind: where the kind stands, or else behind the others. -/
def countKind (kind : BlockKind) : List (BlockKind × Nat) → List (BlockKind × Nat)
  | [] => [(kind, 1)]
  | (kind', n) :: rest =>
    if kind' = kind then (kind', n + 1) :: rest else (kind', n) :: countKind kind rest

/-- How many there are of each kind, in the order of their first occurrences. -/
def tally (kinds : List BlockKind) : List (BlockKind × Nat) :=
  kinds.foldl (fun counts kind => countKind kind counts) []

/-- How many blocks of each kind there are, in the order of the codes. Kinds without a
block are left out. -/
def kindCounts (g : Graph) : List (BlockKind × Nat) :=
  (tally (g.blocks.map Block.kind)).mergeSort fun p q => p.1.code ≤ q.1.code

end Graph

end Flowchart
