/-
Runs of a graph. A run keeps a queue of continuations, each with its own environment,
and takes one step at a time: the continuation at the front enters its block, and the
block's signal says what becomes of it. A continuation that goes on stays at the front.
One that forks ends, and a child for each target joins the queue at the back. A fault
ends only the continuation in which it happened. Steps are counted in natural numbers: runs
of 2^64 signals, at which a counter of 64 bits would give out, are out of scope.
-/
import Flowchart.Config.Basic
import Flowchart.Graph
import Flowchart.Run.Error
import Flowchart.Run.Trace

namespace Flowchart

/-- A path of control through the graph, standing before a block. -/
structure Continuation where
  id : Nat
  parent : Option Nat
  block : String
  previous : Option String
  environment : Environment
  steps : Nat
deriving DecidableEq

/-- How a continuation ended. -/
inductive Status
  | completed (environment : Environment)
  | forked (children : List Nat)
  | failed (failure : BlockFailure)
deriving DecidableEq

def Status.label : Status → String
  | completed _ => "completed"
  | forked _ => "forked"
  | failed _ => "failed"

/-- A continuation that has ended. -/
structure Outcome where
  id : Nat
  parent : Option Nat
  lastBlock : String
  steps : Nat
  status : Status
deriving DecidableEq

/-- One step of a run. -/
structure StepRecord where
  step : Nat
  continuation : Nat
  block : String
  previous : Option String
  result : Signal
deriving DecidableEq

structure Run where
  graph : Graph
  config : Config
  queue : List Continuation
  outcomes : Array Outcome
  /-- How many continuations there have been. -/
  spawned : Nat
  steps : Nat
  halted : Option RunError
  trace : Option (Array Event)

namespace Run

/-- More continuations than this cannot be numbered. -/
def maxSpawned : Nat := Nat.pow 2 32 - 1

/-- A run that stands before the start block with no variables. -/
def start (graph : Graph) (config : Config) : Run :=
  let root : Continuation :=
    { id := 0, parent := none, block := graph.start.id, previous := none, environment := .empty,
      steps := 0 }
  { graph, config, queue := [root], outcomes := #[], spawned := 1, steps := 0, halted := none,
    trace := if config.recordTrace then some #[] else none }

/-- Records events, if a trace is kept. -/
def record (r : Run) (events : List Event) : Run :=
  { r with trace := r.trace.map (· ++ events) }

/-- Ends a continuation. -/
def finish (r : Run) (c : Continuation) (status : Status) : Run :=
  let r := r.record [.finished c.id status.label]
  let outcome : Outcome :=
    { id := c.id, parent := c.parent, lastBlock := c.block, steps := c.steps, status }
  { r with outcomes := r.outcomes.push outcome }

/-- The step budget, if it is used up. -/
def spentBudget? (r : Run) : Option Nat := r.config.stepBudget.filter (· ≤ r.steps)

/-- The block that a continuation enters next, unless the run has to stop before it. -/
def blockFor (r : Run) (c : Continuation) : Except RunError Block :=
  match r.spentBudget? with
  | some budget => .error (.stepBudget budget c.block c.id c.environment)
  | none =>
    match r.graph.get? c.block with
    | none => .error (.missingBlock c.block)
    | some b =>
      if !r.config.allowFanOut && b.fansOut then .error (.fanOut c.block c.id c.environment)
      else .ok b

/-- The limit that a total number of continuations would exceed. -/
def exceededLimit? (r : Run) (total : Nat) : Option Nat :=
  (r.config.maxContinuations.filter (· < total)).or
    (if maxSpawned < total then some maxSpawned else none)

/-- Queues a child of `c` for each target, numbered from `first`. -/
def children (c : Continuation) (first : Nat) : List String → List Continuation
  | [] => []
  | target :: rest =>
    { id := first, parent := some c.id, block := target, previous := some c.block,
      environment := c.environment, steps := 0 } :: children c (first + 1) rest

/-- Ends a continuation that forks. -/
def fork (r : Run) (c : Continuation) (targets : List String) : Except RunError Run :=
  match r.exceededLimit? (r.spawned + targets.length) with
  | some limit => .error (.continuationLimit limit)
  | none =>
    let new := children c r.spawned targets
    let ids := new.map Continuation.id
    let r := { r with queue := r.queue ++ new, spawned := r.spawned + targets.length }
    .ok ((r.record [.forked c.id c.block ids]).finish c (.forked ids))

/-- What becomes of a continuation after the signal of its block. -/
def settle (r : Run) (c : Continuation) : Signal → Except RunError Run
  | .next target =>
    .ok { r with queue := { c with block := target, previous := some c.block } :: r.queue }
  | .terminate => .ok (r.finish c (.completed c.environment))
  | .fork targets => r.fork c targets
  | .fault fault =>
    .ok (r.finish c (.failed
      { continuation := c.id, block := c.block, previous := c.previous, fault,
        environment := c.environment }))

/-- Lets `c` enter the block `b`, with `rest` left in the queue. -/
def enter (r : Run) (c : Continuation) (rest : List Continuation) (b : Block) :
    Except RunError (Option StepRecord) × Run :=
  let step := r.steps + 1
  let (result, environment) := b.signal c.environment
  let r := { r with queue := rest, steps := step }
  let r := r.record [.entered step c.id c.block c.previous, .exited step c.id c.block result.label 0]
  match r.settle { c with environment, steps := c.steps + 1 } result with
  | .error e => (.error e, r)
  | .ok r =>
    (.ok (some { step, continuation := c.id, block := c.block, previous := c.previous, result }), r)

/-- The next step of a run that has not stopped. -/
def advance (r : Run) : Except RunError (Option StepRecord) × Run :=
  match r.queue with
  | [] => (.ok none, r)
  | c :: rest =>
    match r.blockFor c with
    | .error e => (.error e, r)
    | .ok b => r.enter c rest b

/-- Takes one step: its record, nothing if the run is over, or the error that stopped the
run, now or before. -/
def step (r : Run) : Except RunError (Option StepRecord) × Run :=
  match r.halted with
  | some e => (.error e, r)
  | none =>
    match r.advance with
    | (.error e, r) => (.error e, { r with halted := some e })
    | (.ok record, r) => (.ok record, r)

end Run

end Flowchart
