/-
Traces: what happened in a run, event by event. How long a block took is measured from
outside; a run by itself records no time for it.
-/
namespace Flowchart

inductive Event
  | entered (step continuation : Nat) (block : String) (previous : Option String)
  | exited (step continuation : Nat) (block outcome : String) (microseconds : Nat)
  | forked (continuation : Nat) (block : String) (children : List Nat)
  | finished (continuation : Nat) (status : String)
deriving DecidableEq, Repr

/-- The continuation in which an event happened. -/
def Event.continuation : Event → Nat
  | entered _ c _ _ | exited _ c _ _ _ | forked c _ _ | finished c _ => c

/-- The block that an event entered. -/
def Event.entered? : Event → Option String
  | entered _ _ block _ => some block
  | _ => none

namespace Trace

/-- The blocks that were entered, in order. -/
def blocksEntered (events : List Event) : List String := events.filterMap Event.entered?

/-- The blocks that a continuation entered, in order. -/
def path (events : List Event) (continuation : Nat) : List String :=
  blocksEntered (events.filter (·.continuation = continuation))

/-- Fills in how long each step took. -/
def timed (microseconds : Nat → Nat) (events : List Event) : List Event :=
  events.map fun
    | .exited step continuation block outcome _ =>
      .exited step continuation block outcome (microseconds step)
    | e => e

end Trace

end Flowchart
