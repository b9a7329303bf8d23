/-
Steps, outcomes and traces as JSON. An event names its kind in the member `event`, which
may stand anywhere in the object; the other members are set aside until the kind is known.
-/
import Flowchart.Block.Json
import Flowchart.Config.Basic
import Flowchart.Environment.Json
import Flowchart.Run.Basic

namespace Flowchart

open Json (Node Decoder ReadError)

def Config.toJson (c : Config) : Json :=
  .object [("step_budget", .ofOption .ofNat c.stepBudget),
    ("max_continuations", .ofOption .ofNat c.maxContinuations),
    ("record_trace", .bool c.recordTrace), ("allow_fan_out", .bool c.allowFanOut)]

def StepRecord.toJson (r : StepRecord) : Json :=
  .object [("step", .ofNat r.step), ("continuation", .ofNat r.continuation),
    ("block", .string r.block), ("previous", .ofOption .string r.previous),
    ("result", r.result.toJson)]

def BlockFailure.members (f : BlockFailure) : List (String × Json) :=
  [("continuation", .ofNat f.continuation), ("block", .string f.block),
    ("previous", .ofOption .string f.previous), ("fault", f.fault.toJson),
    ("environment", f.environment.toJson)]

def Status.toJson (s : Status) : Json :=
  let status : String × Json := ("status", .string s.label)
  match s with
  | .completed environment => .object [status, ("environment", environment.toJson)]
  | .forked children => .object [status, ("children", .array (children.map .ofNat))]
  | .failed failure => .object (status :: failure.members)

def Outcome.toJson (o : Outcome) : Json :=
  .object [("id", .ofNat o.id), ("parent", .ofOption .ofNat o.parent),
    ("last_block", .string o.lastBlock), ("steps", .ofNat o.steps), ("status", o.status.toJson)]

/-! ## Events -/

namespace Event

/-- The kinds of events. -/
inductive Kind
  | entered | exited | forked | finished
deriving DecidableEq, Repr

namespace Kind

def all : List Kind := [entered, exited, forked, finished]

def name : Kind → String
  | entered => "block_entered"
  | exited => "block_exited"
  | forked => "forked"
  | finished => "continuation_finished"

/-- What messages call an event of this kind. -/
def recordName : Kind → String
  | entered => "struct variant TraceEvent::BlockEntered"
  | exited => "struct variant TraceEvent::BlockExited"
  | forked => "struct variant TraceEvent::Forked"
  | finished => "struct variant TraceEvent::ContinuationFinished"

def fields : Kind → List Json.Decode.Field
  | entered => [⟨"step", true⟩, ⟨"continuation", true⟩, ⟨"block", true⟩, ⟨"previous", true⟩]
  | exited => [⟨"step", true⟩, ⟨"continuation", true⟩, ⟨"block", true⟩, ⟨"outcome", true⟩,
      ⟨"duration_us", true⟩]
  | forked => [⟨"continuation", true⟩, ⟨"block", true⟩, ⟨"children", true⟩]
  | finished => [⟨"continuation", true⟩, ⟨"status", true⟩]

/-- Reads the name of a kind. -/
def decode : Decoder Kind := Json.Decode.bareWord all name

end Kind

def kind : Event → Kind
  | .entered .. => .entered
  | .exited .. => .exited
  | .forked .. => .forked
  | .finished .. => .finished

def toJson (e : Event) : Json :=
  let event : String × Json := ("event", .string e.kind.name)
  match e with
  | .entered step continuation block previous =>
    .object [event, ("step", .ofNat step), ("continuation", .ofNat continuation),
      ("block", .string block), ("previous", .ofOption .string previous)]
  | .exited step continuation block outcome microseconds =>
    .object [event, ("step", .ofNat step), ("continuation", .ofNat continuation),
      ("block", .string block), ("outcome", .string outcome), ("duration_us", .ofNat microseconds)]
  | .forked continuation block children =>
    .object [event, ("continuation", .ofNat continuation), ("block", .string block),
      ("children", .array (children.map .ofNat))]
  | .finished continuation status =>
    .object [event, ("continuation", .ofNat continuation), ("status", .string status)]

/-- The fields of an event read so far. -/
structure Draft where
  step : Option Nat
  continuation : Option Nat
  block : Option String
  previous : Option (Option String)
  outcome : Option String
  microseconds : Option Nat
  children : Option (List Nat)
  status : Option String

def Draft.empty : Draft := ⟨none, none, none, none, none, none, none, none⟩

/-- The number of a step or of microseconds. -/
def decodeCount : Decoder Nat := Json.Decode.natural (Nat.pow 2 64) "u64"

/-- The number of a continuation. -/
def decodeId : Decoder Nat := Json.Decode.natural (Nat.pow 2 32) "u32"

/-- Takes in a field of an event of the given kind; other members are passed over. -/
def Draft.take (kind : Kind) (s : Draft) (key : String) (node : Node) :
    Except ReadError Draft := do
  if !kind.fields.any (·.name = key) then return s
  match key with
  | "step" => return { s with step := ← Json.Decode.once key s.step (decodeCount node) }
  | "continuation" =>
    return { s with continuation := ← Json.Decode.once key s.continuation (decodeId node) }
  | "block" => return { s with block := ← Json.Decode.once key s.block (Json.Decode.string node) }
  | "previous" =>
    let previous := Json.Decode.optional Json.Decode.string node
    return { s with previous := ← Json.Decode.once key s.previous previous }
  | "outcome" =>
    return { s with outcome := ← Json.Decode.once key s.outcome (Json.Decode.string node) }
  | "duration_us" =>
    return { s with microseconds := ← Json.Decode.once key s.microseconds (decodeCount node) }
  | "children" =>
    let children := Json.Decode.list decodeId node
    return { s with children := ← Json.Decode.once key s.children children }
  | _ => return { s with status := ← Json.Decode.once key s.status (Json.Decode.string node) }

/-- The event of a kind, once all its fields are there. -/
def Draft.finish (s : Draft) : Kind → Except ReadError Event
  | .entered => do
    let step ← Json.Decode.require "step" s.step
    let continuation ← Json.Decode.require "continuation" s.continuation
    let block ← Json.Decode.require "block" s.block
    return .entered step continuation block s.previous.join
  | .exited => do
    let step ← Json.Decode.require "step" s.step
    let continuation ← Json.Decode.require "continuation" s.continuation
    let block ← Json.Decode.require "block" s.block
    let outcome ← Json.Decode.require "outcome" s.outcome
    let microseconds ← Json.Decode.require "duration_us" s.microseconds
    return .exited step continuation block outcome microseconds
  | .forked => do
    let continuation ← Json.Decode.require "continuation" s.continuation
    let block ← Json.Decode.require "block" s.block
    let children ← Json.Decode.require "children" s.children
    return .forked continuation block children
  | .finished => do
    let continuation ← Json.Decode.require "continuation" s.continuation
    let status ← Json.Decode.require "status" s.status
    return .finished continuation status

/-- Reads the fields of an event from what was set aside. -/
def decodeFields (kind : Kind) : Decoder Event := fun node => do
  let s ← Json.Decode.record kind.recordName kind.fields .inBuffer (Draft.take kind) Draft.empty node
  s.finish kind

/-- The kind, once it has been met, and the other members, last first. -/
abbrev Parts := Option Kind × List (Except Json.Flaw String × Node)

def Parts.step (s : Parts) (key : String) (node : Node) : Except ReadError Parts := do
  if key = "event" then
    let kind ← Json.Decode.once "event" s.1 (Kind.decode node)
    return (kind, s.2)
  else
    let _ ← Json.Decode.any node
    return (s.1, (.ok key, node) :: s.2)

def decode : Decoder Event
  | .object members ending => do
    let (kind, rest) ← Json.Decode.foldMembers Parts.step (none, []) members
    Json.Decode.atEnd ending
    decodeFields (← Json.Decode.require "event" kind) (.object rest.reverse none)
  | .array [] ending => do
    Json.Decode.atEnd ending
    .error (.mismatch (.missing "event"))
  | .array (tag :: items) ending => do
    let kind ← Kind.decode tag
    let _ ← Json.Decode.anyItems items
    Json.Decode.atEnd ending
    decodeFields kind (.array items none)
  | node => Json.Decode.refuse "internally tagged enum TraceEvent" node

/-- Reads an event from JSON text. -/
def ofJsonText (text : String) : Except ReadError Event := Json.read decode text

end Event

end Flowchart
