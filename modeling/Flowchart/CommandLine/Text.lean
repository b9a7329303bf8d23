/-
What the commands print: reports of runs, line by line or as JSON, and summaries of
graphs.
-/
import Flowchart.Json.Write
import Flowchart.Run.Json
import Flowchart.Run.Report

namespace Flowchart.CommandLine

/-- When a run took place and how long it took. -/
structure Timing where
  runId : String
  startedAt : String
  nanoseconds : Nat

/-- A length of time in the largest unit that gives a whole part, without trailing zeros. -/
def durationText (nanoseconds : Nat) : String :=
  let inUnit (size places : Nat) (unit : String) : String :=
    let digits := toString (nanoseconds % size)
    let padded := List.replicate (places - digits.length) '0' ++ digits.toList
    let fraction := (padded.reverse.dropWhile (· == '0')).reverse
    let point := if fraction.isEmpty then [] else '.' :: fraction
    toString (nanoseconds / size) ++ String.ofList point ++ unit
  if 1000000000 ≤ nanoseconds then inUnit 1000000000 9 "s"
  else if 1000000 ≤ nanoseconds then inUnit 1000000 6 "ms"
  else if 1000 ≤ nanoseconds then inUnit 1000 3 "µs"
  else s!"{nanoseconds}ns"

def environmentLines (env : Environment) : List String :=
  if env.size = 0 then ["  (empty environment)"]
  else env.entries.map fun (name, v) => "  " ++ name ++ " = " ++ v.display

def continuationList (ids : List Nat) : String := ", ".intercalate (ids.map continuationText)

def outcomeLines (o : Outcome) : List String :=
  let id := continuationText o.id
  let block := o.lastBlock
  match o.status with
  | .completed env => s!"continuation {id}: completed at `{block}`" :: environmentLines env
  | .forked children =>
    let ids := continuationList children
    [s!"continuation {id}: forked at `{block}` into {ids}"]
  | .failed failure =>
    let origin := match failure.previous with
      | some previous => [s!"  reached from `{previous}`"]
      | none => []
    [s!"continuation {id}: FAILED", "  " ++ failure.message] ++ origin ++
      environmentLines failure.environment

/-- A number in a column of four characters. -/
def column (n : Nat) : String :=
  let text := toString n
  Json.blanks (4 - text.length) ++ text

def eventLine : Event → String
  | .entered step continuation block _ =>
    let number := column step
    let id := continuationText continuation
    s!"  [{number}] {id} -> {block}"
  | .exited _ continuation block outcome microseconds =>
    let id := continuationText continuation
    s!"         {id} <- {block}: {outcome} ({microseconds}us)"
  | .forked continuation _ children =>
    let id := continuationText continuation
    let ids := continuationList children
    s!"         {id} forks {ids}"
  | .finished continuation status =>
    let id := continuationText continuation
    s!"         {id} {status}"

def reportLines (name : String) (timing : Timing) (r : Report) : List String :=
  let steps := r.steps
  let continuations := r.outcomes.length
  let runId := timing.runId
  let trace := match r.trace with
    | some events => s!"trace {runId}:" :: events.map eventLine
    | none => []
  s!"program `{name}` finished: {steps} step(s), {continuations} continuation(s)" ::
    r.outcomes.flatMap outcomeLines ++ trace ++ ["elapsed: " ++ durationText timing.nanoseconds]

def reportJson (timing : Timing) (r : Report) : Json :=
  let origin : List (String × Json) :=
    [("run_id", .string timing.runId), ("started_at", .string timing.startedAt)]
  let elapsed : Json :=
    .object [("secs", .ofNat (timing.nanoseconds / 1000000000)),
      ("nanos", .ofNat (timing.nanoseconds % 1000000000))]
  let trace : Option (List Event) → Json :=
    .ofOption fun events => .object (origin ++ [("events", .array (events.map Event.toJson))])
  .object (origin ++ [("elapsed", elapsed), ("steps", .ofNat r.steps),
    ("outcomes", .array (r.outcomes.map Outcome.toJson)), ("trace", trace r.trace)])

def graphSummary (g : Graph) : String :=
  let size := g.size
  let kinds := ", ".intercalate (g.kindCounts.map fun (kind, n) => kind.name ++ ": " ++ toString n)
  let start := g.start.id
  let fanOut := if g.hasFanOut then "yes" else "no"
  s!"  {size} block(s) ({kinds}), start `{start}`, fan-out: {fanOut}"

end Flowchart.CommandLine
