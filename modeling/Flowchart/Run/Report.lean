/-
Reports: what is left of a run when it is over. Running to the end need not come to an
end, so it takes a number of steps to try.
-/
import Flowchart.Run.Basic

namespace Flowchart

structure Report where
  steps : Nat
  outcomes : List Outcome
  trace : Option (List Event)
deriving DecidableEq

namespace Report

/-- The environments of the continuations that completed. -/
def completed (r : Report) : List Environment :=
  r.outcomes.filterMap fun o =>
    match o.status with
    | .completed environment => some environment
    | _ => none

def finalEnvironment? (r : Report) : Option Environment := r.completed.head?

def failures (r : Report) : List BlockFailure :=
  r.outcomes.filterMap fun o =>
    match o.status with
    | .failed failure => some failure
    | _ => none

def firstFailure? (r : Report) : Option BlockFailure := r.failures.head?

def isSuccess (r : Report) : Bool := r.firstFailure?.isNone

/-- How the continuation ended. -/
def outcome? (r : Report) (id : Nat) : Option Outcome := r.outcomes.find? (·.id = id)

/-- Fills in how long each step took. -/
def timed (r : Report) (microseconds : Nat → Nat) : Report :=
  { r with trace := r.trace.map (Trace.timed microseconds) }

/-- The report, or the first failure in it as an error. -/
def orFailure (r : Report) : Except RunError Report :=
  match r.firstFailure? with
  | some failure => .error (.blockFailed failure)
  | none => .ok r

end Report

namespace Run

/-- The report of a run as it stands. -/
def report (r : Run) : Report :=
  { steps := r.steps, outcomes := r.outcomes.toList, trace := r.trace.map Array.toList }

/-- Runs to the end, if it is reached in fewer than `limit` steps. -/
def finishWithin : (limit : Nat) → Run → Option (Except RunError Report)
  | 0, _ => none
  | limit + 1, r =>
    match r.step with
    | (.error e, _) => some (.error e)
    | (.ok none, r) => some (.ok r.report)
    | (.ok (some _), r) => finishWithin limit r

/-- Runs to the end; a block that failed is an error. -/
def completeWithin (limit : Nat) (r : Run) : Option (Except RunError Report) :=
  (r.finishWithin limit).map fun result => result.bind Report.orFailure

end Run

end Flowchart
