/-
How a run can fail: a block faults in one continuation, or the run as a whole stops at a
limit. A run that stopped stays stopped.
-/
import Flowchart.Block.Signal

namespace Flowchart

/-- How a continuation is shown. -/
def continuationText (id : Nat) : String := s!"#{id}"

/-- A fault of a block, with the place and the environment in which it was reached. -/
structure BlockFailure where
  continuation : Nat
  block : String
  previous : Option String
  fault : BlockFault
  environment : Environment
deriving DecidableEq

def BlockFailure.message (f : BlockFailure) : String :=
  let block := f.block
  let continuation := continuationText f.continuation
  let fault := f.fault.message
  s!"block `{block}` failed in continuation {continuation}: {fault}"

/-- Why a run stopped before its end. -/
inductive RunError
  | blockFailed (failure : BlockFailure)
  | stepBudget (budget : Nat) (block : String) (continuation : Nat) (environment : Environment)
  | fanOut (block : String) (continuation : Nat) (environment : Environment)
  | continuationLimit (limit : Nat)
  | missingBlock (block : String)
deriving DecidableEq

namespace RunError

def message : RunError → String
  | blockFailed failure => failure.message
  | stepBudget budget block continuation _ =>
    let continuation := continuationText continuation
    s!"step budget of {budget} exhausted before entering block `{block}` " ++
      s!"(continuation {continuation})"
  | fanOut block continuation _ =>
    let continuation := continuationText continuation
    s!"block `{block}` fans out but fan-out is disabled (continuation {continuation})"
  | continuationLimit limit => s!"fan-out would exceed the limit of {limit} continuations"
  | missingBlock block => s!"block `{block}` is not part of the graph"

def kind : RunError → String
  | blockFailed failure => failure.fault.kind
  | stepBudget .. => "step_budget_exceeded"
  | fanOut .. => "concurrent_branching_unsupported"
  | continuationLimit _ => "continuation_limit_exceeded"
  | missingBlock _ => "missing_block"

/-- The environment of the continuation that stopped. -/
def environment? : RunError → Option Environment
  | blockFailed failure => some failure.environment
  | stepBudget _ _ _ environment | fanOut _ _ environment => some environment
  | continuationLimit _ | missingBlock _ => none

/-- Whether the run stopped at a limit of its settings. -/
def isLimit : RunError → Bool
  | stepBudget .. | continuationLimit _ => true
  | blockFailed _ | fanOut .. | missingBlock _ => false

end RunError

end Flowchart
