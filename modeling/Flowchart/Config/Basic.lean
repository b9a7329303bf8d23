/-
Settings of a run: how many steps and continuations it may take, whether it keeps a
trace, and whether blocks may fan out.
-/
namespace Flowchart

structure Config where
  stepBudget : Option Nat
  maxContinuations : Option Nat
  recordTrace : Bool
  allowFanOut : Bool
deriving DecidableEq, Repr

/-- No limits, a trace is kept, and fanning out is allowed. -/
def Config.default : Config :=
  { stepBudget := none, maxContinuations := none, recordTrace := true, allowFanOut := true }

end Flowchart
