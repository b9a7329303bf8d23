/-
What a block answers when control reaches it: where control goes next, or the fault that
ends the continuation.
-/
import Flowchart.Environment.Basic
import Flowchart.Expression.Error

namespace Flowchart

/-- Why a block failed. -/
inductive BlockFault
  | evaluation (expression : String) (cause : EvalError)
  | typeConflict (conflict : TypeConflict)
deriving DecidableEq

namespace BlockFault

def message : BlockFault → String
  | evaluation expression cause =>
    let text := cause.message
    s!"evaluation of `{expression}` failed: {text}"
  | typeConflict conflict => conflict.message

def kind : BlockFault → String
  | evaluation .. => "evaluation"
  | typeConflict _ => "type_conflict"

end BlockFault

inductive Signal
  | terminate
  | next (target : String)
  | fork (targets : List String)
  | fault (f : BlockFault)
deriving DecidableEq

namespace Signal

/-- Control goes to every target: it ends without one, and forks for several. -/
def forward : List String → Signal
  | [] => terminate
  | [target] => next target
  | targets => fork targets

def label : Signal → String
  | terminate => "terminate"
  | next _ => "next"
  | fork _ => "fork"
  | fault _ => "fault"

/-- Where control goes. -/
def targets : Signal → List String
  | next target => [target]
  | fork targets => targets
  | terminate | fault _ => []

def isFault : Signal → Bool
  | fault _ => true
  | _ => false

/-- Whether the continuation ends here. -/
def isTerminal : Signal → Bool
  | terminate | fault _ => true
  | next _ | fork _ => false

end Signal

end Flowchart
