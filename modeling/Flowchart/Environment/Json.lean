/-
Environments as JSON: an object with a member for each variable, in increasing order
of names.
-/
import Flowchart.Environment.Basic
import Flowchart.Value.Json

namespace Flowchart.Environment

open Json (Decoder ReadError)

def toJson (env : Environment) : Json :=
  .object (env.entries.map fun (name, v) => (name, v.toJson))

/-- Of several members with one name the last counts. -/
def decode : Decoder Environment
  | .object members ending => do
    let env ← Json.Decode.foldMembers
      (fun (env : Environment) name node => return env.insert name (← Value.decode node))
      empty members
    Json.Decode.atEnd ending
    return env
  | node => Json.Decode.refuse "a map" node

/-- Reads an environment from JSON text. -/
def ofJsonText (text : String) : Except ReadError Environment := Json.read decode text

end Flowchart.Environment
