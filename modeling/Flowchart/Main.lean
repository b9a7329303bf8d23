/-
The program: reads the files and environment settings that a command needs, carries it
out, and prints what it leaves behind.
-/
import Flowchart.CommandLine.Basic
import Std.Time

namespace Flowchart.Terminal

open CommandLine

/-- The code of an error of the operating system, with its text. -/
def faultOf : IO.Error → FileFault
  | .noFileOrDirectory _ code text | .inappropriateType _ code text
  | .permissionDenied _ code text | .resourceExhausted _ code text
  | .alreadyExists _ code text | .invalidArgument _ code text
  | .otherError code text => .system code.toNat text
  | e => .system 0 (toString e)

def readText (path : String) : IO (Except FileFault String) := do
  try
    let file ← IO.FS.Handle.mk path .read
    let bytes ← file.readBinToEnd
    return (String.fromUTF8? bytes).elim (.error .notText) .ok
  catch e => return .error (faultOf e)

def writeText (path content : String) : IO (Option FileFault) := do
  try
    IO.FS.writeFile path content
    return none
  catch e => return some (faultOf e)

/-- A random identifier in hexadecimal digits, grouped by hyphens. -/
def randomId : IO String := do
  let mut cs := #[]
  for i in [0:32] do
    if i ∈ [8, 12, 16, 20] then cs := cs.push '-'
    let digit ← IO.rand 0 15
    let digit := if i = 12 then 4 else if i = 16 then 8 + digit % 4 else digit
    cs := cs.push (Json.hexDigit digit)
  return String.ofList cs.toList

/-- Takes steps until the run is over; adds the times they took, in microseconds. -/
partial def takeSteps (r : Run) (times : Array Nat) :
    IO (Except RunError Report × Array Nat) := do
  let before ← IO.monoNanosNow
  let (result, r) ← IO.lazyPure fun _ => r.step
  let after ← IO.monoNanosNow
  let times := times.push ((after - before) / 1000)
  match result with
  | .error e => return (.error e, times)
  | .ok none => return (.ok r.report, times)
  | .ok (some _) => takeSteps r times

def execute (r : Run) : IO (Timing × Except RunError Report) := do
  let runId ← randomId
  let now := Std.Time.DateTime.ofTimestampWithZone (← Std.Time.Timestamp.now) .UTC
  let startedAt := now.format "uuuu-MM-dd'T'HH:mm:ss.SSSSSSSSS" ++ "Z"
  let before ← IO.monoNanosNow
  let (result, times) ← takeSteps r #[]
  let after ← IO.monoNanosNow
  let timing : Timing := { runId, startedAt, nanoseconds := after - before }
  return (timing, result.map (·.timed fun step => times.getD (step - 1) 0))

/-- The files and settings that a command line needs. -/
def gather (words : List String) : IO World := do
  let paths := match Command.ofWords words with
    | .ok command => command.paths
    | .error _ => []
  let files ← paths.mapM fun path => return (path, ← readText path)
  let settings ← Config.overrideKeys.mapM fun key => return (key, ← IO.getEnv key)
  return {
    read := fun path => (files.lookup path).getD (.error .notText)
    lookup := fun key => (settings.lookup key).join }

end Flowchart.Terminal

open Flowchart Flowchart.CommandLine Flowchart.Terminal in
def main (words : List String) : IO UInt32 := do
  let output ← perform (← gather words) execute writeText words
  IO.print output.stdout
  IO.eprint output.stderr
  return output.code.toUInt32
