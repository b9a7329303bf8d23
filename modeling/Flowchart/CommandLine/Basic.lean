/-
The commands. A command is first prepared: files are read, settings resolved and programs
checked. What is left is a plan, which is either an output already, a run, or a file to
write. Exit code 0 is success, 1 a failed block or expression, 2 a limit, and 3 anything
that keeps a command from starting.
-/
import Flowchart.Chart
import Flowchart.CommandLine.Arguments
import Flowchart.CommandLine.Text
import Flowchart.Config.Overrides
import Flowchart.Config.Toml
import Flowchart.Schematic.Json

namespace Flowchart.CommandLine

/-- Why a file cannot be read or written. -/
inductive FileFault
  | system (code : Nat) (text : String)
  | notText
deriving DecidableEq, Repr

def FileFault.message : FileFault → String
  | system code text => s!"{text} (os error {code})"
  | notText => "stream did not contain valid UTF-8"

/-- What a command can see: files by path, and environment variables by name. -/
structure World where
  read : String → Except FileFault String
  lookup : String → Option String

inductive ConfigFileError
  | unreadable (fault : FileFault)
  | malformed (e : Config.Toml.TextError)
deriving DecidableEq

inductive ProgramFileError
  | unreadable (fault : FileFault)
  | malformed (e : Json.ReadError)
deriving DecidableEq

/-- What keeps a command from doing its work. -/
inductive LoadError
  | config (path : String) (e : ConfigFileError)
  | setting (e : InvalidSetting)
  | program (path : String) (e : ProgramFileError)
  | build (name : String) (e : BuildError)
  | aborted (e : RunError)
  | binding (text : String)
  | value (name raw : String) (e : Decimal.TextError)
  | output (path : String) (fault : FileFault)
deriving DecidableEq

/-- What went wrong, from the outermost view to the innermost. -/
def LoadError.chain : LoadError → List String
  | config path e =>
    let cause := match e with
      | .unreadable fault =>
        let text := fault.message
        [s!"failed to read config file {path}: {text}", text]
      | .malformed e => ["invalid config: " ++ e.message, e.message]
    ("Failed to load config: " ++ path) :: cause
  | setting e => ["Invalid BLOCKFLOW_* environment variable", e.message]
  | program path e =>
    let cause := match e with
      | .unreadable fault => ["failed to read program file: " ++ fault.message, fault.message]
      | .malformed e => ["failed to parse program description: " ++ e.message, e.message]
    ("Failed to load program: " ++ path) :: cause
  | build name e => [s!"Failed to build program `{name}`", e.message]
  | aborted e => ["Run aborted", e.message]
  | binding text => [s!"Invalid binding `{text}`: expected NAME=VALUE"]
  | value name raw e =>
    [s!"Invalid value for `{name}`", s!"`{raw}` is not a decimal", e.message]
  | output path fault => ["Failed to write output file: " ++ path, fault.message]

/-- What a command leaves behind. -/
structure Output where
  stdout : String
  stderr : String
  code : Nat
deriving DecidableEq

namespace Output

/-- Success, with the given lines printed. -/
def success (lines : List String) : Output :=
  { stdout := String.join (lines.map (· ++ "\n")), stderr := "", code := 0 }

/-- A complaint and an exit code. -/
def complaint (code : Nat) (message : String) : Output :=
  { stdout := "", stderr := s!"error: {message}\n", code }

def ofLoadError (e : LoadError) : Output := complaint 3 (": ".intercalate e.chain)

/-- The output after some lines printed before. -/
def after (lines : List String) (o : Output) : Output :=
  { o with stdout := (success lines).stdout ++ o.stdout }

end Output

inductive Plan
  | done (o : Output)
  | execute (chart : Chart) (config : Config) (json : Bool)
  | save (path content : String)

/-! ## Preparation -/

/-- The settings of a configuration file, or the default ones. -/
def loadConfig (w : World) : Option String → Except LoadError Config
  | none => .ok .default
  | some path =>
    match w.read path with
    | .error fault => .error (.config path (.unreadable fault))
    | .ok text =>
      match Config.ofToml text with
      | .ok c => .ok c
      | .error e => .error (.config path (.malformed e))

/-- The settings that a command line states itself. -/
def applyFlags (a : RunArguments) (c : Config) : Config :=
  { stepBudget := match a.budget with
      | some n => some n
      | none => c.stepBudget
    maxContinuations := match a.maxContinuations with
      | some n => some n
      | none => c.maxContinuations
    recordTrace := a.trace
    allowFanOut := c.allowFanOut && !a.noFanOut }

/-- The settings of a run: options first, then environment variables, then the file. -/
def resolveConfig (w : World) (a : RunArguments) : Except LoadError Config := do
  let base ← loadConfig w a.config
  match base.withOverrides w.lookup with
  | .error e => .error (.setting e)
  | .ok c => return applyFlags a c

def loadProgram (w : World) (path : String) : Except LoadError Program :=
  match w.read path with
  | .error fault => .error (.program path (.unreadable fault))
  | .ok text =>
    match Program.ofJsonText text with
    | .ok p => .ok p
    | .error e => .error (.program path (.malformed e))

def buildChart (p : Program) (allowFanOut : Bool) : Except LoadError Chart :=
  match p.chart allowFanOut with
  | .ok c => .ok c
  | .error e => .error (.build p.name e)

/-- Reads the value of a variable: `true`, `false` or a decimal. -/
def readValue (raw : String) : Except Decimal.TextError Value :=
  if raw = "true" then .ok (.bool true)
  else if raw = "false" then .ok (.bool false)
  else (Decimal.ofText raw).map .decimal

/-- Reads a name and a value with an equals sign between them. -/
def readBinding (text : String) : Except LoadError (String × Value) :=
  match text.toList.span (· != '=') with
  | (_, []) => .error (.binding text)
  | (name, _ :: raw) =>
    let name := String.ofList (Text.trimChars name)
    let raw := String.ofList (Text.trimChars raw)
    match readValue raw with
    | .ok v => .ok (name, v)
    | .error e => .error (.value name raw e)

/-! ## Commands -/

def planRun (w : World) (a : RunArguments) : Except LoadError Plan := do
  let config ← resolveConfig w a
  let program ← loadProgram w a.program
  let chart ← buildChart program config.allowFanOut
  return .execute chart config a.json

def planCheck (w : World) (path : String) (noFanOut : Bool) : Except LoadError Plan := do
  let p ← loadProgram w path
  let name := p.name
  let opening := [s!"Checking program `{name}` at: {path}"]
  match buildChart p (!noFanOut) with
  | .error e => return .done ((Output.ofLoadError e).after opening)
  | .ok c => return .done (.success (opening ++ [graphSummary c.graph, "Check complete!"]))

def planEval (expression : String) (bindings : List String) : Except LoadError Plan := do
  let env := Environment.ofList (← bindings.mapM readBinding)
  match evaluate expression env.get? with
  | .ok v => return .done (.success [v.display])
  | .error e => return .done (.complaint 1 e.message)

def planSchematic (w : World) (path : String) (output : Option String) : Except LoadError Plan := do
  let p ← loadProgram w path
  let c ← buildChart p true
  let text := c.schematic.toJson.pretty
  match output with
  | some target => return .save target text
  | none => return .done (.success [text])

/-- Prepares a command. -/
def plan (w : World) (command : Command) : Plan :=
  let result := match command with
    | .run a => planRun w a
    | .check program noFanOut => planCheck w program noFanOut
    | .eval expression bindings => planEval expression bindings
    | .schematic program output => planSchematic w program output
  match result with
  | .ok p => p
  | .error e => .done (.ofLoadError e)

/-- What a run leaves behind. -/
def runOutput (name : String) (json : Bool) (timing : Timing) :
    Except RunError Report → Output
  | .error e => if e.isLimit then .complaint 2 e.message else .ofLoadError (.aborted e)
  | .ok r =>
    let lines :=
      if json then [(reportJson timing r).pretty] else reportLines name timing r
    { Output.success lines with code := if r.isSuccess then 0 else 1 }

/-- What writing a file leaves behind. -/
def saveOutput (path : String) : Option FileFault → Output
  | none => .success ["Schematic saved to: " ++ path]
  | some fault => .ofLoadError (.output path fault)

/-- Carries out a plan, given how to run a run to its end and how to write a file. -/
def Plan.perform {m : Type → Type} [Monad m]
    (execute : Run → m (Timing × Except RunError Report))
    (write : String → String → m (Option FileFault)) : Plan → m Output
  | done o => pure o
  | .execute chart config json => do
    let (timing, result) ← execute (chart.start config)
    return runOutput chart.name json timing result
  | save path content => do return saveOutput path (← write path content)

/-- Carries out the command that the words ask for. -/
def perform {m : Type → Type} [Monad m] (w : World)
    (execute : Run → m (Timing × Except RunError Report))
    (write : String → String → m (Option FileFault)) (words : List String) : m Output :=
  match Command.ofWords words with
  | .error e => pure (.complaint 2 e.message)
  | .ok command => (plan w command).perform execute write

end Flowchart.CommandLine
