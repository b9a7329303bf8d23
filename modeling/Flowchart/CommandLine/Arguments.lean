/-
The words of a command line: which command they ask for and with which options. Options
may stand before or after the other words; `--` ends them. A value stands in the next
word or after an equals sign.
-/
import Flowchart.Text.Digits

namespace Flowchart.CommandLine

/-- An option that a command takes. -/
structure OptionForm where
  name : String
  letter : Option Char
  takesValue : Bool
deriving DecidableEq, Repr

/-- Words that do not form a command. -/
inductive UsageError
  | noCommand
  | unknownCommand (word : String)
  | unknownOption (word : String)
  | missingValue (name : String)
  | needlessValue (name : String)
  | repeated (name : String)
  | badNumber (name value : String)
  | missingWord
  | surplusWord (word : String)
deriving DecidableEq, Repr

def UsageError.message : UsageError → String
  | noCommand => "a command is required: run, check, eval or schematic"
  | unknownCommand word => s!"unrecognized command '{word}'"
  | unknownOption word => s!"unexpected argument '{word}'"
  | missingValue name => s!"a value is required for '--{name}'"
  | needlessValue name => s!"'--{name}' takes no value"
  | repeated name => s!"'--{name}' cannot be used several times"
  | badNumber name value => s!"invalid value '{value}' for '--{name}'"
  | missingWord => "a required argument is missing"
  | surplusWord word => s!"unexpected argument '{word}'"

/-- The options found, with their values, and the other words, in order. -/
structure Sorted where
  options : List (String × String)
  words : List String

/-- What a word of the command line is. -/
inductive Role
  | word
  | flag (name : String)
  | valued (name value : String)
  | awaiting (name : String)

/-- The role of a word that names an option, perhaps with a value. -/
def roleOf (form : OptionForm) (value : Option String) : Except UsageError Role :=
  match form.takesValue, value with
  | true, some v => .ok (.valued form.name v)
  | true, none => .ok (.awaiting form.name)
  | false, none => .ok (.flag form.name)
  | false, some _ => .error (.needlessValue form.name)

def role (forms : List OptionForm) (word : String) : Except UsageError Role :=
  match word.toList with
  | '-' :: '-' :: body =>
    let (name, rest) := body.span (· != '=')
    let value := match rest with
      | _ :: v => some (String.ofList v)
      | [] => none
    match forms.find? (·.name = String.ofList name) with
    | some form => roleOf form value
    | none => .error (.unknownOption word)
  | '-' :: letter :: rest =>
    let value := match rest with
      | [] => none
      | '=' :: v => some (String.ofList v)
      | v => some (String.ofList v)
    match forms.find? (·.letter = some letter) with
    | some form => roleOf form value
    | none => .error (.unknownOption word)
  | _ => .ok .word

/-- Whether a word can be the value of the option before it. -/
def isValue (word : String) : Bool :=
  match word.toList with
  | '-' :: _ :: _ => false
  | _ => true

/-- Tells options from other words. -/
def sort (forms : List OptionForm) : List String → Except UsageError Sorted
  | [] => .ok ⟨[], []⟩
  | word :: rest =>
    if word = "--" then .ok ⟨[], rest⟩
    else do
      match ← role forms word with
      | .word =>
        let s ← sort forms rest
        return { s with words := word :: s.words }
      | .flag name =>
        let s ← sort forms rest
        return { s with options := (name, "") :: s.options }
      | .valued name value =>
        let s ← sort forms rest
        return { s with options := (name, value) :: s.options }
      | .awaiting name =>
        match rest with
        | value :: rest =>
          if isValue value then
            let s ← sort forms rest
            return { s with options := (name, value) :: s.options }
          else .error (.missingValue name)
        | [] => .error (.missingValue name)

namespace Sorted

/-- All values of an option. -/
def values (s : Sorted) (name : String) : List String :=
  (s.options.filter (·.1 = name)).map (·.2)

/-- The value of an option that may be given once. -/
def value? (s : Sorted) (name : String) : Except UsageError (Option String) :=
  match s.values name with
  | [] => .ok none
  | [v] => .ok (some v)
  | _ => .error (.repeated name)

def flag (s : Sorted) (name : String) : Except UsageError Bool := do
  return (← s.value? name).isSome

/-- The value of an option as a number below 2^64. -/
def number? (s : Sorted) (name : String) : Except UsageError (Option Nat) := do
  match ← s.value? name with
  | none => return none
  | some v =>
    match Text.unsigned? (Nat.pow 2 64) v.toList with
    | some n => return some n
    | none => .error (.badNumber name v)

/-- The only word that is not an option. -/
def onlyWord (s : Sorted) : Except UsageError String :=
  match s.words with
  | [w] => .ok w
  | [] => .error .missingWord
  | _ :: w :: _ => .error (.surplusWord w)

end Sorted

/-! ## Commands -/

structure RunArguments where
  program : String
  config : Option String
  budget : Option Nat
  maxContinuations : Option Nat
  noFanOut : Bool
  trace : Bool
  json : Bool
deriving DecidableEq, Repr

inductive Command
  | run (arguments : RunArguments)
  | check (program : String) (noFanOut : Bool)
  | eval (expression : String) (bindings : List String)
  | schematic (program : String) (output : Option String)
deriving DecidableEq, Repr

/-- The files that a command reads. -/
def Command.paths : Command → List String
  | run a => a.program :: a.config.toList
  | check program _ | schematic program _ => [program]
  | eval .. => []

def verbose : OptionForm := ⟨"verbose", some 'v', false⟩

def runForms : List OptionForm :=
  [verbose, ⟨"config", some 'c', true⟩, ⟨"budget", none, true⟩, ⟨"max-continuations", none, true⟩,
    ⟨"no-fan-out", none, false⟩, ⟨"trace", none, false⟩, ⟨"json", none, false⟩]

def readRun (args : List String) : Except UsageError Command := do
  let s ← sort runForms args
  let program ← s.onlyWord
  let config ← s.value? "config"
  let budget ← s.number? "budget"
  let maxContinuations ← s.number? "max-continuations"
  let noFanOut ← s.flag "no-fan-out"
  let trace ← s.flag "trace"
  let json ← s.flag "json"
  return .run { program, config, budget, maxContinuations, noFanOut, trace, json }

def readCheck (args : List String) : Except UsageError Command := do
  let s ← sort [verbose, ⟨"no-fan-out", none, false⟩] args
  return .check (← s.onlyWord) (← s.flag "no-fan-out")

def readEval (args : List String) : Except UsageError Command := do
  let s ← sort [verbose, ⟨"var", none, true⟩] args
  return .eval (← s.onlyWord) (s.values "var")

def readSchematic (args : List String) : Except UsageError Command := do
  let s ← sort [verbose, ⟨"output", some 'o', true⟩] args
  return .schematic (← s.onlyWord) (← s.value? "output")

/-- The command that the words ask for. -/
def Command.ofWords : List String → Except UsageError Command
  | [] => .error .noCommand
  | word :: args =>
    match word with
    | "-v" | "--verbose" => ofWords args
    | "run" => readRun args
    | "check" => readCheck args
    | "eval" => readEval args
    | "schematic" => readSchematic args
    | _ => .error (.unknownCommand word)

end Flowchart.CommandLine
