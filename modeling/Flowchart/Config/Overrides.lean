/-
Settings from environment variables. A variable that is set takes the place of the
setting of its name; the others stay as they are. A limit is a number or `none`.
-/
import Flowchart.Config.Basic
import Flowchart.Text.Blank
import Flowchart.Text.Digits
import Flowchart.Text.Quoted

namespace Flowchart

/-- A variable whose value cannot be read. -/
structure InvalidSetting where
  key : String
  value : String
  expected : String
deriving DecidableEq, Repr

def InvalidSetting.message (e : InvalidSetting) : String :=
  "invalid value " ++ Text.quote e.value ++ " for " ++ e.key ++ ": expected " ++ e.expected

namespace Config

def stepBudgetKey : String := "BLOCKFLOW_STEP_BUDGET"
def maxContinuationsKey : String := "BLOCKFLOW_MAX_CONTINUATIONS"
def recordTraceKey : String := "BLOCKFLOW_RECORD_TRACE"
def allowFanOutKey : String := "BLOCKFLOW_ALLOW_FAN_OUT"

/-- The variables that can override settings, in the order in which they are looked up. -/
def overrideKeys : List String :=
  [stepBudgetKey, maxContinuationsKey, recordTraceKey, allowFanOutKey]

/-- Reads a limit: nothing or `none` in any letter case for no limit, or a natural number
below 2^64. White space around it does not count. -/
def readLimit? (raw : String) : Option (Option Nat) :=
  let cs := Text.trimChars raw.toList
  if cs.isEmpty || cs.map Char.toLower == ['n', 'o', 'n', 'e'] then some none
  else (Text.unsigned? (Nat.pow 2 64) cs).map some

/-- Reads a flag, in any letter case. White space around it does not count. -/
def readFlag? (raw : String) : Option Bool :=
  let word := String.ofList ((Text.trimChars raw.toList).map Char.toLower)
  if word ∈ ["1", "true", "yes", "on"] then some true
  else if word ∈ ["0", "false", "no", "off"] then some false
  else none

/-- The setting under `key` if it is there, otherwise the old one. -/
def override {α : Type} (lookup : String → Option String) (key expected : String)
    (read? : String → Option α) (old : α) : Except InvalidSetting α :=
  match lookup key with
  | none => .ok old
  | some raw =>
    match read? raw with
    | some a => .ok a
    | none => .error { key, value := raw, expected }

/-- Puts the settings that `lookup` finds in place of the old ones. -/
def withOverrides (c : Config) (lookup : String → Option String) : Except InvalidSetting Config := do
  let limit := "a non-negative integer or `none`"
  let flag := "a boolean"
  let stepBudget ← override lookup stepBudgetKey limit readLimit? c.stepBudget
  let maxContinuations ← override lookup maxContinuationsKey limit readLimit? c.maxContinuations
  let recordTrace ← override lookup recordTraceKey flag readFlag? c.recordTrace
  let allowFanOut ← override lookup allowFanOutKey flag readFlag? c.allowFanOut
  return { stepBudget, maxContinuations, recordTrace, allowFanOut }

end Config

end Flowchart
