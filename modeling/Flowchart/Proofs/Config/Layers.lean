/-
The layers of settings. A setting of a run comes from the command line, else from an environment
variable, else from the configuration file, else it has its default value, and this for each setting on
its own (`Layered`). A file sets what its lines say: no line sets a key for a second time, so the only
line for a key decides.
-/
import Flowchart.CommandLine.Basic
import Flowchart.Proofs.Config.Overrides

namespace Flowchart

namespace Config.Toml

/-! ## Files -/

/-- What a line sets: a key, and the literal behind it if it is one. -/
def assigned? (line : List Char) : Option (String × Option Literal) :=
  if isRemark line then none else (assignment? line).map fun p => (p.1, literal? p.2)

/-- What some lines set a key to. -/
def literalFor? (lines : List (List Char)) (key : String) : Option Literal :=
  lines.findSome? fun line => (assigned? line).bind fun e => if e.1 = key then e.2 else none

/-- A limit is a number that is not negative. -/
def Literal.limit? : Literal → Option (Option Nat)
  | .int n => if 0 ≤ n then some (some n.toNat) else none
  | .bool _ => none

def Literal.flag? : Literal → Option Bool
  | .int _ => none
  | .bool b => some b

/-- A line is a remark, or it sets what it says. -/
theorem Draft.line_eq_ok {s s' : Draft} {line : List Char} (h : s.line line = .ok s') :
    (assigned? line = none ∧ s' = s) ∨
      ∃ key value, assigned? line = some (key, value) ∧ s.set key value = .ok s' := by
  unfold Draft.line at h
  split at h
  next hremark =>
    cases h
    exact .inl ⟨if_pos hremark, rfl⟩
  next hremark =>
    split at h
    next key value hassignment =>
      exact .inr ⟨key, literal? value, by simp [assigned?, hremark, hassignment], h⟩
    next => cases h

/-- A key is set only once, and to a literal of its type. -/
theorem Draft.set_eq_ok {s s' : Draft} {key : String} {value : Option Literal}
    (h : s.set key value = .ok s') : key ∉ s.keys ∧ s'.keys = key :: s.keys ∧
      ((key = "step_budget" ∧ ∃ l, value.bind Literal.limit? = some l ∧
          s'.config = { s.config with stepBudget := l }) ∨
        (key = "max_continuations" ∧ ∃ l, value.bind Literal.limit? = some l ∧
          s'.config = { s.config with maxContinuations := l }) ∨
        (key = "record_trace" ∧ ∃ b, value.bind Literal.flag? = some b ∧
          s'.config = { s.config with recordTrace := b }) ∨
        (key = "allow_fan_out" ∧ ∃ b, value.bind Literal.flag? = some b ∧
          s'.config = { s.config with allowFanOut := b })) := by
  unfold Draft.set at h
  by_cases hkey : key ∈ s.keys
  · simp only [hkey, if_true] at h
    cases h
  · simp only [hkey, if_false] at h
    refine ⟨hkey, ?_⟩
    split at h
    case h_1 | h_2 =>
      obtain ⟨l, hl, h⟩ := bind_eq_ok_iff.1 h
      cases h
      rcases value with _ | n | b
      · cases hl
      · by_cases hn : 0 ≤ n
        · simp only [hn, if_true] at hl
          cases hl
          simp [Literal.limit?, hn]
        · simp [hn] at hl
      · cases hl
    case h_3 | h_4 =>
      obtain ⟨b, hb, h⟩ := bind_eq_ok_iff.1 h
      cases h
      rcases value with _ | n | b'
      · cases hb
      · cases hb
      · cases hb
        simp [Literal.flag?]
    case h_5 => cases h

/-- A setting: the key that a file has for it, where it stands, and what a literal sets it to. -/
structure Setting (α : Type) where
  key : String
  get : Config → α
  ofLiteral? : Literal → Option α

namespace Setting

def stepBudget : Setting (Option Nat) := ⟨"step_budget", Config.stepBudget, Literal.limit?⟩
def maxContinuations : Setting (Option Nat) := ⟨"max_continuations", Config.maxContinuations, Literal.limit?⟩
def recordTrace : Setting Bool := ⟨"record_trace", Config.recordTrace, Literal.flag?⟩
def allowFanOut : Setting Bool := ⟨"allow_fan_out", Config.allowFanOut, Literal.flag?⟩

variable {α : Type}

/-- A line for the key sets the setting, and no other line changes it. -/
structure Follows (x : Setting α) : Prop where
  self : ∀ {s s' : Draft} {value}, s.set x.key value = .ok s' →
    value.bind x.ofLiteral? = some (x.get s'.config)
  other : ∀ {s s' : Draft} {key value}, s.set key value = .ok s' → key ≠ x.key →
    x.get s'.config = x.get s.config

theorem follows : stepBudget.Follows ∧ maxContinuations.Follows ∧ recordTrace.Follows ∧ allowFanOut.Follows := by
  refine ⟨⟨fun h => ?_, fun h hne => ?_⟩, ⟨fun h => ?_, fun h hne => ?_⟩, ⟨fun h => ?_, fun h hne => ?_⟩,
    ⟨fun h => ?_, fun h hne => ?_⟩⟩
  all_goals
    obtain ⟨-, -, hset⟩ := Draft.set_eq_ok h
    rcases hset with ⟨hkey, l, hl, hc⟩ | ⟨hkey, l, hl, hc⟩ | ⟨hkey, l, hl, hc⟩ | ⟨hkey, l, hl, hc⟩ <;>
      simp_all [stepBudget, maxContinuations, recordTrace, allowFanOut]

section
variable {x : Setting α} (hx : x.Follows) {s s' : Draft} {number : Nat} {lines : List (List Char)}

include hx

/-- What was set stays. -/
theorem get_lines_of_mem (h : s.lines number lines = .ok s') (hkey : x.key ∈ s.keys) :
    x.get s'.config = x.get s.config := by
  induction lines generalizing s number with
  | nil =>
    cases h
    rfl
  | cons line lines ih =>
    unfold Draft.lines at h
    split at h
    next s₁ hline =>
      rcases Draft.line_eq_ok hline with ⟨-, rfl⟩ | ⟨key, value, -, hset⟩
      · exact ih h hkey
      · obtain ⟨hfresh, hkeys, -⟩ := Draft.set_eq_ok hset
        have hne : key ≠ x.key := fun heq => hfresh (heq ▸ hkey)
        rw [ih h (hkeys ▸ List.mem_cons_of_mem key hkey), hx.other hset hne]
    next => cases h

/-- A setting is what the lines set its key to, and without such a line it stays. -/
theorem get_lines (h : s.lines number lines = .ok s') (hkey : x.key ∉ s.keys) :
    x.get s'.config = ((literalFor? lines x.key).bind x.ofLiteral?).getD (x.get s.config) := by
  induction lines generalizing s number with
  | nil =>
    cases h
    rfl
  | cons line lines ih =>
    unfold Draft.lines at h
    split at h
    next s₁ hline =>
      rcases Draft.line_eq_ok hline with ⟨hassigned, rfl⟩ | ⟨key, value, hassigned, hset⟩
      · rw [ih h hkey]
        simp [literalFor?, hassigned]
      · obtain ⟨hfresh, hkeys, -⟩ := Draft.set_eq_ok hset
        by_cases hne : key = x.key
        · subst hne
          obtain ⟨l, rfl, hl⟩ := Option.bind_eq_some_iff.1 (hx.self hset)
          rw [get_lines_of_mem hx h (hkeys ▸ List.mem_cons_self)]
          simp [literalFor?, hassigned, hl]
        · rw [ih h (by simp [hkeys, Ne.symm hne, hkey]), hx.other hset hne]
          simp [literalFor?, hassigned, hne]
    next => cases h

theorem get_ofToml {text : String} {c : Config} (h : ofToml text = .ok c) :
    x.get c = ((literalFor? (splitLines [] (body text.toList)) x.key).bind x.ofLiteral?).getD
      (x.get .default) := by
  obtain ⟨s, hs, h⟩ := bind_eq_ok_iff.1 h
  cases h
  exact get_lines hx hs List.not_mem_nil

end

end Setting

end Config.Toml

/-! ## Commands -/

namespace CommandLine

open Config

/-- A setting with four layers: the flag of the command line, the text of the variable, the file, and
the default value. The first layer that says something decides. -/
inductive Layered {α : Type} (Text : String → α → Prop) (flag : Option α) (raw : Option String)
    (file : Option α) (default : α) : α → Prop
  | flag {a} (hflag : flag = some a) : Layered Text flag raw file default a
  | override {text a} (hflag : flag = none) (hraw : raw = some text) (ha : Text text a) :
      Layered Text flag raw file default a
  | file {a} (hflag : flag = none) (hraw : raw = none) (hfile : file = some a) :
      Layered Text flag raw file default a
  | default (hflag : flag = none) (hraw : raw = none) (hfile : file = none) :
      Layered Text flag raw file default default

/-- What the configuration file of a command sets, if there is one. -/
def fileSetting? {α : Type} (w : World) (path : Option String) (x : Toml.Setting α) : Option α := do
  let text ← (w.read (← path)).toOption
  x.ofLiteral? (← Toml.literalFor? (Toml.splitLines [] (Toml.body text.toList)) x.key)

/-- The settings of a run, each with its own layers. Traces are kept if the command line asks for it. -/
structure Resolved (w : World) (a : RunArguments) (c : Config) : Prop where
  stepBudget : Layered LimitText (a.budget.map some) (w.lookup stepBudgetKey)
    (fileSetting? w a.config .stepBudget) Config.default.stepBudget c.stepBudget
  maxContinuations : Layered LimitText (a.maxContinuations.map some) (w.lookup maxContinuationsKey)
    (fileSetting? w a.config .maxContinuations) Config.default.maxContinuations c.maxContinuations
  allowFanOut : Layered FlagText (if a.noFanOut then some false else none) (w.lookup allowFanOutKey)
    (fileSetting? w a.config .allowFanOut) Config.default.allowFanOut c.allowFanOut
  recordTrace : c.recordTrace = a.trace

theorem get_loadConfig {α : Type} {x : Toml.Setting α} (hx : x.Follows) {w : World} {path : Option String}
    {base : Config} (h : loadConfig w path = .ok base) :
    x.get base = (fileSetting? w path x).getD (x.get .default) := by
  cases path with
  | none =>
    cases h
    rfl
  | some path =>
    simp only [loadConfig] at h
    split at h
    next => cases h
    next text htext =>
      split at h
      next c hc =>
        cases h
        rw [Toml.Setting.get_ofToml hx hc, fileSetting?, Option.bind_eq_bind, Option.bind_some, htext]
        rfl
      next => cases h

/-- What the command line says goes before what is left after the overrides. -/
theorem Layered.of_settles {α : Type} {Text : String → α → Prop} {raw : Option String} {file : Option α}
    {default old : α} (h : Settles Text raw (file.getD default) old) (flag : Option α) :
    Layered Text flag raw file default (flag.getD old) := by
  cases flag with
  | some a => exact .flag rfl
  | none =>
    generalize hbase : file.getD default = base at h
    cases h with
    | set ha => exact .override rfl rfl ha
    | kept =>
      cases file with
      | none =>
        cases hbase
        exact .default rfl rfl rfl
      | some a =>
        cases hbase
        exact .file rfl rfl rfl

section
variable {w : World} {a : RunArguments} {c : Config}

theorem resolveConfig_eq_ok_iff : resolveConfig w a = .ok c ↔ ∃ base c', loadConfig w a.config = .ok base ∧
    base.withOverrides w.lookup = .ok c' ∧ applyFlags a c' = c := by
  simp only [resolveConfig, bind_eq_ok_iff]
  refine exists_congr fun base => ?_
  cases base.withOverrides w.lookup <;> simp [pure, Except.pure]

/-- Settings are resolved exactly if the file can be read and every variable that is set. -/
theorem exists_resolveConfig_eq_ok_iff : (∃ c, resolveConfig w a = .ok c) ↔
    (∃ base, loadConfig w a.config = .ok base) ∧
      ∀ key ∈ overrideKeys, ∀ raw, ¬Unreadable w.lookup key raw := by
  simp only [resolveConfig_eq_ok_iff]
  constructor
  · rintro ⟨_, base, c', hbase, hc', -⟩
    refine ⟨⟨base, hbase⟩, fun key hkey raw hraw => ?_⟩
    obtain ⟨e, he⟩ := exists_withOverrides_eq_error_iff.2 ⟨key, hkey, raw, hraw⟩
    cases hc'.symm.trans he
  · rintro ⟨⟨base, hbase⟩, hreadable⟩
    cases hc' : base.withOverrides w.lookup with
    | ok c' => exact ⟨_, base, c', hbase, hc', rfl⟩
    | error e =>
      obtain ⟨key, hkey, raw, hraw⟩ := exists_withOverrides_eq_error_iff.1 ⟨e, hc'⟩
      exact absurd hraw (hreadable key hkey raw)

/-- One setting after all layers, where the file and the overrides were read. -/
theorem layered_of_loadConfig {α : Type} {x : Toml.Setting α} (hx : x.Follows) {base : Config}
    (hbase : loadConfig w a.config = .ok base) {Text : String → α → Prop} {raw : Option String} {old : α}
    (h : Settles Text raw (x.get base) old) (flag : Option α) :
    Layered Text flag raw (fileSetting? w a.config x) (x.get .default) (flag.getD old) := by
  rw [get_loadConfig hx hbase] at h
  exact .of_settles h flag

theorem resolved_of_resolveConfig (h : resolveConfig w a = .ok c) : Resolved w a c := by
  obtain ⟨base, c', hbase, hc', rfl⟩ := resolveConfig_eq_ok_iff.1 h
  obtain ⟨hbudget, hcontinuations, -, hfan⟩ := withOverrides_eq_ok_iff.1 hc'
  obtain ⟨fbudget, fcontinuations, -, ffan⟩ := Toml.Setting.follows
  have hbudgetFlag : (applyFlags a c').stepBudget = (a.budget.map some).getD c'.stepBudget := by
    cases hflag : a.budget <;> simp [applyFlags, hflag]
  have hcontinuationsFlag : (applyFlags a c').maxContinuations =
      (a.maxContinuations.map some).getD c'.maxContinuations := by
    cases hflag : a.maxContinuations <;> simp [applyFlags, hflag]
  have hfanFlag : (applyFlags a c').allowFanOut =
      (if a.noFanOut then some false else none : Option Bool).getD c'.allowFanOut := by
    cases hflag : a.noFanOut <;> simp [applyFlags, hflag]
  refine ⟨?_, ?_, ?_, rfl⟩
  · rw [hbudgetFlag]
    exact layered_of_loadConfig fbudget hbase hbudget _
  · rw [hcontinuationsFlag]
    exact layered_of_loadConfig fcontinuations hbase hcontinuations _
  · rw [hfanFlag]
    exact layered_of_loadConfig ffan hbase hfan _

/-- A run has the settings that were resolved. -/
theorem resolveConfig_of_plan {chart : Chart} {json : Bool} (h : plan w (.run a) = .execute chart c json) :
    resolveConfig w a = .ok c := by
  simp only [plan] at h
  split at h
  next hplan =>
    subst h
    simp only [planRun, bind_eq_ok_iff] at hplan
    obtain ⟨config, hconfig, program, -, chart', -, hplan⟩ := hplan
    cases hplan
    exact hconfig
  next => cases h

end

/-- **Settings are layered one by one, and limits are read exactly.** Overriding fails exactly if some key is set
to a text that it cannot be set to, with the first such key and its text; otherwise each setting is what
its text says, or as it was where there is none. The text of a limit is blank, `none` or a number of 64
bits, and nothing else is a limit. Overrides on top of overrides are overrides, where the upper
ones come first. The settings of a run come from the command line, else from the variables, else from
the file, else they are the default ones, and only the command line asks for a trace. -/
theorem settings_are_layered :
    (∀ (c : Config) f,
      ((∃ e, c.withOverrides f = .error e) ↔ ∃ key ∈ overrideKeys, ∃ raw, Unreadable f key raw) ∧
      (∀ e, c.withOverrides f = .error e ↔ FirstUnreadable f e) ∧
      ∀ c', c.withOverrides f = .ok c' ↔ Overridden f c c') ∧
    (∀ raw l, readLimit? raw = some l ↔ LimitText raw l) ∧
    (∀ (c c₁ c₂ : Config) f g, c.withOverrides f = .ok c₁ → c₁.withOverrides g = .ok c₂ →
      c.withOverrides (fun key => (g key).or (f key)) = .ok c₂) ∧
    ∀ w a,
      ((∃ c, resolveConfig w a = .ok c) ↔ (∃ base, loadConfig w a.config = .ok base) ∧
        ∀ key ∈ overrideKeys, ∀ raw, ¬Unreadable w.lookup key raw) ∧
      (∀ c, resolveConfig w a = .ok c → Resolved w a c) ∧
      ∀ chart c json, plan w (.run a) = .execute chart c json → resolveConfig w a = .ok c := by
  refine ⟨fun c f => ?_, fun raw l => readLimit?_eq_some_iff, fun c c₁ c₂ f g hf hg => ?_, fun w a => ?_⟩
  · exact ⟨exists_withOverrides_eq_error_iff, fun e => withOverrides_eq_error_iff,
      fun c' => withOverrides_eq_ok_iff⟩
  · rw [withOverrides_eq_ok_iff] at hf hg ⊢
    exact hf.trans hg
  · exact ⟨exists_resolveConfig_eq_ok_iff, fun c => resolved_of_resolveConfig,
      fun chart c json => resolveConfig_of_plan⟩

/-- A file that sets three settings, and variables that set one of them anew. -/
def largestLimit : World where
  read _ := .ok "max_continuations = 3 # three\nstep_budget = 0x10\r\n\tallow_fan_out=false"
  lookup key :=
    if key = maxContinuationsKey then some "\t+018446744073709551615 "
    else if key = recordTraceKey then some "On" else none

/-- The largest limit takes the place of the one in the file, the flag of the command line goes before the
limit of the file, and the trace that the variable asks for is not kept. One more is no limit, and of two
layers the upper one may take a limit away. -/
theorem settings_are_layered_largest :
    let a : RunArguments := ⟨"p", some "c", some 7, none, false, false, false⟩
    let c : Config := ⟨some 7, some 18446744073709551615, false, false⟩
    let f : String → Option String := fun _ => some " 1 "
    let g : String → Option String := fun key => if key = stepBudgetKey then some "nOnE" else none
    let h : String → Option String := fun _ => some "18446744073709551616"
    resolveConfig largestLimit a = .ok c ∧ Resolved largestLimit a c ∧
      Config.default.withOverrides (fun key => (g key).or (f key)) = .ok ⟨none, some 1, true, true⟩ ∧
      FirstUnreadable h ⟨stepBudgetKey, "18446744073709551616", expectation stepBudgetKey⟩ := by
  intro a c f g h
  obtain ⟨hoverrides, -, hlayers, hresolve⟩ := settings_are_layered
  have hc : resolveConfig largestLimit a = .ok c := by decide +kernel
  refine ⟨hc, (hresolve largestLimit a).2.1 c hc, ?_, ((hoverrides .default h).2.1 _).1 (by decide +kernel)⟩
  exact hlayers .default ⟨some 1, some 1, true, true⟩ _ f g (by decide +kernel) (by decide +kernel)

end CommandLine

end Flowchart
