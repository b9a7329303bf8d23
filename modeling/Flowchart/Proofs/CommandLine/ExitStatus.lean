/-
The exit code of the run command. Once a program is loaded and built, its run alone decides the code:
`2` if it stops at a limit, `1` if it ends and some continuation failed, `0` if it ends and none did.

No other error can stop it. The graph was built under the settings of the run, so its blocks are all
there (`call_ne_missingBlock`), and where fan-out is refused, no block fans out (`call_ne_fanOut`).
-/
import Flowchart.CommandLine.Basic
import Flowchart.Proofs.Run.FanOut
import Flowchart.Proofs.Run.Stopping

namespace Flowchart

namespace Run

/-! ## Errors of a run -/

/-- An error that a run returns is the error of a call. -/
theorem Returns.exists_call {r : Run} {e : RunError} (h : r.Returns (.error e)) :
    ∃ n, r.call n = .error e := by
  obtain ⟨limit, h⟩ := h
  induction limit generalizing r with
  | zero => cases h
  | succ limit ih =>
    rw [finishWithin_succ] at h
    split at h
    next e' r' hstep =>
      cases h
      exact ⟨0, congrArg Prod.fst hstep⟩
    · cases h
    next record r' hstep =>
      obtain ⟨n, hn⟩ := ih h
      refine ⟨1 + n, ?_⟩
      have hnext : r.after 1 = r' := (after_succ r 0).trans (congrArg Prod.snd hstep)
      rw [call, after_add, hnext]
      exact hn

/-- A block is refused for fanning out only under settings that do not allow it. -/
theorem allowFanOut_of_blockFor {r : Run} {c : Continuation} {block : String} {id : Nat}
    {env : Environment} (h : r.blockFor c = .error (.fanOut block id env)) :
    r.config.allowFanOut = false := by
  unfold blockFor at h
  split at h
  · cases h
  split at h
  · cases h
  split at h
  next hfans => simpa using (Bool.and_eq_true_iff.1 hfans).1
  · cases h

/-- No call is refused for fan-out, if fan-out is allowed or there is none. -/
theorem call_ne_fanOut {g : Graph} {config : Config} (h : config.allowFanOut = true ∨ g.hasFanOut = false)
    (n : Nat) (block : String) (id : Nat) (env : Environment) :
    (start g config).call n ≠ .error (.fanOut block id env) := by
  rcases h with hallow | hfan
  · intro hcall
    obtain ⟨j, -, hhalted, hfails⟩ := exists_failure rfl hcall
    obtain ⟨c, rest, -, ⟨hb, -⟩ | ⟨limit, targets, he, -⟩⟩ := failed_cases hhalted hfails
    · have hrefused := allowFanOut_of_blockFor hb
      rw [config_after] at hrefused
      exact Bool.noConfusion (hallow.symm.trans hrefused)
    · cases he
  · exact (indifferent_start hfan config).fanOut n block id env

/-- The run stopped at one of its limits. -/
def StopsAtLimit (result : Except RunError Report) : Prop :=
  (∃ budget block id env, result = .error (.stepBudget budget block id env)) ∨
    ∃ limit, result = .error (.continuationLimit limit)

/-- The run ended, and some continuation failed. -/
def EndsWithFailure (result : Except RunError Report) : Prop :=
  ∃ report, result = .ok report ∧ ∃ o ∈ report.outcomes, ∃ failure, o.status = .failed failure

/-- The run ended, and every continuation completed or forked. -/
def EndsWell (result : Except RunError Report) : Prop :=
  ∃ report, result = .ok report ∧
    ∀ o ∈ report.outcomes, (∃ env, o.status = .completed env) ∨ ∃ children, o.status = .forked children

/-- A run of a graph that was built under its settings stops at nothing but a limit. -/
theorem stopsAtLimit_of_error {ds : List BlockDescription} {g : Graph} {config : Config}
    (hg : Graph.build config.allowFanOut ds = .ok g) {e : RunError}
    (h : (start g config).Returns (.error e)) : StopsAtLimit (.error e) := by
  obtain ⟨n, hcall⟩ := h.exists_call
  obtain ⟨j, -, hhalted, hfails⟩ := exists_failure rfl hcall
  obtain ⟨c, rest, -, ⟨hb, -⟩ | ⟨limit, targets, rfl, -⟩⟩ := failed_cases hhalted hfails
  · rcases blockFor_error hb with ⟨budget, rfl⟩ | rfl | rfl
    · exact .inl ⟨budget, _, _, _, rfl⟩
    · exact absurd hcall (call_ne_missingBlock (Graph.closed_of_build hg) config n _)
    · have hfan := (Graph.build_eq_ok_iff.1 hg).fanOut.imp_right Graph.hasFanOut_eq_false_iff.2
      exact absurd hcall (call_ne_fanOut hfan n _ _ _)
  · exact .inr ⟨limit, rfl⟩

end Run

theorem Report.isSuccess_iff {r : Report} :
    r.isSuccess = true ↔ ∀ o ∈ r.outcomes, ∀ failure, o.status ≠ .failed failure := by
  simp only [isSuccess, firstFailure?, failures, Option.isNone_iff_eq_none, List.head?_eq_none_iff,
    List.filterMap_eq_nil_iff]
  refine forall₂_congr fun o _ => ?_
  cases o.status <;> simp

theorem Report.isSuccess_timed (r : Report) (microseconds : Nat → Nat) :
    (r.timed microseconds).isSuccess = r.isSuccess := rfl

namespace Run

theorem endsWell_ok_iff {report : Report} : EndsWell (.ok report) ↔ report.isSuccess = true := by
  rw [Report.isSuccess_iff]
  constructor
  · intro ⟨_, hok, h⟩ o ho failure hfailed
    cases hok
    rcases h o ho with ⟨env, hstatus⟩ | ⟨children, hstatus⟩ <;> cases hfailed.symm.trans hstatus
  · intro h
    refine ⟨report, rfl, fun o ho => ?_⟩
    cases hstatus : o.status with
    | completed env => exact .inl ⟨env, rfl⟩
    | forked children => exact .inr ⟨children, rfl⟩
    | failed failure => exact absurd hstatus (h o ho failure)

theorem endsWithFailure_ok_iff {report : Report} :
    EndsWithFailure (.ok report) ↔ report.isSuccess = false := by
  rw [← Bool.not_eq_true, Report.isSuccess_iff]
  constructor
  · intro ⟨_, hok, o, ho, failure, hfailed⟩ h
    cases hok
    exact h o ho failure hfailed
  · intro h
    push Not at h
    exact ⟨report, rfl, h⟩

theorem not_stopsAtLimit_ok {report : Report} : ¬StopsAtLimit (.ok report) := by
  rintro (⟨_, _, _, _, h⟩ | ⟨_, h⟩) <;> cases h

end Run

namespace CommandLine

open Run

/-! ## Exit codes -/

/-- What an exit code tells about the result of a run. -/
structure Tells (code : Nat) (result : Except RunError Report) : Prop where
  limit : code = 2 ↔ StopsAtLimit result
  failed : code = 1 ↔ EndsWithFailure result
  success : code = 0 ↔ EndsWell result
  started : code ≠ 3

theorem tells_two {e : RunError} (h : StopsAtLimit (.error e)) : Tells 2 (.error e) := by
  have hfailed : ¬EndsWithFailure (.error e) := by
    intro ⟨report, hok, _⟩
    cases hok
  have hwell : ¬EndsWell (.error e) := by
    intro ⟨report, hok, _⟩
    cases hok
  exact ⟨by simp [h], by simp [hfailed], by simp [hwell], by decide⟩

theorem tells_report (report : Report) : Tells (if report.isSuccess then 0 else 1) (.ok report) := by
  have hlimit : ¬StopsAtLimit (.ok report) := not_stopsAtLimit_ok
  cases hs : report.isSuccess <;>
    exact ⟨by simp [hlimit], by simp [endsWithFailure_ok_iff, hs], by simp [endsWell_ok_iff, hs], by decide⟩

/-- The times that a run took do not matter. -/
theorem tells_runOutput {result : Except RunError Report}
    (h : ∀ e, result = .error e → StopsAtLimit (.error e)) (name : String) (json : Bool) (timing : Timing)
    (microseconds : Nat → Nat) :
    Tells (runOutput name json timing (result.map (·.timed microseconds))).code result := by
  cases result with
  | error e =>
    have hlimit := h e rfl
    have hcode : (runOutput name json timing (.error e)).code = 2 := by
      rcases hlimit with ⟨budget, block, id, env, he⟩ | ⟨limit, he⟩ <;> cases he <;> rfl
    exact hcode ▸ tells_two hlimit
  | ok report =>
    have hcode : (runOutput name json timing (.ok (report.timed microseconds))).code =
        if report.isSuccess then 0 else 1 := by
      rw [← report.isSuccess_timed microseconds]
      rfl
    exact hcode ▸ tells_report report

theorem build_of_buildChart {p : Program} {allow : Bool} {chart : Chart}
    (h : buildChart p allow = .ok chart) : Graph.build allow p.blocks = .ok chart.graph := by
  unfold buildChart Program.chart Program.build at h
  cases hg : Graph.build allow p.blocks with
  | error e => simp [hg, bind, Except.bind] at h
  | ok g =>
    simp only [hg, bind, Except.bind, pure, Except.pure] at h
    cases h
    rfl

section
variable {w : World} {a : RunArguments} {config : Config} {program : Program} {chart : Chart}

theorem plan_run (hconfig : resolveConfig w a = .ok config) (hprogram : loadProgram w a.program = .ok program)
    (hchart : buildChart program config.allowFanOut = .ok chart) :
    plan w (.run a) = .execute chart config a.json := by
  simp [plan, planRun, hconfig, hprogram, hchart, bind, Except.bind, pure, Except.pure]

/-- **The run alone decides the exit code.** Of a program that was loaded and built under the settings of
the command, the command executes the run and turns its result into an output. If the run ends, the
code tells how, whatever times were measured. No call of the run, at any length, misses a block or
is refused for fan-out. -/
theorem run_decides_exit_code (hconfig : resolveConfig w a = .ok config)
    (hprogram : loadProgram w a.program = .ok program)
    (hchart : buildChart program config.allowFanOut = .ok chart) :
    (∀ (m : Type → Type) [Monad m] [LawfulMonad m]
      (execute : Run → m (Timing × Except RunError Report)) (write : String → String → m (Option FileFault)),
      (plan w (.run a)).perform execute write =
        (fun ended => runOutput chart.name a.json ended.1 ended.2) <$> execute (chart.start config)) ∧
    (∀ result, (chart.start config).Returns result → ∀ timing microseconds,
      Tells (runOutput chart.name a.json timing (result.map (·.timed microseconds))).code result) ∧
    (∀ n block, (chart.start config).call n ≠ .error (.missingBlock block)) ∧
    ∀ n block id env, (chart.start config).call n ≠ .error (.fanOut block id env) := by
  have hg := build_of_buildChart hchart
  have hfan := (Graph.build_eq_ok_iff.1 hg).fanOut.imp_right Graph.hasFanOut_eq_false_iff.2
  refine ⟨?_, ?_, call_ne_missingBlock (Graph.closed_of_build hg) config, call_ne_fanOut hfan⟩
  · intro m _ _ execute write
    rw [plan_run hconfig hprogram hchart, map_eq_pure_bind]
    rfl
  · intro result hreturns timing microseconds
    refine tells_runOutput (fun e he => ?_) _ _ timing microseconds
    exact stopsAtLimit_of_error hg (he ▸ hreturns)

end

/-- A program whose start forks into the block that divides by zero, twice, and an environment that
allows two steps. -/
def shortBudget : World where
  read _ := .ok "[\"p\",null,[[\"s\",\"start\",[\"a\",\"a\"]],[\"a\",\"decimal_assign\",[],[\"x\",\"1/0\"]]]]"
  lookup key := if key = "BLOCKFLOW_STEP_BUDGET" then some "2" else none

/-- The first branch fails, and then the budget is used up: the limit decides. -/
theorem run_decides_exit_code_after_failure :
    let a : RunArguments := ⟨"p", none, none, none, false, false, false⟩
    ∃ config program chart result, resolveConfig shortBudget a = .ok config ∧
      loadProgram shortBudget a.program = .ok program ∧ buildChart program config.allowFanOut = .ok chart ∧
      (∃ o ∈ ((chart.start config).after 2).outcomes.toList, ∃ failure, o.status = .failed failure) ∧
      (chart.start config).Returns result ∧
      ∀ (timing : Timing) (execute : Run → Id (Timing × Except RunError Report))
        (write : String → String → Id (Option FileFault)), execute (chart.start config) = (timing, result) →
        ((plan shortBudget (.run a)).perform execute write).code = 2 := by
  intro a
  let config : Config := ⟨some 2, none, false, true⟩
  let program : Program :=
    { name := "p", description := none,
      blocks := [⟨"s", .start, ["a", "a"], .null⟩,
        ⟨"a", .decimalAssign, [], .array [.string "x", .string "1/0"]⟩] }
  let quotient : Expression := ⟨"1/0", .chain (.number .one) [(.div, .number .zero)], []⟩
  let chart : Chart :=
    { name := "p", description := none,
      graph :=
        { blocks := [⟨"s", .start ["a", "a"]⟩, ⟨"a", .assign "x" .decimal quotient []⟩]
          index := [("a", 1), ("s", 0)]
          startAt := 0 } }
  let result : Except RunError Report := .error (.stepBudget 2 "a" 2 .empty)
  have hconfig : resolveConfig shortBudget a = .ok config := by decide +kernel
  have hprogram : loadProgram shortBudget a.program = .ok program := by decide +kernel
  have hchart : buildChart program config.allowFanOut = .ok chart := by decide +kernel
  have hreturns : (chart.start config).Returns result := ⟨3, by decide +kernel⟩
  have hfailed : (((chart.start config).after 2).report).isSuccess = false := by decide +kernel
  obtain ⟨_, hok, hfailure⟩ := endsWithFailure_ok_iff.2 hfailed
  cases hok
  obtain ⟨hperform, htells, -⟩ := run_decides_exit_code hconfig hprogram hchart
  refine ⟨config, program, chart, result, hconfig, hprogram, hchart, hfailure, hreturns, ?_⟩
  intro timing execute write hexecute
  rw [hperform Id execute write, hexecute]
  exact (htells result hreturns timing fun _ => 0).limit.2 (.inl ⟨_, _, _, _, rfl⟩)

end CommandLine

end Flowchart
