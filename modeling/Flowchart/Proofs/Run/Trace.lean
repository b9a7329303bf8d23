/-
A trace is a record of the steps and has no effect on them. The events of a run are those of the
steps that its calls returned, one after the other: each block is entered and left, and then comes
what became of the continuation (`Faithful`). The trace can be dropped at any time, and every call
still answers the same (`untraced_step`), so a run goes the same way with a trace as without one.
-/
import Flowchart.Proofs.Run.Records

namespace Flowchart

namespace StepRecord

/-- The events of a step, if the continuations that it forked into have the numbers `children`. -/
def events (x : StepRecord) (children : List Nat) : List Event :=
  [.entered x.step x.continuation x.block x.previous,
    .exited x.step x.continuation x.block x.result.label 0] ++
  match x.result with
  | .next _ => []
  | .terminate => [.finished x.continuation "completed"]
  | .fault _ => [.finished x.continuation "failed"]
  | .fork _ => [.forked x.continuation x.block children, .finished x.continuation "forked"]

/-- Only a fork has children. -/
theorem events_congr {x : StepRecord} {children children' : List Nat}
    (h : ∀ targets, x.result = .fork targets → children = children') :
    x.events children = x.events children' := by
  unfold events
  cases hs : x.result with
  | fork targets => rw [h targets hs]
  | terminate | next | fault => rfl

end StepRecord

/-! ## Reading a trace -/

namespace Trace

theorem blocksEntered_append (l l' : List Event) :
    blocksEntered (l ++ l') = blocksEntered l ++ blocksEntered l' :=
  List.filterMap_append

theorem path_append (l l' : List Event) (id : Nat) : path (l ++ l') id = path l id ++ path l' id := by
  simp only [path, List.filter_append, blocksEntered_append]

theorem blocksEntered_events (x : StepRecord) (children : List Nat) :
    blocksEntered (x.events children) = [x.block] := by
  unfold StepRecord.events
  cases x.result <;> rfl

/-- The events of a step all belong to its continuation. -/
theorem path_events (x : StepRecord) (children : List Nat) (id : Nat) :
    path (x.events children) id = if x.continuation = id then [x.block] else [] := by
  have hcontinuation : ∀ e ∈ x.events children, e.continuation = x.continuation := by
    unfold StepRecord.events
    cases x.result <;> simp [Event.continuation]
  by_cases h : x.continuation = id
  · have hall : (x.events children).filter (·.continuation = id) = x.events children :=
      List.filter_eq_self.2 fun e he => by simp [hcontinuation e he, h]
    rw [path, hall, blocksEntered_events, if_pos h]
  · have hnone : (x.events children).filter (·.continuation = id) = [] :=
      List.filter_eq_nil_iff.2 fun e he => by simp [hcontinuation e he, h]
    rw [path, hnone, if_neg h]
    rfl

theorem blocksEntered_flatMap (past : List StepRecord) (children : Nat → List Nat) :
    blocksEntered (past.flatMap fun x => x.events (children x.continuation)) =
      past.map StepRecord.block := by
  induction past with
  | nil => rfl
  | cons x past ih =>
    rw [List.flatMap_cons, blocksEntered_append, blocksEntered_events, ih]
    rfl

theorem path_flatMap (past : List StepRecord) (children : Nat → List Nat) (id : Nat) :
    path (past.flatMap fun x => x.events (children x.continuation)) id =
      (StepRecord.stepsOf past id).map StepRecord.block := by
  induction past with
  | nil => rfl
  | cons x past ih =>
    rw [List.flatMap_cons, path_append, path_events, ih]
    by_cases h : x.continuation = id <;> simp [StepRecord.stepsOf, h]

end Trace

namespace Run

open StepRecord (stepsOf)

/-! ## Without a trace -/

/-- The same run without a trace. -/
def untraced (r : Run) : Run :=
  { r with config := { r.config with recordTrace := false }, trace := none }

theorem incidental_untraced : Incidental untraced :=
  ⟨fun _ => rfl, fun _ => rfl, fun _ => rfl, fun _ _ _ _ => rfl, fun _ _ => rfl⟩

theorem settle_untraced (r : Run) (c : Continuation) (s : Signal) :
    r.untraced.settle c s = (r.settle c s).map untraced :=
  settle_map (fun _ _ _ => rfl) (fun _ _ => rfl) (fun _ _ _ => rfl) fun _ _ => rfl

/-- Whatever a call does, it does without a trace. -/
theorem untraced_step (r : Run) : r.untraced.step = (r.step.1, r.step.2.untraced) :=
  incidental_untraced.step_eq (fun _ => rfl) fun _ _ _ => settle_untraced _ _ _

theorem coincide_untraced (r : Run) (n : Nat) : Coincide r r.untraced n :=
  incidental_untraced.coincide (fun _ => rfl) (fun _ => rfl) fun j => untraced_step (r.after j)

/-! ## One step -/

/-- The continuations that the continuation `id` was split into. -/
def childrenOf (r : Run) (id : Nat) : List Nat :=
  ((r.report.outcome? id).map (·.status.children)).getD []

theorem Numbered.childrenOf_eq {r : Run} (h : r.Numbered) {o : Outcome} (ho : o ∈ r.outcomes) :
    r.childrenOf o.id = o.status.children := by
  have hsome : (r.report.outcome? o.id).isSome = true := by
    simp only [Report.outcome?, List.find?_isSome, decide_eq_true_eq]
    exact ⟨o, Array.mem_def.1 ho, rfl⟩
  obtain ⟨o', ho'⟩ := Option.isSome_iff_exists.1 hsome
  have hid : o'.id = o.id := by simpa using List.find?_some ho'
  have hmem : o' ∈ r.outcomes := Array.mem_def.2 (List.mem_of_find?_eq_some ho')
  rw [childrenOf, ho', h.injective o' hmem o ho hid]
  rfl

theorem report_trace_record (r : Run) (es : List Event) :
    (r.record es).report.trace = r.report.trace.map (· ++ es) := by
  cases ht : r.trace <;> simp [report, record, ht]

theorem report_trace_entered (r : Run) (c : Continuation) (rest : List Continuation) (s : Signal) :
    (r.entered c rest s).report.trace = r.report.trace.map (· ++
      [.entered (r.steps + 1) c.id c.block c.previous,
        .exited (r.steps + 1) c.id c.block s.label 0]) :=
  report_trace_record _ _

theorem report_trace_finish (r : Run) (c : Continuation) (status : Status) :
    (r.finish c status).report.trace = r.report.trace.map (· ++ [.finished c.id status.label]) :=
  report_trace_record _ _

/-- A step adds its events to the trace. -/
theorem report_trace_of_settle {r r' : Run} {c rest s env}
    (h : (r.entered c rest s).settle (c.signalled env) s = .ok r') :
    r'.report.trace = r.report.trace.map
      (· ++ (r.stepRecord c s).events (List.range' r.spawned s.targets.length)) := by
  cases s with
  | next target =>
    cases h
    exact report_trace_entered r c rest _
  | terminate | fault =>
    cases h
    rw [report_trace_finish, report_trace_entered, Option.map_map]
    simp only [Function.comp_def, List.append_assoc]
    rfl
  | fork targets =>
    simp only [settle, fork_eq] at h
    split at h
    · cases h
    · cases h
      rw [report_trace_finish, report_trace_record, Option.map_map]
      show Option.map _ (r.entered c rest (.fork targets)).report.trace = _
      rw [report_trace_entered, Option.map_map]
      simp only [Function.comp_def, List.append_assoc]
      rfl

/-- The trace holds the events of the steps, one after the other. -/
def Logged (r : Run) (past : List StepRecord) : Prop :=
  r.report.trace = some (past.flatMap fun x => x.events (r.childrenOf x.continuation))

/-- A fork that was taken has the outcome that lists its children. -/
theorem Counted.forked {r : Run} {past : List StepRecord} (h : r.Counted past) {x : StepRecord}
    (hx : x ∈ past) {targets : List String} (hs : x.result = .fork targets) :
    ∃ o ∈ r.outcomes, o.id = x.continuation ∧ o.lastBlock = x.block ∧
      o.status = .forked o.status.children := by
  rcases h.ends x hx with ⟨target, hnext⟩ | ⟨o, ho, hid, hblock, c, first, hstatus⟩
  · cases hs.symm.trans hnext
  · rw [hs] at hstatus
    refine ⟨o, ho, hid.symm, hblock.symm, ?_⟩
    rw [← Option.some.inj hstatus]
    rfl

theorem Logged.step {r r' : Run} {past : List StepRecord} {c rest s env} (h : r.Logged past)
    (hcounted : r.Counted past) (hr : r.Numbered) (hr' : r'.Numbered)
    (hset : (r.entered c rest s).settle (c.signalled env) s = .ok r') :
    r'.Logged (past ++ [r.stepRecord c s]) := by
  have hsettled := settled_of_settle hset
  have hpast : ∀ x ∈ past, x.events (r.childrenOf x.continuation) =
      x.events (r'.childrenOf x.continuation) := by
    intro x hx
    refine StepRecord.events_congr fun targets hs => ?_
    obtain ⟨o, ho, hid, -⟩ := hcounted.forked hx hs
    rw [← hid, hr.childrenOf_eq ho, hr'.childrenOf_eq (hsettled.mem_outcomes ho)]
  have hnew : (r.stepRecord c s).events (List.range' r.spawned s.targets.length) =
      (r.stepRecord c s).events (r'.childrenOf c.id) := by
    refine StepRecord.events_congr fun targets hs => ?_
    cases hsettled with
    | goesOn hnext => cases hs.symm.trans hnext
    | ends hstatus _ hout =>
      have hmem : (c.signalled env).outcome _ ∈ r'.outcomes := hout ▸ Array.mem_push_self
      exact ((hr'.childrenOf_eq hmem).trans (Continuation.children_of_status? hstatus)).symm
  rw [Logged, report_trace_of_settle hset, h, List.flatMap_append, List.flatMap_singleton,
    List.flatMap_congr hpast, hnew]
  rfl

theorem logged_after (g : Graph) {config : Config} (hc : config.recordTrace = true) {n : Nat}
    (h : ((start g config).after n).lost = 0) :
    ((start g config).after n).Logged ((start g config).records n) := by
  induction n with
  | zero => simp [Logged, after, start, hc, report, records]
  | succ n ih =>
    have hcounted := counted_after g config n
    have hnumbered := numbered_after g config n
    have hnumbered' := numbered_after g config (n + 1)
    have hto := stepTo_after (start g config) n
    rw [records]
    generalize (start g config).after (n + 1) = r' at *
    generalize (start g config).call n = result at hto ⊢
    generalize (start g config).after n = r at *
    cases hto with
    | halted | drained =>
      rw [returned, List.append_nil]
      exact ih h
    | refused hr =>
      rw [returned, List.append_nil]
      exact ih (lost_of_halted hr)
    | exceeded _ _ _ _ hset =>
      obtain ⟨_, _, -, rfl, -⟩ := settle_error hset
      cases h
    | settled hr _ _ _ hset => exact (ih (lost_of_halted hr)).step hcounted hnumbered hnumbered' hset

/-! ## A fork that exceeds a limit -/

/-- The events of the first `n` calls, if each of them is one of a step that was taken. -/
def logged (r : Run) (n : Nat) : List Event :=
  (r.records n).flatMap fun x => x.events ((r.after n).childrenOf x.continuation)

/-- The events of a fork that exceeds a limit: the block of `c` was entered and left, and nothing
came of it. -/
def overrun (c : Continuation) (step : Nat) : List Event :=
  [.entered step c.id c.block c.previous, .exited step c.id c.block "fork" 0]

theorem report_trace_of_exceeded {r : Run} (hr : r.halted = none) {limit : Nat}
    (h : r.step.1 = .error (.continuationLimit limit)) :
    ∃ c rest, r.queue = c :: rest ∧ r.step.2.outcomes = r.outcomes ∧
      r.step.2.report.trace = r.report.trace.map (· ++ overrun c (r.steps + 1)) := by
  have hto := stepTo_step r
  generalize r.step = result at h hto ⊢
  obtain ⟨result, r'⟩ := result
  cases h
  cases hto with
  | halted hr' => cases hr.symm.trans hr'
  | refused _ _ hb => rcases blockFor_error hb with ⟨budget, h⟩ | h | h <;> cases h
  | @exceeded c rest b s env _ _ hq _ _ hset =>
    obtain ⟨targets, _, rfl, -, -⟩ := settle_error hset
    exact ⟨c, rest, hq, rfl, report_trace_entered r c rest (.fork targets)⟩

theorem trace_of_exceeded (g : Graph) {config : Config} (hc : config.recordTrace = true) {j : Nat}
    (hj : ((start g config).after j).halted = none) {limit : Nat}
    (h : (start g config).call j = .error (.continuationLimit limit)) :
    ∃ c rest, ((start g config).after j).queue = c :: rest ∧ ∀ n > j,
      (∀ o ∈ ((start g config).after n).outcomes, o.id < c.id) ∧
      ((start g config).after n).report.trace = some ((start g config).logged n ++
        overrun c (((start g config).records n).length + 1)) := by
  obtain ⟨c, rest, hq, hout, htrace⟩ := report_trace_of_exceeded hj h
  refine ⟨c, rest, hq, fun n hn => ?_⟩
  have hnumbered := numbered_after g config j
  have hlogged : ((start g config).after j).Logged ((start g config).records j) :=
    logged_after g hc (lost_of_halted hj)
  have hsteps := (steps_after g config j).2
  rw [lost_of_halted hj, Nat.add_zero] at hsteps
  rw [logged, after_of_failed h hn, records_of_failed h (Nat.le_of_lt hn), after_succ, hout, htrace,
    hlogged, hsteps]
  constructor
  · intro o ho
    rw [(hnumbered.front hj hq).1]
    exact hnumbered.id_lt ho
  · have hchildren : ((start g config).after j).step.2.childrenOf = ((start g config).after j).childrenOf := by
      funext id
      simp only [childrenOf, report, hout]
      rfl
    rw [hchildren]
    rfl

/-! ## All calls -/

/-- The trace of a run is the record of its steps. -/
structure Faithful (r : Run) : Prop where
  numbered : ∀ n, (r.records n).map StepRecord.step = List.range' 1 (r.records n).length
  events : ∀ n, (∀ j < n, ∀ limit, r.call j ≠ .error (.continuationLimit limit)) →
    (r.after n).report.trace = some (r.logged n)
  exceeded : ∀ j limit, (r.after j).halted = none → r.call j = .error (.continuationLimit limit) →
    ∃ c rest, (r.after j).queue = c :: rest ∧ ∀ n > j,
      (r.after n).report.trace = some (r.logged n ++ overrun c ((r.records n).length + 1))
  children : ∀ n, ∀ x ∈ r.records n, ∀ targets, x.result = .fork targets →
    List.Forall₂ (r.StartsAt n) ((r.after n).childrenOf x.continuation) targets
  path : ∀ n, ∀ events ∈ (r.after n).report.trace, ∀ o ∈ (r.after n).outcomes,
    (Trace.path events o.id).length = o.steps ∧ (Trace.path events o.id).getLast? = some o.lastBlock
  entered : ∀ n, ∀ events ∈ (r.after n).report.trace,
    (Trace.blocksEntered events).length = (r.after n).steps

/-- At any time the trace holds the events of the steps, followed by those of a fork that exceeded a
limit. The continuation that forked is no outcome. -/
theorem trace_cases (g : Graph) {config : Config} (hc : config.recordTrace = true) (n : Nat) :
    (((start g config).after n).lost = 0 ∧
      ((start g config).after n).report.trace = some ((start g config).logged n)) ∨
    ∃ c, ((start g config).after n).lost = 1 ∧
      (∀ o ∈ ((start g config).after n).outcomes, o.id < c.id) ∧
      ((start g config).after n).report.trace = some ((start g config).logged n ++
        overrun c (((start g config).records n).length + 1)) := by
  cases hhalted : ((start g config).after n).halted with
  | none => exact .inl ⟨lost_of_halted hhalted, logged_after g hc (lost_of_halted hhalted)⟩
  | some e =>
    by_cases he : ∃ limit, e = .continuationLimit limit
    · obtain ⟨limit, rfl⟩ := he
      cases n with
      | zero => cases hhalted
      | succ n =>
        obtain ⟨j, hj, hbefore, hcall⟩ := exists_failure rfl (halted_after_succ_iff.1 hhalted)
        obtain ⟨c, -, -, hafter⟩ := trace_of_exceeded g hc hbefore hcall
        refine .inr ⟨c, ?_, hafter (n + 1) (Nat.lt_succ_of_le hj)⟩
        rw [lost, hhalted]
    · have hlost : ((start g config).after n).lost = 0 := by
        refine lost_of_ne fun limit hl => he ⟨limit, ?_⟩
        exact Option.some.inj (hhalted.symm.trans hl)
      exact .inl ⟨hlost, logged_after g hc hlost⟩

theorem path_logged (r : Run) (n id : Nat) :
    Trace.path (r.logged n) id = (stepsOf (r.records n) id).map StepRecord.block :=
  Trace.path_flatMap (r.records n) _ id

theorem path_overrun {c : Continuation} {step id : Nat} (h : id < c.id) :
    Trace.path (overrun c step) id = [] := by
  have hne : c.id ≠ id := Nat.ne_of_gt h
  simp [Trace.path, overrun, Event.continuation, Trace.blocksEntered, hne]

theorem blocksEntered_logged (r : Run) (n : Nat) :
    Trace.blocksEntered (r.logged n) = (r.records n).map StepRecord.block :=
  Trace.blocksEntered_flatMap (r.records n) _

/-- The path of an outcome in the trace is where its steps were taken. -/
theorem path_of_outcome (g : Graph) {config : Config} (hc : config.recordTrace = true) {n : Nat}
    {events : List Event} (h : ((start g config).after n).report.trace = some events) {o : Outcome}
    (ho : o ∈ ((start g config).after n).outcomes) :
    Trace.path events o.id = (stepsOf ((start g config).records n) o.id).map StepRecord.block := by
  rcases trace_cases g hc n with ⟨-, htrace⟩ | ⟨c, -, hlt, htrace⟩
  · obtain rfl := Option.some.inj (htrace.symm.trans h)
    exact path_logged _ _ _
  · obtain rfl := Option.some.inj (htrace.symm.trans h)
    rw [Trace.path_append, path_logged, path_overrun (hlt o ho), List.append_nil]

theorem length_blocksEntered (g : Graph) {config : Config} (hc : config.recordTrace = true) {n : Nat}
    {events : List Event} (h : ((start g config).after n).report.trace = some events) :
    (Trace.blocksEntered events).length = ((start g config).after n).steps := by
  rw [(steps_after g config n).2]
  rcases trace_cases g hc n with ⟨hlost, htrace⟩ | ⟨c, hlost, -, htrace⟩
  · obtain rfl := Option.some.inj (htrace.symm.trans h)
    rw [blocksEntered_logged, List.length_map, hlost]
    rfl
  · obtain rfl := Option.some.inj (htrace.symm.trans h)
    rw [Trace.blocksEntered_append, blocksEntered_logged, List.length_append, List.length_map, hlost]
    rfl

/-- The children that a fork names start before its targets. -/
theorem startsAt_childrenOf (g : Graph) (config : Config) {n : Nat} {x : StepRecord}
    (hx : x ∈ (start g config).records n) {targets : List String} (hs : x.result = .fork targets) :
    List.Forall₂ ((start g config).StartsAt n)
      (((start g config).after n).childrenOf x.continuation) targets := by
  obtain ⟨o, ho, hid, hblock, hstatus⟩ := (counted_after g config n).forked hx hs
  obtain ⟨b, env, env', hb, hsignal⟩ := (signalled_after g config n).2 x hx
  obtain ⟨b', _, hb', -, -, hstarts⟩ := forksInOrder_after g config n o ho _ hstatus
  have hsame : b' = b := by
    rw [hblock] at hb'
    exact Option.some.inj (hb'.symm.trans hb)
  rw [hs] at hsignal
  rw [← hid, (numbered_after g config n).childrenOf_eq ho, ← Block.adjacents_of_fork hsignal, ← hsame]
  exact hstarts

theorem faithful_start (g : Graph) {config : Config} (hc : config.recordTrace = true) :
    (start g config).Faithful := by
  refine ⟨fun n => (steps_after g config n).1, fun n h => ?_, fun j limit hj hcall => ?_,
    fun n x hx targets hs => startsAt_childrenOf g config hx hs, fun n events h o ho => ?_,
    fun n events h => length_blocksEntered g hc h⟩
  · exact logged_after g hc (lost_after_of_ne rfl h)
  · obtain ⟨c, rest, hq, hafter⟩ := trace_of_exceeded g hc hj hcall
    exact ⟨c, rest, hq, fun n hn => (hafter n hn).2⟩
  · have hcounted := counted_after g config n
    obtain ⟨x, hx, -, hblock, -⟩ := hcounted.last o ho
    rw [path_of_outcome g hc h ho, List.length_map, List.getLast?_map, Option.mem_def.1 hx,
      Option.map_some, hblock]
    exact ⟨(hcounted.ended o ho).symm, rfl⟩

/-- **The trace is a faithful record of the run, and has no effect on it.** The events are those of
the steps that the calls returned, in order, and a fork that exceeds a limit adds the entry and the
exit of its block and no more. So the path of an outcome has as many blocks as it took steps and
ends in its last block, and as many blocks were entered as steps were counted. Without a trace every
call answers the same and leaves the same queue, outcomes and counts. -/
theorem trace_records_run (g : Graph) (config : Config) :
    (start g { config with recordTrace := true }).Faithful ∧
    ∀ n, Coincide (start g { config with recordTrace := true })
        (start g { config with recordTrace := false }) n ∧
      ((start g { config with recordTrace := false }).after n).report.trace = none := by
  refine ⟨faithful_start g rfl, fun n => ⟨coincide_untraced (start g _) n, ?_⟩⟩
  have hafter : (start g { config with recordTrace := false }).after n =
      ((start g { config with recordTrace := true }).after n).untraced :=
    after_map fun j _ => untraced_step ((start g { config with recordTrace := true }).after j)
  rw [hafter]
  rfl

/-- A branch that forks under a limit of three continuations: behind the four events of the first fork
stand the entry and the exit of its block, and nothing else. -/
theorem trace_records_run_exceeded : ∃ g,
    Graph.build true [.withAdjacents (.start "s") ["a", "b"],
      .withAdjacents (.decimalAssign "a" "x" "1") ["b", "b"], .decimalAssign "b" "y" "1"] = .ok g ∧
    let r := start g { Config.default with maxContinuations := some 3 }
    r.call 1 = .error (.continuationLimit 3) ∧
      r.logged 2 = [.entered 1 0 "s" none, .exited 1 0 "s" "fork" 0, .forked 0 "s" [1, 2],
        .finished 0 "forked"] ∧
      (r.after 2).report.trace =
        some (r.logged 2 ++ [.entered 2 1 "a" (some "s"), .exited 2 1 "a" "fork" 0]) := by
  let g : Graph :=
    { blocks := [⟨"s", .start ["a", "b"]⟩,
        ⟨"a", .assign "x" .decimal ⟨"1", .number .one, []⟩ ["b", "b"]⟩,
        ⟨"b", .assign "y" .decimal ⟨"1", .number .one, []⟩ []⟩]
      index := [("a", 1), ("b", 2), ("s", 0)]
      startAt := 0 }
  let config : Config := { Config.default with maxContinuations := some 3 }
  have hcall : (start g config).call 1 = .error (.continuationLimit 3) := by decide +kernel
  obtain ⟨c, rest, hq, htrace⟩ := (trace_records_run g config).1.exceeded 1 3 (by decide +kernel) hcall
  have hfront : ((start g config).after 1).queue.map (fun c => (c.id, c.block, c.previous)) =
      [(1, "a", some "s"), (2, "b", some "s")] := by
    decide +kernel
  have hlength : ((start g config).records 2).length = 1 := by decide +kernel
  have htrace := htrace 2 (by decide)
  rw [show (start g { config with recordTrace := true }) = start g config from rfl] at *
  rw [hq] at hfront
  obtain ⟨hid, hblock, hprevious⟩ : c.id = 1 ∧ c.block = "a" ∧ c.previous = some "s" := by
    simpa using (List.cons.inj hfront).1
  rw [hlength, overrun, hid, hblock, hprevious] at htrace
  exact ⟨g, by decide +kernel, hcall, by decide +kernel, htrace⟩

end Run

end Flowchart
