/-
One step of a run, case by case. `StepTo` lists everything a step can do, with the state it
leaves, and `step_eq_iff` says that the list is complete; what is shown of runs elsewhere is
shown through it. A run as a whole is what its steps lead to: `after` by any number of calls,
`Reaches` by steps that were taken, `Returns` by running to the end.
-/
import Flowchart.Run.Report
import Mathlib

namespace Flowchart

/-- The continuation after the signal of its block, standing before the same block. -/
def Continuation.signalled (c : Continuation) (environment : Environment) : Continuation :=
  { c with environment, steps := c.steps + 1 }

/-- The outcome of a continuation that ends in this way. -/
def Continuation.outcome (c : Continuation) (status : Status) : Outcome :=
  { id := c.id, parent := c.parent, lastBlock := c.block, steps := c.steps, status }

/-- How a signal ends the continuation, unless it goes on. The children of a fork are numbered
from `first`. -/
def Continuation.status? (c : Continuation) (first : Nat) : Signal → Option Status
  | .terminate => some (.completed c.environment)
  | .next _ => none
  | .fork targets => some (.forked (List.range' first targets.length))
  | .fault fault =>
    some (.failed
      { continuation := c.id, block := c.block, previous := c.previous, fault,
        environment := c.environment })

namespace Run

/-- The run after the signal `s` of the block of `c`, before anything becomes of `c`. -/
def entered (r : Run) (c : Continuation) (rest : List Continuation) (s : Signal) : Run :=
  { r with queue := rest, steps := r.steps + 1 }.record
    [.entered (r.steps + 1) c.id c.block c.previous, .exited (r.steps + 1) c.id c.block s.label 0]

def stepRecord (r : Run) (c : Continuation) (s : Signal) : StepRecord :=
  { step := r.steps + 1, continuation := c.id, block := c.block, previous := c.previous, result := s }

section
variable (r : Run) (es : List Event) (c : Continuation) (rest : List Continuation) (s : Signal)
  (status : Status)

@[simp] theorem record_graph : (r.record es).graph = r.graph := rfl
@[simp] theorem record_config : (r.record es).config = r.config := rfl
@[simp] theorem record_queue : (r.record es).queue = r.queue := rfl
@[simp] theorem record_outcomes : (r.record es).outcomes = r.outcomes := rfl
@[simp] theorem record_spawned : (r.record es).spawned = r.spawned := rfl
@[simp] theorem record_steps : (r.record es).steps = r.steps := rfl
@[simp] theorem record_halted : (r.record es).halted = r.halted := rfl

@[simp] theorem entered_graph : (r.entered c rest s).graph = r.graph := rfl
@[simp] theorem entered_config : (r.entered c rest s).config = r.config := rfl
@[simp] theorem entered_queue : (r.entered c rest s).queue = rest := rfl
@[simp] theorem entered_outcomes : (r.entered c rest s).outcomes = r.outcomes := rfl
@[simp] theorem entered_spawned : (r.entered c rest s).spawned = r.spawned := rfl
@[simp] theorem entered_steps : (r.entered c rest s).steps = r.steps + 1 := rfl
@[simp] theorem entered_halted : (r.entered c rest s).halted = r.halted := rfl

@[simp] theorem finish_graph : (r.finish c status).graph = r.graph := rfl
@[simp] theorem finish_config : (r.finish c status).config = r.config := rfl
@[simp] theorem finish_queue : (r.finish c status).queue = r.queue := rfl
@[simp] theorem finish_spawned : (r.finish c status).spawned = r.spawned := rfl
@[simp] theorem finish_steps : (r.finish c status).steps = r.steps := rfl
@[simp] theorem finish_halted : (r.finish c status).halted = r.halted := rfl
@[simp] theorem finish_outcomes : (r.finish c status).outcomes =
    r.outcomes.push
      { id := c.id, parent := c.parent, lastBlock := c.block, steps := c.steps, status } := rfl

end

/-- Everything a step can do: the run stopped before, it is over, the front continuation may
not enter its block, it enters and goes on or ends, or its fork exceeds a limit. -/
inductive StepTo (r : Run) : Except RunError (Option StepRecord) → Run → Prop
  | halted {e} (hr : r.halted = some e) : StepTo r (.error e) r
  | drained (hr : r.halted = none) (hq : r.queue = []) : StepTo r (.ok none) r
  | refused {c rest e} (hr : r.halted = none) (hq : r.queue = c :: rest)
      (hb : r.blockFor c = .error e) : StepTo r (.error e) { r with halted := some e }
  | settled {c rest b s env r'} (hr : r.halted = none) (hq : r.queue = c :: rest)
      (hb : r.blockFor c = .ok b) (hs : b.signal c.environment = (s, env))
      (h : (r.entered c rest s).settle (c.signalled env) s = .ok r') :
      StepTo r (.ok (some (r.stepRecord c s))) r'
  | exceeded {c rest b s env e} (hr : r.halted = none) (hq : r.queue = c :: rest)
      (hb : r.blockFor c = .ok b) (hs : b.signal c.environment = (s, env))
      (h : (r.entered c rest s).settle (c.signalled env) s = .error e) :
      StepTo r (.error e) { r.entered c rest s with halted := some e }

theorem enter_eq {r : Run} {c rest b s env} (hs : b.signal c.environment = (s, env)) :
    r.enter c rest b =
      match (r.entered c rest s).settle (c.signalled env) s with
      | .error e => (.error e, r.entered c rest s)
      | .ok r' => (.ok (some (r.stepRecord c s)), r') := by
  simp only [enter, hs]
  rfl

theorem stepTo_step (r : Run) : StepTo r r.step.1 r.step.2 := by
  cases hr : r.halted with
  | some e => simpa [step, hr] using StepTo.halted hr
  | none =>
    cases hq : r.queue with
    | nil => simpa [step, advance, hr, hq] using StepTo.drained hr hq
    | cons c rest =>
      cases hb : r.blockFor c with
      | error e => simpa [step, advance, hr, hq, hb] using StepTo.refused hr hq hb
      | ok b =>
        rcases hs : b.signal c.environment with ⟨s, env⟩
        cases h : (r.entered c rest s).settle (c.signalled env) s with
        | error e =>
          simpa [step, advance, hr, hq, hb, enter_eq hs, h] using StepTo.exceeded hr hq hb hs h
        | ok r' =>
          simpa [step, advance, hr, hq, hb, enter_eq hs, h] using StepTo.settled hr hq hb hs h

/-- A step does one of the things listed, and nothing else. -/
theorem step_eq_iff {r r' : Run} {result} : r.step = (result, r') ↔ StepTo r result r' := by
  constructor
  · intro h
    have := stepTo_step r
    rwa [h] at this
  · intro h
    cases h with
    | halted hr => simp [step, hr]
    | drained hr hq => simp [step, advance, hr, hq]
    | refused hr hq hb => simp [step, advance, hr, hq, hb]
    | settled hr hq hb hs h => simp [step, advance, hr, hq, hb, enter_eq hs, h]
    | exceeded hr hq hb hs h => simp [step, advance, hr, hq, hb, enter_eq hs, h]

/-- A call returns nothing exactly when the run is over. -/
theorem step_eq_ok_none_iff {r : Run} : r.step.1 = .ok none ↔ r.halted = none ∧ r.queue = [] := by
  constructor
  · intro h
    rcases hstep : r.step with ⟨result, r'⟩
    rw [hstep] at h
    cases h
    cases step_eq_iff.1 hstep with
    | drained hr hq => exact ⟨hr, hq⟩
  · rintro ⟨hr, hq⟩
    rw [step_eq_iff.2 (.drained hr hq)]

/-! ## What becomes of a continuation -/

theorem children_map_id (c : Continuation) (first : Nat) (targets : List String) :
    (children c first targets).map Continuation.id = List.range' first targets.length := by
  induction targets generalizing first with
  | nil => rfl
  | cons t ts ih => simp [children, ih, List.range'_succ]

theorem length_children (c : Continuation) (first : Nat) (targets : List String) :
    (children c first targets).length = targets.length := by
  simpa using congrArg List.length (children_map_id c first targets)

theorem mem_children {c d : Continuation} {first : Nat} {targets : List String}
    (h : d ∈ children c first targets) : d.block ∈ targets := by
  induction targets generalizing first with
  | nil => simp [children] at h
  | cons t ts ih =>
    rcases List.mem_cons.1 h with rfl | h
    · exact List.mem_cons_self
    · exact List.mem_cons_of_mem _ (ih h)

/-- A fork either exceeds a limit or adds its children to the back of the queue. -/
theorem fork_eq (r : Run) (c : Continuation) (targets : List String) :
    r.fork c targets =
      match r.exceededLimit? (r.spawned + targets.length) with
      | some limit => .error (.continuationLimit limit)
      | none =>
        .ok (({ r with
          queue := r.queue ++ children c r.spawned targets,
          spawned := r.spawned + targets.length }.record
            [.forked c.id c.block (List.range' r.spawned targets.length)]).finish c
            (.forked (List.range' r.spawned targets.length))) := by
  rw [← children_map_id c r.spawned targets]
  rfl

/-- What becomes of a continuation touches neither the graph nor the settings, makes no
further signal and does not stop the run. -/
theorem settle_frame {r r' : Run} {c : Continuation} {s : Signal} (h : r.settle c s = .ok r') :
    r'.graph = r.graph ∧ r'.config = r.config ∧ r'.halted = r.halted ∧ r'.steps = r.steps := by
  cases s with
  | terminate => cases h; exact ⟨rfl, rfl, rfl, rfl⟩
  | next target => cases h; exact ⟨rfl, rfl, rfl, rfl⟩
  | fault f => cases h; exact ⟨rfl, rfl, rfl, rfl⟩
  | fork targets =>
    simp only [settle, fork_eq] at h
    split at h
    · cases h
    · cases h; exact ⟨rfl, rfl, rfl, rfl⟩

/-- Only a fork can exceed a limit. -/
theorem settle_error {r : Run} {c : Continuation} {s : Signal} {e} (h : r.settle c s = .error e) :
    ∃ targets limit, s = .fork targets ∧ e = .continuationLimit limit ∧
      r.exceededLimit? (r.spawned + targets.length) = some limit := by
  cases s with
  | terminate => cases h
  | next target => cases h
  | fault f => cases h
  | fork targets =>
    simp only [settle, fork_eq] at h
    split at h
    next limit hl => cases h; exact ⟨targets, limit, rfl, rfl, hl⟩
    next => cases h

/-- What settling the continuation `c` leaves: it goes on at the front of the queue, or it ends
with an outcome and leaves a child for each target at the back. -/
inductive Settled (r : Run) (c : Continuation) (s : Signal) (r' : Run) : Prop
  | goesOn {target} (hs : s = .next target)
      (hq : r'.queue = { c with block := target, previous := some c.block } :: r.queue)
      (ho : r'.outcomes = r.outcomes) (hn : r'.spawned = r.spawned)
  | ends {status} (hs : c.status? r.spawned s = some status)
      (hq : r'.queue = r.queue ++ children c r.spawned s.targets)
      (ho : r'.outcomes = r.outcomes.push (c.outcome status))
      (hn : r'.spawned = r.spawned + s.targets.length)
      (hl : r.spawned ≤ maxSpawned → r'.spawned ≤ maxSpawned)

theorem settled_of_settle {r r' : Run} {c : Continuation} {s : Signal} (h : r.settle c s = .ok r') :
    Settled r c s r' := by
  cases s with
  | next target => cases h; exact .goesOn rfl rfl rfl rfl
  | terminate => cases h; exact .ends rfl (List.append_nil _).symm rfl rfl id
  | fault f => cases h; exact .ends rfl (List.append_nil _).symm rfl rfl id
  | fork targets =>
    simp only [settle, fork_eq] at h
    split at h
    · cases h
    next hlimit =>
      cases h
      simp only [exceededLimit?, Option.or_eq_none_iff, ite_eq_right_iff, reduceCtorEq, imp_false,
        Nat.not_lt] at hlimit
      exact .ends rfl rfl rfl rfl fun _ => hlimit.2

/-- An outcome stays as it is. -/
theorem Settled.mem_outcomes {r r' : Run} {c : Continuation} {s : Signal} (h : Settled r c s r')
    {o : Outcome} (ho : o ∈ r.outcomes) : o ∈ r'.outcomes := by
  cases h with
  | goesOn _ _ hout =>
    rw [hout]
    exact ho
  | ends _ _ hout =>
    rw [hout]
    exact Array.mem_push_of_mem _ ho

/-- What can keep a continuation from its block: the budget, a missing block, or that the block
fans out. -/
theorem blockFor_error {r : Run} {c : Continuation} {e : RunError} (h : r.blockFor c = .error e) :
    (∃ budget, e = .stepBudget budget c.block c.id c.environment) ∨ e = .missingBlock c.block ∨
      e = .fanOut c.block c.id c.environment := by
  unfold blockFor at h
  split at h
  next budget _ => cases h; exact .inl ⟨budget, rfl⟩
  next =>
    split at h
    · cases h; exact .inr (.inl rfl)
    next =>
      split at h
      · cases h; exact .inr (.inr rfl)
      · cases h

/-- No step changes the graph or the settings. -/
theorem StepTo.frame {r r' : Run} {result} (h : StepTo r result r') :
    r'.graph = r.graph ∧ r'.config = r.config := by
  cases h with
  | halted | drained | refused | exceeded => exact ⟨rfl, rfl⟩
  | settled _ _ _ _ h =>
    obtain ⟨hg, hc, -, -⟩ := settle_frame h
    exact ⟨hg, hc⟩

/-- A run stands still with an error exactly if its last call returned that error. -/
theorem StepTo.halted_iff {r r' : Run} {result} (h : StepTo r result r') {e : RunError} :
    r'.halted = some e ↔ result = .error e := by
  cases h with
  | halted hr => simp [hr]
  | drained hr => simp [hr]
  | refused => simp
  | exceeded => simp
  | settled hr _ _ _ h => simp [(settle_frame h).2.2.1, hr]

/-! ## Calls -/

/-- The run after `k` calls of `step`. -/
def after (r : Run) (k : Nat) : Run := (fun r => r.step.2)^[k] r

/-- What the next call returns after `k` others. -/
def call (r : Run) (k : Nat) : Except RunError (Option StepRecord) := (r.after k).step.1

theorem after_succ (r : Run) (k : Nat) : r.after (k + 1) = (r.after k).step.2 := by
  simp only [after, Function.iterate_succ_apply']

theorem stepTo_after (r : Run) (k : Nat) : StepTo (r.after k) (r.call k) (r.after (k + 1)) := by
  rw [after_succ]
  exact stepTo_step (r.after k)

theorem after_add (r : Run) (j k : Nat) : r.after (j + k) = (r.after j).after k := by
  rw [Nat.add_comm]
  exact Function.iterate_add_apply _ k j r

/-- What every step keeps, any number of calls keeps. -/
theorem after_induction {P : Run → Prop} {r : Run} (h : P r)
    (hstep : ∀ {r r' result}, P r → StepTo r result r' → P r') (k : Nat) : P (r.after k) := by
  induction k with
  | zero => exact h
  | succ k ih => exact hstep ih (stepTo_after r k)

theorem halted_after_succ_iff {r : Run} {k : Nat} {e : RunError} :
    (r.after (k + 1)).halted = some e ↔ r.call k = .error e :=
  (stepTo_after r k).halted_iff

/-- Calls change nothing after a call has failed. -/
theorem after_of_halted {r : Run} {e : RunError} (h : r.halted = some e) (k : Nat) : r.after k = r := by
  refine after_induction (P := fun r' => r' = r) rfl ?_ k
  rintro _ r' result rfl hto
  cases hto with
  | halted => rfl
  | drained hr | refused hr | settled hr | exceeded hr => cases hr.symm.trans h

theorem after_of_failed {r : Run} {j n : Nat} {e : RunError} (h : r.call j = .error e) (hn : j < n) :
    r.after n = r.after (j + 1) := by
  obtain ⟨k, rfl⟩ := Nat.exists_eq_add_of_le (Nat.succ_le_of_lt hn)
  rw [after_add, after_of_halted (halted_after_succ_iff.2 h)]

theorem call_of_failed {r : Run} {j n : Nat} {e : RunError} (h : r.call j = .error e) (hn : j ≤ n) :
    r.call n = .error e := by
  rcases Nat.eq_or_lt_of_le hn with rfl | hn
  · exact h
  · rw [call, after_of_failed h hn, step_eq_iff.2 (.halted (halted_after_succ_iff.2 h))]

/-- A call that fails repeats the failure of a call that was made before the run stopped. -/
theorem exists_failure {r : Run} (hr : r.halted = none) {n : Nat} {e : RunError}
    (h : r.call n = .error e) : ∃ j ≤ n, (r.after j).halted = none ∧ r.call j = .error e := by
  induction n with
  | zero => exact ⟨0, Nat.le_refl 0, hr, h⟩
  | succ n ih =>
    cases hn : (r.after (n + 1)).halted with
    | none => exact ⟨n + 1, Nat.le_refl _, hn, h⟩
    | some e' =>
      have hsame : r.call (n + 1) = .error e' := by
        rw [call, step_eq_iff.2 (.halted hn)]
      obtain rfl : e' = e := Except.error.inj (hsame.symm.trans h)
      obtain ⟨j, hj, hfail⟩ := ih (halted_after_succ_iff.1 hn)
      exact ⟨j, Nat.le_succ_of_le hj, hfail⟩

/-! ## Runs that differ in their settings -/

/-- A change of a run, of its settings say, that leaves alone what a step moves. -/
structure Incidental (f : Run → Run) : Prop where
  queue : ∀ r, (f r).queue = r.queue
  halted : ∀ r, (f r).halted = r.halted
  steps : ∀ r, (f r).steps = r.steps
  entered : ∀ r c rest s, (f r).entered c rest s = f (r.entered c rest s)
  stopped : ∀ r e, { f r with halted := some e } = f { r with halted := some e }

/-- A step does the same after the change if the front continuation may enter the same block and
the same becomes of it. -/
theorem Incidental.step_eq {f : Run → Run} (hf : Incidental f) {r : Run}
    (hblock : ∀ {c rest}, r.queue = c :: rest → (f r).blockFor c = r.blockFor c)
    (hsettle : ∀ {c rest b s env}, r.queue = c :: rest → r.blockFor c = .ok b →
      b.signal c.environment = (s, env) →
      (f (r.entered c rest s)).settle (c.signalled env) s =
        ((r.entered c rest s).settle (c.signalled env) s).map f) :
    (f r).step = (r.step.1, f r.step.2) := by
  have hto := stepTo_step r
  generalize r.step = result at hto ⊢
  obtain ⟨result, r'⟩ := result
  rw [step_eq_iff]
  have hhalted := hf.halted r
  have hqueue := hf.queue r
  cases hto with
  | halted hr => exact .halted (hhalted.trans hr)
  | drained hr hq => exact .drained (hhalted.trans hr) (hqueue.trans hq)
  | refused hr hq hb =>
    rw [← hf.stopped]
    exact .refused (hhalted.trans hr) (hqueue.trans hq) ((hblock hq).trans hb)
  | @settled c rest b s env _ hr hq hb hs h =>
    have hset : ((f r).entered c rest s).settle (c.signalled env) s = .ok (f r') := by
      rw [hf.entered, hsettle hq hb hs, h]
      rfl
    have hrecord : (f r).stepRecord c s = r.stepRecord c s := by
      simp only [stepRecord, hf.steps]
    rw [← hrecord]
    exact .settled (hhalted.trans hr) (hqueue.trans hq) ((hblock hq).trans hb) hs hset
  | @exceeded c rest b s env e hr hq hb hs h =>
    have hset : ((f r).entered c rest s).settle (c.signalled env) s = .error e := by
      rw [hf.entered, hsettle hq hb hs, h]
      rfl
    rw [← hf.stopped, ← hf.entered]
    exact .exceeded (hhalted.trans hr) (hqueue.trans hq) ((hblock hq).trans hb) hs hset

/-- The same becomes of a continuation after a change that commutes with everything that is done to a
run, if a fork exceeds the same limit. -/
theorem settle_map {f : Run → Run}
    (hplace : ∀ r queue spawned, { f r with queue, spawned } = f { r with queue, spawned })
    (hrecord : ∀ r events, (f r).record events = f (r.record events))
    (hfinish : ∀ r c status, (f r).finish c status = f (r.finish c status))
    {r : Run} {c : Continuation} {s : Signal}
    (hlimit : ∀ targets, s = .fork targets →
      (f r).exceededLimit? (r.spawned + targets.length) = r.exceededLimit? (r.spawned + targets.length)) :
    (f r).settle c s = (r.settle c s).map f := by
  have hqueue : (f r).queue = r.queue := (congrArg Run.queue (hplace r r.queue r.spawned)).symm
  have hspawned : (f r).spawned = r.spawned := (congrArg Run.spawned (hplace r r.queue r.spawned)).symm
  cases s with
  | terminate | fault => exact congrArg Except.ok (hfinish _ _ _)
  | next target =>
    have hmoved := hplace r ({ c with block := target, previous := some c.block } :: r.queue) r.spawned
    simp only [settle, Except.map, ← hmoved, hqueue, hspawned]
  | fork targets =>
    simp only [settle, fork_eq, hqueue, hspawned, hlimit targets rfl, hplace, hrecord, hfinish]
    split <;> rfl

/-- A change that each of the calls before commutes with is a change of the state after them. -/
theorem after_map {f : Run → Run} {r : Run} {n : Nat}
    (h : ∀ j < n, (f (r.after j)).step = ((r.after j).step.1, f (r.after j).step.2)) :
    (f r).after n = f (r.after n) := by
  induction n with
  | zero => rfl
  | succ n ih =>
    rw [after_succ, ih fun j hj => h j (Nat.lt_succ_of_lt hj), h n (Nat.lt_succ_self n), after_succ]

theorem call_map {f : Run → Run} {r : Run} {n : Nat}
    (h : ∀ j ≤ n, (f (r.after j)).step = ((r.after j).step.1, f (r.after j).step.2)) :
    (f r).call n = r.call n := by
  rw [call, after_map fun j hj => h j (Nat.le_of_lt hj), h n (Nat.le_refl n), call]

/-- After `n` calls two runs are in the same state, settings and trace apart, and the next call
answers the same. -/
structure Coincide (r r' : Run) (n : Nat) : Prop where
  call : r.call n = r'.call n
  queue : (r.after n).queue = (r'.after n).queue
  outcomes : (r.after n).outcomes = (r'.after n).outcomes
  spawned : (r.after n).spawned = (r'.after n).spawned
  steps : (r.after n).steps = (r'.after n).steps
  halted : (r.after n).halted = (r'.after n).halted

/-- A run goes on as before after a change that every call commutes with. -/
theorem Incidental.coincide {f : Run → Run} (hf : Incidental f)
    (houtcomes : ∀ r, (f r).outcomes = r.outcomes) (hspawned : ∀ r, (f r).spawned = r.spawned)
    {r : Run} {n : Nat}
    (h : ∀ j, (f (r.after j)).step = ((r.after j).step.1, f (r.after j).step.2)) :
    Coincide r (f r) n := by
  have hafter : (f r).after n = f (r.after n) := after_map fun j _ => h j
  refine ⟨(call_map fun j _ => h j).symm, ?_, ?_, ?_, ?_, ?_⟩
  · rw [hafter, hf.queue]
  · rw [hafter, houtcomes]
  · rw [hafter, hspawned]
  · rw [hafter, hf.steps]
  · rw [hafter, hf.halted]

/-! ## Runs -/

/-- One step that was taken. -/
def Next (r r' : Run) : Prop := ∃ record, r.step = (.ok (some record), r')

/-- Any number of steps that were taken. -/
def Reaches : Run → Run → Prop := Relation.ReflTransGen Next

/-- Running to the end comes to an end, with this result. -/
def Returns (r : Run) (result : Except RunError Report) : Prop :=
  ∃ limit, r.finishWithin limit = some result

theorem finishWithin_succ (r : Run) (limit : Nat) :
    r.finishWithin (limit + 1) =
      match r.step with
      | (.error e, _) => some (.error e)
      | (.ok none, r') => some (.ok r'.report)
      | (.ok (some _), r') => r'.finishWithin limit := rfl

/-- A report is the report of a state that calls lead to. -/
theorem Returns.exists_after {r : Run} {report : Report} (h : r.Returns (.ok report)) :
    ∃ n, report = (r.after n).report := by
  obtain ⟨limit, h⟩ := h
  induction limit generalizing r with
  | zero => cases h
  | succ limit ih =>
    rw [finishWithin_succ] at h
    split at h
    · cases h
    next r' hstep =>
      cases h
      exact ⟨1, by rw [after_succ]; exact congrArg (fun p => p.2.report) hstep.symm⟩
    next record r' hstep =>
      obtain ⟨n, rfl⟩ := ih h
      refine ⟨n + 1, ?_⟩
      rw [Nat.add_comm, after_add]
      exact congrArg (fun p => (p.2.after n).report) hstep.symm

/-- A run returns what the next state of it returns. -/
theorem Next.returns_iff {r r' : Run} (h : Next r r') {result} :
    r.Returns result ↔ r'.Returns result := by
  obtain ⟨record, h⟩ := h
  constructor
  · rintro ⟨limit, hl⟩
    cases limit with
    | zero => cases hl
    | succ limit =>
      rw [finishWithin_succ, h] at hl
      exact ⟨limit, hl⟩
  · rintro ⟨limit, hl⟩
    exact ⟨limit + 1, by rw [finishWithin_succ, h]; exact hl⟩

theorem Reaches.returns_iff {r r' : Run} (h : Reaches r r') {result} :
    r.Returns result ↔ r'.Returns result := by
  induction h with
  | refl => exact Iff.rfl
  | tail _ h ih => exact ih.trans h.returns_iff

theorem finishWithin_succ_of_some {r : Run} {limit : Nat} {result}
    (h : r.finishWithin limit = some result) : r.finishWithin (limit + 1) = some result := by
  induction limit generalizing r with
  | zero => cases h
  | succ limit ih =>
    rw [finishWithin_succ] at h ⊢
    split at h
    · exact h
    · exact h
    · exact ih h

theorem finishWithin_mono {r : Run} {m n : Nat} {result} (hmn : m ≤ n)
    (h : r.finishWithin m = some result) : r.finishWithin n = some result := by
  induction hmn with
  | refl => exact h
  | step _ ih => exact finishWithin_succ_of_some ih

/-- A run has at most one result. -/
theorem Returns.unique {r : Run} {x y} (hx : r.Returns x) (hy : r.Returns y) : x = y := by
  obtain ⟨m, hm⟩ := hx
  obtain ⟨n, hn⟩ := hy
  have h1 := finishWithin_mono (Nat.le_max_left m n) hm
  have h2 := finishWithin_mono (Nat.le_max_right m n) hn
  exact Option.some.inj (h1.symm.trans h2)

end Run

end Flowchart
