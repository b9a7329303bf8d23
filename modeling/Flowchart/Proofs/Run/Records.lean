/-
The steps that a run took, in the order in which its calls returned them. A call either takes
no step, and then it leaves the outcomes alone and queues nothing, or the front continuation
takes one (`Advances`); what is kept by both is kept by every number of calls
(`records_induction`). A step belongs to the front continuation alone: it is the last one of
that continuation so far, and the steps of every other continuation stay as they were.
-/
import Flowchart.Proofs.Run.Bookkeeping

namespace Flowchart

namespace StepRecord

/-- The steps of one continuation, in order. -/
def stepsOf (past : List StepRecord) (id : Nat) : List StepRecord :=
  past.filter (·.continuation = id)

theorem stepsOf_append (past : List StepRecord) (x : StepRecord) (id : Nat) :
    stepsOf (past ++ [x]) id = stepsOf past id ++ if x.continuation = id then [x] else [] := by
  by_cases h : x.continuation = id <;> simp [stepsOf, h]

theorem stepsOf_eq_nil {past : List StepRecord} {id : Nat} (h : ∀ x ∈ past, x.continuation < id) :
    stepsOf past id = [] := by
  refine List.filter_eq_nil_iff.2 fun x hx => ?_
  have hlt := h x hx
  simp only [decide_eq_true_eq]
  omega

/-- The step is the one that ended a continuation with this outcome. -/
def EndsIn (x : StepRecord) (o : Outcome) : Prop :=
  x.continuation = o.id ∧ x.block = o.lastBlock ∧
    ∃ (c : Continuation) (first : Nat), c.status? first x.result = some o.status

end StepRecord

namespace Run

open StepRecord (stepsOf stepsOf_append stepsOf_eq_nil)

/-- The step that a call returned, if it returned one. -/
def returned : Except RunError (Option StepRecord) → List StepRecord
  | .ok (some x) => [x]
  | .ok none | .error _ => []

/-- The steps that the first `n` calls returned, in order. -/
def records (r : Run) : (n : Nat) → List StepRecord
  | 0 => []
  | n + 1 => r.records n ++ returned (r.call n)

theorem records_of_failed {r : Run} {j n : Nat} {e : RunError} (h : r.call j = .error e)
    (hn : j ≤ n) : r.records n = r.records j := by
  induction hn with
  | refl => rfl
  | step hn ih => rw [records, call_of_failed h hn, ih, returned, List.append_nil]

theorem exists_call_of_mem_records {r : Run} {n : Nat} {x : StepRecord} (h : x ∈ r.records n) :
    ∃ j < n, r.call j = .ok (some x) := by
  induction n with
  | zero => cases h
  | succ n ih =>
    rcases List.mem_append.1 h with h | h
    · obtain ⟨j, hj, hcall⟩ := ih h
      exact ⟨j, Nat.lt_succ_of_lt hj, hcall⟩
    · refine ⟨n, Nat.lt_succ_self n, ?_⟩
      unfold returned at h
      split at h
      next y hcall => rw [hcall, List.mem_singleton.1 h]
      next => cases h
      next => cases h

/-- The front continuation `c` of `r` takes a step, which leaves `r'`; the steps before it are
the ones of `past`. -/
structure Advances (r : Run) (past : List StepRecord) (c : Continuation) (rest : List Continuation)
    (b : Block) (s : Signal) (env : Environment) (r' : Run) : Prop where
  numbered : r.Numbered
  past_lt : ∀ x ∈ past, x.continuation < r.spawned
  halted : r.halted = none
  queue : r.queue = c :: rest
  block : r.graph.get? c.block = some b
  signal : b.signal c.environment = (s, env)
  settled : Settled (r.entered c rest s) (c.signalled env) s r'
  graph : r'.graph = r.graph

/-! ## One step -/

section
variable (r : Run) (c : Continuation) (s : Signal) (past : List StepRecord)

@[simp] theorem stepRecord_step : (r.stepRecord c s).step = r.steps + 1 := rfl
@[simp] theorem stepRecord_continuation : (r.stepRecord c s).continuation = c.id := rfl
@[simp] theorem stepRecord_block : (r.stepRecord c s).block = c.block := rfl
@[simp] theorem stepRecord_previous : (r.stepRecord c s).previous = c.previous := rfl
@[simp] theorem stepRecord_result : (r.stepRecord c s).result = s := rfl

theorem stepsOf_front :
    stepsOf (past ++ [r.stepRecord c s]) c.id = stepsOf past c.id ++ [r.stepRecord c s] := by
  simp [stepsOf_append]

theorem stepsOf_other {id : Nat} (h : c.id ≠ id) :
    stepsOf (past ++ [r.stepRecord c s]) id = stepsOf past id := by
  simp [stepsOf_append, h]

end

namespace Advances

variable {r r' : Run} {past : List StepRecord} {c : Continuation} {rest : List Continuation}
  {b : Block} {s : Signal} {env : Environment}

theorem edge (h : Advances r past c rest b s env r') {t : String} (ht : t ∈ s.targets) :
    r.graph.Edge c.block t :=
  Graph.edge_of_signal h.block h.signal ht

/-- The continuations behind the front have other numbers. -/
theorem ne_of_mem_rest (h : Advances r past c rest b s env r') {d : Continuation} (hd : d ∈ rest) :
    c.id ≠ d.id := by
  obtain ⟨hid, hrest, -⟩ := h.numbered.front h.halted h.queue
  have hmem : d.id ∈ rest.map Continuation.id := List.mem_map_of_mem hd
  rw [hrest, List.mem_range'_1] at hmem
  omega

/-- The continuations that have ended have smaller numbers. -/
theorem lt_of_mem_outcomes (h : Advances r past c rest b s env r') {o : Outcome}
    (ho : o ∈ r.outcomes) : o.id < c.id := by
  obtain ⟨hid, -⟩ := h.numbered.front h.halted h.queue
  have hlt := h.numbered.id_lt ho
  omega

/-- Of everything that has taken a step so far, this one included, none has the number of a child. -/
theorem lt_of_mem_children (h : Advances r past c rest b s env r') {d : Continuation}
    (hd : d ∈ children (c.signalled env) r.spawned s.targets) :
    ∀ x ∈ past ++ [r.stepRecord c s], x.continuation < d.id := by
  obtain ⟨hid, -, hspawned⟩ := h.numbered.front h.halted h.queue
  have hle : r.spawned ≤ d.id := (List.mem_range'_1.1 (child_id hd)).1
  intro x hx
  rcases List.mem_append.1 hx with hx | hx
  · have hlt := h.past_lt x hx
    omega
  · obtain rfl := List.mem_singleton.1 hx
    have hcontinuation := stepRecord_continuation r c s
    omega

theorem outcomes_subset (h : Advances r past c rest b s env r') {o : Outcome} (ho : o ∈ r.outcomes) :
    o ∈ r'.outcomes :=
  h.settled.mem_outcomes ho

/-- A new outcome is the one of the front continuation. -/
theorem mem_outcomes (h : Advances r past c rest b s env r') {o : Outcome} (ho : o ∈ r'.outcomes) :
    o ∈ r.outcomes ∨ ∃ status, (c.signalled env).status? r.spawned s = some status ∧
      o = (c.signalled env).outcome status := by
  cases h.settled with
  | goesOn _ _ hout =>
    rw [hout] at ho
    exact .inl ho
  | ends hstatus _ hout =>
    rw [hout] at ho
    rcases Array.mem_push.1 ho with ho | rfl
    · exact .inl ho
    · exact .inr ⟨_, hstatus, rfl⟩

/-- What is queued after the step was behind the front, is the front continuation before its next
block, or is a child of it. -/
theorem mem_queue (h : Advances r past c rest b s env r') {d : Continuation} (hd : d ∈ r'.queue) :
    d ∈ rest ∨
    (∃ target, s = .next target ∧
      d = { c.signalled env with block := target, previous := some c.block }) ∨
    (d ∈ children (c.signalled env) r.spawned s.targets ∧ ∃ o ∈ r'.outcomes,
      o.id = c.id ∧ o.lastBlock = c.block ∧ d.id ∈ o.status.children) := by
  cases h.settled with
  | goesOn hs hq =>
    rw [hq] at hd
    rcases List.mem_cons.1 hd with rfl | hd
    · exact .inr (.inl ⟨_, hs, rfl⟩)
    · exact .inl hd
  | ends hstatus hq hout =>
    rw [hq] at hd
    rcases List.mem_append.1 hd with hd | hd
    · exact .inl hd
    · refine .inr (.inr ⟨hd, _, hout ▸ Array.mem_push_self, rfl, rfl, ?_⟩)
      have hid := child_id hd
      rw [← Continuation.children_of_status? hstatus] at hid
      exact hid

end Advances

/-! ## All steps -/

/-- A call that takes no step leaves the outcomes alone, queues nothing and numbers nothing. -/
theorem StepTo.idle {r r' : Run} {result} (h : StepTo r result r') (hresult : returned result = []) :
    r'.outcomes = r.outcomes ∧ r'.spawned = r.spawned ∧ ∀ c ∈ r'.queue, c ∈ r.queue := by
  cases h with
  | halted | drained | refused => exact ⟨rfl, rfl, fun _ hc => hc⟩
  | exceeded _ hq => exact ⟨rfl, rfl, fun _ hc => hq ▸ List.mem_cons_of_mem _ hc⟩
  | settled => cases hresult

/-- What holds at the start, and is kept by calls that take no step and by steps, holds after any
number of calls. -/
theorem records_induction {P : Run → List StepRecord → Prop} {g : Graph} {config : Config}
    (hstart : P (start g config) [])
    (hidle : ∀ {r r' past}, P r past → r'.graph = r.graph → r'.outcomes = r.outcomes →
      (∀ c ∈ r'.queue, c ∈ r.queue) → P r' past)
    (hstep : ∀ {r r' past c rest b s env}, P r past → Advances r past c rest b s env r' →
      P r' (past ++ [r.stepRecord c s])) (n : Nat) :
    P ((start g config).after n) ((start g config).records n) := by
  suffices h : P ((start g config).after n) ((start g config).records n) ∧
      ∀ x ∈ (start g config).records n, x.continuation < ((start g config).after n).spawned from h.1
  induction n with
  | zero => exact ⟨hstart, nofun⟩
  | succ n ih =>
    obtain ⟨hP, hlt⟩ := ih
    have hnumbered := numbered_after g config n
    have hto := stepTo_after (start g config) n
    rw [records]
    generalize (start g config).after (n + 1) = r' at hto ⊢
    generalize (start g config).call n = result at hto ⊢
    generalize (start g config).after n = r at *
    have hidle' : returned result = [] → P r' ((start g config).records n ++ returned result) ∧
        ∀ x ∈ (start g config).records n ++ returned result, x.continuation < r'.spawned := by
      intro hresult
      obtain ⟨hout, hspawned, hq⟩ := hto.idle hresult
      rw [hresult, List.append_nil, hspawned]
      exact ⟨hidle hP hto.frame.1 hout hq, hlt⟩
    cases hto with
    | halted | drained | refused | exceeded => exact hidle' rfl
    | @settled c rest b s env _ hr hq hb hs hset =>
      have hadvances : Advances r ((start g config).records n) c rest b s env r' :=
        ⟨hnumbered, hlt, hr, hq, get?_of_blockFor hb, hs, settled_of_settle hset, (settle_frame hset).1⟩
      refine ⟨hstep hP hadvances, fun x hx => ?_⟩
      have hle : r.spawned ≤ r'.spawned := by
        cases settled_of_settle hset with
        | goesOn _ _ _ hn => exact Nat.le_of_eq hn.symm
        | ends _ _ _ hn => exact hn ▸ Nat.le_add_right _ _
      obtain ⟨hid, -, hspawned⟩ := hnumbered.front hr hq
      rcases List.mem_append.1 hx with hx | hx
      · have hbefore := hlt x hx
        omega
      · obtain rfl := List.mem_singleton.1 hx
        have hcontinuation := stepRecord_continuation r c s
        omega

/-! ## What continuations say of their steps -/

/-- A continuation counts its steps. It goes on after a step that leads to one next block, and any
other step is its last one and gives it an outcome. -/
structure Counted (r : Run) (past : List StepRecord) : Prop where
  queued : ∀ c ∈ r.queue, c.steps = (stepsOf past c.id).length
  ended : ∀ o ∈ r.outcomes, o.steps = (stepsOf past o.id).length
  last : ∀ o ∈ r.outcomes, ∃ x ∈ (stepsOf past o.id).getLast?, x.EndsIn o
  ends : ∀ x ∈ past, (∃ target, x.result = .next target) ∨ ∃ o ∈ r.outcomes, x.EndsIn o

theorem Counted.step {r r' : Run} {past : List StepRecord} {c rest b s env} (h : r.Counted past)
    (ha : Advances r past c rest b s env r') : r'.Counted (past ++ [r.stepRecord c s]) := by
  have hfront : c.steps + 1 = (stepsOf (past ++ [r.stepRecord c s]) c.id).length := by
    rw [stepsOf_front, List.length_append, List.length_singleton,
      h.queued c (ha.queue ▸ List.mem_cons_self)]
  have hother : ∀ o ∈ r.outcomes,
      stepsOf (past ++ [r.stepRecord c s]) o.id = stepsOf past o.id := by
    intro o ho
    exact stepsOf_other r c s past (Nat.ne_of_gt (ha.lt_of_mem_outcomes ho))
  refine ⟨fun d hd => ?_, fun o ho => ?_, fun o ho => ?_, fun x hx => ?_⟩
  · rcases ha.mem_queue hd with hd | ⟨target, -, rfl⟩ | ⟨hd, -⟩
    · rw [stepsOf_other r c s past (ha.ne_of_mem_rest hd)]
      exact h.queued d (ha.queue ▸ List.mem_cons_of_mem c hd)
    · exact hfront
    · rw [(child_eq hd).2.2.1, stepsOf_eq_nil (ha.lt_of_mem_children hd)]
      rfl
  · rcases ha.mem_outcomes ho with ho | ⟨status, -, rfl⟩
    · rw [hother o ho]
      exact h.ended o ho
    · exact hfront
  · rcases ha.mem_outcomes ho with ho | ⟨status, hstatus, rfl⟩
    · rw [hother o ho]
      exact h.last o ho
    · refine ⟨r.stepRecord c s, ?_, rfl, rfl, _, _, hstatus⟩
      show _ ∈ (stepsOf (past ++ [r.stepRecord c s]) c.id).getLast?
      simp [stepsOf_front]
  · rcases List.mem_append.1 hx with hx | hx
    · refine (h.ends x hx).imp_right ?_
      intro ⟨o, ho, hends⟩
      exact ⟨o, ha.outcomes_subset ho, hends⟩
    · obtain rfl := List.mem_singleton.1 hx
      cases ha.settled with
      | goesOn hs => exact .inl ⟨_, hs⟩
      | ends hstatus _ hout => exact .inr ⟨_, hout ▸ Array.mem_push_self, rfl, rfl, _, _, hstatus⟩

theorem counted_start (g : Graph) (config : Config) : (start g config).Counted [] := by
  refine ⟨fun c hc => ?_, nofun, nofun, nofun⟩
  obtain rfl := List.mem_singleton.1 hc
  rfl

theorem counted_after (g : Graph) (config : Config) (n : Nat) :
    ((start g config).after n).Counted ((start g config).records n) := by
  refine records_induction (counted_start g config) (fun {r r' past} h _ hout hq => ?_) Counted.step n
  exact ⟨fun c hc => h.queued c (hq c hc), hout ▸ h.ended, hout ▸ h.last, hout ▸ h.ends⟩

/-- Each step is a signal of the block that it names. -/
def Signalled (g : Graph) (r : Run) (past : List StepRecord) : Prop :=
  r.graph = g ∧ ∀ x ∈ past, ∃ b env env', g.get? x.block = some b ∧ b.signal env = (x.result, env')

theorem Signalled.step {g : Graph} {r r' : Run} {past : List StepRecord} {c rest b s env}
    (h : Signalled g r past) (ha : Advances r past c rest b s env r') :
    Signalled g r' (past ++ [r.stepRecord c s]) := by
  obtain ⟨hgraph, hpast⟩ := h
  refine ⟨ha.graph.trans hgraph, fun x hx => ?_⟩
  rcases List.mem_append.1 hx with hx | hx
  · exact hpast x hx
  · obtain rfl := List.mem_singleton.1 hx
    exact ⟨b, c.environment, env, hgraph ▸ ha.block, ha.signal⟩

theorem signalled_after (g : Graph) (config : Config) (n : Nat) :
    Signalled g ((start g config).after n) ((start g config).records n) :=
  records_induction ⟨rfl, nofun⟩ (fun h hgraph _ _ => ⟨hgraph.trans h.1, h.2⟩) Signalled.step n

/-- The steps are numbered from 1 on, without gaps, and all of them are counted. A fork that exceeds a
limit is counted as well. -/
theorem steps_after (g : Graph) (config : Config) (n : Nat) :
    ((start g config).records n).map StepRecord.step =
        List.range' 1 ((start g config).records n).length ∧
      ((start g config).after n).steps =
        ((start g config).records n).length + ((start g config).after n).lost := by
  induction n with
  | zero => exact ⟨rfl, rfl⟩
  | succ n ih =>
    obtain ⟨hnumbers, hsteps⟩ := ih
    have hto := stepTo_after (start g config) n
    rw [records]
    generalize (start g config).after (n + 1) = r' at hto ⊢
    generalize (start g config).call n = result at hto ⊢
    generalize (start g config).after n = r at *
    cases hto with
    | halted | drained =>
      rw [returned, List.append_nil]
      exact ⟨hnumbers, hsteps⟩
    | refused hr _ hb =>
      rw [returned, List.append_nil, lost_of_refused hb, hsteps, lost_of_halted hr]
      exact ⟨hnumbers, rfl⟩
    | exceeded hr _ _ _ hset =>
      obtain ⟨_, _, -, rfl, -⟩ := settle_error hset
      rw [returned, List.append_nil]
      refine ⟨hnumbers, ?_⟩
      rw [lost_of_halted hr] at hsteps
      show r.steps + 1 = ((start g config).records n).length + 1
      omega
    | settled hr _ _ _ hset =>
      obtain ⟨-, -, hhalted, hcount⟩ := settle_frame hset
      rw [lost_of_halted hr] at hsteps
      rw [returned, List.map_append, hnumbers, List.length_append, List.length_singleton,
        List.range'_concat, hcount, lost_of_halted (hhalted.trans hr), entered_steps]
      simp [hsteps, Nat.add_comm]

end Run

end Flowchart
