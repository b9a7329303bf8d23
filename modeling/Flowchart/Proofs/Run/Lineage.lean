/-
The environment of a continuation comes from its lineage: the steps that it took itself, after
those that its ancestors took up to the forks (`Lineage`). What these steps assigned is what the
environment holds, and nothing else has an effect on it (`environment_follows_lineage`).

The argument goes step by step. A step belongs to the front continuation, which has no outcome
yet, so it is in no other lineage (`Lineage.extend`); and a child starts with the lineage and
the environment that its parent had at the fork (`Traced.step`).
-/
import Flowchart.Proofs.Environment
import Flowchart.Proofs.Run.Bookkeeping

namespace Flowchart

/-- A step that was taken, with the environment in which its block was entered. -/
structure Taken where
  record : StepRecord
  environment : Environment

/-- What the step stored, if it was an assignment that did not fault: the value of the
expression before the step, as a value of the type that the block assigns. -/
def Taken.write? (g : Graph) (t : Taken) : Option (String × Value) :=
  match (g.get? t.record.block).map Block.operation with
  | some (.assign name type expression _) =>
    if t.record.result.isFault then none
    else (expression.evaluate t.environment.get?).toOption.map fun v => (name, v.coerce type)
  | _ => none

/-- What the steps stored, in order. -/
def Taken.writes (g : Graph) (steps : List Taken) : List (String × Value) :=
  steps.filterMap (Taken.write? g)

/-- The steps of one continuation. -/
def Taken.stepsOf (past : List Taken) (id : Nat) : List Taken :=
  past.filter (·.record.continuation = id)

/-- The environment that a continuation ended with, unless it forked. -/
def Status.environment? : Status → Option Environment
  | completed environment => some environment
  | forked _ => none
  | failed failure => some failure.environment

/-- The steps of a continuation, after those of its ancestors. -/
inductive Lineage (outcomes : Array Outcome) (past : List Taken) :
    (id : Nat) → (parent : Option Nat) → List Taken → Prop
  | root {id} : Lineage outcomes past id none (Taken.stepsOf past id)
  | child {id o steps} (ho : o ∈ outcomes) (h : Lineage outcomes past o.id o.parent steps) :
      Lineage outcomes past id (some o.id) (steps ++ Taken.stepsOf past id)

namespace Run

/-- The step that the next call takes, if it takes one. -/
def taken? (r : Run) : Option Taken :=
  match r.queue, r.step.1 with
  | c :: _, .ok (some record) => some { record, environment := c.environment }
  | _, _ => none

/-- The steps that the first `n` calls took. -/
def past (r : Run) : (n : Nat) → List Taken
  | 0 => []
  | n + 1 => r.past n ++ (r.after n).taken?.toList

end Run

/-- The environment holds what the lineage of a continuation stored, and it has no other lineage. -/
def Follows (g : Graph) (outcomes : Array Outcome) (past : List Taken) (id : Nat)
    (parent : Option Nat) (env : Environment) : Prop :=
  ∃ steps, (∀ l, Lineage outcomes past id parent l ↔ l = steps) ∧ env.Stores (Taken.writes g steps)

/-! ## One step -/

/-- A block adds to the environment what its step stored. -/
theorem Block.stores_signal {g : Graph} {b : Block} {env env' : Environment} {s : Signal}
    {ws : List (String × Value)} (h : env.Stores ws) (hs : b.signal env = (s, env')) {t : Taken}
    (hb : g.get? t.record.block = some b) (hresult : t.record.result = s)
    (henv : t.environment = env) : env'.Stores (ws ++ (t.write? g).toList) := by
  cases Block.signal_eq_iff.1 hs with
  | start | undecided | decided => simpa [Taken.write?, hb] using h
  | unevaluated | conflict => simpa [Taken.write?, hb, hresult, Signal.isFault] using h
  | @assigned _ name type expression targets v _ _ hv ha =>
    have hok : t.record.result.isFault = false := by
      rw [hresult]
      cases hf : Signal.forward targets with
      | fault f => exact absurd hf (Signal.forward_ne_fault targets f)
      | terminate | next | fork => rfl
    have hwrite : t.write? g = some (name, v.coerce type) := by
      simp [Taken.write?, hb, hok, henv, hv, Except.toOption]
    rw [hwrite]
    exact h.assign ha

theorem Taken.writes_append (g : Graph) (steps : List Taken) (t : Taken) :
    writes g (steps ++ [t]) = writes g steps ++ (t.write? g).toList := by
  rw [writes, List.filterMap_append, List.filterMap_cons]
  cases t.write? g <;> rfl

/-- A step at the end belongs to one continuation. -/
theorem Taken.stepsOf_append (past : List Taken) (t : Taken) (id : Nat) :
    stepsOf (past ++ [t]) id = stepsOf past id ++ if t.record.continuation = id then [t] else [] := by
  by_cases h : t.record.continuation = id <;> simp [stepsOf, h]

/-- A step of a continuation without an outcome adds to its own lineage and to no other. -/
theorem Lineage.extend {outcomes outcomes' : Array Outcome} {past : List Taken} {t : Taken}
    (hsub : ∀ o ∈ outcomes, o ∈ outcomes') (hne : ∀ o ∈ outcomes, t.record.continuation ≠ o.id)
    {id : Nat} {parent : Option Nat} {steps : List Taken} (h : Lineage outcomes past id parent steps) :
    Lineage outcomes' (past ++ [t]) id parent
      (steps ++ if t.record.continuation = id then [t] else []) := by
  induction h with
  | @root id =>
    rw [← Taken.stepsOf_append]
    exact .root
  | @child id o steps ho _ ih =>
    rw [if_neg (hne o ho), List.append_nil] at ih
    rw [List.append_assoc, ← Taken.stepsOf_append]
    exact .child (hsub o ho) ih

/-- With distinct numbers a continuation has one lineage. -/
theorem Lineage.unique {outcomes : Array Outcome} {past : List Taken}
    (hinj : ∀ o ∈ outcomes, ∀ o' ∈ outcomes, o.id = o'.id → o = o') {id : Nat} {parent : Option Nat}
    {l l' : List Taken} (h : Lineage outcomes past id parent l)
    (h' : Lineage outcomes past id parent l') : l = l' := by
  induction h generalizing l' with
  | root =>
    cases h'
    rfl
  | @child id o steps ho _ ih =>
    generalize hp : some o.id = p at h'
    cases h' with
    | root => cases hp
    | @child _ o' steps' ho' h' =>
      obtain rfl := hinj o ho o' ho' (Option.some.inj hp)
      rw [ih h']

namespace Run

theorem taken?_of_settled {r r' : Run} {c rest b s env} (hr : r.halted = none)
    (hq : r.queue = c :: rest) (hb : r.blockFor c = .ok b) (hs : b.signal c.environment = (s, env))
    (h : (r.entered c rest s).settle (c.signalled env) s = .ok r') :
    r.taken? = some { record := r.stepRecord c s, environment := c.environment } := by
  simp [taken?, hq, step_eq_iff.2 (.settled hr hq hb hs h)]

theorem taken?_of_ne {r : Run} (h : ∀ record, r.step.1 ≠ .ok (some record)) : r.taken? = none := by
  unfold taken?
  split
  next hstep => exact absurd hstep (h _)
  next => rfl

/-! ## What a step leaves as it is -/

/-- An outcome stays as it is. -/
theorem StepTo.mem_outcomes {r r' : Run} {result} (h : StepTo r result r') {o : Outcome}
    (ho : o ∈ r.outcomes) : o ∈ r'.outcomes := by
  cases h with
  | halted | drained | refused | exceeded => exact ho
  | settled _ _ _ _ h => exact (settled_of_settle h).mem_outcomes ho

/-- Behind the front of the queue every continuation stays as it is. -/
theorem StepTo.mem_queue {r r' : Run} {result} (h : StepTo r result r') {c : Continuation}
    (hc : c ∈ r.queue) : c ∈ r'.queue ∨ r.queue.head? = some c := by
  have hbehind : ∀ {d rest}, r.queue = d :: rest → (c ∈ rest → c ∈ r'.queue) →
      c ∈ r'.queue ∨ r.queue.head? = some c := by
    intro d rest hq hin
    rw [hq] at hc
    rcases List.mem_cons.1 hc with rfl | hc
    · exact .inr (by rw [hq]; rfl)
    · exact .inl (hin hc)
  cases h with
  | halted | drained | refused => exact .inl hc
  | exceeded _ hq => exact hbehind hq id
  | settled _ hq _ _ h =>
    refine hbehind hq fun hc => ?_
    cases settled_of_settle h with
    | goesOn _ hq' =>
      rw [hq']
      exact List.mem_cons_of_mem _ hc
    | ends _ hq' =>
      rw [hq']
      exact List.mem_append_left _ hc

theorem environment_of_status? {c : Continuation} {first : Nat} {s : Signal} {status : Status}
    (h : c.status? first s = some status) : ∀ env ∈ status.environment?, env = c.environment := by
  rintro env henv
  cases s with
  | terminate | fault => cases h; cases henv; rfl
  | fork => cases h; cases henv
  | next => cases h

/-! ## All steps -/

/-- The environment holds what a lineage of the continuation stored. -/
def Explained (r : Run) (past : List Taken) (id : Nat) (parent : Option Nat) (env : Environment) :
    Prop :=
  ∃ steps, Lineage r.outcomes past id parent steps ∧ env.Stores (Taken.writes r.graph steps)

/-- The environments of what is queued and of what has ended are explained by the past. -/
structure Traced (r : Run) (past : List Taken) : Prop where
  numbered : r.Numbered
  taken : ∀ t ∈ past, t.record.continuation < r.spawned
  queued : ∀ c ∈ r.queue, r.Explained past c.id c.parent c.environment
  ended : ∀ o ∈ r.outcomes, ∀ env ∈ o.status.environment?, r.Explained past o.id o.parent env

theorem traced_start (g : Graph) (config : Config) : (start g config).Traced [] := by
  refine ⟨numbered_start g config, by simp, fun c hc => ?_, by simp [start]⟩
  obtain rfl := List.mem_singleton.1 hc
  exact ⟨_, .root, Environment.stores_empty⟩

section
variable {r r' : Run} {past : List Taken} {t : Taken}

/-- A step of the front continuation adds to its own lineage and to no other. -/
theorem Numbered.extend_lineage (h : r.Numbered) (hsub : ∀ o ∈ r.outcomes, o ∈ r'.outcomes)
    (ht : t.record.continuation = r.outcomes.size) {id : Nat} {parent : Option Nat} {l : List Taken}
    (hl : Lineage r.outcomes past id parent l) :
    Lineage r'.outcomes (past ++ [t]) id parent (l ++ if r.outcomes.size = id then [t] else []) := by
  rw [← ht]
  refine hl.extend hsub fun o ho => ?_
  have hlt := h.id_lt ho
  omega

/-- What the front continuation does explains nothing about another one. -/
theorem Explained.other {id : Nat} {parent : Option Nat} {env : Environment}
    (he : r.Explained past id parent env) (h : r.Numbered) (hgraph : r'.graph = r.graph)
    (hsub : ∀ o ∈ r.outcomes, o ∈ r'.outcomes) (ht : t.record.continuation = r.outcomes.size)
    (hne : r.outcomes.size ≠ id) : r'.Explained (past ++ [t]) id parent env := by
  obtain ⟨l, hl, hstores⟩ := he
  have hl' := h.extend_lineage hsub ht hl
  rw [if_neg hne, List.append_nil] at hl'
  exact ⟨l, hl', hgraph ▸ hstores⟩

/-- A child has the lineage and the environment of its parent at the fork. -/
theorem Explained.child {o : Outcome} (ho : o ∈ r.outcomes) {env : Environment}
    (he : r.Explained past o.id o.parent env) {id : Nat}
    (hid : ∀ t ∈ past, t.record.continuation < id) : r.Explained past id (some o.id) env := by
  obtain ⟨l, hl, hstores⟩ := he
  have hsteps : Taken.stepsOf past id = [] := by
    refine List.filter_eq_nil_iff.2 fun t ht => ?_
    have hlt := hid t ht
    simp only [decide_eq_true_eq]
    omega
  have hchild : Lineage r.outcomes past id (some o.id) _ := .child ho hl
  rw [hsteps, List.append_nil] at hchild
  exact ⟨l, hchild, hstores⟩

/-- The step of the front continuation explains its environment, and those of its children. -/
theorem Traced.settled (h : r.Traced past) {c rest b s env} (hr : r.halted = none)
    (hq : r.queue = c :: rest) (hb : r.blockFor c = .ok b) (hs : b.signal c.environment = (s, env))
    (hset : (r.entered c rest s).settle (c.signalled env) s = .ok r')
    (ht : t = { record := r.stepRecord c s, environment := c.environment }) :
    r'.Traced (past ++ [t]) := by
  have hto : StepTo r _ r' := .settled hr hq hb hs hset
  have hsub : ∀ o ∈ r.outcomes, o ∈ r'.outcomes := fun o ho => hto.mem_outcomes ho
  obtain ⟨hgraph, -⟩ := hto.frame
  obtain ⟨hid, hrest, hspawned⟩ := h.numbered.front hr hq
  have hfrom : t.record.continuation = r.outcomes.size := by
    rw [ht]
    exact hid
  have hfront : r'.Explained (past ++ [t]) c.id c.parent env := by
    obtain ⟨l, hl, hstores⟩ := h.queued c (hq ▸ List.mem_cons_self)
    refine ⟨_, h.numbered.extend_lineage hsub hfrom hl, ?_⟩
    rw [if_pos hid.symm, hgraph, Taken.writes_append]
    subst ht
    exact Block.stores_signal hstores hs (get?_of_blockFor hb) rfl rfl
  have hbehind : ∀ d ∈ rest, r'.Explained (past ++ [t]) d.id d.parent d.environment := by
    intro d hd
    have hmem : d.id ∈ rest.map Continuation.id := List.mem_map_of_mem hd
    rw [hrest, List.mem_range'_1] at hmem
    refine (h.queued d (hq ▸ List.mem_cons_of_mem c hd)).other h.numbered hgraph hsub hfrom ?_
    omega
  have hended : ∀ o ∈ r.outcomes, ∀ env ∈ o.status.environment?,
      r'.Explained (past ++ [t]) o.id o.parent env := by
    intro o ho env henv
    refine (h.ended o ho env henv).other h.numbered hgraph hsub hfrom ?_
    have hlt := h.numbered.id_lt ho
    omega
  have htaken : ∀ t' ∈ past ++ [t], t'.record.continuation < r.spawned := by
    intro t' ht'
    rcases List.mem_append.1 ht' with ht' | ht'
    · exact h.taken t' ht'
    · obtain rfl := List.mem_singleton.1 ht'
      omega
  cases settled_of_settle hset with
  | goesOn _ hq' hout hn =>
    refine ⟨h.numbered.step hto, hn ▸ htaken, fun d hd => ?_, by rw [hout]; exact hended⟩
    rw [hq'] at hd
    rcases List.mem_cons.1 hd with rfl | hd
    · exact hfront
    · exact hbehind d hd
  | @ends status hstatus hq' hout hn =>
    refine ⟨h.numbered.step hto, fun t ht => ?_, fun d hd => ?_, fun o ho env' henv' => ?_⟩
    · exact Nat.lt_of_lt_of_le (htaken t ht) (hn ▸ Nat.le_add_right _ _)
    · rw [hq'] at hd
      rcases List.mem_append.1 hd with hd | hd
      · exact hbehind d hd
      · obtain ⟨hparent, henv, -⟩ := child_eq hd
        have hnew : (c.signalled env).outcome status ∈ r'.outcomes := by
          rw [hout]
          exact Array.mem_push_self
        have hlarge : r.spawned ≤ d.id := (List.mem_range'_1.1 (child_id hd)).1
        rw [hparent, henv]
        exact Explained.child hnew hfront fun t ht => Nat.lt_of_lt_of_le (htaken t ht) hlarge
    · rw [hout] at ho
      rcases Array.mem_push.1 ho with ho | rfl
      · exact hended o ho env' henv'
      · rw [environment_of_status? hstatus env' henv']
        exact hfront

theorem Traced.step (h : r.Traced past) : r.step.2.Traced (past ++ r.taken?.toList) := by
  have hto := stepTo_step r
  have hnone : (∀ record, r.step.1 ≠ .ok (some record)) → past ++ r.taken?.toList = past := by
    intro hne
    rw [taken?_of_ne hne]
    exact List.append_nil past
  generalize r.step.2 = r' at hto ⊢
  generalize r.step.1 = result at hto hnone
  cases hto with
  | halted | drained =>
    rw [hnone nofun]
    exact h
  | refused hr hq hb =>
    rw [hnone nofun]
    exact ⟨h.numbered.step (.refused hr hq hb), h.taken, h.queued, h.ended⟩
  | exceeded hr hq hb hs hset =>
    rw [hnone nofun]
    refine ⟨h.numbered.step (.exceeded hr hq hb hs hset), h.taken, fun d hd => ?_, h.ended⟩
    exact h.queued d (hq ▸ List.mem_cons_of_mem _ hd)
  | settled hr hq hb hs hset =>
    rw [taken?_of_settled hr hq hb hs hset]
    exact h.settled hr hq hb hs hset rfl

end

theorem traced_after (g : Graph) (config : Config) (n : Nat) :
    ((start g config).after n).Traced ((start g config).past n) := by
  induction n with
  | zero => exact traced_start g config
  | succ n ih =>
    rw [after_succ]
    exact ih.step

theorem Explained.follows {r : Run} {past : List Taken} {id : Nat} {parent : Option Nat}
    {env : Environment} (h : r.Explained past id parent env) (hr : r.Numbered) :
    Follows r.graph r.outcomes past id parent env := by
  obtain ⟨steps, hline, hstores⟩ := h
  refine ⟨steps, fun l => ⟨fun hl => hl.unique hr.injective hline, ?_⟩, hstores⟩
  rintro rfl
  exact hline

/-- The front continuation of `r` fails with the environment that it has there, which leaves `r'`. -/
def Fails (r : Run) (id : Nat) (fault : BlockFault) (r' : Run) : Prop :=
  ∃ c rest, r.queue = c :: rest ∧ c.id = id ∧ r'.queue = rest ∧
    r'.outcomes = r.outcomes.push
      { id := c.id, parent := c.parent, lastBlock := c.block, steps := c.steps + 1
        status := .failed
          { continuation := c.id, block := c.block, previous := c.previous, fault,
            environment := c.environment } }

theorem fails_of_fault {r r' : Run} {record : StepRecord} {fault : BlockFault}
    (hto : StepTo r (.ok (some record)) r') (hf : record.result = .fault fault) :
    r.Fails record.continuation fault r' := by
  cases hto with
  | @settled c rest b s env _ _ hq _ hs hset =>
    obtain rfl : s = .fault fault := hf
    obtain rfl := Block.environment_of_fault hs
    cases hset
    exact ⟨c, rest, hq, rfl, rfl, rfl⟩

/-- **The environment of a continuation is determined by its lineage.** Of every queued
continuation and of every one that completed or failed, the environment holds what the
assignments of its lineage stored: the last value of each name, at the type of the first. A
call touches neither an outcome nor a continuation behind the front of the queue, and a step
that faults fails with the environment from before the signal. -/
theorem environment_follows_lineage (g : Graph) (config : Config) (n : Nat) :
    let r := (start g config).after n
    let r' := (start g config).after (n + 1)
    let past := (start g config).past n
    (∀ c ∈ r.queue, Follows g r.outcomes past c.id c.parent c.environment) ∧
    (∀ o ∈ r.outcomes, ∀ env ∈ o.status.environment?, Follows g r.outcomes past o.id o.parent env) ∧
    (∀ c ∈ r.queue, c ∈ r'.queue ∨ r.queue.head? = some c) ∧
    (∀ o ∈ r.outcomes, o ∈ r'.outcomes) ∧
    (∀ record fault, (start g config).call n = .ok (some record) → record.result = .fault fault →
      r.Fails record.continuation fault r') := by
  intro r r' past
  have htraced : r.Traced past := traced_after g config n
  have hfollows : ∀ {id parent env}, r.Explained past id parent env →
      Follows g r.outcomes past id parent env := by
    intro id parent env h
    have hgraph : r.graph = g := graph_after (start g config) n
    rw [← hgraph]
    exact h.follows htraced.numbered
  have hto : StepTo r ((start g config).call n) r' := stepTo_after (start g config) n
  refine ⟨fun c hc => hfollows (htraced.queued c hc),
    fun o ho env henv => hfollows (htraced.ended o ho env henv), fun c hc => hto.mem_queue hc,
    fun o ho => hto.mem_outcomes ho, fun record fault hcall hf => ?_⟩
  rw [hcall] at hto
  exact fails_of_fault hto hf

/-- Two branches assign to one name. The first one faults, since its type is another one, and
keeps the value from before the fork. -/
theorem environment_follows_lineage_conflict : ∃ g record,
    Graph.build true [.withTarget (.start "s") "a",
      .withAdjacents (.decimalAssign "a" "x" "1") ["b", "c"], .boolAssign "b" "x" "x",
      .decimalAssign "c" "x" "-x"] = .ok g ∧
    let r := start g .default
    r.call 2 = .ok (some record) ∧ record.result = .fault (.typeConflict ⟨"x", .decimal, .bool⟩) ∧
      (r.after 2).Fails 1 (.typeConflict ⟨"x", .decimal, .bool⟩) (r.after 3) ∧
      (∀ o ∈ (r.after 4).outcomes, ∀ env ∈ o.status.environment?,
        Follows g (r.after 4).outcomes (r.past 4) o.id o.parent env) ∧
      ((r.after 4).outcomes.toList.map fun o => o.status.environment?.bind (·.get? "x")) =
        [none, some (.decimal .one), some (.decimal (.neg .one))] := by
  let g : Graph :=
    { blocks := [⟨"s", .start ["a"]⟩, ⟨"a", .assign "x" .decimal ⟨"1", .number .one, []⟩ ["b", "c"]⟩,
        ⟨"b", .assign "x" .bool ⟨"x", .name "x", ["x"]⟩ []⟩,
        ⟨"c", .assign "x" .decimal ⟨"-x", .signed .minus (.name "x"), ["x"]⟩ []⟩]
      index := [("a", 1), ("b", 2), ("c", 3), ("s", 0)]
      startAt := 0 }
  let record : StepRecord :=
    { step := 3, continuation := 1, block := "b", previous := some "a",
      result := .fault (.typeConflict ⟨"x", .decimal, .bool⟩) }
  have hcall : (start g .default).call 2 = .ok (some record) := by decide +kernel
  obtain ⟨-, hended, -⟩ := environment_follows_lineage g .default 4
  exact ⟨g, record, by decide +kernel, hcall, rfl,
    (environment_follows_lineage g .default 2).2.2.2.2 record _ hcall rfl, hended, by decide +kernel⟩

end Run

end Flowchart
