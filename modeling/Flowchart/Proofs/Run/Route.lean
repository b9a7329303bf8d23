/-
A run goes along the edges of its graph. The steps of a continuation follow one another: each one
after the first comes from the block of the step before it, over an edge (`Leads`). The first
continuation begins at the start block, and a child behind the last block of the continuation that
forked into it (`Begins`). So only blocks are visited to which control may get from the start block,
and none is ever missing.
-/
import Flowchart.Proofs.Run.Records

namespace Flowchart

/-- The step `y` comes from where the step `x` was, over an edge. -/
def Graph.Leads (g : Graph) (x y : StepRecord) : Prop :=
  y.previous = some x.block ∧ g.Edge x.block y.block

theorem Graph.Reachable.edge {g : Graph} {a b : String} (h : g.Reachable a) (he : g.Edge a b) :
    g.Reachable b :=
  Relation.ReflTransGen.tail h he

namespace Run

open StepRecord (stepsOf stepsOf_append stepsOf_eq_nil)

/-- Where the continuation `id` begins: the first one comes from nowhere and stands before the start
block, any other one comes from the last block of an outcome that forked into it, over an edge. -/
def Begins (g : Graph) (outcomes : Array Outcome) (id : Nat) (previous : Option String)
    (block : String) : Prop :=
  if id = 0 then previous = none ∧ block = g.start.id
  else ∃ o ∈ outcomes, id ∈ o.status.children ∧ previous = some o.lastBlock ∧ g.Edge o.lastBlock block

/-- A continuation stands where it begins, or where its last step led. -/
def Arrives (g : Graph) (outcomes : Array Outcome) (past : List StepRecord) (c : Continuation) : Prop :=
  match (stepsOf past c.id).getLast? with
  | none => Begins g outcomes c.id c.previous c.block
  | some x => c.previous = some x.block ∧ g.Edge x.block c.block

/-- The steps of each continuation are a walk from where it begins to where it stands. -/
structure Walked (g : Graph) (r : Run) (past : List StepRecord) : Prop where
  graph : r.graph = g
  chain : ∀ id, (stepsOf past id).IsChain g.Leads
  first : ∀ id, ∀ x ∈ (stepsOf past id).head?, Begins g r.outcomes id x.previous x.block
  queued : ∀ c ∈ r.queue, Arrives g r.outcomes past c

/-! ## One step -/

theorem Begins.mono {g : Graph} {outcomes outcomes' : Array Outcome} {id : Nat}
    {previous : Option String} {block : String} (hsub : ∀ o ∈ outcomes, o ∈ outcomes')
    (h : Begins g outcomes id previous block) : Begins g outcomes' id previous block := by
  by_cases hid : id = 0
  · simp only [Begins, hid, if_true] at h ⊢
    exact h
  · simp only [Begins, hid, if_false] at h ⊢
    obtain ⟨o, ho, hchild, hprevious, hedge⟩ := h
    exact ⟨o, hsub o ho, hchild, hprevious, hedge⟩

theorem Arrives.mono {g : Graph} {outcomes outcomes' : Array Outcome} {past past' : List StepRecord}
    {c : Continuation} (hsub : ∀ o ∈ outcomes, o ∈ outcomes')
    (hpast : stepsOf past' c.id = stepsOf past c.id) (h : Arrives g outcomes past c) :
    Arrives g outcomes' past' c := by
  unfold Arrives at h ⊢
  rw [hpast]
  split at h
  · exact h.mono hsub
  · exact h

section
variable {g : Graph} {r r' : Run} {past : List StepRecord} {c : Continuation}
  {rest : List Continuation} {b : Block} {s : Signal} {env : Environment}

/-- The step of the front continuation continues its walk. -/
theorem Walked.chain_step (h : Walked g r past) (ha : Advances r past c rest b s env r') (id : Nat) :
    (stepsOf (past ++ [r.stepRecord c s]) id).IsChain g.Leads := by
  by_cases hid : c.id = id
  · subst hid
    have hfront := h.queued c (ha.queue ▸ List.mem_cons_self)
    rw [stepsOf_front, List.isChain_append]
    refine ⟨h.chain c.id, List.isChain_singleton _, fun x hx y hy => ?_⟩
    obtain rfl : r.stepRecord c s = y := by simpa using hy
    have hlast : (stepsOf past c.id).getLast? = some x := hx
    rw [Arrives, hlast] at hfront
    exact hfront
  · rw [stepsOf_other r c s past hid]
    exact h.chain id

/-- The first step of a continuation is taken where it begins. -/
theorem Walked.first_step (h : Walked g r past) (ha : Advances r past c rest b s env r') (id : Nat) :
    ∀ x ∈ (stepsOf (past ++ [r.stepRecord c s]) id).head?,
      Begins g r'.outcomes id x.previous x.block := by
  intro x hx
  by_cases hid : c.id = id
  · subst hid
    have hfront := h.queued c (ha.queue ▸ List.mem_cons_self)
    rw [stepsOf_front, List.head?_append] at hx
    cases hsteps : stepsOf past c.id with
    | nil =>
      rw [hsteps] at hx
      obtain rfl : r.stepRecord c s = x := by simpa using hx
      rw [Arrives, hsteps] at hfront
      exact hfront.mono fun _ => ha.outcomes_subset
    | cons y ys =>
      rw [hsteps] at hx
      obtain rfl : y = x := by simpa using hx
      exact (h.first c.id y (by simp [hsteps])).mono fun _ => ha.outcomes_subset
  · rw [stepsOf_other r c s past hid] at hx
    exact (h.first id x hx).mono fun _ => ha.outcomes_subset

/-- What is queued after the step stands where it should. -/
theorem Walked.queued_step (h : Walked g r past) (ha : Advances r past c rest b s env r') :
    ∀ d ∈ r'.queue, Arrives g r'.outcomes (past ++ [r.stepRecord c s]) d := by
  intro d hd
  have hedge : ∀ t ∈ s.targets, g.Edge c.block t := fun t ht => h.graph ▸ ha.edge ht
  rcases ha.mem_queue hd with hd | ⟨target, hs, rfl⟩ | ⟨hd, o, ho, -, hlast, hchild⟩
  · exact (h.queued d (ha.queue ▸ List.mem_cons_of_mem c hd)).mono (fun _ => ha.outcomes_subset)
      (stepsOf_other r c s past (ha.ne_of_mem_rest hd))
  · have hsteps : (stepsOf (past ++ [r.stepRecord c s]) c.id).getLast? = some (r.stepRecord c s) := by
      simp [stepsOf_front]
    simp only [Arrives, Continuation.signalled, hsteps]
    exact ⟨rfl, hedge target (by simp [hs, Signal.targets])⟩
  · have hpos : d.id ≠ 0 := by
      have hle := (List.mem_range'_1.1 (child_id hd)).1
      have hspawned := (ha.numbered.front ha.halted ha.queue).2.2
      omega
    rw [Arrives, stepsOf_eq_nil (ha.lt_of_mem_children hd)]
    simp only [List.getLast?_nil, Begins, hpos, if_false]
    have hprevious : d.previous = some c.block := (child_eq hd).2.2.2
    refine ⟨o, ho, hchild, ?_, ?_⟩
    · rw [hprevious, hlast]
    · rw [hlast]
      exact hedge d.block (mem_children hd)

end

/-! ## All steps -/

theorem walked_start (g : Graph) (config : Config) : Walked g (start g config) [] := by
  refine ⟨rfl, fun _ => List.isChain_nil, nofun, fun c hc => ?_⟩
  obtain rfl := List.mem_singleton.1 hc
  exact ⟨rfl, rfl⟩

theorem walked_after (g : Graph) (config : Config) (n : Nat) :
    Walked g ((start g config).after n) ((start g config).records n) := by
  refine records_induction (walked_start g config) (fun {r r' past} h hgraph hout hq => ?_)
    (fun h ha => ⟨ha.graph.trans h.graph, h.chain_step ha, h.first_step ha, h.queued_step ha⟩) n
  refine ⟨hgraph.trans h.graph, h.chain, hout ▸ h.first, fun c hc => ?_⟩
  exact hout ▸ h.queued c (hq c hc)

/-- Every place where a continuation stands or was is reachable. -/
structure Reached (g : Graph) (r : Run) (past : List StepRecord) : Prop where
  graph : r.graph = g
  queued : ∀ c ∈ r.queue, g.Reachable c.block
  visited : ∀ x ∈ past, g.Reachable x.block

theorem Reached.step {g : Graph} {r r' : Run} {past : List StepRecord} {c rest b s env}
    (h : Reached g r past) (ha : Advances r past c rest b s env r') :
    Reached g r' (past ++ [r.stepRecord c s]) := by
  have hfront : g.Reachable c.block := h.queued c (ha.queue ▸ List.mem_cons_self)
  have hedge : ∀ t ∈ s.targets, g.Reachable t := fun t ht => hfront.edge (h.graph ▸ ha.edge ht)
  refine ⟨ha.graph.trans h.graph, fun d hd => ?_, fun x hx => ?_⟩
  · rcases ha.mem_queue hd with hd | ⟨target, hs, rfl⟩ | ⟨hd, -⟩
    · exact h.queued d (ha.queue ▸ List.mem_cons_of_mem c hd)
    · exact hedge target (by simp [hs, Signal.targets])
    · exact hedge d.block (mem_children hd)
  · rcases List.mem_append.1 hx with hx | hx
    · exact h.visited x hx
    · obtain rfl := List.mem_singleton.1 hx
      exact hfront

theorem reached_after (g : Graph) (config : Config) (n : Nat) :
    Reached g ((start g config).after n) ((start g config).records n) := by
  have hstart : Reached g (start g config) [] := by
    refine ⟨rfl, fun c hc => ?_, nofun⟩
    obtain rfl := List.mem_singleton.1 hc
    exact Relation.ReflTransGen.refl
  refine records_induction hstart (fun {r r' past} h hgraph _ hq => ?_) Reached.step n
  exact ⟨hgraph.trans h.graph, fun c hc => h.queued c (hq c hc), h.visited⟩

/-- The steps of the first `n` calls are walks along the edges of the graph. -/
structure Walks (r : Run) (n : Nat) : Prop where
  queued : ∀ c ∈ (r.after n).queue, (r.graph.get? c.block).isSome ∧ r.graph.Reachable c.block
  chain : ∀ id, (stepsOf (r.records n) id).IsChain r.graph.Leads
  first : ∀ id, ∀ x ∈ (stepsOf (r.records n) id).head?,
    Begins r.graph (r.after n).outcomes id x.previous x.block
  parent : ∀ o ∈ (r.after n).outcomes, ∀ o' ∈ (r.after n).outcomes, ∀ id ∈ o.status.children,
    id ∈ o'.status.children → o = o'
  last : ∀ o ∈ (r.after n).outcomes,
    (stepsOf (r.records n) o.id).getLast?.map StepRecord.block = some o.lastBlock
  visited : ∀ x ∈ r.records n, r.graph.Reachable x.block

theorem Numbered.parent_unique {r : Run} (h : r.Numbered) {o o' : Outcome} (ho : o ∈ r.outcomes)
    (ho' : o' ∈ r.outcomes) {id : Nat} (hid : id ∈ o.status.children)
    (hid' : id ∈ o'.status.children) : o = o' := by
  have hmem : id ∈ r.outcomes.toList.flatMap (·.status.children) :=
    List.mem_flatMap.2 ⟨o, Array.mem_def.1 ho, hid⟩
  rw [h.children, List.mem_range'_1] at hmem
  exact (h.existsUnique_fork (by omega) (by omega)).unique ⟨ho, hid⟩ ⟨ho', hid'⟩

theorem walks_after {g : Graph} (hg : g.Closed) (config : Config) (n : Nat) :
    (start g config).Walks n := by
  have hwalked := walked_after g config n
  have hreached := reached_after g config n
  have hgraph : ((start g config).after n).graph = g := hwalked.graph
  refine ⟨fun c hc => ⟨?_, hreached.queued c hc⟩, hwalked.chain, hwalked.first,
    fun o ho o' ho' id hid hid' => (numbered_after g config n).parent_unique ho ho' hid hid',
    fun o ho => ?_, hreached.visited⟩
  · have hsome := onGraph_after hg config n c hc
    rwa [hgraph] at hsome
  · obtain ⟨x, hx, -, hblock, -⟩ := (counted_after g config n).last o ho
    rw [Option.mem_def.1 hx, Option.map_some, hblock]

/-- **A run goes along the edges of its graph and never leaves it.** Of a graph that was built, every
queued continuation stands before a block of the graph that control may get to, so no block is ever
missing, and a decision has its two adjacent blocks to choose from. The steps of each continuation
are a walk: the first one is taken at the only start block, or behind the last block of the
continuation that forked, and every later one comes from the block before it, over an edge. -/
theorem run_walks_edges {allow : Bool} {ds : List BlockDescription} {g : Graph}
    (h : Graph.build allow ds = .ok g) (config : Config) (n : Nat) :
    (start g config).Walks n ∧
    (∀ block, (start g config).call n ≠ .error (.missingBlock block)) ∧
    (g.get? g.start.id = some g.start ∧ ∀ b, b ∈ g.blocks ∧ b.kind = .start ↔ b = g.start) ∧
    (∀ d ∈ ds, d.kind = .decision → d.adjacents.length = 2 ∧
      ∃ b, g.get? d.id = some b ∧ b.adjacents = d.adjacents ∧
        ∀ env, (∃ f, (b.signal env).1 = .fault f) ∨
          ∃ i < 2, ∃ t, d.adjacents[i]? = some t ∧ (b.signal env).1 = .next t) := by
  have hclosed := Graph.closed_of_build h
  refine ⟨walks_after hclosed config n, call_ne_missingBlock hclosed config n,
    ⟨hclosed.get?_start, Graph.mem_blocks_start_iff h⟩, fun d hd hkind => ?_⟩
  obtain ⟨b, hb, hconstruct⟩ := Graph.get?_of_mem h hd
  obtain ⟨-, hk, hadjacents⟩ := Block.construct_eq_ok hconstruct
  have hdecision : b.kind = .decision := hk.trans hkind
  refine ⟨?_, b, hb, hadjacents, fun env => ?_⟩
  · obtain ⟨condition, whenTrue, whenFalse, hop⟩ := Block.operation_of_decision hdecision
    rw [← hadjacents, Block.adjacents, hop]
    rfl
  · rw [← hadjacents]
    exact Block.signal_of_decision hdecision rfl

/-- A fork, one branch of which goes round a loop. The branch begins behind the block that forked,
and its four steps follow the edges through the decision and back. -/
theorem run_walks_edges_loop : ∃ g,
    Graph.build true [.withTarget (.start "s") "a", .withAdjacents (.decimalAssign "a" "x" "0") ["d", "e"],
      .decision "d" "x<1" "b" "e", .withTarget (.decimalAssign "b" "x" "1") "d",
      .boolAssign "e" "y" "x"] = .ok g ∧
    let r := start g .default
    (stepsOf (r.records 7) 1).map (fun x => (x.previous, x.block)) =
        [(some "a", "d"), (some "d", "b"), (some "b", "d"), (some "d", "e")] ∧
      r.Walks 7 ∧ ∀ block, r.call 7 ≠ .error (.missingBlock block) := by
  let g : Graph :=
    { blocks := [⟨"s", .start ["a"]⟩, ⟨"a", .assign "x" .decimal ⟨"0", .number .zero, []⟩ ["d", "e"]⟩,
        ⟨"d", .decide ⟨"x<1", .compare (.name "x") [(.less, .number .one)], ["x"]⟩ "b" "e"⟩,
        ⟨"b", .assign "x" .decimal ⟨"1", .number .one, []⟩ ["d"]⟩,
        ⟨"e", .assign "y" .bool ⟨"x", .name "x", ["x"]⟩ []⟩]
      index := [("a", 1), ("b", 3), ("d", 2), ("e", 4), ("s", 0)]
      startAt := 0 }
  have hbuild : Graph.build true [.withTarget (.start "s") "a",
      .withAdjacents (.decimalAssign "a" "x" "0") ["d", "e"], .decision "d" "x<1" "b" "e",
      .withTarget (.decimalAssign "b" "x" "1") "d", .boolAssign "e" "y" "x"] = .ok g := by
    decide +kernel
  obtain ⟨hwalks, hmissing, -⟩ := run_walks_edges hbuild .default 7
  exact ⟨g, hbuild, by decide +kernel, hwalks, hmissing⟩

end Run

end Flowchart
