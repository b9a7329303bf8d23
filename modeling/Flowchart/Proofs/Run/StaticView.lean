/-
The schematic of a graph against its runs. The schematic tells from the operation of a block and
the number of its adjacent blocks what kind of edges leave it, and a run goes where the signal of
the block sends it. The two agree (`schematic_shows_run`): whatever a step does, the edges of its
block show it.
-/
import Flowchart.Proofs.Run.Bookkeeping
import Flowchart.Schematic.Basic

namespace Flowchart

/-- The edges that leave the block `b` show where its signal in the environment `env` sends control. A
fault sends it nowhere and is not to be seen. -/
def Signal.ShownBy (edges : List Schematic.Edge) (b : Block) (env : Environment) : Signal → Prop
  | .next t =>
    (b.kind ≠ .decision → ∃ e, edges = [e] ∧ e.kind = .linear ∧ e.target = t) ∧
    (b.kind = .decision → ∃ condition whenTrue whenFalse v,
      b.operation = .decide condition whenTrue whenFalse ∧ condition.evaluate env.get? = .ok v ∧
      ∃ e, edges.filter (·.kind = .branch v.toBool) = [e] ∧ e.target = t)
  | .fork ts => (∀ e ∈ edges, e.kind = .fork) ∧ edges.map (·.target) = ts
  | .terminate => edges = []
  | .fault _ => True

namespace Block

theorem source_of_mem_edges {b : Block} {e : Schematic.Edge} (he : e ∈ b.edges) : e.source = b.id := by
  obtain ⟨way, -, rfl⟩ := List.mem_map.1 he
  rfl

/-- A block has an edge to each of its adjacent blocks, in their order. -/
theorem map_target_edges (b : Block) : b.edges.map (·.target) = b.adjacents := by
  obtain ⟨id, op⟩ := b
  cases op <;> simp [edges, ways, adjacents, Function.comp_def]

/-- The edges of a block that sends control on to all its targets show this. -/
theorem forward_shownBy {b : Block} {env : Environment} {targets : List String}
    (hb : b.ways = targets.map fun t => (if 1 < targets.length then .fork else .linear, t))
    (hk : b.kind ≠ .decision) : (Signal.forward targets).ShownBy b.edges b env := by
  match targets with
  | [] => simp [Signal.forward, Signal.ShownBy, edges, hb]
  | [t] => simp [Signal.forward, Signal.ShownBy, edges, hb, hk]
  | t :: t' :: ts => simp [Signal.forward, Signal.ShownBy, edges, hb, Function.comp_def]

/-- Whatever a block signals, its edges show it. -/
theorem signal_shownBy {b : Block} {env env' : Environment} {s : Signal}
    (h : b.signal env = (s, env')) : s.ShownBy b.edges b env := by
  cases signal_eq_iff.1 h with
  | start => exact forward_shownBy (by simp [ways, fansOut]) (by simp [kind])
  | @assigned _ _ type =>
    exact forward_shownBy (by simp [ways, fansOut]) (by cases type <;> simp [kind])
  | unevaluated | conflict | undecided => trivial
  | @decided id condition whenTrue whenFalse v hv =>
    refine ⟨fun hk => absurd rfl hk, fun _ => ⟨condition, whenTrue, whenFalse, v, rfl, hv, ?_⟩⟩
    cases v.toBool <;> simp [edges, ways]

end Block

namespace Schematic

theorem source_of_mem_flatMap {blocks : List Block} {e : Edge} (he : e ∈ blocks.flatMap Block.edges) :
    e.source ∈ blocks.map Block.id := by
  obtain ⟨b, hb, he⟩ := List.mem_flatMap.1 he
  exact List.mem_map.2 ⟨b, hb, (Block.source_of_mem_edges he).symm⟩

/-- With distinct identifiers the edges from a block are its own. -/
theorem filter_flatMap_edges {blocks : List Block} (h : (blocks.map Block.id).Nodup) {b : Block}
    (hb : b ∈ blocks) : (blocks.flatMap Block.edges).filter (·.source = b.id) = b.edges := by
  induction blocks with
  | nil => cases hb
  | cons b' blocks ih =>
    obtain ⟨hfresh, hnodup⟩ := List.nodup_cons.1 h
    rw [List.flatMap_cons, List.filter_append]
    rcases List.mem_cons.1 hb with rfl | hb
    · have hown : b.edges.filter (·.source = b.id) = b.edges :=
        List.filter_eq_self.2 fun e he => by simp [Block.source_of_mem_edges he]
      have hothers : (blocks.flatMap Block.edges).filter (·.source = b.id) = [] := by
        refine List.filter_eq_nil_iff.2 fun e he => ?_
        have hne : e.source ≠ b.id := fun heq => hfresh (heq ▸ source_of_mem_flatMap he)
        simpa using hne
      rw [hown, hothers, List.append_nil]
    · have hother : b'.edges.filter (·.source = b.id) = [] := by
        refine List.filter_eq_nil_iff.2 fun e he => ?_
        have hne : b'.id ≠ b.id := fun heq => hfresh (heq ▸ List.mem_map_of_mem hb)
        simpa [Block.source_of_mem_edges he] using hne
      rw [hother, List.nil_append, ih hnodup hb]

end Schematic

namespace Run

/-- The front continuation takes a step: it enters the block that the step names, in the environment
that it has, and the step is the signal of the block. -/
theorem signal_of_call {r : Run} {n : Nat} {x : StepRecord} (h : r.call n = .ok (some x)) :
    ∃ c rest b env, (r.after n).queue = c :: rest ∧ x.continuation = c.id ∧
      r.graph.get? x.block = some b ∧ b.signal c.environment = (x.result, env) := by
  have hto := stepTo_after r n
  have hgraph : (r.after n).graph = r.graph := graph_after r n
  rw [h] at hto
  cases hto with
  | settled _ hq hb hs _ => exact ⟨_, _, _, _, hq, rfl, hgraph ▸ get?_of_blockFor hb, hs⟩

/-- **The schematic shows what runs do.** It has a node for each block and, from each block, an edge to
each of its adjacent blocks, all in order. For every step of every run, the edges from its block show
where the step sent control: the only edge, a linear one; the branch that bears the truth value which
the condition had; all edges at once, each of them marked as part of a fork; or no edge at all. -/
theorem schematic_shows_run {allow : Bool} {ds : List BlockDescription} {g : Graph}
    (h : Graph.build allow ds = .ok g) (name : String) (description : Option String) :
    let s := Schematic.ofGraph name description g
    List.Forall₂ (fun (node : Schematic.Node) b => node.id = b.id ∧ node.kind = b.kind) s.nodes g.blocks ∧
    (∀ e ∈ s.edges, e.source ∈ g.blocks.map Block.id) ∧
    (∀ b ∈ g.blocks, (s.edgesFrom b.id).map (·.target) = b.adjacents) ∧
    (∀ config n x, (start g config).call n = .ok (some x) →
      ∃ c rest b, ((start g config).after n).queue = c :: rest ∧ x.continuation = c.id ∧
        g.get? x.block = some b ∧ x.result.ShownBy (s.edgesFrom x.block) b c.environment) := by
  intro s
  have hclosed := Graph.closed_of_build h
  have hedges : ∀ b ∈ g.blocks, s.edgesFrom b.id = b.edges := fun b hb =>
    Schematic.filter_flatMap_edges hclosed.indexed.nodup hb
  refine ⟨?_, fun e => Schematic.source_of_mem_flatMap, fun b hb => ?_, fun config n x hcall => ?_⟩
  · show List.Forall₂ _ (g.blocks.map Block.node) g.blocks
    rw [List.forall₂_map_left_iff]
    exact List.forall₂_same.2 fun b _ => ⟨rfl, rfl⟩
  · rw [hedges b hb, Block.map_target_edges]
  · obtain ⟨c, rest, b, env, hq, hid, hb, hs⟩ := signal_of_call hcall
    obtain ⟨hmem, hblock⟩ := hclosed.get?_eq_some_iff.1 hb
    refine ⟨c, rest, b, hq, hid, hb, ?_⟩
    rw [← hblock, hedges b hmem]
    exact Block.signal_shownBy hs

/-- A fork with one target twice, into a decision both branches of which lead to one block: the branch
that the step took is the one for false. -/
theorem schematic_shows_run_equal_targets : ∃ g x,
    Graph.build true [.withTarget (.start "s") "a", .withAdjacents (.decimalAssign "a" "x" "1") ["d", "d"],
      .decision "d" "x<1" "e" "e", .boolAssign "e" "y" "x"] = .ok g ∧
    let r := start g .default
    let s := Schematic.ofGraph "twice" none g
    (s.edgesFrom "a").map (fun e => (e.kind, e.target)) = [(.fork, "d"), (.fork, "d")] ∧
      (s.edgesFrom "d").map (fun e => (e.kind, e.target)) = [(.branch true, "e"), (.branch false, "e")] ∧
      r.call 2 = .ok (some x) ∧ x.result = .next "e" ∧
      ∃ c rest b, (r.after 2).queue = c :: rest ∧ x.continuation = c.id ∧ g.get? x.block = some b ∧
        x.result.ShownBy (s.edgesFrom x.block) b c.environment := by
  let g : Graph :=
    { blocks := [⟨"s", .start ["a"]⟩, ⟨"a", .assign "x" .decimal ⟨"1", .number .one, []⟩ ["d", "d"]⟩,
        ⟨"d", .decide ⟨"x<1", .compare (.name "x") [(.less, .number .one)], ["x"]⟩ "e" "e"⟩,
        ⟨"e", .assign "y" .bool ⟨"x", .name "x", ["x"]⟩ []⟩]
      index := [("a", 1), ("d", 2), ("e", 3), ("s", 0)]
      startAt := 0 }
  let x : StepRecord :=
    { step := 3, continuation := 1, block := "d", previous := some "a", result := .next "e" }
  have hbuild : Graph.build true [.withTarget (.start "s") "a",
      .withAdjacents (.decimalAssign "a" "x" "1") ["d", "d"], .decision "d" "x<1" "e" "e",
      .boolAssign "e" "y" "x"] = .ok g := by
    decide +kernel
  have hcall : (start g .default).call 2 = .ok (some x) := by decide +kernel
  exact ⟨g, x, hbuild, by decide, by decide, hcall, rfl,
    (schematic_shows_run hbuild "twice" none).2.2.2 .default 2 x hcall⟩

end Run

end Flowchart
