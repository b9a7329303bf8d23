/-
The order in which the blocks of a graph are described makes no difference to its runs. Each check
of building asks something of the descriptions that does not depend on their order, so one order is
accepted exactly if another one is, and the two graphs have the same blocks and the same start block
(`Rearranges`). Blocks are found by their identifiers, which are distinct, so both graphs answer every
look-up alike, and a step asks its graph nothing else (`step_withGraph`).
-/
import Flowchart.Proofs.Graph
import Flowchart.Proofs.Run.Bookkeeping

namespace Flowchart

namespace Graph

/-- The same blocks in another order, with the same one to start at. -/
structure Rearranges (g g' : Graph) : Prop where
  blocks : g'.blocks.Perm g.blocks
  start : g'.start = g.start

/-- Descriptions in another order build a graph of the same blocks. -/
theorem exists_build_of_perm {allow : Bool} {ds ds' : List BlockDescription} {g : Graph}
    (h : ds.Perm ds') (hg : build allow ds = .ok g) :
    ∃ g', build allow ds' = .ok g' ∧ g.Rearranges g' := by
  have hbuilt := build_eq_ok_iff.1 hg
  have hids := h.map BlockDescription.id
  obtain ⟨blocks, hblocks, hperm⟩ := List.perm_comp_forall₂ h.symm hbuilt.blocks
  have hresolved : ∀ b ∈ blocks, Resolved (ds'.map BlockDescription.id) b := fun b hb t ht =>
    hids.mem_iff.1 (hbuilt.resolved b (hperm.mem_iff.1 hb) t ht)
  have hfan : allow = true ∨ ∀ b ∈ blocks, b.fansOut = false :=
    hbuilt.fanOut.imp_right fun hnone b hb => hnone b (hperm.mem_iff.1 hb)
  obtain ⟨g', hbuilt', rfl, hstart⟩ := exists_built (hids.nodup_iff.1 hbuilt.indexed.nodup) hblocks
    (hperm.mem_iff.2 g.start_mem) hbuilt.start (hperm.countP_eq _ ▸ hbuilt.starts) hresolved hfan
  exact ⟨g', build_eq_ok_iff.2 hbuilt', hperm, hstart⟩

/-- Building does not depend on the order of the descriptions. -/
theorem rearranges_of_perm {allow : Bool} {ds ds' : List BlockDescription} {g g' : Graph}
    (h : ds.Perm ds') (hg : build allow ds = .ok g) (hg' : build allow ds' = .ok g') :
    g.Rearranges g' := by
  obtain ⟨g₁, hg₁, hsame⟩ := exists_build_of_perm h hg
  cases hg₁.symm.trans hg'
  exact hsame

/-- The same blocks are found under the same identifiers. -/
theorem Rearranges.get?_eq {allow : Bool} {ds ds' : List BlockDescription} {g g' : Graph}
    (h : g.Rearranges g') (hg : build allow ds = .ok g) (hg' : build allow ds' = .ok g')
    (id : String) : g'.get? id = g.get? id := by
  apply Option.ext
  intro b
  rw [(closed_of_build hg').get?_eq_some_iff, (closed_of_build hg).get?_eq_some_iff, h.blocks.mem_iff]

end Graph

namespace Run

/-! ## Runs over two graphs -/

/-- The same run over another graph. -/
def withGraph (g : Graph) (r : Run) : Run := { r with graph := g }

theorem incidental_withGraph (g : Graph) : Incidental (withGraph g) :=
  ⟨fun _ => rfl, fun _ => rfl, fun _ => rfl, fun _ _ _ _ => rfl, fun _ _ => rfl⟩

theorem settle_withGraph (g : Graph) (r : Run) (c : Continuation) (s : Signal) :
    (r.withGraph g).settle c s = (r.settle c s).map (withGraph g) :=
  settle_map (fun _ _ _ => rfl) (fun _ _ => rfl) (fun _ _ _ => rfl) fun _ _ => rfl

/-- A step asks the graph for the block of the front continuation, and for nothing else. -/
theorem step_withGraph {g : Graph} {r : Run} (h : ∀ id, g.get? id = r.graph.get? id) :
    (r.withGraph g).step = (r.step.1, r.step.2.withGraph g) := by
  refine (incidental_withGraph g).step_eq (fun {c rest} _ => ?_) fun _ _ _ => settle_withGraph g _ _ _
  have hspent : (r.withGraph g).spentBudget? = r.spentBudget? := rfl
  have hget : (r.withGraph g).graph.get? c.block = r.graph.get? c.block := h c.block
  simp only [blockFor, hspent, hget]
  rfl

theorem step_after_withGraph {g : Graph} {r : Run} (h : ∀ id, g.get? id = r.graph.get? id) (n : Nat) :
    ((r.after n).withGraph g).step = ((r.after n).step.1, (r.after n).step.2.withGraph g) := by
  refine step_withGraph fun id => ?_
  rw [graph_after]
  exact h id

theorem after_withGraph {g : Graph} {r : Run} (h : ∀ id, g.get? id = r.graph.get? id) (n : Nat) :
    (r.withGraph g).after n = (r.after n).withGraph g :=
  after_map fun j _ => step_after_withGraph h j

theorem coincide_withGraph {g : Graph} {r : Run} (h : ∀ id, g.get? id = r.graph.get? id) (n : Nat) :
    Coincide r (r.withGraph g) n :=
  (incidental_withGraph g).coincide (fun _ => rfl) (fun _ => rfl) (step_after_withGraph h)

/-- A run starts over another order of the same blocks as it would over this one. -/
theorem start_of_rearranges {g g' : Graph} (h : g.Rearranges g') (config : Config) :
    start g' config = (start g config).withGraph g' := by
  simp only [start, withGraph, h.start]

/-- **The order in which blocks are described does not matter.** If descriptions are put in another
order, a graph can be built from them exactly if it could before. Runs over the two graphs, under any
settings, answer every call alike, and after any number of calls they have the same queue, the same
outcomes and the same trace. -/
theorem description_order_irrelevant {allow : Bool} {ds ds' : List BlockDescription} (h : ds.Perm ds') :
    ((∃ g, Graph.build allow ds = .ok g) ↔ ∃ g, Graph.build allow ds' = .ok g) ∧
    ∀ g g', Graph.build allow ds = .ok g → Graph.build allow ds' = .ok g' → ∀ config n,
      Coincide (start g config) (start g' config) n ∧
        ((start g config).after n).trace = ((start g' config).after n).trace := by
  refine ⟨⟨?_, ?_⟩, fun g g' hg hg' config n => ?_⟩
  · intro ⟨g, hg⟩
    obtain ⟨g', hg', -⟩ := Graph.exists_build_of_perm h hg
    exact ⟨g', hg'⟩
  · intro ⟨g', hg'⟩
    obtain ⟨g, hg, -⟩ := Graph.exists_build_of_perm h.symm hg'
    exact ⟨g, hg⟩
  · have hsame := Graph.rearranges_of_perm h hg hg'
    have hget : ∀ id, g'.get? id = g.get? id := hsame.get?_eq hg hg'
    rw [start_of_rearranges hsame config]
    refine ⟨coincide_withGraph hget n, ?_⟩
    rw [after_withGraph hget n]
    rfl

/-- A fork with a loop in one branch, described from the start block on and from the end backwards. The
two graphs differ, and their runs do not. -/
theorem description_order_irrelevant_reversed : ∃ g g',
    let ds : List BlockDescription :=
      [.withAdjacents (.start "s") ["a", "d"], .withTarget (.decimalAssign "a" "x" "1") "d",
        .decision "d" "x<1" "a" "a"]
    Graph.build true ds = .ok g ∧ Graph.build true ds.reverse = .ok g' ∧ g ≠ g' ∧ ∀ config n,
      Coincide (start g config) (start g' config) n ∧
        ((start g config).after n).trace = ((start g' config).after n).trace := by
  let s : Block := ⟨"s", .start ["a", "d"]⟩
  let a : Block := ⟨"a", .assign "x" .decimal ⟨"1", .number .one, []⟩ ["d"]⟩
  let d : Block := ⟨"d", .decide ⟨"x<1", .compare (.name "x") [(.less, .number .one)], ["x"]⟩ "a" "a"⟩
  let g : Graph := { blocks := [s, a, d], index := [("a", 1), ("d", 2), ("s", 0)], startAt := 0 }
  let g' : Graph := { blocks := [d, a, s], index := [("a", 1), ("d", 0), ("s", 2)], startAt := 2 }
  have hbuild : Graph.build true [.withAdjacents (.start "s") ["a", "d"],
      .withTarget (.decimalAssign "a" "x" "1") "d", .decision "d" "x<1" "a" "a"] = .ok g := by
    decide +kernel
  have hreverse : Graph.build true [.decision "d" "x<1" "a" "a",
      .withTarget (.decimalAssign "a" "x" "1") "d", .withAdjacents (.start "s") ["a", "d"]] = .ok g' := by
    decide +kernel
  refine ⟨g, g', hbuild, hreverse, by decide, ?_⟩
  exact (description_order_irrelevant (List.reverse_perm _).symm).2 _ _ hbuild hreverse

end Run

end Flowchart
