/-
The order of siblings has no influence on what becomes of them. Two graphs are compared that differ in
the order in which blocks name the blocks behind them, decisions apart (`Graph.Reorders`). A fork then
has the same branches in another order, each with the environment of the fork, so every continuation
takes the same course in both graphs, and the trees of the two differ in the order of branches only.
The results of a tree, taken together, are then the same (`exists_grows_of_reorders`), and a run without
limits reports the results of the tree, whatever the order in which it comes to them.
-/
import Flowchart.Proofs.Graph
import Flowchart.Proofs.Run.BreadthFirst

namespace Flowchart

/-! ## Graphs that differ in the order of targets -/

/-- The same signal, up to the order in which a fork names its targets. -/
inductive Signal.Reorders : Signal → Signal → Prop
  | refl {s} : Reorders s s
  | fork {l l' : List String} (h : l.Perm l') : Reorders (.fork l) (.fork l')

/-- The same ending, up to the order in which a fork names its targets. -/
inductive Ending.Reorders : Ending → Ending → Prop
  | refl {e} : Reorders e e
  | forked {l l' : List String} (h : l.Perm l') : Reorders (.forked l) (.forked l')

/-- The same block with its targets in another order; a decision keeps the order of its two. -/
inductive Block.Reorders : Block → Block → Prop
  | start {id} {l l' : List String} (h : l.Perm l') : Reorders ⟨id, .start l⟩ ⟨id, .start l'⟩
  | assign {id name type expression} {l l' : List String} (h : l.Perm l') :
      Reorders ⟨id, .assign name type expression l⟩ ⟨id, .assign name type expression l'⟩
  | decide {id condition whenTrue whenFalse} :
      Reorders ⟨id, .decide condition whenTrue whenFalse⟩ ⟨id, .decide condition whenTrue whenFalse⟩

/-- The same blocks at the same positions, each with its targets in another order. -/
structure Graph.Reorders (g g' : Graph) : Prop where
  blocks : List.Forall₂ Block.Reorders g.blocks g'.blocks
  index : g'.index = g.index
  start : g.start.Reorders g'.start

/-- The same description with the adjacent blocks in another order, unless it is one of a decision. -/
inductive BlockDescription.Reorders : BlockDescription → BlockDescription → Prop
  | withAdjacents {d : BlockDescription} {l : List String} (h : d.adjacents.Perm l)
      (hd : d.kind = .decision → l = d.adjacents) : Reorders d (d.withAdjacents l)

namespace Block.Reorders

variable {b b' : Block}

theorem symm (h : b.Reorders b') : b'.Reorders b := by
  cases h with
  | start h => exact .start h.symm
  | assign h => exact .assign h.symm
  | decide => exact .decide

theorem id_eq (h : b.Reorders b') : b'.id = b.id := by
  cases h <;> rfl

theorem kind_eq (h : b.Reorders b') : b'.kind = b.kind := by
  cases h with
  | start | decide => rfl
  | @assign _ _ type => cases type <;> rfl

theorem adjacents (h : b.Reorders b') : b.adjacents.Perm b'.adjacents := by
  cases h with
  | start h | assign h => exact h
  | decide => exact .refl _

theorem fansOut_eq (h : b.Reorders b') : b'.fansOut = b.fansOut := by
  cases h with
  | start h | assign h => simp only [fansOut, h.length_eq]
  | decide => rfl

end Block.Reorders

theorem Graph.Reorders.symm {g g' : Graph} (h : g.Reorders g') : g'.Reorders g :=
  ⟨h.blocks.flip.imp fun _ _ => Block.Reorders.symm, h.index.symm, h.start.symm⟩

theorem Graph.Reorders.get? {g g' : Graph} (h : g.Reorders g') {id : String} {b : Block}
    (hb : g.get? id = some b) : ∃ b', g'.get? id = some b' ∧ b.Reorders b' := by
  obtain ⟨position, hposition, hb⟩ := get?_eq_some_iff_exists.1 hb
  obtain ⟨hlt, rfl⟩ := List.getElem?_eq_some_iff.1 hb
  have hlt' : position < g'.blocks.length := h.blocks.length_eq ▸ hlt
  refine ⟨g'.blocks[position], get?_eq_some_iff_exists.2 ⟨position, ?_, List.getElem?_eq_getElem hlt'⟩,
    h.blocks.get hlt hlt'⟩
  rw [h.index, hposition]

/-! ## Building -/

theorem assignOperation_withAdjacents {type : ValueType} {d : BlockDescription} {op : Operation}
    (h : assignOperation type d = .ok op) (l : List String) :
    ∃ name expression, op = .assign name type expression d.adjacents ∧
      assignOperation type (d.withAdjacents l) = .ok (.assign name type expression l) := by
  simp only [assignOperation, BlockDescription.withAdjacents, bind_eq_ok_iff] at h ⊢
  obtain ⟨p, hp, h⟩ := h
  split at h
  next hname =>
    obtain ⟨expression, he, h⟩ := bind_eq_ok_iff.1 h
    cases h
    refine ⟨p.name, expression, rfl, p, hp, ?_⟩
    rw [if_pos hname, bind_eq_ok_iff]
    exact ⟨expression, he, rfl⟩
  next => cases h

theorem BlockDescription.Reorders.operation {d d' : BlockDescription} (h : d.Reorders d')
    {op : Operation} (hop : d.operation = .ok op) :
    ∃ op', d'.operation = .ok op' ∧ Block.Reorders ⟨d.id, op⟩ ⟨d'.id, op'⟩ := by
  cases h with
  | @withAdjacents l hperm hdecision =>
  have hkind : (d.withAdjacents l).kind = d.kind := rfl
  have hpayload : (d.withAdjacents l).payload = d.payload := rfl
  unfold BlockDescription.operation at hop ⊢
  rw [hkind, hpayload]
  split at hop
  next hk =>
    split at hop
    next hp =>
      cases hop
      exact ⟨.start l, if_pos hp, .start hperm⟩
    next => cases hop
  next hk =>
    obtain ⟨name, expression, rfl, hop'⟩ := assignOperation_withAdjacents hop l
    exact ⟨_, hop', .assign hperm⟩
  next hk =>
    obtain ⟨name, expression, rfl, hop'⟩ := assignOperation_withAdjacents hop l
    exact ⟨_, hop', .assign hperm⟩
  next hk =>
    obtain ⟨condition, whenTrue, whenFalse, rfl, -⟩ := decideOperation_eq_ok hop
    rw [hdecision hk]
    exact ⟨_, hop, .decide⟩

theorem BlockDescription.Reorders.construct {d d' : BlockDescription} (h : d.Reorders d') {b : Block}
    (hb : Block.construct d = .ok b) : ∃ b', Block.construct d' = .ok b' ∧ b.Reorders b' := by
  unfold Block.construct at hb ⊢
  split at hb
  next op hop =>
    cases hb
    obtain ⟨op', hop', hsame⟩ := h.operation hop
    exact ⟨⟨d'.id, op'⟩, by simp only [hop'], hsame⟩
  next => cases hb

theorem exists_constructed_of_reorders {ds ds' : List BlockDescription} {blocks : List Block}
    (h : List.Forall₂ BlockDescription.Reorders ds ds')
    (hb : List.Forall₂ (fun d b => Block.construct d = .ok b) ds blocks) :
    ∃ blocks', List.Forall₂ (fun d b => Block.construct d = .ok b) ds' blocks' ∧
      List.Forall₂ Block.Reorders blocks blocks' := by
  induction h generalizing blocks with
  | nil =>
    cases hb
    exact ⟨[], .nil, .nil⟩
  | cons hd _ ih =>
    cases hb with
    | cons hb hrest =>
      obtain ⟨b', hb', hsame⟩ := hd.construct hb
      obtain ⟨blocks', hrest', hsames⟩ := ih hrest
      exact ⟨b' :: blocks', .cons hb' hrest', .cons hsame hsames⟩

/-- If descriptions that build a graph name the adjacent blocks in another order, they build such a
graph again. -/
theorem Graph.exists_build_of_reorders {allow : Bool} {ds ds' : List BlockDescription} {g : Graph}
    (h : List.Forall₂ BlockDescription.Reorders ds ds') (hg : build allow ds = .ok g) :
    ∃ g', build allow ds' = .ok g' ∧ g.Reorders g' := by
  have hbuilt := build_eq_ok_iff.1 hg
  obtain ⟨blocks, hblocks, hsame⟩ := exists_constructed_of_reorders h hbuilt.blocks
  have hids : ds.map BlockDescription.id = ds'.map BlockDescription.id := by
    refine map_eq_of_forall₂ (fun d d' hd => ?_) h
    cases hd
    rfl
  have hkinds : g.blocks.map Block.kind = blocks.map Block.kind :=
    map_eq_of_forall₂ (fun _ _ hb => hb.kind_eq.symm) hsame
  have hstarts : blocks.countP (·.kind = .start) = 1 := by
    have hcount := congrArg (List.countP (· = .start)) hkinds
    rw [List.countP_map, List.countP_map] at hcount
    exact hcount ▸ hbuilt.starts
  have hresolved : ∀ b ∈ blocks, Resolved (ds'.map BlockDescription.id) b := by
    intro b' hb' t ht
    obtain ⟨b, hb, hreorders⟩ := exists_of_mem_right hsame hb'
    exact hids ▸ hbuilt.resolved b hb t (hreorders.adjacents.mem_iff.2 ht)
  have hfan : allow = true ∨ ∀ b ∈ blocks, b.fansOut = false := by
    refine hbuilt.fanOut.imp_right fun hnone b' hb' => ?_
    obtain ⟨b, hb, hreorders⟩ := exists_of_mem_right hsame hb'
    rw [hreorders.fansOut_eq, hnone b hb]
  obtain ⟨start, hstart, hreorders⟩ := exists_of_mem_right hsame.flip g.start_mem
  obtain ⟨g', hbuilt', rfl, rfl⟩ := exists_built (hids ▸ hbuilt.indexed.nodup) hblocks hstart
    (hreorders.kind_eq.trans hbuilt.start) hstarts hresolved hfan
  exact ⟨g', build_eq_ok_iff.2 hbuilt', hsame, (hids ▸ hbuilt'.indexed).unique hbuilt.indexed, hreorders⟩

/-! ## Courses -/

theorem Signal.reorders_forward {l l' : List String} (h : l.Perm l') :
    (forward l).Reorders (forward l') := by
  match l, l', h.length_eq with
  | [], [], _ => exact .refl
  | [t], [t'], _ =>
    obtain rfl : t = t' := by simpa using h
    exact .refl
  | _ :: _ :: _, _ :: _ :: _, _ => exact .fork h

/-- Where a block names its targets in another order, control goes on in the same way, and into a fork
of the same branches. -/
theorem Block.Reorders.signal {b b' : Block} (h : b.Reorders b') {env env' : Environment} {s : Signal}
    (hs : b.signal env = (s, env')) : ∃ s', b'.signal env = (s', env') ∧ s.Reorders s' := by
  cases h with
  | decide => exact ⟨s, hs, .refl⟩
  | start h =>
    cases signal_eq_iff.1 hs with
    | start => exact ⟨_, signal_eq_iff.2 .start, Signal.reorders_forward h⟩
  | assign h =>
    cases signal_eq_iff.1 hs with
    | unevaluated he => exact ⟨_, signal_eq_iff.2 (.unevaluated he), .refl⟩
    | conflict hv hc => exact ⟨_, signal_eq_iff.2 (.conflict hv hc), .refl⟩
    | assigned hv ha => exact ⟨_, signal_eq_iff.2 (.assigned hv ha), Signal.reorders_forward h⟩

theorem Signal.Reorders.ending? {s s' : Signal} (h : s.Reorders s') {e : Ending}
    (he : s.ending? = some e) : ∃ e', s'.ending? = some e' ∧ e.Reorders e' := by
  cases h with
  | refl => exact ⟨e, he, .refl⟩
  | fork h =>
    cases he
    exact ⟨_, rfl, .forked h⟩

/-- A continuation takes the same course in both graphs. -/
theorem Takes.reorder {g g' : Graph} (hg : g.Reorders g') {o : Origin} {c : Course}
    (h : Takes g o c) : ∃ e, Takes g' o { c with ending := e } ∧ c.ending.Reorders e := by
  induction h with
  | stop hb hs he =>
    obtain ⟨b', hb', hblock⟩ := hg.get? hb
    obtain ⟨s', hs', hsignal⟩ := hblock.signal hs
    obtain ⟨e', he', hending⟩ := hsignal.ending? he
    exact ⟨e', .stop hb' hs' he', hending⟩
  | next hb hs _ ih =>
    obtain ⟨b', hb', hblock⟩ := hg.get? hb
    obtain ⟨s', hs', hsignal⟩ := hblock.signal hs
    obtain ⟨e, htakes, hending⟩ := ih
    cases hsignal with
    | refl => exact ⟨e, .next hb' hs' htakes, hending⟩

/-! ## Results -/

/-- What became of a continuation, told without the numbers of continuations: where it completed, after
how many steps and with which variables; or where it failed, coming from which block, and how; or
where it forked, and into how many branches. -/
inductive BranchResult
  | completed (block : String) (steps : Nat) (environment : Environment)
  | failed (block : String) (previous : Option String) (steps : Nat) (fault : BlockFault)
      (environment : Environment)
  | forked (block : String) (steps branches : Nat)
deriving DecidableEq

def BranchResult.steps : BranchResult → Nat
  | completed _ steps _ | failed _ _ steps _ _ | forked _ steps _ => steps

def Outcome.branchResult (o : Outcome) : BranchResult :=
  match o.status with
  | .completed environment => .completed o.lastBlock o.steps environment
  | .failed f => .failed o.lastBlock f.previous o.steps f.fault f.environment
  | .forked children => .forked o.lastBlock o.steps children.length

/-- The results of all continuations. -/
def Report.branchResults (r : Report) : Multiset BranchResult :=
  (r.outcomes.map Outcome.branchResult : List BranchResult)

/-- The result of a course that ends in so many branches. -/
def Course.branchResult (c : Course) (branches : Nat) : BranchResult :=
  match c.ending with
  | .completed => .completed c.block c.steps c.environment
  | .failed fault => .failed c.block c.previous c.steps fault c.environment
  | .forked _ => .forked c.block c.steps branches

namespace ContinuationTree

/-- The results of all continuations of a tree. -/
def branchResults (t : ContinuationTree) : List BranchResult :=
  t.subtrees.map fun s => s.course.branchResult s.branches.length

theorem branchResults_node (c : Course) (ts : List ContinuationTree) :
    (node c ts).branchResults = c.branchResult ts.length :: ts.flatMap branchResults := by
  simp only [branchResults, subtrees, List.map_cons, course_node, branches_node, List.map_flatMap]
  rfl

end ContinuationTree

theorem Course.steps_branchResult (c : Course) (branches : Nat) :
    (c.branchResult branches).steps = c.steps := by
  unfold branchResult
  cases c.ending <;> rfl

theorem ContinuationTree.branchResult_outcome (t : ContinuationTree) (i : Nat) (x : Node) :
    (t.outcome i x).branchResult = x.2.course.branchResult x.2.branches.length := by
  unfold Outcome.branchResult Course.branchResult outcome Course.status
  cases x.2.course.ending with
  | completed | failed => rfl
  | forked => simp [length_children]

/-- A report has the results of the tree that it lists. -/
theorem Report.Lists.branchResults_eq {report : Report} {t : ContinuationTree} (h : report.Lists t) :
    report.branchResults = (t.branchResults : List BranchResult) := by
  have hnodes : (t.breadthFirst.mapIdx t.outcome).map Outcome.branchResult =
      (t.breadthFirst.map Prod.snd).map fun s => s.course.branchResult s.branches.length := by
    apply List.ext_getElem?
    intro i
    simp [Function.comp_def, ContinuationTree.branchResult_outcome]
  rw [Report.branchResults, h.outcomes, hnodes, Multiset.coe_eq_coe]
  exact t.perm_subtrees.map _

/-- The steps of a report are those of its results. -/
theorem Report.Lists.steps_eq {report : Report} {t : ContinuationTree} (h : report.Lists t) :
    report.steps = (report.branchResults.map BranchResult.steps).sum := by
  have hsum := (t.perm_subtrees.map (·.course.steps)).sum_eq
  rw [h.branchResults_eq, h.steps]
  simpa [ContinuationTree.branchResults, Function.comp_def, Course.steps_branchResult] using hsum

/-! ## Trees -/

section
variable {c : Course} {e : Ending}

theorem Ending.Reorders.origins (h : c.ending.Reorders e) :
    (Course.origins { c with ending := e }).Perm c.origins := by
  obtain ⟨block, previous, environment, steps, ending⟩ := c
  cases h with
  | refl => exact .refl _
  | forked h => exact (h.map _).symm

theorem Ending.Reorders.branchResult_eq (h : c.ending.Reorders e) (branches : Nat) :
    Course.branchResult { c with ending := e } branches = c.branchResult branches := by
  obtain ⟨block, previous, environment, steps, ending⟩ := c
  cases h <;> rfl

end

open ContinuationTree

theorem exists_forest_of_reorders {g : Graph} {os : List Origin} {ts : List ContinuationTree}
    (h : List.Forall₂ (fun o t => ∃ t', Grows g o t' ∧ t'.branchResults.Perm t.branchResults) os ts) :
    ∃ ts', List.Forall₂ (Grows g) os ts' ∧ ts'.length = ts.length ∧
      (ts'.flatMap branchResults).Perm (ts.flatMap branchResults) := by
  induction h with
  | nil => exact ⟨[], .nil, rfl, .nil⟩
  | cons h _ ih =>
    obtain ⟨t', ht', hresults⟩ := h
    obtain ⟨ts', hts', hlength, hrest⟩ := ih
    refine ⟨t' :: ts', .cons ht' hts', by simp [hlength], ?_⟩
    simp only [List.flatMap_cons]
    exact hresults.append hrest

/-- In a graph that names targets in another order the same tree grows, up to the order of branches. -/
theorem exists_grows_of_reorders {g g' : Graph} (hg : g.Reorders g') {o : Origin}
    {t : ContinuationTree} (h : Grows g o t) :
    ∃ t', Grows g' o t' ∧ t'.branchResults.Perm t.branchResults := by
  refine Grows.induction (P := fun o t => ∃ t', Grows g' o t' ∧ t'.branchResults.Perm t.branchResults)
    (fun {o c ts} htakes hts => ?_) h
  obtain ⟨e, htakes', hending⟩ := htakes.reorder hg
  obtain ⟨ts₁, hgrows, hlength, hresults⟩ := exists_forest_of_reorders hts
  -- The branches grow in the order of `c`; they are put in the order that the other graph names.
  obtain ⟨ts', hgrows', hperm⟩ := List.perm_comp_forall₂ hending.origins hgrows
  refine ⟨.node { c with ending := e } ts', .node htakes' hgrows', ?_⟩
  rw [branchResults_node, branchResults_node, hending.branchResult_eq, hperm.length_eq, hlength]
  exact ((hperm.flatMap_right branchResults).trans hresults).cons _

/-! ## Runs -/

namespace Run

/-- A report lists a tree of the graph. -/
theorem Returns.exists_tree {g : Graph} {config : Config} (hc : config.Unrestricted) {report : Report}
    (h : (start g config).Returns (.ok report)) :
    ∃ t, Grows g (.root g) t ∧ t.size ≤ maxSpawned ∧ report.Lists t := by
  have hreturns := h
  obtain ⟨limit, h⟩ := h
  obtain ⟨ts, hts, hsum⟩ := forest_of_finishWithin hc (show 1 ≤ maxSpawned by decide) h
  obtain ⟨t, rfl, ht⟩ : ∃ t, ts = [t] ∧ Grows g (.root g) t := by
    cases hts with
    | cons ht hnil =>
      cases hnil
      exact ⟨_, rfl, ht⟩
  have hsize : t.size ≤ maxSpawned := by
    simp only [start, List.map_singleton, List.sum_singleton, List.length_singleton] at hsum
    omega
  obtain ⟨report', hreturns', hlists⟩ := returns_of_grows hc ht hsize
  cases hreturns'.unique hreturns
  exact ⟨t, ht, hsize, hlists⟩

/-- If a run over one of the graphs returns a report, a run over the other returns one with as many
steps and the same results. -/
theorem Returns.reorder {g g' : Graph} (hg : g.Reorders g') {config : Config}
    (hc : config.Unrestricted) {report : Report} (h : (start g config).Returns (.ok report)) :
    ∃ report', (start g' config).Returns (.ok report') ∧ report'.steps = report.steps ∧
      report'.branchResults = report.branchResults := by
  obtain ⟨t, ht, hsize, hlists⟩ := h.exists_tree hc
  obtain ⟨t', ht', hperm⟩ := exists_grows_of_reorders hg ht
  have hsize' : t'.size = t.size := by
    have hlength := hperm.length_eq
    simpa [branchResults, length_subtrees] using hlength
  have hroot : Origin.root g' = .root g := by
    simp only [Origin.root, hg.start.id_eq]
  obtain ⟨report', hreturns, hlists'⟩ := returns_of_grows hc (hroot ▸ ht') (hsize' ▸ hsize)
  have hresults : report'.branchResults = report.branchResults := by
    rw [hlists'.branchResults_eq, hlists.branchResults_eq, Multiset.coe_eq_coe]
    exact hperm
  refine ⟨report', hreturns, ?_, hresults⟩
  rw [hlists'.steps_eq, hlists.steps_eq, hresults]

/-- Two runs come to the same results. -/
structure SameResults (r r' : Run) : Prop where
  returns : (∃ report, r.Returns (.ok report)) ↔ ∃ report, r'.Returns (.ok report)
  steps : ∀ report report', r.Returns (.ok report) → r'.Returns (.ok report') →
    report'.steps = report.steps
  results : ∀ report report', r.Returns (.ok report) → r'.Returns (.ok report') →
    report'.branchResults = report.branchResults

/-- **The order of siblings has no influence on any branch.** If the blocks of a graph, decisions apart,
name their targets in another order, that is a graph as well, and a run of it without limits returns
a report exactly if a run of the first one does. Both then have taken the same number of steps, and
their continuations have completed, failed and forked in the same places, after as many steps, with
the same variables, faults and numbers of branches. -/
theorem sibling_order_irrelevant {allow : Bool} {ds : List BlockDescription} {g : Graph}
    (hg : Graph.build allow ds = .ok g) {config : Config} (hc : config.Unrestricted) :
    (∀ ds', List.Forall₂ BlockDescription.Reorders ds ds' →
      ∃ g', Graph.build allow ds' = .ok g' ∧ g.Reorders g') ∧
    ∀ g', g.Reorders g' → SameResults (start g config) (start g' config) := by
  refine ⟨fun ds' h => Graph.exists_build_of_reorders h hg, fun g' h => ?_⟩
  have hboth : ∀ report report', (start g config).Returns (.ok report) →
      (start g' config).Returns (.ok report') →
      report'.steps = report.steps ∧ report'.branchResults = report.branchResults := by
    intro report report' hreport hreport'
    obtain ⟨report₁, hreport₁, hsame⟩ := hreport.reorder h hc
    cases hreport₁.unique hreport'
    exact hsame
  refine ⟨⟨?_, ?_⟩, fun _ _ h h' => (hboth _ _ h h').1, fun _ _ h h' => (hboth _ _ h h').2⟩
  · intro ⟨report, hreport⟩
    obtain ⟨report', hreport', -⟩ := hreport.reorder h hc
    exact ⟨report', hreport'⟩
  · intro ⟨report', hreport'⟩
    obtain ⟨report, hreport, -⟩ := hreport'.reorder h.symm hc
    exact ⟨report, hreport⟩

/-- A fork in a branch of a fork, with one of the five continuations failing, and the same graph with
both forks turned round. The continuations come in another order and have the same results. -/
theorem sibling_order_irrelevant_nested : ∃ g g' report report',
    Graph.build true [.withAdjacents (.start "s") ["a", "b"],
      .withAdjacents (.decimalAssign "a" "x" "1") ["b", "c"], .decimalAssign "b" "y" "x",
      .boolAssign "c" "z" "x"] = .ok g ∧
    Graph.build true [.withAdjacents (.start "s") ["b", "a"],
      .withAdjacents (.decimalAssign "a" "x" "1") ["c", "b"], .decimalAssign "b" "y" "x",
      .boolAssign "c" "z" "x"] = .ok g' ∧
    (start g .default).Returns (.ok report) ∧ (start g' .default).Returns (.ok report') ∧
    report.outcomes.map Outcome.lastBlock = ["s", "a", "b", "b", "c"] ∧
    report'.outcomes.map Outcome.lastBlock = ["s", "b", "a", "c", "b"] ∧
    report'.steps = report.steps ∧ report'.branchResults = report.branchResults := by
  let b : Block := ⟨"b", .assign "y" .decimal ⟨"x", .name "x", ["x"]⟩ []⟩
  let c : Block := ⟨"c", .assign "z" .bool ⟨"x", .name "x", ["x"]⟩ []⟩
  let g : Graph :=
    { blocks := [⟨"s", .start ["a", "b"]⟩,
        ⟨"a", .assign "x" .decimal ⟨"1", .number .one, []⟩ ["b", "c"]⟩, b, c]
      index := [("a", 1), ("b", 2), ("c", 3), ("s", 0)]
      startAt := 0 }
  let g' : Graph :=
    { blocks := [⟨"s", .start ["b", "a"]⟩,
        ⟨"a", .assign "x" .decimal ⟨"1", .number .one, []⟩ ["c", "b"]⟩, b, c]
      index := [("a", 1), ("b", 2), ("c", 3), ("s", 0)]
      startAt := 0 }
  have hbuild : Graph.build true [.withAdjacents (.start "s") ["a", "b"],
      .withAdjacents (.decimalAssign "a" "x" "1") ["b", "c"], .decimalAssign "b" "y" "x",
      .boolAssign "c" "z" "x"] = .ok g := by decide +kernel
  have hreorders : g.Reorders g' :=
    ⟨.cons (.start (.swap ..)) (.cons (.assign (.swap ..))
      (.cons (.assign .rfl) (.cons (.assign .rfl) .nil))), rfl, .start (.swap ..)⟩
  have hreturns : (start g .default).Returns (.ok ((start g .default).after 5).report) :=
    ⟨6, by decide +kernel⟩
  have hreturns' : (start g' .default).Returns (.ok ((start g' .default).after 5).report) :=
    ⟨6, by decide +kernel⟩
  have hc : Config.default.Unrestricted := ⟨rfl, rfl, rfl⟩
  have hsame := (sibling_order_irrelevant hbuild hc).2 g' hreorders
  exact ⟨g, g', _, _, hbuild, by decide +kernel, hreturns, hreturns', by decide +kernel,
    by decide +kernel, hsame.steps _ _ hreturns hreturns', hsame.results _ _ hreturns hreturns'⟩

end Run

end Flowchart
