/-
A run without limits lists the continuation tree of its graph in breadth-first order. If the
tree is finite and its nodes can be numbered, the run returns, and the outcomes are the
nodes, each with its place in the list as its number; if the run returns a report, there is
such a tree. The argument takes one continuation at a time: at the front of the queue it
takes its whole course (`reaches_ended`), and that moves one node from the pending ones to
the listed ones (`Listing.advance`).
-/
import Flowchart.Proofs.Run.Tree
import Flowchart.Proofs.Run.Walk

namespace Flowchart

/-- No limit is set, and blocks may fan out. -/
structure Config.Unrestricted (c : Config) : Prop where
  stepBudget : c.stepBudget = none
  maxContinuations : c.maxContinuations = none
  allowFanOut : c.allowFanOut = true

/-- The place where a continuation stands. -/
def Continuation.origin (c : Continuation) : Origin := ⟨c.block, c.previous, c.environment⟩

/-- How the continuation `id` ends after a course, its branches being numbered as given. -/
def Course.status (c : Course) (id : Nat) (branches : List Nat) : Status :=
  match c.ending with
  | .completed => .completed c.environment
  | .forked _ => .forked branches
  | .failed fault =>
    .failed
      { continuation := id, block := c.block, previous := c.previous, fault,
        environment := c.environment }

namespace ContinuationTree

/-- The number of the node above a path. -/
def parentIndex (t : ContinuationTree) (path : List Nat) : Option Nat :=
  if path = [] then none else some (t.index path.dropLast)

/-- The outcome of the node `x`, which has the number `i`. Other nodes are referred to by their
places in breadth-first order. -/
def outcome (t : ContinuationTree) (i : Nat) (x : Node) : Outcome :=
  { id := i
    parent := t.parentIndex x.1
    lastBlock := x.2.course.block
    steps := x.2.course.steps
    status := x.2.course.status i ((children x).map fun y => t.index y.1) }

/-- Nodes that are listed one after the other have consecutive places. -/
theorem map_index {t : ContinuationTree} (pre xs post : List Node)
    (h : t.breadthFirst = pre ++ xs ++ post) :
    xs.map (fun y => t.index y.1) = List.range' pre.length xs.length := by
  induction xs generalizing pre with
  | nil => rfl
  | cons x xs ih =>
    have hn := t.nodup_breadthFirst
    have hx : t.index x.1 = pre.length := by
      rw [h, List.append_assoc, List.map_append] at hn
      have hnot : x.1 ∉ pre.map Prod.fst := fun hm =>
        (List.nodup_append.1 hn).2.2 _ hm _ (by simp) rfl
      rw [index, h, List.append_assoc, List.map_append, List.idxOf_append_of_notMem hnot]
      simp
    have ht := ih (pre ++ [x]) (by simpa using h)
    simp only [List.map_cons, List.length_cons, List.range'_succ, hx, ht]
    simp

end ContinuationTree

/-- A report lists the nodes of a tree. -/
structure Report.Lists (report : Report) (t : ContinuationTree) : Prop where
  outcomes : report.outcomes = t.breadthFirst.mapIdx t.outcome
  steps : report.steps = (t.breadthFirst.map fun x => x.2.course.steps).sum

namespace Run

/-! ## One continuation -/

theorem blockFor_of_unrestricted {r : Run} (hc : r.config.Unrestricted) {c : Continuation} {b : Block}
    (hb : r.graph.get? c.block = some b) : r.blockFor c = .ok b := by
  simp [blockFor, spentBudget?, hc.stepBudget, hc.allowFanOut, hb]

theorem exceededLimit?_of_unrestricted {r : Run} (hc : r.config.Unrestricted) (total : Nat) :
    r.exceededLimit? total = if maxSpawned < total then some maxSpawned else none := by
  simp [exceededLimit?, hc.maxContinuations]

/-- The continuations that start the branches of a course. -/
def branching (course : Course) (parent first : Nat) : List Continuation :=
  children { id := parent, parent := none, block := course.block, previous := none,
             environment := course.environment, steps := 0 } first course.targets

/-- Children take only the number, the block and the environment from their parent. -/
theorem children_eq_branching {c : Continuation} {course : Course} (hb : c.block = course.block)
    (he : c.environment = course.environment) (first : Nat) :
    children c first course.targets = branching course c.id first := by
  unfold branching
  generalize course.targets = targets
  induction targets generalizing first with
  | nil => rfl
  | cons t ts ih => simp [children, hb, he, ih]

/-- `r'` is `r` after the continuation `c`, at the front of its queue, took its course. -/
structure Ended (r : Run) (c : Continuation) (rest : List Continuation) (course : Course)
    (r' : Run) : Prop where
  graph : r'.graph = r.graph
  config : r'.config = r.config
  halted : r'.halted = r.halted
  queue : r'.queue = rest ++ branching course c.id r.spawned
  outcomes : r'.outcomes.toList = r.outcomes.toList ++
    [{ id := c.id, parent := c.parent, lastBlock := course.block, steps := c.steps + course.steps,
       status := course.status c.id (List.range' r.spawned course.targets.length) }]
  spawned : r'.spawned = r.spawned + course.targets.length
  steps : r'.steps = r.steps + course.steps

/-- The last signal of a course settles the continuation. -/
theorem ended_of_ending {r : Run} (hr : r.halted = none) (hc : r.config.Unrestricted)
    {c : Continuation} {rest : List Continuation} (hq : r.queue = c :: rest) {b : Block}
    (hb : r.graph.get? c.block = some b) {s : Signal} {env : Environment}
    (hs : b.signal c.environment = (s, env)) {ending : Ending} (he : s.ending? = some ending)
    (hl : r.spawned + (Course.mk c.block c.previous env 1 ending).targets.length ≤ maxSpawned) :
    ∃ r', Next r r' ∧ Ended r c rest ⟨c.block, c.previous, env, 1, ending⟩ r' := by
  have hstep : ∀ {r'}, (r.entered c rest s).settle (c.signalled env) s = .ok r' → Next r r' :=
    fun h => ⟨_, step_eq_iff.2 (.settled hr hq (blockFor_of_unrestricted hc hb) hs h)⟩
  cases s with
  | next target => cases he
  | terminate =>
    cases he
    refine ⟨_, hstep rfl, rfl, rfl, rfl, ?_, ?_, rfl, rfl⟩
    · simp [branching, children, Course.targets]
    · simp [Course.status, Continuation.signalled]
  | fault f =>
    cases he
    refine ⟨_, hstep rfl, rfl, rfl, rfl, ?_, ?_, rfl, rfl⟩
    · simp [branching, children, Course.targets]
    · simp [Course.status, Continuation.signalled]
  | fork targets =>
    cases he
    have hnot : ¬ maxSpawned < r.spawned + targets.length := Nat.not_lt.2 hl
    have hlimit : (r.entered c rest (.fork targets)).exceededLimit? (r.spawned + targets.length) = none := by
      rw [exceededLimit?_of_unrestricted (by exact hc), if_neg hnot]
    have hfork := fork_eq (r.entered c rest (.fork targets)) (c.signalled env) targets
    simp only [entered_spawned, hlimit] at hfork
    refine ⟨_, hstep hfork, rfl, rfl, rfl, ?_, ?_, rfl, rfl⟩
    · let course : Course := ⟨c.block, c.previous, env, 1, .forked targets⟩
      have hchildren : children (c.signalled env) r.spawned course.targets =
          branching course c.id r.spawned := children_eq_branching rfl rfl _
      exact congrArg (rest ++ ·) hchildren
    · simp [Course.status, Course.targets, Continuation.signalled]

/-- A continuation at the front of the queue takes its whole course before any other one
takes a step. -/
theorem reaches_ended {r : Run} (hr : r.halted = none) (hc : r.config.Unrestricted)
    {c : Continuation} {rest : List Continuation} (hq : r.queue = c :: rest) {course : Course}
    (h : Takes r.graph c.origin course) (hl : r.spawned + course.targets.length ≤ maxSpawned) :
    ∃ r', Reaches r r' ∧ Ended r c rest course r' := by
  generalize ho : c.origin = o at h
  generalize hg : r.graph = g at h
  induction h generalizing r c with
  | stop hb hs he =>
    subst ho hg
    obtain ⟨r', hnext, hend⟩ := ended_of_ending hr hc hq hb hs he hl
    exact ⟨r', .single hnext, hend⟩
  | @next o b target env course hb hs _ ih =>
    subst ho hg
    let c' := { c.signalled env with block := target, previous := some c.block }
    let r₁ := { r.entered c rest (.next target) with queue := c' :: rest }
    have hnext : Next r r₁ :=
      ⟨_, step_eq_iff.2 (.settled hr hq (blockFor_of_unrestricted hc hb) hs rfl)⟩
    obtain ⟨r', hreach, hend⟩ := @ih r₁ hr hc c' rfl hl rfl rfl
    refine ⟨r', .head hnext hreach, hend.graph, hend.config, hend.halted, hend.queue, ?_,
      hend.spawned, ?_⟩
    · have hsum : c.steps + 1 + course.steps = c.steps + (course.steps + 1) := by omega
      rw [← hsum]
      exact hend.outcomes
    · have hsum : r.steps + 1 + course.steps = r.steps + (course.steps + 1) := by omega
      rw [← hsum]
      exact hend.steps

/-! ## The whole tree -/

open ContinuationTree

/-- Continuations that wait for their first step stand for nodes of a tree, and are numbered
from `n` on. -/
inductive Queued (g : Graph) (t : ContinuationTree) : Nat → List Node → List Continuation → Prop
  | nil {n} : Queued g t n [] []
  | cons {n x xs c cs} (hid : c.id = n) (hparent : c.parent = t.parentIndex x.1)
      (hsteps : c.steps = 0) (hgrows : Grows g c.origin x.2) (h : Queued g t (n + 1) xs cs) :
      Queued g t n (x :: xs) (c :: cs)

theorem Queued.append {g : Graph} {t : ContinuationTree} {n xs cs ys ds} (h : Queued g t n xs cs)
    (h' : Queued g t (n + xs.length) ys ds) : Queued g t n (xs ++ ys) (cs ++ ds) := by
  induction h with
  | nil => simpa using h'
  | cons hid hparent hsteps hgrows _ ih =>
    refine .cons hid hparent hsteps hgrows (ih ?_)
    simpa [Nat.add_assoc, Nat.add_comm 1] using h'

/-- The continuations that start the branches of a node stand for its children. -/
theorem queued_branching {g : Graph} {t : ContinuationTree} {path : List Nat} {course : Course}
    {parent : Nat} (hid : parent = t.index path) {ts : List ContinuationTree}
    (h : List.Forall₂ (Grows g) course.origins ts) (i first : Nat) :
    Queued g t first (numbered path i ts) (branching course parent first) := by
  unfold Course.origins at h
  unfold branching
  generalize course.targets = targets at h ⊢
  induction targets generalizing ts i first with
  | nil => cases h; exact .nil
  | cons target targets ih =>
    cases h with
    | cons h hs =>
      refine .cons rfl ?_ rfl h (ih (i + 1) (first + 1) hs)
      simp [parentIndex, hid]

/-- The run `r` has listed the nodes `done` of a tree and has the nodes `pending` queued. -/
structure Listing (g : Graph) (t : ContinuationTree) (done pending : List Node) (r : Run) :
    Prop where
  graph : r.graph = g
  config : r.config.Unrestricted
  halted : r.halted = none
  outcomes : r.outcomes.toList = done.mapIdx t.outcome
  queue : Queued g t done.length pending r.queue
  spawned : r.spawned = done.length + pending.length
  steps : r.steps = (done.map fun x => x.2.course.steps).sum

/-- The front continuation takes its course: its node is listed, and the nodes of its
children are queued. -/
theorem Listing.advance {g : Graph} {t : ContinuationTree} {done xs ys : List Node} {x : Node}
    {r : Run} (hr : Listing g t done (x :: xs) r) (hy : Unfolds (xs ++ ContinuationTree.children x) ys)
    (ht : t.breadthFirst = done ++ x :: ys) (hsize : t.breadthFirst.length ≤ maxSpawned) :
    ∃ r', Reaches r r' ∧ Listing g t (done ++ [x]) (xs ++ ContinuationTree.children x) r' := by
  obtain ⟨path, s⟩ := x
  obtain ⟨post, hpost⟩ := hy.isPrefix
  rw [← hpost] at ht
  generalize hq : r.queue = queue
  have hqueue := hr.queue
  rw [hq] at hqueue
  cases hqueue with
  | @cons _ _ _ c rest hid hparent hsteps hgrows hrest =>
  cases hgrows with
  | @node _ course ts htakes hbranches =>
  have hlen : ts.length = course.targets.length := by
    simpa [Course.origins] using hbranches.length_eq.symm
  -- The node and its children have their places in the list.
  have hindex : t.index path = done.length := by
    simpa using map_index done [(path, .node course ts)] (xs ++ _ ++ post) (by simpa using ht)
  have hchildren : (ContinuationTree.children (path, .node course ts)).map (fun y => t.index y.1) =
      List.range' r.spawned course.targets.length := by
    rw [map_index (done ++ (path, .node course ts) :: xs) _ post (by simpa using ht), hr.spawned]
    simp [ContinuationTree.length_children, hlen]
  have hlimit : r.spawned + course.targets.length ≤ maxSpawned := by
    have hspawned := hr.spawned
    rw [ht] at hsize
    simp only [List.length_append, List.length_cons, ContinuationTree.length_children,
      branches_node] at hsize hspawned
    omega
  obtain ⟨r', hreach, hend⟩ :=
    reaches_ended hr.halted hr.config hq (hr.graph ▸ htakes) hlimit
  refine ⟨r', hreach, hend.graph.trans hr.graph, hend.config ▸ hr.config,
    hend.halted.trans hr.halted, ?_, ?_, ?_, ?_⟩
  · rw [hend.outcomes, hr.outcomes, List.mapIdx_append]
    simp [outcome, hid, hparent, hsteps, hchildren]
  · rw [hend.queue, List.length_append]
    have hfirst : r.spawned = done.length + 1 + xs.length := by
      rw [hr.spawned, List.length_cons]
      omega
    refine hrest.append ?_
    rw [← hfirst]
    exact queued_branching (hid.trans hindex.symm) hbranches 0 r.spawned
  · rw [hend.spawned, hr.spawned]
    simp [ContinuationTree.length_children, hlen]
    omega
  · rw [hend.steps, hr.steps]
    simp

/-- Every node is listed in the end. -/
theorem Listing.complete {g : Graph} {t : ContinuationTree} {done pending ys : List Node} {r : Run}
    (hr : Listing g t done pending r) (hy : Unfolds pending ys) (ht : t.breadthFirst = done ++ ys)
    (hsize : t.breadthFirst.length ≤ maxSpawned) :
    ∃ r', Reaches r r' ∧ Listing g t t.breadthFirst [] r' := by
  induction hy generalizing done r with
  | nil => exact ⟨r, .refl, by rw [ht, List.append_nil]; exact hr⟩
  | cons hy ih =>
    obtain ⟨r₁, hreach, hr₁⟩ := hr.advance hy ht hsize
    obtain ⟨r', hreach', hr'⟩ := ih hr₁ (by simpa using ht)
    exact ⟨r', hreach.trans hreach', hr'⟩

theorem listing_start {g : Graph} {t : ContinuationTree} {config : Config}
    (hc : config.Unrestricted) (ht : Grows g (.root g) t) :
    Listing g t [] [([], t)] (start g config) :=
  ⟨rfl, hc, rfl, rfl, .cons rfl rfl rfl ht .nil, rfl, rfl⟩

theorem Listing.returns {g : Graph} {t : ContinuationTree} {r : Run}
    (hr : Listing g t t.breadthFirst [] r) : r.Returns (.ok r.report) ∧ r.report.Lists t := by
  have hq : r.queue = [] := by
    have := hr.queue
    generalize r.queue = queue at this
    cases this
    rfl
  refine ⟨⟨1, ?_⟩, hr.outcomes, hr.steps⟩
  rw [finishWithin_succ, step_eq_iff.2 (.drained hr.halted hq)]

/-- A run over a finite tree whose nodes can be numbered returns the list of its nodes. -/
theorem returns_of_grows {g : Graph} {t : ContinuationTree} {config : Config}
    (hc : config.Unrestricted) (ht : Grows g (.root g) t) (hsize : t.size ≤ maxSpawned) :
    ∃ report, (start g config).Returns (.ok report) ∧ report.Lists t := by
  have hlen : t.breadthFirst.length = t.size := by
    simpa using t.unfolds_breadthFirst.length
  obtain ⟨r', hreach, hr'⟩ :=
    (listing_start hc ht).complete t.unfolds_breadthFirst rfl (hlen ▸ hsize)
  exact ⟨r'.report, hreach.returns_iff.2 hr'.returns.1, hr'.returns.2⟩

/-! ## From a report to the tree -/

theorem children_map_origin (c : Continuation) (first : Nat) (targets : List String) :
    (children c first targets).map Continuation.origin =
      targets.map fun target => ⟨target, some c.block, c.environment⟩ := by
  induction targets generalizing first with
  | nil => rfl
  | cons t ts ih => simp [children, Continuation.origin, ih]

theorem spawned_le_of_settle {r r' : Run} {c s} (h : r.settle c s = .ok r')
    (hc : r.config.Unrestricted) (hs : r.spawned ≤ maxSpawned) : r'.spawned ≤ maxSpawned := by
  cases s with
  | terminate | fault | next => cases h; exact hs
  | fork targets =>
    simp only [settle, fork_eq, exceededLimit?_of_unrestricted hc] at h
    by_cases hl : maxSpawned < r.spawned + targets.length
    · simp [hl] at h
    · simp only [hl, if_false] at h
      cases h
      exact Nat.not_lt.1 hl

/-- The trees `ts` grow from the queued continuations, and their nodes can be numbered. -/
def Forest (r : Run) (ts : List ContinuationTree) : Prop :=
  List.Forall₂ (fun c t => Grows r.graph c.origin t) r.queue ts ∧
    r.spawned + (ts.map size).sum ≤ maxSpawned + ts.length

/-- What grows after a step grew before it. -/
theorem Forest.of_settled {r r' : Run} {ts} (ht : r'.Forest ts) {c rest b s env}
    (hq : r.queue = c :: rest) (hb : r.blockFor c = .ok b) (hs : b.signal c.environment = (s, env))
    (h : (r.entered c rest s).settle (c.signalled env) s = .ok r') : ∃ ts, r.Forest ts := by
  have hget : r.graph.get? c.origin.block = some b := get?_of_blockFor hb
  obtain ⟨hgrows, hsize⟩ := ht
  cases s with
  | terminate =>
    cases h
    refine ⟨.node ⟨c.block, c.previous, env, 1, .completed⟩ [] :: ts, ?_, ?_⟩
    · rw [hq]
      exact .cons (.node (.stop hget hs rfl) .nil) hgrows
    · simp [size] at hsize ⊢
      omega
  | fault f =>
    cases h
    refine ⟨.node ⟨c.block, c.previous, env, 1, .failed f⟩ [] :: ts, ?_, ?_⟩
    · rw [hq]
      exact .cons (.node (.stop hget hs rfl) .nil) hgrows
    · simp [size] at hsize ⊢
      omega
  | next target =>
    cases h
    cases hgrows with
    | @cons _ t _ ts h hgrows =>
    cases h with
    | @node _ course branches htakes hbranches =>
    refine ⟨.node { course with steps := course.steps + 1 } branches :: ts, ?_, ?_⟩
    · rw [hq]
      exact .cons (.node (.next hget hs htakes) hbranches) hgrows
    · simpa [size] using hsize
  | fork targets =>
    simp only [settle, fork_eq] at h
    split at h
    · cases h
    next hlimit =>
    cases h
    obtain ⟨ts₁, ts₂, rfl, hrest, hbranches⟩ := forall₂_append_left hgrows
    refine ⟨.node ⟨c.block, c.previous, env, 1, .forked targets⟩ ts₂ :: ts₁, ?_, ?_⟩
    · rw [hq]
      refine .cons (.node (.stop hget hs rfl) ?_) hrest
      have := List.forall₂_map_left_iff.2 hbranches
      rwa [children_map_origin] at this
    · have hlen := hbranches.length_eq
      simp [size, length_children] at hsize hlen ⊢
      omega

/-- If a run returns a report, then finite trees grow from its continuations. -/
theorem forest_of_finishWithin {r : Run} {limit : Nat} {report : Report}
    (hc : r.config.Unrestricted) (hs : r.spawned ≤ maxSpawned)
    (h : r.finishWithin limit = some (.ok report)) : ∃ ts, r.Forest ts := by
  induction limit generalizing r with
  | zero => cases h
  | succ limit ih =>
    rcases hstep : r.step with ⟨result, r'⟩
    rw [finishWithin_succ, hstep] at h
    cases step_eq_iff.1 hstep with
    | halted | refused | exceeded => cases h
    | drained hr hq => exact ⟨[], hq ▸ .nil, by simpa using hs⟩
    | settled hr hq hb hsig hset =>
      obtain ⟨-, hconfig, -, -⟩ := settle_frame hset
      obtain ⟨ts, ht⟩ := ih (hconfig ▸ hc) (spawned_le_of_settle hset hc hs) h
      exact ht.of_settled hq hb hsig hset

/-- On a closed graph nothing but the numbering of continuations stops a run without limits. -/
theorem error_of_finishWithin {r : Run} {limit : Nat} {e : RunError} (hg : r.graph.Closed)
    (hc : r.config.Unrestricted) (hr : r.halted = none) (hon : r.OnGraph)
    (h : r.finishWithin limit = some (.error e)) : e = .continuationLimit maxSpawned := by
  induction limit generalizing r with
  | zero => cases h
  | succ limit ih =>
    rcases hstep : r.step with ⟨result, r'⟩
    rw [finishWithin_succ, hstep] at h
    have hto := step_eq_iff.1 hstep
    have hon' := hon.step hg hto
    cases hto with
    | halted hr' => cases hr.symm.trans hr'
    | drained => cases h
    | @refused c rest _ _ hq hb =>
      obtain ⟨b, hget⟩ := Option.isSome_iff_exists.1 (hon c (by simp [hq]))
      cases (blockFor_of_unrestricted hc hget).symm.trans hb
    | exceeded _ _ _ _ hset =>
      obtain ⟨targets, limit, -, rfl, hl⟩ := settle_error hset
      rw [exceededLimit?_of_unrestricted (by exact hc)] at hl
      split at hl
      · cases hl; cases h; rfl
      · cases hl
    | settled _ _ _ _ hset =>
      obtain ⟨hgraph, hconfig, hhalted, -⟩ := settle_frame hset
      exact ih (hgraph ▸ hg) (hconfig ▸ hc) (hhalted.trans hr) hon' h

/-- **A run without limits computes the continuation tree of its graph, in breadth-first
order.** If the tree is finite and has fewer than `2 ^ 32` nodes, the run returns a report whose
outcomes are its nodes; if the run returns a report, there is such a tree; and it returns an
error only if continuations cannot be numbered any more. -/
theorem run_lists_breadthFirst {allow : Bool} {ds : List BlockDescription} {g : Graph}
    (hg : Graph.build allow ds = .ok g) {config : Config} (hc : config.Unrestricted) :
    (∀ t, Grows g (.root g) t → t.size < 2 ^ 32 →
      ∃ report, (start g config).Returns (.ok report) ∧ report.Lists t) ∧
    (∀ report, (start g config).Returns (.ok report) →
      ∃ t, Grows g (.root g) t ∧ t.size < 2 ^ 32 ∧ report.Lists t) ∧
    (∀ e, (start g config).Returns (.error e) → e = .continuationLimit (2 ^ 32 - 1)) := by
  have hclosed := Graph.closed_of_build hg
  have hlists : ∀ t, Grows g (.root g) t → t.size < 2 ^ 32 →
      ∃ report, (start g config).Returns (.ok report) ∧ report.Lists t :=
    fun t ht hsize => returns_of_grows hc ht (Nat.le_pred_of_lt hsize)
  refine ⟨hlists, fun report hreport => ?_, fun e he => ?_⟩
  · obtain ⟨limit, hlimit⟩ := hreport
    obtain ⟨ts, hts, hsum⟩ := forest_of_finishWithin hc (by simp [start, maxSpawned]) hlimit
    obtain ⟨t, rfl, ht⟩ : ∃ t, ts = [t] ∧ Grows g (.root g) t := by
      cases hts with
      | cons ht hnil => cases hnil; exact ⟨_, rfl, ht⟩
    have hsize : t.size < 2 ^ 32 := by
      simp [start, maxSpawned] at hsum
      omega
    obtain ⟨report', hreturns, hreport'⟩ := hlists t ht hsize
    cases hreturns.unique ⟨limit, hlimit⟩
    exact ⟨t, ht, hsize, hreport'⟩
  · obtain ⟨limit, hlimit⟩ := he
    exact error_of_finishWithin hclosed hc rfl (onGraph_start hclosed config) hlimit

/-- A fork with two branches, the first of which fails. -/
theorem run_lists_breadthFirst_fork : ∃ g t,
    Graph.build true [.withAdjacents (.start "s") ["b", "a"], .decimalAssign "a" "x" "1",
      .withTarget (.decimalAssign "b" "y" "x") "a"] = .ok g ∧
    Grows g (.root g) t ∧ t.size = 3 ∧
    ∃ report, (start g .default).Returns (.ok report) ∧ report.Lists t := by
  let g : Graph :=
    { blocks := [⟨"s", .start ["b", "a"]⟩, ⟨"a", .assign "x" .decimal ⟨"1", .number .one, []⟩ []⟩,
        ⟨"b", .assign "y" .decimal ⟨"x", .name "x", ["x"]⟩ ["a"]⟩]
      index := [("a", 1), ("b", 2), ("s", 0)]
      startAt := 0 }
  let t : ContinuationTree :=
    .node ⟨"s", none, .empty, 1, .forked ["b", "a"]⟩
      [.node ⟨"b", some "s", .empty, 1, .failed (.evaluation "x" (.unknownName "x"))⟩ [],
        .node ⟨"a", some "s", Environment.empty.insert "x" (.decimal .one), 1, .completed⟩ []]
  have hg : Graph.build true [.withAdjacents (.start "s") ["b", "a"], .decimalAssign "a" "x" "1",
      .withTarget (.decimalAssign "b" "y" "x") "a"] = .ok g := by decide +kernel
  have ht : Grows g (.root g) t := by
    refine .node (.stop rfl rfl rfl) (.cons ?_ (.cons ?_ .nil))
    · exact .node (.stop rfl rfl rfl) .nil
    · exact .node (.stop rfl rfl rfl) .nil
  have hsize : t.size = 3 := by simp [t, ContinuationTree.size]
  have hc : Config.default.Unrestricted := ⟨rfl, rfl, rfl⟩
  have hlists := (run_lists_breadthFirst hg hc).1 t ht (by rw [hsize]; decide)
  exact ⟨g, t, hg, ht, hsize, hlists⟩

end Run

end Flowchart
