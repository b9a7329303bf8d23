/-
Continuation trees: what a graph does from a place in it, said without a queue. A
continuation takes its course by signalling block after block while control goes to one
next block, and it ends by completing, by failing or by forking; forked, it has a branch
for each target, with the environment that it had at the fork.

The nodes of a tree are told apart by their paths from the root. `breadthFirst` lists them
level by level, and `index` is the place of a path in that list. `Unfolds` lists them with a
queue, and both lists are the same (`unfolds_breadthFirst`).
-/
import Flowchart.Graph
import Mathlib

namespace Flowchart

/-- Where a continuation starts: before a block, coming from another one or from nowhere. -/
structure Origin where
  block : String
  previous : Option String
  environment : Environment

/-- Where a run of the graph starts. -/
def Origin.root (g : Graph) : Origin := ⟨g.start.id, none, .empty⟩

/-- How a continuation ends. -/
inductive Ending
  | completed
  | forked (targets : List String)
  | failed (fault : BlockFault)

/-- How a signal ends a continuation, unless control goes to one next block. -/
def Signal.ending? : Signal → Option Ending
  | terminate => some .completed
  | next _ => none
  | fork targets => some (.forked targets)
  | fault f => some (.failed f)

/-- A continuation from its start to its end: its last block, the block before that, the
environment after the last signal, and the number of signals. -/
structure Course where
  block : String
  previous : Option String
  environment : Environment
  steps : Nat
  ending : Ending

namespace Course

/-- The blocks to which control goes at the end. -/
def targets (c : Course) : List String :=
  match c.ending with
  | .forked targets => targets
  | .completed | .failed _ => []

/-- Where the branches start, in the order of the targets. -/
def origins (c : Course) : List Origin :=
  c.targets.map fun target => ⟨target, some c.block, c.environment⟩

end Course

/-- The continuation from `o` takes the course `c`. -/
inductive Takes (g : Graph) : Origin → Course → Prop
  | stop {o : Origin} {b s env ending} (hb : g.get? o.block = some b)
      (hs : b.signal o.environment = (s, env)) (he : s.ending? = some ending) :
      Takes g o ⟨o.block, o.previous, env, 1, ending⟩
  | next {o : Origin} {b target env c} (hb : g.get? o.block = some b)
      (hs : b.signal o.environment = (.next target, env))
      (h : Takes g ⟨target, some o.block, env⟩ c) : Takes g o { c with steps := c.steps + 1 }

/-- A continuation with everything that came of it. -/
inductive ContinuationTree
  | node (course : Course) (branches : List ContinuationTree)

/-- The tree of the continuation that starts at an origin. Only a continuation that ends,
and whose branches all do, has one. -/
inductive Grows (g : Graph) : Origin → ContinuationTree → Prop
  | node {o c ts} (hc : Takes g o c) (ht : List.Forall₂ (Grows g) c.origins ts) :
      Grows g o (.node c ts)

/-- What holds of a continuation if it holds of its branches holds of every tree. -/
theorem Grows.induction {g : Graph} {P : Origin → ContinuationTree → Prop}
    (hnode : ∀ {o c ts}, Takes g o c → List.Forall₂ P c.origins ts → P o (.node c ts))
    {o : Origin} {t : ContinuationTree} (h : Grows g o t) : P o t := by
  refine @Grows.rec g (fun o t _ => P o t) (fun os ts _ => List.Forall₂ P os ts) ?_ ?_ ?_ o t h
  · intro o c ts hc _ hts
    exact hnode hc hts
  · exact .nil
  · intro o t os ts _ _ ht hts
    exact .cons ht hts

namespace ContinuationTree

def course : ContinuationTree → Course
  | node c _ => c

def branches : ContinuationTree → List ContinuationTree
  | node _ ts => ts

@[simp] theorem course_node (c : Course) (ts : List ContinuationTree) : (node c ts).course = c := rfl

@[simp] theorem branches_node (c : Course) (ts : List ContinuationTree) :
    (node c ts).branches = ts := rfl

/-- The number of nodes. -/
def size : ContinuationTree → Nat
  | node _ ts => 1 + (ts.map size).sum

/-- The number of levels. -/
def height : ContinuationTree → Nat
  | node _ ts => 1 + (ts.map height).foldr max 0

/-- The tree and everything that grows in it, a node before its branches. -/
def subtrees : ContinuationTree → List ContinuationTree
  | node c ts => node c ts :: ts.flatMap subtrees

/-- A node of a tree: its path from the root, and what grows there. -/
abbrev Node := List Nat × ContinuationTree

/-- Branches of the node at `path`, the first of which has the number `i`. -/
def numbered (path : List Nat) (i : Nat) : List ContinuationTree → List Node
  | [] => []
  | t :: ts => (path ++ [i], t) :: numbered path (i + 1) ts

/-- The children of a node, from left to right. -/
def children (x : Node) : List Node := numbered x.1 0 x.2.branches

/-- The nodes one level below. -/
def nextLevel (xs : List Node) : List Node := xs.flatMap children

/-- The nodes of a level, from left to right. -/
def level (t : ContinuationTree) (depth : Nat) : List Node := nextLevel^[depth] [([], t)]

/-- All nodes, level by level and from left to right. -/
def breadthFirst (t : ContinuationTree) : List Node := (List.range t.height).flatMap t.level

/-- The place of a path among the nodes in breadth-first order. -/
def index (t : ContinuationTree) (path : List Nat) : Nat :=
  (t.breadthFirst.map Prod.fst).idxOf path

/-! ## Levels -/

theorem height_pos (t : ContinuationTree) : 0 < t.height := by
  cases t
  simp only [height]
  omega

theorem le_foldr_max {n : Nat} : ∀ {l : List Nat}, n ∈ l → n ≤ l.foldr max 0
  | [], h => by simp at h
  | m :: l, h => by
    simp only [List.foldr_cons]
    rcases List.mem_cons.1 h with rfl | h
    · exact Nat.le_max_left _ _
    · exact (le_foldr_max h).trans (Nat.le_max_right _ _)

theorem height_lt_of_mem_branches {t s : ContinuationTree} (h : s ∈ t.branches) :
    s.height < t.height := by
  obtain ⟨c, ts⟩ := t
  have := le_foldr_max (List.mem_map_of_mem (f := height) h)
  simp only [height, branches] at this ⊢
  omega

theorem mem_of_mem_numbered {path : List Nat} {i : Nat} {x : Node} {ts : List ContinuationTree}
    (h : x ∈ numbered path i ts) : x.2 ∈ ts := by
  induction ts generalizing i with
  | nil => simp [numbered] at h
  | cons t ts ih =>
    rcases List.mem_cons.1 h with rfl | h
    · exact List.mem_cons_self
    · exact List.mem_cons_of_mem _ (ih h)

theorem numbered_paths (path : List Nat) (i : Nat) (ts : List ContinuationTree) :
    (numbered path i ts).map Prod.fst = (List.range' i ts.length).map (path ++ [·]) := by
  induction ts generalizing i with
  | nil => rfl
  | cons t ts ih => simp [numbered, ih, List.range'_succ]

theorem length_children (x : Node) : (children x).length = x.2.branches.length := by
  simpa [children] using congrArg List.length (numbered_paths x.1 0 x.2.branches)

/-- The paths of a level are as long as the level is deep. -/
theorem length_of_mem_level {t : ContinuationTree} {depth : Nat} {path : List Nat}
    (h : path ∈ (t.level depth).map Prod.fst) : path.length = depth := by
  induction depth generalizing path with
  | zero => simp_all [level]
  | succ depth ih =>
    simp only [level, Function.iterate_succ_apply', nextLevel, List.map_flatMap, List.mem_flatMap,
      children, numbered_paths, List.mem_map] at h
    obtain ⟨x, hx, i, -, rfl⟩ := h
    have := ih (List.mem_map_of_mem hx)
    simp [this]

theorem nodup_nextLevel {xs : List Node} (h : (xs.map Prod.fst).Nodup) :
    ((nextLevel xs).map Prod.fst).Nodup := by
  rw [nextLevel, List.map_flatMap, List.nodup_flatMap]
  refine ⟨fun x _ => ?_, (List.pairwise_map.1 h).imp fun {x y} hxy => ?_⟩
  · rw [children, numbered_paths]
    exact List.Nodup.map (fun i j hij => by simpa using hij) List.nodup_range'
  · intro path hx hy
    simp only [children, numbered_paths, List.mem_map] at hx hy
    obtain ⟨i, -, rfl⟩ := hx
    obtain ⟨j, -, hj⟩ := hy
    exact hxy (List.append_inj_left' hj rfl).symm

theorem nodup_level (t : ContinuationTree) (depth : Nat) : ((t.level depth).map Prod.fst).Nodup := by
  induction depth with
  | zero => simp [level]
  | succ depth ih =>
    rw [level, Function.iterate_succ_apply']
    exact nodup_nextLevel ih

/-- No path is listed twice. -/
theorem nodup_breadthFirst (t : ContinuationTree) : (t.breadthFirst.map Prod.fst).Nodup := by
  rw [breadthFirst, List.map_flatMap, List.nodup_flatMap]
  refine ⟨fun depth _ => nodup_level t depth, List.nodup_range.imp fun {m n} hmn => ?_⟩
  intro path hm hn
  exact hmn ((length_of_mem_level hm).symm.trans (length_of_mem_level hn))

/-! ## Listing nodes with a queue -/

/-- Taking nodes from the front of a queue, and adding the children of each at the back,
lists the second list. -/
inductive Unfolds : List Node → List Node → Prop
  | nil : Unfolds [] []
  | cons {x xs ys} (h : Unfolds (xs ++ children x) ys) : Unfolds (x :: xs) (x :: ys)

/-- A whole level is taken from the queue before the next one, which it leaves behind. -/
theorem Unfolds.append {xs zs ys : List Node} (h : Unfolds (zs ++ nextLevel xs) ys) :
    Unfolds (xs ++ zs) (xs ++ ys) := by
  induction xs generalizing zs with
  | nil => simpa [nextLevel] using h
  | cons x xs ih =>
    refine .cons ?_
    have : Unfolds ((zs ++ children x) ++ nextLevel xs) ys := by
      simpa [nextLevel, List.append_assoc] using h
    simpa using ih this

theorem unfolds_levels {height : Nat} {xs : List Node} (h : ∀ x ∈ xs, x.2.height ≤ height) :
    Unfolds xs ((List.range height).flatMap (nextLevel^[·] xs)) := by
  induction height generalizing xs with
  | zero =>
    have : xs = [] := List.eq_nil_iff_forall_not_mem.2 fun x hx => by
      have := h x hx
      have := x.2.height_pos
      omega
    subst this
    exact .nil
  | succ height ih =>
    have hbelow : ∀ x ∈ nextLevel xs, x.2.height ≤ height := by
      intro y hy
      obtain ⟨x, hx, hy⟩ := List.mem_flatMap.1 hy
      have h1 := height_lt_of_mem_branches (mem_of_mem_numbered hy)
      have h2 := h x hx
      omega
    have hrest : Unfolds ([] ++ nextLevel xs) _ := ih hbelow
    have := hrest.append
    simpa [List.range_succ_eq_map, List.flatMap_map, Function.iterate_succ_apply] using this

/-- The queue lists the nodes of a tree in breadth-first order. -/
theorem unfolds_breadthFirst (t : ContinuationTree) : Unfolds [([], t)] t.breadthFirst :=
  unfolds_levels (by simp)

/-- What is queued is listed next. -/
theorem Unfolds.isPrefix {xs ys : List Node} (h : Unfolds xs ys) : xs <+: ys := by
  induction h with
  | nil => exact List.prefix_refl []
  | cons _ ih => exact List.cons_prefix_cons.2 ⟨rfl, (List.prefix_append _ _).trans ih⟩

theorem sum_size_numbered (path : List Nat) (i : Nat) (ts : List ContinuationTree) :
    ((numbered path i ts).map (·.2.size)).sum = (ts.map size).sum := by
  induction ts generalizing i with
  | nil => rfl
  | cons t ts ih => simp [numbered, ih]

/-- Every node is listed once. -/
theorem Unfolds.length {xs ys : List Node} (h : Unfolds xs ys) :
    ys.length = (xs.map (·.2.size)).sum := by
  induction h with
  | nil => rfl
  | @cons x xs ys _ ih =>
    obtain ⟨path, c, ts⟩ := x
    simp only [List.map_append, List.sum_append, children, branches, sum_size_numbered] at ih
    simp only [List.length_cons, List.map_cons, List.sum_cons, size]
    omega

theorem flatMap_subtrees_numbered (path : List Nat) (i : Nat) (ts : List ContinuationTree) :
    (numbered path i ts).flatMap (·.2.subtrees) = ts.flatMap subtrees := by
  induction ts generalizing i with
  | nil => rfl
  | cons t ts ih => simp [numbered, ih]

/-- What is listed is what grows from the queue, in another order. -/
theorem Unfolds.perm_subtrees {xs ys : List Node} (h : Unfolds xs ys) :
    (ys.map Prod.snd).Perm (xs.flatMap (·.2.subtrees)) := by
  induction h with
  | nil => exact .nil
  | @cons x xs ys _ ih =>
    obtain ⟨path, c, ts⟩ := x
    simp only [List.flatMap_append, children, branches, flatMap_subtrees_numbered] at ih
    simp only [List.map_cons, List.flatMap_cons, subtrees, List.cons_append]
    exact (ih.trans List.perm_append_comm).cons _

theorem perm_subtrees (t : ContinuationTree) : (t.breadthFirst.map Prod.snd).Perm t.subtrees := by
  simpa using t.unfolds_breadthFirst.perm_subtrees

theorem length_subtrees (t : ContinuationTree) : t.subtrees.length = t.size := by
  rw [← t.perm_subtrees.length_eq, List.length_map, t.unfolds_breadthFirst.length]
  simp

end ContinuationTree

end Flowchart
