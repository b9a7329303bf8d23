/-
Runs over graphs without cycles come to an end. Where control cannot get back to a block, the tree of
every continuation is finite (`Acyclic.exists_grows`), by induction along the edges. The queue of a run
may grow with every step, but a step makes one of the signals of the trees that grow from it, and puts
none there: as many steps are left as there are signals in the trees (`Pending.step`). Limits can only
end the run before that.

For the same reason no continuation enters a block twice: its steps are a walk, and a walk that came
back would be a cycle.
-/
import Flowchart.Proofs.Run.BreadthFirst
import Flowchart.Proofs.Run.Route

namespace Flowchart

namespace Graph

/-- Control cannot get from a block back to it, if it gets there at all. -/
def Acyclic (g : Graph) : Prop := ∀ id, g.Reachable id → ¬Relation.TransGen g.Edge id id

variable {g : Graph}

theorem Closed.mem_of_reachable (hg : g.Closed) {id : String} (h : g.Reachable id) :
    id ∈ g.blocks.map Block.id := by
  cases h with
  | refl => exact List.mem_map_of_mem g.start_mem
  | tail _ hedge =>
    obtain ⟨b, hb, hmem⟩ := hedge
    exact hg.adjacents b (mem_of_get? hb) id hmem

/-- Blocks in an order in which every target comes before the block that leads to it show that there is
no cycle. The order need only have the blocks that can be reached. -/
theorem acyclic_of_order (hg : g.Closed) {order : List String} (hstart : g.start.id ∈ order)
    (h : ∀ b ∈ g.blocks, b.id ∈ order → ∀ t ∈ b.adjacents, order.idxOf t < order.idxOf b.id) :
    g.Acyclic := by
  have hedge : ∀ {a b}, g.Edge a b → a ∈ order → order.idxOf b < order.idxOf a := by
    intro a b ⟨block, hblock, hmem⟩ ha
    obtain ⟨hmem', rfl⟩ := hg.get?_eq_some_iff.1 hblock
    exact h block hmem' ha b hmem
  have hmem : ∀ {a b}, g.Edge a b → a ∈ order → b ∈ order := fun he ha =>
    List.idxOf_lt_length_iff.1 ((hedge he ha).trans (List.idxOf_lt_length_of_mem ha))
  intro id hreachable
  have hid : id ∈ order := by
    induction hreachable with
    | refl => exact hstart
    | tail _ he ih => exact hmem he ih
  have hlt : ∀ {b}, Relation.TransGen g.Edge id b → b ∈ order ∧ order.idxOf b < order.idxOf id := by
    intro b hb
    induction hb with
    | single he => exact ⟨hmem he hid, hedge he hid⟩
    | tail _ he ih => exact ⟨hmem he ih.1, (hedge he ih.1).trans ih.2⟩
  exact fun hcycle => Nat.lt_irrefl _ (hlt hcycle).2

/-- A walk through a graph without cycles comes to no block twice. -/
theorem Acyclic.nodup_of_isChain (hg : g.Acyclic) {l : List String} (hr : ∀ id ∈ l, g.Reachable id)
    (h : l.IsChain g.Edge) : l.Nodup := by
  have htrans : l.IsChain (Relation.TransGen g.Edge) := h.imp fun _ _ => .single
  refine (List.isChain_iff_pairwise.1 htrans).imp_of_mem ?_
  intro a b ha _ hab heq
  subst heq
  exact hg a (hr a ha) hab

/-- The edges of a graph without cycles can be followed back only so far. -/
theorem Acyclic.wellFounded (hg : g.Acyclic) (hclosed : g.Closed) :
    WellFounded fun a b : { id // g.Reachable id } => Relation.TransGen g.Edge b.1 a.1 := by
  have : Finite { id // g.Reachable id } := by
    refine (Set.Finite.subset (List.finite_toSet (g.blocks.map Block.id)) ?_).to_subtype
    intro id h
    exact hclosed.mem_of_reachable h
  have : IsTrans { id // g.Reachable id } fun a b => Relation.TransGen g.Edge b.1 a.1 :=
    ⟨fun _ _ _ hab hbc => hbc.trans hab⟩
  have : Std.Irrefl fun a b : { id // g.Reachable id } => Relation.TransGen g.Edge b.1 a.1 :=
    ⟨fun a => hg a.1 a.2⟩
  exact Finite.wellFounded_of_trans_of_irrefl _

end Graph

/-! ## Trees of graphs without cycles -/

theorem exists_forest {g : Graph} {os : List Origin} (h : ∀ o ∈ os, ∃ t, Grows g o t) :
    ∃ ts, List.Forall₂ (Grows g) os ts := by
  induction os with
  | nil => exact ⟨[], .nil⟩
  | cons o os ih =>
    obtain ⟨t, ht⟩ := h o List.mem_cons_self
    obtain ⟨ts, hts⟩ := ih fun o' ho' => h o' (List.mem_cons_of_mem o ho')
    exact ⟨t :: ts, .cons ht hts⟩

/-- What follows a signal is what grows from its targets. -/
theorem exists_grows_of_signal {g : Graph} {o : Origin} {b : Block} {s : Signal} {env : Environment}
    (hb : g.get? o.block = some b) (hs : b.signal o.environment = (s, env))
    (h : ∀ target ∈ s.targets, ∃ t, Grows g ⟨target, some o.block, env⟩ t) : ∃ t, Grows g o t := by
  cases s with
  | terminate => exact ⟨_, .node (.stop hb hs rfl) .nil⟩
  | fault f => exact ⟨_, .node (.stop hb hs rfl) .nil⟩
  | next target =>
    obtain ⟨_, ⟨htakes, hts⟩⟩ := h target (by simp [Signal.targets])
    exact ⟨_, .node (.next hb hs htakes) hts⟩
  | fork targets =>
    obtain ⟨ts, hts⟩ : ∃ ts, List.Forall₂ (Grows g)
        (targets.map fun target => ⟨target, some o.block, env⟩) ts := by
      refine exists_forest fun o' ho' => ?_
      obtain ⟨target, htarget, rfl⟩ := List.mem_map.1 ho'
      exact h target htarget
    exact ⟨_, .node (.stop hb hs rfl) hts⟩

/-- In a graph without cycles every continuation has a finite tree. -/
theorem Graph.Acyclic.exists_grows {g : Graph} (hg : g.Acyclic) (hclosed : g.Closed) {id : String}
    (hid : g.Reachable id) (previous : Option String) (env : Environment) :
    ∃ t, Grows g ⟨id, previous, env⟩ t := by
  suffices h : ∀ (a : { id // g.Reachable id }) previous env, ∃ t, Grows g ⟨a.1, previous, env⟩ t from
    h ⟨id, hid⟩ previous env
  intro a
  induction a using (hg.wellFounded hclosed).induction with
  | _ a ih =>
    intro previous env
    have hsome := hclosed.get?_isSome_iff.2 (hclosed.mem_of_reachable a.2)
    obtain ⟨b, hb⟩ := Option.isSome_iff_exists.1 hsome
    refine exists_grows_of_signal (o := ⟨a.1, previous, env⟩) hb rfl fun target htarget => ?_
    have hedge : g.Edge a.1 target := edge_of_signal hb rfl htarget
    exact ih ⟨target, a.2.edge hedge⟩ (.single hedge) _ _

/-! ## The steps that are left -/

namespace ContinuationTree

/-- How many signals are made in the trees. -/
def signals (ts : List ContinuationTree) : Nat :=
  ((ts.flatMap subtrees).map (·.course.steps)).sum

theorem signals_cons_node (c : Course) (branches ts : List ContinuationTree) :
    signals (.node c branches :: ts) = c.steps + signals branches + signals ts := by
  simp [signals, subtrees, Nat.add_assoc]

theorem signals_append (ts ts' : List ContinuationTree) :
    signals (ts ++ ts') = signals ts + signals ts' := by
  simp [signals]

theorem signals_eq_of_perm {ts ts' : List ContinuationTree} (h : ts.Perm ts') :
    signals ts = signals ts' :=
  ((h.flatMap_right subtrees).map _).sum_eq

end ContinuationTree

open ContinuationTree

theorem Signal.targets_of_ending? {s : Signal} {e : Ending} (h : s.ending? = some e) {block : String}
    {previous : Option String} {env : Environment} {steps : Nat} :
    (Course.mk block previous env steps e).targets = s.targets := by
  cases s with
  | next => cases h
  | terminate | fork | fault =>
    cases h
    rfl

/-- The first signal of a tree leaves the trees that grow from its targets, with one signal less. -/
theorem Grows.after_signal {g : Graph} {o : Origin} {t : ContinuationTree} (h : Grows g o t) {b : Block}
    {s : Signal} {env : Environment} (hb : g.get? o.block = some b)
    (hs : b.signal o.environment = (s, env)) :
    ∃ ts, List.Forall₂ (Grows g) (s.targets.map fun target => ⟨target, some o.block, env⟩) ts ∧
      signals [t] = signals ts + 1 := by
  cases h with
  | @node _ c ts htakes hts =>
    cases htakes with
    | stop hb' hs' he =>
      cases hb.symm.trans hb'
      cases hs.symm.trans hs'
      rw [Course.origins, Signal.targets_of_ending? he] at hts
      refine ⟨ts, hts, ?_⟩
      rw [signals_cons_node, Nat.add_comm 1]
      rfl
    | @next _ _ target _ c hb' hs' htakes =>
      cases hb.symm.trans hb'
      cases hs.symm.trans hs'
      refine ⟨[.node c ts], .cons (.node htakes hts) .nil, ?_⟩
      simp only [signals_cons_node]
      omega

namespace Run

/-- What is queued after a settled signal are the continuations that were queued and one before each of
the targets. -/
theorem Settled.perm_origins {r r' : Run} {c : Continuation} {s : Signal} (h : Settled r c s r') :
    (r'.queue.map Continuation.origin).Perm (r.queue.map Continuation.origin ++
      s.targets.map fun target => ⟨target, some c.block, c.environment⟩) := by
  cases h with
  | goesOn hs hq =>
    rw [hq, hs]
    exact (List.perm_append_singleton _ _).symm
  | ends _ hq => rw [hq, List.map_append, children_map_origin]

/-- The trees of the queued continuations have `k` signals left to be made. -/
def Pending (r : Run) (k : Nat) : Prop :=
  ∃ ts, List.Forall₂ (Grows r.graph) (r.queue.map Continuation.origin) ts ∧ signals ts = k

/-- A step makes one of the signals that are left, whatever it adds to the queue. -/
theorem Pending.step {r r' : Run} {k : Nat} (h : r.Pending k) (hnext : Next r r') :
    ∃ j, k = j + 1 ∧ r'.Pending j := by
  obtain ⟨record, hstep⟩ := hnext
  obtain ⟨ts, hts, rfl⟩ := h
  cases step_eq_iff.1 hstep with
  | @settled c rest b s env _ hr hq hb hs hset =>
    rw [hq] at hts
    cases hts with
    | @cons _ t _ ts ht hrest =>
    obtain ⟨bs, hbs, hsignals⟩ := ht.after_signal (get?_of_blockFor hb) hs
    obtain ⟨ts', hts', hperm⟩ :=
      List.perm_comp_forall₂ (settled_of_settle hset).perm_origins (List.rel_append hrest hbs)
    refine ⟨signals ts', ?_, ts', (settle_frame hset).1 ▸ hts', rfl⟩
    have hsplit := signals_append [t] ts
    rw [List.singleton_append] at hsplit
    rw [hsplit, signals_eq_of_perm hperm, signals_append, hsignals]
    omega

/-- A run over finite trees comes to an end, before or when their signals are made. -/
theorem Pending.exists_result {r : Run} {k : Nat} (h : r.Pending k) :
    ∃ result, r.finishWithin (k + 1) = some result := by
  induction k using Nat.strong_induction_on generalizing r with
  | _ k ih =>
    rcases hstep : r.step with ⟨e | _ | record, r'⟩
    · exact ⟨.error e, by rw [finishWithin_succ, hstep]⟩
    · exact ⟨.ok r'.report, by rw [finishWithin_succ, hstep]⟩
    · obtain ⟨j, rfl, hpending⟩ := h.step ⟨record, hstep⟩
      obtain ⟨result, hresult⟩ := ih j (Nat.lt_succ_self j) hpending
      exact ⟨result, by rw [finishWithin_succ, hstep]; exact hresult⟩

/-- A run that returns makes a last call, which finds the end of the run or fails. -/
theorem Returns.exists_last_call {r : Run} {result} (h : r.Returns result) :
    ∃ n, r.call n = .ok none ∨ ∃ e, r.call n = .error e := by
  obtain ⟨limit, h⟩ := h
  induction limit generalizing r with
  | zero => cases h
  | succ limit ih =>
    rw [finishWithin_succ] at h
    split at h
    next e r' hstep => exact ⟨0, .inr ⟨e, congrArg Prod.fst hstep⟩⟩
    next r' hstep => exact ⟨0, .inl (congrArg Prod.fst hstep)⟩
    next record r' hstep =>
      obtain ⟨n, hn⟩ := ih h
      have hcall : r.call (n + 1) = r'.call n := by
        rw [call, Nat.add_comm, after_add]
        exact congrArg (fun p => (p.2.after n).step.1) hstep
      exact ⟨n + 1, hcall ▸ hn⟩

/-! ## Blocks that a continuation enters -/

open StepRecord (stepsOf)

/-- The blocks that the continuation `id` entered in the first `n` calls, in order. -/
def visits (r : Run) (n id : Nat) : List String := (stepsOf (r.records n) id).map StepRecord.block

/-- In the first `n` calls no continuation enters a block twice, nor will it with its next step; so none
takes more steps than there are blocks. -/
structure EntersOnce (r : Run) (n : Nat) : Prop where
  visits : ∀ id, (r.visits n id).Nodup
  ahead : ∀ c ∈ (r.after n).queue, c.block ∉ r.visits n c.id
  steps : ∀ o ∈ (r.after n).outcomes, o.steps = (r.visits n o.id).length ∧ o.steps ≤ r.graph.size

theorem isChain_visits (g : Graph) (config : Config) (n id : Nat) :
    ((start g config).visits n id).IsChain g.Edge :=
  List.isChain_map_of_isChain StepRecord.block (fun _ _ h => h.2) ((walked_after g config n).chain id)

theorem reachable_of_mem_visits {g : Graph} {config : Config} {n id : Nat} {block : String}
    (h : block ∈ (start g config).visits n id) : g.Reachable block := by
  obtain ⟨x, hx, rfl⟩ := List.mem_map.1 h
  exact (reached_after g config n).visited x (List.mem_of_mem_filter hx)

/-- A queued continuation stands behind an edge from the block that it entered last. -/
theorem isChain_visits_ahead {g : Graph} {config : Config} {n : Nat} {c : Continuation}
    (hc : c ∈ ((start g config).after n).queue) :
    ((start g config).visits n c.id ++ [c.block]).IsChain g.Edge := by
  refine List.isChain_append.2 ⟨isChain_visits g config n c.id, List.isChain_singleton _, ?_⟩
  intro a ha b hb
  obtain rfl : c.block = b := by simpa using hb
  rw [visits, List.getLast?_map] at ha
  obtain ⟨x, hx, rfl⟩ := Option.map_eq_some_iff.1 ha
  have harrives := (walked_after g config n).queued c hc
  rw [Arrives, hx] at harrives
  exact harrives.2

theorem entersOnce_after {g : Graph} (hg : g.Acyclic) (hclosed : g.Closed) (config : Config)
    (n : Nat) : (start g config).EntersOnce n := by
  have hreachable : ∀ id, ∀ block ∈ (start g config).visits n id, g.Reachable block :=
    fun id block h => reachable_of_mem_visits h
  have hvisits : ∀ id, ((start g config).visits n id).Nodup :=
    fun id => hg.nodup_of_isChain (hreachable id) (isChain_visits g config n id)
  refine ⟨hvisits, fun c hc => ?_, fun o ho => ?_⟩
  · have hnodup : ((start g config).visits n c.id ++ [c.block]).Nodup := by
      refine hg.nodup_of_isChain (fun block hblock => ?_) (isChain_visits_ahead hc)
      rcases List.mem_append.1 hblock with hblock | hblock
      · exact hreachable c.id block hblock
      · rw [List.mem_singleton.1 hblock]
        exact (reached_after g config n).queued c hc
    intro hmem
    exact (List.nodup_append.1 hnodup).2.2 c.block hmem c.block (List.mem_singleton_self _) rfl
  · have hsteps : o.steps = ((start g config).visits n o.id).length := by
      rw [visits, List.length_map]
      exact (counted_after g config n).ended o ho
    refine ⟨hsteps, ?_⟩
    have hsub : (start g config).visits n o.id ⊆ g.blocks.map Block.id :=
      fun block h => hclosed.mem_of_reachable (hreachable o.id block h)
    have hle := (List.subperm_of_subset (hvisits o.id) hsub).length_le
    rw [List.length_map] at hle
    rw [hsteps]
    exact hle

/-! ## Runs without cycles -/

theorem exists_pending_start {g : Graph} (hg : g.Acyclic) (hclosed : g.Closed) (config : Config) :
    ∃ k, (start g config).Pending k := by
  obtain ⟨t, ht⟩ := hg.exists_grows hclosed .refl none .empty
  exact ⟨_, [t], .cons ht .nil, rfl⟩

/-- **Programs without cycles come to an end.** If no cycle can be reached from the start block, then
under any settings some call finds the end of the run or fails, so that running to the end returns. No
continuation enters a block twice, and none takes more steps than there are blocks. The tree of the
graph is finite; if it has fewer than `2 ^ 32` nodes, a run without limits returns a report of it. -/
theorem acyclic_run_finishes {allow : Bool} {ds : List BlockDescription} {g : Graph}
    (hbuild : Graph.build allow ds = .ok g) (hg : g.Acyclic) (config : Config) :
    (∃ n, (start g config).call n = .ok none ∨ ∃ e, (start g config).call n = .error e) ∧
    (∃ result, (start g config).Returns result) ∧
    (∀ n, (start g config).EntersOnce n) ∧
    (config.Unrestricted → (∃ t, Grows g (.root g) t) ∧
      ∀ t, Grows g (.root g) t → t.size < 2 ^ 32 →
        ∃ report, (start g config).Returns (.ok report) ∧ report.Lists t) := by
  have hclosed := Graph.closed_of_build hbuild
  obtain ⟨k, hpending⟩ := exists_pending_start hg hclosed config
  obtain ⟨result, hresult⟩ := hpending.exists_result
  have hreturns : (start g config).Returns result := ⟨k + 1, hresult⟩
  refine ⟨hreturns.exists_last_call, ⟨result, hreturns⟩,
    fun n => entersOnce_after hg hclosed config n, fun hc => ⟨?_, fun t ht hsize => ?_⟩⟩
  · exact hg.exists_grows hclosed .refl none .empty
  · exact returns_of_grows hc ht (Nat.le_pred_of_lt hsize)

/-- A fork, one branch of which goes on to the block that the other one starts with, beside a block that
leads to itself and that control cannot reach. Without limits the run returns the three continuations of
its tree; under any other settings it returns too. -/
theorem acyclic_run_finishes_fork : ∃ g t,
    Graph.build true [.withAdjacents (.start "s") ["a", "b"],
      .withTarget (.decimalAssign "a" "x" "1") "b", .decimalAssign "b" "y" "1",
      .withTarget (.decimalAssign "u" "z" "1") "u"] = .ok g ∧
    g.Acyclic ∧ Grows g (.root g) t ∧ t.size = 3 ∧
    (∃ report, (start g .default).Returns (.ok report) ∧ report.Lists t) ∧
    ∀ config n, (start g config).EntersOnce n ∧ ∃ result, (start g config).Returns result := by
  let one : Expression := ⟨"1", .number .one, []⟩
  let g : Graph :=
    { blocks := [⟨"s", .start ["a", "b"]⟩, ⟨"a", .assign "x" .decimal one ["b"]⟩,
        ⟨"b", .assign "y" .decimal one []⟩, ⟨"u", .assign "z" .decimal one ["u"]⟩]
      index := [("a", 1), ("b", 2), ("s", 0), ("u", 3)]
      startAt := 0 }
  have hbuild : Graph.build true [.withAdjacents (.start "s") ["a", "b"],
      .withTarget (.decimalAssign "a" "x" "1") "b", .decimalAssign "b" "y" "1",
      .withTarget (.decimalAssign "u" "z" "1") "u"] = .ok g := by
    decide +kernel
  have hg : g.Acyclic := by
    have horder : ∀ b ∈ g.blocks, b.id ∈ ["b", "a", "s"] →
        ∀ t ∈ b.adjacents, ["b", "a", "s"].idxOf t < ["b", "a", "s"].idxOf b.id := by
      decide +kernel
    exact Graph.acyclic_of_order (Graph.closed_of_build hbuild) (by decide) horder
  obtain ⟨c, hc, hforked⟩ : ∃ c, Takes g (.root g) c ∧ c.origins =
      [⟨"a", some "s", .empty⟩, ⟨"b", some "s", .empty⟩] := ⟨_, .stop rfl rfl rfl, rfl⟩
  obtain ⟨a, ha, haEnds⟩ : ∃ a, Takes g ⟨"a", some "s", .empty⟩ a ∧ a.origins = [] :=
    ⟨_, .next rfl rfl (.stop rfl rfl rfl), rfl⟩
  obtain ⟨b, hb, hbEnds⟩ : ∃ b, Takes g ⟨"b", some "s", .empty⟩ b ∧ b.origins = [] :=
    ⟨_, .stop rfl rfl rfl, rfl⟩
  let t : ContinuationTree := .node c [.node a [], .node b []]
  have ht : Grows g (.root g) t := by
    refine .node hc ?_
    rw [hforked]
    exact .cons (.node ha (haEnds ▸ .nil)) (.cons (.node hb (hbEnds ▸ .nil)) .nil)
  have hsize : t.size = 3 := by simp [t, ContinuationTree.size]
  have hunrestricted : Config.default.Unrestricted := ⟨rfl, rfl, rfl⟩
  have hreport := ((acyclic_run_finishes hbuild hg .default).2.2.2 hunrestricted).2 t ht (by omega)
  refine ⟨g, t, hbuild, hg, ht, hsize, hreport, fun config n => ?_⟩
  obtain ⟨-, hreturns, hentersOnce, -⟩ := acyclic_run_finishes hbuild hg config
  exact ⟨hentersOnce n, hreturns⟩

end Run

end Flowchart
