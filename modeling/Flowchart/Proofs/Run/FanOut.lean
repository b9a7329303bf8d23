/-
Fan-out can be refused twice, and both refusals mean the same. A graph is built without fan-out
exactly if it is built and no block fans out, and then a run of it goes the same way whether
fan-out is allowed or not. A run that does not allow it never has a second continuation: it goes as
the run that allows it up to the first block that fans out (`FacesFanOut`), and stops before it.

Both settings are compared call by call: as long as the front continuation does not face such a
block, the setting makes no difference to a call (`step_withFanOut`).
-/
import Flowchart.Proofs.Run.Bookkeeping

namespace Flowchart

/-- The same settings with fan-out allowed or not. -/
def Config.withFanOut (c : Config) (allow : Bool) : Config := { c with allowFanOut := allow }

theorem Graph.fansOut_of_get? {g : Graph} (hg : g.hasFanOut = false) {id : String} {b : Block}
    (hb : g.get? id = some b) : b.fansOut = false :=
  hasFanOut_eq_false_iff.1 hg b (mem_of_get? hb)

theorem Graph.build_false_iff {ds : List BlockDescription} {g : Graph} :
    build false ds = .ok g ↔ build true ds = .ok g ∧ g.hasFanOut = false := by
  simp only [build_eq_ok_iff, hasFanOut_eq_false_iff]
  constructor
  · intro h
    exact ⟨{ h with fanOut := .inl rfl }, h.fanOut.resolve_left Bool.false_ne_true⟩
  · rintro ⟨h, hfan⟩
    exact { h with fanOut := .inr hfan }

namespace Run

def withFanOut (allow : Bool) (r : Run) : Run := { r with config := r.config.withFanOut allow }

/-- The front continuation stands before a block that fans out. -/
def FacesFanOut (r : Run) : Prop :=
  ∃ c rest b, r.queue = c :: rest ∧ r.graph.get? c.block = some b ∧ b.fansOut = true

theorem facesFanOut_iff {r : Run} :
    r.FacesFanOut ↔ (r.queue.head?.bind fun c => r.graph.get? c.block).any Block.fansOut = true := by
  unfold FacesFanOut
  cases r.queue with
  | nil => simp
  | cons c rest => cases hb : r.graph.get? c.block <;> simp [hb]

instance (r : Run) : Decidable r.FacesFanOut := decidable_of_iff _ facesFanOut_iff.symm

/-- There is only the first continuation, waiting or ended. -/
structure OnlyRoot (r : Run) : Prop where
  spawned : r.spawned = 1
  ids : r.outcomes.toList.map Outcome.id ++ r.queue.map Continuation.id = [0]

/-- No call forks, or tries to. -/
structure NeverForks (r : Run) : Prop where
  root : ∀ n, (r.after n).OnlyRoot
  result : ∀ n x targets, r.call n = .ok (some x) → x.result ≠ .fork targets
  limit : ∀ n limit, r.call n ≠ .error (.continuationLimit limit)

/-- The setting makes no difference: nothing forks, nothing is refused for fanning out, and the run
goes the same way under either value. -/
structure Indifferent (r : Run) : Prop extends NeverForks r where
  fanOut : ∀ n block id env, r.call n ≠ .error (.fanOut block id env)
  after : ∀ allow n, (r.withFanOut allow).after n = (r.after n).withFanOut allow
  call : ∀ allow n, (r.withFanOut allow).call n = r.call n
  finish : ∀ allow limit, (r.withFanOut allow).finishWithin limit = r.finishWithin limit

/-- After `k` calls the first continuation waits, as `c`, and the next call stops the run before its
block, over the budget if that is used up and for fan-out otherwise. Nothing is signalled. -/
structure StopsBefore (r : Run) (k : Nat) (c : Continuation) : Prop where
  queue : (r.after k).queue = [c]
  root : c.id = 0
  budget : ∀ budget, r.config.stepBudget = some budget → budget ≤ (r.after k).steps →
    r.call k = .error (.stepBudget budget c.block 0 c.environment)
  fanOut : (∀ budget, r.config.stepBudget = some budget → (r.after k).steps < budget) →
    r.call k = .error (.fanOut c.block 0 c.environment)
  unchanged : ∃ e, r.after (k + 1) = { r.after k with halted := some e }

/-- `strict` never forks, goes as `free` up to the first block that fans out and stops before it. -/
structure StopsShort (strict free : Run) : Prop extends NeverForks strict where
  after : ∀ k, (∀ j < k, ¬(free.after j).FacesFanOut) →
    strict.after k = (free.after k).withFanOut false
  call : ∀ k, (∀ j ≤ k, ¬(free.after j).FacesFanOut) → strict.call k = free.call k
  stops : ∀ k c rest b, (∀ j < k, ¬(free.after j).FacesFanOut) → (free.after k).queue = c :: rest →
    free.graph.get? c.block = some b → b.fansOut = true → strict.StopsBefore k c

/-! ## Runs without forks -/

/-- No block that fans out may be entered. -/
def Refuses (r : Run) : Prop := r.config.allowFanOut = false ∨ r.graph.hasFanOut = false

theorem Refuses.step {r r' : Run} {result} (h : r.Refuses) (hto : StepTo r result r') : r'.Refuses := by
  obtain ⟨hgraph, hconfig⟩ := hto.frame
  rw [Refuses, hgraph, hconfig]
  exact h

theorem Refuses.fansOut {r : Run} (h : r.Refuses) {c : Continuation} {b : Block}
    (hb : r.blockFor c = .ok b) : b.fansOut = false := by
  rcases h with h | h
  · unfold blockFor at hb
    split at hb
    · cases hb
    split at hb
    · cases hb
    split at hb
    · cases hb
    next hnot =>
      cases hb
      simpa [h] using hnot
  · exact Graph.fansOut_of_get? h (get?_of_blockFor hb)

theorem Refuses.ne_fork {r : Run} (h : r.Refuses) {c : Continuation} {b : Block}
    (hb : r.blockFor c = .ok b) {env env' : Environment} {s : Signal}
    (hs : b.signal env = (s, env')) (targets : List String) : s ≠ .fork targets := by
  intro hfork
  subst hfork
  have hfans := Block.fansOut_of_fork hs
  rw [h.fansOut hb] at hfans
  cases hfans

/-- A call that may not enter a block that fans out numbers no continuation and loses none. -/
theorem Refuses.spawned {r r' : Run} {result} (h : r.Refuses) (hto : StepTo r result r') :
    r'.spawned = r.spawned ∧ r'.lost = r.lost := by
  cases hto with
  | halted | drained => exact ⟨rfl, rfl⟩
  | refused hr _ hb => exact ⟨rfl, (lost_of_refused hb).trans (lost_of_halted hr).symm⟩
  | exceeded _ _ hb hs hset =>
    obtain ⟨targets, _, hfork, -⟩ := settle_error hset
    exact absurd hfork (h.ne_fork hb hs targets)
  | @settled c rest b s env _ hr _ hb hs hset =>
    have hhalted : r'.halted = none := (settle_frame hset).2.2.1.trans hr
    refine ⟨?_, (lost_of_halted hhalted).trans (lost_of_halted hr).symm⟩
    cases settled_of_settle hset with
    | goesOn _ _ _ hn => exact hn
    | ends hstatus _ _ hn =>
      cases s with
      | fork targets => exact absurd rfl (h.ne_fork hb hs targets)
      | next => cases hstatus
      | terminate | fault => exact hn

theorem Numbered.onlyRoot {r : Run} (h : r.Numbered) (hspawned : r.spawned = 1) (hlost : r.lost = 0) :
    r.OnlyRoot := by
  have hsum := h.spawned
  rw [hlost, hspawned, Nat.add_zero] at hsum
  refine ⟨hspawned, ?_⟩
  calc r.outcomes.toList.map Outcome.id ++ r.queue.map Continuation.id
    _ = List.range' 0 r.outcomes.size ++ List.range' (0 + r.outcomes.size) r.queue.length := by
      rw [h.outcomes, h.queue, hlost, List.range_eq_range', Nat.add_zero, Nat.zero_add]
    _ = List.range' 0 1 := by rw [List.range'_append_1, hsum]

theorem Refuses.neverForks {g : Graph} {config : Config} (h : (start g config).Refuses) :
    (start g config).NeverForks := by
  have hkeeps : ∀ n, ((start g config).after n).Refuses ∧ ((start g config).after n).spawned = 1 ∧
      ((start g config).after n).lost = 0 := by
    refine after_induction (P := fun r => r.Refuses ∧ r.spawned = 1 ∧ r.lost = 0) ⟨h, rfl, rfl⟩ ?_
    rintro r r' result ⟨hr, hspawned, hlost⟩ hto
    obtain ⟨hspawned', hlost'⟩ := hr.spawned hto
    exact ⟨hr.step hto, hspawned'.trans hspawned, hlost'.trans hlost⟩
  refine ⟨fun n => ?_, fun n x targets hcall => ?_, fun n limit hcall => ?_⟩
  · exact (numbered_after g config n).onlyRoot (hkeeps n).2.1 (hkeeps n).2.2
  · have hto := stepTo_after (start g config) n
    have hr := (hkeeps n).1
    rw [hcall] at hto
    generalize (start g config).after (n + 1) = r' at hto
    generalize (start g config).after n = r at hto hr
    cases hto with
    | settled _ _ hb hs _ => exact hr.ne_fork hb hs targets
  · -- A call that exceeds a limit loses a continuation.
    have hlost := (hkeeps (n + 1)).2.2
    rw [lost, halted_after_succ_iff.2 hcall] at hlost
    cases hlost

/-! ## The setting, call by call -/

theorem incidental_withFanOut (allow : Bool) : Incidental (withFanOut allow) :=
  ⟨fun _ => rfl, fun _ => rfl, fun _ => rfl, fun _ _ _ _ => rfl, fun _ _ => rfl⟩

theorem settle_withFanOut (allow : Bool) (r : Run) (c : Continuation) (s : Signal) :
    (r.withFanOut allow).settle c s = (r.settle c s).map (withFanOut allow) :=
  settle_map (fun _ _ _ => rfl) (fun _ _ => rfl) (fun _ _ _ => rfl) fun _ _ => rfl

/-- The setting decides only about blocks that fan out. -/
theorem blockFor_withFanOut {r : Run} {c : Continuation}
    (h : ∀ b, r.graph.get? c.block = some b → b.fansOut = false) (allow : Bool) :
    (r.withFanOut allow).blockFor c = r.blockFor c := by
  have hspent : (r.withFanOut allow).spentBudget? = r.spentBudget? := rfl
  have hget : (r.withFanOut allow).graph.get? c.block = r.graph.get? c.block := rfl
  simp only [blockFor, hspent, hget]
  cases hb : r.graph.get? c.block with
  | none => rfl
  | some b => simp only [h b hb, Bool.and_false]

theorem step_withFanOut {r : Run} (h : ¬r.FacesFanOut) (allow : Bool) :
    (r.withFanOut allow).step = (r.step.1, r.step.2.withFanOut allow) := by
  refine (incidental_withFanOut allow).step_eq (fun {c rest} hq => ?_)
    fun _ _ _ => settle_withFanOut allow _ _ _
  refine blockFor_withFanOut (fun b hb => ?_) allow
  exact Bool.eq_false_iff.2 fun hfans => h ⟨c, rest, b, hq, hb, hfans⟩

theorem after_withFanOut {r : Run} {k : Nat} (h : ∀ j < k, ¬(r.after j).FacesFanOut) (allow : Bool) :
    (r.withFanOut allow).after k = (r.after k).withFanOut allow :=
  after_map fun j hj => step_withFanOut (h j hj) allow

theorem call_withFanOut {r : Run} {k : Nat} (h : ∀ j ≤ k, ¬(r.after j).FacesFanOut) (allow : Bool) :
    (r.withFanOut allow).call k = r.call k :=
  call_map fun j hj => step_withFanOut (h j hj) allow

theorem finishWithin_withFanOut {r : Run} (h : ∀ j, ¬(r.after j).FacesFanOut) (allow : Bool)
    (limit : Nat) : (r.withFanOut allow).finishWithin limit = r.finishWithin limit := by
  induction limit generalizing r with
  | zero => rfl
  | succ limit ih =>
    have hrest : ∀ j, ¬(r.step.2.after j).FacesFanOut := by
      intro j
      have hj := h (1 + j)
      rwa [after_add] at hj
    have hfinish := ih hrest
    have hstep : (r.withFanOut allow).step = (r.step.1, r.step.2.withFanOut allow) :=
      step_withFanOut (h 0) allow
    rw [finishWithin_succ, finishWithin_succ, hstep]
    generalize r.step = result at hfinish
    obtain ⟨_ | _ | _, r'⟩ := result
    · rfl
    · rfl
    · exact hfinish

/-! ## Graphs without fan-out -/

theorem not_facesFanOut {r : Run} (hg : r.graph.hasFanOut = false) : ¬r.FacesFanOut := by
  rintro ⟨c, rest, b, -, hb, hfans⟩
  rw [Graph.fansOut_of_get? hg hb] at hfans
  cases hfans

/-- Only a block that fans out is refused for fanning out. -/
theorem facesFanOut_of_error {r r' : Run} {block : String} {id : Nat} {env : Environment}
    (hr : r.halted = none) (hto : StepTo r (.error (.fanOut block id env)) r') : r.FacesFanOut := by
  cases hto with
  | halted hr' => cases hr.symm.trans hr'
  | exceeded _ _ _ _ hset =>
    obtain ⟨_, _, -, h, -⟩ := settle_error hset
    cases h
  | @refused c rest _ _ hq hb =>
    unfold blockFor at hb
    split at hb
    · cases hb
    split at hb
    · cases hb
    next b hget =>
      split at hb
      next hfans => exact ⟨c, rest, b, hq, hget, (Bool.and_eq_true_iff.1 hfans).2⟩
      next => cases hb

theorem indifferent_start {g : Graph} (hg : g.hasFanOut = false) (config : Config) :
    (start g config).Indifferent := by
  have hnever : ∀ j, ¬((start g config).after j).FacesFanOut := by
    intro j
    refine not_facesFanOut ?_
    rw [graph_after]
    exact hg
  refine ⟨Refuses.neverForks (.inr hg), fun n block id env hcall => ?_,
    fun allow n => after_withFanOut (fun j _ => hnever j) allow,
    fun allow n => call_withFanOut (fun j _ => hnever j) allow, finishWithin_withFanOut hnever⟩
  obtain ⟨j, -, hhalted, hfails⟩ := exists_failure rfl hcall
  have hto := stepTo_after (start g config) j
  rw [hfails] at hto
  exact hnever j (facesFanOut_of_error hhalted hto)

/-! ## Runs that refuse fan-out -/

/-- A call that stops the run before or at a block that fans out was made before that block. -/
theorem StepTo.facesFanOut {r r' : Run} {result} (hto : StepTo r result r') (hr' : r'.halted ≠ none)
    (h : r'.FacesFanOut) : r.FacesFanOut := by
  cases hto with
  | halted => exact h
  | drained hr => exact absurd hr hr'
  | refused => exact h
  | settled hr _ _ _ hset => exact absurd ((settle_frame hset).2.2.1.trans hr) hr'
  | @exceeded c rest b _ _ _ _ hq hb hs hset =>
    obtain ⟨targets, _, rfl, -⟩ := settle_error hset
    exact ⟨c, rest, b, hq, get?_of_blockFor hb, Block.fansOut_of_fork hs⟩

theorem halted_of_first {r : Run} (hr : r.halted = none) {k : Nat}
    (h : ∀ j < k, ¬(r.after j).FacesFanOut) (hk : (r.after k).FacesFanOut) :
    (r.after k).halted = none := by
  cases k with
  | zero => exact hr
  | succ k =>
    by_contra hne
    exact h k (Nat.lt_succ_self k) ((stepTo_after r k).facesFanOut hne hk)

theorem OnlyRoot.front {r : Run} (h : r.OnlyRoot) {c : Continuation} {rest : List Continuation}
    (hq : r.queue = c :: rest) : c.id = 0 ∧ rest = [] := by
  have hids := h.ids
  rw [hq, List.map_cons, List.append_eq_singleton_iff] at hids
  simp only [reduceCtorEq, and_false, List.cons.injEq, List.map_eq_nil_iff, or_false] at hids
  exact hids.2

theorem stopsBefore {r : Run} (hr : r.config.allowFanOut = false) {k : Nat}
    (honly : (r.after k).OnlyRoot) (hhalted : (r.after k).halted = none) {c : Continuation}
    {rest : List Continuation} (hq : (r.after k).queue = c :: rest) {b : Block}
    (hb : r.graph.get? c.block = some b) (hfans : b.fansOut = true) : r.StopsBefore k c := by
  obtain ⟨hid, rfl⟩ := honly.front hq
  have hconfig := config_after r k
  have hrefused : ∀ {e}, (r.after k).blockFor c = .error e →
      r.call k = .error e ∧ r.after (k + 1) = { r.after k with halted := some e } := by
    intro e he
    have hstep := step_eq_iff.2 (.refused hhalted hq he)
    exact ⟨congrArg Prod.fst hstep, (after_succ r k).trans (congrArg Prod.snd hstep)⟩
  have hspent : ∀ budget, (r.after k).spentBudget? = some budget →
      (r.after k).blockFor c = .error (.stepBudget budget c.block 0 c.environment) := by
    intro budget hs
    simp only [blockFor, hs, hid]
  have hfree : (r.after k).spentBudget? = none →
      (r.after k).blockFor c = .error (.fanOut c.block 0 c.environment) := by
    intro hs
    simp [blockFor, hs, graph_after, hb, hconfig, hr, hfans, hid]
  refine ⟨hq, hid, fun budget hbudget hle => ?_, fun hlt => ?_, ?_⟩
  · refine (hrefused (hspent budget ?_)).1
    simp [spentBudget?, hconfig, hbudget, Option.filter_some, hle]
  · refine (hrefused (hfree ?_)).1
    rw [spentBudget?, hconfig, Option.filter_eq_none_iff]
    intro budget hbudget
    simpa using hlt budget hbudget
  · cases hs : (r.after k).spentBudget? with
    | none => exact ⟨_, (hrefused (hfree hs)).2⟩
    | some budget => exact ⟨_, (hrefused (hspent budget hs)).2⟩

theorem stopsShort_start (g : Graph) (config : Config) :
    StopsShort (start g (config.withFanOut false)) (start g (config.withFanOut true)) := by
  have hstrict : start g (config.withFanOut false) =
      (start g (config.withFanOut true)).withFanOut false := rfl
  have hnever : (start g (config.withFanOut false)).NeverForks := Refuses.neverForks (.inl rfl)
  refine ⟨hnever, fun k hk => ?_, fun k hk => ?_, fun k c rest b hk hq hb hfans => ?_⟩
  · rw [hstrict]
    exact after_withFanOut hk false
  · rw [hstrict]
    exact call_withFanOut hk false
  · have hafter := after_withFanOut hk false
    have hfaces : ((start g (config.withFanOut true)).after k).FacesFanOut :=
      ⟨c, rest, b, hq, by rw [graph_after]; exact hb, hfans⟩
    have hhalted := halted_of_first rfl hk hfaces
    rw [← hstrict] at hafter
    have hq' : ((start g (config.withFanOut false)).after k).queue = c :: rest := by
      rw [hafter]
      exact hq
    refine stopsBefore rfl (hnever.root k) ?_ hq' hb hfans
    rw [hafter]
    exact hhalted

/-- **Both ways of refusing fan-out agree.** A graph is built without fan-out exactly if it is built
and no block fans out. Its runs never fork, and go the same way under either setting. A run of any
graph that refuses fan-out has only the first continuation, and goes as the one that allows it up to
the first block that fans out, which it does not enter. -/
theorem fanOut_refusals_agree :
    (∀ ds g, Graph.build false ds = .ok g ↔ Graph.build true ds = .ok g ∧ g.hasFanOut = false) ∧
    (∀ g config, g.hasFanOut = false → (start g config).Indifferent) ∧
    (∀ g (config : Config), StopsShort (start g (config.withFanOut false)) (start g (config.withFanOut true))) :=
  ⟨fun _ _ => Graph.build_false_iff, fun _ config hg => indifferent_start hg config, stopsShort_start⟩

/-- A decision with two equal edges does not fan out. An assignment with two equal targets does, and
the run stops before it, in the environment that it has come to. -/
theorem fanOut_refusals_agree_equal_targets :
    (∃ g, Graph.build false [.withTarget (.start "s") "d", .decision "d" "0<1" "e" "e",
      .decimalAssign "e" "y" "1"] = .ok g ∧ (start g .default).Indifferent) ∧
    ∃ g c, Graph.build true [.withTarget (.start "s") "a", .withTarget (.decimalAssign "a" "x" "0") "d",
      .decision "d" "x<1" "e" "e", .withAdjacents (.decimalAssign "e" "y" "x") ["d", "d"]] = .ok g ∧
    let strict := start g (Config.default.withFanOut false)
    (strict.after 3).queue = [c] ∧ c.environment.entries = [("x", .decimal .zero)] ∧
      strict.StopsBefore 3 c ∧ strict.call 3 = .error (.fanOut "e" 0 c.environment) := by
  obtain ⟨hbuild, hindifferent, hshort⟩ := fanOut_refusals_agree
  constructor
  · let g : Graph :=
      { blocks := [⟨"s", .start ["d"]⟩,
          ⟨"d", .decide ⟨"0<1", .compare (.number .zero) [(.less, .number .one)], []⟩ "e" "e"⟩,
          ⟨"e", .assign "y" .decimal ⟨"1", .number .one, []⟩ []⟩]
        index := [("d", 1), ("e", 2), ("s", 0)]
        startAt := 0 }
    have hg : g.hasFanOut = false := by decide
    exact ⟨g, (hbuild _ g).2 ⟨by decide +kernel, hg⟩, hindifferent g .default hg⟩
  · let g : Graph :=
      { blocks := [⟨"s", .start ["a"]⟩, ⟨"a", .assign "x" .decimal ⟨"0", .number .zero, []⟩ ["d"]⟩,
          ⟨"d", .decide ⟨"x<1", .compare (.name "x") [(.less, .number .one)], ["x"]⟩ "e" "e"⟩,
          ⟨"e", .assign "y" .decimal ⟨"x", .name "x", ["x"]⟩ ["d", "d"]⟩]
        index := [("a", 1), ("d", 2), ("e", 3), ("s", 0)]
        startAt := 0 }
    let env : Environment := ⟨[("x", .decimal .zero)], by simp [Assoc.Sorted]⟩
    let c : Continuation := ⟨0, none, "e", some "d", env, 3⟩
    have hbefore : ∀ j < 3, ¬((start g (Config.default.withFanOut true)).after j).FacesFanOut := by
      decide +kernel
    have hq : ((start g (Config.default.withFanOut true)).after 3).queue = [c] := by decide +kernel
    have hstops := (hshort g .default).stops 3 c [] ⟨"e", _⟩ hbefore hq rfl rfl
    exact ⟨g, c, by decide +kernel, hstops.queue, rfl, hstops, hstops.fanOut fun _ h => by cases h⟩

end Run

end Flowchart
