/-
How continuations are numbered. The outcomes and the queue hold the numbers 0, 1, 2 and so on
in one sequence without gaps, and the children of the forks, one fork after the other, are
1, 2, 3 and so on (`Numbered`). Every step keeps this: a continuation that ends takes the next
place among the outcomes, and its children take the next numbers at the back of the queue. So
no continuation is lost, doubled or overtaken (`continuations_accounted`), apart from one whose
fork exceeds a limit, and the first failure of a report is the one with the smallest number.
-/
import Flowchart.Proofs.Run.Limits
import Flowchart.Proofs.Run.Walk

namespace Flowchart

/-- The numbers of the continuations that a continuation was split into. -/
def Status.children : Status → List Nat
  | forked ids => ids
  | completed _ | failed _ => []

theorem Continuation.children_of_status? {c : Continuation} {first : Nat} {s : Signal} {status : Status}
    (h : c.status? first s = some status) :
    status.children = List.range' first s.targets.length := by
  cases s with
  | terminate | fork | fault => cases h; rfl
  | next => cases h

namespace Run

/-- How many continuations are gone without an outcome: the one whose fork exceeded a limit. -/
def lost (r : Run) : Nat :=
  match r.halted with
  | some (.continuationLimit _) => 1
  | _ => 0

/-- Where the continuation `id` comes from: the first one from nowhere, any other one from an
earlier continuation that forked into it. -/
def ComesFrom (r : Run) (id : Nat) : Option Nat → Prop
  | none => id = 0
  | some parent => parent < id ∧ ∃ o ∈ r.outcomes, o.id = parent ∧ id ∈ o.status.children

/-- The continuation `id` started before `block`, within the first `n` calls. -/
def StartsAt (r : Run) (n id : Nat) (block : String) : Prop :=
  ∃ k ≤ n, ∃ c ∈ (r.after k).queue, c.id = id ∧ c.steps = 0 ∧ c.block = block

/-! ## What every step keeps -/

/-- The numbers are given out in order. -/
structure Numbered (r : Run) : Prop where
  outcomes : r.outcomes.toList.map Outcome.id = List.range r.outcomes.size
  queue : r.queue.map Continuation.id = List.range' (r.outcomes.size + r.lost) r.queue.length
  spawned : r.outcomes.size + r.lost + r.queue.length = r.spawned
  spawned_le : r.spawned ≤ maxSpawned
  children : r.outcomes.toList.flatMap (·.status.children) = List.range' 1 (r.spawned - 1)
  queued : ∀ c ∈ r.queue, r.ComesFrom c.id c.parent
  ended : ∀ o ∈ r.outcomes, r.ComesFrom o.id o.parent
  failed : ∀ o ∈ r.outcomes, ∀ f, o.status = .failed f → f.continuation = o.id

theorem numbered_start (g : Graph) (config : Config) : (start g config).Numbered :=
  ⟨rfl, rfl, rfl, (by decide : 1 ≤ maxSpawned), rfl, by simp [start, ComesFrom], by simp [start], by simp [start]⟩

theorem lost_of_halted {r : Run} (h : r.halted = none) : r.lost = 0 := by
  simp [lost, h]

theorem lost_of_ne {r : Run} (h : ∀ limit, r.halted ≠ some (.continuationLimit limit)) : r.lost = 0 := by
  unfold lost
  split
  next limit hl => exact absurd hl (h limit)
  next => rfl

/-- A run that may not let a continuation enter its block loses none. -/
theorem lost_of_refused {r : Run} {c : Continuation} {e : RunError} (h : r.blockFor c = .error e) :
    { r with halted := some e }.lost = 0 := by
  refine lost_of_ne fun limit hl => ?_
  obtain rfl : e = .continuationLimit limit := by simpa using hl
  rcases blockFor_error h with ⟨budget, h⟩ | h | h <;> cases h

theorem ComesFrom.mono {r r' : Run} {id : Nat} {parent : Option Nat}
    (ho : ∀ o ∈ r.outcomes, o ∈ r'.outcomes) (h : r.ComesFrom id parent) : r'.ComesFrom id parent := by
  cases parent with
  | none => exact h
  | some p =>
    obtain ⟨hlt, o, hmem, hid, hchild⟩ := h
    exact ⟨hlt, o, ho o hmem, hid, hchild⟩

theorem StartsAt.mono {r : Run} {m n id : Nat} {block : String} (hmn : m ≤ n)
    (h : r.StartsAt m id block) : r.StartsAt n id block := by
  obtain ⟨k, hk, c, hc⟩ := h
  exact ⟨k, hk.trans hmn, c, hc⟩

/-- As long as the run goes on, the front continuation has the number of the next outcome. -/
theorem Numbered.front {r : Run} (h : r.Numbered) (hr : r.halted = none) {c : Continuation}
    {rest : List Continuation} (hq : r.queue = c :: rest) :
    c.id = r.outcomes.size ∧
      rest.map Continuation.id = List.range' (r.outcomes.size + 1) rest.length ∧
      r.outcomes.size + 1 + rest.length = r.spawned := by
  have hqueue := h.queue
  have hspawned := h.spawned
  simp only [hq, lost_of_halted hr, Nat.add_zero, List.map_cons, List.length_cons, List.range'_succ,
    List.cons.injEq] at hqueue hspawned
  exact ⟨hqueue.1, hqueue.2, by omega⟩

/-- A child knows its parent and the block that forked, and waits with the environment of the fork. -/
theorem child_eq {c d : Continuation} {first : Nat} {targets : List String}
    (h : d ∈ children c first targets) :
    d.parent = some c.id ∧ d.environment = c.environment ∧ d.steps = 0 ∧
      d.previous = some c.block := by
  induction targets generalizing first with
  | nil => simp [children] at h
  | cons t ts ih =>
    rcases List.mem_cons.1 h with rfl | h
    · exact ⟨rfl, rfl, rfl, rfl⟩
    · exact ih h

theorem child_id {c d : Continuation} {first : Nat} {targets : List String}
    (h : d ∈ children c first targets) : d.id ∈ List.range' first targets.length := by
  rw [← children_map_id c first targets]
  exact List.mem_map_of_mem h

/-- A continuation that ends takes the next place among the outcomes, and its children take the
next numbers. -/
theorem Numbered.ends {r r' : Run} (h : r.Numbered) (hr : r.halted = none) (hr' : r'.halted = none)
    {c : Continuation} {rest : List Continuation} (hq : r.queue = c :: rest) {s : Signal}
    {env : Environment} {status : Status} (hs : (c.signalled env).status? r.spawned s = some status)
    (hq' : r'.queue = rest ++ Run.children (c.signalled env) r.spawned s.targets)
    (ho : r'.outcomes = r.outcomes.push ((c.signalled env).outcome status))
    (hn : r'.spawned = r.spawned + s.targets.length) (hl : r'.spawned ≤ maxSpawned) :
    r'.Numbered := by
  obtain ⟨hid, hrest, hspawned⟩ := h.front hr hq
  have hchildren := Continuation.children_of_status? hs
  have hsize : r'.outcomes.size = r.outcomes.size + 1 := by rw [ho, Array.size_push]
  have hlist : r'.outcomes.toList = r.outcomes.toList ++ [(c.signalled env).outcome status] := by
    rw [ho, Array.toList_push]
  have hold : ∀ o ∈ r.outcomes, o ∈ r'.outcomes := fun o hmem => by
    rw [ho]
    exact Array.mem_push_of_mem _ hmem
  have hnew : (c.signalled env).outcome status ∈ r'.outcomes := by
    rw [ho]
    exact Array.mem_push_self
  refine ⟨?_, ?_, ?_, hl, ?_, fun d hd => ?_, fun o hmem => ?_, fun o hmem f hf => ?_⟩
  · rw [hlist, hsize, List.range_succ, List.map_append, h.outcomes, ← hid]
    rfl
  · rw [hq', hsize, lost_of_halted hr', List.map_append, hrest, children_map_id, List.length_append,
      length_children, ← List.range'_append_1, ← hspawned]
  · rw [hq', hsize, lost_of_halted hr', hn, List.length_append, length_children]
    omega
  · have hfirst : List.range' r.spawned s.targets.length =
        List.range' (1 + (r.spawned - 1)) s.targets.length := by
      congr 1
      omega
    have hcount : r'.spawned - 1 = r.spawned - 1 + s.targets.length := by omega
    rw [hlist, List.flatMap_append, h.children, List.flatMap_singleton, hcount, ← List.range'_append_1,
      ← hfirst]
    exact congrArg (List.range' 1 (r.spawned - 1) ++ ·) hchildren
  · rw [hq'] at hd
    rcases List.mem_append.1 hd with hd | hd
    · exact (h.queued d (hq ▸ List.mem_cons_of_mem c hd)).mono hold
    · have hrange := child_id hd
      rw [(child_eq hd).1]
      refine ⟨?_, _, hnew, rfl, by simpa [Continuation.outcome, hchildren] using hrange⟩
      have hle := (List.mem_range'_1.1 hrange).1
      change c.id < d.id
      omega
  · rw [ho] at hmem
    rcases Array.mem_push.1 hmem with hmem | rfl
    · exact (h.ended o hmem).mono hold
    · exact (h.queued c (hq ▸ List.mem_cons_self)).mono hold
  · rw [ho] at hmem
    rcases Array.mem_push.1 hmem with hmem | rfl
    · exact h.failed o hmem f hf
    · simp only [Continuation.outcome] at hf
      subst hf
      cases s with
      | fault => cases hs; rfl
      | terminate | next | fork => cases hs

/-- Only the numbers and parents of what is queued matter. -/
theorem Numbered.congr {r r' : Run} (h : r.Numbered) (ho : r'.outcomes = r.outcomes)
    (hn : r'.spawned = r.spawned) (hlost : r'.lost = r.lost)
    (hq : r'.queue.map (fun c => (c.id, c.parent)) = r.queue.map fun c => (c.id, c.parent)) :
    r'.Numbered := by
  have hids : r'.queue.map Continuation.id = r.queue.map Continuation.id := by
    simpa [Function.comp_def] using congrArg (List.map Prod.fst) hq
  have hlen : r'.queue.length = r.queue.length := by simpa using congrArg List.length hq
  have hout : ∀ o ∈ r.outcomes, o ∈ r'.outcomes := by
    rw [ho]
    exact fun _ => id
  refine ⟨by rw [ho]; exact h.outcomes, by rw [hids, ho, hlost, hlen]; exact h.queue,
    by rw [ho, hlost, hlen, hn]; exact h.spawned, hn ▸ h.spawned_le, by rw [ho, hn]; exact h.children,
    fun d hd => ?_, fun o hmem => ?_, by rw [ho]; exact h.failed⟩
  · obtain ⟨c, hc, heq⟩ := List.mem_map.1 (hq ▸ List.mem_map_of_mem hd)
    obtain ⟨hid, hparent⟩ := Prod.mk.inj heq
    rw [← hid, ← hparent]
    exact (h.queued c hc).mono hout
  · rw [ho] at hmem
    exact (h.ended o hmem).mono hout

theorem Numbered.step {r r' : Run} {result} (h : r.Numbered) (hto : StepTo r result r') :
    r'.Numbered := by
  cases hto with
  | halted | drained => exact h
  | @refused c rest e hr hq hb =>
    exact h.congr rfl rfl ((lost_of_refused hb).trans (lost_of_halted hr).symm) rfl
  | @exceeded c rest b s env e hr hq hb hs hset =>
    obtain ⟨targets, limit, -, rfl, -⟩ := settle_error hset
    obtain ⟨hid, hrest, hspawned⟩ := h.front hr hq
    refine ⟨h.outcomes, hrest, hspawned, h.spawned_le, h.children, fun d hd => ?_, h.ended, h.failed⟩
    exact h.queued d (hq ▸ List.mem_cons_of_mem c hd)
  | settled hr hq _ _ hset =>
    have hr' : r'.halted = none := (settle_frame hset).2.2.1.trans hr
    cases settled_of_settle hset with
    | ends hstatus hq' ho hn hl =>
      exact h.ends hr hr' hq hstatus hq' ho hn (hl h.spawned_le)
    | goesOn _ hq' ho hn =>
      refine h.congr ho hn ?_ ?_
      · rw [lost_of_halted hr', lost_of_halted hr]
      · rw [hq', hq]
        rfl

theorem numbered_after (g : Graph) (config : Config) (n : Nat) : ((start g config).after n).Numbered :=
  after_induction (numbered_start g config) Numbered.step n

/-! ## Forks -/

/-- The children are numbered one after the other, and start before the targets in order. -/
theorem startsAt_children (c : Continuation) (first : Nat) (targets : List String) :
    List.Forall₂
      (fun id block => ∃ d ∈ children c first targets, d.id = id ∧ d.steps = 0 ∧ d.block = block)
      (List.range' first targets.length) targets := by
  induction targets generalizing first with
  | nil => exact .nil
  | cons t ts ih =>
    rw [List.length_cons, List.range'_succ]
    refine .cons ⟨_, List.mem_cons_self, rfl, rfl, rfl⟩ ((ih (first + 1)).imp ?_)
    rintro id block ⟨d, hd, h⟩
    exact ⟨d, List.mem_cons_of_mem _ hd, h⟩

/-- A forked outcome has a child for each adjacent block of its last block, in order, and the
numbers of the children are consecutive and larger than its own. -/
def ForksInOrder (r : Run) (n : Nat) (o : Outcome) : Prop :=
  ∀ children, o.status = .forked children →
    ∃ b first, r.graph.get? o.lastBlock = some b ∧ o.id < first ∧
      children = List.range' first b.adjacents.length ∧
      List.Forall₂ (r.StartsAt n) children b.adjacents

theorem ForksInOrder.mono {r : Run} {m n : Nat} {o : Outcome} (hmn : m ≤ n)
    (h : r.ForksInOrder m o) : r.ForksInOrder n o := by
  intro children hstatus
  obtain ⟨b, first, hb, hlt, heq, hstarts⟩ := h children hstatus
  exact ⟨b, first, hb, hlt, heq, hstarts.imp fun _ _ => StartsAt.mono hmn⟩

theorem graph_after (r : Run) (n : Nat) : (r.after n).graph = r.graph :=
  after_induction (P := fun r' => r'.graph = r.graph) rfl (fun h hto => hto.frame.1.trans h) n

theorem config_after (r : Run) (n : Nat) : (r.after n).config = r.config :=
  after_induction (P := fun r' => r'.config = r.config) rfl (fun h hto => hto.frame.2.trans h) n

theorem forksInOrder_after (g : Graph) (config : Config) (n : Nat) :
    ∀ o ∈ ((start g config).after n).outcomes, (start g config).ForksInOrder n o := by
  induction n with
  | zero => simp [after, start]
  | succ n ih =>
    have hnumbered := numbered_after g config n
    have hgraph := graph_after (start g config) n
    have hstarts : ∀ {id block}, (∃ d ∈ ((start g config).after (n + 1)).queue,
        d.id = id ∧ d.steps = 0 ∧ d.block = block) → (start g config).StartsAt (n + 1) id block :=
      fun h => ⟨n + 1, Nat.le_refl _, h⟩
    have hto := stepTo_after (start g config) n
    generalize (start g config).after (n + 1) = r' at hto hstarts ⊢
    generalize (start g config).call n = result at hto
    generalize (start g config).after n = r at *
    intro o ho
    cases hto with
    | halted | drained | refused | exceeded => exact (ih o ho).mono (Nat.le_succ n)
    | @settled c rest b s env _ hr hq hb hs hset =>
      cases settled_of_settle hset with
      | goesOn _ _ hout =>
        rw [hout] at ho
        exact (ih o ho).mono (Nat.le_succ n)
      | ends hstatus hq' hout =>
        rw [hout] at ho
        rcases Array.mem_push.1 ho with ho | rfl
        · exact (ih o ho).mono (Nat.le_succ n)
        · intro ids hids
          cases s with
          | terminate | fault => cases hstatus; cases hids
          | next => cases hstatus
          | fork targets =>
            cases hstatus
            cases hids
            obtain ⟨hid, -, hspawned⟩ := hnumbered.front hr hq
            obtain rfl := Block.adjacents_of_fork hs
            have hget : (start g config).graph.get? c.block = some b := hgraph ▸ get?_of_blockFor hb
            refine ⟨b, r.spawned, hget, ?_, rfl, ?_⟩
            · change c.id < r.spawned
              omega
            · refine (startsAt_children (c.signalled env) r.spawned b.adjacents).imp ?_
              rintro id block ⟨d, hd, h⟩
              exact hstarts ⟨d, by rw [hq']; exact List.mem_append_right _ hd, h⟩

/-! ## Reading the numbers -/

/-- No number is listed by two forks. -/
theorem Numbered.existsUnique_fork {r : Run} (h : r.Numbered) {id : Nat} (hpos : 0 < id)
    (hlt : id < r.spawned) : ∃! o, o ∈ r.outcomes ∧ id ∈ o.status.children := by
  have hmem : id ∈ r.outcomes.toList.flatMap (·.status.children) := by
    rw [h.children, List.mem_range'_1]
    omega
  have hnodup : (r.outcomes.toList.flatMap (·.status.children)).Nodup := by
    rw [h.children]
    exact List.nodup_range'
  obtain ⟨o, ho, hid⟩ := List.mem_flatMap.1 hmem
  refine ⟨o, ⟨Array.mem_def.2 ho, hid⟩, ?_⟩
  rintro o' ⟨ho', hid'⟩
  by_contra hne
  have : Std.Symm (Function.onFun List.Disjoint fun o : Outcome => o.status.children) :=
    ⟨fun _ _ hd => hd.symm⟩
  exact (List.nodup_flatMap.1 hnodup).2.forall (Array.mem_def.1 ho') ho hne hid' hid

/-- The outcomes are listed by number. -/
theorem Numbered.pairwise {r : Run} (h : r.Numbered) :
    r.outcomes.toList.Pairwise fun o o' => o.id < o'.id := by
  have hlt : (r.outcomes.toList.map Outcome.id).Pairwise (· < ·) := by
    rw [h.outcomes]
    exact List.pairwise_lt_range
  exact List.pairwise_map.1 hlt

theorem Numbered.id_lt {r : Run} (h : r.Numbered) {o : Outcome} (ho : o ∈ r.outcomes) :
    o.id < r.outcomes.size := by
  have hmem : o.id ∈ r.outcomes.toList.map Outcome.id := List.mem_map_of_mem (Array.mem_def.1 ho)
  rwa [h.outcomes, List.mem_range] at hmem

theorem Numbered.injective {r : Run} (h : r.Numbered) :
    ∀ o ∈ r.outcomes, ∀ o' ∈ r.outcomes, o.id = o'.id → o = o' := by
  intro o ho o' ho' heq
  have hnodup : (r.outcomes.toList.map Outcome.id).Nodup := by
    rw [h.outcomes]
    exact List.nodup_range
  exact List.inj_on_of_nodup_map hnodup (Array.mem_def.1 ho) (Array.mem_def.1 ho') heq

/-- After `n` calls every continuation is an outcome or queued, apart from the `lost` ones that
come between the two. -/
structure Accounted (r : Run) (n lost : Nat) : Prop where
  outcomes : (r.after n).outcomes.toList.map Outcome.id = List.range (r.after n).outcomes.size
  queue : (r.after n).queue.map Continuation.id =
    List.range' ((r.after n).outcomes.size + lost) (r.after n).queue.length
  spawned : (r.after n).outcomes.size + lost + (r.after n).queue.length = (r.after n).spawned
  spawned_lt : (r.after n).spawned < 2 ^ 32
  queued : ∀ c ∈ (r.after n).queue, (r.after n).ComesFrom c.id c.parent
  ended : ∀ o ∈ (r.after n).outcomes, (r.after n).ComesFrom o.id o.parent
  listed : ∀ id, 0 < id → id < (r.after n).spawned →
    ∃! o, o ∈ (r.after n).outcomes ∧ id ∈ o.status.children
  forked : ∀ o ∈ (r.after n).outcomes, r.ForksInOrder n o

theorem accounted_after (g : Graph) (config : Config) (n : Nat) :
    (start g config).Accounted n ((start g config).after n).lost := by
  have h := numbered_after g config n
  have hlt : ((start g config).after n).spawned < 2 ^ 32 :=
    Nat.lt_of_le_of_lt h.spawned_le (by decide)
  exact ⟨h.outcomes, h.queue, h.spawned, hlt, h.queued, h.ended,
    fun _ hpos hlt => h.existsUnique_fork hpos hlt, forksInOrder_after g config n⟩

/-! ## The first failure -/

/-- Running to the end comes to an end with this result, a failed block being an error. -/
def Completes (r : Run) (result : Except RunError Report) : Prop :=
  ∃ limit, r.completeWithin limit = some result

theorem completes_iff {r : Run} {result : Except RunError Report} :
    r.Completes result ↔ ∃ x, r.Returns x ∧ x.bind Report.orFailure = result := by
  simp only [Completes, Returns, completeWithin, Option.map_eq_some_iff]
  constructor
  · rintro ⟨limit, x, hx, h⟩
    exact ⟨x, ⟨limit, hx⟩, h⟩
  · rintro ⟨x, ⟨limit, hx⟩, h⟩
    exact ⟨limit, x, hx, h⟩

/-- A failed block does not stop a run. -/
theorem not_returns_blockFailed {r : Run} (hr : r.halted = none) (f : BlockFailure) :
    ¬r.Returns (.error (.blockFailed f)) := by
  rintro ⟨limit, h⟩
  induction limit generalizing r with
  | zero => cases h
  | succ limit ih =>
    rcases hstep : r.step with ⟨result, r'⟩
    rw [finishWithin_succ, hstep] at h
    cases step_eq_iff.1 hstep with
    | halted hr' => cases hr.symm.trans hr'
    | drained => cases h
    | refused _ _ hb =>
      cases h
      rcases blockFor_error hb with ⟨budget, h⟩ | h | h <;> cases h
    | exceeded _ _ _ _ hset =>
      obtain ⟨_, _, -, rfl, -⟩ := settle_error hset
      cases h
    | settled _ _ _ _ hset => exact ih ((settle_frame hset).2.2.1.trans hr) h

end Run

/-- The failure of the failed continuation with the smallest number. -/
def Report.SmallestFailure (report : Report) (failure : BlockFailure) : Prop :=
  ∃ o ∈ report.outcomes, o.status = .failed failure ∧ failure.continuation = o.id ∧
    ∀ o' ∈ report.outcomes, ∀ f, o'.status = .failed f → o.id ≤ o'.id

/-- How the continuation failed, if it did. -/
def Outcome.failure? (o : Outcome) : Option BlockFailure :=
  match o.status with
  | .failed failure => some failure
  | _ => none

theorem Outcome.failure?_eq_some_iff {o : Outcome} {f : BlockFailure} :
    o.failure? = some f ↔ o.status = .failed f := by
  unfold failure?
  cases o.status <;> simp

theorem Outcome.failure?_eq_none_iff {o : Outcome} :
    o.failure? = none ↔ ∀ f, o.status ≠ .failed f := by
  unfold failure?
  cases o.status <;> simp

theorem Report.orFailure_eq_error_iff {report : Report} {failure : BlockFailure} :
    report.orFailure = .error (.blockFailed failure) ↔
      ∃ before o behind, report.outcomes = before ++ o :: behind ∧ o.status = .failed failure ∧
        ∀ o' ∈ before, ∀ f, o'.status ≠ .failed f := by
  have herror : report.orFailure = .error (.blockFailed failure) ↔
      report.firstFailure? = some failure := by
    unfold Report.orFailure
    cases report.firstFailure? <;> simp
  have hfailures : report.failures = report.outcomes.filterMap Outcome.failure? := rfl
  rw [herror, firstFailure?, hfailures, List.head?_filterMap, List.findSome?_eq_some_iff]
  simp only [Outcome.failure?_eq_some_iff, Outcome.failure?_eq_none_iff]

namespace Run

theorem Numbered.orFailure_eq_error_iff {r : Run} (h : r.Numbered) {failure : BlockFailure} :
    r.report.orFailure = .error (.blockFailed failure) ↔ r.report.SmallestFailure failure := by
  have hpairwise : r.report.outcomes.Pairwise fun o o' => o.id < o'.id := h.pairwise
  rw [Report.orFailure_eq_error_iff]
  constructor
  · rintro ⟨before, o, behind, heq, hfailed, hbefore⟩
    have hmem : o ∈ r.report.outcomes := by simp [heq]
    refine ⟨o, hmem, hfailed, h.failed o (Array.mem_def.2 hmem) failure hfailed, fun o' ho' f hf => ?_⟩
    rw [heq] at ho' hpairwise
    rcases List.mem_append.1 ho' with ho' | ho'
    · exact absurd hf (hbefore o' ho' f)
    · rcases List.mem_cons.1 ho' with rfl | ho'
      · exact Nat.le_refl _
      · exact Nat.le_of_lt ((List.pairwise_cons.1 (List.pairwise_append.1 hpairwise).2.1).1 o' ho')
  · rintro ⟨o, hmem, hfailed, -, hsmallest⟩
    obtain ⟨before, behind, heq⟩ := List.append_of_mem hmem
    refine ⟨before, o, behind, heq, hfailed, fun o' ho' f hf => ?_⟩
    have hle := hsmallest o' (by simp [heq, ho']) f hf
    rw [heq] at hpairwise
    have hlt := (List.pairwise_append.1 hpairwise).2.2 o' ho' o List.mem_cons_self
    omega

theorem completes_blockFailed_iff (g : Graph) (config : Config) {failure : BlockFailure} :
    (start g config).Completes (.error (.blockFailed failure)) ↔
      ∃ report, (start g config).Returns (.ok report) ∧ report.SmallestFailure failure := by
  rw [completes_iff]
  have hfirst : ∀ {report}, (start g config).Returns (.ok report) →
      (report.orFailure = .error (.blockFailed failure) ↔ report.SmallestFailure failure) := by
    intro report hreport
    obtain ⟨n, rfl⟩ := hreport.exists_after
    exact (numbered_after g config n).orFailure_eq_error_iff
  constructor
  · rintro ⟨x, hx, h⟩
    cases x with
    | error e =>
      cases h
      exact absurd hx (not_returns_blockFailed rfl failure)
    | ok report => exact ⟨report, hx, (hfirst hx).1 h⟩
  · rintro ⟨report, hreport, h⟩
    exact ⟨.ok report, hreport, (hfirst hreport).2 h⟩

/-! ## All continuations -/

theorem lost_after_of_ne {r : Run} (hr : r.halted = none) {n : Nat}
    (h : ∀ j < n, ∀ limit, r.call j ≠ .error (.continuationLimit limit)) : (r.after n).lost = 0 := by
  refine lost_of_ne fun limit hl => ?_
  cases n with
  | zero => cases hr.symm.trans hl
  | succ n => exact h n (Nat.lt_succ_self n) limit (halted_after_succ_iff.1 hl)

/-- A call that fails on the number of continuations is a fork of the front continuation. -/
theorem fork_of_exceeded {r : Run} (hr : ∀ limit, r.halted ≠ some (.continuationLimit limit))
    {limit : Nat} (h : r.step.1 = .error (.continuationLimit limit)) :
    r.halted = none ∧ r.step.2.outcomes = r.outcomes ∧
      ∃ c rest targets, r.queue = c :: rest ∧ r.nextSignal? = some (.fork targets) := by
  have hto := stepTo_step r
  generalize r.step = result at h hto
  obtain ⟨result, r'⟩ := result
  cases h
  cases hto with
  | halted hr' => exact absurd hr' (hr limit)
  | refused _ _ hb => rcases blockFor_error hb with ⟨budget, h⟩ | h | h <;> cases h
  | @exceeded c rest b s env _ hr' hq hb hs hset =>
    obtain ⟨targets, _, rfl, -, -⟩ := settle_error hset
    exact ⟨hr', rfl, c, rest, targets, hq, by simp [nextSignal?, hq, hb, hs]⟩

/-- **No continuation is lost, doubled or overtaken.** As long as no call has failed on the number
of continuations, the outcomes and the queue hold all numbers in order; the first call that
fails so loses the continuation that tried to fork and no other. So a failed block that is
reported as an error is the one of the failed continuation with the smallest number. -/
theorem continuations_accounted (g : Graph) (config : Config) :
    (∀ n, (∀ j < n, ∀ limit, (start g config).call j ≠ .error (.continuationLimit limit)) →
      (start g config).Accounted n 0) ∧
    (∀ j limit, (∀ i < j, ∀ limit, (start g config).call i ≠ .error (.continuationLimit limit)) →
      (start g config).call j = .error (.continuationLimit limit) →
      ∃ c rest targets, ((start g config).after j).queue = c :: rest ∧
        ((start g config).after j).nextSignal? = some (.fork targets) ∧
        ∀ n > j, (start g config).Accounted n 1 ∧
          ((start g config).after n).outcomes.size = c.id) ∧
    (∀ failure, (start g config).Completes (.error (.blockFailed failure)) ↔
      ∃ report, (start g config).Returns (.ok report) ∧ report.SmallestFailure failure) := by
  refine ⟨fun n h => ?_, fun j limit hbefore hcall => ?_, fun failure => completes_blockFailed_iff g config⟩
  · rw [← lost_after_of_ne (r := start g config) rfl h]
    exact accounted_after g config n
  · have hj : ∀ limit, ((start g config).after j).halted ≠ some (.continuationLimit limit) := by
      intro limit' hl
      cases j with
      | zero => cases hl
      | succ j => exact hbefore j (Nat.lt_succ_self j) limit' (halted_after_succ_iff.1 hl)
    obtain ⟨hr, hout, c, rest, targets, hq, hsig⟩ := fork_of_exceeded hj hcall
    refine ⟨c, rest, targets, hq, hsig, fun n hn => ?_⟩
    have hafter : (start g config).after n = (start g config).after (j + 1) := after_of_failed hcall hn
    have hlost : ((start g config).after n).lost = 1 := by
      rw [hafter, lost, halted_after_succ_iff.2 hcall]
    refine ⟨hlost ▸ accounted_after g config n, ?_⟩
    rw [hafter, after_succ, hout, ((numbered_after g config j).front hr hq).1]

/-- A fork into three under a limit of four continuations: the first branch fails, and when the
second one forks in its turn it is lost, with the third one still queued. -/
theorem continuations_accounted_nested : ∃ g,
    Graph.build true [.withAdjacents (.start "s") ["a", "b", "a"], .decimalAssign "a" "x" "y",
      .withAdjacents (.decimalAssign "b" "y" "1") ["a", "a"]] = .ok g ∧
    let r := start g { Config.default with maxContinuations := some 4 }
    r.call 2 = .error (.continuationLimit 4) ∧ r.Accounted 2 0 ∧
      ∀ n > 2, r.Accounted n 1 ∧ (r.after n).outcomes.size = 2 := by
  let g : Graph :=
    { blocks := [⟨"s", .start ["a", "b", "a"]⟩, ⟨"a", .assign "x" .decimal ⟨"y", .name "y", ["y"]⟩ []⟩,
        ⟨"b", .assign "y" .decimal ⟨"1", .number .one, []⟩ ["a", "a"]⟩]
      index := [("a", 1), ("b", 2), ("s", 0)]
      startAt := 0 }
  let config : Config := { Config.default with maxContinuations := some 4 }
  have hcall : (start g config).call 2 = .error (.continuationLimit 4) := by decide +kernel
  have hbefore : ∀ i < 2, ∀ limit, (start g config).call i ≠ .error (.continuationLimit limit) := by
    intro i hi limit
    have hi : i = 0 ∨ i = 1 := by omega
    rcases hi with rfl | rfl
    · exact fun h => by cases h
    · exact fun h => by cases h
  obtain ⟨haccounted, hlimit, -⟩ := continuations_accounted g config
  obtain ⟨c, rest, targets, hq, -, hafter⟩ := hlimit 2 4 hbefore hcall
  have hids : ((start g config).after 2).queue.map Continuation.id = [2, 3] := by decide +kernel
  have hid : c.id = 2 := by
    rw [hq] at hids
    exact (List.cons.inj hids).1
  exact ⟨g, by decide +kernel, hcall, haccounted 2 hbefore, fun n hn => hid ▸ hafter n hn⟩

end Run

end Flowchart
