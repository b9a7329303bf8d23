/-
The limits of the settings only cut a run short. A run under a step budget and a limit on
continuations is compared call by call with the same run under neither: as long as no call
has failed, both are in the same state (`Agrees`), and the next call answers the same unless
the budget is used up or a fork would exceed the limit, in this order.
-/
import Flowchart.Proofs.Run.Step

namespace Flowchart

/-- The same settings without the step budget and the limit on continuations. -/
def Config.unlimited (c : Config) : Config := { c with stepBudget := none, maxContinuations := none }

namespace Run

def unlimited (r : Run) : Run := { r with config := r.config.unlimited }

@[simp] theorem unlimited_graph (r : Run) : r.unlimited.graph = r.graph := rfl
@[simp] theorem unlimited_queue (r : Run) : r.unlimited.queue = r.queue := rfl
@[simp] theorem unlimited_spawned (r : Run) : r.unlimited.spawned = r.spawned := rfl
@[simp] theorem unlimited_steps (r : Run) : r.unlimited.steps = r.steps := rfl
@[simp] theorem unlimited_halted (r : Run) : r.unlimited.halted = r.halted := rfl

/-- The signal that the next step makes, if it makes one. -/
def nextSignal? (r : Run) : Option Signal :=
  match r.queue with
  | [] => none
  | c :: _ =>
    match r.blockFor c with
    | .ok b => some (b.signal c.environment).1
    | .error _ => none

/-! ## One call -/

theorem blockFor_unlimited {r : Run} (h : r.spentBudget? = none) (c : Continuation) :
    r.unlimited.blockFor c = r.blockFor c := by
  simp only [blockFor, h]
  rfl

/-- Without the limits a continuation is settled in the same way, unless it forks into more
continuations than the limit allows. -/
theorem settle_unlimited {r : Run} {c : Continuation} {s : Signal}
    (h : ∀ targets, s = .fork targets →
      ∀ limit, r.config.maxContinuations = some limit → r.spawned + targets.length ≤ limit) :
    r.unlimited.settle c s = (r.settle c s).map unlimited := by
  refine settle_map (fun _ _ _ => rfl) (fun _ _ => rfl) (fun _ _ _ => rfl) fun targets hs => ?_
  cases hm : r.config.maxContinuations with
  | none => simp [exceededLimit?, unlimited, Config.unlimited, hm]
  | some limit =>
    have := Nat.not_lt.2 (h targets hs limit hm)
    simp [exceededLimit?, unlimited, Config.unlimited, hm, Option.filter_some, this]

/-- With the budget used up no block is entered. -/
theorem step_of_spent {r : Run} {budget : Nat} {c : Continuation} {rest : List Continuation}
    (hr : r.halted = none) (hs : r.spentBudget? = some budget) (hq : r.queue = c :: rest) :
    r.step.1 = .error (.stepBudget budget c.block c.id c.environment) := by
  have hb : r.blockFor c = .error (.stepBudget budget c.block c.id c.environment) := by
    simp only [blockFor, hs]
  rw [step_eq_iff.2 (.refused hr hq hb)]

/-- A fork that exceeds the limit on continuations fails. -/
theorem step_of_exceeded {r : Run} {limit : Nat} {targets : List String} (hr : r.halted = none)
    (hs : r.spentBudget? = none) (hsig : r.unlimited.nextSignal? = some (.fork targets))
    (hm : r.config.maxContinuations = some limit) (hl : limit < r.spawned + targets.length) :
    r.step.1 = .error (.continuationLimit limit) := by
  cases hq : r.queue with
  | nil => simp [nextSignal?, hq] at hsig
  | cons c rest =>
    simp only [nextSignal?, unlimited_queue, hq, blockFor_unlimited hs] at hsig
    split at hsig
    next b hb =>
      rcases hsignal : b.signal c.environment with ⟨s, env⟩
      obtain rfl : s = .fork targets := by simpa [hsignal] using hsig
      have hset : (r.entered c rest (.fork targets)).settle (c.signalled env) (.fork targets) =
          .error (.continuationLimit limit) := by
        have hlimit : (r.entered c rest (.fork targets)).exceededLimit? (r.spawned + targets.length) =
            some limit := by
          simp [exceededLimit?, hm, Option.filter_some, hl]
        simp only [settle, fork_eq, entered_spawned, hlimit]
      rw [step_eq_iff.2 (.exceeded hr hq hb hsignal hset)]
    next => cases hsig

theorem incidental_unlimited : Incidental unlimited :=
  ⟨fun _ => rfl, fun _ => rfl, fun _ => rfl, fun _ _ _ _ => rfl, fun _ _ => rfl⟩

/-- A call that no limit stops does what it does without the limits. -/
theorem step_unlimited {r : Run} (hs : r.queue ≠ [] → r.spentBudget? = none)
    (hl : ∀ targets, r.unlimited.nextSignal? = some (.fork targets) →
      ∀ limit, r.config.maxContinuations = some limit → r.spawned + targets.length ≤ limit) :
    r.unlimited.step = (r.step.1, r.step.2.unlimited) := by
  have hblock : ∀ {c rest}, r.queue = c :: rest → r.unlimited.blockFor c = r.blockFor c :=
    fun hq => blockFor_unlimited (hs (by simp [hq])) _
  refine incidental_unlimited.step_eq hblock fun {c rest b s env} hq hb hsig => ?_
  -- The signal of the front continuation is the one that `hl` speaks of.
  refine settle_unlimited fun targets hf limit hm => hl targets ?_ limit hm
  simp [nextSignal?, hq, hblock hq, hb, hsig, hf]

/-- A call that does not fail is stopped by no limit. -/
theorem step_unlimited_of_not_error {r : Run} (h : ∀ e, r.step.1 ≠ .error e) :
    r.unlimited.step = (r.step.1, r.step.2.unlimited) := by
  have hr : r.halted = none := by
    cases hr : r.halted with
    | none => rfl
    | some e => exact absurd (by rw [step_eq_iff.2 (.halted hr)]) (h e)
  have hs : r.queue ≠ [] → r.spentBudget? = none := by
    intro hq
    obtain ⟨c, rest, hq⟩ := List.exists_cons_of_ne_nil hq
    cases hs : r.spentBudget? with
    | none => rfl
    | some budget => exact absurd (step_of_spent hr hs hq) (h _)
  refine step_unlimited hs fun targets hsig limit hm => ?_
  have hq : r.queue ≠ [] := by
    intro hq
    simp [nextSignal?, hq] at hsig
  by_contra hl
  exact h _ (step_of_exceeded hr (hs hq) hsig hm (Nat.not_le.1 hl))

/-! ## All calls -/

/-- After `k` calls that did not fail, the limited run is in the state of the free one, and has
taken `k` steps or is over. -/
structure Agrees (limited free : Run) (k : Nat) : Prop where
  state : limited.unlimited = free
  halted : limited.halted = none
  steps : limited.queue ≠ [] → limited.steps = k

theorem agrees_after (g : Graph) (config : Config) {k : Nat}
    (h : ∀ j < k, ∀ e, (start g config).call j ≠ .error e) :
    Agrees ((start g config).after k) ((start g config.unlimited).after k) k := by
  induction k with
  | zero => exact ⟨rfl, rfl, fun _ => rfl⟩
  | succ k ih =>
    obtain ⟨hstate, hhalted, hsteps⟩ := ih fun j hj => h j (Nat.lt_succ_of_lt hj)
    have hcall := h k (Nat.lt_succ_self k)
    have hto := stepTo_after (start g config) k
    have hfree : (start g config.unlimited).after (k + 1) = ((start g config).after (k + 1)).unlimited := by
      rw [after_succ, after_succ, ← hstate, step_unlimited_of_not_error hcall]
    refine ⟨hfree.symm, ?_, ?_⟩
    all_goals
      generalize (start g config).after (k + 1) = r' at hto ⊢
      generalize (start g config).call k = result at hto hcall
    · cases hto with
      | halted => exact absurd rfl (hcall _)
      | refused => exact absurd rfl (hcall _)
      | exceeded => exact absurd rfl (hcall _)
      | drained => exact hhalted
      | settled _ _ _ _ hset => exact (settle_frame hset).2.2.1.trans hhalted
    · intro hq'
      cases hto with
      | halted => exact absurd rfl (hcall _)
      | refused => exact absurd rfl (hcall _)
      | exceeded => exact absurd rfl (hcall _)
      | drained _ hq => exact absurd hq hq'
      | settled _ hq _ _ hset =>
        rw [(settle_frame hset).2.2.2, entered_steps, hsteps (by simp [hq])]

/-- No more signals are made than the budget allows. -/
theorem steps_le_of_stepBudget {r : Run} {budget : Nat} (hb : r.config.stepBudget = some budget)
    (hr : r.steps ≤ budget) (k : Nat) : (r.after k).steps ≤ budget := by
  have hinv : (r.after k).config.stepBudget = some budget ∧ (r.after k).steps ≤ budget := by
    refine after_induction (P := fun r => r.config.stepBudget = some budget ∧ r.steps ≤ budget)
      ⟨hb, hr⟩ ?_ k
    rintro r r' result ⟨hb, hr⟩ hto
    refine ⟨by rw [hto.frame.2, hb], ?_⟩
    have hlt : ∀ {c b}, r.blockFor c = .ok b → r.steps < budget := by
      intro c b hblock
      by_contra hle
      simp [blockFor, spentBudget?, hb, Option.filter_some, Nat.not_lt.1 hle] at hblock
    cases hto with
    | halted | drained | refused => exact hr
    | settled _ _ hblock _ hset =>
      rw [(settle_frame hset).2.2.2]
      exact hlt hblock
    | exceeded _ _ hblock => exact hlt hblock
  exact hinv.2

/-- No more continuations are made than the limit allows, the first one apart. -/
theorem spawned_le_of_maxContinuations {r : Run} {limit : Nat}
    (hm : r.config.maxContinuations = some limit) (hr : r.spawned ≤ max 1 limit) (k : Nat) :
    (r.after k).spawned ≤ max 1 limit := by
  have hinv : (r.after k).config.maxContinuations = some limit ∧ (r.after k).spawned ≤ max 1 limit := by
    refine after_induction
      (P := fun r => r.config.maxContinuations = some limit ∧ r.spawned ≤ max 1 limit) ⟨hm, hr⟩ ?_ k
    rintro r r' result ⟨hm, hr⟩ hto
    refine ⟨by rw [hto.frame.2, hm], ?_⟩
    cases hto with
    | halted | drained | refused | exceeded => exact hr
    | @settled _ _ _ s _ _ _ _ _ _ hset =>
      cases s with
      | terminate | next | fault => cases hset; exact hr
      | fork targets =>
        simp only [settle, fork_eq] at hset
        split at hset
        · cases hset
        next hnone =>
          cases hset
          have hle : r.spawned + targets.length ≤ limit := by
            by_contra hlt
            simp [exceededLimit?, hm, Option.filter_some, Nat.not_le.1 hlt] at hnone
          exact Nat.le_trans hle (Nat.le_max_right 1 limit)
  exact hinv.2

/-- A report of a limited run is a report of the free one. -/
theorem finishWithin_unlimited {r : Run} {n : Nat} {report : Report}
    (h : r.finishWithin n = some (.ok report)) : r.unlimited.finishWithin n = some (.ok report) := by
  induction n generalizing r with
  | zero => cases h
  | succ n ih =>
    have hok : ∀ e, r.step.1 ≠ .error e := by
      intro e he
      rcases hstep : r.step with ⟨result, r'⟩
      rw [hstep] at he
      cases he
      simp [finishWithin_succ, hstep] at h
    rw [finishWithin_succ] at h
    rw [finishWithin_succ, step_unlimited_of_not_error hok]
    generalize r.step = result at h ⊢
    obtain ⟨result, r'⟩ := result
    cases result with
    | error e => cases h
    | ok record =>
      cases record with
      | none => exact h
      | some record => exact ih h

/-- The free run goes on exactly when something is queued. -/
theorem unlimited_goes_on_iff {r : Run} (hr : r.halted = none) :
    r.unlimited.step.1 ≠ .ok none ↔ r.queue ≠ [] := by
  rw [Ne, step_eq_ok_none_iff]
  simp [hr]

/-- A budget that is never passed is spent only when it equals the steps taken. -/
theorem spentBudget?_eq_none {r : Run} {k : Nat}
    (hle : ∀ budget, r.config.stepBudget = some budget → r.steps ≤ budget) (hk : r.steps = k)
    (hne : r.config.stepBudget ≠ some k) : r.spentBudget? = none := by
  cases hs : r.spentBudget? with
  | none => rfl
  | some budget =>
    obtain ⟨hsome, hspent⟩ := Option.filter_eq_some_iff.1 hs
    have hbound := hle budget hsome
    obtain rfl : budget = k := by
      simp only [decide_eq_true_eq] at hspent
      omega
    exact absurd hsome hne

/-- The budget stops the call after `k` others: it allows `k` steps, and the free run is not over. -/
def BudgetStops (config : Config) (free : Run) (k : Nat) : Prop :=
  config.stepBudget = some k ∧ free.call k ≠ .ok none

/-- The call after `k` others makes a fork of more continuations than `limit` allows. -/
def ForkExceeds (config : Config) (free : Run) (k limit : Nat) : Prop :=
  config.maxContinuations = some limit ∧ ∃ targets,
    (free.after k).nextSignal? = some (.fork targets) ∧
      limit < (free.after k).spawned + targets.length

/-- **Limits only truncate a run.** As long as no call has failed, the next call of a limited run
fails on the budget, naming the front continuation, or else fails on the limit on
continuations, or else answers as without limits. So the budget bounds the signals, the limit
bounds the continuations, and a report is the one that the free run returns. -/
theorem limits_truncate (g : Graph) (config : Config) :
    (∀ k, (∀ j < k, ∀ e, (start g config).call j ≠ .error e) →
      (BudgetStops config (start g config.unlimited) k → ∃ c rest,
        ((start g config.unlimited).after k).queue = c :: rest ∧
        (start g config).call k = .error (.stepBudget k c.block c.id c.environment)) ∧
      (¬ BudgetStops config (start g config.unlimited) k →
        ∀ limit, ForkExceeds config (start g config.unlimited) k limit →
          (start g config).call k = .error (.continuationLimit limit)) ∧
      (¬ BudgetStops config (start g config.unlimited) k →
        (∀ limit, ¬ ForkExceeds config (start g config.unlimited) k limit) →
          (start g config).call k = (start g config.unlimited).call k)) ∧
    (∀ budget, config.stepBudget = some budget → ∀ k, ((start g config).after k).steps ≤ budget) ∧
    (∀ limit, config.maxContinuations = some limit →
      ∀ k, ((start g config).after k).spawned ≤ max 1 limit) ∧
    (∀ report, (start g config).Returns (.ok report) →
      (start g config.unlimited).Returns (.ok report)) := by
  have hbudget : ∀ budget, config.stepBudget = some budget →
      ∀ k, ((start g config).after k).steps ≤ budget :=
    fun budget hb => steps_le_of_stepBudget hb (Nat.zero_le _)
  refine ⟨fun k hno => ?_, hbudget, fun limit hm =>
    spawned_le_of_maxContinuations hm (Nat.le_max_left 1 limit), ?_⟩
  · obtain ⟨hstate, hhalted, hsteps⟩ := agrees_after g config hno
    have hconfig : ((start g config).after k).config = config :=
      after_induction (P := fun r => r.config = config) rfl (fun h hto => hto.frame.2.trans h) k
    have hb := fun budget hb => hbudget budget hb k
    simp only [BudgetStops, ForkExceeds, call, ← hstate]
    generalize (start g config).after k = r at *
    subst hconfig
    have hgoes : r.unlimited.step.1 ≠ .ok none ↔ r.queue ≠ [] := unlimited_goes_on_iff hhalted
    have hspent : ¬ (r.config.stepBudget = some k ∧ r.unlimited.step.1 ≠ .ok none) →
        r.queue ≠ [] → r.spentBudget? = none := by
      intro hnot hq
      refine spentBudget?_eq_none hb (hsteps hq) fun hk => hnot ⟨hk, hgoes.2 hq⟩
    refine ⟨?_, ?_, ?_⟩
    · rintro ⟨hk, hgo⟩
      obtain ⟨c, rest, hq⟩ := List.exists_cons_of_ne_nil (hgoes.1 hgo)
      refine ⟨c, rest, hq, step_of_spent hhalted ?_ hq⟩
      simp [spentBudget?, hk, Option.filter_some, hsteps (hgoes.1 hgo)]
    · rintro hnot limit ⟨hm, targets, hsig, hl⟩
      have hq : r.queue ≠ [] := by
        intro hq
        simp [nextSignal?, hq] at hsig
      exact step_of_exceeded hhalted (hspent hnot hq) hsig hm hl
    · intro hnot hnone
      rw [step_unlimited (hspent hnot) fun targets hsig limit hm => ?_]
      by_contra hl
      exact hnone limit ⟨hm, targets, hsig, Nat.not_le.1 hl⟩
  · rintro report ⟨n, hn⟩
    exact ⟨n, finishWithin_unlimited hn⟩

/-- A block that leads to itself, under a budget of one step: the second call fails. -/
theorem limits_truncate_loop : ∃ g,
    Graph.build true [.withTarget (.start "s") "s"] = .ok g ∧
    (start g { Config.default with stepBudget := some 1 }).call 1 =
      .error (.stepBudget 1 "s" 0 .empty) := by
  let g : Graph := { blocks := [⟨"s", .start ["s"]⟩], index := [("s", 0)], startAt := 0 }
  let config : Config := { Config.default with stepBudget := some 1 }
  have hfirst : ∀ j < 1, ∀ e, (start g config).call j ≠ .error e := by
    intro j hj e
    obtain rfl : j = 0 := by omega
    exact fun h => by cases h
  have hstops : BudgetStops config (start g config.unlimited) 1 := ⟨rfl, fun h => by cases h⟩
  obtain ⟨c, rest, hq, hcall⟩ := ((limits_truncate g config).1 1 hfirst).1 hstops
  refine ⟨g, by cbv, hcall.trans ?_⟩
  cases hq
  rfl

end Run

end Flowchart
