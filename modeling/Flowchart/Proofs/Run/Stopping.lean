/-
How a run stops. A call that fails does so in one of two ways (`failed_cases`). Either the front
continuation may not enter its block, and then nothing has happened and the continuation waits as
before; or its fork exceeds a limit, and then the continuation is gone, but no child of it is
queued and no other continuation is touched. From then on every call repeats the error, and a run
that is over stays over: calls lead back to the state in which they were made.
-/
import Flowchart.Proofs.Run.Trace

namespace Flowchart

/-- The block, the number and the environment of the continuation that an error is about, if it tells
them. -/
def RunError.place? : RunError → Option (String × Nat × Environment)
  | stepBudget _ block continuation environment | fanOut block continuation environment =>
    some (block, continuation, environment)
  | blockFailed _ | continuationLimit _ | missingBlock _ => none

namespace Run

/-! ## One call -/

/-- A call that fails, in a run that had not stopped, was refused by the block of the front
continuation or made a fork that exceeds a limit. -/
theorem failed_cases {r : Run} (hr : r.halted = none) {e : RunError} (h : r.step.1 = .error e) :
    ∃ c rest, r.queue = c :: rest ∧
      ((r.blockFor c = .error e ∧ r.step.2 = { r with halted := some e }) ∨
      ∃ limit targets, e = .continuationLimit limit ∧
        r.step.2 = { r.entered c rest (.fork targets) with halted := some e }) := by
  have hto := stepTo_step r
  generalize r.step = result at h hto ⊢
  obtain ⟨result, r'⟩ := result
  cases h
  cases hto with
  | halted hr' => cases hr.symm.trans hr'
  | @refused c rest _ _ hq hb => exact ⟨c, rest, hq, .inl ⟨hb, rfl⟩⟩
  | @exceeded c rest b s env _ _ hq _ _ hset =>
    obtain ⟨targets, limit, rfl, rfl, -⟩ := settle_error hset
    exact ⟨c, rest, hq, .inr ⟨limit, targets, rfl, rfl⟩⟩

/-- What keeps a continuation from its block tells where the continuation stands. -/
theorem place?_of_blockFor {r : Run} {c : Continuation} {e : RunError} (h : r.blockFor c = .error e)
    {place : String × Nat × Environment} (hp : e.place? = some place) :
    place = (c.block, c.id, c.environment) := by
  rcases blockFor_error h with ⟨budget, rfl⟩ | rfl | rfl
  · cases hp; rfl
  · cases hp
  · cases hp; rfl

/-- A call that was refused leaves the queue as it was, with the continuation that the error is about
at its front. -/
theorem refused_of_place? {r : Run} (hr : r.halted = none) {e : RunError} (h : r.step.1 = .error e)
    {block : String} {id : Nat} {env : Environment} (hp : e.place? = some (block, id, env)) :
    r.step.2 = { r with halted := some e } ∧
      ∃ c rest, r.queue = c :: rest ∧ c.block = block ∧ c.id = id ∧ c.environment = env := by
  obtain ⟨c, rest, hq, ⟨hb, hstep⟩ | ⟨limit, targets, rfl, -⟩⟩ := failed_cases hr h
  · obtain ⟨rfl, rfl, rfl⟩ : block = c.block ∧ id = c.id ∧ env = c.environment := by
      simpa using place?_of_blockFor hb hp
    exact ⟨hstep, c, rest, hq, rfl, rfl, rfl⟩
  · cases hp

/-! ## All calls -/

/-- The call after `n` others does no part of a step if it fails. -/
structure Atomic (r : Run) (n : Nat) : Prop where
  /-- A call that is refused changes nothing but that the run has stopped. -/
  refused : ∀ e block id env, r.call n = .error e → e.place? = some (block, id, env) →
    r.after (n + 1) = { r.after n with halted := some e } ∧
      ∃ c rest, (r.after n).queue = c :: rest ∧ c.block = block ∧ c.id = id ∧ c.environment = env
  /-- A fork that exceeds a limit takes its continuation with it and leaves its step behind. -/
  exceeded : ∀ limit, (r.after n).halted = none → r.call n = .error (.continuationLimit limit) →
    ∃ c rest, (r.after n).queue = c :: rest ∧
      r.after (n + 1) =
        { r.after n with
          queue := rest
          steps := (r.after n).steps + 1
          trace := (r.after n).trace.map (· ++ overrun c ((r.after n).steps + 1))
          halted := some (.continuationLimit limit) }

/-- Nothing comes after a call that failed, or that found the run to be over. -/
structure Sticky (r : Run) (n : Nat) : Prop where
  failed : ∀ e, r.call n = .error e → ∀ m > n, r.call m = .error e ∧ r.after m = r.after (n + 1)
  finished : r.call n = .ok none → ∀ m ≥ n, r.call m = .ok none ∧ r.after m = r.after n

theorem atomic_after {r : Run} (hr : r.halted = none) (n : Nat) : r.Atomic n := by
  refine ⟨fun e block id env h hp => ?_, fun limit hn h => ?_⟩
  · -- The error is that of the call that stopped the run, and the queue has not changed since.
    obtain ⟨j, hj, hhalted, hcall⟩ := exists_failure hr h
    obtain ⟨hstep, hfront⟩ := refused_of_place? hhalted hcall hp
    rw [← after_succ] at hstep
    rcases Nat.eq_or_lt_of_le hj with rfl | hlt
    · exact ⟨hstep, hfront⟩
    · rw [after_of_failed hcall (Nat.lt_succ_of_lt hlt), after_of_failed hcall hlt, hstep]
      exact ⟨rfl, hfront⟩
  · obtain ⟨c, rest, hq, ⟨hb, -⟩ | ⟨_, targets, -, hstep⟩⟩ := failed_cases hn h
    · rcases blockFor_error hb with ⟨budget, he⟩ | he | he <;> cases he
    · exact ⟨c, rest, hq, (after_succ r n).trans hstep⟩

/-- A run that is over stays as it is. -/
theorem after_of_finished {r : Run} {n : Nat} (h : r.call n = .ok none) {m : Nat} (hm : n ≤ m) :
    r.after m = r.after n := by
  obtain ⟨hhalted, hq⟩ := step_eq_ok_none_iff.1 h
  induction hm with
  | refl => rfl
  | step _ ih => rw [after_succ, ih, step_eq_iff.2 (.drained hhalted hq)]

theorem sticky_after (r : Run) (n : Nat) : r.Sticky n := by
  refine ⟨fun e h m hm => ⟨call_of_failed h (Nat.le_of_lt hm), after_of_failed h hm⟩, fun h m hm => ?_⟩
  have hafter := after_of_finished h hm
  refine ⟨?_, hafter⟩
  rw [call, hafter]
  exact h

/-- **Errors are atomic, and they stay.** A call that fails for the budget or for fan-out leaves
everything as it was, and its error is about the front continuation. A call that fails on the number
of continuations removes the continuation that forked, counts its step and records the entry and the
exit of its block; it queues no child and touches nothing else. Behind a call that failed every call
fails in the same way, behind the end of the run every call finds the end, and none of them changes
anything. -/
theorem errors_atomic_and_sticky (g : Graph) (config : Config) (n : Nat) :
    (start g config).Atomic n ∧ (start g config).Sticky n :=
  ⟨atomic_after rfl n, sticky_after _ n⟩

/-- A fork into two branches, the first of which forks in its turn. Under a limit of three
continuations that branch is lost, and its sibling waits for ever; under a budget of one step both
branches do. -/
theorem errors_atomic_and_sticky_nested : ∃ g,
    Graph.build true [.withAdjacents (.start "s") ["a", "b"],
      .withAdjacents (.decimalAssign "a" "x" "1") ["b", "b"], .decimalAssign "b" "y" "1"] = .ok g ∧
    (let r := start g { Config.default with maxContinuations := some 3 }
      ∀ m > 1, r.call m = .error (.continuationLimit 3) ∧
        (r.after 1).queue.map Continuation.id = [1, 2] ∧ (r.after m).queue.map Continuation.id = [2] ∧
        (r.after m).spawned = 3 ∧ (r.after m).steps = 2) ∧
    (let r := start g { Config.default with stepBudget := some 1 }
      ∀ m > 1, r.call m = .error (.stepBudget 1 "a" 1 .empty) ∧
        r.after m = { r.after 1 with halted := some (.stepBudget 1 "a" 1 .empty) }) := by
  let g : Graph :=
    { blocks := [⟨"s", .start ["a", "b"]⟩,
        ⟨"a", .assign "x" .decimal ⟨"1", .number .one, []⟩ ["b", "b"]⟩,
        ⟨"b", .assign "y" .decimal ⟨"1", .number .one, []⟩ []⟩]
      index := [("a", 1), ("b", 2), ("s", 0)]
      startAt := 0 }
  let limited : Config := { Config.default with maxContinuations := some 3 }
  let short : Config := { Config.default with stepBudget := some 1 }
  refine ⟨g, by decide +kernel, fun m hm => ?_, fun m hm => ?_⟩
  · obtain ⟨hatomic, hsticky⟩ := errors_atomic_and_sticky g limited 1
    obtain ⟨hcall, hafter⟩ := hsticky.failed (.continuationLimit 3) (by decide +kernel) m hm
    obtain ⟨c, rest, hq, hstep⟩ := hatomic.exceeded 3 (by decide +kernel) (by decide +kernel)
    have hids : ((start g limited).after 1).queue.map Continuation.id = [1, 2] := by decide +kernel
    have hspawned : ((start g limited).after 1).spawned = 3 := by decide +kernel
    have hsteps : ((start g limited).after 1).steps = 1 := by decide +kernel
    have hrest : rest.map Continuation.id = [2] := by
      rw [hq] at hids
      exact (List.cons.inj hids).2
    rw [hafter, hstep]
    exact ⟨hcall, hids, hrest, hspawned, congrArg (· + 1) hsteps⟩
  · obtain ⟨hatomic, hsticky⟩ := errors_atomic_and_sticky g short 1
    have hfirst : (start g short).call 1 = .error (.stepBudget 1 "a" 1 .empty) := by decide +kernel
    obtain ⟨hcall, hafter⟩ := hsticky.failed _ hfirst m hm
    exact ⟨hcall, hafter.trans (hatomic.refused _ _ _ _ hfirst rfl).1⟩

end Run

end Flowchart
