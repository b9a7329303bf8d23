/-
What an environment holds after a sequence of assignments. A variable is bound if something was
written to it, it has the value that was written last, and it keeps the type of what was written
first (`Stores`). An assignment that succeeds adds a write and keeps this.
-/
import Flowchart.Environment.Basic

namespace Flowchart.Environment

/-- The values that were written to a variable, in order. -/
def written (x : String) (writes : List (String × Value)) : List Value :=
  (writes.filter (·.1 = x)).map Prod.snd

/-- The environment holds what the writes stored. -/
structure Stores (env : Environment) (writes : List (String × Value)) : Prop where
  bound : ∀ x, env.contains x = true ↔ x ∈ writes.map Prod.fst
  type : ∀ x, env.typeOf? x = (written x writes).head?.map Value.type
  value : ∀ x, env.get? x = (written x writes).getLast?

variable {env env' : Environment} {x y : String} {v : Value} {writes : List (String × Value)}

theorem written_append (x y : String) (v : Value) (writes : List (String × Value)) :
    written y (writes ++ [(x, v)]) = written y writes ++ if y = x then [v] else [] := by
  by_cases h : y = x
  · simp [written, h]
  · simp [written, h, Ne.symm h]

theorem written_eq_nil_iff : written x writes = [] ↔ x ∉ writes.map Prod.fst := by
  simp only [written, List.map_eq_nil_iff, List.filter_eq_nil_iff, decide_eq_true_eq, List.mem_map,
    not_exists, not_and]

/-- An assignment succeeds exactly if the variable is not bound to another type. -/
theorem assign_eq_ok_iff {old : Option Value} :
    env.assign x v = .ok (old, env') ↔
      (∀ t ∈ env.typeOf? x, t = v.type) ∧ old = env.get? x ∧ env' = env.insert x v := by
  unfold assign typeOf?
  cases env.get? x with
  | none => simp [eq_comm]
  | some w =>
    by_cases h : w.type = v.type
    · simp [h, eq_comm]
    · simp [h]

/-- An assignment fails exactly if the variable is bound to another type. -/
theorem assign_eq_error_iff {c : TypeConflict} :
    env.assign x v = .error c ↔
      env.typeOf? x = some c.bound ∧ c.name = x ∧ c.attempted = v.type ∧ c.bound ≠ c.attempted := by
  obtain ⟨name, bound, attempted⟩ := c
  unfold assign typeOf?
  cases env.get? x with
  | none => simp
  | some w =>
    by_cases h : w.type = v.type
    · simp only [h, if_true, reduceCtorEq, Option.map_some, Option.some.injEq, false_iff]
      rintro ⟨rfl, -, rfl, hne⟩
      exact hne rfl
    · simp only [h, if_false, Except.error.injEq, TypeConflict.mk.injEq, Option.map_some,
        Option.some.injEq]
      constructor
      · rintro ⟨rfl, rfl, rfl⟩
        exact ⟨rfl, rfl, rfl, h⟩
      · rintro ⟨rfl, rfl, rfl, -⟩
        exact ⟨rfl, rfl, rfl⟩

/-- Only the values matter: what is bound follows from them. -/
theorem stores_of_value (htype : ∀ x, env.typeOf? x = (written x writes).head?.map Value.type)
    (hvalue : ∀ x, env.get? x = (written x writes).getLast?) : env.Stores writes := by
  refine ⟨fun x => ?_, htype, hvalue⟩
  rw [contains, hvalue, List.getLast?_isSome, Ne, written_eq_nil_iff, Decidable.not_not]

/-- A variable has its type from something that was written to it. -/
theorem Stores.exists_write (h : env.Stores writes) {t : ValueType} (ht : env.typeOf? x = some t) :
    ∃ v, (x, v) ∈ writes ∧ v.type = t := by
  rw [h.type, Option.map_eq_some_iff] at ht
  obtain ⟨v, hhead, htype⟩ := ht
  have hmem : v ∈ written x writes := List.mem_of_head? hhead
  simp only [written, List.mem_map, List.mem_filter, decide_eq_true_eq] at hmem
  obtain ⟨⟨y, w⟩, ⟨hin, rfl⟩, rfl⟩ := hmem
  exact ⟨w, hin, htype⟩

theorem stores_empty : empty.Stores [] := stores_of_value (fun _ => rfl) fun _ => rfl

/-- An assignment that succeeds adds a write. -/
theorem Stores.assign {old : Option Value} (h : env.Stores writes)
    (ha : env.assign x v = .ok (old, env')) : env'.Stores (writes ++ [(x, v)]) := by
  obtain ⟨htype, -, rfl⟩ := assign_eq_ok_iff.1 ha
  refine stores_of_value (fun y => ?_) fun y => ?_
  · by_cases hy : y = x
    · subst hy
      rw [typeOf?, get?_insert, if_pos rfl, written_append, if_pos rfl, List.head?_append]
      -- The first write, if there is one already, fixed the type of this one.
      have hfirst := h.type y
      cases hhead : (written y writes).head? with
      | none => rfl
      | some w =>
        rw [hhead] at hfirst
        exact congrArg some (htype _ hfirst).symm
    · rw [typeOf?, get?_insert, if_neg hy, written_append, if_neg hy, List.append_nil]
      exact h.type y
  · by_cases hy : y = x
    · rw [get?_insert, if_pos hy, written_append, if_pos hy, List.getLast?_concat]
    · rw [get?_insert, if_neg hy, written_append, if_neg hy, List.append_nil]
      exact h.value y

end Flowchart.Environment
