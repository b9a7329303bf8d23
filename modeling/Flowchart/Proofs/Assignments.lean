/-
Sequences of assignments to one environment. An assignment is refused if the variable has the other
type, and then it changes nothing; otherwise it is stored. So the first assignment to a variable fixes
its type, and of the assignments with this type the last one counts, whatever was refused between
them. The listing of an environment has every variable once, in the order of the bytes of the names.
-/
import Flowchart.Proofs.Environment
import Flowchart.Proofs.Lists
import Mathlib

namespace Flowchart

/-! ## Names in the order of their bytes -/

namespace Text

/-- The bytes of a text in UTF-8. -/
def utf8 (s : String) : List UInt8 := s.toByteArray.data.toList

theorem utf8_eq_flatMap (s : String) : utf8 s = s.toList.flatMap String.utf8EncodeChar := by
  rw [utf8, ← String.utf8Encode_toList, List.utf8Encode, List.data_toByteArray]

theorem ofNat_cons_lt_iff {a b : Nat} (ha : a < 256) (hb : b < 256) {s t : List UInt8} :
    UInt8.ofNat a :: s < UInt8.ofNat b :: t ↔ a < b ∨ a = b ∧ s < t := by
  rw [List.cons_lt_cons_iff, UInt8.lt_iff_toNat_lt, ← UInt8.toNat_inj, UInt8.toNat_ofNat_of_lt' ha,
    UInt8.toNat_ofNat_of_lt' hb]

/-- Of two characters the smaller one has the smaller bytes, whatever follows them. -/
theorem utf8EncodeChar_append_lt {c d : Char} (h : c < d) (s t : List UInt8) :
    String.utf8EncodeChar c ++ s < String.utf8EncodeChar d ++ t := by
  have hval : c.val.toNat < d.val.toNat := Char.lt_def.1 h
  have hvalid : d.val.toNat.isValidChar := d.valid
  unfold Nat.isValidChar at hvalid
  simp only [String.utf8EncodeChar]
  generalize c.val.toNat = u at hval
  generalize d.val.toNat = v at hval hvalid
  -- The smaller number is smaller at some digit to the base 64 and agrees before it.
  have hlow : u / 64 < v / 64 ∨ u / 64 = v / 64 ∧ u % 64 < v % 64 := by omega
  have hmiddle : u / 64 < v / 64 → u / 4096 < v / 4096 ∨ u / 4096 = v / 4096 ∧ u / 64 % 64 < v / 64 % 64 := by
    omega
  have hhigh : u / 4096 < v / 4096 →
      u / 262144 < v / 262144 ∨ u / 262144 = v / 262144 ∧ u / 4096 % 64 < v / 4096 % 64 := by
    omega
  have htop : u / 262144 % 8 = u / 262144 ∧ v / 262144 % 8 = v / 262144 := by omega
  -- Longer encodings start with larger bytes, and those of one length compare place by place.
  split_ifs
  all_goals simp (disch := omega) only [List.cons_append, List.nil_append, ofNat_cons_lt_iff]
  all_goals omega

theorem utf8_lt {s t : String} (h : s < t) : utf8 s < utf8 t := by
  rw [String.lt_iff_toList_lt, ← List.lex_lt] at h
  rw [utf8_eq_flatMap, utf8_eq_flatMap]
  generalize s.toList = cs at h
  generalize t.toList = ds at h
  induction h with
  | @nil d ds =>
    obtain ⟨b, bs, hd⟩ := List.exists_cons_of_ne_nil (String.utf8EncodeChar_ne_nil (c := d))
    rw [List.flatMap_cons, hd]
    exact List.nil_lt_cons _ _
  | cons _ ih => exact List.append_left_lt ih
  | rel h => exact utf8EncodeChar_append_lt h _ _

end Text

/-! ## Listings -/

namespace Environment

theorem mem_entries_iff {env : Environment} {x : String} {v : Value} :
    (x, v) ∈ env.entries ↔ env.get? x = some v :=
  (Assoc.get?_eq_some_iff env.sorted).symm

theorem mem_names_iff {env : Environment} {x : String} :
    x ∈ env.entries.map Prod.fst ↔ env.contains x = true := by
  simp [contains, Option.isSome_iff_exists, ← mem_entries_iff]

/-- Environments with the same bindings are equal. -/
theorem ext_get? {a b : Environment} (h : ∀ x, a.get? x = b.get? x) : a = b :=
  ext (Assoc.eq_of_get? a.sorted b.sorted h)

theorem pairwise_names (env : Environment) : (env.entries.map Prod.fst).Pairwise (· < ·) :=
  List.pairwise_map.2 env.sorted

theorem nodup_names (env : Environment) : (env.entries.map Prod.fst).Nodup :=
  env.pairwise_names.imp String.ne_of_lt

/-! ## One assignment -/

/-- What an assignment answers, and the environment after it: the same one if it is refused. -/
def attempt (env : Environment) (x : String) (v : Value) :
    Except TypeConflict (Option Value) × Environment :=
  match env.assign x v with
  | .ok (old, env') => (.ok old, env')
  | .error c => (.error c, env)

/-- What becomes of an assignment. It is refused if the variable has another type, and the answer names
both types. Otherwise the answer is what the variable was bound to before, and only this variable
changes. -/
inductive RefusesOrStores (env : Environment) (x : String) (v : Value) :
    Except TypeConflict (Option Value) → Environment → Prop
  | refused {t} (hbound : env.typeOf? x = some t) (hne : t ≠ v.type) :
      RefusesOrStores env x v (.error ⟨x, t, v.type⟩) env
  | stored {env'} (htype : ∀ t ∈ env.typeOf? x, t = v.type) (hstored : env'.get? x = some v)
      (hothers : ∀ y, y ≠ x → env'.get? y = env.get? y) : RefusesOrStores env x v (.ok (env.get? x)) env'

variable {env env' : Environment} {x : String} {v : Value}

theorem attempt_of_conflict {t : ValueType} (hbound : env.typeOf? x = some t) (hne : t ≠ v.type) :
    env.attempt x v = (.error ⟨x, t, v.type⟩, env) := by
  have hassign : env.assign x v = .error ⟨x, t, v.type⟩ := assign_eq_error_iff.2 ⟨hbound, rfl, rfl, hne⟩
  rw [attempt, hassign]

theorem attempt_of_agreeing (htype : ∀ t ∈ env.typeOf? x, t = v.type) :
    env.attempt x v = (.ok (env.get? x), env.insert x v) := by
  have hassign : env.assign x v = .ok (env.get? x, env.insert x v) :=
    assign_eq_ok_iff.2 ⟨htype, rfl, rfl⟩
  rw [attempt, hassign]

/-- An assignment is refused or stored, and which of the two follows from the type of the variable. -/
theorem attempt_eq_iff {answer : Except TypeConflict (Option Value)} :
    env.attempt x v = (answer, env') ↔ RefusesOrStores env x v answer env' := by
  constructor
  · intro h
    by_cases htype : ∀ t ∈ env.typeOf? x, t = v.type
    · rw [attempt_of_agreeing htype] at h
      cases h
      refine .stored htype ?_ fun y hy => ?_
      · rw [get?_insert, if_pos rfl]
      · rw [get?_insert, if_neg hy]
    · push Not at htype
      obtain ⟨t, hbound, hne⟩ := htype
      rw [attempt_of_conflict hbound hne] at h
      cases h
      exact .refused hbound hne
  · rintro (⟨hbound, hne⟩ | ⟨htype, hstored, hothers⟩)
    · exact attempt_of_conflict hbound hne
    · have hinsert : env.insert x v = env' := by
        refine ext_get? fun y => ?_
        rw [get?_insert]
        split
        next hy => rw [hy, hstored]
        next hy => exact (hothers y hy).symm
      rw [attempt_of_agreeing htype, hinsert]

/-! ## Sequences -/

/-- The environment after some assignments, whatever each of them answers. -/
def attemptAll (env : Environment) (calls : List (String × Value)) : Environment :=
  calls.foldl (fun env c => (env.attempt c.1 c.2).2) env

/-- The type of what is assigned to a variable first. -/
def firstType (x : String) (calls : List (String × Value)) : Option ValueType :=
  (written x calls).head?.map Value.type

/-- The assignments with the type of the first one to their variable. -/
def agreeing (calls : List (String × Value)) : List (String × Value) :=
  calls.filter fun c => firstType c.1 calls = some c.2.type

variable {calls : List (String × Value)}

theorem firstType_isSome_iff : (firstType x calls).isSome = true ↔ x ∈ calls.map Prod.fst := by
  rw [firstType, Option.isSome_map, List.isSome_head?, Ne, written_eq_nil_iff, Decidable.not_not]

/-- A later assignment gives a type only to a variable that has none yet. -/
theorem firstType_append (y : String) : firstType y (calls ++ [(x, v)]) =
    (firstType y calls).or (if y = x then some v.type else none) := by
  rw [firstType, firstType, written_append, List.head?_append, Option.map_or]
  by_cases hy : y = x <;> simp [hy]

theorem agreeing_append : agreeing (calls ++ [(x, v)]) =
    agreeing calls ++ if ∀ t ∈ firstType x calls, t = v.type then [(x, v)] else [] := by
  have hbefore : ∀ c ∈ calls, firstType c.1 (calls ++ [(x, v)]) = firstType c.1 calls := by
    intro c hc
    obtain ⟨t, ht⟩ := Option.isSome_iff_exists.1 (firstType_isSome_iff.2 (List.mem_map_of_mem hc))
    rw [firstType_append, ht, Option.some_or]
  have hlast : firstType x (calls ++ [(x, v)]) = some v.type ↔ ∀ t ∈ firstType x calls, t = v.type := by
    rw [firstType_append, if_pos rfl]
    cases firstType x calls <;> simp
  rw [agreeing, List.filter_append, List.filter_congr fun c hc => by rw [hbefore c hc]]
  simp [agreeing, List.filter_cons, hlast]

/-- What is left of the assignments to a variable. -/
theorem written_agreeing (x : String) (calls : List (String × Value)) :
    written x (agreeing calls) = (written x calls).filter fun v => firstType x calls = some v.type := by
  rw [written, agreeing, written, List.filter_filter, List.filter_map, List.filter_filter]
  congr 1
  refine List.filter_congr fun c _ => ?_
  by_cases hx : c.1 = x <;> simp [hx]

/-- The first assignment to a variable is never refused. -/
theorem firstType_agreeing (x : String) (calls : List (String × Value)) :
    firstType x (agreeing calls) = firstType x calls := by
  rw [firstType, written_agreeing]
  cases hwritten : written x calls with
  | nil => simp [firstType, hwritten]
  | cons v vs => simp [firstType, hwritten]

/-- What is left after some assignments are those that agree with the first one to their variable. -/
theorem stores_attemptAll (calls : List (String × Value)) :
    (empty.attemptAll calls).Stores (agreeing calls) := by
  induction calls using List.reverseRecOn with
  | nil => exact stores_empty
  | append_singleton calls c ih =>
    obtain ⟨x, v⟩ := c
    have hstep : empty.attemptAll (calls ++ [(x, v)]) = ((empty.attemptAll calls).attempt x v).2 := by
      simp [attemptAll]
    have hbound : (empty.attemptAll calls).typeOf? x = firstType x calls :=
      (ih.type x).trans (firstType_agreeing x calls)
    rw [hstep, agreeing_append, ← hbound]
    split
    next htype =>
      rw [attempt_of_agreeing htype]
      exact ih.assign (assign_eq_ok_iff.2 ⟨htype, rfl, rfl⟩)
    next htype =>
      push Not at htype
      obtain ⟨t, ht, hne⟩ := htype
      rw [attempt_of_conflict ht hne, List.append_nil]
      exact ih

/-- What an environment holds that was empty before the assignments. -/
structure Holds (env : Environment) (calls : List (String × Value)) : Prop where
  bound : ∀ x, env.contains x = true ↔ x ∈ calls.map Prod.fst
  type : ∀ x, env.typeOf? x = firstType x calls
  value : ∀ x, env.get? x = ((written x calls).filter fun v => firstType x calls = some v.type).getLast?
  size : env.size = (calls.map Prod.fst).dedup.length
  /-- The listing has every variable once, with its value, in the order of the bytes. -/
  names : (env.entries.map Prod.fst).Perm (calls.map Prod.fst).dedup
  values : ∀ p ∈ env.entries, env.get? p.1 = some p.2
  order : (env.entries.map Prod.fst).Pairwise fun x y => Text.utf8 x < Text.utf8 y

theorem holds_attemptAll (calls : List (String × Value)) : (empty.attemptAll calls).Holds calls := by
  have hstores := stores_attemptAll calls
  generalize empty.attemptAll calls = env at hstores
  have htype (x : String) : env.typeOf? x = firstType x calls :=
    (hstores.type x).trans (firstType_agreeing x calls)
  have hbound (x : String) : env.contains x = true ↔ x ∈ calls.map Prod.fst := by
    rw [← firstType_isSome_iff, ← htype, typeOf?, Option.isSome_map, contains]
  have hnames : (env.entries.map Prod.fst).Perm (calls.map Prod.fst).dedup := by
    refine (List.perm_ext_iff_of_nodup env.nodup_names (List.nodup_dedup _)).2 fun x => ?_
    rw [mem_names_iff, hbound, List.mem_dedup]
  exact {
    bound := hbound
    type := htype
    value := fun x => by rw [hstores.value, written_agreeing]
    size := by rw [← hnames.length_eq, List.length_map, size]
    names := hnames
    values := fun p hp => mem_entries_iff.1 hp
    order := env.pairwise_names.imp Text.utf8_lt }

/-- **An environment keeps the type of the first and the value of the last assignment.** Of every
environment and every assignment to it: the assignment fails exactly if the variable is bound to a
value of the other type, with an error that names both types and nothing changed; otherwise it answers
the old value and changes no other variable. So after any assignments to an empty environment, exactly
the variables that were assigned to are bound, each with the type of the first assignment to it and the
value of the last one of this type. -/
theorem first_type_last_value :
    (∀ (env : Environment) x v answer env',
      env.attempt x v = (answer, env') ↔ RefusesOrStores env x v answer env') ∧
      ∀ calls, (empty.attemptAll calls).Holds calls :=
  ⟨fun _ _ _ _ _ => attempt_eq_iff, holds_attemptAll⟩

-- Zero and false are values like all others: they fix the type and refuse the other one.
example : (empty.attemptAll [("é", .decimal .zero), ("z", .bool false), ("z", .decimal .one),
    ("é", .bool false), ("z", .bool true)]).entries = [("z", .bool true), ("é", .decimal .zero)] := by
  decide

end Environment

end Flowchart
