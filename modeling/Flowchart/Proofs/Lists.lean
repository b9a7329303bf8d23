/-
Facts about lists that hold whatever they list: computations that may fail run over a list, lists related
element by element, first repetitions, and association lists.
-/
import Flowchart.Assoc
import Mathlib.Data.List.Forall2
import Mathlib.Data.List.Sort

namespace Flowchart

/-! ## Computations that may fail -/

theorem bind_eq_ok_iff {ε α β : Type} {x : Except ε α} {f : α → Except ε β} {b : β} :
    x >>= f = .ok b ↔ ∃ a, x = .ok a ∧ f a = .ok b := by
  cases x with
  | error e => simp [bind, Except.bind]
  | ok a => simp [bind, Except.bind]

theorem mapM_eq_ok_iff {α β ε : Type} {f : α → Except ε β} {l : List α} {l' : List β} :
    l.mapM f = .ok l' ↔ List.Forall₂ (fun a b => f a = .ok b) l l' := by
  induction l generalizing l' with
  | nil => simp [pure, Except.pure, eq_comm]
  | cons a l ih =>
    simp only [List.mapM_cons, bind_eq_ok_iff, ih, List.forall₂_cons_left_iff]
    simp [pure, Except.pure, eq_comm]

/-- The first error of a list is the one of an element behind elements without an error. -/
theorem mapM_eq_error_iff {α β ε : Type} {f : α → Except ε β} {l : List α} {e : ε} :
    l.mapM f = .error e ↔ ∃ before a after, l = before ++ a :: after ∧
      (∀ a' ∈ before, ∃ b, f a' = .ok b) ∧ f a = .error e := by
  induction l with
  | nil => simp [pure, Except.pure]
  | cons x l ih =>
    rw [List.mapM_cons]
    cases hx : f x with
    | error e' =>
      simp only [bind, Except.bind, Except.error.injEq]
      constructor
      · rintro rfl
        exact ⟨[], x, l, rfl, List.forall_mem_nil _, hx⟩
      · rintro ⟨before, a, after, heq, hbefore, ha⟩
        cases before with
        | nil =>
          obtain rfl := (List.cons.inj heq).1
          exact Except.error.inj (hx.symm.trans ha)
        | cons y before =>
          obtain rfl := (List.cons.inj heq).1
          obtain ⟨b, hb⟩ := hbefore x List.mem_cons_self
          cases hx.symm.trans hb
    | ok b =>
      have hrest : (Except.ok b >>= fun b => l.mapM f >>= fun bs => pure (b :: bs)) =
          (Except.error e : Except ε (List β)) ↔ l.mapM f = .error e := by
        cases l.mapM f <;> simp [bind, Except.bind, pure, Except.pure]
      rw [hrest, ih]
      constructor
      · rintro ⟨before, a, after, rfl, hbefore, ha⟩
        exact ⟨x :: before, a, after, rfl, List.forall_mem_cons.2 ⟨⟨b, hx⟩, hbefore⟩, ha⟩
      · rintro ⟨before, a, after, heq, hbefore, ha⟩
        cases before with
        | nil =>
          obtain rfl := (List.cons.inj heq).1
          cases hx.symm.trans ha
        | cons y before =>
          obtain ⟨rfl, rfl⟩ := List.cons.inj heq
          exact ⟨before, a, after, rfl, fun a' ha' => hbefore a' (List.mem_cons_of_mem _ ha'), ha⟩

/-! ## Lists related element by element -/

section
variable {α β γ : Type} {R : α → β → Prop}

theorem map_eq_of_forall₂ {f : α → γ} {f' : β → γ} (hf : ∀ a b, R a b → f a = f' b) {l : List α}
    {l' : List β} (h : List.Forall₂ R l l') : l.map f = l'.map f' := by
  rw [← List.forall₂_eq_eq_eq, List.forall₂_map_left_iff, List.forall₂_map_right_iff]
  exact h.imp hf

theorem forall₂_map {f : α → β} {l : List α} (h : ∀ a ∈ l, R a (f a)) :
    List.Forall₂ R l (l.map f) := by
  rw [List.forall₂_map_right_iff]
  exact List.forall₂_same.2 h

theorem exists_of_mem_right {l : List α} {l' : List β} (h : List.Forall₂ R l l') {b : β}
    (hb : b ∈ l') : ∃ a ∈ l, R a b := by
  induction h with
  | nil => cases hb
  | @cons a b' l l' hab _ ih =>
    rcases List.mem_cons.1 hb with rfl | hb
    · exact ⟨a, List.mem_cons_self, hab⟩
    · obtain ⟨a', ha', hab'⟩ := ih hb
      exact ⟨a', List.mem_cons_of_mem a ha', hab'⟩

theorem forall₂_append_left {xs ys : List α} {zs : List β} (h : List.Forall₂ R (xs ++ ys) zs) :
    ∃ zs₁ zs₂, zs = zs₁ ++ zs₂ ∧ List.Forall₂ R xs zs₁ ∧ List.Forall₂ R ys zs₂ := by
  induction xs generalizing zs with
  | nil => exact ⟨[], zs, rfl, .nil, h⟩
  | cons x xs ih =>
    cases h with
    | cons hx h =>
      obtain ⟨zs₁, zs₂, rfl, h₁, h₂⟩ := ih h
      exact ⟨_ :: zs₁, zs₂, rfl, .cons hx h₁, h₂⟩

end

/-! ## Runs and repetitions -/

section
variable {α : Type}

theorem takeWhile_append_eq {p : α → Bool} {w : List α} (rest : List α) (hw : ∀ a ∈ w, p a = true)
    (hrest : ∀ a ∈ rest.head?, p a = false) :
    (w ++ rest).takeWhile p = w ∧ (w ++ rest).dropWhile p = rest := by
  rw [List.takeWhile_append_of_pos hw, List.dropWhile_append_of_pos hw]
  cases rest with
  | nil => simp
  | cons a rest =>
    have ha := hrest a rfl
    simp [ha]

theorem head?_dropWhile_eq {p : α → Bool} (l : List α) : ∀ a ∈ (l.dropWhile p).head?, p a = false := by
  intro a ha
  have h := List.head?_dropWhile_not p l
  rw [Option.mem_def.1 ha] at h
  exact h

/-- What is found first is found before it is repeated. -/
theorem find?_eraseDups [BEq α] [LawfulBEq α] (p : α → Bool) (l : List α) :
    l.eraseDups.find? p = l.find? p := by
  induction hn : l.length using Nat.strong_induction_on generalizing l with
  | _ n ih =>
    subst hn
    cases l with
    | nil => rfl
    | cons x l =>
      rw [List.eraseDups_cons, List.find?_cons, List.find?_cons]
      cases hx : p x with
      | true => rfl
      | false =>
        have hlt : (l.filter fun y => !y == x).length < (x :: l).length :=
          Nat.lt_succ_of_le (List.length_filter_le ..)
        -- What is erased has the same answer as the element that it repeats.
        have hkeep : (fun y => decide ((!y == x) = true ∧ p y = true)) = p := by
          funext y
          by_cases hy : y = x
          · simp [hy, hx]
          · simp [hy]
        simp only
        rw [ih _ hlt _ rfl, List.find?_filter, hkeep]

theorem not_nodup_of_mem {before after : List α} {x : α} (hx : x ∈ before) :
    ¬(before ++ x :: after).Nodup :=
  fun h => (List.nodup_append.1 h).2.2 x hx x List.mem_cons_self rfl

/-- The first element that repeats an earlier one stands behind distinct ones, so there is only one. -/
theorem eq_of_first_repeated {before after before' after' : List α} {x x' : α}
    (h : before ++ x :: after = before' ++ x' :: after') (hbefore : before.Nodup) (hx : x ∈ before)
    (hbefore' : before'.Nodup) (hx' : x' ∈ before') : x = x' := by
  rcases List.append_eq_append_iff.1 h with ⟨more, rfl, hmore⟩ | ⟨more, rfl, hmore⟩
  · cases more with
    | nil => exact (List.cons.inj hmore).1
    | cons y more =>
      obtain rfl := (List.cons.inj hmore).1
      exact absurd hbefore' (not_nodup_of_mem hx)
  · cases more with
    | nil => exact (List.cons.inj hmore).1.symm
    | cons y more =>
      obtain rfl := (List.cons.inj hmore).1
      exact absurd hbefore (not_nodup_of_mem hx')

end

/-! ## Association lists -/

namespace Assoc

variable {α : Type} {l l' : List (String × α)}

theorem get?_eq_some_iff (h : Sorted l) {k : String} {v : α} : get? k l = some v ↔ (k, v) ∈ l := by
  induction l with
  | nil => simp [get?]
  | cons p l ih =>
    obtain ⟨k', v'⟩ := p
    obtain ⟨hfirst, hl⟩ := List.pairwise_cons.1 h
    by_cases hk : k = k'
    · subst hk
      -- The key stands in front, so it stands nowhere else.
      have hrest : (k, v) ∉ l := fun hmem => String.lt_irrefl k (hfirst _ hmem)
      simp [get?, hrest, eq_comm]
    · simp [get?, hk, ih hl]

/-- Lists with the same bindings are equal. -/
theorem eq_of_get? (h : Sorted l) (h' : Sorted l') (hget : ∀ k, get? k l = get? k l') : l = l' := by
  have hirrefl : Std.Irrefl fun p q : String × α => p.1 < q.1 := ⟨fun p => String.lt_irrefl p.1⟩
  have hantisymm : Std.Antisymm fun p q : String × α => p.1 < q.1 :=
    ⟨fun _ _ hlt hgt => absurd hgt (String.lt_asymm hlt)⟩
  refine List.Pairwise.eq_of_mem_iff h h' ?_
  rintro ⟨k, v⟩
  rw [← get?_eq_some_iff h, ← get?_eq_some_iff h', hget]

theorem mem_of_mem_foldl_insert {m : List (String × α)} {p : String × α}
    (h : p ∈ l.foldl (fun m (k, v) => insert k v m) m) : p ∈ l ∨ p ∈ m := by
  induction l generalizing m with
  | nil => exact .inr h
  | cons q l ih =>
    rcases ih h with hp | hp
    · exact .inl (List.mem_cons_of_mem q hp)
    · rcases mem_insert hp with rfl | hp
      · exact .inl List.mem_cons_self
      · exact .inr hp

theorem mem_of_mem_ofList {p : String × α} (h : p ∈ ofList l) : p ∈ l := by
  simpa using mem_of_mem_foldl_insert h

/-- A key behind all others is added at the end. -/
theorem insert_of_forall_lt {k : String} (v : α) (h : ∀ p ∈ l, p.1 < k) :
    insert k v l = l ++ [(k, v)] := by
  induction l with
  | nil => rfl
  | cons q l ih =>
    have hq : q.1 < k := h q List.mem_cons_self
    have hlt : ¬k < q.1 := String.lt_asymm hq
    have hne : k ≠ q.1 := fun heq => String.lt_irrefl k (heq ▸ hq)
    simp [insert, hlt, hne, ih fun p hp => h p (List.mem_cons_of_mem q hp)]

theorem foldl_insert_of_sorted {m : List (String × α)} (h : Sorted (m ++ l)) :
    l.foldl (fun m (k, v) => insert k v m) m = m ++ l := by
  induction l generalizing m with
  | nil => simp
  | cons q l ih =>
    obtain ⟨k, v⟩ := q
    have hk : ∀ p ∈ m, p.1 < k := fun p hp =>
      (List.pairwise_append.1 h).2.2 p hp (k, v) List.mem_cons_self
    simp only [List.foldl_cons, insert_of_forall_lt v hk]
    rw [ih (by simpa using h), List.append_assoc, List.singleton_append]

/-- A list in order is built as it is. -/
theorem ofList_of_sorted (h : Sorted l) : ofList l = l :=
  foldl_insert_of_sorted (m := []) h

end Assoc

end Flowchart
