/-
Association lists with string keys in increasing order. The order makes the
list canonical: two lists with the same bindings are equal.
-/
namespace Flowchart.Assoc

variable {α : Type}

/-- Binds `k` to `v`, in place of an earlier binding. -/
def insert (k : String) (v : α) : List (String × α) → List (String × α)
  | [] => [(k, v)]
  | (k', v') :: rest =>
    if k < k' then (k, v) :: (k', v') :: rest
    else if k = k' then (k, v) :: rest
    else (k', v') :: insert k v rest

/-- What `k` is bound to. -/
def get? (k : String) : List (String × α) → Option α
  | [] => none
  | (k', v) :: rest => if k = k' then some v else get? k rest

theorem get?_insert (j k : String) (v : α) (l : List (String × α)) :
    get? j (insert k v l) = if j = k then some v else get? j l := by
  induction l with
  | nil => rfl
  | cons p l ih =>
    obtain ⟨k', v'⟩ := p
    unfold insert
    split
    · rfl
    · split
      · next h => subst h; by_cases hj : j = k <;> simp [get?, hj]
      · next h =>
        by_cases hj : j = k'
        · subst hj; simp [get?, Ne.symm h]
        · simp [get?, hj, ih]

/-- Keys are in strictly increasing order. -/
def Sorted (l : List (String × α)) : Prop := l.Pairwise (·.1 < ·.1)

theorem mem_insert {k : String} {v : α} {l : List (String × α)} {p : String × α}
    (h : p ∈ insert k v l) : p = (k, v) ∨ p ∈ l := by
  induction l with
  | nil => simpa [insert] using h
  | cons q l ih =>
    obtain ⟨k', v'⟩ := q
    unfold insert at h
    split at h
    · simpa using h
    · split at h
      · rcases List.mem_cons.1 h with h | h
        · exact .inl h
        · exact .inr (List.mem_cons_of_mem _ h)
      · rcases List.mem_cons.1 h with h | h
        · exact .inr (h ▸ List.mem_cons_self)
        · rcases ih h with h | h
          · exact .inl h
          · exact .inr (List.mem_cons_of_mem _ h)

theorem sorted_nil : Sorted ([] : List (String × α)) := List.Pairwise.nil

theorem sorted_insert {l : List (String × α)} (k : String) (v : α) (h : Sorted l) :
    Sorted (insert k v l) := by
  induction l with
  | nil => simp [insert, Sorted]
  | cons q l ih =>
    obtain ⟨k', v'⟩ := q
    have hl : Sorted l := (List.pairwise_cons.1 h).2
    have hq := (List.pairwise_cons.1 h).1
    unfold insert
    split
    · rename_i hlt
      refine List.pairwise_cons.2 ⟨?_, h⟩
      intro p hp
      rcases List.mem_cons.1 hp with rfl | hp
      · exact hlt
      · exact String.lt_trans hlt (hq p hp)
    · split
      · rename_i heq
        subst heq
        exact List.pairwise_cons.2 ⟨hq, hl⟩
      · rename_i hnlt hne
        refine List.pairwise_cons.2 ⟨?_, ih hl⟩
        intro p hp
        rcases mem_insert hp with rfl | hp
        · exact Std.lt_of_le_of_ne (String.not_lt.1 hnlt) (Ne.symm hne)
        · exact hq p hp

/-- The last binding of each key wins. -/
def ofList (l : List (String × α)) : List (String × α) :=
  l.foldl (fun m (k, v) => insert k v m) []

theorem sorted_foldl_insert (l : List (String × α)) {m : List (String × α)} (h : Sorted m) :
    Sorted (l.foldl (fun m (k, v) => insert k v m) m) := by
  induction l generalizing m with
  | nil => exact h
  | cons p l ih => exact ih (sorted_insert p.1 p.2 h)

theorem sorted_ofList (l : List (String × α)) : Sorted (ofList l) :=
  sorted_foldl_insert l sorted_nil

end Flowchart.Assoc
