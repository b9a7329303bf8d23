/-
The parser reads exactly the phrases of the grammar. Every parser of a level is shown to be
sound (what it takes from the front of a token list is a phrase with the tree it returns)
and complete (it takes a phrase from the front whenever no operator follows that would
extend it); the two properties pass from the operands of a level to the level. Whatever else
it is given it reports as a fault of form (`parse_error`).
-/
import Flowchart.Proofs.Expression.Grammar

namespace Flowchart.Parse

open Grammar

variable {α : Type}

/-- What the parser takes is a phrase. -/
def Sound (p : Parser) (P : Phrases) : Prop :=
  ∀ ⦃ts e rest⦄, p ts = .ok (e, rest) → ∃ xs, ts = xs ++ rest.1 ∧ P (xs.map Token.lexeme) e

/-- The parser takes every phrase that is followed by the end or by a lexeme of `stop`. -/
def Complete (p : Parser) (P : Phrases) (stop : Lexeme → Prop) : Prop :=
  ∀ ⦃ts xs e rest⦄, P (xs.map Token.lexeme) e → ts = xs ++ rest →
    (∀ l ∈ (rest.map Token.lexeme).head?, stop l) → ∃ h, p ts = .ok (e, ⟨rest, h⟩)

/-- `op?` takes the lexemes that spell the operators of a level for them, and no others. -/
def Recognizes (op? : Lexeme → Option α) (ops : List α) (symbol : α → Symbol) : Prop :=
  ∀ l op, op? l = some op ↔ op ∈ ops ∧ l = .symbol (symbol op)

theorem recognizes_product : Recognizes productOp? productOps ArithOp.symbol := by
  intro l op
  constructor
  · intro h
    unfold productOp? at h
    split at h <;> cases h <;> exact ⟨by decide, rfl⟩
  · rintro ⟨h, rfl⟩
    cases op <;> first | rfl | cases (by decide : _ ∉ productOps) h

theorem recognizes_sum : Recognizes sumOp? sumOps ArithOp.symbol := by
  intro l op
  constructor
  · intro h
    unfold sumOp? at h
    split at h <;> cases h <;> exact ⟨by decide, rfl⟩
  · rintro ⟨h, rfl⟩
    cases op <;> first | rfl | cases (by decide : _ ∉ sumOps) h

theorem recognizes_compare : Recognizes compareOp? compareOps CompareOp.symbol := by
  intro l op
  constructor
  · intro h
    unfold compareOp? at h
    split at h <;> cases h <;> exact ⟨by decide, rfl⟩
  · rintro ⟨-, rfl⟩
    cases op <;> rfl

section
variable {operand : Parser} {op? : Lexeme → Option α} {limit : Option Nat} {ops : List α}
  {symbol : α → Symbol} {P : Phrases} {stop : Lexeme → Prop}

theorem operands_sound (hr : Recognizes op? ops symbol) (hs : Sound operand P) {bound done count ts h}
    {others : List (α × Expr)} {rest : { rest : List Token // rest.length ≤ bound }}
    (hc : ∀ n ∈ limit, count ≤ n)
    (heq : operands operand op? limit bound done count ts h = .ok (others, rest)) :
    ∃ xs tail, ts = xs ++ rest.1 ∧ others = done.reverse ++ tail ∧
      Tail ops symbol P (xs.map Token.lexeme) tail ∧ ∀ n ∈ limit, count + tail.length ≤ n := by
  fun_induction operands operand op? limit bound done count ts h with
  | case1 done count h => cases heq; exact ⟨[], [], rfl, by simp, .nil, by simpa using hc⟩
  | case2 done count t ts h hop => cases heq; exact ⟨[], [], rfl, by simp, .nil, by simpa using hc⟩
  | case3 => cases heq
  | case4 => cases heq
  | case5 done count t ts h op hop hlimit e rest' hrest hoperand _ ih =>
    have hc' : ∀ n ∈ limit, count + 1 ≤ n := by
      intro n hn
      by_contra hlt
      exact hlimit (by simp [Option.mem_def.1 hn]; omega)
    obtain ⟨xs, tail, rfl, rfl, htail, hcount⟩ := ih hc' heq
    obtain ⟨ys, hts, hP⟩ := hs hoperand
    obtain ⟨hmem, hlexeme⟩ := (hr _ _).1 hop
    refine ⟨t :: (ys ++ xs), (op, e) :: tail, by rw [hts]; simp, by simp, ?_, fun n hn => ?_⟩
    · rw [List.map_cons, List.map_append, hlexeme]
      exact .cons hmem hP htail
    · have := hcount n hn
      simp only [List.length_cons]
      omega

theorem operands_complete (hr : Recognizes op? ops symbol) (hp : Complete operand P stop)
    (hops : ∀ op ∈ ops, stop (.symbol (symbol op))) {ls tail} (ht : Tail ops symbol P ls tail)
    {ts xs rest : List Token} {bound count} (hx : xs.map Token.lexeme = ls) (hts : ts = xs ++ rest)
    (done : List (α × Expr)) (hb : ts.length ≤ bound)
    (hstop : ∀ l ∈ (rest.map Token.lexeme).head?, stop l ∧ NoOp ops symbol l)
    (hc : ∀ n ∈ limit, count + tail.length ≤ n) :
    ∃ h, operands operand op? limit bound done count ts hb = .ok (done.reverse ++ tail, ⟨rest, h⟩) := by
  induction ht generalizing ts xs done count with
  | nil =>
    obtain rfl := List.map_eq_nil_iff.1 hx
    subst hts
    cases ts with
    | nil => exact ⟨by simp, by simp [operands]⟩
    | cons t ts =>
      have hnone : op? t.lexeme = none := by
        cases hop : op? t.lexeme with
        | none => rfl
        | some op =>
          obtain ⟨hmem, hlexeme⟩ := (hr _ _).1 hop
          exact absurd hlexeme ((hstop t.lexeme rfl).2 op hmem)
      exact ⟨hb, by simp [operands, hnone]⟩
  | @cons op _ e _ tail hmem he ht ih =>
    obtain ⟨t, ys, rfl, hlexeme, hys⟩ := List.map_eq_cons_iff.1 hx
    obtain ⟨ys, zs, rfl, rfl, rfl⟩ := List.map_eq_append_iff.1 hys
    subst hts
    have hop : op? t.lexeme = some op := (hr _ _).2 ⟨hmem, hlexeme⟩
    have hcount : ∀ n ∈ limit, count + 1 + tail.length ≤ n := by
      intro n hn
      have := hc n hn
      simp only [List.length_cons] at this
      omega
    have hlimit : limit.any (· ≤ count) = false := by
      cases limit with
      | none => rfl
      | some n =>
        have := hcount n rfl
        simp
        omega
    have hnext : ∀ l ∈ ((zs ++ rest).map Token.lexeme).head?, stop l := by
      rw [List.map_append]
      exact ht.head_stop hops fun l hl => (hstop l hl).1
    have happend : ys ++ zs ++ rest = ys ++ (zs ++ rest) := List.append_assoc _ _ _
    obtain ⟨hlt, hoperand⟩ := hp he happend hnext
    have hbound : (zs ++ rest).length ≤ bound := by
      simp only [List.length_append, List.length_cons] at hb ⊢
      omega
    obtain ⟨h, hrest⟩ := ih rfl rfl ((op, e) :: done) hbound hcount
    refine ⟨h, ?_⟩
    simp only [List.cons_append]
    unfold operands
    simp only [hop, hlimit, hoperand]
    simpa using hrest

/-! ## Levels -/

theorem joined_eq {join : Expr → List (α × Expr) → Expr} (first : Expr) (rest : List (α × Expr)) :
    (if rest.isEmpty then first else join first rest) = joined join first rest := by
  cases rest <;> rfl

theorem level_sound {join} (hr : Recognizes op? ops symbol) (hlimit : ∀ n ∈ limit, 0 < n)
    (hs : Sound operand P) : Sound (level operand op? limit join) (Level ops symbol limit join P) := by
  intro ts e rest h
  unfold level at h
  split at h
  · cases h
  next first r hrest hfirst =>
  split at h
  · cases h
  next others r' hrest' hothers =>
  cases h
  obtain ⟨xs, hts, hP⟩ := hs hfirst
  obtain ⟨ys, tail, hrest'', rfl, htail, hcount⟩ := operands_sound hr hs hlimit hothers
  refine ⟨xs ++ ys, ?_, ?_⟩
  · calc
      ts = xs ++ r := hts
      _ = xs ++ (ys ++ r') := congrArg (xs ++ ·) hrest''
      _ = xs ++ ys ++ r' := (List.append_assoc _ _ _).symm
  · rw [joined_eq, List.map_append]
    exact .mk hP htail fun n hn => by have := hcount n hn; omega

theorem level_complete {join} (hr : Recognizes op? ops symbol)
    (hops : ∀ op ∈ ops, stop (.symbol (symbol op))) (hp : Complete operand P stop) :
    Complete (level operand op? limit join) (Level ops symbol limit join P)
      fun l => stop l ∧ NoOp ops symbol l := by
  intro ts xs e rest h hts hstop
  generalize hls : xs.map Token.lexeme = ls at h
  cases h with
  | @mk _ e _ tail he ht hl =>
    obtain ⟨xs, ys, rfl, rfl, rfl⟩ := List.map_eq_append_iff.1 hls
    subst hts
    have hnext : ∀ l ∈ ((ys ++ rest).map Token.lexeme).head?, stop l := by
      rw [List.map_append]
      exact ht.head_stop hops fun l hl => (hstop l hl).1
    obtain ⟨hlt, hfirst⟩ := hp he (List.append_assoc xs ys rest) hnext
    have hcount : ∀ n ∈ limit, 1 + tail.length ≤ n := fun n hn => by have := hl n hn; omega
    obtain ⟨hle, hothers⟩ := operands_complete hr hp hops ht rfl rfl [] (Nat.le_refl _) hstop hcount
    refine ⟨Nat.lt_of_le_of_lt hle hlt, ?_⟩
    unfold level
    simp only [hfirst, hothers, joined_eq, List.reverse_nil, List.nil_append]

end

theorem maxChain_pos : ∀ n ∈ some maxChain, 0 < n := by
  rintro n ⟨⟩
  decide

theorem comparison_sound {factor : Parser} {P : Phrases} (h : Sound factor P) :
    Sound (comparison factor) (Comparison (some maxChain) P) :=
  level_sound recognizes_compare (by simp)
    (level_sound recognizes_sum maxChain_pos (level_sound recognizes_product maxChain_pos h))

theorem comparison_complete {factor : Parser} {P : Phrases} (h : Complete factor P fun _ => True) :
    Complete (comparison factor) (Comparison (some maxChain) P) EndsComparison :=
  level_complete recognizes_compare (by decide)
    (level_complete recognizes_sum (by decide) (level_complete recognizes_product (fun _ _ => trivial) h))

/-! ## Factors -/

theorem sign?_eq_some_iff {l : Lexeme} {s : Sign} : sign? l = some s ↔ l = .symbol s.symbol := by
  constructor
  · intro h
    unfold sign? at h
    split at h <;> cases h <;> rfl
  · rintro rfl
    cases s <;> rfl

theorem factorWith_sound {length : Nat} {inner : Option Parser} {P : Phrases}
    (h : ∀ p ∈ inner, Sound p P) : Sound (factorWith length inner) (FactorOver (some maxChain) P) := by
  intro ts e rest heq
  cases ts with
  | nil => cases heq
  | cons t ts =>
  simp only [factorWith] at heq
  split at heq
  next d hd => cases heq; exact ⟨[t], rfl, by simp only [List.map, hd]; exact .number d⟩
  next x hx => cases heq; exact ⟨[t], rfl, by simp only [List.map, hx]; exact .name x⟩
  next hopening =>
    split at heq
    · cases heq
    next inner =>
    split at heq
    · cases heq
    · cases heq
    next e' t' rest' hlt hcomparison =>
    split at heq
    next hclosing =>
      cases heq
      obtain ⟨xs, hts, hP⟩ := comparison_sound (h inner rfl) hcomparison
      refine ⟨t :: (xs ++ [t']), ?_, ?_⟩
      · calc
          t :: ts = t :: (xs ++ t' :: rest') := congrArg (t :: ·) hts
          _ = t :: (xs ++ [t']) ++ rest' := by simp
      · simp only [List.map_cons, List.map_append, List.map_nil, hopening, hclosing]
        exact .bracketed hP
    next => cases heq
  next =>
    split at heq
    · cases heq
    next sign hsign =>
    split at heq
    · cases heq
    next inner =>
    split at heq
    · cases heq
    next e' rest' hlt hinner =>
    cases heq
    obtain ⟨xs, hts, hP⟩ := h inner rfl hinner
    refine ⟨t :: xs, congrArg (t :: ·) hts, ?_⟩
    rw [List.map_cons, sign?_eq_some_iff.1 hsign]
    exact .signed sign hP

/-- Every factor is read, if there is a parser for what stands behind a sign and in brackets
whenever something may. -/
theorem factorWith_complete {length : Nat} {inner : Option Parser} {P : Phrases}
    (h : ∀ {xs e}, P xs e → ∃ p ∈ inner, Complete p P fun _ => True) :
    Complete (factorWith length inner) (FactorOver (some maxChain) P) fun _ => True := by
  intro ts xs e rest hx hts _
  subst hts
  generalize hls : xs.map Token.lexeme = ls at hx
  cases hx with
  | number d =>
    obtain ⟨t, ys, rfl, hlexeme, hys⟩ := List.map_eq_cons_iff.1 hls
    obtain rfl := List.map_eq_nil_iff.1 hys
    exact ⟨by simp, by simp [factorWith, hlexeme]⟩
  | name x =>
    obtain ⟨t, ys, rfl, hlexeme, hys⟩ := List.map_eq_cons_iff.1 hls
    obtain rfl := List.map_eq_nil_iff.1 hys
    exact ⟨by simp, by simp [factorWith, hlexeme]⟩
  | signed s hx =>
    obtain ⟨p, rfl, hp⟩ := h hx
    obtain ⟨t, ys, rfl, hlexeme, rfl⟩ := List.map_eq_cons_iff.1 hls
    have happend : ys ++ rest = ys ++ rest := rfl
    obtain ⟨hlt, hinner⟩ := hp hx happend fun _ _ => trivial
    refine ⟨by rw [List.cons_append, List.length_cons]; omega, ?_⟩
    cases s <;> simp [factorWith, hlexeme, Sign.symbol, sign?, hinner]
  | bracketed hx =>
    obtain ⟨p, rfl, hp⟩ := have ⟨⟨⟨he, _, _⟩, _, _⟩, _, _⟩ := hx; h he
    obtain ⟨t, ys, rfl, hlexeme, hys⟩ := List.map_eq_cons_iff.1 hls
    obtain ⟨ys, zs, rfl, rfl, hzs⟩ := List.map_eq_append_iff.1 hys
    obtain ⟨t', zs, rfl, hclosing, hnil⟩ := List.map_eq_cons_iff.1 hzs
    obtain rfl := List.map_eq_nil_iff.1 hnil
    have hstop : ∀ l ∈ ((t' :: rest).map Token.lexeme).head?, EndsComparison l := by
      rintro l ⟨⟩
      rw [hclosing]
      decide
    have happend : ys ++ [t'] ++ rest = ys ++ t' :: rest := by simp
    obtain ⟨hlt, hcomparison⟩ := comparison_complete hp hx happend hstop
    refine ⟨by simp; omega, ?_⟩
    simp only [List.cons_append, factorWith, hlexeme, hcomparison, hclosing, if_true]

theorem factor_sound (length : Nat) : ∀ depth, Sound (factor length depth) (Factor (some maxChain) depth)
  | 0 => factorWith_sound (by simp)
  | depth + 1 => factorWith_sound (by rintro p ⟨⟩; exact factor_sound length depth)

theorem factor_complete (length : Nat) :
    ∀ depth, Complete (factor length depth) (Factor (some maxChain) depth) fun _ => True
  | 0 => factorWith_complete False.elim
  | depth + 1 => factorWith_complete fun _ => ⟨_, rfl, factor_complete length depth⟩

/-- The parser returns a tree exactly for the token lists that derive it within the limits. -/
theorem parse_eq_ok_iff {ts : List Token} {length : Nat} {e : Expr} :
    parse ts length = .ok e ↔ Derives (some maxChain) maxDepth (ts.map Token.lexeme) e := by
  constructor
  · intro h
    unfold parse at h
    split at h
    · cases h
    split at h
    · cases h
    next e' hlt heq =>
      cases h
      obtain ⟨xs, hts, hP⟩ := comparison_sound (factor_sound length maxDepth) heq
      obtain rfl : ts = xs := hts.trans (List.append_nil xs)
      exact hP
    · cases h
  · intro h
    have hne : ts ≠ [] := by
      rintro rfl
      exact (Derives.spaced _ _ h).1 rfl
    obtain ⟨hlt, heq⟩ := comparison_complete (factor_complete length maxDepth) h
      (List.append_nil ts).symm (by simp)
    unfold parse
    simp only [List.isEmpty_iff, hne, if_false, heq]

/-! ## What the parser reports -/

/-- A parser fails with faults of form only. -/
def Malformed (p : Parser) : Prop :=
  ∀ ⦃ts err⦄, p ts = .error err → ∃ position fault, err = .malformed position fault

theorem operands_malformed {operand : Parser} {op? : Lexeme → Option α} {limit : Option Nat}
    (hoperand : Malformed operand) {bound count : Nat} {done : List (α × Expr)} {ts : List Token}
    {h : ts.length ≤ bound} {err : EvalError}
    (heq : operands operand op? limit bound done count ts h = .error err) :
    ∃ position fault, err = .malformed position fault := by
  fun_induction operands operand op? limit bound done count ts h with
  | case1 => cases heq
  | case2 => cases heq
  | case3 =>
    cases heq
    exact ⟨_, _, rfl⟩
  | case4 _ _ _ _ _ _ _ _ err' hfails =>
    cases heq
    exact hoperand hfails
  | case5 _ _ _ _ _ _ _ _ _ _ _ _ _ ih => exact ih heq

theorem level_malformed {operand : Parser} {op? : Lexeme → Option α} {limit : Option Nat}
    {join : Expr → List (α × Expr) → Expr} (h : Malformed operand) :
    Malformed (level operand op? limit join) := by
  intro ts err heq
  unfold level at heq
  split at heq
  next hfirst =>
    cases heq
    exact h hfirst
  next =>
    split at heq
    next hothers =>
      cases heq
      exact operands_malformed h hothers
    next => cases heq

theorem comparison_malformed {factor : Parser} (h : Malformed factor) :
    Malformed (comparison factor) :=
  level_malformed (level_malformed (level_malformed h))

theorem factorWith_malformed {length : Nat} {inner : Option Parser}
    (h : ∀ p ∈ inner, Malformed p) : Malformed (factorWith length inner) := by
  intro ts err heq
  unfold factorWith at heq
  split at heq
  · cases heq
    exact ⟨_, _, rfl⟩
  split at heq
  · cases heq
  · cases heq
  · split at heq
    · cases heq
      exact ⟨_, _, rfl⟩
    split at heq
    next hinner =>
      cases heq
      exact comparison_malformed (h _ rfl) hinner
    next =>
      cases heq
      exact ⟨_, _, rfl⟩
    next =>
      split at heq
      · cases heq
      · cases heq
        exact ⟨_, _, rfl⟩
  · split at heq
    · cases heq
      exact ⟨_, _, rfl⟩
    split at heq
    · cases heq
      exact ⟨_, _, rfl⟩
    split at heq
    next hinner =>
      cases heq
      exact h _ rfl hinner
    next => cases heq

theorem factor_malformed (length : Nat) : ∀ depth, Malformed (factor length depth)
  | 0 => factorWith_malformed (by simp)
  | depth + 1 => factorWith_malformed (by rintro p ⟨⟩; exact factor_malformed length depth)

/-- Without tokens the text is empty; otherwise an error is a fault of form. -/
theorem parse_error {ts : List Token} {length : Nat} {err : EvalError}
    (h : parse ts length = .error err) :
    err = .empty ∨ ∃ position fault, err = .malformed position fault := by
  unfold parse at h
  split at h
  · cases h
    exact .inl rfl
  right
  split at h
  next hcomparison =>
    cases h
    exact comparison_malformed (factor_malformed length maxDepth) hcomparison
  next => cases h
  next =>
    cases h
    exact ⟨_, _, rfl⟩

end Flowchart.Parse
