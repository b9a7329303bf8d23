/-
How a tree is evaluated. Operands are evaluated from left to right, and evaluation stops at the first
one that has no value; `eval_chain` and its companions say so with binds.

The flat lists of a tree are a way to store operators that nest. `Nested` is the language with two
operands to each operator and a conjunction that looks at its right side only if the left one is
true, and `nested` writes a tree in it: a chain as operators around operators, a comparison as the
conjunction of its pairs. The two trees have the same value or the same error (`eval_nested`).
-/
import Flowchart.Expression.Tree

namespace Flowchart

namespace Expr

/-- The operands of the outermost node, from left to right. -/
def operands : Expr → List Expr
  | number _ | name _ => []
  | signed _ e => [e]
  | chain e rest => e :: rest.map Prod.snd
  | compare e rest => e :: rest.map Prod.snd

/-- Induction over trees, with the hypothesis for every operand of a list. -/
@[elab_as_elim]
theorem induction {P : Expr → Prop} (number : ∀ d, P (.number d)) (name : ∀ x, P (.name x))
    (signed : ∀ s e, P e → P (.signed s e))
    (chain : ∀ e rest, P e → (∀ p ∈ rest, P p.2) → P (.chain e rest))
    (compare : ∀ e rest, P e → (∀ p ∈ rest, P p.2) → P (.compare e rest)) (e : Expr) : P e :=
  @Expr.rec P (fun rest => ∀ p ∈ rest, P p.2) (fun rest => ∀ p ∈ rest, P p.2) (fun p => P p.2)
    (fun p => P p.2) number name signed chain compare
    (List.forall_mem_nil _) (fun _ _ he hrest => List.forall_mem_cons.2 ⟨he, hrest⟩)
    (List.forall_mem_nil _) (fun _ _ he hrest => List.forall_mem_cons.2 ⟨he, hrest⟩)
    (fun _ _ he => he) (fun _ _ he => he) e

/-! ## Evaluation as binds -/

section
variable {b : Bindings}

theorem eval_signed (s : Sign) (e : Expr) :
    eval b (.signed s e) = (eval b e).bind fun v => .ok (.decimal (s.apply v.toDecimal)) := by
  rw [eval]
  cases eval b e <;> rfl

theorem eval_chain (e : Expr) (rest : List (ArithOp × Expr)) :
    eval b (.chain e rest) = (eval b e).bind fun v => evalChain b v.toDecimal rest := by
  rw [eval]
  cases eval b e <;> rfl

theorem eval_compare (e : Expr) (rest : List (CompareOp × Expr)) :
    eval b (.compare e rest) = (eval b e).bind fun v => evalCompare b v.toDecimal rest := by
  rw [eval]
  cases eval b e <;> rfl

theorem evalChain_cons (acc : Decimal) (op : ArithOp) (e : Expr) (rest : List (ArithOp × Expr)) :
    evalChain b acc ((op, e) :: rest) =
      (eval b e).bind fun v => (op.apply acc v.toDecimal).bind fun acc => evalChain b acc rest := by
  rw [evalChain]
  cases eval b e with
  | error err => rfl
  | ok v =>
    simp only [Except.bind]
    cases op.apply acc v.toDecimal <;> rfl

theorem evalCompare_cons (left : Decimal) (op : CompareOp) (e : Expr) (rest : List (CompareOp × Expr)) :
    evalCompare b left ((op, e) :: rest) = (eval b e).bind fun v =>
      if op.holds left v.toDecimal then evalCompare b v.toDecimal rest else .ok (.bool false) := by
  rw [evalCompare]
  cases eval b e <;> rfl

/-- A chain that is cut in two goes on from the result of its first part. -/
theorem evalChain_append (acc : Decimal) (r₁ r₂ : List (ArithOp × Expr)) :
    evalChain b acc (r₁ ++ r₂) = (evalChain b acc r₁).bind fun v => evalChain b v.toDecimal r₂ := by
  induction r₁ generalizing acc with
  | nil => simp only [List.nil_append, evalChain, Except.bind, Value.toDecimal]
  | cons p r₁ ih =>
    obtain ⟨op, e⟩ := p
    rw [List.cons_append, evalChain_cons, evalChain_cons]
    cases eval b e with
    | error err => rfl
    | ok v =>
      simp only [Except.bind]
      cases op.apply acc v.toDecimal with
      | error err => rfl
      | ok acc => exact ih acc

end

end Expr

/-! ## Nested operators -/

/-- Trees with two operands to each operator. -/
inductive Nested
  | number (value : Decimal)
  | name (text : String)
  | signed (sign : Sign) (operand : Nested)
  | binary (op : ArithOp) (left right : Nested)
  | pair (op : CompareOp) (left right : Nested)
  /-- Both must hold. The right one is not evaluated if the left one does not hold. -/
  | both (left right : Nested)

namespace Nested

/-- The value of a nested tree; the left operand is evaluated before the right one. -/
def eval (b : Bindings) : Nested → Except EvalError Value
  | number d => .ok (.decimal d)
  | name x =>
    match b x with
    | some v => .ok v
    | none => .error (.unknownName x)
  | signed s e => do
    let v ← eval b e
    return .decimal (s.apply v.toDecimal)
  | binary op l r => do
    let v ← eval b l
    let w ← eval b r
    (op.apply v.toDecimal w.toDecimal).map .decimal
  | pair op l r => do
    let v ← eval b l
    let w ← eval b r
    return .bool (op.holds v.toDecimal w.toDecimal)
  | both l r => do
    let v ← eval b l
    if v.toBool then eval b r else return .bool false

section
variable {b : Bindings}

theorem eval_binary (op : ArithOp) (l r : Nested) :
    (binary op l r).eval b = ((l.eval b).bind fun v => (r.eval b).bind fun w =>
      op.apply v.toDecimal w.toDecimal).map .decimal := by
  rw [eval]
  cases l.eval b with
  | error err => rfl
  | ok v => cases r.eval b <;> rfl

theorem eval_pair (op : CompareOp) (l r : Nested) :
    (pair op l r).eval b = (l.eval b).bind fun v => (r.eval b).bind fun w =>
      .ok (.bool (op.holds v.toDecimal w.toDecimal)) := by
  rw [eval]
  rfl

theorem eval_both (l r : Nested) :
    (both l r).eval b = (l.eval b).bind fun v => if v.toBool then r.eval b else .ok (.bool false) := by
  rw [eval]
  rfl

end

/-- `((first op₁ e₁) op₂ e₂) …`. Without an operator it is the operand, taken as a number. -/
def chained (first : Nested) : List (ArithOp × Nested) → Nested
  | [] => signed .plus first
  | (op, e) :: rest => rest.foldl (fun left p => binary p.1 left p.2) (binary op first e)

/-- `first c₁ e₁`, `e₁ c₂ e₂` and so on. -/
def pairs (first : Nested) : List (CompareOp × Nested) → List Nested
  | [] => []
  | (op, e) :: rest => pair op first e :: pairs e rest

/-- The conjunction of the pairs. Without a pair there is nothing to hold, but the operand is evaluated
all the same. -/
def compared (first : Nested) (rest : List (CompareOp × Nested)) : Nested :=
  match pairs first rest with
  | [] => pair .equal first first
  | p :: ps => ps.foldl both p

end Nested

namespace Expr

mutual

/-- The tree with nested operators in place of lists. -/
def nested : Expr → Nested
  | number d => .number d
  | name x => .name x
  | signed s e => .signed s (nested e)
  | chain e rest => .chained (nested e) (nestedChain rest)
  | compare e rest => .compared (nested e) (nestedCompare rest)

def nestedChain : List (ArithOp × Expr) → List (ArithOp × Nested)
  | [] => []
  | (op, e) :: rest => (op, nested e) :: nestedChain rest

def nestedCompare : List (CompareOp × Expr) → List (CompareOp × Nested)
  | [] => []
  | (op, e) :: rest => (op, nested e) :: nestedCompare rest

end

section
variable {b : Bindings}

/-! ### Chains -/

/-- Operators that nest to the left around a number are applied to it one after the other. -/
theorem eval_foldl_binary {rest : List (ArithOp × Expr)} (h : ∀ p ∈ rest, p.2.nested.eval b = p.2.eval b)
    {left : Nested} {r : Except EvalError Decimal} (hleft : left.eval b = r.map .decimal) :
    ((nestedChain rest).foldl (fun left p => .binary p.1 left p.2) left).eval b =
      r.bind fun acc => evalChain b acc rest := by
  induction rest generalizing left r with
  | nil =>
    rw [nestedChain, List.foldl_nil, hleft]
    cases r <;> simp [Except.map, Except.bind, evalChain]
  | cons p rest ih =>
    obtain ⟨op, e⟩ := p
    obtain ⟨he, hrest⟩ := List.forall_mem_cons.1 h
    rw [nestedChain, List.foldl_cons, ih hrest (Nested.eval_binary op left e.nested), hleft, he]
    cases r with
    | error err => rfl
    | ok acc =>
      simp only [Except.map, Except.bind, Value.toDecimal, evalChain_cons]
      cases e.eval b <;> rfl

theorem eval_chained {e : Expr} {rest : List (ArithOp × Expr)} (he : e.nested.eval b = e.eval b)
    (hrest : ∀ p ∈ rest, p.2.nested.eval b = p.2.eval b) :
    (Nested.chained e.nested (nestedChain rest)).eval b = eval b (.chain e rest) := by
  rw [eval_chain]
  cases rest with
  | nil =>
    simp only [nestedChain, Nested.chained, Nested.eval, he]
    cases e.eval b <;> simp [bind, Except.bind, pure, Except.pure, evalChain, Sign.apply]
  | cons p rest =>
    obtain ⟨op, e₁⟩ := p
    obtain ⟨he₁, hrest⟩ := List.forall_mem_cons.1 hrest
    rw [nestedChain, Nested.chained, eval_foldl_binary hrest (Nested.eval_binary op e.nested e₁.nested),
      he, he₁]
    cases e.eval b with
    | error err => rfl
    | ok v =>
      simp only [Except.bind, evalChain_cons]
      cases e₁.eval b <;> rfl

/-! ### Comparisons -/

/-- A conjunction is settled by an error or a falsehood on its left. -/
theorem eval_foldl_both {p : Nested} {r : Except EvalError Value} (hp : p.eval b = r)
    (hr : (∃ err, r = .error err) ∨ r = .ok (.bool false)) (ps : List Nested) :
    (ps.foldl .both p).eval b = r := by
  induction ps generalizing p with
  | nil => exact hp
  | cons q ps ih =>
    refine ih ?_
    rw [Nested.eval_both, hp]
    rcases hr with ⟨err, rfl⟩ | rfl <;> rfl

/-- The pairs are looked at from left to right, as far as they hold. The conjunction begins with `p`,
which says the same as the first pair. -/
theorem eval_foldl_pairs {rest : List (CompareOp × Expr)}
    (hrest : ∀ p ∈ rest, p.2.nested.eval b = p.2.eval b)
    {op : CompareOp} {e : Expr} (he : e.nested.eval b = e.eval b) {p left : Nested} {v : Value}
    (hleft : left.eval b = .ok v) (hp : p.eval b = (Nested.pair op left e.nested).eval b) :
    ((Nested.pairs e.nested (nestedCompare rest)).foldl .both p).eval b =
      evalCompare b v.toDecimal ((op, e) :: rest) := by
  induction rest generalizing op e p left v with
  | nil =>
    rw [Nested.eval_pair, hleft, he] at hp
    rw [nestedCompare, Nested.pairs, List.foldl_nil, hp, evalCompare_cons]
    cases e.eval b with
    | error err => rfl
    | ok w => cases hop : op.holds v.toDecimal w.toDecimal <;> simp [Except.bind, hop, evalCompare]
  | cons q rest ih =>
    obtain ⟨op', e'⟩ := q
    obtain ⟨he', hrest⟩ := List.forall_mem_cons.1 hrest
    rw [Nested.eval_pair, hleft] at hp
    rw [evalCompare_cons, ← he]
    cases hw : e.nested.eval b with
    | error err =>
      rw [hw] at hp
      exact eval_foldl_both hp (.inl ⟨err, rfl⟩) _
    | ok w =>
      rw [hw] at hp
      simp only [Except.bind] at hp ⊢
      cases hop : op.holds v.toDecimal w.toDecimal with
      | false =>
        rw [hop] at hp
        exact eval_foldl_both hp (.inr rfl) _
      | true =>
        rw [hop] at hp
        have hnext : (Nested.both p (.pair op' e.nested e'.nested)).eval b =
            (Nested.pair op' e.nested e'.nested).eval b := by
          rw [Nested.eval_both, hp]
          rfl
        exact ih hrest he' hw hnext

theorem eval_compared {e : Expr} {rest : List (CompareOp × Expr)} (he : e.nested.eval b = e.eval b)
    (hrest : ∀ p ∈ rest, p.2.nested.eval b = p.2.eval b) :
    (Nested.compared e.nested (nestedCompare rest)).eval b = eval b (.compare e rest) := by
  rw [eval_compare, ← he]
  cases rest with
  | nil =>
    simp only [nestedCompare, Nested.compared, Nested.pairs, Nested.eval]
    cases e.nested.eval b with
    | error err => rfl
    | ok v => simp [bind, Except.bind, pure, Except.pure, evalCompare, CompareOp.holds, Decimal.compare]
  | cons p rest =>
    obtain ⟨op, e₁⟩ := p
    obtain ⟨he₁, hrest⟩ := List.forall_mem_cons.1 hrest
    show ((Nested.pairs e₁.nested (nestedCompare rest)).foldl Nested.both
      (Nested.pair op e.nested e₁.nested)).eval b = _
    cases hv : e.nested.eval b with
    | error err =>
      have hpair : (Nested.pair op e.nested e₁.nested).eval b = .error err := by
        rw [Nested.eval_pair, hv]
        rfl
      exact eval_foldl_both hpair (.inl ⟨err, rfl⟩) _
    | ok v => exact eval_foldl_pairs hrest he₁ hv rfl

/-- A tree and its nested form have the same value, or the same error. -/
theorem eval_nested (e : Expr) : e.nested.eval b = e.eval b := by
  induction e using Expr.induction with
  | number d => simp only [nested, Nested.eval, eval]
  | name x => cases hx : b x <;> simp only [nested, Nested.eval, eval, hx]
  | signed s e ih =>
    rw [nested, Nested.eval, ih, eval_signed]
    rfl
  | chain e rest ihe ihrest =>
    rw [nested]
    exact eval_chained ihe ihrest
  | compare e rest ihe ihrest =>
    rw [nested]
    exact eval_compared ihe ihrest

/-- The operand between two comparisons belongs to both pairs. -/
example :
    nested (.compare (.name "x") [(.less, .name "y"), (.atMost, .name "z")]) =
      .both (.pair .less (.name "x") (.name "y")) (.pair .atMost (.name "y") (.name "z")) := rfl

/-! ## Errors of comparisons -/

/-- Both operands of the pair at place `i` have values, and the pair does not hold. -/
def FalsePair (b : Bindings) (first : Expr) (rest : List (CompareOp × Expr)) (i : Nat) : Prop :=
  ∃ l op r v w, (compare first rest).operands[i]? = some l ∧ rest[i]? = some (op, r) ∧
    eval b l = .ok v ∧ eval b r = .ok w ∧ op.holds v.toDecimal w.toDecimal = false

theorem falsePair_zero_iff {first e : Expr} {op : CompareOp} {rest : List (CompareOp × Expr)} {v w : Value}
    (hv : eval b first = .ok v) (hw : eval b e = .ok w) :
    FalsePair b first ((op, e) :: rest) 0 ↔ op.holds v.toDecimal w.toDecimal = false := by
  constructor
  · intro ⟨l, op', r, v', w', hl, hr, hv', hw', hop⟩
    cases hl
    cases hr
    cases hv.symm.trans hv'
    cases hw.symm.trans hw'
    exact hop
  · intro hop
    exact ⟨first, op, e, v, w, rfl, rfl, hv, hw, hop⟩

theorem falsePair_succ_iff {first e : Expr} {op : CompareOp} {rest : List (CompareOp × Expr)} {i : Nat} :
    FalsePair b first ((op, e) :: rest) (i + 1) ↔ FalsePair b e rest i := by
  simp [FalsePair, operands]

/-- A first pair that holds leaves the comparison that begins with its right operand. -/
theorem eval_compare_cons (first : Expr) (op : CompareOp) (e : Expr) (rest : List (CompareOp × Expr)) :
    eval b (.compare first ((op, e) :: rest)) = (eval b first).bind fun v => (eval b e).bind fun w =>
      if op.holds v.toDecimal w.toDecimal then eval b (.compare e rest) else .ok (.bool false) := by
  simp only [eval_compare, evalCompare_cons]
  cases eval b e <;> rfl

/-- A comparison errs exactly if some operand errs before the first pair that is false. -/
theorem eval_compare_errs_iff (first : Expr) (rest : List (CompareOp × Expr)) :
    (∃ err, eval b (.compare first rest) = .error err) ↔
      ∃ i e err, (compare first rest).operands[i]? = some e ∧ eval b e = .error err ∧
        ∀ j, j + 1 < i → ¬FalsePair b first rest j := by
  cases hv : eval b first with
  | error err =>
    constructor
    · intro _
      exact ⟨0, first, err, rfl, hv, fun j hj => by omega⟩
    · intro _
      exact ⟨err, by rw [eval_compare, hv]; rfl⟩
  | ok v =>
    induction rest generalizing first v with
    | nil =>
      constructor
      · intro ⟨err, h⟩
        simp [eval_compare, hv, Except.bind, evalCompare] at h
      · intro ⟨i, e, err, hi, he, _⟩
        cases i with
        | zero =>
          cases hi
          cases hv.symm.trans he
        | succ i => simp [operands] at hi
    | cons p rest ih =>
      obtain ⟨op, e⟩ := p
      rw [eval_compare_cons, hv]
      simp only [Except.bind]
      cases hw : eval b e with
      | error err => exact ⟨fun _ => ⟨1, e, err, rfl, hw, fun j hj => by omega⟩, fun _ => ⟨err, rfl⟩⟩
      | ok w =>
        constructor
        · intro ⟨err, h⟩
          simp only at h
          split at h
          next hop =>
            obtain ⟨i, e', err', hi, he', hfree⟩ := (ih e w hw).1 ⟨err, h⟩
            refine ⟨i + 1, e', err', hi, he', fun j hj => ?_⟩
            cases j with
            | zero => simp [falsePair_zero_iff hv hw, hop]
            | succ j =>
              rw [falsePair_succ_iff]
              exact hfree j (by omega)
          next => cases h
        · intro ⟨i, e', err', hi, he', hfree⟩
          match i, hi, hfree with
          | 0, hi, _ =>
            cases hi
            cases hv.symm.trans he'
          | 1, hi, _ =>
            cases hi
            cases hw.symm.trans he'
          | i + 2, hi, hfree =>
            have hop : op.holds v.toDecimal w.toDecimal = true := by
              simpa [falsePair_zero_iff hv hw] using hfree 0 (by omega)
            simp only [hop, if_true]
            refine (ih e w hw).2 ⟨i + 1, e', err', hi, he', fun j hj hfalse => ?_⟩
            exact hfree (j + 1) (by omega) (falsePair_succ_iff.2 hfalse)

/-- **Lists of operands mean nested operators.** A tree has the value or the error of its nested form; a
chain may be cut anywhere, its first part being the first operand of the second; and a
comparison errs exactly if some operand errs before the first pair that is false. -/
theorem lists_mean_nested_operators (b : Bindings) :
    (∀ e : Expr, e.eval b = e.nested.eval b) ∧
    (∀ first r₁ r₂, eval b (.chain first (r₁ ++ r₂)) = eval b (.chain (.chain first r₁) r₂)) ∧
    (∀ first rest, (∃ err, eval b (.compare first rest) = .error err) ↔
      ∃ i e err, (compare first rest).operands[i]? = some e ∧ eval b e = .error err ∧
        ∀ j, j + 1 < i → ¬FalsePair b first rest j) := by
  refine ⟨fun e => (eval_nested e).symm, fun first r₁ r₂ => ?_, eval_compare_errs_iff⟩
  rw [eval_chain, eval_chain, eval_chain]
  cases eval b first with
  | error err => rfl
  | ok v => exact evalChain_append v.toDecimal r₁ r₂

end

end Expr

end Flowchart
