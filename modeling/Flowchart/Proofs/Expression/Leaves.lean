/-
The names in an expression. The names that a compiled expression lists are the leaves of its tree
from left to right, each listed once (`names_of_compile`), and its value depends on nothing
else: bindings that agree on these names give it the same value, and the first of them that is
not bound is reported, also where the value would not need it
(`evaluate_sees_only_names`).
-/
import Flowchart.Proofs.Expression.Language

namespace Flowchart

namespace Expr

mutual

/-- The names in a tree, from left to right. -/
def leaves : Expr → List String
  | number _ => []
  | name x => [x]
  | signed _ e => leaves e
  | chain e rest => leaves e ++ leavesChain rest
  | compare e rest => leaves e ++ leavesCompare rest

def leavesChain : List (ArithOp × Expr) → List String
  | [] => []
  | (_, e) :: rest => leaves e ++ leavesChain rest

def leavesCompare : List (CompareOp × Expr) → List String
  | [] => []
  | (_, e) :: rest => leaves e ++ leavesCompare rest

end

theorem leavesChain_eq (rest : List (ArithOp × Expr)) : leavesChain rest = rest.flatMap (·.2.leaves) := by
  induction rest with
  | nil => rfl
  | cons p rest ih => rw [leavesChain, ih, List.flatMap_cons]

theorem leavesCompare_eq (rest : List (CompareOp × Expr)) :
    leavesCompare rest = rest.flatMap (·.2.leaves) := by
  induction rest with
  | nil => rfl
  | cons p rest ih => rw [leavesCompare, ih, List.flatMap_cons]

/-! ## Evaluation looks at the leaves -/

section
variable {b b' : Bindings}

mutual

/-- A tree has the same value over bindings that agree on its leaves. -/
theorem eval_congr : ∀ e : Expr, (∀ x ∈ e.leaves, b x = b' x) → eval b e = eval b' e
  | number _, _ => by simp only [eval]
  | name x, h => by simp only [eval, h x (by simp [leaves])]
  | signed _ e, h => by simp only [eval, eval_congr e h]
  | chain e rest, h => by
    have he := eval_congr e fun x hx => h x (by simp [leaves, hx])
    have hrest := fun acc => evalChain_congr rest acc fun x hx => h x (by simp [leaves, hx])
    simp only [eval, he, hrest]
  | compare e rest, h => by
    have he := eval_congr e fun x hx => h x (by simp [leaves, hx])
    have hrest := fun left => evalCompare_congr rest left fun x hx => h x (by simp [leaves, hx])
    simp only [eval, he, hrest]

theorem evalChain_congr : ∀ (rest : List (ArithOp × Expr)) (acc : Decimal),
    (∀ x ∈ leavesChain rest, b x = b' x) → evalChain b acc rest = evalChain b' acc rest
  | [], _, _ => by simp only [evalChain]
  | (_, e) :: rest, acc, h => by
    have he := eval_congr e fun x hx => h x (by simp [leavesChain, hx])
    have hrest := fun acc => evalChain_congr rest acc fun x hx => h x (by simp [leavesChain, hx])
    simp only [evalChain, he, hrest]

theorem evalCompare_congr : ∀ (rest : List (CompareOp × Expr)) (left : Decimal),
    (∀ x ∈ leavesCompare rest, b x = b' x) → evalCompare b left rest = evalCompare b' left rest
  | [], _, _ => by simp only [evalCompare]
  | (_, e) :: rest, left, h => by
    have he := eval_congr e fun x hx => h x (by simp [leavesCompare, hx])
    have hrest := fun left => evalCompare_congr rest left fun x hx => h x (by simp [leavesCompare, hx])
    simp only [evalCompare, he, hrest]

end

/-- Why a tree has no value: a leaf is not bound, or an operation has no result. -/
def Fails (b : Bindings) (leaves : List String) (err : EvalError) : Prop :=
  (∃ x ∈ leaves, b x = none ∧ err = .unknownName x) ∨ err = .divisionByZero ∨ err = .overflow

theorem Fails.mono {leaves leaves' : List String} {err : EvalError} (hsub : leaves ⊆ leaves')
    (h : Fails b leaves err) : Fails b leaves' err := by
  rcases h with ⟨x, hx, h⟩ | h
  · exact .inl ⟨x, hsub hx, h⟩
  · exact .inr h

theorem fails_of_apply {op : ArithOp} {c d : Decimal} {leaves : List String} {err : EvalError}
    (h : op.apply c d = .error err) : Fails b leaves err := by
  right
  unfold ArithOp.apply at h
  grind

mutual

theorem fails_of_eval : ∀ (e : Expr) {err : EvalError}, eval b e = .error err → Fails b e.leaves err
  | number _, err, h => by simp [eval] at h
  | name x, err, h => by
    simp only [eval] at h
    split at h
    next => cases h
    next hx =>
      cases h
      exact .inl ⟨x, by simp [leaves], hx, rfl⟩
  | signed _ e, err, h => by
    simp only [eval] at h
    split at h
    next he =>
      cases h
      exact fails_of_eval e he
    next => cases h
  | chain e rest, err, h => by
    simp only [eval] at h
    split at h
    next he =>
      cases h
      exact (fails_of_eval e he).mono (by simp [leaves])
    next => exact (fails_of_evalChain rest h).mono (by simp [leaves])
  | compare e rest, err, h => by
    simp only [eval] at h
    split at h
    next he =>
      cases h
      exact (fails_of_eval e he).mono (by simp [leaves])
    next => exact (fails_of_evalCompare rest h).mono (by simp [leaves])

theorem fails_of_evalChain : ∀ (rest : List (ArithOp × Expr)) {acc : Decimal} {err : EvalError},
    evalChain b acc rest = .error err → Fails b (leavesChain rest) err
  | [], _, err, h => by simp [evalChain] at h
  | (op, e) :: rest, acc, err, h => by
    simp only [evalChain] at h
    split at h
    next he =>
      cases h
      exact (fails_of_eval e he).mono (by simp [leavesChain])
    next =>
      split at h
      next happly =>
        cases h
        exact fails_of_apply happly
      next => exact (fails_of_evalChain rest h).mono (by simp [leavesChain])

theorem fails_of_evalCompare : ∀ (rest : List (CompareOp × Expr)) {left : Decimal} {err : EvalError},
    evalCompare b left rest = .error err → Fails b (leavesCompare rest) err
  | [], _, err, h => by simp [evalCompare] at h
  | (op, e) :: rest, left, err, h => by
    simp only [evalCompare] at h
    split at h
    next he =>
      cases h
      exact (fails_of_eval e he).mono (by simp [leavesCompare])
    next =>
      split at h
      next => exact (fails_of_evalCompare rest h).mono (by simp [leavesCompare])
      next => cases h

end

end

end Expr

/-! ## The leaves are the names among the lexemes -/

/-- The name that the lexeme is, if it is one. -/
def Lexeme.name? : Lexeme → Option String
  | name x => some x
  | number _ | symbol _ => none

@[simp] theorem Lexeme.filterMap_name?_symbol (s : Symbol) (ls : List Lexeme) :
    (symbol s :: ls).filterMap name? = ls.filterMap name? := List.filterMap_cons_none rfl

theorem Token.filterMap_name? (ts : List Token) :
    ts.filterMap Token.name? = (ts.map Token.lexeme).filterMap Lexeme.name? := by
  rw [List.filterMap_map]
  congr 1
  funext t
  obtain ⟨lexeme, position⟩ := t
  cases lexeme <;> rfl

namespace Grammar

variable {α : Type}

/-- The names of a phrase are the leaves of its tree. -/
def NamesLeaves (P : Phrases) : Prop := ∀ ⦃ts e⦄, P ts e → e.leaves = ts.filterMap Lexeme.name?

theorem Tail.namesLeaves {ops : List α} {symbol : α → Symbol} {P : Phrases} (hP : NamesLeaves P)
    {ts rest} (h : Tail ops symbol P ts rest) :
    rest.flatMap (·.2.leaves) = ts.filterMap Lexeme.name? := by
  induction h with
  | nil => rfl
  | cons _ he _ ih => simp [ih, hP he]

theorem Level.namesLeaves {ops : List α} {symbol : α → Symbol} {limit : Option Nat}
    {join : Expr → List (α × Expr) → Expr} {P : Phrases}
    (hjoin : ∀ e rest, (join e rest).leaves = e.leaves ++ rest.flatMap (·.2.leaves))
    (hP : NamesLeaves P) : NamesLeaves (Level ops symbol limit join P) := by
  rintro _ _ ⟨he, ht, -⟩
  rw [List.filterMap_append, ← hP he, ← ht.namesLeaves hP]
  unfold joined
  split
  next => simp
  next => exact hjoin ..

theorem Comparison.namesLeaves {chain : Option Nat} {factor : Phrases} (h : NamesLeaves factor) :
    NamesLeaves (Comparison chain factor) := by
  have hchain : ∀ e rest, (Expr.chain e rest).leaves = e.leaves ++ rest.flatMap (·.2.leaves) := by
    intro e rest
    rw [Expr.leaves, Expr.leavesChain_eq]
  have hcompare : ∀ e rest, (Expr.compare e rest).leaves = e.leaves ++ rest.flatMap (·.2.leaves) := by
    intro e rest
    rw [Expr.leaves, Expr.leavesCompare_eq]
  exact Level.namesLeaves hcompare (Level.namesLeaves hchain (Level.namesLeaves hchain h))

theorem FactorOver.namesLeaves {chain : Option Nat} {inner : Phrases} (h : NamesLeaves inner) :
    NamesLeaves (FactorOver chain inner) := by
  intro ts e ht
  cases ht with
  | number | name => rfl
  | signed s ht => simpa [Expr.leaves] using h ht
  | bracketed ht => simpa using Comparison.namesLeaves h ht

theorem Factor.namesLeaves (chain : Option Nat) : ∀ depth, NamesLeaves (Factor chain depth)
  | 0 => FactorOver.namesLeaves fun _ _ h => h.elim
  | depth + 1 => FactorOver.namesLeaves (Factor.namesLeaves chain depth)

theorem Derives.namesLeaves (chain : Option Nat) (depth : Nat) : NamesLeaves (Derives chain depth) :=
  Comparison.namesLeaves (Factor.namesLeaves chain depth)

end Grammar

namespace Expression

/-- The leaves of the tree that is read are the names among the tokens. -/
theorem leaves_of_read {cs : List Char} {tree : Expr} {names : List String}
    (h : read cs = .ok (tree, names)) :
    ∃ ts, Token.tokenize cs = .ok ts ∧ tree.leaves = ts.filterMap Token.name? ∧
      names = tree.leaves.eraseDups := by
  obtain ⟨ts, hts, hparse, rfl⟩ := read_eq_ok_iff.1 h
  have hleaves : tree.leaves = ts.filterMap Token.name? := by
    rw [Token.filterMap_name?]
    exact Grammar.Derives.namesLeaves _ _ (Parse.parse_eq_ok_iff.1 hparse)
  exact ⟨ts, hts, hleaves, by rw [hleaves]⟩

theorem names_of_compile {source : String} {e : Expression} (h : compile source = .ok e) :
    e.names = e.tree.leaves.eraseDups := by
  obtain ⟨-, -, hread⟩ := compile_eq_ok_iff.1 h
  obtain ⟨-, -, -, hnames⟩ := leaves_of_read hread
  exact hnames

/-! ## Evaluating a compiled expression -/

/-- The first name of the list that is not bound. -/
def FirstUnbound (b : Bindings) (names : List String) (x : String) : Prop :=
  ∃ before behind, names = before ++ x :: behind ∧ b x = none ∧ ∀ y ∈ before, (b y).isSome

theorem find?_unbound_iff {b : Bindings} {names : List String} {x : String} :
    names.find? (fun y => (b y).isNone) = some x ↔ FirstUnbound b names x := by
  rw [List.find?_eq_some_iff_append, FirstUnbound]
  constructor
  · rintro ⟨hx, before, behind, heq, hbefore⟩
    refine ⟨before, behind, heq, Option.isNone_iff_eq_none.1 hx, fun y hy => ?_⟩
    simpa using hbefore y hy
  · rintro ⟨before, behind, heq, hx, hbefore⟩
    refine ⟨Option.isNone_iff_eq_none.2 hx, before, behind, heq, fun y hy => ?_⟩
    simpa using hbefore y hy

theorem evaluate_of_unbound {e : Expression} {b : Bindings} {x : String}
    (h : FirstUnbound b e.names x) : e.evaluate b = .error (.unknownName x) := by
  simp only [evaluate, requireBound, find?_unbound_iff.2 h]
  rfl

theorem evaluate_of_bound {e : Expression} {b : Bindings} (h : ∀ x ∈ e.names, (b x).isSome) :
    e.evaluate b = e.tree.eval b := by
  have hnone : e.names.find? (fun y => (b y).isNone) = none := by
    rw [List.find?_eq_none]
    intro y hy
    simpa [Option.isSome_iff_ne_none] using h y hy
  simp only [evaluate, requireBound, hnone]
  rfl

/-- Names are bound, or there is a first one that is not. -/
theorem bound_or_unbound (b : Bindings) (names : List String) :
    (∀ x ∈ names, (b x).isSome) ∨ ∃ x, FirstUnbound b names x := by
  cases hfind : names.find? fun y => (b y).isNone with
  | some x => exact .inr ⟨x, find?_unbound_iff.1 hfind⟩
  | none =>
    left
    intro x hx
    have hbound := List.find?_eq_none.1 hfind x hx
    cases hb : b x with
    | none => simp [hb] at hbound
    | some v => rfl

/-- **An expression sees its own names and nothing else.** The names that it lists are the leaves
of its tree, from left to right and without later repetitions; bindings that agree on them give it
the same value or error; and an unknown name is reported exactly if it is the first one of
them that is not bound. -/
theorem evaluate_sees_only_names {source : String} {e : Expression} (h : compile source = .ok e) :
    e.names = e.tree.leaves.eraseDups ∧
    (∀ b b' : Bindings, (∀ x ∈ e.names, b x = b' x) → e.evaluate b = e.evaluate b') ∧
    (∀ (b : Bindings) (x : String),
      e.evaluate b = .error (.unknownName x) ↔ FirstUnbound b e.names x) := by
  have hnames := names_of_compile h
  have hmem : ∀ {x}, x ∈ e.names ↔ x ∈ e.tree.leaves := by
    intro x
    rw [hnames, List.mem_eraseDups]
  refine ⟨hnames, fun b b' hagree => ?_, fun b x => ⟨fun hx => ?_, evaluate_of_unbound⟩⟩
  · rcases bound_or_unbound b e.names with hbound | ⟨x, hunbound⟩
    · have hbound' : ∀ x ∈ e.names, (b' x).isSome := fun x hx => hagree x hx ▸ hbound x hx
      rw [evaluate_of_bound hbound, evaluate_of_bound hbound']
      exact Expr.eval_congr e.tree fun x hx => hagree x (hmem.2 hx)
    · rw [evaluate_of_unbound hunbound]
      obtain ⟨before, behind, heq, hx, hbefore⟩ := hunbound
      have hagree' : ∀ y ∈ before ++ x :: behind, b y = b' y := heq ▸ hagree
      refine (evaluate_of_unbound ⟨before, behind, heq, ?_, fun y hy => ?_⟩).symm
      · rw [← hagree' x (by simp), hx]
      · rw [← hagree' y (by simp [hy])]
        exact hbefore y hy
  · rcases bound_or_unbound b e.names with hbound | ⟨y, hunbound⟩
    · -- With every name bound, evaluation fails for want of a result only.
      rw [evaluate_of_bound hbound] at hx
      rcases Expr.fails_of_eval e.tree hx with ⟨y, hy, hnone, -⟩ | herr | herr
      · have hsome := hbound y (hmem.2 hy)
        rw [hnone] at hsome
        cases hsome
      · cases herr
      · cases herr
    · rw [evaluate_of_unbound hunbound] at hx
      cases hx
      exact hunbound

/-- The comparison does not hold already at its first pair, and still the name behind it must be
bound. -/
theorem evaluate_sees_only_names_skipped :
    let source := "0 > 1 > x"
    let tree : Expr := .compare (.number .zero) [(.greater, .number .one), (.greater, .name "x")]
    let e : Expression := ⟨source, tree, ["x"]⟩
    compile source = .ok e ∧ tree.eval (fun _ => none) = .ok (.bool false) ∧
      e.evaluate (fun _ => none) = .error (.unknownName "x") := by
  intro source tree e
  have hcompile : compile source = .ok e := by decide +kernel
  refine ⟨hcompile, by decide +kernel, ?_⟩
  exact ((evaluate_sees_only_names hcompile).2.2 _ _).2 ⟨[], [], rfl, rfl, nofun⟩

end Expression

end Flowchart
