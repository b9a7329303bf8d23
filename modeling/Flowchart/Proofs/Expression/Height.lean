/-
Trees that were compiled are shallow. A level of operators adds one node to the height of its
operands, a bracket at most the three levels inside it and a sign one node, so the limit on signs and
brackets limits the height, however long the text is (`compiled_tree_is_shallow`).

Evaluation opens an evaluation for each operand inside the one for its node. `evalWithin` evaluates
with a limit on how many are open at a time, and a limit of the height of the tree is enough.
-/
import Flowchart.Proofs.Expression.Evaluation
import Flowchart.Proofs.Expression.Language

namespace Flowchart

namespace Expr

/-! ## Height -/

mutual

/-- How many nodes there are on the longest way from the root to a leaf. -/
def height : Expr → Nat
  | number _ | name _ => 1
  | signed _ e => height e + 1
  | chain e rest => max (height e) (heightChain rest) + 1
  | compare e rest => max (height e) (heightCompare rest) + 1

def heightChain : List (ArithOp × Expr) → Nat
  | [] => 0
  | (_, e) :: rest => max (height e) (heightChain rest)

def heightCompare : List (CompareOp × Expr) → Nat
  | [] => 0
  | (_, e) :: rest => max (height e) (heightCompare rest)

end

theorem heightChain_le_iff {rest : List (ArithOp × Expr)} {n : Nat} :
    heightChain rest ≤ n ↔ ∀ o ∈ rest.map Prod.snd, o.height ≤ n := by
  induction rest with
  | nil => simp [heightChain]
  | cons p rest ih => simp only [heightChain, Nat.max_le, ih, List.map_cons, List.forall_mem_cons]

theorem heightCompare_le_iff {rest : List (CompareOp × Expr)} {n : Nat} :
    heightCompare rest ≤ n ↔ ∀ o ∈ rest.map Prod.snd, o.height ≤ n := by
  induction rest with
  | nil => simp [heightCompare]
  | cons p rest ih => simp only [heightCompare, Nat.max_le, ih, List.map_cons, List.forall_mem_cons]

/-- A node is one higher than its highest operand. -/
theorem height_le_succ_iff {e : Expr} {n : Nat} : e.height ≤ n + 1 ↔ ∀ o ∈ e.operands, o.height ≤ n := by
  cases e with
  | number d => simp [height, operands]
  | name x => simp [height, operands]
  | signed s e => simp [height, operands]
  | chain e rest => simp [height, operands, heightChain_le_iff]
  | compare e rest => simp [height, operands, heightCompare_le_iff]

theorem height_pos (e : Expr) : 0 < e.height := by
  cases e <;> simp [height]

/-! ## Parts of a tree -/

/-- The tree itself, or something inside one of its operands. -/
inductive PartOf (t : Expr) : Expr → Prop
  | self : PartOf t t
  | operand {o e} (ho : o ∈ e.operands) (h : PartOf t o) : PartOf t e

theorem forall_partOf_iff {Q : Expr → Prop} {e : Expr} :
    (∀ t, PartOf t e → Q t) ↔ Q e ∧ ∀ o ∈ e.operands, ∀ t, PartOf t o → Q t := by
  constructor
  · intro h
    exact ⟨h e .self, fun o ho t ht => h t (.operand ho ht)⟩
  · intro ⟨he, hoperands⟩ t ht
    cases ht with
    | self => exact he
    | operand ho ht => exact hoperands _ ho t ht

/-- A list of operators that belongs where it stands: it is not empty, a chain has at most `limit`
operands, and its operators are all of one level. -/
def Regular (limit : Nat) : Expr → Prop
  | chain _ rest => rest ≠ [] ∧ rest.length + 1 ≤ limit ∧
      ((∀ p ∈ rest, p.1 ∈ Grammar.sumOps) ∨ ∀ p ∈ rest, p.1 ∈ Grammar.productOps)
  | compare _ rest => rest ≠ []
  | number _ | name _ | signed .. => True

/-- The tree is at most `height` high, and all its lists are regular. -/
structure Shallow (limit height : Nat) (e : Expr) : Prop where
  low : e.height ≤ height
  regular : ∀ t, PartOf t e → t.Regular limit

section
variable {limit n m : Nat} {e : Expr}

theorem Shallow.mono (h : Shallow limit n e) (hnm : n ≤ m) : Shallow limit m e :=
  ⟨Nat.le_trans h.low hnm, h.regular⟩

/-- A regular node over shallow operands is shallow. -/
theorem Shallow.node (h : e.Regular limit) (hoperands : ∀ o ∈ e.operands, Shallow limit n o) :
    Shallow limit (n + 1) e :=
  ⟨height_le_succ_iff.2 fun o ho => (hoperands o ho).low,
    forall_partOf_iff.2 ⟨h, fun o ho => (hoperands o ho).regular⟩⟩

end

end Expr

/-! ## Phrases of the grammar -/

namespace Grammar

variable {α : Type} {limit n m : Nat}

/-- The trees of the phrases are shallow. -/
def ShallowTrees (limit height : Nat) (P : Phrases) : Prop :=
  ∀ ⦃ts e⦄, P ts e → e.Shallow limit height

theorem Tail.mem {ops : List α} {symbol : α → Symbol} {P : Phrases} {ts rest}
    (h : Tail ops symbol P ts rest) : ∀ p ∈ rest, p.1 ∈ ops ∧ ∃ xs, P xs p.2 := by
  induction h with
  | nil => simp
  | cons hop he _ ih => exact List.forall_mem_cons.2 ⟨⟨hop, _, he⟩, ih⟩

/-- A level adds one node, or none if it has a single operand. -/
theorem Level.shallowTrees {ops : List α} {symbol : α → Symbol} {bound : Option Nat}
    {join : Expr → List (α × Expr) → Expr} {P : Phrases}
    (hoperands : ∀ e rest, (join e rest).operands = e :: rest.map Prod.snd)
    (hregular : ∀ e rest, rest ≠ [] → (∀ p ∈ rest, p.1 ∈ ops) → (∀ k ∈ bound, rest.length + 1 ≤ k) →
      (join e rest).Regular limit)
    (hP : ShallowTrees limit n P) : ShallowTrees limit (n + 1) (Level ops symbol bound join P) := by
  intro _ _ h
  obtain @⟨xs, e, ts, rest, he, ht, hbound⟩ := h
  cases rest with
  | nil => exact (hP he).mono (Nat.le_succ n)
  | cons p rest =>
    refine .node (hregular e (p :: rest) (by simp) (fun q hq => (ht.mem q hq).1) hbound) fun o ho => ?_
    have hjoined : (joined join e (p :: rest)).operands = e :: (p :: rest).map Prod.snd := hoperands ..
    rw [hjoined, List.mem_cons, List.mem_map] at ho
    rcases ho with rfl | ⟨q, hq, rfl⟩
    · exact hP he
    · obtain ⟨-, ys, hq⟩ := ht.mem q hq
      exact hP hq

/-- There are three levels of operators. -/
theorem Comparison.shallowTrees {factor : Phrases} (h : ShallowTrees limit n factor) :
    ShallowTrees limit (n + 3) (Comparison (some limit) factor) := by
  have hproduct : ShallowTrees limit (n + 1) (Product (some limit) factor) :=
    Level.shallowTrees (fun _ _ => rfl) (fun e rest hne hops hlimit => ⟨hne, hlimit limit rfl, .inr hops⟩) h
  have hsum : ShallowTrees limit (n + 2) (Sum (some limit) factor) :=
    Level.shallowTrees (fun _ _ => rfl) (fun e rest hne hops hlimit => ⟨hne, hlimit limit rfl, .inl hops⟩)
      hproduct
  exact Level.shallowTrees (fun _ _ => rfl) (fun e rest hne _ _ => hne) hsum

/-- A sign adds one node, and brackets add none to the comparison inside. -/
theorem FactorOver.shallowTrees {inner : Phrases} (h : ShallowTrees limit n inner) (hnm : n + 1 ≤ m)
    (hcomparison : ShallowTrees limit m (Comparison (some limit) inner)) :
    ShallowTrees limit m (FactorOver (some limit) inner) := by
  intro ts e ht
  cases ht with
  | number d => exact .mono (.node trivial (List.forall_mem_nil _)) hnm
  | name x => exact .mono (.node trivial (List.forall_mem_nil _)) hnm
  | signed s ht => exact .mono (.node trivial (List.forall_mem_singleton.2 (h ht))) hnm
  | bracketed ht => exact hcomparison ht

theorem Level.elim {ops : List α} {symbol : α → Symbol} {bound : Option Nat} {join} {P : Phrases}
    (hP : ∀ ts e, ¬P ts e) : ∀ ts e, ¬Level ops symbol bound join P ts e := by
  intro ts e h
  cases h with
  | mk he => exact hP _ _ he

theorem Factor.shallowTrees (limit : Nat) :
    ∀ depth, ShallowTrees limit (3 * depth + 1) (Factor (some limit) depth)
  | 0 => by
    -- Nothing stands behind a sign or in brackets, so only leaves are left.
    have hnone : ShallowTrees limit 1 (Comparison (some limit) fun _ _ => False) := fun ts e ht =>
      absurd ht (Level.elim (Level.elim (Level.elim fun _ _ => id)) ts e)
    exact FactorOver.shallowTrees (n := 0) (fun _ _ h => h.elim) (Nat.le_refl 1) hnone
  | depth + 1 => by
    have hinner := Factor.shallowTrees limit depth
    exact FactorOver.shallowTrees hinner (by omega) (Comparison.shallowTrees hinner)

theorem Derives.shallowTrees (limit depth : Nat) :
    ShallowTrees limit (3 * (depth + 1) + 1) (Derives (some limit) depth) :=
  Comparison.shallowTrees (Factor.shallowTrees limit depth)

end Grammar

/-! ## Evaluation within a number of frames -/

namespace Expr

section
variable (ev : Expr → ExceptT EvalError Option Value)

/-- Applies the operators of a chain, where `ev` evaluates the operands. -/
def chainBy (acc : Decimal) : List (ArithOp × Expr) → ExceptT EvalError Option Value
  | [] => return .decimal acc
  | (op, e) :: rest => do
    let v ← ev e
    let acc ← ExceptT.mk (some (op.apply acc v.toDecimal))
    chainBy acc rest

/-- Compares neighbours as long as they compare, where `ev` evaluates the operands. -/
def compareBy (left : Decimal) : List (CompareOp × Expr) → ExceptT EvalError Option Value
  | [] => return .bool true
  | (op, e) :: rest => do
    let v ← ev e
    if op.holds left v.toDecimal then compareBy v.toDecimal rest else return .bool false

/-- The evaluation of one node, where `ev` evaluates the operands. -/
def evalBy (b : Bindings) : Expr → ExceptT EvalError Option Value
  | number d => return .decimal d
  | name x =>
    match b x with
    | some v => return v
    | none => throw (.unknownName x)
  | signed s e => do
    let v ← ev e
    return .decimal (s.apply v.toDecimal)
  | chain e rest => do
    let v ← ev e
    chainBy ev v.toDecimal rest
  | compare e rest => do
    let v ← ev e
    compareBy ev v.toDecimal rest

end

/-- Evaluates a tree with at most `frames` evaluations open at a time, each for an operand of the one
before it; `none` if that is not enough. -/
def evalWithin (b : Bindings) : (frames : Nat) → Expr → ExceptT EvalError Option Value
  | 0, _ => ExceptT.mk none
  | frames + 1, e => evalBy (evalWithin b frames) b e

/-- A computation that has an answer goes on to another that has one. -/
theorem bind_answered {α β : Type} {r : Except EvalError α} {f : α → ExceptT EvalError Option β}
    {g : α → Except EvalError β} (h : ∀ a, f a = ExceptT.mk (some (g a))) :
    (ExceptT.mk (some r) >>= f) = ExceptT.mk (some (r.bind g)) := by
  cases r with
  | error err => rfl
  | ok a => exact h a

section
variable {b : Bindings} {ev : Expr → ExceptT EvalError Option Value}

theorem chainBy_eq {rest : List (ArithOp × Expr)} (h : ∀ p ∈ rest, ev p.2 = ExceptT.mk (some (eval b p.2)))
    (acc : Decimal) : chainBy ev acc rest = ExceptT.mk (some (evalChain b acc rest)) := by
  induction rest generalizing acc with
  | nil =>
    rw [evalChain]
    rfl
  | cons p rest ih =>
    obtain ⟨op, e⟩ := p
    obtain ⟨he, hrest⟩ := List.forall_mem_cons.1 h
    rw [chainBy, he, evalChain_cons]
    exact bind_answered fun v => bind_answered fun acc => ih hrest acc

theorem compareBy_eq {rest : List (CompareOp × Expr)}
    (h : ∀ p ∈ rest, ev p.2 = ExceptT.mk (some (eval b p.2)))
    (left : Decimal) : compareBy ev left rest = ExceptT.mk (some (evalCompare b left rest)) := by
  induction rest generalizing left with
  | nil =>
    rw [evalCompare]
    rfl
  | cons p rest ih =>
    obtain ⟨op, e⟩ := p
    obtain ⟨he, hrest⟩ := List.forall_mem_cons.1 h
    rw [compareBy, he, evalCompare_cons]
    refine bind_answered fun v => ?_
    split
    · exact ih hrest v.toDecimal
    · rfl

/-- A node has its value if its operands have theirs. -/
theorem evalBy_eq {e : Expr} (h : ∀ o ∈ e.operands, ev o = ExceptT.mk (some (eval b o))) :
    evalBy ev b e = ExceptT.mk (some (eval b e)) := by
  cases e with
  | number d =>
    rw [eval]
    rfl
  | name x =>
    rw [eval, evalBy]
    cases b x <;> rfl
  | signed s e =>
    rw [eval_signed, evalBy, h e (by simp [operands])]
    exact bind_answered fun v => rfl
  | chain e rest =>
    obtain ⟨he, hrest⟩ := List.forall_mem_cons.1 h
    rw [eval_chain, evalBy, he]
    exact bind_answered fun v => chainBy_eq (List.forall_mem_map.1 hrest) v.toDecimal
  | compare e rest =>
    obtain ⟨he, hrest⟩ := List.forall_mem_cons.1 h
    rw [eval_compare, evalBy, he]
    exact bind_answered fun v => compareBy_eq (List.forall_mem_map.1 hrest) v.toDecimal

/-- A tree is evaluated within as many frames as it is high. -/
theorem evalWithin_of_height_le {e : Expr} {n : Nat} (h : e.height ≤ n) :
    evalWithin b n e = ExceptT.mk (some (eval b e)) := by
  induction n generalizing e with
  | zero =>
    have hpos := e.height_pos
    omega
  | succ n ih => exact evalBy_eq fun o ho => ih (height_le_succ_iff.1 h o ho)

end

end Expr

/-- **Trees that were compiled are shallow, however long the text is.** A tree is at most 196 nodes
high, three for each of the 65 levels of signs and brackets and one for a leaf. A chain has at least
two operands and no more than the limit, with operators of one level, and a comparison has at least
two operands. So evaluation never has more than 196 evaluations open inside one another, whatever
the bindings. -/
theorem Expression.compiled_tree_is_shallow {source : String} {e : Expression}
    (h : Expression.compile source = .ok e) :
    e.tree.height ≤ 3 * (Parse.maxDepth + 1) + 1 ∧ 3 * (Parse.maxDepth + 1) + 1 = 196 ∧
    (∀ first rest, Expr.PartOf (.chain first rest) e.tree →
      2 ≤ (Expr.chain first rest).operands.length ∧
      (Expr.chain first rest).operands.length ≤ Parse.maxChain ∧
      ((∀ p ∈ rest, p.1 ∈ [ArithOp.add, .sub]) ∨ ∀ p ∈ rest, p.1 ∈ [ArithOp.mul, .div, .mod])) ∧
    (∀ first rest, Expr.PartOf (.compare first rest) e.tree →
      2 ≤ (Expr.compare first rest).operands.length) ∧
    ∀ b, Expr.evalWithin b 196 e.tree = ExceptT.mk (some (e.tree.eval b)) := by
  obtain ⟨-, -, hread⟩ := compile_eq_ok_iff.1 h
  obtain ⟨ts, -, hparse, -⟩ := read_eq_ok_iff.1 hread
  have hshallow := Grammar.Derives.shallowTrees Parse.maxChain Parse.maxDepth
    (Parse.parse_eq_ok_iff.1 hparse)
  refine ⟨hshallow.low, rfl, fun first rest hpart => ?_, fun first rest hpart => ?_,
    fun b => Expr.evalWithin_of_height_le hshallow.low⟩
  · obtain ⟨hne, hlimit, hops⟩ := hshallow.regular _ hpart
    have hpos := List.length_pos_iff.2 hne
    simp only [Expr.operands, List.length_cons, List.length_map]
    exact ⟨by omega, hlimit, hops⟩
  · have hpos := List.length_pos_iff.2 (hshallow.regular _ hpart)
    simp only [Expr.operands, List.length_cons, List.length_map]
    omega

/-- All three levels inside a bracket and outside it, and a leaf: seven nodes, and six frames are not
enough. The innermost chain is as the theorem says. -/
theorem Expression.compiled_tree_is_shallow_bracketed :
    let source := "(a * b + c < d) * b + c < -d"
    let product : Expr := .chain (.name "a") [(.mul, .name "b")]
    let inner : Expr := .compare (.chain product [(.add, .name "c")]) [(.less, .name "d")]
    let tree : Expr := .compare (.chain (.chain inner [(.mul, .name "b")]) [(.add, .name "c")])
      [(.less, .signed .minus (.name "d"))]
    let b : Bindings := fun _ => some (.bool true)
    Expression.compile source = .ok ⟨source, tree, ["a", "b", "c", "d"]⟩ ∧ tree.height = 7 ∧
      Expr.PartOf product tree ∧ 2 ≤ product.operands.length ∧ product.operands.length ≤ Parse.maxChain ∧
      Expr.evalWithin b 6 tree = ExceptT.mk none ∧
      Expr.evalWithin b 196 tree = ExceptT.mk (some (tree.eval b)) := by
  intro source product inner tree b
  have hcompile : Expression.compile source = .ok ⟨source, tree, ["a", "b", "c", "d"]⟩ := by decide +kernel
  have hpart : Expr.PartOf product tree :=
    .operand (.head _) (.operand (.head _) (.operand (.head _) (.operand (.head _)
      (.operand (.head _) .self))))
  obtain ⟨-, -, hchain, -, heval⟩ := Expression.compiled_tree_is_shallow hcompile
  obtain ⟨htwo, hlimit, -⟩ := hchain _ _ hpart
  exact ⟨hcompile, by decide, hpart, htwo, hlimit, rfl, heval b⟩

end Flowchart
