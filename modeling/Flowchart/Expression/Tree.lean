/-
Expression trees. Operators of one precedence level share one flat list, so a
tree is no deeper than its brackets and signs, however long its chains are.
-/
import Flowchart.Decimal.Remainder
import Flowchart.Environment.Basic
import Flowchart.Expression.Error

namespace Flowchart

inductive Sign
  | plus
  | minus
deriving DecidableEq, Repr

inductive ArithOp
  | add | sub | mul | div | mod
deriving DecidableEq, Repr

inductive CompareOp
  | less | greater | atMost | atLeast | equal
deriving DecidableEq, Repr

inductive Expr
  | number (value : Decimal)
  | name (text : String)
  | signed (sign : Sign) (operand : Expr)
  /-- Operators applied from left to right, as in `a + b - c`. -/
  | chain (first : Expr) (rest : List (ArithOp × Expr))
  /-- Comparisons that must hold of each adjacent pair, as in `a < b <= c`. -/
  | compare (first : Expr) (rest : List (CompareOp × Expr))

namespace ArithOp

/-- The result of an operation, or why there is none. -/
def apply (op : ArithOp) (a b : Decimal) : Except EvalError Decimal :=
  let checked : Option Decimal → Except EvalError Decimal
    | some d => .ok d
    | none => .error .overflow
  match op with
  | add => checked (a.add b)
  | sub => checked (a.sub b)
  | mul => checked (a.mul b)
  | div => if b.isZero then .error .divisionByZero else checked (a.div b)
  | mod => if b.isZero then .error .divisionByZero else checked (a.floorMod b)

end ArithOp

/-- Whether the comparison holds, by value. -/
def CompareOp.holds (op : CompareOp) (a b : Decimal) : Bool :=
  match op with
  | less => a.compare b == .lt
  | greater => a.compare b == .gt
  | atMost => a.compare b != .gt
  | atLeast => a.compare b != .lt
  | equal => a.compare b == .eq

def Sign.apply : Sign → Decimal → Decimal
  | plus, d => d
  | minus, d => d.neg

namespace Expr

mutual

/-- The value of an expression. -/
def eval (b : Bindings) : Expr → Except EvalError Value
  | number d => .ok (.decimal d)
  | name x =>
    match b x with
    | some v => .ok v
    | none => .error (.unknownName x)
  | signed s e =>
    match eval b e with
    | .error err => .error err
    | .ok v => .ok (.decimal (s.apply v.toDecimal))
  | chain e rest =>
    match eval b e with
    | .error err => .error err
    | .ok v => evalChain b v.toDecimal rest
  | compare e rest =>
    match eval b e with
    | .error err => .error err
    | .ok v => evalCompare b v.toDecimal rest

/-- Applies the rest of a chain to the result so far; each operand is evaluated
before its operator is applied. -/
def evalChain (b : Bindings) (acc : Decimal) : List (ArithOp × Expr) → Except EvalError Value
  | [] => .ok (.decimal acc)
  | (op, e) :: rest =>
    match eval b e with
    | .error err => .error err
    | .ok v =>
      match op.apply acc v.toDecimal with
      | .error err => .error err
      | .ok acc => evalChain b acc rest

/-- Compares the operand on the left with the next one; operands after the first
pair that does not hold are not evaluated. -/
def evalCompare (b : Bindings) (left : Decimal) : List (CompareOp × Expr) → Except EvalError Value
  | [] => .ok (.bool true)
  | (op, e) :: rest =>
    match eval b e with
    | .error err => .error err
    | .ok v => if op.holds left v.toDecimal then evalCompare b v.toDecimal rest else .ok (.bool false)

end

/-! ## Equality -/

mutual

/-- Whether two trees are the same. -/
def beq : Expr → Expr → Bool
  | number a, number b => a = b
  | name x, name y => x = y
  | signed s e, signed t f => decide (s = t) && beq e f
  | chain e r, chain f q => beq e f && beqChain r q
  | compare e r, compare f q => beq e f && beqCompare r q
  | _, _ => false

def beqChain : List (ArithOp × Expr) → List (ArithOp × Expr) → Bool
  | [], [] => true
  | (o, e) :: r, (p, f) :: q => decide (o = p) && (beq e f && beqChain r q)
  | _, _ => false

def beqCompare : List (CompareOp × Expr) → List (CompareOp × Expr) → Bool
  | [], [] => true
  | (o, e) :: r, (p, f) :: q => decide (o = p) && (beq e f && beqCompare r q)
  | _, _ => false

end

mutual

theorem beq_iff : ∀ a b : Expr, beq a b = true ↔ a = b
  | number _, b => by cases b <;> simp [beq]
  | name _, b => by cases b <;> simp [beq]
  | signed _ e, b => by cases b <;> simp [beq, beq_iff e]
  | chain e r, b => by cases b <;> simp [beq, beq_iff e, beqChain_iff r]
  | compare e r, b => by cases b <;> simp [beq, beq_iff e, beqCompare_iff r]

theorem beqChain_iff : ∀ a b : List (ArithOp × Expr), beqChain a b = true ↔ a = b
  | [], b => by cases b <;> simp [beqChain]
  | (_, e) :: r, b => by
    cases b with
    | nil => simp [beqChain]
    | cons p q => obtain ⟨_, f⟩ := p; simp [beqChain, beq_iff e, beqChain_iff r, and_assoc]

theorem beqCompare_iff : ∀ a b : List (CompareOp × Expr), beqCompare a b = true ↔ a = b
  | [], b => by cases b <;> simp [beqCompare]
  | (_, e) :: r, b => by
    cases b with
    | nil => simp [beqCompare]
    | cons p q => obtain ⟨_, f⟩ := p; simp [beqCompare, beq_iff e, beqCompare_iff r, and_assoc]

end

instance : DecidableEq Expr := fun a b => decidable_of_iff (beq a b = true) (beq_iff a b)

end Expr

end Flowchart
