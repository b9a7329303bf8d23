/-
From tokens to trees.

    comparison := sum (("<" | ">" | "<=" | ">=" | "==") sum)*
    sum        := product (("+" | "-") product)*
    product    := factor (("*" | "/" | "%") factor)*
    factor     := ("+" | "-") factor | NUMBER | NAME | "(" comparison ")"

Brackets and signs nest at most `maxDepth` deep and a sum or product has at most
`maxChain` operands. A parser returns the tokens it has not used, fewer than it
was given.
-/
import Flowchart.Expression.Token
import Flowchart.Expression.Tree

namespace Flowchart.Parse

/-- How deep brackets and signs may nest. -/
def maxDepth : Nat := 64

/-- How many operands a sum or a product may have. -/
def maxChain : Nat := Nat.pow 2 20

/-- Reads an expression from the front of a token list. -/
abbrev Parser :=
  (ts : List Token) → Except EvalError (Expr × { rest : List Token // rest.length < ts.length })

def sumOp? : Lexeme → Option ArithOp
  | .symbol .plus => some .add
  | .symbol .minus => some .sub
  | _ => none

def productOp? : Lexeme → Option ArithOp
  | .symbol .times => some .mul
  | .symbol .divide => some .div
  | .symbol .modulo => some .mod
  | _ => none

def compareOp? : Lexeme → Option CompareOp
  | .symbol .less => some .less
  | .symbol .greater => some .greater
  | .symbol .atMost => some .atMost
  | .symbol .atLeast => some .atLeast
  | .symbol .equal => some .equal
  | _ => none

def sign? : Lexeme → Option Sign
  | .symbol .plus => some .plus
  | .symbol .minus => some .minus
  | _ => none

/-- Reads operators and operands while there are any. `count` operands have been
read, the ones after the first being in `done`, in reverse. -/
def operands {α : Type} (operand : Parser) (op? : Lexeme → Option α) (limit : Option Nat)
    (bound : Nat) (done : List (α × Expr)) (count : Nat) (ts : List Token)
    (h : ts.length ≤ bound) :
    Except EvalError (List (α × Expr) × { rest : List Token // rest.length ≤ bound }) :=
  match ts with
  | [] => .ok (done.reverse, ⟨[], by simp⟩)
  | t :: rest =>
    match op? t.lexeme with
    | none => .ok (done.reverse, ⟨t :: rest, h⟩)
    | some op =>
      if limit.any (· ≤ count) then .error (.malformed t.position .chainTooLong)
      else
        match operand rest with
        | .error e => .error e
        | .ok (e, ⟨rest', hr⟩) =>
          operands operand op? limit bound ((op, e) :: done) (count + 1) rest'
            (by simp only [List.length_cons] at h; omega)
termination_by ts.length
decreasing_by simp only [List.length_cons]; omega

/-- A list of operands joined by the operators of one level. A single operand
stands for itself. -/
def level {α : Type} (operand : Parser) (op? : Lexeme → Option α) (limit : Option Nat)
    (join : Expr → List (α × Expr) → Expr) : Parser := fun ts =>
  match operand ts with
  | .error e => .error e
  | .ok (first, ⟨rest, hr⟩) =>
    match operands operand op? limit rest.length [] 1 rest (Nat.le_refl _) with
    | .error e => .error e
    | .ok (others, ⟨rest', hr'⟩) =>
      .ok (if others.isEmpty then first else join first others, ⟨rest', Nat.lt_of_le_of_lt hr' hr⟩)

def product (factor : Parser) : Parser := level factor productOp? (some maxChain) .chain

def sum (factor : Parser) : Parser := level (product factor) sumOp? (some maxChain) .chain

def comparison (factor : Parser) : Parser := level (sum factor) compareOp? none .compare

/-- Reads a factor. `inner` reads what stands behind a sign or in brackets;
`none` means that nothing may nest here any more. `length` is the length of the
text, where an early end is reported. -/
def factorWith (length : Nat) (inner : Option Parser) : Parser
  | [] => .error (.malformed length .unexpectedEnd)
  | t :: rest =>
    match t.lexeme with
    | .number d => .ok (.number d, ⟨rest, by simp⟩)
    | .name x => .ok (.name x, ⟨rest, by simp⟩)
    | .symbol .opening =>
      match inner with
      | none => .error (.malformed t.position .nestsTooDeeply)
      | some inner =>
        match comparison inner rest with
        | .error e => .error e
        | .ok (_, ⟨[], _⟩) => .error (.malformed length .unclosed)
        | .ok (e, ⟨t' :: rest', hr⟩) =>
          if t'.lexeme = .symbol .closing then
            .ok (e, ⟨rest', by simp only [List.length_cons] at hr ⊢; omega⟩)
          else .error (.malformed t'.position .expectedClosing)
    | lexeme =>
      match sign? lexeme with
      | none => .error (.malformed t.position .expectedOperand)
      | some sign =>
        match inner with
        | none => .error (.malformed t.position .nestsTooDeeply)
        | some inner =>
          match inner rest with
          | .error e => .error e
          | .ok (e, ⟨rest', hr⟩) =>
            .ok (.signed sign e, ⟨rest', by simp only [List.length_cons]; omega⟩)

/-- Reads a factor that may nest `depth` levels deep. -/
def factor (length : Nat) : (depth : Nat) → Parser
  | 0 => factorWith length none
  | depth + 1 => factorWith length (some (factor length depth))

/-- The tree of a whole token list; `length` is the length of the text. -/
def parse (ts : List Token) (length : Nat) : Except EvalError Expr :=
  if ts.isEmpty then .error .empty
  else
    match comparison (factor length maxDepth) ts with
    | .error e => .error e
    | .ok (e, ⟨[], _⟩) => .ok e
    | .ok (_, ⟨t :: _, _⟩) => .error (.malformed t.position .trailingInput)

end Flowchart.Parse
