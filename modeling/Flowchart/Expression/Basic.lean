/-
Expressions: a text is screened, tokenised and parsed once (`compile`) and then
evaluated over any bindings, or all of it is done in one go (`evaluate`). Every
name in an expression must be bound before anything is computed, also one whose
value would not be needed.
-/
import Flowchart.Expression.Parse

namespace Flowchart

/-- A compiled expression: the text as written, its tree, and the names in it in
order of first appearance. -/
structure Expression where
  source : String
  tree : Expr
  names : List String
deriving DecidableEq

namespace Expression

/-- The first of the names that is not bound. -/
def requireBound (b : Bindings) (names : List String) : Except EvalError Unit :=
  match names.find? fun x => (b x).isNone with
  | some x => .error (.unknownName x)
  | none => .ok ()

/-- Reads a screened text: its tree and its names. -/
def read (cs : List Char) : Except EvalError (Expr × List String) :=
  match Token.tokenize cs with
  | .error e => .error e
  | .ok ts =>
    match Parse.parse ts cs.length with
    | .error e => .error e
    | .ok tree => .ok (tree, (ts.filterMap Token.name?).eraseDups)

/-- Does everything that does not depend on the bindings. -/
def compile (source : String) : Except EvalError Expression := do
  let cs := Screen.normalizeChars source
  Screen.screen cs
  let (tree, names) ← read cs
  return { source, tree, names }

/-- The value of a compiled expression. -/
def evaluate (e : Expression) (b : Bindings) : Except EvalError Value := do
  requireBound b e.names
  e.tree.eval b

end Expression

/-- The value of an expression text. -/
def evaluate (source : String) (b : Bindings) : Except EvalError Value := do
  let cs := Screen.normalizeChars source
  Screen.screen cs
  Expression.requireBound b (Screen.names cs)
  let (tree, _) ← Expression.read cs
  tree.eval b

end Flowchart
