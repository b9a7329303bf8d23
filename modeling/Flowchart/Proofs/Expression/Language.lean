/-
Compiling accepts exactly the language of expressions and builds the one tree
of the text (`compile_accepts`). A text is in the language if its reading by
maximal munch derives a comparison of the grammar within the limits (`Denotes`).
-/
import Flowchart.Expression.Basic
import Flowchart.Proofs.Expression.Parsing
import Flowchart.Proofs.Expression.Tokenizing

namespace Flowchart.Expression

open Screen Words Grammar

/-- A text without white space is an expression with this tree, within the limits. -/
def Denotes (chain : Option Nat) (depth : Nat) (cs : List Char) (tree : Expr) : Prop :=
  ∃ lexemes, Lexes cs lexemes ∧ Derives chain depth lexemes tree

section Denotes

variable {chain chain' : Option Nat} {depth depth' : Nat} {cs : List Char} {tree tree' : Expr}

/-- A text has at most one tree, whatever the limits. -/
theorem Denotes.unique (h : Denotes chain depth cs tree) (h' : Denotes chain' depth' cs tree') :
    tree = tree' := by
  obtain ⟨lexemes, hlexes, hderives⟩ := h
  obtain ⟨lexemes', hlexes', hderives'⟩ := h'
  obtain rfl := hlexes.unique hlexes'
  exact hderives.unique hderives'

theorem Denotes.screen (h : Denotes chain depth cs tree) : screen cs = .ok () := by
  obtain ⟨lexemes, hlexes, hderives⟩ := h
  exact hlexes.screen (Derives.spaced _ _ hderives).2

end Denotes

/-! ## Reading a text -/

theorem read_eq_ok_iff {cs : List Char} {tree : Expr} {names : List String} :
    read cs = .ok (tree, names) ↔
      ∃ ts, Token.tokenize cs = .ok ts ∧ Parse.parse ts cs.length = .ok tree ∧
        names = (ts.filterMap Token.name?).eraseDups := by
  unfold read
  constructor
  · intro h
    split at h
    next => cases h
    next ts hts =>
      split at h
      next => cases h
      next hparse =>
        cases h
        exact ⟨ts, hts, hparse, rfl⟩
  · rintro ⟨ts, hts, hparse, rfl⟩
    rw [hts]
    simp only
    rw [hparse]

theorem compile_of_refused {source : String} {err : EvalError}
    (h : screen (normalizeChars source) = .error err) : compile source = .error err := by
  simp only [compile, h]
  rfl

theorem compile_of_screened {source : String} (h : screen (normalizeChars source) = .ok ()) :
    compile source =
      (read (normalizeChars source)).map fun (tree, names) => { source, tree, names } := by
  simp only [compile, h]
  cases read (normalizeChars source) <;> rfl

theorem compile_eq_ok_iff {source : String} {e : Expression} :
    compile source = .ok e ↔
      screen (normalizeChars source) = .ok () ∧ e.source = source ∧
        read (normalizeChars source) = .ok (e.tree, e.names) := by
  cases hscreen : screen (normalizeChars source) with
  | error err => simp [compile_of_refused hscreen]
  | ok =>
    rw [compile_of_screened hscreen]
    cases hread : read (normalizeChars source) with
    | error err => simp [Except.map]
    | ok p =>
      obtain ⟨tree, names⟩ := p
      obtain ⟨source', tree', names'⟩ := e
      simp [Except.map, eq_comm]

/-- A screened text is read exactly if it denotes a tree within the limits. -/
theorem read_iff_denotes {cs : List Char} {tree : Expr} (hscreen : screen cs = .ok ()) :
    (∃ names, read cs = .ok (tree, names)) ↔
      Denotes (some Parse.maxChain) Parse.maxDepth cs tree := by
  constructor
  · rintro ⟨names, h⟩
    obtain ⟨ts, hts, hparse, -⟩ := read_eq_ok_iff.1 h
    exact ⟨ts.map Token.lexeme, Token.lexes_of_tokenize hscreen hts, Parse.parse_eq_ok_iff.1 hparse⟩
  · rintro ⟨lexemes, hlexes, hderives⟩
    obtain ⟨ts, hts, rfl⟩ := Token.tokenize_of_lexes hlexes (Derives.spaced _ _ hderives).2
    exact ⟨_, read_eq_ok_iff.2 ⟨ts, hts, Parse.parse_eq_ok_iff.2 hderives, rfl⟩⟩

/-- **Compiling accepts exactly the language of expressions**, with at most 64 signs and
brackets around a lexeme and at most 2²⁰ operands in a sum or product, and builds the tree
of the text. No text has another tree, and the screen refuses none that has one. -/
theorem compile_accepts (source : String) (tree : Expr) :
    ((∃ e, compile source = .ok e ∧ e.tree = tree) ↔
      Denotes (some (2 ^ 20)) 64 (normalizeChars source) tree) ∧
    (∀ chain depth, Denotes chain depth (normalizeChars source) tree →
      screen (normalizeChars source) = .ok () ∧
      ∀ chain' depth' tree', Denotes chain' depth' (normalizeChars source) tree' → tree' = tree) := by
  refine ⟨⟨?_, fun h => ?_⟩, fun chain depth h => ⟨h.screen, fun _ _ _ h' => h'.unique h⟩⟩
  · rintro ⟨e, he, rfl⟩
    obtain ⟨hscreen, -, hread⟩ := compile_eq_ok_iff.1 he
    exact (read_iff_denotes hscreen).1 ⟨e.names, hread⟩
  · obtain ⟨names, hread⟩ := (read_iff_denotes h.screen).2 h
    exact ⟨{ source, tree, names }, compile_eq_ok_iff.2 ⟨h.screen, rfl, hread⟩, rfl⟩

/-- Brackets leave no node, and a sum keeps its operands in one list. -/
theorem compile_accepts_sum :
    let source := "-(a + 1) - b % c + 1 <= d"
    let tree : Expr :=
      .compare
        (.chain (.signed .minus (.chain (.name "a") [(.add, .number .one)]))
          [(.sub, .chain (.name "b") [(.mod, .name "c")]), (.add, .number .one)])
        [(.atMost, .name "d")]
    compile source = .ok ⟨source, tree, ["a", "b", "c", "d"]⟩ ∧
      Denotes (some (2 ^ 20)) 64 (normalizeChars source) tree := by
  intro source tree
  have hcompile : compile source = .ok ⟨source, tree, ["a", "b", "c", "d"]⟩ := by decide +kernel
  exact ⟨hcompile, (compile_accepts source tree).1.1 ⟨_, hcompile, rfl⟩⟩

end Flowchart.Expression
