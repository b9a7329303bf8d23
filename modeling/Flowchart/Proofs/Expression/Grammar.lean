/-
The language of expressions, as a grammar over lexemes that says which tree a list of them
has:

    comparison := sum (("<" | ">" | "<=" | ">=" | "==") sum)*
    sum        := product (("+" | "-") product)*
    product    := factor (("*" | "/" | "%") factor)*
    factor     := ("+" | "-") factor | NUMBER | NAME | "(" comparison ")"

The operands of one level are joined in one flat list, a single operand stands for itself,
and brackets leave no trace in the tree. Two limits may apply: `depth` signs and brackets
around any lexeme, and `chain` operands in a sum or a product.

No list of lexemes has two trees, whatever the limits (`Derives.unique`): an operand ends
where no operator of its own level or a tighter one follows.
-/
import Flowchart.Expression.Parse
import Mathlib.Data.List.Chain

namespace Flowchart

def Sign.symbol : Sign → Symbol
  | plus => .plus
  | minus => .minus

def ArithOp.symbol : ArithOp → Symbol
  | add => .plus
  | sub => .minus
  | mul => .times
  | div => .divide
  | mod => .modulo

def CompareOp.symbol : CompareOp → Symbol
  | less => .less
  | greater => .greater
  | atMost => .atMost
  | atLeast => .atLeast
  | equal => .equal

namespace Grammar

/-- Which lists of lexemes have which trees. -/
abbrev Phrases := List Lexeme → Expr → Prop

variable {α : Type}

/-- Operators of a level, each with the operand behind it. -/
inductive Tail (ops : List α) (symbol : α → Symbol) (operand : Phrases) :
    List Lexeme → List (α × Expr) → Prop
  | nil : Tail ops symbol operand [] []
  | cons {op xs e ts rest} (hop : op ∈ ops) (he : operand xs e)
      (h : Tail ops symbol operand ts rest) :
      Tail ops symbol operand (.symbol (symbol op) :: (xs ++ ts)) ((op, e) :: rest)

/-- The tree of joined operands. -/
def joined (join : Expr → List (α × Expr) → Expr) (first : Expr) : List (α × Expr) → Expr
  | [] => first
  | rest => join first rest

/-- One or more operands, at most `limit`, with the operators of a level between them. -/
inductive Level (ops : List α) (symbol : α → Symbol) (limit : Option Nat)
    (join : Expr → List (α × Expr) → Expr) (operand : Phrases) : Phrases
  | mk {xs e ts rest} (he : operand xs e) (ht : Tail ops symbol operand ts rest)
      (hl : ∀ n ∈ limit, rest.length + 1 ≤ n) :
      Level ops symbol limit join operand (xs ++ ts) (joined join e rest)

def productOps : List ArithOp := [.mul, .div, .mod]

def sumOps : List ArithOp := [.add, .sub]

def compareOps : List CompareOp := [.less, .greater, .atMost, .atLeast, .equal]

def Product (chain : Option Nat) (factor : Phrases) : Phrases :=
  Level productOps ArithOp.symbol chain .chain factor

def Sum (chain : Option Nat) (factor : Phrases) : Phrases :=
  Level sumOps ArithOp.symbol chain .chain (Product chain factor)

/-- Comparisons are as long as they like. -/
def Comparison (chain : Option Nat) (factor : Phrases) : Phrases :=
  Level compareOps CompareOp.symbol none .compare (Sum chain factor)

/-- Factors, the factors behind a sign and in brackets being `inner`. -/
inductive FactorOver (chain : Option Nat) (inner : Phrases) : Phrases
  | number (d : Decimal) : FactorOver chain inner [.number d] (.number d)
  | name (x : String) : FactorOver chain inner [.name x] (.name x)
  | signed {ts e} (s : Sign) (h : inner ts e) :
      FactorOver chain inner (.symbol s.symbol :: ts) (.signed s e)
  | bracketed {ts e} (h : Comparison chain inner ts e) :
      FactorOver chain inner (.symbol .opening :: (ts ++ [.symbol .closing])) e

/-- Factors with at most `depth` signs and brackets around any lexeme. -/
def Factor (chain : Option Nat) : (depth : Nat) → Phrases
  | 0 => FactorOver chain fun _ _ => False
  | depth + 1 => FactorOver chain (Factor chain depth)

/-- The lexemes are an expression with this tree, within the limits. -/
def Derives (chain : Option Nat) (depth : Nat) : Phrases := Comparison chain (Factor chain depth)

/-! ## Larger limits -/

theorem Tail.mono {ops : List α} {symbol : α → Symbol} {P Q : Phrases} (hPQ : ∀ {ts e}, P ts e → Q ts e)
    {ts rest} (h : Tail ops symbol P ts rest) : Tail ops symbol Q ts rest := by
  induction h with
  | nil => exact .nil
  | cons hop he _ ih => exact .cons hop (hPQ he) ih

theorem Level.mono {ops : List α} {symbol : α → Symbol} {limit limit' : Option Nat} {join} {P Q : Phrases}
    (hl : ∀ n ∈ limit', ∃ m ∈ limit, m ≤ n) (hPQ : ∀ {ts e}, P ts e → Q ts e) {ts e}
    (h : Level ops symbol limit join P ts e) : Level ops symbol limit' join Q ts e := by
  cases h with
  | mk he ht hlimit =>
    refine .mk (hPQ he) (ht.mono hPQ) fun n hn => ?_
    obtain ⟨m, hm, hmn⟩ := hl n hn
    exact (hlimit m hm).trans hmn

theorem Comparison.mono {chain chain' : Option Nat} {P Q : Phrases}
    (hl : ∀ n ∈ chain', ∃ m ∈ chain, m ≤ n) (hPQ : ∀ {ts e}, P ts e → Q ts e) {ts e}
    (h : Comparison chain P ts e) : Comparison chain' Q ts e :=
  Level.mono (by simp) (Level.mono hl (Level.mono hl hPQ)) h

theorem FactorOver.mono {chain chain' : Option Nat} {P Q : Phrases}
    (hl : ∀ n ∈ chain', ∃ m ∈ chain, m ≤ n) (hPQ : ∀ {ts e}, P ts e → Q ts e) {ts e}
    (h : FactorOver chain P ts e) : FactorOver chain' Q ts e := by
  cases h with
  | number d => exact .number d
  | name x => exact .name x
  | signed s h => exact .signed s (hPQ h)
  | bracketed h => exact .bracketed (h.mono hl hPQ)

theorem Factor.mono {chain chain' : Option Nat} (hl : ∀ n ∈ chain', ∃ m ∈ chain, m ≤ n)
    {depth depth' : Nat} (hd : depth ≤ depth') {ts e} (h : Factor chain depth ts e) :
    Factor chain' depth' ts e := by
  induction depth generalizing depth' ts e with
  | zero =>
    cases depth' with
    | zero => exact FactorOver.mono hl id h
    | succ depth' => exact FactorOver.mono hl False.elim h
  | succ depth ih =>
    obtain ⟨depth', rfl⟩ : ∃ n, depth' = n + 1 := ⟨depth' - 1, by omega⟩
    exact FactorOver.mono hl (ih (Nat.le_of_succ_le_succ hd)) h

/-- What derives within some limits derives within larger ones. -/
theorem Derives.mono {chain chain' : Option Nat} (hl : ∀ n ∈ chain', ∃ m ∈ chain, m ≤ n)
    {depth depth' : Nat} (hd : depth ≤ depth') {ts e} (h : Derives chain depth ts e) :
    Derives chain' depth' ts e :=
  Comparison.mono hl (Factor.mono hl hd) h

/-! ## One tree -/

/-- A list of lexemes begins with at most one phrase that is followed by the end or by a
lexeme of `stop`, and that phrase has one tree. -/
def Unique (P : Phrases) (stop : Lexeme → Prop) : Prop :=
  ∀ ⦃xs ys e e' r r'⦄, P xs e → P ys e' → xs ++ r = ys ++ r' → (∀ l ∈ r.head?, stop l) →
    (∀ l ∈ r'.head?, stop l) → xs = ys ∧ e = e'

/-- A lexeme that no operator of the level is spelled by. -/
def NoOp (ops : List α) (symbol : α → Symbol) (l : Lexeme) : Prop :=
  ∀ op ∈ ops, l ≠ .symbol (symbol op)

section
variable {ops : List α} {symbol : α → Symbol} {P : Phrases} {stop : Lexeme → Prop}

/-- Behind an operand comes an operator of the level, or what follows the level. -/
theorem Tail.head_stop (hops : ∀ op ∈ ops, stop (.symbol (symbol op))) {ts rest}
    (h : Tail ops symbol P ts rest) {r : List Lexeme} (hr : ∀ l ∈ r.head?, stop l) :
    ∀ l ∈ (ts ++ r).head?, stop l := by
  cases h with
  | nil => exact hr
  | cons hop _ _ =>
    intro l hl
    simp only [List.cons_append, List.head?_cons, Option.mem_def, Option.some.injEq] at hl
    subst hl
    exact hops _ hop

theorem Tail.unique (hP : Unique P stop) (hinj : Function.Injective symbol)
    (hops : ∀ op ∈ ops, stop (.symbol (symbol op))) {ts ts' rest rest'}
    (h : Tail ops symbol P ts rest) (h' : Tail ops symbol P ts' rest') {r r' : List Lexeme}
    (heq : ts ++ r = ts' ++ r') (hr : ∀ l ∈ r.head?, stop l ∧ NoOp ops symbol l)
    (hr' : ∀ l ∈ r'.head?, stop l ∧ NoOp ops symbol l) : ts = ts' ∧ rest = rest' := by
  induction h generalizing ts' rest' with
  | nil =>
    cases h' with
    | nil => exact ⟨rfl, rfl⟩
    | cons hop =>
      simp only [List.nil_append] at heq
      exact absurd rfl ((hr _ (by rw [heq]; rfl)).2 _ hop)
  | cons hop he ht ih =>
    cases h' with
    | nil =>
      simp only [List.nil_append] at heq
      exact absurd rfl ((hr' _ (by rw [← heq]; rfl)).2 _ hop)
    | cons hop' he' ht' =>
      simp only [List.cons_append, List.append_assoc, List.cons.injEq, Lexeme.symbol.injEq] at heq
      obtain ⟨hsymbol, heq⟩ := heq
      have hstop := ht.head_stop hops fun l hl => (hr l hl).1
      have hstop' := ht'.head_stop hops fun l hl => (hr' l hl).1
      obtain ⟨rfl, rfl⟩ := hP he he' heq hstop hstop'
      obtain ⟨rfl, rfl⟩ := ih ht' (List.append_cancel_left heq)
      rw [hinj hsymbol]
      exact ⟨rfl, rfl⟩

theorem Level.unique {limit : Option Nat} {join} (hP : Unique P stop)
    (hinj : Function.Injective symbol) (hops : ∀ op ∈ ops, stop (.symbol (symbol op))) :
    Unique (Level ops symbol limit join P) fun l => stop l ∧ NoOp ops symbol l := by
  rintro _ _ _ _ r r' ⟨he, ht, -⟩ ⟨he', ht', -⟩ heq hr hr'
  rw [List.append_assoc, List.append_assoc] at heq
  have hstop := ht.head_stop hops fun l hl => (hr l hl).1
  have hstop' := ht'.head_stop hops fun l hl => (hr' l hl).1
  obtain ⟨rfl, rfl⟩ := hP he he' heq hstop hstop'
  obtain ⟨rfl, rfl⟩ := ht.unique hP hinj hops ht' (List.append_cancel_left heq) hr hr'
  exact ⟨rfl, rfl⟩

end

theorem Sign.symbol_injective : Function.Injective Sign.symbol := by
  intro a b h
  cases a <;> cases b <;> first | rfl | cases h

theorem ArithOp.symbol_injective : Function.Injective ArithOp.symbol := by
  intro a b h
  cases a <;> cases b <;> first | rfl | cases h

theorem CompareOp.symbol_injective : Function.Injective CompareOp.symbol := by
  intro a b h
  cases a <;> cases b <;> first | rfl | cases h

/-- Lexemes that end a comparison, being no operator of any level. -/
def EndsComparison (l : Lexeme) : Prop :=
  ((True ∧ NoOp productOps ArithOp.symbol l) ∧ NoOp sumOps ArithOp.symbol l) ∧
    NoOp compareOps CompareOp.symbol l

instance [DecidableEq α] (ops : List α) (symbol : α → Symbol) (l : Lexeme) :
    Decidable (NoOp ops symbol l) :=
  inferInstanceAs (Decidable (∀ op ∈ ops, l ≠ .symbol (symbol op)))

instance (l : Lexeme) : Decidable (EndsComparison l) :=
  inferInstanceAs (Decidable (_ ∧ _))

theorem Comparison.unique {chain : Option Nat} {factor : Phrases} (h : Unique factor fun _ => True) :
    Unique (Comparison chain factor) EndsComparison :=
  Level.unique
    (Level.unique (Level.unique h ArithOp.symbol_injective fun _ _ => trivial)
      ArithOp.symbol_injective (by decide))
    CompareOp.symbol_injective (by decide)

theorem FactorOver.unique {chain : Option Nat} {inner : Phrases} (h : Unique inner fun _ => True) :
    Unique (FactorOver chain inner) fun _ => True := by
  intro xs ys e e' r r' hx hy heq _ _
  cases hx with
  | number d =>
    cases hy with
    | number d' => cases heq; exact ⟨rfl, rfl⟩
    | name | signed | bracketed => cases heq
  | name x =>
    cases hy with
    | name x' => cases heq; exact ⟨rfl, rfl⟩
    | number | signed | bracketed => cases heq
  | signed s hx =>
    cases hy with
    | signed s' hy =>
      simp only [List.cons_append, List.cons.injEq, Lexeme.symbol.injEq] at heq
      obtain ⟨hs, heq⟩ := heq
      obtain ⟨rfl, rfl⟩ := h hx hy heq (fun _ _ => trivial) fun _ _ => trivial
      rw [Sign.symbol_injective hs]
      exact ⟨rfl, rfl⟩
    | number | name => cases heq
    | bracketed => cases s <;> cases heq
  | bracketed hx =>
    cases hy with
    | bracketed hy =>
      simp only [List.cons_append, List.append_assoc, List.cons.injEq, true_and] at heq
      have hclosing : ∀ l ∈ (Lexeme.symbol .closing :: r).head?, EndsComparison l := by
        rintro l ⟨⟩
        decide
      have hclosing' : ∀ l ∈ (Lexeme.symbol .closing :: r').head?, EndsComparison l := by
        rintro l ⟨⟩
        decide
      obtain ⟨rfl, rfl⟩ := Comparison.unique h hx hy heq hclosing hclosing'
      exact ⟨rfl, rfl⟩
    | number | name => cases heq
    | signed s => cases s <;> cases heq

theorem Factor.unique (chain : Option Nat) : ∀ depth, Unique (Factor chain depth) fun _ => True
  | 0 => FactorOver.unique fun _ _ _ _ _ _ h => h.elim
  | depth + 1 => FactorOver.unique (Factor.unique chain depth)

/-- **A list of lexemes has at most one tree**, whatever the limits. -/
theorem Derives.unique {chain chain' : Option Nat} {depth depth' : Nat} {ts : List Lexeme} {e e' : Expr}
    (h : Derives chain depth ts e) (h' : Derives chain' depth' ts e') : e = e' := by
  have hmax : Derives none (max depth depth') ts e := h.mono (by simp) (Nat.le_max_left _ _)
  have hmax' : Derives none (max depth depth') ts e' := h'.mono (by simp) (Nat.le_max_right _ _)
  have heq : ts ++ [] = ts ++ [] := rfl
  exact (Comparison.unique (Factor.unique none _) hmax hmax' heq (by simp) (by simp)).2

/-! ## Neighbours -/

/-- An operand may end with this lexeme. -/
def endsOperand : Lexeme → Bool
  | .number _ | .name _ | .symbol .closing => true
  | .symbol _ => false

/-- An operand without a sign may begin with this lexeme. -/
def beginsOperand : Lexeme → Bool
  | .number _ | .name _ | .symbol .opening => true
  | .symbol _ => false

/-- Lexemes that may be neighbours: no operand directly follows another one. -/
def Apart (a b : Lexeme) : Prop := endsOperand a = true → beginsOperand b = false

/-- Phrases are not empty, and keep their operands apart. -/
def Spaced (P : Phrases) : Prop := ∀ ⦃ts e⦄, P ts e → ts ≠ [] ∧ ts.IsChain Apart

theorem Tail.isChain {ops : List α} {symbol : α → Symbol} {P : Phrases} (hP : Spaced P)
    (hops : ∀ op ∈ ops, endsOperand (.symbol (symbol op)) = false) {ts rest}
    (hbegin : ∀ op ∈ ops, beginsOperand (.symbol (symbol op)) = false)
    (h : Tail ops symbol P ts rest) :
    ts.IsChain Apart ∧ ∀ l ∈ ts.head?, beginsOperand l = false := by
  induction h with
  | nil => simp
  | @cons op xs e ts rest hop he _ ih =>
    refine ⟨List.isChain_cons.2 ⟨?_, List.isChain_append.2 ⟨(hP he).2, ih.1, ?_⟩⟩, ?_⟩
    · intro l _ hl
      rw [hops op hop] at hl
      cases hl
    · intro a _ b hb _
      exact ih.2 b hb
    · rintro l ⟨⟩
      exact hbegin op hop

theorem Level.spaced {ops : List α} {symbol : α → Symbol} {limit : Option Nat} {join} {P : Phrases}
    (hP : Spaced P) (hops : ∀ op ∈ ops, endsOperand (.symbol (symbol op)) = false)
    (hbegin : ∀ op ∈ ops, beginsOperand (.symbol (symbol op)) = false) :
    Spaced (Level ops symbol limit join P) := by
  rintro _ _ ⟨he, ht, -⟩
  obtain ⟨hne, hchain⟩ := hP he
  obtain ⟨htail, hhead⟩ := ht.isChain hP hops hbegin
  refine ⟨fun h => hne (List.append_eq_nil_iff.1 h).1, List.isChain_append.2 ⟨hchain, htail, ?_⟩⟩
  intro a _ b hb _
  exact hhead b hb

theorem Comparison.spaced {chain : Option Nat} {factor : Phrases} (h : Spaced factor) :
    Spaced (Comparison chain factor) :=
  Level.spaced (Level.spaced (Level.spaced h (by decide) (by decide)) (by decide) (by decide))
    (by decide) (by decide)

theorem FactorOver.spaced {chain : Option Nat} {inner : Phrases} (h : Spaced inner) :
    Spaced (FactorOver chain inner) := by
  intro ts e ht
  refine ⟨by cases ht <;> simp, ?_⟩
  cases ht with
  | number | name => simp
  | signed s ht =>
    refine List.isChain_cons.2 ⟨?_, (h ht).2⟩
    intro l _ hl
    cases s <;> cases hl
  | bracketed ht =>
    refine List.isChain_cons.2 ⟨?_, List.isChain_append.2 ⟨(Comparison.spaced h ht).2, by simp, ?_⟩⟩
    · intro l _ hl
      cases hl
    · rintro a _ b ⟨⟩ _
      rfl

theorem Factor.spaced (chain : Option Nat) : ∀ depth, Spaced (Factor chain depth)
  | 0 => FactorOver.spaced fun _ _ h => h.elim
  | depth + 1 => FactorOver.spaced (Factor.spaced chain depth)

theorem Derives.spaced (chain : Option Nat) (depth : Nat) : Spaced (Derives chain depth) :=
  Comparison.spaced (Factor.spaced chain depth)

end Grammar

end Flowchart
