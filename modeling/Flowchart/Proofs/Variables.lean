/-
Names of variables. A block may assign to a name exactly if an expression can refer to it: the text
of the name alone is then an expression, and its value is the value of the variable
(`assignable_names_are_referable`). No other text can stand for a variable, because an expression
looks up names and nothing else, and white space, brackets and operators are in no name.
-/
import Flowchart.Proofs.Construction
import Flowchart.Proofs.Environment
import Flowchart.Proofs.Expression.Leaves
import Flowchart.Proofs.Expression.Names

namespace Flowchart

open Words

theorem isVariableName_iff_isName {n : String} : isVariableName n = true ↔ IsName n.toList := by
  unfold isVariableName
  cases n.toList with
  | nil => simp [IsName]
  | cons c w => simp [IsName, Screen.isNameChar]

/-- A single operand is a phrase of its level. -/
theorem Grammar.Level.single {α : Type} {ops : List α} {symbol : α → Symbol} {limit : Option Nat} {join}
    {P : Phrases} {ts : List Lexeme} {e : Expr} (hl : ∀ n ∈ limit, 1 ≤ n) (h : P ts e) :
    Level ops symbol limit join P ts e := by
  have hlevel : Level ops symbol limit join P (ts ++ []) e := .mk h .nil hl
  rwa [List.append_nil] at hlevel

namespace Expression

open Screen

/-- Evaluating a text in one go succeeds if each of its steps does. -/
theorem evaluate_eq_ok_iff {source : String} {b : Bindings} {v : Value} :
    Flowchart.evaluate source b = .ok v ↔
      screen (normalizeChars source) = .ok () ∧
        requireBound b (Screen.names (normalizeChars source)) = .ok () ∧
        ∃ tree names, read (normalizeChars source) = .ok (tree, names) ∧ tree.eval b = .ok v := by
  simp [Flowchart.evaluate, bind_eq_ok_iff, Unique.exists_iff]

/-- Whatever a tree looks up is a name. -/
theorem isName_of_mem_leaves {cs : List Char} {tree : Expr} {names : List String}
    (hscreen : screen cs = .ok ()) (hread : read cs = .ok (tree, names)) {x : String}
    (hx : x ∈ tree.leaves) : IsName x.toList := by
  obtain ⟨ts, hts, hleaves, -⟩ := leaves_of_read hread
  obtain ⟨words, -, hspells⟩ := Token.lexes_of_tokenize hscreen hts
  rw [hleaves, Token.filterMap_name?, List.mem_filterMap] at hx
  obtain ⟨l, hl, hname⟩ := hx
  obtain ⟨w, -, hw⟩ := exists_of_mem_right hspells hl
  cases hw with
  | number => cases hname
  | name hw =>
    cases hname
    rwa [String.toList_ofList]
  | symbol => cases hname

/-- The text of a name is an expression, and its tree is the name. -/
theorem denotes_name {w : List Char} (h : IsName w) :
    Denotes (some Parse.maxChain) Parse.maxDepth w (.name (String.ofList w)) := by
  have hlexes : Lexes (w ++ []) [.name (String.ofList w)] := by
    refine ⟨[w], .cons (.name h) (fun v _ hv => ?_) .nil, .cons (.name h) .nil⟩
    simpa using hv.length_le
  rw [List.append_nil] at hlexes
  have hchain : ∀ n ∈ some Parse.maxChain, 1 ≤ n := by
    intro n hn
    cases hn
    decide
  have hfactor : Grammar.Factor (some Parse.maxChain) Parse.maxDepth [.name (String.ofList w)]
      (.name (String.ofList w)) := Grammar.FactorOver.name _
  exact ⟨_, hlexes, .single (by simp) (.single hchain (.single hchain hfactor))⟩

/-- No white space is taken out of a name. -/
theorem normalizeChars_of_isName {n : String} (h : IsName n.toList) : normalizeChars n = n.toList := by
  refine List.filter_eq_self.2 fun c hc => ?_
  have hchar := h.isNameChar c hc
  simp [isSpace, ne_of_isNameChar hchar (d := ' ') rfl, ne_of_isNameChar hchar (d := '\n') rfl,
    ne_of_isNameChar hchar (d := '\r') rfl, ne_of_isNameChar hchar (d := '\t') rfl]

/-- Evaluating the text of a name looks the name up. -/
theorem evaluate_name {n : String} (h : IsName n.toList) {b : Bindings} {v : Value} (hv : b n = some v) :
    Flowchart.evaluate n b = .ok v := by
  have hnormal := normalizeChars_of_isName h
  have hdenotes := denotes_name h
  rw [String.ofList_toList] at hdenotes
  have hscreen := hdenotes.screen
  obtain ⟨names, hread⟩ := (read_iff_denotes hscreen).2 hdenotes
  have hnames : Screen.names n.toList = [n] := by
    obtain ⟨ts, hts, hleaves, -⟩ := leaves_of_read hread
    rw [names_of_tokenize hscreen hts, ← hleaves]
    rfl
  rw [evaluate_eq_ok_iff, hnormal]
  refine ⟨hscreen, ?_, _, _, hread, ?_⟩
  · simp [hnames, requireBound, hv]
  · simp [Expr.eval, hv]

/-- A text that has the value of a variable, whatever the value is, is the name of the variable. -/
theorem isName_of_evaluate {n : String}
    (h : ∀ (b : Bindings) (v : Value), b n = some v → Flowchart.evaluate n b = .ok v) :
    IsName n.toList := by
  let b (t : Bool) : Bindings := fun x => if x = n then some (.bool t) else none
  have hb (t : Bool) : b t n = some (.bool t) := if_pos rfl
  obtain ⟨hscreen, -, tree, names, hread, htrue⟩ := evaluate_eq_ok_iff.1 (h (b true) _ (hb true))
  obtain ⟨-, -, tree', names', hread', hfalse⟩ := evaluate_eq_ok_iff.1 (h (b false) _ (hb false))
  cases hread.symm.trans hread'
  -- The value changes with the variable, so the tree looks it up.
  by_cases hn : n ∈ tree.leaves
  · exact isName_of_mem_leaves hscreen hread hn
  · have hsame : tree.eval (b true) = tree.eval (b false) := by
      refine Expr.eval_congr tree fun x hx => ?_
      have hne : x ≠ n := fun heq => hn (heq ▸ hx)
      simp [b, hne]
    cases htrue.symm.trans (hsame.trans hfalse)

end Expression

/-! ## Assignments -/

/-- A block that was constructed assigns to a name. -/
theorem isName_of_construct {d : BlockDescription} {block : Block} (h : Block.construct d = .ok block)
    {n : String} {type : ValueType} {e : Expression} {targets : List String}
    (hop : block.operation = .assign n type e targets) : IsName n.toList := by
  obtain ⟨-, hasks⟩ := Block.construct_eq_ok_iff.1 h
  rw [hop] at hasks
  cases hasks with
  | assign _ _ hname => exact isVariableName_iff_isName.1 (isVariableName_iff_pattern.2 hname)

/-- An assignment that makes no fault stores the value of its expression. -/
theorem get?_of_assigned {block : Block} {n : String} {type : ValueType} {e : Expression}
    {targets : List String} {env env' : Environment} {signal : Signal}
    (hop : block.operation = .assign n type e targets)
    (hsignal : block.signal env = (signal, env')) (hfault : ∀ f, signal ≠ .fault f) :
    ∃ v, e.evaluate env.get? = .ok v ∧ env'.get? n = some (v.coerce type) := by
  cases Block.signal_eq_iff.1 hsignal with
  | start | decided | undecided => cases hop
  | unevaluated | conflict => exact absurd rfl (hfault _)
  | assigned hv ha =>
    cases hop
    obtain ⟨-, -, rfl⟩ := Environment.assign_eq_ok_iff.1 ha
    exact ⟨_, hv, by rw [Environment.get?_insert, if_pos rfl]⟩

/-- **The names that blocks may assign to are the names that expressions can refer to.** A text may be
assigned to exactly if evaluating it gives the value of the variable with this text as its name,
whatever the bindings are. So once an assignment was made without a fault, the text of its name has
the value that was stored. -/
theorem assignable_names_are_referable :
    (∀ n, isVariableName n = true ↔ ∀ (b : Bindings) (v : Value), b n = some v → evaluate n b = .ok v) ∧
    (∀ d block n type e targets env signal env', Block.construct d = .ok block →
      block.operation = .assign n type e targets → block.signal env = (signal, env') →
      (∀ f, signal ≠ .fault f) →
      ∃ v, e.evaluate env.get? = .ok v ∧ env'.get? n = some (v.coerce type) ∧
        evaluate n env'.get? = .ok (v.coerce type)) := by
  refine ⟨fun n => ?_, ?_⟩
  · rw [isVariableName_iff_isName]
    exact ⟨fun h b v => Expression.evaluate_name h, Expression.isName_of_evaluate⟩
  · intro d block n type e targets env signal env' hconstruct hop hsignal hfault
    obtain ⟨v, hv, hstored⟩ := get?_of_assigned hop hsignal hfault
    have hname := isName_of_construct hconstruct hop
    exact ⟨v, hv, hstored, Expression.evaluate_name hname hstored⟩

/-- A variable is assigned its difference from itself, as a truth value: its name is false from then on.
The name with a blank in front of it does not refer to what is bound to this text. -/
theorem assignable_names_are_referable_underscored :
    let e : Expression := ⟨"_x - _x", .chain (.name "_x") [(.sub, .name "_x")], ["_x"]⟩
    let block : Block := ⟨"a", .assign "_x" .bool e ["b"]⟩
    let env := Environment.empty.insert "_x" (.bool true)
    Block.construct ⟨"a", .boolAssign, ["b"], .array [.string "_x", .string "_x - _x"]⟩ = .ok block ∧
      evaluate "_x" env.get? = .ok (.bool true) ∧
      evaluate "_x" (block.signal env).2.get? = .ok (.bool false) ∧
      ∃ (b : Bindings) (v : Value), b " _x" = some v ∧ evaluate " _x" b ≠ .ok v := by
  intro e block env
  obtain ⟨hiff, hassign⟩ := assignable_names_are_referable
  have hconstruct : Block.construct ⟨"a", .boolAssign, ["b"], .array [.string "_x", .string "_x - _x"]⟩ =
      .ok block := by decide +kernel
  have hvalue : e.evaluate env.get? = .ok (.decimal .zero) := by decide +kernel
  have hsignal : block.signal env = (.next "b", (block.signal env).2) := by
    have hnext : (block.signal env).1 = .next "b" := by decide +kernel
    rw [← hnext]
  obtain ⟨v, hv, -, hstored⟩ := hassign _ block _ _ _ _ env _ _ hconstruct rfl hsignal (fun _ => nofun)
  cases hvalue.symm.trans hv
  refine ⟨hconstruct, (hiff "_x").1 (by decide) _ _ (by decide), hstored, ?_⟩
  have hblank : ¬∀ (b : Bindings) (v : Value), b " _x" = some v → evaluate " _x" b = .ok v :=
    fun h => absurd ((hiff " _x").2 h) (by decide)
  push Not at hblank
  exact hblank

end Flowchart
