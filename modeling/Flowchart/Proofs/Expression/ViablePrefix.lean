/-
Where the parser finds fault. What it cannot read it blames on the first token that cannot be
continued: the tokens before it begin an accepted list, and together with it they begin none. If
every token can be continued, the whole list begins an accepted one, and the end is blamed.

A parser that succeeds has looked at what it took and at the next token, and at nothing behind it
(`Reader.prefix_only`). So what fails at a token fails whatever follows that token, and a fault of
an operand is, at the same place, a fault of the level (`Blame.append`).
-/
import Flowchart.Proofs.Expression.Parsing

namespace Flowchart.Parse

open Grammar

variable {α : Type}

/-- The tokens begin a phrase. -/
def Begins (P : Phrases) (ts : List Token) : Prop := ∃ more e, P (ts.map Token.lexeme ++ more) e

/-- The parser fails on every list that begins with the tokens. -/
def Dead (p : Parser) (ts : List Token) : Prop := ∀ more, ∃ err, p (ts ++ more) = .error err

/-- An error blames the first token that cannot be continued, or the end at `length` if there is
none. The tokens that satisfy `begins` can be continued, those that satisfy `dead` cannot. -/
inductive Blame (length : Nat) (begins dead : List Token → Prop) (ts : List Token) : EvalError → Prop
  | token {before t after fault} (hts : ts = before ++ t :: after) (hbegins : begins before)
      (hdead : dead (before ++ [t])) : Blame length begins dead ts (.malformed t.position fault)
  | ending {fault} (hbegins : begins ts) : Blame length begins dead ts (.malformed length fault)

/-- The parser blames the first token that cannot be continued. -/
def Blames (length : Nat) (p : Parser) (P : Phrases) : Prop :=
  ∀ ⦃ts err⦄, p ts = .error err → Blame length (Begins P) (Dead p) ts err

/-- What is to blame for a part at the end is to blame for the whole. -/
theorem Blame.append {length : Nat} {begins begins' dead dead' : List Token → Prop}
    {ts : List Token} {err : EvalError} (h : Blame length begins dead ts err) (xs : List Token)
    (hbegins : ∀ ys, begins ys → begins' (xs ++ ys))
    (hdead : ∀ ys, ys <+: ts → ys ≠ [] → dead ys → dead' (xs ++ ys)) :
    Blame length begins' dead' (xs ++ ts) err := by
  cases h with
  | @token before t after _ hts hbefore hd =>
    have hwhole : xs ++ ts = xs ++ before ++ t :: after := by rw [hts, List.append_assoc]
    refine .token hwhole (hbegins before hbefore) ?_
    rw [List.append_assoc]
    refine hdead (before ++ [t]) ⟨after, ?_⟩ (by simp) hd
    rw [hts, List.append_assoc, List.singleton_append]
  | ending hts => exact .ending (hbegins ts hts)

/-- The parser stops only before the end or before a lexeme of `stop`. -/
def Stops (p : Parser) (stop : Lexeme → Prop) : Prop :=
  ∀ ⦃ts e rest⦄, p ts = .ok (e, rest) → ∀ l ∈ (rest.1.map Token.lexeme).head?, stop l

/-- The parser reads exactly the phrases that are followed by the end or by a lexeme of `stop`. -/
structure Reader (p : Parser) (P : Phrases) (stop : Lexeme → Prop) : Prop where
  sound : Sound p P
  complete : Complete p P stop
  stops : Stops p stop

/-- What stands behind the next token does not matter. -/
theorem Reader.prefix_only {p : Parser} {P : Phrases} {stop : Lexeme → Prop} (h : Reader p P stop)
    {ts : List Token} {e : Expr} {rest : { rest : List Token // rest.length < ts.length }}
    (hp : p ts = .ok (e, rest)) :
    ∃ xs, ts = xs ++ rest.1 ∧ P (xs.map Token.lexeme) e ∧
      ∀ rest' : List Token, rest'.head? = rest.1.head? → ∃ hlt, p (xs ++ rest') = .ok (e, ⟨rest', hlt⟩) := by
  obtain ⟨xs, hts, hP⟩ := h.sound hp
  refine ⟨xs, hts, hP, fun rest' hhead => h.complete hP rfl ?_⟩
  rw [List.head?_map, hhead, ← List.head?_map]
  exact h.stops hp

theorem head?_append_eq {ys ts : List Token} (h : ys <+: ts) (hne : ys ≠ []) (more : List Token) :
    (ys ++ more).head? = ts.head? := by
  obtain ⟨after, rfl⟩ := h
  rw [List.head?_append_of_ne_nil _ hne, List.head?_append_of_ne_nil _ hne]

/-! ## Levels -/

section
variable {operand : Parser} {op? : Lexeme → Option α} {limit : Option Nat} {ops : List α}
  {symbol : α → Symbol} {P : Phrases} {stop : Lexeme → Prop}

theorem operands_stops (hr : Recognizes op? ops symbol) (hs : Stops operand stop)
    {bound done count ts h} {others : List (α × Expr)}
    {rest : { rest : List Token // rest.length ≤ bound }}
    (hstop : ∀ l ∈ (ts.map Token.lexeme).head?, stop l)
    (heq : operands operand op? limit bound done count ts h = .ok (others, rest)) :
    ∀ l ∈ (rest.1.map Token.lexeme).head?, stop l ∧ NoOp ops symbol l := by
  fun_induction operands operand op? limit bound done count ts h with
  | case1 => cases heq; simp
  | case2 done count t ts h hop =>
    cases heq
    intro l hl
    refine ⟨hstop l hl, fun op hmem hlexeme => ?_⟩
    obtain rfl : t.lexeme = l := by simpa using hl
    rw [(hr _ op).2 ⟨hmem, hlexeme⟩] at hop
    cases hop
  | case3 => cases heq
  | case4 => cases heq
  | case5 done count t ts h op hop hlimit e rest' hrest hoperand _ ih => exact ih (hs hoperand) heq

theorem Reader.level {join} (h : Reader operand P stop) (hr : Recognizes op? ops symbol)
    (hlimit : ∀ n ∈ limit, 0 < n) (hops : ∀ op ∈ ops, stop (.symbol (symbol op))) :
    Reader (level operand op? limit join) (Level ops symbol limit join P)
      fun l => stop l ∧ NoOp ops symbol l := by
  refine ⟨level_sound hr hlimit h.sound, level_complete hr hops h.complete, ?_⟩
  intro ts e rest heq
  unfold Parse.level at heq
  split at heq
  · cases heq
  next first r hrest hfirst =>
  split at heq
  · cases heq
  next others r' hrest' hothers =>
  cases heq
  exact operands_stops hr h.stops (h.stops hfirst) hothers

/-- The tokens begin a tail of operators and operands, where `count` operands have come before. -/
def BeginsTail (ops : List α) (symbol : α → Symbol) (limit : Option Nat) (P : Phrases) (count : Nat)
    (ts : List Token) : Prop :=
  ∃ more tail, Tail ops symbol P (ts.map Token.lexeme ++ more) tail ∧ ∀ n ∈ limit, count + tail.length ≤ n

/-- No list that begins with the tokens is read as such a tail. -/
def DeadTail (operand : Parser) (op? : Lexeme → Option α) (limit : Option Nat) (count : Nat)
    (ts : List Token) : Prop :=
  ∀ more bound done h, ∃ err, operands operand op? limit bound done count (ts ++ more) h = .error err

theorem beginsTail_nil {count : Nat} (hc : ∀ n ∈ limit, count ≤ n) :
    BeginsTail ops symbol limit P count [] :=
  ⟨[], [], .nil, by simpa using hc⟩

/-- An operator and an operand that has begun. -/
theorem Begins.tail {count : Nat} (hr : Recognizes op? ops symbol) {t : Token} {op : α}
    (hop : op? t.lexeme = some op) (hc : ∀ n ∈ limit, count + 1 ≤ n) {ys : List Token}
    (h : Begins P ys) : BeginsTail ops symbol limit P count (t :: ys) := by
  obtain ⟨more, e, he⟩ := h
  obtain ⟨hmem, hlexeme⟩ := (hr _ _).1 hop
  refine ⟨more, [(op, e)], ?_, by simpa using hc⟩
  have htail : Tail ops symbol P (.symbol (symbol op) :: (ys.map Token.lexeme ++ more ++ [])) [(op, e)] :=
    .cons hmem he .nil
  simpa [hlexeme] using htail

/-- An operator, an operand, and a tail that has begun. -/
theorem BeginsTail.cons {count : Nat} (hr : Recognizes op? ops symbol) {t : Token} {op : α}
    (hop : op? t.lexeme = some op) {xs : List Token} {e : Expr} (hP : P (xs.map Token.lexeme) e)
    {ys : List Token} (h : BeginsTail ops symbol limit P (count + 1) ys) :
    BeginsTail ops symbol limit P count (t :: xs ++ ys) := by
  obtain ⟨more, tail, ht, hc⟩ := h
  obtain ⟨hmem, hlexeme⟩ := (hr _ _).1 hop
  refine ⟨more, (op, e) :: tail, ?_, fun n hn => ?_⟩
  · have htail : Tail ops symbol P
        (.symbol (symbol op) :: (xs.map Token.lexeme ++ (ys.map Token.lexeme ++ more))) ((op, e) :: tail) :=
      .cons hmem hP ht
    simpa [hlexeme] using htail
  · have := hc n hn
    simp only [List.length_cons]
    omega

theorem room_of_not_any {count : Nat} (h : ¬limit.any (· ≤ count) = true) : ∀ n ∈ limit, count + 1 ≤ n := by
  intro n hn
  by_contra hlt
  exact h (by simp [Option.mem_def.1 hn]; omega)

theorem operands_blames (h : Reader operand P stop) (hr : Recognizes op? ops symbol) {length : Nat}
    (hb : Blames length operand P) {bound done count ts hts} {err : EvalError}
    (hc : ∀ n ∈ limit, count ≤ n)
    (heq : operands operand op? limit bound done count ts hts = .error err) :
    Blame length (BeginsTail ops symbol limit P count) (DeadTail operand op? limit count) ts err := by
  fun_induction operands operand op? limit bound done count ts hts with
  | case1 => cases heq
  | case2 => cases heq
  | case3 done count t ts hts op hop hlimit =>
    cases heq
    refine .token rfl (beginsTail_nil hc) fun more bound done hle => ⟨.malformed t.position .chainTooLong, ?_⟩
    simp only [List.nil_append, List.cons_append]
    unfold operands
    simp only [hop, hlimit, if_true]
  | case4 done count t ts hts op hop hlimit err' hoperand =>
    cases heq
    have hc' := room_of_not_any hlimit
    refine (hb hoperand).append [t] (fun ys hys => hys.tail hr hop hc') fun ys _ _ hdead => ?_
    intro more bound done hle
    obtain ⟨err'', herr⟩ := hdead more
    refine ⟨err'', ?_⟩
    simp only [List.cons_append, List.nil_append]
    unfold operands
    simp only [hop, hlimit, herr]
    rfl
  | case5 done count t ts hts op hop hlimit e rest' hrest hoperand _ ih =>
    have hc' := room_of_not_any hlimit
    obtain ⟨xs, hxs, hP, hsame⟩ := h.prefix_only hoperand
    have hwhole : t :: ts = t :: xs ++ rest' := congrArg (t :: ·) hxs
    rw [hwhole]
    refine (ih hc' heq).append (t :: xs) (fun ys hys => hys.cons hr hop hP) fun ys hpre hne hdead => ?_
    intro more bound done hle
    -- The operand is read as before, since the token behind it is the same.
    obtain ⟨hlt, hread⟩ := hsame (ys ++ more) (head?_append_eq hpre hne more)
    have hbound : (ys ++ more).length ≤ bound := by
      simp only [List.length_append, List.length_cons] at hle ⊢
      omega
    obtain ⟨err', herr⟩ := hdead more bound ((op, e) :: done) hbound
    refine ⟨err', ?_⟩
    simp only [List.cons_append, List.append_assoc]
    unfold operands
    simp only [hop, hlimit, hread]
    exact herr

theorem level_blames {join} (h : Reader operand P stop) (hr : Recognizes op? ops symbol) {length : Nat}
    (hlimit : ∀ n ∈ limit, 0 < n) (hb : Blames length operand P) :
    Blames length (level operand op? limit join) (Level ops symbol limit join P) := by
  intro ts err heq
  unfold level at heq
  split at heq
  next hfirst =>
    cases heq
    refine (hb hfirst).append [] (fun ys hys => ?_) fun ys _ _ hdead more => ?_
    · obtain ⟨more, e, he⟩ := hys
      have hone : Level ops symbol limit join P (ys.map Token.lexeme ++ more ++ []) e :=
        .mk he .nil fun n hn => hlimit n hn
      exact ⟨more, e, by simpa using hone⟩
    · obtain ⟨err', herr⟩ := hdead more
      refine ⟨err', ?_⟩
      simp only [List.nil_append, level, herr]
  next first rest hrest hfirst =>
    split at heq
    next hothers =>
      cases heq
      obtain ⟨xs, hxs, hP, hsame⟩ := h.prefix_only hfirst
      rw [hxs]
      refine (operands_blames h hr hb hlimit hothers).append xs (fun ys hys => ?_)
        fun ys hpre hne hdead more => ?_
      · obtain ⟨more, tail, htail, hcount⟩ := hys
        have hall : Level ops symbol limit join P
            (xs.map Token.lexeme ++ (ys.map Token.lexeme ++ more)) (joined join first tail) :=
          .mk hP htail fun n hn => by have := hcount n hn; omega
        exact ⟨more, _, by simpa using hall⟩
      · obtain ⟨hlt, hread⟩ := hsame (ys ++ more) (head?_append_eq hpre hne more)
        obtain ⟨err', herr⟩ := hdead more _ [] (Nat.le_refl _)
        refine ⟨err', ?_⟩
        rw [List.append_assoc]
        unfold level
        simp only [hread]
        rw [herr]
    next => cases heq

end

/-! ## Comparisons and factors -/

section
variable {factor : Parser} {P : Phrases}

theorem reader_product (h : Reader factor P fun _ => True) :
    Reader (product factor) (Product (some maxChain) P) fun l => True ∧ NoOp productOps ArithOp.symbol l :=
  h.level recognizes_product maxChain_pos fun _ _ => trivial

theorem reader_sum (h : Reader factor P fun _ => True) :
    Reader (sum factor) (Sum (some maxChain) P)
      fun l => (True ∧ NoOp productOps ArithOp.symbol l) ∧ NoOp sumOps ArithOp.symbol l :=
  (reader_product h).level recognizes_sum maxChain_pos (by decide)

theorem reader_comparison (h : Reader factor P fun _ => True) :
    Reader (comparison factor) (Comparison (some maxChain) P) EndsComparison :=
  (reader_sum h).level recognizes_compare (by simp) (by decide)

theorem comparison_blames {length : Nat} (h : Reader factor P fun _ => True)
    (hb : Blames length factor P) : Blames length (comparison factor) (Comparison (some maxChain) P) :=
  level_blames (reader_sum h) recognizes_compare (by simp)
    (level_blames (reader_product h) recognizes_sum maxChain_pos
      (level_blames h recognizes_product maxChain_pos hb))

theorem begins_nil (chain : Option Nat) (P : Phrases) : Begins (FactorOver chain P) [] :=
  ⟨[.number .zero], _, .number .zero⟩

theorem begins_bracket {chain : Option Nat} {t : Token} (ht : t.lexeme = .symbol .opening)
    {ys : List Token} (h : Begins (Comparison chain P) ys) : Begins (FactorOver chain P) (t :: ys) := by
  obtain ⟨more, e, he⟩ := h
  have hclosed : FactorOver chain P
      (.symbol .opening :: ((ys.map Token.lexeme ++ more) ++ [.symbol .closing])) e := .bracketed he
  exact ⟨more ++ [.symbol .closing], e, by simpa [ht] using hclosed⟩

/-- A factor that fails does so at its first token, behind the sign, in the brackets, or where they
should be closed. -/
theorem factorWith_blames {length : Nat} {inner : Option Parser}
    (h : ∀ p ∈ inner, Reader p P (fun _ => True) ∧ Blames length p P) :
    Blames length (factorWith length inner) (FactorOver (some maxChain) P) := by
  intro ts err heq
  cases ts with
  | nil => cases heq; exact .ending (begins_nil _ _)
  | cons t ts =>
  simp only [factorWith] at heq
  split at heq
  · cases heq
  · cases heq
  next hopening =>
    split at heq
    next =>
      cases heq
      refine .token rfl (begins_nil _ _) fun more => ⟨.malformed t.position .nestsTooDeeply, ?_⟩
      simp only [List.nil_append, List.cons_append, factorWith, hopening]
    next inner =>
    obtain ⟨hread, hb⟩ := h inner rfl
    split at heq
    next hfails =>
      cases heq
      refine (comparison_blames hread hb hfails).append [t] (fun ys => begins_bracket hopening)
        fun ys _ _ hdead more => ?_
      obtain ⟨err', herr⟩ := hdead more
      refine ⟨err', ?_⟩
      simp only [List.cons_append, List.nil_append, factorWith, hopening, herr]
    next e hlt hcomparison =>
      cases heq
      obtain ⟨xs, hxs, hP⟩ := (reader_comparison hread).sound hcomparison
      obtain rfl : ts = xs := hxs.trans (List.append_nil xs)
      exact .ending (begins_bracket hopening ⟨[], e, by simpa using hP⟩)
    next e t' rest' hlt hcomparison =>
      split at heq
      · cases heq
      next hclosing =>
      cases heq
      obtain ⟨xs, hxs, hP, hsame⟩ := (reader_comparison hread).prefix_only hcomparison
      have hwhole : t :: ts = t :: xs ++ t' :: rest' := congrArg (t :: ·) hxs
      refine .token hwhole (begins_bracket hopening ⟨[], e, by simpa using hP⟩) fun more => ?_
      obtain ⟨hlt', hagain⟩ := hsame (t' :: more) rfl
      refine ⟨.malformed t'.position .expectedClosing, ?_⟩
      rw [List.append_assoc, List.cons_append, List.singleton_append]
      simp only [factorWith, hopening, hagain, hclosing, if_false]
  next lexeme hnumber hname hopening =>
    split at heq
    next hsign =>
      cases heq
      refine .token rfl (begins_nil _ _) fun more => ⟨.malformed t.position .expectedOperand, ?_⟩
      simp only [List.nil_append, List.cons_append, factorWith]
      split <;> simp_all
    next sign hsign =>
    have hlexeme := sign?_eq_some_iff.1 hsign
    split at heq
    next =>
      cases heq
      refine .token rfl (begins_nil _ _) fun more => ⟨.malformed t.position .nestsTooDeeply, ?_⟩
      cases sign <;> simp [factorWith, hlexeme, Sign.symbol, sign?]
    next inner =>
    obtain ⟨-, hb⟩ := h inner rfl
    split at heq
    next hfails =>
      cases heq
      refine (hb hfails).append [t] (fun ys hys => ?_) fun ys _ _ hdead more => ?_
      · obtain ⟨more, e, he⟩ := hys
        have hsigned : FactorOver (some maxChain) P
            (.symbol sign.symbol :: (ys.map Token.lexeme ++ more)) (.signed sign e) := .signed sign he
        exact ⟨more, _, by simpa [hlexeme] using hsigned⟩
      · obtain ⟨err', herr⟩ := hdead more
        refine ⟨err', ?_⟩
        cases sign <;> simp [factorWith, hlexeme, Sign.symbol, sign?, herr]
    next => cases heq

end

theorem reader_factor (length depth : Nat) :
    Reader (factor length depth) (Factor (some maxChain) depth) fun _ => True :=
  ⟨factor_sound length depth, factor_complete length depth, fun _ _ _ _ _ _ => trivial⟩

theorem factor_blames (length : Nat) : ∀ depth,
    Blames length (factor length depth) (Factor (some maxChain) depth)
  | 0 => factorWith_blames (by simp)
  | depth + 1 => factorWith_blames fun p hp => by
      obtain rfl : factor length depth = p := by simpa using hp
      exact ⟨reader_factor length depth, factor_blames length depth⟩

/-! ## Whole lists -/

/-- The parser returns a tree for the tokens; the length of the text does not matter. -/
def Accepted (ts : List Token) : Prop := ∃ length e, parse ts length = .ok e

theorem accepted_iff {ts : List Token} (length : Nat) : Accepted ts ↔ ∃ e, parse ts length = .ok e := by
  simp only [Accepted, parse_eq_ok_iff, exists_const]

/-- What begins a phrase begins an accepted list. -/
theorem Begins.exists_accepted {ts : List Token} (h : Begins (Derives (some maxChain) maxDepth) ts) :
    ∃ us, Accepted us ∧ ts <+: us := by
  obtain ⟨more, e, he⟩ := h
  refine ⟨ts ++ more.map fun l => ⟨l, 0⟩, ⟨0, e, parse_eq_ok_iff.2 ?_⟩, List.prefix_append _ _⟩
  simpa [Function.comp_def] using he

theorem parse_blames {ts : List Token} (hts : ts ≠ []) {length : Nat} {err : EvalError}
    (h : parse ts length = .error err) :
    Blame length (Begins (Derives (some maxChain) maxDepth)) (fun us => ∀ vs, us <+: vs → ¬Accepted vs)
      ts err := by
  have hread := reader_comparison (reader_factor length maxDepth)
  unfold parse at h
  simp only [List.isEmpty_iff, hts, if_false] at h
  split at h
  next hfails =>
    cases h
    have hblame := comparison_blames (reader_factor length maxDepth) (factor_blames length maxDepth) hfails
    refine hblame.append [] (fun _ => id) fun ys _ hne hdead vs hpre hvs => ?_
    obtain ⟨more, rfl⟩ := hpre
    obtain ⟨err', herr⟩ := hdead more
    obtain ⟨e, he⟩ := (accepted_iff length).1 hvs
    unfold parse at he
    simp [hne, herr] at he
  next => cases h
  next e t rest hlt hcomparison =>
    cases h
    obtain ⟨xs, hxs, hP, hsame⟩ := hread.prefix_only hcomparison
    refine .token hxs ⟨[], e, by rw [List.append_nil]; exact hP⟩ fun vs hpre hvs => ?_
    obtain ⟨more, rfl⟩ := hpre
    obtain ⟨hlt', hagain⟩ := hsame (t :: more) rfl
    obtain ⟨e', he⟩ := (accepted_iff length).1 hvs
    rw [List.append_assoc, List.singleton_append] at he
    unfold parse at he
    simp [hagain] at he

/-- **A syntax error is reported at the first token that cannot be continued.** Some accepted list
begins with the tokens before it, and none begins with these and the token itself. An error at the
end of the text says that the tokens are not accepted and begin an accepted list. There are no
other errors. -/
theorem syntax_error_at_first_dead_token {ts : List Token} (hts : ts ≠ []) {length : Nat}
    {err : EvalError} (h : parse ts length = .error err) :
    ∃ position fault, err = .malformed position fault ∧
      ((∃ k t, ts[k]? = some t ∧ position = t.position ∧ (∃ us, Accepted us ∧ ts.take k <+: us) ∧
          ∀ us, ts.take (k + 1) <+: us → ¬Accepted us) ∨
        (position = length ∧ ¬Accepted ts ∧ ∃ us, Accepted us ∧ ts <+: us ∧ ts ≠ us)) := by
  have hnot : ¬Accepted ts := by
    intro hacc
    obtain ⟨e, he⟩ := (accepted_iff length).1 hacc
    rw [h] at he
    cases he
  cases parse_blames hts h with
  | @token before t after fault heq hbegins hdead =>
    refine ⟨_, fault, rfl, .inl ⟨before.length, t, ?_, rfl, ?_, fun us hpre => ?_⟩⟩
    · rw [heq]
      simp
    · rw [heq, List.take_left']
      · exact hbegins.exists_accepted
      · rfl
    · refine hdead us ?_
      have htake : ts.take (before.length + 1) = before ++ [t] := by
        rw [heq, List.take_append, List.take_of_length_le (Nat.le_succ _), Nat.add_sub_cancel_left]
        rfl
      rwa [htake] at hpre
  | @ending fault hbegins =>
    obtain ⟨us, hus, hpre⟩ := hbegins.exists_accepted
    refine ⟨_, fault, rfl, .inr ⟨rfl, hnot, us, hus, hpre, ?_⟩⟩
    intro heq
    exact hnot (heq ▸ hus)

/-- Sixty-four brackets can still be closed, and a sixty-fifth cannot. A sum that ends with its
operator can be continued. -/
theorem syntax_error_at_first_dead_token_nested :
    let brackets := (List.range 66).map fun i => (⟨.symbol .opening, i⟩ : Token)
    let sum : List Token := [⟨.name "x", 0⟩, ⟨.symbol .plus, 1⟩]
    (parse brackets 66 = .error (.malformed 64 .nestsTooDeeply) ∧
      (∃ us, Accepted us ∧ brackets.take 64 <+: us) ∧ ∀ us, brackets.take 65 <+: us → ¬Accepted us) ∧
    (parse sum 2 = .error (.malformed 2 .unexpectedEnd) ∧ ∃ us, Accepted us ∧ sum <+: us ∧ sum ≠ us) := by
  intro brackets sum
  have hbrackets : parse brackets 66 = .error (.malformed 64 .nestsTooDeeply) := by decide +kernel
  have hsum : parse sum 2 = .error (.malformed 2 .unexpectedEnd) := by decide +kernel
  refine ⟨⟨hbrackets, ?_⟩, hsum, ?_⟩
  · obtain ⟨_, _, ⟨⟩, ⟨k, t, ht, hposition, hbefore, hdead⟩ | ⟨hposition, -⟩⟩ :=
      syntax_error_at_first_dead_token (by decide) hbrackets
    · obtain rfl : k = 64 := by
        simp only [brackets, List.getElem?_map, Option.map_eq_some_iff] at ht
        obtain ⟨i, hi, rfl⟩ := ht
        obtain ⟨hlt, hi⟩ := List.getElem?_eq_some_iff.1 hi
        rw [List.getElem_range] at hi
        exact hi.trans hposition.symm
      exact ⟨hbefore, hdead⟩
    · cases hposition
  · obtain ⟨_, _, ⟨⟩, ⟨k, t, ht, hposition, -, hdead⟩ | ⟨-, -, hus⟩⟩ :=
      syntax_error_at_first_dead_token (by decide) hsum
    · -- No token stands at the end of the text.
      have hnone : ∀ t ∈ sum, t.position ≠ 2 := by decide
      exact absurd hposition.symm (hnone t (List.mem_of_getElem? ht))
    · exact hus

end Flowchart.Parse
