/-
The tokenizer reads by maximal munch.

One scan takes the longest word off the front of a text (`scan_sound`). It finds
that word whenever no name character or point follows a number or a name
(`scan_complete`). So the tokens of a screened text spell its reading
(`lexes_of_tokenize`), and a text whose operands are apart has tokens
(`tokenize_of_lexes`). Any other text has a fault of form or a number out of range
(`tokenize_unreadable`).
-/
import Flowchart.Proofs.Expression.Words
import Flowchart.Proofs.Lists

namespace Flowchart.Token

open Screen Words Grammar

/-! ## Numbers and names -/

theorem isDigits_takeWhile {cs : List Char} (h : cs.head?.any Char.isDigit = true) :
    IsDigits (cs.takeWhile Char.isDigit) := by
  refine ⟨?_, fun c hc => List.all_eq_true.1 List.all_takeWhile c hc⟩
  cases cs with
  | nil => cases h
  | cons c cs => simp_all

theorem isNumber_splitNumber {c : Char} {rest : List Char} (hc : c.isDigit = true)
    (hpoints : PointsInside (c :: rest)) : IsNumber (splitNumber (c :: rest)).1 := by
  have hwhole : IsDigits ((c :: rest).takeWhile Char.isDigit) := isDigits_takeWhile hc
  have happend := List.takeWhile_append_dropWhile (p := Char.isDigit) (l := c :: rest)
  unfold splitNumber
  split
  next places hplaces =>
    rw [hplaces] at happend
    exact .point hwhole (isDigits_takeWhile (hpoints _ places happend.symm)) rfl
  next => exact .whole hwhole

/-- The number split off reaches at least as far as any number there. -/
theorem isPrefix_splitNumber {v : List Char} (h : IsNumber v) (rest : List Char) :
    v <+: (splitNumber (v ++ rest)).1 := by
  cases h with
  | whole h =>
    unfold splitNumber
    rw [List.takeWhile_append_of_pos h.2]
    split
    next => exact ⟨_, (List.append_assoc ..).symm⟩
    next => exact List.prefix_append ..
  | @point whole places h hplaces heq =>
    obtain ⟨htake, hdrop⟩ := takeWhile_append_eq ('.' :: (places ++ rest)) h.2 (by simp)
    have heq' : v ++ rest = whole ++ '.' :: (places ++ rest) := by
      rw [heq, List.append_assoc, List.cons_append]
    unfold splitNumber
    rw [heq', htake, hdrop]
    simp only
    rw [List.takeWhile_append_of_pos hplaces.2, heq]
    exact ⟨rest.takeWhile Char.isDigit, by simp⟩

theorem longest_splitNumber {c : Char} {rest : List Char} (hc : c.isDigit = true) :
    Longest (splitNumber (c :: rest)).1 (splitNumber (c :: rest)).2 := by
  intro v hv hprefix
  rw [splitNumber_append] at hprefix
  obtain ⟨after, hafter⟩ := hprefix
  obtain ⟨d, u, rfl⟩ := List.exists_cons_of_ne_nil hv.ne_nil
  obtain ⟨rfl, -⟩ := List.cons.inj hafter
  rw [← hafter]
  exact (isPrefix_splitNumber (hv.isNumber hc) after).length_le

theorem splitNumber_eq {w rest : List Char} (h : IsNumber w)
    (hrest : ∀ c ∈ rest.head?, c.isDigit = false ∧ c ≠ '.') :
    splitNumber (w ++ rest) = (w, rest) := by
  have hdigit : ∀ c ∈ rest.head?, c.isDigit = false := fun c hc => (hrest c hc).1
  cases h with
  | whole h =>
    obtain ⟨htake, hdrop⟩ := takeWhile_append_eq rest h.2 hdigit
    unfold splitNumber
    rw [htake, hdrop]
    split
    next => exact absurd rfl (hrest '.' rfl).2
    next => rfl
  | @point whole places h hplaces heq =>
    obtain ⟨htake, hdrop⟩ := takeWhile_append_eq ('.' :: (places ++ rest)) h.2 (by simp)
    obtain ⟨htake', hdrop'⟩ := takeWhile_append_eq rest hplaces.2 hdigit
    have heq' : w ++ rest = whole ++ '.' :: (places ++ rest) := by
      rw [heq, List.append_assoc, List.cons_append]
    unfold splitNumber
    rw [heq', htake, hdrop]
    simp only
    rw [htake', hdrop', heq]

theorem head?_splitNumber_snd (cs : List Char) :
    ∀ c ∈ (splitNumber cs).2.head?, c.isDigit = false := by
  unfold splitNumber
  split
  next rest _ => exact head?_dropWhile_eq rest
  next => exact head?_dropWhile_eq cs

theorem isName_splitName {c : Char} {rest : List Char} (hd : c.isDigit = false)
    (hc : isNameChar c = true) : IsName (splitName (c :: rest)).1 := by
  rw [splitName, List.takeWhile_cons_of_pos hc]
  refine ⟨startsName_iff.2 ⟨hc, hd⟩, fun d hd => isNameChar_iff.1 ?_⟩
  exact List.all_eq_true.1 List.all_takeWhile d hd

theorem longest_splitName {c : Char} {rest : List Char} (hd : c.isDigit = false)
    (hc : isNameChar c = true) :
    Longest (splitName (c :: rest)).1 (splitName (c :: rest)).2 := by
  intro v hv hprefix
  have happend : (splitName (c :: rest)).1 ++ (splitName (c :: rest)).2 = c :: rest :=
    List.takeWhile_append_dropWhile
  rw [happend] at hprefix
  obtain ⟨after, hafter⟩ := hprefix
  obtain ⟨d, u, rfl⟩ := List.exists_cons_of_ne_nil hv.ne_nil
  obtain ⟨rfl, -⟩ := List.cons.inj hafter
  have hname := (hv.isName hd hc).isNameChar
  rw [← hafter, splitName, List.takeWhile_append_of_pos hname, List.length_append]
  omega

/-! ## Symbols -/

/-- The only symbol that goes on after another one does so with `=`. -/
theorem text_eq_of_isPrefix {s s' : Symbol} (h : s.text <+: s'.text)
    (hlt : s.text.length < s'.text.length) : s'.text = s.text ++ ['='] := by
  revert h hlt
  cases s <;> cases s' <;> decide

theorem longest_text_iff {s : Symbol} {rest : List Char} :
    Longest s.text rest ↔ ∀ s' : Symbol, s'.text = s.text ++ ['='] → rest.head? ≠ some '=' := by
  constructor
  · intro h s' hs' hhead
    obtain ⟨after, rfl⟩ := List.head?_eq_some_iff.1 hhead
    have hle := h s'.text (.symbol s' rfl) (by rw [hs']; simp)
    rw [hs', List.length_append, List.length_singleton] at hle
    omega
  · intro h v hv hprefix
    obtain ⟨d, u, rfl⟩ := List.exists_cons_of_ne_nil hv.ne_nil
    obtain ⟨c, w, htext⟩ := List.exists_cons_of_ne_nil (IsWord.symbol s rfl).ne_nil
    obtain ⟨after, hafter⟩ := hprefix
    rw [htext] at hafter
    obtain ⟨rfl, -⟩ := List.cons.inj hafter
    obtain ⟨s', hs'⟩ := hv.isSymbol (Symbol.text_head htext.symm).1
    rw [← htext, hs'] at hafter
    rw [hs']
    by_contra hlt
    have hprefix : s.text <+: s'.text :=
      List.prefix_of_prefix_length_le ⟨rest, rfl⟩ ⟨after, hafter⟩ (by omega)
    have hlonger := text_eq_of_isPrefix hprefix (by omega)
    refine h s' hlonger ?_
    rw [hlonger, List.append_assoc] at hafter
    rw [← List.append_cancel_left hafter]
    rfl

theorem symbolAt_eq_ok_iff {position : Nat} {c : Char} {equals : Bool} {s : Symbol} {two : Bool} :
    symbolAt position c equals = .ok (s, two) ↔
      if two then equals = true ∧ s.text = [c, '=']
      else s.text = [c] ∧ (equals = true → ∀ s' : Symbol, s'.text ≠ [c, '=']) := by
  constructor
  · intro h
    unfold symbolAt at h
    split at h <;> cases h
    case h_8 | h_10 | h_12 => exact ⟨rfl, rfl⟩
    all_goals
      refine ⟨rfl, fun heq s' htext => ?_⟩
      cases s' <;> simp_all [Symbol.text]
  · intro h
    cases two with
    | true =>
      obtain ⟨rfl, htext⟩ := h
      cases s <;> cases htext <;> rfl
    | false =>
      obtain ⟨htext, hlonger⟩ := h
      cases s with
      | less =>
        cases htext
        have hequals : equals = false := Bool.eq_false_iff.2 fun h => hlonger h .atMost rfl
        rw [hequals]
        rfl
      | greater =>
        cases htext
        have hequals : equals = false := Bool.eq_false_iff.2 fun h => hlonger h .atLeast rfl
        rw [hequals]
        rfl
      | _ => cases htext <;> rfl

/-! ## One scan -/

/-- A word that one scan takes off a text, its lexeme and the text after it. The
characters of a number or a name end with the word. -/
structure Cuts (w : List Char) (l : Lexeme) (rest : List Char) : Prop where
  spells : Spells w l
  longest : Longest w rest
  bounded : (∀ s, l ≠ .symbol s) → ∀ c ∈ rest.head?, isNameChar c = false

theorem scanNumber_sound {position : Nat} {c : Char} {rest : List Char} {hc : c.isDigit = true}
    {s : Scanned (c :: rest)} (hpoints : PointsInside (c :: rest))
    (h : scanNumber position c rest hc = .ok s) :
    ∃ w, c :: rest = w ++ s.rest ∧ s.width = w.length ∧ Cuts w s.lexeme s.rest := by
  unfold scanNumber at h
  simp only at h
  split at h
  next => cases h
  next hafter =>
    split at h
    next => cases h
    next value hvalue =>
      cases h
      refine ⟨_, (splitNumber_append (c :: rest)).symm, rfl,
        .number (isNumber_splitNumber hc hpoints) hvalue, longest_splitNumber hc, fun _ d hd => ?_⟩
      have hdigit := head?_splitNumber_snd (c :: rest) d hd
      rw [Option.mem_def.1 hd] at hafter
      simpa [isNameChar, Char.isAlphanum, hdigit] using hafter

theorem scan_sound {position : Nat} {c : Char} {rest : List Char} {s : Scanned (c :: rest)}
    (hpoints : PointsInside (c :: rest)) (h : scan position c rest = .ok s) :
    ∃ w, c :: rest = w ++ s.rest ∧ s.width = w.length ∧ Cuts w s.lexeme s.rest := by
  unfold scan at h
  split at h
  next => exact scanNumber_sound hpoints h
  next hd =>
    have hd : c.isDigit = false := Bool.eq_false_iff.2 hd
    split at h
    next hc =>
      cases h
      exact ⟨_, List.takeWhile_append_dropWhile.symm, rfl, .name (isName_splitName hd hc),
        longest_splitName hd hc, fun _ => head?_dropWhile_eq (c :: rest)⟩
    next =>
      split at h
      next => cases h
      next x heq =>
        obtain ⟨htext, hlonger⟩ := symbolAt_eq_ok_iff.1 heq
        cases h
        refine ⟨x.text, by rw [htext]; rfl, by rw [htext]; rfl, .symbol rfl, ?_,
          fun h => absurd rfl (h x)⟩
        refine longest_text_iff.2 fun x' hx' hhead => ?_
        exact hlonger (by rw [hhead]; rfl) x' (by rw [hx', htext]; rfl)
      next x heq =>
        obtain ⟨hequals, htext⟩ := symbolAt_eq_ok_iff.1 heq
        cases h
        obtain ⟨after, rfl⟩ := List.head?_eq_some_iff.1 (beq_iff_eq.1 hequals)
        refine ⟨x.text, by rw [htext]; rfl, by rw [htext]; rfl, .symbol rfl, ?_,
          fun h => absurd rfl (h x)⟩
        refine longest_text_iff.2 fun x' hx' _ => ?_
        rw [htext] at hx'
        cases x' <;> cases hx'

theorem scanNumber_complete {position : Nat} {c : Char} {u rest : List Char} {value : Decimal}
    (hc : c.isDigit = true) (h : IsNumber (c :: u)) (hvalue : Decimal.ofChars (c :: u) = .ok value)
    (hrest : ∀ d ∈ rest.head?, isNameChar d = false ∧ d ≠ '.') :
    ∃ s, scanNumber position c (u ++ rest) hc = .ok s ∧ s.lexeme = .number value ∧
      s.rest = rest := by
  have hdigit : ∀ d ∈ rest.head?, d.isDigit = false ∧ d ≠ '.' :=
    fun d hd => ⟨isDigit_eq_false (hrest d hd).1, (hrest d hd).2⟩
  have hsplit : splitNumber (c :: (u ++ rest)) = (c :: u, rest) := splitNumber_eq h hdigit
  unfold scanNumber
  simp only
  split
  next hafter =>
    rw [hsplit] at hafter
    obtain ⟨d, hd, hletter⟩ := (Option.any_eq_true _ _).1 hafter
    have hstart : d.isAlpha = true ∨ d = '_' := by simpa using hletter
    exact absurd (startsName_iff.1 hstart).1 (by simp [(hrest d hd).1])
  next =>
    split
    next hvalue' =>
      rw [hsplit, hvalue] at hvalue'
      cases hvalue'
    next value' hvalue' =>
      rw [hsplit, hvalue] at hvalue'
      cases hvalue'
      exact ⟨_, rfl, rfl, congrArg Prod.snd hsplit⟩

theorem scan_complete (position : Nat) {w rest : List Char} {l : Lexeme} (h : Spells w l)
    (hlongest : Longest w rest)
    (hrest : (∀ s, l ≠ .symbol s) → ∀ d ∈ rest.head?, isNameChar d = false ∧ d ≠ '.') :
    ∃ c u, w = c :: u ∧ ∃ s, scan position c (u ++ rest) = .ok s ∧ s.lexeme = l ∧ s.rest = rest := by
  obtain ⟨c, u, rfl⟩ := List.exists_cons_of_ne_nil h.isWord.ne_nil
  refine ⟨c, u, rfl, ?_⟩
  unfold scan
  cases h with
  | number h hvalue =>
    rw [dif_pos h.head]
    exact scanNumber_complete h.head h hvalue (hrest nofun)
  | name h =>
    obtain ⟨hc, hd⟩ := h.head
    have hbound : ∀ d ∈ rest.head?, isNameChar d = false := fun d hd => (hrest nofun d hd).1
    obtain ⟨htake, hdrop⟩ := takeWhile_append_eq rest h.isNameChar hbound
    rw [dif_neg (by simp [hd]), dif_pos hc]
    exact ⟨_, rfl, congrArg (Lexeme.name ∘ String.ofList) htake, hdrop⟩
  | @symbol x h =>
    have hc : isNameChar c = false := (Symbol.text_head h).1
    rw [dif_neg (by simp [isDigit_eq_false hc]), dif_neg (by simp [hc])]
    rw [h] at hlongest
    have hu : u = [] ∨ u = ['='] := by cases x <;> cases h <;> simp
    rcases hu with rfl | rfl
    · have hsymbol : symbolAt position c (rest.head? == some '=') = .ok (x, false) := by
        refine symbolAt_eq_ok_iff.2 ⟨h.symm, fun heq x' hx' => ?_⟩
        exact longest_text_iff.1 hlongest x' (by rw [hx', ← h]; rfl) (beq_iff_eq.1 heq)
      rw [List.nil_append, hsymbol]
      exact ⟨_, rfl, rfl, rfl⟩
    · have hsymbol : symbolAt position c ((['='] ++ rest).head? == some '=') = .ok (x, true) :=
        symbolAt_eq_ok_iff.2 ⟨rfl, h.symm⟩
      rw [hsymbol]
      exact ⟨_, rfl, rfl, rfl⟩

/-! ## The whole text -/

theorem tokenizeFrom_induction {P : List Char → List Token → Prop} (nil : P [] [])
    (cons : ∀ {w rest ts} (t : Token), Cuts w t.lexeme rest → P rest ts → P (w ++ rest) (t :: ts))
    {position : Nat} {done : List Token} {cs : List Char} {ts : List Token}
    (hpoints : PointsInside cs) (h : tokenizeFrom position done cs = .ok ts) :
    ∃ new, ts = done.reverse ++ new ∧ P cs new := by
  fun_induction tokenizeFrom position done cs with
  | case1 =>
    cases h
    exact ⟨[], by simp, nil⟩
  | case2 => cases h
  | case3 position done c rest s hscan ih =>
    obtain ⟨w, hw, -, hcuts⟩ := scan_sound hpoints hscan
    rw [hw] at hpoints ⊢
    obtain ⟨new, rfl, hnew⟩ := ih hpoints.of_append h
    exact ⟨⟨s.lexeme, position⟩ :: new, by simp, cons _ hcuts hnew⟩

/-- What holds of the empty text and is kept by every scan holds of a tokenized
text. -/
theorem tokenize_induction {P : List Char → List Token → Prop} (nil : P [] [])
    (cons : ∀ {w rest ts} (t : Token), Cuts w t.lexeme rest → P rest ts → P (w ++ rest) (t :: ts))
    {cs : List Char} {ts : List Token} (hpoints : PointsInside cs)
    (h : tokenize cs = .ok ts) : P cs ts := by
  obtain ⟨new, rfl, hnew⟩ := tokenizeFrom_induction nil cons hpoints h
  exact hnew

/-- **The tokens of a screened text spell its reading by maximal munch.** -/
theorem lexes_of_tokenize {cs : List Char} {ts : List Token} (hscreen : screen cs = .ok ())
    (h : tokenize cs = .ok ts) : Lexes cs (ts.map Token.lexeme) := by
  refine tokenize_induction (P := fun cs ts => Lexes cs (ts.map Token.lexeme)) ⟨[], .nil, .nil⟩ ?_
    (pointsInside_of_screen hscreen) h
  rintro w rest ts t hcuts ⟨words, hmunches, hspells⟩
  exact ⟨w :: words, .cons hcuts.spells.isWord hcuts.longest hmunches, .cons hcuts.spells hspells⟩

/-- What follows an operand starts with a symbol, if the operands are apart. -/
theorem head?_of_apart {cs : List Char} {words : List (List Char)} {l : Lexeme}
    {lexemes : List Lexeme} (h : Munches cs words) (hspells : List.Forall₂ Spells words lexemes)
    (hapart : (l :: lexemes).IsChain Apart) (hl : ∀ s, l ≠ .symbol s) :
    ∀ c ∈ cs.head?, isNameChar c = false ∧ c ≠ '.' := by
  have hend : endsOperand l = true := by
    cases l with
    | symbol s => exact absurd rfl (hl s)
    | _ => rfl
  cases h with
  | nil => simp
  | cons hword =>
    obtain ⟨l', lexemes, hl', -, rfl⟩ := List.forall₂_cons_left_iff.1 hspells
    have hbegin := (List.isChain_cons.1 hapart).1 l' rfl hend
    obtain ⟨c, u, rfl⟩ := List.exists_cons_of_ne_nil hword.ne_nil
    rintro _ ⟨⟩
    cases hl' with
    | number => cases hbegin
    | name => cases hbegin
    | symbol h => exact Symbol.text_head h

theorem tokenizeFrom_of_munches {cs : List Char} {words : List (List Char)} {lexemes : List Lexeme}
    (h : Munches cs words) (hspells : List.Forall₂ Spells words lexemes)
    (hapart : lexemes.IsChain Apart) (position : Nat) (done : List Token) :
    ∃ new, tokenizeFrom position done cs = .ok (done.reverse ++ new) ∧
      new.map Token.lexeme = lexemes := by
  induction h generalizing lexemes position done with
  | nil =>
    cases hspells
    exact ⟨[], by simp [tokenizeFrom], rfl⟩
  | @cons w rest words _ hlongest hrest ih =>
    obtain ⟨l, lexemes, hl, hspells', rfl⟩ := List.forall₂_cons_left_iff.1 hspells
    have hbound := head?_of_apart hrest hspells' hapart
    obtain ⟨c, u, rfl, s, hscan, hlexeme, hafter⟩ := scan_complete position hl hlongest hbound
    obtain ⟨new, hnew, hlexemes⟩ :=
      ih hspells' hapart.tail (position + s.width) (⟨s.lexeme, position⟩ :: done)
    refine ⟨⟨s.lexeme, position⟩ :: new, ?_, by simp [hlexeme, hlexemes]⟩
    rw [List.cons_append, tokenizeFrom, hscan]
    simp only
    rw [hafter, hnew]
    simp

/-- **A text whose operands are apart is tokenized.** -/
theorem tokenize_of_lexes {cs : List Char} {lexemes : List Lexeme} (h : Lexes cs lexemes)
    (hapart : lexemes.IsChain Apart) :
    ∃ ts, tokenize cs = .ok ts ∧ ts.map Token.lexeme = lexemes := by
  obtain ⟨words, hmunches, hspells⟩ := h
  exact tokenizeFrom_of_munches hmunches hspells hapart 0 []

/-! ## What the tokenizer reports -/

/-- A fault of form, or a number out of range. -/
def Unreadable (err : EvalError) : Prop :=
  (∃ position fault, err = .malformed position fault) ∨ ∃ literal, err = .numberOutOfRange literal

theorem symbolAt_unreadable {position : Nat} {c : Char} {equals : Bool} {err : EvalError}
    (h : symbolAt position c equals = .error err) : Unreadable err := by
  left
  unfold symbolAt at h
  split at h <;> cases h <;> exact ⟨_, _, rfl⟩

theorem scanNumber_unreadable {position : Nat} {c : Char} {rest : List Char}
    {hc : c.isDigit = true} {err : EvalError} (h : scanNumber position c rest hc = .error err) :
    Unreadable err := by
  unfold scanNumber at h
  simp only at h
  split at h
  · cases h
    exact .inl ⟨_, _, rfl⟩
  split at h
  · cases h
    exact .inr ⟨_, rfl⟩
  · cases h

theorem scan_unreadable {position : Nat} {c : Char} {rest : List Char} {err : EvalError}
    (h : scan position c rest = .error err) : Unreadable err := by
  unfold scan at h
  split at h
  · exact scanNumber_unreadable h
  split at h
  · cases h
  split at h
  next hsymbol =>
    cases h
    exact symbolAt_unreadable hsymbol
  next => cases h
  next => cases h

theorem tokenizeFrom_unreadable {position : Nat} {done : List Token} {cs : List Char}
    {err : EvalError} (h : tokenizeFrom position done cs = .error err) : Unreadable err := by
  fun_induction tokenizeFrom position done cs with
  | case1 => cases h
  | case2 _ _ _ _ err' hscan =>
    cases h
    exact scan_unreadable hscan
  | case3 _ _ _ _ _ _ ih => exact ih h

theorem tokenize_unreadable {cs : List Char} {err : EvalError} (h : tokenize cs = .error err) :
    Unreadable err := tokenizeFrom_unreadable h

end Flowchart.Token
