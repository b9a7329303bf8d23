/-
The tokens of a text tile it.

Cut at the positions of its tokens, a text falls into pieces that join to it again, and each piece
is all of the text that its token stands for (`Tiles`). A text that no tokens tile is reported where
reading it from left to right stops. Tokens tile what stands before that place, and there a name
directly follows a number, a point is part of no number or a `=` of no comparison (`OffendsAt`), or
no decimal holds a number (`OutOfRange`). On a screened text the tokenizer finds the tokens or the
fault, whichever there is (`tokens_tile_text`).

Tokens tile a text exactly if a run of scans takes them off it (`Scans.tiles`, `Tiles.scans`). So a
text has one tiling (`Tiles.unique`).
-/
import Flowchart.Proofs.Expression.Names
import Flowchart.Proofs.Expression.Scans

namespace Flowchart

/-- Numbers and names. -/
def Lexeme.isOperand : Lexeme → Bool
  | .number _ | .name _ => true
  | .symbol _ => false

namespace Token

open Screen Words

/-! ## Tilings -/

/-- The pieces of a text that is cut at the given positions. Each goes on to the next position, and
the last one to the end of the text. -/
def pieces (cs : List Char) : List Nat → List (List Char)
  | [] => []
  | p :: ps => cs.extract p (ps.head?.getD cs.length) :: pieces cs ps

/-- The token stands for the word `w` of the text and for no more: no longer word begins at its
position, and a number or a name has no further name character on either side. -/
structure Fits (text w : List Char) (t : Token) : Prop where
  spells : Spells w t.lexeme
  longest : Longest w (text.drop (t.position + w.length))
  before : t.lexeme.isOperand = true →
    ∀ c ∈ (text.take t.position).getLast?, isNameChar c = false
  after : t.lexeme.isOperand = true →
    ∀ c ∈ (text.drop (t.position + w.length)).head?, isNameChar c = false

/-- The tokens tile `front`, which is the beginning of the text `front ++ after`. -/
structure Tiles (front after : List Char) (ts : List Token) : Prop where
  start : front ≠ [] → (ts.map Token.position).head? = some 0
  increasing : (ts.map Token.position).Pairwise (· < ·)
  joined : (pieces front (ts.map Token.position)).flatten = front
  fits : List.Forall₂ (Fits (front ++ after)) (pieces front (ts.map Token.position)) ts
  apart : ts.IsChain fun t t' => ¬(t.lexeme.isOperand = true ∧ t'.lexeme.isOperand = true)

/-- The number `w` stands behind `front`, which tokens tile, and it cannot be extended on either
side. -/
structure NumberAt (cs front w rest : List Char) : Prop where
  split : cs = front ++ (w ++ rest)
  tiles : ∃ ts, Tiles front (w ++ rest) ts
  before : ∀ c ∈ front.getLast?, isNameChar c = false
  isNumber : IsNumber w
  longest : Longest w rest

/-- The character at `position` offends against the form of an expression. -/
inductive OffendsAt (cs : List Char) (position : Nat) : FormFault → Prop
  /-- A letter or underscore directly follows a number. -/
  | nameAfterNumber {front w c rest} (hat : NumberAt cs front w (c :: rest))
      (hc : c.isAlpha = true ∨ c = '_') (hposition : position = (front ++ w).length) :
      OffendsAt cs position .nameAfterNumber
  /-- A point is part of no number: it follows a name, or a number that has a point already. -/
  | strayPoint {front w rest ts} (hsplit : cs = front ++ '.' :: rest)
      (htiles : Tiles front ('.' :: rest) ts) (hlast : w <:+ front)
      (hw : IsName w ∨ IsNumber w ∧ '.' ∈ w) (hposition : position = front.length) :
      OffendsAt cs position (.unexpected '.')
  /-- A `=` is part of no comparison: the tokens end before it, and no other `=` follows. -/
  | loneEquals {front rest ts} (hsplit : cs = front ++ '=' :: rest)
      (htiles : Tiles front ('=' :: rest) ts) (hrest : rest.head? ≠ some '=')
      (hposition : position = front.length) : OffendsAt cs position .loneEquals

/-- The literal is a whole number of the text, and no decimal holds it. -/
def OutOfRange (cs : List Char) (literal : String) : Prop :=
  ∃ front w rest, NumberAt cs front w rest ∧ (∀ c ∈ rest.head?, isNameChar c = false) ∧
    literal = String.ofList w ∧ ∃ reason, Decimal.ofText literal = .error reason

/-! ## Between two words -/

theorem exists_isNameChar_of_isOperand {w : List Char} {l : Lexeme} (h : Spells w l)
    (hl : l.isOperand = true) (rest : List Char) :
    ∃ c ∈ (w ++ rest).head?, isNameChar c = true := by
  obtain ⟨c, u, rfl⟩ := List.exists_cons_of_ne_nil h.isWord.ne_nil
  refine ⟨c, rfl, ?_⟩
  cases h with
  | number h => exact isNameChar_of_isDigit h.head
  | name h => exact h.head.1
  | symbol => cases hl

/-- No run of name characters goes on from `before` to `after`. -/
def Parted (before after : List Char) : Prop :=
  ∀ c ∈ before.getLast?, ∀ d ∈ after.head?, isNameChar d = true → isNameChar c = false

theorem parted_nil (after : List Char) : Parted [] after := nofun

theorem Parted.append {w after : List Char} (h : Parted w after) (hw : w ≠ [])
    (before : List Char) : Parted (before ++ w) after := by
  unfold Parted
  rwa [List.getLast?_append_of_ne_nil _ hw]

theorem Cuts.after {w rest : List Char} {l : Lexeme} (h : Cuts w l rest)
    (hl : l.isOperand = true) : ∀ c ∈ rest.head?, isNameChar c = false :=
  h.bounded (by rintro s rfl; cases hl)

theorem Cuts.parted {w rest : List Char} {l : Lexeme} (h : Cuts w l rest) : Parted w rest := by
  intro c hc d hd hname
  have hl : l.isOperand = false := by
    refine Bool.eq_false_iff.2 fun hl => ?_
    rw [h.after hl d hd] at hname
    cases hname
  cases h.spells with
  | number => cases hl
  | name => cases hl
  | @symbol s hw => exact Symbol.not_isNameChar_text s c (hw ▸ List.mem_of_getLast? hc)

/-- A number that has no point takes the one that follows it. -/
theorem Cuts.name_or_point {w rest : List Char} {l : Lexeme} (h : Cuts w l ('.' :: rest))
    (hlast : w.getLast?.any Char.isDigit = true) (hrest : rest.head?.any Char.isDigit = true) :
    IsName w ∨ IsNumber w ∧ '.' ∈ w := by
  cases h.spells with
  | name hw => exact .inl hw
  | @symbol s hw =>
    obtain ⟨c, hc, hdigit⟩ := (Option.any_eq_true _ _).1 hlast
    have hname := Symbol.not_isNameChar_text s c (hw ▸ List.mem_of_getLast? hc)
    rw [isNameChar_of_isDigit hdigit] at hname
    cases hname
  | number hw =>
    refine .inr ⟨hw, ?_⟩
    cases hw with
    | point _ _ heq => simp [heq]
    | whole hdigits =>
      obtain ⟨d, hd, hdigit⟩ := (Option.any_eq_true _ _).1 hrest
      obtain ⟨after, rfl⟩ := List.head?_eq_some_iff.1 hd
      have hplaces : IsDigits [d] := ⟨by simp, by simpa using hdigit⟩
      have hle := h.longest (w ++ ['.', d]) (.number (.point hdigits hplaces rfl)) ⟨after, by simp⟩
      simp at hle

/-! ## A run of scans leaves a tiling

The lemmas on runs hold from any position on; `before` is the text in front of it. -/

section
variable {after front : List Char} {position : Nat} {words : List (List Char)} {ts : List Token}

theorem Scans.parted (h : Scans after position front words ts) (before : List Char)
    (hbefore : Parted before (front ++ after)) : Parted (before ++ front) after := by
  induction h generalizing before with
  | nil => simpa using hbefore
  | cons hcuts _ ih =>
    rw [← List.append_assoc]
    exact ih _ (hcuts.parted.append hcuts.spells.isWord.ne_nil before)

theorem Scans.flatten_eq (h : Scans after position front words ts) : words.flatten = front := by
  induction h with
  | nil => rfl
  | cons _ _ ih => rw [List.flatten_cons, ih]

theorem Scans.le_position (h : Scans after position front words ts) :
    ∀ t ∈ ts, position ≤ t.position := by
  induction h with
  | nil => simp
  | cons _ _ ih =>
    intro t ht
    rcases List.mem_cons.1 ht with rfl | ht
    · exact Nat.le_refl _
    · exact Nat.le_trans (Nat.le_add_right _ _) (ih t ht)

theorem Scans.increasing (h : Scans after position front words ts) :
    (ts.map Token.position).Pairwise (· < ·) := by
  induction h with
  | nil => exact .nil
  | cons hcuts hnext ih =>
    refine List.pairwise_cons.2 ⟨fun p hp => ?_, ih⟩
    obtain ⟨t, ht, rfl⟩ := List.mem_map.1 hp
    have hpos := List.length_pos_iff.2 hcuts.spells.isWord.ne_nil
    exact Nat.lt_of_lt_of_le (Nat.lt_add_of_pos_right hpos) (hnext.le_position t ht)

/-- The next token stands at the position of the run, or the text ends there. -/
theorem Scans.head?_getD (h : Scans after position front words ts) :
    (ts.map Token.position).head?.getD (position + front.length) = position := by
  cases h <;> rfl

theorem Scans.pieces_eq (h : Scans after position front words ts) (before : List Char)
    (hbefore : before.length = position) :
    pieces (before ++ front) (ts.map Token.position) = words := by
  induction h generalizing before with
  | nil => rfl
  | @cons position w l front words ts _ hnext ih =>
    have hlength : (before ++ (w ++ front)).length = position + w.length + front.length := by
      simp [hbefore, Nat.add_assoc]
    have htail := ih (before ++ w) (by simp [hbefore])
    rw [List.append_assoc] at htail
    rw [List.map_cons, pieces, hlength, hnext.head?_getD, htail, ← hbefore]
    simp [List.extract_eq_take_drop]

theorem Scans.fits (h : Scans after position front words ts) (before : List Char)
    (hbefore : before.length = position) (hparted : Parted before (front ++ after)) :
    List.Forall₂ (Fits (before ++ front ++ after)) words ts := by
  induction h generalizing before with
  | nil => exact .nil
  | @cons position w l front words ts hcuts _ ih =>
    have htake : (before ++ (w ++ front) ++ after).take position = before := by simp [← hbefore]
    have hdrop : (before ++ (w ++ front) ++ after).drop (position + w.length) = front ++ after := by
      simp [← hbefore]
    have htail := ih (before ++ w) (by simp [hbefore])
      (hcuts.parted.append hcuts.spells.isWord.ne_nil before)
    refine .cons ⟨hcuts.spells, ?_, fun hl c hc => ?_, fun hl => ?_⟩ (by simpa using htail)
    · rw [hdrop]
      exact hcuts.longest
    · rw [htake] at hc
      obtain ⟨d, hd, hname⟩ := exists_isNameChar_of_isOperand hcuts.spells hl (front ++ after)
      exact hparted c hc d (by rwa [List.append_assoc]) hname
    · rw [hdrop]
      exact hcuts.after hl

theorem Scans.apart (h : Scans after position front words ts) :
    ts.IsChain fun t t' => ¬(t.lexeme.isOperand = true ∧ t'.lexeme.isOperand = true) := by
  induction h with
  | nil => exact .nil
  | cons hcuts hnext ih =>
    cases hnext with
    | nil => exact .singleton _
    | cons hcuts' =>
      refine .cons_cons ?_ ih
      rintro ⟨hl, hl'⟩
      obtain ⟨d, hd, hname⟩ := exists_isNameChar_of_isOperand hcuts'.spells hl' (_ ++ after)
      rw [hcuts.after hl d (by rwa [List.append_assoc])] at hname
      cases hname

theorem Scans.tiles (h : Scans after 0 front words ts) : Tiles front after ts := by
  have hpieces : pieces front (ts.map Token.position) = words := h.pieces_eq [] rfl
  refine ⟨fun hne => ?_, h.increasing, ?_, ?_, h.apart⟩
  · cases h with
    | nil => exact absurd rfl hne
    | cons => rfl
  · rw [hpieces, h.flatten_eq]
  · rw [hpieces]
    exact h.fits [] rfl (parted_nil _)

/-- The last word of a text that is not empty. -/
theorem Scans.exists_last (h : Scans after position front words ts) (hne : front ≠ []) :
    ∃ w l, w <:+ front ∧ Cuts w l after := by
  induction h with
  | nil => exact absurd rfl hne
  | @cons position w l front words ts hcuts hnext ih =>
    by_cases hfront : front = []
    · subst hfront
      exact ⟨w, l, by simp, hcuts⟩
    · obtain ⟨v, l', hv, hcuts'⟩ := ih hfront
      exact ⟨v, l', hv.trans (List.suffix_append w front), hcuts'⟩

/-! ## A tiling is left by a run of scans -/

/-- A piece reaches up to the next one, if that one is not empty. -/
theorem next_position_eq {cs w v : List Char} {p q : Nat} {ps : List Nat}
    (h : pieces cs (p :: q :: ps) = w :: v :: words) (hlt : p < q) (hv : v ≠ []) :
    q = p + w.length := by
  obtain ⟨hw, htail⟩ := List.cons.inj h
  obtain ⟨rfl, -⟩ := List.cons.inj htail
  have hpos := List.length_pos_iff.2 hv
  rw [← hw]
  simp only [List.head?_cons, Option.getD_some, List.extract_eq_take_drop, List.length_take,
    List.length_drop] at hpos ⊢
  omega

theorem scans_of_fits {before : List Char}
    (hwords : pieces (before ++ front) (ts.map Token.position) = words)
    (hstart : ∀ t ∈ ts.head?, t.position = before.length)
    (hincreasing : (ts.map Token.position).Pairwise (· < ·)) (hjoined : words.flatten = front)
    (hfits : List.Forall₂ (Fits (before ++ front ++ after)) words ts) :
    Scans after before.length front words ts := by
  induction ts generalizing before front words with
  | nil =>
    obtain rfl : [] = words := hwords
    obtain rfl : [] = front := hjoined
    exact .nil
  | cons t ts ih =>
    obtain ⟨w, words, hfit, hfits', rfl⟩ := List.forall₂_cons_right_iff.1 hfits
    obtain ⟨l, position⟩ := t
    obtain rfl : position = before.length := hstart _ rfl
    obtain rfl : w ++ words.flatten = front := hjoined
    have hdrop : (before ++ (w ++ words.flatten) ++ after).drop (before.length + w.length) =
        words.flatten ++ after := by simp
    have hcuts : Cuts w l (words.flatten ++ after) := by
      refine ⟨hfit.spells, hdrop ▸ hfit.longest, fun hl => hdrop ▸ hfit.after ?_⟩
      cases l with
      | symbol s => exact absurd rfl (hl s)
      | _ => rfl
    have hstart' : ∀ t ∈ ts.head?, t.position = (before ++ w).length := by
      intro t ht
      obtain ⟨ts, rfl⟩ := List.head?_eq_some_iff.1 ht
      obtain ⟨v, words, hfit', -, rfl⟩ := List.forall₂_cons_right_iff.1 hfits'
      have hlt : before.length < t.position := (List.pairwise_cons.1 hincreasing).1 _ (by simp)
      rw [List.length_append]
      exact next_position_eq hwords hlt hfit'.spells.isWord.ne_nil
    refine .cons hcuts ?_
    rw [← List.length_append]
    exact ih (by simpa using (List.cons.inj hwords).2) hstart' hincreasing.tail rfl
      (by simpa using hfits')

theorem Tiles.scans (h : Tiles front after ts) : ∃ words, Scans after 0 front words ts := by
  have hstart : ∀ t ∈ ts.head?, t.position = 0 := by
    intro t ht
    obtain ⟨ts, rfl⟩ := List.head?_eq_some_iff.1 ht
    obtain ⟨w, words, hfit, -, hwords⟩ := List.forall₂_cons_right_iff.1 h.fits
    refine Option.some.inj (h.start ?_)
    rw [← h.joined, hwords, List.flatten_cons]
    exact List.append_ne_nil_of_left_ne_nil hfit.spells.isWord.ne_nil _
  have hwords : pieces ([] ++ front) (ts.map Token.position) = _ := rfl
  exact ⟨_, scans_of_fits hwords hstart h.increasing h.joined h.fits⟩

/-- **A text has one tiling,** as far as words can be taken off it. -/
theorem Tiles.unique {front' after' : List Char} {ts' : List Token} (h : Tiles front after ts)
    (h' : Tiles front' after' ts') (hend : Uncut after) (hend' : Uncut after')
    (heq : front ++ after = front' ++ after') : front = front' ∧ after = after' ∧ ts = ts' := by
  obtain ⟨words, hscans⟩ := h.scans
  obtain ⟨words', hscans'⟩ := h'.scans
  exact hscans.unique hscans' hend hend' heq

theorem Tiles.parted (h : Tiles front after ts) : Parted front after := by
  obtain ⟨words, hscans⟩ := h.scans
  exact hscans.parted [] (parted_nil _)

end

/-! ## What the tokenizer finds -/

section
variable {cs : List Char}

theorem tokenize_eq_ok_iff (hscreen : screen cs = .ok ()) {ts : List Token} :
    tokenize cs = .ok ts ↔ Tiles cs [] ts := by
  rcases tokenize_scans hscreen with
    ⟨words, ts', hscans, heq⟩ | ⟨front, rest, words, ts', err, hsplit, hscans, hstuck, heq⟩
  · rw [heq]
    constructor
    · rintro ⟨⟩
      exact hscans.tiles
    · intro htiles
      obtain ⟨-, -, rfl⟩ := hscans.tiles.unique htiles uncut_nil uncut_nil rfl
      rfl
  · rw [heq]
    refine iff_of_false nofun fun htiles => ?_
    obtain ⟨-, rfl, -⟩ := hscans.tiles.unique htiles hstuck.uncut uncut_nil (by simp [hsplit])
    exact hstuck.ne_nil rfl

theorem tokenize_eq_error_iff (hscreen : screen cs = .ok ()) {err : EvalError} :
    tokenize cs = .error err ↔
      ∃ front rest ts, cs = front ++ rest ∧ Tiles front rest ts ∧ Stuck front.length rest err := by
  rcases tokenize_scans hscreen with
    ⟨words, ts, hscans, heq⟩ | ⟨front, rest, words, ts, err', hsplit, hscans, hstuck, heq⟩
  · rw [heq]
    refine iff_of_false nofun ?_
    rintro ⟨front, rest, ts', hsplit, htiles, hstuck⟩
    obtain ⟨-, rfl, -⟩ := hscans.tiles.unique htiles uncut_nil hstuck.uncut (by simp [hsplit])
    exact hstuck.ne_nil rfl
  · rw [heq]
    constructor
    · rintro ⟨⟩
      exact ⟨front, rest, ts, hsplit, hscans.tiles, hstuck⟩
    · rintro ⟨front', rest', ts', hsplit', htiles, hstuck'⟩
      obtain ⟨rfl, rfl, -⟩ :=
        hscans.tiles.unique htiles hstuck.uncut hstuck'.uncut (hsplit.symm.trans hsplit')
      rw [hstuck.unique hstuck']

theorem numberAt_of_firstNumber {front text w rest : List Char} {ts : List Token}
    (hsplit : cs = front ++ text) (htiles : Tiles front text ts)
    (hnumber : FirstNumber text w rest) : NumberAt cs front w rest := by
  obtain ⟨rfl, hw, hlongest⟩ := hnumber
  refine ⟨hsplit, ⟨ts, htiles⟩, fun c hc => ?_, hw, hlongest⟩
  obtain ⟨d, u, rfl⟩ := List.exists_cons_of_ne_nil (IsWord.number hw).ne_nil
  exact htiles.parted c hc d rfl (isNameChar_of_isDigit hw.head)

theorem NumberAt.firstNumber {front w rest : List Char} (h : NumberAt cs front w rest) :
    FirstNumber (w ++ rest) w rest := ⟨rfl, h.isNumber, h.longest⟩

theorem tokenize_eq_malformed_iff (hscreen : screen cs = .ok ()) {position : Nat}
    {fault : FormFault} :
    tokenize cs = .error (.malformed position fault) ↔ OffendsAt cs position fault := by
  rw [tokenize_eq_error_iff hscreen]
  constructor
  · rintro ⟨front, rest, ts, hsplit, htiles, hstuck⟩
    cases hstuck with
    | nameAfterNumber hnumber hc =>
      exact .nameAfterNumber (numberAt_of_firstNumber hsplit htiles hnumber) hc (by simp)
    | strayPoint htext =>
      subst htext hsplit
      obtain ⟨hbefore, hafter⟩ := digits_around_point hscreen
      obtain ⟨words, hscans⟩ := htiles.scans
      -- A point has a digit in front of it, so there is a last word, and it ends with that digit.
      obtain ⟨w, l, ⟨before, rfl⟩, hcuts⟩ := hscans.exists_last (by rintro rfl; cases hbefore)
      rw [List.getLast?_append_of_ne_nil _ hcuts.spells.isWord.ne_nil] at hbefore
      exact .strayPoint rfl htiles ⟨before, rfl⟩ (hcuts.name_or_point hbefore hafter) rfl
    | loneEquals htext hrest =>
      subst htext
      exact .loneEquals hsplit htiles hrest rfl
  · intro h
    cases h with
    | @nameAfterNumber front w c rest hat hc hposition =>
      obtain ⟨ts, htiles⟩ := hat.tiles
      rw [hposition, List.length_append]
      exact ⟨front, _, ts, hat.split, htiles, .nameAfterNumber hat.firstNumber hc⟩
    | @strayPoint front w rest ts hsplit htiles _ _ hposition =>
      rw [hposition]
      exact ⟨front, _, ts, hsplit, htiles, .strayPoint rfl⟩
    | @loneEquals front rest ts hsplit htiles hrest hposition =>
      rw [hposition]
      exact ⟨front, _, ts, hsplit, htiles, .loneEquals rfl hrest⟩

theorem tokenize_eq_outOfRange_iff (hscreen : screen cs = .ok ()) {literal : String} :
    tokenize cs = .error (.numberOutOfRange literal) ↔ OutOfRange cs literal := by
  rw [tokenize_eq_error_iff hscreen]
  constructor
  · rintro ⟨front, rest, ts, hsplit, htiles, hstuck⟩
    cases hstuck with
    | @outOfRange w after reason hnumber hrest hvalue =>
      have hat := numberAt_of_firstNumber hsplit htiles hnumber
      refine ⟨front, w, after, hat, hrest, rfl, reason, ?_⟩
      rwa [Decimal.ofText, String.toList_ofList]
  · rintro ⟨front, w, rest, hat, hrest, rfl, reason, hvalue⟩
    obtain ⟨ts, htiles⟩ := hat.tiles
    rw [Decimal.ofText, String.toList_ofList] at hvalue
    exact ⟨front, _, ts, hat.split, htiles, .outOfRange hat.firstNumber hrest hvalue⟩

theorem OffendsAt.lt_length {position : Nat} {fault : FormFault} (h : OffendsAt cs position fault) :
    position < cs.length := by
  cases h with
  | nameAfterNumber hat _ hposition => simp [hposition, hat.split]
  | strayPoint hsplit _ _ _ hposition => simp [hposition, hsplit]
  | loneEquals hsplit _ _ hposition => simp [hposition, hsplit]

end

/-- **The tokens of a screened text tile it.** A list of tokens is found exactly if it tiles the
text. A fault of form is reported exactly where a character offends, and that is inside the text. A
literal is reported exactly if it is a whole number of the text that no decimal holds. Tokens tile
what stands before a reported place. There are no other errors. -/
theorem tokens_tile_text {cs : List Char} (hscreen : screen cs = .ok ()) :
    (∀ ts, tokenize cs = .ok ts ↔ Tiles cs [] ts) ∧
    (∀ position fault, tokenize cs = .error (.malformed position fault) ↔
      position < cs.length ∧ OffendsAt cs position fault) ∧
    (∀ literal, tokenize cs = .error (.numberOutOfRange literal) ↔ OutOfRange cs literal) ∧
    ∀ err, tokenize cs = .error err → Unreadable err := by
  refine ⟨fun ts => tokenize_eq_ok_iff hscreen, fun position fault => ?_,
    fun literal => tokenize_eq_outOfRange_iff hscreen, fun err => tokenize_unreadable⟩
  rw [tokenize_eq_malformed_iff hscreen]
  exact ⟨fun h => ⟨h.lt_length, h⟩, And.right⟩

/-- A point that follows a name or a number with a point is part of no number, the second `=` of
`<==` is part of no comparison, and the first whole number past the largest decimal is out of
range. -/
theorem tokens_tile_text_munched :
    let value : Decimal := ⟨false, 250, 2, by decide, by decide⟩
    let large := "79228162514264337593543950336"
    (screen "x1<=2.50".toList = .ok () ∧
      Tiles "x1<=2.50".toList [] [⟨.name "x1", 0⟩, ⟨.symbol .atMost, 2⟩, ⟨.number value, 4⟩]) ∧
    (screen "x1.2".toList = .ok () ∧ OffendsAt "x1.2".toList 2 (.unexpected '.')) ∧
    (screen "1.2.3".toList = .ok () ∧ OffendsAt "1.2.3".toList 3 (.unexpected '.')) ∧
    (screen "<==".toList = .ok () ∧ OffendsAt "<==".toList 2 .loneEquals) ∧
    (screen "2x".toList = .ok () ∧ OffendsAt "2x".toList 1 .nameAfterNumber) ∧
    screen large.toList = .ok () ∧ OutOfRange large.toList large := by
  intro value large
  have htiles {text : String} {ts : List Token} (hscreen : screen text.toList = .ok ())
      (h : tokenize text.toList = .ok ts) :
      screen text.toList = .ok () ∧ Tiles text.toList [] ts :=
    ⟨hscreen, ((tokens_tile_text hscreen).1 ts).1 h⟩
  have hoffends {text : String} {position : Nat} {fault : FormFault}
      (hscreen : screen text.toList = .ok ())
      (h : tokenize text.toList = .error (.malformed position fault)) :
      screen text.toList = .ok () ∧ OffendsAt text.toList position fault :=
    ⟨hscreen, (((tokens_tile_text hscreen).2.1 position fault).1 h).2⟩
  have hlarge : screen large.toList = .ok () := by decide +kernel
  exact ⟨htiles (by decide +kernel) (by decide +kernel),
    hoffends (by decide +kernel) (by decide +kernel),
    hoffends (by decide +kernel) (by decide +kernel),
    hoffends (by decide +kernel) (by decide +kernel),
    hoffends (by decide +kernel) (by decide +kernel), hlarge,
    ((tokens_tile_text hlarge).2.2.1 large).1 (by decide +kernel)⟩

end Token

end Flowchart
