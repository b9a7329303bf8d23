/-
The words of an expression, and how a text is cut into them.

A word is a number, a name or an operator (`IsWord`). A text is read by maximal
munch when each word in turn is the longest one at the front of what is left
(`Munches`). A text has at most one reading (`Lexes.unique`), and if no two
operands touch in it then the screen has nothing to object to (`Lexes.screen`).
-/
import Mathlib
import Flowchart.Proofs.Expression.Grammar
import Flowchart.Proofs.Expression.Screening

namespace Flowchart

/-- How a symbol is written. -/
def Symbol.text : Symbol → List Char
  | .plus => ['+']
  | .minus => ['-']
  | .times => ['*']
  | .divide => ['/']
  | .modulo => ['%']
  | .opening => ['(']
  | .closing => [')']
  | .less => ['<']
  | .greater => ['>']
  | .atMost => ['<', '=']
  | .atLeast => ['>', '=']
  | .equal => ['=', '=']

namespace Words

open Screen Grammar

/-! ## Words -/

/-- One or more decimal digits. -/
def IsDigits (w : List Char) : Prop := w ≠ [] ∧ ∀ c ∈ w, c.isDigit = true

/-- Digits, and perhaps a point with more digits after it. -/
inductive IsNumber (w : List Char) : Prop
  | whole (h : IsDigits w)
  | point {whole places} (h : IsDigits whole) (hplaces : IsDigits places)
      (heq : w = whole ++ '.' :: places)

/-- A letter or underscore, then letters, digits and underscores. -/
def IsName : List Char → Prop
  | [] => False
  | c :: w => (c.isAlpha = true ∨ c = '_') ∧ ∀ d ∈ w, d.isAlphanum = true ∨ d = '_'

/-- Numbers, names and operators. -/
inductive IsWord (w : List Char) : Prop
  | number (h : IsNumber w)
  | name (h : IsName w)
  | symbol (s : Symbol) (h : w = s.text)

/-- The word at the front of a text is the longest one there. -/
def Longest (w rest : List Char) : Prop :=
  ∀ v, IsWord v → v <+: w ++ rest → v.length ≤ w.length

/-- The words of a text, read by maximal munch. -/
inductive Munches : List Char → List (List Char) → Prop
  | nil : Munches [] []
  | cons {w rest words} (hword : IsWord w) (hlongest : Longest w rest)
      (hrest : Munches rest words) : Munches (w ++ rest) (w :: words)

/-- A word spells a lexeme. A number does so only if it is in range. -/
inductive Spells (w : List Char) : Lexeme → Prop
  | number {value} (h : IsNumber w) (hvalue : Decimal.ofChars w = .ok value) :
      Spells w (.number value)
  | name (h : IsName w) : Spells w (.name (String.ofList w))
  | symbol {s : Symbol} (h : w = s.text) : Spells w (.symbol s)

/-- The lexemes of a text, read by maximal munch. -/
def Lexes (cs : List Char) (lexemes : List Lexeme) : Prop :=
  ∃ words, Munches cs words ∧ List.Forall₂ Spells words lexemes

theorem Spells.isWord {w : List Char} {l : Lexeme} (h : Spells w l) : IsWord w := by
  cases h with
  | number h => exact .number h
  | name h => exact .name h
  | symbol h => exact .symbol _ h

/-! ### The first character of a word tells its kind -/

theorem isDigit_eq_false_of_isAlpha {c : Char} (h : c.isAlpha = true) : c.isDigit = false := by
  unfold Char.isAlpha Char.isUpper Char.isLower at h
  unfold Char.isDigit
  grind

theorem isNameChar_of_isDigit {c : Char} (h : c.isDigit = true) : isNameChar c = true := by
  simp [isNameChar, Char.isAlphanum, h]

theorem isDigit_eq_false {c : Char} (h : isNameChar c = false) : c.isDigit = false := by
  refine Bool.eq_false_iff.2 fun hd => ?_
  rw [isNameChar_of_isDigit hd] at h
  cases h

theorem isNameChar_iff {c : Char} : isNameChar c = true ↔ c.isAlphanum = true ∨ c = '_' := by
  simp [isNameChar]

/-- A character that starts a name. -/
theorem startsName_iff {c : Char} :
    (c.isAlpha = true ∨ c = '_') ↔ isNameChar c = true ∧ c.isDigit = false := by
  constructor
  · rintro (h | rfl)
    · exact ⟨by simp [isNameChar, Char.isAlphanum, h], isDigit_eq_false_of_isAlpha h⟩
    · decide
  · rintro ⟨h, hd⟩
    simpa [isNameChar, Char.isAlphanum, hd] using h

theorem IsDigits.head {c : Char} {w : List Char} (h : IsDigits (c :: w)) : c.isDigit = true :=
  h.2 c (by simp)

theorem IsNumber.head {c : Char} {w : List Char} (h : IsNumber (c :: w)) : c.isDigit = true := by
  cases h with
  | whole h => exact h.head
  | @point whole places h _ heq =>
    cases whole with
    | nil => exact absurd rfl h.1
    | cons d whole =>
      obtain ⟨rfl, -⟩ := List.cons.inj heq
      exact h.head

theorem IsName.head {c : Char} {w : List Char} (h : IsName (c :: w)) :
    isNameChar c = true ∧ c.isDigit = false :=
  startsName_iff.1 h.1

theorem Symbol.text_head {c : Char} {w : List Char} {s : Symbol} (h : c :: w = s.text) :
    isNameChar c = false ∧ c ≠ '.' := by
  cases s <;> obtain ⟨rfl, -⟩ := List.cons.inj h <;> decide

theorem IsWord.ne_nil {w : List Char} (h : IsWord w) : w ≠ [] := by
  rintro rfl
  cases h with
  | number h =>
    cases h with
    | whole h => exact h.1 rfl
    | point _ _ heq => simp at heq
  | name h => exact h
  | symbol s h => cases s <;> cases h

theorem IsWord.isNumber {c : Char} {w : List Char} (h : IsWord (c :: w)) (hc : c.isDigit = true) :
    IsNumber (c :: w) := by
  cases h with
  | number h => exact h
  | name h => exact absurd hc (by simp [h.head.2])
  | symbol s h => exact absurd hc (by simp [isDigit_eq_false (Symbol.text_head h).1])

theorem IsWord.isName {c : Char} {w : List Char} (h : IsWord (c :: w)) (hd : c.isDigit = false)
    (hc : isNameChar c = true) : IsName (c :: w) := by
  cases h with
  | number h => exact absurd h.head (by simp [hd])
  | name h => exact h
  | symbol s h => exact absurd hc (by simp [(Symbol.text_head h).1])

theorem IsWord.isSymbol {c : Char} {w : List Char} (h : IsWord (c :: w))
    (hc : isNameChar c = false) : ∃ s : Symbol, c :: w = s.text := by
  cases h with
  | number h => exact absurd h.head (by simp [isDigit_eq_false hc])
  | name h => exact absurd h.head.1 (by simp [hc])
  | symbol s h => exact ⟨s, h⟩

/-! ## A text has one reading -/

theorem Symbol.text_injective {s s' : Symbol} (h : s.text = s'.text) : s = s' := by
  cases s <;> cases s' <;> first | rfl | cases h

theorem Spells.unique {w : List Char} {l l' : Lexeme} (h : Spells w l) (h' : Spells w l') :
    l = l' := by
  obtain ⟨c, u, rfl⟩ := List.exists_cons_of_ne_nil h.isWord.ne_nil
  -- Words of different kinds start differently.
  cases h with
  | number h hvalue =>
    cases h' with
    | number _ hvalue' => rw [Except.ok.inj (hvalue.symm.trans hvalue')]
    | name h' => exact absurd h.head (by simp [h'.head.2])
    | symbol h' => exact absurd h.head (by simp [isDigit_eq_false (Symbol.text_head h').1])
  | name h =>
    cases h' with
    | number h' => exact absurd h'.head (by simp [h.head.2])
    | name => rfl
    | symbol h' => exact absurd h.head.1 (by simp [(Symbol.text_head h').1])
  | symbol h =>
    cases h' with
    | number h' => exact absurd h'.head (by simp [isDigit_eq_false (Symbol.text_head h).1])
    | name h' => exact absurd h'.head.1 (by simp [(Symbol.text_head h).1])
    | symbol h' => rw [Symbol.text_injective (h.symm.trans h')]

/-- The longest word at the front of a text is unique. -/
theorem Longest.unique {w w' rest rest' : List Char} (hlongest : Longest w rest)
    (hlongest' : Longest w' rest') (hword : IsWord w) (hword' : IsWord w')
    (heq : w ++ rest = w' ++ rest') : w = w' ∧ rest = rest' := by
  have hle := hlongest w' hword' (by rw [heq]; exact List.prefix_append w' rest')
  have hle' := hlongest' w hword (by rw [← heq]; exact List.prefix_append w rest)
  exact List.append_inj heq (Nat.le_antisymm hle' hle)

theorem Munches.eq_nil {words : List (List Char)} (h : Munches [] words) : words = [] := by
  generalize hcs : [] = cs at h
  cases h with
  | nil => rfl
  | cons hword => exact absurd (List.append_eq_nil_iff.1 hcs.symm).1 hword.ne_nil

theorem Munches.unique {cs : List Char} {words words' : List (List Char)} (h : Munches cs words)
    (h' : Munches cs words') : words = words' := by
  induction h generalizing words' with
  | nil => exact h'.eq_nil.symm
  | @cons w rest words hword hlongest _ ih =>
    generalize hcs : w ++ rest = cs at h'
    cases h' with
    | nil => exact absurd (List.append_eq_nil_iff.1 hcs).1 hword.ne_nil
    | @cons w' rest' words' hword' hlongest' hrest' =>
      obtain ⟨rfl, rfl⟩ := hlongest.unique hlongest' hword hword' hcs
      rw [ih hrest']

theorem Lexes.unique {cs : List Char} {lexemes lexemes' : List Lexeme} (h : Lexes cs lexemes)
    (h' : Lexes cs lexemes') : lexemes = lexemes' := by
  obtain ⟨words, hmunches, hspells⟩ := h
  obtain ⟨words', hmunches', hspells'⟩ := h'
  obtain rfl := hmunches.unique hmunches'
  have hright : Relator.RightUnique Spells := fun _ _ _ h h' => h.unique h'
  exact List.right_unique_forall₂' hright hspells hspells'

/-! ## The screen passes a text whose operands are apart -/

theorem ne_of_isNameChar {c d : Char} (h : isNameChar c = true) (hd : isNameChar d = false) :
    c ≠ d := by
  rintro rfl
  rw [h] at hd
  cases hd

theorem IsName.isNameChar {w : List Char} (h : IsName w) : ∀ c ∈ w, isNameChar c = true := by
  cases w with
  | nil => exact h.elim
  | cons c w =>
    intro d hd
    rcases List.mem_cons.1 hd with rfl | hd
    · exact h.head.1
    · exact isNameChar_iff.2 (h.2 d hd)

theorem IsNumber.isNameChar_or {w : List Char} (h : IsNumber w) :
    ∀ c ∈ w, isNameChar c = true ∨ c = '.' := by
  intro c hc
  cases h with
  | whole h => exact .inl (isNameChar_of_isDigit (h.2 c hc))
  | point h hplaces heq =>
    rw [heq, List.mem_append, List.mem_cons] at hc
    rcases hc with hc | rfl | hc
    · exact .inl (isNameChar_of_isDigit (h.2 c hc))
    · exact .inr rfl
    · exact .inl (isNameChar_of_isDigit (hplaces.2 c hc))

theorem Symbol.isSymbol_text (s : Symbol) : ∀ c ∈ s.text, isSymbol c = true ∧ c ≠ '.' := by
  have hall : (s.text.all fun c => isSymbol c && c != '.') = true := by cases s <;> rfl
  intro c hc
  simpa using List.all_eq_true.1 hall c hc

theorem IsWord.not_foreign {w : List Char} (h : IsWord w) :
    ∀ c ∈ w, ∀ b a, isForeign b c a = false := by
  intro c hc b a
  cases h with
  | number h =>
    rcases h.isNameChar_or c hc with hc | rfl
    · simp [isForeign, hc]
    · rfl
  | name h => simp [isForeign, h.isNameChar c hc]
  | symbol s h =>
    rw [h] at hc
    simp [isForeign, (Symbol.isSymbol_text s c hc).1]

/-- A check that accepts every word, whatever stands around it, finds nothing. -/
theorem Munches.firstBad_eq_none {bad : Option Char → Char → Option Char → Bool}
    {cs : List Char} {words : List (List Char)} (h : Munches cs words)
    (hbad : ∀ w rest, IsWord w →
      (∀ before position, firstBad bad before position rest = none) →
        ∀ before position, firstBad bad before position (w ++ rest) = none) :
    ∀ before position, firstBad bad before position cs = none := by
  induction h with
  | nil => exact fun _ _ => rfl
  | cons hword _ _ ih => exact hbad _ _ hword ih

theorem IsDigits.not_attribute {w : List Char} (h : IsDigits w) :
    ∀ c ∈ w, ∀ b a, isAttribute b c a = false := by
  intro c hc b a
  have hne : c ≠ '.' := ne_of_isNameChar (isNameChar_of_isDigit (h.2 c hc)) rfl
  simp [isAttribute, hne]

/-- The point of a number has a digit on both sides. -/
theorem IsNumber.firstBad_isAttribute {w rest : List Char} (h : IsNumber w)
    (hrest : ∀ before position, firstBad isAttribute before position rest = none)
    (before : Option Char) (position : Nat) :
    firstBad isAttribute before position (w ++ rest) = none := by
  cases h with
  | whole h =>
    rw [firstBad_append_of_accepted h.not_attribute]
    exact hrest _ _
  | @point whole places h hplaces heq =>
    obtain ⟨d, hd⟩ := Option.isSome_iff_exists.1 (List.getLast?_isSome.2 h.1)
    obtain ⟨e, places', rfl⟩ := List.exists_cons_of_ne_nil hplaces.1
    have hdigit : d.isDigit = true := h.2 d (List.mem_of_getLast? hd)
    have hpoint : isAttribute (some d) '.' (some e) = false := by
      simp [isAttribute, hdigit, hplaces.head]
    rw [heq, List.append_assoc, firstBad_append_of_accepted h.not_attribute, hd, Option.some_or,
      List.cons_append, firstBad, List.cons_append, List.head?_cons, if_neg (by simp [hpoint]),
      ← List.cons_append, firstBad_append_of_accepted hplaces.not_attribute]
    exact hrest _ _

theorem IsWord.firstBad_isAttribute {w rest : List Char} (h : IsWord w)
    (hrest : ∀ before position, firstBad isAttribute before position rest = none)
    (before : Option Char) (position : Nat) :
    firstBad isAttribute before position (w ++ rest) = none := by
  have hskip : (∀ c ∈ w, c ≠ '.') → firstBad isAttribute before position (w ++ rest) = none := by
    intro hw
    rw [firstBad_append_of_accepted fun c hc b a => by simp [isAttribute, hw c hc]]
    exact hrest _ _
  cases h with
  | number h => exact h.firstBad_isAttribute hrest before position
  | name h => exact hskip fun c hc => ne_of_isNameChar (h.isNameChar c hc) rfl
  | symbol s h => exact hskip fun c hc => (Symbol.isSymbol_text s c (h ▸ hc)).2

/-- Only an opening bracket is written with one. -/
theorem Spells.ne_opening {w : List Char} {l : Lexeme} (h : Spells w l)
    (hl : l ≠ .symbol .opening) : ∀ c ∈ w, c ≠ '(' := by
  intro c hc
  cases h with
  | number h =>
    rcases h.isNameChar_or c hc with hc | rfl
    · exact ne_of_isNameChar hc rfl
    · decide
  | name h => exact ne_of_isNameChar (h.isNameChar c hc) rfl
  | @symbol s h =>
    have hs : s ≠ .opening := fun hs => hl (by rw [hs])
    have hall : (s.text.all fun c => c != '(') = true := by
      cases s with
      | opening => exact absurd rfl hs
      | _ => rfl
    simpa using List.all_eq_true.1 hall c (h ▸ hc)

/-- After a lexeme that does not end an operand an opening bracket is no call. -/
theorem Spells.not_call {w : List Char} {l : Lexeme} (h : Spells w l) (hl : endsOperand l = false)
    (before : Option Char) : isCall (w.getLast?.or before) '(' none = false := by
  cases h with
  | number => cases hl
  | name => cases hl
  | @symbol s h =>
    subst h
    cases s <;> first | rfl | cases hl

theorem Munches.firstBad_isCall {cs : List Char} {words : List (List Char)}
    {lexemes : List Lexeme} (h : Munches cs words) (hspells : List.Forall₂ Spells words lexemes)
    (hapart : lexemes.IsChain Apart) (before : Option Char) (position : Nat)
    (hbefore : ∀ l ∈ lexemes.head?, beginsOperand l = true → isCall before '(' none = false) :
    firstBad isCall before position cs = none := by
  induction h generalizing lexemes before position with
  | nil => rfl
  | @cons w rest words _ _ _ ih =>
    obtain ⟨l, lexemes, hl, hspells', rfl⟩ := List.forall₂_cons_left_iff.1 hspells
    have hnext := ih hspells' hapart.tail
    by_cases hopen : l = .symbol .opening
    · subst hopen
      cases hl with
      | symbol h =>
        subst h
        have hbracket : isCall before '(' rest.head? = false := hbefore _ rfl rfl
        show firstBad isCall before position ('(' :: rest) = none
        rw [firstBad, if_neg (by simp [hbracket])]
        exact hnext _ _ fun _ _ _ => rfl
    · have hskip : ∀ c ∈ w, ∀ b a, isCall b c a = false := by
        intro c hc b a
        simp [isCall, hl.ne_opening hopen c hc]
      rw [firstBad_append_of_accepted hskip]
      refine hnext _ _ fun l' hl' hbegin => hl.not_call ?_ before
      cases hend : endsOperand l with
      | false => rfl
      | true =>
        have hapart' := (List.isChain_cons.1 hapart).1 l' hl' hend
        rw [hbegin] at hapart'
        cases hapart'

/-- **The screen refuses no text whose operands are apart.** -/
theorem Lexes.screen {cs : List Char} {lexemes : List Lexeme} (h : Lexes cs lexemes)
    (hapart : lexemes.IsChain Apart) : screen cs = .ok () := by
  obtain ⟨words, hmunches, hspells⟩ := h
  refine screen_eq_ok_iff.2 ⟨?_, ?_, ?_⟩
  · refine hmunches.firstBad_eq_none (fun w rest hword hrest before position => ?_) none 0
    rw [firstBad_append_of_accepted hword.not_foreign]
    exact hrest _ _
  · exact hmunches.firstBad_isCall hspells hapart none 0 fun _ _ _ => rfl
  · exact hmunches.firstBad_eq_none (fun w rest hword hrest => hword.firstBad_isAttribute hrest) none 0

end Words

end Flowchart
