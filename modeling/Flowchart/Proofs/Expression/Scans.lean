/-
The tokenizer as a run of scans.

On a screened text, a scan that fails does so for one of four reasons (`Stuck`). The scans before it
take one word after the other off the text (`Scans`), up to its end or to such a place
(`tokenize_scans`). Where a run is stuck no word can be taken off (`Stuck.uncut`), so a text has one
run only (`Scans.unique`), and it is stuck for one reason only (`Stuck.unique`).
-/
import Flowchart.Proofs.Expression.Tokenizing

namespace Flowchart.Token

open Screen Words

/-! ## One scan -/

/-- The longest number at the front of a text. -/
structure FirstNumber (text w rest : List Char) : Prop where
  split : text = w ++ rest
  isNumber : IsNumber w
  longest : Longest w rest

/-- Why no word can be taken off a text that begins at `position`. -/
inductive Stuck (position : Nat) (text : List Char) : EvalError → Prop
  | nameAfterNumber {w c rest} (hnumber : FirstNumber text w (c :: rest))
      (hc : c.isAlpha = true ∨ c = '_') :
      Stuck position text (.malformed (position + w.length) .nameAfterNumber)
  | strayPoint {rest} (htext : text = '.' :: rest) :
      Stuck position text (.malformed position (.unexpected '.'))
  | loneEquals {rest} (htext : text = '=' :: rest) (hrest : rest.head? ≠ some '=') :
      Stuck position text (.malformed position .loneEquals)
  | outOfRange {w rest reason} (hnumber : FirstNumber text w rest)
      (hrest : ∀ c ∈ rest.head?, isNameChar c = false) (hvalue : Decimal.ofChars w = .error reason) :
      Stuck position text (.numberOutOfRange (String.ofList w))

theorem firstNumber_splitNumber {c : Char} {rest : List Char} (hc : c.isDigit = true)
    (hpoints : PointsInside (c :: rest)) :
    FirstNumber (c :: rest) (splitNumber (c :: rest)).1 (splitNumber (c :: rest)).2 :=
  ⟨(splitNumber_append _).symm, isNumber_splitNumber hc hpoints, longest_splitNumber hc⟩

theorem scanNumber_stuck {position : Nat} {c : Char} {rest : List Char} {hc : c.isDigit = true}
    {err : EvalError} (hpoints : PointsInside (c :: rest))
    (h : scanNumber position c rest hc = .error err) : Stuck position (c :: rest) err := by
  have hnumber := firstNumber_splitNumber hc hpoints
  unfold scanNumber at h
  simp only at h
  split at h
  next hafter =>
    cases h
    obtain ⟨d, hd, hletter⟩ := (Option.any_eq_true _ _).1 hafter
    obtain ⟨after, heq⟩ := List.head?_eq_some_iff.1 hd
    rw [heq] at hnumber
    exact .nameAfterNumber hnumber (by simpa using hletter)
  next hafter =>
    split at h
    next reason hvalue =>
      cases h
      refine .outOfRange hnumber (fun d hd => ?_) hvalue
      have hdigit := head?_splitNumber_snd (c :: rest) d hd
      rw [Option.mem_def.1 hd] at hafter
      simpa [isNameChar, Char.isAlphanum, hdigit] using hafter
    next => cases h

theorem symbolAt_stuck {position : Nat} {c : Char} {rest : List Char} {err : EvalError}
    (hc : isSymbol c = true) (h : symbolAt position c (rest.head? == some '=') = .error err) :
    Stuck position (c :: rest) err := by
  generalize hequals : (rest.head? == some '=') = equals at h
  unfold symbolAt at h
  split at h <;> cases h
  next => exact .loneEquals rfl (by simpa using hequals)
  next =>
    -- The cases before have taken every symbol but the point.
    obtain rfl : c = '.' := by
      have hmem : c ∈ "()*/+-.<>=%".toList := by simpa [isSymbol] using hc
      cases equals <;> simp_all
    exact .strayPoint rfl

theorem scan_stuck {position : Nat} {c : Char} {rest : List Char} {err : EvalError}
    (hc : isNameChar c = true ∨ isSymbol c = true) (hpoints : PointsInside (c :: rest))
    (h : scan position c rest = .error err) : Stuck position (c :: rest) err := by
  unfold scan at h
  split at h
  next => exact scanNumber_stuck hpoints h
  next =>
    split at h
    next => cases h
    next hname =>
      have hsymbol : isSymbol c = true := hc.resolve_left hname
      split at h
      next herr =>
        cases h
        exact symbolAt_stuck hsymbol herr
      next => cases h
      next => cases h

/-! ## Runs -/

/-- Scans from `position` on take the words of `front` off the text `front ++ after`. -/
inductive Scans (after : List Char) : Nat → List Char → List (List Char) → List Token → Prop
  | nil {position} : Scans after position [] [] []
  | cons {position w l front words ts} (hcuts : Cuts w l (front ++ after))
      (hnext : Scans after (position + w.length) front words ts) :
      Scans after position (w ++ front) (w :: words) (⟨l, position⟩ :: ts)

theorem tokenizeFrom_scans {cs : List Char}
    (hplain : ∀ c ∈ cs, isNameChar c = true ∨ isSymbol c = true) (hpoints : PointsInside cs)
    (position : Nat) (done : List Token) :
    (∃ words ts, Scans [] position cs words ts ∧
      tokenizeFrom position done cs = .ok (done.reverse ++ ts)) ∨
    ∃ front rest words ts err, cs = front ++ rest ∧ Scans rest position front words ts ∧
      Stuck (position + front.length) rest err ∧ tokenizeFrom position done cs = .error err := by
  fun_induction tokenizeFrom position done cs with
  | case1 => exact .inl ⟨[], [], .nil, by simp⟩
  | case2 position done c rest err hscan =>
    have hstuck := scan_stuck (hplain c (by simp)) hpoints hscan
    exact .inr ⟨[], c :: rest, [], [], err, rfl, .nil, hstuck, rfl⟩
  | case3 position done c rest s hscan ih =>
    obtain ⟨w, hw, hwidth, hcuts⟩ := scan_sound hpoints hscan
    -- The text is rewritten to `w ++ after` below, and the type of `s` mentions it.
    obtain ⟨l, width, after, hlt⟩ := s
    simp only at hw hwidth hcuts ih ⊢
    rw [hw] at hplain hpoints ⊢
    rw [hwidth] at ih ⊢
    rcases ih (fun c hc => hplain c (by simp [hc])) hpoints.of_append with
      ⟨words, ts, hscans, heq⟩ | ⟨front, rest', words, ts, err, rfl, hscans, hstuck, heq⟩
    · refine .inl ⟨w :: words, ⟨l, position⟩ :: ts, .cons (by simpa using hcuts) hscans, ?_⟩
      simp [heq]
    · refine .inr ⟨w ++ front, rest', w :: words, ⟨l, position⟩ :: ts, err, ?_, ?_, ?_, heq⟩
      · rw [List.append_assoc]
      · exact .cons hcuts hscans
      · rwa [List.length_append, ← Nat.add_assoc]

/-- **A screened text is scanned to its end, or up to a place where the tokenizer is stuck.** -/
theorem tokenize_scans {cs : List Char} (hscreen : screen cs = .ok ()) :
    (∃ words ts, Scans [] 0 cs words ts ∧ tokenize cs = .ok ts) ∨
    ∃ front rest words ts err, cs = front ++ rest ∧ Scans rest 0 front words ts ∧
      Stuck front.length rest err ∧ tokenize cs = .error err := by
  have h := tokenizeFrom_scans (plain_of_screen hscreen) (pointsInside_of_screen hscreen) 0 []
  simpa only [tokenize, List.reverse_nil, List.nil_append, Nat.zero_add] using h

/-! ## A text has one run -/

theorem FirstNumber.ne_nil {text w rest : List Char} (h : FirstNumber text w rest) : text ≠ [] := by
  rw [h.split]
  exact List.append_ne_nil_of_left_ne_nil (IsWord.number h.isNumber).ne_nil rest

theorem FirstNumber.ne_cons {text w rest : List Char} {c : Char} (h : FirstNumber text w rest)
    (hc : c.isDigit = false) (u : List Char) : text ≠ c :: u := by
  rintro rfl
  obtain ⟨d, v, rfl⟩ := List.exists_cons_of_ne_nil (IsWord.number h.isNumber).ne_nil
  obtain ⟨rfl, -⟩ := List.cons.inj h.split
  exact absurd h.isNumber.head (by simp [hc])

theorem FirstNumber.unique {text w w' rest rest' : List Char} (h : FirstNumber text w rest)
    (h' : FirstNumber text w' rest') : w = w' ∧ rest = rest' :=
  h.longest.unique h'.longest (.number h.isNumber) (.number h'.isNumber)
    (h.split.symm.trans h'.split)

/-- A word that is taken off a text with a number in front is that number. -/
theorem FirstNumber.of_cuts {text w w' rest rest' : List Char} {l : Lexeme}
    (h : FirstNumber text w rest) (hcuts : Cuts w' l rest') (htext : text = w' ++ rest') :
    rest = rest' ∧ ∃ value, l = .number value ∧ Decimal.ofChars w = .ok value := by
  obtain ⟨rfl, rfl⟩ := h.longest.unique hcuts.longest (.number h.isNumber) hcuts.spells.isWord
    (h.split.symm.trans htext)
  refine ⟨rfl, ?_⟩
  obtain ⟨c, u, rfl⟩ := List.exists_cons_of_ne_nil hcuts.spells.isWord.ne_nil
  cases hcuts.spells with
  | number _ hvalue => exact ⟨_, rfl, hvalue⟩
  | name hname => exact absurd h.isNumber.head (by simp [hname.head.2])
  | symbol hs => exact absurd h.isNumber.head (by simp [isDigit_eq_false (Symbol.text_head hs).1])

theorem Cuts.unique {w w' rest rest' : List Char} {l l' : Lexeme} (h : Cuts w l rest)
    (h' : Cuts w' l' rest') (heq : w ++ rest = w' ++ rest') : w = w' ∧ l = l' ∧ rest = rest' := by
  obtain ⟨rfl, rfl⟩ := h.longest.unique h'.longest h.spells.isWord h'.spells.isWord heq
  exact ⟨rfl, h.spells.unique h'.spells, rfl⟩

/-- No word can be taken off the text. -/
def Uncut (text : List Char) : Prop := ∀ w l rest, Cuts w l rest → text ≠ w ++ rest

theorem uncut_nil : Uncut [] := by
  intro w l rest hcuts heq
  exact hcuts.spells.isWord.ne_nil (List.append_eq_nil_iff.1 heq.symm).1

section
variable {position : Nat} {text : List Char} {err err' : EvalError}

theorem Stuck.ne_nil (h : Stuck position text err) : text ≠ [] := by
  cases h with
  | nameAfterNumber hnumber => exact hnumber.ne_nil
  | strayPoint htext => simp [htext]
  | loneEquals htext => simp [htext]
  | outOfRange hnumber => exact hnumber.ne_nil

theorem Stuck.uncut (h : Stuck position text err) : Uncut text := by
  intro w l rest hcuts htext
  have hword := hcuts.spells.isWord
  cases h with
  | nameAfterNumber hnumber hc =>
    obtain ⟨rfl, value, rfl, -⟩ := hnumber.of_cuts hcuts htext
    have hname := hcuts.bounded nofun _ rfl
    rw [(startsName_iff.1 hc).1] at hname
    cases hname
  | strayPoint hpoint =>
    obtain ⟨c, u, rfl⟩ := List.exists_cons_of_ne_nil hword.ne_nil
    obtain ⟨rfl, -⟩ := List.cons.inj (hpoint.symm.trans htext)
    obtain ⟨s, hs⟩ := hword.isSymbol rfl
    exact (Symbol.text_head hs).2 rfl
  | loneEquals hequals hrest =>
    obtain ⟨c, u, rfl⟩ := List.exists_cons_of_ne_nil hword.ne_nil
    obtain ⟨rfl, rfl⟩ := List.cons.inj (hequals.symm.trans htext)
    -- The only word that starts with `=` goes on with another one.
    obtain ⟨s, hs⟩ := hword.isSymbol rfl
    cases s <;> cases hs
    exact hrest rfl
  | outOfRange hnumber _ hvalue =>
    obtain ⟨-, value, -, hvalue'⟩ := hnumber.of_cuts hcuts htext
    rw [hvalue] at hvalue'
    cases hvalue'

theorem Stuck.unique (h : Stuck position text err) (h' : Stuck position text err') : err = err' := by
  cases h with
  | nameAfterNumber hnumber hc =>
    cases h' with
    | nameAfterNumber hnumber' => rw [(hnumber.unique hnumber').1]
    | strayPoint htext => exact absurd htext (hnumber.ne_cons rfl _)
    | loneEquals htext => exact absurd htext (hnumber.ne_cons rfl _)
    | outOfRange hnumber' hrest =>
      obtain ⟨rfl, rfl⟩ := hnumber.unique hnumber'
      exact absurd (startsName_iff.1 hc).1 (by simp [hrest _ rfl])
  | strayPoint htext =>
    cases h' with
    | nameAfterNumber hnumber => exact absurd htext (hnumber.ne_cons rfl _)
    | strayPoint => rfl
    | loneEquals htext' => cases htext.symm.trans htext'
    | outOfRange hnumber => exact absurd htext (hnumber.ne_cons rfl _)
  | loneEquals htext =>
    cases h' with
    | nameAfterNumber hnumber => exact absurd htext (hnumber.ne_cons rfl _)
    | strayPoint htext' => cases htext.symm.trans htext'
    | loneEquals => rfl
    | outOfRange hnumber => exact absurd htext (hnumber.ne_cons rfl _)
  | outOfRange hnumber hrest =>
    cases h' with
    | nameAfterNumber hnumber' hc =>
      obtain ⟨rfl, rfl⟩ := hnumber.unique hnumber'
      exact absurd (startsName_iff.1 hc).1 (by simp [hrest _ rfl])
    | strayPoint htext => exact absurd htext (hnumber.ne_cons rfl _)
    | loneEquals htext => exact absurd htext (hnumber.ne_cons rfl _)
    | outOfRange hnumber' => rw [(hnumber.unique hnumber').1]

end

/-- **A text has one run.** Each word is the longest one in its place, and a run goes on for as long
as there is one. -/
theorem Scans.unique {rest rest' front front' : List Char} {position : Nat}
    {words words' : List (List Char)} {ts ts' : List Token} (h : Scans rest position front words ts)
    (h' : Scans rest' position front' words' ts') (hend : Uncut rest) (hend' : Uncut rest')
    (heq : front ++ rest = front' ++ rest') : front = front' ∧ rest = rest' ∧ ts = ts' := by
  induction h generalizing front' words' ts' with
  | nil =>
    cases h' with
    | nil => exact ⟨rfl, heq, rfl⟩
    | cons hcuts' => exact absurd (heq.trans (List.append_assoc ..)) (hend _ _ _ hcuts')
  | cons hcuts _ ih =>
    cases h' with
    | nil => exact absurd (heq.symm.trans (List.append_assoc ..)) (hend' _ _ _ hcuts)
    | cons hcuts' hnext' =>
      rw [List.append_assoc, List.append_assoc] at heq
      obtain ⟨rfl, rfl, hrest⟩ := hcuts.unique hcuts' heq
      obtain ⟨rfl, rfl, rfl⟩ := ih hnext' hrest
      exact ⟨rfl, rfl, rfl⟩

end Flowchart.Token
