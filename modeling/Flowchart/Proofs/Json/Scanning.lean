/-
The leaves of a JSON text, written and scanned again. White space is passed over, a string comes
back whatever characters it is made of, and so does an integer of 64 bits, as long as nothing
follows that could be a part of it.
-/
import Flowchart.Json.Node
import Flowchart.Json.Write
import Flowchart.Proofs.Numerals

namespace Flowchart.Json

/-- White space only. -/
def Blanks (ws : List Char) : Prop := ∀ c ∈ ws, Scan.isBlank c = true

theorem blanks_nil : Blanks [] := nofun

theorem blanks_append {ws ws' : List Char} (h : Blanks ws) (h' : Blanks ws') : Blanks (ws ++ ws') :=
  fun c hc => (List.mem_append.1 hc).elim (h c) (h' c)

namespace Scan

theorem skipBlanks_append {ws : List Char} (h : Blanks ws) {c : Char} (hc : isBlank c = false)
    (rest : List Char) : skipBlanks (ws ++ c :: rest) = c :: rest := by
  rw [skipBlanks, List.dropWhile_append_of_pos h, List.dropWhile_cons_of_neg (by simp [hc])]

theorem word_append (es rest : List Char) (h : rest.length ≤ (es ++ rest).length) :
    word es (es ++ rest) = .ok ⟨rest, h⟩ := by
  induction es with
  | nil => rfl
  | cons e es ih => simp [word, ih (by simp)]

/-! ## Strings -/

theorem hexValue?_hexDigit : ∀ n < 16, Text.hexValue? (hexDigit n) = some n := by
  decide

/-- The digits of a control character give its number. -/
theorem fourHex_hexDigit {c : Char} (hc : c.toNat < 0x20) (rest : List Char) :
    ∃ h, fourHex ('0' :: '0' :: hexDigit (c.toNat / 16) :: hexDigit (c.toNat % 16) :: rest) =
      .ok (c.toNat, ⟨rest, h⟩) := by
  have hzero : Text.hexValue? '0' = some 0 := by decide
  have hhigh : Text.hexValue? (hexDigit (c.toNat / 16)) = some (c.toNat / 16) :=
    hexValue?_hexDigit _ (by omega)
  have hlow : Text.hexValue? (hexDigit (c.toNat % 16)) = some (c.toNat % 16) :=
    hexValue?_hexDigit _ (by omega)
  refine ⟨by simp only [List.length_cons]; omega, ?_⟩
  simp only [fourHex, hzero, hhigh, hlow, Except.ok.injEq, Prod.mk.injEq, and_true]
  omega

theorem unicodeEscape_hexDigit {c : Char} (hc : c.toNat < 0x20) (rest : List Char) :
    ∃ h, unicodeEscape
        ('0' :: '0' :: hexDigit (c.toNat / 16) :: hexDigit (c.toNat % 16) :: rest) =
      .ok (.ok c, ⟨rest, h⟩) := by
  have hleading : isLeading c.toNat = false := by simp [isLeading]; omega
  have htrailing : isTrailing c.toNat = false := by simp [isTrailing]; omega
  obtain ⟨h, hfour⟩ := fourHex_hexDigit hc rest
  exact ⟨h, by simp [unicodeEscape, hfour, hleading, htrailing]⟩

/-- A character is written by a letter that stands for it, by its number, or as it is. -/
theorem escapeChar_cases (c : Char) :
    (∃ e, shortEscape? e = some c ∧ escapeChar c = ['\\', e]) ∨
    (c.toNat < 0x20 ∧ escapeChar c =
      ['\\', 'u', '0', '0', hexDigit (c.toNat / 16), hexDigit (c.toNat % 16)]) ∨
    (c ≠ '"' ∧ c ≠ '\\' ∧ 0x20 ≤ c.toNat ∧ escapeChar c = [c]) := by
  unfold escapeChar
  split
  next h => exact .inl ⟨'"', by subst h; decide, rfl⟩
  next hquote =>
  split
  next h => exact .inl ⟨'\\', by subst h; decide, rfl⟩
  next hslash =>
  split
  next h => exact .inl ⟨'b', by subst h; decide, rfl⟩
  split
  next h => exact .inl ⟨'f', by subst h; decide, rfl⟩
  split
  next h => exact .inl ⟨'n', by subst h; decide, rfl⟩
  split
  next h => exact .inl ⟨'r', by subst h; decide, rfl⟩
  split
  next h => exact .inl ⟨'t', by subst h; decide, rfl⟩
  split
  next h => exact .inr (.inl ⟨h, rfl⟩)
  next h => exact .inr (.inr ⟨hquote, hslash, Nat.le_of_not_lt h, rfl⟩)

/-- A character is read from the way it is written. -/
theorem string_escapeChar (c : Char) (n : Nat) (done rest : List Char)
    (h : (escapeChar c ++ rest).length ≤ n) (h' : rest.length ≤ n) :
    string n done none (escapeChar c ++ rest) h = string n (c :: done) none rest h' := by
  rcases escapeChar_cases c with ⟨e, he, hc⟩ | ⟨hcontrol, hc⟩ | ⟨hquote, hslash, hplain, hc⟩
  · have hu : e ≠ 'u' := by
      rintro rfl
      cases he
    simp [hc, string, hu, he]
  · obtain ⟨h'', hescape⟩ := unicodeEscape_hexDigit hcontrol rest
    simp [hc, string, hescape]
  · simp only [hc, List.cons_append, List.nil_append]
    rw [string.eq_def]
    simp [hquote, hslash, Nat.not_lt.2 hplain]

/-- A string is read from the text between its quotes. -/
theorem string_escaped (s : List Char) (n : Nat) (done rest : List Char)
    (h : (s.flatMap escapeChar ++ '"' :: rest).length ≤ n) (h' : rest.length ≤ n) :
    string n done none (s.flatMap escapeChar ++ '"' :: rest) h =
      ⟨.ok (String.ofList (done.reverse ++ s)), .ok ⟨rest, h'⟩⟩ := by
  induction s generalizing done with
  | nil =>
    simp only [List.flatMap_nil, List.nil_append, List.append_nil]
    rw [string.eq_def]
    simp
  | cons c s ih =>
    simp only [List.flatMap_cons, List.append_assoc] at h ⊢
    have hs : (s.flatMap escapeChar ++ '"' :: rest).length ≤ n := by
      rw [List.length_append] at h
      omega
    rw [string_escapeChar c n done _ h hs, ih (c :: done) hs]
    simp

/-! ## Numbers -/

/-- Nothing at the front of the text could go on with a number. -/
def Ends (rest : List Char) : Prop :=
  ∀ c ∈ rest.head?, c.isDigit = false ∧ c ≠ '.' ∧ c ≠ 'e' ∧ c ≠ 'E'

theorem wholeDigits_eq {m : Nat} {ds : List Char} (h : Nat.ofDigitChars 10 ds m < significandBound) :
    wholeDigits m 0 ds = (Nat.ofDigitChars 10 ds m, 0) := by
  induction ds generalizing m with
  | nil => rfl
  | cons c ds ih =>
    have hfits : 10 * m + Text.digitValue c < significandBound :=
      Nat.lt_of_le_of_lt (Text.le_ofDigitChars _ ds) h
    simp only [wholeDigits, hfits, and_self, if_true]
    exact ih h

/-- The digits of a number that has room are read as that number. -/
theorem number_digits {n : Nat} (hn : n < significandBound) (negative : Bool) {rest : List Char}
    (hrest : Ends rest) :
    ∃ h, number negative (Text.digits n ++ rest) =
      ⟨integerValue negative n 0, .ok ⟨rest, h⟩⟩ := by
  have hdigits : ∀ c ∈ Text.digits n, c.isDigit = true := fun c => Text.isDigit_of_mem_digits
  have hvalue : Nat.ofDigitChars 10 (Text.digits n) 0 = n := Nat.ofDigitChars_ten_toDigits
  have hends : rest.takeWhile Char.isDigit = [] ∧ rest.dropWhile Char.isDigit = rest := by
    cases rest with
    | nil => exact ⟨rfl, rfl⟩
    | cons c rest => simp [(hrest c rfl).1]
  have htake : (Text.digits n ++ rest).takeWhile Char.isDigit = Text.digits n := by
    rw [List.takeWhile_append_of_pos hdigits, hends.1, List.append_nil]
  have hdrop : (Text.digits n ++ rest).dropWhile Char.isDigit = rest := by
    rw [List.dropWhile_append_of_pos hdigits, hends.2]
  have hsome : (Text.digits n).isEmpty = false := by simp [Text.digits]
  have hzero : ¬((Text.digits n).head? = some '0' ∧ 1 < (Text.digits n).length) := by
    rintro ⟨hhead, hlength⟩
    obtain rfl := Text.head?_digits_eq_zero hhead
    exact absurd hlength (by decide)
  have hwhole : wholeDigits 0 0 (Text.digits n) = (n, 0) := by
    rw [wholeDigits_eq (hvalue.symm ▸ hn), hvalue]
  have hlength : rest.length ≤ (Text.digits n ++ rest).length - 1 := by
    have hpos : 0 < (Text.digits n).length := Nat.length_toDigits_pos
    rw [List.length_append]
    omega
  refine ⟨hlength, ?_⟩
  simp only [number, htake, hsome, hzero, hwhole, if_false, Bool.false_eq_true, dite_false]
  split
  next hnil =>
    obtain rfl : rest = [] := hdrop.symm.trans hnil
    rfl
  next c rest' hcons =>
    obtain rfl : rest = c :: rest' := hdrop.symm.trans hcons
    obtain ⟨-, hpoint, hlower, hupper⟩ := hrest c rfl
    simp [hpoint, hlower, hupper]

end Scan

end Flowchart.Json
