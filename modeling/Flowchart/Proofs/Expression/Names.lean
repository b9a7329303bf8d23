/-
The names in a text, found in two ways. The scan of the raw text lists the
maximal runs of name characters that do not start with a digit, from left to
right (`finds`); on a screened text that can be tokenized these are the
names among its tokens (`names_of_tokenize`). So evaluating a text in one go
and evaluating it compiled agree (`evaluate_agrees`).
-/
import Flowchart.Proofs.Expression.Language

namespace Flowchart.Screen

open Words

/-! ## The scan for runs -/

theorem runsFrom_eq_append (run : List Char) (found : List (List Char)) (cs : List Char) :
    runsFrom run found cs = found.reverse ++ runsFrom run [] cs := by
  induction cs generalizing run found with
  | nil =>
    by_cases h : run.isEmpty = true <;> simp [runsFrom, addRun, h]
  | cons c cs ih =>
    simp only [runsFrom]
    split
    next => exact ih (c :: run) found
    next =>
      rw [ih [] (addRun run found), ih [] (addRun run [])]
      by_cases h : run.isEmpty = true <;> simp [addRun, h]

/-- A run goes on as long as name characters follow. -/
theorem runsFrom_append {w : List Char} (hw : ∀ c ∈ w, isNameChar c = true)
    (run : List Char) (found : List (List Char)) (rest : List Char) :
    runsFrom run found (w ++ rest) = runsFrom (w.reverse ++ run) found rest := by
  induction w generalizing run with
  | nil => rfl
  | cons c w ih =>
    rw [List.cons_append, runsFrom, if_pos (hw c (by simp)), ih fun d hd => hw d (by simp [hd])]
    simp

/-- A run ends where no name character follows. -/
theorem runsFrom_of_bounded {rest : List Char} (hrest : ∀ c ∈ rest.head?, isNameChar c = false)
    (run : List Char) : runsFrom run [] rest = (addRun run []).reverse ++ runsFrom [] [] rest := by
  cases rest with
  | nil => simp [runsFrom, addRun]
  | cons c rest =>
    have hc := hrest c rfl
    simp only [runsFrom, hc, Bool.false_eq_true, if_false]
    rw [runsFrom_eq_append [] (addRun run [])]
    rfl

theorem runsFrom_run {w rest : List Char} (hne : w ≠ []) (hw : ∀ c ∈ w, isNameChar c = true)
    (hrest : ∀ c ∈ rest.head?, isNameChar c = false) :
    runsFrom [] [] (w ++ rest) = w :: runsFrom [] [] rest := by
  rw [runsFrom_append hw, runsFrom_of_bounded hrest, List.append_nil, addRun, if_neg (by simpa using hne)]
  simp

/-! ## The names of a text, piece by piece -/

theorem names_cons_of_not {c : Char} (hc : isNameChar c = false) (rest : List Char) :
    names (c :: rest) = names rest := by
  simp [names, runsFrom, hc, addRun]

theorem names_append_of_not {w : List Char} (hw : ∀ c ∈ w, isNameChar c = false)
    (rest : List Char) : names (w ++ rest) = names rest := by
  induction w with
  | nil => rfl
  | cons c w ih =>
    rw [List.cons_append, names_cons_of_not (hw c (by simp)), ih fun d hd => hw d (by simp [hd])]

/-- A run is a name unless it starts with a digit. -/
theorem names_run {w rest : List Char} (hne : w ≠ []) (hw : ∀ c ∈ w, isNameChar c = true)
    (hrest : ∀ c ∈ rest.head?, isNameChar c = false) :
    names (w ++ rest) =
      if w.head?.any Char.isDigit then names rest else String.ofList w :: names rest := by
  rw [names, runsFrom_run hne hw hrest, List.filter_cons]
  by_cases h : w.head?.any Char.isDigit = true <;> simp [names, h]

theorem isName_iff {w : List Char} :
    IsName w ↔
      w ≠ [] ∧ (∀ c ∈ w, isNameChar c = true) ∧ ¬w.head?.any Char.isDigit = true := by
  constructor
  · intro h
    refine ⟨(IsWord.name h).ne_nil, h.isNameChar, ?_⟩
    cases w with
    | nil => exact h.elim
    | cons c w => simp [h.head.2]
  · rintro ⟨hne, hw, hd⟩
    cases w with
    | nil => exact hne rfl
    | cons c w =>
      have hc : c.isDigit = false := by simpa using hd
      exact ⟨startsName_iff.2 ⟨hw c (by simp), hc⟩, fun d hd => isNameChar_iff.1 (hw d (by simp [hd]))⟩

/-- A text is cut into characters that belong to no name and maximal runs of the others. -/
theorem runs_induction {P : List Char → Prop} (nil : P [])
    (skip : ∀ c rest, isNameChar c = false → P rest → P (c :: rest))
    (run : ∀ w rest, w ≠ [] → (∀ c ∈ w, isNameChar c = true) →
      (∀ c ∈ rest.head?, isNameChar c = false) → P rest → P (w ++ rest))
    (cs : List Char) : P cs := by
  induction hn : cs.length using Nat.strong_induction_on generalizing cs with
  | _ n ih =>
    subst hn
    cases cs with
    | nil => exact nil
    | cons c cs =>
      by_cases hc : isNameChar c = true
      · have hlt := @Token.length_splitName_snd_lt c cs hc
        have hrun := run ((c :: cs).takeWhile isNameChar) ((c :: cs).dropWhile isNameChar)
          (by simp [hc]) (List.all_eq_true.1 List.all_takeWhile)
          (head?_dropWhile_eq (c :: cs)) (ih _ hlt _ rfl)
        rwa [List.takeWhile_append_dropWhile] at hrun
      · exact skip c cs (Bool.eq_false_iff.2 hc) (ih cs.length (by simp) cs rfl)

/-! ## Where a name stands -/

/-- The name `word` stands between `front` and `rest`: it cannot be extended on either side. -/
structure NameAt (cs front word rest : List Char) : Prop where
  split : cs = front ++ (word ++ rest)
  isName : IsName word
  before : ∀ c ∈ front.getLast?, isNameChar c = false
  after : ∀ c ∈ rest.head?, isNameChar c = false

theorem NameAt.head {cs word rest : List Char} (h : NameAt cs [] word rest) :
    ∃ c ∈ cs.head?, isNameChar c = true := by
  obtain ⟨c, u, rfl⟩ := List.exists_cons_of_ne_nil (IsWord.name h.isName).ne_nil
  exact ⟨c, by rw [h.split]; rfl, h.isName.head.1⟩

/-- Text in front of a bounded text moves the names in it. -/
theorem NameAt.append {w cs front word rest : List Char}
    (hcs : ∀ c ∈ cs.head?, isNameChar c = false) (h : NameAt cs front word rest) :
    NameAt (w ++ cs) (w ++ front) word rest := by
  refine ⟨by rw [h.split, List.append_assoc], h.isName, fun d hd => ?_, h.after⟩
  by_cases hfront : front = []
  · subst hfront
    obtain ⟨c, hc, hname⟩ := h.head
    rw [hcs c hc] at hname
    cases hname
  · rw [List.getLast?_append_of_ne_nil _ hfront] at hd
    exact h.before d hd

theorem NameAt.cons {c : Char} {cs front word rest : List Char} (hc : isNameChar c = false)
    (h : NameAt cs front word rest) : NameAt (c :: cs) (c :: front) word rest := by
  refine ⟨by rw [h.split]; rfl, h.isName, fun d hd => ?_, h.after⟩
  cases front with
  | nil =>
    cases hd
    exact hc
  | cons f front => exact h.before d (by rwa [List.getLast?_cons_cons] at hd)

theorem NameAt.of_append {w cs front word rest : List Char}
    (h : NameAt (w ++ cs) (w ++ front) word rest) : NameAt cs front word rest := by
  refine ⟨?_, h.isName, fun d hd => h.before d ?_, h.after⟩
  · exact List.append_cancel_left (h.split.trans (List.append_assoc ..))
  · rw [List.getLast?_append, Option.mem_def.1 hd, Option.some_or]
    rfl

theorem NameAt.of_cons {c : Char} {cs front word rest : List Char} (hc : isNameChar c = false)
    (h : NameAt (c :: cs) front word rest) :
    ∃ front', front = c :: front' ∧ NameAt cs front' word rest := by
  cases front with
  | nil =>
    obtain ⟨d, hd, hname⟩ := h.head
    cases hd
    rw [hc] at hname
    cases hname
  | cons f front =>
    obtain ⟨rfl, -⟩ := List.cons.inj h.split
    exact ⟨front, rfl, NameAt.of_append (w := [c]) h⟩

/-- A name in a text with a run in front is that run or stands behind it. -/
theorem NameAt.of_run {w cs front word rest : List Char} (hw : ∀ c ∈ w, isNameChar c = true)
    (hcs : ∀ c ∈ cs.head?, isNameChar c = false) (h : NameAt (w ++ cs) front word rest) :
    (front = [] ∧ word = w) ∨ ∃ front', front = w ++ front' ∧ NameAt cs front' word rest := by
  rcases List.append_eq_append_iff.1 h.split with ⟨front', rfl, -⟩ | ⟨u, rfl, hu⟩
  · exact .inr ⟨front', rfl, h.of_append⟩
  · left
    cases hlast : front.getLast? with
    | some d =>
      have hname := hw d (by simp [List.mem_of_getLast? hlast])
      rw [h.before d hlast] at hname
      cases hname
    | none =>
      obtain rfl := List.getLast?_eq_none_iff.1 hlast
      have hword := (takeWhile_append_eq rest h.isName.isNameChar h.after).1
      have hrun := (takeWhile_append_eq cs hw hcs).1
      rw [List.nil_append] at hrun ⊢
      rw [hu, hrun] at hword
      exact ⟨rfl, hword.symm⟩

/-- The leftmost name with a property. -/
def Leftmost (p : String → Bool) (cs : List Char) (x : String) : Prop :=
  ∃ front word rest, NameAt cs front word rest ∧ x = String.ofList word ∧ p x = true ∧
    ∀ front' word' rest', NameAt cs front' word' rest' → front'.length < front.length →
      p (String.ofList word') = false

/-- Looking through the scanned names finds the leftmost name with a property. -/
structure Finds (p : String → Bool) (cs : List Char) : Prop where
  leftmost : ∀ x, (names cs).find? p = some x → Leftmost p cs x
  none : (names cs).find? p = none →
    ∀ front word rest, NameAt cs front word rest → p (String.ofList word) = false

theorem Finds.append {p : String → Bool} {w cs : List Char} (h : Finds p cs)
    (hnames : (names (w ++ cs)).find? p = (names cs).find? p)
    (hin : ∀ front word rest, NameAt cs front word rest → NameAt (w ++ cs) (w ++ front) word rest)
    (hout : ∀ front word rest, NameAt (w ++ cs) front word rest →
      p (String.ofList word) = false ∨ ∃ front', front = w ++ front' ∧ NameAt cs front' word rest) :
    Finds p (w ++ cs) := by
  constructor
  · intro x hx
    obtain ⟨front, word, rest, hat, heq, hp, hfirst⟩ := h.leftmost x (hnames ▸ hx)
    refine ⟨w ++ front, word, rest, hin _ _ _ hat, heq, hp, fun front' word' rest' hat' hlt => ?_⟩
    rcases hout _ _ _ hat' with hp' | ⟨front'', rfl, hat''⟩
    · exact hp'
    · refine hfirst _ _ _ hat'' ?_
      simp only [List.length_append] at hlt
      omega
  · intro hnone front word rest hat
    rcases hout _ _ _ hat with hp | ⟨front', -, hat'⟩
    · exact hp
    · exact h.none (hnames ▸ hnone) _ _ _ hat'

/-- **The scan lists the names of a text from left to right.** -/
theorem finds (p : String → Bool) (cs : List Char) : Finds p cs := by
  induction cs using runs_induction with
  | nil =>
    refine ⟨nofun, fun _ front word rest hat => ?_⟩
    have hnil := List.append_eq_nil_iff.1 (List.append_eq_nil_iff.1 hat.split.symm).2
    exact absurd hnil.1 (IsWord.name hat.isName).ne_nil
  | skip c rest hc ih =>
    refine ih.append (w := [c]) (by rw [List.singleton_append, names_cons_of_not hc])
      (fun _ _ _ => NameAt.cons hc) fun _ _ _ hat => .inr (hat.of_cons hc)
  | run w rest hne hw hrest ih =>
    by_cases hfound : ¬w.head?.any Char.isDigit = true ∧ p (String.ofList w) = true
    · obtain ⟨hd, hp⟩ := hfound
      have hat : NameAt (w ++ rest) [] w rest := ⟨rfl, isName_iff.2 ⟨hne, hw, hd⟩, nofun, hrest⟩
      have hfind : (names (w ++ rest)).find? p = some (String.ofList w) := by
        rw [names_run hne hw hrest, if_neg hd, List.find?_cons_of_pos hp]
      refine ⟨fun x hx => ?_, fun hnone => ?_⟩
      · cases hfind.symm.trans hx
        exact ⟨[], w, rest, hat, rfl, hp, fun _ _ _ _ hlt => absurd hlt (Nat.not_lt_zero _)⟩
      · cases hfind.symm.trans hnone
    · refine ih.append ?_ (fun _ _ _ => NameAt.append hrest) fun front word rest' hat => ?_
      · rw [names_run hne hw hrest]
        split
        next => rfl
        next hd =>
          refine List.find?_cons_of_neg fun hp => hfound ⟨hd, hp⟩
      · rcases hat.of_run hw hrest with ⟨-, rfl⟩ | hbehind
        · exact .inl (Bool.eq_false_iff.2 fun hp => hfound ⟨(isName_iff.1 hat.isName).2.2, hp⟩)
        · exact .inr hbehind

/-! ## The names among the tokens -/

theorem names_of_digits {w rest : List Char} (hw : IsDigits w)
    (hrest : ∀ c ∈ rest.head?, isNameChar c = false) : names (w ++ rest) = names rest := by
  obtain ⟨c, u, rfl⟩ := List.exists_cons_of_ne_nil hw.1
  rw [names_run hw.1 (fun d hd => isNameChar_of_isDigit (hw.2 d hd)) hrest, if_pos (by simp [hw.head])]

theorem names_of_number {w rest : List Char} (hw : IsNumber w)
    (hrest : ∀ c ∈ rest.head?, isNameChar c = false) : names (w ++ rest) = names rest := by
  cases hw with
  | whole hw => exact names_of_digits hw hrest
  | @point whole places hwhole hplaces heq =>
    calc names (w ++ rest)
        = names (whole ++ '.' :: (places ++ rest)) := by rw [heq, List.append_assoc, List.cons_append]
      _ = names ('.' :: (places ++ rest)) := names_of_digits hwhole (by rintro _ ⟨⟩; rfl)
      _ = names (places ++ rest) := names_cons_of_not rfl _
      _ = names rest := names_of_digits hplaces hrest

theorem Symbol.not_isNameChar_text (s : Symbol) : ∀ c ∈ s.text, isNameChar c = false := by
  have hall : (s.text.all fun c => !isNameChar c) = true := by cases s <;> rfl
  intro c hc
  simpa using List.all_eq_true.1 hall c hc

/-- **The scan of a screened text finds the names among its tokens.** -/
theorem names_of_tokenize {cs : List Char} {ts : List Token} (hscreen : screen cs = .ok ())
    (h : Token.tokenize cs = .ok ts) : names cs = ts.filterMap Token.name? := by
  refine Token.tokenize_induction (P := fun cs ts => names cs = ts.filterMap Token.name?) rfl ?_
    (pointsInside_of_screen hscreen) h
  rintro w rest ts ⟨l, position⟩ hcuts ih
  have hbounded := hcuts.bounded
  cases hcuts.spells with
  | number hw =>
    rw [names_of_number hw (hbounded nofun), ih]
    rfl
  | name hw =>
    obtain ⟨hne, hchars, hd⟩ := isName_iff.1 hw
    rw [names_run hne hchars (hbounded nofun), if_neg hd, ih]
    rfl
  | @symbol x hw =>
    rw [hw, names_append_of_not (Symbol.not_isNameChar_text x), ih]
    rfl

end Flowchart.Screen

namespace Flowchart.Expression

open Screen

/-! ## Evaluating in one go -/

theorem requireBound_eraseDups (b : Bindings) (xs : List String) :
    requireBound b xs.eraseDups = requireBound b xs := by
  rw [requireBound, requireBound, find?_eraseDups]

theorem evaluate_of_refused {source : String} {err : EvalError} (b : Bindings)
    (h : screen (normalizeChars source) = .error err) :
    Flowchart.evaluate source b = .error err := by
  simp only [Flowchart.evaluate, h]
  rfl

theorem evaluate_of_screened {source : String} (b : Bindings)
    (h : screen (normalizeChars source) = .ok ()) :
    Flowchart.evaluate source b =
      (requireBound b (Screen.names (normalizeChars source))).bind fun _ =>
        (read (normalizeChars source)).bind fun (tree, _) => tree.eval b := by
  simp only [Flowchart.evaluate, h]
  rfl

/-- The text passes the screen and an unbound name stands in it. -/
def MentionsUnbound (b : Bindings) (cs : List Char) : Prop :=
  screen cs = .ok () ∧ ∃ front word rest, NameAt cs front word rest ∧ b (String.ofList word) = none

/-- The names of a screened text are checked from left to right. -/
theorem requireBound_names {b : Bindings} {cs : List Char} (hscreen : screen cs = .ok ()) :
    (MentionsUnbound b cs →
      ∃ x, Leftmost (fun x => (b x).isNone) cs x ∧
        requireBound b (Screen.names cs) = .error (.unknownName x)) ∧
    (¬MentionsUnbound b cs → requireBound b (Screen.names cs) = .ok ()) := by
  have hfinds := finds (fun x => (b x).isNone) cs
  unfold requireBound
  split
  next x hx =>
    have hleftmost := hfinds.leftmost x hx
    refine ⟨fun _ => ⟨x, hleftmost, rfl⟩, fun hbound => absurd ?_ hbound⟩
    obtain ⟨front, word, rest, hat, rfl, hnone, -⟩ := hleftmost
    exact ⟨hscreen, front, word, rest, hat, Option.isNone_iff_eq_none.1 hnone⟩
  next hnone =>
    refine ⟨fun hunbound => ?_, fun _ => rfl⟩
    obtain ⟨-, front, word, rest, hat, hword⟩ := hunbound
    have hsome := hfinds.none hnone front word rest hat
    rw [hword] at hsome
    cases hsome

/-- **Evaluating a text in one go and evaluating it compiled agree.** If the text does not
compile, the error is the same unless an unbound name stands in a screened text: then the
leftmost such name is reported. -/
theorem evaluate_agrees (source : String) (b : Bindings) :
    (∀ e, compile source = .ok e → Flowchart.evaluate source b = e.evaluate b) ∧
    ∀ err, compile source = .error err →
      (MentionsUnbound b (normalizeChars source) →
        ∃ x, Leftmost (fun x => (b x).isNone) (normalizeChars source) x ∧
          Flowchart.evaluate source b = .error (.unknownName x)) ∧
      (¬MentionsUnbound b (normalizeChars source) →
        Flowchart.evaluate source b = .error err) := by
  constructor
  · intro e he
    obtain ⟨hscreen, -, hread⟩ := compile_eq_ok_iff.1 he
    obtain ⟨ts, hts, -, hnames⟩ := read_eq_ok_iff.1 hread
    rw [evaluate_of_screened b hscreen, hread, names_of_tokenize hscreen hts, Expression.evaluate,
      hnames, requireBound_eraseDups]
    rfl
  · intro err herr
    cases hscreen : screen (normalizeChars source) with
    | error err' =>
      have heq := Except.error.inj ((compile_of_refused hscreen).symm.trans herr)
      refine ⟨fun h => ?_, fun _ => by rw [evaluate_of_refused b hscreen, heq]⟩
      cases hscreen.symm.trans h.1
    | ok =>
      have hread : read (normalizeChars source) = .error err := by
        rw [compile_of_screened hscreen] at herr
        cases hread : read (normalizeChars source) with
        | error err' =>
          rw [hread] at herr
          cases herr
          rfl
        | ok p =>
          rw [hread] at herr
          cases herr
      obtain ⟨hunbound, hbound⟩ := requireBound_names (b := b) hscreen
      rw [evaluate_of_screened b hscreen]
      refine ⟨fun h => ?_, fun h => by rw [hbound h, hread]; rfl⟩
      obtain ⟨x, hleftmost, hx⟩ := hunbound h
      exact ⟨x, hleftmost, by rw [hx]; rfl⟩

/-- An unbound name is reported before a bracket that is not closed. -/
theorem evaluate_agrees_unclosed :
    let b : Bindings := fun _ => none
    compile "a - (b" = .error (.malformed 4 .unclosed) ∧
      MentionsUnbound b (normalizeChars "a - (b") ∧
      ∃ x, Leftmost (fun x => (b x).isNone) (normalizeChars "a - (b") x ∧
        Flowchart.evaluate "a - (b" b = .error (.unknownName x) := by
  intro b
  have hcompile : compile "a - (b" = .error (.malformed 4 .unclosed) := by decide +kernel
  have hat : NameAt (normalizeChars "a - (b") [] ['a'] ['-', '(', 'b'] := by
    refine ⟨by decide +kernel, ⟨.inl rfl, nofun⟩, nofun, ?_⟩
    rintro _ ⟨⟩
    rfl
  have hunbound : MentionsUnbound b (normalizeChars "a - (b") :=
    ⟨by decide +kernel, _, _, _, hat, rfl⟩
  exact ⟨hcompile, hunbound, ((evaluate_agrees "a - (b" b).2 _ hcompile).1 hunbound⟩

end Flowchart.Expression
