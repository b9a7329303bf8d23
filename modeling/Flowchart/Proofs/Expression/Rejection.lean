/-
What is refused before it is read. Evaluating a text refuses it on four grounds, in this order:
a foreign character, a call, attribute access, a name that is not bound. The offender that is
named is the leftmost one of its kind, and a text with no offender is never refused, whatever
else may be wrong with it (`evaluate_rejects`).
-/
import Flowchart.Proofs.Expression.Leaves
import Flowchart.Proofs.Expression.Names

namespace Flowchart.Screen

open Words

/-! ## The leftmost offender -/

/-- The character in front of a position; `before` stands in front of the text. -/
def charBefore (before : Option Char) (cs : List Char) : Nat → Option Char
  | 0 => before
  | p + 1 => cs[p]?

/-- The check refuses the character at position `p` between its neighbours. -/
def Refused (bad : Option Char → Char → Option Char → Bool) (before : Option Char)
    (cs : List Char) (p : Nat) : Prop :=
  ∃ c, cs[p]? = some c ∧ bad (charBefore before cs p) c cs[p + 1]? = true

section
variable {bad : Option Char → Char → Option Char → Bool} {before : Option Char} {c : Char}
  {cs : List Char}

theorem refused_cons_zero : Refused bad before (c :: cs) 0 ↔ bad before c cs.head? = true := by
  simp [Refused, charBefore, List.head?_eq_getElem?]

theorem refused_cons_succ {p : Nat} :
    Refused bad before (c :: cs) (p + 1) ↔ Refused bad (some c) cs p := by
  cases p <;> simp [Refused, charBefore]

/-- A check finds nothing, or the leftmost character that it refuses. -/
theorem firstBad_cases (bad : Option Char → Char → Option Char → Bool) (before : Option Char)
    (position : Nat) (cs : List Char) :
    (firstBad bad before position cs = none ∧ ∀ p, ¬Refused bad before cs p) ∨
    ∃ p c, firstBad bad before position cs = some (position + p, c) ∧ cs[p]? = some c ∧
      IsLeast {p | Refused bad before cs p} p := by
  induction cs generalizing before position with
  | nil => exact .inl ⟨rfl, by simp [Refused]⟩
  | cons c cs ih =>
    rw [firstBad]
    by_cases hc : bad before c cs.head? = true
    · rw [if_pos hc]
      exact .inr ⟨0, c, rfl, rfl, refused_cons_zero.2 hc, fun _ _ => Nat.zero_le _⟩
    · rw [if_neg hc]
      have hzero : ¬Refused bad before (c :: cs) 0 := fun h => hc (refused_cons_zero.1 h)
      rcases ih (some c) (position + 1) with ⟨hnone, hall⟩ | ⟨p, d, hfirst, hd, hp, hleast⟩
      · refine .inl ⟨hnone, fun p hp => ?_⟩
        cases p with
        | zero => exact hzero hp
        | succ p => exact hall p (refused_cons_succ.1 hp)
      · refine .inr ⟨p + 1, d, ?_, hd, refused_cons_succ.2 hp, fun q hq => ?_⟩
        · rw [hfirst, Nat.add_assoc, Nat.add_comm 1]
        · cases q with
          | zero => exact absurd hq hzero
          | succ q => exact Nat.succ_le_succ (hleast (refused_cons_succ.1 hq))

theorem firstBad_eq_some {p : Nat} (hc : cs[p]? = some c)
    (hp : IsLeast {p | Refused bad none cs p} p) : firstBad bad none 0 cs = some (p, c) := by
  rcases firstBad_cases bad none 0 cs with ⟨-, hall⟩ | ⟨q, d, hfirst, hd, hq⟩
  · exact absurd hp.1 (hall p)
  · obtain rfl := hp.unique hq
    obtain rfl := Option.some.inj (hc.symm.trans hd)
    rw [hfirst, Nat.zero_add]

theorem firstBad_none_iff : firstBad bad none 0 cs = none ↔ ∀ p, ¬Refused bad none cs p := by
  rcases firstBad_cases bad none 0 cs with ⟨hnone, hall⟩ | ⟨p, c, hfirst, -, hp⟩
  · exact iff_of_true hnone hall
  · exact iff_of_false (by simp [hfirst]) fun hall => hall p hp.1

end

/-! ## The three offences against the screen -/

/-- The character at `p` is no letter, digit, underscore, operator, bracket or point. -/
def ForeignAt (cs : List Char) (p : Nat) : Prop :=
  ∃ c, cs[p]? = some c ∧ ¬(c.isAlphanum = true ∨ c = '_' ∨ c ∈ "()*/+-.<>=%".toList)

/-- An opening bracket at `p` directly follows a letter, a digit, an underscore or a closing
bracket. -/
def CallAt (cs : List Char) (p : Nat) : Prop :=
  0 < p ∧ cs[p]? = some '(' ∧
    ∃ c, cs[p - 1]? = some c ∧ (c.isAlphanum = true ∨ c = '_' ∨ c = ')')

/-- The point at `p` has no digit in front of it or none behind it. -/
def AttributeAt (cs : List Char) (p : Nat) : Prop :=
  cs[p]? = some '.' ∧
    ¬(0 < p ∧ (∃ c, cs[p - 1]? = some c ∧ c.isDigit = true) ∧
      ∃ c, cs[p + 1]? = some c ∧ c.isDigit = true)

variable {cs : List Char}

theorem isSymbol_iff {c : Char} : isSymbol c = true ↔ c ∈ "()*/+-.<>=%".toList := by
  simp [isSymbol]

theorem isSymbol_eq_false_of_isNameChar {c : Char} (h : isNameChar c = true) : isSymbol c = false := by
  refine Bool.eq_false_iff.2 fun hsymbol => ?_
  have hall : ("()*/+-.<>=%".toList.all fun c => !isNameChar c) = true := by decide
  have hc := List.all_eq_true.1 hall c (isSymbol_iff.1 hsymbol)
  simp [h] at hc

theorem refused_isForeign : Refused isForeign none cs = ForeignAt cs := by
  funext p
  simp only [Refused, ForeignAt, isForeign, Bool.and_eq_true, Bool.not_eq_true', ← Bool.not_eq_true,
    isNameChar_iff, isSymbol_iff, ← not_or, or_assoc]

/-- Where no character is foreign, one that is no symbol belongs to a name or a number. -/
theorem before_call_iff (h : ∀ p, ¬ForeignAt cs p) {p : Nat} {c : Char} (hc : cs[p]? = some c) :
    (!isSymbol c || c == ')') = true ↔ c.isAlphanum = true ∨ c = '_' ∨ c = ')' := by
  have hclear : isNameChar c = true ∨ isSymbol c = true := by
    by_contra hnone
    rw [isNameChar_iff, isSymbol_iff, or_assoc] at hnone
    exact h p ⟨c, hc, hnone⟩
  rw [← or_assoc, ← isNameChar_iff]
  cases hname : isNameChar c with
  | true => simp [isSymbol_eq_false_of_isNameChar hname]
  | false =>
    have hsymbol : isSymbol c = true := by simpa [hname] using hclear
    simp [hsymbol]

theorem refused_isCall (h : ∀ p, ¬ForeignAt cs p) : Refused isCall none cs = CallAt cs := by
  funext p
  cases p with
  | zero => simp [Refused, CallAt, isCall, charBefore]
  | succ p =>
    cases hp : cs[p]? with
    | none => simp [Refused, CallAt, isCall, charBefore, hp]
    | some c =>
      simp only [Refused, CallAt, isCall, charBefore, hp, Option.any_some, Bool.and_eq_true,
        beq_iff_eq, before_call_iff h hp]
      simp [hp]

theorem refused_isAttribute : Refused isAttribute none cs = AttributeAt cs := by
  have hdigit : ∀ o : Option Char, o.any Char.isDigit = true ↔ ∃ c, o = some c ∧ c.isDigit = true := by
    intro o
    cases o <;> simp
  funext p
  cases p with
  | zero => simp [Refused, AttributeAt, isAttribute, charBefore]
  | succ p =>
    simp only [Refused, AttributeAt, isAttribute, charBefore, Bool.and_eq_true, beq_iff_eq,
      Bool.not_eq_true', ← Bool.not_eq_true, hdigit]
    simp

/-- The screen has nothing to object to. -/
structure Clear (cs : List Char) : Prop where
  noForeign : ∀ p, ¬ForeignAt cs p
  noCall : ∀ p, ¬CallAt cs p
  noAttribute : ∀ p, ¬AttributeAt cs p

theorem clear_iff : Clear cs ↔ screen cs = .ok () := by
  rw [screen_eq_ok_iff, firstBad_none_iff, firstBad_none_iff, firstBad_none_iff, refused_isForeign,
    refused_isAttribute]
  constructor
  · intro h
    rw [refused_isCall h.noForeign]
    exact ⟨h.noForeign, h.noCall, h.noAttribute⟩
  · rintro ⟨hforeign, hcall, hattribute⟩
    rw [refused_isCall hforeign] at hcall
    exact ⟨hforeign, hcall, hattribute⟩

theorem firstBad_isForeign (h : ∀ p, ¬ForeignAt cs p) : firstBad isForeign none 0 cs = none := by
  rwa [firstBad_none_iff, refused_isForeign]

theorem screen_of_foreign {p : Nat} {c : Char} (hp : IsLeast {p | ForeignAt cs p} p)
    (hc : cs[p]? = some c) : screen cs = .error (.forbiddenCharacter c p) := by
  unfold screen
  rw [firstBad_eq_some hc (by rwa [refused_isForeign])]

theorem screen_of_call {p : Nat} (hforeign : ∀ p, ¬ForeignAt cs p)
    (hp : IsLeast {p | CallAt cs p} p) : screen cs = .error (.forbiddenCall p) := by
  unfold screen
  rw [firstBad_isForeign hforeign, firstBad_eq_some hp.1.2.1 (by rwa [refused_isCall hforeign])]

theorem screen_of_attribute {p : Nat} (hforeign : ∀ p, ¬ForeignAt cs p) (hcall : ∀ p, ¬CallAt cs p)
    (hp : IsLeast {p | AttributeAt cs p} p) : screen cs = .error (.forbiddenAttribute p) := by
  have hnone : firstBad isCall none 0 cs = none := by rwa [firstBad_none_iff, refused_isCall hforeign]
  unfold screen
  rw [firstBad_isForeign hforeign, hnone, firstBad_eq_some hp.1.1 (by rwa [refused_isAttribute])]

/-! ## The leftmost name -/

/-- Two names that start at the same place are the same. -/
theorem NameAt.unique {front word rest front' word' rest' : List Char}
    (h : NameAt cs front word rest) (h' : NameAt cs front' word' rest')
    (hlength : front.length = front'.length) : word = word' := by
  obtain ⟨-, heq⟩ := List.append_inj (h.split.symm.trans h'.split) hlength
  have hword := (takeWhile_append_eq rest h.isName.isNameChar h.after).1
  have hword' := (takeWhile_append_eq rest' h'.isName.isNameChar h'.after).1
  rw [heq] at hword
  exact hword.symm.trans hword'

theorem Leftmost.unique {p : String → Bool} {x y : String} (hx : Leftmost p cs x)
    (hy : Leftmost p cs y) : x = y := by
  obtain ⟨front, word, rest, hat, rfl, hp, hfirst⟩ := hx
  obtain ⟨front', word', rest', hat', rfl, hp', hfirst'⟩ := hy
  rcases lt_trichotomy front.length front'.length with hlt | heq | hlt
  · rw [hfirst' _ _ _ hat hlt] at hp
    cases hp
  · rw [hat.unique hat' heq]
  · rw [hfirst _ _ _ hat' hlt] at hp'
    cases hp'

end Flowchart.Screen

namespace Flowchart.Expression

open Screen

variable {source : String} {b : Bindings} {err : EvalError}

/-! ## Reading and computing refuse nothing -/

theorem isRejection_of_read {cs : List Char} (h : read cs = .error err) : err.isRejection = false := by
  unfold read at h
  split at h
  next htokenize =>
    cases h
    rcases Token.tokenize_unreadable htokenize with ⟨_, _, rfl⟩ | ⟨_, rfl⟩ <;> rfl
  next =>
    split at h
    next hparse =>
      cases h
      rcases Parse.parse_error hparse with rfl | ⟨_, _, rfl⟩ <;> rfl
    next => cases h

theorem isSome_of_requireBound {names : List String} (h : requireBound b names = .ok ()) :
    ∀ x ∈ names, (b x).isSome := by
  unfold requireBound at h
  split at h
  next => cases h
  next hnone =>
    intro x hx
    simpa [Option.isSome_iff_ne_none] using List.find?_eq_none.1 hnone x hx

/-- With every name bound, a text that passes the screen is not refused any more. The names that
evaluation looks up are leaves of the tree, and the scan of the text has found them all. -/
theorem isRejection_of_bound (hscreen : screen (normalizeChars source) = .ok ())
    (hbound : ¬MentionsUnbound b (normalizeChars source))
    (h : Flowchart.evaluate source b = .error err) : err.isRejection = false := by
  have hrequire := (requireBound_names hscreen).2 hbound
  rw [evaluate_of_screened b hscreen, hrequire] at h
  cases hread : read (normalizeChars source) with
  | error err' =>
    rw [hread] at h
    cases h
    exact isRejection_of_read hread
  | ok result =>
    obtain ⟨tree, names⟩ := result
    rw [hread] at h
    obtain ⟨ts, hts, hleaves, -⟩ := leaves_of_read hread
    rcases tree.fails_of_eval h with ⟨x, hx, hnone, -⟩ | rfl | rfl
    · rw [hleaves, ← names_of_tokenize hscreen hts] at hx
      have hsome := isSome_of_requireBound hrequire x hx
      rw [hnone] at hsome
      cases hsome
    · rfl
    · rfl

/-! ## The grounds of a refusal -/

/-- Why a text is refused: the leftmost offender of the first kind that occurs. -/
def Grounds (b : Bindings) (cs : List Char) : EvalError → Prop
  | .forbiddenCharacter c p => IsLeast {p | ForeignAt cs p} p ∧ cs[p]? = some c
  | .forbiddenCall p => (∀ p, ¬ForeignAt cs p) ∧ IsLeast {p | CallAt cs p} p
  | .forbiddenAttribute p =>
    (∀ p, ¬ForeignAt cs p) ∧ (∀ p, ¬CallAt cs p) ∧ IsLeast {p | AttributeAt cs p} p
  | .unknownName x => Clear cs ∧ Leftmost (fun x => (b x).isNone) cs x
  | .empty | .malformed .. | .numberOutOfRange _ | .divisionByZero | .overflow => False

theorem isLeast_or_none (P : Nat → Prop) : (∃ p, IsLeast {p | P p} p) ∨ ∀ p, ¬P p := by
  by_cases h : ∃ p, P p
  · classical exact .inl ⟨Nat.find h, Nat.isLeast_find h⟩
  · exact .inr (not_exists.1 h)

theorem grounds_or_bound (b : Bindings) (cs : List Char) :
    (∃ err, Grounds b cs err) ∨ Clear cs ∧ ¬MentionsUnbound b cs := by
  rcases isLeast_or_none (ForeignAt cs) with ⟨p, hp⟩ | hforeign
  · obtain ⟨c, hc, -⟩ := hp.1
    exact .inl ⟨.forbiddenCharacter c p, hp, hc⟩
  rcases isLeast_or_none (CallAt cs) with ⟨p, hp⟩ | hcall
  · exact .inl ⟨.forbiddenCall p, hforeign, hp⟩
  rcases isLeast_or_none (AttributeAt cs) with ⟨p, hp⟩ | hattribute
  · exact .inl ⟨.forbiddenAttribute p, hforeign, hcall, hp⟩
  have hclear : Clear cs := ⟨hforeign, hcall, hattribute⟩
  by_cases hunbound : MentionsUnbound b cs
  · obtain ⟨x, hx, -⟩ := (requireBound_names (clear_iff.1 hclear)).1 hunbound
    exact .inl ⟨.unknownName x, hclear, hx⟩
  · exact .inr ⟨hclear, hunbound⟩

theorem evaluate_of_leftmost {x : String} (h : Clear (normalizeChars source))
    (hx : Leftmost (fun x => (b x).isNone) (normalizeChars source) x) :
    Flowchart.evaluate source b = .error (.unknownName x) := by
  have hscreen := clear_iff.1 h
  have hunbound : MentionsUnbound b (normalizeChars source) := by
    obtain ⟨front, word, rest, hat, rfl, hnone, -⟩ := hx
    exact ⟨hscreen, front, word, rest, hat, Option.isNone_iff_eq_none.1 hnone⟩
  obtain ⟨y, hy, hrequire⟩ := (requireBound_names hscreen).1 hunbound
  rw [evaluate_of_screened b hscreen, hrequire, hx.unique hy]
  rfl

theorem evaluate_of_grounds (h : Grounds b (normalizeChars source) err) :
    Flowchart.evaluate source b = .error err := by
  cases err with
  | forbiddenCharacter c p => exact evaluate_of_refused b (screen_of_foreign h.1 h.2)
  | forbiddenCall p => exact evaluate_of_refused b (screen_of_call h.1 h.2)
  | forbiddenAttribute p => exact evaluate_of_refused b (screen_of_attribute h.1 h.2.1 h.2.2)
  | unknownName x => exact evaluate_of_leftmost h.1 h.2
  | empty | malformed | numberOutOfRange | divisionByZero | overflow => exact h.elim

/-- A text is refused exactly on its grounds. -/
theorem rejected_iff (hr : err.isRejection = true) :
    Flowchart.evaluate source b = .error err ↔ Grounds b (normalizeChars source) err := by
  refine ⟨fun heval => ?_, evaluate_of_grounds⟩
  rcases grounds_or_bound b (normalizeChars source) with ⟨err', h⟩ | ⟨hclear, hbound⟩
  · rw [evaluate_of_grounds h] at heval
    cases heval
    exact h
  · rw [isRejection_of_bound (clear_iff.1 hclear) hbound heval] at hr
    cases hr

/-- **What a text is refused for.** A foreign character comes first; then a call; then attribute
access; then a name that is not bound. Each time the leftmost offender is the one reported, and
where there is none of any kind no error is a refusal. -/
theorem evaluate_rejects (source : String) (b : Bindings) :
    let cs := normalizeChars source
    (∀ c p, Flowchart.evaluate source b = .error (.forbiddenCharacter c p) ↔
      IsLeast {p | ForeignAt cs p} p ∧ cs[p]? = some c) ∧
    (∀ p, Flowchart.evaluate source b = .error (.forbiddenCall p) ↔
      (∀ p, ¬ForeignAt cs p) ∧ IsLeast {p | CallAt cs p} p) ∧
    (∀ p, Flowchart.evaluate source b = .error (.forbiddenAttribute p) ↔
      (∀ p, ¬ForeignAt cs p) ∧ (∀ p, ¬CallAt cs p) ∧ IsLeast {p | AttributeAt cs p} p) ∧
    (∀ x, Flowchart.evaluate source b = .error (.unknownName x) ↔
      Clear cs ∧ Leftmost (fun x => (b x).isNone) cs x) ∧
    (Clear cs → (∀ front word rest, NameAt cs front word rest → (b (String.ofList word)).isSome) →
      ∀ err, Flowchart.evaluate source b = .error err → err.isRejection = false) := by
  intro cs
  refine ⟨fun _ _ => rejected_iff rfl, fun _ => rejected_iff rfl, fun _ => rejected_iff rfl,
    fun _ => rejected_iff rfl, fun hclear hbound err => isRejection_of_bound (clear_iff.1 hclear) ?_⟩
  rintro ⟨-, front, word, rest, hat, hnone⟩
  have hsome := hbound front word rest hat
  rw [hnone] at hsome
  cases hsome

/-- A call is reported although a point stands left of it; and a text that ends too early is
not refused if its names are bound. -/
theorem evaluate_rejects_call :
    let b : Bindings := fun x => if x = "a" then some (.decimal .one) else none
    (Flowchart.evaluate "a.b(1)" b = .error (.forbiddenCall 3) ∧
      AttributeAt (normalizeChars "a.b(1)") 1 ∧
      IsLeast {p | CallAt (normalizeChars "a.b(1)") p} 3) ∧
    Flowchart.evaluate "a * " b = .error (.malformed 2 .unexpectedEnd) ∧
      Clear (normalizeChars "a * ") ∧
      ∀ err, Flowchart.evaluate "a * " b = .error err → err.isRejection = false := by
  intro b
  have hcall : Flowchart.evaluate "a.b(1)" b = .error (.forbiddenCall 3) := by decide +kernel
  have hclear : Clear (normalizeChars "a * ") := clear_iff.2 (by decide +kernel)
  have hbound : ∀ front word rest, NameAt (normalizeChars "a * ") front word rest →
      (b (String.ofList word)).isSome := by
    intro front word rest hat
    have hsome := (finds (fun x => (b x).isNone) _).none (by decide +kernel) front word rest hat
    simpa [Option.isSome_iff_ne_none] using hsome
  have hattribute : AttributeAt (normalizeChars "a.b(1)") 1 := by
    refine ⟨by decide +kernel, ?_⟩
    rintro ⟨-, ⟨c, hc, hdigit⟩, -⟩
    cases hc
    cases hdigit
  refine ⟨⟨hcall, hattribute, ?_⟩, by decide +kernel, hclear, ?_⟩
  · exact (((evaluate_rejects "a.b(1)" b).2.1 3).1 hcall).2
  · exact (evaluate_rejects "a * " b).2.2.2.2 hclear hbound

end Flowchart.Expression
