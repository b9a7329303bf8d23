/-
What the screen lets through. A check finds nothing exactly when it refuses no
character between its neighbours (`firstBad_eq_none_iff`), and a stretch of
characters that a check never refuses can be skipped
(`firstBad_append_of_accepted`).
-/
import Flowchart.Expression.Screen

namespace Flowchart.Screen

variable {bad : Option Char → Char → Option Char → Bool} {before : Option Char} {position : Nat}

/-- The character before a place is the last one of the text in front of it. -/
theorem getLast?_cons_or (c : Char) (front : List Char) (before : Option Char) :
    (c :: front).getLast?.or before = front.getLast?.or (some c) := by
  rw [List.getLast?_cons]
  cases front.getLast? <;> rfl

/-- A check finds nothing in a text exactly when it refuses no character of it. -/
theorem firstBad_eq_none_iff {cs : List Char} :
    firstBad bad before position cs = none ↔
      ∀ front c rest, cs = front ++ c :: rest →
        bad (front.getLast?.or before) c rest.head? = false := by
  induction cs generalizing before position with
  | nil => simp [firstBad]
  | cons d cs ih =>
    rw [firstBad]
    constructor
    · intro h front c rest heq
      split at h
      next => cases h
      next hd =>
        cases front with
        | nil =>
          obtain ⟨rfl, rfl⟩ := List.cons.inj heq
          exact Bool.eq_false_iff.2 hd
        | cons f front =>
          obtain ⟨rfl, htail⟩ := List.cons.inj heq
          rw [getLast?_cons_or]
          exact ih.1 h front c rest htail
    · intro h
      have hd := h [] d cs rfl
      rw [List.getLast?_nil, Option.none_or] at hd
      rw [if_neg (by simp [hd])]
      refine ih.2 fun front c rest heq => ?_
      rw [← getLast?_cons_or d front before]
      exact h (d :: front) c rest (by rw [heq]; rfl)

/-- Characters that a check accepts between any neighbours can be skipped. -/
theorem firstBad_append_of_accepted {word : List Char}
    (h : ∀ c ∈ word, ∀ b a, bad b c a = false) (rest : List Char) :
    firstBad bad before position (word ++ rest) =
      firstBad bad (word.getLast?.or before) (position + word.length) rest := by
  induction word generalizing before position with
  | nil => rfl
  | cons c word ih =>
    have hc := h c (by simp)
    rw [List.cons_append, firstBad, if_neg (by simp [hc]), ih fun d hd => h d (by simp [hd]),
      getLast?_cons_or, List.length_cons, Nat.add_assoc, Nat.add_comm 1]

theorem screen_eq_ok_iff {cs : List Char} :
    screen cs = .ok () ↔
      firstBad isForeign none 0 cs = none ∧ firstBad isCall none 0 cs = none ∧
        firstBad isAttribute none 0 cs = none := by
  unfold screen
  constructor
  · intro h
    split at h
    next => cases h
    next hforeign =>
      split at h
      next => cases h
      next hcall =>
        split at h
        next => cases h
        next hattribute => exact ⟨hforeign, hcall, hattribute⟩
  · rintro ⟨hforeign, hcall, hattribute⟩
    rw [hforeign, hcall, hattribute]

/-- A screened text holds names, numbers and symbols only. -/
theorem plain_of_screen {cs : List Char} (h : screen cs = .ok ()) :
    ∀ c ∈ cs, isNameChar c = true ∨ isSymbol c = true := by
  obtain ⟨hforeign, -, -⟩ := screen_eq_ok_iff.1 h
  intro c hc
  obtain ⟨front, rest, heq⟩ := List.append_of_mem hc
  have hplain := firstBad_eq_none_iff.1 hforeign front c rest heq
  cases hname : isNameChar c with
  | true => exact .inl rfl
  | false => exact .inr (by simpa [isForeign, hname] using hplain)

theorem digits_around_point {front rest : List Char} (h : screen (front ++ '.' :: rest) = .ok ()) :
    front.getLast?.any Char.isDigit = true ∧ rest.head?.any Char.isDigit = true := by
  obtain ⟨-, -, hattribute⟩ := screen_eq_ok_iff.1 h
  have hpoint := firstBad_eq_none_iff.1 hattribute front '.' rest rfl
  simpa [isAttribute] using hpoint

/-- Every point is followed by a digit. -/
def PointsInside (cs : List Char) : Prop :=
  ∀ front rest, cs = front ++ '.' :: rest → rest.head?.any Char.isDigit = true

theorem PointsInside.of_append {front rest : List Char} (h : PointsInside (front ++ rest)) :
    PointsInside rest := by
  intro before after heq
  exact h (front ++ before) after (by rw [heq, List.append_assoc])

theorem pointsInside_of_screen {cs : List Char} (h : screen cs = .ok ()) : PointsInside cs := by
  intro front rest heq
  rw [heq] at h
  exact (digits_around_point h).2

end Flowchart.Screen
