/-
Values on the command line. A value is shown with as few places as possible, and reading what is shown
gives the value in this shortest form (`readValue_display`). So what is shown tells values apart exactly
if they differ (`display_eq_iff`), and a value that was printed can be given to a variable: evaluating
the name of the variable prints it once more (`shown_values_read_back`).
-/
import Flowchart.CommandLine.Basic
import Flowchart.Proofs.Decimal.Canonical
import Flowchart.Proofs.Numerals
import Flowchart.Proofs.Variables

namespace Flowchart

open Text (isBlank isBlank_of_isAlphanum trimChars)
open Words (IsName ne_of_isNameChar)

/-! ## What is shown -/

/-- Zero has no sign in its shortest form. -/
theorem Decimal.zeroUnsigned_normalize (a : Decimal) : a.normalize.zeroUnsigned = a.normalize :=
  zeroUnsigned_eq_self fun h => by simp [a.canonical_normalize.unsigned h.2] at h

namespace Value

variable {v w : Value}

/-- Equality of values: decimals are equal as numbers, whatever their places. -/
inductive Equal : Value → Value → Prop
  | decimal {a b : Decimal} (h : a.compare b = .eq) : Equal (.decimal a) (.decimal b)
  | bool (b : Bool) : Equal (.bool b) (.bool b)

/-- The value with as few places as possible. -/
def shortest : Value → Value
  | decimal d => decimal d.normalize
  | bool b => bool b

theorem type_shortest (v : Value) : v.shortest.type = v.type := by cases v <;> rfl

theorem shortest_eq_iff : v.shortest = w.shortest ↔ v.Equal w := by
  constructor
  · intro h
    cases v with
    | decimal a =>
      cases w with
      | decimal b => exact .decimal (Decimal.normalize_eq_iff.1 (Value.decimal.inj h))
      | bool _ => cases h
    | bool b =>
      cases w with
      | decimal _ => cases h
      | bool _ =>
        cases h
        exact .bool b
  · intro h
    cases h with
    | decimal h => exact congrArg decimal (Decimal.normalize_eq_iff.2 h)
    | bool b => rfl

theorem shortest_shortest (v : Value) : v.shortest.shortest = v.shortest := by
  cases v with
  | decimal d => exact congrArg decimal d.normalize_normalize
  | bool b => rfl

theorem display_shortest (v : Value) : v.shortest.display = v.display := by
  cases v with
  | decimal d => exact congrArg Decimal.toText d.normalize_normalize
  | bool b => rfl

/-- No white space is shown. -/
theorem isBlank_of_mem_display (v : Value) : ∀ c ∈ v.display.toList, isBlank c = false := by
  cases v with
  | decimal d =>
    intro c hc
    rcases Decimal.mem_toText hc with h | rfl | rfl
    · exact isBlank_of_isAlphanum (by simp [Char.isAlphanum, h])
    · decide
    · decide
  | bool b =>
    have hall : (Value.bool b).display.toList.all (!isBlank ·) = true := by cases b <;> decide
    simpa using hall

end Value

namespace CommandLine

/-! ## Reading values and bindings -/

/-- What is shown is read as the value in its shortest form. -/
theorem readValue_display (v : Value) : readValue v.display = .ok v.shortest := by
  cases v with
  | decimal d =>
    have hread : Decimal.ofText d.normalize.toText = .ok d.normalize := by
      rw [Decimal.ofText_toText, d.zeroUnsigned_normalize]
    -- The words for booleans are no numbers, and what is shown is one.
    have hword (word : String) (h : Decimal.ofText word = .error .unknownCharacter) :
        d.normalize.toText ≠ word := by
      intro heq
      rw [heq, h] at hread
      cases hread
    have htrue := hword "true" (by decide +kernel)
    have hfalse := hword "false" (by decide +kernel)
    simp [readValue, Value.display, Value.shortest, htrue, hfalse, hread, Except.map]
  | bool b => cases b <;> rfl

/-- Values are shown alike exactly if they are equal. -/
theorem display_eq_iff {v w : Value} : v.display = w.display ↔ v.Equal w := by
  rw [← Value.shortest_eq_iff]
  constructor
  · intro h
    have hread := readValue_display v
    rw [h, readValue_display w] at hread
    exact (Except.ok.inj hread).symm
  · intro h
    rw [← v.display_shortest, h, w.display_shortest]

section
variable {x raw : String} (hx : IsName x.toList)

include hx

/-- A binding is cut at the equals sign behind its name, and nothing is trimmed. -/
theorem readBinding_append {v : Value} (hraw : ∀ c ∈ raw.toList, isBlank c = false)
    (hv : readValue raw = .ok v) : readBinding (x ++ "=" ++ raw) = .ok (x, v) := by
  have hname : ∀ c ∈ x.toList, (c != '=') = true := by
    intro c hc
    simp [ne_of_isNameChar (hx.isNameChar c hc) (d := '=') rfl]
  have hspan : (x ++ "=" ++ raw).toList.span (· != '=') = (x.toList, '=' :: raw.toList) := by
    rw [List.span_eq_takeWhile_dropWhile]
    simp [List.takeWhile_append_of_pos hname, List.dropWhile_append_of_pos hname]
  have hblank : ∀ c ∈ x.toList, isBlank c = false := by
    intro c hc
    rcases Words.isNameChar_iff.1 (hx.isNameChar c hc) with h | rfl
    · exact isBlank_of_isAlphanum h
    · decide
  have htrim {cs : List Char} (h : ∀ c ∈ cs, isBlank c = false) : trimChars cs = cs := by
    simpa using Text.trimChars_append (List.forall_mem_nil _) h (List.forall_mem_nil _)
  simp only [readBinding, hspan, htrim hblank, htrim hraw, String.ofList_toList, hv]

/-! ## Evaluating a name -/

/-- A text that begins with a name does not look like an option. -/
theorem exists_toList_append (rest : String) : ∃ c cs, (x ++ rest).toList = c :: cs ∧ c ≠ '-' := by
  cases hw : x.toList with
  | nil => simp [hw, IsName] at hx
  | cons c w =>
    refine ⟨c, w ++ rest.toList, by simp [hw], ?_⟩
    exact ne_of_isNameChar (hx.isNameChar c (by simp [hw])) rfl

end

theorem role_of_head {forms : List OptionForm} {word : String} {c : Char} {cs : List Char}
    (h : word.toList = c :: cs) (hc : c ≠ '-') : role forms word = .ok .word := by
  simp [role, h, hc]

theorem isValue_of_head {word : String} {c : Char} {cs : List Char} (h : word.toList = c :: cs) (hc : c ≠ '-') :
    isValue word = true := by
  simp [isValue, h, hc]

theorem ofWords_eval {x raw : String} (hx : IsName x.toList) :
    Command.ofWords ["eval", x, "--var", x ++ "=" ++ raw] = .ok (.eval x [x ++ "=" ++ raw]) := by
  obtain ⟨c, cs, hhead, hc⟩ := exists_toList_append hx ""
  obtain ⟨d, ds, hhead', hd⟩ := exists_toList_append hx ("=" ++ raw)
  rw [String.append_empty] at hhead
  rw [← String.append_assoc] at hhead'
  have hne : x ≠ "--" := by
    rintro rfl
    exact hc (List.cons.inj hhead).1.symm
  have hoption : role [verbose, ⟨"var", none, true⟩] "--var" = .ok (.awaiting "var") := rfl
  simp [Command.ofWords, readEval, sort, hne, role_of_head hhead hc, hoption, isValue_of_head hhead' hd,
    Sorted.onlyWord, Sorted.values, bind, Except.bind, pure, Except.pure]

/-- Evaluating a name prints the value that was given to it. -/
theorem planEval_name {x raw : String} {v : Value} (hx : IsName x.toList)
    (hraw : ∀ c ∈ raw.toList, isBlank c = false) (hv : readValue raw = .ok v) :
    planEval x [x ++ "=" ++ raw] = .ok (.done (.success [v.display])) := by
  have hget : (Environment.ofList [(x, v)]).get? x = some v := by
    simp [Environment.ofList, Environment.get?, Assoc.ofList, Assoc.get?_insert]
  have hvalue := Expression.evaluate_name hx hget
  simp [planEval, readBinding_append hx hraw hv, hvalue, bind, Except.bind, pure, Except.pure]

/-- **What is printed can be given to a variable.** Reading what is shown of a value succeeds and gives an
equal value of the same type. Two values, of one type or not, are shown alike exactly if they are equal.
So a name that is given the value as it is shown has the same text printed when it is evaluated. -/
theorem shown_values_read_back :
    (∀ v : Value, ∃ v', readValue v.display = .ok v' ∧ v'.type = v.type ∧ v'.Equal v) ∧
    (∀ v w : Value, v.display = w.display ↔ v.Equal w) ∧
    (∀ (m : Type → Type) [Monad m] (w : World) (execute : Run → m (Timing × Except RunError Report))
      (write : String → String → m (Option FileFault)) (x : String) (v : Value), isVariableName x = true →
      perform w execute write ["eval", x, "--var", x ++ "=" ++ v.display] =
        pure { stdout := v.display ++ "\n", stderr := "", code := 0 }) := by
  refine ⟨fun v => ?_, fun v w => display_eq_iff, ?_⟩
  · exact ⟨v.shortest, readValue_display v, v.type_shortest, Value.shortest_eq_iff.1 v.shortest_shortest⟩
  · intro m _ w execute write x v hx
    have hname := isVariableName_iff_isName.1 hx
    have hplan := planEval_name hname v.isBlank_of_mem_display (readValue_display v)
    rw [v.display_shortest] at hplan
    simp [perform, ofWords_eval hname, plan, hplan, Plan.perform, Output.success]

/-- A negative number that fills the mantissa, with a zero at its last place: it is shown without the
zero, and this text is printed again. -/
theorem shown_values_read_back_longest : ∃ d : Decimal,
    Decimal.ofText "-7.9228162514264337593543950330" = .ok d ∧ d.scale = maxScale ∧
    (∃ v, readValue "-7.922816251426433759354395033" = .ok v ∧ v.type = .decimal ∧ v.Equal (.decimal d)) ∧
    isVariableName "_v1" = true ∧
    ∀ (w : World) (execute : Run → Id (Timing × Except RunError Report))
      (write : String → String → Id (Option FileFault)),
      perform w execute write ["eval", "_v1", "--var", "_v1=-7.922816251426433759354395033"] =
        pure { stdout := "-7.922816251426433759354395033\n", stderr := "", code := 0 } := by
  let d : Decimal := ⟨true, 79228162514264337593543950330, maxScale, by decide, Nat.le_refl maxScale⟩
  have hname : isVariableName "_v1" = true := by decide
  have hshown : (Value.decimal d).display = "-7.922816251426433759354395033" := by decide +kernel
  obtain ⟨hread, -, hprints⟩ := shown_values_read_back
  have hvalue := hread (.decimal d)
  rw [hshown] at hvalue
  refine ⟨d, by decide +kernel, rfl, hvalue, hname, fun w execute write => ?_⟩
  have hprinted := hprints Id w execute write "_v1" (.decimal d) hname
  rw [hshown] at hprinted
  exact hprinted

end CommandLine

end Flowchart
