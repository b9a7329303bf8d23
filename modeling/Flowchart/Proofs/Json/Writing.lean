/-
Both ways to write a JSON value spell it: on one line, and indented with each item on a line of its
own. So a text that was written is read as the value that it was written from
(`read_compact`, `read_pretty`). This asks that brackets do not nest too deep and that all numbers
are integers of 64 bits.
-/
import Flowchart.Proofs.Json.Spelling
import Flowchart.Proofs.Lists

namespace Flowchart.Json

/-- Brackets nest at most `d` deep, and all numbers are integers of 64 bits. -/
inductive Plain : (d : Nat) → Json → Prop
  | null {d} : Plain d .null
  | bool {d b} : Plain d (.bool b)
  | integer {d n} (h : Fits n) : Plain d (.number (.int n))
  | string {d s} : Plain d (.string s)
  | array {d items} (h : ∀ j ∈ items, Plain d j) : Plain (d + 1) (.array items)
  | object {d members} (h : ∀ m ∈ members, Plain d m.2) : Plain (d + 1) (.object members)

/-! ## Items between brackets -/

theorem intercalate_cons (sep t : List Char) (ts : List String) :
    sep.intercalate (t :: ts.map String.toList) = t ++ ts.flatMap fun t => sep ++ t.toList := by
  induction ts generalizing t with
  | nil => simp
  | cons u ts ih => simp [List.intercalate_cons_cons, ih u.toList]

section
variable {d : Nat} {inner sep outer : String}

/-- Items in front of which stand a comma and white space. -/
theorem spellsItems_flatMap (hsep : Gap false sep.toList) (houter : Blanks outer.toList)
    {items : List Json} {texts : List String}
    (h : List.Forall₂ (fun j t => Spells d j t.toList) items texts) :
    SpellsItems d false items
      ((texts.flatMap fun t => sep.toList ++ t.toList) ++ (outer.toList ++ [']'])) := by
  induction h with
  | nil => exact .close houter
  | cons hj _ ih =>
    rw [List.flatMap_cons, List.append_assoc, List.append_assoc]
    exact .item hsep hj ih

theorem spellsMembers_flatMap {colon : String} {ws : List Char} (hcolon : colon.toList = ':' :: ws)
    (hws : Blanks ws) (hsep : Gap false sep.toList) (houter : Blanks outer.toList)
    {members : List (String × Json)} {texts : List String}
    (h : List.Forall₂ (fun m t => ∃ t', t = stringText m.1 ++ colon ++ t' ∧ Spells d m.2 t'.toList)
      members texts) :
    SpellsMembers d false members
      ((texts.flatMap fun t => sep.toList ++ t.toList) ++ (outer.toList ++ ['\x7d'])) := by
  induction h with
  | nil => exact .close houter
  | @cons m t members texts hm _ ih =>
    obtain ⟨t', rfl, ht'⟩ := hm
    have hmember := SpellsMembers.member (k := m.1) hsep blanks_nil hws ht' ih
    simpa [hcolon] using hmember

/-- A list is spelled by the texts of its items, between commas and white space. -/
theorem spells_array (hinner : Blanks inner.toList) (hsep : Gap false sep.toList)
    (houter : Blanks outer.toList) {items : List Json} {texts : List String}
    (h : List.Forall₂ (fun j t => Spells d j t.toList) items texts) :
    Spells (d + 1) (.array items) ("[" ++ inner ++ sep.intercalate texts ++ outer ++ "]").toList := by
  cases h with
  | nil =>
    have hclose : SpellsItems d true [] _ := .close (blanks_append hinner houter)
    simpa using Spells.array hclose
  | cons hj hitems =>
    have hfirst := SpellsItems.item (.first hinner) hj (spellsItems_flatMap hsep houter hitems)
    simpa [intercalate_cons] using Spells.array hfirst

/-- An object is spelled by the texts of its members, between commas and white space. -/
theorem spells_object {colon : String} {ws : List Char} (hcolon : colon.toList = ':' :: ws)
    (hws : Blanks ws) (hinner : Blanks inner.toList) (hsep : Gap false sep.toList)
    (houter : Blanks outer.toList) {members : List (String × Json)} {texts : List String}
    (h : List.Forall₂ (fun m t => ∃ t', t = stringText m.1 ++ colon ++ t' ∧ Spells d m.2 t'.toList)
      members texts) :
    Spells (d + 1) (.object members)
      ("\x7b" ++ inner ++ sep.intercalate texts ++ outer ++ "\x7d").toList := by
  cases h with
  | nil =>
    have hclose : SpellsMembers d true [] _ := .close (blanks_append hinner houter)
    simpa using Spells.object hclose
  | @cons m _ _ _ hm hmembers =>
    obtain ⟨t', rfl, ht'⟩ := hm
    have hfirst := SpellsMembers.member (k := m.1) (.first hinner) blanks_nil hws ht'
      (spellsMembers_flatMap hcolon hws hsep houter hmembers)
    simpa [intercalate_cons, hcolon] using Spells.object hfirst

end

/-! ## The two layouts -/

theorem compactItems_eq (items : List Json) : compactItems items = items.map compact := by
  induction items with
  | nil => rfl
  | cons j items ih => simp [compactItems, ih]

theorem compactMembers_eq (members : List (String × Json)) :
    compactMembers members = members.map fun m => stringText m.1 ++ ":" ++ compact m.2 := by
  induction members with
  | nil => rfl
  | cons m members ih => simp [compactMembers, ih]

theorem prettyItems_eq (indent : Nat) (items : List Json) :
    prettyItems indent items = items.map (prettyFrom indent) := by
  induction items with
  | nil => rfl
  | cons j items ih => simp [prettyItems, ih]

theorem prettyMembers_eq (indent : Nat) (members : List (String × Json)) :
    prettyMembers indent members =
      members.map fun m => stringText m.1 ++ ": " ++ prettyFrom indent m.2 := by
  induction members with
  | nil => rfl
  | cons m members ih => simp [prettyMembers, ih]

/-- A new line and some blanks are white space. -/
theorem blanks_newline (n : Nat) : Blanks ("\n" ++ blanks n).toList := by
  intro c hc
  have hc : c = '\n' ∨ n ≠ 0 ∧ c = ' ' := by simpa [blanks] using hc
  rcases hc with rfl | ⟨-, rfl⟩ <;> rfl

/-- The text on one line spells the value. -/
theorem spells_compact {d : Nat} {j : Json} (h : Plain d j) : Spells d j j.compact.toList := by
  have hnone : Blanks "".toList := blanks_nil
  have hcomma : Gap false ",".toList := .next blanks_nil blanks_nil
  induction h with
  | null => exact .null
  | @bool d b => cases b; exacts [.false, .true]
  | integer h => exact .integer h
  | string => exact .string
  | @array d items _ ih =>
    have htexts : List.Forall₂ (fun j t => Spells d j t.toList) items (items.map compact) :=
      forall₂_map ih
    have harray := spells_array hnone hcomma hnone htexts
    simpa [compact, compactItems_eq] using harray
  | @object d members _ ih =>
    have htexts : List.Forall₂ (fun m t => ∃ t', t = stringText m.1 ++ ":" ++ t' ∧ Spells d m.2 t'.toList)
        members (members.map fun m => stringText m.1 ++ ":" ++ compact m.2) :=
      forall₂_map fun m hm => ⟨_, rfl, ih m hm⟩
    have hobject := spells_object rfl blanks_nil hnone hcomma hnone htexts
    simpa [compact, compactMembers_eq] using hobject

theorem layout_of_ne_nil {opening closing : String} {indent : Nat} {lines : List String} (h : lines ≠ []) :
    layout opening closing indent lines =
      opening ++ ("\n" ++ blanks (indent + 2)) ++
        ("," ++ ("\n" ++ blanks (indent + 2))).intercalate lines ++ ("\n" ++ blanks indent) ++ closing := by
  simp [layout, h, String.append_assoc]

/-- The indented text spells the value. -/
theorem spells_prettyFrom {d : Nat} {j : Json} (h : Plain d j) (indent : Nat) :
    Spells d j (prettyFrom indent j).toList := by
  have hcomma (n : Nat) : Gap false ("," ++ ("\n" ++ blanks n)).toList := by
    simpa using Gap.next blanks_nil (blanks_newline n)
  induction h generalizing indent with
  | null =>
    rw [prettyFrom]
    exact .null
  | @bool d b =>
    rw [prettyFrom]
    cases b
    exacts [.false, .true]
  | integer h =>
    rw [prettyFrom]
    exact .integer h
  | string =>
    rw [prettyFrom]
    exact .string
  | @array d items _ ih =>
    rw [prettyFrom, prettyItems_eq]
    obtain rfl | hitems := eq_or_ne items []
    · simpa [layout] using Spells.array (d := d) (.close blanks_nil)
    · rw [layout_of_ne_nil (by simpa using hitems)]
      exact spells_array (blanks_newline _) (hcomma _) (blanks_newline _)
        (forall₂_map fun j hj => ih j hj (indent + 2))
  | @object d members _ ih =>
    rw [prettyFrom, prettyMembers_eq]
    obtain rfl | hmembers := eq_or_ne members []
    · simpa [layout] using Spells.object (d := d) (.close blanks_nil)
    · have hblank : Blanks [' '] := by simp [Blanks, Scan.isBlank]
      rw [layout_of_ne_nil (by simpa using hmembers)]
      exact spells_object rfl hblank (blanks_newline _) (hcomma _) (blanks_newline _)
        (forall₂_map fun m hm => ⟨_, rfl, ih m hm (indent + 2)⟩)

/-- What was written on one line is read as it was. -/
theorem read_compact {α : Type} (decoder : Decoder α) {j : Json} (h : Plain maxNesting j) :
    read decoder j.compact = decoder j.toNode :=
  read_of_spells decoder (spells_compact h)

/-- What was written with indentation is read as it was. -/
theorem read_pretty {α : Type} (decoder : Decoder α) {j : Json} (h : Plain maxNesting j) :
    read decoder j.pretty = decoder j.toNode :=
  read_of_spells decoder (spells_prettyFrom h 0)

end Flowchart.Json
