/-
JSON texts of a value, with white space anywhere between the words of the text (`Spells`), and what
reading makes of them: the value, whatever the white space, as long as its brackets do not nest
too deep (`Document.ofText_of_spells`).
-/
import Flowchart.Json.Decode
import Flowchart.Proofs.Json.Scanning

namespace Flowchart.Json

/-- An integer of 64 bits, signed or not. -/
def Fits (n : Int) : Prop := -2 ^ 63 ≤ n ∧ n < 2 ^ 64

/-- What stands before an item of a container: white space, and a comma unless it is the first. -/
inductive Gap : (first : Bool) → List Char → Prop
  | first {ws} (h : Blanks ws) : Gap true ws
  | next {ws ws'} (h : Blanks ws) (h' : Blanks ws') : Gap false (ws ++ ',' :: ws')

mutual

/-- The text stands for the value, whose brackets nest at most `d` deep. Its numbers are integers of 64
bits. -/
inductive Spells : (d : Nat) → Json → List Char → Prop
  | null {d} : Spells d .null ['n', 'u', 'l', 'l']
  | true {d} : Spells d (.bool .true) ['t', 'r', 'u', 'e']
  | false {d} : Spells d (.bool .false) ['f', 'a', 'l', 's', 'e']
  | integer {d n} (h : Fits n) : Spells d (.number (.int n)) (Number.int n).text.toList
  | string {d s} : Spells d (.string s) (stringText s).toList
  | array {d items cs} (h : SpellsItems d .true items cs) : Spells (d + 1) (.array items) ('[' :: cs)
  | object {d members cs} (h : SpellsMembers d .true members cs) :
      Spells (d + 1) (.object members) ('\x7b' :: cs)

/-- The rest of a list: the items that are to come and the closing bracket. -/
inductive SpellsItems : (d : Nat) → (first : Bool) → List Json → List Char → Prop
  | close {d first ws} (h : Blanks ws) : SpellsItems d first [] (ws ++ [']'])
  | item {d first gap j cs items rest} (hgap : Gap first gap) (hj : Spells d j cs)
      (hitems : SpellsItems d .false items rest) : SpellsItems d first (j :: items) (gap ++ (cs ++ rest))

/-- The rest of an object: the members that are to come and the closing brace. -/
inductive SpellsMembers : (d : Nat) → (first : Bool) → List (String × Json) → List Char → Prop
  | close {d first ws} (h : Blanks ws) : SpellsMembers d first [] (ws ++ ['\x7d'])
  | member {d first gap k ws ws' j cs members rest} (hgap : Gap first gap) (hws : Blanks ws)
      (hws' : Blanks ws') (hj : Spells d j cs) (hmembers : SpellsMembers d .false members rest) :
      SpellsMembers d first ((k, j) :: members)
        (gap ++ ((stringText k).toList ++ (ws ++ ':' :: (ws' ++ (cs ++ rest)))))

end

/-! ## Between the brackets -/

section
variable {first : Bool} {gap ws : List Char} {c : Char}

theorem nextItem_close (first : Bool) (h : Blanks ws) (rest : List Char) :
    ∃ hr, nextItem first (ws ++ ']' :: rest) = .close rest hr := by
  have hskip : Scan.skipBlanks (ws ++ ']' :: rest) = ']' :: rest :=
    Scan.skipBlanks_append h (by decide) _
  unfold nextItem
  split
  next hnil => cases hskip.symm.trans hnil
  next c rest' hcons =>
    obtain ⟨rfl, rfl⟩ := List.cons.inj (hskip.symm.trans hcons)
    exact ⟨Scan.length_lt_of_skipBlanks hskip, if_pos rfl⟩

theorem nextItem_item (h : Gap first gap) (hblank : Scan.isBlank c = false) (hc : c ≠ ']')
    (rest : List Char) :
    ∃ hr, nextItem first (gap ++ c :: rest) = .item c rest hr := by
  cases h with
  | first h =>
    have hskip := Scan.skipBlanks_append h hblank rest
    unfold nextItem
    split
    next hnil => cases hskip.symm.trans hnil
    next c' rest' hcons =>
      obtain ⟨rfl, rfl⟩ := List.cons.inj (hskip.symm.trans hcons)
      exact ⟨Scan.length_lt_of_skipBlanks hskip, by simp only [hc, if_false, if_true]⟩
  | @next ws ws' h h' =>
    rw [List.append_assoc, List.cons_append]
    have hskip : Scan.skipBlanks (ws ++ ',' :: (ws' ++ c :: rest)) = ',' :: (ws' ++ c :: rest) :=
      Scan.skipBlanks_append h (by decide) _
    have hskip' : Scan.skipBlanks (ws' ++ c :: rest) = c :: rest := Scan.skipBlanks_append h' hblank _
    unfold nextItem
    split
    next hnil => cases hskip.symm.trans hnil
    next c' rest' hcons =>
      obtain ⟨rfl, rfl⟩ := List.cons.inj (hskip.symm.trans hcons)
      simp only [Char.reduceEq, if_false, Bool.false_eq_true, if_true]
      split
      next hnil => cases hskip'.symm.trans hnil
      next c'' rest'' hcons' =>
        obtain ⟨rfl, rfl⟩ := List.cons.inj (hskip'.symm.trans hcons')
        exact ⟨Scan.length_lt_of_skipBlanks_twice hskip hskip', if_neg hc⟩

theorem nextMember_close (first : Bool) (h : Blanks ws) (rest : List Char) :
    ∃ hr, nextMember first (ws ++ '\x7d' :: rest) = .close rest hr := by
  have hskip : Scan.skipBlanks (ws ++ '\x7d' :: rest) = '\x7d' :: rest :=
    Scan.skipBlanks_append h (by decide) _
  unfold nextMember
  split
  next hnil => cases hskip.symm.trans hnil
  next c rest' hcons =>
    obtain ⟨rfl, rfl⟩ := List.cons.inj (hskip.symm.trans hcons)
    exact ⟨Scan.length_lt_of_skipBlanks hskip, if_pos rfl⟩

theorem nextMember_key (h : Gap first gap) (rest : List Char) :
    ∃ hr, nextMember first (gap ++ '"' :: rest) = .key rest hr := by
  cases h with
  | first h =>
    have hskip : Scan.skipBlanks (gap ++ '"' :: rest) = '"' :: rest :=
      Scan.skipBlanks_append h (by decide) _
    unfold nextMember
    split
    next hnil => cases hskip.symm.trans hnil
    next c' rest' hcons =>
      obtain ⟨rfl, rfl⟩ := List.cons.inj (hskip.symm.trans hcons)
      exact ⟨Scan.length_lt_of_skipBlanks hskip, by simp⟩
  | @next ws ws' h h' =>
    rw [List.append_assoc, List.cons_append]
    have hskip : Scan.skipBlanks (ws ++ ',' :: (ws' ++ '"' :: rest)) = ',' :: (ws' ++ '"' :: rest) :=
      Scan.skipBlanks_append h (by decide) _
    have hskip' : Scan.skipBlanks (ws' ++ '"' :: rest) = '"' :: rest :=
      Scan.skipBlanks_append h' (by decide) _
    unfold nextMember
    split
    next hnil => cases hskip.symm.trans hnil
    next c' rest' hcons =>
      obtain ⟨rfl, rfl⟩ := List.cons.inj (hskip.symm.trans hcons)
      simp only [Char.reduceEq, if_false, Bool.false_eq_true, if_true]
      split
      next hnil => cases hskip'.symm.trans hnil
      next c'' rest'' hcons' =>
        obtain ⟨rfl, rfl⟩ := List.cons.inj (hskip'.symm.trans hcons')
        exact ⟨Scan.length_lt_of_skipBlanks_twice hskip hskip', if_pos rfl⟩

theorem afterKey_value {ws' : List Char} (h : Blanks ws) (h' : Blanks ws')
    (hblank : Scan.isBlank c = false) (rest : List Char) :
    ∃ hr, afterKey (ws ++ ':' :: (ws' ++ c :: rest)) = .value c rest hr := by
  have hskip : Scan.skipBlanks (ws ++ ':' :: (ws' ++ c :: rest)) = ':' :: (ws' ++ c :: rest) :=
    Scan.skipBlanks_append h (by decide) _
  have hskip' : Scan.skipBlanks (ws' ++ c :: rest) = c :: rest := Scan.skipBlanks_append h' hblank _
  unfold afterKey
  split
  next hnil => cases hskip.symm.trans hnil
  next c' rest' hcons =>
    obtain ⟨rfl, rfl⟩ := List.cons.inj (hskip.symm.trans hcons)
    simp only [if_true]
    split
    next hnil => cases hskip'.symm.trans hnil
    next c'' rest'' hcons' =>
      obtain ⟨rfl, rfl⟩ := List.cons.inj (hskip'.symm.trans hcons')
      exact ⟨Scan.length_lt_of_skipBlanks_twice hskip hskip', rfl⟩

end

/-! ## Reading -/

/-- The reader finds the value `node` at the front of the text and leaves `rest`. -/
def Consumes (value : ValueReader) (cs : List Char) (node : Node) (rest : List Char) : Prop :=
  ∃ c cs', cs = c :: cs' ∧ Scan.isBlank c = false ∧ c ≠ ']' ∧ ∃ h, value c cs' = (node, ⟨rest, h⟩)

@[simp] theorem skipFlaw?_toNode (j : Json) : j.toNode.skipFlaw? = none := by
  cases j <;> rfl

/-- White space ends a number, and so does what stands between items. -/
theorem ends_of_blanks {ws : List Char} (h : Blanks ws) {c : Char} (hc : Scan.Ends [c])
    (rest : List Char) : Scan.Ends (ws ++ c :: rest) := by
  cases ws with
  | nil => exact hc
  | cons b ws =>
    rintro _ ⟨⟩
    have hb : b = ' ' ∨ b = '\n' ∨ b = '\t' ∨ b = '\r' := by
      simpa [Scan.isBlank, or_assoc] using h b List.mem_cons_self
    rcases hb with rfl | rfl | rfl | rfl <;> decide

theorem Gap.ends {gap : List Char} (h : Gap false gap) (rest : List Char) : Scan.Ends (gap ++ rest) := by
  cases h with
  | next h _ =>
    rw [List.append_assoc]
    exact ends_of_blanks h (by rintro _ ⟨⟩; decide) _

variable {inner : Option ValueReader} {rest : List Char}

theorem consumes_word {lead : Char} {node : Node} (es : List Char)
    (hlead : ∀ cs, readWith inner lead cs = ofWord lead node (Scan.word es cs))
    (hblank : Scan.isBlank lead = false) (hclose : lead ≠ ']') :
    Consumes (readWith inner) (lead :: es ++ rest) node rest := by
  have hle : rest.length ≤ (es ++ rest).length := by
    rw [List.length_append]
    omega
  refine ⟨lead, es ++ rest, rfl, hblank, hclose, hle, ?_⟩
  rw [hlead, Scan.word_append es rest hle, ofWord]

theorem consumes_string (s : String) :
    Consumes (readWith inner) ((stringText s).toList ++ rest) (.string s) rest := by
  have htext : (stringText s).toList ++ rest = '"' :: (s.toList.flatMap escapeChar ++ '"' :: rest) := by
    simp [stringText]
  have hle : rest.length ≤ (s.toList.flatMap escapeChar ++ '"' :: rest).length := by
    rw [List.length_append, List.length_cons]
    omega
  refine ⟨'"', _, htext, by decide, by decide, hle, ?_⟩
  simp [readWith, ofLeaf, Scan.string_escaped s.toList _ [] rest (Nat.le_refl _) hle]

theorem integerValue_of_fits {n : Int} (h : Fits n) :
    Scan.integerValue (n < 0) n.natAbs 0 = .ok (.int n) := by
  obtain ⟨hlow, hhigh⟩ := h
  by_cases hn : n < 0
  · have hpos : 0 < n.natAbs := by omega
    have hbound : n.natAbs ≤ Nat.pow 2 63 := by
      show n.natAbs ≤ 2 ^ 63
      omega
    have hneg : -(n.natAbs : Int) = n := by omega
    simp only [Scan.integerValue, hn, decide_true, Bool.true_eq_false, and_false, if_false, hpos, hbound,
      and_self, if_true, hneg]
  · have hsame : (n.natAbs : Int) = n := by omega
    simp [Scan.integerValue, hn, hsame]

theorem consumes_integer {n : Int} (h : Fits n) (hrest : Scan.Ends rest) :
    Consumes (readWith inner) ((Number.int n).text.toList ++ rest) (.number (.int n)) rest := by
  have hroom : n.natAbs < Scan.significandBound := by
    show n.natAbs < 2 ^ 64
    obtain ⟨hlow, hhigh⟩ := h
    omega
  have hvalue := integerValue_of_fits h
  by_cases hn : n < 0
  · obtain ⟨hle, hnumber⟩ := Scan.number_digits hroom true hrest
    have htext : (Number.int n).text.toList ++ rest = '-' :: (Text.digits n.natAbs ++ rest) := by
      simp [Number.text, hn]
    refine ⟨'-', _, htext, by decide, by decide, Nat.le_trans hle (Nat.sub_le _ _), ?_⟩
    simp only [hn, decide_true] at hvalue
    simp [readWith, ofLeaf, hnumber, hvalue]
  · have hscan := Scan.number_digits hroom false hrest
    obtain ⟨d, ds, hds⟩ := List.exists_cons_of_ne_nil (l := Text.digits n.natAbs) Nat.toDigits_ne_nil
    have htext : (Number.int n).text.toList ++ rest = d :: (ds ++ rest) := by
      simp [Number.text, hn, hds]
    have hdigit : d.isDigit = true := Text.isDigit_of_mem_digits (hds ▸ List.mem_cons_self)
    simp only [hn, decide_false] at hvalue
    rw [hds] at hscan
    obtain ⟨hle, hnumber⟩ := hscan
    -- A digit is none of the characters that start another kind of value.
    have hne : ∀ {e : Char}, e.isDigit = false → d ≠ e := by
      rintro e he rfl
      cases hdigit.symm.trans he
    have hblank : Scan.isBlank d = false := by
      simp [Scan.isBlank, hne (e := ' ') rfl, hne (e := '\n') rfl, hne (e := '\t') rfl,
        hne (e := '\r') rfl]
    refine ⟨d, _, htext, hblank, hne rfl, hle, ?_⟩
    simp only [List.cons_append] at hnumber
    simp [readWith, ofLeaf, hnumber, hvalue, hdigit, hne (e := '"') rfl, hne (e := '[') rfl,
      hne (e := '\x7b') rfl]

/-! ## Containers -/

/-- What follows an item of a list ends a number. -/
theorem SpellsItems.ends {d : Nat} {items : List Json} {cs : List Char}
    (h : SpellsItems d false items cs) (rest : List Char) : Scan.Ends (cs ++ rest) := by
  cases h with
  | close h =>
    rw [List.append_assoc]
    exact ends_of_blanks h (by rintro _ ⟨⟩; decide) rest
  | item hgap =>
    rw [List.append_assoc]
    exact hgap.ends _

theorem SpellsMembers.ends {d : Nat} {members : List (String × Json)} {cs : List Char}
    (h : SpellsMembers d false members cs) (rest : List Char) : Scan.Ends (cs ++ rest) := by
  cases h with
  | close h =>
    rw [List.append_assoc]
    exact ends_of_blanks h (by rintro _ ⟨⟩; decide) rest
  | member hgap =>
    rw [List.append_assoc]
    exact hgap.ends _

mutual

/-- A text that spells a value is read as that value. -/
theorem consumes_of_spells : ∀ (j : Json) {d : Nat} {cs : List Char} (rest : List Char),
    Spells d j cs → Scan.Ends rest → Consumes (readValue d) (cs ++ rest) j.toNode rest
  | .null, d, _, rest, .null, _ => by
    cases d <;> exact consumes_word ['u', 'l', 'l'] (fun _ => rfl) rfl (by decide)
  | .bool true, d, _, rest, .true, _ => by
    cases d <;> exact consumes_word ['r', 'u', 'e'] (fun _ => rfl) rfl (by decide)
  | .bool false, d, _, rest, .false, _ => by
    cases d <;> exact consumes_word ['a', 'l', 's', 'e'] (fun _ => rfl) rfl (by decide)
  | .number (.int n), d, _, rest, .integer h, hrest => by
    cases d <;> exact consumes_integer h hrest
  | .string s, d, _, rest, .string, _ => by
    cases d <;> exact consumes_string s
  | .array items, _, _, rest, .array h, _ => by
    obtain ⟨h', hread⟩ := readItems_of_spells items rest [] h (Nat.le_refl _)
    exact ⟨'[', _, rfl, rfl, by decide, h', hread⟩
  | .object members, _, _, rest, .object h, _ => by
    obtain ⟨h', hread⟩ := readMembers_of_spells members rest [] h (Nat.le_refl _)
    exact ⟨'\x7b', _, rfl, rfl, by decide, h', hread⟩

theorem readItems_of_spells : ∀ (items : List Json) {d : Nat} {cs : List Char} (rest : List Char)
    (done : List Node), SpellsItems d done.isEmpty items cs → ∀ {n : Nat} (h : (cs ++ rest).length ≤ n),
    ∃ h', readItems (readValue d) n done (cs ++ rest) h =
      (.array (done.reverse ++ toNodes items) none, ⟨rest, h'⟩)
  | [], d, cs, rest, done, hs, n, h => by
    cases hs with
    | @close _ _ ws hws =>
      obtain ⟨hr, hnext⟩ := nextItem_close done.isEmpty hws rest
      simp only [List.append_assoc, List.cons_append, List.nil_append] at h ⊢
      refine ⟨by omega, ?_⟩
      rw [readItems, hnext]
      simp [toNodes]
  | j :: items, d, cs, rest, done, hs, n, h => by
    cases hs with
    | @item _ _ gap _ cs _ cs' hgap hj hitems =>
      -- An item may be a number, which the text behind it must not continue.
      obtain ⟨c, text, htext, hblank, hclose, hle, hvalue⟩ :=
        consumes_of_spells j _ hj (hitems.ends rest)
      obtain ⟨hr, hnext⟩ := nextItem_item hgap hblank hclose text
      simp only [List.append_assoc, htext] at h ⊢
      rw [readItems, hnext]
      simp only [hvalue, skipFlaw?_toNode]
      obtain ⟨h', hread⟩ := readItems_of_spells items rest (j.toNode :: done) hitems (n := n) (by omega)
      exact ⟨h', by simp [hread, toNodes]⟩

theorem readMembers_of_spells : ∀ (members : List (String × Json)) {d : Nat} {cs : List Char}
    (rest : List Char) (done : List (Except Flaw String × Node)), SpellsMembers d done.isEmpty members cs →
    ∀ {n : Nat} (h : (cs ++ rest).length ≤ n), ∃ h', readMembers (readValue d) n done (cs ++ rest) h =
      (.object (done.reverse ++ toNodeMembers members) none, ⟨rest, h'⟩)
  | [], d, cs, rest, done, hs, n, h => by
    cases hs with
    | @close _ _ ws hws =>
      obtain ⟨hr, hnext⟩ := nextMember_close done.isEmpty hws rest
      simp only [List.append_assoc, List.cons_append, List.nil_append] at h ⊢
      refine ⟨by omega, ?_⟩
      rw [readMembers, hnext]
      simp [toNodeMembers]
  | (k, j) :: members, d, cs, rest, done, hs, n, h => by
    cases hs with
    | @member _ _ gap _ ws ws' _ cs _ cs' hgap hws hws' hj hmembers =>
      obtain ⟨c, text, htext, hblank, -, hle, hvalue⟩ :=
        consumes_of_spells j _ hj (hmembers.ends rest)
      obtain ⟨hkey, hafter⟩ := afterKey_value hws hws' hblank text
      have hquoted : ∀ behind, (stringText k).toList ++ behind =
          '"' :: (k.toList.flatMap escapeChar ++ '"' :: behind) := by
        simp [stringText]
      obtain ⟨hr, hnext⟩ := nextMember_key hgap
        (k.toList.flatMap escapeChar ++ '"' :: (ws ++ ':' :: (ws' ++ c :: text)))
      have hbehind : (ws ++ ':' :: (ws' ++ c :: text)).length ≤
          (k.toList.flatMap escapeChar ++ '"' :: (ws ++ ':' :: (ws' ++ c :: text))).length := by
        simp only [List.length_append, List.length_cons]
        omega
      have hstring := Scan.string_escaped k.toList _ [] _ (Nat.le_refl _) hbehind
      simp only [List.append_assoc, List.cons_append, htext, hquoted] at h ⊢
      rw [readMembers, hnext]
      simp only [hstring, hafter, hvalue, skipFlaw?_toNode]
      obtain ⟨h', hread⟩ := readMembers_of_spells members rest ((.ok k, j.toNode) :: done) hmembers
        (n := n) (by omega)
      exact ⟨h', by simp [hread, toNodeMembers]⟩

end

/-- A whole text that spells a value is that value, without a flaw. -/
theorem Document.ofText_of_spells {j : Json} {text : String} (h : Spells maxNesting j text.toList) :
    Document.ofText text = { root := j.toNode, trailing := false } := by
  obtain ⟨c, cs, hcs, hblank, -, hle, hvalue⟩ := consumes_of_spells j [] h nofun
  rw [List.append_nil] at hcs
  have hskip : Scan.skipBlanks text.toList = c :: cs := by
    rw [hcs]
    exact Scan.skipBlanks_append blanks_nil hblank cs
  simp only [ofText, hskip, hvalue]
  rfl

/-- A decoder gets the value that a text spells. -/
theorem read_of_spells {α : Type} (decoder : Decoder α) {j : Json} {text : String}
    (h : Spells maxNesting j text.toList) : read decoder text = decoder j.toNode := by
  rw [read, Document.ofText_of_spells h, Document.decode]
  cases decoder j.toNode <;> rfl

end Flowchart.Json
