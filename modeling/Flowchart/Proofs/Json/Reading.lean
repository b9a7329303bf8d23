/-
What reading can give. Whatever the text, the brackets of its value nest no deeper than the reader
goes, and an integer has at most 64 bits (`within_readValue`). A value that is read from such a
text has the members of its objects in increasing order of their names. So if it has no floating
point numbers it can be stored (`storable_of_any`), and a value that can be stored is read again
as it was (`any_toNode`).
-/
import Flowchart.Proofs.Json.Writing

namespace Flowchart

namespace Json

/-! ## Numbers -/

namespace Scan

theorem wholeDigits_fst_lt {m : Nat} (hm : m < significandBound) (dropped : Nat) (ds : List Char) :
    (wholeDigits m dropped ds).1 < significandBound := by
  induction ds generalizing m dropped with
  | nil => exact hm
  | cons c ds ih =>
    rw [wholeDigits]
    split
    next h => exact ih h.2 0
    next => exact ih hm _

theorem fits_of_integerValue {negative : Bool} {m dropped : Nat} (hm : m < significandBound) {n : Int}
    (h : integerValue negative m dropped = .ok (.int n)) : Fits n := by
  have hm : m < 2 ^ 64 := hm
  unfold integerValue at h
  split at h
  · cases h
    exact ⟨by omega, by omega⟩
  · split at h
    next hbound =>
      have hbound : m ≤ 2 ^ 63 := hbound.2.2
      cases h
      exact ⟨by omega, by omega⟩
    next => split at h <;> cases h

theorem floatValue_ne_int (negative : Bool) (m : Nat) (e n : Int) :
    floatValue negative m e ≠ .ok (.int n) := by
  unfold floatValue
  split <;> simp

theorem noDigit_value_ne_ok {α : Type} {n : Nat} (cs : List Char) (a : α) :
    (noDigit cs : Leaf α n).value ≠ .ok a := by
  simp [noDigit]

theorem exponent_value_ne_int {negative : Bool} {m : Nat} {e i : Int} {n : Nat} {cs : List Char}
    {h : cs.length ≤ n} : (exponent negative m e n cs h).value ≠ .ok (.int i) := by
  simp only [exponent]
  split
  · exact noDigit_value_ne_ok _ _
  · exact floatValue_ne_int _ _ _ _

theorem places_value_ne_int {negative : Bool} {m : Nat} {e i : Int} {n : Nat} {cs : List Char}
    {h : cs.length ≤ n} : (places negative m e n cs h).value ≠ .ok (.int i) := by
  simp only [places]
  split
  · exact noDigit_value_ne_ok _ _
  split
  · exact floatValue_ne_int _ _ _ _
  split
  · exact exponent_value_ne_int
  · exact floatValue_ne_int _ _ _ _

/-- An integer that was read has at most 64 bits. -/
theorem fits_of_number {negative : Bool} {cs : List Char} {n : Int}
    (h : (number negative cs).value = .ok (.int n)) : Fits n := by
  have hm := wholeDigits_fst_lt (by decide : 0 < significandBound) 0 (cs.takeWhile Char.isDigit)
  simp only [number] at h
  split at h
  · exact absurd h (noDigit_value_ne_ok _ _)
  split at h
  · cases h
  split at h
  · exact fits_of_integerValue hm h
  split at h
  · exact absurd h places_value_ne_int
  split at h
  · exact absurd h exponent_value_ne_int
  · exact fits_of_integerValue hm h

end Scan

/-! ## Nodes -/

/-- Brackets nest at most `d` deep, and integers have at most 64 bits. -/
inductive Node.Within : (d : Nat) → Node → Prop
  | null {d} : Within d .null
  | bool {d b} : Within d (.bool b)
  | integer {d n} (h : Fits n) : Within d (.number (.int n))
  | float {d x} : Within d (.number (.float x))
  | string {d s} : Within d (.string s)
  | array {d items ending} (h : ∀ node ∈ items, Within d node) : Within (d + 1) (.array items ending)
  | object {d members ending} (h : ∀ m ∈ members, Within d m.2) : Within (d + 1) (.object members ending)
  | broken {d lead f skipped} : Within d (.broken lead f skipped)

namespace Node

variable {d : Nat}

theorem Within.array_reverse {done : List Node} {ending : Option Stop}
    (h : ∀ node ∈ done, node.Within d) : (Node.array done.reverse ending).Within (d + 1) :=
  .array fun node hnode => h node (List.mem_reverse.1 hnode)

theorem Within.object_reverse {done : List (Except Flaw String × Node)} {ending : Option Stop}
    (h : ∀ m ∈ done, m.2.Within d) : (Node.object done.reverse ending).Within (d + 1) :=
  .object fun m hm => h m (List.mem_reverse.1 hm)

end Node

section
variable {d : Nat}

theorem within_readItems {value : ValueReader} (hvalue : ∀ c rest, (value c rest).1.Within d) {n : Nat}
    {done : List Node} {cs : List Char} {h : cs.length ≤ n} (hdone : ∀ node ∈ done, node.Within d) :
    (readItems value n done cs h).1.Within (d + 1) := by
  fun_induction readItems value n done cs h with
  | case1 => exact .array_reverse hdone
  | case2 => exact .array_reverse hdone
  | case3 done cs h c rest hr hnext node rest' hr' hread f hf =>
    have hnode : node.Within d := by simpa [hread] using hvalue c rest
    exact .array_reverse (List.forall_mem_cons.2 ⟨hnode, hdone⟩)
  | case4 done cs h c rest hr hnext node rest' hr' hread hf ih =>
    have hnode : node.Within d := by simpa [hread] using hvalue c rest
    exact ih (List.forall_mem_cons.2 ⟨hnode, hdone⟩)

theorem within_readMembers {value : ValueReader} (hvalue : ∀ c rest, (value c rest).1.Within d) {n : Nat}
    {done : List (Except Flaw String × Node)} {cs : List Char} {h : cs.length ≤ n}
    (hdone : ∀ m ∈ done, m.2.Within d) : (readMembers value n done cs h).1.Within (d + 1) := by
  fun_induction readMembers value n done cs h with
  | case1 => exact .object_reverse hdone
  | case2 => exact .object_reverse hdone
  | case3 => exact .object_reverse (List.forall_mem_cons.2 ⟨.broken, hdone⟩)
  | case4 => exact .object_reverse (List.forall_mem_cons.2 ⟨.broken, hdone⟩)
  | case5 done cs h _ rest _ _ _ _ _ _ c rest' _ _ node _ _ hread =>
    have hnode : node.Within d := by simpa [hread] using hvalue c rest'
    exact .object_reverse (List.forall_mem_cons.2 ⟨hnode, hdone⟩)
  | case6 done cs h rest _ _ _ _ _ _ c rest' _ _ node _ _ hread _ ih =>
    have hnode : node.Within d := by simpa [hread] using hvalue c rest'
    exact ih (List.forall_mem_cons.2 ⟨hnode, hdone⟩)

theorem within_ofLeaf {α : Type} {n : Nat} {lead : Char} {make : α → Node} {leaf : Scan.Leaf α n}
    (h : ∀ a, leaf.value = .ok a → (make a).Within d) : (ofLeaf lead make leaf).1.Within d := by
  unfold ofLeaf
  split
  next hvalue _ => exact h _ hvalue
  all_goals exact .broken

theorem within_number {negative : Bool} {lead : Char} {cs : List Char} :
    (ofLeaf lead .number (Scan.number negative cs)).1.Within d := by
  refine within_ofLeaf fun n hn => ?_
  cases n with
  | int n => exact .integer (Scan.fits_of_number hn)
  | float x => exact .float

theorem within_ofWord {n : Nat} {lead : Char} {node : Node} {after : Except Flaw (Scan.Rest n)}
    (h : node.Within d) : (ofWord lead node after).1.Within d := by
  unfold ofWord
  split
  · exact h
  · exact .broken

theorem within_tooDeep {lead : Char} {frame : Frame} {rest : List Char} :
    (tooDeep lead frame rest).1.Within d := by
  unfold tooDeep
  split <;> exact .broken

/-- One level of brackets more than what stands in them. -/
theorem within_readWith {inner : Option ValueReader}
    (h : ∀ value ∈ inner, ∃ e, d = e + 1 ∧ ∀ c rest, (value c rest).1.Within e) (c : Char)
    (rest : List Char) : (readWith inner c rest).1.Within d := by
  unfold readWith
  split
  · exact within_ofLeaf fun _ _ => .string
  split
  · split
    next value =>
      obtain ⟨e, rfl, hvalue⟩ := h value rfl
      exact within_readItems hvalue nofun
    next => exact within_tooDeep
  split
  · split
    next value =>
      obtain ⟨e, rfl, hvalue⟩ := h value rfl
      exact within_readMembers hvalue nofun
    next => exact within_tooDeep
  split
  · exact within_number
  split
  · exact within_number
  split
  · exact within_ofWord .null
  split
  · exact within_ofWord .bool
  split
  · exact within_ofWord .bool
  · exact .broken

/-- What is read nests no deeper than the reader goes. -/
theorem within_readValue (d : Nat) : ∀ c rest, (readValue d c rest).1.Within d := by
  induction d with
  | zero => exact within_readWith nofun
  | succ d ih =>
    refine within_readWith ?_
    rintro _ ⟨⟩
    exact ⟨d, rfl, ih⟩

theorem Document.within_ofText (text : String) : (ofText text).root.Within maxNesting := by
  unfold ofText
  split
  · exact .broken
  next c rest _ => exact within_readValue maxNesting c rest

end

/-! ## Values -/

mutual

/-- Whether some number of the value is floating point. -/
def hasFloat : Json → Bool
  | number (.float _) => true
  | array items => hasFloatItems items
  | object members => hasFloatMembers members
  | _ => false

def hasFloatItems : List Json → Bool
  | [] => false
  | j :: rest => hasFloat j || hasFloatItems rest

def hasFloatMembers : List (String × Json) → Bool
  | [] => false
  | (_, j) :: rest => hasFloat j || hasFloatMembers rest

end

theorem hasFloatItems_eq_false_iff {items : List Json} :
    hasFloatItems items = false ↔ ∀ j ∈ items, j.hasFloat = false := by
  induction items with
  | nil => simp [hasFloatItems]
  | cons j items ih => simp [hasFloatItems, ih]

theorem hasFloatMembers_eq_false_iff {members : List (String × Json)} :
    hasFloatMembers members = false ↔ ∀ m ∈ members, m.2.hasFloat = false := by
  induction members with
  | nil => simp [hasFloatMembers]
  | cons m members ih => simp [hasFloatMembers, ih]

/-- A value that text keeps. Brackets nest at most `d` deep, all numbers are integers of 64 bits, and
the members of an object are in increasing order of their names. -/
inductive Storable : (d : Nat) → Json → Prop
  | null {d} : Storable d .null
  | bool {d b} : Storable d (.bool b)
  | integer {d n} (h : Fits n) : Storable d (.number (.int n))
  | string {d s} : Storable d (.string s)
  | array {d items} (h : ∀ j ∈ items, Storable d j) : Storable (d + 1) (.array items)
  | object {d members} (hsorted : Assoc.Sorted members) (h : ∀ m ∈ members, Storable d m.2) :
      Storable (d + 1) (.object members)

theorem Storable.plain {d : Nat} {j : Json} (h : Storable d j) : Plain d j := by
  induction h with
  | null => exact .null
  | bool => exact .bool
  | integer h => exact .integer h
  | string => exact .string
  | array _ ih => exact .array ih
  | object _ _ ih => exact .object ih

theorem toNodes_eq (items : List Json) : toNodes items = items.map toNode := by
  induction items with
  | nil => rfl
  | cons j items ih => simp [toNodes, ih]

theorem toNodeMembers_eq (members : List (String × Json)) :
    toNodeMembers members = members.map fun m => (.ok m.1, m.2.toNode) := by
  induction members with
  | nil => rfl
  | cons m members ih => simp [toNodeMembers, ih]

theorem atEnd_eq_ok_iff {ending : Option Stop} {u : Unit} : Decode.atEnd ending = .ok u ↔ ending = none := by
  cases ending <;> simp [Decode.atEnd]

theorem anyItems_eq_ok_iff {nodes : List Node} {items : List Json} :
    Decode.anyItems nodes = .ok items ↔
      List.Forall₂ (fun node j => Decode.any node = .ok j) nodes items := by
  induction nodes generalizing items with
  | nil => simp [Decode.anyItems, eq_comm]
  | cons node nodes ih =>
    simp only [Decode.anyItems, bind_eq_ok_iff, ih, List.forall₂_cons_left_iff]
    simp [pure, Except.pure, eq_comm]

theorem anyMembers_eq_ok_iff {ms : List (Except Flaw String × Node)} {members : List (String × Json)} :
    Decode.anyMembers ms = .ok members ↔
      List.Forall₂ (fun m p => m.1 = .ok p.1 ∧ Decode.any m.2 = .ok p.2) ms members := by
  induction ms generalizing members with
  | nil => simp [Decode.anyMembers, eq_comm]
  | cons m ms ih =>
    obtain ⟨key, node⟩ := m
    cases key with
    | error f => simp [Decode.anyMembers, List.forall₂_cons_left_iff]
    | ok key =>
      simp only [Decode.anyMembers, bind_eq_ok_iff, ih, List.forall₂_cons_left_iff]
      simp [pure, Except.pure, eq_comm]

theorem any_array_eq_ok_iff {items : List Node} {ending : Option Stop} {j : Json} :
    Decode.any (.array items ending) = .ok j ↔
      ∃ l, List.Forall₂ (fun node j => Decode.any node = .ok j) items l ∧ ending = none ∧ array l = j := by
  simp [Decode.any, bind_eq_ok_iff, anyItems_eq_ok_iff, atEnd_eq_ok_iff, pure, Except.pure]

theorem any_object_eq_ok_iff {ms : List (Except Flaw String × Node)} {ending : Option Stop} {j : Json} :
    Decode.any (.object ms ending) = .ok j ↔
      ∃ l, List.Forall₂ (fun m p => m.1 = .ok p.1 ∧ Decode.any m.2 = .ok p.2) ms l ∧ ending = none ∧
        ofMembers l = j := by
  simp [Decode.any, bind_eq_ok_iff, anyMembers_eq_ok_iff, atEnd_eq_ok_iff, pure, Except.pure]

/-- A value that text keeps is read as it was. -/
theorem any_toNode {d : Nat} {j : Json} (h : Storable d j) : Decode.any j.toNode = .ok j := by
  induction h with
  | null | bool | integer | string => rfl
  | @array d items _ ih =>
    rw [toNode, any_array_eq_ok_iff, toNodes_eq]
    exact ⟨items, List.forall₂_map_left_iff.2 (List.forall₂_same.2 ih), rfl, rfl⟩
  | @object d members hsorted _ ih =>
    rw [toNode, any_object_eq_ok_iff, toNodeMembers_eq]
    refine ⟨members, List.forall₂_map_left_iff.2 (List.forall₂_same.2 fun m hm => ⟨rfl, ih m hm⟩), rfl, ?_⟩
    rw [ofMembers, Assoc.ofList_of_sorted hsorted]

/-- What was read is a value that text keeps, unless it has a floating point number. -/
theorem storable_of_any {d : Nat} {node : Node} (hnode : node.Within d) {j : Json}
    (h : Decode.any node = .ok j) (hfloat : j.hasFloat = false) : Storable d j := by
  induction hnode generalizing j with
  | null =>
    cases h
    exact .null
  | bool =>
    cases h
    exact .bool
  | integer hn =>
    cases h
    exact .integer hn
  | float =>
    cases h
    cases hfloat
  | string =>
    cases h
    exact .string
  | array _ ih =>
    obtain ⟨l, hl, -, rfl⟩ := any_array_eq_ok_iff.1 h
    refine .array fun j hj => ?_
    obtain ⟨node, hmem, hnode⟩ := exists_of_mem_right hl hj
    exact ih node hmem hnode (hasFloatItems_eq_false_iff.1 hfloat j hj)
  | object _ ih =>
    obtain ⟨l, hl, -, rfl⟩ := any_object_eq_ok_iff.1 h
    refine .object (Assoc.sorted_ofList l) fun p hp => ?_
    -- Of members with one name the last is left, and that one was read like any other.
    obtain ⟨m, hmem, -, hm⟩ := exists_of_mem_right hl (Assoc.mem_of_mem_ofList hp)
    exact ih m hmem hm (hasFloatMembers_eq_false_iff.1 hfloat p hp)
  | broken => cases h

end Json

end Flowchart
