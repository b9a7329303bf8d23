/-
Values and environments as JSON. They come back from every way to write them, with each decimal at its
scale, and only zero may lose its sign; so what is written after that is the same text up to the
signs of zeros (`values_survive_json`).
-/
import Flowchart.Environment.Json
import Flowchart.Proofs.Json.Reading

namespace Flowchart

/-! ## Texts up to the signs of zeros -/

namespace Json

/-- The second text is the first one, where some zeros in quotes have lost their sign. -/
inductive SameText : String → String → Prop
  | refl {t} : SameText t t
  | append {s s' t t'} (h : SameText s s') (h' : SameText t t') : SameText (s ++ t) (s' ++ t')
  | zero {k} : SameText ("\"-" ++ Decimal.zeroText k ++ "\"") ("\"" ++ Decimal.zeroText k ++ "\"")

namespace SameText

theorem intercalate {sep : String} {texts texts' : List String}
    (h : List.Forall₂ SameText texts texts') : SameText (sep.intercalate texts) (sep.intercalate texts') := by
  induction h with
  | nil => exact .refl
  | cons ht htexts ih =>
    cases htexts with
    | nil => simpa using ht
    | cons =>
      rw [String.intercalate_cons_cons, String.intercalate_cons_cons]
      exact .append (.append ht .refl) ih

theorem layout {opening closing : String} {indent : Nat} {lines lines' : List String}
    (h : List.Forall₂ SameText lines lines') :
    SameText (Json.layout opening closing indent lines) (Json.layout opening closing indent lines') := by
  obtain rfl | hlines := eq_or_ne lines []
  · cases h
    exact .refl
  · have hlines' : lines' ≠ [] := by
      rintro rfl
      exact hlines (List.forall₂_nil_right_iff.1 h)
    rw [layout_of_ne_nil hlines, layout_of_ne_nil hlines']
    exact .append (.append (.append .refl (intercalate h)) .refl) .refl

section
variable {members members' : List (String × Json)}

/-- Objects whose members are written the same are written the same. -/
theorem compact_object
    (h : List.Forall₂ (fun m m' => m.1 = m'.1 ∧ SameText m.2.compact m'.2.compact) members members') :
    SameText (object members).compact (object members').compact := by
  rw [compact, compact, compactMembers_eq, compactMembers_eq]
  refine .append (.append .refl (intercalate ?_)) .refl
  rw [List.forall₂_map_left_iff, List.forall₂_map_right_iff]
  exact h.imp fun m m' hm => hm.1 ▸ .append .refl hm.2

theorem prettyFrom_object {indent : Nat}
    (h : List.Forall₂ (fun m m' => m.1 = m'.1 ∧
      SameText (prettyFrom (indent + 2) m.2) (prettyFrom (indent + 2) m'.2)) members members') :
    SameText (prettyFrom indent (object members)) (prettyFrom indent (object members')) := by
  rw [prettyFrom, prettyFrom, prettyMembers_eq, prettyMembers_eq]
  refine layout ?_
  rw [List.forall₂_map_left_iff, List.forall₂_map_right_iff]
  exact h.imp fun m m' hm => hm.1 ▸ .append .refl hm.2

end

end SameText

theorem stringText_eq {s : String} (h : ∀ c ∈ s.toList, escapeChar c = [c]) :
    stringText s = "\"" ++ s ++ "\"" := by
  have hflat : s.toList.flatMap escapeChar = s.toList := by
    rw [List.flatMap_congr h, List.flatMap_singleton']
  rw [← String.toList_inj]
  simp [stringText, hflat]

/-- Reading a decimal and writing it again changes the text only if it is a negative zero. -/
theorem sameText_zeroUnsigned (d : Decimal) :
    SameText (stringText d.toText) (stringText d.zeroUnsigned.toText) := by
  by_cases h : d.negative = true ∧ d.mantissa = 0
  · obtain ⟨hnegative, hzero⟩ := h
    have hplain : ∀ c ∈ (Decimal.zeroText d.scale).toList, escapeChar c = [c] := by
      intro c hc
      rcases Decimal.mem_zeroText hc with rfl | rfl <;> rfl
    have hbefore : d.toText = "-" ++ Decimal.zeroText d.scale := by
      simp [Decimal.toText_of_mantissa_eq_zero hzero, hnegative]
    have hzero' : d.zeroUnsigned.mantissa = 0 := hzero
    have hafter : d.zeroUnsigned.toText = Decimal.zeroText d.scale := by
      rw [Decimal.toText_of_mantissa_eq_zero hzero']
      simp [Decimal.zeroUnsigned, hzero]
    have hsigned : ∀ c ∈ ("-" ++ Decimal.zeroText d.scale).toList, escapeChar c = [c] := by
      rw [String.toList_append]
      exact List.forall_mem_cons.2 ⟨rfl, hplain⟩
    rw [hbefore, hafter, stringText_eq hplain, stringText_eq hsigned, ← String.append_assoc]
    exact .zero
  · rw [Decimal.zeroUnsigned_eq_self h]
    exact .refl

/-- What is written as JSON, on one line or indented, comes back as `a'`, and `a'` is written as the same
texts up to the signs of zeros. -/
structure Survives {α : Type} (toJson : α → Json) (decoder : Decoder α) (a a' : α) : Prop where
  value : decoder (toJson a).toNode = .ok a'
  compact : read decoder (toJson a).compact = .ok a'
  pretty : read decoder (toJson a).pretty = .ok a'
  compactText : SameText (toJson a).compact (toJson a').compact
  prettyText : SameText (toJson a).pretty (toJson a').pretty

theorem survives_of_plain {α : Type} {toJson : α → Json} {decoder : Decoder α} {a a' : α}
    (hplain : Plain maxNesting (toJson a)) (hvalue : decoder (toJson a).toNode = .ok a')
    (hcompact : SameText (toJson a).compact (toJson a').compact)
    (hpretty : SameText (toJson a).pretty (toJson a').pretty) : Survives toJson decoder a a' where
  value := hvalue
  compact := (read_compact decoder hplain).trans hvalue
  pretty := (read_pretty decoder hplain).trans hvalue
  compactText := hcompact
  prettyText := hpretty

end Json

/-! ## Values -/

namespace Value

open Json

/-- Equal values: one boolean, or decimals of one value and one scale, where only zero may differ in its
sign. -/
inductive Same : Value → Value → Prop
  | bool {b} : Same (.bool b) (.bool b)
  | decimal {a b : Decimal} (hvalue : a.compare b = .eq) (hscale : a.scale = b.scale)
      (hsign : a.negative = b.negative ∨ a.isZero = true) : Same (.decimal a) (.decimal b)

/-- The same value, where zero has no sign. -/
def zeroUnsigned : Value → Value
  | .decimal d => .decimal d.zeroUnsigned
  | .bool b => .bool b

theorem same_zeroUnsigned (v : Value) : v.Same v.zeroUnsigned := by
  cases v with
  | bool b => exact .bool
  | decimal d =>
    refine .decimal d.compare_zeroUnsigned rfl ?_
    by_cases h : d.negative = true ∧ d.mantissa = 0
    · exact .inr (by simp [Decimal.isZero, h.2])
    · exact .inl (by rw [Decimal.zeroUnsigned_eq_self h])

theorem decode_toJson (v : Value) : decode v.toJson.toNode = .ok v.zeroUnsigned := by
  cases v with
  | bool b => rfl
  | decimal d =>
    have hcontent : decodeDecimal (.string d.toText) = .ok d.zeroUnsigned := by
      rw [decodeDecimal, Decimal.ofText_toText]
    -- The type is written first, so the content is never set aside.
    have htype : Draft.step decodeType .empty "type" (.string "decimal") = .ok (.typed .decimal) := rfl
    have hvalue : Draft.step decodeType (.typed .decimal) "value" (.string d.toText) =
        .ok (.complete (.decimal d.zeroUnsigned)) := by
      show ((decodeDecimal (.string d.toText)).map Value.decimal).map Draft.complete = _
      rw [hcontent]
      rfl
    simp only [decode, toJson, toNode, toNodeMembers, Decode.foldMembers, htype, bind, Except.bind, hvalue]
    rfl

theorem plain_toJson (d : Nat) (v : Value) : Plain (d + 1) v.toJson := by
  cases v <;> exact .object (by simp [Plain.string, Plain.bool])

theorem sameText_compact (v : Value) : SameText v.toJson.compact v.zeroUnsigned.toJson.compact := by
  cases v with
  | bool b => exact .refl
  | decimal d => exact .compact_object (by simp [SameText.refl, sameText_zeroUnsigned, compact])

theorem sameText_pretty (v : Value) (indent : Nat) :
    SameText (prettyFrom indent v.toJson) (prettyFrom indent v.zeroUnsigned.toJson) := by
  cases v with
  | bool b => exact .refl
  | decimal d => exact .prettyFrom_object (by simp [SameText.refl, sameText_zeroUnsigned, prettyFrom])

theorem survives (v : Value) : Survives toJson decode v v.zeroUnsigned :=
  survives_of_plain (v.plain_toJson 126) v.decode_toJson v.sameText_compact (v.sameText_pretty 0)

end Value

/-! ## Environments -/

namespace Environment

open Json

/-- Members in the order of their names are added one by one at the end. -/
theorem foldMembers_toNodeMembers {env : Environment} {l : List (String × Value)}
    (h : (env.entries.map Prod.fst ++ l.map Prod.fst).Pairwise (· < ·)) :
    ∃ env', Decode.foldMembers
        (fun (env : Environment) name node => return env.insert name (← Value.decode node)) env
        (toNodeMembers (l.map fun p => (p.1, p.2.toJson))) = .ok env' ∧
      env'.entries = env.entries ++ l.map fun p => (p.1, p.2.zeroUnsigned) := by
  induction l generalizing env with
  | nil => exact ⟨env, rfl, by simp⟩
  | cons p l ih =>
    obtain ⟨name, v⟩ := p
    have hname : ∀ q ∈ env.entries, q.1 < name := fun q hq =>
      (List.pairwise_append.1 h).2.2 q.1 (List.mem_map_of_mem hq) name List.mem_cons_self
    have hentries : (env.insert name v.zeroUnsigned).entries = env.entries ++ [(name, v.zeroUnsigned)] :=
      Assoc.insert_of_forall_lt _ hname
    have hsorted : ((env.insert name v.zeroUnsigned).entries.map Prod.fst ++ l.map Prod.fst).Pairwise
        (· < ·) := by
      simpa [hentries] using h
    obtain ⟨env', hfold, henv'⟩ := ih hsorted
    refine ⟨env', ?_, by simp [henv', hentries]⟩
    simp only [List.map_cons, toNodeMembers, Decode.foldMembers, Value.decode_toJson]
    exact hfold

/-- An environment is read from its members as it was, up to the signs of zeros. -/
theorem decode_toJson (env : Environment) : ∃ env', decode env.toJson.toNode = .ok env' ∧
    env'.entries = env.entries.map fun p => (p.1, p.2.zeroUnsigned) := by
  have hsorted : (empty.entries.map Prod.fst ++ env.entries.map Prod.fst).Pairwise (· < ·) :=
    List.pairwise_map.2 env.sorted
  obtain ⟨env', hfold, hentries⟩ := foldMembers_toNodeMembers hsorted
  refine ⟨env', ?_, hentries⟩
  simp only [toJson, toNode, decode]
  rw [hfold]
  rfl

theorem plain_toJson (d : Nat) (env : Environment) : Plain (d + 2) env.toJson := by
  refine .object fun m hm => ?_
  obtain ⟨p, -, rfl⟩ := List.mem_map.1 hm
  exact p.2.plain_toJson d

theorem survives (env : Environment) : ∃ env', Survives toJson decode env env' ∧
    env'.entries = env.entries.map fun p => (p.1, p.2.zeroUnsigned) := by
  obtain ⟨env', hdecode, hentries⟩ := decode_toJson env
  refine ⟨env', survives_of_plain (plain_toJson 125 env) hdecode (.compact_object ?_)
    (.prettyFrom_object ?_), hentries⟩
  · rw [hentries, List.map_map, List.forall₂_map_left_iff, List.forall₂_map_right_iff]
    exact List.forall₂_same.2 fun p _ => ⟨rfl, p.2.sameText_compact⟩
  · rw [hentries, List.map_map, List.forall₂_map_left_iff, List.forall₂_map_right_iff]
    exact List.forall₂_same.2 fun p _ => ⟨rfl, p.2.sameText_pretty 2⟩

/-- **Values and environments survive as JSON.** A value comes back equal and of its type, and so does an
environment, with its names in their order; a decimal keeps its scale, whatever its mantissa. Only
zeros may lose their sign, and nothing else changes when the result is written again. -/
theorem values_survive_json :
    (∀ v : Value, ∃ v', Survives Value.toJson Value.decode v v' ∧ v.Same v') ∧
    (∀ env : Environment, ∃ env', Survives toJson decode env env' ∧
      List.Forall₂ (fun p q => p.1 = q.1 ∧ p.2.Same q.2) env.entries env'.entries) := by
  constructor
  · intro v
    exact ⟨v.zeroUnsigned, v.survives, v.same_zeroUnsigned⟩
  · intro env
    obtain ⟨env', hsurvives, hentries⟩ := survives env
    refine ⟨env', hsurvives, ?_⟩
    rw [hentries]
    exact forall₂_map fun p _ => ⟨rfl, p.2.same_zeroUnsigned⟩

end Environment

end Flowchart
