/-
Which descriptions are blocks, and what is reported of the others. A payload is read as a record: from
an object, or from an array of the fields in their order, which is read like the object with these
names (`record_toNode_eq_ok_iff`). `Says` lists the payloads that blocks of a kind may have, and what
they say. Everything else is a fault of shape, which is reported before any other; then comes the name
of the variable or the number of adjacent blocks, and the expression last
(`construct_checks_in_order`).
-/
import Flowchart.Proofs.Block
import Flowchart.Proofs.Json.Programs

namespace Flowchart

namespace Json.Decode

/-! ## Records of required fields -/

theorem string_toNode_eq_ok_iff {j : Json} {s : String} : string j.toNode = .ok s ↔ j = .string s := by
  cases j <;> simp [toNode, string, refuse_ne_ok]

section
variable {σ : Type} {step : σ → String → Node → Except ReadError σ} {s s' : σ}

/-- An array is read like an object that names its items by the fields. -/
theorem foldItems_eq_ok_iff {expected : String} {surplus : Surplus} {fields : List Field}
    (hrequired : ∀ f ∈ fields, f.required = true) {index : Nat} {items : List Json} :
    foldItems expected surplus step none index s fields (toNodes items) = .ok s' ↔
      items.length = fields.length ∧
        foldMembers step s (toNodeMembers ((fields.map Field.name).zip items)) = .ok s' := by
  induction fields generalizing index items s with
  | nil =>
    cases items with
    | nil => simp [toNodes, toNodeMembers, foldItems, foldMembers]
    | cons j items => simp [toNodes, foldItems]
  | cons field fields ih =>
    obtain ⟨hfield, hfields⟩ := List.forall_mem_cons.1 hrequired
    cases items with
    | nil => simp [toNodes, foldItems, atEnd, hfield, bind, Except.bind]
    | cons j items =>
      simp only [toNodes, foldItems, List.map_cons, List.zip_cons_cons, toNodeMembers, foldMembers,
        bind_eq_ok_iff, ih hfields, List.length_cons, Nat.add_right_cancel_iff]
      constructor
      · rintro ⟨s₁, hs₁, hlength, h⟩
        exact ⟨hlength, s₁, hs₁, h⟩
      · rintro ⟨hlength, s₁, hs₁, h⟩
        exact ⟨s₁, hs₁, hlength, h⟩

/-- A record is read from an object, or from an array with an item for each field. -/
theorem record_toNode_eq_ok_iff {kind : String} {surplus : Surplus} {fields : List Field}
    (hrequired : ∀ f ∈ fields, f.required = true) {j : Json} :
    record kind fields surplus step s j.toNode = .ok s' ↔
      ∃ members, foldMembers step s (toNodeMembers members) = .ok s' ∧
        (j = .object members ∨ ∃ items, j = .array items ∧ items.length = fields.length ∧
          members = (fields.map Field.name).zip items) := by
  cases j with
  | null | bool | number | string => simp [toNode, record, refuse_ne_ok]
  | array items =>
    simp only [toNode, record, foldItems_eq_ok_iff hrequired]
    constructor
    · rintro ⟨hlength, h⟩
      exact ⟨_, h, .inr ⟨items, rfl, hlength, rfl⟩⟩
    · rintro ⟨members, h, hj⟩
      rcases hj with hj | ⟨items', hj, hlength, rfl⟩
      · cases hj
      · cases hj
        exact ⟨hlength, h⟩
  | object members => simp [toNode, record, bind_eq_ok_iff, atEnd, pure, Except.pure]

end

/-- Takes in a field that is a string. -/
theorem once_string_eq_ok_iff {σ : Type} (set : Option String → σ) {field : String} {old : Option String}
    {j : Json} {s' : σ} :
    (once field old (string j.toNode) >>= fun o => pure (set o)) = .ok s' ↔
      old = none ∧ ∃ x, j = .string x ∧ s' = set (some x) := by
  simp only [bind_eq_ok_iff, once_eq_ok_iff, string_toNode_eq_ok_iff, pure, Except.pure]
  constructor
  · rintro ⟨_, ⟨hnone, x, hx, hsome⟩, hs'⟩
    cases hsome
    cases hs'
    exact ⟨hnone, x, hx, rfl⟩
  · rintro ⟨hnone, x, hx, hs'⟩
    cases hs'
    exact ⟨some x, ⟨hnone, x, hx, rfl⟩, rfl⟩

theorem require_eq_ok_iff {α : Type} {field : String} {o : Option α} {a : α} :
    require field o = .ok a ↔ o = some a := by
  cases o <;> simp [require]

end Json.Decode

open Json

/-! ## What payloads say -/

/-- The content of a payload. -/
inductive Content
  | nothing
  | assignment (name source : String)
  | condition (source : String)

/-- The payloads that blocks of a kind may have. -/
inductive Says : BlockKind → Json → Content → Prop
  | null : Says .start .null .nothing
  | noMembers : Says .start (.object []) .nothing
  | assignment {kind type key key' name source members} (hkind : kind.assignedType? = some type)
      (hkey : key ∈ ["name", "variable_name"]) (hkey' : key' ∈ ["expression", "variable_value"])
      (hmembers : members.Perm [(key, .string name), (key', .string source)]) :
      Says kind (.object members) (.assignment name source)
  | assignmentItems {kind type name source} (hkind : kind.assignedType? = some type) :
      Says kind (.array [.string name, .string source]) (.assignment name source)
  | condition {source} : Says .decision (.object [("condition", .string source)]) (.condition source)
  | conditionItems {source} : Says .decision (.array [.string source]) (.condition source)

namespace AssignPayload

theorem Draft.step_eq_ok_iff {s s' : Draft} {key : String} {j : Json} :
    s.step key j.toNode = .ok s' ↔
      (key ∈ ["name", "variable_name"] ∧ s.name = none ∧
        ∃ x, j = .string x ∧ s' = { s with name := some x }) ∨
      (key ∈ ["expression", "variable_value"] ∧ s.expression = none ∧
        ∃ x, j = .string x ∧ s' = { s with expression := some x }) := by
  unfold step
  split
  next hkey =>
    have hother : key ∉ ["expression", "variable_value"] := by
      rcases hkey with rfl | rfl <;> decide
    have hkey : key ∈ ["name", "variable_name"] := by simpa using hkey
    refine (Decode.once_string_eq_ok_iff fun o => Draft.mk o s.expression).trans ?_
    simp only [hkey, hother, true_and, false_and, or_false]
  next hkey =>
    have hkey : key ∉ ["name", "variable_name"] := by simpa using hkey
    split
    next hkey' =>
      have hkey' : key ∈ ["expression", "variable_value"] := by simpa using hkey'
      refine (Decode.once_string_eq_ok_iff fun o => Draft.mk s.name o).trans ?_
      simp only [hkey, hkey', true_and, false_and, false_or]
    next hkey' =>
      have hkey' : key ∉ ["expression", "variable_value"] := by simpa using hkey'
      simp only [hkey, hkey', false_and, or_self, reduceCtorEq]

/-- How many fields have been read. -/
def Draft.filled (s : Draft) : Nat := s.name.toList.length + s.expression.toList.length

theorem Draft.filled_of_step {s s' : Draft} {key : String} {j : Json} (h : s.step key j.toNode = .ok s') :
    s'.filled = s.filled + 1 := by
  rcases step_eq_ok_iff.1 h with ⟨-, hnone, x, -, rfl⟩ | ⟨-, hnone, x, -, rfl⟩
  · simp [filled, hnone]
    omega
  · simp [filled, hnone]

/-- Every member fills a field. -/
theorem Draft.filled_of_foldMembers {members : List (String × Json)} {s s' : Draft}
    (h : Decode.foldMembers step s (toNodeMembers members) = .ok s') :
    s'.filled = s.filled + members.length := by
  induction members generalizing s with
  | nil =>
    cases h
    rfl
  | cons m members ih =>
    obtain ⟨s₁, hs₁, h⟩ := bind_eq_ok_iff.1 h
    rw [ih h, filled_of_step hs₁, List.length_cons]
    omega

theorem foldMembers_eq_ok_iff {members : List (String × Json)} {name source : String} :
    Decode.foldMembers Draft.step ⟨none, none⟩ (toNodeMembers members) = .ok ⟨some name, some source⟩ ↔
      ∃ key ∈ ["name", "variable_name"], ∃ key' ∈ ["expression", "variable_value"],
        members.Perm [(key, .string name), (key', .string source)] := by
  constructor
  · intro h
    have hlength : members.length = 2 := by
      have hfilled := Draft.filled_of_foldMembers h
      simp [Draft.filled] at hfilled
      omega
    obtain ⟨⟨k₁, j₁⟩, ⟨k₂, j₂⟩, rfl⟩ := List.length_eq_two.1 hlength
    obtain ⟨s₁, hs₁, h⟩ := bind_eq_ok_iff.1 h
    obtain ⟨s₂, hs₂, h⟩ := bind_eq_ok_iff.1 h
    cases h
    rcases Draft.step_eq_ok_iff.1 hs₁ with ⟨hk₁, -, x, rfl, rfl⟩ | ⟨hk₁, -, x, rfl, rfl⟩
    · rcases Draft.step_eq_ok_iff.1 hs₂ with ⟨-, hnone, -⟩ | ⟨hk₂, -, y, rfl, heq⟩
      · cases hnone
      · cases heq
        exact ⟨k₁, hk₁, k₂, hk₂, .refl _⟩
    · rcases Draft.step_eq_ok_iff.1 hs₂ with ⟨hk₂, -, y, rfl, heq⟩ | ⟨-, hnone, -⟩
      · cases heq
        exact ⟨k₂, hk₂, k₁, hk₁, .swap ..⟩
      · cases hnone
  · rintro ⟨key, hkey, key', hkey', hmembers⟩
    have hname {s : Draft} (hs : s.name = none) :
        s.step key (Json.string name).toNode = .ok { s with name := some name } :=
      Draft.step_eq_ok_iff.2 (.inl ⟨hkey, hs, name, rfl, rfl⟩)
    have hsource {s : Draft} (hs : s.expression = none) :
        s.step key' (Json.string source).toNode = .ok { s with expression := some source } :=
      Draft.step_eq_ok_iff.2 (.inr ⟨hkey', hs, source, rfl, rfl⟩)
    rcases List.perm_pair.1 hmembers with rfl | rfl
    · exact bind_eq_ok_iff.2 ⟨_, hname rfl, bind_eq_ok_iff.2 ⟨_, hsource rfl, rfl⟩⟩
    · exact bind_eq_ok_iff.2 ⟨_, hsource rfl, bind_eq_ok_iff.2 ⟨_, hname rfl, rfl⟩⟩

/-- An assignment is read from what its payload says. -/
theorem decode_toNode_eq_ok_iff {kind : BlockKind} {type : ValueType}
    (hkind : kind.assignedType? = some type) {payload : Json} {name source : String} :
    decode payload.toNode = .ok ⟨name, source⟩ ↔ Says kind payload (.assignment name source) := by
  have hdecode : decode payload.toNode = .ok ⟨name, source⟩ ↔
      Decode.record "struct AssignPayload" [⟨"name", true⟩, ⟨"expression", true⟩] .inValue Draft.step
        ⟨none, none⟩ payload.toNode = .ok ⟨some name, some source⟩ := by
    simp only [decode, bind_eq_ok_iff, Decode.require_eq_ok_iff, pure, Except.pure]
    constructor
    · rintro ⟨⟨_, _⟩, hs, _, hname, _, hsource, heq⟩
      cases hname
      cases hsource
      cases heq
      exact hs
    · intro hs
      exact ⟨_, hs, name, rfl, source, rfl, rfl⟩
  rw [hdecode, Decode.record_toNode_eq_ok_iff (by simp)]
  constructor
  · rintro ⟨members, h, hpayload⟩
    rcases hpayload with rfl | ⟨items, rfl, hlength, rfl⟩
    · obtain ⟨key, hkey, key', hkey', hmembers⟩ := foldMembers_eq_ok_iff.1 h
      exact .assignment hkind hkey hkey' hmembers
    · obtain ⟨a, b, rfl⟩ := List.length_eq_two.1 hlength
      obtain ⟨key, hkey, key', hkey', hmembers⟩ := foldMembers_eq_ok_iff.1 h
      rcases List.perm_pair.1 hmembers with heq | heq
      · cases heq
        exact .assignmentItems hkind
      · -- The first field is no expression.
        cases heq
        simp at hkey'
  · intro h
    cases h with
    | assignment _ hkey hkey' hmembers =>
      exact ⟨_, foldMembers_eq_ok_iff.2 ⟨_, hkey, _, hkey', hmembers⟩, .inl rfl⟩
    | assignmentItems =>
      refine ⟨_, foldMembers_eq_ok_iff.2 ⟨_, by simp, _, by simp, .refl _⟩, .inr ⟨_, rfl, rfl, rfl⟩⟩

end AssignPayload

/-- A condition is the only member. -/
theorem foldCondition_eq_ok_iff {members : List (String × Json)} {source : String} :
    Decode.foldMembers (fun s key node =>
        if key = "condition" then Decode.once "condition" s (Decode.string node)
        else .error (.mismatch (.unknownField key ["condition"])))
      none (toNodeMembers members) = .ok (some source) ↔ members = [("condition", .string source)] := by
  constructor
  · intro h
    cases members with
    | nil => cases h
    | cons m members =>
      obtain ⟨key, j⟩ := m
      obtain ⟨s, hs, h⟩ := bind_eq_ok_iff.1 h
      simp only at hs
      split at hs
      next hkey =>
        obtain ⟨-, x, hx, rfl⟩ := Decode.once_eq_ok_iff.1 hs
        rw [Decode.string_toNode_eq_ok_iff] at hx
        cases members with
        | nil =>
          cases h
          rw [hkey, hx]
        | cons m members =>
          -- A second member would be a second condition, or unknown.
          obtain ⟨s, hs, -⟩ := bind_eq_ok_iff.1 h
          simp only at hs
          split at hs
          next => cases (Decode.once_eq_ok_iff.1 hs).1
          next => cases hs
      next => cases hs
  · intro h
    subst h
    rfl

/-- A condition is read from what its payload says. -/
theorem decodeDecision_toNode_eq_ok_iff {payload : Json} {source : String} :
    decodeDecision payload.toNode = .ok source ↔ Says .decision payload (.condition source) := by
  simp only [decodeDecision, bind_eq_ok_iff, Decode.require_eq_ok_iff]
  rw [exists_eq_right, Decode.record_toNode_eq_ok_iff (by simp)]
  simp only [foldCondition_eq_ok_iff]
  constructor
  · rintro ⟨members, hmembers, hpayload⟩
    subst hmembers
    rcases hpayload with rfl | ⟨items, rfl, hlength, hitems⟩
    · exact .condition
    · obtain ⟨j, rfl⟩ := List.length_eq_one_iff.1 hlength
      cases hitems
      exact .conditionItems
  · intro h
    cases h with
    | condition => exact ⟨_, rfl, .inl rfl⟩
    | conditionItems => exact ⟨_, rfl, .inr ⟨_, rfl, rfl, rfl⟩⟩

/-! ## Names -/

/-- The letters `A` to `Z` and `a` to `z`. -/
def Letter (c : Char) : Prop := 'A' ≤ c ∧ c ≤ 'Z' ∨ 'a' ≤ c ∧ c ≤ 'z'

/-- The pattern `[A-Za-z_][A-Za-z0-9_]*`. -/
def NamePattern (name : String) : Prop :=
  ∃ c rest, name.toList = c :: rest ∧ (Letter c ∨ c = '_') ∧
    ∀ d ∈ rest, Letter d ∨ '0' ≤ d ∧ d ≤ '9' ∨ d = '_'

theorem isAlpha_iff {c : Char} : c.isAlpha = true ↔ Letter c := by
  simp [Char.isAlpha, Char.isUpper, Char.isLower, Letter, Char.le_def]

theorem isNameChar_iff_pattern {c : Char} :
    Screen.isNameChar c = true ↔ Letter c ∨ '0' ≤ c ∧ c ≤ '9' ∨ c = '_' := by
  simp [Screen.isNameChar, Char.isAlphanum, isAlpha_iff, Char.isDigit, Char.le_def, or_assoc]

theorem isVariableName_iff_pattern {name : String} : isVariableName name = true ↔ NamePattern name := by
  unfold isVariableName NamePattern
  split
  next h => simp [h]
  next c rest h => simp [h, isAlpha_iff, isNameChar_iff_pattern]

/-! ## The operation, by what the payload says -/

theorem Says.assignedType {kind : BlockKind} {payload : Json} {name source : String}
    (h : Says kind payload (.assignment name source)) : ∃ type, kind.assignedType? = some type := by
  cases h with
  | assignment hkind => exact ⟨_, hkind⟩
  | assignmentItems hkind => exact ⟨_, hkind⟩

theorem Says.eq_decision {kind : BlockKind} {payload : Json} {source : String}
    (h : Says kind payload (.condition source)) : kind = .decision := by
  cases h <;> rfl

theorem says_start_iff {payload : Json} :
    (∃ content, Says .start payload content) ↔ payload = .null ∨ payload = .object [] := by
  constructor
  · rintro ⟨content, h⟩
    cases h with
    | null => exact .inl rfl
    | noMembers => exact .inr rfl
    | assignment hkind => cases hkind
    | assignmentItems hkind => cases hkind
  · intro h
    rcases h with rfl | rfl
    · exact ⟨_, .null⟩
    · exact ⟨_, .noMembers⟩

namespace BlockDescription

variable {d : BlockDescription}

theorem operation_of_assignedType {type : ValueType} (htype : d.kind.assignedType? = some type) :
    d.operation = assignOperation type d := by
  unfold operation
  split
  next hkind => rw [hkind] at htype; cases htype
  next hkind => rw [hkind] at htype; cases htype; rfl
  next hkind => rw [hkind] at htype; cases htype; rfl
  next hkind => rw [hkind] at htype; cases htype

theorem operation_of_decision (hkind : d.kind = .decision) : d.operation = decideOperation d := by
  rw [operation, hkind]

theorem operation_of_nothing (h : Says d.kind d.payload .nothing) :
    d.operation = .ok (.start d.adjacents) := by
  generalize hkind : d.kind = kind at h
  generalize hpayload : d.payload = payload at h
  cases h with
  | null => simp [operation, hkind, hpayload]
  | noMembers => simp [operation, hkind, hpayload]

theorem operation_of_assignment {type : ValueType} (htype : d.kind.assignedType? = some type)
    {name source : String} (h : Says d.kind d.payload (.assignment name source)) :
    d.operation = if isVariableName name then
      (compilePayload source).map fun e => .assign name type e d.adjacents
    else .error (.variableName name) := by
  have hread : readPayload AssignPayload.decode d.payload = .ok ⟨name, source⟩ := by
    rw [readPayload, (AssignPayload.decode_toNode_eq_ok_iff htype).2 h]
  rw [operation_of_assignedType htype, assignOperation, hread]
  show (if isVariableName name then _ else _) = _
  split
  next => cases compilePayload source <;> rfl
  next => rfl

theorem readPayload_of_condition {source : String} (h : Says d.kind d.payload (.condition source)) :
    readPayload decodeDecision d.payload = .ok source := by
  rw [readPayload, decodeDecision_toNode_eq_ok_iff.2 (h.eq_decision ▸ h)]

theorem operation_of_condition {source whenTrue whenFalse : String}
    (h : Says d.kind d.payload (.condition source)) (hadjacents : d.adjacents = [whenTrue, whenFalse]) :
    d.operation = (compilePayload source).map fun e => .decide e whenTrue whenFalse := by
  rw [operation_of_decision h.eq_decision, decideOperation, readPayload_of_condition h, hadjacents]
  show (compilePayload source >>= _) = _
  cases compilePayload source <;> rfl

theorem operation_of_miscounted {source : String} (h : Says d.kind d.payload (.condition source))
    (hadjacents : d.adjacents.length ≠ 2) :
    d.operation = .error (.adjacencyCount 2 d.adjacents.length) := by
  rw [operation_of_decision h.eq_decision, decideOperation, readPayload_of_condition h]
  simp only [bind, Except.bind]
  split
  next heq => simp [heq] at hadjacents
  next => rfl

theorem operation_of_misshapen (h : ∀ content, ¬Says d.kind d.payload content) :
    ∃ fault, d.operation = .error (.shape fault) := by
  have hread {α : Type} {decoder : Decoder α} (hno : ∀ a, decoder d.payload.toNode ≠ .ok a) :
      ∃ e, readPayload decoder d.payload = .error (.shape (.unreadable e)) := by
    unfold readPayload
    cases hdecode : decoder d.payload.toNode with
    | error e => exact ⟨e, rfl⟩
    | ok a => exact absurd hdecode (hno a)
  have hassign {type : ValueType} (htype : d.kind.assignedType? = some type) :
      ∃ fault, d.operation = .error (.shape fault) := by
    obtain ⟨e, he⟩ := hread fun p hp => h _ ((AssignPayload.decode_toNode_eq_ok_iff htype).1 hp)
    exact ⟨.unreadable e, by rw [operation_of_assignedType htype, assignOperation, he]; rfl⟩
  cases hkind : d.kind with
  | start =>
    have hpayload : ¬(d.payload = .null ∨ d.payload = .object []) := by
      rw [← says_start_iff, ← hkind]
      rintro ⟨content, hcontent⟩
      exact h content hcontent
    exact ⟨.payloadOnStart, by rw [operation, hkind]; simp only [if_neg hpayload]⟩
  | decimalAssign => exact hassign (by rw [hkind]; rfl)
  | boolAssign => exact hassign (by rw [hkind]; rfl)
  | decision =>
    obtain ⟨e, he⟩ := hread fun source hsource =>
      h _ (hkind ▸ decodeDecision_toNode_eq_ok_iff.1 hsource)
    exact ⟨.unreadable e, by rw [operation_of_decision hkind, decideOperation, he]; rfl⟩

/-! ## The checks in their order -/

/-- The description asks for this operation, and nothing is wrong with it. -/
inductive Asks (d : BlockDescription) : Operation → Prop
  | start (hcontent : Says d.kind d.payload .nothing) : Asks d (.start d.adjacents)
  | assign {type name source e} (htype : d.kind.assignedType? = some type)
      (hcontent : Says d.kind d.payload (.assignment name source)) (hname : NamePattern name)
      (he : Expression.compile source = .ok e) : Asks d (.assign name type e d.adjacents)
  | decide {source e whenTrue whenFalse} (hcontent : Says d.kind d.payload (.condition source))
      (hadjacents : d.adjacents = [whenTrue, whenFalse]) (he : Expression.compile source = .ok e) :
      Asks d (.decide e whenTrue whenFalse)

/-- The first thing that is wrong with the description. -/
inductive Breaks (d : BlockDescription) : PayloadFault → Prop
  | shape {fault} (hcontent : ∀ content, ¬Says d.kind d.payload content) : Breaks d (.shape fault)
  | variableName {name source} (hcontent : Says d.kind d.payload (.assignment name source))
      (hname : ¬NamePattern name) : Breaks d (.variableName name)
  | adjacencyCount {source} (hcontent : Says d.kind d.payload (.condition source))
      (hadjacents : d.adjacents.length ≠ 2) : Breaks d (.adjacencyCount 2 d.adjacents.length)
  | assigned {name source e} (hcontent : Says d.kind d.payload (.assignment name source))
      (hname : NamePattern name) (he : Expression.compile source = .error e) :
      Breaks d (.expression source e)
  | condition {source e} (hcontent : Says d.kind d.payload (.condition source))
      (hadjacents : d.adjacents.length = 2) (he : Expression.compile source = .error e) :
      Breaks d (.expression source e)

theorem compilePayload_of_ok {source : String} {e : Expression} (h : Expression.compile source = .ok e) :
    compilePayload source = .ok e := by
  rw [compilePayload, h]

theorem compilePayload_of_error {source : String} {e : EvalError}
    (h : Expression.compile source = .error e) :
    compilePayload source = .error (.expression source e) := by
  rw [compilePayload, h]

theorem Asks.operation_eq {op : Operation} (h : d.Asks op) : d.operation = .ok op := by
  cases h with
  | start hcontent => exact operation_of_nothing hcontent
  | assign htype hcontent hname he =>
    rw [operation_of_assignment htype hcontent, if_pos (isVariableName_iff_pattern.2 hname),
      compilePayload_of_ok he]
    rfl
  | decide hcontent hadjacents he =>
    rw [operation_of_condition hcontent hadjacents, compilePayload_of_ok he]
    rfl

/-- What is wrong is reported, a fault of shape in some words. -/
theorem Breaks.operation_eq {f : PayloadFault} (h : d.Breaks f) :
    d.operation = .error f ∨ ∃ s s', f = .shape s ∧ d.operation = .error (.shape s') := by
  cases h with
  | shape hcontent =>
    obtain ⟨fault, hfault⟩ := operation_of_misshapen hcontent
    exact .inr ⟨_, fault, rfl, hfault⟩
  | variableName hcontent hname =>
    obtain ⟨type, htype⟩ := hcontent.assignedType
    rw [← isVariableName_iff_pattern] at hname
    exact .inl (by rw [operation_of_assignment htype hcontent, if_neg hname])
  | adjacencyCount hcontent hadjacents => exact .inl (operation_of_miscounted hcontent hadjacents)
  | assigned hcontent hname he =>
    obtain ⟨type, htype⟩ := hcontent.assignedType
    left
    rw [operation_of_assignment htype hcontent, if_pos (isVariableName_iff_pattern.2 hname),
      compilePayload_of_error he]
    rfl
  | condition hcontent hadjacents he =>
    obtain ⟨whenTrue, whenFalse, hadjacents⟩ := List.length_eq_two.1 hadjacents
    left
    rw [operation_of_condition hcontent hadjacents, compilePayload_of_error he]
    rfl

/-- A description is fine, or something is wrong with it. -/
theorem asks_or_breaks (d : BlockDescription) : (∃ op, d.Asks op) ∨ ∃ f, d.Breaks f := by
  by_cases hcontent : ∃ content, Says d.kind d.payload content
  · obtain ⟨content, hcontent⟩ := hcontent
    cases content with
    | nothing => exact .inl ⟨_, .start hcontent⟩
    | assignment name source =>
      obtain ⟨type, htype⟩ := hcontent.assignedType
      by_cases hname : NamePattern name
      · cases he : Expression.compile source with
        | ok e => exact .inl ⟨_, .assign htype hcontent hname he⟩
        | error e => exact .inr ⟨_, .assigned hcontent hname he⟩
      · exact .inr ⟨_, .variableName hcontent hname⟩
    | condition source =>
      by_cases hadjacents : d.adjacents.length = 2
      · cases he : Expression.compile source with
        | ok e =>
          obtain ⟨whenTrue, whenFalse, hadjacents⟩ := List.length_eq_two.1 hadjacents
          exact .inl ⟨_, .decide hcontent hadjacents he⟩
        | error e => exact .inr ⟨_, .condition hcontent hadjacents he⟩
      · exact .inr ⟨_, .adjacencyCount hcontent hadjacents⟩
  · exact .inr ⟨.shape .payloadOnStart, .shape fun content h => hcontent ⟨content, h⟩⟩

theorem operation_eq_ok_iff {op : Operation} : d.operation = .ok op ↔ d.Asks op := by
  constructor
  · intro h
    rcases d.asks_or_breaks with ⟨op', hasks⟩ | ⟨f, hbreaks⟩
    · cases h.symm.trans hasks.operation_eq
      exact hasks
    · rcases hbreaks.operation_eq with hf | ⟨s, s', -, hf⟩ <;> cases h.symm.trans hf
  · exact Asks.operation_eq

theorem breaks_of_operation {f : PayloadFault} (h : d.operation = .error f) : d.Breaks f := by
  rcases d.asks_or_breaks with ⟨op, hasks⟩ | ⟨f', hbreaks⟩
  · cases h.symm.trans hasks.operation_eq
  · rcases hbreaks.operation_eq with hf | ⟨s, s', rfl, hf⟩
    · cases h.symm.trans hf
      exact hbreaks
    · cases h.symm.trans hf
      cases hbreaks with
      | shape hcontent => exact .shape hcontent

end BlockDescription

namespace Block

theorem construct_eq_ok_iff {d : BlockDescription} {b : Block} :
    construct d = .ok b ↔ b.id = d.id ∧ d.Asks b.operation := by
  rw [← BlockDescription.operation_eq_ok_iff, construct]
  obtain ⟨id, op⟩ := b
  cases d.operation with
  | error f => simp
  | ok op' => simp [eq_comm]

theorem construct_eq_error_iff {d : BlockDescription} {e : InvalidPayload} :
    construct d = .error e ↔ ∃ f, d.operation = .error f ∧ e = ⟨d.id, d.kind, f⟩ := by
  rw [construct]
  cases d.operation with
  | error f => simp [eq_comm]
  | ok op => simp

/-- **Construction accepts exactly the payloads that a kind allows, and reports faults in a fixed
order.** A block is constructed exactly if its description asks for its operation, and it keeps the
identifier, the kind and the adjacent blocks. Otherwise the error names the block and its kind and
says what is wrong first: the shape of the payload, then the name of the variable or the number of
adjacent blocks, then the expression. Each of these is reported when it comes first, a fault of shape
in words of its own. -/
theorem construct_checks_in_order (d : BlockDescription) :
    (∀ b, construct d = .ok b ↔ b.id = d.id ∧ d.Asks b.operation) ∧
    (∀ b, construct d = .ok b → b.id = d.id ∧ b.kind = d.kind ∧ b.adjacents = d.adjacents) ∧
    (∀ e, construct d = .error e → e.block = d.id ∧ e.kind = d.kind ∧ d.Breaks e.fault) ∧
    (∀ f, d.Breaks f → ∃ f', construct d = .error ⟨d.id, d.kind, f'⟩ ∧
      (f' = f ∨ ∃ s s', f = .shape s ∧ f' = .shape s')) := by
  refine ⟨fun b => construct_eq_ok_iff, fun b => construct_eq_ok, fun e he => ?_, fun f hf => ?_⟩
  · obtain ⟨f, hf, rfl⟩ := construct_eq_error_iff.1 he
    exact ⟨rfl, rfl, BlockDescription.breaks_of_operation hf⟩
  · rcases hf.operation_eq with h | ⟨s, s', rfl, h⟩
    · exact ⟨f, construct_eq_error_iff.2 ⟨f, h, rfl⟩, .inl rfl⟩
    · exact ⟨.shape s', construct_eq_error_iff.2 ⟨_, h, rfl⟩, .inr ⟨s, s', rfl, rfl⟩⟩

/-- Two spellings of the name are a fault of shape, whatever else is wrong. With one of them the name
is looked at before the expression, and in a decision the number of adjacent blocks is. -/
theorem construct_checks_in_order_faults :
    let source : String × Json := ("variable_value", .string "f(1)")
    let both : BlockDescription :=
      ⟨"a", .boolAssign, [], .object [("name", .string "2x"), ("variable_name", .string "2x"), source]⟩
    let one : BlockDescription := ⟨"a", .boolAssign, [], .object [("variable_name", .string "2x"), source]⟩
    let decision : BlockDescription := ⟨"b", .decision, ["a"], .array [.string "f(1)"]⟩
    (∀ content, ¬Says both.kind both.payload content) ∧ one.Breaks (.variableName "2x") ∧
      decision.Breaks (.adjacencyCount 2 1) := by
  intro source both one decision
  have hboth : construct both = .error ⟨"a", .boolAssign,
      .shape (.unreadable (.mismatch (.duplicate "name")))⟩ := by decide +kernel
  have hone : construct one = .error ⟨"a", .boolAssign, .variableName "2x"⟩ := by decide +kernel
  have hdecision : construct decision = .error ⟨"b", .decision, .adjacencyCount 2 1⟩ := by decide +kernel
  refine ⟨?_, ((construct_checks_in_order one).2.2.1 _ hone).2.2,
    ((construct_checks_in_order decision).2.2.1 _ hdecision).2.2⟩
  cases ((construct_checks_in_order both).2.2.1 _ hboth).2.2 with
  | shape hcontent => exact hcontent

end Block

end Flowchart
