/-
Programs are stored as text and read again. What a program holds decides whether it comes back:
names, identifiers and descriptions may be any strings, and payloads must be values that text keeps.
A program that was read from some text has no other payloads, floating point numbers apart, so it
comes back (`stored_program_reloads`).
-/
import Flowchart.Program
import Flowchart.Proofs.Json.Reading

namespace Flowchart

namespace Json.Decode

/-! ## What a decoder keeps -/

section
variable {σ : Type} {step : σ → String → Node → Except ReadError σ} {P : σ → Prop} {d : Nat}
  (hstep : ∀ {s key node s'}, P s → node.Within d → step s key node = .ok s' → P s')

include hstep

theorem foldMembers_invariant {members : List (Except Flaw String × Node)}
    (hmembers : ∀ m ∈ members, m.2.Within d) {s s' : σ} (hs : P s)
    (h : foldMembers step s members = .ok s') : P s' := by
  induction members generalizing s with
  | nil =>
    cases h
    exact hs
  | cons m members ih =>
    obtain ⟨hm, hrest⟩ := List.forall_mem_cons.1 hmembers
    obtain ⟨key, node⟩ := m
    cases key with
    | error f => cases h
    | ok key =>
      obtain ⟨s₁, hs₁, h⟩ := bind_eq_ok_iff.1 h
      exact ih hrest (hstep hs hm hs₁) h

theorem foldItems_invariant {expected : String} {surplus : Surplus} {ending : Option Stop} {index : Nat}
    {fields : List Field} {items : List Node} (hitems : ∀ node ∈ items, node.Within d) {s s' : σ}
    (hs : P s) (h : foldItems expected surplus step ending index s fields items = .ok s') : P s' := by
  induction fields generalizing index items s with
  | nil =>
    cases items with
    | nil =>
      cases ending with
      | none =>
        cases h
        exact hs
      | some stop => cases h
    | cons node items => cases h
  | cons field fields ih =>
    cases items with
    | nil =>
      obtain ⟨-, -, h⟩ := bind_eq_ok_iff.1 h
      split at h
      · cases h
      · exact ih (List.forall_mem_nil _) hs h
    | cons node items =>
      obtain ⟨hnode, hrest⟩ := List.forall_mem_cons.1 hitems
      obtain ⟨s₁, hs₁, h⟩ := bind_eq_ok_iff.1 h
      exact ih hrest (hstep hs hnode hs₁) h

/-- What every field keeps holds of a record, however it is written. -/
theorem record_invariant {kind : String} {fields : List Field} {surplus : Surplus} {node : Node}
    (hnode : node.Within (d + 1)) {s s' : σ} (hs : P s)
    (h : record kind fields surplus step s node = .ok s') : P s' := by
  cases hnode with
  | array hitems => exact foldItems_invariant hstep hitems hs h
  | object hmembers =>
    obtain ⟨s₁, hs₁, h⟩ := bind_eq_ok_iff.1 h
    obtain ⟨-, -, h⟩ := bind_eq_ok_iff.1 h
    cases h
    exact foldMembers_invariant hstep hmembers hs hs₁
  | null | bool | integer | float | string | broken => cases h

end

theorem once_eq_ok_iff {α : Type} {field : String} {old new : Option α} {value : Except ReadError α} :
    once field old value = .ok new ↔ old = none ∧ ∃ a, value = .ok a ∧ some a = new := by
  cases old <;> cases value <;> simp [once, Except.map]

theorem refuse_ne_ok {α : Type} (expected : String) (node : Node) (a : α) :
    refuse expected node ≠ .ok a := by
  unfold refuse
  split <;> exact nofun

theorem list_eq_ok_iff {α : Type} {item : Decoder α} {node : Node} {l : List α} :
    list item node = .ok l ↔
      ∃ items, node = .array items none ∧ List.Forall₂ (fun node a => item node = .ok a) items l := by
  cases node with
  | array items ending =>
    simp [list, bind_eq_ok_iff, mapM_eq_ok_iff, atEnd_eq_ok_iff, pure, Except.pure, and_comm]
  | _ => simp [list, refuse_ne_ok]

/-- A list is read item by item. -/
theorem list_toNode {α : Type} {item : Decoder α} {f : α → Json} {l : List α}
    (h : ∀ a ∈ l, item (f a).toNode = .ok a) : list item (array (l.map f)).toNode = .ok l := by
  rw [list_eq_ok_iff, toNode, toNodes_eq]
  refine ⟨_, rfl, ?_⟩
  rw [List.map_map, List.forall₂_map_left_iff]
  exact List.forall₂_same.2 h

end Json.Decode

open Json

/-! ## Blocks -/

theorem BlockKind.decode_name (kind : BlockKind) : decode (.string kind.name) = .ok kind := by
  cases kind <;> rfl

namespace BlockDescription

/-- Only one field sets the payload. -/
theorem Draft.payload_of_step {s s' : Draft} {key : String} {node : Node}
    (h : s.step key node = .ok s') :
    s'.payload = s.payload ∨ ∃ j, Decode.any node = .ok j ∧ s'.payload = some j := by
  unfold step at h
  split at h
  case h_4 =>
    obtain ⟨payload, hpayload, h⟩ := bind_eq_ok_iff.1 h
    obtain ⟨-, j, hj, rfl⟩ := Decode.once_eq_ok_iff.1 hpayload
    cases h
    exact .inr ⟨j, hj, rfl⟩
  all_goals
    obtain ⟨_, -, h⟩ := bind_eq_ok_iff.1 h
    cases h
    exact .inl rfl

/-- A payload that was read is kept by text that nests as deep. -/
theorem storable_of_decode {d : Nat} {node : Node} (hnode : node.Within (d + 1)) {b : BlockDescription}
    (h : decode node = .ok b) (hfloat : b.payload.hasFloat = false) : Storable d b.payload := by
  obtain ⟨s, hs, h⟩ := bind_eq_ok_iff.1 h
  have hpayload : ∀ j, s.payload = some j → j.hasFloat = false → Storable d j := by
    refine Decode.record_invariant
      (P := fun s => ∀ j, s.payload = some j → j.hasFloat = false → Storable d j)
      (fun hs hnode h j hj hfloat => ?_) hnode (by simp) hs
    rcases Draft.payload_of_step h with hsame | ⟨j', hj', hset⟩
    · exact hs j (hsame ▸ hj) hfloat
    · cases hset.symm.trans hj
      exact storable_of_any hnode hj' hfloat
  obtain ⟨id, -, h⟩ := bind_eq_ok_iff.1 h
  obtain ⟨kind, -, h⟩ := bind_eq_ok_iff.1 h
  cases h
  cases hs : s.payload with
  | none => exact .null
  | some j =>
    simp only [hs, Option.getD_some] at hfloat
    exact hpayload j hs hfloat

theorem decode_toJson {b : BlockDescription} (h : Decode.any b.payload.toNode = .ok b.payload) :
    decode b.toJson.toNode = .ok b := by
  have hadjacents : Decode.list Decode.string (strings b.adjacents).toNode = .ok b.adjacents :=
    Decode.list_toNode fun _ _ => rfl
  simp only [decode, toJson, toNode, toNodeMembers, Decode.record, Decode.foldMembers, Draft.step,
    Decode.once, hadjacents, BlockKind.decode_name, h, Decode.string]
  rfl

theorem plain_toJson {d : Nat} {b : BlockDescription} (h : Storable (d + 1) b.payload) :
    Plain (d + 2) b.toJson := by
  -- The list of adjacent blocks stands beside the payload and takes a level of its own.
  have hadjacents : Plain (d + 1) (strings b.adjacents) := by
    refine .array fun j hj => ?_
    obtain ⟨s, -, rfl⟩ := List.mem_map.1 hj
    exact .string
  exact .object (by simp [hadjacents, h.plain, Plain.string])

end BlockDescription

/-! ## Programs -/

namespace Program

theorem Draft.blocks_of_step {s s' : Draft} {key : String} {node : Node} (h : s.step key node = .ok s') :
    s'.blocks = s.blocks ∨
      ∃ blocks, Decode.list BlockDescription.decode node = .ok blocks ∧ s'.blocks = some blocks := by
  unfold step at h
  split at h
  case h_3 =>
    obtain ⟨_, hblocks, h⟩ := bind_eq_ok_iff.1 h
    obtain ⟨-, blocks, hlist, rfl⟩ := Decode.once_eq_ok_iff.1 hblocks
    cases h
    exact .inr ⟨blocks, hlist, rfl⟩
  all_goals
    obtain ⟨_, -, h⟩ := bind_eq_ok_iff.1 h
    cases h
    exact .inl rfl

/-- The payloads of a program that was read are kept by text that nests as deep. -/
theorem storable_of_decode {d : Nat} {node : Node} (hnode : node.Within (d + 3)) {p : Program}
    (h : decode node = .ok p) {b : BlockDescription} (hb : b ∈ p.blocks)
    (hfloat : b.payload.hasFloat = false) : Storable d b.payload := by
  obtain ⟨s, hs, h⟩ := bind_eq_ok_iff.1 h
  have hblocks : ∀ blocks, s.blocks = some blocks → ∀ b ∈ blocks, b.payload.hasFloat = false →
      Storable d b.payload := by
    refine Decode.record_invariant (P := fun s => ∀ blocks, s.blocks = some blocks → ∀ b ∈ blocks,
      b.payload.hasFloat = false → Storable d b.payload) (fun hs hnode h blocks hset b hb hfloat => ?_)
      hnode (by simp) hs
    rcases Draft.blocks_of_step h with hsame | ⟨blocks', hlist, hset'⟩
    · exact hs blocks (hsame ▸ hset) b hb hfloat
    · cases hset'.symm.trans hset
      obtain ⟨items, rfl, hitems⟩ := Decode.list_eq_ok_iff.1 hlist
      cases hnode with
      | array hnodes =>
        obtain ⟨node, hmem, hnode⟩ := exists_of_mem_right hitems hb
        exact BlockDescription.storable_of_decode (hnodes node hmem) hnode hfloat
  obtain ⟨name, -, h⟩ := bind_eq_ok_iff.1 h
  obtain ⟨blocks, hrequire, h⟩ := bind_eq_ok_iff.1 h
  cases h
  cases hset : s.blocks with
  | none => simp [hset, Decode.require] at hrequire
  | some blocks' =>
    obtain rfl : blocks' = blocks := by simpa [hset, Decode.require] using hrequire
    exact hblocks _ hset b hb hfloat

theorem decode_toJson {p : Program} (h : ∀ b ∈ p.blocks, Decode.any b.payload.toNode = .ok b.payload) :
    decode p.toJson.toNode = .ok p := by
  have hblocks := Decode.list_toNode fun b hb => BlockDescription.decode_toJson (h b hb)
  obtain ⟨name, description, blocks⟩ := p
  simp only [decode, toJson]
  generalize array (blocks.map BlockDescription.toJson) = j at hblocks ⊢
  cases description <;>
    simp only [List.cons_append, List.nil_append, toNode, toNodeMembers, Decode.record, Decode.foldMembers,
      Draft.step, Decode.once, Decode.string, Decode.optional, hblocks] <;>
    rfl

theorem plain_toJson {d : Nat} {p : Program} (h : ∀ b ∈ p.blocks, Storable (d + 1) b.payload) :
    Plain (d + 4) p.toJson := by
  have hblocks : Plain (d + 3) (array (p.blocks.map BlockDescription.toJson)) := by
    refine .array fun j hj => ?_
    obtain ⟨b, hb, rfl⟩ := List.mem_map.1 hj
    exact BlockDescription.plain_toJson (h b hb)
  obtain ⟨name, description, blocks⟩ := p
  cases description <;> exact .object (by simp [hblocks, Plain.string])

theorem storable_of_ofJsonText {text : String} {p : Program} (h : ofJsonText text = .ok p)
    {b : BlockDescription} (hb : b ∈ p.blocks) (hfloat : b.payload.hasFloat = false) :
    Storable (maxNesting - 3) b.payload := by
  obtain ⟨p', hp, h⟩ := bind_eq_ok_iff.1 h
  split at h
  · cases h
  · cases h
    exact storable_of_decode (Document.within_ofText text) hp hb hfloat

/-- A program comes back from its text if all its payloads do. -/
theorem ofJsonText_toJsonText {p : Program} (h : ∀ b ∈ p.blocks, Storable (maxNesting - 3) b.payload) :
    ofJsonText p.toJsonText = .ok p :=
  calc
    read decode p.toJson.pretty = decode p.toJson.toNode := read_pretty decode (plain_toJson h)
    _ = .ok p := decode_toJson fun b hb => any_toNode (h b hb)

/-- **Programs survive being stored.** A program without floating point numbers that was read from any
text is read from its own text as well. Such programs are those whose payloads nest at most 124 deep,
three levels being taken by the program itself, have only integers of 64 bits, and have the members of
objects in order; all strings may be as they like. -/
theorem stored_program_reloads {p : Program} (hfloat : ∀ b ∈ p.blocks, b.payload.hasFloat = false) :
    (∀ text, ofJsonText text = .ok p → ofJsonText p.toJsonText = .ok p) ∧
      ((∃ text, ofJsonText text = .ok p) ↔ ∀ b ∈ p.blocks, Storable (maxNesting - 3) b.payload) := by
  have hstorable {text : String} (h : ofJsonText text = .ok p) :
      ∀ b ∈ p.blocks, Storable (maxNesting - 3) b.payload :=
    fun b hb => storable_of_ofJsonText h hb (hfloat b hb)
  refine ⟨fun text h => ofJsonText_toJsonText (hstorable h), ?_, ?_⟩
  · rintro ⟨text, h⟩
    exact hstorable h
  · intro h
    exact ⟨p.toJsonText, ofJsonText_toJsonText h⟩

/-- A program as an array with null for its description. One block has a member that nothing reads, with
a number out of range in it, and a payload that names a member twice; the other block is an array
without its last two fields. -/
theorem stored_program_reloads_positional :
    let p : Program :=
      { name := "\x07\"é\\", description := none,
        blocks := [
          { id := "😀", kind := .start, adjacents := ["\n"],
            payload :=
              .object [("a", .number (.int (-9223372036854775808))), ("b", .array [.object []])] },
          { id := "", kind := .decision, adjacents := [], payload := .null }] }
    let text := "[\"\\u0007\\\"é\\\\\",null,[\x7b\"id\":\"\\ud83d\\ude00\"," ++
      "\"kind\":\x7b\"start\":null\x7d,\"?\":1e999," ++
      "\"payload\":\x7b\"b\":0.5,\"a\":-9223372036854775808,\"b\":[\x7b\x7d]\x7d," ++
      "\"adjacents\":[\"\\n\"]\x7d,[\"\",\"decision\"]]]"
    ofJsonText text = .ok p ∧ (∀ b ∈ p.blocks, b.payload.hasFloat = false) ∧
      ofJsonText p.toJsonText = .ok p := by
  intro p text
  have hfloat : ∀ b ∈ p.blocks, b.payload.hasFloat = false := by decide
  have hread : ofJsonText text = .ok p := by decide +kernel
  exact ⟨hread, hfloat, (stored_program_reloads hfloat).1 text hread⟩

end Program

end Flowchart
