/-
Schematics are exported as JSON and read again. A schematic comes back from both ways to write it if the
codes of its nodes have at most 16 bits, which the codes of all kinds of blocks do. So the schematic of
every graph comes back as it was, with any strings for names, identifiers and captions.
-/
import Flowchart.Proofs.Json.Programs
import Flowchart.Schematic.Json

namespace Flowchart

open Json

theorem Json.Decode.natural_ofNat {bound n : Nat} (expected : String) (h : n < bound) :
    natural bound expected (Json.ofNat n).toNode = .ok n := by
  have hrange : 0 ≤ (n : Int) ∧ (n : Int) < bound := by omega
  simp only [Json.ofNat, toNode, natural, hrange]
  rfl

theorem BlockKind.code_lt (kind : BlockKind) : kind.code < Nat.pow 2 16 := by
  cases kind <;> decide

/-! ## Edges -/

namespace EdgeKind

theorem decode_toJson (kind : EdgeKind) : decode kind.toJson.toNode = .ok kind := by
  cases kind <;> rfl

theorem plain_toJson (d : Nat) (kind : EdgeKind) : Plain (d + 1) kind.toJson := by
  cases kind with
  | linear | fork => exact .string
  | branch flag => exact .object (by simp [Plain.bool])

end EdgeKind

namespace Schematic

theorem Edge.decode_toJson (e : Edge) : Edge.decode e.toJson.toNode = .ok e := by
  obtain ⟨source, target, kind, label⟩ := e
  have hkind := kind.decode_toJson
  have hlabel : Decode.optional Decode.string (Json.ofOption .string label).toNode = .ok label := by
    cases label <;> rfl
  simp only [Edge.decode, Edge.toJson]
  generalize kind.toJson = j at hkind ⊢
  generalize Json.ofOption .string label = l at hlabel ⊢
  simp only [toNode, toNodeMembers, Decode.record, Decode.foldMembers, Edge.Draft.step, Decode.once,
    Decode.string, hkind, hlabel]
  rfl

theorem Edge.plain_toJson (d : Nat) (e : Edge) : Plain (d + 2) e.toJson := by
  have hlabel : Plain (d + 1) (Json.ofOption .string e.label) := by
    cases e.label
    exacts [.null, .string]
  exact .object (by simp [hlabel, e.kind.plain_toJson d, Plain.string])

/-! ## Nodes -/

theorem Node.decode_toJson {n : Node} (h : n.code < Nat.pow 2 16) : Node.decode n.toJson.toNode = .ok n := by
  obtain ⟨id, kind, code, label⟩ := n
  have hcode := Decode.natural_ofNat "u16" h
  simp only [Node.decode, Node.toJson]
  generalize Json.ofNat code = j at hcode ⊢
  simp only [toNode, toNodeMembers, Decode.record, Decode.foldMembers, Node.Draft.step, Decode.once,
    Decode.string, BlockKind.decode_name, hcode]
  rfl

theorem Node.plain_toJson (d : Nat) {n : Node} (h : n.code < Nat.pow 2 16) : Plain (d + 1) n.toJson := by
  have hcode : Plain d (Json.ofNat n.code) := .integer ⟨by omega, by simp at h; omega⟩
  exact .object (by simp [hcode, Plain.string])

/-! ## Schematics -/

theorem decode_toJson {s : Schematic} (h : ∀ n ∈ s.nodes, n.code < Nat.pow 2 16) :
    decode s.toJson.toNode = .ok s := by
  obtain ⟨name, description, nodes, edges⟩ := s
  have hnodes := Decode.list_toNode fun n hn => Node.decode_toJson (h n hn)
  have hedges := Decode.list_toNode (l := edges) fun e _ => e.decode_toJson
  simp only [decode, toJson]
  generalize array (nodes.map Node.toJson) = j at hnodes ⊢
  generalize array (edges.map Edge.toJson) = k at hedges ⊢
  cases description <;>
    simp only [List.cons_append, List.nil_append, toNode, toNodeMembers, Decode.record, Decode.foldMembers,
      Draft.step, Decode.once, Decode.string, Decode.optional, hnodes, hedges] <;>
    rfl

theorem plain_toJson (d : Nat) {s : Schematic} (h : ∀ n ∈ s.nodes, n.code < Nat.pow 2 16) :
    Plain (d + 4) s.toJson := by
  have hnodes : Plain (d + 3) (array (s.nodes.map Node.toJson)) := by
    refine .array fun j hj => ?_
    obtain ⟨n, hn, rfl⟩ := List.mem_map.1 hj
    exact Node.plain_toJson (d + 1) (h n hn)
  have hedges : Plain (d + 3) (array (s.edges.map Edge.toJson)) := by
    refine .array fun j hj => ?_
    obtain ⟨e, -, rfl⟩ := List.mem_map.1 hj
    exact e.plain_toJson d
  obtain ⟨name, description, nodes, edges⟩ := s
  cases description <;> exact .object (by simp [hnodes, hedges, Plain.string])

theorem code_lt_of_mem_ofGraph {name : String} {description : Option String} {g : Graph} {n : Node}
    (h : n ∈ (ofGraph name description g).nodes) : n.code < Nat.pow 2 16 := by
  obtain ⟨b, -, rfl⟩ := List.mem_map.1 h
  exact b.kind.code_lt

theorem ofJsonText_toJson {s : Schematic} (h : ∀ n ∈ s.nodes, n.code < Nat.pow 2 16) :
    ofJsonText s.toJson.compact = .ok s ∧ ofJsonText s.toJson.pretty = .ok s := by
  have hplain : Plain maxNesting s.toJson := plain_toJson 123 h
  have hdecode : decode s.toJson.toNode = .ok s := decode_toJson h
  exact ⟨(read_compact decode hplain).trans hdecode, (read_pretty decode hplain).trans hdecode⟩

/-- **Exported schematics come back.** A schematic whose codes have at most 16 bits is read from its JSON
text as it was, on one line or indented, and so is the one of any graph, whatever its name and its
description: the same nodes and edges in the same order, with their identifiers, kinds, codes and
captions, and a description only if it had one. -/
theorem exported_schematic_reads_back :
    (∀ s : Schematic, (∀ n ∈ s.nodes, n.code < Nat.pow 2 16) →
      ofJsonText s.toJson.compact = .ok s ∧ ofJsonText s.toJson.pretty = .ok s) ∧
    ∀ (g : Graph) (name : String) (description : Option String),
      let s := ofGraph name description g
      ofJsonText s.toJson.compact = .ok s ∧ ofJsonText s.toJson.pretty = .ok s :=
  ⟨fun _ => ofJsonText_toJson, fun _ _ _ => ofJsonText_toJson fun _ => code_lt_of_mem_ofGraph⟩

/-- A schematic with the largest code, and a graph that forks into a decision. Quotes, backslashes, control
characters and letters beyond ASCII stand in the names. -/
theorem exported_schematic_reads_back_escaped :
    (let s : Schematic :=
      { name := "\"", description := none, nodes := [⟨"\\\n", .start, 65535, "\x00é"⟩], edges := [] }
    (∀ n ∈ s.nodes, n.code < Nat.pow 2 16) ∧
      ofJsonText s.toJson.compact = .ok s ∧ ofJsonText s.toJson.pretty = .ok s) ∧
    ∃ g, Graph.build true [.withAdjacents (.start "\"s\"") ["d\n", "\"s\""],
        .decision "d\n" "x<1" "\\" "\"s\"", .decimalAssign "\\" "x" "1"] = .ok g ∧
      let s := ofGraph "\t" (some "\x1fé") g
      s.edges.map (·.kind) = [.fork, .fork, .branch true, .branch false] ∧
        ofJsonText s.toJson.compact = .ok s ∧ ofJsonText s.toJson.pretty = .ok s := by
  refine ⟨⟨by simp, exported_schematic_reads_back.1 _ (by simp)⟩, ?_⟩
  let g : Graph :=
    { blocks := [⟨"\"s\"", .start ["d\n", "\"s\""]⟩,
        ⟨"d\n", .decide ⟨"x<1", .compare (.name "x") [(.less, .number .one)], ["x"]⟩ "\\" "\"s\""⟩,
        ⟨"\\", .assign "x" .decimal ⟨"1", .number .one, []⟩ []⟩]
      index := [("\"s\"", 0), ("\\", 2), ("d\n", 1)]
      startAt := 0 }
  have hbuild : Graph.build true [.withAdjacents (.start "\"s\"") ["d\n", "\"s\""],
      .decision "d\n" "x<1" "\\" "\"s\"", .decimalAssign "\\" "x" "1"] = .ok g := by
    decide +kernel
  exact ⟨g, hbuild, rfl, exported_schematic_reads_back.2 g _ _⟩

end Schematic

end Flowchart
