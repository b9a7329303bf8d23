/-
Type conflicts come from the graph. A variable has its type from an assignment on the lineage of
the continuation (`Taken.assigns_of_write?`), so where an assignment fails because the variable
has another type, blocks of both kinds assign to it, and the other one was run before on the same
lineage (`Conflict`). A graph in which no variable is assigned by both kinds (`Mixes`) has no run
with a type conflict in it.
-/
import Flowchart.Proofs.Run.Lineage
import Flowchart.Proofs.Run.Records

namespace Flowchart

/-- The variable that the block assigns to. -/
def Block.assigned? (b : Block) : Option String :=
  match b.operation with
  | .assign name _ _ _ => some name
  | .start _ | .decide .. => none

/-- The block assigns to the variable, and blocks of its kind store values of the type. -/
def Block.Assigns (b : Block) (name : String) (type : ValueType) : Prop :=
  b.assigned? = some name ∧ b.kind.assignedType? = some type

/-- Blocks of both kinds assign to the variable. -/
def Graph.Mixes (g : Graph) (name : String) : Prop :=
  (∃ b ∈ g.blocks, b.Assigns name .decimal) ∧ ∃ b ∈ g.blocks, b.Assigns name .bool

/-! ## Blocks and steps -/

theorem Block.assigns_of_operation {b : Block} {name : String} {type : ValueType}
    {expression : Expression} {targets : List String}
    (h : b.operation = .assign name type expression targets) : b.Assigns name type := by
  refine ⟨by simp [assigned?, h], ?_⟩
  cases type <;> simp [kind, h, BlockKind.assignedType?]

/-- A block faults on a type conflict if it assigns to a variable of another type. -/
theorem Block.assigns_of_conflict {b : Block} {env env' : Environment} {x : TypeConflict}
    (h : b.signal env = (.fault (.typeConflict x), env')) :
    b.Assigns x.name x.attempted ∧ x.bound ≠ x.attempted ∧ env.typeOf? x.name = some x.bound := by
  generalize hs : Signal.fault (.typeConflict x) = s at h
  cases signal_eq_iff.1 h with
  | start | assigned => exact absurd hs.symm (Signal.forward_ne_fault _ _)
  | unevaluated | undecided | decided => cases hs
  | conflict _ hc =>
    cases hs
    obtain ⟨hbound, hname, hattempted, hne⟩ := Environment.assign_eq_error_iff.1 hc
    rw [Value.type_coerce] at hattempted
    rw [hname, hattempted]
    exact ⟨assigns_of_operation rfl, hattempted ▸ hne, hbound⟩

theorem Graph.mixes_of_ne {g : Graph} {b b' : Block} (hb : b ∈ g.blocks) (hb' : b' ∈ g.blocks)
    {name : String} {t t' : ValueType} (h : b.Assigns name t) (h' : b'.Assigns name t')
    (hne : t ≠ t') : g.Mixes name := by
  cases t <;> cases t'
  · exact absurd rfl hne
  · exact ⟨⟨b, hb, h⟩, b', hb', h'⟩
  · exact ⟨⟨b', hb', h'⟩, b, hb, h⟩
  · exact absurd rfl hne

/-- What a step stored, it stored as an assignment to that variable, at the type of its kind. -/
theorem Taken.assigns_of_write? {g : Graph} {t : Taken} {name : String} {v : Value}
    (h : t.write? g = some (name, v)) :
    t.record.result.isFault = false ∧
      ∃ b, g.get? t.record.block = some b ∧ b.Assigns name v.type := by
  unfold write? at h
  split at h
  next name' type expression targets hop =>
    obtain ⟨b, hb, hop⟩ := Option.map_eq_some_iff.1 hop
    split at h
    · cases h
    next hok =>
      obtain ⟨w, -, heq⟩ := Option.map_eq_some_iff.1 h
      obtain ⟨rfl, rfl⟩ := Prod.mk.inj heq
      rw [Value.type_coerce]
      exact ⟨Bool.eq_false_iff.2 hok, b, hb, Block.assigns_of_operation hop⟩
  next => cases h

theorem Lineage.mem_past {outcomes : Array Outcome} {past : List Taken} {id : Nat}
    {parent : Option Nat} {steps : List Taken} (h : Lineage outcomes past id parent steps) {t : Taken}
    (ht : t ∈ steps) : t ∈ past := by
  induction h with
  | root => exact List.mem_of_mem_filter ht
  | child _ _ ih =>
    rcases List.mem_append.1 ht with ht | ht
    · exact ih ht
    · exact List.mem_of_mem_filter ht

namespace Run

/-! ## The past in order -/

theorem record_taken? (r : Run) : r.taken?.toList.map Taken.record = returned r.step.1 := by
  have hto := stepTo_step r
  have hnone : (∀ record, r.step.1 ≠ .ok (some record)) → r.taken?.toList.map Taken.record = [] := by
    intro hne
    rw [taken?_of_ne hne]
    rfl
  generalize r.step.2 = r' at hto
  generalize r.step.1 = result at hto hnone ⊢
  cases hto with
  | halted | drained | refused | exceeded => exact hnone nofun
  | settled hr hq hb hs hset =>
    rw [taken?_of_settled hr hq hb hs hset]
    rfl

theorem map_record_past (r : Run) (n : Nat) : (r.past n).map Taken.record = r.records n := by
  induction n with
  | zero => rfl
  | succ n ih => rw [past, records, List.map_append, ih, record_taken?, call]

/-- A step of the past has a number that the run has come to. -/
theorem step_le_of_mem_past {g : Graph} {config : Config} {n : Nat} {t : Taken}
    (ht : t ∈ (start g config).past n) : t.record.step ≤ ((start g config).after n).steps := by
  obtain ⟨hnumbers, hsteps⟩ := steps_after g config n
  have hmem : t.record ∈ (start g config).records n := by
    rw [← map_record_past]
    exact List.mem_map_of_mem ht
  have hstep : t.record.step ∈ ((start g config).records n).map StepRecord.step :=
    List.mem_map_of_mem hmem
  rw [hnumbers, List.mem_range'_1] at hstep
  omega

/-! ## Conflicts -/

/-- After `n` calls the front continuation takes the step `x`, an assignment of a value of one type to
a variable that has another one from an assignment before, on the same lineage. -/
structure Conflict (r : Run) (n : Nat) (x : StepRecord) (conflict : TypeConflict) : Prop where
  ne : conflict.bound ≠ conflict.attempted
  block : ∃ b, r.graph.get? x.block = some b ∧ b.Assigns conflict.name conflict.attempted
  lineage : ∃ c rest steps, (r.after n).queue = c :: rest ∧ c.id = x.continuation ∧
    (∀ l, Lineage (r.after n).outcomes (r.past n) c.id c.parent l ↔ l = steps) ∧
    ∃ t ∈ steps, t.record.step < x.step ∧ t.record.result.isFault = false ∧
      ∃ b, r.graph.get? t.record.block = some b ∧ b.Assigns conflict.name conflict.bound

theorem conflict_of_call {g : Graph} {config : Config} {n : Nat} {x : StepRecord}
    {conflict : TypeConflict} (hcall : (start g config).call n = .ok (some x))
    (hresult : x.result = .fault (.typeConflict conflict)) :
    (start g config).Conflict n x conflict := by
  have htraced := traced_after g config n
  have hgraph : ((start g config).after n).graph = g := graph_after (start g config) n
  have hto := stepTo_after (start g config) n
  rw [hcall] at hto
  obtain ⟨c, rest, b, s, env, hq, hb, hs, rfl⟩ :
      ∃ c rest b s env, ((start g config).after n).queue = c :: rest ∧
        ((start g config).after n).blockFor c = .ok b ∧ b.signal c.environment = (s, env) ∧
        x = ((start g config).after n).stepRecord c s := by
    generalize (start g config).after (n + 1) = r' at hto
    cases hto with
    | settled _ hq hb hs _ => exact ⟨_, _, _, _, _, hq, hb, hs, rfl⟩
  obtain rfl : s = .fault (.typeConflict conflict) := hresult
  obtain ⟨hassigns, hne, hbound⟩ := Block.assigns_of_conflict hs
  have hget : g.get? c.block = some b := hgraph ▸ get?_of_blockFor hb
  refine ⟨hne, ⟨b, hget, hassigns⟩, ?_⟩
  -- The type that the variable has was stored by a step of the lineage.
  obtain ⟨steps, hunique, hstores⟩ :=
    (htraced.queued c (hq ▸ List.mem_cons_self)).follows htraced.numbered
  rw [hgraph] at hstores
  obtain ⟨v, hv, htype⟩ := hstores.exists_write hbound
  obtain ⟨t, ht, hwrite⟩ := List.mem_filterMap.1 hv
  obtain ⟨hok, b', hb', hassigns'⟩ := Taken.assigns_of_write? hwrite
  have hpast : t ∈ (start g config).past n := ((hunique steps).2 rfl).mem_past ht
  refine ⟨c, rest, steps, hq, rfl, hunique, t, ht, ?_, hok, b', hb', htype ▸ hassigns'⟩
  exact Nat.lt_succ_of_le (step_le_of_mem_past hpast)

/-- No step of the run faults on a type conflict, and no continuation fails with one. -/
structure ConflictFree (r : Run) : Prop where
  call : ∀ n x conflict, r.call n = .ok (some x) → x.result ≠ .fault (.typeConflict conflict)
  outcome : ∀ n, ∀ o ∈ (r.after n).outcomes, ∀ f conflict, o.status = .failed f →
    f.fault ≠ .typeConflict conflict
  completes : ∀ f conflict, r.Completes (.error (.blockFailed f)) → f.fault ≠ .typeConflict conflict

theorem result_of_failed {c : Continuation} {first : Nat} {s : Signal} {f : BlockFailure}
    (h : c.status? first s = some (.failed f)) : s = .fault f.fault := by
  cases s with
  | fault => cases h; rfl
  | terminate | next | fork => cases h

theorem conflictFree_start {g : Graph} (hg : ∀ name, ¬g.Mixes name) (config : Config) :
    (start g config).ConflictFree := by
  have hcall : ∀ n x conflict, (start g config).call n = .ok (some x) →
      x.result ≠ .fault (.typeConflict conflict) := by
    intro n x conflict hcall hresult
    obtain ⟨hne, ⟨b, hb, hassigns⟩, -, -, -, -, -, -, t, -, -, -, b', hb', hassigns'⟩ :=
      conflict_of_call hcall hresult
    exact hg _ (Graph.mixes_of_ne (Graph.mem_of_get? hb') (Graph.mem_of_get? hb) hassigns' hassigns hne)
  have houtcome : ∀ n, ∀ o ∈ ((start g config).after n).outcomes, ∀ f conflict,
      o.status = .failed f → f.fault ≠ .typeConflict conflict := by
    intro n o ho f conflict hstatus hfault
    -- The last step of the continuation is the one that failed.
    obtain ⟨x, hx, -, -, c, first, hends⟩ := (counted_after g config n).last o ho
    have hmem : x ∈ (start g config).records n := List.mem_of_mem_filter (List.mem_of_getLast? hx)
    obtain ⟨j, -, hj⟩ := exists_call_of_mem_records hmem
    rw [hstatus] at hends
    exact hcall j x conflict hj (hfault ▸ result_of_failed hends)
  refine ⟨hcall, houtcome, fun f conflict h => ?_⟩
  obtain ⟨report, hreport, o, ho, hfailed, -⟩ := (completes_blockFailed_iff g config).1 h
  obtain ⟨n, rfl⟩ := hreport.exists_after
  exact houtcome n o (Array.mem_def.2 ho) f conflict hfailed

/-- **Type conflicts can be excluded by the blocks of a graph.** A step that faults on a type conflict
assigns to a variable that a block of the other kind assigned to before, on the same lineage. So if
no variable is assigned by blocks of both kinds, no run has a type conflict in it. -/
theorem typeConflict_needs_both_kinds (g : Graph) (config : Config) :
    (∀ n x conflict, (start g config).call n = .ok (some x) →
      x.result = .fault (.typeConflict conflict) → (start g config).Conflict n x conflict) ∧
    ((∀ name, ¬g.Mixes name) → (start g config).ConflictFree) :=
  ⟨fun _ _ _ => conflict_of_call, fun hg => conflictFree_start hg config⟩

/-- The branch of a fork fails on the type that its parent gave to a variable; with another variable
in its place nothing can. -/
theorem typeConflict_needs_both_kinds_fork :
    (∃ g x, Graph.build true [.withTarget (.start "s") "a",
        .withAdjacents (.decimalAssign "a" "x" "1") ["b", "c"], .boolAssign "b" "x" "x",
        .decimalAssign "c" "x" "-x"] = .ok g ∧
      (start g .default).call 2 = .ok (some x) ∧
      (start g .default).Conflict 2 x ⟨"x", .decimal, .bool⟩) ∧
    ∃ g, Graph.build true [.withTarget (.start "s") "a",
        .withAdjacents (.decimalAssign "a" "x" "1") ["b", "c"], .withTarget (.boolAssign "b" "y" "x") "a",
        .decimalAssign "c" "x" "-x"] = .ok g ∧ (start g .default).ConflictFree := by
  constructor
  · let g : Graph :=
      { blocks := [⟨"s", .start ["a"]⟩, ⟨"a", .assign "x" .decimal ⟨"1", .number .one, []⟩ ["b", "c"]⟩,
          ⟨"b", .assign "x" .bool ⟨"x", .name "x", ["x"]⟩ []⟩,
          ⟨"c", .assign "x" .decimal ⟨"-x", .signed .minus (.name "x"), ["x"]⟩ []⟩]
        index := [("a", 1), ("b", 2), ("c", 3), ("s", 0)]
        startAt := 0 }
    let x : StepRecord :=
      { step := 3, continuation := 1, block := "b", previous := some "a",
        result := .fault (.typeConflict ⟨"x", .decimal, .bool⟩) }
    have hcall : (start g .default).call 2 = .ok (some x) := by decide +kernel
    exact ⟨g, x, by decide +kernel, hcall, (typeConflict_needs_both_kinds g .default).1 2 x _ hcall rfl⟩
  · let g : Graph :=
      { blocks := [⟨"s", .start ["a"]⟩, ⟨"a", .assign "x" .decimal ⟨"1", .number .one, []⟩ ["b", "c"]⟩,
          ⟨"b", .assign "y" .bool ⟨"x", .name "x", ["x"]⟩ ["a"]⟩,
          ⟨"c", .assign "x" .decimal ⟨"-x", .signed .minus (.name "x"), ["x"]⟩ []⟩]
        index := [("a", 1), ("b", 2), ("c", 3), ("s", 0)]
        startAt := 0 }
    have hg : ∀ name, ¬g.Mixes name := by
      simp [g, Graph.Mixes, Block.Assigns, Block.assigned?, Block.kind, BlockKind.assignedType?]
    exact ⟨g, by decide +kernel, (typeConflict_needs_both_kinds g .default).2 hg⟩

end Run

end Flowchart
