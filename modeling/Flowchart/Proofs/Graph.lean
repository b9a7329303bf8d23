/-
What building a graph guarantees to whoever runs it. The index is made one identifier at a time, and
each one leaves it with the positions of the identifiers so far (`Indexed`). A graph is built exactly if
every check passes (`build_eq_ok_iff`). So a block is found by its identifier, the start block is the only
one of its kind, and control never goes to a block that is not there, since every adjacent block exists
and a block sends control to adjacent blocks only.
-/
import Flowchart.Graph
import Flowchart.Proofs.Block
import Mathlib.Data.List.Nodup
import Mathlib.Logic.Relation

namespace Flowchart

namespace Graph

/-! ## The index -/

/-- The index has the position of every identifier in the list, and nothing else. -/
structure Indexed (ids : List String) (index : List (String × Nat)) : Prop where
  sorted : Assoc.Sorted index
  get? : ∀ id position, Assoc.get? id index = some position ↔ ids[position]? = some id

namespace Indexed

variable {ids : List String} {index index' : List (String × Nat)}

theorem nil : Indexed [] [] := ⟨Assoc.sorted_nil, by simp [Assoc.get?]⟩

theorem isSome_iff (h : Indexed ids index) {id : String} :
    (Assoc.get? id index).isSome = true ↔ id ∈ ids := by
  simp only [Option.isSome_iff_exists, h.get?, List.mem_iff_getElem?]

theorem nodup (h : Indexed ids index) : ids.Nodup := by
  refine List.nodup_iff_getElem?_ne_getElem?.2 fun i j hlt hj heq => ?_
  have hid := List.getElem?_eq_getElem hj
  have hi := (h.get? _ i).2 (heq.trans hid)
  rw [(h.get? _ j).2 hid, Option.some.injEq] at hi
  omega

/-- The identifiers determine the index. -/
theorem unique (h : Indexed ids index) (h' : Indexed ids index') : index = index' := by
  refine Assoc.eq_of_get? h.sorted h'.sorted fun id => Option.ext fun position => ?_
  rw [h.get?, h'.get?]

/-- A new identifier goes behind the others. -/
theorem insert (h : Indexed ids index) {id : String} (hid : id ∉ ids) :
    Indexed (ids ++ [id]) (Assoc.insert id ids.length index) := by
  refine ⟨Assoc.sorted_insert id ids.length h.sorted, fun id' position => ?_⟩
  rw [Assoc.get?_insert]
  -- Before the new position nothing changes, and behind it there is nothing.
  rcases Nat.lt_trichotomy position ids.length with hlt | rfl | hgt
  · rw [List.getElem?_append_left hlt]
    split
    next heq =>
      subst heq
      have hne : ids[position]? ≠ some id' := fun hsome => hid (List.mem_of_getElem? hsome)
      simp [hne, Nat.ne_of_gt hlt]
    next => exact h.get? id' position
  · have hnone : Assoc.get? id' index ≠ some ids.length := by simp [h.get?]
    by_cases heq : id' = id
    · simp [heq]
    · simp [heq, hnone, Ne.symm heq]
  · have hnone : Assoc.get? id' index ≠ some position := by
      simp [h.get?, Nat.le_of_lt hgt]
    have hend : (ids ++ [id])[position]? = none := by
      simp only [List.getElem?_eq_none_iff, List.length_append, List.length_singleton]
      omega
    by_cases heq : id' = id <;> simp [heq, hnone, hend, Nat.ne_of_lt hgt]

end Indexed

/-- Identifiers are added to an index up to the first one that it has. -/
theorem indexFrom_cases {seen : List String} {index : List (String × Nat)} (h : Indexed seen index)
    (ids : List String) :
    (∃ index', indexFrom index seen.length ids = .ok index' ∧ Indexed (seen ++ ids) index') ∨
    ∃ before id after, ids = before ++ id :: after ∧ (seen ++ before).Nodup ∧ id ∈ seen ++ before ∧
      indexFrom index seen.length ids = .error (.duplicateId id) := by
  -- With each new identifier the invariant goes from `seen` to `seen ++ [id]`.
  induction ids generalizing seen index with
  | nil => exact .inl ⟨index, rfl, by simpa using h⟩
  | cons id ids ih =>
    unfold indexFrom
    split
    next hsome =>
      refine .inr ⟨[], id, ids, rfl, ?_, ?_, rfl⟩
      · simpa using h.nodup
      · simpa using h.isSome_iff.1 hsome
    next hnone =>
      have hid : id ∉ seen := fun hmem => hnone (h.isSome_iff.2 hmem)
      rcases ih (h.insert hid) with ⟨index', hok, hindexed⟩ | ⟨before, x, after, rfl, hnodup, hx, herror⟩
      · exact .inl ⟨index', by simpa using hok, by simpa using hindexed⟩
      · exact .inr ⟨id :: before, x, after, rfl, by simpa using hnodup, by simpa using hx,
          by simpa using herror⟩

theorem indexFrom_nil_cases (ids : List String) :
    (∃ index, indexFrom [] 0 ids = .ok index ∧ Indexed ids index) ∨
    ∃ before id after, ids = before ++ id :: after ∧ before.Nodup ∧ id ∈ before ∧
      indexFrom [] 0 ids = .error (.duplicateId id) :=
  indexFrom_cases .nil ids

theorem indexFrom_eq_ok_iff {ids : List String} {index : List (String × Nat)} :
    indexFrom [] 0 ids = .ok index ↔ Indexed ids index := by
  rcases indexFrom_nil_cases ids with ⟨index', hok, hindexed⟩ | ⟨before, id, after, rfl, -, hid, herror⟩
  · rw [hok, Except.ok.injEq]
    constructor
    · rintro rfl
      exact hindexed
    · exact hindexed.unique
  · rw [herror]
    exact iff_of_false nofun fun hindexed => not_nodup_of_mem hid hindexed.nodup

/-- An identifier is refused exactly if it is the first one that stands before as well. -/
theorem indexFrom_eq_error_iff {ids : List String} {e : BuildError} :
    indexFrom [] 0 ids = .error e ↔ ∃ before id after, ids = before ++ id :: after ∧ before.Nodup ∧
      id ∈ before ∧ e = .duplicateId id := by
  rcases indexFrom_nil_cases ids with ⟨index, hok, hindexed⟩ | ⟨before, id, after, rfl, hnodup, hid, herror⟩
  · rw [hok]
    refine iff_of_false nofun ?_
    rintro ⟨before, id, after, rfl, -, hid, -⟩
    exact not_nodup_of_mem hid hindexed.nodup
  · rw [herror, Except.error.injEq]
    constructor
    · rintro rfl
      exact ⟨before, id, after, rfl, hnodup, hid, rfl⟩
    · rintro ⟨before', id', after', heq, hnodup', hid', rfl⟩
      rw [eq_of_first_repeated heq hnodup hid hnodup' hid']

theorem exists_indexed {ids : List String} (h : ids.Nodup) : ∃ index, Indexed ids index := by
  rcases indexFrom_nil_cases ids with ⟨index, -, hindexed⟩ | ⟨before, id, after, rfl, -, hid, -⟩
  · exact ⟨index, hindexed⟩
  · exact absurd h (not_nodup_of_mem hid)

/-! ## Closed graphs -/

/-- The index has the positions of the blocks, and adjacent blocks exist. -/
structure Closed (g : Graph) : Prop where
  indexed : Indexed (g.blocks.map Block.id) g.index
  adjacents : ∀ b ∈ g.blocks, ∀ t ∈ b.adjacents, t ∈ g.blocks.map Block.id

/-- Control may go from the block `source` to the block `target`. -/
def Edge (g : Graph) (source target : String) : Prop :=
  ∃ b, g.get? source = some b ∧ target ∈ b.adjacents

/-- Control may get from the start block to the block `id`. -/
def Reachable (g : Graph) (id : String) : Prop := Relation.ReflTransGen g.Edge g.start.id id

theorem start_mem (g : Graph) : g.start ∈ g.blocks := List.get_mem g.blocks g.startAt

theorem get?_eq_some_iff_exists {g : Graph} {id : String} {b : Block} :
    g.get? id = some b ↔ ∃ position, Assoc.get? id g.index = some position ∧ g.blocks[position]? = some b :=
  Option.bind_eq_some_iff

theorem mem_of_get? {g : Graph} {id : String} {b : Block} (h : g.get? id = some b) : b ∈ g.blocks := by
  obtain ⟨position, -, hb⟩ := get?_eq_some_iff_exists.1 h
  exact List.mem_of_getElem? hb

theorem edge_of_signal {g : Graph} {id : String} {b : Block} (hb : g.get? id = some b)
    {env env' : Environment} {s : Signal} (hs : b.signal env = (s, env')) {t : String}
    (ht : t ∈ s.targets) : g.Edge id t :=
  ⟨b, hb, b.mem_adjacents_of_signal hs ht⟩

namespace Closed

variable {g : Graph} {id : String} {b : Block}

/-- A block is found by its identifier. -/
theorem get?_eq_some_iff (hg : g.Closed) : g.get? id = some b ↔ b ∈ g.blocks ∧ b.id = id := by
  simp only [get?_eq_some_iff_exists, hg.indexed.get?, List.getElem?_map, Option.map_eq_some_iff]
  constructor
  · rintro ⟨position, ⟨b', hb', rfl⟩, hb⟩
    obtain rfl : b' = b := Option.some.inj (hb'.symm.trans hb)
    exact ⟨List.mem_of_getElem? hb, rfl⟩
  · rintro ⟨hb, rfl⟩
    obtain ⟨position, hposition⟩ := List.mem_iff_getElem?.1 hb
    exact ⟨position, ⟨b, hposition, rfl⟩, hposition⟩

theorem get?_isSome_iff (hg : g.Closed) : (g.get? id).isSome = true ↔ id ∈ g.blocks.map Block.id := by
  simp only [Option.isSome_iff_exists, hg.get?_eq_some_iff, List.mem_map]

/-- A signal leads to blocks of the graph. -/
theorem get?_of_signal (hg : g.Closed) (hb : g.get? id = some b) {env env' : Environment} {s : Signal}
    (hs : b.signal env = (s, env')) {t : String} (ht : t ∈ s.targets) : (g.get? t).isSome := by
  rw [hg.get?_isSome_iff]
  exact hg.adjacents b (mem_of_get? hb) t (b.mem_adjacents_of_signal hs ht)

theorem get?_start (hg : g.Closed) : g.get? g.start.id = some g.start :=
  hg.get?_eq_some_iff.2 ⟨g.start_mem, rfl⟩

end Closed

/-! ## The checks -/

theorem constructAll_eq_ok_iff {ds : List BlockDescription} {blocks : List Block} :
    constructAll ds = .ok blocks ↔ List.Forall₂ (fun d b => Block.construct d = .ok b) ds blocks := by
  rw [← mapM_eq_ok_iff, constructAll]
  cases ds.mapM Block.construct <;> simp

theorem map_id_of_forall₂ {ds : List BlockDescription} {blocks : List Block}
    (h : List.Forall₂ (fun d b => Block.construct d = .ok b) ds blocks) :
    ds.map BlockDescription.id = blocks.map Block.id := by
  refine map_eq_of_forall₂ (fun d b hb => ?_) h
  exact (Block.construct_eq_ok hb).1.symm

theorem mem_startPositions_iff {blocks : List Block} {position : Fin blocks.length} :
    position ∈ startPositions blocks ↔ (blocks.get position).kind = .start := by
  simp [startPositions, List.mem_finRange]

theorem length_startPositions (blocks : List Block) :
    (startPositions blocks).length = blocks.countP (·.kind = .start) := by
  have hmap := congrArg (List.countP (·.kind = .start)) (List.map_get_finRange blocks)
  rwa [List.countP_map, List.countP_eq_length_filter] at hmap

theorem onlyStart_eq_ok_iff {blocks : List Block} {position : Fin blocks.length} :
    onlyStart blocks = .ok position ↔
      (blocks.get position).kind = .start ∧ blocks.countP (·.kind = .start) = 1 := by
  rw [← mem_startPositions_iff, ← length_startPositions]
  unfold onlyStart
  split
  next position' hone => simp [hone, eq_comm]
  next hne =>
    refine iff_of_false nofun ?_
    rintro ⟨-, hlength⟩
    obtain ⟨position', hone⟩ := List.length_eq_one_iff.1 hlength
    exact hne position' hone

/-- Every adjacent block of `b` is one of the blocks `ids`. -/
def Resolved (ids : List String) (b : Block) : Prop := ∀ t ∈ b.adjacents, t ∈ ids

theorem firstDangling_eq_none_iff {ids : List String} {index : List (String × Nat)}
    (h : Indexed ids index) {blocks : List Block} :
    firstDangling index blocks = none ↔ ∀ b ∈ blocks, Resolved ids b := by
  simp only [firstDangling, List.findSome?_eq_none_iff, Option.map_eq_none_iff, List.find?_eq_none,
    Resolved, ← h.isSome_iff, Bool.not_eq_true, Option.isNone_eq_false_iff]

theorem refusedFanOut_eq_none_iff {allow : Bool} {blocks : List Block} :
    refusedFanOut allow blocks = none ↔ allow = true ∨ ∀ b ∈ blocks, b.fansOut = false := by
  cases allow <;> simp [refusedFanOut]

theorem hasFanOut_eq_false_iff {g : Graph} :
    g.hasFanOut = false ↔ ∀ b ∈ g.blocks, b.fansOut = false := by
  simp [hasFanOut]

/-- The graph that the descriptions make: a block for each one at its position, the index of their
identifiers, and the position of the only start block. Adjacent blocks are among those described. -/
structure Built (allow : Bool) (ds : List BlockDescription) (g : Graph) : Prop where
  indexed : Indexed (ds.map BlockDescription.id) g.index
  blocks : List.Forall₂ (fun d b => Block.construct d = .ok b) ds g.blocks
  start : g.start.kind = .start
  starts : g.blocks.countP (·.kind = .start) = 1
  resolved : ∀ b ∈ g.blocks, Resolved (ds.map BlockDescription.id) b
  fanOut : allow = true ∨ ∀ b ∈ g.blocks, b.fansOut = false

/-- A graph is built exactly if every check passes. -/
theorem build_eq_ok_iff {allow : Bool} {ds : List BlockDescription} {g : Graph} :
    build allow ds = .ok g ↔ Built allow ds g := by
  constructor
  · intro h
    unfold build at h
    split at h
    · cases h
    next index hindex =>
    have hindexed := indexFrom_eq_ok_iff.1 hindex
    split at h
    · cases h
    next blocks hblocks =>
    split at h
    · cases h
    next startAt hstart =>
    split at h
    · cases h
    next hdangling =>
    split at h
    · cases h
    next hfan =>
      cases h
      obtain ⟨hkind, hcount⟩ := onlyStart_eq_ok_iff.1 hstart
      exact ⟨hindexed, constructAll_eq_ok_iff.1 hblocks, hkind, hcount,
        (firstDangling_eq_none_iff hindexed).1 hdangling, refusedFanOut_eq_none_iff.1 hfan⟩
  · intro h
    have hstart : onlyStart g.blocks = .ok g.startAt := onlyStart_eq_ok_iff.2 ⟨h.start, h.starts⟩
    simp only [build, indexFrom_eq_ok_iff.2 h.indexed, constructAll_eq_ok_iff.2 h.blocks, hstart,
      (firstDangling_eq_none_iff h.indexed).2 h.resolved, refusedFanOut_eq_none_iff.2 h.fanOut]

theorem exists_built {allow : Bool} {ds : List BlockDescription} {blocks : List Block} {start : Block}
    (hids : (ds.map BlockDescription.id).Nodup)
    (hblocks : List.Forall₂ (fun d b => Block.construct d = .ok b) ds blocks) (hstart : start ∈ blocks)
    (hkind : start.kind = .start) (hstarts : blocks.countP (·.kind = .start) = 1)
    (hresolved : ∀ b ∈ blocks, Resolved (ds.map BlockDescription.id) b)
    (hfan : allow = true ∨ ∀ b ∈ blocks, b.fansOut = false) :
    ∃ g, Built allow ds g ∧ g.blocks = blocks ∧ g.start = start := by
  obtain ⟨index, hindexed⟩ := exists_indexed hids
  obtain ⟨startAt, rfl⟩ := List.get_of_mem hstart
  exact ⟨⟨blocks, index, startAt⟩, ⟨hindexed, hblocks, hkind, hstarts, hresolved, hfan⟩, rfl, rfl⟩

/-! ## Graphs that were built -/

section
variable {allow : Bool} {ds : List BlockDescription} {g : Graph}

/-- The position of the start block is the only one of a start block. -/
theorem Built.startAt_iff (h : Built allow ds g) (position : Fin g.blocks.length) :
    (g.blocks.get position).kind = .start ↔ position = g.startAt := by
  have hlength := length_startPositions g.blocks
  rw [h.starts] at hlength
  obtain ⟨only, honly⟩ := List.length_eq_one_iff.1 hlength
  have hmem : ∀ position, (g.blocks.get position).kind = .start ↔ position = only := by
    intro position
    rw [← mem_startPositions_iff, honly, List.mem_singleton]
  rw [hmem, (hmem g.startAt).1 h.start]

/-- The start block is the only block of its kind. -/
theorem mem_blocks_start_iff (h : build allow ds = .ok g) (b : Block) :
    b ∈ g.blocks ∧ b.kind = .start ↔ b = g.start := by
  have hg := build_eq_ok_iff.1 h
  constructor
  · rintro ⟨hb, hkind⟩
    obtain ⟨position, rfl⟩ := List.get_of_mem hb
    rw [(hg.startAt_iff position).1 hkind, start]
  · rintro rfl
    exact ⟨g.start_mem, hg.start⟩

/-- A graph that was built is closed. -/
theorem closed_of_build (h : build allow ds = .ok g) : g.Closed := by
  have hg := build_eq_ok_iff.1 h
  have hids := map_id_of_forall₂ hg.blocks
  exact ⟨hids ▸ hg.indexed, hids ▸ hg.resolved⟩

/-- Every description has its block. -/
theorem get?_of_mem (h : build allow ds = .ok g) {d : BlockDescription} (hd : d ∈ ds) :
    ∃ b, g.get? d.id = some b ∧ Block.construct d = .ok b := by
  have hblocks := (build_eq_ok_iff.1 h).blocks
  obtain ⟨b, hb, hconstruct⟩ := exists_of_mem_right hblocks.flip hd
  exact ⟨b, (closed_of_build h).get?_eq_some_iff.2 ⟨hb, (Block.construct_eq_ok hconstruct).1⟩, hconstruct⟩

end

end Graph

end Flowchart
