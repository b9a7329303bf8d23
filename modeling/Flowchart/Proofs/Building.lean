/-
What building answers, for every list of descriptions. `Verdict` says it without the checks: it
names the first check that fails and the first description, block or adjacent block at which it
fails, or the graph. `build_eq_iff` says that building answers exactly this, so that of several
violations at once the one reported is determined. The kinds are counted in the order of their first
occurrences (`Tallies`) and then sorted. A graph that was built is `Consistent`: blocks, index and start
position fit together, so that its views agree with one another and with the descriptions.
-/
import Flowchart.Proofs.Graph
import Mathlib

namespace Flowchart

theorem BlockKind.code_injective : Function.Injective code := by
  intro kind kind' h
  cases kind <;> cases kind' <;> simp_all [code]

namespace Graph

/-- The descriptions have distinct identifiers, and these are their blocks. -/
structure Constructs (ds : List BlockDescription) (blocks : List Block) : Prop where
  ids : (ds.map BlockDescription.id).Nodup
  blocks : List.Forall₂ (fun d b => Block.construct d = .ok b) ds blocks

/-- What becomes of descriptions. Each answer asks that the checks before it pass; the offender that
it names is the first one. -/
inductive Verdict (allow : Bool) (ds : List BlockDescription) : Except BuildError Graph → Prop
  | duplicateId {before d after} (hds : ds = before ++ d :: after)
      (hfresh : (before.map BlockDescription.id).Nodup)
      (hseen : d.id ∈ before.map BlockDescription.id) :
      Verdict allow ds (.error (.duplicateId d.id))
  | invalidPayload {before d after e} (hids : (ds.map BlockDescription.id).Nodup)
      (hds : ds = before ++ d :: after)
      (hbefore : ∀ d' ∈ before, ∃ b, Block.construct d' = .ok b)
      (he : Block.construct d = .error e) :
      Verdict allow ds (.error (.invalidPayload e))
  | startCount {blocks} (hblocks : Constructs ds blocks)
      (hstarts : blocks.countP (·.kind = .start) ≠ 1) :
      Verdict allow ds (.error (.startCount (blocks.countP (·.kind = .start))))
  | dangling {blocks before b after earlier target later} (hblocks : Constructs ds blocks)
      (hstarts : blocks.countP (·.kind = .start) = 1) (hb : blocks = before ++ b :: after)
      (hbefore : ∀ b' ∈ before, Resolved (ds.map BlockDescription.id) b')
      (hadjacents : b.adjacents = earlier ++ target :: later)
      (hearlier : ∀ t ∈ earlier, t ∈ ds.map BlockDescription.id)
      (htarget : target ∉ ds.map BlockDescription.id) :
      Verdict allow ds (.error (.dangling b.id target))
  | fanOut {blocks before b after} (hblocks : Constructs ds blocks)
      (hstarts : blocks.countP (·.kind = .start) = 1)
      (hresolved : ∀ b ∈ blocks, Resolved (ds.map BlockDescription.id) b) (hallow : allow = false)
      (hb : blocks = before ++ b :: after) (hbefore : ∀ b' ∈ before, b'.fansOut = false)
      (hfans : b.fansOut = true) :
      Verdict allow ds (.error (.fanOut b.id))
  | built {g : Graph} (h : Built allow ds g) : Verdict allow ds (.ok g)

/-! ## The first offender of each check -/

theorem constructAll_eq_error_iff {ds : List BlockDescription} {e : BuildError} :
    constructAll ds = .error e ↔ ∃ before d after fault, ds = before ++ d :: after ∧
      (∀ d' ∈ before, ∃ b, Block.construct d' = .ok b) ∧ Block.construct d = .error fault ∧
      e = .invalidPayload fault := by
  have hmapM : constructAll ds = .error e ↔
      ∃ fault, ds.mapM Block.construct = .error fault ∧ e = .invalidPayload fault := by
    unfold constructAll
    cases ds.mapM Block.construct <;> simp [eq_comm]
  rw [hmapM]
  simp only [mapM_eq_error_iff]
  constructor
  · rintro ⟨fault, ⟨before, d, after, hds, hbefore, hd⟩, he⟩
    exact ⟨before, d, after, fault, hds, hbefore, hd, he⟩
  · rintro ⟨before, d, after, fault, hds, hbefore, hd, he⟩
    exact ⟨fault, ⟨before, d, after, hds, hbefore, hd⟩, he⟩

theorem onlyStart_eq_error_iff {blocks : List Block} {e : BuildError} :
    onlyStart blocks = .error e ↔ blocks.countP (·.kind = .start) ≠ 1 ∧
      e = .startCount (blocks.countP (·.kind = .start)) := by
  rw [← length_startPositions]
  unfold onlyStart
  split
  next position hone => simp [hone]
  next hne =>
    have hlength : (startPositions blocks).length ≠ 1 := by
      intro hlength
      obtain ⟨position, hone⟩ := List.length_eq_one_iff.1 hlength
      exact hne position hone
    simp only [Except.error.injEq, ne_eq, hlength, not_false_eq_true, true_and]
    exact eq_comm

theorem exists_onlyStart {blocks : List Block} (h : blocks.countP (·.kind = .start) = 1) :
    ∃ startAt, onlyStart blocks = .ok startAt := by
  cases hstart : onlyStart blocks with
  | ok startAt => exact ⟨startAt, rfl⟩
  | error e => exact absurd h (onlyStart_eq_error_iff.1 hstart).1

theorem firstDangling_eq_some_iff {ids : List String} {index : List (String × Nat)}
    (h : Indexed ids index) {blocks : List Block} {source target : String} :
    firstDangling index blocks = some (source, target) ↔ ∃ before b after earlier later,
      blocks = before ++ b :: after ∧ (∀ b' ∈ before, Resolved ids b') ∧ b.id = source ∧
      b.adjacents = earlier ++ target :: later ∧ (∀ t ∈ earlier, t ∈ ids) ∧ target ∉ ids := by
  have hnone : ∀ t, (Assoc.get? t index).isNone = true ↔ t ∉ ids := by
    intro t
    rw [← h.isSome_iff, Bool.not_eq_true, Option.isSome_eq_false_iff]
  simp only [firstDangling, List.findSome?_eq_some_iff, Option.map_eq_some_iff, Prod.mk.injEq,
    List.find?_eq_some_iff_append, Option.map_eq_none_iff, List.find?_eq_none, Bool.not_eq_true',
    ← Bool.not_eq_true, hnone, Decidable.not_not]
  constructor
  · rintro ⟨before, b, after, hblocks, ⟨t, ⟨ht, earlier, later, hadj, hearlier⟩, hid, rfl⟩, hbefore⟩
    exact ⟨before, b, after, earlier, later, hblocks, hbefore, hid, hadj, hearlier, ht⟩
  · rintro ⟨before, b, after, earlier, later, hblocks, hbefore, hid, hadj, hearlier, ht⟩
    exact ⟨before, b, after, hblocks, ⟨target, ⟨ht, earlier, later, hadj, hearlier⟩, hid, rfl⟩, hbefore⟩

theorem refusedFanOut_eq_some_iff {allow : Bool} {blocks : List Block} {b : Block} :
    refusedFanOut allow blocks = some b ↔ allow = false ∧ ∃ before after,
      blocks = before ++ b :: after ∧ (∀ b' ∈ before, b'.fansOut = false) ∧ b.fansOut = true := by
  cases allow with
  | true => simp [refusedFanOut]
  | false =>
    simp only [refusedFanOut, Bool.false_eq_true, if_false, List.find?_eq_some_iff_append,
      Bool.not_eq_true', true_and]
    constructor
    · rintro ⟨hfans, before, after, hblocks, hbefore⟩
      exact ⟨before, after, hblocks, hbefore, hfans⟩
    · rintro ⟨before, after, hblocks, hbefore, hfans⟩
      exact ⟨hfans, before, after, hblocks, hbefore⟩

/-! ## The verdict -/

theorem verdict_build (allow : Bool) (ds : List BlockDescription) :
    Verdict allow ds (build allow ds) := by
  unfold build
  split
  next e he =>
    obtain ⟨before, id, after, hids, hnodup, hseen, rfl⟩ := indexFrom_eq_error_iff.1 he
    obtain ⟨before, rest, rfl, rfl, hrest⟩ := List.map_eq_append_iff.1 hids
    obtain ⟨d, after, rfl, rfl, -⟩ := List.map_eq_cons_iff.1 hrest
    exact .duplicateId rfl hnodup hseen
  next index hindex =>
  have hindexed := indexFrom_eq_ok_iff.1 hindex
  split
  next e he =>
    obtain ⟨before, d, after, fault, hds, hbefore, hd, rfl⟩ := constructAll_eq_error_iff.1 he
    exact .invalidPayload hindexed.nodup hds hbefore hd
  next blocks hall =>
  have hblocks : Constructs ds blocks := ⟨hindexed.nodup, constructAll_eq_ok_iff.1 hall⟩
  split
  next e he =>
    obtain ⟨hcount, rfl⟩ := onlyStart_eq_error_iff.1 he
    exact .startCount hblocks hcount
  next startAt hstart =>
  obtain ⟨hkind, hcount⟩ := onlyStart_eq_ok_iff.1 hstart
  split
  next source target hdangling =>
    obtain ⟨before, b, after, earlier, later, hb, hbefore, rfl, hadjacents, hearlier, htarget⟩ :=
      (firstDangling_eq_some_iff hindexed).1 hdangling
    exact .dangling hblocks hcount hb hbefore hadjacents hearlier htarget
  next hdangling =>
  have hresolved := (firstDangling_eq_none_iff hindexed).1 hdangling
  split
  next b hfan =>
    obtain ⟨hallow, before, after, hb, hbefore, hfans⟩ := refusedFanOut_eq_some_iff.1 hfan
    exact .fanOut hblocks hcount hresolved hallow hb hbefore hfans
  next hfan =>
    exact .built ⟨hindexed, hblocks.blocks, hkind, hcount, hresolved, refusedFanOut_eq_none_iff.1 hfan⟩

theorem Verdict.build_eq {allow : Bool} {ds : List BlockDescription} {r : Except BuildError Graph}
    (h : Verdict allow ds r) : build allow ds = r := by
  cases h with
  | @duplicateId before d after hds hfresh hseen =>
    have hindex : indexFrom [] 0 (ds.map BlockDescription.id) = .error (.duplicateId d.id) :=
      indexFrom_eq_error_iff.2 ⟨before.map BlockDescription.id, d.id, after.map BlockDescription.id,
        by simp [hds], hfresh, hseen, rfl⟩
    simp only [build, hindex]
  | @invalidPayload before d after e hids hds hbefore he =>
    obtain ⟨index, hindexed⟩ := exists_indexed hids
    have hall : constructAll ds = .error (.invalidPayload e) :=
      constructAll_eq_error_iff.2 ⟨before, d, after, e, hds, hbefore, he, rfl⟩
    simp only [build, indexFrom_eq_ok_iff.2 hindexed, hall]
  | startCount hblocks hstarts =>
    obtain ⟨index, hindexed⟩ := exists_indexed hblocks.ids
    simp only [build, indexFrom_eq_ok_iff.2 hindexed, constructAll_eq_ok_iff.2 hblocks.blocks,
      onlyStart_eq_error_iff.2 ⟨hstarts, rfl⟩]
  | @dangling blocks before b after earlier target later hblocks hstarts hb hbefore hadjacents hearlier
      htarget =>
    obtain ⟨index, hindexed⟩ := exists_indexed hblocks.ids
    obtain ⟨startAt, hstart⟩ := exists_onlyStart hstarts
    have hdangling : firstDangling index blocks = some (b.id, target) :=
      (firstDangling_eq_some_iff hindexed).2
        ⟨before, b, after, earlier, later, hb, hbefore, rfl, hadjacents, hearlier, htarget⟩
    simp only [build, indexFrom_eq_ok_iff.2 hindexed, constructAll_eq_ok_iff.2 hblocks.blocks, hstart,
      hdangling]
  | @fanOut blocks before b after hblocks hstarts hresolved hallow hb hbefore hfans =>
    obtain ⟨index, hindexed⟩ := exists_indexed hblocks.ids
    obtain ⟨startAt, hstart⟩ := exists_onlyStart hstarts
    have hdangling : firstDangling index blocks = none := (firstDangling_eq_none_iff hindexed).2 hresolved
    have hfan : refusedFanOut allow blocks = some b :=
      refusedFanOut_eq_some_iff.2 ⟨hallow, before, after, hb, hbefore, hfans⟩
    simp only [build, indexFrom_eq_ok_iff.2 hindexed, constructAll_eq_ok_iff.2 hblocks.blocks, hstart,
      hdangling, hfan]
  | built h => exact build_eq_ok_iff.2 h

/-- Building answers the verdict. -/
theorem build_eq_iff {allow : Bool} {ds : List BlockDescription} {r : Except BuildError Graph} :
    build allow ds = r ↔ Verdict allow ds r :=
  ⟨fun h => h ▸ verdict_build allow ds, Verdict.build_eq⟩

/-! ## Counts of kinds -/

/-- Every kind that occurs has one entry, with the number of its occurrences. -/
structure Tallies (kinds : List BlockKind) (counts : List (BlockKind × Nat)) : Prop where
  nodup : (counts.map Prod.fst).Nodup
  mem_iff : ∀ kind n, (kind, n) ∈ counts ↔ 0 < n ∧ n = kinds.count kind

theorem map_fst_countKind (kind : BlockKind) (counts : List (BlockKind × Nat)) :
    (countKind kind counts).map Prod.fst =
      if kind ∈ counts.map Prod.fst then counts.map Prod.fst else counts.map Prod.fst ++ [kind] := by
  induction counts with
  | nil => rfl
  | cons p counts ih =>
    obtain ⟨kind', n⟩ := p
    by_cases heq : kind' = kind
    · simp [countKind, heq]
    · rw [countKind, if_neg heq, List.map_cons, ih]
      simp only [List.map_cons, List.mem_cons, Ne.symm heq, false_or]
      split <;> rfl

/-- Only the entry of the kind changes. -/
theorem mem_countKind_iff {kind kind' : BlockKind} {n : Nat} {counts : List (BlockKind × Nat)}
    (h : (counts.map Prod.fst).Nodup) :
    (kind', n) ∈ countKind kind counts ↔
      if kind' = kind then (∃ m, (kind, m) ∈ counts ∧ n = m + 1) ∨ kind ∉ counts.map Prod.fst ∧ n = 1
      else (kind', n) ∈ counts := by
  induction counts with
  | nil => by_cases heq : kind' = kind <;> simp [countKind, heq]
  | cons p counts ih =>
    obtain ⟨k, m⟩ := p
    obtain ⟨hfresh, hnodup⟩ := List.nodup_cons.1 h
    by_cases hk : k = kind
    · subst hk
      have hrest : ∀ m, (k, m) ∉ counts := fun m hmem => hfresh (List.mem_map.2 ⟨_, hmem, rfl⟩)
      by_cases heq : kind' = k
      · simp [countKind, heq, hrest]
      · simp [countKind, heq]
    · rw [countKind, if_neg hk, List.mem_cons, ih hnodup]
      by_cases heq : kind' = kind
      · simp [heq, Ne.symm hk]
      · simp [heq]

/-- One more of a kind adds one to its entry, or makes the entry if the kind is new. -/
theorem Tallies.countKind {kinds : List BlockKind} {counts : List (BlockKind × Nat)}
    (h : Tallies kinds counts) (kind : BlockKind) :
    Tallies (kinds ++ [kind]) (countKind kind counts) := by
  have hkeys : kind ∈ counts.map Prod.fst ↔ 0 < kinds.count kind := by
    simp [h.mem_iff]
  refine ⟨?_, fun kind' n => ?_⟩
  · rw [map_fst_countKind]
    split
    next => exact h.nodup
    next hkind => simpa using h.nodup.concat hkind
  · rw [mem_countKind_iff h.nodup, List.count_append]
    by_cases heq : kind' = kind
    · subst heq
      simp only [if_true, h.mem_iff, hkeys, List.count_singleton_self]
      constructor
      · rintro (⟨m, ⟨-, rfl⟩, rfl⟩ | ⟨hnone, rfl⟩) <;> omega
      · rintro ⟨-, rfl⟩
        by_cases hzero : kinds.count kind' = 0
        · exact .inr ⟨by omega, by omega⟩
        · exact .inl ⟨_, ⟨Nat.pos_of_ne_zero hzero, rfl⟩, rfl⟩
    · have hother : [kind].count kind' = 0 := List.count_eq_zero.2 (by simpa using heq)
      rw [if_neg heq, h.mem_iff, hother, Nat.add_zero]

theorem Tallies.foldl {seen : List BlockKind} {counts : List (BlockKind × Nat)} (h : Tallies seen counts)
    (kinds : List BlockKind) :
    Tallies (seen ++ kinds) (kinds.foldl (fun counts kind => Graph.countKind kind counts) counts) := by
  induction kinds generalizing seen counts with
  | nil => simpa using h
  | cons kind kinds ih => simpa using ih (h.countKind kind)

theorem tallies_tally (kinds : List BlockKind) : Tallies kinds (tally kinds) := by
  have hnil : Tallies [] [] := ⟨List.nodup_nil, fun kind n => by simp; omega⟩
  exact hnil.foldl kinds

/-- The kinds are in the order of their codes, since sorting keeps the entries and no two have one kind. -/
theorem pairwise_kindCounts (g : Graph) : g.kindCounts.Pairwise (·.1.code < ·.1.code) := by
  have hordered : g.kindCounts.Pairwise (·.1.code ≤ ·.1.code) := by
    refine (List.pairwise_mergeSort (fun p q r => ?_) (fun p q => ?_) _).imp of_decide_eq_true
    · simpa using Nat.le_trans
    · simpa using Nat.le_total p.1.code q.1.code
  have hdistinct : (g.kindCounts.map Prod.fst).Nodup :=
    ((List.mergeSort_perm _ _).map Prod.fst).nodup_iff.2 (tallies_tally _).nodup
  refine (hordered.and (List.pairwise_map.1 hdistinct)).imp fun h => ?_
  exact Nat.lt_of_le_of_ne h.1 fun hcode => h.2 (BlockKind.code_injective hcode)

theorem mem_kindCounts_iff {g : Graph} {kind : BlockKind} {n : Nat} :
    (kind, n) ∈ g.kindCounts ↔ 0 < n ∧ n = (g.blocks.map Block.kind).count kind := by
  rw [kindCounts, List.mem_mergeSort, (tallies_tally _).mem_iff]

/-! ## Views of a graph -/

/-- Blocks, index and start position of a graph fit together, and its views agree with one another and
with the descriptions that it was built from. -/
structure Consistent (ds : List BlockDescription) (g : Graph) : Prop where
  size : g.size = ds.length
  index : ∀ id position, Assoc.get? id g.index = some position ↔
    ∃ b, g.blocks[position]? = some b ∧ b.id = id
  startAt : ∀ position, (g.blocks.get position).kind = .start ↔ position = g.startAt
  get? : ∀ id b, g.get? id = some b ↔ b ∈ g.blocks ∧ b.id = id ∧ ∀ b' ∈ g.blocks, b'.id = id → b' = b
  contains : ∀ id, g.contains id = (g.get? id).isSome ∧
    (g.contains id = true ↔ id ∈ ds.map BlockDescription.id)
  lookup : ∀ id, (∀ b, g.lookup id = .ok b ↔ g.get? id = some b) ∧
    ∀ e, g.lookup id = .error e ↔ g.contains id = false ∧ e = ⟨id⟩
  start : ∀ b, b ∈ g.blocks ∧ b.kind = .start ↔ b = g.start
  adjacents : ∀ b ∈ g.blocks, ∀ t ∈ b.adjacents, g.contains t = true
  fanOut : g.hasFanOut = true ↔ ∃ b ∈ g.blocks, b.fansOut = true
  kindOrder : g.kindCounts.Pairwise (·.1.code < ·.1.code)
  kindCounts : ∀ kind n, (kind, n) ∈ g.kindCounts ↔ 0 < n ∧ n = ds.countP (·.kind = kind)

/-- An identifier has a position exactly if a block stands there. -/
theorem Closed.contains_eq {g : Graph} (hg : g.Closed) (id : String) :
    g.contains id = (g.get? id).isSome := by
  rw [Bool.eq_iff_iff, contains, hg.indexed.isSome_iff, hg.get?_isSome_iff]

theorem lookup_eq_ok_iff {g : Graph} {id : String} {b : Block} :
    g.lookup id = .ok b ↔ g.get? id = some b := by
  unfold lookup
  cases g.get? id <;> simp

theorem Closed.lookup_eq_error_iff {g : Graph} (hg : g.Closed) {id : String} {e : BlockNotFound} :
    g.lookup id = .error e ↔ g.contains id = false ∧ e = ⟨id⟩ := by
  rw [hg.contains_eq, lookup]
  cases g.get? id <;> simp [eq_comm]

theorem consistent_of_build {allow : Bool} {ds : List BlockDescription} {g : Graph}
    (h : build allow ds = .ok g) : Consistent ds g := by
  have hbuilt := build_eq_ok_iff.1 h
  have hg := closed_of_build h
  have hkinds : ds.map BlockDescription.kind = g.blocks.map Block.kind := by
    refine map_eq_of_forall₂ (fun d b hb => ?_) hbuilt.blocks
    exact (Block.construct_eq_ok hb).2.1.symm
  refine
    { size := hbuilt.blocks.length_eq.symm
      index := fun id position => ?_
      startAt := hbuilt.startAt_iff
      get? := fun id b => ?_
      contains := fun id => ⟨hg.contains_eq id, hbuilt.indexed.isSome_iff⟩
      lookup := fun id => ⟨fun b => lookup_eq_ok_iff, fun e => hg.lookup_eq_error_iff⟩
      start := mem_blocks_start_iff h
      adjacents := fun b hb t ht => hbuilt.indexed.isSome_iff.2 (hbuilt.resolved b hb t ht)
      fanOut := by simp [hasFanOut]
      kindOrder := pairwise_kindCounts g
      kindCounts := fun kind n => ?_ }
  · rw [hg.indexed.get?, List.getElem?_map, Option.map_eq_some_iff]
  · rw [hg.get?_eq_some_iff]
    constructor
    · rintro ⟨hb, rfl⟩
      exact ⟨hb, rfl, fun b' hb' hid => List.inj_on_of_nodup_map hg.indexed.nodup hb' hb hid⟩
    · rintro ⟨hb, hid, -⟩
      exact ⟨hb, hid⟩
  · rw [mem_kindCounts_iff, ← hkinds, List.count, List.countP_map]
    rfl

/-- **Building accepts exactly the well-formed descriptions and otherwise reports the first
violation.** The answer to every list of descriptions is its verdict, and a graph that was built is
consistent: the index has exactly the positions of the blocks, so that a block is found by its
identifier and by nothing else; the start position is that of the only start block, adjacent blocks
exist, and the kinds are counted in the order of their codes. -/
theorem build_reports_first_violation (allow : Bool) (ds : List BlockDescription) :
    (∀ r, build allow ds = r ↔ Verdict allow ds r) ∧
    (∀ g, build allow ds = .ok g → Consistent ds g) :=
  ⟨fun _ => build_eq_iff, fun _ => consistent_of_build⟩

/-- Of two blocks with ways to nowhere, one with two of them, and a fan-out that is not allowed, the
first such way of the first block is reported. With the missing blocks and the permission all is well,
though the start block is not the first one and the kinds do not come in the order of their codes. -/
theorem build_reports_first_violation_dangling :
    let ds : List BlockDescription := [.withAdjacents (.decimalAssign "b" "n" "1") ["s", "z"],
      .withAdjacents (.start "s") ["b", "x", "a"]]
    let more := ds ++ [.boolAssign "x" "c" "1<2", .decimalAssign "a" "n" "2", .decimalAssign "z" "n" "3"]
    Verdict false ds (.error (.dangling "b" "z")) ∧ Verdict false more (.error (.fanOut "b")) ∧
      ∃ g, build true more = .ok g ∧ Consistent more g ∧ Assoc.get? "a" g.index = some 3 ∧
        g.startAt.val = 1 ∧ g.kindCounts = [(.start, 1), (.decimalAssign, 3), (.boolAssign, 1)] := by
  intro ds more
  refine ⟨((build_reports_first_violation false ds).1 _).1 (by decide +kernel),
    ((build_reports_first_violation false more).1 _).1 (by decide +kernel), ?_⟩
  let two : Decimal := ⟨false, 2, 0, by decide, by decide⟩
  let three : Decimal := ⟨false, 3, 0, by decide, by decide⟩
  let g : Graph :=
    { blocks := [⟨"b", .assign "n" .decimal ⟨"1", .number .one, []⟩ ["s", "z"]⟩,
        ⟨"s", .start ["b", "x", "a"]⟩,
        ⟨"x", .assign "c" .bool ⟨"1<2", .compare (.number .one) [(.less, .number two)], []⟩ []⟩,
        ⟨"a", .assign "n" .decimal ⟨"2", .number two, []⟩ []⟩,
        ⟨"z", .assign "n" .decimal ⟨"3", .number three, []⟩ []⟩]
      index := [("a", 3), ("b", 0), ("s", 1), ("x", 2), ("z", 4)]
      startAt := 1 }
  have hbuild : build true more = .ok g := by decide +kernel
  exact ⟨g, hbuild, (build_reports_first_violation true more).2 g hbuild, rfl, rfl, by cbv⟩

end Graph

end Flowchart
