/-
A run never leaves its graph. In a closed graph every queued continuation stands before a
block of the graph, so entering never fails for want of a block.
-/
import Flowchart.Proofs.Graph
import Flowchart.Proofs.Run.Step

namespace Flowchart.Run

/-- Every queued continuation stands before a block of the graph. -/
def OnGraph (r : Run) : Prop := ∀ c ∈ r.queue, (r.graph.get? c.block).isSome

theorem onGraph_start {g : Graph} (hg : g.Closed) (config : Config) : (start g config).OnGraph := by
  intro c hc
  simp only [start, List.mem_singleton] at hc
  subst hc
  exact Option.isSome_of_eq_some hg.get?_start

theorem get?_of_blockFor {r : Run} {c : Continuation} {b : Block} (h : r.blockFor c = .ok b) :
    r.graph.get? c.block = some b := by
  unfold blockFor at h
  split at h
  · cases h
  split at h
  · cases h
  next b' hb =>
  split at h
  · cases h
  · cases h; exact hb

/-- The continuations that a settled signal leaves in the queue were there before or stand
before a target of the signal. -/
theorem settle_queue {r r' : Run} {c d : Continuation} {s : Signal} (h : r.settle c s = .ok r')
    (hd : d ∈ r'.queue) : d ∈ r.queue ∨ d.block ∈ s.targets := by
  cases s with
  | terminate => cases h; exact .inl hd
  | fault f => cases h; exact .inl hd
  | next target =>
    cases h
    rcases List.mem_cons.1 hd with rfl | hd
    · exact .inr (by simp [Signal.targets])
    · exact .inl hd
  | fork targets =>
    simp only [settle, fork_eq] at h
    split at h
    · cases h
    · cases h
      rcases List.mem_append.1 hd with hd | hd
      · exact .inl hd
      · exact .inr (mem_children hd)

theorem OnGraph.step {r r' : Run} {result} (hg : r.graph.Closed) (hr : r.OnGraph)
    (h : StepTo r result r') : r'.OnGraph := by
  cases h with
  | halted | drained | refused => exact hr
  | @settled c rest b s env _ _ hq hb hs h =>
    intro d hd
    rw [(settle_frame h).1]
    rcases settle_queue h hd with hd | hd
    · exact hr d (hq ▸ List.mem_cons_of_mem _ hd)
    · exact hg.get?_of_signal (get?_of_blockFor hb) hs hd
  | exceeded _ hq =>
    intro d hd
    exact hr d (hq ▸ List.mem_cons_of_mem _ hd)

theorem onGraph_after {g : Graph} (hg : g.Closed) (config : Config) (n : Nat) :
    ((start g config).after n).OnGraph := by
  have h : ((start g config).after n).graph.Closed ∧ ((start g config).after n).OnGraph := by
    refine after_induction (P := fun r => r.graph.Closed ∧ r.OnGraph) ⟨hg, onGraph_start hg config⟩ ?_ n
    intro r r' result ⟨hclosed, hr⟩ hto
    exact ⟨hto.frame.1 ▸ hclosed, hr.step hclosed hto⟩
  exact h.2

theorem blockFor_missing {r : Run} {c : Continuation} {block : String}
    (h : r.blockFor c = .error (.missingBlock block)) : r.graph.get? c.block = none := by
  unfold blockFor at h
  split at h
  · cases h
  split at h
  next hb => exact hb
  next =>
    split at h
    · cases h
    · cases h

/-- In a closed graph no call fails for want of a block. -/
theorem call_ne_missingBlock {g : Graph} (hg : g.Closed) (config : Config) (n : Nat) (block : String) :
    (start g config).call n ≠ .error (.missingBlock block) := by
  intro h
  obtain ⟨j, -, hj, hcall⟩ := exists_failure (r := start g config) rfl h
  have hgraph := onGraph_after hg config j
  have hto := stepTo_after (start g config) j
  rw [hcall] at hto
  generalize (start g config).after (j + 1) = r' at hto
  generalize (start g config).after j = r at *
  cases hto with
  | halted hr => cases hj.symm.trans hr
  | refused _ hq hb =>
    have hsome := hgraph _ (hq ▸ List.mem_cons_self)
    rw [blockFor_missing hb] at hsome
    cases hsome
  | exceeded _ _ _ _ hset =>
    obtain ⟨_, _, -, he, -⟩ := settle_error hset
    cases he

end Flowchart.Run
