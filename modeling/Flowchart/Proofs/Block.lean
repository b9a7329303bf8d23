/-
What a block can do when control reaches it. `Signals` lists it case by case, and
`signal_eq_iff` says that the list is complete. Three facts follow that runs rely on: control
goes to adjacent blocks only, a fork goes to all of them in their order, and a block that
faults leaves the environment as it was. A block that was constructed is the one that its
description asks for, edges included.
-/
import Flowchart.Block.Basic
import Flowchart.Proofs.Lists

namespace Flowchart

/-- Everything a block can do in an environment: its signal, and the environment it leaves. -/
inductive Block.Signals (env : Environment) : Block → Signal → Environment → Prop
  | start {id targets} : Signals env ⟨id, .start targets⟩ (.forward targets) env
  | unevaluated {id name type expression targets e}
      (he : expression.evaluate env.get? = .error e) :
      Signals env ⟨id, .assign name type expression targets⟩
        (.fault (.evaluation expression.source e)) env
  | conflict {id name type expression targets v c}
      (hv : expression.evaluate env.get? = .ok v) (hc : env.assign name (v.coerce type) = .error c) :
      Signals env ⟨id, .assign name type expression targets⟩ (.fault (.typeConflict c)) env
  | assigned {id name type expression targets v old env'}
      (hv : expression.evaluate env.get? = .ok v)
      (ha : env.assign name (v.coerce type) = .ok (old, env')) :
      Signals env ⟨id, .assign name type expression targets⟩ (.forward targets) env'
  | undecided {id condition whenTrue whenFalse e} (he : condition.evaluate env.get? = .error e) :
      Signals env ⟨id, .decide condition whenTrue whenFalse⟩
        (.fault (.evaluation condition.source e)) env
  | decided {id condition whenTrue whenFalse v} (hv : condition.evaluate env.get? = .ok v) :
      Signals env ⟨id, .decide condition whenTrue whenFalse⟩
        (.next (if v.toBool then whenTrue else whenFalse)) env

namespace Signal

@[simp] theorem targets_forward (l : List String) : (forward l).targets = l := by
  match l with
  | [] | [_] | _ :: _ :: _ => rfl

theorem forward_ne_fault (l : List String) (f : BlockFault) : forward l ≠ .fault f := by
  match l with
  | [] | [_] | _ :: _ :: _ => exact nofun

end Signal

namespace Block

variable {b : Block} {env env' : Environment} {s : Signal}

theorem signals_signal (b : Block) (env : Environment) :
    Signals env b (b.signal env).1 (b.signal env).2 := by
  obtain ⟨id, op⟩ := b
  cases op with
  | start targets => exact .start
  | assign name type expression targets =>
    cases hv : expression.evaluate env.get? with
    | error e => simpa [signal, hv] using Signals.unevaluated hv
    | ok v =>
      cases ha : env.assign name (v.coerce type) with
      | error c => simpa [signal, hv, ha] using Signals.conflict hv ha
      | ok p => simpa [signal, hv, ha] using Signals.assigned hv ha
  | decide condition whenTrue whenFalse =>
    cases hv : condition.evaluate env.get? with
    | error e => simpa [signal, hv] using Signals.undecided hv
    | ok v => simpa [signal, hv] using Signals.decided hv

/-- A block does one of the things listed, and nothing else. -/
theorem signal_eq_iff : b.signal env = (s, env') ↔ Signals env b s env' := by
  constructor
  · intro h
    have := signals_signal b env
    rwa [h] at this
  · intro h
    cases h with
    | start => rfl
    | unevaluated he => simp [signal, he]
    | conflict hv hc => simp [signal, hv, hc]
    | assigned hv ha => simp [signal, hv, ha]
    | undecided he => simp [signal, he]
    | decided hv => simp [signal, hv]

theorem mem_adjacents_of_signal {t : String} (h : b.signal env = (s, env')) (ht : t ∈ s.targets) :
    t ∈ b.adjacents := by
  cases signal_eq_iff.1 h with
  | start | assigned => simpa [adjacents] using ht
  | unevaluated | conflict | undecided => simp [Signal.targets] at ht
  | decided =>
    simp only [Signal.targets, List.mem_singleton] at ht
    subst ht
    simp only [adjacents]
    split <;> simp

/-- A fork goes to every adjacent block, in order. -/
theorem adjacents_of_fork {targets : List String} (h : b.signal env = (.fork targets, env')) :
    b.adjacents = targets := by
  generalize hs : Signal.fork targets = s at h
  cases signal_eq_iff.1 h with
  | start | assigned =>
    have htargets := congrArg Signal.targets hs
    rw [Signal.targets_forward] at htargets
    exact htargets.symm
  | unevaluated | conflict | undecided | decided => cases hs

/-- Only a block that fans out forks. -/
theorem fansOut_of_fork {targets : List String} (h : b.signal env = (.fork targets, env')) :
    b.fansOut = true := by
  generalize hs : Signal.fork targets = s at h
  cases signal_eq_iff.1 h with
  | @start _ targets' | @assigned _ _ _ _ targets' =>
    match targets' with
    | [] | [_] => cases hs
    | _ :: _ :: _ => simp [fansOut]
  | unevaluated | conflict | undecided | decided => cases hs

theorem operation_of_decision (hk : b.kind = .decision) :
    ∃ condition whenTrue whenFalse, b.operation = .decide condition whenTrue whenFalse := by
  obtain ⟨id, op⟩ := b
  cases op with
  | start targets => cases hk
  | assign name type expression targets => cases type <;> cases hk
  | decide condition whenTrue whenFalse => exact ⟨condition, whenTrue, whenFalse, rfl⟩

/-- A decision goes to its first or to its second adjacent block, unless it faults. -/
theorem signal_of_decision (hk : b.kind = .decision) (h : b.signal env = (s, env')) :
    (∃ f, s = .fault f) ∨ ∃ i < 2, ∃ t, b.adjacents[i]? = some t ∧ s = .next t := by
  obtain ⟨condition, whenTrue, whenFalse, hop⟩ := operation_of_decision hk
  cases signal_eq_iff.1 h with
  | start | unevaluated | conflict | assigned => cases hop
  | undecided => exact .inl ⟨_, rfl⟩
  | @decided _ _ _ _ v =>
    refine .inr ⟨if v.toBool then 0 else 1, ?_⟩
    cases v.toBool <;> simp [adjacents]

/-- A block that faults leaves the environment as it was. -/
theorem environment_of_fault {f : BlockFault} (h : b.signal env = (.fault f, env')) : env' = env := by
  generalize hs : Signal.fault f = s at h
  cases signal_eq_iff.1 h with
  | start | unevaluated | conflict | undecided | decided => rfl
  | assigned => exact absurd hs.symm (Signal.forward_ne_fault _ f)

end Block

/-! ## Construction -/

theorem assignOperation_eq_ok {type : ValueType} {d : BlockDescription} {op : Operation}
    (h : assignOperation type d = .ok op) :
    ∃ name expression, op = .assign name type expression d.adjacents := by
  simp only [assignOperation, bind_eq_ok_iff] at h
  obtain ⟨p, -, h⟩ := h
  split at h
  · obtain ⟨expression, -, h⟩ := bind_eq_ok_iff.1 h
    cases h
    exact ⟨p.name, expression, rfl⟩
  · cases h

theorem decideOperation_eq_ok {d : BlockDescription} {op : Operation}
    (h : decideOperation d = .ok op) :
    ∃ condition whenTrue whenFalse, op = .decide condition whenTrue whenFalse ∧
      d.adjacents = [whenTrue, whenFalse] := by
  simp only [decideOperation, bind_eq_ok_iff] at h
  obtain ⟨p, -, h⟩ := h
  split at h
  next whenTrue whenFalse hadjacents =>
    obtain ⟨condition, -, h⟩ := bind_eq_ok_iff.1 h
    cases h
    exact ⟨condition, whenTrue, whenFalse, rfl, hadjacents⟩
  next => cases h

/-- A block has the identifier, the kind and the adjacent blocks of its description. -/
theorem Block.construct_eq_ok {d : BlockDescription} {b : Block} (h : construct d = .ok b) :
    b.id = d.id ∧ b.kind = d.kind ∧ b.adjacents = d.adjacents := by
  unfold construct at h
  split at h
  next op hop =>
    cases h
    unfold BlockDescription.operation at hop
    split at hop
    next hk =>
      split at hop
      · cases hop
        exact ⟨rfl, hk.symm, rfl⟩
      · cases hop
    next hk =>
      obtain ⟨name, expression, rfl⟩ := assignOperation_eq_ok hop
      exact ⟨rfl, hk.symm, rfl⟩
    next hk =>
      obtain ⟨name, expression, rfl⟩ := assignOperation_eq_ok hop
      exact ⟨rfl, hk.symm, rfl⟩
    next hk =>
      obtain ⟨condition, whenTrue, whenFalse, rfl, hadjacents⟩ := decideOperation_eq_ok hop
      exact ⟨rfl, hk.symm, hadjacents.symm⟩
  next => cases h

end Flowchart
