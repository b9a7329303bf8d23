/-
Integer expressions: literals without places, names for integers and truth values, and every operator
but division. Over the mathematical integers such a tree has a value (`exact`) and, on the way to
it, results and divisors in the order in which they are met (`events`). Evaluation gives exactly
that value, unless one of the results is out of range or one of the divisors is zero; then it reports
the first of these (`eval_integer_expression`).
-/
import Flowchart.Proofs.Decimal.Integers
import Flowchart.Proofs.Expression.Evaluation
import Flowchart.Proofs.Expression.Leaves

namespace Flowchart

/-! ## Exact arithmetic -/

/-- A value of exact arithmetic. -/
inductive Exact
  | integer (n : Int)
  | truth (holds : Bool)
deriving DecidableEq, Repr

/-- The value as a number: a truth value is `1` or `0`. -/
def Exact.toInt : Exact → Int
  | integer n => n
  | truth holds => if holds then 1 else 0

/-- What is met on the way to a value. -/
inductive Exact.Event
  | result (n : Int)
  | divisor (n : Int)
deriving DecidableEq, Repr

/-- A result must be below the mantissa bound, and a divisor must not be zero. -/
def Exact.Event.error? : Exact.Event → Option EvalError
  | result n => if n.natAbs < mantissaBound then none else some .overflow
  | divisor n => if n = 0 then some .divisionByZero else none

/-- The operation on integers. An integer expression has no quotients. -/
def ArithOp.onInts (op : ArithOp) (m n : Int) : Int :=
  match op with
  | add => m + n
  | sub => m - n
  | mul => m * n
  | div => m.fdiv n
  | mod => m.fmod n

def ArithOp.events (op : ArithOp) (m n : Int) : List Exact.Event :=
  match op with
  | add | sub | mul => [.result (op.onInts m n)]
  | div | mod => [.divisor n, .result (op.onInts m n)]

def CompareOp.relates (op : CompareOp) (m n : Int) : Bool :=
  match op with
  | less => m < n
  | greater => n < m
  | atMost => m ≤ n
  | atLeast => n ≤ m
  | equal => m = n

def Sign.onInt : Sign → Int → Int
  | plus, n => n
  | minus, n => -n

namespace Expr

section
variable (σ : String → Exact)

mutual

/-- The exact value of an integer expression, where `σ` gives the values of the names. -/
def exact : Expr → Exact
  | number d => .integer (d.scaledTo 0)
  | name x => σ x
  | signed s e => .integer (s.onInt (exact e).toInt)
  | chain e rest => .integer (exactChain (exact e).toInt rest)
  | compare e rest => .truth (exactCompare (exact e).toInt rest)

def exactChain (acc : Int) : List (ArithOp × Expr) → Int
  | [] => acc
  | (op, e) :: rest => exactChain (op.onInts acc (exact e).toInt) rest

def exactCompare (left : Int) : List (CompareOp × Expr) → Bool
  | [] => true
  | (op, e) :: rest => op.relates left (exact e).toInt && exactCompare (exact e).toInt rest

end

mutual

/-- The results and divisors on the way, in order. Operands behind the first pair that does not
compare are not looked at. -/
def events : Expr → List Exact.Event
  | number _ => []
  | name _ => []
  | signed _ e => events e
  | chain e rest => events e ++ eventsChain (exact σ e).toInt rest
  | compare e rest => events e ++ eventsCompare (exact σ e).toInt rest

def eventsChain (acc : Int) : List (ArithOp × Expr) → List Exact.Event
  | [] => []
  | (op, e) :: rest =>
    let n := (exact σ e).toInt
    events e ++ (op.events acc n ++ eventsChain (op.onInts acc n) rest)

def eventsCompare (left : Int) : List (CompareOp × Expr) → List Exact.Event
  | [] => []
  | (op, e) :: rest =>
    let n := (exact σ e).toInt
    events e ++ if op.relates left n then eventsCompare n rest else []

end

end

mutual

/-- Whether the tree has only literals without places, and no division. -/
def integral : Expr → Bool
  | number d => d.scale == 0
  | name _ => true
  | signed _ e => integral e
  | chain e rest => integral e && integralChain rest
  | compare e rest => integral e && integralCompare rest

def integralChain : List (ArithOp × Expr) → Bool
  | [] => true
  | (op, e) :: rest => op != .div && (integral e && integralChain rest)

def integralCompare : List (CompareOp × Expr) → Bool
  | [] => true
  | (_, e) :: rest => integral e && integralCompare rest

end

end Expr

/-- The value is that of exact arithmetic: an integer without places, or the same truth value. -/
def Value.Shows : Value → Exact → Prop
  | decimal d, .integer n => d.Whole n
  | bool b, .truth holds => b = holds
  | _, _ => False

theorem Value.Shows.toDecimal {v : Value} {x : Exact} (h : v.Shows x) : v.toDecimal.Whole x.toInt := by
  cases v with
  | decimal d =>
    cases x with
    | integer n => exact h
    | truth _ => exact h.elim
  | bool b =>
    cases x with
    | integer _ => exact h.elim
    | truth holds =>
      obtain rfl : b = holds := h
      cases b
      · exact Decimal.whole_zero
      · exact Decimal.whole_one

/-! ## Answers -/

/-- The computation reports the first event that is an error. If there is none, it has a result, and
the result satisfies `P`. -/
def ReportsFirst {α : Type} (P : α → Prop) (events : List Exact.Event) (answer : Except EvalError α) : Prop :=
  match events.findSome? Exact.Event.error? with
  | none => ∃ a, answer = .ok a ∧ P a
  | some err => answer = .error err

section
variable {α β : Type} {P : α → Prop} {Q : β → Prop} {events events' : List Exact.Event}

theorem ReportsFirst.of_fine {answer : Except EvalError α} (h : ReportsFirst P events answer)
    (hfine : ∀ ev ∈ events, ev.error? = none) : ∃ a, answer = .ok a ∧ P a := by
  unfold ReportsFirst at h
  rwa [List.findSome?_eq_none_iff.2 hfine] at h

theorem ReportsFirst.of_first {answer : Except EvalError α} (h : ReportsFirst P events answer)
    {before after : List Exact.Event} {ev : Exact.Event} {err : EvalError} (hev : events = before ++ ev :: after)
    (hbefore : ∀ ev ∈ before, ev.error? = none) (herr : ev.error? = some err) : answer = .error err := by
  have hfirst : events.findSome? Exact.Event.error? = some err := by
    rw [hev, List.findSome?_append, List.findSome?_eq_none_iff.2 hbefore, List.findSome?_cons, herr]
    rfl
  unfold ReportsFirst at h
  rwa [hfirst] at h

theorem ReportsFirst.ok {a : α} (h : P a) : ReportsFirst P [] (.ok a) := ⟨a, rfl, h⟩

/-- A computation that goes on with a result meets the events of both parts. -/
theorem ReportsFirst.bind {answer : Except EvalError α} {next : α → Except EvalError β}
    (h : ReportsFirst P events answer) (hnext : ∀ a, P a → ReportsFirst Q events' (next a)) :
    ReportsFirst Q (events ++ events') (answer.bind next) := by
  unfold ReportsFirst at h ⊢
  rw [List.findSome?_append]
  cases herr : events.findSome? Exact.Event.error? with
  | none =>
    rw [herr] at h
    obtain ⟨a, rfl, ha⟩ := h
    exact hnext a ha
  | some err =>
    rw [herr] at h
    obtain rfl := h
    rfl

end

section
variable {a c : Decimal} {m n : Int}

theorem reportsFirst_of_exactly {result : Option Decimal} (h : Decimal.Exactly result n) :
    ReportsFirst (·.Whole n) [.result n] (match result with
      | some d => .ok d
      | none => .error .overflow) := by
  unfold Decimal.Exactly at h
  by_cases hn : n.natAbs < mantissaBound
  · rw [if_pos hn] at h
    obtain ⟨d, rfl, hd⟩ := h
    have hfine : [Exact.Event.result n].findSome? Exact.Event.error? = none := by simp [Exact.Event.error?, hn]
    rw [ReportsFirst, hfine]
    exact ⟨d, rfl, hd⟩
  · rw [if_neg hn] at h
    obtain rfl := h
    have hlarge : [Exact.Event.result n].findSome? Exact.Event.error? = some .overflow := by
      simp [Exact.Event.error?, hn]
    rw [ReportsFirst, hlarge]

/-- An operation on integers is exact, or it reports what is wrong. -/
theorem apply_reportsFirst {op : ArithOp} (hop : op ≠ .div) (ha : a.Whole m) (hc : c.Whole n) :
    ReportsFirst (·.Whole (op.onInts m n)) (op.events m n) (op.apply a c) := by
  cases op with
  | add => exact reportsFirst_of_exactly (ha.add hc)
  | sub => exact reportsFirst_of_exactly (ha.sub hc)
  | mul => exact reportsFirst_of_exactly (ha.mul hc)
  | div => exact absurd rfl hop
  | mod =>
    by_cases hn : n = 0
    · have hz : c.isZero = true := hc.isZero_iff.2 hn
      simp [ReportsFirst, ArithOp.events, Exact.Event.error?, ArithOp.apply, hn, hz]
    · have hz : c.isZero = false := by rw [← Bool.not_eq_true, hc.isZero_iff]; exact hn
      have hdivisor : Exact.Event.error? (.divisor n) = none := by simp [Exact.Event.error?, hn]
      have hresult := reportsFirst_of_exactly (ha.floorMod hc hn)
      simp only [ArithOp.apply, hz]
      unfold ReportsFirst at hresult ⊢
      rw [ArithOp.events, List.findSome?_cons, hdivisor]
      exact hresult

theorem holds_eq_relates (op : CompareOp) (ha : a.Whole m) (hc : c.Whole n) :
    op.holds a c = op.relates m n := by
  cases op <;> simp only [CompareOp.holds, CompareOp.relates, ha.compare hc] <;> rw [Bool.eq_iff_iff] <;>
    simp [compare_lt_iff_lt, compare_gt_iff_gt]

theorem Sign.apply_whole (s : Sign) (ha : a.Whole m) : (s.apply a).Whole (s.onInt m) := by
  cases s with
  | plus => exact ha
  | minus => exact ha.neg

end

/-! ## Evaluation -/

namespace Expr

section
variable {b : Bindings} {σ : String → Exact}

mutual

theorem eval_reportsFirst : ∀ e : Expr, e.integral = true →
    (∀ x ∈ e.leaves, ∃ v, b x = some v ∧ v.Shows (σ x)) →
      ReportsFirst (·.Shows (e.exact σ)) (e.events σ) (e.eval b)
  | number d, he, _ => by
    simp only [eval, events]
    exact .ok ⟨by simpa [integral] using he, rfl⟩
  | name x, _, hb => by
    obtain ⟨v, hv, hshows⟩ := hb x (by simp [leaves])
    simp only [eval, events, hv, exact]
    exact .ok hshows
  | signed s e, he, hb => by
    have ih := eval_reportsFirst e (by simpa [integral] using he) (by simpa [leaves] using hb)
    rw [eval_signed, events, exact, ← List.append_nil (e.events σ)]
    exact ih.bind fun v hv => .ok (s.apply_whole hv.toDecimal)
  | chain e rest, he, hb => by
    simp only [integral, Bool.and_eq_true] at he
    have ihe := eval_reportsFirst e he.1 fun x hx => hb x (by simp [leaves, hx])
    rw [eval_chain, events, exact]
    exact ihe.bind fun v hv =>
      evalChain_reportsFirst rest hv.toDecimal he.2 fun x hx => hb x (by simp [leaves, hx])
  | compare e rest, he, hb => by
    simp only [integral, Bool.and_eq_true] at he
    have ihe := eval_reportsFirst e he.1 fun x hx => hb x (by simp [leaves, hx])
    rw [eval_compare, events, exact]
    exact ihe.bind fun v hv =>
      evalCompare_reportsFirst rest hv.toDecimal he.2 fun x hx => hb x (by simp [leaves, hx])

theorem evalChain_reportsFirst : ∀ (rest : List (ArithOp × Expr)) {acc : Decimal} {m : Int}, acc.Whole m →
    integralChain rest = true → (∀ x ∈ leavesChain rest, ∃ v, b x = some v ∧ v.Shows (σ x)) →
      ReportsFirst (·.Shows (.integer (exactChain σ m rest))) (eventsChain σ m rest) (evalChain b acc rest)
  | [], acc, m, hacc, _, _ => by
    simp only [evalChain, eventsChain, exactChain]
    exact .ok hacc
  | (op, e) :: rest, acc, m, hacc, hrest, hb => by
    simp only [integralChain, Bool.and_eq_true, bne_iff_ne] at hrest
    obtain ⟨hop, he, hrest⟩ := hrest
    have ihe := eval_reportsFirst e he fun x hx => hb x (by simp [leavesChain, hx])
    rw [evalChain_cons, eventsChain, exactChain]
    refine ihe.bind fun v hv => (apply_reportsFirst hop hacc hv.toDecimal).bind fun d hd => ?_
    exact evalChain_reportsFirst rest hd hrest fun x hx => hb x (by simp [leavesChain, hx])

theorem evalCompare_reportsFirst : ∀ (rest : List (CompareOp × Expr)) {left : Decimal} {m : Int}, left.Whole m →
    integralCompare rest = true → (∀ x ∈ leavesCompare rest, ∃ v, b x = some v ∧ v.Shows (σ x)) →
      ReportsFirst (·.Shows (.truth (exactCompare σ m rest))) (eventsCompare σ m rest) (evalCompare b left rest)
  | [], left, m, hleft, _, _ => by
    simp only [evalCompare, eventsCompare, exactCompare]
    exact .ok rfl
  | (op, e) :: rest, left, m, hleft, hrest, hb => by
    simp only [integralCompare, Bool.and_eq_true] at hrest
    have ihe := eval_reportsFirst e hrest.1 fun x hx => hb x (by simp [leavesCompare, hx])
    rw [evalCompare_cons, eventsCompare, exactCompare]
    refine ihe.bind fun v hv => ?_
    rw [holds_eq_relates op hleft hv.toDecimal]
    cases hop : op.relates m (exact σ e).toInt with
    | true =>
      rw [Bool.true_and]
      exact evalCompare_reportsFirst rest hv.toDecimal hrest.2 fun x hx => hb x (by simp [leavesCompare, hx])
    | false => exact .ok rfl

end

/-- **Integer expressions are exact, or they report the first failure.** If every result on the way is
in range and no divisor is zero, the value is the exact one; otherwise the first result out of
range is an overflow, or the first zero divisor a division by zero, whichever is met first. -/
theorem eval_integer_expression {e : Expr} (he : e.integral = true)
    (hb : ∀ x ∈ e.leaves, ∃ v, b x = some v ∧ v.Shows (σ x)) :
    ((∀ ev ∈ e.events σ, ev.error? = none) → ∃ v, e.eval b = .ok v ∧ v.Shows (e.exact σ)) ∧
      ∀ before ev after err, e.events σ = before ++ ev :: after → (∀ ev ∈ before, ev.error? = none) →
        ev.error? = some err → e.eval b = .error err :=
  ⟨(eval_reportsFirst e he hb).of_fine, fun _ _ _ _ => (eval_reportsFirst e he hb).of_first⟩

/-- The tree of `n % d < d + t`, where `d` is the largest decimal. -/
def remainderBelow : Expr :=
  .compare (.chain (.name "n") [(.mod, .number .largest)])
    [(.less, .chain (.number .largest) [(.add, .name "t")])]

/-- Binds `n` to `-1` and `t` to a truth value. -/
def minusOne (t : Bool) : Bindings := fun x =>
  if x = "n" then some (.decimal (.neg .one)) else some (.bool t)

/-- The remainder is the largest decimal less one, and the sum is in range exactly if `t` is false. -/
theorem eval_integer_expression_remainderBelow :
    (∃ v, remainderBelow.eval (minusOne false) = .ok v ∧ v.Shows (.truth true)) ∧
      remainderBelow.eval (minusOne true) = .error .overflow := by
  let σ (t : Bool) : String → Exact := fun x => if x = "n" then .integer (-1) else .truth t
  have hb (t : Bool) : ∀ x ∈ remainderBelow.leaves, ∃ v, minusOne t x = some v ∧ v.Shows (σ t x) := by
    intro x _
    by_cases hx : x = "n"
    · simp only [minusOne, σ, hx, if_true]
      exact ⟨_, rfl, Decimal.whole_one.neg⟩
    · simp only [minusOne, σ, hx, if_false]
      exact ⟨_, rfl, rfl⟩
  have he : remainderBelow.integral = true := by decide +kernel
  constructor
  · exact (eval_integer_expression he (hb false)).1 (by decide +kernel)
  · have hevents : remainderBelow.events (σ true) =
        [.divisor (mantissaBound - 1), .result (mantissaBound - 2)] ++ [.result mantissaBound] := by
      decide +kernel
    exact (eval_integer_expression he (hb true)).2 _ _ _ _ hevents (by decide +kernel) (by decide +kernel)

end

end Expr

end Flowchart
