/-
Rounding of exact quotients of natural numbers. Every inexact operation of
the library goes through one of these, so "rounded" means the same
everywhere.
-/
namespace Flowchart

/-- `n / d` to the nearest natural number; a tie goes to the even neighbour. -/
def nearestEven (n d : Nat) : Nat :=
  let q := n / d
  let r := n % d
  if d < 2 * r ∨ (2 * r = d ∧ q % 2 = 1) then q + 1 else q

/-- `n / d` to the nearest natural number; a tie goes up. -/
def nearestUp (n d : Nat) : Nat := (2 * n + d) / (2 * d)

theorem nearestEven_one (n : Nat) : nearestEven n 1 = n := by
  simp [nearestEven]; omega

theorem le_nearestEven (n d : Nat) : n / d ≤ nearestEven n d := by
  simp only [nearestEven]; split <;> omega

theorem nearestEven_le (n d : Nat) : nearestEven n d ≤ n / d + 1 := by
  simp only [nearestEven]; split <;> omega

end Flowchart
