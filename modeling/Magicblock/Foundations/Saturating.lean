import Mathlib.Tactic

/-!
# Foundations/Saturating — sums that stop at a bound

Unsigned machine words are often added so that the sum stays at the largest word once it gets there.
Such a sum grows with where it starts, and while it is below the bound it is the sum.
-/

namespace Magicblock

variable {cap : ℕ}

/-- The sum from `start`, never above `cap`. -/
def saturatingSum (cap start : ℕ) (summands : List ℕ) : ℕ :=
  summands.foldl (fun sum n => min (sum + n) cap) start

theorem saturatingSum_mono (summands : List ℕ) (h : m ≤ n) :
    saturatingSum cap m summands ≤ saturatingSum cap n summands := by
  induction summands generalizing m n with
  | nil => exact h
  | cons k summands ih => exact ih (min_le_min (Nat.add_le_add_right h k) le_rfl)

/-- A sum that has not reached the bound is the sum. -/
theorem saturatingSum_eq_of_lt (summands : List ℕ) (h : saturatingSum cap start summands < cap) :
    saturatingSum cap start summands = start + summands.sum := by
  induction summands generalizing start with
  | nil => rfl
  | cons n summands ih =>
    have hsum : saturatingSum cap (min (start + n) cap) summands =
        min (start + n) cap + summands.sum := ih h
    change saturatingSum cap (min (start + n) cap) summands < cap at h
    change saturatingSum cap (min (start + n) cap) summands = _
    rw [hsum, List.sum_cons]
    omega

/-- A sum that does not exceed the bound is the sum. -/
theorem saturatingSum_eq_of_le (summands : List ℕ) (h : start + summands.sum ≤ cap) :
    saturatingSum cap start summands = start + summands.sum := by
  induction summands generalizing start with
  | nil => rfl
  | cons n summands ih =>
    rw [List.sum_cons] at h ⊢
    change saturatingSum cap (min (start + n) cap) summands = _
    rw [Nat.min_eq_left (by omega), ih (by omega), Nat.add_assoc]

end Magicblock
