import Mathlib.Data.List.Nodup

/-!
# Foundations/Passes — loops that deal with one key at a time

A loop over keys changes a state step by step; what a step does is seen at its own key only.  Then
the whole loop is seen at a key as the one step for that key, and at a key that is not in the loop
not at all.
-/

namespace Magicblock

variable {σ κ ν : Type*} {view : σ → κ → ν} {l : List κ}

theorem view_foldl_of_notMem (hoth : ∀ s k k', k' ≠ k → view (step s k) k' = view s k')
    (hk : k ∉ l) (s : σ) : view (l.foldl step s) k = view s k := by
  induction l generalizing s with
  | nil => rfl
  | cons a l ih =>
    rw [List.mem_cons, not_or] at hk
    rw [List.foldl_cons, ih hk.2, hoth s a k hk.1]

/-- **A loop without duplicates deals with each of its keys once.** -/
theorem view_foldl_of_mem {R : κ → ν → ν → Prop} (hself : ∀ s k, R k (view s k) (view (step s k) k))
    (hoth : ∀ s k k', k' ≠ k → view (step s k) k' = view s k') (hl : l.Nodup) (hk : k ∈ l)
    (s : σ) : R k (view s k) (view (l.foldl step s) k) := by
  induction l generalizing s with
  | nil => exact absurd hk List.not_mem_nil
  | cons a l ih =>
    obtain ⟨ha, hl⟩ := List.nodup_cons.mp hl
    rw [List.foldl_cons]
    obtain rfl | hk := List.mem_cons.mp hk
    · rw [view_foldl_of_notMem hoth ha]
      exact hself s k
    · have hne : k ≠ a := fun heq => ha (heq ▸ hk)
      rw [← hoth s a k hne]
      exact ih hl hk (step s a)

end Magicblock
