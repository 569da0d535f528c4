import Mathlib.Tactic

/-!
# Foundations/Waits — who waits for whom in a family of queues

`Behind q i j` says that `j` stands somewhere behind `i` in one of the queues of the family `q`, and
its transitive closure is everything a failure of `i` reaches.  A value that heads every queue it
is in waits for nobody (`not_behind_of_head`).
-/

open scoped List

namespace Magicblock

variable {κ α : Type*} {q : κ → List α}

/-- **`j` waits behind `i`** in some queue of the family. -/
def Behind (q : κ → List α) (i j : α) : Prop := ∃ k, [i, j] <+ q k

theorem behind_of_append (h : q k = front ++ i :: behind) (hj : j ∈ behind) : Behind q i j := by
  refine ⟨k, h ▸ List.Sublist.trans ?_ (List.sublist_append_right front (i :: behind))⟩
  exact (List.singleton_sublist.mpr hj).cons_cons i

/-- Cutting a queue in two, what stands behind a value of the second part is in the second part. -/
theorem mem_right_of_sublist (h : [i, j] <+ l ++ d) (hi : i ∉ l) : i ∈ d ∧ j ∈ d := by
  obtain ⟨l₁, l₂, h12, hl₁, hl₂⟩ := List.sublist_append_iff.mp h
  cases l₁ with
  | nil =>
    rw [List.nil_append] at h12
    subst h12
    exact ⟨hl₂.subset (by simp), hl₂.subset (by simp)⟩
  | cons a l₁ =>
    obtain ⟨rfl, -⟩ := List.cons.inj h12
    exact absurd (hl₁.subset (by simp)) hi

/-- **A value that heads all its queues waits for nobody.** -/
theorem not_behind_of_head (hq : ∀ k, (q k).Nodup)
    (hj : ∀ k, j ∈ q k → (q k).head? = some j) : ¬ Behind q i j := by
  rintro ⟨k, hk⟩
  have hmem : j ∈ q k := hk.subset (by simp)
  obtain ⟨rest, hrest⟩ := List.head?_eq_some_iff.mp (hj k hmem)
  have hnd := hq k
  rw [hrest] at hnd hk
  have hnotin := (List.nodup_cons.mp hnd).1
  cases hk with
  | cons _ h | cons_cons _ h => exact hnotin (h.subset (by simp))

theorem not_transGen_behind_of_head (hq : ∀ k, (q k).Nodup)
    (hj : ∀ k, j ∈ q k → (q k).head? = some j) (i : α) : ¬ Relation.TransGen (Behind q) i j := by
  intro h
  obtain ⟨b, -, hb⟩ := Relation.TransGen.tail'_iff.mp h
  exact not_behind_of_head hq hj hb

end Magicblock
