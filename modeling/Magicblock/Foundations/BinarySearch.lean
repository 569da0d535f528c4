import Mathlib.Tactic

/-!
# Foundations/BinarySearch — what a binary search promises

A binary search promises its answer only on sorted input.  On anything else it still returns
*positions of the sought value or nothing* (`sound`), but which of the two depends on the probes it
makes; over a ring buffer even on where the buffer is split.  `BinarySearch α` is that contract, so
a result proved for every instance holds for every layout.  `bisect` is one instance.
-/

namespace Magicblock

/-- **A search that is sound everywhere and complete on strictly sorted lists.** -/
structure BinarySearch (α : Type*) [LinearOrder α] where
  search : List α → α → Option ℕ
  sound {l : List α} {a : α} {i : ℕ} : search l a = some i → l[i]? = some a
  complete {l : List α} {a : α} : l.Pairwise (· < ·) → a ∈ l → search l a ≠ none

namespace BinarySearch

variable {α : Type*} [LinearOrder α]

variable {a : α} {l : List α}

/-- On a strictly sorted list the search misses exactly the absent values. -/
theorem search_eq_none (B : BinarySearch α) (hl : l.Pairwise (· < ·)) :
    B.search l a = none ↔ a ∉ l := by
  constructor
  · intro h ha
    exact B.complete hl ha h
  · intro ha
    cases h : B.search l a with
    | none => rfl
    | some i => exact absurd (List.mem_of_getElem? (B.sound h)) ha

/-! ### The halving search -/

/-- Halve the window `[lo, lo + width)` until the probe hits `a`. -/
def bisectIn (l : List α) (a : α) : ℕ → ℕ → ℕ → Option ℕ
  | 0, _, _ => none
  | fuel + 1, lo, width =>
    if width = 0 then none
    else
      let mid := lo + width / 2
      match l[mid]? with
      | none => none
      | some b =>
        if b = a then some mid
        else if b < a then bisectIn l a fuel (mid + 1) (width - width / 2 - 1)
        else bisectIn l a fuel lo (width / 2)

theorem bisectIn_sound (h : bisectIn l a fuel lo width = some i) : l[i]? = some a := by
  induction fuel generalizing lo width with
  | zero => simp [bisectIn] at h
  | succ fuel ih =>
    simp only [bisectIn] at h
    split at h
    · cases h
    · split at h
      · cases h
      next b hb =>
        split_ifs at h with hba hlt
        · cases h
          exact hba ▸ hb
        · exact ih h
        · exact ih h

/-- In a strictly sorted list positions and values are ordered alike. -/
theorem index_lt_of_lt (hl : l.Pairwise (· < ·)) {b : α} {i j : ℕ} (hi : l[i]? = some a)
    (hj : l[j]? = some b) (hab : a < b) : i < j := by
  obtain ⟨hil, rfl⟩ := List.getElem?_eq_some_iff.mp hi
  obtain ⟨hjl, rfl⟩ := List.getElem?_eq_some_iff.mp hj
  by_contra hle
  rcases Nat.lt_or_eq_of_le (Nat.le_of_not_lt hle) with hlt | rfl
  · exact lt_asymm hab (List.pairwise_iff_getElem.mp hl j i hjl hil hlt)
  · exact lt_irrefl _ hab

/-- **The window never loses the value** — while `a` sits inside it, halving finds it. -/
theorem bisectIn_complete (hl : l.Pairwise (· < ·)) {fuel lo width p : ℕ} (hp : l[p]? = some a)
    (hlo : lo ≤ p) (hhi : p < lo + width) (hlen : lo + width ≤ l.length) (hfuel : width ≤ fuel) :
    bisectIn l a fuel lo width ≠ none := by
  induction fuel generalizing lo width with
  | zero => omega
  | succ fuel ih =>
    have hw : width ≠ 0 := by omega
    simp only [bisectIn, if_neg hw]
    split
    next hnone => exact absurd (List.getElem?_eq_none_iff.mp hnone) (by omega)
    next b hb =>
      split_ifs with hba hlt
      · exact Option.some_ne_none _
      · have hmid := index_lt_of_lt hl hb hp hlt
        exact ih (by omega) (by omega) (by omega) (by omega)
      · have hgt : a < b := lt_of_le_of_ne (not_lt.mp hlt) (Ne.symm hba)
        have hmid := index_lt_of_lt hl hp hb hgt
        exact ih (by omega) (by omega) (by omega) (by omega)

/-- **Bisection of the whole list**, an instance of the contract. -/
def bisect : BinarySearch α where
  search l a := bisectIn l a l.length 0 l.length
  sound := bisectIn_sound
  complete hl ha := by
    obtain ⟨p, hp⟩ := List.mem_iff_getElem?.mp ha
    have hlt : p < _ := (List.getElem?_eq_some_iff.mp hp).1
    exact bisectIn_complete hl hp (Nat.zero_le p) (by omega) (by omega) le_rfl

end BinarySearch

end Magicblock
