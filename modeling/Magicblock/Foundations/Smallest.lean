import Mathlib.Tactic

/-!
# Foundations/Smallest — the smallest members of a collection, in order

Values are told apart by a key.  `smallest k` goes once over a list in any order and keeps the `k`
values with the smallest keys; of a list that is sorted in the end these are the first `k`.
-/

namespace Magicblock

open List

variable {α κ : Type*} [LinearOrder κ] (key : α → κ)

/-- Keys that go up. -/
def Ascending (l : List α) : Prop := l.Pairwise fun a b => key a < key b

/-- Adds a value to a sorted list; if there are more than `k` then, the greatest goes. -/
def pushBounded (k : ℕ) (heap : List α) (a : α) : List α :=
  let heap := heap.orderedInsert (fun a b => key a ≤ key b) a
  if k < heap.length then heap.dropLast else heap

/-- The `k` smallest values of a list, sorted. -/
def smallest (k : ℕ) (l : List α) : List α := l.foldl (pushBounded key k) []

variable {key} {l : List α}

theorem Ascending.le (h : Ascending key s) : s.Pairwise fun a b => key a ≤ key b :=
  List.Pairwise.imp le_of_lt h

theorem Ascending.nodup_map (h : Ascending key s) : (s.map key).Nodup :=
  List.Pairwise.imp ne_of_lt (pairwise_map.mpr h)

/-- A list with distinct keys can be sorted. -/
theorem exists_ascending (h : (l.map key).Nodup) : ∃ s, Ascending key s ∧ l.Perm s := by
  refine ⟨l.insertionSort fun a b => key a ≤ key b, ?_, (perm_insertionSort ..).symm⟩
  have : Std.Total fun a b => key a ≤ key b := ⟨fun a b => le_total (key a) (key b)⟩
  have : IsTrans α fun a b => key a ≤ key b := ⟨fun _ _ _ => le_trans⟩
  have hle := pairwise_insertionSort (fun a b => key a ≤ key b) l
  have hne : ((l.insertionSort fun a b => key a ≤ key b).map key).Nodup :=
    ((perm_insertionSort ..).map key).nodup_iff.mpr h
  exact hle.imp₂ (fun _ _ => lt_of_le_of_ne) (pairwise_map.mp hne)

/-- There is one way to sort. -/
theorem Ascending.eq_of_perm (h : Ascending key s) (hl : l.Pairwise fun a b => key a ≤ key b)
    (hperm : l.Perm s) : l = s := by
  refine List.Perm.eq_of_pairwise (fun a b ha hb hab hba => ?_) hl h.le hperm
  exact inj_on_of_nodup_map h.nodup_map (hperm.subset ha) hb (le_antisymm hab hba)

/-- The keys above the last of the first part are those of the second. -/
theorem Ascending.filter_append (h : Ascending key (l ++ l')) :
    (l ++ l').filter (fun a => (l.getLast?.map key).all fun k => decide (k < key a)) = l' := by
  obtain ⟨hl, -, hcross⟩ := pairwise_append.mp h
  rcases eq_nil_or_concat' l with rfl | ⟨l₀, b, rfl⟩
  · simp
  · obtain ⟨-, -, hb⟩ := pairwise_append.mp hl
    simp only [getLast?_concat, Option.map_some, Option.all_some]
    rw [filter_append, filter_eq_nil_iff.mpr ?_, filter_eq_self.mpr ?_, nil_append]
    · intro a ha
      exact decide_eq_true (hcross b (by simp) a ha)
    · intro a ha
      rcases mem_append.mp ha with ha | ha
      · simpa using (hb a ha b (by simp)).le
      · obtain rfl := mem_singleton.mp ha
        simp

/-! ### Keeping the smallest -/

theorem take_orderedInsert (r : α → α → Prop) [DecidableRel r] (k : ℕ) (a : α) (l : List α) :
    (l.orderedInsert r a).take k = ((l.take k).orderedInsert r a).take k := by
  induction l generalizing k with
  | nil => simp
  | cons b l ih =>
    cases k with
    | zero => simp
    | succ k =>
      rw [take_succ_cons, orderedInsert_cons, orderedInsert_cons]
      split_ifs
      · cases k with
        | zero => rfl
        | succ k => simp only [take_succ_cons, take_take, min_eq_left (Nat.le_succ k)]
      · rw [take_succ_cons, take_succ_cons, ih k]

theorem pushBounded_take :
    pushBounded key k (l.take k) a = (l.orderedInsert (fun a b => key a ≤ key b) a).take k := by
  rw [take_orderedInsert, pushBounded]
  have hlen : ((l.take k).orderedInsert (fun a b => key a ≤ key b) a).length ≤ k + 1 := by
    rw [orderedInsert_length, length_take]
    omega
  split_ifs with hlong
  · rw [dropLast_eq_take]
    congr 1
    omega
  · rw [take_of_length_le (not_lt.mp hlong)]

/-- **One pass finds the first of the sorted list.** -/
theorem Ascending.smallest_eq_take (h : Ascending key s) (hperm : l.Perm s) (k : ℕ) :
    smallest key k l = s.take k := by
  have hfold (sorted l : List α) : l.foldl (pushBounded key k) (sorted.take k) =
      (l.foldl (fun sorted a =>
        sorted.orderedInsert (fun a b => key a ≤ key b) a) sorted).take k := by
    induction l generalizing sorted with
    | nil => rfl
    | cons a l ih => rw [foldl_cons, foldl_cons, pushBounded_take, ih]
  have hsort : l.foldl (fun sorted a => sorted.orderedInsert (fun a b => key a ≤ key b) a) [] =
      l.reverse.insertionSort fun a b => key a ≤ key b :=
    foldr_reverse.symm
  have : Std.Total fun a b => key a ≤ key b := ⟨fun a b => le_total (key a) (key b)⟩
  have : IsTrans α fun a b => key a ≤ key b := ⟨fun _ _ _ => le_trans⟩
  have hstart := hfold [] l
  rw [take_nil, hsort] at hstart
  rw [smallest, hstart]
  congr 1
  refine h.eq_of_perm (pairwise_insertionSort ..) ?_
  exact (perm_insertionSort ..).trans ((reverse_perm l).trans hperm)

end Magicblock
