import Mathlib.Tactic

/-!
# Foundations/Takers — many walk past a row of counters, and each takes one

A taker walks along a row of counters.  At a counter that is zero it goes on, at any other it takes
one and leaves.  Several takers walk at the same time, and counters can grow meanwhile.  `Covered`
says that from every position on there is at least as much as there are takers; it holds if there is
enough for everyone who enters, and then no taker reaches the end of the row.
-/

namespace Magicblock

open Multiset

/-- **From every position on there is enough** for the takers that are there. -/
def Covered (counters : List ℕ) (takers : Multiset ℕ) : Prop :=
  ∀ p, takers.countP (p ≤ ·) ≤ (counters.drop p).sum

theorem covered_zero (counters : List ℕ) : Covered counters 0 := fun _ => by
  rw [countP_zero]
  exact Nat.zero_le _

/-- What is left from a position on, with one counter set apart. -/
theorem sum_drop_middle (front back : List ℕ) :
    ((front ++ a :: back).drop p).sum = if p ≤ front.length then (front.drop p).sum + a + back.sum
      else (back.drop (p - front.length - 1)).sum := by
  split_ifs with hp
  · rw [List.drop_append_of_le_length hp, List.sum_append, List.sum_cons, add_assoc]
  · obtain ⟨q, rfl⟩ := Nat.exists_eq_add_of_lt (not_le.mp hp)
    rw [add_assoc, List.drop_append, List.drop_eq_nil_of_le (by omega), List.nil_append,
      Nat.add_sub_cancel_left, List.drop_succ_cons, Nat.add_sub_cancel]

namespace Covered

/-- **No taker is at the end of the row.** -/
theorem lt_length (h : Covered counters (i ::ₘ takers)) : i < counters.length := by
  by_contra hi
  have hnone := h i
  rw [countP_cons_of_pos _ le_rfl, List.drop_eq_nil_of_le (not_lt.mp hi)] at hnone
  exact absurd hnone (Nat.not_succ_le_zero _)

/-- One more enters at the start, if there is enough for all. -/
theorem enter (h : Covered counters takers) (hsum : takers.card < counters.sum) :
    Covered counters (0 ::ₘ takers) := by
  intro p
  rcases Nat.eq_zero_or_pos p with rfl | hp
  · calc (0 ::ₘ takers).countP (0 ≤ ·) ≤ (0 ::ₘ takers).card := countP_le_card ..
      _ ≤ (counters.drop 0).sum := by rwa [card_cons]
  · rw [countP_cons_of_neg _ (not_le.mpr hp)]
    exact h p

/-- A counter grows. -/
theorem put (h : Covered (front ++ a :: back) takers) (hab : a ≤ b) :
    Covered (front ++ b :: back) takers := by
  intro p
  have hp := h p
  rw [sum_drop_middle] at hp ⊢
  split_ifs at hp ⊢ <;> omega

/-- A taker takes one and leaves. -/
theorem take (h : Covered (front ++ (a + 1) :: back) (front.length ::ₘ takers)) :
    Covered (front ++ a :: back) takers := by
  intro p
  have hp := h p
  rw [sum_drop_middle, countP_cons] at hp
  rw [sum_drop_middle]
  split_ifs at hp ⊢ <;> omega

/-- A taker goes on past a zero. -/
theorem pass (h : Covered (front ++ 0 :: back) (front.length ::ₘ takers)) :
    Covered (front ++ 0 :: back) ((front.length + 1) ::ₘ takers) := by
  intro p
  rcases eq_or_ne p (front.length + 1) with rfl | hne
  · -- here it counts for the first time; at the zero it counted before
    have hzero := h front.length
    have hmono : takers.countP (front.length + 1 ≤ ·) ≤ takers.countP (front.length ≤ ·) := by
      rw [countP_eq_card_filter, countP_eq_card_filter]
      exact card_le_card (monotone_filter_right _ fun _ => Nat.le_of_succ_le)
    rw [sum_drop_middle, if_pos le_rfl, List.drop_length, List.sum_nil,
      countP_cons_of_pos _ le_rfl] at hzero
    rw [sum_drop_middle, if_neg (by omega), Nat.add_sub_cancel_left, Nat.sub_self, List.drop_zero,
      countP_cons_of_pos _ le_rfl]
    refine (Nat.add_le_add_right hmono 1).trans (hzero.trans_eq ?_)
    rw [zero_add, zero_add]
  · have hp := h p
    rw [countP_cons] at hp ⊢
    split_ifs at hp ⊢ <;> omega

end Covered

end Magicblock
