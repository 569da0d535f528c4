import Mathlib.Tactic

/-!
# Foundations/Lru — a cache that forgets what was used least recently

Entries are kept with the most recent one first, and there are at most `capacity` of them.  While no
entry is evicted the cache is a map (`peek_put`).
-/

namespace Magicblock

open List

/-- Keys with their values, the most recent first. -/
structure Lru (α β : Type) (capacity : ℕ) where
  entries : List (α × β)
  length_le : entries.length ≤ capacity

namespace Lru

variable {α β : Type} [DecidableEq α] {capacity : ℕ}

def empty : Lru α β capacity := ⟨[], Nat.zero_le _⟩

/-- The value of a key. -/
def peek (c : Lru α β capacity) (k : α) : Option β :=
  (c.entries.find? fun entry => entry.1 = k).map Prod.snd

/-- Gives a key its value, as the most recent one. -/
def put (c : Lru α β capacity) (k : α) (v : β) : Lru α β capacity where
  entries := ((k, v) :: c.entries.filter fun entry => entry.1 ≠ k).take capacity
  length_le := List.length_take_le _ _

/-- Using a key makes it the most recent one. -/
def touch (c : Lru α β capacity) (k : α) : Lru α β capacity :=
  match c.peek k with
  | some v => c.put k v
  | none => c

def pop (c : Lru α β capacity) (k : α) : Lru α β capacity where
  entries := c.entries.filter fun entry => entry.1 ≠ k
  length_le := (List.length_filter_le _ _).trans c.length_le

/-- There is no room for the key. -/
def full (c : Lru α β capacity) (k : α) : Bool :=
  (c.peek k).isNone && decide (capacity ≤ c.entries.length)

variable {c : Lru α β capacity}

theorem find?_filter (h : k' ≠ k) : (c.entries.filter fun entry => entry.1 ≠ k).find?
    (fun entry => entry.1 = k') = c.entries.find? fun entry => entry.1 = k' := by
  rw [List.find?_filter]
  congr 1
  funext entry
  by_cases hent : entry.1 = k'
  · simp [hent, h]
  · simp [hent]

theorem peek_pop : (c.pop k).peek k' = if k' = k then none else c.peek k' := by
  split_ifs with h
  · subst h
    rw [peek, Option.map_eq_none_iff, find?_eq_none]
    intro entry hent
    simpa using (mem_filter.mp hent).2
  · exact congrArg _ (find?_filter h)

/-- A key that is there, or for which there is room, makes no entry go. -/
theorem entries_put (h : c.full k = false) :
    (c.put k v).entries = (k, v) :: c.entries.filter fun entry => entry.1 ≠ k := by
  refine take_of_length_le ?_
  rw [length_cons]
  by_cases hmem : ∃ entry ∈ c.entries, entry.1 = k
  · have hlt : (c.entries.filter fun entry => entry.1 ≠ k).length < c.entries.length :=
      length_filter_lt_length_iff_exists.mpr (by simpa using hmem)
    exact hlt.trans_le c.length_le
  · have hnone : c.peek k = none := by
      rw [peek, Option.map_eq_none_iff, find?_eq_none]
      intro entry hent
      simpa using fun heq => hmem ⟨entry, hent, heq⟩
    rw [full, hnone, Option.isNone_none, Bool.true_and, decide_eq_false_iff_not, not_le] at h
    exact (Nat.succ_le_succ (length_filter_le _ _)).trans h

/-- **While nothing is evicted, the cache is a map.** -/
theorem peek_put (h : c.full k = false) :
    (c.put k v).peek k' = if k' = k then some v else c.peek k' := by
  rw [peek, entries_put h]
  split_ifs with hk
  · subst hk
    simp
  · rw [find?_cons_of_neg (by simpa using Ne.symm hk), find?_filter hk]
    rfl

theorem peek_put_of_ne (h : k' ≠ k) (hnone : c.peek k' = none) : (c.put k v).peek k' = none := by
  rw [peek, Option.map_eq_none_iff, find?_eq_none] at hnone ⊢
  intro entry hent
  rcases mem_cons.mp (mem_of_mem_take hent) with rfl | hold
  · simpa using h.symm
  · exact hnone entry (mem_of_mem_filter hold)

theorem length_put : (c.put k v).entries.length ≤ c.entries.length + 1 :=
  (length_take_le' _ _).trans (Nat.succ_le_succ (length_filter_le _ _))

theorem length_pop : (c.pop k).entries.length ≤ c.entries.length :=
  length_filter_le _ _

theorem length_touch : (c.touch k).entries.length ≤ c.entries.length + 1 := by
  unfold touch
  split
  · exact length_put
  · exact Nat.le_succ _

theorem peek_touch : (c.touch k).peek k' = c.peek k' := by
  unfold touch
  split
  next v hv =>
    have hroom : c.full k = false := by rw [full, hv, Option.isNone_some, Bool.false_and]
    rw [peek_put hroom]
    split_ifs with hk
    · rw [hk, hv]
    · rfl
  next => rfl

end Lru

end Magicblock
