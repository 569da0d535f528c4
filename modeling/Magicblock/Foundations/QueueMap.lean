import Mathlib.Data.List.AList
import Magicblock.Foundations.BinarySearch

/-!
# Foundations/QueueMap — a hash map of FIFO queues

The data structure behind per-resource locking: every key has a queue of waiters, a key whose queue
is empty has no entry (`NoEmpty`).  `queue m k` reads a map as a family of queues, and each
operation is described by what it does to that family:

* `pushBack`  — `entry(k).or_default().push_back(a)`;
* `store`     — write a shortened queue back, dropping the entry with the last waiter;
* `cut`       — drop a queue from the position a search finds for `a` on.

`fronted m a` lists the keys whose queue is headed by `a`, and `tally` counts the heads of all
queues the way a counting hash map does.
-/

namespace Magicblock

open AList

/-- A map from keys to queues. -/
abbrev QueueMap (κ α : Type*) := AList fun _ : κ => List α

namespace QueueMap

variable {κ α : Type*} [DecidableEq κ]

/-- The queue of a key — empty where the map has no entry. -/
def queue (m : QueueMap κ α) (k : κ) : List α := (m.lookup k).getD []

/-- **No entry holds an empty queue.** -/
def NoEmpty (m : QueueMap κ α) : Prop := ∀ k, m.lookup k ≠ some []

def pushBack (m : QueueMap κ α) (k : κ) (a : α) : QueueMap κ α :=
  m.insert k (m.queue k ++ [a])

/-- Store a queue, or drop the entry if nothing is left in it. -/
def store (m : QueueMap κ α) (k : κ) (q : List α) : QueueMap κ α :=
  if q.isEmpty then m.erase k else m.insert k q

@[simp] theorem queue_empty (k : κ) : queue (∅ : QueueMap κ α) k = [] := by
  simp [queue]

theorem noEmpty_empty : NoEmpty (∅ : QueueMap κ α) := fun k => by simp

variable {k : κ} {m : QueueMap κ α}

theorem queue_of_lookup (h : m.lookup k = some q) : m.queue k = q := by
  simp [queue, h]

theorem NoEmpty.lookup_eq_none_iff (h : m.NoEmpty) : m.lookup k = none ↔ m.queue k = [] := by
  constructor
  · intro hk
    simp [queue, hk]
  · intro hq
    cases hk : m.lookup k with
    | none => rfl
    | some q =>
      rw [queue_of_lookup hk] at hq
      exact absurd (hq ▸ hk) (h k)

theorem NoEmpty.lookup_eq_some (h : m.NoEmpty) (hq : m.queue k ≠ []) :
    m.lookup k = some (m.queue k) := by
  cases hk : m.lookup k with
  | none => exact absurd (h.lookup_eq_none_iff.mp hk) hq
  | some q => rw [queue_of_lookup hk]

theorem queue_pushBack :
    (m.pushBack k a).queue j = if j = k then m.queue k ++ [a] else m.queue j := by
  by_cases hj : j = k
  · subst hj
    simp [pushBack, queue]
  · simp [pushBack, queue, hj, lookup_insert_ne]

theorem NoEmpty.pushBack (h : m.NoEmpty) (k : κ) (a : α) : (m.pushBack k a).NoEmpty := by
  intro j
  by_cases hj : j = k
  · subst hj
    simp [QueueMap.pushBack]
  · rw [QueueMap.pushBack, lookup_insert_ne hj]
    exact h j

theorem queue_erase (m : QueueMap κ α) (k j : κ) :
    queue (m.erase k) j = if j = k then [] else m.queue j := by
  by_cases hj : j = k
  · subst hj
    simp [queue]
  · simp [queue, hj, lookup_erase_ne]

theorem NoEmpty.erase (h : m.NoEmpty) (k : κ) : NoEmpty (m.erase k) := by
  intro j
  by_cases hj : j = k
  · subst hj
    simp
  · rw [lookup_erase_ne hj]
    exact h j

theorem queue_store (m : QueueMap κ α) (k j : κ) (q : List α) :
    (m.store k q).queue j = if j = k then q else m.queue j := by
  cases q with
  | nil => exact queue_erase m k j
  | cons a q =>
    by_cases hj : j = k
    · subst hj
      simp [store, queue]
    · simp [store, queue, hj, lookup_insert_ne]

theorem NoEmpty.store (h : m.NoEmpty) (k : κ) (q : List α) : (m.store k q).NoEmpty := by
  cases q with
  | nil => exact h.erase k
  | cons a q =>
    intro j
    by_cases hj : j = k
    · subst hj
      simp [QueueMap.store]
    · simp only [QueueMap.store, List.isEmpty_cons, Bool.false_eq_true, if_false]
      rw [lookup_insert_ne hj]
      exact h j

/-- Pushing one value to distinct keys appends it once to each of their queues. -/
theorem queue_foldl_pushBack (a : α) {ks : List κ} (hks : ks.Nodup) (m : QueueMap κ α) (j : κ) :
    (ks.foldl (fun m k => m.pushBack k a) m).queue j
      = if j ∈ ks then m.queue j ++ [a] else m.queue j := by
  induction ks generalizing m with
  | nil => simp
  | cons k ks ih =>
    obtain ⟨hk, hks⟩ := List.nodup_cons.mp hks
    rw [List.foldl_cons, ih hks, queue_pushBack]
    by_cases hj : j = k
    · subst hj
      simp [hk]
    · simp [hj]

theorem NoEmpty.foldl_pushBack (h : m.NoEmpty) (a : α) (ks : List κ) :
    (ks.foldl (fun m k => m.pushBack k a) m).NoEmpty := by
  induction ks generalizing m with
  | nil => exact h
  | cons k ks ih => exact ih (h.pushBack k a)

/-! ### Heads of queues -/

section Heads

variable [DecidableEq α]

/-- The keys whose queue is headed by `a`. -/
def fronted (m : QueueMap κ α) (a : α) : List κ :=
  (m.entries.filter fun e => e.2.head? = some a).map (·.1)

/-- The heads of all queues, one per entry. -/
def heads (m : QueueMap κ α) : List α := m.entries.filterMap (·.2.head?)

variable {a : α} {ks : List κ}

theorem mem_fronted : k ∈ m.fronted a ↔ (m.queue k).head? = some a := by
  constructor
  · intro h
    obtain ⟨⟨k, q⟩, he, rfl⟩ := List.mem_map.mp h
    obtain ⟨hmem, hhead⟩ := List.mem_filter.mp he
    rw [queue_of_lookup (mem_lookup_iff.mpr hmem)]
    exact of_decide_eq_true hhead
  · intro h
    cases hk : m.lookup k with
    | none => simp [queue, hk] at h
    | some q =>
      rw [queue_of_lookup hk] at h
      refine List.mem_map.mpr ⟨⟨k, q⟩, List.mem_filter.mpr ⟨?_, decide_eq_true h⟩, rfl⟩
      exact mem_lookup_iff.mp hk

omit [DecidableEq κ] in
theorem nodup_fronted (m : QueueMap κ α) (a : α) : (m.fronted a).Nodup :=
  (List.Sublist.map _ List.filter_sublist).nodup m.keys_nodup

omit [DecidableEq κ] in
theorem count_heads (m : QueueMap κ α) (a : α) : m.heads.count a = (m.fronted a).length := by
  rw [heads, fronted, List.length_map, List.count, List.countP_filterMap,
    ← List.countP_eq_length_filter]
  congr 1
  funext e
  cases e.2.head? with
  | none => rfl
  | some b => simp [beq_eq_decide]

/-- If exactly the keys of `ks` are headed by `a`, the count of such heads is their number. -/
theorem length_fronted (hks : ks.Nodup) (h : ∀ k, (m.queue k).head? = some a ↔ k ∈ ks) :
    (m.fronted a).length = ks.length :=
  (List.perm_of_nodup_nodup_toFinset_eq (m.nodup_fronted a) hks
    (by ext k; simp [mem_fronted, h])).length_eq

/-- If all keys of `ks` are headed by `a` and there are no more such heads, then they are all. -/
theorem head_iff_of_length_fronted (hks : ks.Nodup) (hall : ∀ k ∈ ks, (m.queue k).head? = some a)
    (hlen : (m.fronted a).length = ks.length) (k : κ) : (m.queue k).head? = some a ↔ k ∈ ks := by
  have hsub : ks ⊆ m.fronted a := fun k hk => mem_fronted.mpr (hall k hk)
  have hperm := (List.subperm_of_subset hks hsub).perm_of_length_le hlen.le
  rw [← mem_fronted, hperm.mem_iff]

/-- If only keys of `ks` are headed by `a`, and as many as there are, then all of them are. -/
theorem head_of_length_fronted (hsub : ∀ k, (m.queue k).head? = some a → k ∈ ks)
    (hlen : (m.fronted a).length = ks.length) (hk : k ∈ ks) : (m.queue k).head? = some a := by
  have hsub : m.fronted a ⊆ ks := fun k hk => hsub k (mem_fronted.mp hk)
  have hperm := (List.subperm_of_subset (m.nodup_fronted a) hsub).perm_of_length_le hlen.ge
  exact mem_fronted.mp (hperm.mem_iff.mpr hk)

/-- **A counting map** — `*counts.entry(a).or_default() += 1` for every value of a list. -/
def tally (l : List α) : AList fun _ : α => ℕ :=
  l.foldl (fun counts a => counts.insert a ((counts.lookup a).getD 0 + 1)) ∅

theorem lookup_foldl_tally (l : List α) (counts : AList fun _ : α => ℕ) :
    (l.foldl (fun counts a => counts.insert a ((counts.lookup a).getD 0 + 1)) counts).lookup a
      = if l.count a = 0 then counts.lookup a
        else some ((counts.lookup a).getD 0 + l.count a) := by
  induction l generalizing counts with
  | nil => simp
  | cons b l ih =>
    rw [List.foldl_cons, ih]
    by_cases hab : a = b
    · subst hab
      by_cases hl : l.count a = 0
      · simp [hl]
      · simp [hl]
        omega
    · rw [lookup_insert_ne hab, List.count_cons_of_ne (Ne.symm hab)]

/-- A value is in the counting map iff it occurs, and then with its number of occurrences. -/
theorem lookup_tally (l : List α) :
    (tally l).lookup a = if l.count a = 0 then none else some (l.count a) := by
  simp [tally, lookup_foldl_tally]

/-- Enumerating a counting map in any order meets `a` with count `n` iff `a` occurs `n > 0` times.
-/
theorem mem_of_perm_tally {l : List α} {order : List (Sigma fun _ : α => ℕ)}
    (h : order.Perm (tally l).entries) {n : ℕ} : ⟨a, n⟩ ∈ order ↔ n = l.count a ∧ 0 < n := by
  rw [h.mem_iff, ← mem_lookup_iff, lookup_tally]
  by_cases hl : l.count a = 0
  · simp only [hl, if_true]
    constructor
    · intro hn
      cases hn
    · omega
  · simp only [hl, if_false, Option.mem_def, Option.some_inj]
    omega

end Heads

/-! ### Cutting a queue at a searched value -/

section Cut

variable [LinearOrder α]

/-- **Drop the queue of `k` from the position found for `a` on.**  Returns the remaining map and
what stood behind `a`; nothing happens where the entry is missing or the search misses. -/
def cut (B : BinarySearch α) (a : α) (m : QueueMap κ α) (k : κ) : QueueMap κ α × List α :=
  match m.lookup k with
  | none => (m, [])
  | some q =>
    match B.search q a with
    | none => (m, [])
    | some pos => (m.store k (q.take pos), q.drop (pos + 1))

/-- **What a cut does** — either nothing, or the queue loses `a` and all that stood behind it. -/
theorem cut_cases (B : BinarySearch α) (a : α) (hm : m.NoEmpty) (k : κ) :
    (cut B a m k = (m, []) ∧ ((m.queue k).Pairwise (· < ·) → a ∉ m.queue k)) ∨
      ∃ front behind, m.queue k = front ++ a :: behind ∧
    cut B a m k = (m.store k front, behind) := by
  cases hk : m.lookup k with
  | none =>
    refine .inl ⟨by simp [cut, hk], fun _ => ?_⟩
    simp [hm.lookup_eq_none_iff.mp hk]
  | some q =>
    cases hs : B.search q a with
    | none =>
      refine .inl ⟨by simp [cut, hk, hs], fun hq => ?_⟩
      rw [queue_of_lookup hk] at hq ⊢
      exact (B.search_eq_none hq).mp hs
    | some pos =>
      refine .inr ⟨q.take pos, q.drop (pos + 1), ?_, by simp [cut, hk, hs]⟩
      obtain ⟨hpos, hget⟩ := List.getElem?_eq_some_iff.mp (B.sound hs)
      rw [queue_of_lookup hk, ← hget, List.getElem_cons_drop hpos, List.take_append_drop]

end Cut

/-! ### The number of waiters -/

/-- The waiters in all queues together. -/
def size (m : QueueMap κ α) : ℕ := (m.entries.map fun e => e.2.length).sum

theorem size_erase (m : QueueMap κ α) (k : κ) : size (m.erase k) + (m.queue k).length = m.size := by
  by_cases hk : k ∈ m
  · obtain ⟨q, l₁, l₂, hl₁, hl, herase⟩ := List.exists_of_kerase (mem_keys.mpr hk)
    have hq : m.queue k = q :=
      queue_of_lookup (mem_lookup_iff.mpr (by rw [hl]; simp))
    have hents : (m.erase k).entries = l₁ ++ l₂ := herase
    rw [hq, size, size, hents, hl]
    simp only [List.map_append, List.map_cons, List.sum_append, List.sum_cons]
    omega
  · have hq : m.queue k = [] := by simp [queue, lookup_eq_none.mpr hk]
    have hents : (m.erase k).entries = m.entries := List.kerase_of_notMem_keys hk
    simp [hq, size, hents]

theorem size_insert (m : QueueMap κ α) (k : κ) (q : List α) :
    size (m.insert k q) = size (m.erase k) + q.length := by
  have hents : (m.insert k q).entries = ⟨k, q⟩ :: (m.erase k).entries := rfl
  rw [size, size, hents]
  simp only [List.map_cons, List.sum_cons]
  omega

theorem size_store (m : QueueMap κ α) (k : κ) (q : List α) :
    (m.store k q).size + (m.queue k).length = m.size + q.length := by
  have herase := size_erase m k
  cases q with
  | nil => simpa [store] using herase
  | cons a q =>
    have hins := size_insert m k (a :: q)
    simp only [store, List.isEmpty_cons, Bool.false_eq_true, if_false]
    omega

end QueueMap

end Magicblock
