import Mathlib.Tactic

/-!
# Foundations/Fresh — keys made from a counter that are not in use

A supply makes a key from each number, different keys from different numbers below `bound`.
Counting on until a key is not in use (`search`) comes to an end: of one more number than there are
used keys, one has a key that is not used.  Keys drawn one after another (`draw`) are fresh and
distinct, so that they can stand for any keys (`exists_renaming`).
-/

namespace Magicblock.Fresh

open List

variable {α : Type*} [DecidableEq α]

/-- The first number from `counter` on whose key is not used, in as many numbers as can be needed.
-/
def next (key : ℕ → α) (used : List α) (counter : ℕ) : ℕ :=
  ((List.range' counter (used.length + 1)).find? fun c => key c ∉ used).getD counter

/-- Counts on until a key is not used.  The counter must stay below `bound`. -/
def search (key : ℕ → α) (bound : ℕ) (used : List α) : ℕ → ℕ → Option ℕ
  | 0, _ => none
  | fuel + 1, counter =>
    if bound ≤ counter + 1 then none
    else if key counter ∉ used then some counter
    else search key bound used fuel (counter + 1)

/-- Keys one after another, each of them used from then on. -/
def draw (key : ℕ → α) : ℕ → List α → ℕ → List α
  | 0, _, _ => []
  | n + 1, used, counter =>
    let c := next key used counter
    key c :: draw key n (key c :: used) (c + 1)

theorem length_draw (key : ℕ → α) (n : ℕ) (used : List α) (counter : ℕ) :
    (draw key n used counter).length = n := by
  induction n generalizing used counter with
  | zero => rfl
  | succ n ih => rw [draw, length_cons, ih]

section Spec

variable {key : ℕ → α} {used : List α}

/-- **There is a fresh key** among one more than are used. -/
theorem exists_fresh (hkey : Set.InjOn key (Set.Iio bound)) (h : used.length < bound) :
    ∃ c ≤ used.length, key c ∉ used := by
  by_contra! hall
  have hsub : (range (used.length + 1)).map key ⊆ used := by
    intro k hk
    obtain ⟨c, hc, rfl⟩ := mem_map.mp hk
    exact hall c (Nat.lt_succ_iff.mp (mem_range.mp hc))
  have hnd : ((range (used.length + 1)).map key).Nodup := by
    refine List.Nodup.map_on (fun c hc c' hc' heq => hkey ?_ ?_ heq) nodup_range
    · exact (Nat.lt_succ_iff.mp (mem_range.mp hc)).trans_lt h
    · exact (Nat.lt_succ_iff.mp (mem_range.mp hc')).trans_lt h
  have hlen := (subperm_of_subset hnd hsub).length_le
  rw [length_map, length_range] at hlen
  omega

/-- If all keys before the counter are used, the next one is fresh, and it comes soon. -/
theorem next_spec (hkey : Set.InjOn key (Set.Iio bound)) (h : used.length < bound)
    (hbef : ∀ c < counter, key c ∈ used) :
    next key used counter ≤ used.length ∧ key (next key used counter) ∉ used ∧
      ∀ c < next key used counter, key c ∈ used := by
  obtain ⟨c₀, hle, hfr⟩ := exists_fresh hkey h
  have hctr : counter ≤ c₀ := not_lt.mp fun hlt => hfr (hbef c₀ hlt)
  rw [next]
  cases hfind : (range' counter (used.length + 1)).find? fun c => key c ∉ used with
  | none =>
    have hused := find?_eq_none.mp hfind c₀ (mem_range'_1.mpr ⟨hctr, by omega⟩)
    exact absurd (decide_eq_true hfr) hused
  | some c =>
    obtain ⟨hc, -, hfst⟩ := find?_range'_eq_some.mp hfind
    have hall : ∀ c' < c, key c' ∈ used := by
      intro c' hlt
      by_cases hc' : c' < counter
      · exact hbef c' hc'
      · simpa using hfst c' (not_lt.mp hc') hlt
    exact ⟨(not_lt.mp fun hlt => hfr (hall c₀ hlt)).trans hle, of_decide_eq_true hc, hall⟩

omit [DecidableEq α] in
/-- The next number starts from the same situation. -/
theorem used_cons (hall : ∀ c < n, key c ∈ used) : ∀ c < n + 1, key c ∈ key n :: used := by
  intro c hc
  obtain hlt | rfl := Nat.lt_succ_iff_lt_or_eq.mp hc
  · exact mem_cons_of_mem _ (hall c hlt)
  · exact mem_cons_self

theorem search_of_first (hle : counter ≤ n) (hfuel : n < counter + fuel)
    (hbound : n + 1 < bound) (hfr : key n ∉ used) (hall : ∀ c < n, key c ∈ used) :
    search key bound used fuel counter = some n := by
  induction fuel generalizing counter with
  | zero => omega
  | succ fuel ih =>
    rw [search, if_neg (by omega)]
    obtain rfl | hlt := hle.eq_or_lt
    · exact if_pos hfr
    · rw [if_neg (not_not_intro (hall counter hlt))]
      exact ih hlt (by omega)

/-- **Counting on ends**, with enough fuel, at the next fresh key. -/
theorem search_eq (hkey : Set.InjOn key (Set.Iio bound)) (h : used.length + 1 < bound)
    (hbef : ∀ c < counter, key c ∈ used) (hfuel : used.length < fuel) :
    search key bound used fuel counter = some (next key used counter) := by
  obtain ⟨hle, hfr, hall⟩ := next_spec hkey (by omega) hbef
  have hctr : counter ≤ next key used counter := not_lt.mp fun hlt => hfr (hbef _ hlt)
  exact search_of_first hctr (by omega) (by omega) hfr hall

/-- **Drawn keys are distinct, and none of them was used.** -/
theorem draw_spec (hkey : Set.InjOn key (Set.Iio bound)) (h : used.length + n ≤ bound)
    (hbef : ∀ c < counter, key c ∈ used) :
    (draw key n used counter).Nodup ∧ ∀ k ∈ draw key n used counter,
      k ∉ used ∧ ∃ c < bound, k = key c := by
  induction n generalizing used counter with
  | zero => exact ⟨nodup_nil, nofun⟩
  | succ n ih =>
    obtain ⟨hle, hfr, hall⟩ := next_spec hkey (by omega) hbef
    obtain ⟨hnd, hrest⟩ := ih (by rw [length_cons]; omega) (used_cons hall)
    refine ⟨nodup_cons.mpr ⟨fun hmem => (hrest _ hmem).1 mem_cons_self, hnd⟩, ?_⟩
    intro k hk
    obtain rfl | hk := mem_cons.mp hk
    · exact ⟨hfr, _, by omega, rfl⟩
    · exact ⟨fun hmem => (hrest k hk).1 (mem_cons_of_mem _ hmem), (hrest k hk).2⟩

/-- Distinct keys can be renamed to any others. -/
theorem exists_renaming {keys targets : List α} (hnd : keys.Nodup)
    (hlen : targets.length = keys.length) :
    ∃ f : α → α, keys.map f = targets ∧ ∀ k ∉ keys, f k = k := by
  induction keys generalizing targets with
  | nil => exact ⟨id, (length_eq_zero_iff.mp hlen).symm, fun _ _ => rfl⟩
  | cons key keys ih =>
    obtain ⟨target, targets, rfl⟩ := exists_cons_of_length_eq_add_one hlen
    obtain ⟨hnew, hnd⟩ := nodup_cons.mp hnd
    obtain ⟨f, hmap, hfix⟩ := ih hnd (Nat.succ.inj hlen)
    refine ⟨Function.update f key target, ?_, fun k hk => ?_⟩
    · rw [map_cons, Function.update_self, ← hmap]
      refine congrArg _ (map_congr_left fun k hk => Function.update_of_ne ?_ _ _)
      exact fun heq => hnew (heq ▸ hk)
    · rw [mem_cons, not_or] at hk
      rw [Function.update_of_ne hk.1, hfix k hk.2]

end Spec

end Magicblock.Fresh
