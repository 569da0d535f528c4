import Mathlib.Tactic

/-!
# Foundations/Lists — lists compared through their labels, and other facts about lists

Lists whose members are told apart by a label; lists of numbers that count up; the last position
with a property; lists cut into chunks.
-/

open scoped List

namespace Magicblock

variable {α β : Type*}

/-- Lists from a domain on which the label is injective are equal if their labels are. -/
theorem map_eq_of_injOn {l₁ l₂ : List α}
    (hf : ∀ a ∈ l₁, ∀ b ∈ l₂, f a = f b → a = b) (h : l₁.map f = l₂.map f) : l₁ = l₂ := by
  induction l₁ generalizing l₂ with
  | nil => exact (List.map_eq_nil_iff.mp h.symm).symm
  | cons a l₁ ih =>
    cases l₂ with
    | nil => simp at h
    | cons b l₂ =>
      obtain ⟨hab, hrest⟩ := List.cons.inj h
      rw [hf a (by simp) b (by simp) hab,
        ih (fun a ha b hb => hf a (by simp [ha]) b (by simp [hb])) hrest]

/-- **Order seen through distinct labels is order.** -/
theorem sublist_of_map_sublist {l₁ l₂ : List α} (hl₂ : (l₂.map f).Nodup)
    (hsub : l₁ ⊆ l₂) (h : l₁.map f <+ l₂.map f) : l₁ <+ l₂ := by
  obtain ⟨l, hl, hmap⟩ := List.sublist_map_iff.mp h
  have hinj := List.inj_on_of_nodup_map hl₂
  rwa [map_eq_of_injOn (fun a ha b hb => hinj (hsub ha) (hl.subset hb)) hmap]

variable {l : List α} {p : α → Bool}

theorem mapM_eq_some_map (h : ∀ a ∈ l, f a = some (g a)) : l.mapM f = some (l.map g) := by
  induction l with
  | nil => rfl
  | cons a l ih =>
    obtain ⟨ha, hl⟩ := List.forall_mem_cons.mp h
    rw [List.mapM_cons, ha, ih hl]
    rfl

/-! ### Counting up -/

/-- `ids` are `c + 1, c + 2, …, c'`. -/
structure CountsUp (c : ℕ) (ids : List ℕ) (c' : ℕ) : Prop where
  eq_range : ids = List.range' (c + 1) ids.length
  last : c' = c + ids.length

namespace CountsUp

theorem nil (c : ℕ) : CountsUp c [] c := ⟨rfl, rfl⟩

theorem single (c : ℕ) : CountsUp c [c + 1] (c + 1) := ⟨rfl, rfl⟩

theorem append {l l' : List ℕ} (h : CountsUp c l c') (h' : CountsUp c' l' c'') :
    CountsUp c (l ++ l') c'' := by
  refine ⟨?_, ?_⟩
  · rw [List.length_append, ← List.range'_append_1, ← h.eq_range, Nat.add_right_comm, ← h.last,
      ← h'.eq_range]
  · rw [h'.last, h.last, List.length_append, Nat.add_assoc]

end CountsUp

/-! ### The last position -/

/-- The last position with `p`. -/
def rposition (p : α → Bool) : List α → Option ℕ
  | [] => none
  | a :: l => (rposition p l).elim (if p a then some 0 else none) (some <| · + 1)

/-- Nothing after the last position has the property. -/
theorem rposition_spec : ∀ a ∈ l.drop ((rposition p l).elim 0 (· + 1)), p a = false := by
  induction l with
  | nil => simp
  | cons x l ih =>
    rw [rposition]
    rcases hl : rposition p l with _ | i
    · rw [hl] at ih
      by_cases hx : p x
      · simpa [hx] using ih
      · simpa [hx] using ih
    · rw [hl] at ih
      exact ih

theorem getElem?_of_rposition (h : rposition p l = some i) : ∃ a, l[i]? = some a ∧ p a := by
  induction l generalizing i with
  | nil => cases h
  | cons x l ih =>
    rw [rposition] at h
    rcases hl : rposition p l with _ | j
    · rw [hl, Option.elim_none] at h
      split_ifs at h with hx
      cases h
      exact ⟨x, rfl, hx⟩
    · rw [hl] at h
      cases h
      exact ih hl

/-- What has the property has a last position. -/
theorem exists_rposition (h : l.any p) : ∃ i a, rposition p l = some i ∧ l[i]? = some a ∧ p a := by
  rcases hl : rposition p l with _ | i
  · obtain ⟨a, ha, hp⟩ := List.any_eq_true.mp h
    have hnone : p a = false := rposition_spec a (by rw [hl]; exact ha)
    cases hp.symm.trans hnone
  · obtain ⟨a, ha, hp⟩ := getElem?_of_rposition hl
    exact ⟨i, a, rfl, ha, hp⟩

/-- A part of a list, and what is not in it. -/
theorem perm_append_filter [DecidableEq α] (hl : l.Nodup) (hs : s.Sublist l) :
    (s ++ l.filter (· ∉ s)).Perm l := by
  have hnd : (s ++ l.filter (· ∉ s)).Nodup := by
    refine List.nodup_append'.mpr ⟨hl.sublist hs, hl.filter _, fun a ha hfilt => ?_⟩
    exact of_decide_eq_true (List.mem_filter.mp hfilt).2 ha
  refine (List.perm_ext_iff_of_nodup hnd hl).mpr fun a => ?_
  simp only [List.mem_append, List.mem_filter, decide_eq_true_eq]
  exact ⟨fun h => h.elim (hs.subset ·) And.left, fun h => (em (a ∈ s)).imp_right fun ha => ⟨h, ha⟩⟩

/-- A list made from labels, at one label. -/
theorem filter_filterMap_label [DecidableEq α] {label : β → α}
    (hlabel : ∀ a b, f a = some b → label b = a) (hl : l.Nodup) (a : α) :
    (l.filterMap f).filter (fun b => label b = a) = if a ∈ l then (f a).toList else [] := by
  induction l with
  | nil => rfl
  | cons x l ih =>
    obtain ⟨hx, hnd⟩ := List.nodup_cons.mp hl
    rcases hfx : f x with _ | b
    · rw [List.filterMap_cons_none hfx, ih hnd]
      by_cases hax : a = x
      · subst hax
        simp [hx, hfx]
      · simp [hax]
    · rw [List.filterMap_cons_some hfx, List.filter_cons, ih hnd]
      by_cases hax : a = x
      · subst hax
        simp [hlabel a b hfx, hx, hfx]
      · have hne : label b ≠ a := by
          rw [hlabel x b hfx]
          exact Ne.symm hax
        simp [hne, hax]

/-! ### Chunks -/

/-- A quotient, rounded up: how many chunks of `k` there are in `n`. -/
def divCeil (n k : ℕ) : ℕ := (n + k - 1) / k

theorem flatten_toChunks_go :
    (List.toChunks.go n l first rest).flatten = rest.toList.flatten ++ first.toList ++ l := by
  induction l generalizing first rest with
  | nil => simp [List.toChunks.go]
  | cons a l ih =>
    rw [List.toChunks.go]
    split_ifs with hsize
    · simp [ih]
    · simp [ih]

/-- The chunks of a list are the list. -/
@[simp]
theorem flatten_toChunks (n : ℕ) (l : List α) : (l.toChunks n).flatten = l := by
  match n, l with
  | _, [] => rfl
  | 0, a :: l => simp [List.toChunks]
  | n + 1, a :: l =>
    rw [List.toChunks]
    · simp [flatten_toChunks_go]
    · simp

/-- A place in a list that was put together is in its first part or in its second. -/
theorem append_eq_append_cons (h : l ++ l' = before ++ a :: after) :
    (∃ after', l = before ++ a :: after') ∨
      ∃ middle, before = l ++ middle ∧ l' = middle ++ a :: after := by
  rcases List.append_eq_append_iff.mp h with ⟨middle, rfl, hrest⟩ | ⟨middle, rfl, hrest⟩
  · exact .inr ⟨middle, rfl, hrest⟩
  · rcases List.cons_eq_append_iff.mp hrest with ⟨rfl, hrest⟩ | ⟨after', rfl, -⟩
    · exact .inr ⟨[], by simp, by simpa using hrest.symm⟩
    · exact .inl ⟨after', rfl⟩

/-- …and in a list that got longer by one it is an old place or the last one. -/
theorem concat_eq_append_cons (h : l ++ [b] = before ++ a :: after) :
    (∃ after', after = after' ++ [b] ∧ l = before ++ a :: after') ∨
      before = l ∧ a = b ∧ after = [] := by
  rcases List.eq_nil_or_concat after with rfl | ⟨after', c, rfl⟩
  · obtain ⟨rfl, rfl⟩ := List.append_singleton_inj.mp h
    exact .inr ⟨rfl, rfl, rfl⟩
  · rw [List.concat_eq_append, ← List.cons_append, ← List.append_assoc] at h
    obtain ⟨rfl, rfl⟩ := List.append_singleton_inj.mp h
    exact .inl ⟨after', List.concat_eq_append, rfl⟩

/-! ### First occurrences -/

section KeepFirst

variable {κ : Type*} [DecidableEq κ] (key : α → κ)

/-- The first element of each key that has not been seen. -/
def keepFirst : List κ → List α → List α
  | _, [] => []
  | seen, a :: l => if key a ∈ seen then keepFirst seen l else a :: keepFirst (key a :: seen) l

/-- The first element is always kept. -/
theorem head?_keepFirst (l : List α) : (keepFirst key [] l).head? = l.head? := by
  cases l <;> rfl

end KeepFirst

/-- Where two lists meet, the one behind counts with its first element only. -/
theorem getElem?_take_append (hm : m.head? = (l.drop n).head?) (hi : i ≤ n) :
    (l.take n ++ m)[i]? = l[i]? := by
  rcases Nat.lt_or_ge i l.length with hlt | hge
  · rcases Nat.lt_or_eq_of_le hi with hin | rfl
    · rw [List.getElem?_append_left (by simp [hin, hlt]), List.getElem?_take_of_lt hin]
    · rw [List.getElem?_append_right (by simp), List.length_take, Nat.min_eq_left hlt.le,
        Nat.sub_self, ← List.head?_eq_getElem?, hm, List.head?_drop]
  · have hnil : m = [] := by
      rw [List.drop_eq_nil_of_le (hge.trans hi)] at hm
      exact List.head?_eq_none_iff.mp hm
    rw [hnil, List.append_nil, List.take_of_length_le (hge.trans hi)]

end Magicblock
