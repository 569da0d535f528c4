import Mathlib.Tactic

/-!
# Foundations/Paging — a list read page by page

A source answers a cursor with a page, and its reader asks for the next page with the last entry of
the one before, until a page is empty.  If every page is what follows its cursor in a list, then the
pages together are the list (`exists_paging`), and they inherit its order (`isChain_of_pairwise`).
-/

namespace Magicblock

open List

variable {α : Type*} {fetch : Option α → List α}

/-- **What a reader gets**, from a cursor on until an empty page. -/
inductive Paging (fetch : Option α → List α) : Option α → List (List α) → Prop
  | done : fetch before = [] → Paging fetch before []
  | next :
      (fetch before).getLast? = some last → Paging fetch (some last) pages →
      Paging fetch before (fetch before :: pages)

namespace Paging

/-- After an empty page there is none. -/
theorem eq_nil (h : Paging fetch before pages) (hemp : fetch before = []) : pages = [] := by
  cases h with
  | done => rfl
  | next hlast => simp [hemp] at hlast

/-- After a page of one entry, it is the cursor. -/
theorem of_singleton (h : Paging fetch before pages) (hpage : fetch before = [a]) :
    ∃ rest, pages = [a] :: rest ∧ Paging fetch (some a) rest := by
  cases h with
  | done hemp => simp [hpage] at hemp
  | @next _ last rest hlast hrest =>
    rw [hpage, getLast?_singleton, Option.some.injEq] at hlast
    exact ⟨rest, by rw [hpage], hlast ▸ hrest⟩

end Paging

/-- **If each page is what follows its cursor, the pages are the list.** -/
theorem exists_paging (hn : 0 < n) (newer : List α)
    (hfetch : ∀ P R, newer ++ older = P ++ R → fetch P.getLast? = R.take n) :
    ∃ pages, Paging fetch newer.getLast? pages ∧ pages.flatten = older := by
  -- By what is left: a page that is not empty leaves less.
  induction hk : older.length using Nat.strong_induction_on generalizing newer older with
  | _ k ih =>
    have hpage := hfetch newer older rfl
    cases older with
    | nil => exact ⟨[], .done (by rw [hpage, take_nil]), rfl⟩
    | cons a older =>
      have hne : (a :: older).take n ≠ [] := by simp [hn.ne']
      have hlast : (newer ++ (a :: older).take n).getLast? =
          some (((a :: older).take n).getLast hne) := by
        rw [getLast?_append_of_ne_nil _ hne, getLast?_eq_getLast_of_ne_nil hne]
      have hspl : newer ++ a :: older = (newer ++ (a :: older).take n) ++ (a :: older).drop n := by
        rw [append_assoc, take_append_drop]
      obtain ⟨pages, hpages, hflat⟩ := ih ((a :: older).drop n).length
        (by rw [length_drop, ← hk, length_cons]; omega)
        _ (fun P R h => hfetch P R (hspl.trans h)) rfl
      rw [hlast] at hpages
      refine ⟨fetch newer.getLast? :: pages, .next ?_ hpages, ?_⟩
      · rw [hpage, getLast?_eq_getLast_of_ne_nil hne]
      · rw [flatten_cons, hpage, hflat, take_append_drop]

/-- The order of all entries holds between a cursor and its page. -/
theorem isChain_of_pairwise {r : α → α → Prop} {pages : List (List α)}
    (h : pages.flatten.Pairwise r) :
    pages.IsChain fun previous page => ∀ cursor ∈ previous.getLast?, ∀ a ∈ page, r cursor a :=
  ((pairwise_flatten.mp h).2.imp fun hlists cursor hcurs a ha =>
    hlists cursor (mem_of_getLast? hcurs) a ha).isChain

end Magicblock
