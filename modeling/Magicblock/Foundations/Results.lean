import Mathlib.Tactic

/-!
# Foundations/Results — taking fallible code apart

A computation that may fail is a chain of guards and binds.  From the fact that the whole of it
returned a value, these rules give back one step at a time what its first guard or bind did.
-/

namespace Magicblock

variable {ε : Type*} {α β : Type}

/-- The error, if there is one. -/
def failure : Except ε α → Option ε
  | .ok _ => none
  | .error e => some e

variable {x : Except ε α} {f : α → Except ε β} {l : List α}

/-- A guard that did not fire. -/
theorem Except.of_ite_error [Decidable p]
    (h : (if p then .error e else x) = .ok a) : ¬ p ∧ x = .ok a := by
  by_cases hp : p
  · simp [hp] at h
  · exact ⟨hp, by simpa [hp] using h⟩

theorem Except.bind_eq_ok : (x >>= f) = .ok b ↔ ∃ a, x = .ok a ∧ f a = .ok b := by
  cases x <;> simp [bind, Except.bind]

theorem Except.map_eq_ok {f : α → β} : x.map f = .ok b ↔ ∃ a, x = .ok a ∧ f a = b := by
  cases x <;> simp [Except.map]

theorem Except.mapError_eq_ok {ε' : Type*} {f : ε → ε'} : x.mapError f = .ok a ↔ x = .ok a := by
  cases x <;> simp [Except.mapError]

/-- A row of computations returns if each of them does. -/
theorem Except.mapM_eq_ok : l.mapM f = .ok bs ↔ List.Forall₂ (fun a b => f a = .ok b) l bs := by
  induction l generalizing bs with
  | nil => cases bs <;> simp [pure, Except.pure]
  | cons a l ih =>
    rw [List.mapM_cons, Except.bind_eq_ok]
    simp only [Except.bind_eq_ok, ih, List.forall₂_cons_left_iff]
    constructor
    · rintro ⟨b, hb, bs, hbs, h⟩
      exact ⟨b, bs, hb, hbs, (Except.ok.inj h).symm⟩
    · rintro ⟨b, bs, hb, hbs, rfl⟩
      exact ⟨b, hb, bs, hbs, rfl⟩

/-- What every step keeps. -/
theorem Except.foldlM_invariant {f : β → α → Except ε β} (I : β → Prop) {b' : β}
    (h : l.foldlM f b = .ok b') (hb : I b) (hstep : ∀ a ∈ l, ∀ b b', I b → f b a = .ok b' → I b') :
    I b' := by
  induction l generalizing b with
  | nil => exact Except.ok.inj h ▸ hb
  | cons a l ih =>
    rw [List.foldlM_cons] at h
    obtain ⟨b₁, hb₁, h⟩ := Except.bind_eq_ok.mp h
    exact ih h (hstep a List.mem_cons_self b b₁ hb hb₁)
      fun a ha => hstep a (List.mem_cons_of_mem _ ha)

end Magicblock
