import Magicblock.Foundations.Exec

/-!
# Foundations/Hoare — what code guarantees in every case

`m.Meets s Q E` says what holds after `m`, whether it returns (`Q`) or stops (`E`), in the state it
has reached.  Each way of building code has one equation, so that the condition is pushed back
through a function from its end to its beginning; `Meets.mono` and `Meets.bind` enter the guarantee
of a function that was treated before.  `handle` is code that looks at how another piece of code
ended.

`m.Follows R` says that the state only moves along the preorder `R`; each way of building code keeps
that.  `m.Goes R I J` says in addition that code which is entered with `I` goes on with `I`, and
stops with `J`.
-/

namespace Magicblock.Exec

variable {σ ε α β : Type} {s : σ} {Q : α → σ → Prop} {E : ε → σ → Prop}

/-- A result meets `Q` and an error meets `E`, in the state reached. -/
def Meets (m : Exec σ ε α) (s : σ) (Q : α → σ → Prop) (E : ε → σ → Prop) : Prop :=
  match m.outcome s with
  | (.ok a, s') => Q a s'
  | (.error e, s') => E e s'

/-- Runs `m` and goes on with whatever came of it. -/
def handle (m : Exec σ ε α) (f : Except ε α → Exec σ ε β) : Exec σ ε β :=
  ExceptT.mk (ExceptT.run m >>= fun r => ExceptT.run (f r))

variable {m : Exec σ ε α}

theorem Meets.mono (h : m.Meets s Q E) (hQ : ∀ a s', Q a s' → Q' a s')
    (hE : ∀ e s', E e s' → E' e s') : m.Meets s Q' E' := by
  unfold Meets at h ⊢
  rcases hm : m.outcome s with ⟨e | a, s'⟩
  · exact hE e s' (by rwa [hm] at h)
  · exact hQ a s' (by rwa [hm] at h)

/-- What holds however the code ends. -/
theorem Meets.final (h : m.Meets s (fun _ => P) fun _ => P) : P (m.outcome s).2 := by
  unfold Meets at h
  rcases hm : m.outcome s with ⟨e | a, s'⟩
  · rwa [hm] at h
  · rwa [hm] at h

/-- What holds after code that ran to the end. -/
theorem Meets.of_ok (h : m.Meets s Q E) (hm : m.Ok s a s') : Q a s' := by
  rw [Ok] at hm
  rwa [Meets, hm] at h

/-- Code that cannot stop runs to the end. -/
theorem Meets.exists_ok (h : m.Meets s Q fun _ _ => False) : ∃ a s', m.Ok s a s' ∧ Q a s' := by
  unfold Meets at h
  rcases hm : m.outcome s with ⟨e | a, s'⟩
  · rw [hm] at h
    exact h.elim
  · rw [hm] at h
    exact ⟨a, s', hm, h⟩

@[simp] theorem meets_pure : (pure a : Exec σ ε α).Meets s Q E ↔ Q a s := Iff.rfl

@[simp]
theorem meets_throw : (throw e : Exec σ ε α).Meets s Q E ↔ E e s := Iff.rfl

@[simp]
theorem meets_get {Q : σ → σ → Prop} : (get : Exec σ ε σ).Meets s Q E ↔ Q s s := Iff.rfl

@[simp]
theorem meets_modify {Q : Unit → σ → Prop} :
    (modify f : Exec σ ε Unit).Meets s Q E ↔ Q () (f s) := Iff.rfl

@[simp]
theorem meets_bind {Q : β → σ → Prop} :
    (m >>= f).Meets s Q E ↔ m.Meets s (fun a s' => (f a).Meets s' Q E) E := by
  simp only [Meets, outcome_bind]
  rcases m.outcome s with ⟨e | a, s'⟩ <;> rfl

/-- The first part guarantees what the second one starts from. -/
theorem Meets.bind {Q' : β → σ → Prop} (h : m.Meets s Q E)
    (hf : ∀ a s', Q a s' → (f a).Meets s' Q' E) : (m >>= f).Meets s Q' E :=
  meets_bind.mpr (h.mono hf fun _ _ => id)

@[simp]
theorem meets_handle {Q : β → σ → Prop} :
    (handle m f).Meets s Q E ↔ m.Meets s (fun a s' => (f (.ok a)).Meets s' Q E)
      fun e s' => (f (.error e)).Meets s' Q E := by
  have hout : (handle m f).outcome s = (f (m.outcome s).1).outcome (m.outcome s).2 := rfl
  unfold Meets
  rw [hout]
  rcases m.outcome s with ⟨e | a, s'⟩ <;> rfl

theorem meets_ite [Decidable c] :
    (if c then m else n).Meets s Q E ↔ (c → m.Meets s Q E) ∧ (¬ c → n.Meets s Q E) := by
  split_ifs with hc <;> simp [hc]

theorem meets_ensure {Q : Unit → σ → Prop} :
    (ensure c e).Meets s Q E ↔ (c → Q () s) ∧ (¬ c → E e s) :=
  meets_ite

@[simp] theorem meets_ofExcept : (ofExcept x).Meets s Q E ↔
    (∀ a, x = .ok a → Q a s) ∧ ∀ e, x = .error e → E e s := by
  cases x <;> simp [ofExcept]

@[simp] theorem meets_ofOption : (ofOption x e).Meets s Q E ↔
    (∀ a, x = some a → Q a s) ∧ (x = none → E e s) := by
  cases x <;> simp [ofOption]

/-! ### Moving along a preorder -/

/-- However `m` ends, the state has moved along `R`. -/
def Follows (R : σ → σ → Prop) (m : Exec σ ε α) : Prop :=
  ∀ s, m.Meets s (fun _ => R s) fun _ => R s

namespace Follows

variable {R : σ → σ → Prop} [IsPreorder σ R]

omit [IsPreorder σ R] in
theorem mono (h : Follows R m) (hR : ∀ s s', R s s' → R' s s') :
    Follows R' m :=
  fun s => (h s).mono (fun _ s' => hR s s') fun _ s' => hR s s'

theorem pure : Follows R (pure a : Exec σ ε α) := fun s => refl_of R s

theorem throw : Follows R (throw e : Exec σ ε α) := fun s => refl_of R s

omit [IsPreorder σ R] in
theorem modify (h : ∀ s, R s (f s)) : Follows R (modify f : Exec σ ε Unit) := h

theorem ofExcept : Follows R (ofExcept x) := by
  cases x with
  | error e => exact throw
  | ok a => exact pure

theorem ofOption : Follows R (ofOption x e) := by
  cases x with
  | none => exact throw
  | some a => exact pure

/-- …also when the state has moved before. -/
theorem after (h : Follows R m) (hs : R s s') :
    m.Meets s' (fun _ => R s) fun _ => R s :=
  (h s').mono (fun _ _ => trans_of R hs) fun _ _ => trans_of R hs

theorem bind (hm : Follows R m) (hf : ∀ a, Follows R (f a)) : Follows R (m >>= f) := by
  intro s
  exact .bind (hm s) fun a _ hs' => (hf a).after hs'

omit [IsPreorder σ R] in
/-- Code that looks at the state first. -/
theorem get_bind {f : σ → Exec σ ε β} (hf : ∀ s, (f s).Meets s (fun _ => R s) fun _ => R s) :
    Follows R (get >>= f) :=
  fun s => by
    rw [meets_bind, meets_get]
    exact hf s

omit [IsPreorder σ R] in
theorem read {f : σ → Exec σ ε β} (hf : ∀ s, Follows R (f s)) : Follows R (get >>= f) :=
  get_bind fun s => hf s s

omit [IsPreorder σ R] in
theorem ite [Decidable c] (hm : Follows R m) (hn : Follows R n) :
    Follows R (if c then m else n) := by
  split_ifs
  · exact hm
  · exact hn

end Follows

/-- `m` moves along `R` and goes on with `I`; it stops with `J`. -/
def Goes (R : σ → σ → Prop) (I : σ → Prop) (J : ε → σ → Prop) (m : Exec σ ε α) : Prop :=
  ∀ s, I s → m.Meets s (fun _ s' => R s s' ∧ I s') fun e s' => R s s' ∧ J e s'

namespace Goes

variable {R : σ → σ → Prop} [IsPreorder σ R] {I : σ → Prop} {J : ε → σ → Prop}

omit [IsPreorder σ R] in
theorem mono (h : Goes R I J m) (hR : ∀ s s', R s s' → R' s s') : Goes R' I J m := fun s hs =>
  (h s hs).mono (fun _ _ h' => ⟨hR _ _ h'.1, h'.2⟩) fun _ _ h' => ⟨hR _ _ h'.1, h'.2⟩

theorem pure : Goes R I J (pure a : Exec σ ε α) := fun s hs => ⟨refl_of R s, hs⟩

/-- …also when the state has moved before. -/
theorem after (h : Goes R I J m) (hs : R s s') (hI : I s') :
    m.Meets s' (fun _ s'' => R s s'' ∧ I s'') fun e s'' => R s s'' ∧ J e s'' :=
  (h s' hI).mono (fun _ _ h' => ⟨trans_of R hs h'.1, h'.2⟩) fun _ _ h' => ⟨trans_of R hs h'.1, h'.2⟩

theorem bind (hm : Goes R I J m) (hf : ∀ a, Goes R I J (f a)) : Goes R I J (m >>= f) := by
  intro s hs
  exact .bind (hm s hs) fun a _ h' => (hf a).after h'.1 h'.2

omit [IsPreorder σ R] in
theorem read {f : σ → Exec σ ε β} (hf : ∀ s, Goes R I J (f s)) : Goes R I J (get >>= f) := by
  intro s hs
  rw [meets_bind, meets_get]
  exact hf s s hs

omit [IsPreorder σ R] in
theorem ite [Decidable c] (hm : Goes R I J m) (hn : Goes R I J n) :
    Goes R I J (if c then m else n) := by
  split_ifs
  · exact hm
  · exact hn

end Goes

end Magicblock.Exec
