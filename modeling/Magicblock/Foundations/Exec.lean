import Mathlib.Tactic

/-!
# Foundations/Exec — code over a state that can stop with an error

`Exec σ ε α` is code that reads and changes a state `σ` and returns an `α` or stops with an `ε`; the
state it has reached is there in both cases.  `m.Ok s a s'` says that `m` runs from `s` to `s'` and
returns `a`.  Each way of building code has one equation for `Ok`, so that a run of a long function
is taken apart step by step.
-/

namespace Magicblock

variable {σ ε α β : Type}

abbrev Exec (σ ε : Type) : Type → Type := ExceptT ε (StateM σ)

namespace Exec

/-- The outcome from a state, and the state it is reached in. -/
def outcome (m : Exec σ ε α) (s : σ) : Except ε α × σ := (ExceptT.run m).run s

/-- `m` runs from `s` to `s'` and returns `a`. -/
def Ok (m : Exec σ ε α) (s : σ) (a : α) (s' : σ) : Prop :=
  m.outcome s = (.ok a, s')

variable {a : α} {m : Exec σ ε α} {s s' : σ} {e : ε}

/-- A success, by evaluation. -/
theorem ok_of_outcome (h : (m.outcome s).1 = .ok a) : m.Ok s a (m.outcome s).2 :=
  Prod.ext h rfl

/-! ### Small pieces of code -/

/-- Goes on if `c`, stops with `e` otherwise. -/
def ensure (c : Bool) (e : ε) : Exec σ ε Unit :=
  if c then pure () else throw e

def ofExcept : Except ε α → Exec σ ε α
  | .ok a => pure a
  | .error e => throw e

/-- The value, or the error if there is none. -/
def ofOption (x : Option α) (e : ε) : Exec σ ε α :=
  x.elim (throw e) pure

/-- Runs the code on the value, if there is one. -/
def forOption (f : α → Exec σ ε β) (x : Option α) : Exec σ ε (Option β) :=
  x.elim (pure none) fun a => some <$> f a

/-! ### What runs to the end -/

@[simp] theorem ok_pure : Ok (pure a : Exec σ ε α) s b s' ↔ a = b ∧ s = s' := by
  have hout : (pure a : Exec σ ε α).outcome s = (.ok a, s) := rfl
  rw [Ok, hout, Prod.mk.injEq, Except.ok.injEq]

theorem outcome_bind (m : Exec σ ε α) (f : α → Exec σ ε β) (s : σ) :
    (m >>= f).outcome s = match m.outcome s with
      | (.ok a, s') => (f a).outcome s'
      | (.error e, s') => (.error e, s') := by
  change (match ExceptT.run m s with
    | (r, s') => StateT.run (ExceptT.bindCont (m := StateM σ) f r) s') = _
  unfold outcome StateT.run
  rcases ExceptT.run m s with ⟨e | a, s'⟩ <;> rfl

@[simp] theorem ok_bind : Ok (m >>= f) s b s'' ↔ ∃ a s', m.Ok s a s' ∧ (f a).Ok s' b s'' := by
  simp only [Ok, outcome_bind]
  rcases m.outcome s with ⟨e | a, s'⟩ <;> simp

/-- What is done next matters only where the first part runs to the end. -/
theorem outcome_bind_congr {f g : α → Exec σ ε β}
    (h : ∀ a s', m.Ok s a s' → (f a).outcome s' = (g a).outcome s') :
    (m >>= f).outcome s = (m >>= g).outcome s := by
  rw [outcome_bind, outcome_bind]
  rcases hm : m.outcome s with ⟨e | a, s'⟩
  · rfl
  · exact h a s' hm

@[simp] theorem ok_map : Ok (f <$> m) s b s' ↔ ∃ a, m.Ok s a s' ∧ f a = b := by
  rw [map_eq_pure_bind, ok_bind]
  simp

@[simp]
theorem not_ok_throw : ¬ Ok (throw e : Exec σ ε α) s a s' := by
  have hout : (throw e : Exec σ ε α).outcome s = (.error e, s) := rfl
  rw [Ok, hout, Prod.mk.injEq]
  exact fun h => nomatch h.1

@[simp]
theorem ok_get {a : σ} : Ok (get : Exec σ ε σ) s a s' ↔ s = a ∧ s = s' := by
  have hout : (get : Exec σ ε σ).outcome s = (.ok s, s) := rfl
  rw [Ok, hout, Prod.mk.injEq, Except.ok.injEq]

@[simp] theorem ok_modify : Ok (modify f : Exec σ ε Unit) s u s' ↔ f s = s' := by
  have hout : (modify f : Exec σ ε Unit).outcome s = (.ok (), f s) := rfl
  rw [Ok, hout, Prod.mk.injEq]
  simp

@[simp] theorem ok_ensure : Ok (ensure c e) s u s' ↔ c = true ∧ s = s' := by
  cases c <;> simp [ensure]

@[simp] theorem ok_ofExcept : Ok (ofExcept x) s a s' ↔ x = .ok a ∧ s = s' := by
  cases x <;> simp [ofExcept]

@[simp] theorem ok_ofOption : Ok (ofOption x e) s a s' ↔ x = some a ∧ s = s' := by
  cases x <;> simp [ofOption]

@[simp] theorem ok_ite [Decidable c] :
    Ok (if c then m else n) s a s' ↔ (c ∧ m.Ok s a s') ∨ (¬ c ∧ n.Ok s a s') := by
  split_ifs with hc <;> simp [hc]

theorem ok_forOption : Ok (forOption f x) s y s' ↔
      (x = none ∧ y = none ∧ s = s') ∨ ∃ a b, x = some a ∧ y = some b ∧ (f a).Ok s b s' := by
  cases x with
  | none => simp [forOption, eq_comm]
  | some a => simp [forOption, eq_comm, and_comm]

/-! ### Loops -/

/-- **A loop keeps what each turn keeps.** -/
theorem Ok.foldlM {f : β → α → Exec σ ε β} (I : β → σ → Prop)
    (hstep : ∀ {b a s b' s'}, I b s → (f b a).Ok s b' s' → I b' s') :
    ∀ {l : List α} {b : β} {s : σ} {b' : β} {s' : σ}, I b s → (l.foldlM f b).Ok s b' s' → I b' s'
  | [], _, _, _, _, hI, h => by
    obtain ⟨rfl, rfl⟩ := ok_pure.mp h
    exact hI
  | a :: l, b, s, b', s', hI, h => by
    rw [List.foldlM_cons] at h
    obtain ⟨b₁, s₁, h₁, h⟩ := ok_bind.mp h
    exact Ok.foldlM I hstep (hstep hI h₁) h

theorem ok_mapM_nil {f : α → Exec σ ε β} : ([].mapM f).Ok s bs s' ↔ bs = [] ∧ s = s' := by
  simp [eq_comm]

theorem ok_mapM_cons {f : α → Exec σ ε β} :
    ((a :: l).mapM f).Ok s bs s'' ↔
      ∃ b s' bs', (f a).Ok s b s' ∧ (l.mapM f).Ok s' bs' s'' ∧ bs = b :: bs' := by
  rw [List.mapM_cons]
  simp only [ok_bind, ok_pure]
  constructor
  · rintro ⟨b, s', hb, bs', _, hbs, rfl, rfl⟩
    exact ⟨b, s', bs', hb, hbs, rfl⟩
  · rintro ⟨b, s', bs', hb, hbs, rfl⟩
    exact ⟨b, s', hb, bs', _, hbs, rfl, rfl⟩

theorem ok_forM_nil {f : α → Exec σ ε Unit} : (([] : List α).forM f).Ok s u s' ↔ s = s' := by
  simp

theorem ok_forM_cons {f : α → Exec σ ε Unit} :
    ((a :: l).forM f).Ok s u s'' ↔ ∃ s', (f a).Ok s () s' ∧ (l.forM f).Ok s' () s'' := by
  change (f a >>= fun _ => l.forM f).Ok s u s'' ↔ _
  rw [ok_bind]
  exact ⟨fun ⟨_, s', h, h'⟩ => ⟨s', h, h'⟩, fun ⟨s', h, h'⟩ => ⟨(), s', h, h'⟩⟩

/-! ### What code leaves alone -/

section Preserves

variable {τ : Type}

/-- A run of `m` to the end does not change what `f` sees of the state. -/
def Preserves (f : σ → τ) (m : Exec σ ε α) : Prop :=
  ∀ ⦃s a s'⦄, m.Ok s a s' → f s' = f s

namespace Preserves

theorem pure : Preserves f (pure a : Exec σ ε α) := fun _ _ _ h => by
  rw [(ok_pure.mp h).2]

variable {l : List α}

theorem throw : Preserves f (throw e : Exec σ ε α) := fun _ _ _ h => absurd h not_ok_throw

theorem get : Preserves f (get : Exec σ ε σ) := fun _ _ _ h => by
  rw [(ok_get.mp h).2]

theorem modify (hg : ∀ s, f (g s) = f s) : Preserves f (modify g : Exec σ ε Unit) :=
  fun _ _ _ h => by rw [← ok_modify.mp h, hg]

theorem ensure : Preserves f (ensure c e : Exec σ ε Unit) := fun _ _ _ h => by
  rw [(ok_ensure.mp h).2]

theorem ofExcept : Preserves f (ofExcept x : Exec σ ε α) := fun _ _ _ h => by
  rw [(ok_ofExcept.mp h).2]

theorem bind (hm : Preserves f m) (hg : ∀ a, Preserves f (g a)) :
    Preserves f (m >>= g) := fun _ _ _ h => by
  obtain ⟨a, s', ha, hb⟩ := ok_bind.mp h
  rw [hg a hb, hm ha]

theorem ite [Decidable c] (hm : Preserves f m) (hn : Preserves f n) :
    Preserves f (if c then m else n) := by
  split_ifs
  · exact hm
  · exact hn

theorem forM (hg : ∀ a, Preserves f (g a)) : Preserves f (l.forM g) := by
  induction l with
  | nil => exact Preserves.pure
  | cons a l ih => exact Preserves.bind (hg a) fun _ => ih

theorem mapM (hg : ∀ a, Preserves f (g a)) : Preserves f (l.mapM g) := by
  induction l with
  | nil => exact Preserves.pure
  | cons a l ih =>
    rw [List.mapM_cons]
    exact .bind (hg a) fun _ => .bind ih fun _ => .pure

theorem foldlM (hg : ∀ b a, Preserves f (g b a)) (b : β) : Preserves f (l.foldlM g b) := by
  induction l generalizing b with
  | nil => exact Preserves.pure
  | cons a l ih =>
    rw [List.foldlM_cons]
    exact .bind (hg b a) fun b' => ih b'

theorem forOption (hg : ∀ a, Preserves f (g a)) : Preserves f (forOption g x) := by
  cases x with
  | none => exact Preserves.pure
  | some a => exact .bind (hg a) fun _ => .pure

/-- What is seen less of is not changed either. -/
theorem comp (g : τ → υ) (hm : Preserves f m) : Preserves (fun s => g (f s)) m :=
  fun _ _ _ h => congrArg g (hm h)

end Preserves

end Preserves

end Exec

end Magicblock
