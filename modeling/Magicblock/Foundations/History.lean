import Mathlib.Tactic

/-!
# Foundations/History — machines that remember, and what their runs preserve

A `Machine` moves from state to state and emits one event per step; which steps it may take can
depend on the events emitted so far, so a usage discipline ("only finish what was started") is part
of the machine and not of the statement about it.  `Machine.Run es s` is a whole run — `es` is its
history, oldest event first — and `Run.invariant` is the one induction every safety result uses.
-/

namespace Magicblock

variable {σ ε : Type*}

/-- **A machine with a memory** — its start states, and its steps from a history and a state by one
more event. -/
structure Machine (σ ε : Type*) where
  start : σ → Prop
  step : List ε → σ → ε → σ → Prop

namespace Machine

variable {M N : Machine σ ε}

/-- **A run** — a history and the state it ends in. -/
inductive Run (M : Machine σ ε) : List ε → σ → Prop
  | start {s : σ} : M.start s → Run M [] s
  | step {es : List ε} {s t : σ} {e : ε} : Run M es s → M.step es s e t → Run M (es ++ [e]) t

variable {es : List ε} {s t : σ}

/-- A step, by its event. -/
theorem Run.next (h : M.Run es s) (e : ε) (hst : M.step es s e t) : M.Run (es ++ [e]) t :=
  .step h hst

/-- **The invariant rule** — a step may use that it happens along a run. -/
@[elab_as_elim]
theorem Run.invariant {I : List ε → σ → Prop} (hstart : ∀ s, M.start s → I [] s)
    (hstep : ∀ es s e t, M.Run es s → I es s → M.step es s e t → I (es ++ [e]) t) (h : M.Run es s) :
    I es s := by
  induction h with
  | start hs => exact hstart _ hs
  | step hrun hst ih => exact hstep _ _ _ _ hrun ih hst

/-- A machine that may do less has fewer runs. -/
theorem Run.mono (hstart : ∀ s, M.start s → N.start s)
    (hstep : ∀ es s e t, M.Run es s → M.step es s e t → N.step es s e t) (h : M.Run es s) :
    N.Run es s := by
  induction h with
  | start hs => exact .start (hstart _ hs)
  | step hrun hst ih => exact .step ih (hstep _ _ _ _ hrun hst)

/-- **Every moment of a run is the end of a run** — cut the history anywhere. -/
theorem Run.cut (h : M.Run fs t) (hpre : es <+: fs) : ∃ s, M.Run es s := by
  induction h with
  | start hs =>
    obtain rfl := List.prefix_nil.mp hpre
    exact ⟨_, .start hs⟩
  | step hrun hst ih =>
    rcases List.prefix_concat_iff.mp hpre with rfl | hpre
    · exact ⟨_, .step hrun hst⟩
    · exact ih hpre

/-- The last step of a run. -/
theorem Run.last (h : M.Run (es ++ [e]) t) : ∃ s, M.Run es s ∧ M.step es s e t := by
  generalize hfs : es ++ [e] = fs at h
  cases h with
  | start hs => exact absurd hfs (List.append_ne_nil_of_right_ne_nil _ (List.cons_ne_nil _ _))
  | step hrun hst =>
    obtain ⟨rfl, rfl⟩ := List.append_singleton_inj.mp hfs
    exact ⟨_, hrun, hst⟩

/-- **The runs whose steps all meet a condition** on the state before them. -/
def guarded (M : Machine σ ε) (G : σ → ε → Prop) : Machine σ ε where
  start := M.start
  step es s e t := G s e ∧ M.step es s e t

theorem Run.of_guarded (h : (M.guarded G).Run es s) : M.Run es s := by
  refine Run.mono (M := M.guarded G) ?_ ?_ h
  · exact fun _ hstart => hstart
  · exact fun _ _ _ _ _ hstep => hstep.2

theorem Run.guardedStep (h : (M.guarded G).Run es s)
    (hst : M.step es s e t) (hG : G s e) : (M.guarded G).Run (es ++ [e]) t :=
  .step h ⟨hG, hst⟩

end Machine

end Magicblock
