import Magicblock.Foundations.History
import Magicblock.Intent.Types

/-!
# Chainlink/ProgramData — the watches of programdata accounts, and their references

A loaded program's programdata is kept in an index, and a subscription reference is held for it.
`watch_programdata` inserts into the index first and acquires the reference after waits; what takes
an entry out of the index forgets a reference, whether or not it was acquired by then.
-/

namespace Magicblock.Chainlink

/-- **Where a call stands** that watches a programdata account or gives one up. -/
inductive WatchCall
  | watching (key : Pubkey)
  /-- It has evicted another entry, whose reference is to be forgotten first. -/
  | evicting (evicted key : Pubkey)
  | acquiring (key : Pubkey)
  | rechecking (key : Pubkey)
  /-- In `unwatch_programdata`, or an update finds the program evicted from the bank. -/
  | unwatching (key : Pubkey)
  | forgetting (key : Pubkey)
  | done
  deriving DecidableEq

namespace WatchCall

@[grind =] def acquires (key : Pubkey) : WatchCall → Bool
  | evicting _ k | acquiring k => k = key
  | _ => false

@[grind =] def forgets (key : Pubkey) : WatchCall → Bool
  | evicting k _ | forgetting k => k = key
  | _ => false

/-- Between the insertion and the last look at the index. -/
@[grind =] def installs (key : Pubkey) : WatchCall → Bool
  | evicting _ k | acquiring k | rechecking k => k = key
  | _ => false

end WatchCall

structure Watches where
  programdataIndex : List Pubkey := []
  refs : Pubkey → ℕ := fun _ => 0
  calls : List WatchCall := []

namespace Watches

@[grind =] def setCall (s : Watches) (i : ℕ) (call : WatchCall) : Watches :=
  { s with calls := s.calls.set i call }

@[grind =] def pop (s : Watches) (key : Pubkey) : Watches :=
  { s with programdataIndex := s.programdataIndex.filter (· ≠ key) }

@[grind =] def forget (s : Watches) (key : Pubkey) : Watches :=
  { s with refs := Function.update s.refs key (s.refs key - 1) }

end Watches

inductive WatchEvent
  | call (call : WatchCall)
  /-- The index is full when a call takes another key's place. -/
  | insert (i : ℕ) (evicted : Option Pubkey)
  | acquired (i : ℕ) (ok : Bool)
  | recheck (i : ℕ)
  | pop (i : ℕ)
  | forget (i : ℕ)

inductive WatchStep (s : Watches) : WatchEvent → Watches → Prop
  | call (h : call = .watching key ∨ call = .unwatching key) :
    WatchStep s (.call call) { s with calls := s.calls ++ [call] }
  | alreadyInstalled (hi : s.calls[i]? = some (.watching key)) (h : key ∈ s.programdataIndex) :
    WatchStep s (.insert i none) (s.setCall i .done)
  | insert (hi : s.calls[i]? = some (.watching key)) (h : key ∉ s.programdataIndex) :
    WatchStep s (.insert i none)
      { s.setCall i (.acquiring key) with programdataIndex := key :: s.programdataIndex }
  | evict (hi : s.calls[i]? = some (.watching key)) (h : key ∉ s.programdataIndex)
      (hevic : evicted ∈ s.programdataIndex) :
    WatchStep s (.insert i (some evicted))
      { s.setCall i (.evicting evicted key) with
        programdataIndex := key :: (s.pop evicted).programdataIndex }
  | forgetEvicted (hi : s.calls[i]? = some (.evicting evicted key)) :
    WatchStep s (.forget i) ((s.setCall i (.acquiring key)).forget evicted)
  | acquired (hi : s.calls[i]? = some (.acquiring key)) : WatchStep s (.acquired i true)
      { s.setCall i (.rechecking key) with refs := Function.update s.refs key (s.refs key + 1) }
  | acquireFailed (hi : s.calls[i]? = some (.acquiring key)) :
    WatchStep s (.acquired i false) ((s.setCall i .done).pop key)
  | recheck (hi : s.calls[i]? = some (.rechecking key)) : WatchStep s (.recheck i)
      (s.setCall i (if key ∈ s.programdataIndex then .done else .forgetting key))
  | pop (hi : s.calls[i]? = some (.unwatching key)) : WatchStep s (.pop i)
      ((s.setCall i (if key ∈ s.programdataIndex then .forgetting key else .done)).pop key)
  /-- The program has come back to the bank. -/
  | keep (hi : s.calls[i]? = some (.unwatching key)) : WatchStep s (.pop i) (s.setCall i .done)
  | forget (hi : s.calls[i]? = some (.forgetting key)) :
    WatchStep s (.forget i) ((s.setCall i .done).forget key)

def watchMachine : Machine Watches WatchEvent where
  start s := s = {}
  step _ s e t := WatchStep s e t

def Watches.installing (s : Watches) (key : Pubkey) : ℕ := s.calls.countP (·.installs key)

/-- **No entry leaves the index while it is being installed.** -/
def Undisturbed (s : Watches) : WatchEvent → Prop
  | .insert _ (some evicted) => s.installing evicted = 0
  | .pop i => ∀ key, s.calls[i]? = some (.unwatching key) → s.installing key = 0
  | _ => True

/-! ### What a run preserves -/

@[grind =] def Watches.indexed (s : Watches) (key : Pubkey) : ℕ :=
  if key ∈ s.programdataIndex then 1 else 0

/-- Each reference is held for an entry of the index, or is going to be forgotten; what is being
installed is in the index. -/
structure Watches.Balanced (s : Watches) : Prop where
  balance : ∀ key, s.refs key + s.calls.countP (·.acquires key) =
    s.indexed key + s.calls.countP (·.forgets key)
  single : ∀ key, s.installing key ≤ s.indexed key

variable {s t : Watches} {es : List WatchEvent} {old new : WatchCall}

theorem Watches.acquires_le_installing (key : Pubkey) :
    s.calls.countP (·.acquires key) ≤ s.installing key := by
  refine List.countP_mono_left fun call _ h => ?_
  cases call <;> first | exact h | cases h

theorem Watches.countP_pos {p : WatchCall → Bool} {i : ℕ} (hi : s.calls[i]? = some old)
    (hp : p old) : 0 < s.calls.countP p :=
  List.countP_pos_iff.mpr ⟨old, List.mem_of_getElem? hi, hp⟩

/-- A reference that is going to be forgotten is held. -/
theorem Watches.Balanced.refs_pos {i : ℕ} (h : s.Balanced) (hi : s.calls[i]? = some old)
    (hforget : old.forgets key) : 0 < s.refs key := by
  have hpos : 0 < s.calls.countP (·.forgets key) := Watches.countP_pos hi hforget
  have hle := (s.acquires_le_installing key).trans (h.single key)
  have hbal := h.balance key
  omega

theorem Watches.Balanced.indexed_of_installs {i : ℕ} (h : s.Balanced)
    (hi : s.calls[i]? = some old) (hinsts : old.installs key) : 0 < s.indexed key :=
  (Watches.countP_pos hi hinsts).trans_le (h.single key)

/-- One call goes on: the references and the index make up for what it changes in the counts. -/
theorem Watches.Balanced.setCall {i : ℕ} (h : s.Balanced) (hi : s.calls[i]? = some old)
    (hcs : t.calls = s.calls.set i new)
    (hbal : ∀ key, t.refs key + (new.acquires key).toNat + (old.forgets key).toNat +
      s.indexed key = s.refs key + (old.acquires key).toNat + (new.forgets key).toNat +
        t.indexed key)
    (hsgl : ∀ key, s.installing key ≤ s.indexed key →
      s.installing key + (new.installs key).toNat ≤
        t.indexed key + (old.installs key).toNat) : t.Balanced := by
  have hcnt (p : WatchCall → Bool) : t.calls.countP p + (p old).toNat =
      s.calls.countP p + (p new).toNat := by
    obtain ⟨hlt, hold⟩ := List.getElem?_eq_some_iff.mp hi
    have hpos : p old → 0 < s.calls.countP p := Watches.countP_pos hi
    rw [hcs, List.countP_set hlt, hold]
    cases hp : p old <;> cases p new <;> simp_all
  refine ⟨fun key => ?_, fun key => ?_⟩
  · have := h.balance key
    have := hbal key
    have := hcnt (·.acquires key)
    have := hcnt (·.forgets key)
    omega
  · have := hsgl key (h.single key)
    have := hcnt (·.installs key)
    simp only [Watches.installing] at *
    omega

theorem Watches.Balanced.step (h : s.Balanced) (hund : Undisturbed s e)
    (hstep : WatchStep s e t) : t.Balanced := by
  cases hstep with
  | call hcall =>
    -- It has taken nothing yet.
    refine ⟨fun k => ?_, fun k => ?_⟩
    · have := h.balance k
      grind
    · have := h.single k
      grind [Watches.installing]
  | alreadyInstalled hi | keep hi => exact h.setCall hi rfl (fun _ => rfl) fun _ => id
  | insert hi hnew => exact h.setCall hi rfl (by grind) (by grind)
  | evict hi hnew hevic =>
    -- The evicted entry's reference is forgotten next, and no call is installing that entry.
    simp only [Undisturbed] at hund
    exact h.setCall hi rfl (by grind) (by grind)
  | forgetEvicted hi | forget hi =>
    have hpos := h.refs_pos hi (decide_eq_true rfl)
    refine h.setCall hi rfl (fun k => ?_) (by grind)
    simp only [Watches.forget, Function.update_apply]
    grind
  | acquired hi => exact h.setCall hi rfl (by grind) (by grind)
  | acquireFailed hi | recheck hi =>
    -- The entry is still there: only this call installs it.
    have hind := h.indexed_of_installs hi (decide_eq_true rfl)
    exact h.setCall hi rfl (by grind) (by grind)
  | pop hi =>
    have hnone := hund _ hi
    exact h.setCall hi rfl (by grind) (by grind)

/-- **A programdata watch is counted once** when all calls have finished — along runs in which no
entry leaves the index while it is being installed. -/
theorem watch_counted_once (h : (watchMachine.guarded Undisturbed).Run es s)
    (hcs : ∀ call ∈ s.calls, call = .done) (key : Pubkey) :
    s.refs key = if key ∈ s.programdataIndex then 1 else 0 := by
  have hbal : s.Balanced := by
    refine Machine.Run.invariant ?_ ?_ h
    · rintro _ rfl
      exact ⟨fun _ => rfl, fun _ => Nat.zero_le _⟩
    · exact fun _ _ _ _ _ ih hstep => ih.step hstep.1 hstep.2
  have hacqs : s.calls.countP (·.acquires key) = 0 :=
    List.countP_eq_zero.mpr fun call hcall => by simp [hcs call hcall, WatchCall.acquires]
  have hforget : s.calls.countP (·.forgets key) = 0 :=
    List.countP_eq_zero.mpr fun call hcall => by simp [hcs call hcall, WatchCall.forgets]
  simpa [hacqs, hforget, Watches.indexed] using hbal.balance key

/-! ### An entry that is taken out and put back -/

theorem watch_counted_once_watched :
    ∃ es s, (watchMachine.guarded Undisturbed).Run es s ∧ s.refs 7 = 1 := by
  have hstart : (watchMachine.guarded Undisturbed).Run [] {} := .start rfl
  have hwatch := hstart.next (.call (.watching 7)) ⟨trivial, .call (.inl rfl)⟩
    |>.next (.insert 0 none) ⟨trivial, .insert rfl (by decide)⟩
    |>.next (.acquired 0 true) ⟨trivial, .acquired rfl⟩ |>.next (.recheck 0) ⟨trivial, .recheck rfl⟩
  exact ⟨_, _, hwatch, watch_counted_once hwatch (by decide) 7⟩

/-- **A programdata account can end up with two references.** -/
theorem watch_counted_twice : ∃ es s, watchMachine.Run es s ∧ (∀ call ∈ s.calls, call = .done) ∧
    s.refs 7 = 2 := by
  have hstart : watchMachine.Run [] {} := .start rfl
  -- The program is evicted from the bank before the first call has its reference.
  have hpop := hstart.next (.call (.watching 7)) (.call (.inl rfl))
    |>.next (.insert 0 none) (.insert rfl (by decide))
    |>.next (.call (.unwatching 7)) (.call (.inr rfl)) |>.next (.pop 1) (.pop rfl)
    |>.next (.forget 1) (.forget rfl)
  have hins := hpop.next (.call (.watching 7)) (.call (.inl rfl))
    |>.next (.insert 2 none) (.insert rfl (by decide))
  have hacq := hins.next (.acquired 0 true) (.acquired rfl)
    |>.next (.recheck 0) (.recheck rfl)
    |>.next (.acquired 2 true) (.acquired rfl) |>.next (.recheck 2) (.recheck rfl)
  exact ⟨_, _, hacq, by decide, rfl⟩

end Magicblock.Chainlink
