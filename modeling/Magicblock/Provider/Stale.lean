import Magicblock.Foundations.Lists
import Magicblock.Provider.Gaps

/-!
# Provider/Stale — every gap reaches the reconciler's eviction

An account that was watched when its coverage was lost stays tracked and owned until an eviction or
the reconciler drops it, and who drops it reports it.  Meanwhile its gap is in the channel or with
the reconciler.  So a gap is lost only if the channel has no room for it.
-/

namespace Magicblock.Provider

open Option SubscriptionStage

open Function (update update_apply update_eq_self update_self)

open Submux (Instant)
open SubscribedAccounts SubscriptionOwnership

variable {managed : Pubkey → Bool} {es : List GapEvent} {s t : GapState} {e : GapEvent}

/-! ### What a section does to a watched account -/

/-- The account is tracked and owned, or it was dropped and is being reported. -/
def KeyState.Alive (key : KeyState) : Prop :=
  (key.tracked = true ∧ ∃ own, key.owned = some own ∧ own.contains .undelegationTracking = false) ∨
    key.stage = some (.dropping true) ∨ key.stage = some .reporting

/-- Where the reconciler awaits when it evicts an account. -/
def SubscriptionStage.Evicts (detectedAt : Instant) : SubscriptionStage → Prop
  | .entered (.evictUncovered d) | .judging d => d = some detectedAt
  | .dropping stale => stale = true
  | .reporting => True
  | _ => False

variable {reason : SubscriptionReason} {own : SubscriptionOwnership} {stage : SubscriptionStage}

theorem contains_release (h : own.contains other = false) :
    (own.release reason).contains other = false := by
  simp only [contains, bne_eq_false_iff_eq, release, update_apply] at h ⊢
  split
  · rename_i heq
    rw [← heq, h]
  · exact h

theorem contains_releaseAll (h : own.contains other = false) :
    (own.releaseAll reason now).1.contains other = false := by
  simp only [contains, bne_eq_false_iff_eq, reasons_releaseAll, update_apply] at h ⊢
  split
  · rfl
  · exact h

theorem contains_acquire (hne : reason ≠ other) (h : own.contains other = false) :
    (own.acquire reason).contains other = false := by
  simp only [contains, bne_eq_false_iff_eq, acquire, update_apply] at h ⊢
  rw [if_neg (Ne.symm hne)]
  exact h

variable {key : KeyState} {events : List KeyEvent}

/-- A section that starts an operation leaves a watched account watched, if it is mindful of it. -/
theorem enter_alive (htrk : tracked = true) (hown : own.contains .undelegationTracking = false)
    (hstays : KeyState.StaysWatched ⟨tracked, some own, some (.entered op)⟩ answer) :
    (op.enter false answer ⟨tracked, some own, stage⟩).2.Alive := by
  cases op with
  | acquire reason skip =>
    simp only [SubscriptionOp.enter, add_false]
    split
    · exact .inl ⟨rfl, _, rfl, contains_acquire hstays hown⟩
    · exact .inl ⟨rfl, _, rfl, hown⟩
  | release reason mode =>
    cases mode with
    | single =>
      have hleft : (own.release reason).isEmpty = false := hstays own rfl
      simp only [SubscriptionOp.enter, hleft, Bool.false_eq_true, if_false]
      exact .inl ⟨htrk, _, rfl, contains_release hown⟩
    | all =>
      have hleft : (own.releaseAll reason answer.now).1.isEmpty = false := hstays own rfl
      simp only [SubscriptionOp.enter, hleft, Bool.false_eq_true, if_false]
      exact .inl ⟨htrk, _, rfl, contains_releaseAll hown⟩
  | releaseSilently reason =>
    have hleft : (own.releaseAll reason answer.now).1.isEmpty = false := hstays own rfl
    simp only [SubscriptionOp.enter, hleft, Bool.false_eq_true, if_false]
    split <;> exact .inl ⟨htrk, _, rfl, contains_releaseAll hown⟩
  | forget reason =>
    have hleft : (own.release reason).isEmpty = false := hstays own rfl
    simp only [SubscriptionOp.enter, hleft, Bool.false_eq_true, if_false]
    exact .inl ⟨htrk, _, rfl, contains_release hown⟩
  | unsubscribe => cases htrk.symm.trans hstays
  | reconcileMissing | reconcileExtra | evictUncovered detectedAt =>
    simp only [SubscriptionOp.enter]
    split <;> exact .inl ⟨htrk, _, rfl, hown⟩

/-- **A watched account stays watched until it is reported.** -/
theorem advance_alive {managed : Bool} (hmgd : key.tracked = true → managed = false)
    (hsound : managed = false → ∃ events, KeySound key events) (hstg : key.stage = some stage)
    (halive : key.Alive) (hstays : key.StaysWatched answer)
    (hopen : key.stage = some .reporting → answer.call = .ok) :
    (stage.advance managed answer key).1 = .reported ∨
      (stage.advance managed answer key).2.Alive := by
  obtain ⟨tracked, owned, stage'⟩ := key
  obtain rfl : stage' = some stage := hstg
  rcases halive with ⟨htrk, own, howned, hown⟩ | hdrop | hrep
  · obtain rfl := hmgd htrk
    obtain ⟨events, hkey⟩ := hsound rfl
    obtain rfl : owned = some own := howned
    cases stage with
    | entered op => exact .inr (enter_alive htrk hown hstays)
    | closing =>
      have hfail : answer.call = .failed := hstays
      simp only [advance, hfail]
      exact .inr (.inl ⟨htrk, own, rfl, hown⟩)
    | resubscribing =>
      simp only [advance]
      split <;> exact .inr (.inl ⟨htrk, own, rfl, hown⟩)
    | judging detectedAt =>
      simp only [advance]
      split
      · exact .inr (.inl ⟨htrk, own, rfl, hown⟩)
      · exact .inr (.inr (.inl rfl))
    | dropping stale => cases htrk.symm.trans hkey.1
    | subscribing | recording | forgetting | reporting | clearing => cases hkey.2
    | unsubscribing | unsubscribingSilently | restoring => cases hkey.2.1
  · obtain rfl : stage = .dropping true := some.inj hdrop
    exact .inr (.inr (.inr rfl))
  · obtain rfl : stage = .reporting := some.inj hrep
    simp only [advance, hopen rfl, if_true]
    exact .inl trivial

/-- **The eviction for a gap ends with a report, or finds the account covered again.** -/
theorem evict_advance (managed : Bool) (hstg : key.stage = some stage)
    (hevicts : stage.Evicts detectedAt) (halive : key.Alive)
    (hopen : key.stage = some .reporting → answer.call = .ok) :
    (stage.advance managed answer key).1 = .reported ∨
    (∃ recovered, (stage.advance managed answer key).1 = .kept (some recovered) ∧
      detectedAt ≤ recovered) ∨
        ∃ stage', (stage.advance managed answer key).2.stage = some stage' := by
  obtain ⟨tracked, owned, stage'⟩ := key
  obtain rfl : stage' = some stage := hstg
  cases stage with
  | entered op =>
    cases op with
    | evictUncovered d =>
      obtain rfl : d = some detectedAt := hevicts
      obtain ⟨rfl : tracked = true, -⟩ := Or.resolve_right halive (by simp)
      exact .inr (.inr ⟨_, rfl⟩)
    | acquire | release | releaseSilently | forget | unsubscribe | reconcileMissing
    | reconcileExtra => exact absurd hevicts id
  | judging d =>
    obtain rfl : d = some detectedAt := hevicts
    obtain ⟨-, own, rfl : owned = some own, hown⟩ := Or.resolve_right halive (by simp)
    simp only [advance, any_some]
    split
    · rename_i hkeeps
      rw [keepsWatch, hown, Bool.false_or, any_some, any_eq_true] at hkeeps
      obtain ⟨recovered, hrec, hle⟩ := hkeeps
      exact .inr (.inl ⟨recovered, by simp [hrec], of_decide_eq_true hle⟩)
    · exact .inr (.inr ⟨_, rfl⟩)
  | dropping stale =>
    obtain rfl : stale = true := hevicts
    exact .inr (.inr ⟨_, rfl⟩)
  | reporting =>
    simp only [advance, hopen rfl, if_true]
    exact .inl trivial
  | subscribing | recording | unsubscribing | unsubscribingSilently | restoring | closing
  | forgetting | resubscribing | clearing => exact absurd hevicts id

theorem evicts_advance {managed : Bool} (hevicts : stage.Evicts detectedAt)
    (hstg : (stage.advance managed answer key).2.stage = some stage') :
    stage'.Evicts detectedAt := by
  cases stage with
  | entered op =>
    cases op with
    | evictUncovered d =>
      obtain rfl : d = some detectedAt := hevicts
      simp only [advance, SubscriptionOp.enter] at hstg
      split at hstg
      · cases hstg
      · cases hstg
        rfl
    | acquire | release | releaseSilently | forget | unsubscribe | reconcileMissing
    | reconcileExtra => exact absurd hevicts id
  | judging d =>
    simp only [advance] at hstg
    split at hstg
    · cases hstg
    · cases hstg
      rfl
  | dropping stale =>
    obtain rfl : stale = true := hevicts
    cases hstg
    trivial
  | reporting => cases hstg
  | subscribing | recording | unsubscribing | unsubscribingSilently | restoring | closing
  | forgetting | resubscribing | clearing => exact absurd hevicts id

theorem enter_tracked_of_managed (op : SubscriptionOp) :
    (op.enter true answer key).2.tracked = key.tracked := by
  cases op with
  | acquire | releaseSilently | forget =>
    simp only [SubscriptionOp.enter, add_true]
    split
    · repeat' split
      all_goals rfl
    · repeat' split
      all_goals rfl
  | release | unsubscribe => rfl
  | reconcileMissing | reconcileExtra | evictUncovered =>
    simp only [SubscriptionOp.enter]
    split <;> rfl

/-- Internally managed pubkeys are neither added nor removed. -/
theorem advance_tracked_of_managed : (stage.advance true answer key).2.tracked = key.tracked := by
  cases stage with
  | entered op => exact enter_tracked_of_managed op
  | forgetting | restoring | dropping | reporting | clearing =>
    simp [advance]
  | subscribing | recording | unsubscribing | unsubscribingSilently | closing | resubscribing
  | judging =>
    simp only [advance, add_true, remove_true]
    split <;> rfl

theorem enter_not_reported {managed : Bool} (op : SubscriptionOp) :
    (op.enter managed answer key).1 ≠ .reported := by
  cases op with
  | acquire | release | releaseSilently | forget =>
    simp only [SubscriptionOp.enter]
    repeat' split
    all_goals rintro ⟨⟩
  | unsubscribe | reconcileMissing | reconcileExtra | evictUncovered =>
    simp only [SubscriptionOp.enter]
    split <;> rintro ⟨⟩

/-- Only the last section of an eviction reports. -/
theorem reporting_of_reported {managed : Bool}
    (h : (stage.advance managed answer key).1 = .reported) : stage = .reporting := by
  cases stage with
  | reporting => rfl
  | entered op => exact absurd h (enter_not_reported op)
  | forgetting | restoring | dropping | clearing => cases h
  | subscribing | recording | unsubscribing | unsubscribingSilently | closing | resubscribing
  | judging =>
    simp only [advance] at h
    split at h <;> cases h

/-! ### What holds in every run -/

/-- **What a step can do to an account**: lock it, or run a section of the operation that holds it.
-/
theorem GapStep.key_cases (h : GapStep managed es s e t) (pk : Pubkey) :
    t.keys pk = s.keys pk ∨
    ((s.keys pk).stage = none ∧
      ∃ op, t.keys pk = { s.keys pk with stage := some (.entered op) }) ∨
    ∃ stage answer event, (s.keys pk).stage = some stage ∧
      e = .advanced pk answer event (s.reconciler.gapOf pk) ∧
      stage.advance (managed pk) answer (s.keys pk) = (event, t.keys pk) := by
  cases h with
  | lock pk' _ hfree | @begin _ _ pk' _ _ hfree =>
    obtain rfl | hne := eq_or_ne pk pk'
    · exact .inr (.inl ⟨hfree, _, s.keys_setKey_self ..⟩)
    · exact .inl (s.keys_setKey_of_ne _ hne)
  | advance pk' answer hstg _ hadv =>
    obtain rfl | hne := eq_or_ne pk pk'
    · refine .inr (.inr ⟨_, _, _, hstg, rfl, hadv.trans ?_⟩)
      rw [GapState.keys_setKey_self]
    · exact .inl (s.keys_setKey_of_ne _ hne)
  | disconnect | clients | tick | receive | finish => exact .inl rfl

theorem GapStep.keyStep (h : GapStep managed es s e t) :
    t.keys pk = s.keys pk ∨ ∃ event, KeyStep (managed pk) (s.keys pk) event (t.keys pk) := by
  obtain heq | ⟨hfree, op, hkey⟩ | ⟨stage, answer, event, hstg, -, hadv⟩ := h.key_cases pk
  · exact .inl heq
  · rw [hkey]
    exact .inr ⟨_, .lock op hfree⟩
  · have hstep : KeyStep (managed pk) _ _ _ := .advance answer hstg
    rw [hadv] at hstep
    exact .inr ⟨_, hstep⟩

theorem KeyStep.tracked_of_managed (h : KeyStep true key event key') :
    key'.tracked = key.tracked := by
  cases h with
  | lock => rfl
  | advance answer hstg => exact advance_tracked_of_managed

namespace Reconciler

variable {reconciler : Reconciler} {id : ℕ}

theorem of_after_eq (h : reconciler.after pk key = .evicting id gap rest (some current)) :
    reconciler = .evicting id gap rest (some current) ∧ (current = pk → key.stage ≠ none) := by
  rcases reconciler with _ | ⟨id', gap', rest', _ | current'⟩
  · cases h
  · exact absurd h (by simp [after])
  · simp only [after, evicting.injEq] at h
    obtain ⟨rfl, rfl, rfl, hcur⟩ := h
    split at hcur
    · cases hcur
    · rename_i hnot
      cases hcur
      exact ⟨rfl, fun heq hnone => hnot ⟨heq, hnone⟩⟩

end Reconciler

/-- Each account is in order, and the reconciler holds the lock of the account it evicts. -/
structure GapSound (managed : Pubkey → Bool) (s : GapState) : Prop where
  keys : ∀ pubkey, managed pubkey = false → ∃ events, KeySound (s.keys pubkey) events
  managed : ∀ pubkey, managed pubkey = true → (s.keys pubkey).tracked = false
  current : ∀ id gap rest pubkey, s.reconciler = .evicting id gap rest (some pubkey) →
    ∃ stage, (s.keys pubkey).stage = some stage ∧ stage.Evicts gap.detectedAt

theorem current_of_step (hcur : ∀ id gap rest pk,
      s.reconciler = .evicting id gap rest (some pk) →
      ∃ stage, (s.keys pk).stage = some stage ∧ stage.Evicts gap.detectedAt)
    (h : GapStep managed es s e t) (id : ℕ) (gap : SubscriptionGap) (rest : List Pubkey)
    (pk : Pubkey) (hrecon : t.reconciler = .evicting id gap rest (some pk)) :
    ∃ stage, (t.keys pk).stage = some stage ∧ stage.Evicts gap.detectedAt := by
  cases h with
  | lock pk' op hfree _ =>
    obtain ⟨stage, hstg, hevicts⟩ := hcur id gap rest pk hrecon
    obtain rfl | hne := eq_or_ne pk pk'
    · cases hfree.symm.trans hstg
    · exact ⟨stage, s.keys_setKey_of_ne _ hne ▸ hstg, hevicts⟩
  | @advance pk' stage' answer event key hstg' _ hadv =>
    obtain ⟨hbef, hgoes⟩ := Reconciler.of_after_eq hrecon
    obtain ⟨stage, hstg, hevicts⟩ := hcur id gap rest pk hbef
    by_cases heq : pk = pk'
    · subst heq
      cases hstg.symm.trans hstg'
      simp only [GapState.keys_setKey_self]
      obtain ⟨stage', hstg'⟩ := ne_none_iff_exists'.mp (hgoes rfl)
      obtain rfl : key = _ := (congrArg Prod.snd hadv).symm
      exact ⟨stage', hstg', evicts_advance hevicts hstg'⟩
    · simp only [s.keys_setKey_of_ne _ heq]
      exact ⟨stage, hstg, hevicts⟩
  | begin _ _ =>
    simp only [Reconciler.evicting.injEq, some.injEq] at hrecon
    obtain ⟨rfl, rfl, rfl, rfl⟩ := hrecon
    simp only [GapState.keys_setKey_self]
    exact ⟨_, rfl, rfl⟩
  | disconnect | clients | tick => exact hcur id gap rest pk hrecon
  | receive => exact absurd hrecon (by simp)
  | finish => cases hrecon

theorem GapSound.step (hs : GapSound managed s) (h : GapStep managed es s e t) :
    GapSound managed t where
  keys pk hmgd := by
    obtain ⟨events, hsound⟩ := hs.keys pk hmgd
    rcases h.keyStep with heq | ⟨event, hstep⟩
    · exact ⟨events, heq ▸ hsound⟩
    · rw [hmgd] at hstep
      exact ⟨_, hstep.sound hsound⟩
  managed pk hmgd := by
    rcases h.keyStep with heq | ⟨event, hstep⟩
    · rw [heq]
      exact hs.managed pk hmgd
    · rw [hmgd] at hstep
      rw [hstep.tracked_of_managed]
      exact hs.managed pk hmgd
  current := current_of_step hs.current h

theorem gapSound_of_run (h : (gapMachine managed).Run es s) : GapSound managed s := by
  refine Machine.Run.invariant ?_ ?_ h
  · rintro s ⟨hkeys, -, hidle⟩
    refine ⟨fun pk _ => ⟨[], ?_⟩, fun pk _ => ?_, fun _ _ _ _ hevic => ?_⟩
    · rw [hkeys]
      rfl
    · rw [hkeys]
      rfl
    · cases hidle.symm.trans hevic
  · exact fun _ _ _ _ _ hsound hstep => hsound.step hstep

/-! ### A gap is not lost -/

theorem KeyState.Alive.lock (h : key.Alive) (hfree : key.stage = none)
    (stage : Option SubscriptionStage) : KeyState.Alive { key with stage } := by
  rcases h with h | h | h
  · exact .inl h
  · cases hfree.symm.trans h
  · cases hfree.symm.trans h

variable {id : ℕ} {gap : SubscriptionGap} {pk : Pubkey}

/-- Along attentive steps an account of a gap stays watched until it is reported. -/
theorem alive_step (hs : GapSound managed s) (h : GapStep managed es s e t)
    (hatt : Attentive s e) (hpend : s.Pending id gap pk)
    (halive : (s.keys pk).Alive) :
    e.reports pk = true ∨ (t.keys pk).Alive := by
  obtain heq | ⟨hfree, op, hkey⟩ | ⟨stage, answer, event, hstg, rfl, hadv⟩ :=
    h.key_cases pk
  · exact .inr (heq ▸ halive)
  · exact .inr (hkey ▸ halive.lock hfree _)
  · have hmgd : (s.keys pk).tracked = true → managed pk = false := fun htrk => by
      by_contra hnot
      cases (hs.managed pk (by simpa using hnot)).symm.trans htrk
    have hgoes := advance_alive hmgd (hs.keys pk) hstg halive (hatt.1 ⟨id, gap, hpend⟩) hatt.2
    rw [hadv] at hgoes
    refine hgoes.imp_left fun hev => ?_
    obtain rfl : event = .reported := hev
    simp [GapEvent.reports]

/-- A gap leaves the channel for the reconciler only. -/
theorem pending_step_of_channel (h : GapStep managed es s e t) (hchan : (id, gap) ∈ s.channel)
    (hpk : pk ∈ gap.pubkeys) : t.Pending id gap pk := by
  cases h with
  | lock | advance | clients | tick | begin | finish => exact .inl ⟨hchan, hpk⟩
  | disconnect client _ _ _ =>
    refine .inl ⟨?_, hpk⟩
    simp only [GapState.disconnect, GapState.trySend]
    split
    · exact hchan
    · split
      · exact List.mem_append_left _ hchan
      · exact hchan
  | receive _ hhead =>
    rw [hhead] at hchan
    rcases List.mem_cons.mp hchan with heq | hrest
    · obtain ⟨rfl, rfl⟩ := Prod.mk.inj heq
      exact .inr ⟨_, none, rfl, .inl hpk⟩
    · exact .inl ⟨hrest, hpk⟩

/-- The reconciler lets go of an account when it is reported, or covered again. -/
theorem pending_step_of_evicting (hs : GapSound managed s) (h : GapStep managed es s e t)
    (hatt : Attentive s e) (hrecon : s.reconciler = .evicting id gap rest current)
    (hpk : pk ∈ rest ∨ current = some pk) (halive : (s.keys pk).Alive) :
    (e.reports pk = true ∨ e.recovers id gap pk = true) ∨ t.Pending id gap pk := by
  cases h with
  | lock | disconnect | clients | tick => exact .inr (.inr ⟨rest, current, hrecon, hpk⟩)
  | @advance pk' stage answer event key hstg _ hadv =>
    rcases current with _ | current
    · exact .inr (.inr ⟨rest, none, by simp [hrecon, Reconciler.after], hpk⟩)
    · have haft : s.reconciler.after pk' key = .evicting id gap rest
          (if current = pk' ∧ key.stage = none then none else some current) := by
        rw [hrecon, Reconciler.after]
      rcases hpk with hrest | hcur
      · exact .inr (.inr ⟨rest, _, haft, .inl hrest⟩)
      · obtain rfl := some.inj hcur
        by_cases heq : current = pk'
        · subst heq
          obtain ⟨stage', hstg', hevicts⟩ := hs.current id gap rest current hrecon
          obtain rfl := some.inj (hstg.symm.trans hstg')
          have hgapOf : s.reconciler.gapOf current = some id := by
            simp [hrecon, Reconciler.gapOf]
          have hends := evict_advance (managed current) hstg hevicts halive hatt.2
          rw [hadv] at hends
          rcases hends with hev | ⟨recovered, hev, hle⟩ | ⟨next, hnext⟩
          · obtain rfl : event = .reported := hev
            exact .inl (.inl (by simp [GapEvent.reports]))
          · obtain rfl : event = .kept (some recovered) := hev
            exact .inl (.inr (by simp [GapEvent.recovers, hgapOf, hle]))
          · have hgoes : ¬(current = current ∧ key.stage = none) := fun hdone =>
              absurd (hdone.2.symm.trans hnext) nofun
            rw [if_neg hgoes] at haft
            exact .inr (.inr ⟨rest, _, haft, .inr rfl⟩)
        · rw [if_neg fun hdone => heq hdone.1] at haft
          exact .inr (.inr ⟨rest, _, haft, .inr rfl⟩)
  | receive hidle => cases hidle.symm.trans hrecon
  | begin hevic _ =>
    obtain ⟨rfl, rfl, rfl, rfl⟩ := Reconciler.evicting.inj (hevic.symm.trans hrecon)
    rcases hpk with hmem | hnone
    · rcases List.mem_cons.mp hmem with rfl | hrest
      · exact .inr (.inr ⟨_, _, rfl, .inr rfl⟩)
      · exact .inr (.inr ⟨_, _, rfl, .inl hrest⟩)
    · cases hnone
  | finish hevic =>
    obtain ⟨rfl, rfl, rfl, rfl⟩ := Reconciler.evicting.inj (hevic.symm.trans hrecon)
    rcases hpk with hmem | hnone
    · exact absurd hmem List.not_mem_nil
    · cases hnone

theorem pending_step (hs : GapSound managed s) (h : GapStep managed es s e t)
    (hatt : Attentive s e) (hpend : s.Pending id gap pk)
    (halive : (s.keys pk).Alive) :
    (e.reports pk = true ∨ e.recovers id gap pk = true) ∨
      t.Pending id gap pk ∧ (t.keys pk).Alive := by
  rcases alive_step hs h hatt hpend halive with hreps | halive'
  · exact .inl (.inl hreps)
  · rcases hpend with ⟨hchan, hpk⟩ | ⟨rest, current, hrecon, hpk⟩
    · exact .inr ⟨pending_step_of_channel h hchan hpk, halive'⟩
    · rcases pending_step_of_evicting hs h hatt hrecon hpk halive with hdone | hgoes
      · exact .inl hdone
      · exact .inr ⟨hgoes, halive'⟩

theorem gapSettled_concat : GapSettled id gap pk (after ++ [e]) ↔
    GapSettled id gap pk after ∨ e.reports pk = true ∨ e.recovers id gap pk = true := by
  simp only [GapSettled, List.mem_append, List.mem_singleton, or_and_right, exists_or,
    exists_eq_left]
  exact or_or_or_comm

/-- A disconnect puts the watched accounts it uncovers into the channel, if there is room. -/
theorem pending_of_disconnected (h : GapStep managed es s (.disconnected client gap watched) t)
    (hatt : Attentive s (.disconnected client gap watched)) (hpk : pk ∈ watched) :
    t.Pending es.length gap pk ∧ (t.keys pk).Alive := by
  cases h with
  | disconnect _ _ hsubs hgap =>
    obtain ⟨hmem, hdir⟩ := List.mem_filter.mp hpk
    have hne : gap.pubkeys ≠ [] := List.ne_nil_of_mem hmem
    have hroom : s.channel.length < gapChannelCapacity := hatt.resolve_left hne
    refine ⟨.inl ⟨?_, hmem⟩, .inl ⟨?_, ?_⟩⟩
    · simp [GapState.disconnect, GapState.trySend, hroom, hne]
    · rw [hgap] at hmem
      exact (hsubs pk).mp (List.mem_filter.mp hmem).1
    · rw [KeyState.isDirect, any_eq_true] at hdir
      obtain ⟨own, howned, hown⟩ := hdir
      exact ⟨own, howned, by simpa using hown⟩

theorem owed_of_run (h : ((gapMachine managed).guarded Attentive).Run es s) :
    ∀ before client gap watched after,
      es = before ++ .disconnected client gap watched :: after → ∀ pk ∈ watched,
      GapSettled before.length gap pk after ∨
        s.Pending before.length gap pk ∧ (s.keys pk).Alive := by
  refine Machine.Run.invariant ?_ ?_ h
  · intro s _ before client gap watched after heq
    exact absurd heq.symm (List.append_ne_nil_of_right_ne_nil _ (List.cons_ne_nil _ _))
  · rintro es s e t hrun ih ⟨hatt, hstep⟩ before client gap watched after heq pk hpk
    rcases concat_eq_append_cons heq with ⟨after, rfl, rfl⟩ | ⟨rfl, rfl, rfl⟩
    · rcases ih before client gap watched after rfl pk hpk with hsett | ⟨hpend, halive⟩
      · exact .inl (gapSettled_concat.mpr (.inl hsett))
      · rcases pending_step (gapSound_of_run hrun.of_guarded) hstep hatt hpend halive with
          hlast | hgoes
        · exact .inl (gapSettled_concat.mpr (.inr hlast))
        · exact .inr hgoes
    · exact .inr (pending_of_disconnected hstep hatt hpk)

/-! ### An account is reported once for a gap -/

/-- How often the reconciler may yet report the account for the gap. -/
def Reconciler.tickets (id : ℕ) (pubkey : Pubkey) : Reconciler → ℕ
  | idle => 0
  | evicting id' _ rest current =>
    if id' = id then rest.count pubkey + (if current = some pubkey then 1 else 0) else 0

def GapState.tickets (s : GapState) (id : ℕ) (pubkey : Pubkey) : ℕ :=
  (s.channel.map fun gap => if gap.1 = id then gap.2.pubkeys.count pubkey else 0).sum +
    s.reconciler.tickets id pubkey

theorem Reconciler.tickets_after_le (reconciler : Reconciler) (pk' : Pubkey) (key : KeyState)
    (id : ℕ) (pk : Pubkey) :
    (reconciler.after pk' key).tickets id pk ≤ reconciler.tickets id pk := by
  rcases reconciler with _ | ⟨id', gap', rest', _ | current'⟩
  · exact le_rfl
  · exact le_rfl
  · simp only [after, tickets]
    by_cases hid : id' = id
    · rw [if_pos hid, if_pos hid]
      by_cases hdone : current' = pk' ∧ key.stage = none <;> simp [hdone]
    · rw [if_neg hid, if_neg hid]

theorem Reconciler.tickets_after {reconciler : Reconciler}
    (hgap : reconciler.gapOf pk = some id) (hdone : key.stage = none) :
    (reconciler.after pk key).tickets id pk + 1 = reconciler.tickets id pk := by
  rcases reconciler with _ | ⟨id', gap', rest', _ | current'⟩
  · cases hgap
  · cases hgap
  · simp only [gapOf] at hgap
    split at hgap
    · rename_i heq
      cases hgap
      simp [after, tickets, heq, hdone]
    · cases hgap

theorem GapEvent.reportsFor_advanced {gap : Option ℕ} :
    (advanced pk' answer event gap).reportsFor id pk = true ↔
      event = .reported ∧ pk' = pk ∧ gap = some id := by
  cases event <;> cases gap <;> simp [reportsFor]

/-- A report for a gap uses up a ticket; only the disconnect of the gap hands them out. -/
theorem tickets_step (h : GapStep managed es s e t) (id : ℕ) (pk : Pubkey) :
    (if e.reportsFor id pk then 1 else 0) + t.tickets id pk ≤
      s.tickets id pk + if id = es.length then 1 else 0 := by
  cases h with
  | lock | clients | tick => simp [GapEvent.reportsFor, GapState.tickets]
  | @advance pk' stage answer event key hstg _ hadv =>
    simp only [GapState.tickets, GapState.channel_setKey]
    split
    · rename_i hreps
      obtain ⟨rfl, rfl, hgap⟩ := GapEvent.reportsFor_advanced.mp hreps
      obtain rfl := reporting_of_reported (congrArg Prod.fst hadv)
      have hdone : key.stage = none := (congrArg (·.2.stage) hadv).symm
      have := Reconciler.tickets_after hgap hdone
      omega
    · have := s.reconciler.tickets_after_le pk' key id pk
      omega
  | @disconnect client accountSubs gap hnd _ hgap =>
    have hcnt : gap.pubkeys.count pk ≤ 1 := by
      rw [hgap]
      exact List.nodup_iff_count_le_one.mp (hnd.filter _) pk
    simp only [GapEvent.reportsFor, GapState.tickets, GapState.disconnect, GapState.trySend,
      eq_comm (a := id), Bool.false_eq_true, if_false]
    by_cases hemp : gap.pubkeys.isEmpty = true
    · simp [hemp]
    by_cases hroom : s.channel.length < gapChannelCapacity
    · simp only [hemp, hroom, if_true, if_false, List.map_append, List.sum_append, List.map_cons,
        List.map_nil, List.sum_cons, List.sum_nil, Bool.false_eq_true]
      split <;> omega
    · simp [hroom]
  | receive hidle hhead =>
    simp only [GapEvent.reportsFor, GapState.tickets, hidle, hhead, Reconciler.tickets,
      List.map_cons, List.sum_cons, Bool.false_eq_true, if_false, reduceCtorEq, Nat.add_zero]
    omega
  | begin hevic hfree =>
    simp only [GapEvent.reportsFor, GapState.tickets, GapState.channel_setKey, hevic,
      Reconciler.tickets, List.count_cons, beq_iff_eq, some.injEq, reduceCtorEq,
      Bool.false_eq_true, if_false]
    split <;> omega
  | finish hevic =>
    simp only [GapEvent.reportsFor, GapState.tickets, hevic, Reconciler.tickets,
      Bool.false_eq_true, if_false]
    omega

theorem reports_le_one (h : (gapMachine managed).Run es s) :
    es.countP (·.reportsFor id pk) + s.tickets id pk ≤ 1 ∧
      (es.length ≤ id → es.countP (·.reportsFor id pk) + s.tickets id pk = 0) := by
  refine Machine.Run.invariant ?_ ?_ h
  · rintro s ⟨-, hchan, hidle⟩
    simp [GapState.tickets, hchan, hidle, Reconciler.tickets]
  · rintro es s e t - ⟨hle, hzero⟩ hstep
    have hstep' := tickets_step hstep id pk
    rw [List.countP_append, List.countP_singleton, List.length_append, List.length_singleton]
    by_cases hid : id = es.length
    · have := hzero hid.ge
      rw [if_pos hid] at hstep'
      exact ⟨by omega, fun hlen => by omega⟩
    · rw [if_neg hid] at hstep'
      exact ⟨by omega, fun hlen => by have := hzero (by omega); omega⟩

/-! ### The reconciler goes on -/

theorem reconciler_goes_on (hs : GapSound managed s) (hpend : s.Pending id gap pk) :
    ∃ e t, GapStep managed es s e t ∧ e.attends s := by
  rcases hrecon : s.reconciler with _ | ⟨id', gap', rest, _ | current⟩
  · rcases hpend with ⟨hchan, -⟩ | ⟨_, _, hevic, -⟩
    · obtain ⟨⟨id', gap'⟩, rest, hhead⟩ := List.exists_cons_of_ne_nil (List.ne_nil_of_mem hchan)
      exact ⟨_, _, .receive hrecon hhead, trivial⟩
    · cases hrecon.symm.trans hevic
  · rcases rest with _ | ⟨pk', rest⟩
    · exact ⟨_, _, .finish hrecon, trivial⟩
    · rcases hstg : (s.keys pk').stage with _ | stage
      · exact ⟨_, _, .begin hrecon hstg, trivial⟩
      · refine ⟨_, _, .advance pk' ⟨.ok, none, s.clock⟩ hstg rfl rfl, ?_⟩
        simp [GapEvent.attends, hrecon, Reconciler.next]
  · obtain ⟨stage, hstg, -⟩ := hs.current id' gap' rest current hrecon
    refine ⟨_, _, .advance current ⟨.ok, none, s.clock⟩ hstg rfl rfl, ?_⟩
    simp [GapEvent.attends, hrecon, Reconciler.next]

theorem untracked_of_reports (hs : GapSound managed s) (h : GapStep managed es s e t)
    (hreps : e.reports pk = true) :
    (t.keys pk).tracked = false := by
  cases h with
  | @advance pk' stage answer event key hstg _ hadv =>
    obtain ⟨rfl, rfl⟩ : event = .reported ∧ pk' = pk := by
      revert hreps
      cases event <;> simp [GapEvent.reports]
    obtain rfl := reporting_of_reported (congrArg Prod.fst hadv)
    have hkey : key.tracked = (s.keys pk').tracked := (congrArg (·.2.tracked) hadv).symm
    simp only [GapState.keys_setKey_self, hkey]
    cases hmgd : managed pk' with
    | true => exact hs.managed pk' hmgd
    | false =>
      obtain ⟨events, hsound⟩ := hs.keys pk' hmgd
      simp only [KeySound, hstg] at hsound
      exact hsound.1
  | lock | disconnect | clients | tick | receive | begin | finish => cases hreps

/-- **No gap is lost while the channel has room for it** — along attentive runs, an account that was
directly owned when a disconnect left it uncovered is reported stale afterwards, or found covered
again since, or its gap is still with the reconciler, which can go on.  It is reported at most once
for each gap, and an account that is reported is no longer tracked. -/
theorem gaps_reach_the_reconciler (h : ((gapMachine managed).guarded Attentive).Run es s) :
    (∀ before client gap watched after,
      es = before ++ .disconnected client gap watched :: after → ∀ pk ∈ watched,
        (GapSettled before.length gap pk after ∨ s.Pending before.length gap pk) ∧
        es.countP (·.reportsFor before.length pk) ≤ 1) ∧
    (∀ e t pk, (gapMachine managed).step es s e t → e.reports pk = true →
      (t.keys pk).tracked = false) ∧
    ∀ id gap pk, s.Pending id gap pk → ∃ e t, (gapMachine managed).step es s e t ∧ e.attends s := by
  have hsound := gapSound_of_run h.of_guarded
  refine ⟨?_, fun e t pk hstep => untracked_of_reports hsound hstep, ?_⟩
  · intro before client gap watched after heq pk hpk
    refine ⟨?_, ?_⟩
    · exact (owed_of_run h before client gap watched after heq pk hpk).imp_right And.left
    · exact le_of_add_le_left (reports_le_one h.of_guarded).1
  · exact fun id gap pk hpend => reconciler_goes_on hsound hpend

/-! ### Sixteen gaps wait -/

namespace GapExample

def wellAnswered : ClientAnswer := ⟨.ok, none, 0⟩

/-- Watched for one reason. -/
def watchedFor (reason : SubscriptionReason) : KeyState := ⟨true, some (new.acquire reason), none⟩

/-- An account that one client covers. -/
def covered : Pubkey := 1

/-- An account that no client covers. -/
def bare : Pubkey := 2

theorem bare_ne_covered : bare ≠ covered := by decide

/-- One client is connected, and the reconciler is idle. -/
def resting (keys : Pubkey → KeyState) (channel : List (ℕ × SubscriptionGap)) : GapState :=
  ⟨keys, [⟨10, some [covered]⟩], [10], channel, .idle, 0⟩

abbrev attentiveRuns := (gapMachine fun _ => false).guarded Attentive

@[simp] theorem keys_resting : (resting keys channel).keys = keys := rfl

/-- Without a gap the operations may go on as they like. -/
theorem attentive_idle (hchan : s.channel = []) (hidle : s.reconciler = .idle)
    (hstg : (s.keys pk).stage ≠ some .reporting) :
    Attentive s (.advanced pk answer event current) := by
  refine ⟨?_, fun hrep => absurd hrep hstg⟩
  rintro ⟨id, gap, ⟨hmem, -⟩ | ⟨_, _, hevic, -⟩⟩
  · simp [hchan] at hmem
  · cases hidle.symm.trans hevic

/-- One account is watched for itself, the other is being undelegated. -/
def twoWatched : Pubkey → KeyState :=
  update (update (fun _ => KeyState.new) bare (watchedFor .undelegationTracking))
    covered (watchedFor .directAccount)

theorem twoWatched_covered : twoWatched covered = watchedFor .directAccount :=
  update_self _ _ _

theorem twoWatched_bare : twoWatched bare = watchedFor .undelegationTracking := by
  rw [twoWatched, Function.update_of_ne bare_ne_covered, update_self]

theorem mem_tracked (pk : Pubkey) : pk ∈ [covered, bare] ↔ (twoWatched pk).tracked = true := by
  by_cases hcov : pk = covered
  · simp [hcov, twoWatched_covered, watchedFor]
  by_cases hbare : pk = bare
  · simp [hbare, twoWatched_bare, watchedFor]
  · simp [hcov, hbare, twoWatched, KeyState.new]

theorem twoWatched_run : ∃ es, attentiveRuns.Run es (resting twoWatched []) := by
  have hstart : attentiveRuns.Run [] (resting (fun _ => .new) []) := .start ⟨fun _ => rfl, rfl, rfl⟩
  have hbare := hstart.guardedStep (.lock bare (.acquire .undelegationTracking false) rfl nofun)
      trivial
    |>.guardedStep (.advance bare wellAnswered rfl rfl rfl) (attentive_idle rfl rfl nofun)
    |>.guardedStep (.advance bare wellAnswered rfl rfl rfl) (attentive_idle rfl rfl nofun)
    |>.guardedStep (.advance bare wellAnswered rfl rfl rfl) (attentive_idle rfl rfl nofun)
  have hcov := hbare.guardedStep (.lock covered (.acquire .directAccount false) rfl nofun) trivial
    |>.guardedStep (.advance covered wellAnswered rfl rfl rfl) (attentive_idle rfl rfl nofun)
    |>.guardedStep (.advance covered wellAnswered rfl rfl rfl) (attentive_idle rfl rfl nofun)
    |>.guardedStep (.advance covered wellAnswered rfl rfl rfl) (attentive_idle rfl rfl nofun)
  simp only [GapState.setKey, Function.update_idem] at hcov
  exact ⟨_, hcov⟩

/-- Nothing is said about the covered account. -/
def Silent (es : List GapEvent) : Prop :=
  ∀ e ∈ es, e.reports covered = false ∧ ∀ id gap, e.recovers id gap covered = false

/-- A client comes and goes, and leaves the bare account uncovered each time. -/
theorem filled_run (h : (gapMachine fun _ => false).Run es (resting twoWatched [])) (n : ℕ)
    (hn : n ≤ gapChannelCapacity) :
    ∃ es' channel, (gapMachine fun _ => false).Run es' (resting twoWatched channel) ∧
      channel.length = n ∧ ∀ gap ∈ channel, gap.2 = ⟨0, [bare]⟩ := by
  induction n with
  | zero => exact ⟨es, [], h, rfl, nofun⟩
  | succ n ih =>
    obtain ⟨es', channel, hrun, hlen, hgaps⟩ := ih (by omega)
    have hroom : channel.length < gapChannelCapacity := by omega
    have hunc : (resting twoWatched channel).uncovered 20 [covered, bare] = [bare] := by
      simp only [GapState.uncovered, resting]
      decide
    have hstep : GapStep (fun _ => false) es' (resting twoWatched channel) _ _ :=
      .disconnect 20 (by decide) mem_tracked rfl
    have hsame : (resting twoWatched channel).disconnect es'.length 20
        ⟨(resting twoWatched channel).clock,
          (resting twoWatched channel).uncovered 20 [covered, bare]⟩ =
        resting twoWatched (channel ++ [(es'.length, ⟨0, [bare]⟩)]) := by
      rw [hunc]
      simp [GapState.disconnect, GapState.trySend, resting, hroom]
    rw [hsame] at hstep
    refine ⟨_, _, hrun.step hstep, by simp [hlen], fun gap hgap => ?_⟩
    rcases List.mem_append.mp hgap with hold | hnew
    · exact hgaps gap hold
    · rw [List.mem_singleton.mp hnew]

/-- The reconciler works off a gap of the bare account, and keeps the account. -/
theorem drained_gap
    (h : (gapMachine fun _ => false).Run es
      ⟨twoWatched, clients, connectedIds, (id, ⟨0, [bare]⟩) :: channel, .idle, 0⟩) :
    ∃ es', Silent es' ∧ (gapMachine fun _ => false).Run (es ++ es')
      ⟨twoWatched, clients, connectedIds, channel, .idle, 0⟩ := by
  have hdone := h.next (.received id) (.receive rfl rfl)
    |>.next (.began id bare) (.begin rfl rfl)
    |>.next (.advanced bare wellAnswered .quiet (some id)) (.advance bare wellAnswered rfl rfl rfl)
    |>.next (.advanced bare wellAnswered (.kept none) (some id))
      (.advance bare wellAnswered rfl rfl rfl)
    |>.next (.finished id) (.finish rfl)
  have hsame : update twoWatched bare (watchedFor .undelegationTracking) = twoWatched :=
    update_eq_self bare twoWatched
  simp only [GapState.setKey, Function.update_idem, List.append_assoc] at hdone
  refine ⟨_, ?_, hsame ▸ hdone⟩
  simp [Silent, GapEvent.reports, GapEvent.recovers]

theorem drained_run (hgaps : ∀ gap ∈ channel, gap.2 = ⟨0, [bare]⟩)
    (h : (gapMachine fun _ => false).Run es
      ⟨twoWatched, clients, connectedIds, channel, .idle, 0⟩) :
    ∃ es', Silent es' ∧ (gapMachine fun _ => false).Run (es ++ es')
      ⟨twoWatched, clients, connectedIds, [], .idle, 0⟩ := by
  induction channel generalizing es with
  | nil => exact ⟨[], nofun, by simpa using h⟩
  | cons gap channel ih =>
    obtain ⟨id, gap⟩ := gap
    obtain rfl : gap = ⟨0, [bare]⟩ := hgaps (id, gap) List.mem_cons_self
    obtain ⟨es₁, hsil₁, hrun₁⟩ := drained_gap h
    obtain ⟨es₂, hsil₂, hrun₂⟩ := ih (fun gap hgap => hgaps gap (List.mem_cons_of_mem _ hgap)) hrun₁
    refine ⟨es₁ ++ es₂, fun e he => ?_, by rwa [← List.append_assoc]⟩
    exact (List.mem_append.mp he).elim (hsil₁ e) (hsil₂ e)

/-- Without its client no account is covered. -/
theorem uncovered_all :
    (resting twoWatched channel).uncovered 10 [covered, bare] = [covered, bare] := by
  simp only [GapState.uncovered, resting]
  decide

theorem covered_watched (channel : List (ℕ × SubscriptionGap)) :
    covered ∈ ((resting twoWatched channel).uncovered 10 [covered, bare]).filter
      fun pk => ((resting twoWatched channel).keys pk).isDirect := by
  rw [uncovered_all, List.mem_filter]
  refine ⟨by decide, ?_⟩
  rw [keys_resting, twoWatched_covered]
  decide

end GapExample

open GapExample in
theorem gaps_reach_the_reconciler_room : ∃ es s before client gap watched after pk,
    ((gapMachine fun _ => false).guarded Attentive).Run es s ∧
      es = before ++ .disconnected client gap watched :: after ∧ pk ∈ watched ∧
      (GapSettled before.length gap pk after ∨ s.Pending before.length gap pk) := by
  obtain ⟨es, hes⟩ := twoWatched_run
  have hstep : GapStep (fun _ => false) es (resting twoWatched []) _ _ :=
    .disconnect 10 (by decide) mem_tracked rfl
  have hrun := hes.guardedStep hstep (.inr (by decide))
  have hwatch := covered_watched []
  exact ⟨_, _, es, _, _, _, [], covered, hrun, rfl, hwatch,
    ((gaps_reach_the_reconciler hrun).1 es _ _ _ [] rfl covered hwatch).1⟩

open GapExample in
/-- **A gap is lost when sixteen others wait** — after the reconciler has worked off the channel the
account is still tracked, and nobody was told. -/
theorem gap_lost_when_channel_is_full : ∃ es s before client gap watched after pk,
    (gapMachine fun _ => false).Run es s ∧
      es = before ++ .disconnected client gap watched :: after ∧ pk ∈ watched ∧
      s.reconciler = .idle ∧ s.channel = [] ∧ (s.keys pk).tracked = true ∧
      ¬(GapSettled before.length gap pk after ∨ s.Pending before.length gap pk) := by
  obtain ⟨es₀, hes₀⟩ := twoWatched_run
  obtain ⟨es, channel, hes, hlen, hgaps⟩ := filled_run hes₀.of_guarded gapChannelCapacity le_rfl
  have hstep : GapStep (fun _ => false) es (resting twoWatched channel) _ _ :=
    .disconnect 10 (by decide) mem_tracked rfl
  have hdrop : (resting twoWatched channel).disconnect es.length 10
      ⟨0, (resting twoWatched channel).uncovered 10 [covered, bare]⟩ =
      ⟨twoWatched, [⟨10, some [covered]⟩], [], channel, .idle, 0⟩ := by
    rw [uncovered_all]
    simp [GapState.disconnect, GapState.trySend, resting, hlen]
  have hrun := hes.step hstep
  obtain ⟨es', hsil, hdrain⟩ := drained_run hgaps (hdrop ▸ hrun)
  refine ⟨_, _, es, _, _, _, es', covered, hdrain, List.append_assoc es _ es',
    covered_watched channel, rfl, rfl, ?_, ?_⟩
  · exact congrArg KeyState.tracked twoWatched_covered
  · rintro ((⟨e, he, hreps⟩ | ⟨e, he, hrecs⟩) | (⟨hmem, -⟩ | ⟨_, _, hevic, -⟩))
    · cases (hsil e he).1.symm.trans hreps
    · cases ((hsil e he).2 _ _).symm.trans hrecs
    · exact absurd hmem List.not_mem_nil
    · cases hevic

end Magicblock.Provider
