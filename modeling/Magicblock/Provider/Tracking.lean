import Magicblock.Provider.Subscriptions

/-!
# Provider/Tracking — ownership and tracking agree

`KeySound` says, for each place an operation can await at, what the two records of a pubkey look
like; an operation that holds the lock is the only one to write them, so one section at a time
suffices.  The counts of an entry are compared with the history of the pubkey since its entry was
created.
-/

namespace Magicblock.Provider

open SubscriptionStage SubscriptionReleaseMode

open Function (update update_apply update_eq_self update_self)

open Submux (Instant)
open SubscribedAccounts SubscriptionOwnership

/-! ### References taken and given back -/

/-- What a release gives back of the references held for its reason: none of a reason that is not
held, and all of them if all are released. -/
def SubscriptionReleaseMode.givesBack (mode : SubscriptionReleaseMode) (held : ℕ) : ℕ :=
  match mode with
  | .single => if held = 0 then 0 else 1
  | .all => held

namespace KeyEvent

def taken (reason : SubscriptionReason) : KeyEvent → ℕ
  | created r => if r = reason then 1 else 0
  | acquired r => if r = reason then 1 else 0
  | _ => 0

/-- A release that was rolled back gives nothing back. -/
def givenBack (reason : SubscriptionReason) (held : ℕ) : KeyEvent → ℕ
  | released r mode => if r = reason then mode.givesBack held else 0
  | _ => 0

/-- The event is the return of a release of the reason. -/
def isRelease (reason : SubscriptionReason) : KeyEvent → Bool
  | released r _ | rolledBack r => decide (r = reason)
  | _ => false

end KeyEvent

/-- The references taken and given back in a history; what a call gives back is counted from what
was taken and not given back before it. -/
def references (reason : SubscriptionReason) (events : List KeyEvent) : ℕ × ℕ :=
  events.foldl (fun (taken, back) event =>
    (taken + event.taken reason, back + event.givenBack reason (taken - back))) (0, 0)

def taken (reason : SubscriptionReason) (events : List KeyEvent) : ℕ :=
  (references reason events).1

def givenBack (reason : SubscriptionReason) (events : List KeyEvent) : ℕ :=
  (references reason events).2

/-- The history of an entry begins where it is created. -/
def remember (events : List KeyEvent) : KeyEvent → List KeyEvent
  | .created reason => [.created reason]
  | event => events ++ [event]

/-- What happened to a pubkey since its entry was created. -/
def sinceCreated (pubkey : Pubkey) (history : List (Pubkey × KeyEvent)) : List KeyEvent :=
  history.foldl (fun events e => if e.1 = pubkey then remember events e.2 else events) []

theorem sinceCreated_concat (hist : List (Pubkey × KeyEvent)) : sinceCreated pk
    (hist ++ [e]) = if e.1 = pk then remember (sinceCreated pk hist) e.2
      else sinceCreated pk hist := by
  simp [sinceCreated]

@[simp] theorem taken_concat : taken reason (events ++ [event]) = taken reason events +
      event.taken reason := by
  simp [taken, references]

@[simp] theorem givenBack_concat : givenBack reason (events ++ [event]) = givenBack reason events +
      event.givenBack reason (taken reason events - givenBack reason events) := by
  simp [givenBack, taken, references]

/-- The counts are the references taken and not given back. -/
def Balanced (counts : SubscriptionReason → ℕ) (events : List KeyEvent) : Prop :=
  ∀ reason, counts reason + givenBack reason events = taken reason events

namespace Balanced

theorem idle (h : Balanced counts events) (htaken : ∀ r, event.taken r = 0)
    (hback : ∀ r held, event.givenBack r held = 0) : Balanced counts (events ++ [event]) := by
  intro r
  rw [taken_concat, givenBack_concat, htaken, hback]
  exact h r

theorem acquired (h : Balanced counts events) :
    Balanced (update counts reason (counts reason + 1)) (events ++ [.acquired reason]) := by
  intro r
  have hr := h r
  rw [taken_concat, givenBack_concat, update_apply]
  by_cases heq : r = reason
  · subst heq
    simp only [if_true, KeyEvent.givenBack, KeyEvent.taken]
    omega
  · simpa [heq, KeyEvent.givenBack, KeyEvent.taken, Ne.symm heq] using hr

theorem created : Balanced (new.acquire reason).reasons [.created reason] := by
  intro r
  by_cases heq : r = reason
  · simp [acquire, new, givenBack, taken, references, KeyEvent.givenBack, KeyEvent.taken, heq]
  · simp [acquire, new, givenBack, taken, references, KeyEvent.givenBack, KeyEvent.taken, heq,
      Ne.symm heq]

/-- A release takes what it gives back off the count of its reason, and off no other. -/
theorem released (h : Balanced counts events) (reason : SubscriptionReason)
    (mode : SubscriptionReleaseMode) :
    Balanced (update counts reason (counts reason - mode.givesBack (counts reason)))
      (events ++ [.released reason mode]) := by
  intro r
  have hr := h r
  have hheld : taken r events - givenBack r events = counts r := by omega
  rw [taken_concat, givenBack_concat, update_apply, hheld]
  by_cases heq : r = reason
  · subst heq
    have hle : mode.givesBack (counts r) ≤ counts r := by
      cases mode with
      | single =>
        simp only [givesBack]
        split <;> omega
      | all => exact le_rfl
    simp only [if_true, KeyEvent.givenBack, KeyEvent.taken]
    omega
  · simpa [heq, KeyEvent.givenBack, KeyEvent.taken, Ne.symm heq] using hr

end Balanced

/-! ### The two records between sections -/

/-- **Ownership and tracking agree**, and the entry has the references of its history. -/
def Agrees (key : KeyState) (events : List KeyEvent) : Prop :=
  match key.owned with
  | some own => key.tracked = true ∧ own.isEmpty = false ∧ Balanced own.reasons events
  | none => key.tracked = false

/-- The records of a pubkey, by where the operation that holds its lock awaits. -/
def KeySound (key : KeyState) (events : List KeyEvent) : Prop :=
  match key.stage with
  | none => Agrees key events
  | some (.entered _) => Agrees key events
  | some (.subscribing _) => key.tracked = false ∧ key.owned = none
  | some (.recording _) => key.tracked = true ∧ key.owned = none
  | some (.unsubscribing reason _ count) | some (.unsubscribingSilently reason count)
  | some (.restoring reason count) =>
    key.tracked = true ∧ key.owned = none ∧ count ≠ 0 ∧ Balanced (Pi.single reason count) events
  | some .closing | some .resubscribing | some (.judging _) =>
    key.tracked = true ∧ Agrees key events
  | some (.forgetting _) => key.tracked = true ∧ key.owned = none
  | some (.dropping stale) => key.tracked = false ∧
    ∃ own, key.owned = some own ∧ (stale = true → own.contains .undelegationTracking = false)
  | some .reporting | some .clearing => key.tracked = false ∧ key.owned = none

variable {key : KeyState}

variable {event : KeyEvent}

/-- A section that takes and gives back nothing. -/
theorem Agrees.idle (h : Agrees key events) (htaken : ∀ r, event.taken r = 0)
    (hback : ∀ r held, event.givenBack r held = 0) (stage : Option SubscriptionStage) :
    Agrees { key with stage } (events ++ [event]) := by
  rcases key with ⟨tracked, _ | own, _⟩
  · exact h
  · exact ⟨h.1, h.2.1, h.2.2.idle htaken hback⟩

theorem Agrees.quiet (h : Agrees key events) (stage : Option SubscriptionStage) :
    Agrees { key with stage } (events ++ [.quiet]) :=
  h.idle (fun _ => rfl) (fun _ _ => rfl) stage

theorem reasons_release : (release own reason).reasons = update own.reasons reason
    (own.reasons reason - single.givesBack (own.reasons reason)) := by
  have hone : own.reasons reason - 1 =
      own.reasons reason - single.givesBack (own.reasons reason) := by
    simp only [givesBack]
    split <;> omega
  rw [← hone, release]

theorem reasons_releaseAll_eq (now : Instant) : (releaseAll own reason now).1.reasons =
    update own.reasons reason (own.reasons reason - all.givesBack (own.reasons reason)) := by
  rw [reasons_releaseAll, givesBack, Nat.sub_self]

/-- An entry with references left after a release. -/
theorem Agrees.released (h : Agrees ⟨tracked, some own, stage⟩ events)
    (mode : SubscriptionReleaseMode)
    (hleft : left.reasons =
      update own.reasons reason (own.reasons reason - mode.givesBack (own.reasons reason)))
    (hne : left.isEmpty = false) : Agrees ⟨tracked, some left, none⟩
      (events ++ [.released reason mode]) :=
  ⟨h.1, hne, hleft ▸ h.2.2.released reason mode⟩

/-! ### One section -/

section

variable (answer : ClientAnswer) (reason : SubscriptionReason)

include answer reason

theorem acquire_sound (skip : Bool) (h : Agrees key events) :
    KeySound ((SubscriptionOp.acquire reason skip).enter false answer key).2
      (remember events ((SubscriptionOp.acquire reason skip).enter false answer key).1) := by
  simp only [SubscriptionOp.enter, add_false]
  rcases key with ⟨tracked, _ | own, stage⟩
  · exact ⟨h, rfl⟩
  · obtain ⟨-, hne, hbal⟩ := h
    simp only []
    split
    · exact ⟨rfl, isEmpty_acquire, hbal.acquired⟩
    · exact ⟨rfl, hne, hbal.idle (fun _ => rfl) (fun _ _ => rfl)⟩

theorem release_sound (mode : SubscriptionReleaseMode) (h : Agrees key events) :
    KeySound ((SubscriptionOp.release reason mode).enter false answer key).2
      (remember events ((SubscriptionOp.release reason mode).enter false answer key).1) := by
  simp only [SubscriptionOp.enter, Bool.false_eq_true, if_false]
  rcases key with ⟨tracked, _ | own, stage⟩
  · exact h
  · have ⟨htrk, hne, hbal⟩ := h
    cases mode with
    | single =>
      simp only []
      split
      · rename_i hemp
        have hone := reasons_of_isEmpty_release hne hemp
        exact ⟨htrk, rfl, one_ne_zero, (hone ▸ hbal).idle (fun _ => rfl) (fun _ _ => rfl)⟩
      · rename_i hleft
        exact h.released .single reasons_release (by simpa using hleft)
    | all =>
      simp only [count_releaseAll]
      split
      · rename_i hemp
        have hall := reasons_of_isEmpty_releaseAll hemp
        refine ⟨htrk, rfl, fun h0 => ?_, (hall ▸ hbal).idle (fun _ => rfl) (fun _ _ => rfl)⟩
        rw [h0, Pi.single_zero] at hall
        exact isEmpty_eq_false_iff.mp hne hall
      · rename_i hleft
        exact h.released .all (reasons_releaseAll_eq _) (by simpa using hleft)

theorem releaseSilently_sound (h : Agrees key events) :
    KeySound ((SubscriptionOp.releaseSilently reason).enter false answer key).2
      (remember events ((SubscriptionOp.releaseSilently reason).enter false answer key).1) := by
  simp only [SubscriptionOp.enter]
  rcases key with ⟨tracked, _ | own, stage⟩
  · exact h
  · have ⟨htrk, hne, hbal⟩ := h
    simp only [count_releaseAll]
    split
    · rename_i hzero
      refine h.released .all (reasons_releaseAll_eq _) ?_
      have hsame : update own.reasons reason 0 = own.reasons := by
        rw [← hzero, update_eq_self]
      rw [isEmpty_eq_false_iff, reasons_releaseAll, hsame]
      exact isEmpty_eq_false_iff.mp hne
    · rename_i hpos
      split
      · rename_i hemp
        have hall := reasons_of_isEmpty_releaseAll hemp
        exact ⟨htrk, rfl, hpos, (hall ▸ hbal).idle (fun _ => rfl) (fun _ _ => rfl)⟩
      · rename_i hleft
        exact h.released .all (reasons_releaseAll_eq _) (by simpa using hleft)

theorem forget_sound (h : Agrees key events) :
    KeySound ((SubscriptionOp.forget reason).enter false answer key).2
      (remember events ((SubscriptionOp.forget reason).enter false answer key).1) := by
  simp only [SubscriptionOp.enter]
  rcases key with ⟨tracked, _ | own, stage⟩
  · exact h
  · have ⟨htrk, hne, hbal⟩ := h
    simp only []
    split
    · exact ⟨htrk, rfl⟩
    · rename_i hleft
      exact h.released .single reasons_release (by simpa using hleft)

end

/-- The operations that begin by looking at the tracked set. -/
theorem enter_sound (op : SubscriptionOp) (h : Agrees key events) :
    KeySound (op.enter false answer key).2 (remember events (op.enter false answer key).1) := by
  cases op with
  | acquire reason skip => exact acquire_sound answer reason skip h
  | release reason mode => exact release_sound answer reason mode h
  | releaseSilently reason => exact releaseSilently_sound answer reason h
  | forget reason => exact forget_sound answer reason h
  | unsubscribe =>
    simp only [SubscriptionOp.enter]
    split
    · exact h.quiet none
    · rename_i htrk
      exact ⟨by simpa using htrk, h.quiet _⟩
  | reconcileMissing =>
    simp only [SubscriptionOp.enter]
    split
    · rename_i htrk
      exact ⟨(Bool.and_eq_true_iff.mp htrk).1, h.quiet _⟩
    · exact h.quiet none
  | reconcileExtra =>
    simp only [SubscriptionOp.enter]
    split
    · rename_i htrk
      have hnot : key.tracked = false := by
        simpa using (Bool.and_eq_true_iff.mp htrk).1
      rcases key with ⟨tracked, _ | own, stage⟩
      · exact ⟨hnot, rfl⟩
      · cases h.1.symm.trans hnot
    · exact h.quiet none
  | evictUncovered detectedAt =>
    simp only [SubscriptionOp.enter]
    split
    · exact h.quiet none
    · rename_i htrk
      have hyes : key.tracked = true := by
        simp only [Bool.or_eq_true, not_or, Bool.not_eq_true, Bool.not_eq_false'] at htrk
        exact htrk.1
      exact ⟨hyes, h.quiet _⟩

/-- The account left tracking and is owned; the entry goes next. -/
theorem Agrees.dropping (h : Agrees ⟨true, own, stage⟩ events) (stale : Bool)
    (hstale : stale = true → own.any (·.contains .undelegationTracking) = false) :
    KeySound ⟨false, own, some (.dropping stale)⟩ (events ++ [.quiet]) := by
  rcases own with _ | own
  · exact absurd (h : true = false) nofun
  · exact ⟨rfl, own, rfl, hstale⟩

theorem advance_sound (hstg : key.stage = some stage) (h : KeySound key events) :
    KeySound (stage.advance false answer key).2
      (remember events (stage.advance false answer key).1) := by
  obtain ⟨tracked, owned, stage'⟩ := key
  obtain rfl : stage' = some stage := hstg
  cases stage with
  | entered op => exact enter_sound op h
  | subscribing reason =>
    obtain ⟨htrk, howned⟩ := h
    simp only [advance, add_false]
    cases answer.call with
    | ok => exact ⟨rfl, howned⟩
    | doesNotExist | failed =>
      obtain rfl : owned = none := howned
      exact htrk
  | recording reason =>
    obtain ⟨htrk, rfl : owned = none⟩ := h
    exact ⟨htrk, isEmpty_acquire, Balanced.created⟩
  | unsubscribing reason mode count =>
    obtain ⟨htrk, rfl : owned = none, hcnt, hbal⟩ := h
    simp only [advance, remove_false]
    cases answer.call with
    | ok => rfl
    | doesNotExist | failed =>
      exact ⟨htrk, rfl, hcnt, hbal.idle (fun _ => rfl) (fun _ _ => rfl)⟩
  | unsubscribingSilently reason count =>
    obtain ⟨htrk, rfl : owned = none, hcnt, hbal⟩ := h
    simp only [advance, remove_false]
    cases answer.call with
    | ok | doesNotExist => rfl
    | failed => exact ⟨htrk, rfl, hcnt, hbal.idle (fun _ => rfl) (fun _ _ => rfl)⟩
  | restoring reason count =>
    obtain ⟨htrk, rfl : owned = none, hcnt, hbal⟩ := h
    obtain ⟨own, hown, hreasons⟩ := restore_none reason count
    simp only [advance, hown]
    refine ⟨htrk, ?_, ?_⟩
    · rw [isEmpty_eq_false_iff, hreasons]
      exact fun h0 => hcnt (Pi.single_eq_zero_iff.mp h0)
    · rw [hreasons]
      exact hbal.idle (fun _ => rfl) (fun _ _ => rfl)
  | closing =>
    obtain ⟨rfl : tracked = true, hagree⟩ := h
    simp only [advance, remove_false]
    cases answer.call with
    | ok | doesNotExist => exact hagree.dropping false nofun
    | failed => exact hagree.quiet none
  | forgetting reason =>
    obtain ⟨-, rfl : owned = none⟩ := h
    exact remove_false tracked
  | resubscribing =>
    simp only [advance]
    split
    · exact h.2.quiet none
    · exact ⟨h.1, h.2.quiet _⟩
  | judging detectedAt =>
    obtain ⟨rfl : tracked = true, hagree⟩ := h
    simp only [advance, remove_false]
    split
    · exact hagree.idle (fun _ => rfl) (fun _ _ => rfl) none
    · rename_i hkeeps
      refine hagree.dropping true fun _ => ?_
      rcases owned with _ | own
      · rfl
      · simp only [Option.any_some, keepsWatch, Bool.or_eq_true, not_or, Bool.not_eq_true] at hkeeps
        exact hkeeps.1
  | dropping stale =>
    obtain ⟨htrk, -⟩ := h
    cases stale with
    | false => exact htrk
    | true => exact ⟨htrk, rfl⟩
  | reporting | clearing =>
    obtain ⟨htrk, rfl : owned = none⟩ := h
    exact htrk

theorem KeyStep.sound (h : KeySound key events)
    (hstep : KeyStep false key event key') : KeySound key' (remember events event) := by
  cases hstep with
  | lock op hfree =>
    simp only [KeySound, hfree] at h
    exact h.quiet _
  | advance answer hstg => exact advance_sound hstg h

/-! ### Runs -/

variable {managed : Pubkey → Bool} {hist : List (Pubkey × KeyEvent)} {keys : Pubkey → KeyState}

theorem sound_of_subscription_run (h : (subscriptionMachine managed).Run hist keys)
    (hmgd : managed pk = false) :
    KeySound (keys pk) (sinceCreated pk hist) := by
  refine Machine.Run.invariant ?_ ?_ h
  · rintro keys rfl
    rfl
  · rintro hist keys ⟨pk', event⟩ keys' - hsound ⟨key', hstep, rfl⟩
    rw [sinceCreated_concat]
    by_cases hpk : pk' = pk
    · obtain rfl := hpk
      simp only [update_self, if_true]
      simp only [hmgd] at hstep
      exact hstep.sound hsound
    · simp only [Function.update_of_ne (Ne.symm hpk), hpk, if_false]
      exact hsound

/-- The sections of reconciliation and of evictions after a gap. -/
def SubscriptionStage.repairs : SubscriptionStage → Bool
  | .entered .reconcileMissing | .entered .reconcileExtra | .entered (.evictUncovered _) => true
  | .resubscribing | .judging _ | .dropping true | .reporting | .clearing => true
  | _ => false

/-- Reconciliation and eviction leave an account alone that is being undelegated. -/
theorem KeyStep.keeps_undelegating (h : KeySound key events) (hstep : KeyStep false key event key')
    (hstg : key.stage = some stage) (hrepr : stage.repairs = true)
    (howned : key.owned = some own) (hown : own.contains .undelegationTracking = true) :
    key'.tracked = key.tracked ∧ key'.owned = key.owned := by
  cases hstep with
  | lock op hfree => cases hfree.symm.trans hstg
  | advance answer hstg' =>
    cases hstg.symm.trans hstg'
    obtain ⟨tracked, owned, stage'⟩ := key
    obtain rfl : stage' = some _ := hstg
    obtain rfl : owned = some own := howned
    cases stage with
    | entered op =>
      cases op with
      | reconcileMissing | reconcileExtra | evictUncovered detectedAt =>
        simp only [SubscriptionStage.advance, SubscriptionOp.enter]
        split <;> exact ⟨rfl, rfl⟩
      | acquire | release | releaseSilently | unsubscribe | forget => cases hrepr
    | resubscribing =>
      simp only [SubscriptionStage.advance]
      split <;> exact ⟨rfl, rfl⟩
    | judging detectedAt =>
      have hkeeps : own.keepsWatch detectedAt = true := by simp [keepsWatch, hown]
      simp [SubscriptionStage.advance, hkeeps]
    | dropping stale =>
      cases stale with
      | false => cases hrepr
      | true =>
        obtain ⟨-, own', hown', hnot⟩ := h
        obtain rfl : own = own' := Option.some.inj hown'
        exact absurd hown (by simp [hnot rfl])
    | reporting | clearing => exact ⟨rfl, rfl⟩
    | subscribing | recording | unsubscribing | unsubscribingSilently | restoring | closing
    | forgetting => cases hrepr

/-- **Ownership and tracking agree whenever nobody holds the lock** — an account is tracked exactly
if it has an entry, the entry is not empty, and it counts, for each reason, the references taken
less those given back since it was created.  Reconciliation and eviction never drop an account that
is owned for undelegation tracking. -/
theorem ownership_agrees_with_tracking (h : (subscriptionMachine managed).Run hist keys)
    {pk : Pubkey} (hmgd : managed pk = false) :
    ((keys pk).stage = none →
      ((keys pk).tracked = true ↔ ∃ own, (keys pk).owned = some own) ∧
      ∀ own, (keys pk).owned = some own → own.isEmpty = false ∧
        ∀ reason, own.reasons reason + givenBack reason (sinceCreated pk hist) =
          taken reason (sinceCreated pk hist)) ∧
    ∀ stage own event keys', (keys pk).stage = some stage → stage.repairs = true →
      (keys pk).owned = some own → own.contains .undelegationTracking = true →
      (subscriptionMachine managed).step hist keys (pk, event) keys' →
      (keys' pk).tracked = (keys pk).tracked ∧ (keys' pk).owned = (keys pk).owned := by
  have hsound := sound_of_subscription_run h hmgd
  refine ⟨fun hfree => ?_, ?_⟩
  · simp only [KeySound, hfree, Agrees] at hsound
    rcases howned : (keys pk).owned with _ | own
    · simp only [howned] at hsound
      simp [hsound]
    · simp only [howned] at hsound
      obtain ⟨htrk, hne, hbal⟩ := hsound
      refine ⟨⟨fun _ => ⟨own, rfl⟩, fun _ => htrk⟩, fun own' hown' => ?_⟩
      cases hown'
      exact ⟨hne, hbal⟩
  · rintro stage own event keys' hstg hrepr howned hown ⟨key', hstep, rfl⟩
    rw [update_self]
    simp only [hmgd] at hstep
    exact hstep.keeps_undelegating hsound hstg hrepr howned hown

/-! ### One pubkey alone -/

/-- The operations on one pubkey. -/
def keyMachine (managed : Bool) : Machine KeyState KeyEvent where
  start key := key = KeyState.new
  step _ key event key' := KeyStep managed key event key'

theorem run_of_key_run {managed : Bool} (pk : Pubkey) (h : (keyMachine managed).Run es key) :
    (subscriptionMachine fun _ => managed).Run (es.map (pk, ·))
      (update (fun _ => KeyState.new) pk key) := by
  induction h with
  | start hnew =>
    obtain rfl : _ = KeyState.new := hnew
    exact .start (update_eq_self pk _)
  | step _ hstep ih =>
    rw [List.map_append]
    refine .step ih ⟨_, ?_, (Function.update_idem _ _ _).symm⟩
    rw [update_self]
    exact hstep

theorem sinceCreated_map (es : List KeyEvent) :
    sinceCreated pk (es.map (pk, ·)) = es.foldl remember [] := by
  simp [sinceCreated, List.foldl_map]

namespace TrackingExample

/-- The client answers that all went well. -/
def fine : ClientAnswer := ⟨.ok, none, 0⟩

/-- An account is watched for the projection of a token account. -/
theorem projected : (keyMachine false).Run [.quiet, .quiet, .quiet, .created .ataProjection]
    ⟨true, some (new.acquire .ataProjection), none⟩ := by
  have hstart : (keyMachine false).Run [] KeyState.new := .start rfl
  have hcre := hstart.next _ (.lock (.acquire .ataProjection false) rfl)
    |>.next _ (.advance fine rfl) |>.next _ (.advance fine rfl) |>.next _ (.advance fine rfl)
  exact hcre

/-- Then it is released, and acquired, as an account of its own. -/
theorem releasedAndAcquired : (keyMachine false).Run
    [.quiet, .quiet, .quiet, .created .ataProjection, .quiet, .released .directAccount .single,
     .quiet, .acquired .directAccount]
    ⟨true, some (((new.acquire .ataProjection).release .directAccount).acquire .directAccount),
      none⟩ := by
  have hacq := projected.next _ (.lock (.release .directAccount .single) rfl)
    |>.next _ (.advance fine rfl) |>.next _ (.lock (.acquire .directAccount false) rfl)
    |>.next _ (.advance fine rfl)
  exact hacq

/-- Or it is acquired twice as such, released once, released for the projection, and its last
release fails and is rolled back. -/
theorem rolledBack : ∃ own, (keyMachine false).Run
    [.quiet, .quiet, .quiet, .created .ataProjection, .quiet, .acquired .directAccount, .quiet,
      .acquired .directAccount, .quiet, .released .directAccount .single, .quiet,
      .released .ataProjection .all, .quiet, .quiet, .quiet, .rolledBack .directAccount]
    ⟨true, some own, none⟩ := by
  have hrun := projected.next _ (.lock (.acquire .directAccount false) rfl)
    |>.next _ (.advance fine rfl) |>.next _ (.lock (.acquire .directAccount false) rfl)
    |>.next _ (.advance fine rfl) |>.next _ (.lock (.release .directAccount .single) rfl)
    |>.next _ (.advance fine rfl) |>.next _ (.lock (.release .ataProjection .all) rfl)
    |>.next _ (.advance fine rfl) |>.next _ (.lock (.release .directAccount .single) rfl)
    |>.next _ (.advance fine rfl) |>.next _ (.advance { fine with call := .failed } rfl)
    |>.next _ (.advance fine rfl)
  exact ⟨_, hrun⟩

end TrackingExample

open TrackingExample in
/-- Three references are taken; one is released, those of the other reason are released, and the
release of the last one is rolled back. -/
theorem ownership_agrees_with_tracking_rolledBack :
    ∃ hist keys own, (subscriptionMachine fun _ => false).Run hist keys ∧
      (keys 1).tracked = true ∧ (keys 1).owned = some own ∧ own.isEmpty = false ∧
      (∀ reason, own.reasons reason + givenBack reason (sinceCreated 1 hist) =
        taken reason (sinceCreated 1 hist)) ∧
      taken .directAccount (sinceCreated 1 hist) = 2 ∧
      givenBack .directAccount (sinceCreated 1 hist) = 1 ∧
      givenBack .ataProjection (sinceCreated 1 hist) = 1 := by
  obtain ⟨own, hkey⟩ := rolledBack
  have hrun := run_of_key_run 1 hkey
  have hagree := (ownership_agrees_with_tracking hrun rfl).1 (by rw [update_self])
  have hown : (update (fun _ : Pubkey => KeyState.new) 1 ⟨true, some own, none⟩ 1).owned
      = some own := by rw [update_self]
  obtain ⟨hne, hcounts⟩ := hagree.2 own hown
  refine ⟨_, _, own, hrun, hagree.1.mpr ⟨own, hown⟩, hown, hne, hcounts, ?_⟩
  rw [sinceCreated_map]
  decide

open TrackingExample in
/-- **A release of a reason that is not held gives nothing back** — afterwards the count of the
reason is more than its acquires less its releases. -/
theorem release_not_held_gives_nothing_back :
    ∃ hist keys own, (subscriptionMachine fun _ => false).Run hist keys ∧
      (keys 1).stage = none ∧ (keys 1).owned = some own ∧
      own.reasons .directAccount +
          (sinceCreated 1 hist).countP (KeyEvent.isRelease .directAccount) ≠
        taken .directAccount (sinceCreated 1 hist) := by
  refine ⟨_, _, ((new.acquire .ataProjection).release .directAccount).acquire .directAccount,
    run_of_key_run 1 releasedAndAcquired, ?_, ?_, ?_⟩
  · rw [update_self]
  · rw [update_self]
  · rw [sinceCreated_map]
    decide

end Magicblock.Provider
