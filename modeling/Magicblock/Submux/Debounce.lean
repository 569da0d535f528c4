import Magicblock.Provider.Types

/-!
# Submux/Debounce — updates of an account that come too often

For each account `DebounceState` keeps the times of the last arrivals.  If they follow each other
within the debounce interval, updates are held back: at most one is forwarded in an interval, and
the one with the highest slot is pending until then.  A flusher forwards what is pending and due.
-/

namespace Magicblock.Submux

abbrev Instant := ℕ

inductive DebounceState
  | disabled (pubkey : Pubkey) (arrivals : List Instant)
  | enabled (pubkey : Pubkey) (arrivals : List Instant) (nextAllowedForward : Instant)
      (pending : Option SubscriptionUpdate)
  deriving DecidableEq

namespace DebounceState

@[simp]
def maybeEnable (now : Instant) : DebounceState → DebounceState
  | .disabled pubkey arrivals => .enabled pubkey arrivals now none
  | state => state

@[simp]
def maybeDisable : DebounceState → DebounceState
  | .enabled pubkey arrivals _ _ => .disabled pubkey arrivals
  | state => state

@[simp]
def arrivals : DebounceState → List Instant
  | .disabled _ arrivals => arrivals
  | .enabled _ arrivals _ _ => arrivals

@[simp]
def setArrivals (arrivals : List Instant) : DebounceState → DebounceState
  | .disabled pubkey _ => .disabled pubkey arrivals
  | .enabled pubkey _ nextAllowedForward pending =>
    .enabled pubkey arrivals nextAllowedForward pending

def pending : DebounceState → Option SubscriptionUpdate
  | .disabled _ _ => none
  | .enabled _ _ _ pending => pending

/-- When the next update may be forwarded, while debouncing is enabled. -/
def next : DebounceState → Option Instant
  | .disabled _ _ => none
  | .enabled _ _ nextAllowedForward _ => some nextAllowedForward

section

variable {arrivals : List Instant} {pending : Option SubscriptionUpdate}

@[simp]
theorem pending_disabled : (disabled pk arrivals).pending = none := rfl

@[simp]
theorem pending_enabled : (enabled pk arrivals nextAllowedForward pending).pending = pending := rfl

@[simp]
theorem next_disabled : (disabled pk arrivals).next = none := rfl

@[simp]
theorem next_enabled :
    (enabled pk arrivals nextAllowedForward pending).next = some nextAllowedForward := rfl

end

end DebounceState

/-- The windows of a mux, in the unit of its instants, and the accounts it does not debounce. -/
structure MuxConfig where
  dedupWindow : ℕ
  debounceInterval : ℕ
  debounceDetectionWindow : ℕ
  neverDebounce : List Pubkey

namespace MuxConfig

variable (config : MuxConfig)

def allowedInDebounceWindowCount : ℕ := config.debounceDetectionWindow / config.debounceInterval

/-- Old arrivals are dropped, and the arrival is added. -/
def arrive (now : Instant) (arrivals : List Instant) : List Instant :=
  let recent := arrivals.dropWhile
    (fun front => decide (config.debounceDetectionWindow < now - front))
    ++ [now]
  recent.drop (recent.length - config.allowedInDebounceWindowCount)

/-- Arrivals that come too often. -/
def tooFrequent (arrivals : List Instant) : Bool :=
  decide (config.allowedInDebounceWindowCount ≤ arrivals.length) && (arrivals.zip arrivals.tail).all
      fun (prev, curr) => decide (curr - prev ≤ config.debounceInterval)

/-- The update with the higher slot; the one that arrives, if they are equal. -/
def selectUpdate (pending : Option SubscriptionUpdate) (update : SubscriptionUpdate) :
    SubscriptionUpdate :=
  match pending with
  | some pending => if update.slot < pending.slot then pending else update
  | none => update

/-- **`handle_debounce_and_maybe_forward`**: the state of the account after an update, and what is
forwarded. -/
def handleDebounceAndMaybeForward (state : Option DebounceState) (update : SubscriptionUpdate)
    (now : Instant) : DebounceState × Option SubscriptionUpdate :=
  let state := state.getD (.disabled update.pubkey [])
  let arrivals := config.arrive now state.arrivals
  let selected := selectUpdate state.pending update
  -- disabling discards the pending update, which has been considered before
  let state :=
    if config.tooFrequent arrivals then (state.setArrivals arrivals).maybeEnable now
    else (state.setArrivals arrivals).maybeDisable
  match state with
  | .disabled pubkey arrivals => (.disabled pubkey arrivals, some selected)
  | .enabled pubkey arrivals nextAllowedForward _ =>
    if nextAllowedForward ≤ now then
      (.enabled pubkey arrivals (now + config.debounceInterval) none, some selected)
    else (.enabled pubkey arrivals nextAllowedForward (some selected), none)

/-- The flusher takes what is pending, if it is due. -/
def flush (now : Instant) : DebounceState → DebounceState × Option SubscriptionUpdate
  | .enabled pubkey arrivals nextAllowedForward (some update) =>
    if nextAllowedForward ≤ now then
      (.enabled pubkey arrivals (now + config.debounceInterval) none, some update)
    else (.enabled pubkey arrivals nextAllowedForward (some update), none)
  | state => (state, none)

/-- **`should_forward_dedup`**: the cache after an update at `now`, and whether it passes. -/
def shouldForwardDedup (cache : Pubkey × Slot → Option Instant) (key : Pubkey × Slot)
    (now : Instant) : (Pubkey × Slot → Option Instant) × Bool :=
  match cache key with
  | some last =>
    if config.dedupWindow < now - last then (Function.update cache key (some now), true)
    else (cache, false)
  | none => (Function.update cache key (some now), true)

def pruneDedup (cache : Pubkey × Slot → Option Instant) (now : Instant) :
    Pubkey × Slot → Option Instant :=
  fun key => (cache key).filter fun last => decide (now - last ≤ config.dedupWindow)

/-! ### What an update does to the state of its account -/

variable {config}

theorem slot_selectUpdate :
    ((selectUpdate pending update).slot : WithBot Slot) =
      max (pending.elim ⊥ fun p => (p.slot : WithBot Slot)) update.slot := by
  cases pending with
  | none => simp [selectUpdate]
  | some p =>
    simp only [selectUpdate, Option.elim_some]
    split_ifs with hslot
    · exact (max_eq_left (WithBot.coe_le_coe.mpr hslot.le)).symm
    · exact (max_eq_right (WithBot.coe_le_coe.mpr (not_lt.mp hslot))).symm

theorem pubkey_selectUpdate (h : ∀ p, pending = some p → p.pubkey = update.pubkey) :
    (selectUpdate pending update).pubkey = update.pubkey := by
  cases pending with
  | none => rfl
  | some p =>
    simp only [selectUpdate]
    split_ifs
    · exact h p rfl
    · rfl

/-- What has been pending for an account, and from when on an update may be forwarded. -/
def pendingOf (state : Option DebounceState) : Option SubscriptionUpdate :=
  state.bind DebounceState.pending

def nextOf (state : Option DebounceState) : Option Instant := state.bind DebounceState.next

@[simp]
theorem pendingOf_none : pendingOf none = none := rfl

@[simp]
theorem pendingOf_some (state : DebounceState) : pendingOf (some state) = state.pending := rfl

@[simp]
theorem nextOf_none : nextOf none = none := rfl

@[simp]
theorem nextOf_some (state : DebounceState) : nextOf (some state) = state.next := rfl

/-- **An update is forwarded, or pending** — with what was pending before.  While debouncing is
enabled it is forwarded when it is due, and then the next one an interval later. -/
theorem handleDebounceAndMaybeForward_cases
    (h : config.handleDebounceAndMaybeForward state update now = (state', forwarded)) :
    (forwarded = some (selectUpdate (pendingOf state) update) ∧ state'.pending = none ∧
      (state'.next = none ∨ state'.next = some (now + config.debounceInterval) ∧
        ∀ next, nextOf state = some next → next ≤ now)) ∨
    (forwarded = none ∧ state'.pending = some (selectUpdate (pendingOf state) update) ∧
      ∃ next, nextOf state = some next ∧ state'.next = some next) := by
  simp only [handleDebounceAndMaybeForward] at h
  rcases state with _ | ⟨pk, arrivals⟩ | ⟨pk, arrivals, next, pending⟩
  · by_cases hfreq : config.tooFrequent (config.arrive now [])
    · simp [hfreq] at h
      simp [← h.1, ← h.2]
    · simp [hfreq] at h
      simp [← h.1, ← h.2]
  · by_cases hfreq : config.tooFrequent (config.arrive now arrivals)
    · simp [hfreq] at h
      simp [← h.1, ← h.2]
    · simp [hfreq] at h
      simp [← h.1, ← h.2]
  · by_cases hfreq : config.tooFrequent (config.arrive now arrivals)
    · by_cases hdue : next ≤ now
      · simp [hfreq, hdue] at h
        simp [← h.1, ← h.2, hdue]
      · simp [hfreq, hdue] at h
        simp [← h.1, ← h.2]
    · simp [hfreq] at h
      simp [← h.1, ← h.2]

/-- The flusher forwards what is pending when it is due, and then the next one an interval later. -/
theorem flush_cases (h : config.flush now state = (state', forwarded)) :
    (∃ update next, forwarded = some update ∧ state.pending = some update ∧ state.next = some next ∧
      next ≤ now ∧ state'.pending = none ∧ state'.next = some (now + config.debounceInterval)) ∨
    (forwarded = none ∧ state' = state ∧ ∀ next, state.next = some next → state.pending ≠ none →
      now < next) := by
  rcases state with ⟨pk, arrivals⟩ | ⟨pk, arrivals, next, _ | update⟩
  · obtain ⟨rfl, rfl⟩ := Prod.mk.inj h
    simp
  · obtain ⟨rfl, rfl⟩ := Prod.mk.inj h
    simp
  · by_cases hdue : next ≤ now
    · simp only [flush, if_pos hdue] at h
      obtain ⟨rfl, rfl⟩ := Prod.mk.inj h
      simp [hdue]
    · simp only [flush, if_neg hdue] at h
      obtain ⟨rfl, rfl⟩ := Prod.mk.inj h
      simp [not_le.mp hdue]

end MuxConfig

end Magicblock.Submux
