import Magicblock.Foundations.History
import Magicblock.Submux.Debounce

/-!
# Provider/Subscriptions — who owns a subscription, and which accounts are tracked

The provider keeps two records of its account subscriptions: an ownership map that counts, for each
pubkey, the references taken for each reason, and the set `SubscribedAccounts`.  Nine operations
write them, in different orders, with calls of the pubsub client between the writes.  Each holds the
lock of its pubkey from its first read to its last write.

`SubscriptionStage.advance` is what the operation that holds the lock does from one await to the
next; what the client answers is its input.
-/

namespace Magicblock.Provider

open Function (update)

open Submux (Instant)

inductive SubscriptionReason
  | directAccount
  | delegationRecord
  | programData
  | undelegationTracking
  | ataProjection
  deriving DecidableEq

instance : Fintype SubscriptionReason where
  elems :=
    {.directAccount, .delegationRecord, .programData, .undelegationTracking, .ataProjection}
  complete reason := by cases reason <;> decide

/-! ### The ownership of one pubkey -/

/-- The references by reason; the map has no key for a reason with none. -/
structure SubscriptionOwnership where
  reasons : SubscriptionReason → ℕ
  recoveredAt : Option Instant

namespace SubscriptionOwnership

def new : SubscriptionOwnership := ⟨fun _ => 0, none⟩

def acquire (own : SubscriptionOwnership) (reason : SubscriptionReason) : SubscriptionOwnership :=
  { own with reasons := update own.reasons reason (own.reasons reason + 1) }

def contains (own : SubscriptionOwnership) (reason : SubscriptionReason) : Bool :=
  own.reasons reason != 0

-- A vacant reason stays vacant: `0 - 1 = 0`.
def release (own : SubscriptionOwnership) (reason : SubscriptionReason) : SubscriptionOwnership :=
  { own with reasons := update own.reasons reason (own.reasons reason - 1) }

def releaseAll (own : SubscriptionOwnership) (reason : SubscriptionReason) (now : Instant) :
    SubscriptionOwnership × ℕ :=
  let count := own.reasons reason
  let left := { own with reasons := update own.reasons reason 0 }
  if reason = .undelegationTracking ∧ 0 < count ∧ left.contains .directAccount then
    ({ left with recoveredAt := some now }, count)
  else
    (left, count)

def isEmpty (own : SubscriptionOwnership) : Bool :=
  decide (∀ reason, own.reasons reason = 0)

/-- What a failed unsubscribe puts back. -/
def restore (owned : Option SubscriptionOwnership) (reason : SubscriptionReason) (count : ℕ) :
    Option SubscriptionOwnership :=
  if owned.all isEmpty then
    some ((fun own => own.acquire reason)^[count] (owned.getD new))
  else
    owned

/-- An eviction leaves the account in place: it is being undelegated, or an undelegation completed
since the gap. -/
def keepsWatch (own : SubscriptionOwnership) (detectedAt : Option Instant) : Bool :=
  own.contains .undelegationTracking ||
    detectedAt.any fun gap => own.recoveredAt.any fun recovered => decide (gap ≤ recovered)

variable {own : SubscriptionOwnership}

theorem isEmpty_iff : own.isEmpty = true ↔ own.reasons = 0 := by
  simp [isEmpty, funext_iff]

theorem isEmpty_eq_false_iff : own.isEmpty = false ↔ own.reasons ≠ 0 := by
  rw [ne_eq, ← isEmpty_iff, Bool.not_eq_true]

theorem isEmpty_acquire : (own.acquire reason).isEmpty = false := by
  rw [isEmpty_eq_false_iff]
  exact fun h => absurd (congrFun h reason) (by simp [acquire])

theorem reasons_iterate_acquire :
    ((fun own => own.acquire reason)^[count] own).reasons =
      update own.reasons reason (own.reasons reason + count) := by
  induction count generalizing own with
  | zero => simp
  | succ n ih =>
    rw [Function.iterate_succ_apply, ih]
    simp [acquire, Nat.add_comm 1, Nat.add_assoc]

theorem restore_none (reason : SubscriptionReason) (count : ℕ) :
    ∃ own, restore none reason count = some own ∧ own.reasons = Pi.single reason count := by
  refine ⟨_, rfl, ?_⟩
  rw [reasons_iterate_acquire]
  funext r
  simp [new, Pi.single, Function.update_apply]

@[simp] theorem reasons_releaseAll (now : Instant) :
    (own.releaseAll reason now).1.reasons = update own.reasons reason 0 := by
  simp only [releaseAll]
  split <;> rfl

@[simp] theorem count_releaseAll : (own.releaseAll reason now).2 = own.reasons reason := by
  simp only [releaseAll]
  split <;> rfl

/-- An entry with one reference left holds it for the reason released last. -/
theorem reasons_of_isEmpty_release (hne : own.isEmpty = false)
    (hemp : (own.release reason).isEmpty = true) : own.reasons = Pi.single reason 1 := by
  rw [isEmpty_iff] at hemp
  rw [isEmpty_eq_false_iff] at hne
  have hoth : ∀ r, r ≠ reason → own.reasons r = 0 := fun r hr => by
    simpa [release, hr] using congrFun hemp r
  have hself : own.reasons reason - 1 = 0 := by
    simpa [release] using congrFun hemp reason
  have hpos : own.reasons reason ≠ 0 := fun h0 => hne <| funext fun r => by
    by_cases hr : r = reason
    · rw [hr, h0, Pi.zero_apply]
    · exact hoth r hr
  funext r
  by_cases hr : r = reason
  · rw [hr, Pi.single_eq_same]
    omega
  · rw [Pi.single_eq_of_ne hr, hoth r hr]

theorem reasons_of_isEmpty_releaseAll (hemp : (own.releaseAll reason now).1.isEmpty = true) :
    own.reasons = Pi.single reason (own.reasons reason) := by
  rw [isEmpty_iff, reasons_releaseAll] at hemp
  funext r
  by_cases hr : r = reason
  · rw [hr, Pi.single_eq_same]
  · rw [Pi.single_eq_of_ne hr]
    simpa [hr] using congrFun hemp r

end SubscriptionOwnership

/-! ### Tracking -/

namespace SubscribedAccounts

/-- `add` and `remove` leave internally managed pubkeys alone. -/
def add (managed tracked : Bool) : Bool := tracked || !managed

def remove (managed tracked : Bool) : Bool := tracked && managed

@[simp] theorem add_false : add false tracked = true := by simp [add]

@[simp] theorem add_true : add true tracked = tracked := by simp [add]

@[simp] theorem remove_false (tracked : Bool) : remove false tracked = false := by simp [remove]

@[simp] theorem remove_true : remove true tracked = tracked := by simp [remove]

end SubscribedAccounts

/-! ### The operations -/

inductive SubscriptionReleaseMode
  | single
  | all
  deriving DecidableEq

inductive SubscriptionOp
  /-- `acquire_subscription_with_mode`; `ensure_subscription` skips a reason that is held. -/
  | acquire (reason : SubscriptionReason) (skipExistingReason : Bool)
  | release (reason : SubscriptionReason) (mode : SubscriptionReleaseMode)
  | releaseSilently (reason : SubscriptionReason)
  /-- `unsubscribe_locked`, by a caller or by the guard of an account eviction. -/
  | unsubscribe
  | forget (reason : SubscriptionReason)
  /-- The reconciler on a pubkey that a client misses. -/
  | reconcileMissing
  /-- The reconciler on a pubkey that is not tracked. -/
  | reconcileExtra
  | evictUncovered (detectedAt : Option Instant)
  deriving DecidableEq

/-- Where the operation that holds the lock awaits. -/
inductive SubscriptionStage
  | entered (op : SubscriptionOp)
  | subscribing (reason : SubscriptionReason)
  | recording (reason : SubscriptionReason)
  | unsubscribing (reason : SubscriptionReason) (mode : SubscriptionReleaseMode) (count : ℕ)
  | unsubscribingSilently (reason : SubscriptionReason) (count : ℕ)
  | restoring (reason : SubscriptionReason) (count : ℕ)
  | closing
  | forgetting (reason : SubscriptionReason)
  | resubscribing
  | judging (detectedAt : Option Instant)
  /-- No longer tracked; about to remove the entry and, if stale, to report the account. -/
  | dropping (stale : Bool)
  | reporting
  | clearing
  deriving DecidableEq

/-- A call of the client, or a send into the channel of stale accounts. -/
inductive CallResult
  | ok
  /-- `AccountSubscriptionDoesNotExist`. -/
  | doesNotExist
  | failed
  deriving DecidableEq

/-- `SubscriptionReconciliationSnapshot` at one pubkey: is it in the intersection, and in the
union, of what the connected clients hold? -/
structure ReconciliationSnapshot where
  ensured : Bool
  covered : Bool
  deriving DecidableEq

/-- What an operation learns from outside when it resumes. -/
structure ClientAnswer where
  call : CallResult
  snapshot : Option ReconciliationSnapshot
  now : Instant
  deriving DecidableEq

structure KeyState where
  tracked : Bool
  owned : Option SubscriptionOwnership
  /-- The operation that holds the lock of the pubkey. -/
  stage : Option SubscriptionStage

def KeyState.new : KeyState := ⟨false, none, none⟩

/-- What a section of an operation did. -/
inductive KeyEvent
  | quiet
  /-- A reference was recorded, in a new entry. -/
  | created (reason : SubscriptionReason)
  | acquired (reason : SubscriptionReason)
  /-- A release returned, whether or not the reason was held. -/
  | released (reason : SubscriptionReason) (mode : SubscriptionReleaseMode)
  /-- A release was undone after its unsubscribe failed. -/
  | rolledBack (reason : SubscriptionReason)
  | kept (recoveredAt : Option Instant)
  | dropped
  /-- The account was sent to the channel of stale accounts. -/
  | reported
  deriving DecidableEq

open SubscribedAccounts SubscriptionOwnership

/-- The sections that start an operation. -/
def SubscriptionOp.enter (managed : Bool) (answer : ClientAnswer) (key : KeyState) :
    SubscriptionOp → KeyEvent × KeyState
  | .acquire reason skipExistingReason =>
    match key.owned with
    | some existing =>
      if !skipExistingReason || !existing.contains reason then
        (.acquired reason, ⟨add managed key.tracked, some (existing.acquire reason), none⟩)
      else
        (.quiet, ⟨add managed key.tracked, some existing, none⟩)
    | none => (.quiet, { key with stage := some (.subscribing reason) })
  | .release reason mode =>
    if managed then
      (.released reason mode, { key with stage := none })
    else
      match key.owned with
      | none => (.released reason mode, { key with stage := none })
      | some existing =>
        let released := match mode with
          | .single => (existing.release reason, 1)
          | .all => existing.releaseAll reason answer.now
        if released.1.isEmpty then
          (.quiet,
            { key with owned := none, stage := some (.unsubscribing reason mode released.2) })
        else
          (.released reason mode, { key with owned := some released.1, stage := none })
  | .releaseSilently reason =>
    match key.owned with
    | none => (.released reason .all, { key with stage := none })
    | some existing =>
      let released := existing.releaseAll reason answer.now
      if released.2 = 0 then
        (.released reason .all, { key with owned := some released.1, stage := none })
      else if released.1.isEmpty then
        (.quiet,
          { key with owned := none, stage := some (.unsubscribingSilently reason released.2) })
      else
        (.released reason .all, { key with owned := some released.1, stage := none })
  | .unsubscribe =>
    if managed || !key.tracked then
      (.quiet, { key with stage := none })
    else
      (.quiet, { key with stage := some .closing })
  | .forget reason =>
    match key.owned with
    | none => (.released reason .single, { key with stage := none })
    | some existing =>
      let left := existing.release reason
      if left.isEmpty then
        (.quiet, { key with owned := none, stage := some (.forgetting reason) })
      else
        (.released reason .single, { key with owned := some left, stage := none })
  | .reconcileMissing =>
    if key.tracked && answer.snapshot.any (fun snapshot => !snapshot.ensured) then
      (.quiet, { key with stage := some .resubscribing })
    else
      (.quiet, { key with stage := none })
  | .reconcileExtra =>
    if !key.tracked && answer.snapshot.any (·.covered) then
      (.quiet, { key with stage := some .clearing })
    else
      (.quiet, { key with stage := none })
  | .evictUncovered detectedAt =>
    if !key.tracked || (detectedAt.isNone && answer.snapshot.any (·.covered)) then
      (.quiet, { key with stage := none })
    else
      (.quiet, { key with stage := some (.judging detectedAt) })

/-- **One section of an operation.** -/
def SubscriptionStage.advance (managed : Bool) (answer : ClientAnswer) (key : KeyState) :
    SubscriptionStage → KeyEvent × KeyState
  | .entered op => op.enter managed answer key
  | .subscribing reason =>
    match answer.call with
    | .ok => (.quiet, ⟨add managed key.tracked, key.owned, some (.recording reason)⟩)
    | _ => (.quiet, { key with stage := none })
  | .recording reason =>
    match key.owned with
    | none => (.created reason, ⟨key.tracked, some (new.acquire reason), none⟩)
    | some existing => (.acquired reason, ⟨key.tracked, some (existing.acquire reason), none⟩)
  | .unsubscribing reason mode count =>
    match answer.call with
    | .ok => (.released reason mode, ⟨remove managed key.tracked, key.owned, none⟩)
    | _ => (.quiet, { key with stage := some (.restoring reason count) })
  | .unsubscribingSilently reason count =>
    match answer.call with
    | .failed => (.quiet, { key with stage := some (.restoring reason count) })
    | _ => (.released reason .all, ⟨remove managed key.tracked, key.owned, none⟩)
  | .restoring reason count =>
    (.rolledBack reason, ⟨key.tracked, restore key.owned reason count, none⟩)
  | .closing =>
    match answer.call with
    | .failed => (.quiet, { key with stage := none })
    | _ => (.quiet, ⟨remove managed key.tracked, key.owned, some (.dropping false)⟩)
  | .forgetting reason =>
    (.released reason .single, ⟨remove managed key.tracked, key.owned, none⟩)
  | .resubscribing =>
    if answer.snapshot.any (·.covered) then
      (.quiet, { key with stage := none })
    else
      (.quiet, { key with stage := some (.judging none) })
  | .judging detectedAt =>
    if key.owned.any (·.keepsWatch detectedAt) then
      (.kept (key.owned.bind (·.recoveredAt)), { key with stage := none })
    else
      (.quiet, ⟨remove managed key.tracked, key.owned, some (.dropping true)⟩)
  | .dropping stale =>
    (.dropped, ⟨key.tracked, none, if stale then some .reporting else none⟩)
  | .reporting =>
    (if answer.call = .ok then .reported else .quiet, { key with stage := none })
  | .clearing => (.quiet, { key with stage := none })

/-! ### Runs -/

/-- What can happen to a pubkey: somebody takes its lock, or who holds it goes on. -/
inductive KeyStep (managed : Bool) : KeyState → KeyEvent → KeyState → Prop
  | lock (op : SubscriptionOp) :
      key.stage = none → KeyStep managed key .quiet { key with stage := some (.entered op) }
  | advance {stage : SubscriptionStage} (answer : ClientAnswer) :
      key.stage = some stage →
      KeyStep managed key (stage.advance managed answer key).1 (stage.advance managed answer key).2

/-- Any number of tasks, each at work on some pubkey. -/
def subscriptionMachine (managed : Pubkey → Bool) : Machine (Pubkey → KeyState) (Pubkey × KeyEvent)
    where
  start keys := keys = fun _ => KeyState.new
  step _ keys event keys' := ∃ key',
    KeyStep (managed event.1) (keys event.1) event.2 key' ∧ keys' = update keys event.1 key'

end Magicblock.Provider
