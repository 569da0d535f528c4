import Magicblock.Provider.Tracking

/-!
# Provider/Gaps — disconnects, and the accounts that lose their coverage

When a client disconnects, its reconnector computes which tracked accounts no connected client
covers any longer and hands them, with the instant, to the reconciler: through a channel that holds
sixteen gaps, by a send that does not wait.  The reconciler takes one gap at a time and evicts its
accounts one after the other, each under its lock (`evict_uncovered_subscriptions`).

All other operations on subscriptions may happen at any time, and so may any change of what the
clients cover.
-/

namespace Magicblock.Provider

open Submux (Instant)
open SubscribedAccounts SubscriptionOwnership

/-- The set of its pubkeys in the order in which it is iterated. -/
structure SubscriptionGap where
  detectedAt : Instant
  pubkeys : List Pubkey
  deriving DecidableEq

/-- A client of the mux, with the union of its reconciliation snapshot. -/
structure MuxClient where
  key : ℕ
  snapshot : Option (List Pubkey)
  deriving DecidableEq

/-- `mpsc::channel(16)`. -/
def gapChannelCapacity : ℕ := 16

def accountsWithoutLiveCoverage (clients : List MuxClient) (connectedIds : List ℕ)
    (accountSubs : List Pubkey) : List Pubkey :=
  let connectedClients := clients.filter fun client => connectedIds.contains client.key
  let covered := connectedClients.flatMap fun client => client.snapshot.getD []
  accountSubs.filter fun pubkey => !covered.contains pubkey

/-- The reconciler waits for a gap (or reconciles), or evicts: the accounts it has yet to look at,
and the one whose lock it holds. -/
inductive Reconciler
  | idle
  | evicting (id : ℕ) (gap : SubscriptionGap) (rest : List Pubkey) (current : Option Pubkey)

namespace Reconciler

/-- The gap for which the reconciler is at work on the account. -/
def gapOf (pubkey : Pubkey) : Reconciler → Option ℕ
  | evicting id _ _ (some current) => if current = pubkey then some id else none
  | _ => none

/-- The reconciler goes on when its operation on an account is done. -/
def after (pubkey : Pubkey) (key : KeyState) : Reconciler → Reconciler
  | evicting id gap rest (some current) =>
    evicting id gap rest (if current = pubkey ∧ key.stage = none then none else some current)
  | reconciler => reconciler

end Reconciler

/-- A gap is numbered by the place of its disconnect in the history. -/
structure GapState where
  keys : Pubkey → KeyState
  clients : List MuxClient
  connectedIds : List ℕ
  channel : List (ℕ × SubscriptionGap)
  reconciler : Reconciler
  clock : Instant

inductive GapEvent
  | locked (pubkey : Pubkey) (op : SubscriptionOp)
  /-- A section of an operation, with the gap if it is the reconciler's eviction for one. -/
  | advanced (pubkey : Pubkey) (answer : ClientAnswer) (event : KeyEvent) (gap : Option ℕ)
  /-- `watched` are the uncovered accounts that are directly owned. -/
  | disconnected (client : ℕ) (gap : SubscriptionGap) (watched : List Pubkey)
  | clients
  | ticked
  | received (id : ℕ)
  | began (id : ℕ) (pubkey : Pubkey)
  | finished (id : ℕ)

/-- Owned, and not for undelegation tracking. -/
def KeyState.isDirect (key : KeyState) : Bool :=
  key.owned.any fun own => !own.contains .undelegationTracking

namespace GapState

def setKey (s : GapState) (pubkey : Pubkey) (key : KeyState) : GapState :=
  { s with keys := Function.update s.keys pubkey key }

@[simp] theorem keys_setKey_self (s : GapState) (pk : Pubkey) (key : KeyState) :
    (s.setKey pk key).keys pk = key := Function.update_self _ _ _

theorem keys_setKey_of_ne (s : GapState) (key : KeyState)
    (hne : other ≠ pk) : (s.setKey pk key).keys other = s.keys other :=
  Function.update_of_ne hne _ _

@[simp] theorem channel_setKey (s : GapState) : (s.setKey pk key).channel = s.channel := rfl

@[simp] theorem reconciler_setKey (s : GapState) (pk : Pubkey) (key : KeyState) :
    (s.setKey pk key).reconciler = s.reconciler := rfl

/-- `remove` of the connected ids, and the accounts that are uncovered without the client. -/
def uncovered (s : GapState) (client : ℕ) (accountSubs : List Pubkey) : List Pubkey :=
  accountsWithoutLiveCoverage s.clients (s.connectedIds.filter (· ≠ client)) accountSubs

/-- `try_send`: nothing happens if the channel is full. -/
def trySend (s : GapState) (id : ℕ) (gap : SubscriptionGap) : List (ℕ × SubscriptionGap) :=
  if s.channel.length < gapChannelCapacity then s.channel ++ [(id, gap)] else s.channel

def disconnect (s : GapState) (id client : ℕ) (gap : SubscriptionGap) : GapState :=
  { s with
    connectedIds := s.connectedIds.filter (· ≠ client)
    channel := if gap.pubkeys.isEmpty then s.channel else s.trySend id gap }

end GapState

inductive GapStep (managed : Pubkey → Bool) (history : List GapEvent) :
    GapState → GapEvent → GapState → Prop
  | lock (pubkey : Pubkey) (op : SubscriptionOp) :
      (s.keys pubkey).stage = none → (∀ detectedAt, op ≠ .evictUncovered (some detectedAt)) →
      GapStep managed history s (.locked pubkey op)
        (s.setKey pubkey { s.keys pubkey with stage := some (.entered op) })
  | advance (pubkey : Pubkey) {stage : SubscriptionStage} (answer : ClientAnswer)
      {event : KeyEvent} {key : KeyState} :
      (s.keys pubkey).stage = some stage → answer.now = s.clock →
      stage.advance (managed pubkey) answer (s.keys pubkey) = (event, key) →
      GapStep managed history s (.advanced pubkey answer event (s.reconciler.gapOf pubkey))
        { s.setKey pubkey key with reconciler := s.reconciler.after pubkey key }
  | disconnect (client : ℕ) {accountSubs : List Pubkey} {gap : SubscriptionGap} :
      accountSubs.Nodup → (∀ pubkey, pubkey ∈ accountSubs ↔ (s.keys pubkey).tracked = true) →
      gap = ⟨s.clock, s.uncovered client accountSubs⟩ →
      GapStep managed history s
        (.disconnected client gap (gap.pubkeys.filter fun pubkey => (s.keys pubkey).isDirect))
        (s.disconnect history.length client gap)
  /-- Clients reconnect, subscribe and unsubscribe. -/
  | clients (clients : List MuxClient) (connectedIds : List ℕ) :
      GapStep managed history s .clients { s with clients, connectedIds }
  | tick (clock : Instant) : s.clock ≤ clock → GapStep managed history s .ticked { s with clock }
  | receive {id : ℕ} {gap : SubscriptionGap} {rest : List (ℕ × SubscriptionGap)} :
      s.reconciler = .idle → s.channel = (id, gap) :: rest →
      GapStep managed history s (.received id)
        { s with channel := rest, reconciler := .evicting id gap gap.pubkeys none }
  | begin {id : ℕ} {gap : SubscriptionGap} {pubkey : Pubkey} {rest : List Pubkey} :
      s.reconciler = .evicting id gap (pubkey :: rest) none → (s.keys pubkey).stage = none →
      GapStep managed history s (.began id pubkey)
        { s.setKey pubkey { s.keys pubkey with
            stage := some (.entered (.evictUncovered (some gap.detectedAt))) } with
          reconciler := .evicting id gap rest (some pubkey) }
  | finish {id : ℕ} {gap : SubscriptionGap} :
      s.reconciler = .evicting id gap [] none →
      GapStep managed history s (.finished id) { s with reconciler := .idle }

def gapMachine (managed : Pubkey → Bool) : Machine GapState GapEvent where
  start s := (∀ pubkey, s.keys pubkey = KeyState.new) ∧ s.channel = [] ∧ s.reconciler = .idle
  step := GapStep managed

/-! ### What becomes of a gap -/

namespace GapEvent

/-- The account was reported stale. -/
def reports (pubkey : Pubkey) : GapEvent → Bool
  | advanced pubkey' _ .reported _ => decide (pubkey' = pubkey)
  | _ => false

/-- The account was reported stale for a gap. -/
def reportsFor (id : ℕ) (pubkey : Pubkey) : GapEvent → Bool
  | advanced pubkey' _ .reported (some id') => decide (pubkey' = pubkey ∧ id' = id)
  | _ => false

/-- The eviction for a gap found that an undelegation of the account completed since. -/
def recovers (id : ℕ) (gap : SubscriptionGap) (pubkey : Pubkey) : GapEvent → Bool
  | advanced pubkey' _ (.kept (some recovered)) (some id') =>
    decide (pubkey' = pubkey ∧ id' = id ∧ gap.detectedAt ≤ recovered)
  | _ => false

end GapEvent

/-- **What becomes of a watched account after its disconnect**: it is reported stale, or covered
again since the gap. -/
def GapSettled (id : ℕ) (gap : SubscriptionGap) (pubkey : Pubkey) (after : List GapEvent) : Prop :=
  (∃ e ∈ after, e.reports pubkey = true) ∨ ∃ e ∈ after, e.recovers id gap pubkey = true

/-- The gap is in the channel or with the reconciler, which has yet to deal with the account. -/
def GapState.Pending (s : GapState) (id : ℕ) (gap : SubscriptionGap) (pubkey : Pubkey) : Prop :=
  ((id, gap) ∈ s.channel ∧ pubkey ∈ gap.pubkeys) ∨
    ∃ rest current, s.reconciler = .evicting id gap rest current ∧
      (pubkey ∈ rest ∨ current = some pubkey)

/-- The account the reconciler is at, or waits for. -/
def Reconciler.next : Reconciler → Option Pubkey
  | idle => none
  | evicting _ _ rest current => current.or rest.head?

/-- The reconciler goes on, or the operation that holds the lock it waits for. -/
def GapEvent.attends (s : GapState) : GapEvent → Prop
  | received _ | began _ _ | finished _ => True
  | advanced pubkey _ _ _ => s.reconciler.next = some pubkey
  | _ => False

/-- The section leaves a watched account watched: it does not give back the last reference, does not
unsubscribe, and is not for undelegation tracking. -/
def KeyState.StaysWatched (key : KeyState) (answer : ClientAnswer) : Prop :=
  match key.stage with
  | some (.entered (.acquire reason _)) => reason ≠ .undelegationTracking
  | some (.entered (.release reason .single)) | some (.entered (.forget reason)) =>
    ∀ own, key.owned = some own → (own.release reason).isEmpty = false
  | some (.entered (.release reason .all)) | some (.entered (.releaseSilently reason)) =>
    ∀ own, key.owned = some own → (own.releaseAll reason answer.now).1.isEmpty = false
  | some (.entered .unsubscribe) => key.tracked = false
  | some .closing => answer.call = .failed
  | _ => True

/-- **No gap is dropped**: the channel has room at every disconnect that leaves accounts uncovered,
an account of a gap that was not dealt with stays watched, and the channel of stale accounts is
open. -/
def Attentive (s : GapState) : GapEvent → Prop
  | .disconnected _ gap _ => gap.pubkeys = [] ∨ s.channel.length < gapChannelCapacity
  | .advanced pubkey answer _ _ =>
    ((∃ id gap, s.Pending id gap pubkey) → (s.keys pubkey).StaysWatched answer) ∧
      ((s.keys pubkey).stage = some .reporting → answer.call = .ok)
  | _ => True

end Magicblock.Provider
