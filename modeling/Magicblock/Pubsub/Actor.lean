import Magicblock.Foundations.History
import Magicblock.Intent.Types

/-!
# Pubsub/Actor — the subscriptions of a websocket client, and their listeners

A subscription is an entry in one of two maps, with two tokens: one asks its listener to stop, the
other says that the listener is done.  The set-up of a subscription and, later, its listener hold a
stream of a pooled connection.  Entries are taken out by listeners, by set-ups that fail and by the
drain before a reconnect; the flag `is_connected` is cleared by whoever finds the connection broken.

Messages are handled by one task: what a handler does between two waits is not interrupted by
another handler, but listeners run beside it.  A handler that has read the flag and not inserted its
entry is `entering`.
-/

namespace Magicblock.Pubsub

open Function (update)

/-- The map that a subscription is in. -/
inductive Kind
  | account
  | program
  deriving DecidableEq

abbrev SubId := ℕ

/-- In `abort_and_signal_connection_issue`. -/
inductive AbortStage
  | swapping
  /-- Cancels the subscriptions of one map. -/
  | cancelling (kind : Kind)
  deriving DecidableEq

/-- **What a subscription's own task does next**. -/
inductive Phase
  /-- In `finish_setup`. -/
  | settingUp (retries : ℕ)
  /-- Waits before it tries again. -/
  | sleeping (retries : ℕ)
  | listening
  /-- A listener holds its stream meanwhile; a set-up that failed has none. -/
  | aborting (stage : AbortStage) (holding : Bool)
  /-- The stream is dropped. -/
  | unsubscribing
  /-- Takes the entry out. -/
  | removing
  /-- Says that it is done. -/
  | completing
  | done
  deriving DecidableEq

namespace Phase

/-- A pending set-up, or a listener with its stream. -/
def holds : Phase → Bool
  | settingUp _ | sleeping _ | listening => true
  | aborting _ holding => holding
  | _ => false

/-- The task has not taken its entry out. -/
def isAlive : Phase → Bool
  | completing | done => false
  | _ => true

/-- After an abort: a listener drops its stream, a failed set-up cleans up. -/
def afterAbort : Bool → Phase
  | true => unsubscribing
  | false => removing

end Phase

structure Task where
  kind : Kind
  pubkey : Pubkey
  phase : Phase
  deriving DecidableEq

/-- A subscribe message: the flag was read, or the key was found free as well. -/
inductive Entering
  | loaded (kind : Kind) (pubkey : Pubkey) (retries : ℕ)
  | cleared (kind : Kind) (pubkey : Pubkey) (retries : ℕ)

/-- An entry as the drain sees it. -/
abbrev Seen := Kind × Pubkey × SubId

/-- **A reconnect attempt**; there is one at a time. -/
inductive Reconnect
  | idle
  /-- The mux has found the flag clear and sent the message. -/
  | requested
  /-- The accounts are seen, the programs are not. -/
  | snapshotting (seen : List Seen)
  /-- Waits for these, and whether a wait has timed out. -/
  | waiting (seen : List Seen) (failed : Bool)
  /-- `while self.connections.pop().is_some() {}` -/
  | dropping
  /-- Makes a new connection. -/
  | connecting
  /-- Subscribes to an account and unsubscribes. -/
  | verifying
  | pruning

structure Actor where
  isConnected : Bool
  entries : Kind → Pubkey → Option SubId
  cancelled : SubId → Bool
  completed : SubId → Bool
  task : SubId → Option Task
  entering : Option Entering
  reconnect : Reconnect

namespace Actor

def setEntry (s : Actor) (kind : Kind) (pubkey : Pubkey) (entry : Option SubId) : Actor :=
  { s with entries := update s.entries kind (update (s.entries kind) pubkey entry) }

def setPhase (s : Actor) (i : SubId) (t : Task) (phase : Phase) : Actor :=
  { s with task := update s.task i (some { t with phase := phase }) }

/-- Both tokens of a new subscription are unused. -/
def insert (s : Actor) (kind : Kind) (pubkey : Pubkey) (retries : ℕ) (i : SubId) : Actor :=
  { s.setEntry kind pubkey (some i) with
    cancelled := update s.cancelled i false
    completed := update s.completed i false
    task := update s.task i (some ⟨kind, pubkey, .settingUp retries⟩)
    entering := none }

/-- `cancel_subscriptions`, on one map; an entry is found under the key of its task. -/
def cancelAll (s : Actor) (kind : Kind) : Actor :=
  { s with
    cancelled := fun i => s.cancelled i || (s.task i).any fun t =>
      t.kind = kind && s.entries kind t.pubkey = some i }

/-- The list has the entries of one map. -/
def Snapshot (s : Actor) (kind : Kind) (seen : List Seen) : Prop :=
  ∀ k pubkey i, (k, pubkey, i) ∈ seen ↔ k = kind ∧ s.entries kind pubkey = some i

/-- The messages `AccountSubscribe`, `ProgramSubscribe` and `AccountUnsubscribe`. -/
inductive MessageStep : Actor → Actor → Prop
  /-- Only accounts are tried again. -/
  | load (kind : Kind) (pubkey : Pubkey) (retries : ℕ) : s.entering = none →
      s.isConnected = true → (kind = .program → retries = 0) →
      MessageStep s { s with entering := some (.loaded kind pubkey retries) }
  | present {kind : Kind} {pubkey : Pubkey} {retries : ℕ} {i : SubId} :
      s.entering = some (.loaded kind pubkey retries) → s.entries kind pubkey = some i →
      kind = .program ∨ s.completed i = false →
      MessageStep s { s with entering := none }
  | vacant :
      s.entering = some (.loaded kind pubkey retries) → s.entries kind pubkey = none →
      MessageStep s { s with entering := some (.cleared kind pubkey retries) }
  /-- The listener has finished: its entry is replaced. -/
  | replace {i : SubId} :
      s.entering = some (.loaded .account pubkey retries) → s.entries .account pubkey = some i →
      s.completed i = true →
      MessageStep s
        { s.setEntry .account pubkey none with entering := some (.cleared .account pubkey retries) }
  | insert (i : SubId) :
      s.entering = some (.cleared kind pubkey retries) → s.task i = none →
      MessageStep s (s.insert kind pubkey retries i)
  | unsubscribe {i : SubId} : s.entering = none →
      s.isConnected = true → s.entries .account pubkey = some i →
      MessageStep s { s with cancelled := update s.cancelled i true }

/-- `add_sub` and `add_program_sub` after the entry is in, and their listeners. -/
inductive TaskStep (i : SubId) : Actor → Actor → Prop
  | subscribed {t : Task} {retries : ℕ} : s.task i = some t →
      t.phase = .settingUp retries → TaskStep i s (s.setPhase i t .listening)
  | retry {t : Task} {retries : ℕ} : s.task i = some t →
      t.phase = .settingUp (retries + 1) → s.cancelled i = false →
      TaskStep i s (s.setPhase i t (.sleeping retries))
  | wake {t : Task} {retries : ℕ} : s.task i = some t →
      t.phase = .sleeping retries → TaskStep i s (s.setPhase i t (.settingUp retries))
  /-- Rejected by the server: only this subscription fails. -/
  | reject {t : Task} {retries : ℕ} : s.task i = some t →
      t.phase = .settingUp retries → retries = 0 ∨ s.cancelled i = true → t.kind = .account →
      TaskStep i s (s.setPhase i t .removing)
  /-- A connection-level error, a time-out, or any error of a program. -/
  | disrupt {t : Task} {retries : ℕ} : s.task i = some t →
      t.phase = .settingUp retries → retries = 0 ∨ s.cancelled i = true →
      TaskStep i s (s.setPhase i t (.aborting .swapping false))
  /-- Cancelled, or nobody receives the updates. -/
  | stop {t : Task} : s.task i = some t → t.phase = .listening →
      TaskStep i s (s.setPhase i t .unsubscribing)
  /-- The stream has ended. -/
  | ended {t : Task} : s.task i = some t → t.phase = .listening →
      TaskStep i s (s.setPhase i t (.aborting .swapping true))
  | swap {t : Task} {holding : Bool} : s.task i = some t →
      t.phase = .aborting .swapping holding → s.isConnected = true →
      TaskStep i s
        { s.setPhase i t (.aborting (.cancelling .account) holding) with isConnected := false }
  | skip {t : Task} {holding : Bool} : s.task i = some t →
      t.phase = .aborting .swapping holding → s.isConnected = false →
      TaskStep i s (s.setPhase i t (.afterAbort holding))
  | cancelAccounts {t : Task} {holding : Bool} : s.task i = some t →
      t.phase = .aborting (.cancelling .account) holding →
      TaskStep i s ((s.cancelAll .account).setPhase i t (.aborting (.cancelling .program) holding))
  /-- The signal to the mux is sent as well. -/
  | cancelPrograms {t : Task} {holding : Bool} : s.task i = some t →
      t.phase = .aborting (.cancelling .program) holding →
      TaskStep i s ((s.cancelAll .program).setPhase i t (.afterAbort holding))
  /-- Unsubscribed, or timed out. -/
  | unsubscribed {t : Task} : s.task i = some t → t.phase = .unsubscribing →
      TaskStep i s (s.setPhase i t .removing)
  | remove {t : Task} : s.task i = some t → t.phase = .removing →
      TaskStep i s ((s.setEntry t.kind t.pubkey none).setPhase i t .completing)
  | complete {t : Task} : s.task i = some t → t.phase = .completing → TaskStep i s
        { s.setPhase i t .done with completed := update s.completed i true }

/-- `try_reconnect` and `drain_and_wait_for_listener_completion`. -/
inductive ReconnectStep : Actor → Actor → Prop
  /-- `reconnect_client` of the mux: `transport_connected()` was not `Some(true)`. -/
  | request : s.reconnect = .idle → s.isConnected = false →
      ReconnectStep s { s with reconnect := .requested }
  | snapshotAccounts : s.reconnect = .requested →
      s.entering = none → s.Snapshot .account seen →
      ReconnectStep s { s with reconnect := .snapshotting seen }
  | snapshotPrograms :
      s.reconnect = .snapshotting seen → s.Snapshot .program programs →
      ReconnectStep s { s with reconnect := .waiting (seen ++ programs) false }
  | cancel {seen : List Seen} {failed : Bool} {kind : Kind} {pubkey : Pubkey}
      {i : SubId} : s.reconnect = .waiting seen failed → (kind, pubkey, i) ∈ seen →
      ReconnectStep s { s with cancelled := update s.cancelled i true }
  | finish {seen : List Seen} {failed : Bool} {kind : Kind} {pubkey : Pubkey}
      {i : SubId} : s.reconnect = .waiting seen failed → (kind, pubkey, i) ∈ seen →
      s.completed i = true →
      ReconnectStep s
        { s.setEntry kind pubkey none with
          reconnect := .waiting (seen.erase (kind, pubkey, i)) failed }
  /-- The entry is left for the next attempt. -/
  | timeout {seen : List Seen} {failed : Bool} {kind : Kind} {pubkey : Pubkey}
      {i : SubId} : s.reconnect = .waiting seen failed → (kind, pubkey, i) ∈ seen →
      ReconnectStep s { s with reconnect := .waiting (seen.erase (kind, pubkey, i)) true }
  | undrained : s.reconnect = .waiting [] true → ReconnectStep s { s with reconnect := .idle }
  | drained : s.reconnect = .waiting [] false → ReconnectStep s { s with reconnect := .dropping }
  | drop : s.reconnect = .dropping → ReconnectStep s { s with reconnect := .connecting }
  | connect : s.reconnect = .connecting → ReconnectStep s { s with reconnect := .verifying }
  | unconnected : s.reconnect = .connecting → ReconnectStep s { s with reconnect := .idle }
  | verify : s.reconnect = .verifying →
      ReconnectStep s { s with reconnect := .pruning, isConnected := true }
  | unverified : s.reconnect = .verifying → ReconnectStep s { s with reconnect := .idle }
  | prune : s.reconnect = .pruning → ReconnectStep s { s with reconnect := .idle }

inductive Step : Actor → Actor → Prop
  | message : MessageStep s t → Step s t
  | task (i : SubId) : TaskStep i s t → Step s t
  | reconnect : ReconnectStep s t → Step s t

/-- `ChainPubsubActor::new`. -/
def new : Actor where
  isConnected := true
  entries _ _ := none
  cancelled _ := false
  completed _ := false
  task _ := none
  entering := none
  reconnect := .idle

/-- **The actor as a machine**. -/
def machine : Machine Actor Unit where
  start s := s = new
  step _ s _ t := Step s t

end Actor

end Magicblock.Pubsub
