import Magicblock.Intent.Outbox

/-!
# Queue/Model — the intent queue, its backlog and the intent stream

`IntentQueue::enqueue` (`execution/queue.rs`) fills a bounded channel and spills what does not fit
into a backlog of intent ids (`execution/backlog.rs`); `IntentStream::poll_next`
(`execution/stream.rs`) drains the two.  The channel is tokio's bounded mpsc channel as far as the
code relies on it: first in, first out; `try_send` fails with `Full` exactly when the buffer is
full; polling a non-empty receiver returns an item.
-/

namespace Magicblock

/-- The answer of a poll. -/
inductive Poll (α : Type) where
  | pending
  | ready (a : α)
  deriving DecidableEq

inductive TrySendError where
  | full (b : OutboxIntentBundle)
  | closed (b : OutboxIntentBundle)
  deriving DecidableEq

/-- A bounded channel; it is closed for the sender once the receiver is dropped, and for the
receiver once all senders are. -/
structure Channel where
  capacity : ℕ
  buffer : List OutboxIntentBundle := []
  receiverDropped : Bool := false
  sendersDropped : Bool := false
  deriving DecidableEq

namespace Channel

def trySend (c : Channel) (b : OutboxIntentBundle) : Except TrySendError Channel :=
  if c.receiverDropped then .error (.closed b)
  else if c.capacity ≤ c.buffer.length then .error (.full b)
  else .ok { c with buffer := c.buffer ++ [b] }

theorem trySend_of_open {c : Channel} (hopen : c.receiverDropped = false)
    (b : OutboxIntentBundle) : c.trySend b = if c.capacity ≤ c.buffer.length then .error (.full b)
        else .ok { c with buffer := c.buffer ++ [b] } := by
  rw [trySend, if_neg (by simp [hopen])]

def pollNext (c : Channel) : Channel × Poll (Option OutboxIntentBundle) :=
  match c.buffer with
  | b :: buffer => ({ c with buffer := buffer }, .ready (some b))
  | [] => (c, if c.sendersDropped then .ready none else .pending)

end Channel

/-! ### The backlog -/

inductive BacklogError where
  | intentNotFound (id : IntentID)
  | deserialize
  | accountsDb
  deriving DecidableEq

/-- What reading the outbox account of an id finds. -/
inductive OutboxRead where
  | found (b : OutboxIntentBundle)
  | missing
  | malformed
  | dbError
  deriving DecidableEq

/-- Only the ids are kept: the bundles live in their outbox accounts. -/
structure AccountsDbIntentBacklog where
  queue : List IntentID := []
  deriving DecidableEq

namespace AccountsDbIntentBacklog

def isEmpty (d : AccountsDbIntentBacklog) : Bool := d.queue.isEmpty

def storeIntentBundles (d : AccountsDbIntentBacklog) (bs : List OutboxIntentBundle) :
    AccountsDbIntentBacklog :=
  { queue := d.queue ++ bs.map (·.intentId) }

/-- The id is off the queue whether or not its account can be read. -/
def popIntentBundle (d : AccountsDbIntentBacklog) (read : IntentID → OutboxRead) :
    AccountsDbIntentBacklog × Except BacklogError (Option OutboxIntentBundle) :=
  match d.queue with
  | [] => (d, .ok none)
  | id :: queue =>
    ({ queue := queue },
      match read id with
      | .found b => .ok (some b)
      | .missing => .error (.intentNotFound id)
      | .malformed => .error .deserialize
      | .dbError => .error .accountsDb)

end AccountsDbIntentBacklog

/-! ### Producer and consumer -/

/-- The channel and the backlog that `IntentQueue` and `IntentStream` share. -/
structure IntentQueue where
  channel : Channel
  backlog : AccountsDbIntentBacklog := {}
  deriving DecidableEq

inductive IntentScheduleError where
  | channelClosed
  deriving DecidableEq

namespace IntentQueue

/-- `try_for_each(try_send)`: what was not sent comes back with the error. -/
def sendEach : List OutboxIntentBundle → Channel →
    Channel × Except (TrySendError × List OutboxIntentBundle) Unit
  | [], c => (c, .ok ())
  | b :: rest, c =>
    match c.trySend b with
    | .ok c => sendEach rest c
    | .error e => (c, .error (e, rest))

/-- The outcome of the sends: what did not fit goes to the backlog. -/
def settleSends (q : IntentQueue) :
    Channel × Except (TrySendError × List OutboxIntentBundle) Unit →
      IntentQueue × Except IntentScheduleError Unit
  | (channel, .ok ()) => ({ q with channel := channel }, .ok ())
  | (channel, .error (.closed _, _)) => ({ q with channel := channel }, .error .channelClosed)
  | (channel, .error (.full b, rest)) =>
    (⟨channel, q.backlog.storeIntentBundles (b :: rest)⟩, .ok ())

def enqueue (q : IntentQueue) (bundles : List OutboxIntentBundle) :
    IntentQueue × Except IntentScheduleError Unit :=
  if q.backlog.isEmpty then q.settleSends (sendEach bundles q.channel)
  else ({ q with backlog := q.backlog.storeIntentBundles bundles }, .ok ())

/-- Channel entries come first, since they were scheduled before the backlog's. -/
def pollNext (q : IntentQueue) (read : IntentID → OutboxRead) :
    IntentQueue × Poll (Option (Except BacklogError OutboxIntentBundle)) :=
  if q.backlog.isEmpty then
    match q.channel.pollNext with
    | (channel, .pending) => ({ q with channel := channel }, .pending)
    | (channel, .ready item) => ({ q with channel := channel }, .ready (item.map .ok))
  else
    match q.channel.pollNext with
    | (channel, .ready (some b)) => ({ q with channel := channel }, .ready (some (.ok b)))
    | (channel, _) =>
      match q.backlog.popIntentBundle read with
      | (backlog, .ok item) => (⟨channel, backlog⟩, .ready (item.map .ok))
      | (backlog, .error e) => (⟨channel, backlog⟩, .ready (some (.error e)))

end IntentQueue

end Magicblock
