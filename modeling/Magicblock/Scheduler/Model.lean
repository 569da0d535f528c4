import Magicblock.Foundations.QueueMap
import Magicblock.Intent.Outbox

/-!
# Scheduler/Model — `IntentScheduler`, operation by operation

The scheduler of `committor/src/execution/scheduler.rs`.  Every committed pubkey has a queue of
intent ids in arrival order; an intent executes while it heads *all* of its queues.

* `blockedKeys` — the queues, of executing and of waiting intents;
* `blockedIntents` — the waiting intents, with the number of keys each of them needs;
* `poisonedKeys` — keys that admit no new intent, since an intent on them failed or was voided.

Two choices of the source are left open, so that results hold for all of them: the order in which
a hash map is enumerated (`order`), and what a binary search answers on an unsorted queue
(`BinarySearch`, one per key).
-/

namespace Magicblock

structure IntentMeta where
  numKeys : ℕ
  intent : OutboxIntentBundle
  deriving DecidableEq

inductive IntentSchedulerError where
  | nonScheduledMessage
  | corruptedIntent
  | completingBlockedIntent
  | intentPoisoned (pubkeys : List Pubkey)
  deriving DecidableEq

structure IntentScheduler where
  blockedKeys : QueueMap Pubkey IntentID
  blockedIntents : AList fun _ : IntentID => IntentMeta
  poisonedKeys : Finset Pubkey

namespace IntentScheduler

def new : IntentScheduler := ⟨∅, ∅, ∅⟩

/-- The queue of a key, in arrival order. -/
def queue (s : IntentScheduler) (k : Pubkey) : List IntentID := s.blockedKeys.queue k

/-! ### Admission -/

/-- An id is taken if it is blocked or heads a queue. -/
def isDuplicate (s : IntentScheduler) (intentId : IntentID) : Bool :=
  (s.blockedIntents.lookup intentId).isSome
    || s.blockedKeys.entries.any fun e => e.2.head? = some intentId

/-- Returns the intent if it can be executed, otherwise consumes it and enqueues. -/
def schedule (s : IntentScheduler) (intentBundle : OutboxIntentBundle) :
    IntentScheduler × Option OutboxIntentBundle :=
  let intentId := intentBundle.intentId
  let pubkeys := intentBundle.getAllCommittedPubkeys
  if pubkeys.isEmpty then (s, some intentBundle)
  else if s.isDuplicate intentId then (s, none)
  else if pubkeys.any (· ∈ s.poisonedKeys) then
    ({ s with poisonedKeys := s.poisonedKeys ∪ pubkeys.toFinset }, none)
  else
    let isConflicting := pubkeys.any fun k => (s.blockedKeys.lookup k).isSome
    -- in any case block the corresponding accounts
    let blockedKeys := pubkeys.foldl (fun m k => m.pushBack k intentId) s.blockedKeys
    if isConflicting then
      ({ s with
          blockedKeys := blockedKeys
          blockedIntents := s.blockedIntents.insert intentId ⟨pubkeys.length, intentBundle⟩ },
        none)
    else ({ s with blockedKeys := blockedKeys }, some intentBundle)

/-! ### Completion -/

/-- An executing intent is not blocked, heads the queues of all its keys, and heads no other. -/
def validateExecuting (s : IntentScheduler) (intentId : IntentID) (pubkeys : List Pubkey) :
    Except IntentSchedulerError Unit :=
  if (s.blockedIntents.lookup intentId).isSome then .error .completingBlockedIntent
  else
    let allFront := pubkeys.all fun k => (s.queue k).head? = some intentId
    let someFront := pubkeys.any fun k => (s.queue k).head? = some intentId
    if !allFront then .error (if someFront then .corruptedIntent else .nonScheduledMessage)
    else
      let foundInFront := (s.blockedKeys.entries.filter fun e => e.2.head? = some intentId).length
      if foundInFront ≠ pubkeys.length then .error .corruptedIntent else .ok ()

/-- The loop of `complete`: pop the front of every queue, dropping those that become empty. -/
def releaseKeys : List Pubkey → IntentScheduler → IntentScheduler × Except IntentSchedulerError Unit
  | [], s => (s, .ok ())
  | k :: ks, s =>
    match s.blockedKeys.lookup k with
    | none => (s, .error .corruptedIntent)
    | some queue => releaseKeys ks { s with blockedKeys := s.blockedKeys.store k queue.tail }

def complete (s : IntentScheduler) (intentBundle : OutboxIntentBundle) :
    IntentScheduler × Except IntentSchedulerError Unit :=
  let pubkeys := intentBundle.getAllCommittedPubkeys
  if pubkeys.isEmpty then (s, .ok ())
  else
    match s.validateExecuting intentBundle.intentId pubkeys with
    | .error e => (s, .error e)
    | .ok () => releaseKeys pubkeys s

/-! ### Failure -/

/-- The seed of `failed`: poison the keys of the failed intent and take their queues away; all
that stood behind it goes on the worklist. -/
def seedWorklist : List Pubkey → IntentScheduler → Finset IntentID →
    IntentScheduler × Except IntentSchedulerError (Finset IntentID)
  | [], s, worklist => (s, .ok worklist)
  | k :: ks, s, worklist =>
    let s := { s with poisonedKeys := insert k s.poisonedKeys }
    match s.blockedKeys.lookup k with
    | none => (s, .error .corruptedIntent)
    | some queue =>
      seedWorklist ks { s with blockedKeys := s.blockedKeys.erase k }
        (worklist ∪ (queue.drop 1).toFinset)

/-- `BTreeSet::pop_first`. -/
def popFirst (worklist : Finset IntentID) : Option (IntentID × Finset IntentID) :=
  if h : worklist.Nonempty then some (worklist.min' h, worklist.erase (worklist.min' h)) else none

/-- Cut the queues of a voided intent at its position, key by key; what stood behind it goes on the
worklist.  A queue that is gone, or that the search misses the id in, is left alone. -/
def drainKeys (search : Pubkey → BinarySearch IntentID) (intentId : IntentID) :
    List Pubkey → QueueMap Pubkey IntentID → Finset IntentID →
      QueueMap Pubkey IntentID × Finset IntentID
  | [], m, worklist => (m, worklist)
  | k :: ks, m, worklist =>
    let (m, behind) := m.cut (search k) intentId k
    drainKeys search intentId ks m (worklist ∪ behind.toFinset)

/-- The worklist loop of `failed`.  Every round takes an id off the worklist, and puts one on only
by taking it out of a queue, so `fuel` is never what ends it (`voidLoop` is run with enough). -/
def voidLoop (search : Pubkey → BinarySearch IntentID) :
    ℕ → IntentScheduler → Finset IntentID → List OutboxIntentBundle →
      IntentScheduler × List OutboxIntentBundle
  | 0, s, _, poisoned => (s, poisoned)
  | fuel + 1, s, worklist, poisoned =>
    match popFirst worklist with
    | none => (s, poisoned)
    | some (intentId, worklist) =>
      match s.blockedIntents.lookup intentId with
      | none => voidLoop search fuel s worklist poisoned
      | some info =>
        let pubkeys := info.intent.getAllCommittedPubkeys
        let (blockedKeys, worklist) := drainKeys search intentId pubkeys s.blockedKeys worklist
        voidLoop search fuel
          { blockedKeys := blockedKeys
            blockedIntents := s.blockedIntents.erase intentId
            poisonedKeys := s.poisonedKeys ∪ pubkeys.toFinset }
          worklist (poisoned ++ [info.intent])

/-- **Marks an intent as failed** — poisons its keys, voids every intent reachable from it, and
returns the voided intents. -/
def failed (search : Pubkey → BinarySearch IntentID) (s : IntentScheduler)
    (intentBundle : OutboxIntentBundle) :
    IntentScheduler × Except IntentSchedulerError (List OutboxIntentBundle) :=
  let pubkeys := intentBundle.getAllCommittedPubkeys
  if pubkeys.isEmpty then (s, .ok [])
  else
    match s.validateExecuting intentBundle.intentId pubkeys with
    | .error e => (s, .error e)
    | .ok () =>
      match seedWorklist pubkeys s ∅ with
      | (s, .error e) => (s, .error e)
      | (s, .ok worklist) =>
        let (s, poisoned) :=
          voidLoop search (s.blockedKeys.size + worklist.card) s worklist []
        (s, .ok poisoned)

/-! ### The next intent -/

/-- How many queues each head heads, blocked or executing. -/
def executeCandidates (s : IntentScheduler) : AList fun _ : IntentID => ℕ :=
  QueueMap.tally s.blockedKeys.heads

/-- The first candidate of the enumeration that is blocked and heads all of its queues. -/
def popNextScheduledIntent (s : IntentScheduler) (order : List (Sigma fun _ : IntentID => ℕ)) :
    IntentScheduler × Option OutboxIntentBundle :=
  let eligible := order.findSome? fun c =>
    match s.blockedIntents.lookup c.1 with
    | some info => if info.numKeys = c.2 then some (c.1, info.intent) else none
    | none => none
  match eligible with
  | some (id, intent) => ({ s with blockedIntents := s.blockedIntents.erase id }, some intent)
  | none => (s, none)

def intentsBlocked (s : IntentScheduler) : ℕ := s.blockedIntents.keys.length

end IntentScheduler

end Magicblock
