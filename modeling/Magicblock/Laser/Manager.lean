import Magicblock.Foundations.Hoare
import Magicblock.Foundations.Lists
import Magicblock.Intent.Types

/-!
# Laser/Manager — the streams that carry account subscriptions

`StreamManager` subscribes accounts in generations of streams: new pubkeys enter the filter of the
current-new stream, a full current-new stream becomes an unoptimized old one, and too many of those
are rebuilt, from the set of subscriptions, into optimized old streams.  Handles and streams are
kept apart: the handles in one field for each generation, the streams in a map under their
`StreamKey`.

A stream of the laser service is known by the number of its creation; its handle and the stream
itself carry that number.  The service remembers for each stream the last request it accepted.  What
it answers to an attempt is open, and so is the order in which a hash set is read.
-/

namespace Magicblock.Laser

open Function (update)

/-! ### Requests and streams -/

abbrev StreamId := ℕ

inductive StreamKey
  | currentNew
  | unoptimizedOld (i : ℕ)
  | optimizedOld (i : ℕ)
  | program
  deriving DecidableEq

/-- The filters of a stream by account and by owner. -/
structure SubscribeRequest where
  account : Finset Pubkey
  owner : Finset Pubkey
  commitment : CommitmentLevel
  fromSlot : Option Slot

def buildAccountRequest (pubkeys : Finset Pubkey) (commitment : CommitmentLevel) (fromSlot : Slot) :
    SubscribeRequest :=
  ⟨pubkeys, ∅, commitment, if 0 < fromSlot then some fromSlot else none⟩

def buildProgramRequest (programIds : Finset Pubkey) (commitment : CommitmentLevel)
    (fromSlot : Slot) : SubscribeRequest :=
  ⟨∅, programIds, commitment, if 0 < fromSlot then some fromSlot else none⟩

/-- `GrpcSubscriptionUpdateFailed`: the task, the number of retries and the last error. -/
structure UpdateFailed where
  task : String
  maxRetries : ℕ
  message : String
  deriving DecidableEq

structure StreamManagerConfig where
  maxSubsInOldOptimized : ℕ
  maxOldUnoptimized : ℕ
  maxSubsInNew : ℕ
  optimized_pos : 0 < maxSubsInOldOptimized

/-- The order in which a hash set is read, which may be another one each time. -/
structure IterationOrder where
  iter : ℕ → Finset Pubkey → List Pubkey
  mem_iter : ∀ n s k, k ∈ iter n s ↔ k ∈ s

/-! ### The manager -/

structure StreamManager where
  subscriptions : Finset Pubkey
  currentNewSubs : Finset Pubkey
  currentNewHandle : Option StreamId
  unoptimizedOldHandles : List StreamId
  optimizedOldHandles : List StreamId
  programSub : Option (Finset Pubkey × StreamId)
  streamMap : StreamKey → Option StreamId
  chainSlot : Slot
  optimizedSinceLastCheck : Bool
  optimizing : Bool
  /-- How many streams were opened; the next one gets this number. -/
  opened : ℕ
  /-- The last request that the service accepted for a stream. -/
  accepted : StreamId → SubscribeRequest
  /-- What the service will answer to the next attempts: `none`, or an error. -/
  answers : List (Option String)
  /-- How often a hash set was read. -/
  iterations : ℕ

namespace StreamManager

variable (config : StreamManagerConfig) (order : IterationOrder) (commitment : CommitmentLevel)

def new (chainSlot : Slot) : StreamManager where
  subscriptions := ∅
  currentNewSubs := ∅
  currentNewHandle := none
  unoptimizedOldHandles := []
  optimizedOldHandles := []
  programSub := none
  streamMap _ := none
  chainSlot := chainSlot
  optimizedSinceLastCheck := false
  optimizing := false
  opened := 0
  accepted _ := ⟨∅, ∅, .processed, none⟩
  answers := []
  iterations := 0

def maxSlotsSubActivation : ℕ := 100

def computeFromSlot (s : StreamManager) : Slot := s.chainSlot - maxSlotsSubActivation

/-- The service takes the request as the filter of the stream. -/
def accept (s : StreamManager) (handle : StreamId) (request : SubscribeRequest) : StreamManager :=
  { s with accepted := update s.accepted handle request }

def insertStream (s : StreamManager) (key : StreamKey) (stream : StreamId) : StreamManager :=
  { s with streamMap := update s.streamMap key (some stream) }

abbrev Code := Exec StreamManager UpdateFailed

def maxRetries : ℕ := 5

/-- One attempt to write a request to a stream; an error, if it was not accepted. -/
def write (handle : StreamId) (request : SubscribeRequest) : Code (Option String) := do
  let s ← get
  modify fun s => { s with answers := s.answers.tail }
  match s.answers.head?.join with
  | none => do
    modify fun s => s.accept handle request
    pure none
  | some message => pure (some message)

/-- **`write_with_retry`**, with the retries that are left. -/
def writeWithRetry (handle : StreamId) (task : String) (request : SubscribeRequest) : ℕ → Code Unit
  | 0 => do
    match ← write handle request with
    | none => pure ()
    | some message => throw ⟨task, maxRetries, message⟩
  | retries + 1 => do
    match ← write handle request with
    | none => pure ()
    | some _ => writeWithRetry handle task request retries

/-- **`StreamFactory::subscribe`**: a new stream, whose request is written once more. -/
def subscribe (request : SubscribeRequest) : Code StreamId := do
  let s ← get
  modify fun s => { s with opened := s.opened + 1 }
  writeWithRetry s.opened "subscribe" request maxRetries
  pure s.opened

def insertCurrentNewStream (pubkeys : Finset Pubkey) (fromSlot : Slot) : Code Unit := do
  let handle ← subscribe (buildAccountRequest pubkeys commitment fromSlot)
  modify fun s => { s.insertStream .currentNew handle with currentNewHandle := some handle }

/-! ### Rebuilding all account streams -/

/-- The account streams taken out of the map. -/
def removeAccountStreams (s : StreamManager) : StreamKey → Option StreamId
  | .currentNew => none
  | .unoptimizedOld i =>
    if i < s.unoptimizedOldHandles.length then none else s.streamMap (.unoptimizedOld i)
  | .optimizedOld i =>
    if i < s.optimizedOldHandles.length then none else s.streamMap (.optimizedOld i)
  | .program => s.streamMap .program

/-- New streams, each under its index among the optimized ones. -/
def insertOptimized (streamMap : StreamKey → Option StreamId) (streams : List StreamId) :
    StreamKey → Option StreamId
  | .optimizedOld i => streams[i]?.or (streamMap (.optimizedOld i))
  | key => streamMap key

/-- All account streams are replaced by the new ones. -/
def replaceStreams (s : StreamManager) (streams : List StreamId) : StreamManager :=
  { s with
    streamMap := insertOptimized s.removeAccountStreams streams
    optimizedOldHandles := streams
    unoptimizedOldHandles := []
    currentNewSubs := ∅
    currentNewHandle := none
    optimizedSinceLastCheck := true }

def optimizeInner : Code Unit := do
  let s ← get
  modify fun s => { s with iterations := s.iterations + 1 }
  let allPks := order.iter s.iterations s.subscriptions
  let fromSlot := s.computeFromSlot
  let streams ← (allPks.toChunks config.maxSubsInOldOptimized).mapM fun chunk =>
    subscribe (buildAccountRequest chunk.toFinset commitment fromSlot)
  modify fun s => s.replaceStreams streams

def optimize : Code Unit := do
  let s ← get
  if s.optimizing then
    pure ()
  else
    modify fun s => { s with optimizing := true }
    Exec.handle (optimizeInner config order commitment) fun result => do
      modify fun s => { s with optimizing := false }
      Exec.ofExcept result

/-! ### Account subscriptions -/

/-- The current-new stream becomes the last unoptimized old one. -/
def promote (s : StreamManager) : StreamManager :=
  { s with
    streamMap := match s.streamMap .currentNew with
      | some stream => update (update s.streamMap .currentNew none)
          (.unoptimizedOld s.unoptimizedOldHandles.length) (some stream)
      | none => s.streamMap
    currentNewHandle := none
    unoptimizedOldHandles := s.unoptimizedOldHandles ++ s.currentNewHandle.toList
    currentNewSubs := ∅ }

/-- The filter of the current-new stream is written to it, or the stream is created with it. -/
def updateCurrentNew (fromSlot : Slot) : Code Unit := do
  let s ← get
  match s.currentNewHandle with
  | some handle =>
    writeWithRetry handle "account_subscribe"
      (buildAccountRequest s.currentNewSubs commitment fromSlot) maxRetries
  | none => insertCurrentNewStream commitment s.currentNewSubs fromSlot

/-- A current-new stream over its threshold is promoted; too many unoptimized ones are optimized. -/
def promoteIfFull : Code Unit := do
  let s ← get
  if config.maxSubsInNew < s.currentNewSubs.card then
    modify promote
    let s ← get
    if config.maxOldUnoptimized < s.unoptimizedOldHandles.length then
      optimize config order commitment
    else pure ()
  else pure ()

def accountSubscribeBatch (fromSlot : Slot) (newPks : List Pubkey) : Code Unit := do
  modify fun s => { s with currentNewSubs := s.currentNewSubs ∪ newPks.toFinset }
  Exec.handle (updateCurrentNew commitment fromSlot) fun
    | .error e => do
      -- the rollback: also of a pubkey that the filter had before
      modify fun s => { s with currentNewSubs := s.currentNewSubs \ newPks.toFinset }
      throw e
    | .ok () => do
      modify fun s => { s with subscriptions := s.subscriptions ∪ newPks.toFinset }
      promoteIfFull config order commitment

/-- The pubkeys that are not subscribed, as often as they are listed. -/
def newPubkeys (s : StreamManager) (pubkeys : List Pubkey) : List Pubkey :=
  pubkeys.filter (· ∉ s.subscriptions)

def remainingCapacity (s : StreamManager) : ℕ :=
  config.maxSubsInOldOptimized - s.currentNewSubs.card

/-- The batches of a subscription: the first one fills the current-new stream up. -/
def batches (s : StreamManager) (pubkeys : List Pubkey) : List (List Pubkey) :=
  let newPks := s.newPubkeys pubkeys
  let capacity := s.remainingCapacity config
  if newPks = [] then []
  else if capacity < newPks.length then
    let first := newPks.take capacity
    (if first = [] then [] else [first]) ++
      (newPks.drop capacity).toChunks config.maxSubsInOldOptimized
  else [newPks]

def accountSubscribe (pubkeys : List Pubkey) (fromSlot : Slot) : Code Unit := do
  let s ← get
  (s.batches config pubkeys).forM (accountSubscribeBatch config order commitment fromSlot)

/-- The streams keep their filters. -/
def accountUnsubscribe (pubkeys : List Pubkey) : Code Unit :=
  modify fun s => { s with subscriptions := s.subscriptions \ pubkeys.toFinset }

def clearAccountSubscriptions : Code Unit :=
  modify fun s =>
    { s with
      subscriptions := ∅
      currentNewSubs := ∅
      currentNewHandle := none
      streamMap := s.removeAccountStreams
      unoptimizedOldHandles := []
      optimizedOldHandles := []
      optimizing := false }

/-! ### Program subscriptions -/

def addProgramSubscription (programId : Pubkey) : Code Unit := do
  let s ← get
  match s.programSub with
  | some (programs, handle) =>
    if programId ∈ programs then pure ()
    else
      let subscribed := insert programId programs
      let request := buildProgramRequest subscribed commitment s.computeFromSlot
      Exec.handle (writeWithRetry handle "program_subscribe" request maxRetries) fun
        | .ok () => modify fun s => { s with programSub := some (subscribed, handle) }
        | .error e => do
          modify fun s => { s with programSub := some (subscribed.erase programId, handle) }
          throw e
  | none => do
    let handle ← subscribe (buildProgramRequest {programId} commitment s.computeFromSlot)
    modify fun s => { s.insertStream .program handle with programSub := some ({programId}, handle) }

def clearProgramSubscriptions : Code Unit :=
  modify fun s =>
    { s with streamMap := update s.streamMap .program none, programSub := none }

end StreamManager

end Magicblock.Laser
