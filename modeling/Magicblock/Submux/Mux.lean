import Magicblock.Foundations.Lists
import Magicblock.Submux.Debounce

/-!
# Submux/Mux — forwarders and the flusher of a subscription mux

Any number of forwarders take updates from their clients; each drops duplicates, debounces what is
left and sends on what it may forward.  A flusher forwards what is pending.  Deduplication,
debouncing and sending are separate steps of a forwarder, and the instant at which an update arrived
was read before them.

`Mux.feed` is the mux as one account sees it; `FeedStep` is all that a step can do to it.
-/

namespace Magicblock.Submux

/-- A forwarder on its way with an update. -/
inductive Forwarder
  | received (update : SubscriptionUpdate) (now : Instant)
  | passed (update : SubscriptionUpdate) (now : Instant)
  | sending (update : SubscriptionUpdate)

inductive Flusher
  | sleeping
  | ticked (now : Instant)
  | sending (updates : List SubscriptionUpdate)

structure Mux where
  clock : Instant
  dedupCache : Pubkey × Slot → Option Instant
  debounceStates : Pubkey → Option DebounceState
  forwarders : Multiset Forwarder
  flusher : Flusher
  /-- The channel to the consumer. -/
  sent : List SubscriptionUpdate
  /-- All updates that passed deduplication. -/
  passed : Multiset SubscriptionUpdate
  /-- All updates handed on for sending, with the instant of the decision. -/
  forwarded : List (Instant × SubscriptionUpdate)
  /-- When updates of an account were handed on since debouncing was enabled for it. -/
  period : Pubkey → List Instant

namespace Mux

variable (config : MuxConfig)

def new (clock : Instant) : Mux where
  clock := clock
  dedupCache _ := none
  debounceStates _ := none
  forwarders := 0
  flusher := .sleeping
  sent := []
  passed := 0
  forwarded := []
  period _ := []

/-! ### The steps of a forwarder and of the flusher -/

def dedup (s : Mux) (rest : Multiset Forwarder) (update : SubscriptionUpdate) (now : Instant) :
    Mux :=
  match config.shouldForwardDedup s.dedupCache (update.pubkey, update.slot) now with
  | (cache, true) =>
    { s with
      dedupCache := cache
      forwarders := .passed update now ::ₘ rest
      passed := update ::ₘ s.passed }
  | (cache, false) => { s with dedupCache := cache, forwarders := rest }

/-- An account that is never debounced. -/
def forwardDirectly (s : Mux) (rest : Multiset Forwarder) (update : SubscriptionUpdate)
    (now : Instant) : Mux :=
  { s with
    forwarders := .sending update ::ₘ rest
    forwarded := s.forwarded ++ [(now, update)] }

def debounce (s : Mux) (rest : Multiset Forwarder) (update : SubscriptionUpdate) (now : Instant) :
    Mux :=
  let (state, forwarded) :=
    config.handleDebounceAndMaybeForward (s.debounceStates update.pubkey) update now
  { s with
    debounceStates := Function.update s.debounceStates update.pubkey (some state)
    forwarders := forwarded.elim rest fun update => .sending update ::ₘ rest
    forwarded := s.forwarded ++ (forwarded.map (now, ·)).toList
    period := Function.update s.period update.pubkey
      (if state.next.isSome then s.period update.pubkey ++ (forwarded.map fun _ => now).toList
      else []) }

/-- What the flusher takes from the state of an account. -/
def due (s : Mux) (now : Instant) (pubkey : Pubkey) : Option SubscriptionUpdate :=
  (s.debounceStates pubkey).bind fun state => (config.flush now state).2

/-- The flusher goes through the states in some order. -/
def flush (s : Mux) (pubkeys : List Pubkey) (now : Instant) : Mux :=
  let updates := pubkeys.filterMap (s.due config now)
  { s with
    debounceStates := fun pubkey => (s.debounceStates pubkey).map
      fun state => (config.flush now state).1
    flusher := .sending updates
    forwarded := s.forwarded ++ updates.map (now, ·)
    period := fun pubkey => s.period pubkey ++ ((s.due config now pubkey).map fun _ => now).toList }

/-- The flusher, awake since `now`, takes what is due. -/
def Flushes (s : Mux) (now : Instant) (t : Mux) : Prop :=
  s.flusher = .ticked now ∧ ∃ pubkeys : List Pubkey, pubkeys.Nodup ∧
    (∀ k, k ∈ pubkeys ↔ (s.debounceStates k).isSome) ∧ t = s.flush config pubkeys now

end Mux

inductive MuxStep (config : MuxConfig) : Mux → Mux → Prop
  | clock {now : Instant} (h : s.clock ≤ now) : MuxStep config s { s with clock := now }
  | receive (update : SubscriptionUpdate) :
      MuxStep config s { s with forwarders := .received update s.clock ::ₘ s.forwarders }
  | dedup {rest : Multiset Forwarder} {update : SubscriptionUpdate} {now : Instant}
      (h : s.forwarders = .received update now ::ₘ rest) :
      MuxStep config s (s.dedup config rest update now)
  | forwardDirectly {rest : Multiset Forwarder} {update : SubscriptionUpdate}
      {now : Instant} (h : s.forwarders = .passed update now ::ₘ rest)
      (hnever : update.pubkey ∈ config.neverDebounce) :
      MuxStep config s (s.forwardDirectly rest update now)
  | debounce {rest : Multiset Forwarder} {update : SubscriptionUpdate} {now : Instant}
      (h : s.forwarders = .passed update now ::ₘ rest)
      (hdeb : update.pubkey ∉ config.neverDebounce) :
      MuxStep config s (s.debounce config rest update now)
  | send {rest : Multiset Forwarder} {update : SubscriptionUpdate}
      (h : s.forwarders = .sending update ::ₘ rest) :
      MuxStep config s { s with forwarders := rest, sent := s.sent ++ [update] }
  | prune {now : Instant} (h : now ≤ s.clock) :
      MuxStep config s { s with dedupCache := config.pruneDedup s.dedupCache now }
  | tick (h : s.flusher = .sleeping) : MuxStep config s { s with flusher := .ticked s.clock }
  | flush (h : s.Flushes config now t) : MuxStep config s t
  | flushSend {rest : List SubscriptionUpdate} (h : s.flusher = .sending (update :: rest)) :
      MuxStep config s { s with flusher := .sending rest, sent := s.sent ++ [update] }
  | flushDone (h : s.flusher = .sending []) : MuxStep config s { s with flusher := .sleeping }

/-! ### The mux as one account sees it -/

@[ext]
structure Feed where
  passed : Multiset SubscriptionUpdate
  inHand : Multiset SubscriptionUpdate
  pending : Option SubscriptionUpdate
  next : Option Instant
  forwarded : List (Instant × SubscriptionUpdate)
  period : List Instant

/-- The update a forwarder has, between deduplication and debouncing. -/
def Forwarder.inHand : Forwarder → Option SubscriptionUpdate
  | .passed update _ => some update
  | _ => none

/-- All updates between deduplication and debouncing. -/
def inHand (forwarders : Multiset Forwarder) : Multiset SubscriptionUpdate :=
  forwarders.filterMap Forwarder.inHand

@[simp]
theorem inHand_received : inHand (.received update now ::ₘ rest) = inHand rest :=
  Multiset.filterMap_cons_none _ _ rfl

@[simp]
theorem inHand_passed : inHand (.passed update now ::ₘ rest) = update ::ₘ inHand rest :=
  Multiset.filterMap_cons_some Forwarder.inHand _ _ rfl

@[simp]
theorem inHand_sending : inHand (.sending update ::ₘ rest) = inHand rest :=
  Multiset.filterMap_cons_none _ _ rfl

/-! ### What is being sent -/

def Forwarder.unsent : Forwarder → Multiset SubscriptionUpdate
  | .sending update => {update}
  | _ => 0

def Flusher.unsent : Flusher → Multiset SubscriptionUpdate
  | .sending updates => updates
  | _ => 0

namespace Mux

/-- The updates that are being sent. -/
def sending (s : Mux) : Multiset SubscriptionUpdate :=
  s.forwarders.bind Forwarder.unsent + s.flusher.unsent

def feed (s : Mux) (pubkey : Pubkey) : Feed where
  passed := s.passed.filter (·.pubkey = pubkey)
  inHand := (inHand s.forwarders).filter (·.pubkey = pubkey)
  pending := MuxConfig.pendingOf (s.debounceStates pubkey)
  next := MuxConfig.nextOf (s.debounceStates pubkey)
  forwarded := s.forwarded.filter (·.2.pubkey = pubkey)
  period := s.period pubkey

end Mux

/-- **What a step can do to an account.** -/
inductive FeedStep (config : MuxConfig) : Feed → Feed → Prop
  | idle : FeedStep config v v
  | pass (update : SubscriptionUpdate) :
      FeedStep config v { v with passed := update ::ₘ v.passed, inHand := update ::ₘ v.inHand }
  /-- Not debounced. -/
  | direct {rest : Multiset SubscriptionUpdate} {update : SubscriptionUpdate}
      {now : Instant} (h : v.inHand = update ::ₘ rest) :
      FeedStep config v { v with inHand := rest, forwarded := v.forwarded ++ [(now, update)] }
  /-- Debouncing is disabled. -/
  | forward {rest : Multiset SubscriptionUpdate} {update : SubscriptionUpdate}
      {now : Instant} (h : v.inHand = update ::ₘ rest) :
      FeedStep config v
        { v with
          inHand := rest, pending := none, next := none,
          forwarded := v.forwarded ++ [(now, MuxConfig.selectUpdate v.pending update)],
          period := [] }
  /-- Debouncing is enabled, and an update is due. -/
  | forwardDue {rest : Multiset SubscriptionUpdate} {update : SubscriptionUpdate}
      {now : Instant} (h : v.inHand = update ::ₘ rest)
      (hdue : ∀ next, v.next = some next → next ≤ now) :
      FeedStep config v
        { v with
          inHand := rest, pending := none, next := some (now + config.debounceInterval),
          forwarded := v.forwarded ++ [(now, MuxConfig.selectUpdate v.pending update)],
          period := v.period ++ [now] }
  | hold {rest : Multiset SubscriptionUpdate} {update : SubscriptionUpdate}
      {next : Instant} (h : v.inHand = update ::ₘ rest) (hnext : v.next = some next) :
      FeedStep config v
        { v with inHand := rest, pending := some (MuxConfig.selectUpdate v.pending update) }
  | flush {update : SubscriptionUpdate} {next now : Instant}
      (hpend : v.pending = some update) (hnext : v.next = some next) (hdue : next ≤ now) :
      FeedStep config v
        { v with
          pending := none, next := some (now + config.debounceInterval),
          forwarded := v.forwarded ++ [(now, update)], period := v.period ++ [now] }

end Magicblock.Submux
