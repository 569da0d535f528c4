import Magicblock.Foundations.History
import Magicblock.Foundations.Results
import Magicblock.Queue.Model

/-!
# Queue/Fifo — the intent queue is first in, first out

Producers and the consumer take turns on the backlog's mutex; `queueMachine` steps through their
critical sections, so every interleaving of calls is a run.  At each moment

    enqueued  =  emitted ++ channel ++ backlog ++ (what the producer inside still holds)

and a producer sends to the channel only while the backlog is empty.  A `Pending` answer means that
both buffers were empty, so everything enqueued was emitted.
-/

open scoped List

namespace Magicblock

open IntentQueue

/-- Who is inside the critical section, and how far: a producer with the bundles it still holds,
`direct` if it found the backlog empty; or the consumer. -/
inductive CriticalSection where
  | enqueuing (direct : Bool) (rest : List OutboxIntentBundle)
  | polling

structure QueueWorld where
  queue : IntentQueue
  holder : Option CriticalSection

inductive QueueEvent where
  | enqueue (bundles : List OutboxIntentBundle)
  | internal
  | channelClosed
  | polled (answer : Poll (Option (Except BacklogError OutboxIntentBundle)))

/-- The enqueued lists, concatenated in the order in which the calls got the lock. -/
def enqueued (es : List QueueEvent) : List OutboxIntentBundle :=
  es.flatMap fun
    | .enqueue bundles => bundles
    | _ => []

/-- The bundles that the stream emitted. -/
def emitted (es : List QueueEvent) : List OutboxIntentBundle :=
  es.filterMap fun
    | .polled (.ready (some (.ok b))) => some b
    | _ => none

/-- A backlog read of an id finds the bundle that was enqueued under it. -/
def ReadsSucceed (es : List QueueEvent) (id : IntentID) (r : OutboxRead) : Prop :=
  ∀ b ∈ enqueued es, b.intentId = id → r = .found b

instance (es : List QueueEvent) (id : IntentID) (r : OutboxRead) :
    Decidable (ReadsSucceed es id r) :=
  inferInstanceAs (Decidable (∀ b ∈ enqueued es, _))

/-- **One step of a critical section.**  `reads` says what a backlog read may find. -/
inductive QueueStep (reads : List QueueEvent → IntentID → OutboxRead → Prop)
    (es : List QueueEvent) : QueueWorld → QueueEvent → QueueWorld → Prop
  | lockEnqueue (q : IntentQueue) (bundles : List OutboxIntentBundle) :
      QueueStep reads es ⟨q, none⟩ (.enqueue bundles)
        ⟨q, some (.enqueuing q.backlog.isEmpty bundles)⟩
  | send (rest : List OutboxIntentBundle) (h : q.channel.trySend b = .ok c) :
      QueueStep reads es ⟨q, some (.enqueuing true (b :: rest))⟩ .internal
        ⟨{ q with channel := c }, some (.enqueuing true rest)⟩
  | spill (rest : List OutboxIntentBundle) (h : q.channel.trySend b = .error (.full b)) :
      QueueStep reads es ⟨q, some (.enqueuing true (b :: rest))⟩ .internal
        ⟨{ q with backlog := q.backlog.storeIntentBundles (b :: rest) }, none⟩
  | closed (rest : List OutboxIntentBundle) (h : q.channel.trySend b = .error (.closed b)) :
      QueueStep reads es ⟨q, some (.enqueuing true (b :: rest))⟩ .channelClosed ⟨q, none⟩
  | sentAll (q : IntentQueue) :
      QueueStep reads es ⟨q, some (.enqueuing true [])⟩ .internal ⟨q, none⟩
  | store (q : IntentQueue) (bundles : List OutboxIntentBundle) :
      QueueStep reads es ⟨q, some (.enqueuing false bundles)⟩ .internal
        ⟨{ q with backlog := q.backlog.storeIntentBundles bundles }, none⟩
  | lockPoll (q : IntentQueue) : QueueStep reads es ⟨q, none⟩ .internal ⟨q, some .polling⟩
  | poll (read : IntentID → OutboxRead)
      (hread : ∀ id, q.backlog.queue.head? = some id → reads es id (read id)) :
      QueueStep reads es ⟨q, some .polling⟩ (.polled (q.pollNext read).2)
        ⟨(q.pollNext read).1, none⟩

/-- The queue over an open channel, from empty. -/
def queueMachine (capacity : ℕ) (reads : List QueueEvent → IntentID → OutboxRead → Prop) :
    Machine QueueWorld QueueEvent where
  start w := w = ⟨{ channel := { capacity := capacity } }, none⟩
  step := QueueStep reads

/-! ### The invariant -/

/-- What the producer inside has not passed on yet. -/
def QueueWorld.held (w : QueueWorld) : List OutboxIntentBundle :=
  match w.holder with
  | some (.enqueuing _ rest) => rest
  | _ => []

/-- **Nothing is lost, doubled or overtaken.** -/
structure Fifo (es : List QueueEvent) (w : QueueWorld) : Prop where
  receiver : w.queue.channel.receiverDropped = false
  senders : w.queue.channel.sendersDropped = false
  split : ∃ spilled, w.queue.backlog.queue = spilled.map (·.intentId) ∧
    enqueued es = emitted es ++ w.queue.channel.buffer ++ spilled ++ w.held
  direct {rest : List OutboxIntentBundle} (h : w.holder = some (.enqueuing true rest)) :
    w.queue.backlog.queue = []

theorem enqueued_concat : enqueued (es ++ [e]) = enqueued es ++ enqueued [e] := by
  simp [enqueued]

theorem emitted_concat : emitted (es ++ [e]) = emitted es ++ emitted [e] := by
  simp [emitted]

/-- What a poll answers on an open channel, when the backlog read finds a bundle. -/
inductive PollAnswer (q : IntentQueue) (read : IntentID → OutboxRead) :
    IntentQueue × Poll (Option (Except BacklogError OutboxIntentBundle)) → Prop
  | pending (hchan : q.channel.buffer = []) (hback : q.backlog.queue = []) :
      PollAnswer q read (q, .pending)
  | channel (hchan : q.channel.buffer = b :: buffer) :
      PollAnswer q read ({ q with channel.buffer := buffer }, .ready (some (.ok b)))
  | backlog {id : IntentID} {b : OutboxIntentBundle} {queue : List IntentID}
      (hchan : q.channel.buffer = []) (hback : q.backlog.queue = id :: queue)
      (hread : read id = .found b) :
      PollAnswer q read ({ q with backlog.queue := queue }, .ready (some (.ok b)))

theorem pollAnswer_pollNext {read : IntentID → OutboxRead}
    (hopen : q.channel.sendersDropped = false)
    (hread : ∀ id, q.backlog.queue.head? = some id → ∃ b, read id = .found b) :
    PollAnswer q read (q.pollNext read) := by
  obtain ⟨⟨capacity, buffer, receiverDropped, sendersDropped⟩, ⟨queue⟩⟩ := q
  subst hopen
  cases buffer with
  | cons b buffer =>
    have hpoll : pollNext ⟨⟨capacity, b :: buffer, receiverDropped, false⟩, ⟨queue⟩⟩ read
        = (⟨⟨capacity, buffer, receiverDropped, false⟩, ⟨queue⟩⟩, .ready (some (.ok b))) := by
      cases queue <;> rfl
    rw [hpoll]
    exact .channel rfl
  | nil =>
    cases queue with
    | nil => exact .pending rfl rfl
    | cons id queue =>
      obtain ⟨b, hb⟩ := hread id rfl
      have hpoll : pollNext ⟨⟨capacity, [], receiverDropped, false⟩, ⟨id :: queue⟩⟩ read
          = (⟨⟨capacity, [], receiverDropped, false⟩, ⟨queue⟩⟩, .ready (some (.ok b))) := by
        simp [pollNext, AccountsDbIntentBacklog.isEmpty, Channel.pollNext,
          AccountsDbIntentBacklog.popIntentBundle, hb]
      rw [hpoll]
      exact .backlog rfl rfl hb

namespace Fifo

variable {q : IntentQueue}

/-- **The answer to a poll** — everything was emitted, or the next bundle is. -/
theorem poll (h : Fifo es ⟨q, some .polling⟩) {read : IntentID → OutboxRead}
    (hread : ∀ id, q.backlog.queue.head? = some id → ReadsSucceed es id (read id)) :
    Fifo (es ++ [.polled (q.pollNext read).2]) ⟨(q.pollNext read).1, none⟩ ∧
      ((q.pollNext read).2 = .pending → emitted es = enqueued es) := by
  obtain ⟨hrecv, hsend, ⟨spilled, hback, hspl⟩, -⟩ := h
  dsimp only at hrecv hsend hback hspl
  rw [QueueWorld.held, List.append_nil] at hspl
  have hfound : ∀ id, q.backlog.queue.head? = some id → ∃ b, read id = .found b := fun id hid => by
    cases spilled with
    | nil => simp [hback] at hid
    | cons b spilled =>
      obtain rfl : b.intentId = id := by simpa [hback] using hid
      exact ⟨b, hread b.intentId (by simp [hback]) b (by simp [hspl]) rfl⟩
  have hans := pollAnswer_pollNext hsend hfound
  generalize q.pollNext read = r at hans ⊢
  cases hans with
  | pending hchan hbacklog =>
    obtain rfl : spilled = [] := List.map_eq_nil_iff.mp (hback.symm.trans hbacklog)
    rw [hchan, List.append_nil, List.append_nil] at hspl
    refine ⟨⟨hrecv, hsend, ⟨[], hback, ?_⟩, by simp⟩, fun _ => hspl.symm⟩
    rw [enqueued_concat, emitted_concat, hspl, hchan]
    simp [enqueued, emitted, QueueWorld.held]
  | channel hchan =>
    refine ⟨⟨hrecv, hsend, ⟨spilled, hback, ?_⟩, by simp⟩, by simp⟩
    rw [enqueued_concat, emitted_concat, hspl, hchan]
    simp [enqueued, emitted, QueueWorld.held]
  | @backlog id b queue hchan hbacklog hb =>
    cases spilled with
    | nil => simp [hbacklog] at hback
    | cons c spilled =>
      obtain ⟨rfl, rfl⟩ : id = c.intentId ∧ queue = spilled.map (·.intentId) := by
        simpa [hbacklog] using hback
      have hc : read c.intentId = .found c :=
          hread c.intentId (by simp [hback]) c (by simp [hspl]) rfl
      obtain rfl : b = c := by simpa [hb] using hc
      refine ⟨⟨hrecv, hsend, ⟨spilled, rfl, ?_⟩, by simp⟩, by simp⟩
      rw [enqueued_concat, emitted_concat, hspl, hchan]
      simp [enqueued, emitted, QueueWorld.held]

theorem start (capacity : ℕ) :
    Fifo [] ⟨{ channel := { capacity := capacity } }, none⟩ :=
  ⟨rfl, rfl, ⟨[], rfl, rfl⟩, by simp⟩

theorem step {w w' : QueueWorld} (h : Fifo es w)
    (hstep : QueueStep ReadsSucceed es w e w') : Fifo (es ++ [e]) w' := by
  cases hstep with
  | poll _ hread => exact (h.poll hread).1
  | lockEnqueue q bundles =>
    obtain ⟨hrecv, hsend, ⟨spilled, hback, hspl⟩, -⟩ := h
    refine ⟨hrecv, hsend, ⟨spilled, hback, ?_⟩, fun hdir => ?_⟩
    · rw [enqueued_concat, emitted_concat, hspl]
      simp [enqueued, emitted, QueueWorld.held]
    · obtain ⟨hemp, -⟩ := CriticalSection.enqueuing.inj (Option.some.inj hdir)
      simpa [AccountsDbIntentBacklog.isEmpty] using hemp
  | @send q b c rest htry =>
    obtain ⟨hrecv, hsend, ⟨spilled, hback, hspl⟩, hdir⟩ := h
    have hemp := hdir rfl
    obtain rfl : spilled = [] := List.map_eq_nil_iff.mp (hback.symm.trans hemp)
    obtain ⟨-, htry⟩ := Except.of_ite_error htry
    obtain ⟨-, ⟨⟩⟩ := Except.of_ite_error htry
    refine ⟨hrecv, hsend, ⟨[], hback, ?_⟩, fun _ => hemp⟩
    rw [enqueued_concat, emitted_concat, hspl]
    simp [enqueued, emitted, QueueWorld.held]
  | @spill q b rest htry =>
    obtain ⟨hrecv, hsend, ⟨spilled, hback, hspl⟩, -⟩ := h
    refine ⟨hrecv, hsend, ⟨spilled ++ b :: rest, ?_, ?_⟩, by simp⟩
    · rw [List.map_append, ← hback]
      rfl
    · rw [enqueued_concat, emitted_concat, hspl]
      simp [enqueued, emitted, QueueWorld.held]
  | closed rest htry =>
    rw [Channel.trySend_of_open h.receiver] at htry
    split at htry <;> cases htry
  | sentAll | lockPoll =>
    obtain ⟨hrecv, hsend, ⟨spilled, hback, hspl⟩, -⟩ := h
    refine ⟨hrecv, hsend, ⟨spilled, hback, ?_⟩, by simp⟩
    rw [enqueued_concat, emitted_concat, hspl]
    simp [enqueued, emitted, QueueWorld.held]
  | store q bundles =>
    obtain ⟨hrecv, hsend, ⟨spilled, hback, hspl⟩, -⟩ := h
    refine ⟨hrecv, hsend, ⟨spilled ++ bundles, ?_, ?_⟩, by simp⟩
    · rw [List.map_append, ← hback]
      rfl
    · rw [enqueued_concat, emitted_concat, hspl]
      simp [enqueued, emitted, QueueWorld.held]

end Fifo

theorem fifo_of_run (h : (queueMachine capacity ReadsSucceed).Run es w) : Fifo es w := by
  refine Machine.Run.invariant ?_ ?_ h
  · rintro _ rfl
    exact Fifo.start capacity
  · exact fun _ _ _ _ _ ih hstep => ih.step hstep

/-- At the moment of a `Pending` answer everything was emitted. -/
theorem emitted_eq_of_pending {capacity : ℕ}
    (h : (queueMachine capacity ReadsSucceed).Run (es ++ [.polled .pending]) w) :
    emitted es = enqueued es := by
  generalize hes : es ++ [QueueEvent.polled .pending] = fs at h
  cases h with
  | start => simp at hes
  | step hrun hstep =>
    obtain ⟨rfl, rfl⟩ := List.concat_inj.mp (by simpa using hes)
    generalize he : QueueEvent.polled .pending = e at hstep
    cases hstep with
    | poll _ hread => exact ((fifo_of_run hrun).poll hread).2 (QueueEvent.polled.inj he).symm
    | _ => cases he

/-- **The intent queue is first in, first out, without loss or duplication.**  For every capacity
and every interleaving of `enqueue` and `poll_next` on an open channel, with backlog reads that
find what was stored: what the stream emitted is a prefix of what was enqueued, and whenever a poll
answered `Pending` everything enqueued until then had been emitted. -/
theorem emitted_prefix_enqueued {capacity : ℕ} {es : List QueueEvent} {w : QueueWorld}
    (h : (queueMachine capacity ReadsSucceed).Run es w) :
    emitted es <+: enqueued es ∧
      ∀ es', es' ++ [.polled .pending] <+: es → emitted es' = enqueued es' := by
  constructor
  · obtain ⟨spilled, -, hspl⟩ := (fifo_of_run h).split
    exact ⟨w.queue.channel.buffer ++ spilled ++ w.held, by simp [hspl]⟩
  · intro es' hpre
    obtain ⟨w', hw'⟩ := h.cut hpre
    exact emitted_eq_of_pending hw'

/-- A channel of capacity one: the first bundle is sent, the second spilled; both come out. -/
theorem emitted_prefix_enqueued_of_spill :
    ∃ es w, (queueMachine 1 ReadsSucceed).Run es w ∧
      (emitted es).map (·.intentId) = [1, 2] ∧
      (emitted es <+: enqueued es ∧
        ∀ es', es' ++ [.polled .pending] <+: es → emitted es' = enqueued es') := by
  let b (i : IntentID) : OutboxIntentBundle := createTestIntentBundle i [1] []
  have hrun := ((((Machine.Run.start (M := queueMachine 1 ReadsSucceed) rfl).step
    (.lockEnqueue _ [b 1, b 2])).step (.send [b 2] rfl)).step (.spill [] rfl)).step (.lockPoll _)
  have hrun := (hrun.step (.poll (fun i => .found (b i)) (by rintro _ ⟨⟩; decide))).step
    (.lockPoll _)
  have hrun := (hrun.step (.poll (fun i => .found (b i)) (by rintro _ ⟨⟩; decide))).step
    (.lockPoll _)
  have hrun := hrun.step (.poll (fun i => .found (b i)) (by rintro _ ⟨⟩))
  exact ⟨_, _, hrun, by decide, emitted_prefix_enqueued hrun⟩

/-! ### Critical sections are atomic

While the lock is taken only its holder steps, so a section can be read as one call at the moment
it gets the lock: `QueueWorld.settled` is the queue as its holder will leave it. -/

/-- The queue as the producer inside will leave it. -/
def QueueWorld.settled (w : QueueWorld) : IntentQueue :=
  match w.holder with
  | some (.enqueuing true rest) =>
    (w.queue.settleSends (IntentQueue.sendEach rest w.queue.channel)).1
  | some (.enqueuing false rest) =>
    { w.queue with backlog := w.queue.backlog.storeIntentBundles rest }
  | _ => w.queue

/-- The most steps until the lock is free. -/
def QueueWorld.stepsLeft (w : QueueWorld) : ℕ :=
  match w.holder with
  | some (.enqueuing _ rest) => rest.length + 1
  | some .polling => 1
  | none => 0

/-- **The queue with atomic calls** — `enqueue` and `pollNext` are one step each. -/
inductive AtomicStep (reads : List QueueEvent → IntentID → OutboxRead → Prop)
    (es : List QueueEvent) : IntentQueue → QueueEvent → IntentQueue → Prop
  | enqueue (q : IntentQueue) (bundles : List OutboxIntentBundle) :
      AtomicStep reads es q (.enqueue bundles) (q.enqueue bundles).1
  | poll (read : IntentID → OutboxRead)
      (hread : ∀ id, q.backlog.queue.head? = some id → reads es id (read id)) :
      AtomicStep reads es q (.polled (q.pollNext read).2) (q.pollNext read).1
  | internal (q : IntentQueue) : AtomicStep reads es q .internal q
  | channelClosed (q : IntentQueue) : AtomicStep reads es q .channelClosed q

def atomicQueue (capacity : ℕ) (reads : List QueueEvent → IntentID → OutboxRead → Prop) :
    Machine IntentQueue QueueEvent where
  start q := q = { channel := { capacity := capacity } }
  step := AtomicStep reads

theorem settleSends_setChannel (q : IntentQueue) (c : Channel)
    (o : Channel × Except (TrySendError × List OutboxIntentBundle) Unit) :
    (settleSends { q with channel := c } o).1 = (q.settleSends o).1 := by
  rcases o with ⟨c', (⟨⟨e⟩ | ⟨e⟩, rest⟩ | ⟨⟩)⟩ <;> rfl

/-- **One step of a critical section is one step of the atomic queue**: the lock is where a call
takes effect, and the producer's later steps change nothing of what it will leave. -/
theorem QueueStep.atomic (h : QueueStep reads es w e w') :
    AtomicStep reads es w.settled e w'.settled := by
  cases h with
  | lockEnqueue q bundles =>
    have hsett : QueueWorld.settled ⟨q, some (.enqueuing q.backlog.isEmpty bundles)⟩
        = (q.enqueue bundles).1 := by
      cases hback : q.backlog.isEmpty <;> simp [QueueWorld.settled, enqueue, hback]
    rw [hsett]
    exact .enqueue q bundles
  | @send q b c rest htry =>
    have hsett : QueueWorld.settled ⟨q, some (.enqueuing true (b :: rest))⟩
        = QueueWorld.settled ⟨{ q with channel := c }, some (.enqueuing true rest)⟩ := by
      simp only [QueueWorld.settled, sendEach, htry, settleSends_setChannel]
    rw [hsett]
    exact .internal _
  | @spill q b rest htry =>
    simp only [QueueWorld.settled, sendEach, htry]
    exact .internal _
  | @closed q b rest htry =>
    simp only [QueueWorld.settled, sendEach, htry]
    exact .channelClosed _
  | sentAll q => exact .internal _
  | store q bundles => exact .internal _
  | lockPoll q => exact .internal _
  | poll read hread => exact .poll read hread

/-- A step inside a section brings its end nearer. -/
theorem QueueStep.stepsLeft_lt (h : QueueStep reads es w e w') (hheld : w.holder ≠ none) :
    w'.stepsLeft < w.stepsLeft := by
  cases h with
  | lockEnqueue | lockPoll => exact absurd rfl hheld
  | send | spill | closed | sentAll | store | poll => simp [QueueWorld.stepsLeft]

/-- A producer inside is never stuck. -/
theorem queueStep_enqueuing (reads : List QueueEvent → IntentID → OutboxRead → Prop)
    (es : List QueueEvent) (q : IntentQueue) (direct : Bool) (rest : List OutboxIntentBundle) :
    ∃ e w', QueueStep reads es ⟨q, some (.enqueuing direct rest)⟩ e w' := by
  cases direct with
  | false => exact ⟨_, _, .store q rest⟩
  | true =>
    cases rest with
    | nil => exact ⟨_, _, .sentAll q⟩
    | cons b rest =>
      cases htry : q.channel.trySend b with
      | ok c => exact ⟨_, _, .send rest htry⟩
      | error err =>
        -- a refused bundle comes back with the error
        unfold Channel.trySend at htry
        split at htry
        · cases htry
          exact ⟨_, _, .closed rest (by rw [Channel.trySend, if_pos ‹_›])⟩
        · split at htry
          · cases htry
            exact ⟨_, _, .spill rest (by rw [Channel.trySend, if_neg ‹_›, if_pos ‹_›])⟩
          · cases htry

/-- **Every interleaving is a run of atomic calls** with the same history, in the order in which
the calls got the lock; between calls the two queues are the same, and a producer inside always
has a step and only finitely many. -/
theorem run_atomic (h : (queueMachine capacity reads).Run es w) :
    (atomicQueue capacity reads).Run es w.settled ∧
      (w.holder = none → w.settled = w.queue) ∧
      (∀ direct rest, w.holder = some (.enqueuing direct rest) →
        ∃ e w', (queueMachine capacity reads).step es w e w') ∧
      (w.holder ≠ none → ∀ e w', (queueMachine capacity reads).step es w e w' →
        w'.stepsLeft < w.stepsLeft) := by
  refine ⟨?_, ?_, ?_, fun hheld e w' hstep => QueueStep.stepsLeft_lt hstep hheld⟩
  · induction h with
    | start hstart => exact .start (by rw [hstart]; rfl)
    | step hrun hstep ih => exact ih.step (QueueStep.atomic hstep)
  · intro hnone
    rw [QueueWorld.settled, hnone]
  · rintro direct rest hheld
    obtain ⟨q, holder⟩ := w
    obtain rfl : holder = _ := hheld
    exact queueStep_enqueuing reads es q direct rest

/-- Two bundles for one place: the first is sent, the second spills, and the queue is the one that
a single `enqueue` leaves. -/
theorem run_atomic_spill : ∃ es w, (queueMachine 1 ReadsSucceed).Run es w ∧
    (atomicQueue 1 ReadsSucceed).Run es w.queue ∧ w.holder = none ∧
    w.queue.backlog.queue = [2] := by
  let one := createTestIntentBundle 1 [1] []
  let two := createTestIntentBundle 2 [1] []
  have hrun := Machine.Run.start (M := queueMachine 1 ReadsSucceed) rfl
    |>.step (.lockEnqueue _ [one, two])
    |>.step (.send [two] rfl)
    |>.step (.spill [] rfl)
  have hatom := run_atomic hrun
  exact ⟨_, _, hrun, hatom.2.1 rfl ▸ hatom.1, rfl, rfl⟩

end Magicblock
