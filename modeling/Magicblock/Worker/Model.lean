import Magicblock.Foundations.History
import Magicblock.Settlement.Intent

/-!
# Worker/Model — the main loop and its executors

The worker of `committor/src/execution/worker.rs`.  Its main loop takes the next scheduled intent,
waits for an executor permit and spawns an executor; `selecting` is the `select!` of
`next_scheduled_intent`.  An executor retries its intent, without a permit while it backs off, tells
the scheduler how it ended, and returns.  The loop learns of that only when it reaps the executor.

Between two steps anything can happen that another task does.  The `biased` of the `select!` is left
out: it prefers a branch only among those that are ready when they are polled.  Nothing closes the
semaphores, and the yield after a batch of turns is just a moment at the top of the loop.
-/

namespace Magicblock

/-! ### Executors -/

/-- The permits that are free, and whether a notification waits for the main loop. -/
structure ExecutionLimits where
  executors : ℕ
  retries : ℕ
  capacityChanged : Bool
  deriving DecidableEq

inductive ExecutorPhase where
  /-- Before an attempt. -/
  | starting (attempt : ℕ)
  | running (attempt : ℕ)
  /-- In back-off; the executor permit is given back. -/
  | sleeping (attempt : ℕ)
  /-- After back-off, waiting for a permit. -/
  | waking (attempt : ℕ)
  /-- The result is final, and the scheduler does not know it. -/
  | reporting (isErr : Bool)
  /-- The scheduler knows; the permit is still held. -/
  | reported
  | returned
  | panicked
  deriving DecidableEq

/-- **A step of an executor**: its phase, the limits and the scheduler after it. -/
inductive ExecutorStep (stop : Bool) (intent : OutboxIntentBundle) (limits : ExecutionLimits)
    (s : IntentScheduler) : ExecutorPhase → ExecutorPhase → ExecutionLimits → IntentScheduler → Prop
  | start : ExecutorStep stop intent limits s (.starting attempt) (.running attempt) limits s
  | backOff {result : IntentExecutionResult} (hatt : attempt < maxIntentAttempts)
      (hres : result.isRetriable (!intent.getAllCommittedPubkeys.isEmpty))
      (hretries : 0 < limits.retries) :
      ExecutorStep stop intent limits s (.running attempt) (.sleeping attempt)
        ⟨limits.executors + 1, limits.retries - 1, true⟩ s
  /-- No more attempts, nothing to retry, or no slot for a retry. -/
  | finish {result : IntentExecutionResult}
      (hfinal : maxIntentAttempts ≤ attempt ∨
        result.isRetriable (!intent.getAllCommittedPubkeys.isEmpty) = false ∨ limits.retries = 0) :
      ExecutorStep stop intent limits s (.running attempt)
        (.reporting (!result.inner.isOk)) limits s
  | wake : ExecutorStep stop intent limits s (.sleeping attempt) (.waking attempt) limits s
  | resume (hperm : 0 < limits.executors) :
      ExecutorStep stop intent limits s (.waking attempt) (.starting (attempt + 1))
        { limits with executors := limits.executors - 1, retries := limits.retries + 1 } s
  | complete : ExecutorStep stop intent limits s (.reporting false) .reported limits
      (s.complete intent).1
  | failed (search : Pubkey → BinarySearch IntentID) :
      ExecutorStep stop intent limits s (.reporting true) .reported limits
        (s.failed search intent).1
  | finished : ExecutorStep stop intent limits s .reported .returned
      { limits with executors := limits.executors + 1 } s
  /-- A stop ends it before an attempt … -/
  | stopStarting (hstop : stop) : ExecutorStep stop intent limits s (.starting attempt) .returned
        { limits with executors := limits.executors + 1 } s
  /-- … and in back-off. -/
  | stopSleeping (hstop : stop) : ExecutorStep stop intent limits s (.sleeping attempt) .returned
        { limits with retries := limits.retries + 1 } s
  | stopWaking (hstop : stop) : ExecutorStep stop intent limits s (.waking attempt) .returned
        { limits with retries := limits.retries + 1 } s
  /-- The runner can panic when it reads the intent again, or when it executes it. -/
  | panicStarting : ExecutorStep stop intent limits s (.starting attempt) .panicked
      { limits with executors := limits.executors + 1 } s
  | panicRunning : ExecutorStep stop intent limits s (.running attempt) .panicked
      { limits with executors := limits.executors + 1 } s

structure Executor where
  intent : OutboxIntentBundle
  phase : ExecutorPhase
  deriving DecidableEq

namespace Executor

/-- It executes its intent, and is not in retry back-off. -/
def isExecuting (e : Executor) : Bool :=
  match e.phase with
  | .starting _ | .running _ | .reporting _ | .reported => true
  | .sleeping _ | .waking _ | .returned | .panicked => false

/-- It is done with its intent. -/
def isFinished (e : Executor) : Bool :=
  match e.phase with
  | .reported | .returned => true
  | .starting _ | .running _ | .sleeping _ | .waking _ | .reporting _ | .panicked => false

end Executor

/-! ### The main loop -/

inductive MainLoop where
  | top
  /-- `next_scheduled_intent` has counted the blocked intents. -/
  | counted (blocked : ℕ)
  | selecting (canReceive : Bool)
  /-- Has an intent and waits for a permit. -/
  | holding (intent : OutboxIntentBundle)
  /-- The loop has ended; `run` joins the executors that are left. -/
  | joining
  /-- `run` has returned. -/
  | ended
  deriving DecidableEq

namespace MainLoop

def isRunning : MainLoop → Bool
  | top | counted _ | selecting _ | holding _ => true
  | joining | ended => false

/-- A stop drops the loop where it awaits. -/
def isAwaiting : MainLoop → Bool
  | top | selecting _ | holding _ => true
  | counted _ | joining | ended => false

/-- What `next_scheduled_intent` returned. -/
def ofSelected : Option OutboxIntentBundle → MainLoop
  | none => top
  | some intent => holding intent

end MainLoop

def maxExecutors : ℕ := 50
def schedulerCapacity : ℕ := 3000
def schedulerHardCapacity : ℕ := 6000
def maxSleepingRetriers : ℕ := 5000

/-- Beyond the normal capacity, intents are admitted only while executors are free. -/
def canReceive (blocked availablePermits : ℕ) : Bool :=
  blocked < schedulerCapacity || blocked < schedulerHardCapacity && 0 < availablePermits

structure IntentExecutor where
  scheduler : IntentScheduler
  runningExecutors : List Executor
  limits : ExecutionLimits
  schedulerNeedsDrain : Bool
  stop : Bool
  mainLoop : MainLoop

def IntentExecutor.new : IntentExecutor where
  scheduler := .new
  runningExecutors := []
  limits := ⟨maxExecutors, maxSleepingRetriers, false⟩
  schedulerNeedsDrain := false
  stop := false
  mainLoop := .top

/-! ### Runs -/

inductive WorkerEvent where
  | admitted (intent : OutboxIntentBundle)
  | mainLoop
  | executor
  | stop
  deriving DecidableEq

/-- The intents that the stream delivered. -/
def admitted (es : List WorkerEvent) : List OutboxIntentBundle :=
  es.filterMap fun
    | .admitted intent => some intent
    | _ => none

@[simp] theorem admitted_concat :
    admitted (es ++ [e]) = admitted es ++ admitted [e] :=
  List.filterMap_append

/-- **What the stream may deliver**: bundles with distinct keys and new ids.  Ids matter only if
something is committed, and not if the scheduler recognises the duplicate. -/
structure Deliverable (es : List WorkerEvent) (s : IntentScheduler) (b : OutboxIntentBundle) :
    Prop where
  keys : b.getAllCommittedPubkeys.Nodup
  id : b.getAllCommittedPubkeys = [] ∨ s.isDuplicate b.intentId ∨
    ∀ c ∈ admitted es, c.intentId ≠ b.intentId

/-- The main loop goes on, and nothing else changes. -/
inductive Turn (w : IntentExecutor) : MainLoop → Prop
  | count (hloop : w.mainLoop = .top) : Turn w (.counted w.scheduler.intentsBlocked)
  | check (hloop : w.mainLoop = .counted blocked) :
      Turn w (.selecting (canReceive blocked w.limits.executors))
  | dbError (hloop : w.mainLoop = .selecting true) : Turn w .top
  | channelClosed (hloop : w.mainLoop = .selecting true) : Turn w .joining
  | stopped (hstop : w.stop) (hloop : w.mainLoop.isAwaiting) : Turn w .joining
  | joined (hloop : w.mainLoop = .joining) (hexecs : w.runningExecutors = []) : Turn w .ended

/-- **A step of the worker.** -/
inductive WorkerStep (es : List WorkerEvent) (w : IntentExecutor) :
    WorkerEvent → IntentExecutor → Prop
  | turn (hturn : Turn w next) : WorkerStep es w .mainLoop { w with mainLoop := next }
  | reap {canReceive : Bool} {e : Executor} {before after : List Executor}
      (hloop : w.mainLoop = .selecting canReceive) (he : w.runningExecutors = before ++ e :: after)
      (hph : e.phase = .returned) :
      WorkerStep es w .mainLoop
        { w with
          runningExecutors := before ++ after
          schedulerNeedsDrain := true
          mainLoop := .top }
  /-- A blocked intent becomes the next one; if there is none, the flag is taken back. -/
  | drain {canReceive : Bool} {order : List (Sigma fun _ : IntentID => ℕ)}
      (hloop : w.mainLoop = .selecting canReceive) (hdrain : w.schedulerNeedsDrain)
      (hord : order.Perm w.scheduler.executeCandidates.entries) :
      WorkerStep es w .mainLoop
        { w with
          scheduler := (w.scheduler.popNextScheduledIntent order).1
          schedulerNeedsDrain :=
            if (w.scheduler.popNextScheduledIntent order).2.isNone then false
            else w.schedulerNeedsDrain
          mainLoop := .ofSelected (w.scheduler.popNextScheduledIntent order).2 }
  | notified {canReceive : Bool} (hloop : w.mainLoop = .selecting canReceive)
      (hnot : w.limits.capacityChanged) :
      WorkerStep es w .mainLoop
        { w with limits := { w.limits with capacityChanged := false }, mainLoop := .top }
  | receive (hloop : w.mainLoop = .selecting true) (hb : Deliverable es w.scheduler b) :
      WorkerStep es w (.admitted b)
        { w with
          scheduler := (w.scheduler.schedule b).1
          mainLoop := .ofSelected (w.scheduler.schedule b).2 }
  | spawn (hloop : w.mainLoop = .holding b) (hperm : 0 < w.limits.executors) :
      WorkerStep es w .mainLoop
        { w with
          runningExecutors := w.runningExecutors ++ [⟨b, .starting 1⟩]
          limits := { w.limits with executors := w.limits.executors - 1 }
          mainLoop := .top }
  /-- After the loop, executors are joined and nothing is drained. -/
  | join {before after : List Executor} (hloop : w.mainLoop = .joining)
      (he : w.runningExecutors = before ++ e :: after) (hph : e.phase = .returned) :
      WorkerStep es w .mainLoop { w with runningExecutors := before ++ after }
  /-- The panic of an executor ends the worker. -/
  | panicked {before after : List Executor}
      (hloop : (∃ canReceive, w.mainLoop = .selecting canReceive) ∨ w.mainLoop = .joining)
      (he : w.runningExecutors = before ++ e :: after) (hph : e.phase = .panicked) :
      WorkerStep es w .mainLoop { w with runningExecutors := before ++ after, mainLoop := .ended }
  | stop : WorkerStep es w .stop { w with stop := true }
  | executor {before after : List Executor} (he : w.runningExecutors = before ++ e :: after)
      (hstep : ExecutorStep w.stop e.intent w.limits w.scheduler e.phase phase limits s) :
      WorkerStep es w .executor
        { w with
          scheduler := s
          runningExecutors := before ++ { e with phase := phase } :: after
          limits := limits }

def workerMachine : Machine IntentExecutor WorkerEvent where
  start w := w = .new
  step := WorkerStep

end Magicblock
