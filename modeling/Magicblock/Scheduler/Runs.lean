import Magicblock.Foundations.History
import Magicblock.Scheduler.Cascade

/-!
# Scheduler/Runs — whole histories of the scheduler

A run records every call with its answer (`SchedulerEvent`), and the `Ledger` reads off a history
what an outside observer knows: what was scheduled, what was handed out (by `schedule` or by
`pop_next_scheduled_intent`), and what of it is still executing.  `schedulerMachine` is the
scheduler under a usage discipline: which bundles may be scheduled, and which may be finished.
-/

namespace Magicblock

/-- One call of the scheduler, with its answer. -/
inductive SchedulerEvent where
  | scheduled (b : OutboxIntentBundle) (out : Option OutboxIntentBundle)
  | popped (out : Option OutboxIntentBundle)
  | completed (b : OutboxIntentBundle) (res : Except IntentSchedulerError Unit)
  | failed (b : OutboxIntentBundle) (res : Except IntentSchedulerError (List OutboxIntentBundle))

/-- A finishing call on `b` finishes `c`: it names the id, and commits something iff `c` does. -/
def Finishes (b c : OutboxIntentBundle) : Prop :=
  c.intentId = b.intentId ∧ (c.getAllCommittedPubkeys = [] ↔ b.getAllCommittedPubkeys = [])

instance (b c : OutboxIntentBundle) : Decidable (Finishes b c) :=
  inferInstanceAs (Decidable (_ ∧ _))

/-- **What the history tells** — each list in the order of the calls. -/
structure Ledger where
  scheduled : List OutboxIntentBundle := []
  handedOut : List OutboxIntentBundle := []
  executing : List OutboxIntentBundle := []

namespace Ledger

def enter (L : Ledger) (b : OutboxIntentBundle) : Ledger :=
  { L with scheduled := L.scheduled ++ [b] }

def handOut (L : Ledger) : Option OutboxIntentBundle → Ledger
  | none => L
  | some b => { L with handedOut := L.handedOut ++ [b], executing := L.executing ++ [b] }

def finish (L : Ledger) (b : OutboxIntentBundle) : Ledger :=
  { L with executing := L.executing.filter fun c => ¬ Finishes b c }

/-- A rejected `complete` or `failed` finishes nothing. -/
def record (L : Ledger) : SchedulerEvent → Ledger
  | .scheduled b out => (L.enter b).handOut out
  | .popped out => L.handOut out
  | .completed b (.ok _) => L.finish b
  | .completed _ (.error _) => L
  | .failed b (.ok _) => L.finish b
  | .failed _ (.error _) => L

end Ledger

def ledger (es : List SchedulerEvent) : Ledger := es.foldl Ledger.record {}

@[simp] theorem ledger_concat : ledger (es ++ [e]) = (ledger es).record e := by
  simp [ledger]

/-! ### The machine -/

/-- **One call**, under a discipline for what may be scheduled and what may be finished. -/
inductive SchedulerStep (admits finishes : List SchedulerEvent → OutboxIntentBundle → Prop)
    (es : List SchedulerEvent) (s : IntentScheduler) : SchedulerEvent → IntentScheduler → Prop
  | schedule (hkeys : b.getAllCommittedPubkeys.Nodup) (hb : admits es b) :
      SchedulerStep admits finishes es s (.scheduled b (s.schedule b).2) (s.schedule b).1
  | pop (hord : order.Perm s.executeCandidates.entries) :
      SchedulerStep admits finishes es s (.popped (s.popNextScheduledIntent order).2)
        (s.popNextScheduledIntent order).1
  | complete (hkeys : b.getAllCommittedPubkeys.Nodup) (hb : finishes es b) :
      SchedulerStep admits finishes es s (.completed b (s.complete b).2) (s.complete b).1
  | failed (search : Pubkey → BinarySearch IntentID)
      (hkeys : b.getAllCommittedPubkeys.Nodup) (hb : finishes es b) :
      SchedulerStep admits finishes es s (.failed b (s.failed search b).2) (s.failed search b).1

/-- The scheduler from empty, under a usage discipline. -/
def schedulerMachine (admits finishes : List SchedulerEvent → OutboxIntentBundle → Prop) :
    Machine IntentScheduler SchedulerEvent where
  start s := s = .new
  step := SchedulerStep admits finishes

/-- No earlier bundle has this id. -/
def FreshId (es : List SchedulerEvent) (b : OutboxIntentBundle) : Prop :=
  ∀ c ∈ (ledger es).scheduled, c.intentId ≠ b.intentId

instance (es : List SchedulerEvent) (b : OutboxIntentBundle) : Decidable (FreshId es b) :=
  inferInstanceAs (Decidable (∀ c ∈ (ledger es).scheduled, _))

/-- All earlier bundles have smaller ids. -/
def IncreasingId (es : List SchedulerEvent) (b : OutboxIntentBundle) : Prop :=
  ∀ c ∈ (ledger es).scheduled, c.intentId < b.intentId

instance (es : List SchedulerEvent) (b : OutboxIntentBundle) : Decidable (IncreasingId es b) :=
  inferInstanceAs (Decidable (∀ c ∈ (ledger es).scheduled, _))

/-- Only bundles that were handed out and are not finished are finished. -/
def OnlyExecuting (es : List SchedulerEvent) (b : OutboxIntentBundle) : Prop :=
  b ∈ (ledger es).executing

instance (es : List SchedulerEvent) (b : OutboxIntentBundle) : Decidable (OnlyExecuting es b) :=
  inferInstanceAs (Decidable (b ∈ (ledger es).executing))

/-- Any call is made, sensible or not. -/
def AnyBundle (_ : List SchedulerEvent) (_ : OutboxIntentBundle) : Prop := True

/-- A stricter discipline has fewer runs. -/
theorem schedulerMachine_mono (hadms : ∀ es b, admits es b → admits' es b)
    (hfins : ∀ es b, finishes es b → finishes' es b)
    (h : (schedulerMachine admits finishes).Run es s) :
    (schedulerMachine admits' finishes').Run es s := by
  refine Machine.Run.mono ?_ (fun es s e t _ hstep => ?_) h
  · exact fun _ hs => hs
  · cases hstep with
    | schedule hkeys hb => exact .schedule hkeys (hadms _ _ hb)
    | pop hord => exact .pop hord
    | complete hkeys hb => exact .complete hkeys (hfins _ _ hb)
    | failed search hkeys hb => exact .failed search hkeys (hfins _ _ hb)

theorem IncreasingId.freshId (h : IncreasingId es b) : FreshId es b :=
  fun c hc => (h c hc).ne

end Magicblock
