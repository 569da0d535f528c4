import Magicblock.Foundations.History
import Magicblock.Settlement.PendingSignature

/-!
# Rpc/Confirmer — the poll loop that waits for signatures, and those who wait

A call that waits for a signature registers in a map, unless a status is cached, and starts the poll
loop if none is running.  The loop takes the signatures of the map, fetches their statuses in
batches and answers whom they satisfy; it ends when it finds the map empty.  A call takes itself out
of the map when its time is up, but not when it is dropped.
-/

namespace Magicblock.Confirmer

/-- A `wait_with_batched_polling` call, by its `waiter_id`. -/
structure Call where
  id : BitVec 64
  signature : Signature
  deriving DecidableEq

structure StatusWaiter where
  call : Call
  commitment : CommitmentLevel
  /-- When it registered. -/
  since : ℕ

/-- A status, and when the RPC client returned it. -/
structure Fetched where
  signature : Signature
  status : TransactionStatus
  time : ℕ

inductive PollLoop
  | sleeping
  | fetching (chunks : List (List Signature)) (fetched : List Fetched)

structure PollState where
  /-- The lists of the map, one after the other. -/
  waiters : List StatusWaiter := []
  cachedStatuses : Signature → Option TransactionStatus := fun _ => none
  workerRunning : Bool := false
  nextWaiterId : BitVec 64 := 1
  loops : List PollLoop := []
  /-- The calls that have not returned and were not dropped. -/
  pending : List Call := []
  answered : List (StatusWaiter × Fetched) := []
  clock : ℕ := 0

namespace PollState

/-- The statuses that are `expired` have reached their TTL. -/
def pruneStatusCache (s : PollState) (expired : Signature → Bool) : PollState :=
  { s with cachedStatuses := fun sig => if expired sig then none else s.cachedStatuses sig }

def cachedStatus (s : PollState) (signature : Signature) (commitment : CommitmentLevel) :
    Option TransactionStatus :=
  (s.cachedStatuses signature).filter (·.satisfiesCommitment commitment)

/-- The id is drawn in any case, and wraps. -/
def waitWithBatchedPolling (s : PollState) (signature : Signature) (commitment : CommitmentLevel) :
    PollState :=
  if (s.cachedStatus signature commitment).isSome then { s with nextWaiterId := s.nextWaiterId + 1 }
  else
    { s with
      nextWaiterId := s.nextWaiterId + 1
      waiters := s.waiters ++ [⟨⟨s.nextWaiterId, signature⟩, commitment, s.clock⟩]
      pending := s.pending ++ [⟨s.nextWaiterId, signature⟩]
      workerRunning := true
      loops := if s.workerRunning then s.loops else s.loops ++ [.sleeping] }

def removeWaiter (s : PollState) (call : Call) : PollState :=
  { s with waiters := s.waiters.filter (·.call ≠ call) }

end PollState

def Fetched.answers (f : Fetched) (w : StatusWaiter) : Bool :=
  w.call.signature = f.signature && f.status.satisfiesCommitment w.commitment

def PollState.applyStatus (s : PollState) (f : Fetched) : PollState :=
  { s with
    cachedStatuses := Function.update s.cachedStatuses f.signature (some f.status)
    waiters := s.waiters.filter (!f.answers ·)
    answered := s.answered ++ (s.waiters.filter (f.answers ·)).map (·, f) }

inductive PollEvent
  | wait (signature : Signature) (commitment : CommitmentLevel) (expired : Signature → Bool)
  /-- A call without time looks at the cache only. -/
  | look (expired : Signature → Bool)
  | timedOut (call : Call)
  | returned (call : Call)
  | dropped (call : Call)
  /-- A loop locks the map; `keys` are its keys in some order. -/
  | wake (i : ℕ) (keys : List Signature) (expired : Signature → Bool)
  | responded (i : ℕ) (chunk : List Signature) (response : Option (List (Option TransactionStatus)))
  | apply (i : ℕ)

/-- The statuses of a response, `none` being an error. -/
def statusesOf (chunk : List Signature) (response : Option (List (Option TransactionStatus)))
    (time : ℕ) : List Fetched :=
  (chunk.zip (response.getD [])).filterMap fun x => x.2.map (⟨x.1, ·, time⟩)

variable (batchSize : ℕ)

/-- **What holds the map's mutex happens in one step.** -/
inductive PollStep (s : PollState) : PollEvent → PollState → Prop
  | wait : PollStep s (.wait signature commitment expired)
      ((s.pruneStatusCache expired).waitWithBatchedPolling signature commitment)
  | look : PollStep s (.look expired) (s.pruneStatusCache expired)
  | timedOut (h : call ∈ s.pending) :
    PollStep s (.timedOut call) { s.removeWaiter call with pending := s.pending.filter (· ≠ call) }
  /-- Its status was sent. -/
  | returned (h : ∀ w ∈ s.waiters, w.call ≠ call) :
    PollStep s (.returned call) { s with pending := s.pending.filter (· ≠ call) }
  | dropped (h : call ∈ s.pending) :
    PollStep s (.dropped call) { s with pending := s.pending.filter (· ≠ call) }
  | stop (hi : s.loops[i]? = some .sleeping) (h : s.waiters = []) : PollStep s (.wake i [] expired)
      { s.pruneStatusCache expired with workerRunning := false, loops := s.loops.eraseIdx i }
  | wake (hi : s.loops[i]? = some .sleeping) (h : s.waiters ≠ [])
      (hkeys : keys.Perm (s.waiters.map (·.call.signature)).dedup) :
    PollStep s (.wake i keys expired)
      { s.pruneStatusCache expired with
        loops := s.loops.set i (.fetching (keys.toChunks batchSize) []) }
  | responded (hi : s.loops[i]? = some (.fetching (chunk :: chunks) fetched)) :
    PollStep s (.responded i chunk response)
      { s with
        loops := s.loops.set i (.fetching chunks (fetched ++ statusesOf chunk response s.clock)) }
  | apply (hi : s.loops[i]? = some (.fetching [] fetched)) : PollStep s (.apply i)
      { fetched.foldl PollState.applyStatus s with loops := s.loops.set i .sleeping }

def pollMachine : Machine PollState PollEvent where
  start s := s = {}
  step _ s e t := ∃ s', PollStep batchSize s e s' ∧ t = { s' with clock := s.clock + 1 }

/-! ### What a run preserves -/

/-- The status was returned for its signature. -/
def Fetched.From (es : List PollEvent) (f : Fetched) : Prop :=
  ∃ i chunk values, .responded i chunk (some values) ∈ es ∧
    (f.signature, some f.status) ∈ chunk.zip values

def PollLoop.statuses : PollLoop → List Fetched
  | sleeping => []
  | fetching _ fetched => fetched

structure PollState.Served (es : List PollEvent) (s : PollState) : Prop where
  single : s.loops.length = s.workerRunning.toNat
  running : s.waiters ≠ [] → s.workerRunning
  fetched : ∀ loop ∈ s.loops, ∀ f ∈ loop.statuses, f.From es
  answered : ∀ a ∈ s.answered, a.2.answers a.1 ∧ a.2.From es

variable {batchSize} {s t : PollState} {es : List PollEvent}

theorem Fetched.From.concat (h : Fetched.From es f) : f.From (es ++ [e]) := by
  obtain ⟨i, chunk, values, hmem, hzip⟩ := h
  exact ⟨i, chunk, values, List.mem_append_left _ hmem, hzip⟩

theorem from_of_mem_statusesOf (h : f ∈ statusesOf chunk response time) :
    f.From (es ++ [.responded i chunk response]) := by
  obtain ⟨⟨sig, status⟩, hmem, hf⟩ := List.mem_filterMap.mp h
  obtain ⟨status, rfl, rfl⟩ := Option.map_eq_some_iff.mp hf
  cases response with
  | none => simp at hmem
  | some values => exact ⟨i, chunk, values, by simp, hmem⟩

/-- What applying statuses changes: some waiters leave, each with an answer. -/
structure Applied (fetched : List Fetched) (s t : PollState) : Prop where
  running : t.workerRunning = s.workerRunning
  pending : t.pending = s.pending
  waiters : t.waiters ⊆ s.waiters
  answered : ∀ a ∈ t.answered, a ∈ s.answered ∨ a.2 ∈ fetched ∧ a.2.answers a.1

theorem applied_foldl : Applied fetched s (fetched.foldl PollState.applyStatus s) := by
  induction fetched generalizing s with
  | nil => exact ⟨rfl, rfl, fun _ => id, fun _ => .inl⟩
  | cons f fetched ih =>
    obtain ⟨hbusy, hpend, hwtrs, hans⟩ := ih (s := s.applyStatus f)
    refine ⟨hbusy, hpend, fun w hw => List.mem_of_mem_filter (hwtrs hw), fun a ha => ?_⟩
    rcases hans a ha with ha | ⟨ha, hanswers⟩
    · rcases List.mem_append.mp ha with ha | ha
      · exact .inl ha
      · obtain ⟨w, hw, rfl⟩ := List.mem_map.mp ha
        exact .inr ⟨List.mem_cons_self, (List.mem_filter.mp hw).2⟩
    · exact .inr ⟨List.mem_cons_of_mem _ ha, hanswers⟩

/-- There is no second loop. -/
theorem PollState.Served.eraseIdx_loops (h : s.Served es) (hi : s.loops[i]? = some loop) :
    s.loops.eraseIdx i = [] := by
  obtain ⟨hlt, -⟩ := List.getElem?_eq_some_iff.mp hi
  refine List.eq_nil_of_length_eq_zero ?_
  have hle := Bool.toNat_le s.workerRunning
  rw [List.length_eraseIdx_of_lt hlt, h.single]
  omega

theorem PollState.Served.step (h : s.Served es) (hstep : PollStep batchSize s e t) :
    t.Served (es ++ [e]) := by
  have hfet : ∀ loop ∈ s.loops, ∀ f ∈ loop.statuses, f.From (es ++ [e]) :=
    fun loop hloop f hf => (h.fetched loop hloop f hf).concat
  have hans : ∀ a ∈ s.answered, a.2.answers a.1 ∧ a.2.From (es ++ [e]) :=
    fun a ha => ⟨(h.answered a ha).1, (h.answered a ha).2.concat⟩
  have hset : ∀ {i loop}, (∀ f ∈ loop.statuses, f.From (es ++ [e])) →
      ∀ loop' ∈ s.loops.set i loop, ∀ f ∈ loop'.statuses, f.From (es ++ [e]) := by
    intro i loop hloop loop' hloop'
    rcases List.mem_or_eq_of_mem_set hloop' with hloop' | rfl
    · exact hfet loop' hloop'
    · exact hloop
  have hsgl := h.single
  cases hstep with
  | wait =>
    rw [PollState.waitWithBatchedPolling]
    split_ifs with _ hbusy
    · exact ⟨hsgl, h.running, hfet, hans⟩
    · exact ⟨hsgl.trans (congrArg _ hbusy), fun _ => rfl, hfet, hans⟩
    · have hoff : s.workerRunning = false := Bool.eq_false_iff.mpr hbusy
      refine ⟨?_, fun _ => rfl, ?_, hans⟩
      · exact List.length_append.trans (congrArg (· + 1) (hsgl.trans (congrArg _ hoff)))
      · exact List.forall_mem_append.mpr ⟨hfet, by simp [PollLoop.statuses]⟩
  | timedOut =>
    exact ⟨h.single, fun hw => h.running fun hnil => hw (by simp [PollState.removeWaiter, hnil]),
      hfet, hans⟩
  | look | returned | dropped => exact ⟨h.single, h.running, hfet, hans⟩
  | stop hi hnil =>
    rw [h.eraseIdx_loops hi]
    exact ⟨rfl, fun hw => absurd hnil hw, by simp, hans⟩
  | wake hi =>
    exact ⟨List.length_set.trans hsgl, h.running, hset (by simp [PollLoop.statuses]), hans⟩
  | responded hi =>
    refine ⟨List.length_set.trans hsgl, h.running, hset fun f hf => ?_, hans⟩
    rcases List.mem_append.mp hf with hf | hf
    · exact hfet _ (List.mem_of_getElem? hi) f hf
    · exact from_of_mem_statusesOf hf
  | apply hi =>
    obtain ⟨hbusy, -, hwtrs, happly⟩ := applied_foldl (s := s)
    refine ⟨List.length_set.trans (hbusy ▸ hsgl),
      fun hw => hbusy ▸ h.running fun hnil => ?_, hset (by simp [PollLoop.statuses]),
      fun a ha => ?_⟩
    · exact hw (List.eq_nil_of_subset_nil (hnil ▸ hwtrs))
    · rcases happly a ha with ha | ⟨ha, hanswers⟩
      · exact hans a ha
      · exact ⟨hanswers, hfet _ (List.mem_of_getElem? hi) _ ha⟩

theorem served_of_run (h : (pollMachine batchSize).Run es s) : s.Served es := by
  refine Machine.Run.invariant ?_ ?_ h
  · rintro _ rfl
    exact ⟨rfl, fun h => absurd rfl h, by simp, by simp⟩
  · rintro es s e _ - ih ⟨t, hstep, rfl⟩
    obtain ⟨hsgl, hbusy, hfet, hans⟩ := ih.step hstep
    exact ⟨hsgl, hbusy, hfet, hans⟩

/-- **No waiter is stranded, and none is answered with the status of another signature.** -/
theorem waiters_served (h : (pollMachine batchSize).Run es s) :
    (s.waiters ≠ [] → s.workerRunning ∧ s.loops.length = 1) ∧
      ∀ w f, (w, f) ∈ s.answered → f.signature = w.call.signature ∧
        f.status.satisfiesCommitment w.commitment ∧ f.From es := by
  have hserv := served_of_run h
  refine ⟨fun hw => ⟨hserv.running hw, ?_⟩, fun w f ha => ?_⟩
  · rw [hserv.single, hserv.running hw]
    rfl
  · obtain ⟨hanswers, hfrom⟩ := hserv.answered _ ha
    obtain ⟨hsig, hsats⟩ := Bool.and_eq_true_iff.mp hanswers
    exact ⟨(of_decide_eq_true hsig).symm, hsats, hfrom⟩

/-- **A call is dropped only if it is not in the map.** -/
def OutOfMap (s : PollState) : PollEvent → Prop
  | .dropped call => ∀ w ∈ s.waiters, w.call ≠ call
  | _ => True

theorem pending_step (h : ∀ w ∈ s.waiters, w.call ∈ s.pending) (hout : OutOfMap s e)
    (hstep : PollStep batchSize s e t) : ∀ w ∈ t.waiters, w.call ∈ t.pending := by
  cases hstep with
  | wait =>
    rw [PollState.waitWithBatchedPolling]
    split_ifs
    · exact h
    all_goals
      refine List.forall_mem_append.mpr ⟨fun w hw => List.mem_append_left _ (h w hw), ?_⟩
      simp
  | timedOut =>
    intro w hw
    obtain ⟨hw, hne⟩ := List.mem_filter.mp hw
    exact List.mem_filter.mpr ⟨h w hw, hne⟩
  | returned hcall => exact fun w hw => List.mem_filter.mpr ⟨h w hw, by simpa using hcall w hw⟩
  | dropped => exact fun w hw => List.mem_filter.mpr ⟨h w hw, by simpa using hout w hw⟩
  | look | stop | wake | responded => exact h
  | apply =>
    obtain ⟨-, hpend, hwtrs, -⟩ := applied_foldl (s := s)
    exact fun w hw => hpend ▸ h w (hwtrs hw)

/-- **Each waiter belongs to a call that is pending** — along runs in which a call is dropped only
if it is not in the map; and when no call is pending the loop ends as it wakes. -/
theorem waiters_pending (h : ((pollMachine batchSize).guarded OutOfMap).Run es s) :
    (∀ w ∈ s.waiters, w.call ∈ s.pending) ∧ (s.pending = [] → s.waiters = [] ∧ ∀ i keys expired t,
      (pollMachine batchSize).step es s (.wake i keys expired) t → t.loops = []) := by
  have hpend : ∀ w ∈ s.waiters, w.call ∈ s.pending := by
    refine Machine.Run.invariant ?_ ?_ h
    · rintro _ rfl
      simp
    · rintro es s e _ - ih ⟨hout, t, hstep, rfl⟩
      have hstep := pending_step ih hout hstep
      exact hstep
  refine ⟨hpend, fun hnone => ?_⟩
  have hnil : s.waiters = [] := by
    refine List.eq_nil_iff_forall_not_mem.mpr fun w hw => ?_
    simpa [hnone] using hpend w hw
  refine ⟨hnil, ?_⟩
  rintro i keys expired _ ⟨t, hstep, rfl⟩
  cases hstep with
  | stop hi => exact (served_of_run h.of_guarded).eraseIdx_loops hi
  | wake _ hne => exact absurd hnil hne

/-! ### A status that was fetched before, and a call that is dropped -/

namespace PollExample

def register (signature : Signature) : PollEvent := .wait signature .processed fun _ => false

/-- The first call has registered. -/
def registered : PollState where
  waiters := [⟨⟨1, 7⟩, .processed, 0⟩]
  workerRunning := true
  nextWaiterId := 2
  loops := [.sleeping]
  pending := [⟨1, 7⟩]
  clock := 1

theorem run_registered : ((pollMachine 1).guarded OutOfMap).Run [register 7] registered :=
  .step (.start rfl) ⟨trivial, _, .wait, rfl⟩

/-- The second call registers after the status was fetched. -/
theorem run_answered : ∃ es s, (pollMachine 1).Run es s ∧ s.cachedStatus 8 .processed = none ∧
    (⟨⟨2, 7⟩, .processed, 3⟩, ⟨7, ⟨none, .processed⟩, 2⟩) ∈ s.answered := by
  have happly := run_registered.of_guarded.next (.wake 0 [7] fun _ => false)
      ⟨_, .wake rfl (List.cons_ne_nil _ _) (by simp [registered]), rfl⟩
    |>.next (.responded 0 [7] (some [some ⟨none, .processed⟩])) ⟨_, .responded rfl, rfl⟩
    |>.next (register 7) ⟨_, .wait, rfl⟩ |>.next (.apply 0) ⟨_, .apply rfl, rfl⟩
  refine ⟨_, _, happly, ?_, ?_⟩ <;>
  simp [PollState.applyStatus, Fetched.answers, TransactionStatus.satisfiesCommitment, registered,
    PollState.waitWithBatchedPolling, PollState.cachedStatus, PollState.pruneStatusCache,
    statusesOf]

end PollExample

open PollExample in
/-- A third call waits for another signature. -/
theorem waiters_served_waiting : ∃ es s w f, (pollMachine 1).Run es s ∧
    (s.workerRunning ∧ s.loops.length = 1) ∧ (w, f) ∈ s.answered ∧
    f.signature = w.call.signature ∧ f.status.satisfiesCommitment w.commitment ∧ f.From es := by
  obtain ⟨es, s, hrun, hcache, hans⟩ := run_answered
  have hwait := hrun.next (register 8) ⟨_, .wait, rfl⟩
  have hnone : (s.pruneStatusCache fun _ => false).cachedStatus 8 .processed = none := hcache
  simp only [PollState.waitWithBatchedPolling, hnone, Option.isSome_none, Bool.false_eq_true,
    if_false] at hwait
  have hserv := waiters_served hwait
  exact ⟨_, _, _, _, hwait, hserv.1 (by simp), hans, hserv.2 _ _ hans⟩

open PollExample in
theorem waiters_pending_waiting : (⟨1, 7⟩ : Call) ∈ registered.pending :=
  (waiters_pending run_registered).1 ⟨⟨1, 7⟩, .processed, 0⟩ (.head _)

open PollExample in
/-- **A waiter can be answered with a status that was fetched before it registered.** -/
theorem answered_before : ∃ es s w f, (pollMachine 1).Run es s ∧ (w, f) ∈ s.answered ∧
    f.time < w.since := by
  obtain ⟨es, s, hrun, -, hans⟩ := run_answered
  exact ⟨es, s, _, _, hrun, hans, Nat.lt_succ_self 2⟩

open PollExample in
/-- **A waiter can outlive its call.** -/
theorem waiter_dropped : ∃ es s, (pollMachine 1).Run es s ∧ s.pending = [] ∧ s.waiters ≠ [] := by
  refine ⟨_, _, run_registered.of_guarded.next (.dropped ⟨1, 7⟩) ⟨_, .dropped (.head _), rfl⟩, ?_,
    List.cons_ne_nil _ _⟩
  dsimp only
  rw [List.filter_eq_nil_iff]
  exact fun call hcall hne => of_decide_eq_true hne (List.mem_singleton.mp hcall)

end Magicblock.Confirmer
