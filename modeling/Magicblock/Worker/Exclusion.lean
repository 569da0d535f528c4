import Magicblock.Scheduler.Exclusion
import Magicblock.Worker.Drain

/-!
# Worker/Exclusion — the worker drives the scheduler within its discipline

The scheduler relies on its callers: only what is executing may be finished.  `Drives` reads a run
of the worker as such a run of the scheduler, in which the intents in the worker's hands execute.
-/

namespace Magicblock

open List IntentScheduler MainLoop OutboxIntentBundle

/-! ### What the worker has taken -/

/-- The scheduler does not know intents without committed keys. -/
def OutboxIntentBundle.keyed (b : OutboxIntentBundle) : List OutboxIntentBundle :=
  [b].filter (!·.getAllCommittedPubkeys.isEmpty)

/-- The intent of an executor that has neither reported nor ended. -/
def Executor.claim (e : Executor) : List OutboxIntentBundle :=
  match e.phase with
  | .starting _ | .running _ | .sleeping _ | .waking _ | .reporting _ => e.intent.keyed
  | .reported | .returned | .panicked => []

def MainLoop.held : MainLoop → List OutboxIntentBundle
  | holding intent => intent.keyed
  | top | counted _ | selecting _ | joining | ended => []

def MainLoop.claims (loop : MainLoop) (executors : List Executor) : List OutboxIntentBundle :=
  loop.held ++ executors.flatMap Executor.claim

theorem MainLoop.claims_insert {loop : MainLoop} :
    loop.claims (before ++ e :: rest) ~ e.claim ++ loop.claims (before ++ rest) := by
  refine perm_iff_count.mpr fun b => ?_
  simp only [claims, flatMap_append, flatMap_cons, count_append]
  omega

section Ledger

variable {L : Ledger}

/-- What is handed out is held. -/
theorem MainLoop.claims_ofSelected (h : top.claims executors <+~ L.executing) :
    (ofSelected out).claims executors <+~ (L.handOut out).executing := by
  cases out with
  | none => exact h
  | some b =>
    refine (filter_sublist.append_right _).subperm.trans ?_
    exact ((subperm_cons b).mpr h).trans (perm_append_singleton b _).symm.subperm

/-- Finishing `b` leaves the other executing bundles. -/
theorem Wf.subperm_finish (h : Wf L s) (hsub : b :: l <+~ L.executing) :
    l <+~ (L.finish b).executing := by
  obtain ⟨m, hperm, hm⟩ := id hsub
  have hids := (hperm.map (·.intentId)).nodup_iff.mp ((hm.map _).nodup h.executing_nodup)
  have hkept : l.filter (fun c => ¬ Finishes b c) = l := by
    refine filter_eq_self.mpr fun c hc => decide_eq_true fun hfins => ?_
    exact (nodup_cons.mp hids).1 (mem_map.mpr ⟨c, hc, hfins.1⟩)
  rw [← hkept]
  exact ((sublist_cons_self b l).subperm.trans hsub).filter _

theorem Wf.complete_ok (h : Wf L s) (hb : b ∈ L.executing) : (s.complete b).2 = .ok () := by
  have hcompl := completion_complete (s := s) (h.keys (h.executing_scheduled hb)) h.noEmpty
  generalize s.complete b = r at hcompl ⊢
  cases hcompl with
  | free | released => rfl
  | rejected _ hhd => exact absurd (h.heads_of_executing hb) hhd

theorem Wf.failed_ok (h : Wf L s) (hb : b ∈ L.executing) (search : Pubkey → BinarySearch IntentID) :
    ∃ voided, (s.failed search b).2 = .ok voided := by
  have hfail := failure_failed search (h.keys (h.executing_scheduled hb)) h.noEmpty h.indexed
  generalize s.failed search b = r at hfail ⊢
  cases hfail with
  | free | voids => exact ⟨_, rfl⟩
  | rejected _ hhd => exact absurd (h.heads_of_executing hb) hhd

end Ledger

/-! ### The invariant -/

/-- An executor reports what it claims, or leaves the scheduler alone. -/
theorem ExecutorStep.claim {e : Executor}
    (h : ExecutorStep stop e.intent limits s e.phase phase limits' s') :
    s' = s ∧ ({ e with phase := phase } : Executor).claim <+ e.claim ∨
      e.claim = [e.intent] ∧ ({ e with phase := phase } : Executor).claim = [] ∧
        (s' = (s.complete e.intent).1 ∨ ∃ search, s' = (s.failed search e.intent).1) := by
  obtain ⟨intent, before⟩ := e
  dsimp only at h
  cases h with
  | complete =>
    by_cases hkeys : intent.getAllCommittedPubkeys = []
    · exact .inl ⟨by simp [IntentScheduler.complete, hkeys], nil_sublist _⟩
    · exact .inr ⟨by simp [Executor.claim, keyed, hkeys], rfl, .inl rfl⟩
  | failed search =>
    by_cases hkeys : intent.getAllCommittedPubkeys = []
    · exact .inl ⟨by simp [IntentScheduler.failed, hkeys], nil_sublist _⟩
    · exact .inr ⟨by simp [Executor.claim, keyed, hkeys], rfl, .inr ⟨search, rfl⟩⟩
  | start | backOff | finish | wake | resume => exact .inl ⟨rfl, .refl _⟩
  | _ => exact .inl ⟨rfl, nil_sublist _⟩

/-- **A run of the worker, read as calls of the scheduler.** -/
structure Drives (es : List WorkerEvent) (w : IntentExecutor) (calls : List SchedulerEvent) :
    Prop where
  run : (schedulerMachine FreshId OnlyExecuting).Run calls w.scheduler
  sub : (ledger calls).scheduled ⊆ admitted es
  claims : w.mainLoop.claims w.runningExecutors <+~ (ledger calls).executing

namespace Drives

variable (h : Drives es w calls)

include h

theorem wf : Wf (ledger calls) w.scheduler :=
  wf_of_run (schedulerMachine_mono (fun _ _ hb => hb) (fun _ _ _ => trivial) h.run)

theorem mono (e : WorkerEvent) : Drives (es ++ [e]) w calls := by
  refine ⟨h.run, fun b hb => ?_, h.claims⟩
  rw [admitted_concat]
  exact mem_append_left _ (h.sub hb)

theorem top :
    MainLoop.top.claims w.runningExecutors <+~ (ledger calls).executing :=
  (sublist_append_right _ _).subperm.trans h.claims

theorem executor (he : w.runningExecutors = before ++ e :: rest)
    (hstep : ExecutorStep w.stop e.intent w.limits w.scheduler e.phase phase limits s) :
    ∃ calls, Drives es
      { w with
        scheduler := s
        runningExecutors := before ++ { e with phase := phase } :: rest
        limits := limits } calls := by
  have hclms := claims_insert.symm.subperm.trans (he ▸ h.claims)
  rcases hstep.claim with ⟨rfl, hsub⟩ | ⟨hold, hnew, hrep⟩
  · refine ⟨calls, h.run, h.sub, claims_insert.subperm.trans (.trans ?_ hclms)⟩
    exact (hsub.append_right _).subperm
  rw [hold] at hclms
  have hb := hclms.subset mem_cons_self
  have hkeys := h.wf.keys (h.wf.executing_scheduled hb)
  have hcall : ∃ call, (schedulerMachine FreshId OnlyExecuting).Run (calls ++ [call]) s ∧
      ledger (calls ++ [call]) = (ledger calls).finish e.intent := by
    rcases hrep with rfl | ⟨search, rfl⟩
    · refine ⟨_, h.run.step (.complete hkeys hb), ?_⟩
      rw [ledger_concat, h.wf.complete_ok hb]
      rfl
    · obtain ⟨voided, hok⟩ := h.wf.failed_ok hb search
      refine ⟨_, h.run.step (.failed search hkeys hb), ?_⟩
      rw [ledger_concat, hok]
      rfl
  obtain ⟨call, hrun, hledger⟩ := hcall
  refine ⟨_, hrun, hledger ▸ h.sub, claims_insert.subperm.trans ?_⟩
  rw [hnew, hledger]
  exact h.wf.subperm_finish hclms

theorem receive (hb : Deliverable es w.scheduler b) : ∃ calls, Drives (es ++ [.admitted b])
      { w with
        scheduler := (w.scheduler.schedule b).1
        mainLoop := .ofSelected (w.scheduler.schedule b).2 } calls := by
  by_cases hnil : b.getAllCommittedPubkeys = []
  · rw [IntentScheduler.schedule, if_pos (by simpa using hnil)]
    refine ⟨calls, h.run, (h.mono _).sub, ?_⟩
    simpa [MainLoop.claims, ofSelected, held, keyed, hnil] using h.top
  rcases hb.id with hkeys | hdup | hfr
  · exact absurd hkeys hnil
  · rw [IntentScheduler.schedule, if_neg (by simpa using hnil), if_pos hdup]
    exact ⟨calls, h.run, (h.mono _).sub, h.top⟩
  · refine ⟨_, h.run.step (.schedule hb.keys fun c hc => hfr c (h.sub hc)), ?_, ?_⟩ <;>
      rw [ledger_concat]
    · rw [Ledger.record, Ledger.scheduled_handOut, admitted_concat]
      exact append_subset.mpr ⟨subset_append_of_subset_left _ h.sub, subset_append_right ..⟩
    · exact claims_ofSelected h.top

theorem step (hstep : WorkerStep es w e w') : ∃ calls, Drives (es ++ [e]) w' calls := by
  have hsub := (h.mono e).sub
  cases hstep with
  | turn hturn =>
    refine ⟨calls, h.run, hsub, ?_⟩
    cases hturn <;> exact h.top
  | notified => exact ⟨calls, h.run, hsub, h.top⟩
  | stop => exact ⟨calls, h.run, hsub, h.claims⟩
  | reap hloop he hph | join hloop he hph | panicked hloop he hph =>
    refine ⟨calls, h.run, hsub, ?_⟩
    have hclms := claims_insert.symm.subperm.trans (he ▸ h.top)
    simp only [Executor.claim, hph] at hclms
    first | exact hclms | exact hloop ▸ hclms
  | drain hloop hdrain hord =>
    refine ⟨_, h.run.step (.pop hord), ?_, ?_⟩ <;> rw [ledger_concat]
    · rwa [Ledger.record, Ledger.scheduled_handOut]
    · exact claims_ofSelected h.top
  | receive _ hb => exact h.receive hb
  | @spawn b hloop =>
    have hclms := h.claims
    rw [hloop] at hclms
    refine ⟨calls, h.run, hsub, claims_insert.subperm.trans ?_⟩
    rwa [append_nil]
  | executor he hstep =>
    obtain ⟨calls, h'⟩ := h.executor he hstep
    exact ⟨calls, h'.mono _⟩

end Drives

theorem drives_of_run (h : workerMachine.Run es w) : ∃ calls, Drives es w calls := by
  refine Machine.Run.invariant ?_ ?_ h
  · rintro _ rfl
    exact ⟨[], .start rfl, Subset.refl _, .refl _⟩
  · rintro es w e w' _ ⟨calls, ih⟩ hstep
    exact ih.step hstep

/-- **Executors exclude each other, and their reports are accepted.**  The scheduler is called
within its discipline; intents that are held or not yet reported share no committed key. -/
theorem executors_exclusive {es : List WorkerEvent} {w : IntentExecutor}
    (h : workerMachine.Run es w) :
    (∃ calls, (schedulerMachine FreshId OnlyExecuting).Run calls w.scheduler ∧
      w.mainLoop.claims w.runningExecutors <+~ (ledger calls).executing) ∧
    (w.mainLoop.claims w.runningExecutors).Pairwise (fun b c =>
      b.getAllCommittedPubkeys.Disjoint c.getAllCommittedPubkeys) ∧
    ∀ b ∈ w.mainLoop.claims w.runningExecutors, (w.scheduler.complete b).2 = .ok () ∧
      ∀ search, ∃ voided, (w.scheduler.failed search b).2 = .ok voided := by
  obtain ⟨calls, hdrives⟩ := drives_of_run h
  refine ⟨⟨calls, hdrives.run, hdrives.claims⟩, ?_, fun b hb => ?_⟩
  · obtain ⟨l, hperm, hl⟩ := hdrives.claims
    exact hperm.pairwise (hdrives.wf.executing_disjoint.sublist hl) fun hdisj => hdisj.symm
  · have hexec := hdrives.claims.subset hb
    exact ⟨hdrives.wf.complete_ok hexec, hdrives.wf.failed_ok hexec⟩

open WorkerExample in
/-- `first` is executed while `second` waits for it. -/
theorem executors_exclusive_blocked : ∃ es w, workerMachine.Run es w ∧
    w.mainLoop.claims w.runningExecutors = [first] ∧ (w.scheduler.complete first).2 = .ok () := by
  obtain ⟨es, hblk⟩ := run_blocked
  exact ⟨es, _, hblk, by decide, ((executors_exclusive hblk).2.2 first (by decide)).1⟩

end Magicblock
