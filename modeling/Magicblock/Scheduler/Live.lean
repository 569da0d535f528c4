import Magicblock.Scheduler.Invariant

/-!
# Scheduler/Live — with increasing ids no queue holds a dead id

If ids are scheduled in increasing order the queues stay sorted, so the binary search of `failed`
finds every voided id and none is left behind: whatever stands in a queue is blocked or executing
(`Live`).
-/

open scoped List

namespace Magicblock

open IntentScheduler

/-- **Sorted queues of living intents.** -/
structure Live (L : Ledger) (s : IntentScheduler) : Prop where
  sorted (k : Pubkey) : (s.queue k).Pairwise (· < ·)
  live {k : Pubkey} {i : IntentID} (hi : i ∈ s.queue k) :
    (∃ info, s.blockedIntents.lookup i = some info) ∨ ∃ b ∈ L.executing, b.intentId = i

namespace Live

variable {s : IntentScheduler}

theorem start : Live {} .new :=
  ⟨fun k => by simp, fun hi => by simp at hi⟩

/-- An intent that passes the guard heads every queue it stands in. -/
theorem tidy (hl : Live L s) (h : Wf L s) (hf : s.Heads f) : s.Tidy f where
  sorted := hl.sorted
  head {k} hk := by
    rcases hl.live hk with ⟨info, hlook⟩ | ⟨b, hb, hid⟩
    · simp [hf.notBlocked] at hlook
    · rw [← hid] at hk ⊢
      exact h.heads hb (h.mem_keys_of_queued (h.executing_scheduled hb) hk)

theorem sorted_lockKeys (hl : Live L s) (h : Wf L s) (hkeys : b.getAllCommittedPubkeys.Nodup)
    (hincr : ∀ c ∈ L.scheduled, c.intentId < b.intentId) (k : Pubkey) :
    ((s.lockKeys b).queue k).Pairwise (· < ·) := by
  rw [queue_lockKeys hkeys]
  split
  · refine List.pairwise_append.mpr ⟨hl.sorted k, by simp, fun i hi j hj => ?_⟩
    obtain ⟨c, hc, -, rfl⟩ := mem_onKey.mp (h.queued hi)
    exact List.mem_singleton.mp hj ▸ hincr c hc
  · exact hl.sorted k

theorem mem_lockKeys (hkeys : b.getAllCommittedPubkeys.Nodup)
    (hi : i ∈ (s.lockKeys b).queue k) : i ∈ s.queue k ∨ i = b.intentId := by
  rw [queue_lockKeys hkeys] at hi
  split at hi
  · exact (List.mem_append.mp hi).imp_right List.mem_singleton.mp
  · exact .inl hi

section

variable (hl : Live L s)

include hl

theorem schedule (h : Wf L s) (hkeys : b.getAllCommittedPubkeys.Nodup)
    (hincr : ∀ c ∈ L.scheduled, c.intentId < b.intentId) :
    Live ((L.enter b).handOut (s.schedule b).2) (s.schedule b).1 := by
  have hfr : ∀ c ∈ L.scheduled, c.intentId ≠ b.intentId := fun c hc => (hincr c hc).ne
  have hadm := admission_schedule h.noEmpty (h.lookup_of_fresh hfr) (h.not_queued_of_fresh hfr)
  generalize s.schedule b = r at hadm ⊢
  cases hadm with
  | free =>
    exact ⟨hl.sorted, fun hi => (hl.live hi).imp_right
      (Exists.imp fun c => And.imp_left (List.mem_append_left _))⟩
  | poisoned => exact ⟨hl.sorted, hl.live⟩
  | blocked =>
    refine ⟨hl.sorted_lockKeys h hkeys hincr, fun {k i} hi => ?_⟩
    by_cases hib : i = b.intentId
    · exact .inl ⟨_, by rw [hib, block, AList.lookup_insert]⟩
    · have hi := (mem_lockKeys hkeys hi).resolve_right hib
      refine (hl.live hi).imp_left (Exists.imp fun info hlook => ?_)
      rw [block, AList.lookup_insert_ne hib]
      exact hlook
  | executes =>
    refine ⟨hl.sorted_lockKeys h hkeys hincr, fun {k i} hi => ?_⟩
    rcases mem_lockKeys hkeys hi with hi | rfl
    · exact (hl.live hi).imp_right (Exists.imp fun c => And.imp_left (List.mem_append_left _))
    · exact .inr ⟨b, by simp [Ledger.handOut], rfl⟩

theorem pop (h : Wf L s) (hord : order.Perm s.executeCandidates.entries) :
    Live (L.handOut (s.popNextScheduledIntent order).2) (s.popNextScheduledIntent order).1 := by
  have hpop := pop_popNextScheduledIntent hord
  generalize s.popNextScheduledIntent order = r at hpop ⊢
  cases hpop with
  | none => exact hl
  | @some j info hready =>
    refine ⟨hl.sorted, fun {k i} hi => ?_⟩
    by_cases hij : i = j
    · exact .inr ⟨info.intent, by simp [Ledger.handOut],
        (h.blocked hready.1).intentId_eq.trans hij.symm⟩
    · refine (hl.live hi).imp (Exists.imp fun info hlook => ?_)
        (Exists.imp fun c => And.imp_left (List.mem_append_left _))
      rw [AList.lookup_erase_ne hij]
      exact hlook

/-- Finishing `b` keeps a living id alive, unless it is the id of `b`. -/
theorem live_finish (hi : i ∈ s.queue k) (hib : i ≠ b.intentId) :
    (∃ info, s.blockedIntents.lookup i = some info) ∨
      ∃ c ∈ (L.finish b).executing, c.intentId = i := by
  refine (hl.live hi).imp_right fun ⟨c, hc, hid⟩ => ⟨c, List.mem_filter.mpr ⟨hc, ?_⟩, hid⟩
  simpa using fun hfin : Finishes b c => hib (hid.symm.trans hfin.1)

theorem finish_free (h : Wf L s) (hb : b.getAllCommittedPubkeys = []) : Live (L.finish b) s := by
  refine ⟨hl.sorted, fun {k i} hi => (hl.live hi).imp_right fun ⟨c, hc, hid⟩ =>
    ⟨c, List.mem_filter.mpr ⟨hc, ?_⟩, hid⟩⟩
  have hk : k ∈ c.getAllCommittedPubkeys :=
    h.mem_keys_of_queued (h.executing_scheduled hc) (hid.symm ▸ hi)
  simpa using fun hfin : Finishes b c => List.ne_nil_of_mem hk (hfin.2.mpr hb)

theorem complete (h : Wf L s) (hkeys : b.getAllCommittedPubkeys.Nodup) :
    Live (L.record (.completed b (s.complete b).2)) (s.complete b).1 := by
  have hcompl := completion_complete (s := s) hkeys h.noEmpty
  generalize s.complete b = r at hcompl ⊢
  cases hcompl with
  | free hnil => exact hl.finish_free h hnil
  | rejected => exact hl
  | @released hne hhd m hm hqueue =>
    have hsub : ∀ k, m.queue k <+ s.queue k := fun k => by
      rw [hqueue]
      split
      · exact List.tail_sublist _
      · exact List.Sublist.refl _
    refine ⟨fun k => (hl.sorted k).sublist (hsub k), fun {k i} hi => ?_⟩
    change i ∈ m.queue k at hi
    refine hl.live_finish ((hsub k).subset hi) ?_
    rintro rfl
    -- `b` stands only at heads, and those are gone
    have hhead := (hl.tidy h hhd).head ((hsub k).subset hi)
    obtain ⟨rest, hrest⟩ := List.head?_eq_some_iff.mp hhead
    have hnd := h.nodup k
    rw [hqueue, if_pos ((hhd.head_iff k).mp hhead), hrest] at hi
    rw [hrest] at hnd
    exact (List.nodup_cons.mp hnd).1 hi

theorem failed (h : Wf L s) (search : Pubkey → BinarySearch IntentID)
    (hkeys : f.getAllCommittedPubkeys.Nodup) :
    Live (L.record (.failed f (s.failed search f).2)) (s.failed search f).1 := by
  have hfail := failure_failed search hkeys h.noEmpty h.indexed
  generalize s.failed search f = r at hfail ⊢
  cases hfail with
  | free hnil => exact hl.finish_free h hnil
  | rejected => exact hl
  | @voids hne hhd t voided hcasc =>
    refine ⟨fun k => (hl.sorted k).sublist (hcasc.prefix_queue k).sublist, fun {k i} hi => ?_⟩
    obtain ⟨hif, hiv⟩ := hcasc.gone (hl.tidy h hhd) hi
    refine (hl.live_finish ((hcasc.prefix_queue k).subset hi) hif).imp_left
      fun ⟨info, hlook⟩ => ⟨info, ?_⟩
    rw [hcasc.blocked, if_neg hiv]
    exact hlook

end

theorem step (hl : Live (ledger es) s) (h : Wf (ledger es) s)
    (hstep : SchedulerStep IncreasingId AnyBundle es s e t) : Live (ledger (es ++ [e])) t := by
  rw [ledger_concat]
  cases hstep with
  | schedule hkeys hincr => exact hl.schedule h hkeys hincr
  | pop hord => exact hl.pop h hord
  | complete hkeys => exact hl.complete h hkeys
  | failed search hkeys => exact hl.failed h search hkeys

end Live

/-- Runs with increasing ids are runs with distinct ids. -/
theorem wf_of_increasing (h : (schedulerMachine IncreasingId AnyBundle).Run es s) :
    Wf (ledger es) s :=
  wf_of_run (schedulerMachine_mono (fun _ _ hb => hb.freshId) (fun _ _ hb => hb) h)

/-- **Every run with increasing ids has sorted queues of living intents.** -/
theorem live_of_run (h : (schedulerMachine IncreasingId AnyBundle).Run es s) :
    Live (ledger es) s := by
  refine Machine.Run.invariant ?_ ?_ h
  · rintro _ rfl
    exact Live.start
  · exact fun _ _ _ _ hrun ih hstep => ih.step (wf_of_increasing hrun) hstep

end Magicblock
