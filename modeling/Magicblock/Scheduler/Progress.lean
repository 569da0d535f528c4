import Magicblock.Scheduler.Live

/-!
# Scheduler/Progress — the scheduler never gets stuck

In sorted queues of living intents the blocked intent with the smallest id can only be behind an
executing one: if none executes it heads all its queues, so a pop finds something
(`exists_ready`).  And pops leave the queues alone, so an intent that is ready stays ready until it
is popped itself: popping until nothing is left returns every ready intent.
-/

namespace Magicblock

namespace Wf

/-- **Heading all its queues is being ready.** -/
theorem ready_of_heads (h : Wf L s) (hlook : s.blockedIntents.lookup i = some info)
    (hhd : ∀ k ∈ info.intent.getAllCommittedPubkeys, (s.queue k).head? = some i) :
    s.Ready i info := by
  have hent := h.blocked hlook
  have hlen : (s.blockedKeys.fronted i).length = info.intent.getAllCommittedPubkeys.length :=
    QueueMap.length_fronted (h.keys hent.scheduled) fun k =>
      ⟨fun hk => h.indexed.mem_keys hlook (List.mem_of_head? hk), hhd k⟩
  refine ⟨hlook, ?_, hlen.trans hent.numKeys_eq.symm⟩
  rw [hent.numKeys_eq]
  exact List.length_pos_of_ne_nil hent.keys_ne

end Wf

/-- **No circular wait** — if no committing intent executes, the oldest blocked one is ready. -/
theorem Live.exists_ready (hl : Live L s) (h : Wf L s)
    (hidle : ∀ c ∈ L.executing, c.getAllCommittedPubkeys = [])
    (hblk : ∃ i info, s.blockedIntents.lookup i = some info) : ∃ i info, s.Ready i info := by
  classical
  obtain ⟨info, hlook⟩ := Nat.find_spec hblk
  refine ⟨_, info, h.ready_of_heads hlook fun k hk => ?_⟩
  have hmem := (h.blocked hlook).queued hk
  obtain ⟨j, q, hq⟩ := List.exists_cons_of_ne_nil (List.ne_nil_of_mem hmem)
  have hj : j ∈ s.queue k := by simp [hq]
  have hjbl : ∃ info, s.blockedIntents.lookup j = some info := by
    refine (hl.live hj).resolve_right ?_
    rintro ⟨c, hc, rfl⟩
    have hkc := h.mem_keys_of_queued (h.executing_scheduled hc) hj
    simp [hidle c hc] at hkc
  -- the head of the queue is blocked, so it is not older than the oldest
  have hle : Nat.find hblk ≤ j := Nat.find_min' hblk hjbl
  have hsort := hl.sorted k
  rw [hq] at hmem hsort
  rcases List.mem_cons.mp hmem with heq | hmem
  · rw [hq, heq]
    rfl
  · exact absurd hle (not_le.mpr (List.rel_of_pairwise_cons hsort hmem))

/-! ### Repeated pops -/

/-- **A chain of successful pops**, each enumerating the candidates in some order. -/
inductive Pops : IntentScheduler → List OutboxIntentBundle → IntentScheduler → Prop
  | nil (s : IntentScheduler) : Pops s [] s
  | cons {s t : IntentScheduler} {b : OutboxIntentBundle} {bs : List OutboxIntentBundle}
      {order : List (Sigma fun _ : IntentID => ℕ)}
      (hord : order.Perm s.executeCandidates.entries)
      (hb : (s.popNextScheduledIntent order).2 = some b)
      (h : Pops (s.popNextScheduledIntent order).1 bs t) : Pops s (b :: bs) t

/-- A successful pop removes one blocked intent and returns it. -/
theorem exists_of_pop_some {s : IntentScheduler} (hord : order.Perm s.executeCandidates.entries)
    (hb : (s.popNextScheduledIntent order).2 = some b) :
    ∃ i info, s.blockedIntents.lookup i = some info ∧ info.intent = b ∧
      (s.popNextScheduledIntent order).1
        = { s with blockedIntents := s.blockedIntents.erase i } := by
  have hpop := IntentScheduler.pop_popNextScheduledIntent hord
  generalize s.popNextScheduledIntent order = r at hpop hb ⊢
  cases hpop with
  | none => cases hb
  | some hready => exact ⟨_, _, hready.1, Option.some.inj hb, rfl⟩

/-- There are at most as many pops as blocked intents. -/
theorem Pops.length_le {s t : IntentScheduler} (h : Pops s bs t) :
    bs.length ≤ s.intentsBlocked := by
  induction h with
  | nil => exact Nat.zero_le _
  | @cons s t b bs order hord hb _ ih =>
    obtain ⟨i, info, hlook, -, hs⟩ := exists_of_pop_some hord hb
    have hmem : i ∈ s.blockedIntents.keys := by
      rw [← AList.mem_keys, ← AList.lookup_isSome, hlook]
      rfl
    have hlen := List.length_erase_of_mem hmem
    have hpos := List.length_pos_of_mem hmem
    rw [hs, IntentScheduler.intentsBlocked, AList.keys_erase] at ih
    rw [List.length_cons, IntentScheduler.intentsBlocked]
    omega

/-- An intent that is ready is popped, or is ready still. -/
theorem Pops.mem_or_ready {s t : IntentScheduler} (h : Pops s bs t) (hready : s.Ready i info) :
    info.intent ∈ bs ∨ t.Ready i info := by
  induction h with
  | nil => exact .inr hready
  | @cons s t b bs order hord hb _ ih =>
    obtain ⟨j, info', hlook, rfl, hs⟩ := exists_of_pop_some hord hb
    by_cases hij : i = j
    · subst hij
      cases hready.1.symm.trans hlook
      exact .inl (by simp)
    · rw [hs] at ih
      refine (ih ⟨?_, hready.2⟩).imp_left (List.mem_cons_of_mem _)
      rw [AList.lookup_erase_ne hij]
      exact hready.1

/-- **The scheduler never gets stuck.**  In every state reachable with increasing ids and distinct
keys, finishing only executing bundles: if an intent is blocked and none executes, a pop returns an
intent; and popping until a pop returns nothing (which takes at most as many pops as there are
blocked intents) returns every blocked intent that heads all of its queues. -/
theorem pop_progress {es : List SchedulerEvent} {s : IntentScheduler}
    (h : (schedulerMachine IncreasingId OnlyExecuting).Run es s) :
    ((∃ i info, s.blockedIntents.lookup i = some info) → (ledger es).executing = [] →
      ∀ order, order.Perm s.executeCandidates.entries →
        ∃ b, (s.popNextScheduledIntent order).2 = some b) ∧
    ∀ bs t, Pops s bs t → bs.length ≤ s.intentsBlocked ∧
      ∀ order, order.Perm t.executeCandidates.entries →
        (t.popNextScheduledIntent order).2 = none →
          ∀ i info, s.blockedIntents.lookup i = some info →
            (∀ k ∈ info.intent.getAllCommittedPubkeys, (s.queue k).head? = some i) →
              info.intent ∈ bs := by
  have hrun : (schedulerMachine IncreasingId AnyBundle).Run es s :=
    schedulerMachine_mono (fun _ _ hb => hb) (fun _ _ _ => trivial) h
  have hwf := wf_of_increasing hrun
  constructor
  · intro hblk hidle order hord
    obtain ⟨i, info, hready⟩ := (live_of_run hrun).exists_ready hwf (by simp [hidle]) hblk
    have hpop := IntentScheduler.pop_popNextScheduledIntent hord
    generalize s.popNextScheduledIntent order = r at hpop ⊢
    cases hpop with
    | none hnone => exact absurd hready (hnone i info)
    | some => exact ⟨_, rfl⟩
  · intro bs t hpops
    refine ⟨hpops.length_le, fun order hord hnone i info hlook hhd => ?_⟩
    refine (hpops.mem_or_ready (hwf.ready_of_heads hlook hhd)).resolve_right fun hready => ?_
    have hpop := IntentScheduler.pop_popNextScheduledIntent hord
    generalize t.popNextScheduledIntent order = r at hpop hnone
    cases hpop with
    | none hno => exact hno i info hready
    | some => cases hnone

/-- Bundle 1 completes with bundle 2 waiting behind it: nothing executes, and 2 is ready. -/
theorem pop_progress_of_complete :
    ∃ es s, (schedulerMachine IncreasingId OnlyExecuting).Run es s ∧
      ((∃ i info, s.blockedIntents.lookup i = some info) ∧ (ledger es).executing = [] ∧
        ∃ bs t, Pops s bs t ∧ bs.map (·.intentId) = [2]) ∧
      ((∃ i info, s.blockedIntents.lookup i = some info) → (ledger es).executing = [] →
        ∀ order, order.Perm s.executeCandidates.entries →
          ∃ b, (s.popNextScheduledIntent order).2 = some b) ∧
      ∀ bs t, Pops s bs t → bs.length ≤ s.intentsBlocked ∧
        ∀ order, order.Perm t.executeCandidates.entries →
          (t.popNextScheduledIntent order).2 = none →
            ∀ i info, s.blockedIntents.lookup i = some info →
              (∀ k ∈ info.intent.getAllCommittedPubkeys, (s.queue k).head? = some i) →
                info.intent ∈ bs := by
  have hrun := (((Machine.Run.start (M := schedulerMachine IncreasingId OnlyExecuting) rfl).step
    (.schedule (b := createTestIntentBundle 1 [1] []) (by decide) (by decide))).step
    (.schedule (b := createTestIntentBundle 2 [1, 2] []) (by decide) (by decide))).step
    (.complete (b := createTestIntentBundle 1 [1] []) (by decide) (by decide))
  refine ⟨_, _, hrun, ⟨⟨2, ⟨2, createTestIntentBundle 2 [1, 2] []⟩, by decide⟩, by decide,
    [createTestIntentBundle 2 [1, 2] []], _, .cons (List.Perm.refl _) (by decide) (.nil _),
    by decide⟩, pop_progress hrun⟩

end Magicblock
