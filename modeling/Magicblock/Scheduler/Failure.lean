import Magicblock.Scheduler.Live

/-!
# Scheduler/Failure — a failure voids exactly what waits for it

With sorted queues the worklist walk of `failed` computes the transitive closure of *queued behind,
on a shared key* from the failed intent: nothing of it escapes (`voided_of_reach`), and the cuts
take nothing else out of the queues (`queue_eq_filter`).
-/

open scoped List

namespace Magicblock

namespace Live

/-- **The walk is complete** — what waits for `f` is voided. -/
theorem voided_of_reach (hl : Live L s) (h : Wf L s) (hhd : s.Heads f)
    (hcasc : s.Cascade f t ∅ voided) (hx : s.Reach f x) : x ∈ voided.map (·.intentId) := by
  have htidy := hl.tidy h hhd
  -- one edge: what stands behind `f` or a voided id was dropped with it
  have hedge : ∀ y z, s.Reach f z → (y = f.intentId ∨ y ∈ voided.map (·.intentId)) →
      Behind s.queue y z → z ∈ voided.map (·.intentId) := by
    rintro y z hz hy ⟨k, hk⟩
    obtain ⟨dropped, hd, hmem⟩ := hcasc.split k
    have hgone : y ∉ t.queue k := fun hin => by
      obtain ⟨hyf, hyv⟩ := hcasc.gone htidy hin
      exact hy.elim hyf hyv
    have hzk : z ∈ s.queue k := hk.subset (by simp)
    rcases hmem z (mem_right_of_sublist (hd ▸ hk) hgone).2 with rfl | ⟨-, hv | hw | hnone⟩
    · exact absurd hz (not_transGen_behind_of_head h.nodup (fun _ hk => htidy.head hk) _)
    · exact hv
    · simp at hw
    · rcases hl.live hzk with ⟨info, hlook⟩ | ⟨c, hc, rfl⟩
      · simp [hnone] at hlook
      · exact absurd hz (h.not_reach_executing hc f)
  induction hx with
  | single hb => exact hedge _ _ (.single hb) (.inl rfl) hb
  | tail hr hb ih => exact hedge _ _ (hr.tail hb) (.inr ih) hb

/-- **The walk is precise** — a queue loses `f` and the voided intents, and keeps the rest in
order. -/
theorem queue_eq_filter (hl : Live L s) (h : Wf L s) (hhd : s.Heads f)
    (hcasc : s.Cascade f t ∅ voided) (k : Pubkey) :
    t.queue k = (s.queue k).filter fun i => i ≠ f.intentId ∧ i ∉ voided.map (·.intentId) := by
  obtain ⟨dropped, hd, hmem⟩ := hcasc.split k
  have hkept : (t.queue k).filter (fun i => i ≠ f.intentId ∧ i ∉ voided.map (·.intentId))
      = t.queue k :=
    List.filter_eq_self.mpr fun i hi => decide_eq_true (hcasc.gone (hl.tidy h hhd) hi)
  have hlost : dropped.filter (fun i => i ≠ f.intentId ∧ i ∉ voided.map (·.intentId)) = [] := by
    refine List.filter_eq_nil_iff.mpr fun i hi hkeep => ?_
    obtain ⟨hif, hiv⟩ := of_decide_eq_true hkeep
    rcases hmem i hi with rfl | ⟨hreach, -⟩
    · exact hif rfl
    · exact hiv (hl.voided_of_reach h hhd hcasc hreach)
  rw [hd, List.filter_append, hkept, hlost, List.append_nil]

end Live

/-- **What a failure of `f` does**, from `s` to `t` with `voided` returned; `executing` are the
bundles that executed before. -/
structure VoidsExactly (executing : List OutboxIntentBundle) (s : IntentScheduler)
    (f : OutboxIntentBundle) (t : IntentScheduler) (voided : List OutboxIntentBundle) : Prop where
  /-- Each voided intent is returned once. -/
  nodup : (voided.map (·.intentId)).Nodup
  /-- Returned are the blocked intents that wait, directly or through others, for `f`. -/
  mem_iff (b : OutboxIntentBundle) : b ∈ voided ↔
    (∃ info, s.blockedIntents.lookup b.intentId = some info ∧ info.intent = b) ∧
      Relation.TransGen (Behind s.queue) f.intentId b.intentId
  /-- They and `f` are gone from the queues and from `blocked_intents`. -/
  gone {i : IntentID} (hi : i = f.intentId ∨ i ∈ voided.map (·.intentId)) :
    t.blockedIntents.lookup i = none ∧ ∀ k, i ∉ t.queue k
  /-- The others keep their places among each other. -/
  queue_eq (k : Pubkey) : t.queue k
    = (s.queue k).filter fun i => i ≠ f.intentId ∧ i ∉ voided.map (·.intentId)
  /-- Blocked intents that were not voided stay blocked, and nothing else becomes blocked. -/
  blocked {i : IntentID} (hi : i ∉ voided.map (·.intentId)) :
    t.blockedIntents.lookup i = s.blockedIntents.lookup i
  /-- The other executing intents keep executing. -/
  executing {c : OutboxIntentBundle} (hc : c ∈ executing) (hcf : c ≠ f) : t.Heads c
  poisonedKeys_eq : t.poisonedKeys = s.poisonedKeys ∪ f.getAllCommittedPubkeys.toFinset
    ∪ (voided.flatMap (·.getAllCommittedPubkeys)).toFinset

/-- **The void set of a failure is exact.**  From every state reachable with increasing ids and
distinct keys, `failed` on an executing intent succeeds and voids exactly what waits for it. -/
theorem failed_voidsExactly {es : List SchedulerEvent} {s : IntentScheduler}
    (hrun : (schedulerMachine IncreasingId AnyBundle).Run es s) {f : OutboxIntentBundle}
    (hf : f ∈ (ledger es).executing) (search : Pubkey → BinarySearch IntentID) :
    ∃ t voided, s.failed search f = (t, .ok voided) ∧
      VoidsExactly (ledger es).executing s f t voided := by
  have h := wf_of_increasing hrun
  have hl := live_of_run hrun
  have hhd := h.heads_of_executing hf
  have hkeys := h.keys (h.executing_scheduled hf)
  have hnext := h.failed search hkeys
  have hfail := IntentScheduler.failure_failed search hkeys h.noEmpty h.indexed
  -- the bundles other than `f` that execute do so afterwards, by the invariant
  have hoth : ∀ c ∈ (ledger es).executing, c ≠ f → c ∈ ((ledger es).finish f).executing :=
    fun c hc hcf => List.mem_filter.mpr ⟨hc, by
      simpa using fun hfin : Finishes f c => hcf
        (h.eq_of_intentId (h.executing_scheduled hc) (h.executing_scheduled hf) hfin.1)⟩
  generalize s.failed search f = r at hfail hnext ⊢
  cases hfail with
  | rejected _ hno => exact absurd hhd hno
  | free hnil =>
    have hgone : ∀ k, f.intentId ∉ s.queue k := fun k hk => by
      simpa [hnil] using h.mem_keys_of_queued (h.executing_scheduled hf) hk
    refine ⟨s, [], rfl, by simp, fun b => ?_, fun {i} hi => ?_, fun k => ?_, fun _ => rfl,
      fun hc hcf => hnext.heads_of_executing (hoth _ hc hcf), by simp [hnil]⟩
    · refine iff_of_false (by simp) fun ⟨_, hreach⟩ => ?_
      obtain ⟨y, ⟨k, hk⟩, -⟩ := Relation.TransGen.head'_iff.mp hreach
      exact hgone k (hk.subset (by simp))
    · obtain rfl : i = f.intentId := by simpa using hi
      exact ⟨hhd.notBlocked, hgone⟩
    · refine (List.filter_eq_self.mpr fun i hi => ?_).symm
      simpa using ne_of_mem_of_not_mem hi (hgone k)
  | @voids _ _ t voided hcasc =>
    refine ⟨t, voided, rfl, hcasc.nodup, fun b => ⟨fun hb => ⟨hcasc.voided_blocked hb,
      hcasc.voided_reach hb⟩, fun ⟨⟨info, hlook, hinfo⟩, hreach⟩ => ?_⟩, fun {i} hi => ⟨?_,
      fun k hk => ?_⟩, hl.queue_eq_filter h hhd hcasc, fun {i} hi => ?_,
      fun hc hcf => hnext.heads_of_executing (hoth _ hc hcf), hcasc.poisoned⟩
    · obtain ⟨v, hv, hid⟩ := List.mem_map.mp (hl.voided_of_reach h hhd hcasc hreach)
      obtain ⟨info', hlook', hinfo'⟩ := hcasc.voided_blocked hv
      rw [hid, hlook] at hlook'
      rwa [← hinfo, Option.some.inj hlook', hinfo']
    · rw [hcasc.blocked]
      split
      · rfl
      next hiv => exact hi.resolve_right hiv ▸ hhd.notBlocked
    · obtain ⟨hif, hiv⟩ := hcasc.gone (hl.tidy h hhd) hk
      exact hi.elim hif hiv
    · rw [hcasc.blocked, if_neg hi]

/-- Intents 0 on keys 1, 2 and 1 on keys 3, 4 execute; 2 and 4 wait on keys 1, 2 and 3 on keys
2, 3.  When 1 fails, 3 and 4 are voided and 2, ahead of them on key 2, is not. -/
theorem failed_voidsExactly_of_chain :
    ∃ es s f, (schedulerMachine IncreasingId AnyBundle).Run es s ∧ f ∈ (ledger es).executing ∧
      (s.failed (fun _ => .bisect) f).2.toOption.map (·.map (·.intentId)) = some [3, 4] ∧
      ∃ t voided, s.failed (fun _ => .bisect) f = (t, .ok voided) ∧
        VoidsExactly (ledger es).executing s f t voided := by
  have hrun := ((((Machine.Run.start (M := schedulerMachine IncreasingId AnyBundle) rfl).step
    (.schedule (b := createTestIntentBundle 0 [1, 2] []) (by decide) (by decide))).step
    (.schedule (b := createTestIntentBundle 1 [3, 4] []) (by decide) (by decide))).step
    (.schedule (b := createTestIntentBundle 2 [1, 2] []) (by decide) (by decide))).step
    (.schedule (b := createTestIntentBundle 3 [2, 3] []) (by decide) (by decide))
  have hrun := hrun.step
    (.schedule (b := createTestIntentBundle 4 [1, 2] []) (by decide) (by decide))
  exact ⟨_, _, createTestIntentBundle 1 [3, 4] [], hrun, by decide, by decide,
    failed_voidsExactly hrun (by decide) _⟩

end Magicblock
