import Magicblock.Scheduler.Runs

/-!
# Scheduler/Invariant — queues, blocked intents and executing intents agree

`Wf L s` ties the state `s` to the ledger `L` of its history:

* an executing bundle heads the queue of each of its keys;
* a blocked bundle stands in the queue of each of its keys and was not handed out;
* per key, *handed out, then waiting* is a sublist of the schedule order (`order`).

The calls are composed of five moves, each of which keeps `Wf`: `lock` (append a new bundle to its
queues), `block`, `unblock`, `handOut` and `shrink` (the queues lose members).
-/

open scoped List

namespace Magicblock

open IntentScheduler

/-- The ids of the bundles on a key, in the order of the list. -/
def onKey (k : Pubkey) (l : List OutboxIntentBundle) : List IntentID :=
  (l.filter fun b => k ∈ b.getAllCommittedPubkeys).map (·.intentId)

theorem mem_onKey : i ∈ onKey k l ↔ ∃ b ∈ l, k ∈ b.getAllCommittedPubkeys ∧ b.intentId = i := by
  simp [onKey, and_assoc]

theorem onKey_concat : onKey k (l ++ [b])
      = onKey k l ++ if k ∈ b.getAllCommittedPubkeys then [b.intentId] else [] := by
  by_cases hk : k ∈ b.getAllCommittedPubkeys <;> simp [onKey, hk]

/-- The ids of a queue that were not handed out. -/
def waiting (L : Ledger) (q : List IntentID) : List IntentID :=
  q.filter fun i => i ∉ L.handedOut.map (·.intentId)

/-- A blocked entry: a scheduled bundle with keys, in all its queues, and not handed out. -/
structure BlockedEntry (L : Ledger) (s : IntentScheduler) (i : IntentID) (info : IntentMeta) :
    Prop where
  scheduled : info.intent ∈ L.scheduled
  intentId_eq : info.intent.intentId = i
  numKeys_eq : info.numKeys = info.intent.getAllCommittedPubkeys.length
  keys_ne : info.intent.getAllCommittedPubkeys ≠ []
  notHanded : i ∉ L.handedOut.map (·.intentId)
  queued {k : Pubkey} (hk : k ∈ info.intent.getAllCommittedPubkeys) : i ∈ s.queue k

/-- **The invariant.** -/
structure Wf (L : Ledger) (s : IntentScheduler) : Prop where
  noEmpty : s.blockedKeys.NoEmpty
  ids : (L.scheduled.map (·.intentId)).Nodup
  keys {b : OutboxIntentBundle} (hb : b ∈ L.scheduled) : b.getAllCommittedPubkeys.Nodup
  handed_sub : L.handedOut ⊆ L.scheduled
  handed_nodup : (L.handedOut.map (·.intentId)).Nodup
  executing_sub : L.executing <+ L.handedOut
  order (k : Pubkey) : onKey k L.handedOut ++ waiting L (s.queue k) <+ onKey k L.scheduled
  queued {k : Pubkey} {i : IntentID} (hi : i ∈ s.queue k) : i ∈ onKey k L.scheduled
  nodup (k : Pubkey) : (s.queue k).Nodup
  blocked {i : IntentID} {info : IntentMeta} (h : s.blockedIntents.lookup i = some info) :
    BlockedEntry L s i info
  heads {b : OutboxIntentBundle} (hb : b ∈ L.executing) {k : Pubkey}
    (hk : k ∈ b.getAllCommittedPubkeys) : (s.queue k).head? = some b.intentId

namespace Wf

variable {L : Ledger} {s : IntentScheduler}

/-! ### What the invariant says -/

section

variable (h : Wf L s)

include h

/-- Ids name bundles. -/
theorem eq_of_intentId (hb : b ∈ L.scheduled) (hc : c ∈ L.scheduled)
    (hid : b.intentId = c.intentId) : b = c :=
  List.inj_on_of_nodup_map h.ids hb hc hid

/-- A queue that a scheduled bundle stands in is a queue of its keys. -/
theorem mem_keys_of_queued (hb : b ∈ L.scheduled) (hk : b.intentId ∈ s.queue k) :
    k ∈ b.getAllCommittedPubkeys := by
  obtain ⟨c, hc, hkc, hid⟩ := mem_onKey.mp (h.queued hk)
  exact h.eq_of_intentId hc hb hid ▸ hkc

theorem indexed : s.Indexed where
  intentId_eq hlook := (h.blocked hlook).intentId_eq
  mem_keys hlook _ hk := by
    have hent := h.blocked hlook
    exact h.mem_keys_of_queued hent.scheduled (hent.intentId_eq.symm ▸ hk)

theorem executing_scheduled (hb : b ∈ L.executing) : b ∈ L.scheduled :=
  h.handed_sub (h.executing_sub.subset hb)

theorem lookup_of_handed (hb : b ∈ L.handedOut) : s.blockedIntents.lookup b.intentId = none := by
  cases hlook : s.blockedIntents.lookup b.intentId with
  | none => rfl
  | some info => exact absurd (List.mem_map_of_mem hb) (h.blocked hlook).notHanded

/-- **An executing intent passes the guard** of `complete` and `failed`. -/
theorem heads_of_executing (hb : b ∈ L.executing) : s.Heads b where
  notBlocked := h.lookup_of_handed (h.executing_sub.subset hb)
  head_iff _ :=
    ⟨fun hk => h.mem_keys_of_queued (h.executing_scheduled hb) (List.mem_of_head? hk), h.heads hb⟩

/-- The executing bundles have distinct ids. -/
theorem executing_nodup : (L.executing.map (·.intentId)).Nodup :=
  (h.executing_sub.map _).nodup h.handed_nodup

variable (hi : ∀ c ∈ L.scheduled, c.intentId ≠ i)

include hi

/-- A fresh id is neither queued, blocked nor handed out. -/
theorem not_queued_of_fresh (k : Pubkey) : i ∉ s.queue k := by
  intro hk
  obtain ⟨c, hc, -, hid⟩ := mem_onKey.mp (h.queued hk)
  exact hi c hc hid

theorem lookup_of_fresh : s.blockedIntents.lookup i = none := by
  cases hlook : s.blockedIntents.lookup i with
  | none => rfl
  | some info =>
    have hent := h.blocked hlook
    exact absurd hent.intentId_eq (hi _ hent.scheduled)

theorem not_handed_of_fresh : i ∉ L.handedOut.map (·.intentId) := by
  intro hmem
  obtain ⟨c, hc, hid⟩ := List.mem_map.mp hmem
  exact hi c (h.handed_sub hc) hid

end

/-! ### The moves -/

theorem start : Wf {} .new := by
  refine ⟨QueueMap.noEmpty_empty, by simp, by simp, by simp, by simp, by simp, fun k => ?_,
    fun hi => ?_, fun k => ?_, fun h => ?_, by simp⟩
  · simp [onKey, waiting]
  · simp at hi
  · simp
  · simp [new] at h

/-- Poison is not part of the bookkeeping. -/
theorem poison (h : Wf L s) (p : Finset Pubkey) : Wf L { s with poisonedKeys := p } :=
  { h with blocked := fun hlook => { h.blocked hlook with } }

/-- **Admission** — a fresh bundle is appended to some queues of its keys, or to none. -/
theorem enter (h : Wf L s) (hkeys : b.getAllCommittedPubkeys.Nodup)
    (hfr : ∀ c ∈ L.scheduled, c.intentId ≠ b.intentId) (ht : t.blockedKeys.NoEmpty)
    (hblk : t.blockedIntents = s.blockedIntents)
    (hqueue : ∀ k, t.queue k = s.queue k ∨ k ∈ b.getAllCommittedPubkeys ∧
      t.queue k = s.queue k ++ [b.intentId]) : Wf (L.enter b) t := by
  have hnew := h.not_handed_of_fresh hfr
  have hsub : ∀ k, s.queue k <+: t.queue k := fun k => by
    rcases hqueue k with hq | ⟨-, hq⟩
    · rw [hq]
    · exact ⟨_, hq.symm⟩
  have honKey : ∀ k, onKey k L.scheduled <+ onKey k (L.enter b).scheduled := fun k => by
    rw [Ledger.enter, onKey_concat]
    exact List.sublist_append_left _ _
  refine ⟨ht, ?_, fun {c} hc => ?_, fun c hc => List.mem_append_left _ (h.handed_sub hc),
    h.handed_nodup, h.executing_sub, fun k => ?_, fun {k i} hi => ?_, fun k => ?_,
    fun {i info} hlook => ?_, fun {c} hc {k} hk => ?_⟩
  · rw [Ledger.enter, List.map_append, List.map_singleton]
    refine List.nodup_append_comm.mp (List.nodup_cons.mpr ⟨fun hmem => ?_, h.ids⟩)
    obtain ⟨c, hc, hid⟩ := List.mem_map.mp hmem
    exact hfr c hc hid
  · rcases List.mem_append.mp hc with hc | hc
    · exact h.keys hc
    · exact List.mem_singleton.mp hc ▸ hkeys
  · rcases hqueue k with hq | ⟨hk, hq⟩
    · rw [hq]
      exact (h.order k).trans (honKey k)
    · have hwait : waiting L (s.queue k ++ [b.intentId])
          = waiting L (s.queue k) ++ [b.intentId] := by
        rw [waiting, List.filter_append, List.filter_singleton, decide_eq_true hnew]
        rfl
      have honKey : onKey k (L.enter b).scheduled = onKey k L.scheduled ++ [b.intentId] := by
        rw [Ledger.enter, onKey_concat, if_pos hk]
      rw [hq, honKey]
      change onKey k L.handedOut ++ waiting L (s.queue k ++ [b.intentId]) <+ _
      rw [hwait, ← List.append_assoc]
      exact (h.order k).append_right _
  · rcases hqueue k with hq | ⟨hk, hq⟩
    · exact (honKey k).subset (h.queued (hq ▸ hi))
    · rcases List.mem_append.mp (hq ▸ hi) with hi | hi
      · exact (honKey k).subset (h.queued hi)
      · obtain rfl := List.mem_singleton.mp hi
        exact mem_onKey.mpr ⟨b, by simp [Ledger.enter], hk, rfl⟩
  · rcases hqueue k with hq | ⟨-, hq⟩
    · exact hq ▸ h.nodup k
    · rw [hq]
      exact List.nodup_append_comm.mp (List.nodup_cons.mpr ⟨h.not_queued_of_fresh hfr k, h.nodup k⟩)
  · have hent := h.blocked (hblk ▸ hlook)
    exact { hent with
      scheduled := List.mem_append_left _ hent.scheduled
      queued := fun hk => (hsub _).subset (hent.queued hk) }
  · have hhead := h.heads hc hk
    obtain ⟨rest, hrest⟩ := hsub k
    rw [← hrest, List.head?_append, hhead]
    rfl

/-- A scheduled bundle that stands in all its queues becomes blocked. -/
theorem block (h : Wf L s) (hb : b ∈ L.scheduled) (hkeys : b.getAllCommittedPubkeys ≠ [])
    (hnew : b.intentId ∉ L.handedOut.map (·.intentId))
    (hque : ∀ k ∈ b.getAllCommittedPubkeys, b.intentId ∈ s.queue k) : Wf L (s.block b) := by
  refine { h with blocked := fun {i info} hlook => ?_ }
  by_cases hi : i = b.intentId
  · subst hi
    rw [IntentScheduler.block, AList.lookup_insert] at hlook
    cases hlook
    exact ⟨hb, rfl, rfl, hkeys, hnew, fun hk => hque _ hk⟩
  · rw [IntentScheduler.block, AList.lookup_insert_ne hi] at hlook
    exact { h.blocked hlook with }

theorem unblock (h : Wf L s) : Wf L { s with blockedIntents := s.blockedIntents.erase i } := by
  refine { h with blocked := fun {j info} hlook => ?_ }
  by_cases hj : j = i
  · subst hj
    rw [AList.lookup_erase] at hlook
    cases hlook
  · rw [AList.lookup_erase_ne hj] at hlook
    exact { h.blocked hlook with }

/-- **A bundle that heads all its queues is handed out.** -/
theorem handOut (h : Wf L s) (hb : b ∈ L.scheduled)
    (hnew : b.intentId ∉ L.handedOut.map (·.intentId))
    (hblk : s.blockedIntents.lookup b.intentId = none)
    (hhd : ∀ k ∈ b.getAllCommittedPubkeys, (s.queue k).head? = some b.intentId) :
    Wf (L.handOut (some b)) s := by
  have hids : (L.handOut (some b)).handedOut.map (·.intentId)
      = L.handedOut.map (·.intentId) ++ [b.intentId] := by
    simp [Ledger.handOut]
  have hwait : ∀ q : List IntentID, b.intentId ∉ q →
      waiting (L.handOut (some b)) q = waiting L q := fun q hq => by
    refine List.filter_congr fun i hi => ?_
    have hne : i ≠ b.intentId := ne_of_mem_of_not_mem hi hq
    simp [hids, hne]
  refine ⟨h.noEmpty, h.ids, h.keys, fun c hc => ?_, ?_, h.executing_sub.append_right [b],
    fun k => ?_, h.queued, h.nodup, fun {i info} hlook => ?_, fun {c} hc {k} hk => ?_⟩
  · rcases List.mem_append.mp hc with hc | hc
    · exact h.handed_sub hc
    · exact List.mem_singleton.mp hc ▸ hb
  · rw [hids]
    exact List.nodup_append_comm.mp (List.nodup_cons.mpr ⟨hnew, h.handed_nodup⟩)
  · have honKey : onKey k (L.handOut (some b)).handedOut = onKey k L.handedOut
        ++ if k ∈ b.getAllCommittedPubkeys then [b.intentId] else [] :=
      onKey_concat
    by_cases hk : k ∈ b.getAllCommittedPubkeys
    · -- the head of the queue moves from waiting to handed out
      obtain ⟨rest, hrest⟩ := List.head?_eq_some_iff.mp (hhd k hk)
      have hnd := h.nodup k
      have hord := h.order k
      rw [hrest] at hnd hord
      have hnotin := (List.nodup_cons.mp hnd).1
      have hhead : waiting (L.handOut (some b)) (b.intentId :: rest) = waiting L rest := by
        rw [← hwait rest hnotin, waiting, waiting, List.filter_cons_of_neg (by simp [hids])]
      have hlast : waiting L (b.intentId :: rest) = b.intentId :: waiting L rest :=
        List.filter_cons_of_pos (by simpa using hnew)
      rw [hrest, hhead, honKey, if_pos hk, List.append_assoc, List.singleton_append, ← hlast]
      exact hord
    · have hnotin : b.intentId ∉ s.queue k := fun hq => hk (h.mem_keys_of_queued hb hq)
      rw [honKey, if_neg hk, List.append_nil, hwait _ hnotin]
      exact h.order k
  · have hent := h.blocked hlook
    refine { hent with notHanded := fun hmem => ?_ }
    rw [hids] at hmem
    rcases List.mem_append.mp hmem with hmem | hmem
    · exact hent.notHanded hmem
    · rw [List.mem_singleton.mp hmem, hblk] at hlook
      cases hlook
  · rcases List.mem_append.mp hc with hc | hc
    · exact h.heads hc hk
    · obtain rfl := List.mem_singleton.mp hc
      exact hhd k hk

/-- **The queues lose members** — those left keep their order, blocked intents stay in all their
queues, and those that keep executing stay in front. -/
theorem shrink (h : Wf L s) (ht : t.blockedKeys.NoEmpty) (hqueue : ∀ k, t.queue k <+ s.queue k)
    (hblk : ∀ i info, t.blockedIntents.lookup i = some info →
      s.blockedIntents.lookup i = some info ∧
      ∀ k ∈ info.intent.getAllCommittedPubkeys, i ∈ t.queue k)
    (hsub : executing <+ L.executing)
    (hhd : ∀ b ∈ executing, ∀ k ∈ b.getAllCommittedPubkeys, (t.queue k).head? = some b.intentId) :
    Wf { L with executing := executing } t := by
  refine ⟨ht, h.ids, h.keys, h.handed_sub, h.handed_nodup, hsub.trans h.executing_sub,
    fun k => ?_, fun hi => h.queued ((hqueue _).subset hi), fun k => (hqueue k).nodup (h.nodup k),
    fun {i info} hlook => ?_, fun {b} hb {k} hk => hhd b hb k hk⟩
  · exact ((hqueue k).filter _).append_left _ |>.trans (h.order k)
  · obtain ⟨hlook, hque⟩ := hblk i info hlook
    exact { h.blocked hlook with queued := fun hk => hque _ hk }

/-! ### The calls -/

theorem schedule (h : Wf L s) (hkeys : b.getAllCommittedPubkeys.Nodup)
    (hfr : ∀ c ∈ L.scheduled, c.intentId ≠ b.intentId) :
    Wf ((L.enter b).handOut (s.schedule b).2) (s.schedule b).1 := by
  have hadm := admission_schedule h.noEmpty (h.lookup_of_fresh hfr) (h.not_queued_of_fresh hfr)
  have hnew := h.not_handed_of_fresh hfr
  have hb : b ∈ (L.enter b).scheduled := by simp [Ledger.enter]
  have hlock : Wf (L.enter b) (s.lockKeys b) := by
    refine h.enter hkeys hfr (h.noEmpty.foldl_pushBack b.intentId b.getAllCommittedPubkeys) rfl
      fun k => ?_
    rw [queue_lockKeys hkeys]
    by_cases hk : k ∈ b.getAllCommittedPubkeys
    · exact .inr ⟨hk, if_pos hk⟩
    · exact .inl (if_neg hk)
  generalize s.schedule b = r at hadm ⊢
  cases hadm with
  | free hnil =>
    have hadmit : Wf (L.enter b) s := h.enter hkeys hfr h.noEmpty rfl fun _ => .inl rfl
    exact hadmit.handOut hb hnew (h.lookup_of_fresh hfr) (by simp [hnil])
  | poisoned =>
    exact (h.enter hkeys hfr h.noEmpty rfl fun _ => .inl rfl).poison _
  | blocked hne =>
    refine hlock.block hb hne hnew fun k hk => ?_
    rw [queue_lockKeys hkeys, if_pos hk]
    simp
  | executes hne _ hfree =>
    refine hlock.handOut hb hnew (h.lookup_of_fresh hfr) fun k hk => ?_
    rw [queue_lockKeys hkeys, if_pos hk, hfree k hk]
    rfl

/-- A ready intent heads all its queues. -/
theorem heads_of_ready (h : Wf L s) (hready : s.Ready i info)
    (hk : k ∈ info.intent.getAllCommittedPubkeys) : (s.queue k).head? = some i := by
  obtain ⟨hlook, -, hlen⟩ := hready
  refine QueueMap.head_of_length_fronted (fun k hhead => ?_)
    (hlen.trans (h.blocked hlook).numKeys_eq) hk
  exact h.indexed.mem_keys hlook (List.mem_of_head? hhead)

theorem pop (h : Wf L s) {order : List (Sigma fun _ : IntentID => ℕ)}
    (hord : order.Perm s.executeCandidates.entries) :
    Wf (L.handOut (s.popNextScheduledIntent order).2) (s.popNextScheduledIntent order).1 := by
  have hpop := pop_popNextScheduledIntent hord
  generalize s.popNextScheduledIntent order = r at hpop ⊢
  cases hpop with
  | none => exact h
  | @some i info hready =>
    have hent := h.blocked hready.1
    refine (h.unblock).handOut hent.scheduled (hent.intentId_eq.symm ▸ hent.notHanded)
      ?_ fun k hk => ?_
    · rw [hent.intentId_eq, AList.lookup_erase]
    · exact (h.heads_of_ready hready hk).trans (congrArg some hent.intentId_eq.symm)

/-- Finishing an action-only bundle touches no queue. -/
theorem finish_free (h : Wf L s) (b : OutboxIntentBundle) : Wf (L.finish b) s :=
  h.shrink h.noEmpty (fun _ => List.Sublist.refl _)
    (fun _ _ hlook => ⟨hlook, fun _ hk => (h.blocked hlook).queued hk⟩)
    List.filter_sublist fun _ hc _ hk => h.heads (List.mem_of_mem_filter hc) hk

/-- An executing bundle with keys that a call on `b` does not finish has another id. -/
theorem intentId_ne_of_finish (hc : c ∈ (L.finish b).executing)
    (hb : b.getAllCommittedPubkeys ≠ []) (hk : k ∈ c.getAllCommittedPubkeys) :
    c.intentId ≠ b.intentId := by
  intro hid
  have hnot : ¬ Finishes b c := by simpa using (List.mem_filter.mp hc).2
  exact hnot ⟨hid, iff_of_false (List.ne_nil_of_mem hk) hb⟩

theorem complete (h : Wf L s) (hkeys : b.getAllCommittedPubkeys.Nodup) :
    Wf (L.record (.completed b (s.complete b).2)) (s.complete b).1 := by
  have hcompl := completion_complete (s := s) hkeys h.noEmpty
  generalize s.complete b = r at hcompl ⊢
  cases hcompl with
  | free => exact h.finish_free b
  | rejected => exact h
  | @released hne hhd m hm hqueue =>
    refine h.shrink hm (fun k => ?_) (fun i info hlook => ⟨hlook, fun k hk => ?_⟩)
      List.filter_sublist fun c hc k hk => ?_
    · change m.queue k <+ _
      rw [hqueue]
      split
      · exact List.tail_sublist _
      · exact List.Sublist.refl _
    · change i ∈ m.queue k
      have hi := (h.blocked hlook).queued hk
      rw [hqueue]
      split
      next hkb =>
        -- the popped head is `b`, which is not blocked
        obtain ⟨rest, hrest⟩ := List.head?_eq_some_iff.mp ((hhd.head_iff k).mpr hkb)
        rw [hrest] at hi ⊢
        rcases List.mem_cons.mp hi with rfl | hi
        · simp [hhd.notBlocked] at hlook
        · exact hi
      next => exact hi
    · have hid := intentId_ne_of_finish hc hne hk
      have hhead := h.heads (List.mem_of_mem_filter hc) hk
      have hkb : k ∉ b.getAllCommittedPubkeys := fun hkb =>
        hid (Option.some.inj (hhead.symm.trans ((hhd.head_iff k).mpr hkb)))
      change (m.queue k).head? = _
      rw [hqueue, if_neg hkb, hhead]

/-- **An executing intent is out of reach of every failure but its own.** -/
theorem not_reach_executing (h : Wf L s) (hc : c ∈ L.executing) (f : OutboxIntentBundle) :
    ¬ s.Reach f c.intentId :=
  not_transGen_behind_of_head h.nodup
    (fun _ hk => h.heads hc (h.mem_keys_of_queued (h.executing_scheduled hc) hk)) f.intentId

/-- What stands in a queue and is not dropped by the cascade is still there. -/
theorem mem_queue_of_cascade
    (hcasc : s.Cascade f t ∅ voided) (hi : i ∈ s.queue k) (hif : i ≠ f.intentId)
    (hkeep : s.Reach f i → i ∉ voided.map (·.intentId) ∧ s.blockedIntents.lookup i ≠ none) :
    i ∈ t.queue k := by
  obtain ⟨dropped, hd, hmem⟩ := hcasc.split k
  rw [hd] at hi
  rcases List.mem_append.mp hi with hi | hi
  · exact hi
  · rcases hmem i hi with rfl | ⟨hreach, hv | hw | hnone⟩
    · exact absurd rfl hif
    · exact absurd hv (hkeep hreach).1
    · simp at hw
    · exact absurd hnone (hkeep hreach).2

theorem failed (h : Wf L s) (search : Pubkey → BinarySearch IntentID)
    (hkeys : f.getAllCommittedPubkeys.Nodup) :
    Wf (L.record (.failed f (s.failed search f).2)) (s.failed search f).1 := by
  have hfail := failure_failed search hkeys h.noEmpty h.indexed
  generalize s.failed search f = r at hfail ⊢
  cases hfail with
  | free => exact h.finish_free f
  | rejected => exact h
  | @voids hne hhd t voided hcasc =>
    refine h.shrink hcasc.noEmpty (fun k => (hcasc.prefix_queue k).sublist)
      (fun i info hlook => ?_) List.filter_sublist fun c hc k hk => ?_
    · rw [hcasc.blocked] at hlook
      split at hlook
      · cases hlook
      next hnot =>
        refine ⟨hlook, fun k hk => mem_queue_of_cascade hcasc ((h.blocked hlook).queued hk) ?_
          fun _ => ⟨hnot, by simp [hlook]⟩⟩
        rintro rfl
        simp [hhd.notBlocked] at hlook
    · have hexec := List.mem_of_mem_filter hc
      have hhead := h.heads hexec hk
      have hin : c.intentId ∈ t.queue k := mem_queue_of_cascade hcasc (List.mem_of_head? hhead)
        (intentId_ne_of_finish hc hne hk)
          fun hreach => absurd hreach (h.not_reach_executing hexec f)
      obtain ⟨rest, hrest⟩ := hcasc.prefix_queue k
      cases hq : t.queue k with
      | nil => simp [hq] at hin
      | cons i q =>
        rw [← hrest, hq] at hhead
        exact hhead

/-- **Every call keeps the invariant.** -/
theorem step (h : Wf (ledger es) s)
    (hstep : SchedulerStep FreshId AnyBundle es s e t) : Wf (ledger (es ++ [e])) t := by
  rw [ledger_concat]
  cases hstep with
  | schedule hkeys hfr => exact h.schedule hkeys hfr
  | pop hord => exact h.pop hord
  | complete hkeys => exact h.complete hkeys
  | failed search hkeys => exact h.failed search hkeys

end Wf

/-- **Every run keeps the invariant**, whatever is completed or failed. -/
theorem wf_of_run (h : (schedulerMachine FreshId AnyBundle).Run es s) : Wf (ledger es) s := by
  refine Machine.Run.invariant ?_ ?_ h
  · rintro _ rfl
    exact Wf.start
  · exact fun _ _ _ _ _ ih hstep => ih.step hstep

end Magicblock
