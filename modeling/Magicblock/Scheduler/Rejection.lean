import Magicblock.Scheduler.Live

/-!
# Scheduler/Rejection — `complete` and `failed` on anything that is not executing

The guard of both calls compares the heads of the queues that the bundle names with its id, and
counts the queues that the id heads.  On a bundle with distinct keys this is exact (`Heads`).  A key
that is named twice is looked at twice but heads one queue: a bundle that names one key of an
executing intent as often as the intent has keys passes the guard, and the call is then applied to
the wrong queues.
-/

open scoped List

namespace Magicblock

open IntentScheduler

/-- **A finishing call finishes an executing intent or changes nothing** — it succeeds on a bundle
with keys only if an intent of its id is executing that was scheduled with the same set of keys, and
leaves the scheduler alone if it fails. -/
def FinishesExecuting {α : Type} (es : List SchedulerEvent) (s : IntentScheduler)
    (b : OutboxIntentBundle) (r : IntentScheduler × Except IntentSchedulerError α) : Prop :=
  (∀ a, r.2 = .ok a → b.getAllCommittedPubkeys ≠ [] →
    ∃ c ∈ (ledger es).executing, c.intentId = b.intentId ∧
      c.getAllCommittedPubkeys.toFinset = b.getAllCommittedPubkeys.toFinset) ∧
  ∀ e, r.2 = .error e → r.1 = s

section Guard

variable {b : OutboxIntentBundle}

/-- An executing bundle heads exactly the queues of its keys. -/
theorem Wf.mem_keys_iff_head (h : Wf L s) (hc : c ∈ L.executing) : k ∈ c.getAllCommittedPubkeys ↔
    (s.queue k).head? = some c.intentId :=
  ((h.heads_of_executing hc).head_iff k).symm

/-- What passes the guard with distinct keys is executing, with these keys. -/
theorem Live.executing_of_heads (hl : Live L s) (h : Wf L s) (hhd : s.Heads b)
    (hne : b.getAllCommittedPubkeys ≠ []) :
    ∃ c ∈ L.executing, c.intentId = b.intentId ∧
      c.getAllCommittedPubkeys.toFinset = b.getAllCommittedPubkeys.toFinset := by
  obtain ⟨k, hk⟩ := List.exists_mem_of_ne_nil _ hne
  have hhead := (hhd.head_iff k).mpr hk
  rcases hl.live (List.mem_of_head? hhead) with ⟨info, hblk⟩ | ⟨c, hc, hid⟩
  · cases hhd.notBlocked.symm.trans hblk
  · refine ⟨c, hc, hid, ?_⟩
    ext j
    rw [List.mem_toFinset, List.mem_toFinset, h.mem_keys_iff_head hc, hid, hhd.head_iff]

/-- A bundle that names a key twice and passes the guard has other keys than the executing intent
of its id. -/
theorem Wf.keys_ne_of_repeated (h : Wf L s) (hrep : ¬ b.getAllCommittedPubkeys.Nodup)
    (hlen : (s.blockedKeys.fronted b.intentId).length = b.getAllCommittedPubkeys.length)
    (hc : c ∈ L.executing) (hid : c.intentId = b.intentId) :
    c.getAllCommittedPubkeys.toFinset ≠ b.getAllCommittedPubkeys.toFinset := by
  intro hsame
  have hnd := h.keys (h.executing_scheduled hc)
  have hfron := QueueMap.length_fronted hnd fun k => (h.mem_keys_iff_head hc).symm
  have hcard : b.getAllCommittedPubkeys.toFinset.card = b.getAllCommittedPubkeys.length := by
    rw [← hsame, List.toFinset_card_of_nodup hnd, ← hfron, hid, hlen]
  exact hrep (Multiset.coe_nodup.mp (Multiset.toFinset_card_eq_card_iff_nodup.mp hcard))

end Guard

namespace IntentScheduler

/-- The release loop takes heads away and nothing else, even if it stops half-way. -/
theorem queue_releaseKeys_suffix (ks : List Pubkey) (s : IntentScheduler) (k : Pubkey) :
    (releaseKeys ks s).1.queue k <:+ s.queue k := by
  induction ks generalizing s with
  | nil => exact List.suffix_rfl
  | cons j ks ih =>
    rw [releaseKeys]
    split
    · exact List.suffix_rfl
    · rename_i queue hlook
      refine (ih _).trans ?_
      rw [IntentScheduler.queue, QueueMap.queue_store]
      split
      · rename_i heq
        rw [heq, IntentScheduler.queue, QueueMap.queue_of_lookup hlook]
        exact List.tail_suffix _
      · exact List.suffix_rfl

/-- **A release that begins is felt**: the first key loses its head. -/
theorem releaseKeys_ne (hs : s.blockedKeys.NoEmpty)
    (hk : s.queue k ≠ []) : (releaseKeys (k :: ks) s).1 ≠ s := by
  intro hsame
  have hlook : s.blockedKeys.lookup k = some (s.queue k) := hs.lookup_eq_some hk
  have hsuff := queue_releaseKeys_suffix ks
    { s with blockedKeys := s.blockedKeys.store k (s.queue k).tail } k
  have hstor : queue { s with blockedKeys := s.blockedKeys.store k (s.queue k).tail } k =
      (s.queue k).tail := by
    rw [queue, QueueMap.queue_store, if_pos rfl]
  simp only [releaseKeys, hlook] at hsame
  rw [hsame, hstor] at hsuff
  have hlen := hsuff.length_le
  rw [List.length_tail] at hlen
  have hpos := List.length_pos_of_ne_nil hk
  omega

end IntentScheduler

variable {es : List SchedulerEvent} {s : IntentScheduler}

theorem finishesExecuting_of_nodup (h : (schedulerMachine IncreasingId AnyBundle).Run es s)
    (hkeys : b.getAllCommittedPubkeys.Nodup) :
    FinishesExecuting es s b (s.complete b) ∧ FinishesExecuting es s b (s.failed search b) := by
  have hwf := wf_of_increasing h
  have hlive := live_of_run h
  constructor
  · have hcompl := completion_complete (s := s) hkeys hwf.noEmpty
    generalize s.complete b = r at hcompl ⊢
    cases hcompl with
    | free hnil => exact ⟨fun _ _ hne => absurd hnil hne, nofun⟩
    | rejected => exact ⟨nofun, fun _ _ => rfl⟩
    | released _ hhd => exact ⟨fun _ _ => hlive.executing_of_heads hwf hhd, nofun⟩
  · have hfail := failure_failed search hkeys hwf.noEmpty hwf.indexed
    generalize s.failed search b = r at hfail ⊢
    cases hfail with
    | free hnil => exact ⟨fun _ _ hne => absurd hnil hne, nofun⟩
    | rejected => exact ⟨nofun, fun _ _ => rfl⟩
    | voids _ hhd => exact ⟨fun _ _ => hlive.executing_of_heads hwf hhd, nofun⟩

theorem finishesExecuting_of_error
    (herr : s.validateExecuting b.intentId b.getAllCommittedPubkeys = .error e) :
    FinishesExecuting es s b (s.complete b) ∧ FinishesExecuting es s b (s.failed search b) := by
  unfold complete failed
  by_cases hnil : b.getAllCommittedPubkeys = []
  · simp only [hnil, List.isEmpty_nil, if_true]
    exact ⟨⟨fun _ _ hne => absurd hnil hne, nofun⟩, ⟨fun _ _ hne => absurd hnil hne, nofun⟩⟩
  · have hfull : b.getAllCommittedPubkeys.isEmpty = false := by simpa using hnil
    simp only [hfull, Bool.false_eq_true, if_false, herr]
    exact ⟨⟨nofun, fun _ _ => rfl⟩, ⟨nofun, fun _ _ => rfl⟩⟩

/-- A bundle that names a key twice and passes the guard is not treated as it should be. -/
theorem not_finishesExecuting_of_repeated (h : (schedulerMachine IncreasingId AnyBundle).Run es s)
    (hrep : ¬ b.getAllCommittedPubkeys.Nodup)
    (hval : s.validateExecuting b.intentId b.getAllCommittedPubkeys = .ok ()) :
    ¬ FinishesExecuting es s b (s.complete b) := by
  rintro ⟨hok, herr⟩
  have hwf := wf_of_increasing h
  obtain ⟨-, hhd, hlen⟩ := validateExecuting_ok_iff.mp hval
  rcases hkeys : b.getAllCommittedPubkeys with _ | ⟨k, ks⟩
  · exact hrep (hkeys ▸ List.nodup_nil)
  have hrun : s.complete b = releaseKeys (k :: ks) s := by
    rw [complete, hval, hkeys]
    rfl
  rw [hrun] at hok herr
  rcases hres : (releaseKeys (k :: ks) s).2 with e | u
  · have hk : s.queue k ≠ [] := fun hemp => by
      simpa [hemp] using hhd k (hkeys ▸ List.mem_cons_self)
    exact releaseKeys_ne hwf.noEmpty hk (herr e hres)
  · obtain ⟨c, hc, hid, hsame⟩ := hok u hres (hkeys ▸ List.cons_ne_nil k ks)
    exact hwf.keys_ne_of_repeated hrep hlen hc hid hsame

/-- **`complete` and `failed` finish executing intents only, and atomically, exactly if** the bundle
names no key twice or the guard stops it — in every state reached by bundles with increasing ids
and by calls that name no key twice. -/
theorem finishes_executing_iff (h : (schedulerMachine IncreasingId AnyBundle).Run es s)
    (b : OutboxIntentBundle) (search : Pubkey → BinarySearch IntentID) :
    (FinishesExecuting es s b (s.complete b) ∧ FinishesExecuting es s b (s.failed search b)) ↔
      b.getAllCommittedPubkeys.Nodup ∨
        ∃ e, s.validateExecuting b.intentId b.getAllCommittedPubkeys = .error e := by
  constructor
  · rintro ⟨hcomp, -⟩
    by_contra hnot
    obtain ⟨hrep, hnoError⟩ := not_or.mp hnot
    rcases hval : s.validateExecuting b.intentId b.getAllCommittedPubkeys with e | u
    · exact hnoError ⟨e, hval⟩
    · exact not_finishesExecuting_of_repeated h hrep hval hcomp
  · rintro (hkeys | ⟨e, herr⟩)
    · exact finishesExecuting_of_nodup h hkeys
    · exact finishesExecuting_of_error herr

namespace RejectionExample

/-- Bundle 1 executes on the keys 7 and 8. -/
theorem executing_run : (schedulerMachine IncreasingId AnyBundle).Run
    [.scheduled (createTestIntentBundle 1 [7] [8]) (some (createTestIntentBundle 1 [7] [8]))]
    (new.schedule (createTestIntentBundle 1 [7] [8])).1 :=
  (Machine.Run.start (M := schedulerMachine IncreasingId AnyBundle) rfl).step
    (.schedule (b := createTestIntentBundle 1 [7] [8]) (by decide) (by decide))

end RejectionExample

open RejectionExample in
theorem finishes_executing_iff_of_two_keys :
    let s := (IntentScheduler.new.schedule (createTestIntentBundle 1 [7] [8])).1
    FinishesExecuting
      [.scheduled (createTestIntentBundle 1 [7] [8]) (some (createTestIntentBundle 1 [7] [8]))]
      s (createTestIntentBundle 1 [8] [7]) (s.complete (createTestIntentBundle 1 [8] [7])) :=
  ((finishes_executing_iff executing_run _ fun _ => .bisect).mpr (.inl (by decide))).1

open RejectionExample in
/-- **One key named twice stands for two**: the calls fail, and leave their first half behind. -/
theorem half_applied_of_repeated_key :
    ∃ es s b, (schedulerMachine IncreasingId AnyBundle).Run es s ∧
      (s.complete b).2 = .error .corruptedIntent ∧ (s.complete b).1 ≠ s ∧
      (s.failed (fun _ => .bisect) b).2 = .error .corruptedIntent ∧
      (s.failed (fun _ => .bisect) b).1 ≠ s := by
  refine ⟨_, _, createTestIntentBundle 1 [7, 7] [], executing_run, by decide, ?_, by decide, ?_⟩
  all_goals
    intro hsame
    have hqueue := congrArg (fun s => s.queue 7) hsame
    revert hqueue
    decide

end Magicblock
