import Magicblock.Foundations.Results
import Magicblock.Foundations.Waits
import Magicblock.Scheduler.Model

/-!
# Scheduler/Spec — what each operation does to the queues

One description per operation, in terms of the family of queues: `schedule` appends, `complete`
pops the heads of the intent's queues, `pop` only moves an intent out of `blockedIntents`.  The
guard of `complete` and `failed` is `Heads`: the intent is not blocked and the queues it heads are
exactly those of its keys.  (`failed` has a module of its own, `Scheduler/Cascade`.)
-/

namespace Magicblock.IntentScheduler

open QueueMap

variable {s : IntentScheduler} {b : OutboxIntentBundle}

@[simp] theorem queue_new (k : Pubkey) : new.queue k = [] := by
  simp [queue, new]

/-! ### `schedule` -/

/-- The bundle locks its keys: its id is appended to the queue of each of them. -/
def lockKeys (s : IntentScheduler) (b : OutboxIntentBundle) : IntentScheduler :=
  { s with
    blockedKeys :=
      b.getAllCommittedPubkeys.foldl (fun m k => m.pushBack k b.intentId) s.blockedKeys }

/-- The bundle waits for the queues it is in. -/
def block (s : IntentScheduler) (b : OutboxIntentBundle) : IntentScheduler :=
  { s with
    blockedIntents :=
      s.blockedIntents.insert b.intentId ⟨b.getAllCommittedPubkeys.length, b⟩ }

theorem queue_lockKeys (hb : b.getAllCommittedPubkeys.Nodup) (k : Pubkey) : (s.lockKeys b).queue k
      = if k ∈ b.getAllCommittedPubkeys then s.queue k ++ [b.intentId] else s.queue k :=
  queue_foldl_pushBack b.intentId hb s.blockedKeys k

/-- An id that is neither blocked nor queued is no duplicate. -/
theorem isDuplicate_eq_false (hblk : s.blockedIntents.lookup i = none)
    (hque : ∀ k, i ∉ s.queue k) : s.isDuplicate i = false := by
  simp only [isDuplicate, hblk, Option.isSome_none, Bool.false_or]
  refine List.any_eq_false.mpr fun e he hhead => hque e.1 ?_
  rw [queue, queue_of_lookup (AList.mem_lookup_iff.mpr he)]
  exact List.mem_of_head? (of_decide_eq_true hhead)

/-- What `schedule` can do with a fresh id. -/
inductive Admission (s : IntentScheduler) (b : OutboxIntentBundle) :
    IntentScheduler × Option OutboxIntentBundle → Prop
  /-- Nothing is committed, so there is nothing to wait for. -/
  | free (hkeys : b.getAllCommittedPubkeys = []) : Admission s b (s, some b)
  /-- A poisoned key poisons the others. -/
  | poisoned (hk : k ∈ b.getAllCommittedPubkeys) (hpoison : k ∈ s.poisonedKeys) : Admission s b
        ({ s with poisonedKeys := s.poisonedKeys ∪ b.getAllCommittedPubkeys.toFinset }, none)
  | blocked (hkeys : b.getAllCommittedPubkeys ≠ [])
      (hclean : ∀ k ∈ b.getAllCommittedPubkeys, k ∉ s.poisonedKeys)
      (hconf : ∃ k ∈ b.getAllCommittedPubkeys, s.queue k ≠ []) :
      Admission s b ((s.lockKeys b).block b, none)
  | executes (hkeys : b.getAllCommittedPubkeys ≠ [])
      (hclean : ∀ k ∈ b.getAllCommittedPubkeys, k ∉ s.poisonedKeys)
      (hfree : ∀ k ∈ b.getAllCommittedPubkeys, s.queue k = []) :
      Admission s b (s.lockKeys b, some b)

theorem admission_schedule (hs : s.blockedKeys.NoEmpty)
    (hblk : s.blockedIntents.lookup b.intentId = none)
    (hque : ∀ k, b.intentId ∉ s.queue k) : Admission s b (s.schedule b) := by
  have hdup := isDuplicate_eq_false hblk hque
  have hlook : ∀ k, (s.blockedKeys.lookup k).isSome = true ↔ s.queue k ≠ [] := fun k => by
    rw [queue, Ne, ← hs.lookup_eq_none_iff, Option.isSome_iff_ne_none]
  unfold schedule
  by_cases hkeys : b.getAllCommittedPubkeys = []
  · rw [if_pos (by simp [hkeys])]
    exact .free hkeys
  rw [if_neg (by simpa using hkeys), if_neg (by simp [hdup])]
  by_cases hpoison : ∃ k ∈ b.getAllCommittedPubkeys, k ∈ s.poisonedKeys
  · obtain ⟨k, hk, hpoison⟩ := hpoison
    rw [if_pos (List.any_eq_true.mpr ⟨k, hk, decide_eq_true hpoison⟩)]
    exact .poisoned hk hpoison
  rw [if_neg (by simpa using hpoison)]
  have hclean : ∀ k ∈ b.getAllCommittedPubkeys, k ∉ s.poisonedKeys :=
    fun k hk hp => hpoison ⟨k, hk, hp⟩
  by_cases hconf : ∃ k ∈ b.getAllCommittedPubkeys, s.queue k ≠ []
  · obtain ⟨k, hk, hq⟩ := hconf
    rw [if_pos (List.any_eq_true.mpr ⟨k, hk, (hlook k).mpr hq⟩)]
    exact .blocked hkeys hclean ⟨k, hk, hq⟩
  · have hfree : ∀ k ∈ b.getAllCommittedPubkeys, s.queue k = [] :=
      fun k hk => not_not.mp fun hq => hconf ⟨k, hk, hq⟩
    rw [if_neg]
    · exact .executes hkeys hclean hfree
    · intro h
      obtain ⟨k, hk, hq⟩ := List.any_eq_true.mp h
      exact (hlook k).mp hq (hfree k hk)

/-! ### `validate_executing` and `complete` -/

/-- **The guard of `complete` and `failed`** — not blocked, and heading exactly its own queues. -/
structure Heads (s : IntentScheduler) (b : OutboxIntentBundle) : Prop where
  notBlocked : s.blockedIntents.lookup b.intentId = none
  head_iff (k : Pubkey) : (s.queue k).head? = some b.intentId ↔ k ∈ b.getAllCommittedPubkeys

/-- The guard on any list of keys: it looks at the heads of these queues, and counts heads. -/
theorem validateExecuting_ok_iff :
    s.validateExecuting i ks = .ok () ↔ s.blockedIntents.lookup i = none ∧
      (∀ k ∈ ks, (s.queue k).head? = some i) ∧ (s.blockedKeys.fronted i).length = ks.length := by
  have hfound : (s.blockedKeys.entries.filter fun e => e.2.head? = some i).length
      = (s.blockedKeys.fronted i).length := by
    rw [fronted, List.length_map]
  unfold validateExecuting
  constructor
  · intro h
    obtain ⟨hblk, h⟩ := Except.of_ite_error h
    obtain ⟨hall, h⟩ := Except.of_ite_error h
    obtain ⟨hcnt, -⟩ := Except.of_ite_error h
    exact ⟨by simpa using hblk, by simpa using hall, hfound ▸ not_not.mp hcnt⟩
  · rintro ⟨hblk, hall, hlen⟩
    rw [if_neg (by simp [hblk]), if_neg (by simpa using hall), if_neg (by simp [hfound, hlen])]

theorem validateExecuting_eq_ok_iff (hb : b.getAllCommittedPubkeys.Nodup) :
    s.validateExecuting b.intentId b.getAllCommittedPubkeys = .ok () ↔ s.Heads b := by
  rw [validateExecuting_ok_iff]
  constructor
  · rintro ⟨hblk, hall, hcnt⟩
    exact ⟨hblk, head_iff_of_length_fronted hb hall hcnt⟩
  · intro h
    exact ⟨h.notBlocked, fun k hk => (h.head_iff k).mpr hk, length_fronted hb h.head_iff⟩

/-- The release loop pops one head per key and touches nothing else. -/
theorem releaseKeys_eq (hks : ks.Nodup) (hs : s.blockedKeys.NoEmpty)
    (hne : ∀ k ∈ ks, s.queue k ≠ []) :
    ∃ m, releaseKeys ks s = ({ s with blockedKeys := m }, .ok ()) ∧ m.NoEmpty ∧
      ∀ k, m.queue k = if k ∈ ks then (s.queue k).tail else s.queue k := by
  induction ks generalizing s with
  | nil => exact ⟨s.blockedKeys, rfl, hs, fun k => by simp [queue]⟩
  | cons j ks ih =>
    obtain ⟨hj, hks⟩ := List.nodup_cons.mp hks
    have hlook : s.blockedKeys.lookup j = some (s.queue j) := hs.lookup_eq_some (hne j (by simp))
    set t : IntentScheduler :=
      { s with blockedKeys := s.blockedKeys.store j (s.queue j).tail } with ht
    have htqu : ∀ k, t.queue k = if k = j then (s.queue j).tail else s.queue k :=
      fun k => queue_store s.blockedKeys j k _
    have htne : ∀ k ∈ ks, t.queue k ≠ [] := fun k hk => by
      rw [htqu, if_neg (ne_of_mem_of_not_mem hk hj)]
      exact hne k (by simp [hk])
    obtain ⟨m, hm, hmne, hmq⟩ := ih hks (hs.store j _) htne
    refine ⟨m, by simpa [releaseKeys, hlook] using hm, hmne, fun k => ?_⟩
    rw [hmq, htqu]
    by_cases hkj : k = j
    · subst hkj
      simp [hj]
    · simp [hkj]

/-- What `complete` can do. -/
inductive Completion (s : IntentScheduler) (b : OutboxIntentBundle) :
    IntentScheduler × Except IntentSchedulerError Unit → Prop
  | free (hkeys : b.getAllCommittedPubkeys = []) : Completion s b (s, .ok ())
  | rejected (hkeys : b.getAllCommittedPubkeys ≠ []) (hhd : ¬ s.Heads b)
      (e : IntentSchedulerError) : Completion s b (s, .error e)
  | released (hkeys : b.getAllCommittedPubkeys ≠ []) (hhd : s.Heads b)
      {m : QueueMap Pubkey IntentID} (hm : m.NoEmpty)
      (hqueue : ∀ k, m.queue k
        = if k ∈ b.getAllCommittedPubkeys then (s.queue k).tail else s.queue k) :
      Completion s b ({ s with blockedKeys := m }, .ok ())

theorem completion_complete (hb : b.getAllCommittedPubkeys.Nodup) (hs : s.blockedKeys.NoEmpty) :
    Completion s b (s.complete b) := by
  unfold complete
  by_cases hkeys : b.getAllCommittedPubkeys = []
  · rw [if_pos (by simp [hkeys])]
    exact .free hkeys
  rw [if_neg (by simpa using hkeys)]
  have hval := validateExecuting_eq_ok_iff (s := s) hb
  cases hv : s.validateExecuting b.intentId b.getAllCommittedPubkeys with
  | error e => exact .rejected hkeys (fun h => by simp [hval.mpr h] at hv) e
  | ok =>
    have hhd := hval.mp hv
    have hne : ∀ k ∈ b.getAllCommittedPubkeys, s.queue k ≠ [] := fun k hk hq => by
      simpa [hq] using (hhd.head_iff k).mpr hk
    obtain ⟨m, hm, hmne, hmq⟩ := releaseKeys_eq hb hs hne
    simp only [hm]
    exact .released hkeys hhd hmne hmq

/-! ### `pop_next_scheduled_intent` -/

/-- **Ready** — a blocked intent whose key count is the number of queues it heads. -/
def Ready (s : IntentScheduler) (i : IntentID) (info : IntentMeta) : Prop :=
  s.blockedIntents.lookup i = some info ∧ 0 < info.numKeys ∧
    (s.blockedKeys.fronted i).length = info.numKeys

/-- What `pop_next_scheduled_intent` can do. -/
inductive Pop (s : IntentScheduler) : IntentScheduler × Option OutboxIntentBundle → Prop
  | none (hnone : ∀ i info, ¬ s.Ready i info) : Pop s (s, none)
  | some (hready : s.Ready i info) :
      Pop s ({ s with blockedIntents := s.blockedIntents.erase i }, some info.intent)

theorem pop_popNextScheduledIntent (hord : order.Perm s.executeCandidates.entries) :
    Pop s (s.popNextScheduledIntent order) := by
  have hmem : ∀ i n, (⟨i, n⟩ : Sigma fun _ : IntentID => ℕ) ∈ order ↔
      n = (s.blockedKeys.fronted i).length ∧ 0 < n := fun i n => by
    rw [mem_of_perm_tally hord, count_heads]
  unfold popNextScheduledIntent
  simp only
  split
  next id intent hfound =>
    obtain ⟨⟨i, n⟩, hin, hsome⟩ := List.exists_of_findSome?_eq_some hfound
    obtain ⟨hn, hpos⟩ := (hmem i n).mp hin
    cases hlook : s.blockedIntents.lookup i with
    | none => simp [hlook] at hsome
    | some info =>
      simp only [hlook, Option.ite_none_right_eq_some, Option.some_inj, Prod.mk.injEq] at hsome
      obtain ⟨hnum, rfl, rfl⟩ := hsome
      exact .some ⟨hlook, hnum ▸ hpos, by rw [hnum, hn]⟩
  next hfound =>
    refine .none fun i info ⟨hlook, hpos, hnum⟩ => ?_
    have hin := (hmem i info.numKeys).mpr ⟨hnum.symm, hpos⟩
    have hnone := List.findSome?_eq_none_iff.mp hfound _ hin
    simp [hlook] at hnone

end Magicblock.IntentScheduler
