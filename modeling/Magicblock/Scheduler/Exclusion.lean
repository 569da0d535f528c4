import Magicblock.Foundations.Lists
import Magicblock.Scheduler.Invariant

/-!
# Scheduler/Exclusion — executing bundles share no key, and keys see bundles in order

Two executing bundles with a common key would both head its queue, so they are the same bundle; and
per key the handed-out bundles are a sublist of the schedule order.  Ids need only be distinct: the
binary search of `failed` may miss on unsorted queues and leave stale ids in them, which delays
other intents but neither lets two of them overlap nor overtake.
-/

open scoped List

namespace Magicblock

/-- The bundles of a list that commit `k`. -/
def committing (k : Pubkey) (l : List OutboxIntentBundle) : List OutboxIntentBundle :=
  l.filter fun b => k ∈ b.getAllCommittedPubkeys

namespace Wf

theorem executing_disjoint (h : Wf L s) :
    L.executing.Pairwise fun b c =>
      b.getAllCommittedPubkeys.Disjoint c.getAllCommittedPubkeys := by
  have hdist : L.executing.Pairwise fun b c => b.intentId ≠ c.intentId :=
    List.pairwise_map.mp h.executing_nodup
  refine hdist.imp_of_mem fun {b c} hb hc hne k hkb hkc => hne ?_
  exact Option.some.inj ((h.heads hb hkb).symm.trans (h.heads hc hkc))

theorem handedOut_inOrder (h : Wf L s) (k : Pubkey) :
    committing k L.handedOut <+ committing k L.scheduled := by
  refine sublist_of_map_sublist (f := (·.intentId)) ?_ (List.filter_subset _ h.handed_sub) ?_
  · exact (List.filter_sublist.map _).nodup h.ids
  · exact (List.sublist_append_left _ _).trans (h.order k)

end Wf

/-- **Exclusion and order.**  In every run on bundles with distinct ids and distinct keys, in which
only executing bundles are finished: at every moment the executing bundles have pairwise disjoint
keys, and the bundles of every key are handed out in the order in which they were scheduled. -/
theorem executing_disjoint_and_inOrder {es : List SchedulerEvent} {s : IntentScheduler}
    (h : (schedulerMachine FreshId OnlyExecuting).Run es s) {es' : List SchedulerEvent}
    (hmom : es' <+: es) :
    (ledger es').executing.Pairwise (fun b c =>
        b.getAllCommittedPubkeys.Disjoint c.getAllCommittedPubkeys) ∧
      ∀ k, committing k (ledger es').handedOut <+ committing k (ledger es').scheduled := by
  obtain ⟨t, ht⟩ := h.cut hmom
  have hrun : (schedulerMachine FreshId AnyBundle).Run es' t :=
    schedulerMachine_mono (fun _ _ hb => hb) (fun _ _ _ => trivial) ht
  exact ⟨(wf_of_run hrun).executing_disjoint, (wf_of_run hrun).handedOut_inOrder⟩

/-- Bundle 3 waits behind bundle 5 on key 1, and is handed out once 5 completes. -/
theorem executing_disjoint_and_inOrder_of_conflict :
    ∃ es s, (schedulerMachine FreshId OnlyExecuting).Run es s ∧
      (ledger es).handedOut.map (·.intentId) = [5, 3] ∧
      ((ledger es).executing.Pairwise (fun b c =>
          b.getAllCommittedPubkeys.Disjoint c.getAllCommittedPubkeys) ∧
        ∀ k, committing k (ledger es).handedOut <+ committing k (ledger es).scheduled) := by
  have hrun := (((Machine.Run.start (M := schedulerMachine FreshId OnlyExecuting) rfl).step
    (.schedule (b := createTestIntentBundle 5 [1] []) (by decide) (by decide))).step
    (.schedule (b := createTestIntentBundle 3 [2] [1]) (by decide) (by decide))).step
    (.complete (b := createTestIntentBundle 5 [1] []) (by decide) (by decide))
  have hrun := hrun.step (.pop (List.Perm.refl _))
  exact ⟨_, _, hrun, by decide, executing_disjoint_and_inOrder hrun List.prefix_rfl⟩

end Magicblock
