import Magicblock.Scheduler.Spec

/-!
# Scheduler/Cascade — what a failure takes down

`failed` empties the queues of the failed intent `f`, then works off the ids that stood behind it:
each blocked one is voided, its queues are cut at its position, and what stood behind it there is
queued up for the same.  `Cascade s₀ f s worklist voided` is the loop invariant, relative to the
state `s₀` before the failure: every queue has only lost a tail, the tails consist of `f` and of
ids that waited for `f`, and of those all blocked ones are voided or still on the worklist.

Nothing here assumes the queues sorted, except `gone` (by `Tidy`): only then must the binary search
find every voided id, so that none stays behind in a queue.
-/

open scoped List

namespace Magicblock.IntentScheduler

open List (mem_append mem_append_left mem_cons mem_singleton)

/-- `x` is reachable from `f`: it waits, through a chain of queues, for `f`. -/
def Reach (s : IntentScheduler) (f : OutboxIntentBundle) (x : IntentID) : Prop :=
  Relation.TransGen (Behind s.queue) f.intentId x

/-- Every blocked entry is filed under its own id, and stands only in queues of its own keys. -/
structure Indexed (s : IntentScheduler) : Prop where
  intentId_eq {i : IntentID} {info : IntentMeta} (h : s.blockedIntents.lookup i = some info) :
    info.intent.intentId = i
  mem_keys {i : IntentID} {info : IntentMeta} (h : s.blockedIntents.lookup i = some info)
    {k : Pubkey} (hk : i ∈ s.queue k) : k ∈ info.intent.getAllCommittedPubkeys

/-- The queues are sorted, and `f` stands nowhere but at their heads. -/
structure Tidy (s : IntentScheduler) (f : OutboxIntentBundle) : Prop where
  sorted (k : Pubkey) : (s.queue k).Pairwise (· < ·)
  head {k : Pubkey} (hk : f.intentId ∈ s.queue k) : (s.queue k).head? = some f.intentId

/-- **The invariant of the worklist loop.** -/
structure Cascade (s₀ : IntentScheduler) (f : OutboxIntentBundle) (s : IntentScheduler)
    (worklist : Finset IntentID) (voided : List OutboxIntentBundle) : Prop where
  noEmpty : s.blockedKeys.NoEmpty
  split (k : Pubkey) : ∃ dropped, s₀.queue k = s.queue k ++ dropped ∧
    ∀ x ∈ dropped, x = f.intentId ∨ s₀.Reach f x ∧
      (x ∈ voided.map (·.intentId) ∨ x ∈ worklist ∨ s₀.blockedIntents.lookup x = none)
  work {x : IntentID} (hx : x ∈ worklist) : s₀.Reach f x
  voided_reach {v : OutboxIntentBundle} (hv : v ∈ voided) : s₀.Reach f v.intentId
  voided_blocked {v : OutboxIntentBundle} (hv : v ∈ voided) :
    ∃ info, s₀.blockedIntents.lookup v.intentId = some info ∧ info.intent = v
  nodup : (voided.map (·.intentId)).Nodup
  blocked (i : IntentID) : s.blockedIntents.lookup i
    = if i ∈ voided.map (·.intentId) then none else s₀.blockedIntents.lookup i
  poisoned : s.poisonedKeys = s₀.poisonedKeys ∪ f.getAllCommittedPubkeys.toFinset
    ∪ (voided.flatMap (·.getAllCommittedPubkeys)).toFinset
  gone (htidy : s₀.Tidy f) {k : Pubkey} {x : IntentID} (hx : x ∈ s.queue k) :
    x ≠ f.intentId ∧ x ∉ voided.map (·.intentId)

/-! ### The seed -/

theorem seedWorklist_eq (hks : ks.Nodup)
    (hs : s.blockedKeys.NoEmpty) (hne : ∀ k ∈ ks, s.queue k ≠ []) (w : Finset IntentID) :
    ∃ m w', seedWorklist ks s w
        = ({ s with blockedKeys := m, poisonedKeys := s.poisonedKeys ∪ ks.toFinset }, .ok w') ∧
      m.NoEmpty ∧ (∀ k, m.queue k = if k ∈ ks then [] else s.queue k) ∧
      ∀ x, x ∈ w' ↔ x ∈ w ∨ ∃ k ∈ ks, x ∈ (s.queue k).tail := by
  induction ks generalizing s w with
  | nil => exact ⟨s.blockedKeys, w, by simp [seedWorklist], hs, by simp [queue], by simp⟩
  | cons j ks ih =>
    obtain ⟨hj, hks⟩ := List.nodup_cons.mp hks
    have hlook : s.blockedKeys.lookup j = some (s.queue j) := hs.lookup_eq_some (hne j (by simp))
    set t : IntentScheduler :=
      { s with blockedKeys := s.blockedKeys.erase j, poisonedKeys := insert j s.poisonedKeys }
    have htqu : ∀ k, t.queue k = if k = j then [] else s.queue k :=
      fun k => QueueMap.queue_erase s.blockedKeys j k
    have hout : ∀ k ∈ ks, t.queue k = s.queue k := fun k hk => by
      rw [htqu, if_neg (ne_of_mem_of_not_mem hk hj)]
    have htne : ∀ k ∈ ks, t.queue k ≠ [] := fun k hk => by
      rw [hout k hk]
      exact hne k (by simp [hk])
    obtain ⟨m, w', hm, hmne, hmq, hmw⟩ :=
      ih hks (hs.erase j) htne (w ∪ ((s.queue j).drop 1).toFinset)
    have hpoison : insert j s.poisonedKeys ∪ ks.toFinset = s.poisonedKeys ∪ (j :: ks).toFinset := by
      ext x
      simp
    refine ⟨m, w', ?_, hmne, fun k => ?_, fun x => ?_⟩
    · simp only [seedWorklist, hlook]
      rw [hm, ← hpoison]
    · rw [hmq, htqu]
      by_cases hkj : k = j
      · simp [hkj]
      · simp [hkj]
    · rw [hmw]
      have htail : (∃ k ∈ ks, x ∈ (t.queue k).tail) ↔ ∃ k ∈ ks, x ∈ (s.queue k).tail :=
        exists_congr fun k => and_congr_right fun hk => by rw [hout k hk]
      rw [htail]
      simp [or_assoc]

/-- The queues of `f` are gone with all their waiters on the worklist: the loop starts there. -/
theorem cascade_seed (hhd : s₀.Heads f) (hm : m.NoEmpty)
    (hqueue : ∀ k, m.queue k = if k ∈ f.getAllCommittedPubkeys then [] else s₀.queue k)
    (hwork : ∀ x, x ∈ w ↔ ∃ k ∈ f.getAllCommittedPubkeys, x ∈ (s₀.queue k).tail) :
    Cascade s₀ f
      { s₀ with
        blockedKeys := m
        poisonedKeys := s₀.poisonedKeys ∪ f.getAllCommittedPubkeys.toFinset } w [] := by
  have hcons : ∀ k ∈ f.getAllCommittedPubkeys,
      s₀.queue k = [] ++ f.intentId :: (s₀.queue k).tail := fun k hk => by
    obtain ⟨rest, hrest⟩ := List.head?_eq_some_iff.mp ((hhd.head_iff k).mpr hk)
    rw [hrest, List.tail_cons, List.nil_append]
  have hreach : ∀ k ∈ f.getAllCommittedPubkeys, ∀ x ∈ (s₀.queue k).tail, s₀.Reach f x :=
    fun k hk x hx => .single (behind_of_append (hcons k hk) hx)
  have hqueue' : ∀ k, QueueMap.queue m k
      = if k ∈ f.getAllCommittedPubkeys then [] else s₀.queue k := hqueue
  refine ⟨hm, fun k => ?_, fun {x} hx => ?_, by simp, by simp, by simp, by simp, by simp,
    fun htidy {k x} hx => ⟨?_, by simp⟩⟩
  · by_cases hk : k ∈ f.getAllCommittedPubkeys
    · refine ⟨s₀.queue k, by simp [queue, hqueue', hk], fun x hx => ?_⟩
      rw [hcons k hk] at hx
      rcases mem_cons.mp hx with rfl | hx
      · exact .inl rfl
      · exact .inr ⟨hreach k hk x hx, .inr (.inl ((hwork x).mpr ⟨k, hk, hx⟩))⟩
    · exact ⟨[], by simp [queue, hqueue', hk], by simp⟩
  · obtain ⟨k, hk, hx⟩ := (hwork x).mp hx
    exact hreach k hk x hx
  · rintro rfl
    by_cases hk : k ∈ f.getAllCommittedPubkeys
    · simp [queue, hqueue', hk] at hx
    · have hx : f.intentId ∈ s₀.queue k := by simpa [queue, hqueue', hk] using hx
      exact hk ((hhd.head_iff k).mp (htidy.head hx))

/-! ### One round -/

/-- Cutting the queues of `ks` at `i`: every queue loses a tail of `i` and of ids that are now on
the worklist, and only ids from behind `i` are new there. -/
structure Drained (search : Pubkey → BinarySearch IntentID) (i : IntentID) (ks : List Pubkey)
    (m : QueueMap Pubkey IntentID) (w : Finset IntentID) (m' : QueueMap Pubkey IntentID)
    (w' : Finset IntentID) : Prop where
  noEmpty : m'.NoEmpty
  split (k : Pubkey) : ∃ dropped, m.queue k = m'.queue k ++ dropped ∧ ∀ x ∈ dropped, x = i ∨ x ∈ w'
  mono : w ⊆ w'
  new {x : IntentID} (hx : x ∈ w') : x ∈ w ∨ Behind m.queue i x
  gone (hsort : ∀ k, (m.queue k).Pairwise (· < ·)) {k : Pubkey} (hk : k ∈ ks) : i ∉ m'.queue k
  measure : m'.size + w'.card ≤ m.size + w.card

theorem drained_drainKeys (search : Pubkey → BinarySearch IntentID) (i : IntentID)
    (ks : List Pubkey) (hm : m.NoEmpty) (w : Finset IntentID) :
    Drained search i ks m w (drainKeys search i ks m w).1 (drainKeys search i ks m w).2 := by
  induction ks generalizing m w with
  | nil =>
    exact ⟨hm, fun k => ⟨[], by simp [drainKeys], by simp⟩, subset_rfl, .inl, by simp, le_rfl⟩
  | cons j ks ih =>
    rcases QueueMap.cut_cases (search j) i hm j with ⟨hcut, hmiss⟩ | ⟨front, behind, hj, hcut⟩
    · -- the entry is missing or the search misses: nothing changes
      have hstep : drainKeys search i (j :: ks) m w = drainKeys search i ks m w := by
        simp [drainKeys, hcut]
      rw [hstep]
      have ih := ih hm w
      refine ⟨ih.noEmpty, ih.split, ih.mono, ih.new, fun hsort {k} hk => ?_, ih.measure⟩
      rcases mem_cons.mp hk with rfl | hk
      · obtain ⟨dropped, hd, -⟩ := ih.split k
        exact fun hi => hmiss (hsort k) (hd ▸ mem_append_left dropped hi)
      · exact ih.gone hsort hk
    · have hstep : drainKeys search i (j :: ks) m w
          = drainKeys search i ks (m.store j front) (w ∪ behind.toFinset) := by
        simp [drainKeys, hcut]
      have hstore : ∀ k, (m.store j front).queue k = if k = j then front else m.queue k :=
        fun k => QueueMap.queue_store m j k front
      have hpre : ∀ k, (m.store j front).queue k <+: m.queue k := fun k => by
        rw [hstore]
        split
        next hkj => exact ⟨i :: behind, by rw [hkj, hj]⟩
        next => exact List.prefix_rfl
      rw [hstep]
      have ih := ih (hm.store j front) (w ∪ behind.toFinset)
      refine ⟨ih.noEmpty, fun k => ?_, Finset.subset_union_left.trans ih.mono, fun {x} hx => ?_,
        fun hsort {k} hk => ?_, ?_⟩
      · obtain ⟨dropped, hd, hmem⟩ := ih.split k
        rw [hstore] at hd
        by_cases hkj : k = j
        · refine ⟨dropped ++ i :: behind, ?_, fun x hx => ?_⟩
          · rw [← List.append_assoc, ← hd, if_pos hkj, hkj, hj]
          · rcases mem_append.mp hx with hx | hx
            · exact hmem x hx
            · rcases mem_cons.mp hx with rfl | hx
              · exact .inl rfl
              · exact .inr (ih.mono (by simp [hx]))
        · exact ⟨dropped, by rw [← hd, if_neg hkj], hmem⟩
      · rcases ih.new hx with hx | ⟨k, hk⟩
        · rcases Finset.mem_union.mp hx with hx | hx
          · exact .inl hx
          · exact .inr (behind_of_append hj (List.mem_toFinset.mp hx))
        · exact .inr ⟨k, hk.trans (hpre k).sublist⟩
      · rcases mem_cons.mp hk with rfl | hk
        · -- `i` is gone from its queue at once, being there only once
          intro hi
          obtain ⟨dropped, hd, -⟩ := ih.split k
          have hi : i ∈ front := by
            have := hd ▸ mem_append_left dropped hi
            simpa [hstore] using this
          have hnd := (hsort k).nodup
          rw [hj] at hnd
          exact (List.nodup_append.mp hnd).2.2 i hi i (by simp) rfl
        · refine ih.gone (fun k => ?_) hk
          exact (hsort k).sublist (hpre k).sublist
      · have hsize := QueueMap.size_store m j front
        rw [hj, List.length_append, List.length_cons] at hsize
        have hcard := Finset.card_union_le w behind.toFinset
        have hbeh := behind.toFinset_card_le
        have := ih.measure
        omega

theorem Cascade.prefix_queue (h : Cascade s₀ f s w voided) (k : Pubkey) :
    s.queue k <+: s₀.queue k := by
  obtain ⟨dropped, hd, -⟩ := h.split k
  exact ⟨dropped, hd.symm⟩

/-- An id that is not blocked (any more) leaves the worklist without effect. -/
theorem Cascade.skip (h : Cascade s₀ f s w voided) (hi : i ∈ w)
    (hlook : s.blockedIntents.lookup i = none) : Cascade s₀ f s (w.erase i) voided := by
  have hdone : i ∈ voided.map (·.intentId) ∨ s₀.blockedIntents.lookup i = none := by
    by_cases hv : i ∈ voided.map (·.intentId)
    · exact .inl hv
    · exact .inr (by simpa [h.blocked, hv] using hlook)
  refine { h with
    split := fun k => ?_
    work := fun hx => h.work (Finset.mem_of_mem_erase hx) }
  obtain ⟨dropped, hd, hmem⟩ := h.split k
  refine ⟨dropped, hd, fun x hx => (hmem x hx).imp_right fun ⟨hreach, hcase⟩ => ⟨hreach, ?_⟩⟩
  by_cases hxi : x = i
  · subst hxi
    exact hdone.imp_right .inr
  · exact hcase.imp_right (Or.imp_left fun hw => Finset.mem_erase.mpr ⟨hxi, hw⟩)

/-- **A round that voids** — the intent leaves `blockedIntents` and all its queues are cut. -/
theorem Cascade.void (h : Cascade s₀ f s w voided) (hs₀ : s₀.Indexed) (hi : i ∈ w)
    (hlook : s.blockedIntents.lookup i = some info)
    (hdrain : Drained search i info.intent.getAllCommittedPubkeys s.blockedKeys (w.erase i) m w') :
    Cascade s₀ f
      { blockedKeys := m
        blockedIntents := s.blockedIntents.erase i
        poisonedKeys := s.poisonedKeys ∪ info.intent.getAllCommittedPubkeys.toFinset }
      w' (voided ++ [info.intent]) := by
  have hnew : i ∉ voided.map (·.intentId) := fun hv => by simp [h.blocked, hv] at hlook
  have hlook₀ : s₀.blockedIntents.lookup i = some info := by
    simpa [h.blocked, hnew] using hlook
  have hid : info.intent.intentId = i := hs₀.intentId_eq hlook₀
  have hids : (voided ++ [info.intent]).map (·.intentId) = voided.map (·.intentId) ++ [i] := by
    rw [List.map_append, List.map_singleton, hid]
  have hreach : ∀ x ∈ w', s₀.Reach f x := fun x hx => by
    rcases hdrain.new hx with hx | hx
    · exact h.work (Finset.mem_of_mem_erase hx)
    · obtain ⟨k, hk⟩ := hx
      exact (h.work hi).tail ⟨k, hk.trans (h.prefix_queue k).sublist⟩
  refine ⟨hdrain.noEmpty, fun k => ?_, fun hx => hreach _ hx, fun {v} hv => ?_, fun {v} hv => ?_,
    ?_, fun j => ?_, ?_, fun htidy {k x} hx => ?_⟩
  · obtain ⟨dropped, hd, hmem⟩ := h.split k
    obtain ⟨dropped', hd', hmem'⟩ := hdrain.split k
    refine ⟨dropped' ++ dropped, ?_, fun x hx => ?_⟩
    · rw [hd, ← List.append_assoc]
      exact congrArg (· ++ dropped) hd'
    · rw [hids]
      rcases mem_append.mp hx with hx | hx
      · rcases hmem' x hx with rfl | hx
        · exact .inr ⟨h.work hi, .inl (by simp)⟩
        · exact .inr ⟨hreach x hx, .inr (.inl hx)⟩
      · refine (hmem x hx).imp_right fun ⟨hreach, hcase⟩ => ⟨hreach, ?_⟩
        rcases hcase with hv | hw | hnone
        · exact .inl (mem_append_left [i] hv)
        · by_cases hxi : x = i
          · exact .inl (by simp [hxi])
          · exact .inr (.inl (hdrain.mono (Finset.mem_erase.mpr ⟨hxi, hw⟩)))
        · exact .inr (.inr hnone)
  · rcases mem_append.mp hv with hv | hv
    · exact h.voided_reach hv
    · obtain rfl := mem_singleton.mp hv
      exact hid ▸ h.work hi
  · rcases mem_append.mp hv with hv | hv
    · exact h.voided_blocked hv
    · obtain rfl := mem_singleton.mp hv
      exact ⟨info, hid ▸ hlook₀, rfl⟩
  · rw [hids]
    exact List.nodup_append_comm.mp (List.nodup_cons.mpr ⟨hnew, h.nodup⟩)
  · rw [hids]
    by_cases hji : j = i
    · subst hji
      simp
    · rw [AList.lookup_erase_ne hji, h.blocked]
      simp [hji]
  · simp [h.poisoned]
  · have hx' : x ∈ s.queue k := by
      obtain ⟨dropped', hd', -⟩ := hdrain.split k
      rw [queue, hd']
      exact mem_append_left dropped' hx
    obtain ⟨hxf, hxv⟩ := h.gone htidy hx'
    refine ⟨hxf, fun hxin => ?_⟩
    rw [hids] at hxin
    rcases mem_append.mp hxin with hxin | hxin
    · exact hxv hxin
    · obtain rfl := mem_singleton.mp hxin
      have hsort : ∀ k, (s.queue k).Pairwise (· < ·) :=
        fun k => (htidy.sorted k).sublist (h.prefix_queue k).sublist
      have hk := hs₀.mem_keys hlook₀ ((h.prefix_queue k).subset hx')
      exact hdrain.gone hsort hk hx

theorem popFirst_eq_none : popFirst w = none ↔ w = ∅ := by
  rw [popFirst, dite_eq_right_iff, ← Finset.not_nonempty_iff_eq_empty]
  simp

theorem popFirst_eq_some (h : popFirst w = some (i, w')) : i ∈ w ∧ w' = w.erase i := by
  unfold popFirst at h
  split at h
  next hne =>
    obtain ⟨rfl, rfl⟩ := Prod.mk.inj (Option.some.inj h)
    exact ⟨w.min'_mem hne, rfl⟩
  next => cases h

/-- **The loop runs until the worklist is empty** — the waiters left in the queues and the ids left
on the worklist bound the rounds. -/
theorem cascade_voidLoop (hs₀ : s₀.Indexed)
    (h : Cascade s₀ f s w voided) (hfuel : s.blockedKeys.size + w.card ≤ fuel) :
    Cascade s₀ f (voidLoop search fuel s w voided).1 ∅ (voidLoop search fuel s w voided).2 := by
  induction fuel generalizing s w voided with
  | zero =>
    obtain rfl : w = ∅ := Finset.card_eq_zero.mp (by omega)
    exact h
  | succ fuel ih =>
    unfold voidLoop
    cases hpop : popFirst w with
    | none =>
      obtain rfl := popFirst_eq_none.mp hpop
      exact h
    | some p =>
      obtain ⟨i, w'⟩ := p
      obtain ⟨hi, rfl⟩ := popFirst_eq_some hpop
      have hcard := Finset.card_erase_add_one hi
      cases hlook : s.blockedIntents.lookup i with
      | none =>
        simp only [hlook]
        exact ih (h.skip hi hlook) (by omega)
      | some info =>
        simp only [hlook]
        have hdrain := drained_drainKeys search i info.intent.getAllCommittedPubkeys h.noEmpty
          (w.erase i)
        have hmeas := hdrain.measure
        exact ih (h.void hs₀ hi hlook hdrain) (by simp only; omega)

/-! ### `failed` -/

/-- What `failed` can do. -/
inductive Failure (s : IntentScheduler) (f : OutboxIntentBundle) :
    IntentScheduler × Except IntentSchedulerError (List OutboxIntentBundle) → Prop
  | free (hkeys : f.getAllCommittedPubkeys = []) : Failure s f (s, .ok [])
  | rejected (hkeys : f.getAllCommittedPubkeys ≠ []) (hhd : ¬ s.Heads f)
      (e : IntentSchedulerError) : Failure s f (s, .error e)
  | voids (hkeys : f.getAllCommittedPubkeys ≠ []) (hhd : s.Heads f) {t : IntentScheduler}
      {voided : List OutboxIntentBundle} (h : Cascade s f t ∅ voided) :
      Failure s f (t, .ok voided)

theorem failure_failed (search : Pubkey → BinarySearch IntentID)
    (hf : f.getAllCommittedPubkeys.Nodup) (hs : s.blockedKeys.NoEmpty)
    (hind : s.Indexed) : Failure s f (s.failed search f) := by
  unfold failed
  by_cases hkeys : f.getAllCommittedPubkeys = []
  · rw [if_pos (by simp [hkeys])]
    exact .free hkeys
  rw [if_neg (by simpa using hkeys)]
  have hval := validateExecuting_eq_ok_iff (s := s) hf
  cases hv : s.validateExecuting f.intentId f.getAllCommittedPubkeys with
  | error e => exact .rejected hkeys (fun h => by simp [hval.mpr h] at hv) e
  | ok =>
    have hhd := hval.mp hv
    have hne : ∀ k ∈ f.getAllCommittedPubkeys, s.queue k ≠ [] := fun k hk hq => by
      simpa [hq] using (hhd.head_iff k).mpr hk
    obtain ⟨m, w, hseed, hm, hmq, hmw⟩ := seedWorklist_eq hf hs hne ∅
    simp only [hseed]
    have hstart := cascade_seed hhd hm hmq (by simpa using hmw)
    exact .voids hkeys hhd (cascade_voidLoop hind hstart le_rfl)

end Magicblock.IntentScheduler
