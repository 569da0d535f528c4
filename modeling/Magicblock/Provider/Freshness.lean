import Magicblock.Provider.Owners

/-!
# Provider/Freshness — how fresh a fetched account is

The start slot of an entry is that of the call that claimed it, and both the task and the listener
go by it.  So a fetch is as fresh as a call asked for if the call does not join a fetch that started
at a lower slot, and if the generations it draws are not in use any more.
-/

namespace Magicblock.Provider

open List

open Function (update update_of_ne update_self)
open Multiset (mem_add mem_coe mem_cons mem_cons_self notMem_zero)

open Fetching

variable {env : ProviderEnv} {s : Fetching} {claim : Claim} {slot : Slot} {e : FetchEvent}

/-- **A call that asks for no more than it gets**: the fetches it joins start at its slot or later,
and nobody holds the generations it may draw. -/
def FetchEvent.Timely (s : Fetching) : FetchEvent → Prop
  | .call _ pubkeys _ start =>
    (∀ k ∈ pubkeys, ∀ state, s.accounts k = some state →
      start.getD s.chainSlot ≤ state.fetchStartSlot) ∧
    ∀ k ∈ pubkeys, ∀ n < pubkeys.length, ¬ s.Held (k, s.nextGeneration + BitVec.ofNat 64 (n + 1))
  | _ => True

namespace Fetching

/-- A claim is held by a guard or a task that goes by `slot`. -/
def HeldAt (s : Fetching) (claim : Claim) (slot : Slot) : Prop :=
  (∃ id call claimed, s.calls id = some call ∧ call.phase = .setup claimed ∧ claim ∈ claimed ∧
    call.fetchStartSlot = slot) ∨
  ∃ task ∈ s.tasks, claim ∈ task.holds ∧ task.minContextSlot = slot

theorem HeldAt.held (h : s.HeldAt claim slot) : s.Held claim := by
  rcases h with ⟨id, call, claimed, hid, hph, hmem, -⟩ | ⟨task, htask, hmem, -⟩
  · exact .inl ⟨id, call, claimed, hid, hph, hmem⟩
  · exact .inr ⟨task, htask, hmem⟩

/-- What every run of timely calls keeps. -/
structure Fresh (s : Fetching) : Prop where
  entry : ∀ k state, s.accounts k = some state → ∀ w ∈ state.waiters, ∀ call,
    s.calls w.call = some call → call.fetchStartSlot ≤ state.fetchStartSlot
  owner : ∀ claim slot, s.HeldAt claim slot → ∀ state, s.accounts claim.1 = some state →
    state.generation = claim.2 → state.fetchStartSlot ≤ slot
  notifying : ∀ task ∈ s.tasks, ∀ rest, task.phase = .notifying rest → ∀ x ∈ rest,
    task.minContextSlot ≤ x.2.slot
  sent : ∀ x ∈ s.sent, ∀ account, x.result = .ok account → ∀ call,
    s.calls x.waiter.call = some call → call.fetchStartSlot ≤ account.slot

theorem fresh_new (chainSlot : Slot) : (new chainSlot).Fresh := by
  refine ⟨nofun, ?_, nofun, nofun⟩
  rintro claim slot h state ⟨⟩

end Fetching

/-! ### What a task may become -/

structure FetchTask.Follows (task task' : FetchTask) : Prop where
  holds : task'.holds ⊆ task.holds
  minContextSlot : task'.minContextSlot = task.minContextSlot
  notifying : ∀ rest, task'.phase = .notifying rest → (∀ x ∈ rest, task.minContextSlot ≤ x.2.slot) ∨
    ∃ rest', task.phase = .notifying rest' ∧ rest ⊆ rest'

theorem FetchTask.Follows.refl (task : FetchTask) : task.Follows task :=
  ⟨List.Subset.refl _, rfl, fun rest hrest => .inr ⟨rest, hrest, List.Subset.refl _⟩⟩

theorem FetchTask.slot_remoteAccount : (remoteAccount env task slot pubkey value).slot = slot := by
  rcases value with _ | value
  · rw [remoteAccount]
    split_ifs
    · exact env.builder.slot_missing slot
    · rfl
  · exact env.builder.slot_build value slot

/-- An answer is from the slot that was asked for, or a later one. -/
theorem FetchTask.follows_answer {task : FetchTask} (h : task.phase = .calling)
    (answer : FetchAnswer) : task.Follows (task.answer env answer) := by
  refine ⟨fun claim hclaim => by rwa [holds_answer h] at hclaim, ?_, ?_⟩
  · rcases answer with _ | kind | ⟨slot, value⟩ <;> simp only [FetchTask.answer, retry] <;>
      split_ifs <;> rfl
  · rcases answer with _ | kind | ⟨slot, value⟩ <;> simp only [FetchTask.answer, retry]
    · rintro _ ⟨⟩
    · split_ifs <;> rintro _ ⟨⟩
    · split_ifs with hslot hlen
      · rintro _ ⟨⟩
      · rintro _ ⟨⟩
      · rintro _ ⟨⟩
        refine .inl fun x hx => ?_
        obtain ⟨y, -, rfl⟩ := mem_map.mp hx
        rw [slot_remoteAccount]
        exact not_lt.mp hslot

theorem TaskStep.tasks_cases {task : FetchTask} (h : TaskStep env s rest task t) :
    ∀ task' ∈ t.tasks, task' ∈ rest ∨ task.Follows task' := by
  intro task' htask'
  cases h with
  | loop h =>
    rcases mem_add.mp htask' with hmem | hmem
    · right
      rcases task.loop_cases env s.accounts with ⟨hnone, -⟩ | ⟨task'', hsome, hholds, hslot, hph⟩
      · simp [hnone] at hmem
      · obtain rfl : task' = task'' := by simpa [hsome] using hmem
        refine ⟨?_, hslot, fun rest hrest => absurd hrest (hph rest)⟩
        rw [hholds, FetchTask.holds, h]
        exact filter_subset_self _
    · exact .inl hmem
  | answer h answer =>
    rcases mem_cons.mp htask' with rfl | hmem
    · exact .inr (FetchTask.follows_answer h answer)
    · exact .inl hmem
  | fail | done => exact .inl htask'
  | notify h =>
    rcases mem_cons.mp htask' with rfl | hmem
    · refine .inr ⟨?_, rfl, ?_⟩
      · simp [FetchTask.holds, h]
      · rintro _ ⟨⟩
        exact .inr ⟨_, h, subset_cons_self _ _⟩
    · exact .inl hmem

/-! ### Steps that are not calls -/

section

variable (h : FetchStep env s e t) (hcall : ∀ id pks marked slot, e ≠ .call id pks marked slot)

include h hcall

/-- A call keeps its start slot. -/
theorem FetchStep.startSlot {id : ℕ} {call : FetchCall} (hid : t.calls id = some call) :
    ∃ call', s.calls id = some call' ∧ call'.fetchStartSlot = call.fetchStartSlot ∧
      ∀ claimed, call.phase = .setup claimed → call'.phase = .setup claimed := by
  rcases h.calls_cases hcall with hcs | ⟨id', call', phase, hid', hcs, hreach⟩
  · exact ⟨call, hcs ▸ hid, rfl, fun _ hph => hph⟩
  · rw [hcs] at hid
    by_cases hsame : id = id'
    · subst hsame
      rw [update_self] at hid
      cases hid
      refine ⟨call', hid', rfl, fun claimed hph => ?_⟩
      obtain rfl : phase = _ := hph
      exact hreach.elim
    · rw [update_of_ne hsame] at hid
      exact ⟨call, hid, rfl, fun _ hph => hph⟩

theorem FetchStep.tasks_cases :
    ∀ task' ∈ t.tasks, (∃ task ∈ s.tasks, task.Follows task') ∨
      ∃ id call claimed chunk, s.calls id = some call ∧ call.phase = .setup claimed ∧
        chunk ⊆ claimed ∧ task' = fetchTask call chunk := by
  intro task' htask'
  have hsame : task' ∈ s.tasks → ∃ task ∈ s.tasks, task.Follows task' := fun hmem =>
    ⟨task', hmem, .refl task'⟩
  cases h with
  | call hid => exact absurd rfl (hcall _ _ _ _)
  | @subscribed id call claimed hid hph =>
    rcases mem_add.mp htask' with hmem | hmem
    · obtain ⟨chunk, hchk, rfl⟩ := mem_map.mp (mem_coe.mp hmem)
      exact .inr ⟨id, call, claimed, chunk, hid, hph,
        fun claim hclaim => mem_balancedChunks.mp ⟨chunk, hchk, hclaim⟩, rfl⟩
    · exact .inl (hsame hmem)
  | @subscribeFailed id call claimed errors hid hph =>
    rw [tasks_subscribeFailed] at htask'
    exact .inl (hsame htask')
  | cancel hid hph =>
    rw [tasks_cancel] at htask'
    exact .inl (hsame htask')
  | finish | chainSlot => exact .inl (hsame htask')
  | @task t task rest htask h =>
    rcases h.tasks_cases task' htask' with hmem | hfollow
    · exact .inl (hsame (htask ▸ Multiset.mem_cons_of_mem hmem))
    · exact .inl ⟨task, htask ▸ mem_cons_self _ _, hfollow⟩
  | update update =>
    rw [tasks_listen] at htask'
    exact .inl (hsame htask')

theorem FetchStep.heldAt (ht : t.HeldAt claim slot) :
    s.HeldAt claim slot := by
  rcases ht with ⟨id, call, claimed, hid, hph, hmem, rfl⟩ | ⟨task, htask, hmem, rfl⟩
  · obtain ⟨call', hid', hslot, hph'⟩ := h.startSlot hcall hid
    exact .inl ⟨id, call', claimed, hid', hph' claimed hph, hmem, hslot⟩
  · rcases h.tasks_cases hcall task htask with
      ⟨task', htask', hfollow⟩ | ⟨id, call, claimed, chunk, hid, hph, hchk, rfl⟩
    · exact .inr ⟨task', htask', hfollow.holds hmem, hfollow.minContextSlot.symm⟩
    · exact .inl ⟨id, call, claimed, hid, hph, hchk hmem, rfl⟩

theorem FetchStep.fresh_sent (hs : s.Fresh) :
    ∀ x ∈ t.sent, ∀ acc, x.result = .ok acc → ∀ call, t.calls x.waiter.call = some call →
      call.fetchStartSlot ≤ acc.slot := by
  obtain ⟨result, hresol, hanswers⟩ := h.takes hcall
  intro x hx acc hacc call hid
  obtain ⟨call', hid', hslot, -⟩ := h.startSlot hcall hid
  rw [← hslot]
  rcases hresol.sent x hx with hx | ⟨state, hst, hw, hmem, hres⟩
  · exact hs.sent x hx acc hacc call' hid'
  · refine (hs.entry x.pubkey state hst x.waiter hw call' hid').trans ?_
    have hans := hanswers _ hmem acc (hres.symm.trans hacc)
    cases e with
    | task task =>
      obtain ⟨rest, hph⟩ := hans
      cases h with
      | task hts h =>
        have htask : task ∈ s.tasks := hts ▸ mem_cons_self _ _
        have hheld : s.HeldAt (x.pubkey, state.generation) task.minContextSlot :=
          .inr ⟨task, htask, by simp [FetchTask.holds, hph], rfl⟩
        exact (hs.owner _ _ hheld state hst rfl).trans
          (hs.notifying task htask _ hph _ mem_cons_self)
    | update update =>
      obtain ⟨state', hst', hfr⟩ := hans
      cases hst.symm.trans hst'
      exact hfr
    | _ => exact hans.elim

theorem FetchStep.fresh (hs : s.Fresh) : t.Fresh := by
  obtain ⟨result, hresol, -⟩ := h.takes hcall
  refine ⟨fun k state hst w hw call hid => ?_, fun claim slot hheld state hst => ?_,
    fun task htask rest hph x hx => ?_, h.fresh_sent hcall hs⟩
  · obtain ⟨call', hid', hslot, -⟩ := h.startSlot hcall hid
    rw [← hslot]
    exact hs.entry k state (hresol.entry hst) w hw call' hid'
  · exact hs.owner claim slot (h.heldAt hcall hheld) state (hresol.entry hst)
  · rcases h.tasks_cases hcall task htask with ⟨task', htask', hfollow⟩ | ⟨_, _, _, _, -, -, -, rfl⟩
    · rw [hfollow.minContextSlot]
      rcases hfollow.notifying rest hph with hslots | ⟨rest', hph', hsub⟩
      · exact hslots x hx
      · exact hs.notifying task' htask' rest' hph' x (hsub hx)
    · exact nomatch hph

end

/-! ### Calls -/

/-- The waiters of an entry after a call are those from before, or of the call. -/
theorem Fetching.Joined.call_eq {id : ℕ} (h : Joined id start requests claimed s t)
    (hst : t.accounts k = some state) {w : Waiter}
    (hw : w ∈ state.waiters) :
    (∃ state', s.accounts k = some state' ∧ w ∈ state'.waiters) ∨
      w.call = id ∧ (k, w.index) ∈ requests := by
  have hreg := h.registered w k
  rw [Fetching.registered, hst, Option.elim_some] at hreg
  have hpos := count_pos_iff.mpr hw
  by_cases hcnt : s.registered w k = 0
  · right
    rw [hreg, hcnt, zero_add] at hpos
    split_ifs at hpos with hid
    · exact ⟨hid, count_pos_iff.mp hpos⟩
    · exact absurd hpos (Nat.lt_irrefl 0)
  · left
    rcases hst' : s.accounts k with _ | state'
    · exact absurd (by rw [Fetching.registered, hst', Option.elim_none]) hcnt
    · rw [Fetching.registered, hst', Option.elim_some] at hcnt
      exact ⟨state', rfl, count_pos_iff.mp (Nat.pos_of_ne_zero hcnt)⟩

theorem fresh_tryGetMulti {id : ℕ}
    (hid : s.calls id = none) (htim : (FetchEvent.call id pks marked start).Timely s)
    (hsound : s.Sound) (hs : s.Fresh) : (s.tryGetMulti id pks marked start).Fresh := by
  obtain ⟨u, claimed, hjoin, ht⟩ := s.tryGetMulti_cases id pks marked start
  rw [ht]
  obtain ⟨hjoins, hdraws⟩ := htim
  have hoth : ∀ {id' call}, id' ≠ id → update s.calls id
      (some ⟨pks, marked, start.getD s.chainSlot, firstPhase pks claimed⟩) id' = some call →
      s.calls id' = some call := fun hne h => (update_of_ne hne _ _).symm.trans h
  refine ⟨fun k state hst w hw call hcall => ?_, fun claim slot hheld state hst hgen => ?_,
    fun task htask => hs.notifying task (hjoin.tasks ▸ htask), fun x hx acc hacc call hcall => ?_⟩
  · rcases hjoin.call_eq hst hw with ⟨state', hst', hw'⟩ | ⟨rfl, hmem⟩
    · obtain ⟨state'', hst'', -, hslot, -⟩ := hjoin.kept k state' hst'
      cases hst.symm.trans hst''
      have hne : w.call ≠ id := by
        intro hsame
        have hreq := (hsound.requested hst' hw').1
        rw [Fetching.requested, hsame, hid] at hreq
        cases hreq
      rw [hslot]
      exact hs.entry k state' hst' w hw' call (hoth hne hcall)
    · cases (update_self w.call _ s.calls).symm.trans hcall
      rcases hent : s.accounts k with _ | state'
      · exact (hjoin.created k state hst hent).2.ge
      · obtain ⟨state'', hst'', -, hslot, -⟩ := hjoin.kept k state' hent
        cases hst.symm.trans hst''
        rw [hslot]
        exact hjoins k (mem_of_getElem? (mem_zipIdx_iff_getElem?.mp hmem)) state' hent
  · -- an owner from before: its entry is the one it had, since its generation is not drawn again
    have hold : s.HeldAt claim slot → state.fetchStartSlot ≤ slot := by
      intro hheld
      rcases hent : s.accounts claim.1 with _ | state'
      · have hclaimed := (hjoin.created claim.1 state hst hent).1
        obtain ⟨-, hmem, n, hn, hdrawn⟩ := hjoin.fresh _ hclaimed
        rw [zipIdx_map_fst] at hmem
        have hlen : claimed.length ≤ pks.length := by simpa using hjoin.length_le
        have hclaim : claim = (claim.1, s.nextGeneration + BitVec.ofNat 64 (n + 1)) :=
          Prod.ext rfl (hgen.symm.trans hdrawn)
        rw [hclaim] at hheld
        exact absurd hheld.held (hdraws claim.1 hmem n (hn.trans_le hlen))
      · obtain ⟨state'', hst'', hgen', hslot, -⟩ := hjoin.kept claim.1 state' hent
        cases hst.symm.trans hst''
        rw [hslot]
        exact hs.owner claim slot hheld state' hent (hgen'.symm.trans hgen)
    rcases hheld with ⟨id', call, claimed', hcall, hph, hmem, hslot⟩ | ⟨task, htask, hmem, hslot⟩
    · by_cases hsame : id' = id
      · subst hsame
        cases (update_self id' _ s.calls).symm.trans hcall
        obtain rfl := of_firstPhase_setup hph
        obtain ⟨hnone, -⟩ := hjoin.fresh claim hmem
        rw [← hslot]
        exact (hjoin.created claim.1 state hst hnone).2.le
      · exact hold (.inl ⟨id', call, claimed', hoth hsame hcall, hph, hmem, hslot⟩)
    · exact hold (.inr ⟨task, hjoin.tasks ▸ htask, hmem, hslot⟩)
  · have hx : x ∈ s.sent := hjoin.sent ▸ hx
    have hne : x.waiter.call ≠ id := by
      intro hsame
      have hreq := (hsound.mem_sent hx).1
      rw [Fetching.requested, hsame, hid] at hreq
      cases hreq
    exact hs.sent x hx acc hacc call (hoth hne hcall)

theorem fresh_of_run (h : ((fetchMachine env).guarded fun s e => e.Timely s).Run es s) :
    s.Fresh := by
  refine h.invariant ?_ ?_
  · rintro _ ⟨chainSlot, rfl⟩
    exact fresh_new chainSlot
  · rintro _ s e t hrun hs ⟨htim, hstep⟩
    by_cases hcall : ∀ id pks marked slot, e ≠ .call id pks marked slot
    · exact FetchStep.fresh hstep hcall hs
    · simp only [ne_eq, not_forall, not_not] at hcall
      obtain ⟨id, pks, marked, slot, rfl⟩ := hcall
      cases hstep with
      | call hid => exact fresh_tryGetMulti hid htim (sound_of_run hrun.of_guarded) hs

/-- **A fetch is as fresh as its caller asked**, if all calls are timely. -/
theorem fetch_as_fresh_as_asked {es : List FetchEvent}
    (h : ((fetchMachine env).guarded fun s e => e.Timely s).Run es s) :
    ∀ id call accs, s.calls id = some call → call.phase = .returned (.ok accs) →
      ∀ acc ∈ accs, call.fetchStartSlot ≤ acc.slot := by
  intro id call accs hid hph acc hmem
  obtain ⟨i, hacc⟩ := List.mem_iff_getElem?.mp hmem
  obtain ⟨k, hsent⟩ := ((sound_of_run h.of_guarded).returned id call accs hid hph).2 i acc hacc
  exact (fresh_of_run h).sent _ hsent acc rfl call hid

open FetchExample in
theorem fetch_as_fresh_as_asked_joined :
    ∃ es s call, ((fetchMachine exampleEnv).guarded fun s e => e.Timely s).Run es s ∧
      s.calls 1 = some call ∧ call.phase = .returned (.ok [between]) ∧
      call.fetchStartSlot ≤ between.slot := by
  have hoth : ∀ (s : Fetching) (e : FetchEvent),
      (∀ id pks marked slot, e ≠ .call id pks marked slot) → e.Timely s := by
    intro s e hcall
    cases e with
    | call id pks marked slot => exact absurd rfl (hcall _ _ _ _)
    | _ => trivial
  have hfst : (FetchEvent.call 0 [7] [] (some 5)).Timely (.new 0) := by
    refine ⟨nofun, fun _ _ _ _ hheld => ?_⟩
    rcases hheld with ⟨_, _, _, hnone, -⟩ | ⟨_, hnone, -⟩
    · exact nomatch hnone
    · exact absurd hnone (notMem_zero _)
  have hsnd : (FetchEvent.call 1 [7] [] (some 3)).Timely
      ((Fetching.new 0).tryGetMulti 0 [7] [] (some 5)) := by
    refine ⟨fun k hk state hst => ?_, fun k hk n hn hheld => ?_⟩
    · obtain rfl := List.mem_singleton.mp hk
      cases hst
      decide
    · obtain rfl : n = 0 := Nat.lt_one_iff.mp hn
      rcases hheld with ⟨id, call, claimed, hid, hph, hmem⟩ | ⟨_, hnone, -⟩
      · by_cases hsame : id = 0
        · subst hsame
          cases hid
          obtain rfl := CallPhase.setup.inj hph
          exact absurd (Prod.mk.inj (List.mem_singleton.mp hmem)).2 (by decide)
        · exact nomatch (update_of_ne hsame _ _).symm.trans hid
      · exact absurd hnone (notMem_zero _)
  obtain ⟨es, s, call, hrun, hid, -, hph⟩ := run_bothAnswered hoth hfst hsnd
  exact ⟨es, s, call, hrun, hid, hph,
    fetch_as_fresh_as_asked hrun 1 call _ hid hph between (List.mem_singleton_self _)⟩

open FetchExample in
/-- The second call asked for slot 10, and joined a fetch that was answered at slot 7. -/
theorem fetch_joined_too_early :
    ∃ es s call, (fetchMachine exampleEnv).Run es s ∧ s.calls 1 = some call ∧
      call.phase = .returned (.ok [between]) ∧ between.slot < call.fetchStartSlot := by
  obtain ⟨es, s, call, hrun, hid, hslot, hph⟩ :=
    @run_bothAnswered 10 (fun _ _ => True) (fun _ _ _ => trivial) trivial trivial
  exact ⟨es, s, call, hrun.of_guarded, hid, hph, hslot ▸ by decide⟩

end Magicblock.Provider
