import Magicblock.Provider.Entries

/-!
# Provider/Owners — every fetch has an owner, and every waiter one answer

Along every run each entry of `fetching_accounts` is claimed, under its generation, by an armed
guard or a running task, and each waiter of a call is registered or has been answered, once.
-/

namespace Magicblock.Provider

open Fetching List

variable {env : ProviderEnv} {s t : Fetching} {claim : Claim} {e : FetchEvent}

namespace Fetching

/-- A guard that is armed, or a task, has the claim. -/
def Held (s : Fetching) (claim : Claim) : Prop :=
  (∃ id call claimed, s.calls id = some call ∧ call.phase = .setup claimed ∧ claim ∈ claimed) ∨
    ∃ task ∈ s.tasks, claim ∈ task.holds

/-- What every run keeps. -/
structure Sound (s : Fetching) : Prop where
  held : ∀ k state, s.accounts k = some state → s.Held (k, state.generation)
  balance : ∀ w k, s.registered w k + s.answered w k = if s.requested w = some k then 1 else 0
  returned : ∀ id call accounts, s.calls id = some call → call.phase = .returned (.ok accounts) →
    accounts.length = call.pubkeys.length ∧
    ∀ i account, accounts[i]? = some account → ∃ k, ⟨⟨id, i⟩, k, .ok account⟩ ∈ s.sent

theorem sound_new (chainSlot : Slot) : (new chainSlot).Sound :=
  ⟨nofun, fun _ _ => rfl, nofun⟩

/-! ### Owners -/

/-- Tasks that hold the same claims. -/
theorem Held.of_tasks {tasks rest : Multiset FetchTask} (hs : s.Held claim)
    (htask : s.tasks = task ::ₘ rest) (hcs : t.calls = s.calls) (hts : t.tasks = tasks + rest)
    (hholds : claim ∈ task.holds → ∃ task' ∈ tasks, claim ∈ task'.holds) : t.Held claim := by
  rcases hs with ⟨id, call, claimed, hid, hph, hmem⟩ | ⟨task', htask', hmem⟩
  · exact .inl ⟨id, call, claimed, hcs ▸ hid, hph, hmem⟩
  · rw [htask, Multiset.mem_cons] at htask'
    refine .inr ?_
    rw [hts]
    rcases htask' with rfl | htask'
    · obtain ⟨task', htask', hmem'⟩ := hholds hmem
      exact ⟨task', Multiset.mem_add.mpr (.inl htask'), hmem'⟩
    · exact ⟨task', Multiset.mem_add.mpr (.inr htask'), hmem⟩

/-- A call changes its phase. -/
theorem Held.of_calls {id : ℕ} {tasks : Multiset FetchTask}
    (hs : s.Held claim) (hid : s.calls id = some call)
    (hcs : t.calls = Function.update s.calls id (some { call with phase := phase }))
    (hts : t.tasks = tasks + s.tasks)
    (hguard : ∀ claimed, call.phase = .setup claimed → claim ∈ claimed →
      ∃ task ∈ tasks, claim ∈ task.holds) : t.Held claim := by
  rcases hs with ⟨id', call', claimed, hid', hph, hmem⟩ | ⟨task, htask, hmem⟩
  · by_cases hsame : id' = id
    · subst hsame
      cases hid.symm.trans hid'
      obtain ⟨task, htask, hmem'⟩ := hguard claimed hph hmem
      exact .inr ⟨task, hts ▸ Multiset.mem_add.mpr (.inl htask), hmem'⟩
    · refine .inl ⟨id', call', claimed, ?_, hph, hmem⟩
      rw [hcs, Function.update_of_ne hsame, hid']
  · exact .inr ⟨task, hts ▸ Multiset.mem_add.mpr (.inr htask), hmem⟩

end Fetching

/-- The chunks have all keys. -/
theorem mem_balancedChunks {keys : List α} :
    (∃ chunk ∈ balancedChunks keys, key ∈ chunk) ↔ key ∈ keys := by
  have hflat : (balancedChunks keys).flatten = keys := by
    rw [balancedChunks]
    split_ifs
    · exact flatten_singleton
    · exact flatten_toChunks _ _
  rw [← mem_flatten, hflat]

namespace FetchTask

variable {task : FetchTask}

theorem holds_answer (h : task.phase = .calling) (answer : FetchAnswer) :
    (task.answer env answer).holds = task.holds := by
  cases answer with
  | timeout => simp [FetchTask.answer, retry, holds, h]
  | error kind =>
    by_cases hlagg : kind.isLagging <;> simp [FetchTask.answer, hlagg, retry, holds, h]
  | response slot value =>
    by_cases hslot : slot < task.minContextSlot
    · simp [FetchTask.answer, hslot, retry, holds, h]
    · by_cases hlen : value.length = task.claims.length
      · simp [FetchTask.answer, hslot, hlen, holds, h, map_map, Function.comp_def, map_fst_zip]
      · simp [FetchTask.answer, hslot, hlen, holds, h]

theorem loop_cases (env : ProviderEnv) (accs : FetchingAccounts) (task : FetchTask) :
    (task.loop env accs = none ∧ task.retained accs = []) ∨
    ∃ task', task.loop env accs = some task' ∧ task'.holds = task.retained accs ∧
      task'.minContextSlot = task.minContextSlot ∧ ∀ rest, task'.phase ≠ .notifying rest := by
  rw [loop]
  rcases hret : task.retained accs with _ | ⟨claim, claims⟩
  · exact .inl ⟨rfl, rfl⟩
  · by_cases hretries : task.remainingRetries = 0
    · exact .inr ⟨_, if_pos hretries, rfl, rfl, nofun⟩
    · exact .inr ⟨_, if_neg hretries, rfl, rfl, nofun⟩

/-- A claim stays with the task as long as its entry is there. -/
theorem mem_holds_loop (h : task.phase = .looping)
    (hst : s.accounts k = some state) (hmem : (k, state.generation) ∈ task.holds) :
    ∃ task' ∈ ((task.loop env s.accounts).toList : Multiset FetchTask),
      (k, state.generation) ∈ task'.holds := by
  rw [holds, h] at hmem
  have hret : (k, state.generation) ∈ task.retained s.accounts :=
    mem_filter.mpr ⟨hmem, by simp [hst]⟩
  rcases task.loop_cases env s.accounts with ⟨-, hnil⟩ | ⟨task', hloop, hholds, -⟩
  · exact absurd (hnil ▸ hret) not_mem_nil
  · exact ⟨task', by simp [hloop], hholds ▸ hret⟩

end FetchTask

/-! ### One step -/

theorem TaskStep.held {rest : Multiset FetchTask} (h : TaskStep env s rest task t)
    (htask : s.tasks = task ::ₘ rest)
    (hst : t.accounts k = some state)
    (hs : s.accounts k = some state → s.Held (k, state.generation))
    (hresol : ∃ res, Resolved ((FetchEvent.task task).takes env s) res s t) :
    t.Held (k, state.generation) := by
  obtain ⟨res, hresol⟩ := hresol
  have hheld := hs (hresol.entry hst)
  have hgone := hresol.gone k state hst
  obtain ⟨claims, marked, slot, retries, phase⟩ := task
  cases h with
  | loop h =>
    exact hheld.of_tasks htask rfl rfl (FetchTask.mem_holds_loop h (hresol.entry hst))
  | answer h answer =>
    refine hheld.of_tasks htask rfl (Multiset.singleton_add _ _).symm fun hmem => ?_
    exact ⟨_, Multiset.mem_singleton_self _, by rwa [FetchTask.holds_answer h]⟩
  | fail h =>
    obtain rfl : phase = _ := h
    exact hheld.of_tasks htask (calls_resolveAll _ _)
      (zero_add _).symm fun hmem => absurd hmem hgone
  | notify h =>
    obtain rfl : phase = _ := h
    refine hheld.of_tasks htask rfl (Multiset.singleton_add _ _).symm fun hmem => ?_
    refine ⟨_, Multiset.mem_singleton_self _, ?_⟩
    exact (mem_cons.mp hmem).resolve_left fun hclaim => hgone (mem_singleton.mpr hclaim)
  | done h =>
    obtain rfl : phase = _ := h
    exact hheld.of_tasks htask rfl (zero_add _).symm fun hmem => absurd hmem not_mem_nil

namespace Fetching

theorem calls_subscribeFailed {id : ℕ} :
    (s.subscribeFailed id call claimed errors).calls = Function.update s.calls id
      (some { call with
        phase := .returned (.error (.accountSubscriptionsTaskFailed (setupError errors))) }) := by
  rw [subscribeFailed, setPhase, cleanupWithError, calls_resolveAll]

theorem tasks_subscribeFailed {id : ℕ} :
    (s.subscribeFailed id call claimed errors).tasks = s.tasks :=
  tasks_resolveAll _ _

theorem calls_cancel (s : Fetching) (id : ℕ) (call : FetchCall) :
    (s.cancel id call).calls =
      Function.update s.calls id (some { call with phase := .cancelled }) := by
  rw [Fetching.cancel]
  split
  · rw [setPhase, cleanupWithError, calls_resolveAll]
  · rfl

theorem tasks_cancel (s : Fetching) (id : ℕ) (call : FetchCall) : (s.cancel id call).tasks =
    s.tasks := by
  rw [Fetching.cancel]
  split
  · exact tasks_resolveAll _ _
  · rfl

theorem calls_listen : (s.listen env update).calls = s.calls := by
  rw [listen]
  split_ifs
  · rfl
  · split
    · split_ifs <;> rfl
    · rfl

theorem tasks_listen : (s.listen env update).tasks = s.tasks := by
  rw [listen]
  split_ifs
  · rfl
  · split
    · split_ifs <;> rfl
    · rfl

end Fetching

/-- A phase that a step brings a call to, after it was set up. -/
def CallPhase.Reached (env : ProviderEnv) (s : Fetching) (id : ℕ) (call : FetchCall) :
    CallPhase → Prop
  | .setup _ => False
  | .returned (.ok accounts) => collect env call.pubkeys (s.results id call.pubkeys) = .ok accounts
  | _ => True

/-- **What a step that is not a call does to calls.** -/
theorem FetchStep.calls_cases (h : FetchStep env s e t)
    (hcall : ∀ id pks marked slot, e ≠ .call id pks marked slot) :
    t.calls = s.calls ∨ ∃ id call phase, s.calls id = some call ∧
      t.calls = Function.update s.calls id (some { call with phase := phase }) ∧
      phase.Reached env s id call := by
  cases h with
  | call hid => exact absurd rfl (hcall _ _ _ _)
  | subscribed hid hph => exact .inr ⟨_, _, .awaiting, hid, rfl, trivial⟩
  | @subscribeFailed id call claimed errors hid hph =>
    exact .inr ⟨id, call, _, hid, calls_subscribeFailed, trivial⟩
  | @cancel id call hid hph =>
    exact .inr ⟨id, call, _, hid, calls_cancel s id call, trivial⟩
  | @finish id call hid hph hsett =>
    refine .inr ⟨id, call, _, hid, rfl, ?_⟩
    rcases hcoll : collect env call.pubkeys (s.results id call.pubkeys) with err | accs
    · trivial
    · exact hcoll
  | task htask h =>
    left
    cases h with
    | fail h => exact calls_resolveAll _ _
    | _ => rfl
  | update update => exact .inl (calls_listen)
  | chainSlot h => exact .inl rfl

/-- Only its own call says what a waiter is for. -/
theorem requested_of_calls {id : ℕ} (hcs : t.calls = Function.update s.calls id (some call)) :
    t.requested w = if w.call = id then call.pubkeys[w.index]? else s.requested w := by
  rw [Fetching.requested, hcs]
  split_ifs with hw
  · rw [hw, Function.update_self, Option.bind_some]
  · rw [Function.update_of_ne hw, Fetching.requested]

section

variable (h : FetchStep env s e t) (hcall : ∀ id pks marked slot, e ≠ .call id pks marked slot)

include h hcall

theorem FetchStep.requested (w : Waiter) : t.requested w = s.requested w := by
  rcases h.calls_cases hcall with hcs | ⟨id, call, phase, hid, hcs, -⟩
  · rw [Fetching.requested, hcs]
    rfl
  · rw [requested_of_calls hcs]
    split_ifs with hw
    · rw [Fetching.requested, hw, hid, Option.bind_some]
    · rfl

/-- The owner of an entry that a step leaves there. -/
theorem FetchStep.held (hs : s.Sound) {k : Pubkey} (hst : t.accounts k = some state) :
    t.Held (k, state.generation) := by
  obtain ⟨res, hresol, -⟩ := h.takes hcall
  have hheld := hs.held k state (hresol.entry hst)
  have hgone := hresol.gone k state hst
  cases h with
  | call hid => exact absurd rfl (hcall _ _ _ _)
  | @subscribed id call claimed hid hph =>
    refine hheld.of_calls hid rfl rfl fun claimed' hph' hmem => ?_
    obtain rfl := CallPhase.setup.inj (hph.symm.trans hph')
    obtain ⟨chunk, hchk, hmem'⟩ := mem_balancedChunks.mpr hmem
    exact ⟨fetchTask call chunk, Multiset.mem_coe.mpr (mem_map_of_mem hchk), hmem'⟩
  | @subscribeFailed id call claimed errors hid hph =>
    refine hheld.of_calls hid calls_subscribeFailed (tasks_subscribeFailed.trans (zero_add _).symm)
      fun claimed' hph' hmem => ?_
    rw [FetchEvent.takes, guardClaims_of_setup hid hph'] at hgone
    exact absurd hmem hgone
  | @cancel id call hid hph =>
    refine hheld.of_calls hid (calls_cancel s id call)
      ((tasks_cancel s id call).trans (zero_add _).symm) fun claimed' hph' hmem => ?_
    rw [FetchEvent.takes, guardClaims_of_setup hid hph'] at hgone
    exact absurd hmem hgone
  | finish hid hph hsett =>
    refine hheld.of_calls hid rfl (zero_add _).symm fun claimed hph' => ?_
    cases hph.symm.trans hph'
  | task htask h => exact h.held htask hst (hs.held k state) ⟨res, hresol⟩
  | update update =>
    rwa [Fetching.Held, calls_listen, tasks_listen]
  | chainSlot h => exact hheld

end

/-! ### Results -/

/-- Without errors every result is an account. -/
theorem map_snd_of_no_errors (results : List (Pubkey × FetchResult))
    (h : (results.filterMap fun (pubkey, res) =>
      match res with
      | .ok _ => none
      | .error err => some s!"{env.text pubkey}: {env.debug err}") = []) :
    results.map Prod.snd = (results.filterMap fun (_, res) => res.toOption).map .ok := by
  induction results with
  | nil => rfl
  | cons x results ih =>
    obtain ⟨k, err | acc⟩ := x
    · simp at h
    · simp only [filterMap_cons] at h
      simp [Except.toOption, ih h]

/-- **A call that succeeds returns what its receivers got**, in the order of its request. -/
theorem of_collect_ok {id : ℕ} {accs : List RemoteAccount}
    (h : collect env pks (s.results id pks) = .ok accs) :
    accs.length = pks.length ∧
      ∀ i acc, accs[i]? = some acc → ∃ k, ⟨⟨id, i⟩, k, .ok acc⟩ ∈ s.sent := by
  simp only [collect] at h
  split_ifs at h with herrs hlen
  cases h
  refine ⟨not_not.mp hlen, fun i acc hacc => ?_⟩
  have hres : ((s.results id pks).map Prod.snd)[i]? = some (.ok acc) := by
    rw [map_snd_of_no_errors _ (isEmpty_iff.mp herrs), getElem?_map, hacc]
    rfl
  simp only [results, getElem?_map, getElem?_zipIdx, Option.map_map, Option.map_eq_some_iff,
    Function.comp_def, zero_add] at hres
  obtain ⟨k, -, hrcv⟩ := hres
  rcases hx : s.sent.find? (·.waiter = ⟨id, i⟩) with _ | x
  · simp [received, hx] at hrcv
  · have hmem : x ∈ s.sent := mem_of_find?_eq_some hx
    have hwait : x.waiter = ⟨id, i⟩ := by simpa using find?_some hx
    have hres : x.result = .ok acc := by simpa [received, hx] using hrcv
    exact ⟨x.pubkey, by rwa [← hwait, ← hres]⟩

theorem FetchStep.returned (h : FetchStep env s e t)
    (hcall : ∀ id pks marked slot, e ≠ .call id pks marked slot) (hs : s.Sound) :
    ∀ id call accs, t.calls id = some call → call.phase = .returned (.ok accs) →
      accs.length = call.pubkeys.length ∧
      ∀ i acc, accs[i]? = some acc → ∃ k, ⟨⟨id, i⟩, k, .ok acc⟩ ∈ t.sent := by
  obtain ⟨res, hresol, -⟩ := h.takes hcall
  intro id call accs hid hph
  -- answers are not taken back
  have hmono : (accs.length = call.pubkeys.length ∧
      ∀ i acc, accs[i]? = some acc → ∃ k, ⟨⟨id, i⟩, k, .ok acc⟩ ∈ s.sent) →
      accs.length = call.pubkeys.length ∧
      ∀ i acc, accs[i]? = some acc → ∃ k, ⟨⟨id, i⟩, k, .ok acc⟩ ∈ t.sent :=
    And.imp_right fun hsent i acc hacc =>
      (hsent i acc hacc).imp fun _ hk => hresol.mono.subset hk
  rcases h.calls_cases hcall with hcs | ⟨id', call', phase, hid', hcs, hreach⟩
  · exact hmono (hs.returned id call accs (hcs ▸ hid) hph)
  · by_cases hsame : id = id'
    · subst hsame
      rw [hcs, Function.update_self] at hid
      cases hid
      obtain rfl : phase = _ := hph
      exact hmono (of_collect_ok hreach)
    · rw [hcs, Function.update_of_ne hsame] at hid
      exact hmono (hs.returned id call accs hid hph)

/-- A waiter of a request is counted once. -/
theorem count_zipIdx (pks : List Pubkey) :
    pks.zipIdx.count (k, index) = if pks[index]? = some k then 1 else 0 := by
  have hnd : pks.zipIdx.Nodup := by
    refine .of_map Prod.snd ?_
    rw [zipIdx_map_snd]
    exact nodup_range'
  rw [hnd.count]
  simp [mem_zipIdx_iff_getElem?]

/-- A call registers its waiters. -/
theorem sound_tryGetMulti {id : ℕ}
    (hid : s.calls id = none) (hs : s.Sound) : (s.tryGetMulti id pks marked slot).Sound := by
  obtain ⟨u, claimed, hjoin, ht⟩ := s.tryGetMulti_cases id pks marked slot
  rw [ht]
  refine ⟨fun k state hst => ?_, fun w k => ?_, fun id' call accs hid' hph => ?_⟩
  · rcases hent : s.accounts k with _ | state'
    · obtain ⟨hmem, -⟩ := hjoin.created k state hst hent
      exact .inl ⟨id, _, claimed, Function.update_self .., hjoin.firstPhase (ne_nil_of_mem hmem),
        hmem⟩
    · obtain ⟨state'', hst'', hgen, -⟩ := hjoin.kept k state' hent
      cases hst.symm.trans hst''
      rw [hgen]
      rcases hs.held k state' hent with ⟨id', call, claimed', hid', hph, hmem⟩ | ⟨task, htask, hmem⟩
      · have hne : id' ≠ id := by
          rintro rfl
          exact nomatch hid.symm.trans hid'
        exact .inl ⟨id', call, claimed', (Function.update_of_ne hne _ _).trans hid', hph, hmem⟩
      · exact .inr ⟨task, hjoin.tasks ▸ htask, hmem⟩
  · have hans : u.answered w k = s.answered w k := congrArg (countP _) hjoin.sent
    have hreg := hjoin.registered w k
    rw [count_zipIdx] at hreg
    have hbal := hs.balance w k
    change u.registered w k + u.answered w k = _
    rw [requested_of_calls rfl, hreg, hans, add_right_comm, hbal]
    by_cases hw : w.call = id
    · rw [if_pos hw, if_pos hw, Fetching.requested, hw, hid]
      exact zero_add _
    · rw [if_neg hw, if_neg hw, add_zero]
  · by_cases hsame : id' = id
    · subst hsame
      cases (Function.update_self id' _ s.calls).symm.trans hid'
      obtain ⟨rfl, rfl⟩ := of_firstPhase_returned hph
      exact ⟨rfl, nofun⟩
    · obtain ⟨hlen, hsent⟩ := hs.returned id' call accs
        ((Function.update_of_ne hsame _ _).symm.trans hid') hph
      exact ⟨hlen, hjoin.sent ▸ hsent⟩

theorem FetchStep.sound (h : FetchStep env s e t) (hs : s.Sound) : t.Sound := by
  by_cases hcall : ∀ id pks marked slot, e ≠ .call id pks marked slot
  · obtain ⟨res, hresol, -⟩ := h.takes hcall
    refine ⟨fun k state => h.held hcall hs, fun w k => ?_, h.returned hcall hs⟩
    rw [hresol.balance, hs.balance, h.requested hcall]
  · simp only [ne_eq, not_forall, not_not] at hcall
    obtain ⟨id, pks, marked, slot, rfl⟩ := hcall
    cases h with
    | call hid => exact sound_tryGetMulti hid hs

theorem sound_of_run (h : (fetchMachine env).Run es s) : s.Sound := by
  refine h.invariant ?_ fun _ _ _ _ _ hs hstep => FetchStep.sound hstep hs
  rintro _ ⟨chainSlot, rfl⟩
  exact sound_new chainSlot

/-! ### The waiters of an entry -/

namespace Fetching.Sound

theorem requested (hs : s.Sound) (hst : s.accounts k = some state) (hw : w ∈ state.waiters) :
    s.requested w = some k ∧ state.waiters.count w = 1 := by
  have hcnt : s.registered w k = state.waiters.count w := by rw [registered, hst, Option.elim_some]
  have hpos := count_pos_iff.mpr hw
  have hbal := hs.balance w k
  split_ifs at hbal with hk
  · exact ⟨hk, by omega⟩
  · omega

theorem mem_sent (hs : s.Sound) (hx : x ∈ s.sent) :
    s.requested x.waiter = some x.pubkey ∧ s.answered x.waiter x.pubkey = 1 := by
  have hpos : 0 < s.answered x.waiter x.pubkey := countP_pos_iff.mpr ⟨x, hx, by simp⟩
  have hbal := hs.balance x.waiter x.pubkey
  split_ifs at hbal with hk
  · exact ⟨hk, by omega⟩
  · omega

/-- A waiter is registered, or has been sent one result. -/
theorem sent (hs : s.Sound) (hk : s.requested w = some k) :
    ((∃ state, s.accounts k = some state ∧ w ∈ state.waiters) ∧ s.sent.filter (·.waiter = w) = []) ∨
    (∀ k state, s.accounts k = some state → w ∉ state.waiters) ∧
      ∃ res, s.sent.filter (·.waiter = w) = [⟨w, k, res⟩] := by
  have hbal := hs.balance w k
  rw [if_pos hk] at hbal
  -- all that a waiter is sent is for the pubkey it was registered for
  have hlen : (s.sent.filter (·.waiter = w)).length = s.answered w k := by
    rw [← countP_eq_length_filter, answered]
    refine countP_congr fun x hx => ?_
    have hpk : x.waiter = w → x.pubkey = k := by
      rintro rfl
      exact Option.some.inj ((hs.mem_sent hx).1.symm.trans hk)
    simpa using hpk
  rcases hreg : s.registered w k with _ | n
  · refine .inr ⟨fun k' state hst hw => ?_, ?_⟩
    · obtain ⟨hk', hcnt⟩ := hs.requested hst hw
      cases hk.symm.trans hk'
      rw [registered, hst, Option.elim_some, hcnt] at hreg
      cases hreg
    · have hone : (s.sent.filter (·.waiter = w)).length = 1 := by omega
      obtain ⟨x, hx⟩ := length_eq_one_iff.mp hone
      have hmem : x ∈ s.sent.filter (·.waiter = w) := hx ▸ mem_singleton_self x
      obtain ⟨hsent, hwait⟩ := mem_filter.mp hmem
      obtain rfl : x.waiter = w := by simpa using hwait
      cases (hs.mem_sent hsent).1.symm.trans hk
      exact ⟨x.result, hx⟩
  · refine .inl ⟨?_, length_eq_zero_iff.mp (by omega)⟩
    rcases hst : s.accounts k with _ | state
    · rw [registered, hst] at hreg
      cases hreg
    · rw [registered, hst, Option.elim_some] at hreg
      exact ⟨state, rfl, count_pos_iff.mp (by omega)⟩

end Fetching.Sound

/-- **Every fetch has an owner, and every waiter gets one answer.**  In every run each entry is
claimed under its generation by an armed guard or a running task; each waiter of a call stands once
in the entry of its pubkey and was sent nothing, or stands in no entry and was sent one result; what
a guard or a task takes out has the generation of its claim; and a call that succeeds returns the
accounts its waiters were sent, in the order of its request. -/
theorem fetches_owned_and_answered {es : List FetchEvent} (h : (fetchMachine env).Run es s) :
    (∀ k state, s.accounts k = some state → s.Held (k, state.generation) ∧ state.waiters.Nodup ∧
      ∀ w ∈ state.waiters, s.requested w = some k) ∧
    (∀ w k, s.requested w = some k →
      ((∃ state, s.accounts k = some state ∧ w ∈ state.waiters) ∧
        s.sent.filter (·.waiter = w) = []) ∨
      (∀ k' state, s.accounts k' = some state → w ∉ state.waiters) ∧
        ∃ res, s.sent.filter (·.waiter = w) = [⟨w, k, res⟩]) ∧
    (∀ e t, FetchStep env s e t → (∀ update, e ≠ .update update) →
      ∀ k state, s.accounts k = some state →
        (∃ state', t.accounts k = some state' ∧ state'.generation = state.generation ∧
          state.waiters <+: state'.waiters) ∨
        t.accounts k = none ∧ (k, state.generation) ∈ e.takes env s) ∧
    (∀ id call accs, s.calls id = some call → call.phase = .returned (.ok accs) →
      accs.length = call.pubkeys.length ∧
      ∀ i k acc, call.pubkeys[i]? = some k → accs[i]? = some acc →
        s.sent.filter (·.waiter = ⟨id, i⟩) = [⟨⟨id, i⟩, k, .ok acc⟩]) := by
  have hs := sound_of_run h
  refine ⟨fun k state hst => ⟨hs.held k state hst, ?_, fun w hw => (hs.requested hst hw).1⟩,
    fun w k => hs.sent, fun e t hstep hupd k state hst => ?_,
    fun id call accs hid hph => ?_⟩
  · exact List.nodup_iff_count_eq_one.mpr fun w hw => (hs.requested hst hw).2
  · by_cases hcall : ∀ id pks marked slot, e ≠ .call id pks marked slot
    · obtain ⟨res, hresol, -⟩ := hstep.takes hcall
      rcases hresol.accounts k with hsame | ⟨state', hst', hmem, hnone⟩
      · exact .inl ⟨state, hsame.trans hst, rfl, List.prefix_rfl⟩
      · cases hst.symm.trans hst'
        exact .inr ⟨hnone, hmem⟩
    · simp only [ne_eq, not_forall, not_not] at hcall
      obtain ⟨id, pks, marked, slot, rfl⟩ := hcall
      cases hstep with
      | call hid =>
        obtain ⟨u, claimed, hjoin, ht⟩ := s.tryGetMulti_cases id pks marked slot
        obtain ⟨state', hst', hgen, -, hwtrs⟩ := hjoin.kept k state hst
        exact .inl ⟨state', by rw [ht]; exact hst', hgen, hwtrs⟩
  · obtain ⟨hlen, hsent⟩ := hs.returned id call accs hid hph
    refine ⟨hlen, fun i k acc hk hacc => ?_⟩
    obtain ⟨k', hmem⟩ := hsent i acc hacc
    have hreq : s.requested ⟨id, i⟩ = some k := by
      rw [Fetching.requested, hid, Option.bind_some, hk]
    have hfilt : _ ∈ s.sent.filter (·.waiter = ⟨id, i⟩) :=
      List.mem_filter.mpr ⟨hmem, decide_eq_true rfl⟩
    rcases hs.sent hreq with ⟨-, hnil⟩ | ⟨-, res, hone⟩
    · exact absurd (hnil ▸ hfilt) List.not_mem_nil
    · rw [hone] at hfilt
      obtain ⟨-, -, hres⟩ := Sent.mk.inj (List.mem_singleton.mp hfilt)
      rw [hone, hres]

namespace FetchExample

def fetched (slot : Slot) : AccountSharedData := ⟨1, [], 0, false, 0, .mirrored, slot, 0⟩

def exampleEnv : ProviderEnv where
  builder := ⟨fun _ slot => fetched slot, fetched, fun _ _ => rfl, fun _ => rfl⟩
  clockId := 1
  text _ := ""
  debug _ := ""

def firstCall : FetchCall := ⟨[7], [], 5, .setup [(7, 1)]⟩

def startedTask : FetchTask := fetchTask firstCall [(7, 1)]

/-- The RPC node answers at slot 7. -/
def between : RemoteAccount := .found ⟨fetched 7, .fetch⟩

def answeredTask : FetchTask := { startedTask with phase := .notifying [((7, 1), between)] }

/-- A call for slot 5, and one for `second` that joins it: the task of the first answers both
waiters, and the second call returns. -/
theorem run_bothAnswered {G : Fetching → FetchEvent → Prop}
    (hG : ∀ s e, (∀ id pks marked slot, e ≠ .call id pks marked slot) → G s e)
    (hfst : G (.new 0) (.call 0 [7] [] (some 5)))
    (hsnd : G ((Fetching.new 0).tryGetMulti 0 [7] [] (some 5)) (.call 1 [7] [] (some second))) :
    ∃ es s call, ((fetchMachine exampleEnv).guarded G).Run es s ∧ s.calls 1 = some call ∧
      call.fetchStartSlot = second ∧ call.phase = .returned (.ok [between]) := by
  have hstart : ((fetchMachine exampleEnv).guarded G).Run [] (.new 0) := .start ⟨0, rfl⟩
  have hcall := hstart.guardedStep (.call rfl) hfst |>.guardedStep (.call rfl) hsnd
  have hans := hcall.next (.subscribed 0)
      ⟨hG _ _ nofun, @FetchStep.subscribed _ _ _ firstCall _ rfl rfl⟩
    |>.next (.task startedTask) ⟨hG _ _ nofun, @FetchStep.task _ _ _ _ 0 rfl (.loop rfl)⟩
    |>.next (.task { startedTask with phase := .calling }) ⟨hG _ _ nofun,
      @FetchStep.task _ _ _ _ 0 rfl (.answer rfl (.response 7 [some ⟨1, [], 0, false, 0⟩]))⟩
    |>.next (.task answeredTask) ⟨hG _ _ nofun, @FetchStep.task _ _ _ _ 0 rfl (.notify rfl)⟩
    |>.next (.task { answeredTask with phase := .notifying [] })
      ⟨hG _ _ nofun, @FetchStep.task _ _ _ _ 0 rfl (.done rfl)⟩
  have hfin := hans.next (.finish 1) ⟨hG _ _ nofun,
    @FetchStep.finish _ _ _ ⟨[7], [], second, .awaiting⟩ rfl rfl fun _ _ _ hst => by
      simp [subscribed, setPhase, resolve, tryGetMulti, registerAll, register,
        removeFetchingAccountIfGenerationMatches, new] at hst⟩
  exact ⟨_, _, _, hfin, rfl, rfl, rfl⟩

end FetchExample

open FetchExample in
theorem fetches_owned_and_answered_joined :
    ∃ es s call, (fetchMachine exampleEnv).Run es s ∧ s.calls 1 = some call ∧
      call.phase = .returned (.ok [between]) ∧ [between].length = call.pubkeys.length := by
  obtain ⟨es, s, call, hrun, hid, -, hph⟩ :=
    @run_bothAnswered 10 (fun _ _ => True) (fun _ _ _ => trivial) trivial trivial
  have hown := fetches_owned_and_answered hrun.of_guarded
  exact ⟨es, s, call, hrun.of_guarded, hid, hph, (hown.2.2.2 1 call _ hid hph).1⟩

end Magicblock.Provider
