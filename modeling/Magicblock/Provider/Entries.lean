import Magicblock.Provider.Fetching

/-!
# Provider/Entries — what happens to the entries of `fetching_accounts`

A step that is not a call takes entries out and answers their waiters (`Resolved`); a call registers
its waiters and claims what nobody fetches (`Joined`).  `registered + answered` counts where a
waiter is, and only calls change it.
-/

namespace Magicblock.Provider

open List (length_append mem_append mem_append_left mem_append_right mem_singleton
  mem_singleton_self not_mem_nil prefix_rfl)
open Function (update update_of_ne update_self)

variable {env : ProviderEnv} {s t : Fetching} {claim : Claim} {claims : List Claim}

namespace Fetching

/-- The pubkey a waiter is for. -/
def requested (s : Fetching) (waiter : Waiter) : Option Pubkey :=
  (s.calls waiter.call).bind (·.pubkeys[waiter.index]?)

def registered (s : Fetching) (waiter : Waiter) (pubkey : Pubkey) : ℕ :=
  (s.accounts pubkey).elim 0 (·.waiters.count waiter)

def answered (s : Fetching) (waiter : Waiter) (pubkey : Pubkey) : ℕ :=
  s.sent.countP fun x => x.waiter = waiter ∧ x.pubkey = pubkey

/-! ### Taking entries out -/

/-- Entries of `claims` were taken out and their waiters answered by `result`. -/
structure Resolved (claims : List Claim) (result : Claim → FetchResult) (s t : Fetching) :
    Prop where
  accounts : ∀ k, t.accounts k = s.accounts k ∨
    ∃ state, s.accounts k = some state ∧ (k, state.generation) ∈ claims ∧ t.accounts k = none
  gone : ∀ k state, t.accounts k = some state → (k, state.generation) ∉ claims
  balance : ∀ w k, t.registered w k + t.answered w k = s.registered w k + s.answered w k
  sent : ∀ x ∈ t.sent, x ∈ s.sent ∨ ∃ state, s.accounts x.pubkey = some state ∧
    x.waiter ∈ state.waiters ∧ (x.pubkey, state.generation) ∈ claims ∧
    x.result = result (x.pubkey, state.generation)
  mono : s.sent <+: t.sent

/-- The entry of a claim is taken out if it has its generation. -/
theorem resolve_cases (s : Fetching) (claim : Claim) (res : FetchResult) :
    (s.resolve claim res = s ∧
      ∀ state, s.accounts claim.1 = some state → state.generation ≠ claim.2) ∨
    ∃ state, s.accounts claim.1 = some state ∧ state.generation = claim.2 ∧
      s.resolve claim res =
        { s with
          accounts := update s.accounts claim.1 none
          sent := s.sent ++ state.waiters.map (⟨·, claim.1, res⟩) } := by
  rcases hent : s.accounts claim.1 with _ | state
  · exact .inl ⟨by simp [resolve, removeFetchingAccountIfGenerationMatches, hent], nofun⟩
  · by_cases hgen : state.generation = claim.2
    · refine .inr ⟨state, rfl, hgen, ?_⟩
      simp [resolve, removeFetchingAccountIfGenerationMatches, hent, hgen]
    · refine .inl ⟨?_, ?_⟩
      · simp [resolve, removeFetchingAccountIfGenerationMatches, hent, hgen]
      · rintro _ ⟨⟩
        exact hgen

theorem countP_sent (waiters : List Waiter) :
    (waiters.map (Sent.mk · pk res)).countP (fun x => x.waiter = w ∧ x.pubkey = k) =
      if pk = k then waiters.count w else 0 := by
  split_ifs with hk
  · simp [List.countP_map, List.count, Function.comp_def, hk, beq_eq_decide]
  · simp [List.countP_eq_zero, hk]

theorem Resolved.refl (hgone : ∀ k state, s.accounts k = some state →
    (k, state.generation) ∉ claims) : Resolved claims res s s :=
  ⟨fun _ => .inl rfl, hgone, fun _ _ => rfl, fun _ hx => .inl hx, prefix_rfl⟩

theorem resolved_resolve (s : Fetching) (claim : Claim) (res : Claim → FetchResult) :
    Resolved [claim] res s (s.resolve claim (res claim)) := by
  rcases s.resolve_cases claim (res claim) with ⟨hsame, hoth⟩ | ⟨state, hent, hgen, hout⟩
  · rw [hsame]
    refine .refl fun k state hst hmem => ?_
    obtain rfl := mem_singleton.mp hmem
    exact hoth state hst rfl
  · obtain ⟨pk, generation⟩ := claim
    obtain rfl : state.generation = generation := hgen
    rw [hout]
    refine ⟨fun k => ?_, fun k state' hst' hmem => ?_, fun w k => ?_, fun x hx => ?_,
      List.prefix_append _ _⟩
    · by_cases hk : k = pk
      · subst hk
        exact .inr ⟨state, hent, mem_singleton_self _, update_self ..⟩
      · exact .inl (update_of_ne hk _ _)
    · obtain ⟨rfl, -⟩ := Prod.mk.inj (mem_singleton.mp hmem)
      exact nomatch (update_self ..).symm.trans hst'
    · simp only [registered, answered, List.countP_append, countP_sent]
      by_cases hk : k = pk
      · subst hk
        rw [update_self, hent, if_pos rfl, Option.elim_none, Option.elim_some, zero_add, add_comm]
      · rw [update_of_ne hk, if_neg (Ne.symm hk), add_zero]
    · rcases mem_append.mp hx with hx | hx
      · exact .inl hx
      · obtain ⟨w, hw, rfl⟩ := List.mem_map.mp hx
        exact .inr ⟨state, hent, hw, mem_singleton_self _, rfl⟩

variable {state : FetchingAccountState}

/-- An entry that is still there was there before. -/
theorem Resolved.entry (h : Resolved claims res s t)
    (hst : t.accounts k = some state) : s.accounts k = some state := by
  rcases h.accounts k with hsame | ⟨_, -, -, hnone⟩
  · exact hsame.symm.trans hst
  · exact nomatch hnone.symm.trans hst

theorem Resolved.trans (h : Resolved claims res s t)
    (h' : Resolved claims' res t u) : Resolved (claims ++ claims') res s u where
  accounts k := by
    rcases h'.accounts k with hsame | ⟨state, hst, hmem, hnone⟩
    · rw [hsame]
      exact (h.accounts k).imp_right fun ⟨state, hst, hmem, hnone⟩ =>
        ⟨state, hst, mem_append_left _ hmem, hnone⟩
    · exact .inr ⟨state, h.entry hst, mem_append_right _ hmem, hnone⟩
  gone k state hst hmem := (mem_append.mp hmem).elim
    (h.gone k state (h'.entry hst)) (h'.gone k state hst)
  balance w k := (h'.balance w k).trans (h.balance w k)
  sent x hx := by
    rcases h'.sent x hx with hx | ⟨state, hst, hw, hmem, hres⟩
    · exact (h.sent x hx).imp_right fun ⟨state, hst, hw, hmem, hres⟩ =>
        ⟨state, hst, hw, mem_append_left _ hmem, hres⟩
    · exact .inr ⟨state, h.entry hst, hw, mem_append_right _ hmem, hres⟩
  mono := h.mono.trans h'.mono

theorem Resolved.congr (h : Resolved claims res s t) (haccs : u.accounts = t.accounts)
    (hsent : u.sent = t.sent) : Resolved claims res s u where
  accounts k := haccs ▸ h.accounts k
  gone k := haccs ▸ h.gone k
  balance w k := by
    rw [registered, answered, haccs, hsent]
    exact h.balance w k
  sent x := hsent ▸ h.sent x
  mono := hsent ▸ h.mono

/-- **All claims are resolved**, one after the other. -/
theorem resolved_resolveAll (s : Fetching) : Resolved claims res s (s.resolveAll claims res) := by
  induction claims generalizing s with
  | nil => exact .refl fun _ _ _ => not_mem_nil
  | cons claim claims ih => exact (resolved_resolve s claim res).trans (ih _)

/-! ### Registering waiters -/

/-- The waiters of a call for `requests` were registered, and `claimed` is what it claimed. -/
structure Joined (id : ℕ) (fetchStartSlot : Slot) (requests : List (Pubkey × ℕ))
    (claimed : List Claim) (s t : Fetching) : Prop where
  kept : ∀ k state, s.accounts k = some state → ∃ state', t.accounts k = some state' ∧
    state'.generation = state.generation ∧ state'.fetchStartSlot = state.fetchStartSlot ∧
    state.waiters <+: state'.waiters
  created : ∀ k state, t.accounts k = some state → s.accounts k = none →
    (k, state.generation) ∈ claimed ∧ state.fetchStartSlot = fetchStartSlot
  registered : ∀ w k, t.registered w k =
    s.registered w k + if w.call = id then requests.count (k, w.index) else 0
  fresh : ∀ claim ∈ claimed, s.accounts claim.1 = none ∧ claim.1 ∈ requests.map Prod.fst ∧
    ∃ n < claimed.length, claim.2 = s.nextGeneration + BitVec.ofNat 64 (n + 1)
  length_le : claimed.length ≤ requests.length
  nextGeneration : t.nextGeneration = s.nextGeneration + BitVec.ofNat 64 claimed.length
  calls : t.calls = s.calls
  tasks : t.tasks = s.tasks
  sent : t.sent = s.sent

variable {id : ℕ} {claimed : List Claim}

theorem Joined.refl : Joined id fetchStartSlot [] [] s s where
  kept _ state hst := ⟨state, hst, rfl, rfl, prefix_rfl⟩
  created _ _ hst hnone := nomatch hnone.symm.trans hst
  registered _ _ := by simp
  fresh _ hmem := absurd hmem not_mem_nil
  length_le := le_rfl
  nextGeneration := by simp
  calls := rfl
  tasks := rfl
  sent := rfl

theorem Joined.trans (h : Joined id fetchStartSlot requests claimed s t)
    (h' : Joined id fetchStartSlot requests' claimed' t u) :
    Joined id fetchStartSlot (requests ++ requests') (claimed ++ claimed') s u where
  kept k state hst := by
    obtain ⟨state', hst', hgen, hslot, hwtrs⟩ := h.kept k state hst
    obtain ⟨state'', hst'', hgen', hslot', hwtrs'⟩ := h'.kept k state' hst'
    exact ⟨state'', hst'', hgen'.trans hgen, hslot'.trans hslot, hwtrs.trans hwtrs'⟩
  created k state hst hnone := by
    rcases ht : t.accounts k with _ | state'
    · obtain ⟨hmem, hslot⟩ := h'.created k state hst ht
      exact ⟨mem_append_right _ hmem, hslot⟩
    · obtain ⟨hmem, hslot⟩ := h.created k state' ht hnone
      obtain ⟨state'', hst'', hgen, hslot', -⟩ := h'.kept k state' ht
      cases hst.symm.trans hst''
      exact ⟨mem_append_left _ (hgen ▸ hmem), hslot'.trans hslot⟩
  registered w k := by
    rw [h'.registered, h.registered, List.count_append]
    split_ifs <;> omega
  fresh claim hmem := by
    rw [length_append, List.map_append]
    rcases mem_append.mp hmem with hmem | hmem
    · obtain ⟨hnone, hkey, n, hn, hgen⟩ := h.fresh claim hmem
      exact ⟨hnone, mem_append_left _ hkey, n, hn.trans_le (Nat.le_add_right _ _), hgen⟩
    · obtain ⟨hnone, hkey, n, hn, hgen⟩ := h'.fresh claim hmem
      refine ⟨?_, mem_append_right _ hkey, claimed.length + n, Nat.add_lt_add_left hn _, ?_⟩
      · rcases hs : s.accounts claim.1 with _ | state
        · rfl
        · obtain ⟨state', hst', -⟩ := h.kept claim.1 state hs
          exact nomatch hnone.symm.trans hst'
      · rw [hgen, h.nextGeneration, BitVec.add_assoc, ← BitVec.ofNat_add, add_assoc]
  length_le := by
    rw [length_append, length_append]
    exact Nat.add_le_add h.length_le h'.length_le
  nextGeneration := by
    rw [h'.nextGeneration, h.nextGeneration, length_append, BitVec.ofNat_add, BitVec.add_assoc]
  calls := h'.calls.trans h.calls
  tasks := h'.tasks.trans h.tasks
  sent := h'.sent.trans h.sent

theorem registered_update {accounts : FetchingAccounts}
    (hs : s.accounts = update accounts pk (some state)) (w : Waiter) (k : Pubkey) :
    s.registered w k = if k = pk then state.waiters.count w else
      (accounts k).elim 0 (·.waiters.count w) := by
  rw [registered, hs]
  split_ifs with hk
  · subst hk
    rw [update_self, Option.elim_some]
  · rw [update_of_ne hk]

/-- A request counts for its own waiter. -/
theorem count_request (pk k : Pubkey) (index : ℕ) (w : Waiter) :
    (if w.call = id then [(pk, index)].count (k, w.index) else 0) =
      if k = pk then [(⟨id, index⟩ : Waiter)].count w else 0 := by
  obtain ⟨call, index'⟩ := w
  simp only [List.count_singleton, beq_iff_eq, Prod.mk.injEq, Waiter.mk.injEq]
  grind

/-- A waiter joins the fetch of its pubkey. -/
theorem joined_of_some (hent : s.accounts pk = some state) :
    Joined id fetchStartSlot [(pk, index)] [] s
      { s with
        accounts := update s.accounts pk
          (some { state with waiters := state.waiters ++ [⟨id, index⟩] }) } where
  kept k state' hst' := by
    by_cases hk : k = pk
    · subst hk
      cases hent.symm.trans hst'
      exact ⟨_, update_self .., rfl, rfl, List.prefix_append _ _⟩
    · exact ⟨state', (update_of_ne hk _ _).trans hst', rfl, rfl, prefix_rfl⟩
  created k state' hst' hnone := by
    by_cases hk : k = pk
    · subst hk
      exact nomatch hnone.symm.trans hent
    · exact nomatch hnone.symm.trans ((update_of_ne hk _ _).symm.trans hst')
  registered w k := by
    rw [registered_update rfl, count_request]
    split_ifs with hk
    · rw [hk, registered, hent, Option.elim_some, List.count_append]
    · exact (add_zero _).symm
  fresh _ hmem := absurd hmem not_mem_nil
  length_le := Nat.zero_le _
  nextGeneration := by simp
  calls := rfl
  tasks := rfl
  sent := rfl

/-- A pubkey that nobody fetches is claimed. -/
theorem joined_of_none (hent : s.accounts pk = none) :
    Joined id fetchStartSlot [(pk, index)] [(pk, s.nextGeneration + 1)] s { s with
        accounts := update s.accounts pk
          (some ⟨s.nextGeneration + 1, fetchStartSlot, [⟨id, index⟩]⟩)
        nextGeneration := s.nextGeneration + 1 } where
  kept k state hst := by
    have hk : k ≠ pk := by
      rintro rfl
      exact nomatch hent.symm.trans hst
    exact ⟨state, (update_of_ne hk _ _).trans hst, rfl, rfl, prefix_rfl⟩
  created k state hst hnone := by
    by_cases hk : k = pk
    · subst hk
      cases (update_self k _ s.accounts).symm.trans hst
      exact ⟨mem_singleton_self _, rfl⟩
    · exact nomatch hnone.symm.trans ((update_of_ne hk _ _).symm.trans hst)
  registered w k := by
    rw [registered_update rfl, count_request]
    split_ifs with hk
    · rw [hk, registered, hent, Option.elim_none, zero_add]
    · exact (add_zero _).symm
  fresh claim hmem := by
    obtain rfl := mem_singleton.mp hmem
    exact ⟨hent, mem_singleton_self _, 0, Nat.one_pos, rfl⟩
  length_le := le_rfl
  nextGeneration := rfl
  calls := rfl
  tasks := rfl
  sent := rfl

theorem joined_register (id : ℕ) (fetchStartSlot : Slot) (s : Fetching × List Claim)
    (request : Pubkey × ℕ) :
    ∃ claimed, (register id fetchStartSlot s request).2 = s.2 ++ claimed ∧
      Joined id fetchStartSlot [request] claimed s.1 (register id fetchStartSlot s request).1 := by
  rcases hent : s.1.accounts request.1 with _ | state
  · simp only [register, hent]
    exact ⟨_, rfl, joined_of_none hent⟩
  · simp only [register, hent]
    exact ⟨[], (List.append_nil _).symm, joined_of_some hent⟩

theorem joined_foldl_register (s : Fetching × List Claim) (requests : List (Pubkey × ℕ)) :
    ∃ claimed, (requests.foldl (register id fetchStartSlot) s).2 = s.2 ++ claimed ∧
      Joined id fetchStartSlot requests claimed s.1
        (requests.foldl (register id fetchStartSlot) s).1 := by
  induction requests generalizing s with
  | nil => exact ⟨[], (List.append_nil _).symm, .refl⟩
  | cons request requests ih =>
    obtain ⟨claimed, hclaim, hjoin⟩ := joined_register id fetchStartSlot s request
    obtain ⟨claimed', hclaim', hjoin'⟩ := ih (register id fetchStartSlot s request)
    exact ⟨claimed ++ claimed', by rw [List.foldl_cons, hclaim', hclaim, List.append_assoc],
      hjoin.trans hjoin'⟩

theorem joined_registerAll (s : Fetching) (id : ℕ) (fetchStartSlot : Slot) (pks : List Pubkey) :
    Joined id fetchStartSlot pks.zipIdx (s.registerAll id fetchStartSlot pks).2 s
      (s.registerAll id fetchStartSlot pks).1 := by
  obtain ⟨claimed, hclaim, hjoin⟩ := joined_foldl_register (s, []) pks.zipIdx
  rw [registerAll, hclaim]
  exact hjoin

/-- **What a call does** — it registers its waiters, and what it claimed belongs to its guard. -/
theorem tryGetMulti_cases (s : Fetching) (id : ℕ) (pks marked : List Pubkey) (slot : Option Slot) :
    ∃ u claimed, Joined id (slot.getD s.chainSlot) pks.zipIdx claimed s u ∧
      s.tryGetMulti id pks marked slot =
        { u with
          calls := update s.calls id
            (some ⟨pks, marked, slot.getD s.chainSlot, firstPhase pks claimed⟩) } := by
  have hjoin := joined_registerAll s id (slot.getD s.chainSlot) pks
  refine ⟨_, _, hjoin, ?_⟩
  rw [← hjoin.calls]
  rfl

theorem Joined.firstPhase (h : Joined id fetchStartSlot pks.zipIdx claimed s t)
    (hclaim : claimed ≠ []) : firstPhase pks claimed = .setup claimed := by
  have hpks : pks ≠ [] := by
    rintro rfl
    exact hclaim (List.length_eq_zero_iff.mp (Nat.le_zero.mp h.length_le))
  simp [Fetching.firstPhase, hpks, hclaim]

theorem of_firstPhase_setup (h : firstPhase pks claimed = .setup claimed') :
    claimed' = claimed := by
  rw [firstPhase] at h
  split_ifs at h
  exact (CallPhase.setup.inj h).symm

theorem of_firstPhase_returned {accounts : List RemoteAccount}
    (h : firstPhase pks claimed = .returned (.ok accounts)) : accounts = [] ∧ pks = [] := by
  rw [firstPhase] at h
  split_ifs at h with hemp
  exact ⟨(Except.ok.inj (CallPhase.returned.inj h)).symm, List.isEmpty_iff.mp hemp⟩

@[simp]
theorem calls_resolveAll (claims : List Claim) (res : Claim → FetchResult) :
    (s.resolveAll claims res).calls = s.calls := by
  induction claims generalizing s with
  | nil => rfl
  | cons claim claims ih => exact ih

@[simp]
theorem tasks_resolveAll (claims : List Claim) (res : Claim → FetchResult) :
    (s.resolveAll claims res).tasks = s.tasks := by
  induction claims generalizing s with
  | nil => rfl
  | cons claim claims ih => exact ih

/-- The claims of an armed guard. -/
def guardClaims (s : Fetching) (id : ℕ) : List Claim :=
  match s.calls id with
  | some ⟨_, _, _, .setup claimed⟩ => claimed
  | _ => []

theorem guardClaims_of_setup (hcall : s.calls id = some call)
    (hph : call.phase = .setup claimed) : s.guardClaims id = claimed := by
  obtain ⟨pks, marked, slot, phase⟩ := call
  obtain rfl : phase = .setup claimed := hph
  rw [guardClaims, hcall]

theorem guardClaims_of_awaiting (hcall : s.calls id = some call)
    (hph : call.phase = .awaiting) : s.guardClaims id = [] := by
  obtain ⟨pks, marked, slot, phase⟩ := call
  obtain rfl : phase = .awaiting := hph
  rw [guardClaims, hcall]

end Fetching

/-! ### What a step takes out -/

open Fetching

namespace FetchEvent

/-- The claims whose entries a step takes out. -/
def takes (env : ProviderEnv) (s : Fetching) : FetchEvent → List Claim
  | .subscribeFailed id _ => s.guardClaims id
  | .cancel id => s.guardClaims id
  | .task ⟨claims, _, _, _, .failing _⟩ => claims
  | .task ⟨_, _, _, _, .notifying ((claim, _) :: _)⟩ => [claim]
  | .update ⟨pubkey, slot, _, _⟩ =>
    match s.accounts pubkey with
    | some state =>
      if pubkey ≠ env.clockId ∧ state.fetchStartSlot ≤ slot then [(pubkey, state.generation)]
      else []
    | none => []
  | _ => []

/-- The accounts that a step answers waiters with. -/
def Answers (s : Fetching) (claim : Claim) (account : RemoteAccount) : FetchEvent → Prop
  | .task fetch => ∃ rest, fetch.phase = .notifying ((claim, account) :: rest)
  | .update _ => ∃ state, s.accounts claim.1 = some state ∧ state.fetchStartSlot ≤ account.slot
  | _ => False

/-- A step takes the entries of `claims` out. -/
def Takes (e : FetchEvent) (claims : List Claim) (s t : Fetching) : Prop :=
  ∃ result, Resolved claims result s t ∧
    ∀ claim ∈ claims, ∀ account, result claim = .ok account → e.Answers s claim account

variable {e : FetchEvent}

theorem takes_nil (haccs : t.accounts = s.accounts) (hsent : t.sent = s.sent) : e.Takes [] s t :=
  ⟨fun _ => .error .recvrError, (Resolved.refl fun _ _ _ => not_mem_nil).congr haccs hsent, nofun⟩

/-- Entries that are taken out with an error. -/
theorem takes_error {err : Claim → RemoteAccountProviderError}
    (haccs : t.accounts = (s.resolveAll claims fun claim => .error (err claim)).accounts)
    (hsent : t.sent = (s.resolveAll claims fun claim => .error (err claim)).sent) :
    e.Takes claims s t :=
  ⟨_, (resolved_resolveAll s).congr haccs hsent, nofun⟩

/-- An entry that is taken out with an account. -/
theorem takes_ok (hanswers : e.Answers s claim acc)
    (haccs : t.accounts = (s.resolve claim (.ok acc)).accounts)
    (hsent : t.sent = (s.resolve claim (.ok acc)).sent) : e.Takes [claim] s t := by
  refine ⟨fun _ => .ok acc, (resolved_resolve s claim _).congr haccs hsent, ?_⟩
  intro claim' hmem acc' hacc
  obtain rfl := mem_singleton.mp hmem
  cases hacc
  exact hanswers

end FetchEvent

theorem TaskStep.takes (h : TaskStep env s rest task t) :
    (FetchEvent.task task).Takes ((FetchEvent.task task).takes env s) s t := by
  obtain ⟨claims, marked, slot, retries, phase⟩ := task
  cases h with
  | loop h | answer h | done h =>
    obtain rfl : phase = _ := h
    exact FetchEvent.takes_nil rfl rfl
  | fail h =>
    obtain rfl : phase = _ := h
    exact FetchEvent.takes_error rfl rfl
  | notify h =>
    obtain rfl : phase = _ := h
    exact FetchEvent.takes_ok ⟨_, rfl⟩ rfl rfl

theorem slot_updatedAccount (update : SubscriptionUpdate) :
    (updatedAccount env update).slot = update.slot := by
  rw [updatedAccount]
  rcases update.account with _ | acc
  · rfl
  · exact env.builder.slot_build acc update.slot

theorem takes_listen (env : ProviderEnv) (s : Fetching) (update : SubscriptionUpdate) :
    (FetchEvent.update update).Takes ((FetchEvent.update update).takes env s) s
    (s.listen env update) := by
  obtain ⟨pk, slot, acc, source⟩ := update
  simp only [FetchEvent.takes, Fetching.listen]
  by_cases hclock : pk = env.clockId
  · rw [if_pos hclock]
    rcases s.accounts pk with _ | state <;>
      simp only [hclock, ne_eq, not_true, false_and, if_false] <;>
      exact FetchEvent.takes_nil rfl rfl
  · rcases hent : s.accounts pk with _ | state
    · rw [if_neg hclock]
      exact FetchEvent.takes_nil rfl rfl
    · by_cases hslot : state.fetchStartSlot ≤ slot
      · simp only [if_neg hclock, if_pos hslot, if_pos (And.intro hclock hslot)]
        have hfr : state.fetchStartSlot ≤ (updatedAccount env ⟨pk, slot, acc, source⟩).slot := by
          rw [slot_updatedAccount]
          exact hslot
        exact FetchEvent.takes_ok ⟨state, hent, hfr⟩ rfl rfl
      · simp only [if_neg hclock, if_neg hslot, if_neg (not_and_of_not_right _ hslot)]
        exact FetchEvent.takes_nil rfl rfl

/-- **A step that is not a call** takes entries out and answers their waiters. -/
theorem FetchStep.takes (h : FetchStep env s e t)
    (hcall : ∀ id pks marked slot, e ≠ .call id pks marked slot) :
    e.Takes (e.takes env s) s t := by
  cases h with
  | call hid => exact absurd rfl (hcall _ _ _ _)
  | subscribed | finish | chainSlot => exact FetchEvent.takes_nil rfl rfl
  | subscribeFailed hid hph =>
    rw [FetchEvent.takes, guardClaims_of_setup hid hph]
    exact FetchEvent.takes_error rfl rfl
  | @cancel id call hid hph =>
    rw [FetchEvent.takes, Fetching.cancel]
    rcases hph with hph | ⟨claimed, hph⟩
    · rw [guardClaims_of_awaiting hid hph, hph]
      exact FetchEvent.takes_nil rfl rfl
    · rw [guardClaims_of_setup hid hph, hph]
      exact FetchEvent.takes_error rfl rfl
  | task htask h => exact h.takes
  | update update => exact takes_listen env s update

end Magicblock.Provider
