import Magicblock.Provider.Types

/-!
# Provider/MatchSlots — accounts at one slot

`try_get_multi_until_slots_match` fetches accounts the normal way, and if their slots differ it asks
the RPC node for all of them until they agree.  The floor rises to every found account on the way.
Updates that the first fetch took from subscriptions are handed back if the call fails.

A call is a function of the answers it gets; it is `none` while it needs one more.
-/

namespace Magicblock.Provider

/-- `MatchSlotsRetryConfig`; times are in milliseconds. -/
structure MatchSlotsRetryConfig where
  maxRetries : ℕ := 10
  retryIntervalMs : ℕ := 50
  minContextSlot : Option Slot := none

def rpcFetchTimeout : ℕ := 5000

def rpcFetchRetryDelay : ℕ := 400

def matchSlotsMaxTotalTime : ℕ := 10000

/-- The delay before the next attempt, or the limit that was hit; `retries` counts this one. -/
def nextMatchSlotsRetry (retries elapsed : ℕ) (config : MatchSlotsRetryConfig) : Except String ℕ :=
  if retries = config.maxRetries then .error s!"max retries {config.maxRetries}"
  else if matchSlotsMaxTotalTime < elapsed then
    .error s!"max total time of {matchSlotsMaxTotalTime / 1000} seconds"
  else .ok config.retryIntervalMs

def nextMatchSlotsRpcErrorRetry (retries elapsed : ℕ) (config : MatchSlotsRetryConfig) :
    Except String ℕ :=
  (nextMatchSlotsRetry retries elapsed config).map (max · rpcFetchRetryDelay)

/-! ### Slots of fetched accounts -/

def allSlotsMatch : List RemoteAccount → Bool
  | [] => true
  | first :: rest => rest.all fun account => account.slot = first.slot

inductive SlotsMatchResult
  | matched
  | mismatch
  | matchButBelowMinContextSlot (slot : Slot)
  deriving DecidableEq

def maxFoundSlot (accounts : List RemoteAccount) : Option Slot :=
  ((accounts.filter (·.isFound)).map (·.slot)).max?

def raisedMinContextSlot (minContextSlot : Option Slot) (accounts : List RemoteAccount) :
    Option Slot :=
  match minContextSlot, maxFoundSlot accounts with
  | some min, some found => some (max min found)
  | none, some found => some found
  | min, none => min

def slotsMatchAndMeetMinContext (accounts : List RemoteAccount) (minContextSlot : Option Slot) :
    SlotsMatchResult :=
  if !allSlotsMatch accounts then .mismatch
  else
    match minContextSlot with
    | some min =>
      if accounts.head?.all fun first => min ≤ first.slot then .matched
      else .matchButBelowMinContextSlot min
    | none => .matched

/-! ### The call -/

/-- An answer of the RPC node, and the time since the first retry when it is considered. -/
structure Attempt where
  answer : RpcAnswer
  elapsed : ℕ

/-- How a call ends. -/
structure MatchedFetch where
  result : Except RemoteAccountProviderError (List RemoteAccount)
  /-- What it passed to `reforward_consumed_subscription_results`. -/
  reforwarded : List (Pubkey × RemoteAccount)
  /-- All accounts it obtained before the last fetch. -/
  obtained : List RemoteAccount

section Call

variable (builder : AccountBuilder) (text : Pubkey → String) (pubkeys : List Pubkey)
  (config : MatchSlotsRetryConfig)

def fetchMultiRpcOnly (minContextSlot : Slot) :
    RpcAnswer → Except RemoteAccountProviderError (List RemoteAccount)
  | .timeout => .error (.accountResolutionsFailed
      s!"RPC call timeout fetching accounts {pubkeysStr text pubkeys} after {rpcFetchTimeout}ms")
  | .error err => .error (.accountResolutionsFailed
      s!"RpcError fetching accounts {pubkeysStr text pubkeys}: {err}")
  | .response responseSlot value =>
    if responseSlot < minContextSlot then .error (.accountResolutionsFailed
      s!"Response slot {responseSlot} < {minContextSlot} fetching accounts {pubkeysStr text pubkeys}")
    else if value.length ≠ pubkeys.length then .error (.accountResolutionsFailed
      s!"RPC returned {value.length} account results for {pubkeys.length} requested accounts: {pubkeysStr text pubkeys}")
    else .ok <| value.map fun
      | some account => .fromFreshAccount builder account responseSlot .fetch
      | none => .notFound responseSlot

/-- The found accounts that came from subscriptions. -/
def consumedSubscriptionResults (accounts : List RemoteAccount) : List (Pubkey × RemoteAccount) :=
  (pubkeys.zip accounts).filter fun (_, account) =>
    account.isFound && account.source = some .subscription

/-- The retries. -/
def matchSlotsLoop (consumed : List (Pubkey × RemoteAccount)) :
    List Attempt → ℕ → Option Slot → Slot → List RemoteAccount → Option MatchedFetch
  | [], _, _, _, _ => none
  | attempt :: attempts, retries, minContextSlot, fetchStartSlot, obtained =>
    match fetchMultiRpcOnly builder text pubkeys fetchStartSlot attempt.answer with
    | .error err =>
      match nextMatchSlotsRpcErrorRetry (retries + 1) attempt.elapsed config with
      | .ok _ => matchSlotsLoop consumed attempts
          (retries + 1) minContextSlot fetchStartSlot obtained
      | .error _ => some ⟨.error err, consumed, obtained⟩
    | .ok accounts =>
      let minContextSlot := raisedMinContextSlot minContextSlot accounts
      let fetchStartSlot := max fetchStartSlot (minContextSlot.getD 0)
      match slotsMatchAndMeetMinContext accounts minContextSlot with
      | .matched => some ⟨.ok accounts, [], obtained⟩
      | result =>
        match nextMatchSlotsRetry (retries + 1) attempt.elapsed config with
        | .ok _ =>
          matchSlotsLoop consumed attempts (retries + 1) minContextSlot fetchStartSlot
            (obtained ++ accounts)
        | .error limit =>
          let slots := accounts.map (·.slot)
          match result with
          | .matchButBelowMinContextSlot slot =>
            some ⟨.error (.matchingSlotsNotSatisfyingMinContextSlot (pubkeysStr text pubkeys) slots
              slot limit), consumed, obtained ++ accounts⟩
          | _ => some ⟨.error (.slotsDidNotMatch (pubkeysStr text pubkeys) slots limit), consumed,
              obtained ++ accounts⟩

/-- **`try_get_multi_until_slots_match`** — `first` is what `try_get_multi` returns. -/
def tryGetMultiUntilSlotsMatch (first : Except RemoteAccountProviderError (List RemoteAccount))
    (chainSlot : Slot) (attempts : List Attempt) : Option MatchedFetch :=
  match first with
  | .error err => some ⟨.error err, [], []⟩
  | .ok accounts =>
    let minContextSlot := raisedMinContextSlot config.minContextSlot accounts
    match slotsMatchAndMeetMinContext accounts minContextSlot with
    | .matched => some ⟨.ok accounts, [], []⟩
    | _ =>
      matchSlotsLoop builder text pubkeys config
        (consumedSubscriptionResults pubkeys accounts) attempts
        0 minContextSlot (max chainSlot (minContextSlot.getD 0)) accounts

end Call

/-! ### The floor -/

/-- A floor at or above a slot. -/
def Above (minContextSlot : Option Slot) (slot : Slot) : Prop :=
  ∃ floor, minContextSlot = some floor ∧ slot ≤ floor

variable {minContextSlot : Option Slot} {accs obtained : List RemoteAccount}

/-- The floor does not fall. -/
theorem Above.raised (h : Above minContextSlot slot) (accs : List RemoteAccount) :
    Above (raisedMinContextSlot minContextSlot accs) slot := by
  obtain ⟨floor, rfl, hslot⟩ := h
  simp only [raisedMinContextSlot]
  rcases maxFoundSlot accs with _ | found
  · exact ⟨floor, rfl, hslot⟩
  · exact ⟨max floor found, rfl, hslot.trans (le_max_left _ _)⟩

/-- The floor rises to what was found. -/
theorem above_raised (ha : a ∈ accs) (hfound : a.isFound) :
    Above (raisedMinContextSlot minContextSlot accs) a.slot := by
  have hmem : a.slot ∈ (accs.filter (·.isFound)).map (·.slot) :=
    List.mem_map_of_mem (List.mem_filter.mpr ⟨ha, hfound⟩)
  simp only [raisedMinContextSlot]
  rcases hmax : maxFoundSlot accs with _ | found
  · rw [maxFoundSlot, List.max?_eq_none_iff] at hmax
    exact absurd (hmax ▸ hmem) List.not_mem_nil
  · have hle : a.slot ≤ found := (List.max?_eq_some_iff.mp hmax).2 _ hmem
    rcases minContextSlot with _ | floor
    · exact ⟨found, rfl, hle⟩
    · exact ⟨max floor found, rfl, hle.trans (le_max_right _ _)⟩

theorem slot_eq_of_allSlotsMatch (h : allSlotsMatch accs)
    (ha : a ∈ accs) (hb : b ∈ accs) : b.slot = a.slot := by
  rcases accs with _ | ⟨first, rest⟩
  · exact absurd ha List.not_mem_nil
  · have hfst : ∀ c ∈ first :: rest, c.slot = first.slot := by
      simpa [allSlotsMatch] using h
    rw [hfst a ha, hfst b hb]

/-- **Accounts that match are at one slot**, at or above the floor. -/
theorem of_matched (h : slotsMatchAndMeetMinContext accs minContextSlot = .matched) :
    ∀ a ∈ accs, (∀ b ∈ accs, b.slot = a.slot) ∧
      ∀ slot, Above minContextSlot slot → slot ≤ a.slot := by
  by_cases hmatch : allSlotsMatch accs
  · refine fun a ha => ⟨fun b hb => slot_eq_of_allSlotsMatch hmatch ha hb, ?_⟩
    rintro slot ⟨floor, rfl, hslot⟩
    simp only [slotsMatchAndMeetMinContext, hmatch, Bool.not_true, Bool.false_eq_true,
      if_false] at h
    split_ifs at h with hfst
    rcases accs with _ | ⟨first, rest⟩
    · exact absurd ha List.not_mem_nil
    · have hfloor : floor ≤ first.slot := by simpa using hfst
      rw [slot_eq_of_allSlotsMatch hmatch List.mem_cons_self ha]
      exact hslot.trans hfloor
  · simp [slotsMatchAndMeetMinContext, hmatch] at h

/-! ### What a call returns and hands back -/

section

variable {config : MatchSlotsRetryConfig} {call : MatchedFetch}

/-- The accounts of an answer match, and the floor was at or above all that came before. -/
structure MatchedFetch.Consistent (config : MatchSlotsRetryConfig) (call : MatchedFetch)
    (accounts : List RemoteAccount) : Prop where
  slot_eq : ∀ a ∈ accounts, ∀ b ∈ accounts, b.slot = a.slot
  min_le : ∀ a ∈ accounts, ∀ min, config.minContextSlot = some min → min ≤ a.slot
  obtained_le : ∀ a ∈ accounts, ∀ c ∈ call.obtained, c.isFound → c.slot ≤ a.slot

/-- A floor that the configured one and all that was found have raised. -/
structure Raised (config : MatchSlotsRetryConfig) (obtained : List RemoteAccount)
    (minContextSlot : Option Slot) : Prop where
  min : ∀ min, config.minContextSlot = some min → Above minContextSlot min
  found : ∀ a ∈ obtained, a.isFound → Above minContextSlot a.slot

theorem Raised.append (h : Raised config obtained minContextSlot) :
    Raised config (obtained ++ accs) (raisedMinContextSlot minContextSlot accs) where
  min min hmin := (h.min min hmin).raised accs
  found a ha hfound := (List.mem_append.mp ha).elim
    (fun ha => (h.found a ha hfound).raised accs) (above_raised · hfound)

theorem Raised.consistent (h : Raised config obtained minContextSlot)
    (hmat : slotsMatchAndMeetMinContext accs (raisedMinContextSlot minContextSlot accs) =
      .matched) {reforwarded : List (Pubkey × RemoteAccount)} :
    MatchedFetch.Consistent config ⟨.ok accs, reforwarded, obtained⟩ accs where
  slot_eq a ha := (of_matched hmat a ha).1
  min_le a ha min hmin := (of_matched hmat a ha).2 min ((h.min min hmin).raised accs)
  obtained_le a ha c hc hfound :=
    (of_matched hmat a ha).2 c.slot ((h.found c hc hfound).raised accs)

/-- **The retries** — what is returned is consistent, and what was consumed is handed back if they
fail. -/
theorem matchSlotsLoop_spec (hraise : Raised config obtained minContextSlot)
    (h : matchSlotsLoop builder text pubkeys config consumed attempts retries minContextSlot
      fetchStartSlot obtained = some call) :
    (∀ accs, call.result = .ok accs → call.Consistent config accs) ∧
      ∀ err, call.result = .error err → call.reforwarded = consumed := by
  induction attempts generalizing retries minContextSlot fetchStartSlot obtained with
  | nil => exact nomatch h
  | cons attempt attempts ih =>
    rw [matchSlotsLoop] at h
    split at h
    · split at h
      · exact ih hraise h
      · cases h
        exact ⟨nofun, fun _ _ => rfl⟩
    · rename_i accs _
      simp only at h
      split at h
      · rename_i hmat
        cases h
        refine ⟨fun accs' haccs => ?_, nofun⟩
        cases haccs
        exact hraise.consistent hmat
      · split at h
        · exact ih hraise.append h
        · split at h <;> obtain rfl := Option.some.inj h <;>
            exact ⟨nofun, fun _ _ => rfl⟩

/-- **What a call does whose first fetch succeeds.** -/
theorem tryGetMultiUntilSlotsMatch_spec
    (h : tryGetMultiUntilSlotsMatch builder text pubkeys config (.ok first) chainSlot attempts =
      some call) : (∀ accs, call.result = .ok accs → call.Consistent config accs) ∧
      ∀ err, call.result = .error err →
        call.reforwarded = consumedSubscriptionResults pubkeys first := by
  have hstart : Raised config [] config.minContextSlot :=
    ⟨fun min hmin => ⟨min, hmin, le_rfl⟩, fun _ hnil => absurd hnil List.not_mem_nil⟩
  simp only [tryGetMultiUntilSlotsMatch] at h
  split at h
  · rename_i hmat
    cases h
    refine ⟨fun accs haccs => ?_, nofun⟩
    cases haccs
    exact hstart.consistent hmat
  · exact matchSlotsLoop_spec hstart.append h

theorem ne_of_nextMatchSlotsRetry
    (h : nextMatchSlotsRetry retries elapsed config = .ok delay) : retries ≠ config.maxRetries := by
  rintro rfl
  simp [nextMatchSlotsRetry] at h

theorem ne_of_nextMatchSlotsRpcErrorRetry
    (h : nextMatchSlotsRpcErrorRetry retries elapsed config = .ok delay) :
    retries ≠ config.maxRetries := by
  rintro rfl
  simp [nextMatchSlotsRpcErrorRetry, nextMatchSlotsRetry, Except.map] at h

theorem isSome_matchSlotsLoop (hretries : retries < config.maxRetries)
    (hatts : config.maxRetries ≤ retries + attempts.length) :
    (matchSlotsLoop builder text pubkeys config consumed attempts retries minContextSlot
      fetchStartSlot obtained).isSome := by
  induction attempts generalizing retries minContextSlot fetchStartSlot obtained with
  | nil => exact absurd hatts hretries.not_ge
  | cons attempt attempts ih =>
    rw [List.length_cons] at hatts
    rw [matchSlotsLoop]
    split
    · split
      · rename_i hretry
        have hmax := ne_of_nextMatchSlotsRpcErrorRetry hretry
        exact ih (by omega) (by omega)
      · rfl
    · simp only
      split
      · rfl
      · split
        · rename_i hretry
          have hmax := ne_of_nextMatchSlotsRetry hretry
          exact ih (by omega) (by omega)
        · split <;> rfl

/-- A call returns, at the latest when the last of its retries is answered. -/
theorem isSome_tryGetMultiUntilSlotsMatch
    (first : Except RemoteAccountProviderError (List RemoteAccount)) (chainSlot : Slot)
    (hretries : 0 < config.maxRetries) (hatts : config.maxRetries ≤ attempts.length) :
    (tryGetMultiUntilSlotsMatch builder text pubkeys config first chainSlot attempts).isSome := by
  rcases first with err | accs
  · rfl
  · simp only [tryGetMultiUntilSlotsMatch]
    split
    · rfl
    · exact isSome_matchSlotsLoop hretries (by omega)

end

theorem isSome_tryGetMultiUntilSlotsMatch_timeout :
    let acc : Slot → AccountSharedData := fun slot => ⟨1, [], 0, false, 0, .mirrored, slot, 0⟩
    (tryGetMultiUntilSlotsMatch ⟨fun _ => acc, acc, fun _ _ => rfl, fun _ => rfl⟩ (fun _ => "")
      [7, 8] ⟨1, 50, none⟩ (.ok [.notFound 5, .notFound 3]) 0 [⟨.timeout, 0⟩]).isSome :=
  isSome_tryGetMultiUntilSlotsMatch _ _ Nat.zero_lt_one le_rfl

end Magicblock.Provider
