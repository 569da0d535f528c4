import Magicblock.Settlement.StageAgreement

/-!
# Settlement/LegacyFinalize — when a legacy commit is finalized again

`finalize_legacy_commit` sends the same bytes until the answer is an end.  A failure ends the
attempt, and whether there is another one is decided by the class of its error; the deadline of the
callbacks drops the send, and the attempt goes on.  All that an execution does is moves, and each
move that signs a finalize does so for an account found unfinalized with nothing in doubt
(`Moves.orderly`); attempts and processes are then strung together by `Orderly.append`.
-/

namespace Magicblock

open Exec

section

variable {ctx : ExecutionContext} {intent : ScheduledIntentBundle} {s s' : Session}

theorem Moves.orderly (h : Moves ctx intent true s s') (hs : Orderly s.legacy) :
    Orderly s'.legacy := by
  refine h.keeps (fun s => Orderly s.legacy) (fun {s₁ s₂} hs₁ hmove => ?_) hs
  rcases hmove.legacy_cases with heq | ⟨-, event, heq, hsign⟩
  · exact heq ▸ hs₁
  · exact heq ▸ hs₁.concat hsign

theorem Ends.orderly (h : Ends ctx intent s s') (hs : Orderly s.legacy) : Orderly s'.legacy := by
  cases h with
  | moved h => exact h.orderly hs
  | closed h hlog =>
    rw [Session.legacy, hlog, legacyLog_concat fun _ heq => by cases heq]
    exact h.orderly hs

end

theorem orderly_executeWithRetries (ctx : ExecutionContext) (fuel : ℕ) (bundle : OutboxIntentBundle)
    (attempts : List Attempt) :
    Orderly (legacyLog (executeWithRetries ctx fuel 1 bundle (some bundle) attempts).1) := by
  refine executeWithRetries_log (P := fun log => Orderly (legacyLog log))
    (Q := fun log => Tidy (legacyLog log)) orderly_nil (fun l l' h htidy h' => ?_)
    (fun intent stored opening answers h => ?_)
    (fun _ _ _ _ _ _ _ h hrun hretr => (retried_runAttempt h hrun hretr).2.2)
    attempts rfl rfl Nat.one_pos fun _ => rfl
  · rw [legacyLog_append]
    exact h.append htidy h'
  · refine (ends_runAttempt ctx fuel answers h).orderly ?_
    rw [Session.legacy, h.opening.legacyLog]
    exact orderly_nil

theorem legacyLog_lifetime_nil : legacyLog (lifetime ctx acc []) = [] := by
  cases acc <;> rfl

theorem orderly_lifetime (ctx : ExecutionContext) (acc : Option OutboxIntentBundle)
    (processes : List Process) (hrest : ∀ earlier process later,
      processes = earlier ++ process :: later → Clear (legacyLog (lifetime ctx acc earlier))) :
    Orderly (legacyLog (lifetime ctx acc processes)) := by
  induction processes generalizing acc with
  | nil => cases acc <;> exact orderly_nil
  | cons process rest ih =>
    cases acc with
    | none => exact orderly_nil
    | some bundle =>
      have hrun := orderly_executeWithRetries ctx process.fuel bundle process.attempts
      have haft (earlier) : legacyLog (lifetime ctx (some bundle) (process :: earlier)) = _ :=
        legacyLog_append ..
      rw [haft]
      rcases rest with _ | ⟨process', rest⟩
      · rwa [legacyLog_lifetime_nil, List.append_nil]
      · refine hrun.append (fun _ => ?_) (ih _ fun earlier p later heq => ?_)
        · have hclear := hrest [process] process' rest rfl
          rwa [haft, legacyLog_lifetime_nil, List.append_nil] at hclear
        · have hclear := hrest (process :: earlier) p later (by rw [heq]; rfl)
          rw [haft] at hclear
          exact hclear.of_append

/-- **A legacy finalize is signed again only after the last one is known to have failed** — over all
processes, attempts and awaits of an intent, as long as none was left in doubt before and none is in
doubt when a process starts. -/
theorem signed_after_failure (ctx : ExecutionContext) (bundle : OutboxIntentBundle)
    (processes : List Process) (before after : List LegacyEvent) (acc : Pubkey)
    (outcome : Option (Option TransactionExecutionError))
    (h : legacyLog (lifetime ctx (some bundle) processes) = before ++ .signed acc outcome :: after)
    (hdoubt : NoDoubt before)
    (hrest : ∀ earlier process later, processes = earlier ++ process :: later →
      Clear (legacyLog (lifetime ctx (some bundle) earlier))) :
    lastFate before acc = none ∨ lastFate before acc = some .failed := by
  have hord := orderly_lifetime ctx (some bundle) processes hrest
  rw [h] at hord
  exact hord.fate_of_noDoubt hdoubt

namespace SettlementExample

/-- The commit of account 7 is refused since a legacy commit is not finalized. -/
def unfinalizedFailure : TransactionExecutionError :=
  .unfinalizedAccountError (.instructionError 0 .invalidArgument) (some 1)

/-- The finalize of account 7 fails with `err`; the retry finds the transaction refused, and the
account still unfinalized. -/
def refinalized (err : TransactionExecutionError) : List Process :=
  let building : List Answer := [.metadata (.ok []), .baseAccounts (.ok []), .metadata (.ok []),
    .timeLeft true, .fetched true]
  let repair (signature : Signature) : List Answer := [.prepared (.ok ⟨signature, 0⟩),
    .stageWritten .executed, .sent (.error unfinalizedFailure), .legacyPrepared (.ok ())]
  let first := building ++ repair 1 ++ [.sent (.error err)]
  let retry := .checked [.ok .rejected] :: building ++ .checked [.ok .rejected] :: repair 2 ++
    [.sent (.ok ())]
  [⟨9, [⟨true, first, true⟩, ⟨true, retry, true⟩]⟩]

def refinalizedLog (err : TransactionExecutionError) : List LegacyEvent :=
  legacyLog (lifetime ctx (some bundle) (refinalized err))

/-- The transaction was included, and failed. -/
def knownFailure : TransactionExecutionError :=
  .internalError (.magicBlockRpcClientError (.sentTransactionError (.other 0) 9))

/-- The connection broke. -/
def transportFailure : TransactionExecutionError :=
  .internalError (.magicBlockRpcClientError (.sendTransaction (.other 0)))

theorem refinalizedLog_knownFailure : refinalizedLog knownFailure =
    [.unfinalized [7], .signed 7 (some (some knownFailure)), .unfinalized [7]] ++
      .signed 7 (some none) :: [] := by
  decide +kernel

end SettlementExample

open SettlementExample in
/-- A finalize that failed on the chain is signed anew by the retry. -/
theorem signed_after_failure_retried :
    ∃ before, refinalizedLog knownFailure = before ++ .signed 7 (some none) :: [] ∧
      lastFate before 7 = some .failed := by
  refine ⟨_, refinalizedLog_knownFailure, ?_⟩
  refine (signed_after_failure ctx bundle (refinalized knownFailure) _ [] 7 (some none)
    refinalizedLog_knownFailure ?_ fun earlier process later heq => ?_).resolve_left (by decide)
  · have hfound : NoDoubt [.unfinalized [7]] :=
      noDoubt_nil.concat rfl fun _ _ hfate => by cases hfate
    have hsign : NoDoubt [.unfinalized [7], .signed 7 (some (some knownFailure))] :=
      hfound.concat rfl fun _ hmem => by cases hmem
    refine hsign.concat rfl fun acc hmem => ?_
    obtain rfl := List.mem_singleton.mp hmem
    decide
  · -- there is no second process
    obtain rfl : earlier = [] := by
      have hlen := congrArg List.length heq
      simp only [refinalized, List.length_append, List.length_cons, List.length_nil] at hlen
      exact List.eq_nil_of_length_eq_zero (by omega)
    exact fun _ hfate => by cases hfate

open SettlementExample in
/-- **A legacy finalize can be signed again while the last one may still land**: the send of the
first ends with a broken connection, and the retry signs a second one. -/
theorem signed_in_doubt : ∃ before, refinalizedLog transportFailure =
    before ++ .signed 7 (some none) :: [] ∧ lastFate before 7 = some .unknown :=
  ⟨[.unfinalized [7], .signed 7 (some (some transportFailure)), .unfinalized [7]],
    by decide +kernel, by decide⟩

end Magicblock
