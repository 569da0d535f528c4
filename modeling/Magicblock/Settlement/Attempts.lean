import Magicblock.Settlement.Moves
import Magicblock.Settlement.NoRepeat

/-!
# Settlement/Attempts — the attempts at an intent and its receipt

An attempt moves, and may end with the receipt that closes the outbox account.  Whether it closes
and whether it is repeated are two readings of the same error; they exclude each other, so that only
the last attempt of a run writes a receipt or reports callbacks.  `executeWithRetries_log` builds on
that: what holds of every attempt's log holds of the run's.
-/

namespace Magicblock

open List (append_nil mem_append_right mem_cons_self mem_singleton)

open Exec

/-- An error that closes the account is not one that may pass. -/
theorem IntentExecutorError.not_isTransient_of_isTerminal {err : IntentExecutorError}
    (h : err.isTerminal) : err.isTransient = false := by
  cases err with
  | failedExecution | taskBuilderError => exact Bool.eq_false_of_not_eq_true' h
  | getPendingSignatureStatusError | failedPreparation => cases h
  | _ => rfl

theorem IntentExecutionResult.not_isRetriable {res : IntentExecutionResult} {guard : Bool}
    (h : ∀ err, res.inner = .error err → err.isTransient = false) :
    res.isRetriable guard = false := by
  rw [isRetriable]
  split
  · rfl
  · rename_i err herr
    rw [h err herr]
    simp

section

/-! ### One attempt -/

variable {ctx : ExecutionContext} {intent : ScheduledIntentBundle} {s s' s₁ : Session} {fuel : ℕ}

/-- **How an attempt ends**: with its last move, or with a receipt. -/
inductive Ends (ctx : ExecutionContext) (intent : ScheduledIntentBundle) (s s' : Session) :
    Prop where
  | moved (h : Moves ctx intent true s s')
  | closed {s₁ : Session} {failure : Option IntentExecutorError} (h : Moves ctx intent true s s₁)
    (hlog : s'.log = s₁.log ++ [.notified failure]) (hexec : s'.executor = s₁.executor)
    (hfail : failure.isSome → intent.getAllCommittedPubkeys = [] ∨ s'.confirmedCommit.isSome)

namespace Settle

theorem meets_closeOutbox_ends {failure : Option IntentExecutorError}
    (h : Moves ctx intent true s s')
    (hfail : failure.isSome → intent.getAllCommittedPubkeys = [] ∨ s'.confirmedCommit.isSome) :
    (closeOutbox failure landed).Meets s' (fun _ s'' => Ends ctx intent s s'') E := by
  rw [closeOutbox, meets_ite]
  refine ⟨fun _ => ?_, fun _ => .moved h⟩
  rw [meets_bind, meets_modify, emit, meets_modify]
  exact .closed h rfl rfl hfail

/-- A receipt that fails is an outbox error. -/
theorem meets_notifyCommitSent_ends {failure : Option IntentExecutorError}
    (h : Moves ctx intent true s s')
    (hfail : failure.isSome → intent.getAllCommittedPubkeys = [] ∨ s'.confirmedCommit.isSome) :
    (notifyCommitSent failure).Meets s' (fun notified s'' => Ends ctx intent s s'' ∧
      ∀ err, notified = .error err → err.isTransient = false)
        fun _ s'' => Ends ctx intent s s'' := by
  rw [notifyCommitSent, meets_bind]
  have hnext : Follows (Awaits ctx intent true) next := follows_next_awaits
  refine (hnext s').mono (fun answer s₁ h₁ => ?_) fun _ _ h₁ => .moved (h.trans h₁.moves)
  have hmov := h.trans h₁.moves
  have hcom : s₁.confirmedCommit = s'.confirmedCommit :=
    congrArg (·.progress.confirmedCommit) h₁.report
  rw [← hcom] at hfail
  cases answer with
  | interrupted fate =>
    exact .bind (meets_closeOutbox_ends hmov hfail) fun _ _ h₂ => meets_interrupt fun _ => h₂
  | notified write =>
    cases write with
    | executed =>
      exact .bind (meets_closeOutbox_ends hmov hfail) fun _ _ h₂ => ⟨h₂, fun _ h => by cases h⟩
    | failed err landed =>
      refine .bind (meets_closeOutbox_ends hmov hfail) fun _ _ h₂ => ⟨h₂, ?_⟩
      intro _ heq
      obtain rfl := Except.error.inj heq
      rfl
  | _ => exact .moved hmov

/-- **Closing and repeating exclude each other.** -/
theorem meets_reportAndCloseIntent
    (h : Moves ctx intent true s s') : (reportAndCloseIntent intent res).Meets s'
      (fun res' s'' => Ends ctx intent s s'' ∧
        (res' = res ∧ s'' = s' ∨
          ∀ err, res' = .error err → err.isTransient = false))
      fun _ s'' => Ends ctx intent s s'' := by
  rw [reportAndCloseIntent, meets_bind, meets_get, meets_ite]
  refine ⟨fun _ => ⟨.moved h, .inl ⟨rfl, rfl⟩⟩, fun hcloses => ?_⟩
  have hfail : (failure res).isSome →
      intent.getAllCommittedPubkeys = [] ∨ s'.confirmedCommit.isSome := by
    intro hsome
    rcases res with err | output
    · have hcom := (Bool.or_eq_false_iff.mp (Bool.eq_false_of_not_eq_true hcloses)).2
      rcases Bool.and_eq_false_iff.mp hcom with hnone | hsett
      · exact .inl (List.isEmpty_iff.mp (by simpa using hnone))
      · exact .inr (by simpa using hsett)
    · cases hsome
  refine .bind (meets_notifyCommitSent_ends h hfail) fun notified s₁ h₁ => ?_
  refine ⟨h₁.1, .inr fun err herr => ?_⟩
  rcases notified with err' | _
  · obtain rfl : err' = err := Except.error.inj herr
    exact h₁.2 _ rfl
  · obtain rfl : res = .error err := herr
    have hterm := (Bool.or_eq_false_iff.mp (Bool.eq_false_of_not_eq_true hcloses)).1
    exact IntentExecutorError.not_isTransient_of_isTerminal (by simpa using hterm)

/-- **An attempt**: if it may be repeated, it has closed nothing, reported no callbacks and left no
legacy finalize in doubt. -/
theorem meets_executeIntent_ends {status : OutboxIntentBundleStatus} (hexec : s.executor = {})
    (hreps : reports s.log = []) (htidy : Tidy s.legacy) :
    (executeIntent ctx fuel intent status).Meets s
      (fun res s' => Ends ctx intent s s' ∧ ∀ guard, res.isRetriable guard →
        Moves ctx intent true s s' ∧ s'.report.callbacksReport = [] ∧ Tidy s'.legacy)
      fun _ s' => Ends ctx intent s s' := by
  rw [executeIntent, meets_bind]
  refine (meets_attempt (meets_executeInner_moves hexec hreps htidy)).mono
    (fun res s₁ h₁ => ?_) fun _ _ h₁ => .moved h₁.1
  have hmov : Moves ctx intent true s s₁ := by
    rcases res with err | output
    · exact h₁.1
    · exact h₁
  refine .bind (meets_reportAndCloseIntent hmov) fun res' s₂ h₂ => ?_
  rw [meets_bind, meets_get]
  refine ⟨h₂.1, fun guard hretr => ?_⟩
  rcases h₂.2 with ⟨rfl, rfl⟩ | hperm
  · rw [IntentExecutionResult.isRetriable] at hretr
    rcases res' with err | output
    · simp only [Bool.and_eq_true] at hretr
      exact ⟨hmov, by simpa using hretr.1.1.1, h₁.2 hretr.1.2⟩
    · cases hretr
  · rw [IntentExecutionResult.not_isRetriable hperm] at hretr
    cases hretr

end Settle

/-! ### The attempts of a run -/

/-- **Where an attempt starts**: at the work of the run, from what the account holds or, if it could
not be read, from what was known before. -/
structure Resumes (work : ScheduledIntentBundle) (intent stored : OutboxIntentBundle)
    (log : List Event) : Prop where
  inner : intent.inner = work
  storedInner : stored.inner = work
  opening : Opening log
  started : .started intent.status ∈ log
  account : Undisturbed log → stored = intent

theorem opening_openingLog {intent : OutboxIntentBundle} :
    Opening (openingLog number attempt intent) := by
  intro e he
  rw [openingLog] at he
  rcases List.mem_cons.mp he with rfl | he
  · rfl
  · split_ifs at he
    · obtain rfl := mem_singleton.mp he
      rfl
    · cases he

theorem reports_opening (h : Opening log) : reports log = [] := by
  refine List.filter_eq_nil_iff.mpr fun e he => ?_
  have hopen := h e he
  cases e with
  | reported => cases hopen
  | _ => exact Bool.false_ne_true

theorem Opening.legacyLog (h : Opening log) : legacyLog log = [] := by
  refine List.filterMap_eq_nil_iff.mpr fun e he => ?_
  have hopen := h e he
  cases e with
  | legacy => cases hopen
  | _ => rfl

theorem Opening.tidy (h : Opening log) : Tidy (Magicblock.legacyLog log) := by
  rw [h.legacyLog]
  exact fun _ _ hfate => by cases hfate

theorem resumes_intentOfAttempt (attempt : Attempt) {intent : OutboxIntentBundle}
    (hinner : intent.inner = work) (hstor : stored.inner = work)
    (hfst : number ≤ 1 → stored = intent) :
    Resumes work (intentOfAttempt number attempt (some stored) intent) stored
      (openingLog number attempt (intentOfAttempt number attempt (some stored) intent)) where
  inner := by
    unfold intentOfAttempt reconcileIntent
    split_ifs
    · exact hstor
    · exact hinner
    · exact hinner
  storedInner := hstor
  opening := opening_openingLog
  started := mem_cons_self
  account hu := by
    unfold intentOfAttempt reconcileIntent
    split_ifs with hnumb hfet
    · rfl
    · -- the failed read is in the opening
      refine absurd (List.mem_cons_of_mem _ ?_) hu.1
      rw [if_pos (by simp [hnumb, hfet])]
      exact List.mem_singleton_self _
    · exact hfst (not_lt.mp hnumb)

/-- The intent of the outbox account stays. -/
theorem Moves.inner (h : Moves ctx intent true s s') :
    s'.outbox.map (·.inner) = s.outbox.map (·.inner) := by
  refine h.keeps (fun s' => s'.outbox.map (·.inner) = s.outbox.map (·.inner)) ?_ rfl
  intro s₁ s₂ hs₁ hmove
  rw [← hs₁]
  cases hmove with
  | aside h => rw [h.outbox]
  | store hs h => rw [hs, Option.map_some, Option.map_some, h]
  | trimCurrent | trimFollowUp => unfold Session.reportCallbacks; split <;> rfl
  | _ => rfl

theorem meets_executeIntent_resumes {intent : OutboxIntentBundle}
    (h : Resumes work intent stored opening)
    (hs : s = { answers, outbox := some stored, log := opening }) :
    (Settle.executeIntent ctx fuel intent.inner intent.status).Meets s
      (fun res s' => Ends ctx work s s' ∧ ∀ guard, res.isRetriable guard →
        Moves ctx work true s s' ∧ s'.report.callbacksReport = [] ∧ Tidy s'.legacy)
      fun _ s' => Ends ctx work s s' := by
  subst hs
  rw [← h.inner]
  exact Settle.meets_executeIntent_ends rfl (reports_opening h.opening) h.opening.tidy

/-- An attempt that may be repeated has only moved, and left nothing in doubt. -/
theorem retried_runAttempt {intent : OutboxIntentBundle} {guard : Bool}
    (h : Resumes work intent stored opening)
    (hrun : runAttempt ctx fuel intent (some stored) opening answers = (.ok res, s'))
    (hretr : res.isRetriable guard) :
    Moves ctx work true { answers := answers, outbox := some stored, log := opening } s' ∧
      s'.report.callbacksReport = [] ∧ Tidy s'.legacy := by
  exact ((meets_executeIntent_resumes h rfl).of_ok hrun).2 guard hretr

/-- **A run, attempt by attempt**: what holds of every attempt's log, and of one such log behind
those of attempts that were repeated, holds of the log of the run. -/
theorem executeWithRetries_log {P Q : List Event → Prop} (hnil : P [])
    (happ : ∀ l l', P l → Q l → P l' → P (l ++ l'))
    (hatt : ∀ intent stored opening answers, Resumes work intent stored opening →
      P (runAttempt ctx fuel intent (some stored) opening answers).2.log)
    (hretried : ∀ intent stored opening answers res guard s',
      Resumes work intent stored opening →
      runAttempt ctx fuel intent (some stored) opening answers = (.ok res, s') →
      res.isRetriable guard → Q s'.log)
    (attempts : List Attempt) {intent : OutboxIntentBundle} (hinner : intent.inner = work)
    (hstor : stored.inner = work) (hnumb : 0 < number) (hfst : number ≤ 1 → stored = intent) :
    P (executeWithRetries ctx fuel number intent (some stored) attempts).1 := by
  induction attempts generalizing number intent stored with
  | nil => exact hnil
  | cons attempt rest ih =>
    have hress := resumes_intentOfAttempt attempt hinner hstor hfst
    rw [executeWithRetries]
    set current := intentOfAttempt number attempt (some stored) intent
    set opening := openingLog number attempt current
    have hlog := hatt current stored opening attempt.answers hress
    rcases hrun : runAttempt ctx fuel current (some stored) opening attempt.answers with
      ⟨_ | res, s⟩
    · rwa [hrun] at hlog
    · rw [hrun] at hlog
      dsimp only
      split_ifs with hlast
      · exact hlog
      · -- the attempt is repeated, on the account it has left
        have hretr : res.isRetriable (!intent.getAllCommittedPubkeys.isEmpty) := by
          simp only [Bool.or_eq_true, not_or] at hlast
          simpa using hlast.1.2
        have hmov := (retried_runAttempt hress hrun hretr).1
        obtain ⟨stored', hstor', hinner'⟩ := Option.map_eq_some_iff.mp
          (hmov.inner.trans (congrArg some hress.storedInner))
        rw [hstor']
        refine happ _ _ hlog (hretried _ _ _ _ _ _ _ hress hrun hretr) ?_
        exact ih hress.inner hinner' (Nat.succ_pos number) fun hle => by omega

/-! ### The receipt -/

/-- No receipt so far. -/
def Unreceipted (log : List Event) : Prop := ∀ failure, .notified failure ∉ log

/-- **A receipt is the last event**, and a failure is only reported if nothing is committed or the
commit has landed. -/
def Receipted (committed : List Pubkey) (log : List Event) : Prop :=
  ∀ before failure after, log = before ++ .notified failure :: after →
    Unreceipted before ∧ after = [] ∧ (failure.isSome → committed = [] ∨
      ∃ status commit, .started status ∈ before ∧ CommitConfirmed status before commit)

theorem Unreceipted.append (h : Unreceipted log) (h' : Unreceipted log') :
    Unreceipted (log ++ log') := by
  intro failure hmem
  rcases List.mem_append.mp hmem with hmem | hmem
  · exact h failure hmem
  · exact h' failure hmem

theorem Unreceipted.receipted (h : Unreceipted log) : Receipted committed log := by
  rintro before failure after rfl
  exact absurd (mem_append_right _ mem_cons_self) (h failure)

theorem Receipted.append (h : Unreceipted log) (h' : Receipted committed log') :
    Receipted committed (log ++ log') := by
  intro before failure after heq
  rcases append_eq_append_cons heq with ⟨after', rfl⟩ | ⟨middle, rfl, rfl⟩
  · exact absurd (mem_append_right _ mem_cons_self) (h failure)
  · obtain ⟨hnone, hlast, hfail⟩ := h' middle failure after rfl
    refine ⟨h.append hnone, hlast, fun hsome => (hfail hsome).imp_right ?_⟩
    rintro ⟨status, commit, hstart, hcom⟩
    exact ⟨status, commit, mem_append_right _ hstart,
      hcom.imp_right fun hmem => mem_append_right _ hmem⟩

theorem Receipted.concat {failure : Option IntentExecutorError} (h : Unreceipted log)
    (hfail : failure.isSome → committed = [] ∨
      ∃ status commit, .started status ∈ log ∧ CommitConfirmed status log commit) :
    Receipted committed (log ++ [.notified failure]) := by
  intro before failure' after heq
  rcases concat_eq_append_cons heq with ⟨after', -, rfl⟩ | ⟨rfl, hnot, rfl⟩
  · exact absurd (mem_append_right _ mem_cons_self) (h failure')
  · obtain rfl := Event.notified.inj hnot
    exact ⟨h, rfl, hfail⟩

theorem unreceipted_nil : Unreceipted [] := fun _ hmem => by cases hmem

theorem unreceipted_singleton (h : ∀ failure, e ≠ .notified failure) : Unreceipted [e] :=
  fun failure hmem => h failure (mem_singleton.mp hmem).symm

theorem Opening.unreceipted (h : Opening log) : Unreceipted log := by
  intro failure hmem
  cases h _ hmem

/-- A move adds to the log, and no receipt. -/
theorem Move.log (h : Move ctx intent true s s') : ∃ events, s'.log = s.log ++ events ∧
    Unreceipted events := by
  have hrep (tasks : List Task) (sig : Option Signature)
      (res : Except ActionError Unit) : ∃ events,
      (s.reportCallbacks ctx tasks sig res).log = s.log ++ events ∧
        Unreceipted events := by
    unfold Session.reportCallbacks
    split
    · exact ⟨[], (append_nil _).symm, unreceipted_nil⟩
    · exact ⟨_, rfl, unreceipted_singleton fun _ heq => by cases heq⟩
  cases h with
  | aside h => exact ⟨[], h.log.trans (append_nil _).symm, unreceipted_nil⟩
  | note h => exact ⟨_, rfl, unreceipted_singleton fun _ heq => by rw [heq] at h; cases h⟩
  | legacy | submit => exact ⟨_, rfl, unreceipted_singleton fun _ heq => by cases heq⟩
  | trimCurrent | trimFollowUp => exact hrep ..
  | _ => exact ⟨[], (append_nil _).symm, unreceipted_nil⟩

theorem Moves.log (h : Moves ctx intent true s s') : ∃ events, s'.log = s.log ++ events ∧
    Unreceipted events := by
  induction h with
  | refl => exact ⟨[], (append_nil _).symm, unreceipted_nil⟩
  | tail _ hmove ih =>
    obtain ⟨events, hlog, hevs⟩ := ih
    obtain ⟨events', hlog', hevs'⟩ := hmove.log
    exact ⟨events ++ events', by rw [hlog', hlog, List.append_assoc], hevs.append hevs'⟩

theorem Moves.unreceipted (h : Moves ctx intent true s s') (hs : Unreceipted s.log) :
    Unreceipted s'.log := by
  obtain ⟨events, hlog, hevs⟩ := h.log
  exact hlog ▸ hs.append hevs

variable (ctx fuel) in
theorem ends_runAttempt {intent : OutboxIntentBundle} (answers : List Answer)
    (h : Resumes work intent stored opening) :
    Ends ctx work { answers := answers, outbox := some stored, log := opening }
      (runAttempt ctx fuel intent (some stored) opening answers).2 := by
  exact ((meets_executeIntent_resumes h rfl).mono (fun _ _ h' => h'.1) fun _ _ => id).final

theorem receipted_runAttempt {intent : OutboxIntentBundle}
    (h : Resumes work intent stored opening) :
    Receipted work.getAllCommittedPubkeys
      (runAttempt ctx fuel intent (some stored) opening answers).2.log := by
  have hsound := sound_runAttempt ctx fuel answers h.opening fun hu => congrArg some (h.account hu)
  rcases ends_runAttempt ctx fuel answers h with hmov | ⟨hmov, hlog, -, hfail⟩
  · exact (hmov.unreceipted h.opening.unreceipted).receipted
  · rw [hlog]
    refine .concat (hmov.unreceipted h.opening.unreceipted) fun hsome => ?_
    refine (hfail hsome).imp_right fun hcom => ?_
    obtain ⟨commit, hcom⟩ := Option.isSome_iff_exists.mp hcom
    obtain ⟨events, hevs, -⟩ := hmov.log
    refine ⟨intent.status, commit, hevs ▸ List.mem_append_left _ h.started, ?_⟩
    refine (hsound.confirmed commit hcom).imp_right fun hmem => ?_
    rw [show Standing.log _ = _ from hlog] at hmem
    rcases List.mem_append.mp hmem with hmem | hmem
    · exact hmem
    · cases mem_singleton.mp hmem

/-- **The receipt of a run comes last, and once.**  A run writes no receipt before its last event;
one that tells of a failure is written only for an intent that commits nothing or whose commit has
landed. -/
theorem receipt_ends_run (ctx : ExecutionContext) (fuel : ℕ) (bundle : OutboxIntentBundle)
    (attempts : List Attempt) (before after : List Event) (failure : Option IntentExecutorError)
    (h : (executeWithRetries ctx fuel 1 bundle (some bundle) attempts).1 =
      before ++ .notified failure :: after) :
    (∀ failure', .notified failure' ∉ before) ∧ after = [] ∧
      (failure.isSome → bundle.getAllCommittedPubkeys = [] ∨
        ∃ status commit, .started status ∈ before ∧ CommitConfirmed status before commit) := by
  have hlog : Receipted bundle.getAllCommittedPubkeys
      (executeWithRetries ctx fuel 1 bundle (some bundle) attempts).1 :=
    executeWithRetries_log unreceipted_nil.receipted (fun _ _ _ => Receipted.append)
      (fun _ _ _ answers => receipted_runAttempt)
      (fun _ _ _ _ _ _ _ h hrun hretr =>
        (retried_runAttempt h hrun hretr).1.unreceipted h.opening.unreceipted)
      attempts rfl rfl Nat.one_pos fun _ => rfl
  exact hlog before failure after h

end

namespace SettlementExample

/-- An accepted intent that only runs the action. -/
def actionBundle : OutboxIntentBundle :=
  .accepted
    { intentId := 2
      slot := 0
      blockhash := 0
      payer := 0
      intentBundle := { standaloneActions := [action] } }
    255

def actionFailure : TransactionExecutionError :=
  .actionsError (.instructionError 0 .invalidArgument) (some 1)

/-- The action is sent once and fails. -/
def failedAction : Attempt where
  fetched := true
  answers :=
    [.metadata (.ok []), .baseAccounts (.ok []), .timeLeft true, .fetched true,
      .prepared (.ok ⟨1, 0⟩), .stageWritten .executed, .sent (.error actionFailure),
      .notified .executed]
  permit := true

def failedActionLog : List Event :=
  (executeWithRetries ctx 9 1 actionBundle (some actionBundle) [failedAction]).1

theorem failedActionLog_eq : failedActionLog =
    failedActionLog.dropLast ++ [.notified (some (.failedExecution actionFailure))] := by
  decide +kernel

end SettlementExample

open SettlementExample in
/-- The receipt of an action that failed. -/
theorem receipt_ends_run_action :
    failedActionLog = failedActionLog.dropLast ++
        [.notified (some (.failedExecution actionFailure))] ∧
      ∀ failure, .notified failure ∉ failedActionLog.dropLast :=
  ⟨failedActionLog_eq, (receipt_ends_run ctx 9 actionBundle [failedAction] _ [] _
    failedActionLog_eq).1⟩

end Magicblock
