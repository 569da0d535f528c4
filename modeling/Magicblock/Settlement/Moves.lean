import Magicblock.Settlement.Actions
import Magicblock.Settlement.Fates

/-!
# Settlement/Moves — all that an execution can do

Between two looks at a session everything that happened is a sequence of moves, of ten kinds.  The
kinds say what becomes of the log, the outbox account, the callbacks and the work that is left; what
holds of every execution is then shown kind by kind (`Moves.keeps`).

A finalize of a legacy commit may stop the code.  `Goes` says that code moves and goes on only with
nothing in doubt; what has nothing to do with legacy commits (`mends = false`) does.
-/

namespace Magicblock

open Exec

/-! ### Moves -/

/-- Everything that an execution has left to do. -/
def TransactionExecutor.allTasks (x : TransactionExecutor) : List Task :=
  x.current.tasks ++ (x.followUp.map (·.tasks)).getD []

/-- The executor has no work but that of the intent, and has prepared nothing. -/
def Planned (intent : ScheduledIntentBundle) (x : TransactionExecutor) : Prop :=
  OfIntent intent x.allTasks ∧ x.preparations = []

/-- Nothing changes but bookkeeping. -/
structure SameWork (s s' : Session) : Prop where
  outbox : s'.outbox = s.outbox
  log : s'.log = s.log
  callbacksReport : s'.report.callbacksReport = s.report.callbacksReport
  current : s'.executor.current = s.executor.current
  followUp : s'.executor.followUp = s.executor.followUp
  preparations : s'.executor.preparations = s.executor.preparations ∨
    s'.executor.preparations = s.executor.preparations ++ [s.executor.current]

/-- Events that concern neither the work nor its receipt. -/
def Event.isNote : Event → Bool
  | submitted _ _ | reported _ _ _ | notified _ | legacy _ => false
  | _ => true

/-- `reportCallbacks`, as a change of the session. -/
def Session.reportCallbacks (s : Session) (ctx : ExecutionContext) (tasks : List Task)
    (signature : Option Signature) (result : Except ActionError Unit) : Session :=
  if (callbacksOf tasks).isEmpty then s
  else
    { s with
      log := s.log ++ [.reported (tasks.filter fun task => task.extractCallback.1.isSome)
        (callbacksOf tasks) (failure result)]
      report :=
        { s.report with
          callbacksReport :=
            s.report.callbacksReport ++ ctx.schedule (callbacksOf tasks) signature result } }

/-- The events of a log that report callbacks. -/
def reports (log : List Event) : List Event :=
  log.filter fun
    | .reported _ _ _ => true
    | _ => false

/-- **One thing an execution can do**; only code that `mends` has to do with legacy commits. -/
inductive Move (ctx : ExecutionContext) (intent : ScheduledIntentBundle) (mends : Bool) :
    Session → Session → Prop where
  | aside (h : SameWork s s') : Move ctx intent mends s s'
  | note (h : e.isNote) : Move ctx intent mends s { s with log := s.log ++ [e] }
  | legacy (h : mends) (hsign : ∀ account outcome, event = .signed account outcome →
      Certain s.legacy → Clear s.legacy ∧ Blamed s.legacy account) :
    Move ctx intent mends s { s with log := s.log ++ [.legacy event] }
  | store {bundle bundle' : OutboxIntentBundle} (hs : s.outbox = some bundle)
    (h : bundle'.inner = bundle.inner) :
    Move ctx intent mends s { s with outbox := some bundle' }
  | submit :
    Move ctx intent mends s { s with log := s.log ++ [.submitted p s.executor.current.tasks] }
  | trimCurrent {gone : List Task} {strategy : TransactionStrategy}
    {signature : Option Signature} {result : Except ActionError Unit}
    (h : Yields (failure result) s.executor.current.tasks gone strategy.tasks) :
    Move ctx intent mends s
      { s.reportCallbacks ctx gone signature result with
        executor := { s.executor with current := strategy } }
  | trimFollowUp {followUp strategy : TransactionStrategy} {gone : List Task}
    {signature : Option Signature} {result : Except ActionError Unit}
    (hfu : s.executor.followUp = some followUp)
    (h : Yields (failure result) followUp.tasks gone strategy.tasks) :
    Move ctx intent mends s
      { s.reportCallbacks ctx gone signature result with
        executor := { s.executor with followUp := some strategy } }
  | split (h : s.executor.followUp = none) : Move ctx intent mends s
      { s with executor :=
        { s.executor with
          current := (s.executor.current.splitForFollowUp ctx.assembler).1
          followUp := some (s.executor.current.splitForFollowUp ctx.assembler).2 } }
  | advance {followUp : TransactionStrategy} (h : s.executor.followUp = some followUp) :
    Move ctx intent mends s
      { s with executor := { s.executor with current := followUp, followUp := none } }
  | start {x : TransactionExecutor} (hexec : s.executor = {})
    (hreps : reports s.log = []) (h : Planned intent x) :
    Move ctx intent mends s { s with executor := x }

/-- Any number of moves. -/
def Moves (ctx : ExecutionContext) (intent : ScheduledIntentBundle) (mends : Bool) :
    Session → Session → Prop :=
  Relation.ReflTransGen (Move ctx intent mends)

variable {ctx : ExecutionContext} {intent : ScheduledIntentBundle} {mends : Bool} {s s' : Session}
  {α : Type}

instance : IsPreorder Session (Moves ctx intent mends) where
  refl _ := .refl
  trans _ _ _ := .trans

/-- What has nothing to do with legacy commits is no exception… -/
theorem Moves.withMends (h : Moves ctx intent false s s') : Moves ctx intent mends s s' := by
  refine Relation.ReflTransGen.mono (fun s s' hmove => ?_) s s' h
  cases hmove with
  | aside h => exact .aside h
  | note h => exact .note h
  | legacy h => cases h
  | store hs h => exact .store hs h
  | submit => exact .submit
  | trimCurrent h => exact .trimCurrent h
  | trimFollowUp hfu h => exact .trimFollowUp hfu h
  | split h => exact .split h
  | advance h => exact .advance h
  | start hexec hreps h => exact .start hexec hreps h

/-- **What every move keeps, an execution keeps.** -/
theorem Moves.keeps (I : Session → Prop)
    (hstep : ∀ {s s'}, I s → Move ctx intent mends s s' → I s') (h : Moves ctx intent mends s s')
    (hI : I s) : I s' := by
  induction h with
  | refl => exact hI
  | tail _ hmove ih => exact hstep ih hmove

/-- …and leaves their log alone. -/
theorem Move.legacy_cases (h : Move ctx intent mends s s') : s'.legacy = s.legacy ∨
    mends ∧ ∃ event, s'.legacy = s.legacy ++ [event] ∧ ∀ acc outcome,
      event = .signed acc outcome → Certain s.legacy → Clear s.legacy ∧ Blamed s.legacy acc := by
  cases h with
  | legacy h hsign => exact .inr ⟨h, _, legacy_emit, hsign⟩
  | aside h => exact .inl (by rw [Session.legacy, h.log, Session.legacy])
  | note h =>
    refine .inl (legacyLog_concat fun event heq => ?_)
    rw [heq] at h
    cases h
  | submit => exact .inl (legacyLog_concat fun _ heq => by cases heq)
  | trimCurrent | trimFollowUp =>
    unfold Session.reportCallbacks
    split
    · exact .inl rfl
    · exact .inl (legacyLog_concat fun _ heq => by cases heq)
  | store | split | advance | start => exact .inl rfl

/-- Without repairs nothing is logged of legacy commits. -/
theorem Moves.legacy_eq (h : Moves ctx intent false s s') : s'.legacy = s.legacy := by
  refine h.keeps (fun s' => s'.legacy = s.legacy) (fun {s₁ s₂} hs₁ hmove => ?_) rfl
  rcases hmove.legacy_cases with heq | ⟨hmends, -⟩
  · exact heq.trans hs₁
  · cases hmends

theorem Moves.tidy (h : Moves ctx intent false s s') (hs : Tidy s.legacy) : Tidy s'.legacy :=
  h.legacy_eq ▸ hs

/-- Bookkeeping is a move… -/
theorem SameWork.moves (h : SameWork s s') : Moves ctx intent mends s s' := .single (.aside h)

/-- Moves that leave the executor alone and report no callbacks. -/
structure Idles (ctx : ExecutionContext) (intent : ScheduledIntentBundle) (mends : Bool)
    (s s' : Session) : Prop where
  moves : Moves ctx intent mends s s'
  executor : s'.executor = s.executor
  reports : reports s'.log = reports s.log

theorem Idles.withMends (h : Idles ctx intent false s s') : Idles ctx intent mends s s' :=
  ⟨h.moves.withMends, h.executor, h.reports⟩

instance : IsPreorder Session (Idles ctx intent mends) where
  refl _ := ⟨.refl, rfl, rfl⟩
  trans _ _ _ h h' :=
    ⟨h.moves.trans h'.moves, h'.executor.trans h.executor, h'.reports.trans h.reports⟩

/-- …and idle, if it leaves the executor alone. -/
theorem SameWork.idles (h : SameWork s s') (hexec : s'.executor = s.executor) :
    Idles ctx intent mends s s' :=
  ⟨h.moves, hexec, by rw [h.log]⟩

/-- Other events add nothing to the reports. -/
theorem reports_concat (h : ∀ actions callbacks failure, e ≠ .reported actions callbacks failure) :
    reports (log ++ [e]) = reports log := by
  have hreps : reports [e] = [] := by
    cases e with
    | reported actions callbacks failure => exact absurd rfl (h actions callbacks failure)
    | _ => rfl
  rw [reports, List.filter_append]
  exact (congrArg (reports log ++ ·) hreps).trans (List.append_nil _)

theorem reports_note (h : e.isNote) : reports (log ++ [e]) = reports log :=
  reports_concat fun _ _ _ heq => by
    rw [heq] at h
    cases h

theorem idles_note (h : e.isNote) : Idles ctx intent mends s { s with log := s.log ++ [e] } :=
  ⟨.single (.note h), rfl, reports_note h⟩

/-- A stage is stored in an account of the same intent. -/
theorem staged_eq_some (h : s.staged stage nonces = some bundle') :
    ∃ bundle, s.outbox = some bundle ∧ bundle'.inner = bundle.inner := by
  obtain ⟨bundle, hbun, hstg⟩ := Option.bind_eq_some_iff.mp h
  rw [OutboxIntentBundle.applyStageTransition] at hstg
  cases hstat : bundle.status.applyStageTransition stage with
  | error err => rw [hstat] at hstg; cases hstg
  | ok status =>
    rw [hstat] at hstg
    exact ⟨bundle, hbun, by rw [← Option.some.inj hstg]⟩

/-- What can happen while code waits. -/
structure Awaits (ctx : ExecutionContext) (intent : ScheduledIntentBundle) (mends : Bool)
    (s s' : Session) : Prop extends Idles ctx intent mends s s' where
  report : s'.report = s.report

instance : IsPreorder Session (Awaits ctx intent mends) where
  refl s := ⟨refl_of (Idles ctx intent mends) s, rfl⟩
  trans _ _ _ h h' := ⟨trans_of (Idles ctx intent mends) h.toIdles h'.toIdles,
    h'.report.trans h.report⟩

/-- A stage is stored while code waits… -/
theorem awaits_land : Awaits ctx intent mends s (s.land stage nonces) := by
  unfold Session.land
  rcases hstag : s.staged stage nonces with _ | bundle'
  · exact refl_of (Awaits ctx intent mends) s
  · obtain ⟨bundle, hbun, hinner⟩ := staged_eq_some hstag
    have hstore : Idles ctx intent mends s { s with outbox := some bundle' } :=
      ⟨.single (.store hbun hinner), rfl, rfl⟩
    exact ⟨trans_of (Idles ctx intent mends) hstore (idles_note rfl), rfl⟩

/-- …or a detached write arrives. -/
theorem awaits_arrive : Awaits ctx intent mends s s.arrive := by
  unfold Session.arrive
  rcases s.detached with _ | ⟨⟨stage, nonces⟩, rest⟩
  · exact refl_of (Awaits ctx intent mends) s
  · have haside : Awaits ctx intent mends s { s with detached := rest } :=
      ⟨SameWork.idles ⟨rfl, rfl, rfl, rfl, rfl, .inl rfl⟩ rfl, rfl⟩
    exact trans_of (Awaits ctx intent mends) haside awaits_land

namespace Settle

/-! ### Waiting -/

/-- Whatever comes before an answer leaves the executor and the report alone. -/
theorem follows_nextOf : Follows (Awaits ctx intent mends) (nextOf answers) := by
  induction answers using nextOf.induct with
  | case1 => exact .throw
  | case2 rest ih =>
    rw [nextOf]
    exact .bind (.modify fun _ => awaits_arrive) fun _ => ih
  | case3 answer rest hne =>
    rw [nextOf]
    · exact .bind (.modify fun _ => ⟨SameWork.idles ⟨rfl, rfl, rfl, rfl, rfl, .inl rfl⟩ rfl, rfl⟩)
        fun _ => .pure
    · exact hne

theorem follows_next_awaits : Follows (Awaits ctx intent mends) next :=
  .read fun _ => follows_nextOf

theorem follows_next : Follows (Idles ctx intent mends) next :=
  follows_next_awaits.mono fun _ _ => Awaits.toIdles

theorem follows_interrupt : Follows (Idles ctx intent mends) (interrupt : Settle α) :=
  .read fun _ => .ite .throw .throw

/-- The answer may be an interruption. -/
theorem follows_await : Follows (Idles ctx intent mends) (await f) := by
  refine .bind follows_next fun answer => ?_
  cases answer with
  | interrupted => exact follows_interrupt
  | _ => exact .ofOption

theorem follows_emit (h : e.isNote) : Follows (Idles ctx intent mends) (emit e) :=
  .modify fun _ => idles_note h

theorem follows_orFail : Follows (Idles ctx intent mends) (orFail x) :=
  .ofExcept

theorem follows_setTransaction : Follows (Idles ctx intent mends) (setTransaction t) :=
  .modify fun _ => SameWork.idles ⟨rfl, rfl, rfl, rfl, rfl, .inl rfl⟩ rfl

theorem follows_setProgress : Follows (Idles ctx intent mends) (setProgress progress) :=
  .modify fun _ => SameWork.idles ⟨rfl, rfl, rfl, rfl, rfl, .inl rfl⟩ rfl

theorem follows_addPatchedError : Follows (Idles ctx intent mends) (addPatchedError err) :=
  .modify fun _ => SameWork.idles ⟨rfl, rfl, rfl, rfl, rfl, .inl rfl⟩ rfl

/-! ### Callbacks -/

/-- Reporting callbacks does not fail. -/
theorem meets_reportCallbacks_iff :
    (reportCallbacks ctx tasks (callbacksOf tasks) sig res).Meets s Q E ↔
      Q () (s.reportCallbacks ctx tasks sig res) := by
  rw [reportCallbacks, Session.reportCallbacks]
  split_ifs <;> rfl

theorem meets_handleActionsResult_iff :
    (handleActionsResult ctx strategy sig res).Meets s Q E ↔ Q (actionsResult ctx strategy res).2
        (s.reportCallbacks ctx strategy.tasks sig res) := by
  have hcbs : (actionsResult ctx strategy res).1 = callbacksOf strategy.tasks := by
    unfold actionsResult
    split <;> rfl
  rw [handleActionsResult, hcbs, meets_bind, meets_reportCallbacks_iff, meets_pure]

theorem executor_reportCallbacks : (s.reportCallbacks ctx tasks sig res).executor = s.executor := by
  rw [Session.reportCallbacks]
  split_ifs <;> rfl

theorem reportCallbacks_setExecutor :
    Session.reportCallbacks { s with executor := x } ctx tasks sig res =
      { s.reportCallbacks ctx tasks sig res with executor := x } := by
  rw [Session.reportCallbacks, Session.reportCallbacks]
  split_ifs <;> rfl

/-- The callbacks of the second stage are reported. -/
theorem meets_handleFollowUpResult_moves (h : Moves ctx intent mends s s') :
    (handleFollowUpResult ctx sig res).Meets s' (fun _ => Moves ctx intent mends s) E := by
  rw [handleFollowUpResult, meets_bind, meets_get]
  split
  · rename_i followUp hfu
    rw [meets_bind, meets_handleActionsResult_iff, setExecutor, meets_modify,
      executor_reportCallbacks]
    exact h.tail (.trimFollowUp hfu yields_actionsResult)
  · exact h

/-- Callbacks do not stop the code. -/
theorem meets_executeCallbacks_moves :
    (executeCallbacks ctx sig res).Meets s (fun _ => Moves ctx intent mends s) E := by
  rw [executeCallbacks, meets_bind, meets_get, meets_bind, meets_handleActionsResult_iff,
    meets_bind, setExecutor, meets_modify, executor_reportCallbacks]
  exact meets_handleFollowUpResult_moves (.single (.trimCurrent yields_actionsResult))

theorem meets_reportResult_moves :
    (reportResult ctx isOk res).Meets s (fun _ => Moves ctx intent mends s) E := by
  rw [reportResult, meets_bind, meets_get, meets_ite]
  exact ⟨fun _ => meets_executeCallbacks_moves, fun _ => .refl⟩

/-! ### The executor -/

theorem moves_of_idles (h : Follows (Idles ctx intent mends) m) :
    Follows (Moves ctx intent mends) m :=
  h.mono fun _ _ => Idles.moves

/-- A stage write that is cut off is lost, lands, or is left behind. -/
theorem follows_cutOffStage : Follows (Idles ctx intent mends) (cutOffStage fate stage nonces) := by
  cases fate with
  | lost => exact .pure
  | landed => exact .modify fun _ => awaits_land.toIdles
  | detached =>
    exact .bind (.modify fun _ => SameWork.idles ⟨rfl, rfl, rfl, rfl, rfl, .inl rfl⟩ rfl)
      fun _ => follows_emit rfl

theorem follows_setIntentExecutionStage :
    Follows (Idles ctx intent mends) (setIntentExecutionStage stage nonces) := by
  refine .read fun s => .bind (follows_emit rfl) fun _ => ?_
  refine .bind follows_next fun answer => ?_
  cases answer with
  | interrupted fate => exact .bind follows_cutOffStage fun _ => follows_interrupt
  | stageWritten write =>
    cases write with
    | executed => exact .read fun _ => .ite (.modify fun _ => awaits_land.toIdles) .throw
    | failed err landed => exact .bind follows_cutOffStage fun _ => .throw
  | _ => exact .throw

theorem follows_recoverPendingFromOutbox :
    Follows (Idles ctx intent mends) recoverPendingFromOutbox := by
  refine .bind follows_await fun ok => .ite ?_ ?_
  · exact .read fun _ => .pure
  · exact .bind (follows_emit rfl) fun _ => .pure

theorem follows_resolvePending : Follows (Idles ctx intent mends) (resolvePending p) :=
  .bind follows_await fun _ => .bind .ofOption fun _ => follows_orFail

theorem follows_setPending : Follows (Moves ctx intent mends)
      (setExecutor fun x => { x with pendingTransaction := pending }) :=
  .modify fun _ => SameWork.moves ⟨rfl, rfl, rfl, rfl, rfl, .inl rfl⟩

theorem follows_reconcileOutbox :
    Follows (Moves ctx intent mends) (reconcileOutbox reconciled) := by
  refine .read fun s => .ite ?_ .pure
  exact .bind (moves_of_idles follows_recoverPendingFromOutbox)
    fun _ => .bind follows_setPending fun _ => .pure

/-- A pending transaction has landed, or is given up. -/
theorem follows_settlePending : Follows (Moves ctx intent mends) settlePending := by
  refine .read fun s => ?_
  rcases s.executor.pendingTransaction with _ | p
  · exact .pure
  · refine .bind (moves_of_idles follows_setTransaction) fun _ => ?_
    refine .bind (moves_of_idles follows_resolvePending) fun landed => .ite ?_ ?_
    · exact moves_of_idles
        (.bind follows_setTransaction fun _ => .bind (follows_emit rfl) fun _ => .pure)
    · refine .bind (moves_of_idles follows_setTransaction) fun _ => ?_
      exact .bind (moves_of_idles (follows_emit rfl)) fun _ => .bind follows_setPending
        fun _ => .pure

theorem follows_nothingLeft : Follows (Moves ctx intent mends) (nothingLeft commit) :=
  .read fun _ => .ite .pure .pure

/-- A transaction is recorded before it is sent. -/
theorem follows_prepareAndRecord :
    Follows (Moves ctx intent mends) (prepareAndRecord commit hasFollowUp) := by
  refine .bind (.modify fun _ => SameWork.moves ⟨rfl, rfl, rfl, rfl, rfl, .inr rfl⟩)
    fun _ => moves_of_idles ?_
  refine .bind follows_await fun _ => .bind follows_orFail fun _ => ?_
  refine .bind follows_setTransaction fun _ => .bind (follows_emit rfl) fun _ => .read fun _ => ?_
  exact .bind follows_setIntentExecutionStage fun _ => .pure

theorem follows_submit : Follows (Moves ctx intent mends) (submit p) := by
  refine .bind follows_setPending fun _ => .bind (moves_of_idles follows_setTransaction) fun _ => ?_
  refine .get_bind fun s => ?_
  rw [meets_bind, emit, meets_modify]
  refine Follows.after ?_ (.single .submit)
  exact .bind (moves_of_idles follows_await) fun _ => .bind follows_setPending fun _ => .pure

/-! ### Legacy commits -/

/-- Code without repairs brings nothing into doubt. -/
theorem tidies_of_moves (h : Follows (Moves ctx intent false) m) :
    Tidies (Moves ctx intent true) m :=
  fun s hs => (h s).mono (fun _ _ h' => ⟨h'.withMends, h'.tidy hs⟩)
    fun _ _ h' => ⟨h'.withMends, fun _ => h'.tidy hs⟩

theorem tidies_of_idles (h : Follows (Idles ctx intent false) m) :
    Tidies (Idles ctx intent true) m :=
  fun s hs => (h s).mono (fun _ _ h' => ⟨h'.withMends, h'.moves.tidy hs⟩)
    fun _ _ h' => ⟨h'.withMends, fun _ => h'.moves.tidy hs⟩

/-- Code that is cut off goes on with nothing in doubt. -/
theorem tidies_timeout {m : Settle α} (h : Tidies (Moves ctx intent true) m) :
    Tidies (Moves ctx intent true) (timeout m) := by
  intro s hs
  have haside (s : Session) (cancellable : Bool) :
      Moves ctx intent true s { s with cancellable := cancellable } :=
    SameWork.moves ⟨rfl, rfl, rfl, rfl, rfl, .inl rfl⟩
  rw [timeout, meets_bind, meets_modify, meets_handle]
  refine (h.after (haside s true) hs).mono (fun a s' h' => ?_) fun halt s' h' => ?_
  · exact ⟨h'.1.trans (haside s' false), h'.2⟩
  · rw [meets_bind, meets_modify]
    cases halt with
    | timedOut => exact ⟨h'.1.trans (haside s' false), h'.2 rfl⟩
    | error | stopped => exact ⟨h'.1.trans (haside s' false), h'.2⟩

theorem idles_legacy {event : LegacyEvent} (hsign : ∀ acc outcome,
      event = .signed acc outcome → Certain s.legacy → Clear s.legacy ∧ Blamed s.legacy acc) :
    Idles ctx intent true s { s with log := s.log ++ [.legacy event] } :=
  ⟨.single (.legacy rfl hsign), rfl, reports_concat fun _ _ _ heq => by cases heq⟩

/-- A finalize is signed for an account found unfinalized. -/
theorem meets_finalizeLegacyCommit_idles (htidy : Tidy s.legacy)
    (hblame : Certain s.legacy → Blamed s.legacy acc) :
    (finalizeLegacyCommit acc).Meets s
      (fun _ s' => (Idles ctx intent true s s' ∧ Tidy s'.legacy) ∧
        s'.legacy = s.legacy ++ [.signed acc (some none)])
      fun halt s' => Idles ctx intent true s s' ∧ (halt.passes → Tidy s'.legacy) := by
  have hidle (s') (h' : Idles ctx intent false s s') :
      Idles ctx intent true s s' ∧ Tidy s'.legacy :=
    ⟨h'.withMends, h'.moves.tidy htidy⟩
  rw [finalizeLegacyCommit, meets_bind]
  refine (follows_await s).mono (fun _ s₁ h₁ => ?_)
    fun _ s₁ h₁ => (hidle s₁ h₁).imp_right fun h _ => h
  refine meets_orFail_bind (fun _ _ => ?_) fun _ => (hidle s₁ h₁).imp_right fun h _ => h
  have hsign (outcome) (s₂) (h₂ : Idles ctx intent false s s₂) : Idles ctx intent true s
        { s₂ with log := s₂.log ++ [.legacy (.signed acc outcome)] } ∧
      Session.legacy { s₂ with log := s₂.log ++ [.legacy (.signed acc outcome)] } =
        s.legacy ++ [.signed acc outcome] := by
    have hleg := h₂.moves.legacy_eq
    refine ⟨trans_of (Idles ctx intent true) h₂.withMends (idles_legacy fun _ _ heq => ?_), ?_⟩
    · cases heq
      rw [hleg]
      exact fun hcert => ⟨htidy hcert, hblame hcert⟩
    · rw [legacy_emit, hleg]
  rw [meets_handle]
  refine (follows_await.after h₁).mono (fun res s₂ h₂ => ?_) fun halt s₂ h₂ => ?_
  · obtain ⟨hidles, hleg⟩ := hsign (some (failure res)) s₂ h₂
    rcases res with err | _
    · -- the attempt may be repeated only if the error is transient
      refine ⟨hidles, fun hpass => hleg ▸ htidy.signed fun err' heq => ?_⟩
      cases heq
      exact hpass
    · exact ⟨⟨hidles, hleg ▸ htidy.signed fun _ heq => (by cases heq)⟩, hleg⟩
  · obtain ⟨hidles, hleg⟩ := hsign none s₂ h₂
    exact ⟨hidles, fun _ => hleg ▸ htidy.signed fun _ heq => by cases heq⟩

/-- A failure ends the loop over the accounts. -/
theorem meets_finalizeEach_idles (htidy : Tidy s.legacy) (hblame : Certain s.legacy →
      accs.Nodup ∧ ∀ acc ∈ accs, Blamed s.legacy acc) :
    (finalizeEach accs).Meets s (fun _ s' => Idles ctx intent true s s' ∧ Tidy s'.legacy)
      fun halt s' => Idles ctx intent true s s' ∧ (halt.passes → Tidy s'.legacy) := by
  induction accs generalizing s with
  | nil => exact ⟨refl_of (Idles ctx intent true) s, htidy⟩
  | cons acc rest ih =>
    rw [finalizeEach]
    refine .bind (meets_finalizeLegacyCommit_idles htidy
      fun hcert => (hblame hcert).2 acc List.mem_cons_self) fun _ s₁ h₁ => ?_
    obtain ⟨⟨h₁, htidy₁⟩, hleg⟩ := h₁
    refine (ih htidy₁ fun hcert => ?_).mono (fun _ _ => .imp_left (trans_of _ h₁))
      fun _ _ => .imp_left (trans_of _ h₁)
    rw [hleg] at hcert ⊢
    obtain ⟨hnd, hblame⟩ := hblame hcert.of_append.1
    obtain ⟨hnot, hnd⟩ := List.nodup_cons.mp hnd
    refine ⟨hnd, fun acc' hmem => (hblame acc' (.tail _ hmem)).append ?_⟩
    have hne : acc ≠ acc' := fun heq => hnot (heq ▸ hmem)
    simp [lastFate, LegacyEvent.fate, hne]

/-- What is finalized was found unfinalized just before. -/
theorem tidies_finalizeUnfinalized : Tidies (Idles ctx intent true) (finalizeUnfinalized accs) := by
  intro s htidy
  have hidles : Idles ctx intent true s
      { s with log := s.log ++ [.legacy (.unfinalized accs)] } :=
    idles_legacy fun _ _ heq => by cases heq
  rw [finalizeUnfinalized, meets_bind, emit, meets_modify]
  refine (meets_finalizeEach_idles (legacy_emit ▸ htidy.unfinalized) fun hcert => ?_).mono
    (fun _ _ => .imp_left (trans_of _ hidles)) fun _ _ => .imp_left (trans_of _ hidles)
  rw [legacy_emit] at hcert ⊢
  have hlast := hcert (.unfinalized accs) List.mem_concat_self
  exact ⟨by simpa [LegacyEvent.isCertain] using hlast,
    fun acc hmem => ⟨s.legacy, accs, [], rfl, hmem, rfl⟩⟩

theorem tidies_repairCommit : Tidies (Moves ctx intent true) (repairCommit current err) := by
  rw [repairCommit]
  split
  · exact .bind (tidies_finalizeUnfinalized.mono fun _ _ => Idles.moves) fun _ => .pure
  · exact .pure

/-! ### The executor, after a failure -/

/-- A recovery is a repair, or has nothing to do with legacy commits. -/
theorem meets_recover_cases (hmov : ∀ again s', Moves ctx intent false s s' → Q again s')
    (hrep : (repairCommit s.executor.current err).Meets s Q E) :
    (recover ctx err).Meets s Q E := by
  rw [recover, meets_bind, meets_get, meets_ite]
  refine ⟨fun _ => hmov _ _ .refl, fun _ => ?_⟩
  split
  · rw [meets_bind, meets_handleActionsResult_iff, meets_bind, setExecutor, meets_modify,
      executor_reportCallbacks, meets_pure]
    exact hmov _ _ (.single (.trimCurrent yields_actionsResult))
  · rw [meets_ite]
    exact ⟨fun _ => hrep, fun _ => hmov _ _ .refl⟩
  · rw [meets_ite]
    refine ⟨fun _ => ?_, fun _ => hmov _ _ .refl⟩
    obtain ⟨n, hkept, hgone, hcbs⟩ :=
      handleUndelegationError_eq ctx.assembler s.executor.current
    rw [meets_bind, setExecutor, meets_modify, meets_bind, hgone, hcbs,
      meets_reportCallbacks_iff, meets_pure, reportCallbacks_setExecutor]
    exact hmov _ _ (.single (.trimCurrent (hkept ▸ yields_take_drop)))
  · exact hmov _ _ .refl

theorem tidies_recover : Tidies (Moves ctx intent true) (recover ctx err) := fun s hs =>
  meets_recover_cases (fun _ _ h => ⟨h.withMends, h.tidy hs⟩) (tidies_repairCommit s hs)

theorem follows_giveUpOrPatch : Follows (Moves ctx intent mends) (giveUpOrPatch commit err) := by
  refine .read fun s => ?_
  have hpatch : Follows (Moves ctx intent mends) (addPatchedError err) :=
    moves_of_idles follows_addPatchedError
  split
  · exact .bind hpatch fun _ => .pure
  · exact .pure
  · exact .ite .pure (.bind hpatch fun _ => .pure)

/-- After a failure the code recovers, and tries again or gives up. -/
theorem tidies_afterFailure : Tidies (Moves ctx intent true) (afterFailure ctx commit sig err) := by
  refine .bind (tidies_of_moves (moves_of_idles ?_)) fun _ => .bind tidies_recover
    fun again => .ite ?_ .pure
  · exact .ite (.bind follows_setTransaction fun _ => follows_emit rfl) .pure
  · exact tidies_of_moves (.bind (moves_of_idles follows_await) fun _ => follows_giveUpOrPatch)

theorem tidies_attemptTransaction :
    Tidies (Moves ctx intent true) (attemptTransaction ctx commit hasFollowUp) := by
  refine .bind (tidies_of_moves follows_prepareAndRecord) fun p => ?_
  refine .bind (tidies_of_moves follows_submit) fun res => ?_
  rcases res with err | _
  · exact tidies_afterFailure
  · exact tidies_of_moves (moves_of_idles <| .bind follows_setTransaction
      fun _ => .bind (follows_emit rfl) fun _ => .pure)

/-- By induction on the attempts that are left. -/
theorem tidies_executeCurrentLoop :
    Tidies (Moves ctx intent true) (executeCurrentLoop ctx commit hasFollowUp fuel reconciled) := by
  induction fuel generalizing reconciled with
  | zero => exact tidies_of_moves .throw
  | succ fuel ih =>
    refine .bind (tidies_of_moves follows_reconcileOutbox) fun _ => ?_
    refine .bind (tidies_of_moves follows_settlePending) fun settled => ?_
    rcases settled with _ | _
    · refine .bind (tidies_of_moves follows_nothingLeft) fun left => ?_
      rcases left with _ | _
      · refine .bind tidies_attemptTransaction fun res => ?_
        rcases res with _ | _
        · exact ih
        · exact .pure
      · exact .pure
    · exact .pure

theorem tidies_executeCurrent : Tidies (Moves ctx intent true) (executeCurrent ctx fuel) :=
  .read fun _ => tidies_executeCurrentLoop

/-- After the deadline the callbacks are told first. -/
theorem tidies_expireCallbacks : Tidies (Moves ctx intent true) (expireCallbacks ctx fuel) :=
  .bind (tidies_of_moves fun _ => meets_executeCallbacks_moves) fun _ => tidies_executeCurrent

theorem follows_timeLeft : Follows (Idles ctx intent mends) timeLeft := by
  refine .bind follows_next fun answer => ?_
  cases answer with
  | timeLeft => exact .pure
  | _ => exact .throw

theorem tidies_executeWithTimeout :
    Tidies (Moves ctx intent true) (executeWithTimeout ctx fuel) := by
  refine .read fun s => .ite ?_ tidies_executeCurrent
  refine .bind (tidies_of_moves (moves_of_idles follows_timeLeft))
    fun _ => .ite ?_ tidies_expireCallbacks
  refine .bind (tidies_timeout tidies_executeCurrent) fun res => ?_
  rcases res with _ | _
  · exact tidies_expireCallbacks
  · exact .pure

/-- A strategy is split only if it has no second stage. -/
theorem follows_trySplit : Follows (Moves ctx intent mends) (trySplit ctx res) := by
  refine .get_bind fun s => ?_
  split
  · rw [meets_ite]
    refine ⟨fun hcond => ?_, fun _ => .refl⟩
    simp only [Bool.and_eq_true] at hcond
    have hnone := Option.isNone_iff_eq_none.mp (Bool.and_eq_true_iff.mp hcond.1.1.1).1
    rw [meets_bind, setExecutor, meets_modify]
    refine Follows.after (.bind (moves_of_idles follows_addPatchedError) fun _ => .pure) ?_
    exact .tail (.single (.split hnone)) (.aside ⟨rfl, rfl, rfl, rfl, rfl, .inl rfl⟩)
  · exact .refl

/-- The second stage follows the first. -/
theorem follows_advance : Follows (Moves ctx intent mends) (advance sig) := by
  refine .get_bind fun s => ?_
  rcases hfu : s.executor.followUp with _ | followUp
  · exact Follows.after (.bind (moves_of_idles follows_setProgress) fun _ => .pure) (.refl)
  · rw [meets_bind, setExecutor, meets_modify]
    refine Follows.after (.bind (moves_of_idles follows_setProgress) fun _ => .pure) ?_
    exact .tail (.single (.advance hfu)) (.aside ⟨rfl, rfl, rfl, rfl, rfl, .inl rfl⟩)

theorem follows_conclude :
    Follows (Moves ctx intent mends) (conclude ctx res) :=
  .bind (fun _ => meets_reportResult_moves) fun _ =>
    .bind (moves_of_idles follows_orFail) fun _ => follows_advance

/-- **The executor goes on only with nothing in doubt.** -/
theorem tidies_execute : Tidies (Moves ctx intent true) (execute ctx fuel) := by
  induction fuel with
  | zero => exact tidies_of_moves .throw
  | succ fuel ih =>
    intro s hs
    rw [execute]
    refine .bind (meets_attempt (tidies_executeWithTimeout s hs)) fun res s₁ h₁ => ?_
    rcases res with err | res
    · -- an error is passed on
      rw [meets_bind, trySplit, meets_bind, meets_get, meets_pure, if_neg Bool.false_ne_true,
        meets_bind, conclude, meets_bind]
      refine meets_reportResult_moves.mono (fun _ s₂ (h₂ : Moves ctx intent false s₁ s₂) => ?_)
        fun _ _ => False.elim
      exact ⟨h₁.1.trans h₂.withMends, fun hpass => h₂.tidy (h₁.2 hpass)⟩
    · refine Goes.after (.bind (tidies_of_moves follows_trySplit) fun split => .ite ih ?_) h₁.1 h₁.2
      refine .bind (tidies_of_moves follows_conclude) fun output => ?_
      rcases output with _ | _
      · exact ih
      · exact .pure

/-! ### Building the work -/

/-- The tasks are built from what was fetched… -/
theorem meets_commitTasks_built : (commitTasks intent).Meets s (fun res s' =>
    Idles ctx intent mends s s' ∧ ∀ tasks, res = .ok tasks →
      ∃ metadata base, TaskBuilder.commitTasks intent metadata base = .ok tasks)
    fun _ s' => Idles ctx intent mends s s' := by
  rw [commitTasks]
  refine .bind (follows_await s) fun metadata s₁ h₁ => ?_
  refine .bind (follows_await.after h₁) fun base s₂ h₂ => ⟨h₂, fun tasks hts => ?_⟩
  exact ⟨metadata, base, Except.mapError_eq_ok.mp hts⟩

/-- …and so are those of the second stage. -/
theorem meets_followUpTasks_built (h : Idles ctx intent mends s s') :
    (followUpTasks intent).Meets s' (fun res s'' =>
      Idles ctx intent mends s s'' ∧ ∀ tasks, res = .ok tasks →
        ∃ metadata, TaskBuilder.followUpTasks intent metadata = .ok tasks)
      fun _ s'' => Idles ctx intent mends s s'' := by
  rw [followUpTasks]
  refine .bind (follows_await.after h) fun metadata s₁ h₁ => ⟨h₁, fun tasks hts => ?_⟩
  exact ⟨metadata, Except.mapError_eq_ok.mp hts⟩

/-- A plan has only tasks of the intent… -/
theorem meets_buildStrategy_built :
    (buildStrategy ctx status intent committed).Meets s (fun plan s' =>
      Idles ctx intent mends s s' ∧ OfIntent intent plan.allTasks)
        fun _ s' => Idles ctx intent mends s s' := by
  rw [buildStrategy, meets_ite]
  constructor
  · intro _
    rw [buildStandalone]
    refine .bind meets_commitTasks_built fun res s₁ h₁ => ?_
    refine meets_orFail_bind (fun tasks hts => ?_) fun _ => h₁.1
    refine meets_orFail (fun plan hplan => ⟨h₁.1, ?_⟩) fun _ => h₁.1
    obtain ⟨current, hcur, rfl⟩ := Except.map_eq_ok.mp (Except.mapError_eq_ok.mp hplan)
    obtain ⟨metadata, base, hbuilt⟩ := h₁.2 tasks hts
    exact (ofIntent_commitTasks hbuilt).delivers (delivers_single hcur)
  · intro _
    refine .bind meets_commitTasks_built fun commits s₁ h₁ => ?_
    refine .bind (meets_followUpTasks_built h₁.1) fun followUps s₂ h₂ => ?_
    refine meets_orFail_bind (fun commits hcoms => ?_) fun _ => h₂.1
    refine meets_orFail_bind (fun followUps hfus => ?_) fun _ => h₂.1
    refine meets_orFail (fun plan hplan => ⟨h₂.1, ?_⟩) fun _ => h₂.1
    obtain ⟨_, _, hbuilt⟩ := h₁.2 commits hcoms
    obtain ⟨_, hbuilt'⟩ := h₂.2 followUps hfus
    exact (ofIntent_append hbuilt hbuilt').delivers
      (delivers_planFor (Except.mapError_eq_ok.mp hplan))

theorem tidies_prepareFollowUp : Tidies (Idles ctx intent true) (prepareFollowUp ctx intent) := by
  refine .ite .pure (.bind (tidies_of_idles follows_await) fun _ => ?_)
  refine .bind (tidies_of_idles follows_orFail) fun _ => .ite .pure ?_
  refine .bind (tidies_of_idles follows_await) fun _ => ?_
  exact .bind (tidies_of_idles follows_orFail) fun _ => tidies_finalizeUnfinalized

/-- …and so has a second stage that is built after a restart. -/
theorem meets_buildFollowUp_built (hs : Tidy s.legacy) : (buildFollowUp ctx intent).Meets s
    (fun strategy s' => (Idles ctx intent true s s' ∧ Tidy s'.legacy) ∧
      OfIntent intent strategy.tasks)
    fun halt s' => Idles ctx intent true s s' ∧ (halt.passes → Tidy s'.legacy) := by
  rw [buildFollowUp]
  refine .bind (tidies_prepareFollowUp s hs) fun _ s₁ h₁ => ?_
  have hidle (s₂) (h₂ : Idles ctx intent false s₁ s₂) :
      Idles ctx intent true s s₂ ∧ Tidy s₂.legacy :=
    ⟨trans_of (Idles ctx intent true) h₁.1 h₂.withMends, h₂.moves.tidy h₁.2⟩
  rw [meets_bind]
  refine (meets_followUpTasks_built (refl_of (Idles ctx intent false) s₁)).mono
    (fun res s₂ h₂ => ?_) fun _ s₂ h₂ => (hidle s₂ h₂).imp_right fun h _ => h
  have hs₂ := hidle s₂ h₂.1
  refine meets_orFail_bind (fun tasks hts => ?_) fun _ => hs₂.imp_right fun h _ => h
  refine meets_orFail (fun strategy hstr => ⟨hs₂, ?_⟩) fun _ => hs₂.imp_right fun h _ => h
  obtain ⟨_, hbuilt⟩ := h₂.2 tasks hts
  exact (ofIntent_followUpTasks hbuilt).delivers
    (delivers_buildStrategy (Except.mapError_eq_ok.mp hstr))

theorem follows_resumePending : Follows (Idles ctx intent mends) (resumePending status intent) := by
  rw [resumePending]
  rcases PendingExecution.fromStatus status with _ | pending
  · exact .ite .throw .pure
  · refine .bind follows_setProgress fun _ => .bind follows_resolvePending fun _ => .ite ?_ ?_
    · refine .bind follows_setTransaction fun _ => .bind (follows_emit rfl) fun _ => .ite ?_ .pure
      exact .bind follows_setProgress fun _ => .pure
    · exact .bind follows_setTransaction fun _ => .bind (follows_emit rfl) fun _ => .pure

/-- The executor is built once, for the intent. -/
theorem meets_startExecutor_moves (h : Idles ctx intent true s s') (hs' : Tidy s'.legacy)
    (hexec : s.executor = {}) (hreps : reports s.log = []) :
    (startExecutor ctx status intent).Meets s'
      (fun _ s'' => Moves ctx intent true s s'' ∧ Tidy s''.legacy)
      fun halt s'' => Moves ctx intent true s s'' ∧ (halt.passes → Tidy s''.legacy) := by
  have hstart (s₁) (x) (h₁ : Idles ctx intent true s' s₁) (hplan : Planned intent x) :
      Moves ctx intent true s { s₁ with executor := x } :=
    (h.moves.trans h₁.moves).tail (.start ((h₁.executor.trans h.executor).trans hexec)
      ((h₁.reports.trans h.reports).trans hreps) hplan)
  rw [startExecutor, meets_bind, meets_get]
  rcases s'.confirmedCommit with _ | commit
  · rw [meets_bind]
    refine meets_buildStrategy_built.mono
      (fun plan s₁ (h₁ : Idles ctx intent false s' s₁ ∧ _) => ⟨?_, ?_⟩)
      fun _ s₁ (h₁ : Idles ctx intent false s' s₁) =>
        ⟨h.moves.trans h₁.moves.withMends, fun _ => h₁.moves.tidy hs'⟩
    · refine hstart s₁ _ h₁.1.withMends ?_
      rcases plan with ⟨current, _ | followUp⟩ <;> exact ⟨h₁.2, rfl⟩
    · exact h₁.1.moves.tidy hs'
  · rw [meets_bind]
    refine (meets_buildFollowUp_built hs').mono (fun strategy s₁ h₁ => ⟨?_, h₁.1.2⟩)
      fun _ _ h₁ => ⟨h.moves.trans h₁.1.moves, h₁.2⟩
    refine hstart s₁ _ h₁.1.1 ?_
    rw [Planned, TransactionExecutor.allTasks]
    exact ⟨(List.append_nil strategy.tasks).symm ▸ h₁.2, rfl⟩

/-- **An execution only moves**, and stops with nothing in doubt if it may be repeated. -/
theorem meets_executeInner_moves (hexec : s.executor = {}) (hreps : reports s.log = [])
    (hs : Tidy s.legacy) :
    (executeInner ctx fuel status intent).Meets s (fun _ s' => Moves ctx intent true s s')
      fun halt s' => Moves ctx intent true s s' ∧ (halt.passes → Tidy s'.legacy) := by
  rw [executeInner, meets_bind]
  refine (tidies_of_idles follows_resumePending s hs).mono (fun output s₁ h₁ => ?_)
    fun _ _ => .imp_left Idles.moves
  rcases output with _ | output
  · refine .bind (meets_startExecutor_moves h₁.1 h₁.2 hexec hreps) fun _ s₂ h₂ => ?_
    exact (tidies_execute.after h₂.1 h₂.2).mono (fun _ _ => And.left) fun _ _ => id
  · exact h₁.1.moves

end Settle

end Magicblock
