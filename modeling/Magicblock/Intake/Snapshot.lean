import Magicblock.Program.CommitIds
import Magicblock.Settlement.Errors

/-!
# Intake/Snapshot — the intake loop between the queue and the outbox

On every tick the intake reads the queued intents once, accepts them in chunks, and enqueues what it
read.  User transactions run in between.  They only append to the queue, except a callback, which
changes the newest intent: if the intake has already read that intent, the outbox stores it with the
callback and the intake enqueues it without (`enqueued_without_callback`).  Where no callback is
added to an intent that was read and not yet accepted, the intake enqueues exactly what the accept
transactions stored (`enqueued_eq_stored`).
-/

open scoped List

namespace Magicblock

/-! ### The client -/

/-- Intents per accept transaction. -/
def chunkSize : ℕ := 50

/-- The outbox record the intake builds of an intent it read. -/
def ScheduledIntentBundle.toOutbox (env : ProgramEnv) (bundle : ScheduledIntentBundle) :
    OutboxIntentBundle :=
  .accepted bundle (env.outboxIntentPdaWithBump bundle.intentId).2

/-- The intent an outbox account holds. -/
def fetchOutboxIntent (env : ProgramEnv) (b : Bank) (intentId : IntentID) :
    Option OutboxIntentBundle :=
  env.outboxFromBytes (b.accounts (env.outboxIntentPdaWithBump intentId).1).data

/-- Only an empty mirror of the base layer may be replaced by an outbox account. -/
def prepareOutbox (env : ProgramEnv) (intentId : IntentID) (b : Bank) :
    Except InternalOutboxClientError Bank :=
  let pubkey := (env.outboxIntentPdaWithBump intentId).1
  let expected := b.accounts pubkey
  if expected.mode ≠ .mirrored then .ok b
  else if expected.owner ≠ env.systemProgramId ∨ expected.data ≠ [] then
    .error (.invalidOutboxTarget pubkey)
  else
    let account : AccountSharedData :=
      { lamports := 0
        data := []
        owner := env.systemProgramId
        executable := false
        rentEpoch := 0
        mode := .magic
        slot := expected.slot
        commitSeq := 0 }
    .ok { b with accounts := Function.update b.accounts pubkey account }

/-- The accept instruction for these intents, in the current block. -/
def acceptScheduledCommitsInstruction (env : ProgramEnv) (clock : Slot) (blockhash : Hash)
    (intentIds : List IntentID) : InvokeContext where
  programKey := env.programId
  accounts := [⟨env.authority, false⟩, ⟨env.outboxIntentProgramId, false⟩,
    ⟨env.magicContextPubkey, true⟩] ++
    intentIds.map fun id => ⟨(env.outboxIntentPdaWithBump id).1, true⟩
  signers := [env.authority]
  effectiveCaller := .ok none
  clock := some clock
  blockhash := blockhash

/-! ### The loop -/

/-- Where the intake is: between ticks, or with what it has accepted in this tick and what it has
read and still has to accept. -/
inductive IntakePhase where
  | idle
  | accepting (accepted remaining : List ScheduledIntentBundle)

structure IntakeState where
  bank : Bank
  phase : IntakePhase

inductive IntakeEvent where
  | transaction
  | callbackAdded
  | prepared
  | snapshot
  | accepted (stored : List (Option OutboxIntentBundle))
  | acceptFailed
  | enqueued (bundles : List OutboxIntentBundle)

/-- **One instruction of a user's transaction.**  A transaction is several of these with none of the
intake's steps in between; one that fails changes nothing. -/
inductive UserInstruction (env : ProgramEnv) (b : Bank) : IntakeEvent → Bank → Prop
  | scheduleCommit (ctx : InvokeContext) (requestUndelegation : Bool) {b' : Bank}
      (h : (processScheduleCommit env ctx requestUndelegation).Ok b () b') :
      UserInstruction env b .transaction b'
  | scheduleIntentBundle (ctx : InvokeContext) (args : MagicIntentBundleArgs) (secure : Bool)
      {b' : Bank} (h : (processScheduleIntentBundle env ctx args secure).Ok b () b') :
      UserInstruction env b .transaction b'
  | addActionCallback (ctx : InvokeContext) (args : AddActionCallbackArgs) {b' : Bank}
      (h : (processAddActionCallback env ctx args).Ok b () b') :
      UserInstruction env b .callbackAdded b'
  | otherProgram (accounts : Pubkey → AccountSharedData) :
      UserInstruction env b .transaction { b with accounts := accounts }

/-- **One step**: of a user, or of the intake. -/
inductive IntakeStep (env : ProgramEnv) : IntakeState → IntakeEvent → IntakeState → Prop
  | user {e : IntakeEvent} (h : UserInstruction env b e b') :
      IntakeStep env ⟨b, phase⟩ e ⟨b', phase⟩
  | snapshot (b : Bank) :
      IntakeStep env ⟨b, .idle⟩ .snapshot ⟨b, .accepting [] b.context.scheduledBaseIntents⟩
  -- the context cannot be read
  | snapshotFailed (b : Bank) : IntakeStep env ⟨b, .idle⟩ .snapshot ⟨b, .accepting [] []⟩
  | prepare (intent : ScheduledIntentBundle) (hmem : intent ∈ remaining.take chunkSize)
      (h : prepareOutbox env intent.intentId b = .ok b') :
      IntakeStep env ⟨b, .accepting accepted remaining⟩ .prepared
        ⟨b', .accepting accepted remaining⟩
  | accept {accepted remaining : List ScheduledIntentBundle} (clock : Slot)
      (blockhash : Hash) (hne : remaining ≠ [])
      (h : (processAcceptScheduledCommits env (acceptScheduledCommitsInstruction env clock blockhash
        ((remaining.take chunkSize).map (·.intentId)))).Ok b () b') :
      IntakeStep env ⟨b, .accepting accepted remaining⟩
        (.accepted ((remaining.take chunkSize).map (fetchOutboxIntent env b' ·.intentId)))
        ⟨b', .accepting (accepted ++ remaining.take chunkSize) (remaining.drop chunkSize)⟩
  -- an error ends the loop; the transaction may have been executed all the same
  | acceptFailed {b b' : Bank} {accepted remaining : List ScheduledIntentBundle} (clock : Slot)
      (blockhash : Hash) (h : b' = b ∨ (processAcceptScheduledCommits env
        (acceptScheduledCommitsInstruction env clock blockhash
          ((remaining.take chunkSize).map (·.intentId)))).Ok b () b') :
      IntakeStep env ⟨b, .accepting accepted remaining⟩ .acceptFailed ⟨b', .accepting accepted []⟩
  | enqueue (b : Bank) (accepted : List ScheduledIntentBundle) :
      IntakeStep env ⟨b, .accepting accepted []⟩ (.enqueued (accepted.map (·.toOutbox env)))
        ⟨b, .idle⟩

def intakeMachine (env : ProgramEnv) (b₀ : Bank) : Machine IntakeState IntakeEvent where
  start s := s = ⟨b₀, .idle⟩
  step _ := IntakeStep env

/-- What the accept transactions of the current tick have stored. -/
def storedInTick (es : List IntakeEvent) : List (Option OutboxIntentBundle) :=
  es.foldl (fun stored e =>
    match e with
    | .snapshot => []
    | .accepted now => stored ++ now
    | _ => stored) []

/-- What the intake has read and not accepted. -/
def IntakeState.unaccepted (s : IntakeState) : List ScheduledIntentBundle :=
  match s.phase with
  | .idle => []
  | .accepting _ remaining => remaining

/-- **No callback on an intent that was read**: when a callback is added, the newest intent of the
queue came after the snapshot. -/
def CallbackUnseen (s : IntakeState) (e : IntakeEvent) : Prop :=
  e = .callbackAdded → s.unaccepted.length < s.bank.context.scheduledBaseIntents.length

/-! ### What a tick enqueues -/

section Tick

variable {env : ProgramEnv} {b₀ b : Bank} {es : List IntakeEvent} {e : IntakeEvent}

/-- A user only appends to the queue, apart from callbacks to its newest intent. -/
theorem UserInstruction.isPrefix
    (h : UserInstruction env b e b') (hfront : front <+: b.context.scheduledBaseIntents)
    (huns : e = .callbackAdded → front.length < b.context.scheduledBaseIntents.length) :
    front <+: b'.context.scheduledBaseIntents := by
  cases h with
  | scheduleCommit ctx undelegate hok =>
    obtain ⟨bundle, r, hs, -⟩ := schedules_processScheduleCommit hok
    exact hs.queue ▸ hfront.trans (List.prefix_append ..)
  | scheduleIntentBundle ctx args secure hok =>
    obtain ⟨bundle, r, hs, -⟩ := schedules_processScheduleIntentBundle hok
    exact hs.queue ▸ hfront.trans (List.prefix_append ..)
  | addActionCallback ctx args hok =>
    obtain ⟨older, latest, bundle, hold, hnew, -⟩ :=
      (amends_processAddActionCallback hok).newest
    have hlt := huns rfl
    rw [hold] at hfront hlt
    have holder : front <+: older := by
      rcases List.prefix_concat_iff.mp hfront with heq | holder
      · exact absurd hlt (heq ▸ lt_irrefl _)
      · exact holder
    rw [hnew]
    exact holder.trans (List.prefix_append ..)
  | otherProgram accounts => exact hfront

/-- An accept transaction pops and stores the intents its chunk was read as. -/
theorem stored_of_accept
    (h : (processAcceptScheduledCommits env (acceptScheduledCommitsInstruction env clock blockhash
      (chunk.map (·.intentId)))).Ok b () b') (hchk : chunk <+: b.context.scheduledBaseIntents) :
    b.context.scheduledBaseIntents = chunk ++ b'.context.scheduledBaseIntents ∧
      chunk.map (fetchOutboxIntent env b' ·.intentId) = chunk.map (some <| ·.toOutbox env) := by
  obtain ⟨popped, hlen, hacpt⟩ := accepts_processAcceptScheduledCommits h
  have hlen' : popped.length = chunk.length := by
    rw [hlen]
    simp [acceptScheduledCommitsInstruction, intentPdasOffset]
  obtain rfl : popped = chunk :=
    (List.prefix_of_prefix_length_le ⟨_, hacpt.queue.symm⟩ hchk hlen'.le).eq_of_length hlen'
  exact ⟨hacpt.queue, List.map_congr_left fun intent hi => hacpt.stored hi⟩

theorem context_prepareOutbox (h : prepareOutbox env intentId b = .ok b') :
    b'.context = b.context := by
  unfold prepareOutbox at h
  dsimp only at h
  split_ifs at h
  · exact Except.ok.inj h ▸ rfl
  · exact Except.ok.inj h ▸ rfl

/-- **What the intake knows in a tick** — what it has accepted is what was stored, and what it has
still to accept heads the queue. -/
def Faithful (env : ProgramEnv) (es : List IntakeEvent) (s : IntakeState) : Prop :=
  ∀ accepted remaining, s.phase = .accepting accepted remaining →
    storedInTick es = accepted.map (some <| ·.toOutbox env) ∧
      remaining <+: s.bank.context.scheduledBaseIntents

theorem storedInTick_concat : storedInTick (es ++ [e]) = match e with
      | .snapshot => []
      | .accepted now => storedInTick es ++ now
      | _ => storedInTick es :=
  List.foldl_concat ..

theorem UserInstruction.storedInTick_eq (h : UserInstruction env b e b') :
    storedInTick (es ++ [e]) = storedInTick es := by
  cases h <;> exact storedInTick_concat

/-- **Every step that adds no callback to an intent that was read keeps this.** -/
theorem Faithful.step (hs : Faithful env es s) (huns : CallbackUnseen s e)
    (h : IntakeStep env s e t) : Faithful env (es ++ [e]) t := by
  intro accepted remaining hph
  cases h with
  | user h =>
    obtain ⟨hstor, hfront⟩ := hs accepted remaining hph
    refine ⟨h.storedInTick_eq.trans hstor, h.isPrefix hfront fun he => ?_⟩
    have hlt := huns he
    rwa [IntakeState.unaccepted, hph] at hlt
  | snapshot b =>
    obtain ⟨rfl, rfl⟩ := IntakePhase.accepting.inj hph
    exact ⟨storedInTick_concat, List.prefix_rfl⟩
  | snapshotFailed b =>
    obtain ⟨rfl, rfl⟩ := IntakePhase.accepting.inj hph
    exact ⟨storedInTick_concat, List.nil_prefix⟩
  | prepare intent hmem h =>
    obtain ⟨rfl, rfl⟩ := IntakePhase.accepting.inj hph
    obtain ⟨hstor, hfront⟩ := hs _ _ rfl
    exact ⟨storedInTick_concat.trans hstor, context_prepareOutbox h ▸ hfront⟩
  | @accept b b' accepted₀ remaining₀ clock blockhash hne h =>
    obtain ⟨rfl, rfl⟩ := IntakePhase.accepting.inj hph
    obtain ⟨hstor, hfront⟩ := hs _ _ rfl
    obtain ⟨hqueue, hnow⟩ := stored_of_accept h ((List.take_prefix _ _).trans hfront)
    refine ⟨?_, ?_⟩
    · rw [storedInTick_concat, hstor, hnow, List.map_append]
    · nth_rewrite 1 [hqueue, ← List.take_append_drop chunkSize remaining₀] at hfront
      exact (List.prefix_append_right_inj _).mp hfront
  | acceptFailed clock blockhash h =>
    obtain ⟨rfl, rfl⟩ := IntakePhase.accepting.inj hph
    exact ⟨storedInTick_concat.trans (hs _ _ rfl).1, List.nil_prefix⟩
  | enqueue b accepted => cases hph

/-- **The intake enqueues what was stored** — in every run that adds no callback to an intent which
was read and not yet accepted, what a tick enqueues is what its accept transactions stored,
callbacks included. -/
theorem enqueued_eq_stored {bundles : List OutboxIntentBundle} {s : IntakeState}
    (h : ((intakeMachine env b₀).guarded CallbackUnseen).Run (es ++ [.enqueued bundles]) s) :
    bundles.map some = storedInTick es := by
  obtain ⟨t, hrun, -, hstep⟩ := h.last
  have hfaith : Faithful env es t := by
    refine Machine.Run.invariant ?_ ?_ hrun
    · rintro _ rfl accepted remaining hph
      cases hph
    · rintro es s e t - hs ⟨huns, hstep⟩
      exact hs.step huns hstep
  cases hstep with
  | user huser => cases huser
  | enqueue b accepted =>
    obtain ⟨hstor, -⟩ := hfaith accepted [] rfl
    rw [hstor, List.map_map]
    rfl

end Tick

/-! ### A callback between snapshot and acceptance -/

namespace IntakeExample

/-- Program 40 schedules one action for payer 30. -/
def action : BaseAction where
  id := 0
  computeUnits := 0
  destinationProgram := 50
  sourceProgram := some 40
  escrowAuthority := 30
  dataPerProgram := ⟨0, []⟩
  accountMetasPerProgram := []
  callback := none

def scheduledIntent (action : BaseAction) : ScheduledIntentBundle where
  intentId := 0
  slot := 0
  blockhash := 0
  payer := 30
  intentBundle := { standaloneActions := [action] }

def callback : BaseActionCallback := ⟨40, [], [], 0, []⟩

/-- The record of the intent with its callback. -/
def amended : OutboxIntentBundle :=
  .accepted (scheduledIntent { action with callback := some callback }) 255

/-- Encodes that one record. -/
def env : ProgramEnv where
  __ := ProgramExample.env
  outboxToBytes bundle := if bundle = amended then some [1] else none
  outboxFromBytes data := if data = [1] then some amended else none
  outboxFromBytes_of_toBytes {bundle data} h := by
    split_ifs at h with hbun
    rw [if_pos (Option.some.inj h).symm, hbun]
  outboxFromBytes_nil := rfl

/-- Payer and fee vault are delegated, the outbox account does not exist yet. -/
def bank : Bank where
  accounts a :=
    let account := ProgramExample.account .mirrored 0 []
    if a = 30 ∨ a = 4 then { account with mode := .delegated, lamports := 10000 }
    else if a = 22 then { account with mode := .missing }
    else account
  context := default
  reserved := []

def ctx : InvokeContext where
  programKey := 1
  accounts := [⟨30, true⟩, ⟨3, true⟩, ⟨4, true⟩]
  signers := [30]
  effectiveCaller := .ok (some 40)
  clock := some 0
  blockhash := 0

def schedule : Program Unit :=
  processScheduleIntentBundle env ctx { standaloneActions := [⟨⟨0, []⟩, 0, 0, 50, []⟩] } true

def addCallback : Program Unit := processAddActionCallback env ctx ⟨0, 40, [], [], 0, []⟩

def accept : Program Unit :=
  processAcceptScheduledCommits env (acceptScheduledCommitsInstruction env 0 0 [0])

/-- The bank after each of the three. -/
def scheduledBank : Bank := (schedule.outcome bank).2
def amendedBank : Bank := (addCallback.outcome scheduledBank).2
def acceptedBank : Bank := (accept.outcome amendedBank).2

theorem schedule_step : IntakeStep env ⟨bank, phase⟩ .transaction ⟨scheduledBank, phase⟩ :=
  .user (.scheduleIntentBundle _ _ _ (Exec.ok_of_outcome (by decide +kernel)))

theorem addCallback_step :
    IntakeStep env ⟨scheduledBank, phase⟩ .callbackAdded ⟨amendedBank, phase⟩ :=
  .user (.addActionCallback _ _ (Exec.ok_of_outcome (by decide +kernel)))

/-- The intent, read with or without its callback, is stored with it. -/
theorem accept_step (hid : intent.intentId = 0) :
    IntakeStep env ⟨amendedBank, .accepting [] [intent]⟩ (.accepted [some amended])
      ⟨acceptedBank, .accepting [intent] []⟩ := by
  have hstor : fetchOutboxIntent env acceptedBank 0 = some amended := by decide +kernel
  have htake : List.take chunkSize [intent] = [intent] := rfl
  have hdrop : List.drop chunkSize [intent] = [] := rfl
  have hok : (processAcceptScheduledCommits env (acceptScheduledCommitsInstruction env 0 0
      ((List.take chunkSize [intent]).map (·.intentId)))).Ok amendedBank () acceptedBank := by
    rw [htake, List.map_singleton, hid]
    exact Exec.ok_of_outcome (by decide +kernel)
  have hstep : IntakeStep env ⟨amendedBank, .accepting [] [intent]⟩ _ _ :=
    .accept 0 0 (List.cons_ne_nil _ _) hok
  rwa [htake, hdrop, List.map_singleton, hid, hstor] at hstep

end IntakeExample

open IntakeExample in
/-- **A callback added after the snapshot is not enqueued** — the intent is read, then program 40
attaches a callback in the same slot, and the accept transaction stores it with the callback. -/
theorem enqueued_without_callback : ∃ es s, (intakeMachine env bank).Run
        (es ++ [.enqueued [(scheduledIntent action).toOutbox env]]) s ∧
      storedInTick es = [some amended] ∧ (scheduledIntent action).toOutbox env ≠ amended := by
  have hread : scheduledBank.context.scheduledBaseIntents = [scheduledIntent action] := by
    decide +kernel
  have hsnap : IntakeStep env ⟨scheduledBank, .idle⟩ .snapshot
      ⟨scheduledBank, .accepting [] [scheduledIntent action]⟩ := hread ▸ .snapshot scheduledBank
  have hrun : (intakeMachine env bank).Run
      [.transaction, .snapshot, .callbackAdded, .accepted [some amended]]
      ⟨acceptedBank, .accepting [scheduledIntent action] []⟩ :=
    .step (.step (.step (.step (.start rfl) schedule_step) hsnap) addCallback_step)
      (accept_step rfl)
  exact ⟨_, _, .step hrun (.enqueue _ _), rfl, by decide⟩

open IntakeExample in
/-- A callback added before the snapshot is enqueued. -/
theorem enqueued_eq_stored_of_early :
    ∃ es bundles s,
      ((intakeMachine env bank).guarded CallbackUnseen).Run (es ++ [.enqueued bundles]) s ∧
      bundles = [amended] ∧ bundles.map some = storedInTick es := by
  have hread : amendedBank.context.scheduledBaseIntents = [amended.inner] := by decide +kernel
  have hsnap : IntakeStep env ⟨amendedBank, .idle⟩ .snapshot
      ⟨amendedBank, .accepting [] [amended.inner]⟩ := hread ▸ .snapshot amendedBank
  have huns : CallbackUnseen ⟨scheduledBank, .idle⟩ .callbackAdded := fun _ => by decide +kernel
  have hstart : ((intakeMachine env bank).guarded CallbackUnseen).Run [] ⟨bank, .idle⟩ :=
    .start rfl
  have hamen := (hstart.guardedStep schedule_step nofun).guardedStep addCallback_step huns
  have hacpt := (hamen.guardedStep hsnap nofun).guardedStep (accept_step rfl) nofun
  have hrun := hacpt.guardedStep (.enqueue _ _) nofun
  exact ⟨_, _, _, hrun, rfl, enqueued_eq_stored hrun⟩

end Magicblock
