import Magicblock.Program.Accept
import Magicblock.Program.Callback
import Magicblock.Program.Reserve

/-!
# Program/Effects — what callbacks and acceptance do to the queue

Scheduling appends to the queue (`Schedules`).  The two other instructions that write it replace the
actions of the newest intent (`Amends`) and move the oldest intents to their outbox accounts
(`Accepts`).
-/

namespace Magicblock

open Exec

variable {env : ProgramEnv} {b b' : Bank}

/-- **What a callback does**: the newest intent gets other actions, and nothing else changes in
queue and counters. -/
structure Amends (b b' : Bank) : Prop where
  newest : ∃ front latest bundle, b.context.scheduledBaseIntents = front ++ [latest] ∧
    b'.context = { b.context with
      scheduledBaseIntents := front ++ [{ latest with intentBundle := bundle }] } ∧
    bundle.getAllCommittedAccounts = latest.intentBundle.getAllCommittedAccounts
  reserved : b'.reserved = b.reserved
  commitSeq (a : Pubkey) : (b'.accounts a).commitSeq = (b.accounts a).commitSeq

/-- The callback of the arguments. -/
def AddActionCallbackArgs.callback (args : AddActionCallbackArgs) : BaseActionCallback where
  destinationProgram := args.destinationProgram
  discriminator := args.discriminator
  payload := args.payload
  computeUnits := args.computeUnits
  accountMetasPerProgram := args.accounts

/-- A successful `AddActionCallback`: the action of the newest intent that the index finds gets the
callback. -/
theorem ok_processAddActionCallback (h : (processAddActionCallback env ctx args).Ok b u b') :
    ∃ latest action put, b.context.scheduledBaseIntents.getLast? = some latest ∧
      latest.intentBundle.getActionMut args.actionIndex = some (action, put) ∧
      b'.context = { b.context with
        scheduledBaseIntents := b.context.scheduledBaseIntents.dropLast ++
          [{ latest with intentBundle := put { action with callback := some args.callback } }] } ∧
      b'.reserved = b.reserved ∧ ∀ a, (b'.accounts a).commitSeq = (b.accounts a).commitSeq := by
  unfold processAddActionCallback at h
  simp only [ok_bind, ok_ofExcept, ok_ensure, ok_ofOption, ok_get, Program.ok_writeContext] at h
  obtain ⟨_, _, ⟨-, rfl⟩, _, _, ⟨-, rfl⟩, _, _, ⟨-, rfl⟩, _, _, ⟨-, rfl⟩, _, _, ⟨-, rfl⟩, _, _,
    ⟨-, rfl⟩, _, b₁, hvlt, _, _, ⟨-, rfl⟩, _, b₂, hchar, _, _, ⟨rfl, rfl⟩, latest, _,
    ⟨hlat, rfl⟩, _, _, ⟨-, rfl⟩, ⟨action, put⟩, _, ⟨hact, rfl⟩, _, _, ⟨-, rfl⟩, _, _,
    ⟨-, rfl⟩, _, _, ⟨-, rfl⟩, _, _, ⟨-, rfl⟩, _, _, ⟨-, rfl⟩, _, _, ⟨-, rfl⟩, -, rfl⟩ := h
  have hctrs : b₂.counters = b.counters :=
    (preserves_chargeDelegatedPayer hchar).trans (preserves_tryGetFeeVault hvlt)
  have hcont : b₂.context = b.context := congrArg (·.1) hctrs
  rw [hcont] at hlat ⊢
  exact ⟨latest, action, put, hlat, hact, rfl, congrArg (·.2.1) hctrs,
    fun a => congrFun (congrArg (·.2.2) hctrs) a⟩

theorem amends_processAddActionCallback
    (h : (processAddActionCallback env ctx args).Ok b u b') : Amends b b' := by
  obtain ⟨latest, action, put, hlat, hact, hcont, hrsv, hseq⟩ :=
    ok_processAddActionCallback h
  exact ⟨⟨_, latest, _, (List.dropLast_append_getLast? latest hlat).symm, hcont,
    MagicIntentBundle.getAllCommittedAccounts_put hact _⟩, hrsv, hseq⟩

/-! ### Acceptance -/

/-- **What acceptance does**: the oldest intents leave the queue for their outbox accounts. -/
structure Accepts (env : ProgramEnv) (b : Bank) (popped : List ScheduledIntentBundle) (b' : Bank) :
    Prop where
  queue : b.context.scheduledBaseIntents = popped ++ b'.context.scheduledBaseIntents
  intentId : b'.context.intentId = b.context.intentId
  reserved : b'.reserved = b.reserved
  commitSeq (a : Pubkey) : (b'.accounts a).commitSeq = (b.accounts a).commitSeq
  stored {intent : ScheduledIntentBundle} (h : intent ∈ popped) :
    env.outboxFromBytes (b'.accounts (env.outboxIntentPdaWithBump intent.intentId).1).data =
      some (.accepted intent (env.outboxIntentPdaWithBump intent.intentId).2)

/-- Creating an outbox account: it was empty, and now holds the bundle; no other data changes. -/
theorem ok_createOutboxIntentCpi (h : (createOutboxIntentCpi env pda bundle).Ok b u b') :
    b'.counters = b.counters ∧ (b.accounts pda).data = [] ∧
      env.outboxFromBytes (b'.accounts pda).data = some bundle ∧
      ∀ a ≠ pda, (b'.accounts a).data = (b.accounts a).data := by
  unfold createOutboxIntentCpi processCreateOutboxIntent at h
  simp only [ok_bind, ok_ofOption, ok_ensure, Program.ok_borrow, Program.ok_update,
    decide_eq_true_eq] at h
  obtain ⟨data, _, ⟨hdata, rfl⟩, _, _, ⟨-, rfl⟩, _, _, ⟨rfl, rfl⟩, _, _, ⟨⟨-, -, -, hemp⟩, rfl⟩, _,
    b₁, rfl, hmode⟩ := h
  -- the mode does not matter for data and counters
  have hview := Preserves.ite (f := Bank.view fun acc => (acc.commitSeq, acc.data)) .pure
    (preserves_setAccountMode fun _ => rfl) hmode
  have hacc (a : Pubkey) := Prod.mk.inj (congrFun (congrArg (·.2.2) hview) a)
  have hself : (b'.accounts pda).commitSeq = (b.accounts pda).commitSeq ∧
      (b'.accounts pda).data = data := by
    simpa only [Function.update_self] using hacc pda
  have hoth {a : Pubkey} (ha : a ≠ pda) : (b'.accounts a).commitSeq = (b.accounts a).commitSeq ∧
      (b'.accounts a).data = (b.accounts a).data := by
    simpa only [Function.update_of_ne ha] using hacc a
  refine ⟨Prod.ext (congrArg (·.1) hview) (Prod.ext (congrArg (·.2.1) hview) (funext fun a => ?_)),
    hemp, ?_, fun a ha => (hoth ha).2⟩
  · by_cases ha : a = pda
    · exact ha ▸ hself.1
    · exact (hoth ha).1
  · rw [hself.2]
    exact env.outboxFromBytes_of_toBytes hdata

theorem ok_acceptIntent (h : (acceptIntent env ctx entry).Ok b u b') :
    (createOutboxIntentCpi env (env.outboxIntentPdaWithBump entry.1.intentId).1
      (.accepted entry.1 (env.outboxIntentPdaWithBump entry.1.intentId).2)).Ok b u b' := by
  unfold acceptIntent verifyIntentPda at h
  simp only [ok_bind, ok_ofExcept] at h
  obtain ⟨⟨pda, bump⟩, _, ⟨hpda, rfl⟩, h⟩ := h
  rcases hget : ctx.getInstructionPubkeyWithIdx (intentPdasOffset + entry.2) with err | provided
  · simp [hget, bind, Except.bind] at hpda
  · simp only [hget, bind, Except.bind] at hpda
    split_ifs at hpda
    rw [Except.ok.inj hpda]
    exact h

/-- **The loop over the popped intents** fills their accounts; what holds data keeps it. -/
theorem ok_acceptIntents {entries : List (ScheduledIntentBundle × ℕ)}
    (h : (entries.forM (acceptIntent env ctx)).Ok b u b') :
    b'.counters = b.counters ∧
      (∀ e ∈ entries,
        env.outboxFromBytes (b'.accounts (env.outboxIntentPdaWithBump e.1.intentId).1).data =
          some (.accepted e.1 (env.outboxIntentPdaWithBump e.1.intentId).2)) ∧
      ∀ a, (b.accounts a).data ≠ [] → (b'.accounts a).data = (b.accounts a).data := by
  induction entries generalizing b with
  | nil =>
    obtain rfl := ok_forM_nil.mp h
    exact ⟨rfl, nofun, fun _ _ => rfl⟩
  | cons entry entries ih =>
    obtain ⟨b₁, hent, hrest⟩ := ok_forM_cons.mp h
    obtain ⟨hctrs₁, hemp, hstor, hoth⟩ := ok_createOutboxIntentCpi (ok_acceptIntent hent)
    obtain ⟨hctrs, hents, hkeep⟩ := ih hrest
    refine ⟨hctrs.trans hctrs₁, List.forall_mem_cons.mpr ⟨?_, hents⟩, fun a ha => ?_⟩
    · -- the account just filled is not empty, so the rest of the loop leaves it alone
      rw [hkeep _ fun hnil => ?_, hstor]
      rw [hnil, env.outboxFromBytes_nil] at hstor
      cases hstor
    · have hne : a ≠ (env.outboxIntentPdaWithBump entry.1.intentId).1 := fun heq =>
        ha (heq ▸ hemp)
      rw [hkeep a (hoth a hne ▸ ha), hoth a hne]

theorem ok_popScheduledIntents (h : (popScheduledIntents env ctx).Ok b popped b') :
    popped.length = ctx.accounts.length - intentPdasOffset ∧
      b.context.scheduledBaseIntents = popped ++ b'.context.scheduledBaseIntents ∧
      b'.context.intentId = b.context.intentId ∧ b'.accounts = b.accounts ∧
    b'.reserved = b.reserved := by
  unfold popScheduledIntents at h
  simp only [ok_bind, ok_ensure, ok_ite, ok_get, ok_pure, Program.ok_writeContext,
    decide_eq_true_eq] at h
  obtain ⟨_, _, ⟨-, rfl⟩, ⟨hnone, rfl, rfl⟩ | ⟨-, _, _, ⟨rfl, rfl⟩, _, _, ⟨hlen, rfl⟩, _, _,
    ⟨-, rfl⟩, rfl, rfl⟩⟩ := h
  · exact ⟨hnone.symm, rfl, rfl, rfl, rfl⟩
  · exact ⟨hlen, (List.take_append_drop _ _).symm, rfl, rfl, rfl⟩

theorem accepts_processAcceptScheduledCommits
    (h : (processAcceptScheduledCommits env ctx).Ok b u b') :
    ∃ popped, popped.length = ctx.accounts.length - intentPdasOffset ∧ Accepts env b popped b' := by
  unfold processAcceptScheduledCommits at h
  simp only [ok_bind, ok_ofExcept] at h
  obtain ⟨_, _, ⟨-, rfl⟩, popped, b₁, hpop, hloop⟩ := h
  obtain ⟨hlen, hqueue, hid, haccs, hrsv⟩ := ok_popScheduledIntents hpop
  obtain ⟨hctrs, hstor, -⟩ := ok_acceptIntents hloop
  have hcont : b'.context = b₁.context := congrArg (·.1) hctrs
  refine ⟨popped, hlen, hcont ▸ hqueue, hcont ▸ hid,
    (congrArg (·.2.1) hctrs).trans hrsv, fun a => ?_, fun {intent} hi => ?_⟩
  · rw [← haccs]
    exact congrFun (congrArg (·.2.2) hctrs) a
  · obtain ⟨i, hi⟩ := List.mem_iff_getElem?.mp hi
    exact hstor (intent, i) (List.mk_mem_zipIdx_iff_getElem?.mpr hi)

end Magicblock
