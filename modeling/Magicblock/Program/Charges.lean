import Magicblock.Program.Duplicates
import Magicblock.Program.Fees

/-!
# Program/Charges — who pays for scheduling

Only charging moves lamports; the rest of a scheduling instruction leaves all balances as they are.
So scheduling moves exactly the fee from the payer to the vault, if the payer is delegated and stays
so (`fee_charged_exactly`), and nothing otherwise.
-/

namespace Magicblock

open Limits Program

/-! ### Who is charged -/

section Charge

open Exec

variable {env : ProgramEnv} {ctx : InvokeContext} {b b' : Bank}

/-- The balances and the modes. -/
def Bank.funds (b : Bank) (a : Pubkey) : ℕ × AccountMode :=
  ((b.accounts a).lamports, (b.accounts a).mode)

def Bank.lamports (b : Bank) (a : Pubkey) : ℕ := (b.accounts a).lamports

theorem preserves_funds
    (h : Preserves (Bank.view fun acc => (acc.lamports, acc.mode)) m) : Preserves Bank.funds m :=
  h.comp fun view => view.2.2

variable {cc : ConstructionContext} {args : MagicIntentBundleArgs} {bundle : MagicIntentBundle}

/-- A counter is not a balance. -/
theorem funds_reserveCommitId : Preserves Bank.funds (reserveCommitId env acc) :=
  .bind .ensure fun _ => .bind preserves_borrow fun _ => .bind .ensure fun _ =>
    .bind .ensure fun _ => .bind (preserves_funds (preserves_update fun _ => rfl)) fun _ =>
      .bind (.modify fun _ => rfl) fun _ => .pure

theorem funds_commitAccounts : Preserves Bank.funds (cc.commitAccounts indices) :=
  .bind .ofExcept fun _ =>
    .bind (.forM fun _ => .bind preserves_borrow fun _ => .bind .ensure fun _ =>
      .bind .ensure fun _ => .bind .ensure fun _ => .ofExcept) fun _ =>
    .mapM fun _ => .bind funds_reserveCommitId fun _ => .bind preserves_borrow fun _ => .pure

theorem funds_commitType {args : CommitTypeArgs} :
    Preserves Bank.funds (cc.commitType next args) := by
  cases args with
  | standalone accs => exact .bind funds_commitAccounts fun _ => .pure
  | withBaseActions accs actions =>
    exact .bind funds_commitAccounts fun _ => .bind .ofExcept fun _ => .pure

theorem funds_commitAndUndelegate {args : CommitAndUndelegateArgs} :
    Preserves Bank.funds (cc.commitAndUndelegate next args) :=
  .bind (.forM fun _ => .bind .ofExcept fun _ => .bind preserves_borrow fun _ => .ensure) fun _ =>
    .bind funds_commitType fun _ => .bind .ofExcept fun _ => .pure

theorem funds_tryFromArgs : Preserves Bank.funds (MagicIntentBundle.tryFromArgs cc args) :=
  .bind .ofExcept fun _ => .bind (.forOption fun _ => funds_commitType) fun _ =>
    .bind (.forOption fun _ => funds_commitAndUndelegate) fun _ => .bind .ofExcept fun _ =>
    .bind (.forOption fun _ => funds_commitType) fun _ =>
    .bind (.forOption fun _ => funds_commitAndUndelegate) fun _ =>
    .bind .ofExcept fun _ => .bind .ofExcept fun _ => .pure

/-- Undelegating an account takes its mode and leaves its balance. -/
theorem funds_markAccountAsUndelegated (h : (markAccountAsUndelegated env acc).Ok b u b') :
    b'.funds a = ((b.funds a).1, if a = acc.pubkey then .undelegating else (b.funds a).2) := by
  unfold markAccountAsUndelegated setAccountMode at h
  simp only [ok_bind, ok_ensure, ok_borrow, ok_update] at h
  obtain ⟨_, _, rfl, _, _, ⟨rfl, rfl⟩, _, _, ⟨-, rfl⟩, rfl⟩ := h
  by_cases ha : a = acc.pubkey
  · subst ha
    simp [Bank.funds]
  · simp [Bank.funds, ha]

theorem funds_markAccounts {accs : List InstructionAccount}
    (h : (accs.forM (markAccountAsUndelegated env)).Ok b u b') (a : Pubkey) :
    b'.funds a =
      ((b.funds a).1, if a ∈ accs.map (·.pubkey) then .undelegating else (b.funds a).2) := by
  induction accs generalizing b with
  | nil =>
    obtain rfl := ok_forM_nil.mp h
    rfl
  | cons acc accs ih =>
    obtain ⟨b₁, hone, hrest⟩ := ok_forM_cons.mp h
    rw [ih hrest, funds_markAccountAsUndelegated hone, List.map_cons]
    by_cases ha : a = acc.pubkey <;> simp [ha]

/-- The vault is charged for a delegated payer only. -/
theorem ok_tryGetFeeVault (h : (tryGetFeeVault env ctx payer vaultIdx).Ok b (vault, next) b') :
    ∃ payerAccount, ctx.getInstructionAccountWithIdx payer = .ok payerAccount ∧
      vault.map (·.pubkey) =
        if (b.accounts payerAccount.pubkey).mode = .delegated then some env.magicFeeVaultPubkey
        else none := by
  unfold tryGetFeeVault at h
  simp only [ok_bind, ok_ofExcept, ok_borrow, ok_ite, ok_ensure, ok_pure] at h
  obtain ⟨payerAccount, _, ⟨hpay, rfl⟩, _, _, ⟨rfl, rfl⟩, found, _, hfound, hrest⟩ := h
  refine ⟨payerAccount, hpay, ?_⟩
  rcases hrest with ⟨hmode, _, _, ⟨hsome, -⟩, heq, -⟩ | ⟨hmode, heq, -⟩
  · obtain ⟨rfl, -⟩ := Prod.mk.inj heq
    rw [if_pos hmode]
    unfold feeVaultAt at hfound
    split at hfound
    · simp only [ok_ite, ok_bind, ok_borrow, ok_ensure, ok_pure] at hfound
      rcases hfound with ⟨hvlt, _, _, -, _, _, -, rfl, -⟩ | ⟨-, rfl, -⟩
      · rw [Option.map_some, hvlt]
      · cases hsome
    · obtain ⟨rfl, -⟩ := ok_pure.mp hfound
      cases hsome
    · exact absurd hfound not_ok_throw
  · obtain ⟨rfl, -⟩ := Prod.mk.inj heq
    rw [if_neg hmode, Option.map_none]

/-- **`fee` lamports go from the payer to the vault**, and no other balance changes.  Where they are
the same account, its balance stays. -/
def Transfers (payer vault : Pubkey) (fee : ℕ) (b b' : Bank) : Prop :=
  ∀ a, b'.lamports a + (if a = payer then fee else 0) =
    b.lamports a + (if a = vault then fee else 0)

theorem transfers_zero (h : b'.lamports = b.lamports) : Transfers payer vault 0 b b' := by
  intro a
  rw [h, ite_self, ite_self]

theorem transfers_chargeDelegatedPayer (h : (chargeDelegatedPayer payer vault fee).Ok b u b') :
    Transfers payer.pubkey vault.pubkey fee b b' := by
  unfold chargeDelegatedPayer at h
  simp only [ok_bind, ok_ensure, ok_borrow, ok_ite, ok_pure, ok_update, decide_eq_true_eq] at h
  obtain ⟨_, _, ⟨rfl, rfl⟩, _, _, ⟨-, rfl⟩, _, _, ⟨rfl, rfl⟩, _, _, ⟨-, rfl⟩, hrest⟩ := h
  rcases hrest with ⟨rfl, -, rfl⟩ | ⟨-, _, _, ⟨rfl, rfl⟩, _, _, ⟨hle, rfl⟩, _, _, rfl, _, _,
    ⟨rfl, rfl⟩, _, _, ⟨-, rfl⟩, rfl⟩
  · exact transfers_zero rfl
  · intro a
    by_cases hv : a = vault.pubkey
    · subst hv
      by_cases hp : vault.pubkey = payer.pubkey
      · simp only [Bank.lamports, hp, Function.update_self, if_true]
        omega
      · simp [Bank.lamports, hp]
    · by_cases hp : a = payer.pubkey
      · subst hp
        simp only [Bank.lamports, hv, Function.update_self, ne_eq, not_false_eq_true,
          Function.update_of_ne, if_true, if_false]
        omega
      · simp [Bank.lamports, hp, hv]

/-- The keys that a bundle undelegates. -/
def MagicIntentBundleArgs.undelegatedKeys (ctx : InvokeContext) (args : MagicIntentBundleArgs) :
    List Pubkey :=
  (([args.commitAndUndelegate, args.commitFinalizeAndUndelegate].reduceOption).flatMap
    CommitAndUndelegateArgs.committedAccountsIndices).filterMap fun idx =>
      (ctx.accounts[idx]?).map (·.pubkey)

/-- Who pays: a payer that is delegated, and that the bundle does not undelegate.  `ScheduleCommit`
looks at the payer before it undelegates. -/
def ScheduleInstruction.pays (ctx : InvokeContext) (b : Bank) (payer : Pubkey) :
    ScheduleInstruction → Bool
  | commit _ => (b.accounts payer).mode = .delegated
  | intentBundle args _ =>
    (b.accounts payer).mode = .delegated ∧ payer ∉ args.undelegatedKeys ctx

/-- The fee is charged or not. -/
structure Charged (env : ProgramEnv) (b : Bank) (pays : Bool) (payer : Pubkey)
    (bundle : MagicIntentBundle) (b' : Bank) : Prop where
  within : env.isIntentWithinLimits bundle
  unpaid (h : pays = false) : b'.lamports = b.lamports
  paid (h : pays = true) :
    ∃ fee, bundle.calculateFee = .ok fee ∧ Transfers payer env.magicFeeVaultPubkey fee b b'

theorem within_of_validateIntentSize (h : validateIntentSize env bundle = .ok u) :
    env.isIntentWithinLimits bundle := by
  unfold validateIntentSize at h
  split_ifs at h with hwith
  exact hwith

theorem within_of_tryFromArgs (h : (MagicIntentBundle.tryFromArgs cc args).Ok b bundle b') :
    cc.env.isIntentWithinLimits bundle := by
  unfold MagicIntentBundle.tryFromArgs at h
  simp only [ok_bind, ok_ofExcept, ok_pure] at h
  obtain ⟨_, _, -, _, _, -, _, _, -, _, _, -, _, _, -, _, _, -, _, _, -, _, _,
    ⟨hsize, -⟩, rfl, -⟩ := h
  exact within_of_validateIntentSize hsize

theorem keys_of_extractCommitAccounts (h : cc.extractCommitAccounts indices = .ok accs) :
    accs.map (·.pubkey) = indices.filterMap fun idx => (cc.ctx.accounts[idx]?).map (·.pubkey) := by
  have hall := Except.mapM_eq_ok.mp h
  clear h
  induction hall with
  | nil => rfl
  | @cons idx acc indices accs hacc hrest ih =>
    have hidx : cc.ctx.accounts[idx]? = some acc := by
      unfold InvokeContext.getInstructionAccountWithIdx at hacc
      cases hget : cc.ctx.accounts[idx]? with
      | none => rw [hget] at hacc; cases hacc
      | some found => rw [hget] at hacc; cases hacc; rfl
    rw [List.map_cons, ih, List.filterMap_cons, hidx]
    rfl

theorem pubkey_of_account (h : ctx.getInstructionAccountWithIdx idx = .ok acc)
    (hkey : ctx.getInstructionPubkeyWithIdx idx = .ok pubkey) : acc.pubkey = pubkey := by
  rw [InvokeContext.getInstructionPubkeyWithIdx, h] at hkey
  exact Except.ok.inj hkey

/-- The last steps of both instructions. -/
theorem charged_of_vault (hwith : env.isIntentWithinLimits bundle) (hbef : b₁.lamports = b.lamports)
    (hvlt : vault.map (·.pubkey) = if pays then some env.magicFeeVaultPubkey else none)
    (hnone : vault = none → b₂ = b₁)
    (hsome : ∀ acc, vault = some acc → ∃ fee, bundle.calculateFee = .ok fee ∧
      (chargeDelegatedPayer payer acc fee).Ok b₁ () b₂)
    (haft : b'.lamports = b₂.lamports) : Charged env b pays payer.pubkey bundle b' where
  within := hwith
  unpaid h := by
    rw [h, if_neg Bool.false_ne_true, Option.map_eq_none_iff] at hvlt
    rw [haft, hnone hvlt, hbef]
  paid h := by
    rw [h, if_pos rfl] at hvlt
    obtain ⟨acc, rfl, hkey⟩ := Option.map_eq_some_iff.mp hvlt
    obtain ⟨fee, hfee, hchar⟩ := hsome acc rfl
    refine ⟨fee, hfee, fun a => ?_⟩
    rw [haft, ← hbef, ← hkey]
    exact transfers_chargeDelegatedPayer hchar a

/-- The intent that was queued last is charged to its payer. -/
def ChargesLast (env : ProgramEnv) (ctx : InvokeContext) (instruction : ScheduleInstruction)
    (b b' : Bank) : Prop :=
  ∃ intent payer, b'.context.scheduledBaseIntents.getLast? = some intent ∧
    ctx.getInstructionPubkeyWithIdx payerIdx = .ok payer ∧
    Charged env b (instruction.pays ctx b payer) payer intent.intentBundle b'

theorem charged_processScheduleIntentBundle {secure : Bool}
    (h : (processScheduleIntentBundle env ctx args secure).Ok b u b') :
    ChargesLast env ctx (.intentBundle args secure) b b' := by
  unfold processScheduleIntentBundle at h
  simp only [Exec.ok_bind, Exec.ok_ofExcept, Exec.ok_ensure, Exec.ok_get, ok_writeContext] at h
  obtain ⟨_, _, ⟨-, rfl⟩, _, _, ⟨-, rfl⟩, _, _, ⟨-, rfl⟩, _, _, ⟨-, rfl⟩, payer, _,
    ⟨hpayer, rfl⟩, _, _,
    ⟨-, rfl⟩, _, _, ⟨rfl, rfl⟩, bundle, b₁, hbuild, marked, _, ⟨hmarked, rfl⟩, _, b₂, hmark,
    payerAccount, _, ⟨hacc, rfl⟩, ⟨vault, _⟩, b₃, hvlt, _, b₄, hchar, -, rfl⟩ := h
  obtain rfl := pubkey_of_account hacc hpayer
  obtain rfl : b₂ = b₃ := (preserves_tryGetFeeVault (f := id) hvlt).symm
  obtain ⟨found, hfound, hkey⟩ := ok_tryGetFeeVault hvlt
  obtain rfl : payerAccount = found := Except.ok.inj (hacc.symm.trans hfound)
  have hbuilt : b₁.funds = b.funds := funds_tryFromArgs hbuild
  have hfunds := funds_markAccounts hmark
  rw [hbuilt, keys_of_extractCommitAccounts hmarked] at hfunds
  -- the mode is read after the marking
  have hmode : (b₂.accounts payerAccount.pubkey).mode = .delegated ↔
      (ScheduleInstruction.intentBundle args secure).pays ctx b payerAccount.pubkey = true := by
    have hpayermode : (b₂.accounts payerAccount.pubkey).mode =
        if payerAccount.pubkey ∈ args.undelegatedKeys ctx then .undelegating
        else (b.accounts payerAccount.pubkey).mode :=
      congrArg Prod.snd (hfunds payerAccount.pubkey)
    rw [hpayermode, ScheduleInstruction.pays, decide_eq_true_eq]
    split_ifs with hmem <;> simp [hmem]
  have hbef : b₂.lamports = b.lamports := funext fun a => congrArg Prod.fst (hfunds a)
  have hnone (h : vault = none) : b₄ = b₂ := by
    subst h
    exact Exec.Preserves.forM (f := id) (fun _ => .ofExcept) hchar
  have hsome (acc : InstructionAccount) (h : vault = some acc) :
      ∃ fee, bundle.calculateFee = .ok fee ∧
        (chargeDelegatedPayer payerAccount acc fee).Ok b₂ () b₄ := by
    subst h
    obtain ⟨fee, _, hfee, hpay⟩ := Exec.ok_bind.mp hchar
    obtain ⟨hcalc, rfl⟩ := Exec.ok_ofExcept.mp hfee
    exact ⟨fee, hcalc, hpay⟩
  exact ⟨_, _, List.getLast?_concat .., hpayer,
    charged_of_vault (within_of_tryFromArgs hbuild) hbef
      (hkey.trans (if_congr hmode rfl rfl)) hnone hsome rfl⟩

/-- Scheduling a committee moves no lamports. -/
theorem lamports_scheduleCommittee (cs : List CommittedAccount) (acc : InstructionAccount) :
    Preserves Bank.lamports (scheduleCommittee env signers parent und cs acc) := by
  have hmark : Preserves Bank.lamports (markAccountAsUndelegated env acc) :=
    fun _ _ _ h => funext fun a => congrArg Prod.fst (funds_markAccountAsUndelegated h)
  have hval : Preserves Bank.lamports (validateCommittee env signers parent und acc) :=
    .bind preserves_borrow fun _ => .bind .ensure fun _ => .bind .ensure fun _ =>
      .bind .ensure fun _ => .ofExcept
  have hrsv : Preserves Bank.lamports (reserveCommitId env acc) :=
    funds_reserveCommitId.comp fun funds a => (funds a).1
  exact .bind hval fun _ => .bind preserves_borrow fun _ => .ite .pure
    (.bind hrsv fun _ => .bind (.ite hmark .pure) fun _ => .pure)

/-- What `ScheduleCommit` queues costs what its commits cost. -/
theorem calculateFee_ofCommits (und : Bool) (cs : List CommittedAccount) :
    (if und then { commitFinalizeAndUndelegate := some ⟨.standalone cs, .standalone⟩ }
      else { commitFinalize := some (.standalone cs) } : MagicIntentBundle).calculateFee =
        calculateCommitFee cs := by
  have hnil : Priceable [] := Nat.zero_le _
  rw [calculateCommitFee_eq, calculateFee_eq, MagicIntentBundle.fee_eq_parts,
    MagicIntentBundle.getAllCommittedAccounts_eq]
  · cases und <;>
      simp [CommitAndUndelegate.fee, CommitType.fee, CommitType.actions, UndelegateType.actions,
        actionsFeeOf_nil, CommitType.getCommittedAccounts, CommitAndUndelegate.getCommittedAccounts]
  · cases und <;>
      simp [MagicIntentBundle.actionLists, CommitType.actions, UndelegateType.actions, hnil]

theorem charged_processScheduleCommit (h : (processScheduleCommit env ctx und).Ok b u b') :
    ChargesLast env ctx (.commit und) b b' := by
  unfold processScheduleCommit at h
  simp only [Exec.ok_bind, Exec.ok_ofExcept, Exec.ok_ensure, Exec.ok_get, ok_writeContext] at h
  obtain ⟨_, _, ⟨-, rfl⟩, _, _, ⟨-, rfl⟩, payer, _, ⟨hpayer, rfl⟩, _, _, ⟨-, rfl⟩, payerAccount, _,
    ⟨hacc, rfl⟩, ⟨vault, _⟩, b₀, hvlt, _, _, ⟨-, rfl⟩, _, _, ⟨-, rfl⟩, cs, b₁, hloop, _, b₂,
    hchar, _, _, ⟨rfl, rfl⟩, _, _, ⟨-, rfl⟩, _, _, ⟨hsize, rfl⟩, -, rfl⟩ := h
  obtain rfl : b = b₀ := (preserves_tryGetFeeVault (f := id) hvlt).symm
  obtain ⟨found, hfound, hkey⟩ := ok_tryGetFeeVault hvlt
  obtain rfl : payerAccount = found := Except.ok.inj (hacc.symm.trans hfound)
  have hbef : b₁.lamports = b.lamports :=
    Preserves.foldlM lamports_scheduleCommittee [] hloop
  have hmode : (b.accounts payerAccount.pubkey).mode = .delegated ↔
      (ScheduleInstruction.commit und).pays ctx b payerAccount.pubkey = true := by
    rw [ScheduleInstruction.pays, decide_eq_true_eq]
  have hnone (h : vault = none) : b₂ = b₁ := by
    subst h
    exact Exec.Preserves.ite (f := id) .pure .ofExcept hchar
  have hsome (acc : InstructionAccount) (h : vault = some acc) :
      ∃ fee, calculateCommitFee cs = .ok fee ∧
        (chargeDelegatedPayer payerAccount acc fee).Ok b₁ () b₂ := by
    subst h
    obtain ⟨fee, _, hfee, hpay⟩ := Exec.ok_bind.mp hchar
    obtain ⟨hcalc, rfl⟩ := Exec.ok_ofExcept.mp hfee
    exact ⟨fee, hcalc, hpay⟩
  rw [← calculateFee_ofCommits und] at hsome
  obtain rfl := pubkey_of_account hacc hpayer
  exact ⟨_, _, List.getLast?_concat .., hpayer,
    charged_of_vault (within_of_validateIntentSize hsize) hbef
      (hkey.trans (if_congr hmode rfl rfl)) hnone hsome rfl⟩

theorem charged_process {instruction : ScheduleInstruction}
    (h : (instruction.process env ctx).Ok b u b') :
    ∃ intent payer,
      b'.context.scheduledBaseIntents = b.context.scheduledBaseIntents ++ [intent] ∧
      ctx.getInstructionPubkeyWithIdx payerIdx = .ok payer ∧
      Charged env b (instruction.pays ctx b payer) payer intent.intentBundle b' := by
  have hboth : (∃ bundle r, Schedules env b bundle r b' ∧
        (bundle.intentBundle.getAllCommittedAccounts.map (·.pubkey)).Nodup) ∧
      ChargesLast env ctx instruction b b' := by
    cases instruction with
    | commit und =>
      exact ⟨schedules_processScheduleCommit h, charged_processScheduleCommit h⟩
    | intentBundle args secure =>
      exact ⟨schedules_processScheduleIntentBundle h, charged_processScheduleIntentBundle h⟩
  obtain ⟨⟨bundle, _, hs, -⟩, intent, payer, hlast, hpay, hchar⟩ := hboth
  rw [hs.queue, List.getLast?_concat] at hlast
  cases hlast
  exact ⟨bundle, payer, hs.queue, hpay, hchar⟩

end Charge

/-! ### Scheduling -/

/-- The program with the limits as they are estimated. -/
def ProgramEnv.limitedBy (env : ProgramEnv) (compiler : MessageCompiler)
    (builder : InstructionBuilder) : ProgramEnv :=
  { env with isIntentWithinLimits := Limits.isIntentWithinLimits compiler env.authority builder }

/-- A transaction with one instruction; a failed one is rolled back. -/
def ScheduleInstruction.transact (env : ProgramEnv) (ctx : InvokeContext)
    (instruction : ScheduleInstruction) (b : Bank) : Except InstructionError Unit × Bank :=
  match (instruction.process env ctx).outcome b with
  | (.ok (), b') => (.ok (), b')
  | (.error e, _) => (.error e, b)

/-- **Fees are exact.**  Within the limits the fee is the sum over accounts and lists of actions,
and a 64-bit word.  Scheduling a bundle moves this fee from the payer to the vault, if the payer
pays, and otherwise nothing. -/
theorem fee_charged_exactly (env : ProgramEnv) (compiler : MessageCompiler)
    (builder : InstructionBuilder) :
    (∀ bundle, (env.limitedBy compiler builder).isIntentWithinLimits bundle →
      bundle.calculateFee = feeUnlessMissing bundle.getAllCommittedAccounts bundle.fee ∧
        bundle.fee < 2 ^ 64) ∧
    ∀ ctx instruction b,
      match ScheduleInstruction.transact (env.limitedBy compiler builder) ctx instruction b with
      | (.ok (), b') => ∃ intent payer,
          b'.context.scheduledBaseIntents = b.context.scheduledBaseIntents ++ [intent] ∧
          (env.limitedBy compiler builder).isIntentWithinLimits intent.intentBundle ∧
          ctx.getInstructionPubkeyWithIdx payerIdx = .ok payer ∧
          Transfers payer env.magicFeeVaultPubkey
            (if instruction.pays ctx b payer then intent.intentBundle.fee else 0) b b'
      | (.error _, b') => b' = b := by
  refine ⟨fun bundle h => calculateFee_of_limits h, fun ctx instruction b => ?_⟩
  rw [ScheduleInstruction.transact]
  rcases houtc : (instruction.process (env.limitedBy compiler builder) ctx).outcome b with
    ⟨e | _, b'⟩
  · rfl
  · obtain ⟨intent, payer, hqueue, hpay, hchar⟩ := charged_process houtc
    refine ⟨intent, payer, hqueue, hchar.within, hpay, ?_⟩
    split_ifs with hpays
    · obtain ⟨fee, hfee, htrans⟩ := hchar.paid hpays
      rw [(calculateFee_of_limits hchar.within).1, feeUnlessMissing] at hfee
      split_ifs at hfee
      exact Except.ok.inj hfee ▸ htrans
    · exact transfers_zero (hchar.unpaid (Bool.eq_false_iff.mpr hpays))

namespace ProgramExample

/-- Instructions without accounts. -/
def builder : InstructionBuilder where
  commitFinalize _ _ _ _ := ⟨5, [], []⟩
  commitFinalizeFromBuffer _ _ _ _ := ⟨5, [], []⟩
  undelegateWithRequest _ _ _ _ := ⟨5, [], []⟩
  callHandlerV2 _ _ _ _ _ _ := ⟨5, [], []⟩
  callHandler _ _ _ _ _ := ⟨5, [], []⟩
  bufferPda _ _ _ := 0

/-- The size of a message is the number of its instructions. -/
def compiler : MessageCompiler where
  loadedAccountsBytes := 0
  maxTransactionSize := 10
  packetDataSize := 0
  noopProgramId := 0
  setComputeUnitLimit _ := ⟨0, [], []⟩
  setComputeUnitPrice _ := ⟨0, [], []⟩
  v1WireSize _ instructions _ _ _ := some instructions.length
  v0WireSize _ _ _ := none

/-- The payer 30 with 100 lamports, and the delegated vault 4. -/
def fundedBank (payerMode : AccountMode) : Bank where
  accounts a :=
    if a = 30 then { account payerMode 0 [] with lamports := 100 } else account .delegated 0 []
  context := default
  reserved := []

/-- Program 40 schedules for the payer 30. -/
def actionCtx : InvokeContext :=
  { ctx 4 with effectiveCaller := .ok (some 40) }

/-- One action of 1000 compute units. -/
def oneAction : ScheduleInstruction :=
  .intentBundle { standaloneActions := [⟨⟨0, []⟩, 1000, 0, 40, []⟩] } true

end ProgramExample

open ProgramExample in
/-- A payer that is not delegated schedules an action that costs 50 lamports, and nobody pays. -/
theorem fee_not_charged_of_mirrored :
    let (result, b') := oneAction.transact (env.limitedBy compiler builder) actionCtx
      (fundedBank .mirrored)
    result = .ok () ∧
      b'.context.scheduledBaseIntents.map (·.intentBundle.calculateFee) = [.ok 50] ∧
      b'.lamports 30 = (fundedBank .mirrored).lamports 30 ∧
      b'.lamports 4 = (fundedBank .mirrored).lamports 4 := by
  decide +kernel

open ProgramExample in
/-- A delegated payer pays for the same action. -/
theorem fee_charged_exactly_of_delegated :
    ∃ b' intent, oneAction.transact (env.limitedBy compiler builder) actionCtx
        (fundedBank .delegated) = (.ok (), b') ∧
      b'.context.scheduledBaseIntents = [intent] ∧ intent.intentBundle.fee < 2 ^ 64 ∧
      Transfers 30 4 intent.intentBundle.fee (fundedBank .delegated) b' := by
  obtain ⟨hfee, hchar⟩ := fee_charged_exactly env compiler builder
  have hok : oneAction.transact (env.limitedBy compiler builder) actionCtx
      (fundedBank .delegated) = (.ok (), (oneAction.transact (env.limitedBy compiler builder)
        actionCtx (fundedBank .delegated)).2) :=
    Prod.ext (by decide +kernel) rfl
  have hrun := hchar actionCtx oneAction (fundedBank .delegated)
  rw [hok] at hrun
  obtain ⟨intent, payer, hqueue, hwith, hpay, htrans⟩ := hrun
  obtain rfl : (30 : Pubkey) = payer := Except.ok.inj hpay
  have hpays : oneAction.pays actionCtx (fundedBank .delegated) 30 = true := by decide +kernel
  rw [if_pos hpays] at htrans
  exact ⟨_, intent, hok, hqueue, (hfee _ hwith).2, htrans⟩

end Magicblock
