import Magicblock.Program.Runtime

/-!
# Program/Ephemeral — ephemeral accounts and the vault that holds their rent

An ephemeral account has no lamports; a sponsor pays its rent into a vault that all of them share,
and gets it back when the account shrinks or is closed.  What was paid is not stored: a refund is
computed from the length that the account has then, and the mark `RENT_FUNDED` says that its rent is
in the vault.  The instructions stand here, with what each does to marks, lengths and the vault.

Sponsor, target and vault are places in the list of accounts and may be the same account.  The vault
is an address without a key: no instruction has its signature.
-/

namespace Magicblock

open Exec Function

/-- An account, with the flag `RENT_FUNDED`. -/
structure EphemeralAccount extends AccountSharedData where
  rentFunded : Bool
  deriving DecidableEq

abbrev EphemeralBank := Pubkey → EphemeralAccount

abbrev EphemeralProgram : Type → Type := Exec EphemeralBank InstructionError

/-- The addresses and the rules about lifecycles that the instructions use. -/
structure EphemeralEnv where
  vault : Pubkey
  systemProgramId : Pubkey
  allowsLifecycle : AccountMode → AccountMode → Bool

namespace Ephemeral

/-- The places of the accounts. -/
def sponsorIdx : ℕ := 0
def ephemeralIdx : ℕ := 1
def vaultIdx : ℕ := 2

/-- 10 MB. -/
def maxDataLen : ℕ := 10 * 1024 * 1024

/-- In lamports; every account counts as 60 bytes more. -/
def rentPerByte : ℕ := 32
def accountStaticSize : ℕ := 60

/-! ### Arithmetic -/

/-- A sum or a product that is checked to be a `u64`. -/
def checkedU64 (n : ℕ) : Except InstructionError ℕ :=
  if n < 2 ^ 64 then .ok n else .error .arithmeticOverflow

/-- The rent of a length, with checked arithmetic. -/
def rentFor (dataLen : ℕ) : Except InstructionError ℕ := do
  let totalSize ← checkedU64 (dataLen + accountStaticSize)
  checkedU64 (totalSize * rentPerByte)

/-- An `i64` that is computed without a check wraps. -/
def wrapI64 (n : ℤ) : ℤ := n.bmod (2 ^ 64)

/-- `rent as i64`. -/
def asI64 (n : ℕ) : ℤ := wrapI64 n

/-- The lengths of accounts are read as `u32`. -/
def getEphemeralDataLen (account : EphemeralAccount) : Except InstructionError ℕ :=
  if account.data.length < 2 ^ 32 then .ok account.data.length else .error .arithmeticOverflow

/-- Zeros are added at the end. -/
def resize (data : List UInt8) (newLen : ℕ) : List UInt8 :=
  data.take newLen ++ List.replicate (newLen - data.length) 0

/-! ### Accounts -/

def update (pubkey : Pubkey) (f : EphemeralAccount → EphemeralAccount) : EphemeralProgram Unit :=
  modify fun bank => Function.update bank pubkey (f (bank pubkey))

def borrow (pubkey : Pubkey) : EphemeralProgram EphemeralAccount :=
  return (← get) pubkey

def isInstructionAccountSigner (ctx : InvokeContext) (idx : ℕ) : Except InstructionError Bool :=
  (ctx.getInstructionPubkeyWithIdx idx).map (· ∈ ctx.signers)

def debitInstructionAccountAtIndex (ctx : InvokeContext) (idx amount : ℕ) :
    EphemeralProgram Unit := do
  let pubkey ← Exec.ofExcept (ctx.getInstructionPubkeyWithIdx idx)
  let account ← borrow pubkey
  Exec.ensure (amount ≤ account.lamports) .insufficientFunds
  update pubkey fun account => { account with lamports := account.lamports - amount }

def creditInstructionAccountAtIndex (ctx : InvokeContext) (idx amount : ℕ) :
    EphemeralProgram Unit := do
  let pubkey ← Exec.ofExcept (ctx.getInstructionPubkeyWithIdx idx)
  let account ← borrow pubkey
  Exec.ensure (account.lamports + amount < 2 ^ 64) .arithmeticOverflow
  update pubkey fun account => { account with lamports := account.lamports + amount }

/-- From the sponsor to the vault, or back if the amount is not positive. -/
def transferRent (ctx : InvokeContext) (amount : ℤ) : EphemeralProgram Unit :=
  if 0 < amount then do
    debitInstructionAccountAtIndex ctx sponsorIdx amount.toNat
    creditInstructionAccountAtIndex ctx vaultIdx amount.toNat
  else do
    creditInstructionAccountAtIndex ctx sponsorIdx amount.natAbs
    debitInstructionAccountAtIndex ctx vaultIdx amount.natAbs

/-- Some changes of the mode are not allowed. -/
def setAccountMode (env : EphemeralEnv) (pubkey : Pubkey) (mode : AccountMode) :
    EphemeralProgram Unit := do
  let account ← borrow pubkey
  Exec.ensure (env.allowsLifecycle account.mode mode) .invalidArgument
  update pubkey fun account => { account with mode := mode }

/-! ### Validation -/

/-- The sponsor signs, and the vault is the vault. -/
def validateCommon (env : EphemeralEnv) (ctx : InvokeContext) : EphemeralProgram Pubkey := do
  let caller ← Exec.ofExcept ctx.effectiveCaller
  let caller ← Exec.ofOption caller .incorrectProgramId
  let sponsorSigns ← Exec.ofExcept (isInstructionAccountSigner ctx sponsorIdx)
  Exec.ensure sponsorSigns .missingRequiredSignature
  let vault ← Exec.ofExcept (ctx.getInstructionPubkeyWithIdx vaultIdx)
  Exec.ensure (vault = env.vault) .invalidAccountData
  return caller

/-- A new account signs and is empty. -/
def validateNewEphemeral (env : EphemeralEnv) (ctx : InvokeContext) : EphemeralProgram Pubkey := do
  let targetSigns ← Exec.ofExcept (isInstructionAccountSigner ctx ephemeralIdx)
  Exec.ensure targetSigns .missingRequiredSignature
  let pubkey ← Exec.ofExcept (ctx.getInstructionPubkeyWithIdx ephemeralIdx)
  let account ← borrow pubkey
  Exec.ensure (account.lamports = 0 ∧ account.owner = env.systemProgramId) .invalidAccountData
  return pubkey

/-- Only the owner may go on with an account whose rent is in the vault. -/
def validateExistingEphemeral (ctx : InvokeContext) (callerProgramId : Pubkey) :
    EphemeralProgram Pubkey := do
  let pubkey ← Exec.ofExcept (ctx.getInstructionPubkeyWithIdx ephemeralIdx)
  let account ← borrow pubkey
  Exec.ensure (account.mode = .magic ∧ account.rentFunded) .invalidAccountData
  Exec.ensure (account.owner = callerProgramId) .invalidAccountOwner
  return pubkey

/-! ### Instructions -/

/-- The sponsor pays the rent of the length. -/
def processCreateEphemeralAccount (env : EphemeralEnv) (ctx : InvokeContext) (dataLen : ℕ) :
    EphemeralProgram Unit := do
  Exec.ensure (dataLen ≤ maxDataLen) .invalidArgument
  let callerProgramId ← validateCommon env ctx
  let pubkey ← validateNewEphemeral env ctx
  let rent ← Exec.ofExcept (rentFor dataLen)
  transferRent ctx (asI64 rent)
  update pubkey fun account =>
    { account with lamports := 0, owner := callerProgramId, data := resize account.data dataLen }
  setAccountMode env pubkey .magic
  update pubkey fun account => { account with rentFunded := true }

/-- The difference of the rents is paid, or given back. -/
def processResizeEphemeralAccount (env : EphemeralEnv) (ctx : InvokeContext) (newDataLen : ℕ) :
    EphemeralProgram Unit := do
  Exec.ensure (newDataLen ≤ maxDataLen) .invalidArgument
  let callerProgramId ← validateCommon env ctx
  let pubkey ← validateExistingEphemeral ctx callerProgramId
  let oldLen ← Exec.ofExcept (getEphemeralDataLen (← borrow pubkey))
  let newRent ← Exec.ofExcept (rentFor newDataLen)
  let oldRent ← Exec.ofExcept (rentFor oldLen)
  transferRent ctx (wrapI64 (asI64 newRent - asI64 oldRent))
  update pubkey fun account => { account with data := resize account.data newDataLen }

/-- The rent of the current length is given back. -/
def processCloseEphemeralAccount (env : EphemeralEnv) (ctx : InvokeContext) :
    EphemeralProgram Unit := do
  let callerProgramId ← validateCommon env ctx
  let pubkey ← validateExistingEphemeral ctx callerProgramId
  let dataLen ← Exec.ofExcept (getEphemeralDataLen (← borrow pubkey))
  let refund ← Exec.ofExcept (rentFor dataLen)
  transferRent ctx (wrapI64 (-asI64 refund))
  update pubkey fun account =>
    { account with lamports := 0, owner := env.systemProgramId, data := resize account.data 0 }
  setAccountMode env pubkey .closed
  update pubkey fun account => { account with rentFunded := false }

/-- The programs that serve these instructions. -/
inductive EntryPoint where
  | magic
  | ephemeralSystem
  deriving DecidableEq

inductive EphemeralInstruction where
  | create (dataLen : ℕ)
  | resize (newDataLen : ℕ)
  | close
  deriving DecidableEq

/-- Both entry points call the same code. -/
def process (env : EphemeralEnv) (ctx : InvokeContext) :
    EntryPoint → EphemeralInstruction → EphemeralProgram Unit
  | .magic, .create dataLen => processCreateEphemeralAccount env ctx dataLen
  | .magic, .resize newDataLen => processResizeEphemeralAccount env ctx newDataLen
  | .magic, .close => processCloseEphemeralAccount env ctx
  | .ephemeralSystem, .create dataLen => processCreateEphemeralAccount env ctx dataLen
  | .ephemeralSystem, .resize newDataLen => processResizeEphemeralAccount env ctx newDataLen
  | .ephemeralSystem, .close => processCloseEphemeralAccount env ctx

/-! ### No overflow -/

/-- The rent of a length, as a number. -/
def rent (dataLen : ℕ) : ℕ := (dataLen + accountStaticSize) * rentPerByte

/-- Rents are small. -/
theorem rent_lt (h : dataLen < 2 ^ 32) : rent dataLen < 2 ^ 38 := by
  rw [rent, accountStaticSize, rentPerByte]
  omega

theorem rentFor_eq (h : dataLen < 2 ^ 32) : rentFor dataLen = .ok (rent dataLen) := by
  have hrent := rent_lt h
  rw [rent] at hrent
  have hsize : dataLen + accountStaticSize < 2 ^ 64 := by rw [accountStaticSize]; omega
  rw [rentFor, checkedU64, if_pos hsize]
  change checkedU64 _ = _
  rw [checkedU64, if_pos (hrent.trans (by decide)), rent]

theorem wrapI64_eq (hlow : -2 ^ 63 ≤ i) (hhigh : i < 2 ^ 63) : wrapI64 i = i := by
  rw [wrapI64]
  exact Int.bmod_eq_of_le (by omega) (by omega)

theorem asI64_rent (h : dataLen < 2 ^ 32) : asI64 (rent dataLen) = rent dataLen := by
  have hrent := rent_lt h
  exact wrapI64_eq (by omega) (by omega)

/-- **No step of the arithmetic overflows or truncates** for these two lengths of an account. -/
structure ArithmeticExact (newLen oldLen : ℕ) : Prop where
  rentFor_new : rentFor newLen = .ok (rent newLen)
  rentFor_old : rentFor oldLen = .ok (rent oldLen)
  charge : asI64 (rent newLen) = rent newLen
  delta : wrapI64 (asI64 (rent newLen) - asI64 (rent oldLen)) = rent newLen - rent oldLen
  refund : wrapI64 (-asI64 (rent oldLen)) = -rent oldLen

theorem arithmeticExact (hnew : n < 2 ^ 32) (hold : m < 2 ^ 32) : ArithmeticExact n m := by
  have hrentNew := rent_lt hnew
  have hrentOld := rent_lt hold
  have hchargeNew := asI64_rent hnew
  have hchargeOld := asI64_rent hold
  refine ⟨rentFor_eq hnew, rentFor_eq hold, hchargeNew, ?_, ?_⟩
  · rw [hchargeNew, hchargeOld]
    exact wrapI64_eq (by omega) (by omega)
  · rw [hchargeOld]
    exact wrapI64_eq (by omega) (by omega)

theorem length_resize : (resize data newLen).length = newLen := by
  rw [resize, List.length_append, List.length_take, List.length_replicate]
  omega

theorem getEphemeralDataLen_ok :
    getEphemeralDataLen acc = .ok n ↔ acc.data.length < 2 ^ 32 ∧ acc.data.length = n := by
  rw [getEphemeralDataLen]
  split_ifs with h
  · simp only [Except.ok.injEq, h, true_and]
  · simp only [h, false_and]

/-! ### What a successful instruction did -/

variable {env : EphemeralEnv} {ctx : InvokeContext} {bank bank' : EphemeralBank}
  {pk target vault : Pubkey} {amount : ℤ}

@[simp]
theorem ok_borrow : (borrow pk).Ok bank acc bank' ↔ bank pk = acc ∧ bank = bank' := by
  simp [borrow, and_comm]

@[simp] theorem ok_update : (update pk f).Ok bank u bank' ↔
      Function.update bank pk (f (bank pk)) = bank' := by
  simp [update]

/-- The bank in which one account has another balance. -/
def withLamports (bank : EphemeralBank) (pubkey : Pubkey) (lamports : ℕ) : EphemeralBank :=
  Function.update bank pubkey { bank pubkey with lamports := lamports }

@[simp]
theorem withLamports_self : (withLamports bank pk n pk).lamports = n := by
  rw [withLamports, update_self]

theorem withLamports_of_ne (h : k ≠ pk) : withLamports bank pk n k = bank k := by
  rw [withLamports, update_of_ne h]

/-- Nothing but the balances changes. -/
def SameMarks (bank bank' : EphemeralBank) : Prop :=
  ∀ k, (bank' k).rentFunded = (bank k).rentFunded ∧ (bank' k).data = (bank k).data

theorem sameMarks_withLamports : SameMarks bank (withLamports bank pk n) := by
  intro k
  by_cases hk : k = pk
  · rw [hk, withLamports, update_self]
    exact ⟨rfl, rfl⟩
  · rw [withLamports_of_ne hk]
    exact ⟨rfl, rfl⟩

theorem SameMarks.trans (h : SameMarks bank bank')
    (h' : SameMarks bank' bank'') : SameMarks bank bank'' := fun k =>
  ⟨(h' k).1.trans (h k).1, (h' k).2.trans (h k).2⟩

/-- The balances are words of 64 bits. -/
def Words (bank : EphemeralBank) : Prop := ∀ k, (bank k).lamports < 2 ^ 64

theorem Words.update (h : Words bank) (hacc : acc.lamports < 2 ^ 64) :
    Words (Function.update bank pk acc) := by
  intro k
  by_cases hk : k = pk
  · rw [hk, Function.update_self]
    exact hacc
  · rw [Function.update_of_ne hk]
    exact h k

theorem ok_debit :
    (debitInstructionAccountAtIndex ctx idx n).Ok bank u bank' ↔
      ∃ k, ctx.getInstructionPubkeyWithIdx idx = .ok k ∧ n ≤ (bank k).lamports ∧
        withLamports bank k ((bank k).lamports - n) = bank' := by
  simp [debitInstructionAccountAtIndex, withLamports, and_assoc]

theorem ok_credit :
    (creditInstructionAccountAtIndex ctx idx n).Ok bank u bank' ↔
      ∃ k, ctx.getInstructionPubkeyWithIdx idx = .ok k ∧ (bank k).lamports + n < 2 ^ 64 ∧
        withLamports bank k ((bank k).lamports + n) = bank' := by
  simp [creditInstructionAccountAtIndex, withLamports, and_assoc]

/-- Lamports went into the vault, or out of it, and nothing but balances changed. -/
structure Transfers (vault : Pubkey) (amount : ℤ) (bank bank' : EphemeralBank) : Prop where
  vault_lamports : ((bank' vault).lamports : ℤ) = (bank vault).lamports + amount
  marks : SameMarks bank bank'
  words : Words bank → Words bank'

/-- **A transfer of rent is exact** for the vault, if the sponsor is another account. -/
theorem transfers_of_ok (hspon : ctx.getInstructionPubkeyWithIdx sponsorIdx = .ok sponsor)
    (hvlt : ctx.getInstructionPubkeyWithIdx vaultIdx = .ok vault) (hne : sponsor ≠ vault)
    (h : (transferRent ctx amount).Ok bank u bank') : Transfers vault amount bank bank' := by
  rw [transferRent, ok_ite] at h
  simp only [ok_bind, ok_debit, ok_credit, hspon, hvlt, Except.ok.injEq, exists_eq_left'] at h
  obtain ⟨hpos, -, b, ⟨-, rfl⟩, hfits, rfl⟩ | ⟨hneg, -, b, ⟨hfits, rfl⟩, hle, rfl⟩ := h
  · rw [withLamports_of_ne hne.symm] at hfits ⊢
    refine ⟨?_, sameMarks_withLamports.trans sameMarks_withLamports, fun hwords => ?_⟩
    · rw [withLamports_self]
      omega
    · exact (hwords.update (Nat.lt_of_le_of_lt (Nat.sub_le _ _) (hwords sponsor))).update hfits
  · rw [withLamports_of_ne hne.symm] at hle ⊢
    refine ⟨?_, sameMarks_withLamports.trans sameMarks_withLamports, fun hwords => ?_⟩
    · rw [withLamports_self]
      omega
    · exact (hwords.update hfits).update (Nat.lt_of_le_of_lt (Nat.sub_le _ _) (hwords vault))

/-- **What an instruction leaves behind**: the mark and the length of its target, and what it moved
into the vault. -/
structure Effect (vault target : Pubkey) (funded : Bool) (len : ℕ) (amount : ℤ)
    (bank bank' : EphemeralBank) : Prop where
  vault_lamports : ((bank' vault).lamports : ℤ) = (bank vault).lamports + amount
  target_funded : (bank' target).rentFunded = funded
  target_len : (bank' target).data.length = len
  others : ∀ k, k ≠ target →
    (bank' k).rentFunded = (bank k).rentFunded ∧ (bank' k).data = (bank k).data
  words : Words bank → Words bank'

/-- After the transfer only the target is written. -/
theorem Transfers.effect (h : Transfers vault amount bank bank') (target : Pubkey)
    (acc : EphemeralAccount)
    (hvlt : vault = target → acc.lamports = (bank' vault).lamports)
    (hlamps : acc.lamports ≤ (bank' target).lamports) :
    Effect vault target acc.rentFunded acc.data.length amount bank
      (Function.update bank' target acc) := by
  refine ⟨?_, ?_, ?_, ?_, ?_⟩
  · by_cases hk : vault = target
    · rw [← h.vault_lamports, ← hvlt hk, hk, Function.update_self]
    · rw [Function.update_of_ne hk]
      exact h.vault_lamports
  · rw [Function.update_self]
  · rw [Function.update_self]
  · intro k hk
    rw [Function.update_of_ne hk]
    exact h.marks k
  · intro hwords
    exact (h.words hwords).update (Nat.lt_of_le_of_lt hlamps (h.words hwords target))

theorem ok_signer :
    isInstructionAccountSigner ctx idx = .ok true ↔
      ∃ k, ctx.getInstructionPubkeyWithIdx idx = .ok k ∧ k ∈ ctx.signers := by
  rw [isInstructionAccountSigner]
  cases ctx.getInstructionPubkeyWithIdx idx <;> simp [Except.map]

/-- Checks change nothing. -/
theorem ok_validateCommon (h : (validateCommon env ctx).Ok bank caller bank') :
    (∃ sponsor, ctx.getInstructionPubkeyWithIdx sponsorIdx = .ok sponsor ∧ sponsor ∈ ctx.signers) ∧
      ctx.getInstructionPubkeyWithIdx vaultIdx = .ok env.vault ∧ bank' = bank := by
  simp only [validateCommon, ok_bind, ok_ofExcept, ok_ofOption, ok_ensure,
    ok_pure, decide_eq_true_eq] at h
  obtain ⟨_, _, ⟨-, rfl⟩, _, _, ⟨-, rfl⟩, _, _, ⟨hsigns, rfl⟩, _, _, ⟨rfl, rfl⟩, _, _, ⟨hvlt, rfl⟩,
    _, _, ⟨rfl, rfl⟩, -, rfl⟩ := h
  exact ⟨ok_signer.mp hsigns, hvlt, rfl⟩

theorem ok_validateNewEphemeral (h : (validateNewEphemeral env ctx).Ok bank target bank') :
    ctx.getInstructionPubkeyWithIdx ephemeralIdx = .ok target ∧ target ∈ ctx.signers ∧
      (bank target).lamports = 0 ∧ bank' = bank := by
  simp only [validateNewEphemeral, ok_bind, ok_ofExcept, ok_ensure, ok_pure,
    ok_borrow, decide_eq_true_eq] at h
  obtain ⟨_, _, ⟨hsigns, rfl⟩, _, _, ⟨rfl, rfl⟩, _, _, ⟨htgt, rfl⟩, _, _, ⟨rfl, rfl⟩, _, _,
    ⟨hemp, rfl⟩, rfl, rfl⟩ := h
  obtain ⟨k, hk, hmem⟩ := ok_signer.mp hsigns
  cases htgt.symm.trans hk
  exact ⟨htgt, hmem, hemp.1, rfl⟩

theorem ok_validateExistingEphemeral
    (h : (validateExistingEphemeral ctx caller).Ok bank target bank') :
    ctx.getInstructionPubkeyWithIdx ephemeralIdx = .ok target ∧ (bank target).rentFunded = true ∧
      bank' = bank := by
  simp only [validateExistingEphemeral, ok_bind, ok_ofExcept, ok_ensure,
    ok_pure, ok_borrow, decide_eq_true_eq] at h
  obtain ⟨_, _, ⟨htgt, rfl⟩, _, _, ⟨rfl, rfl⟩, _, _, ⟨hmark, rfl⟩, _, _, ⟨-, rfl⟩, rfl, rfl⟩ := h
  exact ⟨htgt, hmark.2, rfl⟩

/-- **How an instruction succeeds**: the sponsor signs, rent is moved, and the target is written. -/
structure Performs (env : EphemeralEnv) (ctx : InvokeContext) (target : Pubkey) (amount : ℤ)
    (account : EphemeralAccount → EphemeralAccount) (bank bank' : EphemeralBank) : Prop where
  sponsor : ∃ sponsor, ctx.getInstructionPubkeyWithIdx sponsorIdx = .ok sponsor ∧
    sponsor ∈ ctx.signers
  key : ctx.getInstructionPubkeyWithIdx ephemeralIdx = .ok target
  vault : ctx.getInstructionPubkeyWithIdx vaultIdx = .ok env.vault
  moves : ∃ moved, (transferRent ctx amount).Ok bank () moved ∧
    bank' = Function.update moved target (account (moved target))

/-- A creation pays the rent… -/
theorem performs_create (h : (processCreateEphemeralAccount env ctx dataLen).Ok bank u bank') :
    ∃ caller target, dataLen ≤ maxDataLen ∧ target ∈ ctx.signers ∧ (bank target).lamports = 0 ∧
      Performs env ctx target (rent dataLen) (fun acc =>
        { acc with
          lamports := 0, owner := caller, data := resize acc.data dataLen, mode := .magic,
          rentFunded := true }) bank bank' := by
  simp only [processCreateEphemeralAccount, setAccountMode, ok_bind, ok_ensure,
    ok_ofExcept, ok_update, ok_borrow, decide_eq_true_eq] at h
  obtain ⟨_, _, ⟨hmax, rfl⟩, caller, _, hcomm, target, _, hnew, _, _, ⟨hrent, rfl⟩, _, moved, hmove,
    h⟩ := h
  obtain ⟨hspon, hvlt, rfl⟩ := ok_validateCommon hcomm
  obtain ⟨htgt, hsigns, hemp, rfl⟩ := ok_validateNewEphemeral hnew
  obtain ⟨_, _, rfl, _, _, ⟨_, _, ⟨rfl, rfl⟩, _, _, ⟨-, rfl⟩, rfl⟩, rfl⟩ := h
  have hlen : dataLen < 2 ^ 32 := by rw [maxDataLen] at hmax; omega
  rw [rentFor_eq hlen, Except.ok.injEq] at hrent
  rw [← hrent, asI64_rent hlen] at hmove
  exact ⟨caller, target, hmax, hsigns, hemp, hspon, htgt, hvlt, moved, hmove, by simp⟩

/-- …a resize the difference… -/
theorem performs_resize (h : (processResizeEphemeralAccount env ctx n).Ok bank u bank') :
    ∃ target, (bank target).rentFunded = true ∧ n ≤ maxDataLen ∧
      Performs env ctx target (rent n - rent (bank target).data.length)
        (fun acc => { acc with data := resize acc.data n }) bank bank' := by
  simp only [processResizeEphemeralAccount, ok_bind, ok_ensure, ok_ofExcept, ok_update,
    ok_borrow, decide_eq_true_eq, getEphemeralDataLen_ok] at h
  obtain ⟨_, _, ⟨hmax, rfl⟩, caller, _, hcomm, target, _, hexis, _, _, ⟨rfl, rfl⟩, _, _,
    ⟨⟨hold, rfl⟩, rfl⟩, _, _, ⟨hnewRent, rfl⟩, _, _, ⟨holdRent, rfl⟩, _, moved, hmove, rfl⟩ := h
  obtain ⟨hspon, hvlt, rfl⟩ := ok_validateCommon hcomm
  obtain ⟨htgt, hfund, rfl⟩ := ok_validateExistingEphemeral hexis
  have hexact := arithmeticExact (n := n) (by rw [maxDataLen] at hmax; omega) hold
  rw [hexact.rentFor_new, Except.ok.injEq] at hnewRent
  rw [hexact.rentFor_old, Except.ok.injEq] at holdRent
  rw [← hnewRent, ← holdRent, hexact.delta] at hmove
  exact ⟨target, hfund, hmax, hspon, htgt, hvlt, moved, hmove, rfl⟩

/-- …and a close gets back the rent of the length it finds. -/
theorem performs_close (h : (processCloseEphemeralAccount env ctx).Ok bank u bank') :
    ∃ target, (bank target).rentFunded = true ∧
      Performs env ctx target (-rent (bank target).data.length) (fun acc =>
        { acc with
          lamports := 0, owner := env.systemProgramId, data := resize acc.data 0,
          mode := .closed, rentFunded := false }) bank bank' := by
  simp only [processCloseEphemeralAccount, setAccountMode, ok_bind, ok_ensure,
    ok_ofExcept, ok_update, ok_borrow, getEphemeralDataLen_ok] at h
  obtain ⟨caller, _, hcomm, target, _, hexis, _, _, ⟨rfl, rfl⟩, _, _, ⟨⟨hlen, rfl⟩, rfl⟩, _, _,
    ⟨hrent, rfl⟩, _, moved, hmove, h⟩ := h
  obtain ⟨hspon, hvlt, rfl⟩ := ok_validateCommon hcomm
  obtain ⟨htgt, hfund, rfl⟩ := ok_validateExistingEphemeral hexis
  obtain ⟨_, _, rfl, _, _, ⟨_, _, ⟨rfl, rfl⟩, _, _, ⟨-, rfl⟩, rfl⟩, rfl⟩ := h
  have hexact := arithmeticExact hlen hlen
  rw [hexact.rentFor_old, Except.ok.injEq] at hrent
  rw [← hrent, hexact.refund] at hmove
  exact ⟨target, hfund, hspon, htgt, hvlt, moved, hmove, by simp⟩

section Instructions

variable (hkeyl : env.vault ∉ ctx.signers)

include hkeyl

/-- The vault changes by the rent that is moved, if it is not the target. -/
theorem Performs.effect (h : Performs env ctx target amount acc bank bank')
    (hvlt : target = env.vault → ∀ a, (acc a).lamports = a.lamports)
    (hlamps : ∀ a, (acc a).lamports ≤ a.lamports)
    (hfund : ∀ a, a.rentFunded = (bank target).rentFunded → (acc a).rentFunded = funded)
    (hlen : ∀ a, (acc a).data.length = len) :
    Effect env.vault target funded len amount bank bank' := by
  obtain ⟨sponsor, hspon, hsigns⟩ := h.sponsor
  obtain ⟨moved, hmove, rfl⟩ := h.moves
  have hne : sponsor ≠ env.vault := fun heq => hkeyl (heq ▸ hsigns)
  have htrans := transfers_of_ok hspon h.vault hne hmove
  have heff := htrans.effect target (acc (moved target))
    (fun heq => by rw [hvlt heq.symm, heq]) (hlamps _)
  rwa [hfund _ (htrans.marks target).1, hlen] at heff

/-- **Creating** puts the rent of the new length into the vault. -/
theorem effect_of_create (h : (processCreateEphemeralAccount env ctx dataLen).Ok bank u bank') :
    ∃ target, ctx.getInstructionPubkeyWithIdx ephemeralIdx = .ok target ∧ target ≠ env.vault ∧
      dataLen ≤ maxDataLen ∧ Effect env.vault target true dataLen (rent dataLen) bank bank' := by
  obtain ⟨caller, target, hmax, hsigns, -, h⟩ := performs_create h
  have hne : target ≠ env.vault := fun heq => hkeyl (heq ▸ hsigns)
  exact ⟨target, h.key, hne, hmax, h.effect hkeyl (fun heq => absurd heq hne)
    (fun _ => Nat.zero_le _) (fun _ _ => rfl) fun _ => length_resize⟩

/-- **Resizing** moves the difference of the two rents. -/
theorem effect_of_resize (h : (processResizeEphemeralAccount env ctx n).Ok bank u bank') :
    ∃ target, ctx.getInstructionPubkeyWithIdx ephemeralIdx = .ok target ∧
      (bank target).rentFunded = true ∧ n ≤ maxDataLen ∧
      Effect env.vault target true n (rent n - rent (bank target).data.length) bank bank' := by
  obtain ⟨target, hfund, hmax, h⟩ := performs_resize h
  exact ⟨target, h.key, hfund, hmax, h.effect hkeyl (fun _ _ => rfl) (fun _ => le_rfl)
    (fun _ ha => ha.trans hfund) fun _ => length_resize⟩

/-- **Closing** gives the rent of the present length back. -/
theorem effect_of_close (hvaultMark : (bank env.vault).rentFunded = false)
    (h : (processCloseEphemeralAccount env ctx).Ok bank u bank') :
    ∃ target, ctx.getInstructionPubkeyWithIdx ephemeralIdx = .ok target ∧
      (bank target).rentFunded = true ∧
      Effect env.vault target false 0 (-rent (bank target).data.length) bank bank' := by
  obtain ⟨target, hfund, h⟩ := performs_close h
  have hne : target ≠ env.vault := fun heq => by
    rw [heq, hvaultMark] at hfund
    cases hfund
  exact ⟨target, h.key, hfund, h.effect hkeyl (fun heq => absurd heq hne)
    (fun _ => Nat.zero_le _) (fun _ _ => rfl) fun _ => length_resize⟩

end Instructions

end Ephemeral

end Magicblock
