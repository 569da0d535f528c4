import Magicblock.Program.CommitIds

/-!
# Program/Duplicates — accounts that are listed twice

Whatever accounts an instruction lists, the intent it queues commits distinct keys
(`queued_keys_distinct`).  The loop of `ScheduleCommit` gets there by merging an account into one
that is committed under the same key already.  So listing an account again changes nothing
(`harmless_iff`), unless accounts are undelegated: then the first occurrence has locked the account,
and the second is rejected before it can be merged.
-/

namespace Magicblock

open List InvokeContext

open List (foldlM_cons map_append map_singleton mem_append mem_cons mem_singleton)

/-! ### Distinct keys -/

/-- The two ways to schedule an intent. -/
inductive ScheduleInstruction where
  | commit (requestUndelegation : Bool)
  | intentBundle (args : MagicIntentBundleArgs) (secure : Bool)

def ScheduleInstruction.process (env : ProgramEnv) (ctx : InvokeContext) :
    ScheduleInstruction → Program Unit
  | commit requestUndelegation => processScheduleCommit env ctx requestUndelegation
  | intentBundle args secure => processScheduleIntentBundle env ctx args secure

/-- **A queued intent commits distinct keys**, after remapping, whichever accounts were listed. -/
theorem queued_keys_distinct {env : ProgramEnv} {ctx : InvokeContext}
    {instruction : ScheduleInstruction} {b b' : Bank}
    (h : (instruction.process env ctx).Ok b () b') :
    ∃ intent, b'.context.scheduledBaseIntents = b.context.scheduledBaseIntents ++ [intent] ∧
      intent.getAllCommittedPubkeys.Nodup := by
  have hschs : ∃ bundle r, Schedules env b bundle r b' ∧
      (bundle.intentBundle.getAllCommittedAccounts.map (·.pubkey)).Nodup := by
    cases instruction with
    | commit requestUndelegation => exact schedules_processScheduleCommit h
    | intentBundle args secure => exact schedules_processScheduleIntentBundle h
  obtain ⟨bundle, r, hs, hkeys⟩ := hschs
  refine ⟨bundle, hs.queue, ?_⟩
  rw [ScheduledIntentBundle.getAllCommittedPubkeys, MagicIntentBundle.getAllCommittedPubkeys_eq]
  exact hkeys

namespace ProgramExample

/-- An instruction like `ctx` on any accounts. -/
def ctxTwice (committees : List Pubkey) : InvokeContext :=
  { ctx 20 with accounts := [⟨30, true⟩, ⟨3, true⟩] ++ committees.map (⟨·, true⟩) }

end ProgramExample

open ProgramExample in
/-- An ATA, its eATA and the ATA again are one committed account. -/
theorem queued_keys_distinct_of_remapped :
    ∃ b' intent, (ScheduleInstruction.process env (ctxTwice [20, 21, 20]) (.commit false)).Ok
        (bank {}) () b' ∧
      b'.context.scheduledBaseIntents = (bank {}).context.scheduledBaseIntents ++ [intent] ∧
      intent.getAllCommittedPubkeys.Nodup := by
  have hok := Exec.ok_of_outcome
    (m := ScheduleInstruction.process env (ctxTwice [20, 21, 20]) (.commit false)) (s := bank {})
    (a := ()) (by decide +kernel)
  obtain ⟨intent, hqueue, hkeys⟩ := queued_keys_distinct hok
  exact ⟨_, intent, hok, hqueue, hkeys⟩

/-! ### The loop over the committees -/

section Loop

open Exec

variable {env : ProgramEnv} {signers : List Pubkey} {parent : Option Pubkey} {und : Bool}
  {b b' b₀ : Bank} {cs : List CommittedAccount} {acc : InstructionAccount}
  {before l : List InstructionAccount}

/-- The account may be committed, or undelegated if this is asked for. -/
structure Committable (env : ProgramEnv) (signers : List Pubkey) (parent : Option Pubkey)
    (undelegate : Bool) (b : Bank) (acc : InstructionAccount) : Prop where
  delegated : (b.accounts acc.pubkey).mode = .delegated
  size : (b.accounts acc.pubkey).data.length ≤ maxPermittedDataIncrease
  writable : undelegate → acc.isWritable
  permitted : validateCommitSchedulePermissions env (b.accounts acc.pubkey).owner acc.pubkey parent
    signers = .ok ()

theorem ok_validateCommittee_iff : (validateCommittee env signers parent und acc).Ok b u b' ↔
      Committable env signers parent und b acc ∧ b' = b := by
  unfold validateCommittee
  simp only [ok_bind, Program.ok_borrow, ok_ensure, ok_ofExcept, decide_eq_true_eq]
  constructor
  · rintro ⟨_, _, ⟨rfl, rfl⟩, _, _, ⟨-, rfl⟩, _, _, ⟨hsize, rfl⟩, _, _, ⟨⟨hmode, hwrite⟩, rfl⟩,
      hperm, rfl⟩
    exact ⟨⟨hmode, hsize, hwrite, hperm⟩, rfl⟩
  · rintro ⟨h, rfl⟩
    exact ⟨_, _, ⟨rfl, rfl⟩, (), _, ⟨fun hm => (by cases hm.symm.trans h.delegated), rfl⟩, (), _,
      ⟨h.size, rfl⟩, (), _, ⟨⟨h.delegated, h.writable⟩, rfl⟩, h.permitted, rfl⟩

/-- The key under which an account is committed now. -/
def keyAt (env : ProgramEnv) (b : Bank) (pubkey : Pubkey) : Pubkey :=
  committedKey env pubkey (b.accounts pubkey)

/-- **One turn**: the account is merged into one with the same key, or it is committed; then only
the account itself changes, in its counter or by the lock. -/
inductive CommitteeTurn (env : ProgramEnv) (signers : List Pubkey) (parent : Option Pubkey)
    (undelegate : Bool) (cs : List CommittedAccount) (acc : InstructionAccount) (b : Bank) :
    List CommittedAccount → Bank → Prop
  | merged : keyAt env b acc.pubkey ∈ cs.map (·.pubkey) →
      CommitteeTurn env signers parent undelegate cs acc b cs b
  | committed {c : CommittedAccount} {b' : Bank} : keyAt env b acc.pubkey ∉ cs.map (·.pubkey) →
      c.pubkey = keyAt env b acc.pubkey →
      (∀ a ≠ acc.pubkey, b'.accounts a = b.accounts a) →
      (undelegate = true ∧ (b'.accounts acc.pubkey).mode = .undelegating ∨
        undelegate = false ∧ ∃ n,
          b'.accounts acc.pubkey = { b.accounts acc.pubkey with commitSeq := n }) →
      CommitteeTurn env signers parent undelegate cs acc b (cs ++ [c]) b'

theorem turn_of_ok (h : (scheduleCommittee env signers parent und cs acc).Ok b cs' b') :
    Committable env signers parent und b acc ∧
      CommitteeTurn env signers parent und cs acc b cs' b' := by
  unfold scheduleCommittee at h
  simp only [ok_bind, ok_validateCommittee_iff, Program.ok_borrow, ok_ite, ok_pure,
    fromAccountShared_pubkey] at h
  obtain ⟨_, _, ⟨hval, rfl⟩, _, _, ⟨rfl, rfl⟩, ⟨hold, rfl, rfl⟩ | ⟨hnew, n, b₁, hrsv, _, _,
    hlock, rfl, rfl⟩⟩ := h
  · exact ⟨hval, .merged hold⟩
  · refine ⟨hval, ?_⟩
    obtain ⟨-, rfl⟩ := ok_reserveCommitId hrsv
    unfold lockCommittee at hlock
    rcases ok_ite.mp hlock with ⟨hund, hmark⟩ | ⟨hund, hpure⟩
    · unfold markAccountAsUndelegated setAccountMode at hmark
      simp only [ok_bind, Program.ok_borrow, ok_ensure, Program.ok_update] at hmark
      obtain ⟨_, _, rfl, _, _, ⟨-, rfl⟩, _, _, ⟨-, rfl⟩, rfl⟩ := hmark
      refine .committed hnew rfl (fun a ha => ?_) (.inl ⟨hund, ?_⟩)
      · simp [Function.update_of_ne ha]
      · simp only [Function.update_self]
    · obtain ⟨-, rfl⟩ := ok_pure.mp hpure
      refine .committed hnew rfl (fun a ha => ?_) (.inr ⟨Bool.not_eq_true _ ▸ hund, n, ?_⟩)
      · simp [Function.update_of_ne ha]
      · simp only [Function.update_self]

/-- An account that is listed again and merged. -/
structure Absorbed (env : ProgramEnv) (signers : List Pubkey) (parent : Option Pubkey)
    (undelegate : Bool) (cs : List CommittedAccount) (b : Bank) (acc : InstructionAccount) :
    Prop where
  committable : Committable env signers parent undelegate b acc
  key : keyAt env b acc.pubkey ∈ cs.map (·.pubkey)

theorem Absorbed.ok (h : Absorbed env signers parent und cs b acc) :
    (scheduleCommittee env signers parent und cs acc).Ok b cs b := by
  unfold scheduleCommittee
  simp only [ok_bind, ok_validateCommittee_iff, Program.ok_borrow, ok_ite, ok_pure,
    fromAccountShared_pubkey]
  exact ⟨(), b, ⟨h.committable, rfl⟩, _, b, ⟨rfl, rfl⟩, .inl ⟨h.key, trivial, rfl⟩⟩

/-- **What holds when the accounts `before` are through**, all from the bank `b₀`: their keys are
committed, an account that is still delegated has its key, and the other accounts are untouched. -/
structure Passed (env : ProgramEnv) (b₀ : Bank) (before : List InstructionAccount)
    (cs : List CommittedAccount) (b : Bank) : Prop where
  keys (k : Pubkey) : k ∈ cs.map (·.pubkey) ↔ ∃ c ∈ before, keyAt env b₀ c.pubkey = k
  key {a : Pubkey} (h : (b.accounts a).mode = .delegated) : keyAt env b a = keyAt env b₀ a
  fresh {a : Pubkey} (h : a ∉ before.map (·.pubkey)) : b.accounts a = b₀.accounts a

theorem Passed.nil : Passed env b [] [] b where
  keys k := by simp
  key _ := rfl
  fresh _ := rfl

theorem Passed.turn (h : Passed env b₀ before cs b)
    (hval : Committable env signers parent und b acc)
    (hturn : CommitteeTurn env signers parent und cs acc b cs' b') :
    Passed env b₀ (before ++ [acc]) cs' b' := by
  have hkey := h.key hval.delegated
  have hfr {a : Pubkey} (ha : a ∉ (before ++ [acc]).map (·.pubkey)) :
      a ≠ acc.pubkey ∧ b.accounts a = b₀.accounts a := by
    rw [map_append, map_singleton, mem_append, not_or] at ha
    exact ⟨fun heq => ha.2 (heq ▸ mem_singleton_self _), h.fresh ha.1⟩
  have hspl (k : Pubkey) : (∃ c ∈ before ++ [acc], keyAt env b₀ c.pubkey = k) ↔
      k ∈ cs.map (·.pubkey) ∨ k = keyAt env b acc.pubkey := by
    rw [h.keys, hkey]
    simp only [mem_append, mem_singleton, or_and_right, exists_or, exists_eq_left]
    exact or_congr_right eq_comm
  cases hturn with
  | merged hold =>
    refine ⟨fun k => ?_, h.key, fun ha => (hfr ha).2⟩
    rw [hspl]
    exact ⟨.inl, fun hk => hk.elim id fun heq => heq ▸ hold⟩
  | committed hnew hc hoth hself =>
    refine ⟨fun k => ?_, fun {a} hmode => ?_, fun ha => (hoth _ (hfr ha).1).trans (hfr ha).2⟩
    · rw [hspl, map_append, map_singleton, mem_append, mem_singleton, hc]
    · by_cases ha : a = acc.pubkey
      · subst ha
        rcases hself with ⟨-, hlock⟩ | ⟨-, n, heq⟩
        · cases hlock.symm.trans hmode
        · rw [← hkey, keyAt, heq, committedKey_commitSeq, keyAt]
      · rw [hoth a ha] at hmode
        rw [keyAt, hoth a ha]
        exact h.key hmode

theorem passed_of_loop (h : Passed env b₀ before cs b)
    (hloop : (l.foldlM (scheduleCommittee env signers parent und) cs).Ok b cs' b') :
    Passed env b₀ (before ++ l) cs' b' := by
  induction l generalizing before cs b with
  | nil =>
    obtain ⟨rfl, rfl⟩ := ok_pure.mp hloop
    rwa [append_nil]
  | cons acc l ih =>
    rw [foldlM_cons, ok_bind] at hloop
    obtain ⟨cs₁, b₁, hturn, hloop⟩ := hloop
    obtain ⟨hval, hturn⟩ := turn_of_ok hturn
    rw [append_cons]
    exact ih (h.turn hval hturn) hloop

/-- An account that is locked stays locked. -/
theorem locked_of_loop (h : (b.accounts a).mode = .undelegating)
    (hloop : (l.foldlM (scheduleCommittee env signers parent und) cs).Ok b cs' b') :
    (b'.accounts a).mode = .undelegating := by
  refine Ok.foldlM (fun _ b => (b.accounts a).mode = .undelegating) ?_ h hloop
  intro cs acc b cs' b' hlock hturn
  obtain ⟨hval, hturn⟩ := turn_of_ok hturn
  cases hturn with
  | merged => exact hlock
  | committed _ _ hoth _ =>
    have hne : a ≠ acc.pubkey := by
      rintro rfl
      cases hlock.symm.trans hval.delegated
    rw [hoth a hne]
    exact hlock

/-- **An account is listed again for undelegation**, and no account before it was committed under
its key, so that it is locked by then; or it is not writable the second time. -/
def Relisted (env : ProgramEnv) (undelegate : Bool) (b : Bank)
    (committees : List InstructionAccount) : Prop :=
  undelegate = true ∧ ∃ before acc between acc' after,
    committees = before ++ acc :: (between ++ acc' :: after) ∧ acc'.pubkey = acc.pubkey ∧
      ((∀ c ∈ before, keyAt env b c.pubkey ≠ keyAt env b acc.pubkey) ∨ acc'.isWritable = false)

/-- **The second occurrence is rejected.** -/
theorem not_ok_of_relisted (h : Relisted env und b₀ l) :
    ¬ (l.foldlM (scheduleCommittee env signers parent und) []).Ok b₀ cs b := by
  obtain ⟨hund, before, acc, between, acc', after, rfl, heq, hlist⟩ := h
  intro hloop
  rw [foldlM_append, ok_bind] at hloop
  obtain ⟨cs₁, b₁, hbef, hloop⟩ := hloop
  rw [foldlM_cons, ok_bind] at hloop
  obtain ⟨cs₂, b₂, hfst, hloop⟩ := hloop
  rw [foldlM_append, ok_bind] at hloop
  obtain ⟨cs₃, b₃, hbetw, hloop⟩ := hloop
  rw [foldlM_cons, ok_bind] at hloop
  obtain ⟨cs₄, b₄, hsnd, -⟩ := hloop
  obtain ⟨hval, hturn⟩ := turn_of_ok hfst
  obtain ⟨hval', -⟩ := turn_of_ok hsnd
  rcases hlist with hnew | hread
  · have hpass := passed_of_loop Passed.nil hbef
    rw [nil_append] at hpass
    have hlock : (b₂.accounts acc.pubkey).mode = .undelegating := by
      cases hturn with
      | merged hold =>
        rw [hpass.key hval.delegated, hpass.keys] at hold
        obtain ⟨c, hc, hkey⟩ := hold
        exact absurd hkey (hnew c hc)
      | committed _ _ _ hself =>
        rcases hself with ⟨-, hlock⟩ | ⟨hplain, -⟩
        · exact hlock
        · cases hplain.symm.trans hund
    have hstill := locked_of_loop hlock hbetw
    rw [← heq] at hstill
    cases hstill.symm.trans hval'.delegated
  · cases (hval'.writable hund).symm.trans hread

theorem Committable.congr (h : Committable env signers parent und b acc)
    (heq : acc'.pubkey = acc.pubkey)
    (hacc : ∃ n, b'.accounts acc.pubkey = { b.accounts acc.pubkey with commitSeq := n })
    (hwrite : und → acc'.isWritable) :
    Committable env signers parent und b' acc' := by
  obtain ⟨n, hacc⟩ := hacc
  constructor
  · rw [heq, hacc]
    exact h.delegated
  · rw [heq, hacc]
    exact h.size
  · exact hwrite
  · rw [heq, hacc]
    exact h.permitted

/-- A turn does not touch other accounts, and what is committed stays. -/
theorem Absorbed.turn (h : Absorbed env signers parent und cs b acc')
    (hne : acc'.pubkey ≠ acc.pubkey)
    (hturn : CommitteeTurn env signers parent und cs acc b cs' b') :
    Absorbed env signers parent und cs' b' acc' := by
  cases hturn with
  | merged => exact h
  | committed _ _ hoth _ =>
    have hsame := hoth _ hne
    refine ⟨h.committable.congr rfl ⟨_, hsame⟩ h.committable.writable, ?_⟩
    rw [keyAt, hsame, map_append]
    exact mem_append_left _ h.key

/-- After its turn an account that is listed again is merged, unless it was locked. -/
theorem absorbed_of_turn (hval : Committable env signers parent und b acc)
    (hturn : CommitteeTurn env signers parent und cs acc b cs' b')
    (heq : acc'.pubkey = acc.pubkey)
    (hkey : und = true → keyAt env b acc.pubkey ∈ cs.map (·.pubkey))
    (hwrite : und → acc'.isWritable) :
    Absorbed env signers parent und cs' b' acc' := by
  cases hturn with
  | merged hold => exact ⟨hval.congr heq ⟨_, rfl⟩ hwrite, heq ▸ hold⟩
  | committed hnew hc _ hself =>
    rcases hself with ⟨hund, -⟩ | ⟨-, n, hself⟩
    · exact absurd (hkey hund) hnew
    · refine ⟨hval.congr heq ⟨n, hself⟩ hwrite, ?_⟩
      rw [heq, keyAt, hself, committedKey_commitSeq, map_append, map_singleton, hc]
      exact mem_append_right _ (mem_singleton_self _)

/-- **The loop does the same on first occurrences.** -/
theorem outcome_keepFirst (hno : ¬ Relisted env und b₀ committees) (hspl : committees = before ++ l)
    (hpass : Passed env b₀ before cs b) (hseen : ∀ k, k ∈ seen ↔ k ∈ before.map (·.pubkey))
    (habs : ∀ acc ∈ l, acc.pubkey ∈ seen → Absorbed env signers parent und cs b acc) :
    (l.foldlM (scheduleCommittee env signers parent und) cs).outcome b =
      ((keepFirst (·.pubkey) seen l).foldlM
        (scheduleCommittee env signers parent und) cs).outcome b := by
  induction l generalizing before cs b seen with
  | nil => rfl
  | cons acc l ih =>
    have hspl' : committees = (before ++ [acc]) ++ l := by rw [hspl, append_cons]
    obtain ⟨hhead, hrest⟩ := forall_mem_cons.mp habs
    rw [keepFirst]
    split_ifs with hmem
    · -- listed again: the turn changes nothing
      have hturn := (hhead hmem).ok
      rw [foldlM_cons, outcome_bind, hturn]
      refine ih hspl' (hpass.turn (hhead hmem).committable (turn_of_ok hturn).2) ?_ hrest
      intro k
      rw [hseen, map_append, mem_append, map_singleton, mem_singleton]
      exact ⟨.inl, fun h => h.elim id fun hk => hk ▸ (hseen _).mp hmem⟩
    · rw [foldlM_cons, foldlM_cons]
      refine outcome_bind_congr fun cs' b' hturn => ?_
      obtain ⟨hval, hturn⟩ := turn_of_ok hturn
      refine ih hspl' (hpass.turn hval hturn) (fun k => ?_) fun acc' hacc' hagain => ?_
      · rw [mem_cons, hseen, map_append, mem_append, map_singleton, mem_singleton]
        exact or_comm
      · rcases mem_cons.mp hagain with heq | hold
        · -- the account just taken comes up again
          obtain ⟨between, after, hl⟩ := append_of_mem hacc'
          have hcomms : committees = before ++ acc :: (between ++ acc' :: after) := by
            rw [hspl, hl]
          refine absorbed_of_turn hval hturn heq (fun hund => ?_) fun hund => ?_
          · by_contra hnew
            refine hno ⟨hund, before, acc, between, acc', after, hcomms, heq,
              .inl fun c hc hkey => hnew ?_⟩
            rw [hpass.key hval.delegated, hpass.keys]
            exact ⟨c, hc, hkey⟩
          · by_contra hread
            exact hno ⟨hund, before, acc, between, acc', after, hcomms, heq,
              .inr (Bool.not_eq_true _ ▸ hread)⟩
        · refine (hrest acc' hacc' hold).turn (fun heq => hmem (heq ▸ hold)) hturn

end Loop

/-! ### The instruction -/

section Instruction

open Exec

variable {env : ProgramEnv} {ctx : InvokeContext} {und : Bool} {b b' : Bank}

/-- The accounts to commit are those behind payer, context and, if it is there, the fee vault. -/
def InvokeContext.committeesStart (env : ProgramEnv) (ctx : InvokeContext) : ℕ :=
  magicContextIdx + 1 +
    if (ctx.accounts[magicContextIdx + 1]?).any (·.pubkey = env.magicFeeVaultPubkey) then 1 else 0

def InvokeContext.committees (env : ProgramEnv) (ctx : InvokeContext) : List InstructionAccount :=
  ctx.accounts.drop (ctx.committeesStart env)

/-- The instruction with every account to commit listed once. -/
def InvokeContext.mergeCommittees (env : ProgramEnv) (ctx : InvokeContext) : InvokeContext :=
  { ctx with
    accounts := ctx.accounts.take (ctx.committeesStart env) ++
      keepFirst (·.pubkey) [] (ctx.committees env) }

/-- **Listing accounts again is harmless**: the instruction succeeds if and only if the one with
every account listed once does, with the same intent, counters and modes. -/
def Harmless (env : ProgramEnv) (ctx : InvokeContext) (undelegate : Bool) (b : Bank) : Prop :=
  ∀ b', (processScheduleCommit env ctx undelegate).Ok b () b' ↔
    (processScheduleCommit env (ctx.mergeCommittees env) undelegate).Ok b () b'

theorem getElem?_mergeCommittees (hi : i ≤ magicContextIdx + 1) :
    (ctx.mergeCommittees env).accounts[i]? = ctx.accounts[i]? :=
  getElem?_take_append (head?_keepFirst _ _) (hi.trans (Nat.le_add_right ..))

theorem getInstructionAccount_mergeCommittees (hi : i ≤ magicContextIdx + 1) :
    (ctx.mergeCommittees env).getInstructionAccountWithIdx i =
      ctx.getInstructionAccountWithIdx i := by
  rw [getInstructionAccountWithIdx, getElem?_mergeCommittees hi, getInstructionAccountWithIdx]

theorem getInstructionPubkey_mergeCommittees (hi : i ≤ magicContextIdx + 1) :
    (ctx.mergeCommittees env).getInstructionPubkeyWithIdx i =
      ctx.getInstructionPubkeyWithIdx i := by
  rw [getInstructionPubkeyWithIdx, getInstructionAccount_mergeCommittees hi,
    getInstructionPubkeyWithIdx]

theorem tryGetFeeVault_mergeCommittees :
    tryGetFeeVault env (ctx.mergeCommittees env) payerIdx (magicContextIdx + 1) =
      tryGetFeeVault env ctx payerIdx (magicContextIdx + 1) := by
  unfold tryGetFeeVault feeVaultAt
  rw [getInstructionAccount_mergeCommittees (by decide),
    getInstructionAccount_mergeCommittees le_rfl]

/-- The vault is found where the committees begin. -/
theorem start_of_tryGetFeeVault
    (h : (tryGetFeeVault env ctx payerIdx (magicContextIdx + 1)).Ok b (vault, start) b') :
    start = ctx.committeesStart env := by
  unfold tryGetFeeVault at h
  simp only [ok_bind, ok_ofExcept, Program.ok_borrow, ok_ite, ok_ensure, ok_pure] at h
  obtain ⟨_, _, ⟨-, rfl⟩, _, _, ⟨-, rfl⟩, found, _, hfound, hrest⟩ := h
  have hstart : found.isSome =
      (ctx.accounts[magicContextIdx + 1]?).any (·.pubkey = env.magicFeeVaultPubkey) := by
    unfold feeVaultAt getInstructionAccountWithIdx at hfound
    cases hvlt : ctx.accounts[magicContextIdx + 1]? with
    | none =>
      simp only [hvlt, Option.elim_none, ok_pure] at hfound
      rw [← hfound.1]
      rfl
    | some account =>
      simp only [hvlt, Option.elim_some, ok_ite, ok_bind, Program.ok_borrow, ok_ensure,
        ok_pure] at hfound
      rcases hfound with ⟨heq, _, _, -, _, _, -, rfl, -⟩ | ⟨hne, rfl, -⟩
      · simp [heq]
      · simp [hne]
  rw [committeesStart, ← hstart]
  rcases hrest with ⟨-, _, _, -, heq, -⟩ | ⟨-, heq, -⟩
  · exact (Prod.mk.inj heq).2.symm
  · exact (Prod.mk.inj heq).2.symm

theorem lt_length_mergeCommittees :
    ctx.committeesStart env < (ctx.mergeCommittees env).accounts.length ↔
      ctx.committeesStart env < ctx.accounts.length := by
  have hget : (ctx.mergeCommittees env).accounts[ctx.committeesStart env]? =
      ctx.accounts[ctx.committeesStart env]? :=
    getElem?_take_append (head?_keepFirst _ _) le_rfl
  rw [← not_le, ← getElem?_eq_none_iff, hget, getElem?_eq_none_iff, not_le]

theorem drop_mergeCommittees (h : ctx.committeesStart env < ctx.accounts.length) :
    (ctx.mergeCommittees env).accounts.drop (ctx.committeesStart env) =
      keepFirst (·.pubkey) [] (ctx.committees env) :=
  drop_left' (length_take_of_le h.le)

/-- **Without a rejection both instructions do the same**, errors included. -/
theorem outcome_mergeCommittees (hno : ¬ Relisted env und b (ctx.committees env)) :
    (processScheduleCommit env ctx und).outcome b =
      (processScheduleCommit env (ctx.mergeCommittees env) und).outcome b := by
  have hcheck : checkMagicContextId env (ctx.mergeCommittees env) magicContextIdx =
      checkMagicContextId env ctx magicContextIdx := by
    rw [checkMagicContextId, getInstructionPubkey_mergeCommittees (by decide), checkMagicContextId]
  unfold processScheduleCommit
  rw [hcheck, getInstructionPubkey_mergeCommittees (by decide),
    getInstructionAccount_mergeCommittees (by decide), tryGetFeeVault_mergeCommittees]
  refine outcome_bind_congr fun _ _ h => ?_
  obtain ⟨-, rfl⟩ := ok_ofExcept.mp h
  refine outcome_bind_congr fun _ _ h => ?_
  obtain ⟨-, rfl⟩ := ok_ensure.mp h
  refine outcome_bind_congr fun payerPubkey _ h => ?_
  obtain ⟨-, rfl⟩ := ok_ofExcept.mp h
  refine outcome_bind_congr fun _ _ h => ?_
  obtain ⟨-, rfl⟩ := ok_ensure.mp h
  refine outcome_bind_congr fun payerAccount _ h => ?_
  obtain ⟨-, rfl⟩ := ok_ofExcept.mp h
  refine outcome_bind_congr fun ⟨vault, start⟩ b₁ h => ?_
  obtain rfl : b = b₁ := (preserves_tryGetFeeVault (f := id) h).symm
  obtain rfl := start_of_tryGetFeeVault h
  simp only [lt_length_mergeCommittees]
  refine outcome_bind_congr fun _ _ h => ?_
  obtain ⟨heno, rfl⟩ := ok_ensure.mp h
  refine outcome_bind_congr fun parent _ h => ?_
  obtain ⟨-, rfl⟩ := ok_ofExcept.mp h
  have hloop : ((ctx.accounts.drop (ctx.committeesStart env)).foldlM
        (scheduleCommittee env ctx.signers parent und) []).outcome b =
      ((keepFirst (·.pubkey) [] (ctx.committees env)).foldlM
        (scheduleCommittee env ctx.signers parent und) []).outcome b :=
    outcome_keepFirst hno rfl Passed.nil (fun _ => Iff.rfl) nofun
  rw [drop_mergeCommittees (of_decide_eq_true heno), outcome_bind, outcome_bind, hloop]
  rfl

/-- If an account is relisted, the instruction fails. -/
theorem not_ok_processScheduleCommit (h : Relisted env und b (ctx.committees env)) :
    ¬ (processScheduleCommit env ctx und).Ok b () b' := by
  intro hok
  unfold processScheduleCommit at hok
  simp only [ok_bind, ok_ofExcept, ok_ensure] at hok
  obtain ⟨_, _, ⟨-, rfl⟩, _, _, ⟨-, rfl⟩, _, _, ⟨-, rfl⟩, _, _, ⟨-, rfl⟩, _, _, ⟨-, rfl⟩,
    ⟨vault, start⟩, b₁, hvlt, _, _, ⟨-, rfl⟩, _, _, ⟨-, rfl⟩, cs, b₂, hloop, -⟩ := hok
  obtain rfl : b = b₁ := (preserves_tryGetFeeVault (f := id) hvlt).symm
  obtain rfl := start_of_tryGetFeeVault hvlt
  exact not_ok_of_relisted h hloop

/-- **Listing accounts again is harmless exactly if the instruction does not undelegate an account
that is listed again**, or would fail anyway. -/
theorem harmless_iff (env : ProgramEnv) (ctx : InvokeContext) (und : Bool) (b : Bank) :
    Harmless env ctx und b ↔ ¬ (Relisted env und b (ctx.committees env) ∧
      ∃ b', (processScheduleCommit env (ctx.mergeCommittees env) und).Ok b () b') := by
  constructor
  · rintro h ⟨hrel, b', hok⟩
    exact not_ok_processScheduleCommit hrel ((h b').mpr hok)
  · intro h b'
    by_cases hrel : Relisted env und b (ctx.committees env)
    · exact iff_of_false (not_ok_processScheduleCommit hrel) fun hok =>
        h ⟨hrel, b', hok⟩
    · rw [Ok, Ok, outcome_mergeCommittees hrel]

end Instruction

open ProgramExample in
/-- An account is listed twice for undelegation: the instruction fails, and with the account listed
once it succeeds. -/
theorem not_harmless_of_undelegation : ¬ Harmless env (ctxTwice [21, 21]) true (bank {}) := by
  intro h
  have hmerge := Exec.ok_of_outcome
    (m := processScheduleCommit env ((ctxTwice [21, 21]).mergeCommittees env) true) (s := bank {})
    (a := ()) (by decide +kernel)
  have hfails : ((processScheduleCommit env (ctxTwice [21, 21]) true).outcome (bank {})).1 ≠
      .ok () := by decide +kernel
  exact hfails (congrArg Prod.fst ((h _).mpr hmerge))

end Magicblock
