import Magicblock.Foundations.Lists
import Magicblock.Program.Bundle

/-!
# Program/Reserve — what a scheduling instruction does to the counters

`Reserves env b committed r b'` is a chain of reservations from `b` to `b'`: each takes the next id
of a delegated account and commits that account under its key, remapped if it is an ATA.  Both
scheduling instructions are such a chain, followed by one push to the queue (`Schedules`).
-/

namespace Magicblock

open Program MagicIntentBundle

open Function (update update_of_ne update_self)
open Exec (Ok ok_bind ok_ensure ok_get ok_ite ok_ofExcept ok_pure)

/-! ### Code that leaves counters and queue alone -/

/-- The queue, the reservations, and what `g` sees of the accounts. -/
def Bank.view {γ : Type} (g : AccountSharedData → γ) (b : Bank) :
    MagicContext × List Reservation × (Pubkey → γ) :=
  (b.context, b.reserved, fun a => g (b.accounts a))

/-- What scheduling is about: the queue, the reservations and the counters. -/
def Bank.counters : Bank → MagicContext × List Reservation × (Pubkey → ℕ) :=
  Bank.view (·.commitSeq)

section Frames

open Exec

variable {τ : Type}

theorem preserves_borrow : Preserves f (Program.borrow pk) :=
  .bind .get fun _ => .pure

theorem preserves_update (hf : ∀ acc, g (f acc) = g acc) :
    Preserves (Bank.view g) (update pk f) := by
  refine .modify fun b => Prod.ext rfl (Prod.ext rfl (funext fun a => ?_))
  simp only [Bank.view]
  by_cases ha : a = pk
  · subst ha
    rw [update_self, hf]
  · rw [update_of_ne ha]

theorem preserves_feeVaultAt : Preserves f (feeVaultAt env ctx vault) := by
  unfold feeVaultAt
  split
  · exact .ite (.bind preserves_borrow fun _ => .bind .ensure fun _ => .pure) .pure
  · exact .pure
  · exact .throw

theorem preserves_tryGetFeeVault :
    Preserves f (tryGetFeeVault env ctx payer vault) :=
  .bind .ofExcept fun _ => .bind preserves_borrow fun _ => .bind preserves_feeVaultAt fun _ =>
    .ite (.bind .ensure fun _ => .pure) .pure

theorem preserves_chargeDelegatedPayer :
    Preserves Bank.counters (chargeDelegatedPayer payer vault fee) := by
  refine .bind preserves_borrow fun _ => .bind .ensure fun _ => .bind preserves_borrow fun _ =>
    .bind .ensure fun _ => .ite .pure ?_
  exact .bind preserves_borrow fun _ => .bind .ensure fun _ =>
    .bind (preserves_update fun _ => rfl) fun _ => .bind preserves_borrow fun _ =>
      .bind .ensure fun _ => preserves_update fun _ => rfl

theorem preserves_setAccountMode
    (hg : ∀ acc : AccountSharedData, g { acc with mode := mode } = g acc) :
    Preserves (Bank.view g) (setAccountMode env pk mode) :=
  .bind preserves_borrow fun _ => .bind .ensure fun _ => preserves_update hg

theorem preserves_markAccountAsUndelegated :
    Preserves Bank.counters (markAccountAsUndelegated env acc) :=
  .bind (preserves_update fun _ => rfl) fun _ => preserves_setAccountMode fun _ => rfl

theorem preserves_chargeOrLimit :
    Preserves Bank.counters (chargeOrLimit payer vault und committed) := by
  cases vault with
  | none => exact .ite .pure .ofExcept
  | some vault => exact .bind .ofExcept fun _ => preserves_chargeDelegatedPayer

theorem preserves_chargeOrLimitBundle :
    Preserves Bank.counters (chargeOrLimitBundle payer vault bundle) := by
  cases vault with
  | none => exact .forM fun _ => .ofExcept
  | some vault => exact .bind .ofExcept fun _ => preserves_chargeDelegatedPayer

end Frames

/-! ### One reservation -/

/-- The key an account is committed under. -/
def committedKey (env : ProgramEnv) (pubkey : Pubkey) (account : AccountSharedData) : Pubkey :=
  (tryRemapAtaToEata env pubkey account).elim pubkey Prod.fst

variable {acc : InstructionAccount} {u : Unit}

theorem fromAccountShared_pubkey {acc : AccountSharedData} :
    (CommittedAccount.fromAccountShared env pk acc).pubkey =
      committedKey env pk acc := by
  unfold CommittedAccount.fromAccountShared committedKey
  rcases tryRemapAtaToEata env pk acc with _ | ⟨eata, -⟩ <;> rfl

theorem fromAccountShared_commitId {acc : AccountSharedData} :
    (CommittedAccount.fromAccountShared env pk acc).commitId = acc.commitSeq := by
  unfold CommittedAccount.fromAccountShared
  split <;> rfl

/-- Reserving does not change the key. -/
theorem committedKey_commitSeq {acc : AccountSharedData} :
    committedKey env pk { acc with commitSeq := n } = committedKey env pk acc :=
  rfl

/-- `c` is the commit a reservation was made for: it carries the reserved id, under the key of the
account whose counter gave it. -/
def CommitsAs (env : ProgramEnv) (c : CommittedAccount) (ρ : Reservation) : Prop :=
  c.commitId = ρ.commitId ∧ ∃ account, c.pubkey = committedKey env ρ.account account

/-- **One account is committed**: it takes its next id, and afterwards it is on its way out or would
be committed under the same key again. -/
structure ReserveStep (env : ProgramEnv) (b : Bank) (c : CommittedAccount) (ρ : Reservation)
    (b' : Bank) : Prop where
  delegated : (b.accounts ρ.account).mode = .delegated
  next : ρ.commitId = (b.accounts ρ.account).commitSeq + 1
  commitId : c.commitId = ρ.commitId
  key : c.pubkey = committedKey env ρ.account (b.accounts ρ.account)
  context : b'.context = b.context
  reserved : b'.reserved = b.reserved ++ [ρ]
  counter : (b'.accounts ρ.account).commitSeq = ρ.commitId
  image : (b'.accounts ρ.account).mode = .undelegating ∨
    committedKey env ρ.account (b'.accounts ρ.account) = c.pubkey
  other {a : Pubkey} (ha : a ≠ ρ.account) : b'.accounts a = b.accounts a

/-- A successful `reserve_commit_id`. -/
theorem ok_reserveCommitId (h : (reserveCommitId env account).Ok b n b') :
    n = (b.accounts account.pubkey).commitSeq + 1 ∧ b' = { b with
        accounts := update b.accounts account.pubkey
          { b.accounts account.pubkey with commitSeq := n }
        reserved := b.reserved ++ [⟨account.pubkey, n⟩] } := by
  unfold reserveCommitId at h
  simp only [ok_bind, ok_ensure, ok_borrow, ok_update, Exec.ok_modify, ok_pure] at h
  obtain ⟨_, _, ⟨-, rfl⟩, acc, _, ⟨hacc, rfl⟩, _, _, ⟨-, rfl⟩, _, _, ⟨-, rfl⟩, _, _, rfl, _, _, rfl,
    rfl, rfl⟩ := h
  subst hacc
  exact ⟨rfl, rfl⟩

/-- Reserving and then building the committed account is a reservation. -/
theorem reserveStep_of_ok {b b' : Bank} (h : (reserveCommitId env acc).Ok b n b')
    (hdel : (b.accounts acc.pubkey).mode = .delegated)
    (hid : c.commitId = n)
    (hkey : c.pubkey = committedKey env acc.pubkey (b.accounts acc.pubkey)) :
    ReserveStep env b c ⟨acc.pubkey, n⟩ b' := by
  obtain ⟨hn, rfl⟩ := ok_reserveCommitId h
  refine ⟨hdel, hn, hid, hkey, rfl, rfl, ?_, .inr ?_, fun ha => ?_⟩
  · simp only [update_self]
  · simp [committedKey_commitSeq, hkey]
  · simp only [update_of_ne ha]

/-- Marking the account as undelegated afterwards. -/
theorem ReserveStep.undelegate (h : ReserveStep env b c ⟨acc.pubkey, n⟩ b₁)
    (hmark : (markAccountAsUndelegated env acc).Ok b₁ u b') :
    ReserveStep env b c ⟨acc.pubkey, n⟩ b' := by
  have hctrs := preserves_markAccountAsUndelegated hmark
  unfold markAccountAsUndelegated setAccountMode at hmark
  simp only [ok_bind, ok_borrow, ok_ensure, ok_update] at hmark
  obtain ⟨_, _, rfl, _, _, ⟨-, rfl⟩, _, _, ⟨-, rfl⟩, rfl⟩ := hmark
  refine ⟨h.delegated, h.next, h.commitId, h.key, h.context, h.reserved, ?_, .inl ?_, fun ha => ?_⟩
  · exact (congrFun (congrArg (·.2.2) hctrs) acc.pubkey).trans h.counter
  · simp only [update_self]
  · simp [update_of_ne ha, h.other ha]

/-! ### A chain of reservations -/

inductive Reserves (env : ProgramEnv) :
    Bank → List CommittedAccount → List Reservation → Bank → Prop
  | nil (b : Bank) : Reserves env b [] [] b
  | cons {c : CommittedAccount} {ρ : Reservation} {cs : List CommittedAccount}
      {r : List Reservation} (hstep : ReserveStep env b c ρ b₁) (hrest : Reserves env b₁ cs r b') :
      Reserves env b (c :: cs) (ρ :: r) b'

/-- The ids reserved on one account, in order. -/
def commitIdsOf (a : Pubkey) (r : List Reservation) : List ℕ :=
  (r.filter (·.account = a)).map (·.commitId)

theorem commitIdsOf_append : commitIdsOf a (r ++ r') = commitIdsOf a r ++ commitIdsOf a r' := by
  rw [commitIdsOf, List.filter_append, List.map_append]
  rfl

namespace Reserves

theorem single (h : ReserveStep env b c ρ b') : Reserves env b [c] [ρ] b' := .cons h (.nil b')

variable (h : Reserves env b cs r b')

include h

theorem append (h' : Reserves env b' cs' r' b'') : Reserves env b (cs ++ cs') (r ++ r') b'' := by
  induction h with
  | nil b => exact h'
  | cons hstep _ ih => exact .cons hstep (ih h')

theorem context : b'.context = b.context := by
  induction h with
  | nil b => rfl
  | cons hstep _ ih => rw [ih, hstep.context]

theorem reserved : b'.reserved = b.reserved ++ r := by
  induction h with
  | nil b => exact (List.append_nil _).symm
  | cons hstep _ ih => rw [ih, hstep.reserved, List.append_assoc, List.singleton_append]

theorem commitsAs : List.Forall₂ (CommitsAs env) cs r := by
  induction h with
  | nil b => exact .nil
  | cons hstep _ ih => exact .cons ⟨hstep.commitId, _, hstep.key⟩ ih

/-- **The ids of an account count up from its counter.** -/
theorem countsUp (a : Pubkey) :
    CountsUp (b.accounts a).commitSeq (commitIdsOf a r) (b'.accounts a).commitSeq := by
  induction h with
  | nil b => exact .nil _
  | @cons b b₁ b' c ρ cs r hstep _ ih =>
    rw [← List.singleton_append, commitIdsOf_append]
    refine CountsUp.append ?_ ih
    by_cases ha : a = ρ.account
    · subst ha
      rw [hstep.counter, hstep.next]
      have hids : commitIdsOf ρ.account [ρ] = [(b.accounts ρ.account).commitSeq + 1] := by
        simp [commitIdsOf, hstep.next]
      exact hids ▸ .single _
    · have hids : commitIdsOf a [ρ] = [] := by simp [commitIdsOf, Ne.symm ha]
      rw [hids, hstep.other ha]
      exact .nil _

/-- An account that is spent — on its way out, or bound to a key — comes up again only under that
key. -/
theorem key_mem_of_account_mem
    (hspent : (b.accounts a).mode = .undelegating ∨ committedKey env a (b.accounts a) = k)
    (ha : a ∈ r.map (·.account)) : k ∈ cs.map (·.pubkey) := by
  induction h with
  | nil b => cases ha
  | @cons b b₁ b' c ρ cs r hstep _ ih =>
    by_cases hρ : a = ρ.account
    · subst hρ
      rcases hspent with hmode | hkey
      · cases hmode.symm.trans hstep.delegated
      · exact List.mem_cons.mpr (.inl (hkey.symm.trans hstep.key.symm))
    · have hrest := (List.mem_cons.mp ha).resolve_left hρ
      exact List.mem_cons_of_mem _ (ih (hstep.other hρ ▸ hspent) hrest)

/-- **Distinct keys come from distinct accounts.** -/
theorem nodup_accounts (hkeys : (cs.map (·.pubkey)).Nodup) : (r.map (·.account)).Nodup := by
  induction h with
  | nil b => exact List.nodup_nil
  | cons hstep hrest ih =>
    obtain ⟨hnew, hkeys⟩ := List.nodup_cons.mp hkeys
    exact List.nodup_cons.mpr ⟨fun ha => hnew (hrest.key_mem_of_account_mem hstep.image ha),
      ih hkeys⟩

end Reserves

/-! ### `ScheduleCommit` -/

theorem ok_validateCommittee (h : (validateCommittee env signers parent und acc).Ok b u b') :
    b' = b ∧ (b.accounts acc.pubkey).mode = .delegated := by
  unfold validateCommittee at h
  simp only [ok_bind, ok_borrow, ok_ensure, ok_ofExcept, decide_eq_true_eq] at h
  obtain ⟨_, _, ⟨rfl, rfl⟩, _, _, ⟨-, rfl⟩, _, _, ⟨-, rfl⟩, _, _, ⟨hmode, rfl⟩, -, rfl⟩ := h
  exact ⟨rfl, hmode.1⟩

/-- One committee is skipped, or committed under a key not seen before. -/
theorem scheduleCommittee_cases
    (h : (scheduleCommittee env signers parent und cs acc).Ok b cs' b') :
    (cs' = cs ∧ b' = b) ∨ ∃ c ρ, ReserveStep env b c ρ b' ∧ c.pubkey ∉ cs.map (·.pubkey) ∧
      cs' = cs ++ [c] := by
  unfold scheduleCommittee at h
  simp only [ok_bind, ok_borrow, ok_ite, ok_pure] at h
  obtain ⟨_, b₀, hval, _, _, ⟨rfl, rfl⟩, ⟨-, rfl, rfl⟩ | ⟨hnew, n, b₁, hrsv, _, _, hlock, rfl,
    rfl⟩⟩ := h
  · exact .inl ⟨rfl, (ok_validateCommittee hval).1⟩
  · obtain ⟨rfl, hdel⟩ := ok_validateCommittee hval
    let c : CommittedAccount :=
      { CommittedAccount.fromAccountShared env acc.pubkey (b₀.accounts acc.pubkey) with
        commitId := n }
    have hstep := reserveStep_of_ok (c := c) hrsv hdel rfl fromAccountShared_pubkey
    refine .inr ⟨c, ⟨acc.pubkey, n⟩, ?_, hnew, rfl⟩
    unfold lockCommittee at hlock
    rcases ok_ite.mp hlock with ⟨-, hmark⟩ | ⟨-, hpure⟩
    · exact hstep.undelegate hmark
    · exact (ok_pure.mp hpure).2 ▸ hstep

/-- **The committee loop is a chain of reservations under distinct keys.** -/
theorem reserves_scheduleCommittees {accs : List InstructionAccount}
    (h : (accs.foldlM (scheduleCommittee env signers parent und) []).Ok b cs b') :
    ∃ r, Reserves env b cs r b' ∧ (cs.map (·.pubkey)).Nodup := by
  refine Ok.foldlM (fun cs b' => ∃ r, Reserves env b cs r b' ∧ (cs.map (·.pubkey)).Nodup) ?_
    ⟨[], .nil b, List.nodup_nil⟩ h
  rintro cs acc b₁ cs' b₂ ⟨r, hr, hkeys⟩ hturn
  rcases scheduleCommittee_cases hturn with ⟨rfl, rfl⟩ | ⟨c, ρ, hstep, hnew, rfl⟩
  · exact ⟨r, hr, hkeys⟩
  · refine ⟨r ++ [ρ], hr.append (.single hstep), ?_⟩
    rw [List.map_append, List.map_singleton]
    exact hkeys.append (List.nodup_singleton _) (List.disjoint_singleton.mpr hnew)

/-! ### Parts of a bundle -/

namespace ConstructionContext

variable {cc : ConstructionContext}

theorem ok_validateCommitTypeAccount (h : (cc.validateCommitTypeAccount acc).Ok b u b') :
    b' = b ∧ (b.accounts acc.pubkey).mode = .delegated := by
  unfold validateCommitTypeAccount at h
  simp only [ok_bind, ok_borrow, ok_ensure, ok_ofExcept, decide_eq_true_eq] at h
  obtain ⟨_, _, ⟨rfl, rfl⟩, _, _, ⟨-, rfl⟩, _, _, ⟨hmode, rfl⟩, _, _, ⟨-, rfl⟩, -, rfl⟩ := h
  exact ⟨rfl, hmode⟩

theorem ok_validateCommitTypeAccounts {accs : List InstructionAccount}
    (h : (accs.forM cc.validateCommitTypeAccount).Ok b u b') :
    b' = b ∧ ∀ acc ∈ accs, (b.accounts acc.pubkey).mode = .delegated := by
  induction accs generalizing b with
  | nil => exact ⟨(Exec.ok_forM_nil.mp h).symm, nofun⟩
  | cons acc accs ih =>
    obtain ⟨b₁, hacc, hrest⟩ := Exec.ok_forM_cons.mp h
    obtain ⟨rfl, hmode⟩ := ok_validateCommitTypeAccount hacc
    obtain ⟨rfl, hmodes⟩ := ih hrest
    exact ⟨rfl, List.forall_mem_cons.mpr ⟨hmode, hmodes⟩⟩

/-- Reserving first and reading the account afterwards is the same reservation; no mode changes. -/
theorem reserveStep_commitAccount (h : (cc.commitAccount acc).Ok b c b')
    (hdel : (b.accounts acc.pubkey).mode = .delegated) :
    (∃ ρ, ReserveStep cc.env b c ρ b') ∧ ∀ a, (b'.accounts a).mode = (b.accounts a).mode := by
  unfold commitAccount at h
  simp only [ok_bind, ok_borrow, ok_pure] at h
  obtain ⟨n, b₁, hrsv, _, _, ⟨rfl, rfl⟩, rfl, rfl⟩ := h
  obtain ⟨-, hb₁⟩ := ok_reserveCommitId hrsv
  have hself : b₁.accounts acc.pubkey = { b.accounts acc.pubkey with commitSeq := n } := by
    rw [hb₁]
    exact update_self ..
  refine ⟨⟨_, reserveStep_of_ok hrsv hdel ?_ ?_⟩, fun a => ?_⟩
  · rw [fromAccountShared_commitId, hself]
  · rw [fromAccountShared_pubkey, hself, committedKey_commitSeq]
  · by_cases ha : a = acc.pubkey
    · rw [ha, hself]
    · rw [hb₁]
      exact congrArg _ (update_of_ne ha ..)

theorem reserves_mapM_commitAccount {accs : List InstructionAccount}
    (h : (accs.mapM cc.commitAccount).Ok b cs b')
    (hmodes : ∀ acc ∈ accs, (b.accounts acc.pubkey).mode = .delegated) :
    ∃ r, Reserves cc.env b cs r b' := by
  induction accs generalizing b cs with
  | nil =>
    obtain ⟨rfl, rfl⟩ := Exec.ok_mapM_nil.mp h
    exact ⟨[], .nil b⟩
  | cons acc accs ih =>
    obtain ⟨c, b₁, cs, hacc, hrest, rfl⟩ := Exec.ok_mapM_cons.mp h
    obtain ⟨hmode, hmodes⟩ := List.forall_mem_cons.mp hmodes
    obtain ⟨⟨ρ, hstep⟩, hkeep⟩ := reserveStep_commitAccount hacc hmode
    obtain ⟨r, hr⟩ := ih hrest fun acc hacc => (hkeep _).trans (hmodes acc hacc)
    exact ⟨ρ :: r, .cons hstep hr⟩

theorem reserves_commitAccounts {indices : List ℕ}
    (h : (cc.commitAccounts indices).Ok b cs b') : ∃ r, Reserves cc.env b cs r b' := by
  unfold commitAccounts at h
  simp only [ok_bind, ok_ofExcept] at h
  obtain ⟨accs, _, ⟨-, rfl⟩, _, _, hval, hmap⟩ := h
  obtain ⟨rfl, hmodes⟩ := ok_validateCommitTypeAccounts hval
  exact reserves_mapM_commitAccount hmap hmodes

theorem reserves_commitType (h : (cc.commitType next args).Ok b t b') :
    ∃ r, Reserves cc.env b t.getCommittedAccounts r b' := by
  cases args with
  | standalone accs =>
    simp only [commitType, ok_bind, ok_pure] at h
    obtain ⟨cs, _, hcs, rfl, rfl⟩ := h
    exact reserves_commitAccounts hcs
  | withBaseActions accs actions =>
    simp only [commitType, ok_bind, ok_ofExcept, ok_pure] at h
    obtain ⟨cs, _, hcs, _, _, ⟨-, rfl⟩, rfl, rfl⟩ := h
    exact reserves_commitAccounts hcs

theorem ok_validateCommitAndUndelegateAccounts {indices : List ℕ}
    (h : (indices.forM cc.validateCommitAndUndelegateAccount).Ok b u b') : b' = b :=
  Exec.Preserves.forM (f := id) (fun _ => .bind .ofExcept fun _ => .bind preserves_borrow fun _ =>
    .ensure) h

theorem reserves_commitAndUndelegate {next : ℕ} (h : (cc.commitAndUndelegate next args).Ok b t b') :
    ∃ r, Reserves cc.env b t.getCommittedAccounts r b' := by
  unfold commitAndUndelegate at h
  simp only [ok_bind, ok_ofExcept, ok_pure] at h
  obtain ⟨_, _, hval, commitAction, _, hcom, _, _, ⟨-, rfl⟩, rfl, rfl⟩ := h
  obtain rfl := ok_validateCommitAndUndelegateAccounts hval
  exact reserves_commitType hcom

/-- An optional part. -/
theorem reserves_forOption {f : α → Program β}
    (hf : ∀ {a t b b'}, (f a).Ok b t b' → ∃ r, Reserves cc.env b (accs t) r b')
    (h : (Exec.forOption f x).Ok b y b') :
    ∃ r, Reserves cc.env b ((y.map accs).getD []) r b' := by
  rcases Exec.ok_forOption.mp h with ⟨-, rfl, rfl⟩ | ⟨a, t, -, rfl, ht⟩
  · exact ⟨[], .nil b⟩
  · exact hf ht

end ConstructionContext

theorem nodup_of_postValidate (h : postValidateMagicIntentBundle bundle = .ok u) :
    (bundle.getAllCommittedAccounts.map (·.pubkey)).Nodup := by
  unfold postValidateMagicIntentBundle at h
  split_ifs at h with _ hnd
  exact hnd

/-- **Building a bundle is a chain of reservations under distinct keys.** -/
theorem reserves_tryFromArgs {args : MagicIntentBundleArgs}
    (h : (tryFromArgs cc args).Ok b bundle b') :
    ∃ r, Reserves cc.env b bundle.getAllCommittedAccounts r b' ∧
      (bundle.getAllCommittedAccounts.map (·.pubkey)).Nodup := by
  unfold tryFromArgs at h
  simp only [ok_bind, ok_ofExcept, ok_pure] at h
  obtain ⟨_, _, ⟨-, rfl⟩, _, _, hcom, _, _, hund, _, _, ⟨-, rfl⟩, _, _, hfin, _, _,
    hboth, _, _, ⟨hpost, rfl⟩, _, _, ⟨-, rfl⟩, rfl, rfl⟩ := h
  obtain ⟨r₁, h₁⟩ := cc.reserves_forOption cc.reserves_commitType hcom
  obtain ⟨r₂, h₂⟩ := cc.reserves_forOption cc.reserves_commitAndUndelegate hund
  obtain ⟨r₃, h₃⟩ := cc.reserves_forOption cc.reserves_commitType hfin
  obtain ⟨r₄, h₄⟩ := cc.reserves_forOption cc.reserves_commitAndUndelegate hboth
  refine ⟨r₁ ++ r₂ ++ r₃ ++ r₄, ?_, nodup_of_postValidate hpost⟩
  rw [getAllCommittedAccounts_eq]
  exact ((h₁.append h₂).append h₃).append h₄

/-! ### A scheduling instruction -/

/-- **What scheduling does**: one intent with the next intent id joins the queue, and the accounts
it commits, all distinct, have each taken their next commit id. -/
structure Schedules (env : ProgramEnv) (b : Bank) (bundle : ScheduledIntentBundle)
    (r : List Reservation) (b' : Bank) : Prop where
  intentId : bundle.intentId = b.context.intentId
  next : b'.context.intentId = (b.context.intentId + 1) % 2 ^ 64
  queue : b'.context.scheduledBaseIntents = b.context.scheduledBaseIntents ++ [bundle]
  reserved : b'.reserved = b.reserved ++ r
  commitsAs : List.Forall₂ (CommitsAs env) bundle.intentBundle.getAllCommittedAccounts r
  distinct : (r.map (·.account)).Nodup
  countsUp (a : Pubkey) :
    CountsUp (b.accounts a).commitSeq (commitIdsOf a r) (b'.accounts a).commitSeq

/-- A chain of reservations, other changes, and the push. -/
theorem Reserves.schedules {b b₁ b₂ : Bank}
    (h : Reserves env b bundle.intentBundle.getAllCommittedAccounts r b₁)
    (hkeys : (bundle.intentBundle.getAllCommittedAccounts.map (·.pubkey)).Nodup)
    (hrest : b₂.counters = b₁.counters) (hid : bundle.intentId = b.context.intentId) :
    Schedules env b bundle r
      { b₂ with context := b.context.nextIntentId.2.addScheduledAction bundle } where
  intentId := hid
  next := rfl
  queue := rfl
  reserved := (congrArg (·.2.1) hrest).trans h.reserved
  commitsAs := h.commitsAs
  distinct := h.nodup_accounts hkeys
  countsUp a := by
    have hseq : (b₂.accounts a).commitSeq = (b₁.accounts a).commitSeq :=
      congrFun (congrArg (·.2.2) hrest) a
    exact hseq ▸ h.countsUp a

theorem schedules_processScheduleCommit (h : (processScheduleCommit env ctx und).Ok b u b') :
    ∃ bundle r, Schedules env b bundle r b' ∧
      (bundle.intentBundle.getAllCommittedAccounts.map (·.pubkey)).Nodup := by
  unfold processScheduleCommit at h
  simp only [ok_bind, ok_ofExcept, ok_ensure, ok_get, ok_writeContext] at h
  obtain ⟨_, _, ⟨-, rfl⟩, _, _, ⟨-, rfl⟩, _, _, ⟨-, rfl⟩, _, _, ⟨-, rfl⟩, _, _, ⟨-, rfl⟩, _, b₀,
    hvlt, _, _, ⟨-, rfl⟩, _, _, ⟨-, rfl⟩, cs, b₁, hloop, _, b₂, hchar, _, _, ⟨rfl, rfl⟩, _, _,
    ⟨-, rfl⟩, _, _, ⟨-, rfl⟩, -, rfl⟩ := h
  obtain rfl : b = b₀ := (preserves_tryGetFeeVault (f := id) hvlt).symm
  obtain ⟨r, hr, hkeys⟩ := reserves_scheduleCommittees hloop
  have hctrs := preserves_chargeOrLimit hchar
  have hcont : b₂.context = b.context := (congrArg (·.1) hctrs).trans hr.context
  have hall : (if und then
      { commitFinalizeAndUndelegate := some ⟨.standalone cs, .standalone⟩ }
      else { commitFinalize := some (.standalone cs) } : MagicIntentBundle).getAllCommittedAccounts
        = cs := by
    rw [getAllCommittedAccounts_eq]
    split_ifs
    · exact List.nil_append cs
    · exact List.append_nil cs
  rw [hcont]
  exact ⟨_, r, Reserves.schedules (hall.symm ▸ hr) (hall.symm ▸ hkeys) hctrs rfl, hall.symm ▸ hkeys⟩

theorem schedules_processScheduleIntentBundle
    (h : (processScheduleIntentBundle env ctx args secure).Ok b u b') :
    ∃ bundle r, Schedules env b bundle r b' ∧
      (bundle.intentBundle.getAllCommittedAccounts.map (·.pubkey)).Nodup := by
  unfold processScheduleIntentBundle at h
  simp only [ok_bind, ok_ofExcept, ok_ensure, ok_get, ok_writeContext] at h
  obtain ⟨_, _, ⟨-, rfl⟩, _, _, ⟨-, rfl⟩, _, _, ⟨-, rfl⟩, _, _, ⟨-, rfl⟩, _, _, ⟨-, rfl⟩, _, _,
    ⟨-, rfl⟩, _, _, ⟨rfl, rfl⟩, bundle, b₁, hbuild, _, _, ⟨-, rfl⟩, _, b₂, hmark, _, _, ⟨-, rfl⟩, _,
    b₃, hvlt, _, b₄, hchar, -, rfl⟩ := h
  obtain ⟨r, hr, hkeys⟩ := reserves_tryFromArgs hbuild
  have hmarked : b₂.counters = b₁.counters :=
    Exec.Preserves.forM (fun _ => preserves_markAccountAsUndelegated) hmark
  have hctrs : b₄.counters = b₁.counters :=
    (preserves_chargeOrLimitBundle hchar).trans ((preserves_tryGetFeeVault hvlt).trans hmarked)
  exact ⟨_, r, Reserves.schedules hr hkeys hctrs rfl, hkeys⟩

end Magicblock
