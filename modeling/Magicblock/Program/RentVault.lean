import Magicblock.Foundations.History
import Magicblock.Program.Ephemeral

/-!
# Program/RentVault — the vault covers the rent of every marked account

Refunds are computed and not remembered, so that the vault can pay them is an invariant over all
accounts and histories: `vault_solvent`.  Between the instructions other code runs, which may pay
into the vault.  A program can also write to its own accounts, and the refund follows the length it
gives them: `refund_le_deposit_iff`.
-/

namespace Magicblock.Ephemeral

open Finset

variable {env : EphemeralEnv} {ctx : InvokeContext} {bank bank' : EphemeralBank}
  {target vault : Pubkey}

/-! ### Histories -/

/-- What happens to the bank. -/
inductive Event where
  | ran (entry : EntryPoint) (ctx : InvokeContext) (instruction : EphemeralInstruction)
  | failed (entry : EntryPoint) (ctx : InvokeContext) (instruction : EphemeralInstruction)
    (error : InstructionError)
  | elsewhere

/-- **One step**: an instruction that succeeds, one that fails and is undone, or other code, which
sets no mark, resizes no marked account and does not debit the vault. -/
inductive Step (env : EphemeralEnv) : EphemeralBank → Event → EphemeralBank → Prop
  | ran {bank bank' : EphemeralBank} {entry : EntryPoint} {ctx : InvokeContext}
    {instruction : EphemeralInstruction} (hkeyl : env.vault ∉ ctx.signers)
    (hok : (process env ctx entry instruction).Ok bank () bank') :
    Step env bank (.ran entry ctx instruction) bank'
  | failed {bank : EphemeralBank} {entry : EntryPoint} {ctx : InvokeContext}
    {instruction : EphemeralInstruction} {error : InstructionError}
    (herr : ((process env ctx entry instruction).outcome bank).1 = .error error) :
    Step env bank (.failed entry ctx instruction error) bank
  | elsewhere {bank bank' : EphemeralBank}
    (hmarks : ∀ k, (bank' k).rentFunded = (bank k).rentFunded)
    (hlens : ∀ k, (bank k).rentFunded = true → (bank' k).data.length = (bank k).data.length)
    (hvlt : (bank env.vault).lamports ≤ (bank' env.vault).lamports)
    (hwords : Words bank') :
    Step env bank .elsewhere bank'

/-- No account is marked yet, and the vault has its initial balance. -/
def machine (env : EphemeralEnv) (initial : ℕ) : Machine EphemeralBank Event where
  start bank := (∀ k, (bank k).rentFunded = false) ∧ (bank env.vault).lamports = initial ∧
    Words bank
  step _ bank event bank' := Step env bank event bank'

/-- The accounts that were created and not closed, after one more event. -/
def Event.live (accounts : Finset Pubkey) : Event → Finset Pubkey
  | .ran _ ctx instruction =>
    match ctx.getInstructionPubkeyWithIdx ephemeralIdx, instruction with
    | .ok target, .create _ => insert target accounts
    | .ok target, .close => accounts.erase target
    | _, _ => accounts
  | _ => accounts

/-- The accounts that were created and not closed. -/
def live (es : List Event) : Finset Pubkey := es.foldl Event.live ∅

theorem live_concat : live (es ++ [e]) = e.live (live es) := by
  rw [live, List.foldl_append]
  rfl

/-- **The vault covers the rent of the live accounts**, which are the marked ones and not too
long. -/
structure Solvent (env : EphemeralEnv) (initial : ℕ) (accounts : Finset Pubkey)
    (bank : EphemeralBank) : Prop where
  marked : ∀ k, (bank k).rentFunded = true ↔ k ∈ accounts
  covered : initial + ∑ k ∈ accounts, rent (bank k).data.length ≤ (bank env.vault).lamports
  short : ∀ k ∈ accounts, (bank k).data.length ≤ maxDataLen
  vault_unmarked : env.vault ∉ accounts
  words : Words bank

variable {accs : Finset Pubkey} {initial len : ℕ}

/-- The rents of the accounts other than the target stay. -/
theorem Effect.sum_erase (h : Effect vault target funded len amount bank bank') :
    ∑ k ∈ accs.erase target, rent (bank' k).data.length =
      ∑ k ∈ accs.erase target, rent (bank k).data.length :=
  sum_congr rfl fun k hk => by rw [(h.others k (ne_of_mem_erase hk)).2]

/-- A mark that is set. -/
theorem Effect.marked_insert (h : Effect vault target true len amount bank bank')
    (hmark : ∀ k, (bank k).rentFunded = true ↔ k ∈ accs) (k : Pubkey) :
    (bank' k).rentFunded = true ↔ k ∈ insert target accs := by
  rw [mem_insert]
  by_cases hk : k = target
  · rw [hk, h.target_funded]
    simp
  · rw [(h.others k hk).1, hmark k, or_iff_right hk]

theorem Effect.short_insert (h : Effect vault target true len amount bank bank')
    (hlen : len ≤ maxDataLen) (hshort : ∀ k ∈ accs, (bank k).data.length ≤ maxDataLen) :
    ∀ k ∈ insert target accs, (bank' k).data.length ≤ maxDataLen := by
  intro k hk
  by_cases heq : k = target
  · rw [heq, h.target_len]
    exact hlen
  · rw [(h.others k heq).2]
    exact hshort k (mem_of_mem_insert_of_ne hk heq)

section

variable (hs : Solvent env initial accs bank)

include hs

/-- A mark that is set again only leaves more in the vault than needed. -/
theorem Solvent.create (htgt : target ≠ env.vault) (hlen : len ≤ maxDataLen)
    (h : Effect env.vault target true len (rent len) bank bank') :
    Solvent env initial (insert target accs) bank' where
  marked := h.marked_insert hs.marked
  covered := by
    have hsum : ∑ k ∈ accs.erase target, rent (bank k).data.length ≤
        ∑ k ∈ accs, rent (bank k).data.length :=
      sum_le_sum_of_subset (erase_subset target accs)
    have hcov := hs.covered
    have hvlt := h.vault_lamports
    rw [← add_sum_erase _ _ (mem_insert_self target accs), h.target_len,
      h.sum_erase, erase_insert_eq_erase]
    omega
  short := h.short_insert hlen hs.short
  vault_unmarked := by
    rw [mem_insert, not_or]
    exact ⟨htgt.symm, hs.vault_unmarked⟩
  words := h.words hs.words

theorem Solvent.resize (hmem : target ∈ accs) (hlen : len ≤ maxDataLen)
    (h : Effect env.vault target true len (rent len - rent (bank target).data.length) bank bank') :
    Solvent env initial accs bank' where
  marked k := by
    rw [h.marked_insert hs.marked k, insert_eq_of_mem hmem]
  covered := by
    have hcov := hs.covered
    have hvlt := h.vault_lamports
    rw [← add_sum_erase _ _ hmem] at hcov ⊢
    rw [h.target_len, h.sum_erase]
    omega
  short := by
    have hshort := h.short_insert hlen hs.short
    rwa [insert_eq_of_mem hmem] at hshort
  vault_unmarked := hs.vault_unmarked
  words := h.words hs.words

theorem Solvent.close (hmem : target ∈ accs)
    (h : Effect env.vault target false 0 (-rent (bank target).data.length) bank bank') :
    Solvent env initial (accs.erase target) bank' where
  marked k := by
    rw [mem_erase]
    by_cases hk : k = target
    · rw [hk, h.target_funded]
      simp
    · rw [(h.others k hk).1, hs.marked k, and_iff_right hk]
  covered := by
    have hcov := hs.covered
    have hvlt := h.vault_lamports
    rw [← add_sum_erase _ _ hmem] at hcov
    rw [h.sum_erase]
    omega
  short k hk := by
    rw [(h.others k (ne_of_mem_erase hk)).2]
    exact hs.short k (mem_of_mem_erase hk)
  vault_unmarked hvlt := hs.vault_unmarked (mem_of_mem_erase hvlt)
  words := h.words hs.words

theorem Solvent.elsewhere (hmarks : ∀ k, (bank' k).rentFunded = (bank k).rentFunded)
    (hlens : ∀ k, (bank k).rentFunded = true → (bank' k).data.length = (bank k).data.length)
    (hvlt : (bank env.vault).lamports ≤ (bank' env.vault).lamports) (hwords : Words bank') :
    Solvent env initial accs bank' where
  marked k := by rw [hmarks k, hs.marked k]
  covered := by
    refine le_trans (le_trans (Nat.add_le_add_left (le_of_eq ?_) _) hs.covered) hvlt
    exact sum_congr rfl fun k hk => by rw [hlens k ((hs.marked k).mpr hk)]
  short k hk := by
    rw [hlens k ((hs.marked k).mpr hk)]
    exact hs.short k hk
  vault_unmarked := hs.vault_unmarked
  words := hwords

end

theorem process_eq_magic :
    process env ctx entry instruction = process env ctx .magic instruction := by
  cases entry <;> cases instruction <;> rfl

theorem Solvent.ran (hs : Solvent env initial accs bank) (hkeyl : env.vault ∉ ctx.signers)
    (h : (process env ctx entry instruction).Ok bank () bank') :
    Solvent env initial ((Event.ran entry ctx instruction).live accs) bank' := by
  rw [process_eq_magic] at h
  cases instruction with
  | create dataLen =>
    obtain ⟨target, htgt, hne, hlen, heff⟩ := effect_of_create hkeyl h
    simp only [Event.live, htgt]
    exact hs.create hne hlen heff
  | resize newDataLen =>
    obtain ⟨target, htgt, hfund, hlen, heff⟩ := effect_of_resize hkeyl h
    simp only [Event.live, htgt]
    exact hs.resize ((hs.marked target).mp hfund) hlen heff
  | close =>
    have hvaultMark : (bank env.vault).rentFunded = false := by
      rw [← Bool.not_eq_true, hs.marked env.vault]
      exact hs.vault_unmarked
    obtain ⟨target, htgt, hfund, heff⟩ := effect_of_close hkeyl hvaultMark h
    simp only [Event.live, htgt]
    exact hs.close ((hs.marked target).mp hfund) heff

theorem solvent_of_run (h : (machine env initial).Run es bank) :
    Solvent env initial (live es) bank := by
  refine Machine.Run.invariant ?_ ?_ h
  · rintro bank ⟨hmarks, hinit, hwords⟩
    refine ⟨fun k => ?_, ?_, ?_, ?_, hwords⟩
    · simp [live, hmarks k]
    · simp [live, hinit]
    · simp [live]
    · simp [live]
  · intro es bank e bank' _ hs hstep
    rw [live_concat]
    cases hstep with
    | ran hkeyl hok => exact hs.ran hkeyl hok
    | failed _ => exact hs
    | elsewhere hmarks hlens hvlt hwords => exact hs.elsewhere hmarks hlens hvlt hwords

/-- **The vault is solvent in every run**: it holds its initial balance and the rent of all marked
accounts; the marked accounts are those created and not closed; and no computation with a length or
a rent overflows or truncates, for any length an instruction can ask for. -/
theorem vault_solvent (env : EphemeralEnv) (initial : ℕ) {es : List Event} {bank : EphemeralBank}
    (h : (machine env initial).Run es bank) :
    (∀ k, (bank k).rentFunded = true ↔ k ∈ live es) ∧
      initial + ∑ k ∈ live es, rent (bank k).data.length ≤ (bank env.vault).lamports ∧
      (∀ k ∈ live es, getEphemeralDataLen (bank k) = .ok (bank k).data.length ∧
        ∀ newLen ≤ maxDataLen, ArithmeticExact newLen (bank k).data.length) ∧
      (∀ newLen ≤ maxDataLen, rentFor newLen = .ok (rent newLen) ∧
        asI64 (rent newLen) = rent newLen) ∧
      ∀ k, (bank k).lamports < 2 ^ 64 := by
  have hs := solvent_of_run h
  have hword {len : ℕ} (hlen : len ≤ maxDataLen) : len < 2 ^ 32 := by
    rw [maxDataLen] at hlen
    omega
  refine ⟨hs.marked, hs.covered, fun k hk => ⟨?_, fun newLen hnew => ?_⟩, fun newLen hnew => ?_,
    hs.words⟩
  · exact getEphemeralDataLen_ok.mpr ⟨hword (hs.short k hk), rfl⟩
  · exact arithmeticExact (hword hnew) (hword (hs.short k hk))
  · exact ⟨rentFor_eq (hword hnew), asI64_rent (hword hnew)⟩

namespace SponsoredExample

/-- The vault is 9; every change of mode is allowed. -/
def sponsoredEnv : EphemeralEnv where
  vault := 9
  systemProgramId := 0
  allowsLifecycle _ _ := true

/-- Program 4 acts on account 2, and 1 pays. -/
def sponsoredCall : InvokeContext where
  programKey := 5
  accounts := [⟨1, true⟩, ⟨2, true⟩, ⟨9, true⟩]
  signers := [1, 2]
  effectiveCaller := .ok (some 4)
  clock := none
  blockhash := 0

def unsponsored : EphemeralBank := fun k =>
  { lamports := if k = 1 then 10000 else if k = 9 then 7 else 0
    data := []
    owner := 0
    executable := false
    rentEpoch := 0
    mode := .missing
    slot := 0
    commitSeq := 0
    rentFunded := false }

def sponsored : EphemeralBank :=
  ((process sponsoredEnv sponsoredCall .magic (.create 4)).outcome unsponsored).2

/-- The account has become shorter. -/
def shortened : EphemeralBank :=
  ((process sponsoredEnv sponsoredCall .ephemeralSystem (.resize 2)).outcome sponsored).2

def sponsoredEvents : List Event :=
  [.ran .magic sponsoredCall (.create 4), .ran .ephemeralSystem sponsoredCall (.resize 2)]

theorem run_shortened : (machine sponsoredEnv 7).Run sponsoredEvents shortened := by
  have hwords : Words unsponsored := by
    intro k
    simp only [unsponsored]
    split_ifs <;> decide
  have hrun : (machine sponsoredEnv 7).Run [] unsponsored := .start ⟨fun _ => rfl, rfl, hwords⟩
  have hcre : Step sponsoredEnv unsponsored (.ran .magic sponsoredCall (.create 4)) sponsored :=
    .ran (by decide) (Exec.ok_of_outcome (by decide))
  have hres : Step sponsoredEnv sponsored (.ran .ephemeralSystem sponsoredCall (.resize 2))
      shortened :=
    .ran (by decide) (Exec.ok_of_outcome (by decide))
  exact (hrun.step hcre).step hres

end SponsoredExample

open SponsoredExample in
/-- One account of two bytes is left; the vault has the rent of two bytes over its initial 7. -/
theorem vault_solvent_of_shortened :
    live sponsoredEvents = {2} ∧ (shortened 9).lamports = 7 + rent 2 ∧
      7 + ∑ k ∈ live sponsoredEvents, rent (shortened k).data.length ≤ (shortened 9).lamports :=
  ⟨by decide, by decide, (vault_solvent sponsoredEnv 7 run_shortened).2.1⟩

/-! ### One account -/

/-- What the vault gains. -/
def paid (vault : Pubkey) (bank bank' : EphemeralBank) : ℕ :=
  (bank' vault).lamports - (bank vault).lamports

/-- **The life of an account** until it is closed: what was paid into the vault for it and out of
it, and by how much the writes of its own program have lengthened it. -/
inductive Life (env : EphemeralEnv) (target : Pubkey) : EphemeralBank → ℕ → ℕ → ℤ → Prop
  | create {bank bank' : EphemeralBank} {ctx : InvokeContext} {n : ℕ}
    (hkeyl : env.vault ∉ ctx.signers) (hvlt : (bank env.vault).rentFunded = false)
    (htgt : ctx.getInstructionPubkeyWithIdx ephemeralIdx = .ok target)
    (h : (processCreateEphemeralAccount env ctx n).Ok bank () bank') :
    Life env target bank' (paid env.vault bank bank') (paid env.vault bank' bank) 0
  | resize {bank bank' : EphemeralBank} {ctx : InvokeContext} {n i o : ℕ} {growth : ℤ}
    (hlife : Life env target bank i o growth) (hkeyl : env.vault ∉ ctx.signers)
    (htgt : ctx.getInstructionPubkeyWithIdx ephemeralIdx = .ok target)
    (h : (processResizeEphemeralAccount env ctx n).Ok bank () bank') :
    Life env target bank' (i + paid env.vault bank bank') (o + paid env.vault bank' bank) growth
  | write {bank : EphemeralBank} {i o : ℕ} {growth : ℤ} (hlife : Life env target bank i o growth)
    (data : List UInt8) :
    Life env target (Function.update bank target { bank target with data := data }) i o
      (growth + data.length - (bank target).data.length)
  | elsewhere {bank bank' : EphemeralBank} {i o : ℕ} {growth : ℤ}
    (hlife : Life env target bank i o growth) (htgt : bank' target = bank target)
    (hvlt : (bank' env.vault).rentFunded = (bank env.vault).rentFunded) :
    Life env target bank' i o growth

theorem Effect.paid (h : Effect vault target funded len amount bank bank') :
    (paid vault bank bank' : ℤ) - paid vault bank' bank = amount := by
  have hlamps := h.vault_lamports
  rw [Ephemeral.paid, Ephemeral.paid]
  omega

/-- The vault has the rent of the present length, but for what the writes have added. -/
theorem Life.balance (h : Life env target bank i o growth) :
    (bank env.vault).rentFunded = false ∧ target ≠ env.vault ∧
      (i : ℤ) - o = rent (bank target).data.length - rentPerByte * growth := by
  induction h with
  | create hkeyl hvlt htgt h =>
    obtain ⟨k, hk, hne, -, heff⟩ := effect_of_create hkeyl h
    cases htgt.symm.trans hk
    refine ⟨(heff.others _ hne.symm).1.trans hvlt, hne, ?_⟩
    rw [heff.paid, heff.target_len, mul_zero, sub_zero]
  | resize _ hkeyl htgt h ih =>
    obtain ⟨k, hk, -, -, heff⟩ := effect_of_resize hkeyl h
    cases htgt.symm.trans hk
    refine ⟨(heff.others _ ih.2.1.symm).1.trans ih.1, ih.2.1, ?_⟩
    have hpaid := heff.paid
    rw [heff.target_len]
    omega
  | write _ data ih =>
    obtain ⟨hvlt, hne, hbal⟩ := ih
    rw [Function.update_of_ne hne.symm, Function.update_self]
    refine ⟨hvlt, hne, ?_⟩
    rw [rent, accountStaticSize, rentPerByte] at hbal ⊢
    dsimp only
    omega
  | elsewhere _ htgt hvlt ih => exact ⟨hvlt.trans ih.1, ih.2.1, htgt ▸ ih.2.2⟩

/-- **When a refund is covered by the deposit.**  Over the life of an account, with its close, no
more is paid out of the vault for it than was paid in, exactly if the writes of its own program have
not lengthened it. -/
theorem refund_le_deposit_iff {i o : ℕ} {growth : ℤ} (h : Life env target bank i o growth)
    (hkeyl : env.vault ∉ ctx.signers)
    (htgt : ctx.getInstructionPubkeyWithIdx ephemeralIdx = .ok target)
    (hclose : (processCloseEphemeralAccount env ctx).Ok bank () bank') :
    o + paid env.vault bank' bank ≤ i + paid env.vault bank bank' ↔ growth ≤ 0 := by
  obtain ⟨hvlt, hne, hbal⟩ := h.balance
  obtain ⟨k, hk, -, heff⟩ := effect_of_close hkeyl hvlt hclose
  cases htgt.symm.trans hk
  have hpaid := heff.paid
  rw [rentPerByte] at hbal
  omega

namespace SponsoredExample

/-- The rent of other accounts is in the vault. -/
def shared : EphemeralBank := Function.update unsponsored 9 { unsponsored 9 with lamports := 5000 }

def created : EphemeralBank :=
  ((processCreateEphemeralAccount sponsoredEnv sponsoredCall 4).outcome shared).2

/-- The program makes its account shorter by itself, and has it resized. -/
def resized : EphemeralBank :=
  ((processResizeEphemeralAccount sponsoredEnv sponsoredCall 6).outcome
    (Function.update created 2 { created 2 with data := [0] })).2

/-- The program makes its account longer by itself. -/
def lengthened : EphemeralBank :=
  Function.update created 2 { created 2 with data := List.replicate 9 0 }

theorem life_created : Life sponsoredEnv 2 created (rent 4) 0 0 := by
  have hcre : (processCreateEphemeralAccount sponsoredEnv sponsoredCall 4).Ok shared () created :=
    Exec.ok_of_outcome (by decide)
  exact .create (by decide) (by decide) (by decide) hcre

theorem life_resized : ∃ i o, Life sponsoredEnv 2 resized i o (-3) :=
  ⟨_, _, (life_created.write [0]).resize (by decide) (by decide) (Exec.ok_of_outcome (by decide))⟩

end SponsoredExample

open SponsoredExample in
/-- **A refund beyond the deposit**: the rent of nine bytes is paid out where that of four was paid
in. -/
theorem refund_exceeds_deposit : ∃ i o growth bank',
    Life sponsoredEnv 2 lengthened i o growth ∧ sponsoredEnv.vault ∉ sponsoredCall.signers ∧
      (processCloseEphemeralAccount sponsoredEnv sponsoredCall).Ok lengthened () bank' ∧
      i + paid 9 lengthened bank' < o + paid 9 bank' lengthened :=
  ⟨_, _, _, _, life_created.write _, by decide, Exec.ok_of_outcome (by decide), by decide⟩

open SponsoredExample in
/-- The program shortens its account, which is then resized: all is paid back. -/
theorem refund_le_deposit_resized : ∃ i o bank', Life sponsoredEnv 2 resized i o (-3) ∧
    (processCloseEphemeralAccount sponsoredEnv sponsoredCall).Ok resized () bank' ∧
    o + paid 9 bank' resized ≤ i + paid 9 resized bank' := by
  obtain ⟨i, o, hlife⟩ := life_resized
  exact ⟨i, o, _, hlife, Exec.ok_of_outcome (by decide), (refund_le_deposit_iff hlife (by decide)
    (by decide) (Exec.ok_of_outcome (by decide))).mpr (by decide)⟩

/-! ### All accounts -/

/-- The lamports of all accounts of the instruction. -/
def total (ctx : InvokeContext) (bank : EphemeralBank) : ℤ :=
  ∑ k ∈ (ctx.accounts.map (·.pubkey)).toFinset, ((bank k).lamports : ℤ)

/-- What the target holds after rent was moved, wherever it stands in the list of accounts. -/
def held (env : EphemeralEnv) (bank : EphemeralBank) (sponsor target : Pubkey) (amount : ℤ) : ℤ :=
  (bank target).lamports - (if target = sponsor then amount else 0) +
    if target = env.vault then amount else 0

/-- Nothing is on the target when its balance is set to zero. -/
def TargetEmpty (env : EphemeralEnv) (ctx : InvokeContext) (bank : EphemeralBank)
    (instruction : EphemeralInstruction) : Prop :=
  ∀ sponsor target, ctx.getInstructionPubkeyWithIdx sponsorIdx = .ok sponsor →
    ctx.getInstructionPubkeyWithIdx ephemeralIdx = .ok target →
    match instruction with
    | .create dataLen => held env bank sponsor target (rent dataLen) = 0
    | .resize _ => True
    | .close => held env bank sponsor target (-rent (bank target).data.length) = 0

theorem mem_accounts (h : ctx.getInstructionPubkeyWithIdx idx = .ok k) :
    k ∈ (ctx.accounts.map (·.pubkey)).toFinset := by
  unfold InvokeContext.getInstructionPubkeyWithIdx InvokeContext.getInstructionAccountWithIdx at h
  cases hacc : ctx.accounts[idx]? with
  | none => simp [hacc, Except.map] at h
  | some acc =>
    simp only [hacc, Option.elim_some, Except.map, Except.ok.injEq] at h
    simpa using ⟨acc, List.mem_of_getElem? hacc, h⟩

theorem total_update (hk : k ∈ (ctx.accounts.map (·.pubkey)).toFinset) :
    total ctx (Function.update bank k acc) = total ctx bank - (bank k).lamports + acc.lamports := by
  rw [total, total, ← add_sum_erase _ _ hk, ← add_sum_erase _ _ hk, Function.update_self]
  have hrest : ∀ i ∈ ((ctx.accounts.map (·.pubkey)).toFinset).erase k,
      ((Function.update bank k acc i).lamports : ℤ) = (bank i).lamports := fun i hi => by
    rw [Function.update_of_ne (ne_of_mem_erase hi)]
  rw [sum_congr rfl hrest]
  ring

/-- **Moving rent keeps the sum**, also if sponsor, target and vault are the same. -/
theorem total_transferRent (hspon : ctx.getInstructionPubkeyWithIdx sponsorIdx = .ok sponsor)
    (hvlt : ctx.getInstructionPubkeyWithIdx vaultIdx = .ok env.vault)
    (h : (transferRent ctx amount).Ok bank u moved) (target : Pubkey) :
    total ctx moved = total ctx bank ∧
      (moved target).lamports = held env bank sponsor target amount := by
  rw [transferRent, Exec.ok_ite] at h
  simp only [Exec.ok_bind, ok_debit, ok_credit, hspon, hvlt, Except.ok.injEq, exists_eq_left'] at h
  have hs := mem_accounts hspon
  have hv := mem_accounts hvlt
  have htotal {b : EphemeralBank} {k : Pubkey} {n : ℕ} (hk) :
      total ctx (withLamports b k n) = total ctx b - (b k).lamports + n := total_update hk
  obtain ⟨hpos, -, b, ⟨hle, rfl⟩, -, rfl⟩ | ⟨hneg, -, b, ⟨-, rfl⟩, hle, rfl⟩ := h
  all_goals
    refine ⟨?_, by grind [held, withLamports_self, withLamports_of_ne]⟩
    rw [htotal hv, htotal hs]
    omega

theorem Performs.total_eq_iff (h : Performs env ctx target amount acc bank bank')
    (hspon : ctx.getInstructionPubkeyWithIdx sponsorIdx = .ok k)
    (hzero : ∀ a, (acc a).lamports = 0) :
    total ctx bank' = total ctx bank ↔ held env bank k target amount = 0 := by
  obtain ⟨moved, hmove, rfl⟩ := h.moves
  obtain ⟨htotal, hheld⟩ := total_transferRent hspon h.vault hmove target
  rw [total_update (mem_accounts h.key), htotal, hheld, hzero]
  omega

/-- **When an instruction conserves lamports**: exactly if nothing is on the account whose balance
it sets to zero. -/
theorem conserves_lamports_iff (env : EphemeralEnv) (ctx : InvokeContext) (entry : EntryPoint)
    (instruction : EphemeralInstruction) (bank bank' : EphemeralBank)
    (h : (process env ctx entry instruction).Ok bank () bank') :
    total ctx bank' = total ctx bank ↔ TargetEmpty env ctx bank instruction := by
  rw [process_eq_magic] at h
  cases instruction with
  | create dataLen =>
    obtain ⟨caller, target, -, -, -, h⟩ := performs_create h
    obtain ⟨sponsor, hspon, -⟩ := h.sponsor
    simp [TargetEmpty, h.total_eq_iff hspon fun _ => rfl, hspon, h.key]
  | resize newDataLen =>
    obtain ⟨target, -, -, h⟩ := performs_resize h
    obtain ⟨sponsor, hspon, -⟩ := h.sponsor
    obtain ⟨moved, hmove, rfl⟩ := h.moves
    have htotal := (total_transferRent hspon h.vault hmove target).1
    simp [TargetEmpty, total_update (mem_accounts h.key), htotal]
  | close =>
    obtain ⟨target, -, h⟩ := performs_close h
    obtain ⟨sponsor, hspon, -⟩ := h.sponsor
    simp [TargetEmpty, h.total_eq_iff hspon fun _ => rfl, hspon, h.key]

open SponsoredExample in
/-- Five lamports that the account has received are lost when it is closed. -/
theorem close_loses_lamports : ∃ bank', (process sponsoredEnv sponsoredCall .magic .close).Ok
      (Function.update created 2 { created 2 with lamports := 5 }) () bank' ∧
    total sponsoredCall bank' + 5 =
      total sponsoredCall (Function.update created 2 { created 2 with lamports := 5 }) :=
  ⟨_, Exec.ok_of_outcome (by decide), by decide⟩

open SponsoredExample in
theorem conserves_lamports_created : ∃ bank',
    (process sponsoredEnv sponsoredCall .magic .close).Ok created () bank' ∧
      total sponsoredCall bank' = total sponsoredCall created :=
  ⟨_, Exec.ok_of_outcome (by decide),
    (conserves_lamports_iff sponsoredEnv sponsoredCall .magic .close
    created _ (Exec.ok_of_outcome (by decide))).mpr (by rintro _ _ ⟨⟩ ⟨⟩; decide)⟩

end Magicblock.Ephemeral
