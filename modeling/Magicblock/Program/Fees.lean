import Magicblock.Intent.Limits
import Magicblock.Program.ActionIds

/-!
# Program/Fees — what scheduling a bundle costs

The fee of a bundle is that of its accounts and of its lists of actions, each list rounded up on its
own (`MagicIntentBundle.fee`).  A bundle within the limits has few accounts and compute units, so
that no sum saturates or overflows (`calculateFee_of_limits`).
-/

namespace Magicblock

open List Nat

open List (map_append map_cons map_map map_nil map_singleton sum_append_nat sum_cons sum_nil
  sum_singleton)
open Option (elim_none elim_some getD_some map_some)

open Limits

/-! ### The fee of a bundle -/

/-- An account costs something when its deposit is used up. -/
def commitFeeOf (account : CommittedAccount) : ℕ :=
  if actualCommitLimit < account.commitId then commitFeeLamports else 0

/-- The price of all compute units of a list, rounded up to lamports. -/
def actionsFeeOf (actions : List BaseAction) : ℕ :=
  ((actions.map (·.computeUnits)).sum * computeUnitPriceMicroLamports + 999999) / 1000000

/-- The lists of actions, each of which is rounded on its own. -/
def MagicIntentBundle.actionLists (b : MagicIntentBundle) : List (List BaseAction) :=
  let parts (t : CommitAndUndelegate) := [t.commitAction.actions, t.undelegateAction.actions]
  b.commit.elim [] (fun t => [t.actions]) ++ b.commitAndUndelegate.elim [] parts ++
    b.commitFinalize.elim [] (fun t => [t.actions]) ++
    b.commitFinalizeAndUndelegate.elim [] parts ++ [b.standaloneActions]

/-- **The fee of a bundle.** -/
def MagicIntentBundle.fee (b : MagicIntentBundle) : ℕ :=
  (b.getAllCommittedAccounts.map commitFeeOf).sum + (b.actionLists.map actionsFeeOf).sum

/-- The fee, unless an account has no commit id. -/
def feeUnlessMissing (accounts : List CommittedAccount) (fee : ℕ) : Except InstructionError ℕ :=
  if ∀ account ∈ accounts, account.commitId ≠ 0 then .ok fee
  else .error (.custom missingCommitNonceErr)

theorem feeUnlessMissing_bind (hf : f fee = feeUnlessMissing accs' fee') :
    (feeUnlessMissing accs fee >>= f) = feeUnlessMissing (accs ++ accs') fee' := by
  unfold feeUnlessMissing at hf ⊢
  by_cases h : ∀ acc ∈ accs, acc.commitId ≠ 0
  · rw [if_pos h]
    refine hf.trans (if_congr ?_ rfl rfl)
    rw [forall_mem_append]
    exact (and_iff_right h).symm
  · rw [if_neg h, if_neg fun hall => h (forall_mem_append.mp hall).1]
    rfl

theorem feeUnlessMissing_nil : feeUnlessMissing [] fee = .ok fee :=
  if_pos nofun

theorem feeUnlessMissing_map (f : ℕ → ℕ) :
    (do return f (← feeUnlessMissing accs fee)) = feeUnlessMissing accs (f fee) := by
  unfold feeUnlessMissing
  split_ifs <;> rfl

theorem calculateCommitFee_eq (accs : List CommittedAccount) :
    calculateCommitFee accs = feeUnlessMissing accs (accs.map commitFeeOf).sum := by
  suffices h : ∀ fee, accs.foldlM (fun fee acc =>
      if acc.commitId = 0 then .error (.custom missingCommitNonceErr)
      else .ok (fee + if actualCommitLimit < acc.commitId then commitFeeLamports else 0)) fee =
        feeUnlessMissing accs (fee + (accs.map commitFeeOf).sum) by
    rw [calculateCommitFee, h, zero_add]
  induction accs with
  | nil => exact fun fee => (feeUnlessMissing_nil).symm
  | cons acc accs ih =>
    intro fee
    rw [foldlM_cons]
    by_cases hid : acc.commitId = 0
    · rw [if_pos hid, feeUnlessMissing, if_neg fun h => h acc mem_cons_self hid]
      rfl
    · rw [if_neg hid, ← commitFeeOf, map_cons, sum_cons, ← add_assoc]
      refine (ih _).trans (if_congr ?_ rfl rfl)
      rw [forall_mem_cons]
      exact (and_iff_right hid).symm

theorem actionsFeeOf_nil : actionsFeeOf [] = 0 := by
  simp [actionsFeeOf]

/-- The units of actions. -/
def unitsOf (actions : List BaseAction) : ℕ := (actions.map (·.computeUnits)).sum

/-- Few enough compute units that their price does not saturate. -/
def Priceable (actions : List BaseAction) : Prop :=
  unitsOf actions * computeUnitPriceMicroLamports ≤ 2 ^ 64 - 1

theorem calculateActionsFee_eq (h : Priceable actions) :
    calculateActionsFee actions = actionsFeeOf actions := by
  let prices := actions.map (·.computeUnits * computeUnitPriceMicroLamports)
  have hsum : 0 + prices.sum = unitsOf actions * computeUnitPriceMicroLamports :=
    (zero_add _).trans (sum_map_mul_right ..)
  have hfold : saturatingSum (2 ^ 64 - 1) 0 prices =
      unitsOf actions * computeUnitPriceMicroLamports :=
    (saturatingSum_eq_of_le prices (hsum.trans_le h)).trans hsum
  rw [saturatingSum, foldl_map] at hfold
  rw [calculateActionsFee, hfold]
  rfl

def CommitType.fee (t : CommitType) : ℕ :=
  (t.getCommittedAccounts.map commitFeeOf).sum + actionsFeeOf t.actions

def CommitAndUndelegate.fee (t : CommitAndUndelegate) : ℕ :=
  t.commitAction.fee + actionsFeeOf t.undelegateAction.actions

theorem calculateFee_commitType {t : CommitType} (h : Priceable t.actions) :
    t.calculateFee = feeUnlessMissing t.getCommittedAccounts t.fee := by
  cases t with
  | standalone accs =>
    rw [CommitType.fee, CommitType.actions, actionsFeeOf_nil, add_zero]
    exact calculateCommitFee_eq accs
  | withBaseActions accs actions =>
    have hacts : calculateActionsFee actions = actionsFeeOf actions := calculateActionsFee_eq h
    rw [CommitType.calculateFee, calculateCommitFee_eq, hacts, feeUnlessMissing_map]
    rfl

theorem calculateFee_undelegateType {t : UndelegateType} (h : Priceable t.actions) :
    t.calculateFee = actionsFeeOf t.actions := by
  cases t with
  | standalone => rfl
  | withBaseActions actions => exact calculateActionsFee_eq h

theorem calculateFee_commitAndUndelegate {t : CommitAndUndelegate}
    (h : Priceable t.commitAction.actions) (h' : Priceable t.undelegateAction.actions) :
    t.calculateFee = feeUnlessMissing t.getCommittedAccounts t.fee := by
  rw [CommitAndUndelegate.calculateFee, calculateFee_commitType h, calculateFee_undelegateType h',
    feeUnlessMissing_map]
  rfl

/-- A part that may be missing. -/
theorem calculateFee_part
    (h : ∀ t, part = some t → calculate t = feeUnlessMissing (accs t) (fee t)) :
    part.elim (pure 0) calculate =
      feeUnlessMissing ((part.map accs).getD []) ((part.map fee).getD 0) := by
  cases part with
  | none => exact (feeUnlessMissing_nil).symm
  | some t => exact h t rfl

/-- What a part that may be missing adds to the sums of the bundle. -/
theorem fee_part (part : Option α)
    (h : ∀ t, fee t = ((accs t).map commitFeeOf).sum + ((lists t).map actionsFeeOf).sum) :
    (part.map fee).getD 0 =
      (((part.map accs).getD []).map commitFeeOf).sum +
        ((part.elim [] lists).map actionsFeeOf).sum := by
  cases part with
  | none => rfl
  | some t => exact h t

theorem MagicIntentBundle.fee_eq_parts (b : MagicIntentBundle) :
    b.fee = (b.commit.map CommitType.fee).getD 0 +
      (b.commitAndUndelegate.map CommitAndUndelegate.fee).getD 0 +
      (b.commitFinalize.map CommitType.fee).getD 0 +
      (b.commitFinalizeAndUndelegate.map CommitAndUndelegate.fee).getD 0 +
      actionsFeeOf b.standaloneActions := by
  have hcom (t : CommitType) : t.fee = (t.getCommittedAccounts.map commitFeeOf).sum +
      ([t.actions].map actionsFeeOf).sum := by
    rw [CommitType.fee, map_singleton, sum_singleton]
  have hund (t : CommitAndUndelegate) : t.fee =
      (t.getCommittedAccounts.map commitFeeOf).sum +
        ([t.commitAction.actions, t.undelegateAction.actions].map actionsFeeOf).sum := by
    rw [CommitAndUndelegate.fee, CommitType.fee, map_cons, map_singleton, sum_cons,
      sum_singleton, add_assoc]
    rfl
  rw [fee, getAllCommittedAccounts_eq, actionLists, fee_part b.commit hcom,
    fee_part b.commitAndUndelegate hund, fee_part b.commitFinalize hcom,
    fee_part b.commitFinalizeAndUndelegate hund]
  simp only [map_append, sum_append_nat, map_singleton, sum_singleton]
  ring

/-- **The fee is what the program calculates**, where no price saturates. -/
theorem calculateFee_eq {b : MagicIntentBundle} (h : ∀ actions ∈ b.actionLists, Priceable actions) :
    b.calculateFee = feeUnlessMissing b.getAllCommittedAccounts b.fee := by
  have hcom {part : Option CommitType} (hpart : ∀ t, part = some t → t.actions ∈ b.actionLists) :
      part.elim (pure 0) CommitType.calculateFee = feeUnlessMissing
        ((part.map CommitType.getCommittedAccounts).getD []) ((part.map CommitType.fee).getD 0) :=
    calculateFee_part fun t ht => calculateFee_commitType (h _ (hpart t ht))
  have hund {part : Option CommitAndUndelegate} (hpart : ∀ t, part = some t →
      t.commitAction.actions ∈ b.actionLists ∧ t.undelegateAction.actions ∈ b.actionLists) :
      part.elim (pure 0) CommitAndUndelegate.calculateFee = feeUnlessMissing
        ((part.map CommitAndUndelegate.getCommittedAccounts).getD [])
        ((part.map CommitAndUndelegate.fee).getD 0) :=
    calculateFee_part fun t ht =>
      calculateFee_commitAndUndelegate (h _ (hpart t ht).1) (h _ (hpart t ht).2)
  have hacts : calculateActionsFee b.standaloneActions = actionsFeeOf b.standaloneActions :=
    calculateActionsFee_eq (h _ (by simp [MagicIntentBundle.actionLists]))
  rw [MagicIntentBundle.calculateFee]
  dsimp only
  rw [hcom fun t ht => by simp [MagicIntentBundle.actionLists, ht],
    hund fun t ht => by simp [MagicIntentBundle.actionLists, ht],
    hcom fun t ht => by simp [MagicIntentBundle.actionLists, ht],
    hund fun t ht => by simp [MagicIntentBundle.actionLists, ht], hacts,
    MagicIntentBundle.getAllCommittedAccounts_eq, MagicIntentBundle.fee_eq_parts,
    append_assoc, append_assoc]
  exact feeUnlessMissing_bind (feeUnlessMissing_bind (feeUnlessMissing_bind
    (feeUnlessMissing_map fun fee => _ + fee + actionsFeeOf b.standaloneActions)))

/-! ### What the limits leave -/

section Bounds

variable (bld : InstructionBuilder) (auth : Pubkey)

/-- The compute units of both transactions. -/
def Limits.Estimate.units (e : Estimate) : ℕ := ((e.commits ++ e.followUp).map Prod.snd).sum

/-- What a part adds to them. -/
def Limits.Part.units (part : Part) : ℕ :=
  part.commit.elim 0 fun commit =>
    commit.getCommittedAccounts.length * taskCu + unitsOf commit.actions +
      part.undelegate.elim 0 fun undelegate =>
        commit.getCommittedAccounts.length * taskCu + unitsOf undelegate.actions

theorem units_some :
    Part.units ⟨some commit, und, comb⟩ =
      commit.getCommittedAccounts.length * taskCu + unitsOf commit.actions +
        und.elim 0 fun und =>
          commit.getCommittedAccounts.length * taskCu + unitsOf und.actions := rfl

theorem unitsOf_nil : unitsOf [] = 0 := rfl

theorem map_action : ((actions.map (action bld auth)).map Prod.snd).sum = unitsOf actions := by
  rw [map_map]
  rfl

theorem units_addCommits (accs : List CommittedAccount) (e : Estimate) :
    (e.addCommits bld auth accs).units = e.units + accs.length * taskCu := by
  simp only [Estimate.units, Estimate.addCommits, map_append, sum_append_nat,
    map_map, Function.comp_def, map_const', sum_replicate, smul_eq_mul]
  ring

theorem units_addActions (comb : Bool) (actions : List BaseAction) (e : Estimate) :
    (e.addActions bld auth comb actions).units = e.units + unitsOf actions := by
  cases comb <;>
    simp only [Estimate.units, Estimate.addActions, if_true, Bool.false_eq_true, if_false,
      map_append, sum_append_nat, map_action] <;> ring

theorem units_addUndelegations (accs : List CommittedAccount) (e : Estimate) :
    (accs.foldl (Estimate.addUndelegation bld auth) e).units = e.units + accs.length * taskCu := by
  induction accs generalizing e with
  | nil => simp
  | cons acc accs ih =>
    have hone : (e.addUndelegation bld auth acc).units = e.units + taskCu := by
      simp only [Estimate.units, Estimate.addUndelegation, map_append, sum_append_nat,
        map_singleton, sum_singleton]
      ring
    rw [foldl_cons, ih, hone, length_cons]
    ring

theorem units_addUndelegate (accs : List CommittedAccount) (und : UndelegateType)
    (e : Estimate) : (e.addUndelegate bld auth accs und).units =
      e.units + (accs.length * taskCu + unitsOf und.actions) := by
  cases und with
  | standalone =>
    rw [UndelegateType.actions, unitsOf_nil, add_zero]
    exact units_addUndelegations bld auth accs e
  | withBaseActions actions =>
    rw [← add_assoc, ← units_addUndelegations bld auth accs e]
    exact units_addActions bld auth false actions _

theorem units_addPart (e : Estimate) (part : Part) :
    (e.addPart bld auth part).units = e.units + part.units := by
  obtain ⟨commit, und, comb⟩ := part
  cases commit with
  | none => rfl
  | some commit =>
    -- the commits with their actions, and then what is undelegated
    obtain ⟨e', hcom, hpart⟩ : ∃ e' : Estimate,
        e'.units =
          e.units + (commit.getCommittedAccounts.length * taskCu + unitsOf commit.actions) ∧
          e.addPart bld auth ⟨some commit, und, comb⟩ =
            und.elim e' (e'.addUndelegate bld auth commit.getCommittedAccounts) := by
      cases commit with
      | standalone accs =>
        refine ⟨e.addCommits bld auth accs, ?_, by cases und <;> rfl⟩
        rw [CommitType.actions, unitsOf_nil, add_zero]
        exact units_addCommits bld auth accs e
      | withBaseActions accs actions =>
        refine ⟨(e.addCommits bld auth accs).addActions bld auth comb
          actions, ?_, by cases und <;> rfl⟩
        rw [← add_assoc, units_addActions, units_addCommits]
        rfl
    rw [units_some, hpart]
    cases und with
    | none =>
      rw [elim_none, elim_none, add_zero]
      exact hcom
    | some und =>
      rw [elim_some, elim_some, ← add_assoc, ← hcom]
      exact units_addUndelegate bld auth _ _ _

theorem units_addParts (l : List Part) (e : Estimate) :
    (l.foldl (Estimate.addPart bld auth) e).units = e.units + (l.map Part.units).sum := by
  induction l generalizing e with
  | nil => rfl
  | cons part l ih =>
    rw [foldl_cons, ih, units_addPart, map_cons, sum_cons, add_assoc]

/-- Payers do not change the units. -/
theorem map_assignPayers :
    (assignPayers bld auth used counter unds followUp).map Prod.snd = followUp.map Prod.snd := by
  induction unds generalizing used counter followUp with
  | nil => rfl
  | cons entry unds ih =>
    rw [assignPayers, ih]
    refine ext_getElem? fun i => ?_
    rw [getElem?_map, getElem?_map, getElem?_modify]
    split_ifs <;> cases followUp[i]? <;> rfl

theorem units_estimate (b : MagicIntentBundle) :
    ((estimate bld auth b).1.map Prod.snd).sum +
        ((estimate bld auth b).2.map Prod.snd).sum =
      unitsOf b.standaloneActions + ((parts b).map Part.units).sum := by
  have hunits := units_addParts bld auth (parts b)
    { commits := b.standaloneActions.map (action bld auth) }
  rw [Estimate.units, Estimate.units, append_nil, map_action, map_append, sum_append_nat] at hunits
  rw [estimate, map_assignPayers]
  exact hunits

/-- Every account and every action has its units in the estimate. -/
theorem units_le (b : MagicIntentBundle) :
    b.getAllCommittedAccounts.length * taskCu + (b.actionLists.map unitsOf).sum ≤
      unitsOf b.standaloneActions + ((parts b).map Part.units).sum := by
  have hcom (part : Option CommitType) (comb : Bool) :
      ((part.map CommitType.getCommittedAccounts).getD []).length * taskCu +
        ((part.elim [] fun t => [t.actions]).map unitsOf).sum = Part.units ⟨part, none, comb⟩ := by
    cases part with
    | none => rfl
    | some t =>
      rw [units_some]
      simp
  have hund (part : Option CommitAndUndelegate) (comb : Bool) :
      ((part.map CommitAndUndelegate.getCommittedAccounts).getD []).length * taskCu +
        ((part.elim [] fun t => [t.commitAction.actions, t.undelegateAction.actions]).map
          unitsOf).sum ≤
        Part.units ⟨part.map (·.commitAction), part.map (·.undelegateAction), comb⟩ := by
    cases part with
    | none => rfl
    | some t =>
      rw [map_some, map_some, units_some]
      simp only [map_some, getD_some, elim_some, map_cons, map_nil,
        sum_cons, sum_nil, CommitAndUndelegate.getCommittedAccounts]
      linarith [zero_le (t.commitAction.getCommittedAccounts.length * taskCu)]
  rw [MagicIntentBundle.getAllCommittedAccounts_eq, MagicIntentBundle.actionLists, parts]
  simp only [map_append, sum_append_nat, map_cons, map_nil, sum_cons, sum_nil, length_append,
    add_mul]
  linarith [hcom b.commit false, hcom b.commitFinalize true,
    hund b.commitAndUndelegate false, hund b.commitFinalizeAndUndelegate true]

variable {bld auth}

/-- The limits bound the accounts and the units of a bundle. -/
theorem units_le_of_limits (h : isIntentWithinLimits compiler auth bld b) :
    b.getAllCommittedAccounts.length * taskCu + (b.actionLists.map unitsOf).sum ≤
      2 * maxComputeUnits := by
  have hsum {tasks : EstimatedTransaction} (hts : computeUnits tasks ≤ maxComputeUnits) :
      (tasks.map Prod.snd).sum ≤ maxComputeUnits := by
    rw [computeUnits_eq] at hts
    have hlt : maxComputeUnits < 2 ^ 32 - 1 := by decide
    rw [saturatingSum_eq_of_lt _ (hts.trans_lt hlt)] at hts
    exact (le_add_left _ _).trans hts
  have hunits := units_le b
  rw [← units_estimate bld auth] at hunits
  linarith [hsum (computeUnits_le h).1, hsum (computeUnits_le h).2]

theorem actionsFeeOf_le : actionsFeeOf actions ≤ unitsOf actions := by
  rw [actionsFeeOf, ← unitsOf, computeUnitPriceMicroLamports]
  generalize unitsOf actions = n
  omega

theorem commitFees_le (accs : List CommittedAccount) :
    (accs.map commitFeeOf).sum ≤ accs.length * commitFeeLamports := by
  have hle : ∀ fee ∈ accs.map commitFeeOf, fee ≤ commitFeeLamports := by
    intro fee hfee
    obtain ⟨acc, -, rfl⟩ := mem_map.mp hfee
    rw [commitFeeOf]
    split_ifs
    · exact le_rfl
    · exact zero_le _
  have hsum := sum_le_card_nsmul _ _ hle
  rwa [length_map, smul_eq_mul] at hsum

/-- **Within the limits the fee is calculated without saturation or overflow.** -/
theorem calculateFee_of_limits (h : isIntentWithinLimits compiler auth bld b) :
    b.calculateFee = feeUnlessMissing b.getAllCommittedAccounts b.fee ∧ b.fee < 2 ^ 64 := by
  have hunits := units_le_of_limits h
  rw [taskCu, maxComputeUnits] at hunits
  refine ⟨calculateFee_eq fun actions hacts => ?_, ?_⟩
  · have hmem : unitsOf actions ≤ (b.actionLists.map unitsOf).sum :=
      le_sum_of_mem (mem_map_of_mem hacts)
    have hle : unitsOf actions ≤ 2800000 := hmem.trans (by omega)
    rw [Priceable, computeUnitPriceMicroLamports]
    exact (mul_le_mul_right 50000 hle).trans (by norm_num)
  · have hacts : (b.actionLists.map actionsFeeOf).sum ≤ (b.actionLists.map unitsOf).sum :=
      sum_le_sum fun actions _ => actionsFeeOf_le
    have hcoms := commitFees_le b.getAllCommittedAccounts
    rw [commitFeeLamports] at hcoms
    rw [MagicIntentBundle.fee]
    omega

end Bounds

end Magicblock
