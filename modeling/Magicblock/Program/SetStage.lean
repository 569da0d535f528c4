import Magicblock.Foundations.Hoare
import Magicblock.Foundations.Results
import Magicblock.Intent.Wire
import Magicblock.Program.Runtime

/-!
# Program/SetStage — `SetIntentExecutionStage` and the history of an outbox account

The runner records its progress in the outbox account of an intent.  The program reads the record
from the account's bytes, tries the transition and writes the record back in place.  The code below
works on those bytes; `copy_from_slice` panics if the sizes differ.
-/

namespace Magicblock

open Exec

/-- How an instruction fails. -/
inductive Fault where
  | error (err : InstructionError)
  | panicked
  deriving DecidableEq

/-- What the instruction takes from elsewhere: the validator's key, and the check of a derived
address against a stored bump. -/
structure SetStageEnv where
  authority : Pubkey
  verifyOutboxIntentPda : IntentID → UInt8 → Pubkey → Bool

/-- An attempt to set the stage of an intent: the accounts and signers of its instruction, and its
data. -/
structure SetStage where
  ctx : InvokeContext
  intentId : IntentID
  stage : ExecutionStage
  recoveryCommitNonces : List (Pubkey × ℕ)

namespace SetStage

variable (w : Wincode) (env : SetStageEnv)

def intentPdaIdx : ℕ := 1

def pubkeyWithIdx (a : SetStage) (idx : ℕ) : Exec (List UInt8) Fault Pubkey :=
  Exec.ofExcept ((a.ctx.getInstructionPubkeyWithIdx idx).mapError .error)

/-- The record, if the validator signed and the account is the intent's. -/
def validate (a : SetStage) : Exec (List UInt8) Fault OutboxIntentBundle := do
  let providedValidatorAuth ← a.pubkeyWithIdx 0
  Exec.ensure (providedValidatorAuth = env.authority) (.error .invalidArgument)
  Exec.ensure (env.authority ∈ a.ctx.signers) (.error .missingRequiredSignature)
  let providedPda ← a.pubkeyWithIdx intentPdaIdx
  let bundle ← Exec.ofOption (w.tryFromBytes (← get)) (.error .invalidAccountData)
  Exec.ensure (env.verifyOutboxIntentPda a.intentId bundle.bump providedPda)
    (.error .invalidArgument)
  pure bundle

def setNewExecutionStage (a : SetStage) (bundle : OutboxIntentBundle) :
    Exec (List UInt8) Fault Unit := do
  let bundle ← Exec.ofExcept ((bundle.applyStageTransition a.stage a.recoveryCommitNonces).mapError
    fun _ => .error .invalidArgument)
  let data ← Exec.ofOption (w.tryToBytes bundle) (.error .invalidAccountData)
  Exec.ensure (data.length = (← get).length) .panicked
  modify fun _ => data

/-- **`process_set_intent_execution_stage`**, on the bytes of the outbox account. -/
def process (a : SetStage) : Exec (List UInt8) Fault Unit := do
  let bundle ← a.validate w env
  a.setNewExecutionStage w bundle

variable {w env} {a : SetStage}

theorem meets_pubkeyWithIdx (hQ : ∀ key, Q key data) (hE : ∀ fault, E fault data) :
    (a.pubkeyWithIdx idx).Meets data Q E := by
  rw [pubkeyWithIdx, meets_ofExcept]
  exact ⟨fun key _ => hQ key, fun fault _ => hE fault⟩

theorem meets_validate (hE : ∀ fault, E fault data) : (a.validate w env).Meets data
      (fun bundle data' => data' = data ∧ w.tryFromBytes data = some bundle) E := by
  rw [validate, meets_bind]
  refine meets_pubkeyWithIdx (fun _ => ?_) hE
  rw [meets_bind, meets_ensure]
  refine ⟨fun _ => ?_, fun _ => hE _⟩
  rw [meets_bind, meets_ensure]
  refine ⟨fun _ => ?_, fun _ => hE _⟩
  rw [meets_bind]
  refine meets_pubkeyWithIdx (fun _ => ?_) hE
  rw [meets_bind, meets_get, meets_bind, meets_ofOption]
  refine ⟨fun bundle hbun => ?_, fun _ => hE _⟩
  rw [meets_bind, meets_ensure]
  exact ⟨fun _ => ⟨rfl, hbun⟩, fun _ => hE _⟩

/-- **What an attempt does**: it fails and writes nothing, or it stores the record after an allowed
transition, in as many bytes as there were. -/
theorem meets_process : (a.process w env).Meets data
    (fun _ data' => ∃ bundle bundle', w.tryFromBytes data = some bundle ∧
      bundle.applyStageTransition a.stage a.recoveryCommitNonces = .ok bundle' ∧
      w.tryToBytes bundle' = some data' ∧ data'.length = data.length)
    fun _ data' => data' = data := by
  rw [process, meets_bind]
  refine (meets_validate (E := fun _ data' => data' = data) fun _ => rfl).mono ?_ fun _ _ => id
  rintro bundle _ ⟨rfl, hbun⟩
  rw [setNewExecutionStage, meets_bind, meets_ofExcept]
  refine ⟨fun bundle' hbun' => ?_, fun _ _ => rfl⟩
  rw [meets_bind, meets_ofOption]
  refine ⟨fun data' hdata' => ?_, fun _ => rfl⟩
  rw [meets_bind, meets_get, meets_bind, meets_ensure]
  refine ⟨fun hlen => ?_, fun _ => rfl⟩
  exact ⟨bundle, bundle', hbun, Except.mapError_eq_ok.mp hbun', hdata', of_decide_eq_true hlen⟩

/-- The account after an attempt. -/
theorem outcome_process : ((a.process w env).outcome data).2 = data ∨
    ∃ bundle bundle', w.tryFromBytes data = some bundle ∧
      bundle.applyStageTransition a.stage a.recoveryCommitNonces = .ok bundle' ∧
      w.tryFromBytes ((a.process w env).outcome data).2 = some bundle' := by
  refine (meets_process.mono (fun _ data' h => ?_) fun _ data' h => ?_).final (P := fun data' =>
    data' = data ∨ ∃ bundle bundle', w.tryFromBytes data = some bundle ∧
      bundle.applyStageTransition a.stage a.recoveryCommitNonces = .ok bundle' ∧
      w.tryFromBytes data' = some bundle')
  · obtain ⟨bundle, bundle', hbun, hbun', hdata', -⟩ := h
    exact .inr ⟨bundle, bundle', hbun, hbun', Wincode.tryFromBytes_of_tryToBytes hdata'⟩
  · exact .inl h

/-- **A rejected attempt leaves the bytes as they are.** -/
theorem outcome_process_of_error (h : ((a.process w env).outcome data).1 = .error fault) :
    ((a.process w env).outcome data).2 = data := by
  have hproc : (a.process w env).Meets data _ _ := meets_process
  rw [Meets] at hproc
  rcases hout : (a.process w env).outcome data with ⟨_ | _, data'⟩
  · rwa [hout] at hproc
  · rw [hout] at h
    cases h

end SetStage

/-! ### Statuses grow -/

namespace OutboxIntentBundleStatus

/-- How far a status is. -/
def level : OutboxIntentBundleStatus → ℕ
  | accepted => 0
  | executing (.singleStage _) => 1
  | executing (.twoStage (.committing _)) => 2
  | executing (.twoStage (.finalizing _ _)) => 3

/-- The commit a status is tied to. -/
def commit : OutboxIntentBundleStatus → Option Signature
  | executing (.twoStage (.finalizing commit _)) => some commit
  | _ => none

theorem commit_eq_some : s.commit = some c ↔ ∃ f, s = executing (.twoStage (.finalizing c f)) := by
  constructor
  · intro hc
    rcases s with _ | (_ | (_ | ⟨commit, f⟩))
    · cases hc
    · cases hc
    · cases hc
    · cases hc
      exact ⟨f, rfl⟩
  · rintro ⟨f, rfl⟩
    rfl

/-- A later status: it is as far, and tied to the same commit. -/
structure Grows (s s' : OutboxIntentBundleStatus) : Prop where
  level : s.level ≤ s'.level
  commit (c : Signature) : s.commit = some c → s'.commit = some c

theorem Grows.refl (s : OutboxIntentBundleStatus) : Grows s s := ⟨le_rfl, fun _ => id⟩

theorem Grows.trans (h : Grows s s') (h' : Grows s' s'') : Grows s s'' :=
  ⟨h.level.trans h'.level, fun c hc => h'.commit c (h.commit c hc)⟩

theorem Advance.grows (h : Advance s stage) : Grows s (executing stage) := by
  cases h with
  | againFinalize => exact ⟨le_rfl, fun _ => id⟩
  | _ => exact ⟨by simp [level], fun c hc => by cases hc⟩

/-- What is tied to a commit now was tied to it before, or was committing it. -/
theorem Advance.commit_cases (h : Advance s stage) (hc : (executing stage).commit = some c) :
    s.commit = some c ∨ ∃ p, s = executing (.twoStage (.committing p)) ∧ p.signature = c := by
  cases h with
  | finalize => exact .inr ⟨_, rfl, Option.some.inj hc⟩
  | againFinalize => exact .inl hc
  | _ => cases hc

end OutboxIntentBundleStatus

/-! ### Histories -/

section History

open OutboxIntentBundleStatus

variable (w : Wincode) (env : SetStageEnv) (data : List UInt8) (attempts : List SetStage)

/-- The bytes of the account after the first `i` attempts. -/
def accountAfter (i : ℕ) : List UInt8 :=
  (attempts.take i).foldl (fun data a => ((a.process w env).outcome data).2) data

/-- The status stored after the first `i` attempts. -/
def storedAfter (i : ℕ) : Option OutboxIntentBundleStatus :=
  (w.tryFromBytes (accountAfter w env data attempts i)).map (·.status)

variable {w env data attempts}

theorem accountAfter_succ (h : attempts[i]? = some a) :
    accountAfter w env data attempts (i + 1) =
      ((a.process w env).outcome (accountAfter w env data attempts i)).2 := by
  rw [accountAfter, accountAfter, List.take_add_one, h]
  exact List.foldl_concat ..

theorem accountAfter_succ_of_none (h : attempts[i]? = none) :
    accountAfter w env data attempts (i + 1) = accountAfter w env data attempts i := by
  rw [accountAfter, accountAfter, List.take_add_one, h, Option.toList_none, List.append_nil]

/-- An attempt leaves the status as it is or advances it. -/
theorem storedAfter_succ : storedAfter w env data attempts (i + 1) =
      storedAfter w env data attempts i ∨
    ∃ s stage, storedAfter w env data attempts i = some s ∧ Advance s stage ∧
      storedAfter w env data attempts (i + 1) = some (executing stage) := by
  rcases ha : attempts[i]? with _ | a
  · rw [storedAfter, accountAfter_succ_of_none ha]
    exact .inl rfl
  · rw [storedAfter, accountAfter_succ ha]
    rcases SetStage.outcome_process with hsame | ⟨bundle, bundle', hbun, hstg, hbun'⟩
    · rw [hsame]
      exact .inl rfl
    · obtain ⟨status, hstat, rfl⟩ := Except.map_eq_ok.mp hstg
      obtain ⟨rfl, hadv⟩ := advance_of_applyStageTransition hstat
      rw [hbun']
      exact .inr ⟨bundle.status, a.stage, congrArg (Option.map _) hbun, hadv, rfl⟩

/-- **Statuses only grow.** -/
theorem storedAfter_grows (hij : i ≤ j) (hs : storedAfter w env data attempts i = some s) :
    ∃ s', storedAfter w env data attempts j = some s' ∧ Grows s s' := by
  induction j, hij using Nat.le_induction with
  | base => exact ⟨s, hs, .refl s⟩
  | succ j _ ih =>
    obtain ⟨s', hs', hgrows⟩ := ih
    rcases storedAfter_succ with hsame | ⟨s'', stage, hs'', hadv, hnext⟩
    · exact ⟨s', hsame.trans hs', hgrows⟩
    · cases hs'.symm.trans hs''
      exact ⟨_, hnext, hgrows.trans hadv.grows⟩

/-- The first status that is tied to a commit comes from the one that was committing it. -/
theorem storedAfter_first
    (hj : storedAfter w env data attempts j = some (executing (.twoStage (.finalizing c f))))
    (hfst : ∀ i < j, ∀ c f, storedAfter w env data attempts i ≠
      some (executing (.twoStage (.finalizing c f)))) (hpos : 0 < j) :
    ∃ p, storedAfter w env data attempts (j - 1) = some (executing (.twoStage (.committing p))) ∧
      p.signature = c := by
  obtain ⟨i, rfl⟩ := Nat.exists_eq_add_of_lt hpos
  rw [zero_add] at hj hfst ⊢
  rw [Nat.add_sub_cancel]
  rcases storedAfter_succ with hsame | ⟨s, stage, hs, hadv, hnext⟩
  · exact absurd (hsame.symm.trans hj) (hfst i (Nat.lt_succ_self i) c f)
  · have hstg : executing stage = _ := Option.some.inj (hnext.symm.trans hj)
    rcases hadv.commit_cases (c := c) (by rw [hstg]; rfl) with hc | ⟨p, rfl, hp⟩
    · obtain ⟨f', rfl⟩ := commit_eq_some.mp hc
      exact absurd hs (hfst i (Nat.lt_succ_self i) c f')
    · exact ⟨p, hs, hp⟩

end History

open OutboxIntentBundleStatus in
/-- **The stage machine over whole histories.**  Two-stage execution is never taken back to a single
stage; a commit that is being finalized stays and stays the same; the first one to be finalized is
the last that was being committed; and a rejected attempt leaves the bytes of the account as they
are. -/
theorem stage_history (w : Wincode) (env : SetStageEnv) (data : List UInt8)
    (attempts : List SetStage) :
    (∀ i j progress q, i ≤ j →
      storedAfter w env data attempts i = some (executing (.twoStage progress)) →
      storedAfter w env data attempts j ≠ some (executing (.singleStage q))) ∧
    (∀ i j c f, i ≤ j →
      storedAfter w env data attempts i = some (executing (.twoStage (.finalizing c f))) →
      ∃ f', storedAfter w env data attempts j =
        some (executing (.twoStage (.finalizing c f')))) ∧
    (∀ i j p c f, i < j →
      storedAfter w env data attempts i = some (executing (.twoStage (.committing p))) →
      (∀ k, i < k → k < j → ∀ q,
        storedAfter w env data attempts k ≠ some (executing (.twoStage (.committing q)))) →
      storedAfter w env data attempts j = some (executing (.twoStage (.finalizing c f))) →
      (∀ k < j, ∀ c f,
        storedAfter w env data attempts k ≠ some (executing (.twoStage (.finalizing c f)))) →
      p.signature = c) ∧
    ∀ i a fault, attempts[i]? = some a →
      ((a.process w env).outcome (accountAfter w env data attempts i)).1 = .error fault →
      accountAfter w env data attempts (i + 1) = accountAfter w env data attempts i := by
  refine ⟨?_, ?_, ?_, ?_⟩
  · intro i j progress q hij hi hj
    obtain ⟨s, hs, hgrows⟩ := storedAfter_grows hij hi
    cases hs.symm.trans hj
    have hlevel := hgrows.level
    cases progress <;> simp [level] at hlevel
  · intro i j c f hij hi
    obtain ⟨s, hs, hgrows⟩ := storedAfter_grows hij hi
    obtain ⟨f', rfl⟩ := commit_eq_some.mp (hgrows.commit c rfl)
    exact ⟨f', hs⟩
  · intro i j p c f hij hi hlast hj hfst
    obtain ⟨q, hq, rfl⟩ := storedAfter_first hj hfst (Nat.zero_lt_of_lt hij)
    rcases (Nat.le_sub_one_of_lt hij).eq_or_lt with rfl | hlt
    · cases hi.symm.trans hq
      rfl
    · exact absurd hq (hlast (j - 1) hlt (Nat.sub_lt (Nat.zero_lt_of_lt hij) Nat.one_pos) q)
  · intro i a fault ha herr
    rw [accountAfter_succ ha]
    exact SetStage.outcome_process_of_error herr

namespace OutboxExample

/-- Tags of four bytes, one byte for options, lengths of eight bytes. -/
def wincode : Wincode := default

def env : SetStageEnv := ⟨1, fun _ _ _ => true⟩

/-- An intent that commits account 7 for the third time. -/
def inner : ScheduledIntentBundle where
  intentId := 1
  slot := 0
  blockhash := 0
  payer := 0
  intentBundle := { commit := some (.standalone [⟨7, ⟨0, [], 0, false, 0⟩, 0, 3⟩]) }

/-- The validator records that transaction 2 commits it. -/
def toCommitting : SetStage where
  ctx := ⟨0, [⟨1, true⟩, ⟨5, true⟩], [1], .ok none, none, 0⟩
  intentId := 1
  stage := .twoStage (.committing ⟨2, 0⟩)
  recoveryCommitNonces := [(7, 3)]

/-- Then it records that transaction 3 finalizes what transaction 2 has committed. -/
def toFinalizing : SetStage :=
  { toCommitting with stage := .twoStage (.finalizing 2 ⟨3, 0⟩) }

def data : List UInt8 := (wincode.tryToBytes (.accepted inner 255)).getD []

theorem tryToBytes_inner : wincode.tryToBytes (.accepted inner 255) = some data := by
  decide +kernel

theorem storedAfter_finalizing :
    storedAfter wincode env data [toCommitting, toFinalizing, toCommitting] 2 =
    some (.executing (.twoStage (.finalizing 2 ⟨3, 0⟩))) := by
  decide +kernel

end OutboxExample

open OutboxExample in
/-- Another attempt to commit is rejected. -/
theorem stage_history_finalizing :
    storedAfter wincode env data [toCommitting, toFinalizing, toCommitting] 2 =
        some (.executing (.twoStage (.finalizing 2 ⟨3, 0⟩))) ∧
      ∃ f, storedAfter wincode env data [toCommitting, toFinalizing, toCommitting] 3 =
        some (.executing (.twoStage (.finalizing 2 f))) :=
  ⟨storedAfter_finalizing, (stage_history wincode env data
    [toCommitting, toFinalizing, toCommitting]).2.1 2 3 2 _ (by decide) storedAfter_finalizing⟩

end Magicblock
