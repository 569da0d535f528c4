import Magicblock.Settlement.TaskBuilder

/-!
# Settlement/Admission — what scheduling estimates is what the settlement builds

`Limits.estimate` and `TaskBuilder` walk over the same bundle, one to lay out instructions when the
intent is scheduled, the other to make tasks when it is settled.  `Estimated` says which instruction
stands for which task; the two lists of each stage match entry by entry, so that an intent that was
accepted has the compute units for both stages.
-/

namespace Magicblock

open List

open List (Forall₂ append_assoc append_nil map_cons rel_append)
open Magicblock.Except (bind_eq_ok)

open Limits TaskBuilder

section Estimated

variable (builder : InstructionBuilder) (auth : Pubkey)

/-- An estimated instruction, with its compute units, for a task.  Scheduling does not know who pays
the rent of an undelegated account. -/
inductive Estimated : Task → Instruction × ℕ → Prop where
  | commitFinalize (task : CommitFinalizeTask) : Estimated (.commitFinalize task)
      (commitInstruction builder auth task.committedAccount, taskCu)
  | undelegate (task : UndelegateTask) (payer : Pubkey) : Estimated (.undelegate task)
      (builder.undelegateWithRequest auth task.delegatedAccount task.ownerProgram payer, taskCu)
  | baseAction (task : BaseActionTask) :
    Estimated (.baseAction task) (action builder auth task.action)

variable {builder auth}

theorem Estimated.computeUnits_eq
    (h : Estimated builder auth task entry) : task.computeUnits = entry.2 := by
  cases h <;> rfl

theorem map_computeUnits_eq (h : Forall₂ (Estimated builder auth) tasks entries) :
    tasks.map Task.computeUnits = entries.map Prod.snd := by
  induction h with
  | nil => rfl
  | cons hfst _ ih => rw [map_cons, map_cons, hfst.computeUnits_eq, ih]

theorem estimated_createActionTasks : Forall₂ (Estimated builder auth) (createActionTasks actions)
      (actions.map (action builder auth)) := by
  refine forall₂_map_left_iff.mpr (forall₂_map_right_iff.mpr ?_)
  refine forall₂_same.mpr fun a _ => ?_
  rcases hsource : a.sourceProgram with _ | source
  · exact .baseAction (.v1 a)
  · exact .baseAction (.v2 a source)

theorem estimated_buildCommitTasks (allowUndelegation : Bool) (accs : List CommittedAccount)
    (base : List (Pubkey × Account)) :
    Forall₂ (Estimated builder auth) (buildCommitTasks allowUndelegation accs base).1
      (accs.map fun acc => (commitInstruction builder auth acc, taskCu)) := by
  induction accs generalizing base with
  | nil => exact .nil
  | cons acc accs ih =>
    exact .cons (.commitFinalize (createCommitFinalizeTask ..)) (ih _)

end Estimated

/-! ### Commits -/

section Commits

variable {e : Estimate}

theorem commits_foldl_addUndelegation (accs : List CommittedAccount) :
    (accs.foldl (Estimate.addUndelegation builder auth) e).commits = e.commits := by
  induction accs generalizing e with
  | nil => rfl
  | cons acc accs ih => exact ih

theorem commits_addUndelegate : (e.addUndelegate builder auth accs und).commits = e.commits := by
  cases und with
  | standalone | withBaseActions => exact commits_foldl_addUndelegation accs

/-- What a part adds to the commits. -/
theorem commits_addPart : (e.addPart builder auth part).commits =
    e.commits ++ ((part.commit.map CommitType.getCommittedAccounts).getD []).map
        (fun acc => (commitInstruction builder auth acc, taskCu)) ++
      if part.combined then
        ((part.commit.map baseActionsOf).getD []).map (action builder auth)
      else [] := by
  obtain ⟨commit, und, comb⟩ := part
  rcases commit with _ | (accs | ⟨accs, actions⟩)
  · simp [Estimate.addPart]
  · cases und <;>
      simp [Estimate.addPart, Estimate.addCommits, commits_addUndelegate, baseActionsOf,
        CommitType.getCommittedAccounts]
  · cases und <;> cases comb <;>
      simp [Estimate.addPart, Estimate.addCommits, Estimate.addActions, commits_addUndelegate,
        baseActionsOf, CommitType.getCommittedAccounts]

/-- **The first stage matches.** -/
theorem estimated_commitTasks (h : commitTasks intent metadata base = .ok tasks) :
    Forall₂ (Estimated builder auth) tasks (estimate builder auth intent.intentBundle).1 := by
  obtain ⟨_, -, ⟨⟩⟩ := bind_eq_ok.mp h
  have hest : (estimate builder auth intent.intentBundle).1 =
      (Estimate.addPart builder auth (Estimate.addPart builder auth
        (Estimate.addPart builder auth (Estimate.addPart builder auth _ _) _) _) _).commits :=
    rfl
  rw [hest]
  simp only [commits_addPart, Option.map_map, append_assoc, nil_append, reduceIte,
    Bool.false_eq_true]
  exact rel_append (estimated_createActionTasks) <| rel_append (estimated_buildCommitTasks ..) <|
    rel_append (estimated_buildCommitTasks ..) <|
    rel_append (estimated_createActionTasks) <|
    rel_append (estimated_buildCommitTasks ..) <|
    rel_append (estimated_buildCommitTasks ..) (estimated_createActionTasks)

end Commits

/-! ### The follow-up -/

section FollowUp

variable {builder : InstructionBuilder} {auth : Pubkey} {e : Estimate} {tasks : List Task}

/-- The undelegation of an account. -/
def Undelegates (task : Task) (account : CommittedAccount) : Prop :=
  ∃ t : UndelegateTask, task = .undelegate t ∧ t.delegatedAccount = account.pubkey ∧
    t.ownerProgram = account.account.owner

variable {task : Task}

theorem Undelegates.estimated (h : Undelegates task acc) (payer : Pubkey) :
    Estimated builder auth task (undelegation builder auth acc payer, taskCu) := by
  obtain ⟨t, rfl, hkey, hown⟩ := h
  rw [undelegation, ← hkey, ← hown]
  exact .undelegate t payer

variable (builder auth) in
/-- The second transaction so far: it matches the tasks, and its undelegations are where they are
remembered to be. -/
structure Agrees (tasks : List Task) (e : Estimate) : Prop where
  followUp : Forall₂ (Estimated builder auth) tasks e.followUp
  undelegations : ∀ u ∈ e.undelegations, ∃ task, tasks[u.1]? = some task ∧ Undelegates task u.2

theorem Agrees.addCommits (h : Agrees builder auth tasks e) (accs : List CommittedAccount) :
    Agrees builder auth tasks (e.addCommits builder auth accs) :=
  ⟨h.followUp, h.undelegations⟩

theorem Agrees.append (h : Agrees builder auth tasks e)
    (hents : Forall₂ (Estimated builder auth) tasks' entries) :
    Agrees builder auth (tasks ++ tasks') { e with followUp := e.followUp ++ entries } := by
  refine ⟨rel_append h.followUp hents, fun u hu => ?_⟩
  obtain ⟨task, htask, hund⟩ := h.undelegations u hu
  refine ⟨task, ?_, hund⟩
  rw [List.getElem?_append_left (List.getElem?_eq_some_iff.mp htask).1, htask]

/-- Actions that do not run with the commits run in the follow-up. -/
def followUpActions (combined : Bool) (actions : List BaseAction) : List Task :=
  if combined then [] else createActionTasks actions

@[simp]
theorem followUpActions_nil : followUpActions comb [] = [] := by
  cases comb <;> rfl

theorem Agrees.addActions (h : Agrees builder auth tasks e) (comb : Bool)
    (actions : List BaseAction) :
    Agrees builder auth (tasks ++ followUpActions comb actions)
      (e.addActions builder auth comb actions) := by
  cases comb with
  | false => exact h.append (estimated_createActionTasks)
  | true =>
    rw [followUpActions, if_pos rfl, append_nil]
    exact ⟨h.followUp, h.undelegations⟩

theorem undelegates_of_undelegateTask (h : undelegateTask metadata acc = .ok task) :
    Undelegates task acc := by
  unfold undelegateTask at h
  split at h
  · cases h
  · cases h
    exact ⟨_, rfl, rfl, rfl⟩

section

variable (h : Agrees builder auth tasks e)

include h

theorem Agrees.addUndelegation (htask : Undelegates task acc) :
    Agrees builder auth (tasks ++ [task]) (e.addUndelegation builder auth acc) := by
  have happ := h.append (forall₂_cons.mpr ⟨htask.estimated 0, .nil⟩)
  refine ⟨happ.followUp, forall_mem_append.mpr ⟨happ.undelegations, ?_⟩⟩
  refine forall_mem_singleton.mpr ⟨task, ?_, htask⟩
  rw [← h.followUp.length_eq]
  exact getElem?_concat_length

theorem Agrees.addUndelegations {accs : List CommittedAccount}
    (hts : accs.mapM (undelegateTask metadata) = .ok tasks') :
    Agrees builder auth (tasks ++ tasks')
      (accs.foldl (Estimate.addUndelegation builder auth) e) := by
  rw [Except.mapM_eq_ok] at hts
  induction hts generalizing tasks e with
  | nil => rwa [append_nil]
  | cons htask _ ih =>
    have hnext := ih (h.addUndelegation (undelegates_of_undelegateTask htask))
    rwa [append_assoc] at hnext

theorem Agrees.addUndelegate {accs : List CommittedAccount}
    (hts : accs.mapM (undelegateTask metadata) = .ok tasks') (und : UndelegateType) :
    Agrees builder auth
      (tasks ++ (tasks' ++ createActionTasks (match und with
        | .standalone => []
        | .withBaseActions actions => actions)))
      (e.addUndelegate builder auth accs und) := by
  have hunds := h.addUndelegations hts
  rw [← append_assoc]
  cases und with
  | standalone =>
    rw [show createActionTasks [] = [] from rfl, append_nil]
    exact hunds
  | withBaseActions actions => exact hunds.addActions false actions

/-- A commit of a bundle, before its undelegations. -/
theorem Agrees.addCommit (comb : Bool) (commit : Option CommitType) : Agrees builder auth
      (tasks ++ followUpActions comb ((commit.map baseActionsOf).getD []))
      (e.addPart builder auth ⟨commit, none, comb⟩) := by
  rcases commit with _ | (accs | ⟨accs, actions⟩)
  · rwa [Option.map_none, Option.getD_none, followUpActions_nil, append_nil]
  · rw [Option.map_some, Option.getD_some, baseActionsOf, followUpActions_nil, append_nil]
    exact h.addCommits accs
  · exact (h.addCommits accs).addActions comb actions

/-- …and with them. -/
theorem Agrees.addCommitAndUndelegate (comb : Bool) {value : Option CommitAndUndelegate}
    (hts : value.elim (.ok []) (createUndelegateTasks metadata) = .ok tasks') :
    Agrees builder auth
      (tasks ++ followUpActions comb
        ((value.map fun v => baseActionsOf v.commitAction).getD []) ++ tasks')
      (e.addPart builder auth
        ⟨value.map (·.commitAction), value.map (·.undelegateAction), comb⟩) := by
  cases value with
  | none =>
    cases hts
    rw [append_nil]
    exact h.addCommit comb none
  | some value =>
    obtain ⟨unds, hmap, ⟨⟩⟩ := bind_eq_ok.mp hts
    exact (h.addCommit comb (some value.commitAction)).addUndelegate hmap value.undelegateAction

end

/-! ### Payers -/

/-- An entry is replaced by another one for the same task. -/
theorem estimated_modify (h : Forall₂ (Estimated builder auth) tasks entries)
    (htask : tasks[index]? = some task)
    (hf : ∀ entry, Estimated builder auth task entry → Estimated builder auth task (f entry)) :
    Forall₂ (Estimated builder auth) tasks (entries.modify index f) := by
  induction h generalizing index with
  | nil => cases htask
  | cons hfst hrest ih =>
    cases index with
    | zero =>
      cases htask
      exact .cons (hf _ hfst) hrest
    | succ index => exact .cons hfst (ih htask)

theorem Undelegates.estimated_payer (h : Undelegates task acc) (payer : Pubkey)
    (entry : Instruction × ℕ) (hent : Estimated builder auth task entry) :
    Estimated builder auth task (undelegation builder auth acc payer, entry.2) := by
  have hest : Estimated builder auth task _ := h.estimated payer
  rwa [← hent.computeUnits_eq, hest.computeUnits_eq]

/-- Payers are changed, nothing else. -/
theorem estimated_assignPayers (h : Forall₂ (Estimated builder auth) tasks entries)
    (hund : ∀ u ∈ unds, ∃ task, tasks[u.1]? = some task ∧ Undelegates task u.2) :
    Forall₂ (Estimated builder auth) tasks
      (assignPayers builder auth used counter unds entries) := by
  induction unds generalizing used counter entries with
  | nil => exact h
  | cons u unds ih =>
    obtain ⟨⟨task, htask, hunds⟩, hrest⟩ := forall_mem_cons.mp hund
    exact ih (estimated_modify h htask (hunds.estimated_payer _)) hrest

/-- **The second stage matches.** -/
theorem estimated_followUpTasks {intent : ScheduledIntentBundle}
    (h : followUpTasks intent metadata = .ok tasks) :
    Forall₂ (Estimated builder auth) tasks (estimate builder auth intent.intentBundle).2 := by
  obtain ⟨_, -, h⟩ := bind_eq_ok.mp h
  obtain ⟨undelegated, hund, h⟩ := bind_eq_ok.mp h
  obtain ⟨finalized, hfin, ⟨⟩⟩ := bind_eq_ok.mp h
  have hstart : Agrees builder auth []
      { commits := intent.intentBundle.standaloneActions.map (action builder auth) } :=
    ⟨.nil, forall_mem_nil _⟩
  have hparts := (((hstart.addCommit false intent.intentBundle.commit).addCommit true
    intent.intentBundle.commitFinalize).addCommitAndUndelegate false
      hund).addCommitAndUndelegate true hfin
  simp only [followUpActions, reduceIte, Bool.false_eq_true, append_nil, nil_append] at hparts
  rw [append_assoc (createActionTasks _) (createActionTasks _)] at hparts
  exact estimated_assignPayers hparts.followUp hparts.undelegations

end FollowUp

/-! ### Compute units -/

/-- Tasks need no more than was estimated, with or without the no-op. -/
theorem tasksComputeUnits_le (h : tasks.map Task.computeUnits = entries.map Prod.snd) :
    tasksComputeUnits tasks nonce ≤ computeUnits entries := by
  have hts : tasksComputeUnits tasks nonce = saturatingSum (2 ^ 32 - 1)
      (if nonce.isSome then uniquenessNoopComputeUnits else 0) (tasks.map Task.computeUnits) := by
    rw [saturatingSum, foldl_map]
    rfl
  rw [hts, computeUnits_eq, h]
  refine saturatingSum_mono _ ?_
  split_ifs
  · exact le_rfl
  · exact Nat.zero_le _

theorem Task.Delivers.computeUnits_eq {t t' : Task} (h : t.Delivers t') :
    t'.computeUnits = t.computeUnits := by
  obtain rfl | ⟨task, delivery, rfl, rfl⟩ := h.cases <;> rfl

/-- Buffers cost no compute units. -/
theorem map_computeUnits_of_delivers {tasks tasks' : List Task}
    (h : Forall₂ Task.Delivers tasks tasks') :
    tasks'.map Task.computeUnits = tasks.map Task.computeUnits := by
  induction h with
  | nil => rfl
  | cons hfst _ ih => rw [map_cons, map_cons, hfst.computeUnits_eq, ih]

/-- **Admission and delivery agree on compute.**  Task by task, the lists that the task builder
makes of an intent are what was estimated of it; so both stages of an intent that is within limits
keep to the compute units of a transaction, and also when commits are moved to buffers to split the
plan. -/
theorem estimate_agrees (builder : InstructionBuilder) (compiler : MessageCompiler)
    (auth : Pubkey) (intent : ScheduledIntentBundle) (metadata : MetadataResult)
    (base : BaseAccountsResult) (metadata' : MetadataResult) (commits followUps : List Task)
    (hcoms : commitTasks intent metadata base = .ok commits)
    (hfus : followUpTasks intent metadata' = .ok followUps) :
    Forall₂ (Estimated builder auth) commits
      (estimate builder auth intent.intentBundle).1 ∧
    commits.map Task.computeUnits =
      (estimate builder auth intent.intentBundle).1.map Prod.snd ∧
    Forall₂ (Estimated builder auth) followUps
      (estimate builder auth intent.intentBundle).2 ∧
    followUps.map Task.computeUnits =
      (estimate builder auth intent.intentBundle).2.map Prod.snd ∧
    (isIntentWithinLimits compiler auth builder intent.intentBundle →
      ∀ nonce, tasksComputeUnits commits nonce ≤ Limits.maxComputeUnits ∧
        tasksComputeUnits followUps nonce ≤ Limits.maxComputeUnits ∧
        ∀ (assembler : Assembler) (plan : TransactionPlan),
          assembler.buildSplitPlan commits followUps nonce = .ok plan →
          tasksComputeUnits plan.current.tasks nonce ≤ Limits.maxComputeUnits ∧
          ∃ followUp, plan.followUp = some followUp ∧
            tasksComputeUnits followUp.tasks nonce ≤ Limits.maxComputeUnits) := by
  have hfst : Forall₂ (Estimated builder auth) commits _ :=
    estimated_commitTasks hcoms
  have hsnd : Forall₂ (Estimated builder auth) followUps _ :=
    estimated_followUpTasks hfus
  have hunits₁ := map_computeUnits_eq hfst
  have hunits₂ := map_computeUnits_eq hsnd
  refine ⟨hfst, hunits₁, hsnd, hunits₂, fun hlims nonce => ?_⟩
  obtain ⟨hle₁, hle₂⟩ := computeUnits_le hlims
  refine ⟨(tasksComputeUnits_le hunits₁).trans hle₁,
    (tasksComputeUnits_le hunits₂).trans hle₂, fun assembler plan hplan => ?_⟩
  obtain ⟨current, hcur, hplan⟩ := bind_eq_ok.mp hplan
  obtain ⟨followUp, hfu, ⟨⟩⟩ := bind_eq_ok.mp hplan
  have hbuilt₁ := (map_computeUnits_of_delivers (delivers_buildStrategy hcur)).trans hunits₁
  have hbuilt₂ := (map_computeUnits_of_delivers (delivers_buildStrategy hfu)).trans hunits₂
  exact ⟨(tasksComputeUnits_le hbuilt₁).trans hle₁, followUp, rfl,
    (tasksComputeUnits_le hbuilt₂).trans hle₂⟩

namespace AdmissionExample

/-- Instructions without content. -/
def builder : InstructionBuilder where
  commitFinalize _ _ _ _ := ⟨0, [], []⟩
  commitFinalizeFromBuffer _ _ _ _ := ⟨0, [], []⟩
  undelegateWithRequest _ _ _ _ := ⟨0, [], []⟩
  callHandlerV2 _ _ _ _ _ _ := ⟨0, [], []⟩
  callHandler _ _ _ _ _ := ⟨0, [], []⟩
  bufferPda _ _ _ := 0

/-- Every message fits. -/
def compiler : MessageCompiler where
  loadedAccountsBytes := 0
  maxTransactionSize := 0
  packetDataSize := 0
  noopProgramId := 0
  setComputeUnitLimit _ := ⟨0, [], []⟩
  setComputeUnitPrice _ := ⟨0, [], []⟩
  v1WireSize _ _ _ _ _ := some 0
  v0WireSize _ _ _ := none

def action (id computeUnits : ℕ) : BaseAction := ⟨id, computeUnits, 6, none, 4, ⟨0, []⟩, [], none⟩

/-- Account 7 is committed and undelegated, each with an action, and there is an action besides. -/
def intent : ScheduledIntentBundle where
  intentId := 1
  slot := 0
  blockhash := 0
  payer := 0
  intentBundle :=
    { commitAndUndelegate := some ⟨.withBaseActions [⟨7, ⟨0, [], 0, false, 0⟩, 0, 1⟩]
        [action 0 1000], .withBaseActions [action 1 2000]⟩
      standaloneActions := [action 2 3000] }

def metadata : MetadataResult := .ok [(7, ⟨3, false⟩)]

def commits : List Task := ((commitTasks intent metadata (.ok [])).toOption).getD []

def followUps : List Task := ((followUpTasks intent metadata).toOption).getD []

end AdmissionExample

open AdmissionExample in
/-- The stages of an undelegation with actions are as estimated. -/
theorem estimate_agrees_undelegation :
    isIntentWithinLimits compiler 1 builder intent.intentBundle ∧
      followUps.map Task.computeUnits =
        (estimate builder 1 intent.intentBundle).2.map Prod.snd ∧
      (commits ++ followUps).countP Task.isBaseAction = 3 ∧
      tasksComputeUnits followUps none ≤ Limits.maxComputeUnits := by
  have hlims : isIntentWithinLimits compiler 1 builder intent.intentBundle := by decide +kernel
  have hagree := estimate_agrees builder compiler 1 intent metadata (.ok []) metadata commits
    followUps rfl rfl
  exact ⟨hlims, hagree.2.2.2.1, by decide +kernel, (hagree.2.2.2.2 hlims none).2.1⟩

end Magicblock
