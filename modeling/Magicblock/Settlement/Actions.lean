import Magicblock.Settlement.Intent

/-!
# Settlement/Actions — the actions of an intent and their callbacks

The tasks built for an intent have exactly its actions and commits (`OfIntent`), whatever the plan.
When a transaction is settled, callbacks are taken out of its tasks, with or without the actions
they belong to (`Yields`): what is reported and what is kept is together no more than what there
was.
-/

namespace Magicblock

open List TaskBuilder

open List (Forall₂ append_nil filter_append)
open Magicblock.Except (bind_eq_ok)

/-! ### Callbacks and actions -/

/-- The callbacks that can be taken from tasks. -/
def callbacksOf (tasks : List Task) : List BaseActionCallback :=
  tasks.filterMap fun task => task.extractCallback.1

/-- The actions among tasks, without their callbacks. -/
def actionsOf (tasks : List Task) : List Task :=
  (tasks.filter Task.isBaseAction).map fun task => task.extractCallback.2

/-- The actions of an intent that run with the commits. -/
def MagicIntentBundle.commitActions (bundle : MagicIntentBundle) : List BaseAction :=
  bundle.standaloneActions ++ (bundle.commitFinalize.map TaskBuilder.baseActionsOf).getD [] ++
    (bundle.commitFinalizeAndUndelegate.map fun value =>
      TaskBuilder.baseActionsOf value.commitAction).getD []

def CommitAndUndelegate.undelegateActions (value : CommitAndUndelegate) : List BaseAction :=
  match value.undelegateAction with
  | .standalone => []
  | .withBaseActions actions => actions

/-- The actions of an intent that run in the follow-up. -/
def MagicIntentBundle.followUpActions (bundle : MagicIntentBundle) : List BaseAction :=
  (bundle.commit.map TaskBuilder.baseActionsOf).getD [] ++
    ((bundle.commitAndUndelegate.map fun value => TaskBuilder.baseActionsOf value.commitAction).getD
        [] ++
      (bundle.commitAndUndelegate.map (·.undelegateActions)).getD []) ++
    (bundle.commitFinalizeAndUndelegate.map (·.undelegateActions)).getD []

/-- **The actions of an intent.** -/
def ScheduledIntentBundle.actionTasks (intent : ScheduledIntentBundle) : List Task :=
  createActionTasks intent.intentBundle.commitActions ++
    createActionTasks intent.intentBundle.followUpActions

/-- **Taking callbacks out of tasks**: of `tasks`, whose outcome was `failure`, `kept` remain, and
the callbacks of `gone` are reported.  An action that failed, other than by a timeout, is not kept.
-/
structure Yields (failure : Option ActionError) (tasks gone kept : List Task) : Prop where
  callbacks : (callbacksOf gone ++ callbacksOf kept).Subperm (callbacksOf tasks)
  actions : (actionsOf kept).Subperm (actionsOf tasks)
  failed : failure ≠ none → failure ≠ some .timeoutError →
    (actionsOf (gone.filter fun task => task.extractCallback.1.isSome) ++ actionsOf kept).Subperm
      (actionsOf tasks)
  commits : recoveryCommitNonces kept ⊆ recoveryCommitNonces tasks

/-! ### Taking callbacks out -/

section Yields

variable {tasks : List Task}

@[simp]
theorem extractCallback_bare (t : Task) : t.extractCallback.2.extractCallback =
    (none, t.extractCallback.2) := by
  rcases t with _ | _ | (_ | _) <;> rfl

@[simp]
theorem isBaseAction_bare (t : Task) : t.extractCallback.2.isBaseAction = t.isBaseAction := by
  cases t <;> rfl

theorem callbacksOf_append : callbacksOf (tasks ++ tasks') =
    callbacksOf tasks ++ callbacksOf tasks' :=
  filterMap_append

theorem actionsOf_append : actionsOf (tasks ++ tasks') = actionsOf tasks ++ actionsOf tasks' := by
  simp [actionsOf]

theorem actionsOf_sublist (h : tasks.Sublist tasks') :
    (actionsOf tasks).Sublist (actionsOf tasks') :=
  (h.filter _).map _

theorem callbacksOf_bare : callbacksOf (tasks.map fun task => task.extractCallback.2) = [] := by
  simp [callbacksOf, filterMap_map]

theorem actionsOf_bare :
    actionsOf (tasks.map fun task => task.extractCallback.2) = actionsOf tasks := by
  simp [actionsOf, filter_map, Function.comp_def]

theorem recoveryCommitNonces_bare :
    recoveryCommitNonces (tasks.map fun task => task.extractCallback.2) =
      recoveryCommitNonces tasks := by
  rw [recoveryCommitNonces, filterMap_map]
  refine congrArg (filterMap · tasks) (funext fun t => ?_)
  cases t <;> rfl

theorem callbacksOf_filter_not_isBaseAction :
    callbacksOf (tasks.filter fun task => !task.isBaseAction) = [] := by
  refine filterMap_eq_nil_iff.mpr fun t ht => ?_
  obtain ⟨-, hkind⟩ := mem_filter.mp ht
  cases t with
  | baseAction => cases hkind
  | _ => rfl

theorem actionsOf_filter_not_isBaseAction :
    actionsOf (tasks.filter fun task => !task.isBaseAction) = [] := by
  simp [actionsOf]

/-- Success and timeout take the callbacks only, other errors the actions too. -/
theorem yields_actionsResult : Yields (failure result) strategy.tasks strategy.tasks
      (Settle.actionsResult ctx strategy result).2.tasks := by
  have hextra : Yields none strategy.tasks strategy.tasks strategy.extractActionCallbacks.2.tasks ∧
      Yields (some .timeoutError) strategy.tasks strategy.tasks
        strategy.extractActionCallbacks.2.tasks := by
    have hcbs : callbacksOf strategy.extractActionCallbacks.2.tasks = [] := callbacksOf_bare
    have hacts : actionsOf strategy.extractActionCallbacks.2.tasks = actionsOf strategy.tasks :=
      actionsOf_bare
    have hcoms : recoveryCommitNonces strategy.extractActionCallbacks.2.tasks ⊆
        recoveryCommitNonces strategy.tasks := (List.Perm.of_eq recoveryCommitNonces_bare).subset
    constructor
    · exact ⟨by rw [hcbs, append_nil], hacts ▸ .refl _, fun h => absurd rfl h, hcoms⟩
    · exact ⟨by rw [hcbs, append_nil], hacts ▸ .refl _, fun _ h => absurd rfl h, hcoms⟩
  unfold Settle.actionsResult
  split
  · exact hextra.1
  · exact hextra.2
  · have hts : (strategy.removeActions ctx.assembler).2.tasks =
        strategy.tasks.filter fun task => !task.isBaseAction := tasks_refreshLookupTableKeys
    rw [hts]
    refine ⟨?_, ?_, fun _ _ => ?_, (filter_sublist.filterMap _).subset⟩
    · rw [callbacksOf_filter_not_isBaseAction, append_nil]
    · rw [actionsOf_filter_not_isBaseAction]
      exact nil_subperm
    · rw [actionsOf_filter_not_isBaseAction, append_nil]
      exact (actionsOf_sublist filter_sublist).subperm

/-- A list cut in two. -/
theorem yields_take_drop {failure : Option ActionError} :
    Yields failure tasks (tasks.drop n) (tasks.take n) := by
  have hcbs :
      (callbacksOf (tasks.drop n) ++ callbacksOf (tasks.take n)).Perm (callbacksOf tasks) := by
    conv_rhs => rw [← take_append_drop n tasks, callbacksOf_append]
    exact perm_append_comm
  have hacts : (actionsOf (tasks.drop n) ++ actionsOf (tasks.take n)).Perm (actionsOf tasks) := by
    conv_rhs => rw [← take_append_drop n tasks, actionsOf_append]
    exact perm_append_comm
  refine ⟨hcbs.subperm, (actionsOf_sublist (take_sublist n tasks)).subperm, fun _ _ => ?_,
    ((take_sublist n tasks).filterMap _).subset⟩
  have hgone := actionsOf_sublist (filter_sublist (l := tasks.drop n)
    (p := fun task => task.extractCallback.1.isSome))
  exact (hgone.append_right _).subperm.trans hacts.subperm

/-- An undelegation error takes everything from the first undelegation on. -/
theorem handleUndelegationError_eq (a : Assembler) (strategy : TransactionStrategy) :
    ∃ n, (strategy.handleUndelegationError a).2.tasks = strategy.tasks.take n ∧
      strategy.tasks.drop (strategy.handleUndelegationError a).2.tasks.length =
        strategy.tasks.drop n ∧
      (strategy.handleUndelegationError a).1 = callbacksOf (strategy.tasks.drop n) := by
  unfold TransactionStrategy.handleUndelegationError
  rcases hpos : strategy.tasks.findIdx? Task.isUndelegate with _ | n
  · exact ⟨strategy.tasks.length, by simp, by simp, by simp [callbacksOf]⟩
  · refine ⟨n, ?_, ?_, rfl⟩
    · rw [Option.elim_some, tasks_refreshLookupTableKeys]
    · obtain ⟨hn, -⟩ := findIdx?_eq_some_iff_getElem.mp hpos
      rw [Option.elim_some, tasks_refreshLookupTableKeys, length_take, min_eq_left hn.le]

end Yields

/-! ### The work of an intent -/

section Work

variable {intent : ScheduledIntentBundle} {tasks commits : List Task}

theorem filter_createActionTasks :
    (createActionTasks actions).filter Task.isBaseAction = createActionTasks actions := by
  refine filter_eq_self.mpr fun t ht => ?_
  obtain ⟨action, -, rfl⟩ := mem_map.mp ht
  rfl

theorem filter_buildCommitTasks (allowUndelegation : Bool) (accs : List CommittedAccount)
    (base : List (Pubkey × Account)) :
    (buildCommitTasks allowUndelegation accs base).1.filter Task.isBaseAction = [] := by
  induction accs generalizing base with
  | nil => rfl
  | cons account accs ih => exact ih _

theorem filter_commitTasks (h : commitTasks intent metadata base = .ok tasks) :
    tasks.filter Task.isBaseAction = createActionTasks intent.intentBundle.commitActions := by
  obtain ⟨_, -, ⟨⟩⟩ := bind_eq_ok.mp h
  simp only [filter_append, filter_createActionTasks, filter_buildCommitTasks,
    append_nil, nil_append]
  simp only [MagicIntentBundle.commitActions, createActionTasks, map_append, Option.map_map]
  rfl

theorem filter_undelegateTasks {accs : List CommittedAccount}
    (h : accs.mapM (undelegateTask metadata) = .ok tasks) :
    tasks.filter Task.isBaseAction = [] := by
  refine filter_eq_nil_iff.mpr fun t ht => ?_
  obtain ⟨task, rfl⟩ := eq_undelegate_of_mapM h t ht
  exact Bool.false_ne_true

theorem filter_undelegations {value : Option CommitAndUndelegate}
    (h : value.elim (.ok []) (createUndelegateTasks metadata) = .ok tasks) :
    tasks.filter Task.isBaseAction =
      createActionTasks ((value.map (·.undelegateActions)).getD []) := by
  cases value with
  | none =>
    cases h
    rfl
  | some value =>
    obtain ⟨undelegations, hunds, ⟨⟩⟩ := bind_eq_ok.mp h
    rw [filter_append, filter_undelegateTasks hunds]
    exact filter_createActionTasks

theorem filter_followUpTasks (h : followUpTasks intent metadata = .ok tasks) :
    tasks.filter Task.isBaseAction = createActionTasks intent.intentBundle.followUpActions := by
  obtain ⟨_, -, h⟩ := bind_eq_ok.mp h
  obtain ⟨undelegated, hund, h⟩ := bind_eq_ok.mp h
  obtain ⟨finalized, hfin, ⟨⟩⟩ := bind_eq_ok.mp h
  simp only [filter_append, filter_createActionTasks, filter_undelegations hund,
    filter_undelegations hfin]
  simp [MagicIntentBundle.followUpActions, createActionTasks]

theorem filter_delivers (h : Forall₂ Task.Delivers tasks tasks') :
    tasks'.filter Task.isBaseAction = tasks.filter Task.isBaseAction := by
  induction h with
  | nil => rfl
  | cons ht _ ih =>
    obtain rfl | ⟨task, delivery, rfl, rfl⟩ := ht.cases
    · rw [filter_cons, filter_cons, ih]
    · exact ih

/-- The commits of tasks do not depend on their delivery. -/
theorem recoveryCommitNonces_delivers (h : Forall₂ Task.Delivers tasks tasks') :
    recoveryCommitNonces tasks' = recoveryCommitNonces tasks := by
  induction h with
  | nil => rfl
  | @cons t t' _ _ ht _ ih =>
    have hhead : recoveryCommitNonces [t'] = recoveryCommitNonces [t] := by
      obtain rfl | ⟨task, delivery, rfl, rfl⟩ := ht.cases <;> rfl
    rw [← singleton_append, recoveryCommitNonces_append, hhead, ih,
      ← recoveryCommitNonces_append, singleton_append]

/-- **Work of the intent**: no actions and no commits but its own. -/
structure OfIntent (intent : ScheduledIntentBundle) (tasks : List Task) : Prop where
  actions : (tasks.filter Task.isBaseAction).Subperm intent.actionTasks
  commits : recoveryCommitNonces tasks ⊆ intent.commitKeys

theorem OfIntent.delivers (h : OfIntent intent tasks)
    (hdels : Forall₂ Task.Delivers tasks tasks') : OfIntent intent tasks' where
  actions := filter_delivers hdels ▸ h.actions
  commits := recoveryCommitNonces_delivers hdels ▸ h.commits

theorem ofIntent_commitTasks (h : commitTasks intent metadata base = .ok tasks) :
    OfIntent intent tasks where
  actions := filter_commitTasks h ▸ (sublist_append_left ..).subperm
  commits := (recoveryCommitNonces_commitTasks h).subset

theorem ofIntent_followUpTasks (h : followUpTasks intent metadata = .ok tasks) :
    OfIntent intent tasks where
  actions := filter_followUpTasks h ▸ (sublist_append_right ..).subperm
  commits := (commitFree_followUpTasks h).recoveryCommitNonces ▸ nil_subset _

theorem ofIntent_append (hcoms : commitTasks intent metadata base = .ok commits)
    (hfus : followUpTasks intent metadata' = .ok followUps) :
    OfIntent intent (commits ++ followUps) where
  actions := by
    rw [filter_append, filter_commitTasks hcoms, filter_followUpTasks hfus]
    exact .refl _
  commits := by
    rw [recoveryCommitNonces_append]
    exact append_subset.mpr
      ⟨(ofIntent_commitTasks hcoms).commits, (ofIntent_followUpTasks hfus).commits⟩

theorem delivers_planFor (h : Settle.planFor a pending commits followUps nonce = .ok plan) :
    Forall₂ Task.Delivers (commits ++ followUps) plan.allTasks := by
  rcases pending with _ | pending
  · exact delivers_buildPlan h
  · rw [Settle.planFor] at h
    split_ifs at h
    · exact delivers_buildSplitPlan h
    · obtain ⟨current, hcur, rfl⟩ := Except.map_eq_ok.mp h
      exact delivers_single hcur

end Work

end Magicblock
