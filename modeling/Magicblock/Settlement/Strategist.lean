import Magicblock.Foundations.Lists
import Magicblock.Foundations.Results
import Magicblock.Settlement.Tasks

/-!
# Settlement/Strategist — fitting tasks into transactions

`TaskStrategist` decides whether the tasks of an intent go into one transaction or into two, and
which commits are delivered by a buffer so that they fit.  Assembling and measuring a transaction is
left to an `Assembler`.  Whatever is decided, the work stays the same (`delivers_buildStrategy`),
and no commit goes into a follow-up transaction (`commitFree_buildPlan`,
`commitFree_splitForFollowUp`).
-/

namespace Magicblock

open Magicblock.Except (bind_eq_ok map_eq_ok)
open List (Forall₂)

inductive TaskStrategistError where
  | failedToFit
  | compile
  | signer
  deriving DecidableEq

structure TransactionStrategy where
  tasks : List Task := []
  lookupTablesKeys : List Pubkey := []
  uniquenessNonce : Option ℕ := none
  deriving DecidableEq

structure TransactionPlan where
  current : TransactionStrategy
  followUp : Option TransactionStrategy
  deriving DecidableEq

/-- **Assembling and measuring transactions**: sizes as version 1 without lookup tables and as
version 0 with a table for every key, the size of one instruction, and the keys such tables need. -/
structure Assembler where
  maxTransactionV1WireSize : ℕ
  maxTransactionWireSize : ℕ
  v1Size : List Task → Option ℕ → Except TaskStrategistError ℕ
  lookupTablesSize : List Task → Option ℕ → Except TaskStrategistError ℕ
  instructionSize : Task → ℕ
  collectLookupTableKeys : List Task → Option ℕ → List Pubkey

/-! ### Strategies -/

namespace TransactionStrategy

def usesAlts (s : TransactionStrategy) : Bool := !s.lookupTablesKeys.isEmpty

/-- Compute-budget instructions stand before the tasks where lookup tables are used. -/
def taskInstructionOffset (s : TransactionStrategy) : ℕ := if s.usesAlts then 2 else 0

def refreshLookupTableKeys (a : Assembler) (s : TransactionStrategy) : TransactionStrategy :=
  if s.usesAlts then
    { s with lookupTablesKeys := a.collectLookupTableKeys s.tasks s.uniquenessNonce }
  else s

def hasActionsCallbacks (s : TransactionStrategy) : Bool := s.tasks.any Task.hasCallback

/-- Takes the callbacks out and keeps the actions. -/
def extractActionCallbacks (s : TransactionStrategy) :
    List BaseActionCallback × TransactionStrategy :=
  (s.tasks.filterMap fun task => task.extractCallback.1,
    { s with tasks := s.tasks.map fun task => task.extractCallback.2 })

/-- Removes the actions and returns their callbacks. -/
def removeActions (a : Assembler) (s : TransactionStrategy) :
    List BaseActionCallback × TransactionStrategy :=
  (s.extractActionCallbacks.1,
    refreshLookupTableKeys a { s with tasks := s.tasks.filter fun task => !task.isBaseAction })

/-- Removes everything from the first undelegation on, and returns the callbacks removed. -/
def handleUndelegationError (a : Assembler) (s : TransactionStrategy) :
    List BaseActionCallback × TransactionStrategy :=
  (s.tasks.findIdx? Task.isUndelegate).elim ([], s) fun position =>
    ((s.tasks.drop position).filterMap fun task => task.extractCallback.1,
      refreshLookupTableKeys a { s with tasks := s.tasks.take position })

/-- Something is left to do after the last commit. -/
def hasTasksAfterCommit (s : TransactionStrategy) : Bool :=
  (rposition Task.isCommitFinalize s.tasks).any fun index => index + 1 < s.tasks.length

/-- Splits at the last commit; each half collects its own lookup tables, if there were any. -/
def splitForFollowUp (a : Assembler) (s : TransactionStrategy) :
    TransactionStrategy × TransactionStrategy :=
  let cut := (rposition Task.isCommitFinalize s.tasks).elim 0 (· + 1)
  let part (tasks : List Task) : TransactionStrategy :=
    { tasks := tasks
      lookupTablesKeys :=
        if s.lookupTablesKeys.isEmpty then [] else a.collectLookupTableKeys tasks s.uniquenessNonce
      uniquenessNonce := s.uniquenessNonce }
  (part (s.tasks.take cut), part (s.tasks.drop cut))

end TransactionStrategy

def TransactionPlan.usesAlts (plan : TransactionPlan) : Bool :=
  plan.current.usesAlts || plan.followUp.any TransactionStrategy.usesAlts

/-- A single transaction. -/
def TransactionPlan.single (current : TransactionStrategy) : TransactionPlan := ⟨current, none⟩

/-! ### `TaskStrategist` -/

namespace Assembler

variable (a : Assembler)

/-- What does not fit is as large as can be. -/
def calculateTxLength (tasks : List Task) (uniquenessNonce : Option ℕ) :
    Except TaskStrategistError ℕ :=
  match a.v1Size tasks uniquenessNonce with
  | .ok size => .ok size
  | .error .signer => .error .signer
  | .error _ => .ok (2 ^ 64 - 1)

/-- `(size, index)` pairs, the heaviest first and the later one among equals. -/
def heavier (x y : ℕ × ℕ) : Bool := y.1 < x.1 ∨ (y.1 = x.1 ∧ y.2 ≤ x.2)

/-- The tasks' positions, under the sizes of their instructions. -/
def taskHeap (tasks : List Task) : List (ℕ × ℕ) :=
  tasks.zipIdx.map fun (task, index) => (a.instructionSize task, index)

/-- Task positions, the heaviest instruction first. -/
def heaviestFirst (tasks : List Task) : List ℕ :=
  ((a.taskHeap tasks).mergeSort heavier).map Prod.snd

/-- Moves one commit after the other to a buffer until the transaction fits. -/
def useBuffers (uniquenessNonce : Option ℕ) :
    List ℕ → List Task → ℕ → Except TaskStrategistError (List Task × ℕ)
  | [], tasks, length => .ok (tasks, length)
  | index :: rest, tasks, length =>
    if length ≤ a.maxTransactionV1WireSize then .ok (tasks, length)
    else match tasks[index]?.bind Task.tryUseBuffer with
      | some task => do
        let length ← a.calculateTxLength (tasks.set index task) uniquenessNonce
        useBuffers uniquenessNonce rest (tasks.set index task) length
      | none => useBuffers uniquenessNonce rest tasks length

def tryOptimizeTxSizeIfNeeded (tasks : List Task) (uniquenessNonce : Option ℕ) :
    Except TaskStrategistError (List Task × ℕ) := do
  let length ← a.calculateTxLength tasks uniquenessNonce
  if length ≤ a.maxTransactionV1WireSize then return (tasks, length)
  else a.useBuffers uniquenessNonce (a.heaviestFirst tasks) tasks length

/-- Do the tasks fit with lookup tables for all keys? -/
def attemptLookupTables (tasks : List Task) (uniquenessNonce : Option ℕ) : Bool :=
  decide (tasksComputeUnits tasks uniquenessNonce ≤ Limits.maxComputeUnits) &&
    match a.lookupTablesSize tasks uniquenessNonce with
    | .ok size => decide (size ≤ a.maxTransactionWireSize)
    | .error _ => false

def buildStrategy (tasks : List Task) (uniquenessNonce : Option ℕ) :
    Except TaskStrategistError TransactionStrategy := do
  if Limits.maxComputeUnits < tasksComputeUnits tasks uniquenessNonce then throw .failedToFit
  let (optimizedTasks, length) ← a.tryOptimizeTxSizeIfNeeded tasks uniquenessNonce
  let withTables (tasks : List Task) : TransactionStrategy :=
    ⟨tasks, a.collectLookupTableKeys tasks uniquenessNonce, uniquenessNonce⟩
  if length ≤ a.maxTransactionV1WireSize then return ⟨optimizedTasks, [], uniquenessNonce⟩
  else if a.attemptLookupTables tasks uniquenessNonce then return withTables tasks
  else if a.attemptLookupTables optimizedTasks uniquenessNonce then return withTables optimizedTasks
  else throw .failedToFit

def buildSplitPlan (commitTasks followUpTasks : List Task) (uniquenessNonce : Option ℕ) :
    Except TaskStrategistError TransactionPlan := do
  let current ← a.buildStrategy commitTasks uniquenessNonce
  let followUp ← a.buildStrategy followUpTasks uniquenessNonce
  return ⟨current, some followUp⟩

/-- More tasks than this may hit the limit on nested calls. -/
def maxUnitedTasksLen : ℕ := 22

/-- **A combined or a split plan.**  A split one is preferred where it avoids lookup tables. -/
def buildPlan (commitTasks followUpTasks : List Task) (uniquenessNonce : Option ℕ) :
    Except TaskStrategistError TransactionPlan :=
  let split := a.buildSplitPlan commitTasks followUpTasks uniquenessNonce
  if followUpTasks.isEmpty ∧ commitTasks.any Task.isCommitFinalize then
    (a.buildStrategy commitTasks uniquenessNonce).map .single
  else if maxUnitedTasksLen < commitTasks.length + followUpTasks.length then split
  else match a.buildStrategy (commitTasks ++ followUpTasks) uniquenessNonce with
    | .error .failedToFit => split
    | .error err => .error err
    | .ok combined =>
      if !combined.usesAlts then .ok (.single combined)
      else split.map fun plan => if plan.usesAlts then .single combined else plan

end Assembler

/-! ### The work stays the same -/

variable {a : Assembler} {tasks : List Task} {s : TransactionStrategy}

theorem delivers_refl : Forall₂ Task.Delivers tasks tasks :=
  List.forall₂_same.mpr fun _ _ => .inl rfl

/-- One commit more is moved to a buffer. -/
theorem delivers_set (h : Forall₂ Task.Delivers tasks tasks')
    (hbuf : tasks'[index]?.bind Task.tryUseBuffer = some task) :
    Forall₂ Task.Delivers tasks (tasks'.set index task) := by
  induction h generalizing index with
  | nil => simp at hbuf
  | cons ht hrest ih =>
    cases index with
    | zero => exact .cons (ht.tryUseBuffer hbuf) hrest
    | succ index => exact .cons ht (ih hbuf)

theorem delivers_useBuffers (hstart : Forall₂ Task.Delivers tasks tasks')
    (h : a.useBuffers nonce indices tasks' length = .ok (tasks'', length')) :
    Forall₂ Task.Delivers tasks tasks'' := by
  induction indices generalizing tasks' length with
  | nil =>
    obtain ⟨rfl, -⟩ := Prod.mk.inj (Except.ok.inj h)
    exact hstart
  | cons index rest ih =>
    rw [Assembler.useBuffers] at h
    split_ifs at h with hfits
    · obtain ⟨rfl, -⟩ := Prod.mk.inj (Except.ok.inj h)
      exact hstart
    · rcases hbuf : tasks'[index]?.bind Task.tryUseBuffer with _ | task
      · rw [hbuf] at h
        exact ih hstart h
      · rw [hbuf] at h
        obtain ⟨size, -, h⟩ := bind_eq_ok.mp h
        exact ih (delivers_set hstart hbuf) h

theorem delivers_tryOptimize (h : a.tryOptimizeTxSizeIfNeeded tasks nonce = .ok (tasks', length)) :
    Forall₂ Task.Delivers tasks tasks' := by
  obtain ⟨size, -, h⟩ := bind_eq_ok.mp h
  split_ifs at h with hfits
  · obtain ⟨rfl, -⟩ := Prod.mk.inj (Except.ok.inj h)
    exact delivers_refl
  · exact delivers_useBuffers (delivers_refl) h

/-- **A strategy does the work it was built for**, task by task. -/
theorem delivers_buildStrategy (h : a.buildStrategy tasks nonce = .ok s) :
    Forall₂ Task.Delivers tasks s.tasks := by
  obtain ⟨-, h⟩ := Except.of_ite_error h
  obtain ⟨⟨optimized, length⟩, hopt, h⟩ := bind_eq_ok.mp h
  dsimp only at h
  split_ifs at h
  · exact Except.ok.inj h ▸ delivers_tryOptimize hopt
  · exact Except.ok.inj h ▸ delivers_refl
  · exact Except.ok.inj h ▸ delivers_tryOptimize hopt

/-- The tasks of a plan, in the order they are executed. -/
def TransactionPlan.allTasks (plan : TransactionPlan) : List Task :=
  plan.current.tasks ++ plan.followUp.elim [] (·.tasks)

/-- **A plan has everything in one transaction, or it is split.** -/
theorem buildPlan_cases (h : a.buildPlan commitTasks followUpTasks nonce = .ok plan) :
    (∃ s, a.buildStrategy (commitTasks ++ followUpTasks) nonce = .ok s ∧ plan = .single s) ∨
      a.buildSplitPlan commitTasks followUpTasks nonce = .ok plan := by
  unfold Assembler.buildPlan at h
  dsimp only at h
  split_ifs at h with hcoms
  · obtain ⟨current, hcur, rfl⟩ := map_eq_ok.mp h
    rw [List.isEmpty_iff.mp hcoms.1, List.append_nil]
    exact .inl ⟨current, hcur, rfl⟩
  · exact .inr h
  · rcases hcomb : a.buildStrategy (commitTasks ++ followUpTasks) nonce with err | combined
    · rw [hcomb] at h
      cases err with
      | failedToFit => exact .inr h
      | compile | signer => cases h
    · rw [hcomb] at h
      dsimp only at h
      split_ifs at h
      · exact .inl ⟨combined, rfl, (Except.ok.inj h).symm⟩
      · obtain ⟨split, hspl, rfl⟩ := map_eq_ok.mp h
        split_ifs
        · exact .inl ⟨combined, rfl, rfl⟩
        · exact .inr hspl

theorem delivers_single (h : a.buildStrategy tasks nonce = .ok s) :
    Forall₂ Task.Delivers tasks (TransactionPlan.single s).allTasks := by
  rw [TransactionPlan.allTasks, TransactionPlan.single, Option.elim_none, List.append_nil]
  exact delivers_buildStrategy h

theorem delivers_buildSplitPlan (h : a.buildSplitPlan commitTasks followUpTasks nonce = .ok plan) :
    Forall₂ Task.Delivers (commitTasks ++ followUpTasks) plan.allTasks := by
  obtain ⟨current, hcur, h⟩ := bind_eq_ok.mp h
  obtain ⟨next, hnext, ⟨⟩⟩ := bind_eq_ok.mp h
  exact List.rel_append (delivers_buildStrategy hcur) (delivers_buildStrategy hnext)

/-- **A plan keeps all tasks, in order.** -/
theorem delivers_buildPlan (h : a.buildPlan commitTasks followUpTasks nonce = .ok plan) :
    Forall₂ Task.Delivers (commitTasks ++ followUpTasks) plan.allTasks := by
  rcases buildPlan_cases h with ⟨s, hs, rfl⟩ | hspl
  · exact delivers_single hs
  · exact delivers_buildSplitPlan hspl

/-! ### No commit in a follow-up -/

/-- No task commits an account. -/
def CommitFree (tasks : List Task) : Prop := ∀ t ∈ tasks, t.isCommitFinalize = false

theorem CommitFree.recoveryCommitNonces (h : CommitFree tasks) :
    recoveryCommitNonces tasks = [] := by
  refine List.filterMap_eq_nil_iff.mpr fun t ht => ?_
  cases t with
  | commitFinalize => cases h _ ht
  | _ => rfl

theorem CommitFree.delivers (h : CommitFree tasks)
    (hdels : Forall₂ Task.Delivers tasks tasks') : CommitFree tasks' := by
  induction hdels with
  | nil => exact h
  | cons ht _ ih =>
    obtain ⟨hfst, hrest⟩ := List.forall_mem_cons.mp h
    refine List.forall_mem_cons.mpr ⟨?_, ih hrest⟩
    obtain rfl | ⟨task, delivery, rfl, rfl⟩ := ht.cases <;> exact hfst

theorem CommitFree.sublist (h : CommitFree tasks) (hsub : tasks' ⊆ tasks) : CommitFree tasks' :=
  fun t ht => h t (hsub ht)

theorem CommitFree.extractActionCallbacks (h : CommitFree s.tasks) :
    CommitFree s.extractActionCallbacks.2.tasks := by
  intro t ht
  obtain ⟨t', ht', rfl⟩ := List.mem_map.mp ht
  rw [Task.isCommitFinalize_extractCallback]
  exact h t' ht'

@[simp]
theorem tasks_refreshLookupTableKeys : (s.refreshLookupTableKeys a).tasks = s.tasks := by
  unfold TransactionStrategy.refreshLookupTableKeys
  split_ifs <;> rfl

theorem CommitFree.removeActions (h : CommitFree s.tasks) :
    CommitFree (s.removeActions a).2.tasks := by
  refine h.sublist ?_
  rw [TransactionStrategy.removeActions, tasks_refreshLookupTableKeys]
  exact List.filter_subset_self _

theorem CommitFree.handleUndelegationError (h : CommitFree s.tasks) :
    CommitFree (s.handleUndelegationError a).2.tasks := by
  unfold TransactionStrategy.handleUndelegationError
  rcases s.tasks.findIdx? Task.isUndelegate with _ | position
  · exact h
  · refine h.sublist ?_
    rw [Option.elim_some, tasks_refreshLookupTableKeys]
    exact List.take_subset ..

theorem commitFree_splitForFollowUp : CommitFree (s.splitForFollowUp a).2.tasks :=
  fun t ht => rposition_spec t ht

theorem commitFree_buildSplitPlan (hfree : CommitFree followUpTasks)
    (h : a.buildSplitPlan commitTasks followUpTasks nonce = .ok plan)
    (hplan : plan.followUp = some followUp) : CommitFree followUp.tasks := by
  obtain ⟨current, -, h⟩ := bind_eq_ok.mp h
  obtain ⟨next, hnext, ⟨⟩⟩ := bind_eq_ok.mp h
  cases hplan
  exact hfree.delivers (delivers_buildStrategy hnext)

/-- **No plan puts a commit into the follow-up.** -/
theorem commitFree_buildPlan (hfree : CommitFree followUpTasks)
    (h : a.buildPlan commitTasks followUpTasks nonce = .ok plan)
    (hplan : plan.followUp = some followUp) : CommitFree followUp.tasks := by
  rcases buildPlan_cases h with ⟨s, -, rfl⟩ | hspl
  · cases hplan
  · exact commitFree_buildSplitPlan hfree hspl hplan

end Magicblock
