import Magicblock.Settlement.Admission
import Magicblock.Settlement.Assembly

/-!
# Settlement/Plans — strategies and plans do the work they were given, and fit

* `buildStrategy_fits` — a strategy has the tasks it was built for, moves commits to buffers at
  most, keeps to the compute units, and its transaction fits the wire, for every price;
* `plan_keeps_tasks` — plans and run-time splits keep all tasks in order, with every commit in the
  first transaction and tables for every key.

The loop that moves commits to buffers pops a heap; with more fuel than tasks it comes to its end
(`optimizeLoop_eq`).
-/

namespace Magicblock

open TransactionStrategy Assembler

/-! ### The loop over the heap -/

namespace Assembler

/-- `BinaryHeap::pop`. -/
def popHeaviest (heap : List (ℕ × ℕ)) : Option ((ℕ × ℕ) × List (ℕ × ℕ)) :=
  match heap.mergeSort heavier with
  | [] => none
  | first :: rest => some (first, rest)

/-- **The loop of `try_optimize_tx_size_if_needed`**, with fuel for its rounds. -/
def optimizeLoop (a : Assembler) (uniquenessNonce : Option ℕ) :
    ℕ → List (ℕ × ℕ) → List Task → ℕ → Option (Except TaskStrategistError (List Task × ℕ))
  | 0, _, _, _ => none
  | fuel + 1, heap, tasks, length =>
    match popHeaviest heap with
    | none => some (.ok (tasks, length))
    | some ((_, index), rest) =>
      if length ≤ a.maxTransactionV1WireSize then some (.ok (tasks, length))
      else match tasks[index]?.bind Task.tryUseBuffer with
        | none => optimizeLoop a uniquenessNonce fuel rest tasks length
        | some task => match a.calculateTxLength (tasks.set index task) uniquenessNonce with
          | .error e => some (.error e)
          | .ok length => optimizeLoop a uniquenessNonce fuel rest (tasks.set index task) length

theorem heavier_trans (x y z : ℕ × ℕ) (hxy : heavier x y) (hyz : heavier y z) : heavier x z := by
  simp only [heavier, decide_eq_true_eq] at *
  omega

theorem heavier_total (x y : ℕ × ℕ) : heavier x y || heavier y x := by
  simp only [heavier, Bool.or_eq_true, decide_eq_true_eq]
  omega

/-- **The loop ends**, and goes through the tasks as `useBuffers` does. -/
theorem optimizeLoop_eq (a : Assembler) (nonce : Option ℕ)
    (hfuel : heap.length < fuel) (tasks : List Task) (length : ℕ) :
    a.optimizeLoop nonce fuel heap tasks length =
      some (a.useBuffers nonce ((heap.mergeSort heavier).map Prod.snd) tasks length) := by
  induction fuel generalizing heap tasks length with
  | zero => exact absurd hfuel (Nat.not_lt_zero _)
  | succ fuel ih =>
    have hsort := List.pairwise_mergeSort heavier_trans heavier_total heap
    have hlen : (heap.mergeSort heavier).length = heap.length := List.length_mergeSort heap
    rw [optimizeLoop, popHeaviest]
    rcases hheap : heap.mergeSort heavier with _ | ⟨⟨size, index⟩, rest⟩
    · rfl
    · rw [hheap] at hsort hlen
      -- what is left of the heap is in order already
      have hrest : rest.mergeSort heavier = rest :=
        List.mergeSort_of_pairwise (List.pairwise_cons.mp hsort).2
      have hround (tasks : List Task) (length : ℕ) :
          a.optimizeLoop nonce fuel rest tasks length =
            some (a.useBuffers nonce (rest.map Prod.snd) tasks length) := by
        rw [ih (by rw [List.length_cons] at hlen; omega), hrest]
      simp only [List.map_cons, useBuffers, hround]
      split_ifs with hfits
      · rfl
      · rcases tasks[index]?.bind Task.tryUseBuffer with _ | task
        · rfl
        · dsimp only
          rcases a.calculateTxLength (tasks.set index task) nonce with e | length <;> rfl

end Assembler

/-! ### What a strategy was checked for -/

variable {a : Assembler} {tasks : List Task} {nonce : Option ℕ} {s : TransactionStrategy}

/-- The loop knows the length of the transaction it has. -/
theorem calculateTxLength_useBuffers (hstart : a.calculateTxLength tasks nonce = .ok length)
    (h : a.useBuffers nonce indices tasks length = .ok (tasks', length')) :
    a.calculateTxLength tasks' nonce = .ok length' := by
  induction indices generalizing tasks length with
  | nil =>
    obtain ⟨rfl, rfl⟩ := Prod.mk.inj (Except.ok.inj h)
    exact hstart
  | cons index rest ih =>
    rw [useBuffers] at h
    split_ifs at h with hfits
    · obtain ⟨rfl, rfl⟩ := Prod.mk.inj (Except.ok.inj h)
      exact hstart
    · rcases hbuf : tasks[index]?.bind Task.tryUseBuffer with _ | task
      · rw [hbuf] at h
        exact ih hstart h
      · rw [hbuf] at h
        obtain ⟨size, hsize, h⟩ := Except.bind_eq_ok.mp h
        exact ih hsize h

theorem calculateTxLength_tryOptimize
    (h : a.tryOptimizeTxSizeIfNeeded tasks nonce = .ok (tasks', length)) :
    a.calculateTxLength tasks' nonce = .ok length := by
  obtain ⟨size, hsize, h⟩ := Except.bind_eq_ok.mp h
  split_ifs at h with hfits
  · obtain ⟨rfl, rfl⟩ := Prod.mk.inj (Except.ok.inj h)
    exact hsize
  · exact calculateTxLength_useBuffers hsize h

/-- **A strategy passed one of two checks**: without tables at the length it was measured at, or
with tables for its keys. -/
theorem checked_of_buildStrategy (h : a.buildStrategy tasks nonce = .ok s) :
    tasksComputeUnits tasks nonce ≤ Limits.maxComputeUnits ∧ s.uniquenessNonce = nonce ∧
    ((s.lookupTablesKeys = [] ∧ ∃ length ≤ a.maxTransactionV1WireSize,
        a.calculateTxLength s.tasks nonce = .ok length) ∨
      (s.lookupTablesKeys = a.collectLookupTableKeys s.tasks nonce ∧
        a.attemptLookupTables s.tasks nonce ∧
        ∀ length, a.calculateTxLength tasks nonce = .ok length →
          a.maxTransactionV1WireSize < length)) := by
  obtain ⟨hunits, h⟩ := Except.of_ite_error h
  obtain ⟨⟨optimized, length⟩, hopt, h⟩ := Except.bind_eq_ok.mp h
  refine ⟨not_lt.mp hunits, ?_⟩
  -- a transaction that fits as it is is not optimized
  have hlarge (hlen : ¬ length ≤ a.maxTransactionV1WireSize) : ∀ length,
      a.calculateTxLength tasks nonce = .ok length → a.maxTransactionV1WireSize < length := by
    intro first hfst
    by_contra hfits
    obtain ⟨size, hsize, hopt⟩ := Except.bind_eq_ok.mp hopt
    cases hsize.symm.trans hfst
    rw [if_pos (not_lt.mp hfits)] at hopt
    obtain ⟨-, rfl⟩ := Prod.mk.inj (Except.ok.inj hopt)
    exact hlen (not_lt.mp hfits)
  dsimp only at h
  split_ifs at h with hlen htbls htbls'
  · cases h
    exact ⟨rfl, .inl ⟨rfl, length, hlen, calculateTxLength_tryOptimize hopt⟩⟩
  · cases h
    exact ⟨rfl, .inr ⟨rfl, htbls, hlarge hlen⟩⟩
  · cases h
    exact ⟨rfl, .inr ⟨rfl, htbls', hlarge hlen⟩⟩

/-! ### Compute units -/

/-- The units of all tasks, and of the no-op. -/
def totalComputeUnits (tasks : List Task) (uniquenessNonce : Option ℕ) : ℕ :=
  (if uniquenessNonce.isSome then uniquenessNoopComputeUnits else 0) +
    (tasks.map Task.computeUnits).sum

theorem totalComputeUnits_le (h : tasksComputeUnits tasks nonce ≤ Limits.maxComputeUnits) :
    totalComputeUnits tasks nonce ≤ Limits.maxComputeUnits := by
  have hfold : tasksComputeUnits tasks nonce = saturatingSum (2 ^ 32 - 1)
      (if nonce.isSome then uniquenessNoopComputeUnits else 0) (tasks.map Task.computeUnits) := by
    rw [saturatingSum, List.foldl_map]
    rfl
  have hlt : tasksComputeUnits tasks nonce < 2 ^ 32 - 1 := h.trans_lt (by decide)
  rw [hfold] at h hlt
  rw [totalComputeUnits, ← saturatingSum_eq_of_lt _ hlt]
  exact h

/-! ### The transaction of a strategy -/

theorem calculateTxLength_eq_ok_iff (hlt : length < 2 ^ 64 - 1) :
    a.calculateTxLength tasks nonce = .ok length ↔ a.v1Size tasks nonce = .ok length := by
  rw [calculateTxLength]
  rcases a.v1Size tasks nonce with (_ | _ | _) | size <;> simp <;> omega

section Sent

variable {u : TransactionUtils}

open TransactionUtils

/-- No transaction without tasks is measured as too large. -/
theorem tasks_ne_nil_of_large (hlaw : u.compiler.Lawful)
    (h : ∀ length, (u.assembler auth).calculateTxLength tasks nonce = .ok length →
      u.compiler.maxTransactionSize < length) : tasks ≠ [] := by
  rintro rfl
  obtain ⟨size, hle, hsize⟩ := hlaw.v1_noTasks u.placeholder nonce
    (u.prioritizationFee (tasksComputeUnits [] nonce) 0) (tasksComputeUnits [] nonce)
  have hok : u.assembleTasksV1Tx u.placeholder [] 0 nonce = .ok size := by
    refine sign_eq_ok.mpr ⟨hsize, fun ix hix m hm => ?_⟩
    obtain ⟨id, -, rfl⟩ := List.mem_map.mp hix
    cases hm
  have hlt := hle.trans_lt hlaw.maxTransactionSize_lt
  exact absurd hle (not_le_of_gt (h size ((calculateTxLength_eq_ok_iff hlt).mpr hok)))

/-- The keys of the tasks are in the tables. -/
theorem mem_collectLookupTableKeys_of_task (ht : t ∈ tasks)
    (hm : m ∈ (t.instruction u.builder auth).accounts) :
    m.pubkey ∈ u.collectLookupTableKeys auth tasks nonce := by
  refine List.mem_dedup.mpr (List.mem_append_left _ (List.mem_flatMap.mpr ⟨t, ht, ?_⟩))
  exact List.mem_map_of_mem hm

theorem collectLookupTableKeys_ne_nil (hfr : u.FreshFor σ auth tasks) (hne : tasks ≠ []) :
    u.collectLookupTableKeys auth tasks nonce ≠ [] := by
  obtain ⟨t, ht⟩ := List.exists_mem_of_ne_nil _ hne
  obtain ⟨m, hm⟩ := List.exists_mem_of_ne_nil _ (hfr.task ht).accounts_ne_nil
  exact List.ne_nil_of_mem (mem_collectLookupTableKeys_of_task ht hm)

/-- **The transaction of a strategy fits**, whoever signs it and at every price. -/
theorem transactionSize_le_of_buildStrategy (hlaw : u.compiler.Lawful)
    (hfr : u.FreshFor σ auth tasks)
    (h : (u.assembler auth).buildStrategy tasks nonce = .ok s) (price : ℕ) :
    ∃ size ≤ u.maxWireSize s, u.transactionSize auth price s = .ok size := by
  have hdels := delivers_buildStrategy h
  obtain ⟨-, hnonce, ⟨hkeys, length, hle, hlen⟩ | ⟨hkeys, htbls, hlarge⟩⟩ :=
    checked_of_buildStrategy h
  · have halts : s.usesAlts = false := by rw [usesAlts, hkeys]; rfl
    have hmeas := (calculateTxLength_eq_ok_iff (hle.trans_lt hlaw.maxTransactionSize_lt)).mp hlen
    obtain ⟨size, hsize, hok⟩ := assembleTasksV1Tx_le hlaw (hfr.delivers hdels) hmeas price
    simp only [maxWireSize, transactionSize, halts, Bool.false_eq_true, if_false, hnonce]
    exact ⟨size, hsize.trans hle, hok⟩
  · have hne : s.tasks ≠ [] := by
      have hne := tasks_ne_nil_of_large hlaw hlarge
      rw [← List.length_pos_iff] at hne ⊢
      rwa [← hdels.length_eq]
    have halts : s.usesAlts = true := by
      rw [usesAlts, hkeys, Bool.not_eq_true', List.isEmpty_eq_false_iff]
      exact collectLookupTableKeys_ne_nil (hfr.delivers hdels) hne
    rcases hmeas : (u.assembler auth).lookupTablesSize s.tasks nonce with e | length
    · simp [attemptLookupTables, hmeas] at htbls
    · have hle : length ≤ u.compiler.packetDataSize := by
        simp only [attemptLookupTables, hmeas, Bool.and_eq_true, decide_eq_true_eq] at htbls
        exact htbls.2
      obtain ⟨size, hsize, hok⟩ :=
        assembleTasksTx_le hlaw (hfr.delivers hdels) hmeas price
      simp only [maxWireSize, transactionSize, halts, if_true, hnonce, hkeys]
      exact ⟨size, hsize.trans hle, hok⟩

end Sent

/-- **A strategy keeps the work and fits it.**  Its tasks are those it was built for, in order, each
as it was or the same commit moved to a buffer; they keep to the compute units; and the transaction
assembled from it fits the wire at every price.  The loop that moves commits to buffers comes to its
end for all tasks. -/
theorem buildStrategy_fits (u : TransactionUtils) (hlaw : u.compiler.Lawful)
    (σ : Pubkey → Pubkey) (auth : Pubkey) (tasks : List Task)
    (hfr : u.FreshFor σ auth tasks) (nonce : Option ℕ) :
    (∀ s, (u.assembler auth).buildStrategy tasks nonce = .ok s →
      List.Forall₂ Task.Delivers tasks s.tasks ∧
      totalComputeUnits s.tasks nonce ≤ Limits.maxComputeUnits ∧
      ∀ price, ∃ size ≤ u.maxWireSize s, u.transactionSize auth price s = .ok size) ∧
    ∀ length fuel, tasks.length < fuel →
      (u.assembler auth).optimizeLoop nonce fuel ((u.assembler auth).taskHeap tasks) tasks
          length =
        some ((u.assembler auth).useBuffers nonce
          ((u.assembler auth).heaviestFirst tasks) tasks length) := by
  refine ⟨fun s h => ⟨delivers_buildStrategy h, ?_, ?_⟩, fun length fuel hfuel => ?_⟩
  · have hunits := totalComputeUnits_le (checked_of_buildStrategy h).1
    rwa [totalComputeUnits, ← map_computeUnits_of_delivers (delivers_buildStrategy h)] at hunits
  · exact transactionSize_le_of_buildStrategy hlaw hfr h
  · refine Assembler.optimizeLoop_eq _ nonce ?_ tasks length
    rwa [Assembler.taskHeap, List.length_map, List.length_zipIdx]

namespace PlanExample

/-- The keys of the accounts and of the program, and the data. -/
def sizeOf (ixs : List Instruction) : ℕ :=
  (ixs.map fun ix => 32 * (ix.accounts.length + 1) + ix.data.length).sum

/-- Instructions with the validator, one account and some data. -/
def ix (validator account : Pubkey) (data : List UInt8) : Instruction :=
  ⟨9, [⟨validator, true, true⟩, ⟨account, false, true⟩], data⟩

/-- Placeholder 3, no-op program 10, budget program 11. -/
def utils : TransactionUtils where
  builder :=
    { commitFinalize := fun validator account _ data => ix validator account data
      commitFinalizeFromBuffer := fun validator account _ _ => ix validator account []
      undelegateWithRequest := fun validator account _ _ => ix validator account []
      callHandlerV2 := fun validator account _ _ _ _ => ix validator account []
      callHandler := fun validator account _ _ _ => ix validator account []
      bufferPda := fun _ _ _ => 8
      undelegate := fun validator account _ _ => ix validator account []
      computeDiff := fun _ data => data }
  compiler :=
    { loadedAccountsBytes := 0
      maxTransactionSize := 4096
      packetDataSize := 1232
      noopProgramId := 10
      setComputeUnitLimit := fun _ => ⟨11, [], []⟩
      setComputeUnitPrice := fun _ => ⟨11, [], []⟩
      v1WireSize := fun _ ixs _ _ _ => some (sizeOf ixs)
      v0WireSize := fun _ ixs _ => some (sizeOf ixs) }
  prioritizationFee _ _ := 0
  instructionSize ix := ix.data.length
  placeholder := 3

theorem sizeOf_renamed
    (h : List.Forall₂ (Instruction.Renamed σ) ixs ixs') : sizeOf ixs' = sizeOf ixs := by
  induction h with
  | nil => rfl
  | cons hfst _ ih =>
    rw [sizeOf, List.map_cons, List.sum_cons, hfst.data, hfst.accounts, List.length_map]
    exact congrArg _ ih

theorem lawful : utils.compiler.Lawful where
  v1_renamed h _ hsize := ⟨_, (sizeOf_renamed h).trans_le (Option.some.inj hsize).le, rfl⟩
  v0_renamed h _ _ _ _ _ hsize := ⟨_, (sizeOf_renamed h).trans_le (Option.some.inj hsize).le, rfl⟩
  limit_renamed _ _ := ⟨rfl, rfl, rfl⟩
  price_renamed _ _ := ⟨rfl, rfl, rfl⟩
  limit_accounts _ := rfl
  price_accounts _ := rfl
  maxTransactionSize_lt := by decide
  v1_noTasks _ nonce _ _ := by
    rcases nonce with _ | id
    · exact ⟨0, by decide, rfl⟩
    · exact ⟨40, by decide, by simp [utils, sizeOf, Codec.length_wordBytes]⟩

/-- A commit, inline or in a buffer. -/
def commitOf (data : List UInt8) (delivery : CommitDelivery) : Task :=
  .commitFinalize ⟨2, false, ⟨7, ⟨0, data, 0, false, 0⟩, 0, 2⟩, delivery⟩

theorem calculateTxLength_commitOf (data : List UInt8) :
    (utils.assembler 5).calculateTxLength [commitOf data .stateInArgs] (some 1) =
      .ok (96 + data.length + 40) :=
  rfl

/-- What is too large for a transaction is moved to a buffer. -/
theorem buildStrategy_commitOf (h : 4096 < data.length) :
    (utils.assembler 5).buildStrategy [commitOf data .stateInArgs] (some 1) =
      .ok ⟨[commitOf data .stateInBuffer], [], some 1⟩ := by
  have hlarge : ¬ 96 + data.length + 40 ≤ 4096 := by omega
  have hsort : (utils.assembler 5).heaviestFirst [commitOf data .stateInArgs] = [0] := by
    simp [heaviestFirst, taskHeap]
  have hopt : (utils.assembler 5).tryOptimizeTxSizeIfNeeded [commitOf data .stateInArgs] (some 1) =
      .ok ([commitOf data .stateInBuffer], 136) := by
    rw [tryOptimizeTxSizeIfNeeded, calculateTxLength_commitOf, hsort]
    exact (if_neg hlarge).trans (if_neg hlarge)
  rw [buildStrategy, hopt]
  rfl

/-- A commit of 5000 bytes. -/
def commit (delivery : CommitDelivery) : Task := commitOf (List.replicate 5000 1) delivery

theorem buildStrategy_commit : (utils.assembler 5).buildStrategy [commit .stateInArgs] (some 1) =
    .ok ⟨[commit .stateInBuffer], [], some 1⟩ :=
  buildStrategy_commitOf (by rw [List.length_replicate]; decide)

def action : Task := .baseAction (.v1 ⟨0, 1000, 6, none, 4, ⟨0, []⟩, [], none⟩)

/-- With the actions there are more tasks than are united. -/
theorem buildPlan_commit : (utils.assembler 5).buildPlan [commit .stateInArgs]
    (List.replicate 22 action) (some 1) = .ok ⟨⟨[commit .stateInBuffer], [], some 1⟩,
      some ⟨List.replicate 22 action, [], some 1⟩⟩ := by
  have hfu : (utils.assembler 5).buildStrategy (List.replicate 22 action) (some 1) =
      .ok ⟨List.replicate 22 action, [], some 1⟩ := by decide +kernel
  simp only [buildPlan, buildSplitPlan, buildStrategy_commit, hfu]
  rfl

/-- The placeholder becomes the authority 5. -/
def rename (k : Pubkey) : Pubkey := if k = 3 then 5 else k

theorem fresh : utils.FreshFor rename 5 [commit .stateInArgs] where
  placeholder := by decide
  noop := by decide
  limit := by decide
  price := by decide
  noop_ne := by decide
  limit_ne := by decide
  price_ne := by decide
  tasks {t t'} ht hdels := by
    obtain rfl := List.mem_singleton.mp ht
    rcases hdels with rfl | h
    · exact ⟨⟨by decide, by decide, rfl⟩, by decide, by decide⟩
    · cases h
      exact ⟨⟨by decide, by decide, rfl⟩, by decide, by decide⟩

end PlanExample

open PlanExample in
/-- A commit that is too large for the transaction is moved to a buffer. -/
theorem buildStrategy_fits_of_large_commit :
    ∃ size ≤ 4096, utils.transactionSize 5 1000 ⟨[commit .stateInBuffer], [], some 1⟩ = .ok size :=
  ((buildStrategy_fits utils lawful rename 5 [commit .stateInArgs] fresh (some 1)).1 _
    buildStrategy_commit).2.2 1000

/-! ### Splitting at run time -/

/-- The first half ends with the last commit. -/
theorem splitForFollowUp_ends (h : s.tasks.any Task.isCommitFinalize) :
    ∃ init t, (s.splitForFollowUp a).1.tasks = init ++ [t] ∧ t.isCommitFinalize := by
  obtain ⟨i, t, hi, ht, hcom⟩ := exists_rposition h
  refine ⟨s.tasks.take i, t, ?_, hcom⟩
  rw [splitForFollowUp]
  simp [hi, List.take_add_one, ht]

/-- Tables for every key that the instructions of the tasks name. -/
def TransactionStrategy.Covered (u : TransactionUtils) (authority : Pubkey)
    (s : TransactionStrategy) : Prop :=
  ∀ t ∈ s.tasks, ∀ m ∈ (t.instruction u.builder authority).accounts, m.pubkey ∈ s.lookupTablesKeys

/-- **The halves have tables for all their keys** if the whole had tables, and none if it had none,
so that each is sent as the whole would have been. -/
theorem covered_splitForFollowUp :
    (s.usesAlts → (s.splitForFollowUp (u.assembler auth)).1.Covered u auth ∧
      (s.splitForFollowUp (u.assembler auth)).2.Covered u auth) ∧
    (s.usesAlts = false → (s.splitForFollowUp (u.assembler auth)).1.usesAlts = false ∧
      (s.splitForFollowUp (u.assembler auth)).2.usesAlts = false) := by
  constructor
  · intro halts
    have hkeys : s.lookupTablesKeys.isEmpty = false := by
      simpa [usesAlts] using halts
    simp only [splitForFollowUp, hkeys, Bool.false_eq_true, if_false]
    exact ⟨fun t ht m hm => mem_collectLookupTableKeys_of_task ht hm,
      fun t ht m hm => mem_collectLookupTableKeys_of_task ht hm⟩
  · intro halts
    have hkeys : s.lookupTablesKeys.isEmpty = true := by
      simpa [usesAlts] using halts
    simp only [splitForFollowUp, usesAlts, hkeys, if_true]
    exact ⟨rfl, rfl⟩

/-- **No plan loses, reorders or misplaces a task.**  The tasks of a plan are the commit tasks and
the follow-up tasks, up to delivery; with follow-up tasks that do not commit, every commit is in the
first transaction.  The same holds of the halves of a strategy that is split at run time: the first
ends in a commit, and both have tables for their keys. -/
theorem plan_keeps_tasks (u : TransactionUtils) (auth : Pubkey) :
    (∀ commitTasks followUpTasks nonce plan,
      (u.assembler auth).buildPlan commitTasks followUpTasks nonce = .ok plan ∨
        (u.assembler auth).buildSplitPlan commitTasks followUpTasks nonce = .ok plan →
      List.Forall₂ Task.Delivers (commitTasks ++ followUpTasks) plan.allTasks ∧
      (CommitFree followUpTasks → ∀ followUp, plan.followUp = some followUp →
        CommitFree followUp.tasks)) ∧
    ∀ s : TransactionStrategy, ∃ first second,
      s.splitForFollowUp (u.assembler auth) = (first, second) ∧
      first.tasks ++ second.tasks = s.tasks ∧ CommitFree second.tasks ∧
      (s.tasks.any Task.isCommitFinalize →
        ∃ init t, first.tasks = init ++ [t] ∧ t.isCommitFinalize) ∧
      (s.usesAlts → first.Covered u auth ∧ second.Covered u auth) ∧
      (s.usesAlts = false → first.usesAlts = false ∧ second.usesAlts = false) := by
  refine ⟨fun commitTasks followUpTasks nonce plan hplan => ?_, fun s => ?_⟩
  · rcases hplan with h | h
    · exact ⟨delivers_buildPlan h, fun hfree _ => commitFree_buildPlan hfree h⟩
    · exact ⟨delivers_buildSplitPlan h, fun hfree _ => commitFree_buildSplitPlan hfree h⟩
  · exact ⟨_, _, rfl, List.take_append_drop .., commitFree_splitForFollowUp, splitForFollowUp_ends,
      covered_splitForFollowUp⟩

open PlanExample in
/-- A commit and its follow-ups are split over two transactions. -/
theorem plan_keeps_tasks_split : ∃ plan followUp,
    (utils.assembler 5).buildPlan [commit .stateInArgs] (List.replicate 22 action) (some 1) =
      .ok plan ∧ plan.followUp = some followUp ∧ CommitFree followUp.tasks ∧
    List.Forall₂ Task.Delivers ([commit .stateInArgs] ++ List.replicate 22 action)
      plan.allTasks := by
  obtain ⟨hdels, hfree⟩ := (plan_keeps_tasks utils 5).1 _ _ _ _ (.inl buildPlan_commit)
  refine ⟨_, _, buildPlan_commit, rfl, hfree (fun t ht => ?_) _ rfl, hdels⟩
  rw [List.eq_of_mem_replicate ht]
  rfl

end Magicblock
