import Magicblock.Foundations.History

/-!
# Ledger/StatusCounts — the cached numbers of transaction statuses

Statuses, those of successful and those of failed transactions are counted when first asked for.
Each number has a cache, with a mark while it was not counted; but the successful ones are read from
theirs as soon as that of *all* statuses is filled.
-/

namespace Magicblock.Ledger

inductive LedgerError where
  | rocksDb
  | protobufDecodeError
  deriving DecidableEq

structure TransactionStatusMeta where
  err : Option (List UInt8)
  deriving DecidableEq

/-- What the database says: the rows, decoded or not, and its estimate of their number. -/
structure StatusColumn where
  rows : List (Except LedgerError TransactionStatusMeta)
  estimateNumKeys : Except LedgerError (Option ℕ)

def dirtyCount : ℤ := -1

structure Counters where
  entryCounter : ℤ := dirtyCount
  transactionSuccessfulStatusCount : ℤ := dirtyCount
  transactionFailedStatusCount : ℤ := dirtyCount
  deriving DecidableEq

inductive CountCall where
  | status
  | successful
  | failed

namespace StatusColumn

variable (column : StatusColumn)

/-- The successful ones or the failed ones, and every error. -/
def iterTransactionStatuses (success : Bool) : List (Except LedgerError TransactionStatusMeta) :=
  column.rows.filter fun
    | .ok status => status.err.isNone = success
    | .error _ => true

def countOutcomeTransactionStatus (success : Bool) : Except LedgerError ℤ :=
  (column.iterTransactionStatuses success).foldlM (fun count res => res.map fun _ => count + 1) 0

def getColumnCountComplexColumn : Except LedgerError ℤ :=
  column.estimateNumKeys.map fun value => value.getD 0

/-- A new count is stored, if there is one. -/
def refill (count : Except LedgerError ℤ) (store : ℤ → Counters) (s : Counters) :
    Except LedgerError ℤ × Counters :=
  match count with
  | .ok count => (.ok count, store count)
  | .error err => (.error err, s)

def countTransactionStatus (s : Counters) : Except LedgerError ℤ × Counters :=
  if s.entryCounter ≠ dirtyCount then (.ok s.entryCounter, s)
  else refill column.getColumnCountComplexColumn ({ s with entryCounter := · }) s

def countTransactionSuccessfulStatus (s : Counters) : Except LedgerError ℤ × Counters :=
  if s.entryCounter = dirtyCount then
    refill (column.countOutcomeTransactionStatus true)
      ({ s with transactionSuccessfulStatusCount := · }) s
  else (.ok s.transactionSuccessfulStatusCount, s)

def countTransactionFailedStatus (s : Counters) : Except LedgerError ℤ × Counters :=
  if s.transactionFailedStatusCount = dirtyCount then
    refill (column.countOutcomeTransactionStatus false)
      ({ s with transactionFailedStatusCount := · }) s
  else (.ok s.transactionFailedStatusCount, s)

def count : CountCall → Counters → Except LedgerError ℤ × Counters
  | .status => column.countTransactionStatus
  | .successful => column.countTransactionSuccessfulStatus
  | .failed => column.countTransactionFailedStatus

/-- Calls on a ledger that was just opened, and their results. -/
def countMachine : Machine Counters (CountCall × Except LedgerError ℤ) where
  start s := s = {}
  step _ s e t := column.count e.1 s = (e.2, t)

/-- The statuses with an outcome. -/
def outcomes (success : Bool) : ℕ :=
  column.rows.countP fun row => row.toOption.any fun status => status.err.isNone = success

/-- **The true number.** -/
def actual : CountCall → ℤ
  | .status => column.rows.length
  | .successful => column.outcomes true
  | .failed => column.outcomes false

/-- No row is damaged. -/
def Decodes : Prop := ∀ row ∈ column.rows, row.isOk

/-- **When a call can be answered**: the estimate is exact, the rows can be decoded, and successful
statuses were counted before, if all statuses were. -/
def Ready (s : Counters) (e : CountCall × Except LedgerError ℤ) : Prop :=
  match e.1 with
  | .status => column.getColumnCountComplexColumn = .ok (column.actual .status)
  | .successful => column.Decodes ∧
      (s.entryCounter ≠ dirtyCount → s.transactionSuccessfulStatusCount ≠ dirtyCount)
  | .failed => column.Decodes

/-- **The invariant**: a cache is right if it is filled. -/
structure Cached (s : Counters) : Prop where
  entry : s.entryCounter = dirtyCount ∨ s.entryCounter = column.actual .status
  successful : s.transactionSuccessfulStatusCount = dirtyCount ∨
    s.transactionSuccessfulStatusCount = column.actual .successful
  failed : s.transactionFailedStatusCount = dirtyCount ∨
    s.transactionFailedStatusCount = column.actual .failed

variable {column} {success : Bool} {s : Counters}

theorem foldlM_count {results : List (Except LedgerError TransactionStatusMeta)} {start : ℤ}
    (h : ∀ res ∈ results, res.isOk) :
    results.foldlM (fun count res => res.map fun _ => count + 1) start =
      .ok (start + results.length) := by
  induction results generalizing start with
  | nil => exact congrArg Except.ok (add_zero start).symm
  | cons res results ih =>
    obtain ⟨hres, hrest⟩ := List.forall_mem_cons.mp h
    rcases res with err | status
    · cases hres
    · refine (ih hrest).trans (congrArg Except.ok ?_)
      rw [List.length_cons, Nat.cast_succ]
      ring

theorem countOutcomeTransactionStatus_eq (h : column.Decodes) :
    column.countOutcomeTransactionStatus success = .ok (column.outcomes success) := by
  rw [countOutcomeTransactionStatus, iterTransactionStatuses,
    foldlM_count fun res hres => h res (List.mem_of_mem_filter hres), zero_add,
    ← List.countP_eq_length_filter, outcomes, List.countP_congr fun row hrow => ?_]
  rcases row with err | status
  · cases h _ hrow
  · rfl

theorem Cached.count (h : column.Cached s) (hready : column.Ready s (call, result)) :
    (column.count call s).1 = .ok (column.actual call) ∧ column.Cached (column.count call s).2 := by
  cases call with
  | status =>
    rw [StatusColumn.count, countTransactionStatus]
    split_ifs with hfill
    · exact ⟨congrArg _ (h.entry.resolve_left hfill), h⟩
    · rw [show column.getColumnCountComplexColumn = _ from hready]
      exact ⟨rfl, .inr rfl, h.successful, h.failed⟩
  | successful =>
    rw [StatusColumn.count, countTransactionSuccessfulStatus]
    split_ifs with hdirty
    · rw [countOutcomeTransactionStatus_eq hready.1]
      exact ⟨rfl, h.entry, .inr rfl, h.failed⟩
    · exact ⟨congrArg _ (h.successful.resolve_left (hready.2 hdirty)), h⟩
  | failed =>
    rw [StatusColumn.count, countTransactionFailedStatus]
    split_ifs with hdirty
    · rw [countOutcomeTransactionStatus_eq hready]
      exact ⟨rfl, h.entry, h.successful, .inr rfl⟩
    · exact ⟨congrArg _ (h.failed.resolve_left hdirty), h⟩

theorem actual_add_actual (h : column.Decodes) :
    column.actual .successful + column.actual .failed = column.actual .status := by
  have hlen := column.rows.length_eq_countP_add_countP
    fun row => row.toOption.any fun status => status.err.isNone = true
  rw [actual, actual, actual, outcomes, outcomes, hlen, Nat.cast_add]
  refine congrArg _ (congrArg _ (List.countP_congr fun row hrow => ?_))
  rcases row with err | status
  · cases h _ hrow
  · cases herr : status.err <;> simp [Except.toOption, herr]

end StatusColumn

/-- **Cached counts are right** in every order of calls in which each can be answered, and the
successful and the failed statuses are then all of them. -/
theorem status_counts_right {column : StatusColumn} {es : List (CountCall × Except LedgerError ℤ)}
    {s : Counters} (h : (column.countMachine.guarded column.Ready).Run es s) :
    (∀ e ∈ es, e.2 = .ok (column.actual e.1)) ∧ (column.Decodes →
      column.actual .successful + column.actual .failed = column.actual .status) := by
  have hright : column.Cached s ∧ ∀ e ∈ es, e.2 = .ok (column.actual e.1) := by
    refine h.invariant ?_ ?_
    · rintro _ rfl
      exact ⟨⟨.inl rfl, .inl rfl, .inl rfl⟩, nofun⟩
    · rintro es s ⟨call, result⟩ t - ⟨hcache, hes⟩ ⟨hready, hstep⟩
      obtain ⟨hres, hnext⟩ := hcache.count hready
      rw [show column.count call s = (result, t) from hstep] at hres hnext
      exact ⟨hnext, List.forall_mem_append.mpr ⟨hes, List.forall_mem_singleton.mpr hres⟩⟩
  exact ⟨hright.2, StatusColumn.actual_add_actual⟩

namespace StatusExample

/-- One successful status, and an exact estimate. -/
def column : StatusColumn := ⟨[.ok ⟨none⟩], .ok (some 1)⟩

theorem decodes : column.Decodes := List.forall_mem_singleton.mpr rfl

end StatusExample

open StatusExample in
/-- The successful ones are counted first. -/
theorem status_counts_right_first : ∃ s, (column.countMachine.guarded column.Ready).Run
    [(.successful, .ok 1), (.status, .ok 1), (.successful, .ok 1)] s ∧
      column.actual .successful = 1 := by
  have hrun := ((Machine.Run.start (M := column.countMachine.guarded column.Ready) rfl).next
    (.successful, .ok 1) ⟨⟨decodes, absurd rfl⟩, rfl⟩).next (.status, .ok 1) ⟨rfl, rfl⟩
  have hlast := hrun.next (.successful, .ok 1) ⟨⟨decodes, fun _ => by decide⟩, rfl⟩
  exact ⟨_, hlast, Except.ok.inj ((status_counts_right hlast).1 _ List.mem_cons_self).symm⟩

open StatusExample in
/-- **Counted second, they are `-1`.** -/
theorem successful_status_uncounted : ∃ s, column.countMachine.Run
    [(.status, .ok 1), (.successful, .ok (-1))] s ∧ column.actual .successful = 1 :=
  ⟨_, ((Machine.Run.start (M := column.countMachine) rfl).next (.status, .ok 1) rfl).next
    (.successful, .ok (-1)) rfl, rfl⟩

end Magicblock.Ledger
