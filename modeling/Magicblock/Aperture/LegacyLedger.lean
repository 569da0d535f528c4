import Mathlib.Data.List.TakeWhile
import Magicblock.Settlement.Errors

/-!
# Aperture/LegacyLedger — signatures of an address in the ledger of earlier versions

`get_confirmed_signatures_for_address` walks backwards over the rows of an address in three ranges:
the rest of the slot of the upper limit, the slots in between, and the beginning of the slot of the
lower limit.  Together they are what comes after the upper limit
(`getConfirmedSignaturesForAddress_after`), and everything if there is none or the ledger does not
know it (`getConfirmedSignaturesForAddress_of_unknown`).

The rows of other addresses, at which the walks stop, are left out.
-/

namespace Magicblock.Aperture

open List

/-- A transaction as both histories report it. -/
structure ConfirmedTransactionStatusWithSignature where
  signature : Signature
  slot : Slot
  err : Option TransactionError
  memo : Option String
  blockTime : Option ℤ
  index : ℕ
  deriving DecidableEq

/-- A row of `address_signatures_cf`, of one address. -/
structure AddressRow where
  slot : Slot
  txIndex : ℕ
  signature : Signature
  deriving DecidableEq

/-- `Slot::MAX`. -/
def maxSlot : Slot := 2 ^ 64 - 1

/-- **The ledger, as far as one address is concerned**: its rows from the newest to the oldest, and
what is stored of every transaction.  Slots begin at one; what is below the lowest slot is cleaned
up. -/
structure LegacyLedger where
  rows : List AddressRow
  lowestAvailableSlot : Slot
  /-- The slot of a transaction, if its status is stored. -/
  getTransactionStatus : Signature → Option Slot
  /-- The place of a transaction in its slot, by `slot_signatures_cf`. -/
  transactionIndex : Slot → Signature → Option ℕ
  readTransactionStatus : Signature → Slot → Option TransactionError
  readTransactionMemos : Signature → Slot → Option String
  getBlockTime : Slot → Option ℤ
  sorted : rows.Pairwise fun a b => b.slot < a.slot ∨ (b.slot = a.slot ∧ b.txIndex < a.txIndex)
  nodup : (rows.map AddressRow.signature).Nodup
  slots : ∀ row ∈ rows, 0 < row.slot ∧ lowestAvailableSlot ≤ row.slot ∧ row.slot ≤ maxSlot
  status_row : ∀ row ∈ rows, getTransactionStatus row.signature = some row.slot
  index_row : ∀ row ∈ rows, transactionIndex row.slot row.signature = some row.txIndex

namespace LegacyLedger

/-- Where a walk begins: whether the signature was found and its slot counts, and the slots. -/
structure UpperLimit where
  foundUpper : Bool
  includeUpper : Bool
  newestSlot : Slot
  upperSlot : Slot

def upperLimit (ledger : LegacyLedger) (highestSlot : Slot) (signature : Option Signature) :
    UpperLimit :=
  match signature.bind ledger.getTransactionStatus with
  | some slot => ⟨true, slot ≤ highestSlot, min (slot - 1) highestSlot, slot⟩
  | none => ⟨false, false, highestSlot, 0⟩

structure LowerLimit where
  foundLower : Bool
  includeLower : Bool
  lowerSlot : Slot

def lowerLimit (ledger : LegacyLedger) (highestSlot : Slot) (signature : Option Signature) :
    LowerLimit :=
  match signature.bind ledger.getTransactionStatus with
  | some slot => ⟨true, slot ≤ highestSlot, slot⟩
  | none => ⟨false, false, 0⟩

/-- In the slot of the upper limit, what is older than it. -/
def inUpperSlot (ledger : LegacyLedger) (upper : UpperLimit) (upperSignature : Option Signature)
    (limit : ℕ) : List AddressRow :=
  match upperSignature with
  | none => []
  | some signature =>
    if upper.foundUpper && upper.includeUpper && ledger.lowestAvailableSlot ≤ upper.upperSlot then
      match ledger.transactionIndex upper.upperSlot signature with
      | none => []
      | some index =>
        let walk := ledger.rows.dropWhile fun row =>
          upper.upperSlot < row.slot || (row.slot = upper.upperSlot && index < row.txIndex)
        ((walk.filter fun row => row.signature ≠ signature).takeWhile fun row =>
          row.slot = upper.upperSlot).take limit
    else []

/-- The slots between the limits. -/
def inBetween (ledger : LegacyLedger) (newestSlot lowerSlot : Slot) (limit : ℕ) :
    List AddressRow :=
  if lowerSlot < newestSlot then
    let walk := ledger.rows.dropWhile fun row => newestSlot < row.slot
    (walk.takeWhile fun row =>
      ledger.lowestAvailableSlot ≤ row.slot && lowerSlot < row.slot).take limit
  else []

/-- In the slot of the lower limit, what is newer than it. -/
def inLowerSlot (ledger : LegacyLedger) (lower : LowerLimit) (lowerSignature : Option Signature)
    (limit : ℕ) : List AddressRow :=
  match lowerSignature with
  | none => []
  | some signature =>
    if lower.foundLower && lower.includeLower && ledger.lowestAvailableSlot ≤ lower.lowerSlot then
      match ledger.transactionIndex lower.lowerSlot signature with
      | none => []
      | some index =>
        let walk := ledger.rows.dropWhile fun row => lower.lowerSlot < row.slot
        (walk.takeWhile fun row =>
          ledger.lowestAvailableSlot ≤ row.slot && lower.lowerSlot ≤ row.slot &&
            index < row.txIndex).take limit
    else []

/-- The rows that are found, at most `limit` of them. -/
def matching (ledger : LegacyLedger) (highestSlot : Slot)
    (upperSignature lowerSignature : Option Signature) (limit : ℕ) : List AddressRow :=
  let upper := ledger.upperLimit highestSlot upperSignature
  let lower := ledger.lowerLimit highestSlot lowerSignature
  let first := ledger.inUpperSlot upper upperSignature limit
  let second := first ++ ledger.inBetween upper.newestSlot lower.lowerSlot (limit - first.length)
  second ++ ledger.inLowerSlot lower lowerSignature (limit - second.length)

/-- The index of a transaction in its block is not reported. -/
def info (ledger : LegacyLedger) (row : AddressRow) : ConfirmedTransactionStatusWithSignature where
  signature := row.signature
  slot := row.slot
  err := ledger.readTransactionStatus row.signature row.slot
  memo := ledger.readTransactionMemos row.signature row.slot
  blockTime := ledger.getBlockTime row.slot
  index := 0

def getConfirmedSignaturesForAddress (ledger : LegacyLedger) (highestSlot : Slot)
    (upperSignature lowerSignature : Option Signature) (limit : ℕ) :
    List ConfirmedTransactionStatusWithSignature :=
  (ledger.matching highestSlot upperSignature lowerSignature limit).map ledger.info

/-! ### The ledger answers its cursors exactly -/

variable {ledger : LegacyLedger}

/-- With nothing to bound it from below, the middle range goes to the end. -/
theorem inBetween_eq (newer : List AddressRow)
    (hrows : ledger.rows = newer ++ older) (hnewer : ∀ row ∈ newer, newestSlot < row.slot)
    (holder : ∀ row ∈ older, row.slot ≤ newestSlot) :
    ledger.inBetween newestSlot 0 limit = older.take limit := by
  have hslots (row : AddressRow) (hrow : row ∈ older) := ledger.slots row
    (hrows ▸ mem_append_right _ hrow)
  have hdrop : ledger.rows.dropWhile (fun row => newestSlot < row.slot) = older := by
    rw [hrows, dropWhile_append_of_pos fun row hrow => by simpa using hnewer row hrow]
    cases older with
    | nil => rfl
    | cons row older =>
      have hle := holder row mem_cons_self
      rw [dropWhile_cons_of_neg (by simpa using hle)]
  have htake : older.takeWhile (fun row =>
      ledger.lowestAvailableSlot ≤ row.slot && 0 < row.slot) = older := by
    rw [takeWhile_eq_self_iff]
    intro row hrow
    simp [(hslots row hrow).1, (hslots row hrow).2.1]
  rw [inBetween]
  split_ifs with hslot
  · dsimp only
    rw [hdrop, htake]
  · -- No slot is left for an older row.
    have hnone : older = [] := by
      refine eq_nil_iff_forall_not_mem.mpr fun row hrow => hslot ?_
      exact lt_of_lt_of_le (hslots row hrow).1 (holder row hrow)
    rw [hnone, take_nil]

theorem matching_of_unknown (hunk : upperSignature.bind ledger.getTransactionStatus = none) :
    ledger.matching maxSlot upperSignature none limit = ledger.rows.take limit := by
  have hupper : ledger.upperLimit maxSlot upperSignature = ⟨false, false, maxSlot, 0⟩ := by
    rw [upperLimit, hunk]
  have hfst : ledger.inUpperSlot ⟨false, false, maxSlot, 0⟩ upperSignature limit = [] := by
    cases upperSignature <;> rfl
  have hbetw : ledger.inBetween maxSlot 0 limit = ledger.rows.take limit :=
    inBetween_eq [] (nil_append _).symm (fun _ hrow => absurd hrow not_mem_nil)
      fun row hrow => (ledger.slots row hrow).2.2
  simp [matching, hupper, hfst, lowerLimit, inLowerSlot, hbetw]

/-- Below rows of one slot come rows of smaller slots. -/
theorem lt_of_mem_dropWhile {slot : Slot} {rows : List AddressRow}
    (hle : ∀ row ∈ rows, row.slot ≤ slot) (hsort : rows.Pairwise fun a b => b.slot ≤ a.slot) :
    ∀ row ∈ rows.dropWhile (fun row => row.slot = slot), row.slot < slot := by
  induction rows with
  | nil => simp
  | cons head rows ih =>
    obtain ⟨hhead, hrows⟩ := pairwise_cons.mp hsort
    by_cases heq : head.slot = slot
    · rw [dropWhile_cons_of_pos (by simpa using heq)]
      exact ih (fun row hrow => hle row (mem_cons_of_mem _ hrow)) hrows
    · have hlt : head.slot < slot := lt_of_le_of_ne (hle head mem_cons_self) heq
      rw [dropWhile_cons_of_neg (by simpa using heq)]
      exact forall_mem_cons.mpr ⟨hlt, fun row hrow => (hhead row hrow).trans_lt hlt⟩

section Cursor

variable {newer older : List AddressRow} {row : AddressRow}
  (hrows : ledger.rows = newer ++ row :: older)

include hrows

/-- What is newer, and what is older than a row. -/
theorem sorted_around :
    (∀ r ∈ newer, row.slot < r.slot ∨ (row.slot = r.slot ∧ row.txIndex < r.txIndex)) ∧
      (∀ r ∈ older, r.slot ≤ row.slot) ∧ older.Pairwise (fun a b => b.slot ≤ a.slot) := by
  have hsort := ledger.sorted
  rw [hrows, pairwise_append] at hsort
  obtain ⟨-, hrest, hcross⟩ := hsort
  obtain ⟨hrow, holder⟩ := pairwise_cons.mp hrest
  refine ⟨fun r hr => hcross r hr row mem_cons_self, fun r hr => ?_, holder.imp ?_⟩
  · exact (hrow r hr).elim le_of_lt fun h => h.1.le
  · exact fun h => h.elim le_of_lt fun h => h.1.le

theorem inUpperSlot_eq :
    ledger.inUpperSlot ⟨true, true, row.slot - 1, row.slot⟩ (some row.signature) limit =
      (older.takeWhile fun r => r.slot = row.slot).take limit := by
  obtain ⟨hnewer, -, -⟩ := sorted_around hrows
  have hmem : row ∈ ledger.rows := hrows ▸ mem_append_right _ mem_cons_self
  have hwalk : ledger.rows.dropWhile (fun r =>
      row.slot < r.slot || (r.slot = row.slot && row.txIndex < r.txIndex)) = row :: older := by
    rw [hrows, dropWhile_append_of_pos, dropWhile_cons_of_neg]
    · simp
    · intro r hr
      simpa only [Bool.or_eq_true, Bool.and_eq_true, decide_eq_true_eq, eq_comm (a := r.slot)]
        using hnewer r hr
  have hfilt : (row :: older).filter (fun r => r.signature ≠ row.signature) = older := by
    have hnd := ledger.nodup
    rw [hrows, map_append, map_cons] at hnd
    have hne := (nodup_cons.mp hnd.of_append_right).1
    rw [filter_cons_of_neg (by simp), filter_eq_self]
    intro r hr
    have hsig : r.signature ≠ row.signature := fun heq =>
      hne (heq ▸ mem_map_of_mem hr)
    simpa using hsig
  simp only [inUpperSlot, Bool.true_and, decide_eq_true (ledger.slots row hmem).2.1, if_true,
    ledger.index_row row hmem]
  rw [hwalk, hfilt]

theorem matching_after :
    ledger.matching maxSlot (some row.signature) none limit = older.take limit := by
  obtain ⟨hnewer, hle, holder⟩ := sorted_around hrows
  have hmem : row ∈ ledger.rows := hrows ▸ mem_append_right _ mem_cons_self
  obtain ⟨hpos, hlow, hmax⟩ := ledger.slots row hmem
  have hupper : ledger.upperLimit maxSlot (some row.signature) =
      ⟨true, true, row.slot - 1, row.slot⟩ := by
    rw [upperLimit, Option.bind_some, ledger.status_row row hmem]
    simp [decide_eq_true hmax, min_eq_left ((Nat.sub_le _ _).trans hmax)]
  -- The rest of the slot of the cursor, and the slots below it.
  have hbetw (limit : ℕ) : ledger.inBetween (row.slot - 1) 0 limit =
      (older.dropWhile fun r => r.slot = row.slot).take limit := by
    apply inBetween_eq (newer ++ row :: older.takeWhile fun r => r.slot = row.slot)
    · rw [hrows, append_assoc, cons_append, takeWhile_append_dropWhile]
    · intro r hr
      have hge : row.slot ≤ r.slot := by
        obtain hr | rfl | hr := by simpa only [mem_append, mem_cons] using hr
        · exact (hnewer r hr).elim le_of_lt fun h => h.1.le
        · exact le_rfl
        · have hslot : r.slot = row.slot := by simpa using mem_takeWhile_imp hr
          exact hslot.ge
      exact (Nat.sub_lt hpos Nat.one_pos).trans_le hge
    · exact fun r hr => Nat.le_sub_one_of_lt (lt_of_mem_dropWhile hle holder r hr)
  simp only [matching, hupper, inUpperSlot_eq hrows, lowerLimit, inLowerSlot, Option.bind_none,
    append_nil, hbetw]
  conv_rhs => rw [← takeWhile_append_dropWhile (p := fun r => r.slot = row.slot) (l := older)]
  rw [take_append, length_take]
  congr 2
  omega

end Cursor

/-- Everything the ledger retains of the address, from the newest. -/
def infos (ledger : LegacyLedger) : List ConfirmedTransactionStatusWithSignature :=
  ledger.rows.map ledger.info

theorem getConfirmedSignaturesForAddress_of_unknown
    (hunk : upperSignature.bind ledger.getTransactionStatus = none) :
    ledger.getConfirmedSignaturesForAddress maxSlot upperSignature none limit =
      ledger.infos.take limit := by
  rw [getConfirmedSignaturesForAddress, matching_of_unknown hunk, infos, map_take]

theorem getConfirmedSignaturesForAddress_after (hinfos : ledger.infos = newer ++ cursor :: older) :
    ledger.getConfirmedSignaturesForAddress maxSlot (some cursor.signature) none limit =
      older.take limit := by
  obtain ⟨newerRows, rest, hrows, -, hrest⟩ := map_eq_append_iff.mp hinfos
  obtain ⟨row, olderRows, rfl, rfl, rfl⟩ := map_eq_cons_iff.mp hrest
  rw [getConfirmedSignaturesForAddress, info, matching_after hrows, map_take]

theorem infos_map_signature :
    ledger.infos.map ConfirmedTransactionStatusWithSignature.signature =
      ledger.rows.map AddressRow.signature :=
  map_map

theorem infos_sorted (ledger : LegacyLedger) :
    ledger.infos.Pairwise fun a b => b.slot ≤ a.slot :=
  pairwise_map.mpr (ledger.sorted.imp fun h => h.elim le_of_lt fun h => h.1.le)

theorem infos_index (h : entry ∈ ledger.infos) : entry.index = 0 := by
  obtain ⟨row, -, rfl⟩ := mem_map.mp h
  rfl

end LegacyLedger

end Magicblock.Aperture
