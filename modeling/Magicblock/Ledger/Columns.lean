import Magicblock.Foundations.OrderedKeys
import Magicblock.Intent.Types

/-!
# Ledger/Columns — keys of the ledger sort like their indices

The rows of a column are sorted by the bytes of their keys.  Some columns still have rows under
keys of an older layout, of another length; a scan passes over them.
-/

namespace Magicblock.Ledger

open Function (swap)

/-- How a number is written to a key.  An address or a signature is the number whose bytes it is. -/
def write (n : ℕ) (value : BitVec (8 * n)) : List UInt8 := bigEndian n value.toNat

/-- …and read from it. -/
def read (n : ℕ) (bytes : List UInt8) : BitVec (8 * n) := BitVec.ofNat (8 * n) (readBigEndian bytes)

def slice (key : List UInt8) (start stop : ℕ) : List UInt8 := (key.drop start).take (stop - start)

/-- The key of a slot, in the columns of block times, block hashes and performance samples. -/
def SlotColumn.key (slot : BitVec 64) : List UInt8 := write 8 slot

/-- Panics on less than eight bytes. -/
def SlotColumn.index (key : List UInt8) : BitVec 64 := read 8 (slice key 0 8)

/-- A column with keys of an older layout, `ColumnIndexDeprecation`. -/
structure DeprecatingColumn (ι δ : Type) where
  key : ι → List UInt8
  asIndex : BitVec 64 → ι
  deprecatedKey : δ → List UInt8
  tryDeprecatedIndex : List UInt8 → Option δ
  tryCurrentIndex : List UInt8 → Option ι
  convertIndex : δ → ι

def addressSignatures : DeprecatingColumn (Pubkey × BitVec 64 × BitVec 32 × Signature)
    (BitVec 64 × Pubkey × BitVec 64 × Signature) where
  key index :=
    write 32 index.1 ++ (write 8 index.2.1 ++ (write 4 index.2.2.1 ++ write 64 index.2.2.2))
  asIndex _ := (0, 0, 0, 0)
  deprecatedKey index :=
    write 8 index.1 ++ (write 32 index.2.1 ++ (write 8 index.2.2.1 ++ write 64 index.2.2.2))
  tryDeprecatedIndex key := if key.length = 112 then
      some (read 8 (slice key 0 8), read 32 (slice key 8 40), read 8 (slice key 40 48),
        read 64 (slice key 48 112))
    else none
  tryCurrentIndex key := if key.length = 108 then
      some (read 32 (slice key 0 32), read 8 (slice key 32 40), read 4 (slice key 40 44),
        read 64 (slice key 44 108))
    else none
  convertIndex index := (index.2.1, index.2.2.1, 0, index.2.2.2)

def slotSignatures :
    DeprecatingColumn (BitVec 64 × BitVec 32) (BitVec 64 × BitVec 64 × BitVec 32) where
  key index := write 8 index.1 ++ write 4 index.2
  asIndex slot := (slot, 0)
  deprecatedKey index := write 8 index.1 ++ (write 8 index.2.1 ++ write 4 index.2.2)
  tryDeprecatedIndex key := if key.length = 20 then
      some (read 8 (slice key 0 8), read 8 (slice key 8 16), read 4 (slice key 16 20))
    else none
  tryCurrentIndex key := if key.length = 12 then
      some (read 8 (slice key 0 8), read 4 (slice key 8 12))
    else none
  convertIndex index := index.2

/-- Of the current layout of statuses, transactions and memos. -/
def tryStatusIndex (key : List UInt8) : Option (Signature × BitVec 64) :=
  if key.length = 72 then some (read 64 (slice key 0 64), read 8 (slice key 64 72)) else none

def transactionStatus :
    DeprecatingColumn (Signature × BitVec 64) (BitVec 64 × Signature × BitVec 64) where
  key index := write 64 index.1 ++ write 8 index.2
  asIndex _ := (0, 0)
  deprecatedKey index := write 8 index.1 ++ (write 64 index.2.1 ++ write 8 index.2.2)
  tryDeprecatedIndex key := if key.length = 80 then
      some (read 8 (slice key 0 8), read 64 (slice key 8 72), read 8 (slice key 72 80))
    else none
  tryCurrentIndex := tryStatusIndex
  convertIndex index := index.2

def transaction : DeprecatingColumn (Signature × BitVec 64) (BitVec 64 × Signature × BitVec 64) :=
  transactionStatus

/-- Here an old key is just read from the front: a longer one would do as well, and a shorter one
panics. -/
def transactionMemos : DeprecatingColumn (Signature × BitVec 64) Signature where
  key index := write 64 index.1 ++ write 8 index.2
  asIndex slot := (0, slot)
  deprecatedKey signature := write 64 signature
  tryDeprecatedIndex key := some (read 64 (slice key 0 64))
  tryCurrentIndex := tryStatusIndex
  convertIndex signature := (signature, 0)

inductive Direction where
  | forward
  | reverse

/-- The rows of a column from a key on, as the database hands them out. -/
def iterator (rows : List (List UInt8 × List UInt8)) (start : List UInt8) :
    Direction → List (List UInt8 × List UInt8)
  | .forward => rows.filter (start ≤ ·.1)
  | .reverse => rows.reverse.filter (·.1 ≤ start)

/-- What comes later in a scan. -/
def Direction.ahead {ι : Type} (below : ι → ι → Prop) : Direction → ι → ι → Prop
  | forward => below
  | reverse => swap below

namespace DeprecatingColumn

variable {ι δ : Type} (c : DeprecatingColumn ι δ)

def index (key : List UInt8) : ι :=
  (c.tryCurrentIndex key).getD (((c.tryDeprecatedIndex key).map c.convertIndex).getD (c.asIndex 0))

def iterCurrentIndexFiltered (rows : List (List UInt8 × List UInt8)) (start : ι)
    (direction : Direction) : List (ι × List UInt8) :=
  (iterator rows (c.key start) direction).filterMap fun row =>
    (c.tryCurrentIndex row.1).map (·, row.2)

/-- **What the store relies on**: keys are read back and sort like their indices; the two layouts
are told apart; and a scan visits the current rows from its start on, in order. -/
structure Faithful (below : ι → ι → Prop) : Prop where
  index_key (a : ι) : c.index (c.key a) = a
  lt_iff (a b : ι) : c.key a < c.key b ↔ below a b
  current (key : List UInt8) (a : ι) : c.tryCurrentIndex key = some a ↔ key = c.key a
  deprecated (d : δ) : c.tryCurrentIndex (c.deprecatedKey d) = none ∧
    c.index (c.deprecatedKey d) = c.convertIndex d
  scan (rows : List (List UInt8 × List UInt8)) (start : ι) (direction : Direction) :
    rows.Pairwise (·.1 < ·.1) →
    (c.iterCurrentIndexFiltered rows start direction).Pairwise
        (fun x y => direction.ahead below x.1 y.1) ∧
      ∀ a value, (a, value) ∈ c.iterCurrentIndexFiltered rows start direction ↔
        (c.key a, value) ∈ rows ∧ (a = start ∨ direction.ahead below start a)

variable {c} {below : ι → ι → Prop} {rows : List (List UInt8 × List UInt8)} {start : List UInt8}
  {direction : Direction}

theorem pairwise_iterator (h : rows.Pairwise (·.1 < ·.1)) :
    (iterator rows start direction).Pairwise fun x y => direction.ahead (· < ·) x.1 y.1 := by
  cases direction with
  | forward => exact h.filter _
  | reverse => exact (List.pairwise_reverse.mpr h).filter _

theorem mem_iterator : row ∈ iterator rows start direction ↔
    row ∈ rows ∧ (row.1 = start ∨ direction.ahead (· < ·) start row.1) := by
  cases direction with
  | forward =>
    rw [iterator, List.mem_filter, decide_eq_true_iff, List.le_iff_lt_or_eq, or_comm, eq_comm]
    rfl
  | reverse =>
    rw [iterator, List.mem_filter, List.mem_reverse, decide_eq_true_iff, List.le_iff_lt_or_eq,
      or_comm]
    rfl

/-- Keys of two lengths make a faithful column. -/
theorem faithful {readCurrent : List UInt8 → ι} {readOld : List UInt8 → δ}
    (hkey : OrderedKey below n c.key readCurrent)
    (hold : OrderedKey below' m c.deprecatedKey readOld) (hne : m ≠ n)
    (hcur : ∀ key, c.tryCurrentIndex key = if key.length = n then some (readCurrent key) else none)
    (htry : ∀ key, key.length = m → c.tryDeprecatedIndex key = some (readOld key)) :
    c.Faithful below := by
  have current (key : List UInt8) (a : ι) : c.tryCurrentIndex key = some a ↔ key = c.key a := by
    rw [hcur]
    split_ifs with hlen
    · rw [Option.some_inj]
      exact ⟨fun h => by rw [← h, hkey.key_index key hlen], fun h => by rw [h, hkey.index_key]⟩
    · exact iff_of_false nofun fun h => hlen (h ▸ hkey.length a)
  have hahead {a b : ι} (direction : Direction) :
      direction.ahead (· < ·) (c.key a) (c.key b) ↔ direction.ahead below a b := by
    cases direction with
    | forward => exact hkey.lt_iff a b
    | reverse => exact hkey.lt_iff b a
  refine ⟨fun a => ?_, hkey.lt_iff, current, fun d => ?_,
    fun rows start direction hrows => ⟨?_, ?_⟩⟩
  · rw [index, (current _ a).mpr rfl, Option.getD_some]
  · have hnone : c.tryCurrentIndex (c.deprecatedKey d) = none := by
      rw [hcur, hold.length, if_neg hne]
    exact ⟨hnone, by rw [index, hnone, htry _ (hold.length d), hold.index_key]; rfl⟩
  · refine List.pairwise_filterMap.mpr ((pairwise_iterator hrows).imp ?_)
    simp only [Option.map_eq_some_iff, current]
    rintro x y hlt _ ⟨a, ha, rfl⟩ _ ⟨b, hb, rfl⟩
    rw [ha, hb] at hlt
    exact (hahead direction).mp hlt
  · intro a value
    simp only [iterCurrentIndexFiltered, List.mem_filterMap, Option.map_eq_some_iff, current,
      mem_iterator, Prod.mk.injEq]
    constructor
    · rintro ⟨⟨_, _⟩, ⟨hrow, hat⟩, _, rfl, rfl, rfl⟩
      exact ⟨hrow, hat.imp (Function.LeftInverse.injective hkey.index_key ·) (hahead direction).mp⟩
    · rintro ⟨hrow, hat⟩
      exact ⟨_, ⟨hrow, hat.imp (congrArg c.key) (hahead direction).mpr⟩, a, rfl, rfl, rfl⟩

end DeprecatingColumn

open DeprecatingColumn

/-- **The keys of every column are order-preserving codes**, and no scan takes an old key for a
current one. -/
theorem ledger_keys_ordered :
    OrderedKey (· < ·) 8 SlotColumn.key SlotColumn.index ∧
      addressSignatures.Faithful (Prod.Lex (· < ·) (Prod.Lex (· < ·) (Prod.Lex (· < ·) (· < ·)))) ∧
      slotSignatures.Faithful (Prod.Lex (· < ·) (· < ·)) ∧
      transactionStatus.Faithful (Prod.Lex (· < ·) (· < ·)) ∧
      transaction.Faithful (Prod.Lex (· < ·) (· < ·)) ∧
      transactionMemos.Faithful (Prod.Lex (· < ·) (· < ·)) := by
  have word := @orderedKey_word
  have hstat := (word 64).pair (word 8)
  have status : transactionStatus.Faithful (Prod.Lex (· < ·) (· < ·)) := by
    refine faithful (hstat.congr ?_) (((word 8).pair hstat).congr ?_) (by decide) (fun _ => rfl)
      fun _ h => if_pos h
    all_goals
      intro bytes h
      simp [read, slice, List.drop_drop, h, List.take_of_length_le]
  refine ⟨(word 8).congr ?_,
    faithful (((word 32).pair ((word 8).pair ((word 4).pair (word 64)))).congr ?_)
      (((word 8).pair ((word 32).pair ((word 8).pair (word 64)))).congr ?_) (by decide)
      (fun _ => rfl) fun _ h => if_pos h,
    faithful (((word 8).pair (word 4)).congr ?_)
      (((word 8).pair ((word 8).pair (word 4))).congr ?_) (by decide) (fun _ => rfl)
      fun _ h => if_pos h, status, status,
    faithful (hstat.congr ?_) ((word 64).congr ?_) (by decide) (fun _ => rfl) fun _ _ => rfl⟩
  all_goals
    intro bytes h
    simp [SlotColumn.index, read, slice, List.drop_drop, h, List.take_of_length_le]

end Magicblock.Ledger
