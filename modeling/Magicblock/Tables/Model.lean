import Mathlib.Data.List.AList
import Magicblock.Foundations.History
import Magicblock.Intent.Types

/-!
# Tables/Model — lookup tables shared by concurrent holders

`TableMania` keeps lookup tables with a reference count for each pubkey.  A holder reserves a set of
pubkeys, in tables that have them or by extending and creating tables, and later releases what it
was granted; tables without reservations are then moved to the released list.  Many holders do so at
the same time.  Each is at a `HolderPhase`: a step takes it from one await, or from one access to a
table, to the next, so that anything can happen in between.

Tables are read under a read lock, and extended, created and drained under a write lock; a
`HolderStep` takes the number of readers and writers.  What transactions and reads of the chain
answer is open.
-/

namespace Magicblock

/-! ### Reference counts -/

/-- The pubkeys of a table with their reference counts. -/
abbrev RefcountedPubkeys := AList fun _ : Pubkey => ℕ

namespace RefcountedPubkeys

/-- The pubkeys of a new table are reserved once. -/
def new (pubkeys : List Pubkey) : RefcountedPubkeys :=
  pubkeys.foldl (fun entries pubkey => entries.insert pubkey 1) ∅

def getRefcount (entries : RefcountedPubkeys) (pubkey : Pubkey) : ℕ :=
  (entries.lookup pubkey).getD 0

/-- Inserts a pubkey with one reservation, or adds one. -/
def insertReserved (entries : RefcountedPubkeys) (pubkey : Pubkey) : RefcountedPubkeys :=
  match entries.lookup pubkey with
  | some refcount => entries.insert pubkey (refcount + 1)
  | none => entries.insert pubkey 1

def insertMany (entries : RefcountedPubkeys) (pubkeys : List Pubkey) : RefcountedPubkeys :=
  pubkeys.foldl insertReserved entries

/-- Inserts a pubkey without a reservation, if it is missing. -/
def insertUnreserved (entries : RefcountedPubkeys) (pubkey : Pubkey) : RefcountedPubkeys :=
  match entries.lookup pubkey with
  | some _ => entries
  | none => entries.insert pubkey 0

def insertUnreservedMany (entries : RefcountedPubkeys) (pubkeys : List Pubkey) :
    RefcountedPubkeys :=
  pubkeys.foldl insertUnreserved entries

/-- `none` if the pubkey is not there. -/
def reserve (entries : RefcountedPubkeys) (pubkey : Pubkey) : Option RefcountedPubkeys :=
  (entries.lookup pubkey).map fun refcount => entries.insert pubkey (refcount + 1)

/-- `none` if the pubkey is not there, or not reserved. -/
def release (entries : RefcountedPubkeys) (pubkey : Pubkey) : Option RefcountedPubkeys :=
  match entries.lookup pubkey with
  | some (refcount + 1) => some (entries.insert pubkey refcount)
  | _ => none

def hasReservations (entries : RefcountedPubkeys) : Bool :=
  entries.entries.any fun entry => 0 < entry.2

end RefcountedPubkeys

/-! ### Tables -/

structure LookupTableRc where
  tableAddress : Pubkey
  pubkeys : RefcountedPubkeys
  extendable : Bool
  deriving DecidableEq

def lookupTableMaxAddresses : ℕ := 256
def maxEntriesAsPartOfExtend : ℕ := 24
def maxAllowedExtendErrors : ℕ := 5
def fallbackNewTableInitPubkeys : ℕ := 1

namespace LookupTableRc

def init (tableAddress : Pubkey) (pubkeys : List Pubkey) : LookupTableRc :=
  ⟨tableAddress, .new pubkeys, true⟩

def hasMoreCapacity (t : LookupTableRc) : Bool :=
  t.extendable && t.pubkeys.entries.length < lookupTableMaxAddresses

def isFull (t : LookupTableRc) : Bool := !t.hasMoreCapacity

def markNonExtendable (t : LookupTableRc) : LookupTableRc := { t with extendable := false }

def containsKey (t : LookupTableRc) (pubkey : Pubkey) : Bool := (t.pubkeys.lookup pubkey).isSome

def hasReservations (t : LookupTableRc) : Bool := t.pubkeys.hasReservations

def getRefcount (t : LookupTableRc) (pubkey : Pubkey) : ℕ := t.pubkeys.getRefcount pubkey

def reservePubkey (t : LookupTableRc) (pubkey : Pubkey) : Option LookupTableRc :=
  (t.pubkeys.reserve pubkey).map fun pubkeys => { t with pubkeys := pubkeys }

def releasePubkey (t : LookupTableRc) (pubkey : Pubkey) : Option LookupTableRc :=
  (t.pubkeys.release pubkey).map fun pubkeys => { t with pubkeys := pubkeys }

/-- What of the pubkeys an extend transaction stores. -/
def storing (t : LookupTableRc) (remaining : List Pubkey) : List Pubkey :=
  (remaining.take maxEntriesAsPartOfExtend).take
    (lookupTableMaxAddresses - t.pubkeys.entries.length)

/-- After the extend transaction. -/
def extend (t : LookupTableRc) (pubkeys : List Pubkey) : LookupTableRc :=
  { t with pubkeys := t.pubkeys.insertMany pubkeys }

/-- With the pubkeys that the table has on the chain. -/
def reconcileWithChain (t : LookupTableRc) (chainPubkeys : List Pubkey) : LookupTableRc :=
  { t with pubkeys := t.pubkeys.insertUnreservedMany chainPubkeys }

/-- **`filter_pubkeys_present_in_table`**: reserves those that are in the table; the table after it,
the reserved pubkeys and those that remain. -/
def filterPubkeysPresent : LookupTableRc → List Pubkey → LookupTableRc × List Pubkey × List Pubkey
  | t, [] => (t, [], [])
  | t, pubkey :: rest =>
    match t.reservePubkey pubkey with
    | some t' =>
      let (t'', reserved, remaining) := filterPubkeysPresent t' rest
      (t'', pubkey :: reserved, remaining)
    | none =>
      let (t', reserved, remaining) := filterPubkeysPresent t rest
      (t', reserved, pubkey :: remaining)

end LookupTableRc

/-- The shared state.  `addresses` are those of all tables that were ever created: the chain does
not create a table twice. -/
structure TableMania where
  activeTables : List LookupTableRc
  releasedTables : List LookupTableRc
  addresses : List Pubkey

/-! ### Holders -/

/-- Where a holder is.  The lock it has, if any, is in brackets. -/
inductive HolderPhase where
  /-- `reserve_pubkeys`: before the next pubkey of `todo`; `remaining` were in no table. -/
  | reserving (todo remaining : List Pubkey)
  /-- Looks for a pubkey, at the table with this index [read]. -/
  | reserveScan (pubkey : Pubkey) (todo remaining : List Pubkey) (index : ℕ)
  /-- `reserve_new_pubkeys`: at the top of the loop. -/
  | storing (remaining : List Pubkey) (extendErrors : ℕ)
  /-- The transaction to extend the last table is under way [write]. -/
  | extending (remaining : List Pubkey) (extendErrors : ℕ)
  /-- It failed, and the table is read from the chain [write]. -/
  | reconciling (remaining : List Pubkey) (extendErrors : ℕ) (invalidData : Bool)
  /-- Before a new table. -/
  | opening (remaining : List Pubkey) (extendErrors : ℕ) (forceNewTableAfter : Option Pubkey)
  /-- The transaction to create it is under way [write]. -/
  | creating (remaining : List Pubkey) (extendErrors initialPubkeyLimit : ℕ)
  /-- The call is over: it returned, failed or was cancelled. -/
  | holding
  /-- `release_pubkeys`: before the next pubkey of `todo`, or before the drain. -/
  | releasing (todo : List Pubkey)
  /-- Looks for a reservation of a pubkey, at the table with this index [read]. -/
  | releaseScan (pubkey : Pubkey) (todo : List Pubkey) (index : ℕ)
  /-- The active tables are taken out and looked at one by one [write]. -/
  | draining (tables stillActive : List LookupTableRc)
  | gone
  deriving DecidableEq

namespace HolderPhase

def reads : HolderPhase → Bool
  | reserveScan .. | releaseScan .. => true
  | _ => false

def writes : HolderPhase → Bool
  | extending .. | reconciling .. | creating .. | draining .. => true
  | _ => false

/-- An await of `reserve_pubkeys`. -/
def awaitsInReserve : HolderPhase → Bool
  | reserving todo _ => !todo.isEmpty
  | storing remaining _ => !remaining.isEmpty
  | extending .. | reconciling .. | opening .. | creating .. => true
  | _ => false

end HolderPhase

/-- A caller of `reserve_pubkeys` with a set of its own.  `reserved` are the reservations it was
granted and has not released, each with the table it was taken in. -/
structure Holder where
  reserved : List (Pubkey × Pubkey)
  phase : HolderPhase
  deriving DecidableEq

/-- `reserved` is a set of pubkeys. -/
def record (reserved : List (Pubkey × Pubkey)) (tableAddress : Pubkey) (pubkeys : List Pubkey) :
    List (Pubkey × Pubkey) :=
  pubkeys.foldl (fun reserved pubkey =>
    if pubkey ∈ reserved.map Prod.fst then reserved
    else reserved ++ [(pubkey, tableAddress)]) reserved

def unrecord (reserved : List (Pubkey × Pubkey)) (pubkey : Pubkey) : List (Pubkey × Pubkey) :=
  reserved.filter fun reservation => reservation.1 ≠ pubkey

inductive ExtendTableErrorAction where
  | createNewTable
  | retry
  | returnError
  deriving DecidableEq

/-- Is it `InvalidInstructionData` of the extend instruction, and how many errors were there? -/
def handleExtendTableError (invalidData : Bool) (extendErrors : ℕ) : ExtendTableErrorAction :=
  if invalidData then .createNewTable
  else if extendErrors < maxAllowedExtendErrors then .retry
  else .returnError

/-- The phase after a failed extend transaction. -/
def afterExtendError (action : ExtendTableErrorAction) (tableAddress : Pubkey)
    (remaining : List Pubkey) (extendErrors : ℕ) : HolderPhase :=
  match action with
  | .createNewTable =>
    if remaining.isEmpty then .holding else .opening remaining extendErrors (some tableAddress)
  | .retry => if remaining.isEmpty then .holding else .opening remaining (extendErrors + 1) none
  | .returnError => .holding

/-- The table after a failed extend transaction. -/
def markAfterError (action : ExtendTableErrorAction) (t : LookupTableRc) : LookupTableRc :=
  if action = .createNewTable then t.markNonExtendable else t

/-- What a step does to keys and tables, beyond counting. -/
inductive TableEvent where
  | quiet
  /-- Pubkeys were put into a table. -/
  | stored (tableAddress : Pubkey) (pubkeys : List Pubkey)
  /-- A drain was cancelled, and the tables it had taken out are gone. -/
  | dropped (tables : List LookupTableRc)
  deriving DecidableEq

/-- No table with a reservation is lost. -/
def TableEvent.lossless : TableEvent → Bool
  | dropped tables => tables.all fun t => !t.hasReservations
  | _ => true

/-- **A step of a holder**, while others hold the lock as `readers` and `writers` say. -/
inductive HolderStep (readers writers : ℕ) (m : TableMania) :
    Holder → TableEvent → TableMania → Holder → Prop
  -- `reserve_pubkeys`: tables that have the pubkey
  | lockReserve (hlock : writers = 0) :
      HolderStep readers writers m ⟨r, .reserving (pubkey :: todo) remaining⟩ .quiet m
        ⟨r, .reserveScan pubkey todo remaining 0⟩
  | reserveHit {pubkey : Pubkey} {todo remaining : List Pubkey}
      {t t' : LookupTableRc} {before after : List LookupTableRc}
      (htbl : m.activeTables = before ++ t :: after) (hhit : t.reservePubkey pubkey = some t') :
      HolderStep readers writers m ⟨r, .reserveScan pubkey todo remaining before.length⟩ .quiet
        { m with activeTables := before ++ t' :: after }
        ⟨record r t.tableAddress [pubkey], .reserving todo remaining⟩
  | reserveMiss {pubkey : Pubkey} {todo remaining : List Pubkey}
      {t : LookupTableRc} {before after : List LookupTableRc}
      (htbl : m.activeTables = before ++ t :: after) (hmiss : t.reservePubkey pubkey = none) :
      HolderStep readers writers m ⟨r, .reserveScan pubkey todo remaining before.length⟩ .quiet m
        ⟨r, .reserveScan pubkey todo remaining (before.length + 1)⟩
  | reserveNone :
      HolderStep readers writers m ⟨r, .reserveScan pubkey todo remaining m.activeTables.length⟩
        .quiet m ⟨r, .reserving todo (remaining ++ [pubkey])⟩
  -- `reserve_new_pubkeys`
  | checkAuthority :
      HolderStep readers writers m ⟨r, .reserving [] remaining⟩ .quiet m ⟨r, .storing remaining 0⟩
  | wrongAuthority :
      HolderStep readers writers m ⟨r, .reserving [] remaining⟩ .quiet m ⟨r, .holding⟩
  | done : HolderStep readers writers m ⟨r, .storing [] extendErrors⟩ .quiet m ⟨r, .holding⟩
  | lockExtend {remaining : List Pubkey} {extendErrors : ℕ}
      {t : LookupTableRc} (hrem : remaining ≠ []) (hlock : writers = 0 ∧ readers = 0)
      (hlast : m.activeTables.getLast? = some t) (hroom : t.isFull = false) :
      HolderStep readers writers m ⟨r, .storing remaining extendErrors⟩ .quiet m
        ⟨r, .extending remaining extendErrors⟩
  /-- There is no table to extend. -/
  | noTable {remaining : List Pubkey} {extendErrors : ℕ}
      (hrem : remaining ≠ []) (hlock : writers = 0 ∧ readers = 0)
      (hlast : ∀ t ∈ m.activeTables.getLast?, t.isFull) :
      HolderStep readers writers m ⟨r, .storing remaining extendErrors⟩ .quiet m
        ⟨r, .opening remaining extendErrors none⟩
  | extended
      {t : LookupTableRc} {before : List LookupTableRc} (htbl : m.activeTables = before ++ [t]) :
      HolderStep readers writers m ⟨r, .extending remaining extendErrors⟩
        (.stored t.tableAddress (t.storing remaining))
        { m with activeTables := before ++ [t.extend (t.storing remaining)] }
        ⟨record r t.tableAddress (t.storing remaining),
          .storing (remaining.filter (· ∉ t.storing remaining)) extendErrors⟩
  | extendFailed (invalidData : Bool) :
      HolderStep readers writers m ⟨r, .extending remaining extendErrors⟩ .quiet m
        ⟨r, .reconciling remaining extendErrors invalidData⟩
  /-- `chainPubkeys` is empty if there is no table on the chain. -/
  | reconciled {remaining : List Pubkey} {extendErrors : ℕ}
      {invalidData : Bool} {t t' : LookupTableRc} {before : List LookupTableRc}
      {granted remaining' : List Pubkey} (chainPubkeys : List Pubkey)
      (htbl : m.activeTables = before ++ [t])
      (hfilt : (t.reconcileWithChain chainPubkeys).filterPubkeysPresent remaining =
        (t', granted, remaining')) :
      HolderStep readers writers m ⟨r, .reconciling remaining extendErrors invalidData⟩
        (.stored t.tableAddress chainPubkeys)
        { m with
          activeTables :=
            before ++ [markAfterError (handleExtendTableError invalidData extendErrors) t'] }
        ⟨record r t.tableAddress granted,
          afterExtendError (handleExtendTableError invalidData extendErrors) t.tableAddress
            remaining' extendErrors⟩
  | reconcileFailed {t : LookupTableRc} {before : List LookupTableRc}
      (htbl : m.activeTables = before ++ [t]) :
      HolderStep readers writers m ⟨r, .reconciling remaining extendErrors invalidData⟩ .quiet
        { m with
          activeTables :=
            before ++ [markAfterError (handleExtendTableError invalidData extendErrors) t] }
        ⟨r, afterExtendError (handleExtendTableError invalidData extendErrors) t.tableAddress
          remaining extendErrors⟩
  /-- Another holder has created a table in the meantime. -/
  | openOther
      {forceNewTableAfter : Option Pubkey} {t : LookupTableRc} (hlock : writers = 0 ∧ readers = 0)
      (hlast : m.activeTables.getLast? = some t) (hroom : t.isFull = false)
      (hoth : forceNewTableAfter ≠ some t.tableAddress) :
      HolderStep readers writers m ⟨r, .opening remaining extendErrors forceNewTableAfter⟩ .quiet m
        ⟨r, .storing remaining extendErrors⟩
  | openNew {forceNewTableAfter : Option Pubkey} (hlock : writers = 0 ∧ readers = 0)
      (hlast : ∀ t ∈ m.activeTables.getLast?, t.isFull ∨ forceNewTableAfter = some t.tableAddress) :
      HolderStep readers writers m ⟨r, .opening remaining extendErrors forceNewTableAfter⟩ .quiet m
        ⟨r, .creating remaining extendErrors
          (if forceNewTableAfter.isSome then fallbackNewTableInitPubkeys
            else maxEntriesAsPartOfExtend)⟩
  | created {tableAddress : Pubkey} (haddr : tableAddress ∉ m.addresses) :
      HolderStep readers writers m ⟨r, .creating remaining extendErrors limit⟩
        (.stored tableAddress (remaining.take (min limit maxEntriesAsPartOfExtend)))
        { m with
          activeTables := m.activeTables ++
            [.init tableAddress (remaining.take (min limit maxEntriesAsPartOfExtend))]
          addresses := m.addresses ++ [tableAddress] }
        ⟨record r tableAddress (remaining.take (min limit maxEntriesAsPartOfExtend)),
          .storing (remaining.filter (· ∉ remaining.take (min limit maxEntriesAsPartOfExtend)))
            extendErrors⟩
  | createFailed : HolderStep readers writers m ⟨r, .creating remaining extendErrors limit⟩ .quiet m
        ⟨r, .holding⟩
  | cancelReserve (hawas : h.phase.awaitsInReserve) :
      HolderStep readers writers m h .quiet m { h with phase := .holding }
  -- `release_pubkeys`
  | release (htodo : todo.Perm (r.map Prod.fst)) :
      HolderStep readers writers m ⟨r, .holding⟩ .quiet m ⟨r, .releasing todo⟩
  | lockRelease (hlock : writers = 0) :
      HolderStep readers writers m ⟨r, .releasing (pubkey :: todo)⟩ .quiet m
        ⟨r, .releaseScan pubkey todo 0⟩
  | releaseHit {pubkey : Pubkey} {todo : List Pubkey}
      {t t' : LookupTableRc} {before after : List LookupTableRc}
      (htbl : m.activeTables = before ++ t :: after) (hhit : t.releasePubkey pubkey = some t') :
      HolderStep readers writers m ⟨r, .releaseScan pubkey todo before.length⟩ .quiet
        { m with activeTables := before ++ t' :: after } ⟨unrecord r pubkey, .releasing todo⟩
  | releaseMiss {pubkey : Pubkey} {todo : List Pubkey}
      {t : LookupTableRc} {before after : List LookupTableRc}
      (htbl : m.activeTables = before ++ t :: after) (hmiss : t.releasePubkey pubkey = none) :
      HolderStep readers writers m ⟨r, .releaseScan pubkey todo before.length⟩ .quiet m
        ⟨r, .releaseScan pubkey todo (before.length + 1)⟩
  | releaseNone :
      HolderStep readers writers m ⟨r, .releaseScan pubkey todo m.activeTables.length⟩ .quiet m
        ⟨unrecord r pubkey, .releasing todo⟩
  | lockDrain (hlock : writers = 0 ∧ readers = 0) :
      HolderStep readers writers m ⟨r, .releasing []⟩ .quiet { m with activeTables := [] }
        ⟨r, .draining m.activeTables []⟩
  | keep (hrsv : t.hasReservations) :
      HolderStep readers writers m ⟨r, .draining (t :: tables) stillActive⟩ .quiet m
        ⟨r, .draining tables (stillActive ++ [t])⟩
  | retire (hfree : t.hasReservations = false) :
      HolderStep readers writers m ⟨r, .draining (t :: tables) stillActive⟩ .quiet
        { m with releasedTables := m.releasedTables ++ [t] } ⟨r, .draining tables stillActive⟩
  | restore : HolderStep readers writers m ⟨r, .draining [] stillActive⟩ .quiet
        { m with activeTables := m.activeTables ++ stillActive } ⟨r, .gone⟩
  | cancelRelease : HolderStep readers writers m ⟨r, .releasing todo⟩ .quiet m ⟨r, .gone⟩
  /-- The drain awaits the lock of the released tables: the tables it has taken out are lost. -/
  | cancelDrain (hfree : t.hasReservations = false) :
      HolderStep readers writers m ⟨r, .draining (t :: tables) stillActive⟩
        (.dropped (t :: tables ++ stillActive)) m ⟨r, .gone⟩

/-! ### Runs -/

structure TableSystem where
  mania : TableMania
  holders : Multiset Holder

namespace TableSystem

def readers (w : TableSystem) : ℕ := w.holders.countP fun h => h.phase.reads

def writers (w : TableSystem) : ℕ := w.holders.countP fun h => h.phase.writes

end TableSystem

/-- **A step**: a call of `reserve_pubkeys` with a new set, or a step of a holder. -/
inductive TableStep (w : TableSystem) : TableEvent → TableSystem → Prop
  | call (hpks : pubkeys.Nodup) :
      TableStep w .quiet { w with holders := ⟨[], .reserving pubkeys []⟩ ::ₘ w.holders }
  | holder {others : Multiset Holder} {event : TableEvent} {m : TableMania}
      (hh : w.holders = h ::ₘ others)
      (hstep : HolderStep w.readers w.writers w.mania h event m h') :
      TableStep w event ⟨m, h' ::ₘ others⟩

def tableMachine : Machine TableSystem TableEvent where
  start w := w = ⟨⟨[], [], []⟩, 0⟩
  step _ := TableStep

end Magicblock
