import Magicblock.Aperture.LegacyLedger
import Magicblock.Foundations.Lists
import Magicblock.Foundations.Paging

/-!
# Aperture/Signatures — the history of an address from two sources

`History::signatures` merges what the engine and the ledger of earlier versions retain of an
address.  A cursor is looked up in the engine only: if it is there, the ledger is read from its
newest entry again, and if not, nothing of the engine is read.

* `positioned_page`, `ledger_page` — what a page is, by where its cursor is found;
* `paging_exact_iff` — reading page by page is exact at every page size if and only if what the
  ledger retains is older than what the engine does, and they share nothing.
-/

namespace Magicblock.Aperture

open List ConfirmedTransactionStatusWithSignature

open List (Sublist append_cons flatten_cons map_append map_cons map_map map_nil map_take
  mem_append_right mem_cons mem_cons_self mem_map mem_map_of_mem nil_append nodup_cons
  pairwise_map singleton_append)

/-- A transaction as the engine reports it. -/
structure EngineSignature where
  signature : Signature
  slot : Slot
  err : Option TransactionError
  blocktime : ℤ
  deriving DecidableEq

/-- **The engine, as far as one address is concerned**: what it retains from the newest on, and the
answers it gives.  It answers its own cursors exactly. -/
structure EngineHistory where
  infos : List EngineSignature
  /-- Whether an execution status is retained. -/
  status : Signature → Bool
  signatures : (before until_ : Option Signature) → (limit : ℕ) → List EngineSignature
  nodup : (infos.map EngineSignature.signature).Nodup
  sorted : infos.Pairwise fun a b => b.slot ≤ a.slot
  status_info : ∀ info ∈ infos, status info.signature = true
  signatures_all : ∀ limit, signatures none none limit = infos.take limit
  signatures_after : ∀ {newer older cursor} limit, infos = newer ++ cursor :: older →
    signatures (some cursor.signature) none limit = older.take limit

/-- The two sources.  A transaction that the engine retains is one of its address. -/
structure History where
  engine : EngineHistory
  ledger : LegacyLedger
  shared : ∀ row ∈ ledger.rows, engine.status row.signature = true →
    row.signature ∈ engine.infos.map EngineSignature.signature

inductive TransactionConfirmationStatus
  | processed
  | confirmed
  | finalized
  deriving DecidableEq

structure RpcConfirmedTransactionStatusWithSignature where
  signature : Signature
  slot : Slot
  err : Option TransactionError
  memo : Option String
  blockTime : Option ℤ
  confirmationStatus : Option TransactionConfirmationStatus
  transactionIndex : Option ℕ
  deriving DecidableEq

/-- `From<ConfirmedTransactionStatusWithSignature>`. -/
def RpcConfirmedTransactionStatusWithSignature.ofConfirmed
    (info : ConfirmedTransactionStatusWithSignature) :
    RpcConfirmedTransactionStatusWithSignature where
  signature := info.signature
  slot := info.slot
  err := info.err
  memo := info.memo
  blockTime := info.blockTime
  confirmationStatus := none
  transactionIndex := some info.index

/-- The engine does not retain the index of a transaction in its block. -/
def EngineSignature.confirmed (info : EngineSignature) :
    ConfirmedTransactionStatusWithSignature where
  signature := info.signature
  slot := info.slot
  err := info.err
  memo := none
  blockTime := if info.blocktime ≠ 0 then some info.blocktime else none
  index := 0

/-- An entry, and whether it is from the engine. -/
abbrev Merged := ConfirmedTransactionStatusWithSignature × Bool

/-- By slot and then by index, both descending. -/
def notAfter (a b : Merged) : Bool :=
  b.1.slot < a.1.slot || (b.1.slot = a.1.slot && b.1.index ≤ a.1.index)

/-- `merged.retain(|info| seen.insert(info.0.signature))`. -/
def retainUnseen (seen : List Signature) : List Merged → List Merged
  | [] => []
  | entry :: rest =>
    if entry.1.signature ∈ seen then retainUnseen seen rest
    else entry :: retainUnseen (entry.1.signature :: seen) rest

def rpc (entry : Merged) : RpcConfirmedTransactionStatusWithSignature :=
  let rpc := RpcConfirmedTransactionStatusWithSignature.ofConfirmed entry.1
  let rpc := { rpc with confirmationStatus := some .finalized }
  if entry.2 then { rpc with transactionIndex := none } else rpc

@[simp] theorem rpc_signature (entry : Merged) : (rpc entry).signature = entry.1.signature := by
  rw [rpc]
  split_ifs <;> rfl

@[simp] theorem rpc_slot : (rpc entry).slot = entry.1.slot := by
  rw [rpc]
  split_ifs <;> rfl

/-- Engine entries come first, so that they stay first among equals. -/
def entries (engine : List EngineSignature)
    (legacy : List ConfirmedTransactionStatusWithSignature) : List Merged :=
  engine.map (fun info => (info.confirmed, true)) ++ legacy.map (·, false)

def merge (engine : List EngineSignature) (legacy : List ConfirmedTransactionStatusWithSignature)
    (limit : ℕ) : List RpcConfirmedTransactionStatusWithSignature :=
  ((retainUnseen [] ((entries engine legacy).mergeSort notAfter)).take limit).map rpc

namespace History

def containsCursor (history : History) (signature : Option Signature) : Bool :=
  match signature with
  | none => false
  | some signature => history.engine.status signature

/-- `History::signatures`. -/
def signatures (history : History) (before until_ : Option Signature) (limit : ℕ) :
    List RpcConfirmedTransactionStatusWithSignature :=
  let beforeInEngine := history.containsCursor before
  let untilInEngine := history.containsCursor until_
  let engine :=
    if before.isNone || beforeInEngine then
      history.engine.signatures (before.filter fun _ => beforeInEngine)
        (until_.filter fun _ => untilInEngine) limit
    else []
  let legacy :=
    if !untilInEngine then
      history.ledger.getConfirmedSignaturesForAddress maxSlot
        (before.filter fun _ => !beforeInEngine) (until_.filter fun _ => !untilInEngine) limit
    else []
  merge engine legacy limit

/-- One page, asked for with an entry as the cursor. -/
def page (history : History) (limit : ℕ)
    (before : Option RpcConfirmedTransactionStatusWithSignature) :
    List RpcConfirmedTransactionStatusWithSignature :=
  history.signatures (before.map RpcConfirmedTransactionStatusWithSignature.signature) none limit

/-- The signatures of the address that are retained. -/
def Retained (history : History) (signature : Signature) : Prop :=
  signature ∈ history.engine.infos.map EngineSignature.signature ∨
    signature ∈ history.ledger.rows.map AddressRow.signature

/-- **The pages are the history**: every retained signature once, from the newest to the oldest, and
nothing on a page is its cursor or newer. -/
structure Complete (history : History)
    (pages : List (List RpcConfirmedTransactionStatusWithSignature)) : Prop where
  once : (pages.flatten.map RpcConfirmedTransactionStatusWithSignature.signature).Nodup
  retained : ∀ signature, signature ∈
    pages.flatten.map RpcConfirmedTransactionStatusWithSignature.signature ↔
      history.Retained signature
  sorted : pages.flatten.Pairwise fun a b => b.slot ≤ a.slot
  beyond : pages.IsChain fun previous page => ∀ cursor ∈ previous.getLast?, ∀ info ∈ page,
    info.signature ≠ cursor.signature ∧ info.slot ≤ cursor.slot

/-- Reading page by page ends, and gives the history. -/
def PagingExact (history : History) (limit : ℕ) : Prop :=
  ∃ pages, Paging (history.page limit) none pages ∧ history.Complete pages

/-- **What the ledger retains is older than what the engine does**, and nothing is in both. -/
structure Partitioned (history : History) : Prop where
  older : ∀ row ∈ history.ledger.rows, ∀ info ∈ history.engine.infos, row.slot ≤ info.slot
  disjoint : ∀ row ∈ history.ledger.rows,
    row.signature ∉ history.engine.infos.map EngineSignature.signature

end History

/-! ### Sorting and deduplication that change nothing -/

theorem retainUnseen_of_nodup {seen : List Signature} {entries : List Merged}
    (hseen : ∀ entry ∈ entries, entry.1.signature ∉ seen)
    (hnd : (entries.map fun entry => entry.1.signature).Nodup) :
    retainUnseen seen entries = entries := by
  induction entries generalizing seen with
  | nil => rfl
  | cons entry rest ih =>
    rw [map_cons, nodup_cons] at hnd
    rw [retainUnseen, if_neg (hseen entry mem_cons_self), ih ?_ hnd.2]
    intro other hoth hmem
    obtain heq | hmem := mem_cons.mp hmem
    · exact hnd.1 (heq ▸ mem_map_of_mem hoth)
    · exact hseen other (mem_cons_of_mem _ hoth) hmem

/-- Each source is cut to the page before they are merged. -/
theorem take_entries_take : (entries (engine.take limit) (legacy.take limit)).take limit =
    (entries engine legacy).take limit := by
  rw [entries, entries, map_take, map_take, take_append, take_append,
    take_take, min_self, take_take, length_take]
  congr 2
  omega

theorem map_entries_signature : (entries engine legacy).map (fun entry => entry.1.signature) =
    engine.map EngineSignature.signature ++
      legacy.map signature := by
  rw [entries, map_append, map_map, map_map]
  rfl

/-- **Sources one after the other are merged as they are.** -/
theorem merge_of_sorted (hidx : ∀ info ∈ legacy, info.index = 0)
    (hsort : (entries engine legacy).Pairwise fun a b => b.1.slot ≤ a.1.slot)
    (hnd : (engine.map EngineSignature.signature ++ legacy.map signature).Nodup) :
    merge (engine.take limit) (legacy.take limit) limit =
      ((entries engine legacy).take limit).map rpc := by
  have hsub : (entries (engine.take limit) (legacy.take limit)).Sublist (entries engine legacy) :=
    ((take_sublist ..).map _).append ((take_sublist ..).map _)
  have hzero : ∀ entry ∈ entries engine legacy, entry.1.index = 0 := by
    intro entry hent
    obtain hent | hent := mem_append.mp hent
    · obtain ⟨info, -, rfl⟩ := mem_map.mp hent
      rfl
    · obtain ⟨info, hinfo, rfl⟩ := mem_map.mp hent
      exact hidx info hinfo
  have hnotAfter : (entries engine legacy).Pairwise fun a b => notAfter a b = true := by
    refine hsort.imp_of_mem fun {a b} ha hb hslot => ?_
    rw [notAfter, hzero a ha, hzero b hb]
    simpa using hslot.lt_or_eq
  rw [merge, mergeSort_of_pairwise (hnotAfter.sublist hsub),
    retainUnseen_of_nodup (fun _ _ => not_mem_nil) ?_, take_entries_take]
  rw [← map_entries_signature] at hnd
  exact (hsub.map _).nodup hnd

/-- The first of two sources with an entry each. -/
theorem merge_one (hidx : entry.index = 0) : merge [info] [entry] 1 =
      if entry.slot ≤ info.slot then [rpc (info.confirmed, true)] else [rpc (entry, false)] := by
  have hsort : (entries [info] [entry]).mergeSort notAfter =
      if entry.slot ≤ info.slot then [(info.confirmed, true), (entry, false)]
      else [(entry, false), (info.confirmed, true)] := by
    have hnotAfter : notAfter (info.confirmed, true) (entry, false) = true ↔
        entry.slot ≤ info.slot := by
      simp [notAfter, EngineSignature.confirmed, hidx, le_iff_lt_or_eq]
    simp [entries, List.mergeSort, List.MergeSort.Internal.splitInTwo, List.merge, hnotAfter]
  rw [merge, hsort]
  split_ifs <;> simp [retainUnseen]

namespace History

variable {hist : History} {limit : ℕ}

/-! ### What a page is -/

variable {signature : Signature}

/-- The engine is read on from here: at the start, and after one of its own entries. -/
inductive Positioned (history : History) : Option Signature → List EngineSignature → Prop
  | start : history.engine.infos = infos → Positioned history none infos
  | after {cursor : EngineSignature} :
      history.engine.infos = newer ++ cursor :: older →
      Positioned history (some cursor.signature) older

theorem Positioned.next (h : Positioned hist before (info :: rest)) :
    Positioned hist (some info.signature) rest := by
  cases h with
  | start h => exact .after (h.trans (nil_append _).symm)
  | after h => exact .after (h.trans (append_cons ..))

theorem Positioned.of_mem (h : signature ∈ hist.engine.infos.map EngineSignature.signature) :
    ∃ rest, Positioned hist (some signature) rest := by
  obtain ⟨info, hinfo, rfl⟩ := mem_map.mp h
  obtain ⟨newer, older, hinfos⟩ := append_of_mem hinfo
  exact ⟨older, .after hinfos⟩

theorem getConfirmedSignaturesForAddress_none (hist : History) :
    hist.ledger.getConfirmedSignaturesForAddress maxSlot none none limit =
      hist.ledger.infos.take limit :=
  LegacyLedger.getConfirmedSignaturesForAddress_of_unknown rfl

/-- **After a cursor in the engine, the ledger is read from its newest entry again.** -/
theorem positioned_page (h : Positioned hist before rest) :
    hist.signatures before none limit =
      merge (rest.take limit) (hist.ledger.infos.take limit) limit := by
  cases h with
  | start h =>
    rw [← h, ← hist.engine.signatures_all, ← getConfirmedSignaturesForAddress_none]
    rfl
  | @after newer older cursor h =>
    have hmem : cursor ∈ hist.engine.infos := h ▸ mem_append_right _ mem_cons_self
    simp [signatures, containsCursor, hist.engine.status_info cursor hmem, Option.filter,
      hist.engine.signatures_after limit h, getConfirmedSignaturesForAddress_none]

theorem status_eq_false (hinfo : info ∈ hist.ledger.infos)
    (h : info.signature ∉ hist.engine.infos.map EngineSignature.signature) :
    hist.engine.status info.signature = false := by
  obtain ⟨row, hrow, rfl⟩ := mem_map.mp hinfo
  exact Bool.eq_false_of_not_eq_true fun hstat => h (hist.shared row hrow hstat)

/-- **After a cursor that only the ledger retains, the engine is not read.** -/
theorem ledger_page (hinfos : hist.ledger.infos = newer ++ cursor :: older)
    (h : cursor.signature ∉ hist.engine.infos.map EngineSignature.signature) :
    hist.signatures (some cursor.signature) none limit =
      (older.take limit).map fun info => rpc (info, false) := by
  have hsub : older.Sublist hist.ledger.infos :=
    hinfos ▸ (sublist_cons_self ..).trans (sublist_append_right ..)
  have hmem : cursor ∈ hist.ledger.infos := hinfos ▸ mem_append_right _ mem_cons_self
  have hnd := hist.ledger.nodup
  rw [← LegacyLedger.infos_map_signature] at hnd
  simp only [signatures, containsCursor, status_eq_false hmem h, Option.filter, Option.isNone_some,
    Bool.or_self, Bool.false_eq_true, if_false, Bool.not_false, if_true]
  rw [LegacyLedger.getConfirmedSignaturesForAddress_after hinfos, ← take_nil,
    merge_of_sorted (fun info hinfo => LegacyLedger.infos_index (hsub.subset hinfo)),
    entries, map_nil, nil_append, ← map_take, map_map]
  · rfl
  · rw [entries, map_nil, nil_append, pairwise_map]
    exact hist.ledger.infos_sorted.sublist hsub
  · exact (hsub.map _).nodup hnd

/-! ### Why the sources have to be apart

With pages of one entry, every entry becomes a cursor. -/

section OneByOne

variable {first : ConfirmedTransactionStatusWithSignature}
  {legacy : List ConfirmedTransactionStatusWithSignature}
  (hfst : hist.ledger.infos = first :: legacy)

include hfst

/-- The page at a position: the next of the engine, unless the ledger has a newer one. -/
theorem page_one (h : Positioned hist (before.map (·.signature)) rest) :
    hist.page 1 before = match rest with
      | [] => [rpc (first, false)]
      | info :: _ => if first.slot ≤ info.slot then [rpc (info.confirmed, true)]
        else [rpc (first, false)] := by
  have hidx : first.index = 0 := LegacyLedger.infos_index (hfst ▸ mem_cons_self)
  rw [page, positioned_page h, hfst]
  cases rest with
  | nil => simp [merge, entries, retainUnseen]
  | cons info rest => exact merge_one hidx

/-- **From a position in the engine, the newest of the ledger comes up**, whether it did before or
not. -/
theorem first_mem_flatten (hpages : Paging (hist.page 1) before pages)
    (h : Positioned hist (before.map (·.signature)) rest) :
    rpc (first, false) ∈ pages.flatten := by
  induction rest generalizing before pages with
  | nil =>
    obtain ⟨later, rfl, -⟩ := hpages.of_singleton (page_one hfst h)
    exact mem_append_left _ mem_cons_self
  | cons info rest ih =>
    have hpage := page_one hfst h
    dsimp only at hpage
    split_ifs at hpage with hslot
    · obtain ⟨later, rfl, hlater⟩ := hpages.of_singleton hpage
      exact mem_append_right _ (ih hlater h.next)
    · obtain ⟨later, rfl, -⟩ := hpages.of_singleton hpage
      exact mem_append_left _ mem_cons_self

/-- So a cursor after which it does not come up is not in the engine. -/
theorem cursor_notMem (hpages : Paging (hist.page 1) (some (rpc (cursor, false))) pages)
    (hnew : rpc (first, false) ∉ pages.flatten) :
    cursor.signature ∉ hist.engine.infos.map EngineSignature.signature := by
  intro hmem
  obtain ⟨rest, hrest⟩ := Positioned.of_mem hmem
  exact hnew (first_mem_flatten hfst hpages hrest)

/-- **After a cursor in the ledger, the rest of it follows**, and nothing of it is in the engine. -/
theorem flatten_of_ledger (hinfos : hist.ledger.infos = newer ++ cursor :: older)
    (hpages : Paging (hist.page 1) (some (rpc (cursor, false))) pages)
    (hnew : rpc (first, false) ∉ pages.flatten) : (∀ info ∈ cursor :: older,
        info.signature ∉ hist.engine.infos.map EngineSignature.signature) ∧
      pages.flatten = older.map fun info => rpc (info, false) := by
  have hcurs := cursor_notMem hfst hpages hnew
  have hpage : hist.page 1 (some (rpc (cursor, false))) =
      (older.take 1).map fun info => rpc (info, false) := ledger_page hinfos hcurs
  induction older generalizing newer cursor pages with
  | nil =>
    obtain rfl := hpages.eq_nil hpage
    exact ⟨forall_mem_singleton.mpr hcurs, rfl⟩
  | cons info older ih =>
    obtain ⟨later, rfl, hlater⟩ := hpages.of_singleton hpage
    have hnew' : rpc (first, false) ∉ later.flatten := fun h => hnew (mem_append_right _ h)
    have hinfo := cursor_notMem hfst hlater hnew'
    have hinfos' := hinfos.trans (append_cons ..)
    obtain ⟨hrest, hflat⟩ := ih hinfos' hlater hnew' hinfo (ledger_page hinfos' hinfo)
    exact ⟨forall_mem_cons.mpr ⟨hcurs, hrest⟩, by rw [flatten_cons, hflat]; rfl⟩

/-- The same from the newest entry of the ledger on, when it has come up. -/
theorem flatten_of_first (hpages : Paging (hist.page 1) (some (rpc (first, false))) pages)
    (honce : (([rpc (first, false)] :: pages).flatten.map
      RpcConfirmedTransactionStatusWithSignature.signature).Nodup) :
    (∀ info ∈ hist.ledger.infos,
        info.signature ∉ hist.engine.infos.map EngineSignature.signature) ∧
      pages.flatten = legacy.map fun info => rpc (info, false) := by
  rw [hfst]
  refine flatten_of_ledger hfst (hfst.trans (nil_append _).symm) hpages fun hmem => ?_
  rw [flatten_cons, singleton_append, map_cons, nodup_cons] at honce
  exact honce.1 (mem_map_of_mem hmem)

/-- **All that is left of the engine comes up before the ledger does.** -/
theorem le_of_paging (hinfos : hist.engine.infos = newer ++ rest)
    (hpages : Paging (hist.page 1) before pages)
    (h : Positioned hist (before.map (·.signature)) rest)
    (honce : (pages.flatten.map RpcConfirmedTransactionStatusWithSignature.signature).Nodup)
    (hall : ∀ info ∈ rest, info.signature ∈
      pages.flatten.map RpcConfirmedTransactionStatusWithSignature.signature) :
    (∀ info ∈ rest, first.slot ≤ info.slot) ∧ ∀ info ∈ hist.ledger.infos,
      info.signature ∉ hist.engine.infos.map EngineSignature.signature := by
  induction rest generalizing newer before pages with
  | nil =>
    obtain ⟨later, rfl, hlater⟩ := hpages.of_singleton (page_one hfst h)
    exact ⟨fun _ h => absurd h not_mem_nil, (flatten_of_first hfst hlater honce).1⟩
  | cons info rest ih =>
    have hpage := page_one hfst h
    dsimp only at hpage
    split_ifs at hpage with hslot
    · obtain ⟨later, rfl, hlater⟩ := hpages.of_singleton hpage
      rw [flatten_cons, singleton_append, map_cons, rpc_signature] at honce hall
      have hnd := hist.engine.nodup
      rw [hinfos, map_append, map_cons] at hnd
      have hoths : ∀ other ∈ rest, other.signature ≠ info.signature := fun other hoth heq =>
        (nodup_cons.mp hnd.of_append_right).1 (heq ▸ mem_map_of_mem hoth)
      obtain ⟨hle, hdisj⟩ := ih (hinfos.trans (append_cons ..)) hlater h.next
        (nodup_cons.mp honce).2 fun other hoth =>
          (mem_cons.mp (hall other (mem_cons_of_mem _ hoth))).resolve_left (hoths other hoth)
      exact ⟨forall_mem_cons.mpr ⟨hslot, hle⟩, hdisj⟩
    · -- The ledger is newer here: its entries follow, and this one of the engine never does.
      obtain ⟨later, rfl, hlater⟩ := hpages.of_singleton hpage
      obtain ⟨hdisj, hflat⟩ := flatten_of_first hfst hlater honce
      obtain ⟨entry, hent, heq⟩ := mem_map.mp (hall info mem_cons_self)
      have hledger : ∃ other ∈ hist.ledger.infos, rpc (other, false) = entry := by
        rw [flatten_cons, hflat, singleton_append] at hent
        rw [hfst]
        exact (mem_map (f := fun info => rpc (info, false)) (l := first :: legacy)).mp hent
      obtain ⟨other, hoth, rfl⟩ := hledger
      have hinfo : info ∈ hist.engine.infos :=
        hinfos ▸ mem_append_right _ mem_cons_self
      refine absurd ?_ (hdisj other hoth)
      rw [← rpc_signature (other, false), heq]
      exact mem_map_of_mem hinfo

end OneByOne

theorem partitioned_of_exact (h : hist.PagingExact 1) : hist.Partitioned := by
  obtain ⟨pages, hpages, hcomp⟩ := h
  cases hfst : hist.ledger.infos with
  | nil =>
    have hrows : hist.ledger.rows = [] := map_eq_nil_iff.mp hfst
    exact ⟨by simp [hrows], by simp [hrows]⟩
  | cons first legacy =>
    have hall : ∀ info ∈ hist.engine.infos, info.signature ∈
        pages.flatten.map RpcConfirmedTransactionStatusWithSignature.signature := fun info hinfo =>
      (hcomp.retained _).mpr (.inl (mem_map_of_mem hinfo))
    obtain ⟨hle, hdisj⟩ :=
      le_of_paging hfst (nil_append _).symm hpages (.start rfl) hcomp.once hall
    have hsort := hist.ledger.infos_sorted
    rw [hfst, pairwise_cons] at hsort
    constructor
    · intro row hrow info hinfo
      have hmem : hist.ledger.info row ∈ first :: legacy := hfst ▸ mem_map_of_mem hrow
      obtain heq | hmem := mem_cons.mp hmem
      · exact (congrArg (·.slot) heq).trans_le (hle info hinfo)
      · exact (hsort.1 _ hmem).trans (hle info hinfo)
    · exact fun row hrow => hdisj (hist.ledger.info row) (mem_map_of_mem hrow)

/-! ### Sources that are apart -/

section Apart

variable (h : hist.Partitioned)

include h

variable {rest : List EngineSignature}

theorem sorted_entries (hsub : rest.Sublist hist.engine.infos) :
    (entries rest hist.ledger.infos).Pairwise fun a b => b.1.slot ≤ a.1.slot := by
  rw [entries, pairwise_append, pairwise_map, pairwise_map]
  refine ⟨hist.engine.sorted.sublist hsub, hist.ledger.infos_sorted, ?_⟩
  simp only [forall_mem_map, LegacyLedger.infos]
  exact fun info hinfo row hrow => h.older row hrow info (hsub.subset hinfo)

theorem nodup_signatures (hsub : rest.Sublist hist.engine.infos) :
    (rest.map EngineSignature.signature ++
      hist.ledger.infos.map ConfirmedTransactionStatusWithSignature.signature).Nodup := by
  rw [LegacyLedger.infos_map_signature]
  refine ((hsub.map _).nodup hist.engine.nodup).append hist.ledger.nodup ?_
  intro signature heng hledger
  obtain ⟨row, hrow, rfl⟩ := mem_map.mp hledger
  exact h.disjoint row hrow ((hsub.map _).subset heng)

/-- What is left of the engine, and the ledger after it. -/
theorem merge_rest (hinfos : hist.engine.infos = newer ++ rest) :
    merge (rest.take limit) (hist.ledger.infos.take limit) limit =
      ((entries rest hist.ledger.infos).take limit).map rpc := by
  have hsub : rest.Sublist hist.engine.infos := hinfos ▸ sublist_append_right ..
  exact merge_of_sorted (fun _ => LegacyLedger.infos_index) (sorted_entries h hsub)
    (nodup_signatures h hsub)

/-- **Every page is what follows its cursor**, in the engine and then in the ledger. -/
theorem page_of_partitioned
    (hspl : (entries hist.engine.infos hist.ledger.infos).map rpc = P ++ R) :
    hist.page limit P.getLast? = R.take limit := by
  obtain rfl | ⟨P, cursor, rfl⟩ := P.eq_nil_or_concat
  · rw [page, getLast?_nil, Option.map_none, positioned_page (.start rfl),
      merge_rest h (nil_append _).symm, map_take, hspl, nil_append]
  rw [concat_eq_append, append_assoc, singleton_append, entries, map_append,
    map_map, map_map] at hspl
  rw [concat_eq_append, getLast?_concat]
  rcases append_eq_append_cons hspl with ⟨older, heng⟩ | ⟨newer, rfl, hledger⟩
  · -- The cursor is in the engine.
    rw [heng, append_assoc, append_cancel_left_eq, cons_append, cons.injEq] at hspl
    obtain ⟨-, rfl⟩ := hspl
    obtain ⟨newer, rest, hinfos, -, hrest⟩ := map_eq_append_iff.mp heng
    obtain ⟨info, older, rfl, rfl, rfl⟩ := map_eq_cons_iff.mp hrest
    calc hist.page limit (some (rpc (info.confirmed, true)))
        = merge (older.take limit) (hist.ledger.infos.take limit) limit :=
          positioned_page (.after hinfos)
      _ = ((entries older hist.ledger.infos).take limit).map rpc :=
          merge_rest h (hinfos.trans (append_cons ..))
      _ = _ := by rw [map_take, entries, map_append, map_map, map_map]
  · -- The cursor is in the ledger.
    obtain ⟨newer, rest, hinfos, -, hrest⟩ := map_eq_append_iff.mp hledger
    obtain ⟨info, older, rfl, rfl, rfl⟩ := map_eq_cons_iff.mp hrest
    have hinfo : info.signature ∉ hist.engine.infos.map EngineSignature.signature := by
      have hmem : info ∈ hist.ledger.infos :=
        hinfos ▸ mem_append_right _ mem_cons_self
      obtain ⟨row, hrow, rfl⟩ := mem_map.mp hmem
      exact h.disjoint row hrow
    rw [← map_take]
    exact ledger_page hinfos hinfo

/-- Pages that are the engine and then the ledger are the history. -/
theorem complete_of_flatten
    (hflat : pages.flatten = (entries hist.engine.infos hist.ledger.infos).map rpc) :
    hist.Complete pages := by
  have hsigs : pages.flatten.map RpcConfirmedTransactionStatusWithSignature.signature =
      hist.engine.infos.map EngineSignature.signature ++
        hist.ledger.infos.map ConfirmedTransactionStatusWithSignature.signature := by
    rw [hflat, map_map, ← map_entries_signature]
    exact map_congr_left fun entry _ => rpc_signature entry
  have honce : (pages.flatten.map RpcConfirmedTransactionStatusWithSignature.signature).Nodup :=
    hsigs ▸ nodup_signatures h (Sublist.refl _)
  have hsort : pages.flatten.Pairwise fun a b => b.slot ≤ a.slot := by
    rw [hflat, pairwise_map]
    simpa only [rpc_slot] using sorted_entries h (Sublist.refl _)
  refine ⟨honce, fun signature => ?_, hsort, isChain_of_pairwise ?_⟩
  · rw [hsigs, mem_append, LegacyLedger.infos_map_signature, Retained]
  · exact (pairwise_map.mp honce).and hsort |>.imp fun hab => ⟨hab.1.symm, hab.2⟩

end Apart

/-- **Reading page by page is exact at every page size if and only if the sources are apart.** -/
theorem paging_exact_iff (hist : History) :
    (∀ limit, 1 ≤ limit → hist.PagingExact limit) ↔ hist.Partitioned := by
  refine ⟨fun h => partitioned_of_exact (h 1 le_rfl), fun h limit hlim => ?_⟩
  obtain ⟨pages, hpages, hflat⟩ :=
    exists_paging hlim [] fun P R => page_of_partitioned h
  exact ⟨pages, hpages, complete_of_flatten h hflat⟩

/-! ### A page that is its own cursor -/

/-- An engine with the given entries, which answers its cursors by looking for them. -/
def engineOf (infos : List EngineSignature) (nodup : (infos.map EngineSignature.signature).Nodup)
    (sorted : infos.Pairwise fun a b => b.slot ≤ a.slot) : EngineHistory where
  infos := infos
  status signature := (infos.map EngineSignature.signature).contains signature
  signatures before until_ limit :=
    let older := before.elim infos fun cursor =>
      (infos.dropWhile fun info => info.signature ≠ cursor).drop 1
    (older.takeWhile fun info => some info.signature ≠ until_).take limit
  nodup := nodup
  sorted := sorted
  status_info info hinfo := by
    rw [List.contains_iff_mem]
    exact mem_map_of_mem hinfo
  signatures_all _ := congrArg (take _) (takeWhile_eq_self_iff.mpr (by simp))
  signatures_after {newer older cursor} limit h := by
    rw [h, map_append, List.nodup_append] at nodup
    have hnewer : ∀ info ∈ newer, info.signature ≠ cursor.signature := fun info hinfo =>
      nodup.2.2 _ (mem_map_of_mem hinfo) _ (mem_map_of_mem mem_cons_self)
    dsimp only [Option.elim]
    rw [h, List.dropWhile_append_of_pos (by simpa using hnewer),
      List.dropWhile_cons_of_neg (by simp), List.drop_succ_cons, List.drop_zero,
      takeWhile_eq_self_iff.mpr (by simp)]

/-- A transaction that only the engine retains. -/
def ofEngine : EngineSignature := ⟨1, 5, none, 0⟩

/-- A transaction that both retain. -/
def ofBoth : EngineSignature := ⟨2, 4, none, 0⟩

/-- The engine retains slots five and four, and the ledger slots four and three. -/
def overlapping : History where
  engine := engineOf [ofEngine, ofBoth] (by decide +kernel) (by decide +kernel)
  ledger :=
    { rows := [⟨4, 0, ofBoth.signature⟩, ⟨3, 0, 3⟩]
      lowestAvailableSlot := 3
      getTransactionStatus := fun signature =>
        if signature = ofBoth.signature then some 4 else some 3
      transactionIndex := fun _ _ => some 0
      readTransactionStatus := fun _ _ => none
      readTransactionMemos := fun _ _ => none
      getBlockTime := fun _ => none
      sorted := by decide +kernel
      nodup := by decide +kernel
      slots := by decide +kernel
      status_row := by decide +kernel
      index_row := by decide +kernel }
  shared := by decide +kernel

/-- **The third page is its cursor again**, and what is older never comes up. -/
theorem overlapping_repeats :
    overlapping.signatures none none 1 = [rpc (ofEngine.confirmed, true)] ∧
      overlapping.signatures (some ofEngine.signature) none 1 = [rpc (ofBoth.confirmed, true)] ∧
      (overlapping.signatures (some ofBoth.signature) none 1).map (·.signature) =
        [ofBoth.signature] ∧
      ¬ ∀ limit, 1 ≤ limit → overlapping.PagingExact limit := by
  have hfst : Positioned overlapping none [ofEngine, ofBoth] := .start rfl
  refine ⟨?_, ?_, ?_, fun h => ?_⟩
  · rw [positioned_page hfst]
    exact merge_one rfl
  · rw [positioned_page hfst.next]
    exact merge_one rfl
  · rw [positioned_page hfst.next.next]
    decide +kernel
  · exact (partitioned_of_exact (h 1 le_rfl)).disjoint ⟨4, 0, ofBoth.signature⟩
      (by decide +kernel) (by decide +kernel)

end History

end Magicblock.Aperture
