import Magicblock.Foundations.Lists
import Magicblock.Foundations.Takers
import Magicblock.Tables.Model

/-!
# Tables/Conservation — reference counts add up

The reference counts of a pubkey, summed over the active tables, are the reservations of it that
were granted and not released.  The hard part is a release: it walks past the tables while others
reserve and release, and must not miss the reservation it gives back (`Covered`).  A drain that is
cancelled while it waits for the released tables loses the tables it has taken out; nothing else
breaks the sum.
-/

namespace Magicblock

open List HolderPhase

open List (Subperm append_assoc append_nil count_append count_eq_zero foldl_cons length_map
  map_append map_cons map_nil mem_cons_self mem_singleton sum_append sum_cons take_sublist)
open Multiset (coe_add countP_eq_zero forall_mem_cons map_coe mem_cons_of_mem mem_cons_self
  sum_add sum_coe)

/-! ### Counts -/

namespace RefcountedPubkeys

variable {entries : RefcountedPubkeys}

theorem getRefcount_insert :
    getRefcount (entries.insert pk refcount) k =
      if k = pk then refcount else entries.getRefcount k := by
  rw [getRefcount]
  split_ifs with hk
  · rw [hk, AList.lookup_insert, Option.getD_some]
  · rw [AList.lookup_insert_ne hk, getRefcount]

theorem getRefcount_of_lookup (h : entries.lookup pk = some refcount) :
    entries.getRefcount pk = refcount := by
  rw [getRefcount, h, Option.getD_some]

theorem getRefcount_of_lookup_none (h : entries.lookup pk = none) : entries.getRefcount pk = 0 := by
  rw [getRefcount, h, Option.getD_none]

/-- One more reservation of a pubkey. -/
theorem getRefcount_insert_succ (h : entries.getRefcount pk = refcount) : getRefcount
    (entries.insert pk (refcount + 1)) k = entries.getRefcount k + [pk].count k := by
  rw [getRefcount_insert]
  split_ifs with hk
  · rw [hk, h, count_singleton_self]
  · rw [count_eq_zero.mpr (mt mem_singleton.mp hk), add_zero]

theorem getRefcount_insertReserved :
    (entries.insertReserved pk).getRefcount k = entries.getRefcount k + [pk].count k := by
  rw [insertReserved]
  cases hlook : entries.lookup pk with
  | none => exact getRefcount_insert_succ (getRefcount_of_lookup_none hlook)
  | some => exact getRefcount_insert_succ (getRefcount_of_lookup hlook)

theorem getRefcount_insertMany :
    (entries.insertMany pks).getRefcount k = entries.getRefcount k + pks.count k := by
  induction pks generalizing entries with
  | nil => rfl
  | cons pk pks ih =>
    rw [insertMany, foldl_cons, ← insertMany, ih, getRefcount_insertReserved, add_assoc,
      ← count_append, singleton_append]

theorem getRefcount_insertUnreservedMany : (entries.insertUnreservedMany pks).getRefcount k =
    entries.getRefcount k := by
  induction pks generalizing entries with
  | nil => rfl
  | cons pk pks ih =>
    rw [insertUnreservedMany, foldl_cons, ← insertUnreservedMany, ih, insertUnreserved]
    cases hlook : entries.lookup pk with
    | none =>
      rw [getRefcount_insert]
      split_ifs with hk
      · rw [hk, getRefcount, hlook, Option.getD_none]
      · rfl
    | some => rfl

theorem getRefcount_new (hpks : pks.Nodup) : (new pks).getRefcount k = pks.count k := by
  have hfold : ∀ entries : RefcountedPubkeys,
      getRefcount (pks.foldl (fun entries pk => entries.insert pk 1) entries) k =
        if k ∈ pks then 1 else entries.getRefcount k := by
    induction pks with
    | nil => exact fun _ => rfl
    | cons pk pks ih =>
      intro entries
      rw [foldl_cons, ih hpks.of_cons, getRefcount_insert]
      simp only [mem_cons]
      split_ifs <;> tauto
  rw [new, hfold, hpks.count]
  rfl

theorem getRefcount_of_reserve (h : entries.reserve pk = some entries') :
    entries'.getRefcount k = entries.getRefcount k + [pk].count k := by
  obtain ⟨refcount, hlook, rfl⟩ := Option.map_eq_some_iff.mp h
  exact getRefcount_insert_succ (getRefcount_of_lookup hlook)

theorem getRefcount_of_release (h : entries.release pk = some entries') :
    entries.getRefcount k = entries'.getRefcount k + [pk].count k := by
  rw [release] at h
  split at h
  next refcount hlook =>
    cases h
    rw [getRefcount_insert]
    split_ifs with hk
    · rw [hk, getRefcount_of_lookup hlook, count_singleton_self]
    · rw [count_eq_zero.mpr (mt mem_singleton.mp hk), add_zero]
  next => cases h

theorem getRefcount_of_release_eq_none (h : entries.release pk = none) :
    entries.getRefcount pk = 0 := by
  rw [release] at h
  split at h
  next => cases h
  next hzero =>
    cases hlook : entries.lookup pk with
    | none => exact getRefcount_of_lookup_none hlook
    | some refcount =>
      cases refcount with
      | zero => exact getRefcount_of_lookup hlook
      | succ refcount => exact absurd hlook (hzero refcount)

theorem getRefcount_of_not_hasReservations (h : entries.hasReservations = false) (k : Pubkey) :
    entries.getRefcount k = 0 := by
  cases hlook : entries.lookup k with
  | none => exact getRefcount_of_lookup_none hlook
  | some refcount =>
    have hent := any_eq_false.mp h ⟨k, refcount⟩ (AList.mem_lookup_iff.mp hlook)
    rw [getRefcount_of_lookup hlook]
    simpa using hent

end RefcountedPubkeys

namespace LookupTableRc

variable {t : LookupTableRc}

theorem getRefcount_of_reservePubkey (h : t.reservePubkey pk = some t') :
    t'.getRefcount k = t.getRefcount k + [pk].count k := by
  obtain ⟨pks, hrsv, rfl⟩ := Option.map_eq_some_iff.mp h
  exact RefcountedPubkeys.getRefcount_of_reserve hrsv

theorem getRefcount_of_releasePubkey (h : t.releasePubkey pk = some t') (k : Pubkey) :
    t.getRefcount k = t'.getRefcount k + [pk].count k := by
  obtain ⟨pks, hrel, rfl⟩ := Option.map_eq_some_iff.mp h
  exact RefcountedPubkeys.getRefcount_of_release hrel

theorem getRefcount_extend (t : LookupTableRc) (pks : List Pubkey) (k : Pubkey) :
    (t.extend pks).getRefcount k = t.getRefcount k + pks.count k :=
  RefcountedPubkeys.getRefcount_insertMany

theorem getRefcount_reconcileWithChain (t : LookupTableRc) (pks : List Pubkey) (k : Pubkey) :
    (t.reconcileWithChain pks).getRefcount k = t.getRefcount k :=
  RefcountedPubkeys.getRefcount_insertUnreservedMany

theorem getRefcount_init {pks : List Pubkey} (hpks : pks.Nodup)
    (tableAddress k : Pubkey) : (init tableAddress pks).getRefcount k = pks.count k :=
  RefcountedPubkeys.getRefcount_new hpks

theorem getRefcount_of_not_hasReservations (h : t.hasReservations = false) (k : Pubkey) :
    t.getRefcount k = 0 :=
  RefcountedPubkeys.getRefcount_of_not_hasReservations h k

theorem hasReservations_of_lossless
    (h : (TableEvent.dropped tables).lossless) (ht : t ∈ tables) : t.hasReservations = false :=
  Bool.not_eq_true' _ ▸ all_eq_true.mp h t ht

theorem sum_getRefcount_of_lossless (h : (TableEvent.dropped tables).lossless) :
    (tables.map (·.getRefcount k)).sum = 0 := by
  refine sum_eq_zero fun count hcnt => ?_
  obtain ⟨t, ht, rfl⟩ := mem_map.mp hcnt
  exact getRefcount_of_not_hasReservations (hasReservations_of_lossless h ht) k

theorem getRefcount_markAfterError (action : ExtendTableErrorAction) (t : LookupTableRc)
    (k : Pubkey) : (markAfterError action t).getRefcount k = t.getRefcount k := by
  rw [markAfterError]
  split_ifs <;> rfl

theorem storing_sublist (t : LookupTableRc) (remaining : List Pubkey) :
    (t.storing remaining).Sublist remaining :=
  (take_sublist ..).trans (take_sublist ..)

/-- What is reserved and what remains are what there was; each reservation counts. -/
structure Filters (t : LookupTableRc) (pubkeys : List Pubkey)
    (out : LookupTableRc × List Pubkey × List Pubkey) : Prop where
  getRefcount (k : Pubkey) : out.1.getRefcount k = t.getRefcount k + out.2.1.count k
  perm : (out.2.1 ++ out.2.2).Perm pubkeys

theorem filters_filterPubkeysPresent (t : LookupTableRc) (pks : List Pubkey) :
    Filters t pks (t.filterPubkeysPresent pks) := by
  induction pks generalizing t with
  | nil => exact ⟨fun _ => rfl, .refl _⟩
  | cons pk pks ih =>
    rw [filterPubkeysPresent]
    cases hrsv : t.reservePubkey pk with
    | none => exact ⟨(ih t).getRefcount, perm_middle.trans ((ih t).perm.cons pk)⟩
    | some t' =>
      refine ⟨fun k => ?_, (ih t').perm.cons pk⟩
      change (t'.filterPubkeysPresent pks).1.getRefcount k =
        t.getRefcount k + (pk :: (t'.filterPubkeysPresent pks).2.1).count k
      rw [(ih t').getRefcount, getRefcount_of_reservePubkey hrsv, add_assoc, ← count_append,
        singleton_append]

end LookupTableRc

/-! ### Holders -/

namespace HolderPhase

/-- Pubkeys that are still to be reserved. -/
def pending : HolderPhase → List Pubkey
  | reserving todo remaining => todo ++ remaining
  | reserveScan pubkey todo remaining _ => pubkey :: (todo ++ remaining)
  | storing remaining _ | extending remaining _ | reconciling remaining _ _
  | opening remaining _ _ | creating remaining _ _ => remaining
  | holding | releasing _ | releaseScan .. | draining .. | gone => []

/-- Pubkeys that are still to be released. -/
def returning : HolderPhase → List Pubkey
  | releasing todo => todo
  | releaseScan pubkey todo _ => pubkey :: todo
  | _ => []

/-- Tables that a drain has taken out, and not disposed of. -/
def drained : HolderPhase → List LookupTableRc
  | draining tables stillActive => tables ++ stillActive
  | _ => []

/-- The position of a release that walks past the tables. -/
def takes (k : Pubkey) : HolderPhase → Option ℕ
  | releaseScan pubkey _ index => if pubkey = k then some index else none
  | _ => none

theorem not_reads_of_writes {phase : HolderPhase} (h : phase.writes) : phase.reads = false := by
  cases phase with
  | reserveScan | releaseScan => cases h
  | _ => rfl

theorem mem_returning_of_takes {phase : HolderPhase}
    (h : phase.takes k = some i) : k ∈ phase.returning := by
  cases phase with
  | releaseScan pk todo index =>
    obtain ⟨rfl, -⟩ := Option.ite_none_right_eq_some.mp h
    exact mem_cons_self
  | _ => cases h

end HolderPhase

namespace Holder

/-- The pubkeys that it has reserved. -/
def keys (h : Holder) : List Pubkey := h.reserved.map Prod.fst

/-- **A holder is granted no pubkey twice**, and releases only what it has. -/
structure Orderly (h : Holder) : Prop where
  nodup : (h.keys ++ h.phase.pending).Nodup
  returning_nodup : h.phase.returning.Nodup
  returning_subset : h.phase.returning ⊆ h.keys

end Holder

theorem record_eq (h : (r.map Prod.fst ++ pks).Nodup) :
    record r tableAddress pks = r ++ pks.map (·, tableAddress) := by
  induction pks generalizing r with
  | nil => exact (append_nil r).symm
  | cons pk pks ih =>
    have hnew : pk ∉ r.map Prod.fst := fun hmem =>
      (nodup_append.mp h).2.2 pk hmem pk mem_cons_self rfl
    rw [record, foldl_cons, if_neg hnew, ← record, ih]
    · rw [append_assoc]
      rfl
    · rwa [map_append, append_assoc]

theorem keys_record (h : (r.map Prod.fst ++ pks).Nodup) :
    (record r tableAddress pks).map Prod.fst = r.map Prod.fst ++ pks := by
  rw [record_eq h, map_append, map_map]
  congr 1
  exact map_id pks

theorem keys_unrecord : (unrecord r pk).map Prod.fst = (r.map Prod.fst).filter (· ≠ pk) := by
  rw [unrecord, filter_map]
  rfl

variable {phase : HolderPhase}

namespace Holder.Orderly

variable (h : Orderly ⟨r, phase⟩)

include h

/-- What is granted was pending. -/
theorem nodup_grant (hpend : pks.Subperm phase.pending) : (r.map Prod.fst ++ pks).Nodup := by
  obtain ⟨l, hperm, hsub⟩ := (subperm_append_left (r.map Prod.fst)).mpr hpend
  exact hperm.nodup_iff.mp (h.nodup.sublist hsub)

theorem grant (tableAddress : Pubkey) (hpend : (pks ++ phase'.pending).Subperm phase.pending)
    (hret : phase'.returning = []) : Orderly ⟨record r tableAddress pks, phase'⟩ := by
  have hnd := h.nodup_grant hpend
  rw [← append_assoc] at hnd
  refine ⟨?_, hret ▸ nodup_nil, hret ▸ nil_subset _⟩
  rwa [Holder.keys, keys_record hnd.of_append_left]

/-- Each pubkey that is granted is counted. -/
theorem count_record (hpend : pks.Subperm phase.pending) :
    ((record r tableAddress pks).map Prod.fst).count k =
      (r.map Prod.fst).count k + pks.count k := by
  rw [keys_record (h.nodup_grant hpend), count_append]

/-- Nothing is granted. -/
theorem move (hpend : phase'.pending.Subperm phase.pending)
    (hret : phase'.returning = []) : Orderly ⟨r, phase'⟩ := by
  have hnone : ([] ++ phase'.pending).Subperm phase.pending := hpend
  exact h.grant 0 hnone hret

/-- One pubkey was released. -/
theorem giveBack (hph : phase.returning = pk :: todo) :
    Orderly ⟨unrecord r pk, .releasing todo⟩ := by
  have hnd := h.returning_nodup
  have hsub := h.returning_subset
  rw [hph] at hnd hsub
  have hkeys : (unrecord r pk).map Prod.fst = (r.map Prod.fst).filter (· ≠ pk) :=
    keys_unrecord
  refine ⟨?_, hnd.of_cons, fun k hk => ?_⟩
  · rw [Holder.keys, hkeys, pending, append_nil]
    exact h.nodup.of_append_left.filter _
  · rw [Holder.keys, hkeys, mem_filter]
    refine ⟨hsub (mem_cons_of_mem _ hk), decide_eq_true ?_⟩
    rintro rfl
    exact (nodup_cons.mp hnd).1 hk

theorem count_unrecord (hpk : pk ∈ phase.returning) (k : Pubkey) :
    ((unrecord r pk).map Prod.fst).count k + [pk].count k = (r.map Prod.fst).count k := by
  have hnd : (r.map Prod.fst).Nodup := h.nodup.of_append_left
  rw [keys_unrecord]
  by_cases hk : k = pk
  · subst hk
    rw [count_eq_one_of_mem hnd (h.returning_subset hpk), count_singleton_self, count_eq_zero.mpr]
    exact fun hmem => absurd rfl (of_decide_eq_true (mem_filter.mp hmem).2)
  · rw [count_filter (p := (· ≠ pk)) (decide_eq_true hk),
      count_eq_zero.mpr (mt mem_singleton.mp hk), add_zero]

/-- **A grant keeps the balance.** -/
theorem balance_grant {before after : List LookupTableRc} (hpend : pks.Subperm phase.pending)
    (hcnt : t'.getRefcount k = t.getRefcount k + pks.count k) :
    ((before ++ t' :: after).map (·.getRefcount k)).sum + (r.map Prod.fst).count k =
      ((before ++ t :: after).map (·.getRefcount k)).sum +
        ((record r tableAddress pks).map Prod.fst).count k := by
  simp only [h.count_record hpend, map_append, map_cons, sum_append, sum_cons, hcnt]
  omega

end Holder.Orderly

theorem idle_of_awaitsInReserve (h : phase.awaitsInReserve) :
    phase.drained = [] ∧ phase.takes k = none := by
  cases phase with
  | draining | releaseScan => cases h
  | _ => exact ⟨rfl, rfl⟩

section AfterExtendError

variable (action : ExtendTableErrorAction) (tableAddress : Pubkey) (remaining : List Pubkey)
  (extendErrors : ℕ)

theorem afterExtendError_cases :
    afterExtendError action tableAddress remaining extendErrors = .holding ∨
      ∃ errors force, afterExtendError action tableAddress remaining extendErrors =
        .opening remaining errors force := by
  cases action with
  | createNewTable | retry =>
    rw [afterExtendError]
    split_ifs
    · exact .inl rfl
    · exact .inr ⟨_, _, rfl⟩
  | returnError => exact .inl rfl

theorem pending_afterExtendError :
    (afterExtendError action tableAddress remaining extendErrors).pending.Sublist remaining := by
  rcases afterExtendError_cases action tableAddress remaining extendErrors with h | ⟨_, _, h⟩
  · rw [h]
    exact nil_sublist _
  · rw [h]
    exact .refl _

/-- Nothing is locked, drained or released. -/
theorem idle_afterExtendError :
    (afterExtendError action tableAddress remaining extendErrors).reads = false ∧
      (afterExtendError action tableAddress remaining extendErrors).drained = [] ∧
      (afterExtendError action tableAddress remaining extendErrors).returning = [] ∧
      ∀ k, (afterExtendError action tableAddress remaining extendErrors).takes k = none := by
  rcases afterExtendError_cases action tableAddress remaining extendErrors with h | ⟨_, _, h⟩
  · rw [h]
    exact ⟨rfl, rfl, rfl, fun _ => rfl⟩
  · rw [h]
    exact ⟨rfl, rfl, rfl, fun _ => rfl⟩

end AfterExtendError

/-! ### Steps of a holder -/

namespace HolderStep

open LookupTableRc

variable (hstep : HolderStep readers writers m h event m' h')

include hstep

/-- Locks are taken only when they are free. -/
theorem locks :
    (h'.phase.writes → h.phase.writes ∨ writers = 0 ∧ readers = 0) ∧
      (h'.phase.reads → h.phase.reads ∨ writers = 0) := by
  cases hstep with
  | lockReserve hlock | lockRelease hlock => exact ⟨nofun, fun _ => .inr hlock⟩
  | lockExtend _ hlock | openNew hlock | lockDrain hlock =>
    exact ⟨fun _ => .inr hlock, nofun⟩
  | reserveMiss | releaseMiss => exact ⟨nofun, fun _ => .inl rfl⟩
  | extendFailed | keep | retire => exact ⟨fun _ => .inl rfl, nofun⟩
  | reconciled | reconcileFailed =>
    refine ⟨fun _ => .inl rfl, fun hr => absurd hr ?_⟩
    rw [(idle_afterExtendError ..).1]
    exact Bool.false_ne_true
  | _ => exact ⟨nofun, nofun⟩

theorem orderly (ho : h.Orderly) : h'.Orderly := by
  cases hstep with
  | lockReserve | checkAuthority | lockExtend | noTable | extendFailed | openOther | openNew
  | reserveMiss => exact ho.move (Subperm.refl _) rfl
  | reserveHit => exact ho.grant _ (Subperm.refl _) rfl
  | reserveNone =>
    refine ho.move (List.Perm.subperm ?_) rfl
    change (_ ++ (_ ++ [_])).Perm (_ :: (_ ++ _))
    rw [← append_assoc]
    exact perm_append_singleton ..
  | extended =>
    refine ho.grant _ (perm_append_filter ho.nodup.of_append_right ?_).subperm rfl
    exact storing_sublist ..
  | created =>
    refine ho.grant _ (perm_append_filter ho.nodup.of_append_right ?_).subperm rfl
    exact take_sublist ..
  | reconciled chainPubkeys htbl hfilt =>
    have hperm := (hfilt ▸ filters_filterPubkeysPresent ..).perm
    refine ho.grant _ ?_ (idle_afterExtendError ..).2.2.1
    refine Subperm.trans (List.Sublist.subperm ?_) hperm.subperm
    exact (pending_afterExtendError ..).append_left _
  | reconcileFailed =>
    exact ho.move (pending_afterExtendError ..).subperm (idle_afterExtendError ..).2.2.1
  | release htodo =>
    have hnd : List.Nodup (map Prod.fst _) := ho.nodup.of_append_left
    exact ⟨ho.nodup, htodo.nodup_iff.mpr hnd, htodo.subset⟩
  | lockRelease | releaseMiss => exact ⟨ho.nodup, ho.returning_nodup, ho.returning_subset⟩
  | releaseHit | releaseNone => exact ho.giveBack rfl
  | cancelReserve | wrongAuthority | done | createFailed | lockDrain | keep | retire | restore
  | cancelRelease | cancelDrain => exact ho.move nil_subperm rfl

/-- **Counts and reservations change together**, unless a drain is cancelled or a release finds no
table. -/
theorem balance (ho : h.Orderly) (hev : event.lossless)
    (hend : ∀ i, h.phase.takes k = some i → i < m.activeTables.length) :
    ((m'.activeTables ++ h'.phase.drained).map (·.getRefcount k)).sum + h.keys.count k =
      ((m.activeTables ++ h.phase.drained).map (·.getRefcount k)).sum + h'.keys.count k := by
  cases hstep with
  | reserveHit htbl hhit =>
    simp only [Holder.keys, drained, append_nil, htbl]
    refine ho.balance_grant ?_ (getRefcount_of_reservePubkey hhit)
    exact (singleton_sublist.mpr mem_cons_self).subperm
  | extended htbl =>
    simp only [Holder.keys, drained, append_nil, htbl]
    refine ho.balance_grant ?_ (getRefcount_extend ..)
    exact (storing_sublist ..).subperm
  | reconciled chainPubkeys htbl hfilt =>
    have hfilter := hfilt ▸ filters_filterPubkeysPresent ..
    rw [(idle_afterExtendError ..).2.1]
    simp only [Holder.keys, drained, append_nil, htbl]
    refine ho.balance_grant ?_ ?_
    · exact (sublist_append_left ..).subperm.trans hfilter.perm.subperm
    · rw [getRefcount_markAfterError, hfilter.getRefcount, getRefcount_reconcileWithChain]
  | reconcileFailed htbl =>
    rw [(idle_afterExtendError ..).2.1]
    simp [Holder.keys, drained, htbl, getRefcount_markAfterError]
  | @created r remaining extendErrors limit =>
    have hsub : (remaining.take (min limit maxEntriesAsPartOfExtend)).Sublist remaining :=
      take_sublist ..
    simp only [Holder.keys, drained, append_nil, map_append, map_singleton,
      sum_append, sum_singleton]
    rw [ho.count_record hsub.subperm, getRefcount_init (ho.nodup.of_append_right.sublist hsub)]
    omega
  | cancelReserve hawas =>
    rw [(idle_of_awaitsInReserve (k := k) hawas).1]
    rfl
  | releaseHit htbl hhit =>
    have hcnt := ho.count_unrecord mem_cons_self k
    have htbl' := getRefcount_of_releasePubkey hhit k
    simp only [Holder.keys, drained, append_nil, htbl, map_append, map_cons, sum_append, sum_cons]
    omega
  | @releaseNone r pk todo =>
    have hcnt := ho.count_unrecord mem_cons_self k
    have hne : k ≠ pk := by
      rintro rfl
      exact absurd (hend _ (if_pos rfl)) (lt_irrefl _)
    rw [count_eq_zero.mpr (mt mem_singleton.mp hne), add_zero] at hcnt
    simp only [Holder.keys, hcnt]
    rfl
  | lockDrain | restore => simp only [drained, append_nil, nil_append]; rfl
  | keep =>
    simp only [drained, Holder.keys, map_append, map_cons, sum_append, sum_cons, map_nil, sum_nil]
    omega
  | retire hfree =>
    have hzero := getRefcount_of_not_hasReservations hfree k
    simp [drained, Holder.keys, hzero]
  | cancelDrain =>
    simp only [drained, append_nil, Holder.keys]
    rw [map_append, sum_append, sum_getRefcount_of_lossless hev, add_zero]
  | _ => rfl

/-- **No release misses the reservation it gives back**: `takers` are the other releases of `k`. -/
theorem covered (hcov : Covered (m.activeTables.map (·.getRefcount k))
      ((h.phase.takes k).elim takers (· ::ₘ takers)))
    (hqt : h.phase.writes ∨ writers = 0 ∧ readers = 0 → takers = 0)
    (heno : writers = 0 → k ∈ h.phase.returning →
      takers.card < (m.activeTables.map (·.getRefcount k)).sum) :
    Covered (m'.activeTables.map (·.getRefcount k))
    ((h'.phase.takes k).elim takers (· ::ₘ takers)) := by
  cases hstep with
  | reserveHit htbl hhit =>
    rw [htbl, map_append, map_cons] at hcov
    rw [map_append, map_cons]
    refine hcov.put ?_
    rw [getRefcount_of_reservePubkey hhit]
    exact Nat.le_add_right ..
  | extended | created | restore =>
    rw [hqt (.inl rfl)]
    exact covered_zero _
  | reconciled | reconcileFailed =>
    rw [hqt (.inl rfl), (idle_afterExtendError ..).2.2.2]
    exact covered_zero _
  | lockDrain hlock =>
    rw [hqt (.inr hlock)]
    exact covered_zero _
  | cancelReserve hawas =>
    rw [(idle_of_awaitsInReserve hawas).2] at hcov
    exact hcov
  | @lockRelease r pk todo hlock =>
    by_cases hk : pk = k
    · rw [takes, if_pos hk]
      exact hcov.enter (heno hlock (hk ▸ mem_cons_self))
    · rw [takes, if_neg hk]
      exact hcov
  | @releaseHit r pk todo t t' before after htbl hhit =>
    have hcnt := getRefcount_of_releasePubkey hhit k
    rw [htbl, map_append, map_cons, hcnt, takes] at hcov
    rw [map_append, map_cons]
    by_cases hk : pk = k
    · rw [if_pos hk, hk, count_singleton_self, ← length_map (·.getRefcount k)] at hcov
      exact hcov.take
    · rw [if_neg hk, count_eq_zero.mpr (mt mem_singleton.mp (Ne.symm hk))] at hcov
      exact hcov
  | @releaseMiss r pk todo t before after htbl hmiss =>
    by_cases hk : pk = k
    · subst hk
      have hnone : t.getRefcount pk = 0 :=
        RefcountedPubkeys.getRefcount_of_release_eq_none (Option.map_eq_none_iff.mp hmiss)
      rw [htbl, map_append, map_cons, hnone] at hcov ⊢
      simp only [takes, if_true, Option.elim_some] at hcov ⊢
      rw [← length_map (·.getRefcount pk)] at hcov ⊢
      exact hcov.pass
    · rw [takes, if_neg hk] at hcov ⊢
      exact hcov
  | @releaseNone r pk todo =>
    by_cases hk : pk = k
    · rw [takes, if_pos hk] at hcov
      have hlt := hcov.lt_length
      rw [length_map] at hlt
      exact absurd hlt (lt_irrefl _)
    · rw [takes, if_neg hk] at hcov
      exact hcov
  | _ => exact hcov

/-- Only tables without reservations are released. -/
theorem released (ht : t ∈ m'.releasedTables) :
    t ∈ m.releasedTables ∨ ∀ k, t.getRefcount k = 0 := by
  cases hstep with
  | retire hfree =>
    rcases mem_append.mp ht with ht | ht
    · exact .inl ht
    · rw [mem_singleton.mp ht]
      exact .inr (getRefcount_of_not_hasReservations hfree)
  | _ => exact .inl ht

end HolderStep

/-! ### The system -/

section Holders

variable {h : Holder} {holders : Multiset Holder} {k : Pubkey}

/-- The tables that a drain has taken out. -/
def drainedTables (holders : Multiset Holder) : Multiset LookupTableRc :=
  holders.bind fun h => (h.phase.drained : Multiset LookupTableRc)

/-- The reservations of a pubkey that were granted and not released. -/
def reservations (holders : Multiset Holder) (k : Pubkey) : ℕ :=
  (holders.map fun h => h.keys.count k).sum

/-- The releases of a pubkey that walk past the tables. -/
def takers (holders : Multiset Holder) (k : Pubkey) : Multiset ℕ :=
  holders.filterMap fun h => h.phase.takes k

theorem drainedTables_cons :
    drainedTables (h ::ₘ holders) =
      (h.phase.drained : Multiset LookupTableRc) + drainedTables holders :=
  Multiset.cons_bind ..

theorem reservations_cons :
    reservations (h ::ₘ holders) k = h.keys.count k + reservations holders k := by
  rw [reservations, Multiset.map_cons, Multiset.sum_cons, ← reservations]

theorem takers_cons : takers (h ::ₘ holders) k =
    (h.phase.takes k).elim (takers holders k) (· ::ₘ takers holders k) := by
  cases htakes : h.phase.takes k with
  | none => exact Multiset.filterMap_cons_none h holders htakes
  | some i => exact Multiset.filterMap_cons_some _ h holders htakes

/-- Without a writer, no table is out. -/
theorem drainedTables_eq_zero (hwrs : holders.countP (fun h => h.phase.writes) = 0) :
    drainedTables holders = 0 := by
  refine (Multiset.bind_congr fun h hh => ?_).trans (Multiset.bind_zero holders)
  have hidle := countP_eq_zero.mp hwrs h hh
  cases hph : h.phase with
  | draining =>
    rw [hph] at hidle
    exact absurd rfl hidle
  | _ => rfl

/-- Without a reader, nobody walks. -/
theorem takers_eq_zero (hrds : holders.countP (fun h => h.phase.reads) = 0) :
    takers holders k = 0 := by
  refine Multiset.eq_zero_of_forall_notMem fun i hi => ?_
  obtain ⟨h, hh, htakes⟩ := (Multiset.mem_filterMap _ _).mp hi
  have hidle := countP_eq_zero.mp hrds h hh
  cases hph : h.phase with
  | releaseScan =>
    rw [hph] at hidle
    exact absurd rfl hidle
  | _ =>
    rw [hph] at htakes
    cases htakes

/-- Who walks has a reservation to give back. -/
theorem card_takers_le (hord : ∀ h ∈ holders, h.Orderly) (k : Pubkey) :
    (takers holders k).card ≤ reservations holders k := by
  induction holders using Multiset.induction with
  | empty => exact Nat.zero_le _
  | cons h holders ih =>
    have hrest := ih fun g hg => hord g (mem_cons_of_mem hg)
    rw [reservations_cons, takers_cons]
    cases htakes : h.phase.takes k with
    | none =>
      rw [Option.elim_none]
      omega
    | some i =>
      have hmem := (hord h (mem_cons_self ..)).returning_subset (mem_returning_of_takes htakes)
      have hpos := count_pos_iff.mpr hmem
      rw [Option.elim_some, Multiset.card_cons]
      omega

end Holders

namespace TableSystem

/-- **The active tables**, with those that a drain has taken out and not disposed of. -/
def tables (w : TableSystem) : Multiset LookupTableRc :=
  w.mania.activeTables + drainedTables w.holders

/-- The reference counts of a pubkey, summed over the active tables. -/
def refcount (w : TableSystem) (k : Pubkey) : ℕ := (w.tables.map fun t => t.getRefcount k).sum

theorem refcount_cons : refcount ⟨m, h ::ₘ others⟩ k =
      ((m.activeTables ++ h.phase.drained).map (·.getRefcount k)).sum +
        ((drainedTables others).map fun t => t.getRefcount k).sum := by
  rw [refcount, tables, drainedTables_cons, ← add_assoc, Multiset.map_add, sum_add,
    coe_add, map_coe, sum_coe]

end TableSystem

/-- **The invariant of the system.** -/
structure Conserved (w : TableSystem) : Prop where
  writers_le : w.writers ≤ 1
  locks : w.writers = 0 ∨ w.readers = 0
  orderly : ∀ h ∈ w.holders, h.Orderly
  balance (k : Pubkey) : w.refcount k = reservations w.holders k
  covered (k : Pubkey) : Covered (w.mania.activeTables.map (·.getRefcount k)) (takers w.holders k)
  released : ∀ t ∈ w.mania.releasedTables, ∀ k, t.getRefcount k = 0

namespace Conserved

theorem call (hw : Conserved ⟨m, holders⟩) (hpks : pks.Nodup) :
    Conserved ⟨m, ⟨[], .reserving pks []⟩ ::ₘ holders⟩ := by
  have hord : Holder.Orderly ⟨[], .reserving pks []⟩ := by
    refine ⟨?_, nodup_nil, nil_subset _⟩
    change (pks ++ []).Nodup
    rwa [append_nil]
  have hwrs : TableSystem.writers ⟨m, ⟨[], .reserving pks []⟩ ::ₘ holders⟩ =
      TableSystem.writers ⟨m, holders⟩ := Multiset.countP_cons_of_neg _ Bool.false_ne_true
  have hrds : TableSystem.readers ⟨m, ⟨[], .reserving pks []⟩ ::ₘ holders⟩ =
      TableSystem.readers ⟨m, holders⟩ := Multiset.countP_cons_of_neg _ Bool.false_ne_true
  refine ⟨hwrs ▸ hw.writers_le, ?_, ?_, fun k => ?_, fun k => ?_, hw.released⟩
  · rw [hwrs, hrds]
    exact hw.locks
  · exact forall_mem_cons.mpr ⟨hord, hw.orderly⟩
  · have hbal := hw.balance k
    rw [TableSystem.refcount, TableSystem.tables, drainedTables_cons, reservations_cons]
    change (Multiset.map _ (_ + (0 + drainedTables holders))).sum = 0 + reservations holders k
    rw [zero_add, zero_add]
    exact hbal
  · rw [takers_cons]
    exact hw.covered k

section

variable (hw : Conserved ⟨m, h ::ₘ others⟩)

include hw

/-- While a holder writes or could, nobody else walks. -/
theorem takers_of_exclusive (hexcl : h.phase.writes ∨ TableSystem.writers ⟨m, h ::ₘ others⟩ = 0 ∧
      TableSystem.readers ⟨m, h ::ₘ others⟩ = 0) : takers others k = 0 := by
  have hrds : TableSystem.readers ⟨m, h ::ₘ others⟩ = 0 := by
    rcases hexcl with hwrites | ⟨-, hrds⟩
    · refine hw.locks.resolve_left fun hzero => ?_
      exact countP_eq_zero.mp hzero h (mem_cons_self ..) hwrites
    · exact hrds
  refine takers_eq_zero (countP_eq_zero.mpr fun g hg => ?_)
  exact countP_eq_zero.mp hrds g (mem_cons_of_mem hg)

/-- Before a release walks, there is enough for it. -/
theorem enough (hwrs : TableSystem.writers ⟨m, h ::ₘ others⟩ = 0) (hk : k ∈ h.phase.returning) :
    (takers others k).card < (m.activeTables.map (·.getRefcount k)).sum := by
  have hbal : (m.activeTables.map (·.getRefcount k)).sum =
      h.keys.count k + reservations others k := by
    have hsum := hw.balance k
    rwa [TableSystem.refcount, TableSystem.tables, drainedTables_eq_zero hwrs, add_zero,
      map_coe, sum_coe, reservations_cons] at hsum
  have hord := forall_mem_cons.mp hw.orderly
  have hpos := count_pos_iff.mpr (hord.1.returning_subset hk)
  have hcard := card_takers_le hord.2 k
  omega

variable
  (hstep : HolderStep (TableSystem.readers ⟨m, h ::ₘ others⟩) (TableSystem.writers ⟨m, h ::ₘ others⟩) m h event m' h')

include hstep

/-- The lock is kept. -/
theorem locks_step :
    TableSystem.writers ⟨m', h' ::ₘ others⟩ ≤ 1 ∧
      (TableSystem.writers ⟨m', h' ::ₘ others⟩ = 0 ∨
        TableSystem.readers ⟨m', h' ::ₘ others⟩ = 0) := by
  obtain ⟨hwrites, hreads⟩ := hstep.locks
  have hone := hw.writers_le
  have hlocks := hw.locks
  have hexcl : h'.phase.writes → h'.phase.reads = false := not_reads_of_writes
  clear hw hstep
  simp only [TableSystem.writers, TableSystem.readers, Multiset.countP_cons] at *
  generalize h.phase.writes = w, h'.phase.writes = w', h.phase.reads = r, h'.phase.reads = r' at *
  cases w <;> cases w' <;> cases r <;> cases r' <;> simp_all

theorem holder (hev : event.lossless) : Conserved ⟨m', h' ::ₘ others⟩ := by
  obtain ⟨hord, hoths⟩ := forall_mem_cons.mp hw.orderly
  have hcov (k : Pubkey) : Covered (m'.activeTables.map (·.getRefcount k))
      (takers (h' ::ₘ others) k) := by
    have hold := hw.covered k
    rw [takers_cons] at hold ⊢
    exact hstep.covered hold hw.takers_of_exclusive hw.enough
  have hbal (k : Pubkey) : TableSystem.refcount ⟨m', h' ::ₘ others⟩ k =
      reservations (h' ::ₘ others) k := by
    have hold := hw.balance k
    have hstepped := hstep.balance (k := k) hord hev fun i hi => by
      have hlt := hw.covered k
      rw [takers_cons, hi] at hlt
      exact length_map (f := fun t : LookupTableRc => t.getRefcount k) ▸ hlt.lt_length
    rw [TableSystem.refcount_cons, reservations_cons] at hold ⊢
    omega
  have hrel : ∀ t ∈ m'.releasedTables, ∀ k, t.getRefcount k = 0 := fun t ht =>
    (hstep.released ht).elim (hw.released t) id
  obtain ⟨hone, hlocks⟩ := hw.locks_step hstep
  exact ⟨hone, hlocks, forall_mem_cons.mpr ⟨hstep.orderly hord, hoths⟩, hbal, hcov, hrel⟩

end

theorem step (hw : Conserved w) (hstep : TableStep w event w')
    (hev : event.lossless) : Conserved w' := by
  cases hstep with
  | call hpks => exact hw.call hpks
  | holder hh hstep =>
    obtain ⟨m, holders⟩ := w
    subst hh
    exact hw.holder hstep hev

end Conserved

theorem conserved_start : Conserved ⟨⟨[], [], []⟩, 0⟩ where
  writers_le := Nat.zero_le 1
  locks := .inl rfl
  orderly h hh := absurd hh (Multiset.notMem_zero h)
  balance _ := rfl
  covered _ := covered_zero _
  released _ ht := absurd ht not_mem_nil

/-- **The run lemma**: while no reserved table is lost, reservations are conserved. -/
theorem conserved_of_run (hG : ∀ w e, G w e → e.lossless) (h : (tableMachine.guarded G).Run es w) :
    Conserved w := by
  refine h.invariant ?_ ?_
  · rintro w rfl
    exact conserved_start
  · intro es w e w' _ hw hstep
    exact hw.step hstep.2 (hG w e hstep.1)

/-- A step of the first of two holders. -/
theorem Machine.Run.first (hrun : (tableMachine.guarded G).Run es ⟨m, h ::ₘ {g}⟩)
    (hG : G ⟨m, h ::ₘ {g}⟩ event) (hstep : HolderStep (TableSystem.readers ⟨m, h ::ₘ {g}⟩)
      (TableSystem.writers ⟨m, h ::ₘ {g}⟩) m h event m' h') :
    (tableMachine.guarded G).Run (es ++ [event]) ⟨m', h' ::ₘ {g}⟩ :=
  hrun.guardedStep (.holder rfl hstep) hG

/-- The second holder comes first. -/
theorem Machine.Run.swap (hrun : (tableMachine.guarded G).Run es ⟨m, h ::ₘ {g}⟩) :
    (tableMachine.guarded G).Run es ⟨m, g ::ₘ {h}⟩ := by
  have hswap : h ::ₘ {g} = g ::ₘ {h} := Multiset.pair_comm h g
  rwa [hswap] at hrun

namespace TablesExample

/-- Has pubkey 1, reserved once. -/
def table (tableAddress : Pubkey) : LookupTableRc := .init tableAddress [1]

/-- Found pubkey 1 in no table. -/
def waiting : Holder := ⟨[], .storing [1] 0⟩

def holding (tableAddress : Pubkey) : Holder := ⟨[(1, tableAddress)], .holding⟩

section Runs

variable {G : TableSystem → TableEvent → Prop} (hqt : ∀ w, G w .quiet)

include hqt

theorem run_waiting :
    ∃ es, (tableMachine.guarded G).Run es ⟨⟨[], [], []⟩, waiting ::ₘ {waiting}⟩ := by
  have hstart : (tableMachine.guarded G).Run [] ⟨⟨[], [], []⟩, 0⟩ := .start rfl
  have hcall := hstart.guardedStep (.call (nodup_singleton 1)) (hqt _)
  have hcs : (tableMachine.guarded G).Run _
      ⟨⟨[], [], []⟩, ⟨[], .reserving [1] []⟩ ::ₘ {⟨[], .reserving [1] []⟩}⟩ :=
    hcall.guardedStep (.call (nodup_singleton 1)) (hqt _)
  exact ⟨_, hcs.first (hqt _) (.lockReserve rfl)
    |>.first (hqt _) .reserveNone |>.first (hqt _) .checkAuthority
    |>.swap.first (hqt _) (.lockReserve rfl)
    |>.first (hqt _) .reserveNone |>.first (hqt _) .checkAuthority⟩

variable (hstor : ∀ w : TableSystem, (∀ t ∈ w.tables, t.tableAddress = 7) → G w (.stored 7 [1]))

include hstor

/-- One of the two has created a table. -/
theorem run_created : ∃ es, (tableMachine.guarded G).Run es
    ⟨⟨[table 7], [], [7]⟩, holding 7 ::ₘ {waiting}⟩ := by
  obtain ⟨_, hrun⟩ := run_waiting hqt
  exact ⟨_, hrun.first (hqt _) (.noTable (by decide) ⟨rfl, rfl⟩ nofun)
    |>.first (hqt _) (.openNew ⟨rfl, rfl⟩ nofun)
    |>.first (hstor _ (by decide)) (@HolderStep.created _ _ _ _ _ _ _ 7 not_mem_nil)
    |>.first (hqt _) .done⟩

/-- The other then fails to extend it, and creates one of its own. -/
theorem run_split (hspl : ∀ w, G w (.stored 8 [1])) : ∃ es, (tableMachine.guarded G).Run es
    ⟨⟨[(table 7).markNonExtendable, table 8], [], [7, 8]⟩, holding 8 ::ₘ {holding 7}⟩ := by
  obtain ⟨_, hrun⟩ := run_created hqt hstor
  exact ⟨_, hrun.swap.first (hqt _) (.lockExtend (by decide) ⟨rfl, rfl⟩ rfl (by decide))
    |>.first (hqt _) (.extendFailed true)
    |>.first (hqt _) (.reconcileFailed (show [table 7] = [] ++ [table 7] from rfl))
    |>.first (hqt _) (.openNew ⟨rfl, rfl⟩ (by decide))
    |>.first (hspl _) (@HolderStep.created _ _ _ _ _ _ _ 8 (by decide))
    |>.first (hqt _) .done⟩

end Runs

end TablesExample

/-- **Reference counts are conserved**: in every run in which no cancelled drain loses a table with
a reservation, the counts of a pubkey add up to the reservations that were granted and not released;
and a table that was released has none. -/
theorem refcounts_conserved {es : List TableEvent} {w : TableSystem}
    (h : (tableMachine.guarded fun _ e => e.lossless).Run es w) :
    (∀ k, w.refcount k = reservations w.holders k) ∧
      ∀ t ∈ w.mania.releasedTables, ∀ k, t.getRefcount k = 0 := by
  have hcons := conserved_of_run (fun _ _ hG => hG) h
  exact ⟨hcons.balance, hcons.released⟩

open TablesExample in
/-- Two tables have pubkey 1, each with one reservation of it. -/
theorem refcounts_conserved_split : ∃ es w,
    (tableMachine.guarded fun _ e => e.lossless).Run es w ∧ w.refcount 1 = 2 ∧
      reservations w.holders 1 = 2 := by
  obtain ⟨es, hrun⟩ := run_split (G := fun _ e => e.lossless) (fun _ => rfl) (fun _ _ => rfl)
    fun _ => rfl
  refine ⟨es, _, hrun, by decide, ?_⟩
  rw [← (refcounts_conserved hrun).1 1]
  decide

open TablesExample in
/-- **A cancelled drain loses tables in use.**  The first holder gives its reservation back; the
drain waits for the released tables and is cancelled.  The reservation of the other is counted
nowhere. -/
theorem refcounts_lost : ∃ es w, tableMachine.Run es w ∧ w.refcount 1 = 0 ∧
    reservations w.holders 1 = 1 := by
  obtain ⟨_, hrun⟩ := run_split (G := fun _ _ => True) (fun _ => trivial) (fun _ _ => trivial)
    fun _ => trivial
  have hcanc := hrun.swap.first trivial (.release (.refl [1]))
    |>.first trivial (.lockRelease rfl)
    |>.first trivial (@HolderStep.releaseHit _ _ _ _ _ _ _ _ [] _ rfl rfl)
    |>.first trivial (.lockDrain ⟨rfl, rfl⟩) |>.first trivial (.cancelDrain (by decide))
  exact ⟨_, _, hcanc.of_guarded, by decide, by decide⟩

end Magicblock
