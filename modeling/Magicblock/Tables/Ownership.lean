import Magicblock.Tables.Conservation

/-!
# Tables/Ownership — the table of a reservation stays active

A release takes from the first table that counts a reservation of the pubkey.  As long as no pubkey
is in two tables, that is the table the holder reserved in: the counts of a table are then the
reservations that were taken in it, and a table without any is nobody's (`Placed.sum_getRefcount`).
A pubkey gets into a second table when its holder has looked for it before another put it into the
first.
-/

namespace Magicblock

open RefcountedPubkeys

open List (mem_append_right mem_cons_self mem_singleton)
open Multiset (coe_add coe_eq_coe coe_nil cons_add forall_mem_cons map_cons mem_add mem_coe
  mem_cons mem_cons_of_mem mem_cons_self mem_map nodup_cons notMem_zero)

/-! ### Pubkeys of a table -/

namespace RefcountedPubkeys

variable {entries : RefcountedPubkeys}

theorem mem_insertReserved : k ∈ entries.insertReserved pk ↔ k = pk ∨ k ∈ entries := by
  rw [insertReserved]
  cases entries.lookup pk <;> exact AList.mem_insert entries

theorem mem_insertUnreserved : k ∈ entries.insertUnreserved pk ↔ k = pk ∨ k ∈ entries := by
  rw [insertUnreserved]
  cases hlook : entries.lookup pk with
  | none => exact AList.mem_insert entries
  | some =>
    have hmem : pk ∈ entries := AList.lookup_isSome.mp (hlook ▸ rfl)
    exact ⟨.inr, fun h => h.elim (fun hk => hk ▸ hmem) id⟩

/-- Pubkeys that are inserted one by one. -/
theorem mem_foldl (hf : ∀ {entries : RefcountedPubkeys} {pk : Pubkey},
      k ∈ f entries pk ↔ k = pk ∨ k ∈ entries) (pks : List Pubkey) :
    k ∈ pks.foldl f entries ↔ k ∈ pks ∨ k ∈ entries := by
  induction pks generalizing entries with
  | nil => exact (or_iff_right List.not_mem_nil).symm
  | cons pk pks ih => rw [List.foldl_cons, ih, hf, List.mem_cons, or_left_comm, or_assoc]

end RefcountedPubkeys

namespace LookupTableRc

variable {t t' : LookupTableRc} {k : Pubkey}

theorem containsKey_iff : t.containsKey k ↔ k ∈ t.pubkeys := AList.lookup_isSome

variable {pks : List Pubkey}

theorem containsKey_init {tableAddress : Pubkey} :
    (init tableAddress pks).containsKey k ↔ k ∈ pks := by
  rw [containsKey_iff]
  exact (mem_foldl (AList.mem_insert _) pks).trans (or_iff_left (AList.notMem_empty k))

theorem containsKey_extend : (t.extend pks).containsKey k ↔ k ∈ pks ∨ t.containsKey k := by
  rw [containsKey_iff, containsKey_iff]
  exact mem_foldl mem_insertReserved pks

theorem containsKey_reconcileWithChain :
    (t.reconcileWithChain pks).containsKey k ↔ k ∈ pks ∨ t.containsKey k := by
  rw [containsKey_iff, containsKey_iff]
  exact mem_foldl mem_insertUnreserved pks

/-- Only a pubkey of the table is counted. -/
theorem getRefcount_of_not_containsKey (h : ¬ t.containsKey k) : t.getRefcount k = 0 := by
  rw [containsKey_iff, ← AList.lookup_eq_none] at h
  exact getRefcount_of_lookup_none h

/-- Only the counts differ, or whether the table can be extended. -/
structure SameKeys (t t' : LookupTableRc) : Prop where
  tableAddress : t'.tableAddress = t.tableAddress
  containsKey (k : Pubkey) : t'.containsKey k ↔ t.containsKey k

theorem SameKeys.refl (t : LookupTableRc) : SameKeys t t := ⟨rfl, fun _ => .rfl⟩

theorem SameKeys.trans (h : SameKeys t t') (h' : SameKeys t' t'') : SameKeys t t'' :=
  ⟨h'.tableAddress.trans h.tableAddress, fun k => (h'.containsKey k).trans (h.containsKey k)⟩

/-- The count of a pubkey is changed. -/
theorem sameKeys_insert (h : t.pubkeys.lookup pk = some refcount) :
    SameKeys t { t with pubkeys := t.pubkeys.insert pk refcount' } := by
  have hmem : pk ∈ t.pubkeys := AList.lookup_isSome.mp (h ▸ rfl)
  refine ⟨rfl, fun k => ?_⟩
  rw [containsKey_iff, containsKey_iff, AList.mem_insert]
  exact ⟨fun hk => hk.elim (fun hk => hk ▸ hmem) id, .inr⟩

theorem sameKeys_of_reservePubkey (h : t.reservePubkey pk = some t') :
    SameKeys t t' ∧ t.containsKey pk := by
  obtain ⟨pks, hrsv, rfl⟩ := Option.map_eq_some_iff.mp h
  obtain ⟨refcount, hlook, rfl⟩ := Option.map_eq_some_iff.mp hrsv
  exact ⟨sameKeys_insert hlook, Option.isSome_of_eq_some hlook⟩

theorem sameKeys_of_releasePubkey (h : t.releasePubkey pk = some t') : SameKeys t t' := by
  obtain ⟨pks, hrel, rfl⟩ := Option.map_eq_some_iff.mp h
  rw [release] at hrel
  split at hrel
  next hlook =>
    cases hrel
    exact sameKeys_insert hlook
  next => cases hrel

theorem sameKeys_markAfterError (action : ExtendTableErrorAction) (t : LookupTableRc) :
    SameKeys t (markAfterError action t) := by
  rw [markAfterError]
  split_ifs <;> exact ⟨rfl, fun _ => .rfl⟩

theorem sameKeys_filterPubkeysPresent (t : LookupTableRc) (pks : List Pubkey) :
    SameKeys t (t.filterPubkeysPresent pks).1 ∧
      ∀ k ∈ (t.filterPubkeysPresent pks).2.1, t.containsKey k := by
  induction pks generalizing t with
  | nil => exact ⟨.refl t, fun _ h => absurd h List.not_mem_nil⟩
  | cons pk pks ih =>
    rw [filterPubkeysPresent]
    cases hrsv : t.reservePubkey pk with
    | none => exact ih t
    | some t' =>
      obtain ⟨hsame, hpk⟩ := sameKeys_of_reservePubkey hrsv
      obtain ⟨hrest, hgran⟩ := ih t'
      refine ⟨hsame.trans hrest, List.forall_mem_cons.mpr ⟨hpk, fun k hk => ?_⟩⟩
      exact (hsame.containsKey k).mp (hgran k hk)

/-- The table after a failed extend transaction has the pubkeys that it has on the chain. -/
theorem sameKeys_markAfterError_of_filter
    (h : t.filterPubkeysPresent pks = (t', granted, remaining)) :
    SameKeys t (markAfterError action t') ∧ ∀ k ∈ granted, t.containsKey k := by
  have hfilt := sameKeys_filterPubkeysPresent t pks
  rw [h] at hfilt
  exact ⟨hfilt.1.trans (sameKeys_markAfterError action t'), hfilt.2⟩

end LookupTableRc

/-! ### Where pubkeys are -/

/-- The step puts a pubkey into a table. -/
def TableEvent.Puts (event : TableEvent) (tableAddress k : Pubkey) : Prop :=
  ∃ pubkeys, event = .stored tableAddress pubkeys ∧ k ∈ pubkeys

/-- The addresses of the tables, and of those that were released. -/
def addressesOf (m : TableMania) (tables : Multiset LookupTableRc) : Multiset Pubkey :=
  (tables + m.releasedTables).map (·.tableAddress)

/-- **What a step does to the tables**, those that a drain has taken out included. -/
inductive TablesMove (event : TableEvent) (m m' : TableMania)
    (tables tables' : Multiset LookupTableRc) : Prop
  /-- Counts a reservation in a table, or puts pubkeys into it. -/
  | change {rest : Multiset LookupTableRc} (hbef : tables = t ::ₘ rest)
      (haft : tables' = t' ::ₘ rest) (haddr : t'.tableAddress = t.tableAddress)
      (hkeeps : ∀ k, t.containsKey k → t'.containsKey k)
      (horig : ∀ k, t'.containsKey k → t.containsKey k ∨ event.Puts t.tableAddress k)
      (hrel : m'.releasedTables = m.releasedTables) (haddrs : m'.addresses = m.addresses)
  | create (haft : tables' = t ::ₘ tables) (hnew : t.tableAddress ∉ m.addresses)
      (horig : ∀ k, t.containsKey k → event.Puts t.tableAddress k)
      (hrel : m'.releasedTables = m.releasedTables)
      (haddrs : m'.addresses = m.addresses ++ [t.tableAddress])
  | retire (hbef : tables = t ::ₘ tables') (hfree : t.hasReservations = false)
      (hrel : m'.releasedTables = m.releasedTables ++ [t])
      (haddrs : m'.addresses = m.addresses)
  | lose (hbef : tables = lost + tables') (hfree : ∀ t ∈ lost, t.hasReservations = false)
      (hrel : m'.releasedTables = m.releasedTables) (haddrs : m'.addresses = m.addresses)

namespace TablesMove

theorem of_eq (htbls : tables = tables') (hrel : m'.releasedTables = m.releasedTables)
    (haddrs : m'.addresses = m.addresses) : TablesMove event m m' tables tables' :=
  .lose (htbls.trans (zero_add tables').symm) (fun t ht => absurd ht (notMem_zero t)) hrel haddrs

theorem of_sameKeys
    (hbef : tables = t ::ₘ rest) (haft : tables' = t' ::ₘ rest) (hsame : t.SameKeys t')
    (hrel : m'.releasedTables = m.releasedTables) (haddrs : m'.addresses = m.addresses) :
    TablesMove event m m' tables tables' :=
  .change hbef haft hsame.tableAddress (fun k => (hsame.containsKey k).mpr)
    (fun k hk => .inl ((hsame.containsKey k).mp hk)) hrel haddrs

variable (h : TablesMove event m m' tables tables')

include h

/-- Other tables stay. -/
theorem frame : TablesMove event m m' (tables + others) (tables' + others) := by
  cases h with
  | change hbef haft haddr hkeeps horig hrel haddrs =>
    subst hbef haft
    exact .change (cons_add ..) (cons_add ..) haddr hkeeps horig hrel haddrs
  | create haft hnew horig hrel haddrs =>
    subst haft
    exact .create (cons_add ..) hnew horig hrel haddrs
  | retire hbef hfree hrel haddrs =>
    subst hbef
    exact .retire (cons_add ..) hfree hrel haddrs
  | lose hbef hfree hrel haddrs =>
    subst hbef
    exact .lose (add_assoc ..) hfree hrel haddrs

/-- **A pubkey is in a table because it was, or because it was put there.** -/
theorem origin (ht : t ∈ tables') (hk : t.containsKey k) :
    (∃ s ∈ tables, s.tableAddress = t.tableAddress ∧ s.containsKey k) ∨
      event.Puts t.tableAddress k := by
  cases h with
  | change hbef haft haddr hkeeps horig =>
    subst hbef haft
    rcases mem_cons.mp ht with rfl | ht
    · refine (horig k hk).imp (fun hold => ?_) fun hputs => haddr ▸ hputs
      exact ⟨_, mem_cons_self .., haddr.symm, hold⟩
    · exact .inl ⟨t, mem_cons_of_mem ht, rfl, hk⟩
  | create haft hnew horig =>
    subst haft
    rcases mem_cons.mp ht with rfl | ht
    · exact .inr (horig k hk)
    · exact .inl ⟨t, ht, rfl, hk⟩
  | retire hbef => exact .inl ⟨t, hbef ▸ mem_cons_of_mem ht, rfl, hk⟩
  | lose hbef => exact .inl ⟨t, hbef ▸ mem_add.mpr (.inr ht), rfl, hk⟩

/-- **Only a table without reservations goes**; the others keep their pubkeys. -/
theorem persists (ht : t ∈ tables) :
    (∃ t' ∈ tables', t'.tableAddress = t.tableAddress ∧ ∀ k, t.containsKey k → t'.containsKey k) ∨
      t.hasReservations = false := by
  cases h with
  | change hbef haft haddr hkeeps =>
    subst hbef haft
    rcases mem_cons.mp ht with rfl | ht
    · exact .inl ⟨_, mem_cons_self .., haddr, hkeeps⟩
    · exact .inl ⟨t, mem_cons_of_mem ht, rfl, fun _ => id⟩
  | create haft => exact .inl ⟨t, haft ▸ mem_cons_of_mem ht, rfl, fun _ => id⟩
  | retire hbef hfree =>
    rcases mem_cons.mp (hbef ▸ ht) with rfl | ht
    · exact .inr hfree
    · exact .inl ⟨t, ht, rfl, fun _ => id⟩
  | lose hbef hfree =>
    rcases mem_add.mp (hbef ▸ ht) with ht | ht
    · exact .inr (hfree t ht)
    · exact .inl ⟨t, ht, rfl, fun _ => id⟩

/-- A new table has a new address. -/
theorem addresses :
    addressesOf m' tables' ≤ addressesOf m tables ∧ m'.addresses = m.addresses ∨
      ∃ a ∉ m.addresses, addressesOf m' tables' = a ::ₘ addressesOf m tables ∧
        m'.addresses = m.addresses ++ [a] := by
  simp only [addressesOf]
  cases h with
  | change hbef haft haddr _ _ hrel haddrs =>
    refine .inl ⟨le_of_eq ?_, haddrs⟩
    rw [hbef, haft, hrel, cons_add, cons_add, map_cons, map_cons, haddr]
  | create haft hnew _ hrel haddrs =>
    refine .inr ⟨_, hnew, ?_, haddrs⟩
    rw [haft, hrel, cons_add, map_cons]
  | @retire t hbef _ hrel haddrs =>
    refine .inl ⟨le_of_eq ?_, haddrs⟩
    rw [hbef, hrel, ← coe_add, Multiset.coe_singleton, ← add_assoc,
      add_comm _ ({t} : Multiset LookupTableRc), Multiset.singleton_add, cons_add]
  | lose hbef _ hrel haddrs =>
    refine .inl ⟨Multiset.map_le_map ?_, haddrs⟩
    rw [hbef, hrel, add_assoc]
    exact Multiset.le_add_left ..

end TablesMove

/-- **Each table has an address of its own, and no pubkey is in two.** -/
structure Placed (m : TableMania) (tables : Multiset LookupTableRc) : Prop where
  nodup : (addressesOf m tables).Nodup
  created : ∀ a ∈ addressesOf m tables, a ∈ m.addresses
  alone : ∀ t ∈ tables, ∀ t' ∈ tables, ∀ k, t.containsKey k → t'.containsKey k →
    t.tableAddress = t'.tableAddress

namespace Placed

/-- All reservations of a pubkey are counted in the table that has it. -/
theorem sum_getRefcount (h : Placed m tables) (ht : t ∈ tables) (hk : t.containsKey k) :
    (tables.map (·.getRefcount k)).sum = t.getRefcount k := by
  obtain ⟨rest, rfl⟩ := Multiset.exists_cons_of_mem ht
  have hrest : (rest.map (·.getRefcount k)).sum = 0 := by
    refine Multiset.sum_eq_zero fun count hcnt => ?_
    obtain ⟨s, hs, rfl⟩ := mem_map.mp hcnt
    refine LookupTableRc.getRefcount_of_not_containsKey fun hsk => ?_
    have haddr := h.alone t ht s (mem_cons_of_mem hs) k hk hsk
    have hnd := h.nodup
    rw [addressesOf, cons_add, map_cons, nodup_cons] at hnd
    exact hnd.1 (mem_map.mpr ⟨s, mem_add.mpr (.inl hs), haddr.symm⟩)
  rw [map_cons, Multiset.sum_cons, hrest, add_zero]

/-- A step keeps pubkeys apart, if it puts none into a second table. -/
theorem move (h : Placed m tables) (hmove : TablesMove event m m' tables tables')
    (hputs : ∀ a k, event.Puts a k → ∀ t ∈ tables, t.containsKey k → t.tableAddress = a) :
    Placed m' tables' := by
  obtain ⟨hnd, hcre⟩ : (addressesOf m' tables').Nodup ∧
      ∀ a ∈ addressesOf m' tables', a ∈ m'.addresses := by
    rcases hmove.addresses with ⟨hle, hsame⟩ | ⟨a, hnew, hcons, happ⟩
    · exact ⟨Multiset.nodup_of_le hle h.nodup, fun a ha =>
        hsame ▸ h.created a (Multiset.mem_of_le hle ha)⟩
    · rw [hcons, happ]
      refine ⟨nodup_cons.mpr ⟨mt (h.created a) hnew, h.nodup⟩, fun b hb => ?_⟩
      rw [List.mem_append, mem_singleton]
      exact (mem_cons.mp hb).symm.imp_left (h.created b)
  refine ⟨hnd, hcre, fun t ht t' ht' k hk hk' => ?_⟩
  -- one of the tables had the pubkey before, or the step put it into both
  rcases hmove.origin ht hk with ⟨s, hs, hst, hsk⟩ | hput
  · rcases hmove.origin ht' hk' with ⟨s', hs', hst', hsk'⟩ | hput'
    · rw [← hst, ← hst']
      exact h.alone s hs s' hs' k hsk hsk'
    · rw [← hst]
      exact hputs _ k hput' s hs hsk
  · rcases hmove.origin ht' hk' with ⟨s', hs', hst', hsk'⟩ | hput'
    · rw [← hst']
      exact (hputs _ k hput s' hs' hsk').symm
    · obtain ⟨_, rfl, _⟩ := hput
      obtain ⟨_, heq, _⟩ := hput'
      exact (TableEvent.stored.inj heq).1

end Placed

/-! ### Steps of a holder -/

theorem mem_record (h : reservation ∈ record r tableAddress pks) :
    reservation ∈ r ∨ reservation.1 ∈ pks ∧ reservation.2 = tableAddress := by
  induction pks generalizing r with
  | nil => exact .inl h
  | cons pk pks ih =>
    rcases ih h with hmem | ⟨hmem, haddr⟩
    · beta_reduce at hmem
      split_ifs at hmem
      · exact .inl hmem
      · rcases List.mem_append.mp hmem with hmem | hmem
        · exact .inl hmem
        · rw [mem_singleton.mp hmem]
          exact .inr ⟨mem_cons_self, rfl⟩
    · exact .inr ⟨List.mem_cons_of_mem _ hmem, haddr⟩

namespace HolderStep

open LookupTableRc

/-- **What a step of a holder does to the tables.** -/
theorem moves (hstep : HolderStep readers writers m h event m' h') (hev : event.lossless) :
    TablesMove event m m' (m.activeTables + h.phase.drained : Multiset LookupTableRc)
      (m'.activeTables + h'.phase.drained : Multiset LookupTableRc) := by
  have hmid {t : LookupTableRc} {before after : List LookupTableRc} :
      ((before ++ t :: after : List LookupTableRc) : Multiset LookupTableRc) +
        ([] : List LookupTableRc) = t ::ₘ (before ++ after : List LookupTableRc) := by
    rw [coe_nil, add_zero]
    exact coe_eq_coe.mpr List.perm_middle
  cases hstep with
  | reserveHit htbl hhit =>
    rw [htbl]
    exact .of_sameKeys hmid hmid (sameKeys_of_reservePubkey hhit).1 rfl rfl
  | extended htbl =>
    rw [htbl]
    refine .change hmid hmid rfl (fun k hk => containsKey_extend.mpr (.inr hk)) ?_ rfl rfl
    exact fun k hk => (containsKey_extend.mp hk).symm.imp_right fun hk => ⟨_, rfl, hk⟩
  | reconciled chainPubkeys htbl hfilt =>
    obtain ⟨hsame, -⟩ := sameKeys_markAfterError_of_filter hfilt
    rw [htbl, (idle_afterExtendError ..).2.1]
    refine .change hmid hmid hsame.tableAddress (fun k hk => ?_) (fun k hk => ?_) rfl rfl
    · exact (hsame.containsKey k).mpr (containsKey_reconcileWithChain.mpr (.inr hk))
    · refine (containsKey_reconcileWithChain.mp ((hsame.containsKey k).mp hk)).symm.imp_right ?_
      exact fun hk => ⟨_, rfl, hk⟩
  | reconcileFailed htbl =>
    rw [htbl, (idle_afterExtendError ..).2.1]
    exact .of_sameKeys hmid hmid (sameKeys_markAfterError _ _) rfl rfl
  | created haddr =>
    refine .create ?_ haddr (fun k hk => ⟨_, rfl, containsKey_init.mp hk⟩) rfl rfl
    exact hmid.trans (congrArg _ (by rw [List.append_nil]; exact (add_zero _).symm))
  | cancelReserve hawas =>
    exact .of_eq ((idle_of_awaitsInReserve (k := 0) hawas).1 ▸ rfl) rfl rfl
  | releaseHit htbl hhit =>
    rw [htbl]
    exact .of_sameKeys hmid hmid (sameKeys_of_releasePubkey hhit) rfl rfl
  | lockDrain | restore =>
    refine .of_eq ?_ rfl rfl
    simp [HolderPhase.drained]
  | @keep r t tables stillActive hrsv =>
    have hperm : (t :: (tables ++ stillActive)).Perm (tables ++ (stillActive ++ [t])) := by
      rw [← List.append_assoc]
      exact (List.perm_append_singleton t _).symm
    exact .of_eq (congrArg _ (coe_eq_coe.mpr hperm)) rfl rfl
  | @retire r t tables stillActive hfree =>
    exact .retire (Multiset.add_cons t _ (tables ++ stillActive : List LookupTableRc)) hfree rfl rfl
  | cancelDrain =>
    refine .lose ?_ (fun t ht => hasReservations_of_lossless hev (mem_coe.mp ht)) rfl rfl
    exact (add_comm ..).trans (congrArg _ (add_zero _).symm)
  | _ => exact .of_eq rfl rfl rfl

/-- **A reservation is granted in a table that has the pubkey.** -/
theorem grants (hstep : HolderStep readers writers m h event m' h')
    (hmem : reservation ∈ h'.reserved) : reservation ∈ h.reserved ∨ ∃ t ∈ m'.activeTables,
      t.tableAddress = reservation.2 ∧ t.containsKey reservation.1 := by
  cases hstep with
  | reserveHit htbl hhit =>
    obtain ⟨hsame, hpk⟩ := sameKeys_of_reservePubkey hhit
    refine (mem_record hmem).imp_right fun ⟨hkey, haddr⟩ => ?_
    rw [mem_singleton.mp hkey, haddr]
    exact ⟨_, mem_append_right _ mem_cons_self, hsame.tableAddress, (hsame.containsKey _).mpr hpk⟩
  | extended htbl =>
    refine (mem_record hmem).imp_right fun ⟨hkey, haddr⟩ => ?_
    exact ⟨_, mem_append_right _ mem_cons_self, haddr.symm, containsKey_extend.mpr (.inl hkey)⟩
  | reconciled chainPubkeys htbl hfilt =>
    obtain ⟨hsame, hgran⟩ := sameKeys_markAfterError_of_filter hfilt
    refine (mem_record hmem).imp_right fun ⟨hkey, haddr⟩ => ?_
    exact ⟨_, mem_append_right _ mem_cons_self, hsame.tableAddress.trans haddr.symm,
      (hsame.containsKey _).mpr (hgran _ hkey)⟩
  | created =>
    refine (mem_record hmem).imp_right fun ⟨hkey, haddr⟩ => ?_
    exact ⟨_, mem_append_right _ mem_cons_self, haddr.symm, containsKey_init.mpr hkey⟩
  | releaseHit | releaseNone => exact .inl (List.mem_of_mem_filter hmem)
  | _ => exact .inl hmem

end HolderStep

/-! ### The system -/

/-- **A step puts a pubkey into a table only if no other active table has it.** -/
def TableEvent.Exclusive (w : TableSystem) (event : TableEvent) : Prop :=
  ∀ a k, event.Puts a k → ∀ t ∈ w.tables, t.containsKey k → t.tableAddress = a

/-- Each reservation is in an active table. -/
structure Owned (w : TableSystem) : Prop where
  placed : Placed w.mania w.tables
  owned : ∀ h ∈ w.holders, ∀ reservation ∈ h.reserved, ∃ t ∈ w.tables,
    t.tableAddress = reservation.2 ∧ t.containsKey reservation.1

theorem reservations_pos (hh : h ∈ holders) (hk : k ∈ h.keys) : 0 < reservations holders k := by
  obtain ⟨others, rfl⟩ := Multiset.exists_cons_of_mem hh
  rw [reservations_cons]
  exact Nat.add_pos_left (List.count_pos_iff.mpr hk) _

namespace Owned

theorem call {m : TableMania} {holders : Multiset Holder} (hw : Owned ⟨m, holders⟩)
    (pks : List Pubkey) : Owned ⟨m, ⟨[], .reserving pks []⟩ ::ₘ holders⟩ := by
  have htbls : TableSystem.tables ⟨m, ⟨[], .reserving pks []⟩ ::ₘ holders⟩ =
      TableSystem.tables ⟨m, holders⟩ := by
    rw [TableSystem.tables, drainedTables_cons]
    exact congrArg _ (zero_add (drainedTables holders))
  refine ⟨htbls ▸ hw.placed, forall_mem_cons.mpr ⟨fun _ h => (by cases h), ?_⟩⟩
  rw [htbls]
  exact hw.owned

theorem holder (hw : Owned ⟨m, h ::ₘ others⟩) (hcons : Conserved ⟨m, h ::ₘ others⟩)
    (hstep : HolderStep readers writers m h event m' h') (hev : event.lossless)
    (hputs : event.Exclusive ⟨m, h ::ₘ others⟩) : Owned ⟨m', h' ::ₘ others⟩ := by
  have hmove : TablesMove event m m' (TableSystem.tables ⟨m, h ::ₘ others⟩)
      (TableSystem.tables ⟨m', h' ::ₘ others⟩) := by
    rw [TableSystem.tables, TableSystem.tables, drainedTables_cons, drainedTables_cons, ← add_assoc,
      ← add_assoc]
    exact (hstep.moves hev).frame
  -- a table that goes counts no reservation, so it has no pubkey that anyone has reserved
  have hstay : ∀ g ∈ h ::ₘ others, ∀ reservation ∈ g.reserved,
      ∃ t ∈ TableSystem.tables ⟨m', h' ::ₘ others⟩,
        t.tableAddress = reservation.2 ∧ t.containsKey reservation.1 := by
    intro g hg reservation hres
    obtain ⟨t, ht, haddr, hkey⟩ := hw.owned g hg reservation hres
    rcases hmove.persists ht with ⟨t', ht', haddr', hkeeps⟩ | hfree
    · exact ⟨t', ht', haddr'.trans haddr, hkeeps _ hkey⟩
    · have hpos := reservations_pos hg (List.mem_map_of_mem (f := Prod.fst) hres)
      have hcnt : TableSystem.refcount ⟨m, h ::ₘ others⟩ reservation.1 = 0 :=
        (hw.placed.sum_getRefcount ht hkey).trans
          (LookupTableRc.getRefcount_of_not_hasReservations hfree _)
      rw [← hcons.balance, hcnt] at hpos
      exact absurd hpos (lt_irrefl 0)
  refine ⟨hw.placed.move hmove hputs, forall_mem_cons.mpr ⟨fun reservation hmem => ?_, ?_⟩⟩
  · rcases hstep.grants hmem with hold | ⟨t, ht, hgran⟩
    · exact hstay h (mem_cons_self ..) reservation hold
    · exact ⟨t, mem_add.mpr (.inl (mem_coe.mpr ht)), hgran⟩
  · exact fun g hg => hstay g (mem_cons_of_mem hg)

theorem step (hw : Owned w) (hcons : Conserved w)
    (hstep : TableStep w event w') (hev : event.lossless) (hputs : event.Exclusive w) :
    Owned w' := by
  cases hstep with
  | call => exact hw.call _
  | holder hh hstep =>
    obtain ⟨m, holders⟩ := w
    subst hh
    exact hw.holder hcons hstep hev hputs

end Owned

theorem owned_start : Owned ⟨⟨[], [], []⟩, 0⟩ where
  placed := ⟨Multiset.nodup_zero, fun a ha => absurd ha (notMem_zero a),
    fun t ht => absurd ht (notMem_zero t)⟩
  owned h hh := absurd hh (notMem_zero h)

theorem owned_of_run
    (h : (tableMachine.guarded fun w e => e.lossless ∧ e.Exclusive w).Run es w) : Owned w := by
  refine h.invariant ?_ ?_
  · rintro w rfl
    exact owned_start
  · intro es w e w' hrun hw hstep
    have hcons := conserved_of_run (fun _ _ hG => hG.1) hrun
    exact hw.step hcons hstep.2 hstep.1.1 hstep.1.2

/-- **The table of a reservation stays active**: in every run in which pubkeys are put only into
tables when no other active table has them, and no cancelled drain loses a table with a reservation.
-/
theorem reserved_table_active {es : List TableEvent} {w : TableSystem}
    (h : (tableMachine.guarded fun w e => e.lossless ∧ e.Exclusive w).Run es w) {holder : Holder}
    (hhold : holder ∈ w.holders) {k a : Pubkey} (hrsv : (k, a) ∈ holder.reserved) :
    (∃ t ∈ w.tables, t.tableAddress = a ∧ t.containsKey k) ∧
      ∀ t ∈ w.mania.releasedTables, t.tableAddress ≠ a := by
  have hown := owned_of_run h
  obtain ⟨t, ht, haddr, hkey⟩ := hown.owned holder hhold (k, a) hrsv
  refine ⟨⟨t, ht, haddr, hkey⟩, fun t' ht' haddr' => ?_⟩
  have hnd := hown.placed.nodup
  rw [addressesOf, Multiset.map_add, Multiset.nodup_add] at hnd
  exact Multiset.disjoint_left.mp hnd.2.2 (mem_map.mpr ⟨t, ht, haddr⟩)
    (mem_map.mpr ⟨t', mem_coe.mpr ht', haddr'⟩)

namespace TablesExample

abbrev alone (w : TableSystem) (e : TableEvent) : Prop := e.lossless ∧ e.Exclusive w

theorem alone_quiet (w : TableSystem) : alone w .quiet :=
  ⟨rfl, fun _ _ ⟨_, hstor, _⟩ => by cases hstor⟩

theorem alone_stored (w : TableSystem) (hw : ∀ t ∈ w.tables, t.tableAddress = 7) :
    alone w (.stored 7 [1]) :=
  ⟨rfl, fun _ _ ⟨_, hstor, _⟩ t ht _ => (hw t ht).trans (TableEvent.stored.inj hstor).1⟩

/-- Two holders share a table. -/
theorem run_shared : ∃ es, (tableMachine.guarded alone).Run es
    ⟨⟨[(table 7).extend [1]], [], [7]⟩, holding 7 ::ₘ {holding 7}⟩ := by
  obtain ⟨_, hrun⟩ := run_created alone_quiet alone_stored
  exact ⟨_, hrun.swap.first (alone_quiet _) (.lockExtend (by decide) ⟨rfl, rfl⟩ rfl (by decide))
    |>.first (alone_stored _ (by decide)) (@HolderStep.extended _ _ _ _ _ _ (table 7) [] rfl)
    |>.first (alone_quiet _) .done⟩

end TablesExample

open TablesExample in
/-- Two holders share a table; one has given its reservation back. -/
theorem reserved_table_active_shared : ∃ es w,
    (tableMachine.guarded fun w e => e.lossless ∧ e.Exclusive w).Run es w ∧ holding 7 ∈ w.holders ∧
      w.refcount 1 = 1 ∧ (∃ t ∈ w.tables, t.tableAddress = 7 ∧ t.containsKey 1) ∧
        ∀ t ∈ w.mania.releasedTables, t.tableAddress ≠ 7 := by
  obtain ⟨_, hshare⟩ := run_shared
  have hrel := hshare.swap.first (alone_quiet _) (.release (.refl [1]))
    |>.first (alone_quiet _) (.lockRelease rfl)
    |>.first (alone_quiet _) (@HolderStep.releaseHit _ _ _ _ _ _ _ _ [] _ rfl rfl)
    |>.first (alone_quiet _) (.lockDrain ⟨rfl, rfl⟩)
    |>.first (alone_quiet _) (.keep (by decide)) |>.first (alone_quiet _) .restore
  have hhold {h : Holder} : holding 7 ∈ h ::ₘ {holding 7} :=
    mem_cons_of_mem (Multiset.mem_singleton_self _)
  exact ⟨_, _, hrel, hhold, by decide, reserved_table_active hrel hhold mem_cons_self⟩

/-- **The counter of a pubkey is its reservations.**  In these runs the active table that has it is
the only one. -/
theorem counter_eq_reservations {es : List TableEvent} {w : TableSystem}
    (h : (tableMachine.guarded fun w e => e.lossless ∧ e.Exclusive w).Run es w) :
    ∀ t ∈ w.tables, ∀ k, t.containsKey k → t.getRefcount k = reservations w.holders k ∧
      ∀ t' ∈ w.tables, t'.containsKey k → t'.tableAddress = t.tableAddress := by
  intro t ht k hk
  have hplace := (owned_of_run h).placed
  have hbal := (conserved_of_run (fun _ _ hG => hG.1) h).balance k
  exact ⟨(hplace.sum_getRefcount ht hk).symm.trans hbal,
    fun t' ht' hk' => hplace.alone t' ht' t ht k hk' hk⟩

open TablesExample in
theorem counter_eq_reservations_shared : ∃ es w,
    (tableMachine.guarded fun w e => e.lossless ∧ e.Exclusive w).Run es w ∧
      ∃ t ∈ w.tables, t.getRefcount 1 = 2 ∧ t.getRefcount 1 = reservations w.holders 1 := by
  obtain ⟨es, hrun⟩ := run_shared
  have hmem : (table 7).extend [1] ∈
      ([(table 7).extend [1]] : Multiset LookupTableRc) + 0 := by simp
  exact ⟨es, _, hrun, _, hmem, by decide, (counter_eq_reservations hrun _ hmem 1 (by decide)).1⟩

open TablesExample in
/-- **A release can take another's reservation.**  Pubkey 1 is in two tables.  The holder that
reserved it in the second gives it back, the first counts down, and is released while its holder
relies on it. -/
theorem reserved_table_released : ∃ es w holder, tableMachine.Run es w ∧ holder ∈ w.holders ∧
    (1, 7) ∈ holder.reserved ∧ ∃ t ∈ w.mania.releasedTables, t.tableAddress = 7 := by
  obtain ⟨_, hrun⟩ := run_split (G := fun _ _ => True) (fun _ => trivial) (fun _ _ => trivial)
    fun _ => trivial
  have hrel := hrun.first trivial (.release (.refl [1])) |>.first trivial (.lockRelease rfl)
    |>.first trivial (@HolderStep.releaseHit _ _ _ _ _ _ _ _ [] _ rfl rfl)
    |>.first trivial (.lockDrain ⟨rfl, rfl⟩) |>.first trivial (.retire (by decide))
    |>.first trivial (.keep (by decide)) |>.first trivial .restore
  have hhold {h : Holder} : holding 7 ∈ h ::ₘ {holding 7} :=
    mem_cons_of_mem (Multiset.mem_singleton_self _)
  exact ⟨_, _, _, hrel.of_guarded, hhold, mem_cons_self, _, mem_cons_self, rfl⟩

end Magicblock
