import Magicblock.Tables.Conservation

/-!
# Tables/Reserve — `reserve_new_pubkeys`, undisturbed

The loop that stores new pubkeys, as a function of what the chain answers, with no other holder.  It
ends for all answers (`reserveNewPubkeys_exact`): a round stores a pubkey or counts an error, and
errors are counted up to a limit.  What it reports is what it has reserved, also if it fails.
-/

namespace Magicblock

open List LookupTableRc

/-- What the chain answers in a round, whether it is asked or not. -/
structure RoundAnswers where
  /-- `none` if the extend transaction lands; otherwise, did it fail for invalid instruction data?
  -/
  extendError : Option Bool
  /-- The pubkeys of the table on the chain, `none` if they could not be read. -/
  chainPubkeys : Option (List Pubkey)
  /-- The address of a new table, `none` if it was not created. -/
  newTable : Option Pubkey

inductive TableManiaError where
  | invalidAuthority
  | extendFailed
  | createFailed
  deriving DecidableEq

/-- The loop of `reserve_new_pubkeys`.  `reserved` is the reported set, each pubkey with the place
of the table it was reserved in. -/
structure Storing where
  tables : List LookupTableRc
  remaining : List Pubkey
  extendErrors : ℕ
  reserved : List (Pubkey × ℕ)

/-- A round returns, or goes on. -/
abbrev RoundEnd := Option (Except TableManiaError Unit)

namespace Storing

def reportedKeys (s : Storing) : List Pubkey := s.reserved.map Prod.fst

/-- The last table is replaced, with reservations of `granted`. -/
def storeInLast (s : Storing) (t : LookupTableRc) (granted remaining : List Pubkey) : Storing :=
  { s with
    tables := s.tables.dropLast ++ [t]
    remaining := remaining
    reserved := s.reserved ++ granted.map (·, s.tables.length - 1) }

/-- A new table at the end, with its first pubkeys. -/
def pushTable (s : Storing) (tableAddress : Pubkey) (initialPubkeyLimit : ℕ) : Storing :=
  let stored := s.remaining.take (min initialPubkeyLimit maxEntriesAsPartOfExtend)
  { s with
    tables := s.tables ++ [.init tableAddress stored]
    remaining := s.remaining.filter (· ∉ stored)
    reserved := s.reserved ++ stored.map (·, s.tables.length) }

/-- All is stored, or the next round begins. -/
def afterRound (s : Storing) : RoundEnd × Storing :=
  (if s.remaining.isEmpty then some (.ok ()) else none, s)

/-- A table that is forced by a rejected extend begins with one pubkey. -/
def initialPubkeyLimit (forceNewTableAfter : Option Pubkey) : ℕ :=
  if forceNewTableAfter.isSome then fallbackNewTableInitPubkeys else maxEntriesAsPartOfExtend

/-- The second half of a round: a new table, unless there is one with room. -/
def openTable (answers : RoundAnswers) (forceNewTableAfter : Option Pubkey) (s : Storing) :
    RoundEnd × Storing :=
  if s.remaining.isEmpty then (some (.ok ()), s)
  else if s.tables.getLast?.any fun t => !t.isFull && forceNewTableAfter != some t.tableAddress then
    (none, s)
  else match answers.newTable with
    | none => (some (.error .createFailed), s)
    | some tableAddress =>
      (s.pushTable tableAddress (initialPubkeyLimit forceNewTableAfter)).afterRound

/-- After a failed extend: the table as it is on the chain, with reservations of what is in it. -/
def reconcile (answers : RoundAnswers) (t : LookupTableRc) (remaining : List Pubkey) :
    LookupTableRc × List Pubkey × List Pubkey :=
  answers.chainPubkeys.elim (t, [], remaining) fun chainPubkeys =>
    (t.reconcileWithChain chainPubkeys).filterPubkeysPresent remaining

/-- After the extend transaction has landed. -/
def extended (t : LookupTableRc) (s : Storing) : Storing :=
  let stored := t.storing s.remaining
  s.storeInLast (t.extend stored) stored (s.remaining.filter (· ∉ stored))

/-- The rest of a round after the extend transaction has failed. -/
def extendFailed (answers : RoundAnswers) (t : LookupTableRc) (invalidData : Bool) (s : Storing) :
    RoundEnd × Storing :=
  let action := handleExtendTableError invalidData s.extendErrors
  let (t', granted, remaining) := reconcile answers t s.remaining
  let s' := s.storeInLast (markAfterError action t') granted remaining
  match action with
  | .createNewTable => s'.openTable answers (some t.tableAddress)
  | .retry => { s' with extendErrors := s'.extendErrors + 1 }.openTable answers none
  | .returnError => (some (.error .extendFailed), s')

/-- **A round of the loop.** -/
def round (answers : RoundAnswers) (s : Storing) : RoundEnd × Storing :=
  match s.tables.getLast?.filter fun t => !t.isFull with
  | none => s.openTable answers none
  | some t =>
    match answers.extendError with
    | none => (s.extended t).afterRound
    | some invalidData => s.extendFailed answers t invalidData

/-- The loop, with fuel for its rounds; `answers n` are those of round `n`. -/
def run (answers : ℕ → RoundAnswers) :
    ℕ → ℕ → Storing → Option (Except TableManiaError Unit × Storing)
  | 0, _, _ => none
  | fuel + 1, n, s =>
    if s.remaining.isEmpty then some (.ok (), s)
    else match s.round (answers n) with
      | (some result, s') => some (result, s')
      | (none, s') => run answers fuel (n + 1) s'

end Storing

def reserveNewPubkeys (authorityMatches : Bool) (answers : ℕ → RoundAnswers) (fuel : ℕ)
    (tables : List LookupTableRc) (pubkeys : List Pubkey) :
    Option (Except TableManiaError Unit × Storing) :=
  let s : Storing := ⟨tables, pubkeys, 0, []⟩
  if authorityMatches then s.run answers fuel 0 else some (.error .invalidAuthority, s)

/-! ### Counts by place -/

/-- The reference count of a pubkey in the table at a place. -/
def refcountAt (tables : List LookupTableRc) (i : ℕ) (k : Pubkey) : ℕ :=
  tables[i]?.elim 0 (·.getRefcount k)

theorem refcountAt_append_singleton : refcountAt (tables ++ [t]) i k =
      refcountAt tables i k + if i = tables.length then t.getRefcount k else 0 := by
  rcases lt_trichotomy i tables.length with h | rfl | h
  · rw [refcountAt, getElem?_append_left h, if_neg h.ne, add_zero, refcountAt]
  · simp [refcountAt]
  · rw [refcountAt, getElem?_eq_none (by simp; omega), if_neg h.ne', refcountAt,
      getElem?_eq_none h.le]
    rfl

theorem count_map_pair (granted : List Pubkey) (place i : ℕ) (k : Pubkey) :
    (granted.map (·, place)).count (k, i) = if i = place then granted.count k else 0 := by
  split_ifs with h
  · subst h
    exact count_map_of_injective _ _ (fun _ _ heq => (Prod.mk.inj heq).1) _
  · refine count_eq_zero.mpr fun hmem => h ?_
    obtain ⟨_, -, heq⟩ := mem_map.mp hmem
    exact (Prod.mk.inj heq).2.symm

namespace Storing

/-- **What is reported is what was reserved**, and the rest is still to be stored. -/
structure Exact (tables : List LookupTableRc) (pubkeys : List Pubkey) (s : Storing) : Prop where
  perm : (s.reportedKeys ++ s.remaining).Perm pubkeys
  counts (i : ℕ) (k : Pubkey) :
    refcountAt s.tables i k = refcountAt tables i k + s.reserved.count (k, i)

variable {tables : List LookupTableRc} {pks : List Pubkey} {s : Storing}

/-- The reservations of a step: `granted` of the remaining pubkeys, at one place. -/
theorem Exact.grant (h : Exact tables pks s) (hperm : (granted ++ s'.remaining).Perm s.remaining)
    (hrsv : s'.reserved = s.reserved ++ granted.map (·, place))
    (hcounts : ∀ i k, refcountAt s'.tables i k =
      refcountAt s.tables i k + if i = place then granted.count k else 0) :
    Exact tables pks s' where
  perm := by
    have hkeys : s'.reportedKeys = s.reportedKeys ++ granted := by
      rw [reportedKeys, hrsv, map_append, map_map, reportedKeys]
      exact congrArg _ (map_id granted)
    rw [hkeys, append_assoc]
    exact (hperm.append_left _).trans h.perm
  counts i k := by
    rw [hcounts, h.counts, hrsv, count_append, count_map_pair, add_assoc]

theorem Exact.storeInLast (h : Exact tables pks s)
    {granted remaining : List Pubkey} (hlast : s.tables.getLast? = some t)
    (hcnt : ∀ k, t'.getRefcount k = t.getRefcount k + granted.count k)
    (hperm : (granted ++ remaining).Perm s.remaining) :
    Exact tables pks (s.storeInLast t' granted remaining) := by
  obtain ⟨before, htbls⟩ := getLast?_eq_some_iff.mp hlast
  refine h.grant hperm rfl fun i k => ?_
  change refcountAt (s.tables.dropLast ++ [t']) i k = _
  rw [htbls, dropLast_concat, refcountAt_append_singleton, refcountAt_append_singleton,
    length_append, length_singleton, Nat.add_sub_cancel, add_assoc]
  split_ifs
  · rw [hcnt]
  · rfl

theorem Exact.pushTable (h : Exact tables pks s) (hnd : s.remaining.Nodup)
    (tableAddress : Pubkey) (limit : ℕ) : Exact tables pks (s.pushTable tableAddress limit) := by
  have hsub := take_sublist (min limit maxEntriesAsPartOfExtend) s.remaining
  refine h.grant (perm_append_filter hnd hsub) rfl fun i k => ?_
  change refcountAt (s.tables ++ [_]) i k = _
  rw [refcountAt_append_singleton, getRefcount_init (hnd.sublist hsub)]

/-! ### Rounds -/

/-- The rounds that can still come: one for each pubkey, and one for each error. -/
def roundsLeft (s : Storing) : ℕ := s.remaining.length + (maxAllowedExtendErrors - s.extendErrors)

/-- **What a round, or half of one, can do**: it keeps the books, it returns `Ok` only if nothing
remains, and goes on only if something does. -/
structure Sound (s : Storing) (r : RoundEnd × Storing) : Prop where
  exact {tables : List LookupTableRc} {pubkeys : List Pubkey} :
    Exact tables pubkeys s → Exact tables pubkeys r.2
  ok : r.1 = some (.ok ()) → r.2.remaining = []

theorem Sound.trans (h : Sound s' r)
    (hexact : ∀ {tables pks}, Exact tables pks s → Exact tables pks s') : Sound s r :=
  ⟨fun hs => h.exact (hexact hs), h.ok⟩

theorem sound_afterRound (s : Storing) : Sound s s.afterRound where
  exact h := h
  ok h := by
    rw [afterRound] at h
    dsimp only at h
    split_ifs at h with hemp
    exact isEmpty_iff.mp hemp

theorem Exact.nodup (h : Exact tables pks s) (hpks : pks.Nodup) : s.remaining.Nodup :=
  (nodup_append'.mp (h.perm.nodup_iff.mpr hpks)).2.1

theorem initialPubkeyLimit_pos (force : Option Pubkey) : 0 < initialPubkeyLimit force := by
  rw [initialPubkeyLimit]
  split_ifs <;> decide

/-- A new table takes at least one pubkey. -/
theorem length_remaining_pushTable (hnd : s.remaining.Nodup) (hne : s.remaining ≠ [])
    (tableAddress : Pubkey) (hlim : 0 < limit) :
    (s.pushTable tableAddress limit).remaining.length < s.remaining.length := by
  have hperm := perm_append_filter hnd
    (take_sublist (min limit maxEntriesAsPartOfExtend) s.remaining)
  have hlen := hperm.length_eq
  rw [length_append, length_take] at hlen
  have hpos := length_pos_of_ne_nil hne
  have hmax : 0 < maxEntriesAsPartOfExtend := by decide
  change (s.remaining.filter _).length < _
  omega

/-- The second half of a round.  It goes on with fewer pubkeys, or as it was because the last table
has room. -/
theorem openTable_spec (hnd : s.remaining.Nodup) (answers : RoundAnswers)
    (force : Option Pubkey) : Sound s (s.openTable answers force) ∧
      ((s.openTable answers force).1 = none →
        (s.openTable answers force).2.roundsLeft < s.roundsLeft ∨
        (s.openTable answers force).2 = s ∧
          s.tables.getLast?.any fun t => !t.isFull && force != some t.tableAddress) := by
  unfold openTable
  split_ifs with hemp hroom
  · exact ⟨⟨id, fun _ => isEmpty_iff.mp hemp⟩, nofun⟩
  · exact ⟨⟨id, nofun⟩, fun _ => .inr ⟨rfl, hroom⟩⟩
  · rcases answers.newTable with _ | tableAddress
    · exact ⟨⟨id, nofun⟩, nofun⟩
    · refine ⟨(sound_afterRound _).trans fun h => h.pushTable hnd _ _, fun _ => .inl ?_⟩
      refine Nat.add_lt_add_right (length_remaining_pushTable hnd ?_ _ ?_) _
      · exact fun hnil => hemp (isEmpty_iff.mpr hnil)
      · exact initialPubkeyLimit_pos force

/-- An extend transaction for a table with room stores at least one pubkey. -/
theorem storing_ne_nil {t : LookupTableRc} {remaining : List Pubkey} (hroom : t.isFull = false)
    (hne : remaining ≠ []) : t.storing remaining ≠ [] := by
  have hcap : t.pubkeys.entries.length < lookupTableMaxAddresses := by
    simp only [isFull, hasMoreCapacity, Bool.not_eq_eq_eq_not,
      Bool.not_false, Bool.and_eq_true, decide_eq_true_eq] at hroom
    exact hroom.2
  have hpos := length_pos_of_ne_nil hne
  have hmax : 0 < maxEntriesAsPartOfExtend := by decide
  refine ne_nil_of_length_pos ?_
  rw [storing, length_take, length_take]
  omega

theorem filters_reconcile (answers : RoundAnswers) (t : LookupTableRc) (remaining : List Pubkey) :
    LookupTableRc.Filters t remaining (reconcile answers t remaining) := by
  rw [reconcile]
  rcases answers.chainPubkeys with _ | chainPubkeys
  · exact ⟨fun _ => rfl, .refl _⟩
  · have hfilter := filters_filterPubkeysPresent (t.reconcileWithChain chainPubkeys) remaining
    refine ⟨fun k => ?_, hfilter.perm⟩
    rw [← getRefcount_reconcileWithChain t chainPubkeys]
    exact hfilter.getRefcount k

theorem extended_spec {t : LookupTableRc} (hnd : s.remaining.Nodup) (hne : s.remaining ≠ [])
    (hlast : s.tables.getLast? = some t) (hroom : t.isFull = false) :
    Sound s (s.extended t).afterRound ∧ (s.extended t).roundsLeft < s.roundsLeft := by
  have hperm := perm_append_filter hnd (t.storing_sublist s.remaining)
  refine ⟨(sound_afterRound _).trans fun h => ?_, Nat.add_lt_add_right ?_ _⟩
  · exact h.storeInLast hlast (t.getRefcount_extend _) hperm
  · have hlen := hperm.length_eq
    rw [length_append] at hlen
    have hpos := length_pos_of_ne_nil (storing_ne_nil hroom hne)
    change (s.remaining.filter _).length < _
    omega

theorem extendFailed_spec (hnd : s.remaining.Nodup) (hlast : s.tables.getLast? = some t) :
    Sound s (s.extendFailed answers t invalidData) ∧
      ((s.extendFailed answers t invalidData).1 = none →
        (s.extendFailed answers t invalidData).2.roundsLeft < s.roundsLeft) := by
  have hfilter := filters_reconcile answers t s.remaining
  unfold extendFailed
  generalize reconcile answers t s.remaining = out at hfilter
  obtain ⟨t', granted, remaining⟩ := out
  have hlen : remaining.length ≤ s.remaining.length := by
    have hlen : (granted ++ remaining).length = _ := hfilter.perm.length_eq
    rw [length_append] at hlen
    omega
  have hnd' : remaining.Nodup :=
    (nodup_append'.mp (hfilter.perm.nodup_iff.mpr hnd)).2.1
  have hstore (action : ExtendTableErrorAction) {tables : List LookupTableRc}
      {pks : List Pubkey} (h : Exact tables pks s) :
      Exact tables pks (s.storeInLast (markAfterError action t') granted remaining) := by
    refine h.storeInLast hlast (fun k => ?_) hfilter.perm
    rw [getRefcount_markAfterError]
    exact hfilter.getRefcount k
  dsimp only
  rcases hact : handleExtendTableError invalidData s.extendErrors
  · -- the table is marked, so that nothing stops a new one
    have hopen := openTable_spec (s := s.storeInLast (markAfterError .createNewTable t') granted
      remaining) hnd' answers (some t.tableAddress)
    refine ⟨hopen.1.trans (hstore _), fun h => ?_⟩
    rcases hopen.2 h with hless | ⟨-, hroom⟩
    · exact hless.trans_le (Nat.add_le_add_right hlen _)
    · simp [storeInLast, markAfterError, markNonExtendable, isFull, hasMoreCapacity] at hroom
  · -- one error more
    have herrs : s.extendErrors < maxAllowedExtendErrors := by
      simp only [handleExtendTableError] at hact
      split_ifs at hact with hdata hless
      exact hless
    have hopen := openTable_spec (s := { s.storeInLast (markAfterError .retry t') granted
      remaining with extendErrors := s.extendErrors + 1 }) hnd' answers none
    have hcount : s.remaining.length + (maxAllowedExtendErrors - (s.extendErrors + 1)) <
        s.roundsLeft := by
      rw [roundsLeft]
      omega
    refine ⟨hopen.1.trans fun h => ⟨(hstore .retry h).perm, (hstore .retry h).counts⟩, fun h => ?_⟩
    have hless := (Nat.add_le_add_right hlen _).trans_lt hcount
    rcases hopen.2 h with hfewer | ⟨hsame, -⟩
    · exact hfewer.trans hless
    · exact (congrArg roundsLeft hsame).trans_lt hless
  · exact ⟨⟨hstore _, fun h => by cases h⟩, fun h => by cases h⟩

/-- **A round keeps the books, and there are only so many.** -/
theorem round_spec (hnd : s.remaining.Nodup) (hne : s.remaining ≠ []) (answers : RoundAnswers) :
    Sound s (s.round answers) ∧
      ((s.round answers).1 = none → (s.round answers).2.roundsLeft < s.roundsLeft) := by
  rcases hlast : s.tables.getLast?.filter fun t => !t.isFull with _ | t
  · simp only [round, hlast]
    -- no table to extend, so none that stops a new one
    obtain ⟨hsound, hnone⟩ := openTable_spec hnd answers none
    refine ⟨hsound, fun h => (hnone h).resolve_right fun ⟨_, hroom⟩ => ?_⟩
    rcases htbl : s.tables.getLast? with _ | t
    · rw [htbl] at hroom
      cases hroom
    · rw [htbl] at hroom hlast
      simp_all
  · simp only [round, hlast]
    obtain ⟨hlast, hroom⟩ := Option.filter_eq_some_iff.mp hlast
    rw [Bool.not_eq_true'] at hroom
    rcases answers.extendError with _ | invalidData
    · obtain ⟨hsound, hless⟩ := extended_spec hnd hne hlast hroom
      exact ⟨hsound, fun _ => hless⟩
    · exact extendFailed_spec hnd hlast

/-- **The loop ends**, with its books kept and, on `Ok`, nothing left. -/
theorem run_spec (hpks : pks.Nodup) (answers : ℕ → RoundAnswers) (n : ℕ)
    (hfuel : s.roundsLeft < fuel) (h : Exact tables pks s) :
    ∃ res s', s.run answers fuel n = some (res, s') ∧ Exact tables pks s' ∧
      (res = .ok () → s'.remaining = []) := by
  induction fuel generalizing s n with
  | zero => exact absurd hfuel (Nat.not_lt_zero _)
  | succ fuel ih =>
    rw [run]
    split_ifs with hemp
    · exact ⟨_, s, rfl, h, fun _ => isEmpty_iff.mp hemp⟩
    · have hne : s.remaining ≠ [] := fun hnil => hemp (isEmpty_iff.mpr hnil)
      obtain ⟨hsound, hless⟩ := round_spec (h.nodup hpks) hne (answers n)
      rcases hround : s.round (answers n) with ⟨_ | res, s'⟩
      · rw [hround] at hsound hless
        exact ih (n + 1) ((hless rfl).trans_le (Nat.lt_succ_iff.mp hfuel)) (hsound.exact h)
      · rw [hround] at hsound
        exact ⟨res, s', rfl, hsound.exact h, fun hok => hsound.ok (congrArg some hok)⟩

/-- Each reported pubkey was reserved at one place, and no other pubkey anywhere. -/
theorem Exact.raised (h : Exact tables pks s) (hpks : pks.Nodup) (k : Pubkey) :
    (k ∈ s.reportedKeys → ∃ i, refcountAt s.tables i k = refcountAt tables i k + 1 ∧
      ∀ j ≠ i, refcountAt s.tables j k = refcountAt tables j k) ∧
    (k ∉ s.reportedKeys → ∀ i, refcountAt s.tables i k = refcountAt tables i k) := by
  have hnd : s.reportedKeys.Nodup :=
    (nodup_append'.mp (h.perm.nodup_iff.mpr hpks)).1
  refine ⟨fun hk => ?_, fun hk i => ?_⟩
  · obtain ⟨⟨_, i⟩, hmem, rfl⟩ := mem_map.mp hk
    refine ⟨i, ?_, fun j hj => ?_⟩
    · rw [h.counts, (hnd.of_map _).count, if_pos hmem]
    · rw [h.counts, (hnd.of_map _).count, if_neg, add_zero]
      intro hmem'
      exact hj (congrArg Prod.snd (inj_on_of_nodup_map hnd hmem' hmem rfl))
  · rw [h.counts, count_eq_zero.mpr, add_zero]
    exact fun hmem => hk (mem_map.mpr ⟨_, hmem, rfl⟩)

end Storing

/-- **`reserve_new_pubkeys` ends and reports exactly.**  For all tables, pubkeys and answers of the
chain it returns after at most as many rounds as there are pubkeys and errors to count.  Each pubkey
it reports has its count raised by one in one table, and no other count changes; if it returns `Ok`,
the reported pubkeys are those it was called with. -/
theorem reserveNewPubkeys_exact (authorityMatches : Bool) (answers : ℕ → RoundAnswers)
    (tables : List LookupTableRc) (pks : List Pubkey) (hpks : pks.Nodup) (fuel : ℕ)
    (hfuel : pks.length + maxAllowedExtendErrors < fuel) :
    ∃ res s, reserveNewPubkeys authorityMatches answers fuel tables pks = some (res, s) ∧
      (res = .ok () → ∀ k, k ∈ s.reportedKeys ↔ k ∈ pks) ∧
      (∀ k ∈ s.reportedKeys, ∃ i, refcountAt s.tables i k = refcountAt tables i k + 1 ∧
        ∀ j ≠ i, refcountAt s.tables j k = refcountAt tables j k) ∧
      ∀ k ∉ s.reportedKeys, ∀ i, refcountAt s.tables i k = refcountAt tables i k := by
  have hstart : Storing.Exact tables pks ⟨tables, pks, 0, []⟩ := ⟨.refl _, fun _ _ => rfl⟩
  rw [reserveNewPubkeys]
  cases authorityMatches with
  | false =>
    exact ⟨_, _, rfl, nofun, fun k => (hstart.raised hpks k).1, fun k => (hstart.raised hpks k).2⟩
  | true =>
    obtain ⟨res, s, hrun, hexact, hok⟩ := Storing.run_spec hpks answers 0 hfuel hstart
    refine ⟨res, s, hrun, fun hres k => ?_, fun k => (hexact.raised hpks k).1,
      fun k => (hexact.raised hpks k).2⟩
    rw [← hexact.perm.mem_iff, hok hres, List.append_nil]

/-- The first extend fails, the chain turns out to have pubkey 1, and pubkey 2 is stored next. -/
def lostOutcome (round : ℕ) : RoundAnswers :=
  ⟨if round = 0 then some false else none, some [1], none⟩

/-- Both pubkeys are reported. -/
theorem reserveNewPubkeys_exact_of_lost_outcome :
    ∃ s, reserveNewPubkeys true lostOutcome 8 [.init 9 [5]] [1, 2] = some (.ok (), s) ∧
      (∀ k, k ∈ s.reportedKeys ↔ k ∈ [1, 2]) ∧
      ∀ k ∈ s.reportedKeys, ∃ i, refcountAt s.tables i k = refcountAt [.init 9 [5]] i k + 1 ∧
        ∀ j ≠ i, refcountAt s.tables j k = refcountAt [.init 9 [5]] j k := by
  obtain ⟨res, s, hrun, hrep, hraise, -⟩ := reserveNewPubkeys_exact true lostOutcome
    [.init 9 [5]] [1, 2] (by decide) 8 (by decide)
  have hok : (reserveNewPubkeys true lostOutcome 8 [.init 9 [5]] [1, 2]).map Prod.fst =
    some (.ok ()) := by decide +kernel
  rw [hrun] at hok
  obtain rfl : res = .ok () := Option.some.inj hok
  exact ⟨s, hrun, hrep rfl, hraise⟩

end Magicblock
