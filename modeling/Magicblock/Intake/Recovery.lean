import Magicblock.Foundations.Smallest
import Magicblock.Intent.Wire

/-!
# Intake/Recovery — stored intents are recovered in order

After a restart the intents that are left in outbox accounts are scheduled again.  The reader
(`outbox_intent_bundles_reader.rs`) keeps a window of the intents with the smallest ids and scans
the accounts again when the window runs low; `reschedule_intents` (`execution/queue.rs`) reads chunk
after chunk and offers what is recoverable to the queue.  Over accounts that do not change, each
read continues the sorted list where the last one stopped (`Reader.Window.read`).
-/

namespace Magicblock

open List OutboxIntentBundle

open List (drop_drop drop_take forall_mem_cons length_drop length_take map_cons mem_map take_add)

/-! ### The reader -/

/-- Reading the accounts of the outbox program failed. -/
inductive AccountsDbError where
  | failed
  deriving DecidableEq

inductive OutboxReaderError where
  | readExceedsCapacity (n capacity : ℕ)
  | accountsDb (err : AccountsDbError)
  deriving DecidableEq

/-- The accounts of the outbox program, in the order of one scan. -/
abbrev Scan := List (Pubkey × List UInt8)

structure Reader where
  capacity : ℕ+
  /-- Ascending by intent id, read from the front. -/
  buffer : List OutboxIntentBundle := []
  /-- The largest id that was taken into the buffer. -/
  lastConsumedId : Option IntentID := none

namespace Reader

def new (capacity : ℕ+) : Reader where
  capacity := capacity

variable (w : Wincode)

/-- Outbox accounts start with the discriminator; those that cannot be read are skipped. -/
def candidate (entry : Pubkey × List UInt8) : Option OutboxIntentBundle :=
  if Wincode.outboxIntentDiscriminator <+: entry.2 then w.tryFromBytes entry.2 else none

/-- **`refill`**: the next intents, as many as there is capacity. -/
def refill (scan : Scan) (r : Reader) : Reader :=
  let unconsumed := (scan.filterMap (candidate w)).filter fun bundle =>
    r.lastConsumedId.all fun id => decide (id < bundle.intentId)
  let items := (smallest OutboxIntentBundle.intentId r.capacity unconsumed).insertionSort
    fun a b => a.intentId ≤ b.intentId
  { r with
    lastConsumedId := (items.getLast?.map OutboxIntentBundle.intentId).or r.lastConsumedId
    buffer := r.buffer ++ items }

/-- **`read`**: up to `n` intents.  The accounts are scanned if the buffer runs low. -/
def read (n : ℕ) (scan : Except AccountsDbError Scan) (r : Reader) :
    Reader × Except OutboxReaderError (List OutboxIntentBundle) :=
  if n = 0 then (r, .ok [])
  else if r.capacity < n then (r, .error (.readExceedsCapacity n r.capacity))
  else
    let take (r : Reader) := ({ r with buffer := r.buffer.drop n }, .ok (r.buffer.take n))
    if r.buffer.length < n then
      match scan with
      | .ok scan => take (r.refill w scan)
      | .error err => (r, .error (.accountsDb err))
    else take r

/-- Reads of the given sizes, each with the scan it may use. -/
def reads : List (ℕ × Except AccountsDbError Scan) → Reader →
    Reader × List (Except OutboxReaderError (List OutboxIntentBundle))
  | [], r => (r, [])
  | (n, scan) :: rest, r =>
    let (r, answer) := r.read w n scan
    let (r, answers) := reads rest r
    (r, answer :: answers)

/-- The intents that were returned. -/
def delivered (answers : List (Except OutboxReaderError (List OutboxIntentBundle))) :
    List OutboxIntentBundle :=
  answers.flatMap fun answer => answer.toOption.getD []

end Reader

/-! ### Rescheduling -/

structure AccountDelegationSession where
  locallyProtected : Bool
  remoteSlot : Slot
  deriving DecidableEq

inductive ChainlinkError where
  | failed
  deriving DecidableEq

/-- What looking up the delegation sessions of an intent's accounts answers. -/
abbrev SessionsResult := Except ChainlinkError (List (Option AccountDelegationSession))

namespace OutboxIntentBundle

def isSameDelegationSession (bundle : OutboxIntentBundle) (sessions : SessionsResult) : Bool :=
  let recoveredAccounts := bundle.inner.intentBundle.getAllCommittedAccounts
  recoveredAccounts.isEmpty || match sessions with
    | .error _ => false
    | .ok currentSessions => (recoveredAccounts.zip currentSessions).all fun (recovered, current) =>
      current.any fun current => current.locallyProtected &&
        (recovered.remoteSlot = 0 || recovered.remoteSlot = current.remoteSlot)

/-- The accounts are in the session they were committed in, and the nonces of the recovery are those
that were reserved. -/
def isRecoverable (bundle : OutboxIntentBundle) (sessions : SessionsResult) : Bool :=
  bundle.isSameDelegationSession sessions &&
    bundle.recoveryCommitNonces.all fun (pubkey, id) =>
      bundle.inner.intentBundle.getAllCommittedAccounts.any fun account =>
        account.pubkey = pubkey && account.commitId = id

end OutboxIntentBundle

def rescheduleChunkSize : ℕ := 1000

/-- `outbox_reader()`. -/
def outboxReader : Reader := .new 1000

section Reschedule

variable (w : Wincode) (sessions : OutboxIntentBundle → SessionsResult)
  (scans : ℕ → Except AccountsDbError Scan)

/-- The batches that are offered to the queue.  An empty one is not; what the queue answers is
logged. -/
def schedule (bundles : List OutboxIntentBundle) : List (List OutboxIntentBundle) :=
  if bundles.isEmpty then [] else [bundles]

/-- **The loop of `reschedule_intents`**: the batches offered, and how it ends (`none` if it did not
in so many rounds). -/
def rescheduleLoop : ℕ → ℕ → Reader →
    List (List OutboxIntentBundle) × Option (Except OutboxReaderError Unit)
  | 0, _, _ => ([], none)
  | rounds + 1, i, r =>
    match r.read w rescheduleChunkSize (scans i) with
    | (_, .error err) => ([], some (.error err))
    | (r, .ok chunk) =>
      if chunk.isEmpty then ([], some (.ok ()))
      else
        let offered := schedule (chunk.filter fun bundle => bundle.isRecoverable (sessions bundle))
        if chunk.length ≠ rescheduleChunkSize then (offered, some (.ok ()))
        else
          let rest := rescheduleLoop rounds (i + 1) r
          (offered ++ rest.1, rest.2)

def rescheduleIntents (rounds : ℕ) :
    List (List OutboxIntentBundle) × Option (Except OutboxReaderError Unit) :=
  rescheduleLoop w sessions scans rounds 0 outboxReader

end Reschedule

/-! ### The window -/

/-- **A set of outbox accounts**: every intent is at the address of its id. -/
structure OutboxAccounts (w : Wincode) (outboxIntentPda : IntentID → Pubkey) where
  entries : Scan
  nodup : (entries.map Prod.fst).Nodup
  at_pda : ∀ entry ∈ entries, ∀ bundle, Reader.candidate w entry = some bundle →
    entry.1 = outboxIntentPda bundle.intentId

namespace OutboxAccounts

variable {w : Wincode} {outboxIntentPda : IntentID → Pubkey}

/-- The intents that are stored. -/
def stored (accounts : OutboxAccounts w outboxIntentPda) : List OutboxIntentBundle :=
  accounts.entries.filterMap (Reader.candidate w)

/-- Ids tell stored intents apart, since addresses do. -/
theorem nodup_stored (accounts : OutboxAccounts w outboxIntentPda) :
    (accounts.stored.map intentId).Nodup := by
  obtain ⟨entries, hnd, hpda⟩ := accounts
  change ((entries.filterMap (Reader.candidate w)).map intentId).Nodup
  induction entries with
  | nil => exact nodup_nil
  | cons entry entries ih =>
    obtain ⟨hnew, hrest⟩ := nodup_cons.mp hnd
    obtain ⟨hent, hents⟩ := forall_mem_cons.mp hpda
    rcases hcand : Reader.candidate w entry with _ | bundle
    · rw [filterMap_cons_none hcand]
      exact ih hrest hents
    · rw [filterMap_cons_some hcand, map_cons]
      refine nodup_cons.mpr ⟨fun hmem => hnew ?_, ih hrest hents⟩
      obtain ⟨bundle', hbun', hid⟩ := mem_map.mp hmem
      obtain ⟨entry', hent', hcand'⟩ := mem_filterMap.mp hbun'
      refine mem_map.mpr ⟨entry', hent', ?_⟩
      rw [hent bundle hcand, hents entry' hent' bundle' hcand', hid]

end OutboxAccounts

namespace Reader

variable {w : Wincode} {s : List OutboxIntentBundle} {r : Reader} {c e n : ℕ}

/-- **The window**: the first `c` intents were returned, and the buffer holds those from there on,
up to the `e`-th, the last that was taken in. -/
structure Window (s : List OutboxIntentBundle) (c e : ℕ) (r : Reader) : Prop where
  le : c ≤ e
  buffer : r.buffer = (s.take e).drop c
  last : r.lastConsumedId = (s.take e).getLast?.map OutboxIntentBundle.intentId

theorem Window.start (capacity : ℕ+) : Window s 0 0 (new capacity) :=
  ⟨le_rfl, rfl, rfl⟩

/-- A refill moves the end. -/
theorem Window.refill (h : Window s c e r)
    (hs : Ascending intentId s) (hscan : (scan.filterMap (candidate w)).Perm s) :
    Window s c (e + r.capacity) (r.refill w scan) := by
  have hnext : Ascending intentId (s.drop e) :=
    List.Pairwise.sublist (drop_sublist e s) hs
  have hunc : ((scan.filterMap (candidate w)).filter fun bundle =>
      r.lastConsumedId.all fun id => decide (id < bundle.intentId)).Perm (s.drop e) := by
    have hparts : Ascending intentId (s.take e ++ s.drop e) := by
      rwa [take_append_drop]
    have hfilt := hparts.filter_append
    rw [take_append_drop, ← h.last] at hfilt
    rw [← hfilt]
    exact hscan.filter _
  have hitems := hnext.smallest_eq_take hunc r.capacity
  have hsort : ((s.drop e).take r.capacity).insertionSort (fun a b => a.intentId ≤ b.intentId) =
      (s.drop e).take r.capacity :=
    (hnext.le.sublist (take_sublist ..)).insertionSort_eq
  refine ⟨h.le.trans (Nat.le_add_right ..), ?_, ?_⟩
  · simp only [Reader.refill, hitems, hsort]
    rw [h.buffer, drop_take, drop_take, Nat.sub_add_comm h.le, take_add,
      drop_drop, Nat.add_sub_cancel' h.le]
  · simp only [Reader.refill, hitems, hsort]
    rw [h.last, take_add, getLast?_append, Option.map_or]

/-- Taking from the front moves the beginning. -/
theorem Window.take (h : Window s c e r) (hn : n ≤ e - c) :
    r.buffer.take n = (s.drop c).take n ∧
      Window s (c + n) e { r with buffer := r.buffer.drop n } := by
  have hle := h.le
  refine ⟨?_, by omega, ?_, h.last⟩
  · rw [h.buffer, drop_take, take_take, min_eq_left hn]
  · change r.buffer.drop n = _
    rw [h.buffer, drop_drop]

/-- **A read continues where the last one stopped**, unless its scan fails. -/
theorem Window.read (h : Window s c e r) (hs : Ascending intentId s) (hn : n ≤ r.capacity)
    (hscan : ∀ entries, scan = .ok entries → (entries.filterMap (candidate w)).Perm s) :
    (∃ err, scan = .error err ∧ r.read w n scan = (r, .error (.accountsDb err))) ∨
      ∃ r' e', r.read w n scan = (r', .ok ((s.drop c).take n)) ∧ r'.capacity = r.capacity ∧
        Window s (c + n) e' r' := by
  rw [Reader.read]
  split_ifs with hzero hcap hlow
  · obtain rfl := hzero
    exact .inr ⟨r, e, rfl, rfl, h⟩
  · exact absurd hn (not_le.mpr hcap)
  · rcases scan with err | entries
    · exact .inl ⟨err, rfl, rfl⟩
    · have hroom : n ≤ e + r.capacity - c := by
        have hle := h.le
        omega
      obtain ⟨htake, hwin⟩ := (h.refill hs (hscan entries rfl)).take hroom
      rw [← htake]
      exact .inr ⟨_, _, rfl, rfl, hwin⟩
  · have hlen : r.buffer.length ≤ e - c := by
      rw [h.buffer, length_drop, length_take]
      omega
    obtain ⟨htake, hwin⟩ := h.take ((not_lt.mp hlow).trans hlen)
    rw [← htake]
    exact .inr ⟨_, _, rfl, rfl, hwin⟩

theorem delivered_cons :
    delivered (answer :: answers) = answer.toOption.getD [] ++ delivered answers :=
  flatMap_cons

/-- A scan that failed, or one that found what is stored. -/
def Finds (w : Wincode) (s : List OutboxIntentBundle) (scan : Except AccountsDbError Scan) : Prop :=
  ∀ entries, scan = .ok entries → (entries.filterMap (candidate w)).Perm s

/-- **Reads go through the sorted list.** -/
theorem Window.reads {requests : List (ℕ × Except AccountsDbError Scan)} (h : Window s c e r)
    (hs : Ascending intentId s)
    (hreqs : ∀ request ∈ requests, request.1 ≤ r.capacity ∧ Finds w s request.2) :
    ∃ k e', Window s (c + k) e' (r.reads w requests).1 ∧
      (r.reads w requests).1.capacity = r.capacity ∧
      delivered (r.reads w requests).2 = (s.drop c).take k ∧
      ((∀ request ∈ requests, request.2.isOk) → k = (requests.map Prod.fst).sum) := by
  induction requests generalizing r c e with
  | nil => exact ⟨0, e, h, rfl, rfl, fun _ => rfl⟩
  | cons request requests ih =>
    obtain ⟨n, scan⟩ := request
    obtain ⟨⟨hn, hscan⟩, hrest⟩ := forall_mem_cons.mp hreqs
    simp only [Reader.reads]
    rcases h.read hs hn hscan with ⟨err, rfl, hread⟩ | ⟨r', e', hread, hcap, hwin⟩
    · obtain ⟨k, e', hwin, hcap, hdel, -⟩ := ih h hrest
      rw [hread, delivered_cons]
      exact ⟨k, e', hwin, hcap, hdel,
        fun hok => absurd (forall_mem_cons.mp hok).1 Bool.false_ne_true⟩
    · rw [← hcap] at hrest
      obtain ⟨k, e'', hwin', hcap', hdel, hsum⟩ := ih hwin hrest
      rw [hread, delivered_cons]
      refine ⟨n + k, e'', ?_, hcap'.trans hcap, ?_, fun hok => ?_⟩
      · rwa [← Nat.add_assoc]
      · rw [hdel, take_add, drop_drop]
        rfl
      · rw [map_cons, sum_cons, hsum (forall_mem_cons.mp hok).2]

end Reader

/-! ### Everything is offered -/

theorem flatten_schedule : (schedule bundles).flatten = bundles := by
  cases bundles <;> simp [schedule]

/-- **The loop offers what is left**: if no scan fails and it has a round for each intent that is
left, it returns and has offered all. -/
theorem rescheduleLoop_spec (h : r.Window s c e)
    (hs : Ascending intentId s) (hcapacity : rescheduleChunkSize ≤ r.capacity)
    (hscans : ∀ i, (scans i).isOk ∧ Reader.Finds w s (scans i)) (hrounds : s.length - c < rounds) :
    (rescheduleLoop w sessions scans rounds i r).2 = some (.ok ()) ∧
      (rescheduleLoop w sessions scans rounds i r).1.flatten =
        (s.drop c).filter fun bundle => bundle.isRecoverable (sessions bundle) := by
  induction rounds generalizing r c e i with
  | zero => omega
  | succ rounds ih =>
    rcases h.read hs hcapacity (hscans i).2 with ⟨err, herr, -⟩ | ⟨r', e', hread, hcap, hwin⟩
    · have hok := (hscans i).1
      rw [herr] at hok
      exact absurd hok Bool.false_ne_true
    rw [rescheduleLoop, hread]
    dsimp only
    split_ifs with hemp hshort
    · rcases take_eq_nil_iff.mp (isEmpty_iff.mp hemp) with hzero | hdone
      · cases hzero
      · rw [hdone]
        exact ⟨rfl, rfl⟩
    · have hall : (s.drop c).take rescheduleChunkSize = s.drop c := by
        rw [length_take] at hshort
        exact take_of_length_le (by omega)
      rw [flatten_schedule, hall]
      exact ⟨rfl, rfl⟩
    · have hlong : rescheduleChunkSize ≤ s.length - c := by
        rw [length_take, length_drop] at hshort
        omega
      have hpos : 0 < rescheduleChunkSize := by decide
      obtain ⟨hres, hoff⟩ := ih (i := i + 1) hwin (by rwa [hcap]) (by omega)
      refine ⟨hres, ?_⟩
      rw [flatten_append, flatten_schedule, hoff, ← filter_append, ← drop_drop, take_append_drop]

theorem OutboxAccounts.finds
    {accounts : OutboxAccounts w outboxIntentPda} (hs : accounts.stored.Perm s)
    (hscan : ∀ entries, scan = .ok entries → entries.Perm accounts.entries) :
    Reader.Finds w s scan :=
  fun entries hents => ((hscan entries hents).filterMap _).trans hs

/-- **A restart recovers the stored intents in order.**  Over outbox accounts that do not change,
whatever the sizes of the reads and the order of the scans, the reader goes through the stored
intents by ascending id; a read that returns less than was asked for has reached the end; and
`reschedule_intents` offers every recoverable intent to the queue, by ascending id, and returns. -/
theorem restart_recovers_in_order (w : Wincode) (outboxIntentPda : IntentID → Pubkey)
    (accounts : OutboxAccounts w outboxIntentPda) :
    ∃ intents : List OutboxIntentBundle, accounts.stored.Perm intents ∧
      Ascending OutboxIntentBundle.intentId intents ∧
      (∀ (capacity : ℕ+) (requests : List (ℕ × Except AccountsDbError Scan)),
        (∀ request ∈ requests, request.1 ≤ capacity ∧
          ∀ scan, request.2 = .ok scan → scan.Perm accounts.entries) →
        Reader.delivered (Reader.reads w requests (.new capacity)).2 <+: intents ∧
        ((∀ request ∈ requests, request.2.isOk) →
          Reader.delivered (Reader.reads w requests (.new capacity)).2 =
            intents.take (requests.map Prod.fst).sum) ∧
        ∀ n ≤ (capacity : ℕ), ∀ scan bundles,
          (∀ entries, scan = .ok entries → entries.Perm accounts.entries) →
          ((Reader.reads w requests (.new capacity)).1.read w n scan).2 = .ok bundles →
          bundles.length < n →
          Reader.delivered (Reader.reads w requests (.new capacity)).2 ++ bundles =
            intents) ∧
      ∀ (sessions : OutboxIntentBundle → SessionsResult) (scans : ℕ → Except AccountsDbError Scan),
        (∀ i, ∃ scan, scans i = .ok scan ∧ scan.Perm accounts.entries) →
        ∀ rounds, intents.length < rounds →
          (rescheduleIntents w sessions scans rounds).2 = some (.ok ()) ∧
          (rescheduleIntents w sessions scans rounds).1.flatten =
            intents.filter fun bundle => bundle.isRecoverable (sessions bundle) := by
  obtain ⟨s, hs, hstor⟩ := exists_ascending accounts.nodup_stored
  refine ⟨s, hstor, hs, ?_, ?_⟩
  · intro capacity requests hreqs
    obtain ⟨k, e, hwin, hcap, hdel, hsum⟩ := (Reader.Window.start capacity).reads hs
      fun request hreq => ⟨(hreqs request hreq).1,
        OutboxAccounts.finds hstor (hreqs request hreq).2⟩
    rw [List.drop_zero] at hdel
    rw [zero_add] at hwin
    refine ⟨hdel ▸ List.take_prefix k s, fun hok => hsum hok ▸ hdel, ?_⟩
    intro n hn scan bundles hscan hread hshort
    have hroom : n ≤ (Reader.reads w requests (.new capacity)).1.capacity := by rwa [hcap]
    rcases hwin.read hs hroom (OutboxAccounts.finds hstor hscan) with
      ⟨err, -, herr⟩ | ⟨r', e', hok, -⟩
    · rw [herr] at hread
      cases hread
    · rw [hok] at hread
      cases hread
      rw [length_take, length_drop] at hshort
      rw [hdel, ← take_add]
      exact List.take_of_length_le (by omega)
  · intro sessions scans hscans rounds hrounds
    refine rescheduleLoop_spec (Reader.Window.start 1000) hs le_rfl (fun i => ?_) hrounds
    obtain ⟨scan, hscan, hperm⟩ := hscans i
    rw [hscan]
    exact ⟨rfl, OutboxAccounts.finds hstor fun entries hents => Except.ok.inj hents ▸ hperm⟩

namespace RecoveryExample

def wincode : Wincode := default

/-- The account of an intent without content. -/
def entry (id : IntentID) : Pubkey × List UInt8 :=
  (BitVec.ofNat 256 id, (wincode.tryToBytes (.accepted ⟨id, 0, 0, 0, {}⟩ 255)).getD [])

/-- Intents 2 and 1 are stored. -/
def accounts : OutboxAccounts wincode (BitVec.ofNat 256) where
  entries := [entry 2, entry 1]
  nodup := by decide +kernel
  at_pda := by
    have hcand : ∀ id ∈ [2, 1], Reader.candidate wincode (entry id) =
        some (.accepted ⟨id, 0, 0, 0, {}⟩ 255) := by decide +kernel
    intro e he bundle hbun
    obtain ⟨id, hid, rfl⟩ : ∃ id ∈ [2, 1], entry id = e := by simpa [eq_comm] using he
    cases (hcand id hid).symm.trans hbun
    rfl

end RecoveryExample

open RecoveryExample in
/-- Two reads of one intent each, with room for one. -/
theorem restart_recovers_in_order_two : ∃ intents : List OutboxIntentBundle,
    accounts.stored.Perm intents ∧
      Reader.delivered (Reader.reads wincode [(1, .ok [entry 2, entry 1]),
        (1, .ok [entry 1, entry 2])]
        (.new 1)).2 = intents.take 2 := by
  obtain ⟨intents, hperm, -, hreads, -⟩ :=
    restart_recovers_in_order wincode (BitVec.ofNat 256) accounts
  refine ⟨intents, hperm, (hreads 1 _ ?_).2.1 (by decide)⟩
  refine forall_mem_cons.mpr ⟨⟨le_rfl, fun scan hscan => ?_⟩,
    List.forall_mem_singleton.mpr ⟨le_rfl, fun scan hscan => ?_⟩⟩
  · cases hscan
    exact .refl _
  · cases hscan
    exact .swap ..

end Magicblock
