import Magicblock.Chainlink.Accounts
import Magicblock.Foundations.Lru

/-!
# Chainlink/Collisions — accounts that look like records of the delegation program

An account whose data looks like a record of the delegation program is not cloned at once.  The
tracker releases it to discovery when its delegation record has been seen as well, at the slot of
the update or later, whichever comes second.  For one account the tracker is a pair of slots
(`CollisionView`), and it keeps the newest slot of all parked updates: so the account is released in
every order of arrival if and only if one sighting is as new as all updates
(`released_in_every_order_iff`).
-/

namespace Magicblock.Chainlink

open List Lru

open List (filterMap_append mem_append_left mem_append_right mem_cons_self mem_filter mem_pair
  mem_singleton prefix_append prefix_refl)
open Option (any_eq_true elim_some)
open Function (Injective)

/-! ### The tracker -/

/-- A parked update, without its payload. -/
structure ParkedCollisionCandidate where
  pubkey : Pubkey
  slot : Slot
  deriving DecidableEq

structure DlpCollisionTracker where
  recordSlots : Lru Pubkey Slot 65536
  parked : Lru Pubkey ParkedCollisionCandidate 16384

namespace DlpCollisionTracker

def new : DlpCollisionTracker := ⟨.empty, .empty⟩

/-- The record was seen at a slot; a candidate that is not newer is released. -/
def sightRecord (t : DlpCollisionTracker) (recordPubkey : Pubkey) (slot : Slot) :
    DlpCollisionTracker × Option ParkedCollisionCandidate :=
  let sightedSlot := max ((t.recordSlots.peek recordPubkey).getD slot) slot
  let t := { t with recordSlots := t.recordSlots.put recordPubkey sightedSlot }
  if (t.parked.peek recordPubkey).any fun candidate => candidate.slot ≤ sightedSlot then
    ({ t with parked := t.parked.pop recordPubkey }, t.parked.peek recordPubkey)
  else (t, none)

variable (env : CloneEnv)

/-- Was the record seen at the slot of the update or later? -/
def sighted (t : DlpCollisionTracker) (pubkey : Pubkey) (slot : Slot) : Bool :=
  (t.recordSlots.peek (env.delegationRecordPda pubkey)).any fun recordSlot => slot ≤ recordSlot

/-- Parks an update, under the newest slot of those parked for the account. -/
def park (t : DlpCollisionTracker) (pubkey : Pubkey) (slot : Slot) : DlpCollisionTracker :=
  let recordPubkey := env.delegationRecordPda pubkey
  let parked := (t.parked.peek recordPubkey).getD ⟨pubkey, slot⟩
  { t with parked := t.parked.put recordPubkey { parked with slot := max parked.slot slot } }

/-- An update whose record was not seen is parked, or dropped if there is no room. -/
def checkOrPark (t : DlpCollisionTracker) (pubkey : Pubkey) (slot : Slot) :
    DlpCollisionTracker × Bool :=
  let recordPubkey := env.delegationRecordPda pubkey
  let sighted := t.sighted env pubkey slot
  let t := { t with recordSlots := t.recordSlots.touch recordPubkey }
  if sighted then (t, true)
  else if t.parked.full recordPubkey then (t, false)
  else (t.park env pubkey slot, false)

end DlpCollisionTracker

/-- What is delivered to the tracker. -/
inductive CollisionEvent
  | update (pubkey : Pubkey) (slot : Slot)
  | sighting (recordPubkey : Pubkey) (slot : Slot)
  deriving DecidableEq

namespace DlpCollisionTracker

variable (env : CloneEnv)

/-- The tracker after an event, and the account that goes on to discovery. -/
def handle (t : DlpCollisionTracker) : CollisionEvent → DlpCollisionTracker × Option Pubkey
  | .update pubkey slot =>
    let (t, sighted) := t.checkOrPark env pubkey slot
    (t, if sighted then some pubkey else none)
  | .sighting recordPubkey slot =>
    let (t, released) := t.sightRecord recordPubkey slot
    (t, released.map (·.pubkey))

/-- Is an entry evicted, or an update dropped, for want of room? -/
def evicts (t : DlpCollisionTracker) : CollisionEvent → Bool
  | .update pubkey slot =>
    !t.sighted env pubkey slot && t.parked.full (env.delegationRecordPda pubkey)
  | .sighting recordPubkey _ => t.recordSlots.full recordPubkey

/-- The tracker after all events. -/
def after (es : List CollisionEvent) : DlpCollisionTracker :=
  es.foldl (fun t e => (t.handle env e).1) new

theorem after_concat (es : List CollisionEvent) (e : CollisionEvent) :
    after env (es ++ [e]) = ((after env es).handle env e).1 :=
  foldl_concat ..

end DlpCollisionTracker

open DlpCollisionTracker (after)

section Property

variable (env : CloneEnv) (a : Pubkey)

/-- Nothing is evicted from the caches. -/
def Unevicted (es : List CollisionEvent) : Prop :=
  ∀ before e, before ++ [e] <+: es → (after env before).evicts env e = false

/-- Both an update of the account and a sighting of its record, not older than the update. -/
def Paired (es : List CollisionEvent) : Prop :=
  ∃ s r : Slot, s ≤ r ∧ .update a s ∈ es ∧ .sighting (env.delegationRecordPda a) r ∈ es

/-- The account is released, when both have arrived. -/
def ReleasedAfterBoth (es : List CollisionEvent) : Prop :=
  ∃ before e, before ++ [e] <+: es ∧ ((after env before).handle env e).2 = some a ∧
    Paired env a (before ++ [e])

end Property

/-! ### One account -/

/-- What the tracker knows of one account: the newest slot of its record, and of its parked
updates. -/
structure CollisionView where
  record : Option Slot
  parked : Option Slot

/-- An event that is about the account. -/
inductive CollisionSight
  | update (slot : Slot)
  | record (slot : Slot)

namespace CollisionView

/-- The tracker for one account, and whether the account is released. -/
def handle (v : CollisionView) : CollisionSight → CollisionView × Bool
  | .update slot =>
    if v.record.any (slot ≤ ·) then (v, true)
    else ({ v with parked := some (max (v.parked.getD slot) slot) }, false)
  | .record slot =>
    let sightedSlot := max (v.record.getD slot) slot
    if v.parked.any (· ≤ sightedSlot) then (⟨some sightedSlot, none⟩, true)
    else ({ v with record := some sightedSlot }, false)

def after (l : List CollisionSight) : CollisionView :=
  l.foldl (fun v s => (v.handle s).1) ⟨none, none⟩

theorem after_concat (l : List CollisionSight) (s : CollisionSight) :
    after (l ++ [s]) = ((after l).handle s).1 :=
  foldl_concat ..

theorem newest_eq (o : Option Slot) : max (o.getD x) x = x ∨ o = some (max (o.getD x) x) := by
  cases o with
  | none => exact .inl (max_self x)
  | some y => exact (max_choice y x).symm.imp id (congrArg some ·.symm)

theorem le_newest (h : o = some y) (x : Slot) : y ≤ max (o.getD x) x := by
  subst h
  exact le_max_left y x

/-- What is known was seen. -/
theorem seen (l : List CollisionSight) :
    (∀ r, (after l).record = some r → .record r ∈ l) ∧
      ∀ p, (after l).parked = some p → .update p ∈ l := by
  induction l using reverseRecOn with
  | nil => exact ⟨nofun, nofun⟩
  | append_singleton l s ih =>
    have hrec (r : Slot) (h : (after l).record = some r) : .record r ∈ l ++ [s] :=
      mem_append_left _ (ih.1 r h)
    have hpark (p : Slot) (h : (after l).parked = some p) : .update p ∈ l ++ [s] :=
      mem_append_left _ (ih.2 p h)
    rw [after_concat]
    cases s with
    | update x =>
      rw [handle]
      split_ifs
      · exact ⟨hrec, hpark⟩
      · refine ⟨hrec, fun p hp => ?_⟩
        cases hp
        rcases newest_eq (after l).parked with heq | heq
        · rw [heq]
          exact mem_append_right _ mem_cons_self
        · exact hpark _ heq
    | record x =>
      have hnew (r : Slot) (hr : some (max ((after l).record.getD x) x) = some r) :
          .record r ∈ l ++ [.record x] := by
        cases hr
        rcases newest_eq (after l).record with heq | heq
        · rw [heq]
          exact mem_append_right _ mem_cons_self
        · exact hrec _ heq
      rw [handle]
      split_ifs
      · exact ⟨hnew, nofun⟩
      · exact ⟨hnew, hpark⟩

theorem record_handle (v : CollisionView) :
    (v.handle (.record x)).1.record = some (max (v.record.getD x) x) := by
  rw [handle]
  split_ifs <;> rfl

variable {l : List CollisionSight}

/-- A release has seen both. -/
theorem paired_of_release (h : ((after l).handle s).2 = true) :
    ∃ x r : Slot, x ≤ r ∧ .update x ∈ l ++ [s] ∧ .record r ∈ l ++ [s] := by
  cases s with
  | update x =>
    rw [handle] at h
    split_ifs at h with hany
    obtain ⟨r, hr, hle⟩ := (any_eq_true _ _).mp hany
    exact ⟨x, r, of_decide_eq_true hle, mem_append_right _ mem_cons_self,
      mem_append_left _ ((seen l).1 r hr)⟩
  | record x =>
    have hrec := (seen (l ++ [.record x])).1 _ (after_concat l _ ▸ record_handle (after l))
    rw [handle] at h
    split_ifs at h with hany
    obtain ⟨p, hp, hle⟩ := (any_eq_true _ _).mp hany
    exact ⟨p, _, of_decide_eq_true hle, mem_append_left _ ((seen l).2 p hp), hrec⟩

/-- No event of the list releases. -/
def Silent (l : List CollisionSight) : Prop :=
  ∀ before s, before ++ [s] <+: l → ((after before).handle s).2 = false

theorem silent_concat : Silent (l ++ [s]) ↔ Silent l ∧ ((after l).handle s).2 = false := by
  simp only [Silent, prefix_concat_iff, append_singleton_inj]
  constructor
  · exact fun h => ⟨fun before s' hs' => h before s' (.inr hs'), h l s (.inl ⟨rfl, rfl⟩)⟩
  · rintro ⟨hl, hs⟩ before s' (⟨rfl, rfl⟩ | hs')
    · exact hs
    · exact hl before s' hs'

/-- **Without a release** the newest slots of both are known, and that of the record is older. -/
structure Waiting (l : List CollisionSight) (v : CollisionView) : Prop where
  parked {x : Slot} (h : .update x ∈ l) : ∃ p, v.parked = some p ∧ x ≤ p
  record {x : Slot} (h : .record x ∈ l) : ∃ r, v.record = some r ∧ x ≤ r
  older {p r : Slot} (hp : v.parked = some p) (hr : v.record = some r) : r < p

theorem Silent.waiting (h : Silent l) : Waiting l (after l) := by
  induction l using reverseRecOn with
  | nil => exact ⟨nofun, nofun, nofun⟩
  | append_singleton l s ih =>
    obtain ⟨hl, hs⟩ := silent_concat.mp h
    obtain ⟨hpark, hrec, holder⟩ := ih hl
    rw [after_concat]
    cases s with
    | update x =>
      rw [handle] at hs ⊢
      split_ifs at hs ⊢ with hany
      refine ⟨fun {y} hy => ⟨_, rfl, ?_⟩, fun {y} hy => hrec (by simpa using hy),
        fun {p r} hp hr => ?_⟩
      · rcases mem_append.mp hy with hy | hy
        · obtain ⟨p, hp, hle⟩ := hpark hy
          exact hle.trans (le_newest hp x)
        · cases mem_singleton.mp hy
          exact le_max_right _ _
      · cases hp
        have hlt : r < x := not_le.mp fun hle => hany ((any_eq_true _ _).mpr
          ⟨r, hr, decide_eq_true hle⟩)
        exact hlt.trans_le (le_max_right _ _)
    | record x =>
      rw [handle] at hs ⊢
      split_ifs at hs ⊢ with hany
      refine ⟨fun {y} hy => hpark (by simpa using hy), fun {y} hy => ⟨_, rfl, ?_⟩,
        fun {p r} hp hr => ?_⟩
      · rcases mem_append.mp hy with hy | hy
        · obtain ⟨r, hr, hle⟩ := hrec hy
          exact hle.trans (le_newest hr x)
        · cases mem_singleton.mp hy
          exact le_max_right _ _
      · cases hr
        exact not_le.mp fun hle => hany ((any_eq_true _ _).mpr ⟨p, hp, decide_eq_true hle⟩)

/-- If one record is as new as all updates, there is a release. -/
theorem not_silent (hr : .record r ∈ l) (hall : ∀ y, .update y ∈ l → y ≤ r)
    (hx : .update x ∈ l) : ¬ Silent l := by
  intro hsil
  obtain ⟨p, hp, -⟩ := hsil.waiting.parked hx
  obtain ⟨r', hr', hle⟩ := hsil.waiting.record hr
  exact (hsil.waiting.older hp hr').not_ge ((hall p ((seen l).2 p hp)).trans hle)

/-- If each record is older than some update, there is no release while updates come first. -/
theorem silent_updates_first (hupds : ∀ s ∈ updates, ∃ x, s = .update x)
    (hrecs : ∀ s ∈ records, ∃ r, s = .record r ∧ ∃ x, .update x ∈ updates ∧ r < x) :
    Silent (updates ++ records) := by
  induction records using reverseRecOn with
  | nil =>
    intro before s hinit
    rw [append_nil] at hinit
    obtain ⟨x, rfl⟩ := hupds s (hinit.mem (mem_append_right _ mem_cons_self))
    rw [handle, if_neg]
    intro hany
    obtain ⟨r, hr, -⟩ := (any_eq_true _ _).mp hany
    have hmem := hinit.mem (mem_append_left _ ((seen before).1 r hr))
    obtain ⟨x', ⟨⟩⟩ := hupds _ hmem
  | append_singleton records s ih =>
    have hsil := ih fun s hs => hrecs s (mem_append_left _ hs)
    rw [← append_assoc, silent_concat]
    refine ⟨hsil, ?_⟩
    obtain ⟨r, rfl, x, hx, hlt⟩ := hrecs s (mem_append_right _ mem_cons_self)
    obtain ⟨p, hp, hle⟩ := hsil.waiting.parked (mem_append_left _ hx)
    rw [handle, if_neg]
    intro hany
    obtain ⟨p', hp', hle'⟩ := (any_eq_true _ _).mp hany
    cases hp.symm.trans hp'
    rcases newest_eq (after (updates ++ records)).record with heq | heq
    · rw [heq, decide_eq_true_eq] at hle'
      exact (hlt.trans_le hle).not_ge hle'
    · exact (hsil.waiting.older hp heq).not_ge (of_decide_eq_true hle')

end CollisionView

/-- What an event is for an account. -/
def CollisionEvent.sight (env : CloneEnv) (a : Pubkey) : CollisionEvent → Option CollisionSight
  | update pubkey slot => if pubkey = a then some (.update slot) else none
  | sighting recordPubkey slot =>
    if recordPubkey = env.delegationRecordPda a then some (.record slot) else none

/-! ### The tracker for each account -/

section Refinement

open CollisionView (Silent)

variable {env : CloneEnv} {a : Pubkey} {t : DlpCollisionTracker} {v : CollisionView}

/-- The caches hold what is known of the account; a candidate is parked under its own record. -/
structure Agrees (env : CloneEnv) (a : Pubkey) (t : DlpCollisionTracker) (v : CollisionView) :
    Prop where
  record : t.recordSlots.peek (env.delegationRecordPda a) = v.record
  parked : t.parked.peek (env.delegationRecordPda a) = v.parked.map (⟨a, ·⟩)
  keyed {k : Pubkey} {candidate : ParkedCollisionCandidate} (h : t.parked.peek k = some candidate) :
    env.delegationRecordPda candidate.pubkey = k

theorem sighted_eq (h : Agrees env a t v) (slot : Slot) :
    t.sighted env a slot = v.record.any (slot ≤ ·) := by
  rw [DlpCollisionTracker.sighted, h.record]

/-- Using an entry changes nothing that is known. -/
theorem Agrees.touch (h : Agrees env a t v) (k : Pubkey) :
    Agrees env a { t with recordSlots := t.recordSlots.touch k } v where
  record := peek_touch.trans h.record
  parked := h.parked
  keyed := h.keyed

/-- An update that is not sighted changes what is parked under its record. -/
theorem Agrees.park (h : Agrees env a t v) (hpda : Injective env.delegationRecordPda)
    (hroom : t.parked.full (env.delegationRecordPda pk) = false) (slot : Slot) :
    Agrees env a (t.park env pk slot)
      (if pk = a then { v with parked := some (max (v.parked.getD slot) slot) } else v) := by
  let parked := (t.parked.peek (env.delegationRecordPda pk)).getD ⟨pk, slot⟩
  have hkey : env.delegationRecordPda parked.pubkey = env.delegationRecordPda pk := by
    cases hpeek : t.parked.peek (env.delegationRecordPda pk) with
    | none => simp only [parked, hpeek, Option.getD_none]
    | some candidate =>
      simp only [parked, hpeek, Option.getD_some]
      exact h.keyed hpeek
  refine ⟨?_, ?_, fun {k candidate} hk => ?_⟩
  · rw [DlpCollisionTracker.park, h.record]
    split_ifs <;> rfl
  · rw [DlpCollisionTracker.park, peek_put hroom]
    split_ifs with hrec hp hp
    · subst hp
      have hslot : parked = ⟨pk, v.parked.getD slot⟩ := by
        simp only [parked, h.parked]
        cases v.parked <;> rfl
      exact congrArg (fun c : ParkedCollisionCandidate => some { c with slot := max c.slot slot })
        hslot
    · exact absurd (hpda hrec).symm hp
    · exact absurd (congrArg _ hp.symm) hrec
    · exact h.parked
  · rw [DlpCollisionTracker.park, peek_put hroom] at hk
    split_ifs at hk with heq
    · cases hk
      exact hkey.trans heq.symm
    · exact h.keyed hk

/-- A sighting changes what is known under its record. -/
theorem Agrees.sightRecord (h : Agrees env a t v)
    (hroom : t.recordSlots.full recordPubkey = false) (slot : Slot) :
    Agrees env a (t.sightRecord recordPubkey slot).1
      (if recordPubkey = env.delegationRecordPda a then (v.handle (.record slot)).1 else v) ∧
    ((t.sightRecord recordPubkey slot).2.map (·.pubkey) = some a ↔
      recordPubkey = env.delegationRecordPda a ∧ (v.handle (.record slot)).2 = true) := by
  by_cases hrec : recordPubkey = env.delegationRecordPda a
  · subst hrec
    have hany (x : Slot) : ((t.parked.peek (env.delegationRecordPda a)).any fun candidate =>
        decide (candidate.slot ≤ x)) = v.parked.any (· ≤ x) := by
      rw [h.parked]
      cases v.parked <;> rfl
    have hput : (t.recordSlots.put (env.delegationRecordPda a)
        (max (v.record.getD slot) slot)).peek (env.delegationRecordPda a) =
          some (max (v.record.getD slot) slot) :=
      (peek_put hroom).trans (if_pos rfl)
    simp only [DlpCollisionTracker.sightRecord, CollisionView.handle, h.record, hany, if_true,
      true_and]
    split_ifs with hle
    · refine ⟨⟨hput, peek_pop.trans (if_pos rfl), fun {k candidate} hk => ?_⟩, ?_⟩
      · rw [peek_pop] at hk
        split_ifs at hk
        exact h.keyed hk
      · obtain ⟨p, hp, -⟩ := (any_eq_true _ _).mp hle
        simp [h.parked, hp]
    · exact ⟨⟨hput, h.parked, h.keyed⟩, by simp⟩
  · have hne (x : Slot) : (t.recordSlots.put recordPubkey x).peek
        (env.delegationRecordPda a) = v.record :=
      (peek_put hroom).trans ((if_neg (Ne.symm hrec)).trans h.record)
    simp only [DlpCollisionTracker.sightRecord, hrec, if_false, false_and, iff_false]
    split_ifs with hle
    · refine ⟨⟨hne _, ?_, fun {k candidate} hk => ?_⟩, ?_⟩
      · exact peek_pop.trans ((if_neg (Ne.symm hrec)).trans h.parked)
      · rw [peek_pop] at hk
        split_ifs at hk
        exact h.keyed hk
      · intro hrel
        obtain ⟨candidate, hcand, rfl⟩ := Option.map_eq_some_iff.mp hrel
        exact hrec (h.keyed hcand).symm
    · exact ⟨⟨hne _, h.parked, h.keyed⟩, by simp⟩

variable {e : CollisionEvent} {es : List CollisionEvent}

/-- **An event is handled for the account it is about**, and for no other. -/
theorem Agrees.step (h : Agrees env a t v) (hpda : Injective env.delegationRecordPda)
    (hroom : t.evicts env e = false) :
    Agrees env a (t.handle env e).1 ((e.sight env a).elim v fun s => (v.handle s).1) ∧
      ((t.handle env e).2 = some a ↔ ∃ s, e.sight env a = some s ∧ (v.handle s).2 = true) := by
  cases e with
  | update pk slot =>
    by_cases hsigh : t.sighted env pk slot = true
    · have hhdl : t.handle env (.update pk slot) =
          ({ t with recordSlots := t.recordSlots.touch (env.delegationRecordPda pk) },
            some pk) := by
        simp [DlpCollisionTracker.handle, DlpCollisionTracker.checkOrPark, hsigh]
      rw [hhdl, CollisionEvent.sight]
      by_cases hp : pk = a
      · subst hp
        rw [sighted_eq h] at hsigh
        have hview : v.handle (.update slot) = (v, true) := by
          rw [CollisionView.handle, if_pos hsigh]
        simp only [if_true, elim_some, hview, true_iff]
        exact ⟨h.touch _, _, rfl, congrArg Prod.snd hview⟩
      · simp only [if_neg hp, Option.elim_none, reduceCtorEq, false_and, exists_false, iff_false]
        exact ⟨h.touch _, fun heq => hp (Option.some.inj heq)⟩
    · have hfull : t.parked.full (env.delegationRecordPda pk) = false := by
        simpa [DlpCollisionTracker.evicts, hsigh] using hroom
      have hhdl : t.handle env (.update pk slot) =
          (DlpCollisionTracker.park env { t with
            recordSlots := t.recordSlots.touch (env.delegationRecordPda pk) } pk slot,
            none) := by
        simp [DlpCollisionTracker.handle, DlpCollisionTracker.checkOrPark, hsigh, hfull]
      have hagree := (h.touch (env.delegationRecordPda pk)).park hpda hfull slot
      rw [hhdl]
      rw [CollisionEvent.sight]
      by_cases hp : pk = a
      · subst hp
        rw [sighted_eq h] at hsigh
        have hview : v.handle (.update slot) =
            ({ v with parked := some (max (v.parked.getD slot) slot) }, false) := by
          rw [CollisionView.handle, if_neg hsigh]
        rw [if_pos rfl] at hagree
        rw [if_pos rfl, elim_some, hview]
        exact ⟨hagree, by simp [hview]⟩
      · rw [if_neg hp] at hagree
        rw [if_neg hp]
        exact ⟨hagree, by simp⟩
  | sighting recordPubkey slot =>
    obtain ⟨hagree, hrel⟩ := h.sightRecord hroom slot
    rw [CollisionEvent.sight]
    by_cases hrec : recordPubkey = env.delegationRecordPda a
    · rw [if_pos hrec] at hagree ⊢
      refine ⟨hagree, hrel.trans ?_⟩
      simp [hrec]
    · rw [if_neg hrec] at hagree ⊢
      refine ⟨hagree, hrel.trans ?_⟩
      simp [hrec]

/-- **While nothing is evicted the tracker is one for each account.** -/
theorem agrees_after (hpda : Injective env.delegationRecordPda) (h : Unevicted env es) :
    Agrees env a (after env es) (CollisionView.after (es.filterMap (·.sight env a))) := by
  induction es using reverseRecOn with
  | nil => exact ⟨rfl, rfl, nofun⟩
  | append_singleton es e ih =>
    have hes : Unevicted env es :=
      fun before e' hinit => h before e' (hinit.trans (prefix_append _ _))
    have hstep := ((ih hes).step hpda (h es e (prefix_refl _))).1
    rw [DlpCollisionTracker.after_concat, filterMap_append]
    cases hs : e.sight env a with
    | none =>
      rw [hs] at hstep
      simpa [hs] using hstep
    | some s =>
      rw [hs] at hstep
      simpa [hs, CollisionView.after_concat] using hstep

theorem update_mem : .update s ∈ es.filterMap (·.sight env a) ↔ .update a s ∈ es := by
  rw [mem_filterMap]
  constructor
  · rintro ⟨e, he, hsight⟩
    cases e with
    | update pk slot =>
      rw [CollisionEvent.sight] at hsight
      split_ifs at hsight with hp
      cases hsight
      exact hp ▸ he
    | sighting recordPubkey slot =>
      rw [CollisionEvent.sight] at hsight
      split_ifs at hsight
      cases hsight
  · exact fun he => ⟨_, he, if_pos rfl⟩

theorem record_mem : .record r ∈ es.filterMap (·.sight env a) ↔
      .sighting (env.delegationRecordPda a) r ∈ es := by
  rw [mem_filterMap]
  constructor
  · rintro ⟨e, he, hsight⟩
    cases e with
    | update pk slot =>
      rw [CollisionEvent.sight] at hsight
      split_ifs at hsight
      cases hsight
    | sighting recordPubkey slot =>
      rw [CollisionEvent.sight] at hsight
      split_ifs at hsight with hp
      cases hsight
      exact hp ▸ he
  · exact fun he => ⟨_, he, if_pos rfl⟩

/-- An event releases the account if it does so for the account alone. -/
theorem release_iff (hpda : Injective env.delegationRecordPda) (h : Unevicted env es)
    (hinit : before ++ [e] <+: es) :
    ((after env before).handle env e).2 = some a ↔ ∃ s, e.sight env a = some s ∧
      ((CollisionView.after (before.filterMap (·.sight env a))).handle s).2 = true := by
  have hbef : Unevicted env before := fun before' e' hinit' =>
    h before' e' ((hinit'.trans (prefix_append _ _)).trans hinit)
  exact ((agrees_after hpda hbef).step hpda (h before e hinit)).2

theorem filterMap_concat (h : e.sight env a = some s) :
    (es ++ [e]).filterMap (·.sight env a) = es.filterMap (·.sight env a) ++ [s] := by
  rw [filterMap_append, filterMap_cons_some h, filterMap_nil]

/-- Without a release nothing is released for the account alone. -/
theorem silent_of_unreleased (hpda : Injective env.delegationRecordPda) (h : Unevicted env es)
    (hno : ∀ before e, before ++ [e] <+: es → ((after env before).handle env e).2 ≠ some a) :
    Silent (es.filterMap (·.sight env a)) := by
  induction es using reverseRecOn with
  | nil => exact fun before s hinit => absurd (prefix_nil.mp hinit) (by simp)
  | append_singleton es e ih =>
    have hes := ih (fun before e' hinit => h before e' (hinit.trans (prefix_append _ _)))
      fun before e' hinit => hno before e' (hinit.trans (prefix_append _ _))
    cases hs : e.sight env a with
    | none => rwa [filterMap_append, filterMap_cons_none hs, filterMap_nil, append_nil]
    | some s =>
      rw [filterMap_concat hs, CollisionView.silent_concat]
      refine ⟨hes, Bool.eq_false_iff.mpr fun hrel => ?_⟩
      exact hno es e (prefix_refl _) ((release_iff hpda h (prefix_refl _)).mpr ⟨s, hs, hrel⟩)

/-- **The account is released if the tracker for it alone releases.** -/
theorem releasedAfterBoth_iff (hpda : Injective env.delegationRecordPda) (h : Unevicted env es) :
    ReleasedAfterBoth env a es ↔ ¬ Silent (es.filterMap (·.sight env a)) := by
  constructor
  · rintro ⟨before, e, hinit, hrel, -⟩ hsil
    obtain ⟨s, hs, hrelease⟩ := (release_iff hpda h hinit).mp hrel
    have hinit' := hinit.filterMap (·.sight env a)
    rw [filterMap_concat hs] at hinit'
    exact Bool.false_ne_true ((hsil _ _ hinit').symm.trans hrelease)
  · intro hsil
    by_contra hno
    refine hsil (silent_of_unreleased hpda h fun before e hinit hrel => hno ?_)
    obtain ⟨s, hs, hrelease⟩ := (release_iff hpda h hinit).mp hrel
    obtain ⟨x, r, hle, hx, hr⟩ := CollisionView.paired_of_release hrelease
    rw [← filterMap_concat hs] at hx hr
    exact ⟨before, e, hinit, hrel, x, r, hle, update_mem.mp hx, record_mem.mp hr⟩

end Refinement

/-! ### Every order of arrival -/

def CollisionEvent.isUpdate : CollisionEvent → Bool
  | update .. => true
  | sighting .. => false

/-- **In every order of arrival the account is released**, once an update and a sighting not older
have arrived, if and only if one of the sightings is as new as all updates of the account. -/
theorem released_in_every_order_iff {env : CloneEnv}
    (hpda : Injective env.delegationRecordPda) (a : Pubkey) {es : List CollisionEvent}
    (hroom : ∀ es', es'.Perm es → Unevicted env es') :
    (Paired env a es → ∀ es', es'.Perm es → ReleasedAfterBoth env a es') ↔
      (Paired env a es → ∃ r, .sighting (env.delegationRecordPda a) r ∈ es ∧
        ∀ s, .update a s ∈ es → s ≤ r) := by
  refine imp_congr_right fun hpair => ⟨fun hall => ?_, ?_⟩
  · -- updates first: if there is no such sighting, nothing is released
    by_contra! hno
    let es' := es.filter CollisionEvent.isUpdate ++ es.filter fun e => !e.isUpdate
    have hperm : es'.Perm es := List.filter_append_perm _ _
    refine (releasedAfterBoth_iff hpda (hroom es' hperm)).mp (hall es' hperm) ?_
    rw [filterMap_append]
    refine CollisionView.silent_updates_first (fun s hs => ?_) fun s hs => ?_
    · cases s with
      | update x => exact ⟨x, rfl⟩
      | record r => cases (mem_filter.mp (record_mem.mp hs)).2
    · cases s with
      | update x => cases (mem_filter.mp (update_mem.mp hs)).2
      | record r =>
        obtain ⟨x, hx, hlt⟩ := hno r (mem_filter.mp (record_mem.mp hs)).1
        exact ⟨r, rfl, x, update_mem.mpr (mem_filter.mpr ⟨hx, rfl⟩), hlt⟩
  · rintro ⟨r, hr, hle⟩ es' hperm
    obtain ⟨s, -, -, hs, -⟩ := hpair
    refine (releasedAfterBoth_iff hpda (hroom es' hperm)).mpr (CollisionView.not_silent
      (record_mem.mpr (hperm.mem_iff.mpr hr)) (fun y hy => ?_)
      (update_mem.mpr (hperm.mem_iff.mpr hs)))
    exact hle y (hperm.mem_iff.mp (update_mem.mp hy))

/-! ### Few events -/

/-- The caches hold at most one entry for each event. -/
theorem length_after (env : CloneEnv) (es : List CollisionEvent) :
    (after env es).parked.entries.length ≤ es.length ∧
      (after env es).recordSlots.entries.length ≤ es.length := by
  induction es using reverseRecOn with
  | nil => exact ⟨le_rfl, le_rfl⟩
  | append_singleton es e ih =>
    rw [DlpCollisionTracker.after_concat, length_append, length_singleton]
    obtain ⟨hpark, hrecs⟩ := ih
    cases e with
    | update pk slot =>
      refine ⟨?_, ?_⟩
      · simp only [DlpCollisionTracker.handle, DlpCollisionTracker.checkOrPark]
        split_ifs
        · exact hpark.trans (Nat.le_succ _)
        · exact hpark.trans (Nat.le_succ _)
        · exact length_put.trans (Nat.succ_le_succ hpark)
      · have htouch := length_touch (c := (after env es).recordSlots)
          (k := env.delegationRecordPda pk)
        simp only [DlpCollisionTracker.handle, DlpCollisionTracker.checkOrPark]
        split_ifs <;> exact htouch.trans (Nat.succ_le_succ hrecs)
    | sighting recordPubkey slot =>
      simp only [DlpCollisionTracker.handle, DlpCollisionTracker.sightRecord]
      split_ifs
      · exact ⟨(length_pop.trans hpark).trans (Nat.le_succ _),
          length_put.trans (Nat.succ_le_succ hrecs)⟩
      · exact ⟨hpark.trans (Nat.le_succ _), length_put.trans (Nat.succ_le_succ hrecs)⟩

theorem unevicted_of_length_le (env : CloneEnv) (h : es.length ≤ 16384) : Unevicted env es := by
  intro before e hinit
  have hlen := hinit.length_le
  rw [length_append, length_singleton] at hlen
  obtain ⟨hpark, hrecs⟩ := length_after env before
  have hroom {β : Type} {capacity : ℕ} {c : Lru Pubkey β capacity} {k : Pubkey}
      (hc : c.entries.length < capacity) : c.full k = false := by
    rw [full, decide_eq_false hc.not_ge, Bool.and_false]
  cases e with
  | update pk slot =>
    rw [DlpCollisionTracker.evicts, hroom (by omega), Bool.and_false]
  | sighting recordPubkey slot => exact hroom (by omega)

theorem small_pda_injective : Injective CloneEnv.small.delegationRecordPda := by
  intro x y h
  exact (BitVec.add_left_inj 100).mp h

/-- **A newer update hides the one before** — with updates at slots 5 and 10 and the record seen at
slot 7 after them, the account is not released; with the record first, it is. -/
theorem not_released_of_newer_update :
    let es : List CollisionEvent := [.update 1 5, .update 1 10, .sighting 101 7]
    Unevicted .small es ∧ Paired .small 1 es ∧ ¬ ReleasedAfterBoth .small 1 es ∧
      ReleasedAfterBoth .small 1 [.sighting 101 7, .update 1 5, .update 1 10] := by
  refine ⟨unevicted_of_length_le _ (by decide), ⟨5, 7, by decide, by decide, by decide⟩, ?_,
    [.sighting 101 7], .update 1 5, by decide, by decide +kernel, 5, 7,
    by decide, by decide, by decide⟩
  rw [releasedAfterBoth_iff small_pda_injective (unevicted_of_length_le _ (by decide)), not_not]
  have hsil : CollisionView.Silent ([.update 5, .update 10] ++ [.record 7]) := by
    refine CollisionView.silent_updates_first (fun s hs => ?_) fun s hs => ?_
    · rcases mem_pair.mp hs with rfl | rfl
      · exact ⟨5, rfl⟩
      · exact ⟨10, rfl⟩
    · exact ⟨7, mem_singleton.mp hs, 10, mem_pair.mpr (.inr rfl), by decide⟩
  exact hsil

/-- An update and a sighting at a later slot. -/
theorem released_in_every_order_of_two :
    let es : List CollisionEvent := [.update 1 5, .sighting 101 7]
    Paired .small 1 es ∧ ∀ es', es'.Perm es → ReleasedAfterBoth .small 1 es' := by
  intro es
  have hpair : Paired .small 1 es := ⟨5, 7, by decide, by decide, by decide⟩
  have hroom (es' : List CollisionEvent) (hperm : es'.Perm es) : Unevicted .small es' :=
    unevicted_of_length_le _ (hperm.length_eq.trans_le (by decide))
  refine ⟨hpair, (released_in_every_order_iff small_pda_injective 1 hroom).mpr (fun _ => ?_) hpair⟩
  refine ⟨7, by decide, fun s hs => ?_⟩
  rcases mem_pair.mp hs with hs | hs
  · cases hs
    decide
  · cases hs

end Magicblock.Chainlink
