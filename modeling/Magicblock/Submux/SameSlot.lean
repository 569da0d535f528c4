import Magicblock.Foundations.History
import Magicblock.Submux.Newest

/-!
# Submux/SameSlot — several images of an account in one slot

Deduplication goes by the account and the slot of an update, and does not look at its image.  If an
account is written several times in a slot, a client delivers several images with that slot; those
that follow the first within the dedup window are taken for duplicates (`not_newest_of_two_writes`).
The consumer is shown the last image if a further one comes when no update of the slot is on its way
and the window is over (`newest_of_apart`).

`Mux.track` is the mux as the images of one account see it; `TrackStep` is all that a step can do to
them.
-/

namespace Magicblock.Submux

open Multiset List MuxConfig

/-! ### The images of one account -/

@[ext]
structure Track where
  clock : Instant
  /-- Before deduplication, with their times of arrival. -/
  received : Multiset (SubscriptionUpdate × Instant)
  /-- After deduplication: held by a forwarder, pending, or being sent. -/
  onWay : Multiset SubscriptionUpdate
  cache : Slot → Option Instant
  sent : List SubscriptionUpdate

def Forwarder.arrival : Forwarder → Option (SubscriptionUpdate × Instant)
  | .received update now => some (update, now)
  | _ => none

/-- The updates that wait for deduplication. -/
def arrivals (forwarders : Multiset Forwarder) : Multiset (SubscriptionUpdate × Instant) :=
  forwarders.filterMap Forwarder.arrival

@[simp]
theorem arrivals_received :
    arrivals (.received update now ::ₘ rest) = (update, now) ::ₘ arrivals rest :=
  filterMap_cons_some Forwarder.arrival _ _ rfl

@[simp]
theorem arrivals_passed : arrivals (.passed update now ::ₘ rest) = arrivals rest :=
  filterMap_cons_none _ _ rfl

@[simp]
theorem arrivals_sending : arrivals (.sending update ::ₘ rest) = arrivals rest :=
  filterMap_cons_none _ _ rfl

/-- The updates of an account that forwarders and the flusher have after deduplication. -/
def carried (flusher : Flusher) (forwarders : Multiset Forwarder) (k : Pubkey) :
    Multiset SubscriptionUpdate :=
  (inHand forwarders + forwarders.bind Forwarder.unsent + flusher.unsent).filter (·.pubkey = k)

@[simp]
theorem carried_received :
    carried flusher (.received update now ::ₘ rest) k = carried flusher rest k := by
  simp [carried, Forwarder.unsent]

@[simp]
theorem carried_passed : carried flusher (.passed update now ::ₘ rest) k =
    if update.pubkey = k then update ::ₘ carried flusher rest k else carried flusher rest k := by
  split_ifs with hk <;> simp [carried, Forwarder.unsent, hk]

@[simp]
theorem carried_sending : carried flusher (.sending update ::ₘ rest) k =
    if update.pubkey = k then update ::ₘ carried flusher rest k else carried flusher rest k := by
  split_ifs with hk <;> simp [carried, Forwarder.unsent, hk]

def Mux.track (s : Mux) (k : Pubkey) : Track where
  clock := s.clock
  received := (arrivals s.forwarders).filter (·.1.pubkey = k)
  onWay := (MuxConfig.pendingOf (s.debounceStates k)).toList + carried s.flusher s.forwarders k
  cache slot := s.dedupCache (k, slot)
  sent := s.sent.filter (·.pubkey = k)

/-- **What a step can do to the images of an account.** -/
inductive TrackStep (config : MuxConfig) : Track → Track → Prop
  | idle : TrackStep config v v
  | clock {now : Instant} (h : v.clock ≤ now) : TrackStep config v { v with clock := now }
  | pass {rest : Multiset (SubscriptionUpdate × Instant)} {update : SubscriptionUpdate}
      {now : Instant} (h : v.received = (update, now) ::ₘ rest) :
      TrackStep config v
        { v with
          received := rest
          onWay := update ::ₘ v.onWay
          cache := Function.update v.cache update.slot (some now) }
  | drop {rest : Multiset (SubscriptionUpdate × Instant)} {update : SubscriptionUpdate}
      {now last : Instant} (h : v.received = (update, now) ::ₘ rest)
      (hlast : v.cache update.slot = some last) (hrec : now - last ≤ config.dedupWindow) :
      TrackStep config v { v with received := rest }
  | discard {rest : Multiset SubscriptionUpdate} {update update' : SubscriptionUpdate}
      (h : v.onWay = update ::ₘ update' ::ₘ rest) (hslot : update.slot ≤ update'.slot) :
      TrackStep config v { v with onWay := update' ::ₘ rest }
  | send {rest : Multiset SubscriptionUpdate} {update : SubscriptionUpdate}
      (h : v.onWay = update ::ₘ rest) :
      TrackStep config v { v with onWay := rest, sent := v.sent ++ [update] }
  | prune (keep : Instant → Bool) :
      TrackStep config v { v with cache := fun slot => (v.cache slot).filter keep }

/-! ### Deliveries -/

/-- **What clients deliver**: the images that an account has had in a slot, by their number. -/
structure Delivery where
  client : ℕ
  version : ℕ
  pubkey : Pubkey
  slot : Slot
  source : SubscriptionSource

section Deliveries

variable (config : MuxConfig) (written : Pubkey → Slot → ℕ → Option Account)

def Delivery.update (d : Delivery) : SubscriptionUpdate :=
  ⟨d.pubkey, d.slot, written d.pubkey d.slot d.version, d.source⟩

structure Deliveries where
  mux : Mux
  delivered : List Delivery

inductive DeliveryEvent
  | delivered (delivery : Delivery)
  | moved

/-- A client delivers the images of a slot in the order in which they were written. -/
def Deliveries.InOrder (s : Deliveries) (d : Delivery) : Prop :=
  ∀ d' ∈ s.delivered, d'.client = d.client → d'.pubkey = d.pubkey → d'.slot = d.slot →
    d'.version < d.version

/-- A delivery starts a forwarder; in all other steps of the mux there are not more of them. -/
inductive DeliveryStep : Deliveries → DeliveryEvent → Deliveries → Prop
  | deliver (h : s.InOrder d) : DeliveryStep s (.delivered d)
        ⟨{ s.mux with
            forwarders := .received (d.update written) s.mux.clock ::ₘ s.mux.forwarders },
          s.delivered ++ [d]⟩
  | move {t : Mux} (h : MuxStep config s.mux t)
      (hcard : t.forwarders.card ≤ s.mux.forwarders.card) :
      DeliveryStep s .moved ⟨t, s.delivered⟩

def deliveryMachine : Machine Deliveries DeliveryEvent where
  start s := ∃ clock, s = ⟨Mux.new clock, []⟩
  step _ := DeliveryStep config written

/-- No update of the account is on its way. -/
def Track.Quiet (v : Track) : Prop := v.received = 0 ∧ v.onWay = 0

/-- The last image of the highest slot of an account, of those that were delivered. -/
def Deliveries.IsNewest (s : Deliveries) (d : Delivery) : Prop :=
  d ∈ s.delivered ∧ ∀ d' ∈ s.delivered, d'.pubkey = d.pubkey →
    d'.slot ≤ d.slot ∧ (d'.slot = d.slot → d'.version ≤ d.version)

/-- **Of each account whose updates have all been handled, the last update that was forwarded for
the highest slot carries the last image that was delivered.** -/
def Deliveries.ShowsNewest (s : Deliveries) : Prop :=
  ∀ d, s.IsNewest d → (s.mux.track d.pubkey).Quiet →
    ∃ update, ((s.mux.track d.pubkey).sent.filter (·.slot = d.slot)).getLast? = some update ∧
      update.account = (d.update written).account

/-- A further image of a slot is a later one, and comes when no update of the slot is on its way and
the dedup window of the last one is over. -/
def Deliveries.Apart (s : Deliveries) : DeliveryEvent → Prop
  | .delivered d => ∀ d' ∈ s.delivered, d'.pubkey = d.pubkey → d'.slot = d.slot →
      (d'.update written).account = (d.update written).account ∨
      d'.version ≤ d.version ∧
        (∀ x ∈ (s.mux.track d.pubkey).received, x.1.slot ≠ d.slot) ∧
        (∀ u ∈ (s.mux.track d.pubkey).onWay, u.slot ≠ d.slot) ∧
        ∀ last, s.mux.dedupCache (d.pubkey, d.slot) = some last →
          config.dedupWindow < s.mux.clock - last
  | .moved => True

end Deliveries

/-! ### Every step is a step of the images of each account -/

variable {config : MuxConfig} {s : Mux} {v : Track}

theorem shouldForwardDedup_cases : config.shouldForwardDedup cache key now =
        (Function.update cache key (some now), true) ∨
      ∃ last, cache key = some last ∧ now - last ≤ config.dedupWindow ∧
        config.shouldForwardDedup cache key now = (cache, false) := by
  rcases hlast : cache key with _ | last
  · exact .inl (by simp [shouldForwardDedup, hlast])
  · by_cases hwin : config.dedupWindow < now - last
    · exact .inl (by simp [shouldForwardDedup, hlast, if_pos hwin])
    · refine .inr ⟨last, rfl, not_lt.mp hwin, ?_⟩
      simp [shouldForwardDedup, hlast, if_neg hwin]

theorem Mux.track_dedup (h : s.forwarders = .received update now ::ₘ rest) :
    TrackStep config (s.track k) ((s.dedup config rest update now).track k) := by
  have hidle : TrackStep config (s.track k) (s.track k) := .idle
  have hrcv (hk : update.pubkey = k) : (s.track k).received =
      (update, now) ::ₘ (arrivals rest).filter (·.1.pubkey = k) := by
    simp [Mux.track, h, hk]
  rw [Mux.dedup]
  obtain hpass | ⟨last, hlast, hrec, hdrop⟩ :=
    @shouldForwardDedup_cases config s.dedupCache (update.pubkey, update.slot) now
  · rw [hpass]
    by_cases hk : update.pubkey = k
    · subst hk
      convert TrackStep.pass (hrcv rfl) using 1
      refine Track.ext rfl ?_ ?_ ?_ rfl
      · simp [Mux.track]
      · simp [Mux.track, h]
      · funext slot
        simp [Mux.track, Function.update_apply]
    · convert hidle using 1
      refine Track.ext rfl ?_ ?_ ?_ rfl
      · simp [Mux.track, h, hk]
      · simp [Mux.track, h, hk]
      · funext slot
        simp [Mux.track, Ne.symm hk]
  · rw [hdrop]
    by_cases hk : update.pubkey = k
    · subst hk
      have hstep := TrackStep.drop (hrcv rfl) hlast hrec
      simpa [Mux.track, h] using hstep
    · simpa [Mux.track, h, hk] using hidle

/-- The update or the pending one is kept. -/
theorem Mux.track_debounce_eq (hl : s.Labelled) (h : s.forwarders = .passed update now ::ₘ rest) :
    (s.debounce config rest update now).track k = if update.pubkey = k then
        { s.track k with
          onWay := selectUpdate (pendingOf (s.debounceStates k)) update
            ::ₘ carried s.flusher rest k }
      else s.track k := by
  rcases hhdl : config.handleDebounceAndMaybeForward (s.debounceStates update.pubkey) update now
    with ⟨state, forwarded⟩
  have hcases := handleDebounceAndMaybeForward_cases hhdl
  split_ifs with hk
  · subst hk
    rcases hcases with ⟨hfwd, hpend, -⟩ | ⟨hfwd, hpend, -⟩ <;>
      simp [Mux.debounce, hhdl, Mux.track, h, hfwd, hpend, hl.selected]
  · rcases hcases with ⟨hfwd, -⟩ | ⟨hfwd, -⟩ <;>
      simp [Mux.debounce, hhdl, Mux.track, h, hfwd, hl.selected, hk,
        Function.update_of_ne (Ne.symm hk)]

/-- Of an update and the pending one, the one with the lower slot is discarded. -/
theorem Mux.track_debounce (hl : s.Labelled) (h : s.forwarders = .passed update now ::ₘ rest) :
    TrackStep config (s.track k) ((s.debounce config rest update now).track k) := by
  rw [Mux.track_debounce_eq hl h]
  split_ifs with hk
  · rcases hpend : pendingOf (s.debounceStates k) with _ | p
    · have hway : (s.track k).onWay = update ::ₘ carried s.flusher rest k := by
        simp [Mux.track, h, hpend, hk]
      rw [selectUpdate, ← hway]
      exact .idle
    · have hway : (s.track k).onWay = update ::ₘ p ::ₘ carried s.flusher rest k := by
        simp [Mux.track, h, hpend, hk]
      rw [selectUpdate]
      split_ifs with hslot
      · exact .discard hway hslot.le
      · exact .discard (hway.trans (cons_swap _ _ _)) (not_lt.mp hslot)
  · exact .idle

/-- What is due goes from pending to being sent. -/
theorem Mux.track_of_flushes (hl : s.Labelled) (h : s.Flushes config now t) :
    t.track k = s.track k := by
  obtain ⟨htick, pks, hnd, hpks, rfl⟩ := h
  refine Track.ext rfl rfl ?_ rfl rfl
  have hcarry : carried (.sending (pks.filterMap (s.due config now))) s.forwarders k =
      carried s.flusher s.forwarders k + (s.due config now k).toList := by
    rw [← Mux.filter_due_of_flushes hl hnd hpks k, ← filter_coe]
    simp [carried, Flusher.unsent, htick]
  have hway : ((s.flush config pks now).track k).onWay =
      (pendingOf ((s.debounceStates k).map fun state => (config.flush now state).1)).toList +
        (carried s.flusher s.forwarders k + (s.due config now k).toList) := by
    rw [← hcarry]
    rfl
  rw [hway]
  rcases s.due_cases config now k with
    ⟨update, next, hdue, hpend, -, -, state, hst, hpend', -⟩ | ⟨hdue, hst, -⟩
  · have hbef : pendingOf (s.debounceStates k) = some update := hpend
    simp [Mux.track, hst, hpend', hdue, hbef, add_comm]
  · simp [Mux.track, hst, hdue]

theorem MuxStep.track (h : MuxStep config s t) (hl : s.Labelled)
    (hcard : t.forwarders.card ≤ s.forwarders.card) (k : Pubkey) :
    TrackStep config (s.track k) (t.track k) := by
  have hidle : TrackStep config (s.track k) (s.track k) := .idle
  cases h with
  | clock h => exact .clock h
  | receive update =>
    rw [card_cons] at hcard
    omega
  | dedup h => exact Mux.track_dedup h
  | forwardDirectly h hnever => simpa [Mux.forwardDirectly, Mux.track, h] using hidle
  | debounce h => exact Mux.track_debounce hl h
  | @send rest update h =>
    by_cases hk : update.pubkey = k
    · have hway : (s.track k).onWay = update ::ₘ
          ((pendingOf (s.debounceStates k)).toList + carried s.flusher rest k) := by
        simp [Mux.track, h, hk]
      have hstep : TrackStep config (s.track k) _ := .send hway
      simpa [Mux.track, h, hk] using hstep
    · simpa [Mux.track, h, hk] using hidle
  | prune h => exact .prune _
  | tick h | flushDone h => simpa [Mux.track, carried, Flusher.unsent, h] using hidle
  | flush h =>
    rw [Mux.track_of_flushes hl h]
    exact .idle
  | @flushSend update rest h =>
    by_cases hk : update.pubkey = k
    · have hway : (s.track k).onWay = update ::ₘ
          ((pendingOf (s.debounceStates k)).toList + carried (.sending rest) s.forwarders k) := by
        simp [Mux.track, carried, Flusher.unsent, h, hk, ← cons_coe]
      have hstep : TrackStep config (s.track k) _ := .send hway
      simpa [Mux.track, h, hk] using hstep
    · simpa [Mux.track, carried, Flusher.unsent, h, hk, ← cons_coe] using hidle

/-! ### The last image of the highest slot -/

namespace Track

/-- Nothing of the account has come. -/
structure Untouched (v : Track) : Prop where
  received : v.received = 0
  onWay : v.onWay = 0
  cache : ∀ slot, v.cache slot = none

/-- The image waits for deduplication, and will pass. -/
def Waiting (config : MuxConfig) (slot : Slot) (v : Track) : Prop :=
  (∃ x ∈ v.received, x.1.slot = slot) ∧ ∀ x ∈ v.received, x.1.slot = slot →
    ∀ last, v.cache slot = some last → config.dedupWindow < x.2 - last

/-- The image has passed: it is on its way, or it is the last that was sent. -/
def Passed (slot : Slot) (image : Option Account) (v : Track) : Prop :=
  (∃ u ∈ v.onWay, u.slot = slot) ∨
    ∃ u, (v.sent.filter (·.slot = slot)).getLast? = some u ∧ u.account = image

/-- **The image comes to be the last that is shown of the highest slot** — all updates of the slot
that are on their way carry it. -/
structure Shows (config : MuxConfig) (slot : Slot) (image : Option Account) (v : Track) : Prop where
  timely : ∀ x ∈ v.received, x.2 ≤ v.clock
  received : ∀ x ∈ v.received, x.1.slot ≤ slot ∧ (x.1.slot = slot → x.1.account = image)
  onWay : ∀ u ∈ v.onWay, u.slot ≤ slot ∧ (u.slot = slot → u.account = image)
  uncached : ∀ later, slot < later → v.cache later = none
  comes : v.Waiting config slot ∨ v.Passed slot image

theorem Passed.send (h : v.Passed slot image) (hway : v.onWay = u ::ₘ rest)
    (hu : u.slot = slot → u.account = image) :
    Passed slot image { v with onWay := rest, sent := v.sent ++ [u] } := by
  by_cases hslot : u.slot = slot
  · refine .inr ⟨u, ?_, hu hslot⟩
    simp [filter_append, hslot]
  · obtain ⟨x, hx, hxslot⟩ | ⟨x, hx, himg⟩ := h
    · rw [hway] at hx
      obtain rfl | hx := mem_cons.mp hx
      · exact absurd hxslot hslot
      · exact .inl ⟨x, hx, hxslot⟩
    · refine .inr ⟨x, ?_, himg⟩
      simpa [filter_append, hslot] using hx

/-- A discarded update leaves one of at least its slot. -/
theorem Passed.discard
    (h : v.Passed slot image) (hway : v.onWay = u ::ₘ u' ::ₘ rest) (hle : u.slot ≤ u'.slot)
    (hu' : u'.slot ≤ slot) : Passed slot image { v with onWay := u' ::ₘ rest } := by
  obtain ⟨x, hx, hxslot⟩ | hsent := h
  · rw [hway] at hx
    obtain rfl | hx := mem_cons.mp hx
    · exact .inl ⟨u', mem_cons_self _ _, le_antisymm hu' (hxslot ▸ hle)⟩
    · exact .inl ⟨x, hx, hxslot⟩
  · exact .inr hsent

end Track

theorem TrackStep.shows (h : TrackStep config v w)
    (hv : v.Shows config slot image) : w.Shows config slot image := by
  cases h with
  | idle => exact hv
  | clock hle => exact { hv with timely := fun x hx => (hv.timely x hx).trans hle }
  | @pass rest update now hrcv =>
    have hrest : ∀ x ∈ rest, x ∈ v.received := fun x hx => hrcv ▸ mem_cons_of_mem hx
    have hupd := hv.received (update, now) (hrcv ▸ mem_cons_self _ _)
    refine ⟨fun x hx => hv.timely x (hrest x hx), fun x hx => hv.received x (hrest x hx),
      forall_mem_cons.mpr ⟨hupd, hv.onWay⟩, ?_, ?_⟩
    · intro later hlater
      have hne : later ≠ update.slot := (hupd.1.trans_lt hlater).ne'
      exact (Function.update_of_ne hne ..).trans (hv.uncached later hlater)
    · by_cases hslot : update.slot = slot
      · exact .inr (.inl ⟨update, mem_cons_self _ _, hslot⟩)
      · obtain ⟨⟨x, hx, hxslot⟩, hpass⟩ | hpassed := hv.comes
        · rw [hrcv] at hx
          obtain rfl | hx := mem_cons.mp hx
          · exact absurd hxslot hslot
          · refine .inl ⟨⟨x, hx, hxslot⟩, fun y hy hyslot last hlast => ?_⟩
            have hcache : v.cache slot = some last :=
              (Function.update_of_ne (Ne.symm hslot) ..).symm.trans hlast
            exact hpass y (hrest y hy) hyslot last hcache
        · exact .inr (hpassed.imp_left fun ⟨u, hu, huslot⟩ =>
            ⟨u, mem_cons_of_mem hu, huslot⟩)
  | @drop rest update now last hrcv hlast hrec =>
    have hrest : ∀ x ∈ rest, x ∈ v.received := fun x hx => hrcv ▸ mem_cons_of_mem hx
    refine { hv with
      timely := fun x hx => hv.timely x (hrest x hx)
      received := fun x hx => hv.received x (hrest x hx)
      comes := hv.comes.imp_left ?_ }
    rintro ⟨⟨x, hx, hxslot⟩, hpass⟩
    refine ⟨⟨x, ?_, hxslot⟩, fun y hy => hpass y (hrest y hy)⟩
    rw [hrcv] at hx
    obtain rfl | hx := mem_cons.mp hx
    · have hwin := hpass (update, now) (hrcv ▸ mem_cons_self _ _) hxslot last (hxslot ▸ hlast)
      exact absurd hrec hwin.not_ge
    · exact hx
  | @discard rest update update' hway hle =>
    have hrest : ∀ u ∈ update' ::ₘ rest, u ∈ v.onWay :=
      fun u hu => hway ▸ mem_cons_of_mem hu
    have hupd' := hv.onWay update' (hrest _ (mem_cons_self _ _))
    exact { hv with
      onWay := fun u hu => hv.onWay u (hrest u hu)
      comes := hv.comes.imp_right fun h => h.discard hway hle hupd'.1 }
  | @send rest update hway =>
    have hupd := hv.onWay update (hway ▸ mem_cons_self _ _)
    exact { hv with
      onWay := fun u hu => hv.onWay u (hway ▸ mem_cons_of_mem hu)
      comes := hv.comes.imp_right fun h => h.send hway hupd.2 }
  | prune keep =>
    have hfilt : ∀ {slot last}, (v.cache slot).filter keep = some last → v.cache slot = some last :=
      fun h => (Option.filter_eq_some_iff.mp h).1
    refine { hv with uncached := fun later hlater => ?_, comes := hv.comes.imp_left ?_ }
    · exact congrArg (Option.filter keep) (hv.uncached later hlater)
    · rintro ⟨hwaits, hpass⟩
      exact ⟨hwaits, fun x hx hxslot last hlast => hpass x hx hxslot last (hfilt hlast)⟩

theorem TrackStep.untouched (h : TrackStep config v w) (hv : v.Untouched) : w.Untouched := by
  cases h with
  | idle | clock => exact ⟨hv.received, hv.onWay, hv.cache⟩
  | pass h | drop h => exact absurd (hv.received.symm.trans h) zero_ne_cons
  | discard h | send h => exact absurd (hv.onWay.symm.trans h) zero_ne_cons
  | prune keep =>
    exact ⟨hv.received, hv.onWay, fun slot => congrArg (Option.filter keep) (hv.cache slot)⟩

/-! ### Arrivals -/

namespace Track

/-- An update arrives. -/
def receive (v : Track) (u : SubscriptionUpdate) : Track :=
  { v with received := (u, v.clock) ::ₘ v.received }

/-- A first or a further image of the highest slot. -/
theorem shows_receive (htim : ∀ x ∈ v.received, x.2 ≤ v.clock)
    (hrcv : ∀ x ∈ v.received, x.1.slot < u.slot) (hway : ∀ x ∈ v.onWay, x.slot < u.slot)
    (hunc : ∀ later, u.slot < later → v.cache later = none)
    (hwin : ∀ last, v.cache u.slot = some last → config.dedupWindow < v.clock - last) :
    (v.receive u).Shows config u.slot u.account where
  timely := forall_mem_cons.mpr ⟨le_rfl, htim⟩
  received := forall_mem_cons.mpr ⟨⟨le_rfl, fun _ => rfl⟩,
    fun x hx => ⟨(hrcv x hx).le, fun heq => absurd heq (hrcv x hx).ne⟩⟩
  onWay x hx := ⟨(hway x hx).le, fun heq => absurd heq (hway x hx).ne⟩
  uncached := hunc
  comes := by
    refine .inl ⟨⟨_, mem_cons_self _ _, rfl⟩, forall_mem_cons.mpr ⟨?_, ?_⟩⟩
    · exact fun _ => hwin
    · exact fun x hx hslot => absurd hslot (hrcv x hx).ne

/-- An update of a lower slot, or one more with the same image. -/
theorem Shows.receive (hv : v.Shows config slot image) (hle : u.slot ≤ slot)
    (himg : u.slot = slot → u.account = image) : (v.receive u).Shows config slot image where
  timely := forall_mem_cons.mpr ⟨le_rfl, hv.timely⟩
  received := forall_mem_cons.mpr ⟨⟨hle, himg⟩, hv.received⟩
  onWay := hv.onWay
  uncached := hv.uncached
  comes := by
    refine hv.comes.imp_left ?_
    rintro ⟨⟨y, hy, hyslot⟩, hpass⟩
    refine ⟨⟨y, mem_cons_of_mem hy, hyslot⟩, forall_mem_cons.mpr ⟨fun _ last hlast => ?_, hpass⟩⟩
    -- the clock is not before the arrival that has been waiting
    have hwin := hpass y hy hyslot last hlast
    exact hwin.trans_le (Nat.sub_le_sub_right (hv.timely y hy) last)

end Track

/-! ### Whole runs -/

section Runs

variable {written : Pubkey → Slot → ℕ → Option Account} {r r' : Deliveries} {d : Delivery}
  {e : DeliveryEvent} {es : List DeliveryEvent} {k : Pubkey}

/-- The mux receives an update. -/
theorem track_deliver_self : ({ s with
    forwarders := .received (d.update written) s.clock ::ₘ s.forwarders } : Mux).track d.pubkey =
      (s.track d.pubkey).receive (d.update written) := by
  simp [Mux.track, Track.receive, Delivery.update]

theorem track_deliver_of_ne (hk : d.pubkey ≠ k) : ({ s with
    forwarders := .received (d.update written) s.clock ::ₘ s.forwarders } : Mux).track k =
      s.track k := by
  simp [Mux.track, Delivery.update, hk]

/-- Nothing of the account was delivered, or the image of one of the deliveries comes to be shown:
it has the highest slot, and no other of the slot is newer and different. -/
def Deliveries.Tracks (config : MuxConfig) (written : Pubkey → Slot → ℕ → Option Account)
    (r : Deliveries) (k : Pubkey) : Prop :=
  (∀ d ∈ r.delivered, d.pubkey ≠ k) ∧ (r.mux.track k).Untouched ∨
  ∃ d ∈ r.delivered, d.pubkey = k ∧
    (r.mux.track k).Shows config d.slot (d.update written).account ∧
    ∀ d' ∈ r.delivered, d'.pubkey = k → d'.slot ≤ d.slot ∧ (d'.slot = d.slot →
      (d'.update written).account = (d.update written).account ∨ d'.version ≤ d.version)

theorem Deliveries.Tracks.move (hr : r.Tracks config written k)
    (hstep : TrackStep config (r.mux.track k) (t.track k)) :
    Deliveries.Tracks config written ⟨t, r.delivered⟩ k := by
  obtain ⟨hnone, hunt⟩ | ⟨d, hd, hk, hshows, hnew⟩ := hr
  · exact .inl ⟨hnone, hstep.untouched hunt⟩
  · exact .inr ⟨d, hd, hk, hstep.shows hshows, hnew⟩

/-- The delivery of a new highest slot, or of a further image of it. -/
theorem Deliveries.tracks_deliver_newest
    (hshows : ((r.mux.track d.pubkey).receive (d.update written)).Shows config
      (d.update written).slot (d.update written).account)
    (hnew : ∀ d' ∈ r.delivered, d'.pubkey = d.pubkey → d'.slot ≤ d.slot ∧ (d'.slot = d.slot →
      (d'.update written).account = (d.update written).account ∨ d'.version ≤ d.version)) :
    Deliveries.Tracks config written ⟨{ r.mux with
      forwarders := .received (d.update written) r.mux.clock ::ₘ r.mux.forwarders },
        r.delivered ++ [d]⟩ d.pubkey := by
  refine .inr ⟨d, List.mem_append_right _ (List.mem_singleton_self d), rfl, ?_, ?_⟩
  · rw [track_deliver_self]
    exact hshows
  · exact List.forall_mem_append.mpr ⟨hnew, by simp⟩

theorem Deliveries.Tracks.deliver (hr : r.Tracks config written d.pubkey)
    (hapart : r.Apart config written (.delivered d)) :
    Deliveries.Tracks config written ⟨{ r.mux with
      forwarders := .received (d.update written) r.mux.clock ::ₘ r.mux.forwarders },
        r.delivered ++ [d]⟩ d.pubkey := by
  obtain ⟨hnone, hunt⟩ | ⟨d₀, hd₀, hk₀, hshows, hnew⟩ := hr
  · refine tracks_deliver_newest ?_ fun d' hd' hk => absurd hk (hnone d' hd')
    refine Track.shows_receive ?_ ?_ ?_ (fun _ _ => hunt.cache _) ?_
    · simp [hunt.received]
    · simp [hunt.received]
    · simp [hunt.onWay]
    · simp [hunt.cache]
  obtain hlt | heq | hgt := lt_trichotomy d.slot d₀.slot
  · -- the update is of a lower slot
    refine .inr ⟨d₀, mem_append_left _ hd₀, hk₀, ?_, ?_⟩
    · rw [track_deliver_self]
      exact hshows.receive hlt.le fun heq => absurd heq hlt.ne
    · exact forall_mem_append.mpr ⟨hnew, by simp [hlt.le, hlt.ne]⟩
  · by_cases himg : (d.update written).account = (d₀.update written).account
    · refine .inr ⟨d₀, mem_append_left _ hd₀, hk₀, ?_, ?_⟩
      · rw [track_deliver_self]
        exact hshows.receive heq.le fun _ => himg
      · exact forall_mem_append.mpr ⟨hnew, by simp [heq, himg]⟩
    · -- a further image of the highest slot
      obtain hsame | ⟨-, hrcv, hway, hwin⟩ := hapart d₀ hd₀ hk₀ heq.symm
      · exact absurd hsame.symm himg
      rw [← heq] at hshows hnew
      refine tracks_deliver_newest (Track.shows_receive hshows.timely ?_ ?_ hshows.uncached hwin) ?_
      · exact fun x hx => lt_of_le_of_ne (hshows.received x hx).1 (hrcv x hx)
      · exact fun u hu => lt_of_le_of_ne (hshows.onWay u hu).1 (hway u hu)
      · intro d' hd' hk
        refine ⟨(hnew d' hd' hk).1, fun hslot => ?_⟩
        exact (hapart d' hd' hk hslot).imp_right And.left
  · refine tracks_deliver_newest (Track.shows_receive hshows.timely ?_ ?_ ?_ ?_) ?_
    · exact fun x hx => (hshows.received x hx).1.trans_lt hgt
    · exact fun u hu => (hshows.onWay u hu).1.trans_lt hgt
    · exact fun later hlater => hshows.uncached later (hgt.trans hlater)
    · intro last hlast
      cases (hshows.uncached d.slot hgt).symm.trans hlast
    · intro d' hd' hk
      have hle := (hnew d' hd' hk).1.trans_lt hgt
      exact ⟨hle.le, fun hslot => absurd hslot hle.ne⟩

/-- The delivery of an update of another account. -/
theorem Deliveries.Tracks.deliver_of_ne (hr : r.Tracks config written k) (hk : d.pubkey ≠ k) :
    Deliveries.Tracks config written ⟨{ r.mux with
      forwarders := .received (d.update written) r.mux.clock ::ₘ r.mux.forwarders },
        r.delivered ++ [d]⟩ k := by
  have hbef : ∀ d' ∈ r.delivered ++ [d], d'.pubkey = k → d' ∈ r.delivered := by
    refine forall_mem_append.mpr ⟨fun d' hd' _ => hd', ?_⟩
    simpa using fun hk' => absurd hk' hk
  rw [Tracks, track_deliver_of_ne hk]
  obtain ⟨hnone, hunt⟩ | ⟨d₀, hd₀, hk₀, hshows, hnew⟩ := hr
  · exact .inl ⟨fun d' hd' hk' => hnone d' (hbef d' hd' hk') hk', hunt⟩
  · exact .inr ⟨d₀, mem_append_left _ hd₀, hk₀, hshows,
      fun d' hd' hk' => hnew d' (hbef d' hd' hk') hk'⟩

theorem DeliveryStep.tracks (h : DeliveryStep config written r e r')
    (hapart : r.Apart config written e) (hl : r.mux.Labelled) (hr : r.Tracks config written k) :
    r'.Tracks config written k := by
  cases h with
  | @deliver d hinOrder =>
    by_cases hk : d.pubkey = k
    · subst hk
      exact hr.deliver hapart
    · exact hr.deliver_of_ne hk
  | move h hcard => exact hr.move (h.track hl hcard k)

theorem DeliveryStep.sound (h : DeliveryStep config written r e r') (hr : r.mux.Sound config) :
    r'.mux.Sound config := by
  cases h with
  | deliver _ => exact (MuxStep.receive _).sound hr
  | move h _ => exact h.sound hr

/-- What comes to be shown is the newest image that was delivered. -/
theorem Deliveries.Tracks.showsNewest (hr : ∀ k, r.Tracks config written k) :
    r.ShowsNewest written := by
  rintro d ⟨hd, hmax⟩ ⟨hrcv, hway⟩
  obtain ⟨hnone, -⟩ | ⟨d₀, hd₀, hk₀, hshows, hnew⟩ := hr d.pubkey
  · exact absurd rfl (hnone d hd)
  have hslot : d.slot = d₀.slot := le_antisymm (hnew d hd rfl).1 (hmax d₀ hd₀ hk₀).1
  have himg : (d₀.update written).account = (d.update written).account := by
    obtain hsame | hle := (hnew d hd rfl).2 hslot
    · exact hsame.symm
    · have hvers := le_antisymm ((hmax d₀ hd₀ hk₀).2 hslot.symm) hle
      simp [Delivery.update, hk₀, hslot, hvers]
  obtain ⟨⟨x, hx, -⟩, -⟩ | ⟨x, hx, -⟩ | ⟨x, hx, hxim⟩ := hshows.comes
  · rw [hrcv] at hx
    exact absurd hx (notMem_zero x)
  · rw [hway] at hx
    exact absurd hx (notMem_zero x)
  · rw [hslot]
    exact ⟨x, hx, hxim.trans himg⟩

/-- **In every run in which further images of a slot come apart, the last image is shown.** -/
theorem newest_of_apart
    (h : ((deliveryMachine config written).guarded (Deliveries.Apart config written)).Run es r) :
    r.ShowsNewest written := by
  have hinv := h.invariant
    (I := fun _ r => r.mux.Sound config ∧ ∀ k, r.Tracks config written k) ?_ ?_
  · exact Deliveries.Tracks.showsNewest hinv.2
  · rintro r ⟨clock, rfl⟩
    refine ⟨Mux.sound_new config clock, fun k => .inl ⟨fun d hd => absurd hd List.not_mem_nil, ?_⟩⟩
    exact ⟨rfl, rfl, fun _ => rfl⟩
  · rintro es r e r' - ⟨hsound, hr⟩ ⟨hapart, hstep⟩
    exact ⟨hstep.sound hsound, fun k => hstep.tracks hapart hsound.labelled (hr k)⟩

end Runs

/-! ### Two images in one slot -/

namespace SameSlotExample

open MuxExample

def image (_ : Pubkey) (_ : Slot) (version : ℕ) : Option Account := some ⟨version, [], 0, false, 0⟩

def delivery (version : ℕ) : Delivery := ⟨0, version, 7, 1, .account⟩

def update (version : ℕ) : SubscriptionUpdate := (delivery version).update image

abbrev machine : Machine Deliveries DeliveryEvent :=
  (deliveryMachine twoInWindow image).guarded (Deliveries.Apart twoInWindow image)

/-- The first image has been forwarded. -/
def first : Deliveries :=
  let received : Mux := { Mux.new 5 with forwarders := .received (update 0) 5 ::ₘ 0 }
  let handled := (received.dedup twoInWindow 0 (update 0) 5).debounce twoInWindow 0 (update 0) 5
  ⟨{ handled with forwarders := 0, sent := [update 0] }, [delivery 0]⟩

theorem run_first : ∃ es, machine.Run es first := by
  have hstart : machine.Run [] ⟨Mux.new 5, []⟩ := .start ⟨5, rfl⟩
  have hsent := hstart.next (.delivered (delivery 0)) ⟨nofun, .deliver nofun⟩
    |>.next .moved ⟨trivial, .move (@MuxStep.dedup _ _ 0 _ _ rfl) (by decide)⟩
    |>.next .moved ⟨trivial, .move (@MuxStep.debounce _ _ 0 (update 0) _ rfl nofun) (by decide)⟩
    |>.next .moved ⟨trivial, .move (@MuxStep.send _ _ 0 (update 0) rfl) (by decide)⟩
  exact ⟨_, hsent⟩

theorem inOrder_second : first.InOrder (delivery 1) := by
  intro d hd
  obtain rfl := List.mem_singleton.mp hd
  exact fun _ _ _ => Nat.one_pos

end SameSlotExample

open SameSlotExample MuxExample in
/-- The second image is taken for a duplicate of the first. -/
theorem not_newest_of_two_writes : ∃ es r, (deliveryMachine twoInWindow image).Run es r ∧
    ¬ r.ShowsNewest image := by
  obtain ⟨es, hfst⟩ := run_first
  have hdrop := hfst.of_guarded.next (.delivered (delivery 1)) (.deliver inOrder_second)
    |>.next .moved (.move (@MuxStep.dedup _ _ 0 _ _ rfl) (Nat.zero_le _))
  refine ⟨_, _, hdrop, fun hshows => ?_⟩
  obtain ⟨u, hu, himg⟩ := hshows (delivery 1) ⟨by simp, by simp [delivery, first]⟩ ⟨rfl, rfl⟩
  obtain rfl : update 0 = u := Option.some.inj hu
  exact absurd himg (by decide)

open SameSlotExample MuxExample in
/-- The second image comes after the window. -/
theorem newest_of_apart_of_two_writes : ∃ es r,
    ((deliveryMachine twoInWindow image).guarded (Deliveries.Apart twoInWindow image)).Run es r ∧
      r.mux.sent = [update 0, update 1] ∧ r.ShowsNewest image := by
  obtain ⟨es, hfst⟩ := run_first
  have hapart : Deliveries.Apart twoInWindow image ⟨{ first.mux with clock := 200 }, [delivery 0]⟩
      (.delivered (delivery 1)) := by
    intro d hd hk hslot
    obtain rfl := List.mem_singleton.mp hd
    refine .inr ⟨Nat.zero_le _, fun x hx => absurd hx (Multiset.notMem_zero x),
      fun u hu => absurd hu (Multiset.notMem_zero u), ?_⟩
    rintro _ ⟨⟩
    decide
  have hsnd := hfst.next .moved ⟨trivial, .move (@MuxStep.clock _ _ 200 (by decide)) le_rfl⟩
    |>.next (.delivered (delivery 1)) ⟨hapart, .deliver inOrder_second⟩
    |>.next .moved ⟨trivial, .move (@MuxStep.dedup _ _ 0 _ _ rfl) (by decide)⟩
    |>.next .moved ⟨trivial, .move (@MuxStep.debounce _ _ 0 (update 1) _ rfl nofun) (by decide)⟩
    |>.next .moved ⟨trivial, .move (@MuxStep.send _ _ 0 (update 1) rfl) (by decide)⟩
  exact ⟨_, _, hsnd, rfl, newest_of_apart hsnd⟩

end Magicblock.Submux
