import Magicblock.Submux.Mux

/-!
# Submux/Newest — debouncing keeps the newest state

Along every run, for each account: the highest slot that passed deduplication is forwarded or
pending (or in the hands of a forwarder); what is pending is forwarded by the next flush at which it
is due, if nothing of at least its slot was forwarded before; and while debouncing stays enabled
forwarded updates are an interval apart.
-/

namespace Magicblock.Submux

open MuxConfig Forwarder

open Relation (ReflTransGen)
open Multiset (coe_add coe_singleton cons_bind)

variable {cfg : MuxConfig} {s t : Mux} {v w : Feed}

/-! ### Every step is a step of each account -/

namespace Mux

/-- A pending update is one of its account. -/
def Labelled (s : Mux) : Prop :=
  ∀ pubkey update, (s.feed pubkey).pending = some update → update.pubkey = pubkey

/-- An update or the pending one is of the account of the update. -/
theorem Labelled.selected (hl : s.Labelled) : (MuxConfig.selectUpdate
    (pendingOf (s.debounceStates update.pubkey)) update).pubkey = update.pubkey :=
  pubkey_selectUpdate fun p => hl update.pubkey p

/-- What a flush does to the state of an account. -/
theorem due_cases (cfg : MuxConfig) (s : Mux) (now : Instant) (k : Pubkey) :
    (∃ update next, s.due cfg now k = some update ∧ (s.feed k).pending = some update ∧
      (s.feed k).next = some next ∧ next ≤ now ∧
      ∃ state, (s.debounceStates k).map (fun state => (cfg.flush now state).1) = some state ∧
        state.pending = none ∧ state.next = some (now + cfg.debounceInterval)) ∨
    (s.due cfg now k = none ∧
      (s.debounceStates k).map (fun state => (cfg.flush now state).1) = s.debounceStates k ∧
      ∀ next, (s.feed k).next = some next → (s.feed k).pending ≠ none → now < next) := by
  rcases hst : s.debounceStates k with _ | state
  · refine .inr ⟨by simp [due, hst], rfl, ?_⟩
    simp [feed, hst]
  · have hflush : cfg.flush now state = _ := Prod.mk.eta.symm
    rcases flush_cases hflush with
      ⟨update, next, hfwd, hpend, hnext, hdue, hpend', hnext'⟩ | ⟨hfwd, hst', hlate⟩
    · refine .inl ⟨update, next, ?_, ?_, ?_, hdue, _, rfl, hpend', hnext'⟩
      · simp [due, hst, hfwd]
      · simp [feed, hst, hpend]
      · simp [feed, hst, hnext]
    · refine .inr ⟨?_, ?_, ?_⟩
      · simp [due, hst, hfwd]
      · simp [hst']
      · simpa [feed, hst] using hlate

/-- What a flush takes for an account. -/
theorem filter_due_of_flushes (hl : s.Labelled) {now : Instant} {pks : List Pubkey}
    (hnd : pks.Nodup) (hpks : ∀ k, k ∈ pks ↔ (s.debounceStates k).isSome) (k : Pubkey) :
    (pks.filterMap (s.due cfg now)).filter (·.pubkey = k) = (s.due cfg now k).toList := by
  have hlabel : ∀ pk update, s.due cfg now pk = some update → update.pubkey = pk := by
    intro pk update hdue
    rcases s.due_cases cfg now pk with ⟨update', next, hdue', hpend, -⟩ | ⟨hdue', -⟩
    · cases hdue'.symm.trans hdue
      exact hl pk _ hpend
    · exact absurd (hdue'.symm.trans hdue) (Option.some_ne_none update).symm
  rw [filter_filterMap_label hlabel hnd]
  split_ifs with hk
  · rfl
  · have hnone : s.debounceStates k = none := by simpa using mt (hpks k).mpr hk
    simp [due, hnone]

/-- What a flush forwards for an account. -/
theorem forwarded_of_flushes (hl : s.Labelled) {now : Instant} (h : s.Flushes cfg now t)
    (k : Pubkey) : (t.feed k).forwarded =
      (s.feed k).forwarded ++ ((s.due cfg now k).map (now, ·)).toList := by
  obtain ⟨-, pks, hnd, hpks, rfl⟩ := h
  rw [feed, feed, flush, List.filter_append, List.filter_map]
  simp only [Function.comp_def, filter_due_of_flushes hl hnd hpks]
  cases s.due cfg now k <;> rfl

theorem feed_of_flushes (hl : s.Labelled) (h : s.Flushes cfg now t) :
    FeedStep cfg (s.feed k) (t.feed k) := by
  have hfwd := forwarded_of_flushes hl h k
  obtain ⟨-, pks, -, -, rfl⟩ := h
  rcases s.due_cases cfg now k with
    ⟨update, next, hdue, hpend, hnext, hle, state, hst, hpend', hnext'⟩ | ⟨hdue, hst, -⟩
  · have hfeed : (s.flush cfg pks now).feed k =
        { s.feed k with
          pending := none, next := some (now + cfg.debounceInterval),
          forwarded := (s.feed k).forwarded ++ [(now, update)],
          period := (s.feed k).period ++ [now] } := by
      refine Feed.ext rfl rfl ?_ ?_ ?_ ?_
      · simp [feed, flush, hst, hpend']
      · simp [feed, flush, hst, hnext']
      · simpa [hdue] using hfwd
      · simp [feed, flush, hdue]
    rw [hfeed]
    exact .flush hpend hnext hle
  · have hfeed : (s.flush cfg pks now).feed k = s.feed k := by
      refine Feed.ext rfl rfl ?_ ?_ ?_ ?_
      · simp [feed, flush, hst]
      · simp [feed, flush, hst]
      · simpa [hdue] using hfwd
      · simp [feed, flush, hdue]
    rw [hfeed]
    exact .idle

end Mux

theorem MuxStep.feed (h : MuxStep cfg s t) (hl : s.Labelled) (k : Pubkey) :
    FeedStep cfg (s.feed k) (t.feed k) := by
  have hidle : FeedStep cfg (s.feed k) (s.feed k) := .idle
  cases h with
  | clock | prune | tick | flushSend | flushDone => exact hidle
  | receive update => simpa [Mux.feed] using hidle
  | @dedup rest update now h =>
    rw [Mux.dedup]
    rcases cfg.shouldForwardDedup s.dedupCache (update.pubkey, update.slot) now with ⟨cache, _ | _⟩
    · simpa [Mux.feed, h] using hidle
    · by_cases hk : update.pubkey = k
      · have hpass : FeedStep cfg (s.feed k) _ := .pass update
        simpa [Mux.feed, h, hk] using hpass
      · simpa [Mux.feed, h, hk] using hidle
  | @forwardDirectly rest update now h hnever =>
    by_cases hk : update.pubkey = k
    · have hinHand : (s.feed k).inHand = update ::ₘ (inHand rest).filter (·.pubkey = k) := by
        simp [Mux.feed, h, hk]
      have hdir := @FeedStep.direct cfg _ _ _ now hinHand
      simpa [Mux.forwardDirectly, Mux.feed, h, hk] using hdir
    · simpa [Mux.forwardDirectly, Mux.feed, h, hk] using hidle
  | @debounce rest update now h hdeb =>
    rcases hhdl : cfg.handleDebounceAndMaybeForward (s.debounceStates update.pubkey) update now
      with ⟨state, forwarded⟩
    by_cases hk : update.pubkey = k
    · subst hk
      have hinHand : (s.feed update.pubkey).inHand =
          update ::ₘ (inHand rest).filter (·.pubkey = update.pubkey) := by
        simp [Mux.feed, h]
      rcases handleDebounceAndMaybeForward_cases hhdl with
        ⟨hfwd, hpend, hnext | ⟨hnext, hdue⟩⟩ | ⟨hfwd, hpend, next, hnext, hnext'⟩
      · have hforw := @FeedStep.forward cfg _ _ _ now hinHand
        simpa [Mux.debounce, hhdl, Mux.feed, hfwd, hpend, hnext, hl.selected] using hforw
      · have hforw := @FeedStep.forwardDue cfg _ _ _ now hinHand hdue
        simpa [Mux.debounce, hhdl, Mux.feed, hfwd, hpend, hnext, hl.selected] using hforw
      · have hhold : FeedStep cfg _ _ := .hold hinHand hnext
        simpa [Mux.debounce, hhdl, Mux.feed, hfwd, hpend, hnext, hnext'] using hhold
    · rcases handleDebounceAndMaybeForward_cases hhdl with
        ⟨hfwd, -⟩ | ⟨hfwd, -⟩
      · simpa [Mux.debounce, hhdl, Mux.feed, h, hk, hfwd, hl.selected,
          Function.update_of_ne (Ne.symm hk)] using hidle
      · simpa [Mux.debounce, hhdl, Mux.feed, h, hk, hfwd,
          Function.update_of_ne (Ne.symm hk)] using hidle
  | send h => simpa [Mux.feed, h] using hidle
  | flush h => exact Mux.feed_of_flushes hl h

/-! ### What an account keeps -/

/-- The highest slot of updates. -/
def highest (updates : Multiset SubscriptionUpdate) : WithBot Slot :=
  (updates.map fun update => (update.slot : WithBot Slot)).sup

@[simp]
theorem highest_cons (update : SubscriptionUpdate) :
    highest (update ::ₘ updates) = max (update.slot : WithBot Slot) (highest updates) := by
  simp [highest]

@[simp]
theorem highest_add (updates updates' : Multiset SubscriptionUpdate) :
    highest (updates + updates') = max (highest updates) (highest updates') := by
  simp [highest]

theorem highest_handedOn (handedOn : List (Instant × SubscriptionUpdate))
    (update : SubscriptionUpdate) :
    highest ((handedOn ++ [(now, update)]).map Prod.snd) =
      max (highest (handedOn.map Prod.snd)) update.slot := by
  rw [List.map_append, ← coe_add, highest_add]
  simp [highest]

theorem highest_none : highest (none : Option SubscriptionUpdate).toList = ⊥ := rfl

theorem highest_some (update : SubscriptionUpdate) :
    highest (some update).toList = update.slot := by
  simp [highest]

theorem highest_selectUpdate (pending : Option SubscriptionUpdate) (update : SubscriptionUpdate) :
    ((selectUpdate pending update).slot : WithBot Slot) =
      max (highest pending.toList) update.slot := by
  rw [slot_selectUpdate]
  cases pending <;> simp [highest]

namespace Feed

/-- What was handed on, what is pending and what forwarders have. -/
def updates (v : Feed) : Multiset SubscriptionUpdate :=
  (v.forwarded.map Prod.snd : Multiset SubscriptionUpdate) + v.pending.toList + v.inHand

structure Kept (config : MuxConfig) (v : Feed) : Prop where
  newest : highest v.updates = highest v.passed
  spaced : v.period.Pairwise fun a b => a + config.debounceInterval ≤ b
  allowed : ∀ next, v.next = some next → ∀ a ∈ v.period, a + config.debounceInterval ≤ next
  idle : v.next = none → v.period = []

end Feed

namespace FeedStep

/-- What is handed on next is an interval after what was handed on in the same period. -/
theorem spaced (hv : v.Kept cfg) (hdue : ∀ next, v.next = some next → next ≤ now) :
    (v.period ++ [now]).Pairwise (fun a b => a + cfg.debounceInterval ≤ b) ∧
      ∀ a ∈ v.period ++ [now], a + cfg.debounceInterval ≤ now + cfg.debounceInterval := by
  have hper : ∀ a ∈ v.period, a + cfg.debounceInterval ≤ now := by
    intro a ha
    rcases hnext : v.next with _ | next
    · rw [hv.idle hnext] at ha
      exact absurd ha List.not_mem_nil
    · exact (hv.allowed next hnext a ha).trans (hdue next hnext)
  refine ⟨List.pairwise_append.mpr ⟨hv.spaced, List.pairwise_singleton _ _, ?_⟩, ?_⟩
  · simpa using hper
  · refine List.forall_mem_append.mpr ⟨fun a ha => ?_, by simp⟩
    exact (hper a ha).trans (Nat.le_add_right _ _)

theorem kept (h : FeedStep cfg v w) (hv : v.Kept cfg) : w.Kept cfg := by
  have hnew := hv.newest
  simp only [Feed.updates, highest_add] at hnew
  cases h with
  | idle => exact hv
  | pass update =>
    refine ⟨?_, hv.spaced, hv.allowed, hv.idle⟩
    simp only [Feed.updates, highest_add, highest_cons, ← hnew]
    ac_rfl
  | direct h =>
    refine ⟨?_, hv.spaced, hv.allowed, hv.idle⟩
    rw [← hnew, h]
    simp only [Feed.updates, highest_add, highest_handedOn, highest_cons]
    ac_rfl
  | forward h =>
    refine ⟨?_, List.Pairwise.nil, nofun, fun _ => rfl⟩
    rw [← hnew, h]
    simp only [Feed.updates, highest_add, highest_handedOn, highest_cons, highest_none,
      max_bot_right, highest_selectUpdate]
    ac_rfl
  | forwardDue h hdue =>
    obtain ⟨hspace, hall⟩ := spaced hv hdue
    refine ⟨?_, hspace, ?_, nofun⟩
    · rw [← hnew, h]
      simp only [Feed.updates, highest_add, highest_handedOn, highest_cons, highest_none,
        max_bot_right, highest_selectUpdate]
      ac_rfl
    · rintro _ ⟨⟩
      exact hall
  | hold h hnext =>
    refine ⟨?_, hv.spaced, hv.allowed, hv.idle⟩
    rw [← hnew, h]
    simp only [Feed.updates, highest_add, highest_cons, highest_some, highest_selectUpdate]
    ac_rfl
  | flush hpend hnext hdue =>
    obtain ⟨hspace, hall⟩ := spaced hv fun next' hnext' =>
      (Option.some.inj (hnext.symm.trans hnext')) ▸ hdue
    refine ⟨?_, hspace, ?_, nofun⟩
    · rw [← hnew, hpend]
      simp only [Feed.updates, highest_add, highest_handedOn, highest_none, highest_some,
        max_bot_right]
    · rintro _ ⟨⟩
      exact hall

/-- Only updates of the account become pending. -/
theorem pubkey_pending (h : FeedStep cfg v w) (hinHand : ∀ u ∈ v.inHand, u.pubkey = k)
    (hpend : ∀ u, v.pending = some u → u.pubkey = k) : ∀ u, w.pending = some u → u.pubkey = k := by
  cases h with
  | idle | pass | direct => exact hpend
  | forward | forwardDue | flush => exact nofun
  | @hold rest update next h hnext =>
    have hupd : update.pubkey = k := hinHand update (h ▸ Multiset.mem_cons_self _ _)
    rintro _ ⟨⟩
    rw [pubkey_selectUpdate fun p hp => (hpend p hp).trans hupd.symm, hupd]

/-- Of what was pending at `v`, something as new was handed on or is still pending, and as early. -/
def Owed (v : Feed) (update : SubscriptionUpdate) (next : Instant) (w : Feed) : Prop :=
  ∃ handedOn, w.forwarded = v.forwarded ++ handedOn ∧
    ((∃ x ∈ handedOn, update.slot ≤ x.2.slot) ∨
      w.next = some next ∧ ∃ u, w.pending = some u ∧ update.slot ≤ u.slot)

theorem le_slot_selectUpdate
    (hpend : pending = some u) : u.slot ≤ (selectUpdate pending update).slot := by
  subst hpend
  have hslot : (u.slot : WithBot Slot) ≤ (selectUpdate (some u) update).slot := by
    rw [slot_selectUpdate]
    exact le_max_left _ _
  exact WithBot.coe_le_coe.mp hslot

/-- What is handed on pays, if it is as new as what is pending. -/
theorem Owed.pay (hv : Owed u update next v) (hfwd : w.forwarded = v.forwarded ++ [x])
    (hx : ∀ p, v.pending = some p → p.slot ≤ x.2.slot) : Owed u update next w := by
  obtain ⟨handedOn, hhandedOn, hslot⟩ := hv
  refine ⟨handedOn ++ [x], by rw [hfwd, hhandedOn, List.append_assoc], .inl ?_⟩
  rcases hslot with ⟨y, hy, hle⟩ | ⟨-, p, hp, hle⟩
  · exact ⟨y, List.mem_append_left _ hy, hle⟩
  · exact ⟨x, List.mem_append_right _ (List.mem_singleton_self x), hle.trans (hx p hp)⟩

theorem owed (h : FeedStep cfg v w) (hv : Owed u update next v) : Owed u update next w := by
  cases h with
  | idle | pass => exact hv
  | @direct rest x now h =>
    obtain ⟨handedOn, hhandedOn, hslot⟩ := hv
    refine ⟨handedOn ++ [(now, x)], ?_, ?_⟩
    · rw [← List.append_assoc, ← hhandedOn]
    · exact hslot.imp_left fun ⟨y, hy, hle⟩ => ⟨y, List.mem_append_left _ hy, hle⟩
  | forward | forwardDue => exact hv.pay rfl fun p hp => le_slot_selectUpdate hp
  | hold h hnext =>
    obtain ⟨handedOn, hhandedOn, hslot⟩ := hv
    refine ⟨handedOn, hhandedOn, hslot.imp_right fun ⟨hnext', p, hp, hle⟩ => ⟨hnext', _, rfl, ?_⟩⟩
    exact hle.trans (le_slot_selectUpdate hp)
  | flush hpend hnext hdue =>
    refine hv.pay rfl fun p hp => ?_
    rw [hpend] at hp
    cases hp
    exact le_rfl

end FeedStep

/-! ### Whole runs -/

/-- What was handed on was sent or is being sent. -/
theorem MuxStep.channel (h : MuxStep cfg s t)
    (hs : (s.forwarded.map Prod.snd : Multiset SubscriptionUpdate) = s.sent + s.sending) :
    (t.forwarded.map Prod.snd : Multiset SubscriptionUpdate) = t.sent + t.sending := by
  cases h with
  | clock | prune => exact hs
  | receive update => simpa [Mux.sending, unsent] using hs
  | @dedup rest update now h =>
    rw [Mux.dedup]
    rcases cfg.shouldForwardDedup s.dedupCache (update.pubkey, update.slot) now with
      ⟨cache, _ | _⟩ <;> simpa [Mux.sending, h, unsent] using hs
  | @forwardDirectly rest update now h hnever =>
    simp only [Mux.sending, h, unsent, cons_bind, zero_add] at hs
    simp only [Mux.forwardDirectly, Mux.sending, unsent, cons_bind,
      List.map_append, ← coe_add, hs, List.map_cons, List.map_nil, coe_singleton]
    ac_rfl
  | @debounce rest update now h hdeb =>
    rcases hhdl : cfg.handleDebounceAndMaybeForward (s.debounceStates update.pubkey) update now
      with ⟨state, _ | update'⟩
    · simpa [Mux.debounce, hhdl, Mux.sending, h, unsent] using hs
    · simp only [Mux.sending, h, unsent, cons_bind, zero_add] at hs
      simp only [Mux.debounce, hhdl, Mux.sending, unsent, cons_bind,
        Option.elim_some, Option.map_some, Option.toList_some,
        List.map_append, ← coe_add, hs, List.map_cons, List.map_nil, coe_singleton]
      ac_rfl
  | send h =>
    simp only [Mux.sending, h, unsent, cons_bind] at hs
    simp only [Mux.sending, hs, ← coe_add, coe_singleton]
    ac_rfl
  | tick h | flushDone h => simpa [Mux.sending, h, Flusher.unsent] using hs
  | flush h =>
    obtain ⟨htick, pks, -, -, rfl⟩ := h
    simp only [Mux.sending, htick, Flusher.unsent, add_zero] at hs
    simp [Mux.flush, Mux.sending, Flusher.unsent, ← coe_add, hs, add_assoc]
  | flushSend h =>
    simp only [Mux.sending, h, Flusher.unsent, ← Multiset.cons_coe, ← Multiset.singleton_add] at hs
    simp only [Mux.sending, Flusher.unsent, hs, ← coe_add, coe_singleton]
    ac_rfl

/-- What every run of the mux keeps. -/
structure Mux.Sound (config : MuxConfig) (s : Mux) : Prop where
  labelled : s.Labelled
  kept : ∀ k, (s.feed k).Kept config
  channel : (s.forwarded.map Prod.snd : Multiset SubscriptionUpdate) = s.sent + s.sending

theorem Mux.sound_new (cfg : MuxConfig) (clock : Instant) : (Mux.new clock).Sound cfg where
  labelled _ _ hnone := nomatch hnone
  kept _ := ⟨rfl, List.Pairwise.nil, nofun, fun _ => rfl⟩
  channel := rfl

theorem MuxStep.sound (h : MuxStep cfg s t) (hs : s.Sound cfg) : t.Sound cfg where
  labelled k := (h.feed hs.labelled k).pubkey_pending
    (fun _ hu => (Multiset.mem_filter.mp hu).2) (hs.labelled k)
  kept k := (h.feed hs.labelled k).kept (hs.kept k)
  channel := h.channel hs.channel

theorem Mux.Sound.run (hs : s.Sound cfg) (h : ReflTransGen (MuxStep cfg) s t) :
    t.Sound cfg := by
  induction h with
  | refl => exact hs
  | tail _ hstep ih => exact hstep.sound ih

/-- Along a run, what was pending stays owed. -/
theorem Mux.Sound.owed (hs : s.Sound cfg) (h : ReflTransGen (MuxStep cfg) s t)
    (howed : FeedStep.Owed u update next (s.feed k)) : FeedStep.Owed u update next (t.feed k) := by
  induction h with
  | refl => exact howed
  | tail hrun hstep ih => exact (hstep.feed (hs.run hrun).labelled k).owed ih

/-- After a flush nothing due is pending. -/
theorem Mux.late_of_flushes (h : s.Flushes cfg now t) :
    ∀ next, (t.feed k).next = some next → (t.feed k).pending ≠ none → now < next := by
  obtain ⟨-, pks, -, -, rfl⟩ := h
  rcases s.due_cases cfg now k with ⟨_, _, -, -, -, -, state, hst, hpend, -⟩ | ⟨-, hst, hlate⟩
  · have hnone : ((s.flush cfg pks now).feed k).pending = none := by
      simp [feed, flush, hst, hpend]
    exact fun _ _ hpend => absurd hnone hpend
  · simpa only [feed, flush, hst] using hlate

/-- A flush pays what it finds due. -/
theorem Mux.paid_of_flushes
    (hl : s.Labelled) (howed : FeedStep.Owed u update next (s.feed k)) (h : s.Flushes cfg now t)
    (hdue : next ≤ now) : ∃ handedOn, (t.feed k).forwarded = u.forwarded ++ handedOn ∧
      ∃ x ∈ handedOn, update.slot ≤ x.2.slot := by
  obtain ⟨handedOn, hhandedOn, hslot⟩ := (feed_of_flushes hl h).owed howed
  refine ⟨handedOn, hhandedOn, hslot.resolve_right ?_⟩
  rintro ⟨hnext, p, hpend, -⟩
  have hlate : now < next := late_of_flushes h next hnext (by simp [hpend])
  exact absurd hdue hlate.not_ge

/-- What is pending may be forwarded from some instant on. -/
theorem Mux.exists_next (h : (s.feed k).pending = some update) :
    ∃ next, (s.feed k).next = some next := by
  rw [feed] at h ⊢
  rcases hst : s.debounceStates k with _ | ⟨pk, arrivals⟩ | ⟨pk, arrivals, next, pending⟩
  · simp [hst] at h
  · simp [hst] at h
  · exact ⟨next, rfl⟩

/-- **Debouncing keeps the newest state.**  In every run and for each account the highest slot that
passed deduplication is that of the updates handed on, of the pending one and of those on their way
to debouncing; a flush hands on what was pending and due, if nothing as new was handed on before;
and while debouncing stays enabled updates are handed on an interval apart.  What is handed on is
sent. -/
theorem debounce_keeps_newest {clock : Instant} (h : ReflTransGen (MuxStep cfg) (Mux.new clock) s) :
    (∀ k, highest (s.feed k).updates = highest (s.feed k).passed) ∧
    (s.forwarded.map Prod.snd : Multiset SubscriptionUpdate) = s.sent + s.sending ∧
    (∀ k update, (s.feed k).pending = some update → ∃ next, (s.feed k).next = some next ∧
      ∀ t t' now, ReflTransGen (MuxStep cfg) s t → t.Flushes cfg now t' → next ≤ now →
        ∃ handedOn, (t'.feed k).forwarded = (s.feed k).forwarded ++ handedOn ∧
          ∃ x ∈ handedOn, update.slot ≤ x.2.slot) ∧
    (∀ k, (s.feed k).period.Pairwise fun a b => a + cfg.debounceInterval ≤ b) := by
  have hs : s.Sound cfg := (Mux.sound_new cfg clock).run h
  refine ⟨fun k => (hs.kept k).newest, hs.channel, fun k update hpend => ?_,
    fun k => (hs.kept k).spaced⟩
  obtain ⟨next, hnext⟩ := Mux.exists_next hpend
  refine ⟨next, hnext, fun t t' now hrun hfluss hdue => ?_⟩
  have howed : FeedStep.Owed (s.feed k) update next (s.feed k) :=
    ⟨[], by rw [List.append_nil], .inr ⟨hnext, update, hpend, le_rfl⟩⟩
  exact Mux.paid_of_flushes (hs.run hrun).labelled (hs.owed hrun howed) hfluss hdue

namespace MuxExample

def twoInWindow : MuxConfig := ⟨100, 10, 20, []⟩

def updateAt (slot : Slot) : SubscriptionUpdate := ⟨7, slot, none, .account⟩

/-- A forwarder receives an update, and it passes deduplication. -/
def pass (s : Mux) (slot : Slot) : Mux :=
  Mux.dedup twoInWindow { s with forwarders := .received (updateAt slot) s.clock ::ₘ s.forwarders }
    s.forwarders (updateAt slot) s.clock

def arrive (s : Mux) (slot : Slot) : Mux :=
  (pass s slot).debounce twoInWindow s.forwarders (updateAt slot) s.clock

theorem run_arrive
    (h : (pass s slot).forwarders = .passed (updateAt slot) s.clock ::ₘ s.forwarders) :
    ReflTransGen (MuxStep twoInWindow) s (arrive s slot) :=
  .head (.receive (updateAt slot)) (.head (.dedup rfl) (.single (.debounce h (List.not_mem_nil))))

/-- Three updates within an interval. -/
def heldBack : Mux := arrive (arrive (arrive (Mux.new 5) 1) 3) 2

end MuxExample

open MuxExample in
theorem debounce_keeps_newest_pending :
    ReflTransGen (MuxStep twoInWindow) (Mux.new 5) heldBack ∧
      (heldBack.feed 7).pending = some (updateAt 2) ∧
      highest (heldBack.feed 7).updates = highest (heldBack.feed 7).passed := by
  have hrun : ReflTransGen (MuxStep twoInWindow) (Mux.new 5) heldBack :=
    ((run_arrive rfl).trans (run_arrive rfl)).trans (run_arrive rfl)
  exact ⟨hrun, rfl, (debounce_keeps_newest hrun).1 7⟩

end Magicblock.Submux
