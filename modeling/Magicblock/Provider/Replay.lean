import Mathlib.Data.FinEnum
import Magicblock.Provider.MatchSlots

/-!
# Provider/Replay — consumed updates go back into the pipeline

A call of `try_get_multi_until_slots_match` that fails puts the updates it consumed into the replay
outbox, where the newest update of an account wins, and then notifies the worker.  The worker takes
entries one by one and sends them on.  Filling the outbox and notifying are two steps, and so are
taking an entry and sending it.

No notification is lost: while the worker sleeps on a filled outbox a permit is there, or a call is
about to leave one.
-/

namespace Magicblock.Provider

open Function

inductive ReplayWorker
  | waiting
  | draining
  | sending (update : ForwardedSubscriptionUpdate)
  | stopped
  deriving DecidableEq

structure Replay where
  outbox : Pubkey → Option ForwardedSubscriptionUpdate
  /-- How many calls have filled the outbox and have yet to notify. -/
  notifying : ℕ
  permit : Bool
  worker : ReplayWorker
  /-- Nobody receives from the pipeline any more. -/
  closed : Bool
  forwarded : List ForwardedSubscriptionUpdate

namespace Replay

def new : Replay where
  outbox _ := none
  notifying := 0
  permit := false
  worker := .waiting
  closed := false
  forwarded := []

/-- One consumed update; it replaces an older entry. -/
def put (outbox : Pubkey → Option ForwardedSubscriptionUpdate) :
    Pubkey × RemoteAccount → Pubkey → Option ForwardedSubscriptionUpdate
  | (pubkey, account) =>
    match outbox pubkey with
    | some existing =>
      if existing.account.slot < account.slot then
        Function.update outbox pubkey (some ⟨pubkey, account, .replay⟩)
      else outbox
    | none => Function.update outbox pubkey (some ⟨pubkey, account, .replay⟩)

/-- **`reforward_consumed_subscription_results`**, up to the notification. -/
def reforward (s : Replay) (consumed : List (Pubkey × RemoteAccount)) : Replay :=
  if consumed.isEmpty then s
  else { s with outbox := consumed.foldl put s.outbox, notifying := s.notifying + 1 }

/-- The worker sleeps, and nobody is about to wake it. -/
def AtRest (s : Replay) : Prop := s.worker = .waiting ∧ s.permit = false ∧ s.notifying = 0

end Replay

/-- A notification, or a step of the worker. -/
inductive DrainStep : Replay → Replay → Prop
  | notify {n : ℕ} (h : s.notifying = n + 1) : DrainStep s { s with notifying := n, permit := true }
  | wake (hwk : s.worker = .waiting) (hperm : s.permit = true) :
      DrainStep s { s with permit := false, worker := .draining }
  | take {update : ForwardedSubscriptionUpdate}
      (hwk : s.worker = .draining) (hent : s.outbox pubkey = some update) :
      DrainStep s
        { s with outbox := Function.update s.outbox pubkey none, worker := .sending update }
  | rest (hwk : s.worker = .draining) (hemp : ∀ pubkey, s.outbox pubkey = none) :
      DrainStep s { s with worker := .waiting }
  | send {update : ForwardedSubscriptionUpdate} (hwk : s.worker = .sending update)
      (hopen : s.closed = false) :
      DrainStep s { s with forwarded := s.forwarded ++ [update], worker := .draining }
  | stop {update : ForwardedSubscriptionUpdate} (hwk : s.worker = .sending update)
      (hclose : s.closed = true) : DrainStep s { s with worker := .stopped }

inductive ReplayStep (builder : AccountBuilder) (text : Pubkey → String) : Replay → Replay → Prop
  /-- A call returns. -/
  | call {pubkeys : List Pubkey} {config : MatchSlotsRetryConfig}
      {first : Except RemoteAccountProviderError (List RemoteAccount)} {chainSlot : Slot}
      {attempts : List Attempt} {call : MatchedFetch}
      (h : tryGetMultiUntilSlotsMatch builder text pubkeys config first chainSlot attempts =
        some call) : ReplayStep builder text s (s.reforward call.reforwarded)
  | drain {s t : Replay} (h : DrainStep s t) : ReplayStep builder text s t
  | close : ReplayStep builder text s { s with closed := true }

/-! ### An entry is renewed, not lost -/

/-- An update in the place of another one: the same, or a newer one of the account. -/
def Renewed (pubkey : Pubkey) (update update' : ForwardedSubscriptionUpdate) : Prop :=
  update' = update ∨ update'.pubkey = pubkey ∧ update.account.slot < update'.account.slot

variable {pk : Pubkey} {u v : ForwardedSubscriptionUpdate}

theorem Renewed.refl : Renewed pk u u := .inl rfl

theorem Renewed.trans (huv : Renewed pk u v) (hvw : Renewed pk v w) : Renewed pk u w := by
  rcases hvw with rfl | ⟨hpk, hslot⟩
  · exact huv
  · rcases huv with rfl | ⟨-, hslot'⟩
    · exact .inr ⟨hpk, hslot⟩
    · exact .inr ⟨hpk, hslot'.trans hslot⟩

theorem Renewed.slot_le (h : Renewed pk u v) : u.account.slot ≤ v.account.slot := by
  rcases h with rfl | ⟨-, hslot⟩
  · exact le_rfl
  · exact hslot.le

namespace Replay

variable {outbox : Pubkey → Option ForwardedSubscriptionUpdate}
  {consumed : List (Pubkey × RemoteAccount)}

theorem put_of_ne (hk : k ≠ entry.1) : put outbox entry k = outbox k := by
  obtain ⟨pk, acc⟩ := entry
  rcases hent : outbox pk with _ | existing
  · simp [put, hent, update_of_ne hk]
  · by_cases hslot : existing.account.slot < acc.slot <;>
      simp [put, hent, hslot, update_of_ne hk]

/-- What is there afterwards for the account. -/
theorem put_self :
    put outbox (pk, acc) pk = some ⟨pk, acc, .replay⟩ ∧
      (∀ u, outbox pk = some u → u.account.slot < acc.slot) ∨
    ∃ u, outbox pk = some u ∧ put outbox (pk, acc) pk = some u ∧ acc.slot ≤ u.account.slot := by
  rcases hent : outbox pk with _ | u
  · exact .inl ⟨by simp [put, hent], nofun⟩
  · by_cases hslot : u.account.slot < acc.slot
    · refine .inl ⟨by simp [put, hent, hslot], ?_⟩
      rintro _ ⟨⟩
      exact hslot
    · exact .inr ⟨u, rfl, by simp [put, hent, hslot], not_lt.mp hslot⟩

theorem put_renewed (h : outbox pk = some u) :
    ∃ v, put outbox entry pk = some v ∧ Renewed pk u v := by
  by_cases hk : pk = entry.1
  · subst hk
    rcases put_self with ⟨hput, hslot⟩ | ⟨v, hv, hput, -⟩
    · exact ⟨_, hput, .inr ⟨rfl, hslot u h⟩⟩
    · obtain rfl := Option.some.inj (hv.symm.trans h)
      exact ⟨v, hput, .refl⟩
  · exact ⟨u, (put_of_ne hk).trans h, .refl⟩

theorem foldl_put_renewed (h : outbox pk = some u) :
    ∃ v, consumed.foldl put outbox pk = some v ∧ Renewed pk u v := by
  induction consumed generalizing outbox u with
  | nil => exact ⟨u, h, .refl⟩
  | cons entry consumed ih =>
    obtain ⟨v, hv, huv⟩ := put_renewed h
    obtain ⟨w, hw, hvw⟩ := ih hv
    exact ⟨w, hw, huv.trans hvw⟩

/-- Entries are under their own account. -/
def Labelled (outbox : Pubkey → Option ForwardedSubscriptionUpdate) : Prop :=
  ∀ pubkey u, outbox pubkey = some u → u.pubkey = pubkey

theorem Labelled.put (h : Labelled outbox) : Labelled (put outbox entry) := by
  intro pk u hu
  by_cases hk : pk = entry.1
  · subst hk
    rcases put_self with ⟨hput, -⟩ | ⟨v, hv, hput, -⟩
    · cases hput.symm.trans hu
      rfl
    · cases hput.symm.trans hu
      exact h _ _ hv
  · exact h pk u ((put_of_ne hk).symm.trans hu)

theorem Labelled.foldl_put (h : Labelled outbox) : Labelled (consumed.foldl Replay.put outbox) := by
  induction consumed generalizing outbox with
  | nil => exact h
  | cons entry consumed ih => exact ih h.put

/-- **What was consumed is in the outbox**, or something as new. -/
theorem mem_foldl_put (h : (pk, acc) ∈ consumed) :
    ∃ u, consumed.foldl put outbox pk = some u ∧ acc.slot ≤ u.account.slot := by
  obtain ⟨before, after, rfl⟩ := List.append_of_mem h
  rw [List.foldl_append, List.foldl_cons]
  have hput : ∃ u, put (before.foldl put outbox) (pk, acc) pk = some u ∧
      acc.slot ≤ u.account.slot := by
    rcases put_self with ⟨hput, -⟩ | ⟨u, -, hput, hslot⟩
    · exact ⟨_, hput, le_rfl⟩
    · exact ⟨u, hput, hslot⟩
  obtain ⟨u, hu, hslot⟩ := hput
  obtain ⟨v, hv, huv⟩ := foldl_put_renewed hu
  exact ⟨v, hv, hslot.trans huv.slot_le⟩

theorem reforward_renewed {s : Replay} (h : s.outbox pk = some u) :
    ∃ v, (s.reforward consumed).outbox pk = some v ∧ Renewed pk u v := by
  rw [reforward]
  split_ifs
  · exact ⟨u, h, .refl⟩
  · exact foldl_put_renewed h

/-! ### Whole runs -/

/-- What every run keeps; while the worker waits on a filled outbox, it is going to be woken. -/
structure Sound (s : Replay) : Prop where
  labelled : Labelled s.outbox
  awake : s.worker = .waiting → s.permit = false → s.notifying = 0 →
    ∀ pubkey, s.outbox pubkey = none
  stopped : s.worker = .stopped → s.closed = true

theorem sound_new : new.Sound := ⟨nofun, fun _ _ _ _ => rfl, nofun⟩

theorem Sound.reforward {s : Replay} (hs : s.Sound) : (s.reforward consumed).Sound := by
  rw [Replay.reforward]
  split_ifs
  · exact hs
  · exact ⟨hs.labelled.foldl_put, nofun, hs.stopped⟩

/-- An update that was in the outbox is still on its way, was forwarded, or renewed. -/
def Owed (before : List ForwardedSubscriptionUpdate) (pubkey : Pubkey)
    (u : ForwardedSubscriptionUpdate) (s : Replay) : Prop :=
  ∃ after, s.forwarded = before ++ after ∧ ∃ v, Renewed pubkey u v ∧
    (v ∈ after ∨ s.worker = .sending v ∨ s.outbox pubkey = some v)

theorem Owed.reforward {s : Replay}
    (hs : s.Owed before pk u) : (s.reforward consumed).Owed before pk u := by
  obtain ⟨after, haft, v, huv, hv⟩ := hs
  have hfwd : (s.reforward consumed).forwarded = s.forwarded := by
    rw [Replay.reforward]
    split_ifs <;> rfl
  have hwk : (s.reforward consumed).worker = s.worker := by
    rw [Replay.reforward]
    split_ifs <;> rfl
  refine ⟨after, hfwd.trans haft, ?_⟩
  rcases hv with hv | hv | hv
  · exact ⟨v, huv, .inl hv⟩
  · exact ⟨v, huv, .inr (.inl (hwk.trans hv))⟩
  · obtain ⟨w, hw, hvw⟩ := reforward_renewed hv
    exact ⟨w, huv.trans hvw, .inr (.inr hw)⟩

/-- What is left to do until the worker rests. -/
noncomputable def work (s : Replay) : ℕ :=
  3 * {pubkey | (s.outbox pubkey).isSome}.ncard + 3 * s.notifying + (if s.permit then 2 else 0) +
    match s.worker with
    | .sending _ => 2
    | .draining => 1
    | _ => 0

end Replay

namespace DrainStep

open Replay

theorem sound (h : DrainStep s t) (hs : s.Sound) : t.Sound := by
  cases h with
  | notify h => exact ⟨hs.labelled, nofun, hs.stopped⟩
  | wake | send =>
    exact ⟨hs.labelled, nofun, nofun⟩
  | @take k w hwk hent =>
    refine ⟨fun k' u hu => ?_, nofun, nofun⟩
    by_cases hk : k' = k
    · subst hk
      simp at hu
    · exact hs.labelled k' u ((update_of_ne hk _ _).symm.trans hu)
  | rest hwk hemp =>
    exact ⟨hs.labelled, fun _ _ _ => hemp, nofun⟩
  | stop hwk hclose => exact ⟨hs.labelled, nofun, fun _ => hclose⟩

theorem owed (h : DrainStep s t) (hopen : t.closed = false)
    (hs : s.Owed before pk u) : t.Owed before pk u := by
  obtain ⟨after, haft, v, huv, hv⟩ := hs
  -- an update on its way is in one place: entries leave the outbox into the worker's hand
  cases h with
  | notify h => exact ⟨after, haft, v, huv, hv⟩
  | wake hwk hperm =>
    rw [hwk] at hv
    exact ⟨after, haft, v, huv, hv.imp_right fun hv => .inr (hv.resolve_left nofun)⟩
  | @take k w hwk hent =>
    rw [hwk] at hv
    refine ⟨after, haft, v, huv, hv.imp_right fun hv => ?_⟩
    have hv : s.outbox pk = some v := hv.resolve_left nofun
    by_cases hk : pk = k
    · subst hk
      cases hent.symm.trans hv
      exact .inl rfl
    · exact .inr ((update_of_ne hk _ _).trans hv)
  | rest hwk hemp =>
    rw [hwk, hemp] at hv
    exact ⟨after, haft, v, huv, .inl (hv.resolve_right (by simp))⟩
  | @send w hwk hopen =>
    refine ⟨after ++ [w], by rw [haft, List.append_assoc], v, huv, ?_⟩
    rcases hv with hv | hv | hv
    · exact .inl (List.mem_append_left _ hv)
    · obtain rfl := ReplayWorker.sending.inj (hwk.symm.trans hv)
      exact .inl (List.mem_append_right _ (List.mem_singleton_self w))
    · exact .inr (.inr hv)
  | stop hwk hclose => exact absurd (hclose.symm.trans hopen) (by decide)

theorem work_lt (h : DrainStep s t) : t.work < s.work := by
  cases h with
  | notify h =>
    simp only [work, h]
    split_ifs <;> omega
  | wake hwk hperm =>
    simp only [work, hwk, hperm]
    simp
  | @take k w hwk hent =>
    have hlt : {pk | (update s.outbox k none pk).isSome}.ncard <
        {pk | (s.outbox pk).isSome}.ncard := by
      refine Set.ncard_lt_ncard ⟨fun k' hk' => ?_, fun hsub => ?_⟩ (Set.toFinite _)
      · by_cases hk : k' = k
        · subst hk
          simp at hk'
        · simpa [update_of_ne hk] using hk'
      · have hmem : k ∈ {pk | (update s.outbox k none pk).isSome} :=
          hsub (by simp [hent])
        simp at hmem
    simp only [work, hwk]
    omega
  | rest hwk | send hwk | stop hwk =>
    simp only [work, hwk]
    omega

end DrainStep

/-- The worker can go on unless it rests. -/
theorem Replay.Sound.exists_drainStep (hs : s.Sound) (hopen : s.closed = false)
    (hrest : ¬ s.AtRest) : ∃ t, DrainStep s t := by
  rcases hnot : s.notifying with _ | n
  · rcases hwk : s.worker with _ | _ | update | _
    · have hperm : s.permit = true := by
        by_contra hperm
        exact hrest ⟨hwk, by simpa using hperm, hnot⟩
      exact ⟨_, .wake hwk hperm⟩
    · by_cases hemp : ∀ pk, s.outbox pk = none
      · exact ⟨_, .rest hwk hemp⟩
      · obtain ⟨k, hk⟩ := not_forall.mp hemp
        obtain ⟨update, hupd⟩ := Option.ne_none_iff_exists'.mp hk
        exact ⟨_, .take hwk hupd⟩
    · exact ⟨_, .send hwk hopen⟩
    · exact absurd ((hs.stopped hwk).symm.trans hopen) (by decide)
  · exact ⟨_, .notify hnot⟩

namespace ReplayStep

theorem sound (h : ReplayStep bld text s t) (hs : s.Sound) : t.Sound := by
  cases h with
  | call h => exact hs.reforward
  | drain h => exact h.sound hs
  | close => exact ⟨hs.labelled, hs.awake, fun _ => rfl⟩

theorem sound_of_run (h : Relation.ReflTransGen (ReplayStep bld text) s t) (hs : s.Sound) :
    t.Sound := by
  induction h with
  | refl => exact hs
  | tail _ hstep ih => exact hstep.sound ih

/-- A pipeline that is open was open before. -/
theorem closed_of_step (h : ReplayStep bld text s t) (hopen : t.closed = false) :
    s.closed = false := by
  cases h with
  | call h =>
    rw [Replay.reforward] at hopen
    split_ifs at hopen <;> exact hopen
  | drain h => cases h <;> exact hopen
  | close => exact nomatch hopen

theorem owed_of_run {before : List ForwardedSubscriptionUpdate}
    (h : Relation.ReflTransGen (ReplayStep bld text) s t) (hopen : t.closed = false)
    (hs : s.Owed before pk u) : t.Owed before pk u := by
  induction h with
  | refl => exact hs
  | tail _ hstep ih =>
    have howed := ih (hstep.closed_of_step hopen)
    cases hstep with
    | call h => exact howed.reforward
    | drain h => exact h.owed hopen howed
    | close => exact nomatch hopen

end ReplayStep

/-- **Matched-slot fetches are consistent and lose nothing.**  A call that succeeds returns accounts
at one slot, at or above the configured floor and everything found before.  A call that fails after
its first fetch leaves in the outbox, for each update it consumed, that update or one as new.  And
while the pipeline is open the worker, which always comes to rest, forwards each entry or a newer
one that replaced it. -/
theorem matched_slots_lose_nothing {bld : AccountBuilder} {text : Pubkey → String} {s : Replay}
    (h : Relation.ReflTransGen (ReplayStep bld text) Replay.new s) :
    (∀ pks config first chainSlot attempts call,
      tryGetMultiUntilSlotsMatch bld text pks config (.ok first) chainSlot attempts = some call →
      (∀ accs, call.result = .ok accs → call.Consistent config accs) ∧
      ∀ err, call.result = .error err → ∀ k acc, (k, acc) ∈ pks.zip first →
        acc.isFound → acc.source = some .subscription →
        ∃ u, (s.reforward call.reforwarded).outbox k = some u ∧ u.pubkey = k ∧
          acc.slot ≤ u.account.slot) ∧
    ∀ k u, s.outbox k = some u →
      ∀ t, Relation.ReflTransGen (ReplayStep bld text) s t → t.closed = false →
        (∀ t', DrainStep t t' → t'.work < t.work) ∧
        (¬ t.AtRest → ∃ t', DrainStep t t') ∧
        (t.AtRest → ∃ after, t.forwarded = s.forwarded ++ after ∧ ∃ v ∈ after, Renewed k u v) := by
  have hs : s.Sound := ReplayStep.sound_of_run h Replay.sound_new
  refine ⟨fun pks config first chainSlot attempts call hcall => ?_, fun k u hu t hrun hopen => ?_⟩
  · obtain ⟨hok, herr⟩ := tryGetMultiUntilSlotsMatch_spec hcall
    refine ⟨hok, fun err hfail k acc hmem hfound hsource => ?_⟩
    have hcons : (k, acc) ∈ call.reforwarded := by
      rw [herr err hfail]
      exact List.mem_filter.mpr ⟨hmem, by simp [hfound, hsource]⟩
    have houtb : (s.reforward call.reforwarded).outbox =
        call.reforwarded.foldl Replay.put s.outbox := by
      rw [Replay.reforward, if_neg]
      rw [List.isEmpty_iff]
      exact List.ne_nil_of_mem hcons
    obtain ⟨u, hu, hslot⟩ := Replay.mem_foldl_put hcons
    rw [houtb]
    exact ⟨u, hu, hs.labelled.foldl_put k u hu, hslot⟩
  · have ht : t.Sound := ReplayStep.sound_of_run hrun hs
    refine ⟨fun t' => DrainStep.work_lt, ht.exists_drainStep hopen, fun hrest => ?_⟩
    have howed : s.Owed s.forwarded k u :=
      ⟨[], by rw [List.append_nil], u, .refl, .inr (.inr hu)⟩
    obtain ⟨after, haft, v, huv, hv⟩ := ReplayStep.owed_of_run hrun hopen howed
    refine ⟨after, haft, v, hv.resolve_right ?_, huv⟩
    rintro (hsend | hent)
    · exact nomatch hrest.1.symm.trans hsend
    · exact nomatch (ht.awake hrest.1 hrest.2.1 hrest.2.2 k).symm.trans hent

namespace ReplayExample

def accountAt (slot : Slot) : AccountSharedData := ⟨1, [], 0, false, 0, .mirrored, slot, 0⟩

def anyBuilder : AccountBuilder where
  build _ slot := accountAt slot
  missing slot := accountAt slot
  slot_build _ _ := rfl
  slot_missing _ := rfl

/-- A subscription resolved the first account, at a later slot than the second one. -/
def fromSubscription : RemoteAccount := .found ⟨accountAt 5, .subscription⟩

def consumedUpdate : ForwardedSubscriptionUpdate := ⟨7, fromSubscription, .replay⟩

def afterFailure : Replay := Replay.new.reforward [(7, fromSubscription)]

def afterReplay : Replay :=
  { Replay.new with
    outbox := Function.update afterFailure.outbox 7 none, forwarded := [consumedUpdate] }

end ReplayExample

open ReplayExample in
theorem matched_slots_lose_nothing_timeout :
    ∃ after, afterReplay.forwarded = afterFailure.forwarded ++ after ∧
      ∃ v ∈ after, Renewed 7 consumedUpdate v := by
  have hcall : tryGetMultiUntilSlotsMatch anyBuilder (fun _ => "") [7, 8] ⟨1, 50, none⟩
      (.ok [fromSubscription, .notFound 3]) 0 [⟨.timeout, 0⟩] =
        some ⟨_, [(7, fromSubscription)], [fromSubscription, .notFound 3]⟩ := rfl
  have hfail : Relation.ReflTransGen (ReplayStep anyBuilder fun _ => "") Replay.new afterFailure :=
    .single (.call hcall)
  have hent : afterFailure.outbox 7 = some consumedUpdate := rfl
  have hemp : ∀ k, afterReplay.outbox k = none := by
    intro k
    by_cases hk : k = 7 <;> simp [afterReplay, afterFailure, Replay.reforward, Replay.put,
      Replay.new, hk]
  have hrepl : Relation.ReflTransGen (ReplayStep anyBuilder fun _ => "") afterFailure afterReplay :=
    .head (.drain (.notify rfl)) <| .head (.drain (.wake rfl rfl)) <|
      .head (.drain (.take rfl hent)) <| .head (.drain (.send rfl rfl)) <|
      .single (.drain (.rest rfl hemp))
  exact ((matched_slots_lose_nothing hfail).2 7 consumedUpdate rfl afterReplay hrepl rfl).2.2
    ⟨rfl, rfl, rfl⟩

end Magicblock.Provider
