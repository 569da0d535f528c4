import Magicblock.Foundations.History
import Magicblock.Laser.Manager

/-!
# Laser/Coverage — every subscribed pubkey is in the filter of a stream

Calls come one after the other, each with its own answers of the service, and streams may end in
between.  `Sound` is what each of them keeps: a subscribed pubkey is in the filter that the
current-new stream will be written with next, or in the accepted filter of an old stream.
-/

namespace Magicblock.Laser

open List

open List (append_assoc map_cons mem_append mem_append_left mem_append_right nodup_append'
  nodup_cons)
open Function (update update_apply update_of_ne)
open Exec (meets_bind meets_get meets_handle meets_ite meets_modify meets_pure)

namespace StreamManager

variable {config : StreamManagerConfig} {order : IterationOrder} {commitment : CommitmentLevel}
  {s t : StreamManager} {intact : Prop}

/-! ### Streams that are held -/

/-- The last accepted account filter of a stream. -/
def filter (s : StreamManager) (handle : StreamId) : Finset Pubkey := (s.accepted handle).account

def oldHandles (s : StreamManager) : List StreamId :=
  s.unoptimizedOldHandles ++ s.optimizedOldHandles

def accountHandles (s : StreamManager) : List StreamId := s.currentNewHandle.toList ++ s.oldHandles

def handles (s : StreamManager) : List StreamId :=
  s.accountHandles ++ (s.programSub.map Prod.snd).toList

/-- The handle that belongs to a stream key. -/
def handleAt (s : StreamManager) : StreamKey → Option StreamId
  | .currentNew => s.currentNewHandle
  | .unoptimizedOld i => s.unoptimizedOldHandles[i]?
  | .optimizedOld i => s.optimizedOldHandles[i]?
  | .program => s.programSub.map Prod.snd

/-- The pubkey is in the last accepted filter of an account stream that is held. -/
def Covers (s : StreamManager) (pubkey : Pubkey) : Prop :=
  ∃ handle ∈ s.accountHandles, pubkey ∈ s.filter handle

instance (s : StreamManager) (pubkey : Pubkey) : Decidable (s.Covers pubkey) :=
  inferInstanceAs (Decidable (∃ handle ∈ s.accountHandles, pubkey ∈ s.filter handle))

/-- What holds between two calls; `intact` says that no stream has ended by itself. -/
structure Sound (intact : Prop) (s : StreamManager) : Prop where
  covered : ∀ k ∈ s.subscriptions, k ∈ s.currentNewSubs ∨ ∃ h ∈ s.oldHandles, k ∈ s.filter h
  current : ∀ h, s.currentNewHandle = some h → s.currentNewSubs ⊆ s.filter h
  idle : s.currentNewHandle = none → s.currentNewSubs = ∅
  nodup : s.handles.Nodup
  opened : ∀ h ∈ s.handles, h < s.opened
  matched : intact → ∀ key, s.streamMap key = s.handleAt key

namespace Sound

theorem covers (h : Sound intact s) (hk : k ∈ s.subscriptions) : s.Covers k := by
  rcases h.covered k hk with hcur | ⟨handle, hhdl, hfilt⟩
  · rcases hhdl : s.currentNewHandle with _ | handle
    · rw [h.idle hhdl] at hcur
      exact absurd hcur (Finset.notMem_empty k)
    · refine ⟨handle, ?_, h.current handle hhdl hcur⟩
      simp [accountHandles, hhdl]
  · exact ⟨handle, mem_append_right _ hhdl, hfilt⟩

theorem weaken (h : Sound intact s) (hbroke : broken → intact) :
    Sound broken s :=
  { h with matched := fun hb => h.matched (hbroke hb) }

end Sound

/-! ### What the service does -/

/-- Only the service has moved: streams that were there keep their filters. -/
inductive Serviced (s : StreamManager) : StreamManager → Prop
  | mk {opened : ℕ} {accepted : StreamId → SubscribeRequest} {answers : List (Option String)}
      {iterations : ℕ} {optimizing : Bool} (hopen : s.opened ≤ opened)
      (hacpt : ∀ h < s.opened, accepted h = s.accepted h) :
      Serviced s
        { s with
          opened := opened, accepted := accepted, answers := answers, iterations := iterations,
          optimizing := optimizing }

namespace Serviced

theorem refl (s : StreamManager) : Serviced s s := .mk le_rfl fun _ _ => rfl

theorem trans (h : Serviced s t) (h' : Serviced t u) : Serviced s u := by
  cases h with
  | mk hopen hacpt =>
    cases h' with
    | mk hopen' hacpt' =>
      exact .mk (hopen.trans hopen') fun handle hhdl =>
        (hacpt' handle (hhdl.trans_le hopen)).trans (hacpt handle hhdl)

theorem le_opened (h : Serviced s t) : s.opened ≤ t.opened := by
  cases h with
  | mk hopen _ => exact hopen

theorem accepted_eq (h : Serviced s t) (hhdl : handle < s.opened) :
    t.accepted handle = s.accepted handle := by
  cases h with
  | mk _ hacpt => exact hacpt handle hhdl

theorem handles_eq (h : Serviced s t) : t.handles = s.handles := by
  cases h
  rfl

end Serviced

theorem Sound.serviced (hs : Sound intact s) (h : Serviced s t) : Sound intact t := by
  have hfilt : ∀ handle ∈ s.handles, t.filter handle = s.filter handle := fun handle hhdl =>
    congrArg SubscribeRequest.account (h.accepted_eq (hs.opened handle hhdl))
  have hle := h.le_opened
  cases h with
  | mk hopen hacpt =>
    refine ⟨fun k hk => ?_, fun handle hhdl => ?_, hs.idle, hs.nodup, fun handle hhdl => ?_,
      hs.matched⟩
    · refine (hs.covered k hk).imp_right fun ⟨handle, hhdl, hk⟩ => ⟨handle, hhdl, ?_⟩
      rwa [hfilt handle (by simp [handles, accountHandles, hhdl])]
    · rw [hfilt handle (by simp [handles, accountHandles, show s.currentNewHandle = _ from hhdl])]
      exact hs.current handle hhdl
    · exact (hs.opened handle hhdl).trans_le hle

variable {fromSlot : Slot}

/-- A write ends with the request accepted, or with nothing changed. -/
theorem meets_writeWithRetry : (writeWithRetry handle task request retries).Meets s
      (fun _ t => ∃ answers, t = { s.accept handle request with answers := answers })
      fun _ t => ∃ answers, t = { s with answers := answers } := by
  induction retries generalizing s with
  | zero =>
    simp only [writeWithRetry, write, meets_bind, meets_get, meets_modify]
    rcases s.answers.head?.join with _ | message
    · exact ⟨s.answers.tail, rfl⟩
    · exact ⟨s.answers.tail, rfl⟩
  | succ retries ih =>
    simp only [writeWithRetry, write, meets_bind, meets_get, meets_modify]
    rcases s.answers.head?.join with _ | message
    · exact ⟨s.answers.tail, rfl⟩
    · exact ih

theorem meets_subscribe : (subscribe request).Meets s
      (fun handle t => handle = s.opened ∧ ∃ answers, t =
        { s.accept s.opened request with opened := s.opened + 1, answers := answers })
      fun _ t => ∃ answers, t = { s with opened := s.opened + 1, answers := answers } := by
  simp only [subscribe, meets_bind, meets_get, meets_modify, meets_pure, true_and]
  exact meets_writeWithRetry

theorem serviced_subscribe : (subscribe request).Meets s
      (fun handle t => Serviced s t ∧ handle = s.opened ∧ t.opened = s.opened + 1 ∧
        t.accepted handle = request)
      fun _ t => Serviced s t := by
  refine meets_subscribe.mono ?_ ?_
  · rintro handle t ⟨rfl, answers, rfl⟩
    refine ⟨.mk (Nat.le_succ _) fun h hh => ?_, rfl, rfl, ?_⟩
    · exact update_of_ne (Nat.ne_of_lt hh) _ _
    · exact Function.update_self _ _ _
  · rintro _ t ⟨answers, rfl⟩
    exact .mk (Nat.le_succ _) fun _ _ => rfl

/-- **New streams for a list of requests** — fresh, and each with its request. -/
theorem serviced_mapM_subscribe (f : α → SubscribeRequest) (l : List α) :
    (l.mapM fun a => subscribe (f a)).Meets s
      (fun streams t => Serviced s t ∧ streams.map t.accepted = l.map f ∧ streams.Nodup ∧
        ∀ h ∈ streams, s.opened ≤ h ∧ h < t.opened)
      fun _ t => Serviced s t := by
  induction l generalizing s with
  | nil =>
    rw [mapM_nil, meets_pure]
    exact ⟨.refl s, rfl, nodup_nil, by simp⟩
  | cons a l ih =>
    simp only [mapM_cons, meets_bind, meets_pure]
    refine serviced_subscribe.mono ?_ fun _ _ h => h
    rintro handle u ⟨hu, rfl, hopen, hacpt⟩
    refine ih.mono ?_ fun _ _ h => hu.trans h
    rintro streams t ⟨ht, hmap, hnd, hfr⟩
    have hnew : s.opened < u.opened := hopen ▸ Nat.lt_succ_self _
    refine ⟨hu.trans ht, ?_, nodup_cons.mpr ⟨fun hmem => ?_, hnd⟩, ?_⟩
    · rw [map_cons, map_cons, hmap, ht.accepted_eq hnew, hacpt]
    · exact absurd (hfr _ hmem).1 (Nat.not_le.mpr hnew)
    · rintro h (_ | ⟨_, hh⟩)
      · exact ⟨le_rfl, hnew.trans_le ht.le_opened⟩
      · exact ⟨hnew.le.trans (hfr h hh).1, (hfr h hh).2⟩

/-! ### What calls keep -/

namespace Sound

theorem promote (h : Sound intact s) : Sound intact s.promote := by
  have hperm : s.promote.handles.Perm s.handles := by
    simp only [handles, accountHandles, oldHandles, StreamManager.promote, Option.toList_none,
      nil_append]
    refine List.Perm.append_right _ ?_
    rw [← append_assoc]
    exact perm_append_comm.append_right _
  refine ⟨fun k hk => .inr ?_, nofun, fun _ => rfl,
    hperm.nodup_iff.mpr h.nodup, fun handle hhdl => h.opened handle (hperm.subset hhdl),
    fun hint key => ?_⟩
  · obtain ⟨handle, hhdl, hfilt⟩ := h.covers hk
    refine ⟨handle, ?_, hfilt⟩
    simp only [accountHandles, oldHandles, StreamManager.promote, mem_append] at hhdl ⊢
    tauto
  · have hmat := h.matched hint
    have hcur := hmat .currentNew
    simp only [handleAt] at hcur
    rcases hstr : s.streamMap .currentNew with _ | stream
    · rw [hstr] at hcur
      cases key <;> simp [StreamManager.promote, handleAt, hstr, ← hcur, hmat]
    · rw [hstr] at hcur
      cases key with
      | unoptimizedOld i =>
        rcases lt_trichotomy i s.unoptimizedOldHandles.length with hi | rfl | hi
        · simp [StreamManager.promote, handleAt, hstr, ← hcur, hmat, hi, hi.ne,
            getElem?_append_left hi]
        · simp [StreamManager.promote, handleAt, hstr, ← hcur]
        · simp [StreamManager.promote, handleAt, hstr, ← hcur, hmat, hi.ne', hi.le]
          omega
      | _ => simp [StreamManager.promote, handleAt, hstr, hmat]

/-- Without the account streams only the program stream is left. -/
theorem removeAccountStreams_eq (h : Sound intact s) (hint : intact) (key : StreamKey) :
    s.removeAccountStreams key = if key = .program then s.programSub.map Prod.snd else none := by
  have hmat := h.matched hint
  cases key with
  | currentNew => rfl
  | unoptimizedOld | optimizedOld => simp [removeAccountStreams, hmat, handleAt]
  | program => exact hmat .program

/-- Streams that together cover the subscriptions may replace all account streams. -/
theorem replaceStreams (h : Sound intact s)
    (hcover : ∀ k ∈ s.subscriptions, ∃ handle ∈ streams, k ∈ s.filter handle)
    (hnd : streams.Nodup) (hnew : ∀ handle ∈ streams, handle ∉ s.handles)
    (hopen : ∀ handle ∈ streams, handle < s.opened) : Sound intact (s.replaceStreams streams) := by
  have hmem : ∀ handle ∈ (s.programSub.map Prod.snd).toList, handle ∈ s.handles :=
    fun handle hhdl => mem_append_right _ hhdl
  refine ⟨fun k hk => .inr (hcover k hk), nofun, fun _ => rfl,
    nodup_append'.mpr ⟨hnd, (nodup_append'.mp h.nodup).2.1, ?_⟩, ?_, ?_⟩
  · exact fun handle hhdl hprog => hnew handle hhdl (hmem handle hprog)
  · intro handle hhdl
    rcases mem_append.mp hhdl with hhdl | hhdl
    · exact hopen handle hhdl
    · exact h.opened handle (hmem handle hhdl)
  · intro hint key
    have hrem := h.removeAccountStreams_eq hint
    cases key <;> simp [StreamManager.replaceStreams, insertOptimized, handleAt, hrem]

end Sound

section

variable (h : Sound intact s)

include h

theorem meets_optimize : (optimize config order commitment).Meets s
      (fun _ t => Sound intact t ∧ t.subscriptions = s.subscriptions)
      fun _ t => Sound intact t ∧ t.subscriptions = s.subscriptions := by
  simp only [optimize, optimizeInner, meets_bind, meets_get, meets_ite,
    meets_pure, meets_modify, meets_handle]
  refine ⟨fun _ => ⟨h, trivial⟩, fun _ => ?_⟩
  refine (serviced_mapM_subscribe _ _).mono ?_ ?_
  · rintro streams t ⟨ht, hmap, hnd, hfr⟩
    have hst : Serviced s t := .trans (.mk le_rfl fun _ _ => rfl) ht
    have hsubs : t.subscriptions = s.subscriptions := by
      cases hst
      rfl
    refine ⟨((h.serviced hst).replaceStreams (fun k hk => ?_) hnd (fun handle hhdl hold => ?_)
      fun handle hhdl => (hfr handle hhdl).2).serviced (.mk le_rfl fun _ _ => rfl), hsubs⟩
    · -- the chunks are all subscriptions, and each chunk has its stream
      rw [hsubs, ← order.mem_iter s.iterations, ← flatten_toChunks config.maxSubsInOldOptimized
        (order.iter s.iterations s.subscriptions)] at hk
      obtain ⟨chunk, hchk, hk⟩ := mem_flatten.mp hk
      have hreq : _ ∈ streams.map t.accepted := hmap ▸ mem_map_of_mem hchk
      obtain ⟨handle, hhdl, hacpt⟩ := mem_map.mp hreq
      refine ⟨handle, hhdl, ?_⟩
      rw [filter, hacpt]
      exact mem_toFinset.mpr hk
    · rw [hst.handles_eq] at hold
      exact absurd (h.opened handle hold) (Nat.not_lt.mpr (hfr handle hhdl).1)
  · intro _ t ht
    have hst : Serviced s { t with optimizing := false } :=
      .trans (.mk le_rfl fun _ _ => rfl) (ht.trans (.mk le_rfl fun _ _ => rfl))
    refine ⟨h.serviced hst, ?_⟩
    cases ht
    rfl

/-- A stream that is not an old one takes over the filter of the current-new stream and more. -/
theorem Sound.extend {subscriptions : Finset Pubkey} {streamMap : StreamKey → Option StreamId}
    {opened : ℕ} {answers : List (Option String)} (request : SubscribeRequest)
    (hhdl : handle ∉ s.oldHandles ++ (s.programSub.map Prod.snd).toList) (hopen : s.opened ≤ opened)
    (hlt : handle < opened) (hreq : s.currentNewSubs ⊆ request.account)
    (hsubss : subscriptions ⊆ s.subscriptions ∪ request.account) (hstreamMap : intact →
      ∀ key, streamMap key = if key = .currentNew then some handle else s.streamMap key) :
    Sound intact
      { s with
        subscriptions := subscriptions, currentNewSubs := request.account,
        currentNewHandle := some handle, streamMap := streamMap, opened := opened,
        accepted := update s.accepted handle request, answers := answers } := by
  have hold : ∀ old ∈ s.oldHandles, old ≠ handle := by
    rintro old hmem rfl
    exact hhdl (mem_append_left _ hmem)
  have hhdls : s.handles = s.currentNewHandle.toList ++
      (s.oldHandles ++ (s.programSub.map Prod.snd).toList) := append_assoc _ _ _
  refine ⟨fun k hk => ?_, ?_, nofun, ?_, ?_, fun hint key => ?_⟩
  · rcases Finset.mem_union.mp (hsubss hk) with hk | hk
    · refine (h.covered k hk).imp (@hreq k) fun ⟨old, hmem, hfilt⟩ => ⟨old, hmem, ?_⟩
      simpa [filter, update_of_ne (hold old hmem)] using hfilt
    · exact .inl hk
  · rintro _ ⟨⟩
    simp [filter]
  · have hrest := (nodup_append'.mp (hhdls ▸ h.nodup)).2.1
    exact nodup_cons.mpr ⟨hhdl, hrest⟩
  · rintro other (_ | ⟨_, hoth⟩)
    · exact hlt
    · exact (h.opened other (hhdls ▸ mem_append_right _ hoth)).trans_le hopen
  · cases key <;> simp [hstreamMap hint, handleAt, h.matched hint]

/-- New pubkeys for the current-new stream: subscribed if the service accepts its filter, and rolled
back if not. -/
theorem meets_updateCurrentNew (hnew : Disjoint newPks s.subscriptions) :
    (updateCurrentNew commitment fromSlot).Meets
      { s with currentNewSubs := s.currentNewSubs ∪ newPks }
      (fun _ t => Sound intact { t with subscriptions := t.subscriptions ∪ newPks } ∧
        t.subscriptions = s.subscriptions)
      fun _ t => Sound intact { t with currentNewSubs := t.currentNewSubs \ newPks } ∧
        t.subscriptions = s.subscriptions := by
  simp only [updateCurrentNew, meets_bind, meets_get]
  have hroll : Sound intact { s with currentNewSubs := (s.currentNewSubs ∪ newPks) \ newPks } := by
    refine { h with covered := fun k hk => ?_, current := fun handle hhdl => ?_, idle := ?_ }
    · refine (h.covered k hk).imp_left fun hcur => ?_
      have hk' : k ∉ newPks := fun hmem => Finset.disjoint_left.mp hnew hmem hk
      simp [hcur, hk']
    · intro k hk
      simp only [Finset.mem_sdiff, Finset.mem_union] at hk
      exact h.current handle hhdl (hk.1.resolve_right hk.2)
    · intro hnone
      have hemp := h.idle hnone
      simp [hemp]
  rcases hcur : s.currentNewHandle with _ | handle <;> rw [hcur] at hroll
  · simp only [insertCurrentNewStream, meets_bind, meets_modify]
    refine meets_subscribe.mono ?_ ?_
    · rintro handle t ⟨rfl, answers, rfl⟩
      refine ⟨h.extend (buildAccountRequest (s.currentNewSubs ∪ newPks) commitment fromSlot)
        (fun hmem => ?_) (Nat.le_succ _) (Nat.lt_succ_self _) ?_ ?_ ?_, rfl⟩
      · refine absurd (h.opened _ ?_) (lt_irrefl _)
        rw [handles, accountHandles, append_assoc]
        exact mem_append_right _ hmem
      · exact Finset.subset_union_left
      · exact Finset.union_subset_union_right Finset.subset_union_right
      · intro _ key
        simp [insertStream, accept, update_apply]
    · rintro _ t ⟨answers, rfl⟩
      exact ⟨hroll.serviced (.mk (Nat.le_succ _) fun _ _ => rfl), rfl⟩
  · refine meets_writeWithRetry.mono ?_ ?_
    · rintro _ t ⟨answers, rfl⟩
      refine ⟨?_, rfl⟩
      have hnd := h.nodup
      rw [handles, accountHandles, hcur, append_assoc] at hnd
      have hheld : handle < s.opened := h.opened handle (by simp [handles, accountHandles, hcur])
      refine h.extend (buildAccountRequest (s.currentNewSubs ∪ newPks) commitment fromSlot)
        (nodup_cons.mp hnd).1 le_rfl hheld Finset.subset_union_left
        (Finset.union_subset_union_right Finset.subset_union_right) fun hint key => ?_
      split_ifs with hkey
      · subst hkey
        exact (h.matched hint .currentNew).trans hcur
      · rfl
    · rintro _ t ⟨answers, rfl⟩
      exact ⟨hroll.serviced (.mk le_rfl fun _ _ => rfl), rfl⟩

theorem meets_promoteIfFull : (promoteIfFull config order commitment).Meets s
      (fun _ t => Sound intact t ∧ t.subscriptions = s.subscriptions)
      fun _ t => Sound intact t ∧ t.subscriptions = s.subscriptions := by
  simp only [promoteIfFull, meets_bind, meets_get, meets_ite, meets_pure, meets_modify]
  refine ⟨fun _ => ⟨fun _ => ?_, fun _ => ⟨h.promote, rfl⟩⟩, fun _ => ⟨h, trivial⟩⟩
  exact meets_optimize h.promote

theorem meets_accountSubscribeBatch (hnew : Disjoint newPks.toFinset s.subscriptions) :
    (accountSubscribeBatch config order commitment fromSlot newPks).Meets s
      (fun _ t => Sound intact t ∧ t.subscriptions = s.subscriptions ∪ newPks.toFinset)
      fun _ t => Sound intact t ∧ s.subscriptions ⊆ t.subscriptions := by
  simp only [accountSubscribeBatch, meets_bind, meets_modify, meets_handle]
  refine (meets_updateCurrentNew h hnew).mono ?_ ?_
  · rintro _ t ⟨ht, hsubs⟩
    refine meets_bind.mpr ?_
    refine (meets_promoteIfFull ht).mono (fun _ u hu => ⟨hu.1, ?_⟩) fun _ u hu => ⟨hu.1, ?_⟩
    · rw [hu.2, hsubs]
    · rw [hu.2, hsubs]
      exact Finset.subset_union_left
  · rintro _ t ⟨ht, hsubs⟩
    exact ⟨ht, hsubs.ge⟩

/-- Batches that share no pubkey. -/
theorem meets_forM_batch {batches : List (List Pubkey)} (hdisj : batches.Pairwise List.Disjoint)
    (hnew : ∀ batch ∈ batches, Disjoint batch.toFinset s.subscriptions) :
    (batches.forM (accountSubscribeBatch config order commitment fromSlot)).Meets s
      (fun _ t => Sound intact t)
      fun _ t => Sound intact t ∧ s.subscriptions ⊆ t.subscriptions := by
  induction batches generalizing s with
  | nil => exact h
  | cons batch batches ih =>
    obtain ⟨hbatch, hbatches⟩ := pairwise_cons.mp hdisj
    obtain ⟨hfst, hrest⟩ := forall_mem_cons.mp hnew
    refine meets_bind.mpr ((meets_accountSubscribeBatch h hfst).mono ?_ fun _ _ ht => ht)
    rintro _ t ⟨ht, hsubs⟩
    refine (ih ht hbatches fun other hoth => ?_).mono (fun _ _ hu => hu) fun _ u hu => ⟨hu.1, ?_⟩
    · rw [hsubs, Finset.disjoint_union_right]
      refine ⟨hrest other hoth, ?_⟩
      exact (disjoint_toFinset_iff_disjoint.mpr (hbatch other hoth)).symm
    · exact (hsubs ▸ Finset.subset_union_left).trans hu.2

end

/-- **The pubkeys of a subscription are separate**: none of those that are not subscribed is listed
twice, or they all fit in one batch. -/
def Separate (config : StreamManagerConfig) (s : StreamManager) (pubkeys : List Pubkey) : Prop :=
  (s.newPubkeys pubkeys).Nodup ∨ (s.newPubkeys pubkeys).length ≤ s.remainingCapacity config

theorem flatten_batches : (s.batches config pks).flatten = s.newPubkeys pks := by
  simp only [batches]
  split_ifs with hemp hcap hfst
  · exact hemp.symm
  · have happ := take_append_drop (s.remainingCapacity config) (s.newPubkeys pks)
    rw [hfst, nil_append] at happ
    simp [happ]
  · simp
  · simp

theorem pairwise_batches (h : s.Separate config pks) :
    (s.batches config pks).Pairwise List.Disjoint := by
  rcases h with hnd | hlen
  · rw [← flatten_batches] at hnd
    exact (nodup_flatten.mp hnd).2
  · simp only [batches, if_neg (Nat.not_lt.mpr hlen)]
    split_ifs
    · exact .nil
    · exact pairwise_singleton _ _

theorem meets_accountSubscribe {pks : List Pubkey} (h : Sound intact s)
    (hsep : s.Separate config pks) :
    (accountSubscribe config order commitment pks fromSlot).Meets s (fun _ t => Sound intact t)
      fun _ t => Sound intact t ∧ s.subscriptions ⊆ t.subscriptions := by
  rw [accountSubscribe, meets_bind, meets_get]
  refine meets_forM_batch h (pairwise_batches hsep) fun batch hbatch => ?_
  refine Finset.disjoint_left.mpr fun k hk => ?_
  have hnew : k ∈ s.newPubkeys pks := by
    rw [← flatten_batches]
    exact mem_flatten.mpr ⟨batch, hbatch, mem_toFinset.mp hk⟩
  simpa using of_mem_filter hnew

namespace Sound

variable (h : Sound intact s)

include h

theorem accountUnsubscribe :
    Sound intact { s with subscriptions := s.subscriptions \ pks } :=
  { h with covered := fun k hk => h.covered k (Finset.mem_sdiff.mp hk).1 }

theorem clearAccountSubscriptions :
    StreamManager.clearAccountSubscriptions.Meets s (fun _ t => Sound intact t)
      fun _ _ => False := by
  rw [StreamManager.clearAccountSubscriptions, meets_modify]
  refine ⟨fun k hk => ?_, nofun, fun _ => rfl, ?_, fun handle hhdl => ?_, fun hint key => ?_⟩
  · exact absurd hk (Finset.notMem_empty k)
  · exact (nodup_append'.mp h.nodup).2.1
  · exact h.opened handle (mem_append_right _ hhdl)
  · have hrem := h.removeAccountStreams_eq hint
    cases key <;> simp [handleAt, hrem]

theorem clearProgramSubscriptions :
    StreamManager.clearProgramSubscriptions.Meets s (fun _ t => Sound intact t)
      fun _ _ => False := by
  rw [StreamManager.clearProgramSubscriptions, meets_modify]
  refine ⟨h.covered, h.current, h.idle, ?_, fun handle hhdl => ?_, fun hint key => ?_⟩
  · simpa [handles, accountHandles, oldHandles] using (nodup_append'.mp h.nodup).1
  · refine h.opened handle (mem_append_left _ ?_)
    simpa [handles, accountHandles, oldHandles] using hhdl
  · have hmat := h.matched hint
    cases key <;> simp [handleAt, hmat]

/-- A program stream takes a request. -/
theorem program {streamMap : StreamKey → Option StreamId} {opened : ℕ}
    {answers : List (Option String)} (hhdl : handle ∉ s.accountHandles) (hopen : s.opened ≤ opened)
    (hlt : handle < opened) (hstreamMap : intact →
      ∀ key, streamMap key = if key = .program then some handle else s.streamMap key) :
    Sound intact
      { s with
        programSub := some (programs, handle), streamMap := streamMap, opened := opened,
        accepted := update s.accepted handle request, answers := answers } := by
  have hoth : ∀ other ∈ s.accountHandles, other ≠ handle := by
    rintro other hmem rfl
    exact hhdl hmem
  refine ⟨fun k hk => ?_, fun other hcur => ?_, h.idle, ?_, ?_, fun hint key => ?_⟩
  · refine (h.covered k hk).imp_right fun ⟨old, hmem, hfilt⟩ => ⟨old, hmem, ?_⟩
    simpa [filter, update_of_ne (hoth old (mem_append_right _ hmem))] using hfilt
  · have hmem : other ∈ s.accountHandles := by
      simp [accountHandles, show s.currentNewHandle = some other from hcur]
    simpa [filter, update_of_ne (hoth other hmem)] using h.current other hcur
  · refine nodup_append'.mpr ⟨(nodup_append'.mp h.nodup).1, nodup_singleton _, ?_⟩
    exact disjoint_singleton.mpr hhdl
  · intro other hmem
    rcases mem_append.mp hmem with hmem | hmem
    · exact (h.opened other (mem_append_left _ hmem)).trans_le hopen
    · rwa [mem_singleton.mp hmem]
  · cases key <;> simp [hstreamMap hint, handleAt, h.matched hint]

theorem addProgramSubscription :
    (StreamManager.addProgramSubscription commitment programId).Meets s (fun _ t => Sound intact t)
      fun _ t => Sound intact t ∧ t.subscriptions = s.subscriptions := by
  rw [StreamManager.addProgramSubscription, meets_bind, meets_get]
  rcases hprog : s.programSub with _ | ⟨programs, handle⟩
  · simp only [meets_bind, meets_modify]
    refine meets_subscribe.mono ?_ ?_
    · rintro handle t ⟨rfl, answers, rfl⟩
      refine h.program (fun hmem => ?_) (Nat.le_succ _) (Nat.lt_succ_self _) fun _ key => ?_
      · exact absurd (h.opened _ (mem_append_left _ hmem)) (lt_irrefl _)
      · simp [insertStream, accept, update_apply]
    · rintro _ t ⟨answers, rfl⟩
      exact ⟨h.serviced (.mk (Nat.le_succ _) fun _ _ => rfl), rfl⟩
  · simp only [meets_ite, meets_pure, meets_handle, meets_modify]
    refine ⟨fun _ => h, fun hnew => meets_writeWithRetry.mono ?_ ?_⟩
    · rintro _ t ⟨answers, rfl⟩
      have hmem : handle ∈ (s.programSub.map Prod.snd).toList := by simp [hprog]
      refine h.program (fun hacc => (nodup_append'.mp h.nodup).2.2 hacc hmem) le_rfl
        (h.opened handle (mem_append_right _ hmem)) fun hint key => ?_
      split_ifs with hkey
      · subst hkey
        simpa [accept, handleAt, hprog] using h.matched hint .program
      · rfl
    · rintro _ t ⟨answers, rfl⟩
      refine ⟨⟨h.covered, h.current, h.idle, ?_, ?_, fun hint key => ?_⟩, rfl⟩
      · simpa [handles, accountHandles, oldHandles, hprog] using h.nodup
      · simpa [handles, accountHandles, oldHandles, hprog] using h.opened
      · cases key <;> simpa [handleAt, hprog] using h.matched hint _

end Sound

/-! ### Whole runs -/

inductive Call
  | accountSubscribe (pubkeys : List Pubkey) (fromSlot : Slot)
  | accountUnsubscribe (pubkeys : List Pubkey)
  | optimize
  | clearAccountSubscriptions
  | addProgramSubscription (programId : Pubkey)
  | clearProgramSubscriptions

section Runs

variable (config order commitment)

def Call.code : Call → Code Unit
  | .accountSubscribe pubkeys fromSlot =>
    StreamManager.accountSubscribe config order commitment pubkeys fromSlot
  | .accountUnsubscribe pubkeys => StreamManager.accountUnsubscribe pubkeys
  | .optimize => StreamManager.optimize config order commitment
  | .clearAccountSubscriptions => StreamManager.clearAccountSubscriptions
  | .addProgramSubscription programId => StreamManager.addProgramSubscription commitment programId
  | .clearProgramSubscriptions => StreamManager.clearProgramSubscriptions

/-- A call, with the answers it gets; or the chain moves on, or a stream ends by itself. -/
inductive Event
  | call (call : Call) (answers : List (Option String))
  | chainSlot (slot : Slot)
  | streamEnds (key : StreamKey)

/-- The result of a call, and the manager after it. -/
def Call.run (call : Call) (answers : List (Option String)) (s : StreamManager) :
    Except UpdateFailed Unit × StreamManager :=
  (call.code config order commitment).outcome { s with answers := answers }

def Event.after (s : StreamManager) : Event → StreamManager
  | .call c answers => (c.run config order commitment answers s).2
  | .chainSlot slot => { s with chainSlot := max s.chainSlot slot }
  | .streamEnds key => { s with streamMap := update s.streamMap key none }

def machine : Machine StreamManager Event where
  start s := ∃ slot, s = new slot
  step _ s e t := t = e.after config order commitment s

end Runs

/-- The subscriptions of the step are separate. -/
def Event.Separate (config : StreamManagerConfig) (s : StreamManager) : Event → Prop
  | .call (.accountSubscribe pubkeys _) _ => s.Separate config pubkeys
  | _ => True

/-- **The step lemma of a call.** -/
theorem Sound.call {answers : List (Option String)} (h : Sound intact s)
    (hsep : (Event.call c answers).Separate config s) :
    (c.code config order commitment).Meets { s with answers := answers } (fun _ t => Sound intact t)
      fun _ t => Sound intact t ∧ s.subscriptions ⊆ t.subscriptions := by
  have hs : Sound intact { s with answers := answers } := h.serviced (.mk le_rfl fun _ _ => rfl)
  cases c with
  | accountSubscribe pks fromSlot => exact meets_accountSubscribe hs hsep
  | accountUnsubscribe pks => exact hs.accountUnsubscribe
  | optimize =>
    exact (meets_optimize hs).mono (fun _ _ ht => ht.1) fun _ _ ht => ⟨ht.1, ht.2.ge⟩
  | clearAccountSubscriptions =>
    exact hs.clearAccountSubscriptions.mono (fun _ _ ht => ht) fun _ _ hfalse => hfalse.elim
  | addProgramSubscription programId =>
    exact hs.addProgramSubscription.mono (fun _ _ ht => ht) fun _ _ ht => ⟨ht.1, ht.2.ge⟩
  | clearProgramSubscriptions =>
    exact hs.clearProgramSubscriptions.mono (fun _ _ ht => ht) fun _ _ hfalse => hfalse.elim

theorem sound_new {chainSlot : Slot} : Sound intact (new chainSlot) := by
  refine ⟨by simp [new], by simp [new],
    fun _ => rfl, by simp [new, handles, accountHandles, oldHandles],
    by simp [new, handles, accountHandles, oldHandles], fun _ key => ?_⟩
  cases key <;> simp [new, handleAt]

/-- **The run lemma** — every run with separate subscriptions is sound, and intact until a stream
ends by itself. -/
theorem sound_of_run
    (h : ((machine config order commitment).guarded fun s e => e.Separate config s).Run es s) :
    Sound (∀ key, .streamEnds key ∉ es) s := by
  refine h.invariant ?_ ?_
  · rintro _ ⟨chainSlot, rfl⟩
    exact sound_new
  · rintro es s e _ - hs ⟨hsep, rfl⟩
    have hes : Sound (∀ key, .streamEnds key ∉ es ++ [e]) s :=
      hs.weaken fun hbroke key hkey => hbroke key (mem_append_left _ hkey)
    cases e with
    | call c answers =>
      exact ((hes.call hsep).mono (fun _ _ ht => ht) fun _ _ ht => ht.1).final
    | chainSlot slot => exact { hes with }
    | streamEnds key =>
      exact { hes with matched := fun hint => absurd (by simp) (hint key) }

end StreamManager

/-- **Laser streams cover every subscription**, along every run whose subscriptions are separate; a
failed call leaves what was subscribed covered, and handles and stream keys belong together as long
as no stream ends by itself. -/
theorem streams_cover_subscriptions {config : StreamManagerConfig} {order : IterationOrder}
    {commitment : CommitmentLevel} {es : List StreamManager.Event} {s : StreamManager}
    (h : ((StreamManager.machine config order commitment).guarded fun s e =>
      e.Separate config s).Run es s) :
    (∀ k ∈ s.subscriptions, s.Covers k) ∧
    (∀ c answers e t, (StreamManager.Event.call c answers).Separate config s →
      c.run config order commitment answers s = (.error e, t) → ∀ k ∈ s.subscriptions, t.Covers k) ∧
    ((∀ key, .streamEnds key ∉ es) →
      (∀ key, s.streamMap key = s.handleAt key) ∧ s.handles.Nodup) := by
  have hs := StreamManager.sound_of_run h
  refine ⟨fun k => hs.covers, fun c answers e t hsep hfail k hk => ?_, fun hint => ?_⟩
  · have ht : (c.code config order commitment).Meets _ _ _ := hs.call hsep
    rw [StreamManager.Call.run] at hfail
    rw [Exec.Meets, hfail] at ht
    exact ht.1.covers (ht.2 hk)
  · exact ⟨hs.matched hint, hs.nodup⟩

namespace LaserExample

def twoPerStream : StreamManagerConfig := ⟨2, 1, 5, by decide⟩

noncomputable def anyOrder : IterationOrder := ⟨fun _ s => s.toList, fun _ _ _ => Finset.mem_toList⟩

open StreamManager

/-- The first batch is accepted, and all attempts to write the second one fail. -/
def secondFails : List (Option String) := none :: List.replicate 6 (some "stream write timed out")

end LaserExample

open LaserExample StreamManager in
theorem streams_cover_subscriptions_failed :
    ∃ es s, ((machine twoPerStream anyOrder .confirmed).guarded fun s e =>
        e.Separate twoPerStream s).Run es s ∧
      s.subscriptions = {1, 2, 4} ∧ (∀ k ∈ s.subscriptions, s.Covers k) ∧
      ∀ key, s.streamMap key = s.handleAt key := by
  have hstart : ((machine twoPerStream anyOrder .confirmed).guarded fun s e =>
      e.Separate twoPerStream s).Run [] (new 0) := .start ⟨0, rfl⟩
  have hfst := hstart.guardedStep (e := Event.call (.accountSubscribe [1, 2, 3] 0) secondFails) rfl
    (.inl (by decide))
  have hsnd := hfst.guardedStep (e := Event.call (.accountSubscribe [4] 0) []) rfl
    (.inl (by decide))
  have hcover := streams_cover_subscriptions hsnd
  exact ⟨_, _, hsnd, by decide +kernel, hcover.1, (hcover.2.2 (by simp)).1⟩

open LaserExample StreamManager in
/-- A pubkey that is listed again is rolled back with the second batch, and the next filter leaves
it out. -/
theorem streams_lose_repeated :
    ∃ es s, (machine twoPerStream anyOrder .confirmed).Run es s ∧ 1 ∈ s.subscriptions ∧
      ¬ s.Covers 1 := by
  have hstart : (machine twoPerStream anyOrder .confirmed).Run [] (new 0) := .start ⟨0, rfl⟩
  have hfst := hstart.step (e := Event.call (.accountSubscribe [1, 2, 1] 0) secondFails) rfl
  have hsnd := hfst.step (e := Event.call (.accountSubscribe [4] 0) []) rfl
  exact ⟨_, _, hsnd, by decide +kernel, by decide +kernel⟩

end Magicblock.Laser
