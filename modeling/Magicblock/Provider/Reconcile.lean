import Magicblock.Foundations.Passes
import Magicblock.Provider.Subscriptions

/-!
# Provider/Reconcile — the tracked accounts and what the clients hold

`reconcile_subscriptions` compares the set of tracked accounts with what the connected clients of
the mux hold, and goes over three kinds of accounts: internally managed ones that a client misses,
tracked ones that a client misses, and held ones that are not tracked.  What the calls of the
clients answer and what they change for the account is open; no call changes another account.

An account that nobody holds after its re-subscription is no longer tracked, unless an undelegation
is under way; its ownership goes with it, and it is reported as stale (`reconcile_repairs`).
-/

namespace Magicblock.Provider

open List (filter_append mem_cons mem_toFinset)
open Finset (mem_filter mem_sdiff)

/-! ### What the clients hold -/

/-- The accounts that some client holds, and those that all clients hold. -/
structure SubscriptionReconciliationSnapshot where
  union : Finset Pubkey
  intersection : Finset Pubkey
  intersection_subset : intersection ⊆ union

/-- The snapshots of the connected clients; a client may have none. -/
abbrev ConnectedClients := List (Option SubscriptionReconciliationSnapshot)

namespace ConnectedClients

def union (snapshots : List SubscriptionReconciliationSnapshot) : Finset Pubkey :=
  snapshots.foldl (fun all snapshot => all ∪ snapshot.union) ∅

theorem mem_union : pk ∈ union snapshots ↔ ∃ snapshot ∈ snapshots, pk ∈ snapshot.union := by
  have hfold : ∀ all : Finset Pubkey,
      pk ∈ snapshots.foldl (fun all snapshot => all ∪ snapshot.union) all ↔
        pk ∈ all ∨ ∃ snapshot ∈ snapshots, pk ∈ snapshot.union := by
    induction snapshots with
    | nil => simp
    | cons snapshot snapshots ih =>
      intro all
      simp [ih, or_assoc]
  simpa [union] using hfold ∅

/-- **`SubMuxClient::subscription_reconciliation_snapshot`**; the smallest of the intersections is
compared with the others. -/
def subscriptionReconciliationSnapshot (clients : ConnectedClients) :
    Option SubscriptionReconciliationSnapshot :=
  let snapshots := clients.reduceOption
  match h : snapshots.argmin fun snapshot => snapshot.intersection.card with
  | none => none
  | some smallest => some
    { union := union snapshots
      intersection := smallest.intersection.filter fun pubkey =>
        ∀ snapshot ∈ snapshots, pubkey ∈ snapshot.intersection
      intersection_subset := fun _ hpk => mem_union.mpr ⟨smallest, List.argmin_mem h,
        smallest.intersection_subset (mem_filter.mp hpk).1⟩ }

/-- Some connected client holds the account. -/
def Holds (clients : ConnectedClients) (pubkey : Pubkey) : Prop :=
  ∃ snapshot, some snapshot ∈ clients ∧ pubkey ∈ snapshot.union

/-- A connected client can be asked. -/
def Available (clients : ConnectedClients) : Prop := ∃ snapshot, some snapshot ∈ clients

variable {clients clients' : ConnectedClients} {pk other : Pubkey}

theorem mem_reduceOption : snapshot ∈ clients.reduceOption ↔
    some snapshot ∈ clients := List.reduceOption_mem_iff

theorem isSome_snapshot :
    (subscriptionReconciliationSnapshot clients).isSome = true ↔ Available clients := by
  rw [subscriptionReconciliationSnapshot]
  split
  case h_1 h =>
    rw [List.argmin_eq_none] at h
    simp [Available, ← mem_reduceOption, h]
  case h_2 smallest h => simpa [Available] using ⟨smallest, mem_reduceOption.mp (List.argmin_mem h)⟩

theorem mem_union_snapshot (h : subscriptionReconciliationSnapshot clients = some snapshot) :
    pk ∈ snapshot.union ↔ Holds clients pk := by
  rw [subscriptionReconciliationSnapshot] at h
  split at h
  · cases h
  · cases h
    simp [mem_union, mem_reduceOption, Holds]

theorem holds_of_mem_intersection (h : subscriptionReconciliationSnapshot clients = some snapshot)
    (hpk : pk ∈ snapshot.intersection) : Holds clients pk :=
  (mem_union_snapshot h).mp (snapshot.intersection_subset hpk)

/-- The two lists of clients differ in one account at most. -/
def SameOff (pubkey : Pubkey) (clients clients' : ConnectedClients) : Prop :=
  List.Forall₂ (Option.Rel fun before after => ∀ other, other ≠ pubkey →
    (other ∈ before.union ↔ other ∈ after.union) ∧
      (other ∈ before.intersection ↔ other ∈ after.intersection)) clients clients'

/-- What the clients agree on is the same for all of them together. -/
theorem SameOff.exists_iff {P : SubscriptionReconciliationSnapshot → Prop}
    (h : SameOff pk clients clients')
    (hP : ∀ before after : SubscriptionReconciliationSnapshot, (∀ other, other ≠ pk →
      (other ∈ before.union ↔ other ∈ after.union)) → (P before ↔ P after)) :
    (∃ snapshot, some snapshot ∈ clients ∧ P snapshot) ↔
      ∃ snapshot, some snapshot ∈ clients' ∧ P snapshot := by
  induction h with
  | nil => rfl
  | cons hrel _ ih =>
    cases hrel with
    | none => simpa using ih
    | @some before after hsame =>
      have hhead := hP before after fun other hoth => (hsame other hoth).1
      simp [hhead, ih]

theorem SameOff.refl (clients : ConnectedClients) : SameOff pk clients clients :=
  List.forall₂_same.mpr fun client _ => by cases client <;> simp

theorem SameOff.available (h : SameOff pk clients clients') :
    Available clients ↔ Available clients' := by
  simpa [Available] using h.exists_iff (P := fun _ => True) fun _ _ _ => Iff.rfl

theorem SameOff.holds (h : SameOff pk clients clients') (hoth : other ≠ pk) :
    Holds clients other ↔ Holds clients' other :=
  h.exists_iff fun _ _ hsame => hsame other hoth

end ConnectedClients

/-! ### The reconciler -/

open ConnectedClients SubscriptionOwnership

/-- `SubscribedAccounts`; internally managed accounts are never tracked. -/
structure TrackedAccounts where
  accounts : Finset Pubkey
  internallyManaged : Finset Pubkey
  disjoint : Disjoint accounts internallyManaged

namespace TrackedAccounts

def remove (tracked : TrackedAccounts) (pubkey : Pubkey) : TrackedAccounts :=
  if pubkey ∈ tracked.internallyManaged then tracked
  else
    { tracked with
      accounts := tracked.accounts.erase pubkey
      disjoint := tracked.disjoint.mono_left (Finset.erase_subset _ _) }

end TrackedAccounts

/-- The calls of the reconciler; nothing depends on whether the receiver of stale accounts is there.
-/
inductive ReconcilerCall
  | subscribed (pubkey : Pubkey) (result : CallResult)
  | unsubscribed (pubkey : Pubkey) (result : CallResult)
  | staleSent (pubkey : Pubkey)
  deriving DecidableEq

def ReconcilerCall.pubkey : ReconcilerCall → Pubkey
  | subscribed pubkey _ | unsubscribed pubkey _ | staleSent pubkey => pubkey

/-- **The clients**: what a call answers and leaves, by the calls before it.  It concerns one
account. -/
structure PubsubClient where
  subscribe : List ReconcilerCall → Pubkey → ConnectedClients → CallResult × ConnectedClients
  unsubscribe : List ReconcilerCall → Pubkey → ConnectedClients → CallResult × ConnectedClients
  subscribe_sameOff : ∀ calls pubkey clients,
    SameOff pubkey clients (subscribe calls pubkey clients).2
  unsubscribe_sameOff : ∀ calls pubkey clients,
    SameOff pubkey clients (unsubscribe calls pubkey clients).2

structure Watch where
  tracked : TrackedAccounts
  ownership : Pubkey → Option SubscriptionOwnership
  clients : ConnectedClients
  calls : List ReconcilerCall

namespace Watch

variable (client : PubsubClient)

def subscribe (w : Watch) (pubkey : Pubkey) : Watch :=
  let (result, clients) := client.subscribe w.calls pubkey w.clients
  { w with clients := clients, calls := w.calls ++ [.subscribed pubkey result] }

/-- `unsubscribe_account`, whose answer is counted only. -/
def unsubscribeAccount (w : Watch) (pubkey : Pubkey) : Watch :=
  let (result, clients) := client.unsubscribe w.calls pubkey w.clients
  { w with clients := clients, calls := w.calls ++ [.unsubscribed pubkey result] }

def isUndelegating (w : Watch) (pubkey : Pubkey) : Bool :=
  (w.ownership pubkey).any (·.contains .undelegationTracking)

/-- No client holds the account: it is to be cloned again at its next use. -/
def evict (w : Watch) (pubkey : Pubkey) : Watch :=
  { w with
    tracked := w.tracked.remove pubkey
    ownership := Function.update w.ownership pubkey none
    calls := w.calls ++ [.staleSent pubkey] }

/-- The reconciler on a tracked account that a client misses. -/
def resubscribeMissing (w : Watch) (pubkey : Pubkey) : Watch :=
  if pubkey ∉ w.tracked.accounts then w
  else
    match subscriptionReconciliationSnapshot w.clients with
    | none => w
    | some snapshot =>
      if pubkey ∈ snapshot.intersection then w
      else
        let w := w.subscribe client pubkey
        let deliveredSomewhere := (subscriptionReconciliationSnapshot w.clients).any
          fun snapshot => decide (pubkey ∈ snapshot.union)
        if deliveredSomewhere then w
        else if w.isUndelegating pubkey then w
        else w.evict pubkey

/-- The reconciler on an account that a client holds and that is not tracked. -/
def unsubscribeExtra (w : Watch) (pubkey : Pubkey) : Watch :=
  if pubkey ∈ w.tracked.accounts then w
  else
    match subscriptionReconciliationSnapshot w.clients with
    | none => w
    | some snapshot =>
      if pubkey ∉ snapshot.union then w else w.unsubscribeAccount client pubkey

variable (internallyManaged : List Pubkey)

def missingInternallyManaged (snapshot : SubscriptionReconciliationSnapshot) : List Pubkey :=
  internallyManaged.filter fun pubkey => decide (pubkey ∉ snapshot.intersection)

def missingInPubsub (w : Watch) (snapshot : SubscriptionReconciliationSnapshot) : Finset Pubkey :=
  w.tracked.accounts \ snapshot.intersection.filter (· ∉ internallyManaged)

def extraInPubsub (w : Watch) (snapshot : SubscriptionReconciliationSnapshot) : Finset Pubkey :=
  snapshot.union.filter (· ∉ internallyManaged) \ w.tracked.accounts

/-- The three passes. -/
def repair (snapshot : SubscriptionReconciliationSnapshot) (missing extra : List Pubkey)
    (w : Watch) : Watch :=
  let w := (missingInternallyManaged internallyManaged snapshot).foldl (subscribe client) w
  let w := missing.foldl (resubscribeMissing client) w
  extra.foldl (unsubscribeExtra client) w

/-- **`reconcile_subscriptions`**; the sets are gone through in any order. -/
def Reconciles (w : Watch) (total : ℕ) (w' : Watch) : Prop :=
  total = w.tracked.accounts.card + internallyManaged.length ∧
  match subscriptionReconciliationSnapshot w.clients with
  | none => w' = w
  | some snapshot => ∃ missing extra : List Pubkey,
      missing.Nodup ∧ missing.toFinset = w.missingInPubsub internallyManaged snapshot ∧
      extra.Nodup ∧ extra.toFinset = w.extraInPubsub internallyManaged snapshot ∧
      w' = w.repair client internallyManaged snapshot missing extra

/-! ### One account -/

/-- What concerns one account, and whether a client can be asked. -/
structure KeyView where
  tracked : Prop
  owned : Option SubscriptionOwnership
  held : Prop
  available : Prop
  calls : List ReconcilerCall

def view (w : Watch) (pubkey : Pubkey) : KeyView where
  tracked := pubkey ∈ w.tracked.accounts
  owned := w.ownership pubkey
  held := Holds w.clients pubkey
  available := Available w.clients
  calls := w.calls.filter (·.pubkey = pubkey)

/-- What the reconciler does to a tracked account that a client misses. -/
inductive Resubscribes (pubkey : Pubkey) : KeyView → KeyView → Prop
  | skipped (h : v.available → v.tracked → v.held) : Resubscribes pubkey v v
  | delivered (result : CallResult) : Resubscribes pubkey v
        { v with held := True, calls := v.calls ++ [.subscribed pubkey result] }
  | kept (result : CallResult) (h : v.owned.any (·.contains .undelegationTracking) = true) :
      Resubscribes pubkey v
        { v with held := False, calls := v.calls ++ [.subscribed pubkey result] }
  | evicted (result : CallResult) : Resubscribes pubkey v
        { v with
          tracked := False
          owned := none
          held := False
          calls := v.calls ++ [.subscribed pubkey result, .staleSent pubkey] }

/-- What it does to an account that a client holds. -/
inductive Unsubscribes (pubkey : Pubkey) : KeyView → KeyView → Prop
  | skipped (h : v.available → ¬ v.tracked → ¬ v.held) : Unsubscribes pubkey v v
  | called (result : CallResult) (held : Prop) : Unsubscribes pubkey v
        { v with held := held, calls := v.calls ++ [.unsubscribed pubkey result] }

section Views

variable {client : PubsubClient} {w : Watch} {pk : Pubkey}

theorem view_subscribe_self : ∃ res, (w.subscribe client pk).view pk =
    { w.view pk with
      held := Holds (w.subscribe client pk).clients pk
      calls := (w.view pk).calls ++ [.subscribed pk res] } := by
  refine ⟨(client.subscribe w.calls pk w.clients).1, ?_⟩
  have hava := (client.subscribe_sameOff w.calls pk w.clients).available
  simp [view, subscribe, hava, filter_append, ReconcilerCall.pubkey]

theorem view_subscribe_of_ne (hoth : other ≠ pk) :
    (w.subscribe client pk).view other = w.view other := by
  have hsame := client.subscribe_sameOff w.calls pk w.clients
  simp [view, subscribe, hsame.available, hsame.holds hoth, filter_append,
    ReconcilerCall.pubkey, hoth.symm]

theorem view_unsubscribeAccount_self : ∃ res, (w.unsubscribeAccount client pk).view pk =
    { w.view pk with
      held := Holds (w.unsubscribeAccount client pk).clients pk
      calls := (w.view pk).calls ++ [.unsubscribed pk res] } := by
  refine ⟨(client.unsubscribe w.calls pk w.clients).1, ?_⟩
  have hava := (client.unsubscribe_sameOff w.calls pk w.clients).available
  simp [view, unsubscribeAccount, hava, filter_append, ReconcilerCall.pubkey]

theorem view_unsubscribeAccount_of_ne (hoth : other ≠ pk) :
    (w.unsubscribeAccount client pk).view other = w.view other := by
  have hsame := client.unsubscribe_sameOff w.calls pk w.clients
  simp [view, unsubscribeAccount, hsame.available, hsame.holds hoth, filter_append,
    ReconcilerCall.pubkey, hoth.symm]

theorem view_evict_self (htrk : pk ∈ w.tracked.accounts) : (w.evict pk).view pk =
    { w.view pk with
      tracked := False
      owned := none
      calls := (w.view pk).calls ++ [.staleSent pk] } := by
  have hmgd := Finset.disjoint_left.mp w.tracked.disjoint htrk
  simp [view, evict, TrackedAccounts.remove, hmgd, filter_append, ReconcilerCall.pubkey]

theorem view_evict_of_ne (hoth : other ≠ pk) : (w.evict pk).view other = w.view other := by
  have hrem : other ∈ (w.tracked.remove pk).accounts ↔ other ∈ w.tracked.accounts := by
    rw [TrackedAccounts.remove]
    split
    · rfl
    · exact Finset.mem_erase.trans (and_iff_right hoth)
  simp [view, evict, hrem, filter_append, ReconcilerCall.pubkey, hoth, hoth.symm]

/-- The check after the call: does some client hold the account? -/
theorem deliveredSomewhere_iff : ((subscriptionReconciliationSnapshot w.clients).any
    fun snapshot => decide (pk ∈ snapshot.union)) = true ↔ Holds w.clients pk := by
  rcases hsnap : subscriptionReconciliationSnapshot w.clients with _ | snapshot
  · have hnone : ¬ Available w.clients := by simp [← isSome_snapshot, hsnap]
    simp only [Option.any_none, Bool.false_eq_true, false_iff]
    exact fun ⟨snapshot, hmem, _⟩ => hnone ⟨snapshot, hmem⟩
  · simp [mem_union_snapshot hsnap]

theorem view_resubscribeMissing_self :
    Resubscribes pk (w.view pk) ((w.resubscribeMissing client pk).view pk) := by
  rw [resubscribeMissing]
  split_ifs with htrk
  case neg => exact .skipped fun _ h => absurd h htrk
  split
  case h_1 hsnap =>
    have hnone : ¬ Available w.clients := by simp [← isSome_snapshot, hsnap]
    exact .skipped fun h => absurd h hnone
  case h_2 snapshot hsnap =>
    split_ifs with hens
    · exact .skipped fun _ _ => holds_of_mem_intersection hsnap hens
    obtain ⟨res, hview⟩ := @view_subscribe_self client w pk
    dsimp only
    split_ifs with hheld hund
    · rw [hview, eq_true (deliveredSomewhere_iff.mp hheld)]
      exact .delivered res
    · rw [hview, eq_false (mt deliveredSomewhere_iff.mpr hheld)]
      exact .kept res hund
    · rw [view_evict_self (by exact htrk), hview, eq_false (mt deliveredSomewhere_iff.mpr hheld)]
      simpa using Resubscribes.evicted (v := w.view pk) res

theorem view_resubscribeMissing_of_ne (hoth : other ≠ pk) :
    (w.resubscribeMissing client pk).view other = w.view other := by
  rw [resubscribeMissing]
  split_ifs
  case neg => rfl
  split
  · rfl
  · dsimp only
    split_ifs
    · rfl
    · exact view_subscribe_of_ne hoth
    · exact view_subscribe_of_ne hoth
    · rw [view_evict_of_ne hoth, view_subscribe_of_ne hoth]

theorem view_unsubscribeExtra_self :
    Unsubscribes pk (w.view pk) ((w.unsubscribeExtra client pk).view pk) := by
  rw [unsubscribeExtra]
  split_ifs with htrk
  · exact .skipped fun _ h => absurd htrk h
  split
  case h_1 hsnap =>
    have hnone : ¬ Available w.clients := by simp [← isSome_snapshot, hsnap]
    exact .skipped fun h => absurd h hnone
  case h_2 snapshot hsnap =>
    split_ifs with hheld
    · obtain ⟨res, hview⟩ := @view_unsubscribeAccount_self client w pk
      rw [hview]
      exact .called res _
    · exact .skipped fun _ _ h => hheld ((mem_union_snapshot hsnap).mpr h)

theorem view_unsubscribeExtra_of_ne (hoth : other ≠ pk) :
    (w.unsubscribeExtra client pk).view other = w.view other := by
  rw [unsubscribeExtra]
  split_ifs
  · rfl
  split
  · rfl
  · split_ifs
    · exact view_unsubscribeAccount_of_ne hoth
    · rfl

theorem mem_calls_view : call ∈ (w.view pk).calls ↔ call ∈ w.calls ∧ call.pubkey = pk := by
  simp [view]

/-! ### The three passes, as one account sees them -/

/-- The pass over the internally managed accounts changes the clients only. -/
theorem view_foldl_subscribe (l : List Pubkey) :
    (∃ held calls, (l.foldl (subscribe client) w).view pk =
      { w.view pk with held := held, calls := (w.view pk).calls ++ calls } ∧
        ∀ call ∈ calls, ∃ res, call = .subscribed pk res) := by
  induction l generalizing w with
  | nil => exact ⟨(w.view pk).held, [], by simp, by simp⟩
  | cons a l ih =>
    obtain ⟨held, calls, hview, hcs⟩ := ih (w := w.subscribe client a)
    rw [List.foldl_cons, hview]
    by_cases ha : pk = a
    · subst ha
      obtain ⟨res, hfst⟩ := @view_subscribe_self client w pk
      refine ⟨held, .subscribed pk res :: calls, by rw [hfst]; simp, ?_⟩
      intro call hcall
      obtain rfl | hcall := mem_cons.mp hcall
      · exact ⟨res, rfl⟩
      · exact hcs call hcall
    · rw [view_subscribe_of_ne ha]
      exact ⟨held, calls, rfl, hcs⟩

/-- **What the three passes do to each account.** -/
structure Passes (internallyManaged : List Pubkey) (missing extra : List Pubkey)
    (w w₁ w₂ w₃ : Watch) : Prop where
  managed : ∀ pubkey, ∃ held calls, w₁.view pubkey =
    { w.view pubkey with held := held, calls := (w.view pubkey).calls ++ calls } ∧
      ∀ call ∈ calls, ∃ result, call = .subscribed pubkey result
  unmanaged : ∀ pubkey, pubkey ∉ internallyManaged → w₁.view pubkey = w.view pubkey
  resubscribed : ∀ pubkey ∈ missing, Resubscribes pubkey (w₁.view pubkey) (w₂.view pubkey)
  present : ∀ pubkey, pubkey ∉ missing → w₂.view pubkey = w₁.view pubkey
  unsubscribed : ∀ pubkey ∈ extra, Unsubscribes pubkey (w₂.view pubkey) (w₃.view pubkey)
  wanted : ∀ pubkey, pubkey ∉ extra → w₃.view pubkey = w₂.view pubkey

theorem passes_repair {internallyManaged missing extra : List Pubkey} (hmiss : missing.Nodup)
    (hextra : extra.Nodup) :
    ∃ w₁ w₂, Passes internallyManaged missing extra w w₁ w₂
      (w.repair client internallyManaged snapshot missing extra) := by
  let w₁ := (missingInternallyManaged internallyManaged snapshot).foldl (subscribe client) w
  let w₂ := missing.foldl (resubscribeMissing client) w₁
  refine ⟨w₁, w₂, fun _ => view_foldl_subscribe _, ?_, fun _ hpk => ?_, fun _ hpk => ?_,
    fun _ hpk => ?_, fun _ hpk => ?_⟩
  · intro pk hpk
    have hnotMem : pk ∉ missingInternallyManaged internallyManaged snapshot :=
      fun hmem => hpk (List.mem_of_mem_filter hmem)
    exact view_foldl_of_notMem (fun _ _ _ => view_subscribe_of_ne) hnotMem w
  · exact view_foldl_of_mem (fun _ _ => view_resubscribeMissing_self)
      (fun _ _ _ => view_resubscribeMissing_of_ne) hmiss hpk _
  · exact view_foldl_of_notMem (fun _ _ _ => view_resubscribeMissing_of_ne) hpk _
  · exact view_foldl_of_mem (fun _ _ => view_unsubscribeExtra_self)
      (fun _ _ _ => view_unsubscribeExtra_of_ne) hextra hpk _
  · exact view_foldl_of_notMem (fun _ _ _ => view_unsubscribeExtra_of_ne) hpk _

end Views

/-! ### What is repaired -/

section Repaired

variable {internallyManaged missing extra : List Pubkey} {w w₁ w₂ w₃ : Watch} {pk : Pubkey}
  {snapshot : SubscriptionReconciliationSnapshot}

section

variable (h : Resubscribes pk v v')

include h

theorem Resubscribes.tracked (htrk : v'.tracked) : v.tracked := by
  cases h with
  | skipped | delivered | kept => exact htrk
  | evicted => exact htrk.elim

theorem Resubscribes.held (hava : v.available) (htrk : v'.tracked)
    (hunder : v'.owned.any (·.contains .undelegationTracking) = false) :
    v'.held := by
  cases h with
  | skipped hheld => exact hheld hava htrk
  | delivered => trivial
  | kept _ hkept => cases hunder.symm.trans hkept
  | evicted => exact htrk.elim

theorem Resubscribes.lost (hava : v.available) (htrk : v.tracked) (hheld : ¬ v'.held)
    (hunder : v.owned.any (·.contains .undelegationTracking) = false) :
    ¬ v'.tracked ∧ v'.owned = none ∧
      ∃ res, v'.calls = v.calls ++ [.subscribed pk res, .staleSent pk] := by
  cases h with
  | skipped h => exact absurd (h hava htrk) hheld
  | delivered => exact absurd trivial hheld
  | kept _ hkept => cases hunder.symm.trans hkept
  | evicted res => exact ⟨id, rfl, res, rfl⟩

theorem Resubscribes.tracked_of_held (htrk : v.tracked) (hheld : v'.held) : v'.tracked := by
  cases h with
  | skipped | delivered | kept => exact htrk
  | evicted => exact hheld.elim

theorem Resubscribes.unsubscribed_mem (hmem : .unsubscribed pk res ∈ v'.calls) :
    .unsubscribed pk res ∈ v.calls := by
  cases h with
  | skipped => exact hmem
  | delivered | kept | evicted => simpa using hmem

end

theorem Unsubscribes.tracked_iff (h : Unsubscribes pk v v') : v'.tracked ↔ v.tracked := by
  cases h <;> rfl

theorem Unsubscribes.called_of_held (h : Unsubscribes pk v v') (hava : v.available)
    (htrk : ¬ v.tracked) (hheld : v.held) : ∃ res, .unsubscribed pk res ∈ v'.calls := by
  cases h with
  | skipped h => exact absurd hheld (h hava htrk)
  | called res held =>
    exact ⟨res, List.mem_append_right _ (List.mem_singleton_self _)⟩

namespace Passes

variable (h : Passes internallyManaged missing extra w w₁ w₂ w₃)
  (hmiss : missing.toFinset = w.missingInPubsub internallyManaged snapshot)
  (hextra : extra.toFinset = w.extraInPubsub internallyManaged snapshot)
  (hsnap : subscriptionReconciliationSnapshot w.clients = some snapshot)

include hextra in
theorem notMem_extra (htrk : pk ∈ w.tracked.accounts) : pk ∉ extra := by
  rw [← mem_toFinset, hextra, extraInPubsub, mem_sdiff]
  exact fun hmem => hmem.2 htrk

include h

theorem tracked_first : (w₁.view pk).tracked = (w.view pk).tracked := by
  obtain ⟨held, calls, hview, -⟩ := h.managed pk
  rw [hview]

theorem owned_first : (w₁.view pk).owned = (w.view pk).owned := by
  obtain ⟨held, calls, hview, -⟩ := h.managed pk
  rw [hview]

theorem calls_first (hcs : w.calls = [])
    (hmem : call ∈ (w₁.view pk).calls) : ∃ res, call = .subscribed pk res := by
  obtain ⟨held, calls, hview, hsubs⟩ := h.managed pk
  rw [hview] at hmem
  exact hsubs call (by simpa [view, hcs] using hmem)

theorem tracked_second (htrk : (w₂.view pk).tracked) : (w.view pk).tracked := by
  rw [← h.tracked_first]
  by_cases hmem : pk ∈ missing
  · exact (h.resubscribed pk hmem).tracked htrk
  · rwa [← h.present pk hmem]

theorem tracked_last : (w₃.view pk).tracked ↔ (w₂.view pk).tracked := by
  by_cases hmem : pk ∈ extra
  · exact (h.unsubscribed pk hmem).tracked_iff
  · rw [h.wanted pk hmem]

include hsnap hmiss in
/-- An account that no client misses is held. -/
theorem held_of_present (htrk : pk ∈ w.tracked.accounts) (hmem : pk ∉ missing) :
    (w₂.view pk).held := by
  have hens : pk ∈ snapshot.intersection ∧ pk ∉ internallyManaged := by
    rw [← mem_toFinset, hmiss, missingInPubsub, mem_sdiff, not_and_not_right] at hmem
    exact mem_filter.mp (hmem htrk)
  rw [h.present pk hmem, h.unmanaged pk hens.2]
  exact holds_of_mem_intersection hsnap hens.1

include hsnap in
theorem available_first : (w₁.view pk).available := by
  obtain ⟨held, calls, hview, -⟩ := h.managed pk
  rw [hview]
  exact isSome_snapshot.mp (by rw [hsnap]; rfl)

include hsnap hmiss hextra in
/-- A tracked account is held, or an undelegation is under way. -/
theorem held_of_tracked (htrk : (w₃.view pk).tracked)
    (hund : w₃.isUndelegating pk = false) : (w₃.view pk).held := by
  have htrk₂ := h.tracked_last.mp htrk
  have htrk₀ := h.tracked_second htrk₂
  have hlast := h.wanted pk (notMem_extra hextra htrk₀)
  have hunder : (w₃.view pk).owned.any (·.contains .undelegationTracking) = false :=
    hund
  rw [hlast] at hunder ⊢
  by_cases hmem : pk ∈ missing
  · exact (h.resubscribed pk hmem).held (h.available_first hsnap) htrk₂ hunder
  · exact h.held_of_present hmiss hsnap htrk₀ hmem

include hsnap hmiss hextra in
/-- An account that no client holds after the re-subscription is lost. -/
theorem lost_of_not_held (hcs : w.calls = []) (htrk : pk ∈ w.tracked.accounts)
    (hund : w.isUndelegating pk = false) (hheld : ¬ (w₃.view pk).held) :
    ¬ (w₃.view pk).tracked ∧ (w₃.view pk).owned = none ∧
      (w₃.view pk).calls.count (.staleSent pk) = 1 := by
  have hlast := h.wanted pk (notMem_extra hextra htrk)
  rw [hlast] at hheld ⊢
  have hmem : pk ∈ missing := by
    by_contra hmem
    exact hheld (h.held_of_present hmiss hsnap htrk hmem)
  have hunder : (w₁.view pk).owned.any (·.contains .undelegationTracking) = false := by
    rw [h.owned_first]
    exact hund
  have htrk₁ : (w₁.view pk).tracked := by
    rw [h.tracked_first]
    exact htrk
  obtain ⟨hlost, hown, res, hcs₂⟩ :=
    (h.resubscribed pk hmem).lost (h.available_first hsnap) htrk₁ hheld hunder
  refine ⟨hlost, hown, ?_⟩
  have hnone : (w₁.view pk).calls.count (.staleSent pk) = 0 := by
    refine List.count_eq_zero.mpr fun hstale => ?_
    obtain ⟨_, ⟨⟩⟩ := h.calls_first hcs hstale
  rw [hcs₂, List.count_append, hnone]
  simp

include hmiss in
theorem view_second_of_untracked (htrk : pk ∉ w.tracked.accounts)
    (hmgd : pk ∉ internallyManaged) : w₂.view pk = w.view pk := by
  have hpres : pk ∉ missing := by
    rw [← mem_toFinset, hmiss, missingInPubsub, mem_sdiff]
    exact fun hmem => htrk hmem.1
  exact (h.present pk hpres).trans (h.unmanaged pk hmgd)

include hsnap hextra hmiss in
/-- An account that is held and not wanted is unsubscribed. -/
theorem unsubscribed_of_held (hheld : Holds w.clients pk)
    (htrk : pk ∉ w.tracked.accounts) (hmgd : pk ∉ internallyManaged) :
    ∃ res, .unsubscribed pk res ∈ w₃.calls := by
  have hmem : pk ∈ extra := by
    rw [← mem_toFinset, hextra, extraInPubsub, mem_sdiff, mem_filter]
    exact ⟨⟨(mem_union_snapshot hsnap).mpr hheld, hmgd⟩, htrk⟩
  have hview := h.view_second_of_untracked hmiss htrk hmgd
  have hava : (w.view pk).available := isSome_snapshot.mp (by rw [hsnap]; rfl)
  obtain ⟨res, hcall⟩ := (hview ▸ h.unsubscribed pk hmem).called_of_held hava htrk hheld
  exact ⟨res, (mem_calls_view.mp hcall).1⟩

include hsnap hextra hmiss in
/-- What is held and not tracked in the end was so at the start. -/
theorem held_first (hheld : (w₃.view pk).held) (htrk : ¬ (w₃.view pk).tracked)
    (hmgd : pk ∉ internallyManaged) :
    Holds w.clients pk ∧ pk ∉ w.tracked.accounts := by
  have huntr : pk ∉ w.tracked.accounts := by
    intro htrk₀
    rw [h.wanted pk (notMem_extra hextra htrk₀)] at hheld htrk
    have htrk₁ : (w₁.view pk).tracked := h.tracked_first ▸ htrk₀
    by_cases hmem : pk ∈ missing
    · exact htrk ((h.resubscribed pk hmem).tracked_of_held htrk₁ hheld)
    · exact htrk (h.present pk hmem ▸ htrk₁)
  refine ⟨?_, huntr⟩
  by_contra hunh
  have hwant : pk ∉ extra := by
    rw [← mem_toFinset, hextra, extraInPubsub, mem_sdiff, mem_filter]
    exact fun hmem => hunh ((mem_union_snapshot hsnap).mp hmem.1.1)
  rw [h.wanted pk hwant, h.view_second_of_untracked hmiss huntr hmgd] at hheld
  exact hunh hheld

include hextra in
/-- Internally managed accounts are not unsubscribed. -/
theorem not_unsubscribed_of_managed (hcs : w.calls = []) (hmgd : pk ∈ internallyManaged)
    (res : CallResult) : .unsubscribed pk res ∉ w₃.calls := by
  intro hmem
  have hwant : pk ∉ extra := by
    rw [← mem_toFinset, hextra, extraInPubsub, mem_sdiff, mem_filter]
    exact fun hmem => hmem.1.2 hmgd
  have hmem₂ : .unsubscribed pk res ∈ (w₂.view pk).calls := by
    rw [← h.wanted pk hwant]
    exact mem_calls_view.mpr ⟨hmem, rfl⟩
  have hmem₁ : .unsubscribed pk res ∈ (w₁.view pk).calls := by
    by_cases hmiss : pk ∈ missing
    · exact (h.resubscribed pk hmiss).unsubscribed_mem hmem₂
    · rwa [← h.present pk hmiss]
  obtain ⟨_, ⟨⟩⟩ := h.calls_first hcs hmem₁

end Passes

/-- **Reconciliation repairs drift in both directions.**  In the end a tracked account is held by a
client or is being undelegated; an account that no client holds after its re-subscription, and that
is not being undelegated, has lost its tracking and its ownership and was reported once; accounts
that are held and not tracked were unsubscribed, and internally managed ones were not. -/
theorem reconcile_repairs (client : PubsubClient) (internallyManaged : List Pubkey)
    (tracked : TrackedAccounts) (ownership : Pubkey → Option SubscriptionOwnership)
    (clients : ConnectedClients) (hava : Available clients) {total : ℕ} {w' : Watch}
    (h : Reconciles client internallyManaged ⟨tracked, ownership, clients, []⟩ total w') :
    (∀ pk ∈ w'.tracked.accounts, w'.isUndelegating pk = false → Holds w'.clients pk) ∧
    (∀ pk ∈ tracked.accounts,
      (ownership pk).any (·.contains .undelegationTracking) = false →
      ¬ Holds w'.clients pk →
      pk ∉ w'.tracked.accounts ∧ w'.ownership pk = none ∧
        w'.calls.count (.staleSent pk) = 1) ∧
    (∀ pk ∉ internallyManaged,
      (Holds clients pk ∧ pk ∉ tracked.accounts ∨
        Holds w'.clients pk ∧ pk ∉ w'.tracked.accounts) →
      ∃ res, .unsubscribed pk res ∈ w'.calls) ∧
    ∀ pk ∈ internallyManaged, ∀ res, .unsubscribed pk res ∉ w'.calls := by
  obtain ⟨-, h⟩ := h
  split at h
  case h_1 hnone =>
    have hsome := isSome_snapshot.mpr hava
    rw [hnone] at hsome
    cases hsome
  case h_2 snapshot hsnap =>
    obtain ⟨missing, extra, hnd, hmiss, hnd', hextra, rfl⟩ := h
    obtain ⟨w₁, w₂, hpass⟩ := passes_repair hnd hnd'
    refine ⟨fun pk => ?_, fun pk htrk hund hheld => ?_, fun pk hmgd => ?_, fun pk hmgd res => ?_⟩
    · exact hpass.held_of_tracked hmiss hextra hsnap
    · have hlost :=
        hpass.lost_of_not_held hmiss hextra hsnap rfl htrk hund hheld
      rwa [view, List.count_filter (by simp [ReconcilerCall.pubkey])] at hlost
    · rintro (⟨hheld, htrk⟩ | ⟨hheld, htrk⟩)
      · exact hpass.unsubscribed_of_held hmiss hextra hsnap hheld htrk hmgd
      · obtain ⟨hheld, htrk⟩ :=
          hpass.held_first hmiss hextra hsnap hheld htrk hmgd
        exact hpass.unsubscribed_of_held hmiss hextra hsnap hheld htrk hmgd
    · exact hpass.not_unsubscribed_of_managed hextra rfl hmgd res

end Repaired

end Watch

/-! ### Calls that fail -/

namespace FailingCalls

/-- All calls fail and change nothing. -/
def client : PubsubClient where
  subscribe _ _ clients := (.failed, clients)
  unsubscribe _ _ clients := (.failed, clients)
  subscribe_sameOff _ _ clients := SameOff.refl clients
  unsubscribe_sameOff _ _ clients := SameOff.refl clients

def holding (accounts : Finset Pubkey) : Option SubscriptionReconciliationSnapshot :=
  some ⟨accounts, accounts, subset_rfl⟩

def tracked (accounts : Finset Pubkey) : TrackedAccounts :=
  ⟨accounts, ∅, Finset.disjoint_empty_right _⟩

/-- Account 1 is being undelegated. -/
def ownership (pubkey : Pubkey) : Option SubscriptionOwnership :=
  some (new.acquire (if pubkey = 1 then .undelegationTracking else .directAccount))

end FailingCalls

open FailingCalls in
/-- The re-subscription fails for an account that is being undelegated, and for one that the first
of two clients holds; both stay tracked and owned and are not reported. -/
theorem kept_of_failed_resubscription : ∃ total w',
    Watch.Reconciles client [] ⟨tracked {1, 2}, ownership, [holding {2}, holding ∅], []⟩ total w' ∧
    ∀ pk ∈ ({1, 2} : Finset Pubkey), .subscribed pk .failed ∈ w'.calls ∧
      pk ∈ w'.tracked.accounts ∧ w'.ownership pk = ownership pk ∧
      .staleSent pk ∉ w'.calls := by
  refine ⟨_, _, ⟨rfl, [1, 2], [], by decide, by decide, by decide, by decide, rfl⟩, ?_⟩
  intro pk hpk
  obtain rfl | hpk := Finset.mem_insert.mp hpk
  · exact ⟨by decide, by decide, rfl, by decide⟩
  · obtain rfl := Finset.mem_singleton.mp hpk
    exact ⟨by decide, by decide, rfl, by decide⟩

open FailingCalls in
/-- Account 2 is tracked and not held, account 3 is held and not tracked. -/
theorem reconcile_repairs_of_failing : ∃ total w',
    Watch.Reconciles client [] ⟨tracked {2}, ownership, [holding {3}], []⟩ total w' ∧
      (2 ∉ w'.tracked.accounts ∧ w'.ownership 2 = none ∧ w'.calls.count (.staleSent 2) = 1) ∧
      ∃ res, .unsubscribed 3 res ∈ w'.calls := by
  have h : Watch.Reconciles client [] ⟨tracked {2}, ownership, [holding {3}], []⟩ 1 _ :=
    ⟨rfl, [2], [3], by decide, by decide, by decide, by decide, rfl⟩
  have hrepr := Watch.reconcile_repairs client [] (tracked {2}) ownership [holding {3}]
    ⟨_, List.mem_singleton_self _⟩ h
  refine ⟨_, _, h, hrepr.2.1 2 (by decide) rfl ?_, hrepr.2.2.1 3 (by decide) (.inl ⟨?_, ?_⟩)⟩
  · rintro ⟨snapshot, hmem, hpk⟩
    cases List.mem_singleton.mp hmem
    exact absurd hpk (by decide)
  · exact ⟨_, List.mem_singleton_self _, by decide⟩
  · decide

end Magicblock.Provider
