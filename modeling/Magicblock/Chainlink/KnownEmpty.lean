import Magicblock.Chainlink.Pipeline
import Magicblock.Foundations.Lru

/-!
# Chainlink/KnownEmpty — token accounts whose eATA is known to be missing

An update of an ATA looks for its eATA, to project the delegated balance.  An eATA that was not
found is remembered, so that the next update, while the eATA is watched, does without a fetch.
Nothing takes an entry back when the eATA is seen after all.
-/

namespace Magicblock.Chainlink

structure ResolvedSubscriptionAccount where
  account : AccountSharedData
  delegation : Option (DelegationRecord × Option DelegationActions) := none
  sourceSlots : Option CloneSourceSlots := none

abbrev KnownEmptyEatas := Lru Pubkey Unit 100000

/-- What the other components answer while an update is handled. -/
structure AtaAnswers where
  wasWatching : Bool
  subscribed : Bool
  fetched : Except ChainlinkError (List RemoteAccount)
  record : Option (DelegationRecord × Option DelegationActions)

def AtaAnswers.popped (answers : AtaAnswers) : Option RemoteAccount :=
  answers.fetched.toOption.bind List.getLast?

variable (env : CloneEnv)

def derivedEata (ataPubkey : Pubkey) (ataAccount : AccountSharedData) : Option Pubkey :=
  (env.isAta ataPubkey ataAccount.owner ataAccount.data).bind (eataOf env)

/-- A known-empty eATA is not fetched, if the subscription was already live. -/
def AtaAnswers.skips (answers : AtaAnswers) (known : KnownEmptyEatas) (eata : Pubkey) : Bool :=
  answers.wasWatching && answers.subscribed && (known.peek eata).isSome

def projectFetched (answers : AtaAnswers) (ataAccount eataAccount : AccountSharedData) :
    ResolvedSubscriptionAccount :=
  match answers.record with
  | none => { account := ataAccount }
  | some (record, actions) =>
    match projectDelegatedAta env ataAccount eataAccount.data record with
    | some projected =>
      ⟨projected, some (record, actions), some (.projected ataAccount.slot eataAccount.slot)⟩
    | none => ⟨ataAccount, some (record, actions), none⟩

def maybeProjectAtaFromSubscriptionUpdate (answers : AtaAnswers) (ataPubkey : Pubkey)
    (ataAccount : AccountSharedData) (known : KnownEmptyEatas) :
    ResolvedSubscriptionAccount × KnownEmptyEatas :=
  match derivedEata env ataPubkey ataAccount with
  | none => ({ account := ataAccount }, known)
  | some eata =>
    if answers.skips known eata then ({ account := ataAccount }, known.touch eata)
    else match answers.popped with
      | some (.found state) => (projectFetched env answers ataAccount state.account, known)
      -- Only `NotFound` proves absence, and only a live subscription tells when it ends.
      | some (.notFound _) =>
        ({ account := ataAccount }, if answers.subscribed then known.put eata () else known)
      | none => ({ account := ataAccount }, known)

/-! ### Runs -/

inductive EataEvent
  | ataUpdate (ataPubkey : Pubkey) (ataAccount : AccountSharedData) (answers : AtaAnswers)
  /-- By any other path, such as the projection of a requested ATA. -/
  | fetched (eata : Pubkey) (remote : RemoteAccount)
  | eataUpdate (eata : Pubkey)

/-- The cache, and the eATAs that were seen since they were last found missing. -/
structure EataState where
  known : KnownEmptyEatas
  seen : Pubkey → Bool

/-- What a step learns: an eATA, and whether it exists. -/
def EataEvent.finding (s : EataState) : EataEvent → Option (Pubkey × Bool)
  | ataUpdate ataPubkey ataAccount answers => do
    let eata ← derivedEata env ataPubkey ataAccount
    if answers.skips s.known eata then none
    else answers.popped.map fun remote => (eata, remote.isFound)
  | fetched eata remote => some (eata, remote.isFound)
  | eataUpdate eata => some (eata, true)

def EataState.learn (s : EataState) : Option (Pubkey × Bool) → Pubkey → Bool
  | none => s.seen
  | some (eata, found) => Function.update s.seen eata found

def EataState.next (s : EataState) (e : EataEvent) : EataState where
  known := match e with
    | .ataUpdate ataPubkey ataAccount answers =>
      (maybeProjectAtaFromSubscriptionUpdate env answers ataPubkey ataAccount s.known).2
    | .fetched .. | .eataUpdate _ => s.known
  seen := s.learn (e.finding env s)

def eataMachine : Machine EataState EataEvent where
  start s := s = ⟨.empty, fun _ => false⟩
  step _ s e t := t = s.next env e

/-- **No eATA that is known to be empty is seen.** -/
def Unseen (s : EataState) (e : EataEvent) : Prop :=
  ∀ eata, e.finding env s = some (eata, true) → s.known.peek eata = none

variable {env} {s : EataState} {es : List EataEvent} {eata : Pubkey} {answers : AtaAnswers}

/-- A step adds an eATA to the cache only if it has found it missing. -/
theorem peek_next (h : s.known.peek eata = none)
    (hfind : e.finding env s ≠ some (eata, false)) : (s.next env e).known.peek eata = none := by
  cases e with
  | fetched | eataUpdate => exact h
  | ataUpdate ataPubkey ataAccount answers =>
    simp only [EataEvent.finding, EataState.next, maybeProjectAtaFromSubscriptionUpdate] at hfind ⊢
    cases hder : derivedEata env ataPubkey ataAccount with
    | none => exact h
    | some eata' =>
      simp only [hder, Option.bind_eq_bind, Option.bind_some] at hfind ⊢
      by_cases hskips : answers.skips s.known eata' = true
      · rw [if_pos hskips]
        exact Lru.peek_touch.trans h
      · rw [if_neg hskips] at hfind ⊢
        rcases hpop : answers.popped with _ | state | slot
        · exact h
        · rw [hpop] at hfind
          have hne : eata ≠ eata' := fun heq => hfind (heq ▸ rfl)
          dsimp only
          split_ifs
          · exact Lru.peek_put_of_ne hne h
          · exact h
        · exact h

theorem peek_of_seen (h : ((eataMachine env).guarded (Unseen env)).Run es s) :
    ∀ eata, s.seen eata = true → s.known.peek eata = none := by
  refine Machine.Run.invariant ?_ ?_ h
  · rintro s rfl eata hseen
    cases hseen
  · rintro es s e _ - ih ⟨huns, rfl⟩ eata hseen
    change s.learn (e.finding env s) eata = true at hseen
    cases hfind : e.finding env s with
    | none =>
      rw [hfind] at hseen
      exact peek_next (ih eata hseen) (by simp [hfind])
    | some finding =>
      obtain ⟨eata', found⟩ := finding
      rw [hfind] at hseen
      by_cases heq : eata = eata'
      · subst heq
        obtain rfl : found = true := by simpa [EataState.learn] using hseen
        exact peek_next (huns eata hfind) (by simp [hfind])
      · have hbef : s.seen eata = true := by simpa [EataState.learn, heq] using hseen
        exact peek_next (ih eata hbef) (by simp [hfind, Ne.symm heq])

/-- **An ATA is taken as plain only if its eATA was not seen since it was found missing** — along
runs in which no eATA is seen while it is known to be empty. -/
theorem skipped_unseen (h : ((eataMachine env).guarded (Unseen env)).Run es s)
    (hskips : answers.skips s.known eata) : s.seen eata = false := by
  rw [AtaAnswers.skips, Bool.and_eq_true] at hskips
  by_contra hseen
  rw [peek_of_seen h eata (by simpa using hseen)] at hskips
  cases hskips.2

/-! ### An eATA is created -/

namespace EataExample

/-- Every account is an ATA, of the eATA 7. -/
def ataEnv : CloneEnv :=
  { CloneEnv.small with
    isAta := fun _ _ _ => some ⟨2, 1⟩
    tryDeriveEataAddressAndBump := fun _ _ => some (7, 0) }

def update (wasWatching : Bool) : EataEvent :=
  .ataUpdate 5 ⟨1, [], 3, false, 0, .mirrored, 9, 0⟩ ⟨wasWatching, true, .ok [.notFound 9], none⟩

def missing : EataState := EataState.next ataEnv ⟨.empty, fun _ => false⟩ (update false)

theorem missing_run :
    ((eataMachine ataEnv).guarded (Unseen ataEnv)).Run [update false] missing := by
  refine Machine.Run.step (.start rfl) ⟨?_, rfl⟩
  rintro eata h
  exact absurd (show some (7, false) = some (eata, true) from h) (by simp)

end EataExample

open EataExample in
theorem skipped_unseen_missing : missing.seen 7 = false :=
  @skipped_unseen ataEnv missing _ 7 ⟨true, true, .ok [], none⟩ missing_run (by decide)

open EataExample in
/-- **An eATA that was seen is still taken to be missing.** -/
theorem skipped_seen : ∃ es s, (eataMachine ataEnv).Run es s ∧ derivedEata ataEnv 5
    ⟨1, [], 3, false, 0, .mirrored, 9, 0⟩ = some 7 ∧
    AtaAnswers.skips ⟨true, true, .ok [], none⟩ s.known 7 ∧ s.seen 7 = true :=
  ⟨_, missing.next ataEnv (.eataUpdate 7), missing_run.of_guarded.step rfl,
    rfl, by decide, by decide⟩

end Magicblock.Chainlink
