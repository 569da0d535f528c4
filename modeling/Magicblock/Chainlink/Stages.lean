import Magicblock.Chainlink.Pipeline
import Magicblock.Foundations.Results

/-!
# Chainlink/Stages — what each stage returns, and the references it leaves

A call looks at nothing but its answers, so that what a stage returns is a function of them:
`delegatedRequests`, `programsLoaded`, `ataRequests`.  One lemma for each stage says so, together
with the references on companions that are left when it ends.  A stage that fails leaves none of its
own, with the exception of programs that cannot be decoded.
-/

namespace Magicblock.Chainlink

open List

open List (append_assoc append_nil cons_ne_nil forall_mem_map map_append mem_append mem_map)
open Exec (meets_bind meets_ite meets_pure meets_throw)

open Provider (SubscriptionReason)

variable {env : CloneEnv} {s moves : List Move} {α β γ : Type}

/-! ### Small pieces -/

@[simp]
theorem meets_perform :
    (perform moves).Meets s Q E ↔ Q () (s ++ moves) :=
  Iff.rfl

@[simp]
theorem meets_releaseSubs : (releaseSubs releases).Meets s Q E ↔
      Q () (s ++ releaseMoves releases) :=
  Iff.rfl

@[simp]
theorem meets_tryGetMulti :
    (tryGetMulti f pks).Meets s Q E ↔ Q f.outcome (s ++ f.moves pks) :=
  Iff.rfl

@[simp] theorem meets_orRelease : (orRelease m releases).Meets s Q E ↔ m.Meets s Q fun err s' =>
      E err (s' ++ releaseMoves releases) := by
  rw [orRelease, Exec.meets_handle]
  rfl

/-- A loop that returns values of its own, and keeps what each turn keeps. -/
theorem meets_mapM {I : List Move → Prop} {f : γ → Call β} {l : List γ} (value : γ → β)
    (hf : ∀ a s, I s → (f a).Meets s (fun b s' => b = value a ∧ I s') fun _ _ => False) (hs : I s) :
    (l.mapM f).Meets s (fun bs s' => bs = l.map value ∧ I s') fun _ _ => False := by
  induction l generalizing s with
  | nil => exact ⟨rfl, hs⟩
  | cons a l ih =>
    rw [mapM_cons, meets_bind]
    refine (hf a s hs).mono ?_ fun _ _ => id
    rintro _ s₁ ⟨rfl, hs₁⟩
    rw [meets_bind]
    refine (ih hs₁).mono ?_ fun _ _ => id
    rintro _ s₂ ⟨rfl, hs₂⟩
    exact ⟨rfl, hs₂⟩

/-- All of `n` subscriptions can be acquired. -/
def Granted (failure : ℕ → Option String) (n : ℕ) : Prop := ∀ i < n, failure i = none

instance (failure : ℕ → Option String) (n : ℕ) : Decidable (Granted failure n) :=
  inferInstanceAs (Decidable (∀ i < n, failure i = none))

theorem acquireSubs_spec (failure : ℕ → Option String) (reason : SubscriptionReason)
    (acquired pks : List Pubkey) : (acquireSubs failure reason acquired pks).Meets s
      (fun _ s' => (∀ i < pks.length, failure (acquired.length + i) = none) ∧
        s' = s ++ pks.map (.acquired reason))
      fun _ s' => (∃ i < pks.length, failure (acquired.length + i) ≠ none) ∧
        ∃ got, s' = s ++ got.map (.acquired reason) ++
          releaseMoves ((acquired ++ got).map (reason, ·)) := by
  induction pks generalizing acquired s with
  | nil => simp [acquireSubs]
  | cons pk pks ih =>
    rw [acquireSubs]
    cases hfailure : failure acquired.length with
    | some text =>
      simp only [meets_bind, meets_releaseSubs, meets_throw]
      exact ⟨⟨0, Nat.succ_pos _, by simp [hfailure]⟩, [], by simp⟩
    | none =>
      simp only [meets_bind, meets_perform]
      have hnext (i : ℕ) : (acquired ++ [pk]).length + i = acquired.length + (i + 1) := by
        rw [length_append, length_singleton, add_assoc, add_comm 1]
      refine (ih (acquired ++ [pk])).mono ?_ ?_
      · rintro _ _ ⟨hall, rfl⟩
        refine ⟨fun i hi => ?_, by simp⟩
        cases i with
        | zero => exact hfailure
        | succ i => exact hnext i ▸ hall i (Nat.lt_of_succ_lt_succ hi)
      · rintro _ _ ⟨⟨i, hi, hfail⟩, got, rfl⟩
        exact ⟨⟨i + 1, Nat.succ_lt_succ hi, hnext i ▸ hfail⟩, pk :: got, by simp⟩

/-! ### The references that are left -/

/-- The references of a reason on a pubkey that moves leave. -/
def held (reason : SubscriptionReason) (pubkey : Pubkey) (moves : List Move) : ℤ :=
  moves.count (.acquired reason pubkey) - moves.count (.released reason pubkey)

theorem held_append (l l' : List Move) :
    held reason pk (l ++ l') = held reason pk l + held reason pk l' := by
  simp only [held, count_append, Nat.cast_add]
  ring

theorem held_acquired (r : SubscriptionReason) (pks : List Pubkey) :
    held reason pk (pks.map (.acquired r)) = if r = reason then (pks.count pk : ℤ) else 0 := by
  have hrel : (pks.map (Move.acquired r)).count (.released reason pk) = 0 :=
    count_eq_zero.mpr (by simp)
  rw [held, hrel]
  split_ifs with hr
  · have hinj : Function.Injective (Move.acquired r) := fun _ _ heq => (Move.acquired.inj heq).2
    rw [← hr, count_map_of_injective _ _ hinj]
    simp
  · rw [count_eq_zero.mpr (by simp [hr])]
    simp

theorem held_releaseMoves :
    held reason pk (releaseMoves releases) = -(releases.count (reason, pk) : ℤ) := by
  have hacq : (releaseMoves releases).count (.acquired reason pk) = 0 :=
    count_eq_zero.mpr (by simp [releaseMoves])
  have hinj : Function.Injective fun release : SubscriptionReason × Pubkey =>
      Move.released release.1 release.2 := fun _ _ heq =>
    Prod.ext (Move.released.inj heq).1 (Move.released.inj heq).2
  rw [held, hacq, releaseMoves]
  have hrel := count_map_of_injective releases _ hinj (reason, pk)
  dsimp only at hrel
  rw [hrel]
  simp

theorem count_map_reason (r : SubscriptionReason) (pks : List Pubkey) :
    (pks.map (r, ·)).count (reason, pk) = if r = reason then pks.count pk else 0 := by
  split_ifs with hr
  · rw [hr, count_map_of_injective _ _ (Prod.mk_right_injective reason)]
  · exact count_eq_zero.mpr fun h => by simp [hr] at h

@[simp] theorem count_direct (pks : List Pubkey) : (direct pks).count (reason, pk) =
    if .directAccount = reason then pks.count pk else 0 :=
  count_map_reason ..

@[simp] theorem count_records (pks : List Pubkey) : (records pks).count (reason, pk) =
    if .delegationRecord = reason then pks.count pk else 0 :=
  count_map_reason ..

@[simp] theorem count_programDatas (pks : List Pubkey) :
    (programDatas pks).count (reason, pk) =
      if .programData = reason then pks.count pk else 0 :=
  count_map_reason ..

/-- **The references on companions that moves leave.** -/
structure Leaves (s : List Move) (recordSubs programDataSubs : List Pubkey) : Prop where
  records : ∀ pubkey, held .delegationRecord pubkey s = recordSubs.count pubkey
  programData : ∀ pubkey, held .programData pubkey s = programDataSubs.count pubkey

theorem leaves_acquired_records (pks : List Pubkey) :
    Leaves (pks.map (.acquired .delegationRecord)) pks [] :=
  ⟨fun _ => held_acquired .., fun _ => held_acquired ..⟩

/-- Moves that leave no reference on a companion. -/
abbrev Even (moves : List Move) : Prop := Leaves moves [] []

variable {p r : List Pubkey}

theorem Leaves.append (h : Leaves s r p) (h' : Leaves moves r' p') :
    Leaves (s ++ moves) (r ++ r') (p ++ p') where
  records k := by rw [held_append, h.records, h'.records, count_append, Nat.cast_add]
  programData k := by
    rw [held_append, h.programData, h'.programData, count_append, Nat.cast_add]

theorem Leaves.append_even (h : Leaves s r p) (h' : Even moves) : Leaves (s ++ moves) r p := by
  simpa using h.append h'

/-- The move is about a reference on a companion. -/
def Move.ofCompanion : Move → Bool
  | .acquired reason _ | .released reason _ => reason = .delegationRecord || reason = .programData
  | _ => false

theorem even_of_ofCompanion (h : ∀ move ∈ moves, move.ofCompanion = false) : Even moves := by
  have hzero (move : Move) (hmove : move.ofCompanion) : moves.count move = 0 :=
    count_eq_zero.mpr fun hmem => Bool.false_ne_true ((h move hmem).symm.trans hmove)
  exact ⟨fun k => by simp [held, hzero, Move.ofCompanion],
    fun k => by simp [held, hzero, Move.ofCompanion]⟩

theorem even_nil : Even [] := even_of_ofCompanion nofun

theorem even_fetch (f : Fetch) (pks : List Pubkey) : Even (f.moves pks) := by
  refine even_of_ofCompanion fun move hmove => ?_
  simp only [Fetch.moves, Fetch.setUpMoves, mem_append, mem_map] at hmove
  rcases hmove with ((⟨_, -, rfl⟩ | ⟨_, -, rfl⟩) | hmove) | ⟨_, -, rfl⟩
  · rfl
  · rfl
  · cases hsetUp : f.setUp <;> simp only [hsetUp, mem_append, mem_map] at hmove
    · rcases hmove with ⟨_, -, rfl⟩ | ⟨_, -, rfl⟩ <;> rfl
    · obtain ⟨_, -, rfl⟩ := hmove
      rfl
  · rfl

/-- Releases of exactly these references. -/
def Covers (releases : List (SubscriptionReason × Pubkey)) (r p : List Pubkey) : Prop :=
  ∀ pubkey, releases.count (.delegationRecord, pubkey) = r.count pubkey ∧
    releases.count (.programData, pubkey) = p.count pubkey

/-- What is released is not left. -/
theorem Leaves.release (h : Leaves s (r ++ a) (p ++ b)) (hcovs : Covers releases a b) :
    Leaves (s ++ releaseMoves releases) r p where
  records k := by
    rw [held_append, h.records, held_releaseMoves, (hcovs k).1]
    simp
  programData k := by
    rw [held_append, h.programData, held_releaseMoves, (hcovs k).2]
    simp

theorem Leaves.release_direct (h : Leaves s r p) (pks : List Pubkey) :
    Leaves (s ++ releaseMoves (direct pks)) r p :=
  Leaves.release (a := []) (b := []) (by simpa using h) fun k => by simp

theorem even_refused (reason : SubscriptionReason) (got : List Pubkey) :
    Even (got.map (.acquired reason) ++ releaseMoves (got.map (reason, ·))) := by
  constructor <;> intro k <;> rw [held_append, held_acquired, held_releaseMoves,
    count_map_reason] <;> split_ifs <;> simp

/-- **Either all subscriptions are acquired, or those that were are given back.** -/
theorem meets_acquireSubs (failure : ℕ → Option String) (reason : SubscriptionReason)
    (pks : List Pubkey) : (acquireSubs failure reason [] pks).Meets s
      (fun _ s' => Granted failure pks.length ∧ s' = s ++ pks.map (.acquired reason))
      fun _ s' => ¬ Granted failure pks.length ∧ ∃ moves, Even moves ∧ s' = s ++ moves := by
  refine (acquireSubs_spec failure reason [] pks).mono ?_ ?_
  · rintro _ _ ⟨hgran, rfl⟩
    exact ⟨fun i hi => by simpa using hgran i hi, rfl⟩
  · rintro _ _ ⟨⟨i, hi, hfail⟩, got, rfl⟩
    refine ⟨fun hgran => hfail (by simpa using hgran i hi), _, even_refused reason got, ?_⟩
    rw [nil_append, append_assoc]

/-! ### Delegated accounts -/

/-- What the fetch of an account with its companion gives. -/
def companionResult (env : CloneEnv) (f : Fetch) (pubkey companionPubkey : Pubkey) :
    Except ChainlinkError AccountWithCompanion :=
  f.outcome.bind fun
    | [account, companion] => resolveAccountWithCompanion pubkey companionPubkey account companion
    | accs => .error (.unexpectedAccountCount
        s!"Expected exactly 2 accounts for pubkey {env.pubkeyText pubkey} and companion {env.pubkeyText companionPubkey}, got {accs.length}")

theorem meets_withCompanion (hs : Leaves s r p) : (withCompanion env f pk companionPubkey).Meets s
      (fun result s' => result = companionResult env f pk companionPubkey ∧ Leaves s' r p)
      fun _ _ => False :=
  ⟨rfl, hs.append_even (even_fetch ..)⟩

section Delegated

variable (env) (round : Round) (ownedByDeleg : List Pending)

/-- The accounts owned by the delegation program. -/
abbrev owned : List Pubkey := ownedByDeleg.map Prod.fst

abbrev recordSubsOf : List Pubkey := (owned ownedByDeleg).map env.delegationRecordPda

/-- **The requests for delegated accounts**, if their records are all subscribed to, fetched and
parsed; with each, whether the record is missing. -/
def delegatedRequests : Option (List (AccountCloneRequest × Option (Pubkey × Slot))) :=
  if Granted round.acquireRecord ownedByDeleg.length then
    (owned ownedByDeleg).mapM fun pubkey =>
      (companionResult env (round.withRecord pubkey) pubkey
        (env.delegationRecordPda pubkey)).toOption.bind fun account =>
          (requestOf env account).toOption
  else none

end Delegated

theorem mapM_toOption_bind (f : γ → Except ChainlinkError α) (g : α → Option β) (l : List γ) :
    l.mapM (fun x => (f x).toOption.bind g) =
      if errors (l.map f) = [] then (successes (l.map f)).mapM g else none := by
  induction l with
  | nil => rfl
  | cons x l ih =>
    rw [mapM_cons, ih, map_cons]
    cases hx : f x with
    | error err => rfl
    | ok a =>
      have herrs : errors (.ok a :: l.map f) = errors (l.map f) := rfl
      have hsuccs : successes (.ok a :: l.map f) = a :: successes (l.map f) := rfl
      rw [herrs, hsuccs, mapM_cons]
      have hbind : (Except.ok (ε := ChainlinkError) a).toOption.bind g = g a := rfl
      rw [hbind]
      split_ifs
      · rfl
      · cases g a <;> rfl

theorem even_cleanupMoves (round : Round) (request : AccountCloneRequest) :
    Even (cleanupMoves round request) := by
  refine even_of_ofCompanion fun move hmove => ?_
  rw [cleanupMoves] at hmove
  split_ifs at hmove
  · rcases mem_append.mp hmove with hmove | hmove <;> cases mem_singleton.mp hmove <;> rfl
  · cases mem_singleton.mp hmove
    rfl
  · cases hmove

/-- The accounts with their records become requests; those that are delegated are not watched for
themselves any more. -/
theorem requests_spec (round : Round) (undo : List (SubscriptionReason × Pubkey))
    (accs : List AccountWithCompanion) (hs : Leaves s r p) :
    (accs.mapM fun acc => match requestOf env acc with
      | .error err => do
        releaseSubs undo
        throw err
      | .ok resolved => do
        perform (cleanupMoves round resolved.1)
        return resolved : Call (List (AccountCloneRequest × Option (Pubkey × Slot)))).Meets s
      (fun requests s' => accs.mapM (fun acc => (requestOf env acc).toOption) =
        some requests ∧ Leaves s' r p)
      fun _ s' => accs.mapM (fun acc => (requestOf env acc).toOption) = none ∧
        ∃ s₁, Leaves s₁ r p ∧ s' = s₁ ++ releaseMoves undo := by
  induction accs generalizing s with
  | nil => exact ⟨rfl, hs⟩
  | cons acc accs ih =>
    rw [mapM_cons, meets_bind, mapM_cons]
    cases hreq : requestOf env acc with
    | error err =>
      simp only [meets_bind, meets_releaseSubs, meets_throw]
      exact ⟨rfl, s, hs, rfl⟩
    | ok request =>
      simp only [meets_bind, meets_perform, meets_pure]
      refine (ih (hs.append_even (even_cleanupMoves round request.1))).mono ?_ ?_
      · rintro requests s' ⟨hreqs, hs'⟩
        exact ⟨by rw [hreqs]; rfl, hs'⟩
      · rintro _ s' ⟨hreqs, hs'⟩
        exact ⟨by rw [hreqs]; rfl, hs'⟩

/-- **Delegated accounts are resolved, or everything is given back.** -/
theorem meets_resolveDelegatedAccounts (round : Round) (ownedByDeleg : List Pending)
    (plain : List AccountCloneRequest) (hs : Leaves s r p) :
    (resolveDelegatedAccounts env round ownedByDeleg plain).Meets s
      (fun resolved s' => (∃ requests, delegatedRequests env round ownedByDeleg = some requests ∧
        resolved = ⟨plain ++ requests.map Prod.fst, recordSubsOf env ownedByDeleg,
          requests.filterMap Prod.snd⟩) ∧ Leaves s' (r ++ recordSubsOf env ownedByDeleg) p)
      fun _ s' => delegatedRequests env round ownedByDeleg = none ∧ Leaves s' r p := by
  have hlen : (recordSubsOf env ownedByDeleg).length = ownedByDeleg.length := by simp
  rw [resolveDelegatedAccounts, meets_bind, delegatedRequests, mapM_toOption_bind, ← hlen]
  refine (meets_acquireSubs round.acquireRecord .delegationRecord _).mono ?_ ?_
  · rintro _ _ ⟨hgran, rfl⟩
    have hundo : Covers (direct (owned ownedByDeleg ++ recordSubsOf env ownedByDeleg) ++
        records (recordSubsOf env ownedByDeleg)) (recordSubsOf env ownedByDeleg) [] :=
      fun k => by simp
    have hacq := hs.append (leaves_acquired_records (recordSubsOf env ownedByDeleg))
    rw [if_pos hgran, meets_bind]
    refine (meets_mapM _ (fun _ _ => meets_withCompanion) hacq).mono ?_ fun _ _ => False.elim
    rintro _ s₁ ⟨rfl, hs₁⟩
    rw [meets_ite]
    refine ⟨fun herrs => ?_, fun herrs => ?_⟩
    · rw [meets_bind, meets_releaseSubs, meets_throw, if_neg herrs]
      exact ⟨rfl, hs₁.release hundo⟩
    · rw [meets_bind, if_pos (not_not.mp herrs)]
      refine (requests_spec round _ _ hs₁).mono ?_ ?_
      · rintro requests s₂ ⟨hreqs, hs₂⟩
        rw [append_nil] at hs₂
        exact ⟨⟨requests, hreqs, rfl⟩, hs₂.release_direct _⟩
      · rintro _ _ ⟨hreqs, s₂, hs₂, rfl⟩
        exact ⟨hreqs, hs₂.release hundo⟩
  · rintro _ _ ⟨href, moves, heven, rfl⟩
    exact ⟨if_neg href, hs.append_even heven⟩

/-! ### Programs -/

section Programs

variable (env) (round : Round) (programs : List Pending)

/-- What is fetched of the programs with their data. -/
def resolvedPrograms : List (Except ChainlinkError AccountWithCompanion) :=
  fetchedPrograms env (upgradeable env programs) (programKeys env programs)
    (if programKeys env programs ≠ [] then round.programs.outcome else .ok [])

/-- The programs with their data, and those without, if **all can be decoded**. -/
def decodedPrograms :
    Except ChainlinkError (List (Except ChainlinkError LoadedProgram) × List LoadedProgram) := do
  let loaded ← (successes (resolvedPrograms env round programs)).mapM (loadUpgradeable env)
  let single ← (programs.filter fun program => program.2.1.owner ≠ env.loaderV3).mapM fun program =>
    loadProgram env program.1 program.2.1.owner (some program.2.1) none
  return (loaded, single)

/-- **The programs that are loaded**, if their data is subscribed to, fetched and decoded. -/
def programsLoaded : Option (List LoadedProgram) :=
  if Granted round.acquireProgramData (programDataSubsOf env programs).length then
    (decodedPrograms env round programs).toOption.bind fun decoded =>
      if errors (resolvedPrograms env round programs) ++ errors decoded.1 = [] then
        some (successes decoded.1 ++ decoded.2)
      else none
  else none

/-- The subscriptions of program data are acquired, and then a program cannot be decoded. -/
def DecodingFails : Prop :=
  Granted round.acquireProgramData (programDataSubsOf env programs).length ∧
    (decodedPrograms env round programs).toOption = none ∧ upgradeable env programs ≠ []

end Programs

theorem pairUp_pubkeys (hlen : accs.length = 2 * programs.length)
    (herrs : errors (pairUp env programs accs) = []) :
    (successes (pairUp env programs accs)).map AccountWithCompanion.pubkey = programs := by
  induction programs generalizing accs with
  | nil => cases accs <;> rfl
  | cons program programs ih =>
    rcases accs with _ | ⟨acc, _ | ⟨data, accs⟩⟩
    · simp at hlen
    · simp at hlen
      omega
    · rw [pairUp] at herrs ⊢
      have hlen' : accs.length = 2 * programs.length := by
        simp only [length_cons] at hlen
        omega
      cases acc with
      | notFound slot => exact absurd herrs (cons_ne_nil _ _)
      | found acc =>
        have htail : errors (pairUp env programs accs) = [] := by
          cases data <;> exact herrs
        cases data <;> exact congrArg (program :: ·) (ih hlen' htail)

/-- If nothing failed, every program with its data was fetched. -/
theorem resolvedPrograms_pubkeys (round : Round)
    (herrs : errors (resolvedPrograms env round programs) = []) :
    (successes (resolvedPrograms env round programs)).map AccountWithCompanion.pubkey =
      upgradeable env programs := by
  rw [resolvedPrograms] at herrs ⊢
  cases hfet : if programKeys env programs ≠ [] then round.programs.outcome else .ok [] with
  | error err =>
    rw [hfet] at herrs
    cases herrs
  | ok accs =>
    rw [hfet, fetchedPrograms] at herrs
    rw [fetchedPrograms]
    split_ifs at herrs ⊢ with hlen
    · cases herrs
    · refine pairUp_pubkeys ?_ herrs
      rw [not_not.mp hlen, programKeys, length_flatMap]
      simp [mul_comm]

/-- What is loaded of programs with their data, if nothing failed. -/
theorem programIds_loadUpgradeable {accs : List AccountWithCompanion}
    (hload : accs.mapM (loadUpgradeable env) = .ok loaded) (herrs : errors loaded = []) :
    (successes loaded).map LoadedProgram.programId = accs.map AccountWithCompanion.pubkey := by
  rw [Except.mapM_eq_ok] at hload
  induction hload with
  | nil => rfl
  | @cons acc result accs loaded hres _ ih =>
    rw [loadUpgradeable] at hres
    cases hdata : acc.companionAccount with
    | none =>
      rw [hdata] at hres
      cases hres
      cases herrs
    | some data =>
      rw [hdata] at hres
      obtain ⟨program, hprog, rfl⟩ := Except.map_eq_ok.mp hres
      rw [loadProgram] at hprog
      cases hdec : env.decodeProgram acc.account.owner none (some data) with
      | error text =>
        rw [hdec] at hprog
        cases hprog
      | ok image =>
        rw [hdec] at hprog
        cases hprog
        exact congrArg (acc.pubkey :: ·) (ih herrs)

/-- Every program with its data is loaded. -/
theorem upgradeable_loaded {round : Round} (h : programsLoaded env round programs = some loaded) :
    ∀ program ∈ upgradeable env programs, program ∈ loaded.map LoadedProgram.programId := by
  intro program hprog
  rw [programsLoaded] at h
  split_ifs at h
  cases hdec : decodedPrograms env round programs with
  | error err =>
    rw [hdec] at h
    cases h
  | ok decoded =>
    rw [hdec, Except.toOption, Option.bind_some] at h
    split_ifs at h with herrs
    obtain ⟨hresol, hnone⟩ := append_eq_nil_iff.mp herrs
    obtain ⟨_, hload, hrest⟩ := Except.bind_eq_ok.mp hdec
    obtain ⟨_, -, hpair⟩ := Except.bind_eq_ok.mp hrest
    cases hpair
    rw [← Option.some.inj h, map_append, programIds_loadUpgradeable hload hnone,
      resolvedPrograms_pubkeys round hresol]
    exact mem_append_left _ hprog

theorem meets_fetchPrograms {round : Round} :
    (fetchPrograms round (programKeys env programs)).Meets s Q E ↔
      Q (if programKeys env programs ≠ [] then round.programs.outcome else .ok [])
        (s ++ if programKeys env programs ≠ [] then round.programs.moves (programKeys env programs)
          else []) := by
  rw [fetchPrograms]
  split_ifs
  · rfl
  · rw [append_nil, meets_pure]

theorem programDataSubsOf_eq_nil :
    programDataSubsOf env programs = [] ↔ upgradeable env programs = [] := by
  rw [programDataSubsOf, dedup_eq_nil, map_eq_nil_iff]

/-- **Programs are resolved, or everything is given back, unless one cannot be decoded.** -/
theorem meets_resolveProgramsWithProgramData (round : Round) (programs : List Pending)
    (hs : Leaves s r p) :
    (resolveProgramsWithProgramData env round programs).Meets s
      (fun resolved s' => programsLoaded env round programs = some resolved.loadedPrograms ∧
        resolved.programDataSubs = programDataSubsOf env programs ∧
        Leaves s' r (p ++ programDataSubsOf env programs))
      fun _ s' => programsLoaded env round programs = none ∧
        (¬ DecodingFails env round programs ∧ Leaves s' r p ∨
          DecodingFails env round programs ∧
          Leaves s' r (p ++ programDataSubsOf env programs)) := by
  rw [resolveProgramsWithProgramData, meets_bind]
  refine (meets_acquireSubs round.acquireProgramData .programData _).mono ?_ ?_
  · rintro _ _ ⟨hgran, rfl⟩
    have hacq : Leaves ((programDataSubsOf env programs).map (.acquired .programData)) []
        (programDataSubsOf env programs) :=
      ⟨fun _ => held_acquired .., fun _ => held_acquired ..⟩
    have heven : Even (if programKeys env programs ≠ [] then
        round.programs.moves (programKeys env programs) else []) := by
      split_ifs
      · exact even_fetch ..
      · exact even_nil
    have hfet := (hs.append hacq).append_even heven
    rw [append_nil] at hfet
    rw [meets_bind, meets_fetchPrograms, ← resolvedPrograms]
    generalize s ++ _ ++ _ = s₁ at hfet ⊢
    simp only [meets_bind, Exec.meets_ofExcept, meets_ite, meets_releaseSubs, meets_throw,
      meets_pure]
    -- nothing is given back if a program cannot be decoded
    have hund (hnone : (decodedPrograms env round programs).toOption = none) :
        programsLoaded env round programs = none ∧
        (¬ DecodingFails env round programs ∧ Leaves s₁ r p ∨ DecodingFails env round programs ∧
          Leaves s₁ r (p ++ programDataSubsOf env programs)) := by
      refine ⟨by rw [programsLoaded, if_pos hgran, hnone]; rfl, ?_⟩
      by_cases hupgr : upgradeable env programs = []
      · rw [programDataSubsOf_eq_nil.mpr hupgr, append_nil] at hfet
        exact .inl ⟨fun h => h.2.2 hupgr, hfet⟩
      · exact .inr ⟨⟨hgran, hnone, hupgr⟩, hfet⟩
    refine ⟨fun loaded hload => ⟨fun single hsgl => ?_, fun err hsgl => ?_⟩, fun err hload => ?_⟩
    · have hdec : (decodedPrograms env round programs).toOption = some (loaded, single) := by
        simp only [decodedPrograms, hload, hsgl]
        rfl
      rw [programsLoaded, if_pos hgran, hdec]
      refine ⟨fun herrs => ⟨if_neg herrs, .inl ⟨fun h => ?_, ?_⟩⟩,
        fun herrs => ⟨if_pos (not_not.mp herrs), trivial, hfet⟩⟩
      · cases hdec.symm.trans h.2.1
      · exact Leaves.release (a := []) (by rwa [append_nil]) fun k => by simp
    · refine hund ?_
      simp only [decodedPrograms, hload, hsgl]
      rfl
    · refine hund ?_
      rw [decodedPrograms, hload]
      rfl
  · rintro _ _ ⟨href, moves, heven, rfl⟩
    exact ⟨if_neg href, .inl ⟨fun h => href h.1, hs.append_even heven⟩⟩

/-! ### Token accounts -/

section Atas

variable (env) (round : Round) (atas : List (Pubkey × AccountSharedData × AtaInfo × Slot))

/-- The record of an eATA. -/
def eataRecordOf (resolved : AccountWithCompanion) :
    Option (DelegationRecord × Option DelegationActions) :=
  if resolved.companionAccount.isSome then
    fetchedRecord env (env.delegationRecordPda resolved.companionPubkey)
      (round.eataRecord resolved.companionPubkey).outcome
  else none

/-- **The requests for token accounts**; those whose fetch failed are left out. -/
def ataRequests : List AccountCloneRequest :=
  (successes (atas.map fun ata => companionResult env (round.withEata ata.1) ata.1
    ((eataOf env ata.2.2.1).getD 0))).map fun resolved =>
      ataRequest env resolved (eataRecordOf env round resolved)

end Atas

/-- The record of an eATA is subscribed to, fetched and given back. -/
theorem meets_eataDelegation (round : Round) (resolved : AccountWithCompanion)
    (hs : Leaves s r p) : (eataDelegation env round resolved).Meets s
      (fun delegation s' => delegation = eataRecordOf env round resolved ∧ Leaves s' r p)
      fun _ _ => False := by
  rw [eataDelegation, eataRecordOf]
  split_ifs
  · rw [fetchAndParseDelegationRecord]
    simp only [meets_bind, meets_perform, meets_tryGetMulti, meets_releaseSubs, meets_pure]
    refine ⟨trivial, ?_⟩
    have hfetch := even_fetch (round.eataRecord resolved.companionPubkey)
      [env.delegationRecordPda resolved.companionPubkey]
    cases (round.acquireEataRecord resolved.companionPubkey).isNone with
    | true =>
      refine ((hs.append (leaves_acquired_records [env.delegationRecordPda _])).append_even
        hfetch).release fun k => ?_
      cases round.containsAccount (env.delegationRecordPda resolved.companionPubkey) <;> simp
    | false =>
      refine Leaves.release (a := []) (b := []) ?_ fun k => ?_
      · simpa using hs.append_even hfetch
      · cases round.containsAccount (env.delegationRecordPda resolved.companionPubkey) <;> simp
  · exact ⟨rfl, hs⟩

/-- **Token accounts are resolved one way or the other.** -/
theorem meets_resolveAtaWithEataProjection (round : Round)
    (atas : List (Pubkey × AccountSharedData × AtaInfo × Slot)) (hs : Leaves s r p) :
    (resolveAtaWithEataProjection env round atas).Meets s
      (fun requests s' => requests = ataRequests env round atas ∧ Leaves s' r p)
      fun _ _ => False := by
  rw [resolveAtaWithEataProjection, meets_ite]
  refine ⟨?_, fun _ => ?_⟩
  · rintro rfl
    exact ⟨rfl, hs⟩
  · -- whether the projection could be subscribed to or not
    have hrest (acquired : Bool) {s : List Move} (hs : Leaves s r p) :
        (projectAtas env round atas acquired).Meets s
          (fun requests s' => requests = ataRequests env round atas ∧ Leaves s' r p)
          fun _ _ => False := by
      rw [projectAtas, meets_bind]
      refine (meets_mapM _ (fun _ _ => meets_withCompanion) hs).mono ?_ fun _ _ => id
      rintro _ s₁ ⟨rfl, hs₁⟩
      rw [meets_bind]
      refine (meets_mapM (I := (Leaves · r p))
        (fun resolved => ataRequest env resolved (eataRecordOf env round resolved))
        (fun resolved s h => ?_) hs₁).mono ?_ fun _ _ => id
      · rw [meets_bind]
        refine (meets_eataDelegation round resolved h).mono ?_ fun _ _ => id
        rintro _ s' ⟨rfl, hs'⟩
        exact ⟨rfl, hs'⟩
      · rintro _ s₂ ⟨rfl, hs₂⟩
        refine ⟨rfl, Leaves.release (a := []) (b := []) (by simpa using hs₂) fun k => ?_⟩
        cases acquired <;> simp [count_map_reason]
    rw [meets_bind, Exec.meets_handle]
    refine (meets_acquireSubs round.acquireProjection .ataProjection _).mono ?_ ?_
    · rintro _ _ ⟨-, rfl⟩
      exact hrest true (hs.append_even ⟨fun _ => held_acquired .., fun _ => held_acquired ..⟩)
    · rintro _ _ ⟨-, moves, heven, rfl⟩
      exact hrest false (hs.append_even heven)

end Magicblock.Chainlink
