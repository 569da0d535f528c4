import Magicblock.Chainlink.Stages

/-!
# Chainlink/Companions — the references on companions are given back

A call takes references on delegation records and program data while it resolves accounts.  It gives
them back at its end, and on most of its errors.  Five errors return at once: a program that cannot
be decoded, in either round, a failed lookup of a dependency, a failed fetch of the dependencies,
and a failed clone.

`givenBack_iff` says that all references are given back if and only if none of these errors occurs
while there are companions, `Exposed`; which error occurs is read off the answers.
-/

namespace Magicblock.Chainlink

open Exec (meets_bind)

open Provider (SubscriptionReason)

/-- **Every reference on a companion that was acquired has been released.** -/
def GivenBack (moves : List Move) : Prop :=
  ∀ reason, reason = .delegationRecord ∨ reason = .programData → ∀ pubkey,
    moves.count (.acquired reason pubkey) ≤ moves.count (.released reason pubkey)

namespace ClassifiedAccounts

/-- Some of the accounts have companions. -/
def HasCompanions (env : CloneEnv) (classified : ClassifiedAccounts) : Prop :=
  classified.ownedByDeleg ≠ [] ∨ upgradeable env classified.programs ≠ []

/-- The batch of these accounts, with the requests for those that are delegated and the programs. -/
def batch (env : CloneEnv) (round : Round) (pubkeys : List Pubkey) (classified : ClassifiedAccounts)
    (requests : List (AccountCloneRequest × Option (Pubkey × Slot))) (loaded : List LoadedProgram) :
    Batch :=
  let recordSubs := recordSubsOf env classified.ownedByDeleg
  let programDataSubs := programDataSubsOf env classified.programs
  ⟨pubkeys ++ recordSubs ++ programDataSubs,
    classified.plain ++ requests.map Prod.fst ++ ataRequests env round classified.atas, loaded,
    recordSubs, programDataSubs⟩

end ClassifiedAccounts

/-- **What the actions of a batch need**, if it can be told and fetched. -/
def neededAccounts (env : CloneEnv) (answers : Answers) (batch : Batch) :
    Except ChainlinkError ClassifiedAccounts := do
  let toFetch ← actionDependenciesToFetch answers.contains batch
  if toFetch = [] then return {}
  else answers.dependencies.outcome.map (classifyRemoteAccounts env · toFetch)

/-- Requests for dependencies; none of their records is missing. -/
def completeRequests (env : CloneEnv) (round : Round) (ownedByDeleg : List Pending) :
    Option (List (AccountCloneRequest × Option (Pubkey × Slot))) :=
  (delegatedRequests env round ownedByDeleg).filter fun requests => requests.filterMap Prod.snd = []

/-- A round whose delegated accounts fail is not exposed; one whose programs fail is if one of them
could not be decoded. -/
def ExposedIn (env : CloneEnv) (round : Round) (programs : List Pending) (requests : Option α)
    (next : α → List LoadedProgram → Prop) : Prop :=
  match requests, programsLoaded env round programs with
  | none, _ => False
  | some _, none => DecodingFails env round programs
  | some requests, some loaded => next requests loaded

/-- **A step fails at which the call leaves without giving back, and it holds a reference**: a
program cannot be decoded in one of the rounds, or there are companions and the accounts that
actions need cannot be fetched or the batch cannot be cloned. -/
def Exposed (env : CloneEnv) (answers : Answers) (pubkeys : List Pubkey)
    (classified : ClassifiedAccounts) : Prop :=
  ExposedIn env answers.first classified.programs
    (delegatedRequests env answers.first classified.ownedByDeleg) fun requests loaded =>
      match neededAccounts env answers
        (classified.batch env answers.first pubkeys requests loaded) with
      | .error _ => classified.HasCompanions env
      | .ok needed => ExposedIn env answers.second needed.programs
          (completeRequests env answers.second needed.ownedByDeleg) fun _ _ =>
            answers.clone ≠ .ok () ∧ (classified.HasCompanions env ∨ needed.HasCompanions env)

/-! ### What is left -/

variable {env : CloneEnv} {s : List Move} {p r : List Pubkey} {round : Round} {batch : Batch}

theorem Leaves.all_back_iff (h : Leaves s r p) : GivenBack s ↔ r = [] ∧ p = [] := by
  have hle (reason : SubscriptionReason) (pk : Pubkey) :
      s.count (.acquired reason pk) ≤ s.count (.released reason pk) ↔ held reason pk s ≤ 0 := by
    rw [held]
    omega
  have hnil (l : List Pubkey) : (∀ pk, (l.count pk : ℤ) ≤ 0) ↔ l = [] := by
    rw [List.eq_nil_iff_forall_not_mem]
    refine forall_congr' fun pk => ?_
    rw [← List.count_eq_zero]
    omega
  simp only [GivenBack, hle, forall_eq_or_imp, forall_eq, h.records, h.programData, hnil]

theorem Leaves.givenBack (h : Even s) : GivenBack s := h.all_back_iff.mpr ⟨rfl, rfl⟩

/-- What is released is not left. -/
theorem Leaves.releaseAll (h : Leaves s r (p ++ p')) (hcovs : Covers releases r p) :
    Leaves (s ++ releaseMoves releases) [] p' := by
  refine Leaves.release (a := r) (b := p) ⟨h.records, fun k => ?_⟩ hcovs
  rw [h.programData, List.count_append, List.count_append, add_comm]

/-- **Companions are left.** -/
theorem Leaves.hasCompanions {classified : ClassifiedAccounts}
    (h : Leaves s (recordSubsOf env classified.ownedByDeleg)
      (programDataSubsOf env classified.programs)) :
    GivenBack s ↔ ¬ classified.HasCompanions env := by
  rw [h.all_back_iff, programDataSubsOf_eq_nil]
  simp [ClassifiedAccounts.HasCompanions]

/-- Both batches are left. -/
theorem Leaves.hasCompanions_or {classified needed : ClassifiedAccounts}
    (h : Leaves s
      (recordSubsOf env classified.ownedByDeleg ++ recordSubsOf env needed.ownedByDeleg)
      (programDataSubsOf env classified.programs ++ programDataSubsOf env needed.programs)) :
    GivenBack s ↔ ¬ (classified.HasCompanions env ∨ needed.HasCompanions env) := by
  rw [h.all_back_iff, List.append_eq_nil_iff, List.append_eq_nil_iff, programDataSubsOf_eq_nil,
    programDataSubsOf_eq_nil]
  simp [ClassifiedAccounts.HasCompanions]
  tauto

/-- If the programs fail after the releases of all else, what is left are those of them that cannot
be decoded. -/
theorem givenBack_iff_decodingFails
    (h : ¬ DecodingFails env round programs ∧ Leaves s r p ∨ DecodingFails env round programs ∧
      Leaves s r (p ++ programDataSubsOf env programs)) (hcovs : Covers releases r p) :
    GivenBack (s ++ releaseMoves releases) ↔ ¬ DecodingFails env round programs := by
  rcases h with ⟨hno, hleaves⟩ | ⟨hfails, hleaves⟩
  · rw [← List.append_nil p] at hleaves
    exact iff_of_true (hleaves.releaseAll hcovs).givenBack hno
  · refine iff_of_false (fun hback => ?_) (not_not.mpr hfails)
    exact hfails.2.2 (programDataSubsOf_eq_nil.mp
      ((hleaves.releaseAll hcovs).all_back_iff.mp hback).2)

theorem covers_computeSubscriptionReleases (batch : Batch) :
    Covers (computeSubscriptionReleases batch) batch.recordSubs batch.programDataSubs :=
  fun pk => by simp [computeSubscriptionReleases]

/-! ### The rounds -/

theorem exposedIn_failed (h : programsLoaded env round programs = none) :
    ExposedIn env round programs (some requests) next ↔ DecodingFails env round programs := by
  simp only [ExposedIn, h]

theorem exposedIn_loaded (h : programsLoaded env round programs = some loaded) :
    ExposedIn env round programs (some requests) next ↔ next requests loaded := by
  simp only [ExposedIn, h]

/-- **The requested accounts**: the batch of them, or all is given back unless the round is exposed.
-/
theorem meets_resolveRequested (hs : Even s) (pks : List Pubkey) (classified : ClassifiedAccounts) :
    (resolveRequested env round pks classified).Meets s
      (fun result s' => ∃ requests loaded,
        delegatedRequests env round classified.ownedByDeleg = some requests ∧
        programsLoaded env round classified.programs = some loaded ∧
        result.1 = classified.batch env round pks requests loaded ∧
        Leaves s' (recordSubsOf env classified.ownedByDeleg)
          (programDataSubsOf env classified.programs))
      fun _ s' => ∀ next, GivenBack s' ↔ ¬ ExposedIn env round classified.programs
        (delegatedRequests env round classified.ownedByDeleg) next := by
  rw [resolveRequested, meets_bind, meets_orRelease]
  refine (meets_resolveDelegatedAccounts round classified.ownedByDeleg classified.plain hs).mono
    ?_ ?_
  · rintro _ s₁ ⟨⟨requests, hreqs, rfl⟩, hs₁⟩
    rw [meets_bind, meets_orRelease]
    refine (meets_resolveProgramsWithProgramData round classified.programs hs₁).mono ?_ ?_
    · rintro programs s₂ ⟨hload, hsubs, hs₂⟩
      rw [meets_bind]
      refine (meets_resolveAtaWithEataProjection round classified.atas hs₂).mono ?_
        fun _ _ => False.elim
      rintro _ s₃ ⟨rfl, hs₃⟩
      refine ⟨requests, _, hreqs, hload, ?_, hs₃⟩
      simp [ClassifiedAccounts.batch, hsubs]
    · rintro _ s₂ ⟨hload, hs₂⟩ next
      rw [hreqs, exposedIn_failed hload]
      exact givenBack_iff_decodingFails hs₂ fun k => by simp
  · rintro err s₁ ⟨hreqs, hs₁⟩ next
    rw [hreqs]
    exact iff_of_true (hs₁.release_direct _).givenBack id

theorem not_loaded_of_toFetch (h : actionDependenciesToFetch contains batch = .ok toFetch) :
    ∀ pk ∈ toFetch, pk ∉ batch.loadedPrograms.map LoadedProgram.programId := by
  refine Except.foldlM_invariant (fun pending => ∀ pk ∈ pending,
    pk ∉ batch.loadedPrograms.map LoadedProgram.programId) h nofun ?_
  rintro dependency - pending pending' hpend hstep
  split_ifs at hstep with hneed
  · cases hcont : contains dependency.1 with
    | error text =>
      rw [hcont] at hstep
      cases hstep
    | ok present =>
      rw [hcont] at hstep
      cases present with
      | true => exact Except.ok.inj hstep ▸ hpend
      | false =>
        rw [← Except.ok.inj hstep, List.forall_mem_append]
        refine ⟨hpend, ?_⟩
        simp only [Bool.and_eq_true, List.all_eq_true, decide_eq_true_eq] at hneed
        simpa using hneed.2
  · exact Except.ok.inj hstep ▸ hpend

theorem mem_of_classified_program :
    ∀ program ∈ (classifyRemoteAccounts env accs pks).programs, program.1 ∈ pks := by
  refine List.foldlRecOn (motive := fun classified : ClassifiedAccounts =>
    ∀ program ∈ classified.programs, program.1 ∈ pks) _ _ nofun ?_
  rintro classified ih ⟨acc, pk⟩ hacc
  have hpk : pk ∈ pks := (List.of_mem_zip hacc).2
  dsimp only [ClassifiedAccounts.classify]
  cases acc with
  | notFound slot => exact ih
  | found remote =>
    dsimp only
    split_ifs
    · exact ih
    · dsimp only [classifyProgram]
      split_ifs
      · exact ih
      · exact List.forall_mem_append.mpr ⟨ih, by simpa using hpk⟩
    · cases env.isAta pk remote.account.owner remote.account.data <;> exact ih

/-- The program data of programs that are loaded is not fetched again as a dependency. -/
theorem disjoint_programDataSubsOf {loaded toFetch : List Pubkey}
    (hload : ∀ program ∈ upgradeable env programs, program ∈ loaded)
    (htoFetch : ∀ pk ∈ toFetch, pk ∉ loaded) :
    (programDataSubsOf env programs).Disjoint
      (programDataSubsOf env (classifyRemoteAccounts env accs toFetch).programs) := by
  intro pk hfst hsnd
  rw [programDataSubsOf, List.mem_dedup, List.mem_map] at hfst hsnd
  obtain ⟨program, hprog, rfl⟩ := hfst
  obtain ⟨program', hprog', heq⟩ := hsnd
  obtain rfl := env.programDataAddress_injective heq
  obtain ⟨pending, hpend, rfl⟩ := List.mem_map.mp hprog'
  have hfet := mem_of_classified_program pending (List.mem_of_mem_filter hpend)
  exact htoFetch _ hfet (hload _ hprog)

/-- **The dependencies**, in the same way.  Their programs are not among those of the batch. -/
theorem meets_resolveDependencies (batch : Batch) (classified : ClassifiedAccounts)
    (hs : Leaves s batch.recordSubs batch.programDataSubs)
    (hnd : batch.programDataSubs.Nodup)
    (hdisj : batch.programDataSubs.Disjoint (programDataSubsOf env classified.programs)) :
    (resolveDependencies env round batch classified).Meets s
      (fun batch' s' => Leaves s' batch'.recordSubs batch'.programDataSubs ∧
        batch'.recordSubs = batch.recordSubs ++ recordSubsOf env classified.ownedByDeleg ∧
        batch'.programDataSubs =
          batch.programDataSubs ++ programDataSubsOf env classified.programs ∧
        ∀ next, ExposedIn env round classified.programs
          (completeRequests env round classified.ownedByDeleg) (fun _ _ => next) ↔ next)
      fun _ s' => ∀ next, GivenBack s' ↔ ¬ ExposedIn env round classified.programs
        (completeRequests env round classified.ownedByDeleg) next := by
  rw [resolveDependencies, meets_bind, meets_orRelease, completeRequests]
  refine (meets_resolveDelegatedAccounts round classified.ownedByDeleg classified.plain hs).mono
    ?_ ?_
  · rintro _ s₁ ⟨⟨requests, hreqs, rfl⟩, hs₁⟩
    rw [hreqs, Exec.meets_ite]
    refine ⟨fun hmiss => ?_, fun hmiss => ?_⟩
    · rw [meets_bind, meets_releaseSubs, Exec.meets_throw, Option.filter_some,
        if_neg (by simpa using hmiss)]
      rw [← List.append_nil batch.programDataSubs] at hs₁
      exact fun next => iff_of_true (hs₁.releaseAll
        (covers_computeSubscriptionReleases _)).givenBack id
    · rw [meets_bind, meets_orRelease, Option.filter_some, if_pos (by simpa using hmiss)]
      refine (meets_resolveProgramsWithProgramData round classified.programs hs₁).mono ?_ ?_
      · rintro programs s₂ ⟨hload, hsubs, hs₂⟩
        rw [meets_bind]
        refine (meets_resolveAtaWithEataProjection round classified.atas hs₂).mono ?_
          fun _ _ => False.elim
        rintro _ s₃ ⟨rfl, hs₃⟩
        have hunion : batch.programDataSubs ∪ programs.programDataSubs =
            batch.programDataSubs ++ programDataSubsOf env classified.programs := by
          rw [hsubs, hdisj.union_eq, hnd.dedup]
        exact ⟨hunion ▸ hs₃, rfl, hunion, fun next => exposedIn_loaded hload⟩
      · rintro _ s₂ ⟨hload, hs₂⟩ next
        rw [exposedIn_failed hload]
        exact givenBack_iff_decodingFails hs₂ (covers_computeSubscriptionReleases _)
  · rintro err s₁ ⟨hreqs, hs₁⟩ next
    rw [hreqs]
    rw [← List.append_nil batch.programDataSubs] at hs₁
    exact iff_of_true (hs₁.releaseAll (covers_computeSubscriptionReleases batch)).givenBack id

/-- Nothing is needed. -/
theorem exposedIn_nil (env : CloneEnv) (round : Round) (next : Prop) :
    ExposedIn env round [] (completeRequests env round []) (fun _ _ => next) ↔ next := by
  have hreqs : completeRequests env round [] = some [] := by
    simp [completeRequests, delegatedRequests, Granted]
  have hload : programsLoaded env round [] = some [] := by
    have hgran : Granted round.acquireProgramData (programDataSubsOf env []).length :=
      fun i hi => absurd hi (Nat.not_lt_zero i)
    rw [programsLoaded, if_pos hgran]
    rfl
  rw [hreqs, exposedIn_loaded hload]

/-- **What the actions need is added**: the batch holds what is left, or the call is exposed, or
nothing is left. -/
theorem meets_addDependencies {answers : Answers} {classified : ClassifiedAccounts}
    (hs : Leaves s (recordSubsOf env classified.ownedByDeleg)
      (programDataSubsOf env classified.programs))
    (hload : programsLoaded env round classified.programs = some loaded)
    (hbatch : batch = classified.batch env round pks requests loaded) :
    (addDependencies env answers batch).Meets s
      (fun batch' s' => ∃ needed, neededAccounts env answers batch = .ok needed ∧
        Leaves s' batch'.recordSubs batch'.programDataSubs ∧
        batch'.recordSubs = recordSubsOf env classified.ownedByDeleg ++
          recordSubsOf env needed.ownedByDeleg ∧
        batch'.programDataSubs = programDataSubsOf env classified.programs ++
          programDataSubsOf env needed.programs ∧
        ∀ next, ExposedIn env answers.second needed.programs
          (completeRequests env answers.second needed.ownedByDeleg) (fun _ _ => next) ↔ next)
      fun _ s' => ∀ next : ClassifiedAccounts → _, GivenBack s' ↔
        ¬ match neededAccounts env answers batch with
        | .error _ => classified.HasCompanions env
        | .ok needed => ExposedIn env answers.second needed.programs
          (completeRequests env answers.second needed.ownedByDeleg) (next needed) := by
  subst hbatch
  rw [addDependencies, meets_bind, Exec.meets_ofExcept]
  refine ⟨fun toFetch htoFetch => ?_, fun err hlook next => ?_⟩
  · have hneed : neededAccounts env answers (classified.batch env round pks requests loaded) =
        if toFetch = [] then .ok {} else
        answers.dependencies.outcome.map (classifyRemoteAccounts env · toFetch) := by
      rw [neededAccounts, htoFetch]
      rfl
    rw [Exec.meets_ite]
    refine ⟨fun hnone => ?_, fun hsome => ?_⟩
    · exact ⟨{}, hneed.trans (if_pos hnone), hs, (List.append_nil _).symm,
        (List.append_nil _).symm, exposedIn_nil env answers.second⟩
    · rw [if_neg hsome] at hneed
      rw [meets_bind, meets_tryGetMulti, meets_bind, Exec.meets_ofExcept]
      have hfet := hs.append_even (even_fetch answers.dependencies toFetch)
      refine ⟨fun accs haccs => ?_, fun err hfetch next => ?_⟩
      · rw [haccs] at hneed
        refine (meets_resolveDependencies _ _ hfet (List.nodup_dedup _) (disjoint_programDataSubsOf
          (upgradeable_loaded hload) (not_loaded_of_toFetch htoFetch))).mono ?_ ?_
        · rintro batch' s' ⟨hs', hrecs, hsubs, hresol⟩
          exact ⟨_, hneed, hs', hrecs, hsubs, hresol⟩
        · intro err s' hback next
          rw [hneed]
          exact hback _
      · rw [hneed, hfetch]
        exact hfet.hasCompanions
  · rw [neededAccounts, hlook]
    exact hs.hasCompanions

/-! ### Whole calls -/

/-- **A call gives back what it took exactly if it is not exposed.** -/
theorem givenBack_iff (env : CloneEnv) (answers : Answers) (pks : List Pubkey)
    (classified : ClassifiedAccounts) (markEmptyIfNotFound : Option (List Pubkey)) :
    GivenBack ((cloneAccounts env answers pks classified markEmptyIfNotFound).outcome []).2 ↔
      ¬ Exposed env answers pks classified := by
  refine Exec.Meets.final (P := fun s => GivenBack s ↔ ¬ Exposed env answers pks classified) ?_
  rw [cloneAccounts, meets_bind]
  refine (meets_resolveRequested even_nil pks classified).mono ?_ fun _ _ h => h _
  rintro ⟨batch, missing⟩ s ⟨requests, loaded, hreqs, hload, hbatch, hs⟩
  obtain rfl : batch = _ := hbatch
  rw [Exposed, hreqs, exposedIn_loaded hload, meets_bind]
  refine (meets_addDependencies hs hload rfl).mono ?_ fun _ _ h => h _
  rintro batch' s' ⟨needed, hneed, hs', hrecs, hsubs, hresol⟩
  simp only [hneed, hresol, meets_bind, Exec.meets_ofExcept]
  refine ⟨fun _ hclone => ?_, fun err hclone => ?_⟩
  · rw [meets_releaseSubs, Exec.meets_pure, hclone]
    rw [← List.append_nil batch'.programDataSubs] at hs'
    exact iff_of_true (hs'.releaseAll (covers_computeSubscriptionReleases batch')).givenBack
      fun h => h.1 rfl
  · rw [hrecs, hsubs] at hs'
    rw [hclone, hs'.hasCompanions_or]
    simp

/-- A clone fails after the record of a delegated account was subscribed to. -/
def cloneRefused : Answers :=
  let fetch : Fetch := ⟨[], .ok (), .ok [.found ⟨⟨1, [], 11, false, 0, .mirrored, 5, 0⟩, .fetch⟩,
    .notFound 5]⟩
  ⟨.granting fetch, fun _ => .ok true, fetch, .granting fetch, .error (.clonerError "refused")⟩

/-- **The record stays subscribed to.** -/
theorem cloneRefused_not_givenBack : ¬ GivenBack ((cloneAccounts .small cloneRefused [1]
    { ownedByDeleg := [(1, ⟨1, [], 11, false, 0, .mirrored, 5, 0⟩, 5)] } none).outcome []).2 :=
  fun h => absurd (h .delegationRecord (.inl rfl) 101) (by decide +kernel)

end Magicblock.Chainlink
