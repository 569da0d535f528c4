import Magicblock.Chainlink.Accounts
import Magicblock.Foundations.Hoare
import Magicblock.Provider.Subscriptions

/-!
# Chainlink/Pipeline — fetching and cloning a batch of accounts

`clone_accounts` and the stages of `pipeline.rs` and `ata_projection.rs`: of a batch that was
fetched and sorted, delegation records and program data are fetched for those that need them, then
what the actions of delegated accounts need, and at the end all is cloned.  Every stage takes
references on subscriptions and gives some back.

A call is a function of the answers it gets, `Answers`.  Its state is the list of its moves: what it
did to the references and to the fetches in flight.
-/

namespace Magicblock.Chainlink

open Provider (SubscriptionReason)

/-- What a call does at the provider. -/
inductive Move
  /-- It begins the fetch of a pubkey that nobody fetches. -/
  | claimed (pubkey : Pubkey)
  /-- It waits for a fetch in flight. -/
  | joined (pubkey : Pubkey)
  /-- A fetch it began is over. -/
  | settled (pubkey : Pubkey)
  | acquired (reason : SubscriptionReason) (pubkey : Pubkey)
  | released (reason : SubscriptionReason) (pubkey : Pubkey)
  /-- It releases the reason whoever holds it. -/
  | releasedAll (reason : SubscriptionReason) (pubkey : Pubkey)
  deriving DecidableEq

abbrev Call := Exec (List Move) ChainlinkError

def perform (moves : List Move) : Call Unit := modify (· ++ moves)

/-! ### Fetches -/

/-- The answer to `try_get_multi`: which of the pubkeys were in flight, and whether the
subscriptions of the others could be set up, or which of them had been acquired until then. -/
structure Fetch where
  inFlight : List Pubkey
  setUp : Except (List Pubkey × String) Unit
  result : Except String (List RemoteAccount)

namespace Fetch

variable (f : Fetch)

/-- A pubkey that is named twice is claimed once. -/
def claims (pubkeys : List Pubkey) : List Pubkey := (pubkeys.filter (· ∉ f.inFlight)).dedup

def joins (pubkeys : List Pubkey) : List Pubkey := pubkeys.diff (f.claims pubkeys)

/-- `setup_subscriptions`: what was acquired is released if not all could be. -/
def setUpMoves (pubkeys : List Pubkey) : List Move :=
  match f.setUp with
  | .ok () => pubkeys.map (.acquired .directAccount)
  | .error (acquired, _) =>
    acquired.map (.acquired .directAccount) ++ acquired.map (.released .directAccount)

def moves (pubkeys : List Pubkey) : List Move :=
  (f.claims pubkeys).map .claimed ++ (f.joins pubkeys).map .joined ++
    f.setUpMoves (f.claims pubkeys) ++ (f.claims pubkeys).map .settled

def outcome : Except ChainlinkError (List RemoteAccount) :=
  match f.setUp with
  | .error (_, text) => .error (.remoteAccountProviderError text)
  | .ok () => f.result.mapError .remoteAccountProviderError

end Fetch

/-- A fetch, whose failure the caller looks at. -/
def tryGetMulti (f : Fetch) (pubkeys : List Pubkey) :
    Call (Except ChainlinkError (List RemoteAccount)) := do
  perform (f.moves pubkeys)
  return f.outcome

/-! ### Subscriptions -/

def releaseMoves (releases : List (SubscriptionReason × Pubkey)) : List Move :=
  releases.map fun release => .released release.1 release.2

/-- `release_subs`. -/
def releaseSubs (releases : List (SubscriptionReason × Pubkey)) : Call Unit :=
  perform (releaseMoves releases)

/-- Acquires one after the other, by the number of those before; on a failure gives back those it
has. -/
def acquireSubs (failure : ℕ → Option String) (reason : SubscriptionReason) :
    List Pubkey → List Pubkey → Call Unit
  | _, [] => pure ()
  | acquired, pubkey :: pubkeys =>
    match failure acquired.length with
    | some text => do
      releaseSubs (acquired.map (reason, ·))
      throw (.failedToSubscribeToAccount pubkey text)
    | none => do
      perform [.acquired reason pubkey]
      acquireSubs failure reason (acquired ++ [pubkey]) pubkeys

def direct (pubkeys : List Pubkey) : List (SubscriptionReason × Pubkey) :=
  pubkeys.map (.directAccount, ·)

def records (pubkeys : List Pubkey) : List (SubscriptionReason × Pubkey) :=
  pubkeys.map (.delegationRecord, ·)

def programDatas (pubkeys : List Pubkey) : List (SubscriptionReason × Pubkey) :=
  pubkeys.map (.programData, ·)

/-- The code, and what is released if it fails. -/
def orRelease {α : Type} (m : Call α) (releases : List (SubscriptionReason × Pubkey)) : Call α :=
  m.handle fun
    | .ok a => pure a
    | .error err => do
      releaseSubs releases
      throw err

/-! ### The answers -/

/-- **The answers in one round**: first for the requested accounts, then for what their actions
need. -/
structure Round where
  acquireRecord : ℕ → Option String
  /-- By the delegated account. -/
  withRecord : Pubkey → Fetch
  localMode : Pubkey → Option AccountMode
  acquireProgramData : ℕ → Option String
  programs : Fetch
  acquireProjection : ℕ → Option String
  /-- By the token account. -/
  withEata : Pubkey → Fetch
  acquireEataRecord : Pubkey → Option String
  eataRecord : Pubkey → Fetch
  containsAccount : Pubkey → Bool

/-- Everything is acquired, and fetches give what they give. -/
def Round.granting (fetch : Fetch) : Round where
  acquireRecord _ := none
  withRecord _ := fetch
  localMode _ := none
  acquireProgramData _ := none
  programs := fetch
  acquireProjection _ := none
  withEata _ := fetch
  acquireEataRecord _ := none
  eataRecord _ := fetch
  containsAccount _ := false

/-- **The answers to a call.** -/
structure Answers where
  first : Round
  /-- Whether the engine has an account. -/
  contains : Pubkey → Except String Bool
  dependencies : Fetch
  second : Round
  clone : Except ChainlinkError Unit

variable (env : CloneEnv)

/-- `task_to_fetch_with_companion`. -/
def withCompanion (f : Fetch) (pubkey companionPubkey : Pubkey) :
    Call (Except ChainlinkError AccountWithCompanion) := do
  let accs ← tryGetMulti f [pubkey, companionPubkey]
  return accs.bind fun
    | [account, companion] => resolveAccountWithCompanion pubkey companionPubkey account companion
    | accs => .error (.unexpectedAccountCount
        s!"Expected exactly 2 accounts for pubkey {env.pubkeyText pubkey} and companion {env.pubkeyText companionPubkey}, got {accs.length}")

/-! ### Delegated accounts -/

structure ResolvedDelegatedAccounts where
  accountsToClone : List AccountCloneRequest
  recordSubs : List Pubkey
  missingDelegationRecord : List (Pubkey × Slot)

def errors {α : Type} (results : List (Except ChainlinkError α)) : List ChainlinkError :=
  results.filterMap fun
    | .error err => some err
    | .ok _ => none

def successes {α : Type} (results : List (Except ChainlinkError α)) : List α :=
  results.filterMap Except.toOption

def joinTexts (errs : List ChainlinkError) : String :=
  ", ".intercalate (errs.map env.errorText)

/-- The request for an account, and whether its record is missing. -/
def requestOf (resolved : AccountWithCompanion) :
    Except ChainlinkError (AccountCloneRequest × Option (Pubkey × Slot)) :=
  let sourceSlots := some (CloneSourceSlots.single resolved.account.slot)
  match resolved.companionAccount with
  | some companion => do
    let (record, actions) ← parseDelegationRecord env companion.data resolved.companionPubkey
    let account := applyRecord env resolved.pubkey resolved.account record
    return (⟨resolved.pubkey, account,
      .ofActions (if account.mode = .delegated then actions else none),
      delegatedToOther env record, sourceSlots⟩, none)
  | none =>
    .ok (⟨resolved.pubkey, resolved.account, .none, none, sourceSlots⟩,
      if env.isInternalDlpAccountData resolved.account.data then none
      else some (resolved.pubkey, resolved.account.slot))

/-- A delegated account is not watched for itself any more. -/
def cleanupMoves (round : Round) (request : AccountCloneRequest) : List Move :=
  if request.account.mode = .delegated then
    (if (round.localMode request.pubkey).any (· ≠ .delegated) then
      [.releasedAll .undelegationTracking request.pubkey] else []) ++
      [.releasedAll .directAccount request.pubkey]
  else []

/-- `resolve_delegated_accounts`. -/
def resolveDelegatedAccounts (round : Round) (ownedByDeleg : List Pending)
    (plain : List AccountCloneRequest) : Call ResolvedDelegatedAccounts := do
  let owned := ownedByDeleg.map Prod.fst
  let recordSubs := owned.map env.delegationRecordPda
  acquireSubs round.acquireRecord .delegationRecord [] recordSubs
  let joined ← owned.mapM fun pubkey =>
    withCompanion env (round.withRecord pubkey) pubkey (env.delegationRecordPda pubkey)
  if errors joined ≠ [] then do
    releaseSubs (direct (owned ++ recordSubs) ++ records recordSubs)
    throw (.delegatedAccountResolutionsFailed (joinTexts env (errors joined)))
  else do
    let resolved ← (successes joined).mapM fun account =>
      match requestOf env account with
      | .error err => do
        releaseSubs (direct (owned ++ recordSubs) ++ records recordSubs)
        throw err
      | .ok resolved => do
        perform (cleanupMoves round resolved.1)
        return resolved
    releaseSubs (direct owned)
    return ⟨plain ++ resolved.map Prod.fst, recordSubs, resolved.filterMap Prod.snd⟩

/-! ### Programs -/

structure ResolvedPrograms where
  loadedPrograms : List LoadedProgram
  programDataSubs : List Pubkey

/-- Programs with their data in an account of their own. -/
def upgradeable (programs : List Pending) : List Pubkey :=
  (programs.filter fun program => program.2.1.owner = env.loaderV3).map Prod.fst

/-- The pubkeys of `program_data_subs`, a set. -/
def programDataSubsOf (programs : List Pending) : List Pubkey :=
  ((upgradeable env programs).map env.programDataAddress).dedup

/-- The programs and their data. -/
def programKeys (programs : List Pending) : List Pubkey :=
  (upgradeable env programs).flatMap fun program => [program, env.programDataAddress program]

/-- There may be nothing to fetch. -/
def fetchPrograms (round : Round) (pubkeysToFetch : List Pubkey) :
    Call (Except ChainlinkError (List RemoteAccount)) :=
  if pubkeysToFetch ≠ [] then tryGetMulti round.programs pubkeysToFetch else pure (.ok [])

/-- The programs and their data, two by two. -/
def pairUp : List Pubkey → List RemoteAccount → List (Except ChainlinkError AccountWithCompanion)
  | program :: programs, account :: data :: accounts =>
    resolveAccountWithCompanion program (env.programDataAddress program) account data ::
      pairUp programs accounts
  | _ :: programs, [_] =>
    .error (.programAccountResolutionsFailed
      "LoaderV3 fetch: expected 2 accounts (program + data) per pair, got 1") :: pairUp programs []
  | _, _ => []

/-- What the fetch of the programs with their data gives. -/
def fetchedPrograms (programs pubkeysToFetch : List Pubkey)
    (fetched : Except ChainlinkError (List RemoteAccount)) :
    List (Except ChainlinkError AccountWithCompanion) :=
  match fetched with
  | .error err => [.error err]
  | .ok accounts =>
    if accounts.length ≠ pubkeysToFetch.length then
      [.error (.programAccountResolutionsFailed
        s!"LoaderV3 fetch: expected {pubkeysToFetch.length} accounts, got {accounts.length}")]
    else pairUp env programs accounts

/-- `ProgramAccountResolver::try_new` and `into_loaded_program`. -/
def loadProgram (programId owner : Pubkey) (account data : Option AccountSharedData) :
    Except ChainlinkError LoadedProgram :=
  match env.decodeProgram owner account data with
  | .error text => .error (.remoteAccountProviderError text)
  | .ok image => .ok ⟨programId, image⟩

/-- One program with its data: an error is collected, and a failed decoding ends the call. -/
def loadUpgradeable (resolved : AccountWithCompanion) :
    Except ChainlinkError (Except ChainlinkError LoadedProgram) :=
  match resolved.companionAccount with
  | some data => (loadProgram env resolved.pubkey resolved.account.owner none (some data)).map .ok
  | none => .ok
      (.error (.failedToResolveProgramDataAccount resolved.companionPubkey resolved.pubkey))

/-- `resolve_programs_with_program_data`. -/
def resolveProgramsWithProgramData (round : Round) (programs : List Pending) :
    Call ResolvedPrograms := do
  let singleAccountPrograms := programs.filter fun program => program.2.1.owner ≠ env.loaderV3
  let pubkeysToFetch := programKeys env programs
  let programDataSubs := programDataSubsOf env programs
  acquireSubs round.acquireProgramData .programData [] programDataSubs
  let fetched ← fetchPrograms round pubkeysToFetch
  let resolved := fetchedPrograms env (upgradeable env programs) pubkeysToFetch fetched
  let loaded ← Exec.ofExcept ((successes resolved).mapM (loadUpgradeable env))
  let single ← Exec.ofExcept (singleAccountPrograms.mapM fun program =>
    loadProgram env program.1 program.2.1.owner (some program.2.1) none)
  if errors resolved ++ errors loaded ≠ [] then do
    releaseSubs (direct pubkeysToFetch ++ programDatas programDataSubs)
    throw (.programAccountResolutionsFailed (joinTexts env (errors resolved ++ errors loaded)))
  else return ⟨successes loaded ++ single, programDataSubs⟩

/-! ### Token accounts -/

/-- The record, if it was found and can be parsed. -/
def fetchedRecord (recordPubkey : Pubkey) (fetched : Except ChainlinkError (List RemoteAccount)) :
    Option (DelegationRecord × Option DelegationActions) :=
  match fetched with
  | .error _ => none
  | .ok accs =>
    match accs.getLast? with
    | some (.found record) => (parseDelegationRecord env record.account.data recordPubkey).toOption
    | _ => none

/-- `delegation::fetch_and_parse_delegation_record`. -/
def fetchAndParseDelegationRecord (round : Round) (accountPubkey : Pubkey) :
    Call (Option (DelegationRecord × Option DelegationActions)) := do
  let recordPubkey := env.delegationRecordPda accountPubkey
  let acquired := (round.acquireEataRecord accountPubkey).isNone
  perform (if acquired then [.acquired .delegationRecord recordPubkey] else [])
  let fetched ← tryGetMulti (round.eataRecord accountPubkey) [recordPubkey]
  releaseSubs ((if round.containsAccount recordPubkey then [] else direct [recordPubkey]) ++
    if acquired then records [recordPubkey] else [])
  return fetchedRecord env recordPubkey fetched

/-- The delegation of the eATA, if there is an eATA. -/
def eataDelegation (round : Round) (resolved : AccountWithCompanion) :
    Call (Option (DelegationRecord × Option DelegationActions)) :=
  if resolved.companionAccount.isSome then
    fetchAndParseDelegationRecord env round resolved.companionPubkey
  else pure none

/-- The request for a token account; it is projected if its eATA is delegated to this validator. -/
def ataRequest (resolved : AccountWithCompanion)
    (delegation : Option (DelegationRecord × Option DelegationActions)) : AccountCloneRequest :=
  match resolved.companionAccount, delegation with
  | some eata, some (record, actions) =>
    match projectDelegatedAta env resolved.account eata.data record with
    | some projected =>
      ⟨resolved.pubkey, projected, .ofActions actions, delegatedToOther env record,
        some (.projected resolved.account.slot eata.slot)⟩
    | none => ⟨resolved.pubkey, resolved.account, .none, delegatedToOther env record, none⟩
  | _, _ => ⟨resolved.pubkey, resolved.account, .none, none, none⟩

def eataOf (info : AtaInfo) : Option Pubkey :=
  (env.tryDeriveEataAddressAndBump info.owner info.mint).map Prod.fst

/-- The token accounts and their eATAs, a set. -/
def ataKeys (atas : List (Pubkey × AccountSharedData × AtaInfo × Slot)) : List Pubkey :=
  (atas.flatMap fun ata => ata.1 :: (eataOf env ata.2.2.1).toList).dedup

/-- The token accounts with their eATAs and the records of these; `acquired` says whether there are
references of the projection to give back. -/
def projectAtas (round : Round) (atas : List (Pubkey × AccountSharedData × AtaInfo × Slot))
    (acquired : Bool) : Call (List AccountCloneRequest) := do
  let joined ← atas.mapM fun ata =>
    withCompanion env (round.withEata ata.1) ata.1 ((eataOf env ata.2.2.1).getD 0)
  let requests ← (successes joined).mapM fun resolved => do
    let delegation ← eataDelegation env round resolved
    return ataRequest env resolved delegation
  releaseSubs (direct (ataKeys env atas) ++
    if acquired then (ataKeys env atas).map (.ataProjection, ·) else [])
  return requests

/-- `resolve_ata_with_eata_projection`. -/
def resolveAtaWithEataProjection (round : Round)
    (atas : List (Pubkey × AccountSharedData × AtaInfo × Slot)) :
    Call (List AccountCloneRequest) :=
  if atas = [] then return []
  else do
    let acquired ← (acquireSubs round.acquireProjection .ataProjection [] (ataKeys env atas)).handle
      fun result => pure result.toBool
    projectAtas env round atas acquired

/-! ### The call -/

/-- What a call has gathered. -/
structure Batch where
  allRequestedPubkeys : List Pubkey
  accountsToClone : List AccountCloneRequest
  loadedPrograms : List LoadedProgram
  recordSubs : List Pubkey
  /-- A set. -/
  programDataSubs : List Pubkey

/-- Whether the last request for a pubkey is for a delegated account. -/
def clonedDelegated (accountsToClone : List AccountCloneRequest) (pubkey : Pubkey) : Bool :=
  (accountsToClone.reverse.find? (·.pubkey = pubkey)).any fun request =>
    request.account.mode = .delegated

/-- `compute_subscription_releases`. -/
def computeSubscriptionReleases (batch : Batch) : List (SubscriptionReason × Pubkey) :=
  let cloned := batch.accountsToClone.map AccountCloneRequest.pubkey
  let loaded := batch.loadedPrograms.map LoadedProgram.programId
  let directReleases := (batch.allRequestedPubkeys.filter (fun pubkey =>
      pubkey ∉ cloned ∧ pubkey ∉ loaded) ++
    cloned.filter (clonedDelegated batch.accountsToClone) ++
    batch.recordSubs ++ batch.programDataSubs).dedup
  direct directReleases ++ records batch.recordSubs ++ programDatas batch.programDataSubs

/-- The dependencies of the actions, and whether one of them writes there. -/
def collectDelegationActionDependencies (accountsToClone : List AccountCloneRequest) :
    List (Pubkey × Bool) :=
  let dependencies := accountsToClone.flatMap fun request =>
    request.postDelegationMode.delegation.elim [] fun delegation =>
      delegation.dependencies request.pubkey
  (dependencies.map Prod.fst).dedup.map fun pubkey =>
    (pubkey, dependencies.any fun dependency => dependency.1 = pubkey && dependency.2)

/-- The dependencies that are only read, not in the batch and not in the engine. -/
def actionDependenciesToFetch (contains : Pubkey → Except String Bool) (batch : Batch) :
    Except ChainlinkError (List Pubkey) :=
  (collectDelegationActionDependencies batch.accountsToClone).foldlM (fun pending dependency =>
    if !dependency.2 && batch.accountsToClone.all (·.pubkey ≠ dependency.1) &&
        batch.loadedPrograms.all (·.programId ≠ dependency.1) then
      match contains dependency.1 with
      | .error text => .error (.keeper text)
      | .ok true => .ok pending
      | .ok false => .ok (pending ++ [dependency.1])
    else .ok pending) []

/-- The accounts that were asked for. -/
def resolveRequested (round : Round) (pubkeys : List Pubkey) (classified : ClassifiedAccounts) :
    Call (Batch × List (Pubkey × Slot)) := do
  let resolved ← orRelease
    (resolveDelegatedAccounts env round classified.ownedByDeleg classified.plain) (direct pubkeys)
  let programs ← orRelease (resolveProgramsWithProgramData env round classified.programs)
    (direct pubkeys ++ direct resolved.recordSubs ++ records resolved.recordSubs)
  let ataAccounts ← resolveAtaWithEataProjection env round classified.atas
  return (⟨pubkeys ++ resolved.recordSubs ++ programs.programDataSubs,
    resolved.accountsToClone ++ ataAccounts, programs.loadedPrograms, resolved.recordSubs,
    programs.programDataSubs⟩, resolved.missingDelegationRecord)

/-- The accounts that actions need, when they have been fetched. -/
def resolveDependencies (round : Round) (batch : Batch) (classified : ClassifiedAccounts) :
    Call Batch := do
  let resolved ← orRelease
    (resolveDelegatedAccounts env round classified.ownedByDeleg classified.plain)
    (computeSubscriptionReleases batch)
  if resolved.missingDelegationRecord ≠ [] then do
    releaseSubs (computeSubscriptionReleases
      { batch with recordSubs := batch.recordSubs ++ resolved.recordSubs })
    throw (.missingDelegationActionAccounts (resolved.missingDelegationRecord.map Prod.fst))
  else do
    let batch :=
      { batch with
        allRequestedPubkeys := batch.allRequestedPubkeys ++ resolved.recordSubs
        recordSubs := batch.recordSubs ++ resolved.recordSubs }
    let programs ← orRelease (resolveProgramsWithProgramData env round classified.programs)
      (computeSubscriptionReleases
        { batch with accountsToClone := batch.accountsToClone ++ resolved.accountsToClone })
    let ataAccounts ← resolveAtaWithEataProjection env round classified.atas
    return ⟨batch.allRequestedPubkeys ++ programs.programDataSubs,
      batch.accountsToClone ++ resolved.accountsToClone ++ ataAccounts,
      batch.loadedPrograms ++ programs.loadedPrograms, batch.recordSubs,
      batch.programDataSubs ∪ programs.programDataSubs⟩

/-- What the actions of the batch need is fetched, and added to it. -/
def addDependencies (answers : Answers) (batch : Batch) : Call Batch := do
  let toFetch ← Exec.ofExcept (actionDependenciesToFetch answers.contains batch)
  if toFetch = [] then return batch
  else do
    let fetched ← tryGetMulti answers.dependencies toFetch
    let accs ← Exec.ofExcept fetched
    resolveDependencies env answers.second
      { batch with allRequestedPubkeys := batch.allRequestedPubkeys ++ toFetch }
      (classifyRemoteAccounts env accs toFetch)

structure FetchAndCloneResult where
  notFoundOnChain : List (Pubkey × Slot)
  missingDelegationRecord : List (Pubkey × Slot)

/-- `clone_accounts`. -/
def cloneAccounts (answers : Answers) (pubkeys : List Pubkey) (classified : ClassifiedAccounts)
    (markEmptyIfNotFound : Option (List Pubkey)) : Call FetchAndCloneResult := do
  let notFound := classified.notFound.filter fun entry =>
    markEmptyIfNotFound.all (entry.1 ∉ ·)
  let (batch, missing) ← resolveRequested env answers.first pubkeys classified
  let batch ← addDependencies env answers batch
  Exec.ofExcept answers.clone
  releaseSubs (computeSubscriptionReleases batch)
  return ⟨notFound, missing⟩

end Magicblock.Chainlink
