import Magicblock.Foundations.History
import Magicblock.Foundations.Lists
import Magicblock.Provider.Types

/-!
# Provider/Fetching — accounts that are being fetched

`try_get_multi` registers one waiter for each pubkey it is asked for: it claims the pubkeys nobody
fetches, under a new generation, and joins the fetches of the others.  Its claims belong to a guard
while it subscribes, and then to detached fetch tasks.  A task, the guard and the listener of
subscription updates take an entry out of `fetching_accounts` and answer all its waiters.

A step is a section under the lock of `fetching_accounts`, or what a call or a task does between two
awaits.  A guard is disarmed and its tasks are spawned with no lock and no await in between, and
waiters are answered by who took their entry out.
-/

open scoped List

namespace Magicblock.Provider

open Function (update)

abbrev FetchingAccountGeneration := BitVec 64

abbrev FetchResult := Except RemoteAccountProviderError RemoteAccount

/-- A oneshot channel of a call, for the pubkey at a position of its request. -/
structure Waiter where
  call : ℕ
  index : ℕ
  deriving DecidableEq

structure FetchingAccountState where
  generation : FetchingAccountGeneration
  fetchStartSlot : Slot
  waiters : List Waiter

abbrev FetchingAccounts := Pubkey → Option FetchingAccountState

/-- A claimed pubkey, with its generation. -/
abbrev Claim := Pubkey × FetchingAccountGeneration

/-- What a waiter is sent, and for which pubkey. -/
structure Sent where
  waiter : Waiter
  pubkey : Pubkey
  result : FetchResult

/-! ### Calls and tasks -/

inductive CallPhase
  /-- Subscribing, with an armed `ClaimedSubscriptionSetupGuard`. -/
  | setup (claimed : List Claim)
  | awaiting
  | returned (result : Except RemoteAccountProviderError (List RemoteAccount))
  | cancelled

structure FetchCall where
  pubkeys : List Pubkey
  markEmptyIfNotFound : List Pubkey
  fetchStartSlot : Slot
  phase : CallPhase

inductive TaskPhase
  | looping
  /-- Waiting for the RPC node. -/
  | calling
  | failing (errorMsg : String)
  | notifying (rest : List (Claim × RemoteAccount))

structure FetchTask where
  claims : List Claim
  markEmptyIfNotFound : List Pubkey
  minContextSlot : Slot
  remainingRetries : ℕ
  phase : TaskPhase

/-- Errors of the RPC client, with their debug texts. -/
inductive RpcErrorKind
  | forUser (message : String)
  | rpcResponseError (code : ℤ) (debug : String)
  | custom (message debug : String)
  | other (debug : String)

inductive FetchAnswer
  | timeout
  | error (kind : RpcErrorKind)
  | response (slot : Slot) (value : List (Option Account))

/-- What the provider is given: how accounts are built, the id of the clock account, and texts. -/
structure ProviderEnv where
  builder : AccountBuilder
  clockId : Pubkey
  text : Pubkey → String
  debug : RemoteAccountProviderError → String

structure Fetching where
  accounts : FetchingAccounts
  nextGeneration : FetchingAccountGeneration
  chainSlot : Slot
  calls : ℕ → Option FetchCall
  tasks : Multiset FetchTask
  sent : List Sent
  forwarded : List ForwardedSubscriptionUpdate

/-! ### Entries -/

def removeFetchingAccountIfGenerationMatches (accounts : FetchingAccounts) (claim : Claim) :
    FetchingAccounts × Option FetchingAccountState :=
  match accounts claim.1 with
  | some state =>
    if state.generation = claim.2 then (update accounts claim.1 none, some state)
    else (accounts, none)
  | none => (accounts, none)

namespace Fetching

def new (chainSlot : Slot) : Fetching where
  accounts _ := none
  nextGeneration := 0
  chainSlot := chainSlot
  calls _ := none
  tasks := 0
  sent := []
  forwarded := []

/-- Takes the entry of a claim out and answers its waiters. -/
def resolve (s : Fetching) (claim : Claim) (result : FetchResult) : Fetching :=
  let (accounts, state) := removeFetchingAccountIfGenerationMatches s.accounts claim
  let waiters := state.elim [] (·.waiters)
  { s with accounts := accounts, sent := s.sent ++ waiters.map (⟨·, claim.1, result⟩) }

def resolveAll (s : Fetching) (claims : List Claim) (result : Claim → FetchResult) : Fetching :=
  claims.foldl (fun s claim => s.resolve claim (result claim)) s

/-! ### `try_get_multi` -/

/-- A waiter for a pubkey: it claims the pubkey or joins the fetch. -/
def register (call : ℕ) (fetchStartSlot : Slot) (s : Fetching × List Claim) (request : Pubkey × ℕ) :
    Fetching × List Claim :=
  let waiter : Waiter := ⟨call, request.2⟩
  match s.1.accounts request.1 with
  | some state =>
    ({ s.1 with
        accounts := update s.1.accounts request.1
          (some { state with waiters := state.waiters ++ [waiter] }) },
      s.2)
  | none =>
    let generation := s.1.nextGeneration + 1
    ({ s.1 with
        accounts := update s.1.accounts request.1 (some ⟨generation, fetchStartSlot, [waiter]⟩)
        nextGeneration := generation },
      s.2 ++ [(request.1, generation)])

def registerAll (s : Fetching) (call : ℕ) (fetchStartSlot : Slot) (pubkeys : List Pubkey) :
    Fetching × List Claim :=
  pubkeys.zipIdx.foldl (register call fetchStartSlot) (s, [])

/-- Where a call first waits; without pubkeys it returns at once. -/
def firstPhase (pubkeys : List Pubkey) (claimed : List Claim) : CallPhase :=
  if pubkeys.isEmpty then .returned (.ok [])
  else if claimed.isEmpty then .awaiting
  else .setup claimed

/-- **`try_get_multi`**, until it waits. -/
def tryGetMulti (s : Fetching) (call : ℕ) (pubkeys markEmptyIfNotFound : List Pubkey)
    (fetchStartSlot : Option Slot) : Fetching :=
  let fetchStartSlot := fetchStartSlot.getD s.chainSlot
  let (t, claimed) := s.registerAll call fetchStartSlot pubkeys
  { t with
    calls := update t.calls call
      (some ⟨pubkeys, markEmptyIfNotFound, fetchStartSlot, firstPhase pubkeys claimed⟩) }

def setPhase (s : Fetching) (id : ℕ) (call : FetchCall) (phase : CallPhase) : Fetching :=
  { s with calls := update s.calls id (some { call with phase := phase }) }

def maxMultipleAccountsPerRequest : ℕ := 100

def rpcFetchMaxRetries : ℕ := 15

def balancedChunks {α : Type*} (keys : List α) : List (List α) :=
  if keys.length ≤ maxMultipleAccountsPerRequest then [keys]
  else
    let numChunks := divCeil keys.length maxMultipleAccountsPerRequest
    keys.toChunks (divCeil keys.length numChunks)

/-- `fetch`: the task for a chunk. -/
def fetchTask (call : FetchCall) (claims : List Claim) : FetchTask where
  claims := claims
  markEmptyIfNotFound := call.markEmptyIfNotFound
  minContextSlot := call.fetchStartSlot
  remainingRetries := rpcFetchMaxRetries
  phase := .looping

/-- All subscriptions are set up: the guard is disarmed and the fetches start. -/
def subscribed (s : Fetching) (id : ℕ) (call : FetchCall) (claimed : List Claim) : Fetching :=
  { s.setPhase id call .awaiting with
    tasks := ((balancedChunks claimed).map (fetchTask call) : Multiset FetchTask) + s.tasks }

/-- The error of `setup_subscriptions`. -/
def setupError (errors : List String) : String :=
  let texts := ", ".intercalate errors
  s!"{errors.length} subscription(s) failed: [{texts}]"

/-- `cleanup_with_error`. -/
def cleanupWithError (s : Fetching) (claimed : List Claim) (waiterErrorText : String) : Fetching :=
  s.resolveAll claimed fun _ => .error (.accountSubscriptionsTaskFailed waiterErrorText)

def subscribeFailed (s : Fetching) (id : ℕ) (call : FetchCall) (claimed : List Claim)
    (errors : List String) : Fetching :=
  (s.cleanupWithError claimed
    s!"Failed to manage subscriptions ({setupError errors})").setPhase id call
    (.returned (.error (.accountSubscriptionsTaskFailed (setupError errors))))

/-- A call is dropped; an armed guard cleans up. -/
def cancel (s : Fetching) (id : ℕ) (call : FetchCall) : Fetching :=
  match call.phase with
  | .setup claimed =>
    (s.cleanupWithError claimed "account subscription setup cancelled").setPhase id call .cancelled
  | _ => s.setPhase id call .cancelled

/-- What a receiver gives; `none` if its sender was dropped. -/
def received (s : Fetching) (waiter : Waiter) : Option FetchResult :=
  (s.sent.find? (·.waiter = waiter)).map (·.result)

/-- The results of a call, in the order of its request. -/
def results (s : Fetching) (id : ℕ) (pubkeys : List Pubkey) : List (Pubkey × FetchResult) :=
  pubkeys.zipIdx.map fun (pubkey, index) =>
    (pubkey, (s.received ⟨id, index⟩).getD (.error .recvrError))

/-- What a call returns when all receivers have been awaited. -/
def collect (env : ProviderEnv) (pubkeys : List Pubkey) (results : List (Pubkey × FetchResult)) :
    Except RemoteAccountProviderError (List RemoteAccount) :=
  let resolved := results.filterMap fun (_, result) => result.toOption
  let errors := results.filterMap fun (pubkey, result) =>
    match result with
    | .ok _ => none
    | .error err => some s!"{env.text pubkey}: {env.debug err}"
  if errors.isEmpty then
    if resolved.length ≠ pubkeys.length then
      .error (.accountResolutionsFailed
        s!"Resolved {resolved.length} accounts for {pubkeys.length} requested accounts")
    else .ok resolved
  else .error (.accountResolutionsFailed (",\n".intercalate errors))

/-- No sender of the call is left. -/
def Settled (s : Fetching) (id : ℕ) : Prop :=
  ∀ pubkey state waiter, s.accounts pubkey = some state → waiter ∈ state.waiters → waiter.call ≠ id

/-! ### Subscription updates -/

/-- The account of an update; one that could not be decoded counts as not found. -/
def updatedAccount (env : ProviderEnv) (update : SubscriptionUpdate) : RemoteAccount :=
  match update.account with
  | some account => .fromFreshAccount env.builder account update.slot .subscription
  | none => .notFound update.slot

def forward (env : ProviderEnv) (s : Fetching) (update : SubscriptionUpdate) : Fetching :=
  { s with forwarded := s.forwarded ++ [⟨update.pubkey, updatedAccount env update, update.source⟩] }

/-- **`listen_for_account_updates`**, for one update. -/
def listen (env : ProviderEnv) (s : Fetching) (update : SubscriptionUpdate) : Fetching :=
  if update.pubkey = env.clockId then { s with chainSlot := max s.chainSlot update.slot }
  else
    match s.accounts update.pubkey with
    | some state =>
      -- a stale update is dropped
      if state.fetchStartSlot ≤ update.slot then
        (s.resolve (update.pubkey, state.generation)
          (.ok (updatedAccount env update))).forward env update
      else s
    | none => s.forward env update

end Fetching

/-! ### The fetch task -/

def jsonRpcServerErrorMinContextSlotNotReached : ℤ := -32016

def heliusContextSlotNotReached : ℤ := -32603

/-- Errors of a node that lags behind. -/
def RpcErrorKind.isLagging : RpcErrorKind → Bool
  | .forUser _ => true
  | .rpcResponseError code _ =>
    code = jsonRpcServerErrorMinContextSlotNotReached || code = heliusContextSlotNotReached
  | .custom message _ => decide ("minimum context slot".toList <:+: message.toList.map Char.toLower)
  | .other _ => false

def RpcErrorKind.debug : RpcErrorKind → String
  | .forUser message => message
  | .rpcResponseError _ debug => debug
  | .custom _ debug => debug
  | .other debug => debug

namespace FetchTask

variable (env : ProviderEnv)

def pubkeys (task : FetchTask) : List Pubkey := task.claims.map Prod.fst

/-- The claims a task has yet to answer. -/
def holds (task : FetchTask) : List Claim :=
  match task.phase with
  | .notifying rest => rest.map Prod.fst
  | _ => task.claims

/-- The claims whose entry is still there. -/
def retained (accounts : FetchingAccounts) (task : FetchTask) : List Claim :=
  task.claims.filter fun (pubkey, generation) =>
    (accounts pubkey).any fun state => state.generation = generation

/-- The head of the loop; a task without claims ends. -/
def loop (accounts : FetchingAccounts) (task : FetchTask) : Option FetchTask :=
  let claims := task.retained accounts
  if claims.isEmpty then none
  else if task.remainingRetries = 0 then
    some { task with
      claims := claims
      phase := .failing
        s!"Max retries {Fetching.rpcFetchMaxRetries} reached, giving up on fetching accounts: [{pubkeysStr env.text (claims.map Prod.fst)}]" }
  else some { task with claims := claims, phase := .calling }

def remoteAccount (task : FetchTask) (responseSlot : Slot) (pubkey : Pubkey) :
    Option Account → RemoteAccount
  | some value => .fromFreshAccount env.builder value responseSlot .fetch
  | none =>
    if pubkey ∈ task.markEmptyIfNotFound then .found ⟨env.builder.missing responseSlot, .fetch⟩
    else .notFound responseSlot

/-- One more retry is used up. -/
def retry (task : FetchTask) : FetchTask :=
  { task with remainingRetries := task.remainingRetries - 1, phase := .looping }

/-- The answer of the RPC node. -/
def answer (task : FetchTask) : FetchAnswer → FetchTask
  | .timeout => task.retry
  | .error kind =>
    if kind.isLagging then task.retry
    else { task with
      phase := .failing
        s!"RpcError fetching accounts {pubkeysStr env.text task.pubkeys}: {kind.debug}" }
  | .response slot value =>
    if slot < task.minContextSlot then task.retry
    else if value.length ≠ task.claims.length then { task with
      phase := .failing
        s!"RPC returned {value.length} account results for {task.claims.length} requested accounts: {pubkeysStr env.text task.pubkeys}" }
    else { task with
      phase := .notifying ((task.claims.zip value).map fun (claim, value) =>
        (claim, remoteAccount env task slot claim.1 value)) }

end FetchTask

namespace Fetching

/-- `notify_error`. -/
def notifyError (env : ProviderEnv) (s : Fetching) (claims : List Claim) (errorMsg : String) :
    Fetching :=
  s.resolveAll claims fun claim =>
    .error (.accountResolutionsFailed s!"{env.text claim.1}: {errorMsg}")

end Fetching

/-- A step of a task. -/
inductive TaskStep (env : ProviderEnv) (s : Fetching) (rest : Multiset FetchTask) :
    FetchTask → Fetching → Prop
  | loop (h : task.phase = .looping) :
      TaskStep env s rest task { s with tasks := (task.loop env s.accounts).toList + rest }
  | answer (h : task.phase = .calling) (answer : FetchAnswer) :
      TaskStep env s rest task { s with tasks := task.answer env answer ::ₘ rest }
  | fail (h : task.phase = .failing errorMsg) :
      TaskStep env s rest task { s.notifyError env task.claims errorMsg with tasks := rest }
  | notify (h : task.phase = .notifying ((claim, account) :: rest')) : TaskStep env s rest task
        { s.resolve claim (.ok account) with
          tasks := { task with phase := .notifying rest' } ::ₘ rest }
  | done (h : task.phase = .notifying []) : TaskStep env s rest task { s with tasks := rest }

inductive FetchEvent
  | call (id : ℕ) (pubkeys markEmptyIfNotFound : List Pubkey) (fetchStartSlot : Option Slot)
  | subscribed (id : ℕ)
  | subscribeFailed (id : ℕ) (errors : List String)
  | cancel (id : ℕ)
  | finish (id : ℕ)
  | task (task : FetchTask)
  | update (update : SubscriptionUpdate)
  | chainSlot (slot : Slot)

inductive FetchStep (env : ProviderEnv) (s : Fetching) : FetchEvent → Fetching → Prop
  | call {id : ℕ} {pubkeys markEmptyIfNotFound : List Pubkey} {fetchStartSlot : Option Slot}
      (hid : s.calls id = none) :
      FetchStep env s (.call id pubkeys markEmptyIfNotFound fetchStartSlot)
        (s.tryGetMulti id pubkeys markEmptyIfNotFound fetchStartSlot)
  | subscribed {id : ℕ} {call : FetchCall} {claimed : List Claim} (hcall : s.calls id = some call)
      (hph : call.phase = .setup claimed) :
      FetchStep env s (.subscribed id) (s.subscribed id call claimed)
  | subscribeFailed {id : ℕ} {call : FetchCall} {claimed : List Claim} {errors : List String}
      (hcall : s.calls id = some call) (hph : call.phase = .setup claimed) :
      FetchStep env s (.subscribeFailed id errors) (s.subscribeFailed id call claimed errors)
  | cancel {id : ℕ} {call : FetchCall} (hcall : s.calls id = some call)
      (hph : call.phase = .awaiting ∨ ∃ claimed, call.phase = .setup claimed) :
      FetchStep env s (.cancel id) (s.cancel id call)
  | finish {id : ℕ} {call : FetchCall} (hcall : s.calls id = some call)
      (hph : call.phase = .awaiting) (hsett : s.Settled id) :
      FetchStep env s (.finish id)
        (s.setPhase id call (.returned
          (Fetching.collect env call.pubkeys (s.results id call.pubkeys))))
  | task {task : FetchTask} {rest : Multiset FetchTask}
      (htask : s.tasks = task ::ₘ rest) (h : TaskStep env s rest task t) :
      FetchStep env s (.task task) t
  | update (update : SubscriptionUpdate) : FetchStep env s (.update update) (s.listen env update)
  | chainSlot (h : s.chainSlot ≤ slot) :
      FetchStep env s (.chainSlot slot) { s with chainSlot := slot }

/-- **The provider's fetches** — calls, tasks and updates in any order. -/
def fetchMachine (env : ProviderEnv) : Machine Fetching FetchEvent where
  start s := ∃ chainSlot, s = .new chainSlot
  step _ s e t := FetchStep env s e t

end Magicblock.Provider
