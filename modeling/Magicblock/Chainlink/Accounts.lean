import Magicblock.Intent.Limits
import Magicblock.Program.Schedule
import Magicblock.Provider.Types

/-!
# Chainlink/Accounts — the images that are cloned from the base layer

What the fetch cloner makes of fetched accounts: it sorts them by what else they need, joins them
with their companions, and gives them the owner and the mode that their delegation record says.
Encodings and address derivations are arguments, in `CloneEnv`.
-/

namespace Magicblock.Chainlink

/-- Of the record of the delegation program, what the cloner reads. -/
structure DelegationRecord where
  authority : Pubkey
  owner : Pubkey
  delegationSlot : Slot
  deriving DecidableEq

/-- Instructions that run after the account is cloned; there is at least one. -/
structure DelegationActions where
  sourceProgram : Pubkey
  actions : List Instruction
  nonempty : actions ≠ []
  deriving DecidableEq

def DelegationActions.new (sourceProgram : Pubkey) (actions : List Instruction) :
    Option DelegationActions :=
  if h : actions = [] then none else some ⟨sourceProgram, actions, h⟩

/-- The programs and accounts other than the target, and whether they are written. -/
def DelegationActions.dependencies (delegation : DelegationActions) (target : Pubkey) :
    List (Pubkey × Bool) :=
  (delegation.actions.flatMap fun ix =>
    (ix.programId, false) :: ix.accounts.map
      fun account => (account.pubkey, account.isWritable)).filter
      fun dependency => dependency.1 ≠ target

inductive ClonePostDelegationMode
  | none
  | executeActions (actions : DelegationActions)
  | rescueUndelegate (sourceProgram : Pubkey)
  deriving DecidableEq

def ClonePostDelegationMode.delegation : ClonePostDelegationMode → Option DelegationActions
  | executeActions actions => some actions
  | none | rescueUndelegate _ => Option.none

def ClonePostDelegationMode.ofActions : Option DelegationActions → ClonePostDelegationMode
  | some actions => executeActions actions
  | Option.none => none

structure CloneSourceSlots where
  data : Slot
  view : Slot
  deriving DecidableEq

def CloneSourceSlots.single (slot : Slot) : CloneSourceSlots := ⟨slot, slot⟩

def CloneSourceSlots.projected (ata eata : Slot) : CloneSourceSlots := ⟨ata, max ata eata⟩

structure AccountCloneRequest where
  pubkey : Pubkey
  account : AccountSharedData
  postDelegationMode : ClonePostDelegationMode
  delegatedToOther : Option Pubkey
  sourceSlots : Option CloneSourceSlots
  deriving DecidableEq

/-- What `into_loaded_program` keeps beside the address. -/
structure ProgramImage where
  authority : Pubkey
  programData : List UInt8
  remoteSlot : Slot
  deriving DecidableEq

structure LoadedProgram where
  programId : Pubkey
  image : ProgramImage
  deriving DecidableEq

structure AtaInfo where
  mint : Pubkey
  owner : Pubkey
  deriving DecidableEq

/-- Errors of other components are represented by their texts. -/
inductive ChainlinkError
  | remoteAccountProviderError (text : String)
  | joinError (text : String)
  | keeper (text : String)
  | clonerError (text : String)
  | invalidDelegationRecord (pubkey : Pubkey) (text : String)
  | invalidDelegationActions (pubkey : Pubkey) (text : String)
  | delegatedAccountResolutionsFailed (text : String)
  | resolvedAccountCouldNoLongerBeFound (pubkey : Pubkey)
  | failedToSubscribeToAccount (pubkey : Pubkey) (text : String)
  | failedToResolveProgramDataAccount (programData program : Pubkey)
  | programAccountResolutionsFailed (text : String)
  | unexpectedAccountCount (text : String)
  | missingDelegationActionAccounts (pubkeys : List Pubkey)
  deriving DecidableEq

/-- **What the cloner takes from elsewhere.**  Different programs have different program data
addresses. -/
structure CloneEnv where
  validator : Pubkey
  delegationProgram : Pubkey
  nativeLoader : Pubkey
  loaderV3 : Pubkey
  eataProgram : Pubkey
  delegationRecordPda : Pubkey → Pubkey
  programDataAddress : Pubkey → Pubkey
  programDataAddress_injective : Function.Injective programDataAddress
  tryDeriveEataAddressAndBump : Pubkey → Pubkey → Option (Pubkey × UInt8)
  isAta : Pubkey → Pubkey → List UInt8 → Option AtaInfo
  decodeEata : List UInt8 → Option EphemeralAta
  projectIntoAta : EphemeralAta → AccountSharedData → Option AccountSharedData
  recordSize : ℕ
  decodeRecord : List UInt8 → Except String DelegationRecord
  /-- Deserialization and decryption. -/
  decodeActions : List UInt8 → Except String (List Instruction)
  isInternalDlpAccountData : List UInt8 → Bool
  /-- `ProgramAccountResolver::try_new`, by the loader, the program account and the program data. -/
  decodeProgram : Pubkey → Option AccountSharedData → Option AccountSharedData →
    Except String ProgramImage
  pubkeyText : Pubkey → String
  errorText : ChainlinkError → String

/-- A small environment for runs: a record is one byte, the slot of a delegation to this validator.
-/
def CloneEnv.small : CloneEnv where
  validator := 10
  delegationProgram := 11
  nativeLoader := 12
  loaderV3 := 13
  eataProgram := 14
  delegationRecordPda pubkey := pubkey + 100
  programDataAddress pubkey := ~~~pubkey
  programDataAddress_injective _ _ := BitVec.not_inj.mp
  tryDeriveEataAddressAndBump _ _ := none
  isAta _ _ _ := none
  decodeEata _ := none
  projectIntoAta _ _ := none
  recordSize := 1
  decodeRecord data := .ok ⟨10, 20, (data.headD 0).toNat⟩
  decodeActions _ := .ok []
  isInternalDlpAccountData _ := false
  decodeProgram _ _ _ := .error "InvalidAccountData"
  pubkeyText _ := ""
  errorText _ := ""

variable (env : CloneEnv)

/-! ### Delegation records -/

def parseDelegationRecord (data : List UInt8) (recordPubkey : Pubkey) :
    Except ChainlinkError (DelegationRecord × Option DelegationActions) :=
  if data.length < env.recordSize then
    .error (.invalidDelegationRecord recordPubkey "InvalidAccountData")
  else
    match env.decodeRecord (data.take env.recordSize) with
    | .error text => .error (.invalidDelegationRecord recordPubkey text)
    | .ok record =>
      if data.length ≤ env.recordSize ∨ record.authority ≠ env.validator then .ok (record, none)
      else
        match env.decodeActions (data.drop env.recordSize) with
        | .error text => .error (.invalidDelegationActions recordPubkey text)
        | .ok actions => .ok (record, DelegationActions.new record.owner actions)

def parseRawEataPda (accountPubkey : Pubkey) (data : List UInt8) (ownerProgram : Pubkey) :
    Option (Pubkey × Pubkey) :=
  if ownerProgram ≠ env.eataProgram then none
  else do
    let eata ← env.decodeEata data
    let (derived, bump) ← env.tryDeriveEataAddressAndBump eata.owner eata.mint
    if derived = accountPubkey ∧ bump = eata.bump then some (eata.owner, eata.mint) else none

/-- The other validator; there is none for delegations to this one and for confined ones. -/
def delegatedToOther (record : DelegationRecord) : Option Pubkey :=
  if record.authority = env.validator ∨ record.authority = 0 then none else some record.authority

/-- The owner and the mode that the record says.  A delegated image is stamped with the slot of its
delegation. -/
def applyRecord (accountPubkey : Pubkey) (account : AccountSharedData) (record : DelegationRecord) :
    AccountSharedData :=
  let isConfined : Bool := record.authority = 0
  let isRawEata := (parseRawEataPda env accountPubkey account.data record.owner).isSome
  let mode :=
    if isConfined then AccountMode.magic
    else if (delegatedToOther env record).isNone && !isRawEata then .delegated
    else .mirrored
  let account := { account with owner := record.owner, mode := mode }
  if isConfined then { account with lamports := 0 }
  else if mode = .delegated then { account with slot := record.delegationSlot }
  else account

/-! ### Fetched accounts -/

structure AccountWithCompanion where
  pubkey : Pubkey
  account : AccountSharedData
  companionPubkey : Pubkey
  companionAccount : Option AccountSharedData
  deriving DecidableEq

def resolveAccountWithCompanion (pubkey companionPubkey : Pubkey) :
    RemoteAccount → RemoteAccount → Except ChainlinkError AccountWithCompanion
  | .notFound _, _ => .error (.resolvedAccountCouldNoLongerBeFound pubkey)
  | .found account, .notFound _ => .ok ⟨pubkey, account.account, companionPubkey, none⟩
  | .found account, .found companion =>
    .ok ⟨pubkey, account.account, companionPubkey, some companion.account⟩

/-- An account with its slot, as it waits for its companion. -/
abbrev Pending := Pubkey × AccountSharedData × Slot

structure ClassifiedAccounts where
  notFound : List (Pubkey × Slot) := []
  plain : List AccountCloneRequest := []
  ownedByDeleg : List Pending := []
  programs : List Pending := []
  atas : List (Pubkey × AccountSharedData × AtaInfo × Slot) := []

/-- Programs of the native loader are supplied by the runtime. -/
def classifyProgram (pending : Pending) (programs : List Pending) : List Pending :=
  if pending.2.1.owner = env.nativeLoader then programs else programs ++ [pending]

def ClassifiedAccounts.classify (classified : ClassifiedAccounts) (acc : RemoteAccount)
    (pubkey : Pubkey) : ClassifiedAccounts × Option AccountCloneRequest :=
  match acc with
  | .notFound slot =>
    ({ classified with notFound := classified.notFound ++ [(pubkey, slot)] }, none)
  | .found remote =>
    let account := remote.account
    let pending : Pending := (pubkey, account, account.slot)
    if account.owner = env.delegationProgram then
      ({ classified with ownedByDeleg := classified.ownedByDeleg ++ [pending] }, none)
    else if account.executable then
      ({ classified with programs := classifyProgram env pending classified.programs }, none)
    else
      match env.isAta pubkey account.owner account.data with
      | some info =>
        ({ classified with atas := classified.atas ++ [(pubkey, account, info, account.slot)] },
          none)
      | none => (classified, some ⟨pubkey, account, .none, none, none⟩)

def classifyRemoteAccounts (accs : List RemoteAccount) (pubkeys : List Pubkey) :
    ClassifiedAccounts :=
  (accs.zip pubkeys).foldl (fun classified acc =>
    let (classified, request) := classified.classify env acc.1 acc.2
    { classified with plain := classified.plain ++ request.toList }) {}

/-- The image of an associated token account, if it is delegated to this validator as an eATA. -/
def projectDelegatedAta (ataAccount : AccountSharedData) (eataData : List UInt8)
    (record : DelegationRecord) : Option AccountSharedData :=
  if record.authority ≠ env.validator ∨ record.owner ≠ env.eataProgram then none
  else do
    let eata ← env.decodeEata eataData
    let projected ← env.projectIntoAta eata ataAccount
    return { projected with slot := record.delegationSlot, mode := .delegated }

end Magicblock.Chainlink
