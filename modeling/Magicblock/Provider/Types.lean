import Magicblock.Program.Runtime

/-!
# Provider/Types — remote accounts and the updates of subscriptions

What `remote_account.rs` and `pubsub_common.rs` pass around: the state of an account on the base
layer at a slot, by a fetch or by a subscription, and the updates that a subscription delivers.
-/

namespace Magicblock

inductive RemoteAccountUpdateSource
  | fetch
  | subscription
  deriving DecidableEq

structure RemoteAccountState where
  account : AccountSharedData
  source : RemoteAccountUpdateSource
  deriving DecidableEq

inductive RemoteAccount
  | notFound (slot : Slot)
  | found (state : RemoteAccountState)
  deriving DecidableEq

/-- `AccountBuilder` of the accounts crate: an account at a slot, and an account that is missing
there. -/
structure AccountBuilder where
  build : Account → Slot → AccountSharedData
  missing : Slot → AccountSharedData
  slot_build : ∀ account slot, (build account slot).slot = slot
  slot_missing : ∀ slot, (missing slot).slot = slot

namespace RemoteAccount

def fromFreshAccount (builder : AccountBuilder) (account : Account) (slot : Slot)
    (source : RemoteAccountUpdateSource) : RemoteAccount :=
  .found ⟨builder.build account slot, source⟩

def slot : RemoteAccount → Slot
  | .found state => state.account.slot
  | .notFound slot => slot

def source : RemoteAccount → Option RemoteAccountUpdateSource
  | .found state => some state.source
  | .notFound _ => none

def isFound : RemoteAccount → Bool
  | .notFound _ => false
  | .found _ => true

end RemoteAccount

/-! ### Updates -/

inductive SubscriptionSource
  | account
  | program
  | replay
  deriving DecidableEq

/-- An update from upstream; without an account if it could not be decoded. -/
structure SubscriptionUpdate where
  pubkey : Pubkey
  slot : Slot
  account : Option Account
  source : SubscriptionSource
  deriving DecidableEq

structure ForwardedSubscriptionUpdate where
  pubkey : Pubkey
  account : RemoteAccount
  source : SubscriptionSource
  deriving DecidableEq

/-! ### Answers and errors of the provider -/

/-- What becomes of a `getMultipleAccounts` request. -/
inductive RpcAnswer
  | timeout
  | error (text : String)
  | response (slot : Slot) (value : List (Option Account))

inductive RemoteAccountProviderError
  | recvrError
  | accountSubscriptionsTaskFailed (text : String)
  | accountResolutionsFailed (text : String)
  | slotsDidNotMatch (pubkeys : String) (slots : List Slot) (limit : String)
  | matchingSlotsNotSatisfyingMinContextSlot (pubkeys : String) (slots : List Slot) (slot : Slot)
      (limit : String)
  deriving DecidableEq

/-- `pubkeys_str`, by the text of a pubkey. -/
def pubkeysStr (text : Pubkey → String) (pubkeys : List Pubkey) : String :=
  ", ".intercalate (pubkeys.map text)

end Magicblock
