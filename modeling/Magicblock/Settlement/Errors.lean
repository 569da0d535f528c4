import Magicblock.Program.Runtime
import Magicblock.Scheduler.Model

/-!
# Settlement/Errors — what can go wrong on the way to the base layer

The error types of `committor/src/execution` and of the RPC client, with the questions the code
asks of them: is the transaction rejected for good (`isRejected`), is a retry worthwhile
(`isTransient`), can splitting help (`isRecoverableBySplitting`), which signature is involved.
Errors of third-party crates appear as far as one of these questions looks into them.
-/

namespace Magicblock

/-- `solana_transaction_error::TransactionError`. -/
inductive TransactionError where
  | instructionError (index : ℕ) (err : InstructionError)
  | maxLoadedAccountsDataSizeExceeded
  | other (kind : ℕ)
  deriving DecidableEq

/-- The kinds of `solana_rpc_client_api::client_error::Error`. -/
inductive ClientErrorKind where
  | transactionError (err : TransactionError)
  | rpcResponseError (code : ℤ) (message : String)
  | other (kind : ℕ)
  deriving DecidableEq

inductive MagicBlockRpcClientError where
  | rpcClientError (kind : ClientErrorKind)
  | getLatestBlockhash (kind : ClientErrorKind)
  | getSlot (kind : ClientErrorKind)
  | lookupTableDeserialize (err : InstructionError)
  | sendTransaction (kind : ClientErrorKind)
  | cannotGetTransactionSignatureStatus (signature : Signature) (msg : String)
  | cannotConfirmTransactionSignatureStatus (signature : Signature) (level : CommitmentLevel)
  | sentTransactionError (err : TransactionError) (signature : Signature)
  deriving DecidableEq

namespace MagicBlockRpcClientError

def signature : MagicBlockRpcClientError → Option Signature
  | cannotGetTransactionSignatureStatus sig _
  | sentTransactionError _ sig
  | cannotConfirmTransactionSignatureStatus sig _ => some sig
  | _ => none

/-- On-chain instruction errors are deterministic, hence not transient. -/
def isTransient : MagicBlockRpcClientError → Bool
  | lookupTableDeserialize _
  | cannotGetTransactionSignatureStatus _ _
  | cannotConfirmTransactionSignatureStatus _ _ => false
  | sentTransactionError (.instructionError _ _) _ => false
  | _ => true

end MagicBlockRpcClientError

inductive InternalError where
  | signerError
  | magicBlockRpcClientError (err : MagicBlockRpcClientError)
  deriving DecidableEq

namespace InternalError

def signature : InternalError → Option Signature
  | signerError => none
  | magicBlockRpcClientError err => err.signature

def isTransient : InternalError → Bool
  | signerError => false
  | magicBlockRpcClientError err => err.isTransient

end InternalError

/-- **Errors from a settlement transaction on the base layer.** -/
inductive TransactionExecutionError where
  | actionsError (err : TransactionError) (signature : Option Signature)
  | undelegationError (err : TransactionError) (signature : Option Signature)
  | commitIDError (err : TransactionError) (signature : Option Signature)
  | cpiLimitError (err : TransactionError) (signature : Option Signature)
  | loadedAccountsDataSizeExceeded (err : TransactionError) (signature : Option Signature)
  | unfinalizedAccountError (err : TransactionError) (signature : Option Signature)
  | transactionTooLargeError (err : InternalError)
  | internalError (err : InternalError)
  deriving DecidableEq

namespace TransactionExecutionError

/-- Domain errors and reported on-chain failures have a definitive outcome; a transport error alone
does not establish whether the transaction landed. -/
def isRejected : TransactionExecutionError → Bool
  | internalError (.magicBlockRpcClientError (.sentTransactionError _ _)) => true
  | internalError _ => false
  | _ => true

def isTransient : TransactionExecutionError → Bool
  | internalError err => err.isTransient
  | _ => false

def isRecoverableBySplitting : TransactionExecutionError → Bool
  | cpiLimitError _ _
  | loadedAccountsDataSizeExceeded _ _
  | transactionTooLargeError _ => true
  | _ => false

/-- The task an error blames, given how many instructions stand before the tasks. -/
def taskIndex (taskInstructionOffset : ℕ) : TransactionExecutionError → Option ℕ
  | commitIDError (.instructionError index _) _
  | actionsError (.instructionError index _) _
  | undelegationError (.instructionError index _) _
  | unfinalizedAccountError (.instructionError index _) _
  | cpiLimitError (.instructionError index _) _ =>
    if taskInstructionOffset ≤ index then some (index - taskInstructionOffset) else none
  | _ => none

def signature : TransactionExecutionError → Option Signature
  | internalError err => err.signature
  | transactionTooLargeError err => err.signature
  | commitIDError _ sig
  | actionsError _ sig
  | undelegationError _ sig
  | unfinalizedAccountError _ sig
  | cpiLimitError _ sig
  | loadedAccountsDataSizeExceeded _ sig => sig

end TransactionExecutionError

/-- Preparing a transaction; of a delivery error only this answer is asked for. -/
inductive TransactionPreparatorError where
  | failedToFit
  | compile
  | signer
  | getLatestBlockhash (err : MagicBlockRpcClientError)
  | deliveryPreparation (transient : Bool)
  deriving DecidableEq

namespace TransactionPreparatorError

def isTransient : TransactionPreparatorError → Bool
  | failedToFit | compile | signer => false
  | getLatestBlockhash err => err.isTransient
  | deliveryPreparation transient => transient

end TransactionPreparatorError

/-- Of a failed metadata fetch only this answer is asked for. -/
structure TaskInfoProviderError where
  transient : Bool
  deriving DecidableEq

inductive TaskBuilderError where
  | commitTasksBuildError (err : TaskInfoProviderError)
  | followUpTasksBuildError (err : TaskInfoProviderError)
  | missingDelegationMetadata (pubkey : Pubkey)
  deriving DecidableEq

namespace TaskBuilderError

def isTransient : TaskBuilderError → Bool
  | commitTasksBuildError err | followUpTasksBuildError err => err.transient
  | missingDelegationMetadata _ => false

end TaskBuilderError

inductive InternalOutboxClientError where
  | invalidOutboxTarget (pubkey : Pubkey)
  | magicContextMissing
  | transactionError (err : TransactionError)
  | engineError
  | wincodeError
  | receiptEncoding
  | accountsDbError
  | read
  | transactionStatusMissing (signature : Signature)
  deriving DecidableEq

/-- **Errors of an intent execution.** -/
inductive IntentExecutorError where
  | schedulerError (err : IntentSchedulerError)
  | emptyIntentError
  | failedToFitError
  | compileError
  | poisonedIntentError
  | signerError
  | outboxClientError (err : InternalOutboxClientError)
  | getPendingSignatureStatusError (err : MagicBlockRpcClientError)
  | pendingSignatureResolutionError (signature : Signature)
  | taskBuilderError (err : TaskBuilderError)
  | failedExecution (err : TransactionExecutionError)
  | failedPreparation (err : TransactionPreparatorError)
  deriving DecidableEq

namespace IntentExecutorError

def isTransient : IntentExecutorError → Bool
  | getPendingSignatureStatusError err => err.isTransient
  | taskBuilderError err => err.isTransient
  | failedExecution err => err.isTransient
  | failedPreparation err => err.isTransient
  | _ => false

end IntentExecutorError

end Magicblock
