import Magicblock.Buffer.Chunks
import Magicblock.Foundations.Hoare
import Magicblock.Intent.Types

/-!
# Buffer/Program — the on-chain program that fills buffers

Account data that is too large for one transaction is written into a buffer account piece by piece.
`Init` creates the buffer and the account of its `Chunks`, `ReallocBuffer` lets the buffer grow by
what one instruction may allocate, and `Write` copies a chunk and marks it.  The state is the data
of every account; lamports and the runtime's limits are behind the answers of a `CommittorEnv`.
-/

namespace Magicblock

open Function (update)

open Exec

inductive ProgramError where
  | notEnoughAccountKeys
  | missingRequiredSignature
  | accountAlreadyInitialized
  | borshIoError
  | invalidRealloc
  | systemProgram
  | custom (code : ℕ)
  deriving DecidableEq

/-- How an instruction of the program fails. -/
inductive CommittorFault where
  | error (err : ProgramError)
  | panicked
  deriving DecidableEq

namespace CommittorFault

/-- `CommittorError`, as the program reports it. -/
def pubkeyError : CommittorFault := .error (.custom 0x69001)
def offsetMustBeMultipleOfChunkSize : CommittorFault := .error (.custom 0x69002)
def offsetChunkOutOfRange : CommittorFault := .error (.custom 0x69003)
def outOfBoundsError : CommittorFault := .error (.custom 0x69004)

def ofChunksError : ChunksError → CommittorFault
  | .outOfBoundsError => outOfBoundsError
  | .invalidOffsetError _ _ => offsetMustBeMultipleOfChunkSize
  | .panicked => panicked

end CommittorFault

/-- **The runtime around the program.**  Addresses derived from authority, account and commit id:
`…Pda` finds one with its bump, `…Address` derives it again from the bump. -/
structure CommittorEnv where
  chunksPda : Pubkey → Pubkey → ℕ → Pubkey × UInt8
  bufferPda : Pubkey → Pubkey → ℕ → Pubkey × UInt8
  chunksAddress : Pubkey → Pubkey → ℕ → UInt8 → Option Pubkey
  bufferAddress : Pubkey → Pubkey → ℕ → UInt8 → Option Pubkey
  /-- Does the system program create an account: payer, address, size. -/
  createsAccount : (Pubkey → List UInt8) → Pubkey → Pubkey → ℕ → Bool
  /-- May the data of an account change its length? -/
  resizes : ℕ → ℕ → Bool
  /-- The bump that was found leads to the address again. -/
  chunksAddress_pda (authority pubkey : Pubkey) (commitId : ℕ) :
    chunksAddress authority pubkey commitId (chunksPda authority pubkey commitId).2 =
      some (chunksPda authority pubkey commitId).1
  bufferAddress_pda (authority pubkey : Pubkey) (commitId : ℕ) :
    bufferAddress authority pubkey commitId (bufferPda authority pubkey commitId).2 =
      some (bufferPda authority pubkey commitId).1
  /-- The two are derived from different seeds. -/
  pda_ne (authority pubkey : Pubkey) (commitId : ℕ) :
    (chunksPda authority pubkey commitId).1 ≠ (bufferPda authority pubkey commitId).1

inductive CommittorInstruction where
  | init (pubkey : Pubkey) (chunksAccountSize bufferAccountSize commitId : ℕ)
    (chunksBump bufferBump : UInt8) (chunkCount chunkSize : ℕ)
  | reallocBuffer (pubkey : Pubkey) (bufferAccountSize commitId : ℕ) (bufferBump : UInt8)
    (invocationCount : ℕ)
  | write (pubkey : Pubkey) (commitId : ℕ) (chunksBump bufferBump : UInt8) (offset : ℕ)
    (dataChunk : List UInt8)
  deriving DecidableEq

/-- An instruction of the program with its accounts. -/
structure BufferInstruction where
  accounts : List AccountMeta
  ix : CommittorInstruction
  deriving DecidableEq

namespace Committor

/-- Code over the data of all accounts. -/
abbrev Program := Exec (Pubkey → List UInt8) CommittorFault

variable (env : CommittorEnv)

/-! ### Checks and effects -/

def assertIsSigner (account : AccountMeta) : Program Unit :=
  Exec.ensure account.isSigner (.error .missingRequiredSignature)

def verifyPda (account : AccountMeta) (address : Option Pubkey) : Program Unit := do
  let expected ← Exec.ofOption address .pubkeyError
  Exec.ensure (account.pubkey = expected) (.error (.custom 1))

def verifySeedsAndPdas (authority chunks buffer : AccountMeta) (pubkey : Pubkey) (commitId : ℕ)
    (chunksBump bufferBump : UInt8) : Program Unit := do
  verifyPda chunks (env.chunksAddress authority.pubkey pubkey commitId chunksBump)
  verifyPda buffer (env.bufferAddress authority.pubkey pubkey commitId bufferBump)

def assertAccountUnallocated (account : AccountMeta) : Program Unit := do
  Exec.ensure (((← get) account.pubkey).isEmpty) (.error .accountAlreadyInitialized)

/-- A new account holds zeros. -/
def createAccount (payer account : AccountMeta) (space : ℕ) : Program Unit := do
  Exec.ensure (env.createsAccount (← get) payer.pubkey account.pubkey space) (.error .systemProgram)
  modify fun accounts => update accounts account.pubkey (List.replicate space 0)

/-- `copy_from_slice` panics if the lengths differ. -/
def copyFromSlice (account : AccountMeta) (data : List UInt8) : Program Unit := do
  Exec.ensure (((← get) account.pubkey).length = data.length) .panicked
  modify fun accounts => update accounts account.pubkey data

/-- What is added are zeros. -/
def resize (account : AccountMeta) (size : ℕ) : Program Unit := do
  let data := (← get) account.pubkey
  Exec.ensure (env.resizes data.length size) (.error .invalidRealloc)
  modify fun accounts => update accounts account.pubkey
    (data.take size ++ List.replicate (size - data.length) 0)

/-- The bytes from `offset` on are replaced. -/
def overwrite (offset : ℕ) (chunk data : List UInt8) : List UInt8 :=
  data.take offset ++ chunk ++ data.drop (offset + chunk.length)

section Meets

variable {env}

theorem meets_verifyPda (haddr : address = some acc.pubkey)
    (hQ : Q () s) : (verifyPda acc address).Meets s Q E := by
  rw [verifyPda, meets_bind, haddr, meets_ofOption]
  refine ⟨?_, nofun⟩
  rintro _ ⟨⟩
  rw [meets_ensure]
  exact ⟨fun _ => hQ, fun hne => absurd (decide_eq_true rfl) hne⟩

theorem meets_copyFromSlice (hlen : (s acc.pubkey).length = data.length)
    (hQ : Q () (update s acc.pubkey data)) : (copyFromSlice acc data).Meets s Q E := by
  rw [copyFromSlice, meets_bind, meets_get, meets_bind, meets_ensure]
  exact ⟨fun _ => hQ, fun hne => absurd (decide_eq_true hlen) hne⟩

theorem meets_resize (hQ : ∀ data, data.length = size → Q () (update s acc.pubkey data))
    (hE : env.resizes (s acc.pubkey).length size = false → E (.error .invalidRealloc) s) :
    (resize env acc size).Meets s Q E := by
  rw [resize, meets_bind, meets_get, meets_bind, meets_ensure]
  refine ⟨fun _ => hQ _ ?_, fun href => hE (Bool.eq_false_of_not_eq_true href)⟩
  simp only [List.length_append, List.length_take, List.length_replicate]
  omega

end Meets

/-! ### Instructions -/

def processInit (accounts : List AccountMeta) (pubkey : Pubkey)
    (chunksAccountSize bufferAccountSize commitId : ℕ) (chunksBump bufferBump : UInt8)
    (chunkCount chunkSize : ℕ) : Program Unit :=
  match accounts with
  | [authority, chunks, buffer, _] => do
    assertIsSigner authority
    verifyPda chunks (env.chunksAddress authority.pubkey pubkey commitId chunksBump)
    verifyPda buffer (env.bufferAddress authority.pubkey pubkey commitId bufferBump)
    assertAccountUnallocated chunks
    assertAccountUnallocated buffer
    createAccount env authority chunks chunksAccountSize
    createAccount env authority buffer (min bufferAccountSize maxAccountAllocPerInstructionSize)
    let initial ← Exec.ofOption (Chunks.new chunkCount chunkSize) .panicked
    copyFromSlice chunks (Chunks.codec.encode initial)
  | _ => throw (.error .notEnoughAccountKeys)

/-- A buffer that is large enough is left as it is, whoever asks. -/
def processReallocBuffer (accounts : List AccountMeta) (pubkey : Pubkey)
    (bufferAccountSize commitId : ℕ) (bufferBump : UInt8) : Program Unit :=
  match accounts with
  | [authority, buffer] => do
    let size := ((← get) buffer.pubkey).length
    if bufferAccountSize ≤ size then return
    else
      assertIsSigner authority
      verifyPda buffer (env.bufferAddress authority.pubkey pubkey commitId bufferBump)
      resize env buffer (min bufferAccountSize (size + maxAccountAllocPerInstructionSize))
  | _ => throw (.error .notEnoughAccountKeys)

/-- Offsets are 32-bit numbers. -/
def processWrite (accounts : List AccountMeta) (pubkey : Pubkey) (offset : ℕ)
    (dataChunk : List UInt8) (commitId : ℕ) (chunksBump bufferBump : UInt8) : Program Unit :=
  match accounts with
  | [authority, chunks, buffer] => do
    assertIsSigner authority
    verifySeedsAndPdas env authority chunks buffer pubkey commitId chunksBump bufferBump
    let data := (← get) buffer.pubkey
    let endOffset := offset + dataChunk.length
    Exec.ensure (endOffset < 2 ^ 32 ∧ endOffset ≤ data.length) .offsetChunkOutOfRange
    modify fun accounts =>
      update accounts buffer.pubkey (overwrite offset dataChunk data)
    let (tracked, rest) ← Exec.ofOption (Chunks.codec.decode ((← get) chunks.pubkey))
      (.error .borshIoError)
    Exec.ensure rest.isEmpty (.error .borshIoError)
    let tracked ← Exec.ofExcept ((tracked.setOffsetDelivered offset).mapError .ofChunksError)
    copyFromSlice chunks (Chunks.codec.encode tracked)
  | _ => throw (.error .notEnoughAccountKeys)

/-- **`process`**, as far as buffers are filled. -/
def process (instruction : BufferInstruction) : Program Unit :=
  match instruction.ix with
  | .init pubkey chunksAccountSize bufferAccountSize commitId chunksBump bufferBump chunkCount
      chunkSize =>
    processInit env instruction.accounts pubkey chunksAccountSize bufferAccountSize commitId
      chunksBump bufferBump chunkCount chunkSize
  | .reallocBuffer pubkey bufferAccountSize commitId bufferBump _ =>
    processReallocBuffer env instruction.accounts pubkey bufferAccountSize commitId bufferBump
  | .write pubkey commitId chunksBump bufferBump offset dataChunk =>
    processWrite env instruction.accounts pubkey offset dataChunk commitId chunksBump bufferBump

/-- One instruction after the other, until one fails. -/
def processAll (instructions : List BufferInstruction) : Program Unit :=
  instructions.forM (process env)

end Committor

end Magicblock
