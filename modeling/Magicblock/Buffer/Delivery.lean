import Magicblock.Buffer.Program
import Magicblock.Foundations.Lists
import Magicblock.Settlement.Tasks

/-!
# Buffer/Delivery — a buffer ends up with exactly its data

The settlement cuts the data of a commit into chunks and sends instructions to create the buffer, to
let it grow, and to write each chunk.  Writes can arrive in any order, more than once, or not at
all.  `Filled` says what the accounts hold then; every write keeps it (`Filled.write`).
-/

namespace Magicblock

open List Chunks

open Function (update update_of_ne update_self)

open Exec Committor

/-! ### Instructions for a buffer -/

def maxInstructionDataSize : ℕ := 1028

/-- Pubkey, commit id, two bumps, offset. -/
def ixWriteSizeWithoutChunks : ℕ := 32 + 8 + 1 + 1 + 32

def budgetSetComputeUnitPriceBytes : ℕ := (1 + 8) * 8

def budgetSetComputeUnitLimitBytes : ℕ := (1 + 4) * 8

/-- What a transaction has room for. -/
def maxWriteChunkSize : ℕ :=
  maxInstructionDataSize - ixWriteSizeWithoutChunks - budgetSetComputeUnitPriceBytes -
    budgetSetComputeUnitLimitBytes

theorem maxWriteChunkSize_eq : maxWriteChunkSize = 842 := rfl

structure ChangesetChunk where
  offset : ℕ
  dataChunk : List UInt8
  deriving DecidableEq

/-- The bytes from an offset on, fewer for the last chunk.  The end is computed with 32 bits; `none`
is the overflow. -/
def ChangesetChunk.from (data : List UInt8) (offset chunkSize : ℕ) : Option ChangesetChunk :=
  if offset + chunkSize < 2 ^ 32 then
    some ⟨offset, (data.take (min (offset + chunkSize) data.length)).drop offset⟩
  else none

/-- The chunks with the indices that pass `filter`; `none` where one of the assertions fails. -/
def Chunks.iterFiltered (chunks : Chunks) (chunkSize : ℕ) (data : List UInt8) (filter : ℕ → Bool) :
    Option (List ChangesetChunk) :=
  let chunksLen := chunks.count * chunkSize
  if data.length ≤ chunksLen ∧ chunksLen < data.length + chunkSize then
    ((List.range chunks.count).filter filter).mapM fun idx =>
      let offset := idx * chunkSize
      if offset < data.length then ChangesetChunk.from data (offset % 2 ^ 32) chunkSize else none
  else none

/-- **`ChangesetChunks::iter`**: all chunks. -/
def Chunks.iter (chunks : Chunks) (data : List UInt8) : Option (List ChangesetChunk) :=
  chunks.iterFiltered chunks.chunkSize data fun _ => true

/-- **`ChangesetChunks::iter_missing`**: those that were not delivered. -/
def Chunks.iterMissing (chunks : Chunks) (chunkSize : ℕ) (data : List UInt8) :
    Option (List ChangesetChunk) :=
  chunks.iterFiltered chunkSize data (· ∈ chunks.getMissingChunks)

/-- Where the sizes fit and no offset overflows, a chunk is the bytes from its offset on. -/
theorem Chunks.iterFiltered_eq {chunks : Chunks} {data : List UInt8}
    (hle : data.length ≤ chunks.count * size) (hlt : chunks.count * size < data.length + size)
    (hsize : data.length + size ≤ 2 ^ 32) :
    chunks.iterFiltered size data p = some (((List.range chunks.count).filter p).map
      fun idx => ⟨idx * size, (data.drop (idx * size)).take size⟩) := by
  rw [iterFiltered, if_pos ⟨hle, hlt⟩]
  refine mapM_eq_some_map fun idx hidx => ?_
  have hidx : idx < chunks.count := List.mem_range.mp (List.mem_filter.mp hidx).1
  have hoffs : idx * size < data.length := by
    have hnext : (idx + 1) * size ≤ chunks.count * size := Nat.mul_le_mul_right size hidx
    rw [Nat.add_mul, Nat.one_mul] at hnext
    omega
  rw [if_pos hoffs, Nat.mod_eq_of_lt (by omega), ChangesetChunk.from, if_pos (by omega),
    List.drop_take]
  congr 2
  rw [List.take_eq_take_iff, List.length_drop]
  omega

structure BufferPreparation where
  commitId : ℕ
  pubkey : Pubkey
  chunks : Chunks
  bufferData : List UInt8
  deriving DecidableEq

namespace BufferPreparation

/-- The state of the account, or the difference to the base account, if it goes through a buffer. -/
def dataOf (computeDiff : List UInt8 → List UInt8 → List UInt8) (task : CommitFinalizeTask) :
    Option (List UInt8) :=
  let data := task.committedAccount.account.data
  match task.delivery with
  | .stateInArgs | .diffInArgs _ => none
  | .stateInBuffer => some data
  | .diffInBuffer baseAccount => some (computeDiff baseAccount.data data)

/-- `none` also if there are too many chunks to track. -/
def fromCommitFinalize (computeDiff : List UInt8 → List UInt8 → List UInt8)
    (task : CommitFinalizeTask) : Option BufferPreparation := do
  let bufferData ← dataOf computeDiff task
  let chunks ← Chunks.fromDataLength bufferData.length maxWriteChunkSize
  return ⟨task.commitId, task.committedAccount.pubkey, chunks, bufferData⟩

variable (env : CommittorEnv) (auth : Pubkey) (prep : BufferPreparation)

def chunksPda : Pubkey × UInt8 := env.chunksPda auth prep.pubkey prep.commitId

def bufferPda : Pubkey × UInt8 := env.bufferPda auth prep.pubkey prep.commitId

theorem pda_ne : (prep.chunksPda env auth).1 ≠ (prep.bufferPda env auth).1 :=
  env.pda_ne auth prep.pubkey prep.commitId

def initInstruction (systemProgram : Pubkey) : BufferInstruction where
  accounts := [⟨auth, true, true⟩, ⟨(prep.chunksPda env auth).1, false, true⟩,
    ⟨(prep.bufferPda env auth).1, false, true⟩, ⟨systemProgram, false, false⟩]
  ix := .init prep.pubkey prep.chunks.serializedSize prep.bufferData.length prep.commitId
    (prep.chunksPda env auth).2 (prep.bufferPda env auth).2 prep.chunks.count
    prep.chunks.chunkSize

def createReallocBufferIx (invocationCount : ℕ) : BufferInstruction where
  accounts := [⟨auth, true, true⟩, ⟨(prep.bufferPda env auth).1, false, true⟩]
  ix := .reallocBuffer prep.pubkey prep.bufferData.length prep.commitId
    (prep.bufferPda env auth).2 (invocationCount % 2 ^ 16)

/-- One for each allocation after the first. -/
def reallocInstructions : List BufferInstruction :=
  let size := prep.bufferData.length
  if size ≤ maxAccountAllocPerInstructionSize then []
  else
    (List.range' 1 (divCeil (size - maxAccountAllocPerInstructionSize)
      maxAccountAllocPerInstructionSize)).map (prep.createReallocBufferIx env auth)

def createWriteIx (chunk : ChangesetChunk) : BufferInstruction where
  accounts := [⟨auth, true, true⟩, ⟨(prep.chunksPda env auth).1, false, true⟩,
    ⟨(prep.bufferPda env auth).1, false, true⟩]
  ix := .write prep.pubkey prep.commitId (prep.chunksPda env auth).2
    (prep.bufferPda env auth).2 chunk.offset chunk.dataChunk

def writeInstructions : Option (List BufferInstruction) :=
  (prep.chunks.iter prep.bufferData).map (·.map (prep.createWriteIx env auth))

end BufferPreparation

/-! ### Chunks of the data -/

/-- Chunk `idx` of the data. -/
def chunkAt (data : List UInt8) (idx : ℕ) : ChangesetChunk :=
  ⟨idx * maxWriteChunkSize, (data.drop (idx * maxWriteChunkSize)).take maxWriteChunkSize⟩

section Prepared

variable {prep : BufferPreparation}

/-- The number of chunks. -/
def BufferPreparation.count (prep : BufferPreparation) : ℕ :=
  divCeil prep.bufferData.length maxWriteChunkSize

theorem chunks_of_fromCommitFinalize
    (h : BufferPreparation.fromCommitFinalize computeDiff task = some prep) :
    new prep.count maxWriteChunkSize = some prep.chunks := by
  obtain ⟨data, -, h⟩ := Option.bind_eq_some_iff.mp h
  obtain ⟨chunks, hchunks, ⟨⟩⟩ := Option.bind_eq_some_iff.mp h
  exact hchunks

/-- The bit field is small, and so is the data. -/
theorem structSize_count_lt (h : new prep.count maxWriteChunkSize = some prep.chunks) :
    structSize prep.count < maxAccountAllocPerInstructionSize :=
  (Option.ite_none_right_eq_some.mp h).1

theorem length_bufferData_lt (h : new prep.count maxWriteChunkSize = some prep.chunks) :
    prep.bufferData.length + maxWriteChunkSize < 2 ^ 32 := by
  have hsize := structSize_count_lt h
  simp only [structSize, countToBitfieldBytes, bitsPerByte,
    BufferPreparation.count, divCeil, maxWriteChunkSize_eq,
    maxAccountAllocPerInstructionSize] at hsize ⊢
  omega

/-- An index is that of a chunk if its offset is in the data. -/
theorem lt_count_iff : idx < prep.count ↔ idx * maxWriteChunkSize < prep.bufferData.length := by
  simp only [BufferPreparation.count, divCeil, maxWriteChunkSize_eq]
  omega

/-- **The chunks cover the data**, and nothing overflows. -/
theorem iter_eq (h : Chunks.new prep.count maxWriteChunkSize = some prep.chunks) :
    prep.chunks.iter prep.bufferData = some ((range prep.count).map (chunkAt prep.bufferData)) := by
  have htrack := Chunks.tracks_new h
  have hcover : prep.bufferData.length ≤ prep.count * maxWriteChunkSize ∧
      prep.count * maxWriteChunkSize < prep.bufferData.length + maxWriteChunkSize := by
    simp only [BufferPreparation.count, divCeil, maxWriteChunkSize_eq]
    omega
  rw [← htrack.count_eq] at hcover ⊢
  rw [Chunks.iter, htrack.chunkSize_eq,
    Chunks.iterFiltered_eq hcover.1 hcover.2 (length_bufferData_lt h).le, filter_true]
  rfl

end Prepared

/-! ### The accounts -/

section Accounts

variable (env : CommittorEnv) (auth : Pubkey) (prep : BufferPreparation)

/-- **The accounts of a buffer** after the chunks in `delivered` were written. -/
structure Filled (delivered : ℕ → Prop) (accounts : Pubkey → List UInt8) : Prop where
  length : (accounts (prep.bufferPda env auth).1).length = prep.bufferData.length
  content : ∀ p, delivered (p / maxWriteChunkSize) →
    (accounts (prep.bufferPda env auth).1)[p]? = prep.bufferData[p]?
  chunks : ∃ c, accounts (prep.chunksPda env auth).1 = Chunks.codec.encode c ∧
    Chunks.Tracks prep.count maxWriteChunkSize delivered c

variable {env auth prep} {accs : Pubkey → List UInt8}

theorem length_overwrite (h : offset + chunk.length ≤ data.length) :
    (overwrite offset chunk data).length = data.length := by
  simp only [overwrite, length_append, length_take, length_drop]
  omega

/-- A byte after a chunk of the data was written is that of the data, or as it was. -/
theorem getElem?_overwrite_chunkAt
    (hlen : buffer.length = data.length) (hidx : idx * maxWriteChunkSize < data.length) :
    (overwrite (chunkAt data idx).offset (chunkAt data idx).dataChunk buffer)[p]? =
      if p / maxWriteChunkSize = idx then data[p]? else buffer[p]? := by
  have hoffs : (buffer.take (idx * maxWriteChunkSize)).length = idx * maxWriteChunkSize := by
    rw [length_take]
    omega
  simp only [chunkAt, overwrite, append_assoc]
  rcases Nat.lt_or_ge p (idx * maxWriteChunkSize) with hbef | haft
  · have hne : p / maxWriteChunkSize ≠ idx := by
      rw [maxWriteChunkSize_eq] at *
      omega
    rw [getElem?_append_left (by omega), getElem?_take_of_lt hbef, if_neg hne]
  rw [getElem?_append_right (by omega), hoffs]
  generalize hchk : (data.drop (idx * maxWriteChunkSize)).take maxWriteChunkSize = chunk
  have hsize : chunk.length = min maxWriteChunkSize (data.length - idx * maxWriteChunkSize) := by
    rw [← hchk, length_take, length_drop]
  rcases Nat.lt_or_ge (p - idx * maxWriteChunkSize) chunk.length with hin | hbey
  · have heq : p / maxWriteChunkSize = idx := by
      rw [maxWriteChunkSize_eq] at *
      omega
    rw [getElem?_append_left hin, if_pos heq, ← hchk, getElem?_take_of_lt (by omega),
      getElem?_drop, Nat.add_sub_cancel' haft]
  · rw [getElem?_append_right hbey, getElem?_drop]
    have hp : idx * maxWriteChunkSize + chunk.length +
        (p - idx * maxWriteChunkSize - chunk.length) = p := by
      omega
    rw [hp]
    split_ifs with heq
    · -- the last chunk is short: `p` is beyond the data
      have hend : data.length ≤ p := by
        rw [maxWriteChunkSize_eq] at *
        omega
      rw [getElem?_eq_none hend, getElem?_eq_none (hlen ▸ hend)]
    · rfl

theorem chunkAt_le (hidx : idx * maxWriteChunkSize < data.length) :
    (chunkAt data idx).offset + (chunkAt data idx).dataChunk.length ≤ data.length := by
  simp only [chunkAt, length_take, length_drop]
  omega

section

variable (h : Filled env auth prep delivered accs)

include h

/-- The accounts with one more chunk. -/
theorem Filled.update (hidx : idx < prep.count)
    (hc : Chunks.Tracks prep.count maxWriteChunkSize (fun i => i = idx ∨ delivered i) c) :
    Filled env auth prep (fun i => i = idx ∨ delivered i)
      (update (update accs (prep.bufferPda env auth).1
        (overwrite (chunkAt prep.bufferData idx).offset (chunkAt prep.bufferData idx).dataChunk
          (accs (prep.bufferPda env auth).1)))
        (prep.chunksPda env auth).1 (codec.encode c)) := by
  have hoffs := lt_count_iff.mp hidx
  refine ⟨?_, fun p hp => ?_, c, update_self .., hc⟩
  · rw [update_of_ne (prep.pda_ne env auth).symm, update_self, length_overwrite, h.length]
    rw [h.length]
    exact chunkAt_le hoffs
  · rw [update_of_ne (prep.pda_ne env auth).symm, update_self,
      getElem?_overwrite_chunkAt h.length hoffs]
    split_ifs with heq
    · rfl
    · exact h.content p (hp.resolve_left heq)

/-- **A write succeeds**, whatever was written before, and delivers its chunk. -/
theorem Filled.write (hnew : new prep.count maxWriteChunkSize = some prep.chunks)
    (hidx : idx < prep.count) :
    (process env (prep.createWriteIx env auth (chunkAt prep.bufferData idx))).Meets accs
      (fun _ => Filled env auth prep fun i => i = idx ∨ delivered i) fun _ _ => False := by
  obtain ⟨c, hc, htrack⟩ := h.chunks
  have hoffs := lt_count_iff.mp hidx
  have hsmall := length_bufferData_lt hnew
  have hchk := chunkAt_le hoffs
  have hdec : codec.decode (codec.encode c) = some (c, []) := by
    have hval := htrack.valid (structSize_count_lt hnew) (by decide)
    simpa using codec.decode_encode [] hval
  simp only [process, BufferPreparation.createWriteIx, processWrite]
  rw [meets_bind, assertIsSigner, meets_ensure]
  refine ⟨fun _ => ?_, fun hsign => absurd rfl hsign⟩
  rw [meets_bind, verifySeedsAndPdas, meets_bind]
  refine meets_verifyPda (env.chunksAddress_pda ..) (meets_verifyPda (env.bufferAddress_pda ..) ?_)
  rw [meets_bind, meets_get, meets_bind, meets_ensure]
  refine ⟨fun _ => ?_, fun hrange => absurd (decide_eq_true ⟨?_, ?_⟩) hrange⟩
  · rw [meets_bind, meets_modify, meets_bind, meets_get, meets_bind, meets_ofOption,
      update_of_ne (prep.pda_ne env auth), hc, hdec]
    refine ⟨?_, nofun⟩
    rintro _ ⟨⟩
    rw [meets_bind, meets_ensure]
    refine ⟨fun _ => ?_, fun hrest => absurd rfl hrest⟩
    have hset := setOffsetDelivered_eq htrack (by decide) hidx
    rw [meets_bind, show (chunkAt prep.bufferData idx).offset = idx * maxWriteChunkSize from rfl,
      hset, meets_ofExcept]
    refine ⟨?_, nofun⟩
    rintro _ ⟨⟩
    have htrack' := htrack.set idx
    refine meets_copyFromSlice ?_ (h.update hidx htrack')
    rw [update_of_ne (prep.pda_ne env auth), hc, htrack.length_encode, htrack'.length_encode]
  · omega
  · rwa [h.length]

/-- **Any sequence of writes succeeds** and delivers its chunks. -/
theorem Filled.writes (hnew : new prep.count maxWriteChunkSize = some prep.chunks) {landed : List ℕ}
    (hland : ∀ idx ∈ landed, idx < prep.count) :
    (processAll env (landed.map fun idx => prep.createWriteIx env auth
      (chunkAt prep.bufferData idx))).Meets accs
      (fun _ => Filled env auth prep fun i => i ∈ landed ∨ delivered i) fun _ _ => False := by
  induction landed generalizing delivered accs with
  | nil =>
    change Filled env auth prep _ accs
    simpa using h
  | cons idx landed ih =>
    obtain ⟨hidx, hrest⟩ := forall_mem_cons.mp hland
    change Meets (process env _ >>= fun _ => processAll env _) accs _ _
    refine .bind (h.write hnew hidx) fun _ accs' h' => ?_
    refine (ih h' hrest).mono (fun _ accs'' h'' => ?_) fun _ _ => id
    have hsame : (fun i => i ∈ idx :: landed ∨ delivered i) =
        fun i => i ∈ landed ∨ i = idx ∨ delivered i := by
      funext i
      simp only [mem_cons, eq_iff_iff]
      tauto
    rwa [hsame]

end

/-! ### Before the writes -/

variable (env auth prep) in
/-- The accounts after `Init` and `n - 1` reallocations. -/
structure Allocated (n : ℕ) (accounts : Pubkey → List UInt8) : Prop where
  length : (accounts (prep.bufferPda env auth).1).length =
    min prep.bufferData.length (n * maxAccountAllocPerInstructionSize)
  chunks : accounts (prep.chunksPda env auth).1 = Chunks.codec.encode prep.chunks

variable (env auth prep) in
/-- **The runtime has room for a buffer**: its two accounts are free and can be created, and the
second can grow up to the size of the data. -/
structure Grants (accounts : Pubkey → List UInt8) : Prop where
  chunks : accounts (prep.chunksPda env auth).1 = []
  buffer : accounts (prep.bufferPda env auth).1 = []
  createsChunks : env.createsAccount accounts auth (prep.chunksPda env auth).1
    prep.chunks.serializedSize
  createsBuffer : env.createsAccount
    (update accounts (prep.chunksPda env auth).1 (replicate prep.chunks.serializedSize 0))
    auth (prep.bufferPda env auth).1
    (min prep.bufferData.length maxAccountAllocPerInstructionSize)
  resizes : ∀ old new, old < new → new ≤ old + maxAccountAllocPerInstructionSize →
    new ≤ prep.bufferData.length → env.resizes old new

/-- `Init` fails only if the runtime refuses. -/
theorem meets_init (hnew : new prep.count maxWriteChunkSize = some prep.chunks) :
    (process env (prep.initInstruction env auth systemProgram)).Meets accs
      (fun _ => Allocated env auth prep 1) fun _ _ => ¬ Grants env auth prep accs := by
  have htrack := tracks_new hnew
  simp only [process, BufferPreparation.initInstruction, processInit]
  rw [meets_bind, assertIsSigner, meets_ensure]
  refine ⟨fun _ => ?_, fun hsign => absurd rfl hsign⟩
  rw [meets_bind]
  refine meets_verifyPda (env.chunksAddress_pda ..) ?_
  rw [meets_bind]
  refine meets_verifyPda (env.bufferAddress_pda ..) ?_
  rw [meets_bind, assertAccountUnallocated, meets_bind, meets_get, meets_ensure]
  refine ⟨fun _ => ?_, fun hused hgrants => hused (by rw [hgrants.chunks]; rfl)⟩
  rw [meets_bind, assertAccountUnallocated, meets_bind, meets_get, meets_ensure]
  refine ⟨fun _ => ?_, fun hused hgrants => hused (by rw [hgrants.buffer]; rfl)⟩
  rw [meets_bind, createAccount, meets_bind, meets_get, meets_bind, meets_ensure]
  refine ⟨fun _ => ?_, fun href hgrants => href hgrants.createsChunks⟩
  rw [meets_modify, meets_bind, createAccount, meets_bind, meets_get, meets_bind, meets_ensure]
  refine ⟨fun _ => ?_, fun href hgrants => href hgrants.createsBuffer⟩
  rw [meets_modify, meets_bind, htrack.count_eq, htrack.chunkSize_eq, hnew, meets_ofOption]
  refine ⟨?_, nofun⟩
  rintro _ ⟨⟩
  refine meets_copyFromSlice ?_ ⟨?_, update_self ..⟩
  · rw [update_of_ne (prep.pda_ne env auth), update_self,
      length_replicate, htrack.length_encode, serializedSize, htrack.count_eq]
  · rw [update_of_ne (prep.pda_ne env auth).symm, update_self, length_replicate, one_mul]

/-- A reallocation allocates once more. -/
theorem Allocated.realloc (h : Allocated env auth prep n accs) :
    (process env (prep.createReallocBufferIx env auth i)).Meets accs
      (fun _ => Allocated env auth prep (n + 1))
      fun _ _ => ∀ accs, ¬ Grants env auth prep accs := by
  have hlen := h.length
  simp only [process, BufferPreparation.createReallocBufferIx, processReallocBuffer]
  rw [meets_bind, meets_get, meets_ite]
  constructor
  · intro hlarge
    rw [meets_pure]
    refine ⟨?_, h.chunks⟩
    rw [hlen, Nat.add_mul, one_mul]
    omega
  · intro hsmall
    rw [meets_bind, assertIsSigner, meets_ensure]
    refine ⟨fun _ => ?_, fun hsign => absurd rfl hsign⟩
    rw [meets_bind]
    refine meets_verifyPda (env.bufferAddress_pda ..) ?_
    refine meets_resize (fun data hdata => ⟨?_, ?_⟩) fun href accs' hgrants => ?_
    · rw [update_self, hdata, hlen, Nat.add_mul, one_mul]
      omega
    · rw [update_of_ne (prep.pda_ne env auth), h.chunks]
    · refine absurd (hgrants.resizes _ _ ?_ ?_ ?_) (Bool.eq_false_iff.mp href)
      · exact lt_min (not_le.mp hsmall) (Nat.lt_add_of_pos_right (by decide))
      · exact min_le_right ..
      · exact min_le_left ..

theorem Allocated.reallocs {n : ℕ} {invocations : List ℕ} (h : Allocated env auth prep n accs) :
    (processAll env (invocations.map (prep.createReallocBufferIx env auth))).Meets accs
      (fun _ => Allocated env auth prep (n + invocations.length))
      fun _ _ => ∀ accs, ¬ Grants env auth prep accs := by
  induction invocations generalizing n accs with
  | nil => exact h
  | cons i invocations ih =>
    change Meets (process env _ >>= fun _ => processAll env _) accs _ _
    refine .bind h.realloc fun _ accs' h' => ?_
    rw [length_cons, Nat.add_comm invocations.length, ← Nat.add_assoc]
    exact ih h'

/-- **After all reallocations the buffer has the size of the data**, and no chunk is written. -/
theorem Allocated.meets_reallocInstructions (h : Allocated env auth prep 1 accs)
    (hnew : new prep.count maxWriteChunkSize = some prep.chunks) :
    (processAll env (prep.reallocInstructions env auth)).Meets accs
      (fun _ => Filled env auth prep fun _ => False)
      fun _ _ => ∀ accs, ¬ Grants env auth prep accs := by
  have hfill {n : ℕ} {accs : Pubkey → List UInt8} (h : Allocated env auth prep n accs)
      (hn : prep.bufferData.length ≤ n * maxAccountAllocPerInstructionSize) :
      Filled env auth prep (fun _ => False) accs :=
    ⟨h.length.trans (min_eq_left hn), fun _ => False.elim, _, h.chunks, tracks_new hnew⟩
  simp only [BufferPreparation.reallocInstructions]
  split_ifs with hsmall
  · exact hfill h (by rwa [one_mul])
  · refine h.reallocs.mono (fun _ accs' h' => hfill h' ?_) fun _ _ => id
    rw [length_range']
    unfold divCeil maxAccountAllocPerInstructionSize at *
    omega

/-- A chunk that was delivered. -/
theorem Filled.chunk (h : Filled env auth prep delivered accs) (hidx : delivered idx) :
    ((accs (prep.bufferPda env auth).1).drop (idx * maxWriteChunkSize)).take
        maxWriteChunkSize = (chunkAt prep.bufferData idx).dataChunk := by
  refine ext_getElem? fun p => ?_
  rw [chunkAt, getElem?_take, getElem?_take]
  split_ifs with hp
  · rw [getElem?_drop, getElem?_drop, h.content]
    have hdiv : (idx * maxWriteChunkSize + p) / maxWriteChunkSize = idx := by
      rw [maxWriteChunkSize_eq] at *
      omega
    rwa [hdiv]
  · rfl

/-- If all chunks were delivered, the buffer is the data. -/
theorem Filled.eq_data (h : Filled env auth prep delivered accs)
    (hall : ∀ idx < prep.count, delivered idx) :
    accs (prep.bufferPda env auth).1 = prep.bufferData := by
  refine ext_getElem? fun p => ?_
  rcases Nat.lt_or_ge p prep.bufferData.length with hp | hp
  · refine h.content p (hall _ (lt_count_iff.mpr ?_))
    exact (Nat.div_mul_le_self ..).trans_lt hp
  · rw [getElem?_eq_none hp, getElem?_eq_none (h.length ▸ hp)]

end Accounts

/-- **Buffer delivery is exact.**  Once a buffer was created and has grown, which fails only if the
runtime refuses, every sequence of writes of its chunks succeeds: in any order, with any chunk
written more than once or not at all.  The buffer has the size of the data, and each chunk that was
written is there; the tracking account is complete if and only if every chunk was written, and then
the buffer is the data. -/
theorem buffer_delivered (env : CommittorEnv) (auth systemProgram : Pubkey)
    (computeDiff : List UInt8 → List UInt8 → List UInt8) (task : CommitFinalizeTask)
    (prep : BufferPreparation)
    (hprep : BufferPreparation.fromCommitFinalize computeDiff task = some prep) :
    ∃ writes, prep.writeInstructions env auth = some writes ∧
      (∀ accs, Grants env auth prep accs → ∃ accs₁ accs₂,
        (process env (prep.initInstruction env auth systemProgram)).Ok accs () accs₁ ∧
        (processAll env (prep.reallocInstructions env auth)).Ok accs₁ () accs₂) ∧
      ∀ accs accs₁ accs₂,
        (process env (prep.initInstruction env auth systemProgram)).Ok accs () accs₁ →
        (processAll env (prep.reallocInstructions env auth)).Ok accs₁ () accs₂ →
        ∀ landed : List (Fin writes.length), ∃ accs₃,
          (processAll env (landed.map writes.get)).Ok accs₂ () accs₃ ∧
          (accs₃ (prep.bufferPda env auth).1).length = prep.bufferData.length ∧
          (∀ i ∈ landed,
            ((accs₃ (prep.bufferPda env auth).1).drop (i * maxWriteChunkSize)).take
                maxWriteChunkSize =
              (prep.bufferData.drop (i * maxWriteChunkSize)).take maxWriteChunkSize) ∧
          ∃ chunks, Chunks.codec.decode (accs₃ (prep.chunksPda env auth).1) =
              some (chunks, []) ∧
            (chunks.isComplete ↔ ∀ i, i ∈ landed) ∧
            (chunks.isComplete → accs₃ (prep.bufferPda env auth).1 = prep.bufferData) := by
  have hnew := chunks_of_fromCommitFinalize hprep
  refine ⟨(List.range prep.count).map fun idx => prep.createWriteIx env auth
    (chunkAt prep.bufferData idx), ?_, ?_, ?_⟩
  · rw [BufferPreparation.writeInstructions, iter_eq hnew, Option.map_some, List.map_map]
    rfl
  · intro accs hgrants
    obtain ⟨_, accs₁, hinit, halloc⟩ := ((meets_init hnew).mono (fun _ _ => id)
      fun _ _ href => href hgrants).exists_ok
    obtain ⟨_, accs₂, hreal, -⟩ := ((halloc.meets_reallocInstructions hnew).mono
      (fun _ _ => id) fun _ _ href => href accs hgrants).exists_ok
    exact ⟨accs₁, accs₂, hinit, hreal⟩
  · intro accs accs₁ accs₂ hinit hreal landed
    have hstart := (((meets_init hnew).of_ok hinit).meets_reallocInstructions hnew).of_ok hreal
    have hcnt : ∀ i ∈ landed.map Fin.val, i < prep.count := by
      intro i hi
      obtain ⟨i, -, rfl⟩ := List.mem_map.mp hi
      simpa using i.isLt
    obtain ⟨_, accs₃, hwrites, hfill⟩ := (hstart.writes hnew hcnt).exists_ok
    obtain ⟨chunks, hchunks, htrack⟩ := hfill.chunks
    have hdec : Chunks.codec.decode (Chunks.codec.encode chunks) = some (chunks, []) := by
      have hval := htrack.valid (structSize_count_lt hnew) (by decide)
      simpa using Chunks.codec.decode_encode [] hval
    refine ⟨accs₃, ?_, hfill.length, fun i hi => ?_, chunks, hchunks ▸ hdec, ?_,
      fun hcomp => hfill.eq_data (htrack.isComplete_iff.mp hcomp)⟩
    · rw [List.map_map] at hwrites
      rwa [List.map_congr_left fun i _ => ?_]
      rw [List.get_eq_getElem, List.getElem_map, List.getElem_range, Function.comp_apply]
    · exact hfill.chunk (.inl (List.mem_map_of_mem hi))
    · rw [htrack.isComplete_iff]
      constructor
      · intro hall i
        have hi := hall i (by simpa using i.isLt)
        simpa only [List.mem_map, Fin.val_inj, exists_eq_right, or_false] using hi
      · intro hall idx hidx
        exact .inl (List.mem_map_of_mem (hall ⟨idx, by simpa using hidx⟩))

namespace BufferExample

/-- A runtime that grants everything. -/
def env : CommittorEnv where
  chunksPda _ _ _ := (1, 0)
  bufferPda _ _ _ := (2, 0)
  chunksAddress _ _ _ _ := some 1
  bufferAddress _ _ _ _ := some 2
  createsAccount _ _ _ _ := true
  resizes _ _ := true
  chunksAddress_pda _ _ _ := rfl
  bufferAddress_pda _ _ _ := rfl
  pda_ne _ _ _ := by decide

/-- The state of an account goes through a buffer. -/
def task (data : List UInt8) : CommitFinalizeTask :=
  ⟨1, false, ⟨9, ⟨0, data, 0, false, 0⟩, 0, 1⟩, .stateInBuffer⟩

def prep (data : List UInt8) : BufferPreparation := ⟨1, 9, ⟨[0, 0], 14, 842⟩, data⟩

theorem fromCommitFinalize_task (h : data.length = 11000) :
    BufferPreparation.fromCommitFinalize (fun _ new => new) (task data) = some (prep data) := by
  change (Chunks.fromDataLength data.length maxWriteChunkSize).bind _ = _
  rw [h]
  rfl

theorem length_reallocInstructions (h : data.length = 11000) :
    ((prep data).reallocInstructions env 3).length = 1 := by
  have hsize : (prep data).bufferData.length = 11000 := h
  rw [BufferPreparation.reallocInstructions, hsize]
  rfl

/-- It has to be reallocated for 11000 bytes. -/
def data : List UInt8 := List.replicate 11000 7

theorem length_data : data.length = 11000 := List.length_replicate

end BufferExample

open BufferExample in
/-- The buffer is reallocated, and the chunks arrive in the reverse order. -/
theorem buffer_delivered_reversed : ∃ writes accs₁ accs₂ accs₃,
    (prep data).writeInstructions env 3 = some writes ∧
      ((prep data).reallocInstructions env 3).length = 1 ∧
      (process env ((prep data).initInstruction env 3 4)).Ok (fun _ => []) () accs₁ ∧
      (processAll env ((prep data).reallocInstructions env 3)).Ok accs₁ () accs₂ ∧
      (processAll env writes.reverse).Ok accs₂ () accs₃ ∧ accs₃ 2 = data := by
  obtain ⟨writes, hwrites, hgran, hland⟩ :=
    buffer_delivered env 3 4 _ (task data) (prep data) (fromCommitFinalize_task length_data)
  obtain ⟨accs₁, accs₂, hinit, hreal⟩ :=
    hgran (fun _ => []) ⟨rfl, rfl, rfl, rfl, fun _ _ _ _ _ => rfl⟩
  obtain ⟨accs₃, hok, -, -, chunks, -, hcomp, hdata⟩ :=
    hland _ _ _ hinit hreal (List.finRange writes.length).reverse
  rw [List.map_reverse, List.map_get_finRange] at hok
  have hall := hcomp.mpr fun i => List.mem_reverse.mpr (List.mem_finRange i)
  exact ⟨writes, accs₁, accs₂, accs₃, hwrites, length_reallocInstructions length_data,
    hinit, hreal, hok, hdata hall⟩

end Magicblock
