import Magicblock.Foundations.Codec
import Magicblock.Foundations.Lists

/-!
# Buffer/Chunks — which chunks of a buffer were delivered

`Chunks` is a bit field with one bit for each chunk, stored in an account of its own.  `Tracks` says
what it stands for: the set of chunks that were delivered.
-/

namespace Magicblock

/-- `MAX_ACCOUNT_ALLOC_PER_INSTRUCTION_SIZE`. -/
def maxAccountAllocPerInstructionSize : ℕ := 10240

/-- `bits` has one bit for each of `count` chunks, the lowest of each byte first. -/
structure Chunks where
  bits : List UInt8
  count : ℕ
  chunkSize : ℕ
  deriving DecidableEq

inductive ChunksError where
  | outOfBoundsError
  | invalidOffsetError (offset chunkSize : ℕ)
  /-- A byte of the bit field is missing, or chunks are empty. -/
  | panicked
  deriving DecidableEq

namespace Chunks

def bitsPerByte : ℕ := 8

def countToBitfieldBytes (count : ℕ) : ℕ := divCeil count bitsPerByte

/-- The length of the encoding: that of the bits, the bits, the count, and the size. -/
def structSize (count : ℕ) : ℕ := 4 + countToBitfieldBytes count + 8 + 2

/-- `none` is the failed assertion that the account can be allocated at once. -/
def new (chunkCount chunkSize : ℕ) : Option Chunks :=
  if structSize chunkCount < maxAccountAllocPerInstructionSize then
    some ⟨List.replicate (countToBitfieldBytes chunkCount) 0, chunkCount, chunkSize⟩
  else none

def fromDataLength (dataLen chunkSize : ℕ) : Option Chunks :=
  new (divCeil dataLen chunkSize) chunkSize

def serializedSize (c : Chunks) : ℕ := structSize c.count

/-- The bit of a chunk in its byte. -/
def mask (idx : ℕ) : UInt8 := 1 <<< UInt8.ofNat (idx % bitsPerByte)

/-- `none` for chunks that are not tracked. -/
def isChunkDelivered (c : Chunks) (idx : ℕ) : Option Bool :=
  if c.count ≤ idx then none
  else c.bits[idx / bitsPerByte]?.map fun byte => byte &&& mask idx != 0

def setChunkDelivered (c : Chunks) (idx : ℕ) : Except ChunksError Chunks :=
  if idx < c.count then
    if idx / bitsPerByte < c.bits.length then
      .ok { c with bits := c.bits.modify (idx / bitsPerByte) (· ||| mask idx) }
    else .error .panicked
  else .error .outOfBoundsError

def setOffsetDelivered (c : Chunks) (offset : ℕ) : Except ChunksError Chunks :=
  if c.chunkSize = 0 then .error .panicked
  else if offset % c.chunkSize ≠ 0 then .error (.invalidOffsetError offset c.chunkSize)
  else c.setChunkDelivered (offset / c.chunkSize)

def getMissingChunks (c : Chunks) : List ℕ :=
  (List.range c.count).filter fun idx => c.isChunkDelivered idx ≠ some true

def isComplete (c : Chunks) : Bool := c.getMissingChunks.isEmpty

/-- The encoding of the account. -/
def codec : Codec Chunks :=
  ((Codec.list 4 Codec.byte).pair <| (Codec.word 8).pair (Codec.word 2)).record
    (fun c => (c.bits, c.count, c.chunkSize)) (fun t => ⟨t.1, t.2.1, t.2.2⟩) fun _ => rfl

/-! ### Bits -/

theorem and_mask_zero : (0 : UInt8) &&& mask i = 0 := UInt8.zero_and

/-- A bit that is set, and the others as they were. -/
theorem or_mask_and_mask :
    ((byte ||| mask i) &&& mask j != 0) =
      (decide (i % bitsPerByte = j % bitsPerByte) || byte &&& mask j != 0) := by
  have hmask : ∀ r s : Fin 8, ((1 <<< UInt8.ofNat r) &&& (1 <<< UInt8.ofNat s) != (0 : UInt8)) =
      decide ((r : ℕ) = s) := by decide +kernel
  have hlt (k : ℕ) : k % bitsPerByte < 8 := Nat.mod_lt k (by decide)
  have hbits : (mask i &&& mask j != 0) = decide (i % bitsPerByte = j % bitsPerByte) :=
    hmask ⟨_, hlt i⟩ ⟨_, hlt j⟩
  have hdist : (byte ||| mask i) &&& mask j = (byte &&& mask j) ||| (mask i &&& mask j) :=
    UInt8.eq_of_toBitVec_eq BitVec.and_or_distrib_right
  rw [hdist, ← hbits, Bool.eq_iff_iff]
  simp only [bne_iff_ne, ne_eq, UInt8.or_eq_zero_iff, Bool.or_eq_true]
  tauto

/-! ### What is tracked -/

/-- **The chunks in `delivered` are marked**, among `count` of the given size. -/
structure Tracks (count chunkSize : ℕ) (delivered : ℕ → Prop) (c : Chunks) : Prop where
  count_eq : c.count = count
  chunkSize_eq : c.chunkSize = chunkSize
  length : c.bits.length = countToBitfieldBytes count
  isDelivered : ∀ idx < count, c.isChunkDelivered idx = some true ↔ delivered idx

variable {count : ℕ}

theorem div_lt_countToBitfieldBytes (h : idx < count) :
    idx / bitsPerByte < countToBitfieldBytes count := by
  unfold countToBitfieldBytes divCeil bitsPerByte
  omega

/-- At the beginning nothing is. -/
theorem tracks_new (h : new count size = some c) : Tracks count size (fun _ => False) c := by
  obtain ⟨-, ⟨⟩⟩ := Option.ite_none_right_eq_some.mp h
  refine ⟨rfl, rfl, List.length_replicate, fun idx hidx => iff_of_false ?_ id⟩
  rw [isChunkDelivered, if_neg (not_le.mpr hidx),
    List.getElem?_replicate_of_lt (div_lt_countToBitfieldBytes hidx), Option.map_some,
    and_mask_zero]
  simp

variable (h : Tracks count size delivered c)

include h

/-- The offset of a chunk can be marked. -/
theorem setOffsetDelivered_eq (hsize : 0 < size) (hidx : idx < count) :
    c.setOffsetDelivered (idx * size) =
      .ok { c with bits := c.bits.modify (idx / bitsPerByte) (· ||| mask idx) } := by
  obtain ⟨rfl, rfl, hlen, -⟩ := h
  have hbyte : idx / bitsPerByte < c.bits.length := by
    rw [hlen]
    exact div_lt_countToBitfieldBytes hidx
  rw [setOffsetDelivered, if_neg hsize.ne', if_neg (not_not.mpr (Nat.mul_mod_left idx c.chunkSize)),
    Nat.mul_div_cancel idx hsize, setChunkDelivered, if_pos hidx, if_pos hbyte]

/-- **One more chunk.** -/
theorem Tracks.set (idx : ℕ) : Tracks count size (fun i => i = idx ∨ delivered i)
      { c with bits := c.bits.modify (idx / bitsPerByte) (· ||| mask idx) } := by
  refine ⟨h.count_eq, h.chunkSize_eq, (List.length_modify ..).trans h.length, fun i hi => ?_⟩
  have hold := h.isDelivered i hi
  rw [isChunkDelivered, if_neg (by rw [h.count_eq]; exact not_le.mpr hi)] at hold ⊢
  obtain ⟨byte, hbyte⟩ : ∃ byte, c.bits[i / bitsPerByte]? = some byte :=
    ⟨_, List.getElem?_eq_getElem (h.length ▸ div_lt_countToBitfieldBytes hi)⟩
  rw [List.getElem?_modify, hbyte]
  rw [hbyte, Option.map_some, Option.some_inj] at hold
  simp only [Option.map_eq_map, Option.map_some, Option.some_inj]
  split_ifs with hsame
  · rw [or_mask_and_mask, Bool.or_eq_true, hold, decide_eq_true_eq]
    have heq : idx % bitsPerByte = i % bitsPerByte ↔ i = idx := by
      rw [bitsPerByte] at hsame ⊢
      omega
    rw [heq]
  · have hne : i ≠ idx := fun h => hsame (by rw [h])
    rw [hold, or_iff_right hne]

/-- The account is complete once every chunk is marked. -/
theorem Tracks.isComplete_iff : c.isComplete ↔ ∀ idx < count, delivered idx := by
  rw [isComplete, List.isEmpty_iff, getMissingChunks, List.filter_eq_nil_iff, h.count_eq]
  simp only [List.mem_range, decide_eq_true_eq, not_not]
  exact forall₂_congr h.isDelivered

theorem Tracks.length_encode : (codec.encode c).length = structSize count := by
  have hbits : ((Codec.list 4 Codec.byte).encode c.bits).length = 4 + c.bits.length * 1 :=
    Codec.length_encode_list fun _ _ => rfl
  simp only [codec, Codec.encode_record, Codec.length_encode_pair, hbits, Codec.length_encode_word,
    h.length, structSize]
  omega

/-- A bit field that can be allocated, of chunks whose size is a 16-bit number, can be written. -/
theorem Tracks.valid (hcnt : structSize count < maxAccountAllocPerInstructionSize)
    (hsize : size < 2 ^ 16) :
    codec.valid c := by
  have hbytes : countToBitfieldBytes count < 10240 := by
    unfold structSize maxAccountAllocPerInstructionSize at hcnt
    omega
  have hlt : count < 2 ^ 17 := by
    unfold countToBitfieldBytes divCeil bitsPerByte at hbytes
    omega
  refine Codec.valid_pair.mpr ⟨Codec.valid_list.mpr ⟨?_, fun _ _ => rfl⟩,
    Codec.valid_pair.mpr ⟨decide_eq_true ?_, decide_eq_true ?_⟩⟩
  · rw [h.length]
    omega
  · change c.count < 256 ^ 8
    rw [h.count_eq]
    omega
  · change c.chunkSize < 256 ^ 2
    rw [h.chunkSize_eq]
    omega

end Chunks

end Magicblock
