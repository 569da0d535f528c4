import Magicblock.Buffer.Delivery

/-!
# Buffer/ChunkSet — the bit field is a set of chunks

After any calls, `Chunks` stands for the set of the indices that were set: `Tracks` holds with it,
and completeness, the missing chunks and the length of the encoding are read off `Tracks`.
-/

namespace Magicblock

/-- The calls that mark a chunk, by its offset or its index. -/
inductive ChunksCall where
  | offset (offset : ℕ)
  | chunk (idx : ℕ)

/-- The chunk that is marked; `none` for misaligned offsets and chunks out of range. -/
def ChunksCall.index (count size : ℕ) : ChunksCall → Option ℕ
  | offset n => if 0 < size ∧ n % size = 0 ∧ n / size < count then some (n / size) else none
  | chunk idx => if idx < count then some idx else none

namespace Chunks

def call (c : Chunks) : ChunksCall → Except ChunksError Chunks
  | .offset offset => c.setOffsetDelivered offset
  | .chunk idx => c.setChunkDelivered idx

/-- The bit field after a call. -/
def afterCall (c : Chunks) (call : ChunksCall) : Chunks := (c.call call).toOption.getD c

variable {count size : ℕ} {c : Chunks} {call : ChunksCall}

theorem index_lt (h : call.index count size = some idx) : idx < count := by
  cases call <;> grind [ChunksCall.index]

/-- A call marks the chunk that it names. -/
theorem Tracks.toOption_call (h : Tracks count size delivered c) :
    (c.call call).toOption = (call.index count size).map fun idx =>
      { c with bits := c.bits.modify (idx / bitsPerByte) (· ||| mask idx) } := by
  have hset (idx : ℕ) : (c.setChunkDelivered idx).toOption = if idx < count then
      some { c with bits := c.bits.modify (idx / bitsPerByte) (· ||| mask idx) } else none := by
    rw [setChunkDelivered, h.count_eq, h.length]
    split_ifs with hidx hbyte
    · rfl
    · exact absurd (div_lt_countToBitfieldBytes hidx) hbyte
    · rfl
  have hsize := h.chunkSize_eq
  cases call <;> grind [Chunks.call, ChunksCall.index, setOffsetDelivered, Except.toOption]

theorem Tracks.afterCall (h : Tracks count size delivered c) (call : ChunksCall) :
    Tracks count size (fun i => call.index count size = some i ∨ delivered i)
      (c.afterCall call) := by
  rw [Chunks.afterCall, h.toOption_call]
  cases call.index count size with
  | none => simpa using h
  | some idx => simpa [eq_comm] using h.set idx

/-- **What the calls named is marked.** -/
theorem Tracks.calls (h : Tracks count size delivered c) (calls : List ChunksCall) :
    Tracks count size (fun i => i ∈ calls.filterMap (·.index count size) ∨ delivered i)
      (calls.foldl Chunks.afterCall c) := by
  induction calls generalizing c delivered with
  | nil => simpa using h
  | cons call calls ih =>
    rw [List.foldl_cons]
    convert ih (h.afterCall call) using 1
    ext i
    simp only [List.mem_filterMap, List.mem_cons, exists_eq_or_imp]
    exact or_assoc.trans or_left_comm

/-- **The bit field refines a set.**  After any calls the chunks that some call named are delivered,
and no others; the field is complete if those are all chunks; what is missing is the complement, and
iterating over it, where the sizes fit and offsets do not overflow, gives the bytes of its chunks;
calls that name no chunk are rejected and change nothing; the encoding has the length computed in
advance. -/
theorem chunks_refine_set (count size : ℕ) (c : Chunks) (hnew : new count size = some c)
    (calls : List ChunksCall) :
    let after := calls.foldl Chunks.afterCall c
    let set := calls.filterMap (·.index count size)
    (∀ i, after.isChunkDelivered i = some true ↔ i ∈ set) ∧
    (after.isComplete ↔ ∀ i, i ∈ set ↔ i < count) ∧
    (∀ call, ((after.call call).toOption = none ↔ call.index count size = none) ∧
      (call.index count size = none → after.afterCall call = after)) ∧
    after.getMissingChunks = (List.range count).filter (· ∉ set) ∧
    (∀ chunkSize (data : List UInt8), data.length ≤ count * chunkSize →
      count * chunkSize < data.length + chunkSize → data.length + chunkSize ≤ 2 ^ 32 →
      after.iterMissing chunkSize data = some (((List.range count).filter (· ∉ set)).map
        fun idx => ⟨idx * chunkSize, (data.drop (idx * chunkSize)).take chunkSize⟩)) ∧
    (codec.encode after).length = structSize count ∧ after.serializedSize = structSize count := by
  intro after set
  have h : Tracks count size (· ∈ set) after := by
    simpa only [or_false] using (tracks_new hnew).calls calls
  have hlt (i) (hi : i ∈ set) : i < count := by
    obtain ⟨call, -, hidx⟩ := List.mem_filterMap.mp hi
    exact index_lt hidx
  have hmiss : after.getMissingChunks = (List.range count).filter (· ∉ set) := by
    rw [getMissingChunks, h.count_eq]
    refine List.filter_congr fun i hi => decide_eq_decide.mpr (not_congr ?_)
    exact h.isDelivered i (List.mem_range.mp hi)
  refine ⟨fun i => ?_, ?_, fun call => ⟨?_, fun hnone => ?_⟩, hmiss,
    fun chunkSize data hle hlt hsize => ?_, h.length_encode, congrArg structSize h.count_eq⟩
  · by_cases hi : i < count
    · exact h.isDelivered i hi
    · refine iff_of_false ?_ fun hmem => hi (hlt i hmem)
      simp [isChunkDelivered, h.count_eq, not_lt.mp hi]
  · rw [h.isComplete_iff]
    exact ⟨fun hall i => ⟨hlt i, hall i⟩, fun hall i => (hall i).mpr⟩
  · rw [h.toOption_call, Option.map_eq_none_iff]
  · rw [Chunks.afterCall, h.toOption_call, hnone]
    rfl
  · have hrange : (List.range count).filter (· ∈ after.getMissingChunks) =
        (List.range count).filter (· ∉ set) := by
      refine List.filter_congr fun i hi => ?_
      simp [hmiss, List.mem_range.mp hi]
    rw [← h.count_eq] at hle hlt
    rw [iterMissing, iterFiltered_eq hle hlt hsize, h.count_eq, hrange]

/-- Ten bytes in three chunks, of which the second was delivered. -/
theorem chunks_refine_set_three : ∃ c, new 3 4 = some c ∧
    (c.afterCall (.offset 4)).iterMissing 4 [0, 1, 2, 3, 4, 5, 6, 7, 8, 9] =
      some [⟨0, [0, 1, 2, 3]⟩, ⟨8, [8, 9]⟩] := by
  refine ⟨⟨[0], 3, 4⟩, by decide, ?_⟩
  obtain ⟨-, -, -, -, hiter, -⟩ := chunks_refine_set 3 4 ⟨[0], 3, 4⟩ (by decide) [.offset 4]
  exact hiter 4 _ (by decide) (by decide) (by decide)

end Chunks

end Magicblock
