import Magicblock.Buffer.Delivery

/-!
# Buffer/Reallocs — the transactions that allocate a buffer

`Init` allocates what one instruction can, and each `ReallocBuffer` more of it.  They are cut into
groups, one for each transaction, that keep to a number of instructions and to a size of their data.
-/

namespace Magicblock

/-- The most instructions of one transaction. -/
def maxInstructionLength : ℕ := 11

def ixInitSize : ℕ := 32 + 8 + 8 + 8 + 1 + 1 + 8 + 2 + 6

def ixReallocSize : ℕ := 32 + 8 + 8 + 1 + 2 + 6

variable {α : Type*}

/-- Moves reallocations to the chunk while there is room for one.  The vector of them was reversed
and is popped from its end, so here it is the list as given; sizes stay far below `2 ^ 16`. -/
def addReallocs : List α → List α → ℕ → List α × List α
  | chunk, [], _ => (chunk, [])
  | chunk, realloc :: reallocs, totalSize =>
    if totalSize + ixReallocSize < maxInstructionDataSize ∧ chunk.length < maxInstructionLength then
      addReallocs (chunk ++ [realloc]) reallocs (totalSize + ixReallocSize)
    else (chunk, realloc :: reallocs)

/-- **What is moved**: the first of the reallocations, within both limits. -/
structure Added (chunk reallocs : List α) (totalSize : ℕ) (out : List α × List α) : Prop where
  taken : ∃ taken, out.1 = chunk ++ taken ∧ reallocs = taken ++ out.2 ∧
    (totalSize < maxInstructionDataSize →
      totalSize + taken.length * ixReallocSize < maxInstructionDataSize)
  length_le : chunk.length ≤ maxInstructionLength → out.1.length ≤ maxInstructionLength

theorem added_addReallocs (chunk res : List α) (totalSize : ℕ) :
    Added chunk res totalSize (addReallocs chunk res totalSize) := by
  induction res generalizing chunk totalSize with
  | nil => exact ⟨⟨[], by simp [addReallocs]⟩, id⟩
  | cons realloc res ih =>
    rw [addReallocs]
    split_ifs with hroom
    · obtain ⟨⟨taken, hout, hrest, hsize⟩, hlen⟩ :=
        ih (chunk ++ [realloc]) (totalSize + ixReallocSize)
      refine ⟨⟨realloc :: taken, by simp [hout], by simp [← hrest], fun _ => ?_⟩, fun _ => ?_⟩
      · have hsize := hsize hroom.1
        rw [List.length_cons, Nat.succ_mul]
        omega
      · exact hlen (by simpa using hroom.2)
    · exact ⟨⟨[], by simp⟩, id⟩

theorem length_addReallocs_le (realloc : α) (res : List α) :
    (addReallocs [realloc] res ixReallocSize).2.length ≤ res.length := by
  obtain ⟨taken, -, hrest, -⟩ := (added_addReallocs [realloc] res ixReallocSize).taken
  have hlen := congrArg List.length hrest
  rw [List.length_append] at hlen
  omega

/-- A transaction at a time, until nothing is left. -/
def reallocChunks : List α → List (List α)
  | [] => []
  | realloc :: reallocs =>
    have := length_addReallocs_le realloc reallocs
    (addReallocs [realloc] reallocs ixReallocSize).1 ::
      reallocChunks (addReallocs [realloc] reallocs ixReallocSize).2
termination_by reallocs => reallocs.length

/-- The first chunk starts with the initialisation, if there is one. -/
def chunkReallocIxs (reallocs : List α) : Option α → List (List α)
  | some initIx =>
    (addReallocs [initIx] reallocs ixInitSize).1 ::
      reallocChunks (addReallocs [initIx] reallocs ixInitSize).2
  | none => reallocChunks reallocs

/-- The chunks of reallocations alone are the reallocations, and each is within limits. -/
theorem reallocChunks_spec :
    (reallocChunks res).flatten = res ∧
      ∀ group ∈ reallocChunks res, group ≠ [] ∧ group.length ≤ maxInstructionLength ∧
        group.length * ixReallocSize < maxInstructionDataSize := by
  fun_induction reallocChunks res with
  | case1 => exact ⟨rfl, nofun⟩
  | case2 realloc res _ ih =>
    obtain ⟨⟨taken, hout, hrest, hsize⟩, hlen⟩ :=
      added_addReallocs [realloc] res ixReallocSize
    rw [hout] at hlen ⊢
    have hone : [realloc].length ≤ maxInstructionLength := Nat.le_add_left 1 10
    refine ⟨?_, List.forall_mem_cons.mpr ⟨⟨nofun, hlen hone, ?_⟩, ih.2⟩⟩
    · rw [List.flatten_cons, ih.1, List.append_assoc, ← hrest]
      rfl
    · rw [List.length_append, List.length_singleton, Nat.add_mul, Nat.one_mul]
      exact hsize (by decide)

/-- **The instructions are cut into transactions and nothing else**: the chunks are not empty, one
after another they are the initialisation and the reallocations in order, and each keeps to the
number of instructions and to the size that applies to it. -/
theorem chunkReallocIxs_partition (res : List α) (initIx : α) :
    (chunkReallocIxs res (some initIx)).flatten = initIx :: res ∧
      (∀ group ∈ chunkReallocIxs res (some initIx),
        group ≠ [] ∧ group.length ≤ maxInstructionLength) ∧
      ∃ first rest, chunkReallocIxs res (some initIx) = (initIx :: first) :: rest ∧
        ixInitSize + first.length * ixReallocSize < maxInstructionDataSize ∧
        ∀ group ∈ rest, group.length * ixReallocSize < maxInstructionDataSize := by
  obtain ⟨⟨first, hout, hrest, hsize⟩, hlen⟩ := added_addReallocs [initIx] res ixInitSize
  obtain ⟨hflat, hgros⟩ := reallocChunks_spec
  rw [chunkReallocIxs]
  rw [hout] at hlen ⊢
  have hone : [initIx].length ≤ maxInstructionLength := Nat.le_add_left 1 10
  refine ⟨?_, List.forall_mem_cons.mpr ⟨⟨nofun, hlen hone⟩, fun group hgroup => ?_⟩,
    first, _, rfl, hsize (by decide), fun group hgroup => (hgros group hgroup).2.2⟩
  · rw [List.flatten_cons, hflat, List.append_assoc, ← hrest]
    rfl
  · exact ⟨(hgros group hgroup).1, (hgros group hgroup).2.1⟩

end Magicblock
