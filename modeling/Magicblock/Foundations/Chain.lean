import Mathlib.Tactic

/-!
# Foundations/Chain — a growing chain with a confirmed and a finalized prefix

Blocks carry a hash and the transactions that landed in them.  A transaction names a recent hash:
it can land only in a block that has this hash among the `age` hashes before it, and it lands at
most once.  A `Moment` is such a chain with two prefixes of it, the confirmed one and the finalized
one; all three only grow.

The point of the module is `landed_lt_of_expired`: a hash that has left the window of some prefix
never comes back, so its transactions are all inside that prefix already.
-/

open scoped List

namespace Magicblock

/-- A transaction in a block, with its outcome. -/
structure Landed (τ ε : Type) where
  id : τ
  outcome : Except ε Unit

structure ChainBlock (η τ ε : Type) where
  hash : η
  landed : List (Landed τ ε)

variable {η τ ε : Type}

/-- The hashes of the last `age` blocks. -/
def recentHashes (age : ℕ) (blocks : List (ChainBlock η τ ε)) : List η :=
  (blocks.map (·.hash)).drop (blocks.length - age)

theorem mem_recentHashes {blocks : List (ChainBlock η τ ε)} :
    h ∈ recentHashes age blocks ↔
      ∃ i, blocks.length ≤ i + age ∧ (blocks.map (·.hash))[i]? = some h := by
  rw [recentHashes, List.mem_iff_getElem?]
  constructor
  · rintro ⟨i, hi⟩
    rw [List.getElem?_drop] at hi
    exact ⟨_, by omega, hi⟩
  · rintro ⟨i, hlen, hi⟩
    refine ⟨i - (blocks.length - age), ?_⟩
    rw [List.getElem?_drop, Nat.add_sub_cancel' (by omega)]
    exact hi

/-- **A well-formed chain** — `hashOf` is the recent hash that a transaction names. -/
structure ValidChain (age : ℕ) (hashOf : τ → η) (blocks : List (ChainBlock η τ ε)) : Prop where
  hashes : (blocks.map (·.hash)).Nodup
  once : ((blocks.flatMap (·.landed)).map (·.id)).Nodup
  recent {p : ℕ} {b : ChainBlock η τ ε} (hb : blocks[p]? = some b) {t : Landed τ ε}
    (ht : t ∈ b.landed) : hashOf t.id ∈ recentHashes age (blocks.take p)

/-- A transaction landed in one of the blocks, with this outcome. -/
def LandedIn (blocks : List (ChainBlock η τ ε)) (id : τ) (outcome : Except ε Unit) : Prop :=
  ∃ b ∈ blocks, ∃ t ∈ b.landed, t.id = id ∧ t.outcome = outcome

theorem LandedIn.mono {id : τ} (hsub : l₁ ⊆ l₂) (h : LandedIn l₁ id o) : LandedIn l₂ id o := by
  obtain ⟨b, hb, ht⟩ := h
  exact ⟨b, hsub hb, ht⟩

namespace ValidChain

/-- A transaction has one outcome. -/
theorem outcome_unique (h : ValidChain age hashOf blocks) {id : τ}
    (h₁ : LandedIn blocks id o₁) (h₂ : LandedIn blocks id o₂) : o₁ = o₂ := by
  obtain ⟨b, hb, t, ht, rfl, rfl⟩ := h₁
  obtain ⟨c, hc, u, hu, hid, rfl⟩ := h₂
  have htmem : t ∈ blocks.flatMap (·.landed) := List.mem_flatMap.mpr ⟨b, hb, ht⟩
  have humem : u ∈ blocks.flatMap (·.landed) := List.mem_flatMap.mpr ⟨c, hc, hu⟩
  rw [List.inj_on_of_nodup_map h.once htmem humem hid.symm]

/-- A transaction is in one block. -/
theorem position_unique (h : ValidChain age hashOf blocks) {p q : ℕ} {b c : ChainBlock η τ ε}
    (hb : blocks[p]? = some b) (hc : blocks[q]? = some c) (ht : t ∈ b.landed)
    (hu : u ∈ c.landed) (hid : t.id = u.id) : p = q := by
  have hdisj := (List.nodup_flatMap.mp (List.map_flatMap ▸ h.once)).2
  have key : ∀ {p q : ℕ} {b c : ChainBlock η τ ε}, blocks[p]? = some b → blocks[q]? = some c →
      p < q → List.Disjoint (b.landed.map (·.id)) (c.landed.map (·.id)) := by
    intro p q b c hb hc hpq
    obtain ⟨hp, rfl⟩ := List.getElem?_eq_some_iff.mp hb
    obtain ⟨hq, rfl⟩ := List.getElem?_eq_some_iff.mp hc
    exact List.pairwise_iff_getElem.mp hdisj p q hp hq hpq
  have htid := List.mem_map_of_mem (f := Landed.id) ht
  have huid := List.mem_map_of_mem (f := Landed.id) hu
  rcases lt_trichotomy p q with hpq | hpq | hpq
  · exact absurd (hid ▸ huid) (key hb hc hpq htid)
  · exact hpq
  · exact absurd (hid ▸ htid) (key hc hb hpq huid)

/-- **An expired hash stays expired**, and what names it landed before: if `hashOf id` is one of
the first `n` hashes but no longer recent after `n` blocks, then `id` is not in block `n` or
later. -/
theorem landed_lt_of_expired (h : ValidChain age hashOf blocks) {id : τ}
    (hiss : hashOf id ∈ (blocks.take n).map (·.hash))
    (hexp : hashOf id ∉ recentHashes age (blocks.take n)) {b : ChainBlock η τ ε}
    (hb : blocks[p]? = some b) (ht : t ∈ b.landed) (hid : t.id = id) :
    p < n := by
  subst hid
  by_contra hnp
  have hp : p < blocks.length := (List.getElem?_eq_some_iff.mp hb).1
  obtain ⟨i, hi⟩ := List.mem_iff_getElem?.mp hiss
  obtain ⟨j, hj, hjhash⟩ := mem_recentHashes.mp (h.recent hb ht)
  -- the two occurrences of the hash are one, so the window of block `n` reaches it too
  have htake : ∀ m k, ((blocks.take m).map (·.hash))[k]? = some (hashOf t.id) →
      (blocks.map (·.hash))[k]? = some (hashOf t.id) ∧ k < m := fun m k hk => by
    rw [List.map_take, List.getElem?_take] at hk
    split at hk
    · exact ⟨hk, ‹_›⟩
    · cases hk
  obtain ⟨hi', hin⟩ := htake n i hi
  obtain ⟨hj', -⟩ := htake p j hjhash
  have hlt : i < (blocks.map (·.hash)).length := (List.getElem?_eq_some_iff.mp hi').1
  have hij : i = j := (List.getElem?_inj hlt h.hashes).mp (hi'.trans hj'.symm)
  refine hexp (mem_recentHashes.mpr ⟨i, ?_, hi⟩)
  rw [List.length_take] at hj ⊢
  omega

end ValidChain

/-! ### Moments -/

/-- **A chain at some moment**, with its confirmed and its finalized prefix. -/
structure Moment (age : ℕ) (hashOf : τ → η) (ε : Type) where
  blocks : List (ChainBlock η τ ε)
  confirmed : ℕ
  finalized : ℕ
  valid : ValidChain age hashOf blocks
  confirmed_le : confirmed ≤ blocks.length
  finalized_le : finalized ≤ confirmed

namespace Moment

variable {age : ℕ} {hashOf : τ → η}

def confirmedBlocks (m : Moment age hashOf ε) : List (ChainBlock η τ ε) :=
  m.blocks.take m.confirmed

def finalizedBlocks (m : Moment age hashOf ε) : List (ChainBlock η τ ε) :=
  m.blocks.take m.finalized

/-- **The chain grew** from one moment to another. -/
structure Grows (m m' : Moment age hashOf ε) : Prop where
  blocks : m.blocks <+: m'.blocks
  confirmed : m.confirmed ≤ m'.confirmed
  finalized : m.finalized ≤ m'.finalized

theorem Grows.refl (m : Moment age hashOf ε) : m.Grows m :=
  ⟨List.prefix_rfl, le_rfl, le_rfl⟩

theorem Grows.trans {m m' m'' : Moment age hashOf ε} (h : m.Grows m') (h' : m'.Grows m'') :
    m.Grows m'' :=
  ⟨h.blocks.trans h'.blocks, h.confirmed.trans h'.confirmed, h.finalized.trans h'.finalized⟩

/-- Prefixes that both moments have are the same. -/
theorem Grows.take_eq {m m' : Moment age hashOf ε} (h : m.Grows m')
    (hn : n ≤ m.blocks.length) : m'.blocks.take n = m.blocks.take n := by
  obtain ⟨rest, hrest⟩ := h.blocks
  rw [← hrest, List.take_append_of_le_length hn]

/-- **The transaction is not in the chain as a success and never will be.** -/
def NeverSucceeds (m : Moment age hashOf ε) (id : τ) : Prop :=
  ∀ m' : Moment age hashOf ε, m.Grows m' → ¬ LandedIn m'.blocks id (.ok ())

/-- Landed in a later chain with an expired hash is landed already. -/
theorem landed_of_expired {m m' : Moment age hashOf ε} (hgrow : m.Grows m') {id : τ}
    (hiss : hashOf id ∈ m.confirmedBlocks.map (·.hash))
    (hexp : hashOf id ∉ recentHashes age m.confirmedBlocks)
    (h : LandedIn m'.blocks id o) : LandedIn m.blocks id o := by
  obtain ⟨b, hb, t, ht, hid, ho⟩ := h
  obtain ⟨p, hp⟩ := List.mem_iff_getElem?.mp hb
  have hcut : m'.blocks.take m.confirmed = m.confirmedBlocks := hgrow.take_eq m.confirmed_le
  have hlt := m'.valid.landed_lt_of_expired (hcut ▸ hiss) (hcut ▸ hexp) hp ht hid
  refine ⟨b, ?_, t, ht, hid, ho⟩
  have hb : b ∈ m'.blocks.take m.confirmed := List.mem_of_getElem? (i := p) (by
    rw [List.getElem?_take, if_pos hlt]
    exact hp)
  exact List.mem_of_mem_take (hcut ▸ hb)

end Moment

end Magicblock
