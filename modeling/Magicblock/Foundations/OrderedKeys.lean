import Mathlib.Tactic

/-!
# Foundations/OrderedKeys — keys of bytes that sort like what they stand for

Numbers in big-endian bytes sort by value, and keys of fixed lengths that follow one another sort by
the first and then by the second.  An `OrderedKey` also reads back what it wrote.
-/

namespace Magicblock

open List

/-- A number in `n` bytes, the highest first. -/
def bigEndian : ℕ → ℕ → List UInt8
  | 0, _ => []
  | n + 1, value => UInt8.ofNat (value / 256 ^ n) :: bigEndian n value

def readBigEndian : List UInt8 → ℕ
  | [] => 0
  | byte :: bytes => byte.toNat * 256 ^ bytes.length + readBigEndian bytes

theorem length_bigEndian : (bigEndian n value).length = n := by
  induction n with
  | zero => rfl
  | succ n ih => rw [bigEndian, length_cons, ih]

theorem readBigEndian_bigEndian : readBigEndian (bigEndian n value) = value % 256 ^ n := by
  induction n with
  | zero => exact (Nat.mod_one value).symm
  | succ n ih =>
    rw [bigEndian, readBigEndian, ih, length_bigEndian, @Nat.mod_pow_succ value 256 n, add_comm,
      mul_comm]
    rfl

theorem readBigEndian_lt (bytes : List UInt8) : readBigEndian bytes < 256 ^ bytes.length := by
  induction bytes with
  | nil => exact Nat.one_pos
  | cons byte bytes ih =>
    have hbyte : byte.toNat + 1 ≤ 256 := byte.toNat_lt
    rw [readBigEndian, length_cons, pow_succ']
    nlinarith

variable {l m s t : List UInt8}

/-- **Bytes sort by the number they stand for.** -/
theorem lt_iff_readBigEndian_lt (h : l.length = m.length) :
    l < m ↔ readBigEndian l < readBigEndian m := by
  induction l generalizing m with
  | nil =>
    obtain rfl := length_eq_zero_iff.mp h.symm
    exact iff_of_false (not_lt_nil _) (lt_irrefl _)
  | cons a l ih =>
    obtain ⟨b, m, rfl⟩ := exists_cons_of_length_eq_add_one h.symm
    have hlen : l.length = m.length := Nat.succ.inj h
    have hl := readBigEndian_lt l
    have hm := readBigEndian_lt m
    rw [cons_lt_cons_iff, ih hlen, readBigEndian, readBigEndian, hlen, UInt8.lt_iff_toNat_lt,
      ← UInt8.toNat_inj]
    rw [hlen] at hl
    obtain hlt | heq | hgt := lt_trichotomy a.toNat b.toNat
    · exact iff_of_true (.inl hlt) (by nlinarith)
    · simp [heq]
    · exact iff_of_false (by omega) (by nlinarith)

theorem append_lt_append_iff (h : l.length = m.length) :
    l ++ s < m ++ t ↔ l < m ∨ l = m ∧ s < t := by
  induction l generalizing m with
  | nil =>
    obtain rfl := length_eq_zero_iff.mp h.symm
    simp
  | cons a l ih =>
    obtain ⟨b, m, rfl⟩ := exists_cons_of_length_eq_add_one h.symm
    simp only [cons_append, cons_lt_cons_iff, ih (Nat.succ.inj h), cons.injEq]
    tauto

/-- **An order-preserving code** in keys of `n` bytes. -/
structure OrderedKey {α : Type*} (below : α → α → Prop) (n : ℕ) (key : α → List UInt8)
    (index : List UInt8 → α) : Prop where
  length (a : α) : (key a).length = n
  index_key (a : α) : index (key a) = a
  key_index (bytes : List UInt8) : bytes.length = n → key (index bytes) = bytes
  lt_iff (a b : α) : key a < key b ↔ below a b

theorem orderedKey_word (n : ℕ) : OrderedKey (· < ·) n
    (fun value : BitVec (8 * n) => bigEndian n value.toNat)
    fun bytes => BitVec.ofNat (8 * n) (readBigEndian bytes) := by
  have hpow : 2 ^ (8 * n) = 256 ^ n := pow_mul 2 8 n
  have hread (value : BitVec (8 * n)) : readBigEndian (bigEndian n value.toNat) = value.toNat := by
    rw [readBigEndian_bigEndian, ← hpow, Nat.mod_eq_of_lt value.isLt]
  have hlen (value : ℕ) : (bigEndian n value).length = n := length_bigEndian
  refine ⟨fun _ => hlen _, fun value => ?_, fun bytes hbytes => ?_, fun a b => ?_⟩
  · rw [hread, BitVec.ofNat_toNat, BitVec.setWidth_eq]
  · have hback : readBigEndian (bigEndian n (BitVec.ofNat (8 * n) (readBigEndian bytes)).toNat) =
        readBigEndian bytes := by
      rw [hread, BitVec.toNat_ofNat, hpow, Nat.mod_eq_of_lt (hbytes ▸ readBigEndian_lt bytes)]
    have hsame := (hlen (BitVec.ofNat (8 * n) (readBigEndian bytes)).toNat).trans hbytes.symm
    refine List.le_antisymm ?_ ?_
    · rw [← List.not_lt, lt_iff_readBigEndian_lt hsame.symm, hback]
      exact lt_irrefl _
    · rw [← List.not_lt, lt_iff_readBigEndian_lt hsame, hback]
      exact lt_irrefl _
  · rw [lt_iff_readBigEndian_lt ((hlen _).trans (hlen _).symm), hread, hread, BitVec.lt_def]

namespace OrderedKey

variable {α β : Type*} {below : α → α → Prop} {below' : β → β → Prop} {key : α → List UInt8}
  {key' : β → List UInt8} {index index₂ : List UInt8 → α} {index' : List UInt8 → β}

/-- One key after the other. -/
theorem pair (h : OrderedKey below n key index) (h' : OrderedKey below' n' key' index') :
    OrderedKey (Prod.Lex below below') (n + n') (fun a => key a.1 ++ key' a.2)
      fun bytes => (index (bytes.take n), index' (bytes.drop n)) where
  length a := by rw [length_append, h.length, h'.length]
  index_key a := by
    rw [take_left' (h.length a.1), drop_left' (h.length a.1), h.index_key, h'.index_key]
  key_index bytes hbytes := by
    rw [h.key_index _ (by simp; omega), h'.key_index _ (by simp; omega), take_append_drop]
  lt_iff a b := by
    have hinj : key a.1 = key b.1 ↔ a.1 = b.1 :=
      ⟨fun heq => by rw [← h.index_key a.1, heq, h.index_key], congrArg key⟩
    rw [append_lt_append_iff ((h.length _).trans (h.length _).symm), h.lt_iff, h'.lt_iff, hinj,
      Prod.lex_def]

/-- Only how keys of the right length are read matters. -/
theorem congr (h : OrderedKey below n key index)
    (hidx : ∀ bytes, bytes.length = n → index₂ bytes = index bytes) :
    OrderedKey below n key index₂ where
  length := h.length
  index_key a := (hidx _ (h.length a)).trans (h.index_key a)
  key_index bytes hbytes := by rw [hidx bytes hbytes, h.key_index bytes hbytes]
  lt_iff := h.lt_iff

end OrderedKey

end Magicblock
