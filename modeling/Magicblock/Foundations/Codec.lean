import Mathlib.Tactic

/-!
# Foundations/Codec — encodings that read back what they wrote

A `Codec` writes the values that are valid for it and reads one value from the front of a byte
string, leaving the rest.  That it reads back what it wrote is part of it, so that encodings of
records, variants and lists, built from those of their parts, need no proof of their own.
-/

namespace Magicblock

open List

open Option (bind_some map_some)

variable {α β γ : Type}

structure Codec (α : Type) where
  valid : α → Bool
  encode : α → List UInt8
  /-- One value, and what comes after it. -/
  decode : List UInt8 → Option (α × List UInt8)
  decode_encode {a : α} (rest : List UInt8) : valid a → decode (encode a ++ rest) = some (a, rest)

namespace Codec

/-- The bytes of a value, if it can be written. -/
def serialize (c : Codec α) (a : α) : Option (List UInt8) :=
  if c.valid a then some (c.encode a) else none

def serializedSize (c : Codec α) (a : α) : Option ℕ := (c.serialize a).map List.length

variable {a : α} {c : Codec α} {n : ℕ} {b : β} {d : Codec β} {l : List α}

theorem serialize_eq_some : c.serialize a = some bytes ↔ c.valid a ∧ c.encode a = bytes := by
  simp [serialize]

theorem serializedSize_eq_some :
    c.serializedSize a = some size ↔ c.valid a ∧ (c.encode a).length = size := by
  simp [serializedSize, serialize]

/-! ### Numbers -/

/-- `n` bytes, the lowest first. -/
def wordBytes : ℕ → ℕ → List UInt8
  | 0, _ => []
  | n + 1, value => UInt8.ofNat value :: wordBytes n (value / 256)

def readWord : ℕ → List UInt8 → Option (ℕ × List UInt8)
  | 0, bytes => some (0, bytes)
  | _ + 1, [] => none
  | n + 1, byte :: bytes =>
    (readWord n bytes).map fun read => (byte.toNat + 256 * read.1, read.2)

theorem length_wordBytes (n value : ℕ) : (wordBytes n value).length = n := by
  induction n generalizing value with
  | zero => rfl
  | succ n ih => simp [wordBytes, ih]

theorem wordBytes_zero (n : ℕ) : wordBytes n 0 = replicate n 0 := by
  induction n with
  | zero => rfl
  | succ n ih => rw [wordBytes, replicate_succ, Nat.zero_div, ih]; rfl

theorem readWord_wordBytes (rest : List UInt8) (h : value < 256 ^ n) :
    readWord n (wordBytes n value ++ rest) = some (value, rest) := by
  induction n generalizing value with
  | zero =>
    obtain rfl : value = 0 := by simpa using h
    rfl
  | succ n ih =>
    have hrest : value / 256 < 256 ^ n := Nat.div_lt_of_lt_mul (by rwa [← pow_succ'])
    rw [wordBytes, cons_append, readWord, ih hrest, map_some, UInt8.toNat_ofNat']
    have hvalue : value % 2 ^ 8 + 256 * (value / 256) = value := by omega
    rw [hvalue]

/-- Numbers in `n` bytes. -/
def word (n : ℕ) : Codec ℕ where
  valid value := value < 256 ^ n
  encode := wordBytes n
  decode := readWord n
  decode_encode rest h := readWord_wordBytes rest (of_decide_eq_true h)

@[simp] theorem length_encode_word : ((word n).encode value).length = n :=
  length_wordBytes n value

/-! ### Other forms of a value -/

/-- A value written as another one, from which it can be told. -/
def contramap (c : Codec α) (f : β → α) (g : α → Option β) (h : ∀ b, g (f b) = some b) :
    Codec β where
  valid b := c.valid (f b)
  encode b := c.encode (f b)
  decode bytes := (c.decode bytes).bind fun read => (g read.1).map (·, read.2)
  decode_encode {b} rest hb := by
    rw [c.decode_encode rest hb, bind_some, h b, map_some]

/-- A record written as the tuple of its fields. -/
def record (c : Codec α) (f : β → α) (g : α → β) (h : ∀ b, g (f b) = b) : Codec β :=
  c.contramap f (fun a => some (g a)) fun b => congrArg some (h b)

@[simp] theorem encode_record : (c.record f g h).encode b = c.encode (f b) := rfl

/-- The values that pass a check, which is made on writing and on reading. -/
def restrict (c : Codec α) (p : α → Bool) : Codec α where
  valid a := p a && c.valid a
  encode := c.encode
  decode bytes := (c.decode bytes).filter fun read => p read.1
  decode_encode {a} rest ha := by
    obtain ⟨hp, ha⟩ := (Bool.and_eq_true ..).mp ha
    rw [c.decode_encode rest ha]
    exact Option.filter_some_pos hp

def byte : Codec UInt8 where
  valid _ := true
  encode b := [b]
  decode
    | [] => none
    | b :: rest => some (b, rest)
  decode_encode _ _ := rfl

/-- A flag, as the number 0 or 1 in one byte. -/
def bool : Codec Bool :=
  (word 1).contramap Bool.toNat (fun
    | 0 => some false
    | 1 => some true
    | _ => none) fun b => by cases b <;> rfl

/-- `n` bytes that have no structure. -/
def bits (n : ℕ) : Codec (BitVec (8 * n)) :=
  (word n).record BitVec.toNat (BitVec.ofNat (8 * n)) fun b => by
    rw [BitVec.ofNat_toNat, BitVec.setWidth_eq]

theorem valid_bits {b : BitVec (8 * n)} : (bits n).valid b := by
  change decide (b.toNat < 256 ^ n) = true
  rw [decide_eq_true_eq, show 256 = 2 ^ 8 from rfl, ← pow_mul]
  exact b.isLt

@[simp]
theorem length_encode_bits {b : BitVec (8 * n)} : ((bits n).encode b).length = n :=
  length_wordBytes n _

/-! ### Records, variants, lists -/

def empty : Codec Unit where
  valid _ := true
  encode _ := []
  decode bytes := some ((), bytes)
  decode_encode _ _ := rfl

/-- One value after another. -/
def pair (c : Codec α) (d : Codec β) : Codec (α × β) where
  valid p := c.valid p.1 && d.valid p.2
  encode p := c.encode p.1 ++ d.encode p.2
  decode bytes := (c.decode bytes).bind fun first =>
    (d.decode first.2).map fun second => ((first.1, second.1), second.2)
  decode_encode {p} rest hp := by
    obtain ⟨ha, hb⟩ := (Bool.and_eq_true ..).mp hp
    rw [List.append_assoc, c.decode_encode _ ha, bind_some, d.decode_encode _ hb, map_some]

@[simp] theorem valid_pair : (c.pair d).valid p ↔ c.valid p.1 ∧ d.valid p.2 :=
  iff_of_eq (Bool.and_eq_true ..)

theorem length_encode_pair :
    ((c.pair d).encode p).length = (c.encode p.1).length + (d.encode p.2).length :=
  length_append

/-- One of two kinds of values, told apart by a tag in `n` bytes. -/
def either (n : ℕ+) (c : Codec α) (d : Codec β) : Codec (α ⊕ β) where
  valid := Sum.elim c.valid d.valid
  encode := Sum.elim (fun a => wordBytes n 0 ++ c.encode a) fun b => wordBytes n 1 ++ d.encode b
  decode bytes := (readWord n bytes).bind fun tag =>
    match tag.1 with
    | 0 => (c.decode tag.2).map fun read => (.inl read.1, read.2)
    | 1 => (d.decode tag.2).map fun read => (.inr read.1, read.2)
    | _ => none
  decode_encode {x} rest hx := by
    have hpos (k : ℕ) (hk : k < 256) : k < 256 ^ (n : ℕ) :=
      hk.trans_le (Nat.le_self_pow n.ne_zero 256)
    cases x with
    | inl a =>
      rw [Sum.elim_inl, List.append_assoc, readWord_wordBytes _ (hpos 0 (by decide))]
      exact congrArg (Option.map _) (c.decode_encode rest hx)
    | inr b =>
      rw [Sum.elim_inr, List.append_assoc, readWord_wordBytes _ (hpos 1 (by decide))]
      exact congrArg (Option.map _) (d.decode_encode rest hx)

theorem length_encode_inl {n : ℕ+} :
    ((either n c d).encode (.inl a)).length = n + (c.encode a).length := by
  change (wordBytes n 0 ++ c.encode a).length = _
  rw [length_append, length_wordBytes]

theorem length_encode_inr {n : ℕ+} :
    ((either n c d).encode (.inr b)).length = n + (d.encode b).length := by
  change (wordBytes n 1 ++ d.encode b).length = _
  rw [length_append, length_wordBytes]

/-- `Option`, as a tag and the value. -/
def option (n : ℕ+) (c : Codec α) : Codec (Option α) :=
  (either n empty c).record (fun x => x.elim (.inl ()) .inr) (Sum.elim (fun _ => none) some)
    fun x => by cases x <;> rfl

theorem valid_of_mem_option {n : ℕ+} {x : Option α} (h : (option n c).valid x) (ha : a ∈ x) :
    c.valid a := by
  obtain rfl := Option.mem_def.mp ha
  exact h

/-- The next `n` values. -/
def decodeMany (c : Codec α) : ℕ → List UInt8 → Option (List α × List UInt8)
  | 0, bytes => some ([], bytes)
  | n + 1, bytes => (c.decode bytes).bind fun first =>
    (decodeMany c n first.2).map fun others => (first.1 :: others.1, others.2)

theorem decodeMany_flatMap (h : l.all c.valid) :
    c.decodeMany l.length (l.flatMap c.encode ++ rest) = some (l, rest) := by
  induction l with
  | nil => rfl
  | cons a l ih =>
    obtain ⟨ha, hl⟩ := (Bool.and_eq_true ..).mp ((all_cons ..).symm.trans h)
    rw [length_cons, flatMap_cons, append_assoc, decodeMany, c.decode_encode _ ha,
      bind_some, ih hl, map_some]

/-- A list after its length in `n` bytes. -/
def list (n : ℕ) (c : Codec α) : Codec (List α) where
  valid l := l.length < 256 ^ n && l.all c.valid
  encode l := wordBytes n l.length ++ l.flatMap c.encode
  decode bytes := (readWord n bytes).bind fun length => c.decodeMany length.1 length.2
  decode_encode {l} rest hl := by
    obtain ⟨hlen, hall⟩ := (Bool.and_eq_true ..).mp hl
    rw [List.append_assoc, readWord_wordBytes _ (of_decide_eq_true hlen)]
    exact decodeMany_flatMap hall

theorem valid_list : (list n c).valid l ↔ l.length < 256 ^ n ∧ ∀ a ∈ l, c.valid a := by
  rw [show (list n c).valid l = (decide (l.length < 256 ^ n) && l.all c.valid) from rfl,
    Bool.and_eq_true, decide_eq_true_eq, all_eq_true]

/-- A list of values of one size. -/
theorem length_encode_list (h : ∀ a ∈ l, (c.encode a).length = k) :
    ((list n c).encode l).length = n + l.length * k := by
  change (wordBytes n l.length ++ l.flatMap c.encode).length = _
  rw [length_append, length_wordBytes, length_flatMap, map_congr_left h,
    map_const', sum_replicate, smul_eq_mul]

end Codec

end Magicblock
