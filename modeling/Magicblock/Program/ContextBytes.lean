import Magicblock.Foundations.Lists
import Magicblock.Intent.Wire
import Magicblock.Program.Runtime

/-!
# Program/ContextBytes — the account that holds `MagicContext`

The account begins with the encoding of the context and is filled up with zeros.  An account of
zeros is the default context, and two shortcuts read the first two words without decoding the rest.

* `deserialize_of_writeTo` — what is written is read back, the context of zeros included;
* `scheduledIntentsLen_of_writeTo` — the shortcut for the number of intents knows it of every
  context but the default one.
-/

namespace Magicblock

open Codec List

/-- **`magic_context_config()`**: the widths of `wincode`, and which contexts pass its limit on
preallocation. -/
structure ContextConfig extends Wincode where
  withinPreallocation : MagicContext → Bool

def isZeroed (buf : List UInt8) : Bool :=
  (buf.toChunks 8).all fun chunk => chunk == List.replicate chunk.length 0

/-- The `u64` at an offset, the lowest byte first. -/
def readU64At (data : List UInt8) (offset : ℕ) : Option ℕ :=
  (readWord 8 (data.drop offset)).map Prod.fst

namespace MagicContext

def codec (config : ContextConfig) : Codec MagicContext :=
  ((Wincode.u64.pair (list config.lengthWidth config.scheduledIntentBundle)).contramap
      (fun ctx => (ctx.intentId, ctx.scheduledBaseIntents))
      (fun fields =>
        if h : fields.1 < 2 ^ 64 then some ⟨fields.1, fields.2, h⟩ else none)
      fun ctx => dif_pos ctx.intentId_lt).restrict
    config.withinPreallocation

def deserialize (config : ContextConfig) (data : List UInt8) : Option MagicContext :=
  if data.isEmpty || isZeroed data then some default
  else ((codec config).decode data).map Prod.fst

/-- **`write_to`**: the answer, and the account data it leaves. -/
def writeTo (config : ContextConfig) (ctx : MagicContext) (data : List UInt8) :
    Except InstructionError Unit × List UInt8 :=
  match (codec config).serializedSize ctx with
  | none => (.error .genericError, data)
  | some size =>
    if size > data.length then (.error .accountDataTooSmall, data)
    else
      let zeros := List.replicate data.length 0
      match (codec config).serialize ctx with
      | none => (.error .genericError, zeros)
      | some bytes => (.ok (), bytes ++ zeros.drop bytes.length)

/-- `MagicContext::intent_id(data)`. -/
def intentIdOf (data : List UInt8) : Option ℕ := readU64At data 0

def scheduledIntentsLen (data : List UInt8) : Option ℕ :=
  if isZeroed data then none else readU64At data 8

def hasScheduledIntents (data : List UInt8) : Bool :=
  (scheduledIntentsLen data).getD 0 != 0

/-- The context can be written, and there is room for it. -/
def FitsIn (config : ContextConfig) (ctx : MagicContext) (data : List UInt8) : Prop :=
  ∃ size ∈ (codec config).serializedSize ctx, size ≤ data.length

end MagicContext

/-! ### Zeros -/

theorem isZeroed_iff : isZeroed buf ↔ buf = replicate buf.length 0 := by
  rw [isZeroed, all_eq_true]
  constructor
  · intro h
    refine eq_replicate_length.mpr fun b hb => ?_
    rw [← flatten_toChunks 8 buf] at hb
    obtain ⟨chunk, hchk, hb⟩ := mem_flatten.mp hb
    exact eq_replicate_length.mp (beq_iff_eq.mp (h chunk hchk)) b hb
  · intro h chunk hchk
    refine beq_iff_eq.mpr (eq_replicate_length.mpr fun b hb => ?_)
    refine eq_replicate_length.mp h b ?_
    rw [← flatten_toChunks 8 buf]
    exact mem_flatten.mpr ⟨chunk, hchk, hb⟩

namespace MagicContext

variable {cfg : ContextConfig} {ctx : MagicContext} {data data' : List UInt8}

/-- The first two words and the intents. -/
theorem encode_codec : (codec cfg).encode ctx =
    wordBytes 8 ctx.intentId ++ (wordBytes cfg.lengthWidth ctx.scheduledBaseIntents.length ++
      ctx.scheduledBaseIntents.flatMap cfg.scheduledIntentBundle.encode) := rfl

/-! ### Writing -/

/-- **A write leaves the encoding and zeros, or changes nothing.** -/
theorem writeTo_cases :
    (ctx.FitsIn cfg data ∧ ctx.writeTo cfg data = (.ok (), (codec cfg).encode ctx ++
      replicate (data.length - ((codec cfg).encode ctx).length) 0)) ∨
    (¬ ctx.FitsIn cfg data ∧ ∃ e, ctx.writeTo cfg data = (.error e, data)) := by
  rcases hsize : (codec cfg).serializedSize ctx with _ | size
  · refine .inr ⟨fun ⟨size, h, _⟩ => ?_, .genericError, by rw [writeTo, hsize]⟩
    cases hsize.symm.trans h
  obtain ⟨hval, hlen⟩ := serializedSize_eq_some.mp hsize
  by_cases hroom : size > data.length
  · refine .inr ⟨fun ⟨size', h, hfits⟩ => ?_, .accountDataTooSmall, ?_⟩
    · cases hsize.symm.trans h
      exact absurd hfits (not_le_of_gt hroom)
    · simp [writeTo, hsize, if_pos hroom]
  · refine .inl ⟨⟨size, hsize, not_lt.mp hroom⟩, ?_⟩
    simp [writeTo, hsize, if_neg hroom, serialize_eq_some.mpr ⟨hval, rfl⟩]

/-- What a successful write leaves. -/
theorem eq_encode_of_writeTo (h : ctx.writeTo cfg data = (.ok (), data')) :
    (codec cfg).valid ctx ∧ ∃ n, data' = (codec cfg).encode ctx ++ replicate n 0 := by
  rcases writeTo_cases with ⟨⟨size, hsize, -⟩, heq⟩ | ⟨-, e, heq⟩
  · obtain rfl := (Prod.mk.inj (h.symm.trans heq)).2
    exact ⟨(serializedSize_eq_some.mp hsize).1, _, rfl⟩
  · cases (Prod.mk.inj (h.symm.trans heq)).1

/-! ### Reading -/

section Reading

theorem readU64At_zero (rest : List UInt8) :
    readU64At ((codec cfg).encode ctx ++ rest) 0 = some ctx.intentId := by
  have hid : ctx.intentId < 256 ^ 8 := ctx.intentId_lt
  rw [readU64At, drop_zero, encode_codec, append_assoc, readWord_wordBytes _ hid]
  rfl

variable (hwidth : cfg.lengthWidth = 8)
include hwidth

/-- The lengths fit into their words. -/
theorem length_lt_of_valid (h : (codec cfg).valid ctx) :
    ctx.scheduledBaseIntents.length < 256 ^ 8 := by
  obtain ⟨-, hfields⟩ := (Bool.and_eq_true ..).mp h
  obtain ⟨-, hints⟩ := valid_pair.mp hfields
  exact hwidth ▸ (valid_list.mp hints).1

theorem readU64At_eight (hlen : ctx.scheduledBaseIntents.length < 256 ^ 8)
    (rest : List UInt8) : readU64At ((codec cfg).encode ctx ++ rest) 8 =
      some ctx.scheduledBaseIntents.length := by
  rw [readU64At, encode_codec, hwidth, append_assoc, drop_left' (length_wordBytes 8 _),
    append_assoc, readWord_wordBytes _ hlen]
  rfl

/-- Zeros begin with the encoding of the default context. -/
theorem encode_default (n : ℕ) :
    (codec cfg).encode default ++ replicate n 0 = replicate (16 + n) 0 := by
  have hfields : (codec cfg).encode default = replicate 8 0 ++ replicate 8 0 := by
    rw [encode_codec, hwidth, ← wordBytes_zero]
    rfl
  rw [hfields, replicate_append_replicate, replicate_append_replicate]

/-- **Only the default context is written as zeros.** -/
theorem isZeroed_encode_iff (hlen : ctx.scheduledBaseIntents.length < 256 ^ 8) (n : ℕ) :
    isZeroed ((codec cfg).encode ctx ++ replicate n 0) ↔ ctx = default := by
  rw [isZeroed_iff]
  constructor
  · intro hzero
    -- As many zeros are the default context too, so the first two words are those of both.
    obtain ⟨k, hk⟩ : ∃ k, ((codec cfg).encode ctx ++ replicate n 0).length = 16 + k := by
      refine Nat.exists_eq_add_of_le ?_
      rw [encode_codec, hwidth]
      simp only [length_append, length_wordBytes]
      omega
    rw [hk, ← encode_default hwidth] at hzero
    have hid := congrArg (readU64At · 0) hzero
    have hints := congrArg (readU64At · 8) hzero
    simp only [readU64At_zero, readU64At_eight hwidth hlen,
      readU64At_eight hwidth (show (default : MagicContext).scheduledBaseIntents.length < 256 ^ 8
        by decide), Option.some.injEq] at hid hints
    rcases ctx with ⟨intentId, intents, hlt⟩
    obtain rfl : intentId = 0 := hid
    obtain rfl : intents = [] := eq_nil_of_length_eq_zero hints
    rfl
  · rintro rfl
    rw [encode_default hwidth, length_replicate]

variable (h : ctx.writeTo cfg data = (.ok (), data'))
include h

/-- **What is written is read back**, also through the special case of zeros. -/
theorem deserialize_of_writeTo : deserialize cfg data' = some ctx := by
  obtain ⟨hval, n, rfl⟩ := eq_encode_of_writeTo h
  have hzer := isZeroed_encode_iff hwidth (length_lt_of_valid hwidth hval) n
  have hemp : ((codec cfg).encode ctx ++ replicate n 0).isEmpty = false := by
    rw [encode_codec]
    rfl
  rw [deserialize, hemp, Bool.false_or]
  by_cases hctx : ctx = default
  · rw [if_pos (hzer.mpr hctx), hctx]
  · rw [if_neg (mt hzer.mp hctx), (codec cfg).decode_encode _ hval]
    rfl

/-- The number of intents, of every context but the default one. -/
theorem scheduledIntentsLen_of_writeTo : scheduledIntentsLen data' =
    if ctx = default then none else some ctx.scheduledBaseIntents.length := by
  obtain ⟨hval, n, rfl⟩ := eq_encode_of_writeTo h
  have hlen := length_lt_of_valid hwidth hval
  rw [scheduledIntentsLen, readU64At_eight hwidth hlen]
  simp [isZeroed_encode_iff hwidth hlen]

theorem hasScheduledIntents_of_writeTo :
    hasScheduledIntents data' = !ctx.scheduledBaseIntents.isEmpty := by
  rw [hasScheduledIntents, scheduledIntentsLen_of_writeTo hwidth h]
  split_ifs with hctx
  · rw [hctx]
    rfl
  · rcases hints : ctx.scheduledBaseIntents with _ | ⟨b, l⟩ <;> simp

/-! ### The queue of the program -/

omit h in
/-- **The queue of the bank is what the account holds**: an instruction that writes the context
leaves both in step, whether there is room for it or not. -/
theorem deserialize_writeContext (hfits : env.contextFits ctx ↔ ctx.FitsIn cfg data)
    (hbank : deserialize cfg data = some bank.context) :
    deserialize cfg (ctx.writeTo cfg data).2 =
      some ((Program.writeContext env ctx).outcome bank).2.context := by
  rcases writeTo_cases with ⟨hroom, heq⟩ | ⟨hroom, e, heq⟩
  · have hok : (Program.writeContext env ctx).Ok bank () { bank with context := ctx } :=
      Program.ok_writeContext.mpr ⟨hfits.mpr hroom, rfl⟩
    rw [hok, heq]
    exact deserialize_of_writeTo hwidth heq
  · have hnot : env.contextFits ctx = false := Bool.eq_false_iff.mpr (mt hfits.mp hroom)
    rw [heq, Program.writeContext, hnot]
    exact hbank

end Reading

/-- **The bytes of the context and the shortcuts agree with it.**  Every context that fits is
written, and is read back; the shortcuts return what decoding would, except that the number of
intents of the default context is not known to them; a failed write changes nothing. -/
theorem bytes_agree_with_context (cfg : ContextConfig) (hwidth : cfg.lengthWidth = 8)
    (ctx : MagicContext) (data : List UInt8) :
    (ctx.FitsIn cfg data → ∃ data', ctx.writeTo cfg data = (.ok (), data')) ∧
    (∀ data', ctx.writeTo cfg data = (.ok (), data') →
      deserialize cfg data' = some ctx ∧
      intentIdOf data' = some ctx.intentId ∧
      scheduledIntentsLen data' =
        (if ctx = default then none else some ctx.scheduledBaseIntents.length) ∧
      hasScheduledIntents data' = !ctx.scheduledBaseIntents.isEmpty) ∧
    ∀ e data', ctx.writeTo cfg data = (.error e, data') → data' = data := by
  refine ⟨fun hfits => ?_, fun data' h => ⟨deserialize_of_writeTo hwidth h, ?_,
    scheduledIntentsLen_of_writeTo hwidth h, hasScheduledIntents_of_writeTo hwidth h⟩, ?_⟩
  · rcases writeTo_cases with ⟨-, heq⟩ | ⟨hnot, -⟩
    · exact ⟨_, heq⟩
    · exact absurd hfits hnot
  · obtain ⟨-, n, rfl⟩ := eq_encode_of_writeTo h
    exact readU64At_zero _
  · intro e data' h
    rcases writeTo_cases with ⟨-, heq⟩ | ⟨-, e', heq⟩
    · cases (Prod.mk.inj (h.symm.trans heq)).1
    · exact (Prod.mk.inj (h.symm.trans heq)).2

/-- The widths `wincode` has by default, without a limit. -/
def defaultConfig : ContextConfig where
  toWincode := default
  withinPreallocation _ := true

/-- One intent is scheduled. -/
def scheduled : MagicContext where
  intentId := 7
  scheduledBaseIntents := [{
    intentId := 6, slot := 0, blockhash := 0, payer := 3
    intentBundle := { commit := some (.standalone [⟨8, ⟨0, [], 0, false, 0⟩, 0, 2⟩]) } }]

/-- It is written into an account of 300 bytes, left over from a longer context. -/
theorem bytes_agree_with_context_of_intent :
    ∃ data', writeTo defaultConfig scheduled (List.replicate 300 9) = (.ok (), data') ∧
      deserialize defaultConfig data' = some scheduled ∧ intentIdOf data' = some 7 ∧
      scheduledIntentsLen data' = some 1 ∧ hasScheduledIntents data' = true := by
  obtain ⟨hwrites, hreads, -⟩ :=
    bytes_agree_with_context defaultConfig rfl scheduled (List.replicate 300 9)
  obtain ⟨data', hwrite⟩ := hwrites ⟨225, by decide +kernel, by decide +kernel⟩
  obtain ⟨hdes, hid, hlen, hhas⟩ := hreads data' hwrite
  exact ⟨data', hwrite, hdes, hid, hlen, hhas⟩

/-- **Of the default context the shortcut does not know the number of intents**, and decoding
does. -/
theorem scheduledIntentsLen_of_zeros :
    ∃ data', writeTo defaultConfig default (List.replicate 20 9) = (.ok (), data') ∧
      deserialize defaultConfig data' = some default ∧ scheduledIntentsLen data' = none ∧
      (default : MagicContext).scheduledBaseIntents.length = 0 :=
  ⟨List.replicate 20 0, by decide, by decide, by decide, rfl⟩

end MagicContext

end Magicblock
