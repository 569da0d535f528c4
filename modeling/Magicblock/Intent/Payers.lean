import Magicblock.Intent.Limits

/-!
# Intent/Payers — the rent payers that an estimate invents

An undelegation refunds a payer that is not known when an intent is scheduled, so the estimate
invents one: it counts until it gets to a key that no instruction names.  The loop ends, and the
payers it gives are distinct and occur nowhere else (`placeholder_payers_fresh`).  Real payers are
then a renaming of the invented ones, which merges keys at most, so that no message becomes larger.
-/

namespace Magicblock

open List Instruction

open List (length_append length_cons map_cons map_id map_map mem_append_right mem_cons
  mem_cons_of_mem mem_cons_self mem_map of_mem_zip)

/-! ### Instructions and their keys -/

/-- Every key an instruction names. -/
def Instruction.namedKeys (ix : Instruction) : List Pubkey :=
  ix.programId :: ix.accounts.map (·.pubkey)

/-- The instruction with other keys. -/
def Instruction.rename (f : Pubkey → Pubkey) (ix : Instruction) : Instruction :=
  { ix with
    programId := f ix.programId
    accounts := ix.accounts.map fun account => { account with pubkey := f account.pubkey } }

theorem rename_of_fixed {ix : Instruction}
    (h : ∀ key ∈ ix.namedKeys, f key = key) : ix.rename f = ix := by
  obtain ⟨programId, accounts, data⟩ := ix
  have haccs : accounts.map (fun acc => { acc with pubkey := f acc.pubkey }) =
      accounts := by
    refine (map_congr_left fun acc hacc => ?_).trans (map_id accounts)
    rw [h acc.pubkey (mem_cons_of_mem _ (mem_map_of_mem hacc))]
    rfl
  rw [rename, haccs, h programId mem_cons_self]

/-- An instruction with places for a payer among its accounts. -/
structure PayerTemplate where
  programId : Pubkey
  /-- A key, or `none` for the payer; is it a signer, and is it writable? -/
  accounts : List (Option Pubkey × Bool × Bool)
  data : List UInt8

def PayerTemplate.fill (template : PayerTemplate) (payer : Pubkey) : Instruction where
  programId := template.programId
  accounts := template.accounts.map fun account => ⟨account.1.getD payer, account.2.1, account.2.2⟩
  data := template.data

namespace PayerTemplate

variable {template : PayerTemplate}

/-- The payer is the only key that depends on the payer. -/
theorem keys_fill (h : key ∈ (template.fill payer).namedKeys) :
    key = payer ∨ key ∈ (template.fill payer').namedKeys := by
  rcases mem_cons.mp h with rfl | h
  · exact .inr mem_cons_self
  · simp only [fill, map_map, mem_map, Function.comp_apply] at h
    obtain ⟨⟨place, flags⟩, hmem, rfl⟩ := h
    cases place with
    | none => exact .inl rfl
    | some key =>
      refine .inr (mem_cons_of_mem _ ?_)
      simp only [fill, map_map, mem_map, Function.comp_apply]
      exact ⟨_, hmem, rfl⟩

/-- Renaming that keeps the other keys renames the payer. -/
theorem rename_fill (h : ∀ key ∈ (template.fill payer').namedKeys, f key = key) :
    (template.fill payer).rename f = template.fill (f payer) := by
  have hprog : f template.programId = template.programId := h _ mem_cons_self
  simp only [Instruction.rename, fill, hprog, map_map, Instruction.mk.injEq, true_and, and_true]
  refine map_congr_left fun acc hacc => ?_
  obtain ⟨place, flags⟩ := acc
  cases place with
  | none => rfl
  | some key =>
    have hkey : f key = key := by
      refine h key (mem_cons_of_mem _ ?_)
      simp only [fill, map_map, mem_map, Function.comp_apply]
      exact ⟨_, hacc, rfl⟩
    simp [hkey]

end PayerTemplate

namespace Limits

section Loop

variable (builder : InstructionBuilder) (auth : Pubkey)

/-- The estimate before the payers are chosen. -/
def draft (intent : MagicIntentBundle) : Estimate :=
  (parts intent).foldl (Estimate.addPart builder auth)
    { commits := intent.standaloneActions.map (action builder auth) }

/-- **The loop as it runs**: every payer is searched for with a 64-bit counter.  It gives `none` if
a search takes more than `fuel` turns, or if the counter overflows. -/
def payerLoop (fuel : ℕ) : List Pubkey → ℕ → List (ℕ × CommittedAccount) → EstimatedTransaction →
    Option EstimatedTransaction
  | _, _, [], followUp => some followUp
  | used, counter, (index, account) :: rest, followUp => do
    let counter ← Fresh.search counterKey (2 ^ 64) used fuel counter
    let payer := counterKey counter
    payerLoop fuel (payer :: used) (counter + 1) rest
      (followUp.modify index fun entry => (undelegation builder auth account payer, entry.2))

def estimateLoop (fuel : ℕ) (intent : MagicIntentBundle) :
    Option (EstimatedTransaction × EstimatedTransaction) :=
  let e := draft builder auth intent
  (payerLoop builder auth fuel (auth :: e.keys) 0 e.undelegations e.followUp).map (e.commits, ·)

/-- Puts a payer into each of the given undelegations. -/
def fillPayers (entries : List ((ℕ × CommittedAccount) × Pubkey))
    (followUp : EstimatedTransaction) : EstimatedTransaction :=
  entries.foldl (fun followUp x => followUp.modify x.1.1 fun entry =>
    (undelegation builder auth x.1.2 x.2, entry.2)) followUp

/-- The second transaction with any payers, one for each undelegation. -/
def Estimate.withPayers (e : Estimate) (payers : List Pubkey) : EstimatedTransaction :=
  fillPayers builder auth (e.undelegations.zip payers) e.followUp

theorem counterKey_injOn : Set.InjOn counterKey (Set.Iio (2 ^ 64)) := by
  intro c hc c' hc' heq
  have hlt : (2 : ℕ) ^ 64 < 2 ^ 256 := by norm_num
  have hval := congrArg BitVec.toNat heq
  rwa [counterKey, counterKey, BitVec.toNat_ofNat, BitVec.toNat_ofNat,
    Nat.mod_eq_of_lt (lt_trans hc hlt), Nat.mod_eq_of_lt (lt_trans hc' hlt)] at hval

variable {builder auth}

/-- The payers are the next fresh keys. -/
theorem assignPayers_eq (used : List Pubkey) (counter : ℕ)
    (unds : List (ℕ × CommittedAccount)) (followUp : EstimatedTransaction) :
    assignPayers builder auth used counter unds followUp =
      fillPayers builder auth (unds.zip
        (Fresh.draw counterKey unds.length used counter)) followUp := by
  induction unds generalizing used counter followUp with
  | nil => rfl
  | cons x unds ih => exact ih _ _ _

/-- With enough fuel the loop ends. -/
theorem payerLoop_eq (unds : List (ℕ × CommittedAccount)) (followUp : EstimatedTransaction)
    (hbef : ∀ c < counter, counterKey c ∈ used)
    (hbound : used.length + unds.length < 2 ^ 64)
    (hfuel : used.length + unds.length ≤ fuel) :
    payerLoop builder auth fuel used counter unds followUp =
      some (assignPayers builder auth used counter unds followUp) := by
  induction unds generalizing used counter followUp with
  | nil => rfl
  | cons x unds ih =>
    rw [length_cons] at hbound hfuel
    obtain ⟨-, -, hall⟩ := Fresh.next_spec counterKey_injOn (by omega) hbef
    rw [payerLoop, Fresh.search_eq counterKey_injOn (by omega) hbef (by omega)]
    exact ih _ (Fresh.used_cons hall) (by rw [length_cons]; omega) (by rw [length_cons]; omega)

end Loop

/-! ### The draft -/

section Draft

variable (builder : InstructionBuilder) (auth : Pubkey)

/-- Each undelegation of a draft has its instruction, with the default key for its payer. -/
structure Drafted (e : Estimate) : Prop where
  listed : ∀ x ∈ e.undelegations, ∃ entry ∈ e.followUp, entry.1 = undelegation builder auth x.2 0
  count : e.undelegations.length ≤ e.followUp.length

variable {builder auth} {e : Estimate}

theorem Drafted.addActions (h : Drafted builder auth e) (comb : Bool) (actions : List BaseAction) :
    Drafted builder auth (e.addActions builder auth comb actions) := by
  cases comb with
  | true => exact ⟨h.listed, h.count⟩
  | false =>
    refine ⟨fun x hx => ?_, h.count.trans (length_append ▸ Nat.le_add_right _ _)⟩
    obtain ⟨entry, hent, heq⟩ := h.listed x hx
    exact ⟨entry, mem_append_left _ hent, heq⟩

theorem Drafted.addUndelegations (h : Drafted builder auth e) (accounts : List CommittedAccount) :
    Drafted builder auth (accounts.foldl (Estimate.addUndelegation builder auth) e) := by
  induction accounts generalizing e with
  | nil => exact h
  | cons acc accounts ih =>
    refine ih ⟨fun x hx => ?_, ?_⟩
    · obtain hx | hx := mem_append.mp hx
      · obtain ⟨entry, hent, heq⟩ := h.listed x hx
        exact ⟨entry, mem_append_left _ hent, heq⟩
      · obtain rfl := mem_singleton.mp hx
        exact ⟨_, mem_append_right _ mem_cons_self, rfl⟩
    · simpa [Estimate.addUndelegation] using h.count

theorem Drafted.addPart (h : Drafted builder auth e) (part : Part) :
    Drafted builder auth (e.addPart builder auth part) := by
  obtain ⟨commit, und, comb⟩ := part
  cases commit with
  | none => exact h
  | some commit =>
    have hcom : Drafted builder auth (e.addPart builder auth ⟨some commit, none, comb⟩) := by
      have hcoms : Drafted builder auth
        (e.addCommits builder auth commit.getCommittedAccounts) := ⟨h.listed, h.count⟩
      cases commit with
      | standalone accounts => exact hcoms
      | withBaseActions accounts actions => exact hcoms.addActions comb actions
    cases und with
    | none => exact hcom
    | some und =>
      have hunds := hcom.addUndelegations commit.getCommittedAccounts
      cases und with
      | standalone => exact hunds
      | withBaseActions actions => exact hunds.addActions false actions

theorem drafted : Drafted builder auth (draft builder auth intent) := by
  refine foldlRecOn (parts intent) _ ⟨nofun, le_rfl⟩ fun e he part _ => he.addPart part

theorem mem_keys : key ∈ e.keys ↔ ∃ entry ∈ e.commits ++ e.followUp, key ∈ entry.1.namedKeys :=
  mem_flatMap

/-- There are at least as many keys as undelegations. -/
theorem Drafted.length_le (h : Drafted builder auth e) :
    e.undelegations.length ≤ e.keys.length := by
  have hkeys (l : EstimatedTransaction) :
      l.length ≤ (l.flatMap fun entry => entry.1.namedKeys).length := by
    induction l with
    | nil => exact le_rfl
    | cons entry l ih =>
      rw [flatMap_cons, length_append, length_cons, namedKeys, length_cons]
      omega
  have hall := hkeys (e.commits ++ e.followUp)
  rw [length_append] at hall
  exact h.count.trans (le_trans (Nat.le_add_left _ _) hall)

end Draft

/-! ### Payers in their places -/

/-- What is not an undelegation with its payer was there before. -/
theorem getElem?_fillPayers (h : (fillPayers builder auth entries followUp)[j]? = some entry) :
    followUp[j]? = some entry ∨ ∃ acc payer, ((j, acc), payer) ∈ entries ∧
      entry.1 = undelegation builder auth acc payer := by
  induction entries generalizing followUp with
  | nil => exact .inl h
  | cons x entries ih =>
    rcases ih h with h | ⟨acc, payer, hmem, heq⟩
    · rw [getElem?_modify] at h
      by_cases hj : x.1.1 = j
      · simp only [hj, if_true] at h
        obtain ⟨old, hold, rfl⟩ := Option.map_eq_some_iff.mp h
        exact .inr ⟨x.1.2, x.2, hj ▸ mem_cons_self, rfl⟩
      · simp only [hj, if_false] at h
        exact .inl (by simpa using h)
    · exact .inr ⟨acc, payer, mem_cons_of_mem _ hmem, heq⟩

/-- Renaming that renames the payers of the undelegations, and what else there is. -/
theorem map_rename_fillPayers
    (hbuild : ∀ x ∈ entries, (undelegation builder auth x.1.2 x.2).rename f =
      undelegation builder auth x.1.2 (f x.2))
    (hbef : followUp.map (Prod.map (rename f) id) = followUp') :
    (fillPayers builder auth entries followUp).map (Prod.map (rename f) id) =
      fillPayers builder auth (entries.map (Prod.map id f)) followUp' := by
  induction entries generalizing followUp followUp' with
  | nil => exact hbef
  | cons x entries ih =>
    refine ih (fun y hy => hbuild y (mem_cons_of_mem _ hy)) ?_
    rw [← hbef]
    refine ext_getElem? fun j => ?_
    rw [getElem?_map, getElem?_modify, getElem?_modify, getElem?_map]
    by_cases hj : x.1.1 = j
    · simp [hj, hbuild x mem_cons_self, Function.comp_def]
    · simp [hj]

/-! ### Sizes -/

section Sizes

variable (compiler : MessageCompiler) (auth : Pubkey)

def noop : Instruction := ⟨compiler.noopProgramId, [], Codec.wordBytes 8 0⟩

/-- The instructions of a transaction with its compute budget. -/
def withBudget (tasks : EstimatedTransaction) : List Instruction :=
  compiler.setComputeUnitLimit (computeUnits tasks) :: compiler.setComputeUnitPrice 0 ::
    (tasks.map (·.1) ++ [noop compiler])

/-- The size that is measured first. -/
def v1Size (tasks : EstimatedTransaction) : Option ℕ :=
  compiler.v1WireSize auth (tasks.map (·.1) ++ [noop compiler]) 0 (computeUnits tasks)
    compiler.loadedAccountsBytes

/-- The size that is measured if the first is too large. -/
def v0Size (tasks : EstimatedTransaction) : Option ℕ :=
  compiler.v0WireSize auth (withBudget compiler tasks) (lookupTables (withBudget compiler tasks))

/-- A size, if there is one, is at least the other. -/
def NoLarger (size size' : Option ℕ) : Prop :=
  ∀ n, size = some n → ∃ m ≤ n, size' = some m

/-- No accounts, and a program whose key is not a counter. -/
def Detached (ix : Instruction) : Prop := ix.accounts = [] ∧ 2 ^ 64 ≤ ix.programId.toNat

/-- **Merging keys does not make a message larger**, where the fee payer and the programs keep
theirs.  The instructions that are added to every transaction are detached. -/
structure Merges : Prop where
  v1 {instructions : List Instruction} {fee units bytes : ℕ} {f : Pubkey → Pubkey}
    (hpay : f auth = auth)
    (hprogs : ∀ ix ∈ instructions, f ix.programId = ix.programId) :
    NoLarger (compiler.v1WireSize auth instructions fee units bytes)
      (compiler.v1WireSize auth (instructions.map (Instruction.rename f)) fee units bytes)
  v0 {instructions : List Instruction} {f : Pubkey → Pubkey} (hpay : f auth = auth)
    (hprogs : ∀ ix ∈ instructions, f ix.programId = ix.programId) :
    NoLarger (compiler.v0WireSize auth instructions (lookupTables instructions))
      (compiler.v0WireSize auth (instructions.map (Instruction.rename f))
        (lookupTables (instructions.map (Instruction.rename f))))
  detached_noop : Detached (noop compiler)
  detached_limit (units : ℕ) : Detached (compiler.setComputeUnitLimit units)
  detached_price (price : ℕ) : Detached (compiler.setComputeUnitPrice price)

variable {compiler auth}

theorem computeUnits_rename :
    computeUnits (tasks.map (Prod.map (rename f) id)) = computeUnits tasks := by
  rw [computeUnits_eq, computeUnits_eq, map_map]
  rfl

theorem Detached.rename_eq (h : Detached ix)
    (hlarge : ∀ key : Pubkey, 2 ^ 64 ≤ key.toNat → f key = key) : ix.rename f = ix := by
  refine rename_of_fixed fun key hkey => ?_
  rw [namedKeys, h.1, map_nil, mem_singleton] at hkey
  exact hkey ▸ hlarge _ h.2

theorem NoLarger.any_le (h : NoLarger size size')
    (hany : size.any fun n => decide (n ≤ cap)) : size'.any fun n => decide (n ≤ cap) := by
  cases size with
  | none => cases hany
  | some n =>
    obtain ⟨m, hle, rfl⟩ := h n rfl
    exact decide_eq_true (hle.trans (of_decide_eq_true hany))

/-- A transaction does not become larger either. -/
theorem Merges.tasks_noLarger (h : Merges compiler auth) (hpay : f auth = auth)
    (hprogs : ∀ entry ∈ tasks, f entry.1.programId = entry.1.programId)
    (hlarge : ∀ key : Pubkey, 2 ^ 64 ≤ key.toNat → f key = key) :
    NoLarger (v1Size compiler auth tasks)
        (v1Size compiler auth (tasks.map (Prod.map (rename f) id))) ∧
      NoLarger (v0Size compiler auth tasks)
        (v0Size compiler auth (tasks.map (Prod.map (rename f) id))) ∧
      (fits compiler auth tasks → fits compiler auth (tasks.map (Prod.map (rename f) id))) := by
  have hmap : (tasks.map (Prod.map (rename f) id)).map (·.1) ++ [noop compiler] =
      (tasks.map (·.1) ++ [noop compiler]).map (rename f) := by
    rw [map_append, map_singleton, h.detached_noop.rename_eq hlarge, map_map, map_map]
    rfl
  have hbudget : withBudget compiler (tasks.map (Prod.map (rename f) id)) =
      (withBudget compiler tasks).map (rename f) := by
    rw [withBudget, withBudget, hmap, computeUnits_rename, map_cons, map_cons,
      (h.detached_limit _).rename_eq hlarge, (h.detached_price _).rename_eq hlarge]
  have hplain : ∀ ix ∈ tasks.map (·.1) ++ [noop compiler], f ix.programId = ix.programId := by
    rw [forall_mem_append, forall_mem_map, forall_mem_singleton]
    exact ⟨hprogs, hlarge _ h.detached_noop.2⟩
  have hall : ∀ ix ∈ withBudget compiler tasks, f ix.programId = ix.programId := by
    rw [withBudget, forall_mem_cons, forall_mem_cons]
    exact ⟨hlarge _ (h.detached_limit _).2, hlarge _ (h.detached_price _).2, hplain⟩
  have hv1 : NoLarger (v1Size compiler auth tasks)
      (v1Size compiler auth (tasks.map (Prod.map (rename f) id))) := by
    rw [v1Size, v1Size, hmap, computeUnits_rename]
    exact h.v1 hpay hplain
  have hv0 : NoLarger (v0Size compiler auth tasks)
      (v0Size compiler auth (tasks.map (Prod.map (rename f) id))) := by
    rw [v0Size, v0Size, hbudget]
    exact h.v0 hpay hall
  refine ⟨hv1, hv0, fun hfits => ?_⟩
  simp only [fits, Bool.and_eq_true, Bool.or_eq_true] at hfits ⊢
  refine ⟨⟨(computeUnits_rename (f := f)).symm ▸ hfits.1.1, ?_⟩, hfits.2.imp hv1.any_le hv0.any_le⟩
  change (!(_ ++ [noop compiler]).any _) = true
  rw [hmap, any_map]
  exact hfits.1.2

end Sizes

/-! ### The payers -/

/-- **The payer is one of the accounts of an undelegation**, and nothing else depends on it. -/
def TakesPayer (builder : InstructionBuilder) : Prop :=
  ∀ auth account owner, ∃ template : PayerTemplate, ∀ payer,
    builder.undelegateWithRequest auth account owner payer = template.fill payer

section Payers

variable {builder : InstructionBuilder} {auth : Pubkey} {e : Estimate} {payers : List Pubkey}

section

variable (h : Drafted builder auth e) (hbuil : TakesPayer builder)

include h hbuil

/-- An undelegation names its payer and keys of the draft. -/
theorem Drafted.template (hx : x ∈ e.undelegations) :
    ∃ template : PayerTemplate,
      (∀ payer, undelegation builder auth x.2 payer = template.fill payer) ∧
      ∀ key ∈ (template.fill 0).namedKeys, key ∈ e.keys := by
  obtain ⟨template, htemp⟩ := hbuil auth x.2.pubkey x.2.account.owner
  obtain ⟨entry, hent, heq⟩ := h.listed x hx
  rw [undelegation, htemp] at heq
  exact ⟨template, htemp, fun key hkey =>
    mem_keys.mpr ⟨entry, mem_append_right _ hent, heq ▸ hkey⟩⟩

/-- A payer occurs in its own undelegation only. -/
theorem Drafted.payer_only (hlen : payers.length = e.undelegations.length) (hnd : payers.Nodup)
    (hfr : ∀ key ∈ auth :: e.keys, key ∉ payers) (hx : x ∈ e.undelegations.zip payers)
    (hent : (e.withPayers builder auth payers)[j]? = some entry) (hkey : x.2 ∈ entry.1.namedKeys) :
    j = x.1.1 := by
  have hpay : x.2 ∈ payers := (of_mem_zip hx).2
  rcases getElem?_fillPayers hent with hold | ⟨acc, payer, hmem, heq⟩
  · -- an instruction of the draft does not name a payer
    refine absurd hpay (hfr _ (mem_cons_of_mem _ (mem_keys.mpr ⟨entry, ?_, hkey⟩)))
    exact mem_append_right _ (mem_of_getElem? hold)
  · obtain ⟨template, hfill, hkeys⟩ := h.template hbuil (of_mem_zip hmem).1
    rw [heq, hfill] at hkey
    rcases PayerTemplate.keys_fill hkey with heq | hkey
    · have hsnd : ((e.undelegations.zip payers).map Prod.snd).Nodup := by
        rw [map_snd_zip hlen.le]
        exact hnd
      have hsame := inj_on_of_nodup_map hsnd hx hmem heq
      rw [hsame]
    · exact absurd hpay (hfr _ (mem_cons_of_mem _ (hkeys _ hkey)))

/-- Other payers in the places of fresh ones do not make the transaction larger. -/
theorem Drafted.real_noLarger (hcomp : Merges compiler auth) (hnd : payers.Nodup)
    (hfr : ∀ key ∈ auth :: e.keys, key ∉ payers) (hsmall : ∀ payer ∈ payers, payer.toNat < 2 ^ 64)
    {real : List Pubkey} (hreal : real.length = payers.length) :
    NoLarger (v1Size compiler auth (e.withPayers builder auth payers))
        (v1Size compiler auth (e.withPayers builder auth real)) ∧
      NoLarger (v0Size compiler auth (e.withPayers builder auth payers))
        (v0Size compiler auth (e.withPayers builder auth real)) ∧
      (fits compiler auth (e.withPayers builder auth payers) →
        fits compiler auth (e.withPayers builder auth real)) := by
  obtain ⟨f, rfl, hfix⟩ := Fresh.exists_renaming hnd hreal
  have hkeys (key : Pubkey) (hkey : key ∈ e.keys) : f key = key :=
    hfix key (hfr key (mem_cons_of_mem _ hkey))
  -- renaming the fresh payers gives the transaction with the others
  have hren : (e.withPayers builder auth payers).map (Prod.map (rename f) id) =
      e.withPayers builder auth (payers.map f) := by
    rw [Estimate.withPayers, Estimate.withPayers, zip_map_right]
    refine map_rename_fillPayers (fun x hx => ?_) ?_
    · obtain ⟨template, hfill, hnamed⟩ := h.template hbuil (of_mem_zip hx).1
      rw [hfill, hfill]
      exact PayerTemplate.rename_fill (fun key hkey => hkeys key (hnamed key hkey))
    · conv_rhs => rw [← map_id e.followUp]
      refine map_congr_left fun entry hent => Prod.ext ?_ rfl
      refine rename_of_fixed fun key hkey => hkeys key ?_
      exact mem_keys.mpr ⟨entry, mem_append_right _ hent, hkey⟩
  have hprogs : ∀ entry ∈ e.withPayers builder auth payers,
      f entry.1.programId = entry.1.programId := by
    intro entry hent
    obtain ⟨j, hj⟩ := mem_iff_getElem?.mp hent
    rcases getElem?_fillPayers hj with hold | ⟨acc, payer, hmem, heq⟩
    · exact hkeys _ (mem_keys.mpr ⟨entry, mem_append_right _ (mem_of_getElem? hold), mem_cons_self⟩)
    · obtain ⟨template, hfill, hnamed⟩ := h.template hbuil (of_mem_zip hmem).1
      rw [heq, hfill]
      exact hkeys _ (hnamed _ mem_cons_self)
  have hlarge (key : Pubkey) (hkey : 2 ^ 64 ≤ key.toNat) : f key = key :=
    hfix key fun hmem => (hsmall key hmem).not_ge hkey
  rw [← hren]
  exact hcomp.tasks_noLarger (hfix _ (hfr _ mem_cons_self)) hprogs hlarge

end

/-- **Invented payers do not alias.**  Each key of the draft takes 32 bytes of memory, and addresses
have 64 bits.  The loop ends; the payers are distinct, none of them is the authority or named by an
instruction of the draft, and each occurs in its own undelegation only.  With any other payers in
their places no measured size is larger, and what fits still fits. -/
theorem placeholder_payers_fresh {compiler : MessageCompiler} (hbuil : TakesPayer builder)
    (hcomp : Merges compiler auth) (intent : MagicIntentBundle)
    (hmemory : 32 * (draft builder auth intent).keys.length < 2 ^ 64) :
    let e := draft builder auth intent
    (∃ turns, ∀ fuel ≥ turns,
      estimateLoop builder auth fuel intent = some (estimate builder auth intent)) ∧
    ∃ payers : List Pubkey,
      estimate builder auth intent = (e.commits, e.withPayers builder auth payers) ∧
      payers.length = e.undelegations.length ∧ payers.Nodup ∧
      (∀ key ∈ auth :: e.keys, key ∉ payers) ∧
      (∀ x ∈ e.undelegations.zip payers, ∀ j entry,
        (e.withPayers builder auth payers)[j]? = some entry → x.2 ∈ entry.1.namedKeys →
          j = x.1.1) ∧
      ∀ real : List Pubkey, real.length = payers.length →
        NoLarger (v1Size compiler auth (e.withPayers builder auth payers))
            (v1Size compiler auth (e.withPayers builder auth real)) ∧
          NoLarger (v0Size compiler auth (e.withPayers builder auth payers))
            (v0Size compiler auth (e.withPayers builder auth real)) ∧
          (fits compiler auth (e.withPayers builder auth payers) →
            fits compiler auth (e.withPayers builder auth real)) := by
  intro e
  have he : Drafted builder auth e := drafted
  have hcnt : (auth :: e.keys).length + e.undelegations.length < 2 ^ 64 := by
    have hle := he.length_le
    have hkeys : 32 * e.keys.length < 2 ^ 64 := hmemory
    rw [length_cons]
    omega
  have hbef : ∀ c < 0, counterKey c ∈ auth :: e.keys := fun c hc => absurd hc (Nat.not_lt_zero c)
  obtain ⟨hnd, hdrawn⟩ := Fresh.draw_spec counterKey_injOn hcnt.le hbef
  have hfr : ∀ key ∈ auth :: e.keys,
      key ∉ Fresh.draw counterKey e.undelegations.length (auth :: e.keys) 0 :=
    fun key hkey hmem => (hdrawn key hmem).1 hkey
  have hlen := Fresh.length_draw counterKey e.undelegations.length (auth :: e.keys) 0
  refine ⟨⟨(auth :: e.keys).length + e.undelegations.length, fun fuel hfuel => ?_⟩,
    Fresh.draw counterKey e.undelegations.length (auth :: e.keys) 0, ?_, hlen, hnd,
    hfr, fun x hx j entry hent hkey =>
      he.payer_only hbuil hlen hnd hfr hx hent hkey,
    fun real hreal => he.real_noLarger hbuil hcomp hnd hfr ?_ hreal⟩
  · rw [estimateLoop, payerLoop_eq e.undelegations e.followUp hbef hcnt hfuel]
    rfl
  · exact Prod.ext rfl (assignPayers_eq _ _ _ _)
  · intro payer hpay
    obtain ⟨-, c, hc, rfl⟩ := hdrawn payer hpay
    rw [counterKey, BitVec.toNat_ofNat]
    exact (Nat.mod_le _ _).trans_lt hc

end Payers

namespace PayersExample

/-- An undelegation names the authority, the account and the payer. -/
def builder : InstructionBuilder where
  commitFinalize _ account _ _ := ⟨5, [⟨account, false, true⟩], []⟩
  commitFinalizeFromBuffer _ account _ _ := ⟨5, [⟨account, false, true⟩], []⟩
  undelegateWithRequest auth account _ payer :=
    ⟨5, [⟨auth, true, true⟩, ⟨account, false, true⟩, ⟨payer, false, true⟩], []⟩
  callHandlerV2 _ _ _ _ _ _ := ⟨5, [], []⟩
  callHandler _ _ _ _ _ := ⟨5, [], []⟩
  bufferPda _ _ _ := 0

/-- 32 bytes for each key. -/
def keyBytes (auth : Pubkey) (instructions : List Instruction) : ℕ :=
  32 * (auth :: instructions.flatMap Instruction.namedKeys).toFinset.card

def compiler : MessageCompiler where
  loadedAccountsBytes := 0
  maxTransactionSize := 4096
  packetDataSize := 1232
  noopProgramId := .twoPow 256 64
  setComputeUnitLimit _ := ⟨.twoPow 256 65, [], []⟩
  setComputeUnitPrice _ := ⟨.twoPow 256 65, [], []⟩
  v1WireSize auth instructions _ _ _ := some (keyBytes auth instructions)
  v0WireSize auth instructions _ := some (keyBytes auth instructions)

theorem keyBytes_rename (h : f auth = auth) :
    keyBytes auth (instructions.map (rename f)) ≤ keyBytes auth instructions := by
  have hkeys (ix : Instruction) : (ix.rename f).namedKeys = ix.namedKeys.map f := by
    simp [rename, namedKeys]
  have himg : (auth :: (instructions.map (rename f)).flatMap
      namedKeys).toFinset =
        (auth :: instructions.flatMap namedKeys).toFinset.image f := by
    ext key
    simp only [mem_toFinset, Finset.mem_image, mem_cons, flatMap_map, hkeys,
      ← map_flatMap, mem_map, or_and_right, exists_or, exists_eq_left, h]
    exact or_congr_left eq_comm
  rw [keyBytes, himg]
  exact Nat.mul_le_mul_left 32 Finset.card_image_le

theorem merges (auth : Pubkey) : Merges compiler auth where
  v1 hpay _ n h := ⟨_, Option.some.inj h ▸ keyBytes_rename hpay, rfl⟩
  v0 hpay _ n h := ⟨_, Option.some.inj h ▸ keyBytes_rename hpay, rfl⟩
  detached_noop := ⟨rfl, by decide +kernel⟩
  detached_limit _ := ⟨rfl, (by decide +kernel : 2 ^ 64 ≤ (BitVec.twoPow 256 65).toNat)⟩
  detached_price _ := ⟨rfl, (by decide +kernel : 2 ^ 64 ≤ (BitVec.twoPow 256 65).toNat)⟩

/-- Accounts 7 and 8 are committed and undelegated. -/
def bundle : MagicIntentBundle where
  commitAndUndelegate :=
    some ⟨.standalone [⟨7, ⟨0, [], 6, false, 0⟩, 1, 0⟩, ⟨8, ⟨0, [], 6, false, 0⟩, 1, 0⟩],
      .standalone⟩

end PayersExample

open PayersExample in
/-- Two undelegations: real payers, here one for both, do not make the second transaction larger. -/
theorem placeholder_payers_fresh_of_two :
    ∃ payers : List Pubkey, estimate builder 1 bundle = ((draft builder 1 bundle).commits,
        (draft builder 1 bundle).withPayers builder 1 payers) ∧
      payers.length = 2 ∧ payers.Nodup ∧ 1 ∉ payers ∧
      NoLarger (v1Size compiler 1 ((draft builder 1 bundle).withPayers builder 1 payers))
        (v1Size compiler 1 ((draft builder 1 bundle).withPayers builder 1 [50, 50])) := by
  have hbuil : TakesPayer builder := fun auth acc _ =>
    ⟨⟨5, [(some auth, true, true), (some acc, false, true), (none, false, true)], []⟩, fun _ => rfl⟩
  obtain ⟨-, payers, hest, hlen, hnd, hfr, -, hreal⟩ :=
    placeholder_payers_fresh hbuil (merges 1) bundle (by decide +kernel)
  exact ⟨payers, hest, hlen, hnd, hfr 1 mem_cons_self, (hreal [50, 50] hlen.symm).1⟩

end Limits

end Magicblock
