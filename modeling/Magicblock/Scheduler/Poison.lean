import Magicblock.Scheduler.Live

/-!
# Scheduler/Poison — poison is permanent and complete

`Tainted es k` is the specification, read off the history alone: a key is tainted by a failed or a
voided bundle, and by a bundle scheduled onto a key that was tainted before; once tainted it stays
so.  `poisonedKeys` is that set at every moment, and a bundle that meets it on arrival is never
handed out.
-/

open scoped List

namespace Magicblock

open IntentScheduler

/-- **The tainted keys after a history** — the least set with these rules. -/
inductive Tainted : List SchedulerEvent → Pubkey → Prop
  | failed {k : Pubkey} (hk : k ∈ b.getAllCommittedPubkeys) :
      Tainted (es ++ [.failed b (.ok voided)]) k
  | voided {b v : OutboxIntentBundle}
      {voided : List OutboxIntentBundle} {k : Pubkey} (hv : v ∈ voided)
      (hk : k ∈ v.getAllCommittedPubkeys) : Tainted (es ++ [.failed b (.ok voided)]) k
  | spread {j k : Pubkey} (hj : j ∈ b.getAllCommittedPubkeys) (htain : Tainted es j)
      (hk : k ∈ b.getAllCommittedPubkeys) : Tainted (es ++ [.scheduled b out]) k
  | later (e : SchedulerEvent) {k : Pubkey} (h : Tainted es k) : Tainted (es ++ [e]) k

theorem not_tainted_nil : ¬ Tainted [] k := by
  intro h
  generalize hnil : ([] : List SchedulerEvent) = es at h
  cases h <;> simp at hnil

/-- What one more event taints. -/
def TaintedBy (es : List SchedulerEvent) (k : Pubkey) : SchedulerEvent → Prop
  | .scheduled b _ =>
    k ∈ b.getAllCommittedPubkeys ∧ ∃ j ∈ b.getAllCommittedPubkeys, Tainted es j
  | .failed b (.ok voided) =>
    k ∈ b.getAllCommittedPubkeys ∨ ∃ v ∈ voided, k ∈ v.getAllCommittedPubkeys
  | _ => False

variable {es : List SchedulerEvent} {s : IntentScheduler} {b : OutboxIntentBundle}

theorem tainted_concat_iff : Tainted (es ++ [e]) k ↔ Tainted es k ∨ TaintedBy es k e := by
  constructor
  · intro h
    generalize hes : es ++ [e] = fs at h
    cases h with
    | failed hk =>
      obtain ⟨rfl, rfl⟩ := List.concat_inj.mp (by simpa using hes)
      exact .inr (.inl hk)
    | voided hv hk =>
      obtain ⟨rfl, rfl⟩ := List.concat_inj.mp (by simpa using hes)
      exact .inr (.inr ⟨_, hv, hk⟩)
    | spread hj ht hk =>
      obtain ⟨rfl, rfl⟩ := List.concat_inj.mp (by simpa using hes)
      exact .inr ⟨hk, _, hj, ht⟩
    | later e ht =>
      obtain ⟨rfl, rfl⟩ := List.concat_inj.mp (by simpa using hes)
      exact .inl ht
  · rintro (h | h)
    · exact h.later e
    · cases e with
      | scheduled b out =>
        obtain ⟨hk, j, hj, ht⟩ := h
        exact .spread hj ht hk
      | popped | completed => exact h.elim
      | failed b res =>
        cases res with
        | error e => exact h.elim
        | ok voided =>
          rcases h with hk | ⟨v, hv, hk⟩
          · exact .failed hk
          · exact .voided hv hk

/-- Taint is permanent. -/
theorem Tainted.mono (hpre : es <+: fs) (h : Tainted es k) : Tainted fs k := by
  obtain ⟨rest, rfl⟩ := hpre
  induction rest using List.reverseRecOn with
  | nil => simpa using h
  | append_singleton rest e ih =>
    rw [← List.append_assoc]
    exact ih.later e

/-! ### `poisoned_keys` is the tainted set -/

theorem poisoned_iff_step (h : Wf (ledger es) s) (ih : ∀ k, k ∈ s.poisonedKeys ↔ Tainted es k)
    (hstep : SchedulerStep FreshId AnyBundle es s e t) (k : Pubkey) :
    k ∈ t.poisonedKeys ↔ Tainted (es ++ [e]) k := by
  rw [tainted_concat_iff, ← ih]
  cases hstep with
  | @schedule b hkeys hfr =>
    have hadm := admission_schedule h.noEmpty (h.lookup_of_fresh hfr) (h.not_queued_of_fresh hfr)
    simp only [TaintedBy, ← ih]
    generalize s.schedule b = r at hadm ⊢
    -- a bundle taints its keys iff it meets a poisoned one
    have hclean : (∀ j ∈ b.getAllCommittedPubkeys, j ∉ s.poisonedKeys) →
        ¬ (k ∈ b.getAllCommittedPubkeys ∧ ∃ j ∈ b.getAllCommittedPubkeys, j ∈ s.poisonedKeys) :=
      fun hall ⟨_, j, hj, hp⟩ => hall j hj hp
    cases hadm with
    | free hnil => simp [hnil]
    | @poisoned j hj hp =>
      have hex : ∃ j ∈ b.getAllCommittedPubkeys, j ∈ s.poisonedKeys := ⟨j, hj, hp⟩
      simp [hex]
    | blocked _ hall | executes _ hall => exact (or_iff_left (hclean hall)).symm
  | pop hord =>
    have hpop := pop_popNextScheduledIntent hord
    generalize s.popNextScheduledIntent _ = r at hpop ⊢
    cases hpop <;> simp [TaintedBy]
  | @complete b hkeys =>
    have hcompl := completion_complete (s := s) hkeys h.noEmpty
    generalize s.complete b = r at hcompl ⊢
    cases hcompl <;> simp [TaintedBy]
  | @failed b search hkeys =>
    have hfail := failure_failed search hkeys h.noEmpty h.indexed
    generalize s.failed search b = r at hfail ⊢
    cases hfail with
    | free hnil => simp [TaintedBy, hnil]
    | rejected => simp [TaintedBy]
    | voids _ _ hcasc =>
      simp [TaintedBy, hcasc.poisoned]

theorem poisoned_iff_tainted (h : (schedulerMachine FreshId AnyBundle).Run es s) (k : Pubkey) :
    k ∈ s.poisonedKeys ↔ Tainted es k := by
  refine Machine.Run.invariant ?_ ?_ h k
  · rintro _ rfl k
    simp [new, not_tainted_nil]
  · exact fun _ _ _ _ hrun ih hstep => poisoned_iff_step (wf_of_run hrun) ih hstep

/-! ### Poisoned bundles are never handed out -/

/-- A bundle that was scheduled while one of its keys was tainted. -/
def Refused (es : List SchedulerEvent) (b : OutboxIntentBundle) : Prop :=
  ∃ es' out, es' ++ [.scheduled b out] <+: es ∧ ∃ k ∈ b.getAllCommittedPubkeys, Tainted es' k

theorem refused_concat (h : Refused (es ++ [e]) b) :
    Refused es b ∨ ∃ out, e = .scheduled b out ∧ ∃ k ∈ b.getAllCommittedPubkeys, Tainted es k := by
  obtain ⟨es', out, hpre, hk⟩ := h
  rcases List.prefix_concat_iff.mp hpre with heq | hpre
  · obtain ⟨rfl, rfl⟩ := List.concat_inj.mp (by simpa using heq)
    exact .inr ⟨out, rfl, hk⟩
  · exact .inl ⟨es', out, hpre, hk⟩

/-- Neither blocked nor handed out: such an id never executes. -/
def Absent (L : Ledger) (s : IntentScheduler) (i : IntentID) : Prop :=
  s.blockedIntents.lookup i = none ∧ ∀ c ∈ L.handedOut, c.intentId ≠ i

/-- Handing out a bundle with another id leaves an absent id absent. -/
theorem Absent.handOut (h : Absent L s i) (hout : ∀ c, out = some c → c.intentId ≠ i) :
    Absent (L.handOut out) s i := by
  cases out with
  | none => exact h
  | some c =>
    refine ⟨h.1, fun d hd => ?_⟩
    rcases List.mem_append.mp hd with hd | hd
    · exact h.2 d hd
    · exact List.mem_singleton.mp hd ▸ hout c rfl

/-- An absent id of a scheduled bundle stays absent: only fresh ids enter the scheduler. -/
theorem absent_step (h : Wf (ledger es) s) (hstep : SchedulerStep FreshId AnyBundle es s e t)
    (hi : ∃ c ∈ (ledger es).scheduled, c.intentId = i) (ha : Absent (ledger es) s i) :
    Absent (ledger (es ++ [e])) t i := by
  rw [ledger_concat]
  cases hstep with
  | @schedule b hkeys hfr =>
    obtain ⟨c, hc, rfl⟩ := hi
    have hne : c.intentId ≠ b.intentId := hfr c hc
    have hadm := admission_schedule h.noEmpty (h.lookup_of_fresh hfr) (h.not_queued_of_fresh hfr)
    generalize s.schedule b = r at hadm ⊢
    have hout : ∀ d, some b = some d → d.intentId ≠ c.intentId := by
      rintro d ⟨⟩
      exact hne.symm
    cases hadm with
    | free | executes => exact Absent.handOut (L := (ledger es).enter b) ha hout
    | poisoned => exact ha
    | blocked => exact ⟨by rw [block, AList.lookup_insert_ne hne]; exact ha.1, ha.2⟩
  | pop hord =>
    have hpop := pop_popNextScheduledIntent hord
    generalize s.popNextScheduledIntent _ = r at hpop ⊢
    cases hpop with
    | none => exact ha
    | @some j info hready =>
      have hne : i ≠ j := by
        rintro rfl
        exact absurd (ha.1.symm.trans hready.1) (by simp)
      refine Absent.handOut ⟨?_, ha.2⟩ ?_
      · rw [AList.lookup_erase_ne hne]
        exact ha.1
      · rintro c ⟨⟩
        exact (h.blocked hready.1).intentId_eq.symm ▸ hne.symm
  | @complete b hkeys =>
    have hcompl := completion_complete (s := s) hkeys h.noEmpty
    generalize s.complete b = r at hcompl ⊢
    cases hcompl <;> exact ha
  | @failed b search hkeys =>
    have hfail := failure_failed search hkeys h.noEmpty h.indexed
    generalize s.failed search b = r at hfail ⊢
    cases hfail with
    | free | rejected => exact ha
    | voids _ _ hcasc =>
      refine ⟨?_, ha.2⟩
      rw [hcasc.blocked, ha.1, ite_self]

theorem scheduled_of_prefix (h : es' ++ [.scheduled b out] <+: es) : b ∈ (ledger es).scheduled := by
  obtain ⟨rest, rfl⟩ := h
  induction rest using List.reverseRecOn with
  | nil =>
    rw [List.append_nil, ledger_concat]
    cases out <;> simp [Ledger.record, Ledger.handOut, Ledger.enter]
  | append_singleton rest e ih =>
    rw [← List.append_assoc, ledger_concat]
    cases e with
    | scheduled c out => cases out <;> exact List.mem_append_left _ ih
    | popped out => cases out <;> exact ih
    | completed c result | failed c result => cases result <;> exact ih

/-- **A refused bundle is never handed out.** -/
theorem absent_of_refused (h : (schedulerMachine FreshId AnyBundle).Run es s) (hb : Refused es b) :
    Absent (ledger es) s b.intentId := by
  refine Machine.Run.invariant ?_ ?_ h b hb
  · rintro s - b ⟨es', out, hpre, -⟩
    simpa using List.prefix_nil.mp hpre
  · intro es s e t hrun ih hstep b hb
    have hwf := wf_of_run hrun
    rcases refused_concat hb with hold | ⟨out, rfl, k, hk, ht⟩
    · obtain ⟨es', out, hpre, -⟩ := id hold
      exact absent_step hwf hstep ⟨b, scheduled_of_prefix hpre, rfl⟩ (ih b hold)
    · -- the bundle meets a poisoned key right here, so `schedule` keeps nothing of it
      have hpoison := (poisoned_iff_tainted hrun k).mpr ht
      cases hstep with
      | schedule hkeys hfr =>
        have hadm := admission_schedule hwf.noEmpty (hwf.lookup_of_fresh hfr)
          (hwf.not_queued_of_fresh hfr)
        rw [ledger_concat]
        generalize s.schedule b = r at hadm ⊢
        cases hadm with
        | free hnil => simp [hnil] at hk
        | poisoned => exact ⟨hwf.lookup_of_fresh hfr, fun c hc => hfr c (hwf.handed_sub hc)⟩
        | blocked _ hclean | executes _ hclean => exact absurd hpoison (hclean k hk)

/-- **Poison is permanent and complete.**  In every run with increasing ids and distinct keys:
`poisonedKeys` is the tainted set; it contains what it was at any earlier moment; and no bundle
scheduled when one of its keys was already tainted is ever handed out. -/
theorem poisonedKeys_eq_tainted {es : List SchedulerEvent} {s : IntentScheduler}
    (h : (schedulerMachine IncreasingId AnyBundle).Run es s) :
    (∀ k, k ∈ s.poisonedKeys ↔ Tainted es k) ∧
      (∀ es' t, es' <+: es → (schedulerMachine IncreasingId AnyBundle).Run es' t →
        t.poisonedKeys ⊆ s.poisonedKeys) ∧
      ∀ es' b out, es' ++ [.scheduled b out] <+: es →
        (∃ k ∈ b.getAllCommittedPubkeys, Tainted es' k) →
          ∀ c ∈ (ledger es).handedOut, c.intentId ≠ b.intentId := by
  have hfr : ∀ {es s}, (schedulerMachine IncreasingId AnyBundle).Run es s →
      (schedulerMachine FreshId AnyBundle).Run es s :=
    fun h => schedulerMachine_mono (fun _ _ hb => hb.freshId) (fun _ _ hb => hb) h
  refine ⟨poisoned_iff_tainted (hfr h), fun es' t hpre ht k hk => ?_,
    fun es' b out hpre hk => (absent_of_refused (hfr h) ⟨es', out, hpre, hk⟩).2⟩
  have htaint := (poisoned_iff_tainted (hfr ht) k).mp hk
  exact (poisoned_iff_tainted (hfr h) k).mpr (htaint.mono hpre)

/-- Bundle 1 fails on key 1; bundle 2, scheduled later on keys 1 and 2, taints key 2 as well. -/
theorem poisonedKeys_eq_tainted_of_failure :
    ∃ es s, (schedulerMachine IncreasingId AnyBundle).Run es s ∧
      (1 ∈ s.poisonedKeys ∧ 2 ∈ s.poisonedKeys ∧ 3 ∉ s.poisonedKeys) ∧
      ((∀ k, k ∈ s.poisonedKeys ↔ Tainted es k) ∧
        (∀ es' t, es' <+: es → (schedulerMachine IncreasingId AnyBundle).Run es' t →
          t.poisonedKeys ⊆ s.poisonedKeys) ∧
        ∀ es' b out, es' ++ [.scheduled b out] <+: es →
          (∃ k ∈ b.getAllCommittedPubkeys, Tainted es' k) →
            ∀ c ∈ (ledger es).handedOut, c.intentId ≠ b.intentId) := by
  have hrun := (((Machine.Run.start (M := schedulerMachine IncreasingId AnyBundle) rfl).step
    (.schedule (b := createTestIntentBundle 1 [1] []) (by decide) (by decide))).step
    (.failed (b := createTestIntentBundle 1 [1] []) (fun _ => .bisect) (by decide) trivial)).step
    (.schedule (b := createTestIntentBundle 2 [1, 2] []) (by decide) (by decide))
  exact ⟨_, _, hrun, by decide, poisonedKeys_eq_tainted hrun⟩

end Magicblock
