import Magicblock.Foundations.Lists
import Magicblock.Submux.Clients

/-!
# Submux/Answers — what `subscribe_program` tells its caller

A call puts the program into the shared set, asks all connected clients, and answers `Ok` as soon as
enough of them have confirmed; if too few do, it takes the program out again and answers an error.
A call that finds the program in the set answers `Ok` at once.  So an answer is true if the call
that put the program there has its confirmations (`truthful_of_settled`); while it still waits for
them, another caller is told `Ok` for nothing (`not_truthful_of_waiting`).

Which clients are connected, what they answer and in which order is open here, as is the number that
the required confirmations are computed from.  `Submux/Clients` follows the same calls for what they
leave at the clients; whatever one does there is at most one step of it here (`Clients.Step.told`).
-/

namespace Magicblock.Submux

open Finset List

/-- What a call of `subscribe_program` does next. -/
inductive ProgramCall where
  | unmade
  /-- Before the lock on `program_subs`. -/
  | locking (program : Pubkey)
  /-- The program is in the set; the connected clients are looked up. -/
  | selecting (program : Pubkey)
  /-- The clients that have not answered, and how many of the others count as successes. -/
  | asking (program : Pubkey) (required : ℕ) (waiting : Finset ClientKey) (successes : ℕ)
  /-- `Ok` is sent. -/
  | granted (program : Pubkey)
  /-- An error is sent; the program is to be taken out. -/
  | refused (program : Pubkey)
  | failed (program : Pubkey)
  | answered

/-- What happens to a call. -/
inductive ProgramCallEvent where
  | called (call : ℕ) (program : Pubkey)
  | inserted (call : ℕ) (program : Pubkey)
  /-- "Program subscription already exists". -/
  | found (call : ℕ) (program : Pubkey)
  | selected (call : ℕ) (program : Pubkey) (clients : Finset ClientKey) (required : ℕ)
  | confirmed (call : ℕ) (program : Pubkey) (client : ClientKey)
  /-- An error or a timeout. -/
  | clientFailed (call : ℕ) (program : Pubkey) (client : ClientKey)
  | exhausted (call : ℕ) (program : Pubkey)
  | removed (call : ℕ) (program : Pubkey)
  | answered (call : ℕ) (program : Pubkey) (ok : Bool)

/-- The shared set, and the calls. -/
structure ProgramCalls where
  programs : Finset Pubkey
  call : ℕ → ProgramCall

/-- A third of the connected clients that subscribe immediately. -/
def requiredProgramSubscriptionConfirmations (connectedClientsSubscribingImmediately : ℕ) : ℕ :=
  max 1 (connectedClientsSubscribingImmediately / 3)

namespace ProgramCalls

def setCall (s : ProgramCalls) (i : ℕ) (c : ProgramCall) : ProgramCalls :=
  { s with call := Function.update s.call i c }

/-- Enough successes are granted at once; the other clients are still asked, and nobody waits for
them. -/
def tally (program : Pubkey) (required : ℕ) (waiting : Finset ClientKey) (successes : ℕ) :
    ProgramCall :=
  if required ≤ successes then .granted program else .asking program required waiting successes

/-- **One step of the calls.**  Confirmations of clients that do not subscribe immediately do not
count. -/
inductive Step (subsImmediately : ClientKey → Bool) :
    ProgramCalls → ProgramCallEvent → ProgramCalls → Prop
  | call (i : ℕ) (program : Pubkey) : s.call i = .unmade →
      Step subsImmediately s (.called i program) (s.setCall i (.locking program))
  | insert {program : Pubkey} : s.call i = .locking program →
      program ∉ s.programs →
      Step subsImmediately s (.inserted i program)
        ({ s with programs := insert program s.programs }.setCall i (.selecting program))
  | found {program : Pubkey} : s.call i = .locking program →
      program ∈ s.programs →
      Step subsImmediately s (.found i program) (s.setCall i (.granted program))
  | select (n : ℕ) :
      s.call i = .selecting program → clients.Nonempty →
      Step subsImmediately s
        (.selected i program clients (requiredProgramSubscriptionConfirmations n))
        (s.setCall i (.asking program (requiredProgramSubscriptionConfirmations n) clients 0))
  /-- "No clients provided". -/
  | noClients : s.call i = .selecting program →
      Step subsImmediately s (.exhausted i program) (s.setCall i (.refused program))
  | confirm {waiting : Finset ClientKey} {client : ClientKey} :
      s.call i = .asking program required waiting successes → client ∈ waiting →
      Step subsImmediately s (.confirmed i program client)
        (s.setCall i (tally program required (waiting.erase client)
          (successes + (subsImmediately client).toNat)))
  | clientFail {waiting : Finset ClientKey} {client : ClientKey} :
      s.call i = .asking program required waiting successes → client ∈ waiting →
      Step subsImmediately s (.clientFailed i program client)
        (s.setCall i (.asking program required (waiting.erase client) successes))
  /-- "Not enough clients succeeded". -/
  | exhaust :
      s.call i = .asking program required ∅ successes →
      Step subsImmediately s (.exhausted i program) (s.setCall i (.refused program))
  | remove : s.call i = .refused program → Step subsImmediately s (.removed i program)
        ({ s with programs := s.programs.erase program }.setCall i (.failed program))
  | answerOk : s.call i = .granted program →
      Step subsImmediately s (.answered i program true) (s.setCall i .answered)
  | answerErr : s.call i = .failed program →
      Step subsImmediately s (.answered i program false) (s.setCall i .answered)

def new : ProgramCalls := ⟨∅, fun _ => .unmade⟩

def machine (subsImmediately : ClientKey → Bool) : Machine ProgramCalls ProgramCallEvent where
  start s := s = new
  step _ := Step subsImmediately

end ProgramCalls

/-! ### True answers -/

section Truthful

variable (subsImmediately : ClientKey → Bool)

/-- A call has had its confirmations: as many clients as it required have confirmed. -/
def Confirmed (es : List ProgramCallEvent) (program : Pubkey) : Prop :=
  ∃ i clients required, .selected i program clients required ∈ es ∧
    ∃ confirming ⊆ clients, required ≤ confirming.card ∧
      ∀ client ∈ confirming, subsImmediately client = true ∧ .confirmed i program client ∈ es

/-- **Every `Ok` is given after the confirmations**, and the program is in the set from then on,
unless it is taken out later. -/
def Truthful (es : List ProgramCallEvent) (s : ProgramCalls) : Prop :=
  ∀ before rest i program, es = before ++ .answered i program true :: rest →
    Confirmed subsImmediately before program ∧
      ((∀ j, .removed j program ∉ rest) → program ∈ s.programs)

/-- The call has put the program into the set and has no confirmations yet. -/
def ProgramCall.Attempts (program : Pubkey) : ProgramCall → Prop
  | .selecting p | .asking p _ _ _ | .refused p => p = program
  | _ => False

/-- A call that finds the program in the set finds no other call that still waits for
confirmations. -/
def ProgramCalls.Settled (s : ProgramCalls) : ProgramCallEvent → Prop
  | .found _ program => ∀ j, ¬ (s.call j).Attempts program
  | _ => True

end Truthful

/-! ### What one step does to the attempts -/

section Steps

variable {subsImmediately : ClientKey → Bool} {s t : ProgramCalls} {e : ProgramCallEvent}
  {waiting : Finset ClientKey}
  {es : List ProgramCallEvent} {i j : ℕ} {program p : Pubkey}

namespace ProgramCalls

@[simp] theorem call_setCall_self : (s.setCall i c).call i = c := Function.update_self ..

/-- A step changes the call it is about. -/
theorem eq_of_call_setCall_ne (h : (s.setCall i c).call j ≠ s.call j) : j = i := by
  by_contra hj
  exact h (Function.update_of_ne hj ..)

theorem attempts_tally (h : (tally program required waiting successes).Attempts p) :
    program = p := by
  unfold tally at h
  split at h
  · exact h.elim
  · exact h

/-- **Attempts begin with an insertion.** -/
theorem Step.attempts (h : Step subsImmediately s e t) (hatts : (t.call j).Attempts p) :
    (s.call j).Attempts p ∨ e = .inserted j p := by
  by_cases hsame : t.call j = s.call j
  · exact .inl (hsame ▸ hatts)
  cases h with
  | insert =>
    obtain rfl := eq_of_call_setCall_ne hsame
    rw [call_setCall_self] at hatts
    obtain rfl : _ = p := hatts
    exact .inr rfl
  | call | found | remove | answerOk | answerErr =>
    obtain rfl := eq_of_call_setCall_ne hsame
    rw [call_setCall_self] at hatts
    exact hatts.elim
  | select _ hcall | noClients hcall | clientFail hcall | exhaust hcall =>
    obtain rfl := eq_of_call_setCall_ne hsame
    rw [call_setCall_self] at hatts
    rw [hcall]
    exact .inl hatts
  | confirm hcall =>
    obtain rfl := eq_of_call_setCall_ne hsame
    rw [call_setCall_self] at hatts
    rw [hcall]
    exact .inl (attempts_tally hatts)

/-- Only a refused call takes its program out, and fails. -/
theorem Step.mem_programs (h : Step subsImmediately s e t) (hmem : p ∈ s.programs) :
    p ∈ t.programs ∨ ∃ i, (s.call i).Attempts p ∧ t.call i = .failed p := by
  cases h with
  | insert => exact .inl (mem_insert_of_mem hmem)
  | @remove i program hcall =>
    by_cases hp : p = program
    · subst hp
      exact .inr ⟨i, by rw [hcall]; rfl, call_setCall_self⟩
    · exact .inl (mem_erase.mpr ⟨hp, hmem⟩)
  | _ => exact .inl hmem

/-- A program is put in by an insertion, and that call attempts it. -/
theorem Step.of_mem_programs (h : Step subsImmediately s e t) (hmem : p ∈ t.programs) :
    p ∈ s.programs ∨ ∃ i, (t.call i).Attempts p := by
  cases h with
  | @insert i program _ _ =>
    obtain rfl | hmem := mem_insert.mp hmem
    · exact .inr ⟨i, by rw [call_setCall_self]; rfl⟩
    · exact .inl hmem
  | remove => exact .inl (mem_of_mem_erase hmem)
  | _ => exact .inl hmem

/-- The program is in the set, and nobody may take it out. -/
def Durable (s : ProgramCalls) (program : Pubkey) : Prop :=
  program ∈ s.programs ∧ ∀ j, ¬ (s.call j).Attempts program

/-- **What is durable stays durable** — insertions need the program to be missing. -/
theorem Step.durable (h : Step subsImmediately s e t) (hp : s.Durable p) : t.Durable p := by
  constructor
  · obtain hmem | ⟨i, hatts, -⟩ := h.mem_programs hp.1
    · exact hmem
    · exact absurd hatts (hp.2 i)
  · intro j hatts
    obtain hbef | rfl := h.attempts hatts
    · exact hp.2 j hbef
    · cases h with
      | insert _ hmem => exact hmem hp.1

/-- An attempt ends when its program is taken out, or with enough confirmations. -/
theorem Step.attempt_ends (h : Step subsImmediately s e t) (hbef : (s.call j).Attempts p)
    (haft : ¬ (t.call j).Attempts p) : p ∉ t.programs ∨
      ∃ required waiting successes client, s.call j = .asking p required waiting successes ∧
        client ∈ waiting ∧ e = .confirmed j p client ∧
        required ≤ successes + (subsImmediately client).toNat := by
  have hchan : t.call j ≠ s.call j := fun heq => haft (heq ▸ hbef)
  cases h with
  | call _ _ hcall | insert hcall _ | found hcall _ | answerOk hcall | answerErr hcall =>
    obtain rfl := eq_of_call_setCall_ne hchan
    rw [hcall] at hbef
    exact hbef.elim
  | select _ hcall | noClients hcall | clientFail hcall | exhaust hcall =>
    obtain rfl := eq_of_call_setCall_ne hchan
    rw [hcall] at hbef
    rw [call_setCall_self] at haft
    exact absurd hbef haft
  | remove hcall =>
    obtain rfl := eq_of_call_setCall_ne hchan
    rw [hcall] at hbef
    obtain rfl : _ = p := hbef
    exact .inl (notMem_erase _ _)
  | confirm hcall hcl =>
    obtain rfl := eq_of_call_setCall_ne hchan
    have hatt := hbef
    rw [hcall] at hatt
    obtain rfl : _ = p := hatt
    refine .inr ⟨_, _, _, _, hcall, hcl, rfl, ?_⟩
    by_contra hfew
    rw [call_setCall_self, tally, if_neg hfew] at haft
    exact haft rfl

/-- A call is granted because it found the program, or at the end of its attempt. -/
theorem Step.of_granted (h : Step subsImmediately s e t) (hgran : t.call i = .granted p) :
    s.call i = .granted p ∨ e = .found i p ∧ p ∈ s.programs ∨ (s.call i).Attempts p := by
  by_cases hsame : t.call i = s.call i
  · exact .inl (hsame ▸ hgran)
  cases h with
  | found _ hmem =>
    obtain rfl := eq_of_call_setCall_ne hsame
    rw [call_setCall_self] at hgran
    cases hgran
    exact .inr (.inl ⟨rfl, hmem⟩)
  | confirm hcall =>
    obtain rfl := eq_of_call_setCall_ne hsame
    rw [call_setCall_self, tally] at hgran
    split at hgran
    · cases hgran
      exact .inr (.inr (by rw [hcall]; rfl))
    · cases hgran
  | _ =>
    obtain rfl := eq_of_call_setCall_ne hsame
    rw [call_setCall_self] at hgran
    cases hgran

end ProgramCalls

theorem Confirmed.mono (h : Confirmed subsImmediately es p)
    (hsub : es ⊆ fs) : Confirmed subsImmediately fs p := by
  obtain ⟨i, clients, required, hsel, confirming, hcls, hcard, hconf⟩ := h
  exact ⟨i, clients, required, hsub hsel, confirming, hcls, hcard,
    fun client hcl => ⟨(hconf client hcl).1, hsub (hconf client hcl).2⟩⟩

/-! ### The invariant -/

/-- The successes of a call are clients that have confirmed and that it does not wait for. -/
def Counted (subsImmediately : ClientKey → Bool) (es : List ProgramCallEvent) (i : ℕ)
    (program : Pubkey) (required : ℕ) (waiting : Finset ClientKey) (successes : ℕ) : Prop :=
  ∃ clients, .selected i program clients required ∈ es ∧ waiting ⊆ clients ∧
    ∃ confirming ⊆ clients, Disjoint confirming waiting ∧ confirming.card = successes ∧
      ∀ client ∈ confirming, subsImmediately client = true ∧ .confirmed i program client ∈ es

section

variable (h : Counted subsImmediately es i p required waiting successes)

include h

theorem Counted.mono (hsub : es ⊆ fs) :
    Counted subsImmediately fs i p required waiting successes := by
  obtain ⟨clients, hsel, hwait, confirming, hcls, hdisj, hcard, hconf⟩ := h
  exact ⟨clients, hsub hsel, hwait, confirming, hcls, hdisj, hcard,
    fun client hcl => ⟨(hconf client hcl).1, hsub (hconf client hcl).2⟩⟩

theorem Counted.erase :
    Counted subsImmediately es i p required (waiting.erase client) successes := by
  obtain ⟨clients, hsel, hwait, confirming, hcls, hdisj, hrest⟩ := h
  have herase := erase_subset client waiting
  exact ⟨clients, hsel, herase.trans hwait, confirming, hcls, hdisj.mono_right herase, hrest⟩

/-- A confirmation is counted once: the client was waited for. -/
theorem Counted.confirm (hcl : client ∈ waiting) :
    Counted subsImmediately (es ++ [.confirmed i p client]) i p required (waiting.erase client)
      (successes + (subsImmediately client).toNat) := by
  cases hsubs : subsImmediately client with
  | false => exact h.erase.mono (List.subset_append_left _ _)
  | true =>
    obtain ⟨clients, hsel, hwait, confirming, hcls, hdisj, hcard, hconf⟩ := h
    have hnew : client ∉ confirming := fun hmem => disjoint_left.mp hdisj hmem hcl
    refine ⟨clients, List.mem_append_left _ hsel,
      (erase_subset client waiting).trans hwait, insert client confirming,
      insert_subset (hwait hcl) hcls, ?_, ?_, ?_⟩
    · refine disjoint_insert_left.mpr ⟨notMem_erase client waiting, ?_⟩
      exact hdisj.mono_right (erase_subset client waiting)
    · rw [card_insert_of_notMem hnew, hcard]
      rfl
    · intro other hoth
      obtain rfl | hoth := mem_insert.mp hoth
      · exact ⟨hsubs, List.mem_append_right _ (List.mem_singleton_self _)⟩
      · exact ⟨(hconf other hoth).1, List.mem_append_left _ (hconf other hoth).2⟩

theorem Counted.confirmed (hreqd : required ≤ successes) : Confirmed subsImmediately es p := by
  obtain ⟨clients, hsel, -, confirming, hcls, -, hcard, hconf⟩ := h
  exact ⟨i, clients, required, hsel, confirming, hcls, hcard ▸ hreqd, hconf⟩

end

/-- **Who holds a program**: one attempt whose successes are counted, or confirmations; and whoever
is told `Ok` can rely on it. -/
structure Sound (subsImmediately : ClientKey → Bool) (es : List ProgramCallEvent)
    (s : ProgramCalls) : Prop where
  held : ∀ {i p}, (s.call i).Attempts p → p ∈ s.programs
  unique : ∀ {i j p}, (s.call i).Attempts p → (s.call j).Attempts p → i = j
  counted : ∀ {i p required waiting successes},
    s.call i = .asking p required waiting successes →
      Counted subsImmediately es i p required waiting successes
  confirmed : ∀ {p}, s.Durable p → Confirmed subsImmediately es p
  granted : ∀ {i p}, s.call i = .granted p → s.Durable p
  told : ∀ {i p}, .answered i p true ∈ es → s.Durable p

namespace Sound

open ProgramCalls

theorem new : Sound subsImmediately [] new where
  held h := h.elim
  unique h := h.elim
  counted h := absurd h nofun
  confirmed h := absurd h.1 (notMem_empty _)
  granted h := absurd h nofun
  told h := absurd h not_mem_nil

variable (hs : Sound subsImmediately es s)

include hs

/-- Attempted programs stay in the set while they are attempted. -/
theorem held_step (h : Step subsImmediately s e t) (hatts : (t.call i).Attempts p) :
    p ∈ t.programs := by
  obtain hbef | rfl := h.attempts hatts
  · obtain hmem | ⟨j, hj, hfail⟩ := h.mem_programs (hs.held hbef)
    · exact hmem
    · obtain rfl := hs.unique hbef hj
      rw [hfail] at hatts
      exact hatts.elim
  · cases h with
    | insert => exact mem_insert_self _ _

theorem not_attempts_of_inserted (h : Step subsImmediately s (.inserted j p) t) :
    ¬ (s.call i).Attempts p := by
  intro hatts
  cases h with
  | insert _ hmem => exact hmem (hs.held hatts)

variable (h : Step subsImmediately s e t)

include h

theorem unique_step (hi : (t.call i).Attempts p) (hj : (t.call j).Attempts p) : i = j := by
  obtain hbef | rfl := h.attempts hi
  · obtain hbef' | rfl := h.attempts hj
    · exact hs.unique hbef hbef'
    · exact absurd hbef (hs.not_attempts_of_inserted h)
  · obtain hbef | heq := h.attempts hj
    · exact absurd hbef (hs.not_attempts_of_inserted h)
    · cases heq
      rfl

theorem counted_step (hask : t.call i = .asking p required waiting successes) :
    Counted subsImmediately (es ++ [e]) i p required waiting successes := by
  have hkept : ∀ {required successes : ℕ} {waiting : Finset ClientKey},
      s.call i = .asking p required waiting successes →
        Counted subsImmediately (es ++ [e]) i p required waiting successes :=
    fun hbef => (hs.counted hbef).mono (List.subset_append_left _ _)
  by_cases hsame : t.call i = s.call i
  · exact hkept (hsame ▸ hask)
  cases h with
  | select =>
    obtain rfl := eq_of_call_setCall_ne hsame
    rw [call_setCall_self] at hask
    cases hask
    exact ⟨waiting, List.mem_append_right _ (List.mem_singleton_self _), subset_rfl, ∅,
      empty_subset _, disjoint_empty_left _, rfl,
      fun _ hmem => absurd hmem (notMem_empty _)⟩
  | confirm hcall hcl =>
    obtain rfl := eq_of_call_setCall_ne hsame
    rw [call_setCall_self, tally] at hask
    split at hask
    · cases hask
    · cases hask
      exact (hs.counted hcall).confirm hcl
  | clientFail hcall =>
    obtain rfl := eq_of_call_setCall_ne hsame
    rw [call_setCall_self] at hask
    cases hask
    exact (hkept hcall).erase
  | _ =>
    obtain rfl := eq_of_call_setCall_ne hsame
    rw [call_setCall_self] at hask
    cases hask

/-- **A program that nobody attempts any more is confirmed.** -/
theorem confirmed_step (hp : t.Durable p) : Confirmed subsImmediately (es ++ [e]) p := by
  obtain ⟨hmem, hnone⟩ := hp
  by_cases hatt : ∃ j, (s.call j).Attempts p
  · obtain ⟨j, hj⟩ := hatt
    obtain hout | ⟨required, waiting, successes, client, hcall, hcl, rfl, heno⟩ :=
      h.attempt_ends hj (hnone j)
    · exact absurd hmem hout
    · exact ((hs.counted hcall).confirm hcl).confirmed heno
  · push Not at hatt
    obtain hbef | ⟨i, hi⟩ := h.of_mem_programs hmem
    · exact (hs.confirmed ⟨hbef, hatt⟩).mono (subset_append_left _ _)
    · exact absurd hi (hnone i)

/-- The only unconfirmed grant is that of a program another call still attempts. -/
theorem granted_step (hsett : s.Settled e) (hgran : t.call i = .granted p) : t.Durable p := by
  obtain hbef | ⟨rfl, hmem⟩ | hatts := h.of_granted hgran
  · exact h.durable (hs.granted hbef)
  · exact h.durable ⟨hmem, hsett⟩
  · constructor
    · obtain hmem | ⟨j, hj, hfail⟩ := h.mem_programs (hs.held hatts)
      · exact hmem
      · obtain rfl := hs.unique hatts hj
        cases hgran.symm.trans hfail
    · intro j hj
      obtain hbef | rfl := h.attempts hj
      · obtain rfl := hs.unique hatts hbef
        rw [hgran] at hj
        exact hj
      · exact hs.not_attempts_of_inserted h hatts

theorem told_step (htold : .answered i p true ∈ es ++ [e]) :
    t.Durable p := by
  obtain hmem | hmem := List.mem_append.mp htold
  · exact h.durable (hs.told hmem)
  · obtain rfl := List.mem_singleton.mp hmem
    apply h.durable
    cases h with
    | answerOk hcall => exact hs.granted hcall

theorem step (hsett : s.Settled e) : Sound subsImmediately (es ++ [e]) t where
  held := hs.held_step h
  unique := hs.unique_step h
  counted := hs.counted_step h
  confirmed := hs.confirmed_step h
  granted := hs.granted_step h hsett
  told := hs.told_step h

/-- The next answer is given after the confirmations, and the earlier ones stay true. -/
theorem truthful_step (htruth : Truthful subsImmediately es s) :
    Truthful subsImmediately (es ++ [e]) t := by
  intro before rest i p heq
  have htold : .answered i p true ∈ es ++ [e] := by rw [heq]; simp
  refine ⟨?_, fun _ => (hs.told_step h htold).1⟩
  rcases concat_eq_append_cons heq with ⟨rest', -, hlog⟩ | ⟨rfl, rfl, -⟩
  · exact (htruth before rest' i p hlog).1
  · cases h with
    | answerOk hcall => exact hs.confirmed (hs.granted hcall)

end Sound

/-- **In every run in which no call finds a program that is still being attempted, every `Ok` is
true.** -/
theorem truthful_of_settled
    (h : ((ProgramCalls.machine subsImmediately).guarded ProgramCalls.Settled).Run es s) :
    Truthful subsImmediately es s := by
  refine (h.invariant (I := fun es s => Sound subsImmediately es s ∧ Truthful subsImmediately es s)
    ?_ ?_).2
  · rintro s rfl
    refine ⟨.new, fun before rest i p heq => ?_⟩
    exact absurd heq (List.append_ne_nil_of_right_ne_nil _ (List.cons_ne_nil _ _)).symm
  · rintro es s e t - ⟨hs, htruth⟩ ⟨hsett, hstep⟩
    exact ⟨hs.step hstep hsett, hs.truthful_step hstep htruth⟩

end Steps

/-! ### The same calls at the clients -/

/-- **What a call that is at this point in `Submux/Clients` does here.**  The caller is answered
while other clients are still asked. -/
inductive Subscribe.Tells : Option Subscribe → ProgramCall → Prop
  | unmade : Tells none .unmade
  | locking : Tells (some (.inserting p)) (.locking p)
  | listing : Tells (some (.listing p)) (.selecting p)
  | filtering : Tells (some (.filtering p clients)) (.selecting p)
  | asking : successes < required →
      Tells (some (.calling p clients required successes)) (.asking p required clients successes)
  | granted : required ≤ successes →
      Tells (some (.calling p clients required successes)) (.granted p)
  | removing : Tells (some (.removing p)) (.refused p)
  | ok : Tells none (.granted p)
  | error : Tells none (.failed p)

section SameCalls

variable {subsImmediately : ClientKey → Bool} {s : ProgramCalls} {c c' : Clients} {i op : ℕ}

/-- A call that has not ended moves by at most one step. -/
def ProgramCalls.Follows (subsImmediately : ClientKey → Bool) (s : ProgramCalls) (i : ℕ)
    (programs : Finset Pubkey) (o : Option Subscribe) : Prop :=
  ∃ t, (t = s ∨ ∃ e, ProgramCalls.Step subsImmediately s e t) ∧ t.programs = programs ∧
    Subscribe.Tells o (t.call i)

open ProgramCalls

theorem ProgramCalls.Follows.setCall {programs : Finset Pubkey} {call : ProgramCall}
    (h : ProgramCalls.Step subsImmediately s e ({ s with programs := programs }.setCall i call))
    (ho : Subscribe.Tells o call) : s.Follows subsImmediately i programs o :=
  ⟨_, .inr ⟨e, h⟩, rfl, by rwa [call_setCall_self]⟩

theorem SubscribeStep.follows (h : SubscribeStep r o r' o') (htells : Subscribe.Tells o (s.call i))
    (hnew : o = none → s.call i = .unmade) (hprogs : s.programs = r.programs) :
    s.Follows subsImmediately i r'.programs o' := by
  obtain ⟨programs, call⟩ := s
  obtain rfl : programs = r.programs := hprogs
  generalize hcall : ProgramCalls.call _ i = at' at htells
  cases h with
  | begin program => exact .setCall (.call i program (hnew rfl)) .locking
  | insert hmem =>
    cases htells
    exact .setCall (.insert hcall hmem) .listing
  | present hmem =>
    cases htells
    exact .setCall (.found hcall hmem) .ok
  | list =>
    cases htells
    exact ⟨_, .inl rfl, rfl, hcall ▸ .filtering⟩
  | filter required hcls hreqd =>
    cases htells
    have hstep : ProgramCalls.Step subsImmediately _ _ _ := .select (3 * required) hcall hcls
    have hthird : requiredProgramSubscriptionConfirmations (3 * required) = required := by
      simp only [requiredProgramSubscriptionConfirmations]
      omega
    exact .setCall (hthird ▸ hstep) (.asking hreqd)
  | poll =>
    cases htells
    exact ⟨_, .inl rfl, rfl, hcall ▸ .listing⟩
  | giveUp =>
    cases htells
    exact .setCall (.noClients hcall) .removing
  | confirmed hsuccs =>
    cases htells with
    | asking hlt => exact absurd hsuccs (Nat.not_le.mpr hlt)
    | granted => exact ⟨_, .inl rfl, rfl, hcall ▸ .ok⟩
  | unconfirmed hsuccs =>
    cases htells with
    | asking => exact .setCall (.exhaust hcall) .removing
    | granted hle => exact absurd hle (Nat.not_le.mpr hsuccs)
  | remove =>
    cases htells
    exact .setCall (.remove hcall) .error

/-- **Each step of a call at the clients is at most one step of it here.** -/
theorem Clients.Step.told (h : Clients.Step subsImmediately c e c')
    (hmov : c'.subscribing op ≠ c.subscribing op)
    (htells : Subscribe.Tells (c.subscribing op) (s.call i))
    (hnew : c.subscribing op = none → s.call i = .unmade)
    (hprogs : s.programs = c.roster.programs) :
    s.Follows subsImmediately i c'.roster.programs (c'.subscribing op) := by
  have hop {c : Clients} {op' : ℕ} {r : Roster} {o : Option Subscribe}
      (hmov : (c.setSubscribing r op' o).subscribing op ≠ c.subscribing op) : op = op' := by
    by_contra hne
    exact hmov (Function.update_of_ne hne ..)
  cases h with
  | abort | reconnect | attach => exact absurd rfl hmov
  | subscribe op' hstep =>
    obtain rfl := hop hmov
    simpa [Clients.setSubscribing] using hstep.follows htells hnew hprogs
  | call op' client hcalling hcl =>
    obtain rfl := hop hmov
    rw [hcalling] at htells
    generalize hcall : s.call i = at' at htells
    simp only [Clients.setSubscribing, Function.update_self, ← hprogs]
    cases htells with
    | asking hlt =>
      refine .setCall (.confirm hcall hcl) ?_
      rw [tally]
      split_ifs with hreqd
      · exact .granted hreqd
      · exact .asking (Nat.not_le.mp hreqd)
    | granted hle => exact ⟨_, .inl rfl, rfl, hcall ▸ .granted (Nat.le_add_right_of_le hle)⟩
  | callFailed op' client hcalling hcl =>
    obtain rfl := hop hmov
    rw [hcalling] at htells
    generalize hcall : s.call i = at' at htells
    simp only [Clients.setSubscribing, Function.update_self, ← hprogs]
    cases htells with
    | asking hlt => exact .setCall (.clientFail hcall hcl) (.asking hlt)
    | granted hle => exact ⟨_, .inl rfl, rfl, hcall ▸ .granted hle⟩

end SameCalls

/-! ### Two calls for one program -/

section TwoCalls

open ProgramCalls

/-- Two calls for a program; the first has inserted it. -/
def twoCalls : ProgramCalls :=
  { (new.setCall 0 (.locking 5)).setCall 1 (.locking 5) with
    programs := insert 5 new.programs }.setCall 0 (.selecting 5)

theorem run_twoCalls (subsImmediately : ClientKey → Bool) :
    ((machine subsImmediately).guarded Settled).Run
      [.called 0 5, .called 1 5, .inserted 0 5] twoCalls := by
  have hnew : ((machine subsImmediately).guarded Settled).Run [] new := .start rfl
  have hcall := (hnew.guardedStep (.call 0 5 rfl) trivial).guardedStep (.call 1 5 rfl) trivial
  exact hcall.guardedStep (.insert rfl (notMem_empty _)) trivial

/-- The second call finds the program and answers `Ok`; no client has been asked. -/
theorem not_truthful_of_waiting : ∃ es s, (machine fun _ => true).Run es s ∧
    .answered 1 5 true ∈ es ∧ ¬ Truthful (fun _ => true) es s := by
  have hans := (run_twoCalls fun _ => true).of_guarded.next (.found 1 5)
      (.found rfl (Finset.mem_insert_self _ _))
    |>.next (.answered 1 5 true) (.answerOk rfl)
  refine ⟨_, _, hans, by simp, fun htruth => ?_⟩
  obtain ⟨_, _, _, hsel, _⟩ :=
    (htruth [.called 0 5, .called 1 5, .inserted 0 5, .found 1 5] [] 1 5 rfl).1
  simp at hsel

/-- The second call comes after the confirmation of the only client. -/
theorem truthful_of_settled_of_two : ∃ es s, .answered 1 5 true ∈ es ∧
    ((machine fun _ => true).guarded Settled).Run es s ∧ Truthful (fun _ => true) es s := by
  have hconf := (run_twoCalls fun _ => true).next (.selected 0 5 {7} 1)
      ⟨trivial, .select 1 rfl (Finset.singleton_nonempty _)⟩
    |>.next (.confirmed 0 5 7) ⟨trivial, .confirm rfl (Finset.mem_singleton_self 7)⟩
  have hans := hconf.next (.found 1 5)
      ⟨fun j => match j with | 0 | 1 | _ + 2 => id, .found rfl (Finset.mem_insert_self _ _)⟩
    |>.next (.answered 1 5 true) ⟨trivial, .answerOk rfl⟩
  exact ⟨_, _, by simp, hans, truthful_of_settled hans⟩

end TwoCalls

end Magicblock.Submux
