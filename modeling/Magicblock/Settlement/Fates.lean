import Magicblock.Settlement.Session

/-!
# Settlement/Fates — what is known of the finalizes of legacy commits

A legacy commit is repaired by a transaction of its own, which the outbox does not record.  Whether
it has landed is known from its outcome alone: it is confirmed, or its error says that it never will
succeed.  A history is `Tidy` if nothing is in doubt as long as all outcomes are certain, and
`Orderly` if each finalize was signed with nothing in doubt, for an account found unfinalized.
-/

namespace Magicblock

/-- **What is known of the last legacy finalize** of an account. -/
inductive Fate
  | unknown
  | confirmed
  | failed
  deriving DecidableEq

def Fate.ofOutcome : Option (Option TransactionExecutionError) → Fate
  | none => unknown
  | some none => confirmed
  | some (some err) => if err.isRejected then failed else unknown

namespace LegacyEvent

def fate (account : Pubkey) : LegacyEvent → Option Fate
  | unfinalized _ => none
  | signed a outcome => if a = account then some (.ofOutcome outcome) else none

/-- The accounts that are found unfinalized. -/
def blamed : LegacyEvent → List Pubkey
  | unfinalized accounts => accounts
  | signed _ _ => []

/-- No account is asked for twice, no send is cut off, and a failure is known or not tried again. -/
def isCertain : LegacyEvent → Bool
  | unfinalized accounts => accounts.Nodup
  | signed _ none => false
  | signed _ (some none) => true
  | signed _ (some (some err)) => err.isRejected || !err.isTransient

end LegacyEvent

/-- The fate of the last finalize of an account. -/
def lastFate (history : List LegacyEvent) (account : Pubkey) : Option Fate :=
  history.foldl (fun fate event => (event.fate account).or fate) none

/-- **No legacy finalize is left in doubt**: every event is certain, and no account is found
unfinalized after its finalize was confirmed. -/
def NoDoubt (history : List LegacyEvent) : Prop :=
  ∀ before event after, history = before ++ event :: after → event.isCertain ∧
    ∀ account ∈ event.blamed, lastFate before account ≠ some .confirmed

/-- Nothing is in doubt. -/
def Clear (history : List LegacyEvent) : Prop := ∀ account, lastFate history account ≠ some .unknown

def Certain (history : List LegacyEvent) : Prop := ∀ event ∈ history, event.isCertain

/-- The account was found unfinalized, and no finalize of it was signed since. -/
def Blamed (history : List LegacyEvent) (account : Pubkey) : Prop :=
  ∃ before accounts after, history = before ++ .unfinalized accounts :: after ∧
    account ∈ accounts ∧ lastFate after account = none

/-- Nothing is in doubt, as long as all is certain. -/
def Tidy (history : List LegacyEvent) : Prop := Certain history → Clear history

/-- **Each finalize is signed for an account found unfinalized, with nothing in doubt** — as long as
all is certain. -/
def Orderly (history : List LegacyEvent) : Prop :=
  ∀ before account outcome after, history = before ++ .signed account outcome :: after →
    Certain before → Clear before ∧ Blamed before account

/-- What a log tells of legacy commits. -/
def legacyLog (log : List Event) : List LegacyEvent :=
  log.filterMap fun
    | .legacy event => some event
    | _ => none

def Session.legacy (s : Session) : List LegacyEvent := legacyLog s.log

/-- Code is entered again after its deadline, and after an error that may pass. -/
def Halt.passes : Halt → Bool
  | error err => err.isTransient
  | timedOut => true
  | stopped => false

/-- **Code that goes on only with nothing in doubt.** -/
abbrev Settle.Tidies {α : Type} (R : Session → Session → Prop) (m : Settle α) : Prop :=
  Exec.Goes R (fun s => Tidy s.legacy) (fun halt s => halt.passes → Tidy s.legacy) m

/-! ### Histories -/

variable {hist hist' : List LegacyEvent} {acc : Pubkey} {event : LegacyEvent}

theorem lastFate_append (hist hist' : List LegacyEvent) (acc : Pubkey) :
    lastFate (hist ++ hist') acc = (lastFate hist' acc).or (lastFate hist acc) := by
  induction hist' using List.reverseRecOn with
  | nil => simp [lastFate]
  | append_singleton hist' event ih =>
    rw [← List.append_assoc]
    simp only [lastFate, List.foldl_concat] at ih ⊢
    rw [ih, Option.or_assoc]

theorem Clear.append (h : Clear hist) (h' : Clear hist') : Clear (hist ++ hist') := by
  intro acc hunk
  rw [lastFate_append] at hunk
  rcases hfate : lastFate hist' acc with _ | fate'
  · rw [hfate, Option.none_or] at hunk
    exact h acc hunk
  · rw [hfate, Option.some_or, ← hfate] at hunk
    exact h' acc hunk

/-- What is in doubt stays so, whatever was known before. -/
theorem Clear.of_append (h : Clear (hist ++ hist')) : Clear hist' := by
  intro acc hunk
  refine h acc ?_
  rw [lastFate_append, hunk, Option.some_or]

theorem Certain.of_append (h : Certain (hist ++ hist')) : Certain hist ∧ Certain hist' :=
  List.forall_mem_append.mp h

theorem Blamed.append (h : Blamed hist acc) (hnone : lastFate hist' acc = none) :
    Blamed (hist ++ hist') acc := by
  obtain ⟨before, accs, after, rfl, hmem, haft⟩ := h
  refine ⟨before, accs, after ++ hist', by simp, hmem, ?_⟩
  rw [lastFate_append, hnone, haft, Option.none_or]

theorem Blamed.append_left (h : Blamed hist acc) : Blamed (hist' ++ hist) acc := by
  obtain ⟨before, accs, after, rfl, hmem, haft⟩ := h
  exact ⟨hist' ++ before, accs, after, by simp, hmem, haft⟩

/-- Accounts are found unfinalized. -/
theorem Tidy.unfinalized (h : Tidy hist) : Tidy (hist ++ [.unfinalized accs]) :=
  fun hcert => (h hcert.of_append.1).append fun _ hfate => by cases hfate

/-- A finalize after which the code goes on: a failure that may pass is certain only if it is known.
-/
theorem Tidy.signed {outcome : Option (Option TransactionExecutionError)} (h : Tidy hist)
    (hpass : ∀ err, outcome = some (some err) → err.isTransient) :
    Tidy (hist ++ [.signed acc outcome]) := by
  intro hcert
  refine (h hcert.of_append.1).append fun acc' => ?_
  have hknown : Fate.ofOutcome outcome ≠ .unknown := by
    have hsign := hcert.of_append.2 _ List.mem_cons_self
    rcases outcome with _ | _ | err
    · cases hsign
    · exact fun hunk => by cases hunk
    · have hrej : err.isRejected := by
        simpa [LegacyEvent.isCertain, hpass err rfl] using hsign
      simp [Fate.ofOutcome, hrej]
  by_cases hacc : acc = acc' <;> simp [lastFate, LegacyEvent.fate, hacc, hknown]

theorem Orderly.append (h : Orderly hist) (htidy : Tidy hist) (h' : Orderly hist') :
    Orderly (hist ++ hist') := by
  intro before acc outcome after heq hcert
  rcases append_eq_append_cons heq with ⟨after', rfl⟩ | ⟨middle, rfl, rfl⟩
  · exact h before acc outcome after' rfl hcert
  · obtain ⟨hpast, hmid⟩ := hcert.of_append
    obtain ⟨hclear, hblame⟩ := h' middle acc outcome after rfl hmid
    exact ⟨(htidy hpast).append hclear, hblame.append_left⟩

theorem Orderly.concat (h : Orderly hist) (hsign : ∀ acc outcome,
      event = .signed acc outcome → Certain hist → Clear hist ∧ Blamed hist acc) :
    Orderly (hist ++ [event]) := by
  intro before acc outcome after heq
  rcases concat_eq_append_cons heq with ⟨after', -, hold⟩ | ⟨rfl, rfl, -⟩
  · exact h before acc outcome after' hold
  · exact hsign acc outcome rfl

theorem orderly_nil : Orderly [] := fun _ _ _ _ heq => by simp at heq

theorem noDoubt_nil : NoDoubt [] := fun _ _ _ heq => by simp at heq

theorem NoDoubt.concat (h : NoDoubt hist) (hcert : event.isCertain)
    (hblame : ∀ acc ∈ event.blamed, lastFate hist acc ≠ some .confirmed) :
    NoDoubt (hist ++ [event]) := by
  intro before event' after heq
  rcases concat_eq_append_cons heq with ⟨after', -, hold⟩ | ⟨rfl, rfl, -⟩
  · exact h before event' after' hold
  · exact ⟨hcert, hblame⟩

/-- **In a history without doubt** the last finalize of an account is known to have failed when the
next one is signed. -/
theorem Orderly.fate_of_noDoubt (h : Orderly (hist ++ .signed acc outcome :: after))
    (hdoubt : NoDoubt hist) :
    lastFate hist acc = none ∨ lastFate hist acc = some .failed := by
  have hcert : Certain hist := by
    intro event hmem
    obtain ⟨before, after, rfl⟩ := List.append_of_mem hmem
    exact (hdoubt before event after rfl).1
  obtain ⟨hclear, before, accs, after, rfl, hmem, hnone⟩ :=
    h hist acc outcome _ rfl hcert
  have hunk := hclear acc
  have hconf := (hdoubt before _ after rfl).2 acc hmem
  have hfate : lastFate (before ++ .unfinalized accs :: after) acc = lastFate before acc := by
    rw [List.append_cons, lastFate_append, hnone, Option.none_or, lastFate_append]
    rfl
  rw [hfate] at hunk ⊢
  rcases hcase : lastFate before acc with _ | _ | _ | _
  · exact .inl rfl
  · exact absurd hcase hunk
  · exact absurd hcase hconf
  · exact .inr rfl

/-! ### Logs -/

theorem legacyLog_append (log log' : List Event) :
    legacyLog (log ++ log') = legacyLog log ++ legacyLog log' :=
  List.filterMap_append

theorem legacyLog_concat (h : ∀ event, e ≠ .legacy event) :
    legacyLog (log ++ [e]) = legacyLog log := by
  have hnone : legacyLog [e] = [] := by
    cases e with
    | legacy event => exact absurd rfl (h event)
    | _ => rfl
  rw [legacyLog_append, hnone, List.append_nil]

theorem legacy_emit {s : Session} :
    Session.legacy { s with log := s.log ++ [.legacy event] } = s.legacy ++ [event] :=
  legacyLog_append ..

end Magicblock
