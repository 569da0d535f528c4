import Magicblock.Pubsub.Actor

/-!
# Pubsub/Reconnect — pooled connections are replaced only when nobody uses them

`PubSubConnectionPool::reconnect` drops the pooled connections, so every set-up and every listener
must be done by then.  A task that may hold a stream has its own entry in the map; while a reconnect
is under way the flag is clear, so that no entry is added; and the drain has seen all entries and
waited for their tasks.  The same facts show that a listener takes out its own entry and no other.
-/

namespace Magicblock.Pubsub

open Function

namespace Reconnect

/-- The flag is clear. -/
def isDown : Reconnect → Bool
  | idle | pruning => false
  | _ => true

/-- The drain has begun, and the flag is not set again. -/
def isDraining : Reconnect → Bool
  | idle | requested | pruning => false
  | _ => true

/-- The entries that the drain still waits for. -/
def seen : Reconnect → List Seen
  | snapshotting seen | waiting seen _ => seen
  | _ => []

/-- What the drain knows of an entry whose task has not taken it out. -/
def Awaits (entry : Seen) : Reconnect → Prop
  | idle | requested | pruning => True
  | snapshotting seen => entry.1 = .account → entry ∈ seen
  | waiting seen failed => entry ∈ seen ∨ failed = true
  | dropping | connecting | verifying => False

theorem isDown_of_isDraining {r : Reconnect} (h : r.isDraining = true) : r.isDown = true := by
  cases r <;> first | rfl | exact absurd h nofun

/-- Outside of a drain nothing is awaited. -/
theorem of_not_isDraining {r : Reconnect} (h : r.isDraining = false) (entry : Seen) :
    r.Awaits entry ∧ r.seen = [] := by
  cases r <;> first | exact ⟨trivial, rfl⟩ | exact absurd h nofun

end Reconnect

namespace Actor

variable {s s' : Actor} {i : SubId} {t : Task} {kind : Kind} {pk : Pubkey} {phase : Phase}

/-- The task of a subscription to this key has not taken its entry out. -/
def AliveAt (s : Actor) (kind : Kind) (pubkey : Pubkey) (i : SubId) : Prop :=
  ∃ t, s.task i = some t ∧ t.phase.isAlive = true ∧ t.kind = kind ∧ t.pubkey = pubkey

/-- **What holds in every state.**  An entry is there exactly as long as its task is alive. -/
structure Sound (s : Actor) : Prop where
  entry_iff : ∀ kind pubkey i, s.entries kind pubkey = some i ↔ s.AliveAt kind pubkey i
  running : ∀ kind pubkey i, s.entries kind pubkey = some i → s.completed i = false
  cleared : ∀ kind pubkey retries, s.entering = some (.cleared kind pubkey retries) →
    s.entries kind pubkey = none
  down : s.reconnect.isDown = true → s.isConnected = false
  quiet : s.reconnect.isDraining = true → s.entering = none
  awaited : ∀ kind pubkey i, s.entries kind pubkey = some i → s.reconnect.Awaits (kind, pubkey, i)
  fresh : ∀ kind pubkey i, (kind, pubkey, i) ∈ s.reconnect.seen →
    s.entries kind pubkey = some i ∨ s.entries kind pubkey = none

/-! ### Entries and tasks -/

theorem entries_setEntry :
    (s.setEntry kind pk entry).entries kind' pk' =
      if kind' = kind ∧ pk' = pk then entry else s.entries kind' pk' := by
  by_cases hkind : kind' = kind
  · subst hkind
    by_cases hpk : pk' = pk <;> simp [setEntry, hpk]
  · simp [setEntry, hkind]

/-- Taking out an entry that is not there. -/
theorem entries_setEntry_none_of_none (h : s.entries kind pk = none) :
    (s.setEntry kind pk none).entries = s.entries := by
  funext kind' pk'
  rw [entries_setEntry]
  split_ifs with hkey
  · rw [hkey.1, hkey.2, h]
  · rfl

theorem aliveAt_setPhase :
    (s.setPhase i t phase).AliveAt kind pk j ↔
      (j = i ∧ phase.isAlive = true ∧ t.kind = kind ∧ t.pubkey = pk) ∨
        (j ≠ i ∧ s.AliveAt kind pk j) := by
  by_cases hj : j = i
  · simp [AliveAt, setPhase, hj]
  · simp [AliveAt, setPhase, hj]

/-- While a task is alive, its phase does not matter. -/
theorem aliveAt_setPhase_of_alive (ht : s.task i = some t) (hold : t.phase.isAlive = true)
    (hnew : phase.isAlive = true) :
    (s.setPhase i t phase).AliveAt kind pk j ↔ s.AliveAt kind pk j := by
  rw [aliveAt_setPhase]
  by_cases hj : j = i
  · simp [AliveAt, hj, ht, hold, hnew]
  · simp [hj]

section

variable (h : Sound s)

include h

/-- The step changed no entry. -/
theorem Sound.of_same (hents : s'.entries = s.entries)
    (halive : ∀ kind pk i, s'.AliveAt kind pk i ↔ s.AliveAt kind pk i)
    (hcomp : s'.completed = s.completed) (hent : s'.entering = s.entering)
    (hrecon : s'.reconnect = s.reconnect) (hflag : s.isConnected = false → s'.isConnected = false) :
    Sound s' where
  entry_iff kind pk i := by rw [hents, halive, h.entry_iff]
  running := by rw [hents, hcomp]; exact h.running
  cleared := by rw [hents, hent]; exact h.cleared
  down := by rw [hrecon]; exact fun hdown => hflag (h.down hdown)
  quiet := by rw [hrecon, hent]; exact h.quiet
  awaited := by rw [hrecon, hents]; exact h.awaited
  fresh := by rw [hrecon, hents]; exact h.fresh

/-- A task that stays alive. -/
theorem Sound.setPhase (ht : s.task i = some t) (hold : t.phase.isAlive = true)
    (hnew : phase.isAlive = true) : Sound (s.setPhase i t phase) :=
  h.of_same rfl (fun _ _ _ => aliveAt_setPhase_of_alive ht hold hnew) rfl rfl rfl id

theorem Sound.entry_of_task (ht : s.task i = some t) (halive : t.phase.isAlive = true) :
    s.entries t.kind t.pubkey = some i :=
  (h.entry_iff _ _ _).mpr ⟨t, ht, halive, rfl, rfl⟩

/-- A subscription has one key. -/
theorem Sound.key_of_entry (ht : s.task i = some t) (hent : s.entries kind pk = some i) :
    kind = t.kind ∧ pk = t.pubkey := by
  obtain ⟨u, hu, -, rfl, rfl⟩ := (h.entry_iff _ _ _).mp hent
  cases ht.symm.trans hu
  exact ⟨rfl, rfl⟩

/-- A task takes out its own entry and no other. -/
theorem Sound.entries_remove (ht : s.task i = some t) (halive : t.phase.isAlive = true)
    (kind : Kind) (pk : Pubkey) (j : SubId) :
    (s.setEntry t.kind t.pubkey none).entries kind pk = some j ↔
      j ≠ i ∧ s.entries kind pk = some j := by
  have hent := h.entry_of_task ht halive
  rw [entries_setEntry]
  split_ifs with hkey
  · obtain ⟨rfl, rfl⟩ := hkey
    rw [hent, Option.some.injEq]
    exact ⟨nofun, fun hj => absurd hj.2.symm hj.1⟩
  · refine ⟨fun hj => ⟨?_, hj⟩, fun hj => hj.2⟩
    rintro rfl
    exact hkey (h.key_of_entry ht hj)

theorem Sound.remove (ht : s.task i = some t) (hph : t.phase = .removing) :
    Sound ((s.setEntry t.kind t.pubkey none).setPhase i t .completing) := by
  have halive : t.phase.isAlive = true := by rw [hph]; rfl
  have hents := h.entries_remove ht halive
  refine ⟨fun kind pk j => ?_, fun kind pk j hj => ?_, fun kind pk retries hent => ?_,
    h.down, h.quiet, fun kind pk j hj => ?_, fun kind pk j hseen => ?_⟩
  · rw [aliveAt_setPhase]
    refine (hents kind pk j).trans ?_
    rw [h.entry_iff]
    exact ⟨fun hj => .inr hj, fun hj => hj.resolve_left fun hdead => absurd hdead.2.1 nofun⟩
  · exact h.running kind pk j ((hents kind pk j).mp hj).2
  · change (s.setEntry t.kind t.pubkey none).entries kind pk = none
    rw [entries_setEntry]
    split_ifs
    · rfl
    · exact h.cleared kind pk retries hent
  · exact h.awaited kind pk j ((hents kind pk j).mp hj).2
  · change (s.setEntry t.kind t.pubkey none).entries kind pk = _ ∨
      (s.setEntry t.kind t.pubkey none).entries kind pk = none
    rw [entries_setEntry]
    split_ifs
    · exact .inr rfl
    · exact h.fresh kind pk j hseen

theorem Sound.complete (ht : s.task i = some t) (hph : t.phase = .completing) :
    Sound { s.setPhase i t .done with completed := update s.completed i true } := by
  have hdead (kind : Kind) (pk : Pubkey) (j : SubId) (hj : s.entries kind pk = some j) : j ≠ i := by
    rintro rfl
    obtain ⟨u, hu, halive, -⟩ := (h.entry_iff _ _ _).mp hj
    cases ht.symm.trans hu
    rw [hph] at halive
    cases halive
  refine ⟨fun kind pk j => ?_, fun kind pk j hj => ?_, h.cleared, h.down, h.quiet, h.awaited,
    h.fresh⟩
  · change s.entries kind pk = some j ↔ (s.setPhase i t .done).AliveAt kind pk j
    rw [aliveAt_setPhase]
    refine ⟨fun hj => .inr ⟨hdead kind pk j hj, (h.entry_iff _ _ _).mp hj⟩, fun hj => ?_⟩
    exact (h.entry_iff _ _ _).mpr (hj.resolve_left fun hdone => absurd hdone.2.1 nofun).2
  · change update s.completed i true j = false
    rw [update_of_ne (hdead kind pk j hj)]
    exact h.running kind pk j hj

end

theorem isAlive_afterAbort (holding : Bool) : (Phase.afterAbort holding).isAlive = true := by
  cases holding <;> rfl

/-- **A step of a task.** -/
theorem Sound.task (h : Sound s) (hstep : TaskStep i s s') : Sound s' := by
  cases hstep with
  | subscribed ht hph | retry ht hph => exact h.setPhase ht (by rw [hph]; rfl) rfl
  | wake ht hph => exact h.setPhase ht (by rw [hph]; rfl) rfl
  | reject ht hph _ _ => exact h.setPhase ht (by rw [hph]; rfl) rfl
  | disrupt ht hph _ => exact h.setPhase ht (by rw [hph]; rfl) rfl
  | stop ht hph => exact h.setPhase ht (by rw [hph]; rfl) rfl
  | ended ht hph => exact h.setPhase ht (by rw [hph]; rfl) rfl
  | swap ht hph _ =>
    exact (h.setPhase ht (by rw [hph]; rfl) rfl).of_same rfl (fun _ _ _ => Iff.rfl) rfl rfl rfl
      fun _ => rfl
  | skip ht hph _ => exact h.setPhase ht (by rw [hph]; rfl) (isAlive_afterAbort _)
  | cancelAccounts ht hph =>
    refine Sound.setPhase ?_ ht (by rw [hph]; rfl) rfl
    exact h.of_same rfl (fun _ _ _ => Iff.rfl) rfl rfl rfl id
  | cancelPrograms ht hph =>
    refine Sound.setPhase ?_ ht (by rw [hph]; rfl) (isAlive_afterAbort _)
    exact h.of_same rfl (fun _ _ _ => Iff.rfl) rfl rfl rfl id
  | unsubscribed ht hph => exact h.setPhase ht (by rw [hph]; rfl) rfl
  | remove ht hph => exact h.remove ht hph
  | complete ht hph => exact h.complete ht hph

/-! ### Messages -/

theorem Sound.not_isDraining (h : Sound s) (hent : s.entering = some e) :
    s.reconnect.isDraining = false := by
  rw [← Bool.not_eq_true]
  intro hdrain
  cases (h.quiet hdrain).symm.trans hent

/-- **A new subscription.** -/
theorem Sound.insert (h : Sound s) {retries : ℕ}
    (hent : s.entering = some (.cleared kind pk retries)) (hfr : s.task i = none) :
    Sound (s.insert kind pk retries i) := by
  have hvac := h.cleared kind pk retries hent
  have hnot := h.not_isDraining hent
  have hne (k : Kind) (p : Pubkey) (j : SubId) (hj : s.entries k p = some j) : j ≠ i := by
    rintro rfl
    obtain ⟨u, hu, -⟩ := (h.entry_iff _ _ _).mp hj
    cases hfr.symm.trans hu
  have hents (k : Kind) (p : Pubkey) (j : SubId) :
      (s.insert kind pk retries i).entries k p = some j ↔
        (j = i ∧ k = kind ∧ p = pk) ∨ s.entries k p = some j := by
    change (s.setEntry kind pk (some i)).entries k p = some j ↔ _
    rw [entries_setEntry]
    split_ifs with hkey
    · obtain ⟨rfl, rfl⟩ := hkey
      rw [hvac]
      refine ⟨fun hj => .inl ⟨(Option.some.inj hj).symm, rfl, rfl⟩, fun hj => ?_⟩
      rw [(hj.resolve_right nofun).1]
    · exact ⟨.inr, fun hj => hj.resolve_left fun hj => hkey hj.2⟩
  refine ⟨fun k p j => ?_, fun k p j hj => ?_, nofun, h.down, fun _ => rfl,
    fun k p j _ => (Reconnect.of_not_isDraining hnot _).1, fun k p j hseen => ?_⟩
  · rw [hents, h.entry_iff]
    by_cases hj : j = i
    · simp [AliveAt, Actor.insert, hj, hfr, Phase.isAlive, eq_comm (a := kind), eq_comm (a := pk)]
    · simp [AliveAt, Actor.insert, hj]
  · change update s.completed i false j = false
    obtain ⟨rfl, -⟩ | hj := (hents k p j).mp hj
    · rw [update_self]
    · rw [update_of_ne (hne k p j hj)]
      exact h.running k p j hj
  · have hseen : (k, p, j) ∈ s.reconnect.seen := hseen
    rw [(Reconnect.of_not_isDraining hnot (k, p, j)).2] at hseen
    exact absurd hseen List.not_mem_nil

/-- **A step of a message handler.** -/
theorem Sound.message (h : Sound s) (hstep : MessageStep s s') : Sound s' := by
  cases hstep with
  | load kind pk retries _ hconn _ =>
    refine ⟨h.entry_iff, h.running, nofun, h.down, fun hdrain => ?_, h.awaited, h.fresh⟩
    have hdown := h.down (Reconnect.isDown_of_isDraining hdrain)
    cases hdown.symm.trans hconn
  | present _ _ _ =>
    exact ⟨h.entry_iff, h.running, nofun, h.down, fun _ => rfl, h.awaited, h.fresh⟩
  | vacant hent hvac =>
    refine ⟨h.entry_iff, h.running, ?_, h.down, fun hdrain => ?_, h.awaited, h.fresh⟩
    · rintro k p r ⟨⟩
      exact hvac
    · cases (h.not_isDraining hent).symm.trans hdrain
  | replace _ hentry hcomp =>
    -- An entry whose task has finished is never found: the task took it out before.
    cases (h.running _ _ _ hentry).symm.trans hcomp
  | insert i hent hfr => exact h.insert hent hfr
  | unsubscribe _ _ _ => exact h.of_same rfl (fun _ _ _ => Iff.rfl) rfl rfl rfl id

/-! ### Reconnecting -/

theorem Sound.snapshotPrograms (h : Sound s)
    (hrecon : s.reconnect = .snapshotting seen) (hprogs : s.Snapshot .program programs) :
    Sound { s with reconnect := .waiting (seen ++ programs) false } := by
  have hdown := h.down (by rw [hrecon]; rfl)
  have hqt := h.quiet (by rw [hrecon]; rfl)
  have hawa := h.awaited
  have hfr := h.fresh
  rw [hrecon] at hawa hfr
  refine ⟨h.entry_iff, h.running, h.cleared, fun _ => hdown, fun _ => hqt, ?_, ?_⟩
  · intro kind pk i hent
    refine .inl (List.mem_append.mpr ?_)
    cases kind with
    | account => exact .inl (hawa _ _ _ hent rfl)
    | program => exact .inr ((hprogs _ _ _).mpr ⟨rfl, hent⟩)
  · intro kind pk i hseen
    obtain hseen | hseen := List.mem_append.mp hseen
    · exact hfr _ _ _ hseen
    · obtain ⟨rfl, hent⟩ := (hprogs _ _ _).mp hseen
      exact .inl hent

/-- The listener has finished: its entry is out already. -/
theorem Sound.finish (h : Sound s)
    (hrecon : s.reconnect = .waiting seen failed) (hseen : (kind, pk, i) ∈ seen)
    (hcomp : s.completed i = true) :
    Sound { s.setEntry kind pk none with
      reconnect := .waiting (seen.erase (kind, pk, i)) failed } := by
  have hdown := h.down (by rw [hrecon]; rfl)
  have hqt := h.quiet (by rw [hrecon]; rfl)
  have hawa := h.awaited
  have hfr := h.fresh
  rw [hrecon] at hawa hfr
  have hvac : s.entries kind pk = none := by
    refine (hfr kind pk i hseen).resolve_left fun hent => ?_
    cases (h.running _ _ _ hent).symm.trans hcomp
  have hents := entries_setEntry_none_of_none hvac
  refine ⟨?_, ?_, ?_, fun _ => hdown, fun _ => hqt, ?_, ?_⟩
  · rw [hents]
    exact h.entry_iff
  · rw [hents]
    exact h.running
  · rw [hents]
    exact h.cleared
  · rw [hents]
    intro k p j hent
    refine (hawa k p j hent).imp_left fun hmem => (List.mem_erase_of_ne ?_).mpr hmem
    rintro ⟨⟩
    cases hvac.symm.trans hent
  · rw [hents]
    intro k p j hmem
    exact hfr k p j (List.mem_of_mem_erase hmem)

/-- A step of the attempt that changes nothing else. -/
theorem Sound.setReconnect (h : Sound s) {reconnect : Reconnect}
    (hdown : reconnect.isDown = true → s.isConnected = false)
    (hqt : reconnect.isDraining = true → s.entering = none)
    (hawa : ∀ kind pk i, s.entries kind pk = some i → reconnect.Awaits (kind, pk, i))
    (hfr : ∀ kind pk i, (kind, pk, i) ∈ reconnect.seen →
      s.entries kind pk = some i ∨ s.entries kind pk = none) :
    Sound { s with reconnect := reconnect } :=
  ⟨h.entry_iff, h.running, h.cleared, hdown, hqt, hawa, hfr⟩

/-- **A step of a reconnect attempt.** -/
theorem Sound.reconnect (h : Sound s) (hstep : ReconnectStep s s') : Sound s' := by
  have hdown := h.down
  have hqt := h.quiet
  have hawa := h.awaited
  have hfr := h.fresh
  cases hstep with
  | request hidle hflag =>
    exact h.setReconnect (fun _ => hflag) nofun (fun _ _ _ _ => trivial) nofun
  | snapshotAccounts hreq hentering hseen =>
    rw [hreq] at hdown
    refine h.setReconnect (fun _ => hdown rfl) (fun _ => hentering) ?_ ?_
    · rintro kind pk i hent rfl
      exact (hseen _ _ _).mpr ⟨rfl, hent⟩
    · intro kind pk i hmem
      obtain ⟨rfl, hent⟩ := (hseen _ _ _).mp hmem
      exact .inl hent
  | snapshotPrograms hrecon hprogs => exact h.snapshotPrograms hrecon hprogs
  | cancel _ _ => exact h.of_same rfl (fun _ _ _ => Iff.rfl) rfl rfl rfl id
  | finish hrecon hseen hcomp => exact h.finish hrecon hseen hcomp
  | timeout hrecon _ =>
    rw [hrecon] at hdown hqt hfr
    refine h.setReconnect (fun _ => hdown rfl) (fun _ => hqt rfl) (fun _ _ _ _ => .inr rfl) ?_
    exact fun k p j hmem => hfr k p j (List.mem_of_mem_erase hmem)
  | drained hrecon =>
    rw [hrecon] at hdown hqt hawa
    refine h.setReconnect (fun _ => hdown rfl) (fun _ => hqt rfl) ?_ nofun
    exact fun k p j hent => (hawa k p j hent).elim List.not_mem_nil nofun
  | drop hrecon | connect hrecon =>
    rw [hrecon] at hdown hqt hawa
    exact h.setReconnect (fun _ => hdown rfl) (fun _ => hqt rfl) hawa nofun
  | verify hrecon =>
    exact ⟨h.entry_iff, h.running, h.cleared, nofun, nofun, fun _ _ _ _ => trivial, nofun⟩
  | undrained _ | unconnected _ => exact h.setReconnect nofun nofun (fun _ _ _ _ => trivial) nofun
  | unverified _ => exact h.setReconnect nofun nofun (fun _ _ _ _ => trivial) nofun
  | prune _ => exact h.setReconnect nofun nofun (fun _ _ _ _ => trivial) nofun

theorem sound_new : Sound new := by
  refine ⟨fun kind pk i => ⟨nofun, ?_⟩, nofun, nofun, nofun, nofun, nofun, nofun⟩
  rintro ⟨t, ht, -⟩
  cases ht

theorem sound_of_run (h : machine.Run es s) : Sound s := by
  refine Machine.Run.invariant ?_ ?_ h
  · rintro s rfl
    exact sound_new
  · intro es s e s' _ hs hstep
    cases hstep with
    | message hstep => exact hs.message hstep
    | task i hstep => exact hs.task hstep
    | reconnect hstep => exact hs.reconnect hstep

theorem isAlive_of_holds (h : phase.holds = true) : phase.isAlive = true := by
  cases phase <;> first | rfl | exact absurd h nofun

/-- **Pooled connections are replaced only when unused**: when a reconnect drops them, no pending
set-up and no listener has a stream.  And **a clean-up takes out its own entry**: a task that is
about to take out the entry of its key finds there its own. -/
theorem drops_unused_connections {es : List Unit} {s : Actor} (h : machine.Run es s) :
    (s.reconnect = .dropping → ∀ i t, s.task i = some t → t.phase.holds = false) ∧
      ∀ i t, s.task i = some t → t.phase = .removing → s.entries t.kind t.pubkey = some i := by
  have hs := sound_of_run h
  refine ⟨fun hdrop i t ht => ?_, fun i t ht hph => ?_⟩
  · rw [← Bool.not_eq_true]
    intro hholds
    have hawa := hs.awaited _ _ _ (hs.entry_of_task ht (isAlive_of_holds hholds))
    rw [hdrop] at hawa
    exact hawa
  · exact hs.entry_of_task ht (by rw [hph]; rfl)

/-- **A key has one task**, which is its entry exactly as long as it is alive. -/
theorem one_task_per_key {es : List Unit} {s : Actor} (h : machine.Run es s) (kind : Kind)
    (pk : Pubkey) : (∀ i, s.AliveAt kind pk i ↔ s.entries kind pk = some i) ∧
      ∀ i j, s.AliveAt kind pk i → s.AliveAt kind pk j → i = j := by
  have hent := (sound_of_run h).entry_iff kind pk
  refine ⟨fun i => (hent i).symm, fun i j hi hj => ?_⟩
  exact Option.some.inj (((hent i).mpr hi).symm.trans ((hent j).mpr hj))

/-- An account is subscribed to. -/
theorem run_insert : machine.Run [(), (), ()] (new.insert .account 5 1 0) := by
  have hrun : machine.Run [] new := .start rfl
  exact hrun.next () (.message (.load .account 5 1 rfl rfl nofun))
    |>.next () (.message (.vacant rfl rfl)) |>.next () (.message (.insert 0 rfl rfl))

theorem one_task_per_key_inserted : ∃ es s, machine.Run es s ∧ s.entries .account 5 = some 0 ∧
    ∀ i, s.AliveAt .account 5 i → i = 0 := by
  obtain ⟨hent, hone⟩ := one_task_per_key run_insert .account 5
  exact ⟨_, _, run_insert, rfl, fun i hi => hone i 0 hi ((hent 0).mpr rfl)⟩

theorem snapshot_nil (h : ∀ pk, s.entries kind pk = none) : s.Snapshot kind [] := by
  intro k p i
  simp [h p]

/-- A subscription whose stream ends, and the reconnect after it. -/
theorem drops_unused_connections_of_ended :
    ∃ es s, machine.Run es s ∧ s.reconnect = .dropping ∧
      ∃ t, s.task 0 = some t ∧ t.phase = .done ∧ t.phase.holds = false := by
  have hrun := run_insert.next () (.task 0 (.subscribed rfl rfl))
  have hrun := hrun.next () (.task 0 (.ended rfl rfl))
  have hrun := hrun.next () (.task 0 (.swap rfl rfl rfl))
  have hrun := hrun.next () (.task 0 (.cancelAccounts rfl rfl))
  have hrun := hrun.next () (.task 0 (.cancelPrograms rfl rfl))
  have hrun := hrun.next () (.task 0 (.unsubscribed rfl rfl))
  have hrun := hrun.next () (.task 0 (.remove rfl rfl))
  have hrun := hrun.next () (.task 0 (.complete rfl rfl))
  have hrun := hrun.next () (.reconnect (.request rfl rfl))
  have hrun := hrun.next () (.reconnect (.snapshotAccounts rfl rfl (snapshot_nil fun p => by
    by_cases hp : p = 5 <;> simp [setPhase, setEntry, cancelAll, Actor.insert, new, hp])))
  have hrun := hrun.next () (.reconnect (.snapshotPrograms rfl (snapshot_nil fun _ => rfl)))
  have hrun := hrun.next () (.reconnect (.drained rfl))
  exact ⟨_, _, hrun, rfl, _, rfl, rfl, (drops_unused_connections hrun).1 rfl 0 _ rfl⟩

/-! ### Confirmed subscriptions -/

/-- **`AccountSubscribe` is answered with `Ok`**: by its own set-up, or from an entry that is there.
-/
inductive Confirms (pubkey : Pubkey) (i : SubId) : Bool → Actor → Actor → Prop
  | own {s : Actor} {t : Task} {retries : ℕ} : s.task i = some t → t.phase = .settingUp retries →
      t.kind = .account → t.pubkey = pubkey → Confirms pubkey i true s (s.setPhase i t .listening)
  | found {s : Actor} {retries : ℕ} : s.entering = some (.loaded .account pubkey retries) →
      s.entries .account pubkey = some i → s.completed i = false →
      Confirms pubkey i false s { s with entering := none }

theorem Confirms.step {own : Bool} (h : Confirms pk i own s s') : Step s s' := by
  cases h with
  | own ht hph => exact .task i (.subscribed ht hph)
  | found hent hentry hcomp => exact .message (.present hent hentry (.inr hcomp))

/-- **A confirmed key has a subscription that has not completed**; one confirmed by its own set-up
has its listener.  It may be cancelled. -/
theorem confirmed_not_completed {es : List Unit} {s s' : Actor} {pk : Pubkey} {i : SubId}
    {own : Bool} (h : machine.Run es s) (hconfs : Confirms pk i own s s') :
    s'.entries .account pk = some i ∧ s'.completed i = false ∧
      s'.AliveAt .account pk i ∧
      (own = true → ∃ t, s'.task i = some t ∧ t.phase = .listening) := by
  have hs' := sound_of_run (h.next () hconfs.step)
  have hent : s'.entries .account pk = some i := by
    cases hconfs with
    | own ht hph hkind hpk =>
      exact hkind ▸ hpk ▸ (sound_of_run h).entry_of_task ht (by rw [hph]; rfl)
    | found _ hent _ => exact hent
  refine ⟨hent, hs'.running _ _ _ hent, (hs'.entry_iff _ _ _).mp hent, fun hown => ?_⟩
  cases hconfs with
  | own => exact ⟨_, Function.update_self .., rfl⟩
  | found => cases hown

/-- A second request is confirmed while the cancelled listener winds down. -/
theorem confirmed_cancelled : ∃ es s s', machine.Run es s ∧ Confirms 5 0 false s s' ∧
    ∀ i, s'.entries .account 5 = some i → s'.cancelled i = true := by
  have hrun := run_insert.next () (.task 0 (.subscribed rfl rfl))
  have hrun := hrun.next () (.message (@MessageStep.unsubscribe _ 5 0 rfl rfl rfl))
  have hrun := hrun.next () (.message (.load .account 5 1 rfl rfl nofun))
  refine ⟨_, _, _, hrun, .found rfl rfl rfl, ?_⟩
  rintro _ ⟨⟩
  rfl

/-- A set-up that succeeds. -/
theorem confirmed_not_completed_own : ∃ es s s', machine.Run es s ∧ Confirms 5 0 true s s' ∧
    s'.completed 0 = false := by
  exact ⟨_, _, _, run_insert, .own rfl rfl rfl rfl,
    (confirmed_not_completed run_insert (.own rfl rfl rfl rfl)).2.1⟩

end Actor

end Magicblock.Pubsub
