import Magicblock.Submux.Clients

/-!
# Submux/Programs — every connected client watches every program

A program goes into the shared set before the connected clients are looked up, and a client goes
into the connected ids before it reads the set.  So a connected client that is not subscribed to a
program of the set is owed the subscription by somebody: by its reconnector, by `add_client`, or by
the `subscribe_program` that put the program in.  When nobody is at work, nothing is owed.

That holds as long as no call to a client fails.
-/

namespace Magicblock.Submux

open Finset Attach

variable {key : ClientKey} {program : Pubkey}

/-- The replay still comes to the program. -/
def Reconnector.owes (program : Pubkey) : Reconnector → Prop
  | .showing | .counting | .snapshotting => True
  | .replaying programs => program ∈ programs
  | _ => False

/-- The second pass of `add_client` still comes to the program. -/
def Attach.owes (program : Pubkey) : Attach → Prop
  | .counting | .spawning | .snapshotting true => True
  | .subscribing true programs => program ∈ programs
  | _ => False

/-- The operation will call the client for the program, or take the program out again. -/
def Subscribe.Owes (key : ClientKey) (program : Pubkey) : Option Subscribe → Prop
  | some (.listing p) | some (.removing p) => p = program
  | some (.filtering p clients) => p = program ∧ key ∈ clients
  | some (.calling p clients _ _) => p = program ∧ key ∈ clients
  | _ => False

/-- `reconnect_client` is running. -/
def Reconnector.isReconnecting : Reconnector → Bool
  | .unspawned | .receiving | .draining | .concealing false | .uncounting false => false
  | _ => true

/-- `add_client` is running. -/
def Attach.isAttaching : Attach → Bool
  | .outside | .removed | .attached => false
  | _ => true

namespace Clients

/-- The client is subscribed to the program, or somebody owes it to the client. -/
def Owed (s : Clients) (key : ClientKey) (program : Pubkey) : Prop :=
  program ∈ (s.client key).subs ∨ (s.client key).reconnector.owes program ∨
    (s.client key).attach.owes program ∨ ∃ op, Subscribe.Owes key program (s.subscribing op)

/-- No operation is running. -/
def Quiet (s : Clients) : Prop :=
  (∀ op, s.subscribing op = none) ∧
    ∀ key, (s.client key).reconnector.isReconnecting = false ∧
      (s.client key).attach.isAttaching = false

theorem Owed.of_quiet {s : Clients} (h : s.Owed key program) (hqt : s.Quiet) :
    program ∈ (s.client key).subs := by
  obtain ⟨hops, hts⟩ := hqt
  obtain ⟨hrec, hatt⟩ := hts key
  obtain h | h | h | ⟨op, h⟩ := h
  · exact h
  · generalize (s.client key).reconnector = phase at h hrec
    cases phase <;> simp_all [Reconnector.owes, Reconnector.isReconnecting]
  · generalize (s.client key).attach = phase at h hatt
    cases phase <;> simp_all [owes, isAttaching]
  · rw [hops op] at h
    exact h.elim

end Clients

/-! ### One client -/

section Client

variable {r : Roster} {c : Client} {X : Pubkey → Prop}

/-- `add_client` has not failed. -/
def Attach.hasFailed : Attach → Bool
  | .removing | .unlisting | .removed => true
  | _ => false

/-- The client is in the list of clients. -/
def Attach.isListed : Attach → Bool
  | .outside | .pushing => false
  | _ => true

/-- A client is in the list of clients before it is connected, and stays there. -/
structure Client.Placed (r : Roster) (key : ClientKey) (c : Client) : Prop where
  listed : key ∈ r.connectedIds → key ∈ r.clients
  attaching : c.attach.hasFailed = false
  outside : key ∉ r.clients → c.attach.isListed = false ∧ c.reconnector = .unspawned

/-- A connected client has every program, or it is owed the program, by one of its tasks or by
others (`X`). -/
def Client.Settled (r : Roster) (key : ClientKey) (X : Pubkey → Prop) (c : Client) : Prop :=
  key ∈ r.connectedIds → ∀ program ∈ r.programs,
    program ∈ c.subs ∨ c.reconnector.owes program ∨ c.attach.owes program ∨ X program

theorem ReconnectStep.placed (h : ReconnectStep key r c .moved r' c') (hplace : c.Placed r key) :
    c'.Placed r' key where
  listed _ := by
    rw [h.clients_eq]
    by_contra hkey
    exact h.spawned (hplace.outside hkey).2
  attaching := by
    rw [h.attach_eq]
    exact hplace.attaching
  outside hkey := by
    rw [h.clients_eq] at hkey
    exact absurd (hplace.outside hkey).2 h.spawned

theorem ReconnectStep.settled (h : ReconnectStep key r c .moved r' c')
    (hsett : c.Settled r key X) : c'.Settled r' key X := by
  intro hkey program hprog
  rw [h.elsewhere.programs] at hprog
  have howed (hmem : key ∈ r.connectedIds) := hsett hmem program hprog
  cases h
  case snapshot hph hlists => exact .inr (.inl ((hlists.2 program).mpr hprog))
  case uncount rollback hph =>
    rw [hph] at howed
    exact (howed hkey).imp_right fun h => .inr (h.resolve_left id)
  case replay called rest hph =>
    rw [hph] at howed
    obtain hmem | hmem | hmem := howed hkey
    · exact .inl (mem_insert_of_mem hmem)
    · obtain rfl | hmem := List.mem_cons.mp hmem
      · exact .inl (mem_insert_self _ _)
      · exact .inr (.inl hmem)
    · exact .inr (.inr hmem)
  all_goals
    simp_all [Reconnector.owes, Roster.connect, Roster.disconnect, Roster.increment]

theorem Client.Placed.of_mem (hmem : key ∈ r.clients) (hatt : c.attach.hasFailed = false) :
    c.Placed r key :=
  ⟨fun _ => hmem, hatt, fun hkey => absurd hmem hkey⟩

theorem Client.Placed.mem (hplace : c.Placed r key) (hlist : c.attach.isListed = true) :
    key ∈ r.clients := by
  by_contra hkey
  cases (hplace.outside hkey).1.symm.trans hlist

theorem AttachStep.placed (h : AttachStep key r c .moved r' c') (hplace : c.Placed r key) :
    c'.Placed r' key := by
  have hattg := hplace.attaching
  cases h
  case begin => exact ⟨hplace.listed, rfl, fun hkey => ⟨rfl, (hplace.outside hkey).2⟩⟩
  case push => exact .of_mem (mem_insert_self key _) rfl
  case restore catchUp hph =>
    refine .of_mem (hplace.mem (by rw [hph]; rfl)) ?_
    cases catchUp <;> rfl
  case count hph =>
    refine .of_mem (hplace.mem (by rw [hph]; rfl) : key ∈ r.increment.clients) rfl
  case snapshot hph _ => exact .of_mem (hplace.mem (by rw [hph]; rfl)) rfl
  case remove hph => rw [hph] at hattg; exact absurd hattg nofun
  case unlist hph => rw [hph] at hattg; exact absurd hattg nofun
  all_goals
    rename_i hph
    exact .of_mem (hplace.mem (by rw [hph]; rfl)) rfl

theorem AttachStep.settled (h : AttachStep key r c .moved r' c') (hsett : c.Settled r key X) :
    c'.Settled r' key X := by
  intro hkey program hprog
  rw [h.elsewhere.programs] at hprog
  have howed (hmem : key ∈ r.connectedIds) := hsett hmem program hprog
  cases h
  case snapshot catchUp l hph hlists =>
    rw [hph] at howed
    cases catchUp with
    | true => exact .inr (.inr (.inl ((hlists.2 program).mpr hprog)))
    | false => exact howed hkey
  case subscribe catchUp called rest hph =>
    rw [hph] at howed
    obtain hmem | hmem | hmem | hmem := howed hkey
    · exact .inl (mem_insert_of_mem hmem)
    · exact .inr (.inl hmem)
    · cases catchUp with
      | true =>
        obtain rfl | hmem := List.mem_cons.mp hmem
        · exact .inl (mem_insert_self _ _)
        · exact .inr (.inr (.inl hmem))
      | false => exact hmem.elim
    · exact .inr (.inr (.inr hmem))
  case subscribed catchUp hph => cases catchUp <;> simp_all [owes]
  case restore catchUp hph => cases catchUp <;> simp_all [owes]
  all_goals simp_all [owes, Roster.connect, Roster.disconnect, Roster.increment]

theorem Client.Placed.elsewhere (hels : r.Elsewhere other r')
    (hne : key ≠ other) (hplace : c.Placed r key) : c.Placed r' key where
  listed hkey := (hels.clients key hne).mpr (hplace.listed ((hels.connectedIds key hne).mp hkey))
  attaching := hplace.attaching
  outside hkey := hplace.outside fun hmem => hkey ((hels.clients key hne).mpr hmem)

theorem Client.Settled.elsewhere (hels : r.Elsewhere other r')
    (hne : key ≠ other) (hsett : c.Settled r key X) : c.Settled r' key X := by
  intro hkey program hprog
  rw [hels.programs] at hprog
  exact hsett ((hels.connectedIds key hne).mp hkey) program hprog

/-- **Subscribing owes before it is seen**: what is owed stays owed, and a new program is owed. -/
theorem SubscribeStep.owes (h : SubscribeStep r o r' o')
    (hkey : key ∈ r.connectedIds) (hlist : key ∈ r.clients) (hprog : program ∈ r'.programs) :
    Subscribe.Owes key program o' ∨ (program ∈ r.programs ∧ ¬ Subscribe.Owes key program o) := by
  cases h with
  | begin | present => exact .inr ⟨hprog, id⟩
  | insert =>
    obtain rfl | hprog := mem_insert.mp hprog
    · exact .inl rfl
    · exact .inr ⟨hprog, id⟩
  | @list called =>
    -- The client is among those that are listed.
    by_cases hcall : called = program
    · exact .inl ⟨hcall, hlist⟩
    · exact .inr ⟨hprog, hcall⟩
  | @filter called clients =>
    by_cases howed : called = program ∧ key ∈ clients
    · exact .inl ⟨howed.1, mem_inter.mpr ⟨howed.2, hkey⟩⟩
    · exact .inr ⟨hprog, howed⟩
  | @poll called | @giveUp called =>
    by_cases hcall : called = program
    · exact .inl hcall
    · exact .inr ⟨hprog, fun howed => hcall howed.1⟩
  | confirmed | unconfirmed => exact .inr ⟨hprog, fun howed => notMem_empty _ howed.2⟩
  | remove =>
    obtain ⟨hne, hprog⟩ := mem_erase.mp hprog
    exact .inr ⟨hprog, fun howed => hne howed.symm⟩

end Client

namespace Clients

variable {s t : Clients}

/-- **Nothing is lost**: every connected client has, or is owed, every program. -/
structure Watched (s : Clients) : Prop where
  placed : ∀ key, (s.client key).Placed s.roster key
  settled : ∀ key, (s.client key).Settled s.roster key fun program =>
    ∃ op, Subscribe.Owes key program (s.subscribing op)

/-- It is enough to look at the client that moved. -/
theorem Watched.setClient (h : Watched s) (hels : s.roster.Elsewhere key r)
    (hplace : c.Placed r key)
    (hsett : c.Settled r key fun program => ∃ op, Subscribe.Owes key program (s.subscribing op)) :
    Watched (s.setClient r key c) where
  placed other := by
    by_cases hoth : other = key
    · rw [hoth, client_setClient_self]
      exact hplace
    · rw [client_setClient_of_ne s r c hoth]
      exact (h.placed other).elsewhere hels hoth
  settled other := by
    by_cases hoth : other = key
    · rw [hoth, client_setClient_self]
      exact hsett
    · rw [client_setClient_of_ne s r c hoth]
      exact (h.settled other).elsewhere hels hoth

/-- What the operation no longer owes, the client has, or it was not owed. -/
theorem Watched.setSubscribing (h : Watched s)
    (hcls : r.clients = s.roster.clients) (hids : r.connectedIds = s.roster.connectedIds)
    (howes : ∀ key ∈ s.roster.connectedIds, ∀ program ∈ r.programs,
      program ∈ (s.client key).subs ∨ Subscribe.Owes key program o ∨
        (program ∈ s.roster.programs ∧ ¬ Subscribe.Owes key program (s.subscribing op))) :
    Watched (s.setSubscribing r op o) where
  placed key := by
    obtain ⟨hlist, hattg, houts⟩ := h.placed key
    rw [← hcls] at hlist houts
    rw [← hids] at hlist
    exact ⟨hlist, hattg, houts⟩
  settled key := by
    intro hkey program hprog
    replace hkey : key ∈ s.roster.connectedIds := hids ▸ hkey
    obtain hsub | hnew | ⟨hold, hnot⟩ := howes key hkey program hprog
    · exact .inl hsub
    · exact .inr (.inr (.inr ⟨op, by simpa [Clients.setSubscribing] using hnew⟩))
    · refine (h.settled key hkey program hold).imp_right (.imp_right (.imp_right ?_))
      rintro ⟨other, hoth⟩
      have hne : other ≠ op := fun heq => hnot (heq ▸ hoth)
      exact ⟨other, by simpa [Clients.setSubscribing, hne] using hoth⟩

theorem Watched.call (h : Watched s)
    (hop : s.subscribing op = some (.calling program clients required successes)) :
    Watched ((s.setClient s.roster key
        { s.client key with subs := insert program (s.client key).subs }).setSubscribing s.roster op
      (some (.calling program (clients.erase key) required successes'))) := by
  have hcall : Watched (s.setClient s.roster key
      { s.client key with subs := insert program (s.client key).subs }) := by
    have hplace := h.placed key
    refine h.setClient (s.roster.elsewhere_counted key _)
      ⟨hplace.listed, hplace.attaching, hplace.outside⟩ fun hkey wanted hwant => ?_
    exact (h.settled key hkey wanted hwant).imp_left mem_insert_of_mem
  refine hcall.setSubscribing rfl rfl fun other _ wanted hwant => ?_
  by_cases howed : Subscribe.Owes other wanted (s.subscribing op)
  · rw [hop] at howed
    obtain ⟨rfl, hmem⟩ := howed
    by_cases hoth : other = key
    · rw [hoth, client_setClient_self]
      exact .inl (mem_insert_self _ _)
    · exact .inr (.inl ⟨rfl, mem_erase_of_ne_of_mem hoth hmem⟩)
  · exact .inr (.inr ⟨hwant, howed⟩)

theorem Watched.abort (h : Watched s) (hstep : AbortStep (s.client key) c) :
    Watched (s.setClient s.roster key c) := by
  have hplace := h.placed key
  have hsett := h.settled key
  refine h.setClient (s.roster.elsewhere_counted key _) ?_ ?_
  · cases hstep <;> exact ⟨hplace.listed, hplace.attaching, hplace.outside⟩
  · cases hstep <;> exact hsett

theorem Watched.step (h : Watched s) (hstep : Step subsImmediately s .moved t) : Watched t := by
  cases hstep with
  | abort key hstep => exact h.abort hstep
  | reconnect key hstep | attach key hstep =>
    exact h.setClient hstep.elsewhere (hstep.placed (h.placed key)) (hstep.settled (h.settled key))
  | subscribe op hstep =>
    refine h.setSubscribing hstep.clients_eq hstep.connectedIds_eq fun key hkey program hprog => ?_
    exact .inr (hstep.owes hkey ((h.placed key).listed hkey) hprog)
  | call op key hop _ => exact h.call hop

theorem watched_new : Watched (new transport clients) where
  placed key := by
    by_cases hkey : key ∈ clients
    · exact .of_mem hkey (by simp [new, initialClient, hkey, hasFailed])
    · refine ⟨id, ?_, fun _ => ?_⟩ <;>
        simp [new, initialClient, hkey, hasFailed, isListed]
  settled _ _ _ hprog := absurd hprog (notMem_empty _)

/-- The runs in which every call to a client succeeds. -/
def faultless (subsImmediately : ClientKey → Bool) : Machine Clients ClientsEvent :=
  (machine subsImmediately).guarded fun _ e => e ≠ .failed

/-- **Every connected client watches every program**, whenever no operation is running. -/
theorem connected_watch_programs (subsImmediately : ClientKey → Bool) {es : List ClientsEvent}
    {s : Clients} (h : (faultless subsImmediately).Run es s) (hqt : s.Quiet) :
    ∀ key ∈ s.roster.connectedIds, ∀ program ∈ s.roster.programs,
      program ∈ (s.client key).subs := by
  have hwatch : Watched s := by
    refine Machine.Run.invariant ?_ ?_ h
    · rintro s ⟨transport, clients, -, rfl⟩
      exact watched_new
    · rintro es s e t - hs ⟨hmov, hstep⟩
      cases e with
      | moved => exact hs.step hstep
      | failed => exact absurd rfl hmov
  intro key hkey program hprog
  exact Owed.of_quiet (hwatch.settled key hkey program hprog) hqt

/-- A program is subscribed at the one client there is. -/
theorem exists_subscribed_run : ∃ es s, (faultless fun _ => true).Run es s ∧ s.Quiet ∧
    s.roster.connectedIds = {1} ∧ s.roster.programs = {(7 : Pubkey)} ∧
    (s.client 2).attach = .outside := by
  have next {es : List ClientsEvent} {s t : Clients} (h : (faultless fun _ => true).Run es s)
      (hstep : Step (fun _ => true) s .moved t) :
      (faultless fun _ => true).Run (es ++ [.moved]) t :=
    h.step ⟨nofun, hstep⟩
  have hrun : (faultless fun _ => true).Run [] (new (fun _ => some true) {1}) :=
    .start ⟨fun _ => some true, {1}, fun _ => nofun, rfl⟩
  have hrun := next hrun (.subscribe 0 (.begin 7))
  have hrun := next hrun (.subscribe 0 (.insert (by decide)))
  have hrun := next hrun (.subscribe 0 .list)
  have hrun := next hrun (.subscribe 0 (.filter 1 (by decide) Nat.one_pos))
  have hrun := next hrun (.call 0 1 rfl (by decide))
  have hrun := next hrun (.subscribe 0 (.confirmed (by decide)))
  refine ⟨_, _, hrun, ⟨?_, ?_⟩, by decide, by decide, rfl⟩
  · intro op
    by_cases hop : op = 0 <;> simp [setSubscribing, setClient, new, hop]
  · intro key
    by_cases hkey : key = 1 <;>
      simp [setSubscribing, setClient, new, initialClient, hkey, Reconnector.isReconnecting,
        isAttaching]

theorem run_attach {subsImmediately : ClientKey → Bool} {c : Client}
    (h : (faultless subsImmediately).Run es (s.setClient r key c))
    (hstep : AttachStep key r c .moved r' c') :
    (faultless subsImmediately).Run (es ++ [.moved]) (s.setClient r' key c') := by
  have hnext : Step subsImmediately (s.setClient r key c) .moved
      ((s.setClient r key c).setClient r' key c') := .attach key (by simpa [setClient] using hstep)
  have hrun : (faultless subsImmediately).Run (es ++ [.moved]) _ := h.step ⟨nofun, hnext⟩
  simpa [setClient] using hrun

theorem quiet_setClient (hqt : s.Quiet) (hrec : c.reconnector.isReconnecting = false)
    (hatt : c.attach.isAttaching = false) : (s.setClient r key c).Quiet := by
  refine ⟨hqt.1, fun other => ?_⟩
  by_cases hkey : other = key
  · rw [hkey, client_setClient_self]
    exact ⟨hrec, hatt⟩
  · rw [s.client_setClient_of_ne r c hkey]
    exact hqt.2 other

/-- A client that is attached later watches the program, too. -/
theorem connected_watch_programs_of_attached :
    ∃ es s, (faultless fun _ => true).Run es s ∧ s.Quiet ∧ s.roster.connectedIds = {2, 1} ∧
      (7 : Pubkey) ∈ s.roster.programs ∧ (7 : Pubkey) ∈ (s.client 2).subs := by
  obtain ⟨es, s, hrun, hqt, hconn, hprogs, houts⟩ := exists_subscribed_run
  have hlists : Lists s.roster.programs [7] := by simp [Lists, hprogs]
  have hsame : s.setClient s.roster 2 (s.client 2) = s := by simp [setClient]
  rw [← hsame] at hrun
  have hpush := run_attach (run_attach hrun (.begin houts)) (.push rfl)
  have hpass := run_attach (run_attach (run_attach (run_attach hpush (.snapshot rfl hlists))
    (.subscribe rfl)) (.subscribed rfl)) (.restore rfl)
  have hspawn := run_attach (run_attach (run_attach hpass (.reveal rfl)) (.count rfl)) (.spawn rfl)
  have hatt := run_attach (run_attach (run_attach (run_attach hspawn (.snapshot rfl hlists))
    (.subscribe rfl)) (.subscribed rfl)) (.restore rfl)
  have hprog : 7 ∈ s.roster.programs := hprogs ▸ Finset.mem_singleton_self 7
  exact ⟨_, _, hatt, quiet_setClient hqt rfl rfl, congrArg (insert 2) hconn, hprog,
    connected_watch_programs _ hatt (quiet_setClient hqt rfl rfl) 2
      (Finset.mem_insert_self ..) 7 hprog⟩

end Clients

end Magicblock.Submux
