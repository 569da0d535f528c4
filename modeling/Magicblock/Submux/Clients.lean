import Magicblock.Foundations.History
import Magicblock.Intent.Types

/-!
# Submux/Clients — the clients of a mux: attaching, aborting, reconnecting, watching programs

Every client of the mux has a reconnector, a task that waits for abort signals of the client, takes
it out of the set of connected ids, reconnects it, puts it back and replays the program and account
subscriptions.  Clients are attached while the mux runs (`add_client`), and a program is subscribed
at all clients that are connected (`subscribe_program`).  All of these go on at the same time; a
step is what one of them does between two points at which others can see it.

A client that reports its transport is a websocket client; the others report nothing.  Ids of
clients are distinct.  The number of confirmations that `subscribe_program` waits for comes from a
counter and is at least one: here any such number may come.
-/

namespace Magicblock.Submux

/-- `client_key`. -/
abbrev ClientKey := ℕ

/-- What a task does next. -/
inductive Reconnector
  /-- There is no task yet. -/
  | unspawned
  /-- `abort_rx.recv().await` -/
  | receiving
  /-- `while abort_rx.try_recv().is_ok() {}` -/
  | draining
  /-- Takes the id out, after an abort or to roll a failed replay back. -/
  | concealing (rollback : Bool)
  /-- The id is out, and `connected_clients` is still to be decreased. -/
  | uncounting (rollback : Bool)
  /-- `client.transport_connected()` -/
  | checking
  /-- In `client.try_reconnect()`, until the flag is set. -/
  | reconnecting
  /-- Still in `client.try_reconnect()`, after the flag was set. -/
  | pruning
  | showing
  /-- The id is in, and `connected_clients` is still to be increased. -/
  | counting
  /-- Reads `program_subs`. -/
  | snapshotting
  | replaying (programs : List Pubkey)
  /-- `client.resub_multiple(account_subs)` -/
  | restoring
  | backingOff
  deriving DecidableEq

/-- What `add_client` does next; there are two passes over the programs, the second to catch up. -/
inductive Attach
  /-- Not handed to the mux. -/
  | outside
  | pushing
  | snapshotting (catchUp : Bool)
  | subscribing (catchUp : Bool) (programs : List Pubkey)
  | restoring (catchUp : Bool)
  | showing
  | counting
  | spawning
  /-- `remove_client`: out of the list, and then out of the connected ids. -/
  | removing
  | unlisting
  | removed
  | attached
  deriving DecidableEq

/-- What `subscribe_program` and the task that it spawns do next. -/
inductive Subscribe
  | inserting (program : Pubkey)
  /-- Reads the list of clients. -/
  | listing (program : Pubkey)
  /-- Reads the connected ids. -/
  | filtering (program : Pubkey) (clients : Finset ClientKey)
  /-- The calls that are not answered yet. -/
  | calling (program : Pubkey) (clients : Finset ClientKey) (required successes : ℕ)
  /-- Takes the program out again. -/
  | removing (program : Pubkey)

/-- **A client and its tasks**. -/
structure Client where
  /-- The flag `is_connected` of a websocket client. -/
  transport : Option Bool
  /-- The signals in the abort channel. -/
  signals : ℕ
  /-- Aborts that have cleared the flag and not sent their signal. -/
  halfway : ℕ
  /-- The programs whose subscription succeeded at the client since it was last reconnected. -/
  subs : Finset Pubkey
  reconnector : Reconnector
  attach : Attach

/-- What the tasks share. -/
structure Roster where
  programs : Finset Pubkey
  clients : Finset ClientKey
  connectedIds : Finset ClientKey
  /-- An `AtomicU16`. -/
  connectedClients : ℕ

structure Clients where
  roster : Roster
  client : ClientKey → Client
  subscribing : ℕ → Option Subscribe

/-- Whether a call to a client failed. -/
inductive ClientsEvent
  | moved
  | failed
  deriving DecidableEq

/-- `mpsc::channel(1)`. -/
def abortCapacity : ℕ := 1

namespace Roster

def connect (r : Roster) (key : ClientKey) : Roster :=
  { r with connectedIds := insert key r.connectedIds }

def disconnect (r : Roster) (key : ClientKey) : Roster :=
  { r with connectedIds := r.connectedIds.erase key }

/-- `fetch_add(1)`. -/
def increment (r : Roster) : Roster :=
  { r with connectedClients := (r.connectedClients + 1) % 2 ^ 16 }

/-- `fetch_sub(1)`. -/
def decrement (r : Roster) : Roster :=
  { r with connectedClients := (r.connectedClients + (2 ^ 16 - 1)) % 2 ^ 16 }

end Roster

/-- A set in the order in which it is iterated. -/
def Lists (programs : Finset Pubkey) (l : List Pubkey) : Prop :=
  l.Nodup ∧ ∀ program, program ∈ l ↔ program ∈ programs

/-! ### Steps -/

/-- After the id is out: a rolled back replay waits, the others go on to reconnect. -/
def Reconnector.afterHide : Bool → Reconnector
  | true => .backingOff
  | false => .checking

/-- A connection fails: the flag is cleared, and later the signal is sent (`try_send`). -/
inductive AbortStep : Client → Client → Prop
  | abort : c.transport ≠ some false →
      AbortStep c { c with transport := c.transport.map fun _ => false, halfway := c.halfway + 1 }
  | signal {n : ℕ} : c.halfway = n + 1 →
      AbortStep c { c with halfway := n, signals := min (c.signals + 1) abortCapacity }

/-- `spawn_reconnectors`, `reconnect_client_with_backoff` and `reconnect_client`. -/
inductive ReconnectStep (key : ClientKey) : Roster → Client → ClientsEvent → Roster → Client → Prop
  | receive {n : ℕ} : c.reconnector = .receiving → c.signals = n + 1 →
      ReconnectStep key r c .moved r { c with reconnector := .draining, signals := n }
  | drain {n : ℕ} : c.reconnector = .draining → c.signals = n + 1 →
      ReconnectStep key r c .moved r { c with signals := n }
  | drained : c.reconnector = .draining → c.signals = 0 →
      ReconnectStep key r c .moved r { c with reconnector := .concealing false }
  | hide : c.reconnector = .concealing rollback →
      key ∈ r.connectedIds →
      ReconnectStep key r c .moved (r.disconnect key) { c with reconnector := .uncounting rollback }
  | hidden : c.reconnector = .concealing rollback →
      key ∉ r.connectedIds →
      ReconnectStep key r c .moved r { c with reconnector := .afterHide rollback }
  | uncount : c.reconnector = .uncounting rollback →
      ReconnectStep key r c .moved r.decrement { c with reconnector := .afterHide rollback }
  /-- The transport is connected: its subscriptions are restored. -/
  | skip : c.reconnector = .checking → c.transport = some true →
      ReconnectStep key r c .moved r { c with reconnector := .showing }
  | call : c.reconnector = .checking → c.transport ≠ some true →
      ReconnectStep key r c .moved r { c with reconnector := .reconnecting }
  | connect : c.reconnector = .reconnecting → ReconnectStep key r c .moved r
        { c with reconnector := .pruning, transport := c.transport.map fun _ => true }
  | refuse : c.reconnector = .reconnecting →
      ReconnectStep key r c .failed r { c with reconnector := .backingOff }
  | reconnected : c.reconnector = .pruning →
      ReconnectStep key r c .moved r { c with reconnector := .showing, subs := ∅ }
  | reveal : c.reconnector = .showing → key ∉ r.connectedIds →
      ReconnectStep key r c .moved (r.connect key) { c with reconnector := .counting }
  | revealed : c.reconnector = .showing → key ∈ r.connectedIds →
      ReconnectStep key r c .moved r { c with reconnector := .snapshotting }
  | count : c.reconnector = .counting →
      ReconnectStep key r c .moved r.increment { c with reconnector := .snapshotting }
  | snapshot {l : List Pubkey} : c.reconnector = .snapshotting →
      Lists r.programs l →
      ReconnectStep key r c .moved r { c with reconnector := .replaying l }
  | replay :
      c.reconnector = .replaying (program :: l) →
      ReconnectStep key r c .moved r
        { c with reconnector := .replaying l, subs := insert program c.subs }
  | replayFailed :
      c.reconnector = .replaying (program :: l) →
      ReconnectStep key r c .failed r { c with reconnector := .concealing true }
  | replayed : c.reconnector = .replaying [] →
      ReconnectStep key r c .moved r { c with reconnector := .restoring }
  | restore : c.reconnector = .restoring →
      ReconnectStep key r c .moved r { c with reconnector := .receiving }
  /-- A client whose transport is connected stays visible. -/
  | restoreFailed : c.reconnector = .restoring → ReconnectStep key r c .failed r
        { c with reconnector := if c.transport = some true then .backingOff else .concealing true }
  | retry : c.reconnector = .backingOff →
      ReconnectStep key r c .moved r { c with reconnector := .checking }

/-- `add_client`.  What fails in the first pass removes the client; in the second it is logged. -/
inductive AttachStep (key : ClientKey) : Roster → Client → ClientsEvent → Roster → Client → Prop
  | begin : c.attach = .outside → AttachStep key r c .moved r { c with attach := .pushing }
  | push : c.attach = .pushing →
      AttachStep key r c .moved { r with clients := insert key r.clients }
        { c with attach := .snapshotting false }
  | snapshot {l : List Pubkey} :
      c.attach = .snapshotting catchUp → Lists r.programs l →
      AttachStep key r c .moved r { c with attach := .subscribing catchUp l }
  | subscribe {program : Pubkey} {l : List Pubkey} :
      c.attach = .subscribing catchUp (program :: l) →
      AttachStep key r c .moved r
        { c with attach := .subscribing catchUp l, subs := insert program c.subs }
  | subscribeFailed {catchUp : Bool} {program : Pubkey} {l : List Pubkey} :
      c.attach = .subscribing catchUp (program :: l) →
      AttachStep key r c .failed r
        { c with attach := if catchUp then .subscribing true l else .removing }
  | subscribed : c.attach = .subscribing catchUp [] →
      AttachStep key r c .moved r { c with attach := .restoring catchUp }
  | restore {catchUp : Bool} : c.attach = .restoring catchUp →
      AttachStep key r c .moved r { c with attach := if catchUp then .attached else .showing }
  | restoreFailed {catchUp : Bool} : c.attach = .restoring catchUp →
      AttachStep key r c .failed r { c with attach := if catchUp then .attached else .removing }
  | reveal : c.attach = .showing →
      AttachStep key r c .moved (r.connect key) { c with attach := .counting }
  | count : c.attach = .counting →
      AttachStep key r c .moved r.increment { c with attach := .spawning }
  | spawn : c.attach = .spawning → AttachStep key r c .moved r
        { c with attach := .snapshotting true, reconnector := .receiving }
  | remove : c.attach = .removing →
      AttachStep key r c .moved { r with clients := r.clients.erase key }
        { c with attach := .unlisting }
  | unlist : c.attach = .unlisting →
      AttachStep key r c .moved (r.disconnect key) { c with attach := .removed }

/-- `subscribe_program` up to its calls: what it does to the programs, and what it does next. -/
inductive SubscribeStep : Roster → Option Subscribe → Roster → Option Subscribe → Prop
  | begin (program : Pubkey) : SubscribeStep r none r (some (.inserting program))
  | insert {program : Pubkey} : program ∉ r.programs →
      SubscribeStep r (some (.inserting program)) { r with programs := insert program r.programs }
        (some (.listing program))
  | present {program : Pubkey} : program ∈ r.programs →
      SubscribeStep r (some (.inserting program)) r none
  | list : SubscribeStep r (some (.listing program)) r (some (.filtering program r.clients))
  | filter {clients : Finset ClientKey} (required : ℕ) :
      (clients ∩ r.connectedIds).Nonempty → 0 < required →
      SubscribeStep r (some (.filtering program clients)) r
        (some (.calling program (clients ∩ r.connectedIds) required 0))
  /-- No client is connected: it looks again after a while. -/
  | poll {clients : Finset ClientKey} :
      clients ∩ r.connectedIds = ∅ →
      SubscribeStep r (some (.filtering program clients)) r (some (.listing program))
  /-- There is no client, or the deadline has passed. -/
  | giveUp {clients : Finset ClientKey} :
      clients ∩ r.connectedIds = ∅ →
      SubscribeStep r (some (.filtering program clients)) r (some (.removing program))
  | confirmed {required successes : ℕ} : required ≤ successes →
      SubscribeStep r (some (.calling program ∅ required successes)) r none
  | unconfirmed {required successes : ℕ} : successes < required →
      SubscribeStep r (some (.calling program ∅ required successes)) r (some (.removing program))
  | remove : SubscribeStep r (some (.removing program))
        { r with programs := r.programs.erase program } none

/-! ### What the steps of a client leave alone -/

/-- Nothing changes but for this client. -/
structure Roster.Elsewhere (key : ClientKey) (r r' : Roster) : Prop where
  programs : r'.programs = r.programs
  clients : ∀ other, other ≠ key → (other ∈ r'.clients ↔ other ∈ r.clients)
  connectedIds : ∀ other, other ≠ key → (other ∈ r'.connectedIds ↔ other ∈ r.connectedIds)

theorem Roster.elsewhere_connect (key : ClientKey) (r : Roster) : r.Elsewhere key (r.connect key) :=
  ⟨rfl, fun _ _ => Iff.rfl, fun _ hne => by simp [Roster.connect, hne]⟩

theorem Roster.elsewhere_disconnect (key : ClientKey) (r : Roster) :
    r.Elsewhere key (r.disconnect key) :=
  ⟨rfl, fun _ _ => Iff.rfl, fun _ hne => by simp [Roster.disconnect, hne]⟩

theorem Roster.elsewhere_counted (key : ClientKey) (r : Roster) (n : ℕ) :
    r.Elsewhere key { r with connectedClients := n } :=
  ⟨rfl, fun _ _ => Iff.rfl, fun _ _ => Iff.rfl⟩

theorem ReconnectStep.elsewhere (h : ReconnectStep key r c e r' c') : r.Elsewhere key r' := by
  cases h
  case hide => exact r.elsewhere_disconnect key
  case reveal => exact r.elsewhere_connect key
  all_goals exact r.elsewhere_counted key _

theorem AttachStep.elsewhere (h : AttachStep key r c e r' c') : r.Elsewhere key r' := by
  cases h
  case reveal => exact r.elsewhere_connect key
  case unlist => exact r.elsewhere_disconnect key
  case push => exact ⟨rfl, fun _ hne => by simp [hne], fun _ _ => Iff.rfl⟩
  case remove => exact ⟨rfl, fun _ hne => by simp [hne], fun _ _ => Iff.rfl⟩
  all_goals exact r.elsewhere_counted key _

theorem ReconnectStep.clients_eq (h : ReconnectStep key r c e r' c') : r'.clients = r.clients := by
  cases h
  case count => rw [Roster.increment]
  case uncount => rw [Roster.decrement]
  all_goals rfl

theorem ReconnectStep.attach_eq (h : ReconnectStep key r c e r' c') : c'.attach = c.attach := by
  cases h <;> rfl

/-- Only a task that was spawned makes steps. -/
theorem ReconnectStep.spawned (h : ReconnectStep key r c e r' c') : c.reconnector ≠ .unspawned := by
  intro hph
  cases h <;> simp_all

theorem SubscribeStep.clients_eq (h : SubscribeStep r o r' o') : r'.clients = r.clients := by
  cases h <;> rfl

theorem SubscribeStep.connectedIds_eq (h : SubscribeStep r o r' o') :
    r'.connectedIds = r.connectedIds := by
  cases h <;> rfl

theorem SubscribeStep.connectedClients_eq (h : SubscribeStep r o r' o') :
    r'.connectedClients = r.connectedClients := by
  cases h <;> rfl

namespace Clients

def setClient (s : Clients) (r : Roster) (key : ClientKey) (c : Client) : Clients :=
  { s with roster := r, client := Function.update s.client key c }

def setSubscribing (s : Clients) (r : Roster) (op : ℕ) (p : Option Subscribe) : Clients :=
  { s with roster := r, subscribing := Function.update s.subscribing op p }

section Updates

variable (s : Clients) (r : Roster)

@[simp]
theorem client_setClient_self : (s.setClient r key c).client key = c := Function.update_self _ _ _

theorem client_setClient_of_ne (c : Client) (hne : other ≠ key) :
    (s.setClient r key c).client other = s.client other :=
  Function.update_of_ne hne _ _

end Updates

/-- **One step of the clients**; confirmations of clients that do not subscribe immediately do not
count. -/
inductive Step (subsImmediately : ClientKey → Bool) : Clients → ClientsEvent → Clients → Prop
  | abort (key : ClientKey) {c : Client} : AbortStep (s.client key) c →
      Step subsImmediately s .moved (s.setClient s.roster key c)
  | reconnect (key : ClientKey) {e : ClientsEvent} {r : Roster} {c : Client} :
      ReconnectStep key s.roster (s.client key) e r c →
      Step subsImmediately s e (s.setClient r key c)
  | attach (key : ClientKey) {e : ClientsEvent} {r : Roster} {c : Client} :
      AttachStep key s.roster (s.client key) e r c →
      Step subsImmediately s e (s.setClient r key c)
  | subscribe (op : ℕ) {r : Roster} {p : Option Subscribe} :
      SubscribeStep s.roster (s.subscribing op) r p →
      Step subsImmediately s .moved (s.setSubscribing r op p)
  | call (op : ℕ) (key : ClientKey) {program : Pubkey} {clients : Finset ClientKey}
      {required successes : ℕ} :
      s.subscribing op = some (.calling program clients required successes) → key ∈ clients →
      Step subsImmediately s .moved
        ((s.setClient s.roster key
            { s.client key with subs := insert program (s.client key).subs }).setSubscribing
          s.roster op (some (.calling program (clients.erase key) required
            (successes + (subsImmediately key).toNat))))
  | callFailed (op : ℕ) (key : ClientKey) {program : Pubkey}
      {clients : Finset ClientKey} {required successes : ℕ} :
      s.subscribing op = some (.calling program clients required successes) → key ∈ clients →
      Step subsImmediately s .failed
        (s.setSubscribing s.roster op
          (some (.calling program (clients.erase key) required successes)))

/-- A client as the mux finds it, with a reconnector if it is there from the start. -/
def initialClient (transport : Option Bool) (present : Bool) : Client where
  transport := transport
  signals := 0
  halfway := 0
  subs := ∅
  reconnector := if present then .receiving else .unspawned
  attach := if present then .attached else .outside

/-- `new_with_config`, with these clients. -/
def new (transport : ClientKey → Option Bool) (clients : Finset ClientKey) : Clients where
  roster :=
    { programs := ∅
      clients := clients
      connectedIds := clients
      connectedClients := clients.card % 2 ^ 16 }
  client key := initialClient (transport key) (decide (key ∈ clients))
  subscribing _ := none

/-- **The clients as a machine**: at the start no transport has failed. -/
def machine (subsImmediately : ClientKey → Bool) : Machine Clients ClientsEvent where
  start s := ∃ transport clients, (∀ key, transport key ≠ some false) ∧ s = new transport clients
  step _ s e t := Step subsImmediately s e t

end Clients

end Magicblock.Submux
