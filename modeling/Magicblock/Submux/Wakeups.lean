import Magicblock.Submux.Clients

/-!
# Submux/Wakeups — no disconnect of a client is forgotten, and the connected clients are counted

An abort clears the flag of the client and then sends a signal that is dropped if the channel is
full; the reconnector takes all signals that are there at once, and does not reconnect a client
whose flag is set.  Still, a client whose flag is clear has a signal in its channel, or its
reconnector comes to a `try_reconnect` call (`no_disconnect_forgotten`).

The counter of connected clients and the set of their ids are changed one after the other, by
several tasks; between the two changes they differ by one.
-/

namespace Magicblock.Submux

open Finset Attach

open Nat (cast_add cast_one mod_lt two_pow_pos)

variable {key : ClientKey} {r r' : Roster} {c c' : Client} {e : ClientsEvent}

/-! ### Coming to the call -/

/-- **The reconnector comes to a `try_reconnect` call**, whatever its next steps are. -/
inductive Client.WillReconnect (key : ClientKey) : Roster → Client → Prop
  | calling {r : Roster} {c : Client} : c.reconnector = .reconnecting → WillReconnect key r c
  | next {r : Roster} {c : Client} : (∃ e r' c', ReconnectStep key r c e r' c') →
      (∀ e r' c', ReconnectStep key r c e r' c' → WillReconnect key r' c') → WillReconnect key r c

/-- The reconnector has taken a signal and has not called yet, or the call has failed. -/
def Reconnector.beforeReconnect : Reconnector → Bool
  | .draining | .concealing _ | .uncounting _ | .checking | .reconnecting | .backingOff => true
  | _ => false

namespace Client.WillReconnect

theorem of_checking (hph : c.reconnector = .checking) (htr : c.transport = some false) :
    c.WillReconnect key r := by
  have hdown : c.transport ≠ some true := by simp [htr]
  refine .next ⟨_, _, _, .call hph hdown⟩ fun e r' c' hstep => .calling ?_
  cases hstep <;> simp_all

theorem of_backingOff (hph : c.reconnector = .backingOff)
    (htr : c.transport = some false) : c.WillReconnect key r := by
  refine .next ⟨_, _, _, .retry hph⟩ fun e r' c' hstep => ?_
  cases hstep
  case retry => exact of_checking rfl htr
  all_goals simp_all

theorem of_afterHide (hph : c.reconnector = .afterHide rollback)
    (htr : c.transport = some false) : c.WillReconnect key r := by
  cases rollback with
  | true => exact of_backingOff hph htr
  | false => exact of_checking hph htr

theorem of_uncounting (hph : c.reconnector = .uncounting rollback)
    (htr : c.transport = some false) : c.WillReconnect key r := by
  refine .next ⟨_, _, _, .uncount hph⟩ fun e r' c' hstep => ?_
  cases hstep
  case uncount => exact of_afterHide rfl htr
  all_goals simp_all

theorem of_hiding (hph : c.reconnector = .concealing rollback)
    (htr : c.transport = some false) : c.WillReconnect key r := by
  refine .next ?_ fun e r' c' hstep => ?_
  · by_cases hkey : key ∈ r.connectedIds
    · exact ⟨_, _, _, .hide hph hkey⟩
    · exact ⟨_, _, _, .hidden hph hkey⟩
  · cases hstep
    case hide => exact of_uncounting rfl htr
    case hidden => exact of_afterHide rfl htr
    all_goals simp_all

/-- By induction on the signals that are still in the channel. -/
theorem of_draining : ∀ {c : Client}, c.signals = n → c.reconnector = .draining →
    c.transport = some false → c.WillReconnect key r := by
  induction n with
  | zero =>
    intro c hsgls hph htr
    refine .next ⟨_, _, _, .drained hph hsgls⟩ fun e r' c' hstep => ?_
    cases hstep
    case drained => exact of_hiding rfl htr
    all_goals simp_all
  | succ n ih =>
    intro c hsgls hph htr
    refine .next ⟨_, _, _, .drain hph hsgls⟩ fun e r' c' hstep => ?_
    cases hstep
    case drain m _ hm => exact ih (Nat.succ.inj (hm.symm.trans hsgls)) hph htr
    all_goals simp_all

theorem of_before (hbef : c.reconnector.beforeReconnect = true)
    (htr : c.transport = some false) : c.WillReconnect key r := by
  cases hph : c.reconnector with
  | draining => exact of_draining rfl hph htr
  | concealing => exact of_hiding hph htr
  | uncounting => exact of_uncounting hph htr
  | checking => exact of_checking hph htr
  | reconnecting => exact .calling hph
  | backingOff => exact of_backingOff hph htr
  | _ => rw [hph] at hbef; exact absurd hbef nofun

end Client.WillReconnect

/-! ### Signals -/

/-- A clear flag is remembered by a signal, by an abort on its way, or by the reconnector. -/
def Client.Remembered (c : Client) : Prop :=
  c.transport = some false → 0 < c.signals ∨ 0 < c.halfway ∨ c.reconnector.beforeReconnect = true

theorem AbortStep.remembered (h : AbortStep c c') : c'.Remembered := by
  intro hdown
  cases h with
  | abort _ => exact .inr (.inl (Nat.succ_pos _))
  | signal _ => exact .inl (Nat.lt_min.mpr ⟨Nat.succ_pos _, Nat.one_pos⟩)

theorem beforeReconnect_afterHide : (Reconnector.afterHide rollback).beforeReconnect = true := by
  cases rollback <;> rfl

theorem ReconnectStep.remembered (h : ReconnectStep key r c e r' c') (hc : c.Remembered) :
    c'.Remembered := by
  intro hdown
  cases h
  case hidden rollback _ _ => exact .inr (.inr (beforeReconnect_afterHide))
  case uncount rollback _ => exact .inr (.inr (beforeReconnect_afterHide))
  all_goals simp_all [Client.Remembered, Reconnector.beforeReconnect]

theorem AttachStep.remembered (h : AttachStep key r c e r' c') (hc : c.Remembered)
    (hspawn : c.attach = .spawning → c.reconnector = .unspawned) : c'.Remembered := by
  cases h
  case spawn hph =>
    rw [Client.Remembered, hspawn hph] at hc
    exact hc
  all_goals exact hc

/-! ### Where a client is known -/

/-- The client is not connected yet, or `add_client` failed. -/
def Attach.isHidden : Attach → Bool
  | .snapshotting catchUp | .subscribing catchUp _ | .restoring catchUp => !catchUp
  | .counting | .spawning | .attached => false
  | _ => true

/-- The client may be missing from the list. -/
def Attach.isOutside : Attach → Bool
  | .outside | .pushing | .unlisting | .removed => true
  | _ => false

/-- `add_client` has not spawned the reconnector. -/
def Attach.isUnspawned (attach : Attach) : Bool :=
  attach.isHidden || attach = .counting || attach = .spawning

/-- A client is connected after it is listed, and its reconnector starts after that. -/
structure Client.Known (r : Roster) (key : ClientKey) (c : Client) : Prop where
  hidden : c.attach.isHidden = true → key ∉ r.connectedIds
  unspawned : c.attach.isUnspawned = true → c.reconnector = .unspawned
  listed : key ∉ r.clients → c.attach.isOutside = true

theorem isUnspawned_of_isHidden {attach : Attach} (h : attach.isHidden = true) :
    attach.isUnspawned = true := by
  simp [isUnspawned, h]

theorem ReconnectStep.known (h : ReconnectStep key r c e r' c') (hc : c.Known r key) :
    c'.Known r' key := by
  have hspawn : c.attach.isUnspawned = false := by
    by_contra hunsp
    exact h.spawned (hc.unspawned (Bool.not_eq_false _ ▸ hunsp))
  refine ⟨fun hhide => ?_, fun hunsp => ?_, fun hkey => ?_⟩
  · rw [h.attach_eq] at hhide
    cases hspawn.symm.trans (isUnspawned_of_isHidden hhide)
  · rw [h.attach_eq] at hunsp
    cases hspawn.symm.trans hunsp
  · rw [h.attach_eq]
    exact hc.listed (h.clients_eq ▸ hkey)

theorem AttachStep.known (h : AttachStep key r c e r' c') (hc : c.Known r key) :
    c'.Known r' key := by
  obtain ⟨hhide, hunsp, hlist⟩ := hc
  cases h
  case subscribeFailed catchUp _ _ _ | restore catchUp _ | restoreFailed catchUp _ =>
    cases catchUp <;> constructor <;>
      simp_all [isHidden, isUnspawned, isOutside]
  all_goals
    constructor <;>
      simp_all [isHidden, isUnspawned, isOutside, Roster.connect,
        Roster.disconnect, Roster.increment]

/-! ### Counting -/

/-- What the counter still has to change by. -/
def Reconnector.uncounted : Reconnector → ℤ
  | .counting => 1
  | .uncounting _ => -1
  | _ => 0

def Attach.uncounted : Attach → ℤ
  | .counting => 1
  | _ => 0

def Client.uncounted (c : Client) : ℤ := c.reconnector.uncounted + c.attach.uncounted

/-- The counter and what it still has to change by, against the ids. -/
def Roster.Balance (r : Roster) (c : Client) : ZMod (2 ^ 16) :=
  (r.connectedClients : ZMod (2 ^ 16)) + (c.uncounted : ZMod (2 ^ 16)) - r.connectedIds.card

theorem connectedClients_increment :
    (r.increment.connectedClients : ZMod (2 ^ 16)) = r.connectedClients + 1 := by
  rw [Roster.increment, ZMod.natCast_mod, cast_add, cast_one]

theorem connectedClients_decrement :
    (r.decrement.connectedClients : ZMod (2 ^ 16)) = r.connectedClients - 1 := by
  rw [Roster.decrement, ZMod.natCast_mod, cast_add, Nat.cast_sub Nat.one_le_two_pow,
    ZMod.natCast_self, cast_one]
  ring

theorem Roster.connectedIds_increment (r : Roster) : r.increment.connectedIds = r.connectedIds := by
  rw [Roster.increment]

theorem Roster.connectedIds_decrement (r : Roster) : r.decrement.connectedIds = r.connectedIds := by
  rw [Roster.decrement]

theorem card_connect (h : key ∉ r.connectedIds) :
    ((r.connect key).connectedIds.card : ZMod (2 ^ 16)) = r.connectedIds.card + 1 := by
  rw [Roster.connect, card_insert_of_notMem h, cast_add, cast_one]

theorem card_disconnect (h : key ∈ r.connectedIds) :
    ((r.disconnect key).connectedIds.card : ZMod (2 ^ 16)) = r.connectedIds.card - 1 := by
  rw [Roster.disconnect, ← card_erase_add_one h, cast_add, cast_one]
  ring

theorem uncounted_afterHide : (Reconnector.afterHide rollback).uncounted = 0 := by
  cases rollback <;> rfl

theorem balance_eq_of_same (h : c'.uncounted = c.uncounted) : r.Balance c' = r.Balance c := by
  rw [Roster.Balance, Roster.Balance, h]

/-- A change of the ids is matched by what is still to be counted. -/
theorem balance_eq_of_ids {x : ℤ} (hcnt : r'.connectedClients = r.connectedClients)
    (hcard : (r'.connectedIds.card : ZMod (2 ^ 16)) = r.connectedIds.card + x)
    (hunc : c'.uncounted = c.uncounted + x) : r'.Balance c' = r.Balance c := by
  rw [Roster.Balance, Roster.Balance, hcnt, hcard, hunc, Int.cast_add]
  ring

/-- Counting takes from what is still to be counted. -/
theorem balance_eq_of_count {x : ℤ} (hids : r'.connectedIds = r.connectedIds)
    (hcnt : (r'.connectedClients : ZMod (2 ^ 16)) = r.connectedClients + x)
    (hunc : c.uncounted = c'.uncounted + x) : r'.Balance c' = r.Balance c := by
  rw [Roster.Balance, Roster.Balance, hcnt, hids, hunc, Int.cast_add]
  ring

theorem ReconnectStep.balance_eq (h : ReconnectStep key r c e r' c') :
    r'.Balance c' = r.Balance c := by
  cases h
  case hide rollback hph hkey =>
    refine balance_eq_of_ids rfl (x := -1) ?_ ?_
    · rw [card_disconnect hkey, Int.cast_neg, Int.cast_one, sub_eq_add_neg]
    · simp only [Client.uncounted, hph, Reconnector.uncounted]
      ring
  case uncount rollback hph =>
    refine balance_eq_of_count r.connectedIds_decrement (x := -1) ?_ ?_
    · rw [connectedClients_decrement, Int.cast_neg, Int.cast_one, sub_eq_add_neg]
    · simp only [Client.uncounted, hph, uncounted_afterHide]
      simp only [Reconnector.uncounted]
      ring
  case reveal hph hkey =>
    refine balance_eq_of_ids rfl (x := 1) ?_ ?_
    · rw [card_connect hkey, Int.cast_one]
    · simp only [Client.uncounted, hph, Reconnector.uncounted]
      ring
  case count hph =>
    refine balance_eq_of_count r.connectedIds_increment (x := 1) ?_ ?_
    · rw [connectedClients_increment, Int.cast_one]
    · simp only [Client.uncounted, hph, Reconnector.uncounted]
      ring
  case hidden rollback hph hkey =>
    refine balance_eq_of_same ?_
    rw [Client.uncounted, Client.uncounted, hph, uncounted_afterHide]
    rfl
  case restoreFailed hph =>
    refine balance_eq_of_same ?_
    rw [Client.uncounted, Client.uncounted, hph]
    dsimp only
    split_ifs <;> rfl
  all_goals
    refine balance_eq_of_same ?_
    simp_all [Client.uncounted, Reconnector.uncounted]

theorem AttachStep.balance_eq (h : AttachStep key r c e r' c') (hc : c.Known r key) :
    r'.Balance c' = r.Balance c := by
  cases h
  case reveal hph =>
    have hkey : key ∉ r.connectedIds := hc.hidden (by rw [hph]; rfl)
    refine balance_eq_of_ids rfl (x := 1) ?_ ?_
    · rw [card_connect hkey, Int.cast_one]
    · simp only [Client.uncounted, hph, uncounted]
      ring
  case count hph =>
    refine balance_eq_of_count r.connectedIds_increment (x := 1) ?_ ?_
    · rw [connectedClients_increment, Int.cast_one]
    · simp only [Client.uncounted, hph, uncounted]
      ring
  case spawn hph =>
    have hspawn : c.reconnector = .unspawned := hc.unspawned (by rw [hph]; rfl)
    refine balance_eq_of_same ?_
    rw [Client.uncounted, Client.uncounted, hph, hspawn]
    rfl
  case unlist hph =>
    have hkey : key ∉ r.connectedIds := hc.hidden (by rw [hph]; rfl)
    refine balance_eq_of_ids rfl (x := 0) ?_ ?_
    · rw [Roster.disconnect, erase_eq_of_notMem hkey, Int.cast_zero, add_zero]
    · rw [add_zero, Client.uncounted, Client.uncounted, hph]
      rfl
  case subscribeFailed catchUp _ _ hph | restore catchUp hph | restoreFailed catchUp hph =>
    refine balance_eq_of_same ?_
    rw [Client.uncounted, Client.uncounted, hph]
    cases catchUp <;> rfl
  all_goals
    refine balance_eq_of_ids rfl (x := 0) ?_ ?_
    · rw [Int.cast_zero, add_zero]
    · simp_all [Client.uncounted, uncounted]

theorem ReconnectStep.word (h : ReconnectStep key r c e r' c')
    (hword : r.connectedClients < 2 ^ 16) : r'.connectedClients < 2 ^ 16 := by
  cases h
  case uncount => exact mod_lt _ (two_pow_pos 16)
  case count => exact mod_lt _ (two_pow_pos 16)
  all_goals exact hword

theorem AttachStep.word (h : AttachStep key r c e r' c') (hword : r.connectedClients < 2 ^ 16) :
    r'.connectedClients < 2 ^ 16 := by
  cases h
  case count => exact mod_lt _ (two_pow_pos 16)
  all_goals exact hword

/-- A sum over a finite set that changes at one place. -/
theorem sum_eq_of_elsewhere [DecidableEq α] [AddCommGroup β] (A A' : Finset α)
    (a : α) (f f' : α → β) (hsets : ∀ b, b ≠ a → (b ∈ A' ↔ b ∈ A)) (hfun : ∀ b, b ≠ a → f' b = f b)
    (hA : a ∉ A → f a = 0) (hA' : a ∉ A' → f' a = 0) :
    ∑ b ∈ A', f' b = ∑ b ∈ A, f b - f a + f' a := by
  have herase (B : Finset α) (g : α → β) (hB : a ∉ B → g a = 0) :
      ∑ b ∈ B, g b = g a + ∑ b ∈ B.erase a, g b := by
    by_cases ha : a ∈ B
    · rw [add_sum_erase B g ha]
    · rw [erase_eq_of_notMem ha, hB ha, zero_add]
  have hrest : A'.erase a = A.erase a := by
    ext b
    by_cases hb : b = a
    · simp [hb]
    · simp [hb, hsets b hb]
  have hsum : ∑ b ∈ A.erase a, f' b = ∑ b ∈ A.erase a, f b :=
    sum_congr rfl fun b hb => hfun b (ne_of_mem_erase hb)
  rw [herase A' f' hA', herase A f hA, hrest, hsum]
  abel

theorem Client.Known.uncounted_eq_zero (hc : c.Known r key) (hkey : key ∉ r.clients) :
    c.uncounted = 0 := by
  have houts := hc.listed hkey
  have hhide : c.attach.isHidden = true := by
    cases hatt : c.attach <;> simp_all [Attach.isOutside, Attach.isHidden]
  rw [Client.uncounted, hc.unspawned (isUnspawned_of_isHidden hhide)]
  cases hatt : c.attach <;> simp_all [Attach.isOutside, Attach.uncounted, Reconnector.uncounted]

theorem Client.Known.elsewhere (hels : r.Elsewhere other r')
    (hne : key ≠ other) (hc : c.Known r key) : c.Known r' key where
  hidden hhide hkey := hc.hidden hhide ((hels.connectedIds key hne).mp hkey)
  unspawned := hc.unspawned
  listed hkey := hc.listed fun hmem => hkey ((hels.clients key hne).mpr hmem)

namespace Clients

variable {s : Clients} {subsImmediately : ClientKey → Bool}

/-- What the counter still has to change by, for all clients together. -/
def uncounted (s : Clients) : ℤ := ∑ key ∈ s.roster.clients, (s.client key).uncounted

/-- **The invariant**, clients and counter together. -/
structure Accounted (s : Clients) : Prop where
  remembered : ∀ key, (s.client key).Remembered
  known : ∀ key, (s.client key).Known s.roster key
  counted : (s.roster.connectedClients : ZMod (2 ^ 16)) + (s.uncounted : ZMod (2 ^ 16)) =
    s.roster.connectedIds.card
  word : s.roster.connectedClients < 2 ^ 16

/-- It is enough to look at the client that moved. -/
theorem Accounted.setClient (h : Accounted s) (hels : s.roster.Elsewhere key r)
    (hrem : c.Remembered) (hknown : c.Known r key)
    (hbal : r.Balance c = s.roster.Balance (s.client key))
    (hword : r.connectedClients < 2 ^ 16) : Accounted (s.setClient r key c) where
  remembered other := by
    by_cases hoth : other = key
    · rw [hoth, client_setClient_self]
      exact hrem
    · rw [client_setClient_of_ne s r c hoth]
      exact h.remembered other
  known other := by
    by_cases hoth : other = key
    · rw [hoth, client_setClient_self]
      exact hknown
    · rw [client_setClient_of_ne s r c hoth]
      exact (h.known other).elsewhere hels hoth
  counted := by
    have hsum : (s.setClient r key c).uncounted = s.uncounted - (s.client key).uncounted
        + c.uncounted := by
      have hsum := sum_eq_of_elsewhere s.roster.clients r.clients key
        (fun k => (s.client k).uncounted)
        (fun k => ((s.setClient r key c).client k).uncounted) hels.clients
        (fun other hne => by rw [client_setClient_of_ne s r c hne])
        (h.known key).uncounted_eq_zero
        (fun hkey => by rw [client_setClient_self]; exact hknown.uncounted_eq_zero hkey)
      rw [client_setClient_self] at hsum
      exact hsum
    have hcount := h.counted
    rw [Roster.Balance, Roster.Balance] at hbal
    rw [hsum, Int.cast_add, Int.cast_sub]
    change (r.connectedClients : ZMod (2 ^ 16)) + _ = (r.connectedIds.card : ZMod (2 ^ 16))
    linear_combination hcount + hbal
  word := hword

theorem Accounted.setSubscribing (h : Accounted s)
    (hcls : r.clients = s.roster.clients) (hids : r.connectedIds = s.roster.connectedIds)
    (hcnt : r.connectedClients = s.roster.connectedClients) :
    Accounted (s.setSubscribing r op o) where
  remembered := h.remembered
  known key := by
    obtain ⟨hhide, hunsp, hlist⟩ := h.known key
    rw [← hids] at hhide
    rw [← hcls] at hlist
    exact ⟨hhide, hunsp, hlist⟩
  counted := by
    have hcount := h.counted
    rw [uncounted, ← hcls, ← hids, ← hcnt] at hcount
    exact hcount
  word := hcnt ▸ h.word

theorem Accounted.step (h : Accounted s) (hstep : Step subsImmediately s e t) : Accounted t := by
  cases hstep with
  | abort key hstep =>
    have hknown := h.known key
    refine h.setClient (s.roster.elsewhere_counted key _) hstep.remembered ?_ ?_ h.word
    · cases hstep <;> exact ⟨hknown.hidden, hknown.unspawned, hknown.listed⟩
    · cases hstep <;> rfl
  | reconnect key hstep =>
    exact h.setClient hstep.elsewhere (hstep.remembered (h.remembered key))
      (hstep.known (h.known key)) hstep.balance_eq (hstep.word h.word)
  | attach key hstep =>
    refine h.setClient hstep.elsewhere (hstep.remembered (h.remembered key) fun hspawn => ?_)
      (hstep.known (h.known key)) (hstep.balance_eq (h.known key)) (hstep.word h.word)
    exact (h.known key).unspawned (by rw [hspawn]; rfl)
  | subscribe op hstep =>
    exact h.setSubscribing hstep.clients_eq hstep.connectedIds_eq hstep.connectedClients_eq
  | @call op key program =>
    have hknown := h.known key
    have hcall : Accounted (s.setClient s.roster key
        { s.client key with subs := insert program (s.client key).subs }) :=
      h.setClient (s.roster.elsewhere_counted key _) (h.remembered key)
        ⟨hknown.hidden, hknown.unspawned, hknown.listed⟩ rfl h.word
    exact hcall.setSubscribing rfl rfl rfl
  | callFailed => exact h.setSubscribing rfl rfl rfl

theorem accounted_new
    (htr : ∀ key, transport key ≠ some false) : Accounted (new transport clients) where
  remembered key hdown := absurd hdown (htr key)
  known key := by
    by_cases hkey : key ∈ clients <;> constructor <;>
      simp [new, initialClient, hkey, isHidden, isUnspawned, isOutside]
  counted := by
    have hzero : (new transport clients).uncounted = 0 := by
      refine sum_eq_zero fun key hkey => ?_
      have hkey : key ∈ clients := hkey
      simp only [new, initialClient, hkey]
      rfl
    rw [hzero, Int.cast_zero, add_zero]
    exact ZMod.natCast_mod _ _
  word := mod_lt _ (two_pow_pos 16)

theorem accounted_of_run (h : (machine subsImmediately).Run es s) : Accounted s := by
  refine Machine.Run.invariant ?_ ?_ h
  · rintro s ⟨transport, clients, htr, rfl⟩
    exact accounted_new htr
  · intro es s e t _ hs hstep
    exact hs.step hstep

/-- No change of the counter is outstanding. -/
def Tallied (s : Clients) : Prop :=
  ∀ key, (s.client key).reconnector.uncounted = 0 ∧ (s.client key).attach.uncounted = 0

/-- **No disconnect is forgotten**: a client whose flag is clear, with no abort on its way, has a
signal in its channel, or its reconnector comes to a `try_reconnect` call.  **The connected clients
are counted**, as a 16-bit number, whenever no change of the counter is outstanding. -/
theorem no_disconnect_forgotten (subsImmediately : ClientKey → Bool) {es : List ClientsEvent}
    {s : Clients} (h : (machine subsImmediately).Run es s) :
    (∀ key, (s.client key).transport = some false → (s.client key).halfway = 0 →
      0 < (s.client key).signals ∨ (s.client key).WillReconnect key s.roster) ∧
    (s.Tallied → s.roster.connectedClients = s.roster.connectedIds.card % 2 ^ 16 ∧
      (s.roster.connectedIds.card < 2 ^ 16 →
        s.roster.connectedClients = s.roster.connectedIds.card)) := by
  have hs := accounted_of_run h
  refine ⟨fun key hdown hhalf => ?_, fun htall => ?_⟩
  · obtain hsgls | habort | hbef := hs.remembered key hdown
    · exact .inl hsgls
    · exact absurd hhalf habort.ne'
    · exact .inr (.of_before hbef hdown)
  · have hzero : s.uncounted = 0 := by
      refine Finset.sum_eq_zero fun key _ => ?_
      rw [Client.uncounted, (htall key).1, (htall key).2, add_zero]
    have hcount := hs.counted
    rw [hzero, Int.cast_zero, add_zero, ZMod.natCast_eq_natCast_iff', Nat.mod_eq_of_lt hs.word]
      at hcount
    exact ⟨hcount, fun hlt => hcount.trans (Nat.mod_eq_of_lt hlt)⟩

/-- The client fails, and its reconnector takes the signal. -/
theorem no_disconnect_forgotten_of_abort :
    ∃ es s, (machine fun _ => true).Run es s ∧ (s.client 1).transport = some false ∧
      (s.client 1).signals = 0 ∧ (s.client 1).WillReconnect 1 s.roster ∧
      s.roster.connectedClients = 1 := by
  have hrun : (machine fun _ => true).Run [] (new (fun _ => some true) {1}) :=
    .start ⟨fun _ => some true, {1}, fun _ => nofun, rfl⟩
  have hrun := hrun.step (.abort 1 (.abort (by decide)))
  have hrun := hrun.step (.abort 1 (.signal rfl))
  have hrun := hrun.step (.reconnect 1 (.receive rfl rfl))
  obtain ⟨hwak, hcnt⟩ := no_disconnect_forgotten _ hrun
  refine ⟨_, _, hrun, rfl, rfl, (hwak 1 rfl rfl).resolve_left (by decide), (hcnt ?_).1⟩
  intro key
  by_cases hkey : key = 1 <;>
    simp [setClient, new, initialClient, hkey, Reconnector.uncounted, Attach.uncounted]

end Clients

end Magicblock.Submux
