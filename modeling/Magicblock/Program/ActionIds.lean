import Magicblock.Foundations.Results
import Magicblock.Program.CommitIds

/-!
# Program/ActionIds — an action index finds its action

`AddActionCallback` addresses an action by its place in the flat list of all actions of the bundle:
those of the commit, of the commit-and-undelegate, first the commit's and then the undelegation's,
the standalone ones, and then those of the two finalizing parts.  The program looks for an id
instead.  `tryFromArgs` gives the ids in that order (`numbered_of_tryFromArgs`), so both agree
(`action_index_exact`).
-/

namespace Magicblock

open ConstructionContext

open Option (map_eq_some_iff map_id' map_map map_or map_some or_eq_some_iff)
open Exec (ok_bind ok_ofExcept ok_pure)

/-! ### The flat list of actions -/

def CommitType.actions : CommitType → List BaseAction
  | standalone _ => []
  | withBaseActions _ baseActions => baseActions

def UndelegateType.actions : UndelegateType → List BaseAction
  | standalone => []
  | withBaseActions actions => actions

def CommitAndUndelegate.actions (t : CommitAndUndelegate) : List BaseAction :=
  t.commitAction.actions ++ t.undelegateAction.actions

/-- The actions of a part that may be missing. -/
def partActions {α : Type} (actions : α → List BaseAction) (part : Option α) : List BaseAction :=
  part.elim [] actions

/-- **All actions of a bundle**, in the order in which a caller numbers them. -/
def MagicIntentBundle.actions (b : MagicIntentBundle) : List BaseAction :=
  partActions CommitType.actions b.commit ++
    (partActions CommitAndUndelegate.actions b.commitAndUndelegate ++
      (b.standaloneActions ++
        (partActions CommitType.actions b.commitFinalize ++
          partActions CommitAndUndelegate.actions b.commitFinalizeAndUndelegate)))

/-! ### The same bundle with other actions -/

def CommitType.mapActions (f : BaseAction → BaseAction) : CommitType → CommitType
  | standalone committedAccounts => standalone committedAccounts
  | withBaseActions committedAccounts baseActions =>
    withBaseActions committedAccounts (baseActions.map f)

def UndelegateType.mapActions (f : BaseAction → BaseAction) : UndelegateType → UndelegateType
  | standalone => standalone
  | withBaseActions actions => withBaseActions (actions.map f)

def CommitAndUndelegate.mapActions (f : BaseAction → BaseAction) (t : CommitAndUndelegate) :
    CommitAndUndelegate :=
  ⟨t.commitAction.mapActions f, t.undelegateAction.mapActions f⟩

def MagicIntentBundle.mapActions (f : BaseAction → BaseAction) (b : MagicIntentBundle) :
    MagicIntentBundle where
  commit := b.commit.map (CommitType.mapActions f)
  commitAndUndelegate := b.commitAndUndelegate.map (CommitAndUndelegate.mapActions f)
  commitFinalize := b.commitFinalize.map (CommitType.mapActions f)
  commitFinalizeAndUndelegate :=
    b.commitFinalizeAndUndelegate.map (CommitAndUndelegate.mapActions f)
  standaloneActions := b.standaloneActions.map f

/-- **All of a bundle but its actions**: its parts, its accounts, and how many actions there are in
each place. -/
def MagicIntentBundle.skeleton (b : MagicIntentBundle) : MagicIntentBundle :=
  b.mapActions fun _ => ⟨0, 0, 0, none, 0, ⟨0, []⟩, [], none⟩

/-! ### Looking through the parts is looking through the list -/

section Lookup

variable {α : Type} {action y : BaseAction} {f : BaseAction → BaseAction}

theorem findMut_append (l l' : List BaseAction) : findMut p (l ++ l') =
    ((findMut p l).map fun entry => (entry.1, fun y => entry.2 y ++ l')).or
      ((findMut p l').map fun entry => (entry.1, fun y => l ++ entry.2 y)) := by
  induction l with
  | nil => simp [findMut]
  | cons a l ih =>
    rw [List.cons_append, findMut, findMut, ih]
    split_ifs
    · rfl
    · cases findMut p l <;> cases findMut p l' <;> rfl

theorem map_put
    (h : findMut p l = some (action, put)) (hf : f y = f action) : (put y).map f = l.map f := by
  induction l generalizing put with
  | nil => cases h
  | cons a l ih =>
    rw [findMut] at h
    split_ifs at h
    · cases h
      rw [List.map_cons, List.map_cons, hf]
    · obtain ⟨⟨x, put'⟩, hfind, ⟨⟩⟩ := map_eq_some_iff.mp h
      rw [List.map_cons, List.map_cons, ih hfind]

/-- **A lookup is one in the list of actions**, and what is put there changes nothing else. -/
structure Addresses (getMut : ℕ → α → Option (BaseAction × (BaseAction → α)))
    (actions : α → List BaseAction) (mapActions : (BaseAction → BaseAction) → α → α) : Prop where
  list (id : ℕ) (t : α) : (getMut id t).map (fun entry => (entry.1, fun y => actions (entry.2 y))) =
    findMut (·.id = id) (actions t)
  rest {id : ℕ} {t : α} {action : BaseAction} {put : BaseAction → α}
    (h : getMut id t = some (action, put)) {f : BaseAction → BaseAction} {y : BaseAction}
    (hf : f y = f action) : mapActions f (put y) = mapActions f t

theorem addresses_commitType :
    Addresses CommitType.getActionMut CommitType.actions CommitType.mapActions where
  list id t := by
    cases t with
    | standalone accs => rfl
    | withBaseActions accs actions =>
      rw [CommitType.getActionMut, map_map]
      exact map_id'
  rest {id t action put} h {f y} hf := by
    cases t with
    | standalone accs => cases h
    | withBaseActions accs actions =>
      obtain ⟨⟨x, put'⟩, hfind, ⟨⟩⟩ := map_eq_some_iff.mp h
      exact congrArg (CommitType.withBaseActions accs) (map_put hfind hf)

theorem addresses_undelegateType :
    Addresses UndelegateType.getActionMut UndelegateType.actions UndelegateType.mapActions where
  list id t := by
    cases t with
    | standalone => rfl
    | withBaseActions actions =>
      rw [UndelegateType.getActionMut, map_map]
      exact map_id'
  rest {id t action put} h {f y} hf := by
    cases t with
    | standalone => cases h
    | withBaseActions actions =>
      obtain ⟨⟨x, put'⟩, hfind, ⟨⟩⟩ := map_eq_some_iff.mp h
      exact congrArg UndelegateType.withBaseActions (map_put hfind hf)

theorem addresses_commitAndUndelegate : Addresses CommitAndUndelegate.getActionMut
    CommitAndUndelegate.actions CommitAndUndelegate.mapActions where
  list id t := by
    rw [CommitAndUndelegate.actions, findMut_append, ← addresses_commitType.list,
      ← addresses_undelegateType.list, CommitAndUndelegate.getActionMut, map_or,
      map_map, map_map, map_map, map_map]
    rfl
  rest {id t action put} h {f y} hf := by
    rcases or_eq_some_iff.mp h with h | ⟨-, h⟩
    · obtain ⟨⟨x, put'⟩, hfind, ⟨⟩⟩ := map_eq_some_iff.mp h
      exact congrArg (CommitAndUndelegate.mk · _) (addresses_commitType.rest hfind hf)
    · obtain ⟨⟨x, put'⟩, hfind, ⟨⟩⟩ := map_eq_some_iff.mp h
      exact congrArg (CommitAndUndelegate.mk _) (addresses_undelegateType.rest hfind hf)

/-- A part that may be missing. -/
theorem Addresses.part_list (h : Addresses getMut actions mapActions) (id : ℕ) (part : Option α) :
    (part.bind (getMut id)).map
        (fun entry => (entry.1, fun y => partActions actions (some (entry.2 y)))) =
      findMut (·.id = id) (partActions actions part) := by
  cases part with
  | none => rfl
  | some t => exact h.list id t

theorem Addresses.part_rest (h : Addresses getMut actions mapActions) {id : ℕ} {part : Option α}
    (hfind : part.bind (getMut id) = some (action, put))
    (hf : f y = f action) : some (mapActions f (put y)) = part.map (mapActions f) := by
  obtain ⟨t, rfl, ht⟩ := Option.bind_eq_some_iff.mp hfind
  exact congrArg some (h.rest ht hf)

theorem addresses_bundle : Addresses MagicIntentBundle.getActionMut MagicIntentBundle.actions
    MagicIntentBundle.mapActions where
  list id b := by
    rw [MagicIntentBundle.actions, findMut_append, findMut_append, findMut_append, findMut_append,
      ← addresses_commitType.part_list, ← addresses_commitAndUndelegate.part_list,
      ← addresses_commitType.part_list, ← addresses_commitAndUndelegate.part_list,
      MagicIntentBundle.getActionMut]
    simp only [map_or, map_map]
    rfl
  rest {id b action put} h {f y} hf := by
    simp only [MagicIntentBundle.getActionMut, or_eq_some_iff, map_eq_some_iff, Prod.mk.injEq] at h
    rcases h with ⟨⟨x, put'⟩, hfind, rfl, rfl⟩ | ⟨-, ⟨⟨x, put'⟩, hfind, rfl, rfl⟩ |
      ⟨-, ⟨⟨x, put'⟩, hfind, rfl, rfl⟩ | ⟨-, ⟨⟨x, put'⟩, hfind, rfl, rfl⟩ |
        ⟨-, ⟨x, put'⟩, hfind, rfl, rfl⟩⟩⟩⟩
    · exact congrArg (MagicIntentBundle.mk · _ _ _ _) (addresses_commitType.part_rest hfind hf)
    · exact congrArg (MagicIntentBundle.mk _ · _ _ _)
        (addresses_commitAndUndelegate.part_rest hfind hf)
    · exact congrArg (MagicIntentBundle.mk _ _ _ _) (map_put hfind hf)
    · exact congrArg (MagicIntentBundle.mk _ _ · _ _) (addresses_commitType.part_rest hfind hf)
    · exact congrArg (MagicIntentBundle.mk _ _ _ · _)
        (addresses_commitAndUndelegate.part_rest hfind hf)

/-- Where ids count up, looking for an id is looking at a place. -/
theorem findMut_of_numbered {l : List BaseAction} (h : l.map (·.id) = List.range' start l.length) :
    findMut (·.id = start + i) l = (l[i]?).map fun action => (action, l.set i) := by
  induction l generalizing start i with
  | nil => rfl
  | cons a l ih =>
    rw [List.map_cons, List.length_cons, List.range'_succ, List.cons.injEq] at h
    obtain ⟨hid, hrest⟩ := h
    rw [findMut]
    cases i with
    | zero =>
      rw [if_pos (by simp [hid])]
      rfl
    | succ i =>
      have hne : ¬ a.id = start + (i + 1) := by omega
      rw [if_neg (by simpa using hne), show start + (i + 1) = start + 1 + i by omega, ih hrest,
        map_map, List.getElem?_cons_succ]
      rfl

end Lookup

/-! ### Numbering -/

section Numbering

variable {cc : ConstructionContext} {b b' : Bank}

variable {bundle : MagicIntentBundle}

theorem id_baseAction (h : cc.baseAction next args = .ok action) : action.id = next := by
  unfold baseAction at h
  obtain ⟨authority, -, h⟩ := Except.bind_eq_ok.mp h
  cases hpar : cc.parentProgramId with
  | none =>
    rw [hpar] at h
    dsimp only at h
    split_ifs at h
    cases h
  | some parent =>
    rw [hpar] at h
    dsimp only at h
    split_ifs at h <;> cases h <;> rfl

theorem ids_baseActions (h : cc.baseActions next args = .ok actions) :
    actions.map (·.id) = List.range' next args.length := by
  induction args generalizing next actions with
  | nil =>
    cases h
    rfl
  | cons arg args ih =>
    rw [baseActions] at h
    obtain ⟨action, hact, h⟩ := Except.bind_eq_ok.mp h
    obtain ⟨rest, hrest, ⟨⟩⟩ := Except.bind_eq_ok.mp h
    rw [List.map_cons, id_baseAction hact, ih hrest, List.length_cons, List.range'_succ]

theorem ids_commitType (h : (cc.commitType next args).Ok b t b') :
    t.actions.map (·.id) = List.range' next args.actionCount := by
  cases args with
  | standalone accs =>
    simp only [commitType, ok_bind, ok_pure] at h
    obtain ⟨cs, _, -, rfl, rfl⟩ := h
    rfl
  | withBaseActions accs actions =>
    simp only [commitType, ok_bind, ok_ofExcept, ok_pure] at h
    obtain ⟨cs, _, -, actions', _, ⟨hacts, rfl⟩, rfl, rfl⟩ := h
    exact ids_baseActions hacts

theorem ids_undelegateType (h : cc.undelegateType next args = .ok t) :
    t.actions.map (·.id) = List.range' next args.actionCount := by
  cases args with
  | standalone =>
    cases h
    rfl
  | withBaseActions actions =>
    obtain ⟨actions', hacts, ⟨⟩⟩ := Except.bind_eq_ok.mp h
    exact ids_baseActions hacts

theorem ids_commitAndUndelegate (h : (cc.commitAndUndelegate next args).Ok b t b') :
    t.actions.map (·.id) = List.range' next args.actionCount := by
  unfold commitAndUndelegate at h
  simp only [ok_bind, ok_ofExcept, ok_pure] at h
  obtain ⟨_, _, -, commitAction, _, hcom, undelegateAction, _, ⟨hund, rfl⟩, rfl, rfl⟩ := h
  rw [CommitAndUndelegate.actions, List.map_append, ids_commitType hcom,
    ids_undelegateType hund, List.range'_append_1]
  rfl

/-- A part that may be missing. -/
theorem ids_forOption {f : α → Program β}
    (hf : ∀ {a t b b'}, (f a).Ok b t b' → (actions t).map (·.id) = List.range' next (count a))
    (h : (Exec.forOption f x).Ok b y b') :
    (partActions actions y).map (·.id) = List.range' next ((x.map count).getD 0) := by
  rcases Exec.ok_forOption.mp h with ⟨rfl, rfl, -⟩ | ⟨a, t, rfl, rfl, ht⟩
  · rfl
  · exact hf ht

/-- Numbering goes on where it stopped. -/
theorem ids_append {l l' : List BaseAction} (h : l.map (·.id) = List.range' k m) (hk : k' = k + m)
    (h' : l'.map (·.id) = List.range' k' n) :
    (l ++ l').map (·.id) = List.range' k (m + n) := by
  rw [List.map_append, h, h', hk, List.range'_append_1]

/-- **The actions of a bundle are numbered in their order.** -/
def MagicIntentBundle.Numbered (bundle : MagicIntentBundle) : Prop :=
  bundle.actions.map (·.id) = List.range bundle.actions.length

theorem numbered_of_tryFromArgs {args : MagicIntentBundleArgs}
    (h : (MagicIntentBundle.tryFromArgs cc args).Ok b bundle b') : bundle.Numbered := by
  unfold MagicIntentBundle.tryFromArgs at h
  simp only [ok_bind, ok_ofExcept, ok_pure] at h
  obtain ⟨_, _, ⟨-, rfl⟩, _, _, hcom, _, _, hund, _, _, ⟨hacts, rfl⟩, _, _, hfin,
    _, _, hboth, _, _, ⟨-, rfl⟩, _, _, ⟨-, rfl⟩, rfl, rfl⟩ := h
  have hids := ids_append (ids_forOption ids_commitType hcom) (Nat.zero_add _).symm
    (ids_append (ids_forOption ids_commitAndUndelegate hund) rfl
      (ids_append (ids_baseActions hacts) rfl
        (ids_append (ids_forOption ids_commitType hfin) rfl
          (ids_forOption ids_commitAndUndelegate hboth))))
  have hlen := congrArg List.length hids
  rw [List.length_map, List.length_range'] at hlen
  rw [MagicIntentBundle.Numbered, List.range_eq_range']
  exact hids.trans (congrArg (List.range' 0 ·) hlen.symm)

/-! ### Addressing -/

/-- **An index addresses the action at its place**, and only that place can be changed through it.
-/
structure AddressesExactly (bundle : MagicIntentBundle) : Prop where
  /-- Below the number of actions the action at the index is found, and above none. -/
  found (i : ℕ) : (bundle.getActionMut i).map Prod.fst = bundle.actions[i]?
  distinct {i j : ℕ} {a a' : BaseAction} (hi : bundle.actions[i]? = some a)
    (hj : bundle.actions[j]? = some a') (hne : i ≠ j) : a ≠ a'
  put {i : ℕ} {action : BaseAction} {put : BaseAction → MagicIntentBundle}
    (h : bundle.getActionMut i = some (action, put)) (y : BaseAction) :
    (put y).actions = bundle.actions.set i y ∧ (put y).skeleton = bundle.skeleton

theorem getActionMut_of_numbered (h : bundle.Numbered) (i : ℕ) :
    (bundle.getActionMut i).map (fun entry => (entry.1, fun y => (entry.2 y).actions)) =
      (bundle.actions[i]?).map fun action => (action, bundle.actions.set i) := by
  rw [addresses_bundle.list, ← findMut_of_numbered (h.trans List.range_eq_range'), Nat.zero_add]

theorem addressesExactly_of_numbered (h : bundle.Numbered) : AddressesExactly bundle where
  found i := by
    have hfound := congrArg (Option.map Prod.fst) (getActionMut_of_numbered h i)
    rw [map_map, map_map] at hfound
    exact hfound.trans map_id'
  distinct {i j a a'} hi hj hne heq := by
    have hid {k : ℕ} {x : BaseAction} (hk : bundle.actions[k]? = some x) : x.id = k := by
      have hget := congrArg (·[k]?) h
      obtain ⟨hlt, -⟩ := List.getElem?_eq_some_iff.mp hk
      simp only [List.getElem?_map, hk, map_some, List.getElem?_range hlt,
        Option.some.injEq] at hget
      exact hget
    exact hne ((hid hi).symm.trans (heq ▸ hid hj))
  put {i action put} hput y := by
    have hlist := getActionMut_of_numbered h i
    rw [hput, map_some] at hlist
    obtain ⟨x, -, heq⟩ := map_eq_some_iff.mp hlist.symm
    exact ⟨congrFun (Prod.mk.inj heq).2.symm y, addresses_bundle.rest hput rfl⟩

/-- **Action addressing is exact**: in a bundle built from arguments an index finds the action a
caller means, and a callback is attached to this action alone. -/
theorem action_index_exact {args : MagicIntentBundleArgs} {bundle : MagicIntentBundle}
    (h : (MagicIntentBundle.tryFromArgs cc args).Ok b bundle b') :
    AddressesExactly bundle ∧
      ∀ {env : ProgramEnv} {ctx : InvokeContext} {callback : AddActionCallbackArgs}
        {front : List ScheduledIntentBundle} {latest : ScheduledIntentBundle} {b₁ b₂ : Bank},
        b₁.context.scheduledBaseIntents = front ++ [latest] → latest.intentBundle = bundle →
        (processAddActionCallback env ctx callback).Ok b₁ () b₂ →
        ∃ action new, bundle.actions[callback.actionIndex]? = some action ∧
          b₂.context.scheduledBaseIntents = front ++ [{ latest with intentBundle := new }] ∧
          new.skeleton = bundle.skeleton ∧
          new.actions = bundle.actions.set callback.actionIndex { action with
            callback := some callback.callback } := by
  have hexact := addressesExactly_of_numbered (numbered_of_tryFromArgs h)
  refine ⟨hexact, fun {env ctx callback front latest b₁ b₂} hqueue hlat hok => ?_⟩
  subst hlat
  obtain ⟨newest, action, put, hnew, hact, hcont, -⟩ := ok_processAddActionCallback hok
  rw [hqueue, List.getLast?_concat, Option.some.injEq] at hnew
  subst hnew
  rw [hqueue, List.dropLast_concat] at hcont
  obtain ⟨hacts, hrest⟩ := hexact.put hact { action with callback := some callback.callback }
  have hfound := hexact.found callback.actionIndex
  rw [hact, map_some] at hfound
  exact ⟨action, _, hfound.symm, congrArg (·.scheduledBaseIntents) hcont, hrest, hacts⟩

end Numbering

namespace ProgramExample

/-- Program 40 schedules two actions of its own and one with a commit of account 21. -/
def threeActions : Program MagicIntentBundle :=
  let action : BaseActionArgs := ⟨⟨0, []⟩, 1000, 0, 41, []⟩
  MagicIntentBundle.tryFromArgs ⟨env, ctx 21, some 40, true⟩
    { commitFinalize := some (.withBaseActions [2] [action]),
      standaloneActions := [action, action] }

def bundleOfThree : MagicIntentBundle :=
  ((threeActions.outcome (bank default)).1.toOption).getD {}

/-- The bundle is the newest intent; the payer and the vault are delegated. -/
def bankOfThree : Bank :=
  { bank ⟨1, [⟨0, 0, 0, 30, bundleOfThree⟩], by decide⟩ with
    accounts a := { account .delegated 0 [] with lamports := if a = 30 then 10000 else 0 } }

/-- A callback for the last action, the one of the commit. -/
def addCallback : Program Unit :=
  processAddActionCallback env
    { ctx 4 with effectiveCaller := .ok (some 40) } ⟨2, 40, [], [], 1000, []⟩

end ProgramExample

open ProgramExample in
theorem action_index_exact_of_three : ∃ action, ∃ new :
    MagicIntentBundle, bundleOfThree.actions[2]? = some action ∧
    new.skeleton = bundleOfThree.skeleton ∧ new.actions = bundleOfThree.actions.set 2
      { action with callback := some ⟨40, [], [], 1000, []⟩ } := by
  have hbuilt : threeActions.Ok (bank default) bundleOfThree
      (threeActions.outcome (bank default)).2 :=
    Exec.ok_of_outcome (by decide +kernel)
  have hadded : addCallback.Ok bankOfThree () (addCallback.outcome bankOfThree).2 :=
    Exec.ok_of_outcome (by decide +kernel)
  obtain ⟨action, new, hact, -, hrest, hacts⟩ :=
    (action_index_exact hbuilt).2 (List.nil_append _).symm rfl hadded
  exact ⟨action, new, hact, hrest, hacts⟩

end Magicblock
