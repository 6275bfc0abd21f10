import Xkbcommon.Xkbcomp.Compat
import Xkbcommon.Xkbcomp.KeyLevels

/-!
# Lists of actions

A key level `actions[1] = [{SetMods(…), LockGroup(…)}]` and an interpretation
`action = {SetMods(…), LockGroup(…)}` both have a list of actions, of which the ones that turn out
to be `NoAction()` are dropped. What is left is stored inline if the *list* has a single
definition, and otherwise collected in an array, which is stored inline if it has a single action.
The two loops that do so were written twice (`AddActionsToKey` and `SetInterpField`).

A level always stores the effective actions (`Xkbcommon.Xkbcomp.levelStores_effective`). An
interpretation does unless a single action is left of a longer list
(`Xkbcommon.Xkbcomp.holds_storeInterpActions_iff`): then the element 1 of the array is read, whose
only element is the element 0.
-/

namespace Xkbcommon.Xkbcomp

open List

variable {pastEnd : XkbAction}

/-! ### Stored actions -/

section Store

variable {numActions : ℕ} {toActs : List XkbAction}

/-- **The actions are stored**, with their number. -/
def ActionStore.Holds (store : ActionStore) (acts : List XkbAction) : Prop :=
  store.numActions = acts.length ∧ store.read = acts

instance (store : ActionStore) (acts : List XkbAction) : Decidable (store.Holds acts) :=
  inferInstanceAs (Decidable (_ ∧ _))

/-- The single action of an array is lost. -/
def LosesAction (numActions : ℕ) (toActs : List XkbAction) : Prop :=
  2 ≤ numActions ∧ (effectiveActions toActs).length = 1

theorem holds_storeLevelActions (hcount : toActs.length = numActions) :
    (storeLevelActions numActions toActs).Holds (effectiveActions toActs) := by
  refine ⟨?_, read_storeLevelActions hcount⟩
  by_cases hone : numActions = 1
  · obtain ⟨act, rfl⟩ := length_eq_one_iff.mp (hcount.trans hone)
    subst hone
    by_cases hact : act.type = .none <;>
      simp [storeLevelActions, storeAction, effectiveActions, hact]
  · rw [storeLevelActions, foldl_storeAction hone, nil_append]
    rcases effectiveActions toActs with - | ⟨act, - | ⟨act', acts⟩⟩ <;> rfl

/-- What is found past the end of the array makes no difference, unless the array has a single
element. -/
theorem storeInterpActions_eq (h : ¬LosesAction numActions toActs)
    (hcount : toActs.length = numActions) :
    (storeInterpActions pastEnd numActions toActs).Holds (effectiveActions toActs) := by
  by_cases hone : numActions = 1
  · obtain ⟨act, rfl⟩ := length_eq_one_iff.mp (hcount.trans hone)
    subst hone
    by_cases hact : act.type = .none <;>
      simp [storeInterpActions, storeAction, effectiveActions, hact, ActionStore.Holds,
        ActionStore.read]
  · rw [storeInterpActions, foldl_storeAction hone, nil_append]
    have hle := length_filter_le (fun act : XkbAction => act.type != .none) toActs
    rcases heff : effectiveActions toActs with - | ⟨act, - | ⟨act', acts⟩⟩
    · exact ⟨rfl, rfl⟩
    · refine absurd ⟨?_, by rw [heff]; rfl⟩ h
      rw [← effectiveActions, heff, length_singleton] at hle
      omega
    · exact ⟨rfl, by simp [ActionStore.read]⟩

theorem read_storeInterpActions_of_loses (h : LosesAction numActions toActs) :
    (storeInterpActions pastEnd numActions toActs).read = [pastEnd] := by
  obtain ⟨htwo, heff⟩ := h
  obtain ⟨act, heff⟩ := length_eq_one_iff.mp heff
  rw [storeInterpActions, foldl_storeAction (by omega), nil_append, heff]
  rfl

/-- **An interpretation stores the effective actions** whatever is found past the end of the
array, exactly if no single action is left of a longer list. -/
theorem holds_storeInterpActions_iff (hcount : toActs.length = numActions) :
    (∀ pastEnd, (storeInterpActions pastEnd numActions toActs).Holds (effectiveActions toActs)) ↔
      ¬LosesAction numActions toActs := by
  refine ⟨fun h hloses => ?_, fun h pastEnd => storeInterpActions_eq h hcount⟩
  -- two different actions would both be the one that is left
  have hread := (read_storeInterpActions_of_loses hloses).symm.trans (h {}).2
  have hread' := (read_storeInterpActions_of_loses hloses).symm.trans (h { type := .terminate }).2
  have htype := congrArg XkbAction.type (List.cons.inj (hread.trans hread'.symm)).1
  cases htype

end Store

/-! ### Both places -/

section Places

variable {info : KeymapInfo} {defaults : ActionsInfo} {mods : XkbModSet} {compat : CompatInfo}
  {acts : List ExprDef} {toActs stored : List XkbAction}
  {pending pending' : List PendingComputation}

/-- An interpretation with this list is accepted, and these actions are stored, whatever is found
past the end of an array. -/
def InterpStores (info : KeymapInfo) (compat : CompatInfo) (acts : List ExprDef)
    (stored : List XkbAction) : Prop :=
  ∀ pastEnd si field rest, interpFieldName field = .action →
    let st := setInterpField info compat pastEnd si field none (.actionList (acts :: rest))
    st.status = .accepted ∧ st.item.actions.Holds stored

/-- A level with this list, the entries `before` being those of the levels before, stores these
actions, if the whole field is accepted. -/
def LevelStores (info : KeymapInfo) (defaults : ActionsInfo) (mods : XkbModSet)
    (pending : List PendingComputation) (acts : List ExprDef) (stored : List XkbAction) : Prop :=
  ∀ groupi before after entries pending₀,
    parseEntries info defaults mods before pending₀ = (.ok entries, pending) →
    let st := addActionsToGroup info defaults mods pending₀ groupi
      (.actionList (before ++ acts :: after))
    st.status = .accepted → (st.group.level before.length).actions = stored

theorem parseEntries_append_eq_ok {before list : List (List ExprDef)}
    {entries entries' : List (List XkbAction)} {pending₀ : List PendingComputation}
    (hbefore : parseEntries info defaults mods before pending₀ = (.ok entries, pending))
    (h : parseEntries info defaults mods (before ++ list) pending₀ = (.ok entries', pending')) :
    ∃ rest, parseEntries info defaults mods list pending = (.ok rest, pending') ∧
      entries' = entries ++ rest := by
  induction before generalizing pending₀ entries entries' with
  | nil =>
    cases hbefore
    exact ⟨entries', h, rfl⟩
  | cons acts before ih =>
    obtain ⟨-, toActs, rest, p, hacts, hrest, rfl⟩ := parseEntries_cons_eq_ok hbefore
    obtain ⟨-, toActs', rest', p', hacts', hrest', rfl⟩ := parseEntries_cons_eq_ok h
    obtain ⟨hok, rfl⟩ := Prod.mk.inj (hacts.symm.trans hacts')
    obtain ⟨rest'', hlist, rfl⟩ := ih hrest hrest'
    exact ⟨rest'', hlist, by rw [Except.ok.inj hok, cons_append]⟩

/-- **A level stores the effective actions.** -/
theorem levelStores_effective
    (hparse : parseActions info defaults mods acts pending = (.ok toActs, pending')) :
    LevelStores info defaults mods pending acts (effectiveActions toActs) := by
  intro groupi before after entries pending₀ hbefore st hst
  obtain ⟨hvalue, all, pending₁, hall⟩ := parse_of_addActionsToGroup hst
  have hgroup := addActionsToGroup_eq hvalue hall
  obtain ⟨rest, hrest, rfl⟩ := parseEntries_append_eq_ok hbefore hall
  obtain ⟨-, toActs', rest', p, hacts, -, rfl⟩ := parseEntries_cons_eq_ok hrest
  have htoActs : toActs' = toActs := Except.ok.inj (Prod.mk.inj (hacts.symm.trans hparse)).1
  have hlength : entries.length = before.length := length_parseEntries hbefore
  have hlevel : st.group.level before.length =
      setActions ((entries ++ effectiveActions toActs' :: rest').getD before.length [])
        (groupi.level before.length) := by
    rw [show st = _ from hgroup]
    exact getD_trimLevels_of_lt (by simp [hlength])
  rw [hlevel, ← hlength, htoActs]
  simp [setActions, getD_eq_getElem?_getD]

theorem setInterpField_action {si : SymInterpInfo} {field : List UInt8} {arrayNdx : Option ExprDef}
    {value : ExprDef} (h : interpFieldName field = .action) :
    setInterpField info compat pastEnd si field arrayNdx value =
      setInterpAction info compat pastEnd si arrayNdx value := by
  simp only [setInterpField, h]

theorem interpStores_iff (hmax : acts.length ≤ maxPerLevel)
    (hparse : parseActions info compat.defaultActions compat.mods acts compat.pending =
      (.ok toActs, pending')) :
    InterpStores info compat acts stored ↔
      ∀ pastEnd, (storeInterpActions pastEnd acts.length toActs).Holds stored := by
  have hset pastEnd si rest : setInterpAction info compat pastEnd si none
      (.actionList (acts :: rest)) =
        ⟨.accepted, { si with
          actions := storeInterpActions pastEnd acts.length toActs
          definedAction := true }, pending'⟩ := by
    simp only [setInterpAction, headD_cons, if_neg (not_lt.mpr hmax), hparse]
  constructor
  · intro h pastEnd
    have hstores := (h pastEnd {} (ascii "action") [] (by decide)).2
    rwa [setInterpField_action (by decide), hset] at hstores
  · intro h pastEnd si field rest hfield
    rw [setInterpField_action hfield, hset]
    exact ⟨rfl, h pastEnd⟩

/-- **Both places keep the effective actions of a list**, in order and with their number, exactly
if the list is not one of at least two definitions of which a single one has an effect. -/
theorem action_lists_effective_iff (info : KeymapInfo) (compat : CompatInfo)
    (acts : List ExprDef) (hmax : acts.length ≤ maxPerLevel)
    (hparse : parseActions info compat.defaultActions compat.mods acts compat.pending =
      (.ok toActs, pending')) :
    (InterpStores info compat acts (effectiveActions toActs) ∧
      (storeLevelActions acts.length toActs).Holds (effectiveActions toActs) ∧
      LevelStores info compat.defaultActions compat.mods compat.pending acts
        (effectiveActions toActs)) ↔
      ¬(2 ≤ acts.length ∧ (effectiveActions toActs).length = 1) := by
  have hcount := length_parseActions hparse
  rw [interpStores_iff hmax hparse, holds_storeInterpActions_iff hcount, LosesAction]
  exact and_iff_left ⟨holds_storeLevelActions hcount, levelStores_effective hparse⟩

/-- A section without statements. -/
def plainCompat : CompatInfo :=
  { defaultActions := initActionsInfo plainInfo, mods := plainMods }

/-- A list of actions without arguments. -/
def actionNames (names : List String) : List ExprDef :=
  names.map fun name => .action (ascii name) []

/-- The default actions of some types. -/
def defaultActs (types : List XkbActionType) : List XkbAction :=
  types.map (initActionsInfo plainInfo)

/-- Both actions of `{SetMods(), LockControls()}` are kept. -/
theorem action_lists_effective_two :
    InterpStores plainInfo plainCompat (actionNames ["SetMods", "LockControls"])
        (effectiveActions (defaultActs [.modSet, .ctrlLock])) ∧
      (storeLevelActions 2 (defaultActs [.modSet, .ctrlLock])).Holds
        (effectiveActions (defaultActs [.modSet, .ctrlLock])) ∧
      LevelStores plainInfo plainCompat.defaultActions plainMods []
        (actionNames ["SetMods", "LockControls"])
        (effectiveActions (defaultActs [.modSet, .ctrlLock])) :=
  (action_lists_effective_iff plainInfo plainCompat (actionNames ["SetMods", "LockControls"])
    (by decide) (by rfl)).mpr (by decide)

/-- Of `{SetMods(), NoAction()}` in an interpretation, `SetMods()` is lost: what is past the end of
the array is taken in its place, here an action with zeros. -/
theorem setMods_noAction_lost :
    let acts := actionNames ["SetMods", "NoAction"]
    ((parseActions plainInfo plainCompat.defaultActions plainMods acts []).1.toOption.map
        effectiveActions = some (defaultActs [.modSet])) ∧
      (setInterpField plainInfo plainCompat {} {} (ascii "action") none
        (.actionList [acts])).item.actions.read = [{}] := by
  decide +kernel

end Places

end Xkbcommon.Xkbcomp
