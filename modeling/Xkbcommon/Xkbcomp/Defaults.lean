import Xkbcommon.Lib.Fields
import Xkbcommon.Xkbcomp.ActionLists
import Xkbcommon.Xkbcomp.KeyStatements

/-!
# Default statements

A statement such as `key.repeat = false`, `interpret.repeat = false` or
`indicator.modifiers = Lock` sets one field of the default key, interpretation or indicator of a
section. It sets the field of a *fresh* item, and merges this item with the default. The other
fields of the default are meant to stay as they are, values and flags.

The fields are those with a flag of their own (`enum key_field`, `enum group_field`,
`enum si_field` and `enum led_field`), and the two components of the state of an indicator, which
have none. Setting the field of a fresh item leaves its other fields fresh, so what is left to be
known is what merging does to the fields that are fresh in one of the items:

* under the mode `replace`, it makes them fresh: the three places that should turn this mode into
  `override` test the wrong variable;
* for a group of the default key without levels, the flags are taken over with the levels
  (`Xkbcommon.Xkbcomp.agreeExcept_mergeGroups_iff`);
* for an indicator, a component of the state is taken over with its modifiers or its groups
  (`Xkbcommon.Xkbcomp.agreeExcept_mergeLedMap_iff`).
-/

namespace Xkbcommon.Xkbcomp

open Biased Fields Trailing List Option SymInterpInfo

variable {pending : List PendingComputation} {groups : List GroupInfo} {x y : LevelInfo}
  {value : ExprDef} {pastEnd : XkbAction} {compat : CompatInfo} {info : KeymapInfo}
  {elem field : List UInt8} {syms : SymbolsInfo} {arrayNdx : Option ExprDef} {β : Type}

theorem useNewField_false (old clobber : Bool) : useNewField old false clobber = false := by
  cases old <;> rfl

/-- A field that is not defined in the new item keeps its value and its flag. -/
theorem mergedField_of_fresh {x y : β} {old new clobber : Bool} (h : new = false) :
    (if useNewField old new clobber then y else x, old || useNewField old new clobber) =
      (x, old) := by
  rw [h, useNewField_false]
  exact Prod.ext rfl (Bool.or_false old)

/-- **A field is set, or the item is left as it is.** What is accepted sets the field, if it is
one. -/
def FieldState.Sets {α φ : Type} (set : α → φ → α → Prop) (changed : Option φ) (item : α)
    (st : FieldState α) : Prop :=
  (∃ F, changed = some F ∧ set item F st.item) ∨
    st.item = item ∧ (st.status = .accepted → changed = none)

/-! ### Interpretations -/

section Interp

variable {si old new : SymInterpInfo}

/-- `enum si_field`. -/
inductive InterpField
  | virtualMod | action | autoRepeat | levelOneOnly
  deriving DecidableEq, Repr

/-- The values of a field, with its flag. -/
def InterpField.Value : InterpField → Type
  | .virtualMod => Option ℕ × Bool
  | .action => ActionStore × Bool
  | .autoRepeat | .levelOneOnly => Bool × Bool

/-- A field of an interpretation. -/
def SymInterpInfo.get (si : SymInterpInfo) : (field : InterpField) → field.Value
  | .virtualMod => (si.virtualMod, si.definedVirtualMod)
  | .action => (si.actions, si.definedAction)
  | .autoRepeat => (si.autoRepeat, si.definedAutoRepeat)
  | .levelOneOnly => (si.levelOneOnly, si.definedLevelOneOnly)

/-- The field that a statement sets. -/
def interpField (field : List UInt8) : Option InterpField :=
  match interpFieldName field with
  | .action => some .action
  | .virtualMod => some .virtualMod
  | .autoRepeat => some .autoRepeat
  | .levelOneOnly => some .levelOneOnly
  | .ignored | .unknown => none

/-- What a field of an interpretation changes. -/
structure SetsInterp (changed : Option InterpField) (si si' : SymInterpInfo) : Prop where
  agree : AgreeExcept SymInterpInfo.get changed si' si
  merge : si'.merge = si.merge

/-- A field is set, with its flag. -/
inductive InterpSet (si : SymInterpInfo) : InterpField → SymInterpInfo → Prop
  | virtualMod (virtualMod : Option ℕ) :
    InterpSet si .virtualMod { si with virtualMod, definedVirtualMod := true }
  | action (actions : ActionStore) : InterpSet si .action { si with actions, definedAction := true }
  | autoRepeat (autoRepeat : Bool) :
    InterpSet si .autoRepeat { si with autoRepeat, definedAutoRepeat := true }
  | levelOneOnly (levelOneOnly : Bool) :
    InterpSet si .levelOneOnly { si with levelOneOnly, definedLevelOneOnly := true }

theorem sets_setInterpAction :
    (setInterpAction info compat pastEnd si arrayNdx value).Sets InterpSet (some .action) si := by
  have hstore (actions : ActionStore) (pending : List PendingComputation) :
      FieldState.Sets InterpSet (some .action) si
        ⟨.accepted, { si with actions, definedAction := true }, pending⟩ :=
    .inl ⟨_, rfl, .action actions⟩
  unfold setInterpAction
  dsimp only
  split
  · exact .inr ⟨rfl, nofun⟩
  · split_ifs
    · exact .inr ⟨rfl, nofun⟩
    · split
      · rename_i err _ _
        exact .inr ⟨rfl, by cases err <;> nofun⟩
      · exact hstore _ _
  · split
    · exact hstore _ _
    · exact hstore _ _
    · rename_i err _ _ _
      exact .inr ⟨rfl, by cases err <;> nofun⟩

/-- **What `SetInterpField` does.** -/
theorem sets_setInterpField :
    (setInterpField info compat pastEnd si field arrayNdx value).Sets InterpSet (interpField field)
      si := by
  unfold setInterpField interpField
  cases interpFieldName field with
  | action => exact sets_setInterpAction
  | ignored | unknown => exact .inr ⟨rfl, fun _ => rfl⟩
  | virtualMod | autoRepeat =>
    dsimp only
    split
    · rename_i hset
      obtain ⟨value, -, rfl⟩ := map_eq_some_iff.mp hset
      exact .inl ⟨_, rfl, by constructor⟩
    · exact .inr ⟨rfl, nofun⟩
  | levelOneOnly =>
    dsimp only
    split
    · split
      · rename_i hset
        obtain ⟨set, -, rfl⟩ := map_eq_some_iff.mp hset
        exact .inl ⟨_, rfl, .levelOneOnly set⟩
      · exact .inr ⟨rfl, nofun⟩
    · split
      · rename_i hset
        cases hset
      · exact .inr ⟨rfl, nofun⟩

/-- The other fields are kept. -/
theorem FieldState.Sets.setsInterp {changed : Option InterpField} {st : FieldState SymInterpInfo}
    (h : st.Sets InterpSet changed si) : SetsInterp changed si st.item := by
  obtain ⟨F, rfl, hset⟩ | ⟨hitem, -⟩ := h
  · generalize st.item = si' at hset
    refine ⟨fun G hne => ?_, by cases hset <;> rfl⟩
    cases hset <;> cases G <;> first | rfl | exact absurd rfl hne
  · rw [hitem]
    exact ⟨.refl si, rfl⟩

/-- **Merging with a fresh field** keeps the field. -/
theorem agreeExcept_mergeInterp {changed : Option InterpField}
    (hnew : AgreeExcept get changed new {}) (hmerge : new.merge ≠ .replace) :
    AgreeExcept get changed (mergeInterp old new) old := by
  rw [mergeInterp, if_neg hmerge]
  intro G hne
  cases G with
  | virtualMod => exact mergedField_of_fresh (congrArg Prod.snd (hnew .virtualMod hne))
  | action => exact mergedField_of_fresh (congrArg Prod.snd (hnew .action hne))
  | autoRepeat => exact mergedField_of_fresh (congrArg Prod.snd (hnew .autoRepeat hne))
  | levelOneOnly => exact mergedField_of_fresh (congrArg Prod.snd (hnew .levelOneOnly hne))

/-- **What merging does to the other fields of the default interpretation.** -/
theorem agreeExcept_mergeInterp_iff {changed : Option InterpField}
    (hnew : AgreeExcept get changed new {}) :
    AgreeExcept get changed (mergeInterp old new) old ↔
      (new.merge = .replace → AgreeExcept get changed old {}) := by
  by_cases hmerge : new.merge = .replace
  · rw [mergeInterp, if_pos hmerge, agreeExcept_replace_iff hnew]
    simp [hmerge]
  · exact iff_of_true (agreeExcept_mergeInterp hnew hmerge) fun h => absurd h hmerge

end Interp

/-! ### Indicators -/

section Led

variable {ledi old new : LedInfo}

/-- `enum led_field`, and the two components of the state. -/
inductive LedField
  | mods | groups | ctrls | whichMods | whichGroups
  deriving DecidableEq, Repr

/-- The values of a field, with its flag if it has one. -/
def LedField.Value : LedField → Type
  | .mods | .ctrls => BitVec 32 × Bool
  | .groups => (Bool × BitVec 32) × Bool
  | .whichMods | .whichGroups => BitVec 32

/-- A field of an indicator. -/
def LedInfo.get (ledi : LedInfo) : (field : LedField) → field.Value
  | .mods => (ledi.mods, ledi.definedMods)
  | .groups => ((ledi.pendingGroups, ledi.groups), ledi.definedGroups)
  | .ctrls => (ledi.ctrls, ledi.definedCtrls)
  | .whichMods => ledi.whichMods
  | .whichGroups => ledi.whichGroups

/-- The field that a statement sets. -/
def ledField (field : List UInt8) : Option LedField :=
  match ledFieldName field with
  | .mods => some .mods
  | .groups => some .groups
  | .ctrls => some .ctrls
  | .whichMods => some .whichMods
  | .whichGroups => some .whichGroups
  | .ignored | .unknown => none

/-- What a field of an indicator changes. -/
structure SetsLed (changed : Option LedField) (ledi ledi' : LedInfo) : Prop where
  agree : AgreeExcept LedInfo.get changed ledi' ledi
  merge : ledi'.merge = ledi.merge

/-- A field is set, with its flag if it has one. -/
inductive LedSet (ledi : LedInfo) : LedField → LedInfo → Prop
  | mods (mods : BitVec 32) : LedSet ledi .mods { ledi with mods, definedMods := true }
  | groups (groups : BitVec 32) (pendingGroups : Bool) :
    LedSet ledi .groups { ledi with groups, pendingGroups, definedGroups := true }
  | ctrls (ctrls : BitVec 32) : LedSet ledi .ctrls { ledi with ctrls, definedCtrls := true }
  | whichMods (whichMods : BitVec 32) : LedSet ledi .whichMods { ledi with whichMods }
  | whichGroups (whichGroups : BitVec 32) : LedSet ledi .whichGroups { ledi with whichGroups }

theorem sets_setLedGroups :
    (setLedGroups info pending ledi value).Sets LedSet (some .groups) ledi := by
  unfold setLedGroups
  split
  · exact .inl ⟨_, rfl, .groups _ false⟩
  · exact .inl ⟨_, rfl, .groups _ true⟩
  · rename_i err _ _
    exact .inr ⟨rfl, by cases err <;> nofun⟩

/-- **What `SetLedMapField` does.** -/
theorem sets_setLedMapField :
    (setLedMapField info compat ledi field arrayNdx value).Sets LedSet (ledField field) ledi := by
  unfold setLedMapField ledField
  cases ledFieldName field with
  | groups =>
    dsimp only
    split
    · exact sets_setLedGroups
    · exact .inr ⟨rfl, nofun⟩
  | ignored | unknown => exact .inr ⟨rfl, fun _ => rfl⟩
  | mods | ctrls | whichMods | whichGroups =>
    dsimp only
    split
    · exact .inl ⟨_, rfl, by constructor⟩
    · rename_i err _
      exact .inr ⟨rfl, by cases err <;> nofun⟩
    · exact .inr ⟨rfl, nofun⟩

section

variable {changed : Option LedField} {st : FieldState LedInfo} (h : st.Sets LedSet changed ledi)

include h

/-- The other fields are kept. -/
theorem FieldState.Sets.setsLed : SetsLed changed ledi st.item := by
  obtain ⟨F, rfl, hset⟩ | ⟨hitem, -⟩ := h
  · generalize st.item = ledi' at hset
    refine ⟨fun G hne => ?_, by cases hset <;> rfl⟩
    cases hset <;> cases G <;> first | rfl | exact absurd rfl hne
  · rw [hitem]
    exact ⟨.refl ledi, rfl⟩

/-- The flag of the field is set. -/
theorem FieldState.Sets.defined (haccepted : st.status = .accepted) :
    (changed = some .mods → st.item.definedMods = true) ∧
      (changed = some .groups → st.item.definedGroups = true) := by
  obtain ⟨F, rfl, hset⟩ | ⟨-, hnone⟩ := h
  · generalize st.item = ledi' at hset
    cases hset <;> simp
  · rw [hnone haccepted]
    exact ⟨nofun, nofun⟩

end

/-- **The other fields of an indicator are kept**, by a merge that is not one with the same
values: the default is not replaced, or was fresh, and the component of the state that belongs to
the modifiers or the groups was not set. -/
def KeepsLed (changed : Option LedField) (merge : MergeMode) (old : LedInfo) : Prop :=
  (merge = .replace → AgreeExcept LedInfo.get changed old {}) ∧
    (changed = some .mods → (old.definedMods = true → merge ≠ .augment) → old.whichMods = 0#32) ∧
    (changed = some .groups → (old.definedGroups = true → merge ≠ .augment) →
      old.whichGroups = 0#32)

/-- A component of the state is taken over with a field that is defined. -/
theorem takenWith_iff {which which' : BitVec 32} {old new : Bool} {merge : MergeMode}
    (hnew : new = true) (hwhich : which' = 0#32) :
    (if useNewField old new (merge != .augment) then which' else which) = which ↔
      ((old = true → merge ≠ .augment) → which = 0#32) := by
  subst hnew
  have htaken : useNewField old true (merge != .augment) = true ↔
      (old = true → merge ≠ .augment) := by
    cases old <;> simp [useNewField]
  rw [← htaken]
  split_ifs with h
  · rw [hwhich, eq_comm]
    exact ⟨fun hzero _ => hzero, fun hzero => hzero h⟩
  · exact iff_of_true rfl fun htrue => absurd htrue h

theorem agreeExcept_mergeLedMap_iff {changed : Option LedField}
    (hnew : AgreeExcept LedInfo.get changed new {})
    (hmods : changed = some .mods → new.definedMods = true)
    (hgroups : changed = some .groups → new.definedGroups = true) :
    AgreeExcept LedInfo.get changed (mergeLedMap old new) old ↔
      (sameLedMap old new = false → KeepsLed changed new.merge old) := by
  have hmods' (hne : changed ≠ some .mods) : new.definedMods = false :=
    congrArg Prod.snd (hnew .mods hne)
  have hgroups' (hne : changed ≠ some .groups) : new.definedGroups = false :=
    congrArg Prod.snd (hnew .groups hne)
  have hctrls' (hne : changed ≠ some .ctrls) : new.definedCtrls = false :=
    congrArg Prod.snd (hnew .ctrls hne)
  unfold mergeLedMap
  cases hsame : sameLedMap old new with
  | true =>
    -- only the flag of the field may change
    refine iff_of_true (fun G hne => ?_) nofun
    cases G with
    | mods => exact Prod.ext rfl (by simp [LedInfo.get, hmods' hne])
    | groups => exact Prod.ext rfl (by simp [LedInfo.get, hgroups' hne])
    | ctrls => exact Prod.ext rfl (by simp [LedInfo.get, hctrls' hne])
    | whichMods | whichGroups => rfl
  | false =>
    rw [if_neg Bool.false_ne_true, forall_prop_of_true rfl]
    split_ifs with hmerge
    · rw [agreeExcept_replace_iff hnew]
      refine ⟨fun h => ⟨fun _ => h, ?_, ?_⟩, fun h => h.1 hmerge⟩
      · rintro rfl _
        exact h .whichMods nofun
      · rintro rfl _
        exact h .whichGroups nofun
    · constructor
      · intro h
        refine ⟨fun hreplace => absurd hreplace hmerge, ?_, ?_⟩
        · rintro rfl
          exact (takenWith_iff (hmods rfl) (hnew .whichMods nofun)).mp (h .whichMods nofun)
        · rintro rfl
          exact (takenWith_iff (hgroups rfl) (hnew .whichGroups nofun)).mp (h .whichGroups nofun)
      · rintro ⟨-, hwhichMods, hwhichGroups⟩ G hne
        cases G with
        | mods => exact mergedField_of_fresh (hmods' hne)
        | ctrls => exact mergedField_of_fresh (hctrls' hne)
        | groups =>
          have hkeep := hgroups' hne
          simp only [LedInfo.get, hkeep, useNewField_false, Bool.or_false]
          rfl
        | whichMods =>
          by_cases hF : changed = some .mods
          · exact (takenWith_iff (hmods hF) (hnew .whichMods hne)).mpr (hwhichMods hF)
          · exact congrArg Prod.fst (mergedField_of_fresh (hmods' hF))
        | whichGroups =>
          by_cases hF : changed = some .groups
          · exact (takenWith_iff (hgroups hF) (hnew .whichGroups hne)).mpr (hwhichGroups hF)
          · exact congrArg Prod.fst (mergedField_of_fresh (hgroups' hF))

end Led

/-! ### Groups -/

section Group

variable {clobber da : Bool} {a b : GroupInfo} {flag : MergedLevel → Bool}

/-- The values of a field of all levels, or the type, with the flag. -/
def GroupField.Value : GroupField → Type
  | .syms => (ℕ → List Keysym) × Bool
  | .acts => (ℕ → List XkbAction) × Bool
  | .type => Option Atom × Bool

/-- A field of a group. -/
def GroupInfo.get (groupi : GroupInfo) : (field : GroupField) → field.Value
  | .syms => (fun i => (groupi.level i).syms, groupi.definedSyms)
  | .acts => (fun i => (groupi.level i).actions, groupi.definedActs)
  | .type => (groupi.type, groupi.definedType)

/-- **A flag that the new group lacks** is kept, unless the group has no levels: the last level is
not taken from the new group, so not all of them are. -/
theorem mergedFlag_eq_iff (ha : a.WellFormed)
    (hflag : ∀ i, a.level i ≠ {} → flag (mergeLevel clobber (a.level i) (b.level i)) = false) :
    mergedFlag clobber flag a b da false = da ↔ (b.levels ≠ [] → a.levels = [] → da = false) := by
  by_cases hb : b.levels = []
  · rw [mergedFlag_of_nil_right hb]
    exact iff_of_true rfl fun hne => absurd hb hne
  by_cases hnil : a.levels = []
  · rw [mergedFlag_of_nil_left hnil hb, eq_comm]
    exact ⟨fun h _ _ => h, fun h => h hb hnil⟩
  refine iff_of_true ?_ fun _ h => absurd h hnil
  have hpos := length_pos_iff.mpr hnil
  unfold mergedFlag mergeGroupDefined
  split_ifs with hcount
  · rfl
  rw [Bool.or_false]
  refine (Bool.and_eq_left_iff_imp.mpr fun _ => bne_iff_ne.mpr fun hsize => ?_)
  have hle := countP_le_length (p := flag) (l := zipWith (mergeLevel clobber) a.levels b.levels)
  rw [length_zipWith] at hle
  have hall : ∀ m ∈ zipWith (mergeLevel clobber) a.levels b.levels, flag m = true :=
    countP_eq_length.mp (by rw [length_zipWith]; omega)
  have hlast := hall _ (mergeLevel_mem_zipWith (i := a.levels.length - 1) (by omega) (by omega))
  rw [hflag _ (ha.last_ne hnil)] at hlast
  cases hlast

theorem MergesField.get_eq_iff {field : LevelInfo → List β} {d : Bool}
    (h : MergesField clobber field flag) (ha : a.WellFormed) (hb : ∀ i, field (b.level i) = [])
    (hd : d = mergedFlag clobber flag a b da false) :
    ((fun i => field ((mergeGroups clobber a b).level i), d) = (fun i => field (a.level i), da)) ↔
      (b.levels ≠ [] → a.levels = [] → da = false) := by
  have hlevels : (fun i => field ((mergeGroups clobber a b).level i)) =
      fun i => field (a.level i) := by
    funext i
    rw [level_mergeGroups]
    by_cases hx : a.level i = {}
    · rw [hx, empty_mergeLevel, hb i, h.empty]
    · rw [h.level, h.kept _ _ hx (hb i), cond_false]
  rw [Prod.mk.injEq, and_iff_right hlevels, hd]
  exact mergedFlag_eq_iff ha fun i hx => h.kept _ _ hx (hb i)

/-- **A field that the new group lacks** is kept by merging, unless its flag is lost with those of
a group without levels. -/
theorem get_mergeGroups_eq_iff (ha : a.WellFormed) {field : GroupField}
    (hb : b.get field = GroupInfo.get {} field) :
    (mergeGroups clobber a b).get field = a.get field ↔
      (b.levels ≠ [] → a.levels = [] → a.defined field = false) := by
  cases field with
  | syms =>
    obtain ⟨hvalue, hdefined⟩ := Prod.mk.inj hb
    have hflag := (defined_mergeGroups clobber a b).1
    rw [show b.definedSyms = false from hdefined] at hflag
    exact mergesField_syms.get_eq_iff ha (congrFun hvalue) hflag
  | acts =>
    obtain ⟨hvalue, hdefined⟩ := Prod.mk.inj hb
    have hflag := (defined_mergeGroups clobber a b).2
    rw [show b.definedActs = false from hdefined] at hflag
    exact mergesField_actions.get_eq_iff ha (congrFun hvalue) hflag
  | type =>
    obtain ⟨hvalue, hdefined⟩ := Prod.mk.inj hb
    have htype : (mergeGroups clobber a b).type = a.type := by
      rw [type_mergeGroups, show b.type = none from hvalue]
      rfl
    refine Iff.trans Prod.ext_iff ((and_iff_right htype).trans ?_)
    show (mergeGroups clobber a b).definedType = a.definedType ↔
      (b.levels ≠ [] → a.levels = [] → a.definedType = false)
    rw [definedType_mergeGroups, show b.definedType = false from hdefined, Bool.false_or,
      Bool.and_eq_left_iff_imp, Bool.or_eq_true, List.isEmpty_iff, Bool.not_eq_true',
      isEmpty_eq_false_iff]
    constructor
    · intro h hb' ha'
      by_contra hne
      exact (h (by simpa using hne)).elim hb' fun hne' => hne' ha'
    · intro h htrue
      by_contra hor
      obtain ⟨hb', ha'⟩ := not_or.mp hor
      exact absurd (h hb' (not_not.mp ha')) (by simp [htrue])

/-- **What merging does to the other fields of a group.** -/
theorem agreeExcept_mergeGroups_iff (clobber : Bool) (ha : a.WellFormed) {field : GroupField}
    (hb : AgreeExcept GroupInfo.get (some field) b {}) :
    AgreeExcept GroupInfo.get (some field) (mergeGroups clobber a b) a ↔
      (b.levels ≠ [] → a.levels = [] → ∀ g, some field ≠ some g → a.defined g = false) :=
  ⟨fun h hb' ha' g hne => (get_mergeGroups_eq_iff ha (hb g hne)).mp (h g hne) hb' ha',
    fun h g hne => (get_mergeGroups_eq_iff ha (hb g hne)).mpr fun hb' ha' => h hb' ha' g hne⟩

end Group

/-! ### Keys -/

section Key

variable {keyi into incoming : KeyInfo}

variable {changed : Option KeyField} {n : ℕ} {groupField : GroupField}

/-- The values of a field, with its flag. -/
def KeyField.Value : KeyField → Type
  | .keyRepeat => KeyRepeat × Bool
  | .defaultType => Option Atom × Bool
  | .groupInfo => (LayoutOutOfRangePolicy × BitVec 32 × Bool) × Bool
  | .vmodmap => BitVec 32 × Bool
  | .overlay => OverlayInfo
  | .group _ field => field.Value

/-- A field of a key. The groups that it does not have are empty. -/
def KeyInfo.get (keyi : KeyInfo) : (field : KeyField) → field.Value
  | .keyRepeat => (keyi.keyRepeat, keyi.definedRepeat)
  | .defaultType => (keyi.defaultType, keyi.definedDefaultType)
  | .groupInfo =>
    ((keyi.outOfRangeGroupPolicy, keyi.outOfRangeGroupNumber, keyi.outOfRangePendingGroup),
      keyi.definedGroupInfo)
  | .vmodmap => (keyi.vmodmap, keyi.definedVmodmap)
  | .overlay => keyi.overlays
  | .group k field => (keyi.groups.getD k {}).get field

/-- What a field of a key changes. -/
structure SetsKey (changed : Option KeyField) (keyi keyi' : KeyInfo) : Prop where
  agree : AgreeExcept KeyInfo.get changed keyi' keyi
  merge : keyi'.merge = keyi.merge

theorem SetsKey.refl (changed : Option KeyField) (keyi : KeyInfo) : SetsKey changed keyi keyi :=
  ⟨.refl keyi, rfl⟩

/-- The groups of a fresh key with room for an index. -/
theorem explicitGroupIndex_nil {e : ExprDef} (h : explicitGroupIndex info [] e = .ok (n, groups)) :
    groupOfIndex info (some e) = some n ∧ ∀ groupi ∈ groups, groupi = {} := by
  obtain ⟨group, hgroup, hndx⟩ := Outcome.bind_eq_ok h
  obtain ⟨rfl, rfl⟩ := Prod.mk.inj (Except.ok.inj hndx)
  refine ⟨by rw [groupOfIndex, hgroup]; rfl, fun groupi hmem => ?_⟩
  unfold growFor at hmem
  split_ifs at hmem
  · exact (mem_darrayResize0 hmem).elim (fun h => absurd h not_mem_nil) id
  · exact absurd hmem not_mem_nil

theorem getGroupIndex_nil (h : getGroupIndex info [] groupField arrayNdx = .ok (n, groups)) :
    groupOfIndex info arrayNdx = some n ∧ ∀ groupi ∈ groups, groupi = {} := by
  cases arrayNdx with
  | some e => exact explicitGroupIndex_nil h
  | none =>
    simp only [getGroupIndex, findIdx?_nil] at h
    split_ifs at h
    obtain ⟨rfl, rfl⟩ := Prod.mk.inj (Except.ok.inj h)
    exact ⟨rfl, by simp⟩

/-- Setting a field of a group that was empty. -/
theorem setsKey_group {groupi' : GroupInfo} (hkeyi : keyi.groups = [])
    (hgroups : ∀ groupi ∈ groups, groupi = {})
    (hgroup : AgreeExcept GroupInfo.get (some groupField) groupi' {}) :
    SetsKey (some (.group n groupField)) keyi { keyi with groups := groups.set n groupi' } := by
  refine ⟨fun G hne => ?_, rfl⟩
  cases G with
  | keyRepeat | defaultType | groupInfo | vmodmap | overlay => rfl
  | group k g =>
    show ((groups.set n groupi').getD k {}).get g = (keyi.groups.getD k {}).get g
    have hempty : keyi.groups.getD k {} = {} := by simp [hkeyi]
    rw [hempty, getD_eq_getElem?_getD, getElem?_set]
    split_ifs with hk hlt
    · subst hk
      refine hgroup g fun hg => hne ?_
      rw [Option.some.inj hg]
    · rfl
    · cases hgroupi : groups[k]? with
      | none => rfl
      | some groupi => rw [getD_some, hgroups groupi (mem_of_getElem? hgroupi)]

theorem agreeExcept_addSymbolsToGroup (h : (addSymbolsToGroup {} value).1 = .accepted) :
    AgreeExcept GroupInfo.get (some .syms) (addSymbolsToGroup {} value).2 {} := by
  obtain ⟨levels, definedSyms, heq⟩ := addSymbolsToGroup_frame
  rintro (_ | _ | _) hne
  · exact absurd rfl hne
  · refine Prod.ext (funext fun i => ?_) (by rw [heq]; rfl)
    show ((addSymbolsToGroup {} value).2.level i).actions = _
    rw [level_addSymbolsToGroup rfl h wellFormed_empty]
    rfl
  · rw [heq]
    rfl

theorem agreeExcept_addActionsToGroup {defaults : ActionsInfo} {mods : XkbModSet}
    (h : (addActionsToGroup info defaults mods pending {} value).status = .accepted) :
    AgreeExcept GroupInfo.get (some .acts)
      (addActionsToGroup info defaults mods pending {} value).group {} := by
  obtain ⟨levels, definedActs, heq⟩ := addActionsToGroup_frame
  rintro (_ | _ | _) hne
  · refine Prod.ext (funext fun i => ?_) (by rw [heq]; rfl)
    show ((addActionsToGroup info defaults mods pending {} value).group.level i).syms = _
    rcases syms_addActionsToGroup wellFormed_empty h with hsyms | hempty
    · exact hsyms
    · rw [hempty]
      rfl
  · exact absurd rfl hne
  · rw [heq]
    rfl

theorem setsKey_addSymbolsToKey (hkeyi : keyi.groups = [])
    (h : (addSymbolsToKey info keyi arrayNdx value).1 = .accepted) :
    SetsKey ((groupOfIndex info arrayNdx).map (.group · .syms)) keyi
      (addSymbolsToKey info keyi arrayNdx value).2 := by
  unfold addSymbolsToKey at h ⊢
  rw [hkeyi] at h ⊢
  split at h
  · exact .refl _ _
  · rename_i n groups hndx
    obtain ⟨hn, hgroups⟩ := getGroupIndex_nil hndx
    split at h
    · cases h
    · rename_i groupi hgroupi
      obtain rfl := hgroups groupi (mem_of_getElem? hgroupi)
      rw [hn]
      exact setsKey_group hkeyi hgroups (agreeExcept_addSymbolsToGroup h)

theorem setsKey_addActionsToKey (hkeyi : keyi.groups = [])
    (h : (addActionsToKey info syms keyi arrayNdx value).status = .accepted) :
    SetsKey ((groupOfIndex info arrayNdx).map (.group · .acts)) keyi
      (addActionsToKey info syms keyi arrayNdx value).key := by
  unfold addActionsToKey at h ⊢
  rw [hkeyi] at h ⊢
  split at h
  · exact .refl _ _
  · rename_i n groups hndx
    obtain ⟨hn, hgroups⟩ := getGroupIndex_nil hndx
    split at h
    · cases h
    · rename_i groupi hgroupi
      obtain rfl := hgroups groupi (mem_of_getElem? hgroupi)
      rw [hn]
      exact setsKey_group hkeyi hgroups (agreeExcept_addActionsToGroup h)

theorem setsKey_setTypeField (hkeyi : keyi.groups = [])
    (h : (setTypeField info keyi arrayNdx value).1 = .accepted) :
    SetsKey (if arrayNdx.isNone then some .defaultType
      else (groupOfIndex info arrayNdx).map (.group · .type)) keyi
      (setTypeField info keyi arrayNdx value).2 := by
  unfold setTypeField at h ⊢
  split at h
  · cases h
  · rename_i val hval
    cases arrayNdx with
    | none =>
      refine ⟨?_, rfl⟩
      rintro (_ | _ | _ | _ | _ | ⟨k, g⟩) hne <;> first | rfl | exact absurd rfl hne
    | some e =>
      dsimp only at h ⊢
      rw [hkeyi] at h ⊢
      split at h
      · exact .refl _ _
      · rename_i n groups hndx
        obtain ⟨hn, hgroups⟩ := explicitGroupIndex_nil hndx
        split at h
        · cases h
        · rename_i groupi hgroupi
          obtain rfl := hgroups groupi (mem_of_getElem? hgroupi)
          rw [if_neg (by simp), hn]
          refine setsKey_group hkeyi hgroups ?_
          rintro (_ | _ | _) hne <;> first | rfl | exact absurd rfl hne

theorem KeySet.setsKey {keyi' : KeyInfo} (h : KeySet keyi changed keyi') :
    SetsKey changed keyi keyi' := by
  cases h with
  | same => exact .refl _ _
  | _ =>
    refine ⟨?_, rfl⟩
    rintro (_ | _ | _ | _ | _ | ⟨k, g⟩) hne <;> first | rfl | exact absurd rfl hne

/-- **`SetSymbolsField` changes its field only**, in a key without groups. -/
theorem setsKey_setSymbolsField (hkeyi : keyi.groups = [])
    (h : (setSymbolsField info syms keyi field arrayNdx value).status = .accepted) :
    SetsKey (keyField info field arrayNdx) keyi
      (setSymbolsField info syms keyi field arrayNdx value).key := by
  cases hfield : keyFieldName field with
  | type =>
    simp only [setSymbolsField, keyField, hfield] at h ⊢
    exact setsKey_setTypeField hkeyi h
  | symbols =>
    simp only [setSymbolsField, keyField, hfield] at h ⊢
    exact setsKey_addSymbolsToKey hkeyi h
  | actions =>
    simp only [setSymbolsField, keyField, hfield] at h ⊢
    exact setsKey_addActionsToKey hkeyi h
  | _ =>
    exact (keySet_setSymbolsField (by simp [hfield]) (by simp [hfield]) (by simp [hfield])).setsKey

theorem mergeGroups_empty {clobber : Bool} (a : GroupInfo) : mergeGroups clobber a {} = a := by
  simp [mergeGroups, mergeGroupType]

/-- A group of a merged key. A group that the key did not have is taken as it is. -/
theorem getD_zipLong_mergeGroups {clobber : Bool} (as bs : List GroupInfo) (k : ℕ) :
    (zipLong (mergeGroups clobber) as bs).getD k {} =
        mergeGroups clobber (as.getD k {}) (bs.getD k {}) ∨
      as.getD k {} = {} ∧ (zipLong (mergeGroups clobber) as bs).getD k {} = bs.getD k {} := by
  simp only [getD_eq_getElem?_getD, getElem?_zipLong]
  cases as[k]? with
  | none => exact .inr ⟨rfl, by cases bs[k]? <;> rfl⟩
  | some a =>
    left
    cases bs[k]? with
    | none => exact (mergeGroups_empty a).symm
    | some b => rfl

/-- **The other fields of the default key are kept**: the default is not replaced, or was fresh,
and no flag is lost with the levels of a group. -/
def KeepsKey (changed : Option KeyField) (merge : MergeMode) (into incoming : KeyInfo) : Prop :=
  if merge = .replace then AgreeExcept KeyInfo.get changed into {}
  else
    ∀ k field, changed = some (.group k field) → (incoming.groups.getD k {}).levels ≠ [] →
      (into.groups.getD k {}).levels = [] →
      ∀ other, some field ≠ some other → (into.groups.getD k {}).defined other = false

/-- The groups of the default key, after a merge. -/
theorem agreeExcept_zipLong_iff {clobber : Bool} (hinto : into.WellFormed)
    (hincoming : incoming.WellFormed) (hnew : AgreeExcept KeyInfo.get changed incoming {}) :
    (∀ k field, changed ≠ some (.group k field) →
      ((zipLong (mergeGroups clobber) into.groups incoming.groups).getD k {}).get field =
        (into.groups.getD k {}).get field) ↔
      ∀ k field, changed = some (.group k field) → (incoming.groups.getD k {}).levels ≠ [] →
        (into.groups.getD k {}).levels = [] →
        ∀ other, some field ≠ some other → (into.groups.getD k {}).defined other = false := by
  constructor
  · intro h k field hF hlevels hnil other hne
    have hother {g : GroupField} (hg : some field ≠ some g) : changed ≠ some (.group k g) := by
      rw [hF]
      rintro ⟨⟩
      exact hg rfl
    rcases getD_zipLong_mergeGroups into.groups incoming.groups k with hmerge | hempty
    · refine (agreeExcept_mergeGroups_iff clobber (hinto.getD k) fun g hg => hnew (.group k g)
        (hother hg)).mp (fun g hg => ?_) hlevels hnil other hne
      rw [← hmerge]
      exact h k g (hother hg)
    · rw [hempty.1]
      cases other <;> rfl
  · intro h k g hne
    rcases getD_zipLong_mergeGroups into.groups incoming.groups k with hmerge | hempty
    · rw [hmerge, get_mergeGroups_eq_iff (hinto.getD k) (hnew (.group k g) hne)]
      by_cases hF : ∃ field, changed = some (.group k field)
      · obtain ⟨field, rfl⟩ := hF
        refine fun hlevels hnil => h k field rfl hlevels hnil g ?_
        rintro ⟨⟩
        exact hne rfl
      · -- the new key does not have the group
        have hsyms := congrArg Prod.snd (hnew (.group k .syms) fun hF' => hF ⟨_, hF'⟩)
        have hacts := congrArg Prod.snd (hnew (.group k .acts) fun hF' => hF ⟨_, hF'⟩)
        intro hlevels
        exact absurd ((hincoming.getD k).levels_eq_nil hsyms hacts) hlevels
    · rw [hempty.1, hempty.2]
      exact hnew (.group k g) hne

/-- **What merging does to the other fields of the default key.** -/
theorem agreeExcept_mergeKeys_iff {key : KeyInfo} (hinto : into.WellFormed)
    (hincoming : incoming.WellFormed) (hnew : AgreeExcept KeyInfo.get changed incoming {})
    (h : mergeKeys info into incoming = some key) :
    AgreeExcept KeyInfo.get changed key into ↔
      KeepsKey changed incoming.merge into incoming := by
  unfold mergeKeys KeepsKey at *
  split_ifs at h ⊢ with hmerge
  · cases h
    exact agreeExcept_replace_iff hnew
  obtain ⟨overlays, hoverlays, rfl⟩ := map_eq_some_iff.mp h
  refine Iff.trans ⟨fun h k field hne => h (.group k field) hne, fun h G hne => ?_⟩
    (agreeExcept_zipLong_iff hinto hincoming hnew)
  cases G with
  | keyRepeat => exact mergedField_of_fresh (congrArg Prod.snd (hnew .keyRepeat hne))
  | defaultType => exact mergedField_of_fresh (congrArg Prod.snd (hnew .defaultType hne))
  | groupInfo =>
    have hflag : incoming.definedGroupInfo = false := congrArg Prod.snd (hnew .groupInfo hne)
    simp only [KeyInfo.get, hflag, useNewField_false, Bool.or_false]
    rfl
  | vmodmap => exact mergedField_of_fresh (congrArg Prod.snd (hnew .vmodmap hne))
  | overlay =>
    have hfresh : incoming.overlays = {} := hnew .overlay hne
    rw [hfresh] at hoverlays
    exact (Option.some.inj hoverlays).symm
  | group k field => exact h k field hne

/-- Only overlays make merging abort. -/
theorem keepsKey_of_mergeKeys_eq_none (hnew : AgreeExcept KeyInfo.get changed incoming {})
    (h : mergeKeys info into incoming = none) : KeepsKey changed incoming.merge into incoming := by
  unfold mergeKeys KeepsKey at *
  split_ifs at h ⊢ with hmerge
  rintro k field rfl
  have hfresh : incoming.overlays = {} := hnew .overlay nofun
  have hoverlays := map_eq_none_iff.mp h
  rw [hfresh] at hoverlays
  cases hoverlays

end Key

/-! ### Statements -/

section Statement

variable {stmt : VarDef}

section Default

variable (hname : stmt.name.bind exprResolveLhs = some ⟨some elem, field, arrayNdx⟩)
include hname

theorem defaultKey_handleGlobalVar {st : KeyState}
    (helem : istreq elem (ascii "key") = true)
    (hst : setSymbolsField info syms { merge := stmt.merge } field arrayNdx stmt.value = st) :
    (handleGlobalVar info syms stmt).2.defaultKey =
      if st.status = .accepted then (mergeKeys info syms.defaultKey st.key).getD syms.defaultKey
      else syms.defaultKey := by
  simp only [handleGlobalVar, hname, helem, if_true, reduceCtorEq, if_false]
  rw [hst]
  cases hstatus : st.status with
  | accepted => cases mergeKeys info syms.defaultKey st.key <;> rfl
  | rejected | undefined => rfl

theorem defaultInterp_handleCompatGlobalVar {st : FieldState SymInterpInfo}
    (helem : istreq elem (ascii "interpret") = true)
    (hst : setInterpField info compat pastEnd { merge := stmt.merge } field arrayNdx stmt.value =
      st) :
    (handleCompatGlobalVar info pastEnd compat stmt).2.defaultInterp =
      if st.status = .accepted then mergeInterp compat.defaultInterp st.item
      else compat.defaultInterp := by
  simp only [handleCompatGlobalVar, hname, helem, if_true, reduceCtorEq, if_false, hst]
  split_ifs <;> rfl

theorem defaultLed_handleCompatGlobalVar {st : FieldState LedInfo}
    (helem : istreq elem (ascii "indicator") = true)
    (hst : setLedMapField info compat { merge := stmt.merge } field arrayNdx stmt.value = st) :
    (handleCompatGlobalVar info pastEnd compat stmt).2.defaultLed =
      if st.status = .accepted then mergeLedMap compat.defaultLed st.item
      else compat.defaultLed := by
  have hne : istreq elem (ascii "interpret") ≠ true := by
    intro hinterp
    rw [istreq_iff] at hinterp helem
    exact absurd (hinterp.symm.trans helem) (by decide)
  simp only [handleCompatGlobalVar, hname, helem, hne, if_true, reduceCtorEq, if_false, hst]
  split_ifs <;> rfl

theorem defaultKey_frame_iff {st : KeyState}
    (helem : istreq elem (ascii "key") = true) (hwf : syms.defaultKey.WellFormed)
    (hst : setSymbolsField info syms { merge := stmt.merge } field arrayNdx stmt.value = st) :
    AgreeExcept KeyInfo.get (keyField info field arrayNdx)
        (handleGlobalVar info syms stmt).2.defaultKey syms.defaultKey ↔
      (st.status = .accepted →
        KeepsKey (keyField info field arrayNdx) stmt.merge syms.defaultKey st.key) := by
  rw [defaultKey_handleGlobalVar hname helem hst]
  split_ifs with haccepted
  · have hset : SetsKey (keyField info field arrayNdx) { merge := stmt.merge } st.key :=
      hst ▸ setsKey_setSymbolsField rfl (hst ▸ haccepted)
    have hnew : AgreeExcept KeyInfo.get (keyField info field arrayNdx) st.key {} :=
      hset.agree.trans fun G _ => by cases G <;> rfl
    have hwf' : st.key.WellFormed :=
      hst ▸ wellFormed_setSymbolsField (fun _ h => by cases h) (hst ▸ haccepted)
    have hmerge : st.key.merge = stmt.merge := hset.merge
    rw [forall_prop_of_true haccepted, ← hmerge]
    cases hkey : mergeKeys info syms.defaultKey st.key with
    | none => exact iff_of_true (.refl _) (keepsKey_of_mergeKeys_eq_none hnew hkey)
    | some key => exact agreeExcept_mergeKeys_iff hwf hwf' hnew hkey
  · exact iff_of_true (.refl _) fun h => absurd h haccepted

theorem defaultInterp_frame_iff {st : FieldState SymInterpInfo}
    (helem : istreq elem (ascii "interpret") = true)
    (hst : setInterpField info compat pastEnd { merge := stmt.merge } field arrayNdx stmt.value =
      st) :
    AgreeExcept get (interpField field)
        (handleCompatGlobalVar info pastEnd compat stmt).2.defaultInterp compat.defaultInterp ↔
      (st.status = .accepted → stmt.merge = .replace →
        AgreeExcept get (interpField field) compat.defaultInterp {}) := by
  rw [defaultInterp_handleCompatGlobalVar hname helem hst]
  split_ifs with haccepted
  · have hset : SetsInterp (interpField field) { merge := stmt.merge } st.item :=
      hst ▸ sets_setInterpField.setsInterp
    have hmerge : st.item.merge = stmt.merge := hset.merge
    rw [forall_prop_of_true haccepted, ← hmerge]
    exact agreeExcept_mergeInterp_iff (hset.agree.trans fun G _ => by cases G <;> rfl)
  · exact iff_of_true (.refl _) fun h => absurd h haccepted

theorem defaultLed_frame_iff {st : FieldState LedInfo}
    (helem : istreq elem (ascii "indicator") = true)
    (hst : setLedMapField info compat { merge := stmt.merge } field arrayNdx stmt.value = st) :
    AgreeExcept LedInfo.get (ledField field)
        (handleCompatGlobalVar info pastEnd compat stmt).2.defaultLed compat.defaultLed ↔
      (st.status = .accepted → sameLedMap compat.defaultLed st.item = false →
        KeepsLed (ledField field) stmt.merge compat.defaultLed) := by
  rw [defaultLed_handleCompatGlobalVar hname helem hst]
  split_ifs with haccepted
  · have hsets : st.Sets LedSet (ledField field) { merge := stmt.merge } :=
      hst ▸ sets_setLedMapField
    have hmerge : st.item.merge = stmt.merge := hsets.setsLed.merge
    obtain ⟨hmods, hgroups⟩ := hsets.defined haccepted
    rw [forall_prop_of_true haccepted, ← hmerge]
    exact agreeExcept_mergeLedMap_iff (hsets.setsLed.agree.trans fun G _ => by cases G <;> rfl)
      hmods
      hgroups
  · exact iff_of_true (.refl _) fun h => absurd h haccepted

end Default

/-- **A default statement changes its field only**, exactly if the value is not accepted for the
field, or merging keeps the other fields of the default key, interpretation or indicator. A value
at which the program stops, as for `key.type[0]`, is not accepted here. -/
theorem default_statement_frame_iff (info : KeymapInfo) (pastEnd : XkbAction) (syms : SymbolsInfo)
    (compat : CompatInfo) (stmt : VarDef)
    (hname : stmt.name.bind exprResolveLhs = some ⟨some elem, field, arrayNdx⟩)
    (hwf : syms.defaultKey.WellFormed) :
    (istreq elem (ascii "key") = true →
      let st := setSymbolsField info syms { merge := stmt.merge } field arrayNdx stmt.value
      (AgreeExcept KeyInfo.get (keyField info field arrayNdx)
          (handleGlobalVar info syms stmt).2.defaultKey syms.defaultKey ↔
        (st.status = .accepted →
          KeepsKey (keyField info field arrayNdx) stmt.merge syms.defaultKey st.key))) ∧
    (istreq elem (ascii "interpret") = true →
      let st := setInterpField info compat pastEnd { merge := stmt.merge } field arrayNdx stmt.value
      (AgreeExcept SymInterpInfo.get (interpField field)
          (handleCompatGlobalVar info pastEnd compat stmt).2.defaultInterp compat.defaultInterp ↔
        (st.status = .accepted → stmt.merge = .replace →
          AgreeExcept SymInterpInfo.get (interpField field) compat.defaultInterp {}))) ∧
    (istreq elem (ascii "indicator") = true →
      let st := setLedMapField info compat { merge := stmt.merge } field arrayNdx stmt.value
      (AgreeExcept LedInfo.get (ledField field)
          (handleCompatGlobalVar info pastEnd compat stmt).2.defaultLed compat.defaultLed ↔
        (st.status = .accepted → sameLedMap compat.defaultLed st.item = false →
          KeepsLed (ledField field) stmt.merge compat.defaultLed))) := by
  exact ⟨fun helem => defaultKey_frame_iff hname helem hwf rfl,
    fun helem => defaultInterp_frame_iff hname helem rfl,
    fun helem => defaultLed_frame_iff hname helem rfl⟩

/-- The statement `key.type = "ALPHABETIC"`. -/
def typeDefault : VarDef where
  name := some (.fieldRef (ascii "key") (ascii "type"))
  value := .string (ascii "ALPHABETIC")

/-- The statement `key.repeat = no`, with a merge mode. -/
def repeatDefault (merge : MergeMode) : VarDef where
  merge := merge
  name := some (.fieldRef (ascii "key") (ascii "repeat"))
  value := .ident (ascii "no")

/-- After `key.type = "ALPHABETIC"`, the statement `key.repeat = no` keeps the type. -/
theorem default_statement_frame_repeat :
    AgreeExcept KeyInfo.get (some .keyRepeat)
      (handleGlobalVar plainInfo (handleGlobalVar plainInfo plainSymbols typeDefault).2
        (repeatDefault .default)).2.defaultKey
      (handleGlobalVar plainInfo plainSymbols typeDefault).2.defaultKey := by
  refine ((default_statement_frame_iff plainInfo {} (handleGlobalVar plainInfo plainSymbols
    typeDefault).2 plainCompat (repeatDefault .default) rfl
    (wellFormed_handleGlobalVar (fun _ h => by cases h))).1 (by decide)).mpr fun _ => ?_
  rintro k field ⟨⟩

/-- The statement `replace key.repeat = no` forgets the type. -/
theorem replace_repeat_forgets_type :
    let syms := (handleGlobalVar plainInfo plainSymbols typeDefault).2
    syms.defaultKey.defaultType = some (ascii "ALPHABETIC") ∧
      (handleGlobalVar plainInfo syms (repeatDefault .replace)).2.defaultKey.defaultType =
        none := by
  decide +kernel

end Statement

end Xkbcommon.Xkbcomp
