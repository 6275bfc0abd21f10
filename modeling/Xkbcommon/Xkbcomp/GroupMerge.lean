import Xkbcommon.Xkbcomp.Symbols

/-!
# What merging does to a group

`Xkbcommon.Xkbcomp.mergeGroups` copies, level by level, what is to be kept of two groups, with
shortcuts for groups and levels that are empty or equal. Its purpose is simple: in the override
mode a value of the new group wins where there is one, in the augment mode a value of the old one
(`Xkbcommon.Xkbcomp.GroupView.override`). The values are the keysyms of a level, the actions of a
level and the type.

* The union `xkb_action` is a record here, so actions are compared without the views that their
  type does not select (`Xkbcommon.Xkbcomp.normalAction`), as `action_equal` compares them.
* The lists of a level are *canonical*: they contain neither `NoSymbol` nor `NoAction()`. The
  parser and `Xkbcommon.Xkbcomp.storeLevelActions` drop both, and merging keeps it so.
-/

namespace Xkbcommon.Xkbcomp

open Biased List

variable {clobber : Bool}

/-! ### Actions -/

/-- An action without the views that its type does not select. -/
def normalAction (act : XkbAction) : XkbAction :=
  match act.type with
  | .none | .void | .terminate | .unsupportedLegacy | .unknown => { type := act.type }
  | .modSet | .modLatch | .modLock => { type := act.type, mods := act.mods }
  | .groupSet | .groupLatch | .groupLock => { type := act.type, group := act.group }
  | .ptrMove => { type := act.type, ptr := act.ptr }
  | .ptrButton | .ptrLock => { type := act.type, btn := act.btn }
  | .ptrDefault => { type := act.type, dflt := act.dflt }
  | .switchVt => { type := act.type, screen := act.screen }
  | .ctrlSet | .ctrlLock => { type := act.type, ctrls := act.ctrls }
  | .redirectKey => { type := act.type, redirect := act.redirect }
  | .internal => { type := act.type, internal := act.internal }
  | .privateAction | .custom _ => { type := act.type, priv := act.priv }

@[simp]
theorem normalAction_type (act : XkbAction) : (normalAction act).type = act.type := by
  unfold normalAction
  split <;> rfl

/-- `action_equal` compares what the union of the source holds. -/
theorem actionEqual_iff {a b : XkbAction} :
    actionEqual a b = true ↔ normalAction a = normalAction b := by
  constructor
  · intro h
    rw [actionEqual, Bool.and_eq_true, beq_iff_eq] at h
    obtain ⟨htype, h⟩ := h
    unfold normalAction
    rw [← htype]
    generalize a.type = type at h ⊢
    cases type <;> simp_all
  · intro h
    have htype : a.type = b.type := by
      rw [← normalAction_type a, h, normalAction_type]
    rw [actionEqual, Bool.and_eq_true, beq_iff_eq]
    refine ⟨htype, ?_⟩
    unfold normalAction at h
    rw [← htype] at h
    generalize a.type = type at h ⊢
    cases type <;> simp_all

theorem xkbLevelsSameActions_iff {a b : List XkbAction} :
    xkbLevelsSameActions a b = true ↔ a.map normalAction = b.map normalAction := by
  induction a generalizing b with
  | nil => cases b <;> simp [xkbLevelsSameActions]
  | cons act a ih =>
    cases b with
    | nil => simp [xkbLevelsSameActions]
    | cons act' b =>
      rw [map_cons, map_cons, List.cons.injEq, ← ih, ← actionEqual_iff]
      simp only [xkbLevelsSameActions, length_cons, zip_cons_cons, all_cons,
        Bool.and_eq_true, beq_iff_eq, add_right_cancel_iff]
      tauto

/-! ### Groups as they are seen -/

/-- The level of an index, empty past the end. -/
def GroupInfo.level (groupi : GroupInfo) (i : ℕ) : LevelInfo := groupi.levels.getD i {}

/-- **What a group defines**: at each level its keysyms and its actions, and its type. -/
@[ext]
structure GroupView where
  numLevels : ℕ
  syms : ℕ → List Keysym
  actions : ℕ → List XkbAction
  type : Option Atom

/-- The view of a group. -/
def GroupInfo.view (groupi : GroupInfo) : GroupView where
  numLevels := groupi.levels.length
  syms i := (groupi.level i).syms
  actions i := (groupi.level i).actions.map normalAction
  type := groupi.type

/-- **Biased pointwise merging**: the values of the second group, and those of the first one where
it has none. -/
def GroupView.override (a b : GroupView) : GroupView where
  numLevels := max a.numLevels b.numLevels
  syms i := Biased.override (a.syms i) (b.syms i)
  actions i := Biased.override (a.actions i) (b.actions i)
  type := b.type.or a.type

theorem GroupView.override_assoc (a b c : GroupView) :
    (a.override b).override c = a.override (b.override c) := by
  ext : 1
  · exact max_assoc ..
  · funext i
    exact Biased.override_assoc ..
  · funext i
    exact Biased.override_assoc ..
  · exact (Option.or_assoc ..).symm

/-! ### Canonical lists -/

/-- The lists of a level contain neither `NoSymbol` nor `NoAction()`. -/
structure LevelInfo.Canonical (level : LevelInfo) : Prop where
  syms_ne : ∀ sym ∈ level.syms, sym ≠ 0
  actions_ne : ∀ act ∈ level.actions, act.type ≠ .none

/-- The levels of a group are canonical. -/
def GroupInfo.Canonical (groupi : GroupInfo) : Prop := ∀ level ∈ groupi.levels, level.Canonical

theorem LevelInfo.canonical_empty : LevelInfo.Canonical {} := ⟨by simp, by simp⟩

theorem GroupInfo.Canonical.level {groupi : GroupInfo} (h : groupi.Canonical) (i : ℕ) :
    (groupi.level i).Canonical := by
  rw [GroupInfo.level, getD_eq_getElem?_getD]
  cases hi : groupi.levels[i]? with
  | none => exact LevelInfo.canonical_empty
  | some level => exact h level (mem_of_getElem? hi)

theorem LevelInfo.eq_empty_of_isEmpty {level : LevelInfo} (h : level.isEmpty = true) :
    level = {} := by
  rw [LevelInfo.isEmpty, Bool.and_eq_true, List.isEmpty_iff, List.isEmpty_iff] at h
  obtain ⟨syms, actions⟩ := level
  obtain ⟨rfl, rfl⟩ := h
  rfl

/-! ### One level -/

section Lists

variable {α β : Type} {same : List α → List α → Bool} {isDefined : α → Bool} {f : α → β}
  {into incoming : List α}

/-- What is kept is one of the two lists. -/
theorem mergeList_fst :
    (mergeList same isDefined clobber into incoming).1 =
      bif (mergeList same isDefined clobber into incoming).2 then incoming else into := by
  unfold mergeList
  split_ifs <;> rfl

/-- **Merging two lists** prefers one of them, up to what `same` compares. -/
theorem map_mergeList (hsame : ∀ a b, same a b = true → a.map f = b.map f)
    (hinto : ∀ x ∈ into, isDefined x = true) (hincoming : ∀ x ∈ incoming, isDefined x = true) :
    (mergeList same isDefined clobber into incoming).1.map f =
      (prefer clobber into incoming).map f := by
  unfold mergeList
  split_ifs with h hclobber hdefined hdefined
  · rw [Bool.or_eq_true, List.isEmpty_iff] at h
    rcases h with h | rfl
    · rw [map_prefer, ← hsame _ _ h, prefer_self]
    · rw [prefer_nil]
  · rw [hclobber, prefer, if_pos rfl, override_of_ne_nil]
    rintro rfl
    simp at h
  · rw [Bool.or_eq_true, not_or, all_eq_true] at hdefined
    exact absurd hincoming hdefined.2
  · rw [prefer, if_neg hclobber, override_of_ne_nil]
    rintro rfl
    simp at hdefined
  · cases into with
    | nil => rw [nil_prefer]
    | cons x into => simp [hinto x] at hdefined

end Lists

section Levels

variable {a b : LevelInfo}

@[simp]
theorem mergeLevel_empty (a : LevelInfo) : (mergeLevel clobber a {}).level = a := rfl

@[simp]
theorem empty_mergeLevel (b : LevelInfo) : (mergeLevel clobber {} b).level = b := by
  unfold mergeLevel
  split_ifs with hincoming hinto
  · exact (LevelInfo.eq_empty_of_isEmpty hincoming).symm
  · rfl
  · exact absurd rfl hinto

/-- **How a field of the levels is merged**: a flag tells whether it is taken from the new level. -/
structure MergesField {β : Type} (clobber : Bool) (field : LevelInfo → List β)
    (flag : MergedLevel → Bool) : Prop where
  empty : field {} = []
  level : ∀ x y, field (mergeLevel clobber x y).level =
    bif flag (mergeLevel clobber x y) then field y else field x
  kept : ∀ x y, x ≠ {} → field y = [] → flag (mergeLevel clobber x y) = false

theorem mergesField_syms : MergesField clobber LevelInfo.syms MergedLevel.fromKeysyms := by
  refine ⟨rfl, fun x y => ?_, fun x y hx hy => ?_⟩ <;> unfold mergeLevel
  · split_ifs <;> first | rfl | exact mergeList_fst ..
  · rw [if_neg (mt LevelInfo.eq_empty_of_isEmpty hx)]
    split_ifs <;> simp [hy, mergeList]

theorem mergesField_actions : MergesField clobber LevelInfo.actions MergedLevel.fromActions := by
  refine ⟨rfl, fun x y => ?_, fun x y hx hy => ?_⟩ <;> unfold mergeLevel
  · split_ifs <;> first | rfl | exact mergeList_fst ..
  · rw [if_neg (mt LevelInfo.eq_empty_of_isEmpty hx)]
    split_ifs <;> simp [hy, mergeList]

theorem syms_mergeLevel (ha : a.Canonical) (hb : b.Canonical) :
    (mergeLevel clobber a b).level.syms = prefer clobber a.syms b.syms := by
  have hdefined {level : LevelInfo} (h : level.Canonical) :
      ∀ sym ∈ level.syms, (sym != 0) = true := by simpa using h.syms_ne
  unfold mergeLevel
  split_ifs with hincoming hinto
  · rw [LevelInfo.eq_empty_of_isEmpty hincoming, prefer_nil]
  · rw [LevelInfo.eq_empty_of_isEmpty hinto, nil_prefer]
  · simpa using map_mergeList (f := id) (by simp) (hdefined ha) (hdefined hb)

theorem actions_mergeLevel (ha : a.Canonical) (hb : b.Canonical) :
    (mergeLevel clobber a b).level.actions.map normalAction =
      prefer clobber (a.actions.map normalAction) (b.actions.map normalAction) := by
  have hdefined {level : LevelInfo} (h : level.Canonical) :
      ∀ act ∈ level.actions, (act.type != .none) = true := by simpa using h.actions_ne
  rw [← map_prefer]
  unfold mergeLevel
  split_ifs with hincoming hinto
  · rw [LevelInfo.eq_empty_of_isEmpty hincoming, prefer_nil]
  · rw [LevelInfo.eq_empty_of_isEmpty hinto, nil_prefer]
  · exact map_mergeList (fun _ _ => xkbLevelsSameActions_iff.mp) (hdefined ha) (hdefined hb)

theorem canonical_mergeLevel (ha : a.Canonical) (hb : b.Canonical) :
    (mergeLevel clobber a b).level.Canonical := by
  constructor
  · rw [mergesField_syms.level]
    cases (mergeLevel clobber a b).fromKeysyms
    · exact ha.syms_ne
    · exact hb.syms_ne
  · rw [mergesField_actions.level]
    cases (mergeLevel clobber a b).fromActions
    · exact ha.actions_ne
    · exact hb.actions_ne

end Levels

/-! ### Whole groups -/

section Groups

variable {a b c : GroupInfo}

/-- The levels of a merged group, shortcuts included. -/
theorem levels_mergeGroups :
    (mergeGroups clobber a b).levels =
      zipLong (fun x y => (mergeLevel clobber x y).level) a.levels b.levels := by
  unfold mergeGroups
  dsimp only
  split_ifs with hincoming hinto
  · rw [List.isEmpty_iff.mp hincoming, zipLong_nil_right]
  · rw [List.isEmpty_iff.mp hinto, zipLong_nil_left]
  · rfl

theorem type_mergeGroups :
    (mergeGroups clobber a b).type = mergeGroupType clobber a.type b.type := by
  unfold mergeGroups
  dsimp only
  split_ifs <;> rfl

theorem level_mergeGroups (i : ℕ) :
    (mergeGroups clobber a b).level i = (mergeLevel clobber (a.level i) (b.level i)).level := by
  rw [GroupInfo.level, levels_mergeGroups]
  exact getD_zipLong empty_mergeLevel mergeLevel_empty _ _

theorem canonical_mergeGroups (ha : a.Canonical) (hb : b.Canonical) :
    (mergeGroups clobber a b).Canonical := by
  intro level hlevel
  rw [levels_mergeGroups] at hlevel
  exact forall_mem_zipLong (fun _ _ hx hy => canonical_mergeLevel hx hy) ha hb level hlevel

theorem mergeGroupType_eq (clobber : Bool) (a b : Option Atom) :
    mergeGroupType clobber a b = if clobber then b.or a else a.or b := by
  cases a <;> cases b <;> cases clobber <;> rfl

/-- **Merging is biased pointwise merging**, with a preference that depends on the mode. -/
theorem view_mergeGroups (clobber : Bool) (ha : a.Canonical) (hb : b.Canonical) :
    (mergeGroups clobber a b).view =
      if clobber then a.view.override b.view else b.view.override a.view := by
  have hlength : (mergeGroups clobber a b).view.numLevels =
      max a.levels.length b.levels.length := by
    rw [GroupInfo.view, levels_mergeGroups, length_zipLong]
  have hsyms i : (mergeGroups clobber a b).view.syms i =
      prefer clobber (a.view.syms i) (b.view.syms i) := by
    simp only [GroupInfo.view, level_mergeGroups, syms_mergeLevel (ha.level i) (hb.level i)]
  have hactions i : (mergeGroups clobber a b).view.actions i =
      prefer clobber (a.view.actions i) (b.view.actions i) := by
    simp only [GroupInfo.view, level_mergeGroups, actions_mergeLevel (ha.level i) (hb.level i)]
  have htype := type_mergeGroups.trans (mergeGroupType_eq clobber a.type b.type)
  cases clobber with
  | false =>
    ext : 1
    · exact hlength.trans (max_comm ..)
    · exact funext hsyms
    · exact funext hactions
    · exact htype
  | true =>
    ext : 1
    · exact hlength
    · exact funext hsyms
    · exact funext hactions
    · exact htype

/-- **The two modes of `MergeGroups`**: overriding gives the values of the new group and otherwise
those of the old one, augmenting the other way around, so that augmenting `a` with `b` is
overriding `b` with `a`; and overriding is associative. -/
theorem mergeGroups_biased (a b c : GroupInfo) (ha : a.Canonical) (hb : b.Canonical)
    (hc : c.Canonical) :
    (mergeGroups true a b).view = a.view.override b.view ∧
      (mergeGroups false a b).view = b.view.override a.view ∧
      (mergeGroups false a b).view = (mergeGroups true b a).view ∧
      (mergeGroups true (mergeGroups true a b) c).view =
        (mergeGroups true a (mergeGroups true b c)).view := by
  have hoverride {a b : GroupInfo} (ha : a.Canonical) (hb : b.Canonical) :
      (mergeGroups true a b).view = a.view.override b.view := view_mergeGroups true ha hb
  have haugment : (mergeGroups false a b).view = b.view.override a.view :=
    view_mergeGroups false ha hb
  refine ⟨hoverride ha hb, haugment, haugment.trans (hoverride hb ha).symm, ?_⟩
  rw [hoverride (canonical_mergeGroups ha hb) hc, hoverride ha hb,
    hoverride ha (canonical_mergeGroups hb hc), hoverride hb hc,
    GroupView.override_assoc]

/-- `[a]`, `[b, B]` and `[NoSymbol, SetMods()]`, with types for the first two. -/
theorem mergeGroups_biased_letters :
    (mergeGroups true (mergeGroups true ⟨[⟨[0x61], []⟩], true, false, true, some (ascii "A")⟩
        ⟨[⟨[0x62], []⟩, ⟨[0x42], []⟩], true, false, true, some (ascii "B")⟩)
        ⟨[⟨[], []⟩, ⟨[], [{ type := .modSet }]⟩], false, true, false, none⟩).view =
      (mergeGroups true ⟨[⟨[0x61], []⟩], true, false, true, some (ascii "A")⟩
        (mergeGroups true ⟨[⟨[0x62], []⟩, ⟨[0x42], []⟩], true, false, true, some (ascii "B")⟩
          ⟨[⟨[], []⟩, ⟨[], [{ type := .modSet }]⟩], false, true, false, none⟩)).view := by
  refine (mergeGroups_biased _ _ _ ?_ ?_ ?_).2.2.2 <;> intro level hlevel <;>
    simp only [mem_cons, not_mem_nil, or_false] at hlevel
  · subst hlevel
    exact ⟨by decide, by decide⟩
  · rcases hlevel with rfl | rfl <;> exact ⟨by decide, by decide⟩
  · rcases hlevel with rfl | rfl <;> exact ⟨by decide, by decide⟩

end Groups

end Xkbcommon.Xkbcomp
