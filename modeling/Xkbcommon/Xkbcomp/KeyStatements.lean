import Xkbcommon.Xkbcomp.KeyLevels

/-!
# Statements of keys

The fields of a key statement are read one after the other
(`Xkbcommon.Xkbcomp.handleSymbolsBody`), from a copy of the default key. The groups stay well
formed all the way: through every field that is accepted
(`Xkbcommon.Xkbcomp.wellFormed_setSymbolsField`), through merging
(`Xkbcommon.Xkbcomp.wellFormed_mergeKeys`), and in the default key through every default statement
(`Xkbcommon.Xkbcomp.wellFormed_handleGlobalVar`).

The main result is about the fields `symbols[n]` and `actions[n]` of one group: their order does
not matter, as long as no keysyms are dropped with the last entry of the actions
(`Xkbcommon.Xkbcomp.DropsKeysyms`).
-/

namespace Xkbcommon.Xkbcomp

open Biased Trailing List GroupInfo

variable {keyi key : KeyInfo} {info : KeymapInfo} {syms : SymbolsInfo} {e : ExprDef}

/-! ### Well-formed keys -/

section WellFormed

variable {field : List UInt8} {arrayNdx : Option ExprDef} {value : ExprDef}
  {groups groups' : List GroupInfo} {ndx : ℕ}

theorem wellFormed_empty : GroupInfo.WellFormed {} :=
  ⟨trimmed_nil, fun _ _ => rfl, fun _ _ => rfl, fun h => (by cases h)⟩

/-- The groups of a key are well formed. -/
def KeyInfo.WellFormed (keyi : KeyInfo) : Prop := ∀ groupi ∈ keyi.groups, groupi.WellFormed

theorem KeyInfo.WellFormed.getD (h : keyi.WellFormed) (k : ℕ) :
    (keyi.groups.getD k {}).WellFormed := by
  rw [getD_eq_getElem?_getD]
  cases hk : keyi.groups[k]? with
  | none => exact wellFormed_empty
  | some groupi => exact h groupi (mem_of_getElem? hk)

theorem wellFormed_growFor (h : ∀ groupi ∈ groups, groupi.WellFormed) :
    ∀ groupi ∈ growFor {} groups ndx, groupi.WellFormed := by
  intro groupi hmem
  unfold growFor at hmem
  split_ifs at hmem
  · rcases mem_darrayResize0 hmem with hmem | rfl
    · exact h groupi hmem
    · exact wellFormed_empty
  · exact h groupi hmem

theorem wellFormed_explicitGroupIndex (h : ∀ groupi ∈ groups, groupi.WellFormed)
    (hndx : explicitGroupIndex info groups e = .ok (ndx, groups')) :
    ∀ groupi ∈ groups', groupi.WellFormed := by
  obtain ⟨group, -, hndx⟩ := Outcome.bind_eq_ok hndx
  obtain ⟨-, rfl⟩ := Prod.mk.inj (Except.ok.inj hndx)
  exact wellFormed_growFor h

theorem wellFormed_getGroupIndex {groupField : GroupField}
    (h : ∀ groupi ∈ groups, groupi.WellFormed)
    (hndx : getGroupIndex info groups groupField arrayNdx = .ok (ndx, groups')) :
    ∀ groupi ∈ groups', groupi.WellFormed := by
  cases arrayNdx with
  | some e => exact wellFormed_explicitGroupIndex h hndx
  | none =>
    rw [getGroupIndex] at hndx
    split at hndx
    · obtain ⟨-, rfl⟩ := Prod.mk.inj (Except.ok.inj hndx)
      exact h
    · split_ifs at hndx
      obtain ⟨-, rfl⟩ := Prod.mk.inj (Except.ok.inj hndx)
      rw [forall_mem_append, forall_mem_singleton]
      exact ⟨h, wellFormed_empty⟩

theorem wellFormed_set {groupi : GroupInfo} (h : ∀ groupi ∈ groups, groupi.WellFormed)
    (hgroupi : groupi.WellFormed) : ∀ g ∈ groups.set ndx groupi, g.WellFormed := by
  intro g hg
  rcases mem_or_eq_of_mem_set hg with hg | rfl
  · exact h g hg
  · exact hgroupi

theorem wellFormed_addSymbolsToKey (h : keyi.WellFormed)
    (haccepted : (addSymbolsToKey info keyi arrayNdx value).1 = .accepted) :
    (addSymbolsToKey info keyi arrayNdx value).2.WellFormed := by
  unfold addSymbolsToKey at haccepted ⊢
  split at haccepted
  · exact h
  · rename_i groups hndx
    have hgroups := wellFormed_getGroupIndex h hndx
    split at haccepted
    · exact hgroups
    · rename_i groupi hgroupi
      refine wellFormed_set hgroups (wellFormed_addSymbolsToGroup ?_ haccepted)
      exact hgroups groupi (mem_of_getElem? hgroupi)

theorem wellFormed_addActionsToKey (h : keyi.WellFormed)
    (haccepted : (addActionsToKey info syms keyi arrayNdx value).status = .accepted) :
    (addActionsToKey info syms keyi arrayNdx value).key.WellFormed := by
  unfold addActionsToKey at haccepted ⊢
  split at haccepted
  · exact h
  · rename_i groups hndx
    have hgroups := wellFormed_getGroupIndex h hndx
    split at haccepted
    · exact hgroups
    · rename_i groupi hgroupi
      refine wellFormed_set hgroups (wellFormed_addActionsToGroup ?_ haccepted)
      exact hgroups groupi (mem_of_getElem? hgroupi)

theorem wellFormed_setTypeField (h : keyi.WellFormed) :
    (setTypeField info keyi arrayNdx value).2.WellFormed := by
  unfold setTypeField
  split
  · exact h
  · split
    · exact h
    · split
      · exact h
      · rename_i groups hndx
        have hgroups := wellFormed_explicitGroupIndex h hndx
        split
        · exact hgroups
        · rename_i groupi hgroupi
          have hwf := hgroups groupi (mem_of_getElem? hgroupi)
          exact wellFormed_set hgroups ⟨hwf.trimmed, hwf.syms_eq_nil, hwf.actions_eq_nil,
            fun _ => rfl⟩

/-- `enum key_field`, and the fields of the groups. -/
inductive KeyField
  | keyRepeat | defaultType | groupInfo | vmodmap | overlay
  | group (k : ℕ) (field : GroupField)
  deriving DecidableEq, Repr

/-- The group of an index, the first one if there is no index. -/
def groupOfIndex (info : KeymapInfo) : Option ExprDef → Option ℕ
  | none => some 0
  | some e =>
    (exprResolveGroup info.maxGroups info.groupNames false false e).toOption.map decrement

/-- The field that a default statement sets. -/
def keyField (info : KeymapInfo) (field : List UInt8) (arrayNdx : Option ExprDef) :
    Option KeyField :=
  match keyFieldName field with
  | .type =>
    if arrayNdx.isNone then some .defaultType
    else (groupOfIndex info arrayNdx).map (.group · .type)
  | .symbols => (groupOfIndex info arrayNdx).map (.group · .syms)
  | .actions => (groupOfIndex info arrayNdx).map (.group · .acts)
  | .vmods => some .vmodmap
  | .overlay => some .overlay
  | .repeating => some .keyRepeat
  | .groupswrap | .groupsclamp | .groupsredirect => some .groupInfo
  | .ignored | .unknown => none

/-- What the fields other than those of the groups make of a key. -/
inductive KeySet (keyi : KeyInfo) : Option KeyField → KeyInfo → Prop
  | keyRepeat (keyRepeat : KeyRepeat) :
      KeySet keyi (some .keyRepeat) { keyi with keyRepeat, definedRepeat := true }
  | groupInfo (policy : LayoutOutOfRangePolicy) (number : BitVec 32) (isPending : Bool) :
      KeySet keyi (some .groupInfo)
        { keyi with
          outOfRangeGroupPolicy := policy
          outOfRangeGroupNumber := number
          outOfRangePendingGroup := isPending
          definedGroupInfo := true }
  | vmodmap (vmodmap : BitVec 32) :
      KeySet keyi (some .vmodmap) { keyi with vmodmap, definedVmodmap := true }
  | overlay (overlays : OverlayInfo) : KeySet keyi (some .overlay) { keyi with overlays }
  | same (changed : Option KeyField) : KeySet keyi changed keyi

theorem KeySet.groups_eq {changed : Option KeyField} {keyi' : KeyInfo}
    (h : KeySet keyi changed keyi') :
    keyi'.groups = keyi.groups := by
  cases h <;> rfl

theorem keySet_setSymbolsField (hsymbols : keyFieldName field ≠ .symbols)
    (hactions : keyFieldName field ≠ .actions) (htype : keyFieldName field ≠ .type) :
    KeySet keyi (keyField info field arrayNdx)
      (setSymbolsField info syms keyi field arrayNdx value).key := by
  unfold setSymbolsField keyField
  cases hfield : keyFieldName field with
  | type => exact absurd hfield htype
  | symbols => exact absurd hfield hsymbols
  | actions => exact absurd hfield hactions
  | vmods | overlay | repeating | groupswrap | groupsclamp | groupsredirect =>
    dsimp only [setOverlayField, setRepeatField, setPolicyField, setRedirectField]
    repeat' split
    all_goals constructor
  | ignored | unknown => exact .same _

/-- **A field that is accepted keeps the groups well formed.** -/
theorem wellFormed_setSymbolsField (h : keyi.WellFormed)
    (haccepted : (setSymbolsField info syms keyi field arrayNdx value).status = .accepted) :
    (setSymbolsField info syms keyi field arrayNdx value).key.WellFormed := by
  by_cases hsymbols : keyFieldName field = .symbols
  · simp only [setSymbolsField, hsymbols] at haccepted ⊢
    exact wellFormed_addSymbolsToKey h haccepted
  by_cases hactions : keyFieldName field = .actions
  · simp only [setSymbolsField, hactions] at haccepted ⊢
    exact wellFormed_addActionsToKey h haccepted
  by_cases htype : keyFieldName field = .type
  · simp only [setSymbolsField, htype] at haccepted ⊢
    exact wellFormed_setTypeField h
  have hset : KeySet keyi _ (setSymbolsField info syms keyi field arrayNdx value).key :=
    keySet_setSymbolsField hsymbols hactions htype
  rw [KeyInfo.WellFormed, hset.groups_eq]
  exact h

/-- **Merging keeps the groups well formed.** -/
theorem wellFormed_mergeKeys {into incoming : KeyInfo} (hinto : into.WellFormed)
    (hincoming : incoming.WellFormed) (h : mergeKeys info into incoming = some key) :
    key.WellFormed := by
  unfold mergeKeys at h
  split_ifs at h
  · cases h
    exact hincoming
  · obtain ⟨overlays, -, rfl⟩ := Option.map_eq_some_iff.mp h
    exact forall_mem_zipLong (fun _ _ ha hb => wellFormed_mergeGroups ha hb) hinto hincoming

/-- **The default key stays well formed**, whatever the default statement. -/
theorem wellFormed_handleGlobalVar {stmt : VarDef} (h : syms.defaultKey.WellFormed) :
    (handleGlobalVar info syms stmt).2.defaultKey.WellFormed := by
  have htemp (temp : KeyInfo) (htemp : temp.groups = []) : temp.WellFormed := by
    rintro groupi hmem
    rw [htemp] at hmem
    cases hmem
  unfold handleGlobalVar
  split
  · exact h
  · split
    · split_ifs
      · dsimp only
        split
        · rename_i haccepted
          split
          · rename_i key hkey
            exact wellFormed_mergeKeys h (wellFormed_setSymbolsField (htemp _ rfl) haccepted) hkey
          · exact h
        · exact h
      · dsimp only
        split <;> exact h
    · dsimp only
      split_ifs <;> exact h

end WellFormed

/-! ### Keysyms and actions of one group -/

section Group

variable {defaults : ActionsInfo} {mods : XkbModSet} {pending : List PendingComputation}
  {groupi groupi' : GroupInfo} {symsValue actsValue : ExprDef} {actions : List (List XkbAction)}
  {i : ℕ}

/-- **Keysyms are dropped with the last action**: there are keysyms past the last entry of the
actions, and the level of this entry has neither keysyms nor an effective action. -/
def DropsKeysyms (entries : List (List Keysym)) (actions : List (List XkbAction)) : Prop :=
  actions ≠ [] ∧ entries.getD (actions.length - 1) [] = [] ∧
    actions.getD (actions.length - 1) [] = [] ∧
    ∃ i, actions.length ≤ i ∧ entries.getD i [] ≠ []

/-- The field `symbols` changes the levels and its flag only. -/
theorem addSymbolsToGroup_frame {value : ExprDef} :
    ∃ levels definedSyms, (addSymbolsToGroup groupi value).2 =
      { groupi with levels, definedSyms } := by
  unfold addSymbolsToGroup
  split
  · exact ⟨_, _, rfl⟩
  · split_ifs
    · exact ⟨_, _, rfl⟩
    · exact ⟨_, _, rfl⟩
  · exact ⟨_, _, rfl⟩

theorem addActionsToGroup_frame {value : ExprDef} :
    ∃ levels definedActs, (addActionsToGroup info defaults mods pending groupi value).group =
      { groupi with levels, definedActs } := by
  unfold addActionsToGroup
  split
  · exact ⟨_, _, rfl⟩
  · split_ifs
    · exact ⟨_, _, rfl⟩
    · exact ⟨_, _, rfl⟩
  · exact ⟨_, _, rfl⟩

/-- Whether keysyms are accepted depends on the flag of the group only. -/
theorem addSymbolsToGroup_accepted (hflag : groupi.definedSyms = groupi'.definedSyms)
    (h : (addSymbolsToGroup groupi symsValue).1 = .accepted) :
    (addSymbolsToGroup groupi' symsValue).1 = .accepted := by
  unfold addSymbolsToGroup at h ⊢
  split at h
  · rfl
  · rw [← hflag]
    split_ifs at h ⊢
    exact (fillSyms_accepted_iff (le_length_growLevels ..)).mpr
      ((fillSyms_accepted_iff (le_length_growLevels ..)).mp h)
  · cases h

theorem addActionsToGroup_accepted (hflag : groupi.definedActs = groupi'.definedActs)
    (h : (addActionsToGroup info defaults mods pending groupi actsValue).status = .accepted) :
    (addActionsToGroup info defaults mods pending groupi' actsValue).status = .accepted := by
  obtain ⟨hvalue, entries, pending', hparse⟩ := parse_of_addActionsToGroup h
  rw [hflag] at hvalue
  rw [addActionsToGroup_eq hvalue hparse]

/-- The levels with keysyms, in a group that had none. -/
theorem level_addSymbolsToGroup (hnil : groupi.levels = [])
    (h : (addSymbolsToGroup groupi symsValue).1 = .accepted) (hwf : groupi.WellFormed) (i : ℕ) :
    (addSymbolsToGroup groupi symsValue).2.level i = ⟨(symEntries symsValue).getD i [], []⟩ := by
  have hlevel i : groupi.level i = {} := by
    rw [level, hnil]
    rfl
  obtain ⟨levels, heq, -, hlevels⟩ := addSymbolsToGroup_eq hwf (fun i => by rw [hlevel]) h
  rw [heq, level, hlevels, hlevel]
  rfl

/-- The two conditions agree, once the keysyms are in the group. -/
theorem dropsLevels_iff (hwf : groupi.WellFormed) {entries : List (List Keysym)}
    (hlevel : ∀ i, groupi.level i = ⟨entries.getD i [], []⟩) :
    DropsLevels groupi actions ↔ DropsKeysyms entries actions := by
  have hlength : actions.length < groupi.levels.length ↔
      ∃ i, actions.length ≤ i ∧ entries.getD i [] ≠ [] := by
    constructor
    · intro hlt
      have hlast := hwf.last_ne (ne_nil_of_length_pos (by omega))
      refine ⟨groupi.levels.length - 1, by omega, fun hempty => hlast ?_⟩
      rw [hlevel, hempty]
    · rintro ⟨i, hi, hne⟩
      refine lt_of_le_of_lt hi (lt_length_of_level ?_)
      rw [hlevel]
      exact fun hempty => hne (LevelInfo.mk.inj hempty).1
  rw [DropsLevels, DropsKeysyms, hlength, hlevel, setActions, LevelInfo.mk.injEq]
  tauto

/-- The field `actions` keeps the keysyms of a level, or drops the level. -/
theorem syms_addActionsToGroup (hwf : groupi.WellFormed)
    (h : (addActionsToGroup info defaults mods pending groupi actsValue).status = .accepted) :
    ((addActionsToGroup info defaults mods pending groupi actsValue).group.level i).syms =
        (groupi.level i).syms ∨
      (addActionsToGroup info defaults mods pending groupi actsValue).group.level i = {} := by
  obtain ⟨hvalue, entries, pending', hparse⟩ := parse_of_addActionsToGroup h
  rcases hvalue with rfl | ⟨hacts, hlist⟩
  · exact .inl rfl
  · rw [addActionsToGroup_eq (.inr ⟨hacts, hlist⟩) hparse, level]
    refine getD_trimLevels_or.imp_left fun h => ?_
    rw [h, getD_filledLevels fun _ => hwf.actions_eq_nil hacts i]
    rfl

/-- The field `symbols` keeps the actions of a level. -/
theorem actions_addSymbolsToGroup (hwf : groupi.WellFormed)
    (h : (addSymbolsToGroup groupi symsValue).1 = .accepted) :
    ((addSymbolsToGroup groupi symsValue).2.level i).actions = (groupi.level i).actions := by
  cases hflag : groupi.definedSyms with
  | true =>
    obtain rfl := addSymbolsToGroup_of_defined hflag h
    rfl
  | false =>
    obtain ⟨levels, heq, -, hlevels⟩ := addSymbolsToGroup_eq hwf (hwf.syms_eq_nil hflag) h
    rw [heq, level, hlevels]
    rfl

section Orders

variable {pending' : List PendingComputation} (hwf : groupi.WellFormed) (hnil : groupi.levels = [])
  (hsyms : (addSymbolsToGroup groupi symsValue).1 = .accepted)
  (hacts : (addActionsToGroup info defaults mods pending groupi actsValue).status = .accepted)
  (hparse : parseEntries info defaults mods (actEntries actsValue) pending =
    (.ok actions, pending'))
include hwf hnil hsyms hacts hparse

omit hwf hnil hsyms in
/-- The group, symbols first. -/
theorem addActionsToGroup_addSymbolsToGroup (symsValue : ExprDef) :
    addActionsToGroup info defaults mods pending (addSymbolsToGroup groupi symsValue).2 actsValue =
      ⟨.accepted,
        { (addSymbolsToGroup groupi symsValue).2 with
          levels := trimLevels (filledLevels (addSymbolsToGroup groupi symsValue).2 actions)
            actions.length
          definedActs := true }, pending'⟩ := by
  obtain ⟨levels, definedSyms, heq⟩ := addSymbolsToGroup_frame
  refine addActionsToGroup_eq ?_ hparse
  rw [heq]
  exact (parse_of_addActionsToGroup hacts).1

/-- The levels of the group, symbols first. -/
theorem level_actions_after_symbols (hdrops : ¬DropsKeysyms (symEntries symsValue) actions)
    (i : ℕ) :
    (addActionsToGroup info defaults mods pending (addSymbolsToGroup groupi symsValue).2
      actsValue).group.level i = ⟨(symEntries symsValue).getD i [], actions.getD i []⟩ := by
  have hlevel := level_addSymbolsToGroup hnil hsyms hwf
  rw [addActionsToGroup_addSymbolsToGroup hacts hparse, level, getD_trimLevels, hlevel]
  · rfl
  · exact fun i => by rw [hlevel]
  · rwa [dropsLevels_iff (wellFormed_addSymbolsToGroup hwf hsyms) hlevel]

/-- The levels of the group, actions first. -/
theorem level_symbols_after_actions :
    (addSymbolsToGroup (addActionsToGroup info defaults mods pending groupi actsValue).group
      symsValue).2.level i = ⟨(symEntries symsValue).getD i [], actions.getD i []⟩ := by
  have hvalue := (parse_of_addActionsToGroup hacts).1
  have hempty i : groupi.level i = {} := by
    rw [level, hnil]
    rfl
  have hlevel i : (addActionsToGroup info defaults mods pending groupi actsValue).group.level i =
      ⟨[], actions.getD i []⟩ := by
    rw [addActionsToGroup_eq hvalue hparse, level, getD_trimLevels, hempty]
    · rfl
    · exact fun i => by rw [hempty]
    · rintro ⟨-, hlt, -⟩
      rw [hnil] at hlt
      cases hlt
  obtain ⟨_, definedActs, heq⟩ := addActionsToGroup_frame
  obtain ⟨levels, heq', -, hlevels⟩ :=
    addSymbolsToGroup_eq (wellFormed_addActionsToGroup hwf hacts) (fun i => by rw [hlevel])
      (addSymbolsToGroup_accepted (by rw [heq]) hsyms)
  rw [heq', level, hlevels, hlevel]
  rfl

/-- **The two orders give the same group.** -/
theorem actions_symbols_comm (hdrops : ¬DropsKeysyms (symEntries symsValue) actions) :
    (addActionsToGroup info defaults mods pending (addSymbolsToGroup groupi symsValue).2
        actsValue).group =
      (addSymbolsToGroup (addActionsToGroup info defaults mods pending groupi actsValue).group
        symsValue).2 := by
  have hvalue := (parse_of_addActionsToGroup hacts).1
  have hempty i : (groupi.level i).syms = [] := by
    rw [level, hnil]
    rfl
  obtain ⟨levels, hsymbols, -⟩ := addSymbolsToGroup_eq hwf hempty hsyms
  have hactions := addActionsToGroup_eq hvalue hparse
  have hsymbols' : (addSymbolsToGroup groupi symsValue).2.definedActs = groupi.definedActs := by
    rw [hsymbols]
  have hactions' : groupi.definedSyms =
      (addActionsToGroup info defaults mods pending groupi actsValue).group.definedSyms := by
    rw [hactions]
  have hacts' := addActionsToGroup_accepted hsymbols'.symm hacts
  have hsyms' := addSymbolsToGroup_accepted hactions' hsyms
  have hwf₁ := wellFormed_addActionsToGroup (wellFormed_addSymbolsToGroup hwf hsyms) hacts'
  have hwf₂ := wellFormed_addSymbolsToGroup (wellFormed_addActionsToGroup hwf hacts) hsyms'
  have hlevels := Trimmed.ext rfl hwf₁.trimmed hwf₂.trimmed fun i =>
    (level_actions_after_symbols hwf hnil hsyms hacts hparse hdrops i).trans
      (level_symbols_after_actions hwf hnil hsyms hacts hparse).symm
  obtain ⟨levels', hsymbols₂, -⟩ := addSymbolsToGroup_eq (wellFormed_addActionsToGroup hwf hacts)
    (fun i => ((syms_addActionsToGroup hwf hacts).elim (fun h => h.trans (hempty i))
      fun h => by rw [h])) hsyms'
  rw [hsymbols₂] at hlevels ⊢
  rw [← hsymbols'] at hvalue
  have hactions₁ := addActionsToGroup_eq hvalue hparse
  rw [hactions₁] at hlevels ⊢
  rw [hactions, hsymbols]
  rw [hsymbols] at hlevels
  dsimp only at hlevels ⊢
  rw [hlevels]

/-- The keysyms past the last action are dropped. -/
theorem level_of_dropsKeysyms (hdrops : DropsKeysyms (symEntries symsValue) actions)
    (hi : actions.length ≤ i) :
    (addActionsToGroup info defaults mods pending (addSymbolsToGroup groupi symsValue).2
      actsValue).group.level i = {} := by
  have hlevel := level_addSymbolsToGroup hnil hsyms hwf
  rw [addActionsToGroup_addSymbolsToGroup hacts hparse, level, getD_trimLevels_of_drops _ _ hi]
  · exact fun i => by rw [hlevel]
  · rwa [dropsLevels_iff (wellFormed_addSymbolsToGroup hwf hsyms) hlevel]

end Orders

theorem pending_addActionsToGroup {pending' : List PendingComputation}
    (hacts : (addActionsToGroup info defaults mods pending groupi actsValue).status = .accepted)
    (hparse : parseEntries info defaults mods (actEntries actsValue) pending =
      (.ok actions, pending')) :
    (addActionsToGroup info defaults mods pending groupi actsValue).pending = pending' := by
  rw [addActionsToGroup_eq (parse_of_addActionsToGroup hacts).1 hparse]

/-- If the levels are those of the two lists and none is dropped, there were none before. -/
theorem levels_eq_nil_of_kept {pending' : List PendingComputation} (hwf : groupi.WellFormed)
    (hsyms : (addSymbolsToGroup groupi symsValue).1 = .accepted)
    (hacts : (addActionsToGroup info defaults mods pending (addSymbolsToGroup groupi symsValue).2
      actsValue).status = .accepted)
    (hparse : parseEntries info defaults mods (actEntries actsValue) pending =
      (.ok actions, pending'))
    (hlevels : ∀ i, (addActionsToGroup info defaults mods pending
      (addSymbolsToGroup groupi symsValue).2 actsValue).group.level i =
        ⟨(symEntries symsValue).getD i [], actions.getD i []⟩)
    (hkept : ∀ i, groupi.level i ≠ {} → (addActionsToGroup info defaults mods pending
      (addSymbolsToGroup groupi symsValue).2 actsValue).group.level i ≠ {}) :
    groupi.levels = [] := by
  have hnosyms i : (groupi.level i).syms = [] := by
    by_contra hne
    have hflag : groupi.definedSyms = true := by
      by_contra hflag
      exact hne (hwf.syms_eq_nil (Bool.eq_false_iff.mpr hflag) i)
    obtain rfl := addSymbolsToGroup_of_defined hflag hsyms
    rcases syms_addActionsToGroup (wellFormed_addSymbolsToGroup hwf hsyms) hacts with h | h
    · rw [hlevels i] at h
      exact hne h.symm
    · exact hkept i (fun hempty => hne (by rw [hempty])) h
  have hnoactions i : (groupi.level i).actions = [] := by
    by_contra hne
    have hflag : groupi.definedActs = true := by
      by_contra hflag
      exact hne (hwf.actions_eq_nil (Bool.eq_false_iff.mpr hflag) i)
    obtain ⟨_, _, heq⟩ := addSymbolsToGroup_frame
    obtain rfl := addActionsToGroup_of_defined (by rw [heq]; exact hflag) hacts
    cases hparse
    refine hne ?_
    rw [← actions_addSymbolsToGroup hwf hsyms]
    exact (LevelInfo.mk.inj (hlevels i)).2
  by_contra hne
  refine hwf.last_ne hne ?_
  rcases hlast : groupi.level (groupi.levels.length - 1) with ⟨syms, actions⟩
  congr 1
  · simpa only [hlast] using hnosyms (groupi.levels.length - 1)
  · simpa only [hlast] using hnoactions (groupi.levels.length - 1)

end Group

/-! ### Two fields of a statement -/

section Body

variable {k : ℕ} {stmt : VarDef} {body : List VarDef}

/-- The statement is `field[e] = …` for a field of the kind and the group `k`; a group counts from
1 in an index. -/
def FieldOfGroup (info : KeymapInfo) (kind : KeyFieldName) (k : ℕ) (stmt : VarDef) : Prop :=
  ∃ field e, stmt.name = some (.arrayRef none field e) ∧ keyFieldName field = kind ∧
    exprResolveGroup info.maxGroups info.groupNames false false e = .ok (k + 1)

theorem FieldOfGroup.lt {kind : KeyFieldName} (h : FieldOfGroup info kind k stmt) : k < 32 := by
  obtain ⟨_, _, -, -, hndx⟩ := h
  exact lt_of_exprResolveGroup hndx

theorem handleBodyField_arrayRef {field : Atom}
    (hname : stmt.name = some (.arrayRef none field e)) :
    handleBodyField info syms keyi stmt =
      setSymbolsField info syms keyi field (some e) stmt.value := by
  rw [handleBodyField, hname]
  rfl

theorem handleBodyField_symbols (h : FieldOfGroup info .symbols k stmt) :
    handleBodyField info syms keyi stmt =
      ⟨(addSymbolsToGroup (keyi.groups.getD k {}) stmt.value).1,
        { keyi with
          groups := (growFor {} keyi.groups k).set k
            (addSymbolsToGroup (keyi.groups.getD k {}) stmt.value).2 }, syms.pending⟩ := by
  obtain ⟨field, e, hname, hfield, hndx⟩ := h
  rw [handleBodyField_arrayRef hname, setSymbolsField, hfield]
  simp only [addSymbolsToKey_eq hndx]

theorem handleBodyField_actions (h : FieldOfGroup info .actions k stmt) :
    handleBodyField info syms keyi stmt =
      let st := addActionsToGroup info syms.defaultActions syms.mods syms.pending
        (keyi.groups.getD k {}) stmt.value
      ⟨st.status, { keyi with groups := (growFor {} keyi.groups k).set k st.group },
        st.pending⟩ := by
  obtain ⟨field, e, hname, hfield, hndx⟩ := h
  rw [handleBodyField_arrayRef hname, setSymbolsField, hfield]
  exact addActionsToKey_eq hndx

/-- A body is accepted if all its fields are. -/
theorem handleSymbolsBody_cons_accepted :
    (handleSymbolsBody info syms keyi (stmt :: body)).status = .accepted ↔
      (handleBodyField info syms keyi stmt).status = .accepted ∧
      (handleSymbolsBody info
        { syms with pending := (handleBodyField info syms keyi stmt).pending }
        (handleBodyField info syms keyi stmt).key body).status = .accepted := by
  rw [handleSymbolsBody]
  dsimp only
  split_ifs with h
  · simp [h]
  · exact Status.and_eq_accepted

theorem handleSymbolsBody_cons (h : (handleBodyField info syms keyi stmt).status = .accepted) :
    handleSymbolsBody info syms keyi (stmt :: body) =
      handleSymbolsBody info
        { syms with pending := (handleBodyField info syms keyi stmt).pending }
        (handleBodyField info syms keyi stmt).key body := by
  rw [handleSymbolsBody]
  simp only [h, reduceCtorEq, if_false]
  rfl

theorem handleSymbolsBody_singleton :
    handleSymbolsBody info syms keyi [stmt] = handleBodyField info syms keyi stmt := by
  rw [handleSymbolsBody]
  rcases handleBodyField info syms keyi stmt with ⟨_ | _ | _, key, pending⟩ <;> rfl

/-- Two fields of the same group. -/
theorem handleSymbolsBody_pair {stmt' : VarDef} {status status' : Status} {key' : KeyInfo}
    {pending pending' : List PendingComputation}
    (h : handleBodyField info syms keyi stmt = ⟨status, key, pending⟩)
    (h' : handleBodyField info { syms with pending } key stmt' = ⟨status', key', pending'⟩) :
    ((handleSymbolsBody info syms keyi [stmt, stmt']).status = .accepted ↔
      status = .accepted ∧ status' = .accepted) ∧
    (status = .accepted →
      handleSymbolsBody info syms keyi [stmt, stmt'] = ⟨status', key', pending'⟩) := by
  constructor
  · rw [handleSymbolsBody_cons_accepted, handleSymbolsBody_singleton, h, h']
  · intro hstatus
    rw [handleSymbolsBody_cons (by rw [h]; exact hstatus), handleSymbolsBody_singleton, h, h']

section Pair

variable {symsStmt actsStmt : VarDef} (hsymsStmt : FieldOfGroup info .symbols k symsStmt)
  (hactsStmt : FieldOfGroup info .actions k actsStmt)
include hsymsStmt hactsStmt

/-- The symbols first, in terms of the group. -/
theorem symbols_actions_body :
    let st := addActionsToGroup info syms.defaultActions syms.mods syms.pending
      (addSymbolsToGroup (keyi.groups.getD k {}) symsStmt.value).2 actsStmt.value
    ((handleSymbolsBody info syms keyi [symsStmt, actsStmt]).status = .accepted ↔
      (addSymbolsToGroup (keyi.groups.getD k {}) symsStmt.value).1 = .accepted ∧
        st.status = .accepted) ∧
    ((addSymbolsToGroup (keyi.groups.getD k {}) symsStmt.value).1 = .accepted →
      handleSymbolsBody info syms keyi [symsStmt, actsStmt] =
        ⟨st.status, { keyi with groups := (growFor {} keyi.groups k).set k st.group },
          st.pending⟩) := by
  have hk := hsymsStmt.lt
  refine handleSymbolsBody_pair (handleBodyField_symbols hsymsStmt) ?_
  rw [handleBodyField_actions hactsStmt]
  simp only [getD_set_growFor _ hk, growFor_set _ hk, set_set]

/-- The actions first, in terms of the group. -/
theorem actions_symbols_body :
    let st := addActionsToGroup info syms.defaultActions syms.mods syms.pending
      (keyi.groups.getD k {}) actsStmt.value
    ((handleSymbolsBody info syms keyi [actsStmt, symsStmt]).status = .accepted ↔
      st.status = .accepted ∧ (addSymbolsToGroup st.group symsStmt.value).1 = .accepted) ∧
    (st.status = .accepted → handleSymbolsBody info syms keyi [actsStmt, symsStmt] =
      ⟨(addSymbolsToGroup st.group symsStmt.value).1,
        { keyi with
          groups :=
            (growFor {} keyi.groups k).set k (addSymbolsToGroup st.group symsStmt.value).2 },
        st.pending⟩) := by
  have hk := hsymsStmt.lt
  refine handleSymbolsBody_pair (handleBodyField_actions hactsStmt) ?_
  rw [handleBodyField_symbols hsymsStmt]
  simp only [getD_set_growFor _ hk, growFor_set _ hk, set_set]

theorem symbols_actions_accepted_comm :
    (handleSymbolsBody info syms keyi [symsStmt, actsStmt]).status = .accepted ↔
      (handleSymbolsBody info syms keyi [actsStmt, symsStmt]).status = .accepted := by
  obtain ⟨_, _, hsyms⟩ := addSymbolsToGroup_frame
  obtain ⟨_, _, hacts⟩ := addActionsToGroup_frame
  rw [(symbols_actions_body hsymsStmt hactsStmt).1, (actions_symbols_body hsymsStmt hactsStmt).1]
  constructor
  · rintro ⟨h, h'⟩
    exact ⟨addActionsToGroup_accepted (by rw [hsyms]) h',
      addSymbolsToGroup_accepted (by rw [hacts]) h⟩
  · rintro ⟨h, h'⟩
    exact ⟨addSymbolsToGroup_accepted (by rw [hacts]) h',
      addActionsToGroup_accepted (by rw [hsyms]) h⟩

end Pair

/-- **Symbols and actions of a group commute**: both orders are accepted or none is, they leave the
same key, each level has its entry of the two lists, and no level that was there is dropped. This
is so exactly if the group starts without levels and no keysyms are dropped. -/
theorem symbols_actions_commute_iff (info : KeymapInfo) (syms : SymbolsInfo) (keyi : KeyInfo)
    (hkeyi : keyi.WellFormed) (k : ℕ) (symsStmt actsStmt : VarDef)
    (hsymsStmt : FieldOfGroup info .symbols k symsStmt)
    (hactsStmt : FieldOfGroup info .actions k actsStmt) :
    ((handleSymbolsBody info syms keyi [symsStmt, actsStmt]).status = .accepted ↔
      (handleSymbolsBody info syms keyi [actsStmt, symsStmt]).status = .accepted) ∧
    ((handleSymbolsBody info syms keyi [symsStmt, actsStmt]).status = .accepted →
      ∃ actions, (parseEntries info syms.defaultActions syms.mods (actEntries actsStmt.value)
        syms.pending).1 = .ok actions ∧
      ((handleSymbolsBody info syms keyi [symsStmt, actsStmt] =
          handleSymbolsBody info syms keyi [actsStmt, symsStmt] ∧
        ∀ i,
          ((handleSymbolsBody info syms keyi [symsStmt, actsStmt]).key.groups.getD k {}).level i =
            ⟨(symEntries symsStmt.value).getD i [], actions.getD i []⟩ ∧
          ((keyi.groups.getD k {}).level i ≠ {} →
            ((handleSymbolsBody info syms keyi [symsStmt, actsStmt]).key.groups.getD k {}).level i ≠
              {})) ↔
        (keyi.groups.getD k {}).levels = [] ∧
          ¬DropsKeysyms (symEntries symsStmt.value) actions)) := by
  have hk := hsymsStmt.lt
  have hcomm : (handleSymbolsBody info syms keyi [symsStmt, actsStmt]).status = .accepted ↔
      (handleSymbolsBody info syms keyi [actsStmt, symsStmt]).status = .accepted :=
    symbols_actions_accepted_comm hsymsStmt hactsStmt
  refine ⟨hcomm, fun h => ?_⟩
  obtain ⟨hsyms, hacts'⟩ := (symbols_actions_body hsymsStmt hactsStmt).1.mp h
  obtain ⟨hacts, hsyms'⟩ := (actions_symbols_body hsymsStmt hactsStmt).1.mp (hcomm.mp h)
  obtain ⟨-, actions, pending', hparse⟩ := parse_of_addActionsToGroup hacts
  have hwf := hkeyi.getD k
  refine ⟨actions, by rw [hparse], ?_⟩
  rw [(symbols_actions_body hsymsStmt hactsStmt).2 hsyms,
    (actions_symbols_body hsymsStmt hactsStmt).2 hacts, hacts', hsyms']
  simp only [getD_set_growFor _ hk]
  constructor
  · rintro ⟨-, hlevels⟩
    have hnil := levels_eq_nil_of_kept hwf hsyms hacts' hparse (fun i => (hlevels i).1)
      fun i => (hlevels i).2
    refine ⟨hnil, fun hdrops => ?_⟩
    obtain ⟨i, hi, hne⟩ := hdrops.2.2.2
    exact hne (LevelInfo.mk.inj ((hlevels i).1.symm.trans
      (level_of_dropsKeysyms hwf hnil hsyms hacts hparse hdrops hi))).1
  · rintro ⟨hnil, hdrops⟩
    have hlevels := level_actions_after_symbols hwf hnil hsyms hacts hparse hdrops
    refine ⟨?_, fun i => ⟨hlevels i, fun hne => ?_⟩⟩
    · rw [actions_symbols_comm hwf hnil hsyms hacts hparse hdrops,
        pending_addActionsToGroup hacts' hparse, pending_addActionsToGroup hacts hparse]
    · rw [level, hnil] at hne
      exact absurd rfl hne

/-- The field `symbols[1] = [a, NoSymbol, c]`. -/
def threeSymbols : VarDef :=
  ⟨.default, some (.arrayRef none (ascii "symbols") (.integer 1)),
    .keysymList [[0x61], [], [0x63]]⟩

/-- The field `actions[1] = […]` with actions without arguments. -/
def namedActions (names : List String) : VarDef :=
  ⟨.default, some (.arrayRef none (ascii "actions") (.integer 1)),
    .actionList (names.map fun name => [.action (ascii name) []])⟩

/-- A section without statements. -/
def plainSymbols : SymbolsInfo :=
  { defaultActions := initActionsInfo plainInfo, mods := plainMods }

/-- With `actions[1] = [SetMods()]`, the order does not matter. -/
theorem symbols_actions_commute_setMods :
    handleSymbolsBody plainInfo plainSymbols {} [threeSymbols, namedActions ["SetMods"]] =
      handleSymbolsBody plainInfo plainSymbols {} [namedActions ["SetMods"], threeSymbols] := by
  have h := (symbols_actions_commute_iff plainInfo plainSymbols {} (fun _ h => by cases h) 0
    threeSymbols (namedActions ["SetMods"]) ⟨_, _, rfl, by decide +kernel, rfl⟩
    ⟨_, _, rfl, by decide +kernel, rfl⟩).2 (by decide +kernel)
  obtain ⟨actions, hactions, hiff⟩ := h
  obtain rfl : [[{ type := .modSet }]] = actions := Except.ok.inj hactions
  refine (hiff.mpr ⟨rfl, ?_⟩).1
  rintro ⟨-, hsyms, -⟩
  cases hsyms

/-- With `actions[1] = [SetMods(), NoAction()]`, the third level is dropped if the symbols come
first, and is there otherwise. -/
theorem threeSymbols_dropped :
    ((handleSymbolsBody plainInfo plainSymbols {}
          [threeSymbols, namedActions ["SetMods", "NoAction"]]).key.groups.map
        fun groupi => groupi.levels.map LevelInfo.syms) = [[[0x61]]] ∧
      ((handleSymbolsBody plainInfo plainSymbols {}
          [namedActions ["SetMods", "NoAction"], threeSymbols]).key.groups.map
        fun groupi => groupi.levels.map LevelInfo.syms) = [[[0x61], [], [0x63]]] := by
  decide +kernel

end Body

end Xkbcommon.Xkbcomp
