import Xkbcommon.Components

/-!
# The last step of the compilation: modifiers

Once the sections of a keymap are compiled, `UpdateDerivedKeymapFields` of
`src/xkbcomp/keymap.c` turns the modifiers as they are written – names and numbers, real
and virtual – into the masks that the state machine uses:

1. the virtual modifiers are mapped through the keys that they are bound to; in the format
   V2 those that are still unmapped are mapped to themselves;
2. the mask of the *canonical* modifiers is what the mappings reach, with the real modifiers;
3. the masks of the key types, of the actions and of the indicators are computed.

The input is the keymap with the actions of the interpretations bound to its keys; the
number of groups, and the fields whose computation waits for it, are taken as computed.

A number may name modifiers that do not exist, and the masks keep their bits. For all other
masks the canonical modifiers are an upper bound (`Xkbcommon.mask_updateActionMods`).
-/

namespace Xkbcommon

open Masks List

variable {km : XkbKeymap} {action : XkbAction} {key : XkbKey} {state : XkbState}
  {mods modmap : BitVec 32}

/-! ### Mapping the virtual modifiers -/

/-- The loop over the keys that extends the mapping of one virtual modifier. -/
def vmodMapping (keys : List XkbKey) (idx : ℕ) (mapping : BitVec 32) : BitVec 32 :=
  keys.foldl (fun m key => if key.vmodmap.getLsbD idx then m ||| key.modmap else m) mapping

/-- Whether a virtual modifier maps to itself: it is not mapped, neither explicitly nor
through the keys. -/
def mapsToItself (format : KeymapFormat) (explicitVmods : BitVec 32) (idx : ℕ)
    (mapping : BitVec 32) : Bool :=
  format != .textV1 && mapping == 0#32 && !explicitVmods.getLsbD idx

/-- The mapping of a modifier after the step. The real modifiers keep theirs. -/
def compileMapping (km : XkbKeymap) (mod : BitVec 32 × ℕ) : BitVec 32 :=
  if mod.2 < xkbModIndexNumEntries then mod.1
  else
    let mapping := vmodMapping km.keys mod.2 mod.1
    if mapsToItself km.format km.explicitVmods mod.2 mapping then BitVec.twoPow 32 mod.2
    else mapping

/-- The mappings of all modifiers after the step. -/
def compileMappings (km : XkbKeymap) : List (BitVec 32) := km.mods.zipIdx.map (compileMapping km)

/-- The modifiers that were made explicit, because they map to themselves. -/
def compileExplicitVmods (km : XkbKeymap) : BitVec 32 :=
  (km.mods.zipIdx.drop xkbModIndexNumEntries).foldl
    (fun explicit mod =>
      if mapsToItself km.format km.explicitVmods mod.2 (vmodMapping km.keys mod.2 mod.1)
      then explicit ||| BitVec.twoPow 32 mod.2 else explicit)
    km.explicitVmods

/-- The canonical modifiers: the real ones, and those that the mappings reach. -/
def canonicalMods (mappings : List (BitVec 32)) : BitVec 32 :=
  (mappings.drop xkbModIndexNumEntries).foldl (· ||| ·) modRealMaskAll

/-! ### Computing the masks -/

/-- The bits of a mask that encode no modifier of the keymap. -/
def unknownMods (km : XkbKeymap) : BitVec 32 := ~~~BitVec.ofNat 32 (2 ^ km.mods.length - 1)

/-- `ComputeEffectiveMask`. -/
def computeEffectiveMask (km : XkbKeymap) (mods : XkbMods) : XkbMods :=
  { mods with mask := modMaskGetEffective km mods.mods ||| (mods.mods &&& unknownMods km) }

/-- `has_unbound_vmods`. -/
def hasUnboundVmods (km : XkbKeymap) (mask : BitVec 32) : Bool :=
  (km.mods.zipIdx.drop xkbModIndexNumEntries).any fun mod =>
    mask.getLsbD mod.2 && mod.1 == 0#32

/-- `is_mod_action`. -/
def isModAction (action : XkbAction) : Bool :=
  action.type == .modSet || action.type == .modLatch || action.type == .modLock

/-- `UpdateActionMods`. -/
def updateActionMods (km : XkbKeymap) (modmap : BitVec 32) (action : XkbAction) : XkbAction :=
  if isModAction action then
    { action with
      mods.mods := computeEffectiveMask km
        (if anyBit action.mods.flags actionModsLookupModmap
          then { action.mods.mods with mods := modmap } else action.mods.mods) }
  else action

/-- The masks of a key type: entries with unbound virtual modifiers are deactivated. -/
def updateKeyType (km : XkbKeymap) (type : XkbKeyType) : XkbKeyType :=
  { type with
    mods := computeEffectiveMask km type.mods
    entries := type.entries.map fun entry =>
      if hasUnboundVmods km entry.mods.mods then { entry with mods.mask := 0#32 }
      else
        { entry with
          mods := computeEffectiveMask km entry.mods
          preserve := computeEffectiveMask km entry.preserve } }

/-! ### Several actions on one level -/

/-- `is_group_action`. -/
def isGroupAction (action : XkbAction) : Bool :=
  action.type == .groupSet || action.type == .groupLatch || action.type == .groupLock

/-- Two actions that may not be on one level: of the same category, or two redirections. -/
def sameCategory (action₁ action₂ : XkbAction) : Bool :=
  (isModAction action₁ || isGroupAction action₁ || action₁.type == .redirectKey) &&
    (action₁.type == action₂.type || (isModAction action₁ && isModAction action₂) ||
      (isGroupAction action₁ && isGroupAction action₂))

/-- `CheckMultipleActionsCategories`, on one level: an action of the category of an earlier
one that is kept is disabled. A disabled action is of no category. -/
def checkMultipleActionsCategories (actions : List XkbAction) : List XkbAction :=
  actions.foldl
    (fun checked action => checked ++
      [if checked.any (sameCategory · action) then { action with type := .none } else action])
    []

/-! ### The whole step -/

/-- The levels of a group, with their actions checked and updated. -/
def updateGroup (km : XkbKeymap) (modmap : BitVec 32) (group : XkbGroup) : XkbGroup :=
  { type := updateKeyType km group.type
    levels := group.levels.map fun level =>
      { level with
        actions := (checkMultipleActionsCategories level.actions).map
          (updateActionMods km modmap) } }

/-- The keymap with its modifiers mapped: the first two parts of the step. -/
def mapModifiers (km : XkbKeymap) : XkbKeymap :=
  { km with
    mods := compileMappings km
    explicitVmods := compileExplicitVmods km
    canonicalStateMask := canonicalMods (compileMappings km)
    mods_le := by
      rw [compileMappings, List.length_map, List.length_zipIdx]
      exact km.mods_le }

/-- A key with its groups updated. -/
def updateKeyMasks (km : XkbKeymap) (key : XkbKey) : XkbKey :=
  { key with groups := key.groups.map (updateGroup km key.modmap) }

/-- `UpdateDerivedKeymapFields`, the part about modifiers and actions. -/
def updateDerivedKeymapFields (km : XkbKeymap) : XkbKeymap :=
  { mapModifiers km with
    keys := km.keys.map (updateKeyMasks (mapModifiers km))
    leds := km.leds.map fun led =>
      { led with mods := computeEffectiveMask (mapModifiers km) led.mods }
    leds_le := by
      rw [List.length_map]
      exact km.leds_le
    low_keycode := by
      intro kc hkc hmin
      rw [List.getElem?_map, Option.map_map]
      exact km.low_keycode kc hkc hmin }

/-! ### Canonical modifiers -/

/-- **The mappings stay within the canonical modifiers.** -/
structure MapsIntoCanonical (km : XkbKeymap) : Prop where
  real : Sub modRealMaskAll km.canonicalStateMask
  mapping : ∀ mapping ∈ km.mods.drop xkbModIndexNumEntries, Sub mapping km.canonicalStateMask

/-- The canonical modifiers contain the start of the fold and every mapping. -/
theorem sub_foldl_or (mappings : List (BitVec 32)) (m : BitVec 32) :
    Sub m (mappings.foldl (· ||| ·) m) ∧
      ∀ mapping ∈ mappings, Sub mapping (mappings.foldl (· ||| ·) m) := by
  induction mappings generalizing m with
  | nil => exact ⟨.refl m, by simp⟩
  | cons a mappings ih =>
    obtain ⟨hstart, hall⟩ := ih (m ||| a)
    refine ⟨(sub_or_left m a).trans hstart, fun mapping hmem => ?_⟩
    rcases mem_cons.mp hmem with rfl | hmem
    · exact (sub_or_right m mapping).trans hstart
    · exact hall mapping hmem

theorem mapsIntoCanonical_compile (km : XkbKeymap) :
    MapsIntoCanonical (updateDerivedKeymapFields km) := by
  obtain ⟨hreal, hall⟩ :=
    sub_foldl_or ((compileMappings km).drop xkbModIndexNumEntries) modRealMaskAll
  exact ⟨hreal, hall⟩

/-- The effective modifiers of a mask are canonical. -/
theorem MapsIntoCanonical.effective (h : MapsIntoCanonical km) :
    Sub (modMaskGetEffective km mods) km.canonicalStateMask := by
  intro i hi
  rcases (getLsbD_foldl_or _ _ _ _).mp hi with hreal | ⟨mod, hmem, -, hmapping⟩
  · exact sub_and_right h.real i hreal
  · refine h.mapping mod.1 ?_ i hmapping
    rw [← zipIdx_map_fst 0 km.mods, ← map_drop]
    exact mem_map_of_mem hmem

/-- Resolving a mask gives canonical modifiers. -/
theorem MapsIntoCanonical.resolve (h : MapsIntoCanonical km) (mods : BitVec 32) :
    Sub (resolveToCanonicalMods km mods) km.canonicalStateMask :=
  sub_or (sub_and_right (.refl _)) h.effective

/-- **Resolving leaves canonical modifiers alone.** -/
theorem resolveToCanonicalMods_of_sub (h : Sub mods km.canonicalStateMask) :
    resolveToCanonicalMods km mods = mods := by
  have hzero : modMaskGetEffective km 0#32 = 0#32 := by simp [modMaskGetEffective]
  rw [resolveToCanonicalMods, and_eq_of_sub h, and_not_eq_of_sub h, hzero, BitVec.or_zero]

/-- The mask of a modifier action is computed from the modifiers that it names. -/
theorem mask_updateActionMods (hmod : isModAction action = true) :
    (updateActionMods km modmap action).mods.mods.mask =
      modMaskGetEffective km (updateActionMods km modmap action).mods.mods.mods |||
        ((updateActionMods km modmap action).mods.mods.mods &&& unknownMods km) := by
  rw [updateActionMods, if_pos hmod]
  rfl

theorem isModAction_updateActionMods :
    isModAction (updateActionMods km modmap action) = isModAction action := by
  unfold updateActionMods
  split <;> rfl

/-- The actions that a state finds on a compiled key have been checked and updated. -/
theorem xkbKeyGetActions_compile (hkey : key ∈ (updateDerivedKeymapFields km).keys) :
    xkbKeyGetActions state key = [dummyAction] ∨
      ∃ modmap actions, xkbKeyGetActions state key =
        (checkMultipleActionsCategories actions).map
          (updateActionMods (mapModifiers km) modmap) := by
  obtain ⟨key₀, -, rfl⟩ := mem_map.mp hkey
  -- the actions of any layout and level
  have hlevel : ∀ layout level, xkbKeymapKeyGetActionsByLevel
      (updateKeyMasks (mapModifiers km) key₀) layout level = [] ∨
      ∃ modmap actions, xkbKeymapKeyGetActionsByLevel
        (updateKeyMasks (mapModifiers km) key₀) layout level =
        (checkMultipleActionsCategories actions).map
          (updateActionMods (mapModifiers km) modmap) := by
    intro layout level
    unfold xkbKeymapKeyGetActionsByLevel
    split
    · exact .inl rfl
    · split
      · exact .inl rfl
      · rename_i group hgroup
        split
        · exact .inl rfl
        · rw [updateKeyMasks, getElem?_map] at hgroup
          obtain ⟨group₀, -, rfl⟩ := Option.map_eq_some_iff.mp hgroup
          rw [updateGroup, getElem?_map, Option.map_map]
          cases hl : group₀.levels[level]? with
          | none => exact .inl rfl
          | some level₀ => exact .inr ⟨_, level₀.actions, rfl⟩
  unfold xkbKeyGetActions
  split
  · exact .inl rfl
  · split
    · exact .inl rfl
    · split
      · exact .inl rfl
      · rename_i hactions
        rw [← hactions]
        exact .inr ((hlevel _ _).resolve_left (by rw [hactions]; exact cons_ne_nil _ _))

theorem mem_xkbKeyGetActions_compile (hkey : key ∈ (updateDerivedKeymapFields km).keys)
    (h : action ∈ xkbKeyGetActions state key) :
    action = dummyAction ∨
      ∃ modmap a, action = updateActionMods (mapModifiers km) modmap a := by
  rcases xkbKeyGetActions_compile hkey with heq | ⟨modmap, actions, heq⟩
  · rw [heq] at h
    exact .inl (mem_singleton.mp h)
  · rw [heq] at h
    obtain ⟨a, -, rfl⟩ := mem_map.mp h
    exact .inr ⟨modmap, a, rfl⟩

/-- **The masks of the actions are canonical**, unless an action names modifiers that do not
exist. -/
theorem mask_sub_canonical (hkey : key ∈ (updateDerivedKeymapFields km).keys)
    (h : action ∈ xkbKeyGetActions state key) (hmod : isModAction action = true)
    (hknown : action.mods.mods.mods &&& unknownMods (updateDerivedKeymapFields km) = 0#32) :
    Sub action.mods.mods.mask (updateDerivedKeymapFields km).canonicalStateMask := by
  rcases mem_xkbKeyGetActions_compile hkey h with rfl | ⟨modmap, a, rfl⟩
  · cases hmod
  · rw [isModAction_updateActionMods] at hmod
    have hunknown : unknownMods (mapModifiers km) =
        unknownMods (updateDerivedKeymapFields km) := rfl
    rw [mask_updateActionMods hmod, hunknown, hknown, BitVec.or_zero]
    exact (mapsIntoCanonical_compile km).effective

end Xkbcommon
