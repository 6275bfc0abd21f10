import Xkbcommon.Lib.Masks

/-!
# The keymap, as the state machine reads it

The compiled keymap of `src/keymap.h`: actions, key types, keys, indicator maps
and modifiers, with the lookups that `src/state.c` makes on them. Only what the
state machine or the final compilation step reads is kept: names and section
texts are not here.

* The C union `xkb_action` is a record with one field per view of the union
  (`Xkbcommon.XkbAction`), so that `action.mods.flags` is written as in the source;
  only the view that `type` selects is meaningful.
* A pointer to a key is a `Xkbcommon.KeyAddr`: the index of the key in
  `xkb_keymap::keys`, or one of the static keys that `src/state.c` fabricates.
  Comparing two pointers is comparing two addresses.
* Modifier, control, group and LED masks are 32-bit words, and so are the signed
  group values, which wrap as two's complement words do.
-/

namespace Xkbcommon

open Masks

/-! ### Actions -/

/-- `enum xkb_action_type`. A keymap may store an arbitrary number as the type of a
private action; the values past the last entry are `custom`. -/
inductive XkbActionType
  | none | void | modSet | modLatch | modLock | groupSet | groupLatch | groupLock
  | ptrMove | ptrButton | ptrLock | ptrDefault | terminate | switchVt
  | ctrlSet | ctrlLock | redirectKey | unsupportedLegacy | unknown | privateAction | internal
  /-- A number past `_ACTION_TYPE_NUM_ENTRIES`. -/
  | custom (type : ℕ)
  deriving DecidableEq, Repr, Inhabited

/-! The bits of `enum xkb_action_flags`. -/

def actionLockClear : BitVec 32 := 0x1#32
def actionLatchToLock : BitVec 32 := 0x2#32
def actionLockNoLock : BitVec 32 := 0x4#32
def actionLockNoUnlock : BitVec 32 := 0x8#32
def actionModsLookupModmap : BitVec 32 := 0x10#32
def actionAbsoluteSwitch : BitVec 32 := 0x20#32
def actionAbsoluteX : BitVec 32 := 0x40#32
def actionAbsoluteY : BitVec 32 := 0x80#32
def actionAccel : BitVec 32 := 0x100#32
def actionSameScreen : BitVec 32 := 0x200#32
def actionLockOnRelease : BitVec 32 := 0x400#32
def actionUnlockOnPress : BitVec 32 := 0x800#32
def actionLatchOnPress : BitVec 32 := 0x1000#32
def actionPendingComputation : BitVec 32 := 0x2000#32

/-! The bits of `enum xkb_action_controls` and its mask of boolean controls. -/

def controlStickyKeys : BitVec 32 := 0x1#32
def controlAllBoolean : BitVec 32 := 0x1fddff#32

/-! `enum xkb_internal_action_flags`. -/

def internalBreaksGroupLatch : BitVec 32 := 0x1#32
def internalBreaksModLatch : BitVec 32 := 0x2#32

/-- `struct xkb_mods`: the modifiers of a definition and its effective mask. -/
structure XkbMods where
  /-- Real and virtual modifiers, as written. -/
  mods : BitVec 32 := 0#32
  /-- The computed effective mask. -/
  mask : BitVec 32 := 0#32
  deriving DecidableEq, Repr, Inhabited

/-- `struct xkb_mod_action`, less its type. -/
structure ModAction where
  flags : BitVec 32 := 0#32
  mods : XkbMods := {}
  deriving DecidableEq, Repr, Inhabited

/-- `struct xkb_group_action`, less its type; `group` is an `int32_t`. -/
structure GroupAction where
  flags : BitVec 32 := 0#32
  group : BitVec 32 := 0#32
  deriving DecidableEq, Repr, Inhabited

/-- `struct xkb_controls_action`, less its type. -/
structure ControlsAction where
  flags : BitVec 32 := 0#32
  ctrls : BitVec 32 := 0#32
  deriving DecidableEq, Repr, Inhabited

/-- `struct xkb_pointer_default_action`, less its type; `value` is an `int8_t`. -/
structure PointerDefaultAction where
  flags : BitVec 32 := 0#32
  value : BitVec 8 := 0#8
  deriving DecidableEq, Repr, Inhabited

/-- `struct xkb_switch_screen_action`, less its type; `screen` is an `int8_t`. -/
structure SwitchScreenAction where
  flags : BitVec 32 := 0#32
  screen : BitVec 8 := 0#8
  deriving DecidableEq, Repr, Inhabited

/-- `struct xkb_pointer_action`, less its type; the coordinates are `int16_t`. -/
structure PointerAction where
  flags : BitVec 32 := 0#32
  x : BitVec 16 := 0#16
  y : BitVec 16 := 0#16
  deriving DecidableEq, Repr, Inhabited

/-- `struct xkb_pointer_button_action`, less its type. -/
structure PointerButtonAction where
  flags : BitVec 32 := 0#32
  count : BitVec 8 := 0#8
  button : BitVec 8 := 0#8
  deriving DecidableEq, Repr, Inhabited

/-- `struct xkb_redirect_key_action`, less its type. -/
structure RedirectKeyAction where
  keycode : ℕ := 0
  affect : BitVec 32 := 0#32
  mods : BitVec 32 := 0#32
  deriving DecidableEq, Repr, Inhabited

/-- `struct xkb_private_action`, less its type: seven bytes. -/
structure PrivateAction where
  data : List UInt8 := [0, 0, 0, 0, 0, 0, 0]
  deriving DecidableEq, Repr, Inhabited

/-- `struct xkb_internal_action`, less its type. -/
structure InternalAction where
  flags : BitVec 32 := 0#32
  clearLatchedMods : BitVec 32 := 0#32
  deriving DecidableEq, Repr, Inhabited

/-- `union xkb_action`. -/
structure XkbAction where
  type : XkbActionType := .none
  mods : ModAction := {}
  group : GroupAction := {}
  ctrls : ControlsAction := {}
  dflt : PointerDefaultAction := {}
  screen : SwitchScreenAction := {}
  ptr : PointerAction := {}
  btn : PointerButtonAction := {}
  redirect : RedirectKeyAction := {}
  priv : PrivateAction := {}
  internal : InternalAction := {}
  deriving DecidableEq, Repr, Inhabited

/-- `XKB_KEYCODE_INVALID`. -/
def xkbKeycodeInvalid : ℕ := 0xffffffff

/-! ### Keys -/

/-- `enum xkb_layout_out_of_range_policy`. -/
inductive LayoutOutOfRangePolicy
  | wrap | clamp | redirect
  deriving DecidableEq, Repr, Inhabited

/-- `struct xkb_key_type_entry`. -/
structure XkbKeyTypeEntry where
  level : ℕ := 0
  mods : XkbMods := {}
  /-- The modifiers of the entry that a level does not consume. -/
  preserve : XkbMods := {}
  deriving DecidableEq, Repr, Inhabited

/-- `struct xkb_key_type`, less its names. -/
structure XkbKeyType where
  mods : XkbMods := {}
  numLevels : ℕ := 1
  entries : List XkbKeyTypeEntry := []
  deriving DecidableEq, Repr, Inhabited

/-- `struct xkb_level`. The upper case keysyms are those of the single keysym, or those that
follow several keysyms, if they are there (`has_upper`). -/
structure XkbLevel where
  syms : List ℕ := []
  hasUpper : Bool := false
  upper : List ℕ := []
  actions : List XkbAction := []
  deriving DecidableEq, Repr, Inhabited

/-- `struct xkb_group`; the type is the entry of `xkb_keymap::types` it points to. -/
structure XkbGroup where
  type : XkbKeyType := {}
  levels : List XkbLevel := []
  deriving DecidableEq, Repr, Inhabited

/-- `struct xkb_key`. The targets of the overlays are indices into
`xkb_keymap::keys`, or `none` for `NULL`; one target stored inline is a table of
length one. -/
structure XkbKey where
  keycode : ℕ := 0
  modmap : BitVec 32 := 0#32
  vmodmap : BitVec 32 := 0#32
  overlays : BitVec 8 := 0#8
  overlaysInline : Bool := true
  overlaysKeys : List (Option ℕ) := []
  repeats : Bool := false
  outOfRangeGroupPolicy : LayoutOutOfRangePolicy := .wrap
  outOfRangeGroupNumber : ℕ := 0
  groups : List XkbGroup := []
  deriving DecidableEq, Repr, Inhabited

/-- The address of a key: an entry of `xkb_keymap::keys`, or one of the static keys
of `src/state.c`. -/
inductive KeyAddr
  | null
  /-- `&keymap->keys[i]`. -/
  | key (i : ℕ)
  /-- `&synthetic_key`. -/
  | syntheticKey
  /-- `&synthetic_key_break_mod_latch`. -/
  | syntheticKeyBreakModLatch
  /-- `&synthetic_key_break_group_latch`. -/
  | syntheticKeyBreakGroupLatch
  deriving DecidableEq, Repr, Inhabited

/-- A key together with its address: what a `const struct xkb_key *` gives access
to. -/
structure KeyRef where
  addr : KeyAddr
  key : XkbKey
  deriving DecidableEq, Repr

/-! ### The keymap -/

/-- `struct xkb_led`, less its name. The component masks `whichGroups` and
`whichMods` hold bits of `enum xkb_state_component`. -/
structure XkbLed where
  whichGroups : BitVec 32 := 0#32
  groups : BitVec 32 := 0#32
  whichMods : BitVec 32 := 0#32
  mods : XkbMods := {}
  ctrls : BitVec 32 := 0#32
  deriving DecidableEq, Repr, Inhabited

/-- `enum xkb_keymap_format`. -/
inductive KeymapFormat
  | textV1 | textV2
  deriving DecidableEq, Repr, Inhabited

/-! The limits that the default components of a keymap meet. -/

theorem noLeds_le : ([] : List XkbLed).length ≤ 32 := by decide

theorem noMods_le : ([] : List (BitVec 32)).length ≤ 32 := by decide

theorem oneGroup_le : 1 ≤ 32 := by decide

theorem twoGroups_le : 2 ≤ 32 := by decide

/-- `struct xkb_keymap`, with the size limits every keymap keeps and the layout of
its key array: the low keycodes are stored at their own index. -/
structure XkbKeymap where
  format : KeymapFormat := .textV1
  leds : List XkbLed := []
  minKeyCode : ℕ := 0
  maxKeyCode : ℕ := 0
  numKeysLow : ℕ := 0
  keys : List XkbKey := []
  /-- The mappings of the modifiers, real modifiers first (`xkb_mod_set::mods`). -/
  mods : List (BitVec 32) := []
  explicitVmods : BitVec 32 := 0#32
  canonicalStateMask : BitVec 32 := 0xff#32
  numGroups : ℕ := 1
  /-- `XKB_MAX_LEDS`. -/
  leds_le : leds.length ≤ 32 := by first | exact noLeds_le | decide
  /-- `XKB_MAX_MODS`. -/
  mods_le : mods.length ≤ 32 := by first | exact noMods_le | decide
  /-- `XKB_MAX_GROUPS`. -/
  numGroups_le : numGroups ≤ 32 := by
    first | exact oneGroup_le | exact twoGroups_le | decide
  /-- What `CopyKeyNamesToKeymap` sets up for the low keycodes. -/
  low_keycode : ∀ kc < numKeysLow, minKeyCode ≤ kc →
    (keys[kc]?).map XkbKey.keycode = some kc := by decide

/-- `MOD_REAL_MASK_ALL`. -/
def modRealMaskAll : BitVec 32 := 0xff#32

/-- `_XKB_MOD_INDEX_NUM_ENTRIES`: the index of the first virtual modifier. -/
def xkbModIndexNumEntries : ℕ := 8

/-- The binary search of `XkbKey` among the high keycodes, on `[lower, upper)`. The
interval shrinks at every turn, so `upper` turns are enough. -/
def searchHighKey (keys : List XkbKey) (kc : ℕ) : ℕ → ℕ → ℕ → Option ℕ
  | 0, _, _ => none
  | fuel + 1, lower, upper =>
    if lower < upper then
      let mid := lower + (upper - 1 - lower) / 2
      match keys[mid]? with
      | none => none
      | some key =>
        if key.keycode < kc then searchHighKey keys kc fuel (mid + 1) upper
        else if kc < key.keycode then searchHighKey keys kc fuel lower mid
        else some mid
    else none

/-- `XkbKey`: the index of the key of a keycode, `none` for `NULL`. -/
def xkbKey (km : XkbKeymap) (kc : ℕ) : Option ℕ :=
  if kc < km.minKeyCode ∨ km.maxKeyCode < kc then none
  else if kc < km.numKeysLow then some kc
  else searchHighKey km.keys kc km.keys.length km.numKeysLow km.keys.length

/-- The key of an address of the key array. -/
def keyAt (km : XkbKeymap) (i : ℕ) : Option KeyRef :=
  (km.keys[i]?).map fun key => ⟨.key i, key⟩

/-- The key of a keycode, with its address. -/
def keyOf (km : XkbKeymap) (kc : ℕ) : Option KeyRef := (xkbKey km kc).bind (keyAt km)

/-- `mod_mask_get_effective`: the real modifiers of a mask and the mappings of its
virtual modifiers. -/
def modMaskGetEffective (km : XkbKeymap) (mods : BitVec 32) : BitVec 32 :=
  (km.mods.zipIdx.drop xkbModIndexNumEntries).foldl
    (fun mask mod => if mods.getLsbD mod.2 then mask ||| mod.1 else mask)
    (mods &&& modRealMaskAll)

/-- `resolve_to_canonical_mods`. -/
def resolveToCanonicalMods (km : XkbKeymap) (mods : BitVec 32) : BitVec 32 :=
  (mods &&& km.canonicalStateMask) ||| modMaskGetEffective km (mods &&& ~~~km.canonicalStateMask)

/-! ### Layouts, levels and actions of a key -/

/-- `XkbWrapGroupIntoRange`: a signed group brought into `[0, numGroups)`, or `none`
for `XKB_LAYOUT_INVALID`. The C remainder truncates towards zero. -/
def xkbWrapGroupIntoRange (group : BitVec 32) (numGroups : ℕ) (policy : LayoutOutOfRangePolicy)
    (number : ℕ) : Option ℕ :=
  if numGroups = 0 then none
  else if 0 ≤ group.toInt ∧ group.toNat < numGroups then some group.toNat
  else match policy with
    | .redirect => some (if numGroups ≤ number then 0 else number)
    | .clamp => some (if group.toInt < 0 then 0 else numGroups - 1)
    | .wrap =>
      let rem := group.toInt.tmod numGroups
      some (if 0 ≤ rem then rem.toNat else (rem + numGroups).toNat)

/-- `xkb_keymap_key_effective_layout`. -/
def xkbKeymapKeyEffectiveLayout (key : XkbKey) (layout : ℕ) : Option ℕ :=
  xkbWrapGroupIntoRange (BitVec.ofNat 32 layout) key.groups.length key.outOfRangeGroupPolicy
    key.outOfRangeGroupNumber

/-- `entry_is_active`: entries that name an unbound virtual modifier are skipped. -/
def entryIsActive (entry : XkbKeyTypeEntry) : Bool :=
  entry.mods.mods == 0#32 || entry.mods.mask != 0#32

/-- `get_entry_for_mods`. -/
def getEntryForMods (type : XkbKeyType) (mods : BitVec 32) : Option XkbKeyTypeEntry :=
  type.entries.find? fun entry => entryIsActive entry && entry.mods.mask == mods

/-- `xkb_keymap_key_get_actions_by_level`; the empty list is the count 0. -/
def xkbKeymapKeyGetActionsByLevel (key : XkbKey) (layout level : ℕ) : List XkbAction :=
  match xkbKeymapKeyEffectiveLayout key layout with
  | none => []
  | some layout =>
    match key.groups[layout]? with
    | none => []
    | some group =>
      if group.type.numLevels ≤ level then []
      else ((group.levels[level]?).map XkbLevel.actions).getD []

end Xkbcommon
