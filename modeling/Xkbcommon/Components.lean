import Xkbcommon.Keymap

/-!
# State components, and what is derived from them

`struct state_components` of `src/state-priv.h`, the comparison of two of them and
the derived part of the state: the effective modifiers, the group brought into
range and the indicators. The state itself, `Xkbcommon.XkbState`, is the common
part of client and server states; the keymap it points to never changes, so it is a
parameter of every function instead of a field.
-/

namespace Xkbcommon

open Masks

/-! ### The components -/

/-- `struct state_components`. The depressed, latched and locked groups are `int32_t`
words; the effective group is an index. -/
structure StateComponents where
  baseGroup : BitVec 32 := 0#32
  latchedGroup : BitVec 32 := 0#32
  lockedGroup : BitVec 32 := 0#32
  group : ℕ := 0
  baseMods : BitVec 32 := 0#32
  latchedMods : BitVec 32 := 0#32
  lockedMods : BitVec 32 := 0#32
  mods : BitVec 32 := 0#32
  leds : BitVec 32 := 0#32
  controls : BitVec 32 := 0#32
  deriving DecidableEq, Repr, Inhabited

/-! `enum xkb_state_component`. -/

def xkbStateModsDepressed : BitVec 32 := 0x1#32
def xkbStateModsLatched : BitVec 32 := 0x2#32
def xkbStateModsLocked : BitVec 32 := 0x4#32
def xkbStateModsEffective : BitVec 32 := 0x8#32
def xkbStateLayoutDepressed : BitVec 32 := 0x10#32
def xkbStateLayoutLatched : BitVec 32 := 0x20#32
def xkbStateLayoutLocked : BitVec 32 := 0x40#32
def xkbStateLayoutEffective : BitVec 32 := 0x80#32
def xkbStateLeds : BitVec 32 := 0x100#32
def xkbStateControls : BitVec 32 := 0x200#32

/-- `get_state_component_changes`. -/
def getStateComponentChanges (a b : StateComponents) : BitVec 32 :=
  (if a.group ≠ b.group then xkbStateLayoutEffective else 0#32) |||
  (if a.baseGroup ≠ b.baseGroup then xkbStateLayoutDepressed else 0#32) |||
  (if a.latchedGroup ≠ b.latchedGroup then xkbStateLayoutLatched else 0#32) |||
  (if a.lockedGroup ≠ b.lockedGroup then xkbStateLayoutLocked else 0#32) |||
  (if a.mods ≠ b.mods then xkbStateModsEffective else 0#32) |||
  (if a.baseMods ≠ b.baseMods then xkbStateModsDepressed else 0#32) |||
  (if a.latchedMods ≠ b.latchedMods then xkbStateModsLatched else 0#32) |||
  (if a.lockedMods ≠ b.lockedMods then xkbStateModsLocked else 0#32) |||
  (if a.leds ≠ b.leds then xkbStateLeds else 0#32) |||
  (if a.controls ≠ b.controls then xkbStateControls else 0#32)

/-! ### The common state -/

/-- `enum xkb_state_mode_internal`. -/
inductive StateMode
  | clientState | serverCompanion | legacyMixedState | legacyServerState | serverState
  deriving DecidableEq, Repr, Inhabited

/-- The position in the enumeration, which guards the client- or server-only calls. -/
def StateMode.index : StateMode → ℕ
  | .clientState => 0
  | .serverCompanion => 1
  | .legacyMixedState => 2
  | .legacyServerState => 3
  | .serverState => 4

/-- `struct out_of_range_group`. -/
structure OutOfRangeGroup where
  policy : LayoutOutOfRangePolicy := .wrap
  redirectGroup : ℕ := 0
  deriving DecidableEq, Repr, Inhabited

/-- `struct xkb_state`, less its keymap and its reference count. -/
structure XkbState where
  components : StateComponents := {}
  outOfRangeGroup : OutOfRangeGroup := {}
  mode : StateMode := .clientState
  deriving DecidableEq, Repr, Inhabited

/-! ### The key of a state -/

/-- `state_key_get_layout`. -/
def stateKeyGetLayout (state : XkbState) (key : XkbKey) : Option ℕ :=
  xkbKeymapKeyEffectiveLayout key state.components.group

/-- `state_key_get_level`; `none` is `XKB_LEVEL_INVALID`. -/
def stateKeyGetLevel (state : XkbState) (key : XkbKey) (layout : ℕ) : Option ℕ :=
  match key.groups[layout]? with
  | none => none
  | some group =>
    match getEntryForMods group.type (state.components.mods &&& group.type.mods.mask) with
    | none => some 0
    | some entry => some entry.level

/-- `dummy_action`, used for empty levels. -/
def dummyAction : XkbAction := {}

/-- `xkb_key_get_actions`: the actions of the current level of a key, or the dummy
action. -/
def xkbKeyGetActions (state : XkbState) (key : XkbKey) : List XkbAction :=
  match stateKeyGetLayout state key with
  | none => [dummyAction]
  | some layout =>
    match stateKeyGetLevel state key layout with
    | none => [dummyAction]
    | some level =>
      match xkbKeymapKeyGetActionsByLevel key layout level with
      | [] => [dummyAction]
      | action :: actions => action :: actions

/-! ### Indicators -/

/-- The modifiers an indicator map looks at. -/
def ledModMask (led : XkbLed) (c : StateComponents) : BitVec 32 :=
  (if anyBit led.whichMods xkbStateModsEffective then c.mods else 0#32) |||
  (if anyBit led.whichMods xkbStateModsDepressed then c.baseMods else 0#32) |||
  (if anyBit led.whichMods xkbStateModsLatched then c.latchedMods else 0#32) |||
  (if anyBit led.whichMods xkbStateModsLocked then c.lockedMods else 0#32)

/-- The groups an indicator map looks at: the effective and the locked group as
masks, all the groups of the map when the depressed or the latched group is not
zero. -/
def ledGroupMask (led : XkbLed) (c : StateComponents) : BitVec 32 :=
  (if anyBit led.whichGroups xkbStateLayoutEffective then 1#32 <<< c.group else 0#32) |||
  (if anyBit led.whichGroups xkbStateLayoutLocked then 1#32 <<< c.lockedGroup.toNat else 0#32) |||
  (if anyBit led.whichGroups xkbStateLayoutDepressed && c.baseGroup != 0#32
    then led.groups else 0#32) |||
  (if anyBit led.whichGroups xkbStateLayoutLatched && c.latchedGroup != 0#32
    then led.groups else 0#32)

/-- The body of the loop of `xkb_state_led_update_all`: whether the indicator is
lit. -/
def ledIsLit (led : XkbLed) (c : StateComponents) : Bool :=
  if led.whichMods != 0#32 && led.mods.mask != 0#32 && anyBit led.mods.mask (ledModMask led c) then
    true
  else if led.whichGroups != 0#32 &&
      (if led.groups != 0#32 then anyBit led.groups (ledGroupMask led c)
        else
          -- a map without groups is lit by an unset depressed or latched group
          (anyBit led.whichGroups xkbStateLayoutDepressed && c.baseGroup == 0#32) ||
          (anyBit led.whichGroups xkbStateLayoutLatched && c.latchedGroup == 0#32)) then
    true
  else anyBit led.ctrls c.controls

/-- `xkb_state_led_update_all`. -/
def xkbStateLedUpdateAll (km : XkbKeymap) (c : StateComponents) : StateComponents :=
  { c with
    leds := km.leds.zipIdx.foldl
      (fun leds led => if ledIsLit led.1 c then leds ||| (1#32 <<< led.2) else leds) 0#32 }

/-! ### The derived state -/

/-- `xkb_state_update_derived`, on the components: the effective modifiers, the
locked group and the effective group brought into range, and the indicators. -/
def deriveComponents (km : XkbKeymap) (range : OutOfRangeGroup) (c : StateComponents) :
    StateComponents :=
  let c := { c with mods := c.baseMods ||| c.latchedMods ||| c.lockedMods }
  let wrapped := xkbWrapGroupIntoRange c.lockedGroup km.numGroups range.policy range.redirectGroup
  let c := { c with lockedGroup := BitVec.ofNat 32 (wrapped.getD 0) }
  let wrapped := xkbWrapGroupIntoRange (c.baseGroup + c.latchedGroup + c.lockedGroup)
    km.numGroups range.policy range.redirectGroup
  xkbStateLedUpdateAll km { c with group := wrapped.getD 0 }

/-- `xkb_state_update_derived`. -/
def xkbStateUpdateDerived (km : XkbKeymap) (state : XkbState) : XkbState :=
  { state with components := deriveComponents km state.outOfRangeGroup state.components }

end Xkbcommon
