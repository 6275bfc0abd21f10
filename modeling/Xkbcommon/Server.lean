import Xkbcommon.Filter

/-!
# The server state

What drives the filters: `xkb_filter_apply_all`, the updates of the latches and locks
that fake a key, and the public calls of `src/state.c` on a server state –
`xkb_state_update_key`, `xkb_state_update_latched_locked`,
`xkb_state_update_synthetic` – and on a client state, `xkb_state_update_mask`.

`xkb_filter_apply_all` and `clear_all_latches_and_locks` call each other: a release
may disable the sticky keys, which clears the latches by faking a press. The inner
event is a press, and no filter clears the latches on a press, so the recursion is
one level deep. `Xkbcommon.xkbFilterApplyAllWith` takes the clearing function as an
argument; the inner call gets the identity, which is never called.
-/

namespace Xkbcommon

open Masks Counter

/-! ### Starting and running filters -/

/-- `xkb_filter_new`: the first free slot, or a new one at the end, with its
reference count set. The other fields of a reused slot keep their old values. -/
def xkbFilterNew (filters : List XkbFilter) : List XkbFilter × ℕ :=
  let i := filters.findIdx fun f => f.func.isNone
  (if i < filters.length then filters.modify i fun f => { f with refcnt := 1 }
    else filters ++ [{ refcnt := 1 }], i)

/-- Write a slot of the filter array. -/
def Frame.setFilter (fr : Frame) (i : ℕ) (f : XkbFilter) : Frame :=
  { fr with state := { fr.state with filters := fr.state.filters.set i f } }

/-- The frame after a filter call, with the filter put back into its slot. -/
def FilterStep.store (step : FilterStep) (i : ℕ) : Frame := step.frame.setFilter i step.filter

/-- Take a slot, fill it with an action of a key and run the `new` function, which
does not look at the filter array. The index of the slot is returned too. -/
def Frame.startFilter (fr : Frame) (key : KeyAddr) (action : XkbAction) (func : FilterFunc) :
    Frame × ℕ :=
  let new := xkbFilterNew fr.state.filters
  let slot := new.1.getD new.2 {}
  let started := func.start fr { slot with key := key, action := action, func := some func }
  let fr := started.1
  ({ fr with state := { fr.state with filters := new.1.set new.2 started.2 } }, new.2)

/-- One turn of the first loop of `xkb_filter_apply_all`: call the filter of slot `i`,
if there is one, and keep whether an event was consumed. -/
def runFilter (clearAll : Frame → Frame) (k : KeyRef) (dir : KeyDirection)
    (i : ℕ) (f : XkbFilter) (fr : Frame) (consumed : Bool) : Frame × Bool :=
  match f.func with
  | none => (fr, consumed)
  | some func =>
    let step := func.call clearAll fr f k dir
    (step.store i, consumed || step.result == .consume)

/-- The first loop of `xkb_filter_apply_all`, from slot `i` on. The end of the array
is read at every turn: clearing the latches may append slots. -/
def runFilters (clearAll : Frame → Frame) (k : KeyRef) (dir : KeyDirection) :
    ℕ → ℕ → Frame → Bool → Frame × Bool
  | 0, _, fr, consumed => (fr, consumed)
  | fuel + 1, i, fr, consumed =>
    match fr.state.filters[i]? with
    | none => (fr, consumed)
    | some f =>
      let (fr, consumed) := runFilter clearAll k dir i f fr consumed
      runFilters clearAll k dir fuel (i + 1) fr consumed

variable (km : XkbKeymap)

variable (s : XkbServerState) (fr : Frame) (k : KeyRef) (dir : KeyDirection)

/-- The action a new filter starts with: sticky keys turn sets into latches, and the
modifiers of a redirection are resolved. -/
def resolveAction (action : XkbAction) : XkbAction :=
  let sticky := anyBit s.components.controls controlStickyKeys
  let latchToLock := if anyBit s.flags a11yStickyKeysLatchToLock then actionLatchToLock else 0#32
  match action.type with
  | .modSet =>
    if sticky then
      { action with type := .modLatch, mods.flags := action.mods.flags ||| latchToLock }
    else action
  | .groupSet =>
    if sticky then
      { action with type := .groupLatch, group.flags := action.group.flags ||| latchToLock }
    else action
  | .redirectKey =>
    { action with
      redirect.affect := modMaskGetEffective km action.redirect.affect
      redirect.mods := modMaskGetEffective km action.redirect.mods }
  | _ => action

/-- One turn of the second loop of `xkb_filter_apply_all`: actions without a handler
are skipped. -/
def startAction (fr : Frame) (action : XkbAction) : Frame :=
  match action.type.filterFunc with
  | none => fr
  | some _ =>
    let action := resolveAction km fr.state action
    match action.type.filterFunc with
    | none => fr
    | some func => (fr.startFilter k.addr action func).1

/-- `xkb_filter_apply_all`, with the function that clears all latches and locks. A
filter appends at most two slots to the array, and the appended ones append none. -/
def xkbFilterApplyAllWith (clearAll : Frame → Frame) (km : XkbKeymap) (fr : Frame) (k : KeyRef)
    (dir : KeyDirection) : Frame :=
  let (fr, consumed) := runFilters clearAll k dir (3 * fr.state.filters.length) 0 fr false
  if consumed || dir == .up then fr
  else (xkbKeyGetActions fr.state.toXkbState k.key).foldl (startAction km k) fr

/-- The press of a key, as seen by the filters. -/
def xkbFilterPress : Frame :=
  xkbFilterApplyAllWith id km fr k .down

/-! ### Latches and locks out of band -/

/-- `synthetic_key_type`. -/
def syntheticKeyType : XkbKeyType := { numLevels := 1, entries := [{}] }

/-- A key with one level that holds one internal action. -/
def syntheticBreakKey (addr : KeyAddr) (flags clearLatchedMods : BitVec 32) : KeyRef :=
  { addr := addr
    key :=
      { groups := [
          { type := syntheticKeyType
            levels := [{ actions := [
              { type := .internal
                internal := { flags := flags, clearLatchedMods := clearLatchedMods } }] }] }] } }

/-- The key `synthetic_key`, which has no groups. -/
def syntheticKey : KeyRef := ⟨.syntheticKey, {}⟩

/-- Start a latch of `synthetic_key` and release the key, for that filter alone. -/
def Frame.tapLatch (action : XkbAction) (func : FilterFunc) : Frame :=
  let started := fr.startFilter .syntheticKey action func
  let f := started.1.state.filters.getD started.2 {}
  (func.call id started.1 f syntheticKey .up).store started.2

/-- `update_latch_modifiers`. -/
def updateLatchModifiers (mask latches : BitVec 32) : Frame :=
  let clear := mask &&& ~~~latches
  let fr := fr.mapComponents fun c => { c with latchedMods := c.latchedMods &&& ~~~clear }
  let fr := xkbFilterPress km fr
    (syntheticBreakKey .syntheticKeyBreakModLatch internalBreaksModLatch clear)
  fr.tapLatch { type := .modLatch, mods := { mods := { mask := mask &&& latches } } } .modLatch

/-- `update_latch_group`. -/
def updateLatchGroup (group : BitVec 32) : Frame :=
  let fr := xkbFilterPress km fr
    (syntheticBreakKey .syntheticKeyBreakGroupLatch internalBreaksGroupLatch 0#32)
  fr.tapLatch { type := .groupLatch, group := { flags := actionAbsoluteSwitch, group := group } }
    .groupLatch

/-- `struct xkb_state_components_update`. -/
structure XkbStateComponentsUpdate where
  components : BitVec 32 := 0#32
  affectLatchedMods : BitVec 32 := 0#32
  latchedMods : BitVec 32 := 0#32
  latchedLayout : BitVec 32 := 0#32
  affectLockedMods : BitVec 32 := 0#32
  lockedMods : BitVec 32 := 0#32
  lockedLayout : BitVec 32 := 0#32
  affectControls : BitVec 32 := 0#32
  controls : BitVec 32 := 0#32
  deriving DecidableEq, Repr, Inhabited

/-- The locks of `state_update_latched_locked`. -/
def updateLocks (update : XkbStateComponentsUpdate) (c : StateComponents) : StateComponents :=
  let affect := resolveToCanonicalMods km update.affectLockedMods
  let locked := resolveToCanonicalMods km update.lockedMods
  { c with
    lockedMods := if affect = 0#32 then c.lockedMods
      else (c.lockedMods &&& ~~~affect) ||| (locked &&& affect)
    lockedGroup := if anyBit update.components xkbStateLayoutLocked then update.lockedLayout
      else c.lockedGroup }

/-- `state_update_latched_locked`. -/
def stateUpdateLatchedLocked (update : XkbStateComponentsUpdate) : Frame :=
  let fr := fr.mapComponents (updateLocks km update)
  let affect := resolveToCanonicalMods km update.affectLatchedMods
  let fr := if affect = 0#32 then fr
    else updateLatchModifiers km fr affect (resolveToCanonicalMods km update.latchedMods)
  if anyBit update.components xkbStateLayoutLatched then updateLatchGroup km fr update.latchedLayout
  else fr

/-- The update made by `clear_all_latches_and_locks`. -/
def clearAllUpdate : XkbStateComponentsUpdate where
  components := xkbStateModsLatched ||| xkbStateModsLocked ||| xkbStateLayoutLatched |||
    xkbStateLayoutLocked
  affectLatchedMods := 0xffffffff#32
  affectLockedMods := 0xffffffff#32

/-- `clear_all_latches_and_locks`. -/
def clearAllLatchesAndLocks : Frame :=
  stateUpdateLatchedLocked km fr clearAllUpdate

/-- `xkb_filter_apply_all`. -/
def xkbFilterApplyAll : Frame :=
  xkbFilterApplyAllWith (clearAllLatchesAndLocks km) km fr k dir

/-- `xkb_state_update_derived`, on the frame of an event. -/
def Frame.updateDerived : Frame :=
  fr.mapComponents (deriveComponents km fr.state.outOfRangeGroup)

/-- `state_update_enabled_controls`. -/
def stateUpdateEnabledControls (affect controls : BitVec 32) : Frame :=
  let hadStickyKeys := anyBit fr.state.components.controls controlStickyKeys
  let affect := affect &&& controlAllBoolean
  let fr := fr.mapComponents fun c =>
    { c with controls := (c.controls &&& ~~~affect) ||| (controls &&& affect) }
  let fr := if hadStickyKeys && !anyBit fr.state.components.controls controlStickyKeys
    then clearAllLatchesAndLocks km fr else fr
  fr.updateDerived km

/-! ### The update of the depressed modifiers -/

/-- One turn of the loop over `set_mods`. -/
def setModsStep (i : Fin 32) : XkbServerState :=
  if s.setMods.getLsbD i then
    { s with
      modKeyCount := Function.update s.modKeyCount i (int16 (s.modKeyCount i + 1))
      components.baseMods := s.components.baseMods ||| BitVec.twoPow 32 i
      setMods := s.setMods &&& ~~~BitVec.twoPow 32 i }
  else s

/-- One turn of the loop over `clear_mods`. -/
def clearModsStep (i : Fin 32) : XkbServerState :=
  if s.clearMods.getLsbD i then
    let count := int16 (s.modKeyCount i - 1)
    { s with
      modKeyCount := Function.update s.modKeyCount i (if count ≤ 0 then 0 else count)
      components.baseMods := if count ≤ 0 then s.components.baseMods &&& ~~~BitVec.twoPow 32 i
        else s.components.baseMods
      clearMods := s.clearMods &&& ~~~BitVec.twoPow 32 i }
  else s

/-- The two loops that apply `set_mods` and `clear_mods` to the depressed modifiers. -/
def updateBaseMods : XkbServerState :=
  (List.finRange 32).foldl clearModsStep ((List.finRange 32).foldl setModsStep s)

/-- The part shared by `xkb_state_update_key` and `xkb_machine_process_key`: run the
filters, apply `set_mods` and `clear_mods`, and derive. -/
def handleKey : Frame :=
  let fr := { fr with state := { fr.state with setMods := 0#32, clearMods := 0#32 } }
  let fr := xkbFilterApplyAll km fr k dir
  Frame.updateDerived km { fr with state := updateBaseMods fr.state }

/-- Whether the press of a key deactivates the sticky keys: a modifier is held down
already. -/
def disablesStickyKeys : Bool :=
  dir == .down && anyBit s.components.controls controlStickyKeys &&
    anyBit s.flags a11yStickyKeysNoSimultaneousKeys && s.components.baseMods != 0#32

/-- The deactivation of the sticky keys at the start of a key event. -/
def autoDisableStickyKeys : Frame :=
  if disablesStickyKeys fr.state dir then stateUpdateEnabledControls km fr controlStickyKeys 0#32
  else fr

/-! ### The public calls -/

/-- `xkb_server_state_init`. -/
def xkbServerStateInit (mode : StateMode) (affect flags : BitVec 32) : XkbServerState :=
  { toXkbState := xkbStateUpdateDerived km { mode := mode }
    flags := if km.format ≠ .textV1 ∧ anyBit affect a11yLatchSimultaneousKeys = false
      then flags ||| a11yLatchSimultaneousKeys else flags }

/-- `xkb_state_new`. -/
def xkbStateNew : XkbServerState :=
  xkbServerStateInit km .legacyMixedState 0#32 0#32

/-- `xkb_state_new_with_mode` for the client modes (`xkb_client_state_init`). -/
def xkbClientStateNew (mode : StateMode) : XkbState :=
  xkbStateUpdateDerived km { mode := mode }

/-- The guard of the calls that a client-only state must not make. -/
def XkbState.isServer (state : XkbState) : Bool :=
  StateMode.serverCompanion.index < state.mode.index

/-- The key of a key event that is not ignored: unknown keys are, and so are repeats
of a key that does not repeat. -/
def eventKey (kc : ℕ) (dir : KeyDirection) : Option KeyRef :=
  (keyOf km kc).filter fun k => dir != .repeated || k.key.repeats

/-- `xkb_state_update_key`: the new state and the changed components. -/
def xkbStateUpdateKey (kc : ℕ) (dir : KeyDirection) : XkbServerState × BitVec 32 :=
  if s.isServer = false then (s, 0#32)
  else match eventKey km kc dir with
    | none => (s, 0#32)
    | some k =>
      let fr := autoDisableStickyKeys km ⟨s, none⟩ dir
      let prev := fr.state.components
      let fr := handleKey km fr k dir
      (fr.state, getStateComponentChanges prev fr.state.components)

/-- `xkb_state_update_latched_locked`. -/
def xkbStateUpdateLatchedLocked (affectLatchedMods latchedMods : BitVec 32)
    (affectLatchedLayout : Bool) (latchedLayout affectLockedMods lockedMods : BitVec 32)
    (affectLockedLayout : Bool) (lockedLayout : BitVec 32) : XkbServerState × BitVec 32 :=
  if s.isServer = false then (s, 0#32)
  else
    let update : XkbStateComponentsUpdate :=
      { components :=
          (if affectLatchedMods ≠ 0#32 ∨ latchedMods ≠ 0#32 then xkbStateModsLatched else 0#32) |||
          (if affectLockedMods ≠ 0#32 ∨ lockedMods ≠ 0#32 then xkbStateModsLocked else 0#32) |||
          (if affectLatchedLayout then xkbStateLayoutLatched else 0#32) |||
          (if affectLockedLayout then xkbStateLayoutLocked else 0#32)
        affectLatchedMods := affectLatchedMods
        latchedMods := latchedMods
        latchedLayout := latchedLayout
        affectLockedMods := affectLockedMods
        lockedMods := lockedMods
        lockedLayout := lockedLayout }
    let fr := (stateUpdateLatchedLocked km ⟨s, none⟩ update).updateDerived km
    (fr.state, getStateComponentChanges s.components fr.state.components)

/-- The error codes of the out-of-band updates. -/
inductive XkbErrorCode
  | unexpectedStateMode | unsupportedLayoutOutOfRangePolicy | unsupportedLayoutIndex
  deriving DecidableEq, Repr, Inhabited

/-- `struct xkb_layout_policy_update`; `none` is a policy that is not supported. -/
structure XkbLayoutPolicyUpdate where
  policy : Option LayoutOutOfRangePolicy := some .wrap
  redirect : ℕ := 0
  deriving DecidableEq, Repr, Inhabited

/-- `struct xkb_state_update`; `none` is a `NULL` pointer. -/
structure XkbStateUpdate where
  components : Option XkbStateComponentsUpdate := none
  layoutPolicy : Option XkbLayoutPolicyUpdate := none
  deriving DecidableEq, Repr, Inhabited

/-- `state_update_layout_policy`. -/
def stateUpdateLayoutPolicy (range : OutOfRangeGroup) (update : XkbLayoutPolicyUpdate) :
    Except XkbErrorCode OutOfRangeGroup :=
  match update.policy with
  | none => .error .unsupportedLayoutOutOfRangePolicy
  | some .redirect =>
    if update.redirect < km.numGroups then .ok ⟨.redirect, update.redirect⟩
    else .error .unsupportedLayoutIndex
  | some policy => .ok { range with policy := policy }

/-- The policy after an update that may leave it alone. -/
def layoutPolicyAfter (range : OutOfRangeGroup) :
    Option XkbLayoutPolicyUpdate → Except XkbErrorCode OutOfRangeGroup
  | none => .ok range
  | some update => stateUpdateLayoutPolicy km range update

/-- The controls first, then the latches and locks. -/
def updateComponents : Option XkbStateComponentsUpdate → Frame
  | none => fr
  | some update =>
    stateUpdateLatchedLocked km
      (stateUpdateEnabledControls km fr update.affectControls update.controls) update

/-- The part shared by `xkb_state_update_synthetic` and
`xkb_machine_process_synthetic`: the layout policy, the components and the derived
state. An error leaves the state as it is. -/
def applyStateUpdate (update : XkbStateUpdate) : Except XkbErrorCode Frame :=
  (layoutPolicyAfter km fr.state.outOfRangeGroup update.layoutPolicy).map fun range =>
    let fr := { fr with state := { fr.state with outOfRangeGroup := range } }
    (updateComponents km fr update.components).updateDerived km

/-- `xkb_state_update_synthetic`: the new state and the changed components. -/
def xkbStateUpdateSynthetic (update : XkbStateUpdate) :
    Except XkbErrorCode (XkbServerState × BitVec 32) :=
  if s.isServer = false then .error .unexpectedStateMode
  else (applyStateUpdate km ⟨s, none⟩ update).map fun fr =>
    (fr.state, getStateComponentChanges s.components fr.state.components)

/-- The guard of the calls reserved to client states and to the legacy states. -/
def XkbState.isClient (state : XkbState) : Bool :=
  state.mode == .clientState || state.mode == .legacyMixedState

/-- `xkb_state_update_mask`. -/
def xkbStateUpdateMask (state : XkbState)
    (baseMods latchedMods lockedMods baseGroup latchedGroup lockedGroup : BitVec 32) :
    XkbState × BitVec 32 :=
  if state.isClient = false then (state, 0#32)
  else
    let new := xkbStateUpdateDerived km
      { state with
        components :=
          { state.components with
            baseMods := resolveToCanonicalMods km baseMods
            latchedMods := resolveToCanonicalMods km latchedMods
            lockedMods := resolveToCanonicalMods km lockedMods
            baseGroup := baseGroup
            latchedGroup := latchedGroup
            lockedGroup := lockedGroup } }
    (new, getStateComponentChanges state.components new.components)

/-- `serialize_mods`. -/
def serializeMods (c : StateComponents) (type : BitVec 32) : BitVec 32 :=
  if anyBit type xkbStateModsEffective then c.mods
  else
    (if anyBit type xkbStateModsDepressed then c.baseMods else 0#32) |||
    (if anyBit type xkbStateModsLatched then c.latchedMods else 0#32) |||
    (if anyBit type xkbStateModsLocked then c.lockedMods else 0#32)

/-- `serialize_layout`. -/
def serializeLayout (c : StateComponents) (type : BitVec 32) : BitVec 32 :=
  if anyBit type xkbStateLayoutEffective then BitVec.ofNat 32 c.group
  else
    (if anyBit type xkbStateLayoutDepressed then c.baseGroup else 0#32) +
    (if anyBit type xkbStateLayoutLatched then c.latchedGroup else 0#32) +
    (if anyBit type xkbStateLayoutLocked then c.lockedGroup else 0#32)

end Xkbcommon
