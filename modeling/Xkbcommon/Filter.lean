import Xkbcommon.Components
import Xkbcommon.Lib.Bitfield
import Xkbcommon.Lib.Counter

/-!
# Filters: what an action does while its key is down

An action of a key does not act once: it starts a *filter*, which sees every later
key event until it ends. This file embeds the filters of `src/state.c` one by one –
for each kind of action the function that starts it (`…New`) and the function that
sees the events (`…Func`).

A filter function of the source gets the server state, the event queue (or `NULL`
from the legacy entry points) and a pointer to its own slot of the filter array. The
first two are a `Xkbcommon.Frame`; the slot is passed and returned by value, and
`Xkbcommon.FilterStep` collects what one call leaves behind.

The base modifiers are not written by the filters: each filter adds to the two masks
`setMods` and `clearMods`, which are applied once at the end of the event. Groups,
locked and latched modifiers and controls are written at once.
-/

namespace Xkbcommon

open Masks

/-! ### Events and the server state -/

/-- `enum xkb_key_direction`. -/
inductive KeyDirection
  | up | down | repeated
  deriving DecidableEq, Repr, Inhabited

/-- `struct xkb_event`: a key event of one of the three types, or a change of
components. -/
inductive XkbEvent
  | key (direction : KeyDirection) (keycode : ℕ)
  | componentsChange (components : StateComponents) (changed : BitVec 32)
  deriving DecidableEq, Repr

/-- The function a filter slot points to; a free slot points to none. -/
inductive FilterFunc
  | modSet | modLatch | modLock | groupSet | groupLatch | groupLock | ctrls | redirectKey
  deriving DecidableEq, Repr

/-- `struct xkb_filter`. -/
structure XkbFilter where
  action : XkbAction := {}
  key : KeyAddr := .null
  func : Option FilterFunc := none
  priv : BitVec 32 := 0#32
  refcnt : ℤ := 0
  deriving DecidableEq, Repr, Inhabited

/-! The bits of `enum xkb_a11y_flags`. -/

def a11yStickyKeysNoSimultaneousKeys : BitVec 32 := 0x1#32
def a11yStickyKeysLatchToLock : BitVec 32 := 0x2#32
def a11yLatchSimultaneousKeys : BitVec 32 := 0x4#32

/-- `struct xkb_server_state`. The count of the keys that hold a modifier is an
`int16_t`, kept in range by `Counter.int16`. -/
structure XkbServerState extends XkbState where
  filters : List XkbFilter := []
  flags : BitVec 32 := 0#32
  setMods : BitVec 32 := 0#32
  clearMods : BitVec 32 := 0#32
  modKeyCount : Fin 32 → ℤ := fun _ => 0
  deriving DecidableEq

/-- What the functions of `src/state.c` that run during one event have access to: the
server state and the event queue, `none` when it is `NULL`. -/
structure Frame where
  state : XkbServerState
  events : Option (List XkbEvent)

variable (fr : Frame) (f : XkbFilter) (k : KeyRef) (dir : KeyDirection)

/-- Update the components of the state. -/
def Frame.mapComponents (g : StateComponents → StateComponents) : Frame :=
  { fr with state := { fr.state with components := g fr.state.components } }

/-- `state->set_mods |= mask`. -/
def Frame.addSetMods (mask : BitVec 32) : Frame :=
  { fr with state := { fr.state with setMods := fr.state.setMods ||| mask } }

/-- `state->clear_mods |= mask`. -/
def Frame.addClearMods (mask : BitVec 32) : Frame :=
  { fr with state := { fr.state with clearMods := fr.state.clearMods ||| mask } }

/-- `enum xkb_filter_result`. -/
inductive FilterResult
  | consume | proceed
  deriving DecidableEq, Repr

/-- What one call of a filter function leaves behind: the frame, the filter slot and
the verdict on the event. -/
structure FilterStep where
  frame : Frame
  filter : XkbFilter
  result : FilterResult

/-- The switch on the direction shared by the filters that count their key: a press
or a repeat is consumed, a release is consumed until the count drops to zero, and
then `ending` runs. -/
def countedSwitch (ending : XkbFilter → FilterStep) : FilterStep :=
  match dir with
  | .down => ⟨fr, { f with refcnt := f.refcnt + 1 }, .consume⟩
  | .repeated => ⟨fr, f, .consume⟩
  | .up =>
    if 0 < f.refcnt - 1 then ⟨fr, { f with refcnt := f.refcnt - 1 }, .consume⟩
    else ending { f with refcnt := f.refcnt - 1 }

/-! ### Group filters -/

/-- `apply_group_delta`: set a group component, or add to it. -/
def applyGroupDelta (action : GroupAction) (component : BitVec 32) : BitVec 32 :=
  if anyBit action.flags actionAbsoluteSwitch then action.group else component + action.group

/-- `xkb_filter_group_set_new`: the previous base group is saved in `priv`. -/
def xkbFilterGroupSetNew : Frame × XkbFilter :=
  (fr.mapComponents fun c => { c with baseGroup := applyGroupDelta f.action.group c.baseGroup },
    { f with priv := fr.state.components.baseGroup })

/-- `xkb_filter_group_set_func`. -/
def xkbFilterGroupSetFunc : FilterStep :=
  if k.addr ≠ f.key then
    ⟨fr, { f with action.group.flags := f.action.group.flags &&& ~~~actionLockClear }, .proceed⟩
  else
    countedSwitch fr f dir fun f =>
      ⟨fr.mapComponents fun c =>
          { c with
            baseGroup := f.priv
            lockedGroup := if anyBit f.action.group.flags actionLockClear then 0#32
              else c.lockedGroup },
        { f with func := none }, .proceed⟩

/-- `xkb_filter_group_lock_new`. -/
def xkbFilterGroupLockNew : Frame × XkbFilter :=
  if anyBit f.action.group.flags actionLockOnRelease then (fr, f)
  else
    (fr.mapComponents fun c =>
      { c with lockedGroup := applyGroupDelta f.action.group c.lockedGroup }, f)

/-- `xkb_filter_group_lock_func`. -/
def xkbFilterGroupLockFunc : FilterStep :=
  if k.addr ≠ f.key then
    if anyBit f.action.group.flags actionLockOnRelease && dir == .down then
      -- another key was pressed after the locking key: no lock on release
      ⟨fr, { f with action.group.flags := f.action.group.flags &&& ~~~actionLockOnRelease },
        .proceed⟩
    else ⟨fr, f, .proceed⟩
  else
    countedSwitch fr f dir fun f =>
      ⟨if anyBit f.action.group.flags actionLockOnRelease then
          fr.mapComponents fun c =>
            { c with lockedGroup := applyGroupDelta f.action.group c.lockedGroup }
        else fr,
        { f with func := none }, .proceed⟩

/-- `xkb_action_breaks_latch`. -/
def xkbActionBreaksLatch (action : XkbAction) (flag mask : BitVec 32) : Bool :=
  match action.type with
  | .none | .void | .ptrButton | .ptrLock | .ctrlSet | .ctrlLock | .switchVt | .terminate
  | .redirectKey => true
  | .internal =>
    anyBit action.internal.flags flag && (action.internal.clearLatchedMods &&& mask == mask)
  | _ => false

/-! `enum xkb_key_latch_state`, as it is stored in `priv`. -/

def noLatch : BitVec 32 := 0#32
def latchKeyDown : BitVec 32 := 1#32
def latchPending : BitVec 32 := 2#32

/-- `union group_latch_priv`: the latch state in the two low bits, the group delta in
a signed field of 30 bits above them. -/
def groupLatchPriv (latch delta : BitVec 32) : BitVec 32 := Bitfield.pack 2 delta latch

/-- The field `latch` of `union group_latch_priv`. -/
def groupLatchLatch (priv : BitVec 32) : BitVec 32 := Bitfield.low 2 priv

/-- The field `group_delta` of `union group_latch_priv`. -/
def groupLatchDelta (priv : BitVec 32) : BitVec 32 := Bitfield.high 2 priv

/-- `xkb_filter_group_latch_new`. -/
def xkbFilterGroupLatchNew : Frame × XkbFilter :=
  let delta := if anyBit f.action.group.flags actionAbsoluteSwitch
    then f.action.group.group - fr.state.components.baseGroup else f.action.group.group
  (fr.mapComponents fun c => { c with baseGroup := applyGroupDelta f.action.group c.baseGroup },
    { f with priv := groupLatchPriv latchKeyDown delta })

/-- What a pending latch does with the actions of a newly pressed key. -/
inductive LatchVerdict
  | promote | breaks | keep
  deriving DecidableEq, Repr

/-- The loop of `xkb_filter_group_latch_func` over the actions of the pressed key, for
a pending latch. A matching action without `latchToLock` is skipped. -/
def groupLatchVerdict (latching : GroupAction) (stickyKeys : Bool) : List XkbAction → LatchVerdict
  | [] => .keep
  | action :: actions =>
    if (action.type = .groupLatch ∧ action.group.group = latching.group ∧
          action.group.flags = latching.flags) ∨
        (action.type = .groupSet ∧ stickyKeys ∧
          action.group.flags = latching.flags &&& ~~~actionLatchToLock) then
      if anyBit latching.flags actionLatchToLock && latching.group != 0#32 then .promote
      else groupLatchVerdict latching stickyKeys actions
    else if xkbActionBreaksLatch action internalBreaksGroupLatch 0#32 then .breaks
    else groupLatchVerdict latching stickyKeys actions

/-- Whether the press of a key with these actions stops a latch whose key is still
down from triggering. -/
def preventsLatch (flags : BitVec 32) (actions : List XkbAction) (flag mask : BitVec 32) : Bool :=
  if anyBit flags a11yLatchSimultaneousKeys then
    actions.any fun action => xkbActionBreaksLatch action flag mask
  else true

/-- `xkb_filter_group_latch_func`. -/
def xkbFilterGroupLatchFunc : FilterStep :=
  let latch := groupLatchLatch f.priv
  let delta := groupLatchDelta f.priv
  match dir with
  | .down =>
    let actions := xkbKeyGetActions fr.state.toXkbState k.key
    if latch = latchKeyDown then
      ⟨fr, if preventsLatch fr.state.flags actions internalBreaksGroupLatch 0#32
          then { f with priv := groupLatchPriv noLatch delta } else f, .proceed⟩
    else if latch = latchPending then
      match groupLatchVerdict f.action.group
          (anyBit fr.state.components.controls controlStickyKeys) actions with
      | .promote =>
        let (fr, f) := xkbFilterGroupLockNew fr
          { f with action.type := .groupLock, func := some .groupLock }
        ⟨fr.mapComponents fun c => { c with latchedGroup := c.latchedGroup - delta },
          { f with key := k.addr }, .consume⟩
      | .breaks =>
        ⟨fr.mapComponents fun c => { c with latchedGroup := c.latchedGroup - delta },
          { f with func := none }, .proceed⟩
      | .keep => ⟨fr, f, .proceed⟩
    else ⟨fr, f, .proceed⟩
  | .repeated => ⟨fr, f, if k.addr = f.key then .consume else .proceed⟩
  | .up =>
    if k.addr ≠ f.key then ⟨fr, f, .proceed⟩
    else if anyBit f.action.group.flags actionLockClear &&
        fr.state.components.lockedGroup != 0#32 then
      -- clear the locks instead of latching
      ⟨fr.mapComponents fun c =>
          { c with
            latchedGroup := if latch = latchPending then c.latchedGroup - delta
              else c.latchedGroup
            baseGroup := if latch = latchPending then c.baseGroup else c.baseGroup - delta
            lockedGroup := 0#32 },
        { f with func := none }, .proceed⟩
    else if latch = noLatch then
      ⟨fr.mapComponents fun c => { c with baseGroup := c.baseGroup - delta },
        { f with func := none }, .proceed⟩
    else if latch = latchKeyDown then
      ⟨fr.mapComponents fun c =>
          { c with
            baseGroup := c.baseGroup - delta
            latchedGroup := c.latchedGroup + delta },
        { f with priv := groupLatchPriv latchPending delta }, .proceed⟩
    else ⟨fr, f, .proceed⟩

/-! ### Modifier filters -/

/-- `ACTION_UNLOCK_ON_PRESS | ACTION_LOCK_CLEAR`. -/
def unlockAndClear : BitVec 32 := actionUnlockOnPress ||| actionLockClear

/-- `xkb_filter_mod_set_new`. With both flags, the locked modifiers of the action are
unlocked and only the others are set. -/
def xkbFilterModSetNew : Frame × XkbFilter :=
  let mask := f.action.mods.mods.mask
  if f.action.mods.flags &&& unlockAndClear = unlockAndClear then
    let priv := mask &&& ~~~fr.state.components.lockedMods
    ((fr.mapComponents fun c => { c with lockedMods := c.lockedMods &&& ~~~mask }).addSetMods priv,
      { f with priv := priv })
  else (fr.addSetMods mask, { f with priv := mask })

/-- `xkb_filter_mod_set_func`. -/
def xkbFilterModSetFunc : FilterStep :=
  if k.addr ≠ f.key then
    ⟨fr, { f with action.mods.flags := f.action.mods.flags &&& ~~~actionLockClear }, .proceed⟩
  else
    countedSwitch fr f dir fun f =>
      let fr := fr.addClearMods f.priv
      ⟨if f.action.mods.flags &&& unlockAndClear = actionLockClear then
          fr.mapComponents fun c =>
            { c with lockedMods := c.lockedMods &&& ~~~f.action.mods.mods.mask }
        else fr,
        { f with func := none }, .proceed⟩

/-- `xkb_filter_mod_lock_new`: `priv` holds the modifiers that were locked already. -/
def xkbFilterModLockNew : Frame × XkbFilter :=
  let mask := f.action.mods.mods.mask
  let priv := fr.state.components.lockedMods &&& mask
  if priv != 0#32 && anyBit f.action.mods.flags actionUnlockOnPress then
    -- unlock on press, and no further action
    (if anyBit f.action.mods.flags actionLockNoUnlock then fr
      else fr.mapComponents fun c => { c with lockedMods := c.lockedMods &&& ~~~priv },
      { f with priv := priv, func := none })
  else
    let fr := fr.addSetMods mask
    (if anyBit f.action.mods.flags actionLockNoLock then fr
      else fr.mapComponents fun c => { c with lockedMods := c.lockedMods ||| mask },
      { f with priv := priv })

/-- `xkb_filter_mod_lock_func`. -/
def xkbFilterModLockFunc : FilterStep :=
  if k.addr ≠ f.key then ⟨fr, f, .proceed⟩
  else
    countedSwitch fr f dir fun f =>
      let fr := fr.addClearMods f.action.mods.mods.mask
      ⟨if anyBit f.action.mods.flags actionLockNoUnlock then fr
        else fr.mapComponents fun c => { c with lockedMods := c.lockedMods &&& ~~~f.priv },
        { f with func := none }, .proceed⟩

/-- `ACTION_UNLOCK_ON_PRESS | ACTION_LATCH_ON_PRESS`: latch-on-press with clear-locks
implies unlock-on-press. -/
def unlockOnPress : BitVec 32 := actionUnlockOnPress ||| actionLatchOnPress

/-- `xkb_filter_mod_latch_new`. -/
def xkbFilterModLatchNew : Frame × XkbFilter :=
  let mask := f.action.mods.mods.mask
  if anyBit f.action.mods.flags actionLockClear && anyBit f.action.mods.flags unlockOnPress &&
      fr.state.components.lockedMods &&& mask == mask then
    (fr.mapComponents fun c => { c with lockedMods := c.lockedMods &&& ~~~mask },
      { f with func := none })
  else if anyBit f.action.mods.flags actionLatchOnPress then
    (fr.mapComponents fun c => { c with latchedMods := c.latchedMods ||| mask },
      { f with priv := latchPending })
  else (fr.addSetMods mask, { f with priv := latchKeyDown })

/-- The loop of `xkb_filter_mod_latch_func` over the actions of the pressed key, for a
pending latch. -/
def modLatchVerdict (latching : ModAction) (stickyKeys : Bool) : List XkbAction → LatchVerdict
  | [] => .keep
  | action :: actions =>
    if ((action.type = .modLatch ∧ action.mods.flags = latching.flags) ∨
          (action.type = .modSet ∧ stickyKeys ∧
            action.mods.flags = latching.flags &&& ~~~actionLatchToLock)) ∧
        action.mods.mods.mask = latching.mods.mask then .promote
    else if xkbActionBreaksLatch action internalBreaksModLatch latching.mods.mask then .breaks
    else modLatchVerdict latching stickyKeys actions

/-- The mutation of a pending latch into a lock or a plain set, when the same
modifier is latched again. -/
def promoteModLatch : Frame × XkbFilter :=
  if anyBit f.action.mods.flags actionLatchToLock then
    xkbFilterModLockNew fr { f with action.type := .modLock, func := some .modLock }
  else xkbFilterModSetNew fr { f with action.type := .modSet, func := some .modSet }

/-- `xkb_filter_mod_latch_func`. -/
def xkbFilterModLatchFunc : FilterStep :=
  let mask := f.action.mods.mods.mask
  match dir with
  | .down =>
    let actions := xkbKeyGetActions fr.state.toXkbState k.key
    if f.priv = latchKeyDown then
      ⟨fr, if preventsLatch fr.state.flags actions internalBreaksModLatch mask
          then { f with priv := noLatch } else f, .proceed⟩
    else if f.priv = latchPending then
      match modLatchVerdict f.action.mods
          (anyBit fr.state.components.controls controlStickyKeys) actions with
      | .promote =>
        let (fr, f) := promoteModLatch fr f
        ⟨fr.mapComponents fun c => { c with latchedMods := c.latchedMods &&& ~~~mask },
          { f with key := k.addr }, .consume⟩
      | .breaks =>
        ⟨fr.mapComponents fun c => { c with latchedMods := c.latchedMods &&& ~~~mask },
          { f with func := none }, .proceed⟩
      | .keep => ⟨fr, f, .proceed⟩
    else ⟨fr, f, .proceed⟩
  | .repeated => ⟨fr, f, if k.addr = f.key then .consume else .proceed⟩
  | .up =>
    if k.addr ≠ f.key then ⟨fr, f, .proceed⟩
    else if anyBit f.action.mods.flags actionLockClear &&
        !anyBit f.action.mods.flags unlockOnPress &&
        fr.state.components.lockedMods &&& mask == mask then
      -- clear the locks instead of latching
      ⟨(if f.priv = latchPending
          then fr.mapComponents fun c => { c with latchedMods := c.latchedMods &&& ~~~mask }
          else fr.addClearMods mask).mapComponents
            fun c => { c with lockedMods := c.lockedMods &&& ~~~mask },
        { f with func := none }, .proceed⟩
    else if f.priv = noLatch then
      ⟨fr.addClearMods mask, { f with func := none }, .proceed⟩
    else if !anyBit f.action.mods.flags actionLatchOnPress then
      -- also taken by a latch that is pending already
      ⟨(fr.addClearMods mask).mapComponents
          fun c => { c with latchedMods := c.latchedMods ||| mask },
        { f with priv := latchPending }, .proceed⟩
    else ⟨fr, f, .proceed⟩

/-! ### Control filters -/

/-- `xkb_filter_ctrls_new`. -/
def xkbFilterCtrlsNew : Frame × XkbFilter :=
  let ctrls := f.action.ctrls.ctrls
  let controls := fr.state.components.controls
  (if f.action.type = .ctrlSet ∨ anyBit f.action.ctrls.flags actionLockNoLock = false
    then fr.mapComponents fun c => { c with controls := c.controls ||| ctrls } else fr,
    { f with priv := if f.action.type = .ctrlSet then ~~~controls &&& ctrls
        else controls &&& ctrls })

/-- `xkb_filter_ctrls_func`. Disabling the sticky keys clears all latches and locks:
`clearAll` is `clear_all_latches_and_locks`, which itself runs the filters and is
therefore tied in later. -/
def xkbFilterCtrlsFunc (clearAll : Frame → Frame) (fr : Frame) (f : XkbFilter) (k : KeyRef)
    (dir : KeyDirection) : FilterStep :=
  if k.addr ≠ f.key then ⟨fr, f, .proceed⟩
  else
    countedSwitch fr f dir fun f =>
      ⟨if f.action.type = .ctrlSet ∨ anyBit f.action.ctrls.flags actionLockNoUnlock = false then
          let old := fr.state.components.controls
          let fr := fr.mapComponents fun c => { c with controls := c.controls &&& ~~~f.priv }
          if anyBit old controlStickyKeys &&
              !anyBit fr.state.components.controls controlStickyKeys then clearAll fr
          else fr
        else fr,
        { f with func := none }, .proceed⟩

/-! ### Key redirection -/

/-- The reference state of `append_redirect_key_events`: the last change of components
in the queue, otherwise the current components. -/
def lastComponents (current : StateComponents) (queue : List XkbEvent) : StateComponents :=
  match queue.reverse.findSome? fun
      | .componentsChange c _ => some c
      | .key _ _ => none with
  | some c => c
  | none => current

/-- The components a redirection presents to the clients. -/
def redirectComponents (redirect : RedirectKeyAction) (c : StateComponents) : StateComponents :=
  let override := fun m : BitVec 32 => (m &&& ~~~redirect.affect) ||| redirect.mods
  { c with
    baseMods := override c.baseMods
    latchedMods := override c.latchedMods
    lockedMods := override c.lockedMods
    mods := override c.mods }

/-- `append_redirect_key_events`: the overridden modifiers, the redirected key event
and the restored modifiers. -/
def appendRedirectKeyEvents (current : StateComponents) (queue : List XkbEvent)
    (redirect : RedirectKeyAction) (dir : KeyDirection) : List XkbEvent :=
  let last := lastComponents current queue
  let new := redirectComponents redirect last
  let changed := if redirect.affect = 0#32 then 0#32 else getStateComponentChanges last new
  if changed = 0#32 then queue ++ [.key dir redirect.keycode]
  else queue ++ [.componentsChange new changed, .key dir redirect.keycode,
    .componentsChange last changed]

/-- `append_redirect_key_events` on a frame. The legacy entry points have no queue and
never start a redirection. -/
def Frame.appendRedirect (redirect : RedirectKeyAction) (dir : KeyDirection) : Frame :=
  { fr with
    events := fr.events.map fun queue =>
      appendRedirectKeyEvents fr.state.components queue redirect dir }

/-- `xkb_filter_redirect_key_new`. -/
def xkbFilterRedirectKeyNew : Frame × XkbFilter :=
  if fr.events.isNone || f.action.redirect.keycode == xkbKeycodeInvalid then
    (fr, { f with func := none })
  else (fr.appendRedirect f.action.redirect .down, f)

/-- `xkb_filter_redirect_key_func`. -/
def xkbFilterRedirectKeyFunc : FilterStep :=
  if k.addr ≠ f.key then ⟨fr, f, .proceed⟩
  else
    match dir with
    | .up => ⟨fr.appendRedirect f.action.redirect .up, { f with func := none }, .consume⟩
    | .down =>
      if (xkbKeyGetActions fr.state.toXkbState k.key).any fun action =>
          action.type == .redirectKey && action.redirect.keycode != f.action.redirect.keycode then
        -- one action redirects to a different key: release first
        ⟨fr.appendRedirect f.action.redirect .up, { f with func := none }, .proceed⟩
      else ⟨fr.appendRedirect f.action.redirect .down, f, .consume⟩
    | .repeated => ⟨fr.appendRedirect f.action.redirect .repeated, f, .consume⟩

/-! ### The table of filter functions -/

/-- The `func` column of `filter_action_funcs`. -/
def XkbActionType.filterFunc : XkbActionType → Option FilterFunc
  | .modSet => some .modSet
  | .modLatch => some .modLatch
  | .modLock => some .modLock
  | .groupSet => some .groupSet
  | .groupLatch => some .groupLatch
  | .groupLock => some .groupLock
  | .ctrlSet | .ctrlLock => some .ctrls
  | .redirectKey => some .redirectKey
  | _ => Option.none

/-- The `new` column of `filter_action_funcs`. -/
def FilterFunc.start : FilterFunc → Frame → XkbFilter → Frame × XkbFilter
  | .modSet => xkbFilterModSetNew
  | .modLatch => xkbFilterModLatchNew
  | .modLock => xkbFilterModLockNew
  | .groupSet => xkbFilterGroupSetNew
  | .groupLatch => xkbFilterGroupLatchNew
  | .groupLock => xkbFilterGroupLockNew
  | .ctrls => xkbFilterCtrlsNew
  | .redirectKey => xkbFilterRedirectKeyNew

/-- The call of `filter->func`. -/
def FilterFunc.call (clearAll : Frame → Frame) :
    FilterFunc → Frame → XkbFilter → KeyRef → KeyDirection → FilterStep
  | .modSet => xkbFilterModSetFunc
  | .modLatch => xkbFilterModLatchFunc
  | .modLock => xkbFilterModLockFunc
  | .groupSet => xkbFilterGroupSetFunc
  | .groupLatch => xkbFilterGroupLatchFunc
  | .groupLock => xkbFilterGroupLockFunc
  | .ctrls => xkbFilterCtrlsFunc clearAll
  | .redirectKey => xkbFilterRedirectKeyFunc

end Xkbcommon
