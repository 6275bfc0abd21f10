import Xkbcommon.Xkbcomp.Info

/-!
# Action definitions

`src/xkbcomp/action.c`. An action is written as `SetMods(modifiers=Alt,clearLocks)`: it starts
from the defaults of its type, which statements such as `setMods.clearLocks = true` change, and
its fields are then set one after the other. Each type has a handler that sets one field.

A handler reports success, also where it ignores a field, an error after which the other fields
are still read, or one that ends the compilation (`Xkbcommon.Xkbcomp.ParserError`). A group may
depend on the number of layouts, which is not known yet; its expression is then appended to the
pending computations, and the action keeps its index in the place of the group.

Messages are left out.
-/

namespace Xkbcommon.Xkbcomp

/-! ### Names -/

/-- `enum action_field`. -/
inductive ActionField
  | clearLocks | latchToLock | genKeyEvent | report | default | affect | increment | modifiers
  | group | x | y | accel | button | value | controls | type | count | screen | same | data
  | device | keycode | modsToClear | lockOnRelease | unlockOnPress | latchOnPress
  deriving DecidableEq, Repr

/-- `fieldStrings`. -/
def fieldStrings : List (List UInt8 × ActionField) :=
  [(ascii "clearLocks", .clearLocks), (ascii "latchToLock", .latchToLock),
    (ascii "genKeyEvent", .genKeyEvent), (ascii "generateKeyEvent", .genKeyEvent),
    (ascii "report", .report), (ascii "default", .default), (ascii "affect", .affect),
    (ascii "increment", .increment), (ascii "modifiers", .modifiers), (ascii "mods", .modifiers),
    (ascii "group", .group), (ascii "x", .x), (ascii "y", .y), (ascii "accel", .accel),
    (ascii "accelerate", .accel), (ascii "repeat", .accel), (ascii "button", .button),
    (ascii "value", .value), (ascii "controls", .controls), (ascii "ctrls", .controls),
    (ascii "type", .type), (ascii "count", .count), (ascii "screen", .screen),
    (ascii "same", .same), (ascii "sameServer", .same), (ascii "data", .data),
    (ascii "device", .device), (ascii "dev", .device), (ascii "key", .keycode),
    (ascii "keycode", .keycode), (ascii "kc", .keycode), (ascii "clearmods", .modsToClear),
    (ascii "clearmodifiers", .modsToClear), (ascii "lockOnRelease", .lockOnRelease),
    (ascii "unlockOnPress", .unlockOnPress), (ascii "latchOnPress", .latchOnPress)]

/-- `stringToField`. -/
def stringToField (str : List UInt8) : Option ActionField := lookupString fieldStrings str

/-- `actionTypeNames`. -/
def actionTypeNames : List (List UInt8 × XkbActionType) :=
  [(ascii "NoAction", .none), (ascii "VoidAction", .void), (ascii "SetMods", .modSet),
    (ascii "LatchMods", .modLatch), (ascii "LockMods", .modLock), (ascii "SetGroup", .groupSet),
    (ascii "LatchGroup", .groupLatch), (ascii "LockGroup", .groupLock),
    (ascii "MovePtr", .ptrMove), (ascii "MovePointer", .ptrMove), (ascii "PtrBtn", .ptrButton),
    (ascii "PointerButton", .ptrButton), (ascii "LockPtrBtn", .ptrLock),
    (ascii "LockPtrButton", .ptrLock), (ascii "LockPointerButton", .ptrLock),
    (ascii "LockPointerBtn", .ptrLock), (ascii "SetPtrDflt", .ptrDefault),
    (ascii "SetPointerDefault", .ptrDefault), (ascii "Terminate", .terminate),
    (ascii "TerminateServer", .terminate), (ascii "SwitchScreen", .switchVt),
    (ascii "SetControls", .ctrlSet), (ascii "LockControls", .ctrlLock),
    (ascii "RedirectKey", .redirectKey), (ascii "Redirect", .redirectKey),
    (ascii "Private", .privateAction), (ascii "ISOLock", .unsupportedLegacy),
    (ascii "ActionMessage", .unsupportedLegacy), (ascii "MessageAction", .unsupportedLegacy),
    (ascii "Message", .unsupportedLegacy), (ascii "DeviceBtn", .unsupportedLegacy),
    (ascii "DevBtn", .unsupportedLegacy), (ascii "DevButton", .unsupportedLegacy),
    (ascii "DeviceButton", .unsupportedLegacy), (ascii "LockDeviceBtn", .unsupportedLegacy),
    (ascii "LockDevBtn", .unsupportedLegacy), (ascii "LockDevButton", .unsupportedLegacy),
    (ascii "LockDeviceButton", .unsupportedLegacy), (ascii "DeviceValuator", .unsupportedLegacy),
    (ascii "DevVal", .unsupportedLegacy), (ascii "DeviceVal", .unsupportedLegacy),
    (ascii "DevValuator", .unsupportedLegacy)]

/-- `stringToActionType`. -/
def stringToActionType (str : List UInt8) : Option XkbActionType :=
  lookupString actionTypeNames str

/-- The entries of `ctrlMaskNames` that only the second keymap format has. -/
def ctrlMaskNamesV2 : List LookupEntry :=
  [(ascii "Overlay3", 0x8#32), (ascii "Overlay4", 0x10#32), (ascii "Overlay5", 0x20#32),
    (ascii "Overlay6", 0x40#32), (ascii "Overlay7", 0x80#32), (ascii "Overlay8", 0x100#32),
    (ascii "all", controlAllBoolean)]

/-- The other entries of `ctrlMaskNames`. -/
def ctrlMaskNamesV1 : List LookupEntry :=
  [(ascii "RepeatKeys", 0x400#32), (ascii "Repeat", 0x400#32), (ascii "AutoRepeat", 0x400#32),
    (ascii "SlowKeys", 0x800#32), (ascii "BounceKeys", 0x1000#32),
    (ascii "StickyKeys", controlStickyKeys), (ascii "MouseKeys", 0x4000#32),
    (ascii "MouseKeysAccel", 0x8000#32), (ascii "AccessXKeys", 0x10000#32),
    (ascii "AccessXTimeout", 0x20000#32), (ascii "AccessXFeedback", 0x40000#32),
    (ascii "AudibleBell", 0x80000#32), (ascii "IgnoreGroupLock", 0x100000#32),
    (ascii "Overlay1", 0x2#32), (ascii "Overlay2", 0x4#32), (ascii "all", 0x1fdc07#32),
    (ascii "none", 0#32)]

variable {α : Type} (info : KeymapInfo) (mods : XkbModSet)

/-- `ctrlMaskNames`, from `controls_name_offset` on. -/
def ctrlMaskNames : List LookupEntry :=
  if info.isV2 then ctrlMaskNamesV2 ++ ctrlMaskNamesV1 else ctrlMaskNamesV1

/-- `lockWhich`. -/
def lockWhich : List LookupEntry :=
  [(ascii "both", 0#32), (ascii "lock", actionLockNoUnlock),
    (ascii "neither", actionLockNoLock ||| actionLockNoUnlock),
    (ascii "unlock", actionLockNoLock)]

/-- `ptrDflts`. -/
def ptrDflts : List LookupEntry :=
  [(ascii "dfltbtn", 1#32), (ascii "defaultbutton", 1#32), (ascii "button", 1#32)]

/-! ### Errors -/

/-- `ReportMismatch`, `ReportActionNotArray`, and a value out of range. -/
def reportMismatch : ParserError :=
  if info.strict .noFieldTypeMismatch then .fatal else .recoverable

/-- `ReportFormatVersionMismatch`: the field is ignored if the compiler is not strict. -/
def reportFormatVersionMismatch : Option ParserError :=
  if info.strict .noUnknownActionFields then some .fatal else none

/-- `ReportIllegal`: the field is ignored if the compiler is not strict. -/
def reportIllegal : Option ParserError :=
  if info.strict .noIllegalActionFields then some .fatal else none

/-- An action under construction, and the pending computations so far. -/
structure ActionState where
  action : XkbAction
  pending : List PendingComputation

/-- What a handler leaves; `none` is `PARSER_SUCCESS`. -/
abbrev Handled := Option ParserError × ActionState

/-- The value of an expression, or the error of a field that has none. -/
def fieldValue : Resolved α → Except ParserError α
  | .ok value => .ok value
  | .error .undefined => .error .undefined
  | .error _ => .error (reportMismatch info)

/-- The value of an expression of a type without pending values. -/
def fieldOption : Option α → Except ParserError α
  | some value => .ok value
  | none => .error (reportMismatch info)

/-- A field that is not an array has no index. -/
def checkNotArray : Option ExprDef → Except ParserError Unit
  | none => .ok ()
  | some _ => .error (reportMismatch info)

/-- An integer in a range. -/
def checkRange (low high val : ℤ) : Except ParserError Unit :=
  if val < low ∨ high < val then .error (reportMismatch info) else .ok ()

variable (st : ActionState) (field : ActionField) (arrayNdx : Option ExprDef) (value : ExprDef)

/-- The action with a new value, or as it was with an error. -/
def ActionState.store : Except ParserError XkbAction → Handled
  | .ok action => (none, { st with action := action })
  | .error err => (some err, st)

/-! ### Fields -/

/-- A value of `HandleSetPtrDflt` or `HandleSwitchScreen`: the action is marked before the value
is read, and stays marked if there is none. -/
def ActionState.storeMarked {α : Type} (st : ActionState) (info : KeymapInfo)
    (arrayNdx : Option ExprDef) (mark : XkbAction → XkbAction) (value : Except ParserError α)
    (set : α → XkbAction → XkbAction) : Handled :=
  match checkNotArray info arrayNdx with
  | .error err => (some err, st)
  | .ok _ => { st with action := mark st.action }.store (value.map (set · (mark st.action)))

/-- A flag that is set or cleared. -/
def setFlag (flag : BitVec 32) (set : Bool) (flags : BitVec 32) : BitVec 32 :=
  if set then flags ||| flag else flags &&& ~~~flag

/-- `CheckBooleanFlag`: the value of the flag, which the handlers write with `setFlag`. -/
def checkBooleanFlag : Except ParserError Bool := do
  checkNotArray info arrayNdx
  fieldOption info (exprResolveBoolean value)

/-- The names of the modifiers of the key's modifier map. -/
def isModmapMods : ExprDef → Bool
  | .ident name => istreq name (ascii "usemodmapmods") || istreq name (ascii "modmapmods")
  | _ => false

/-- `CheckModifierField`: the value of `ACTION_MODS_LOOKUP_MODMAP`, and the modifiers. -/
def checkModifierField : Except ParserError (Bool × BitVec 32) := do
  checkNotArray info arrayNdx
  if isModmapMods value then return (true, 0#32)
  else
    let mask ← fieldValue info (exprResolveModMask mods .both value)
    return (false, mask)

/-- `CheckAffectField`: the flags that `setAffect` writes. -/
def checkAffectField : Except ParserError (BitVec 32) := do
  checkNotArray info arrayNdx
  fieldOption info (exprResolveEnum lockWhich value)

/-- The flags of `lockWhich`, in the place of those before. -/
def setAffect (which flags : BitVec 32) : BitVec 32 :=
  (flags &&& ~~~(actionLockNoLock ||| actionLockNoUnlock)) ||| which

/-- Whether a value is absolute, and what is written after its sign otherwise. -/
def signedValue : ExprDef → Bool × ExprDef
  | .unary .negate child => (false, child)
  | .unary .unaryPlus child => (false, child)
  | value => (true, value)

/-- Whether a value has a minus sign. -/
def isNegated : ExprDef → Bool
  | .unary .negate _ => true
  | _ => false

/-- The group of an action, or what computes it later. -/
inductive GroupValue
  | group (group : BitVec 32)
  | pending (expr : ExprDef)

/-- `CheckGroupField`: whether the group is absolute, and its value. The sign is not part of what
is computed later. -/
def checkGroupField : Except ParserError (Bool × GroupValue) := do
  checkNotArray info arrayNdx
  let (absolute, spec) := signedValue value
  match exprResolveGroup info.maxGroups info.groupNames absolute true spec with
  | .error .pending => return (absolute, .pending spec)
  | result =>
    let idx ← fieldValue info result
    let group : ℤ := if absolute then idx - 1 else if isNegated value then -idx else idx
    return (absolute, .group (BitVec.ofInt 32 group))

/-- The action with the result of `CheckGroupField`. -/
def ActionState.setGroup (absolute : Bool) : GroupValue → ActionState
  | .group group =>
    let flags := setFlag actionAbsoluteSwitch absolute st.action.group.flags
    { st with
      action := { st.action with
        group := { flags := setFlag actionPendingComputation false flags, group } } }
  | .pending expr =>
    let flags := setFlag actionAbsoluteSwitch absolute st.action.group.flags
    { action := { st.action with
        group := { flags := setFlag actionPendingComputation true flags
                   group := BitVec.ofNat 32 st.pending.length } }
      pending := st.pending ++ [{ expr }] }

/-! ### Handlers -/

/-- `HandleNoAction`. -/
def handleNoAction : Handled := (reportIllegal info, st)

/-- The action with a flag of `struct xkb_mod_action`. -/
def setModsFlag (flag : BitVec 32) (action : XkbAction) (set : Bool) : XkbAction :=
  { action with mods := { action.mods with flags := setFlag flag set action.mods.flags } }

/-- `HandleSetLatchLockMods`. -/
def handleSetLatchLockMods : Handled :=
  let act := st.action.mods
  let type := st.action.type
  let flag (bit : BitVec 32) : Handled :=
    st.store ((checkBooleanFlag info arrayNdx value).map (setModsFlag bit st.action))
  match field with
  | .modifiers => st.store <|
    (checkModifierField info mods arrayNdx value).map fun (lookup, mask) =>
      { st.action with
        mods := { flags := setFlag actionModsLookupModmap lookup act.flags
                  mods := { act.mods with mods := mask } } }
  | .unlockOnPress =>
    if info.isV2 then flag actionUnlockOnPress else (reportFormatVersionMismatch info, st)
  | .clearLocks =>
    if type = .modSet ∨ type = .modLatch then flag actionLockClear else (reportIllegal info, st)
  | .latchToLock =>
    if type = .modLatch then flag actionLatchToLock else (reportIllegal info, st)
  | .latchOnPress =>
    if type = .modLatch then
      if info.isV2 then flag actionLatchOnPress else (reportFormatVersionMismatch info, st)
    else (reportIllegal info, st)
  | .affect =>
    if type = .modLock then st.store <|
      (checkAffectField info arrayNdx value).map fun which =>
        { st.action with mods := { act with flags := setAffect which act.flags } }
    else (reportIllegal info, st)
  | _ => (reportIllegal info, st)

/-- The action with a flag of `struct xkb_group_action`. -/
def setGroupFlag (flag : BitVec 32) (action : XkbAction) (set : Bool) : XkbAction :=
  { action with group := { action.group with flags := setFlag flag set action.group.flags } }

/-- `HandleSetLatchLockGroup`. -/
def handleSetLatchLockGroup : Handled :=
  let type := st.action.type
  let flag (bit : BitVec 32) : Handled :=
    st.store ((checkBooleanFlag info arrayNdx value).map (setGroupFlag bit st.action))
  match field with
  | .group =>
    match checkGroupField info arrayNdx value with
    | .ok (absolute, group) => (none, st.setGroup absolute group)
    | .error err => (some err, st)
  | .clearLocks =>
    if type = .groupSet ∨ type = .groupLatch then flag actionLockClear
    else (reportIllegal info, st)
  | .latchToLock =>
    if type = .groupLatch then flag actionLatchToLock else (reportIllegal info, st)
  | .lockOnRelease =>
    if type = .groupLock then
      if info.isV2 then flag actionLockOnRelease else (reportFormatVersionMismatch info, st)
    else (reportIllegal info, st)
  | _ => (reportIllegal info, st)

/-- A coordinate of `HandleMovePtr`: whether it is absolute, and its value. -/
def checkCoordinate : Except ParserError (Bool × BitVec 16) := do
  checkNotArray info arrayNdx
  let val ← fieldValue info (exprResolveInteger value)
  checkRange info (-0x8000) 0x7fff val
  return ((signedValue value).1, BitVec.ofInt 16 val)

/-- The mark of an absolute coordinate, which is set and never cleared. -/
def markAbsolute (flag : BitVec 32) (absolute : Bool) (flags : BitVec 32) : BitVec 32 :=
  if absolute then flags ||| flag else flags

/-- `HandleMovePtr`. -/
def handleMovePtr : Handled :=
  let act := st.action.ptr
  match field with
  | .x => st.store <| (checkCoordinate info arrayNdx value).map fun (absolute, x) =>
    { st.action with
      ptr := { act with flags := markAbsolute actionAbsoluteX absolute act.flags, x } }
  | .y => st.store <| (checkCoordinate info arrayNdx value).map fun (absolute, y) =>
    { st.action with
      ptr := { act with flags := markAbsolute actionAbsoluteY absolute act.flags, y } }
  | .accel => st.store <| (checkBooleanFlag info arrayNdx value).map fun set =>
    { st.action with ptr := { act with flags := setFlag actionAccel set act.flags } }
  | _ => (reportIllegal info, st)

/-- A button; 0 is the default button. -/
def checkButton : Except ParserError ℤ := do
  let btn ← fieldValue info (exprResolveButton value)
  checkRange info 0 5 btn
  return btn

/-- The button of `HandlePtrBtn`. -/
def checkButtonField : Except ParserError (BitVec 8) := do
  checkNotArray info arrayNdx
  let btn ← checkButton info value
  return BitVec.ofInt 8 btn

/-- The count of `HandlePtrBtn`. -/
def checkCountField : Except ParserError (BitVec 8) := do
  checkNotArray info arrayNdx
  let val ← fieldValue info (exprResolveInteger value)
  checkRange info 0 255 val
  return BitVec.ofInt 8 val

/-- `HandlePtrBtn`. -/
def handlePtrBtn : Handled :=
  let act := st.action.btn
  match field with
  | .button => st.store <| (checkButtonField info arrayNdx value).map fun button =>
    { st.action with btn := { act with button } }
  | .affect =>
    if st.action.type = .ptrLock then st.store <|
      (checkAffectField info arrayNdx value).map fun which =>
        { st.action with btn := { act with flags := setAffect which act.flags } }
    else (reportIllegal info, st)
  | .count => st.store <| (checkCountField info arrayNdx value).map fun count =>
    { st.action with btn := { act with count } }
  | _ => (reportIllegal info, st)

/-- The button of `HandleSetPtrDflt`, which is not the default button. -/
def checkDefaultButton : Except ParserError (BitVec 8) := do
  let btn ← checkButton info (signedValue value).2
  if btn = 0 then .error (reportMismatch info)
  else return BitVec.ofInt 8 (if isNegated value then -btn else btn)

/-- The component of `HandleSetPtrDflt`, which is not kept. -/
def checkComponentField : Except ParserError (BitVec 32) := do
  checkNotArray info arrayNdx
  fieldOption info (exprResolveEnum ptrDflts value)

/-- `HandleSetPtrDflt`. -/
def handleSetPtrDflt : Handled :=
  match field with
  | .affect => st.store <| (checkComponentField info arrayNdx value).map fun _ => st.action
  | .button | .value => st.storeMarked info arrayNdx
    (fun a => { a with
      dflt := { a.dflt with
        flags := setFlag actionAbsoluteSwitch (signedValue value).1 a.dflt.flags } })
    (checkDefaultButton info value)
    (fun button a => { a with dflt := { a.dflt with value := button } })
  | _ => (reportIllegal info, st)

/-- The screen of `HandleSwitchScreen`; the negation of the least integer is undefined. -/
def checkScreen : Except ParserError (BitVec 8) := do
  let val ← fieldValue info (exprResolveInteger (signedValue value).2)
  let val ← fieldValue info (if isNegated value then unchecked (-val) else .ok val)
  checkRange info (-0x80) 0x7f val
  return BitVec.ofInt 8 val

/-- `HandleSwitchScreen`. -/
def handleSwitchScreen : Handled :=
  let act := st.action.screen
  match field with
  | .screen => st.storeMarked info arrayNdx
    (fun a => { a with
      screen := { a.screen with
        flags := setFlag actionAbsoluteSwitch (signedValue value).1 a.screen.flags } })
    (checkScreen info value)
    (fun screen a => { a with screen := { a.screen with screen } })
  | .same => st.store <| (checkBooleanFlag info arrayNdx value).map fun set =>
    { st.action with screen := { act with flags := setFlag actionSameScreen set act.flags } }
  | _ => (reportIllegal info, st)

/-- The controls of `HandleSetLockControls`. -/
def checkControlsField : Except ParserError (BitVec 32) := do
  checkNotArray info arrayNdx
  fieldValue info (exprResolveMask (ctrlMaskNames info) value)

/-- `HandleSetLockControls`. -/
def handleSetLockControls : Handled :=
  let act := st.action.ctrls
  match field with
  | .controls => st.store <| (checkControlsField info arrayNdx value).map fun ctrls =>
    { st.action with ctrls := { act with ctrls } }
  | .affect =>
    if st.action.type = .ctrlLock then st.store <|
      (checkAffectField info arrayNdx value).map fun which =>
        { st.action with ctrls := { act with flags := setAffect which act.flags } }
    else (reportIllegal info, st)
  | _ => (reportIllegal info, st)

/-- The key of `HandleRedirectKey`. -/
def checkRedirectKey : ExprDef → Except ParserError ℕ
  | .ident name =>
    if istreq name (ascii "auto") then .ok info.redirectKeyAuto
    else .error (reportMismatch info)
  | .keyName name =>
    match info.xkbKeyByName name true with
    | some key => .ok key.keycode
    | none => .error (if info.strict .noFieldValueMismatch then .fatal else .recoverable)
  | _ => .error (reportMismatch info)

/-- `HandleRedirectKey`. -/
def handleRedirectKey : Handled :=
  let act := st.action.redirect
  let checkMods : Except ParserError (BitVec 32) := do
    let (lookup, mask) ← checkModifierField info mods arrayNdx value
    if lookup then .error (reportMismatch info) else return mask
  match field with
  | .keycode => st.store do
    checkNotArray info arrayNdx
    let keycode ← checkRedirectKey info value
    return { st.action with redirect := { act with keycode } }
  | .modifiers => st.store <| checkMods.map fun m =>
    { st.action with redirect := { act with affect := act.affect ||| m, mods := act.mods ||| m } }
  | .modsToClear => st.store <| checkMods.map fun m =>
    { st.action with
      redirect := { act with affect := act.affect ||| m, mods := act.mods &&& ~~~m } }
  | _ => (reportIllegal info, st)

/-- The type of a private action with a number; those of other actions do nothing. -/
def privateActionType (type : ℕ) : XkbActionType :=
  if type < 19 then .none else if type = 19 then .privateAction else if type = 20 then .internal
  else .custom type

/-- `HandlePrivate`. -/
def handlePrivate : Handled :=
  let data := st.action.priv.data
  match field with
  | .type => st.store do
    checkNotArray info arrayNdx
    let type ← fieldValue info (exprResolveInteger value)
    checkRange info 0 255 type
    return { st.action with type := privateActionType type.toNat }
  | .data =>
    match arrayNdx with
    | none => st.store do
      let str ← fieldOption info (exprResolveString value)
      checkRange info 1 7 str.length
      return { st.action with priv := { data := str ++ List.replicate (7 - str.length) 0 } }
    | some arrayNdx => st.store do
      let ndx ← fieldValue info (exprResolveInteger arrayNdx)
      checkRange info 0 6 ndx
      let datum ← fieldValue info (exprResolveInteger value)
      checkRange info 0 255 datum
      return { st.action with priv := { data := data.set ndx.toNat (UInt8.ofNat datum.toNat) } }
  | _ => (reportIllegal info, st)

/-- `handleAction`: the handler of an action type. No name stands for the last two types. -/
def handleAction (type : XkbActionType) (st : ActionState) (field : ActionField)
    (arrayNdx : Option ExprDef) (value : ExprDef) :
    Handled :=
  match type with
  | .none | .void | .terminate => handleNoAction info st
  | .modSet | .modLatch | .modLock => handleSetLatchLockMods info mods st field arrayNdx value
  | .groupSet | .groupLatch | .groupLock => handleSetLatchLockGroup info st field arrayNdx value
  | .ptrMove => handleMovePtr info st field arrayNdx value
  | .ptrButton | .ptrLock => handlePtrBtn info st field arrayNdx value
  | .ptrDefault => handleSetPtrDflt info st field arrayNdx value
  | .switchVt => handleSwitchScreen info st field arrayNdx value
  | .ctrlSet | .ctrlLock => handleSetLockControls info st field arrayNdx value
  | .redirectKey => handleRedirectKey info mods st field arrayNdx value
  | .privateAction => handlePrivate info st field arrayNdx value
  | .unsupportedLegacy | .unknown | .internal | .custom _ => (none, st)

/-! ### Definitions and defaults -/

/-- `ActionsInfo`: the defaults of each type. -/
abbrev ActionsInfo := XkbActionType → XkbAction

/-- `InitActionsInfo`. -/
def initActionsInfo : ActionsInfo
  | .ptrDefault => { type := .ptrDefault, dflt := { flags := 0#32, value := 1#8 } }
  | .ptrMove => { type := .ptrMove, ptr := { flags := actionAccel } }
  | .switchVt => { type := .switchVt, screen := { flags := actionSameScreen } }
  | .redirectKey => { type := .redirectKey, redirect := { keycode := info.redirectKeyAuto } }
  | type => { type }

/-- The field and the value of an argument. -/
def actionArg : ExprDef → ExprDef × ExprDef
  | .binary .assign field value => (field, value)
  | .unary .not field => (field, .boolean false)
  | .unary .invert field => (field, .boolean false)
  | field => (field, .boolean true)

/-- One turn of the loop of `HandleActionDef`. -/
def handleActionArg (type : XkbActionType) (st : ActionState) (arg : ExprDef) : Handled :=
  match exprResolveLhs (actionArg arg).1 with
  | none => (some .fatal, st)
  | some ⟨some _, _, _⟩ => (some .fatal, st)
  | some ⟨none, field, arrayNdx⟩ =>
    match stringToField field with
    | none => (if info.strict .noUnknownActionFields then some .fatal else none, st)
    | some field => handleAction info mods type st field arrayNdx (actionArg arg).2

/-- The loop of `HandleActionDef`. -/
def handleActionArgs (info : KeymapInfo) (mods : XkbModSet) (type : XkbActionType) :
    List ExprDef → Option ParserError → ActionState → Handled
  | [], ret, st => (ret, st)
  | arg :: args, ret, st =>
    match handleActionArg info mods type st arg with
    | (none, st) => handleActionArgs info mods type args ret st
    | (some .recoverable, st) => handleActionArgs info mods type args (some .recoverable) st
    | stopped => stopped

/-- The action that a definition starts from. -/
def initialAction (defaults : ActionsInfo) (type : XkbActionType) : XkbAction :=
  if type = .unsupportedLegacy then { defaults type with type := .none } else defaults type

/-- `HandleActionDef`. -/
def handleActionDef (defaults : ActionsInfo) (mods : XkbModSet)
    (pending : List PendingComputation) :
    ExprDef → Handled
  | .action name args =>
    let found := stringToActionType name
    if found = none ∧ info.strict .noUnknownAction = true then (some .fatal, ⟨{}, pending⟩)
    else
      let type := found.getD .unknown
      match handleActionArgs info mods type args none ⟨initialAction defaults type, pending⟩ with
      | (some .fatal, st) => (some .fatal, st)
      | (some .undefined, st) => (some .undefined, st)
      | (ret, st) => (if st.action.type = .unknown then some .recoverable else ret, st)
  | _ => (some .fatal, ⟨{}, pending⟩)

/-- `action_equal`. -/
def actionEqual (a b : XkbAction) : Bool :=
  a.type == b.type &&
    match a.type with
    | .none | .void | .terminate | .unsupportedLegacy | .unknown => true
    | .modSet | .modLatch | .modLock => a.mods == b.mods
    | .groupSet | .groupLatch | .groupLock => a.group == b.group
    | .ptrMove => a.ptr == b.ptr
    | .ptrButton | .ptrLock => a.btn == b.btn
    | .ptrDefault => a.dflt == b.dflt
    | .switchVt => a.screen == b.screen
    | .ctrlSet | .ctrlLock => a.ctrls == b.ctrls
    | .redirectKey => a.redirect == b.redirect
    | .internal => a.internal == b.internal
    | .privateAction | .custom _ => a.priv == b.priv

/-- What is left after a default has been set. -/
structure DefaultsState where
  defaults : ActionsInfo
  pending : List PendingComputation

/-- `SetDefaultActionField`. -/
def setDefaultActionField (st : DefaultsState) (elem field : List UInt8) (arrayNdx : Option ExprDef)
    (value : ExprDef) (merge : MergeMode) :
    Option ParserError × DefaultsState :=
  match stringToActionType elem with
  | none => (some (if info.strict .noUnknownAction then .fatal else .recoverable), st)
  | some type =>
    match stringToField field with
    | none => (some (if info.strict .noUnknownActionFields then .fatal else .recoverable), st)
    | some field =>
      match handleAction info mods type ⟨st.defaults type, st.pending⟩ field arrayNdx value with
      | (none, ⟨action, pending⟩) =>
        if actionEqual (st.defaults type) action = false ∧ merge ≠ .augment then
          (none, ⟨fun t => if t = type then action else st.defaults t, pending⟩)
        else (none, ⟨st.defaults, pending⟩)
      | (err, ⟨_, pending⟩) => (err, ⟨st.defaults, pending⟩)

end Xkbcommon.Xkbcomp
