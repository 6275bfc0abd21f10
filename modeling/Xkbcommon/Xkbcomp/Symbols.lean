import Mathlib.Data.List.DropRight
import Xkbcommon.Lib.Biased
import Xkbcommon.Xkbcomp.Action

/-!
# Keys under construction

`src/xkbcomp/symbols.c`, up to the list of keys of a section. A key has groups, a group has
levels, and a level has keysyms and actions; every part may be missing. The statements
`key <A> { … }` start from a copy of the *default key*, whose fields are set by statements such
as `key.type = "ALPHABETIC"`, and are then merged with what is already known of the key.

* Both kinds of statements go through `Xkbcommon.Xkbcomp.setSymbolsField`, which sets one field.
  A group may be given by an index, as in `symbols[2] = [a, A]`; the index is an expression, and
  the array of groups grows as needed. Indices and sizes are `uint32_t`.
* Merging is `Xkbcommon.Xkbcomp.mergeKeys`, and `Xkbcommon.Xkbcomp.mergeGroups` for one group. The
  merge mode `augment` keeps the old values, the others take the new ones, and `replace` drops the
  old key.

Whether a part is defined is a flag, except for keysyms and actions of a level, of which the empty
list is undefined. An access past the end of an array is undefined, and so is what
`merge_overlays` does where it aborts (`Xkbcommon.Xkbcomp.Status`). Messages are left out.
-/

namespace Xkbcommon.Xkbcomp

open Biased

/-! ### Levels, groups and keys -/

/-- `struct xkb_level`, in a group under construction. The counts are the lengths. -/
structure LevelInfo where
  syms : List Keysym := []
  actions : List XkbAction := []
  deriving DecidableEq, Repr, Inhabited

/-- A level with neither keysyms nor actions. -/
def LevelInfo.isEmpty (level : LevelInfo) : Bool := level.syms.isEmpty && level.actions.isEmpty

/-- `enum group_field`. -/
inductive GroupField
  | syms | acts | type
  deriving DecidableEq, Repr

/-- `GroupInfo`. The type `none` is `XKB_ATOM_NONE`. -/
structure GroupInfo where
  levels : List LevelInfo := []
  definedSyms : Bool := false
  definedActs : Bool := false
  definedType : Bool := false
  type : Option Atom := none
  deriving DecidableEq, Repr, Inhabited

/-- A flag of `defined`. -/
def GroupInfo.defined (groupi : GroupInfo) : GroupField → Bool
  | .syms => groupi.definedSyms
  | .acts => groupi.definedActs
  | .type => groupi.definedType

/-- `enum key_repeat`. -/
inductive KeyRepeat
  | undefined | yes | no
  deriving DecidableEq, Repr, Inhabited

/-- `KeyInfo`, as `InitKeyInfo` leaves it. The flag of the overlays is one of `overlays`. -/
structure KeyInfo where
  name : Atom := ascii "*"
  vmodmap : BitVec 32 := 0#32
  defaultType : Option Atom := none
  outOfRangeGroupNumber : BitVec 32 := 0#32
  outOfRangePendingGroup : Bool := false
  outOfRangeGroupPolicy : LayoutOutOfRangePolicy := .wrap
  groups : List GroupInfo := []
  definedRepeat : Bool := false
  definedDefaultType : Bool := false
  definedGroupInfo : Bool := false
  definedVmodmap : Bool := false
  merge : MergeMode := .default
  keyRepeat : KeyRepeat := .undefined
  overlays : OverlayInfo := {}
  deriving DecidableEq, Repr, Inhabited

/-! ### Merging -/

/-- `XkbLevelsSameActions`. -/
def xkbLevelsSameActions (a b : List XkbAction) : Bool :=
  a.length == b.length && (a.zip b).all fun act => actionEqual act.1 act.2

/-- The keysyms or the actions of a level in `MergeGroups`: what is kept, and whether it is taken
from the new level. A single keysym or action may be undefined. -/
def mergeList {α : Type} (same : List α → List α → Bool) (isDefined : α → Bool) (clobber : Bool)
    (into incoming : List α) : List α × Bool :=
  if same into incoming || incoming.isEmpty then (into, false)
  else if clobber then
    if decide (1 < incoming.length) || incoming.all isDefined then (incoming, true)
    else (into, false)
  else if decide (1 < into.length) || into.any isDefined then (into, false)
  else (incoming, true)

/-- A level in `MergeGroups`, with what it adds to `fromKeysymsCount` and `fromActionsCount`. -/
structure MergedLevel where
  level : LevelInfo
  fromKeysyms : Bool
  fromActions : Bool

/-- One turn of the loop of `MergeGroups`. -/
def mergeLevel (clobber : Bool) (into incoming : LevelInfo) : MergedLevel :=
  if incoming.isEmpty then ⟨into, false, false⟩
  else if into.isEmpty then ⟨incoming, true, true⟩
  else
    let syms := mergeList (· == ·) (· != 0) clobber into.syms incoming.syms
    let actions := mergeList xkbLevelsSameActions (fun act => act.type != .none) clobber
      into.actions incoming.actions
    ⟨⟨syms.1, actions.1⟩, syms.2, actions.2⟩

/-- The type of the group in `MergeGroups`. -/
def mergeGroupType (clobber : Bool) (into incoming : Option Atom) : Option Atom :=
  if incoming.isNone then into else if into.isNone || clobber then incoming else into

/-- A flag of the group in `MergeGroups`, for the number of levels taken from the new group: the
old flag is dropped if all of them are. -/
def mergeGroupDefined (count size : ℕ) (into incoming : Bool) : Bool :=
  if count = 0 then into else (into && count != size) || incoming

/-- `MergeGroups`. -/
def mergeGroups (clobber : Bool) (into incoming : GroupInfo) : GroupInfo :=
  let into := { into with
    type := mergeGroupType clobber into.type incoming.type
    definedType := into.definedType || incoming.definedType }
  if incoming.levels.isEmpty then into
  -- the flags are taken over with the levels
  else if into.levels.isEmpty then { incoming with type := into.type }
  else
    let levels := zipLong (fun a b => (mergeLevel clobber a b).level) into.levels incoming.levels
    let both := List.zipWith (mergeLevel clobber) into.levels incoming.levels
    let extra := incoming.levels.length - into.levels.length
    { into with
      levels
      definedSyms := mergeGroupDefined (both.countP MergedLevel.fromKeysyms + extra)
        levels.length into.definedSyms incoming.definedSyms
      definedActs := mergeGroupDefined (both.countP MergedLevel.fromActions + extra)
        levels.length into.definedActs incoming.definedActs }

variable (info : KeymapInfo)

/-- `MergeKeys`; `none` if it aborts. -/
def mergeKeys (into incoming : KeyInfo) : Option KeyInfo :=
  if incoming.merge = .replace then some incoming
  else
    let clobber := incoming.merge != .augment
    let useVmodmap := useNewField into.definedVmodmap incoming.definedVmodmap clobber
    let useRepeat := useNewField into.definedRepeat incoming.definedRepeat clobber
    let useDefaultType := useNewField into.definedDefaultType incoming.definedDefaultType clobber
    let useGroupInfo := useNewField into.definedGroupInfo incoming.definedGroupInfo clobber
    (mergeOverlays info.isV2 into.overlays incoming.overlays clobber).map fun overlays =>
      { into with
        groups := zipLong (mergeGroups clobber) into.groups incoming.groups
        vmodmap := if useVmodmap then incoming.vmodmap else into.vmodmap
        definedVmodmap := into.definedVmodmap || useVmodmap
        keyRepeat := if useRepeat then incoming.keyRepeat else into.keyRepeat
        definedRepeat := into.definedRepeat || useRepeat
        defaultType := if useDefaultType then incoming.defaultType else into.defaultType
        definedDefaultType := into.definedDefaultType || useDefaultType
        outOfRangePendingGroup :=
          if useGroupInfo then incoming.outOfRangePendingGroup else into.outOfRangePendingGroup
        outOfRangeGroupPolicy :=
          if useGroupInfo then incoming.outOfRangeGroupPolicy else into.outOfRangeGroupPolicy
        outOfRangeGroupNumber :=
          if useGroupInfo then incoming.outOfRangeGroupNumber else into.outOfRangeGroupNumber
        definedGroupInfo := into.definedGroupInfo || useGroupInfo
        overlays }

/-! ### Groups by their index -/

/-- `darray_resize0`. -/
def darrayResize0 {α : Type} (zero : α) (items : List α) (size : ℕ) : List α :=
  items.take size ++ List.replicate (size - items.length) zero

/-- The decrement of a `uint32_t`. -/
def decrement (group : ℕ) : ℕ := (group + 0xffffffff) % 0x100000000

/-- An array with room for an index. -/
def growFor {α : Type} (zero : α) (items : List α) (ndx : ℕ) : List α :=
  if items.length ≤ ndx then darrayResize0 zero items ((ndx + 1) % 0x100000000) else items

/-- The group of an explicit index, and the array with room for it. -/
def explicitGroupIndex (groups : List GroupInfo) (arrayNdx : ExprDef) :
    Resolved (ℕ × List GroupInfo) := do
  let group ← exprResolveGroup info.maxGroups info.groupNames false false arrayNdx
  return (decrement group, growFor {} groups (decrement group))

/-- `GetGroupIndex`. Without an index, the first group in which the field is undefined. -/
def getGroupIndex (groups : List GroupInfo) (field : GroupField) :
    Option ExprDef → Resolved (ℕ × List GroupInfo)
  | none =>
    match groups.findIdx? fun groupi => !groupi.defined field with
    | some ndx => .ok (ndx, groups)
    | none =>
      if info.maxGroups ≤ groups.length then .error .failed
      else .ok (groups.length, groups ++ [{}])
  | some arrayNdx => explicitGroupIndex info groups arrayNdx

/-! ### Keysyms -/

/-- `MAX_KEYSYMS_PER_LEVEL` and `MAX_ACTIONS_PER_LEVEL`. -/
def maxPerLevel : ℕ := 0xffff

/-- The levels of a group, at least as many as a field has. -/
def growLevels (levels : List LevelInfo) (nLevels : ℕ) : List LevelInfo :=
  if levels.length < nLevels then darrayResize0 {} levels nLevels else levels

/-- The loop of `AddSymbolsToKey` that fills the levels. -/
def fillSyms : List (List Keysym) → List LevelInfo → Status × List LevelInfo
  | syms :: list, level :: levels =>
    if maxPerLevel < syms.length then (.rejected, level :: levels)
    else
      let (status, levels) := fillSyms list levels
      (status, { level with syms } :: levels)
  | _, levels => (.accepted, levels)

/-- `AddSymbolsToKey`, on its group. The levels without keysyms at the end of the list are
dropped first. -/
def addSymbolsToGroup (groupi : GroupInfo) : ExprDef → Status × GroupInfo
  | .emptyList => (.accepted, { groupi with definedSyms := true })
  | .keysymList list =>
    if groupi.definedSyms then (.rejected, groupi)
    else
      let list := list.rdropWhile List.isEmpty
      let (status, levels) := fillSyms list (growLevels groupi.levels list.length)
      (status, { groupi with levels, definedSyms := true })
  | _ => (.rejected, groupi)

/-! ### Actions -/

/-- The actions of a level or an interpretation as they are stored: `num_actions`, the action that
is stored inline if it is 1 at most, and the array otherwise. -/
structure ActionStore where
  numActions : ℕ := 0
  action : XkbAction := {}
  actions : List XkbAction := []
  deriving DecidableEq, Repr, Inhabited

/-- The actions that are read from it. -/
def ActionStore.read (store : ActionStore) : List XkbAction :=
  if store.numActions ≤ 1 then [store.action].take store.numActions
  else store.actions.take store.numActions

/-- `HandleActionDef` on a list of definitions. A definition with an error that is not fatal
becomes `NoAction()`. -/
def parseActions (info : KeymapInfo) (defaults : ActionsInfo) (mods : XkbModSet) :
    List ExprDef → List PendingComputation →
      Except ParserError (List XkbAction) × List PendingComputation
  | [], pending => (.ok [], pending)
  | act :: acts, pending =>
    match handleActionDef info defaults mods pending act with
    | (none, st) =>
      let (toActs, pending) := parseActions info defaults mods acts st.pending
      (toActs.map (st.action :: ·), pending)
    | (some .recoverable, st) =>
      let (toActs, pending) := parseActions info defaults mods acts st.pending
      (toActs.map ({ st.action with type := .none } :: ·), pending)
    | (some err, st) => (.error err, st.pending)

/-- One turn of the loops of `AddActionsToKey` and `SetInterpField` over the definitions, whose
number is given. -/
def storeAction (numActions : ℕ) (store : ActionStore) (toAct : XkbAction) : ActionStore :=
  if toAct.type = .none then store
  else if numActions = 1 then { store with numActions := 1, action := toAct }
  else { store with actions := store.actions ++ [toAct] }

/-- The actions of a level in `AddActionsToKey`. -/
def storeLevelActions (numActions : ℕ) (toActs : List XkbAction) : ActionStore :=
  let store := toActs.foldl (storeAction numActions) {}
  -- `goto next_level`
  if store.numActions = 1 then store
  else match store.actions with
    | [] => { store with numActions := 0 }
    | [act] => { store with numActions := 1, action := act }
    | acts => { store with numActions := acts.length }

/-- What the loops over the levels of a field leave. -/
structure LevelsState where
  status : Status
  levels : List LevelInfo
  pending : List PendingComputation

/-- The status of an error of `HandleActionDef`. -/
def Status.ofParserError : ParserError → Status
  | .undefined => .undefined
  | _ => .rejected

/-- The loop of `AddActionsToKey` over the levels. -/
def fillActions (info : KeymapInfo) (defaults : ActionsInfo) (mods : XkbModSet) :
    List (List ExprDef) → List LevelInfo → List PendingComputation → LevelsState
  | acts :: list, level :: levels, pending =>
    if maxPerLevel < acts.length then ⟨.rejected, level :: levels, pending⟩
    else
      match parseActions info defaults mods acts pending with
      | (.error err, pending) => ⟨.ofParserError err, level :: levels, pending⟩
      | (.ok toActs, pending) =>
        let store := storeLevelActions acts.length toActs
        let rest := fillActions info defaults mods list levels pending
        { rest with levels := { level with actions := store.read } :: rest.levels }
  | _, levels, pending => ⟨.accepted, levels, pending⟩

/-- The levels that are left by `AddActionsToKey`: if the last level of the field is empty, all
levels after the last one of the field that is not. -/
def trimLevels (levels : List LevelInfo) (nLevels : ℕ) : List LevelInfo :=
  let nonEmptyLevels := ((levels.take nLevels).rdropWhile LevelInfo.isEmpty).length
  if nonEmptyLevels < nLevels then levels.take nonEmptyLevels else levels

/-- A group under construction, with the pending computations so far. -/
structure GroupState where
  status : Status
  group : GroupInfo
  pending : List PendingComputation

/-- `AddActionsToKey`, on its group. -/
def addActionsToGroup (defaults : ActionsInfo) (mods : XkbModSet)
    (pending : List PendingComputation) (groupi : GroupInfo) : ExprDef → GroupState
  | .emptyList => ⟨.accepted, { groupi with definedActs := true }, pending⟩
  | .actionList list =>
    if groupi.definedActs then ⟨.rejected, groupi, pending⟩
    else
      let filled := fillActions info defaults mods list (growLevels groupi.levels list.length)
        pending
      let levels :=
        if filled.status = .accepted then trimLevels filled.levels list.length else filled.levels
      ⟨filled.status, { groupi with levels, definedActs := true }, filled.pending⟩
  | _ => ⟨.rejected, groupi, pending⟩

/-! ### Fields of a key -/

/-- What an entry of a modifier map names. -/
inductive ModMapTarget
  | keySym (sym : Keysym)
  | keyName (name : Atom)
  deriving DecidableEq, Repr

/-- `ModMapEntry`. -/
structure ModMapEntry where
  merge : MergeMode
  target : ModMapTarget
  mods : BitVec 32
  deriving DecidableEq, Repr

/-- `SymbolsInfo`, less its name. The pending computations are those of the keymap. -/
structure SymbolsInfo where
  includeDepth : ℕ := 0
  explicitGroup : Option ℕ := none
  keys : List KeyInfo := []
  defaultKey : KeyInfo := {}
  defaultActions : ActionsInfo
  groupNames : List (Option Atom) := []
  modmaps : List ModMapEntry := []
  mods : XkbModSet
  pending : List PendingComputation := []

/-- A key under construction, with the pending computations so far. -/
structure KeyState where
  status : Status
  key : KeyInfo
  pending : List PendingComputation

variable (syms : SymbolsInfo) (keyi : KeyInfo) (arrayNdx : Option ExprDef) (value : ExprDef)

/-- `AddSymbolsToKey`. -/
def addSymbolsToKey : Status × KeyInfo :=
  match getGroupIndex info keyi.groups .syms arrayNdx with
  | .error err => (.ofError err, keyi)
  | .ok (ndx, groups) =>
    match groups[ndx]? with
    | none => (.undefined, { keyi with groups })
    | some groupi =>
      let (status, groupi) := addSymbolsToGroup groupi value
      (status, { keyi with groups := groups.set ndx groupi })

/-- `AddActionsToKey`. -/
def addActionsToKey : KeyState :=
  match getGroupIndex info keyi.groups .acts arrayNdx with
  | .error err => ⟨.ofError err, keyi, syms.pending⟩
  | .ok (ndx, groups) =>
    match groups[ndx]? with
    | none => ⟨.undefined, { keyi with groups }, syms.pending⟩
    | some groupi =>
      let st := addActionsToGroup info syms.defaultActions syms.mods syms.pending groupi value
      ⟨st.status, { keyi with groups := groups.set ndx st.group }, st.pending⟩

/-- The field `type` of `SetSymbolsField`. -/
def setTypeField : Status × KeyInfo :=
  match exprResolveString value with
  | none => (.rejected, keyi)
  | some val =>
    match arrayNdx with
    | none => (.accepted, { keyi with defaultType := some val, definedDefaultType := true })
    | some arrayNdx =>
      match explicitGroupIndex info keyi.groups arrayNdx with
      | .error err => (.ofError err, keyi)
      | .ok (ndx, groups) =>
        match groups[ndx]? with
        | none => (.undefined, { keyi with groups })
        | some groupi =>
          (.accepted,
            { keyi with groups := groups.set ndx { groupi with type := val, definedType := true } })

/-- `ExprResolveOverlayEntry`: the overlay, `none` if the value is `any`, and its key. -/
def exprResolveOverlayEntry (field : List UInt8) (arrayNdx : Option ExprDef) (expr : ExprDef) :
    Option (Option ℕ × Option KeyEntry) := do
  guard arrayNdx.isNone
  let digits := field.drop (ascii "overlay").length
  let (count, rawOverlay) ← parseDec 0xffffffffffffffff digits
  guard (count = digits.length ∧ 1 ≤ rawOverlay ∧ rawOverlay ≤ info.maxOverlays)
  match expr with
  | .keyName name =>
    let key ← info.xkbKeyByName name false
    return (some (rawOverlay - 1), some key)
  | .ident id =>
    if istreq id (ascii "none") then return (some (rawOverlay - 1), none)
    else if istreq id (ascii "any") then return (none, none)
    else none
  | _ => none

/-- Whether an overlay is refused because the key has another one. -/
def overlappingOverlay (keyi : OverlayInfo) (overlay : ℕ) (key : Option KeyEntry) : Bool :=
  !info.isV2 && (overlaysGet keyi overlay).isNone && keyi.overlays != 0#8 &&
    !keyi.overlaysClear && key.isSome

/-- The fields `overlay1` to `overlay8` of `SetSymbolsField`. -/
def setOverlayField (field : List UInt8) (arrayNdx : Option ExprDef) (value : ExprDef) :
    Status × KeyInfo :=
  match exprResolveOverlayEntry info field arrayNdx value with
  | none => (.rejected, keyi)
  | some (none, _) => (.accepted, keyi)
  | some (some overlay, key) =>
    -- a key is not overlaid by itself
    if (key.map KeyEntry.name) = some keyi.name then (.accepted, keyi)
    else
      (if overlappingOverlay info keyi.overlays overlay key then
          .unlessStrict (info.strict .noFieldValueMismatch)
        else .accepted,
        { keyi with
          overlays := setOverlay info.isV2 keyi.overlays overlay (key.map KeyEntry.index) })

/-- `repeatEntries`. -/
def repeatEntries : List (List UInt8 × KeyRepeat) :=
  [(ascii "true", .yes), (ascii "yes", .yes), (ascii "on", .yes), (ascii "false", .no),
    (ascii "no", .no), (ascii "off", .no), (ascii "default", .undefined)]

/-- The field `repeat` of `SetSymbolsField`. -/
def setRepeatField : ExprDef → Status × KeyInfo
  | .ident name =>
    match lookupString repeatEntries name with
    | some keyRepeat => (.accepted, { keyi with keyRepeat, definedRepeat := true })
    | none => (.rejected, keyi)
  | _ => (.rejected, keyi)

/-- The fields `groupsWrap` and `groupsClamp` of `SetSymbolsField`, with the policies of the two
values. -/
def setPolicyField (ifTrue ifFalse : LayoutOutOfRangePolicy) (keyi : KeyInfo) (value : ExprDef) :
    Status × KeyInfo :=
  match exprResolveBoolean value with
  | none => (.rejected, keyi)
  | some set =>
    (.accepted,
      { keyi with
        outOfRangeGroupPolicy := if set then ifTrue else ifFalse
        definedGroupInfo := true })

/-- A key that redirects the groups out of range to one of them, or to one that is computed
later. -/
def KeyInfo.redirect (isPending : Bool) (number : ℕ) : KeyInfo :=
  { keyi with
    outOfRangePendingGroup := isPending
    outOfRangeGroupNumber := BitVec.ofNat 32 number
    outOfRangeGroupPolicy := .redirect
    definedGroupInfo := true }

/-- The field `groupsRedirect` of `SetSymbolsField`. -/
def setRedirectField (pending : List PendingComputation) (keyi : KeyInfo) (value : ExprDef) :
    KeyState :=
  match exprResolveGroup info.maxGroups info.groupNames false true value with
  | .ok grp => ⟨.accepted, keyi.redirect false (decrement grp), pending⟩
  | .error .pending =>
    ⟨.accepted, keyi.redirect true pending.length, pending ++ [{ expr := value }]⟩
  | .error err => ⟨.ofError err, keyi, pending⟩

/-- The fields of a key, as `SetSymbolsField` tells them apart. -/
inductive KeyFieldName
  | type | symbols | actions | vmods | groupswrap | groupsclamp | groupsredirect | overlay
  | repeating
  /-- A field that is not supported, and ignored. -/
  | ignored
  | unknown
  deriving DecidableEq, Repr

/-- The field of a name. -/
def keyFieldName (field : List UInt8) : KeyFieldName :=
  let isOneOf (names : List String) : Bool := names.any fun name => istreq field (ascii name)
  if isOneOf ["type"] then .type
  else if isOneOf ["symbols"] then .symbols
  else if isOneOf ["actions"] then .actions
  else if isOneOf ["vmods", "virtualmods", "virtualmodifiers"] then .vmods
  else if isOneOf ["locking", "lock", "locks", "radiogroup", "permanentradiogroup", "allownone"] ||
      istrneq field (ascii "permanentoverlay") then .ignored
  else if istrneq field (ascii "overlay") then .overlay
  else if isOneOf ["repeating", "repeats", "repeat"] then .repeating
  else if isOneOf ["groupswrap", "wrapgroups"] then .groupswrap
  else if isOneOf ["groupsclamp", "clampgroups"] then .groupsclamp
  else if isOneOf ["groupsredirect", "redirectgroups"] then .groupsredirect
  else .unknown

/-- `SetSymbolsField`. -/
def setSymbolsField (field : List UInt8) (arrayNdx : Option ExprDef) (value : ExprDef) : KeyState :=
  let keep (result : Status × KeyInfo) : KeyState := ⟨result.1, result.2, syms.pending⟩
  match keyFieldName field with
  | .type => keep (setTypeField info keyi arrayNdx value)
  | .symbols => keep (addSymbolsToKey info keyi arrayNdx value)
  | .actions => addActionsToKey info syms keyi arrayNdx value
  | .vmods =>
    match exprResolveModMask syms.mods .virt value with
    | .ok vmodmap => keep (.accepted, { keyi with vmodmap, definedVmodmap := true })
    | .error err => keep (.ofError err, keyi)
  | .overlay => keep (setOverlayField info keyi field arrayNdx value)
  | .repeating => keep (setRepeatField keyi value)
  | .groupswrap => keep (setPolicyField .wrap .clamp keyi value)
  | .groupsclamp => keep (setPolicyField .clamp .wrap keyi value)
  | .groupsredirect => setRedirectField info syms.pending keyi value
  | .ignored => keep (.accepted, keyi)
  | .unknown => keep (.unlessStrict (info.strict .noUnknownKeyFields), keyi)

/-! ### Statements -/

/-- The group that a name is given to: in a section with an explicit group, the first one stands
for it. -/
def groupToUse (explicitGroup : Option ℕ) (group : ℕ) : Option ℕ :=
  match explicitGroup with
  | none => some (decrement group)
  | some explicitGroup => if decrement group = 0 then some explicitGroup else none

/-- `SetGroupName`. -/
def setGroupName (merge : MergeMode) : Status × List (Option Atom) :=
  match arrayNdx with
  | none => (.rejected, syms.groupNames)
  | some arrayNdx =>
    match exprResolveGroup info.maxGroups info.groupNames false false arrayNdx with
    | .error err => (.ofError err, syms.groupNames)
    | .ok group =>
      match exprResolveString value with
      | none => (.rejected, syms.groupNames)
      | some name =>
        match groupToUse syms.explicitGroup group with
        | none => (.rejected, syms.groupNames)
        | some ndx =>
          let names := growFor none syms.groupNames ndx
          match names[ndx]? with
          | none => (.undefined, names)
          | some oldName =>
            let use := if oldName.isSome && merge == .augment then oldName else some name
            (.accepted, names.set ndx use)

/-- `HandleGlobalVar`. The merge mode of the new default is tested before it is set, so `replace`
is kept. -/
def handleGlobalVar (stmt : VarDef) : Status × SymbolsInfo :=
  match stmt.name.bind exprResolveLhs with
  | none => (.rejected, syms)
  | some ⟨elem, field, arrayNdx⟩ =>
    let isOneOf (names : List String) : Bool := names.any fun name => istreq field (ascii name)
    match elem with
    | some elem =>
      if istreq elem (ascii "key") then
        let temp : KeyInfo := {}
        let temp := { temp with merge := if temp.merge = .replace then .override else stmt.merge }
        let st := setSymbolsField info syms temp field arrayNdx stmt.value
        let syms := { syms with pending := st.pending }
        match st.status with
        | .accepted =>
          match mergeKeys info syms.defaultKey st.key with
          | some defaultKey => (.accepted, { syms with defaultKey })
          | none => (.undefined, syms)
        | status => (status, syms)
      else
        let (err, st) := setDefaultActionField info syms.mods ⟨syms.defaultActions, syms.pending⟩
          elem field arrayNdx stmt.value stmt.merge
        let syms := { syms with defaultActions := st.defaults, pending := st.pending }
        match err with
        | some .fatal => (.rejected, syms)
        | some .undefined => (.undefined, syms)
        | _ => (.accepted, syms)
    | none =>
      if isOneOf ["name", "groupname"] then
        let (status, groupNames) := setGroupName info syms arrayNdx stmt.value stmt.merge
        (status, { syms with groupNames })
      else if isOneOf ["groupswrap", "wrapgroups", "groupsclamp", "clampgroups", "groupsredirect",
          "redirectgroups", "allownone"] then (.accepted, syms)
      else (.unlessStrict (info.strict .noUnknownSymbolsGlobalFields), syms)

/-- One turn of the loop of `HandleSymbolsBody`. A value alone is a field `symbols` or `actions`. -/
def handleBodyField (stmt : VarDef) : KeyState :=
  match stmt.name, stmt.value with
  | none, .actionList list =>
    setSymbolsField info syms keyi (ascii "actions") none (.actionList list)
  | none, value => setSymbolsField info syms keyi (ascii "symbols") none value
  | some name, value =>
    match exprResolveLhs name with
    | some ⟨none, field, arrayNdx⟩ => setSymbolsField info syms keyi field arrayNdx value
    | _ => ⟨.rejected, keyi, syms.pending⟩

/-- `HandleSymbolsBody`. The fields after one that is rejected are still read. -/
def handleSymbolsBody (info : KeymapInfo) : SymbolsInfo → KeyInfo → List VarDef → KeyState
  | syms, keyi, [] => ⟨.accepted, keyi, syms.pending⟩
  | syms, keyi, stmt :: body =>
    let st := handleBodyField info syms keyi stmt
    if st.status = .undefined then st
    else
      let rest := handleSymbolsBody info { syms with pending := st.pending } st.key body
      { rest with status := st.status.and rest.status }

/-- `SetExplicitGroup`: the first group becomes the explicit one, and the others are cleared. -/
def setExplicitGroup : KeyInfo :=
  match syms.explicitGroup with
  | none => keyi
  | some explicitGroup =>
    let isDefined (groupi : GroupInfo) : Bool :=
      groupi.definedSyms || groupi.definedActs || groupi.definedType
    let cleared := keyi.groups.take 1 ++
      (keyi.groups.drop 1).map fun groupi => if isDefined groupi then {} else groupi
    let groups := darrayResize0 {} cleared (explicitGroup + 1)
    if explicitGroup = 0 then { keyi with groups }
    else { keyi with groups := (groups.set explicitGroup (groups.headD {})).set 0 {} }

/-- `XkbResolveKeyAlias`. -/
def xkbResolveKeyAlias (name : Atom) : Atom :=
  match info.xkbKeyByName name true with
  | some key => key.name
  | none => name

/-- `AddKeySymbols`; `none` if it aborts. -/
def addKeySymbols (keys : List KeyInfo) (keyi : KeyInfo) : Option (List KeyInfo) :=
  let keyi := { keyi with name := xkbResolveKeyAlias info keyi.name }
  match keys.findIdx? fun iter => iter.name == keyi.name with
  | none => some (keys ++ [keyi])
  | some i => (mergeKeys info (keys.getD i {}) keyi).map fun key => keys.set i key

/-- `HandleSymbolsDef`, which starts from the default key. -/
def handleSymbolsDef (merge : MergeMode) (keyName : Atom) (body : List VarDef) :
    Status × SymbolsInfo :=
  let st := handleSymbolsBody info syms { syms.defaultKey with merge, name := keyName } body
  let syms := { syms with pending := st.pending }
  match st.status with
  | .accepted =>
    match addKeySymbols info syms.keys (setExplicitGroup syms st.key) with
    | some keys => (.accepted, { syms with keys })
    | none => (.undefined, syms)
  | status => (status, syms)

/-! ### Modifier maps -/

/-- `AddModMapEntry`. -/
def addModMapEntry (modmaps : List ModMapEntry) (new : ModMapEntry) : List ModMapEntry :=
  match modmaps.findIdx? (·.target == new.target) with
  | none => modmaps ++ [new]
  | some i => modmaps.modify i fun old =>
    { old with mods := if new.merge = .augment then old.mods else new.mods }

/-- What an expression of a modifier map names; an invalid keysym and other expressions are
ignored. -/
def modMapTarget : ExprDef → Option ModMapTarget
  | .keyName name => some (.keyName name)
  | .keysym sym => if sym = 0 then none else some (.keySym sym)
  | _ => none

/-- `HandleModMapDef`, with the assertion on the first format. -/
def handleModMapDef (merge : MergeMode) (modifiers : ExprDef) (keys : List ExprDef) :
    Status × SymbolsInfo :=
  match exprResolveModMask syms.mods .real modifiers, modifiers with
  | .error err, _ => (.ofError err, syms)
  | .ok mods, .ident _ => (.accepted, addAll mods)
  | .ok mods, _ => if info.isV2 then (.accepted, addAll mods) else (.undefined, syms)
where
  addAll (mods : BitVec 32) : SymbolsInfo :=
    { syms with
      modmaps := (keys.filterMap modMapTarget).foldl
        (fun modmaps target => addModMapEntry modmaps ⟨merge, target, mods⟩) syms.modmaps }

end Xkbcommon.Xkbcomp
