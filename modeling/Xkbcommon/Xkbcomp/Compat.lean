import Xkbcommon.Components
import Xkbcommon.Xkbcomp.Symbols

/-!
# Interpretations and indicators

`src/xkbcomp/compat.c`, up to the lists of a section. An *interpretation* gives actions to the
levels with a keysym, and an *indicator map* tells when an indicator is lit. As for keys, both
have defaults, set by statements such as `interpret.repeat = true` or
`indicator.modifiers = Lock`, and definitions of the same item are merged.

A list of actions is stored inline if a single one is left. The branch for a list of which only
one action is left reads past the end of the array; what it finds there is a parameter,
`Xkbcommon.Xkbcomp.storeInterpActions`.

The actions and the groups of an indicator may wait for the number of layouts, as in
`Xkbcommon.Xkbcomp.Action`. Messages are left out.
-/

namespace Xkbcommon.Xkbcomp

/-! ### Items -/

/-- `enum xkb_match_operation`. -/
inductive MatchOperation
  | none | anyOrNone | any | all | exactly
  deriving DecidableEq, Repr, Inhabited

/-- `SymInterpInfo`, as `InitInterp` leaves it. -/
structure SymInterpInfo where
  definedVirtualMod : Bool := false
  definedAction : Bool := false
  definedAutoRepeat : Bool := false
  definedLevelOneOnly : Bool := false
  merge : MergeMode := .default
  sym : Keysym := 0
  match_ : MatchOperation := .none
  mods : BitVec 32 := 0#32
  /-- The value `none` is `XKB_MOD_INVALID`. -/
  virtualMod : Option ℕ := Option.none
  levelOneOnly : Bool := false
  autoRepeat : Bool := false
  actions : ActionStore := {}
  deriving DecidableEq, Repr, Inhabited

/-- `LedInfo`, as `InitLED` leaves it. -/
structure LedInfo where
  definedMods : Bool := false
  definedGroups : Bool := false
  definedCtrls : Bool := false
  merge : MergeMode := .default
  name : Option Atom := Option.none
  whichGroups : BitVec 32 := 0#32
  pendingGroups : Bool := false
  groups : BitVec 32 := 0#32
  whichMods : BitVec 32 := 0#32
  mods : BitVec 32 := 0#32
  ctrls : BitVec 32 := 0#32
  deriving DecidableEq, Repr, Inhabited

/-- `CompatInfo`, less its name and how deep it is included. The pending computations are those of
the keymap. -/
structure CompatInfo where
  defaultInterp : SymInterpInfo := {}
  interps : List SymInterpInfo := []
  defaultLed : LedInfo := {}
  leds : List LedInfo := []
  defaultActions : ActionsInfo
  mods : XkbModSet
  pending : List PendingComputation := []

/-! ### Merging -/

/-- `MergeInterp`. -/
def mergeInterp (old new : SymInterpInfo) : SymInterpInfo :=
  if new.merge = .replace then new
  else
    let clobber := new.merge != .augment
    let useVirtualMod := useNewField old.definedVirtualMod new.definedVirtualMod clobber
    let useAction := useNewField old.definedAction new.definedAction clobber
    let useAutoRepeat := useNewField old.definedAutoRepeat new.definedAutoRepeat clobber
    let useLevelOneOnly := useNewField old.definedLevelOneOnly new.definedLevelOneOnly clobber
    { old with
      virtualMod := if useVirtualMod then new.virtualMod else old.virtualMod
      definedVirtualMod := old.definedVirtualMod || useVirtualMod
      actions := if useAction then new.actions else old.actions
      definedAction := old.definedAction || useAction
      autoRepeat := if useAutoRepeat then new.autoRepeat else old.autoRepeat
      definedAutoRepeat := old.definedAutoRepeat || useAutoRepeat
      levelOneOnly := if useLevelOneOnly then new.levelOneOnly else old.levelOneOnly
      definedLevelOneOnly := old.definedLevelOneOnly || useLevelOneOnly }

/-- The comparison that `MergeLedMap` starts with. -/
def sameLedMap (old new : LedInfo) : Bool :=
  old.mods == new.mods && old.pendingGroups == new.pendingGroups && old.groups == new.groups &&
    old.ctrls == new.ctrls && old.whichMods == new.whichMods && old.whichGroups == new.whichGroups

/-- `MergeLedMap`. The components of the state have no flag of their own: they are taken with the
modifiers and the groups. -/
def mergeLedMap (old new : LedInfo) : LedInfo :=
  if sameLedMap old new then
    { old with
      definedMods := old.definedMods || new.definedMods
      definedGroups := old.definedGroups || new.definedGroups
      definedCtrls := old.definedCtrls || new.definedCtrls }
  else if new.merge = .replace then new
  else
    let clobber := new.merge != .augment
    let useMods := useNewField old.definedMods new.definedMods clobber
    let useGroups := useNewField old.definedGroups new.definedGroups clobber
    let useCtrls := useNewField old.definedCtrls new.definedCtrls clobber
    { old with
      whichMods := if useMods then new.whichMods else old.whichMods
      mods := if useMods then new.mods else old.mods
      definedMods := old.definedMods || useMods
      whichGroups := if useGroups then new.whichGroups else old.whichGroups
      groups := if useGroups then new.groups else old.groups
      pendingGroups := if useGroups then new.pendingGroups else old.pendingGroups
      definedGroups := old.definedGroups || useGroups
      ctrls := if useCtrls then new.ctrls else old.ctrls
      definedCtrls := old.definedCtrls || useCtrls }

/-! ### Fields of an interpretation -/

/-- What setting a field leaves, with the pending computations so far. -/
structure FieldState (α : Type) where
  status : Status
  item : α
  pending : List PendingComputation

/-- The actions of an interpretation, for a list of definitions. The array with a single action is
read at the index 1, past its end. -/
def storeInterpActions (pastEnd : XkbAction) (numActions : ℕ) (toActs : List XkbAction) :
    ActionStore :=
  let store := toActs.foldl (storeAction numActions) {}
  match store.actions with
  | [] => store
  | [_] => { store with numActions := 1, action := pastEnd }
  | acts => { store with numActions := acts.length }

variable (info : KeymapInfo)

variable (pastEnd : XkbAction) (compat : CompatInfo)

/-- The field `action` of `SetInterpField`. -/
def setInterpAction (pastEnd : XkbAction) (si : SymInterpInfo) (arrayNdx : Option ExprDef)
    (value : ExprDef) :
    FieldState SymInterpInfo :=
  let stored (actions : ActionStore) (pending : List PendingComputation) :
      FieldState SymInterpInfo :=
    ⟨.accepted, { si with actions, definedAction := true }, pending⟩
  match arrayNdx, value with
  | some _, _ => ⟨.rejected, si, compat.pending⟩
  | none, .actionList levels =>
    let acts := levels.headD []
    if maxPerLevel < acts.length then ⟨.rejected, si, compat.pending⟩
    else
      match parseActions info compat.defaultActions compat.mods acts compat.pending with
      | (.error err, pending) => ⟨.ofParserError err, si, pending⟩
      | (.ok toActs, pending) => stored (storeInterpActions pastEnd acts.length toActs) pending
  | none, value =>
    match handleActionDef info compat.defaultActions compat.mods compat.pending value with
    | (none, st) =>
      stored { numActions := if st.action.type = .none then 0 else 1, action := st.action }
        st.pending
    | (some .recoverable, st) =>
      stored { numActions := 0, action := { st.action with type := .none } } st.pending
    | (some err, st) => ⟨.ofParserError err, si, st.pending⟩

/-- `useModMapValueNames`. -/
def useModMapValueNames : List (List UInt8 × Bool) :=
  [(ascii "LevelOne", true), (ascii "Level1", true), (ascii "AnyLevel", false),
    (ascii "any", false)]

/-- The fields of an interpretation, as `SetInterpField` tells them apart. -/
inductive InterpFieldName
  | action | virtualMod | autoRepeat | levelOneOnly
  /-- The field `locking`, which is ignored. -/
  | ignored
  | unknown
  deriving DecidableEq, Repr

/-- The field of a name. -/
def interpFieldName (field : List UInt8) : InterpFieldName :=
  let isOneOf (names : List String) : Bool := names.any fun name => istreq field (ascii name)
  if isOneOf ["action"] then .action
  else if isOneOf ["virtualmodifier", "virtualmod"] then .virtualMod
  else if isOneOf ["repeat"] then .autoRepeat
  else if isOneOf ["locking"] then .ignored
  else if isOneOf ["usemodmap", "usemodmapmods"] then .levelOneOnly
  else .unknown

/-- `SetInterpField`. -/
def setInterpField (pastEnd : XkbAction) (si : SymInterpInfo) (field : List UInt8)
    (arrayNdx : Option ExprDef) (value : ExprDef) :
    FieldState SymInterpInfo :=
  let store (si' : Option SymInterpInfo) : FieldState SymInterpInfo :=
    match arrayNdx, si' with
    | none, some si' => ⟨.accepted, si', compat.pending⟩
    | _, _ => ⟨.rejected, si, compat.pending⟩
  match interpFieldName field with
  | .action => setInterpAction info compat pastEnd si arrayNdx value
  | .virtualMod => store <| (exprResolveMod compat.mods .virt value).map fun ndx =>
    { si with virtualMod := some ndx, definedVirtualMod := true }
  | .autoRepeat => store <| (exprResolveBoolean value).map fun set =>
    { si with autoRepeat := set, definedAutoRepeat := true }
  | .levelOneOnly =>
    match value with
    | .ident name => store <| (lookupString useModMapValueNames name).map fun set =>
      { si with levelOneOnly := set, definedLevelOneOnly := true }
    | _ => store none
  | .ignored => ⟨.accepted, si, compat.pending⟩
  | .unknown => ⟨.unlessStrict (info.strict .noUnknownInterpretFields), si, compat.pending⟩

/-! ### Fields of an indicator -/

/-- `modComponentMaskNames`. -/
def modComponentMaskNames : List LookupEntry :=
  [(ascii "base", xkbStateModsDepressed), (ascii "latched", xkbStateModsLatched),
    (ascii "locked", xkbStateModsLocked), (ascii "effective", xkbStateModsEffective),
    (ascii "compat", xkbStateModsEffective), (ascii "any", xkbStateModsEffective),
    (ascii "none", 0#32)]

/-- `groupComponentMaskNames`. -/
def groupComponentMaskNames : List LookupEntry :=
  [(ascii "base", xkbStateLayoutDepressed), (ascii "latched", xkbStateLayoutLatched),
    (ascii "locked", xkbStateLayoutLocked), (ascii "effective", xkbStateLayoutEffective),
    (ascii "any", xkbStateLayoutEffective), (ascii "none", 0#32)]

/-- The fields of an indicator map, as `SetLedMapField` tells them apart. -/
inductive LedFieldName
  | mods | groups | ctrls | whichMods | whichGroups
  /-- A field that is not supported, and ignored. -/
  | ignored
  | unknown
  deriving DecidableEq, Repr

/-- The field of a name. -/
def ledFieldName (field : List UInt8) : LedFieldName :=
  let isOneOf (names : List String) : Bool := names.any fun name => istreq field (ascii name)
  if isOneOf ["modifiers", "mods"] then .mods
  else if isOneOf ["groups"] then .groups
  else if isOneOf ["controls", "ctrls"] then .ctrls
  else if isOneOf ["allowexplicit"] then .ignored
  else if isOneOf ["whichmodstate", "whichmodifierstate"] then .whichMods
  else if isOneOf ["whichgroupstate"] then .whichGroups
  else if isOneOf ["driveskbd", "driveskeyboard", "leddriveskbd", "leddriveskeyboard",
      "indicatordriveskbd", "indicatordriveskeyboard", "index"] then .ignored
  else .unknown

/-- The field `groups` of `SetLedMapField`. -/
def setLedGroups (pending : List PendingComputation) (ledi : LedInfo) (value : ExprDef) :
    FieldState LedInfo :=
  match exprResolveGroupMask info.maxGroups info.groupNames true value with
  | .ok groups =>
    ⟨.accepted, { ledi with groups, pendingGroups := false, definedGroups := true }, pending⟩
  | .error .pending =>
    ⟨.accepted,
      { ledi with
        groups := BitVec.ofNat 32 pending.length
        pendingGroups := true
        definedGroups := true }, pending ++ [{ expr := value }]⟩
  | .error err => ⟨.ofError err, ledi, pending⟩

/-- `SetLedMapField`. -/
def setLedMapField (ledi : LedInfo) (field : List UInt8) (arrayNdx : Option ExprDef)
    (value : ExprDef) : FieldState LedInfo :=
  let store (mask : Resolved (BitVec 32)) (set : BitVec 32 → LedInfo) : FieldState LedInfo :=
    match arrayNdx, mask with
    | none, .ok mask => ⟨.accepted, set mask, compat.pending⟩
    | none, .error err => ⟨.ofError err, ledi, compat.pending⟩
    | some _, _ => ⟨.rejected, ledi, compat.pending⟩
  match ledFieldName field with
  | .mods => store (exprResolveModMask compat.mods .both value) fun mods =>
    { ledi with mods, definedMods := true }
  | .groups =>
    match arrayNdx with
    | none => setLedGroups info compat.pending ledi value
    | some _ => ⟨.rejected, ledi, compat.pending⟩
  | .ctrls => store (exprResolveMask (ctrlMaskNames info) value) fun ctrls =>
    { ledi with ctrls, definedCtrls := true }
  | .whichMods => store (exprResolveMask modComponentMaskNames value) fun whichMods =>
    { ledi with whichMods }
  | .whichGroups => store (exprResolveMask groupComponentMaskNames value) fun whichGroups =>
    { ledi with whichGroups }
  | .ignored => ⟨.accepted, ledi, compat.pending⟩
  | .unknown => ⟨.unlessStrict (info.strict .noUnknownLedFields), ledi, compat.pending⟩

/-! ### Statements -/

/-- `HandleGlobalVar` of the section. The merge mode of a new default is tested before it is set,
so `replace` is kept. -/
def handleCompatGlobalVar (stmt : VarDef) : Status × CompatInfo :=
  match stmt.name.bind exprResolveLhs with
  | none => (.rejected, compat)
  | some ⟨none, _, _⟩ => (.unlessStrict (info.strict .noUnknownCompatGlobalFields), compat)
  | some ⟨some elem, field, ndx⟩ =>
    if istreq elem (ascii "interpret") then
      let temp : SymInterpInfo := {}
      let temp := { temp with merge := if temp.merge = .replace then .override else stmt.merge }
      let st := setInterpField info compat pastEnd temp field ndx stmt.value
      let compat := { compat with pending := st.pending }
      if st.status = .accepted then
        (.accepted, { compat with defaultInterp := mergeInterp compat.defaultInterp st.item })
      else (st.status, compat)
    else if istreq elem (ascii "indicator") then
      let temp : LedInfo := {}
      let temp := { temp with merge := if temp.merge = .replace then .override else stmt.merge }
      let st := setLedMapField info compat temp field ndx stmt.value
      let compat := { compat with pending := st.pending }
      if st.status = .accepted then
        (.accepted, { compat with defaultLed := mergeLedMap compat.defaultLed st.item })
      else (st.status, compat)
    else
      let (err, st) := setDefaultActionField info compat.mods
        ⟨compat.defaultActions, compat.pending⟩ elem field ndx stmt.value stmt.merge
      let compat := { compat with defaultActions := st.defaults, pending := st.pending }
      match err with
      | some .fatal => (.rejected, compat)
      | some .undefined => (.undefined, compat)
      | _ => (.accepted, compat)

/-- The fields of a definition, set by `setField` one after the other: `HandleInterpBody` and the
loop of `HandleLedMapDef`. The fields after one that is rejected are still read. -/
def handleCompatBody {α : Type}
    (setField : CompatInfo → α → List UInt8 → Option ExprDef → ExprDef → FieldState α) :
    CompatInfo → α → List VarDef → FieldState α
  | compat, item, [] => ⟨.accepted, item, compat.pending⟩
  | compat, item, stmt :: body =>
    let st : FieldState α :=
      match stmt.name.bind exprResolveLhs with
      | some ⟨none, field, arrayNdx⟩ => setField compat item field arrayNdx stmt.value
      | _ => ⟨.rejected, item, compat.pending⟩
    if st.status = .undefined then st
    else
      let rest := handleCompatBody setField { compat with pending := st.pending } st.item body
      { rest with status := st.status.and rest.status }

/-- `symInterpretMatchMaskNames`. -/
def symInterpretMatchMaskNames : List (List UInt8 × MatchOperation) :=
  [(ascii "NoneOf", .none), (ascii "AnyOfOrNone", .anyOrNone), (ascii "AnyOf", .any),
    (ascii "AllOf", .all), (ascii "Exactly", .exactly)]

/-- `ResolveStateAndPredicate`. -/
def resolveStateAndPredicate (mods : XkbModSet) :
    Option ExprDef → Resolved (MatchOperation × BitVec 32)
  | none => .ok (.anyOrNone, modRealMaskAll)
  | some (.action name args) =>
    match lookupString symInterpretMatchMaskNames name, args with
    | some pred, [expr] => (exprResolveModMask mods .real expr).map (pred, ·)
    | _, _ => .error .failed
  | some (.ident name) =>
    if istreq name (ascii "any") then .ok (.any, modRealMaskAll)
    else (exprResolveModMask mods .real (.ident name)).map (.exactly, ·)
  | some expr => (exprResolveModMask mods .real expr).map (.exactly, ·)

/-- `AddInterp`; the comparison is that of `FindMatchingInterp`. -/
def addInterp (interps : List SymInterpInfo) (new : SymInterpInfo) : List SymInterpInfo :=
  match interps.findIdx? fun old =>
      old.sym == new.sym && old.mods == new.mods && old.match_ == new.match_ with
  | none => interps ++ [new]
  | some i => interps.set i (mergeInterp (interps.getD i {}) new)

/-- `HandleInterpDef`, which starts from the default interpretation. -/
def handleInterpDef (merge : MergeMode) (sym : Keysym) (condition : Option ExprDef)
    (body : List VarDef) :
    Status × CompatInfo :=
  match resolveStateAndPredicate compat.mods condition with
  | .error err => (.ofError err, compat)
  | .ok (pred, mods) =>
    let si := { compat.defaultInterp with merge, sym, match_ := pred, mods }
    let st := handleCompatBody (fun compat => setInterpField info compat pastEnd) compat si body
    let compat := { compat with pending := st.pending }
    if st.status = .accepted then
      (.accepted, { compat with interps := addInterp compat.interps st.item })
    else (st.status, compat)

/-- `XKB_MAX_LEDS`. -/
def xkbMaxLeds : ℕ := 32

/-- `AddLedMap`. -/
def addLedMap (leds : List LedInfo) (new : LedInfo) : Status × List LedInfo :=
  match leds.findIdx? fun old => old.name == new.name with
  | some i => (.accepted, leds.set i (mergeLedMap (leds.getD i {}) new))
  | none => if xkbMaxLeds ≤ leds.length then (.rejected, leds) else (.accepted, leds ++ [new])

/-- `HandleLedMapDef`, which starts from the default indicator. -/
def handleLedMapDef (merge : MergeMode) (name : Atom) (body : List VarDef) : Status × CompatInfo :=
  let ledi := { compat.defaultLed with merge, name := some name }
  let st := handleCompatBody (setLedMapField info) compat ledi body
  let compat := { compat with pending := st.pending }
  if st.status = .accepted then
    let (status, leds) := addLedMap compat.leds st.item
    (status, { compat with leds })
  else (st.status, compat)

end Xkbcommon.Xkbcomp
