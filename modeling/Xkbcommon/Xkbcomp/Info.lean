import Xkbcommon.Xkbcomp.Expr

/-!
# The context of a compilation

What the sections of a keymap read while they are compiled: the modifiers declared so far
(`struct xkb_mod_set`), the keys of the keycodes section, and how strict the compiler is
(`src/xkbcomp/xkbcomp-priv.h`).

The first keymap format rejects most mistakes, values out of range apart; the second
recovers from them, unless the strict mode is asked for.
-/

namespace Xkbcommon.Xkbcomp

/-! ### Modifiers -/

/-- The type of a modifier: `MOD_REAL` or `MOD_VIRT`. -/
inductive ModType
  | real | virt
  deriving DecidableEq, Repr

/-- `enum mod_type`, as a mask of the types that a place accepts. -/
inductive ModTypes
  | real | virt | both
  deriving DecidableEq, Repr

/-- Whether a type is in the mask. -/
def ModTypes.has : ModTypes → ModType → Bool
  | .both, _ => true
  | .real, type => type == .real
  | .virt, type => type == .virt

/-- `struct xkb_mod`. -/
structure XkbMod where
  name : Atom
  type : ModType
  mapping : BitVec 32 := 0#32
  deriving DecidableEq, Repr

/-- `struct xkb_mod_set`. -/
structure XkbModSet where
  mods : List XkbMod
  explicitVmods : BitVec 32 := 0#32
  deriving DecidableEq, Repr

/-- `XkbModNameToIndex`. -/
def xkbModNameToIndex (mods : XkbModSet) (name : Atom) (type : ModTypes) : Option ℕ :=
  mods.mods.findIdx? fun mod => type.has mod.type && mod.name == name

/-- `LookupModMask`. -/
def lookupModMask (mods : XkbModSet) (type : ModTypes) : IdentLookup := fun name =>
  if istreq name (ascii "all") then .ok modRealMaskAll
  else if istreq name (ascii "none") then .ok 0#32
  else match xkbModNameToIndex mods name type with
    | none => .error .failed
    | some ndx => .ok (1#32 <<< ndx)

/-- `ExprResolveModMask`. -/
def exprResolveModMask (mods : XkbModSet) (type : ModTypes) : ExprDef → Resolved (BitVec 32) :=
  exprResolveMaskLookup (lookupModMask mods type)

/-- `ExprResolveMod`. -/
def exprResolveMod (mods : XkbModSet) (type : ModTypes) : ExprDef → Option ℕ
  | .ident name => xkbModNameToIndex mods name type
  | _ => none

/-! ### Strictness -/

/-- `enum xkb_parser_strict_flags`. -/
inductive StrictFlag
  | noUnknownStatements | noFieldTypeMismatch | noFieldValueMismatch
  | noUnknownKeycodesGlobalFields | noUnknownTypesGlobalFields | noUnknownTypeFields
  | noUnknownCompatGlobalFields | noUnknownInterpretFields | noUnknownLedFields
  | noUnknownSymbolsGlobalFields | noUnknownKeyFields
  | noUnknownAction | noUnknownActionFields | noIllegalActionFields
  deriving DecidableEq, Repr

/-- `enum xkb_parser_error`. A result that may be `PARSER_SUCCESS` is an option of it. -/
inductive ParserError
  | recoverable | fatal
  /-- The behaviour of the source is undefined. -/
  | undefined
  deriving DecidableEq, Repr

/-- What a function of the source that returns `bool` does. -/
inductive Status
  | accepted | rejected
  /-- The behaviour of the source is undefined, or it aborts. -/
  | undefined
  deriving DecidableEq, Repr

/-- A field whose value cannot be resolved. -/
def Status.ofError : ResolveError → Status
  | .undefined => .undefined
  | _ => .rejected

/-- Both of two steps are accepted. -/
def Status.and : Status → Status → Status
  | .accepted, status => status
  | .rejected, .undefined => .undefined
  | .rejected, _ => .rejected
  | .undefined, _ => .undefined

theorem Status.and_eq_accepted {a b : Status} :
    a.and b = .accepted ↔ a = .accepted ∧ b = .accepted := by
  cases a <;> cases b <;> simp [Status.and]

/-- A mistake that only a strict compiler rejects. -/
def Status.unlessStrict (strict : Bool) : Status := if strict then .rejected else .accepted

/-! ### The keymap -/

/-- A key of the keycodes section. -/
structure KeyEntry where
  /-- Its index in `xkb_keymap::keys`. -/
  index : ℕ
  keycode : ℕ
  name : Atom
  deriving DecidableEq, Repr

/-- `struct xkb_keymap_info`, less what the compilation writes. -/
structure KeymapInfo where
  format : KeymapFormat
  /-- `XKB_KEYMAP_COMPILE_STRICT_MODE`. -/
  strictMode : Bool
  groupNames : GroupNames
  redirectKeyAuto : ℕ
  /-- `num_groups`, which is known beforehand if the keymap is made from rules, and else 0. -/
  numGroups : ℕ := 0
  /-- `XkbKeyByName`; its last argument says whether aliases count. -/
  xkbKeyByName : Atom → Bool → Option KeyEntry

/-- Whether a flag of `parser_strict_flags_from_keymap` is set. -/
def KeymapInfo.strict (info : KeymapInfo) (flag : StrictFlag) : Bool :=
  info.strictMode || (info.format == .textV1 && flag != .noFieldValueMismatch)

/-- `features.max_groups`. -/
def KeymapInfo.maxGroups (info : KeymapInfo) : ℕ := formatMaxGroups info.format

/-- Whether the second keymap format is compiled, as the other features ask. -/
def KeymapInfo.isV2 (info : KeymapInfo) : Bool := info.format == .textV2

/-- `features.max_overlays`. -/
def KeymapInfo.maxOverlays (info : KeymapInfo) : ℕ := if info.isV2 then 8 else 2

/-- `struct pending_computation`. -/
structure PendingComputation where
  expr : ExprDef
  computed : Bool := false
  value : BitVec 32 := 0#32
  deriving Repr

/-! ### A small context -/

/-- A keymap of the first format, without keys. -/
def plainInfo : KeymapInfo where
  format := .textV1
  strictMode := false
  groupNames := ⟨[(ascii "first", 1#32)], [(ascii "none", 0#32), (ascii "first", 1#32)]⟩
  redirectKeyAuto := 0
  xkbKeyByName := fun _ _ => none

/-- The first two real modifiers. -/
def plainMods : XkbModSet where
  mods := [⟨ascii "Shift", .real, 1#32⟩, ⟨ascii "Lock", .real, 2#32⟩]

/-! ### Merging -/

/-- Whether a field of a new definition replaces that of an old one: `UseNewKeyField`,
`UseNewInterpField` and `UseNewLEDField`, for the flags of the two definitions. -/
def useNewField (old new clobber : Bool) : Bool := if old then new && clobber else new

end Xkbcommon.Xkbcomp
