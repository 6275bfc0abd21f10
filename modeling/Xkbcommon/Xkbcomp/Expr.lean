import Xkbcommon.Xkbcomp.Ast

/-!
# Evaluation of expressions

`src/xkbcomp/expr.c`. An expression is read as an integer, a mask, a boolean, a string, a
name or a level, whatever its place asks for; identifiers are resolved by a table or a
pattern that comes with the place.

An evaluation may end without a value in three ways (`Xkbcommon.Xkbcomp.ResolveError`): with
a message, or *pending*, if it names the last layout before the number of layouts is known,
or undefined, where the source computes with `int64_t` and does not check for an overflow.
Integer expressions under `~` in a mask are evaluated as integers.
-/

namespace Xkbcommon.Xkbcomp

/-- Why an expression has no value. -/
inductive ResolveError
  /-- There is a message. -/
  | failed
  /-- The number of layouts has to be known first. -/
  | pending
  /-- An unchecked operation overflows: the behaviour of the source is undefined. -/
  | undefined
  deriving DecidableEq, Repr

/-- The result of an evaluation. -/
abbrev Resolved := Except ResolveError

/-- `IdentLookupFunc`, with its private data. -/
abbrev IdentLookup := Atom → Resolved (BitVec 32)

/-- `LookupEntry`. -/
abbrev LookupEntry := List UInt8 × BitVec 32

/-! ### Identifiers -/

/-- The value of the first entry with a name, as `SimpleLookup` and `LookupString` find it. -/
def lookupString {α : Type} (table : List (List UInt8 × α)) (name : List UInt8) : Option α :=
  (table.find? fun entry => istreq name entry.1).map Prod.snd

/-- `SimpleLookup`. -/
def simpleLookup (table : List LookupEntry) : IdentLookup := fun name =>
  match lookupString table name with
  | some value => .ok value
  | none => .error .failed

/-- `struct named_integer_pattern`: a word followed by a number. The entries that are pending
are only given where the caller can wait. -/
structure NamedIntegerPattern where
  word : List UInt8
  min : ℕ
  max : ℕ
  entries : List LookupEntry := []
  pendingEntries : List LookupEntry := []
  isMask : Bool := false

/-- The branch of `NamedIntegerPatternLookup` for a text that does not fit the pattern. -/
def patternEntries (pattern : NamedIntegerPattern) (name : Atom) : Resolved (BitVec 32) :=
  match lookupString pattern.entries name with
  | some value => .ok value
  | none =>
    if (lookupString pattern.pendingEntries name).isSome then .error .pending
    else .error .failed

/-- `NamedIntegerPatternLookup`. -/
def namedIntegerPatternLookup (pattern : NamedIntegerPattern) : IdentLookup := fun name =>
  let digits := name.drop pattern.word.length
  let parsed := if istrneq name pattern.word then parseDec 0xffffffff digits else some (0, 0)
  match parsed with
  | some (count, value) =>
    if 0 < count ∧ count = digits.length then
      if value < pattern.min ∨ pattern.max < value then .error .failed
      else .ok (if pattern.isMask then 1#32 <<< (value - pattern.min) else BitVec.ofNat 32 value)
    else patternEntries pattern name
  | none => patternEntries pattern name

/-! ### Integers -/

/-- The values of `int64_t`. -/
def InInt64 (x : ℤ) : Prop := -2 ^ 63 ≤ x ∧ x < 2 ^ 63

instance (x : ℤ) : Decidable (InInt64 x) := by
  unfold InInt64
  infer_instance

/-- The result of `ckd_add`, `ckd_sub` and `ckd_mul`. -/
def ckd (x : ℤ) : Resolved ℤ := if InInt64 x then .ok x else .error .failed

/-- The result of an operation that is not checked. -/
def unchecked (x : ℤ) : Resolved ℤ := if InInt64 x then .ok x else .error .undefined

/-- The value of an operation on integers. -/
def integerOp : BinaryOp → ℤ → ℤ → Resolved ℤ
  | .add, l, r => ckd (l + r)
  | .subtract, l, r => ckd (l - r)
  | .multiply, l, r => ckd (l * r)
  | .divide, l, r => if r = 0 then .error .failed else unchecked (l.tdiv r)
  | .assign, _, _ => .error .failed

/-- The value of an operation on one integer. Only the complement always fits. -/
def integerUnaryOp : UnaryOp → ℤ → Resolved ℤ
  | .not, _ => .error .failed
  | .negate, l => unchecked (-l)
  | .invert, l => .ok (-l - 1)
  | .unaryPlus, l => .ok l

/-- `ExprResolveIntegerLookup`. -/
def exprResolveIntegerLookup (lookup : IdentLookup) : ExprDef → Resolved ℤ
  | .integer ival => .ok ival
  | .ident name => (lookup name).map fun u => (u.toNat : ℤ)
  | .binary op left right =>
    if op = .assign then .error .failed
    else do
      let l ← exprResolveIntegerLookup lookup left
      let r ← exprResolveIntegerLookup lookup right
      integerOp op l r
  | .unary op child =>
    if op = .not then .error .failed
    else do
      let l ← exprResolveIntegerLookup lookup child
      integerUnaryOp op l
  | _ => .error .failed

/-- `ExprResolveInteger`: there are no identifiers. -/
def exprResolveInteger : ExprDef → Resolved ℤ := exprResolveIntegerLookup fun _ => .error .failed

/-! ### Masks -/

/-- An integer in the range of `uint32_t`. -/
def toMask (x : ℤ) : Resolved (BitVec 32) :=
  if 0 ≤ x ∧ x ≤ 0xffffffff then .ok (BitVec.ofInt 32 x) else .error .failed

/-- The value of an operation on masks. -/
def maskOp : BinaryOp → BitVec 32 → BitVec 32 → Resolved (BitVec 32)
  | .add, l, r => .ok (l ||| r)
  | .subtract, l, r => .ok (l &&& ~~~r)
  | _, _, _ => .error .failed

/-- `ExprResolveMaskLookup`. -/
def exprResolveMaskLookup (lookup : IdentLookup) : ExprDef → Resolved (BitVec 32)
  | .integer ival => toMask ival
  | .ident name => lookup name
  | .binary op left right =>
    if op = .assign then .error .failed
    else do
      let l ← exprResolveMaskLookup lookup left
      let r ← exprResolveMaskLookup lookup right
      maskOp op l r
  | .unary .invert child => do
    let v ← exprResolveIntegerLookup lookup child
    let m ← toMask v
    return ~~~m
  | .unary _ child => do
    let _ ← exprResolveIntegerLookup lookup child
    .error .failed
  | _ => .error .failed

/-- `ExprResolveMask`. -/
def exprResolveMask (values : List LookupEntry) : ExprDef → Resolved (BitVec 32) :=
  exprResolveMaskLookup (simpleLookup values)

/-! ### Other values -/

/-- `ExprResolveBoolean`. -/
def exprResolveBoolean : ExprDef → Option Bool
  | .boolean set => some set
  | .ident name =>
    if istreq name (ascii "true") || istreq name (ascii "yes") || istreq name (ascii "on") then
      some true
    else if istreq name (ascii "false") || istreq name (ascii "no") ||
        istreq name (ascii "off") then
      some false
    else none
  | .unary .invert child => (exprResolveBoolean child).map not
  | .unary .not child => (exprResolveBoolean child).map not
  | _ => none

/-- `ExprResolveString`. -/
def exprResolveString : ExprDef → Option Atom
  | .string str => some str
  | _ => none

/-- `ExprResolveEnum`. -/
def exprResolveEnum (values : List LookupEntry) : ExprDef → Option (BitVec 32)
  | .ident name => lookupString values name
  | _ => none

/-- The left hand side of an assignment: `element.field[index]`. -/
structure Lhs where
  element : Option Atom
  field : Atom
  index : Option ExprDef

/-- `ExprResolveLhs`. -/
def exprResolveLhs : ExprDef → Option Lhs
  | .ident name => some ⟨none, name, none⟩
  | .fieldRef element field => some ⟨some element, field, none⟩
  | .arrayRef element field entry => some ⟨element, field, some entry⟩
  | _ => none

/-- `XKB_LEVEL_MAX_IMPL`. -/
def xkbLevelMaxImpl : ℕ := 2048

/-- `ExprResolveLevel`: the level starts at 0. -/
def exprResolveLevel (expr : ExprDef) : Resolved ℕ := do
  let result ← exprResolveIntegerLookup
    (namedIntegerPatternLookup { word := ascii "Level", min := 1, max := xkbLevelMaxImpl }) expr
  if result < 1 ∨ xkbLevelMaxImpl < result then .error .failed
  else return (result - 1).toNat

/-- `buttonNames`. -/
def buttonNames : List LookupEntry :=
  [(ascii "Button1", 1#32), (ascii "Button2", 2#32), (ascii "Button3", 3#32),
    (ascii "Button4", 4#32), (ascii "Button5", 5#32), (ascii "default", 0#32)]

/-- `ExprResolveButton`. -/
def exprResolveButton : ExprDef → Resolved ℤ := exprResolveIntegerLookup (simpleLookup buttonNames)

/-! ### Groups -/

/-- `format_max_groups`. -/
def formatMaxGroups : KeymapFormat → ℕ
  | .textV1 => 4
  | .textV2 => 32

/-- `GROUP_LAST_INDEX_NAME`. -/
def groupLastIndexName : List UInt8 := ascii "last"

/-- The names of layouts that a compilation starts with, and `last` once the number of layouts
is known. -/
structure GroupNames where
  index : List LookupEntry
  mask : List LookupEntry

/-- `ExprResolveGroup`; the caller may wait for the number of layouts if `pending` is set. The
layouts start at 1. -/
def exprResolveGroup (maxGroups : ℕ) (names : GroupNames) (absolute pending : Bool)
    (expr : ExprDef) : Resolved ℕ := do
  let result ← exprResolveIntegerLookup
    (namedIntegerPatternLookup
      { word := ascii "Group", min := 1, max := maxGroups, entries := names.index
        pendingEntries := if pending then [(groupLastIndexName, 0#32)] else [] }) expr
  if result < (if absolute then 1 else 0) ∨ maxGroups < result then .error .failed
  else return result.toNat

/-- `ExprResolveGroupMask`. -/
def exprResolveGroupMask (maxGroups : ℕ) (names : GroupNames) (pending : Bool) (expr : ExprDef) :
    Resolved (BitVec 32) :=
  exprResolveMaskLookup
    (namedIntegerPatternLookup
      { word := ascii "Group", min := 1, max := maxGroups, entries := names.mask, isMask := true
        pendingEntries := if pending then [(groupLastIndexName, 0#32)] else [] }) expr

end Xkbcommon.Xkbcomp
