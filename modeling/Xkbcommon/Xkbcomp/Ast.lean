import Xkbcommon.Keysyms
import Xkbcommon.Xkbcomp.OverlayInfo

/-!
# The syntax tree of keymap texts

The types of `src/xkbcomp/ast.h` that the compilation of a section reads. An atom is the
text it stands for. A chain of statements or expressions that the source links through
`common.next` is a list.

Comparisons of names ignore the case of ASCII letters (`Xkbcommon.Xkbcomp.istreq`), except those of
atoms, which are equalities.
-/

namespace Xkbcommon.Xkbcomp

/-- `xkb_atom_t`, as the interned text. -/
abbrev Atom := List UInt8

/-- `to_lower`. -/
def toLower (c : UInt8) : UInt8 := if 0x41 ≤ c ∧ c ≤ 0x5a then c + 0x20 else c

/-- `istreq`. -/
def istreq (s t : List UInt8) : Bool := s.map toLower == t.map toLower

/-- `istrneq`, for a text `t` of the length that is compared. -/
def istrneq (s t : List UInt8) : Bool := istreq (s.take t.length) t

theorem istreq_iff {s t : List UInt8} : istreq s t = true ↔ s.map toLower = t.map toLower :=
  beq_iff_eq

/-! ### Expressions -/

/-- The operators with two operands. -/
inductive BinaryOp
  | add | subtract | multiply | divide | assign
  deriving DecidableEq, Repr

/-- The operators with one operand. -/
inductive UnaryOp
  | not | negate | invert | unaryPlus
  deriving DecidableEq, Repr

/-- `ExprDef`. The literals of integers are `int64_t`, and `keysym` is 0 for a text that
names no keysym. -/
inductive ExprDef
  | string (str : Atom)
  | integer (ival : ℤ)
  | float
  | boolean (set : Bool)
  | keyName (name : Atom)
  | keysym (sym : Keysym)
  | ident (name : Atom)
  | action (name : Atom) (args : List ExprDef)
  | fieldRef (element field : Atom)
  /-- The element is missing in `field[entry]`. -/
  | arrayRef (element : Option Atom) (field : Atom) (entry : ExprDef)
  /-- A list of levels that are all `{}`. -/
  | emptyList
  /-- The keysyms of each level. -/
  | keysymList (levels : List (List Keysym))
  /-- The actions of each level. -/
  | actionList (levels : List (List ExprDef))
  | binary (op : BinaryOp) (left right : ExprDef)
  | unary (op : UnaryOp) (child : ExprDef)
  deriving Repr

/-! ### Statements -/

/-- One item of an `IncludeStmt`, as `include "a(b):c+d"` has two of them. -/
structure IncludeItem where
  merge : MergeMode
  file : List UInt8
  map : Option (List UInt8)
  modifier : Option (List UInt8)
  deriving DecidableEq, Repr

/-- `VarDef`. The name is missing for a value alone, as in `key <A> { [a] }`. -/
structure VarDef where
  merge : MergeMode := .default
  name : Option ExprDef
  value : ExprDef
  deriving Repr

/-- `VModDef`. -/
structure VModDef where
  merge : MergeMode := .default
  name : Atom
  value : Option ExprDef
  deriving Repr

/-- `KeyTypeDef`. -/
structure KeyTypeDef where
  merge : MergeMode := .default
  name : Atom
  body : List VarDef
  deriving Repr

/-- The statements of a section. -/
inductive Stmt
  | include (item : IncludeItem) (items : List IncludeItem)
  | keycode (merge : MergeMode) (name : Atom) (value : ℤ)
  | keyAlias (merge : MergeMode) (name real : Atom)
  | var (decl : VarDef)
  | type (decl : KeyTypeDef)
  | interp (merge : MergeMode) (sym : Keysym) (condition : Option ExprDef) (body : List VarDef)
  | vmod (decl : VModDef)
  | symbols (merge : MergeMode) (keyName : Atom) (body : List VarDef)
  | modMap (merge : MergeMode) (modifiers : ExprDef) (keys : List ExprDef)
  | groupCompat (merge : MergeMode) (group : ℤ) (value : ExprDef)
  | ledMap (merge : MergeMode) (name : Atom) (body : List VarDef)
  | ledName (merge : MergeMode) (isVirtual : Bool) (ndx : ℤ) (name : ExprDef)
  | unknownDeclaration (name : List UInt8)
  | unknownCompound (name : List UInt8)
  deriving Repr

end Xkbcommon.Xkbcomp
