import Mathlib.Data.BitVec
import Mathlib.Data.List.DropRight
import Xkbcommon.Keysyms

/-!
# The names a rules file is matched against

A keyboard is asked for by rules, model, layouts, variants and options, which come as
comma-joined strings, `struct xkb_rule_names`. The matcher breaks them down to
`Xkbcommon.RuleNames`: one model, as many variants as layouts, and a list of options, each for all
layouts or for some of them.
-/

namespace Xkbcommon

open List

/-- `XKB_MAX_GROUPS`. -/
def xkbMaxGroups : ℕ := 32

/-- `enum rules_mlvo`. -/
inductive RulesMlvo
  | model | layout | variant | option
  deriving DecidableEq, Repr

/-- `XKB_OPTION_LAYOUT_MASK_GLOBAL`: the layouts of an option that is not for some layouts
only. -/
def optionLayoutMaskGlobal : BitVec 32 := 0#32

/-- `struct matched_sval`, without the mark that tells whether the value was matched. -/
structure MatchedSval where
  sval : List UInt8
  layouts : BitVec 32 := optionLayoutMaskGlobal
  deriving DecidableEq, Repr

/-- **`struct rule_names`**: the names, broken down. There is always a layout and an option,
and each layout has its variant. -/
structure RuleNames where
  model : List UInt8
  layouts : List (List UInt8)
  variants : List (List UInt8)
  options : List MatchedSval
  layouts_ne_nil : layouts ≠ []
  variants_length : variants.length = layouts.length
  options_ne_nil : options ≠ []

/-! ### Numbers in text -/

/-- `parse_dec_to_uint32_t`: the number of digits read and their value, if it fits. -/
def parseDecToUint32 (s : List UInt8) : Option (ℕ × ℕ) := parseDec (2 ^ 32 - 1) s

/-- What `snprintf` prints for `%u`. -/
def decimal (n : ℕ) : List UInt8 := (Nat.toDigits 10 n).map Char.toUInt8

/-! ### Splitting a comma-joined string -/

/-- `strip_spaces`. -/
def stripSpaces (v : List UInt8) : List UInt8 :=
  (v.dropWhile isSpace).rdropWhile isSpace

/-- The layout mask that stands after the `!` of an option. -/
def specifierLayouts (spec : List UInt8) : BitVec 32 :=
  match parseDecToUint32 spec with
  | some (count, layout) =>
    -- a number that is followed by something else is reported, but counts all the same
    if 0 < count ∧ layout ≠ 0 ∧ layout ≤ xkbMaxGroups then 1#32 <<< (layout - 1)
    else optionLayoutMaskGlobal
  | none => optionLayoutMaskGlobal

/-- One item of a comma-joined string. -/
def splitItem (mlvo : RulesMlvo) (item : List UInt8) : MatchedSval where
  sval := stripSpaces (item.takeWhile (· != 0x21))
  layouts :=
    match mlvo, item.dropWhile (· != 0x21) with
    | .option, _ :: spec => specifierLayouts spec
    | _, _ => optionLayoutMaskGlobal

/-- An option is merged with an earlier one of its name. One for all layouts overrides the
ones for some. -/
def mergeOption (val : MatchedSval) : List MatchedSval → List MatchedSval
  | [] => [val]
  | prev :: arr =>
    if prev.sval = val.sval then
      if val.layouts = optionLayoutMaskGlobal then { prev with layouts := val.layouts } :: arr
      else if prev.layouts ≠ optionLayoutMaskGlobal then
        { prev with layouts := prev.layouts ||| val.layouts } :: arr
      else prev :: arr
    else prev :: mergeOption val arr

/-- What one item adds to the values found so far. -/
def addItem (mlvo : RulesMlvo) (arr : List MatchedSval) (item : List UInt8) : List MatchedSval :=
  let val := splitItem mlvo item
  if mlvo = .option then
    if val.sval ≠ [] then mergeOption val arr else arr
  else arr ++ [val]

/-- The list, or one empty value if there is none. -/
def ensureAtLeastOneValue : List MatchedSval → List MatchedSval
  | [] => [{ sval := [] }]
  | val :: arr => val :: arr

/-- `split_comma_separated_mlvo`. -/
def splitCommaSeparatedMlvo (mlvo : RulesMlvo) : Option (List UInt8) → List MatchedSval
  | none => [{ sval := [] }]
  | some s => ensureAtLeastOneValue ((s.splitOn 0x2c).foldl (addItem mlvo) [])

theorem ensureAtLeastOneValue_ne_nil (arr : List MatchedSval) : ensureAtLeastOneValue arr ≠ [] := by
  cases arr <;> exact cons_ne_nil _ _

theorem splitCommaSeparatedMlvo_ne_nil (mlvo : RulesMlvo) (s : Option (List UInt8)) :
    splitCommaSeparatedMlvo mlvo s ≠ [] := by
  cases s with
  | none => exact cons_ne_nil _ _
  | some s => exact ensureAtLeastOneValue_ne_nil _

/-- `darray_resize0` and `darray_resize`: new entries are empty. -/
def resizeValues (n : ℕ) (values : List (List UInt8)) : List (List UInt8) :=
  values.take n ++ List.replicate (n - values.length) []

theorem length_resizeValues (n : ℕ) (values : List (List UInt8)) :
    (resizeValues n values).length = n := by
  rw [resizeValues, length_append, length_take, length_replicate]
  omega

/-! ### The names -/

/-- `struct xkb_rule_names`; `none` is a null pointer. -/
structure XkbRuleNames where
  rules : Option (List UInt8)
  model : Option (List UInt8)
  layout : Option (List UInt8)
  variant : Option (List UInt8)
  options : Option (List UInt8)
  deriving DecidableEq, Repr

/-- The layouts and the variants of two comma-joined strings, options being given. -/
def ruleNamesOf (model : List UInt8) (layout variant : Option (List UInt8))
    (options : List MatchedSval) (h : options ≠ []) : RuleNames where
  model := model
  layouts := (splitCommaSeparatedMlvo .layout layout).map MatchedSval.sval
  variants := resizeValues (splitCommaSeparatedMlvo .layout layout).length
    ((splitCommaSeparatedMlvo .variant variant).map MatchedSval.sval)
  options := options
  layouts_ne_nil := by
    rw [ne_eq, List.map_eq_nil_iff]
    exact splitCommaSeparatedMlvo_ne_nil _ _
  variants_length := by rw [length_resizeValues, List.length_map]
  options_ne_nil := h

/-- `matcher_new_from_names`: the names of the matcher. -/
def matcherNewFromNames (rmlvo : XkbRuleNames) : RuleNames :=
  ruleNamesOf (rmlvo.model.getD []) rmlvo.layout rmlvo.variant
    (splitCommaSeparatedMlvo .option rmlvo.options) (splitCommaSeparatedMlvo_ne_nil _ _)

end Xkbcommon
