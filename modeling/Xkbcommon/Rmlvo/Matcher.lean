import Mathlib.Logic.Function.Basic
import Xkbcommon.Lib.Masks
import Xkbcommon.Rmlvo.Expand
import Xkbcommon.Rmlvo.Lexer
import Xkbcommon.Utf8

/-!
# The rules matcher

`src/xkbcomp/rules.c` from `matcher_group_start_new` on: a state machine over the tokens of a
rules file that gathers keycodes, types, compatibility, symbols and geometry for given names.

A rules file is a list of group definitions, includes and rule sets. The header of a rule set
names the fields its rules are matched by, and the components they give a value for. A layout
or a variant field has an index, or a range of them; a set whose range has several layouts
buffers the values, and merges them at its end, layout by layout.

The texts of a file are read in place, so that a group is only there as long as its file is
mapped (`Xkbcommon.Group.mapped`). The files themselves, and where they are searched for, are
given by a `Xkbcommon.RulesEnv`. Messages are left out, and with them the marks that only they
read: of `matched` there is only the one of the options, which an assertion reads too.
-/

namespace Xkbcommon

/-- `enum rules_kccgst`. -/
inductive RulesKccgst
  | keycodes | types | compat | symbols | geometry
  deriving DecidableEq, Repr

/-- `rules_mlvo_svals`. -/
def RulesMlvo.text : RulesMlvo → List UInt8
  | .model => ascii "model"
  | .layout => ascii "layout"
  | .variant => ascii "variant"
  | .option => ascii "option"

/-- `rules_kccgst_svals`. -/
def RulesKccgst.text : RulesKccgst → List UInt8
  | .keycodes => ascii "keycodes"
  | .types => ascii "types"
  | .compat => ascii "compat"
  | .symbols => ascii "symbols"
  | .geometry => ascii "geometry"

/-- `struct group`, and whether the file it stands in is still mapped. -/
structure Group where
  name : List UInt8
  elements : List (List UInt8) := []
  mapped : Bool := true
  deriving DecidableEq, Repr

/-- `struct mapping`: the header of a rule set. The indices of the fields and the range of
layouts are kept apart; `active` is both the truth value and the layouts still to match. -/
structure Mapping where
  mlvo : List RulesMlvo := []
  kccgst : List RulesKccgst := []
  layoutIdx : ℕ := xkbLayoutInvalid
  variantIdx : ℕ := xkbLayoutInvalid
  layoutIdxMin : ℕ := xkbLayoutInvalid
  layoutIdxMax : ℕ := xkbLayoutInvalid
  hasMultipleLayouts : Bool := false
  active : BitVec 32 := 1#32
  deriving DecidableEq, Repr

/-- `enum mlvo_match_type`, with the value to match. -/
inductive MlvoMatch
  | normal (value : List UInt8)
  | wildcardLegacy
  | wildcardNone
  | wildcardSome
  | wildcardAny
  | group (name : List UInt8)
  deriving DecidableEq, Repr

/-- `enum wildcard_match_type`. -/
inductive WildcardMatch
  | nonempty | all
  deriving DecidableEq, Repr

/-- `struct rule`. -/
structure Rule where
  mlvoValues : List MlvoMatch := []
  kccgstValues : List (List UInt8) := []
  skip : Bool := false
  deriving DecidableEq, Repr

/-- `struct kccgst_buffer_slice`, with its part of the buffer. -/
structure Slice where
  kccgst : RulesKccgst
  layout : ℕ
  text : List UInt8
  deriving DecidableEq, Repr

/-- **`struct matcher`**, without the names, which do not change; `marks` is the `matched` of
each option. -/
structure Matcher where
  groups : List Group := []
  mapping : Mapping := {}
  rule : Rule := {}
  pending : List Slice := []
  kccgst : RulesKccgst → List UInt8 := fun _ => []
  marks : List (BitVec 32) := []

/-! ### The header of a rule set -/

/-- `LAYOUT_INDEX_SINGLE`. -/
def layoutIndexSingle : ℕ := xkbLayoutInvalid - 5

/-- `LAYOUT_INDEX_FIRST`. -/
def layoutIndexFirst : ℕ := xkbLayoutInvalid - 4

/-- `LAYOUT_INDEX_LATER`. -/
def layoutIndexLater : ℕ := xkbLayoutInvalid - 3

/-- `LAYOUT_INDEX_MULTIPLE`. -/
def layoutIndexMultiple : ℕ := xkbLayoutInvalid - 2

/-- `LAYOUT_INDEX_ANY`. -/
def layoutIndexAny : ℕ := xkbLayoutInvalid - 1

/-- The named ranges of `extract_mapping_layout_index`. -/
def layoutIndexRanges : List (List UInt8 × ℕ) :=
  [(ascii "[single]", layoutIndexSingle), (ascii "[first]", layoutIndexFirst),
   (ascii "[later]", layoutIndexLater), (ascii "[multiple]", layoutIndexMultiple),
   (ascii "[any]", layoutIndexAny)]

/-- `extract_mapping_layout_index`: the index that all of the text stands for. -/
def extractMappingLayoutIndex (s : List UInt8) : Option ℕ :=
  if s.length < 3 ∨ s.head? ≠ some 0x5b then none
  else
    match layoutIndexRanges.lookup s with
    | some idx => some idx
    | none =>
      match parseLayoutIntIndexTail s with
      | none => none
      | some (idx, count) => if count = s.length then some idx else none

/-- The field a word of a header starts with, and what follows its name. -/
def mlvoOf (ident : List UInt8) : Option (RulesMlvo × List UInt8) :=
  if RulesMlvo.model.text <+: ident then some (.model, ident.drop 5)
  else if RulesMlvo.layout.text <+: ident then some (.layout, ident.drop 6)
  else if RulesMlvo.variant.text <+: ident then some (.variant, ident.drop 7)
  else if RulesMlvo.option.text <+: ident then some (.option, ident.drop 6)
  else none

/-- The rule set is not used. -/
def Mapping.deactivate (mp : Mapping) : Mapping := { mp with active := 0#32 }

/-- The end of `matcher_mapping_set_mlvo`: the layout and the variant have the same index. -/
def Mapping.addMlvo (mp : Mapping) (mlvo : RulesMlvo) : Mapping :=
  if ((mlvo = .layout ∧ .variant ∈ mp.mlvo) ∨ (mlvo = .variant ∧ .layout ∈ mp.mlvo)) ∧
      mp.layoutIdx ≠ mp.variantIdx then mp.deactivate
  else { mp with mlvo := mp.mlvo ++ [mlvo] }

/-- `matcher_mapping_set_mlvo`. -/
def matcherMappingSetMlvo (mp : Mapping) (ident : List UInt8) : Mapping :=
  match mlvoOf ident with
  | none => mp.deactivate
  | some (mlvo, rest) =>
    if mlvo ∈ mp.mlvo then mp.deactivate
    else
      -- if there are leftovers still, it must be an index
      match if rest = [] then some layoutIndexSingle else extractMappingLayoutIndex rest with
      | none => mp.deactivate
      | some idx =>
        match mlvo with
        | .layout => { mp with layoutIdx := idx }.addMlvo .layout
        | .variant => { mp with variantIdx := idx }.addMlvo .variant
        | mlvo => if rest = [] then mp.addMlvo mlvo else mp.deactivate

/-- `matcher_mapping_set_kccgst`. -/
def matcherMappingSetKccgst (mp : Mapping) (ident : List UInt8) : Mapping :=
  match [RulesKccgst.keycodes, .types, .compat, .symbols, .geometry].find?
      (fun k => k.text == ident) with
  | none => mp.deactivate
  | some kccgst =>
    if kccgst ∈ mp.kccgst then mp.deactivate else { mp with kccgst := mp.kccgst ++ [kccgst] }

/-- The restriction on the index of a layout field, for so many layouts. -/
def layoutIdxApplies (size idx : ℕ) : Bool :=
  if idx = layoutIndexSingle then size ≤ 1
  else if idx = layoutIndexMultiple ∨ idx = layoutIndexLater then 2 ≤ size
  else if idx = layoutIndexAny ∨ idx = layoutIndexFirst then true
  else 2 ≤ size && idx < size

/-- The restriction on the index of a variant field, for so many variants. It has no case of
its own for `multiple`. -/
def variantIdxApplies (size idx : ℕ) : Bool :=
  if idx = layoutIndexSingle then size ≤ 1
  else if idx = layoutIndexAny ∨ idx = layoutIndexLater ∨ idx = layoutIndexFirst then true
  else 2 ≤ size && idx < size

variable (names : RuleNames)

variable (groups : List Group) (m : Matcher) (mp : Mapping) (val : MlvoMatch)
  (candidates : BitVec 32)

/-- `matcher_mapping_verify`. -/
def matcherMappingVerify : Except Fault Bool :=
  if mp.mlvo = [] ∨ mp.kccgst = [] then .ok false
  else if .layout ∈ mp.mlvo ∧ mp.layoutIdx = xkbLayoutInvalid then .error .headerIndex
  else if .layout ∈ mp.mlvo ∧ layoutIdxApplies names.layouts.length mp.layoutIdx = false then
    .ok false
  else if .variant ∈ mp.mlvo ∧ mp.variantIdx = xkbLayoutInvalid then .error .headerIndex
  else if .variant ∈ mp.mlvo ∧ variantIdxApplies names.variants.length mp.variantIdx = false then
    .ok false
  else .ok true

/-- The layouts below `n`, as a mask. -/
def layoutsBelow (n : ℕ) : BitVec 32 := BitVec.ofNat 32 (2 ^ n - 1)

/-- A range of layouts, and what is to be matched of it. -/
def Mapping.setBounds (min max : ℕ) (candidates : BitVec 32) : Mapping :=
  { mp with
    layoutIdxMin := min
    layoutIdxMax := max
    active := candidates
    hasMultipleLayouts := decide (min < max ∧ 1 < max - min) }

/-- `matcher_mapping_set_layout_bounds`. -/
def matcherMappingSetLayoutBounds : Except Fault Mapping :=
  -- handles the case where one of the indices is `XKB_LAYOUT_INVALID`
  let idx := min mp.layoutIdx mp.variantIdx
  let size := min xkbMaxGroups names.layouts.length
  if idx = xkbLayoutInvalid then
    if .layout ∈ mp.mlvo ∨ .variant ∈ mp.mlvo then .error .headerIndex
    else .ok (mp.setBounds xkbLayoutInvalid xkbLayoutInvalid 1#32)
  else if idx = layoutIndexLater then .ok (mp.setBounds 1 size (layoutsBelow size &&& ~~~1#32))
  else if idx = layoutIndexMultiple ∨ idx = layoutIndexAny then
    .ok (mp.setBounds 0 size (layoutsBelow size))
  else if idx = layoutIndexSingle ∨ idx = layoutIndexFirst then .ok (mp.setBounds 0 1 1#32)
  else .ok (mp.setBounds idx (idx + 1) (1#32 <<< idx))

/-- The end of a header. -/
def endOfHeader : Except Fault Matcher :=
  if m.mapping.active = 0#32 then .ok m
  else do
    if ← matcherMappingVerify names m.mapping then
      let mp ← matcherMappingSetLayoutBounds names m.mapping
      .ok { m with mapping := mp, pending := if mp.hasMultipleLayouts then [] else m.pending }
    else .ok { m with mapping := m.mapping.deactivate }

/-! ### Matching a rule -/

/-- `match_group`: the first group of the name decides. -/
def matchGroup (groups : List Group) (name value : List UInt8) : Except Fault Bool :=
  match groups with
  | [] => .ok false
  | group :: groups =>
    -- only names of the same length are read
    if group.name.length = name.length then
      if group.mapped = false then .error .unmapped
      else if group.name = name then .ok (group.elements.contains value)
      else matchGroup groups name value
    else matchGroup groups name value

/-- `match_value`. -/
def matchValue (wildcard : WildcardMatch) (input : List UInt8) : Except Fault Bool :=
  match val with
  | .wildcardLegacy => .ok (wildcard == .all || input != [])
  | .wildcardNone => .ok (input == [])
  | .wildcardSome => .ok (input != [])
  | .wildcardAny => .ok true
  | .group name => matchGroup groups name input
  | .normal value => .ok (value == input)

/-- The layouts an option can be matched for: an option for some layouts only for those of them
that are still unmatched. -/
def matchableLayouts (option : MatchedSval) (unmatched : BitVec 32) : BitVec 32 :=
  if option.layouts ≠ optionLayoutMaskGlobal then unmatched &&& option.layouts
  else BitVec.allOnes 32

/-- The loop of `matcher_rule_match_option`: whether an option matched, what is left
unmatched, and what each option was matched for. -/
def matchOptions (groups : List Group) (val : MlvoMatch) :
    List MatchedSval → BitVec 32 → Except Fault (Bool × BitVec 32 × List (BitVec 32))
  | [], unmatched => .ok (false, unmatched, [])
  | option :: options, unmatched =>
    let matchable := matchableLayouts option unmatched
    let next (matched : Bool) (mark : BitVec 32) (unmatched : BitVec 32) :=
      (matchOptions groups val options unmatched).map fun r =>
        (matched || r.1, r.2.1, mark :: r.2.2)
    if matchable = 0#32 then next false 0#32 unmatched
    else
      match matchValue groups val .all option.sval with
      | .error f => .error f
      | .ok false => next false 0#32 unmatched
      | .ok true =>
        let left := unmatched &&& ~~~matchable
        if left = 0#32 then .ok (true, left, matchable :: options.map fun _ => 0#32)
        else next true matchable left

/-- The header has a layout or a variant field. -/
def Mapping.hasLayout : Bool := decide (.layout ∈ mp.mlvo ∨ .variant ∈ mp.mlvo)

/-- What a field leaves: whether it matched, the candidate layouts, and what each option was
matched for. -/
structure FieldMatch where
  matched : Bool
  candidates : BitVec 32
  marks : List (BitVec 32) := []
  deriving DecidableEq, Repr

/-- `matcher_rule_match_option`. -/
def matcherRuleMatchOption : Except Fault FieldMatch :=
  if names.options = [] then .error .noValue
  else
    match matchOptions groups val names.options (if mp.hasLayout then candidates else 0#32) with
    | .error f => .error f
    | .ok (matched, unmatched, marks) => .ok ⟨matched, candidates &&& ~~~unmatched, marks⟩

/-- The loop of `matcher_rule_match_layout_or_variant` over these layouts. -/
def matchLayouts (groups : List Group) (values : List (List UInt8)) (val : MlvoMatch) :
    List ℕ → Bool → BitVec 32 → Except Fault FieldMatch
  | [], matched, candidates => .ok ⟨matched, candidates, []⟩
  | idx :: indices, matched, candidates =>
    if candidates = 0#32 then .ok ⟨matched, candidates, []⟩
    else if Masks.anyBit (1#32 <<< idx) candidates then
      match values[idx]? with
      | none => .error .outOfRange
      | some value =>
        match matchValue groups val .nonempty value with
        | .error f => .error f
        | .ok true => matchLayouts groups values val indices true candidates
        | .ok false =>
          matchLayouts groups values val indices matched (candidates &&& ~~~(1#32 <<< idx))
    else matchLayouts groups values val indices matched candidates

/-- The layouts of the range. -/
def Mapping.indices : List ℕ :=
  List.range' mp.layoutIdxMin (mp.layoutIdxMax - mp.layoutIdxMin)

/-- `matcher_rule_match_layout_or_variant`. -/
def matcherRuleMatchLayoutOrVariant (input : List (List UInt8)) (val : MlvoMatch)
    (candidates : BitVec 32) :
    Except Fault FieldMatch :=
  if input = [] then .error .noValue
  else matchLayouts groups input val mp.indices false candidates

/-- One field of a rule. -/
def matchField (mlvo : RulesMlvo) (val : MlvoMatch) (candidates : BitVec 32) :
    Except Fault FieldMatch :=
  match mlvo with
  | .model => (matchValue groups val .all names.model).map fun b => ⟨b, candidates, []⟩
  | .layout => matcherRuleMatchLayoutOrVariant groups mp names.layouts val candidates
  | .variant => matcherRuleMatchLayoutOrVariant groups mp names.variants val candidates
  | .option => matcherRuleMatchOption names groups mp val candidates

/-- What the options have been matched for, with what a rule adds. -/
def addMarks (marks added : List (BitVec 32)) : List (BitVec 32) :=
  if added = [] then marks else List.zipWith (· ||| ·) marks added

/-- The fields of a rule, one after the other: the candidates if all match, and the marks. -/
def matchFields (names : RuleNames) (groups : List Group) (mp : Mapping) :
    List (RulesMlvo × MlvoMatch) → BitVec 32 → List (BitVec 32) →
      Except Fault (Option (BitVec 32) × List (BitVec 32))
  | [], candidates, marks => .ok (some candidates, marks)
  | (mlvo, val) :: fields, candidates, marks =>
    match matchField names groups mp mlvo val candidates with
    | .error f => .error f
    | .ok r =>
      if r.matched then matchFields names groups mp fields r.candidates (addMarks marks r.marks)
      else .ok (none, addMarks marks r.marks)

/-! ### Applying a rule -/

/-- The values of a rule, merged at once. -/
def appendValues (names : RuleNames) (layoutIdx : ℕ) :
    List (RulesKccgst × List UInt8) → (RulesKccgst → List UInt8) →
      Except Fault (RulesKccgst → List UInt8)
  | [], out => .ok out
  | (kccgst, value) :: values, out => do
    let expanded ← expandKccgstValue names layoutIdx value
    appendValues names layoutIdx values
      (Function.update out kccgst (mergeKccgst (out kccgst) expanded))

/-- The values of a rule for one layout, as slices. -/
def sliceValues (names : RuleNames) (layout : ℕ) :
    List (RulesKccgst × List UInt8) → Except Fault (List Slice)
  | [] => .ok []
  | (kccgst, value) :: values => do
    let expanded ← expandKccgstValue names layout value
    let slices ← sliceValues names layout values
    .ok (⟨kccgst, layout, expanded.getD []⟩ :: slices)

/-- The values of a rule for several layouts, as slices. -/
def bufferValues (names : RuleNames) (values : List (RulesKccgst × List UInt8)) :
    List ℕ → Except Fault (List Slice)
  | [] => .ok []
  | layout :: layouts => do
    let slices ← sliceValues names layout values
    let more ← bufferValues names values layouts
    .ok (slices ++ more)

/-- The length of the texts of the slices together. -/
def textSize (slices : List Slice) : ℕ := (slices.map fun slice => slice.text.length).sum

/-- The two arrays of `struct kccgst_buffer` can be that large. -/
def pendingFits (pending : List Slice) : Bool :=
  arrayFits 1 (textSize pending) && arrayFits 8 pending.length

/-- The output for the components of a header can be that large. -/
def outputFits (out : RulesKccgst → List UInt8) : Bool :=
  mp.kccgst.all fun kccgst => textFits (out kccgst).length

/-- The layouts a rule is applied for. -/
def Mapping.selected : List ℕ :=
  mp.indices.filter fun idx => Masks.anyBit candidates (1#32 <<< idx)

/-- What is left of a rule set after a rule of it matched: unless it tests options, the layouts
that matched are done. -/
def Mapping.consume : Mapping :=
  if .option ∈ mp.mlvo then mp else { mp with active := mp.active &&& ~~~candidates }

/-- **`matcher_rule_apply_if_matches`.** -/
def matcherRuleApplyIfMatches : Except Fault Matcher :=
  match matchFields names m.groups m.mapping (m.mapping.mlvo.zip m.rule.mlvoValues)
      m.mapping.active m.marks with
  | .error f => .error f
  | .ok (none, marks) => .ok { m with marks := marks }
  | .ok (some candidates, marks) => do
    let values := m.mapping.kccgst.zip m.rule.kccgstValues
    let mapping := m.mapping.consume candidates
    if m.mapping.hasMultipleLayouts then
      let slices ← bufferValues names values (m.mapping.selected candidates)
      let pending := m.pending ++ slices
      ifFits (pendingFits pending) { m with marks := marks, mapping := mapping, pending := pending }
    else
      let out ← appendValues names m.mapping.layoutIdxMin values m.kccgst
      ifFits (outputFits m.mapping out) { m with marks := marks, mapping := mapping, kccgst := out }

/-- The slices of a component for one layout, merged with the output. -/
def mergeSlices (kccgst : RulesKccgst) (pending : List Slice) (into : List UInt8)
    (layout : ℕ) : List UInt8 :=
  pending.foldl (fun into slice =>
    if slice.kccgst = kccgst ∧ slice.layout = layout ∧ slice.text ≠ [] then
      concatKccgst into slice.text
    else into) into

/-- The output with all slices merged. -/
def mergePending : RulesKccgst → List UInt8 :=
  m.mapping.kccgst.foldl (fun out kccgst =>
    Function.update out kccgst
      (m.mapping.indices.foldl (mergeSlices kccgst m.pending) (out kccgst))) m.kccgst

/-- `matcher_append_pending_kccgst`. -/
def matcherAppendPendingKccgst : Except Fault Matcher :=
  if m.mapping.hasMultipleLayouts = false then .ok m
  else
    ifFits (outputFits m.mapping (mergePending m))
      { m with
        kccgst := mergePending m
        mapping := { m.mapping with hasMultipleLayouts := false } }

/-! ### The machine -/

/-- The labels of `matcher_match`. -/
inductive MatcherLabel
  | initial
  | bang
  | groupName
  | groupElement
  | includeStatement
  | includeStatementEnd
  | mappingMlvo
  | mappingKccgst
  | ruleMlvoFirst
  | ruleMlvo
  | ruleKccgst
  deriving DecidableEq, Repr

/-- `matcher_group_add_element`. -/
def addGroupElement (element : List UInt8) : List Group :=
  groups.modifyLast fun group => { group with elements := group.elements ++ [element] }

/-- The number of elements of the last group. -/
def lastGroupSize : ℕ := (groups.getLast?.map fun group => group.elements.length).getD 0

/-- `matcher_rule_start_new`. -/
def matcherRuleStartNew : Matcher :=
  { m with rule := { skip := m.mapping.active == 0#32 } }

/-- `matcher_rule_set_mlvo_common`, if the rule is not skipped. -/
def matcherRuleSetMlvo : Matcher :=
  if m.rule.skip then m
  else if m.mapping.mlvo.length ≤ m.rule.mlvoValues.length then
    { m with rule := { m.rule with skip := true } }
  else { m with rule := { m.rule with mlvoValues := m.rule.mlvoValues ++ [val] } }

/-- `matcher_rule_set_kccgst`, if the rule is not skipped. -/
def matcherRuleSetKccgst (value : List UInt8) : Matcher :=
  if m.rule.skip then m
  else if m.mapping.kccgst.length ≤ m.rule.kccgstValues.length then
    { m with rule := { m.rule with skip := true } }
  else { m with rule := { m.rule with kccgstValues := m.rule.kccgstValues ++ [value] } }

/-- `matcher_rule_verify`, if the rule is not skipped: the rule is skipped after it. -/
def ruleIsSkipped : Bool :=
  m.rule.skip || m.rule.mlvoValues.length != m.mapping.mlvo.length ||
    m.rule.kccgstValues.length != m.mapping.kccgst.length

/-- The end of a rule. -/
def endOfRule : Except Fault Matcher :=
  if ruleIsSkipped m then .ok { m with rule := { m.rule with skip := true } }
  else matcherRuleApplyIfMatches names m

/-- A token on the left hand side of a rule; `none` for a token that is not expected. -/
def ruleMlvoStep (tok : RulesToken) (m : Matcher) : Option MatcherLabel × Matcher :=
  match tok with
  | .identifier s =>
    (some .ruleMlvo, matcherRuleSetMlvo m (if s = [0x2b] then .wildcardSome else .normal s))
  | .wildCardStar => (some .ruleMlvo, matcherRuleSetMlvo m .wildcardLegacy)
  | .wildCardNone => (some .ruleMlvo, matcherRuleSetMlvo m .wildcardNone)
  | .wildCardSome => (some .ruleMlvo, matcherRuleSetMlvo m .wildcardSome)
  | .wildCardAny => (some .ruleMlvo, matcherRuleSetMlvo m .wildcardAny)
  | .groupName s => (some .ruleMlvo, matcherRuleSetMlvo m (.group s))
  | .equals => (some .ruleKccgst, m)
  | _ => (none, m)

/-- What includes a file: the rest of the include statement and the matcher. -/
abbrev IncludeRules := List UInt8 → Matcher → Except Fault Matcher

/-- A word of a header, if the rule set is used. -/
def headerWord (set : Mapping → List UInt8 → Mapping) (m : Matcher) (ident : List UInt8) :
    Matcher :=
  if m.mapping.active = 0#32 then m else { m with mapping := set m.mapping ident }

/-- **`matcher_match`, one token.** No label is left for a token that is not expected. -/
def matcherStep (inc : IncludeRules) (label : MatcherLabel) (tok : RulesToken) (m : Matcher) :
    Except Fault (Option MatcherLabel × Matcher) :=
  match label, tok with
  | .initial, .bang => .ok (some .bang, m)
  | .initial, .endOfLine => .ok (some .initial, m)
  | .bang, .groupName s =>
    ifFits (arrayFits 32 (m.groups.length + 1))
      (some .groupName, { m with groups := m.groups ++ [{ name := s }] })
  | .bang, .include => .ok (some .includeStatement, m)
  | .bang, .identifier s =>
    .ok (some .mappingMlvo, { m with mapping := matcherMappingSetMlvo {} s })
  | .groupName, .equals => .ok (some .groupElement, m)
  | .groupElement, .identifier s =>
    ifFits (arrayFits 16 (lastGroupSize m.groups + 1))
      (some .groupElement, { m with groups := addGroupElement m.groups s })
  | .groupElement, .endOfLine => .ok (some .initial, m)
  | .includeStatement, .identifier s => (inc s m).map fun m => (some .includeStatementEnd, m)
  | .includeStatementEnd, .endOfLine => .ok (some .initial, m)
  | .mappingMlvo, .identifier s =>
    .ok (some .mappingMlvo, headerWord matcherMappingSetMlvo m s)
  | .mappingMlvo, .equals => .ok (some .mappingKccgst, m)
  | .mappingKccgst, .identifier s =>
    .ok (some .mappingKccgst, headerWord matcherMappingSetKccgst m s)
  | .mappingKccgst, .endOfLine => (endOfHeader names m).map fun m => (some .ruleMlvoFirst, m)
  | .ruleMlvoFirst, .bang => (matcherAppendPendingKccgst m).map fun m => (some .bang, m)
  | .ruleMlvoFirst, .endOfLine => .ok (some .ruleMlvoFirst, m)
  | .ruleMlvoFirst, tok => .ok (ruleMlvoStep tok (matcherRuleStartNew m))
  | .ruleMlvo, tok => .ok (ruleMlvoStep tok m)
  | .ruleKccgst, .identifier s => .ok (some .ruleKccgst, matcherRuleSetKccgst m s)
  | .ruleKccgst, .endOfLine => (endOfRule names m).map fun m => (some .ruleMlvoFirst, m)
  | _, _ => .ok (none, m)

/-- `matcher_match` at the end of the file. -/
def matcherEnd (label : MatcherLabel) (m : Matcher) : Except Fault (Bool × Matcher) :=
  match label with
  | .initial => .ok (true, m)
  | .ruleMlvoFirst => (matcherAppendPendingKccgst m).map fun m => (true, m)
  | _ => .ok (false, m)

/-- **`matcher_match`**: whether the file was read to its end, and the matcher. -/
def matcherMatch (names : RuleNames) (inc : IncludeRules) :
    List RulesToken → MatcherLabel → Matcher → Except Fault (Bool × Matcher)
  | [], label, m => matcherEnd label m
  | tok :: toks, label, m =>
    match matcherStep names inc label tok m with
    | .error f => .error f
    | .ok (none, m) => .ok (false, m)
    | .ok (some label, m) => matcherMatch names inc toks label m

/-! ### Files -/

/-- **The rules files there are**: the ones found for an include statement in the order in which
they are tried, the main one of a name, and all those of a name with a suffix. A file that
cannot be mapped is `none`. -/
structure RulesEnv where
  includeFiles : List UInt8 → List (Option (List UInt8))
  rulesFile : List UInt8 → Option (Option (List UInt8))
  partialFiles : List UInt8 → List (Option (List UInt8))

/-- `unmap_file`: the groups of the file, those after the first `n`, lose their text. -/
def unmapGroups (n : ℕ) (groups : List Group) : List Group :=
  groups.take n ++ (groups.drop n).map fun group => { group with mapped := false }

/-- `read_rules_file`. -/
def readRulesFile (inc : IncludeRules) (file : Option (List UInt8)) (m : Matcher) :
    Except Fault (Bool × Matcher) :=
  match file.bind checkSupportedCharEncoding with
  | none => .ok (false, m)
  | some s =>
    (matcherMatch names inc (rulesTokens s) .initial m).map fun r =>
      (r.1, { r.2 with groups := unmapGroups m.groups.length r.2.groups })

/-- Files are read one after the other until one has the given success; whether the last one was
read to its end, and the matcher. -/
def readUntil (stop : Bool)
    (read : Option (List UInt8) → Matcher → Except Fault (Bool × Matcher)) :
    List (Option (List UInt8)) → Matcher → Except Fault (Bool × Matcher)
  | [], m => .ok (!stop, m)
  | file :: files, m =>
    match read file m with
    | .error f => .error f
    | .ok (ok, m) => if ok = stop then .ok (ok, m) else readUntil stop read files m

/-- `matcher_include`, so many levels below the maximal depth: the first file that is read to its
end ends it, and what the others did is kept. -/
def matcherInclude (names : RuleNames) (env : RulesEnv) : ℕ → IncludeRules
  | 0, _, m => .ok m
  | depth + 1, s, m =>
    (readUntil true (readRulesFile names (matcherInclude names env depth))
      (env.includeFiles s) m).map Prod.snd

/-- `MAX_INCLUDE_DEPTH`. -/
def maxIncludeDepth : ℕ := 5

/-- `read_rules_file` for a file that is not included. -/
def readMainFile (env : RulesEnv) : Option (List UInt8) → Matcher → Except Fault (Bool × Matcher) :=
  readRulesFile names (matcherInclude names env maxIncludeDepth)

/-- The partial rules files of a name. If the name is too long, `xkb_resolve_partial_rules` fails
at once, as it does at a file that cannot be read. -/
def partialRulesFiles (env : RulesEnv) (name : List UInt8) : List (Option (List UInt8)) :=
  if name.length < 60 then env.partialFiles name else [none]

/-- The files that make up the rules of a name, in their order, if there is a main file. -/
def rulesFiles (env : RulesEnv) (rules : List UInt8) : Option (List (Option (List UInt8))) :=
  (env.rulesFile rules).map fun file =>
    partialRulesFiles env (rules ++ ascii ".pre") ++ [file] ++
      partialRulesFiles env (rules ++ ascii ".post")

/-- The highest group that `symbols` names, starting from `n`. -/
def explicitLayouts (n : ℕ) : List UInt8 → ℕ
  | [] => n
  | c :: s =>
    if c = 0x3a then
      match parseDecToUint32 s with
      | some (count, group) =>
        if 0 < count ∧ endsItem (s.drop count) = true ∧ 0 < group ∧ group ≤ xkbMaxGroups then
          explicitLayouts (max n group) s
        else explicitLayouts n s
      | none => explicitLayouts n s
    else explicitLayouts n s

/-- The assertion on an option that was matched for some of its layouts. -/
def marksOk (option : MatchedSval) (mark : BitVec 32) : Bool :=
  option.sval == [] || mark == 0#32 || option.layouts == 0#32 || option.layouts == mark ||
    Masks.anyBit option.layouts (~~~mark)

/-- What `xkb_resolve_rules` makes of the matcher: the components, unless a required one is
missing, and the number of explicit layouts. -/
def componentsOf : Except Fault (Option ((RulesKccgst → List UInt8) × ℕ)) :=
  if m.kccgst .keycodes = [] ∨ m.kccgst .types = [] ∨ m.kccgst .compat = [] ∨
      m.kccgst .symbols = [] then .ok none
  else if (List.zipWith marksOk names.options m.marks).all id then
    .ok (some (m.kccgst, explicitLayouts 1 (m.kccgst .symbols)))
  else .error .unmatchedLayouts

/-- The matcher before the first file. -/
def newMatcher : Matcher where
  marks := names.options.map fun _ => 0#32

/-- `is_absolute_path`. -/
def isAbsolutePath (path : List UInt8) : Bool := path.head? == some 0x2f

/-- **`xkb_resolve_rules`.** -/
def xkbResolveRules (env : RulesEnv) (rules : List UInt8) (names : RuleNames) :
    Except Fault (Option ((RulesKccgst → List UInt8) × ℕ)) :=
  -- the assertion of `FindFileInXkbPath`
  if isAbsolutePath rules then .error .absolutePath
  else
    match rulesFiles env rules with
    | none => .ok none
    | some files =>
      -- all files must be valid
      match readUntil false (readMainFile names env) files (newMatcher names) with
      | .error f => .error f
      | .ok (false, _) => .ok none
      | .ok (true, m) => componentsOf names m

/-- `xkb_components_from_rules_names`; the rules are not null. -/
def xkbComponentsFromRulesNames (env : RulesEnv) (rmlvo : XkbRuleNames) :
    Except Fault (Option ((RulesKccgst → List UInt8) × ℕ)) :=
  xkbResolveRules env (rmlvo.rules.getD []) (matcherNewFromNames rmlvo)

/-! ### Files and names for examples -/

/-- Rules files with one main file, and what every include finds. -/
def rulesEnvOf (text : String) (included : List String) : RulesEnv where
  includeFiles _ := included.map fun file => some (ascii file)
  rulesFile _ := some (some (ascii text))
  partialFiles _ := []

/-- Names with two layouts. -/
def twoLayouts : XkbRuleNames where
  rules := some (ascii "evdev")
  model := some (ascii "pc105")
  layout := some (ascii "us,de")
  variant := none
  options := none

end Xkbcommon
