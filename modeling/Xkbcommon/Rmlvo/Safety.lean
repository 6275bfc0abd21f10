import Mathlib.Algebra.Order.BigOperators.Group.List
import Mathlib.Algebra.Order.Group.Nat
import Xkbcommon.Rmlvo.Options

/-!
# What a rules file can do to the process

A rules file is user text, and the matcher asserts many things about what it has read. Nearly all
of them hold whatever the file says, because an earlier part of the same file was checked: a
header with a layout field has a layout index by the time its rules are applied, the range of
the index is within the layouts, and an option is only ever matched for its own layouts.

Three do not. `%l[%i]` asks for the layout index of the rule set, and nobody has checked that the
header has one. A group keeps pointers into its file, which is unmapped when the file has been
read. And an array that gets too large stops the process, which a small file can bring about
by including itself many times. `Xkbcommon.MatcherConfig.isSafe` says that a step avoids all of
them. The name of the rules is not from the file; it must not be an absolute path.

The invariant is `Xkbcommon.MatcherOk`, and `Xkbcommon.returns_matcherStep` is what one token
does to it.
-/

namespace Xkbcommon

open Outcome List Returns Mapping

variable {names : RuleNames} {mp : Mapping} {groups : List Group} {m : Matcher}
  {s ident : List UInt8} {label : MatcherLabel} {val : MlvoMatch} {inc : IncludeRules}
  {layoutIdx idx : ℕ} {mlvo : RulesMlvo} {candidates : BitVec 32}
  {values : List (RulesKccgst × List UInt8)} {tok : RulesToken}

/-! ### The steps of a run -/

/-- A step of `matcher_match`: where it is, the token, and the matcher before it. -/
structure MatcherConfig where
  label : MatcherLabel
  tok : RulesToken
  matcher : Matcher

/-- What an include statement goes through. -/
abbrev IncludeSteps := List UInt8 → Matcher → List MatcherConfig

/-- The steps of the include, if the token is one. -/
def includedSteps (steps : IncludeSteps) (label : MatcherLabel) (tok : RulesToken)
    (m : Matcher) : List MatcherConfig :=
  match label, tok with
  | .includeStatement, .identifier s => steps s m
  | _, _ => []

/-- The steps of `Xkbcommon.matcherMatch`, those of the included files among them, and its end. -/
def matcherSteps (names : RuleNames) (inc : IncludeRules) (steps : IncludeSteps) :
    List RulesToken → MatcherLabel → Matcher → List MatcherConfig
  | [], label, m => [⟨label, .endOfFile, m⟩]
  | tok :: toks, label, m =>
    ⟨label, tok, m⟩ :: includedSteps steps label tok m ++
      match matcherStep names inc label tok m with
      | .ok (some label, m) => matcherSteps names inc steps toks label m
      | _ => []

/-- The steps of `Xkbcommon.readRulesFile`. -/
def fileSteps (names : RuleNames) (inc : IncludeRules) (steps : IncludeSteps)
    (file : Option (List UInt8)) (m : Matcher) : List MatcherConfig :=
  match file.bind checkSupportedCharEncoding with
  | none => []
  | some s => matcherSteps names inc steps (rulesTokens s) .initial m

/-- The steps of reading files until one is read with the given success. -/
def filesSteps (stop : Bool)
    (read : Option (List UInt8) → Matcher → Except Fault (Bool × Matcher))
    (steps : Option (List UInt8) → Matcher → List MatcherConfig) :
    List (Option (List UInt8)) → Matcher → List MatcherConfig
  | [], _ => []
  | file :: files, m =>
    steps file m ++
      match read file m with
      | .ok (ok, m) => if ok = stop then [] else filesSteps stop read steps files m
      | _ => []

/-- The steps of `Xkbcommon.matcherInclude`. -/
def includeSteps (names : RuleNames) (env : RulesEnv) : ℕ → IncludeSteps
  | 0, _, _ => []
  | depth + 1, s, m =>
    filesSteps true (readRulesFile names (matcherInclude names env depth))
      (fileSteps names (matcherInclude names env depth) (includeSteps names env depth))
      (env.includeFiles s) m

/-- **The steps of `Xkbcommon.xkbResolveRules`.** -/
def resolveSteps (env : RulesEnv) (rules : List UInt8) (names : RuleNames) : List MatcherConfig :=
  match rulesFiles env rules with
  | none => []
  | some files =>
    filesSteps false (readMainFile names env)
      (fileSteps names (matcherInclude names env maxIncludeDepth)
        (includeSteps names env maxIncludeDepth)) files (newMatcher names)

/-! ### Safe steps -/

/-- An expansion starts with `%l[%i]` or `%v[%i]`, with a prefix or without. -/
def startsVariableIndex (s : List UInt8) : Bool :=
  match (expansionPrefix s).2 with
  | [] => false
  | c :: rest => (c == 0x6c || c == 0x76) && decide (ascii "[%i]" <+: rest)

/-- The value has an expansion `%l[%i]` or `%v[%i]`. -/
def hasVariableIndex : List UInt8 → Bool
  | [] => false
  | c :: s => (c == 0x25 && startsVariableIndex s) || hasVariableIndex s

/-- The groups up to the one of this name are in files that are still mapped, except for those
that are not compared because their name is longer or shorter. -/
def groupIsMapped (name : List UInt8) : List Group → Bool
  | [] => true
  | group :: groups =>
    if group.name.length = name.length then
      group.mapped && (group.name == name || groupIsMapped name groups)
    else groupIsMapped name groups

/-- A field of a rule names no group that is gone. -/
def MlvoMatch.isMapped (groups : List Group) : MlvoMatch → Bool
  | .group name => groupIsMapped name groups
  | _ => true

/-- **The rule can be applied.** It compares with no group that is gone, and asks for the layout
index only if its header has a layout or a variant. -/
def ruleIsSafe (m : Matcher) : Bool :=
  m.rule.mlvoValues.all (MlvoMatch.isMapped m.groups) &&
    (m.mapping.hasLayout || m.rule.kccgstValues.all fun value => !hasVariableIndex value)

/-- The length of what a value is expanded to, as far as it is valid. -/
def expandedSize (names : RuleNames) (layoutIdx : ℕ) : ℕ → List UInt8 → Expansion → ℕ
  | fuel + 1, c :: s, e =>
    match expandStep names layoutIdx c s e with
    | .ok (some (e, rest)) => expandedSize names layoutIdx fuel rest e
    | _ => e.expanded.length
  | _, _, e => e.expanded.length

/-- What the values of a rule are at most long, with their components. -/
def valueSizes (names : RuleNames) (layoutIdx : ℕ) (values : List (RulesKccgst × List UInt8)) :
    List (RulesKccgst × ℕ) :=
  values.map fun v => (v.1, expandedSize names layoutIdx v.2.length v.2 {})

/-- How long the slices of a component are together, for these layouts. -/
def slicesSize (pending : List Slice) (layouts : List ℕ) (kccgst : RulesKccgst) : ℕ :=
  (layouts.map fun layout =>
    textSize (pending.filter fun slice => slice.kccgst = kccgst ∧ slice.layout = layout)).sum

/-- What the slices are long that are merged at the end of a rule set, with their components. -/
def pendingSizes (m : Matcher) : List (RulesKccgst × ℕ) :=
  m.mapping.kccgst.map fun kccgst => (kccgst, slicesSize m.pending m.mapping.indices kccgst)

/-- What a component is made longer by. -/
def addedSize (kccgst : RulesKccgst) (sizes : List (RulesKccgst × ℕ)) : ℕ :=
  ((sizes.filter fun size => size.1 = kccgst).map Prod.snd).sum

/-- The output has room for texts of these lengths. -/
def outputHasRoom (m : Matcher) (sizes : List (RulesKccgst × ℕ)) : Bool :=
  m.mapping.kccgst.all fun kccgst =>
    textFits ((m.kccgst kccgst).length + addedSize kccgst sizes)

/-- There is room for the values of the rule, in the buffer or in the output. -/
def ruleHasRoom (names : RuleNames) (m : Matcher) : Bool :=
  let values := m.mapping.kccgst.zip m.rule.kccgstValues
  if m.mapping.hasMultipleLayouts then
    textFits (textSize m.pending + (m.mapping.indices.map fun layout =>
      ((valueSizes names layout values).map Prod.snd).sum).sum) &&
      arrayFits 8 (m.pending.length + m.mapping.indices.length * values.length)
  else outputHasRoom m (valueSizes names m.mapping.layoutIdxMin values)

/-- **A step is safe**: a rule that it applies can be applied, and what it adds to has room. -/
def MatcherConfig.isSafe (names : RuleNames) (st : MatcherConfig) : Bool :=
  match st.label, st.tok with
  | .bang, .groupName _ => arrayFits 32 (st.matcher.groups.length + 1)
  | .groupElement, .identifier _ => arrayFits 16 (lastGroupSize st.matcher.groups + 1)
  | .ruleKccgst, .endOfLine =>
    ruleIsSkipped st.matcher || ruleIsSafe st.matcher && ruleHasRoom names st.matcher
  | .ruleMlvoFirst, .bang | .ruleMlvoFirst, .endOfFile =>
    !st.matcher.mapping.hasMultipleLayouts || outputHasRoom st.matcher (pendingSizes st.matcher)
  | _, _ => true

/-! ### Expanding a value -/

theorem hasVariableIndex_of_suffix {t : List UInt8} (h : t <:+ s)
    (hs : hasVariableIndex s = false) :
    hasVariableIndex t = false := by
  induction s with
  | nil => rw [suffix_nil.mp h, hasVariableIndex]
  | cons c s ih =>
    rcases suffix_cons_iff.mp h with rfl | h
    · exact hs
    · rw [hasVariableIndex, Bool.or_eq_false_iff] at hs
      exact ih h hs.2

/-- The index of an expansion is `XKB_LAYOUT_INVALID` only for `[%i]`. -/
theorem prefix_of_extractLayoutIndex {consumed : ℕ}
    (h : extractLayoutIndex s = some (xkbLayoutInvalid, consumed)) : ascii "[%i]" <+: s := by
  unfold extractLayoutIndex at h
  split at h
  · rename_i c d rest
    split_ifs at h with hnum hvar
    · obtain ⟨-, -, hc⟩ := hnum
      have hlt : c.toNat - 0x31 < xkbLayoutInvalid := by
        have := UInt8.toNat_lt c
        unfold xkbLayoutInvalid
        omega
      have heq := (Prod.mk.inj (Option.some.inj h)).1
      omega
    · obtain ⟨rfl, rfl, hrest⟩ := hvar
      cases rest with
      | nil => simp at hrest
      | cons e rest =>
        obtain rfl : e = 0x5d := by simpa using hrest
        exact ⟨rest, rfl⟩
    · have hlt : xkbLayoutInvalid < xkbMaxGroups := lt_of_parseLayoutIntIndexTail h
      exact absurd hlt (by decide)
  · exact absurd h (by simp)

theorem returns_expandRmlvo (h : layoutIdx ≠ xkbLayoutInvalid ∨ startsVariableIndex s = false) :
    Returns (expandRmlvo names layoutIdx s) fun _ => True := by
  unfold expandRmlvo
  split
  · split
    · exact .ok trivial
    · exact .ok trivial
  · split
    · exact .ok trivial
    rename_i pfx c rest hpfx
    split
    · exact .ok trivial
    rename_i mlv hmlv
    unfold expandIndex
    split
    · split
      · exact .ok trivial
      rename_i hmodel
      split
      · exact .ok trivial
      rename_i idx consumed hidx
      split
      · rename_i hinv
        split
        · rename_i hlayout
          -- the assertion: the text is `%l[%i]` or `%v[%i]`
          rw [hinv] at hidx
          have hstart := h.resolve_left (not_not.mpr hlayout)
          rw [startsVariableIndex, hpfx] at hstart
          have hletter : c = 0x6c ∨ c = 0x76 := by
            unfold specifierOf at hmlv
            split_ifs at hmlv with hm hl hv
            · exact absurd (Option.some.inj hmlv).symm hmodel
            · exact .inl hl
            · exact .inr hv
          have hpre := prefix_of_extractLayoutIndex hidx
          rcases hletter with rfl | rfl <;> simp [hpre] at hstart
        · exact .ok trivial
      · exact .ok trivial
    · exact .ok trivial

theorem le_length_expandQualifier (names : RuleNames) (hasSeparator : Bool) (prefixIdx : ℕ)
    (expanded s : List UInt8) :
    expanded.length ≤ (expandQualifier names hasSeparator prefixIdx expanded s).1.length := by
  unfold expandQualifier
  split
  · simp
  · exact le_refl _

theorem returns_expandStep (names : RuleNames) {c : UInt8}
    (h : layoutIdx ≠ xkbLayoutInvalid ∨ hasVariableIndex (c :: s) = false) (e : Expansion) :
    Returns (expandStep names layoutIdx c s e) fun r =>
      ∀ r' ∈ r, e.expanded.length ≤ r'.1.expanded.length := by
  unfold expandStep
  split
  · have hle := le_length_expandQualifier names e.hasSeparator e.lastItemIdx (e.expanded ++ [c]) s
    generalize expandQualifier names e.hasSeparator e.lastItemIdx (e.expanded ++ [c]) s = q at hle ⊢
    refine .ok fun r' hr' => ?_
    obtain rfl := Option.some.inj hr'
    exact (by simp : e.expanded.length ≤ (e.expanded ++ [c]).length).trans hle
  split
  · rename_i hc
    split
    · exact .ok (by simp)
    have hx : layoutIdx ≠ xkbLayoutInvalid ∨ startsVariableIndex s = false := by
      refine h.imp_right fun h => ?_
      rw [hasVariableIndex, hc, Bool.or_eq_false_iff] at h
      simpa using h.1
    obtain ⟨r, hr, -⟩ := returns_expandRmlvo hx
    rw [hr]
    cases r with
    | none => exact .ok (by simp)
    | some r => exact .ok (by simp)
  split
  · exact .ok (by simp)
  · exact .ok (by simp)

section

variable {need need' : ℕ}

theorem arrayFits_of_le {itemSize : ℕ} (h : arrayFits itemSize need' = true)
    (hle : need ≤ need') : arrayFits itemSize need = true := by
  rw [arrayFits, decide_eq_true_eq] at h ⊢
  omega

theorem textFits_of_le (h : textFits need' = true) (hle : need ≤ need') : textFits need = true :=
  arrayFits_of_le h (Nat.succ_le_succ hle)

theorem returns_ifFits {α : Type} {a : α} {P : α → Prop} {fits : Bool} (h : fits = true)
    (ha : P a) : Returns (ifFits fits a) P := by
  rw [ifFits, if_pos h]
  exact .ok ha

end

/-- What has been expanded stays. -/
theorem length_le_expandedSize
    (h : layoutIdx ≠ xkbLayoutInvalid ∨ hasVariableIndex s = false) (fuel : ℕ) (e : Expansion) :
    e.expanded.length ≤ expandedSize names layoutIdx fuel s e := by
  induction fuel generalizing s e with
  | zero => exact le_refl _
  | succ fuel ih =>
    cases s with
    | nil => exact le_refl _
    | cons c s =>
      obtain ⟨r, hr, hle⟩ := returns_expandStep names h e
      rw [expandedSize, hr]
      cases r with
      | none => exact le_refl _
      | some r =>
        have hrest := h.imp_right (hasVariableIndex_of_suffix
          ((suffix_of_expandStep hr).trans (suffix_cons _ _)))
        exact (hle r rfl).trans (ih hrest r.1)

/-- **A value is expanded**, if it asks for an index that there is and does not get too long. -/
theorem returns_expandLoop
    (h : layoutIdx ≠ xkbLayoutInvalid ∨ hasVariableIndex s = false) (fuel : ℕ) (e : Expansion)
    (hfits : textFits (expandedSize names layoutIdx fuel s e) = true) :
    Returns (expandLoop names layoutIdx fuel s e) fun r =>
      (r.getD []).length ≤ expandedSize names layoutIdx fuel s e := by
  induction fuel generalizing s e with
  | zero =>
    cases s with
    | nil => exact .ok (le_refl _)
    | cons c s => exact .ok (Nat.zero_le _)
  | succ fuel ih =>
    cases s with
    | nil => exact .ok (le_refl _)
    | cons c s =>
      obtain ⟨r, hr, -⟩ := returns_expandStep names h e
      rw [expandedSize, hr] at hfits
      rw [expandLoop, expandedSize, hr]
      cases r with
      | none => exact .ok (Nat.zero_le _)
      | some r =>
        have hrest := h.imp_right (hasVariableIndex_of_suffix
          ((suffix_of_expandStep hr).trans (suffix_cons _ _)))
        have hnow := textFits_of_le hfits (length_le_expandedSize hrest fuel r.1)
        dsimp only
        rw [if_pos hnow]
        exact ih hrest r.1 hfits

/-! ### Matching a rule -/

theorem returns_matchGroup {name : List UInt8} (h : groupIsMapped name groups = true)
    (value : List UInt8) : Returns (matchGroup groups name value) fun _ => True := by
  induction groups with
  | nil => exact .ok trivial
  | cons group groups ih =>
    rw [groupIsMapped] at h
    rw [matchGroup]
    by_cases hlen : group.name.length = name.length
    · rw [if_pos hlen, Bool.and_eq_true, Bool.or_eq_true] at h
      rw [if_pos hlen, if_neg (by simp [h.1])]
      split
      · exact .ok trivial
      · rename_i hne
        exact ih (h.2.resolve_left (by simpa using hne))
    · rw [if_neg hlen] at h
      rw [if_neg hlen]
      exact ih h

theorem returns_matchValue (h : val.isMapped groups = true) (wildcard : WildcardMatch)
    (input : List UInt8) : Returns (matchValue groups val wildcard input) fun _ => True := by
  cases val with
  | group name => exact returns_matchGroup h input
  | normal value | wildcardLegacy | wildcardNone | wildcardSome | wildcardAny => exact .ok trivial

theorem returns_matchOptions (h : val.isMapped groups = true) (options : List MatchedSval)
    (unmatched : BitVec 32) :
    Returns (matchOptions groups val options unmatched) fun _ => True := by
  rcases matchValue_cases groups val .all with hval | ⟨p, hp⟩
  · obtain ⟨b, hb, -⟩ := returns_matchValue h .all []
    rw [hval] at hb
    cases hb
  · exact (matchOptions_eq hp unmatched).mono fun _ _ => trivial

theorem returns_matchLayouts {values : List (List UInt8)} (h : val.isMapped groups = true)
    {indices : List ℕ} (hidx : ∀ idx ∈ indices, idx < values.length) (matched : Bool)
    (candidates : BitVec 32) :
    Returns (matchLayouts groups values val indices matched candidates) fun _ => True := by
  induction indices generalizing matched candidates with
  | nil => exact .ok trivial
  | cons idx indices ih =>
    have hrest := fun matched candidates =>
      ih (fun i hi => hidx i (mem_cons_of_mem _ hi)) matched candidates
    rw [matchLayouts]
    split
    · exact .ok trivial
    split
    · rw [getElem?_eq_getElem (hidx idx mem_cons_self)]
      dsimp only
      obtain ⟨hit, hhit, -⟩ := returns_matchValue h .nonempty
        (values.get ⟨idx, hidx idx mem_cons_self⟩)
      rw [get_eq_getElem] at hhit
      rw [hhit]
      cases hit with
      | true | false => exact hrest _ _
    · exact hrest _ _

/-! ### The header -/

/-- **A header that is still in use**: a field has an index exactly if it is there, and the
two fields that have one have the same. -/
structure HeaderOk (mp : Mapping) : Prop where
  layout : .layout ∈ mp.mlvo ↔ mp.layoutIdx ≠ xkbLayoutInvalid
  variant : .variant ∈ mp.mlvo ↔ mp.variantIdx ≠ xkbLayoutInvalid
  layout_le : mp.layoutIdx ≤ xkbLayoutInvalid
  variant_le : mp.variantIdx ≤ xkbLayoutInvalid
  same : .layout ∈ mp.mlvo → .variant ∈ mp.mlvo → mp.layoutIdx = mp.variantIdx

/-- **The range of a rule set**: if it has a layout or a variant, its layouts are there, and
none of their indices is `XKB_LAYOUT_INVALID`. -/
structure RangeOk (names : RuleNames) (mp : Mapping) : Prop where
  lt_length : mp.hasLayout = true → ∀ idx ∈ mp.indices, idx < names.layouts.length
  min_ne : mp.hasLayout = true → mp.layoutIdxMin ≠ xkbLayoutInvalid
  max_le : mp.hasMultipleLayouts = true → mp.layoutIdxMax ≤ xkbMaxGroups

theorem headerOk_new : HeaderOk {} where
  layout := by simp
  variant := by simp
  layout_le := le_refl _
  variant_le := le_refl _
  same := by simp

/-- An index that is read is not `XKB_LAYOUT_INVALID`. -/
theorem lt_of_extractMappingLayoutIndex (h : extractMappingLayoutIndex s = some idx) :
    idx < xkbLayoutInvalid := by
  unfold extractMappingLayoutIndex at h
  split at h
  · cases h
  split at h
  · rename_i idx' hlookup
    obtain rfl := Option.some.inj h
    obtain ⟨l, l', hmem, -⟩ := lookup_eq_some_iff.mp hlookup
    replace hmem : (s, idx') ∈ layoutIndexRanges := by simp [hmem]
    revert hmem
    simp only [layoutIndexRanges, mem_cons, Prod.mk.injEq, not_mem_nil, or_false]
    unfold layoutIndexSingle layoutIndexFirst layoutIndexLater layoutIndexMultiple layoutIndexAny
      xkbLayoutInvalid
    omega
  · split at h
    · cases h
    split at h
    · rename_i hparse _
      obtain rfl := Option.some.inj h
      exact (lt_of_parseLayoutIntIndexTail hparse).trans (by decide)
    · cases h

/-- The end of `matcher_mapping_set_mlvo` for a field without an index. -/
theorem HeaderOk.addMlvo (h : HeaderOk mp) (hl : mlvo ≠ .layout) (hv : mlvo ≠ .variant) :
    HeaderOk (mp.addMlvo mlvo) := by
  rw [Mapping.addMlvo, if_neg (by simp [hl, hv])]
  exact
    { layout := by simpa [hl.symm] using h.layout
      variant := by simpa [hv.symm] using h.variant
      layout_le := h.layout_le
      variant_le := h.variant_le
      same := by simpa [hl.symm, hv.symm] using h.same }

/-- The end of `matcher_mapping_set_mlvo` for a layout. -/
theorem HeaderOk.addLayout (h : HeaderOk mp) (hidx : idx < xkbLayoutInvalid)
    (hactive : ({ mp with layoutIdx := idx }.addMlvo .layout).active ≠ 0#32) :
    HeaderOk ({ mp with layoutIdx := idx }.addMlvo .layout) := by
  revert hactive
  rw [Mapping.addMlvo]
  split
  · intro hactive
    exact absurd rfl hactive
  · rename_i hsame
    intro _
    exact
      { layout := by simpa using hidx.ne
        variant := by simpa using h.variant
        layout_le := hidx.le
        variant_le := h.variant_le
        same := by
          intro _ hv
          by_contra hne
          exact hsame ⟨.inl ⟨rfl, by simpa using hv⟩, hne⟩ }

/-- The end of `matcher_mapping_set_mlvo` for a variant. -/
theorem HeaderOk.addVariant (h : HeaderOk mp) (hidx : idx < xkbLayoutInvalid)
    (hactive : ({ mp with variantIdx := idx }.addMlvo .variant).active ≠ 0#32) :
    HeaderOk ({ mp with variantIdx := idx }.addMlvo .variant) := by
  revert hactive
  rw [Mapping.addMlvo]
  split
  · intro hactive
    exact absurd rfl hactive
  · rename_i hsame
    intro _
    exact
      { layout := by simpa using h.layout
        variant := by simpa using hidx.ne
        layout_le := h.layout_le
        variant_le := hidx.le
        same := by
          intro hl _
          by_contra hne
          exact hsame ⟨.inr ⟨rfl, by simpa using hl⟩, hne⟩ }

/-- A word on the left hand side of a header. -/
theorem HeaderOk.setMlvo (h : HeaderOk mp) (ident : List UInt8)
    (hactive : (matcherMappingSetMlvo mp ident).active ≠ 0#32) :
    HeaderOk (matcherMappingSetMlvo mp ident) := by
  revert hactive
  rw [matcherMappingSetMlvo]
  split
  · exact fun hactive => absurd rfl hactive
  split
  · exact fun hactive => absurd rfl hactive
  split
  · exact fun hactive => absurd rfl hactive
  rename_i mlvo rest _ _ _ idx hidx
  have hlt : idx < xkbLayoutInvalid := by
    split at hidx
    · obtain rfl := Option.some.inj hidx
      decide
    · exact lt_of_extractMappingLayoutIndex hidx
  split
  · exact h.addLayout hlt
  · exact h.addVariant hlt
  · rename_i hl hv
    split
    · exact fun _ => h.addMlvo hl hv
    · exact fun hactive => absurd rfl hactive

/-- A word on the right hand side of a header. -/
theorem HeaderOk.setKccgst (h : HeaderOk mp) : HeaderOk (matcherMappingSetKccgst mp ident) := by
  rw [matcherMappingSetKccgst]
  split
  · exact { h with }
  · split
    · exact { h with }
    · exact { h with }

theorem returns_matcherMappingVerify (h : HeaderOk mp) :
    Returns (matcherMappingVerify names mp) fun ok => ok = true →
      (.layout ∈ mp.mlvo → layoutIdxApplies names.layouts.length mp.layoutIdx = true) ∧
      (.variant ∈ mp.mlvo → variantIdxApplies names.layouts.length mp.variantIdx = true) := by
  rw [matcherMappingVerify, names.variants_length]
  split
  · exact .ok (by simp)
  split
  · rename_i hl
    exact absurd hl.2 (h.layout.mp hl.1)
  split
  · exact .ok (by simp)
  rename_i hlayout
  split
  · rename_i hv
    exact absurd hv.2 (h.variant.mp hv.1)
  split
  · exact .ok (by simp)
  rename_i hvariant
  refine .ok fun _ => ⟨fun hl => ?_, fun hv => ?_⟩
  · by_contra hc
    exact hlayout ⟨hl, by simpa using hc⟩
  · by_contra hc
    exact hvariant ⟨hv, by simpa using hc⟩

/-- The index of a rule set, and that there are layouts for it. -/
theorem HeaderOk.index (h : HeaderOk mp) {size : ℕ}
    (hl : .layout ∈ mp.mlvo → layoutIdxApplies size mp.layoutIdx = true)
    (hv : .variant ∈ mp.mlvo → variantIdxApplies size mp.variantIdx = true)
    (hhas : mp.hasLayout = true) :
    min mp.layoutIdx mp.variantIdx ≠ xkbLayoutInvalid ∧
      (layoutIdxApplies size (min mp.layoutIdx mp.variantIdx) = true ∨
        variantIdxApplies size (min mp.layoutIdx mp.variantIdx) = true) := by
  rw [hasLayout, decide_eq_true_eq] at hhas
  by_cases hlayout : .layout ∈ mp.mlvo
  · have hmin : min mp.layoutIdx mp.variantIdx = mp.layoutIdx := by
      by_cases hvariant : .variant ∈ mp.mlvo
      · rw [h.same hlayout hvariant, min_self]
      · rw [not_not.mp (mt h.variant.mpr hvariant)]
        exact min_eq_left h.layout_le
    rw [hmin]
    exact ⟨h.layout.mp hlayout, .inl (hl hlayout)⟩
  · have hvariant := hhas.resolve_left hlayout
    have hmin : min mp.layoutIdx mp.variantIdx = mp.variantIdx := by
      rw [not_not.mp (mt h.layout.mpr hlayout)]
      exact min_eq_right h.variant_le
    rw [hmin]
    exact ⟨h.variant.mp hvariant, .inr (hv hvariant)⟩

theorem rangeOk_setBounds {min max : ℕ} (hmin : min < xkbLayoutInvalid)
    (hmax : max ≤ names.layouts.length) (hgroups : min + 1 < max → max ≤ xkbMaxGroups) :
    RangeOk names (mp.setBounds min max candidates) where
  lt_length := by
    intro _ idx hidx
    rw [indices, setBounds, mem_range'_1] at hidx
    dsimp only at hidx
    omega
  min_ne := fun _ => hmin.ne
  max_le := by
    intro hmul
    simp only [setBounds, decide_eq_true_eq] at hmul
    exact hgroups (by omega)

theorem returns_matcherMappingSetLayoutBounds (h : HeaderOk mp)
    (hl : .layout ∈ mp.mlvo → layoutIdxApplies names.layouts.length mp.layoutIdx = true)
    (hv : .variant ∈ mp.mlvo → variantIdxApplies names.layouts.length mp.variantIdx = true) :
    Returns (matcherMappingSetLayoutBounds names mp) (RangeOk names) := by
  have hpos : 1 ≤ names.layouts.length := length_pos_iff.mpr names.layouts_ne_nil
  have hindex := h.index hl hv
  rw [matcherMappingSetLayoutBounds]
  split
  · rename_i hinv
    split
    · rename_i hhas
      exact absurd hinv (hindex (by simpa [hasLayout] using hhas)).1
    · rename_i hhas
      refine .ok ⟨fun hc => ?_, fun hc => ?_, fun hc => ?_⟩
      · exact absurd (by simpa [hasLayout, setBounds] using hc) hhas
      · exact absurd (by simpa [hasLayout, setBounds] using hc) hhas
      · simp [setBounds] at hc
  rename_i hinv
  split
  · exact .ok (rangeOk_setBounds (by decide) (min_le_right _ _) fun _ => min_le_left _ _)
  rename_i hlater
  split
  · exact .ok (rangeOk_setBounds (by decide) (min_le_right _ _) fun _ => min_le_left _ _)
  rename_i hrange
  split
  · exact .ok (rangeOk_setBounds (by decide) hpos fun hc => absurd hc (by simp))
  rename_i hfirst
  have hhas : mp.hasLayout = true := by
    by_contra hc
    simp only [hasLayout, decide_eq_true_eq, not_or] at hc
    apply hinv
    rw [not_not.mp (mt h.layout.mpr hc.1), not_not.mp (mt h.variant.mpr hc.2), min_self]
  -- a mere index, below the number of layouts by either of the two checks
  have hlt : min mp.layoutIdx mp.variantIdx < names.layouts.length := by
    simp only [not_or] at hrange hfirst
    rcases (hindex hhas).2 with happ | happ
    · simp only [layoutIdxApplies, hfirst, hrange, hlater, false_or, if_false, Bool.and_eq_true,
        decide_eq_true_eq] at happ
      exact happ.2
    · simp only [variantIdxApplies, hfirst, hrange, hlater, false_or, if_false, Bool.and_eq_true,
        decide_eq_true_eq] at happ
      exact happ.2
  have hle : min mp.layoutIdx mp.variantIdx < xkbLayoutInvalid :=
    lt_of_le_of_ne ((min_le_left _ _).trans h.layout_le) hinv
  exact .ok (rangeOk_setBounds hle hlt fun hc => absurd hc (lt_irrefl _))

/-! ### Applying a rule -/

theorem returns_matchField (hmp : RangeOk names mp) (hmlvo : mlvo ∈ mp.mlvo)
    (hval : val.isMapped groups = true) :
    Returns (matchField names groups mp mlvo val candidates) fun _ => True := by
  cases mlvo with
  | model => exact (returns_matchValue hval _ _).map
  | layout =>
    rw [matchField, matcherRuleMatchLayoutOrVariant, if_neg names.layouts_ne_nil]
    exact returns_matchLayouts hval (hmp.lt_length (by simp [hasLayout, hmlvo])) _ _
  | variant =>
    have hne : names.variants ≠ [] := by
      rw [← length_pos_iff, names.variants_length]
      exact length_pos_iff.mpr names.layouts_ne_nil
    rw [matchField, matcherRuleMatchLayoutOrVariant, if_neg hne]
    have hlt := hmp.lt_length (by simp [hasLayout, hmlvo])
    rw [← names.variants_length] at hlt
    exact returns_matchLayouts hval hlt _ _
  | option =>
    rw [matchField, matcherRuleMatchOption, if_neg names.options_ne_nil]
    obtain ⟨⟨matched, unmatched, marks⟩, hr, -⟩ :=
      returns_matchOptions hval names.options (if mp.hasLayout then candidates else 0#32)
    rw [hr]
    exact .ok trivial

theorem returns_matchFields (hmp : RangeOk names mp) {fields : List (RulesMlvo × MlvoMatch)}
    (hfields : ∀ field ∈ fields, field.1 ∈ mp.mlvo ∧ field.2.isMapped groups = true)
    (candidates : BitVec 32) (marks : List (BitVec 32)) :
    Returns (matchFields names groups mp fields candidates marks) fun _ => True := by
  induction fields generalizing candidates marks with
  | nil => exact .ok trivial
  | cons field fields ih =>
    obtain ⟨mlvo, val⟩ := field
    obtain ⟨hmlvo, hval⟩ := hfields (mlvo, val) mem_cons_self
    obtain ⟨r, hr, -⟩ := returns_matchField hmp hmlvo hval
    rw [matchFields, hr]
    dsimp only
    split
    · exact ih (fun f hf => hfields f (mem_cons_of_mem _ hf)) _ _
    · exact .ok trivial

theorem addedSize_cons (kccgst : RulesKccgst) (size : RulesKccgst × ℕ)
    (sizes : List (RulesKccgst × ℕ)) :
    addedSize kccgst (size :: sizes) =
      (if size.1 = kccgst then size.2 else 0) + addedSize kccgst sizes := by
  rw [addedSize, addedSize, filter_cons]
  split
  · rename_i h
    rw [if_pos (by simpa using h), map_cons, sum_cons]
  · rename_i h
    rw [if_neg (by simpa using h), Nat.zero_add]

theorem le_addedSize {kccgst : RulesKccgst} {size : ℕ} {sizes : List (RulesKccgst × ℕ)}
    (h : (kccgst, size) ∈ sizes) : size ≤ addedSize kccgst sizes :=
  le_sum_of_mem (mem_map.mpr ⟨_, mem_filter.mpr ⟨h, decide_eq_true rfl⟩, rfl⟩)

/-- A component gets longer, and then the others. -/
theorem length_update_le {out out' : RulesKccgst → List UInt8} {kccgst : RulesKccgst} {size : ℕ}
    {sizes : List (RulesKccgst × ℕ)} {text : List UInt8}
    (htext : text.length ≤ (out kccgst).length + size)
    (h : ∀ k, (out' k).length ≤ (Function.update out kccgst text k).length + addedSize k sizes)
    (k : RulesKccgst) :
    (out' k).length ≤ (out k).length + addedSize k ((kccgst, size) :: sizes) := by
  have hk := h k
  rw [addedSize_cons]
  by_cases heq : kccgst = k
  · subst heq
    rw [Function.update_self] at hk
    rw [if_pos rfl]
    omega
  · rw [Function.update_of_ne (Ne.symm heq)] at hk
    rw [if_neg heq]
    omega

theorem length_concatKccgst_le (into «from» : List UInt8) :
    (concatKccgst into «from»).length ≤ into.length + «from».length := by
  unfold concatKccgst
  dsimp only
  split
  · simp
  split
  · simp [Nat.add_comm]
  · exact Nat.le_add_right _ _

theorem length_mergeKccgst_le (into : List UInt8) (expanded : Option (List UInt8)) :
    (mergeKccgst into expanded).length ≤ into.length + (expanded.getD []).length := by
  unfold mergeKccgst
  split
  · exact Nat.le_add_right _ _
  · exact Nat.le_add_right _ _
  · exact length_concatKccgst_le _ _

theorem returns_appendValues
    (h : layoutIdx ≠ xkbLayoutInvalid ∨ ∀ v ∈ values, hasVariableIndex v.2 = false)
    (hfits : ∀ v ∈ valueSizes names layoutIdx values, textFits v.2 = true)
    (out : RulesKccgst → List UInt8) :
    Returns (appendValues names layoutIdx values out) fun out' =>
      ∀ k, (out' k).length ≤ (out k).length + addedSize k (valueSizes names layoutIdx values) := by
  induction values generalizing out with
  | nil => exact .ok fun k => Nat.le_add_right _ _
  | cons v values ih =>
    obtain ⟨kccgst, value⟩ := v
    rw [valueSizes, map_cons, forall_mem_cons] at hfits
    have hvalue : layoutIdx ≠ xkbLayoutInvalid ∨ hasVariableIndex value = false :=
      h.imp_right fun h => h (kccgst, value) mem_cons_self
    obtain ⟨expanded, hx, hle⟩ := returns_expandLoop hvalue _ _ hfits.1
    rw [appendValues, expandKccgstValue, expandFrom, hx]
    refine (ih (h.imp_right fun h v hv => h v (mem_cons_of_mem _ hv)) hfits.2 _).mono
      fun out' hout' => length_update_le ?_ hout'
    exact (length_mergeKccgst_le _ _).trans (Nat.add_le_add_left hle _)

theorem returns_sliceValues {layout : ℕ} (h : layout ≠ xkbLayoutInvalid)
    (hfits : ∀ v ∈ valueSizes names layout values, textFits v.2 = true) :
    Returns (sliceValues names layout values) fun slices =>
      textSize slices ≤ ((valueSizes names layout values).map Prod.snd).sum ∧
        slices.length = values.length := by
  induction values with
  | nil => exact .ok ⟨le_refl _, rfl⟩
  | cons v values ih =>
    obtain ⟨kccgst, value⟩ := v
    rw [valueSizes, map_cons, forall_mem_cons] at hfits
    obtain ⟨expanded, hx, hle⟩ := returns_expandLoop (.inl h) _ _ hfits.1
    obtain ⟨slices, hslices, hsize, hlen⟩ := ih hfits.2
    rw [sliceValues, expandKccgstValue, expandFrom, hx, hslices]
    exact .ok ⟨Nat.add_le_add hle hsize, congrArg (· + 1) hlen⟩

theorem textSize_cons (slice : Slice) (slices : List Slice) :
    textSize (slice :: slices) = slice.text.length + textSize slices := by
  rw [textSize, map_cons, sum_cons, textSize]

theorem textSize_append (slices more : List Slice) :
    textSize (slices ++ more) = textSize slices + textSize more := by
  rw [textSize, map_append, sum_append, textSize, textSize]

theorem returns_bufferValues {layouts : List ℕ}
    (h : ∀ layout ∈ layouts, layout ≠ xkbLayoutInvalid)
    (hfits : ∀ layout ∈ layouts, ∀ v ∈ valueSizes names layout values, textFits v.2 = true) :
    Returns (bufferValues names values layouts) fun slices =>
      textSize slices ≤ (layouts.map fun layout =>
        ((valueSizes names layout values).map Prod.snd).sum).sum ∧
          slices.length = layouts.length * values.length := by
  induction layouts with
  | nil => exact .ok ⟨le_refl _, (Nat.zero_mul _).symm⟩
  | cons layout layouts ih =>
    rw [forall_mem_cons] at h hfits
    obtain ⟨slices, hslices, hsize, hlen⟩ := returns_sliceValues h.1 hfits.1
    obtain ⟨more, hmore, hsize', hlen'⟩ := ih h.2 hfits.2
    rw [bufferValues, hslices, hmore]
    refine .ok ⟨?_, ?_⟩
    · rw [textSize_append, map_cons, sum_cons]
      exact Nat.add_le_add hsize hsize'
    · rw [length_append, hlen, hlen', length_cons, Nat.succ_mul, Nat.add_comm]

theorem RangeOk.consume (h : RangeOk names mp) (candidates : BitVec 32) :
    RangeOk names (mp.consume candidates) := by
  rw [Mapping.consume]
  split
  · exact h
  · exact ⟨h.lt_length, h.min_ne, h.max_le⟩

/-- The layouts of a range of several are all valid. -/
theorem RangeOk.selected_ne (h : RangeOk names mp) (hmul : mp.hasMultipleLayouts = true) :
    ∀ layout ∈ mp.selected candidates, layout ≠ xkbLayoutInvalid := by
  intro layout hlayout
  have hmem := (mem_filter.mp hlayout).1
  rw [indices, mem_range'_1] at hmem
  have hle := h.max_le hmul
  have hlt : layout < xkbMaxGroups := by omega
  exact (hlt.trans (by decide)).ne

/-- There is room for each value in an array of its own. -/
theorem outputHasRoom_value (hroom : outputHasRoom m (valueSizes names layoutIdx values) = true)
    (hvalues : ∀ v ∈ values, v.1 ∈ m.mapping.kccgst) :
    ∀ v ∈ valueSizes names layoutIdx values, textFits v.2 = true := by
  intro v hv
  obtain ⟨value, hvalue, rfl⟩ := mem_map.mp hv
  refine textFits_of_le (all_eq_true.mp hroom _ (hvalues value hvalue)) ?_
  exact (le_addedSize hv).trans (Nat.le_add_left _ _)

theorem outputFits_of_hasRoom {out : RulesKccgst → List UInt8} {sizes : List (RulesKccgst × ℕ)}
    (hroom : outputHasRoom m sizes = true)
    (hout : ∀ k, (out k).length ≤ (m.kccgst k).length + addedSize k sizes) :
    outputFits m.mapping out = true :=
  all_eq_true.mpr fun k hk => textFits_of_le (all_eq_true.mp hroom k hk) (hout k)

/-- The values of a rule are buffered for some of the layouts of the rule set. -/
theorem returns_bufferRule {layouts : List ℕ} (hsub : layouts <+ m.mapping.indices)
    (hne : ∀ layout ∈ layouts, layout ≠ xkbLayoutInvalid)
    (htext : textFits (textSize m.pending + (m.mapping.indices.map fun layout =>
      ((valueSizes names layout values).map Prod.snd).sum).sum) = true)
    (hlen : arrayFits 8 (m.pending.length + m.mapping.indices.length * values.length) = true) :
    Returns (bufferValues names values layouts) fun slices =>
      pendingFits (m.pending ++ slices) = true := by
  have hvalue : ∀ layout ∈ layouts, ∀ v ∈ valueSizes names layout values,
      textFits v.2 = true := by
    intro layout hlayout v hv
    refine textFits_of_le htext (le_trans ?_ (Nat.le_add_left _ _))
    have hlayouts := le_sum_of_mem (mem_map_of_mem
      (f := fun layout => ((valueSizes names layout values).map Prod.snd).sum)
      (hsub.subset hlayout))
    exact (le_sum_of_mem (mem_map_of_mem hv)).trans hlayouts
  refine (returns_bufferValues hne hvalue).mono fun slices hslices => ?_
  obtain ⟨hsize, hcount⟩ := hslices
  have hsum := (hsub.map fun layout => ((valueSizes names layout values).map Prod.snd).sum)
    |>.sum_le_sum fun _ _ => Nat.zero_le _
  have hmul := Nat.mul_le_mul_right values.length hsub.length_le
  rw [pendingFits, Bool.and_eq_true]
  constructor
  · refine arrayFits_of_le htext ?_
    rw [textSize_append]
    omega
  · refine arrayFits_of_le hlen ?_
    rw [length_append, hcount]
    omega

theorem returns_matcherRuleApplyIfMatches (hmarks : MarksFit names.options m.marks)
    (hmp : RangeOk names m.mapping) (hsafe : ruleIsSafe m = true)
    (hroom : ruleHasRoom names m = true) :
    Returns (matcherRuleApplyIfMatches names m) fun m' =>
      MarksFit names.options m'.marks ∧ RangeOk names m'.mapping := by
  rw [ruleIsSafe, Bool.and_eq_true, all_eq_true, Bool.or_eq_true] at hsafe
  obtain ⟨hmapped, hindex⟩ := hsafe
  have hfields : ∀ field ∈ m.mapping.mlvo.zip m.rule.mlvoValues,
      field.1 ∈ m.mapping.mlvo ∧ field.2.isMapped m.groups = true := fun field hfield =>
    ⟨(of_mem_zip hfield).1, hmapped _ (of_mem_zip hfield).2⟩
  obtain ⟨⟨candidates, marks⟩, hr, -⟩ := returns_matchFields hmp hfields m.mapping.active m.marks
  have hmarks' := marksFit_of_matchFields hmarks hr
  rw [matcherRuleApplyIfMatches, hr]
  cases candidates with
  | none => exact .ok ⟨hmarks', hmp⟩
  | some candidates =>
    dsimp only
    split
    · rename_i hmul
      rw [ruleHasRoom, if_pos hmul, Bool.and_eq_true] at hroom
      obtain ⟨slices, hslices, hfits⟩ := returns_bufferRule filter_sublist
        (hmp.selected_ne hmul) hroom.1 hroom.2
      rw [Mapping.selected, hslices]
      exact returns_ifFits hfits ⟨hmarks', hmp.consume _⟩
    · rename_i hmul
      rw [ruleHasRoom, if_neg hmul] at hroom
      have hvalues : m.mapping.layoutIdxMin ≠ xkbLayoutInvalid ∨
          ∀ v ∈ m.mapping.kccgst.zip m.rule.kccgstValues, hasVariableIndex v.2 = false := by
        refine hindex.imp hmp.min_ne fun h v hv => ?_
        simpa using all_eq_true.mp h v.2 (of_mem_zip hv).2
      have hfits := outputHasRoom_value hroom fun v hv => (of_mem_zip hv).1
      obtain ⟨out, hout, hle⟩ := returns_appendValues hvalues hfits m.kccgst
      rw [hout]
      exact returns_ifFits (outputFits_of_hasRoom hroom hle) ⟨hmarks', hmp.consume _⟩

theorem length_mergeSlices_le (kccgst : RulesKccgst) (layout : ℕ) (pending : List Slice)
    (into : List UInt8) :
    (mergeSlices kccgst pending into layout).length ≤ into.length + textSize (pending.filter
      fun slice => slice.kccgst = kccgst ∧ slice.layout = layout) := by
  induction pending generalizing into with
  | nil => exact Nat.le_add_right _ _
  | cons slice pending ih =>
    rw [mergeSlices, foldl_cons]
    refine (ih _).trans ?_
    by_cases hslice : slice.kccgst = kccgst ∧ slice.layout = layout
    · rw [filter_cons_of_pos (by simpa using hslice), textSize_cons, ← Nat.add_assoc]
      refine Nat.add_le_add_right ?_ _
      split
      · exact length_concatKccgst_le _ _
      · exact Nat.le_add_right _ _
    · rw [filter_cons_of_neg (by simpa using hslice), if_neg fun h => hslice ⟨h.1, h.2.1⟩]

/-- The slices of a component, layout by layout. -/
theorem length_mergeLayouts_le (kccgst : RulesKccgst) (pending : List Slice) (layouts : List ℕ)
    (into : List UInt8) :
    (layouts.foldl (mergeSlices kccgst pending) into).length ≤
      into.length + slicesSize pending layouts kccgst := by
  induction layouts generalizing into with
  | nil => exact Nat.le_add_right _ _
  | cons layout layouts ih =>
    rw [foldl_cons, slicesSize, map_cons, sum_cons, ← Nat.add_assoc]
    exact (ih _).trans (Nat.add_le_add_right (length_mergeSlices_le kccgst layout pending into) _)

/-- All slices, component by component. -/
theorem length_mergePending_le (k : RulesKccgst) :
    (mergePending m k).length ≤ (m.kccgst k).length + addedSize k (pendingSizes m) := by
  rw [mergePending, pendingSizes]
  generalize m.mapping.kccgst = kccgsts, m.kccgst = out
  induction kccgsts generalizing out k with
  | nil => exact Nat.le_add_right _ _
  | cons kccgst kccgsts ih =>
    exact length_update_le (length_mergeLayouts_le _ _ _ _) (fun k => ih k _) k

theorem returns_matcherAppendPendingKccgst
    (hroom : (!m.mapping.hasMultipleLayouts || outputHasRoom m (pendingSizes m)) = true) :
    Returns (matcherAppendPendingKccgst m) fun m' => m'.marks = m.marks := by
  rw [matcherAppendPendingKccgst]
  split
  · exact .ok rfl
  · rename_i hmul
    have hroom' := (Bool.or_eq_true_iff.mp hroom).resolve_left (by simpa using hmul)
    exact returns_ifFits (outputFits_of_hasRoom hroom' length_mergePending_le) rfl

/-! ### The machine -/

/-- **The invariant of the matcher.** In a header, and in the rules after it, the mapping is as
it should be unless it is not used, and a rule that is not skipped has a mapping that is used. -/
def MatcherOk (names : RuleNames) (label : MatcherLabel) (m : Matcher) : Prop :=
  MarksFit names.options m.marks ∧
    match label with
    | .mappingMlvo | .mappingKccgst => m.mapping.active ≠ 0#32 → HeaderOk m.mapping
    | .ruleMlvoFirst => m.mapping.active ≠ 0#32 → RangeOk names m.mapping
    | .ruleMlvo | .ruleKccgst =>
      (m.mapping.active ≠ 0#32 → RangeOk names m.mapping) ∧
        (m.rule.skip = false → m.mapping.active ≠ 0#32)
    | _ => True

/-- What a step leaves: the invariant, or at the end of the file what of it remains. -/
def StepOk (names : RuleNames) (r : Option MatcherLabel × Matcher) : Prop :=
  match r.1 with
  | some label => MatcherOk names label r.2
  | none => MarksFit names.options r.2.marks

theorem matcherOk_ruleMlvoStep (h : MatcherOk names .ruleMlvo m) :
    StepOk names (ruleMlvoStep tok m) := by
  have hset : ∀ val, MatcherOk names .ruleMlvo (matcherRuleSetMlvo m val) := by
    intro val
    rw [matcherRuleSetMlvo]
    split
    · exact h
    split
    · exact ⟨h.1, h.2.1, fun hc => absurd hc (by simp)⟩
    · exact ⟨h.1, h.2.1, h.2.2⟩
  cases tok with
  | identifier | groupName | wildCardStar | wildCardNone | wildCardSome | wildCardAny =>
    exact hset _
  | equals => exact h
  | endOfFile | endOfLine | bang | «include» | error => exact h.1

theorem matcherOk_ruleStart (h : MatcherOk names .ruleMlvoFirst m) :
    MatcherOk names .ruleMlvo (matcherRuleStartNew m) := by
  exact ⟨h.1, h.2, beq_eq_false_iff_ne.mp⟩

theorem matcherOk_headerWord {set : Mapping → List UInt8 → Mapping}
    (hset : HeaderOk m.mapping → (set m.mapping ident).active ≠ 0#32 →
      HeaderOk (set m.mapping ident))
    (hlabel : label = .mappingMlvo ∨ label = .mappingKccgst) (h : MatcherOk names label m) :
    MatcherOk names label (headerWord set m ident) := by
  have hheader : m.mapping.active ≠ 0#32 → HeaderOk m.mapping := by
    rcases hlabel with rfl | rfl <;> exact h.2
  rw [headerWord]
  split
  · exact h
  · rename_i hactive
    rcases hlabel with rfl | rfl <;> exact ⟨h.1, hset (hheader hactive)⟩

theorem returns_endOfHeader (h : MatcherOk names .mappingKccgst m) :
    Returns (endOfHeader names m) (MatcherOk names .ruleMlvoFirst) := by
  rw [endOfHeader]
  split
  · rename_i hactive
    exact .ok ⟨h.1, fun hc => absurd hactive hc⟩
  · rename_i hactive
    have hheader := h.2 hactive
    obtain ⟨ok, hok, hverify⟩ := returns_matcherMappingVerify hheader
    rw [hok]
    cases ok with
    | false => exact .ok ⟨h.1, fun hc => absurd rfl hc⟩
    | true =>
      obtain ⟨hl, hv⟩ := hverify rfl
      obtain ⟨mp, hmp, hrange⟩ := returns_matcherMappingSetLayoutBounds hheader hl hv
      change Returns (matcherMappingSetLayoutBounds names m.mapping >>= _) _
      rw [hmp]
      exact .ok ⟨h.1, fun _ => hrange⟩

theorem returns_endOfRule (h : MatcherOk names .ruleKccgst m)
    (hsafe : (ruleIsSkipped m || ruleIsSafe m && ruleHasRoom names m) = true) :
    Returns (endOfRule names m) (MatcherOk names .ruleMlvoFirst) := by
  rw [endOfRule]
  split
  · exact .ok ⟨h.1, h.2.1⟩
  · rename_i hskip
    replace hskip := Bool.eq_false_iff.mpr hskip
    have hused : m.rule.skip = false := by
      rw [ruleIsSkipped, Bool.or_eq_false_iff, Bool.or_eq_false_iff] at hskip
      exact hskip.1.1
    have hrange := h.2.1 (h.2.2 hused)
    rw [hskip, Bool.false_or, Bool.and_eq_true] at hsafe
    exact (returns_matcherRuleApplyIfMatches h.1 hrange hsafe.1 hsafe.2).mono
      fun m' hm' => ⟨hm'.1, fun _ => hm'.2⟩

/-- **A safe step does not stop the process**, and keeps the invariant. -/
theorem returns_matcherStep (h : MatcherOk names label m)
    (hsafe : MatcherConfig.isSafe names ⟨label, tok, m⟩ = true)
    (hinc : ∀ s, label = .includeStatement → tok = .identifier s →
      Returns (inc s m) fun m' => MarksFit names.options m'.marks) :
    Returns (matcherStep names inc label tok m) (StepOk names) := by
  unfold matcherStep
  split
  case h_1 | h_2 | h_4 | h_6 | h_8 | h_10 | h_12 | h_16 => exact .ok h
  case h_3 | h_7 => exact returns_ifFits hsafe h
  case h_5 s => exact .ok ⟨h.1, headerOk_new.setMlvo s⟩
  case h_9 s => exact ((hinc s rfl rfl).mono fun m' hm' => ⟨hm', trivial⟩).map
  case h_11 s => exact .ok (matcherOk_headerWord (HeaderOk.setMlvo · s) (.inl rfl) h)
  case h_13 s =>
    exact .ok (matcherOk_headerWord (fun hmp _ => hmp.setKccgst) (.inr rfl) h)
  case h_14 => exact map (returns_endOfHeader h)
  case h_15 =>
    refine map ((returns_matcherAppendPendingKccgst hsafe).mono fun m' hm' => ⟨?_, trivial⟩)
    rw [hm']
    exact h.1
  case h_17 => exact .ok (matcherOk_ruleMlvoStep (matcherOk_ruleStart h))
  case h_18 => exact .ok (matcherOk_ruleMlvoStep h)
  case h_19 s =>
    refine .ok ?_
    show MatcherOk names .ruleKccgst (matcherRuleSetKccgst m s)
    rw [matcherRuleSetKccgst]
    split
    · exact h
    split
    · exact ⟨h.1, h.2.1, fun hc => absurd hc (by simp)⟩
    · exact ⟨h.1, h.2.1, h.2.2⟩
  case h_20 => exact map (returns_endOfRule h hsafe)
  case h_21 => exact .ok h.1

theorem returns_matcherEnd (h : MarksFit names.options m.marks)
    (hsafe : MatcherConfig.isSafe names ⟨label, .endOfFile, m⟩ = true) :
    Returns (matcherEnd label m) fun r => MarksFit names.options r.2.marks := by
  cases label with
  | ruleMlvoFirst =>
    refine map ((returns_matcherAppendPendingKccgst hsafe).mono fun m' hm' => ?_)
    rwa [hm']
  | _ => exact .ok h

/-! ### Runs and files -/

section

variable {steps : IncludeSteps}
  (hinc : ∀ s m, MarksFit names.options m.marks →
    (∀ st ∈ steps s m, st.isSafe names = true) →
      Returns (inc s m) fun m' => MarksFit names.options m'.marks)

include hinc in
/-- **A run of safe steps does not stop the process.** -/
theorem returns_matcherMatch (toks : List RulesToken) (h : MatcherOk names label m)
    (hsafe : ∀ st ∈ matcherSteps names inc steps toks label m, st.isSafe names = true) :
    Returns (matcherMatch names inc toks label m) fun r => MarksFit names.options r.2.marks := by
  induction toks generalizing label m with
  | nil => exact returns_matcherEnd h.1 (hsafe _ mem_cons_self)
  | cons tok toks ih =>
    rw [matcherSteps, cons_append, forall_mem_cons, forall_mem_append] at hsafe
    obtain ⟨hst, hincluded, hrest⟩ := hsafe
    have hstep := returns_matcherStep h hst fun s hlabel htok => by
      rw [hlabel, htok] at hincluded
      exact hinc s m h.1 hincluded
    obtain ⟨⟨next, m'⟩, hr, hok⟩ := hstep
    rw [hr] at hrest
    rw [matcherMatch, hr]
    cases next with
    | none => exact .ok hok
    | some label' => exact ih hok hrest

include hinc in
theorem returns_readRulesFile (file : Option (List UInt8)) (h : MarksFit names.options m.marks)
    (hsafe : ∀ st ∈ fileSteps names inc steps file m, st.isSafe names = true) :
    Returns (readRulesFile names inc file m) fun r => MarksFit names.options r.2.marks := by
  rw [fileSteps] at hsafe
  rw [readRulesFile]
  split
  · exact .ok h
  · rename_i s hs
    rw [hs] at hsafe
    refine map ?_
    exact returns_matcherMatch hinc (rulesTokens s) ⟨h, trivial⟩ hsafe

end

theorem returns_readUntil {stop : Bool}
    {read : Option (List UInt8) → Matcher → Except Fault (Bool × Matcher)}
    {steps : Option (List UInt8) → Matcher → List MatcherConfig}
    (hread : ∀ file m, MarksFit names.options m.marks →
      (∀ st ∈ steps file m, st.isSafe names = true) →
        Returns (read file m) fun r => MarksFit names.options r.2.marks)
    (files : List (Option (List UInt8))) (h : MarksFit names.options m.marks)
    (hsafe : ∀ st ∈ filesSteps stop read steps files m, st.isSafe names = true) :
    Returns (readUntil stop read files m) fun r => MarksFit names.options r.2.marks := by
  induction files generalizing m with
  | nil => exact .ok h
  | cons file files ih =>
    rw [filesSteps, forall_mem_append] at hsafe
    obtain ⟨⟨ok, m'⟩, hr, hm'⟩ := hread file m h hsafe.1
    rw [hr] at hsafe
    rw [readUntil, hr]
    dsimp only at hsafe ⊢
    split
    · exact .ok hm'
    · rename_i hne
      rw [if_neg hne] at hsafe
      exact ih hm' hsafe.2

/-- Includes, by induction on the depth that is left. -/
theorem returns_matcherInclude {env : RulesEnv} (depth : ℕ) (s : List UInt8)
    (h : MarksFit names.options m.marks)
    (hsafe : ∀ st ∈ includeSteps names env depth s m, st.isSafe names = true) :
    Returns (matcherInclude names env depth s m) fun m' => MarksFit names.options m'.marks := by
  induction depth generalizing s m with
  | zero => exact .ok h
  | succ depth ih =>
    rw [matcherInclude]
    refine map ?_
    exact returns_readUntil (fun file _ => returns_readRulesFile (fun s _ => ih s) file)
      (env.includeFiles s) h hsafe

/-- **A rules file does not stop the process**, for any rules and names, as long as no rule asks
for a layout index that its header does not have or names a group of a file that is closed, and
no array gets too large. -/
theorem rules_never_abort (env : RulesEnv) (rules : List UInt8) (names : RuleNames)
    (hrules : isAbsolutePath rules = false)
    (hsafe : ∀ st ∈ resolveSteps env rules names, st.isSafe names = true) :
    ∃ r, xkbResolveRules env rules names = .ok r := by
  rw [resolveSteps] at hsafe
  rw [xkbResolveRules, if_neg (by simp [hrules])]
  split
  · exact ⟨_, rfl⟩
  · rename_i files hfiles
    rw [hfiles] at hsafe
    obtain ⟨⟨ok, m⟩, hr, hmarks⟩ := returns_readUntil
      (fun file _ =>
        returns_readRulesFile (fun s _ => returns_matcherInclude maxIncludeDepth s) file) files
      marksFit_zero hsafe
    rw [readMainFile, hr]
    cases ok with
    | false => exact ⟨_, rfl⟩
    | true =>
      dsimp only
      rw [componentsOf, if_pos (marksOk_of_marksFit hmarks)]
      split
      · exact ⟨_, rfl⟩
      · exact ⟨_, rfl⟩

/-- The layout index of a rule set that has one. -/
theorem rules_never_abort_range :
    let env := rulesEnvOf "! layout[any] = symbols\n* = %l[%i]\n" []
    let names := matcherNewFromNames twoLayouts
    (∀ st ∈ resolveSteps env (ascii "evdev") names, st.isSafe names = true) ∧
      ∃ r, xkbResolveRules env (ascii "evdev") names = .ok r := by
  have hsafe : ∀ st ∈ resolveSteps (rulesEnvOf "! layout[any] = symbols\n* = %l[%i]\n" [])
      (ascii "evdev") (matcherNewFromNames twoLayouts),
      st.isSafe (matcherNewFromNames twoLayouts) = true := by decide +kernel
  exact ⟨hsafe, rules_never_abort _ _ _ (by decide) hsafe⟩

/-- The header has a model only, and the value asks for a layout by `%i`. -/
theorem rules_abort_on_index :
    xkbComponentsFromRulesNames (rulesEnvOf "! model = symbols\n* = %l[%i]\n" []) twoLayouts =
      .error .layoutIndex := by
  refine eq_error_of_map (f := fun _ => ()) ?_
  decide +kernel

/-- The rules are an absolute path. -/
example :
    xkbComponentsFromRulesNames (rulesEnvOf "" []) { twoLayouts with rules := some (ascii "/x") } =
      .error .absolutePath := by
  refine eq_error_of_map (f := fun _ => ()) ?_
  decide +kernel

/-- A group of an included file, named in the file that includes it. -/
example :
    xkbComponentsFromRulesNames
        (rulesEnvOf "! include groups\n! layout[first] = symbols\n$g = us\n" ["! $g = us\n"])
        twoLayouts = .error .unmapped := by
  refine eq_error_of_map (f := fun _ => ()) ?_
  decide +kernel

end Xkbcommon
