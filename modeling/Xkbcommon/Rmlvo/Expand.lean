import Xkbcommon.Rmlvo.Names

/-!
# The values of a rule

What a rule gives for keycodes, types, compatibility, symbols and geometry is a text with
`%`-expansions and `:all` qualifiers in it, expanded in one pass from left to right
(`append_expanded_kccgst_value` of `src/xkbcomp/rules.c`) and then merged with what there is.

An expansion that is not valid drops the value, `none` below. One that reaches an assertion
that does not hold stops the process, `Except.error`.
-/

namespace Xkbcommon

open List Option

variable {names : RuleNames} {s pfx : List UInt8} {layoutIdx : ℕ} {c : UInt8}

/-- `XKB_LAYOUT_INVALID`. -/
def xkbLayoutInvalid : ℕ := 0xffffffff

/-- **What stops the process**: an assertion that does not hold, or a read of memory that is
not there. -/
inductive Fault
  /-- `%l[%i]` or `%v[%i]`, and the rule set has no layout index. -/
  | layoutIndex
  /-- A field of a header has no index. -/
  | headerIndex
  /-- There is no layout, variant or option. -/
  | noValue
  /-- A layout or variant is read that there is not. -/
  | outOfRange
  /-- A name is compared with the text of a file that is no longer mapped. -/
  | unmapped
  /-- An option for some layouts was matched for other layouts. -/
  | unmatchedLayouts
  /-- An array is made larger than it can be. -/
  | tooLarge
  /-- A file of an absolute path is searched in the include paths. -/
  | absolutePath
  deriving DecidableEq, Repr

/-- The assertion of `darray_next_alloc`, for an array that is to hold `need` items. It is only
made if the array has to be allocated anew, here always. -/
def arrayFits (itemSize need : ℕ) : Bool := decide (need < (2 ^ 32 - 1) / itemSize / 2)

/-- A text of this length, with the null byte after it. -/
def textFits (length : ℕ) : Bool := arrayFits 1 (length + 1)

/-- What has been added to an array, if it can be that large. -/
def ifFits {α : Type} (fits : Bool) (grown : α) : Except Fault α :=
  if fits then .ok grown else .error .tooLarge

/-- `is_merge_mode_prefix`. -/
def isMergeModePrefix (c : UInt8) : Bool := c == 0x2b || c == 0x7c || c == 0x5e

/-- The value ends here, or the next item starts. -/
def endsItem : List UInt8 → Bool
  | [] => true
  | c :: _ => isMergeModePrefix c

/-! ### Layout indices -/

/-- `parse_layout_int_index_tail`: the index and the length of `[n]`. -/
def parseLayoutIntIndexTail (s : List UInt8) : Option (ℕ × ℕ) :=
  if s.length < 3 then none
  else
    match parseDecToUint32 ((s.drop 1).take (s.length - 2)) with
    | none => none
    | some (count, val) =>
      if count = 0 ∨ s[1 + count]? ≠ some 0x5d ∨ val = 0 ∨ xkbMaxGroups < val then none
      else some (val - 1, count + 2)

theorem lt_of_parseLayoutIntIndexTail {r : ℕ × ℕ} (h : parseLayoutIntIndexTail s = some r) :
    r.1 < xkbMaxGroups := by
  unfold parseLayoutIntIndexTail at h
  split at h
  · cases h
  split at h
  · cases h
  split at h
  · cases h
  · rename_i hval
    obtain rfl := some.inj h
    simp only [not_or, not_lt] at hval
    exact Nat.lt_of_lt_of_le (Nat.sub_lt (Nat.pos_of_ne_zero hval.2.2.1) Nat.one_pos) hval.2.2.2

/-- `extract_layout_index`: the index and the length of `[n]` or `[%i]`; the index of the
latter is `XKB_LAYOUT_INVALID`. -/
def extractLayoutIndex (s : List UInt8) : Option (ℕ × ℕ) :=
  match s with
  | 0x5b :: c :: d :: rest =>
    if d = 0x5d ∧ 0x31 ≤ c ∧ c ≤ 0x39 then some (c.toNat - 0x31, 3)
    else if c = 0x25 ∧ d = 0x69 ∧ rest.head? = some 0x5d then some (xkbLayoutInvalid, 4)
    else parseLayoutIntIndexTail s
  | _ => none

/-! ### `%`-expansion -/

/-- The specifier of an expansion. -/
inductive Specifier
  | model | layout | variant
  deriving DecidableEq, Repr

/-- The layout or the variant that an expansion stands for. Without an index there must be
exactly one; with the index `%i`, or with several of them, it is the one of that index. -/
def indexedValue (values : List (List UInt8)) (idx : ℕ) (variableIndex : Bool) : List UInt8 :=
  if idx = xkbLayoutInvalid then
    if values.length = 1 then values.getD 0 [] else []
  else if idx < values.length ∧ (variableIndex = true ∨ 1 < values.length) then values.getD idx []
  else []

/-- What an expansion stands for. -/
def expandedValue (names : RuleNames) (mlv : Specifier) (idx : ℕ) (variableIndex : Bool) :
    List UInt8 :=
  match mlv with
  | .model => names.model
  | .layout => indexedValue names.layouts idx variableIndex
  | .variant => indexedValue names.variants idx variableIndex

/-- The prefix of an expansion and what follows it. -/
def expansionPrefix : List UInt8 → List UInt8 × List UInt8
  | [] => ([], [])
  | c :: s =>
    if c = 0x28 ∨ isMergeModePrefix c = true ∨ c = 0x5f ∨ c = 0x2d then ([c], s) else ([], c :: s)

/-- The suffix that goes with a prefix. -/
def expansionSuffix (pfx : List UInt8) : List UInt8 := if pfx = [0x28] then [0x29] else []

/-- The end of an expansion: the suffix must be there, and stands around the value like the
prefix if there is a value. -/
def expandEnd (names : RuleNames) (pfx : List UInt8) (mlv : Specifier) (idx : ℕ)
    (variableIndex : Bool) (s : List UInt8) : Option (List UInt8 × List UInt8) :=
  let sfx := expansionSuffix pfx
  if sfx <+: s then
    let value := expandedValue names mlv idx variableIndex
    some (if value = [] then [] else pfx ++ value ++ sfx, s.drop sfx.length)
  else none

/-- The index of an expansion and what follows it. -/
def expandIndex (names : RuleNames) (layoutIdx : ℕ) (pfx : List UInt8) (mlv : Specifier)
    (s : List UInt8) : Except Fault (Option (List UInt8 × List UInt8)) :=
  if s.head? = some 0x5b then
    if mlv = .model then .ok none
    else
      match extractLayoutIndex s with
      | none => .ok none
      | some (idx, consumed) =>
        if idx = xkbLayoutInvalid then
          -- `%i` encountered
          if layoutIdx = xkbLayoutInvalid then .error .layoutIndex
          else .ok (expandEnd names pfx mlv layoutIdx true (s.drop consumed))
        else .ok (expandEnd names pfx mlv idx false (s.drop consumed))
  else .ok (expandEnd names pfx mlv xkbLayoutInvalid false s)

/-- The specifier of a letter. -/
def specifierOf (c : UInt8) : Option Specifier :=
  if c = 0x6d then some .model
  else if c = 0x6c then some .layout
  else if c = 0x76 then some .variant
  else none

/-- **`expand_rmlvo_in_kccgst_value`**, on what follows the `%`: the text it stands for and the
rest of the value. -/
def expandRmlvo (names : RuleNames) (layoutIdx : ℕ) (s : List UInt8) :
    Except Fault (Option (List UInt8 × List UInt8)) :=
  if s.head? = some 0x69 ∧ endsItem s.tail = true then
    if layoutIdx = xkbLayoutInvalid then .ok none
    else .ok (some (decimal (layoutIdx + 1), s.tail))
  else
    match expansionPrefix s with
    | (_, []) => .ok none
    | (pfx, c :: rest) =>
      match specifierOf c with
      | none => .ok none
      | some mlv => expandIndex names layoutIdx pfx mlv rest

/-! ### `:all` -/

/-- **`expand_qualifier_in_kccgst_value`**, on what follows the `:`: what has been expanded and
the rest of the value. -/
def expandQualifier (names : RuleNames) (hasSeparator : Bool) (prefixIdx : ℕ)
    (expanded s : List UInt8) : List UInt8 × List UInt8 :=
  if ascii "all" <+: s ∧ endsItem (s.drop 3) = true then
    let item := expanded.drop prefixIdx
    let more := (List.range' 1 (min xkbMaxGroups names.layouts.length - 1)).flatMap fun l =>
      (if hasSeparator then [] else [0x2b]) ++ item ++ decimal (l + 1)
    (expanded ++ [0x31] ++ more, s.drop 3)
  else (expanded, s)

/-! ### A whole value -/

/-- What the loop of `append_expanded_kccgst_value` keeps. -/
structure Expansion where
  expanded : List UInt8 := []
  lastItemIdx : ℕ := 0
  hasSeparator : Bool := false
  deriving DecidableEq, Repr

/-- One turn of the loop: what has been expanded and the rest of the value. -/
def expandStep (names : RuleNames) (layoutIdx : ℕ) (c : UInt8) (s : List UInt8)
    (e : Expansion) : Except Fault (Option (Expansion × List UInt8)) :=
  if c = 0x3a then
    let (expanded, rest) :=
      expandQualifier names e.hasSeparator e.lastItemIdx (e.expanded ++ [c]) s
    .ok (some ({ e with expanded := expanded }, rest))
  else if c = 0x25 then
    if s = [] then .ok none
    else
      match expandRmlvo names layoutIdx s with
      | .error f => .error f
      | .ok none => .ok none
      | .ok (some (text, rest)) => .ok (some ({ e with expanded := e.expanded ++ text }, rest))
  else if isMergeModePrefix c then
    .ok (some ({ expanded := e.expanded ++ [c], lastItemIdx := e.expanded.length,
                 hasSeparator := true }, s))
  else .ok (some ({ e with expanded := e.expanded ++ [c] }, s))

/-- The loop of `append_expanded_kccgst_value`. -/
def expandLoop (names : RuleNames) (layoutIdx : ℕ) :
    ℕ → List UInt8 → Expansion → Except Fault (Option (List UInt8))
  | _, [], e => .ok (some e.expanded)
  | 0, _ :: _, _ => .ok none
  | fuel + 1, c :: s, e =>
    match expandStep names layoutIdx c s e with
    | .error f => .error f
    | .ok none => .ok none
    | .ok (some (e, rest)) =>
      if textFits e.expanded.length then expandLoop names layoutIdx fuel rest e
      else .error .tooLarge

/-- The loop, with as many turns as there are bytes left. -/
def expandFrom (names : RuleNames) (layoutIdx : ℕ) (s : List UInt8) (e : Expansion) :
    Except Fault (Option (List UInt8)) :=
  expandLoop names layoutIdx s.length s e

/-- **`append_expanded_kccgst_value`**, up to the merge: the expanded value, or `none` if the
value is not used. -/
def expandKccgstValue (names : RuleNames) (layoutIdx : ℕ) (value : List UInt8) :
    Except Fault (Option (List UInt8)) :=
  expandFrom names layoutIdx value {}

/-- `concat_kccgst`: a value without a merge mode goes first, and only if there is none yet. -/
def concatKccgst (into «from» : List UInt8) : List UInt8 :=
  let fromPlus := («from».head?.map isMergeModePrefix).getD false
  if fromPlus ∨ into = [] then into ++ «from»
  else if (into.head?.map isMergeModePrefix).getD false then «from» ++ into
  else into

/-- What `append_expanded_kccgst_value` makes of the output, the value being expanded. -/
def mergeKccgst (into : List UInt8) (expanded : Option (List UInt8)) : List UInt8 :=
  match expanded with
  | none => into
  | some [] => into
  | some (c :: s) => concatKccgst into (c :: s)

/-! ### The loop gets through the value -/

section

variable {r : List UInt8 × List UInt8} {mlv : Specifier} {e : Expansion}

theorem suffix_of_expandEnd {idx : ℕ} {variableIndex : Bool}
    (h : expandEnd names pfx mlv idx variableIndex s = some r) : r.2 <:+ s := by
  unfold expandEnd at h
  dsimp only at h
  split at h
  · obtain rfl := some.inj h
    exact drop_suffix _ _
  · cases h

theorem suffix_of_expandIndex (h : expandIndex names layoutIdx pfx mlv s = .ok (some r)) :
    r.2 <:+ s := by
  unfold expandIndex at h
  split at h
  · split at h
    · cases h
    split at h
    · cases h
    rename_i idx consumed _
    split at h
    · split at h
      · cases h
      · exact (suffix_of_expandEnd (Except.ok.inj h)).trans (drop_suffix _ _)
    · exact (suffix_of_expandEnd (Except.ok.inj h)).trans (drop_suffix _ _)
  · exact suffix_of_expandEnd (Except.ok.inj h)

theorem suffix_expansionPrefix (s : List UInt8) : (expansionPrefix s).2 <:+ s := by
  cases s with
  | nil => exact suffix_refl _
  | cons c s =>
    rw [expansionPrefix]
    split
    · exact suffix_cons _ _
    · exact suffix_refl _

theorem suffix_of_expandRmlvo (h : expandRmlvo names layoutIdx s = .ok (some r)) : r.2 <:+ s := by
  unfold expandRmlvo at h
  split at h
  · split at h
    · cases h
    · obtain rfl := some.inj (Except.ok.inj h)
      exact tail_suffix _
  · split at h
    · cases h
    rename_i pfx c rest hpfx
    have hsuf := suffix_expansionPrefix s
    rw [hpfx] at hsuf
    split at h
    · cases h
    · exact (suffix_of_expandIndex h).trans ((suffix_cons _ _).trans hsuf)

theorem suffix_expandQualifier (hasSeparator : Bool) (prefixIdx : ℕ) (expanded : List UInt8) :
    (expandQualifier names hasSeparator prefixIdx expanded s).2 <:+ s := by
  unfold expandQualifier
  split
  · exact drop_suffix _ _
  · exact suffix_refl _

/-- What is left after a turn is an end of what there was. -/
theorem suffix_of_expandStep {r : Expansion × List UInt8}
    (h : expandStep names layoutIdx c s e = .ok (some r)) : r.2 <:+ s := by
  unfold expandStep at h
  split at h
  · obtain rfl := some.inj (Except.ok.inj h)
    exact suffix_expandQualifier _ _ _
  split at h
  · split at h
    · cases h
    split at h
    · cases h
    · cases h
    · rename_i text rest hx
      obtain rfl := some.inj (Except.ok.inj h)
      exact suffix_of_expandRmlvo hx
  split at h
  · obtain rfl := some.inj (Except.ok.inj h)
    exact suffix_refl _
  · obtain rfl := some.inj (Except.ok.inj h)
    exact suffix_refl _

/-- More turns than the value is long change nothing. -/
theorem expandLoop_fuel {n k : ℕ} (hn : s.length ≤ n) (hk : s.length ≤ k) (e : Expansion) :
    expandLoop names layoutIdx n s e = expandLoop names layoutIdx k s e := by
  induction n generalizing k s e with
  | zero =>
    rw [eq_nil_of_length_eq_zero (Nat.le_zero.mp hn), expandLoop, expandLoop]
  | succ n ih =>
    cases s with
    | nil => rw [expandLoop, expandLoop]
    | cons c s =>
      cases k with
      | zero => cases hk
      | succ k =>
        rw [expandLoop, expandLoop]
        split
        · rfl
        · rfl
        · rename_i e rest hstep
          have hlen : rest.length ≤ s.length := (suffix_of_expandStep hstep).length_le
          simp only [length_cons] at hn hk
          rw [ih (k := k) (by omega) (by omega) e]

/-- **A value is expanded turn by turn**, to its end or to an expansion that is not valid. -/
theorem expandFrom_cons :
    expandFrom names layoutIdx (c :: s) e =
      match expandStep names layoutIdx c s e with
      | .error f => .error f
      | .ok none => .ok none
      | .ok (some (e, rest)) =>
        if textFits e.expanded.length then expandFrom names layoutIdx rest e
        else .error .tooLarge := by
  rw [expandFrom, length_cons, expandLoop]
  split
  · rfl
  · rfl
  · rename_i e rest hstep
    rw [expandLoop_fuel (suffix_of_expandStep hstep).length_le (le_refl _) e, expandFrom]

end

end Xkbcommon
