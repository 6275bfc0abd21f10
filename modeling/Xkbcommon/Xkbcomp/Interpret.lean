import Xkbcommon.Compile
import Xkbcommon.Xkbcomp.ActionLists

/-!
# Interpretations of a key

The part of `src/xkbcomp/keymap.c` that gives actions to the levels of a key. The interpretations of
a keymap are sorted from the most specific to the least specific one (`CopyCompatToKeymap`). For
each keysym of a level the first one that matches is taken, and its actions are appended to those
of the level (`FindInterpForKey`, `ApplyInterpsToKey`). An interpretation of any keysym is taken
for one keysym of the level only.

Three things are of interest.

* *An interpretation of any keysym is applied once.* The check for a previous keysym is not made for
  the first interpretation of the keymap.
* *The actions are counted in 16 bits.* The comparison with the maximum is inside out: it compares
  what `unlikely` makes of the count, which is 0 or 1.
* *One action of each category is left* on a level (`CheckMultipleActionsCategories`). The pass is
  quadratic and in place; `Xkbcommon.checkMultipleActionsCategories` is the same in one go.

The keysyms of a level are those that `xkb_keymap_key_get_syms_by_level` finds for the keycode of
the key. Messages and the marks of the interpretations that are used are left out.
-/

namespace Xkbcommon.Xkbcomp

open List Option

variable {actions : List XkbAction} {interps : List SymInterpInfo}

/-! ### Sorting -/

/-- `CopyInterps`. -/
def copyInterps (interps : List SymInterpInfo) (needSymbol : Bool) (pred : MatchOperation) :
    List SymInterpInfo :=
  interps.filter fun si => si.match_ == pred && (si.sym != 0) == needSymbol

/-- The interpretations in `CopyCompatToKeymap`. -/
def copyCompatInterps (interps : List SymInterpInfo) : List SymInterpInfo :=
  [true, false].flatMap fun needSymbol =>
    [MatchOperation.exactly, .all, .none, .any, .anyOrNone].flatMap (copyInterps interps needSymbol)

/-! ### Finding the interpretations of a level -/

/-- The modifiers of an interpretation match those of the key. -/
def SymInterpInfo.matchesMods (interp : SymInterpInfo) (modmap : BitVec 32) (level : ℕ) : Bool :=
  let mods := if interp.levelOneOnly && level != 0 then 0#32 else modmap
  match interp.match_ with
  | .none => interp.mods &&& mods == 0#32
  | .anyOrNone => mods == 0#32 || interp.mods &&& mods != 0#32
  | .any => interp.mods &&& mods != 0#32
  | .all => interp.mods &&& mods == interp.mods
  | .exactly => interp.mods == mods

/-- The inner loop of `FindInterpForKey`, from the interpretation `i` on: the index of the one that
is taken for a keysym, or `none` for the default interpretation. Those of the keysyms before are
`previous`. -/
def findInterp (modmap : BitVec 32) (level : ℕ) (sym : Keysym) (previous : List (Option ℕ)) :
    ℕ → List SymInterpInfo → Option ℕ
  | _, [] => none
  | i, interp :: interps =>
    if interp.sym ≠ sym ∧ interp.sym ≠ 0 then
      findInterp modmap level sym previous (i + 1) interps
    else if interp.matchesMods modmap level then
      if 0 < i ∧ interp.sym = 0 ∧ some i ∈ previous then none else some i
    else findInterp modmap level sym previous (i + 1) interps

/-- `FindInterpForKey`. -/
def findInterpForKey (interps : List SymInterpInfo) (modmap : BitVec 32) (level : ℕ)
    (syms : List Keysym) : List (Option ℕ) :=
  syms.foldl (fun previous sym =>
    previous ++ [findInterp modmap level sym previous 0 interps]) []

/-! ### Applying them -/

/-- `struct xkb_level`, less the upper case keysyms. -/
structure InterpLevel where
  syms : List Keysym := []
  store : ActionStore := {}
  deriving DecidableEq, Repr

/-- `struct xkb_group`, the part that the interpretations concern. -/
structure InterpGroup where
  explicitActions : Bool := false
  implicitActions : Bool := false
  levels : List InterpLevel := []
  deriving DecidableEq, Repr

/-- `struct xkb_key`, the part that the interpretations concern. -/
structure InterpKey where
  modmap : BitVec 32 := 0#32
  vmodmap : BitVec 32 := 0#32
  explicitRepeat : Bool := false
  explicitVmodmap : Bool := false
  repeats : Bool := false
  implicitActions : Bool := false
  groups : List InterpGroup := []
  deriving DecidableEq, Repr

/-- `default_interpret`. -/
def defaultInterpret : SymInterpInfo := { match_ := .anyOrNone, autoRepeat := true }

/-- The interpretations of a level. -/
def levelInterprets (interps : List SymInterpInfo) (modmap : BitVec 32) (level : ℕ)
    (syms : List Keysym) : List SymInterpInfo :=
  (findInterpForKey interps modmap level syms).map fun i => (i.bind (interps[·]?)).getD
    defaultInterpret

/-- The actions of these interpretations, one after the other. -/
def interpretActions (interprets : List SymInterpInfo) : List XkbAction :=
  interprets.flatMap fun interp => interp.actions.read

/-- The macro `unlikely`, with `__builtin_expect` or without it. -/
def unlikely (builtinExpect : Bool) (x : ℕ) : ℕ :=
  if builtinExpect then (if x ≠ 0 then 1 else 0) else x

/-- How the actions are stored in the level. The count has 16 bits. -/
def storeInterpretActions (builtinExpect : Bool) (actions : List XkbAction) : ActionStore :=
  let numActions :=
    if maxPerLevel < unlikely builtinExpect actions.length then maxPerLevel
    else actions.length % 0x10000
  match actions with
  | [] => { numActions }
  | [action] => { numActions, action }
  | actions => { numActions, actions := actions.take numActions }

/-- One level in the loop of `ApplyInterpsToKey`. A level without keysyms is skipped. -/
def applyInterpsToLevel (builtinExpect : Bool) (interps : List SymInterpInfo)
    (modmap : BitVec 32) (ndx : ℕ) (level : InterpLevel) : InterpLevel :=
  if level.syms = [] then level
  else
    { level with
      store := storeInterpretActions builtinExpect
        (interpretActions (levelInterprets interps modmap ndx level.syms)) }

/-- The virtual modifiers of the interpretations of a level. -/
def interpretVmods (isFirst : Bool) (interprets : List SymInterpInfo) : BitVec 32 :=
  interprets.foldl (fun vmodmap interp =>
    match interp.virtualMod with
    | some vmod =>
      if isFirst || !interp.levelOneOnly then vmodmap ||| 1#32 <<< vmod else vmodmap
    | none => vmodmap) 0#32

/-- A group in the loop of `ApplyInterpsToKey`. A group with explicit actions is skipped. -/
def applyInterpsToGroup (builtinExpect : Bool) (interps : List SymInterpInfo)
    (modmap : BitVec 32) (group : InterpGroup) : InterpGroup :=
  if group.explicitActions then group
  else
    { group with
      levels := group.levels.mapIdx (applyInterpsToLevel builtinExpect interps modmap)
      implicitActions := group.implicitActions ||
        group.levels.zipIdx.any fun level =>
          interpretActions (levelInterprets interps modmap level.2 level.1.syms) != [] }

/-- The virtual modifiers of a group. -/
def groupVmods (interps : List SymInterpInfo) (modmap : BitVec 32) (ndx : ℕ)
    (group : InterpGroup) : BitVec 32 :=
  if group.explicitActions then 0#32
  else
    (group.levels.mapIdx fun level l =>
      interpretVmods (ndx == 0 && level == 0) (levelInterprets interps modmap level l.syms)).foldl
      (· ||| ·) 0#32

/-- Whether the first level makes the key repeat. -/
def firstLevelRepeats (interps : List SymInterpInfo) (key : InterpKey) : Bool :=
  match key.groups with
  | ⟨false, _, level :: _⟩ :: _ =>
    (levelInterprets interps key.modmap 0 level.syms).any (·.autoRepeat)
  | _ => false

/-- `ApplyInterpsToKey`. -/
def applyInterpsToKey (builtinExpect : Bool) (interps : List SymInterpInfo) (key : InterpKey) :
    InterpKey :=
  let groups := key.groups.map (applyInterpsToGroup builtinExpect interps key.modmap)
  { key with
    groups
    repeats := key.repeats || (!key.explicitRepeat && firstLevelRepeats interps key)
    implicitActions := key.implicitActions ||
      groups.any fun group => !group.explicitActions && group.implicitActions
    vmodmap :=
      if key.explicitVmodmap then key.vmodmap
      else (key.groups.mapIdx (groupVmods interps key.modmap)).foldl (· ||| ·) 0#32 }

/-! ### One action of each category -/

/-- The inner loop of `CheckMultipleActionsCategories`: a later action is disabled. -/
def disableAction (action₁ action₂ : XkbAction) : XkbAction :=
  if sameCategory action₁ action₂ then { action₂ with type := .none } else action₂

/-- The two loops of `CheckMultipleActionsCategories` over the actions of a level. The actions after
one are changed before the loop comes to them. -/
def checkActionsInPlace : List XkbAction → List XkbAction
  | [] => []
  | action :: actions => action :: checkActionsInPlace (actions.map (disableAction action))
  termination_by actions => actions.length
  decreasing_by simp

/-- A level in `CheckMultipleActionsCategories`. -/
def checkLevel (level : InterpLevel) : InterpLevel :=
  if level.store.numActions ≤ 1 then level
  else
    { level with
      store.actions := checkActionsInPlace (level.store.actions.take level.store.numActions) ++
        level.store.actions.drop level.store.numActions }

/-- `CheckMultipleActionsCategories`. -/
def checkKey (key : InterpKey) : InterpKey :=
  { key with
    groups := key.groups.map fun group => { group with levels := group.levels.map checkLevel } }

/-! ### An interpretation of any keysym is applied once -/

section Once

variable {modmap : BitVec 32} {level : ℕ} {syms : List Keysym} {sym : Keysym}
  {previous : List (Option ℕ)} {i j : ℕ} {interp : SymInterpInfo}

/-- The interpretation that is taken matches, and it was not taken before if it is one of any
keysym – other than the first one. -/
theorem findInterp_eq_some (h : findInterp modmap level sym previous i interps = some j) :
    i ≤ j ∧ ∃ interp, interps[j - i]? = some interp ∧ interp.matchesMods modmap level = true ∧
      (0 < j → interp.sym = 0 → some j ∉ previous) := by
  induction interps generalizing i with
  | nil => simp [findInterp] at h
  | cons interp interps ih =>
    have hnext (h : findInterp modmap level sym previous (i + 1) interps = some j) :
        i ≤ j ∧ ∃ interp', (interp :: interps)[j - i]? = some interp' ∧
          interp'.matchesMods modmap level = true ∧
          (0 < j → interp'.sym = 0 → some j ∉ previous) := by
      obtain ⟨hle, interp', hget, hrest⟩ := ih h
      refine ⟨by omega, interp', ?_, hrest⟩
      rwa [show j - i = (j - (i + 1)) + 1 by omega, getElem?_cons_succ]
    rw [findInterp] at h
    split_ifs at h with hsym hmods hrepeated
    · exact hnext h
    · obtain rfl := Option.some.inj h
      refine ⟨le_rfl, interp, by simp, hmods, fun hpos hany hmem => hrepeated ⟨hpos, hany, hmem⟩⟩
    · exact hnext h

theorem findInterpForKey_concat :
    findInterpForKey interps modmap level (syms ++ [sym]) =
      findInterpForKey interps modmap level syms ++
        [findInterp modmap level sym (findInterpForKey interps modmap level syms) 0 interps] := by
  simp [findInterpForKey]

/-- Any but the first interpretation of any keysym is applied once. -/
theorem count_le_one_of_pos (hinterp : interps[i]? = some interp) (hany : interp.sym = 0)
    (hpos : 0 < i) : (findInterpForKey interps modmap level syms).count (some i) ≤ 1 := by
  induction syms using reverseRecOn with
  | nil => simp [findInterpForKey]
  | append_singleton syms sym ih =>
    rw [findInterpForKey_concat, count_append, count_singleton]
    split_ifs with htaken
    · -- it is taken now, so it was not taken before
      obtain ⟨-, interp', hget, -, hnew⟩ := findInterp_eq_some (beq_iff_eq.mp htaken)
      obtain rfl := Option.some.inj (hinterp.symm.trans hget)
      rw [count_eq_zero.mpr (hnew hpos hany)]
    · exact ih

/-- **The first interpretation is taken for every keysym**, if it is one of any keysym and its
modifiers match. -/
theorem findInterpForKey_of_first (hinterp : interps.head? = some interp) (hany : interp.sym = 0)
    (hmods : interp.matchesMods modmap level = true) :
    findInterpForKey interps modmap level syms = List.replicate syms.length (some 0) := by
  induction syms using reverseRecOn with
  | nil => rfl
  | append_singleton syms sym ih =>
    obtain ⟨rest, rfl⟩ : ∃ rest, interps = interp :: rest :=
      ⟨interps.tail, (cons_head?_tail hinterp).symm⟩
    rw [findInterpForKey_concat, ih, findInterp, if_neg (fun h => h.2 hany), if_pos hmods,
      if_neg (fun h => absurd h.1 (lt_irrefl 0)), length_append, length_singleton, replicate_succ']

theorem matchesMods_of_mem (h : some i ∈ findInterpForKey interps modmap level syms) :
    ∃ interp, interps[i]? = some interp ∧ interp.matchesMods modmap level = true := by
  induction syms using reverseRecOn with
  | nil => simp [findInterpForKey] at h
  | append_singleton syms sym ih =>
    rw [findInterpForKey_concat, mem_append, mem_singleton] at h
    obtain h | h := h
    · exact ih h
    · obtain ⟨-, interp, hget, hmods, -⟩ := findInterp_eq_some h.symm
      exact ⟨interp, hget, hmods⟩

/-- The first interpretation of the keymap is one of any keysym that matches and has actions, and
the level has several keysyms. -/
def RepeatsFirst (interps : List SymInterpInfo) (modmap : BitVec 32) (level : ℕ)
    (syms : List Keysym) : Prop :=
  2 ≤ syms.length ∧
    ∃ interp, interps.head? = some interp ∧ interp.sym = 0 ∧
      interp.matchesMods modmap level = true ∧ interp.actions.read ≠ []

/-- Every interpretation of any keysym that has actions is applied at most once. -/
def AppliedOnce (interps : List SymInterpInfo) (applied : List (Option ℕ)) : Prop :=
  ∀ i interp, interps[i]? = some interp → interp.sym = 0 → interp.actions.read ≠ [] →
    applied.count (some i) ≤ 1

theorem appliedOnce_iff :
    AppliedOnce interps (findInterpForKey interps modmap level syms) ↔
      ¬RepeatsFirst interps modmap level syms := by
  constructor
  · rintro h ⟨hlen, interp, hhead, hany, hmods, hactions⟩
    have hcount := h 0 interp (by rwa [← head?_eq_getElem?]) hany hactions
    rw [findInterpForKey_of_first hhead hany hmods, count_replicate_self] at hcount
    omega
  · intro h i interp hinterp hany hactions
    rcases Nat.eq_zero_or_pos i with rfl | hpos
    · have hhead : interps.head? = some interp := by rwa [head?_eq_getElem?]
      by_cases hmods : interp.matchesMods modmap level = true
      · -- it is taken for every keysym, of which there is one at most
        rw [findInterpForKey_of_first hhead hany hmods, count_replicate_self]
        by_contra hlen
        exact h ⟨by omega, interp, hhead, hany, hmods, hactions⟩
      · have hnot : some 0 ∉ findInterpForKey interps modmap level syms := by
          intro hmem
          obtain ⟨interp', hinterp', hmods'⟩ := matchesMods_of_mem hmem
          obtain rfl := Option.some.inj (hinterp.symm.trans hinterp')
          exact hmods hmods'
        rw [count_eq_zero.mpr hnot]
        exact Nat.zero_le 1
    · exact count_le_one_of_pos hinterp hany hpos

end Once

/-! ### The actions of a level -/

section Levels

variable {builtinExpect : Bool} {key : InterpKey} {group : InterpGroup} {level : InterpLevel}
  {g l : ℕ}

/-- The actions of the interpretation with an index. -/
def interpActionsAt (interps : List SymInterpInfo) (i : Option ℕ) : List XkbAction :=
  ((i.bind (interps[·]?)).getD defaultInterpret).actions.read

theorem interpretActions_levelInterprets (modmap : BitVec 32) (syms : List Keysym) :
    interpretActions (levelInterprets interps modmap l syms) =
      (findInterpForKey interps modmap l syms).flatMap (interpActionsAt interps) := by
  rw [interpretActions, levelInterprets, flatMap_map]
  rfl

theorem storeInterpretActions_nil : storeInterpretActions builtinExpect [] = {} := by
  cases builtinExpect <;> rfl

/-- **What is stored in a level of a compiled key**, if its group has no explicit actions. -/
theorem level_applyInterpsToKey (hgroup : key.groups[g]? = some group)
    (hexplicit : group.explicitActions = false) (hlevel : group.levels[l]? = some level)
    (hstore : level.store = {}) :
    ((applyInterpsToKey builtinExpect interps key).groups[g]?).bind (·.levels[l]?) =
      some { level with
        store := storeInterpretActions builtinExpect
          (interpretActions (levelInterprets interps key.modmap l level.syms)) } := by
  have hgroup' : (applyInterpsToKey builtinExpect interps key).groups[g]? =
      some (applyInterpsToGroup builtinExpect interps key.modmap group) := by
    rw [applyInterpsToKey, getElem?_map, hgroup]
    rfl
  rw [hgroup', bind_some, applyInterpsToGroup, hexplicit, if_neg Bool.false_ne_true,
    getElem?_mapIdx, hlevel, map_some, applyInterpsToLevel]
  congr 1
  split_ifs with hsyms
  · -- a level without keysyms has no interpretations
    obtain ⟨syms, store⟩ := level
    obtain rfl : syms = [] := hsyms
    obtain rfl : store = {} := hstore
    rw [show interpretActions (levelInterprets interps key.modmap l []) = [] from rfl,
      storeInterpretActions_nil]
  · rfl

/-- **The interpretations of any keysym are applied to a level at most once**, exactly if the first
interpretation of the keymap is not repeated: the actions of the level are those of the
interpretations that are found for its keysyms, and an interpretation of any keysym is among them
once. -/
theorem any_interps_once_iff (builtinExpect : Bool) (interps : List SymInterpInfo)
    (key : InterpKey) (g l : ℕ) (group : InterpGroup) (level : InterpLevel)
    (hgroup : key.groups[g]? = some group) (hexplicit : group.explicitActions = false)
    (hlevel : group.levels[l]? = some level) (hstore : level.store = {}) :
    ((applyInterpsToKey builtinExpect interps key).groups[g]?).bind (·.levels[l]?) =
        some { level with
          store := storeInterpretActions builtinExpect
            ((findInterpForKey interps key.modmap l level.syms).flatMap
              (interpActionsAt interps)) } ∧
      (AppliedOnce interps (findInterpForKey interps key.modmap l level.syms) ↔
        ¬RepeatsFirst interps key.modmap l level.syms) := by
  refine ⟨?_, appliedOnce_iff⟩
  rw [level_applyInterpsToKey hgroup hexplicit hlevel hstore, interpretActions_levelInterprets]

/-- `interpret Any+AnyOfOrNone(all) { action = Terminate(); }`. -/
def anyInterp : SymInterpInfo :=
  { match_ := .anyOrNone, mods := modRealMaskAll, actions := ⟨1, { type := .terminate }, []⟩ }

/-- A key without modifiers, with two keysyms on its only level. -/
def twoSymsKey : InterpKey := { groups := [{ levels := [{ syms := [0x61, 0x62] }] }] }

/-- With an interpretation of a single keysym before it, it is applied once. -/
theorem any_interps_once_second :
    AppliedOnce [{ anyInterp with sym := 0x7a }, anyInterp]
      (findInterpForKey [{ anyInterp with sym := 0x7a }, anyInterp] 0#32 0 [0x61, 0x62]) := by
  refine (any_interps_once_iff true [{ anyInterp with sym := 0x7a }, anyInterp] twoSymsKey 0 0 _ _
    rfl rfl rfl rfl).2.mpr ?_
  rintro ⟨-, interp, hhead, hany, -⟩
  obtain rfl := Option.some.inj hhead
  cases hany

/-- As the only interpretation, it is applied for both keysyms. -/
theorem anyInterp_applied_twice :
    findInterpForKey (copyCompatInterps [anyInterp]) 0#32 0 [0x61, 0x62] = [some 0, some 0] ∧
      (applyInterpsToKey true (copyCompatInterps [anyInterp]) twoSymsKey).groups.map
          (fun group => group.levels.map (·.store.read)) =
        [[[{ type := .terminate }, { type := .terminate }]]] := by
  decide

theorem numActions_storeInterpretActions :
    (storeInterpretActions builtinExpect actions).numActions =
      if maxPerLevel < unlikely builtinExpect actions.length then maxPerLevel
      else actions.length % 0x10000 := by
  rcases actions with - | ⟨action, - | ⟨action', actions⟩⟩ <;> rfl

/-- What is read from the level: all actions, or as many as were counted. -/
theorem read_storeInterpretActions
    (h : (storeInterpretActions builtinExpect actions).numActions =
      min actions.length maxPerLevel) :
    (storeInterpretActions builtinExpect actions).read = actions.take maxPerLevel := by
  rcases actions with - | ⟨action, - | ⟨action', actions⟩⟩
  · rw [storeInterpretActions_nil]
    rfl
  · rw [ActionStore.read, h]
    rfl
  · have hmax : maxPerLevel = 0xffff := rfl
    rw [ActionStore.read, h, if_neg (by simp only [length_cons]; omega)]
    rw [numActions_storeInterpretActions] at h
    simp only [storeInterpretActions, h, take_take, min_self]
    rw [← take_take]
    exact take_of_length_le (length_take_le' _ _)

theorem unlikely_true_le (x : ℕ) : unlikely true x ≤ 1 := by
  rw [unlikely, if_pos rfl]
  split_ifs <;> omega

/-- The count is right, exactly if the comparison sees the size or the size fits. -/
theorem numActions_eq_iff :
    (storeInterpretActions builtinExpect actions).numActions = min actions.length maxPerLevel ↔
      builtinExpect = false ∨ actions.length ≤ maxPerLevel ∨
        actions.length % 0x10000 = maxPerLevel := by
  have hmax : maxPerLevel = 0xffff := rfl
  rw [numActions_storeInterpretActions]
  cases builtinExpect with
  | false =>
    rw [show unlikely false actions.length = actions.length from rfl]
    simp only [true_or, iff_true]
    split_ifs <;> omega
  | true =>
    have hle := unlikely_true_le actions.length
    rw [if_neg (by omega)]
    simp only [Bool.true_eq_false, false_or]
    omega

/-- **The actions of a level are counted**: there are as many as the interpretations have together,
or the maximum, and they are the first ones, in the order of the keysyms. This is so exactly if
there are not more than the maximum – or the count has only ones, or `unlikely` is the identity. -/
theorem interp_actions_counted_iff (builtinExpect : Bool) (interps : List SymInterpInfo)
    (key : InterpKey) (g l : ℕ) (group : InterpGroup) (level : InterpLevel)
    (hgroup : key.groups[g]? = some group) (hexplicit : group.explicitActions = false)
    (hlevel : group.levels[l]? = some level) (hstore : level.store = {}) :
    ∃ level', ((applyInterpsToKey builtinExpect interps key).groups[g]?).bind (·.levels[l]?) =
        some level' ∧
      (level'.store.numActions = min (interpretActions
            (levelInterprets interps key.modmap l level.syms)).length maxPerLevel ∧
          level'.store.read = (interpretActions
            (levelInterprets interps key.modmap l level.syms)).take maxPerLevel ↔
        builtinExpect = false ∨
          (interpretActions (levelInterprets interps key.modmap l level.syms)).length ≤
            maxPerLevel ∨
          (interpretActions (levelInterprets interps key.modmap l level.syms)).length % 0x10000 =
            maxPerLevel) := by
  refine ⟨_, level_applyInterpsToKey hgroup hexplicit hlevel hstore, ?_⟩
  rw [← numActions_eq_iff]
  exact ⟨And.left, fun h => ⟨h, read_storeInterpretActions h⟩⟩

/-- An interpretation of a keysym with many actions. -/
def manyActionsInterp (sym : Keysym) (count : ℕ) : SymInterpInfo :=
  { sym, match_ := .anyOrNone, mods := modRealMaskAll
    actions := ⟨count, {}, List.replicate count { type := .modSet }⟩ }

/-- Two interpretations with two actions each. -/
theorem interp_actions_counted_four :
    ∃ level', ((applyInterpsToKey true
        [manyActionsInterp 0x61 2, manyActionsInterp 0x62 2] twoSymsKey).groups[0]?).bind
          (·.levels[0]?) = some level' ∧ level'.store.numActions = 4 := by
  obtain ⟨level', hlevel', hiff⟩ := interp_actions_counted_iff true
    [manyActionsInterp 0x61 2, manyActionsInterp 0x62 2] twoSymsKey 0 0 _ _ rfl rfl rfl rfl
  refine ⟨level', hlevel', (hiff.mpr (.inr (.inl ?_))).1⟩
  decide

theorem length_manyActions {count : ℕ} (h : 2 ≤ count) :
    (interpretActions (levelInterprets [manyActionsInterp 0x61 count, manyActionsInterp 0x62 count]
      0#32 0 [0x61, 0x62])).length = 2 * count := by
  have hread (sym : Keysym) :
      (manyActionsInterp sym count).actions.read = List.replicate count { type := .modSet } := by
    rw [ActionStore.read, if_neg (by simp only [manyActionsInterp]; omega)]
    exact take_of_length_le (length_replicate).le
  have hfound : levelInterprets [manyActionsInterp 0x61 count, manyActionsInterp 0x62 count] 0#32
      0 [0x61, 0x62] = [manyActionsInterp 0x61 count, manyActionsInterp 0x62 count] := rfl
  rw [hfound, interpretActions, flatMap_cons, flatMap_cons, flatMap_nil, hread,
    hread, append_nil, length_append, length_replicate]
  omega

/-- Two interpretations with 40000 actions each: 14464 actions are counted, and not 65535. -/
theorem interp_actions_count_wraps :
    (((applyInterpsToKey true
        [manyActionsInterp 0x61 40000, manyActionsInterp 0x62 40000] twoSymsKey).groups[0]?).bind
          (·.levels[0]?)).map (·.store.numActions) = some 14464 := by
  have hlength := length_manyActions (show 2 ≤ 40000 by omega)
  have hle := unlikely_true_le (2 * 40000)
  rw [level_applyInterpsToKey rfl rfl rfl rfl, map_some, numActions_storeInterpretActions]
  simp only [twoSymsKey, hlength]
  rw [if_neg (not_lt.mpr (hle.trans (by decide)))]

end Levels

/-! ### One action of each category is left -/

section Categories

variable {action action' : XkbAction}

/-- The categories of which a level has one action. -/
inductive ActionCategory
  | mods | group | redirect
  deriving DecidableEq, Repr

/-- The category of an action. -/
def actionCategory (action : XkbAction) : Option ActionCategory :=
  if isModAction action then some .mods
  else if isGroupAction action then some .group
  else if action.type == .redirectKey then some .redirect
  else none

theorem sameCategory_iff :
    sameCategory action action' = true ↔
      actionCategory action ≠ none ∧ actionCategory action = actionCategory action' := by
  unfold sameCategory actionCategory isModAction isGroupAction
  generalize action.type = type, action'.type = type'
  grind

theorem disableAction_of_same (h : sameCategory action action' = true) :
    disableAction action action' = { action' with type := .none } := if_pos h

theorem disableAction_of_not_same (h : ¬sameCategory action action' = true) :
    disableAction action action' = action' := if_neg h

theorem checkActionsInPlace_nil : checkActionsInPlace [] = [] := by rw [checkActionsInPlace]

theorem checkActionsInPlace_cons :
    checkActionsInPlace (action :: actions) =
      action :: checkActionsInPlace (actions.map (disableAction action)) := by
  rw [checkActionsInPlace]

theorem checkActionsInPlace_induction {motive : List XkbAction → Prop} (nil : motive [])
    (cons : ∀ first actions, motive (actions.map (disableAction first)) →
      motive (first :: actions)) (actions : List XkbAction) : motive actions := by
  induction hlen : actions.length generalizing actions with
  | zero => rwa [length_eq_zero_iff.mp hlen]
  | succ n ih =>
    obtain ⟨first, actions, rfl⟩ := exists_cons_of_length_eq_add_one hlen
    refine cons first actions (ih _ ?_)
    rw [length_map]
    exact Nat.succ.inj hlen

/-- **The two loops at once**: an action is compared with those before it that are left. -/
theorem checkActionsInPlace_concat :
    checkActionsInPlace (actions ++ [action]) = checkActionsInPlace actions ++
      [if (checkActionsInPlace actions).any (sameCategory · action) then
        { action with type := .none } else action] := by
  induction actions using checkActionsInPlace_induction generalizing action with
  | nil => simp [checkActionsInPlace_cons, checkActionsInPlace_nil]
  | cons first actions ih =>
    rw [cons_append, checkActionsInPlace_cons, map_append, map_singleton, ih,
      checkActionsInPlace_cons, cons_append, any_cons]
    by_cases h : sameCategory first action = true
    · rw [disableAction_of_same h, h, Bool.true_or, if_pos rfl, ite_self]
    · rw [disableAction_of_not_same h, eq_false_of_ne_true h, Bool.false_or]

/-- The loops give the actions of `Xkbcommon.checkMultipleActionsCategories`. -/
theorem checkActionsInPlace_eq :
    checkActionsInPlace actions = checkMultipleActionsCategories actions := by
  induction actions using reverseRecOn with
  | nil => exact checkActionsInPlace_nil
  | append_singleton actions action ih =>
    rw [checkActionsInPlace_concat, ih, checkMultipleActionsCategories,
      checkMultipleActionsCategories, foldl_append]
    rfl

/-- An action that follows others on a level: it is disabled if one of them is of its category. -/
def disabledAfter (actions : List XkbAction) (action : XkbAction) : XkbAction :=
  if actionCategory action ≠ none ∧ actionCategory action ∈ actions.map actionCategory then
    { action with type := .none }
  else action

theorem disabledAfter_cons (first : XkbAction) :
    disabledAfter (first :: actions) action =
      disabledAfter (actions.map (disableAction first)) (disableAction first action) := by
  by_cases h : sameCategory first action = true
  · obtain ⟨hcategory, heq⟩ := sameCategory_iff.mp h
    rw [disableAction_of_same h, disabledAfter, disabledAfter,
      if_pos ⟨heq ▸ hcategory, by simp [heq]⟩, if_neg (fun h => h.1 rfl)]
  · rw [disableAction_of_not_same h, disabledAfter, disabledAfter]
    -- an action that the first one disables is not of the category of this one
    refine if_congr (and_congr_right fun hcategory => ?_) rfl rfl
    have hfirst : actionCategory first ≠ actionCategory action := by
      intro heq
      exact h (sameCategory_iff.mpr ⟨heq ▸ hcategory, heq⟩)
    simp only [map_cons, mem_cons, List.mem_map, List.map_map, Function.comp_apply]
    constructor
    · rintro (heq | ⟨action', hmem, heq⟩)
      · exact absurd heq.symm hfirst
      · refine ⟨action', hmem, ?_⟩
        rw [disableAction_of_not_same, heq]
        rw [sameCategory_iff, heq]
        exact fun h => hfirst h.2
    · rintro ⟨action', hmem, heq⟩
      by_cases hsame : sameCategory first action' = true
      · rw [disableAction_of_same hsame] at heq
        exact absurd heq.symm hcategory
      · rw [disableAction_of_not_same hsame] at heq
        exact .inr ⟨action', hmem, heq⟩

/-- **What is left of each action.** -/
theorem getElem?_checkActionsInPlace (i : ℕ) :
    (checkActionsInPlace actions)[i]? = actions[i]?.map (disabledAfter (actions.take i)) := by
  induction actions using checkActionsInPlace_induction generalizing i with
  | nil => simp [checkActionsInPlace_nil]
  | cons first actions ih =>
    rw [checkActionsInPlace_cons]
    rcases i with - | i
    · simp [disabledAfter]
    · rw [getElem?_cons_succ, getElem?_cons_succ, ih, getElem?_map, Option.map_map,
        take_succ_cons, ← map_take]
      congr 1
      funext action
      exact (disabledAfter_cons first).symm

theorem category_disabledAfter :
    actionCategory (disabledAfter actions action) = none ∨
      actionCategory (disabledAfter actions action) = actionCategory action ∧
        actionCategory action ∉ actions.map actionCategory := by
  rw [disabledAfter]
  split_ifs with h
  · exact .inl rfl
  · by_cases hcategory : actionCategory action = none
    · exact .inl hcategory
    · exact .inr ⟨rfl, fun hmem => h ⟨hcategory, hmem⟩⟩

/-- Of the actions that are left, an earlier and a later one are not of the same category. -/
theorem category_checkActionsInPlace_of_lt {i j : ℕ} {category : ActionCategory} (hlt : i < j)
    (hi : (checkActionsInPlace actions)[i]?.bind actionCategory = some category) :
    (checkActionsInPlace actions)[j]?.bind actionCategory ≠ some category := by
  intro hj
  rw [getElem?_checkActionsInPlace] at hi hj
  obtain ⟨left, hleft, hcategory⟩ := bind_eq_some_iff.mp hi
  obtain ⟨action, haction, rfl⟩ := map_eq_some_iff.mp hleft
  obtain ⟨left', hleft', hcategory'⟩ := bind_eq_some_iff.mp hj
  obtain ⟨action', haction', rfl⟩ := map_eq_some_iff.mp hleft'
  rcases category_disabledAfter with h | ⟨h, -⟩
  · exact some_ne_none _ (hcategory.symm.trans h)
  rcases category_disabledAfter with h' | ⟨h', hnot⟩
  · exact some_ne_none _ (hcategory'.symm.trans h')
  apply hnot
  rw [← h', hcategory', ← hcategory, h]
  refine List.mem_map_of_mem (mem_of_getElem? (i := i) ?_)
  rw [getElem?_take_of_lt hlt, haction]

/-- One action of each category is left, the first one, and the others stay as they are. -/
structure OneOfEachCategory (actions checked : List XkbAction) : Prop where
  /-- An action is disabled if one before it is of its category. Otherwise it is unchanged. -/
  first (i : ℕ) : checked[i]? = actions[i]?.map (disabledAfter (actions.take i))
  /-- There are no two of one category. -/
  one (category : ActionCategory) (i j : ℕ) :
    checked[i]?.bind actionCategory = some category →
      checked[j]?.bind actionCategory = some category → i = j

theorem oneOfEachCategory_checkActionsInPlace :
    OneOfEachCategory actions (checkActionsInPlace actions) := by
  refine ⟨getElem?_checkActionsInPlace, ?_⟩
  intro category i j hi hj
  rcases lt_trichotomy i j with hlt | heq | hlt
  · exact absurd hj (category_checkActionsInPlace_of_lt hlt hi)
  · exact heq
  · exact absurd hi (category_checkActionsInPlace_of_lt hlt hj)

theorem length_checkActionsInPlace : (checkActionsInPlace actions).length = actions.length := by
  induction actions using checkActionsInPlace_induction with
  | nil => rw [checkActionsInPlace_nil]
  | cons first actions ih =>
    rw [checkActionsInPlace_cons, length_cons, ih, length_map, length_cons]

/-- The loops concern what is read from a level. -/
theorem read_checkLevel (level : InterpLevel) :
    (checkLevel level).store.read = checkActionsInPlace level.store.read := by
  obtain ⟨syms, numActions, action, actions⟩ := level
  rw [checkLevel]
  split_ifs with hle
  · -- one action is not compared with any other
    simp only [ActionStore.read]
    obtain rfl | rfl : numActions = 0 ∨ numActions = 1 := by
      simp only at hle
      omega
    · simp [checkActionsInPlace_nil]
    · simp [checkActionsInPlace_cons, checkActionsInPlace_nil]
  · simp only [ActionStore.read, if_neg hle]
    rw [take_append, take_of_length_le (by
      rw [length_checkActionsInPlace]
      exact length_take_le _ _), append_right_eq_self, length_checkActionsInPlace,
      length_take, ← length_eq_zero_iff, length_take, length_drop]
    omega

/-- **Each level of a compiled key has one action of each category at most**: the first one of its
category among those that the level got from the symbols or from the interpretations. The actions of
no category, and the order of all of them, stay as they are. -/
theorem level_actions_one_of_each (builtinExpect : Bool) (interps : List SymInterpInfo)
    (key : InterpKey) (g l : ℕ) :
    Option.Rel (fun level level' => OneOfEachCategory level.store.read level'.store.read)
      (((applyInterpsToKey builtinExpect interps key).groups[g]?).bind (·.levels[l]?))
      (((checkKey (applyInterpsToKey builtinExpect interps key)).groups[g]?).bind
        (·.levels[l]?)) := by
  have hlevel : ((checkKey (applyInterpsToKey builtinExpect interps key)).groups[g]?).bind
        (·.levels[l]?) =
      (((applyInterpsToKey builtinExpect interps key).groups[g]?).bind (·.levels[l]?)).map
        checkLevel := by
    rw [checkKey, getElem?_map, bind_map, Option.map_bind]
    congr 1
    funext group
    exact getElem?_map
  rw [hlevel]
  rcases ((applyInterpsToKey builtinExpect interps key).groups[g]?).bind (·.levels[l]?)
    with - | level
  · exact .none
  · refine .some ?_
    rw [read_checkLevel]
    exact oneOfEachCategory_checkActionsInPlace

end Categories

end Xkbcommon.Xkbcomp
