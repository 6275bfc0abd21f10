import Xkbcommon.Lib.Trailing
import Xkbcommon.Xkbcomp.GroupIndex
import Xkbcommon.Xkbcomp.GroupMerge

/-!
# The levels of a group

The fields `symbols[n]` and `actions[n]` of a key fill the levels of the same group. Each of them
grows the array of levels as it needs, and drops the levels at its end that it leaves empty: the
keysyms before the levels are filled, the actions afterwards, since an action may turn out to be
`NoAction()` only when it is parsed.

The groups that are built in this way are *well formed*
(`Xkbcommon.Xkbcomp.GroupInfo.WellFormed`): no level is empty at the end, and a flag tells which
of the two fields there were. For such a group both fields are pointwise assignments
(`Xkbcommon.Xkbcomp.level_addSymbolsToGroup`, `Xkbcommon.Xkbcomp.level_addActionsToGroup`), with one
exception. If there are keysyms past the last entry of `actions[n]`, and this entry leaves its
level empty, the levels with these keysyms are dropped as well
(`Xkbcommon.Xkbcomp.DropsLevels`).
-/

namespace Xkbcommon.Xkbcomp

open Biased Trailing List Option GroupInfo LevelInfo

variable {pending pending' : List PendingComputation} {entries : List (List XkbAction)}
  {list : List (List ExprDef)} {levels : List LevelInfo} {level x y : LevelInfo}
  {acts : List ExprDef} {i : ℕ} {β α : Type} {value : ExprDef} {groupi : GroupInfo}
  {mods : XkbModSet} {info : KeymapInfo} {defaults : ActionsInfo}

/-! ### Storing the actions of a level -/

section Store

variable {numActions : ℕ} {toActs : List XkbAction}

/-- The actions of a list that do something. -/
def effectiveActions (toActs : List XkbAction) : List XkbAction :=
  toActs.filter fun act => act.type != .none

theorem foldl_storeAction (hne : numActions ≠ 1) (store : ActionStore) :
    toActs.foldl (storeAction numActions) store =
      { store with actions := store.actions ++ effectiveActions toActs } := by
  induction toActs generalizing store with
  | nil => simp [effectiveActions]
  | cons act toActs ih =>
    rw [foldl_cons, ih, storeAction]
    by_cases hact : act.type = .none
    · simp [effectiveActions, hact]
    · simp [effectiveActions, hact, hne]

/-- **A level stores the effective actions**, inline or in an array. -/
theorem read_storeLevelActions (hcount : toActs.length = numActions) :
    (storeLevelActions numActions toActs).read = effectiveActions toActs := by
  by_cases hone : numActions = 1
  · obtain ⟨act, rfl⟩ := length_eq_one_iff.mp (hcount.trans hone)
    subst hone
    by_cases hact : act.type = .none <;>
      simp [storeLevelActions, storeAction, effectiveActions, hact, ActionStore.read]
  · rw [storeLevelActions, foldl_storeAction hone, nil_append]
    cases heff : effectiveActions toActs with
    | nil => rfl
    | cons act acts =>
      cases acts with
      | nil => rfl
      | cons act' acts => simp [ActionStore.read]

end Store

/-! ### Assigning to the levels -/

section Assign

variable {set : β → LevelInfo → LevelInfo} {values : List β}

/-- The levels with the values of a field, from the first level on. -/
def assignLevels (set : β → LevelInfo → LevelInfo) : List β → List LevelInfo → List LevelInfo
  | value :: values, level :: levels => set value level :: assignLevels set values levels
  | _, levels => levels

theorem length_assignLevels : (assignLevels set values levels).length = levels.length := by
  induction values generalizing levels with
  | nil => rfl
  | cons value values ih => cases levels <;> simp [assignLevels, ih]

/-- The assignment is pointwise, if a value that is missing changes nothing. -/
theorem getD_assignLevels {d : β} (hle : values.length ≤ levels.length)
    (hset : values.length ≤ i → set d (levels.getD i {}) = levels.getD i {}) :
    (assignLevels set values levels).getD i {} = set (values.getD i d) (levels.getD i {}) := by
  induction values generalizing levels i with
  | nil => exact (hset (Nat.zero_le i)).symm
  | cons value values ih =>
    cases levels with
    | nil => simp at hle
    | cons level levels =>
      cases i with
      | zero => rfl
      | succ i => exact ih (Nat.le_of_succ_le_succ hle) fun hi => hset (Nat.succ_le_succ hi)

theorem length_growLevels {n : ℕ} : (growLevels levels n).length = max levels.length n := by
  unfold growLevels darrayResize0
  split_ifs with h
  · simp
    omega
  · omega

theorem le_length_growLevels (levels : List LevelInfo) (n : ℕ) : n ≤ (growLevels levels n).length :=
  (le_max_right _ _).trans_eq length_growLevels.symm

theorem mem_darrayResize0 {α : Type} {zero x : α} {items : List α} {size : ℕ}
    (h : x ∈ darrayResize0 zero items size) : x ∈ items ∨ x = zero := by
  rw [darrayResize0, mem_append] at h
  exact h.imp mem_of_mem_take eq_of_mem_replicate

theorem canonical_growLevels {n : ℕ} (h : groupi.Canonical) :
    ∀ level ∈ growLevels groupi.levels n, level.Canonical := by
  intro level hmem
  unfold growLevels at hmem
  split_ifs at hmem
  · rcases mem_darrayResize0 hmem with hmem | rfl
    · exact h level hmem
    · exact LevelInfo.canonical_empty
  · exact h level hmem

theorem getD_growLevels {n : ℕ} : (growLevels levels n).getD i {} = levels.getD i {} := by
  unfold growLevels
  split_ifs with h
  · rw [darrayResize0_of_le (by omega), getD_eq_getElem?_getD, getD_eq_getElem?_getD,
      getElem?_append]
    split_ifs with hi
    · rfl
    · rw [getElem?_eq_none (not_lt.mp hi), getElem?_replicate]
      split_ifs <;> rfl
  · rfl

end Assign

/-! ### Filling the levels -/

section Fill

/-- A level with other keysyms. -/
def setSyms (syms : List Keysym) (level : LevelInfo) : LevelInfo := { level with syms }

/-- A level with other actions. -/
def setActions (actions : List XkbAction) (level : LevelInfo) : LevelInfo := { level with actions }

theorem fillSyms_accepted_iff {list : List (List Keysym)} (hle : list.length ≤ levels.length) :
    (fillSyms list levels).1 = .accepted ↔ ∀ syms ∈ list, syms.length ≤ maxPerLevel := by
  induction list generalizing levels with
  | nil => simp [fillSyms]
  | cons syms list ih =>
    cases levels with
    | nil => simp at hle
    | cons level levels =>
      rw [forall_mem_cons, ← ih (Nat.le_of_succ_le_succ hle), fillSyms]
      split_ifs with hmax
      · simp [not_le.mpr hmax]
      · simp [not_lt.mp hmax]

theorem fillSyms_eq {list : List (List Keysym)} (h : ∀ syms ∈ list, syms.length ≤ maxPerLevel) :
    fillSyms list levels = (.accepted, assignLevels setSyms list levels) := by
  induction list generalizing levels with
  | nil => rfl
  | cons syms list ih =>
    cases levels with
    | nil => rfl
    | cons level levels =>
      rw [forall_mem_cons] at h
      rw [fillSyms, if_neg (not_lt.mpr h.1), ih h.2]
      rfl

/-- The actions that are stored for each entry of a field `actions[n]`, or why it is not
accepted. -/
def parseEntries (info : KeymapInfo) (defaults : ActionsInfo) (mods : XkbModSet) :
    List (List ExprDef) → List PendingComputation →
      Except Status (List (List XkbAction)) × List PendingComputation
  | [], pending => (.ok [], pending)
  | acts :: list, pending =>
    if maxPerLevel < acts.length then (.error .rejected, pending)
    else
      match parseActions info defaults mods acts pending with
      | (.error err, pending) => (.error (.ofParserError err), pending)
      | (.ok toActs, pending) =>
        let (entries, pending) := parseEntries info defaults mods list pending
        (entries.map ((storeLevelActions acts.length toActs).read :: ·), pending)

theorem map_cons_eq_ok {ε σ : Type} {a : α} {l : List α} {b : σ} {x : Except ε (List α) × σ}
    (h : (x.1.map (a :: ·), x.2) = (.ok l, b)) : ∃ rest, l = a :: rest ∧ x = (.ok rest, b) := by
  rcases x with ⟨_ | rest, p⟩ <;> cases h
  exact ⟨rest, rfl, rfl⟩

theorem parseActions_cons_eq_ok {act : ExprDef} {toActs : List XkbAction}
    (h : parseActions info defaults mods (act :: acts) pending = (.ok toActs, pending')) :
    ∃ toAct rest pending'', toActs = toAct :: rest ∧
      parseActions info defaults mods acts pending'' = (.ok rest, pending') := by
  rw [parseActions] at h
  split at h
  · obtain ⟨rest, heq, hrest⟩ := map_cons_eq_ok h
    exact ⟨_, rest, _, heq, hrest⟩
  · obtain ⟨rest, heq, hrest⟩ := map_cons_eq_ok h
    exact ⟨_, rest, _, heq, hrest⟩
  · cases h

theorem length_parseActions {toActs : List XkbAction}
    (h : parseActions info defaults mods acts pending = (.ok toActs, pending')) :
    toActs.length = acts.length := by
  induction acts generalizing pending toActs with
  | nil =>
    cases h
    rfl
  | cons act acts ih =>
    obtain ⟨toAct, rest, pending'', rfl, hrest⟩ := parseActions_cons_eq_ok h
    rw [length_cons, length_cons, ih hrest]

theorem parseEntries_cons_eq_ok
    (h : parseEntries info defaults mods (acts :: list) pending = (.ok entries, pending')) :
    ¬maxPerLevel < acts.length ∧ ∃ toActs rest pending'',
      parseActions info defaults mods acts pending = (.ok toActs, pending'') ∧
      parseEntries info defaults mods list pending'' = (.ok rest, pending') ∧
      entries = effectiveActions toActs :: rest := by
  rw [parseEntries] at h
  split_ifs at h with hmax
  · cases h
  refine ⟨hmax, ?_⟩
  split at h
  · cases h
  · rename_i toActs p hacts
    obtain ⟨rest, heq, hrest⟩ := map_cons_eq_ok h
    rw [read_storeLevelActions (length_parseActions hacts)] at heq
    exact ⟨toActs, rest, p, hacts, hrest, heq⟩

/-- **The actions that are accepted are assigned to the levels.** -/
theorem fillActions_of_parse
    (h : parseEntries info defaults mods list pending = (.ok entries, pending')) :
    list.length ≤ levels.length → fillActions info defaults mods list levels pending =
      ⟨.accepted, assignLevels setActions entries levels, pending'⟩ := by
  intro hle
  induction list generalizing levels pending entries with
  | nil =>
    cases h
    rfl
  | cons acts list ih =>
    cases levels with
    | nil => simp at hle
    | cons level levels =>
      obtain ⟨hmax, toActs, rest, p, hacts, hrest, rfl⟩ := parseEntries_cons_eq_ok h
      rw [fillActions, if_neg hmax]
      simp only [hacts, ih hrest (Nat.le_of_succ_le_succ hle),
        read_storeLevelActions (length_parseActions hacts)]
      rfl

theorem length_parseEntries
    (h : parseEntries info defaults mods list pending = (.ok entries, pending')) :
    entries.length = list.length := by
  induction list generalizing pending entries with
  | nil =>
    cases h
    rfl
  | cons acts list ih =>
    obtain ⟨-, toActs, rest, p, -, hrest, rfl⟩ := parseEntries_cons_eq_ok h
    rw [length_cons, length_cons, ih hrest]

/-- The levels stay canonical, as `NoAction()` is not stored. -/
theorem canonical_fillActions (h : ∀ level ∈ levels, level.Canonical) :
    ∀ level ∈ (fillActions info defaults mods list levels pending).levels, level.Canonical := by
  induction list generalizing levels pending with
  | nil => exact h
  | cons acts list ih =>
    cases levels with
    | nil => exact h
    | cons level levels =>
      rw [fillActions]
      split
      · exact h
      split
      · exact h
      · rename_i toActs p hacts
        rw [forall_mem_cons] at h ⊢
        refine ⟨⟨h.1.syms_ne, fun act hact => ?_⟩, ih h.2⟩
        rw [read_storeLevelActions (length_parseActions hacts), effectiveActions, mem_filter] at hact
        exact bne_iff_ne.mp hact.2

/-- The levels stay canonical, as the parser drops `NoSymbol`. -/
theorem canonical_fillSyms {list : List (List Keysym)}
    (hlist : ∀ syms ∈ list, ∀ sym ∈ syms, sym ≠ 0) (h : ∀ level ∈ levels, level.Canonical) :
    ∀ level ∈ (fillSyms list levels).2, level.Canonical := by
  induction list generalizing levels with
  | nil => exact h
  | cons syms list ih =>
    cases levels with
    | nil => exact h
    | cons level levels =>
      rw [fillSyms]
      split
      · exact h
      · rw [forall_mem_cons] at h hlist
        exact forall_mem_cons.mpr ⟨⟨hlist.1, h.1.actions_ne⟩, ih hlist.2 h.2⟩

theorem parse_of_fillActions (hle : list.length ≤ levels.length)
    (h : (fillActions info defaults mods list levels pending).status = .accepted) :
    ∃ entries pending', parseEntries info defaults mods list pending = (.ok entries, pending') := by
  induction list generalizing levels pending with
  | nil => exact ⟨[], pending, rfl⟩
  | cons acts list ih =>
    cases levels with
    | nil => simp at hle
    | cons level levels =>
      rw [fillActions] at h
      split_ifs at h with hmax
      rcases hacts : parseActions info defaults mods acts pending with ⟨err | toActs, p⟩
      · rw [hacts] at h
        cases err <;> cases h
      · rw [hacts] at h
        obtain ⟨entries, pending', hrest⟩ := ih (Nat.le_of_succ_le_succ hle) h
        refine ⟨(storeLevelActions acts.length toActs).read :: entries, pending', ?_⟩
        rw [parseEntries, if_neg hmax]
        simp only [hacts, hrest]
        rfl

end Fill

/-! ### Well-formed groups -/

section WellFormed

/-- **The groups of the keys that are accepted.** -/
structure GroupInfo.WellFormed (groupi : GroupInfo) : Prop where
  /-- The last level is not empty. -/
  trimmed : Trimmed LevelInfo.isEmpty groupi.levels
  syms_eq_nil : groupi.definedSyms = false → ∀ i, (groupi.level i).syms = []
  actions_eq_nil : groupi.definedActs = false → ∀ i, (groupi.level i).actions = []
  type_isSome : groupi.definedType = true → groupi.type.isSome = true

theorem LevelInfo.isEmpty_iff : level.isEmpty = true ↔ level = {} :=
  ⟨eq_empty_of_isEmpty, fun h => h ▸ rfl⟩

/-- A group without either field has no levels. -/
theorem GroupInfo.WellFormed.levels_eq_nil (h : groupi.WellFormed)
    (hsyms : groupi.definedSyms = false) (hacts : groupi.definedActs = false) :
    groupi.levels = [] := by
  refine Trimmed.ext (d := {}) rfl h.trimmed trimmed_nil fun i => ?_
  have hlevel : groupi.level i = {} := by
    have hs := h.syms_eq_nil hsyms i
    have ha := h.actions_eq_nil hacts i
    cases hi : groupi.level i
    rw [hi] at hs ha
    simp_all
  exact hlevel

theorem GroupInfo.level_of_length_le (h : groupi.levels.length ≤ i) : groupi.level i = {} := by
  rw [level, getD_eq_getElem?_getD, getElem?_eq_none h, getD_none]

/-- An index with a level that is not empty. -/
theorem GroupInfo.lt_length_of_level (h : groupi.level i ≠ {}) : i < groupi.levels.length := by
  by_contra hle
  exact h (level_of_length_le (not_lt.mp hle))

theorem GroupInfo.WellFormed.last_ne (h : groupi.WellFormed) (hne : groupi.levels ≠ []) :
    groupi.level (groupi.levels.length - 1) ≠ {} := by
  have hlast := (trimmed_iff_getD {}).mp h.trimmed hne
  intro hempty
  rw [level] at hempty
  rw [hempty] at hlast
  cases hlast

end WellFormed

/-! ### The two fields -/

section Fields

/-- The keysyms of a value of `symbols[n]`. -/
def symEntries : ExprDef → List (List Keysym)
  | .keysymList list => list
  | _ => []

/-- The entries of a value of `actions[n]`. -/
def actEntries : ExprDef → List (List ExprDef)
  | .actionList list => list
  | _ => []

theorem setSyms_nil (h : level.syms = []) : setSyms [] level = level := by
  rw [setSyms, ← h]

theorem setActions_nil (h : level.actions = []) : setActions [] level = level := by
  rw [setActions, ← h]

theorem isEmpty_setSyms {syms : List Keysym} (hnil : level.syms = []) (h : syms ≠ [] ∨ level ≠ {}) :
    (setSyms syms level).isEmpty = false := by
  obtain ⟨_, actions⟩ := level
  obtain rfl := hnil
  simp only [setSyms, LevelInfo.isEmpty, Bool.and_eq_false_iff, isEmpty_eq_false_iff]
  refine h.imp id fun hne hactions => hne ?_
  rw [hactions]

theorem isEmpty_setActions {actions : List XkbAction} (hnil : level.actions = [])
    (h : actions ≠ [] ∨ level ≠ {}) : (setActions actions level).isEmpty = false := by
  obtain ⟨syms, _⟩ := level
  obtain rfl := hnil
  simp only [setActions, LevelInfo.isEmpty, Bool.and_eq_false_iff, isEmpty_eq_false_iff]
  refine (h.imp id fun hne hsyms => hne ?_).symm
  rw [hsyms]

/-- **The keysyms of a group are assigned level by level.** -/
theorem addSymbolsToGroup_eq (hwf : groupi.WellFormed)
    (hnil : ∀ i, (groupi.level i).syms = []) (h : (addSymbolsToGroup groupi value).1 = .accepted) :
    ∃ levels, (addSymbolsToGroup groupi value).2 = { groupi with levels, definedSyms := true } ∧
      Trimmed LevelInfo.isEmpty levels ∧
      ∀ i, levels.getD i {} = setSyms ((symEntries value).getD i []) (groupi.level i) := by
  unfold addSymbolsToGroup at h ⊢
  split at h
  · refine ⟨groupi.levels, rfl, hwf.trimmed, fun i => ?_⟩
    exact (setSyms_nil (hnil i)).symm
  · rename_i list
    cases hsyms : groupi.definedSyms with
    | true =>
      rw [if_pos hsyms] at h
      cases h
    | false =>
    rw [if_neg (by simp [hsyms])] at h ⊢
    generalize hlist : list.rdropWhile List.isEmpty = entries at h ⊢
    have hle := le_length_growLevels groupi.levels entries.length
    have heq : fillSyms entries (growLevels groupi.levels entries.length) = _ :=
      fillSyms_eq ((fillSyms_accepted_iff hle).mp h)
    have hlevel i : (assignLevels setSyms entries
        (growLevels groupi.levels entries.length)).getD i {} =
          setSyms (entries.getD i []) (groupi.level i) := by
      rw [getD_assignLevels (d := []) hle, getD_growLevels]
      · rfl
      · intro _
        rw [getD_growLevels]
        exact setSyms_nil (hnil i)
    refine ⟨assignLevels setSyms entries (growLevels groupi.levels entries.length), ?_, ?_, ?_⟩
    · simp only [heq]
    · rw [trimmed_iff_getD {}]
      intro hne
      rw [Ne, ← length_eq_zero_iff, length_assignLevels, length_growLevels] at hne
      rw [hlevel, length_assignLevels, length_growLevels]
      refine isEmpty_setSyms (hnil _) ?_
      rcases lt_or_ge groupi.levels.length entries.length with hlt | hge
      · have htrimmed : Trimmed List.isEmpty entries := hlist ▸ trimmed_rdropWhile
        have hlast := (trimmed_iff_getD []).mp htrimmed (ne_nil_of_length_pos (by omega))
        rw [max_eq_right (by omega)]
        exact .inl (isEmpty_eq_false_iff.mp hlast)
      · rw [max_eq_left hge]
        refine .inr (hwf.last_ne ?_)
        rw [Ne, ← length_eq_zero_iff]
        omega
    · intro i
      rw [hlevel, ← hlist, getD_rdropWhile (by simp)]
      rfl
  · cases h

/-- **Levels with keysyms are dropped by the actions**: there are levels past the last entry, and
this entry leaves its level empty. -/
def DropsLevels (groupi : GroupInfo) (entries : List (List XkbAction)) : Prop :=
  entries ≠ [] ∧ entries.length < groupi.levels.length ∧
    setActions (entries.getD (entries.length - 1) []) (groupi.level (entries.length - 1)) = {}

/-- The levels that `AddActionsToKey` trims. -/
def filledLevels (groupi : GroupInfo) (entries : List (List XkbAction)) : List LevelInfo :=
  assignLevels setActions entries (growLevels groupi.levels entries.length)

theorem length_filledLevels (groupi : GroupInfo) (entries : List (List XkbAction)) :
    (filledLevels groupi entries).length = max groupi.levels.length entries.length := by
  rw [filledLevels, length_assignLevels, length_growLevels]

theorem getD_filledLevels (hnil : entries.length ≤ i → (groupi.level i).actions = []) :
    (filledLevels groupi entries).getD i {} = setActions (entries.getD i []) (groupi.level i) := by
  rw [filledLevels, getD_assignLevels (d := []) (le_length_growLevels ..), getD_growLevels]
  · rfl
  · intro hi
    rw [getD_growLevels]
    exact setActions_nil (hnil hi)

section Trim

variable {n : ℕ}

theorem trimLevels_of_trimmed (hn : n ≤ levels.length)
    (h : Trimmed LevelInfo.isEmpty (levels.take n)) : trimLevels levels n = levels := by
  have hlength : (levels.take n).length = n := length_take_of_le hn
  rw [trimLevels, if_neg]
  intro hlt
  exact length_rdropWhile_lt_iff.mp (hlt.trans_eq hlength.symm) h

/-- The levels past the entries of the field are dropped with its last entry. -/
theorem trimLevels_of_not_trimmed (hn : n ≤ levels.length)
    (h : ¬Trimmed LevelInfo.isEmpty (levels.take n)) :
    trimLevels levels n = (levels.take n).rdropWhile LevelInfo.isEmpty := by
  have hlength : (levels.take n).length = n := length_take_of_le hn
  have hlt := length_rdropWhile_lt_iff.mpr h
  rw [hlength] at hlt
  have htake := take_length_rdropWhile LevelInfo.isEmpty (levels.take n)
  rw [take_take, min_eq_left (le_of_lt hlt)] at htake
  rw [trimLevels, if_pos hlt, htake]

/-- A level is kept or dropped. -/
theorem mem_of_mem_trimLevels {level : LevelInfo} (h : level ∈ trimLevels levels n) :
    level ∈ levels := by
  rw [trimLevels] at h
  split at h
  · exact mem_of_mem_take h
  · exact h

theorem getD_trimLevels_or :
    (trimLevels levels n).getD i {} = levels.getD i {} ∨ (trimLevels levels n).getD i {} = {} := by
  unfold trimLevels
  dsimp only
  split_ifs with h
  · rw [getD_eq_getElem?_getD, getD_eq_getElem?_getD, getElem?_take]
    split_ifs
    · exact .inl rfl
    · exact .inr rfl
  · exact .inl rfl

end Trim

section Filled

theorem trimmed_take_filledLevels_iff (hnil : ∀ i, (groupi.level i).actions = []) :
    Trimmed LevelInfo.isEmpty ((filledLevels groupi entries).take entries.length) ↔
      (entries ≠ [] → setActions (entries.getD (entries.length - 1) [])
        (groupi.level (entries.length - 1)) ≠ {}) := by
  have hlength : ((filledLevels groupi entries).take entries.length).length = entries.length := by
    rw [length_take_of_le (by rw [length_filledLevels]; exact le_max_right _ _)]
  rw [trimmed_iff_getD {}, hlength, ← length_pos_iff, ← length_pos_iff, hlength]
  refine forall_congr' fun hpos => ?_
  rw [getD_eq_getElem?_getD, getElem?_take_of_lt (by omega), ← getD_eq_getElem?_getD,
    getD_filledLevels fun _ => hnil _, Bool.eq_false_iff, Ne, LevelInfo.isEmpty_iff]

theorem trimmed_trimLevels (hwf : groupi.WellFormed) (hnil : ∀ i, (groupi.level i).actions = []) :
    Trimmed LevelInfo.isEmpty (trimLevels (filledLevels groupi entries) entries.length) := by
  have hn : entries.length ≤ (filledLevels groupi entries).length := by
    rw [length_filledLevels]
    exact le_max_right _ _
  by_cases htake : Trimmed LevelInfo.isEmpty ((filledLevels groupi entries).take entries.length)
  · rw [trimLevels_of_trimmed hn htake]
    rcases lt_or_ge entries.length groupi.levels.length with hlt | hge
    · -- the last level is one of the group
      rw [trimmed_iff_getD {}]
      intro _
      rw [getD_filledLevels fun _ => hnil _, length_filledLevels, max_eq_left (le_of_lt hlt)]
      refine isEmpty_setActions (hnil _) (.inr (hwf.last_ne ?_))
      exact ne_nil_of_length_pos (by omega)
    · rwa [take_of_length_le (by rw [length_filledLevels]; omega)] at htake
  · rw [trimLevels_of_not_trimmed hn htake]
    exact trimmed_rdropWhile

/-- **The actions of a group are assigned level by level**, if no levels are dropped. -/
theorem getD_trimLevels (hnil : ∀ i, (groupi.level i).actions = [])
    (hdrops : ¬DropsLevels groupi entries) :
    (trimLevels (filledLevels groupi entries) entries.length).getD i {} =
      setActions (entries.getD i []) (groupi.level i) := by
  have hlength := length_filledLevels groupi entries
  rw [← getD_filledLevels fun _ => hnil i]
  by_cases htake : Trimmed LevelInfo.isEmpty ((filledLevels groupi entries).take entries.length)
  · rw [trimLevels_of_trimmed (by omega) htake]
  · rw [trimLevels_of_not_trimmed (by omega) htake,
      getD_rdropWhile (fun _ => LevelInfo.eq_empty_of_isEmpty)]
    rw [trimmed_take_filledLevels_iff hnil, Classical.not_imp, not_not] at htake
    have hle : groupi.levels.length ≤ entries.length := by
      by_contra hlt
      exact hdrops ⟨htake.1, not_le.mp hlt, htake.2⟩
    rw [take_of_length_le (by omega)]

theorem getD_trimLevels_of_drops (hnil : ∀ i, (groupi.level i).actions = [])
    (hdrops : DropsLevels groupi entries) (hi : entries.length ≤ i) :
    (trimLevels (filledLevels groupi entries) entries.length).getD i {} = {} := by
  obtain ⟨hne, hlt, hempty⟩ := hdrops
  have hlength := length_filledLevels groupi entries
  have htake : ¬Trimmed LevelInfo.isEmpty ((filledLevels groupi entries).take entries.length) := by
    rw [trimmed_take_filledLevels_iff hnil]
    exact fun h => h hne hempty
  rw [trimLevels_of_not_trimmed (by omega) htake,
    getD_rdropWhile (fun _ => LevelInfo.eq_empty_of_isEmpty), getD_eq_getElem?_getD,
    getElem?_eq_none (by rw [length_take]; omega), getD_none]

/-- The entries of the field are kept in any case. -/
theorem getD_trimLevels_of_lt (hi : i < entries.length) :
    (trimLevels (filledLevels groupi entries) entries.length).getD i {} =
      setActions (entries.getD i []) (groupi.level i) := by
  have hlength := length_filledLevels groupi entries
  rw [← getD_filledLevels fun hle => absurd hi (not_lt.mpr hle)]
  by_cases htake : Trimmed LevelInfo.isEmpty ((filledLevels groupi entries).take entries.length)
  · rw [trimLevels_of_trimmed (by omega) htake]
  · rw [trimLevels_of_not_trimmed (by omega) htake,
      getD_rdropWhile (fun _ => LevelInfo.eq_empty_of_isEmpty), getD_eq_getElem?_getD,
      getElem?_take_of_lt hi, ← getD_eq_getElem?_getD]

end Filled

/-- What `AddActionsToKey` makes of a group, if the entries are accepted. -/
theorem addActionsToGroup_eq
    (hvalue : value = .emptyList ∨ groupi.definedActs = false ∧ ∃ list, value = .actionList list)
    (h : parseEntries info defaults mods (actEntries value) pending = (.ok entries, pending')) :
    addActionsToGroup info defaults mods pending groupi value = ⟨.accepted,
        { groupi with
          levels := trimLevels (filledLevels groupi entries) entries.length
          definedActs := true }, pending'⟩ := by
  rcases hvalue with rfl | ⟨hacts, list, rfl⟩
  · cases h
    simp [addActionsToGroup, filledLevels, growLevels, trimLevels, assignLevels]
  · have hlength : entries.length = list.length := length_parseEntries h
    have hfill : fillActions info defaults mods list _ pending = _ :=
      fillActions_of_parse h (le_length_growLevels groupi.levels _)
    rw [addActionsToGroup, if_neg (by simp [hacts])]
    simp only [hfill, if_true, filledLevels, hlength]

/-- **The fields of a group keep its lists canonical.** -/
theorem canonical_addSymbolsToGroup (h : groupi.Canonical)
    (hvalue : ∀ list, value = .keysymList list → ∀ syms ∈ list, ∀ sym ∈ syms, sym ≠ 0) :
    (addSymbolsToGroup groupi value).2.Canonical := by
  unfold addSymbolsToGroup
  split
  · exact h
  · split_ifs
    · exact h
    · refine canonical_fillSyms (fun syms hsyms => hvalue _ rfl syms ?_) (canonical_growLevels h)
      exact (IsPrefix.subset <| rdropWhile_prefix _ _) hsyms
  · exact h

theorem canonical_addActionsToGroup (h : groupi.Canonical) :
    (addActionsToGroup info defaults mods pending groupi value).group.Canonical := by
  unfold addActionsToGroup
  split
  · exact h
  · split_ifs
    · exact h
    · intro level hmem
      dsimp only at hmem
      split at hmem
      · exact canonical_fillActions (canonical_growLevels h) level (mem_of_mem_trimLevels hmem)
      · exact canonical_fillActions (canonical_growLevels h) level hmem
  · exact h

theorem parse_of_addActionsToGroup
    (h : (addActionsToGroup info defaults mods pending groupi value).status = .accepted) :
    (value = .emptyList ∨ groupi.definedActs = false ∧ ∃ list, value = .actionList list) ∧
      ∃ entries pending', parseEntries info defaults mods (actEntries value) pending =
        (.ok entries, pending') := by
  unfold addActionsToGroup at h
  split at h
  · exact ⟨.inl rfl, [], pending, rfl⟩
  · rename_i list
    cases hacts : groupi.definedActs with
    | true =>
      rw [if_pos hacts] at h
      cases h
    | false =>
      rw [if_neg (by simp [hacts])] at h
      exact ⟨.inr ⟨rfl, list, rfl⟩, parse_of_fillActions (le_length_growLevels ..) h⟩
  · cases h

/-- A group with one of the fields only accepts an empty list for it. -/
theorem addSymbolsToGroup_of_defined (hflag : groupi.definedSyms = true)
    (h : (addSymbolsToGroup groupi value).1 = .accepted) : value = .emptyList := by
  unfold addSymbolsToGroup at h
  split at h
  · rfl
  · rw [if_pos hflag] at h
    cases h
  · cases h

theorem addActionsToGroup_of_defined (hflag : groupi.definedActs = true)
    (h : (addActionsToGroup info defaults mods pending groupi value).status = .accepted) :
    value = .emptyList := by
  rcases (parse_of_addActionsToGroup h).1 with rfl | ⟨hacts, -⟩
  · rfl
  · rw [hflag] at hacts
    cases hacts

/-- A group with one more field is well formed. -/
theorem wellFormed_addSymbolsToGroup (hwf : groupi.WellFormed)
    (h : (addSymbolsToGroup groupi value).1 = .accepted) :
    (addSymbolsToGroup groupi value).2.WellFormed := by
  cases hsyms : groupi.definedSyms with
  | true =>
    -- only an empty list is accepted, and it changes nothing
    obtain rfl := addSymbolsToGroup_of_defined hsyms h
    exact ⟨hwf.trimmed, nofun, hwf.actions_eq_nil, hwf.type_isSome⟩
  | false =>
    obtain ⟨levels, heq, htrimmed, hlevel⟩ := addSymbolsToGroup_eq hwf (hwf.syms_eq_nil hsyms) h
    rw [heq]
    refine ⟨htrimmed, nofun, fun hf i => ?_, hwf.type_isSome⟩
    rw [level, hlevel]
    exact hwf.actions_eq_nil hf i

theorem wellFormed_addActionsToGroup (hwf : groupi.WellFormed)
    (h : (addActionsToGroup info defaults mods pending groupi value).status = .accepted) :
    (addActionsToGroup info defaults mods pending groupi value).group.WellFormed := by
  cases hacts : groupi.definedActs with
  | true =>
    obtain rfl := addActionsToGroup_of_defined hacts h
    exact ⟨hwf.trimmed, hwf.syms_eq_nil, nofun, hwf.type_isSome⟩
  | false =>
    obtain ⟨hvalue, entries, pending', hparse⟩ := parse_of_addActionsToGroup h
    have hnil := hwf.actions_eq_nil hacts
    rw [addActionsToGroup_eq hvalue hparse]
    refine ⟨trimmed_trimLevels hwf hnil, fun hf i => ?_, nofun, hwf.type_isSome⟩
    rw [level]
    rcases getD_trimLevels_or with h | h
    · rw [h, getD_filledLevels fun _ => hnil i]
      exact hwf.syms_eq_nil hf i
    · rw [h]

end Fields

/-! ### Merging keeps groups well formed -/

section Merge

variable {clobber : Bool} {a b : GroupInfo}

theorem mergeList_ne_nil {same : List α → List α → Bool} {isDefined : α → Bool}
    {into incoming : List α} (h : into ≠ []) :
    (mergeList same isDefined clobber into incoming).1 ≠ [] := by
  unfold mergeList
  split_ifs with hsame
  · exact h
  · rintro rfl
    simp at hsame
  · exact h
  · exact h
  · rintro rfl
    simp at hsame

/-- A merged level is not empty unless both levels are. -/
theorem mergeLevel_ne_empty (h : x ≠ {} ∨ y ≠ {}) : (mergeLevel clobber x y).level ≠ {} := by
  by_cases hx : x = {}
  · subst hx
    rw [empty_mergeLevel]
    simpa using h
  by_cases hy : y = {}
  · subst hy
    simpa using h
  unfold mergeLevel
  rw [if_neg (mt eq_empty_of_isEmpty hy), if_neg (mt eq_empty_of_isEmpty hx)]
  intro hempty
  obtain ⟨hsyms, hactions⟩ := mk.inj hempty
  refine hx ?_
  obtain ⟨syms, actions⟩ := x
  congr 1
  · by_contra hne
    exact mergeList_ne_nil hne hsyms
  · by_contra hne
    exact mergeList_ne_nil hne hactions

theorem length_levels_mergeGroups :
    (mergeGroups clobber a b).levels.length = max a.levels.length b.levels.length := by
  rw [levels_mergeGroups, length_zipLong]

theorem trimmed_mergeGroups (ha : a.WellFormed) (hb : b.WellFormed) :
    Trimmed LevelInfo.isEmpty (mergeGroups clobber a b).levels := by
  rw [trimmed_iff_getD {}]
  intro hne
  have hpos := length_pos_iff.mpr hne
  rw [length_levels_mergeGroups] at hpos
  rw [length_levels_mergeGroups, ← level, level_mergeGroups, Bool.eq_false_iff, Ne,
    LevelInfo.isEmpty_iff]
  refine mergeLevel_ne_empty ?_
  rcases lt_or_ge a.levels.length b.levels.length with hlt | hge
  · rw [max_eq_right (le_of_lt hlt)]
    exact .inr (hb.last_ne (ne_nil_of_length_pos (by omega)))
  · rw [max_eq_left hge]
    exact .inl (ha.last_ne (ne_nil_of_length_pos (by omega)))

section Flags

variable {field : LevelInfo → List β} {flag : MergedLevel → Bool} {da db : Bool}

theorem mergeLevel_mem_zipWith (ha : i < a.levels.length) (hb : i < b.levels.length) :
    mergeLevel clobber (a.level i) (b.level i) ∈
      zipWith (mergeLevel clobber) a.levels b.levels := by
  refine mem_of_getElem? (i := i) ?_
  rw [getElem?_zipWith, getElem?_eq_getElem ha, getElem?_eq_getElem hb]
  simp [level, getD_eq_getElem?_getD, ha, hb]

/-- **The flag of a field of a merged group** is set if some level has the field. The levels from
the new group are counted. -/
theorem MergesField.eq_nil (hfield : MergesField clobber field flag)
    (ha : da = false → ∀ i, field (a.level i) = []) (hb : db = false → ∀ i, field (b.level i) = [])
    (h : mergeGroupDefined ((zipWith (mergeLevel clobber) a.levels b.levels).countP flag +
      (b.levels.length - a.levels.length)) (max a.levels.length b.levels.length) da db = false)
    (i : ℕ) : field ((mergeGroups clobber a b).level i) = [] := by
  have hle := countP_le_length (p := flag) (l := zipWith (mergeLevel clobber) a.levels b.levels)
  rw [length_zipWith] at hle
  rw [level_mergeGroups]
  unfold mergeGroupDefined at h
  split_ifs at h with hcount
  · -- no level is taken from the new group
    rw [Nat.add_eq_zero_iff, countP_eq_zero] at hcount
    rcases lt_or_ge i b.levels.length with hi | hi
    · rw [hfield.level, Bool.eq_false_iff.mpr (hcount.1 _ (mergeLevel_mem_zipWith (by omega) hi))]
      exact ha h i
    · rw [level_of_length_le hi, mergeLevel_empty]
      exact ha h i
  · rw [Bool.or_eq_false_iff, Bool.and_eq_false_iff, bne_eq_false_iff_eq] at h
    obtain ⟨hda | hsize, hdb⟩ := h
    · rw [hfield.level, ha hda i, hb hdb i, Bool.cond_self]
    · -- all levels are taken from the new group
      rcases lt_or_ge i a.levels.length with hi | hi
      · have hall : ∀ m ∈ zipWith (mergeLevel clobber) a.levels b.levels, flag m = true :=
          countP_eq_length.mp (by rw [length_zipWith]; omega)
        rw [hfield.level, hall _ (mergeLevel_mem_zipWith hi (by omega)), cond_true, hb hdb i]
      · rw [level_of_length_le hi, empty_mergeLevel, hb hdb i]

end Flags

/-- The flag of a field of a merged group, shortcuts included. -/
def mergedFlag (clobber : Bool) (flag : MergedLevel → Bool) (a b : GroupInfo) (da db : Bool) :
    Bool :=
  mergeGroupDefined ((List.zipWith (mergeLevel clobber) a.levels b.levels).countP flag +
    (b.levels.length - a.levels.length)) (max a.levels.length b.levels.length) da db

theorem mergedFlag_of_nil_right {flag : MergedLevel → Bool} {da db : Bool} (h : b.levels = []) :
    mergedFlag clobber flag a b da db = da := by
  simp [mergedFlag, mergeGroupDefined, h]

theorem mergedFlag_of_nil_left {flag : MergedLevel → Bool} {da db : Bool} (ha : a.levels = [])
    (hb : b.levels ≠ []) : mergedFlag clobber flag a b da db = db := by
  simp [mergedFlag, mergeGroupDefined, ha, hb]

theorem defined_mergeGroups (clobber : Bool) (a b : GroupInfo) :
    (mergeGroups clobber a b).definedSyms =
        mergedFlag clobber MergedLevel.fromKeysyms a b a.definedSyms b.definedSyms ∧
      (mergeGroups clobber a b).definedActs =
        mergedFlag clobber MergedLevel.fromActions a b a.definedActs b.definedActs := by
  unfold mergeGroups
  dsimp only
  split_ifs with hb ha
  · constructor <;> rw [mergedFlag_of_nil_right (List.isEmpty_iff.mp hb)]
  · constructor <;>
      rw [mergedFlag_of_nil_left (List.isEmpty_iff.mp ha) (mt List.isEmpty_iff.mpr hb)]
  · constructor <;> rw [mergedFlag, length_zipLong]

/-- The flag of the type is lost with the flags of a group without levels. -/
theorem definedType_mergeGroups :
    (mergeGroups clobber a b).definedType =
      (b.definedType || (a.definedType && (b.levels.isEmpty || !a.levels.isEmpty))) := by
  unfold mergeGroups
  dsimp only
  split_ifs with hb ha
  · simp [hb, Bool.or_comm]
  · simp [hb, ha]
  · simp [ha, Bool.or_comm]

/-- **Merging keeps groups well formed.** -/
theorem wellFormed_mergeGroups (ha : a.WellFormed) (hb : b.WellFormed) :
    (mergeGroups clobber a b).WellFormed := by
  refine ⟨trimmed_mergeGroups ha hb, fun h => ?_, fun h => ?_, fun h => ?_⟩
  · rw [(defined_mergeGroups clobber a b).1] at h
    exact mergesField_syms.eq_nil ha.syms_eq_nil hb.syms_eq_nil h
  · rw [(defined_mergeGroups clobber a b).2] at h
    exact mergesField_actions.eq_nil ha.actions_eq_nil hb.actions_eq_nil h
  · have htype : a.type.isSome = true ∨ b.type.isSome = true := by
      rw [definedType_mergeGroups, Bool.or_eq_true, Bool.and_eq_true] at h
      exact (h.imp hb.type_isSome fun h => ha.type_isSome h.1).symm
    rw [type_mergeGroups, mergeGroupType_eq]
    cases clobber <;> simp [isSome_or, htype, htype.symm]

end Merge

/-! ### Both fields of a key -/

variable (groups : List GroupInfo)

section Key

variable {syms : SymbolsInfo} {keyi : KeyInfo} {k : ℕ} {e : ExprDef}

theorem le_of_exprResolveGroup {group : ℕ}
    (h : exprResolveGroup info.maxGroups info.groupNames false false e = .ok group) :
    group ≤ info.maxGroups := by
  rw [exprResolveGroup_eq] at h
  obtain ⟨v, -, h⟩ := Outcome.bind_eq_ok h
  split_ifs at h with hrange
  cases h
  omega

/-- The group of an index that is accepted. -/
theorem explicitGroupIndex_eq
    (h : exprResolveGroup info.maxGroups info.groupNames false false e = .ok (k + 1))
    (groups : List GroupInfo) :
    explicitGroupIndex info groups e = .ok (k, growFor {} groups k) := by
  have hk : decrement (k + 1) = k := by
    have := le_of_exprResolveGroup h
    have := maxGroups_le info
    rw [decrement_of_pos (by omega) (by omega)]
    omega
  have heq : explicitGroupIndex info groups e =
      (exprResolveGroup info.maxGroups info.groupNames false false e).bind fun group =>
        .ok (decrement group, growFor {} groups (decrement group)) := rfl
  rw [heq, h, Except.bind, hk]

theorem lt_length_growFor (hk : k < 32) :
    k < (growFor {} groups k).length := (safeAccess_growFor hk (le_refl 32)).lt_length

theorem getElem?_growFor (hk : k < 32) : (growFor {} groups k)[k]? = some (groups.getD k {}) := by
  unfold growFor
  split_ifs with hgrow
  · rw [Nat.mod_eq_of_lt (by omega), darrayResize0_of_le (by omega), getElem?_append_right hgrow,
      getElem?_replicate_of_lt (by omega), getD_eq_getElem?_getD, getElem?_eq_none hgrow, getD_none]
  · rw [getD_eq_getElem?_getD, getElem?_eq_getElem (by omega), getD_some]

/-- An array that has the group is not grown again. -/
theorem growFor_set (hk : k < 32) :
    growFor {} ((growFor {} groups k).set k groupi) k = (growFor {} groups k).set k groupi := by
  rw [growFor, if_neg]
  rw [length_set]
  exact not_le.mpr (lt_length_growFor groups hk)

theorem getD_set_growFor (hk : k < 32) :
    ((growFor {} groups k).set k groupi).getD k {} = groupi := by
  rw [getD_eq_getElem?_getD, getElem?_set_self (lt_length_growFor groups hk), getD_some]

theorem lt_of_exprResolveGroup
    (h : exprResolveGroup info.maxGroups info.groupNames false false e = .ok (k + 1)) : k < 32 := by
  have := le_of_exprResolveGroup h
  have := maxGroups_le info
  omega

theorem addSymbolsToKey_eq
    (h : exprResolveGroup info.maxGroups info.groupNames false false e = .ok (k + 1)) :
    addSymbolsToKey info keyi (some e) value =
      ((addSymbolsToGroup (keyi.groups.getD k {}) value).1,
        { keyi with
          groups := (growFor {} keyi.groups k).set k
            (addSymbolsToGroup (keyi.groups.getD k {}) value).2 }) := by
  have hk := lt_of_exprResolveGroup h
  rw [addSymbolsToKey, getGroupIndex, explicitGroupIndex_eq h]
  simp only [getElem?_growFor _ hk]

theorem addActionsToKey_eq
    (h : exprResolveGroup info.maxGroups info.groupNames false false e = .ok (k + 1)) :
    addActionsToKey info syms keyi (some e) value =
      let st := addActionsToGroup info syms.defaultActions syms.mods syms.pending
        (keyi.groups.getD k {}) value
      ⟨st.status, { keyi with groups := (growFor {} keyi.groups k).set k st.group },
        st.pending⟩ := by
  have hk := lt_of_exprResolveGroup h
  rw [addActionsToKey, getGroupIndex, explicitGroupIndex_eq h]
  simp only [getElem?_growFor _ hk]

end Key

end Xkbcommon.Xkbcomp
