import Xkbcommon.Xkbcomp.Compat
import Xkbcommon.Xkbcomp.KeyTypes

/-!
# The sections that declare modifiers

The compatibility map (`src/xkbcomp/compat.c`) and the symbols (`src/xkbcomp/symbols.c`) as runs
over the statements of a file and of those it includes (`Xkbcommon.Xkbcomp.ModSection`). The key
types, the third such section, are in `Xkbcommon.Xkbcomp.KeyTypes`.

What an included file starts with is not the same in all of them. A compatibility map has the
defaults for interpretations and indicators of the file with the statement; symbols have no
defaults, but the group that the item of the statement names, and the first level of a keymap made
from rules has one even if it names none. All start with the modifiers of what is included so far.

Memory is not modelled: an array of actions that the default interpretation shares with the items
that start from it is a value here. The modifiers do not depend on it.
-/

namespace Xkbcommon.Xkbcomp

open Biased

variable {compat : CompatInfo} {merge : MergeMode}

/-! ### The compatibility map -/

/-- `InitCompatInfo`. -/
def initCompatInfo (info : KeymapInfo) (mods : XkbModSet) (pending : List PendingComputation) :
    CompatInfo :=
  { defaultActions := initActionsInfo info, mods, pending }

/-- The indicators in `MergeIncludedCompatMaps`, with the errors that are counted. -/
def mergeLeds (merge : MergeMode) (into source : List LedInfo) : List LedInfo × ℕ :=
  if into = [] then (source, 0)
  else
    source.foldl (fun merged ledi =>
      match addLedMap merged.1 { ledi with merge } with
      | (.accepted, leds) => (leds, merged.2)
      | (_, leds) => (leds, merged.2 + 1)) (into, 0)

/-- `MergeIncludedCompatMaps`, for a file without errors. The pending computations are those of the
keymap, and so those of the file that was read last. -/
def mergeIncludedCompatMaps (merge : MergeMode) (into source : CompatInfo) :
    StmtResult CompatInfo :=
  let (leds, errors) := mergeLeds merge into.leds source.leds
  ⟨.accepted,
    { into with
      mods := mergeModSets merge into.mods source.mods
      interps :=
        if into.interps = [] then source.interps
        else source.interps.foldl (fun interps si => addInterp interps { si with merge })
          into.interps
      leds
      pending := source.pending }, errors⟩

/-- The errors that `HandleInterpDef` counts itself: those after its condition. -/
def interpDefErrors (compat : CompatInfo) (condition : Option ExprDef) : Status → ℕ
  | .accepted => 0
  | _ =>
    match resolveStateAndPredicate compat.mods condition with
    | .ok _ => 1
    | .error _ => 0

/-- One statement in the loop of `HandleCompatMapFile`. -/
def handleCompatStmt (info : KeymapInfo) (pastEnd : XkbAction) (compat : CompatInfo) :
    Stmt → StmtResult CompatInfo
  | .interp merge sym condition body =>
    let (status, compat') := handleInterpDef info pastEnd compat merge sym condition body
    ⟨status, compat', interpDefErrors compat condition status⟩
  | .groupCompat _ _ _ => ⟨.accepted, compat, 0⟩
  | .ledMap merge name body =>
    let (status, compat) := handleLedMapDef info compat merge name body
    ⟨status, compat, 0⟩
  | .var decl =>
    let (status, compat) := handleCompatGlobalVar info pastEnd compat decl
    ⟨status, compat, 0⟩
  | .vmod decl =>
    let (status, mods) := handleVModDef compat.mods decl
    ⟨status, { compat with mods }, 0⟩
  | .unknownDeclaration _ | .unknownCompound _ =>
    ⟨.unlessStrict (info.strict .noUnknownStatements), compat, 0⟩
  | _ => ⟨.rejected, compat, 0⟩

section Frames

variable {info : KeymapInfo} {pastEnd : XkbAction}

theorem mods_handleCompatGlobalVar (stmt : VarDef) :
    (handleCompatGlobalVar info pastEnd compat stmt).2.mods = compat.mods := by
  unfold handleCompatGlobalVar
  dsimp only
  (repeat' split) <;> rfl

theorem mods_handleInterpDef (sym : Keysym) (condition : Option ExprDef) (body : List VarDef) :
    (handleInterpDef info pastEnd compat merge sym condition body).2.mods = compat.mods := by
  unfold handleInterpDef
  dsimp only
  (repeat' split) <;> rfl

theorem mods_handleLedMapDef (name : Atom) (body : List VarDef) :
    (handleLedMapDef info compat merge name body).2.mods = compat.mods := by
  unfold handleLedMapDef
  dsimp only
  split <;> rfl

end Frames

/-- **The section of the compatibility map.** An included file has the defaults of the file with the
statement. -/
def compatSection (info : KeymapInfo) (pastEnd : XkbAction) : ModSection CompatInfo where
  init compat := initCompatInfo info (initVMods compat.mods true) compat.pending
  next _ compat included :=
    { initCompatInfo info (initVMods included.mods true) included.pending with
      defaultInterp := compat.defaultInterp
      defaultLed := compat.defaultLed }
  handle := handleCompatStmt info pastEnd
  mergeIncluded := mergeIncludedCompatMaps
  mods := CompatInfo.mods
  mods_init _ := rfl
  mods_next _ _ _ := rfl
  mods_handle compat stmt := by
    unfold handleCompatStmt
    split
    · exact .inl (mods_handleInterpDef _ _ _)
    · exact .inl rfl
    · exact .inl (mods_handleLedMapDef _ _)
    · exact .inl (mods_handleCompatGlobalVar _)
    · exact .inr ⟨_, rfl⟩
    · exact .inl rfl
    · exact .inl rfl
    · exact .inl rfl
  mods_merge _ _ _ := rfl

/-! ### Symbols -/

section Symbols

variable (info : KeymapInfo)

/-- `InitSymbolsInfo`. -/
def initSymbolsInfo (includeDepth : ℕ) (mods : XkbModSet) (pending : List PendingComputation) :
    SymbolsInfo :=
  { includeDepth
    defaultActions := initActionsInfo info
    mods := initVMods mods (decide (0 < includeDepth))
    pending }

/-- The keys in `MergeIncludedSymbols`; `none` if the source aborts. -/
def mergeIncludedKeys (merge : MergeMode) (into source : List KeyInfo) : Option (List KeyInfo) :=
  if into = [] then some source
  else source.foldlM (fun keys keyi => addKeySymbols info keys { keyi with merge }) into

/-- The names of the groups in `MergeIncludedSymbols`. -/
def mergeGroupNames (merge : MergeMode) : List (Option Atom) → List (Option Atom) →
    List (Option Atom) :=
  zipLong fun old new => if new.isNone || (merge == .augment && old.isSome) then old else new

/-- `MergeIncludedSymbols`, for a file without errors. -/
def mergeIncludedSymbols (merge : MergeMode) (into source : SymbolsInfo) : StmtResult SymbolsInfo :=
  let into := { into with
    mods := mergeModSets merge into.mods source.mods
    groupNames := mergeGroupNames merge into.groupNames source.groupNames
    pending := source.pending }
  match mergeIncludedKeys info merge into.keys source.keys with
  | none => ⟨.undefined, into, 0⟩
  | some keys =>
    ⟨.accepted,
      { into with
        keys
        modmaps :=
          if into.modmaps = [] then source.modmaps
          else source.modmaps.foldl (fun modmaps mm => addModMapEntry modmaps { mm with merge })
            into.modmaps }, 0⟩

/-- The explicit group of an included file, in `HandleIncludeSymbols`. -/
def includedExplicitGroup (item : IncludeItem) (syms : SymbolsInfo) : Option ℕ :=
  match item.modifier with
  | some modifier =>
    match parseDec 0xffffffff modifier with
    | some (count, group) =>
      if count = 0 ∨ count ≠ modifier.length ∨ group = 0 ∨ info.maxGroups < group then
        syms.explicitGroup
      else some (group - 1)
    | none => syms.explicitGroup
  -- `pc` stands for `pc:1` in a keymap made from rules
  | none => if info.numGroups ≠ 0 ∧ syms.includeDepth = 0 then some 0 else syms.explicitGroup

/-- One statement in the loop of `HandleSymbolsFile`. -/
def handleSymbolsStmt (syms : SymbolsInfo) : Stmt → StmtResult SymbolsInfo
  | .symbols merge keyName body =>
    let (status, syms) := handleSymbolsDef info syms merge keyName body
    ⟨status, syms, if status = .rejected then 1 else 0⟩
  | .var decl =>
    let (status, syms) := handleGlobalVar info syms decl
    ⟨status, syms, 0⟩
  | .vmod decl =>
    let (status, mods) := handleVModDef syms.mods decl
    ⟨status, { syms with mods }, 0⟩
  | .modMap merge modifiers keys =>
    let (status, syms) := handleModMapDef info syms merge modifiers keys
    ⟨status, syms, 0⟩
  | .unknownDeclaration _ | .unknownCompound _ =>
    ⟨.unlessStrict (info.strict .noUnknownStatements), syms, 0⟩
  | _ => ⟨.rejected, syms, 0⟩

variable {info} {syms : SymbolsInfo}

theorem mods_handleGlobalVar (stmt : VarDef) :
    (handleGlobalVar info syms stmt).2.mods = syms.mods := by
  unfold handleGlobalVar
  dsimp only
  (repeat' split) <;> rfl

theorem mods_handleSymbolsDef (keyName : Atom) (body : List VarDef) :
    (handleSymbolsDef info syms merge keyName body).2.mods = syms.mods := by
  unfold handleSymbolsDef
  dsimp only
  (repeat' split) <;> rfl

theorem mods_handleModMapDef (modifiers : ExprDef) (keys : List ExprDef) :
    (handleModMapDef info syms merge modifiers keys).2.mods = syms.mods := by
  unfold handleModMapDef
  (repeat' split) <;> rfl

/-- **The section of symbols.** An included file has no defaults, and the group of its item. -/
def symbolsSection (info : KeymapInfo) : ModSection SymbolsInfo where
  init syms := initSymbolsInfo info (syms.includeDepth + 1) syms.mods syms.pending
  next item syms included :=
    { initSymbolsInfo info (syms.includeDepth + 1) included.mods included.pending with
      explicitGroup := includedExplicitGroup info item syms }
  handle := handleSymbolsStmt info
  mergeIncluded := mergeIncludedSymbols info
  mods := SymbolsInfo.mods
  mods_init _ := rfl
  mods_next _ _ _ := rfl
  mods_handle syms stmt := by
    unfold handleSymbolsStmt
    split
    · exact .inl (mods_handleSymbolsDef _ _)
    · exact .inl (mods_handleGlobalVar _)
    · exact .inr ⟨_, rfl⟩
    · exact .inl (mods_handleModMapDef _ _)
    · exact .inl rfl
    · exact .inl rfl
    · exact .inl rfl
  mods_merge mode into source := by
    unfold mergeIncludedSymbols
    dsimp only
    split <;> rfl

end Symbols

/-- **The sets of modifiers stay compatible across includes**, in every section that declares some
and whatever the files. Every set has at most 32 modifiers with distinct names, and only virtual
ones of them are mapped explicitly. -/
theorem mods_merges_well (info : KeymapInfo) (pastEnd : XkbAction)
    (processIncludeFile : IncludeItem → Option (List Stmt)) (file : List Stmt) :
    (∀ types : KeyTypesInfo, KeymapMods types.mods →
      (keyTypesSection info).StaysCompatible processIncludeFile types file) ∧
    (∀ compat : CompatInfo, KeymapMods compat.mods →
      (compatSection info pastEnd).StaysCompatible processIncludeFile compat file) ∧
    ∀ syms : SymbolsInfo, KeymapMods syms.mods →
      (symbolsSection info).StaysCompatible processIncludeFile syms file :=
  ⟨fun types h => (keyTypesSection info).staysCompatible _ types file h,
    fun compat h => (compatSection info pastEnd).staysCompatible _ compat file h,
    fun syms h => (symbolsSection info).staysCompatible _ syms file h⟩

/-- An included file of symbols adds two modifiers to the eight ones that are built in. -/
theorem mods_merges_well_vmods :
    let run := (symbolsSection plainInfo).compile vmodsFile
      (initSymbolsInfo plainInfo 0 builtinMods []) [includeStmt]
    (run.merges.map fun merge => (merge.1.mods.mods.length, merge.2.mods.mods.length)) =
        [(8, 10), (8, 10)] ∧
      ValidMods run.info.mods :=
  ⟨by decide +kernel, ((mods_merges_well plainInfo {} vmodsFile [includeStmt]).2.2
    (initSymbolsInfo plainInfo 0 builtinMods []) .builtin).2⟩

end Xkbcommon.Xkbcomp
