import Xkbcommon.Xkbcomp.Include
import Xkbcommon.Xkbcomp.Symbols

/-!
# Key types

`src/xkbcomp/types.c`. A key type tells which level of a key its modifiers choose. Its statements
come in any order: `modifiers = Shift+Lock` declares the modifiers it looks at, `map[Shift] = 2`
gives the level of a combination of them, and `preserve[Shift] = Shift` says which of them are not
consumed. The entry of a combination may come from the last kind of statement alone; it is then for
the first level.

Later code relies on what is not checked there: that the level of an entry exists, that its
modifiers are among those of the type and those it preserves among its own, and that no other entry
has the same modifiers (`Xkbcommon.Xkbcomp.KeyTypeInfo.WellFormed`). This holds in whatever order
the statements come. Entries are cut down to the modifiers of the type *at the time*. Those that
come before the modifiers are declared are cut down to nothing, and the modifiers cannot be
declared twice.

Types are not merged field by field: a new definition replaces the old one or is dropped. Messages
and the name of the section are left out.
-/

namespace Xkbcommon.Xkbcomp

open Masks List Option

variable {mask : BitVec 32}

/-! ### Types -/

/-- `KeyTypeInfo`, as `HandleKeyTypeDef` starts it. Of the fields that are marked as defined, only
the modifiers matter. -/
structure KeyTypeInfo where
  definedMask : Bool := false
  merge : MergeMode := .default
  name : Atom
  mods : BitVec 32 := 0#32
  numLevels : ℕ := 1
  entries : List XkbKeyTypeEntry := []
  levelNames : List (Option Atom) := []
  deriving DecidableEq, Repr

/-- `KeyTypesInfo`, less its name and what a run counts. -/
structure KeyTypesInfo where
  mods : XkbModSet
  types : List KeyTypeInfo := []
  deriving DecidableEq, Repr

/-- `AddKeyType`. -/
def addKeyType (types : List KeyTypeInfo) (new : KeyTypeInfo) : List KeyTypeInfo :=
  match types.findIdx? (·.name == new.name) with
  | some i => if new.merge ≠ .augment then types.set i new else types
  | none => types ++ [new]

/-- `MergeIncludedKeyTypes`, for a file without errors. -/
def mergeIncludedKeyTypes (merge : MergeMode) (into source : KeyTypesInfo) : KeyTypesInfo :=
  { mods := mergeModSets merge into.mods source.mods
    types :=
      if into.types = [] then source.types
      else source.types.foldl (fun types type => addKeyType types { type with merge }) into.types }

/-! ### Fields -/

variable (mods : XkbModSet) (type : KeyTypeInfo) (arrayNdx : Option ExprDef) (value : ExprDef)
  (info : KeymapInfo)

/-- `SetModifiers`. -/
def setModifiers : Status × KeyTypeInfo :=
  match arrayNdx, exprResolveModMask mods .both value with
  | some _, _ => (.rejected, type)
  | none, .error err => (.ofError err, type)
  | none, .ok mask =>
    if type.definedMask then (.rejected, type) else (.accepted, { type with mods := mask })

/-- `AddMapEntry`. -/
def addMapEntry (new : XkbKeyTypeEntry) (clobber report : Bool) : KeyTypeInfo :=
  let numLevels := if type.numLevels ≤ new.level then new.level + 1 else type.numLevels
  match type.entries.findIdx? (·.mods.mods == new.mods.mods) with
  | some i =>
    let old := type.entries.getD i {}
    if report && old.level != new.level then
      if clobber then
        { type with numLevels, entries := type.entries.set i { old with level := new.level } }
      else type
    else type
  | none => { type with numLevels, entries := type.entries ++ [new] }

/-- `SetMapEntry`. -/
def setMapEntry : Status × KeyTypeInfo :=
  match arrayNdx with
  | none => (.rejected, type)
  | some arrayNdx =>
    match exprResolveModMask mods .both arrayNdx with
    | .error err => (.ofError err, type)
    | .ok mask =>
      match exprResolveLevel value with
      | .error err => (.ofError err, type)
      | .ok level =>
        (.accepted, addMapEntry type { level, mods := { mods := mask &&& type.mods } } true true)

/-- `AddPreserve`. -/
def addPreserve (mods preserveMods : BitVec 32) : KeyTypeInfo :=
  match type.entries.findIdx? (·.mods.mods == mods) with
  | some i =>
    { type with
      entries := type.entries.set i
        { type.entries.getD i {} with preserve := { mods := preserveMods } } }
  | none =>
    { type with
      entries := type.entries ++
        [{ level := 0, mods := { mods }, preserve := { mods := preserveMods } }] }

/-- `SetPreserve`. -/
def setPreserve : Status × KeyTypeInfo :=
  match arrayNdx with
  | none => (.rejected, type)
  | some arrayNdx =>
    match exprResolveModMask mods .both arrayNdx with
    | .error err => (.ofError err, type)
    | .ok mask =>
      let mask := mask &&& type.mods
      match exprResolveModMask mods .both value with
      | .error err => (.ofError err, type)
      | .ok preserveMods => (.accepted, addPreserve type mask (preserveMods &&& mask))

/-- `AddLevelName`. -/
def addLevelName (levelNames : List (Option Atom)) (level : ℕ) (name : Atom) (clobber : Bool) :
    List (Option Atom) :=
  match levelNames[level]? with
  | some (some _) => if clobber then levelNames.set level (some name) else levelNames
  | _ => (growFor none levelNames level).set level (some name)

/-- `SetLevelName`. -/
def setLevelName : Status × KeyTypeInfo :=
  match arrayNdx with
  | none => (.rejected, type)
  | some arrayNdx =>
    match exprResolveLevel arrayNdx, exprResolveString value with
    | .error err, _ => (.ofError err, type)
    | .ok _, none => (.rejected, type)
    | .ok level, some name =>
      (.accepted, { type with levelNames := addLevelName type.levelNames level name true })

/-- `SetKeyTypeField`. The modifiers are marked as defined even if they were rejected. -/
def setKeyTypeField (mods : XkbModSet) (type : KeyTypeInfo) (field : List UInt8)
    (arrayNdx : Option ExprDef) (value : ExprDef) : Status × KeyTypeInfo :=
  if istreq field (ascii "modifiers") then
    let (status, type) := setModifiers mods type arrayNdx value
    (status, { type with definedMask := true })
  else if istreq field (ascii "map") then setMapEntry mods type arrayNdx value
  else if istreq field (ascii "preserve") then setPreserve mods type arrayNdx value
  else if istreq field (ascii "levelname") || istreq field (ascii "level_name") then
    setLevelName type arrayNdx value
  else (.unlessStrict (info.strict .noUnknownTypeFields), type)

/-! ### Statements -/

/-- One statement in the loop of `HandleKeyTypeBody`. -/
def handleKeyTypeVar (mods : XkbModSet) (type : KeyTypeInfo) (stmt : VarDef) :
    Status × KeyTypeInfo :=
  match stmt.name.bind exprResolveLhs with
  | none => (.rejected, type)
  | some ⟨some elem, _, _⟩ => (if istreq elem (ascii "type") then .accepted else .rejected, type)
  | some ⟨none, field, arrayNdx⟩ => setKeyTypeField info mods type field arrayNdx stmt.value

/-- `HandleKeyTypeBody`. -/
def handleKeyTypeBody (info : KeymapInfo) (mods : XkbModSet) :
    KeyTypeInfo → List VarDef → Status × KeyTypeInfo
  | type, [] => (.accepted, type)
  | type, stmt :: body =>
    let (status, type) := handleKeyTypeVar info mods type stmt
    if status = .undefined then (status, type)
    else
      let (rest, type) := handleKeyTypeBody info mods type body
      (status.and rest, type)

/-- `HandleKeyTypeDef`. An error is counted here, and once more in the loop over the statements. -/
def handleKeyTypeDef (types : KeyTypesInfo) (decl : KeyTypeDef) : StmtResult KeyTypesInfo :=
  match handleKeyTypeBody info types.mods { merge := decl.merge, name := decl.name } decl.body with
  | (.accepted, type) => ⟨.accepted, { types with types := addKeyType types.types type }, 0⟩
  | (status, _) => ⟨status, types, 1⟩

/-- `HandleGlobalVar` of the section. -/
def handleKeyTypesGlobalVar (stmt : VarDef) : Status :=
  match stmt.name.bind exprResolveLhs with
  | none => .rejected
  | some ⟨some elem, _, _⟩ =>
    if istreq elem (ascii "type") then .accepted
    else .unlessStrict (info.strict .noUnknownStatements)
  | some ⟨none, _, _⟩ => .unlessStrict (info.strict .noUnknownTypesGlobalFields)

/-- One statement in the loop of `HandleKeyTypesFile`. -/
def handleKeyTypesStmt (types : KeyTypesInfo) : Stmt → StmtResult KeyTypesInfo
  | .type decl => handleKeyTypeDef info types decl
  | .var decl => ⟨handleKeyTypesGlobalVar info decl, types, 0⟩
  | .vmod decl =>
    let (status, mods) := handleVModDef types.mods decl
    ⟨status, { types with mods }, 0⟩
  | .unknownDeclaration _ | .unknownCompound _ =>
    ⟨.unlessStrict (info.strict .noUnknownStatements), types, 0⟩
  | _ => ⟨.rejected, types, 0⟩

/-- **The section of key types.** Included files start with the modifiers and no types. -/
def keyTypesSection : ModSection KeyTypesInfo where
  init types := { mods := initVMods types.mods true }
  next _ _ included := { mods := initVMods included.mods true }
  handle := handleKeyTypesStmt info
  mergeIncluded merge into source := ⟨.accepted, mergeIncludedKeyTypes merge into source, 0⟩
  mods := KeyTypesInfo.mods
  mods_init _ := rfl
  mods_next _ _ _ := rfl
  mods_handle types stmt := by
    unfold handleKeyTypesStmt
    split
    · left
      rw [handleKeyTypeDef]
      split <;> rfl
    · exact .inl rfl
    · exact .inr ⟨_, rfl⟩
    · exact .inl rfl
    · exact .inl rfl
    · exact .inl rfl
  mods_merge _ _ _ := rfl

/-- `type "T" { map[Shift] = Level2; modifiers = Shift; preserve[Alt] = Shift; };` -/
def unorderedType : Stmt :=
  .type
    { name := ascii "T"
      body :=
        [{ name := some (.arrayRef none (ascii "map") (.ident (ascii "Shift")))
           value := .ident (ascii "Level2") },
          { name := some (.ident (ascii "modifiers")), value := .ident (ascii "Shift") },
          { name := some (.arrayRef none (ascii "preserve") (.ident (ascii "Alt")))
            value := .ident (ascii "Shift") }] }

/-- `include "a"`, with the mode of a plain include statement. -/
def includeStmt : Stmt := .include ⟨.default, ascii "a", none, none⟩ []

/-- The only file that is found is `virtual_modifiers Alt, NumLock;`. -/
def vmodsFile (_ : IncludeItem) : Option (List Stmt) :=
  some
    [.vmod { name := ascii "Alt", value := none }, .vmod { name := ascii "NumLock", value := none }]

/-! ### The types of the keymap -/

/-- A type of the keymap: `struct xkb_key_type` with its names, less whether it is required. -/
structure NamedKeyType extends XkbKeyType where
  name : Atom
  levelNames : List (Option Atom)
  deriving DecidableEq, Repr

/-- `CopyKeyTypesToKeymap`. -/
def copyKeyTypesToKeymap (types : List KeyTypeInfo) : List NamedKeyType :=
  if types = [] then [{ name := ascii "ONE_LEVEL", levelNames := [] }]
  else
    types.map fun type =>
      { name := type.name, mods := { mods := type.mods }, numLevels := type.numLevels
        entries := type.entries, levelNames := type.levelNames }

/-- `CompileKeyTypes`: the types and the modifiers of the keymap. -/
def compileKeyTypes (processIncludeFile : IncludeItem → Option (List Stmt)) (mods : XkbModSet)
    (file : List Stmt) : Option (List NamedKeyType × XkbModSet) :=
  let run := (keyTypesSection info).compile processIncludeFile { mods } file
  if run.Compiles then some (copyKeyTypesToKeymap run.info.types, run.info.mods) else none

/-! ### Types are well formed -/

/-- An entry fits a type: its level is one of the type, its modifiers are among those of the type,
and it preserves some of them. -/
structure FitsType (mods : BitVec 32) (numLevels : ℕ) (entry : XkbKeyTypeEntry) : Prop where
  level : entry.level < numLevels
  mods : Sub entry.mods.mods mods
  preserve : Sub entry.preserve.mods entry.mods.mods

/-- **A key type is well formed**: its entries fit, and no two have the same modifiers. -/
structure WellFormedType (mods : BitVec 32) (numLevels : ℕ) (entries : List XkbKeyTypeEntry) :
    Prop where
  pos : 0 < numLevels
  fits : ∀ entry ∈ entries, FitsType mods numLevels entry
  nodup : (entries.map (·.mods.mods)).Nodup

/-- What holds of a type while it is defined. Until its modifiers are declared it has none. -/
structure KeyTypeInfo.WellFormed (type : KeyTypeInfo) : Prop
    extends WellFormedType type.mods type.numLevels type.entries where
  undeclared : type.definedMask = false → type.mods = 0#32

section WellFormed

variable {mods : BitVec 32} {numLevels numLevels' : ℕ} {entries : List XkbKeyTypeEntry}
  {entry : XkbKeyTypeEntry} {type : KeyTypeInfo} {i : ℕ} {types : List KeyTypeInfo}

theorem FitsType.mono (h : FitsType mods numLevels entry) (hle : numLevels ≤ numLevels') :
    FitsType mods numLevels' entry := ⟨h.level.trans_le hle, h.mods, h.preserve⟩

/-- A new entry keeps a type well formed, if its modifiers are new. -/
theorem WellFormedType.append (h : WellFormedType mods numLevels entries)
    (hle : numLevels ≤ numLevels') (hentry : FitsType mods numLevels' entry)
    (hnew : entry.mods.mods ∉ entries.map (·.mods.mods)) :
    WellFormedType mods numLevels' (entries ++ [entry]) := by
  refine ⟨h.pos.trans_le hle, ?_, ?_⟩
  · intro entry' hmem
    rcases mem_append.mp hmem with hmem | hmem
    · exact (h.fits entry' hmem).mono hle
    · rwa [mem_singleton.mp hmem]
  · rw [map_append, map_singleton]
    exact h.nodup.append (nodup_singleton _) (by simpa using hnew)

/-- An entry may be replaced by one with the same modifiers. -/
theorem WellFormedType.set (h : WellFormedType mods numLevels entries)
    (hle : numLevels ≤ numLevels') (hentry : FitsType mods numLevels' entry)
    (hsame : (entries[i]?).map (·.mods.mods) = some entry.mods.mods) :
    WellFormedType mods numLevels' (entries.set i entry) := by
  refine ⟨h.pos.trans_le hle, ?_, ?_⟩
  · intro entry' hmem
    rcases mem_or_eq_of_mem_set hmem with hmem | rfl
    · exact (h.fits entry' hmem).mono hle
    · exact hentry
  · obtain ⟨old, hold, holdmods⟩ := map_eq_some_iff.mp hsame
    obtain ⟨hlt, rfl⟩ := List.getElem?_eq_some_iff.mp hold
    have hself := @set_getElem_self _ (entries.map (·.mods.mods)) i (by rwa [length_map])
    rw [getElem_map, holdmods] at hself
    rw [map_set, hself]
    exact h.nodup

theorem entry_of_findIdx (h : entries.findIdx? (·.mods.mods == mask) = some i) :
    ∃ old ∈ entries, entries[i]? = some old ∧ old.mods.mods = mask := by
  obtain ⟨hlt, hmask, -⟩ := findIdx?_eq_some_iff_getElem.mp h
  exact ⟨entries[i], getElem_mem hlt, getElem?_eq_getElem hlt, beq_iff_eq.mp hmask⟩

theorem notMem_of_findIdx (h : entries.findIdx? (·.mods.mods == mask) = none) :
    mask ∉ entries.map (·.mods.mods) := by
  intro hmem
  obtain ⟨entry, hentry, rfl⟩ := List.mem_map.mp hmem
  simpa using findIdx?_eq_none_iff.mp h entry hentry

/-- **An entry of the map** grows the type if there is no such level yet. -/
theorem wellFormed_addMapEntry (h : type.WellFormed) (hmods : Sub entry.mods.mods type.mods)
    (hpreserve : Sub entry.preserve.mods entry.mods.mods) (clobber report : Bool) :
    (addMapEntry type entry clobber report).WellFormed := by
  have hle : type.numLevels ≤
      if type.numLevels ≤ entry.level then entry.level + 1 else type.numLevels := by
    split_ifs <;> omega
  have hlt : entry.level <
      if type.numLevels ≤ entry.level then entry.level + 1 else type.numLevels := by
    split_ifs <;> omega
  rw [addMapEntry]
  split
  · rename_i i hfound
    obtain ⟨old, hmem, hold, hsame⟩ := entry_of_findIdx hfound
    rw [getD_eq_getElem?_getD, hold, getD_some]
    dsimp only
    split
    · split
      · refine ⟨h.set hle ⟨hlt, (h.fits old hmem).mods, (h.fits old hmem).preserve⟩ ?_,
          h.undeclared⟩
        rw [hold, map_some]
      · exact h
    · exact h
  · rename_i hnew
    exact ⟨h.append hle ⟨hlt, hmods, hpreserve⟩ (notMem_of_findIdx hnew), h.undeclared⟩

/-- **Preserved modifiers** may add an entry for the first level. -/
theorem wellFormed_addPreserve (h : type.WellFormed) {preserveMods : BitVec 32}
    (hmask : Sub mask type.mods) (hpreserve : Sub preserveMods mask) :
    (addPreserve type mask preserveMods).WellFormed := by
  rw [addPreserve]
  split
  · rename_i i hfound
    obtain ⟨old, hmem, hold, rfl⟩ := entry_of_findIdx hfound
    rw [getD_eq_getElem?_getD, hold, getD_some]
    refine ⟨h.set le_rfl ⟨(h.fits old hmem).level, (h.fits old hmem).mods, hpreserve⟩ ?_,
      h.undeclared⟩
    rw [hold, map_some]
  · rename_i hnew
    exact ⟨h.append le_rfl ⟨h.pos, hmask, hpreserve⟩ (notMem_of_findIdx hnew), h.undeclared⟩

theorem setModifiers_cases {set : XkbModSet} (arrayNdx : Option ExprDef) (value : ExprDef) :
    (setModifiers set type arrayNdx value).2 = type ∨
      type.definedMask = false ∧
        ∃ mask, (setModifiers set type arrayNdx value).2 = { type with mods := mask } := by
  unfold setModifiers
  split
  · exact .inl rfl
  · exact .inl rfl
  · split
    · exact .inl rfl
    · rename_i mask _ hundefined
      exact .inr ⟨Bool.not_eq_true _ ▸ hundefined, mask, rfl⟩

/-- **The modifiers of the type.** If they were not declared yet, the entries so far have none. -/
theorem wellFormed_setModifiers (h : type.WellFormed) {set : XkbModSet} (arrayNdx : Option ExprDef)
    (value : ExprDef) :
    { (setModifiers set type arrayNdx value).2 with definedMask := true }.WellFormed := by
  rcases setModifiers_cases arrayNdx value with heq | ⟨hundefined, mask, heq⟩
  · rw [heq]
    exact ⟨h.toWellFormedType, by simp⟩
  · rw [heq]
    refine ⟨⟨h.pos, ?_, h.nodup⟩, by simp⟩
    intro entry hmem
    have hfits := h.fits entry hmem
    refine ⟨hfits.level, ?_, hfits.preserve⟩
    intro i hi
    have hnone := hfits.mods i hi
    rw [h.undeclared hundefined] at hnone
    exact absurd hnone (by simp)

theorem wellFormed_setKeyTypeField (h : type.WellFormed) (info : KeymapInfo) {set : XkbModSet}
    (field : List UInt8) (arrayNdx : Option ExprDef) (value : ExprDef) :
    (setKeyTypeField info set type field arrayNdx value).2.WellFormed := by
  rw [setKeyTypeField]
  split_ifs
  · exact wellFormed_setModifiers h arrayNdx value
  · unfold setMapEntry
    repeat' split
    · exact h
    · exact h
    · exact h
    · exact wellFormed_addMapEntry h (sub_and_right (.refl _)) (sub_zero_left _) true true
  · unfold setPreserve
    repeat' split
    · exact h
    · exact h
    · exact h
    · exact wellFormed_addPreserve h (sub_and_right (.refl _)) (sub_and_right (.refl _))
  · unfold setLevelName
    repeat' split
    · exact h
    · exact h
    · exact h
    · exact ⟨h.toWellFormedType, h.undeclared⟩
  · exact h

/-- **The statements of a type**, in any order. -/
theorem wellFormed_handleKeyTypeBody (h : type.WellFormed) (info : KeymapInfo) (set : XkbModSet)
    (body : List VarDef) : (handleKeyTypeBody info set type body).2.WellFormed := by
  induction body generalizing type with
  | nil => exact h
  | cons stmt body ih =>
    have hstmt : (handleKeyTypeVar info set type stmt).2.WellFormed := by
      rw [handleKeyTypeVar]
      split
      · exact h
      · exact h
      · exact wellFormed_setKeyTypeField h info _ _ _
    rw [handleKeyTypeBody]
    dsimp only
    split_ifs
    · exact hstmt
    · exact ih hstmt

theorem wellFormed_mk (merge : MergeMode) (name : Atom) :
    ({ merge, name } : KeyTypeInfo).WellFormed where
  pos := Nat.one_pos
  fits := by simp
  nodup := nodup_nil
  undeclared _ := rfl

theorem wellFormed_addKeyType (h : ∀ type ∈ types, type.WellFormed) (htype : type.WellFormed) :
    ∀ type' ∈ addKeyType types type, type'.WellFormed := by
  intro type' hmem
  rw [addKeyType] at hmem
  split at hmem
  · split_ifs at hmem
    · rcases mem_or_eq_of_mem_set hmem with hmem | rfl
      · exact h type' hmem
      · exact htype
    · exact h type' hmem
  · rcases mem_append.mp hmem with hmem | hmem
    · exact h type' hmem
    · rwa [mem_singleton.mp hmem]

theorem wellFormed_foldl_addKeyType (merge : MergeMode) {source : List KeyTypeInfo}
    (h : ∀ type ∈ types, type.WellFormed) (hsource : ∀ type ∈ source, type.WellFormed) :
    ∀ type ∈ source.foldl (fun types type => addKeyType types { type with merge }) types,
      type.WellFormed := by
  induction source generalizing types with
  | nil => exact h
  | cons type source ih =>
    have htype := hsource type mem_cons_self
    refine ih (wellFormed_addKeyType h ?_) fun type' hmem => hsource type' (.tail _ hmem)
    exact ⟨htype.toWellFormedType, htype.undeclared⟩

/-- **All types of a file are well formed**: its own, those of the files it includes, and what is
left of both after they are merged. -/
def keyTypesInvariant : SectionInvariant (keyTypesSection info).toSectionOps where
  inv types := ∀ type ∈ types.types, type.WellFormed
  le _ _ := True
  refl _ := trivial
  trans _ _ := trivial
  init _ := ⟨by simp [keyTypesSection], trivial⟩
  next _ _ _ := ⟨by simp [keyTypesSection], trivial⟩
  handle {types} stmt h := by
    refine ⟨?_, trivial⟩
    change ∀ type ∈ (handleKeyTypesStmt info types stmt).info.types, type.WellFormed
    unfold handleKeyTypesStmt
    split
    · rename_i decl
      have hbody := wellFormed_handleKeyTypeBody (wellFormed_mk decl.merge decl.name) info
        types.mods decl.body
      rw [handleKeyTypeDef]
      split
      · rename_i type heq
        rw [heq] at hbody
        exact wellFormed_addKeyType h hbody
      · exact h
    · exact h
    · exact h
    · exact h
    · exact h
    · exact h
  merge {into source} mode hinto hsource _ := by
    refine ⟨?_, trivial⟩
    change ∀ type ∈ (mergeIncludedKeyTypes mode into source).types, type.WellFormed
    rw [mergeIncludedKeyTypes]
    dsimp only
    split_ifs
    · exact hsource
    · exact wellFormed_foldl_addKeyType mode hinto hsource

theorem wellFormed_copyKeyTypes (info : KeymapInfo)
    (processIncludeFile : IncludeItem → Option (List Stmt)) (mods : XkbModSet) (file : List Stmt) :
    ∀ type ∈ copyKeyTypesToKeymap
        ((keyTypesSection info).compile processIncludeFile { mods } file).info.types,
      WellFormedType type.mods.mods type.numLevels type.entries := by
  have hholds : (keyTypesInvariant info).Holds { mods }
      ((keyTypesSection info).compile processIncludeFile { mods } file) :=
    (keyTypesInvariant info).holds_compile (by simp [keyTypesInvariant]) file
  intro type hmem
  rw [copyKeyTypesToKeymap] at hmem
  split_ifs at hmem
  · -- the type that is there if no other is
    obtain rfl := mem_singleton.mp hmem
    exact ⟨Nat.one_pos, by simp, nodup_nil⟩
  · obtain ⟨type', hmem', rfl⟩ := List.mem_map.mp hmem
    exact (hholds.inv type' hmem').toWellFormedType

/-- **Every key type of a compiled keymap is well formed**, whatever its files say, in whatever
order, and however they are merged. -/
theorem compileKeyTypes_wellFormed (info : KeymapInfo)
    (processIncludeFile : IncludeItem → Option (List Stmt)) (mods : XkbModSet) (file : List Stmt)
    (types : List NamedKeyType) (mods' : XkbModSet)
    (h : compileKeyTypes info processIncludeFile mods file = some (types, mods')) :
    ∀ type ∈ types, WellFormedType type.mods.mods type.numLevels type.entries := by
  rw [compileKeyTypes] at h
  split_ifs at h
  obtain ⟨rfl, -⟩ := Prod.mk.inj (Option.some.inj h)
  exact wellFormed_copyKeyTypes info processIncludeFile mods file

/-- The entries of a type whose modifiers are declared after its first entry. -/
theorem compileKeyTypes_wellFormed_unordered :
    ∃ types mods', compileKeyTypes plainInfo vmodsFile builtinMods [includeStmt, unorderedType] =
        some (types, mods') ∧
      types.map (·.entries.map (·.level)) = [[1]] ∧
      ∀ type ∈ types, WellFormedType type.mods.mods type.numLevels type.entries := by
  have hlevels : (compileKeyTypes plainInfo vmodsFile builtinMods [includeStmt, unorderedType]).map
      (fun compiled => compiled.1.map (·.entries.map (·.level))) = some [[1]] := by
    decide +kernel
  obtain ⟨⟨types, mods'⟩, hcompiled, hlevels⟩ := map_eq_some_iff.mp hlevels
  exact ⟨types, mods', hcompiled, hlevels,
    compileKeyTypes_wellFormed plainInfo vmodsFile builtinMods _ types mods' hcompiled⟩

end WellFormed

end Xkbcommon.Xkbcomp
