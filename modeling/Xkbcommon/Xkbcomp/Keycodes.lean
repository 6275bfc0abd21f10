import Xkbcommon.Xkbcomp.Include
import Xkbcommon.Xkbcomp.KeycodeBijection

/-!
# The keycodes section

The section `xkb_keycodes` defines keys, aliases and the names of LEDs. Its statements fill a
`Xkbcommon.Xkbcomp.KeycodeStore`, included files have their own one that is merged, and in the end
the store is copied to the keymap: the keys (`CopyKeyNamesToKeymap`), with the low ones at their own
index and the high ones after them, and the table of their names (`CopyKeycodeNameLUT`), in which
the aliases of keys that do not exist are dropped.
-/

namespace Xkbcommon.Xkbcomp

open List KeycodeStore

/-! ### Atoms -/

/-- The numbers of the atoms, as `xkb_atom_intern` has given them. -/
structure AtomTable where
  intern : Atom → AtomId
  intern_ne : ∀ text, intern text ≠ xkbAtomNone
  injective : Function.Injective intern

/-! ### Statements -/

/-- `KeyNamesInfo`. There are as many LEDs as `num_led_names`; some may have no name. -/
structure KeyNamesInfo where
  keycodes : KeycodeStore := {}
  ledNames : List (Option Atom) := []
  deriving Repr

/-- The end of `AddLedName`: the index of the LED may have a name. -/
def setLedName (ledNames : List (Option Atom)) (replace : Bool) (name : Atom) (ndx : ℕ) :
    List (Option Atom) :=
  let ledNames := Sparse.grow none ledNames ndx
  if (ledNames.getD ndx none).isSome && !replace then ledNames else ledNames.set ndx (some name)

/-- `AddLedName`. -/
def addLedName (ledNames : List (Option Atom)) (merge : MergeMode) (name : Atom) (newIdx : ℕ) :
    List (Option Atom) :=
  let replace := merge != .augment
  match ledNames.findIdx? (· == some name) with
  | none => setLedName ledNames replace name newIdx
  | some oldIdx =>
    if oldIdx = newIdx then ledNames
    else if replace then setLedName (ledNames.set oldIdx none) replace name newIdx
    else ledNames

/-- `MergeIncludedKeycodes`, for a file without errors. -/
def mergeIncludedKeycodes (merge : MergeMode) (into source : KeyNamesInfo) : KeyNamesInfo where
  keycodes := into.keycodes.mergeKeycodeStores source.keycodes merge
  ledNames :=
    if into.ledNames.isEmpty then source.ledNames
    else source.ledNames.zipIdx.foldl
      (fun ledNames ledi =>
        match ledi.1 with
        | none => ledNames
        | some name => addLedName ledNames merge name ledi.2)
      into.ledNames

section Statements

variable (info : KeymapInfo) (atoms : AtomTable) (names : KeyNamesInfo)

/-- `HandleKeycodeDef`. -/
def handleKeycodeDef (merge : MergeMode) (name : Atom) (value : ℤ) : StmtResult KeyNamesInfo :=
  if value < 0 ∨ xkbKeycodeMax < value then ⟨.rejected, names, 0⟩
  else
    ⟨.accepted,
      { names with keycodes := names.keycodes.addKeyName value.toNat (atoms.intern name) merge }, 0⟩

/-- `HandleKeyNameVar`. The bounds that are set are ignored, those of the keys are used. -/
def handleKeyNameVar (stmt : VarDef) : Status :=
  match stmt.name.bind exprResolveLhs with
  | none => .rejected
  | some ⟨some _, _, _⟩ => .unlessStrict (info.strict .noUnknownKeycodesGlobalFields)
  | some ⟨none, field, arrayNdx⟩ =>
    if ¬istreq field (ascii "minimum") ∧ ¬istreq field (ascii "maximum") then
      .unlessStrict (info.strict .noUnknownKeycodesGlobalFields)
    else if arrayNdx.isSome then .unlessStrict (info.strict .noFieldTypeMismatch)
    else
      match exprResolveInteger stmt.value with
      | .error .undefined => .undefined
      | .error _ => .unlessStrict (info.strict .noFieldTypeMismatch)
      | .ok val =>
        if val < 0 ∨ 0xffffffff < val then .unlessStrict (info.strict .noFieldTypeMismatch)
        else .accepted

/-- `HandleLedNameDef`. An error is counted here, and once more in the loop over the statements. -/
def handleLedNameDef (merge : MergeMode) (ndx : ℤ) (name : ExprDef) : StmtResult KeyNamesInfo :=
  if ndx < 1 ∨ 32 < ndx then ⟨.rejected, names, 1⟩
  else
    match exprResolveString name with
    | none => ⟨.rejected, names, 1⟩
    | some name =>
      ⟨.accepted,
        { names with ledNames := addLedName names.ledNames merge name (ndx.toNat - 1) }, 0⟩

/-- One statement in the loop of `HandleKeycodesFile`. -/
def handleKeycodesStmt : Stmt → StmtResult KeyNamesInfo
  | .keycode merge name value => handleKeycodeDef atoms names merge name value
  | .keyAlias merge name real =>
    ⟨.accepted,
      { names with
        keycodes := names.keycodes.handleAliasDef merge (atoms.intern name) (atoms.intern real) },
      0⟩
  | .var decl => ⟨handleKeyNameVar info decl, names, 0⟩
  | .ledName merge _ ndx name => handleLedNameDef names merge ndx name
  | .unknownDeclaration _ | .unknownCompound _ =>
    ⟨.unlessStrict (info.strict .noUnknownStatements), names, 0⟩
  | _ => ⟨.rejected, names, 0⟩

end Statements

/-- **The keycodes section.** Included files start with nothing. -/
def keycodesSection (info : KeymapInfo) (atoms : AtomTable) : SectionOps KeyNamesInfo where
  init _ := {}
  next _ _ _ := {}
  handle := handleKeycodesStmt info atoms
  mergeIncluded merge into source := ⟨.accepted, mergeIncludedKeycodes merge into source, 0⟩

/-- The statements of `CompileKeycodes`. -/
def compileKeycodes (info : KeymapInfo) (atoms : AtomTable)
    (processIncludeFile : IncludeItem → Option (List Stmt)) (file : List Stmt) :
    SectionRun KeyNamesInfo :=
  (keycodesSection info atoms).compile processIncludeFile {} file

/-- The store of every file is one that can be reached. -/
def keycodesInvariant (info : KeymapInfo) (atoms : AtomTable) :
    SectionInvariant (keycodesSection info atoms) where
  inv names := names.keycodes.Reachable
  le _ _ := True
  refl _ := trivial
  trans _ _ := trivial
  init _ := ⟨.init, trivial⟩
  next _ _ _ := ⟨.init, trivial⟩
  handle stmt h := by
    refine ⟨?_, trivial⟩
    show (handleKeycodesStmt info atoms _ stmt).info.keycodes.Reachable
    unfold handleKeycodesStmt
    split
    · rw [handleKeycodeDef]
      split_ifs with hvalue
      · exact h
      · obtain ⟨hnonneg, hle⟩ := not_or.mp hvalue
        exact .key _ h (by omega) (atoms.intern_ne _)
    · exact .aliasDef _ _ h (atoms.intern_ne _)
    · exact h
    · rw [handleLedNameDef]
      split_ifs
      · exact h
      · split
        · exact h
        · exact h
    · exact h
    · exact h
    · exact h
  merge mode hinto hsource _ := ⟨.merge mode hinto hsource, trivial⟩

theorem reachable_compileKeycodes (info : KeymapInfo) (atoms : AtomTable)
    (processIncludeFile : IncludeItem → Option (List Stmt)) (file : List Stmt) :
    (compileKeycodes info atoms processIncludeFile file).info.keycodes.Reachable := by
  have hinit : (keycodesInvariant info atoms).inv {} := .init
  exact (SectionInvariant.holds_compile _ hinit file).inv

/-! ### The keys of the keymap -/

/-- `struct xkb_key`, as the keycodes section leaves it. -/
structure NamedKey where
  keycode : ℕ := 0
  name : AtomId := xkbAtomNone
  deriving DecidableEq, Repr

/-- The part of `struct xkb_keymap` that the keycodes section sets. -/
structure KeyTable where
  minKeyCode : ℕ
  maxKeyCode : ℕ
  numKeysLow : ℕ
  keys : List NamedKey
  /-- The entries of the names. The index of a key is that in the keys. -/
  keyNames : List KeycodeMatch
  /-- A low key is at the index of its keycode. -/
  low_keycode : ∀ kc < numKeysLow, minKeyCode ≤ kc → (keys[kc]?).map NamedKey.keycode = some kc

/-- The keys of low keycodes, of which those below the minimum are not used. -/
def lowKeys (store : KeycodeStore) (minKeyCode numKeysLow : ℕ) : List NamedKey :=
  (List.range numKeysLow).map fun kc =>
    { keycode := if minKeyCode ≤ kc then kc else 0
      name := if store.min ≤ kc then store.low.getD kc xkbAtomNone else xkbAtomNone }

/-- The keys of high keycodes. -/
def highKeys (store : KeycodeStore) : List NamedKey :=
  store.high.map fun entry => ⟨entry.keycode, entry.name⟩

theorem low_keycode_of_lowKeys (store : KeycodeStore) (minKeyCode numKeysLow : ℕ)
    (rest : List NamedKey) (kc : ℕ) (hkc : kc < numKeysLow) (hmin : minKeyCode ≤ kc) :
    ((lowKeys store minKeyCode numKeysLow ++ rest)[kc]?).map NamedKey.keycode = some kc := by
  rw [getElem?_append_left (by simpa [lowKeys] using hkc), lowKeys, getElem?_map,
    getElem?_range hkc]
  simp [hmin]

/-- `CopyKeyNamesToKeymap`. A keymap without keys gets the usual range of keycodes. -/
def copyKeyNamesToKeymap (store : KeycodeStore) : KeyTable :=
  if store.low.isEmpty && store.high.isEmpty then
    { minKeyCode := 8
      maxKeyCode := 255
      numKeysLow := 256
      keys := lowKeys store 8 256 ++ highKeys store
      keyNames := []
      low_keycode := low_keycode_of_lowKeys store 8 256 (highKeys store) }
  else
    { minKeyCode := store.min
      maxKeyCode :=
        match store.high.getLast? with
        | none => store.low.length - 1
        | some last => last.keycode
      numKeysLow := store.low.length
      keys := lowKeys store store.min store.low.length ++ highKeys store
      keyNames := []
      low_keycode := low_keycode_of_lowKeys store store.min store.low.length (highKeys store) }

/-! ### The names of the keys -/

/-- The body of the loop of `CopyKeycodeNameLUT`. It works on the table that it reads. An alias
whose target is an alias violates an assertion, and is kept where assertions are not compiled. -/
def copyKeycodeName (numKeysLow : ℕ) (names : List KeycodeMatch) (name : AtomId) :
    List KeycodeMatch :=
  match names.getD name .absent with
  | .absent => names
  | .aliasOf real =>
    if names.getD real .absent = .absent then names.set name .absent else names
  | .key (.low _) => names
  | .key (.high index) => names.set name (.key (.high (index + numKeysLow)))

/-- `CopyKeycodeNameLUT`. -/
def copyKeycodeNameLUT (numKeysLow : ℕ) (names : List KeycodeMatch) : List KeycodeMatch :=
  (List.range names.length).foldl (copyKeycodeName numKeysLow) names

/-- The index of the key in the keys of the keymap, once the names are copied. -/
def KeySlot.index : KeySlot → ℕ
  | .low index => index
  | .high index => index

/-- The keycodes part of `CopyKeyNamesInfoToKeymap`. -/
def copyKeyNamesInfoToKeymap (store : KeycodeStore) : KeyTable :=
  let table := copyKeyNamesToKeymap store
  { table with keyNames := copyKeycodeNameLUT table.numKeysLow store.names }

namespace KeyTable

variable (table : KeyTable)

/-- The entry of a name. -/
def lookupName (name : AtomId) : KeycodeMatch := table.keyNames.getD name .absent

/-- The key of an entry. -/
def keyOf? : KeycodeMatch → Option NamedKey
  | .key slot => table.keys[slot.index]?
  | _ => none

/-- `XkbKeyByName`. The index of the target of an alias is read without looking whether it is a
key; if it is none, there is nothing that could be said of the result. -/
def xkbKeyByName (name : AtomId) (useAliases : Bool) : Option NamedKey :=
  match table.lookupName name with
  | .absent => none
  | .key slot => table.keyOf? (.key slot)
  | .aliasOf real => if useAliases then table.keyOf? (table.lookupName real) else none

/-- The choice of `redirect_key_auto` among the keycodes of the high keys, from the last one
down. -/
def undefinedKeycode : List ℕ → ℕ → ℕ
  | [], keycode => keycode
  | kc :: kcs, keycode => if kc < keycode then keycode else undefinedKeycode kcs (kc - 1)

/-- `redirect_key_auto`: a keycode that is not that of a key. -/
def redirectKeyAuto : ℕ :=
  if table.keys.isEmpty ∨ 0 < table.minKeyCode then 0
  else undefinedKeycode ((table.keys.drop table.numKeysLow).reverse.map NamedKey.keycode)
    (xkbKeycodeInvalid - 1)

/-- The keymap, as `XkbKey` reads it. -/
def toKeymap : XkbKeymap where
  minKeyCode := table.minKeyCode
  maxKeyCode := table.maxKeyCode
  numKeysLow := table.numKeysLow
  keys := table.keys.map fun key => { keycode := key.keycode }
  low_keycode := by
    intro kc hkc hmin
    rw [List.getElem?_map, Option.map_map]
    exact table.low_keycode kc hkc hmin

end KeyTable

/-! ### What the copied tables hold -/

section Copied

variable {store : KeycodeStore}

/-- A store with a key. -/
theorem copyKeyNamesToKeymap_of_nonempty (h : store.low ≠ [] ∨ store.high ≠ []) :
    (copyKeyNamesToKeymap store).numKeysLow = store.low.length ∧
    (copyKeyNamesToKeymap store).minKeyCode = store.min ∧
    (copyKeyNamesToKeymap store).keys =
      lowKeys store store.min store.low.length ++ highKeys store := by
  have hempty : ¬(store.low.isEmpty && store.high.isEmpty) = true := by
    rw [Bool.and_eq_true, List.isEmpty_iff, List.isEmpty_iff]
    exact fun hboth => h.elim (fun hne => hne hboth.1) fun hne => hne hboth.2
  rw [copyKeyNamesToKeymap, if_neg hempty]
  exact ⟨rfl, rfl, rfl⟩

/-- The index that the names give for a slot. -/
def KeycodeStore.keyIndex (store : KeycodeStore) : KeySlot → ℕ
  | .low index => index
  | .high index => index + (copyKeyNamesToKeymap store).numKeysLow

/-- **The keys are where their names say.** -/
theorem getElem?_copyKeyNamesToKeymap (h : store.Valid) {slot : KeySlot}
    (hslot : store.nameAt slot ≠ xkbAtomNone) :
    ∃ key, (copyKeyNamesToKeymap store).keys[store.keyIndex slot]? = some key ∧
      key.name = store.nameAt slot := by
  rcases slot with kc | index
  · have hlt := lt_length_of_nameAt_low hslot
    have hmin := h.isMin.le (mem_keycodes hslot)
    obtain ⟨-, -, hkeys⟩ := copyKeyNamesToKeymap_of_nonempty
      (.inl (ne_nil_of_length_pos (by omega)) : store.low ≠ [] ∨ store.high ≠ [])
    rw [hkeys, keyIndex, getElem?_append_left (by simpa [lowKeys] using hlt), lowKeys, getElem?_map,
      getElem?_range hlt]
    exact ⟨_, rfl, if_pos hmin⟩
  · have hlt := lt_length_of_nameAt_high hslot
    obtain ⟨hlow, -, hkeys⟩ := copyKeyNamesToKeymap_of_nonempty
      (.inr (ne_nil_of_length_pos (by omega)) : store.low ≠ [] ∨ store.high ≠ [])
    obtain ⟨entry, hentry, hname, -⟩ := exists_entry_of_nameAt hslot
    have hlength : (lowKeys store store.min store.low.length).length = store.low.length := by
      simp [lowKeys]
    refine ⟨⟨entry.keycode, entry.name⟩, ?_, hname⟩
    rw [hkeys, keyIndex, hlow, getElem?_append_right (by omega), hlength,
      Nat.add_sub_cancel, highKeys, getElem?_map, hentry, Option.map_some]

end Copied

end Xkbcommon.Xkbcomp
