import Xkbcommon.Keymap
import Xkbcommon.Xkbcomp.OverlayInfo
import Xkbcommon.Lib.BinarySearch
import Xkbcommon.Lib.Index
import Xkbcommon.Lib.Sparse

/-!
# The store of keycodes

While it compiles the keycodes section, the compiler keeps the names of the keys in a *store*
(`KeycodeStore`): low keycodes are the indices of an array, high keycodes are in an array sorted by
the keycode, and a third array, indexed by the name, says where the key of that name is. Keys and
their aliases share one namespace.

A key is defined, an alias is defined, or the store of an included file is merged
(`AddKeyName`, `HandleAliasDef` and `MergeKeycodeStores`). Each of them may have to replace the name
of a keycode, the keycode of a name, or both, and a high keycode that comes or goes moves those
after it.

The tables are read as functions: a slot has a name (`Xkbcommon.Xkbcomp.KeycodeStore.nameAt`), and a
name has an entry. What is to be shown is that these are the two directions of one partial
bijection, for which `Index.Matches` is the rule: a slot is emptied, filled or renumbered, and the
index with it.
-/

namespace Xkbcommon.Xkbcomp

/-! ### The tables -/

/-- `xkb_atom_t`. Here the number of an atom counts: the names are an array indexed by it. -/
abbrev AtomId := ℕ

/-- `XKB_ATOM_NONE`. -/
def xkbAtomNone : AtomId := 0

/-- `XKB_KEYCODE_MAX_CONTIGUOUS`, the last low keycode. -/
def xkbKeycodeMaxContiguous : ℕ := 0xfff

/-- `XKB_KEYCODE_MAX`. -/
def xkbKeycodeMax : ℕ := 0xfffffffe

/-- Where a key is: at an index of the low or of the high table. -/
inductive KeySlot
  | low (index : ℕ)
  | high (index : ℕ)
  deriving DecidableEq, Repr

/-- `KeycodeMatch`: an entry that is not found, a key or an alias. Of an entry that is not found
nothing else is read. -/
inductive KeycodeMatch
  | absent
  | key (slot : KeySlot)
  | aliasOf (real : AtomId)
  deriving DecidableEq, Repr

/-- The slot of the key, for the entry of a key. -/
def KeycodeMatch.slot? : KeycodeMatch → Option KeySlot
  | .key slot => some slot
  | _ => none

/-- `HighKeycodeEntry`. -/
structure HighKeycodeEntry where
  keycode : ℕ
  name : AtomId
  deriving DecidableEq, Repr

/-- `KeycodeStore`, empty as `keycode_store_init` leaves it. -/
structure KeycodeStore where
  /-- The minimum keycode. -/
  min : ℕ := xkbKeycodeInvalid
  /-- The names of the low keycodes, by the keycode. -/
  low : List AtomId := []
  /-- The high keycodes. -/
  high : List HighKeycodeEntry := []
  /-- The entries of the names, by the name. -/
  names : List KeycodeMatch := []
  deriving DecidableEq, Repr

namespace KeycodeStore

variable (store : KeycodeStore)

/-- The name that a slot holds. -/
def nameAt : KeySlot → AtomId
  | .low index => store.low.getD index xkbAtomNone
  | .high index => ((store.high[index]?).map (·.name)).getD xkbAtomNone

/-- The keycode of a slot. -/
def keycodeAt : KeySlot → ℕ
  | .low index => index
  | .high index => ((store.high[index]?).map (·.keycode)).getD xkbKeycodeInvalid

/-- `keycode_store_get_key_name`. -/
def getKeyName : KeycodeMatch → AtomId
  | .key slot => store.nameAt slot
  | _ => xkbAtomNone

/-- The keycode of an entry of the high table, as its binary searches read it. -/
def highKeycode (index : ℕ) : Option ℕ := (store.high[index]?).map (·.keycode)

/-- `keycode_store_lookup_keycode`. An index of the low table is found also if it has no name. -/
def lookupKeycode (kc : ℕ) : KeycodeMatch :=
  if kc < store.low.length then .key (.low kc)
  else if kc ≤ xkbKeycodeMaxContiguous then .absent
  else
    match BinarySearch.search store.highKeycode kc store.high.length 0 store.high.length with
    | .found index => .key (.high index)
    | _ => .absent

/-- `keycode_store_lookup_name`. -/
def lookupName (name : AtomId) : KeycodeMatch := store.names.getD name .absent

/-! ### Changes of the tables -/

/-- `keycode_store_update_key`. -/
def updateKey (found : KeycodeMatch) (name : AtomId) : KeycodeStore :=
  match found with
  | .key (.low index) =>
    { store with
      low := store.low.set index name
      names := Sparse.write .absent store.names name found }
  | .key (.high index) =>
    { store with
      high := store.high.modify index fun entry => { entry with name }
      names := Sparse.write .absent store.names name found }
  | _ => store

end KeycodeStore

/-- The aliases among some names, with their targets. -/
def aliasesIn (names : List KeycodeMatch) (alts : List AtomId) : List (AtomId × AtomId) :=
  alts.filterMap fun alt =>
    match names.getD alt .absent with
    | .aliasOf real => some (alt, real)
    | _ => none

/-- The aliases of a table. -/
def allAliases (names : List KeycodeMatch) : List (AtomId × AtomId) :=
  aliasesIn names (List.range names.length)

/-- The entry of a key whose place in the high table moves up. -/
def KeycodeMatch.moveUp : KeycodeMatch → KeycodeMatch
  | .key (.high index) => .key (.high (index + 1))
  | found => found

/-- The entry of a key, after another one was removed from the high table. -/
def KeycodeMatch.afterRemoval (removed : ℕ) : KeycodeMatch → KeycodeMatch
  | .key (.high index) => .key (.high (if removed < index then index - 1 else index))
  | found => found

namespace KeycodeStore

variable (store : KeycodeStore)

/-- A high keycode is inserted at an index, after the references to the entries that it moves are
updated. -/
def insertHigh (index kc : ℕ) (name : AtomId) : KeycodeStore :=
  let names := Sparse.grow .absent store.names name
  let names := ((store.high.drop index).map (·.name)).foldl
    (fun names moved => names.modify moved KeycodeMatch.moveUp) names
  let high := store.high.insertIdx index ⟨kc, name⟩
  { store with
    high
    names := names.set name (.key (.high index))
    min :=
      if store.low.isEmpty then ((high.head?).map (·.keycode)).getD xkbKeycodeInvalid
      else store.min }

/-- `keycode_store_insert_key`. -/
def insertKey (kc : ℕ) (name : AtomId) : KeycodeStore :=
  if kc ≤ xkbKeycodeMaxContiguous then
    { store with
      low := Sparse.write xkbAtomNone store.low kc name
      min := if kc < store.min then kc else store.min
      names := Sparse.write .absent store.names name (.key (.low kc)) }
  else
    match store.high.getLast? with
    | none => store.insertHigh 0 kc name
    | some last =>
      if kc < last.keycode then
        match BinarySearch.search store.highKeycode kc store.high.length 0 store.high.length with
        | .missing lower => store.insertHigh lower kc name
        -- the assertions of the source fail
        | _ => store
      else store.insertHigh store.high.length kc name

/-- `keycode_store_insert_alias`. -/
def insertAlias (alt real : AtomId) : KeycodeStore :=
  { store with names := Sparse.write .absent store.names alt (.aliasOf real) }

/-- `keycode_store_update_alias`. -/
def updateAlias (alt real : AtomId) : KeycodeStore :=
  { store with names := store.names.set alt (.aliasOf real) }

/-- `keycode_store_delete_name`. -/
def deleteName (name : AtomId) : KeycodeStore :=
  { store with names := store.names.set name .absent }

/-- The end of `keycode_store_delete_key`: the minimum is recomputed, going up from the old one. -/
def updateBounds : KeycodeStore :=
  if store.low.isEmpty then
    { store with min := ((store.high.head?).map (·.keycode)).getD xkbKeycodeInvalid }
  else
    { store with min := (Sparse.firstDefined xkbAtomNone store.low store.min).getD store.min }

/-- The low table without the key of an index. The last one is removed together with the undefined
ones before it. -/
def lowWithout (index : ℕ) : List AtomId :=
  if index + 1 = store.low.length then
    if store.min = index then []
    else
      match Sparse.lastDefined xkbAtomNone store.low index with
      | some size => store.low.take size
      | none => store.low
  else store.low.set index xkbAtomNone

/-- `keycode_store_delete_key`. -/
def deleteKey (found : KeycodeMatch) : KeycodeStore :=
  match found with
  | .key (.low index) =>
    updateBounds { store with
      low := store.lowWithout index
      names := store.names.set (store.nameAt (.low index)) .absent }
  | .key (.high index) =>
    updateBounds { store with
      high := store.high.eraseIdx index
      names := (store.names.set (store.nameAt (.high index)) .absent).map
        (KeycodeMatch.afterRemoval index) }
  | _ => store

/-! ### Definitions and merges -/

/-- The second half of `AddKeyName`: the name is given to the keycode, once it is free. -/
def nameKeycode (kc : ℕ) (name : AtomId) (clobber : Bool) : KeycodeStore :=
  let found := store.lookupKeycode kc
  let oldName := store.getKeyName found
  if oldName = xkbAtomNone then store.insertKey kc name
  else if oldName = name then store
  else if clobber then (store.deleteName oldName).updateKey found name
  else store

/-- `AddKeyName`. -/
def addKeyName (kc : ℕ) (name : AtomId) (merge : MergeMode) : KeycodeStore :=
  let clobber := merge != .augment
  match store.lookupName name with
  | .absent => store.nameKeycode kc name clobber
  | .aliasOf _ => if clobber then (store.deleteName name).nameKeycode kc name clobber else store
  | .key slot =>
    if store.keycodeAt slot ≠ kc then
      if clobber then (store.deleteKey (.key slot)).nameKeycode kc name clobber else store
    else store.nameKeycode kc name clobber

/-- `HandleAliasDef`. -/
def handleAliasDef (merge : MergeMode) (alt real : AtomId) : KeycodeStore :=
  let clobber := merge != .augment
  match store.lookupName alt with
  | .absent => store.insertAlias alt real
  | .aliasOf old =>
    if real = old then store else store.updateAlias alt (if clobber then real else old)
  | .key slot => if clobber then (store.deleteKey (.key slot)).insertAlias alt real else store

/-- The keys of a store, in the order in which they are merged. -/
def keys : List HighKeycodeEntry :=
  ((List.range store.low.length).filterMap fun kc =>
    if store.min ≤ kc ∧ store.low.getD kc xkbAtomNone ≠ xkbAtomNone then
      some ⟨kc, store.low.getD kc xkbAtomNone⟩
    else none) ++ store.high

/-- `MergeKeycodeStores`. -/
def mergeKeycodeStores (into source : KeycodeStore) (merge : MergeMode) : KeycodeStore :=
  if into.low.isEmpty && into.high.isEmpty && into.names.isEmpty then source
  else
    let into := source.keys.foldl
      (fun store key => store.addKeyName key.keycode key.name merge) into
    (allAliases source.names).foldl
      (fun store entry => store.handleAliasDef merge entry.1 entry.2) into

/-- The stores that come from definitions of keys and aliases and from merges. A name is an atom, so
not `XKB_ATOM_NONE`, and `HandleKeycodeDef` rejects other keycodes. -/
inductive Reachable : KeycodeStore → Prop
  | init : Reachable {}
  | key {store : KeycodeStore} {kc : ℕ} {name : AtomId} (merge : MergeMode) :
    Reachable store → kc ≤ xkbKeycodeMax → name ≠ xkbAtomNone →
      Reachable (store.addKeyName kc name merge)
  | aliasDef {store : KeycodeStore} {alt : AtomId} (real : AtomId) (merge : MergeMode) :
    Reachable store → alt ≠ xkbAtomNone → Reachable (store.handleAliasDef merge alt real)
  | merge {into source : KeycodeStore} (merge : MergeMode) :
    Reachable into → Reachable source → Reachable (into.mergeKeycodeStores source merge)

end KeycodeStore

end Xkbcommon.Xkbcomp
