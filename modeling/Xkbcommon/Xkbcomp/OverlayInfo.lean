import Xkbcommon.Machine

/-!
# Overlays of a key under construction

The part of `src/xkbcomp/symbols.c` that keeps the fields `overlay1`, …, `overlay8` of the `key`
statements. A statement may give an overlay a target key, or say that the key is not in the overlay
(`none`); statements of one key are merged.

The overlays of a key under construction are a mask of the overlays with a value, and the
values: a single one is stored inline, several in a *sparse array*, in the order of their
bits. If all values are `none`, a flag says so and nothing is stored.

A lapse of the source is kept: `merge_overlays` takes over the mask and the values of the other
operand without the flag. Reads through a null or a dangling pointer are not modelled, and an
allocation does not fail.
-/

namespace Xkbcommon

/-- `enum merge_mode`. -/
inductive MergeMode
  | default | augment | override | replace
  deriving DecidableEq, Repr, Inhabited

/-! ### Sparse arrays -/

/-- The overlays of a `KeyInfo`. The union of the source is one list, which is the key stored
inline if nothing is allocated and the sparse array otherwise. -/
structure OverlayInfo where
  /-- `KEY_FIELD_OVERLAY` of `defined`. -/
  defined : Bool := false
  overlays : BitVec 8 := 0#8
  overlaysClear : Bool := false
  overlaysAlloc : ℕ := 0
  overlaysKeys : List (Option ℕ) := [none]
  deriving DecidableEq, Repr, Inhabited

/-- The key stored inline. -/
def OverlayInfo.overlayKey (info : OverlayInfo) : Option ℕ := info.overlaysKeys.headD none

/-- The number of overlays below a single bit. -/
def overlayRank (overlays mask : BitVec 8) : ℕ :=
  popcount32 ((overlays &&& (mask - 1#8)).setWidth 32)

/-- `next_pow2`. -/
def nextPow2 (x : ℕ) : ℕ := if x ≤ 1 then 1 else 2 ^ (Nat.log2 (x - 1) + 1)

/-- `overlays_get`. -/
def overlaysGet (info : OverlayInfo) (bit : ℕ) : Option (Option ℕ) :=
  if info.overlays.getLsbD bit then
    some (if info.overlaysAlloc = 0 then info.overlayKey
      else info.overlaysKeys.getD (overlayRank info.overlays (1#8 <<< bit)) none)
  else none

/-- The values with a new one at an index, those from there on moved (`memmove`); `count`
values are in use then. -/
def insertKey (keys : List (Option ℕ)) (count index : ℕ) (key : Option ℕ) : List (Option ℕ) :=
  keys.take index ++ [key] ++ (keys.drop index).take (count - 1 - index) ++ keys.drop count

/-- `overlays_insert`. -/
def overlaysInsert (info : OverlayInfo) (bit : ℕ) (key : Option ℕ) : OverlayInfo :=
  let mask := 1#8 <<< bit
  if info.overlays.getLsbD bit ∧ info.overlaysClear = false then
    -- overwrite the existing slot
    if info.overlaysAlloc = 0 then
      { info with overlaysKeys := [key], overlaysClear := key.isNone }
    else
      { info with overlaysKeys := info.overlaysKeys.set (overlayRank info.overlays mask) key }
  else if info.overlays = 0#8 ∨ (info.overlaysClear = true ∧ key = none) then
    { info with
      overlaysKeys := [key]
      overlays := info.overlays ||| mask
      overlaysClear := key.isNone }
  else
    let overlays := info.overlays ||| mask
    let count := popcount32 (overlays.setWidth 32)
    let index := overlayRank overlays mask
    if info.overlaysAlloc = 0 then
      -- promote the inline element; cleared overlays are set by `calloc`
      let tmp := List.replicate count none
      let tmp := if info.overlaysClear then tmp
        else tmp.set (overlayRank overlays info.overlays) info.overlayKey
      { info with
        overlaysKeys := tmp.set index key
        overlaysAlloc := count
        overlays := overlays
        overlaysClear := false }
    else
      let alloc := if info.overlaysAlloc < count then nextPow2 count else info.overlaysAlloc
      let keys := info.overlaysKeys ++ List.replicate (alloc - info.overlaysKeys.length) none
      { info with
        overlaysKeys := insertKey keys count index key
        overlaysAlloc := alloc
        overlays := overlays }

/-! ### Fields -/

variable (overlapping : Bool) (into incoming keyi : OverlayInfo)

/-- An overlay field with a value, in `SetSymbolsField`. The first field of an overlay is kept;
an error that the strict mode would raise is not. -/
def setOverlay (overlay : ℕ) (key : Option ℕ) : OverlayInfo :=
  if (overlaysGet keyi overlay).isSome then keyi
  else if overlapping then { overlaysInsert keyi overlay key with defined := true }
  else
    let mask := 1#8 <<< overlay
    if keyi.overlays = 0#8 ∨ keyi.overlaysClear = true then
      match key with
      | some _ =>
        { keyi with
          overlays := mask, overlaysClear := false, overlaysKeys := [key], defined := true }
      | none =>
        { keyi with overlays := keyi.overlays ||| mask, overlaysClear := true, defined := true }
    else keyi

/-! ### Merging -/

/-- The buffer of `dest` with room for `count` values. -/
def growBuffer (dest : OverlayInfo) (count : ℕ) : OverlayInfo :=
  if dest.overlaysAlloc = 0 then
    { dest with
      overlaysKeys := dest.overlayKey :: List.replicate (count - 1) none
      overlaysAlloc := count }
  else
    { dest with
      overlaysKeys :=
        dest.overlaysKeys ++ List.replicate (count - dest.overlaysKeys.length) none
      overlaysAlloc := count }

/-- The overlays of `src` with their values, in the order of the bits; `none` is
`PANIC_UNREACHABLE`. -/
def srcEntries (src : OverlayInfo) : Option (List (ℕ × Option ℕ)) :=
  let bits := (List.range 8).filter (src.overlays.getLsbD ·)
  if src.overlaysClear then some (bits.map fun bit => (bit, none))
  else if src.overlaysAlloc ≠ 0 then
    some (bits.zipIdx.map fun bit => (bit.1, src.overlaysKeys.getD bit.2 none))
  else if 1 < bits.length then none
  else some (bits.map fun bit => (bit, src.overlayKey))

/-- One turn of the loop of `merge_overlays`. -/
def mergeEntry (clobber : Bool) (dest : OverlayInfo) (entry : ℕ × Option ℕ) : OverlayInfo :=
  match overlaysGet dest entry.1 with
  | some destKey =>
    if destKey = entry.2 ∨ clobber = false then dest else overlaysInsert dest entry.1 entry.2
  | none => overlaysInsert dest entry.1 entry.2

/-- Whether `merge_overlays` writes to the buffer of `incoming`. -/
def swapsBuffers (count : ℕ) : Bool :=
  if count ≤ into.overlaysAlloc ∧ incoming.overlaysAlloc ≤ into.overlaysAlloc then false
  else if count ≤ incoming.overlaysAlloc then true
  else decide (1 < count ∧ into.overlaysAlloc < incoming.overlaysAlloc)

/-- The overlapping overlays of `merge_overlays`. -/
def mergeOverlapping (clobber : Bool) : Option OverlayInfo :=
  let count := popcount32 ((into.overlays ||| incoming.overlays).setWidth 32)
  if count = 0 then none
  else
    let swap := swapsBuffers into incoming count
    let dest := if swap then incoming else into
    let src := if swap then into else incoming
    let clobber := if swap then !clobber else clobber
    let dest := if dest.overlaysAlloc < count ∧ 1 < count then growBuffer dest count else dest
    (srcEntries src).map fun entries => entries.foldl (mergeEntry clobber) dest

/-- The disjoint overlays of `merge_overlays`. -/
def mergeDisjoint (clobber : Bool) : OverlayInfo :=
  let use := { incoming with defined := into.defined }
  if into.overlays = incoming.overlays ∧ into.overlaysClear = incoming.overlaysClear ∧
      into.overlayKey = incoming.overlayKey then into
  else if into.overlays &&& incoming.overlays = 0#8 ∧ into.overlaysClear = true then use
  else if into.overlays &&& incoming.overlays = 0#8 ∧ incoming.overlaysClear = true then into
  else if clobber then use else into

/-- `merge_overlays`. -/
def mergeOverlays (clobber : Bool) : Option OverlayInfo :=
  if incoming.defined = false then some into
  else if into.defined = false then
    -- the flag is not taken over
    some { incoming with overlaysClear := into.overlaysClear, defined := true }
  else if into.overlaysClear = true ∧ incoming.overlaysClear = true then
    some { into with overlays := into.overlays ||| incoming.overlays }
  else if overlapping then mergeOverlapping into incoming clobber
  else some (mergeDisjoint into incoming clobber)

end Xkbcommon
