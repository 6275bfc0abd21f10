import Mathlib.Data.List.Sort
import Xkbcommon.Server

/-!
# The machine and its events

`struct xkb_machine` of `src/state.c`: a server state that reports what it does as a
batch of events, with overlays, a remapping of modifiers and an alternative layout
for shortcuts. The batch (`Xkbcommon.XkbEvents`) belongs to the caller and is shared
by all the calls; `xkb_events_next` reads it with a cursor.

The two tweaks – remapped modifiers, shortcut layout – change only the effective
modifiers and group while the key is handled, and are announced to the clients by an
event before the key event and undone by another one after it.
-/

namespace Xkbcommon

open Masks

/-! ### Configuration -/

/-- `struct machine_mods_mapping`. -/
structure MachineModsMapping where
  source : BitVec 32
  target : BitVec 32
  deriving DecidableEq, Repr

/-- `struct machine_modifiers_config`. -/
structure MachineModifiersConfig where
  mask : BitVec 32 := 0#32
  mappings : List MachineModsMapping := []
  deriving DecidableEq, Repr

/-- `struct machine_shortcuts_config`. The targets are indexed by layouts; `none` is
`XKB_LAYOUT_INVALID`, and no targets at all is a `NULL` array. -/
structure MachineShortcutsConfig where
  mask : BitVec 32 := 0#32
  targets : Option (List (Option ℕ)) := none
  deriving DecidableEq, Repr

/-- `struct machine_config`. -/
structure MachineConfig where
  modifiers : MachineModifiersConfig := {}
  shortcuts : MachineShortcutsConfig := {}
  deriving DecidableEq, Repr

/-- `struct xkb_overlaid_key`; a free entry has a null `old`. -/
structure XkbOverlaidKey where
  old : KeyAddr := .null
  new : KeyAddr := .null
  refcnt : ℤ := 0
  deriving DecidableEq, Repr

/-- The overlays of a machine: the enabled ones, their order of activation in
nibbles, the latest lowest, and the keys being overlaid. -/
structure MachineOverlays where
  enabled : BitVec 8 := 0#8
  order : BitVec 32 := 0#32
  keys : List XkbOverlaidKey := []
  deriving DecidableEq, Repr

/-- `struct xkb_machine`. -/
structure XkbMachine where
  base : XkbServerState := {}
  overlays : MachineOverlays := {}
  config : MachineConfig := {}
  deriving DecidableEq

/-- `struct xkb_events`, less its context. -/
structure XkbEvents where
  next : ℕ := 0
  queue : List XkbEvent := []
  deriving DecidableEq, Repr

/-! ### The builder -/

/-- `struct xkb_machine_builder`, less its keymap and its flags. -/
structure XkbMachineBuilder where
  a11yAffect : BitVec 32 := 0#32
  a11yFlags : BitVec 32 := 0#32
  mods : List MachineModsMapping := []
  shortcutsMask : BitVec 32 := 0#32
  shortcutsTargets : List (Option ℕ) := []
  deriving DecidableEq, Repr

variable (km : XkbKeymap)

variable (previous : StateComponents) (state : XkbState) (sm : XkbMachine) (queue : List XkbEvent)
  (builder : XkbMachineBuilder)

/-- `popcount32`. -/
def popcount32 (m : BitVec 32) : ℕ := (List.finRange 32).countP fun i => m.getLsbD i

/-- `cmp_mod_masks`: whether the first mask is sorted before the second, or is the
same. -/
def cmpModMasks (m1 m2 : BitVec 32) : Bool :=
  if m1 = m2 then true
  else if m1 = 0#32 then false
  else if m2 = 0#32 then true
  else if m1 &&& m2 = m1 then false
  else if m1 &&& m2 = m2 then true
  else if popcount32 m2 < popcount32 m1 then true
  else if popcount32 m1 < popcount32 m2 then false
  else m1.toNat < m2.toNat

/-- `machine_set_mods`. -/
def machineSetMods (rawMappings : List MachineModsMapping) : MachineModifiersConfig :=
  let mappings := rawMappings.filter fun mapping =>
    mapping.source != 0#32 && mapping.target != 0#32 &&
      !anyBit mapping.source (~~~km.canonicalStateMask) &&
      !anyBit mapping.target (~~~km.canonicalStateMask)
  { mask := mappings.foldl (fun mask mapping => mask ||| mapping.source) 0#32
    mappings := mappings.insertionSort fun a b => cmpModMasks a.source b.source }

/-- The loop of `machine_set_shortcuts` that drops the trailing targets without
effect. -/
def trimTargets (km : XkbKeymap) (targets : List (Option ℕ)) : ℕ → ℕ
  | 0 => 0
  | 1 => 1
  | count + 2 =>
    if ((targets.getD (count + 1) none).any fun t => t < km.numGroups) then count + 2
    else trimTargets km targets (count + 1)

/-- `machine_set_shortcuts`. -/
def machineSetShortcuts (mask : BitVec 32) (targets : List (Option ℕ)) : MachineShortcutsConfig :=
  let count := trimTargets km targets (min km.numGroups targets.length)
  let mask := mask &&& km.canonicalStateMask
  if count = 0 ∨ mask = 0#32 then {}
  else
    { mask := mask
      targets := some ((List.range km.numGroups).map fun l =>
        if l < count then (targets.getD l none).filter fun t => t < km.numGroups else none) }

/-- `xkb_machine_new`. -/
def xkbMachineNew : XkbMachine :=
  { base := xkbServerStateInit km .serverState builder.a11yAffect builder.a11yFlags
    config :=
      { modifiers := machineSetMods km builder.mods
        shortcuts := machineSetShortcuts km builder.shortcutsMask builder.shortcutsTargets } }

/-! ### Overlays -/

/-- `format_max_overlays`. -/
def formatMaxOverlays : KeymapFormat → ℕ
  | .textV1 => 2
  | .textV2 => 8

/-- `OVERLAYS_FROM_CONTROLS`. -/
def overlaysFromControls (controls : BitVec 32) : BitVec 8 := (controls >>> 1).setWidth 8

/-- The first loop of `machine_update_overlays`, from nibble `n` on: drop the overlays
that are no longer enabled. -/
def removeOverlays (mask : BitVec 8) (overlayMax : ℕ) :
    ℕ → ℕ → BitVec 32 → BitVec 8 → BitVec 32 × BitVec 8
  | 0, _, order, added => (order, added)
  | fuel + 1, n, order, added =>
    if overlayMax ≤ n then (order, added)
    else
      let overlayIdx := ((order >>> (n * 4)) &&& 0xf#32).toNat
      if overlayIdx = 0 then (order, added)
      else
        let overlayMask := 1#8 <<< (overlayIdx - 1)
        if anyBit overlayMask mask then
          removeOverlays mask overlayMax fuel (n + 1) order (added &&& ~~~overlayMask)
        else
          let head := (1#32 <<< (n * 4)) - 1#32
          removeOverlays mask overlayMax fuel n
            ((order &&& head) ||| ((order >>> 4) &&& ~~~head)) added

/-- `machine_update_overlays`. Every turn of the first loop passes a nibble or drops
one, and there are eight of them. -/
def machineUpdateOverlays : XkbMachine :=
  let mask := overlaysFromControls sm.base.components.controls
  let (order, added) := removeOverlays mask (formatMaxOverlays km.format) 16 0 sm.overlays.order
    (mask &&& ~~~sm.overlays.enabled)
  let order := (List.range 8).foldl
    (fun (order : BitVec 32) k =>
      if added.getLsbD k then (order <<< 4) ||| BitVec.ofNat 32 (k + 1) else order)
    order
  { sm with overlays := { sm.overlays with order := order, enabled := mask } }

/-- The loop of `process_overlayable_key` over the stack of activated overlays: the
latest one that has the key. -/
def findOverlay (overlays : BitVec 8) : ℕ → BitVec 32 → Option ℕ
  | 0, _ => none
  | fuel + 1, stack =>
    if stack = 0#32 then none
    else
      let overlay := (stack &&& 0xf#32).toNat - 1
      if overlays.getLsbD overlay then some overlay else findOverlay overlays fuel (stack >>> 4)

/-- The address of a target of an overlay. -/
def overlayAddr : Option ℕ → KeyAddr
  | none => .null
  | some i => .key i

/-- The target of a key in an overlay: stored inline, or at the number of overlays of
the key below this one. -/
def overlayKey (key : XkbKey) (overlay : ℕ) : KeyAddr :=
  if key.overlaysInline then overlayAddr (key.overlaysKeys.getD 0 none)
  else
    let low := key.overlays &&& ((1#8 <<< overlay) - 1#8)
    overlayAddr (key.overlaysKeys.getD (popcount32 (low.setWidth 32)) none)

/-- An entry of the overlaid keys, after an event of its key. -/
def XkbOverlaidKey.count (entry : XkbOverlaidKey) (dir : KeyDirection) : XkbOverlaidKey :=
  let refcnt := match dir with
    | .down => entry.refcnt + 1
    | .repeated => entry.refcnt
    | .up => entry.refcnt - 1
  { entry with refcnt := refcnt, old := if refcnt ≤ 0 then .null else entry.old }

/-- `process_overlayable_key`: the overlays after the event, and the key to handle. -/
def processOverlayableKey (overlays : MachineOverlays) (k : KeyRef) (dir : KeyDirection) :
    MachineOverlays × KeyAddr :=
  let i := overlays.keys.findIdx fun entry => entry.old = k.addr
  match overlays.keys[i]? with
  | some entry => ({ overlays with keys := overlays.keys.set i (entry.count dir) }, entry.new)
  | none =>
    if dir = .down then
      let new := if k.key.overlays &&& overlays.enabled = 0#8 then k.addr
        else match findOverlay k.key.overlays 8 overlays.order with
          | none => k.addr
          | some overlay => overlayKey k.key overlay
      let entry := { old := k.addr, new := new, refcnt := 1 }
      let free := overlays.keys.findIdx fun entry => entry.old = .null
      ({ overlays with
          keys := if free < overlays.keys.length then overlays.keys.set free entry
            else overlays.keys ++ [entry] }, new)
    else (overlays, k.addr)

/-- The key of an address; `none` is a null pointer. -/
def derefKey : KeyAddr → Option KeyRef
  | .key i => keyAt km i
  | _ => none

/-! ### Tweaks -/

/-- The loop of `do_remap_modifiers`: the source and the target modifiers of the
mappings that apply. -/
def matchMappings (mods typeMask : BitVec 32) (mappings : List MachineModsMapping) :
    BitVec 32 × BitVec 32 :=
  mappings.foldl
    (fun acc mapping =>
      if mapping.source &&& mods = mapping.source ∧ mapping.source &&& acc.1 = 0#32 ∧
          mapping.source &&& typeMask = 0#32 then
        (acc.1 ||| mapping.source, acc.2 ||| mapping.target)
      else acc) (0#32, 0#32)

/-- The modifiers replaced by `do_remap_modifiers` for a key, with their replacement;
`none` if nothing is. -/
def remappedModifiers (config : MachineModifiersConfig) (state : XkbState) (key : XkbKey) :
    Option (BitVec 32 × BitVec 32) :=
  if anyBit config.mask state.components.mods = false then none
  else do
    let layout ← stateKeyGetLayout state key
    let group ← key.groups[layout]?
    let (affect, mods) := matchMappings state.components.mods group.type.mods.mask config.mappings
    if affect = 0#32 then none else some (affect, mods)

/-- The components announced by `do_remap_modifiers`. -/
def remapComponents (affect mods : BitVec 32) : StateComponents :=
  let c := state.components
  deriveComponents km state.outOfRangeGroup
    { c with
      baseMods := (c.baseMods &&& ~~~affect) ||| mods
      latchedMods := c.latchedMods &&& ~~~affect
      lockedMods := c.lockedMods &&& ~~~affect }

/-- What a tweak leaves behind: the state, the queue and the index of the event that
announces it, `none` for `-1`. -/
structure Tweak where
  state : XkbState
  queue : List XkbEvent
  event : Option ℕ
  deriving DecidableEq, Repr

/-- `do_remap_modifiers`. -/
def doRemapModifiers (config : MachineModifiersConfig) (state : XkbState) (queue : List XkbEvent)
    (key : XkbKey) : Tweak :=
  match remappedModifiers config state key with
  | none => ⟨state, queue, none⟩
  | some (affect, mods) =>
    let new := remapComponents km state affect mods
    let changed := getStateComponentChanges state.components new
    let state := { state with components.mods := new.mods }
    if changed = 0#32 then ⟨state, queue, none⟩
    else ⟨state, queue ++ [.componentsChange new changed], some queue.length⟩

/-- The target of the shortcuts tweak in a state, if it applies. -/
def shortcutTarget (config : MachineShortcutsConfig) (c : StateComponents) : Option ℕ :=
  match config.targets with
  | none => none
  | some targets =>
    if anyBit c.mods config.mask then targets.getD c.group none else none

/-- The components that the shortcuts tweak starts from: those of the remap event,
otherwise those of the state. -/
def tweakBase (c : StateComponents) (queue : List XkbEvent) : Option ℕ → StateComponents
  | none => c
  | some i =>
    match queue[i]? with
    | some (.componentsChange c' _) => c'
    | _ => c

/-- `do_shortcuts_tweak`, after `do_remap_modifiers`. -/
def doShortcutsTweak (config : MachineShortcutsConfig) (previous : StateComponents)
    (remap : Tweak) :
    Tweak :=
  let state := remap.state
  match shortcutTarget config state.components with
  | none => remap
  | some target =>
    let new := deriveComponents km state.outOfRangeGroup
      { tweakBase state.components remap.queue remap.event with
        baseGroup := BitVec.ofNat 32 target - state.components.latchedGroup -
          state.components.lockedGroup }
    let event := .componentsChange new (getStateComponentChanges previous new)
    let state := { state with components.group := new.group }
    match remap.event with
    | none => ⟨state, remap.queue ++ [event], some remap.queue.length⟩
    | some i => ⟨state, remap.queue.set i event, some i⟩

/-- `undo_tweaks`: an event that restores the previous components, if the last event
of the queue left others. -/
def undoTweaks : List XkbEvent :=
  let changed := getStateComponentChanges previous (lastComponents previous queue)
  if changed = 0#32 then queue else queue ++ [.componentsChange previous changed]

/-! ### Processing a key -/

/-- Whether an event is a key event. -/
def XkbEvent.isKey : XkbEvent → Bool
  | .key _ _ => true
  | .componentsChange _ _ => false

/-- Both tweaks, as `xkb_machine_process_key` makes them before the key is handled. -/
def doTweaks (config : MachineConfig) (previous : StateComponents) (state : XkbState)
    (queue : List XkbEvent) (key : XkbKey) : Tweak :=
  doShortcutsTweak km config.shortcuts previous
    (doRemapModifiers km config.modifiers state queue key)

/-- The key event itself, unless a redirection has queued one before. -/
def appendKeyEvent (dir : KeyDirection) (keycode : ℕ) : List XkbEvent :=
  if queue.any XkbEvent.isKey then queue else queue ++ [.key dir keycode]

/-- The part of `xkb_machine_process_key` that follows the overlays: tweaks, filters,
key event, undo. The last event is left to the caller. -/
def processKeyEvents (config : MachineConfig) (previous : StateComponents) (s : XkbServerState)
    (queue : List XkbEvent) (k : KeyRef) (dir : KeyDirection) :
    XkbServerState × List XkbEvent :=
  let tweak := doTweaks km config previous s.toXkbState queue k.key
  let fr := handleKey km ⟨{ s with toXkbState := tweak.state }, some tweak.queue⟩ k dir
  let queue := appendKeyEvent (fr.events.getD []) dir k.key.keycode
  (fr.state, if tweak.event.isSome then undoTweaks previous queue else queue)

/-- The end of a `process` call: a last event for the components that changed, and the
overlays when the controls did. -/
def finishEvents : XkbMachine × List XkbEvent :=
  let changed := getStateComponentChanges previous sm.base.components
  if changed = 0#32 then (sm, queue)
  else (if anyBit changed xkbStateControls then machineUpdateOverlays km sm else sm,
    queue ++ [.componentsChange sm.base.components changed])

/-- The overlays and the key to handle, for an event of a key. -/
def overlaidKey (overlays : MachineOverlays) (k : KeyRef) (dir : KeyDirection) :
    MachineOverlays × KeyAddr :=
  if k.key.overlays = 0#8 then (overlays, k.addr) else processOverlayableKey overlays k dir

/-- `xkb_machine_process_key`, once the key to handle is known. -/
def processResolvedKey (overlays : MachineOverlays) (k : KeyRef) (dir : KeyDirection) :
    XkbMachine × XkbEvents :=
  let previous := sm.base.components
  let fr := autoDisableStickyKeys km ⟨sm.base, some []⟩ dir
  let r := processKeyEvents km sm.config previous fr.state (fr.events.getD []) k dir
  let r := finishEvents km previous { sm with base := r.1, overlays := overlays } r.2
  (r.1, { next := 0, queue := r.2 })

/-- `xkb_machine_process_key`: the machine and the batch. The result is `none` when
the target of an overlay is a null pointer. -/
def xkbMachineProcessKey (kc : ℕ) (dir : KeyDirection) : Option (XkbMachine × XkbEvents) :=
  match eventKey km kc dir with
  | none => some (sm, {})
  | some k =>
    let (overlays, addr) := overlaidKey sm.overlays k dir
    (derefKey km addr).map fun k => processResolvedKey km sm overlays k dir

/-- `xkb_machine_process_synthetic`. The batch is not reset. -/
def xkbMachineProcessSynthetic (update : XkbStateUpdate) (events : XkbEvents) :
    Except XkbErrorCode (XkbMachine × XkbEvents) :=
  (applyStateUpdate km ⟨sm.base, some events.queue⟩ update).map fun fr =>
    let r := finishEvents km sm.base.components { sm with base := fr.state } (fr.events.getD [])
    (r.1, { events with queue := r.2 })

/-! ### Reading the events -/

/-- `xkb_events_next`. -/
def xkbEventsNext (events : XkbEvents) : Option XkbEvent × XkbEvents :=
  match events.queue[events.next]? with
  | none => (none, events)
  | some event => (some event, { events with next := events.next + 1 })

/-- `xkb_state_update_event`. -/
def xkbStateUpdateEvent : XkbEvent → XkbState × BitVec 32
  | .key _ _ => (state, 0#32)
  | .componentsChange c _ =>
    if state.mode = .serverCompanion ∨ state.mode = .legacyMixedState then
      ({ state with components := c }, getStateComponentChanges state.components c)
    else (state, 0#32)

end Xkbcommon
