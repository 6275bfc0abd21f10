import Xkbcommon.BaseMods
import Xkbcommon.OutOfBand

/-!
# Structural invariants of the reachable states

The facts about single slots, `Xkbcommon.SlotsOk`, hold of every filter array that the
public calls produce: a key event is handled for a key of the keymap, whose address can
hold a filter, and every filter call and every start keeps them.
-/

namespace Xkbcommon

open Masks List Option

variable {km : XkbKeymap} {s : XkbServerState} {k : KeyRef} {fr : Frame} {dir : KeyDirection}
  {kc i : ℕ} {sm : XkbMachine} {m : LegacyMode} {cs : List ServerCall}

/-! ### Keys of the keymap -/

theorem canHold_of_keyAt (h : keyAt km i = some k) : k.addr.canHold = true := by
  obtain ⟨key, -, rfl⟩ := map_eq_some_iff.mp h
  rfl

theorem canHold_of_keyOf (h : keyOf km kc = some k) : k.addr.canHold = true := by
  obtain ⟨i, -, hi⟩ := bind_eq_some_iff.mp h
  exact canHold_of_keyAt hi

theorem keyOf_of_eventKey (h : eventKey km kc dir = some k) : keyOf km kc = some k :=
  (filter_eq_some_iff.mp h).1

/-- The binary search finds the keycode it looks for. -/
theorem searchHighKey_keycode {keys : List XkbKey} {fuel lower upper : ℕ}
    (h : searchHighKey keys kc fuel lower upper = some i) :
    ∃ key, keys[i]? = some key ∧ key.keycode = kc := by
  induction fuel generalizing lower upper with
  | zero => simp [searchHighKey] at h
  | succ fuel ih =>
    unfold searchHighKey at h
    dsimp only at h
    split at h
    · split at h
      · simp at h
      · rename_i key hkey
        split at h
        · exact ih h
        · split at h
          · exact ih h
          · obtain rfl : _ = i := by simpa using h
            exact ⟨key, hkey, by omega⟩
    · simp at h

/-- **The key of a keycode**: it is in the key array, at its own address, and has the
keycode. -/
theorem keyOf_spec (h : keyOf km kc = some k) :
    k.key ∈ km.keys ∧ k.key.keycode = kc ∧ derefKey km k.addr = some k := by
  obtain ⟨i, hi, hk⟩ := bind_eq_some_iff.mp h
  obtain ⟨key, hkey, rfl⟩ := map_eq_some_iff.mp hk
  refine ⟨mem_of_getElem? hkey, ?_, hk⟩
  unfold xkbKey at hi
  split at hi
  · simp at hi
  · rename_i hrange
    split at hi
    · rename_i hlow
      obtain rfl : kc = i := by simpa using hi
      simpa [hkey] using km.low_keycode kc hlow (by omega)
    · obtain ⟨key', hkey', hkc⟩ := searchHighKey_keycode hi
      obtain rfl : key = key' := by simpa [hkey] using hkey'
      exact hkc

theorem canHold_of_derefKey {addr : KeyAddr} (h : derefKey km addr = some k) :
    k.addr.canHold = true := by
  cases addr with
  | key i => exact canHold_of_keyAt h
  | _ => exact absurd h (by simp [derefKey])

/-! ### Events -/

/-- **What one filter call leaves of the array**: its own slot is written, and the others change
quietly at most. -/
structure CallStored (fr : Frame) (i : ℕ) (step : FilterStep) : Prop where
  slotsOk : SlotsOk (step.store i)
  footprint : Footprint fr (step.store i)
  self : (step.store i).state.filters[i]? = some step.filter
  other : ∀ j, j ≠ i → QuietAt (fr.slot j) ((step.store i).slot j)

theorem callStored_call (km : XkbKeymap) (hk : k.addr.canHold = true) (hok : SlotsOk fr)
    {f : XkbFilter} (hf : fr.state.filters[i]? = some f) {func : FilterFunc}
    (hfunc : f.func = some func) (dir : KeyDirection) :
    CallStored fr i (func.call (clearAllLatchesAndLocks km) fr f k dir) := by
  have hslot : SlotOk (func.call (clearAllLatchesAndLocks km) fr f k dir).filter :=
    slotOk_call (hok.slot (slot_of_func hf hfunc)) hfunc hk
  have hfoot := footprint_call (footprint_clearAllLatchesAndLocks km) func fr f k dir
  -- the array before the slot is written
  have hframe : SlotsOk (func.call (clearAllLatchesAndLocks km) fr f k dir).frame ∧
      Quiet fr (func.call (clearAllLatchesAndLocks km) fr f k dir).frame := by
    rcases call_cases (clearAllLatchesAndLocks km) func fr f k dir with
      heq | ⟨-, -, controls, -, -, heq⟩ <;> rw [heq]
    · have hfilters := (local_call func fr f k dir).filters
      exact ⟨hok.of_filters hfilters, .of_filters hfilters⟩
    · have hok' : SlotsOk (fr.setControls controls) := hok.mapComponents _
      obtain ⟨hok'', hquiet⟩ := quiet_clearAllLatchesAndLocks km hok'
      exact ⟨hok'', hquiet.length, hquiet.slot⟩
  generalize func.call (clearAllLatchesAndLocks km) fr f k dir = step at *
  obtain ⟨hok', hquiet⟩ := hframe
  have hlt := lt_of_lt_of_le (List.getElem?_eq_some_iff.mp hf).1 hquiet.length
  refine ⟨hok'.store hslot i, hfoot.setFilter i _, getElem?_set_self hlt, fun j hj => ?_⟩
  have hset : (step.store i).slot j = step.frame.slot j := by
    simp [FilterStep.store, Frame.slot, Frame.setFilter, Slots.busyAt, getElem?_set_ne (Ne.symm hj)]
  rw [hset]
  exact hquiet.slot j

/-- The slots ahead of the loop. -/
theorem CallStored.ahead {fr₀ : Frame} {step : FilterStep} (h : CallStored fr i step)
    (hahead : ∀ j, i ≤ j → QuietAt (fr₀.slot j) (fr.slot j)) :
    ∀ j, i + 1 ≤ j → QuietAt (fr₀.slot j) ((step.store i).slot j) :=
  fun j hj => (hahead j (by omega)).trans (h.other j (by omega))

theorem slotsOk_frameBefore (hok : SlotsOk fr) (hk : k.addr.canHold = true) (n : ℕ) :
    SlotsOk (frameBefore km k dir fr n) :=
  runFilters_invariant (fun _ _ _ _ h hf hfunc => (callStored_call km hk h hf hfunc dir).slotsOk)
    hok

theorem slotsOk_xkbFilterApplyAll (hok : SlotsOk fr) (hk : k.addr.canHold = true) :
    SlotsOk (xkbFilterApplyAll km fr k dir) :=
  applyAllWith_invariant (fun _ _ _ _ h hf hfunc => (callStored_call km hk h hf hfunc dir).slotsOk)
    (fun _ _ _ func _ _ h _ _ => h.startFilter hk _ func) hok

/-- The start of an event: nothing is set or cleared yet. -/
def Frame.resetMasks (fr : Frame) : Frame :=
  { fr with state := { fr.state with setMods := 0#32, clearMods := 0#32 } }

/-- The end of an event, after the filters. -/
def Frame.applyMasks (km : XkbKeymap) (fr : Frame) : Frame :=
  Frame.updateDerived km { fr with state := updateBaseMods fr.state }

theorem handleKey_eq :
    handleKey km fr k dir = (xkbFilterApplyAll km fr.resetMasks k dir).applyMasks km := rfl

/-- The depressed modifiers are not stored in the filter array. -/
theorem slotsOk_handleKey (hok : SlotsOk fr) (hk : k.addr.canHold = true) :
    SlotsOk (handleKey km fr k dir) := by
  have hok₀ : SlotsOk fr.resetMasks := hok
  rw [handleKey_eq]
  exact (slotsOk_xkbFilterApplyAll hok₀ hk).of_filters (updateBaseMods_filters _)

/-- A key event leaves the options of the state alone. -/
theorem handleKey_setup :
    (handleKey km fr k dir).state.flags = fr.state.flags ∧
      (handleKey km fr k dir).state.mode = fr.state.mode ∧
      (handleKey km fr k dir).state.outOfRangeGroup = fr.state.outOfRangeGroup := by
  have h := footprint_xkbFilterApplyAll km fr.resetMasks k dir
  rw [handleKey_eq]
  exact ⟨(updateBaseMods_flags _).trans h.flags, (updateBaseMods_mode _).trans h.mode,
    (updateBaseMods_outOfRangeGroup _).trans h.outOfRangeGroup⟩

/-- The controls after an update. -/
def updateControls (affect controls old : BitVec 32) : BitVec 32 :=
  (old &&& ~~~(affect &&& controlAllBoolean)) ||| (controls &&& (affect &&& controlAllBoolean))

/-- Whether an update of the controls disables the sticky keys. -/
def disablesSticky (affect controls old : BitVec 32) : Bool :=
  anyBit old controlStickyKeys && !anyBit (updateControls affect controls old) controlStickyKeys

theorem stateUpdateEnabledControls_eq {affect controls : BitVec 32} :
    stateUpdateEnabledControls km fr affect controls =
      (if disablesSticky affect controls fr.state.components.controls then
        clearAllLatchesAndLocks km
          (fr.setControls (updateControls affect controls fr.state.components.controls))
      else fr.setControls (updateControls affect controls fr.state.components.controls)
      ).updateDerived km := rfl

/-- **What `state_update_enabled_controls` leaves behind**: disabling the sticky keys
clears all latches and locks. -/
structure EnabledControlsEffect (km : XkbKeymap) (affect controls : BitVec 32)
    (fr fr' : Frame) : Prop where
  slotsOk : SlotsOk fr'
  quiet : Quiet fr fr'
  masks : SameMasks fr fr'
  setup : SameSetup fr fr'
  components : ∃ latched, fr'.state.components = deriveComponents km fr.state.outOfRangeGroup
    (if disablesSticky affect controls fr.state.components.controls then
      clearedComponents km
        { fr.state.components with
          controls := updateControls affect controls fr.state.components.controls } latched
    else
      { fr.state.components with
        controls := updateControls affect controls fr.state.components.controls })

theorem enabledControls_effect (km : XkbKeymap) (hok : SlotsOk fr) (affect controls : BitVec 32) :
    EnabledControlsEffect km affect controls fr
      (stateUpdateEnabledControls km fr affect controls) := by
  rw [stateUpdateEnabledControls_eq]
  generalize hnew : updateControls affect controls fr.state.components.controls = new
  have hok' : SlotsOk (fr.setControls new) := hok.mapComponents _
  by_cases hd : disablesSticky affect controls fr.state.components.controls = true
  · have hset := (footprint_clearAllLatchesAndLocks km (fr.setControls new)).setup
    obtain ⟨hok₁, hmasks, latched, hc⟩ := clearAll_effect km hok'
    have hq := (quiet_clearAllLatchesAndLocks km hok').2
    rw [if_pos hd]
    generalize clearAllLatchesAndLocks km (fr.setControls new) = fr₁ at *
    refine ⟨hok₁.mapComponents _, ⟨hq.1, hq.2⟩, ⟨hmasks.1, hmasks.2, hmasks.3⟩,
      ⟨hset.1, hset.2, hset.3, hset.4⟩, latched, ?_⟩
    rw [if_pos hd, hnew]
    show deriveComponents km fr₁.state.outOfRangeGroup fr₁.state.components = _
    rw [hc, hset.outOfRangeGroup]
    rfl
  · rw [if_neg hd]
    refine ⟨hok'.mapComponents _, .of_filters rfl, ⟨rfl, rfl, rfl⟩, ⟨rfl, rfl, rfl, rfl⟩, 0#32, ?_⟩
    rw [if_neg hd, hnew]
    rfl

/-- **What the deactivation of the sticky keys leaves behind**, if there is one. -/
structure AutoDisableEffect (dir : KeyDirection) (fr fr' : Frame) : Prop where
  slotsOk : SlotsOk fr'
  quiet : Quiet fr fr'
  masks : SameMasks fr fr'
  setup : SameSetup fr fr'
  baseMods : fr'.state.components.baseMods = fr.state.components.baseMods
  same : disablesStickyKeys fr.state dir = false → fr' = fr

theorem autoDisableStickyKeys_effect (km : XkbKeymap) (hok : SlotsOk fr) (dir : KeyDirection) :
    AutoDisableEffect dir fr (autoDisableStickyKeys km fr dir) := by
  unfold autoDisableStickyKeys
  split
  · rename_i hd
    have he := enabledControls_effect km hok controlStickyKeys 0#32
    refine ⟨he.slotsOk, he.quiet, he.masks, he.setup, ?_, fun h => absurd hd (by simp [h])⟩
    obtain ⟨latched, hc⟩ := he.components
    rw [hc, deriveComponents_baseMods]
    split <;> rfl
  · exact ⟨hok, .refl fr, .refl fr, ⟨rfl, rfl, rfl, rfl⟩, rfl, fun _ => rfl⟩

theorem slotsOk_updateComponents (hok : SlotsOk fr) (update : Option XkbStateComponentsUpdate) :
    SlotsOk (updateComponents km fr update) := by
  cases update with
  | none => exact hok
  | some update =>
    exact (latchedLocked_effect km (enabledControls_effect km hok _ _).slotsOk update).slotsOk

theorem slotsOk_applyStateUpdate {fr' : Frame} (hok : SlotsOk fr) {update : XkbStateUpdate}
    (h : applyStateUpdate km fr update = .ok fr') : SlotsOk fr' := by
  obtain ⟨range, -, rfl⟩ := exists_of_map_eq_ok h
  refine SlotsOk.mapComponents (slotsOk_updateComponents ?_ update.components) _
  exact hok

/-! ### Reachable states -/

/-- The structural facts about the slots of a server state. -/
def FiltersOk (s : XkbServerState) : Prop := ∀ f ∈ s.filters, SlotOk f

theorem FiltersOk.exec (h : FiltersOk s) (call : ServerCall) : FiltersOk (call.exec km s) := by
  have hok : SlotsOk ⟨s, none⟩ := h
  generalize heq : call.exec km s = s'
  cases ServerCall.executed heq with
  | kept | updateMask => exact h
  | updateKey hk =>
    exact slotsOk_handleKey (autoDisableStickyKeys_effect km hok _).slotsOk
      (canHold_of_keyOf (keyOf_of_eventKey hk))
  | updateLatchedLocked update => exact (latchedLocked_effect km hok update).slotsOk.mapComponents _
  | updateSynthetic hfr => exact slotsOk_applyStateUpdate hok hfr

/-- Every reachable server state keeps the structural facts. -/
theorem ServerReachable.filtersOk (h : ServerReachable km s) : FiltersOk s := by
  induction h with
  | init mode affect flags => exact fun f hf => absurd hf (by simp [xkbServerStateInit])
  | call c _ ih => exact ih.exec c

theorem filtersOk_processKeyEvents (config : MachineConfig) (previous : StateComponents)
    (h : FiltersOk s) (queue : List XkbEvent) (hk : k.addr.canHold = true) :
    FiltersOk (processKeyEvents km config previous s queue k dir).1 := by
  unfold processKeyEvents
  generalize doTweaks km config previous s.toXkbState queue k.key = tweak
  have hok : SlotsOk ⟨{ s with toXkbState := tweak.state }, some tweak.queue⟩ := h
  exact slotsOk_handleKey hok hk

theorem filtersOk_processResolvedKey (km : XkbKeymap) (h : FiltersOk sm.base)
    (overlays : MachineOverlays) (hk : k.addr.canHold = true) (dir : KeyDirection) :
    FiltersOk (processResolvedKey km sm overlays k dir).1.base := by
  have hok : SlotsOk ⟨sm.base, some []⟩ := h
  simp only [processResolvedKey, finishEvents_base]
  exact filtersOk_processKeyEvents _ _ (autoDisableStickyKeys_effect km hok dir).slotsOk _ hk

/-- Every reachable machine keeps the structural facts. -/
theorem MachineReachable.filtersOk (h : MachineReachable km sm) : FiltersOk sm.base := by
  induction h with
  | init builder => exact fun f hf => absurd hf (by simp [xkbMachineNew, xkbServerStateInit])
  | processKey kc dir _ hp ih =>
    obtain ⟨-, rfl, -⟩ | ⟨k, k', -, hk', heq⟩ := xkbMachineProcessKey_cases hp
    · exact ih
    · have hsm := congrArg Prod.fst heq
      dsimp only at hsm
      rw [← hsm]
      exact filtersOk_processResolvedKey km ih _ (canHold_of_derefKey hk') dir
  | processSynthetic update _ hp ih =>
    obtain ⟨fr, hfr, heq, -⟩ := xkbMachineProcessSynthetic_cases hp
    have hbase := congrArg (fun r => r.1.base) heq
    dsimp only at hbase
    rw [finishEvents_base] at hbase
    rw [← hbase]
    exact slotsOk_applyStateUpdate (show SlotsOk ⟨_, _⟩ from ih) hfr
  | call c _ ih => exact ih.exec c

/-! ### Runs of a legacy state -/

theorem autoDisableStickyKeys_of_not (h : disablesStickyKeys s dir = false)
    (events : Option (List XkbEvent)) : autoDisableStickyKeys km ⟨s, events⟩ dir = ⟨s, events⟩ :=
  if_neg (by simp [h])

/-- A key event and a request to latch or lock leave the options of a server state alone. -/
theorem exec_setup (h : FiltersOk s) {c : ServerCall} (hc : c.isKeyOrLatch = true) :
    (c.exec km s).flags = s.flags ∧ (c.exec km s).mode = s.mode ∧
      (c.exec km s).outOfRangeGroup = s.outOfRangeGroup := by
  have hok : SlotsOk ⟨s, none⟩ := h
  generalize heq : c.exec km s = s'
  cases ServerCall.executed heq with
  | kept => exact ⟨rfl, rfl, rfl⟩
  | @updateKey kc dir k hk =>
    have hset := (autoDisableStickyKeys_effect km hok dir).setup
    obtain ⟨hflags, hmode, hrange⟩ := handleKey_setup
    exact ⟨hflags.trans hset.flags, hmode.trans hset.mode, hrange.trans hset.outOfRangeGroup⟩
  | updateLatchedLocked update =>
    have hfoot := footprint_stateUpdateLatchedLocked km ⟨s, none⟩ update
    exact ⟨hfoot.flags, hfoot.mode, hfoot.outOfRangeGroup⟩
  | updateMask | updateSynthetic => exact absurd hc Bool.false_ne_true

theorem keyRun_setup {es : List (ℕ × KeyDirection)} :
    (keyRun km m es).flags = (legacyStateNew km m).flags ∧ (keyRun km m es).mode = m.mode := by
  induction es using reverseRecOn with
  | nil => exact ⟨rfl, rfl⟩
  | append_singleton es e ih =>
    rw [keyRun_append_singleton]
    obtain ⟨hflags, hmode, -⟩ :=
      exec_setup (serverReachable_keyRun km m).filtersOk (c := .updateKey e.1 e.2) rfl
    exact ⟨hflags.trans ih.1, hmode.trans ih.2⟩

/-- A legacy state never deactivates the sticky keys on its own. -/
theorem disablesStickyKeys_of_flags (h : s.flags = (legacyStateNew km m).flags) :
    disablesStickyKeys s dir = false := by
  have hflags : anyBit s.flags a11yStickyKeysNoSimultaneousKeys = false := by
    rw [h, legacyStateNew, xkbServerStateInit]
    dsimp only
    split <;> decide
  simp [disablesStickyKeys, hflags]

theorem disablesStickyKeys_keyRun (km : XkbKeymap) (m : LegacyMode)
    (es : List (ℕ × KeyDirection)) (dir : KeyDirection) :
    disablesStickyKeys (keyRun km m es) dir = false := disablesStickyKeys_of_flags keyRun_setup.1

/-- **A key event of a legacy state**: an ignored key does nothing, and any other is
handled. -/
theorem updateKey_keyRun (km : XkbKeymap) (m : LegacyMode) (es : List (ℕ × KeyDirection)) (kc : ℕ)
    (dir : KeyDirection) :
    xkbStateUpdateKey km (keyRun km m es) kc dir = match eventKey km kc dir with
      | none => (keyRun km m es, 0#32)
      | some k =>
        ((handleKey km ⟨keyRun km m es, none⟩ k dir).state,
          getStateComponentChanges (keyRun km m es).components
            (handleKey km ⟨keyRun km m es, none⟩ k dir).state.components) := by
  have hserver : ¬(keyRun km m es).isServer = false := by
    rw [XkbState.isServer, keyRun_setup.2]
    cases m <;> decide
  rewrite [xkbStateUpdateKey, if_neg hserver,
    autoDisableStickyKeys_of_not (disablesStickyKeys_keyRun km m es dir)]
  rfl

theorem serverRun_setup (hcs : ∀ c ∈ cs, c.isKeyOrLatch = true) :
    (serverRun km m cs).flags = (legacyStateNew km m).flags ∧
      (serverRun km m cs).mode = m.mode ∧ (serverRun km m cs).outOfRangeGroup = {} := by
  induction cs using reverseRecOn with
  | nil => exact ⟨rfl, rfl, rfl⟩
  | append_singleton cs c ih =>
    obtain ⟨hflags, hmode, hrange⟩ := ih fun c hc => hcs c (mem_append_left _ hc)
    rw [serverRun_append_singleton]
    obtain ⟨hf, hm, hr⟩ :=
      exec_setup (serverReachable_serverRun km m cs).filtersOk (hcs c (by simp))
    exact ⟨hf.trans hflags, hm.trans hmode, hr.trans hrange⟩

/-- **What the handling of a key and a request to latch or lock keep holds along every run** of
such calls. The key events of the run are those of its prefixes. -/
theorem serverRun_invariant {P : XkbServerState → Prop} (hcs : ∀ c ∈ cs, c.isKeyOrLatch = true)
    (hnew : P (legacyStateNew km m))
    (hkey : ∀ {pre kc dir k}, pre ++ [.updateKey kc dir] <+: cs → eventKey km kc dir = some k →
      P (serverRun km m pre) → P (handleKey km ⟨serverRun km m pre, none⟩ k dir).state)
    (hlatch : ∀ {pre} update, P (serverRun km m pre) →
      P ((stateUpdateLatchedLocked km ⟨serverRun km m pre, none⟩ update).updateDerived km).state) :
    P (serverRun km m cs) := by
  induction cs using reverseRecOn with
  | nil => exact hnew
  | append_singleton cs c ih =>
    have hcs' : ∀ c ∈ cs, c.isKeyOrLatch = true := fun c hc => hcs c (mem_append_left _ hc)
    have ih := ih hcs' fun hpre => hkey (hpre.trans (prefix_append _ _))
    have hc := hcs c (by simp)
    rw [serverRun_append_singleton]
    generalize heq : c.exec km (serverRun km m cs) = s'
    cases ServerCall.executed heq with
    | kept => exact ih
    | @updateKey kc dir k hk =>
      rw [autoDisableStickyKeys_of_not (disablesStickyKeys_of_flags (serverRun_setup hcs').1)]
      exact hkey (prefix_refl _) hk ih
    | updateLatchedLocked update => exact hlatch update ih
    | updateMask | updateSynthetic => exact absurd hc Bool.false_ne_true

end Xkbcommon
