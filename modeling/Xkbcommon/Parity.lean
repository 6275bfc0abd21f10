import Xkbcommon.Companion

/-!
# The legacy calls and the machine agree

`xkb_state_update_key` and `xkb_machine_process_key` drive the same filters, the one
without an event queue and the other with one. Only redirections look at the queue, and
no filter looks at the mode of the state; so running the filters commutes with exchanging
both (`Xkbcommon.Frame.reframe`). For a keymap without redirections and overlays, the two
calls therefore go in lockstep, over runs of any length
(`Xkbcommon.legacy_machine_agree`).
-/

namespace Xkbcommon

open Masks List FilterFunc FilterStep XkbServerState

variable {func : FilterFunc} {fr : Frame} {sm : XkbMachine} {s : XkbServerState} {f : XkbFilter}
  {k : KeyRef} {a : XkbAction} (km : XkbKeymap) {i : ℕ} {key : XkbKey} {state : XkbState}
  {es : List (ℕ × KeyDirection)} {previous : StateComponents} {queue : List XkbEvent}

/-- The same frame with another mode and another queue. -/
def Frame.reframe (mode : StateMode) (events : Option (List XkbEvent)) (fr : Frame) : Frame :=
  ⟨{ fr.state with mode := mode }, events⟩

def FilterStep.reframe (mode : StateMode) (events : Option (List XkbEvent)) (step : FilterStep) :
    FilterStep := { step with frame := step.frame.reframe mode events }

/-! ### Frames without redirections -/

/-- No filter of the array is a redirection. -/
def NoRedirect (fr : Frame) : Prop := ∀ f ∈ fr.state.filters, f.func ≠ some .redirectKey

theorem NoRedirect.mapComponents (h : NoRedirect fr) (g : StateComponents → StateComponents) :
    NoRedirect (fr.mapComponents g) := h

theorem NoRedirect.store {step : FilterStep} (h : NoRedirect step.frame)
    (hf : step.filter.func ≠ some .redirectKey) (i : ℕ) : NoRedirect (step.store i) := by
  intro f hmem
  rcases mem_or_eq_of_mem_set hmem with hmem | rfl
  · exact h f hmem
  · exact hf

theorem NoRedirect.startFilter (h : NoRedirect fr) (key : KeyAddr) (action : XkbAction)
    (hfunc : func ≠ .redirectKey) : NoRedirect (fr.startFilter key action func).1 := by
  obtain ⟨f₀, -, -, hf₀, -, heq⟩ := startFilter_eq fr key func
  rw [heq]
  intro f hf
  rcases Slots.mem_put hf with hf | rfl
  · exact h f hf
  · exact (start_writes func fr hf₀).func_ne_redirectKey hfunc

/-- The filter of a slot is no redirection. -/
theorem NoRedirect.func_ne (h : NoRedirect fr) (hf : fr.state.filters[i]? = some f)
    (hfunc : f.func = some func) : func ≠ .redirectKey := by
  rintro rfl
  exact h f (mem_of_getElem? hf) hfunc

/-- A filter call makes no redirection, if the clearing of the latches makes none. -/
theorem NoRedirect.call_store {clearAll : Frame → Frame}
    (hclear : ∀ fr, NoRedirect fr → NoRedirect (clearAll fr)) (h : NoRedirect fr)
    (hf : fr.state.filters[i]? = some f) (hfunc : f.func = some func) (k : KeyRef)
    (dir : KeyDirection) : NoRedirect ((func.call clearAll fr f k dir).store i) := by
  refine NoRedirect.store ?_ (call_func_ne hfunc (h.func_ne hf hfunc)) i
  rcases call_cases clearAll func fr f k dir with heq | ⟨-, -, controls, -, -, heq⟩ <;> rw [heq]
  · intro g hg
    rw [(local_call func fr f k dir).filters] at hg
    exact h g hg
  · exact hclear (fr.setControls controls) h

theorem NoRedirect.tapLatch (h : NoRedirect fr) (ha : TapAction a func) :
    NoRedirect (fr.tapLatch a func) := by
  have hput : ∀ (f : XkbFilter) (fr' : Frame), f.func ≠ some .redirectKey →
      fr'.state.filters = Slots.put fr.state.filters
        (Slots.firstFree XkbFilter.busy fr.state.filters) f → NoRedirect fr' := by
    intro f fr' hf heq g hg
    rw [heq] at hg
    rcases Slots.mem_put hg with hg | rfl
    · exact h g hg
    · exact hf
  cases ha with
  | mod mask =>
    obtain ⟨f, -, hfunc, -, -, -, heq⟩ := tapLatch_mod mask
    rw [heq]
    exact hput f _ (by simp [hfunc]) rfl
  | group group =>
    obtain ⟨f, delta, -, -, hfunc, -, -, -, heq⟩ := tapLatch_group group
    rw [heq]
    exact hput f _ (by simp [hfunc]) rfl

theorem NoRedirect.press (h : NoRedirect fr) (addr : KeyAddr) (flags clear : BitVec 32) :
    NoRedirect (xkbFilterPress km fr (syntheticBreakKey addr flags clear)) := by
  rw [xkbFilterPress_syntheticBreakKey]
  exact runFilters_invariant
    (fun i fr f func h hf hfunc => h.call_store (fun _ h => h) hf hfunc _ .down) h

theorem NoRedirect.updateLatchModifiers (h : NoRedirect fr) (mask latches : BitVec 32) :
    NoRedirect (updateLatchModifiers km fr mask latches) :=
  ((h.mapComponents _).press km _ _ _).tapLatch (.mod _)

theorem NoRedirect.clearAll (h : NoRedirect fr) : NoRedirect (clearAllLatchesAndLocks km fr) :=
  latchedLocked_invariant (fun _ h => h) (fun _ _ h => h)
    (fun k _ _ _ _ _ h hf hfunc => h.call_store (fun _ h => h) hf hfunc k .down)
    (fun _ _ _ ha _ h => h.tapLatch ha) h

section Reframe

variable {m : StateMode} {q : Option (List XkbEvent)} {mask : BitVec 32} {action : XkbAction}

/-! What the filters look at is the same. -/

theorem reframe_components : (fr.reframe m q).state.components = fr.state.components := rfl

theorem reframe_flags : (fr.reframe m q).state.flags = fr.state.flags := rfl

theorem xkbKeyGetActions_reframe (key : XkbKey) :
    xkbKeyGetActions (fr.reframe m q).state.toXkbState key =
      xkbKeyGetActions fr.state.toXkbState key := rfl

/-! Every change of a frame commutes with it. -/

theorem reframe_mapComponents (g : StateComponents → StateComponents) :
    (fr.mapComponents g).reframe m q = (fr.reframe m q).mapComponents g := rfl

theorem reframe_addSetMods :
    (fr.addSetMods mask).reframe m q = (fr.reframe m q).addSetMods mask := rfl

theorem reframe_addClearMods :
    (fr.addClearMods mask).reframe m q = (fr.reframe m q).addClearMods mask := rfl

theorem reframe_mk (result : FilterResult) :
    reframe m q ⟨fr, f, result⟩ = ⟨fr.reframe m q, f, result⟩ := rfl

/-! ### One filter -/

/-- Starting an action other than a redirection. -/
theorem start_reframe (h : func ≠ .redirectKey) (fr : Frame) (f : XkbFilter) :
    func.start (fr.reframe m q) f = Prod.map (Frame.reframe m q) id (func.start fr f) := by
  cases func with
  | redirectKey => exact absurd rfl h
  | groupSet | groupLatch => rfl
  | modSet | groupLock | ctrls =>
    simp only [start, xkbFilterModSetNew, xkbFilterGroupLockNew, xkbFilterCtrlsNew,
      apply_ite (Prod.map (Frame.reframe m q) id), Prod.map_apply, id,
      apply_ite (Frame.reframe m q), reframe_mapComponents, reframe_addSetMods, reframe_components]
  | modLatch | modLock =>
    simp only [start, xkbFilterModLockNew, xkbFilterModLatchNew,
      apply_ite (Prod.map (Frame.reframe m q) id), Prod.map_apply, id,
      apply_ite (Frame.reframe m q), reframe_mapComponents, reframe_addSetMods]
    rfl

theorem countedSwitch_reframe {dir : KeyDirection} {ending ending' : XkbFilter → FilterStep}
    (h : ∀ f, ending' f = (ending f).reframe m q) :
    countedSwitch (fr.reframe m q) f dir ending' = (countedSwitch fr f dir ending).reframe m q := by
  cases dir with
  | down => rfl
  | repeated => rfl
  | up =>
    unfold countedSwitch
    dsimp only
    split
    · rfl
    · exact h _

/-- **A filter other than a redirection does not look at the mode or the queue.** -/
theorem call_reframe {clearAll : Frame → Frame} (h : func ≠ .redirectKey)
    (hclear : ∀ controls, clearAll ((fr.setControls controls).reframe m q) =
      (clearAll (fr.setControls controls)).reframe m q)
    {dir : KeyDirection} :
    func.call clearAll (fr.reframe m q) f k dir = (func.call clearAll fr f k dir).reframe m q := by
  cases func with
  | modSet | modLock | groupSet | groupLock =>
    simp only [call, xkbFilterModSetFunc, xkbFilterModLockFunc, xkbFilterGroupSetFunc,
      xkbFilterGroupLockFunc]
    split
    · first | rfl | (split <;> rfl)
    · refine countedSwitch_reframe fun f => ?_
      first | rfl | (split <;> rfl)
  | ctrls =>
    simp only [call, xkbFilterCtrlsFunc]
    split
    · rfl
    · refine countedSwitch_reframe fun f => ?_
      have hc : clearAll ((fr.reframe m q).mapComponents fun c =>
          { c with controls := c.controls &&& ~~~f.priv }) = _ :=
        hclear (fr.state.components.controls &&& ~~~f.priv)
      simp only [reframe_mk, apply_ite (Frame.reframe m q), hc]
      rfl
  | modLatch =>
    have hpromote : promoteModLatch (fr.reframe m q) f =
        Prod.map (Frame.reframe m q) id (promoteModLatch fr f) := by
      have hlock := start_reframe (m := m) (q := q) (show modLock ≠ _ by decide) fr
      have hset := start_reframe (m := m) (q := q) (show modSet ≠ _ by decide) fr
      simp only [start] at hlock hset
      simp only [promoteModLatch, apply_ite (Prod.map (Frame.reframe m q) id), hlock, hset]
    rcases hp : promoteModLatch fr f with ⟨fr₁, f₁⟩
    simp only [call, xkbFilterModLatchFunc, reframe_components, reframe_flags,
      xkbKeyGetActions_reframe, hpromote, hp, Prod.map_apply, id]
    cases dir with
    | repeated => rfl
    | down =>
      cases modLatchVerdict f.action.mods (anyBit fr.state.components.controls controlStickyKeys)
          (xkbKeyGetActions fr.state.toXkbState k.key) <;>
      · simp only [apply_ite (reframe m q), reframe_mk]
        rfl
    | up =>
      simp only [apply_ite (reframe m q), apply_ite (Frame.reframe m q),
        reframe_mk, reframe_mapComponents, reframe_addClearMods]
      rfl
  | groupLatch =>
    have hlock := start_reframe (m := m) (q := q) (show groupLock ≠ _ by decide) fr
    simp only [start] at hlock
    rcases hp : xkbFilterGroupLockNew fr
      { f with action.type := .groupLock, func := some .groupLock } with ⟨fr₁, f₁⟩
    simp only [call, xkbFilterGroupLatchFunc, reframe_components, reframe_flags,
      xkbKeyGetActions_reframe, hlock, hp, Prod.map_apply, id]
    cases dir with
    | repeated => rfl
    | down =>
      cases groupLatchVerdict f.action.group
          (anyBit fr.state.components.controls controlStickyKeys)
          (xkbKeyGetActions fr.state.toXkbState k.key) <;>
      · simp only [apply_ite (reframe m q), reframe_mk]
        rfl
    | up =>
      simp only [apply_ite (reframe m q), reframe_mk, reframe_mapComponents]
      rfl
  | redirectKey => exact absurd rfl h

/-! ### Whole events -/

theorem startFilter_reframe (h : func ≠ .redirectKey) {key : KeyAddr} :
    (fr.reframe m q).startFilter key action func =
      Prod.map (Frame.reframe m q) id (fr.startFilter key action func) := by
  unfold Frame.startFilter
  dsimp only
  rw [start_reframe h]
  rfl

theorem startAction_reframe (ha : a.type ≠ .redirectKey) :
    startAction km k (fr.reframe m q) a = (startAction km k fr a).reframe m q := by
  rw [startAction_eq, startAction_eq]
  have hresolve : resolveAction km (fr.reframe m q).state a = resolveAction km fr.state a := rfl
  rw [hresolve]
  cases hfunc : (resolveAction km fr.state a).type.filterFunc with
  | none => rfl
  | some func =>
    have hne : func ≠ .redirectKey := by
      rintro rfl
      exact ha (resolveAction_redirectKey hfunc).1
    exact congrArg Prod.fst (startFilter_reframe hne)

section Loops

variable {clearAll : Frame → Frame}
    (hclear : ∀ fr, NoRedirect fr →
      clearAll (fr.reframe m q) = (clearAll fr).reframe m q)
    (hkeep : ∀ fr, NoRedirect fr → NoRedirect (clearAll fr))

include hclear hkeep

theorem runFilters_reframe {dir : KeyDirection} (fuel i : ℕ) (h : NoRedirect fr) (c : Bool) :
    runFilters clearAll k dir fuel i (fr.reframe m q) c =
      Prod.map (Frame.reframe m q) id (runFilters clearAll k dir fuel i fr c) := by
  induction fuel generalizing i fr c with
  | zero => rfl
  | succ fuel ih =>
    unfold runFilters
    have hget : (fr.reframe m q).state.filters[i]? = fr.state.filters[i]? := rfl
    rw [hget]
    cases hf : fr.state.filters[i]? with
    | none => rfl
    | some f =>
      dsimp only
      unfold runFilter
      cases hfunc : f.func with
      | none => exact ih (i + 1) h c
      | some func =>
        dsimp only
        rw [call_reframe (h.func_ne hf hfunc) fun controls => hclear _ h]
        exact ih (i + 1) (h.call_store hkeep hf hfunc k dir) _

theorem applyAllWith_reframe (h : NoRedirect fr)
    (hk : ∀ state, ∀ a ∈ xkbKeyGetActions state k.key, a.type ≠ .redirectKey) {dir : KeyDirection} :
    xkbFilterApplyAllWith clearAll km (fr.reframe m q) k dir =
      (xkbFilterApplyAllWith clearAll km fr k dir).reframe m q := by
  unfold xkbFilterApplyAllWith
  have hlen : (fr.reframe m q).state.filters.length = fr.state.filters.length := rfl
  rw [hlen, runFilters_reframe hclear hkeep _ 0 h]
  rcases runFilters clearAll k dir (3 * fr.state.filters.length) 0 fr false with ⟨fr₁, consumed⟩
  dsimp only [Prod.map_apply, id]
  split
  · rfl
  · rw [xkbKeyGetActions_reframe]
    have hactions := hk fr₁.state.toXkbState
    generalize xkbKeyGetActions fr₁.state.toXkbState k.key = actions at hactions
    induction actions generalizing fr₁ with
    | nil => rfl
    | cons a actions ih =>
      rw [foldl_cons, foldl_cons, startAction_reframe km (hactions a mem_cons_self)]
      exact ih _ fun b hb => hactions b (mem_cons_of_mem a hb)

end Loops

/-! ### Latches out of band -/

theorem tapLatch_reframe (h : func ≠ .redirectKey) :
    (fr.reframe m q).tapLatch action func = (fr.tapLatch action func).reframe m q := by
  have hid : ∀ (fr : Frame) (controls : BitVec 32),
      id ((fr.setControls controls).reframe m q) =
        (id (fr.setControls controls)).reframe m q := fun _ _ => rfl
  unfold Frame.tapLatch
  dsimp only
  rw [startFilter_reframe h]
  exact congrArg (store · _) (call_reframe h (hid _))

theorem press_reframe (h : NoRedirect fr) (addr : KeyAddr) (flags clear : BitVec 32) :
    xkbFilterPress km (fr.reframe m q) (syntheticBreakKey addr flags clear) =
      (xkbFilterPress km fr (syntheticBreakKey addr flags clear)).reframe m q := by
  have hid : ∀ fr : Frame, NoRedirect fr →
      id (fr.reframe m q) = (id fr).reframe m q := fun _ _ => rfl
  refine applyAllWith_reframe km hid (fun _ h => h) h ?_
  intro state a ha
  rw [xkbKeyGetActions_syntheticBreakKey, mem_singleton] at ha
  simp [ha]

theorem updateLatchModifiers_reframe (h : NoRedirect fr) (mask latches : BitVec 32) :
    updateLatchModifiers km (fr.reframe m q) mask latches =
      (updateLatchModifiers km fr mask latches).reframe m q := by
  unfold updateLatchModifiers
  dsimp only
  rw [← reframe_mapComponents, press_reframe km (h.mapComponents _), tapLatch_reframe (by simp)]

theorem updateLatchGroup_reframe (h : NoRedirect fr) (group : BitVec 32) :
    updateLatchGroup km (fr.reframe m q) group = (updateLatchGroup km fr group).reframe m q := by
  unfold updateLatchGroup
  dsimp only
  rw [press_reframe km h, tapLatch_reframe (by simp)]

theorem clearAll_reframe (h : NoRedirect fr) :
    clearAllLatchesAndLocks km (fr.reframe m q) = (clearAllLatchesAndLocks km fr).reframe m q := by
  have hbit : anyBit clearAllUpdate.components xkbStateLayoutLatched = true := by decide
  have h₁ := h.mapComponents (updateLocks km clearAllUpdate)
  unfold clearAllLatchesAndLocks stateUpdateLatchedLocked
  dsimp only
  rw [if_pos hbit, if_pos hbit, ← reframe_mapComponents,
    updateLatchModifiers_reframe km h₁, ← apply_ite (Frame.reframe m q), updateLatchGroup_reframe]
  split
  · exact h₁
  · exact h₁.updateLatchModifiers km _ _

end Reframe

/-! ### Key events -/

/-- The mode of a state is replaced. -/
def XkbServerState.setMode (mode : StateMode) (s : XkbServerState) : XkbServerState :=
  { s with mode := mode }

theorem updateBaseMods_setMode (mode : StateMode) :
    updateBaseMods (s.setMode mode) = (updateBaseMods s).setMode mode := by
  have hset : ∀ (s : XkbServerState) (i : Fin 32),
      setModsStep (s.setMode mode) i = (setModsStep s i).setMode mode := by
    intro s i
    rw [setModsStep, setModsStep, apply_ite (setMode mode)]
    rfl
  have hclear : ∀ (s : XkbServerState) (i : Fin 32),
      clearModsStep (s.setMode mode) i = (clearModsStep s i).setMode mode := by
    intro s i
    rw [clearModsStep, clearModsStep, apply_ite (setMode mode)]
    rfl
  unfold updateBaseMods
  rw [foldl_hom (setMode mode) hset, foldl_hom (setMode mode) hclear]

/-- The actions of a key, in every state, are those of its levels. -/
theorem mem_levels_of_mem_actions (h : a ∈ xkbKeyGetActions state key) :
    a = dummyAction ∨ ∃ group ∈ key.groups, ∃ level ∈ group.levels, a ∈ level.actions := by
  have hlevel : ∀ layout level, a ∈ xkbKeymapKeyGetActionsByLevel key layout level →
      ∃ group ∈ key.groups, ∃ level ∈ group.levels, a ∈ level.actions := by
    intro layout level h
    unfold xkbKeymapKeyGetActionsByLevel at h
    split at h
    · simp at h
    · split at h
      · simp at h
      · rename_i group hgroup
        split at h
        · simp at h
        · cases hl : group.levels[level]? with
          | none => simp [hl] at h
          | some l =>
            refine ⟨group, mem_of_getElem? hgroup, l, mem_of_getElem? hl, ?_⟩
            simpa [hl] using h
  unfold xkbKeyGetActions at h
  split at h
  · exact .inl (by simpa using h)
  · split at h
    · exact .inl (by simpa using h)
    · split at h
      · exact .inl (by simpa using h)
      · rename_i heq
        exact .inr (hlevel _ _ (heq ▸ h))

/-- The actions of a key are no redirections, in any state. -/
def XkbKey.NoRedirectActions (key : XkbKey) : Prop :=
  ∀ group ∈ key.groups, ∀ level ∈ group.levels, ∀ a ∈ level.actions, a.type ≠ .redirectKey

instance (key : XkbKey) : Decidable key.NoRedirectActions :=
  inferInstanceAs (Decidable (∀ group ∈ key.groups, ∀ level ∈ group.levels, ∀ a ∈ level.actions,
    a.type ≠ .redirectKey))

theorem XkbKey.NoRedirectActions.type_ne (h : key.NoRedirectActions)
    (ha : a ∈ xkbKeyGetActions state key) : a.type ≠ .redirectKey := by
  rcases mem_levels_of_mem_actions ha with rfl | ⟨group, hg, level, hl, ha⟩
  · decide
  · exact h group hg level hl a ha

/-- **Handling a key commutes with exchanging the mode and the queue.** -/
theorem handleKey_reframe (m : StateMode) (q : Option (List XkbEvent)) (h : NoRedirect fr)
    (hk : k.key.NoRedirectActions) {dir : KeyDirection} :
    handleKey km (fr.reframe m q) k dir = (handleKey km fr k dir).reframe m q := by
  have hreset : NoRedirect fr.resetMasks := h
  have happly : xkbFilterApplyAll km (fr.resetMasks.reframe m q) k dir =
      (xkbFilterApplyAll km fr.resetMasks k dir).reframe m q :=
    applyAllWith_reframe km (fun fr h => clearAll_reframe km h)
      (fun fr h => h.clearAll km) hreset (fun state a ha => hk.type_ne ha)
  have hmasks : ∀ fr : Frame, (fr.reframe m q).applyMasks km = (fr.applyMasks km).reframe m q := by
    intro fr
    unfold Frame.applyMasks
    rw [show updateBaseMods (fr.reframe m q).state = _ from
      updateBaseMods_setMode m]
    rfl
  rw [handleKey_eq, handleKey_eq, ← hmasks, ← happly]
  rfl

/-- A key event makes no redirection. -/
theorem NoRedirect.handleKey (h : NoRedirect fr) (hk : k.key.NoRedirectActions)
    (dir : KeyDirection) : NoRedirect (handleKey km fr k dir) := by
  have hreset : NoRedirect fr.resetMasks := h
  have happly : NoRedirect (xkbFilterApplyAll km fr.resetMasks k dir) := by
    refine applyAllWith_invariant
      (fun i fr f func h hf hfunc =>
        h.call_store (fun fr h => h.clearAll km) hf hfunc k dir) ?_ hreset
    intro fr₁ fr' a func _ _ h' ha hfunc
    refine h'.startFilter _ _ ?_
    rintro rfl
    exact hk.type_ne ha (resolveAction_redirectKey hfunc).1
  rw [handleKey_eq]
  intro f hf
  exact happly f (by simpa [Frame.applyMasks, Frame.updateDerived, Frame.mapComponents] using hf)

/-! ### Runs -/

/-- A run of key events on a machine with the default configuration; `none` if an overlay
has no target. -/
def machineRun (km : XkbKeymap) (es : List (ℕ × KeyDirection)) : Option XkbMachine :=
  es.foldl (fun sm e => sm.bind fun sm => (xkbMachineProcessKey km sm e.1 e.2).map Prod.fst)
    (some (xkbMachineNew km {}))

/-- **The machine simulates the legacy state**: the same state but for its mode, with the
default configuration. -/
structure Agrees (s : XkbServerState) (sm : XkbMachine) : Prop where
  base : sm.base = s.setMode .serverState
  config : sm.config = {}
  noRedirect : NoRedirect ⟨s, none⟩

theorem agrees_new {m : LegacyMode} : Agrees (legacyStateNew km m) (xkbMachineNew km {}) := by
  refine ⟨rfl, ?_, fun f hf => absurd hf (by simp [legacyStateNew, xkbServerStateInit])⟩
  simp [xkbMachineNew, machineSetMods, machineSetShortcuts, trimTargets]

/-- The batch of a key event: the key, and the components if a mask says that some have
changed. -/
def keyBatch (kc : ℕ) (dir : KeyDirection) (components : StateComponents) (changed : BitVec 32) :
    List XkbEvent :=
  .key dir kc :: if changed = 0#32 then [] else [.componentsChange components changed]

theorem doTweaks_default : doTweaks km {} previous state queue key = ⟨state, queue, none⟩ := by
  simp [doTweaks, doRemapModifiers, remappedModifiers, doShortcutsTweak, shortcutTarget]

theorem finishEvents_config : (finishEvents km previous sm queue).1.config = sm.config := by
  simp only [finishEvents]
  split
  · rfl
  · dsimp only
    split <;> rfl

/-- With the default configuration, a machine handles a key as the legacy state does. -/
theorem Agrees.processKeyEvents (h : Agrees s sm) (hk : k.key.NoRedirectActions)
    (dir : KeyDirection) :
    processKeyEvents km sm.config s.components sm.base [] k dir =
      ((handleKey km ⟨s, none⟩ k dir).state.setMode .serverState, [.key dir k.key.keycode]) := by
  unfold Xkbcommon.processKeyEvents
  rw [h.config, doTweaks_default, h.base]
  have hframe : handleKey km ⟨s.setMode .serverState, some []⟩ k dir = _ :=
    handleKey_reframe km .serverState (some []) h.noRedirect hk
  dsimp only
  rw [show ({ s.setMode .serverState with toXkbState := (s.setMode .serverState).toXkbState } :
    XkbServerState) = s.setMode .serverState from rfl, hframe]
  rfl

/-- The machine and the batch after a key, in the terms of the legacy state. -/
theorem Agrees.processResolvedKey (h : Agrees s sm) (hk : k.key.NoRedirectActions)
    {dir : KeyDirection} (hlegacy : disablesStickyKeys s dir = false) :
    let s' := (handleKey km ⟨s, none⟩ k dir).state
    let r := processResolvedKey km sm sm.overlays k dir
    r.1.base = s'.setMode .serverState ∧ r.1.config = {} ∧
      r.2.queue = keyBatch k.key.keycode dir s'.components
        (getStateComponentChanges s.components s'.components) := by
  intro s' r
  have hsticky : Xkbcommon.disablesStickyKeys sm.base dir = false := by
    rw [h.base]
    exact hlegacy
  have hcomponents : sm.base.components = s.components := by rw [h.base]; rfl
  have hr : r = Xkbcommon.processResolvedKey km sm sm.overlays k dir := rfl
  unfold Xkbcommon.processResolvedKey at hr
  rw [autoDisableStickyKeys_of_not hsticky, hcomponents] at hr
  dsimp only [Option.getD_some] at hr
  rw [h.processKeyEvents km hk] at hr
  rw [hr]
  refine ⟨finishEvents_base .., (finishEvents_config ..).trans h.config, ?_⟩
  dsimp only
  rw [finishEvents_queue]
  refine congrArg (XkbEvent.key dir k.key.keycode :: ·) ?_
  show changeEvents s.components s'.components = _
  unfold changeEvents
  simp only [getStateComponentChanges_eq_zero_iff]

/-- **One key event keeps the agreement**, and its batch is the key with the reported
change. -/
theorem Agrees.step {km : XkbKeymap} (hoverlays : ∀ key ∈ km.keys, key.overlays = 0#8)
    (hredirect : ∀ key ∈ km.keys, key.NoRedirectActions) {m : LegacyMode}
    (h : Agrees (keyRun km m es) sm) (kc : ℕ) (dir : KeyDirection) :
    ∃ sm' events, xkbMachineProcessKey km sm kc dir = some (sm', events) ∧
      Agrees (xkbStateUpdateKey km (keyRun km m es) kc dir).1 sm' ∧
      events.queue = if (eventKey km kc dir).isSome then
        keyBatch kc dir sm'.base.components (xkbStateUpdateKey km (keyRun km m es) kc dir).2
      else [] := by
  have hlegacy := disablesStickyKeys_keyRun km m es dir
  rw [updateKey_keyRun]
  unfold xkbMachineProcessKey
  generalize keyRun km m es = s at *
  cases hk : eventKey km kc dir with
  | none => exact ⟨sm, {}, rfl, h, rfl⟩
  | some k =>
    obtain ⟨hmem, hkc, hderef⟩ := keyOf_spec (keyOf_of_eventKey hk)
    have hover : overlaidKey sm.overlays k dir = (sm.overlays, k.addr) :=
      if_pos (hoverlays k.key hmem)
    obtain ⟨hbase, hconfig, hqueue⟩ := h.processResolvedKey km (hredirect k.key hmem) hlegacy
    dsimp only
    rw [hover, hderef, Option.map_some]
    generalize Xkbcommon.processResolvedKey km sm sm.overlays k dir = r at hbase hconfig hqueue ⊢
    refine ⟨r.1, r.2, rfl, ⟨hbase, hconfig, ?_⟩, ?_⟩
    · exact h.noRedirect.handleKey km (hredirect k.key hmem) dir
    · rw [hqueue, hkc, hbase]
      rfl

/-- **Along every run of key events, the machine and the legacy state agree.** -/
theorem Agrees.run {km : XkbKeymap} (hoverlays : ∀ key ∈ km.keys, key.overlays = 0#8)
    (hredirect : ∀ key ∈ km.keys, key.NoRedirectActions) (m : LegacyMode)
    (es : List (ℕ × KeyDirection)) :
    ∃ sm, machineRun km es = some sm ∧ Agrees (keyRun km m es) sm := by
  induction es using reverseRecOn with
  | nil => exact ⟨_, rfl, agrees_new km⟩
  | append_singleton es e ih =>
    obtain ⟨sm, hrun, hagrees⟩ := ih
    obtain ⟨sm', events, hstep, hagrees', -⟩ := hagrees.step hoverlays hredirect e.1 e.2
    refine ⟨sm', ?_, ?_⟩
    · rw [machineRun, foldl_append, ← machineRun, hrun, foldl_cons, Option.bind_some, hstep]
      rfl
    · rw [keyRun_append_singleton]
      exact hagrees'

/-- The components, the modifier counters and the filters of a machine are those of a
server state. -/
structure SameCore (s : XkbServerState) (sm : XkbMachine) : Prop where
  components : sm.base.components = s.components
  modKeyCount : sm.base.modKeyCount = s.modKeyCount
  filters : sm.base.filters = s.filters

theorem Agrees.sameCore (h : Agrees s sm) : SameCore s sm := by
  constructor <;> rw [h.base] <;> rfl

/-- **The legacy call and the machine agree**: for a keymap without overlays and
redirections, after any run of key events a server state and a default machine have the
same components, counters and filters, the next event keeps it so, and its batch is the
key, with the change that `xkb_state_update_key` returns; an ignored key has no event. -/
theorem legacy_machine_agree (km : XkbKeymap) (hoverlays : ∀ key ∈ km.keys, key.overlays = 0#8)
    (hredirect : ∀ key ∈ km.keys, key.NoRedirectActions) (m : LegacyMode)
    (es : List (ℕ × KeyDirection)) (kc : ℕ) (dir : KeyDirection) :
    ∃ sm sm' events, machineRun km es = some sm ∧ SameCore (keyRun km m es) sm ∧
      xkbMachineProcessKey km sm kc dir = some (sm', events) ∧
      SameCore (xkbStateUpdateKey km (keyRun km m es) kc dir).1 sm' ∧
      events.queue = if (eventKey km kc dir).isSome then
        keyBatch kc dir sm'.base.components (xkbStateUpdateKey km (keyRun km m es) kc dir).2
      else [] := by
  obtain ⟨sm, hrun, hagrees⟩ := Agrees.run hoverlays hredirect m es
  obtain ⟨sm', events, hstep, hagrees', hqueue⟩ := hagrees.step hoverlays hredirect kc dir
  exact ⟨sm, sm', events, hrun, hagrees.sameCore, hstep, hagrees'.sameCore, hqueue⟩

/-- One key that sets the first modifier. -/
def shiftKeymap : XkbKeymap where
  numKeysLow := 1
  keys := [oneLevelKey 0 [setMods 1#32]]

/-- Pressing the key of `Xkbcommon.shiftKeymap` again after a press and a release announces
the depressed and the effective modifiers. -/
theorem legacy_machine_agree_shift :
    ∃ sm sm' events, machineRun shiftKeymap [(0, .down), (0, .up)] = some sm ∧
      SameCore (keyRun shiftKeymap .mixed [(0, .down), (0, .up)]) sm ∧
      xkbMachineProcessKey shiftKeymap sm 0 .down = some (sm', events) ∧
      SameCore (xkbStateUpdateKey shiftKeymap (keyRun shiftKeymap .mixed [(0, .down), (0, .up)]) 0
        .down).1 sm' ∧
      events.queue = keyBatch 0 .down sm'.base.components
        (xkbStateModsDepressed ||| xkbStateModsEffective) := by
  obtain ⟨sm, sm', events, hrun, hcore, hstep, hcore', hqueue⟩ :=
    legacy_machine_agree shiftKeymap (by decide) (by decide) .mixed
      [(0, .down), (0, .up)] 0 .down
  have hchanged : (xkbStateUpdateKey shiftKeymap
      (keyRun shiftKeymap .mixed [(0, .down), (0, .up)]) 0
      .down).2 = xkbStateModsDepressed ||| xkbStateModsEffective := by decide +kernel
  have hsome : (eventKey shiftKeymap 0 .down).isSome = true := by decide
  rw [if_pos hsome, hchanged] at hqueue
  exact ⟨sm, sm', events, hrun, hcore, hstep, hcore', hqueue⟩

end Xkbcommon
