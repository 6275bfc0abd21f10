import Xkbcommon.Rules

/-!
# The footprint of the filters

No filter writes the depressed modifiers, the counts of the keys that hold them, the
derived components, the policy or the flags: these change after the filters have run,
or not at all. `Xkbcommon.Footprint` says so for two frames, and the theorems of this
file carry it from a single filter to `xkb_filter_apply_all` and to the out-of-band
updates.

Two consequences shape everything that follows. The actions of a key are the same
before, between and after the filters of an event
(`Xkbcommon.Footprint.xkbKeyGetActions`). And no filter clears the latches on a press,
so the recursion between `xkb_filter_apply_all` and `clear_all_latches_and_locks` stops
at the inner press (`Xkbcommon.call_eq_of_ne_up`).
-/

namespace Xkbcommon

open Masks FilterFunc

variable {clearAll : Frame → Frame} {fr fr' : Frame} {func : FilterFunc} {f : XkbFilter}
  {k : KeyRef} {dir : KeyDirection}

/-- **The footprint of the filters**: what no filter writes. -/
structure Footprint (fr fr' : Frame) : Prop where
  flags : fr'.state.flags = fr.state.flags
  mode : fr'.state.mode = fr.state.mode
  outOfRangeGroup : fr'.state.outOfRangeGroup = fr.state.outOfRangeGroup
  modKeyCount : fr'.state.modKeyCount = fr.state.modKeyCount
  baseMods : fr'.state.components.baseMods = fr.state.components.baseMods
  mods : fr'.state.components.mods = fr.state.components.mods
  group : fr'.state.components.group = fr.state.components.group
  leds : fr'.state.components.leds = fr.state.components.leds

/-- The part of the footprint outside the components. -/
structure SameSetup (fr fr' : Frame) : Prop where
  flags : fr'.state.flags = fr.state.flags
  mode : fr'.state.mode = fr.state.mode
  outOfRangeGroup : fr'.state.outOfRangeGroup = fr.state.outOfRangeGroup
  modKeyCount : fr'.state.modKeyCount = fr.state.modKeyCount

namespace Footprint

theorem setup (h : Footprint fr fr') : SameSetup fr fr' :=
  ⟨h.flags, h.mode, h.outOfRangeGroup, h.modKeyCount⟩

theorem refl (fr : Frame) : Footprint fr fr := ⟨rfl, rfl, rfl, rfl, rfl, rfl, rfl, rfl⟩

theorem trans {fr'' : Frame} (h : Footprint fr fr') (h' : Footprint fr' fr'') : Footprint fr fr'' :=
  ⟨h'.flags.trans h.flags, h'.mode.trans h.mode, h'.outOfRangeGroup.trans h.outOfRangeGroup,
    h'.modKeyCount.trans h.modKeyCount, h'.baseMods.trans h.baseMods, h'.mods.trans h.mods,
    h'.group.trans h.group, h'.leds.trans h.leds⟩

/-- The actions of a key depend on nothing that a filter writes. -/
theorem xkbKeyGetActions (h : Footprint fr fr') (key : XkbKey) :
    xkbKeyGetActions fr'.state.toXkbState key = xkbKeyGetActions fr.state.toXkbState key := by
  simp only [Xkbcommon.xkbKeyGetActions, stateKeyGetLayout, stateKeyGetLevel, h.mods, h.group]

/-- The filter array itself is not part of the footprint. -/
theorem setFilters (h : Footprint fr fr') (filters : List XkbFilter) :
    Footprint fr { fr' with state := { fr'.state with filters := filters } } :=
  ⟨h.flags, h.mode, h.outOfRangeGroup, h.modKeyCount, h.baseMods, h.mods, h.group, h.leds⟩

theorem setFilter (h : Footprint fr fr') (i : ℕ) (f : XkbFilter) :
    Footprint fr (fr'.setFilter i f) := h.setFilters _

end Footprint

/-! ### One filter -/

/-- The controls of the frame are replaced. -/
def Frame.setControls (fr : Frame) (controls : BitVec 32) : Frame :=
  fr.mapComponents fun c => { c with controls := controls }

/-- **When a filter call clears the latches**: when a control filter ends and disables the
sticky keys. Any other call is the same without the clearing. -/
theorem call_cases (clearAll : Frame → Frame) (func : FilterFunc) (fr : Frame) (f : XkbFilter)
    (k : KeyRef) (dir : KeyDirection) :
    func.call clearAll fr f k dir = func.call id fr f k dir ∨
      (func = .ctrls ∧ dir = .up ∧ ∃ controls,
        anyBit fr.state.components.controls controlStickyKeys = true ∧
        anyBit controls controlStickyKeys = false ∧
        func.call clearAll fr f k dir = ⟨clearAll (fr.setControls controls),
          { f with refcnt := f.refcnt - 1, func := none }, .proceed⟩) := by
  cases func with
  | ctrls =>
    simp only [call, xkbFilterCtrlsFunc]
    split
    · exact .inl rfl
    cases dir with
    | down | repeated => exact .inl rfl
    | up =>
      simp only [countedSwitch]
      split
      · exact .inl rfl
      split
      · split
        · rename_i hsticky
          rw [Bool.and_eq_true, Bool.not_eq_true'] at hsticky
          exact .inr ⟨trivial, trivial, _, hsticky.1, hsticky.2, rfl⟩
        · exact .inl rfl
      · exact .inl rfl
  | _ => exact .inl rfl

/-- A press clears no latches. -/
theorem call_eq_of_ne_up (h : dir ≠ .up) :
    func.call clearAll fr f k dir = func.call id fr f k dir :=
  (call_cases clearAll func fr f k dir).resolve_right fun hup => h hup.2.1

/-- **What one filter may write**, unless it clears the latches: it leaves the filter array
alone, and only a redirection queues events. -/
structure Local (func : FilterFunc) (fr fr' : Frame) : Prop extends Footprint fr fr' where
  filters : fr'.state.filters = fr.state.filters
  events : func ≠ .redirectKey → fr'.events = fr.events

theorem local_start : Local func fr (func.start fr f).1 := by
  cases func with
  | redirectKey =>
    simp only [start, xkbFilterRedirectKeyNew]
    split <;> exact ⟨⟨rfl, rfl, rfl, rfl, rfl, rfl, rfl, rfl⟩, rfl, fun h => absurd rfl h⟩
  | _ =>
    simp only [start, xkbFilterModSetNew, xkbFilterModLockNew, xkbFilterModLatchNew,
      xkbFilterGroupSetNew, xkbFilterGroupLockNew, xkbFilterGroupLatchNew, xkbFilterCtrlsNew]
    (repeat' split) <;> exact ⟨⟨rfl, rfl, rfl, rfl, rfl, rfl, rfl, rfl⟩, rfl, fun _ => rfl⟩

theorem local_call (func : FilterFunc) (fr : Frame) (f : XkbFilter) (k : KeyRef)
    (dir : KeyDirection) : Local func fr (func.call id fr f k dir).frame := by
  cases func with
  | redirectKey =>
    simp only [call, xkbFilterRedirectKeyFunc]
    (repeat' split) <;>
      exact ⟨⟨rfl, rfl, rfl, rfl, rfl, rfl, rfl, rfl⟩, rfl, fun h => absurd rfl h⟩
  | modSet | modLock | groupSet | groupLock | ctrls =>
    simp only [call, xkbFilterModSetFunc, xkbFilterModLockFunc, xkbFilterGroupSetFunc,
      xkbFilterGroupLockFunc, xkbFilterCtrlsFunc, countedSwitch, id_eq, ite_self]
    (repeat' split) <;> exact ⟨⟨rfl, rfl, rfl, rfl, rfl, rfl, rfl, rfl⟩, rfl, fun _ => rfl⟩
  | modLatch | groupLatch =>
    simp only [call, xkbFilterModLatchFunc, promoteModLatch, xkbFilterModLockNew,
      xkbFilterModSetNew, xkbFilterGroupLatchFunc, xkbFilterGroupLockNew]
    (repeat' split) <;> exact ⟨⟨rfl, rfl, rfl, rfl, rfl, rfl, rfl, rfl⟩, rfl, fun _ => rfl⟩

theorem footprint_call (hclear : ∀ fr, Footprint fr (clearAll fr)) (func : FilterFunc) (fr : Frame)
    (f : XkbFilter) (k : KeyRef) (dir : KeyDirection) :
    Footprint fr (func.call clearAll fr f k dir).frame := by
  rcases call_cases clearAll func fr f k dir with heq | ⟨-, -, controls, -, -, heq⟩ <;> rw [heq]
  · exact (local_call func fr f k dir).toFootprint
  · have hcontrols : Footprint fr (fr.setControls controls) :=
      ⟨rfl, rfl, rfl, rfl, rfl, rfl, rfl, rfl⟩
    exact hcontrols.trans (hclear _)

/-! ### Starting and tapping -/

theorem footprint_startFilter (fr : Frame) (key : KeyAddr) (action : XkbAction)
    (func : FilterFunc) : Footprint fr (fr.startFilter key action func).1 := by
  unfold Frame.startFilter
  exact local_start.toFootprint.setFilters _

theorem footprint_tapLatch {action : XkbAction} : Footprint fr (fr.tapLatch action func) :=
  ((footprint_startFilter fr .syntheticKey action func).trans
    (footprint_call (fun fr => .refl fr) func _ _ _ _)).setFilter _ _

/-! ### Whole events -/

theorem footprint_applyAllWith (hclear : ∀ fr, Footprint fr (clearAll fr)) {km : XkbKeymap} :
    Footprint fr (xkbFilterApplyAllWith clearAll km fr k dir) :=
  applyAllWith_invariant (P := Footprint fr)
    (fun i _ f func h _ _ => (h.trans (footprint_call hclear func _ f k dir)).setFilter i _)
    (fun _ _ _ func _ _ h _ _ => h.trans (footprint_startFilter _ _ _ func)) (.refl fr)

theorem footprint_stateUpdateLatchedLocked (km : XkbKeymap) (fr : Frame)
    (update : XkbStateComponentsUpdate) : Footprint fr (stateUpdateLatchedLocked km fr update) :=
  latchedLocked_invariant (P := Footprint fr)
    (fun _ h => h.trans ⟨rfl, rfl, rfl, rfl, rfl, rfl, rfl, rfl⟩)
    (fun _ _ h => h.trans ⟨rfl, rfl, rfl, rfl, rfl, rfl, rfl, rfl⟩)
    (fun k i _ f func _ h _ _ =>
      (h.trans (footprint_call (fun fr => .refl fr) func _ f k .down)).setFilter i _)
    (fun _ _ _ _ _ h => h.trans footprint_tapLatch) (.refl fr)

theorem footprint_clearAllLatchesAndLocks (km : XkbKeymap) (fr : Frame) :
    Footprint fr (clearAllLatchesAndLocks km fr) :=
  footprint_stateUpdateLatchedLocked km fr clearAllUpdate

/-- **No filter of an event writes the depressed modifiers, their counts or the derived
components.** -/
theorem footprint_xkbFilterApplyAll (km : XkbKeymap) (fr : Frame) (k : KeyRef)
    (dir : KeyDirection) : Footprint fr (xkbFilterApplyAll km fr k dir) :=
  footprint_applyAllWith (footprint_clearAllLatchesAndLocks km)

end Xkbcommon
