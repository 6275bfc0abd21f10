import Xkbcommon.Footprint
import Xkbcommon.Lib.Slots

/-!
# The filter array

The filter array is a slot table (`Slots.busyAt`): a slot is busy while its filter has a
function. This file says what can happen to a slot:

* a filter starts in a free slot, and no other slot changes
  (`Xkbcommon.slot_startFilter`);
* every slot keeps a few structural facts, `Xkbcommon.SlotOk`;
* the faked events of the out-of-band updates are *quiet* (`Xkbcommon.QuietAt`): a
  filter that holds something stays as it is, up to bookkeeping, and only pending
  latches come and go.
-/

namespace Xkbcommon

open Masks List FilterFunc Slots XkbFilter Xkbcommon.Frame

variable {f : XkbFilter} {func : FilterFunc} {fr : Frame} {clearAll : Frame → Frame}
  {dir : KeyDirection} {latch : BitVec 32} {i j : ℕ} {step : FilterStep}

/-- Whether a slot is in use. -/
def XkbFilter.busy (f : XkbFilter) : Bool := f.func.isSome

/-- The filter of a slot, if the slot is in use. -/
def Frame.slot (fr : Frame) (i : ℕ) : Option XkbFilter :=
  Slots.busyAt XkbFilter.busy fr.state.filters i

theorem slot_eq_some_iff :
    fr.slot i = some f ↔ fr.state.filters[i]? = some f ∧ f.func.isSome = true := busyAt_eq_some_iff

/-- A filter read from the array, as a slot. -/
theorem slot_of_getElem (h : fr.state.filters[i]? = some f) : fr.slot i = (some f).filter busy := by
  rw [slot, busyAt, h]

theorem slot_of_func (h : fr.state.filters[i]? = some f) (hfunc : f.func = some func) :
    fr.slot i = some f := slot_eq_some_iff.mpr ⟨h, by rw [hfunc]; rfl⟩

/-! What a slot shows: a view of its filter, if it is in use. -/

section View

variable {β : Type*} {view : XkbFilter → Option β}

theorem bind_busy (hfree : f.func = none → view f = none) :
    ((some f).filter busy).bind view = view f := by
  rw [Option.filter_some]
  split
  · rfl
  · rename_i hbusy
    exact (hfree (by simpa [busy] using hbusy)).symm

theorem bind_slot_of_length_le (h : fr.state.filters.length ≤ i) :
    (fr.slot i).bind view = none := by
  rw [slot, busyAt_of_length_le h, Option.bind_none]

/-- Past the end of the loop over the slots nothing shows. -/
theorem bind_slot_past {fr₀ : Frame}
    (hend : i = 3 * fr₀.state.filters.length ∨ fr.state.filters.length ≤ i) (hj : i ≤ j)
    (hsame : (fr.slot j).bind view = (fr₀.slot j).bind view) : (fr₀.slot j).bind view = none := by
  rcases hend with hi | hi
  · exact bind_slot_of_length_le (by omega)
  · rw [← hsame]
    exact bind_slot_of_length_le (by omega)

end View

/-! ### Writing slots -/

variable {fr' : Frame} (filters : List XkbFilter) {f' : XkbFilter} {action : XkbAction}
  {key : KeyAddr} {k : KeyRef} {delta : BitVec 32}

/-- `xkb_filter_new` returns the first free slot. -/
theorem xkbFilterNew_snd : (xkbFilterNew filters).2 = firstFree busy filters := by
  simp only [xkbFilterNew, firstFree, busy]
  congr 1
  funext f
  cases f.func <;> rfl

/-- The array that `xkb_filter_new` returns, once its slot is filled. -/
theorem xkbFilterNew_set :
    (xkbFilterNew filters).1.set (xkbFilterNew filters).2 f =
      put filters (firstFree busy filters) f := by
  have hle : (xkbFilterNew filters).2 ≤ filters.length := findIdx_le_length
  unfold put
  rw [← xkbFilterNew_snd]
  split
  · rename_i h
    simp only [xkbFilterNew] at h ⊢
    rw [if_pos h]
    refine ext_getElem? fun j => ?_
    grind
  · rename_i h
    simp only [xkbFilterNew] at h hle ⊢
    rw [if_neg h, set_append_right _ _ (by omega), show _ - filters.length = 0 by omega,
      set_cons_zero]

/-- The slot that `xkb_filter_new` returns has its count set. -/
theorem xkbFilterNew_refcnt :
    ((xkbFilterNew filters).1.getD (xkbFilterNew filters).2 {}).refcnt = 1 := by
  simp only [xkbFilterNew]
  split
  · rename_i h
    simp [getD_eq_getElem?_getD, h]
  · rename_i h
    have hle : filters.findIdx (fun f => f.func.isNone) ≤ filters.length := findIdx_le_length
    rw [getD_eq_getElem?_getD, getElem?_append_right (by omega),
      show _ - filters.length = 0 by omega]
    rfl

/-- **What starting a filter does**: it fills the first free slot with what the `new`
function makes of the action. -/
theorem startFilter_eq (fr : Frame) (key : KeyAddr) (func : FilterFunc) :
    ∃ f₀ : XkbFilter, f₀.key = key ∧ f₀.action = action ∧ f₀.func = some func ∧ f₀.refcnt = 1 ∧
      fr.startFilter key action func =
        ({ (func.start fr f₀).1 with
            state :=
              { (func.start fr f₀).1.state with
                filters := put fr.state.filters
                  (firstFree busy fr.state.filters) (func.start fr f₀).2 } },
          firstFree busy fr.state.filters) := by
  refine ⟨{ (xkbFilterNew fr.state.filters).1.getD (xkbFilterNew fr.state.filters).2 {} with
    key := key, action := action, func := some func }, rfl, rfl, rfl, ?_, ?_⟩
  · exact xkbFilterNew_refcnt _
  · rw [← xkbFilterNew_set, ← xkbFilterNew_snd]
    rfl

/-- Starting a filter changes one slot, which was free. The rest of the state is as the
`new` function leaves it. -/
theorem slot_startFilter :
    ∃ (i : ℕ) (f₀ : XkbFilter), f₀.key = key ∧ f₀.action = action ∧ f₀.func = some func ∧
      f₀.refcnt = 1 ∧ fr.slot i = none ∧
      (∃ filters, (fr.startFilter key action func).1 =
          { (func.start fr f₀).1 with
            state := { (func.start fr f₀).1.state with filters := filters } } ∧
        filters = put fr.state.filters (firstFree busy fr.state.filters)
          (func.start fr f₀).2) ∧
      ∀ j, (fr.startFilter key action func).1.slot j =
        if j = i then (some (func.start fr f₀).2).filter busy else fr.slot j := by
  obtain ⟨f₀, hkey, haction, hfunc, hcnt, heq⟩ := startFilter_eq fr key func
  refine ⟨_, f₀, hkey, haction, hfunc, hcnt, busyAt_firstFree, ⟨_, by rw [heq], rfl⟩, fun j => ?_⟩
  rw [heq]
  exact busyAt_put firstFree_le_length

/-! ### What a filter writes -/

/-- **Which filters write which components**: only the group filters change the depressed
group, and only the latches what is latched. A latch may turn into a lock or a set; no
other filter changes its function but to end. -/
structure Writes (func : FilterFunc) (fr fr' : Frame) (f' : XkbFilter) : Prop where
  baseGroup : func ≠ .groupSet → func ≠ .groupLatch →
    fr'.state.components.baseGroup = fr.state.components.baseGroup
  latchedGroup : func ≠ .groupLatch →
    fr'.state.components.latchedGroup = fr.state.components.latchedGroup
  latchedMods : func ≠ .modLatch →
    fr'.state.components.latchedMods = fr.state.components.latchedMods
  func : f'.func = some func ∨ f'.func = none ∨
    (func = .modLatch ∧ (f'.func = some .modLock ∨ f'.func = some .modSet)) ∨
    (func = .groupLatch ∧ f'.func = some .groupLock)

/-- A filter of another kind does not become one of a kind that latches or shifts. -/
theorem Writes.func_ne {func' : FilterFunc} (h : Writes func fr fr' f') (hne : func ≠ func')
    (hkind : func' = .groupSet ∨ func' = .groupLatch ∨ func' = .modLatch) :
    f'.func ≠ some func' := by
  intro heq
  have hcases := h.func
  rw [heq] at hcases
  rcases hkind with rfl | rfl | rfl <;> simp_all

theorem call_writes (fr : Frame) (hfunc : f.func = some func) (k : KeyRef) (dir : KeyDirection) :
    Writes func fr (func.call id fr f k dir).frame (func.call id fr f k dir).filter := by
  cases func with
  | modLatch =>
    simp only [call, xkbFilterModLatchFunc, promoteModLatch, xkbFilterModLockNew,
      xkbFilterModSetNew]
    (repeat' split) <;> exact ⟨fun _ _ => rfl, fun _ => rfl, fun h => absurd rfl h, by simp [hfunc]⟩
  | groupSet =>
    simp only [call, xkbFilterGroupSetFunc, countedSwitch]
    (repeat' split) <;> exact ⟨fun h => absurd rfl h, fun _ => rfl, fun _ => rfl, by simp [hfunc]⟩
  | groupLatch =>
    simp only [call, xkbFilterGroupLatchFunc, xkbFilterGroupLockNew]
    (repeat' split) <;>
      exact ⟨fun _ h => absurd rfl h, fun h => absurd rfl h, fun _ => rfl, by simp [hfunc]⟩
  | modSet | modLock | groupLock | ctrls | redirectKey =>
    simp only [call, xkbFilterModSetFunc, xkbFilterModLockFunc, xkbFilterGroupLockFunc,
      xkbFilterCtrlsFunc, xkbFilterRedirectKeyFunc, countedSwitch, id_eq, ite_self]
    (repeat' split) <;> exact ⟨fun _ _ => rfl, fun _ => rfl, fun _ => rfl, by simp [hfunc]⟩

theorem start_writes (func : FilterFunc) (fr : Frame) (hfunc : f.func = some func) :
    Writes func fr (func.start fr f).1 (func.start fr f).2 := by
  cases func with
  | groupSet => exact ⟨fun h => absurd rfl h, fun _ => rfl, fun _ => rfl, .inl hfunc⟩
  | groupLatch =>
    exact ⟨fun _ h => absurd rfl h, fun h => absurd rfl h, fun _ => rfl, .inl hfunc⟩
  | modLatch =>
    simp only [start, xkbFilterModLatchNew]
    (repeat' split) <;> exact ⟨fun _ _ => rfl, fun _ => rfl, fun h => absurd rfl h, by simp [hfunc]⟩
  | modSet | modLock | groupLock | ctrls | redirectKey =>
    simp only [start, xkbFilterModSetNew, xkbFilterModLockNew, xkbFilterGroupLockNew,
      xkbFilterCtrlsNew, xkbFilterRedirectKeyNew]
    (repeat' split) <;> exact ⟨fun _ _ => rfl, fun _ => rfl, fun _ => rfl, by simp [hfunc]⟩

/-- A filter that is no redirection does not become one. -/
theorem Writes.func_ne_redirectKey (h : Writes func fr fr' f') (hne : func ≠ .redirectKey) :
    f'.func ≠ some .redirectKey := by
  intro heq
  have hcases := h.func
  rw [heq] at hcases
  simp [Ne.symm hne] at hcases

theorem call_func_ne (hfunc : f.func = some func) (h : func ≠ .redirectKey) :
    (func.call clearAll fr f k dir).filter.func ≠ some .redirectKey := by
  rcases call_cases clearAll func fr f k dir with heq | ⟨-, -, controls, -, -, heq⟩ <;> rw [heq]
  · exact (call_writes fr hfunc k dir).func_ne_redirectKey h
  · simp

/-! ### Structural facts about slots -/

/-- The addresses that a filter may have: not those of the keys that break latches. -/
def KeyAddr.canHold : KeyAddr → Bool
  | .syntheticKeyBreakModLatch | .syntheticKeyBreakGroupLatch => false
  | _ => true

/-- **What every slot satisfies**: a latch is never counted more than once, a latch set
to trigger on press is pending from the start, and a group latch is in one of its three
states. -/
structure SlotOk (f : XkbFilter) : Prop where
  key : f.key.canHold = true
  modLatch_refcnt : f.func = some .modLatch → f.refcnt = 1
  modLatch_onPress : f.func = some .modLatch →
    anyBit f.action.mods.flags actionLatchOnPress = true → f.priv = latchPending
  groupLatch_refcnt : f.func = some .groupLatch → f.refcnt = 1
  groupLatch_latch : f.func = some .groupLatch → groupLatchLatch f.priv = noLatch ∨
    groupLatchLatch f.priv = latchKeyDown ∨ groupLatchLatch f.priv = latchPending

/-- A slot that is not a latch has nothing to keep but its key. -/
theorem SlotOk.of_not_latch (hkey : f.key.canHold = true) (hmod : f.func ≠ some .modLatch)
    (hgroup : f.func ≠ some .groupLatch) : SlotOk f :=
  ⟨hkey, fun h => absurd h hmod, fun h => absurd h hmod, fun h => absurd h hgroup,
    fun h => absurd h hgroup⟩

theorem SlotOk.of_free (hkey : f.key.canHold = true) (h : f.func = none) :
    SlotOk f := .of_not_latch hkey (by simp [h]) (by simp [h])

/-! The two fields of the private word of a group latch. -/

theorem groupLatchLatch_priv (h : latch.toNat < 4) :
    groupLatchLatch (groupLatchPriv latch delta) = latch := Bitfield.low_pack h

theorem groupLatchDelta_priv (h : latch.toNat < 4) (hd : Bitfield.Fits 30 delta) :
    groupLatchDelta (groupLatchPriv latch delta) = delta :=
  (Bitfield.high_pack_eq_iff (by decide) delta h).mpr hd

theorem groupLatchDelta_priv_delta (h : latch.toNat < 4) (priv : BitVec 32) :
    groupLatchDelta (groupLatchPriv latch (groupLatchDelta priv)) = groupLatchDelta priv :=
  Bitfield.high_pack_high (by decide) h

theorem slotOk_countedSwitch {ending : XkbFilter → FilterStep} (hkey : f.key.canHold = true)
    (hmod : f.func ≠ some .modLatch) (hgroup : f.func ≠ some .groupLatch)
    (h : ∀ f', f'.key = f.key → SlotOk (ending f').filter) :
    SlotOk (countedSwitch fr f dir ending).filter := by
  cases dir with
  | down | repeated => exact .of_not_latch hkey hmod hgroup
  | up =>
    dsimp only [countedSwitch]
    split
    · exact .of_not_latch hkey hmod hgroup
    · exact h _ rfl

/-- **A filter call keeps the structural facts**, for a key that may hold a filter. A
pending latch may move to the pressed key. -/
theorem slotOk_call (hf : SlotOk f) (hfunc : f.func = some func) (hk : k.addr.canHold = true) :
    SlotOk (func.call clearAll fr f k dir).filter := by
  cases func with
  | modSet | modLock | groupSet | groupLock | ctrls =>
    have hmod : f.func ≠ some .modLatch := by simp [hfunc]
    have hgroup : f.func ≠ some .groupLatch := by simp [hfunc]
    -- the event of another key, or one that is counted
    simp only [call, xkbFilterModSetFunc, xkbFilterModLockFunc, xkbFilterGroupSetFunc,
      xkbFilterGroupLockFunc, xkbFilterCtrlsFunc]
    (repeat' split) <;> first
      | exact hf
      | exact .of_not_latch hf.key hmod hgroup
      | exact slotOk_countedSwitch hf.key hmod hgroup fun _ hkey => .of_free (hkey ▸ hf.key) rfl
  | redirectKey =>
    simp only [call, xkbFilterRedirectKeyFunc]
    (repeat' split) <;> first | exact hf | exact .of_free hf.key rfl
  | modLatch =>
    have hcnt := hf.modLatch_refcnt hfunc
    have hpress := hf.modLatch_onPress hfunc
    have hpriv : ∀ p, (anyBit f.action.mods.flags actionLatchOnPress = true → p = latchPending) →
        SlotOk { f with priv := p } := fun p hp =>
      ⟨hf.key, fun _ => hcnt, fun _ => hp, fun h => absurd h (by simp [hfunc]),
        fun h => absurd h (by simp [hfunc])⟩
    simp only [call, xkbFilterModLatchFunc]
    cases dir with
    | repeated => exact hf
    | down =>
      dsimp only
      split
      · rename_i hdown
        split
        · exact hpriv _ fun h => absurd ((hpress h).symm.trans hdown) (by decide)
        · exact hf
      · split
        · split
          · simp only [promoteModLatch, xkbFilterModLockNew, xkbFilterModSetNew]
            (repeat' split) <;> exact .of_not_latch hk (by simp) (by simp)
          · exact .of_free hf.key rfl
          · exact hf
        · exact hf
    | up =>
      dsimp only
      split
      · exact hf
      · split
        · exact .of_free hf.key rfl
        · split
          · exact .of_free hf.key rfl
          · split
            · exact hpriv _ fun _ => rfl
            · exact hf
  | groupLatch =>
    have hpriv : ∀ latch delta, latch = noLatch ∨ latch = latchKeyDown ∨ latch = latchPending →
        SlotOk { f with priv := groupLatchPriv latch delta } := fun latch delta hl => by
      refine ⟨hf.key, fun h => absurd h (by simp [hfunc]), fun h => absurd h (by simp [hfunc]),
        fun _ => hf.groupLatch_refcnt hfunc, fun _ => ?_⟩
      rw [groupLatchLatch_priv (by rcases hl with rfl | rfl | rfl <;> decide)]
      exact hl
    simp only [call, xkbFilterGroupLatchFunc]
    cases dir with
    | repeated => exact hf
    | down =>
      dsimp only
      split
      · split
        · exact hpriv _ _ (.inl rfl)
        · exact hf
      · split
        · split
          · simp only [xkbFilterGroupLockNew]
            split <;> exact .of_not_latch hk (by simp) (by simp)
          · exact .of_free hf.key rfl
          · exact hf
        · exact hf
    | up =>
      dsimp only
      (repeat' split) <;>
        first | exact hf | exact .of_free hf.key rfl | exact hpriv _ _ (.inr (.inr rfl))

/-- A filter that starts satisfies the structural facts. -/
theorem slotOk_start (hkey : f.key.canHold = true) (hfunc : f.func = some func)
    (hcnt : f.refcnt = 1) : SlotOk (func.start fr f).2 := by
  cases func with
  | modLatch =>
    simp only [start, xkbFilterModLatchNew]
    split
    · exact .of_free hkey rfl
    · split
      · exact ⟨hkey, fun _ => hcnt, fun _ _ => rfl, fun h => absurd h (by simp [hfunc]),
          fun h => absurd h (by simp [hfunc])⟩
      · rename_i hpress
        exact ⟨hkey, fun _ => hcnt, fun _ h => absurd h hpress, fun h => absurd h (by simp [hfunc]),
          fun h => absurd h (by simp [hfunc])⟩
  | groupLatch =>
    refine ⟨hkey, fun h => absurd h (by simp [start, xkbFilterGroupLatchNew, hfunc]),
      fun h => absurd h (by simp [start, xkbFilterGroupLatchNew, hfunc]),
      fun _ => hcnt, fun _ => .inr (.inl ?_)⟩
    exact groupLatchLatch_priv (by decide)
  | modSet | modLock | groupSet | groupLock | ctrls | redirectKey =>
    simp only [start, xkbFilterModSetNew, xkbFilterModLockNew, xkbFilterGroupSetNew,
      xkbFilterGroupLockNew, xkbFilterCtrlsNew, xkbFilterRedirectKeyNew]
    (repeat' split) <;> exact .of_not_latch hkey (by simp [hfunc]) (by simp [hfunc])

/-- The structural facts, for the whole array. -/
def SlotsOk (fr : Frame) : Prop := ∀ f ∈ fr.state.filters, SlotOk f

theorem SlotsOk.slot (h : SlotsOk fr) (hf : fr.slot i = some f) : SlotOk f := h f (mem_of_busyAt hf)

theorem SlotsOk.of_filters (h : SlotsOk fr) (heq : fr'.state.filters = fr.state.filters) :
    SlotsOk fr' := by
  intro f hf
  rw [heq] at hf
  exact h f hf

/-- The components are not stored in the filter array. -/
theorem SlotsOk.mapComponents (h : SlotsOk fr) (g : StateComponents → StateComponents) :
    SlotsOk (fr.mapComponents g) := h

theorem SlotsOk.store (h : SlotsOk step.frame) (hf : SlotOk step.filter) (i : ℕ) :
    SlotsOk (step.store i) := by
  intro f hmem
  rcases mem_or_eq_of_mem_set hmem with hmem | rfl
  · exact h f hmem
  · exact hf

theorem SlotsOk.startFilter (h : SlotsOk fr) (hkey : key.canHold = true) (action : XkbAction)
    (func : FilterFunc) : SlotsOk (fr.startFilter key action func).1 := by
  obtain ⟨f₀, hf₀, -, hfunc, hcnt, heq⟩ := startFilter_eq fr key func
  rw [heq]
  intro f hf
  rcases mem_put hf with hf | rfl
  · exact h f hf
  · exact slotOk_start (hf₀ ▸ hkey) hfunc hcnt

/-! ### Tapping a latch -/

/-- **What tapping a latch of the faked key does**: the filter that it starts is the one
whose key is then released. -/
theorem tapLatch_eq :
    ∃ f₀ : XkbFilter, f₀.key = .syntheticKey ∧ f₀.action = action ∧ f₀.func = some func ∧
      f₀.refcnt = 1 ∧ ∃ fr₁ : Frame,
        fr₁ = { (func.start fr f₀).1 with
          state :=
            { (func.start fr f₀).1.state with
              filters := put fr.state.filters
                (firstFree busy fr.state.filters) (func.start fr f₀).2 } } ∧
        fr.tapLatch action func = (func.call id fr₁ (func.start fr f₀).2 syntheticKey .up).store
          (firstFree busy fr.state.filters) := by
  obtain ⟨f₀, hkey, haction, hfunc, hcnt, heq⟩ := startFilter_eq fr .syntheticKey func
  refine ⟨f₀, hkey, haction, hfunc, hcnt, _, rfl, ?_⟩
  unfold tapLatch
  simp only [heq, getD_eq_getElem?_getD, getElem?_put firstFree_le_length, Option.getD_some]

/-- Tapping a modifier latch adds its modifiers to the latched ones and leaves a pending
latch behind. -/
theorem tapLatch_mod (mask : BitVec 32) :
    ∃ f : XkbFilter, f.key = .syntheticKey ∧ f.func = some .modLatch ∧ f.priv = latchPending ∧
      f.refcnt = 1 ∧ f.action = { type := .modLatch, mods := { mods := { mask := mask } } } ∧
      fr.tapLatch { type := .modLatch, mods := { mods := { mask := mask } } } .modLatch =
        { fr with
          state :=
            { fr.state with
              setMods := fr.state.setMods ||| mask
              clearMods := fr.state.clearMods ||| mask
              components.latchedMods := fr.state.components.latchedMods ||| mask
              filters := put fr.state.filters (firstFree busy fr.state.filters) f } } := by
  obtain ⟨f₀, hkey, haction, hfunc, hcnt, fr₁, rfl, heq⟩ := tapLatch_eq
  refine ⟨{ f₀ with priv := latchPending }, hkey, hfunc, rfl, hcnt, haction, ?_⟩
  rw [heq]
  simp only [start, xkbFilterModLatchNew, call, xkbFilterModLatchFunc,
    haction, hkey, syntheticKey, anyBit_zero_left, Bool.false_and, Bool.not_false, ne_eq,
    not_true_eq_false, if_false, if_true, Bool.false_eq_true, FilterStep.store, setFilter]
  rw [if_neg (show ¬latchKeyDown = noLatch by decide)]
  simp only [mapComponents, addClearMods, addSetMods, set_put firstFree_le_length]

/-- Tapping a group latch replaces the depressed group by one with the same low bits and
leaves a pending latch behind. -/
theorem tapLatch_group (group : BitVec 32) :
    ∃ (f : XkbFilter) (delta : BitVec 32),
      delta = groupLatchDelta
        (groupLatchPriv latchKeyDown (group - fr.state.components.baseGroup)) ∧
      f.key = .syntheticKey ∧ f.func = some .groupLatch ∧
      f.priv = groupLatchPriv latchPending delta ∧ f.refcnt = 1 ∧
      f.action =
        { type := .groupLatch, group := { flags := actionAbsoluteSwitch, group := group } } ∧
      fr.tapLatch
          { type := .groupLatch, group := { flags := actionAbsoluteSwitch, group := group } }
          .groupLatch =
        { fr with
          state :=
            { fr.state with
              components.baseGroup := group - delta
              components.latchedGroup := fr.state.components.latchedGroup + delta
              filters := put fr.state.filters (firstFree busy fr.state.filters) f } } := by
  obtain ⟨f₀, hkey, haction, hfunc, hcnt, fr₁, rfl, heq⟩ := tapLatch_eq
  refine ⟨{ f₀ with priv := groupLatchPriv latchPending _ }, _, rfl, hkey, hfunc, rfl, hcnt,
    haction, ?_⟩
  rw [heq]
  have habs : anyBit actionAbsoluteSwitch actionAbsoluteSwitch = true := by decide
  have hclear : anyBit actionAbsoluteSwitch actionLockClear = false := by decide
  simp only [start, xkbFilterGroupLatchNew, call, xkbFilterGroupLatchFunc,
    haction, hkey, syntheticKey, habs, hclear, groupLatchLatch_priv (show latchKeyDown.toNat < 4 by
      decide), Bool.false_and, ne_eq, not_true_eq_false, if_false, if_true, Bool.false_eq_true,
    FilterStep.store, setFilter]
  rw [if_neg (show ¬latchKeyDown = noLatch by decide)]
  simp only [mapComponents, applyGroupDelta, habs, if_true, set_put firstFree_le_length]

end Xkbcommon
