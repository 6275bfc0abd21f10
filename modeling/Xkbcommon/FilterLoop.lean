import Xkbcommon.Histories

/-!
# The filter array while the filters run

The first loop of `xkb_filter_apply_all` goes through the filter array and hands each filter a
pointer into it. A filter that is appended in the meantime may move the array, and the pointer
is then used after its memory was freed.

No filter appends another one, but for a control filter that switches the sticky keys off: this
clears all latches, and leaves two latches behind that were tapped for the purpose. Each takes the
first free slot. The latches that are pending are broken before, and make room: those of modifiers
before the first tap, those of groups before the second one (`Xkbcommon.roomToClear`). Without
that room the array grows (`Xkbcommon.filters_grow_sticky`).
-/

namespace Xkbcommon

open Masks List Slots FilterFunc

variable {fr : Frame} {func : FilterFunc} {f : XkbFilter} {k : KeyRef} {dir : KeyDirection}
  {km : XkbKeymap} {i : ℕ} {mods : BitVec 32}

/-! ### What the slots are used for -/

/-- What a slot is used for, as far as clearing the given modifiers goes. -/
inductive SlotUse
  | free | pendingMods | pendingGroup | other
  deriving DecidableEq, Repr

/-- The use of a filter. -/
def XkbFilter.use (mods : BitVec 32) (f : XkbFilter) : SlotUse :=
  match f.func with
  | none => .free
  | some .modLatch =>
    if f.priv = latchPending ∧ Sub f.action.mods.mods.mask mods then .pendingMods else .other
  | some .groupLatch => if groupLatchLatch f.priv = latchPending then .pendingGroup else .other
  | some _ => .other

theorem XkbFilter.use_eq_pendingMods_iff : f.use mods = .pendingMods ↔
    f.func = some .modLatch ∧ f.priv = latchPending ∧ Sub f.action.mods.mods.mask mods := by
  unfold use
  rcases f.func with - | func
  · simp
  · cases func <;> dsimp only <;> (try split) <;> simp_all

theorem XkbFilter.use_eq_pendingGroup_iff : f.use mods = .pendingGroup ↔
    f.func = some .groupLatch ∧ groupLatchLatch f.priv = latchPending := by
  unfold use
  rcases f.func with - | func
  · simp
  · cases func <;> dsimp only <;> (try split) <;> simp_all

/-- The uses of the slots when all latches are cleared. -/
def Frame.uses (km : XkbKeymap) (fr : Frame) : List SlotUse :=
  fr.state.filters.map (XkbFilter.use (clearableMods km))

/-- **The array has room for two latches** that are tapped one after the other. -/
def roomToClear (uses : List SlotUse) : Prop :=
  1 ≤ uses.count .free + uses.count .pendingMods ∧
    2 ≤ uses.count .free + uses.count .pendingMods + uses.count .pendingGroup

/-- Break the latches of one kind. -/
def breakUse (latch use : SlotUse) : SlotUse := if use = latch then .free else use

/-- Take the first free slot. -/
def takeFree (uses : List SlotUse) (use : SlotUse) : List SlotUse :=
  put uses (firstFree (· != .free) uses) use

theorem firstFree_lt_iff {uses : List SlotUse} :
    firstFree (· != .free) uses < uses.length ↔ 0 < uses.count .free := by
  rw [firstFree, findIdx_lt_length, count_pos_iff]
  simp

theorem length_takeFree (uses : List SlotUse) (use : SlotUse) :
    (takeFree uses use).length = uses.length + if 0 < uses.count .free then 0 else 1 := by
  unfold takeFree put
  simp only [firstFree_lt_iff]
  split <;> simp

theorem count_takeFree {uses : List SlotUse} {use u : SlotUse} (hpos : 0 < uses.count .free)
    (hu : use ≠ u) :
    (takeFree uses use).count u = uses.count u - if u = .free then 1 else 0 := by
  have hlt := firstFree_lt_iff.mpr hpos
  have hfree : uses[firstFree (· != .free) uses] = .free := by
    have h : (!(uses[firstFree (· != .free) uses] != .free)) = true := findIdx_getElem (w := hlt)
    simpa using h
  rw [takeFree, put, if_pos hlt, count_set hlt, hfree]
  by_cases h : u = .free
  · simp [h, h ▸ hu]
  · simp [h, Ne.symm h, hu]

theorem count_free_breakUse (uses : List SlotUse) (latch : SlotUse) (hlatch : latch ≠ .free) :
    (uses.map (breakUse latch)).count .free = uses.count .free + uses.count latch := by
  induction uses with
  | nil => rfl
  | cons use uses ih =>
    rw [map_cons, count_cons, count_cons, count_cons, ih]
    by_cases h : use = latch
    · simp only [breakUse, h, if_true, beq_self_eq_true, beq_iff_eq, hlatch, if_false]
      omega
    · simp only [breakUse, h, if_false, beq_iff_eq]
      omega

theorem count_breakUse_of_ne (uses : List SlotUse) (latch : SlotUse) {u : SlotUse} (hu : u ≠ .free)
    (hne : u ≠ latch) : (uses.map (breakUse latch)).count u = uses.count u := by
  induction uses with
  | nil => rfl
  | cons use uses ih =>
    rw [map_cons, count_cons, count_cons, ih]
    by_cases h : use = latch
    · simp [breakUse, h, Ne.symm hu, Ne.symm hne]
    · simp [breakUse, h]

/-- Breaking and tapping twice does not lengthen the array exactly if there is room. -/
theorem length_clearUses_iff (uses : List SlotUse) {use : SlotUse} (huse : use ≠ .free)
    (huse' : use ≠ .pendingGroup) (use' : SlotUse) :
    (takeFree ((takeFree (uses.map (breakUse .pendingMods)) use).map
        (breakUse .pendingGroup)) use').length = uses.length ↔ roomToClear uses := by
  have hmods := count_free_breakUse uses .pendingMods (by simp)
  have hgroup := count_breakUse_of_ne uses .pendingMods (u := .pendingGroup) (by simp) (by simp)
  have hcount := count_free_breakUse (takeFree (uses.map (breakUse .pendingMods)) use)
    .pendingGroup (by simp)
  rw [length_takeFree, length_map, length_takeFree, length_map, roomToClear, ← hmods, ← hgroup,
    hcount]
  by_cases hpos : 0 < (uses.map (breakUse .pendingMods)).count .free
  · rw [count_takeFree hpos huse, count_takeFree hpos huse']
    simp only [hpos, if_true, reduceCtorEq, if_false]
    split <;> omega
  · rw [if_neg hpos]
    omega

/-! ### Clearing the latches -/

theorem clearableMods_ne_zero (km : XkbKeymap) : clearableMods km ≠ 0#32 := by
  intro h
  have hreal : ∀ (l : List (BitVec 32 × ℕ)) (mods mask : BitVec 32), mask.getLsbD 0 = true →
      (l.foldl (fun mask mod => if mods.getLsbD mod.2 then mask ||| mod.1 else mask) mask).getLsbD
        0 = true := by
    intro l mods mask hmask
    induction l generalizing mask with
    | nil => exact hmask
    | cons mod l ih =>
      refine ih _ ?_
      dsimp only
      split
      · rw [BitVec.getLsbD_or, hmask, Bool.true_or]
      · exact hmask
  have hbit : (clearableMods km).getLsbD 0 = true := by
    unfold clearableMods resolveToCanonicalMods modMaskGetEffective
    rw [BitVec.getLsbD_or]
    cases hcanon : km.canonicalStateMask.getLsbD 0 with
    | true => rw [BitVec.getLsbD_and, hcanon]; rfl
    | false =>
      rw [hreal _ _ _ ?_, Bool.or_true]
      rw [BitVec.getLsbD_and, BitVec.getLsbD_and, BitVec.getLsbD_not, hcanon]
      rfl
  rw [h] at hbit
  cases hbit

theorem XkbFilter.use_eq_of_quiet {f' : XkbFilter} (h : QuietSlot f f') :
    f'.use mods = f.use mods := by
  unfold use
  rw [h.func, h.mods]
  rcases h.priv with hp | ⟨hm, hd, hn⟩ | ⟨hg, hd, hn⟩
  · rw [hp]
  · simp [hm, hd, hn, latchKeyDown, latchPending, noLatch]
  · rw [hg, hn, groupLatchLatch_priv (by decide), hd]
    simp [latchKeyDown, latchPending, noLatch]

/-! ### Breaking and tapping -/

theorem use_breakMods (hf : SlotOk f) (hfunc : f.func = some func) (fr : Frame) :
    (func.call id fr f (syntheticBreakKey .syntheticKeyBreakModLatch internalBreaksModLatch mods)
      .down).filter.use mods = breakUse .pendingMods (f.use mods) := by
  have hout := breakKey_call (.mod mods) hf hfunc fr
  by_cases huse : f.use mods = .pendingMods
  · obtain ⟨hmod, hpriv, hsub⟩ := XkbFilter.use_eq_pendingMods_iff.mp huse
    cases hfunc.symm.trans hmod
    have hand : mods &&& f.action.mods.mods.mask = f.action.mods.mods.mask := by
      rw [BitVec.and_comm, ← sub_iff_and_eq]
      exact hsub
    have hdown : ¬latchPending = latchKeyDown := by decide
    simp [call, xkbFilterModLatchFunc, hpriv, hdown, xkbKeyGetActions_syntheticBreakKey,
      modLatchVerdict_breakMod, hand, XkbFilter.use, hfunc, hsub, breakUse]
  · generalize func.call id fr f _ .down = step at hout
    rw [breakUse, if_neg huse]
    cases hout with
    | quiet f' hq => exact XkbFilter.use_eq_of_quiet hq
    | modLatch clear hm hp hk hsub =>
      obtain rfl : mods = clear := by simpa [syntheticBreakKey] using hk
      exact absurd (XkbFilter.use_eq_pendingMods_iff.mpr ⟨hm, hp, hsub⟩) huse
    | groupLatch _ _ hk => simp [syntheticBreakKey] at hk

theorem use_breakGroup (hf : SlotOk f) (hfunc : f.func = some func) (fr : Frame) :
    (func.call id fr f (syntheticBreakKey .syntheticKeyBreakGroupLatch internalBreaksGroupLatch
      0#32) .down).filter.use mods = breakUse .pendingGroup (f.use mods) := by
  have hout := breakKey_call .group hf hfunc fr
  by_cases huse : f.use mods = .pendingGroup
  · obtain ⟨hgroup, hpriv⟩ := XkbFilter.use_eq_pendingGroup_iff.mp huse
    cases hfunc.symm.trans hgroup
    have hdown : ¬latchPending = latchKeyDown := by decide
    simp [call, xkbFilterGroupLatchFunc, hpriv, hdown, xkbKeyGetActions_syntheticBreakKey,
      groupLatchVerdict_breakGroup, XkbFilter.use, hfunc, breakUse]
  · generalize func.call id fr f _ .down = step at hout
    rw [breakUse, if_neg huse]
    cases hout with
    | quiet f' hq => exact XkbFilter.use_eq_of_quiet hq
    | modLatch clear _ _ hk _ => simp [syntheticBreakKey] at hk
    | groupLatch hg hp _ => exact absurd (XkbFilter.use_eq_pendingGroup_iff.mpr ⟨hg, hp⟩) huse

/-- **The loop over the slots for a key that breaks latches of one kind**: those before the given
slot are broken. -/
structure BrokenBefore (mods : BitVec 32) (latch : SlotUse) (fr : Frame) (i : ℕ) (fr' : Frame) :
    Prop where
  slotsOk : SlotsOk fr'
  uses : ∀ j : ℕ, (fr'.state.filters[j]?).map (XkbFilter.use mods) =
    ((fr.state.filters[j]?).map (XkbFilter.use mods)).map
      fun use => if j < i then breakUse latch use else use

variable {latch : SlotUse} {fr' : Frame}

theorem BrokenBefore.use (h : BrokenBefore mods latch fr i fr')
    (hf : fr'.state.filters[i]? = some f) :
    (fr.state.filters[i]?).map (XkbFilter.use mods) = some (f.use mods) := by
  have hi := h.uses i
  rw [hf] at hi
  simpa using hi.symm

/-- One more slot. -/
theorem BrokenBefore.next (h : BrokenBefore mods latch fr i fr')
    (hf : fr'.state.filters[i]? = some f) {fr'' : Frame} (hok : SlotsOk fr'')
    (hother : ∀ j, j ≠ i → fr''.state.filters[j]? = fr'.state.filters[j]?)
    (hself : (fr''.state.filters[i]?).map (XkbFilter.use mods) =
      some (breakUse latch (f.use mods))) : BrokenBefore mods latch fr (i + 1) fr'' := by
  refine ⟨hok, fun j => ?_⟩
  by_cases hj : j = i
  · rw [hj, hself, h.use hf]
    simp
  · rw [hother j hj, h.uses j]
    simp only [show j < i + 1 ↔ j < i by omega]

theorem uses_breakPress (mods : BitVec 32) (hk : BreakKey k) (hok : SlotsOk fr)
    (hlatch : latch ≠ .free)
    (hcall : ∀ (fr : Frame) (f : XkbFilter) (func : FilterFunc), SlotOk f → f.func = some func →
      (func.call id fr f k .down).filter.use mods = breakUse latch (f.use mods)) :
    SlotsOk (runFilters id k .down (3 * fr.state.filters.length) 0 fr false).1 ∧
      (runFilters id k .down (3 * fr.state.filters.length) 0 fr false).1.state.filters.map
        (XkbFilter.use mods) =
          (fr.state.filters.map (XkbFilter.use mods)).map (breakUse latch) := by
  have hskip : ∀ (i : ℕ) (fr' : Frame) (c : Bool) (f : XkbFilter),
      BrokenBefore mods latch fr i fr' → fr'.state.filters[i]? = some f → f.func = none →
      BrokenBefore mods latch fr (i + 1) fr' := by
    intro i fr' c f h hf hfunc
    refine h.next hf h.slotsOk (fun _ _ => rfl) ?_
    simp [hf, XkbFilter.use, hfunc, breakUse, hlatch.symm]
  have hstep : ∀ (i : ℕ) (fr' : Frame) (c : Bool) (f : XkbFilter) (func : FilterFunc),
      BrokenBefore mods latch fr i fr' → fr'.state.filters[i]? = some f → f.func = some func →
      BrokenBefore mods latch fr (i + 1) ((func.call id fr' f k .down).store i) := by
    intro i fr' c f func h hf hfunc
    have hi : i < fr'.state.filters.length := (List.getElem?_eq_some_iff.mp hf).1
    have hfilters : ((func.call id fr' f k .down).store i).state.filters =
        fr'.state.filters.set i (func.call id fr' f k .down).filter := by
      rw [FilterStep.store, Frame.setFilter, (local_call func fr' f k .down).filters]
    refine h.next hf (quiet_breakKey_store hk h.slotsOk hf hfunc).1 (fun j hj => ?_) ?_
    · rw [hfilters, getElem?_set_ne (Ne.symm hj)]
    · rw [hfilters, getElem?_set_self hi, Option.map_some,
        hcall _ _ _ (h.slotsOk.slot (slot_of_func hf hfunc)) hfunc]
  obtain ⟨i, h, hend⟩ := runFilters_rec (P := fun i fr' _ => BrokenBefore mods latch fr i fr')
    hskip hstep (3 * fr.state.filters.length) 0 fr false
    ⟨hok, fun j => Option.map_id'.symm⟩
  refine ⟨h.slotsOk, ext_getElem? fun j => ?_⟩
  rw [getElem?_map, getElem?_map, getElem?_map, h.uses j]
  by_cases hj : j < i
  · simp only [hj, if_true]
  · have hnone : (fr.state.filters[j]?).map (XkbFilter.use mods) = none := by
      rcases hend with hi | hi
      · rw [getElem?_eq_none (by omega), Option.map_none]
      · have hj' := h.uses j
        rw [getElem?_eq_none (by omega)] at hj'
        simpa using hj'.symm
    rw [hnone]
    rfl

theorem uses_put (filters : List XkbFilter) (f : XkbFilter) :
    (put filters (firstFree XkbFilter.busy filters) f).map (XkbFilter.use mods) =
      takeFree (filters.map (XkbFilter.use mods)) (f.use mods) := by
  have hbusy : ∀ f : XkbFilter, (f.use mods != .free) = f.busy := by
    intro f
    unfold XkbFilter.use XkbFilter.busy
    rcases hfunc : f.func with - | func
    · rfl
    · cases func <;> dsimp only [Option.isSome] <;> (try split) <;> rfl
  have hfirst : firstFree (· != .free) (filters.map (XkbFilter.use mods)) =
      firstFree XkbFilter.busy filters := by
    rw [firstFree, findIdx_map, firstFree]
    congr 1
    funext f
    exact congrArg _ (hbusy f)
  rw [takeFree, hfirst, put, put, length_map]
  split
  · rw [map_set]
  · rw [map_append, map_singleton]

theorem uses_updateLatchModifiers (km : XkbKeymap) (hok : SlotsOk fr) :
    ∃ use, use ≠ .free ∧ use ≠ .pendingGroup ∧ SlotsOk (updateLatchModifiers km fr (clearableMods km) 0#32) ∧
      (updateLatchModifiers km fr (clearableMods km) 0#32).uses km =
        takeFree ((fr.uses km).map (breakUse .pendingMods)) use := by
  have hclear : clearableMods km &&& ~~~0#32 = clearableMods km := BitVec.and_allOnes
  unfold updateLatchModifiers
  dsimp only
  rw [hclear, xkbFilterPress_syntheticBreakKey]
  obtain ⟨hok', huses⟩ := uses_breakPress (clearableMods km) (.mod (clearableMods km))
    (hok.mapComponents fun c =>
      { c with latchedMods := c.latchedMods &&& ~~~clearableMods km }) (by simp)
    fun fr _ _ hf hfunc => use_breakMods hf hfunc fr
  obtain ⟨f, -, hfunc, -, -, -, heq⟩ := tapLatch_mod (clearableMods km &&& 0#32)
  refine ⟨f.use (clearableMods km), ?_, ?_, (quiet_tapLatch hok' (.mod _)).1, ?_⟩
  · unfold XkbFilter.use
    rw [hfunc]
    dsimp only
    split <;> simp
  · rw [ne_eq, XkbFilter.use_eq_pendingGroup_iff, hfunc]
    simp
  · rw [heq, Frame.uses, uses_put, huses]
    rfl

theorem uses_updateLatchGroup (km : XkbKeymap) (hok : SlotsOk fr) (group : BitVec 32) :
    ∃ use, (updateLatchGroup km fr group).uses km =
      takeFree ((fr.uses km).map (breakUse .pendingGroup)) use := by
  unfold updateLatchGroup
  rw [xkbFilterPress_syntheticBreakKey]
  obtain ⟨-, huses⟩ := uses_breakPress (clearableMods km) .group hok (by simp)
    fun fr _ _ hf hfunc => use_breakGroup hf hfunc fr
  obtain ⟨f, delta, -, -, -, -, -, -, heq⟩ := tapLatch_group group
  refine ⟨f.use (clearableMods km), ?_⟩
  dsimp only
  rw [heq, Frame.uses, uses_put, huses]
  rfl

/-- **Clearing all latches and locks appends no filter** exactly if there is room. -/
theorem length_clearAll_iff (hok : SlotsOk fr) :
    (clearAllLatchesAndLocks km fr).state.filters.length = fr.state.filters.length ↔
      roomToClear (fr.uses km) := by
  have hlayout : anyBit clearAllUpdate.components xkbStateLayoutLatched = true := by decide
  have hlength : ∀ fr : Frame, fr.state.filters.length = (fr.uses km).length := fun fr =>
    (length_map ..).symm
  unfold clearAllLatchesAndLocks stateUpdateLatchedLocked
  simp only [hlayout, if_true]
  rw [show resolveToCanonicalMods km clearAllUpdate.affectLatchedMods = clearableMods km from rfl,
    show clearAllUpdate.latchedMods = 0#32 from rfl, resolveToCanonicalMods_zero,
    if_neg (clearableMods_ne_zero km)]
  obtain ⟨use, hfree, hgroup, hok', huses⟩ := uses_updateLatchModifiers km
    (hok.mapComponents (updateLocks km clearAllUpdate))
  obtain ⟨use', huses'⟩ := uses_updateLatchGroup km hok' clearAllUpdate.latchedLayout
  rw [hlength, hlength, huses', huses]
  exact length_clearUses_iff (fr.uses km) hfree hgroup use'

/-! ### Turns of the loop -/

/-- Whether a filter switches the sticky keys off when it is run. -/
def stopsStickyKeys (fr : Frame) (f : XkbFilter) (k : KeyRef) (dir : KeyDirection) : Bool :=
  f.func == some .ctrls && k.addr == f.key && dir == .up && decide (f.refcnt ≤ 1) &&
    (f.action.type == .ctrlSet || !anyBit f.action.ctrls.flags actionLockNoUnlock) &&
    anyBit fr.state.components.controls controlStickyKeys &&
    !anyBit (fr.state.components.controls &&& ~~~f.priv) controlStickyKeys

theorem call_filters (clearAll : Frame → Frame) (hfunc : f.func = some func) :
    (func.call clearAll fr f k dir).frame.state.filters =
      if stopsStickyKeys fr f k dir then
        (clearAll (fr.setControls (fr.state.components.controls &&& ~~~f.priv))).state.filters
      else fr.state.filters := by
  by_cases hctrls : func = .ctrls
  · subst hctrls
    simp only [call, xkbFilterCtrlsFunc]
    by_cases hkey : k.addr = f.key
    · rw [if_neg (not_not.mpr hkey)]
      cases dir with
      | down | repeated => simp [countedSwitch, stopsStickyKeys]
      | up =>
        by_cases hcnt : f.refcnt ≤ 1
        · rw [countedSwitch, if_neg (by omega)]
          by_cases htype : f.action.type = .ctrlSet ∨
              anyBit f.action.ctrls.flags actionLockNoUnlock = false
          · have hends : (f.action.type == .ctrlSet ||
                !anyBit f.action.ctrls.flags actionLockNoUnlock) = true := by simpa using htype
            rw [if_pos htype]
            simp only [stopsStickyKeys, hfunc, hkey, hcnt, hends, beq_self_eq_true, decide_true,
              Bool.true_and]
            exact apply_ite (fun fr : Frame => fr.state.filters) ..
          · rw [if_neg htype, if_neg]
            simp_all [stopsStickyKeys]
        · rw [countedSwitch, if_pos (by omega), if_neg]
          simp [stopsStickyKeys, hcnt]
    · rw [if_pos hkey, if_neg]
      simp [stopsStickyKeys, hkey]
  · have hid : func.call clearAll fr f k dir = func.call id fr f k dir :=
      (call_cases _ func fr f k dir).resolve_right fun h => hctrls h.1
    rw [hid, (local_call func fr f k dir).filters, if_neg]
    simp [stopsStickyKeys, hfunc, hctrls]

theorem length_store (step : FilterStep) (i : ℕ) :
    (step.store i).state.filters.length = step.frame.state.filters.length := length_set

/-- **One filter appends no other** exactly if it does not switch the sticky keys off or there is
room. -/
theorem length_call_iff (hok : SlotsOk fr) (hfunc : f.func = some func) :
    ((func.call (clearAllLatchesAndLocks km) fr f k dir).store i).state.filters.length =
        fr.state.filters.length ↔
      (stopsStickyKeys fr f k dir = true → roomToClear (fr.uses km)) := by
  rw [length_store, call_filters _ hfunc]
  split
  · rename_i hstop
    have hok' : SlotsOk (fr.setControls (fr.state.components.controls &&& ~~~f.priv)) :=
      hok.mapComponents _
    exact (length_clearAll_iff hok').trans ⟨fun h _ => h, fun h => h hstop⟩
  · rename_i hstop
    exact ⟨fun _ h => absurd h hstop, fun _ => rfl⟩

/-! ### The loop -/

/-- **One turn of the loop appends no filter** exactly if its filter does not switch the sticky
keys off or there is room. -/
theorem length_turn_iff (hok : SlotsOk fr) (hk : k.addr.canHold = true) (n : ℕ) :
    (frameBefore km k dir fr (n + 1)).state.filters.length =
        (frameBefore km k dir fr n).state.filters.length ↔
      ∀ f, (frameBefore km k dir fr n).state.filters[n]? = some f →
        stopsStickyKeys (frameBefore km k dir fr n) f k dir = true →
          roomToClear ((frameBefore km k dir fr n).uses km) := by
  have hok' : SlotsOk (frameBefore km k dir fr n) := slotsOk_frameBefore hok hk n
  obtain ⟨heq, hfree⟩ | ⟨f, func, hf, hfunc, heq⟩ := frameBefore_succ km n
  · refine iff_of_true (by rw [heq]) fun f hf hstop => ?_
    simp [stopsStickyKeys, hfree f hf] at hstop
  · rw [heq, length_call_iff hok' hfunc, hf]
    simp only [Option.some.injEq, forall_eq']

/-- **The array is stable while it is iterated** – no filter is appended in any turn of the loop
over the filters – exactly if the array has room before each turn whose filter switches the sticky
keys off. The slots of every reachable state, and the keys of every keymap, are as assumed
(`Xkbcommon.ServerReachable.filtersOk`, `Xkbcommon.canHold_of_derefKey`). -/
theorem filters_stable_iff (km : XkbKeymap) (fr : Frame) (hok : SlotsOk fr)
    (hk : k.addr.canHold = true) (dir : KeyDirection) :
    (∀ n, (frameBefore km k dir fr n).state.filters.length = fr.state.filters.length) ↔
      ∀ n f, (frameBefore km k dir fr n).state.filters[n]? = some f →
        stopsStickyKeys (frameBefore km k dir fr n) f k dir = true →
          roomToClear ((frameBefore km k dir fr n).uses km) := by
  constructor
  · intro h n
    refine (length_turn_iff hok hk n).mp ?_
    rw [h (n + 1), h n]
  · intro h n
    induction n with
    | zero => rfl
    | succ n ih => rw [(length_turn_iff hok hk n).mpr (h n), ih]

/-! ### Disabling the sticky keys -/

/-- A key that enables the sticky keys while it is held. -/
def heldStickyKeymap : XkbKeymap where
  numKeysLow := 1
  keys := [oneLevelKey 0 [{ type := .ctrlSet, ctrls := { ctrls := controlStickyKeys } }]]

/-- The key. -/
def heldStickyKey : KeyRef := ⟨.key 0, heldStickyKeymap.keys.getD 0 default⟩

/-- The frame of an event of this key, which has been pressed. -/
def heldStickyFrame : Frame :=
  (Frame.mk (serverRun heldStickyKeymap .mixed [.updateKey 0 .down]) none).resetMasks

theorem slotsOk_heldStickyFrame : SlotsOk heldStickyFrame := by
  have hok := (serverReachable_serverRun heldStickyKeymap .mixed [.updateKey 0 .down]).filtersOk
  unfold heldStickyFrame
  generalize serverRun heldStickyKeymap .mixed [.updateKey 0 .down] = s at hok
  exact hok

/-- The release of the key. -/
theorem filters_stable_iff_sticky :
    (∀ n, (frameBefore heldStickyKeymap heldStickyKey .up heldStickyFrame n).state.filters.length =
        heldStickyFrame.state.filters.length) ↔
      ∀ n f, (frameBefore heldStickyKeymap heldStickyKey .up heldStickyFrame n).state.filters[n]? =
          some f →
        stopsStickyKeys (frameBefore heldStickyKeymap heldStickyKey .up heldStickyFrame n) f
            heldStickyKey .up = true →
          roomToClear ((frameBefore heldStickyKeymap heldStickyKey .up heldStickyFrame n).uses
            heldStickyKeymap) :=
  filters_stable_iff heldStickyKeymap heldStickyFrame slotsOk_heldStickyFrame (by decide) .up

/-- On its release, the one filter of the array appends two others while it runs. -/
theorem filters_grow_sticky : heldStickyFrame.state.filters.length = 1 ∧
    keyOf heldStickyKeymap 0 = some heldStickyKey ∧
    (runFilters (clearAllLatchesAndLocks heldStickyKeymap) heldStickyKey .up 1 0 heldStickyFrame
      false).1.state.filters.length = 3 := by
  decide +kernel

end Xkbcommon
