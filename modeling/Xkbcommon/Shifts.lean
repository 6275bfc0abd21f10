import Xkbcommon.Invariant

/-!
# What the filters add to the depressed group

A group action changes the depressed group while its key is down. `SetGroup` remembers
the group that it found and puts it back; `LatchGroup` remembers by how much it changed
the group and takes that off. For a filter that is there, `Xkbcommon.GroupHold` says for
which key and by how much: the difference that it made when it started.

As long as `SetGroup` finds what it left (`Xkbcommon.restoresGroup`), each filter takes
off what it added, and the depressed group is the sum of the shifts of the filters
(`Xkbcommon.GroupBalance`).
-/

namespace Xkbcommon

open Masks Xkbcommon.Frame Slots XkbFilter

variable {f f' : XkbFilter} {fr fr' : Frame} {func : FilterFunc} {i : ℕ}

/-- The shift of the depressed group by a filter, with its key and its count. -/
structure GroupHold where
  key : KeyAddr
  count : ℤ
  shift : BitVec 32
  deriving DecidableEq, Repr

/-- What a filter adds to the depressed group. A pending latch adds nothing. -/
def XkbFilter.groupHold (f : XkbFilter) : Option GroupHold :=
  match f.func with
  | some .groupSet => some ⟨f.key, f.refcnt, applyGroupDelta f.action.group f.priv - f.priv⟩
  | some .groupLatch =>
    if groupLatchLatch f.priv = latchPending then none
    else some ⟨f.key, f.refcnt, groupLatchDelta f.priv⟩
  | _ => none

/-- The shifts of the filters of the array. -/
def Frame.groupHolds (fr : Frame) (i : ℕ) : Option GroupHold :=
  (fr.slot i).bind XkbFilter.groupHold

/-- The depressed group. -/
def Frame.baseGroup (fr : Frame) : BitVec 32 := fr.state.components.baseGroup

theorem groupHold_groupSet (h : f.func = some .groupSet) : f.groupHold =
    some ⟨f.key, f.refcnt, applyGroupDelta f.action.group f.priv - f.priv⟩ := by
  rw [groupHold, h]

/-- Only the filters of groups shift the group. -/
theorem groupHold_of_ne (hset : f.func ≠ some .groupSet) (hlatch : f.func ≠ some .groupLatch) :
    f.groupHold = none := by
  unfold groupHold
  split <;> first | rfl | exact absurd ‹_› hset | exact absurd ‹_› hlatch

/-! ### One filter -/

/-- **What a filter call does to the depressed group**: nothing, or it takes off what the
filter has added. The shifts of a key end with its release, and while it is down they
consume its repeats. -/
inductive ShiftStep (k : KeyRef) (dir : KeyDirection) (fr : Frame) (f : XkbFilter)
    (step : FilterStep) : Prop
  | kept : step.filter.groupHold = f.groupHold → step.frame.baseGroup = fr.baseGroup →
      (∀ g, f.groupHold = some g → g.key = k.addr →
        dir ≠ .up ∧ (dir = .repeated → step.result = .consume)) → ShiftStep k dir fr f step
  | ended (g : GroupHold) : dir = .up → f.groupHold = some g → g.key = k.addr →
      step.filter.groupHold = none → step.frame.baseGroup = fr.baseGroup - g.shift →
      ShiftStep k dir fr f step

section Calls

variable {k : KeyRef} {dir : KeyDirection}

/-- A filter without a shift, before and after. -/
theorem shiftStep_idle {step : FilterStep} (hf : f.groupHold = none)
    (hf' : step.filter.groupHold = none) (hbase : step.frame.baseGroup = fr.baseGroup) :
    ShiftStep k dir fr f step :=
  .kept (hf'.trans hf.symm) hbase fun g hg => absurd (hf.symm.trans hg) (by simp)

theorem shiftStep_groupSet (hfunc : f.func = some .groupSet)
    (hdown : dir = .down → f.key ≠ k.addr) (hone : f.refcnt = 1)
    (hrestore : dir = .up → f.key = k.addr →
      applyGroupDelta f.action.group f.priv = fr.baseGroup) :
    ShiftStep k dir fr f (xkbFilterGroupSetFunc fr f k dir) := by
  have hhold := groupHold_groupSet hfunc
  unfold xkbFilterGroupSetFunc
  split
  · rename_i hkey
    refine .kept ?_ rfl fun g hg hgkey => ?_
    · -- clearing another flag does not change what the action does
      simp only [groupHold, hfunc, applyGroupDelta]
      rw [anyBit_and_not (by decide)]
    · obtain rfl := Option.some.inj (hhold.symm.trans hg)
      exact absurd hgkey.symm hkey
  · rename_i hkey
    rw [not_not] at hkey
    cases dir with
    | down => exact absurd hkey.symm (hdown rfl)
    | repeated => exact .kept rfl rfl fun _ _ _ => ⟨by decide, fun _ => rfl⟩
    | up =>
      rw [countedSwitch, if_neg (by omega)]
      refine .ended _ rfl hhold hkey.symm rfl ?_
      show f.priv = fr.baseGroup - (applyGroupDelta f.action.group f.priv - f.priv)
      rw [hrestore rfl hkey.symm, sub_sub_cancel]

/-- A shift belongs to the key of its filter. -/
theorem groupHold_key {g : GroupHold} (h : f.groupHold = some g) : g.key = f.key := by
  unfold groupHold at h
  split at h
  · rw [← Option.some.inj h]
  · split at h
    · cases h
    · rw [← Option.some.inj h]
  · cases h

theorem shiftStep_groupLatch (hf : SlotOk f) (hfunc : f.func = some .groupLatch) :
    ShiftStep k dir fr f (xkbFilterGroupLatchFunc fr f k dir) := by
  have hpending : groupLatchLatch f.priv = latchPending → f.groupHold = none := fun hp => by
    rw [groupHold, hfunc]
    exact if_pos hp
  have hheld : groupLatchLatch f.priv ≠ latchPending →
      f.groupHold = some ⟨f.key, f.refcnt, groupLatchDelta f.priv⟩ := fun hp => by
    rw [groupHold, hfunc]
    exact if_neg hp
  have hended : ∀ step : FilterStep, f.key = k.addr → groupLatchLatch f.priv ≠ latchPending →
      step.filter.groupHold = none →
      step.frame.baseGroup = fr.baseGroup - groupLatchDelta f.priv →
      ShiftStep k .up fr f step :=
    fun step hkey hp hnone hbase => .ended _ rfl (hheld hp) hkey hnone hbase
  unfold xkbFilterGroupLatchFunc
  cases dir with
  | repeated =>
    refine .kept rfl rfl fun g hg hgkey => ⟨by decide, fun _ => if_pos ?_⟩
    exact hgkey.symm.trans (groupHold_key hg)
  | down =>
    dsimp only
    split
    · rename_i hdown
      refine .kept ?_ rfl fun _ _ _ => ⟨by decide, fun h => absurd h (by decide)⟩
      split
      · -- the latch will not trigger, but its shift is the same
        rw [hheld (by rw [hdown]; decide)]
        simp only [groupHold, hfunc]
        rw [groupLatchLatch_priv (by decide), groupLatchDelta_priv_delta (by decide)]
        exact if_neg (by decide)
      · rfl
    · split
      · rename_i hpend
        have hnone := hpending hpend
        split
        · simp only [xkbFilterGroupLockNew]
          split <;> exact shiftStep_idle hnone rfl rfl
        · exact shiftStep_idle hnone rfl rfl
        · exact shiftStep_idle hnone hnone rfl
      · exact .kept rfl rfl fun _ _ _ => ⟨by decide, fun h => absurd h (by decide)⟩
  | up =>
    dsimp only
    split
    · rename_i hkey
      refine .kept rfl rfl fun g hg hgkey => ?_
      exact absurd (hgkey.symm.trans (groupHold_key hg)) hkey
    · rename_i hkey
      rw [not_not] at hkey
      split
      · by_cases hp : groupLatchLatch f.priv = latchPending
        · refine shiftStep_idle (hpending hp) rfl ?_
          simp only [baseGroup, mapComponents, hp, if_true]
        · refine hended _ hkey.symm hp rfl ?_
          simp only [baseGroup, mapComponents, hp, if_false]
      · split
        · rename_i hno
          exact hended _ hkey.symm (by rw [hno]; decide) rfl rfl
        · split
          · rename_i hdown
            refine hended _ hkey.symm (by rw [hdown]; decide) ?_ rfl
            simp only [groupHold, hfunc]
            rw [groupLatchLatch_priv (by decide)]
            exact if_pos rfl
          · rename_i hno hdown
            have hp : groupLatchLatch f.priv = latchPending := by
              rcases hf.groupLatch_latch hfunc with h | h | h
              · exact absurd h hno
              · exact absurd h hdown
              · exact h
            exact shiftStep_idle (hpending hp) (hpending hp) rfl

/-- **What a filter call does to the depressed group**, unless it clears the latches: the
filters other than those of groups have no part in it. -/
theorem shiftStep_call (hf : SlotOk f) (hfunc : f.func = some func)
    (hdown : ∀ g, f.groupHold = some g → dir = .down → g.key ≠ k.addr)
    (hone : ∀ g, f.groupHold = some g → g.count = 1)
    (hrestore : dir = .up → f.func = some .groupSet → f.key = k.addr →
      applyGroupDelta f.action.group f.priv = fr.baseGroup) :
    ShiftStep k dir fr f (func.call id fr f k dir) := by
  by_cases hset : func = .groupSet
  · subst hset
    have hhold := groupHold_groupSet hfunc
    exact shiftStep_groupSet hfunc (hdown _ hhold) (hone _ hhold) fun hup => hrestore hup hfunc
  by_cases hlatch : func = .groupLatch
  · subst hlatch
    exact shiftStep_groupLatch hf hfunc
  have hw := call_writes fr hfunc k dir
  refine shiftStep_idle ?_ ?_ (hw.baseGroup hset hlatch)
  · exact groupHold_of_ne (by simpa [hfunc] using hset) (by simpa [hfunc] using hlatch)
  · exact groupHold_of_ne (hw.func_ne hset (.inl rfl)) (hw.func_ne hlatch (.inr (.inl rfl)))

end Calls

/-! ### Quiet changes -/

theorem Pending.groupHold (h : Pending f) : f.groupHold = none := by
  rcases h with ⟨hfunc, -⟩ | ⟨hfunc, hp⟩
  · rw [XkbFilter.groupHold, hfunc]
  · rw [XkbFilter.groupHold, hfunc]
    exact if_pos hp

theorem QuietSlot.groupHold (h : QuietSlot f f') : f'.groupHold = f.groupHold := by
  have hdelta : ∀ component, applyGroupDelta f'.action.group component =
      applyGroupDelta f.action.group component := fun component => by
    rw [applyGroupDelta, applyGroupDelta, h.absolute, h.group]
  rcases h.priv with hp | ⟨hm, -⟩ | ⟨hg, hdown, hno⟩
  · unfold XkbFilter.groupHold
    rw [h.func, h.key, h.refcnt, hp]
    simp only [hdelta]
  · simp [XkbFilter.groupHold, h.func, hm]
  · unfold XkbFilter.groupHold
    rw [h.func, hg, h.key, h.refcnt, hno]
    dsimp only
    rw [groupLatchLatch_priv (by decide), groupLatchDelta_priv_delta (by decide), hdown,
      if_neg (by decide), if_neg (by decide)]

/-- A quiet change keeps the shift of a slot. -/
theorem QuietAt.groupHold {o o' : Option XkbFilter} (h : QuietAt o o') :
    o'.bind groupHold = o.bind groupHold :=
  h.bind (fun _ _ hq => hq.groupHold) fun _ hp => hp.groupHold

/-! ### The sum of the shifts -/

/-- The shift of a filter; a filter without one shifts by zero. -/
def XkbFilter.shift (f : XkbFilter) : BitVec 32 := (f.groupHold.map GroupHold.shift).getD 0#32

/-- The sum of the shifts of all filters. -/
def Frame.totalShift (fr : Frame) : BitVec 32 := Slots.total XkbFilter.shift fr.state.filters

/-- A slot that is not in use has no shift. -/
theorem groupHold_of_free (h : f.func = none) : f.groupHold = none :=
  groupHold_of_ne (by simp [h]) (by simp [h])

theorem groupHolds_of_getElem (hf : fr.state.filters[i]? = some f) :
    fr.groupHolds i = f.groupHold := by
  rw [groupHolds, slot_of_getElem hf, bind_busy groupHold_of_free]

theorem map_shift (fr : Frame) (i : ℕ) :
    ((fr.state.filters[i]?).map shift).getD 0 =
      ((fr.groupHolds i).map GroupHold.shift).getD 0#32 := by
  cases hf : fr.state.filters[i]? with
  | none =>
    rw [groupHolds, slot, busyAt, hf]
    rfl
  | some f =>
    rw [groupHolds_of_getElem hf]
    rfl

theorem totalShift_congr (h : ∀ i, fr'.groupHolds i = fr.groupHolds i) :
    fr'.totalShift = fr.totalShift := total_congr fun i => by rw [map_shift, map_shift, h i]

/-- Without shifts the sum is zero. -/
theorem totalShift_eq_zero (h : ∀ i, fr.groupHolds i = none) : fr.totalShift = 0#32 := by
  refine total_eq_zero fun f hf => ?_
  obtain ⟨i, hi⟩ := List.getElem?_of_mem hf
  rw [shift, ← groupHolds_of_getElem hi, h i]
  rfl

/-- The sum after a change of one slot. -/
theorem totalShift_change (hf : fr.state.filters[i]? = some f)
    (hself : fr'.groupHolds i = f'.groupHold)
    (hother : ∀ j, j ≠ i → fr'.groupHolds j = fr.groupHolds j) :
    fr'.totalShift = fr.totalShift + (f'.shift - f.shift) := by
  rw [totalShift, totalShift, ← total_set hf]
  refine total_congr fun j => ?_
  have hset := map_shift (fr.setFilter i f') j
  rw [setFilter] at hset
  rw [map_shift, hset]
  by_cases hj : j = i
  · subst hj
    have hlt := (List.getElem?_eq_some_iff.mp hf).1
    rw [hself, groupHolds_of_getElem (List.getElem?_set_self hlt)]
  · rw [hother j hj, groupHolds, groupHolds, slot, slot,
      busyAt_set (List.getElem?_eq_some_iff.mp hf).1, if_neg hj]

/-- **Clearing all latches keeps the depressed group** if it fits the field of the latch
that is tapped. -/
theorem baseGroup_clearAll {km : XkbKeymap} (hok : SlotsOk fr)
    (hfits : Bitfield.Fits 30 (0#32 - fr.baseGroup)) :
    (clearAllLatchesAndLocks km fr).baseGroup = fr.baseGroup := by
  obtain ⟨-, -, latched, hc⟩ := clearAll_effect km hok
  rw [baseGroup, hc]
  exact sub_latchDelta_eq_iff.mpr hfits

/-- **What a filter call does to the depressed group**, the clearing of the latches
included. -/
theorem shiftStep_call_clearAll (km : XkbKeymap) {k : KeyRef} {dir : KeyDirection}
    (hok : SlotsOk fr) (hf : SlotOk f) (hfunc : f.func = some func)
    (hdown : ∀ g, f.groupHold = some g → dir = .down → g.key ≠ k.addr)
    (hone : ∀ g, f.groupHold = some g → g.count = 1)
    (hrestore : dir = .up → f.func = some .groupSet → f.key = k.addr →
      applyGroupDelta f.action.group f.priv = fr.baseGroup)
    (hfits : dir = .up → Bitfield.Fits 30 (0#32 - fr.baseGroup)) :
    ShiftStep k dir fr f (func.call (clearAllLatchesAndLocks km) fr f k dir) := by
  rcases call_cases (clearAllLatchesAndLocks km) func fr f k dir with
    heq | ⟨rfl, hup, controls, -, -, heq⟩ <;> rw [heq]
  · exact shiftStep_call hf hfunc hdown hone hrestore
  · have hok' : SlotsOk (fr.setControls controls) := hok.mapComponents _
    exact shiftStep_idle (by rw [groupHold, hfunc]) rfl (baseGroup_clearAll hok' (hfits hup))

end Xkbcommon
